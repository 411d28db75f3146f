/-
  The block rings of one channel of the service of example/mesh_comm_service.cc.

  * `Code`: the points that a side can reach in its program, each with what is
    left to do after its next operation;
  * `LinkEnd.Move`: what a step of the channel does to one side;
  * `SendRing.move`, `RecvRing.move`: the blocks that the two rings of a side
    have handed out are those of its requests under way and of its receives.
-/
import RdmaCore.TowerFlow
import RdmaCore.RingWindow

namespace RdmaCore

namespace Tower

/-! ## Program points -/

/-- A request is posted. -/
def Op.isPost (o : Op) : Bool := o.isMessage || o = writeNext

/-- The request is for the block filled last. -/
def Op.isSendActive : Op → Bool
  | sendActive _ _ => true
  | _ => false

/-- What follows the barrier in the start of a side. -/
def afterSync (x : Bool) : List Op := if x then [] else [.sendNext 1 .requestBuffer]

/-- The operations that a side runs, each with what is left after it. -/
inductive Next : Bool → Op → List Op → Prop where
  | recvNext (x : Bool) (k : ℕ) :
      Next x .recvNext (List.replicate k .recvNext ++ .syncSend :: .syncRecv :: afterSync x)
  | syncSend (x : Bool) : Next x .syncSend (.syncRecv :: afterSync x)
  | syncRecv (x : Bool) : Next x .syncRecv (afterSync x)
  | request : Next false (.sendNext 1 .requestBuffer) []
  | decreaseSqe (x : Bool) : Next x .decreaseSqe [.ackSend]
  | ackSend (x : Bool) : Next x .ackSend []
  | decreaseSqeWrite : Next false .decreaseSqe [.ackSend, .writeNext]
  | ackSendWrite : Next false .ackSend [.writeNext]
  | write (k : ℕ) : Next false .writeNext (List.replicate k .writeNext)
  | ackRecv : Next true .ackRecv [.decreaseRqe, .fillNext,
      .sendActive CommDescriptor.size .responseToRequestBuffer, .recvNext]
  | decreaseRqe : Next true .decreaseRqe [.fillNext,
      .sendActive CommDescriptor.size .responseToRequestBuffer, .recvNext]
  | fillNext : Next true .fillNext
      [.sendActive CommDescriptor.size .responseToRequestBuffer, .recvNext]
  | answer : Next true (.sendActive CommDescriptor.size .responseToRequestBuffer) [.recvNext]
  | recvAgain : Next true .recvNext []
  | decreaseRqeClient : Next false .decreaseRqe
      (.ackRecv :: .loadNext :: List.replicate (numBlock - 1) .writeNext)
  | ackRecvClient : Next false .ackRecv (.loadNext :: List.replicate (numBlock - 1) .writeNext)
  | loadNext : Next false .loadNext (List.replicate (numBlock - 1) .writeNext)

/-- What is left for a side to do. -/
inductive Code (x : Bool) : List Op → Prop where
  | nil : Code x []
  | cons {o : Op} {todo : List Op} (h : Next x o todo) : Code x (o :: todo)

section
variable {x : Bool} {o : Op} {todo : List Op}

theorem code_writes (k : ℕ) : Code false (List.replicate k .writeNext) := by
  cases k with
  | zero => exact .nil
  | succ k => exact .cons (.write k)

theorem code_afterSync (x : Bool) : Code x (afterSync x) := by
  cases x with
  | true => exact .nil
  | false => exact .cons .request

theorem code_receives (x : Bool) (k : ℕ) :
    Code x (List.replicate k .recvNext ++ .syncSend :: .syncRecv :: afterSync x) := by
  cases k with
  | zero => exact .cons (.syncSend x)
  | succ k => exact .cons (.recvNext x k)

theorem Next.code (h : Next x o todo) : Code x todo := by
  cases h with
  | recvNext x k => exact code_receives x k
  | syncSend x => exact .cons (.syncRecv x)
  | syncRecv x => exact code_afterSync x
  | request => exact .nil
  | decreaseSqe x => exact .cons (.ackSend x)
  | ackSend x => exact .nil
  | decreaseSqeWrite => exact .cons .ackSendWrite
  | ackSendWrite => exact code_writes 1
  | write k => exact code_writes k
  | ackRecv => exact .cons .decreaseRqe
  | decreaseRqe => exact .cons .fillNext
  | fillNext => exact .cons .answer
  | answer => exact .cons .recvAgain
  | recvAgain => exact .nil
  | decreaseRqeClient => exact .cons .ackRecvClient
  | ackRecvClient => exact .cons .loadNext
  | loadNext => exact code_writes _

theorem code_start (x : Bool) : Code x (start x) := by
  cases x <;> exact code_receives _ numBlock

theorem code_handler {wc : Wc} (h : wc.Expected x) : Code x (handler x wc) := by
  obtain ⟨-, ⟨-, ht⟩ | ⟨rfl, -, ht⟩ | ⟨rfl, -, ht⟩ | ⟨rfl, -, ht⟩⟩ :=
    handle_cases (x := x) ⟨rfl, wc, rfl, h, rfl⟩ <;> rw [ht]
  · exact .cons (.decreaseSqe x)
  · exact .cons .ackRecv
  · exact .cons .decreaseRqeClient
  · exact .cons .decreaseSqeWrite

end

theorem Next.head_todo {x : Bool} {o : Op} {todo : List Op} (h : Next x o todo) :
    todo.head?.any Op.isSendActive = decide (o = .fillNext) := by
  cases h with
  | recvNext x k => cases k <;> rfl
  | syncRecv x => cases x <;> rfl
  | write k => cases k <;> rfl
  | _ => rfl

theorem count_writes {o : Op} (ho : o ≠ .writeNext) (k : ℕ) :
    (List.replicate k Op.writeNext).count o = 0 :=
  List.count_eq_zero.2 fun h => ho (List.eq_of_mem_replicate h)

/-- Blocks are given back before others are handed out. -/
theorem Next.count_ackSend {x : Bool} {o : Op} {todo : List Op} (h : Next x o todo)
    (ho : o.isPost = true ∨ o = .fillNext) : todo.count .ackSend = 0 := by
  cases h with
  | request | answer | fillNext => rfl
  | write k => exact count_writes (by decide) k
  | _ => simp [Op.isPost, Op.isMessage] at ho

theorem Next.count_ackSend_cons {x : Bool} {o : Op} {todo : List Op} (h : Next x o todo)
    (ho : o.isPost = true ∨ o = .fillNext) : (o :: todo).count .ackSend = 0 := by
  rw [List.count_cons_of_ne, h.count_ackSend ho]
  rintro rfl
  simp [Op.isPost, Op.isMessage] at ho

theorem Next.count_ackRecv {x : Bool} {o : Op} {todo : List Op} (h : Next x o todo)
    (ho : o = .recvNext ∨ o = .loadNext) : todo.count .ackRecv = 0 := by
  cases h with
  | recvNext x k =>
    have hrecv : (List.replicate k Op.recvNext).count .ackRecv = 0 :=
      List.count_eq_zero.2 fun h => Op.noConfusion (List.eq_of_mem_replicate h)
    rw [List.count_append, hrecv]
    cases x <;> rfl
  | recvAgain => rfl
  | loadNext => exact count_writes (by decide) _
  | _ => simp at ho

theorem Next.count_ackRecv_cons {x : Bool} {o : Op} {todo : List Op} (h : Next x o todo)
    (ho : o = .recvNext ∨ o = .loadNext) : (o :: todo).count .ackRecv = 0 := by
  rw [List.count_cons_of_ne, h.count_ackRecv ho]
  rintro rfl
  simp at ho

/-- A completion of an own request gives one block back. -/
theorem handler_send {x : Bool} {wc : Wc} (h : wc.Expected x) :
    (handler x wc).count .ackSend = (if wc.ofSq then 1 else 0) ∧
      (handler x wc).head?.any Op.isSendActive = false := by
  cases wc with
  | sent k =>
    obtain rfl | rfl := h
    · cases x <;> exact ⟨rfl, rfl⟩
    · cases k <;> exact ⟨rfl, rfl⟩
  | recv imm =>
    obtain rfl : imm = (expectedTag x).toImm := h
    cases x <;> exact ⟨by decide, rfl⟩

/-- A completion of a receive gives one block back. -/
theorem handler_recv {x : Bool} {wc : Wc} (h : wc.Expected x) :
    (handler x wc).count .ackRecv = (if wc.ofSq then 0 else 1) ∧
      (x = false → (handler x wc).count .recvNext = 0) := by
  cases wc with
  | sent k =>
    obtain rfl | rfl := h
    · cases x <;> exact ⟨rfl, fun _ => rfl⟩
    · cases k <;> exact ⟨rfl, fun _ => rfl⟩
  | recv imm =>
    obtain rfl : imm = (expectedTag x).toImm := h
    cases x
    · exact ⟨by decide, fun _ => by decide⟩
    · exact ⟨by decide, nofun⟩

/-! ## The moves of a side -/

/-- A request that the side `x` posts. -/
def Request.Expected (x : Bool) : Request → Prop
  | send _ len tag => tag = expectedTag (!x) ∧ len = if x then CommDescriptor.size else 1
  | write _ len _ => x = false ∧ len = blockSize

/-- What a step of the channel does to one side. -/
inductive LinkEnd.Move (x : Bool) (e : LinkEnd) : Link.Label → LinkEnd → Prop where
  | perform {o : Op} {todo : List Op} {me : Chan} (ht : e.todo = o :: todo)
      (hp : e.chan.Performs o me) : Move x e (.op x o) { e with todo, chan := me }
  | handle {wc : Wc} {cq : List Wc} (ht : e.todo = []) (hq : e.cq = wc :: cq) :
      Move x e (.handle x wc) { e with todo := handler x wc, cq }
  | fetch {j : ℕ} {r : Request} (hj : e.chan.sq[j]? = some ⟨r, none⟩) :
      Move x e (.fetch x) { e with
        chan := { e.chan with
          sq := e.chan.sq.set j ⟨r, some (e.chan.sendMem.read (r.block * blockSize) r.len)⟩ } }
  | sent {p : Posted} {sq : List Posted} (hq : e.chan.sq = p :: sq) :
      Move x e (.deliver x p.request.kind) { e with
        chan := { e.chan with sq, acks := e.chan.acks ++ [p.request.kind] } }
  | received {i : ℕ} {rq : List ℕ} (data : List UInt8) (hr : e.chan.rq = i :: rq) :
      Move x e (.deliver (!x) .send) { e with
        chan := { e.chan with rq, recvMem := e.chan.recvMem.write (i * blockSize) data }
        cq := e.cq ++ [.recv (expectedTag x).toImm] }
  | written (a : ℕ) (data : List UInt8) :
      Move x e (.deliver (!x) .write)
        { e with chan := { e.chan with sendMem := e.chan.sendMem.write a data } }
  | report {k : Kind} {acks : List Kind} (ha : e.chan.acks = k :: acks) :
      Move x e (.report x k) { e with chan := { e.chan with acks }, cq := e.cq ++ [.sent k] }

theorem Link.Step.moves {l l' : Link} {lab : Link.Label} (hs : Link.Step l lab l')
    (hreq : ∀ x, ∀ p ∈ (l.side x).chan.sq, p.request.Expected x) (y : Bool) :
    (l'.side y = l.side y ∧ ∀ o, lab ≠ .op y o) ∨ (l.side y).Move y lab (l'.side y) := by
  revert y
  cases hs with
  | @perform x o todo reported me ht hs hr hp =>
    rw [Bool.forall_bool' x]
    refine ⟨.inr ?_, .inl ⟨l.set_side_not x _, by simp⟩⟩
    rw [set_side_self]
    exact .perform ht (Chan.performs hp)
  | @syncSend x todo ht =>
    rw [Bool.forall_bool' x]
    refine ⟨.inr ?_, .inl ⟨l.set_side_not x _, by simp⟩⟩
    rw [setSynced_side, set_side_self]
    exact .perform ht .syncSend
  | @syncRecv x todo ht =>
    rw [Bool.forall_bool' x]
    refine ⟨.inr ?_, .inl ⟨l.set_side_not x _, by simp⟩⟩
    rw [setSynced_side, set_side_self]
    exact .perform ht .syncRecv
  | @handle x wc cq ht hq =>
    rw [Bool.forall_bool' x]
    refine ⟨.inr ?_, .inl ⟨l.set_side_not x _, by simp⟩⟩
    rw [set_side_self]
    exact .handle ht hq
  | @fetch x j r hj =>
    rw [Bool.forall_bool' x]
    refine ⟨.inr ?_, .inl ⟨l.set_side_not x _, by simp⟩⟩
    rw [set_side_self]
    exact .fetch hj
  | @message x b len i tag data sq rq hq hr =>
    rw [Bool.forall_bool' x]
    obtain ⟨rfl, -⟩ : Request.Expected x (.send b len tag) :=
      hreq x ⟨.send b len tag, some data⟩ (hq ▸ List.mem_cons_self)
    refine ⟨.inr ?_, .inr ?_⟩
    · rw [set_not_side, set_side_self]
      exact .sent hq
    · rw [set_side_self]
      simpa only [Bool.not_not] using LinkEnd.Move.received (x := !x) data hr
  | @write x b len a d data sq hq ha =>
    rw [Bool.forall_bool' x]
    refine ⟨.inr ?_, .inr ?_⟩
    · rw [set_not_side, set_side_self]
      exact .sent hq
    · rw [set_side_self]
      simpa only [Bool.not_not] using LinkEnd.Move.written (x := !x) a data
  | @report x k acks ha =>
    rw [Bool.forall_bool' x]
    refine ⟨.inr ?_, .inl ⟨l.set_side_not x _, by simp⟩⟩
    rw [set_side_self]
    exact .report ha

/-! ## The rings of a side -/

namespace LinkEnd

/-- Own requests that are posted and not handled. -/
def flight (e : LinkEnd) : ℕ :=
  e.chan.sq.length + e.chan.acks.length + e.cq.countP Wc.ofSq

/-- Receives that are posted and not handled. -/
def recvs (e : LinkEnd) : ℕ := e.chan.rq.length + e.received

/-- The turn of the send ring that the next request uses, after `q` calls of `last()`. -/
def turn (e : LinkEnd) (q : ℕ) : ℕ := q + e.todo.count .ackSend + e.flight

/-- The next request is for a block that is already handed out. -/
def ahead (e : LinkEnd) : ℕ := if e.todo.head?.any Op.isSendActive then 1 else 0

/-- The send ring after `q` calls of `last()`. -/
structure SendRing (e : LinkEnd) (q : ℕ) : Prop where
  window : RingWindow numBlock (e.turn q + e.ahead) q
    ⟨e.chan.send, Window.slots numBlock q (e.turn q + e.ahead)⟩
  blocks : e.chan.sq.map (·.request.block) =
    Window.slots numBlock (e.turn q - e.chan.sq.length) (e.turn q)
  active : e.ahead = 1 → e.chan.active = e.turn q % numBlock

/-- The moves that leave the send ring alone. -/
theorem SendRing.frame {e e' : LinkEnd} {q : ℕ} (h : e.SendRing q)
    (hsend : e'.chan.send = e.chan.send) (hactive : e'.chan.active = e.chan.active)
    (hsq : e'.chan.sq.map (·.request.block) = e.chan.sq.map (·.request.block))
    (hturn : e'.turn q = e.turn q) (hahead : e'.ahead = e.ahead) : e'.SendRing q where
  window := by rw [hturn, hahead, hsend]; exact h.window
  blocks := by
    have hlen : e'.chan.sq.length = e.chan.sq.length := by simpa using congrArg List.length hsq
    rw [hturn, hsq, hlen]; exact h.blocks
  active := by rw [hahead, hactive, hturn]; exact h.active

theorem cursorIndex_numBlock (i : ℕ) : cursorIndex numBlock i = i % numBlock :=
  cursorIndex_of_dvd i (by decide)

section
variable {x : Bool} {e : LinkEnd} {q : ℕ} {o : Op} {todo : List Op} {me : Chan}

/-- `next()` on the send ring. -/
theorem SendRing.next (h : e.SendRing q) (hroom : e.turn q + e.ahead < q + numBlock) :
    ∃ send, e.chan.send.next = .ok (send, (e.turn q + e.ahead) % numBlock) ∧
      RingWindow numBlock (e.turn q + e.ahead + 1) q
        ⟨send, Window.slots numBlock q (e.turn q + e.ahead + 1)⟩ := by
  obtain ⟨send, hn, -, hw⟩ := h.window.next_of_index hroom (cursorIndex_numBlock _)
  refine ⟨send, hn, ?_⟩
  rw [Window.slots_succ h.window.le]
  exact hw

/-- The block that `next()` hands out to a request. -/
theorem SendRing.handed {send : RDMABuffer} {i : ℕ} (h : e.SendRing q) (hahead : e.ahead = 0)
    (hack : e.todo.count .ackSend = 0) (hpost : 0 < e.todo.countP Op.isPost)
    (hroom : e.flight + e.todo.countP Op.isPost ≤ numBlock)
    (hnext : e.chan.send.next = .ok (send, i)) : i = e.turn q % numBlock ∧
      RingWindow numBlock (e.turn q + 1) q ⟨send, Window.slots numBlock q (e.turn q + 1)⟩ := by
  obtain ⟨send', hnext', hw⟩ := h.next (by rw [hahead, turn, hack]; omega)
  rw [hahead, Nat.add_zero] at hnext' hw
  obtain ⟨rfl, rfl⟩ := Prod.mk.inj (Except.ok.inj (hnext'.symm.trans hnext))
  exact ⟨rfl, hw⟩

/-- A request for the next block. -/
theorem SendRing.post {send : RDMABuffer} {r : Request} (h : e.SendRing q)
    (hblock : r.block = e.turn q % numBlock) (hack : todo.count .ackSend = e.todo.count .ackSend)
    (hhead : todo.head?.any Op.isSendActive = false)
    (hw : RingWindow numBlock (e.turn q + 1) q ⟨send, Window.slots numBlock q (e.turn q + 1)⟩)
    (hsend : me.send = send) (hsq : me.sq = e.chan.sq ++ [⟨r, none⟩])
    (hacks : me.acks = e.chan.acks) : ({ e with todo, chan := me } : LinkEnd).SendRing q := by
  have hturn : ({ e with todo, chan := me } : LinkEnd).turn q = e.turn q + 1 := by
    simp only [turn, flight, hack, hsq, hacks, List.length_append, List.length_singleton]
    omega
  have hahead : ({ e with todo, chan := me } : LinkEnd).ahead = 0 := by simp [ahead, hhead]
  have hle : e.chan.sq.length ≤ e.turn q := by rw [turn, flight]; omega
  refine ⟨?_, ?_, ?_⟩
  · rw [hturn, hahead, hsend]
    exact hw
  · rw [hturn, hsq, List.map_append, h.blocks, List.length_append, List.length_singleton,
      show e.turn q + 1 - (e.chan.sq.length + 1) = e.turn q - e.chan.sq.length by omega,
      Window.slots_succ (Nat.sub_le _ _), ← hblock]
    rfl
  · rw [hahead]
    exact nofun

/-- An operation that has nothing to do with the send ring. -/
theorem SendRing.other (h : e.SendRing q) (ht : e.todo = o :: todo) (hn : Next x o todo)
    (hack : o ≠ .ackSend) (hfill : o ≠ .fillNext) (hact : o.isSendActive = false)
    (hsend : me.send = e.chan.send) (hactive : me.active = e.chan.active)
    (hsq : me.sq = e.chan.sq) (hacks : me.acks = e.chan.acks) :
    ({ e with todo, chan := me } : LinkEnd).SendRing q := by
  have hhead : todo.head?.any Op.isSendActive = false := by rw [hn.head_todo, decide_eq_false hfill]
  refine h.frame hsend hactive (by rw [hsq]) ?_ ?_
  · simp only [turn, flight, ht, hsq, hacks, List.count_cons_of_ne hack]
  · simp [ahead, ht, hact, hhead]

/-- **The send ring keeps its window**: the blocks handed out are those of the
    requests under way. -/
theorem SendRing.perform (h : e.SendRing q) (ht : e.todo = o :: todo) (hn : Next x o todo)
    (hroom : e.flight + e.todo.countP Op.isPost ≤ numBlock) (hp : e.chan.Performs o me) :
    ∃ q', ({ e with todo, chan := me } : LinkEnd).SendRing q' := by
  have hzero {o' : Op} (ho' : o = o') (hact : o'.isSendActive = false) : e.ahead = 0 := by
    simp [ahead, ht, ho', hact]
  cases hp with
  | recvNext | syncSend | syncRecv | decreaseSqe | decreaseRqe | ackRecv | loadNext =>
    exact ⟨q, h.other ht hn nofun nofun rfl rfl rfl rfl rfl⟩
  | @sendNext send i len tag hnext =>
    have hcount : e.todo.count .ackSend = 0 := ht ▸ hn.count_ackSend_cons (.inl rfl)
    have hpost : 0 < e.todo.countP Op.isPost := by rw [ht, List.countP_cons_of_pos rfl]; omega
    obtain ⟨hi, hw⟩ := h.handed (hzero rfl rfl) hcount hpost hroom hnext
    exact ⟨q, h.post (r := .send i len tag) hi (by rw [hcount, hn.count_ackSend (.inl rfl)])
      hn.head_todo hw rfl rfl rfl⟩
  | @writeNext send i b hnext hb =>
    have hcount : e.todo.count .ackSend = 0 := ht ▸ hn.count_ackSend_cons (.inl rfl)
    have hpost : 0 < e.todo.countP Op.isPost := by rw [ht, List.countP_cons_of_pos rfl]; omega
    obtain ⟨hi, hw⟩ := h.handed (hzero rfl rfl) hcount hpost hroom hnext
    exact ⟨q, h.post (r := .write i (b.bufferSize % 2 ^ 32) e.chan.peerComm) hi
      (by rw [hcount, hn.count_ackSend (.inl rfl)]) hn.head_todo hw rfl rfl rfl⟩
  | @sendActive len tag =>
    have hcount : e.todo.count .ackSend = 0 := ht ▸ hn.count_ackSend_cons (.inl rfl)
    have hahead : e.ahead = 1 := by simp [ahead, ht, Op.isSendActive]
    have hw := h.window
    rw [hahead] at hw
    exact ⟨q, h.post (r := .send e.chan.active len tag) (h.active hahead)
      (by rw [hcount, hn.count_ackSend (.inl rfl)]) hn.head_todo hw rfl rfl rfl⟩
  | @fillNext send i hnext =>
    have hcount : e.todo.count .ackSend = 0 := ht ▸ hn.count_ackSend_cons (.inr rfl)
    have hpost : 0 < e.todo.countP Op.isPost := by
      cases hn
      rw [ht]; decide
    obtain ⟨hi, hw⟩ := h.handed (hzero rfl rfl) hcount hpost hroom hnext
    have hturn : ∀ me : Chan, me.sq = e.chan.sq → me.acks = e.chan.acks →
        ({ e with todo, chan := me } : LinkEnd).turn q = e.turn q := by
      intro me hsq hacks
      simp only [turn, flight, hsq, hacks, hn.count_ackSend (.inr rfl), hcount]
    have hahead' : ∀ me : Chan, ({ e with todo, chan := me } : LinkEnd).ahead = 1 := by
      intro me
      simp [ahead, hn.head_todo]
    refine ⟨q, ?_, ?_, fun _ => ?_⟩
    · rw [hahead', hturn _ (by rfl) (by rfl)]
      exact hw
    · rw [hturn _ (by rfl) (by rfl)]
      exact h.blocks
    · rw [hturn _ (by rfl) (by rfl)]
      exact hi
  | @ackSend send i hlast =>
    have hahead := hzero rfl rfl
    have hw := h.window
    rw [hahead, Nat.add_zero] at hw
    have hpos : q < e.turn q := by rw [turn, ht, List.count_cons_self]; omega
    obtain ⟨send', hlast', -, -, hw'⟩ := hw.last_of_index hpos (cursorIndex_numBlock _)
    obtain ⟨rfl, rfl⟩ := Prod.mk.inj (Except.ok.inj (hlast'.symm.trans hlast))
    rw [Window.slots_eq_cons hpos, List.erase_cons_head] at hw'
    have hturn : ({ e with todo, chan := { e.chan with send := send' } } : LinkEnd).turn (q + 1) =
        e.turn q := by
      simp only [turn, flight, ht, List.count_cons_self]
      omega
    have hahead' : ({ e with todo, chan := { e.chan with send := send' } } : LinkEnd).ahead =
        0 := by simp [ahead, hn.head_todo]
    refine ⟨q + 1, ?_, ?_, ?_⟩
    · rw [hturn, hahead']
      exact hw'
    · rw [hturn]
      exact h.blocks
    · rw [hahead']
      exact nofun

theorem SendRing.move {lab : Link.Label} {e' : LinkEnd} (h : e.SendRing q) (hc : Code x e.todo)
    (hexp : ∀ wc ∈ e.cq, wc.Expected x)
    (hroom : e.flight + e.todo.countP Op.isPost ≤ numBlock) (hm : e.Move x lab e') :
    ∃ q', e'.SendRing q' := by
  cases hm with
  | @perform o todo me ht hp =>
    rw [ht] at hc
    cases hc with
    | cons hn => exact h.perform ht hn hroom hp
  | @handle wc cq ht hq =>
    obtain ⟨hack, hhead⟩ := handler_send (hexp wc (hq ▸ List.mem_cons_self))
    refine ⟨q, h.frame rfl rfl rfl ?_ ?_⟩
    · simp only [turn, flight, hack, ht, hq, List.count_nil, List.countP_cons]
      omega
    · simp [ahead, hhead, ht]
  | @fetch j r hj =>
    have hreq := congrArg (List.map Request.block) (requests_set hj
      (some (e.chan.sendMem.read (r.block * blockSize) r.len)))
    rw [List.map_map, List.map_map] at hreq
    refine ⟨q, h.frame rfl rfl hreq ?_ rfl⟩
    simp only [turn, flight, List.length_set]
  | @sent p sq hq =>
    have hturn : ({ e with chan := { e.chan with sq, acks := e.chan.acks ++ [p.request.kind] } } :
        LinkEnd).turn q = e.turn q := by
      simp only [turn, flight, hq, List.length_cons, List.length_append, List.length_nil]
      omega
    have hle : e.chan.sq.length ≤ e.turn q := by rw [turn, flight]; omega
    refine ⟨q, ?_, ?_, fun ha => ?_⟩
    · rw [hturn]
      exact h.window
    · have hblocks := h.blocks
      rw [hq, List.length_cons] at hle
      rw [hq, List.map_cons, List.length_cons, Window.slots_eq_cons (by omega)] at hblocks
      rw [hturn, (List.cons.inj hblocks).2]
      congr 1
      show e.turn q - (sq.length + 1) + 1 = e.turn q - sq.length
      omega
    · rw [hturn]
      exact h.active ha
  | @received i rq data hr =>
    refine ⟨q, h.frame rfl rfl rfl ?_ rfl⟩
    simp [turn, flight, Wc.ofSq]
  | @written a data => exact ⟨q, h.frame rfl rfl rfl rfl rfl⟩
  | @report k acks ha =>
    refine ⟨q, h.frame rfl rfl rfl ?_ rfl⟩
    simp only [turn, flight, ha, List.countP_append, List.countP_singleton, Wc.ofSq, if_true,
      List.length_cons]
    omega

end

/-! ### Receives -/

/-- The receive ring after `p` calls of `next()`, `loaded` of them for the
    descriptor, and `q` calls of `last()`. -/
structure RecvRing (x : Bool) (e : LinkEnd) (p q loaded : ℕ) : Prop where
  window : RingWindow numBlock p q ⟨e.chan.recv, Window.slots numBlock q p⟩
  count : p = q + e.todo.count .ackRecv + e.recvs + loaded
  blocks : e.chan.rq = Window.slots numBlock (p - loaded - e.chan.rq.length) (p - loaded)
  posted : x = false → p - loaded + e.todo.count .recvNext = numBlock
  server : x = true → loaded = 0

section
variable {x : Bool} {e : LinkEnd} {p q loaded : ℕ} {o : Op} {todo : List Op} {me : Chan}

/-- The moves that leave the receive ring alone. -/
theorem RecvRing.frame {e' : LinkEnd} (h : RecvRing x e p q loaded)
    (hrecv : e'.chan.recv = e.chan.recv) (hrq : e'.chan.rq = e.chan.rq)
    (hack : e'.todo.count .ackRecv = e.todo.count .ackRecv)
    (hnext : x = false → e'.todo.count .recvNext = e.todo.count .recvNext)
    (hrecvs : e'.recvs = e.recvs) : RecvRing x e' p q loaded where
  window := hrecv ▸ h.window
  count := by rw [hack, hrecvs]; exact h.count
  blocks := by rw [hrq]; exact h.blocks
  posted hx := by rw [hnext hx]; exact h.posted hx
  server := h.server

/-- An operation that has nothing to do with the receive ring. -/
theorem RecvRing.other (h : RecvRing x e p q loaded) (ht : e.todo = o :: todo)
    (hack : o ≠ .ackRecv) (hnext : o ≠ .recvNext) (hrecv : me.recv = e.chan.recv)
    (hrq : me.rq = e.chan.rq) : RecvRing x { e with todo, chan := me } p q loaded := by
  refine h.frame hrecv hrq ?_ (fun _ => ?_) ?_
  · rw [ht, List.count_cons_of_ne hack]
  · rw [ht, List.count_cons_of_ne hnext]
  · simp only [recvs, received, hrq]

/-- **The receive ring keeps its window.** -/
theorem RecvRing.perform (h : RecvRing x e p q loaded) (ht : e.todo = o :: todo)
    (hn : Next x o todo) (hroom : e.recvs + e.todo.count .recvNext ≤ numBlock)
    (hload : o = .loadNext → e.recvs < numBlock)
    (hloaded : o = .recvNext ∨ o = .loadNext → loaded = 0) (hp : e.chan.Performs o me) :
    ∃ p' q', RecvRing x { e with todo, chan := me } p' q'
      (loaded + if o = .loadNext then 1 else 0) := by
  have hcount := h.count
  cases hp with
  | syncSend | syncRecv | sendNext | decreaseSqe | decreaseRqe | ackSend | fillNext | sendActive
  | writeNext => exact ⟨p, q, h.other ht nofun nofun rfl rfl⟩
  | @recvNext recv i hnext =>
    obtain rfl := hloaded (.inl rfl)
    have hack : e.todo.count .ackRecv = 0 := ht ▸ hn.count_ackRecv_cons (.inl rfl)
    have hleft : e.todo.count .recvNext = todo.count .recvNext + 1 := by
      rw [ht, List.count_cons_self]
    obtain ⟨recv', hnext', -, hw⟩ := h.window.next_of_index (by omega) (cursorIndex_numBlock _)
    obtain ⟨rfl, rfl⟩ := Prod.mk.inj (Except.ok.inj (hnext'.symm.trans hnext))
    have hle : e.chan.rq.length ≤ p := by rw [recvs] at hcount; omega
    have hblocks := h.blocks
    simp only [reduceCtorEq, if_false, Nat.add_zero]
    refine ⟨p + 1, q, ?_, ?_, ?_, fun hx => ?_, fun _ => rfl⟩
    · rw [Window.slots_succ h.window.le]
      exact hw
    · simp only [recvs, received, hn.count_ackRecv (.inl rfl), hack, List.length_append,
        List.length_singleton] at hcount ⊢
      omega
    · simp only [List.length_append, List.length_singleton, Nat.sub_zero] at hblocks ⊢
      rw [show p + 1 - (e.chan.rq.length + 1) = p - e.chan.rq.length by omega,
        Window.slots_succ (Nat.sub_le _ _), ← hblocks]
    · have := h.posted hx
      rw [hleft] at this
      show p + 1 - 0 + todo.count .recvNext = numBlock
      omega
  | @ackRecv recv i hlast =>
    have hack : e.todo.count .ackRecv = todo.count .ackRecv + 1 := by rw [ht, List.count_cons_self]
    have hpos : q < p := by omega
    obtain ⟨recv', hlast', -, -, hw⟩ := h.window.last_of_index hpos (cursorIndex_numBlock _)
    obtain ⟨rfl, rfl⟩ := Prod.mk.inj (Except.ok.inj (hlast'.symm.trans hlast))
    rw [Window.slots_eq_cons hpos, List.erase_cons_head] at hw
    refine ⟨p, q + 1, hw, ?_, h.blocks, fun hx => ?_, h.server⟩
    · simp only [recvs, received, reduceCtorEq, if_false] at hcount ⊢
      omega
    · have := h.posted hx
      rw [ht, List.count_cons_of_ne (by decide)] at this
      exact this
  | @loadNext recv i hnext =>
    obtain rfl := hloaded (.inr rfl)
    have hack : e.todo.count .ackRecv = 0 := ht ▸ hn.count_ackRecv_cons (.inr rfl)
    have hlt := hload rfl
    obtain ⟨recv', hnext', -, hw⟩ := h.window.next_of_index (by omega) (cursorIndex_numBlock _)
    obtain ⟨rfl, rfl⟩ := Prod.mk.inj (Except.ok.inj (hnext'.symm.trans hnext))
    refine ⟨p + 1, q, ?_, ?_, ?_, fun hx => ?_, fun hx => ?_⟩
    · rw [Window.slots_succ h.window.le]
      exact hw
    · simp only [recvs, received, hn.count_ackRecv (.inr rfl), hack, if_true] at hcount ⊢
      omega
    · exact h.blocks
    · have := h.posted hx
      rw [ht, List.count_cons_of_ne (by decide)] at this
      exact this
    · subst hx
      cases hn

theorem RecvRing.move {lab : Link.Label} {e' : LinkEnd} (h : RecvRing x e p q loaded)
    (hc : Code x e.todo) (hexp : ∀ wc ∈ e.cq, wc.Expected x)
    (hroom : e.recvs + e.todo.count .recvNext ≤ numBlock)
    (hload : e.todo.head? = some .loadNext → e.recvs < numBlock)
    (hloaded : e.todo.head? = some .recvNext ∨ e.todo.head? = some .loadNext → loaded = 0)
    (hm : e.Move x lab e') :
    ∃ p' q', RecvRing x e' p' q' (loaded + if lab = .op x .loadNext then 1 else 0) := by
  cases hm with
  | @perform o todo me ht hp =>
    rw [ht] at hc
    cases hc with
    | cons hn =>
      obtain ⟨p', q', h'⟩ := h.perform ht hn hroom (fun ho => hload (by rw [ht, ho]; rfl))
        (fun ho => hloaded (by rw [ht]; simpa using ho)) hp
      refine ⟨p', q', ?_⟩
      simpa only [Link.Label.op.injEq, true_and] using h'
  | @handle wc cq ht hq =>
    obtain ⟨hack, hnext⟩ := handler_recv (hexp wc (hq ▸ List.mem_cons_self))
    have hcount := h.count
    refine ⟨p, q, h.window, ?_, h.blocks, fun hx => ?_, h.server⟩
    · simp only [recvs, received, hack, ht, hq, List.count_nil, List.countP_cons] at hcount ⊢
      cases hsq : wc.ofSq <;> simp [hsq] at hcount ⊢ <;> omega
    · have := h.posted hx
      rw [ht, List.count_nil] at this
      rw [hnext hx]
      exact this
  | @fetch j r hj => exact ⟨p, q, h.frame rfl rfl rfl (fun _ => rfl) rfl⟩
  | @sent r sq hq => exact ⟨p, q, h.frame rfl rfl rfl (fun _ => rfl) rfl⟩
  | @received i rq data hr =>
    have hcount := h.count
    have hblocks := h.blocks
    have hle : e.chan.rq.length ≤ p - loaded := by rw [recvs] at hcount; omega
    rw [hr, List.length_cons] at hle
    rw [hr, List.length_cons, Window.slots_eq_cons (by omega)] at hblocks
    refine ⟨p, q, h.window, ?_, ?_, h.posted, h.server⟩
    · simp only [recvs, received, hr, List.length_cons, List.countP_append, List.countP_singleton,
        Wc.ofSq, Bool.not_false, if_true, reduceCtorEq, if_false] at hcount ⊢
      omega
    · show rq = Window.slots numBlock (p - loaded - rq.length) (p - loaded)
      rw [show p - loaded - rq.length = p - loaded - (rq.length + 1) + 1 by omega]
      exact (List.cons.inj hblocks).2
  | @written a data => exact ⟨p, q, h.frame rfl rfl rfl (fun _ => rfl) rfl⟩
  | @report k acks ha =>
    refine ⟨p, q, h.frame rfl rfl rfl (fun _ => rfl) ?_⟩
    simp [recvs, received, Wc.ofSq]

end

end LinkEnd

end Tower

end RdmaCore

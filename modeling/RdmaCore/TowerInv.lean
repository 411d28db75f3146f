/-
  What holds of one channel of the service of example/mesh_comm_service.cc in
  every run.

  * `LinkEnd.Inv`: the invariant of one side, kept by whatever a step does to
    it; the buffers stay where they are, the counters are exact;
  * `Link.Data`: the bytes of the server's descriptor, on their way to the
    client and in its writes;
  * `Link.Inv.step`: every step of a channel keeps its invariant.
-/
import RdmaCore.TowerRings

namespace RdmaCore

/-- A descriptor stored in memory is read back. -/
theorem CommDescriptor.load_eq {m : ByteMem} {a : ℕ} {d : CommDescriptor}
    (h : m.read a size = d.toBytes) : load m a = d := by
  obtain ⟨haddr, hlength, hrkey⟩ := load_of_read h
  have hfd : m.read (a + 20) 4 = leBytes 4 d.fd.toNat := by
    rw [size, show 24 = 20 + 4 from rfl, ByteMem.read_add, toBytes] at h
    exact (List.append_inj h (by simp)).2
  have hfd' : UInt32.ofNat (leNat (m.read (a + 20) 4)) = d.fd := by
    rw [hfd, leNat_leBytes d.fd.toNat_lt]; simp
  simp only [load, haddr, hlength, hrkey, hfd']

namespace Tower

/-! ## Buffers -/

/-- The descriptor of a buffer that `process_CQ` of a server advertises. -/
def Placement.descriptor (p : Placement) : CommDescriptor where
  bufferAddr := .ofNat p.sendPtr
  bufferLength := .ofNat (blockSize * numBlock)
  rkey := p.rkey
  fd := 0

/-- Both buffers of a side are placed. -/
structure Chan.Placed (p : Placement) (me : Chan) : Prop where
  send : RdmaCore.Placed blockSize numBlock p.sendPtr me.send
  recv : RdmaCore.Placed blockSize numBlock p.recvPtr me.recv
  rkey : me.rkey = p.rkey

namespace Chan.Placed

variable {p : Placement} {me me' : Chan}

theorem init (c : ChannelId) (p : Placement) : (Chan.init c p).Placed p :=
  ⟨.registered _ _ _ (by decide) (by decide) (by decide) p.sendPtr_pos p.sendPtr_le,
    .registered _ _ _ (by decide) (by decide) (by decide) p.recvPtr_pos p.recvPtr_le, rfl⟩

theorem descriptor (h : me.Placed p) : me.descriptor = p.descriptor := by
  simp only [Chan.descriptor, Placement.descriptor, h.send.dataPtr, h.send.bufferSize, h.rkey]

theorem performs {o : Op} (h : me.Placed p) (hp : me.Performs o me') : me'.Placed p := by
  cases hp with
  | recvNext hn | loadNext hn => exact ⟨h.send, h.recv.next hn, h.rkey⟩
  | sendNext hn | fillNext hn | writeNext hn => exact ⟨h.send.next hn, h.recv, h.rkey⟩
  | ackSend hl => exact ⟨h.send.last hl, h.recv, h.rkey⟩
  | ackRecv hl => exact ⟨h.send, h.recv.last hl, h.rkey⟩
  | syncSend | syncRecv | decreaseSqe | decreaseRqe | sendActive => exact ⟨h.send, h.recv, h.rkey⟩

/-- A write with the descriptor of the buffer hits it. -/
theorem offset {len : ℕ} (h : me.Placed p) (hlen : len ≤ blockSize) :
    me.offset p.descriptor len = some 0 := by
  have hptr : (UInt64.ofNat p.sendPtr).toNat = p.sendPtr := by
    have := p.sendPtr_le
    rw [UInt64.toNat_ofNat', Nat.mod_eq_of_lt]
    simp only [blockSize, numBlock] at this
    omega
  have hle : p.sendPtr + len ≤ p.sendPtr + blockSize * numBlock := by
    simp only [blockSize, numBlock] at hlen ⊢
    omega
  simp only [Chan.offset, Placement.descriptor, h.send.dataPtr, h.send.bufferSize, h.rkey, hptr,
    hle, le_refl, and_self, if_true, Nat.sub_self]

end Chan.Placed

/-! ## One side -/

/-- What holds of one side. -/
structure LinkEnd.Inv (p : Placement) (x : Bool) (e : LinkEnd) : Prop where
  code : Code x e.todo
  placed : e.chan.Placed p
  requests : ∀ r ∈ e.chan.sq, r.request.Expected x
  acks : ∀ k ∈ e.chan.acks, k = .send ∨ x = false
  cq : ∀ wc ∈ e.cq, wc.Expected x
  sqInflight : e.chan.sqInflight = e.flight + e.todo.count .decreaseSqe
  rqInflight : e.chan.rqInflight = e.recvs + e.todo.count .decreaseRqe

section
variable {p : Placement} {x : Bool} {e e' : LinkEnd} {o : Op} {todo : List Op} {me : Chan}
  {lab : Link.Label}

/-- The completions of a side count down its counters once. -/
theorem handler_decrease {wc : Wc} (h : wc.Expected x) :
    (handler x wc).count .decreaseSqe = (if wc.ofSq then 1 else 0) ∧
      (handler x wc).count .decreaseRqe = if wc.ofSq then 0 else 1 := by
  cases wc with
  | sent k =>
    obtain rfl | rfl := h
    · cases x <;> exact ⟨rfl, rfl⟩
    · cases k <;> exact ⟨rfl, rfl⟩
  | recv imm =>
    obtain rfl : imm = (expectedTag x).toImm := h
    cases x <;> exact ⟨by decide, by decide⟩

theorem Request.Expected.kind {r : Request} (h : r.Expected x) : r.kind = .send ∨ x = false := by
  cases r with
  | send => exact .inl rfl
  | write => exact .inr h.1

/-- An operation posts requests that are expected. -/
theorem expected_performs {r : Posted} (hn : Next x o todo) (hplaced : e.chan.Placed p)
    (h : ∀ r ∈ e.chan.sq, r.request.Expected x) (hp : e.chan.Performs o me) (hr : r ∈ me.sq) :
    r.request.Expected x := by
  cases hp with
  | recvNext | syncSend | syncRecv | decreaseSqe | decreaseRqe | ackSend | ackRecv | fillNext
  | loadNext => exact h r hr
  | sendNext =>
    rcases List.mem_append.1 hr with hr | hr
    · exact h r hr
    · obtain rfl := List.mem_singleton.1 hr
      cases hn
      exact ⟨rfl, rfl⟩
  | sendActive =>
    rcases List.mem_append.1 hr with hr | hr
    · exact h r hr
    · obtain rfl := List.mem_singleton.1 hr
      cases hn
      exact ⟨rfl, rfl⟩
  | @writeNext send i b hnext hb =>
    rcases List.mem_append.1 hr with hr | hr
    · exact h r hr
    · obtain rfl := List.mem_singleton.1 hr
      have hsize := (hplaced.send.next hnext).bufferSize_blockAt hb
      cases hn
      refine ⟨rfl, ?_⟩
      rw [hsize]
      rfl

/-- **The in-flight counters are exact**: an operation counts the requests and receives it posts. -/
theorem inflight_performs (ht : e.todo = o :: todo) (hp : e.chan.Performs o me)
    (hsq : e.chan.sqInflight = e.flight + e.todo.count .decreaseSqe)
    (hrq : e.chan.rqInflight = e.recvs + e.todo.count .decreaseRqe) :
    me.sqInflight = ({ e with todo, chan := me } : LinkEnd).flight + todo.count .decreaseSqe ∧
      me.rqInflight = ({ e with todo, chan := me } : LinkEnd).recvs + todo.count .decreaseRqe := by
  cases hp <;>
    simp only [LinkEnd.flight, LinkEnd.recvs, LinkEnd.received, ht, List.count_cons, beq_iff_eq,
      reduceCtorEq, if_true, if_false, List.length_append, List.length_singleton] at hsq hrq ⊢ <;>
    omega

/-- **Whatever a step does to a side keeps its invariant.** -/
theorem LinkEnd.Inv.move (h : e.Inv p x) (hm : e.Move x lab e') : e'.Inv p x := by
  cases hm with
  | @perform o todo me ht hp =>
    have hcode := h.code
    rw [ht] at hcode
    cases hcode with
    | cons hn =>
      obtain ⟨hsq, hrq⟩ := inflight_performs ht hp h.sqInflight h.rqInflight
      refine ⟨hn.code, h.placed.performs hp,
        fun r hr => expected_performs hn h.placed h.requests hp hr, ?_, h.cq, hsq, hrq⟩
      have hacks : me.acks = e.chan.acks := by cases hp <;> rfl
      show ∀ k ∈ me.acks, _
      rw [hacks]
      exact h.acks
  | @handle wc cq ht hq =>
    have hwc := h.cq wc (hq ▸ List.mem_cons_self)
    obtain ⟨hsqe, hrqe⟩ := handler_decrease hwc
    have hsq := h.sqInflight
    have hrq := h.rqInflight
    refine ⟨code_handler hwc, h.placed, h.requests, h.acks,
      fun wc hwc => h.cq wc (hq ▸ List.mem_cons_of_mem _ hwc), ?_, ?_⟩
    · simp only [flight, ht, hq, List.count_nil, List.countP_cons, hsqe] at hsq ⊢
      omega
    · simp only [recvs, LinkEnd.received, ht, hq, List.count_nil, List.countP_cons, hrqe] at hrq ⊢
      cases hof : wc.ofSq <;> simp [hof] at hrq ⊢ <;> omega
  | @fetch j r hj =>
    refine ⟨h.code, ⟨h.placed.send, h.placed.recv, h.placed.rkey⟩, fun r' hr' => ?_, h.acks, h.cq,
      ?_, h.rqInflight⟩
    · rcases List.mem_or_eq_of_mem_set hr' with hr' | rfl
      · exact h.requests r' hr'
      · exact h.requests ⟨r, none⟩ (List.mem_of_getElem? hj)
    · have hsq := h.sqInflight
      simp only [flight, List.length_set] at hsq ⊢
      exact hsq
  | @sent r sq hq =>
    refine ⟨h.code, ⟨h.placed.send, h.placed.recv, h.placed.rkey⟩,
      fun r' hr' => h.requests r' (hq ▸ List.mem_cons_of_mem _ hr'), fun k hk => ?_, h.cq, ?_,
      h.rqInflight⟩
    · rcases List.mem_append.1 hk with hk | hk
      · exact h.acks k hk
      · obtain rfl := List.mem_singleton.1 hk
        exact (h.requests r (hq ▸ List.mem_cons_self)).kind
    · have hsq := h.sqInflight
      simp only [flight, hq, List.length_cons, List.length_append, List.length_nil] at hsq ⊢
      omega
  | @received i rq data hr =>
    refine ⟨h.code, ⟨h.placed.send, h.placed.recv, h.placed.rkey⟩, h.requests, h.acks,
      fun wc hwc => ?_, ?_, ?_⟩
    · rcases List.mem_append.1 hwc with hwc | hwc
      · exact h.cq wc hwc
      · obtain rfl := List.mem_singleton.1 hwc
        rfl
    · have hsq := h.sqInflight
      simp only [flight, List.countP_append, List.countP_singleton, Wc.ofSq, Bool.false_eq_true,
        if_false] at hsq ⊢
      exact hsq
    · have hrq := h.rqInflight
      simp only [recvs, LinkEnd.received, hr, List.length_cons, List.countP_append,
        List.countP_singleton, Wc.ofSq, Bool.not_false, if_true] at hrq ⊢
      omega
  | @written a data =>
    exact ⟨h.code, ⟨h.placed.send, h.placed.recv, h.placed.rkey⟩, h.requests, h.acks, h.cq,
      h.sqInflight, h.rqInflight⟩
  | @report k acks ha =>
    refine ⟨h.code, ⟨h.placed.send, h.placed.recv, h.placed.rkey⟩, h.requests,
      fun k' hk' => h.acks k' (ha ▸ List.mem_cons_of_mem _ hk'), fun wc hwc => ?_, ?_, ?_⟩
    · rcases List.mem_append.1 hwc with hwc | hwc
      · exact h.cq wc hwc
      · obtain rfl := List.mem_singleton.1 hwc
        exact h.acks k (ha ▸ List.mem_cons_self)
    · have hsq := h.sqInflight
      simp only [flight, ha, List.length_cons, List.countP_append, List.countP_singleton, Wc.ofSq,
        if_true] at hsq ⊢
      omega
    · have hrq := h.rqInflight
      simp only [recvs, LinkEnd.received, List.countP_append, List.countP_singleton, Wc.ofSq,
        Bool.not_true, Bool.false_eq_true, if_false] at hrq ⊢
      exact hrq

end

/-! ## Room in the queues -/

theorem length_kinds (l : List Kind) : l.length = l.count .send + l.count .write := by
  induction l with
  | nil => rfl
  | cons k l ih => cases k <;> simp [ih] <;> omega

theorem countP_ofSq (cq : List Wc) :
    cq.countP Wc.ofSq = cq.count (.sent .send) + cq.count (.sent .write) := by
  induction cq with
  | nil => rfl
  | cons wc cq ih => rcases wc with ⟨_ | _⟩ | imm <;> simp [List.countP_cons, Wc.ofSq, ih] <;> omega

theorem countP_isPost (todo : List Op) :
    todo.countP Op.isPost = todo.countP Op.isMessage + todo.count .writeNext := by
  induction todo with
  | nil => rfl
  | cons o todo ih => cases o <;> simp [List.countP_cons, Op.isPost, Op.isMessage, ih] <;> omega

theorem LinkEnd.flight_eq (e : LinkEnd) : e.flight = e.queued .send + e.queued .write +
    e.chan.acks.count .send + e.chan.acks.count .write + e.cq.count (.sent .send) +
    e.cq.count (.sent .write) := by
  have hsq : e.chan.sq.length = e.queued .send + e.queued .write := by
    rw [queued, queued, ← length_kinds, List.length_map]
  rw [flight, hsq, length_kinds e.chan.acks, countP_ofSq]
  omega

/-- The writes that follow the load of the descriptor. -/
theorem Code.count_loadNext_le {x : Bool} {todo : List Op} (h : Code x todo) :
    (numBlock - 1) * todo.count .loadNext ≤ todo.count .writeNext := by
  have hzero {l : List Op} (hl : .loadNext ∉ l) : (numBlock - 1) * l.count .loadNext ≤
      l.count .writeNext := by
    rw [List.count_eq_zero.2 hl]
    exact Nat.zero_le _
  cases h with
  | nil => exact hzero nofun
  | cons hn =>
    cases hn with
    | recvNext x k =>
      refine hzero ?_
      cases x <;> simp [afterSync, List.mem_replicate]
    | syncSend x | syncRecv x => cases x <;> exact hzero (by decide)
    | write k => exact hzero (by simp [List.mem_replicate])
    | decreaseRqeClient | ackRecvClient | loadNext =>
      generalize numBlock - 1 = k
      simp [List.count_replicate]
    | _ => exact hzero (by decide)

/-- A counter is decreased before the block is given back, and for a receive before the
    receive is posted again or the descriptor is loaded. -/
theorem Code.count_decrease_le {x : Bool} {todo : List Op} (h : Code x todo) :
    todo.count .decreaseSqe ≤ todo.count .ackSend ∧
      todo.count .decreaseRqe ≤ todo.count (if x then .recvNext else .loadNext) := by
  have hzero {l : List Op} (hs : .decreaseSqe ∉ l) (hr : .decreaseRqe ∉ l) :
      l.count .decreaseSqe ≤ l.count .ackSend ∧
        l.count .decreaseRqe ≤ l.count (if x then .recvNext else .loadNext) := by
    rw [List.count_eq_zero.2 hs, List.count_eq_zero.2 hr]
    exact ⟨Nat.zero_le _, Nat.zero_le _⟩
  cases h with
  | nil => exact hzero List.not_mem_nil List.not_mem_nil
  | cons hn =>
    cases hn with
    | recvNext x k => cases x <;> exact hzero (by simp [afterSync]) (by simp [afterSync])
    | syncSend x | syncRecv x => cases x <;> exact hzero (by decide) (by decide)
    | write k => exact hzero (by simp) (by simp)
    | loadNext | ackRecvClient => exact hzero (by simp) (by simp)
    | decreaseRqeClient =>
      generalize numBlock - 1 = k
      simp [List.count_replicate]
    | decreaseSqe x => cases x <;> decide
    | decreaseSqeWrite | ackRecv | decreaseRqe => decide
    | _ => exact hzero (by decide) (by decide)

/-- The request for the buffer comes after the receives. -/
theorem Next.messages_of_recvNext {todo : List Op} (h : Next false .recvNext todo) :
    todo.countP Op.isMessage = 1 := by
  cases h with
  | recvNext x k =>
    rw [List.countP_append, List.countP_eq_zero.2]
    · rfl
    · intro o ho
      rw [List.eq_of_mem_replicate ho]
      decide

namespace Link.Counts

variable {loaded : ℕ} {l : Link}

/-- The send queues have room for the requests that are to be posted. -/
theorem sendRoom (h : l.Counts loaded) (x : Bool) :
    (l.side x).flight + (l.side x).todo.countP Op.isPost ≤ numBlock := by
  have hunloaded := h.unloaded
  have hwrites := h.writes
  have hrequests := h.requests
  have hanswers := h.answers
  rw [LinkEnd.flight_eq, countP_isPost]
  simp only [LinkEnd.messages, numBlock] at *
  cases x <;> omega

theorem recvRoom (h : l.Counts loaded) (x : Bool) :
    (l.side x).recvs + (l.side x).todo.count .recvNext ≤ numBlock := by
  have hunloaded := h.unloaded
  have hserver := h.serverReceives
  have hclient := h.clientReceives
  rw [LinkEnd.recvs]
  simp only [numBlock] at *
  cases x <;> omega

theorem recvs_lt (h : l.Counts loaded) (hload : 0 < (l.side false).todo.count .loadNext) :
    (l.side false).recvs < numBlock := by
  have hunloaded := h.unloaded
  have hclient := h.clientReceives
  rw [LinkEnd.recvs]
  simp only [numBlock] at *
  omega

end Link.Counts

/-! ## The descriptor of the server -/

/-- The bytes that a posted request carries, or will carry. -/
def Posted.data (mem : ByteMem) (r : Posted) : List UInt8 :=
  r.payload.getD (mem.read (r.request.block * blockSize) r.request.len)

namespace LinkEnd

/-- The answer of a server carries the descriptor `d`. -/
structure Answers (d : CommDescriptor) (e : LinkEnd) : Prop where
  filled : e.ahead = 1 →
    e.chan.sendMem.read (e.chan.active * blockSize) CommDescriptor.size = d.toBytes
  answer : ∀ r ∈ e.chan.sq, r.data e.chan.sendMem = d.toBytes

section
variable {d : CommDescriptor} {p : Placement} {x : Bool} {e e' : LinkEnd} {lab : Link.Label}

theorem sq_eq_nil (hinv : e.Inv p true) (hq : e.queued .send = 0) : e.chan.sq = [] := by
  refine List.eq_nil_iff_forall_not_mem.2 fun r hr => ?_
  have hk : r.request.kind = .send := by
    obtain hk | hk := (hinv.requests r hr).kind
    · exact hk
    · cases hk
  exact List.count_eq_zero.1 hq (List.mem_map.2 ⟨r, hr, hk⟩)

theorem messages_pos_of_ahead (ha : e.ahead = 1) : 0 < e.messages := by
  unfold ahead at ha
  cases ht : e.todo with
  | nil => simp [ht] at ha
  | cons o todo =>
    rw [messages, ht]
    cases o <;> simp [ht, Op.isSendActive, Op.isMessage, List.countP_cons] at ha ⊢

/-- **The answer keeps its bytes** until the network has fetched them. -/
theorem Answers.move (h : e.Answers p.descriptor) (hinv : e.Inv p true)
    (hone : e.messages + e.queued .send ≤ 1)
    (hwritten : lab = .deliver false .write → e.messages = 0 ∧ e.queued .send = 0)
    (hm : e.Move true lab e') : e'.Answers p.descriptor := by
  cases hm with
  | @perform o todo me ht hp =>
    have hcode := hinv.code
    rw [ht] at hcode
    cases hcode with
    | cons hn =>
      have hfilled (ho : o ≠ .fillNext) : ({ e with todo, chan := me } : LinkEnd).ahead ≠ 1 := by
        simp [ahead, hn.head_todo, ho]
      cases hp with
      | @fillNext send i hnext =>
        have hq : e.queued .send = 0 := by
          have hpos : 0 < e.messages := by
            cases hn
            rw [messages, ht]; decide
          omega
        refine ⟨fun _ => ?_, ?_⟩
        · show (e.chan.sendMem.write _ _).read _ _ = _
          rw [hinv.placed.descriptor, ← CommDescriptor.length_toBytes p.descriptor]
          exact ByteMem.read_write_self ..
        · show ∀ r ∈ e.chan.sq, _
          rw [sq_eq_nil hinv hq]
          exact List.forall_mem_nil _
      | @sendActive len tag =>
        have ha : e.ahead = 1 := by simp [ahead, ht, Op.isSendActive]
        refine ⟨fun ha => absurd ha (hfilled (by simp)), fun r hr => ?_⟩
        rcases List.mem_append.1 hr with hr | hr
        · exact h.answer r hr
        · obtain rfl := List.mem_singleton.1 hr
          cases hn
          exact h.filled ha
      | writeNext | sendNext => cases hn
      | recvNext | syncSend | syncRecv | decreaseSqe | decreaseRqe | ackSend | ackRecv
      | loadNext => exact ⟨fun ha => absurd ha (hfilled (by decide)), h.answer⟩
  | @handle wc cq ht hq =>
    refine ⟨fun ha => ?_, h.answer⟩
    have hhead := (handler_send (hinv.cq wc (hq ▸ List.mem_cons_self))).2
    simp [ahead, hhead] at ha
  | @fetch j r hj =>
    refine ⟨h.filled, fun r' hr' => ?_⟩
    rcases List.mem_or_eq_of_mem_set hr' with hr' | rfl
    · exact h.answer r' hr'
    · exact h.answer ⟨r, none⟩ (List.mem_of_getElem? hj)
  | @sent r sq hq => exact ⟨h.filled, fun r' hr' => h.answer r' (hq ▸ List.mem_cons_of_mem _ hr')⟩
  | received data hr => exact ⟨h.filled, h.answer⟩
  | written a data =>
    obtain ⟨hmessages, hq⟩ := hwritten rfl
    refine ⟨fun ha => absurd (messages_pos_of_ahead (e := e) ha) (by omega), ?_⟩
    show ∀ r ∈ e.chan.sq, _
    rw [sq_eq_nil hinv hq]
    exact List.forall_mem_nil _
  | report ha => exact ⟨h.filled, h.answer⟩

/-- A client that has loaded the descriptor `d` `loaded` times. -/
structure Loads (d : CommDescriptor) (loaded : ℕ) (e : LinkEnd) : Prop where
  received : 0 < e.received + e.todo.count .loadNext →
    e.chan.recvMem.read 0 CommDescriptor.size = d.toBytes
  peerComm : 0 < loaded → e.chan.peerComm = d
  writes : ∀ r ∈ e.chan.sq, ∀ b len d', r.request = .write b len d' → d' = d

variable {loaded q₁ q₂ : ℕ}

/-- The descriptor is loaded from the first block, into which it was received. -/
theorem RecvRing.load_zero {todo : List Op} {recv : RDMABuffer} {i : ℕ}
    (h : RecvRing false e q₁ q₂ 0) (ht : e.todo = .loadNext :: todo)
    (hn : Next false .loadNext todo) (hlt : e.recvs < numBlock)
    (hnext : e.chan.recv.next = .ok (recv, i)) : i = 0 := by
  have hack : e.todo.count .ackRecv = 0 := ht ▸ hn.count_ackRecv_cons (.inr rfl)
  have hleft : e.todo.count .recvNext = 0 := by
    rw [ht, List.count_cons_of_ne (by decide)]
    cases hn
    exact count_writes (by decide) _
  have hcount := h.count
  have hposted := h.posted rfl
  obtain ⟨recv', hnext', -⟩ := h.window.next_of_index (by omega) (cursorIndex_numBlock _)
  obtain ⟨-, rfl⟩ := Prod.mk.inj (Except.ok.inj (hnext'.symm.trans hnext))
  rw [show q₁ = numBlock by omega, Nat.mod_self]

theorem handler_loadNext {wc : Wc} (h : wc.Expected x) :
    (handler x wc).count .loadNext ≤ if wc.ofSq then 0 else 1 := by
  cases wc with
  | sent k =>
    obtain rfl | rfl := h
    · cases x <;> exact le_rfl
    · cases k <;> exact le_rfl
  | recv imm =>
    obtain rfl : imm = (expectedTag x).toImm := h
    cases x <;> decide

/-- **The client loads the descriptor that it received**, and writes with it. -/
theorem Loads.move (h : e.Loads d loaded) (hinv : e.Inv p false)
    (hring : RecvRing false e q₁ q₂ loaded)
    (hlt : 0 < e.todo.count .loadNext → loaded = 0 ∧ e.recvs < numBlock)
    (hwrite : e.todo.head? = some .writeNext → 0 < loaded) (hm : e.Move false lab e')
    (hlab : lab ≠ .deliver true .send) : e'.Loads d (loaded + lab.loads) := by
  cases hm with
  | @perform o todo me ht hp =>
    have hcode := hinv.code
    rw [ht] at hcode
    cases hcode with
    | cons hn =>
      have hreceived : 0 < e.received + todo.count .loadNext →
          e.chan.recvMem.read 0 CommDescriptor.size = d.toBytes := by
        intro hpos
        refine h.received (Nat.lt_of_lt_of_le hpos ?_)
        rw [ht]
        exact Nat.add_le_add_left List.count_le_count_cons _
      have hpeer (ho : o ≠ .loadNext) : 0 < loaded + (Link.Label.op false o).loads →
          e.chan.peerComm = d := by
        simp only [Link.Label.loads, Link.Label.op.injEq, ho, and_false, if_false, Nat.add_zero]
        exact h.peerComm
      cases hp with
      | @loadNext recv i hnext =>
        have hpos : 0 < e.todo.count .loadNext := by rw [ht, List.count_cons_self]; omega
        obtain ⟨rfl, hroom⟩ := hlt hpos
        obtain rfl := hring.load_zero ht hn hroom hnext
        refine ⟨hreceived, fun _ => ?_, h.writes⟩
        exact CommDescriptor.load_eq (by rw [Nat.zero_mul]; exact h.received (by omega))
      | @writeNext send i b hnext hb =>
        refine ⟨hreceived, hpeer (by decide), fun r hr b len d' hd => ?_⟩
        rcases List.mem_append.1 hr with hr | hr
        · exact h.writes r hr b len d' hd
        · obtain rfl := List.mem_singleton.1 hr
          obtain ⟨-, -, rfl⟩ := Request.write.inj hd
          exact h.peerComm (hwrite (by rw [ht]; rfl))
      | sendNext =>
        refine ⟨hreceived, hpeer (by simp), fun r hr b len d' hd => ?_⟩
        rcases List.mem_append.1 hr with hr | hr
        · exact h.writes r hr b len d' hd
        · obtain rfl := List.mem_singleton.1 hr
          cases hd
      | fillNext | sendActive => cases hn
      | recvNext | syncSend | syncRecv | decreaseSqe | decreaseRqe | ackSend | ackRecv =>
        exact ⟨hreceived, hpeer (by decide), h.writes⟩
  | @handle wc cq ht hq =>
    refine ⟨fun hpos => h.received (Nat.lt_of_lt_of_le hpos ?_), h.peerComm, h.writes⟩
    have hle := handler_loadNext (hinv.cq wc (hq ▸ List.mem_cons_self))
    simp only [LinkEnd.received, hq, ht, List.countP_cons, List.count_nil]
    cases hof : wc.ofSq <;> simp [hof] at hle ⊢ <;> omega
  | @fetch j r hj =>
    refine ⟨h.received, h.peerComm, fun r' hr' => ?_⟩
    rcases List.mem_or_eq_of_mem_set hr' with hr' | rfl
    · exact h.writes r' hr'
    · exact h.writes ⟨r, none⟩ (List.mem_of_getElem? hj)
  | @sent r sq hq =>
    exact ⟨h.received, h.peerComm, fun r' hr' => h.writes r' (hq ▸ List.mem_cons_of_mem _ hr')⟩
  | received data hr => exact absurd rfl hlab
  | written a data => exact ⟨h.received, h.peerComm, h.writes⟩
  | report ha =>
    refine ⟨fun hpos => h.received ?_, h.peerComm, h.writes⟩
    simpa [LinkEnd.received, Wc.ofSq] using hpos

/-- The answer is received into the first block. -/
theorem Loads.received_zero {i : ℕ} {rq : List ℕ} {data : List UInt8} (h : e.Loads d loaded)
    (hring : RecvRing false e q₁ q₂ 0) (hr : e.chan.rq = i :: rq)
    (hfull : e.todo.count .recvNext + e.chan.rq.length = numBlock) (hdata : data = d.toBytes) :
    ({ e with
      chan := { e.chan with rq, recvMem := e.chan.recvMem.write (i * blockSize) data }
      cq := e.cq ++ [.recv (expectedTag false).toImm] } : LinkEnd).Loads d loaded := by
  have hposted := hring.posted rfl
  have hblocks := hring.blocks
  have hpos : 0 < e.chan.rq.length := by rw [hr]; exact Nat.succ_pos _
  rw [show q₁ - 0 - e.chan.rq.length = 0 by omega, Window.slots_eq_cons (by omega), hr] at hblocks
  obtain ⟨rfl, -⟩ := List.cons.inj hblocks
  refine ⟨fun _ => ?_, h.peerComm, h.writes⟩
  show (e.chan.recvMem.write (0 % numBlock * blockSize) data).read 0 CommDescriptor.size = d.toBytes
  rw [hdata, ← CommDescriptor.length_toBytes d, Nat.zero_mod, Nat.zero_mul]
  exact ByteMem.read_write_self ..

end

end LinkEnd

/-! ## The invariant -/

/-- What holds of a channel whose client has loaded the descriptor `loaded` times. -/
structure Link.Inv (P : Bool → Placement) (loaded : ℕ) (l : Link) : Prop where
  side : ∀ x, (l.side x).Inv (P x) x
  counts : l.Counts loaded
  sendRing : ∀ x, ∃ q, (l.side x).SendRing q
  recvRing : ∀ x, ∃ p q, LinkEnd.RecvRing x (l.side x) p q (if x then 0 else loaded)
  answers : (l.side true).Answers (P true).descriptor
  loads : (l.side false).Loads (P true).descriptor loaded

namespace Link.Inv

variable {P : Bool → Placement} {loaded : ℕ} {l l' : Link} {lab : Link.Label} {x : Bool}

/-- A client that is to load the descriptor has not done so, and has used a receive. -/
theorem of_loadNext (h : l.Inv P loaded) (hpos : 0 < (l.side false).todo.count .loadNext) :
    loaded = 0 ∧ (l.side false).recvs < numBlock := by
  have := h.counts.unloaded
  exact ⟨by omega, h.counts.recvs_lt hpos⟩

/-- Writes under way follow the load of the descriptor. -/
theorem loaded_of_writes (h : l.Inv P loaded) (hpos : 0 < (l.side false).queued .write +
    (l.side false).chan.acks.count .write + (l.side false).cq.count (.sent .write)) :
    loaded = 1 := by
  have hunloaded := h.counts.unloaded
  have hwrites := h.counts.writes
  have hcode := (h.side false).code.count_loadNext_le
  simp only [numBlock] at hwrites hcode
  omega

theorem loaded_of_writeNext (h : l.Inv P loaded)
    (hhead : (l.side false).todo.head? = some .writeNext) : loaded = 1 := by
  have hunloaded := h.counts.unloaded
  have hwrites := h.counts.writes
  have hcode := (h.side false).code
  obtain ⟨todo, ht⟩ : ∃ todo, (l.side false).todo = .writeNext :: todo := by
    cases ht : (l.side false).todo with
    | nil => simp [ht] at hhead
    | cons o todo => exact ⟨todo, by simpa [ht] using hhead⟩
  rw [ht] at hcode hwrites
  cases hcode with
  | cons hn =>
    cases hn with
    | write k =>
      rw [List.count_cons_self, List.count_cons_of_ne (by decide),
        count_writes (o := .loadNext) (by decide)] at hwrites
      simp only [numBlock] at hwrites
      omega

/-- A side that posts a receive has not loaded the descriptor. -/
theorem loaded_of_head (h : l.Inv P loaded)
    (hhead : (l.side x).todo.head? = some .recvNext ∨ (l.side x).todo.head? = some .loadNext) :
    (if x then 0 else loaded) = 0 := by
  cases x with
  | true => rfl
  | false =>
    show loaded = 0
    have hunloaded := h.counts.unloaded
    have hcode := (h.side false).code
    cases ht : (l.side false).todo with
    | nil => simp [ht] at hhead
    | cons o todo =>
      rw [ht] at hcode
      obtain rfl | rfl : o = .recvNext ∨ o = .loadNext := by simpa [ht] using hhead
      · cases hcode with
        | cons hn =>
          have hmessages : (l.side false).messages = 1 := by
            rw [LinkEnd.messages, ht, List.countP_cons_of_neg (by decide), hn.messages_of_recvNext]
          omega
      · have := List.count_cons_self (a := Op.loadNext) (l := todo)
        rw [ht] at hunloaded
        omega

theorem recvs_lt (h : l.Inv P loaded) (hhead : (l.side x).todo.head? = some .loadNext) :
    (l.side x).recvs < numBlock := by
  have hmem : .loadNext ∈ (l.side x).todo := List.mem_of_mem_head? (by rw [hhead]; rfl)
  cases x with
  | true =>
    have hcode := (h.side true).code
    cases ht : (l.side true).todo with
    | nil => simp [ht] at hhead
    | cons o todo =>
      obtain rfl : o = .loadNext := by simpa [ht] using hhead
      rw [ht] at hcode
      cases hcode with
      | cons hn => cases hn
  | false => exact (h.of_loadNext (List.count_pos_iff.2 hmem)).2

theorem queued_of_deliver {k : Kind} (hs : Link.Step l (.deliver x k) l') :
    0 < (l.side x).queued k := by
  cases hs with
  | message hq hr => simp [LinkEnd.queued, hq, Request.kind]
  | write hq ha => simp [LinkEnd.queued, hq, Request.kind]

/-- **Every step of a channel keeps its invariant.** -/
theorem step (h : l.Inv P loaded) (hs : Link.Step l lab l') : l'.Inv P (loaded + lab.loads) := by
  have hmoves := hs.moves fun x => (h.side x).requests
  refine ⟨fun x => ?_, h.counts.step hs fun x => (h.side x).cq, fun x => ?_, fun x => ?_, ?_, ?_⟩
  · obtain ⟨heq, -⟩ | hm := hmoves x
    · rw [heq]; exact h.side x
    · exact (h.side x).move hm
  · obtain ⟨q, hq⟩ := h.sendRing x
    obtain ⟨heq, -⟩ | hm := hmoves x
    · exact ⟨q, heq ▸ hq⟩
    · exact hq.move (h.side x).code (h.side x).cq (h.counts.sendRoom x) hm
  · obtain ⟨p, q, hr⟩ := h.recvRing x
    obtain ⟨heq, hlab⟩ | hm := hmoves x
    · refine ⟨p, q, ?_⟩
      rw [heq]
      cases x with
      | true => exact hr
      | false => simpa [Label.loads, hlab .loadNext] using hr
    · obtain ⟨p', q', hr'⟩ := hr.move (h.side x).code (h.side x).cq (h.counts.recvRoom x) h.recvs_lt
        h.loaded_of_head hm
      refine ⟨p', q', ?_⟩
      cases x with
      | true =>
        have hzero := hr'.server rfl
        rw [hzero] at hr'
        exact hr'
      | false => exact hr'
  · obtain ⟨heq, -⟩ | hm := hmoves true
    · rw [heq]; exact h.answers
    · have hunloaded := h.counts.unloaded
      refine h.answers.move (h.side true) (by omega) (fun hlab => ?_) hm
      subst hlab
      have hq := queued_of_deliver hs
      have hone := h.loaded_of_writes (by omega)
      omega
  · obtain ⟨p, q, hr⟩ := h.recvRing false
    by_cases hlab : lab = .deliver true .send
    · subst hlab
      have hunloaded := h.counts.unloaded
      have hreceives := h.counts.clientReceives
      have hq := queued_of_deliver hs
      obtain rfl : loaded = 0 := by omega
      cases hs with
      | @message _ b len i tag data sq rq hq hrq =>
        obtain ⟨rfl, -⟩ : Request.Expected true (.send b len tag) :=
          (h.side true).requests ⟨.send b len tag, some data⟩ (hq ▸ List.mem_cons_self)
        have hdata : data = (P true).descriptor.toBytes :=
          h.answers.answer ⟨.send b len _, some data⟩ (hq ▸ List.mem_cons_self)
        show LinkEnd.Loads _ 0 (Link.side (Link.set _ (!true) _) (!true))
        rw [set_side_self]
        refine h.loads.received_zero hr hrq ?_ hdata
        simp only [numBlock] at hreceives ⊢
        omega
    · obtain ⟨heq, hop⟩ | hm := hmoves false
      · have hzero : lab.loads = 0 := if_neg (hop .loadNext)
        rw [heq, hzero]
        exact h.loads
      · exact h.loads.move (h.side false) hr h.of_loadNext
          (fun hhead => by rw [h.loaded_of_writeNext hhead]; exact Nat.one_pos) hm hlab

end Link.Inv

end Tower

end RdmaCore

/-
  The requests, messages and completions of one channel of the service of
  example/mesh_comm_service.cc, as those of two programs at the ends of a
  reliable connection (`Conduit`).

  * `Chan.Performs`: what each operation does to its channel;
  * `Link.step_flow`: a step of a channel is a step of the connection;
  * `Link.Counts`: what is conserved.  There is one request for the buffer, or
    its answer, or instead of both `NUM_BLOCK - 1` writes under way.
-/
import RdmaCore.TowerLink
import RdmaCore.Lib.Conduit

namespace RdmaCore

namespace Tower

/-! ## Operations -/

/-- What an operation does, unless it fails. -/
inductive Chan.Performs (me : Chan) : Op → Chan → Prop where
  | recvNext {recv : RDMABuffer} {i : ℕ} (h : me.recv.next = .ok (recv, i)) :
      Performs me .recvNext
        { me with recv, rqInflight := me.rqInflight + 1, rq := me.rq ++ [i] }
  | syncSend : Performs me .syncSend me
  | syncRecv : Performs me .syncRecv me
  | sendNext {send : RDMABuffer} {i len : ℕ} {tag : MsgDataChannel}
      (h : me.send.next = .ok (send, i)) :
      Performs me (.sendNext len tag)
        { me with send, sqInflight := me.sqInflight + 1, sq := me.sq ++ [⟨.send i len tag, none⟩] }
  | decreaseSqe : Performs me .decreaseSqe { me with sqInflight := me.sqInflight - 1 }
  | decreaseRqe : Performs me .decreaseRqe { me with rqInflight := me.rqInflight - 1 }
  | ackSend {send : RDMABuffer} {i : ℕ} (h : me.send.last = .ok (send, i)) :
      Performs me .ackSend { me with send }
  | ackRecv {recv : RDMABuffer} {i : ℕ} (h : me.recv.last = .ok (recv, i)) :
      Performs me .ackRecv { me with recv }
  | fillNext {send : RDMABuffer} {i : ℕ} (h : me.send.next = .ok (send, i)) :
      Performs me .fillNext
        { me with
          send
          active := i
          sendMem := me.sendMem.write (i * blockSize) me.descriptor.toBytes }
  | sendActive {len : ℕ} {tag : MsgDataChannel} :
      Performs me (.sendActive len tag)
        { me with
          sqInflight := me.sqInflight + 1
          sq := me.sq ++ [⟨.send me.active len tag, none⟩] }
  | loadNext {recv : RDMABuffer} {i : ℕ} (h : me.recv.next = .ok (recv, i)) :
      Performs me .loadNext
        { me with recv, peerComm := CommDescriptor.load me.recvMem (i * blockSize) }
  | writeNext {send : RDMABuffer} {i : ℕ} {o : BufferObj} (h : me.send.next = .ok (send, i))
      (ho : send.blockAt i = .ok o) :
      Performs me .writeNext
        { me with
          send
          sqInflight := me.sqInflight + 1
          sq := me.sq ++ [⟨.write i (o.bufferSize % 2 ^ 32) me.peerComm, none⟩] }

namespace Chan

variable {me me' : Chan} {reported : Bool → ℕ} {o : Op}

theorem performs (h : me.perform reported o = .ok me') : me.Performs o me' := by
  cases o with
  | recvNext =>
    simp only [perform, recvRemote, Except.bind_eq_ok, fault, failWith_eq_ok] at h
    obtain ⟨⟨recv, i⟩, hn, -, -, h⟩ := h
    split_ifs at h
    obtain rfl := Except.ok.inj h
    exact .recvNext hn
  | syncSend =>
    obtain rfl := Except.ok.inj h
    exact .syncSend
  | syncRecv =>
    obtain rfl := Except.ok.inj h
    exact .syncRecv
  | sendNext len tag =>
    simp only [perform, sendRemote, Except.bind_eq_ok, fault, failWith_eq_ok] at h
    obtain ⟨⟨send, i⟩, hn, -, -, h⟩ := h
    obtain ⟨-, rfl⟩ := ite_error_eq_ok.1 h
    exact .sendNext hn
  | decreaseSqe =>
    obtain rfl := Except.ok.inj h
    exact .decreaseSqe
  | decreaseRqe =>
    obtain rfl := Except.ok.inj h
    exact .decreaseRqe
  | ackSend =>
    simp only [perform, Except.bind_eq_ok, fault, failWith_eq_ok] at h
    obtain ⟨⟨send, i⟩, hn, h⟩ := h
    obtain rfl := Except.ok.inj h
    exact .ackSend hn
  | ackRecv =>
    simp only [perform, Except.bind_eq_ok, fault, failWith_eq_ok] at h
    obtain ⟨⟨recv, i⟩, hn, h⟩ := h
    obtain rfl := Except.ok.inj h
    exact .ackRecv hn
  | fillNext =>
    simp only [perform, Except.bind_eq_ok, fault, failWith_eq_ok] at h
    obtain ⟨⟨send, i⟩, hn, h⟩ := h
    obtain rfl := Except.ok.inj h
    exact .fillNext hn
  | sendActive len tag =>
    simp only [perform, sendRemote, Except.bind_eq_ok] at h
    obtain ⟨-, -, h⟩ := h
    obtain ⟨-, rfl⟩ := ite_error_eq_ok.1 h
    exact .sendActive
  | loadNext =>
    simp only [perform, Except.bind_eq_ok, fault, failWith_eq_ok] at h
    obtain ⟨⟨recv, i⟩, hn, h⟩ := h
    obtain rfl := Except.ok.inj h
    exact .loadNext hn
  | writeNext =>
    simp only [perform, writeRemote, Except.bind_eq_ok, fault, failWith_eq_ok] at h
    obtain ⟨⟨send, i⟩, hn, b, hb, -, -, h⟩ := h
    obtain ⟨-, rfl⟩ := ite_error_eq_ok.1 h
    exact .writeNext hn hb
  | fatal f => cases h

end Chan

/-! ## The connection -/

def Op.effect : Op → Conduit.Effect Kind
  | recvNext => .recv
  | syncSend => .signal
  | syncRecv => .await
  | sendNext _ _ => .post .send
  | sendActive _ _ => .post .send
  | writeNext => .post .write
  | _ => .silent

theorem Op.effect_ne_poll (o : Op) : o.effect ≠ .poll := by
  cases o <;> simp [effect]

def Wc.completion : Wc → Conduit.Completion Kind
  | sent k => .sent k
  | recv _ => .received .send

/-- The only message that a side receives. -/
def expectedTag : Bool → MsgDataChannel
  | true => .requestBuffer
  | false => .responseToRequestBuffer

/-- A completion that the side `x` knows what to do with. -/
def Wc.Expected (x : Bool) : Wc → Prop
  | sent k => k = .send ∨ x = false
  | recv imm => imm = (expectedTag x).toImm

/-- The programs of the two sides. -/
def program : Conduit.Program Op Kind where
  effect := Op.effect
  message k := k = .send
  Handle x todo c todo' :=
    todo = [] ∧ ∃ wc : Wc, wc.completion = c ∧ wc.Expected x ∧ todo' = handler x wc

def LinkEnd.flow (e : LinkEnd) : Conduit.End Op Kind where
  todo := e.todo
  sq := e.chan.sq.map (·.request.kind)
  acks := e.chan.acks
  cq := e.cq.map Wc.completion
  rq := e.chan.rq.length

def Link.flow (l : Link) : Conduit.State Op Kind where
  side := fun x => (l.side x).flow
  signals := l.synced

/-- The requests stay the same when a payload is fetched. -/
theorem requests_set {sq : List Posted} {j : ℕ} {r : Request} {payload : Option (List UInt8)}
    (h : sq[j]? = some ⟨r, payload⟩) (data : Option (List UInt8)) :
    (sq.set j ⟨r, data⟩).map (·.request) = sq.map (·.request) := by
  refine List.ext_getElem? fun i => ?_
  by_cases hi : j = i
  · subst hi
    obtain ⟨hj, hr⟩ := List.getElem?_eq_some_iff.1 h
    simp [hj, hr]
  · simp [hi]

namespace Link

variable {l l' : Link} {x : Bool} {e : LinkEnd}

@[simp] theorem flow_side (l : Link) (x : Bool) : l.flow.side x = (l.side x).flow := rfl

@[simp] theorem flow_signals (l : Link) : l.flow.signals = l.synced := rfl

theorem flow_set (l : Link) (x : Bool) (e : LinkEnd) : (l.set x e).flow = l.flow.set x e.flow := by
  simp only [flow, set, Conduit.State.set, Conduit.State.mk.injEq, and_true]
  funext y
  by_cases hy : y = x
  · subst hy; simp
  · simp [hy]

theorem flow_set_of_eq (h : e.flow = (l.side x).flow) : (l.set x e).flow = l.flow := by
  rw [flow_set, h]
  exact congrArg (Conduit.State.mk · l.synced) (Function.update_eq_self x l.flow.side)

theorem flow_setSynced (l : Link) (x : Bool) (k : ℕ) :
    (l.setSynced x k).flow = l.flow.setSignals x k := rfl

/-- An operation of a side is one of the connection. -/
theorem flow_perform {o : Op} {todo : List Op} {me : Chan} (hs : o ≠ .syncSend)
    (hr : o ≠ .syncRecv) (h : (l.side x).chan.Performs o me) :
    (l.set x { l.side x with todo, chan := me }).flow = l.flow.apply x todo o.effect := by
  cases h with
  | syncSend => exact absurd rfl hs
  | syncRecv => exact absurd rfl hr
  | recvNext | sendNext | sendActive | writeNext =>
    simp only [flow_set, Op.effect, Conduit.State.apply]
    congr 1
    simp [LinkEnd.flow, Request.kind]
  | decreaseSqe | decreaseRqe | ackSend | ackRecv | fillNext | loadNext =>
    rw [flow_set]
    rfl

/-- What a step of a channel does to the connection; a fetched payload is no step of it. -/
def Label.flow : Label → Option (Conduit.Label Op Kind)
  | op x o => some (.op x o)
  | handle x wc => some (.handle x [] wc.completion (handler x wc))
  | fetch _ => none
  | deliver x k => some (.deliver x k)
  | report x k => some (.report x k)

/-- **A step of a channel is a step of the connection**, or none. -/
theorem step_flow {lab : Label} (hs : Link.Step l lab l')
    (hw : ∀ x, ∀ wc ∈ (l.side x).cq, wc.Expected x) :
    lab.flow.elim (l'.flow = l.flow) (Conduit.Step program l.flow · l'.flow) := by
  cases hs with
  | @perform x o todo reported me ht hs hr hp =>
    rw [flow_perform hs hr (Chan.performs hp)]
    refine .op ht (fun h => ?_) o.effect_ne_poll
    cases o <;> first | exact absurd rfl hr | cases h
  | @syncSend x todo ht =>
    rw [flow_setSynced, flow_set]
    exact Conduit.Step.op (P := program) (o := Op.syncSend) ht nofun Op.syncSend.effect_ne_poll
  | @syncRecv x todo ht hpos =>
    rw [flow_setSynced, flow_set]
    exact Conduit.Step.op (P := program) (o := Op.syncRecv) ht (fun _ => hpos)
      Op.syncRecv.effect_ne_poll
  | @handle x wc cq ht hq =>
    have hcq : (l.flow.side x).cq = wc.completion :: cq.map Wc.completion := by
      simp [LinkEnd.flow, hq]
    have hh : program.Handle x (l.flow.side x).todo wc.completion (handler x wc) :=
      ⟨ht, wc, rfl, hw x wc (hq ▸ List.mem_cons_self), rfl⟩
    have hstep := Conduit.Step.handle hcq hh
    rw [show (l.flow.side x).todo = [] from ht] at hstep
    rw [flow_set]
    exact hstep
  | @fetch x j r hj =>
    apply flow_set_of_eq
    have hreq := congrArg (List.map Request.kind) (requests_set hj
      (some ((l.side x).chan.sendMem.read (r.block * blockSize) r.len)))
    rw [List.map_map, List.map_map] at hreq
    exact congrArg (fun sq => { (l.side x).flow with sq }) hreq
  | @message x b len i tag data sq rq hq hr =>
    have hsq : (l.flow.side x).sq = .send :: sq.map (·.request.kind) := by
      simp [LinkEnd.flow, hq, Request.kind]
    have hrq : 0 < (l.flow.side (!x)).rq := by simp [LinkEnd.flow, hr]
    have hstep := Conduit.Step.message (P := program) hsq rfl hrq
    rw [flow_set, flow_set]
    show Conduit.Step program l.flow (.deliver x .send) _
    convert hstep using 2
    · simp [LinkEnd.flow]
    · simp [LinkEnd.flow, hr, Wc.completion]
  | @write x b len a d data sq hq ha =>
    have hsq : (l.flow.side x).sq = .write :: sq.map (·.request.kind) := by
      simp [LinkEnd.flow, hq, Request.kind]
    have hstep := Conduit.Step.oneSided (P := program) hsq rfl
    rw [flow_set_of_eq, flow_set]
    · exact hstep
    · rw [set_side_not]; rfl
  | @report x k acks ha =>
    have hstep := Conduit.Step.report (P := program) (s := l.flow) (x := x) ha
    rw [flow_set]
    show Conduit.Step program l.flow (.report x k) _
    convert hstep using 2
    simp [LinkEnd.flow, Wc.completion]

end Link

/-! ## What is conserved -/

open Conduit (Weight sumOf)

/-- The handlers of the completions that a side expects. -/
theorem handle_cases {x : Bool} {todo todo' : List Op} {c : Conduit.Completion Kind}
    (h : program.Handle x todo c todo') : todo = [] ∧
      (c = .sent .send ∧ todo' = [.decreaseSqe, .ackSend] ∨
        x = true ∧ c = .received .send ∧ todo' = [.ackRecv, .decreaseRqe, .fillNext,
          .sendActive CommDescriptor.size .responseToRequestBuffer, .recvNext] ∨
        x = false ∧ c = .received .send ∧ todo' = [.decreaseRqe, .ackRecv, .loadNext] ++
          List.replicate (numBlock - 1) .writeNext ∨
        x = false ∧ c = .sent .write ∧ todo' = [.decreaseSqe, .ackSend, .writeNext]) := by
  obtain ⟨rfl, wc, rfl, hw, rfl⟩ := h
  refine ⟨rfl, ?_⟩
  cases wc with
  | sent k =>
    cases k with
    | send => exact .inl ⟨rfl, by cases x <;> rfl⟩
    | write =>
      obtain hk | rfl := hw
      · cases hk
      · exact .inr (.inr (.inr ⟨rfl, rfl, rfl⟩))
  | recv imm =>
    obtain rfl : imm = (expectedTag x).toImm := hw
    cases x with
    | true => exact .inr (.inl ⟨rfl, rfl, rfl⟩)
    | false => exact .inr (.inr (.inl ⟨rfl, rfl, rfl⟩))

/-- What the handlers and the network do to a weight, compared by `r`. -/
structure Balance (r : ℤ → ℤ → Prop) (w : Weight Op Kind) : Prop where
  sent : ∀ x, r (sumOf (w.op program x) [.decreaseSqe, .ackSend]) (w.sent x .send)
  request : r (sumOf (w.op program true) [.ackRecv, .decreaseRqe, .fillNext,
    .sendActive CommDescriptor.size .responseToRequestBuffer, .recvNext]) (w.received true .send)
  answer : r (sumOf (w.op program false) [.decreaseRqe, .ackRecv, .loadNext] +
    (numBlock - 1 : ℕ) * w.op program false .writeNext) (w.received false .send)
  write : r (sumOf (w.op program false) [.decreaseSqe, .ackSend, .writeNext]) (w.sent false .write)
  message : ∀ x, r (w.ack x .send + w.received (!x) .send) (w.sq x .send + w.rq (!x))
  oneSided : ∀ x, r (w.ack x .write) (w.sq x .write)
  report : ∀ x, r (w.sent x .send) (w.ack x .send) ∧ r (w.sent x .write) (w.ack x .write)

section
variable {r : ℤ → ℤ → Prop} {w : Weight Op Kind}

theorem Balance.handle (h : Balance r w) {x : Bool} {todo todo' : List Op}
    {c : Conduit.Completion Kind} (hh : program.Handle x todo c todo') :
    r (sumOf (w.op program x) todo') (sumOf (w.op program x) todo + w.completion x c) := by
  obtain ⟨rfl, ⟨rfl, rfl⟩ | ⟨rfl, rfl, rfl⟩ | ⟨rfl, rfl, rfl⟩ | ⟨rfl, rfl, rfl⟩⟩ := handle_cases hh
  all_goals rw [Conduit.sumOf_nil, Int.zero_add]
  · exact h.sent x
  · exact h.request
  · rw [Conduit.sumOf_append, Conduit.sumOf_replicate]
    exact h.answer
  · exact h.write

theorem message_program {k : Kind} (h : program.message k = true) : k = .send := of_decide_eq_true h

theorem oneSided_program {k : Kind} (h : program.message k = false) : k = .write := by
  cases k with
  | send => cases h
  | write => rfl

theorem Balance.falls (h : Balance (· ≤ ·) w) : w.Falls program where
  handle _ _ _ _ hh := h.handle hh
  message x k hk := message_program hk ▸ h.message x
  oneSided x k hk := oneSided_program hk ▸ h.oneSided x
  report x k := by
    cases k with
    | send => exact (h.report x).1
    | write => exact (h.report x).2

theorem Balance.keeps (h : Balance (· = ·) w) : w.Keeps program where
  handle _ _ _ _ hh := h.handle hh
  message x k hk := message_program hk ▸ h.message x
  oneSided x k hk := oneSided_program hk ▸ h.oneSided x
  report x k := by
    cases k with
    | send => exact (h.report x).1
    | write => exact (h.report x).2

end

/-- The steps that take out of a count of the connection. -/
def Link.Label.spent (lab : Link.Label) (w : Weight Op Kind) : ℤ := lab.flow.elim 0 w.spent

section
variable {w : Weight Op Kind} {l l' : Link} {lab : Link.Label}

theorem Link.Label.spent_of_extra (h : w.extra = fun _ _ => 0) : lab.spent w = 0 := by
  cases lab with
  | op x o => exact congrFun (congrFun h x) o
  | _ => rfl

theorem Balance.total_le (h : Balance (· ≤ ·) w) (hs : Link.Step l lab l')
    (hw : ∀ x, ∀ wc ∈ (l.side x).cq, wc.Expected x) :
    w.total program l'.flow + lab.spent w ≤ w.total program l.flow := by
  have hstep := Link.step_flow hs hw
  rw [Link.Label.spent]
  cases hlab : lab.flow with
  | none =>
    rw [hlab] at hstep
    rw [show l'.flow = l.flow from hstep, Option.elim_none, Int.add_zero]
  | some lab' =>
    rw [hlab] at hstep
    exact h.falls.total_le hstep

theorem Balance.total_eq (h : Balance (· = ·) w) (hs : Link.Step l lab l')
    (hw : ∀ x, ∀ wc ∈ (l.side x).cq, wc.Expected x) :
    w.total program l'.flow + lab.spent w = w.total program l.flow := by
  have hstep := Link.step_flow hs hw
  rw [Link.Label.spent]
  cases hlab : lab.flow with
  | none =>
    rw [hlab] at hstep
    rw [show l'.flow = l.flow from hstep, Option.elim_none, Int.add_zero]
  | some lab' =>
    rw [hlab] at hstep
    exact h.keeps.total_eq hstep

end

/-! ### The parts of a channel -/

/-- A message is posted. -/
def Op.isMessage : Op → Bool
  | sendNext _ _ => true
  | sendActive _ _ => true
  | _ => false

namespace LinkEnd

/-- Messages that are to be posted. -/
def messages (e : LinkEnd) : ℕ := e.todo.countP Op.isMessage

/-- Requests in the send queue. -/
def queued (e : LinkEnd) (k : Kind) : ℕ := (e.chan.sq.map (·.request.kind)).count k

/-- Completions of receives that are not handled. -/
def received (e : LinkEnd) : ℕ := e.cq.countP fun wc => !wc.ofSq

end LinkEnd

theorem sumOf_op (w : Weight Op Kind) (x : Bool) (todo : List Op) :
    sumOf (w.op program x) todo = todo.countP Op.isMessage * w.sq x .send +
      todo.count .writeNext * w.sq x .write + todo.count .recvNext * w.rq x +
      todo.count .syncSend * w.signal x - todo.count .syncRecv * w.signal (!x) +
      sumOf (w.extra x) todo := by
  induction todo with
  | nil => simp
  | cons o todo ih =>
    rw [Conduit.sumOf_cons, Conduit.sumOf_cons, ih, Weight.op]
    cases o <;>
      simp [program, Op.effect, Weight.effect, Op.isMessage, List.countP_cons, Int.add_mul] <;>
      omega

theorem sumOf_kind (f : Kind → ℤ) (l : List Kind) :
    sumOf f l = l.count .send * f .send + l.count .write * f .write := by
  induction l with
  | nil => simp
  | cons k l ih =>
    rw [Conduit.sumOf_cons, ih]
    cases k <;> simp [Int.add_mul] <;> omega

theorem sumOf_completion (w : Weight Op Kind) (x : Bool) (cq : List Wc) :
    sumOf (w.completion x) (cq.map Wc.completion) = cq.count (.sent .send) * w.sent x .send +
      cq.count (.sent .write) * w.sent x .write +
      cq.countP (fun wc => !wc.ofSq) * w.received x .send := by
  induction cq with
  | nil => simp
  | cons wc cq ih =>
    rw [List.map_cons, Conduit.sumOf_cons, ih]
    rcases wc with ⟨_ | _⟩ | imm <;>
      simp [Wc.completion, Weight.completion, Wc.ofSq, Int.add_mul] <;> omega

/-- A count of one side. -/
theorem ofEnd_flow (w : Weight Op Kind) (x : Bool) (e : LinkEnd) :
    w.ofEnd program x e.flow = (e.messages + e.queued .send) * w.sq x .send +
      (e.todo.count .writeNext + e.queued .write) * w.sq x .write +
      e.chan.acks.count .send * w.ack x .send + e.chan.acks.count .write * w.ack x .write +
      e.cq.count (.sent .send) * w.sent x .send + e.cq.count (.sent .write) * w.sent x .write +
      e.received * w.received x .send + (e.todo.count .recvNext + e.chan.rq.length) * w.rq x +
      e.todo.count .syncSend * w.signal x - e.todo.count .syncRecv * w.signal (!x) +
      sumOf (w.extra x) e.todo := by
  rw [Weight.ofEnd, LinkEnd.flow, sumOf_op, sumOf_kind, sumOf_kind, sumOf_completion]
  simp only [LinkEnd.messages, LinkEnd.queued, LinkEnd.received, Int.add_mul]
  omega

theorem sumOf_extra {f : Op → ℤ} (hf : ∀ o, o ≠ .loadNext → f o = 0) (todo : List Op) :
    sumOf f todo = todo.count .loadNext * f .loadNext := by
  induction todo with
  | nil => simp
  | cons o todo ih =>
    rw [Conduit.sumOf_cons, ih]
    by_cases ho : o = .loadNext
    · subst ho
      rw [List.count_cons_self, Nat.cast_succ, Int.add_mul]
      omega
    · rw [hf o ho, List.count_cons_of_ne ho, Int.zero_add]

/-! ### The counts -/

/-- The request for the buffer or its answer, until the client loads the descriptor. -/
def unloaded : Weight Op Kind where
  sq
    | _, .send => 1
    | _, .write => 0
  ack _ _ := 0
  sent _ _ := 0
  received
    | _, .send => 1
    | _, .write => 0
  extra
    | false, .loadNext => 1
    | _, _ => 0

theorem sumOf_unloaded (x : Bool) (todo : List Op) :
    sumOf (unloaded.extra x) todo = if x then 0 else (todo.count .loadNext : ℤ) := by
  rw [sumOf_extra fun o ho => by cases x <;> cases o <;> first | rfl | exact absurd rfl ho]
  cases x <;> simp [unloaded]

theorem balance_unloaded : Balance (· = ·) unloaded :=
  ⟨by decide, by decide, by decide, by decide, by decide, by decide, by decide⟩

/-- The client's writes; they make up for what loading the descriptor takes. -/
def writes : Weight Op Kind where
  sq
    | _, .send => 0
    | x, .write => if x then 0 else 1
  ack
    | _, .send => 0
    | x, .write => if x then 0 else 1
  sent
    | _, .send => 0
    | x, .write => if x then 0 else 1
  received _ _ := 0
  extra
    | false, .loadNext => -(numBlock - 1 : ℕ)
    | _, _ => 0

theorem sumOf_writes (x : Bool) (todo : List Op) : sumOf (writes.extra x) todo =
    if x then 0 else -((numBlock - 1 : ℕ) * todo.count .loadNext : ℤ) := by
  rw [sumOf_extra fun o ho => by cases x <;> cases o <;> first | rfl | exact absurd rfl ho]
  cases x
  · simp only [writes, Bool.false_eq_true, if_false]
    rw [Int.mul_neg, Int.mul_comm]
  · simp [writes]

theorem balance_writes : Balance (· = ·) writes :=
  ⟨by decide, rfl, rfl, rfl, by decide, by decide, by decide⟩

/-- The client's request for the buffer, until its completion is handled. -/
def requests : Weight Op Kind where
  sq
    | x, .send => if x then 0 else 1
    | _, .write => 0
  ack
    | x, .send => if x then 0 else 1
    | _, .write => 0
  sent
    | x, .send => if x then 0 else 1
    | _, .write => 0
  received _ _ := 0

theorem balance_requests : Balance (· ≤ ·) requests :=
  ⟨by decide, by decide, by decide, by decide, by decide, by decide, by decide⟩

/-- What takes, or will take, a slot of the server's send queue. -/
def answers : Weight Op Kind where
  sq
    | true, _ => 1
    | false, .send => 1
    | false, .write => 0
  ack
    | x, _ => if x then 1 else 0
  sent
    | x, _ => if x then 1 else 0
  received
    | x, .send => if x then 1 else 0
    | _, .write => 0

theorem balance_answers : Balance (· ≤ ·) answers :=
  ⟨by decide, by decide, by decide, by decide, by decide, by decide, by decide⟩

/-- The receives of the server. -/
def serverReceives : Weight Op Kind where
  sq _ _ := 0
  ack _ _ := 0
  sent _ _ := 0
  received
    | x, .send => if x then 1 else 0
    | _, .write => 0
  rq x := if x then 1 else 0

theorem balance_serverReceives : Balance (· = ·) serverReceives :=
  ⟨by decide, rfl, rfl, rfl, by decide, by decide, by decide⟩

/-- The receives of the client, less the one that the answer will take. -/
def clientReceives : Weight Op Kind where
  sq
    | _, .send => -1
    | _, .write => 0
  ack _ _ := 0
  sent _ _ := 0
  received
    | x, .send => if x then -1 else 0
    | _, .write => 0
  rq x := if x then 0 else 1

theorem balance_clientReceives : Balance (· = ·) clientReceives :=
  ⟨by decide, rfl, rfl, rfl, by decide, by decide, by decide⟩

/-- The signal of the side `x`, which the other side waits for. -/
def barrier (x : Bool) : Weight Op Kind where
  sq _ _ := 0
  ack _ _ := 0
  sent _ _ := 0
  received _ _ := 0
  signal y := if y = x then 1 else 0

theorem balance_barrier (x : Bool) : Balance (· = ·) (barrier x) :=
  ⟨fun _ => rfl, rfl, rfl, rfl, fun _ => rfl, fun _ => rfl, fun _ => ⟨rfl, rfl⟩⟩

namespace Link

/-- Whether the client loads the descriptor. -/
def Label.loads (lab : Label) : ℕ := if lab = .op false .loadNext then 1 else 0

/-- What is conserved in a channel whose client has loaded the descriptor `loaded` times. -/
structure Counts (loaded : ℕ) (l : Link) : Prop where
  unloaded : (l.side true).messages + (l.side true).queued .send + (l.side true).received +
    (l.side false).messages + (l.side false).queued .send + (l.side false).received +
    (l.side false).todo.count .loadNext + loaded = 1
  writes : (l.side false).todo.count .writeNext + (l.side false).queued .write +
    (l.side false).chan.acks.count .write + (l.side false).cq.count (.sent .write) =
    (numBlock - 1) * (loaded + (l.side false).todo.count .loadNext)
  requests : (l.side false).messages + (l.side false).queued .send +
    (l.side false).chan.acks.count .send + (l.side false).cq.count (.sent .send) ≤ 1
  answers : (l.side true).messages + (l.side true).queued .send +
    (l.side true).todo.count .writeNext + (l.side true).queued .write +
    (l.side true).chan.acks.count .send + (l.side true).chan.acks.count .write +
    (l.side true).cq.count (.sent .send) + (l.side true).cq.count (.sent .write) +
    (l.side true).received + (l.side false).messages + (l.side false).queued .send ≤ 1
  serverReceives : (l.side true).todo.count .recvNext + (l.side true).chan.rq.length +
    (l.side true).received = numBlock
  clientReceives : (l.side false).todo.count .recvNext + (l.side false).chan.rq.length =
    numBlock - 1 + ((l.side true).messages + (l.side true).queued .send +
      (l.side true).received + (l.side false).messages + (l.side false).queued .send)
  barrier : ∀ x, l.synced x + (l.side x).todo.count .syncSend =
    (l.side (!x)).todo.count .syncRecv

end Link

section
variable (l : Link) (lab : Link.Label)

theorem total_unloaded : unloaded.total program l.flow =
    (l.side true).messages + (l.side true).queued .send + (l.side true).received +
    (l.side false).messages + (l.side false).queued .send + (l.side false).received +
    (l.side false).todo.count .loadNext := by
  simp only [Weight.total, Link.flow_side, ofEnd_flow, sumOf_unloaded]
  simp [unloaded]
  omega

theorem spent_unloaded : lab.spent unloaded = lab.loads := by
  cases lab with
  | op x o => cases x <;> cases o <;> rfl
  | _ => rfl

theorem total_writes : writes.total program l.flow =
    (l.side false).todo.count .writeNext + (l.side false).queued .write +
    (l.side false).chan.acks.count .write + (l.side false).cq.count (.sent .write) -
    (numBlock - 1 : ℕ) * (l.side false).todo.count .loadNext := by
  simp only [Weight.total, Link.flow_side, ofEnd_flow, sumOf_writes]
  simp [writes]
  omega

theorem spent_writes : lab.spent writes = -((numBlock - 1 : ℕ) * lab.loads : ℤ) := by
  cases lab with
  | op x o => cases x <;> cases o <;> rfl
  | _ => rfl

theorem total_requests : requests.total program l.flow =
    (l.side false).messages + (l.side false).queued .send +
    (l.side false).chan.acks.count .send + (l.side false).cq.count (.sent .send) := by
  simp [Weight.total, ofEnd_flow, requests]

theorem total_answers : answers.total program l.flow =
    (l.side true).messages + (l.side true).queued .send +
    (l.side true).todo.count .writeNext + (l.side true).queued .write +
    (l.side true).chan.acks.count .send + (l.side true).chan.acks.count .write +
    (l.side true).cq.count (.sent .send) + (l.side true).cq.count (.sent .write) +
    (l.side true).received + (l.side false).messages + (l.side false).queued .send := by
  simp [Weight.total, ofEnd_flow, answers]
  omega

theorem total_serverReceives : serverReceives.total program l.flow =
    (l.side true).todo.count .recvNext + (l.side true).chan.rq.length +
    (l.side true).received := by
  simp [Weight.total, ofEnd_flow, serverReceives]
  omega

theorem total_clientReceives : clientReceives.total program l.flow =
    (l.side false).todo.count .recvNext + (l.side false).chan.rq.length -
      ((l.side true).messages + (l.side true).queued .send + (l.side true).received +
        (l.side false).messages + (l.side false).queued .send) := by
  simp [Weight.total, ofEnd_flow, clientReceives]
  omega

theorem total_barrier (x : Bool) : (barrier x).total program l.flow =
    l.synced x + (l.side x).todo.count .syncSend - (l.side (!x)).todo.count .syncRecv := by
  cases x <;> simp [Weight.total, ofEnd_flow, barrier] <;> omega

end

/-- **Every step of a channel keeps its counts.** -/
theorem Link.Counts.step {loaded : ℕ} {l l' : Link} {lab : Link.Label} (h : l.Counts loaded)
    (hs : Link.Step l lab l') (hw : ∀ x, ∀ wc ∈ (l.side x).cq, wc.Expected x) :
    l'.Counts (loaded + lab.loads) where
  unloaded := by
    have hunloaded := h.unloaded
    have heq := balance_unloaded.total_eq hs hw
    rw [total_unloaded, total_unloaded, spent_unloaded] at heq
    omega
  writes := by
    have hwrites := h.writes
    have heq := balance_writes.total_eq hs hw
    rw [total_writes, total_writes, spent_writes] at heq
    simp only [numBlock] at hwrites heq ⊢
    omega
  requests := by
    have hrequests := h.requests
    have hle := balance_requests.total_le hs hw
    rw [total_requests, total_requests, Link.Label.spent_of_extra (by rfl)] at hle
    omega
  answers := by
    have hanswers := h.answers
    have hle := balance_answers.total_le hs hw
    rw [total_answers, total_answers, Link.Label.spent_of_extra (by rfl)] at hle
    omega
  serverReceives := by
    have hreceives := h.serverReceives
    have heq := balance_serverReceives.total_eq hs hw
    rw [total_serverReceives, total_serverReceives, Link.Label.spent_of_extra (by rfl)] at heq
    omega
  clientReceives := by
    have hreceives := h.clientReceives
    have heq := balance_clientReceives.total_eq hs hw
    rw [total_clientReceives, total_clientReceives, Link.Label.spent_of_extra (by rfl)] at heq
    omega
  barrier x := by
    have hbarrier := h.barrier x
    have heq := (balance_barrier x).total_eq hs hw
    rw [total_barrier, total_barrier, Link.Label.spent_of_extra (by rfl)] at heq
    omega

end Tower

end RdmaCore

/-
  The steps of the benchmark of example/lat_bw_benchmark.cc in which no thread
  fails, and what they do to the connection of the two sides.

  * `State.Step`: such a step; `State.Fails`: one in which a thread fails;
    `State.outcome`: every step of the benchmark is one of the two;
  * `Party.view`: what a side is in the connection;
  * `State.Step.follows`: after it the two sides follow the schedule still.
-/
import RdmaCore.BenchmarkPrograms

open Conduit Script

namespace RdmaCore

namespace Benchmark

/-! ## Operations that do not fail -/

/-- The operation posts the request `r`, and leaves the buffer `buffer`. -/
inductive Chan.Posts (me : Chan) : Op → RDMABuffer → Request → Prop where
  | sendAt {i len : ℕ} {tag : MessageforTest} :
      Posts me (.sendAt i len tag) me.buffer (.send i len tag)
  | sendNext {buffer : RDMABuffer} {i len : ℕ} {tag : MessageforTest}
      (h : me.buffer.next = .ok (buffer, i)) :
      Posts me (.sendNext len tag) buffer (.send i len tag)
  | writeNext {buffer : RDMABuffer} {i len : ℕ} (h : me.buffer.next = .ok (buffer, i)) :
      Posts me (.writeNext len) buffer (.write i len me.bufferPeer)
  | writeAt {i len : ℕ} : Posts me (.writeAt i len) me.buffer (.write i len me.bufferPeer)
  | readNext {buffer : RDMABuffer} {i len : ℕ} (h : me.buffer.next = .ok (buffer, i)) :
      Posts me (.readNext len) buffer (.read i len me.bufferPeer)

/-- The operation posts a receive of `limit` bytes into block `i`. -/
inductive Chan.Receives (me : Chan) : Op → RDMABuffer → ℕ → ℕ → Prop where
  | recvAt {i len : ℕ} : Receives me (.recvAt i len) me.buffer i len
  | recvNext {buffer : RDMABuffer} {i : ℕ} {o : BufferObj} (h : me.buffer.next = .ok (buffer, i))
      (ho : buffer.blockAt i = .ok o) : Receives me .recvNext buffer i (o.bufferSize % 2 ^ 32)

/-- What an operation does to its channel, unless it fails. -/
inductive Chan.Performs (me : Chan) : Op → Chan → Prop where
  | post {o : Op} {buffer : RDMABuffer} {r : Request} (h : me.Posts o buffer r) :
      Performs me o
        { me with buffer, sqInflight := me.sqInflight + 1, sq := me.sq ++ [⟨r, none⟩] }
  | recv {o : Op} {buffer : RDMABuffer} {i limit : ℕ} (h : me.Receives o buffer i limit) :
      Performs me o
        { me with buffer, rqInflight := me.rqInflight + 1, rq := me.rq ++ [(i, limit)] }
  | last {buffer : RDMABuffer} {i : ℕ} (h : me.buffer.last = .ok (buffer, i)) :
      Performs me .last { me with buffer }
  | fill {first : BufferObj} (h : me.buffer.blockAt 0 = .ok first) :
      Performs me .fill { me with mem := me.mem.write blockSize (me.descriptorBytes first) }
  | load : Performs me .load { me with bufferPeer := CommDescriptor.load me.mem 0 }

/-- The operation takes the completion `wc`, and goes on with `os`. -/
inductive Op.Takes : Op → Wc → List Op → Prop where
  | awaitSent {k k' : Kind} (h : k'.opcode = k.opcode) : Takes (.awaitSent k) (.sent k') []
  | awaitRecv {tag tag' : MessageforTest} {checked : Bool} (h : checked → tag' = tag) :
      Takes (.awaitRecv tag checked) (.recv tag') []
  | request {request response : MessageforTest} {recv : Bool} {k : Kind}
      (h : k.opcode = .send) : Takes (.exchange request response false recv) (.sent k)
        (take.loop request response true recv)
  | response {request response : MessageforTest} {send : Bool} :
      Takes (.exchange request response send false) (.recv response)
        (take.loop request response send true)

theorem Op.takes {o : Op} {wc : Wc} {os : List Op} (ho : o.polls = true)
    (hok : o.take wc = .ok os) : o.Takes wc os := by
  cases o with
  | awaitSent k =>
    cases wc with
    | recv tag => cases hok
    | sent k' =>
      simp only [take] at hok
      split_ifs at hok with h
      cases hok
      exact .awaitSent h
  | awaitRecv tag checked =>
    cases wc with
    | sent k => cases hok
    | recv tag' =>
      simp only [take] at hok
      split_ifs at hok with h
      cases hok
      exact .awaitRecv h
  | exchange request response send recv =>
    cases wc with
    | sent k =>
      simp only [take] at hok
      split_ifs at hok with h hsend
      obtain rfl : send = false := by simpa using hsend
      cases hok
      exact .request h
    | recv tag =>
      simp only [take] at hok
      split_ifs at hok with h hrecv
      obtain rfl : recv = false := by simpa using hrecv
      subst h
      cases hok
      exact .response
  | _ => cases ho

/-- The operation is one of those of `perform`. -/
def Op.Performed : Op → Prop
  | syncSend | syncRecv | awaitSent _ | awaitRecv .. | exchange .. | confirm .. => False
  | _ => True

namespace Chan

variable {me me' : Chan} {reported : Bool → ℕ} {o : Op}

theorem recvRemote_ok {k i len : ℕ} (h : me.recvRemote k i len = .ok me') :
    me' = { me with rqInflight := me.rqInflight + 1, rq := me.rq ++ [(i, len)] } := by
  simp only [recvRemote, Except.bind_eq_ok] at h
  obtain ⟨-, -, h⟩ := h
  split_ifs at h
  exact (Except.ok.inj h).symm

theorem performs (ho : o.Performed) (h : me.perform reported o = .ok me') : me.Performs o me' := by
  cases o with
  | syncSend => exact ho.elim
  | syncRecv => exact ho.elim
  | awaitSent => exact ho.elim
  | awaitRecv => exact ho.elim
  | exchange => exact ho.elim
  | confirm => exact ho.elim
  | recvAt i len =>
    obtain rfl := recvRemote_ok h
    exact .recv .recvAt
  | recvNext =>
    simp only [perform, Except.bind_eq_ok, fault, failWith_eq_ok] at h
    obtain ⟨⟨buffer, i⟩, hn, b, hb, h⟩ := h
    obtain rfl := recvRemote_ok h
    exact .recv (.recvNext hn hb)
  | sendAt i len tag =>
    simp only [perform, sendRemote, Except.bind_eq_ok] at h
    obtain ⟨-, -, h⟩ := h
    obtain ⟨-, rfl⟩ := ite_error_eq_ok.1 h
    exact .post .sendAt
  | sendNext len tag =>
    simp only [perform, sendRemote, Except.bind_eq_ok, fault, failWith_eq_ok] at h
    obtain ⟨⟨buffer, i⟩, hn, -, -, h⟩ := h
    obtain ⟨-, rfl⟩ := ite_error_eq_ok.1 h
    exact .post (.sendNext hn)
  | writeNext len =>
    simp only [perform, writeRemote, Except.bind_eq_ok, fault, failWith_eq_ok] at h
    obtain ⟨⟨buffer, i⟩, hn, -, -, h⟩ := h
    obtain ⟨-, rfl⟩ := ite_error_eq_ok.1 h
    exact .post (.writeNext hn)
  | writeAt i len =>
    simp only [perform, writeRemote, Except.bind_eq_ok] at h
    obtain ⟨-, -, h⟩ := h
    obtain ⟨-, rfl⟩ := ite_error_eq_ok.1 h
    exact .post .writeAt
  | readNext len =>
    simp only [perform, readRemote, Except.bind_eq_ok, fault, failWith_eq_ok] at h
    obtain ⟨⟨buffer, i⟩, hn, -, -, h⟩ := h
    obtain ⟨-, rfl⟩ := ite_error_eq_ok.1 h
    exact .post (.readNext hn)
  | last =>
    simp only [perform, Except.bind_eq_ok, fault, failWith_eq_ok] at h
    obtain ⟨⟨buffer, i⟩, hl, h⟩ := h
    obtain rfl := Except.ok.inj h
    exact .last hl
  | fill =>
    simp only [perform, Except.bind_eq_ok, fault, failWith_eq_ok] at h
    obtain ⟨first, hf, h⟩ := h
    obtain rfl := Except.ok.inj h
    exact .fill hf
  | load =>
    obtain rfl := Except.ok.inj h
    exact .load

end Chan

/-! ## Steps -/

namespace State

variable (s : State) (x : Bool) (p : Party) (n : ℕ)

@[simp] theorem setParty_self : (s.setParty x p).party x = p := Function.update_self ..

@[simp] theorem setParty_not : (s.setParty x p).party (!x) = s.party (!x) :=
  Function.update_of_ne (Bool.not_ne_self x) ..

@[simp] theorem setParty_of_not : (s.setParty (!x) p).party x = s.party x :=
  Function.update_of_ne (Bool.self_ne_not x) ..

theorem setParty_server : (s.setParty true p).party false = s.party false := s.setParty_not true p

theorem setParty_client : (s.setParty false p).party true = s.party true := s.setParty_not false p

@[simp] theorem setParty_synced : (s.setParty x p).synced = s.synced := rfl

@[simp] theorem setSynced_party : (s.setSynced x n).party = s.party := rfl

@[simp] theorem setSynced_self : (s.setSynced x n).synced x = n := Function.update_self ..

@[simp] theorem setSynced_not : (s.setSynced x n).synced (!x) = s.synced (!x) :=
  Function.update_of_ne (Bool.not_ne_self x) ..

@[simp] theorem setSynced_of_not : (s.setSynced (!x) n).synced x = s.synced x :=
  Function.update_of_ne (Bool.self_ne_not x) ..

/-- A step in which no thread fails. -/
inductive Step (s : State) : Act → State → Prop where
  | perform {x : Bool} {o : Op} {todo : List Op} {me : Chan} (ht : (s.party x).todo = o :: todo)
      (hp : (s.party x).chan.Performs o me) :
      Step s (.exec x) (s.setParty x { s.party x with todo, chan := me })
  | syncSend {x : Bool} {todo : List Op} (ht : (s.party x).todo = .syncSend :: todo) :
      Step s (.exec x) ((s.setParty x { s.party x with todo }).setSynced x (s.synced x + 1))
  | syncRecv {x : Bool} {todo : List Op} (ht : (s.party x).todo = .syncRecv :: todo)
      (hs : 0 < s.synced (!x)) :
      Step s (.exec x) ((s.setParty x { s.party x with todo }).setSynced (!x) (s.synced (!x) - 1))
  | take {x : Bool} {o : Op} {todo os : List Op} {wc : Wc} {cq : List Wc}
      (ht : (s.party x).todo = o :: todo) (ho : o.polls = true) (hq : (s.party x).cq = wc :: cq)
      (hok : o.take wc = .ok os) :
      Step s (.exec x) (s.setParty x { s.party x with todo := os ++ todo, cq })
  | confirmed {x : Bool} {index : ℕ} {ring : Bool} {todo : List Op}
      (ht : (s.party x).todo = .confirm index count ring :: todo) :
      Step s (.exec x) (s.setParty x { s.party x with todo })
  | confirm {x : Bool} {index confirmed k : ℕ} {ring : Bool} {todo : List Op} {me : Chan}
      (ht : (s.party x).todo = .confirm index confirmed ring :: todo) (hc : confirmed < count)
      (hk : 0 < k) (hle : k ≤ (s.party x).cq.length)
      (hok : (s.party x).chan.confirmAll ring ((s.party x).cq.take k) = .ok me) :
      Step s (.poll x k) (s.setParty x { s.party x with
        todo := .confirm (index + 1) (confirmed + k) ring :: todo
        cq := (s.party x).cq.drop k
        chan := me })
  | fetch {x : Bool} {j : ℕ} {r : Request} (hj : (s.party x).chan.sq[j]? = some ⟨r, none⟩) :
      Step s (.fetch x j) (s.setParty x { s.party x with
        chan := { (s.party x).chan with
          sq := (s.party x).chan.sq.set j
            ⟨r, some ((s.party x).chan.mem.read (r.block * blockSize) r.len)⟩ } })
  | message {x : Bool} {b len i limit : ℕ} {tag : MessageforTest} {data : List UInt8}
      {sq : List Posted} {rq : List (ℕ × ℕ)}
      (hq : (s.party x).chan.sq = ⟨.send b len tag, some data⟩ :: sq)
      (hr : (s.party (!x)).chan.rq = (i, limit) :: rq) (hle : len ≤ limit) :
      Step s (.deliver x) ((s.setParty x { s.party x with
          chan := { (s.party x).chan with
            sq, acks := (s.party x).chan.acks ++ [.send tag] } }).setParty (!x)
        { s.party (!x) with
          cq := (s.party (!x)).cq ++ [.recv tag]
          chan := { (s.party (!x)).chan with
            rq, mem := (s.party (!x)).chan.mem.write (i * blockSize) data } })
  | write {x : Bool} {b len a : ℕ} {d : CommDescriptor} {data : List UInt8} {sq : List Posted}
      (hq : (s.party x).chan.sq = ⟨.write b len d, some data⟩ :: sq)
      (ha : (s.party (!x)).chan.offset d len = some a) :
      Step s (.deliver x) ((s.setParty x { s.party x with
          chan := { (s.party x).chan with
            sq, acks := (s.party x).chan.acks ++ [.write] } }).setParty (!x)
        { s.party (!x) with
          chan := { (s.party (!x)).chan with mem := (s.party (!x)).chan.mem.write a data } })
  | read {x : Bool} {i len a : ℕ} {d : CommDescriptor} {payload : Option (List UInt8)}
      {sq : List Posted} (hq : (s.party x).chan.sq = ⟨.read i len d, payload⟩ :: sq)
      (ha : (s.party (!x)).chan.offset d len = some a) :
      Step s (.deliver x) (s.setParty x { s.party x with
        chan := { (s.party x).chan with
          sq
          acks := (s.party x).chan.acks ++ [.read]
          mem := (s.party x).chan.mem.write (i * blockSize)
            ((s.party (!x)).chan.mem.read a len) } })
  | report {x : Bool} {k : Kind} {acks : List Kind} (ha : (s.party x).chan.acks = k :: acks) :
      Step s (.complete x) (s.setParty x { s.party x with
        cq := (s.party x).cq ++ [.sent k]
        chan := { (s.party x).chan with acks } })

/-- A step in which the thread of side `x` fails with `f`. -/
inductive Fails (s : State) : Act → Bool → Failure → Prop where
  | perform {x : Bool} {o : Op} {todo : List Op} {f : Failure}
      (ht : (s.party x).todo = o :: todo) (ho : o.Performed)
      (h : (s.party x).chan.perform (s.party x).reported o = .error f) : Fails s (.exec x) x f
  | take {x : Bool} {o : Op} {todo : List Op} {wc : Wc} {cq : List Wc} {f : Failure}
      (ht : (s.party x).todo = o :: todo) (ho : o.polls = true) (hq : (s.party x).cq = wc :: cq)
      (h : o.take wc = .error f) : Fails s (.exec x) x f
  | confirmed {x : Bool} {index confirmed : ℕ} {ring : Bool} {todo : List Op}
      (ht : (s.party x).todo = .confirm index confirmed ring :: todo)
      (hloop : ¬(index < count ∧ confirmed < count)) (hc : confirmed ≠ count) :
      Fails s (.exec x) x .confirm
  | confirm {x : Bool} {index confirmed k : ℕ} {ring : Bool} {todo : List Op} {f : Failure}
      (ht : (s.party x).todo = .confirm index confirmed ring :: todo) (hc : confirmed < count)
      (h : (s.party x).chan.confirmAll ring ((s.party x).cq.take k) = .error f) :
      Fails s (.poll x k) x f
  | message {x : Bool} {b len i limit : ℕ} {tag : MessageforTest} {data : List UInt8}
      {sq : List Posted} {rq : List (ℕ × ℕ)}
      (hq : (s.party x).chan.sq = ⟨.send b len tag, some data⟩ :: sq)
      (hr : (s.party (!x)).chan.rq = (i, limit) :: rq) (hlt : limit < len) :
      Fails s (.deliver x) x .status
  | write {x : Bool} {b len : ℕ} {d : CommDescriptor} {data : List UInt8} {sq : List Posted}
      (hq : (s.party x).chan.sq = ⟨.write b len d, some data⟩ :: sq)
      (ha : (s.party (!x)).chan.offset d len = none) : Fails s (.deliver x) x .status
  | read {x : Bool} {i len : ℕ} {d : CommDescriptor} {payload : Option (List UInt8)}
      {sq : List Posted} (hq : (s.party x).chan.sq = ⟨.read i len d, payload⟩ :: sq)
      (ha : (s.party (!x)).chan.offset d len = none) : Fails s (.deliver x) x .status

variable {s x} {s' : State}

/-- The step is one without failure, or its thread fails. -/
def Outcome (s : State) (a : Act) (s' : State) : Prop :=
  Step s a s' ∨ ∃ x f, Fails s a x f ∧ s' = s.fail x f

theorem outcome_exec (h : s.exec x = some s') : Outcome s (.exec x) s' := by
  simp only [State.exec] at h
  split at h
  · cases h
  · next ht =>
    obtain rfl := Option.some.inj h
    exact .inl (.syncSend ht)
  · next ht =>
    split_ifs at h with hs
    obtain rfl := Option.some.inj h
    exact .inl (.syncRecv ht hs)
  · next ht =>
    split_ifs at h with hi hc
    · obtain rfl := Option.some.inj h
      subst hc
      exact .inl (.confirmed ht)
    · exact .inr ⟨x, _, .confirmed ht hi hc, (Option.some.inj h).symm⟩
  · next o todo hs hr hc ht =>
    split_ifs at h with ho
    · split at h
      · cases h
      · next wc cq hq =>
        split at h
        · next os hok =>
          obtain rfl := Option.some.inj h
          exact .inl (.take ht ho hq hok)
        · next f hf => exact .inr ⟨x, f, .take ht ho hq hf, (Option.some.inj h).symm⟩
    · have hperformed : o.Performed := by
        cases o with
        | syncSend => exact hs rfl
        | syncRecv => exact hr rfl
        | confirm index confirmed ring => exact hc _ _ _ rfl
        | awaitSent | awaitRecv | exchange => exact ho rfl
        | _ => trivial
      split at h
      · next me hp =>
        obtain rfl := Option.some.inj h
        exact .inl (.perform ht (Chan.performs hperformed hp))
      · next f hp => exact .inr ⟨x, f, .perform ht hperformed hp, (Option.some.inj h).symm⟩

theorem outcome_poll {k : ℕ} (h : s.poll x k = some s') : Outcome s (.poll x k) s' := by
  simp only [State.poll] at h
  split at h
  · next ht =>
    split_ifs at h with hk
    split at h
    · next me hok =>
      obtain rfl := Option.some.inj h
      exact .inl (.confirm ht hk.2.1 hk.2.2.1 hk.2.2.2.2 hok)
    · next f hf => exact .inr ⟨x, f, .confirm ht hk.2.1 hf, (Option.some.inj h).symm⟩
  · cases h

theorem Step.of_fetch {j : ℕ} (h : s.fetch x j = some s') : Step s (.fetch x j) s' := by
  simp only [State.fetch] at h
  split at h
  · next hj =>
    obtain rfl := Option.some.inj h
    exact .fetch hj
  · cases h

theorem outcome_deliver (h : s.deliver x = some s') : Outcome s (.deliver x) s' := by
  simp only [State.deliver] at h
  split at h
  · next b len tag data sq hq =>
    split at h
    · cases h
    · next hr =>
      split_ifs at h with hle
      · obtain rfl := Option.some.inj h
        rw [sent, hq]
        exact .inl (.message hq hr hle)
      · exact .inr ⟨x, _, .message hq hr (Nat.lt_of_not_le hle), (Option.some.inj h).symm⟩
  · next hq =>
    split at h
    · next ha =>
      obtain rfl := Option.some.inj h
      rw [sent, hq]
      exact .inl (.write hq ha)
    · next ha => exact .inr ⟨x, _, .write hq ha, (Option.some.inj h).symm⟩
  · next hq =>
    split at h
    · next ha =>
      obtain rfl := Option.some.inj h
      simp only [sent, hq, setParty_self]
      exact .inl (.read hq ha)
    · next ha => exact .inr ⟨x, _, .read hq ha, (Option.some.inj h).symm⟩
  · cases h

theorem Step.of_complete (h : s.complete x = some s') : Step s (.complete x) s' := by
  simp only [State.complete] at h
  split at h
  · cases h
  · next ha =>
    obtain rfl := Option.some.inj h
    exact .report ha

/-- **What an action does.** -/
theorem outcome {a : Act} (h : s.step a = some s') : Outcome s a s' := by
  cases a with
  | exec x =>
    simp only [step] at h
    split_ifs at h
    exact outcome_exec h
  | poll x k =>
    simp only [step] at h
    split_ifs at h
    exact outcome_poll h
  | fetch x j => exact .inl (.of_fetch h)
  | deliver x => exact outcome_deliver h
  | complete x => exact .inl (.of_complete h)

theorem fail_failed (s : State) (x : Bool) (f : Failure) :
    ((s.fail x f).party x).failed = some f := by
  rw [fail, setParty_self]

/-- **A step after which no thread has failed.** -/
theorem Step.of_step {a : Act} (h : s.step a = some s')
    (hf : ∀ x, (s'.party x).failed = none) : Step s a s' := by
  rcases outcome h with hs | ⟨x, f, -, rfl⟩
  · exact hs
  · have hx := hf x
    rw [fail_failed] at hx
    cases hx

/-- What holds of both sides after one of them has changed. -/
theorem forall_setParty {Q : Bool → Party → Prop} {p : Party} (h : ∀ y, Q y (s.party y))
    (hp : Q x p) : ∀ y, Q y ((s.setParty x p).party y) := by
  intro y
  rcases eq_or_eq_not y x with rfl | rfl
  · rwa [setParty_self]
  · rw [setParty_not]
    exact h _

theorem failed_setParty {p : Party} (hp : p.failed = (s.party x).failed) (y : Bool) :
    ((s.setParty x p).party y).failed = (s.party y).failed :=
  forall_setParty (Q := fun y p => p.failed = (s.party y).failed) (fun _ => rfl) hp y

theorem Step.failed {a : Act} (hs : Step s a s') (y : Bool) :
    (s'.party y).failed = (s.party y).failed := by
  cases hs with
  | message | write =>
    exact (failed_setParty (by rw [setParty_not]) y).trans (failed_setParty (by rfl) y)
  | _ => exact failed_setParty (by rfl) y

/-- A thread that has failed stays so. -/
theorem failed_of_step {a : Act} (h : s.step a = some s') {y : Bool}
    (hf : (s'.party y).failed = none) : (s.party y).failed = none := by
  rcases outcome h with hs | ⟨x, f, -, rfl⟩
  · exact (hs.failed y).symm.trans hf
  · rcases eq_or_eq_not y x with rfl | rfl
    · rw [fail_failed] at hf
      cases hf
    · rwa [fail, setParty_not] at hf

/-! ### Steps that are possible -/

theorem step_perform {o : Op} {todo : List Op} {me : Chan} (hf : (s.party x).failed = none)
    (ht : (s.party x).todo = o :: todo) (ho : o.Performed)
    (hp : (s.party x).chan.perform (s.party x).reported o = .ok me) :
    s.step (.exec x) = some (s.setParty x { s.party x with todo, chan := me }) := by
  simp only [step, if_pos hf, State.exec, ht]
  cases o with
  | syncSend | syncRecv | awaitSent | awaitRecv | exchange | confirm => exact ho.elim
  | _ => simp only [Op.polls, Bool.false_eq_true, if_false, hp]

theorem exists_take {o : Op} {todo os : List Op} {wc : Wc} {cq : List Wc}
    (hf : (s.party x).failed = none) (ht : (s.party x).todo = o :: todo) (ho : o.polls = true)
    (hq : (s.party x).cq = wc :: cq) (hok : o.take wc = .ok os) :
    ∃ t, s.step (.exec x) = some t ∧ t.party x = { s.party x with todo := os ++ todo, cq } ∧
      t.party (!x) = s.party (!x) := by
  refine ⟨s.setParty x { s.party x with todo := os ++ todo, cq }, ?_, setParty_self ..,
    setParty_not ..⟩
  simp only [step, if_pos hf, State.exec, ht]
  cases o with
  | awaitSent | awaitRecv | exchange => simp only [Op.polls, if_true, hq, hok]
  | _ => cases ho

theorem exists_fetch {r : Request} {sq : List Posted}
    (hq : (s.party x).chan.sq = ⟨r, none⟩ :: sq) : ∃ data t, s.step (.fetch x 0) = some t ∧
      t.party x = { s.party x with chan := { (s.party x).chan with sq := ⟨r, some data⟩ :: sq } } ∧
      t.party (!x) = s.party (!x) := by
  refine ⟨(s.party x).chan.mem.read (r.block * blockSize) r.len, _, ?_, setParty_self ..,
    setParty_not ..⟩
  simp only [step, State.fetch, hq, List.getElem?_cons_zero, List.set_cons_zero]

theorem exists_message {b len i limit : ℕ} {tag : MessageforTest} {data : List UInt8}
    {sq : List Posted} {rq : List (ℕ × ℕ)}
    (hq : (s.party x).chan.sq = ⟨.send b len tag, some data⟩ :: sq)
    (hr : (s.party (!x)).chan.rq = (i, limit) :: rq) (hle : len ≤ limit) :
    ∃ mem t, s.step (.deliver x) = some t ∧
      t.party x = { s.party x with
        chan := { (s.party x).chan with sq, acks := (s.party x).chan.acks ++ [.send tag] } } ∧
      t.party (!x) = { s.party (!x) with
        cq := (s.party (!x)).cq ++ [.recv tag], chan := { (s.party (!x)).chan with rq, mem } } := by
  have hstep : s.step (.deliver x) = some ((s.sent x (.send tag)).setParty (!x)
      { s.party (!x) with
        cq := (s.party (!x)).cq ++ [.recv tag]
        chan := { (s.party (!x)).chan with
          rq, mem := (s.party (!x)).chan.mem.write (i * blockSize) data } }) := by
    simp only [step, State.deliver, hq, hr, if_pos hle]
  refine ⟨_, _, hstep, ?_, setParty_self ..⟩
  rw [setParty_of_not, sent, setParty_self, hq, List.tail_cons]

theorem exists_complete {k : Kind} {acks : List Kind} (ha : (s.party x).chan.acks = k :: acks) :
    ∃ t, s.step (.complete x) = some t ∧ t.party x = { s.party x with
        cq := (s.party x).cq ++ [.sent k], chan := { (s.party x).chan with acks } } ∧
      t.party (!x) = s.party (!x) := by
  refine ⟨_, ?_, setParty_self .., setParty_not ..⟩
  simp only [step, State.complete, ha]

end State

/-! ## The connection -/

/-- A side, as an end of the connection. -/
def Party.view (p : Party) : End (Script.Op Kind) Kind where
  todo := p.todo.flatMap Op.flow
  sq := p.chan.sq.map (·.request.kind)
  acks := p.chan.acks
  cq := p.cq.map Wc.completion
  rq := p.chan.rq.length

/-- The benchmark, as a connection. -/
def State.view (s : State) : Conduit.State (Script.Op Kind) Kind where
  side x := (s.party x).view
  signals := s.synced

theorem State.view_setParty (s : State) (x : Bool) (p : Party) :
    (s.setParty x p).view = s.view.set x p.view := by
  simp only [State.view, Conduit.State.set, State.setParty]
  congr 1
  funext y
  rcases eq_or_eq_not y x with rfl | rfl <;> simp

theorem State.view_setSynced (s : State) (x : Bool) (n : ℕ) :
    (s.setSynced x n).view = s.view.setSignals x n := rfl

/-! ### Completions that are waited for -/

/-- **An operation that meets a completion it waits for** goes on, and waits for the others. -/
theorem Op.take_of_mem {o : Op} {wc : Wc} {cs : List (Conduit.Completion Kind)} (ho : o.polls = true)
    (hu : o.Under) (hf : o.flow = [.await cs]) (hc : wc.completion ∈ cs) :
    ∃ os, o.take wc = .ok os ∧ os.flatMap Op.flow = wait (cs.erase wc.completion) := by
  cases o with
  | awaitSent k =>
    obtain rfl : [.sent k] = cs := by simpa [flow] using hf
    cases wc with
    | sent k' =>
      obtain rfl : k' = k := by simpa [Wc.completion] using hc
      exact ⟨[], by simp [take], by simp [Wc.completion, wait]⟩
    | recv tag => simp [Wc.completion] at hc
  | awaitRecv tag checked =>
    obtain rfl : [.received (.send tag)] = cs := by simpa [flow] using hf
    cases wc with
    | sent k => simp [Wc.completion] at hc
    | recv tag' =>
      obtain rfl : tag' = tag := by simpa [Wc.completion] using hc
      exact ⟨[], by simp [take], by simp [Wc.completion, wait]⟩
  | exchange request response send recv =>
    have hcs : pending request response send recv = cs := by
      simp only [flow, wait] at hf
      split_ifs at hf
      simpa using hf
    subst hcs
    cases wc with
    | sent k =>
      obtain ⟨rfl, rfl⟩ : send = false ∧ k = .send request := by
        cases send <;> cases recv <;> simp [pending, Wc.completion] at hc ⊢ <;> exact hc
      exact ⟨take.loop request response true recv, by simp [take, Kind.opcode],
        by cases recv <;> simp [take.loop, flow, pending, Wc.completion, wait]⟩
    | recv tag =>
      obtain ⟨rfl, rfl⟩ : recv = false ∧ tag = response := by
        cases send <;> cases recv <;> simp [pending, Wc.completion] at hc ⊢ <;> exact hc
      exact ⟨take.loop request tag send true, by simp [take],
        by cases send <;> simp [take.loop, flow, pending, Wc.completion, wait]⟩
  | _ => cases ho

theorem Op.flow_polls {o : Op} (ho : o.polls = true) (hu : o.Under) : ∃ cs, o.flow = [.await cs] := by
  cases o with
  | exchange request response send recv =>
    have hu : (send && recv) = false := hu
    exact ⟨_, if_neg (by cases send <;> cases recv <;> simp_all [pending])⟩
  | awaitSent => exact ⟨_, rfl⟩
  | awaitRecv => exact ⟨_, rfl⟩
  | _ => cases ho

/-- A poll that does not fail takes a message only where one is waited for. -/
theorem Op.Takes.receiveds {o : Op} {wc : Wc} {os : List Op}
    {cs : List (Conduit.Completion Kind)} {k : Kind} (h : o.Takes wc os)
    (hf : o.flow = [.await cs]) (hk : wc.completion = .received k) : receiveds cs ≠ [] := by
  cases h with
  | awaitSent => cases hk
  | @awaitRecv tag =>
    obtain rfl : [.received (.send tag)] = cs := by simpa [flow] using hf
    exact List.cons_ne_nil _ _
  | request => cases hk
  | @response request response send =>
    obtain rfl : pending request response send false = cs := by
      simp only [flow, wait] at hf
      split_ifs at hf
      simpa using hf
    cases send <;> exact List.cons_ne_nil _ _

/-- What an operation does to the connection. -/
theorem Chan.Performs.view {me me' : Chan} {o : Op} (h : me.Performs o me') :
    (o.flow = [] ∧ me'.sq = me.sq ∧ me'.acks = me.acks ∧ me'.rq = me.rq) ∨
    (∃ r, o.flow = [.post r.kind] ∧ me'.sq = me.sq ++ [⟨r, none⟩] ∧ me'.acks = me.acks ∧
      me'.rq = me.rq) ∨
    ∃ i limit, o.flow = [.recv] ∧ me'.sq = me.sq ∧ me'.acks = me.acks ∧
      me'.rq = me.rq ++ [(i, limit)] := by
  cases h with
  | @post o buffer r hpost => exact .inr (.inl ⟨r, by cases hpost <;> rfl, rfl, rfl, rfl⟩)
  | @recv o buffer i limit hrecv =>
    exact .inr (.inr ⟨i, limit, by cases hrecv <;> rfl, rfl, rfl, rfl⟩)
  | last h => exact .inl ⟨rfl, rfl, rfl, rfl⟩
  | fill h => exact .inl ⟨rfl, rfl, rfl, rfl⟩
  | load => exact .inl ⟨rfl, rfl, rfl, rfl⟩

namespace State

variable {s s' : State} {past : Bool → Past Kind} {x : Bool} {a : Act}

theorem view_side (s : State) (x : Bool) : s.view.side x = (s.party x).view := rfl

theorem view_todo {o : Op} {todo : List Op} (ht : (s.party x).todo = o :: todo) :
    (s.view.side x).todo = o.flow ++ todo.flatMap Op.flow := by
  rw [view_side, Party.view, ht, List.flatMap_cons]

/-- A step that is none of the connection. -/
theorem view_silent {p : Party} (h : p.view = (s.party x).view) : (s.setParty x p).view = s.view := by
  rw [view_setParty, h, ← view_side, Conduit.State.set_side]

/-- **A side meets only completions that it waits for**, if it waits for messages or meets
    a report. -/
theorem take_ok (h : Follows net schedule past s.view) {o : Op} {todo : List Op} {wc : Wc}
    {cq : List Wc} {cs : List (Conduit.Completion Kind)} (ht : (s.party x).todo = o :: todo)
    (ho : o.polls = true) (hu : o.Under) (hf : o.flow = [.await cs])
    (hq : (s.party x).cq = wc :: cq) (hc : ∀ k, wc.completion = .received k → receiveds cs ≠ []) :
    wc.completion ∈ cs ∧
      ∃ os, o.take wc = .ok os ∧ os.flatMap Op.flow = wait (cs.erase wc.completion) := by
  have hv := view_todo ht
  rw [hf] at hv
  have hcq : (s.view.side x).cq = wc.completion :: cq.map Wc.completion := by
    rw [view_side, Party.view, hq, List.map_cons]
  have hmem := (h.expected check_schedule hv hcq hc).mem
  exact ⟨hmem, Op.take_of_mem ho hu hf hmem⟩

theorem follows_perform (h : Follows net schedule past s.view) {o : Op} {todo : List Op} {me : Chan}
    (ht : (s.party x).todo = o :: todo) (hp : (s.party x).chan.Performs o me) :
    ∃ past', Follows net schedule past'
      (s.setParty x { s.party x with todo, chan := me }).view := by
  have hv := view_todo ht
  rw [view_setParty]
  obtain ⟨hf, hsq, hacks, hrq⟩ | ⟨r, hf, hsq, hacks, hrq⟩ | ⟨i, limit, hf, hsq, hacks, hrq⟩ :=
    hp.view
  · refine ⟨past, ?_⟩
    have hview : Party.view { s.party x with todo, chan := me } = s.view.side x := by
      rw [view_side, Party.view, Party.view, hsq, hacks, hrq, ht, List.flatMap_cons, hf]
      rfl
    rw [hview, Conduit.State.set_side]
    exact h
  · rw [hf] at hv
    have hstep := h.step check_schedule
      (.op (o := .post r.kind) hv (fun hw => by cases hw) (fun hw => by cases hw))
    have hview : Party.view { s.party x with todo, chan := me } =
        { s.view.side x with
          todo := todo.flatMap Op.flow, sq := (s.view.side x).sq ++ [r.kind] } := by
      rw [view_side, Party.view, Party.view, hsq, hacks, hrq, List.map_append]
      rfl
    rw [hview]
    exact ⟨_, hstep⟩
  · rw [hf] at hv
    have hstep := h.step check_schedule
      (.op (o := .recv) hv (fun hw => by cases hw) (fun hw => by cases hw))
    have hview : Party.view { s.party x with todo, chan := me } =
        { s.view.side x with todo := todo.flatMap Op.flow, rq := (s.view.side x).rq + 1 } := by
      rw [view_side, Party.view, Party.view, hsq, hacks, hrq, List.length_append]
      rfl
    rw [hview]
    exact ⟨_, hstep⟩

theorem follows_take (h : Follows net schedule past s.view) {o : Op} {todo os : List Op} {wc : Wc}
    {cq : List Wc} (ht : (s.party x).todo = o :: todo) (ho : o.polls = true) (hu : o.Under)
    (hq : (s.party x).cq = wc :: cq) (hok : o.take wc = .ok os) :
    ∃ past', Follows net schedule past'
      (s.setParty x { s.party x with todo := os ++ todo, cq }).view := by
  obtain ⟨cs, hf⟩ := Op.flow_polls ho hu
  obtain ⟨hmem, os', hok', hos⟩ :=
    take_ok h ht ho hu hf hq fun _ hk => (Op.takes ho hok).receiveds hf hk
  obtain rfl : os = os' := Except.ok.inj (hok.symm.trans hok')
  have hv := view_todo ht
  rw [hf] at hv
  have hcq : (s.view.side x).cq = wc.completion :: cq.map Wc.completion := by
    rw [view_side, Party.view, hq, List.map_cons]
  have hstep := h.step check_schedule (.handle hcq ⟨cs, _, hv, hmem, rfl⟩)
  have hview : Party.view { s.party x with todo := os ++ todo, cq } =
      { s.view.side x with
        todo := resume cs wc.completion (todo.flatMap Op.flow)
        cq := cq.map Wc.completion } := by
    rw [view_side, Party.view, Party.view, List.flatMap_append, hos, resume_eq]
  rw [view_setParty, hview]
  exact ⟨_, hstep⟩

theorem completion_injective : Function.Injective Wc.completion := by
  intro a b hab
  cases a <;> cases b <;> simp_all [Wc.completion]

theorem replicate_diff (n k : ℕ) (c : Conduit.Completion Kind) :
    (List.replicate n c).diff (List.replicate k c) = List.replicate (n - k) c := by
  induction k generalizing n with
  | zero => rfl
  | succ k ih =>
    rw [List.replicate_succ, List.diff_cons, List.erase_replicate_self, ih, Nat.sub_sub,
      Nat.add_comm 1 k]

theorem forall_of_sents {cs : List (Conduit.Completion Kind)} (hr : receiveds cs = []) :
    cs = (sents cs).map .sent := by
  induction cs with
  | nil => rfl
  | cons c cs ih =>
    cases c with
    | sent k => rw [sents_sent, List.map_cons, ← ih hr]
    | received k => cases hr

/-- The server sends no message `TEST_RAW_DATA`. -/
theorem early_server : ∀ k, .post k ∈ project (!false) schedule → net.early k = false := by
  intro k hk
  rw [project_schedule, List.mem_flatMap] at hk
  obtain ⟨o, ho, hk⟩ := hk
  have hof := of_processCQ true o ho
  cases o with
  | sendAt i len tag =>
    obtain rfl : k = .send tag := by simpa [Op.flow] using hk
    obtain ⟨-, ⟨-, rfl⟩ | ⟨-, rfl⟩⟩ := hof <;> rfl
  | sendNext | writeNext | writeAt | readNext => cases hof.1
  | exchange | confirm => cases hof.1
  | _ => simp [Op.flow] at hk

/-- The completions of a bandwidth test. -/
theorem cq_confirm (h : Follows net schedule past s.view) {index confirmed : ℕ} {ring : Bool}
    {todo : List Op} (ht : (s.party false).todo = .confirm index confirmed ring :: todo)
    (hc : confirmed < count) : ∃ k, (s.party false).cq = List.replicate k (.sent .write) ∧
      k ≤ count - confirmed := by
  have hv := view_todo ht
  have hwait : wait (List.replicate (count - confirmed) (.sent .write)) =
      [.await (List.replicate (count - confirmed) (.sent Kind.write))] :=
    if_neg fun hnil => by
      have hlen := congrArg List.length hnil
      rw [List.length_replicate, List.length_nil] at hlen
      omega
  rw [Op.flow, hwait] at hv
  obtain ⟨w⟩ := h.waiting check_schedule hv
  obtain ⟨hr, hs⟩ := h.cq_of_sents w (receiveds_replicate _) early_server
  rw [sents_replicate] at hs
  have hcq := forall_of_sents hr
  obtain ⟨hle, hsents⟩ := List.prefix_replicate_iff.1 hs
  rw [hsents, List.map_replicate] at hcq
  refine ⟨_, ?_, hle⟩
  refine completion_injective.list_map ?_
  rw [List.map_replicate]
  exact hcq

theorem follows_confirm (h : Follows net schedule past s.view) {index confirmed k : ℕ}
    {ring : Bool} {todo : List Op} {me : Chan}
    (ht : (s.party false).todo = .confirm index confirmed ring :: todo) (hc : confirmed < count)
    (hle : k ≤ (s.party false).cq.length) (hsq : me.sq = (s.party false).chan.sq)
    (hacks : me.acks = (s.party false).chan.acks) (hrq : me.rq = (s.party false).chan.rq) :
    ∃ past', Follows net schedule past' (s.setParty false { s.party false with
      todo := .confirm (index + 1) (confirmed + k) ring :: todo
      cq := (s.party false).cq.drop k
      chan := me }).view := by
  obtain ⟨m, hcq, hm⟩ := cq_confirm h ht hc
  rw [hcq, List.length_replicate] at hle
  have hsplit : (s.view.side false).cq =
      List.replicate k (.sent .write) ++ List.replicate (m - k) (.sent .write) := by
    rw [view_side, Party.view, hcq, List.map_replicate, List.replicate_append_replicate]
    exact congrArg (List.replicate · _) (Nat.add_sub_cancel' hle).symm
  obtain ⟨past', h'⟩ := h.takes check_schedule (view_todo ht) hsplit
    (receiveds_replicate _) (by rw [List.length_replicate, List.length_replicate]; omega)
  refine ⟨past', ?_⟩
  have hview : Party.view { s.party false with
      todo := .confirm (index + 1) (confirmed + k) ring :: todo
      cq := (s.party false).cq.drop k
      chan := me } = { s.view.side false with
        todo := wait ((List.replicate (count - confirmed) (.sent .write)).diff
          (List.replicate k (.sent .write))) ++ todo.flatMap Op.flow
        cq := List.replicate (m - k) (.sent .write) } := by
    rw [view_side, Party.view, Party.view, hsq, hacks, hrq, hcq, List.drop_replicate,
      List.map_replicate, List.flatMap_cons, Op.flow, replicate_diff, Nat.sub_sub]
    simp only [Wc.completion]
  rw [view_setParty, hview]
  exact h'

theorem view_receive (p : Party) (tag : MessageforTest) (rq : List (ℕ × ℕ)) (mem : ByteMem) :
    Party.view { p with cq := p.cq ++ [.recv tag], chan := { p.chan with rq, mem } } =
      { p.view with rq := rq.length, cq := p.view.cq ++ [.received (.send tag)] } := by
  rw [Party.view, Party.view, List.map_append]
  rfl

theorem follows_message (h : Follows net schedule past s.view) {b len i limit : ℕ}
    {tag : MessageforTest} {data : List UInt8} {sq : List Posted} {rq : List (ℕ × ℕ)}
    (hq : (s.party x).chan.sq = ⟨.send b len tag, some data⟩ :: sq)
    (hr : (s.party (!x)).chan.rq = (i, limit) :: rq) :
    ∃ past', Follows net schedule past' ((s.setParty x { s.party x with
        chan := { (s.party x).chan with
          sq, acks := (s.party x).chan.acks ++ [.send tag] } }).setParty (!x)
      { s.party (!x) with
        cq := (s.party (!x)).cq ++ [.recv tag]
        chan := { (s.party (!x)).chan with
          rq, mem := (s.party (!x)).chan.mem.write (i * blockSize) data } }).view := by
  have hv : (s.view.side x).sq = .send tag :: sq.map (·.request.kind) := by
    rw [view_side, Party.view, hq]
    rfl
  have hrq : (s.view.side (!x)).rq = rq.length + 1 := by
    rw [view_side, Party.view, hr, List.length_cons]
  have hstep := h.step check_schedule (.message hv rfl (by rw [hrq]; exact Nat.succ_pos _))
  rw [hrq, Nat.add_sub_cancel] at hstep
  rw [view_setParty, view_setParty, view_receive]
  exact ⟨_, hstep⟩

theorem follows_write (h : Follows net schedule past s.view) {b len a : ℕ} {d : CommDescriptor}
    {data : List UInt8} {sq : List Posted}
    (hq : (s.party x).chan.sq = ⟨.write b len d, some data⟩ :: sq) :
    ∃ past', Follows net schedule past' ((s.setParty x { s.party x with
        chan := { (s.party x).chan with
          sq, acks := (s.party x).chan.acks ++ [.write] } }).setParty (!x)
      { s.party (!x) with
        chan := { (s.party (!x)).chan with
          mem := (s.party (!x)).chan.mem.write a data } }).view := by
  have hv : (s.view.side x).sq = .write :: sq.map (·.request.kind) := by
    rw [view_side, Party.view, hq]
    rfl
  have hstep := h.step check_schedule (.oneSided hv rfl)
  rw [view_silent, view_setParty]
  · exact ⟨_, hstep⟩
  · rw [setParty_not]
    rfl

theorem follows_read (h : Follows net schedule past s.view) {i len : ℕ} {d : CommDescriptor}
    {payload : Option (List UInt8)} {sq : List Posted} {mem : ByteMem}
    (hq : (s.party x).chan.sq = ⟨.read i len d, payload⟩ :: sq) :
    ∃ past', Follows net schedule past' (s.setParty x { s.party x with
      chan := { (s.party x).chan with
        sq, acks := (s.party x).chan.acks ++ [.read], mem } }).view := by
  have hv : (s.view.side x).sq = .read :: sq.map (·.request.kind) := by
    rw [view_side, Party.view, hq]
    rfl
  have hstep := h.step check_schedule (.oneSided hv rfl)
  rw [view_setParty]
  exact ⟨_, hstep⟩

theorem follows_report (h : Follows net schedule past s.view) {k : Kind} {acks : List Kind}
    (ha : (s.party x).chan.acks = k :: acks) :
    ∃ past', Follows net schedule past' (s.setParty x { s.party x with
      cq := (s.party x).cq ++ [.sent k], chan := { (s.party x).chan with acks } }).view := by
  have hstep := h.step check_schedule (.report (x := x) ha)
  have hview : Party.view { s.party x with
      cq := (s.party x).cq ++ [.sent k], chan := { (s.party x).chan with acks } } =
      { s.view.side x with acks, cq := (s.view.side x).cq ++ [.sent k] } := by
    rw [view_side, Party.view, Party.view, List.map_append]
    rfl
  rw [view_setParty, hview]
  exact ⟨_, hstep⟩

theorem view_fetch {j : ℕ} {r : Request} (hj : (s.party x).chan.sq[j]? = some ⟨r, none⟩)
    (payload : Option (List UInt8)) : Party.view { s.party x with
      chan := { (s.party x).chan with sq := (s.party x).chan.sq.set j ⟨r, payload⟩ } } =
        (s.party x).view := by
  have hlt := (List.getElem?_eq_some_iff.1 hj).1
  have hkind : ((s.party x).chan.sq.map (·.request.kind))[j]? = some r.kind := by
    rw [List.getElem?_map, hj]
    rfl
  rw [Party.view, Party.view, List.map_set]
  congr 1
  refine List.ext_getElem? fun i => ?_
  rw [List.getElem?_set]
  split_ifs with hi hlen
  · rw [← hi, hkind]
  · rw [List.length_map] at hlen
    exact absurd hlt hlen
  · rfl

/-- The completions of a bandwidth test, checked one after another. -/
theorem confirmAll_eq {ring : Bool} {me me' : Chan} {wcs : List Wc}
    (h : me.confirmAll ring wcs = .ok me') : ∃ buffer, me' = { me with buffer } ∧
      ∀ {size k ptr}, Placed size k ptr me.buffer → Placed size k ptr buffer := by
  induction wcs generalizing me with
  | nil =>
    cases h
    exact ⟨_, rfl, id⟩
  | cons wc wcs ih =>
    cases wc with
    | recv tag => cases h
    | sent k =>
      simp only [Chan.confirmAll] at h
      split_ifs at h with hk hring
      · simp only [Except.bind_eq_ok] at h
        obtain ⟨me₁, hlast, h⟩ := h
        obtain ⟨buffer, rfl, hbuffer⟩ := ih h
        cases Chan.performs (o := .last) trivial hlast with
        | post hp => cases hp
        | recv hp => cases hp
        | last hl => exact ⟨buffer, rfl, fun hplaced => hbuffer (hplaced.last hl)⟩
      · exact ih h

theorem confirmAll_sent {ring : Bool} {me me' : Chan} {wcs : List Wc}
    (h : me.confirmAll ring wcs = .ok me') : wcs.countP (fun wc => wc.ofSq = false) = 0 := by
  induction wcs generalizing me with
  | nil => rfl
  | cons wc wcs ih =>
    cases wc with
    | recv tag => cases h
    | sent k =>
      rw [List.countP_cons_of_neg Bool.false_ne_true]
      simp only [Chan.confirmAll] at h
      split_ifs at h with hk hring
      · simp only [Except.bind_eq_ok] at h
        obtain ⟨me₁, -, h⟩ := h
        exact ih h
      · exact ih h

/-- Only the client confirms writes. -/
theorem client_of_confirm {index confirmed : ℕ} {ring : Bool} {todo : List Op}
    (h : Rest x (.confirm index confirmed ring :: todo)) : x = false := h.of.1

/-- **A step without failures** is none, one or several of the connection. -/
theorem Step.follows (h : Follows net schedule past s.view) (hs : Step s a s')
    (hr : ∀ x, Rest x (s.party x).todo) : ∃ past', Follows net schedule past' s'.view := by
  cases hs with
  | perform ht hp => exact follows_perform h ht hp
  | @syncSend x todo ht =>
    have hstep := h.step check_schedule
      (.op (o := .signal) (view_todo ht) (fun hw => by cases hw) (fun hw => by cases hw))
    rw [view_setSynced, view_setParty]
    exact ⟨_, hstep⟩
  | @syncRecv x todo ht hpos =>
    have hstep := h.step check_schedule
      (.op (o := .wait) (view_todo ht) (fun _ => hpos) (fun hw => by cases hw))
    rw [view_setSynced, view_setParty]
    exact ⟨_, hstep⟩
  | @take x o todo os wc cq ht ho hq hok =>
    have hrest := hr x
    rw [ht] at hrest
    exact follows_take h ht ho hrest.2 hq hok
  | @confirmed x index ring todo ht =>
    refine ⟨past, ?_⟩
    rw [view_silent]
    · exact h
    · rw [Party.view, Party.view, ht, List.flatMap_cons, Op.flow, Nat.sub_self]
      rfl
  | @confirm x index confirmed k ring todo me ht hc hk hle hok =>
    have hrest := hr x
    rw [ht] at hrest
    obtain rfl := client_of_confirm hrest
    obtain ⟨buffer, rfl, -⟩ := confirmAll_eq hok
    exact follows_confirm h ht hc hle rfl rfl rfl
  | fetch hj =>
    refine ⟨past, ?_⟩
    rw [view_silent (view_fetch hj _)]
    exact h
  | message hq hrq hle => exact follows_message h hq hrq
  | write hq ha => exact follows_write h hq
  | read hq ha => exact follows_read h hq
  | report ha => exact follows_report h ha

/-! ## Programs -/

/-- What a poll leaves of its operation. -/
theorem take_rest {o : Op} {wc : Wc} {os : List Op} {todo : List Op} (h : Rest x (o :: todo))
    (ht : o.Takes wc os) : Rest x (os ++ todo) := by
  have hloop : ∀ {request response : MessageforTest} {send recv : Bool},
      Op.exchange request response false false = o.start →
      Rest x (Op.take.loop request response send recv ++ todo) := by
    intro request response send recv ho
    unfold Op.take.loop
    split_ifs with hb
    · exact h.tail
    · refine ⟨?_, by simpa [Op.Under] using hb⟩
      rw [Op.start, ho]
      exact h.1
  cases ht with
  | awaitSent | awaitRecv => exact h.tail
  | request | response => exact hloop rfl

theorem Step.rest (h : Follows net schedule past s.view) (hs : Step s a s')
    (hr : ∀ x, Rest x (s.party x).todo) : ∀ y, Rest y (s'.party y).todo := by
  have hset : ∀ {x p}, Rest x p.todo → ∀ y, Rest y ((s.setParty x p).party y).todo :=
    fun hp => forall_setParty (Q := fun y p => Rest y p.todo) hr hp
  cases hs with
  | perform ht hp => exact hset (Rest.tail (ht ▸ hr _))
  | syncSend ht => exact hset (Rest.tail (ht ▸ hr _))
  | syncRecv ht hpos => exact hset (Rest.tail (ht ▸ hr _))
  | take ht ho hq hok => exact hset (take_rest (ht ▸ hr _) (Op.takes ho hok))
  | confirmed ht => exact hset (Rest.tail (ht ▸ hr _))
  | @confirm x index confirmed k ring todo me ht hc hk hle hok =>
    have hrest := hr x
    rw [ht] at hrest
    obtain rfl := client_of_confirm hrest
    obtain ⟨m, hcq, hm⟩ := cq_confirm h ht hc
    rw [hcq, List.length_replicate] at hle
    have hindex : index ≤ confirmed ∧ confirmed ≤ count := hrest.2
    exact hset ⟨hrest.1, by constructor <;> omega⟩
  | fetch hj => exact hset (hr _)
  | message hq hrq hle => exact forall_setParty (Q := fun y p => Rest y p.todo) (hset (hr _)) (hr _)
  | write hq ha => exact forall_setParty (Q := fun y p => Rest y p.todo) (hset (hr _)) (hr _)
  | read hq ha => exact hset (hr _)
  | report ha => exact hset (hr _)

end State

end Benchmark

end RdmaCore

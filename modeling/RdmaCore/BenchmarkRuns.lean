/-
  Runs of the benchmark of example/lat_bw_benchmark.cc.

  * `State.Inv`: the two sides follow the schedule, and agree on the messages
    and the descriptor, as long as no thread has failed;
  * `State.Inv.not_fails`: a thread fails only where a message has overtaken
    the report that the server waits for;
  * `State.exists_overtaken`: there is a run to such a state;
  * `State.failed_iff`: the runs in which no thread fails.
-/
import RdmaCore.BenchmarkExchange

open Conduit Script

namespace RdmaCore

namespace Benchmark

namespace State

variable {P : Bool → Placement} {s s' : State} {x : Bool}

/-- What holds while no thread has failed. -/
structure Inv (P : Bool → Placement) (s : State) : Prop where
  follows : ∃ past, Follows net schedule past s.view
  agreed : s.Agreed P

theorem Inv.rest (h : s.Inv P) (x : Bool) : Rest x (s.party x).todo := (h.agreed.sides x).rest

theorem Inv.rest_cons (h : s.Inv P) {o : Op} {todo : List Op} (ht : (s.party x).todo = o :: todo) :
    Rest x (o :: todo) :=
  (h.agreed.sides x).rest_cons ht

theorem Inv.init (P : Bool → Placement) : (State.init P).Inv P where
  follows := by
    have hview : (State.init P).view = { side := fun x => { todo := project x schedule } } := by
      simp only [State.view, State.init, project_schedule]
      rfl
    rw [hview]
    exact ⟨_, .init schedule⟩
  agreed := .init P

/-- **A step without failures keeps the invariant.** -/
theorem Step.inv {a : Act} (h : s.Inv P) (hs : Step s a s') : s'.Inv P where
  follows := by
    obtain ⟨past, hf⟩ := h.follows
    exact hs.follows hf h.rest
  agreed := by
    obtain ⟨past, hf⟩ := h.follows
    exact hs.agreed h.agreed (hs.rest hf h.rest)

theorem failed_of_run {as : List Act} (h : Lts.run step s as = some s')
    (hf : ∀ x, (s'.party x).failed = none) : ∀ x, (s.party x).failed = none := by
  induction as generalizing s with
  | nil =>
    obtain rfl := Option.some.inj h
    exact hf
  | cons a as ih =>
    rw [Lts.run_cons, Option.bind_eq_some_iff] at h
    obtain ⟨t, ht, h⟩ := h
    exact fun x => failed_of_step ht (ih h x)

/-- **The invariant holds in every run** in which no thread fails. -/
theorem Inv.run {as : List Act} (h : s.Inv P) (hr : Lts.run step s as = some s')
    (hf : ∀ x, (s'.party x).failed = none) : s'.Inv P := by
  induction as generalizing s with
  | nil =>
    obtain rfl := Option.some.inj hr
    exact h
  | cons a as ih =>
    rw [Lts.run_cons, Option.bind_eq_some_iff] at hr
    obtain ⟨t, ht, hr⟩ := hr
    exact ih ((Step.of_step ht (failed_of_run hr hf)).inv h) hr

end State

/-! ## What can fail -/

/-- The operation polls the report of an own request. -/
def Op.reports : Op → Bool
  | awaitSent _ => true
  | _ => false

/-- A message of the client has come before the report that the server waits for: the
    server is to `CHECK` the opcode `IBV_WC_SEND`, and polls `IBV_WC_RECV`. -/
def State.Overtaken (s : State) : Prop :=
  (s.party true).todo.head?.any Op.reports = true ∧
    (s.party true).cq.head?.any (fun wc => !wc.ofSq) = true

instance (s : State) : Decidable s.Overtaken := instDecidableAnd

theorem State.overtaken_iff {s : State} : s.Overtaken ↔ ∃ k todo tag cq,
    (s.party true).todo = .awaitSent k :: todo ∧ (s.party true).cq = .recv tag :: cq := by
  constructor
  · rintro ⟨ho, hq⟩
    obtain ⟨o, ho', hreports⟩ := (Option.any_eq_true _ _).1 ho
    obtain ⟨wc, hwc, hrecv⟩ := (Option.any_eq_true _ _).1 hq
    obtain ⟨todo, ht⟩ := List.head?_eq_some_iff.1 ho'
    obtain ⟨cq, hcq⟩ := List.head?_eq_some_iff.1 hwc
    cases o with
    | awaitSent k =>
      cases wc with
      | recv tag => exact ⟨k, todo, tag, cq, ht, hcq⟩
      | sent k' => cases hrecv
    | _ => cases hreports
  · rintro ⟨k, todo, tag, cq, ht, hq⟩
    rw [State.Overtaken, ht, hq]
    exact ⟨rfl, rfl⟩

namespace Chan

variable {p : Placement} {me : Chan} {k i len : ℕ}

/-! ### Operations that find what they need -/

theorem exists_recvRemote (h : me.Placed p) (hi : i < count) (hlen : len ≤ blockSize)
    (hroom : me.rq.length + k < maxWr) : ∃ me', me.recvRemote k i len = .ok me' := by
  simp only [recvRemote, Except.bind_eq_ok, fault, failWith_eq_ok, ite_error_eq_ok]
  exact ⟨_, (), h.buffer.checkBlock hi hlen le_rfl, hroom, rfl⟩

theorem exists_sendRemote (h : me.Placed p) (tag : MessageforTest) (hi : i < count)
    (hlen : len ≤ blockSize) (hroom : me.sq.length + me.acks.length + k < maxWr) :
    ∃ me', me.sendRemote k i len tag = .ok me' := by
  simp only [sendRemote, postSend, Except.bind_eq_ok, fault, failWith_eq_ok, ite_error_eq_ok]
  exact ⟨_, (), h.buffer.checkBlock hi hlen le_rfl, hroom, rfl⟩

theorem exists_writeRemote {q : Placement} (h : me.Placed p) (hd : q.Describes me.bufferPeer)
    (hi : i < count) (hlen : len ≤ blockSize)
    (hroom : me.sq.length + me.acks.length + k < maxWr) :
    ∃ me', me.writeRemote k i len = .ok me' := by
  simp only [writeRemote, postSend, Except.bind_eq_ok, fault, failWith_eq_ok, ite_error_eq_ok]
  exact ⟨_, (), h.buffer.checkBlock hi hlen (hd.length ▸ hlen), hroom, rfl⟩

theorem exists_readRemote {q : Placement} (h : me.Placed p) (hd : q.Describes me.bufferPeer)
    (hi : i < count) (hlen : len ≤ blockSize)
    (hroom : me.sq.length + me.acks.length + k < maxWr) :
    ∃ me', me.readRemote k i len = .ok me' := by
  simp only [readRemote, postSend, Except.bind_eq_ok, fault, failWith_eq_ok, ite_error_eq_ok]
  exact ⟨_, (), h.buffer.checkBlock hi hlen (hd.length ▸ hlen), hroom, rfl⟩

/-- A call of `next()`, and an operation on the block. -/
theorem exists_next {α : Type} {g : RDMABuffer × ℕ → Except Failure α} (h : me.Placed p)
    (hg : ∀ buffer i, i < count → ({ me with buffer } : Chan).Placed p →
      ∃ a, g (buffer, i) = .ok a) : ∃ a, fault me.buffer.next >>= g = .ok a := by
  obtain ⟨buffer, i, hn, hi, hplaced⟩ := h.buffer.exists_next (by decide)
  obtain ⟨a, ha⟩ := hg buffer i hi ⟨hplaced, h.rkey⟩
  refine ⟨a, ?_⟩
  rw [Except.bind_eq_ok]
  exact ⟨_, failWith_eq_ok.2 hn, ha⟩

theorem exists_last (h : me.Placed p) (reported : Bool → ℕ) :
    ∃ buffer, me.perform reported .last = .ok { me with buffer } ∧
      ({ me with buffer } : Chan).Placed p := by
  obtain ⟨buffer, i, hl, hplaced⟩ := h.buffer.exists_last (by decide)
  refine ⟨buffer, ?_, hplaced, h.rkey⟩
  simp only [perform, Except.bind_eq_ok, fault, failWith_eq_ok]
  exact ⟨_, hl, rfl⟩

theorem exists_confirmAll (h : me.Placed p) (ring : Bool) (n : ℕ) :
    ∃ me', me.confirmAll ring (List.replicate n (.sent .write)) = .ok me' := by
  induction n generalizing me with
  | zero => exact ⟨me, rfl⟩
  | succ n ih =>
    rw [List.replicate_succ]
    simp only [confirmAll]
    rw [if_pos (show Kind.write.opcode = .rdmaWrite from rfl)]
    split_ifs
    · obtain ⟨buffer, hlast, hplaced⟩ := exists_last h fun _ => 0
      obtain ⟨me', hok⟩ := ih hplaced
      refine ⟨me', ?_⟩
      rw [Except.bind_eq_ok]
      exact ⟨_, hlast, hok⟩
    · exact ih h

end Chan

/-- **An operation does not fail** if its queue has room. -/
theorem Party.Inv.exists_perform {P : Bool → Placement} {x : Bool} {p : Party} {o : Op}
    {todo : List Op} (h : p.Inv P x) (ht : p.todo = o :: todo) (ho : o.Performed)
    (hsend : ∀ r, o.flow = [.post r] →
      p.chan.sq.length + p.chan.acks.length + p.reported true < maxWr)
    (hrecv : o.flow = [.recv] → p.chan.rq.length + p.reported false < maxWr) :
    ∃ me, p.chan.perform p.reported o = .ok me := by
  have hof := h.of ht
  have hplaced := h.placed
  have hpeer : x = false → (∀ y, o.start ∉ before y) → (∀ y, o ≠ exchanged y) →
      (P true).Describes p.chan.bufferPeer := fun hx hbefore hne =>
    h.loaded hx (h.notMem_of_oneSided ht (hbefore x) (hne x))
  cases o with
  | recvAt i len =>
    obtain ⟨rfl, hlen⟩ := hof
    exact Chan.exists_recvRemote hplaced (by decide) hlen (hrecv rfl)
  | recvNext =>
    refine Chan.exists_next hplaced fun buffer i hi hplaced => ?_
    obtain ⟨o, ho, hsize, -⟩ := hplaced.buffer.blockAt hi
    have hlen : o.bufferSize % 2 ^ 32 ≤ blockSize := hsize ▸ Nat.mod_le ..
    obtain ⟨me, hme⟩ := Chan.exists_recvRemote hplaced hi hlen (hrecv rfl)
    refine ⟨me, ?_⟩
    simp only [Except.bind_eq_ok, fault, failWith_eq_ok]
    exact ⟨o, ho, hme⟩
  | sendAt i len tag =>
    have hbound : i ≤ 1 ∧ len ≤ 64 := by
      cases x with
      | false => exact hof
      | true => obtain ⟨rfl, ⟨rfl, -⟩ | ⟨rfl, -⟩⟩ := hof <;> decide
    have hi : i < count := Nat.lt_of_le_of_lt hbound.1 (by decide)
    exact Chan.exists_sendRemote hplaced tag hi (hbound.2.trans (by decide)) (hsend _ rfl)
  | sendNext len tag =>
    refine Chan.exists_next hplaced fun buffer i hi hplaced => ?_
    exact Chan.exists_sendRemote hplaced tag hi hof.2 (hsend _ rfl)
  | writeNext len =>
    have hd := hpeer hof.1 (by rintro (_ | _) <;> simp [before, Op.start])
      (by rintro (_ | _) <;> simp [exchanged])
    refine Chan.exists_next hplaced fun buffer i hi hplaced => ?_
    exact Chan.exists_writeRemote hplaced hd hi hof.2 (hsend _ rfl)
  | writeAt i len =>
    obtain ⟨hx, rfl, hlen⟩ := hof
    have hd := hpeer hx (by rintro (_ | _) <;> simp [before, Op.start])
      (by rintro (_ | _) <;> simp [exchanged])
    exact Chan.exists_writeRemote hplaced hd (by decide) hlen (hsend _ rfl)
  | readNext len =>
    have hd := hpeer hof.1 (by rintro (_ | _) <;> simp [before, Op.start])
      (by rintro (_ | _) <;> simp [exchanged])
    refine Chan.exists_next hplaced fun buffer i hi hplaced => ?_
    exact Chan.exists_readRemote hplaced hd hi hof.2 (hsend _ rfl)
  | last =>
    obtain ⟨buffer, hlast, -⟩ := Chan.exists_last hplaced p.reported
    exact ⟨_, hlast⟩
  | fill =>
    obtain ⟨first, hfirst, -⟩ := hplaced.buffer.blockAt (show 0 < count by decide)
    simp only [Chan.perform, Except.bind_eq_ok, fault, failWith_eq_ok]
    exact ⟨_, first, hfirst, rfl⟩
  | load => exact ⟨_, rfl⟩
  | _ => exact ho.elim

theorem countP_sent (cq : List Wc) :
    (cq.countP fun wc => wc.ofSq = true) = (sents (cq.map Wc.completion)).length := by
  induction cq with
  | nil => rfl
  | cons wc cq ih =>
    cases wc with
    | sent k =>
      rw [List.countP_cons_of_pos rfl]
      exact congrArg (· + 1) ih
    | recv tag =>
      rw [List.countP_cons_of_neg Bool.false_ne_true]
      exact ih

theorem countP_received (cq : List Wc) :
    (cq.countP fun wc => wc.ofSq = false) = (receiveds (cq.map Wc.completion)).length := by
  induction cq with
  | nil => rfl
  | cons wc cq ih =>
    cases wc with
    | sent k =>
      rw [List.countP_cons_of_neg Bool.false_ne_true]
      exact ih
    | recv tag =>
      rw [List.countP_cons_of_pos rfl]
      exact congrArg (· + 1) ih

namespace State

variable {P : Bool → Placement} {s s' : State} {x : Bool}

theorem view_cq {wc : Wc} {cq : List Wc} (hq : (s.party x).cq = wc :: cq) :
    (s.view.side x).cq = wc.completion :: cq.map Wc.completion := by
  rw [view_side, Party.view, hq, List.map_cons]

/-- The client waits for the messages that it meets. -/
theorem Inv.client_waits (h : s.Inv P) {cs : List (Conduit.Completion Kind)}
    {t : List (Script.Op Kind)} (ht : (s.view.side false).todo = .await cs :: t) {k : Kind}
    {cq : List (Conduit.Completion Kind)} (hq : (s.view.side false).cq = .received k :: cq) :
    receiveds cs ≠ [] := by
  intro hr
  obtain ⟨past, hf⟩ := h.follows
  obtain ⟨w⟩ := hf.waiting check_schedule ht
  have hnil := (hf.cq_of_sents w hr early_server).1
  rw [hq] at hnil
  cases hnil

/-- A side that meets a message waits for it, unless it has overtaken a report. -/
theorem Inv.waits (h : s.Inv P) {o : Op} {todo : List Op} {wc : Wc} {cq : List Wc}
    {cs : List (Conduit.Completion Kind)} (ht : (s.party x).todo = o :: todo)
    (ho : o.polls = true) (hf : o.flow = [.await cs]) (hq : (s.party x).cq = wc :: cq)
    (hno : x = true → ¬s.Overtaken) (k : Kind) (hk : wc.completion = .received k) :
    receiveds cs ≠ [] := by
  have hv := view_todo ht
  rw [hf] at hv
  have hcq := view_cq hq
  rw [hk] at hcq
  cases x with
  | false => exact h.client_waits hv hcq
  | true =>
    cases wc with
    | sent k' => cases hk
    | recv tag =>
      cases o with
      | awaitSent k' => exact absurd (overtaken_iff.2 ⟨k', todo, tag, cq, ht, hq⟩) (hno rfl)
      | awaitRecv tag' checked =>
        obtain rfl : [.received (.send tag')] = cs := by simpa [Op.flow] using hf
        exact List.cons_ne_nil _ _
      | exchange =>
        have hrest := h.rest_cons ht
        cases hrest.of.1
      | _ => cases ho

/-- The queues have room. -/
theorem Inv.exists_perform (h : s.Inv P) {o : Op} {todo : List Op}
    (ht : (s.party x).todo = o :: todo) (ho : o.Performed) :
    ∃ me, (s.party x).chan.perform (s.party x).reported o = .ok me := by
  obtain ⟨past, hf⟩ := h.follows
  have hv := view_todo ht
  refine (h.agreed.sides x).exists_perform ht ho (fun r hr => ?_) fun hr => ?_
  · rw [hr] at hv
    have hlt := hf.sendRoom check_schedule hv
    rw [Party.reported, countP_sent]
    rwa [view_side, Party.view, List.length_map] at hlt
  · rw [hr] at hv
    have hlt := hf.recvRoom check_schedule hv
    rw [Party.reported, countP_received]
    exact hlt

/-- **A thread fails** only where a message has overtaken a report. -/
theorem Inv.not_fails (h : s.Inv P) {a : Act} {f : Failure} (hfails : s.Fails a x f) :
    a = .exec true ∧ s.Overtaken := by
  obtain ⟨past, hfol⟩ := h.follows
  have hrest := h.rest x
  cases hfails with
  | perform ht ho hp =>
    obtain ⟨me, hok⟩ := h.exists_perform ht ho
    rw [hok] at hp
    cases hp
  | @take _ o todo wc cq _ ht ho hq herror =>
    by_contra hno
    rw [ht] at hrest
    obtain ⟨cs, hf⟩ := Op.flow_polls ho hrest.2
    obtain ⟨-, os, hok, -⟩ := take_ok hfol ht ho hrest.2 hf hq
      (h.waits ht ho hf hq fun hx hover => hno ⟨hx ▸ rfl, hover⟩)
    rw [hok] at herror
    cases herror
  | @confirmed _ index confirmed ring todo ht hloop hc =>
    rw [ht] at hrest
    have hunder : index ≤ confirmed ∧ confirmed ≤ count := hrest.2
    exact absurd ⟨by omega, by omega⟩ hloop
  | @confirm _ index confirmed k ring todo _ ht hc herror =>
    rw [ht] at hrest
    obtain rfl := client_of_confirm hrest
    obtain ⟨m, hcq, -⟩ := cq_confirm hfol ht hc
    rw [hcq, List.take_replicate] at herror
    obtain ⟨me, hok⟩ := Chan.exists_confirmAll (h.agreed.sides false).placed ring (min k m)
    rw [hok] at herror
    cases herror
  | message hq hr hlt =>
    obtain ⟨n, hn, -⟩ := h.agreed.messages
    exact absurd (hn.fits hq hr) (Nat.not_le.2 hlt)
  | write hq ha | read hq ha =>
    have hof := (h.agreed.sides x).requests _ (hq ▸ List.mem_cons_self)
    obtain ⟨rfl, -, hlen, hd⟩ := hof
    rw [(h.agreed.sides (!false)).placed.offset hd hlen] at ha
    cases ha

/-- The server fails where a message has overtaken a report. -/
theorem Overtaken.step_exec (h : s.Overtaken) (hf : (s.party true).failed = none) :
    s.step (.exec true) = some (s.fail true .opcode) := by
  obtain ⟨k, todo, tag, cq, ht, hq⟩ := overtaken_iff.1 h
  simp only [step, if_pos hf, State.exec, ht, hq]
  rfl

/-- A step from a state in which no thread has failed. -/
theorem Inv.failed_step_iff (h : s.Inv P) (hf : ∀ y, (s.party y).failed = none) {a : Act}
    (hs : s.step a = some s') :
    (∀ y, (s'.party y).failed = none) ↔ ¬(a = .exec true ∧ s.Overtaken) := by
  constructor
  · rintro hnone ⟨rfl, hover⟩
    have hfailed := hnone true
    obtain rfl := Option.some.inj ((hover.step_exec (hf true)).symm.trans hs)
    rw [fail_failed] at hfailed
    cases hfailed
  · intro hno y
    rcases outcome hs with hstep | ⟨x, f, hfails, -⟩
    · rw [hstep.failed, hf]
    · exact absurd (h.not_fails hfails) hno

/-! ### A message that overtakes a report -/

/-- The two sides, with zeros in their buffers at the address 4096. -/
def zeroed : State := .init fun _ =>
  { ptr := 4096, rkey := 0, mem := fun _ => 0, ptr_pos := by decide, ptr_le := by decide }

/-- The sides meet and exchange the descriptor; the client asks for the first test, and the
    server takes the request. -/
def requestRun : List Act :=
  [.exec false, .exec false, .exec true, .exec true, .exec false, .exec true, .exec false,
    .fetch false 0, .deliver false, .exec true, .exec true, .exec true, .fetch true 0,
    .deliver true, .complete true, .exec true, .complete false, .exec false, .exec false,
    .exec false, .exec true, .exec false, .exec false, .fetch false 0, .deliver false, .exec true]

/-- The server is to post `n` receives and to answer the request for a test; the client waits
    for the answer. -/
def Answering (n : ℕ) (s : State) : Prop :=
  (∀ y, (s.party y).failed = none) ∧
  List.replicate n .recvNext ++ [.sendAt 1 0 .responseToSendTestRequest,
    .awaitSent (.send .responseToSendTestRequest)] <+: (s.party true).todo ∧
  (s.party true).cq = [] ∧ (s.party true).chan.sq.isEmpty ∧
  [.exchange .sendTestRequest .responseToSendTestRequest false false, .sendNext 1 .testRawData] <+:
    (s.party false).todo ∧
  (s.party false).cq = [] ∧ (s.party false).chan.sq.isEmpty ∧
  (s.party false).chan.acks = [.send .sendTestRequest] ∧ (s.party false).chan.rq = [(0, 64)]

instance (n : ℕ) (s : State) : Decidable (s.Answering n) := instDecidableAnd

/-- The server waits for the report of its answer; the client is to send the first message of
    the test. -/
structure Answered (s : State) : Prop where
  failed : ∀ y, (s.party y).failed = none
  server : [.awaitSent (.send .responseToSendTestRequest)] <+: (s.party true).todo
  cq : (s.party true).cq = []
  client : [.sendNext 1 .testRawData] <+: (s.party false).todo
  sq : (s.party false).chan.sq = []

/-- A thread performs its next operation. -/
theorem Inv.exists_exec (h : s.Inv P) (hf : (s.party x).failed = none) {o : Op} {todo : List Op}
    (ht : (s.party x).todo = o :: todo) (ho : o.Performed) :
    ∃ me t, (s.party x).chan.Performs o me ∧ s.step (.exec x) = some t ∧ t.Inv P ∧
      t.party x = { s.party x with todo, chan := me } ∧ t.party (!x) = s.party (!x) := by
  obtain ⟨me, hp⟩ := h.exists_perform ht ho
  have hperforms := Chan.performs ho hp
  exact ⟨me, _, hperforms, step_perform hf ht ho hp, (Step.perform ht hperforms).inv h,
    setParty_self .., setParty_not ..⟩

theorem exists_requested : ∃ s, Lts.run step zeroed requestRun = some s ∧ s.Answering 1000 := by
  have hrun : (Lts.run step zeroed requestRun).any (fun s => decide (s.Answering 1000)) = true := by
    decide +kernel
  obtain ⟨s, hs, hp⟩ := (Option.any_eq_true _ _).1 hrun
  exact ⟨s, hs, of_decide_eq_true hp⟩

theorem Answering.not_overtaken {n : ℕ} (h : s.Answering n) : ¬s.Overtaken := by
  rintro ⟨-, hq⟩
  rw [h.2.2.1] at hq
  cases hq

/-- The server posts its receives. -/
theorem Inv.exists_receives {n : ℕ} (h : s.Inv P) (ha : s.Answering n) :
    ∃ t, Lts.Reachable step s t ∧ t.Inv P ∧ t.Answering 0 ∧
      (t.party true).chan.rq.length = (s.party true).chan.rq.length + n := by
  induction n generalizing s with
  | zero => exact ⟨s, .refl s, h, ha, rfl⟩
  | succ n ih =>
    obtain ⟨hf, ⟨todo, ht⟩, hcq, hsq, hclient⟩ := ha
    obtain ⟨me, t, hp, hstep, ht', hself, hother⟩ := h.exists_exec (hf true) ht.symm trivial
    rw [Bool.not_true] at hother
    cases hp with
    | post hpost => cases hpost
    | recv hrecv =>
      have hnext : t.Answering n := by
        refine ⟨fun y => ?_, ?_⟩
        · cases y with
          | false => rw [hother, hf]
          | true => rw [hself, hf]
        · rw [hself, hother]
          exact ⟨⟨todo, rfl⟩, hcq, hsq, hclient⟩
      obtain ⟨t', hreach, hinv, hzero, hlen⟩ := ih ht' hnext
      refine ⟨t', hreach.head hstep, hinv, hzero, hlen.trans ?_⟩
      rw [hself]
      simp only [List.length_append, List.length_singleton]
      omega

/-- The answer is posted and delivered, and the client takes it. -/
theorem Inv.exists_answered (h : s.Inv P) (ha : s.Answering 0) :
    ∃ t, Lts.Reachable step s t ∧ t.Answered ∧
      (t.party true).chan.rq = (s.party true).chan.rq := by
  obtain ⟨hf, ⟨todo, ht⟩, hcq, hsq, ⟨todo', ht'⟩, hcq', hsq', hacks, hrq⟩ := ha
  rw [List.isEmpty_iff] at hsq hsq'
  obtain ⟨me, t₁, hp, hpost, -, hserver, hclient⟩ := h.exists_exec (hf true) ht.symm trivial
  rw [Bool.not_true] at hclient
  cases hp with
  | recv hr => cases hr
  | post hp =>
    cases hp
    rw [hsq, List.nil_append] at hserver
    obtain ⟨data, t₂, hfetch, hserver₂, hclient₂⟩ :=
      exists_fetch (x := true) (s := t₁) (by rw [hserver])
    rw [hserver] at hserver₂
    rw [Bool.not_true, hclient] at hclient₂
    obtain ⟨mem, t₃, hdeliver, hserver₃, hclient₃⟩ := exists_message (x := true) (s := t₂)
      (by rw [hserver₂]) (by rw [Bool.not_true, hclient₂, hrq]) (Nat.zero_le 64)
    rw [hserver₂] at hserver₃
    rw [Bool.not_true, hclient₂, hcq', List.nil_append] at hclient₃
    obtain ⟨t₄, hcomplete, hclient₄, hserver₄⟩ := exists_complete (x := false) (s := t₃)
      (by rw [hclient₃]; exact hacks)
    rw [hclient₃] at hclient₄
    obtain ⟨t₅, hrecv, hclient₅, hserver₅⟩ := exists_take (x := false) (s := t₄)
      (by rw [hclient₄]; exact hf false) (by rw [hclient₄]; exact ht'.symm) rfl
      (by rw [hclient₄]; rfl) rfl
    rw [hclient₄] at hclient₅
    obtain ⟨t₆, hsent, hclient₆, hserver₆⟩ := exists_take (x := false) (s := t₅)
      (by rw [hclient₅]; exact hf false) (by rw [hclient₅]; rfl) rfl (by rw [hclient₅]; rfl) rfl
    rw [hclient₅] at hclient₆
    have hserver : t₆.party true = t₃.party true := hserver₆.trans (hserver₅.trans hserver₄)
    rw [hserver₃] at hserver
    refine ⟨t₆, .head hpost (.head hfetch (.head hdeliver (.head hcomplete (.head hrecv
      (.head hsent (.refl t₆)))))), ⟨?_, ?_, ?_, ?_, ?_⟩, by rw [hserver]⟩
    · rw [Bool.forall_bool, hserver, hclient₆]
      exact ⟨hf false, hf true⟩
    · rw [hserver]
      exact ⟨todo, rfl⟩
    · rw [hserver]
      exact hcq
    · rw [hclient₆]
      exact ⟨todo', rfl⟩
    · rw [hclient₆]
      exact hsq'

/-- The client sends a message of the test before the answer of the server is reported. -/
theorem Inv.exists_sent (h : s.Inv P) (ha : s.Answered) (hrq : (s.party true).chan.rq ≠ []) :
    ∃ t, Lts.Reachable step s t ∧ (∀ y, (t.party y).failed = none) ∧ t.Overtaken := by
  obtain ⟨todo, ht⟩ := ha.server
  obtain ⟨todo', ht'⟩ := ha.client
  obtain ⟨⟨i, limit⟩, rq, hrq⟩ := List.exists_cons_of_ne_nil hrq
  obtain ⟨me, t₁, hp, hpost, hinv, hclient, hserver⟩ :=
    h.exists_exec (ha.failed false) ht'.symm trivial
  rw [Bool.not_false] at hserver
  cases hp with
  | recv hr => cases hr
  | post hp =>
    cases hp with
    | @sendNext buffer b len tag hn =>
      rw [ha.sq, List.nil_append] at hclient
      have hposted : (t₁.party false).chan.sq = [⟨.send b 1 .testRawData, none⟩] := by rw [hclient]
      have hlimit : (t₁.party true).chan.rq = (i, limit) :: rq := by rw [hserver, hrq]
      obtain ⟨n, hn, -⟩ := hinv.agreed.messages
      have hfits : 1 ≤ limit := hn.fits hposted hlimit
      obtain ⟨data, t₂, hfetch, hclient₂, hserver₂⟩ := exists_fetch hposted
      rw [hclient] at hclient₂
      rw [Bool.not_false, hserver] at hserver₂
      obtain ⟨mem, t₃, hdeliver, hclient₃, hserver₃⟩ := exists_message (x := false) (s := t₂)
        (by rw [hclient₂]) (by rw [Bool.not_false, hserver₂, hrq]) hfits
      rw [hclient₂] at hclient₃
      rw [Bool.not_false, hserver₂, ha.cq, List.nil_append] at hserver₃
      refine ⟨t₃, .head hpost (.head hfetch (.head hdeliver (.refl t₃))), ?_, ?_⟩
      · rw [Bool.forall_bool, hclient₃, hserver₃]
        exact ⟨ha.failed false, ha.failed true⟩
      · rw [overtaken_iff, hserver₃]
        exact ⟨_, todo, .testRawData, [], ht.symm, rfl⟩

/-- **A message can overtake a report**, in a run in which no thread has failed. -/
theorem exists_overtaken : ∃ as s, Lts.run step zeroed as = some s ∧
    (∀ y, (s.party y).failed = none) ∧ s.Overtaken := by
  obtain ⟨s, hs, ha⟩ := exists_requested
  have hinv := (Inv.init _).run hs ha.1
  obtain ⟨t, hreach, hinv, hzero, hlen⟩ := hinv.exists_receives ha
  obtain ⟨t', hreach', hanswered, hrq⟩ := hinv.exists_answered hzero
  obtain ⟨as, has⟩ := hreach'
  have hne : (t'.party true).chan.rq ≠ [] := by
    rw [hrq, ← List.length_pos_iff, hlen]
    omega
  obtain ⟨t'', hreach'', hf, hover⟩ := (hinv.run has hanswered.failed).exists_sent hanswered hne
  obtain ⟨bs, hbs⟩ := Lts.Reachable.trans ⟨_, hs⟩ (hreach.trans (.trans ⟨as, has⟩ hreach''))
  exact ⟨bs, t'', hbs, hf, hover⟩

/-! ### Runs -/

theorem Inv.failed_iff_along (h : s.Inv P) (hf : ∀ y, (s.party y).failed = none) {as : List Act}
    (hr : Lts.run step s as = some s') : (∀ y, (s'.party y).failed = none) ↔
      Lts.Along step (fun s a => ¬(a = .exec true ∧ s.Overtaken)) s as := by
  have hback : ∀ (t : State) a (t' : State), t.step a = some t' →
      (∀ y, (t'.party y).failed = none) → ∀ y, (t.party y).failed = none :=
    fun t a t' ht hnone y => failed_of_step ht (hnone y)
  rw [← Lts.always_iff_of_last hback hr]
  refine Lts.always_iff_along (P := fun t => t.Inv P ∧ ∀ y, (t.party y).failed = none)
    (fun t ht => ht.2) (fun t a t' ht hs hno => ?_) (fun t a t' ht hs hnone => ?_) as ⟨h, hf⟩ hr
  · have hnone := (ht.1.failed_step_iff ht.2 hs).2 hno
    exact ⟨(Step.of_step hs hnone).inv ht.1, hnone⟩
  · exact (ht.1.failed_step_iff ht.2 hs).1 hnone

/-- **What can fail in the benchmark.** A run, in whatever order its steps come, ends without a
    failed thread if and only if the server never polls while a message has overtaken the
    report that it waits for. -/
theorem failed_iff {as : List Act} (h : Lts.run step (State.init P) as = some s) :
    (∀ y, (s.party y).failed = none) ↔
      Lts.Along step (fun s a => ¬(a = .exec true ∧ s.Overtaken)) (State.init P) as :=
  (Inv.init P).failed_iff_along (fun _ => rfl) h

theorem failed_iff_one : ∃ as s s', Lts.run step zeroed as = some s ∧
    Lts.run step zeroed (as ++ [.exec true]) = some s' ∧ s.Overtaken ∧
    Lts.Along step (fun s a => ¬(a = .exec true ∧ s.Overtaken)) zeroed as ∧
    ¬Lts.Along step (fun s a => ¬(a = .exec true ∧ s.Overtaken)) zeroed (as ++ [.exec true]) := by
  obtain ⟨as, s, hs, hf, hover⟩ := exists_overtaken
  have hlast : Lts.run step zeroed (as ++ [.exec true]) = some (s.fail true .opcode) := by
    rw [Lts.run_append, hs, Option.bind_some, Lts.run_cons, hover.step_exec (hf true)]
    rfl
  refine ⟨as, s, _, hs, hlast, hover, (failed_iff hs).1 hf, fun halong => ?_⟩
  have hnone := (failed_iff hlast).2 halong true
  rw [fail_failed] at hnone
  cases hnone

end State

end Benchmark

end RdmaCore

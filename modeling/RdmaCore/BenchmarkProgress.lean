/-
  How the benchmark of example/lat_bw_benchmark.cc comes to an end.

  * `State.CanStep`: a step is possible in which no message overtakes a report;
    `State.Inv.canStep`: there is one until both threads are done;
  * `State.Step.rank_lt`: every step lowers the rank;
  * `State.completes_iff`: both threads can finish, unless a message has
    overtaken a report;
  * `State.ends`: a run without failures is bounded, and does not stop before.
-/
import RdmaCore.BenchmarkRuns

open Conduit Script

namespace RdmaCore

namespace Benchmark

/-! ## Progress -/

namespace State

variable {P : Bool → Placement} {s s' : State} {x : Bool} {o : Op} {todo : List Op}

/-- A message `TEST_RAW_DATA` is delivered once all requests of the other side are reported. -/
def Prompt (s : State) : Act → Prop
  | .deliver x => (s.party x).chan.sq.head?.map (·.request.kind) = some (.send .testRawData) →
    (s.party (!x)).chan.acks = []
  | _ => True

/-- Some prompt step is possible. -/
def CanStep (s : State) : Prop := ∃ a s', s.step a = some s' ∧ s.Prompt a

theorem canStep_exec (hf : (s.party x).failed = none) (h : ∃ s', s.exec x = some s') :
    s.CanStep := by
  obtain ⟨s', h⟩ := h
  exact ⟨.exec x, s', by simp only [step, if_pos hf, h], trivial⟩

/-- A thread goes on, unless it waits for a byte or for a completion. -/
theorem canStep_thread (hf : (s.party x).failed = none) (ht : (s.party x).todo = o :: todo)
    (hu : o.Under) (hsync : o = .syncRecv → 0 < s.synced (!x))
    (hcq : ∀ cs, o.flow = [.await cs] → (s.party x).cq ≠ []) : s.CanStep := by
  by_cases ho : o.polls = true
  · obtain ⟨cs, hflow⟩ := Op.flow_polls ho hu
    obtain ⟨wc, cq, hq⟩ := List.exists_cons_of_ne_nil (hcq cs hflow)
    refine canStep_exec hf ?_
    cases o with
    | awaitSent | awaitRecv | exchange =>
      simp only [exec, ht, hq]
      rw [if_pos ho]
      split <;> exact ⟨_, rfl⟩
    | _ => cases ho
  cases o with
  | awaitSent | awaitRecv | exchange => exact (ho rfl).elim
  | syncSend => exact canStep_exec hf ⟨_, by simp only [exec, ht]; rfl⟩
  | syncRecv => exact canStep_exec hf ⟨_, by simp only [exec, ht, if_pos (hsync rfl)]; rfl⟩
  | confirm index confirmed ring =>
    have hunder : index ≤ confirmed ∧ confirmed ≤ count := hu
    by_cases hc : confirmed = count
    · have hloop : ¬(index < count ∧ confirmed < count) := by omega
      refine canStep_exec hf ⟨s.setParty x { s.party x with todo }, ?_⟩
      simp only [exec, ht]
      rw [if_neg hloop, if_pos hc]
    · have hne : List.replicate (count - confirmed) (Completion.sent Kind.write) ≠ [] := by
        rw [Ne, List.replicate_eq_nil_iff]
        omega
      obtain ⟨wc, cq, hq⟩ := List.exists_cons_of_ne_nil (hcq _ (if_neg hne))
      have hpoll : ∃ s', s.poll x 1 = some s' := by
        simp only [poll, ht, hq]
        rw [if_pos ⟨by omega, by omega, by omega, by omega, by simp⟩]
        split <;> exact ⟨_, rfl⟩
      obtain ⟨s', hpoll⟩ := hpoll
      exact ⟨.poll x 1, s', by simp only [step, if_pos hf, hpoll], trivial⟩
  | _ =>
    refine canStep_exec hf ?_
    simp only [exec, ht]
    rw [if_neg ho]
    split <;> exact ⟨_, rfl⟩

/-- The oldest request of a side is fetched or delivered. -/
theorem canStep_network {r : Request} {payload : Option (List UInt8)} {sq : List Posted}
    (hq : (s.party x).chan.sq = ⟨r, payload⟩ :: sq)
    (hr : net.message r.kind = true → (s.party (!x)).chan.rq ≠ [])
    (hp : r.kind = .send .testRawData → (s.party (!x)).chan.acks = []) : s.CanStep := by
  have hdeliver : (∃ s', s.deliver x = some s') → s.CanStep := by
    rintro ⟨s', h⟩
    refine ⟨.deliver x, s', h, fun hk => hp ?_⟩
    rw [hq] at hk
    exact Option.some.inj hk
  have hfetch : payload = none → s.CanStep := by
    rintro rfl
    obtain ⟨data, t, ht, -⟩ := exists_fetch hq
    exact ⟨.fetch x 0, t, ht, trivial⟩
  cases r with
  | read i len d =>
    refine hdeliver ?_
    simp only [deliver, hq]
    split <;> exact ⟨_, rfl⟩
  | write b len d =>
    cases payload with
    | none => exact hfetch rfl
    | some data =>
      refine hdeliver ?_
      simp only [deliver, hq]
      split <;> exact ⟨_, rfl⟩
  | send b len tag =>
    cases payload with
    | none => exact hfetch rfl
    | some data =>
      refine hdeliver ?_
      obtain ⟨⟨i, limit⟩, rq, hrq⟩ := List.exists_cons_of_ne_nil (hr rfl)
      simp only [deliver, hq, hrq]
      split <;> exact ⟨_, rfl⟩

theorem canStep_complete {k : Kind} {acks : List Kind} (ha : (s.party x).chan.acks = k :: acks) :
    s.CanStep := by
  obtain ⟨t, ht, -⟩ := exists_complete ha
  exact ⟨.complete x, t, ht, trivial⟩

/-- A thread whose next operation is one of the connection. -/
theorem exists_flow (hflow : ∀ y o t, (s.party y).todo = o :: t → o.flow ≠ [])
    {o' : Script.Op Kind} {t' : List (Script.Op Kind)} (ht : (s.view.side x).todo = o' :: t') :
    ∃ o t, (s.party x).todo = o :: t ∧ ∃ l, o.flow = o' :: l := by
  cases hx : (s.party x).todo with
  | nil =>
    rw [view_side, Party.view, hx] at ht
    cases ht
  | cons o t =>
    rw [view_todo hx] at ht
    cases hl : o.flow with
    | nil => exact (hflow x o t hx hl).elim
    | cons o'' l =>
      rw [hl] at ht
      cases ht
      exact ⟨o, t, rfl, l, hl⟩

/-- **A step of the connection is possible** only if one of the benchmark is. -/
theorem Inv.canStep_view (h : s.Inv P) (hf : ∀ x, (s.party x).failed = none)
    (hflow : ∀ y o t, (s.party y).todo = o :: t → o.flow ≠ [])
    (hs : Script.CanStep net s.view) : s.CanStep := by
  have hu : ∀ {y o t}, (s.party y).todo = o :: t → o.Under := by
    intro y o t ht
    have hr := h.rest_cons ht
    exact hr.2
  obtain ⟨lab, v, hstep, hp⟩ := hs
  cases hstep with
  | @op y o' t' ht hsync hpoll =>
    obtain ⟨o, t, hy, l, hl⟩ := exists_flow hflow ht
    refine canStep_thread (hf y) hy (hu hy) ?_ ?_
    · rintro rfl
      cases hl
      exact hsync rfl
    · intro cs hcs
      rw [hl] at hcs
      cases hcs
      exact (hpoll rfl).elim
  | @handle y c cq t' hq hh =>
    obtain ⟨cs, t, ht, -, -⟩ := hh
    obtain ⟨o, t, hy, l, hl⟩ := exists_flow hflow ht
    refine canStep_thread (hf y) hy (hu hy) ?_ fun _ _ hnil => ?_
    · rintro rfl
      cases hl
    · rw [view_side, Party.view, hnil] at hq
      cases hq
  | @message y k sq hq hk hr =>
    obtain ⟨⟨r, payload⟩, l, hl, rfl, -⟩ := List.map_eq_cons_iff.1 hq
    refine canStep_network hl (fun _ hnil => ?_) fun hraw => ?_
    · rw [view_side, Party.view, hnil] at hr
      exact Nat.lt_irrefl 0 hr
    · exact hp hk (decide_eq_true hraw)
  | @oneSided y k sq hq hk =>
    have hk : net.message k = false := hk
    obtain ⟨⟨r, payload⟩, l, hl, rfl, -⟩ := List.map_eq_cons_iff.1 hq
    refine canStep_network hl (fun hmessage => ?_) fun hraw => ?_
    · rw [hk] at hmessage
      cases hmessage
    · rw [hraw] at hk
      cases hk
  | report ha => exact canStep_complete ha

/-- No message has overtaken a report in the connection. -/
theorem Inv.not_overtaken_view (h : s.Inv P)
    (hflow : ∀ y o t, (s.party y).todo = o :: t → o.flow ≠ []) (hno : ¬s.Overtaken) (x : Bool) :
    ¬Script.Overtaken s.view x := by
  rintro ⟨cs, t, k, cq, ht, hr, hq⟩
  cases x with
  | false => exact h.client_waits ht hq hr
  | true =>
    obtain ⟨o, todo, ho, l, hl⟩ := exists_flow hflow ht
    obtain ⟨wc, cq', hcq, hk, -⟩ := List.map_eq_cons_iff.1 hq
    have hrest := h.rest_cons ho
    cases o with
    | awaitSent k' =>
      cases wc with
      | recv tag => exact hno (overtaken_iff.2 ⟨k', todo, tag, cq', ho, hcq⟩)
      | sent k'' => cases hk
    | awaitRecv tag checked =>
      cases hl
      cases hr
    | exchange | confirm => cases hrest.of.1
    | _ => cases hl

/-- **A prompt step is possible** until both threads are done. -/
theorem Inv.canStep (h : s.Inv P) (hf : ∀ y, (s.party y).failed = none) (hno : ¬s.Overtaken)
    (hne : ∃ x, (s.party x).todo ≠ []) : s.CanStep := by
  by_cases hsilent : ∃ y o t, (s.party y).todo = o :: t ∧ o.flow = []
  · obtain ⟨y, o, t, ht, hflow⟩ := hsilent
    have hr := h.rest_cons ht
    refine canStep_thread (hf y) ht hr.2 ?_ ?_
    · rintro rfl
      cases hflow
    · intro cs hcs
      rw [hflow] at hcs
      cases hcs
  · have hflow : ∀ y o t, (s.party y).todo = o :: t → o.flow ≠ [] :=
      fun y o t ht hnil => hsilent ⟨y, o, t, ht, hnil⟩
    obtain ⟨past, hfol⟩ := h.follows
    obtain ⟨x, hx⟩ := hne
    refine h.canStep_view hf hflow
      (hfol.progress check_schedule (h.not_overtaken_view hflow hno) ⟨x, ?_⟩)
    obtain ⟨o, t, ht⟩ := List.exists_cons_of_ne_nil hx
    rw [view_todo ht]
    exact fun hnil => hflow x o t ht (List.append_eq_nil_iff.1 hnil).1

/-! ### Prompt steps -/

/-- What a message that overtakes a report tells about the requests of the server. -/
theorem Inv.of_overtaken (h : s.Inv P) {k : Kind} {tag : MessageforTest} {todo : List Op}
    {cq : List Wc} (ht : (s.party true).todo = .awaitSent k :: todo)
    (hq : (s.party true).cq = .recv tag :: cq) :
    tag = .testRawData ∧ (∀ r ∈ (s.party true).chan.sq, net.message r.request.kind = false) ∧
      (cq = [] → (s.party true).chan.acks ≠ []) := by
  obtain ⟨past, hf⟩ := h.follows
  have hv : (s.view.side true).todo = .await [.sent k] :: todo.flatMap Op.flow := view_todo ht
  have hcq := view_cq hq
  obtain ⟨w⟩ := hf.waiting check_schedule hv
  have hearly : net.early (.send tag) = true := (hf.early_of_received (l := []) w hcq rfl rfl).1
  have hmessages := hf.messages_eq_nil w hcq rfl
  refine ⟨by simpa [net] using hearly, fun r hr => ?_, ?_⟩
  · have hnot := List.filter_eq_nil_iff.1 hmessages r.request.kind
      (List.mem_map_of_mem (f := fun r : Posted => r.request.kind) hr)
    simpa using hnot
  · rintro rfl
    exact hf.acks_ne_nil w hcq rfl

/-- Only what the server has to do, and its completions, decide whether a message has
    overtaken a report. -/
theorem overtaken_congr (ht : (s'.party true).todo = (s.party true).todo)
    (hq : (s'.party true).cq = (s.party true).cq) : s'.Overtaken ↔ s.Overtaken := by
  rw [Overtaken, Overtaken, ht, hq]

theorem overtaken_setParty {p : Party}
    (ht : p.todo = (s.party x).todo) (hq : p.cq = (s.party x).cq) :
    (s.setParty x p).Overtaken ↔ s.Overtaken := by
  cases x with
  | false =>
    have hother := s.setParty_client p
    exact overtaken_congr (by rw [hother]) (by rw [hother])
  | true => exact overtaken_congr (by rw [setParty_self, ht]) (by rw [setParty_self, hq])

theorem overtaken_client {p : Party} : (s.setParty false p).Overtaken ↔ s.Overtaken := by
  have hother := s.setParty_client p
  exact overtaken_congr (by rw [hother]) (by rw [hother])

theorem overtaken_setSynced {n : ℕ} : (s.setSynced x n).Overtaken ↔ s.Overtaken := Iff.rfl

/-- A completion more does not change whether a message has overtaken a report, if there are
    others before it. -/
theorem overtaken_concat {p : Party} {wc : Wc} (ht : p.todo = (s.party true).todo)
    (hq : p.cq = (s.party true).cq ++ [wc]) (hne : (s.party true).cq ≠ []) :
    (s.setParty true p).Overtaken ↔ s.Overtaken := by
  obtain ⟨wc', cq, hcq⟩ := List.exists_cons_of_ne_nil hne
  rw [Overtaken, Overtaken, setParty_self, ht, hq, hcq]
  rfl

/-- The server starts to wait for a report right after a message. -/
theorem Inv.not_overtaken_exec (h : s.Inv P) (h' : s'.Inv P) {o : Op} {todo : List Op}
    (ht : (s.party true).todo = o :: todo) (ht' : (s'.party true).todo = todo)
    (hpost : ∀ i len tag, o = .sendAt i len tag →
      ∃ r ∈ (s'.party true).chan.sq, net.message r.request.kind = true) : ¬s'.Overtaken := by
  intro hover
  obtain ⟨k, t, tag, cq, ht'', hq⟩ := overtaken_iff.1 hover
  have hrest := h.rest true
  rw [ht'] at ht''
  rw [ht, ht''] at hrest
  obtain ⟨i, len, tag', rfl⟩ := hrest.reported
  obtain ⟨r, hr, hmessage⟩ := hpost i len tag' rfl
  have hnone := (h'.of_overtaken (ht'.trans ht'') hq).2.1 r hr
  rw [hmessage] at hnone
  cases hnone

/-- A message that has overtaken a report stays where it is. -/
theorem Step.overtaken {a : Act} (hs : Step s a s') (h : s.Overtaken) : s'.Overtaken := by
  obtain ⟨k, t, tag, cq, ht₀, hq₀⟩ := overtaken_iff.1 h
  have hwait : ∀ {x o todo}, (s.party x).todo = o :: todo → (∀ k', o ≠ .awaitSent k') →
      x = false := by
    intro x o todo ht ho
    cases x with
    | false => rfl
    | true =>
      rw [ht₀] at ht
      exact absurd (List.cons.inj ht).1.symm (ho k)
  cases hs with
  | perform ht hp =>
    obtain rfl := hwait ht fun k' ho => by
      subst ho
      cases hp with
      | post hpost => cases hpost
      | recv hr => cases hr
    rwa [overtaken_client]
  | syncSend ht =>
    obtain rfl := hwait ht (by simp)
    rwa [overtaken_setSynced, overtaken_client]
  | syncRecv ht hpos =>
    obtain rfl := hwait ht (by simp)
    rwa [overtaken_setSynced, overtaken_client]
  | @take x o todo os wc cq' ht ho hq hok =>
    cases x with
    | false => rwa [overtaken_client]
    | true =>
      rw [ht₀] at ht
      rw [hq₀] at hq
      obtain ⟨rfl, -⟩ := List.cons.inj ht
      obtain ⟨rfl, -⟩ := List.cons.inj hq
      cases hok
  | confirmed ht =>
    obtain rfl := hwait ht (by simp)
    rwa [overtaken_client]
  | confirm ht hc hk hle hok =>
    obtain rfl := hwait ht (by simp)
    rwa [overtaken_client]
  | fetch hj => exact (overtaken_setParty (by rfl) (by rfl)).2 h
  | @message x b len i limit tag' data sq rq hq hr hle =>
    cases x with
    | true =>
      rw [Bool.not_true, overtaken_client]
      exact (overtaken_setParty (by rfl) (by rfl)).2 h
    | false =>
      have hother := s.setParty_client
      have hne : (s.party true).cq ≠ [] := by
        rw [hq₀]
        exact List.cons_ne_nil _ _
      rw [Bool.not_false, overtaken_concat (by rw [hother]) (by rw [hother]) (by rwa [hother])]
      rwa [overtaken_client]
  | write hq ha =>
    rw [overtaken_setParty (by rw [setParty_not]) (by rw [setParty_not])]
    exact (overtaken_setParty (by rfl) (by rfl)).2 h
  | read hq ha => exact (overtaken_setParty (by rfl) (by rfl)).2 h
  | @report x k' acks ha =>
    cases x with
    | false => rwa [overtaken_client]
    | true =>
      have hne : (s.party true).cq ≠ [] := by
        rw [hq₀]
        exact List.cons_ne_nil _ _
      exact (overtaken_concat (by rfl) (by rfl) hne).2 h

/-- A message is delivered. -/
theorem not_overtaken_message {tag : MessageforTest} {sq : List Posted} {acks : List Kind}
    {rq : List (ℕ × ℕ)} {mem : ByteMem}
    (h : ((s.setParty x { s.party x with chan := { (s.party x).chan with sq, acks } }).setParty (!x)
      { s.party (!x) with
        cq := (s.party (!x)).cq ++ [.recv tag]
        chan := { (s.party (!x)).chan with rq, mem } }).Inv P)
    (hp : tag = .testRawData → (s.party (!x)).chan.acks = []) (hno : ¬s.Overtaken) :
    ¬((s.setParty x { s.party x with chan := { (s.party x).chan with sq, acks } }).setParty (!x)
      { s.party (!x) with
        cq := (s.party (!x)).cq ++ [.recv tag]
        chan := { (s.party (!x)).chan with rq, mem } }).Overtaken := by
  cases x with
  | true =>
    rw [Bool.not_true, overtaken_client]
    exact fun hover => hno ((overtaken_setParty (by rfl) (by rfl)).1 hover)
  | false =>
    have hother := s.setParty_client
    rw [Bool.not_false] at h hp ⊢
    by_cases hnil : (s.party true).cq = []
    · intro hover
      obtain ⟨k, t, tag', cq, ht, hcq⟩ := overtaken_iff.1 hover
      obtain ⟨rfl, -, hacks⟩ := h.of_overtaken ht hcq
      rw [setParty_self, hnil] at hcq
      rw [setParty_self] at hacks
      obtain ⟨htag, hnone⟩ := List.cons.inj hcq
      cases htag
      exact hacks hnone.symm (hp rfl)
    · rw [overtaken_concat (by rw [hother]) (by rw [hother]) (by rwa [hother])]
      rwa [overtaken_client]

/-- **No message overtakes a report in a prompt step.** -/
theorem Inv.not_overtaken (h : s.Inv P) {a : Act} (hs : Step s a s') (hp : s.Prompt a)
    (hno : ¬s.Overtaken) : ¬s'.Overtaken := by
  have h' := hs.inv h
  cases hs with
  | @perform x o todo me ht hperform =>
    cases x with
    | false => rwa [overtaken_client]
    | true =>
      refine h.not_overtaken_exec h' ht (by rw [setParty_self]) ?_
      rintro i len tag rfl
      rw [setParty_self]
      cases hperform with
      | post hpost =>
        cases hpost
        exact ⟨_, List.mem_append_right _ List.mem_cons_self, rfl⟩
      | recv hr => cases hr
  | @syncSend x todo ht =>
    cases x with
    | false => rwa [overtaken_setSynced, overtaken_client]
    | true =>
      exact h.not_overtaken_exec h' ht (by rw [setSynced_party, setParty_self]) (by simp)
  | @syncRecv x todo ht hpos =>
    cases x with
    | false => rwa [overtaken_setSynced, overtaken_client]
    | true =>
      exact h.not_overtaken_exec h' ht (by rw [setSynced_party, setParty_self]) (by simp)
  | @take x o todo os wc cq ht ho hq hok =>
    cases x with
    | false => rwa [overtaken_client]
    | true =>
      have htakes := Op.takes ho hok
      have hrest := h.rest_cons ht
      obtain rfl : os = [] := by
        cases htakes with
        | awaitSent | awaitRecv => rfl
        | request | response => cases hrest.of.1
      refine h.not_overtaken_exec h' ht (by rw [setParty_self]; rfl) ?_
      rintro i len tag rfl
      cases ho
  | @confirmed x index ring todo ht =>
    have hrest := h.rest_cons ht
    obtain rfl := client_of_confirm hrest
    rwa [overtaken_client]
  | @confirm x index confirmed k ring todo me ht hc hk hle hok =>
    have hrest := h.rest_cons ht
    obtain rfl := client_of_confirm hrest
    rwa [overtaken_client]
  | fetch hj => exact fun hover => hno ((overtaken_setParty (by rfl) (by rfl)).1 hover)
  | message hq hr hle =>
    exact not_overtaken_message h' (fun htag => hp (by rw [hq, htag]; rfl)) hno
  | @write x b len a d data sq hq ha =>
    rw [overtaken_setParty (by rw [setParty_not]) (by rw [setParty_not])]
    exact fun hover => hno ((overtaken_setParty (by rfl) (by rfl)).1 hover)
  | read hq ha => exact fun hover => hno ((overtaken_setParty (by rfl) (by rfl)).1 hover)
  | @report x k acks ha =>
    cases x with
    | false => rwa [overtaken_client]
    | true =>
      by_cases hnil : (s.party true).cq = []
      · intro hover
        obtain ⟨k', t, tag, cq, -, hq⟩ := overtaken_iff.1 hover
        rw [setParty_self, hnil] at hq
        cases hq
      · exact fun hover => hno ((overtaken_concat (by rfl) (by rfl) hnil).1 hover)

end State

/-! ## The rank of a state -/

/-- A request is posted, fetched, delivered, reported and polled; a message is
    polled at the other side too. -/
def Op.cost : Op → ℕ
  | sendAt .. | sendNext .. | writeNext _ | writeAt .. | readNext _ => 6
  | awaitSent _ | awaitRecv .. | exchange .. => 0
  | _ => 1

def Posted.cost (p : Posted) : ℕ := if p.payload.isSome then 4 else 5

/-- The steps that the operations `ops` lead to. -/
def costs (ops : List Op) : ℕ := (ops.map Op.cost).sum

section
variable (o : Op) (ops ops' : List Op)

@[simp] theorem costs_nil : costs [] = 0 := by
  simp [costs]

@[simp] theorem costs_cons : costs (o :: ops) = o.cost + costs ops := by
  simp [costs]

@[simp] theorem costs_append : costs (ops ++ ops') = costs ops + costs ops' := by
  simp [costs]

@[simp] theorem costs_repeated (n : ℕ) : costs (repeated n ops) = n * costs ops := by
  induction n with
  | zero => rw [Nat.zero_mul]; rfl
  | succ n ih => rw [repeated_succ, costs_append, ih, Nat.succ_mul, Nat.add_comm]

end

theorem costs_flatMap {f : ℕ → List Op} {m : ℕ} (h : ∀ a, costs (f a) = m) (l : List ℕ) :
    costs (l.flatMap f) = l.length * m := by
  induction l with
  | nil => rw [List.length_nil, Nat.zero_mul]; rfl
  | cons a l ih =>
    rw [List.flatMap_cons, costs_append, h, ih, List.length_cons, Nat.succ_mul, Nat.add_comm]

theorem costs_server : costs (processCQ true) = 11 + sizes.length * (7 + 2 * count) := by
  have hlat : costs SchedulingServer.latSend = 7 + 2 * count := by
    simp only [SchedulingServer.latSend, costs_append, costs_cons, costs_nil, costs_repeated,
      Op.cost]
    omega
  rw [processCQ, if_pos rfl]
  simp only [SchedulingServer.processCQ, SchedulingServer.exchangeBufferInfo, costs_append,
    costs_cons, costs_nil, costs_flatMap fun _ => hlat, Op.cost]
  omega

theorem costs_client : costs (processCQ false) = 16 + sizes.length * (9 + 33 * count) := by
  have hlat : ∀ len, costs (SchedulingClient.latSend len) = 7 + count * 7 := by
    intro len
    simp only [SchedulingClient.latSend, costs_append, costs_cons, costs_nil, costs_repeated,
      Op.cost]
  have hwrite : ∀ len, costs (SchedulingClient.writeTest len) = count * 7 := by
    intro len
    simp only [SchedulingClient.writeTest, costs_cons, costs_nil, costs_repeated, Op.cost]
  have hread : ∀ len, costs (SchedulingClient.readTest len) = count * 7 := by
    intro len
    simp only [SchedulingClient.readTest, costs_cons, costs_nil, costs_repeated, Op.cost]
  have hbw : ∀ len, costs (SchedulingClient.writeBwTest len) = count * 6 + 1 := by
    intro len
    simp only [SchedulingClient.writeBwTest, costs_append, costs_cons, costs_nil, costs_repeated,
      Op.cost]
  have hfake : ∀ len, costs (SchedulingClient.writeBwTestFake len) = count * 6 + 1 := by
    intro len
    simp only [SchedulingClient.writeBwTestFake, costs_append, costs_cons, costs_nil,
      costs_repeated, Op.cost]
  rw [processCQ, if_neg Bool.false_ne_true]
  simp only [SchedulingClient.processCQ, SchedulingClient.exchangeBufferInfo, costs_append,
    costs_cons, costs_nil, costs_flatMap hlat, costs_flatMap hwrite, costs_flatMap hread,
    costs_flatMap hbw, costs_flatMap hfake, Op.cost]
  ring

theorem sum_map_set {α : Type} (f : α → ℕ) {l : List α} {j : ℕ} {a p : α} (h : l[j]? = some a) :
    ((l.set j p).map f).sum + f a = (l.map f).sum + f p := by
  induction l generalizing j with
  | nil => cases h
  | cons b l ih =>
    cases j with
    | zero =>
      obtain rfl := Option.some.inj h
      rw [List.set_cons_zero, List.map_cons, List.map_cons, List.sum_cons, List.sum_cons]
      omega
    | succ j =>
      have hrec := ih h
      rw [List.set_cons_succ, List.map_cons, List.map_cons, List.sum_cons, List.sum_cons]
      omega

theorem Chan.Performs.cost {me me' : Chan} {o : Op} (h : me.Performs o me') :
    (me'.sq.map Posted.cost).sum < o.cost + (me.sq.map Posted.cost).sum ∧ me'.acks = me.acks := by
  cases h with
  | @post o buffer r h =>
    have ho : o.cost = 6 := by cases h <;> rfl
    refine ⟨?_, rfl⟩
    simp only [List.map_append, List.sum_append, List.map_cons, List.map_nil, List.sum_cons,
      List.sum_nil, ho, Posted.cost]
    norm_num
    omega
  | @recv o buffer i limit h =>
    have ho : o.cost = 1 := by cases h <;> rfl
    exact ⟨by rw [ho]; exact Nat.lt_add_of_pos_left Nat.one_pos, rfl⟩
  | last h => exact ⟨Nat.lt_add_of_pos_left Nat.one_pos, rfl⟩
  | fill h => exact ⟨Nat.lt_add_of_pos_left Nat.one_pos, rfl⟩
  | load => exact ⟨Nat.lt_add_of_pos_left Nat.one_pos, rfl⟩

def Party.cost (p : Party) : ℕ :=
  costs p.todo + (p.chan.sq.map Posted.cost).sum + 2 * p.chan.acks.length + p.cq.length

section
variable {p : Party} {r : Request} {payload : Option (List UInt8)} {sq : List Posted}

theorem cost_fetch {j : ℕ} (hj : p.chan.sq[j]? = some ⟨r, none⟩) (data : List UInt8) :
    Party.cost { p with chan := { p.chan with sq := p.chan.sq.set j ⟨r, some data⟩ } } <
      p.cost := by
  have hset := sum_map_set Posted.cost (p := ⟨r, some data⟩) hj
  have hnone : Posted.cost ⟨r, none⟩ = 5 := rfl
  have hsome : Posted.cost ⟨r, some data⟩ = 4 := rfl
  rw [hnone, hsome] at hset
  simp only [Party.cost]
  omega

theorem cost_sent (hq : p.chan.sq = ⟨r, payload⟩ :: sq) (k : Kind) (mem : ByteMem) :
    Party.cost { p with chan := { p.chan with sq, acks := p.chan.acks ++ [k], mem } } + 2 ≤
      p.cost := by
  have hcost : 4 ≤ Posted.cost ⟨r, payload⟩ := by
    unfold Posted.cost
    split <;> omega
  simp only [Party.cost, hq, List.map_cons, List.sum_cons, List.length_append,
    List.length_singleton]
  omega

theorem cost_received (p : Party) (tag : MessageforTest) (rq : List (ℕ × ℕ)) (mem : ByteMem) :
    Party.cost { p with cq := p.cq ++ [.recv tag], chan := { p.chan with rq, mem } } =
      p.cost + 1 := by
  simp only [Party.cost, List.length_append, List.length_singleton]
  omega

theorem cost_mem (p : Party) (mem : ByteMem) :
    Party.cost { p with chan := { p.chan with mem } } = p.cost := rfl

end

namespace State

variable {s s' : State} {x : Bool}

/-- No run without failures has more steps. -/
def rank (s : State) : ℕ := (s.party false).cost + (s.party true).cost

theorem rank_setParty (s : State) (x : Bool) (p : Party) :
    (s.setParty x p).rank + (s.party x).cost = s.rank + p.cost := by
  cases x with
  | false =>
    have hself := s.setParty_self false p
    have hother := s.setParty_client p
    rw [rank, rank, hself, hother]
    omega
  | true =>
    have hself := s.setParty_self true p
    have hother := s.setParty_server p
    rw [rank, rank, hself, hother]
    omega

theorem rank_lt_of_cost {p : Party} (h : p.cost < (s.party x).cost) :
    (s.setParty x p).rank < s.rank := by
  have hrank := s.rank_setParty x p
  omega

theorem costs_take {o : Op} {wc : Wc} {os : List Op} (h : o.Takes wc os) : costs os ≤ o.cost := by
  cases h with
  | awaitSent | awaitRecv => exact Nat.le_refl 0
  | @request request response recv => cases recv <;> exact Nat.le_refl 0
  | @response request response send => cases send <;> exact Nat.le_refl 0

theorem rank_lt_of_costs {p q : Party}
    (hp : p.cost + 2 ≤ (s.party x).cost) (hq : q.cost ≤ (s.party (!x)).cost + 1) :
    ((s.setParty x p).setParty (!x) q).rank < s.rank := by
  have hfirst := s.rank_setParty x p
  have hsecond := (s.setParty x p).rank_setParty (!x) q
  rw [setParty_not] at hsecond
  omega

theorem Step.rank_lt {a : Act} (hs : Step s a s') : s'.rank < s.rank := by
  cases hs with
  | @perform x o todo me ht hp =>
    obtain ⟨hsq, hacks⟩ := hp.cost
    refine rank_lt_of_cost ?_
    simp only [Party.cost, ht, costs_cons, hacks]
    omega
  | @syncSend x todo ht =>
    have hlt : (s.setParty x { s.party x with todo }).rank < s.rank := by
      refine rank_lt_of_cost ?_
      simp only [Party.cost, ht, costs_cons, Op.cost]
      omega
    exact hlt
  | @syncRecv x todo ht hpos =>
    have hlt : (s.setParty x { s.party x with todo }).rank < s.rank := by
      refine rank_lt_of_cost ?_
      simp only [Party.cost, ht, costs_cons, Op.cost]
      omega
    exact hlt
  | @take x o todo os wc cq ht ho hq hok =>
    have hos := costs_take (Op.takes ho hok)
    refine rank_lt_of_cost ?_
    simp only [Party.cost, ht, hq, costs_cons, costs_append, List.length_cons]
    omega
  | @confirmed x index ring todo ht =>
    refine rank_lt_of_cost ?_
    simp only [Party.cost, ht, costs_cons, Op.cost]
    omega
  | @confirm x index confirmed k ring todo me ht hc hk hle hok =>
    obtain ⟨buffer, rfl, -⟩ := confirmAll_eq hok
    refine rank_lt_of_cost ?_
    simp only [Party.cost, ht, costs_cons, List.length_drop, Op.cost]
    omega
  | fetch hj => exact rank_lt_of_cost (cost_fetch hj _)
  | message hq hr hle => exact rank_lt_of_costs (cost_sent hq _ _) (cost_received ..).le
  | write hq ha =>
    exact rank_lt_of_costs (cost_sent hq _ _) ((cost_mem ..).le.trans (Nat.le_succ _))
  | read hq ha =>
    have hsent := cost_sent hq .read
    exact rank_lt_of_cost (Nat.lt_of_lt_of_le (Nat.lt_add_of_pos_right Nat.two_pos) (hsent _))
  | @report x k acks ha =>
    refine rank_lt_of_cost ?_
    simp only [Party.cost, ha, List.length_cons, List.length_append, List.length_nil]
    omega

/-- A run without failures. -/
theorem rank_of_run {as : List Act} (h : Lts.run step s as = some s')
    (hf : ∀ y, (s'.party y).failed = none) : s'.rank + as.length ≤ s.rank := by
  induction as generalizing s with
  | nil =>
    obtain rfl := Option.some.inj h
    exact Nat.le_refl _
  | cons a as ih =>
    rw [Lts.run_cons, Option.bind_eq_some_iff] at h
    obtain ⟨t, ht, h⟩ := h
    have hle := ih h
    have hlt := (Step.of_step ht (failed_of_run h hf)).rank_lt
    rw [List.length_cons]
    omega

theorem rank_init (P : Bool → Placement) : (State.init P).rank = 840411 := by
  have hcost : ∀ x, ((State.init P).party x).cost = costs (processCQ x) := by
    intro x
    rw [Party.cost]
    rfl
  have hsizes : sizes.length = 24 := rfl
  have hcount : count = 1000 := rfl
  rw [rank, hcost, hcost, costs_client, costs_server, hsizes, hcount]

/-! ## The end -/

variable {P : Bool → Placement}

/-- Both threads have left `process_CQ`. -/
def Done (s : State) : Prop := ∀ y, (s.party y).failed = none ∧ (s.party y).todo = []

/-- **Both threads can finish** from a state in which no message has overtaken a report. -/
theorem Inv.completes (h : s.Inv P) (hf : ∀ y, (s.party y).failed = none)
    (hno : ¬s.Overtaken) : ∃ bs s', Lts.run step s bs = some s' ∧ s'.Done := by
  induction hn : s.rank using Nat.strong_induction_on generalizing s with
  | _ n ih =>
    subst hn
    by_cases hdone : ∀ y, (s.party y).todo = []
    · exact ⟨[], s, rfl, fun y => ⟨hf y, hdone y⟩⟩
    · obtain ⟨a, t, ht, hprompt⟩ := h.canStep hf hno (not_forall.1 hdone)
      have hnone := (h.failed_step_iff hf ht).2 fun hbad => hno hbad.2
      have hstep := Step.of_step ht hnone
      obtain ⟨bs, s', hrun, hs'⟩ := ih t.rank hstep.rank_lt (hstep.inv h) hnone
        (h.not_overtaken hstep hprompt hno) rfl
      refine ⟨a :: bs, s', ?_, hs'⟩
      rw [Lts.run_cons, ht]
      exact hrun

/-- A message that has overtaken a report stays first in the completion queue. -/
theorem not_overtaken_of_run {as : List Act} (h : Lts.run step s as = some s') (hd : s'.Done) :
    ¬s.Overtaken := by
  induction as generalizing s with
  | nil =>
    obtain rfl := Option.some.inj h
    rintro hover
    obtain ⟨k, todo, -, -, ht, -⟩ := overtaken_iff.1 hover
    rw [(hd true).2] at ht
    cases ht
  | cons a as ih =>
    rw [Lts.run_cons, Option.bind_eq_some_iff] at h
    obtain ⟨t, ht, h⟩ := h
    have hstep := Step.of_step ht (failed_of_run h fun y => (hd y).1)
    exact fun hover => ih h (hstep.overtaken hover)

/-- **When both threads can finish.** After a run without failures there is a way on to the end
    of both programs if and only if no message has overtaken the report that the server waits
    for; the whole run has then at most 840411 steps. -/
theorem completes_iff {as : List Act} (h : Lts.run step (State.init P) as = some s)
    (hf : ∀ y, (s.party y).failed = none) : ¬s.Overtaken ↔
      ∃ bs s', Lts.run step s bs = some s' ∧ s'.Done ∧ as.length + bs.length ≤ 840411 := by
  constructor
  · intro hno
    obtain ⟨bs, s', hrun, hd⟩ := ((Inv.init P).run h hf).completes hf hno
    refine ⟨bs, s', hrun, hd, ?_⟩
    have hfirst := rank_of_run h hf
    have hsecond := rank_of_run hrun fun y => (hd y).1
    rw [rank_init] at hfirst
    omega
  · rintro ⟨bs, s', hrun, hd, -⟩
    exact not_overtaken_of_run hrun hd

theorem completes_iff_one :
    (∃ s bs s', Lts.run step zeroed requestRun = some s ∧ Lts.run step s bs = some s' ∧ s'.Done ∧
      requestRun.length + bs.length ≤ 840411) ∧
    ∃ as s, Lts.run step zeroed as = some s ∧ (∀ y, (s.party y).failed = none) ∧
      ¬∃ bs s', Lts.run step s bs = some s' ∧ s'.Done ∧ as.length + bs.length ≤ 840411 := by
  constructor
  · obtain ⟨s, hs, ha⟩ := exists_requested
    obtain ⟨bs, s', hrun, hd, hle⟩ := (completes_iff hs ha.1).1 ha.not_overtaken
    exact ⟨s, bs, s', hs, hrun, hd, hle⟩
  · obtain ⟨as, s, hs, hf, hover⟩ := exists_overtaken
    exact ⟨as, s, hs, hf, fun hd => (completes_iff hs hf).2 hd hover⟩

/-- Both threads stay at their ends. -/
theorem Step.done {a : Act} (hs : Step s a s') (hd : s.Done) : s'.Done := by
  have hset : ∀ {x p}, p.failed = none ∧ p.todo = [] →
      ∀ y, ((s.setParty x p).party y).failed = none ∧ ((s.setParty x p).party y).todo = [] :=
    fun hp => forall_setParty (Q := fun _ p => p.failed = none ∧ p.todo = []) hd hp
  cases hs with
  | @perform x o todo me ht hp => cases ht.symm.trans (hd x).2
  | @syncSend x todo ht => cases ht.symm.trans (hd x).2
  | @syncRecv x todo ht hpos => cases ht.symm.trans (hd x).2
  | @take x o todo os wc cq ht ho hq hok => cases ht.symm.trans (hd x).2
  | @confirmed x index ring todo ht => cases ht.symm.trans (hd x).2
  | @confirm x index confirmed k ring todo me ht hc hk hle hok => cases ht.symm.trans (hd x).2
  | message hq hr hle | write hq ha =>
    exact forall_setParty (Q := fun _ p => p.failed = none ∧ p.todo = []) (hset (hd _)) (hd _)
  | _ => exact hset (hd _)

/-- The network comes to an end, too. -/
theorem Inv.stops (h : s.Inv P) (hd : s.Done) :
    ∃ bs s', Lts.run step s bs = some s' ∧ s'.Done ∧ ∀ a, s'.step a = none := by
  induction hn : s.rank using Nat.strong_induction_on generalizing s with
  | _ n ih =>
    subst hn
    by_cases hstuck : ∀ a, s.step a = none
    · exact ⟨[], s, rfl, hd, hstuck⟩
    · obtain ⟨a, ha⟩ := not_forall.1 hstuck
      obtain ⟨t, ht⟩ := Option.ne_none_iff_exists'.1 ha
      have hno : ¬s.Overtaken := not_overtaken_of_run (Lts.run_nil step s) hd
      have hnone := (h.failed_step_iff (fun y => (hd y).1) ht).2 fun hbad => hno hbad.2
      have hstep := Step.of_step ht hnone
      obtain ⟨bs, s', hrun, hs'⟩ := ih t.rank hstep.rank_lt (hstep.inv h) (hstep.done hd) rfl
      refine ⟨a :: bs, s', ?_, hs'⟩
      rw [Lts.run_cons, ht]
      exact hrun

/-- **The benchmark ends.** A run without failures has at most 840411 steps, and if no step is
    possible after it, both threads have finished. -/
theorem ends {as : List Act} (h : Lts.run step (State.init P) as = some s)
    (hf : ∀ y, (s.party y).failed = none) :
    as.length ≤ 840411 ∧ ((∀ a, s.step a = none) → s.Done) := by
  have hle := rank_of_run h hf
  rw [rank_init] at hle
  refine ⟨by omega, fun hstuck => ?_⟩
  by_cases hover : s.Overtaken
  · have hexec := hover.step_exec (hf true)
    rw [hstuck] at hexec
    cases hexec
  · by_contra hd
    obtain ⟨y, hy⟩ : ∃ y, (s.party y).todo ≠ [] := by
      by_contra hall
      exact hd fun y => ⟨hf y, by_contra fun hy => hall ⟨y, hy⟩⟩
    obtain ⟨a, s', hs', -⟩ := ((Inv.init P).run h hf).canStep hf hover ⟨y, hy⟩
    rw [hstuck] at hs'
    cases hs'

theorem ends_one : ∃ as s, Lts.run step zeroed as = some s ∧ requestRun <+: as ∧
    as.length ≤ 840411 ∧ (∀ a, s.step a = none) ∧ s.Done := by
  obtain ⟨s, hs, ha⟩ := exists_requested
  have hinv := (Inv.init _).run hs ha.1
  obtain ⟨bs, s', hrun, hd⟩ := hinv.completes ha.1 ha.not_overtaken
  obtain ⟨cs, s'', hrun', hd', hstuck⟩ := (hinv.run hrun fun y => (hd y).1).stops hd
  have hall : Lts.run step zeroed (requestRun ++ (bs ++ cs)) = some s'' := by
    rw [Lts.run_append, hs, Option.bind_some, Lts.run_append, hrun, Option.bind_some, hrun']
  obtain ⟨hle, hdone⟩ := ends hall fun y => (hd' y).1
  exact ⟨_, s'', hall, List.prefix_append _ _, hle, hstuck, hdone hstuck⟩

end State

end Benchmark

end RdmaCore

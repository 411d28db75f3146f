/-
  Runs of the timers.

  A turn of the loop lets one event catch up with the tick, and a registration
  in time is left to the next pass.

  * `TimerInv`: every event has counted the ticks since its registration;
  * `onTime_of_inTime`: if no registration falls ahead of the iterator, timers
    fire on their ticks, and every pass ends;
  * `pass_goes_on`: a pass with registrations ahead of the iterator.
-/
import RdmaCore.TimeEvent

namespace RdmaCore

namespace TimeEvent

/-! ## The invariant -/

def events (s : TimeEvent) : List ℕ := (s.done ++ s.todo).map (·.event)

theorem mem_events {s : TimeEvent} {event : ℕ} :
    event ∈ s.events ↔ event ∈ s.done.map (·.event) ∨ event ∈ s.todo.map (·.event) := by
  rw [events, List.map_append, List.mem_append]

/-- The invariant of runs whose registrations are in time. -/
structure TimerInv (s : TimeEvent) : Prop where
  onTime : s.OnTime
  done : ∀ e ∈ s.done, e.Counts s.log s.mTicks
  todo : ∀ e ∈ s.todo, e.Counts s.log (s.mTicks - 1)
  running : s.todo ≠ [] → 0 < s.mTicks
  nodup : s.events.Nodup
  /-- A timer that is neither signaled nor counting is a timeout that has fired. -/
  fired : ∀ t, .registered t ∈ s.log → .signaled t.event ∉ s.log → t.event ∉ s.events →
    t.kind = .timeout ∧ t.start + t.ticks ≤ s.mTicks
  unique : ∀ t t', .registered t ∈ s.log → .registered t' ∈ s.log → t.event = t'.event → t = t'
  created : ∀ o ∈ s.log, o.event < s.created
  flag : ∀ event, s.signaled event = true ↔ .signaled event ∈ s.log

theorem timerInv_init (tick : ℕ) (h : 0 < tick) (nextSeqNum : UInt64) :
    TimerInv (init tick h nextSeqNum) where
  onTime := ⟨fun _ ht => absurd ht List.not_mem_nil, fun _ ht => absurd ht List.not_mem_nil,
    List.Pairwise.nil⟩
  done _ he := absurd he List.not_mem_nil
  todo _ he := absurd he List.not_mem_nil
  running h := absurd rfl h
  nodup := List.nodup_nil
  fired _ ht := absurd ht List.not_mem_nil
  unique _ _ ht := absurd ht List.not_mem_nil
  created _ ho := absurd ho List.not_mem_nil
  flag _ := ⟨nofun, fun h => absurd h List.not_mem_nil⟩

section
variable {s s' : TimeEvent} {e : EventCtx} {rest : List EventCtx}

theorem TimerInv.lt_created (h : TimerInv s) {event : ℕ} (he : event ∈ s.events) :
    event < s.created := by
  obtain ⟨e, hmem, rfl⟩ := List.mem_map.1 he
  have hcounts : ∃ now, e.Counts s.log now := by
    rcases List.mem_append.1 hmem with hmem | hmem
    · exact ⟨_, h.done e hmem⟩
    · exact ⟨_, h.todo e hmem⟩
  obtain ⟨now, t, ht, hevent, -⟩ := hcounts
  rw [← hevent]
  exact h.created _ ht

/-- A timer that is registered now has no calls yet, and none is due. -/
theorem TimerInv.callsOf_created (h : TimerInv s) {t : Timer} (hevent : t.event = s.created)
    (hstart : t.start = s.mTicks) (hticks : 0 < t.ticks) :
    t.event ∉ s.events ∧ callsOf t.event s.log = t.due (s.clock t.event) := by
  have hnew : t.event ∉ s.events := fun hin => absurd (h.lt_created hin) (hevent ▸ Nat.lt_irrefl _)
  refine ⟨hnew, ?_⟩
  rw [clock, if_neg fun hin => hnew (mem_events.2 (.inr hin)), ← hstart, Timer.due_start hticks,
    hevent]
  exact callsOf_of_ne fun o ho => (h.created o ho).ne

/-- What is recorded, other than a call, keeps the signals before it. -/
theorem OnTime.signaled_append (h : s.OnTime) {o : TimerObs}
    (ho : ∀ event tick, o ≠ .called event tick) :
    (s.log ++ [o]).Pairwise fun o o' => ∀ event tick, o = .signaled event → o' ≠ .called event tick := by
  refine List.pairwise_append.2 ⟨h.signaled, List.pairwise_singleton _ _, ?_⟩
  intro a _ b hb event tick _
  rw [List.mem_singleton.1 hb]
  exact ho event tick

/-- A tick: all events are to count it. -/
theorem TimerInv.tick (h : TimerInv s) (htodo : s.todo = []) :
    TimerInv { s with mTicks := s.mTicks + 1, todo := s.done, done := [] } := by
  have hevents : s.events = s.done.map (·.event) := by rw [events, htodo, List.append_nil]
  have hclock (event : ℕ) : s.clock event = s.mTicks := by
    rw [clock, htodo, List.map_nil, if_neg List.not_mem_nil]
  have hnodup : (s.done.map (·.event)).Nodup := hevents ▸ h.nodup
  refine ⟨⟨fun t ht => ?_, fun t ht hsig => ?_, h.onTime.signaled⟩,
    fun _ he => absurd he List.not_mem_nil, h.done, fun _ => Nat.succ_pos _, hnodup,
    fun t ht hsig hne => ?_, h.unique, h.created, h.flag⟩
  · have hcalls := h.onTime.calls t ht
    rw [hclock] at hcalls
    refine hcalls.trans (Timer.due_mono ?_)
    show _ ≤ if t.event ∈ s.done.map (·.event) then s.mTicks + 1 - 1 else s.mTicks + 1
    split_ifs <;> omega
  · have hcalls := h.onTime.all t ht hsig
    rw [hclock] at hcalls
    rw [hcalls]
    show _ = t.due (if t.event ∈ s.done.map (·.event) then s.mTicks + 1 - 1 else s.mTicks + 1)
    split_ifs with hin
    · rfl
    · obtain ⟨hkind, hle⟩ := h.fired t ht hsig (hevents ▸ hin)
      rw [Timer.due_of_timeout hkind hle, Timer.due_of_timeout hkind (by omega)]
  · obtain ⟨hkind, hle⟩ := h.fired t ht hsig (hevents ▸ hne)
    exact ⟨hkind, Nat.le_succ_of_le hle⟩

/-- A signal, which is recorded. -/
theorem TimerInv.signal (h : TimerInv s) {event : ℕ} (hevent : event < s.created) :
    TimerInv { s with
      signaled := Function.update s.signaled event true
      log := s.log ++ [.signaled event] } := by
  have hlog : s.log ⊆ s.log ++ [.signaled event] := List.subset_append_left _ _
  have hreg {t : Timer} (ht : .registered t ∈ s.log ++ [.signaled event]) : .registered t ∈ s.log :=
    (List.mem_append.1 ht).resolve_right (by simp)
  constructor
  case onTime =>
    refine ⟨fun t ht => ?_, fun t ht hsig => ?_, h.onTime.signaled_append nofun⟩
    · rw [callsOf_append_singleton (o := .signaled event) nofun]
      exact h.onTime.calls t (hreg ht)
    · rw [callsOf_append_singleton (o := .signaled event) nofun]
      exact h.onTime.all t (hreg ht) fun hin => hsig (hlog hin)
  case done => exact fun e he => (h.done e he).mono hlog
  case todo => exact fun e he => (h.todo e he).mono hlog
  case running => exact h.running
  case nodup => exact h.nodup
  case fired => exact fun t ht hsig hne => h.fired t (hreg ht) (fun hin => hsig (hlog hin)) hne
  case unique => exact fun t t' ht ht' => h.unique t t' (hreg ht) (hreg ht')
  case created =>
    intro o ho
    rcases List.mem_append.1 ho with ho | ho
    · exact h.created o ho
    · rw [List.mem_singleton.1 ho]
      exact hevent
  case flag =>
    intro event'
    rw [List.mem_append, ← h.flag, List.mem_singleton]
    by_cases heq : event' = event <;> simp [heq]

theorem TimerInv.elsewhere (h : TimerInv s) (nextSeqNum : UInt64) :
    TimerInv { s with nextSeqNum := nextSeqNum } :=
  ⟨⟨h.onTime.calls, h.onTime.all, h.onTime.signaled⟩, h.done, h.todo, h.running, h.nodup,
    h.fired, h.unique, h.created, h.flag⟩

/-- A registration that starts to count at the next tick. -/
theorem TimerInv.register (h : TimerInv s) {c : EventCtx} {done : List EventCtx}
    (hdone : done.Perm (c :: s.done)) (hevent : c.event = s.created) (hticks : 0 < c.ticks)
    (helapsed : c.elapsed = 0) (nextSeqNum : UInt64) :
    TimerInv { s with
      nextSeqNum := nextSeqNum
      created := s.created + 1
      log := s.log ++ [.registered ⟨s.created, c.kind, c.ticks, s.mTicks⟩]
      done := done } := by
  obtain ⟨t₀, ht₀⟩ : ∃ t : Timer, t = ⟨s.created, c.kind, c.ticks, s.mTicks⟩ := ⟨_, rfl⟩
  have hcreated : t₀.event = s.created := by rw [ht₀]
  have hstart : t₀.start = s.mTicks := by rw [ht₀]
  have hticks₀ : 0 < t₀.ticks := by
    rw [ht₀]
    exact hticks
  obtain ⟨hnew, hnone⟩ := h.callsOf_created hcreated hstart hticks₀
  rw [← ht₀]
  have hlog : s.log ⊆ s.log ++ [.registered t₀] := List.subset_append_left _ _
  have hreg {t : Timer} (ht : .registered t ∈ s.log ++ [.registered t₀]) :
      .registered t ∈ s.log ∨ t = t₀ := by
    simpa using ht
  have hsig {event : ℕ} (hn : .signaled event ∉ s.log ++ [.registered t₀]) :
      .signaled event ∉ s.log := fun hin => hn (hlog hin)
  have hne {t : Timer} (ht : .registered t ∈ s.log) : t.event ≠ t₀.event := by
    rw [hcreated]
    exact (h.created _ ht).ne
  -- the new event comes to those that were there
  have hevents : ((done ++ s.todo).map (·.event)).Perm (t₀.event :: s.events) := by
    rw [hcreated, ← hevent]
    exact (hdone.append_right s.todo).map _
  constructor
  case onTime =>
    refine ⟨fun t ht => ?_, fun t ht hn => ?_, h.onTime.signaled_append nofun⟩
    · rw [callsOf_append_singleton (o := .registered t₀) nofun]
      rcases hreg ht with ht | rfl
      · exact h.onTime.calls t ht
      · exact hnone ▸ List.prefix_refl _
    · rw [callsOf_append_singleton (o := .registered t₀) nofun]
      rcases hreg ht with ht | rfl
      · exact h.onTime.all t ht (hsig hn)
      · exact hnone
  case done =>
    intro e he
    rcases List.mem_cons.1 (hdone.subset he) with rfl | he
    · refine ⟨t₀, by simp, by rw [hcreated, hevent], by rw [ht₀], by rw [ht₀], ?_, ?_⟩
      · rw [← hstart]
        exact Timer.waits_start hticks₀
      · rw [← hstart, helapsed, Timer.elapsed_start]
    · exact (h.done e he).mono hlog
  case todo => exact fun e he => (h.todo e he).mono hlog
  case running => exact h.running
  case nodup => exact hevents.nodup_iff.2 (List.nodup_cons.2 ⟨hnew, h.nodup⟩)
  case fired =>
    intro t ht hn hnot
    have hnot' : t.event ∉ t₀.event :: s.events := fun hin => hnot (hevents.symm.subset hin)
    rcases hreg ht with ht | rfl
    · exact h.fired t ht (hsig hn) fun hin => hnot' (List.mem_cons_of_mem _ hin)
    · exact absurd List.mem_cons_self hnot'
  case unique =>
    intro t t' ht ht' heq
    rcases hreg ht with hold | hnew <;> rcases hreg ht' with hold' | hnew'
    · exact h.unique t t' hold hold' heq
    · exact absurd (hnew' ▸ heq) (hne hold)
    · exact absurd (hnew ▸ heq).symm (hne hold')
    · rw [hnew, hnew']
  case created =>
    intro o ho
    rcases List.mem_append.1 ho with ho | ho
    · exact Nat.lt_succ_of_lt (h.created o ho)
    · rw [List.mem_singleton.1 ho, ht₀]
      exact Nat.lt_succ_self _
  case flag =>
    intro event
    rw [List.mem_append, ← h.flag]
    simp

/-! ## Turns of the loop -/

/-- The iterator goes on to `rest`, and leaves the events `kept` behind. -/
def passed (s : TimeEvent) (kept rest : List EventCtx) : TimeEvent :=
  { s with done := s.done ++ kept, todo := rest }

theorem insert_eq {c : EventCtx} (hnew : c.seqNum ∉ s.seqNums)
    (hbefore : ∀ e ∈ s.todo.head?, c.seqNum < e.seqNum) :
    s.insert c = { s with done := s.done.orderedInsert Before c } := by
  rw [insert, if_neg hnew]
  cases htodo : s.todo with
  | nil => rfl
  | cons e rest =>
    rw [htodo] at hbefore
    exact if_pos (hbefore e rfl)

section
variable (kept rest : List EventCtx)

/-- A registration in time is not seen by the pass, wherever that goes on. -/
theorem register_passed {kind : TimerKind} {delay : ℕ} (hr : s.register kind delay = some s')
    (hnew : s.nextSeqNum ∉ s.seqNums) (hbefore : ∀ e ∈ s.todo.head?, s.nextSeqNum < e.seqNum) :
    s'.todo = s.todo ∧ (TimerInv (s.passed kept rest) → TimerInv (s'.passed kept rest)) := by
  unfold register at hr
  split_ifs at hr with hdelay
  rw [Option.some.injEq, insert_eq hnew hbefore] at hr
  rw [← hr]
  refine ⟨rfl, fun h => ?_⟩
  have hperm := (List.perm_orderedInsert Before
    ⟨s.nextSeqNum, s.created, kind, delay / s.tick, 0⟩ s.done).append_right kept
  exact h.register hperm rfl (Nat.div_pos hdelay s.tick_pos) rfl _

theorem perform_passed {c : TimerCall} (hp : s.perform c = some s') (hc : CallInTime s c) :
    s'.todo = s.todo ∧ (TimerInv (s.passed kept rest) → TimerInv (s'.passed kept rest)) := by
  cases c with
  | setTimeout timeout => exact register_passed kept rest hp hc.1 hc.2
  | setInterval interval => exact register_passed kept rest hp hc.1 hc.2
  | signal event =>
    simp only [perform] at hp
    split_ifs at hp with hevent
    rw [← Option.some.inj hp]
    exact ⟨rfl, fun h => h.signal hevent⟩
  | elsewhere =>
    rw [← Option.some.inj hp]
    exact ⟨rfl, fun h => h.elsewhere _⟩

/-- The calls of a function, all in time. -/
theorem calls_passed {calls : List TimerCall} (hr : Lts.run perform s calls = some s')
    (hc : Lts.Along perform CallInTime s calls) :
    s'.todo = s.todo ∧ (TimerInv (s.passed kept rest) → TimerInv (s'.passed kept rest)) := by
  refine Lts.along_induct (P := fun s' => s'.todo = s.todo ∧
    (TimerInv (s.passed kept rest) → TimerInv (s'.passed kept rest))) ?_ calls ⟨rfl, id⟩ hr hc
  rintro t c t' ⟨htodo, hinv⟩ hc hp
  obtain ⟨htodo', hinv'⟩ := perform_passed kept rest hp hc
  exact ⟨htodo'.trans htodo, hinv' ∘ hinv⟩

end

/-- The call of a turn, if any. -/
def callOf (s : TimeEvent) (e : EventCtx) : List TimerObs :=
  if e.elapsed + 1 = e.ticks ∧ s.signaled e.event = false then [.called e.event s.mTicks] else []

/-- What a turn leaves of the event at the iterator. -/
def keptOf (s : TimeEvent) (e : EventCtx) : List EventCtx :=
  if e.elapsed + 1 = e.ticks then
    if s.signaled e.event = true ∨ e.kind = .timeout then [] else [{ e with elapsed := 0 }]
  else [{ e with elapsed := e.elapsed + 1 }]

/-- A turn, without the calls of the function. -/
def turned (s : TimeEvent) (e : EventCtx) (rest : List EventCtx) : TimeEvent :=
  { s with log := s.log ++ s.callOf e }.passed (s.keptOf e) rest

/-- The state of the timer `t` of the event at the iterator. -/
theorem TimerInv.head (h : TimerInv s) (htodo : s.todo = e :: rest) :
    ∃ m, s.mTicks = m + 1 ∧ e.Counts s.log m ∧ s.clock e.event = m ∧
      ∀ e' ∈ s.done ++ rest, e'.event ≠ e.event := by
  obtain ⟨m, hm⟩ := Nat.exists_eq_succ_of_ne_zero (h.running (by simp [htodo])).ne'
  have hmem : e ∈ s.todo := htodo ▸ List.mem_cons_self
  refine ⟨m, hm, by simpa [hm] using h.todo e hmem, ?_, fun e' he' heq => ?_⟩
  · rw [clock, if_pos (List.mem_map_of_mem hmem), hm, Nat.succ_sub_one]
  · have hnodup := h.nodup
    rw [events, htodo, List.map_append, List.map_cons, List.nodup_middle, ← List.map_append,
      List.nodup_cons] at hnodup
    exact hnodup.1 (heq ▸ List.mem_map_of_mem he')

theorem mem_callOf {o : TimerObs} : o ∈ s.callOf e ↔
    (e.elapsed + 1 = e.ticks ∧ s.signaled e.event = false) ∧ o = .called e.event s.mTicks := by
  rw [callOf]
  split_ifs with h <;> simp [h]

theorem keptOf_cases :
    (s.keptOf e).map (·.event) = [e.event] ∨
    (s.keptOf e).map (·.event) = [] ∧ e.elapsed + 1 = e.ticks ∧
      (s.signaled e.event = true ∨ e.kind = .timeout) := by
  rw [keptOf]
  split_ifs with hdue hgone
  · exact .inr ⟨rfl, hdue, hgone⟩
  · exact .inl rfl
  · exact .inl rfl

/-- What is left of an event has counted the tick. -/
theorem counts_of_mem_keptOf {log : List TimerObs} {m : ℕ} (h : e.Counts log m) {e' : EventCtx}
    (he' : e' ∈ s.keptOf e) : e'.Counts log (m + 1) := by
  obtain ⟨t, ht, hevent, hkind, hticks, hwaits, helapsed⟩ := h
  have hsucc := hwaits.elapsed_succ
  rw [← helapsed, hticks] at hsucc
  have hstart := Nat.le_succ_of_le hwaits.start
  unfold keptOf at he'
  split_ifs at he' with hdue hgone
  · exact absurd he' List.not_mem_nil
  · rw [if_pos hdue] at hsucc
    rw [List.mem_singleton.1 he']
    exact ⟨t, ht, hevent, hkind, hticks,
      ⟨hstart, hwaits.ticks, fun h => absurd (.inr (hkind ▸ h)) hgone⟩, hsucc.symm⟩
  · rw [if_neg hdue] at hsucc
    rw [List.mem_singleton.1 he']
    refine ⟨t, ht, hevent, hkind, hticks, ⟨hstart, hwaits.ticks, fun h => ?_⟩, hsucc.symm⟩
    have hlt := hwaits.timeout h
    rw [helapsed, hwaits.elapsed_of_timeout h, ← hticks] at hdue
    omega

theorem registered_turned {t : Timer} :
    .registered t ∈ (s.turned e rest).log ↔ .registered t ∈ s.log := by
  show _ ∈ s.log ++ s.callOf e ↔ _
  simp [mem_callOf]

theorem signaled_turned {event : ℕ} :
    .signaled event ∈ (s.turned e rest).log ↔ .signaled event ∈ s.log := by
  show _ ∈ s.log ++ s.callOf e ↔ _
  simp [mem_callOf]

/-- The timers of the other events are as before. -/
theorem turned_of_ne (htodo : s.todo = e :: rest) {event : ℕ} (hne : event ≠ e.event) :
    callsOf event (s.turned e rest).log = callsOf event s.log ∧
      (s.turned e rest).clock event = s.clock event := by
  constructor
  · show callsOf event (s.log ++ s.callOf e) = _
    have hnone : callsOf event (s.callOf e) = [] := callsOf_of_ne fun o ho => by
      rw [(mem_callOf.1 ho).2]
      exact hne.symm
    rw [callsOf_append, hnone, List.append_nil]
  · show (if event ∈ rest.map (·.event) then s.mTicks - 1 else s.mTicks) = _
    rw [clock, htodo, List.map_cons]
    simp only [List.mem_cons, hne, false_or]

/-- The timer of the event at the iterator has caught up with the tick. -/
theorem TimerInv.turned_head (h : TimerInv s) (htodo : s.todo = e :: rest) {t : Timer}
    (ht : .registered t ∈ s.log) (heq : t.event = e.event) :
    (callsOf t.event (s.turned e rest).log <+: t.due ((s.turned e rest).clock t.event)) ∧
      (.signaled t.event ∉ s.log →
        callsOf t.event (s.turned e rest).log = t.due ((s.turned e rest).clock t.event)) := by
  obtain ⟨m, hm, ⟨t₀, ht₀, hevent, -, hticks, hwaits, helapsed⟩, hclock, hne⟩ := h.head htodo
  obtain rfl : t = t₀ := h.unique t t₀ ht ht₀ (heq.trans hevent.symm)
  have hclock' : (s.turned e rest).clock t.event = m + 1 := by
    rw [← hm, clock]
    refine if_neg fun hin => ?_
    obtain ⟨e', he', heq'⟩ := List.mem_map.1 hin
    exact hne e' (List.mem_append_right _ he') (heq'.trans heq)
  rw [hclock']
  show callsOf t.event (s.log ++ s.callOf e) <+: _ ∧ (_ → callsOf t.event (s.log ++ s.callOf e) = _)
  rw [← heq] at hclock
  by_cases hsig : .signaled t.event ∈ s.log
  · have hnone : s.callOf e = [] := by
      rw [callOf, if_neg]
      rw [← heq, ← Bool.not_eq_true, h.flag]
      exact fun hcall => hcall.2 hsig
    refine ⟨?_, fun hn => absurd hsig hn⟩
    rw [hnone, List.append_nil]
    exact (hclock ▸ h.onTime.calls t ht).trans (Timer.due_mono (Nat.le_succ m))
  · have hflag : s.signaled e.event = false := by
      rw [← Bool.not_eq_true, h.flag, ← heq]
      exact hsig
    have hcalls : callsOf t.event (s.log ++ s.callOf e) = t.due (m + 1) := by
      rw [callsOf_append, h.onTime.all t ht hsig, hclock, hwaits.due_succ, ← helapsed, hticks,
        callOf, hflag, hm, heq]
      simp only [and_true]
      split_ifs
      · simp [callsOf]
      · rfl
    exact ⟨hcalls ▸ List.prefix_refl _, fun _ => hcalls⟩

/-- Timers are on time after a turn. -/
theorem OnTime.turned (h : TimerInv s) (htodo : s.todo = e :: rest) :
    (s.turned e rest).OnTime := by
  constructor
  case calls =>
    intro t ht
    rw [registered_turned] at ht
    by_cases heq : t.event = e.event
    · exact (h.turned_head htodo ht heq).1
    · rw [(turned_of_ne htodo heq).1, (turned_of_ne htodo heq).2]
      exact h.onTime.calls t ht
  case all =>
    intro t ht hsig
    rw [registered_turned] at ht
    rw [signaled_turned] at hsig
    by_cases heq : t.event = e.event
    · exact (h.turned_head htodo ht heq).2 hsig
    · rw [(turned_of_ne htodo heq).1, (turned_of_ne htodo heq).2]
      exact h.onTime.all t ht hsig
  case signaled =>
    refine List.pairwise_append.2 ⟨h.onTime.signaled, ?_, fun o ho o' ho' event tick => ?_⟩
    · rw [callOf]
      split_ifs <;> simp
    · obtain ⟨⟨-, hflag⟩, rfl⟩ := mem_callOf.1 ho'
      rintro rfl heq
      rw [TimerObs.called.injEq] at heq
      rw [heq.1, ← Bool.not_eq_true, h.flag] at hflag
      exact hflag ho

/-- A turn keeps the events, or erases the one at the iterator. -/
theorem events_turned (htodo : s.todo = e :: rest) :
    (s.turned e rest).events.Sublist s.events := by
  show ((s.done ++ s.keptOf e ++ rest).map (·.event)).Sublist _
  rw [events, htodo]
  simp only [List.map_append, List.map_cons, List.append_assoc]
  refine List.Sublist.append_left ?_ _
  rcases keptOf_cases (s := s) (e := e) with hkept | ⟨hkept, -⟩
  · rw [hkept]
    exact List.Sublist.refl _
  · rw [hkept]
    exact List.sublist_cons_self _ _

/-- The event that is erased, unless it is signaled, is that of a timeout which
    has fired. -/
theorem TimerInv.fired_turned (h : TimerInv s) (htodo : s.todo = e :: rest) {t : Timer}
    (ht : .registered t ∈ s.log) (hsig : .signaled t.event ∉ s.log) (hin : t.event ∈ s.events)
    (hnot : t.event ∉ (s.turned e rest).events) :
    t.kind = .timeout ∧ t.start + t.ticks ≤ s.mTicks := by
  obtain ⟨m, hm, ⟨t₀, ht₀, hevent₀, hkind, hticks, hwaits, helapsed⟩, -, -⟩ := h.head htodo
  have hgone : t.event = e.event ∧ t.event ∉ (s.keptOf e).map (·.event) := by
    change t.event ∉ (s.done ++ s.keptOf e ++ rest).map (·.event) at hnot
    rw [events, htodo] at hin
    simp only [List.map_append, List.map_cons, List.mem_append, List.mem_cons] at hin hnot
    tauto
  obtain ⟨hevent, hgone⟩ := hgone
  rcases keptOf_cases (s := s) (e := e) with hkept | ⟨-, hdue, hflag⟩
  · rw [hkept, hevent] at hgone
    exact absurd (List.mem_singleton.2 rfl) hgone
  · obtain rfl : t = t₀ := h.unique t t₀ ht ht₀ (hevent.trans hevent₀.symm)
    have htimeout : t.kind = .timeout := hkind.trans (hflag.resolve_left fun hin => by
      rw [h.flag, ← hevent] at hin
      exact hsig hin)
    rw [helapsed, hwaits.elapsed_of_timeout htimeout, ← hticks] at hdue
    have hstart := hwaits.start
    exact ⟨htimeout, by omega⟩

/-- **A turn** of the loop keeps the invariant. -/
theorem TimerInv.turned (h : TimerInv s) (htodo : s.todo = e :: rest) :
    TimerInv (s.turned e rest) := by
  obtain ⟨m, hm, hcounts, -, -⟩ := h.head htodo
  have hlog : s.log ⊆ (s.turned e rest).log := List.subset_append_left _ _
  have hevents := events_turned htodo
  constructor
  case onTime => exact .turned h htodo
  case done =>
    intro e' he'
    rcases List.mem_append.1 he' with hold | hkept
    · exact (h.done e' hold).mono hlog
    · show e'.Counts (s.log ++ s.callOf e) s.mTicks
      rw [hm]
      exact (counts_of_mem_keptOf hcounts hkept).mono hlog
  case todo => exact fun e' he' => (h.todo e' (htodo ▸ List.mem_cons_of_mem _ he')).mono hlog
  case running => exact fun _ => h.running (by simp [htodo])
  case nodup => exact hevents.nodup h.nodup
  case fired =>
    intro t ht hsig hnot
    have hreg : .registered t ∈ s.log := registered_turned.1 ht
    have hsig' : .signaled t.event ∉ s.log := fun hin => hsig (hlog hin)
    by_cases hin : t.event ∈ s.events
    · exact h.fired_turned htodo hreg hsig' hin hnot
    · exact h.fired t hreg hsig' hin
  case unique =>
    intro t t' ht ht'
    exact h.unique t t' (registered_turned.1 ht) (registered_turned.1 ht')
  case created =>
    intro o ho
    rcases List.mem_append.1 ho with ho | ho
    · exact h.created o ho
    · rw [(mem_callOf.1 ho).2]
      exact h.lt_created (mem_events.2 (.inr (htodo ▸ List.mem_cons_self)))
  case flag =>
    intro event
    rw [signaled_turned]
    exact h.flag event

theorem turned_of_called (hdue : e.elapsed + 1 = e.ticks) (hflag : s.signaled e.event = false) :
    s.turned e rest = (s.calling e rest).passed (s.keptOf e) rest := by
  rw [turned, callOf, if_pos ⟨hdue, hflag⟩]
  rfl

/-- One turn of the loop takes one event, whatever the function registers in
    time. -/
theorem visit_turned {calls : List TimerCall} (htodo : s.todo = e :: rest)
    (hv : s.visit calls = some s') (hc : InTime s (.visit calls)) :
    s'.todo = rest ∧ (TimerInv (s.turned e rest) → TimerInv s') := by
  simp only [visit, htodo] at hv
  split_ifs at hv with hdue hflag hcalls hcalls
  · -- signaled
    have hturned : s.turned e rest = { s with todo := rest } := by
      simp [turned, passed, callOf, keptOf, hdue, hflag]
    rw [← Option.some.inj hv, hturned]
    exact ⟨rfl, id⟩
  · -- called
    obtain ⟨t, hrun, heq⟩ := Option.map_eq_some_iff.1 hv
    obtain ⟨htail, hinv⟩ := calls_passed (s.keptOf e) rest hrun (hc e rest htodo)
    rw [Bool.not_eq_true] at hflag
    have hs' : s' = t.passed (s.keptOf e) rest := by
      have hrest : t.todo.tail = rest := by rw [htail]; rfl
      rw [← heq, hrest]
      cases hkind : e.kind <;> simp [passed, keptOf, hdue, hflag, hkind]
    rw [hs', turned_of_called hdue hflag]
    exact ⟨rfl, hinv⟩
  · -- not due
    have hturned : s.turned e rest =
        { s with done := s.done ++ [{ e with elapsed := e.elapsed + 1 }], todo := rest } := by
      simp [turned, passed, callOf, keptOf, hdue]
    rw [← Option.some.inj hv, hturned]
    exact ⟨rfl, id⟩

/-- **A step** whose registrations are in time keeps the invariant. -/
theorem TimerInv.step {a : TimerAct} (h : TimerInv s) (hc : InTime s a)
    (ha : step s a = some s') : TimerInv s' := by
  cases a with
  | tick =>
    simp only [TimeEvent.step] at ha
    split_ifs at ha with htodo
    rw [← Option.some.inj ha]
    exact h.tick htodo
  | visit calls =>
    cases htodo : s.todo with
    | nil => simp [TimeEvent.step, visit, htodo] at ha
    | cons e rest => exact (visit_turned htodo ha hc).2 (h.turned htodo)
  | call c =>
    simp only [TimeEvent.step] at ha
    split_ifs at ha with htodo
    have hid (s : TimeEvent) (hs : s.todo = []) : s.passed [] [] = s := by
      rw [passed, List.append_nil, ← hs]
    obtain ⟨htodo', hinv⟩ := perform_passed [] [] ha hc
    rw [hid s htodo, hid s' (htodo'.trans htodo)] at hinv
    exact hinv h

/-- The pass that a state belongs to ends. -/
theorem passEnds (s : TimeEvent) : PassEnds s where
  turns visits := by
    induction visits generalizing s with
    | nil => exact fun s' hr _ => by rw [← Option.some.inj hr]; rfl
    | cons calls visits ih =>
      intro s' hr hc
      obtain ⟨t, ht, hr⟩ := Option.bind_eq_some_iff.1 hr
      have hlen := ih t s' hr (hc.2 t ht)
      cases htodo : s.todo with
      | nil => simp [TimeEvent.step, visit, htodo] at ht
      | cons e rest =>
        rw [(visit_turned htodo ht hc.1).1] at hlen
        rw [List.length_cons, List.length_cons, ← hlen, Nat.add_assoc]
  goes htodo := by
    obtain ⟨e, rest, htodo⟩ := List.exists_cons_of_ne_nil htodo
    simp only [TimeEvent.step, visit, htodo, if_true, Lts.run_nil, Option.map_some]
    split_ifs <;> exact ⟨_, rfl⟩

end

/-- **Timers fire on their ticks, and every pass ends**, in every run whose
    registrations are in time. -/
theorem onTime_of_inTime (tick : ℕ) (h : 0 < tick) (nextSeqNum : UInt64) (as : List TimerAct)
    (hc : Lts.Along step InTime (init tick h nextSeqNum) as) :
    Lts.Always step (fun s => OnTime s ∧ PassEnds s) (init tick h nextSeqNum) as :=
  Lts.always_of_along (fun s hinv => ⟨hinv.onTime, passEnds s⟩)
    (fun _ _ _ hinv hc ha => TimerInv.step hinv hc ha) as (timerInv_init tick h nextSeqNum) hc

/-- A timeout of two ticks and an interval of one, which is cancelled by the
    function of the timeout. -/
def cancelling : List TimerAct :=
  [.call (.setTimeout 20), .call (.setInterval 10), .tick, .visit [], .visit [], .tick,
    .visit [.signal 1], .visit []]

theorem onTime_of_inTime_cancelling :
    Lts.Along step InTime (init 10 (by decide) 0) cancelling ∧
      Lts.Always step (fun s => OnTime s ∧ PassEnds s) (init 10 (by decide) 0) cancelling := by
  have hc : Lts.Along step InTime (init 10 (by decide) 0) cancelling := by decide
  exact ⟨hc, onTime_of_inTime 10 (by decide) 0 cancelling hc⟩

/-- **Not in time**: a timeout of one tick that the function of another one
    registers at the first tick is called at that tick, not at the second. -/
theorem not_onTime_registeredByTimer :
    ¬ Lts.Always step (fun s => OnTime s ∧ PassEnds s) (init 1 (by decide) 0)
      [.call (.setTimeout 1), .tick, .visit [.setTimeout 1], .visit []] := by
  intro h
  have hlast := ((((h.2 _ rfl).2 _ rfl).2 _ rfl).2 _ rfl).1.all ⟨1, .timeout, 1, 1⟩
    (by decide) (by decide)
  revert hlast
  decide

/-! ## Functions that register timers -/

/-- A pass over a single timeout of one tick, whose function registers another. -/
structure Registering (s : TimeEvent) : Prop where
  done : s.done = []
  todo : ∃ c : EventCtx, s.todo = [c] ∧ c.kind = .timeout ∧ c.ticks = 1 ∧ c.elapsed = 0 ∧
    c.seqNum < s.nextSeqNum
  signaled : ∀ event, s.signaled event = false

theorem insert_after {s : TimeEvent} {c c' : EventCtx} (hdone : s.done = []) (htodo : s.todo = [c])
    (hlt : c.seqNum < c'.seqNum) : s.insert c' = { s with todo := [c, c'] } := by
  have hnot : ¬ c'.seqNum ≤ c.seqNum := UInt64.not_le.2 hlt
  have hne : c'.seqNum ≠ c.seqNum := fun heq => hnot (heq ▸ UInt64.le_refl _)
  simp [insert, seqNums, hdone, htodo, hne, Before, hnot, UInt64.le_of_lt hlt]

theorem setTimeout_after {s : TimeEvent} {c : EventCtx} (hdone : s.done = []) (htodo : s.todo = [c])
    (hlt : c.seqNum < s.nextSeqNum) :
    s.perform (.setTimeout s.tick) = some { s with
      todo := [c, ⟨s.nextSeqNum, s.created, .timeout, 1, 0⟩]
      nextSeqNum := s.nextSeqNum + 1
      created := s.created + 1
      log := s.log ++ [.registered ⟨s.created, .timeout, 1, s.mTicks⟩] } := by
  rw [perform, register, if_pos (Nat.le_refl _), Nat.div_self s.tick_pos]
  refine congrArg some (insert_after ?_ ?_ ?_)
  · exact hdone
  · exact htodo
  · exact hlt

/-- The new event comes after the iterator: the pass is where it was. -/
theorem Registering.visit {s : TimeEvent} (h : Registering s)
    (hnext : s.nextSeqNum < s.nextSeqNum + 1) :
    ∃ s', s.visit [.setTimeout s.tick] = some s' ∧ Registering s' ∧ s'.tick = s.tick ∧
      s'.nextSeqNum = s.nextSeqNum + 1 := by
  obtain ⟨c, htodo, hkind, hticks, helapsed, hseq⟩ := h.todo
  have hcall := setTimeout_after (s := s.calling c []) h.done rfl hseq
  change (s.calling c []).perform (.setTimeout s.tick) = _ at hcall
  simp only [TimeEvent.visit, htodo]
  rw [if_pos (by rw [helapsed, hticks]), if_neg (by rw [h.signaled]; exact Bool.false_ne_true),
    Lts.run_cons, hcall, hkind]
  exact ⟨_, rfl, ⟨h.done, ⟨_, rfl, rfl, rfl, rfl, hnext⟩, h.signaled⟩, rfl, rfl⟩

/-- **A pass that goes on**: as long as `kNextSeqNum` does not wrap around, a
    function that registers its timer anew is called again and again. -/
theorem Registering.run : ∀ (n : ℕ) {s : TimeEvent}, Registering s →
    s.nextSeqNum.toNat + n < 2 ^ 64 →
      ∃ s', Lts.run step s (List.replicate n (.visit [.setTimeout s.tick])) = some s' ∧
        Registering s'
  | 0, s, h, _ => ⟨s, rfl, h⟩
  | n + 1, s, h, hn => by
    have hsucc : (s.nextSeqNum + 1).toNat = s.nextSeqNum.toNat + 1 := by
      rw [UInt64.toNat_add]
      exact Nat.mod_eq_of_lt (by show _ + 1 < _; omega)
    have hnext : s.nextSeqNum < s.nextSeqNum + 1 := by
      rw [UInt64.lt_iff_toNat_lt, hsucc]
      exact Nat.lt_succ_self _
    obtain ⟨t, ht, hreg, htick, hseq⟩ := h.visit hnext
    obtain ⟨s', hs', hreg'⟩ := Registering.run n hreg (by rw [hseq, hsucc]; omega)
    refine ⟨s', ?_, hreg'⟩
    rw [List.replicate_succ, Lts.run_cons, show step s (.visit [.setTimeout s.tick]) = _ from ht]
    rw [htick] at hs'
    exact hs'

theorem registering_init {tick : ℕ} (h : 0 < tick) :
    ∃ s, Lts.run step (init tick h 0) [.call (.setTimeout tick), .tick] = some s ∧
      Registering s ∧ s.tick = tick ∧ s.nextSeqNum = 1 := by
  have hcall : step (init tick h 0) (.call (.setTimeout tick)) = some { init tick h 0 with
      nextSeqNum := 1
      created := 1
      done := [⟨0, 0, .timeout, 1, 0⟩]
      log := [.registered ⟨0, .timeout, 1, 0⟩] } := by
    simp [step, perform, register, init, insert, seqNums, Nat.div_self h]
  have hseq : (0 : UInt64) < 1 := by decide
  rw [Lts.run_cons, hcall]
  exact ⟨_, rfl, ⟨rfl, ⟨_, rfl, rfl, rfl, rfl, hseq⟩, fun _ => rfl⟩, rfl, rfl⟩

/-- **A pass of any length**, up to the range of `kNextSeqNum`: the function of
    a timeout of one tick sets the same timeout again. -/
theorem pass_goes_on {tick : ℕ} (h : 0 < tick) {n : ℕ} (hn : n + 1 < 2 ^ 64) :
    ∃ s, Lts.run step (init tick h 0)
      ([.call (.setTimeout tick), .tick] ++ List.replicate n (.visit [.setTimeout tick])) = some s ∧
      s.todo ≠ [] := by
  obtain ⟨s, hs, hreg, htick, hseq⟩ := registering_init h
  obtain ⟨s', hs', hreg'⟩ := hreg.run n (by rw [hseq]; show 1 + n < _; omega)
  refine ⟨s', ?_, ?_⟩
  · rw [Lts.run_append, hs, ← htick]
    exact hs'
  · obtain ⟨c, htodo, -⟩ := hreg'.todo
    rw [htodo]
    exact List.cons_ne_nil _ _

end TimeEvent

end RdmaCore

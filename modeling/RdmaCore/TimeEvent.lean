/-
  Timers (`TimeEvent` of include/util/time_event.h).

  A tick starts a pass over `m_events`, which counts the ticks of every event
  and calls the functions of those that are due.  A function may register
  further events while the iterator stands on its own; they are inserted by
  sequence number, so in general ahead of the iterator, and their first tick is
  the one of the running pass.

  * `OnTime`, `PassEnds`: what timers promise;
  * `InTime`: no registration falls ahead of the iterator;
  * `Timer.Waits.due_succ`: what one more tick makes due.

  The thread of the timer runs the passes; `set_timeout`, `set_interval` and
  `signal` are called between passes or by the functions.
-/
import RdmaCore.Lib.Lts
import Mathlib.Algebra.Order.Group.Nat
import Mathlib.Data.List.Sort
import Mathlib.Logic.Function.Basic

namespace RdmaCore

inductive TimerKind where
  /-- `set_timeout` -/
  | timeout
  /-- `set_interval` -/
  | interval
  deriving DecidableEq, Repr

/-- `event_ctx`; `event` is the number of the registration, which stands for its
    function and its `ManualEvent`. -/
structure EventCtx where
  seqNum : UInt64
  event : ℕ
  kind : TimerKind
  ticks : ℕ
  elapsed : ℕ
  deriving DecidableEq, Repr

/-- A registration: `start` is the number of ticks at that time. -/
structure Timer where
  event : ℕ
  kind : TimerKind
  ticks : ℕ
  start : ℕ
  deriving DecidableEq, Repr

/-- What is recorded of a run. -/
inductive TimerObs where
  | registered (t : Timer)
  | signaled (event : ℕ)
  | called (event tick : ℕ)
  deriving DecidableEq, Repr

structure TimeEvent where
  /-- `m_tick`, in nanoseconds; the constructor asserts that it is positive -/
  tick : ℕ
  tick_pos : 0 < tick
  /-- `kNextSeqNum` -/
  nextSeqNum : UInt64
  mTicks : ℕ := 0
  /-- the events of `m_events` before the iterator -/
  done : List EventCtx := []
  /-- the others, from the iterator on; none while the thread waits -/
  todo : List EventCtx := []
  /-- `m_signaled` of the events -/
  signaled : ℕ → Bool := fun _ => false
  /-- how many events have been returned -/
  created : ℕ := 0
  log : List TimerObs := []

/-- The calls of a user; `cancel` does the same as `signal`. -/
inductive TimerCall where
  | setTimeout (timeout : ℕ)
  | setInterval (interval : ℕ)
  | signal (event : ℕ)
  /-- a registration with another timer, which shares `kNextSeqNum` -/
  | elsewhere
  deriving DecidableEq, Repr

inductive TimerAct where
  /-- `m_tick` is over: a pass starts -/
  | tick
  /-- one turn of the loop; if a function is called, it makes these calls -/
  | visit (calls : List TimerCall)
  /-- a call between two passes -/
  | call (c : TimerCall)
  deriving DecidableEq, Repr

namespace TimeEvent

/-- `operator<` of `event_ctx`, or equal -/
def Before (e e' : EventCtx) : Prop := e.seqNum ≤ e'.seqNum

instance : DecidableRel Before := fun e e' => inferInstanceAs (Decidable (e.seqNum ≤ e'.seqNum))

def seqNums (s : TimeEvent) : List UInt64 := (s.done ++ s.todo).map (·.seqNum)

/-- `m_events.insert`: nothing if the sequence number is in use; else the place
    is before or after the iterator. -/
def insert (s : TimeEvent) (c : EventCtx) : TimeEvent :=
  if c.seqNum ∈ s.seqNums then s
  else match s.todo with
    | [] => { s with done := s.done.orderedInsert Before c }
    | e :: _ =>
      if c.seqNum < e.seqNum then { s with done := s.done.orderedInsert Before c }
      else { s with todo := s.todo.orderedInsert Before c }

/-- `set_timeout` and `set_interval`; a delay below a tick fails the assertion. -/
def register (s : TimeEvent) (kind : TimerKind) (delay : ℕ) : Option TimeEvent :=
  if s.tick ≤ delay then
    let ticks := delay / s.tick
    let s' : TimeEvent := { s with
      nextSeqNum := s.nextSeqNum + 1
      created := s.created + 1
      log := s.log ++ [.registered ⟨s.created, kind, ticks, s.mTicks⟩] }
    some (s'.insert ⟨s.nextSeqNum, s.created, kind, ticks, 0⟩)
  else none

/-- A call of the user; only events that have been returned can be signaled. -/
def perform (s : TimeEvent) : TimerCall → Option TimeEvent
  | .setTimeout timeout => s.register .timeout timeout
  | .setInterval interval => s.register .interval interval
  | .signal event =>
    if event < s.created then some { s with
      signaled := Function.update s.signaled event true
      log := s.log ++ [.signaled event] }
    else none
  | .elsewhere => some { s with nextSeqNum := s.nextSeqNum + 1 }

/-- The state in which the function of the event `e` at the iterator runs. -/
def calling (s : TimeEvent) (e : EventCtx) (rest : List EventCtx) : TimeEvent :=
  { s with
    todo := { e with elapsed := e.elapsed + 1 } :: rest
    log := s.log ++ [.called e.event s.mTicks] }

/-- One turn of the loop over `m_events`. -/
def visit (s : TimeEvent) (calls : List TimerCall) : Option TimeEvent :=
  match s.todo with
  | [] => none
  | e :: rest =>
    if e.elapsed + 1 = e.ticks then
      if s.signaled e.event then
        -- `proc` returns without a call, and the event is erased
        if calls = [] then some { s with todo := rest } else none
      else
        (Lts.run perform (s.calling e rest) calls).map fun s =>
          match e.kind with
          | .timeout => { s with todo := s.todo.tail }
          | .interval =>
            { s with done := s.done ++ [{ e with elapsed := 0 }], todo := s.todo.tail }
    else if calls = [] then some
      { s with done := s.done ++ [{ e with elapsed := e.elapsed + 1 }], todo := rest }
    else none

def step (s : TimeEvent) : TimerAct → Option TimeEvent
  | .tick => if s.todo = [] then some { s with mTicks := s.mTicks + 1, todo := s.done, done := [] }
    else none
  | .visit calls => s.visit calls
  | .call c => if s.todo = [] then s.perform c else none

/-- A timer without events. -/
def init (tick : ℕ) (h : 0 < tick) (nextSeqNum : UInt64) : TimeEvent where
  tick := tick
  tick_pos := h
  nextSeqNum := nextSeqNum

end TimeEvent

/-! ## What timers promise -/

/-- The ticks up to `now` at which the function of a timer is to be called. -/
def Timer.due (t : Timer) (now : ℕ) : List ℕ :=
  match t.kind with
  | .timeout => if t.start + t.ticks ≤ now then [t.start + t.ticks] else []
  | .interval => (List.range ((now - t.start) / t.ticks)).map fun k => t.start + (k + 1) * t.ticks

/-- The ticks at which the function of an event was called. -/
def callsOf (event : ℕ) (log : List TimerObs) : List ℕ :=
  log.filterMap fun
    | .called e tick => if e = event then some tick else none
    | _ => none

namespace TimeEvent

/-- The last tick whose pass has dealt with an event. -/
def clock (s : TimeEvent) (event : ℕ) : ℕ :=
  if event ∈ s.todo.map (·.event) then s.mTicks - 1 else s.mTicks

/-- Timers fire on their ticks, all of them until they are signaled and none
    after. -/
structure OnTime (s : TimeEvent) : Prop where
  calls : ∀ t, .registered t ∈ s.log → callsOf t.event s.log <+: t.due (s.clock t.event)
  all : ∀ t, .registered t ∈ s.log → .signaled t.event ∉ s.log →
    callsOf t.event s.log = t.due (s.clock t.event)
  signaled : s.log.Pairwise fun o o' => ∀ event tick, o = .signaled event → o' ≠ .called event tick

/-- A registration gets a sequence number that is not in use, and not one ahead
    of the iterator. -/
def CallInTime (s : TimeEvent) : TimerCall → Prop
  | .signal _ => True
  | .elsewhere => True
  | _ => s.nextSeqNum ∉ s.seqNums ∧ ∀ e ∈ s.todo.head?, s.nextSeqNum < e.seqNum

/-- The registrations of a step, also those of a function that it calls, are in
    time. -/
def InTime (s : TimeEvent) : TimerAct → Prop
  | .tick => True
  | .call c => CallInTime s c
  | .visit calls => ∀ e rest, s.todo = e :: rest →
    Lts.Along perform CallInTime (s.calling e rest) calls

instance (s : TimeEvent) : DecidablePred (CallInTime s)
  | .signal _ => isTrue trivial
  | .elsewhere => isTrue trivial
  | .setTimeout _ => inferInstanceAs (Decidable (_ ∧ _))
  | .setInterval _ => inferInstanceAs (Decidable (_ ∧ _))

instance (s : TimeEvent) : DecidablePred (InTime s)
  | .tick => isTrue trivial
  | .call c => inferInstanceAs (Decidable (CallInTime s c))
  | .visit calls =>
    match h : s.todo with
    | [] => isTrue fun e rest he => by simp [h] at he
    | e :: rest => decidable_of_iff (Lts.Along perform CallInTime (s.calling e rest) calls)
      ⟨fun hc e' rest' he => by simp_all, fun hc => hc e rest h⟩

/-- A pass ends: each turn leaves one event less, and the next one is possible. -/
structure PassEnds (s : TimeEvent) : Prop where
  turns : ∀ (visits : List (List TimerCall)) s', Lts.run step s (visits.map .visit) = some s' →
    Lts.Along step InTime s (visits.map .visit) →
      s'.todo.length + visits.length = s.todo.length
  goes : s.todo ≠ [] → ∃ s', s.step (.visit []) = some s'

end TimeEvent

/-! ## Counting ticks -/

theorem mod_succ {k T : ℕ} (hT : 0 < T) : (k + 1) % T = if k % T + 1 = T then 0 else k % T + 1 := by
  have hlt := Nat.mod_lt k hT
  rw [← Nat.mod_add_mod]
  split_ifs with h
  · rw [h, Nat.mod_self]
  · exact Nat.mod_eq_of_lt (by omega)

theorem div_succ {k T : ℕ} (hT : 0 < T) :
    (k + 1) / T = if k % T + 1 = T then k / T + 1 else k / T := by
  have hdvd : T ∣ k + 1 ↔ k % T + 1 = T := by
    rw [Nat.dvd_iff_mod_eq_zero, mod_succ hT]
    split_ifs with h <;> simp [h]
  rw [Nat.succ_div]
  simp only [hdvd]
  split_ifs <;> rfl

namespace Timer

variable {t : Timer} {now : ℕ}

/-- The ticks counted since the registration, or since the last call. -/
def elapsed (t : Timer) (now : ℕ) : ℕ := (now - t.start) % t.ticks

/-- The timer is still waiting: a timeout was not yet due. -/
structure Waits (t : Timer) (now : ℕ) : Prop where
  start : t.start ≤ now
  ticks : 0 < t.ticks
  timeout : t.kind = .timeout → now - t.start < t.ticks

theorem Waits.elapsed_succ (h : t.Waits now) :
    t.elapsed (now + 1) = if t.elapsed now + 1 = t.ticks then 0 else t.elapsed now + 1 := by
  have hstart := h.start
  rw [elapsed, elapsed, show now + 1 - t.start = now - t.start + 1 by omega, mod_succ h.ticks]

theorem Waits.elapsed_of_timeout (h : t.Waits now) (hkind : t.kind = .timeout) :
    t.elapsed now = now - t.start :=
  Nat.mod_eq_of_lt (h.timeout hkind)

/-- **The next tick** is one more at which the timer is due exactly if it is the
    last one counted. -/
theorem Waits.due_succ (h : t.Waits now) :
    t.due (now + 1) = t.due now ++ if t.elapsed now + 1 = t.ticks then [now + 1] else [] := by
  obtain ⟨event, kind, ticks, start⟩ := t
  obtain ⟨hstart, hticks, htimeout⟩ := h
  dsimp only at hstart hticks htimeout
  show due _ (now + 1) = due _ now ++ if (now - start) % ticks + 1 = ticks then [now + 1] else []
  cases kind with
  | timeout =>
    have hlt := htimeout rfl
    have hmod : (now - start) % ticks = now - start := Nat.mod_eq_of_lt hlt
    simp only [due, hmod]
    rw [if_neg (by omega : ¬ start + ticks ≤ now), List.nil_append]
    split_ifs with h1 h2 h2
    · rw [show start + ticks = now + 1 by omega]
    · omega
    · omega
    · rfl
  | interval =>
    simp only [due, show now + 1 - start = now - start + 1 by omega, div_succ hticks]
    split_ifs with hlast
    · rw [List.range_succ, List.map_append, List.map_singleton]
      have hdiv := Nat.div_add_mod (now - start) ticks
      rw [Nat.mul_comm] at hdiv
      rw [Nat.succ_mul, show start + ((now - start) / ticks * ticks + ticks) = now + 1 by omega]
    · rw [List.append_nil]

/-- A timer starts with nothing counted, and nothing due. -/
theorem waits_start (h : 0 < t.ticks) : t.Waits t.start :=
  ⟨Nat.le_refl _, h, fun _ => by rwa [Nat.sub_self]⟩

theorem elapsed_start (t : Timer) : t.elapsed t.start = 0 := by
  rw [elapsed, Nat.sub_self, Nat.zero_mod]

theorem due_start (h : 0 < t.ticks) : t.due t.start = [] := by
  unfold due
  cases t.kind with
  | timeout => rw [if_neg (by omega)]
  | interval => rw [Nat.sub_self, Nat.zero_div, List.range_zero, List.map_nil]

theorem due_of_timeout (hkind : t.kind = .timeout) (h : t.start + t.ticks ≤ now) :
    t.due now = [t.start + t.ticks] := by
  rw [due, hkind]
  exact if_pos h

theorem due_mono {now' : ℕ} (h : now ≤ now') : t.due now <+: t.due now' := by
  unfold due
  cases t.kind with
  | timeout =>
    dsimp only
    split_ifs with hnow hnow'
    · exact List.prefix_refl _
    · omega
    · exact List.nil_prefix
    · exact List.nil_prefix
  | interval =>
    obtain ⟨d, hd⟩ := Nat.exists_eq_add_of_le
      (Nat.div_le_div_right (c := t.ticks) (Nat.sub_le_sub_right h t.start))
    dsimp only
    rw [hd, List.range_add, List.map_append]
    exact List.prefix_append _ _

end Timer

/-- An event of `m_events` has counted the ticks of its registration up to
    `now`. -/
def EventCtx.Counts (e : EventCtx) (log : List TimerObs) (now : ℕ) : Prop :=
  ∃ t : Timer, .registered t ∈ log ∧ t.event = e.event ∧ t.kind = e.kind ∧ t.ticks = e.ticks ∧
    t.Waits now ∧ e.elapsed = t.elapsed now

theorem EventCtx.Counts.mono {e : EventCtx} {log log' : List TimerObs} {now : ℕ}
    (h : e.Counts log now) (hlog : log ⊆ log') : e.Counts log' now := by
  obtain ⟨t, ht, hrest⟩ := h
  exact ⟨t, hlog ht, hrest⟩

/-- The event that an observation is about. -/
def TimerObs.event : TimerObs → ℕ
  | registered t => t.event
  | signaled event => event
  | called event _ => event

section
variable {log log' : List TimerObs} {event : ℕ}

theorem callsOf_append : callsOf event (log ++ log') = callsOf event log ++ callsOf event log' :=
  List.filterMap_append

theorem callsOf_append_singleton {o : TimerObs} (h : ∀ tick, o ≠ .called event tick) :
    callsOf event (log ++ [o]) = callsOf event log := by
  rw [callsOf_append]
  cases o with
  | registered t => exact List.append_nil _
  | signaled e => exact List.append_nil _
  | called e tick =>
    have hne : e ≠ event := by
      rintro rfl
      exact h tick rfl
    simp [callsOf, hne]

theorem callsOf_of_ne (h : ∀ o ∈ log, o.event ≠ event) : callsOf event log = [] := by
  refine List.filterMap_eq_nil_iff.2 fun o ho => ?_
  cases o with
  | registered t => rfl
  | signaled e => rfl
  | called e tick => exact if_neg (h _ ho)

end

end RdmaCore

/-
  Two programs at the ends of a reliable connection, with send queues, receive
  queues and completion queues.

  A request that is posted leaves the send queue when it reaches the other
  end, and is reported to its poster later.  A message takes a receive of the
  other end and completes there too; other requests (one-sided ones) are seen
  by their poster only.  Before they start, the programs may wait for each
  other's signal.

  * `Weight.total_step`: what a step adds to a weighted count of the operations
    to run, the requests under way and the completions;
  * `Weight.Falls.total_le`, `Weight.Keeps.total_eq`: local conditions on the
    weights under which only the operations performed change the count, or
    under which nothing else adds to it.
-/
import Mathlib.Algebra.BigOperators.Group.List.Basic
import Mathlib.Algebra.Order.BigOperators.Group.List
import Mathlib.Algebra.Order.Group.Int
import Mathlib.Algebra.Ring.Int.Defs
import Mathlib.Logic.Function.Basic
import Mathlib.Tactic.Common

namespace Conduit

variable {O K : Type}

/-- What an operation does to the connection. -/
inductive Effect (K : Type) where
  | silent
  | post (k : K)
  | recv
  | signal
  | await
  /-- only a completion makes the end go on -/
  | poll

/-- A completion: of an own request, or of a receive by a message of the other end. -/
inductive Completion (K : Type) where
  | sent (k : K)
  | received (k : K)
  deriving DecidableEq

/-- One end. -/
structure End (O K : Type) where
  /-- what is left of the program -/
  todo : List O
  /-- posted, and not at the other end -/
  sq : List K := []
  /-- at the other end, and not reported -/
  acks : List K := []
  /-- completions not handled -/
  cq : List (Completion K) := []
  /-- receives posted and not taken -/
  rq : ℕ := 0

structure State (O K : Type) where
  side : Bool → End O K
  /-- signals of an end that the other has not seen -/
  signals : Bool → ℕ := fun _ => 0

/-- The programs: what their operations do, and how an end goes on after a completion. -/
structure Program (O K : Type) where
  effect : O → Effect K
  /-- the request is a message -/
  message : K → Bool
  /-- `Handle x todo c todo'`: with `todo` left, end `x` takes `c` and goes on with `todo'` -/
  Handle : Bool → List O → Completion K → List O → Prop

namespace State

def set (s : State O K) (x : Bool) (e : End O K) : State O K :=
  { s with side := Function.update s.side x e }

def setSignals (s : State O K) (x : Bool) (n : ℕ) : State O K :=
  { s with signals := Function.update s.signals x n }

variable (s : State O K) (x : Bool) (e : End O K) (n : ℕ)

@[simp] theorem set_side_self : (s.set x e).side x = e := Function.update_self ..

@[simp] theorem set_side_not : (s.set x e).side (!x) = s.side (!x) :=
  Function.update_of_ne (Bool.not_ne_self x) ..

@[simp] theorem set_not_side : (s.set (!x) e).side x = s.side x :=
  Function.update_of_ne (Bool.self_ne_not x) ..

@[simp] theorem set_side : s.set x (s.side x) = s := by simp [set]

@[simp] theorem set_set (e' : End O K) : (s.set x e).set x e' = s.set x e' := by simp [set]

@[simp] theorem set_signals : (s.set x e).signals = s.signals := rfl

@[simp] theorem setSignals_side : (s.setSignals x n).side = s.side := rfl

@[simp] theorem setSignals_self : (s.setSignals x n).signals x = n := Function.update_self ..

@[simp] theorem setSignals_not : (s.setSignals x n).signals (!x) = s.signals (!x) :=
  Function.update_of_ne (Bool.not_ne_self x) ..

@[simp] theorem setSignals_of_not : (s.setSignals (!x) n).signals x = s.signals x :=
  Function.update_of_ne (Bool.self_ne_not x) ..

/-- The state after an operation of end `x`. -/
def apply (x : Bool) (todo : List O) : Effect K → State O K
  | .silent => s.set x { s.side x with todo }
  | .post k => s.set x { s.side x with todo, sq := (s.side x).sq ++ [k] }
  | .recv => s.set x { s.side x with todo, rq := (s.side x).rq + 1 }
  | .signal => (s.set x { s.side x with todo }).setSignals x (s.signals x + 1)
  | .await => (s.set x { s.side x with todo }).setSignals (!x) (s.signals (!x) - 1)
  | .poll => s

end State

/-- What a step does. -/
inductive Label (O K : Type) where
  | op (x : Bool) (o : O)
  | handle (x : Bool) (todo : List O) (c : Completion K) (todo' : List O)
  | deliver (x : Bool) (k : K)
  | report (x : Bool) (k : K)

inductive Step (P : Program O K) : State O K → Label O K → State O K → Prop where
  | op {s : State O K} {x : Bool} {o : O} {todo : List O} (h : (s.side x).todo = o :: todo)
      (hs : P.effect o = .await → 0 < s.signals (!x)) (hp : P.effect o ≠ .poll) :
      Step P s (.op x o) (s.apply x todo (P.effect o))
  | handle {s : State O K} {x : Bool} {c : Completion K} {cq : List (Completion K)}
      {todo : List O} (hq : (s.side x).cq = c :: cq) (h : P.Handle x (s.side x).todo c todo) :
      Step P s (.handle x (s.side x).todo c todo) (s.set x { s.side x with todo, cq })
  | message {s : State O K} {x : Bool} {k : K} {sq : List K} (hq : (s.side x).sq = k :: sq)
      (hk : P.message k = true) (hr : 0 < (s.side (!x)).rq) :
      Step P s (.deliver x k)
        ((s.set x { s.side x with sq, acks := (s.side x).acks ++ [k] }).set (!x)
          { s.side (!x) with
            rq := (s.side (!x)).rq - 1
            cq := (s.side (!x)).cq ++ [.received k] })
  | oneSided {s : State O K} {x : Bool} {k : K} {sq : List K} (hq : (s.side x).sq = k :: sq)
      (hk : P.message k = false) :
      Step P s (.deliver x k) (s.set x { s.side x with sq, acks := (s.side x).acks ++ [k] })
  | report {s : State O K} {x : Bool} {k : K} {acks : List K} (ha : (s.side x).acks = k :: acks) :
      Step P s (.report x k)
        (s.set x { s.side x with acks, cq := (s.side x).cq ++ [.sent k] })

/-- Some step. -/
def Steps (P : Program O K) (s s' : State O K) : Prop := ∃ l, Step P s l s'

/-! ## Weighted counts -/

/-- The sum of the weights of a list. -/
def sumOf {α : Type} (f : α → ℤ) (l : List α) : ℤ := (l.map f).sum

section
variable {α : Type} (f : α → ℤ) (a : α) (k l : List α)

@[simp] theorem sumOf_nil : sumOf f [] = 0 := rfl

@[simp] theorem sumOf_cons : sumOf f (a :: l) = f a + sumOf f l := by simp [sumOf]

@[simp] theorem sumOf_append : sumOf f (k ++ l) = sumOf f k + sumOf f l := by simp [sumOf]

@[simp] theorem sumOf_replicate (n : ℕ) : sumOf f (List.replicate n a) = n * f a := by
  simp [sumOf]

@[simp] theorem sumOf_const (c : ℤ) : sumOf (fun _ => c) l = l.length * c := by simp [sumOf]

variable {f l}

theorem sumOf_congr {g : α → ℤ} (h : ∀ a ∈ l, f a = g a) : sumOf f l = sumOf g l :=
  congrArg List.sum (List.map_congr_left h)

/-- The sum after one of its terms has changed. -/
theorem sumOf_update {g : α → ℤ} (hl : l.Nodup) {a : α} (ha : a ∈ l)
    (h : ∀ b, b ≠ a → g b = f b) : sumOf g l = sumOf f l - f a + g a := by
  induction l with
  | nil => cases ha
  | cons b l ih =>
    obtain ⟨hb, hl⟩ := List.nodup_cons.1 hl
    rw [sumOf_cons, sumOf_cons]
    by_cases hab : b = a
    · subst hab
      rw [sumOf_congr fun c hc => h c fun he => hb (he ▸ hc)]
      omega
    · rw [ih hl ((List.mem_cons.1 ha).resolve_left (Ne.symm hab)), h b hab]
      omega

theorem sumOf_nonneg (h : ∀ a, 0 ≤ f a) : 0 ≤ sumOf f l :=
  List.sum_nonneg fun b hb => by
    obtain ⟨a, -, rfl⟩ := List.mem_map.1 hb
    exact h a

end

/-- What the parts of a state count.  An operation counts as what it puts into
    the queues, and `extra`. -/
structure Weight (O K : Type) where
  sq : Bool → K → ℤ
  ack : Bool → K → ℤ
  sent : Bool → K → ℤ
  received : Bool → K → ℤ
  rq : Bool → ℤ := fun _ => 0
  signal : Bool → ℤ := fun _ => 0
  extra : Bool → O → ℤ := fun _ _ => 0

namespace Weight

variable (w : Weight O K) (P : Program O K)

def completion (x : Bool) : Completion K → ℤ
  | .sent k => w.sent x k
  | .received k => w.received x k

/-- What an operation puts into the queues. -/
def effect (x : Bool) : Effect K → ℤ
  | .silent => 0
  | .post k => w.sq x k
  | .recv => w.rq x
  | .signal => w.signal x
  | .await => -w.signal (!x)
  | .poll => 0

def op (x : Bool) (o : O) : ℤ := w.effect x (P.effect o) + w.extra x o

def ofEnd (x : Bool) (e : End O K) : ℤ :=
  sumOf (w.op P x) e.todo + sumOf (w.sq x) e.sq + sumOf (w.ack x) e.acks +
    sumOf (w.completion x) e.cq + e.rq * w.rq x

def total (s : State O K) : ℤ :=
  w.ofEnd P true (s.side true) + s.signals true * w.signal true +
    (w.ofEnd P false (s.side false) + s.signals false * w.signal false)

theorem total_eq (s : State O K) (x : Bool) :
    w.total P s = w.ofEnd P x (s.side x) + s.signals x * w.signal x +
      (w.ofEnd P (!x) (s.side (!x)) + s.signals (!x) * w.signal (!x)) := by
  cases x
  · rw [total, Bool.not_false]; omega
  · rfl

/-- What a step adds to the count. -/
def gain : Label O K → ℤ
  | .op x o => -w.extra x o
  | .handle x todo c todo' => sumOf (w.op P x) todo' - sumOf (w.op P x) todo - w.completion x c
  | .deliver x k =>
    w.ack x k + (if P.message k then w.received (!x) k - w.rq (!x) else 0) - w.sq x k
  | .report x k => w.sent x k - w.ack x k

variable {w P} {s s' : State O K} {l : Label O K}

/-- **The count changes by what the step adds.** -/
theorem total_step (hs : Step P s l s') : w.total P s' = w.total P s + w.gain P l := by
  cases hs with
  | @op x o todo h hs hp =>
    have hend : w.ofEnd P x (s.side x) = w.op P x o + w.ofEnd P x { s.side x with todo } := by
      simp only [ofEnd, h, sumOf_cons]; omega
    rw [w.total_eq P s x, w.total_eq P _ x, hend, gain, op]
    cases he : P.effect o with
    | silent =>
      simp only [State.apply, State.set_side_self, State.set_side_not, State.set_signals, effect]
      omega
    | post k =>
      simp only [State.apply, State.set_side_self, State.set_side_not, State.set_signals, ofEnd,
        effect, sumOf_append, sumOf_cons, sumOf_nil]
      omega
    | recv =>
      simp only [State.apply, State.set_side_self, State.set_side_not, State.set_signals, ofEnd,
        effect, Nat.cast_succ, Int.add_mul]
      omega
    | signal =>
      simp only [State.apply, State.setSignals_side, State.set_side_self, State.set_side_not,
        State.setSignals_self, State.setSignals_not, State.set_signals, effect, Nat.cast_succ,
        Int.add_mul]
      omega
    | await =>
      have hpos := hs he
      simp only [State.apply, State.setSignals_side, State.set_side_self, State.set_side_not,
        State.setSignals_self, State.setSignals_of_not, State.set_signals, effect,
        Nat.cast_pred hpos, Int.sub_mul]
      omega
    | poll => exact absurd he hp
  | @handle x c cq todo hq h =>
    rw [w.total_eq P s x, w.total_eq P _ x, gain]
    simp only [State.set_side_self, State.set_side_not, State.set_signals, ofEnd, hq, sumOf_cons]
    omega
  | @message x k sq hq hk hr =>
    rw [w.total_eq P s x, w.total_eq P _ x, gain, if_pos hk]
    simp only [State.set_side_self, State.set_not_side, State.set_signals, ofEnd, hq, sumOf_cons,
      sumOf_append, sumOf_nil, completion, Nat.cast_pred hr, Int.sub_mul]
    omega
  | @oneSided x k sq hq hk =>
    rw [w.total_eq P s x, w.total_eq P _ x, gain, if_neg (by simp [hk])]
    simp only [State.set_side_self, State.set_side_not, State.set_signals, ofEnd, hq, sumOf_cons,
      sumOf_append, sumOf_nil]
    omega
  | @report x k acks ha =>
    rw [w.total_eq P s x, w.total_eq P _ x, gain]
    simp only [State.set_side_self, State.set_side_not, State.set_signals, ofEnd, ha, sumOf_cons,
      sumOf_append, sumOf_nil, completion]
    omega

/-- What a step takes out of the count by performing an operation. -/
def spent : Label O K → ℤ
  | .op x o => w.extra x o
  | .handle .. => 0
  | .deliver .. => 0
  | .report .. => 0

/-- Apart from the operations, no part of a step adds to the count. -/
structure Falls (P : Program O K) (w : Weight O K) : Prop where
  handle : ∀ x todo c todo', P.Handle x todo c todo' →
    sumOf (w.op P x) todo' ≤ sumOf (w.op P x) todo + w.completion x c
  message : ∀ x k, P.message k = true → w.ack x k + w.received (!x) k ≤ w.sq x k + w.rq (!x)
  oneSided : ∀ x k, P.message k = false → w.ack x k ≤ w.sq x k
  report : ∀ x k, w.sent x k ≤ w.ack x k

theorem Falls.total_le (h : w.Falls P) (hs : Step P s l s') :
    w.total P s' + w.spent l ≤ w.total P s := by
  rw [total_step hs]
  suffices w.gain P l + w.spent l ≤ 0 by omega
  cases hs with
  | op => rw [gain, spent]; omega
  | handle hq hh => have := h.handle _ _ _ _ hh; rw [gain, spent]; omega
  | @message x k _ _ hk => have := h.message x k hk; rw [gain, spent, if_pos hk]; omega
  | @oneSided x k _ _ hk =>
    have := h.oneSided x k hk; rw [gain, spent, if_neg (by simp [hk])]; omega
  | @report x k => have := h.report x k; rw [gain, spent]; omega

/-- Apart from the operations, the parts of a step cancel out. -/
structure Keeps (P : Program O K) (w : Weight O K) : Prop where
  handle : ∀ x todo c todo', P.Handle x todo c todo' →
    sumOf (w.op P x) todo' = sumOf (w.op P x) todo + w.completion x c
  message : ∀ x k, P.message k = true → w.ack x k + w.received (!x) k = w.sq x k + w.rq (!x)
  oneSided : ∀ x k, P.message k = false → w.ack x k = w.sq x k
  report : ∀ x k, w.sent x k = w.ack x k

theorem Keeps.total_eq (h : w.Keeps P) (hs : Step P s l s') :
    w.total P s' + w.spent l = w.total P s := by
  rw [total_step hs]
  suffices w.gain P l + w.spent l = 0 by omega
  cases hs with
  | op => rw [gain, spent]; omega
  | handle hq hh => have := h.handle _ _ _ _ hh; rw [gain, spent]; omega
  | @message x k _ _ hk => have := h.message x k hk; rw [gain, spent, if_pos hk]; omega
  | @oneSided x k _ _ hk =>
    have := h.oneSided x k hk; rw [gain, spent, if_neg (by simp [hk])]; omega
  | @report x k => have := h.report x k; rw [gain, spent]; omega

end Weight

end Conduit

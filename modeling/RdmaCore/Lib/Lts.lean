/-
  Transition systems given by a partial step function, their runs, and the
  rules used to prove facts about every run.

  * `Reachable.induct`: a predicate that holds initially and is preserved by
    every step holds in every reachable state;
  * `always_iff_along`: if a step keeps `Q` exactly when it meets the
    condition `C` (as long as an invariant of the `C`-steps holds), then `Q`
    holds in all states of a run iff all steps of the run meet `C`.
-/
import Mathlib.Data.Option.Basic
import Mathlib.Tactic.Common

namespace Lts

variable {S A : Type} (step : S → A → Option S)

/-- The state after a list of actions; `none` if one of them is not possible. -/
def run : S → List A → Option S
  | s, [] => some s
  | s, a :: as => (step s a).bind fun s' => run s' as

@[simp] theorem run_nil (s : S) : run step s [] = some s := rfl

@[simp] theorem run_cons (s : S) (a : A) (as : List A) :
    run step s (a :: as) = (step s a).bind fun s' => run step s' as := rfl

theorem run_append (s : S) (as bs : List A) :
    run step s (as ++ bs) = (run step s as).bind fun s' => run step s' bs := by
  induction as generalizing s with
  | nil => rfl
  | cons a as ih =>
    simp only [List.cons_append, run_cons, Option.bind_assoc]
    congr 1; funext s'; exact ih s'

/-- For steps that fail with an error. -/
theorem toOption_eq_some {E : Type} {x : Except E S} {s : S} : x.toOption = some s ↔ x = .ok s := by
  cases x with
  | error e => exact ⟨nofun, nofun⟩
  | ok t => exact ⟨fun h => congrArg _ (Option.some.inj h), fun h => h ▸ rfl⟩

/-- The states some run from `s₀` ends in. -/
def Reachable (s₀ s : S) : Prop := ∃ as, run step s₀ as = some s

variable {step}

theorem Reachable.refl (s : S) : Reachable step s s := ⟨[], rfl⟩

theorem Reachable.tail {s₀ s s' : S} {a : A} (h : Reachable step s₀ s) (ha : step s a = some s') :
    Reachable step s₀ s' := by
  obtain ⟨as, has⟩ := h
  exact ⟨as ++ [a], by simp [run_append, has, ha]⟩

theorem Reachable.head {s s' s'' : S} {a : A} (ha : step s a = some s')
    (h : Reachable step s' s'') : Reachable step s s'' := by
  obtain ⟨as, has⟩ := h
  exact ⟨a :: as, by rw [run_cons, ha]; exact has⟩

theorem Reachable.trans {s s' s'' : S} (h : Reachable step s s') (h' : Reachable step s' s'') :
    Reachable step s s'' := by
  obtain ⟨as, has⟩ := h
  obtain ⟨bs, hbs⟩ := h'
  exact ⟨as ++ bs, by rw [run_append, has]; exact hbs⟩

/-- A run that can be evaluated reaches its last state. -/
theorem Reachable.of_any {s₀ : S} {as : List A} {p : S → Bool} (h : (run step s₀ as).any p = true) :
    ∃ s, Reachable step s₀ s ∧ p s = true := by
  obtain ⟨s, hs, hp⟩ := (Option.any_eq_true _ _).1 h
  exact ⟨s, ⟨as, hs⟩, hp⟩

/-- A predicate of the initial state that every step preserves holds at the
    end of every run. -/
theorem run_induct {P : S → Prop} (hstep : ∀ s a s', P s → step s a = some s' → P s') :
    ∀ (as : List A) {s s' : S}, P s → run step s as = some s' → P s'
  | [], s, s', h, hr => by simp only [run_nil, Option.some.injEq] at hr; exact hr ▸ h
  | a :: as, s, s', h, hr => by
    simp only [run_cons, Option.bind_eq_some_iff] at hr
    obtain ⟨t, ht, hr⟩ := hr
    exact run_induct hstep as (hstep s a t h ht) hr

/-- **Invariants.** -/
theorem Reachable.induct {P : S → Prop} {s₀ s : S} (h : Reachable step s₀ s) (h₀ : P s₀)
    (hstep : ∀ s a s', P s → step s a = some s' → P s') : P s := by
  obtain ⟨as, has⟩ := h
  exact run_induct hstep as h₀ has

/-! ## Properties of whole runs -/

variable (step)

/-- `Q` holds in every state the run passes through. -/
def Always (Q : S → Prop) : S → List A → Prop
  | s, [] => Q s
  | s, a :: as => Q s ∧ ∀ s', step s a = some s' → Always Q s' as

/-- Every step of the run meets the condition `C` in the state it starts from. -/
def Along (C : S → A → Prop) : S → List A → Prop
  | _, [] => True
  | s, a :: as => C s a ∧ ∀ s', step s a = some s' → Along C s' as

instance decidableAlong (C : S → A → Prop) [∀ s a, Decidable (C s a)] :
    ∀ (s : S) (as : List A), Decidable (Along step C s as)
  | _, [] => isTrue trivial
  | s, a :: as =>
    match h : step s a with
    | none => decidable_of_iff (C s a) (by simp [Along, h])
    | some s' =>
      have := decidableAlong C s' as
      decidable_of_iff (C s a ∧ Along step C s' as) (by simp [Along, h])

variable {step}

/-- A condition on the actions alone. -/
theorem along_iff_forall {C : A → Prop} {s s' : S} {as : List A} (hr : run step s as = some s') :
    Along step (fun _ a => C a) s as ↔ ∀ a ∈ as, C a := by
  induction as generalizing s with
  | nil => simp [Along]
  | cons a as ih =>
    simp only [run_cons, Option.bind_eq_some_iff] at hr
    obtain ⟨t, ht, hr⟩ := hr
    simp only [Along, ht, Option.some.injEq, forall_eq', ih hr, List.forall_mem_cons]

/-- The steps that meet `C` preserve `P`: so does a run all of whose steps meet it. -/
theorem along_induct {P : S → Prop} {C : S → A → Prop}
    (hstep : ∀ s a s', P s → C s a → step s a = some s' → P s') :
    ∀ (as : List A) {s s' : S}, P s → run step s as = some s' → Along step C s as → P s'
  | [], s, s', h, hr, _ => by simp only [run_nil, Option.some.injEq] at hr; exact hr ▸ h
  | a :: as, s, s', h, hr, hc => by
    simp only [run_cons, Option.bind_eq_some_iff] at hr
    obtain ⟨t, ht, hr⟩ := hr
    exact along_induct hstep as (hstep s a t h hc.1 ht) hr (hc.2 t ht)

/-- If the steps that meet `C` preserve `P`, and `P` implies `Q`, then a run
    all of whose steps meet `C` stays in `Q`. -/
theorem always_of_along {P Q : S → Prop} {C : S → A → Prop} (hPQ : ∀ s, P s → Q s)
    (hstep : ∀ s a s', P s → C s a → step s a = some s' → P s') :
    ∀ (as : List A) {s : S}, P s → Along step C s as → Always step Q s as
  | [], s, h, _ => hPQ s h
  | a :: as, s, h, hc =>
    ⟨hPQ s h, fun s' hs' => always_of_along hPQ hstep as (hstep s a s' h hc.1 hs') (hc.2 s' hs')⟩

/-- If the steps that meet `C` preserve `P`, `P` implies `Q`, and a step from
    a `P`-state to a `Q`-state meets `C`, then a run stays in `Q` exactly when
    all its steps meet `C`. -/
theorem always_iff_along {P Q : S → Prop} {C : S → A → Prop} (hPQ : ∀ s, P s → Q s)
    (hgood : ∀ s a s', P s → step s a = some s' → C s a → P s')
    (hbad : ∀ s a s', P s → step s a = some s' → Q s' → C s a) :
    ∀ (as : List A) {s s' : S}, P s → run step s as = some s' →
      (Always step Q s as ↔ Along step C s as)
  | [], s, _, h, _ => by simp only [Always, Along, iff_true]; exact hPQ s h
  | a :: as, s, s', h, hr => by
    simp only [run_cons, Option.bind_eq_some_iff] at hr
    obtain ⟨t, ht, hr⟩ := hr
    have ht' : ∀ s', step s a = some s' ↔ s' = t := by
      intro s'; rw [ht]; simp [eq_comm]
    simp only [Always, Along, ht', forall_eq, hPQ s h, true_and]
    constructor
    · intro hal
      have hq : Q t := by cases as <;> [exact hal; exact hal.1]
      have hc := hbad s a t h ht hq
      exact ⟨hc, (always_iff_along hPQ hgood hbad as (hgood s a t h ht hc) hr).1 hal⟩
    · rintro ⟨hc, hal⟩
      exact (always_iff_along hPQ hgood hbad as (hgood s a t h ht hc) hr).2 hal

/-- A predicate that a step never restores: it holds all along a run if it holds at its end. -/
theorem always_iff_of_last {Q : S → Prop} (hback : ∀ s a s', step s a = some s' → Q s' → Q s)
    {s s' : S} {as : List A} (hr : run step s as = some s') : Always step Q s as ↔ Q s' := by
  induction as generalizing s with
  | nil =>
    obtain rfl := Option.some.inj hr
    exact Iff.rfl
  | cons a as ih =>
    rw [run_cons, Option.bind_eq_some_iff] at hr
    obtain ⟨t, ht, hr⟩ := hr
    have hiff := ih hr
    rw [Always]
    constructor
    · rintro ⟨-, hal⟩
      exact hiff.1 (hal t ht)
    · intro hq
      have hal := hiff.2 hq
      have hfirst : Q t := by
        cases as with
        | nil => exact hal
        | cons b as => exact hal.1
      refine ⟨hback s a t ht hfirst, fun t' ht' => ?_⟩
      rwa [← Option.some.inj (ht.symm.trans ht')]

end Lts

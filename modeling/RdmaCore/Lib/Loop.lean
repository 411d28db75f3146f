/-
  While loops that read one input in every turn.

  * `EndsIn`: the loop is left in a state after finitely many turns, on some
    inputs that are followed by one and the same input for ever;
  * `Counting.ends_iff`: a loop that counts its positive inputs up to a bound,
    and does nothing on 0, ends exactly if the inputs reach the bound.
-/
import Mathlib.Algebra.Order.BigOperators.Group.List
import Mathlib.Algebra.Order.Group.Int
import Mathlib.Algebra.Ring.Int.Defs
import Mathlib.Tactic.Common

namespace Loop

variable {S A E : Type} (cond : S → Bool) (body : S → A → Except E S)

/-- `while (cond) body`; `none` if the inputs are used up before the loop is
    left. -/
def exec : S → List A → Except E (Option S)
  | s, [] => .ok (if cond s then none else some s)
  | s, a :: as => if cond s then (body s a).bind fun s' => exec s' as else .ok (some s)

/-- The loop is left in `s'`, on the inputs `as` followed by `z` as often as
    needed. -/
def EndsIn (as : List A) (z : A) (s s' : S) : Prop :=
  ∃ n, exec cond body s (as ++ List.replicate n z) = .ok (some s')

variable {cond body} {a z : A} {as : List A} {s s' : S}

theorem exec_of_false (h : cond s = false) (as : List A) : exec cond body s as = .ok (some s) := by
  cases as with
  | nil => simp [exec, h]
  | cons a as => simp [exec, h]

/-- The loop goes on for ever once a turn changes nothing. -/
theorem exec_replicate (hcond : cond s = true) (hbody : body s z = .ok s) (n : ℕ) :
    exec cond body s (List.replicate n z) = .ok none := by
  induction n with
  | zero => simp [exec, hcond]
  | succ n ih => simp [List.replicate_succ, exec, hcond, hbody, Except.bind, ih]

theorem EndsIn.of_false (h : cond s = false) (as : List A) (z : A) : EndsIn cond body as z s s :=
  ⟨0, exec_of_false h _⟩

theorem endsIn_cons {t : S} (hcond : cond s = true) (hbody : body s a = .ok t) :
    EndsIn cond body (a :: as) z s s' ↔ EndsIn cond body as z t s' := by
  simp only [EndsIn, List.cons_append, exec, hcond, hbody, if_true, Except.bind]

theorem not_endsIn_nil (hcond : cond s = true) (hbody : body s z = .ok s) :
    ¬ EndsIn cond body [] z s s' := by
  rintro ⟨n, hn⟩
  rw [List.nil_append, exec_replicate hcond hbody] at hn
  cases hn

/-! ## Loops that count -/

/-- The loop goes on while `count` is below `bound`; a positive input is added
    to it, and 0 changes nothing. -/
structure Counting (cond : S → Bool) (body : S → ℤ → Except E S) (Inv : S → Prop) (count : S → ℤ)
    (bound : ℤ) : Prop where
  cond_iff : ∀ s, Inv s → (cond s = true ↔ count s < bound)
  more : ∀ s a, Inv s → 0 < a → ∃ s', body s a = .ok s' ∧ Inv s' ∧ count s' = count s + a
  zero : ∀ s, Inv s → body s 0 = .ok s

section
variable {cond : S → Bool} {body : S → ℤ → Except E S} {Inv : S → Prop} {count : S → ℤ} {bound : ℤ}

/-- **What is left of the inputs decides** whether the loop ends. -/
theorem Counting.ends_iff (h : Counting cond body Inv count bound) {as : List ℤ}
    (hpos : ∀ a ∈ as, 0 < a) (hs : Inv s) :
    (∃ s', EndsIn cond body as 0 s s') ↔ bound ≤ count s + as.sum := by
  induction as generalizing s with
  | nil =>
    rw [List.sum_nil, add_zero]
    by_cases hc : cond s = true
    · have hlt := (h.cond_iff s hs).1 hc
      constructor
      · rintro ⟨s', he⟩
        exact absurd he (not_endsIn_nil hc (h.zero s hs))
      · intro hle
        omega
    · have hge := mt (h.cond_iff s hs).2 hc
      exact ⟨fun _ => by omega, fun _ => ⟨s, EndsIn.of_false (Bool.eq_false_of_not_eq_true hc) _ _⟩⟩
  | cons a as ih =>
    have ha := hpos a List.mem_cons_self
    have has : ∀ a ∈ as, 0 < a := fun a ha => hpos a (List.mem_cons_of_mem _ ha)
    rw [List.sum_cons]
    by_cases hc : cond s = true
    · obtain ⟨t, hbody, ht, hcount⟩ := h.more s a hs ha
      simp only [endsIn_cons hc hbody, ih has ht, hcount]
      omega
    · have hge := mt (h.cond_iff s hs).2 hc
      have hsum : 0 ≤ as.sum := List.sum_nonneg fun a ha => (has a ha).le
      exact ⟨fun _ => by omega, fun _ => ⟨s, EndsIn.of_false (Bool.eq_false_of_not_eq_true hc) _ _⟩⟩

end

end Loop

/-
  Windows over a ring of `k` slots that are used in turn: turn `i` uses slot
  `i % k`.

  `slots k q p` are the slots of the turns `q, …, p - 1`, oldest first.  While
  there are less than `k` of them the next turn finds its slot free
  (`next_notMem`), and while there are at most `k` the end of the oldest turn
  frees its slot (`oldest_notMem`).
-/
import Mathlib.Data.List.Basic
import Mathlib.Data.Nat.ModEq
import Mathlib.Tactic.Common

namespace Window

/-- The slots of the turns `q, …, p - 1`. -/
def slots (k q p : ℕ) : List ℕ := (List.range' q (p - q)).map (· % k)

variable {k q p : ℕ}

@[simp] theorem length_slots : (slots k q p).length = p - q := by simp [slots]

@[simp] theorem slots_self (k q : ℕ) : slots k q q = [] := by simp [slots]

theorem mem_slots {j : ℕ} : j ∈ slots k q p ↔ ∃ i, q ≤ i ∧ i < p ∧ i % k = j := by
  simp only [slots, List.mem_map, List.mem_range'_1]
  constructor
  · rintro ⟨i, ⟨hq, hp⟩, rfl⟩
    exact ⟨i, hq, by omega, rfl⟩
  · rintro ⟨i, hq, hp, rfl⟩
    exact ⟨i, ⟨hq, by omega⟩, rfl⟩

/-- One more turn at the end. -/
theorem slots_succ (h : q ≤ p) : slots k q (p + 1) = slots k q p ++ [p % k] := by
  rw [slots, Nat.succ_sub h, List.range'_1_concat, List.map_append, Nat.add_sub_cancel' h]
  rfl

/-- The oldest turn. -/
theorem slots_eq_cons (h : q < p) : slots k q p = q % k :: slots k (q + 1) p := by
  rw [slots, show p - q = p - (q + 1) + 1 by omega, List.range'_succ, List.map_cons]
  rfl

/-- Turns less than `k` apart have different slots. -/
theorem mod_ne_mod {i j : ℕ} (hij : i < j) (hjk : j < i + k) : i % k ≠ j % k := by
  intro h
  have hdvd : k ∣ j - i := (Nat.modEq_iff_dvd' hij.le).1 h
  have hle := Nat.le_of_dvd (by omega) hdvd
  omega

/-- A turn finds its slot free if the window is not full. -/
theorem next_notMem (h : p < q + k) : p % k ∉ slots k q p := by
  intro hp
  obtain ⟨i, hq, hi, he⟩ := mem_slots.1 hp
  exact mod_ne_mod hi (by omega) he

/-- The slot of the oldest turn is used once. -/
theorem oldest_notMem (h : p ≤ q + k) : q % k ∉ slots k (q + 1) p := by
  intro hq
  obtain ⟨i, hi, hp, he⟩ := mem_slots.1 hq
  exact mod_ne_mod (Nat.lt_of_succ_le hi) (by omega) he.symm

/-- The slots after one more turn. -/
theorem mem_slots_succ {j : ℕ} (h : q ≤ p) : j ∈ slots k q (p + 1) ↔ j ∈ slots k q p ∨ j = p % k := by
  rw [slots_succ h, List.mem_append, List.mem_singleton]

/-- The slots after the end of the oldest turn. -/
theorem mem_slots_tail {j : ℕ} (hq : q < p) (h : p ≤ q + k) :
    j ∈ slots k (q + 1) p ↔ j ∈ slots k q p ∧ j ≠ q % k := by
  rw [slots_eq_cons hq, List.mem_cons]
  constructor
  · intro hj
    exact ⟨Or.inr hj, fun he => oldest_notMem h (he ▸ hj)⟩
  · rintro ⟨hj | hj, hne⟩
    · exact absurd hj hne
    · exact hj

end Window

/-
  Texts built from decimal numbers and separators, and how to take them apart
  again.

  * `split_sep`: the text before the first separator is determined;
  * `decimal_inj`: a number is determined by its decimal text;
  * `decimal_sep_inj`: both at once, for a number followed by a separator.
-/
import Mathlib.Data.List.Basic
import Mathlib.Tactic.Common
import Mathlib.Tactic.IntervalCases

namespace Text

/-- A text without the separator `c` in front of one is determined. -/
theorem split_sep {c : Char} :
    ∀ {a a' b b' : List Char}, a ++ c :: b = a' ++ c :: b' → c ∉ a → c ∉ a' → a = a' ∧ b = b'
  | [], [], _, _, h, _, _ => ⟨rfl, (List.cons.inj h).2⟩
  | [], x :: a', _, _, h, _, h' => by
    obtain ⟨rfl, -⟩ := List.cons.inj h
    exact absurd List.mem_cons_self h'
  | x :: a, [], _, _, h, ha, _ => by
    obtain ⟨rfl, -⟩ := List.cons.inj h
    exact absurd List.mem_cons_self ha
  | x :: a, y :: a', _, _, h, ha, ha' => by
    obtain ⟨rfl, hr⟩ := List.cons.inj h
    obtain ⟨rfl, hb⟩ := split_sep hr (fun hm => ha (List.mem_cons_of_mem _ hm))
      (fun hm => ha' (List.mem_cons_of_mem _ hm))
    exact ⟨rfl, hb⟩

/-- The decimal text of a number (`std::to_string`, `%d`). -/
def decimal (n : ℕ) : List Char := (toString n).toList

theorem decimal_eq (n : ℕ) : decimal n = Nat.toDigits 10 n := by
  rw [decimal, Nat.toString_eq_ofList_toDigits, String.toList_ofList]

theorem decimal_inj {m n : ℕ} (h : decimal m = decimal n) : m = n := by
  have hd : ∀ k, Nat.ofDigitChars 10 (decimal k) 0 = k := by
    intro k
    rw [decimal_eq]
    exact Nat.ofDigitChars_toDigits (by omega) (by omega)
  rw [← hd m, h, hd n]

theorem isDigit_of_mem_decimal {c : Char} {n : ℕ} (hc : c ∈ decimal n) : c.isDigit = true := by
  rw [decimal_eq] at hc
  exact Nat.isDigit_of_mem_toDigits (by omega) (by omega) hc

theorem not_mem_decimal {c : Char} (hc : c.isDigit = false) (n : ℕ) : c ∉ decimal n := by
  intro hm
  rw [isDigit_of_mem_decimal hm] at hc
  cases hc

theorem decimal_ne_nil (n : ℕ) : decimal n ≠ [] := by
  rw [decimal_eq]
  exact Nat.toDigits_ne_nil

/-- There is no leading zero. -/
theorem head_decimal {n : ℕ} (h : 0 < n) : (decimal n).head? ≠ some '0' := by
  induction n using Nat.strongRecOn with
  | ind n ih =>
    rw [decimal_eq]
    by_cases hn : n < 10
    · rw [Nat.toDigits_of_lt_base hn]
      interval_cases n <;> decide
    · rw [Nat.toDigits_of_base_le (by omega) (by omega), List.head?_append_of_ne_nil _
        Nat.toDigits_ne_nil, ← decimal_eq]
      exact ih (n / 10) (by omega) (by omega)

/-- A number and what follows its separator are determined. -/
theorem decimal_sep_inj {c : Char} {m n : ℕ} {b b' : List Char} (hc : c.isDigit = false)
    (h : decimal m ++ c :: b = decimal n ++ c :: b') : m = n ∧ b = b' := by
  obtain ⟨hd, hb⟩ := split_sep h (not_mem_decimal hc m) (not_mem_decimal hc n)
  exact ⟨decimal_inj hd, hb⟩

end Text

/-
  Byte memories: what `memcpy`, `memset` and loads do to a memory addressed
  by natural numbers, and the little-endian representation of unsigned
  integers.

  * `read_write`, `read_fill`, `read_write_of_le`: reading back what was
    written;
  * `leNat_leBytes`: an integer that fits into `n` bytes is read back from
    its little-endian bytes.
-/
import Mathlib.Data.List.Basic
import Mathlib.Data.List.TakeWhile
import Mathlib.Tactic.Common
import Mathlib.Tactic.Ring

/-- The contents of a memory. -/
abbrev ByteMem := ℕ → UInt8

namespace ByteMem

/-- The `len` bytes from address `a` on. -/
def read (m : ByteMem) (a len : ℕ) : List UInt8 := (List.range len).map fun i => m (a + i)

/-- `memcpy(a, data, data.length)`. -/
def write (m : ByteMem) (a : ℕ) (data : List UInt8) : ByteMem :=
  fun i => if a ≤ i then data[i - a]?.getD (m i) else m i

/-- `memset(a, c, len)`. -/
def fill (m : ByteMem) (a : ℕ) (c : UInt8) (len : ℕ) : ByteMem :=
  fun i => if a ≤ i ∧ i < a + len then c else m i

/-- The bytes before the first NUL among the `len` bytes from `a` on. -/
def cstr (m : ByteMem) (a len : ℕ) : List UInt8 := (m.read a len).takeWhile (· ≠ 0)

@[simp] theorem length_read (m : ByteMem) (a len : ℕ) : (m.read a len).length = len := by
  simp [read]

theorem getElem?_read (m : ByteMem) (a len i : ℕ) (h : i < len) :
    (m.read a len)[i]? = some (m (a + i)) := by
  simp [read, h]

theorem read_add (m : ByteMem) (a k l : ℕ) : m.read a (k + l) = m.read a k ++ m.read (a + k) l := by
  simp [read, List.range_add, Nat.add_assoc, Function.comp_def]

theorem take_read (m : ByteMem) (a : ℕ) {k len : ℕ} (h : k ≤ len) :
    (m.read a len).take k = m.read a k := by
  obtain ⟨l, rfl⟩ := Nat.exists_eq_add_of_le h
  rw [read_add, List.take_left' (length_read m a k)]

theorem read_write (m : ByteMem) (a : ℕ) (data : List UInt8) {k : ℕ} (h : k ≤ data.length) :
    (m.write a data).read a k = data.take k := by
  refine List.ext_getElem? fun i => ?_
  rcases Nat.lt_or_ge i k with hi | hi
  · rw [getElem?_read _ _ _ _ hi, List.getElem?_take_of_lt hi]
    simp [write, Nat.lt_of_lt_of_le hi h]
  · rw [List.getElem?_eq_none (by simpa using hi), List.getElem?_eq_none (by simp; omega)]

theorem read_write_self (m : ByteMem) (a : ℕ) (data : List UInt8) :
    (m.write a data).read a data.length = data := by
  rw [read_write _ _ _ (Nat.le_refl _), List.take_length]

/-- A write is not seen after its last byte. -/
theorem read_write_of_length_le (m : ByteMem) (a : ℕ) (data : List UInt8) {k : ℕ}
    (h : data.length ≤ k) :
    (m.write a data).read a k = data ++ (m.read a k).drop data.length := by
  obtain ⟨l, rfl⟩ := Nat.exists_eq_add_of_le h
  rw [read_add, read_write_self, read_add, List.drop_left' (length_read m a _)]
  refine congrArg _ (List.map_congr_left fun i _ => ?_)
  simp only [write, ite_eq_right_iff]
  intro _
  rw [List.getElem?_eq_none (by omega), Option.getD_none]

/-- A write is not seen before its first byte. -/
theorem read_write_of_le (m : ByteMem) (a : ℕ) (data : List UInt8) {b k : ℕ} (h : b + k ≤ a) :
    (m.write a data).read b k = m.read b k := by
  refine List.map_congr_left fun i hi => ?_
  rw [List.mem_range] at hi
  simp only [write, ite_eq_right_iff]
  omega

theorem read_fill (m : ByteMem) (a : ℕ) (c : UInt8) {len k : ℕ} (h : k ≤ len) :
    (m.fill a c len).read a k = List.replicate k c := by
  refine List.ext_getElem? fun i => ?_
  rcases Nat.lt_or_ge i k with hi | hi
  · rw [getElem?_read _ _ _ _ hi, List.getElem?_replicate, if_pos hi]
    simp only [fill, Option.some.injEq, ite_eq_left_iff, not_and, not_lt]
    omega
  · rw [List.getElem?_eq_none (by simpa using hi), List.getElem?_eq_none (by simpa using hi)]

/-- A text without NUL that is followed by NUL. -/
theorem cstr_eq {m : ByteMem} {a len : ℕ} {text rest : List UInt8} {k : ℕ} (hk : k ≤ len)
    (h : m.read a k = text ++ 0 :: rest) (ht : ∀ b ∈ text, b ≠ 0) : m.cstr a len = text := by
  obtain ⟨l, rfl⟩ := Nat.exists_eq_add_of_le hk
  rw [cstr, read_add, h, List.append_assoc, List.takeWhile_append_of_pos (by simpa using ht)]
  simp

theorem zero_mem_read {m : ByteMem} {a k : ℕ} : 0 ∈ m.read a k ↔ ∃ i < k, m (a + i) = 0 := by
  simp [read]

/-- A text that ends among bytes on which two memories agree. -/
theorem cstr_congr {m m' : ByteMem} {a k len : ℕ} (hk : k ≤ len) (h : m.read a k = m'.read a k)
    (h0 : 0 ∈ m.read a k) : m.cstr a len = m'.cstr a len := by
  obtain ⟨l, rfl⟩ := Nat.exists_eq_add_of_le hk
  have hstop : ∀ l' : List UInt8, (m.read a k ++ l').takeWhile (· ≠ 0) =
      (m.read a k).takeWhile (· ≠ 0) := by
    intro l'
    rw [List.takeWhile_append, if_neg]
    intro hlen
    have hall := List.takeWhile_eq_self_iff.1 ((List.takeWhile_sublist _).eq_of_length hlen)
    exact absurd (hall 0 h0) (by decide)
  rw [cstr, cstr, read_add, read_add, hstop, ← h, hstop]

/-- A text goes on as long as there is no NUL. -/
theorem le_length_cstr {m : ByteMem} {a k len : ℕ} (hk : k ≤ len) (h : 0 ∉ m.read a k) :
    k ≤ (m.cstr a len).length := by
  obtain ⟨l, rfl⟩ := Nat.exists_eq_add_of_le hk
  have hpos : ∀ b ∈ m.read a k, decide (b ≠ 0) = true :=
    fun b hb => decide_eq_true fun hb0 => h (hb0 ▸ hb)
  rw [cstr, read_add, List.takeWhile_append_of_pos hpos, List.length_append, length_read]
  omega

end ByteMem

/-! ## Little-endian integers -/

/-- The `n` low bytes of `x`, lowest first. -/
def leBytes : ℕ → ℕ → List UInt8
  | 0, _ => []
  | n + 1, x => UInt8.ofNat x :: leBytes n (x / 256)

/-- The integer with the given bytes, lowest first. -/
def leNat : List UInt8 → ℕ
  | [] => 0
  | b :: bs => b.toNat + 256 * leNat bs

@[simp] theorem length_leBytes (n x : ℕ) : (leBytes n x).length = n := by
  induction n generalizing x with
  | zero => rfl
  | succ n ih => simp [leBytes, ih]

theorem leNat_leBytes {n x : ℕ} (h : x < 256 ^ n) : leNat (leBytes n x) = x := by
  induction n generalizing x with
  | zero => simp only [pow_zero, Nat.lt_one_iff] at h; rw [h]; rfl
  | succ n ih =>
    have hx : x / 256 < 256 ^ n := Nat.div_lt_of_lt_mul (by rw [pow_succ'] at h; exact h)
    simp only [leBytes, leNat, ih hx]
    have : (UInt8.ofNat x).toNat = x % 256 := by simp
    omega

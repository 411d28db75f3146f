/-
  Sequences of writes to a byte memory.

  Each byte holds what the last write that covers it has put there, whatever
  the writes overlap (`writes_apply`); `write_fill` turns clearing a region and
  copying into its start into one write.
-/
import RdmaCore.Lib.Bytes
import Mathlib.Data.List.Induction

namespace ByteMem

/-- A write: the address and the bytes from there on. -/
abbrev Write := ℕ × List UInt8

namespace Write

/-- The write changes the byte at `a`. -/
def Covers (w : Write) (a : ℕ) : Prop := w.1 ≤ a ∧ a < w.1 + w.2.length

instance (w : Write) (a : ℕ) : Decidable (w.Covers a) := inferInstanceAs (Decidable (_ ∧ _))

/-- What the write puts at `a`. -/
def byteAt (w : Write) (a : ℕ) : UInt8 := w.2.getD (a - w.1) 0

end Write

/-- The memory after a list of writes. -/
def writes (m : ByteMem) (ws : List Write) : ByteMem := ws.foldl (fun m w => m.write w.1 w.2) m

/-- The last write that covers `a`. -/
def lastWrite (ws : List Write) (a : ℕ) : Option Write := ws.reverse.find? fun w => w.Covers a

theorem write_apply (m : ByteMem) (w : Write) (a : ℕ) :
    m.write w.1 w.2 a = if w.Covers a then w.byteAt a else m a := by
  by_cases hle : w.1 ≤ a
  · by_cases hlt : a < w.1 + w.2.length
    · have hget : w.2[a - w.1]? = some (w.2.get ⟨a - w.1, by omega⟩) :=
        List.getElem?_eq_getElem (by omega)
      rw [if_pos ⟨hle, hlt⟩, write, if_pos hle, Write.byteAt, List.getD_eq_getElem?_getD, hget]
      rfl
    · rw [if_neg (fun h => hlt h.2), write, if_pos hle, List.getElem?_eq_none (by omega)]
      rfl
  · rw [if_neg (fun h => hle h.1), write, if_neg hle]

/-- **The last write wins.** -/
theorem writes_apply (m : ByteMem) (ws : List Write) (a : ℕ) :
    m.writes ws a = ((lastWrite ws a).map (·.byteAt a)).getD (m a) := by
  induction ws using List.reverseRecOn with
  | nil => rfl
  | append_singleton ws w ih =>
    have hlast : lastWrite (ws ++ [w]) a = if w.Covers a then some w else lastWrite ws a := by
      by_cases h : w.Covers a <;> simp [lastWrite, h]
    rw [writes, List.foldl_append, List.foldl_cons, List.foldl_nil, write_apply, hlast]
    split_ifs with h
    · rfl
    · exact ih

@[simp] theorem write_nil (m : ByteMem) (a : ℕ) : m.write a [] = m := by
  funext i
  simp [write]

/-- The bytes that are zero after a part of the memory is cleared. -/
theorem fill_eq_zero_iff (m : ByteMem) (p n a : ℕ) :
    m.fill p 0 n a = 0 ↔ (¬ (p ≤ a ∧ a < p + n) → m a = 0) := by
  rw [fill]
  split_ifs with ha
  · exact ⟨fun _ hn => absurd ha hn, fun _ => rfl⟩
  · exact ⟨fun hm _ => hm, fun hm => hm ha⟩

/-- Clearing a region and copying to its start. -/
theorem write_fill (m : ByteMem) (a n : ℕ) {data : List UInt8} (h : data.length ≤ n) :
    (m.fill a 0 n).write a data = m.write a (data ++ List.replicate (n - data.length) 0) := by
  funext i
  by_cases hi : a ≤ i
  · simp only [write, fill, hi, true_and]
    rcases Nat.lt_or_ge (i - a) data.length with h1 | h1
    · rw [List.getElem?_append_left h1, List.getElem?_eq_getElem h1]
      rfl
    · rw [List.getElem?_append_right h1, List.getElem?_eq_none h1, List.getElem?_replicate]
      split_ifs <;> first | rfl | omega
  · have hlt : ¬ (a ≤ i ∧ i < a + n) := fun h => hi h.1
    simp only [write, fill, if_neg hi, if_neg hlt]

end ByteMem

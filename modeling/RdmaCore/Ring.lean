/-
  The round-robin law of the block ring (`next()` and `last()` of
  include/rdma_buffer.h), for call sequences of any length.

  The cursors are `int` counters that are incremented on every call and used
  modulo the number of blocks as `size_t`: call `n` of a cursor (from `0`)
  returns the block `cursorIndex k n`, whatever the other cursor does
  (`ringRun_eq`).  This is block `n mod k` as long as the counter has not
  become negative; `cursor_iff` says for how many calls it stays so.
-/
import RdmaCore.Buffer
import Mathlib.Tactic.NormNum

namespace RdmaCore

inductive RingCall where
  | next (on : Handle)
  | last (on : Handle)
  deriving DecidableEq, Repr

namespace RingCall

def isNext : RingCall → Bool
  | next _ => true
  | last _ => false

/-- The number of `next()` calls of a sequence. -/
def nexts (cs : List RingCall) : ℕ := cs.countP isNext

/-- The number of `last()` calls of a sequence. -/
def lasts (cs : List RingCall) : ℕ := cs.countP (!isNext ·)

variable (on : Handle) (cs : List RingCall)

@[simp] theorem nexts_next : nexts (next on :: cs) = nexts cs + 1 := List.countP_cons_of_pos rfl
@[simp] theorem nexts_last : nexts (last on :: cs) = nexts cs :=
  List.countP_cons_of_neg Bool.false_ne_true
@[simp] theorem lasts_next : lasts (next on :: cs) = lasts cs :=
  List.countP_cons_of_neg Bool.false_ne_true
@[simp] theorem lasts_last : lasts (last on :: cs) = lasts cs + 1 := List.countP_cons_of_pos rfl

theorem nexts_append_next : nexts (cs ++ [next on]) = nexts cs + 1 := by
  rw [nexts, List.countP_append]; rfl
theorem nexts_append_last : nexts (cs ++ [last on]) = nexts cs := by
  rw [nexts, List.countP_append]; rfl
theorem lasts_append_next : lasts (cs ++ [next on]) = lasts cs := by
  rw [lasts, List.countP_append]; rfl
theorem lasts_append_last : lasts (cs ++ [last on]) = lasts cs + 1 := by
  rw [lasts, List.countP_append]; rfl

end RingCall

/-- The indices returned by the `next()` calls and by the `last()` calls of a
    sequence, each in call order.  Base buffer and blocks have the same
    `base_buffer_`, so the object a call is made on makes no difference. -/
def ringRun : RDMABuffer → List RingCall → Except Fault (List ℕ × List ℕ)
  | _, [] => .ok ([], [])
  | base, .next _ :: cs => do
    let (base, index) ← base.next
    let (ns, ls) ← ringRun base cs
    pure (index :: ns, ls)
  | base, .last _ :: cs => do
    let (base, index) ← base.last
    let (ns, ls) ← ringRun base cs
    pure (ns, index :: ls)

/-- **The round-robin law** for a call sequence: the `i`-th `next()` and the
    `i`-th `last()` return block `(i - 1) mod k`. -/
def RoundRobin (base : RDMABuffer) (k : ℕ) (cs : List RingCall) : Prop :=
  ringRun base cs = .ok ((List.range (RingCall.nexts cs)).map (· % k),
    (List.range (RingCall.lasts cs)).map (· % k))

/-- The block returned by call `n` (from `0`) of a cursor. -/
def cursorIndex (k n : ℕ) : ℕ := toSize (BitVec.ofNat 32 n) % k

/-- How many calls of a cursor follow the law: all if the number of blocks
    divides `2^32`; otherwise those before the counter becomes negative, or
    before it returns to zero if the negative values happen to fit. -/
def CursorOk (k n : ℕ) : Prop := k ∣ 2 ^ 32 ∨ n ≤ 2 ^ 31 ∨ (n ≤ 2 ^ 32 ∧ k ∣ 2 ^ 64 - 2 ^ 32)

/-! ## The cursors -/

/-- A ring of `k` blocks after `p` calls of `next()` and `q` calls of `last()`. -/
structure Ring (k p q : ℕ) (base : RDMABuffer) : Prop where
  pos : 0 < k
  blocks : base.blocks = k
  length : base.bufferMgr.length = k
  nextActive : base.nextActive + 1 = BitVec.ofNat 32 p
  lastActive : base.lastActive + 1 = BitVec.ofNat 32 q

theorem ring_allocateBuffer {mem mem' : ByteMem} {ptr : ℕ} {b : UInt64} {k : UInt32} {info : String}
    {base : RDMABuffer} (h : RDMABuffer.allocateBuffer mem ptr b k info = .ok (base, mem')) :
    Ring k.toNat 0 0 base := by
  obtain ⟨rfl, hpos, -, -⟩ := RDMABuffer.allocateBuffer_ok h
  have ho := RDMABuffer.toBufferObj_construct ptr b k info
  refine ⟨?_, ?_, ?_, ?_, ?_⟩
  · refine Nat.pos_of_ne_zero fun hk => ?_
    rw [RDMABuffer.totalSize, hk] at hpos; simp at hpos
  · exact congrArg BufferObj.blocks ho
  · exact RDMABuffer.length_construct ptr b k info
  · rw [show _ = _ from congrArg BufferObj.nextActive ho]; simp [RDMABuffer.unsplit]
  · rw [show _ = _ from congrArg BufferObj.lastActive ho]; simp [RDMABuffer.unsplit]

theorem ofNat_succ (p : ℕ) : BitVec.ofNat 32 p + 1 = BitVec.ofNat 32 (p + 1) := by
  rw [BitVec.ofNat_add]; rfl

theorem Ring.next {k p q : ℕ} {base : RDMABuffer} (h : Ring k p q base) :
    ∃ base', base.next = .ok (base', cursorIndex k p) ∧ Ring k (p + 1) q base' := by
  obtain ⟨hpos, rfl, hlen, hn, hl⟩ := h
  have hlt : toSize (BitVec.ofNat 32 p) % base.blocks < base.bufferMgr.length := by
    rw [hlen]; exact Nat.mod_lt _ hpos
  simp only [RDMABuffer.next, hn, hlt, if_true]
  exact ⟨_, rfl, hpos, rfl, by simp [hlen], ofNat_succ p, hl⟩

theorem Ring.last {k p q : ℕ} {base : RDMABuffer} (h : Ring k p q base) :
    ∃ base', base.last = .ok (base', cursorIndex k q) ∧ Ring k p (q + 1) base' := by
  obtain ⟨hpos, rfl, hlen, hn, hl⟩ := h
  have hlt : toSize (BitVec.ofNat 32 q) % base.blocks < base.bufferMgr.length := by
    rw [hlen]; exact Nat.mod_lt _ hpos
  simp only [RDMABuffer.last, hl, hlt, if_true]
  exact ⟨_, rfl, hpos, rfl, by simp [hlen], hn, ofNat_succ q⟩

theorem map_range_succ (f : ℕ → ℕ) (n p : ℕ) :
    (List.range (n + 1)).map (fun i => f (p + i)) =
      f p :: (List.range n).map fun i => f (p + 1 + i) := by
  rw [List.range_succ_eq_map, List.map_cons, List.map_map]
  simp only [Nat.add_zero, Function.comp_def, Nat.succ_eq_add_one]
  congr 2; funext i; congr 1; omega

/-- The two cursors run independently, each through `cursorIndex`. -/
theorem ringRun_eq {k : ℕ} : ∀ (cs : List RingCall) {p q : ℕ} {base : RDMABuffer}, Ring k p q base →
    ringRun base cs = .ok ((List.range (RingCall.nexts cs)).map (fun i => cursorIndex k (p + i)),
      (List.range (RingCall.lasts cs)).map fun i => cursorIndex k (q + i))
  | [], _, _, _, _ => rfl
  | .next on :: cs, p, q, base, h => by
    obtain ⟨base', hn, h'⟩ := h.next
    rw [ringRun, hn, RingCall.nexts_next, RingCall.lasts_next, map_range_succ]
    simp only [bind, Except.bind, ringRun_eq cs h', pure, Except.pure]
  | .last on :: cs, p, q, base, h => by
    obtain ⟨base', hn, h'⟩ := h.last
    rw [ringRun, hn, RingCall.nexts_last, RingCall.lasts_last, map_range_succ]
    simp only [bind, Except.bind, ringRun_eq cs h', pure, Except.pure]

/-! ## The counters -/

theorem cursorIndex_of_lt {k n : ℕ} (h : n < 2 ^ 31) : cursorIndex k n = n % k := by
  rw [cursorIndex, toSize_ofNat, Nat.mod_eq_of_lt (a := n) (b := 2 ^ 32) (by omega), if_pos h]

theorem add_mod_of_dvd {k c : ℕ} (h : k ∣ c) (n : ℕ) : (c + n) % k = n % k := by
  obtain ⟨d, rfl⟩ := h
  rw [Nat.mul_add_mod]

theorem cursorIndex_of_lt' {k n : ℕ} (h : n < 2 ^ 32) (hk : k ∣ 2 ^ 64 - 2 ^ 32) :
    cursorIndex k n = n % k := by
  rw [cursorIndex, toSize_ofNat, Nat.mod_eq_of_lt h]
  split_ifs
  · rfl
  · exact add_mod_of_dvd hk n

theorem cursorIndex_of_dvd {k : ℕ} (n : ℕ) (hk : k ∣ 2 ^ 32) : cursorIndex k n = n % k := by
  have hk' : k ∣ 2 ^ 64 - 2 ^ 32 := hk.trans (by norm_num)
  have hn : cursorIndex k n = cursorIndex k (n % 2 ^ 32) := by
    rw [cursorIndex, cursorIndex, toSize_ofNat, toSize_ofNat, Nat.mod_mod]
  rw [hn, cursorIndex_of_lt' (Nat.mod_lt _ (by norm_num)) hk', Nat.mod_mod_of_dvd _ hk]

/-- **How long a cursor follows the law.** -/
theorem cursor_iff {k : ℕ} (n : ℕ) : (∀ i < n, cursorIndex k i = i % k) ↔ CursorOk k n := by
  constructor
  · intro h
    by_cases h31 : n ≤ 2 ^ 31
    · exact Or.inr (Or.inl h31)
    have hneg : k ∣ 2 ^ 64 - 2 ^ 32 := by
      -- call 2^31 is the first one with a negative counter
      have h1 := h (2 ^ 31) (by omega)
      rw [cursorIndex, toSize_ofNat, if_neg (by norm_num)] at h1
      rw [Nat.mod_eq_of_lt (a := 2 ^ 31) (b := 2 ^ 32) (by norm_num)] at h1
      have h1 : 2 ^ 64 - 2 ^ 32 + 2 ^ 31 ≡ 0 + 2 ^ 31 [MOD k] := h1
      exact Nat.modEq_zero_iff_dvd.1 (Nat.ModEq.add_right_cancel' _ h1)
    by_cases h32 : n ≤ 2 ^ 32
    · exact Or.inr (Or.inr ⟨h32, hneg⟩)
    -- call 2^32 finds the counter back at zero
    have h2 := h (2 ^ 32) (by omega)
    rw [cursorIndex, toSize_ofNat, if_pos (by norm_num), Nat.mod_self, Nat.zero_mod] at h2
    exact Or.inl (Nat.dvd_of_mod_eq_zero h2.symm)
  · rintro (h | h | ⟨h, hk⟩) i hi
    · exact cursorIndex_of_dvd i h
    · exact cursorIndex_of_lt (by omega)
    · exact cursorIndex_of_lt' (by omega) hk

theorem map_range_eq_iff {f g : ℕ → ℕ} {n : ℕ} :
    (List.range n).map f = (List.range n).map g ↔ ∀ i < n, f i = g i := by
  rw [List.map_inj_left]; simp

/-- The law holds for a call sequence iff each cursor follows it. -/
theorem Ring.roundRobin_iff {k : ℕ} {base : RDMABuffer} (h : Ring k 0 0 base) (cs : List RingCall) :
    RoundRobin base k cs ↔
      (∀ i < RingCall.nexts cs, cursorIndex k i = i % k) ∧
        ∀ i < RingCall.lasts cs, cursorIndex k i = i % k := by
  rw [RoundRobin, ringRun_eq cs h]
  simp only [Except.ok.injEq, Prod.mk.injEq, Nat.zero_add, map_range_eq_iff]

/-- **The round-robin law of the block ring** holds for a call sequence on a
    buffer of `k` blocks exactly when neither cursor outlives its counter. -/
theorem allocateBuffer_roundRobin_iff {mem mem' : ByteMem} {ptr : ℕ} {b : UInt64} {k : UInt32}
    {info : String} {base : RDMABuffer}
    (h : RDMABuffer.allocateBuffer mem ptr b k info = .ok (base, mem')) (cs : List RingCall) :
    RoundRobin base k.toNat cs ↔
      CursorOk k.toNat (RingCall.nexts cs) ∧ CursorOk k.toNat (RingCall.lasts cs) := by
  rw [(ring_allocateBuffer h).roundRobin_iff, cursor_iff, cursor_iff]

/-- A buffer of ten blocks: the law holds for its first `2^31` calls. -/
theorem allocateBuffer_roundRobin_ten : ∃ base mem',
    RDMABuffer.allocateBuffer (fun _ => 0) 4096 256 10 "ring" = .ok (base, mem') ∧
      RoundRobin base 10 (List.replicate (2 ^ 31) (.next .base)) := by
  obtain ⟨base, mem', h⟩ : ∃ base mem',
    RDMABuffer.allocateBuffer (fun _ => 0) 4096 256 10 "ring" = .ok (base, mem') := ⟨_, _, rfl⟩
  refine ⟨base, mem', h, (allocateBuffer_roundRobin_iff h _).2
    ⟨Or.inr (Or.inl ?_), Or.inr (Or.inl ?_)⟩⟩
  · exact List.countP_le_length.trans_eq List.length_replicate
  · exact List.countP_le_length.trans_eq List.length_replicate

/-- On a buffer of ten blocks, `next()` number `2^32 + 1` returns block `0`
    again, where round robin asks for block `6`. -/
theorem ten_blocks_not_roundRobin : ∃ base mem',
    RDMABuffer.allocateBuffer (fun _ => 0) 4096 256 10 "ring" = .ok (base, mem') ∧
      ¬ RoundRobin base 10 (List.replicate (2 ^ 32 + 1) (.next .base)) := by
  obtain ⟨base, mem', h⟩ : ∃ base mem',
    RDMABuffer.allocateBuffer (fun _ => 0) 4096 256 10 "ring" = .ok (base, mem') := ⟨_, _, rfl⟩
  refine ⟨base, mem', h, fun hr => ?_⟩
  have hlt : 2 ^ 32 < RingCall.nexts (List.replicate (2 ^ 32 + 1) (.next .base)) := by
    rw [RingCall.nexts, List.countP_replicate]; simp [RingCall.isNext]
  have h6 : cursorIndex 10 (2 ^ 32) = 2 ^ 32 % 10 :=
    (((ring_allocateBuffer h).roundRobin_iff _).1 hr).1 _ hlt
  rw [cursorIndex, toSize_ofNat] at h6
  norm_num at h6

end RdmaCore

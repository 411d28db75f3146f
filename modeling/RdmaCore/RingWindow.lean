/-
  The blocks of the ring that are in use (`in_used` of src/rdma_buffer.cc): what
  the `CHECK`s left commented out in `next()` and `last()` would ask.

  * `RingState`: a base buffer, and the blocks that `next()` has handed out and
    `last()` has not taken back, oldest first;
  * `RingWindow`: after `p` calls of `next()` and `q` calls of `last()` the
    blocks in use are the slots of the window `q ≤ i < p`;
  * `ring_exclusive`: no call meets a block in the wrong state as long as the
    callers keep within the window.
-/
import RdmaCore.Ring
import RdmaCore.Lib.Lts
import RdmaCore.Lib.Window

namespace RdmaCore

open Window

namespace RDMABuffer

/-- `at(index)->in_used` -/
def inUsedAt (base : RDMABuffer) (index : ℕ) : Bool := base.bufferMgr[index]?.any (·.inUsed)

/-- The number of blocks in use. -/
def used (base : RDMABuffer) : ℕ := base.bufferMgr.countP (·.inUsed)

end RDMABuffer

namespace RingCall

/-- The base buffer after the call, and the index of the block returned. -/
def exec (base : RDMABuffer) : RingCall → Except Fault (RDMABuffer × ℕ)
  | next _ => base.next
  | last _ => base.last

/-- The blocks handed out, oldest first, after a call that has returned the
    block `index`. -/
def handOut (handedOut : List ℕ) (index : ℕ) : RingCall → List ℕ
  | next _ => handedOut ++ [index]
  | last _ => handedOut.erase index

end RingCall

structure RingState where
  base : RDMABuffer
  handedOut : List ℕ := []

namespace RingState

/-- One call. -/
def step (s : RingState) (c : RingCall) : Option RingState :=
  match c.exec s.base with
  | .ok (base, index) => some ⟨base, c.handOut s.handedOut index⟩
  | .error _ => none

/-- The call finds its block as the `CHECK`s ask: `next()` one that is not in
    use, `last()` the one in use that was handed out longest ago. -/
def Exclusive (s : RingState) : RingCall → Prop
  | .next _ => ∃ base index, s.base.next = .ok (base, index) ∧ s.base.inUsedAt index = false
  | .last _ => ∃ base index, s.base.last = .ok (base, index) ∧ s.base.inUsedAt index = true ∧
      s.handedOut.head? = some index

end RingState

/-- The ring after `p` calls of `next()` and `q` calls of `last()`. -/
structure RingWindow (k p q : ℕ) (s : RingState) : Prop where
  ring : Ring k p q s.base
  le : q ≤ p
  room : p ≤ q + k
  handedOut : s.handedOut = slots k q p
  inUsed : ∀ j, s.base.inUsedAt j = true ↔ j ∈ slots k q p
  used : s.base.used = p - q

/-! ## The flags -/

theorem countP_setInUsed (b : Bool) {os : List BufferObj} {j : ℕ} {o : BufferObj}
    (h : os[j]? = some o) :
    (os.modify j fun o => { o with inUsed := b }).countP (·.inUsed) + o.inUsed.toNat =
      os.countP (·.inUsed) + b.toNat := by
  induction os generalizing j with
  | nil => cases h
  | cons o' os ih =>
    cases j with
    | zero =>
      obtain rfl := Option.some.inj h
      cases b <;> cases ho : o'.inUsed <;> simp [ho]
    | succ j =>
      have hj := ih (j := j) h
      simp only [List.modify_succ_cons, List.countP_cons]
      omega

namespace RDMABuffer

variable {base base' : RDMABuffer} {j : ℕ}

/-- The flags after a call that sets the flag of block `j`. -/
theorem inUsedAt_of_modify {b : Bool} (hj : j < base.bufferMgr.length)
    (h : base'.bufferMgr = base.bufferMgr.modify j fun o => { o with inUsed := b }) (i : ℕ) :
    base'.inUsedAt i = if i = j then b else base.inUsedAt i := by
  rw [inUsedAt, h, List.getElem?_modify]
  split_ifs with h1 h2 h2
  · subst h2
    simp [hj]
  · exact absurd h1.symm h2
  · exact absurd h2.symm h1
  · simp [inUsedAt]

theorem used_of_modify {b : Bool} (hj : j < base.bufferMgr.length)
    (h : base'.bufferMgr = base.bufferMgr.modify j fun o => { o with inUsed := b }) :
    base'.used + (base.inUsedAt j).toNat = base.used + b.toNat := by
  have hget : base.bufferMgr[j]? = some base.bufferMgr[j] := List.getElem?_eq_getElem hj
  rw [used, used, h, inUsedAt, hget]
  exact countP_setInUsed b hget

end RDMABuffer

/-! ## The window -/

namespace RingWindow

variable {k p q : ℕ} {s : RingState}

/-- A call of `next()` while its cursor follows the law. -/
theorem next_of_index (h : RingWindow k p q s) (hroom : p < q + k) (hp : cursorIndex k p = p % k) :
    ∃ base, s.base.next = .ok (base, p % k) ∧ s.base.inUsedAt (p % k) = false ∧
      RingWindow k (p + 1) q ⟨base, s.handedOut ++ [p % k]⟩ := by
  obtain ⟨base, hnext, hring⟩ := h.ring.next
  rw [hp] at hnext
  have hfree : s.base.inUsedAt (p % k) = false := by
    rw [← Bool.not_eq_true, h.inUsed]
    exact next_notMem hroom
  obtain ⟨hlt, hmgr, -⟩ := RDMABuffer.next_ok hnext
  refine ⟨base, hnext, hfree, hring, Nat.le_succ_of_le h.le, hroom, ?_, ?_, ?_⟩
  · rw [slots_succ h.le, h.handedOut]
  · intro j
    rw [RDMABuffer.inUsedAt_of_modify hlt hmgr, mem_slots_succ h.le, ← h.inUsed j]
    split_ifs with hj <;> simp [hj]
  · have hused := RDMABuffer.used_of_modify hlt hmgr
    rw [hfree, h.used] at hused
    have := h.le
    simp only [Bool.toNat_false, Bool.toNat_true] at hused
    show base.used = p + 1 - q
    omega

theorem next (h : RingWindow k p q s) (hroom : p < q + k) (hp : p < 2 ^ 31) :
    ∃ base, s.base.next = .ok (base, p % k) ∧ s.base.inUsedAt (p % k) = false ∧
      RingWindow k (p + 1) q ⟨base, s.handedOut ++ [p % k]⟩ :=
  h.next_of_index hroom (cursorIndex_of_lt hp)

/-- A call of `last()` while its cursor follows the law. -/
theorem last_of_index (h : RingWindow k p q s) (hq : q < p) (hi : cursorIndex k q = q % k) :
    ∃ base, s.base.last = .ok (base, q % k) ∧ s.base.inUsedAt (q % k) = true ∧
      s.handedOut.head? = some (q % k) ∧
      RingWindow k p (q + 1) ⟨base, s.handedOut.erase (q % k)⟩ := by
  obtain ⟨base, hlast, hring⟩ := h.ring.last
  rw [hi] at hlast
  have hcons := slots_eq_cons (k := k) hq
  have huse : s.base.inUsedAt (q % k) = true := by
    rw [h.inUsed, hcons]
    exact List.mem_cons_self
  obtain ⟨hlt, hmgr, -⟩ := RDMABuffer.last_ok hlast
  have hroom := h.room
  refine ⟨base, hlast, huse, ?_, hring, hq, by omega, ?_, ?_, ?_⟩
  · rw [h.handedOut, hcons]
    rfl
  · show s.handedOut.erase (q % k) = _
    rw [h.handedOut, hcons, List.erase_cons_head]
  · intro j
    rw [RDMABuffer.inUsedAt_of_modify hlt hmgr, mem_slots_tail hq hroom, ← h.inUsed j]
    split_ifs with hj <;> simp [hj]
  · have hused := RDMABuffer.used_of_modify hlt hmgr
    rw [huse, h.used] at hused
    simp only [Bool.toNat_false, Bool.toNat_true] at hused
    show base.used = p - (q + 1)
    omega

theorem last (h : RingWindow k p q s) (hq : q < p) (hq31 : q < 2 ^ 31) :
    ∃ base, s.base.last = .ok (base, q % k) ∧ s.base.inUsedAt (q % k) = true ∧
      s.handedOut.head? = some (q % k) ∧
      RingWindow k p (q + 1) ⟨base, s.handedOut.erase (q % k)⟩ :=
  h.last_of_index hq (cursorIndex_of_lt hq31)

end RingWindow

/-! ## Call sequences -/

/-- At every point of the sequence `0 ≤ #next - #last ≤ k`. -/
def RingCall.Within (k : ℕ) (cs : List RingCall) : Prop :=
  ∀ cs₁, cs₁ <+: cs →
    RingCall.lasts cs₁ ≤ RingCall.nexts cs₁ ∧ RingCall.nexts cs₁ ≤ RingCall.lasts cs₁ + k

section
variable {k : ℕ} {base : RDMABuffer} {cs cs₁ : List RingCall} {c : RingCall}

theorem RingWindow.init (h : Ring k 0 0 base) (hused : base.used = 0) :
    RingWindow k 0 0 ⟨base, []⟩ where
  ring := h
  le := Nat.le_refl 0
  room := Nat.zero_le _
  handedOut := (slots_self k 0).symm
  inUsed j := by
    have hall := List.countP_eq_zero.1 hused
    simp only [slots_self, List.not_mem_nil, iff_false, RDMABuffer.inUsedAt]
    rw [Option.any_eq_true]
    rintro ⟨o, ho, hin⟩
    exact hall o (List.mem_of_getElem? ho) hin
  used := hused

/-- One call within the window meets its block in the right state. -/
theorem RingWindow.step {s : RingState} (h : RingWindow k (RingCall.nexts cs₁) (RingCall.lasts cs₁) s)
    (hn : RingCall.nexts (cs₁ ++ [c]) ≤ 2 ^ 31) (hl : RingCall.lasts (cs₁ ++ [c]) ≤ 2 ^ 31)
    (hle : RingCall.lasts (cs₁ ++ [c]) ≤ RingCall.nexts (cs₁ ++ [c]))
    (hroom : RingCall.nexts (cs₁ ++ [c]) ≤ RingCall.lasts (cs₁ ++ [c]) + k) :
    ∃ s', s.step c = some s' ∧ s.Exclusive c ∧
      RingWindow k (RingCall.nexts (cs₁ ++ [c])) (RingCall.lasts (cs₁ ++ [c])) s' := by
  cases c with
  | next on =>
    rw [RingCall.nexts_append_next, RingCall.lasts_append_next] at *
    obtain ⟨base', hnext, hfree, h'⟩ := h.next hroom (by omega)
    refine ⟨_, ?_, ⟨base', _, hnext, hfree⟩, h'⟩
    simp only [RingState.step, RingCall.exec, hnext, RingCall.handOut]
  | last on =>
    rw [RingCall.nexts_append_last, RingCall.lasts_append_last] at *
    obtain ⟨base', hlast, huse, hhead, h'⟩ := h.last hle (by omega)
    refine ⟨_, ?_, ⟨base', _, hlast, huse, hhead⟩, h'⟩
    simp only [RingState.step, RingCall.exec, hlast, RingCall.handOut]

/-- The window after a call sequence. -/
theorem RingWindow.run (h₀ : RingWindow k 0 0 ⟨base, []⟩) (hn : RingCall.nexts cs ≤ 2 ^ 31)
    (hl : RingCall.lasts cs ≤ 2 ^ 31) (hw : RingCall.Within k cs) :
    ∃ s, Lts.run RingState.step ⟨base, []⟩ cs = some s ∧
      RingWindow k (RingCall.nexts cs) (RingCall.lasts cs) s := by
  induction cs using List.reverseRecOn with
  | nil => exact ⟨_, rfl, h₀⟩
  | append_singleton cs c ih =>
    have hnle : RingCall.nexts cs ≤ RingCall.nexts (cs ++ [c]) :=
      (List.sublist_append_left cs [c]).countP_le
    have hlle : RingCall.lasts cs ≤ RingCall.lasts (cs ++ [c]) :=
      (List.sublist_append_left cs [c]).countP_le
    obtain ⟨s, hrun, hs⟩ := ih (hnle.trans hn) (hlle.trans hl)
      fun cs₁ hp => hw cs₁ (hp.trans (List.prefix_append cs [c]))
    obtain ⟨hle, hroom⟩ := hw _ (List.prefix_refl _)
    obtain ⟨s', hstep, -, hs'⟩ := hs.step hn hl hle hroom
    refine ⟨s', ?_, hs'⟩
    rw [Lts.run_append, hrun]
    simp only [Option.bind_some, Lts.run_cons, hstep, Lts.run_nil]

end

theorem used_allocateBuffer {mem mem' : ByteMem} {ptr : ℕ} {b : UInt64} {k : UInt32} {info : String}
    {base : RDMABuffer} (h : RDMABuffer.allocateBuffer mem ptr b k info = .ok (base, mem')) :
    base.used = 0 := by
  obtain ⟨rfl, -⟩ := RDMABuffer.allocateBuffer_ok h
  refine List.countP_eq_zero.2 fun o ho => ?_
  rw [(RDMABuffer.mem_construct ptr b k info ho).2.2]
  exact Bool.false_ne_true

/-- **Ring exclusivity**: `next()` never returns a block that is in use,
    `last()` always returns the block in use that was handed out longest ago,
    and the blocks in use are counted by the calls. -/
theorem ring_exclusive {mem mem' : ByteMem} {ptr : ℕ} {b : UInt64} {k : UInt32} {info : String}
    {base : RDMABuffer} (h : RDMABuffer.allocateBuffer mem ptr b k info = .ok (base, mem'))
    {cs : List RingCall} (hn : RingCall.nexts cs < 2 ^ 31) (hl : RingCall.lasts cs < 2 ^ 31)
    (hw : RingCall.Within k.toNat cs) {cs₁ : List RingCall} {c : RingCall}
    (hp : cs₁ ++ [c] <+: cs) :
    ∃ s s', Lts.run RingState.step ⟨base, []⟩ cs₁ = some s ∧ s.step c = some s' ∧
      s.Exclusive c ∧
      s'.base.used = RingCall.nexts (cs₁ ++ [c]) - RingCall.lasts (cs₁ ++ [c]) := by
  have hn' : RingCall.nexts (cs₁ ++ [c]) ≤ 2 ^ 31 := (hp.sublist.countP_le.trans_lt hn).le
  have hl' : RingCall.lasts (cs₁ ++ [c]) ≤ 2 ^ 31 := (hp.sublist.countP_le.trans_lt hl).le
  have hp₁ : cs₁ <+: cs := (List.prefix_append cs₁ [c]).trans hp
  have h₀ := RingWindow.init (ring_allocateBuffer h) (used_allocateBuffer h)
  obtain ⟨s, hrun, hs⟩ := h₀.run (hp₁.sublist.countP_le.trans hn.le)
    (hp₁.sublist.countP_le.trans hl.le) fun cs₂ hp₂ => hw cs₂ (hp₂.trans hp₁)
  obtain ⟨hle, hroom⟩ := hw _ hp
  obtain ⟨s', hstep, hex, hs'⟩ := hs.step hn' hl' hle hroom
  exact ⟨s, s', hrun, hstep, hex, hs'.used⟩

/-- Calls that keep within a window of two blocks, and go round once. -/
def twoInUse : List RingCall :=
  [.next .base, .next (.block 0), .last .base, .next .base, .last (.block 1)]

instance (k : ℕ) (cs : List RingCall) : Decidable (RingCall.Within k cs) :=
  decidable_of_iff (∀ cs₁ ∈ cs.inits, RingCall.lasts cs₁ ≤ RingCall.nexts cs₁ ∧
    RingCall.nexts cs₁ ≤ RingCall.lasts cs₁ + k) (by simp only [List.mem_inits]; rfl)

theorem ring_exclusive_two : ∃ base mem' s s',
    RDMABuffer.allocateBuffer (fun _ => 0) 4096 256 2 "ring" = .ok (base, mem') ∧
      Lts.run RingState.step ⟨base, []⟩ (twoInUse.take 4) = some s ∧
      s.step (.last (.block 1)) = some s' ∧ s.Exclusive (.last (.block 1)) ∧ s'.base.used = 1 := by
  obtain ⟨base, mem', h⟩ : ∃ base mem',
    RDMABuffer.allocateBuffer (fun _ => 0) 4096 256 2 "ring" = .ok (base, mem') := ⟨_, _, rfl⟩
  have hw : RingCall.Within 2 twoInUse := by decide
  have hp : twoInUse.take 4 ++ [.last (.block 1)] <+: twoInUse := by decide
  obtain ⟨s, s', hrun, hstep, hex, hused⟩ := ring_exclusive h (by decide) (by decide) hw hp
  exact ⟨base, mem', s, s', h, hrun, hstep, hex, hused⟩

end RdmaCore

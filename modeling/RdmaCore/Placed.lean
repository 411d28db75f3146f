/-
  A buffer of `k` blocks of `size` bytes that is registered in a channel, as a
  program sees it that calls `at()`, `next()` and `last()`
  (src/rdma_buffer.cc).

  * `failWith`: calls of the library, by a program with failures of its own;
  * `Placed`: the buffer stays where it is, and its blocks pass the checks of
    the posting operations;
  * `ringWindow_registered`: no block is in use at the start.
-/
import RdmaCore.Registry
import RdmaCore.Blocks
import RdmaCore.RingWindow

namespace RdmaCore

/-! ## Calls of the library -/

section
variable {ε α : Type}

/-- A call of the library, in a program that ends with `f e` where the library ends with `e`. -/
def failWith (f : Fault → ε) (r : Except Fault α) : Except ε α := r.mapError f

theorem failWith_eq_ok {f : Fault → ε} {r : Except Fault α} {a : α} :
    failWith f r = .ok a ↔ r = .ok a := by
  cases r <;> simp [failWith, Except.mapError]

/-- A call that fails unless `c`. -/
theorem ite_error_eq_ok {c : Prop} [Decidable c] {a b : α} {e : ε} :
    (if c then .ok a else .error e) = (.ok b : Except ε α) ↔ c ∧ a = b := by
  split <;> simp [*]

end

/-- The checks of a posting operation, on `len` bytes of block `i`. -/
def RDMABuffer.checkBlock (base : RDMABuffer) (i len limit : ℕ) : Except Fault Unit := do
  let o ← base.blockAt i
  World.securityCheck o
  check (len ≤ o.bufferSize ∧ len ≤ limit) .dataLength

/-! ## Buffers of blocks -/

/-- A buffer from `allocate_buffer`, registered in the channel `c`. -/
def registeredBuffer (c : ChannelId) (mr : MrId) (ptr size k : ℕ) (info : String) : RDMABuffer :=
  (RDMABuffer.construct ptr (.ofNat size) (.ofNat k) info).setRegistration c mr

/-- A buffer of `k` blocks of `size` bytes at the address `ptr`. -/
structure Placed (size k ptr : ℕ) (base : RDMABuffer) : Prop where
  dataPtr : base.dataPtr = ptr
  bufferSize : base.bufferSize = size * k
  blocks : base.blocks = k
  length : base.bufferMgr.length = k
  usable : ∀ o ∈ base.bufferMgr, o.bufferSize = size ∧ World.securityCheck o = .ok ()
  address : ∀ i o, base.bufferMgr[i]? = some o → o.dataPtr = ptr + i * size

section
variable {size k : ℕ}

theorem toNat_ofNat_size (hsize : size < 2 ^ 64) : (UInt64.ofNat size).toNat = size := by
  rw [UInt64.toNat_ofNat', Nat.mod_eq_of_lt hsize]

theorem toNat_ofNat_blocks (hk : k < 2 ^ 31) : (UInt32.ofNat k).toNat = k := by
  rw [UInt32.toNat_ofNat', Nat.mod_eq_of_lt (by omega)]

end

namespace Placed

variable {size k ptr i : ℕ} {base base' : RDMABuffer}

theorem usable_modify (h : Placed size k ptr base) (b : Bool) (i : ℕ) :
    ∀ o ∈ base.bufferMgr.modify i fun o => { o with inUsed := b },
      o.bufferSize = size ∧ World.securityCheck o = .ok () := by
  intro o ho
  obtain ⟨j, hj⟩ := List.mem_iff_getElem?.1 ho
  rw [List.getElem?_modify, Option.map_eq_map, Option.map_eq_some_iff] at hj
  obtain ⟨o', ho', rfl⟩ := hj
  have ho := h.usable o' (List.mem_of_getElem? ho')
  split_ifs <;> exact ho

theorem address_modify (h : Placed size k ptr base) (b : Bool) (i : ℕ) :
    ∀ j o, (base.bufferMgr.modify i fun o => { o with inUsed := b })[j]? = some o →
      o.dataPtr = ptr + j * size := by
  intro j o ho
  rw [List.getElem?_modify, Option.map_eq_map, Option.map_eq_some_iff] at ho
  obtain ⟨o', ho', rfl⟩ := ho
  have ho := h.address j o' ho'
  split_ifs <;> exact ho

theorem next (h : Placed size k ptr base) (hn : base.next = .ok (base', i)) :
    Placed size k ptr base' := by
  simp only [RDMABuffer.next] at hn
  split_ifs at hn
  obtain ⟨rfl, rfl⟩ := Prod.mk.inj (Except.ok.inj hn)
  exact ⟨h.dataPtr, h.bufferSize, h.blocks, by simp [h.length], h.usable_modify _ _,
    h.address_modify _ _⟩

theorem last (h : Placed size k ptr base) (hl : base.last = .ok (base', i)) :
    Placed size k ptr base' := by
  simp only [RDMABuffer.last] at hl
  split_ifs at hl
  obtain ⟨rfl, rfl⟩ := Prod.mk.inj (Except.ok.inj hl)
  exact ⟨h.dataPtr, h.bufferSize, h.blocks, by simp [h.length], h.usable_modify _ _,
    h.address_modify _ _⟩

theorem mod_lt (h : Placed size k ptr base) (hk : 0 < k) (n : ℕ) : n % base.blocks < k := by
  rw [h.blocks]
  exact Nat.mod_lt n hk

theorem exists_next (h : Placed size k ptr base) (hk : 0 < k) :
    ∃ base' i, base.next = .ok (base', i) ∧ i < k ∧ Placed size k ptr base' := by
  have hi := h.mod_lt hk (toSize (base.nextActive + 1))
  have hn : ∃ base', base.next = .ok (base', toSize (base.nextActive + 1) % base.blocks) :=
    ⟨_, if_pos (h.length.symm ▸ hi)⟩
  obtain ⟨base', hn⟩ := hn
  exact ⟨base', _, hn, hi, h.next hn⟩

theorem exists_last (h : Placed size k ptr base) (hk : 0 < k) :
    ∃ base' i, base.last = .ok (base', i) ∧ Placed size k ptr base' := by
  have hi := h.mod_lt hk (toSize (base.lastActive + 1))
  have hl : ∃ base', base.last = .ok (base', toSize (base.lastActive + 1) % base.blocks) :=
    ⟨_, if_pos (h.length.symm ▸ hi)⟩
  obtain ⟨base', hl⟩ := hl
  exact ⟨base', _, hl, h.last hl⟩

/-- Every block passes `security_check`. -/
theorem blockAt (h : Placed size k ptr base) (hi : i < k) : ∃ o, base.blockAt i = .ok o ∧
    o.bufferSize = size ∧ World.securityCheck o = .ok () := by
  have hi' : i < base.bufferMgr.length := h.length ▸ hi
  refine ⟨base.bufferMgr[i], ?_, h.usable _ (List.getElem_mem hi')⟩
  simp [RDMABuffer.blockAt, check, h.blocks, hi, hi', bind, Except.bind, pure, Except.pure]

/-- The checks of a posting operation pass. -/
theorem checkBlock {len limit : ℕ} (h : Placed size k ptr base) (hi : i < k) (hlen : len ≤ size)
    (hlimit : len ≤ limit) : base.checkBlock i len limit = .ok () := by
  obtain ⟨o, ho, hsize, hcheck⟩ := h.blockAt hi
  simp only [RDMABuffer.checkBlock, Except.bind_eq_ok, check_eq_ok]
  exact ⟨o, ho, (), hcheck, hsize ▸ hlen, hlimit⟩

theorem bufferSize_blockAt {o : BufferObj} (h : Placed size k ptr base)
    (ho : base.blockAt i = .ok o) : o.bufferSize = size := by
  have hi : i < k := by
    simp only [RDMABuffer.blockAt, Except.bind_eq_ok, check_eq_ok, h.blocks] at ho
    obtain ⟨-, hi, -⟩ := ho
    exact hi
  obtain ⟨o', ho', hsize, -⟩ := h.blockAt hi
  exact Except.ok.inj (ho'.symm.trans ho) ▸ hsize

theorem dataPtr_blockAt {o : BufferObj} (h : Placed size k ptr base)
    (ho : base.blockAt i = .ok o) : o.dataPtr = ptr + i * size := by
  simp only [RDMABuffer.blockAt, Except.bind_eq_ok] at ho
  obtain ⟨-, -, ho⟩ := ho
  split at ho
  · next o' ho' =>
    cases ho
    exact h.address i o ho'
  · cases ho

/-- **A buffer that is allocated and registered is placed.** -/
theorem registered (c : ChannelId) (mr : MrId) (info : String) (hsize : 0 < size) (hk : 0 < k)
    (hk31 : k < 2 ^ 31) (hpos : 0 < ptr) (hle : ptr + size * k ≤ 2 ^ 64) :
    Placed size k ptr (registeredBuffer c mr ptr size k info) := by
  have hmul := Nat.le_mul_of_pos_right size hk
  have hsize64 : (UInt64.ofNat size).toNat = size := toNat_ofNat_size (by omega)
  have hk32 := toNat_ofNat_blocks hk31
  have hobj := RDMABuffer.toBufferObj_construct ptr (.ofNat size) (.ofNat k) info
  have haddress : ∀ i < k, (RDMABuffer.blockOf ptr (.ofNat size) info i).dataPtr = ptr + i * size := by
    intro i hi
    have hptr := RDMABuffer.dataPtr_blockOf (b := .ofNat size) (k := .ofNat k) ptr info
      (by rwa [hsize64, hk32]) (by rwa [hsize64]) (by rwa [hk32]) (hi.trans hk31)
    rwa [hsize64] at hptr
  refine ⟨RDMABuffer.construct_dataPtr .., ?_, ?_, ?_, ?_, ?_⟩
  · have := RDMABuffer.construct_bufferSize (b := .ofNat size) (k := .ofNat k) ptr info
      (by rw [hsize64, hk32]; omega)
    rwa [hsize64, hk32] at this
  · exact (congrArg BufferObj.blocks hobj).trans hk32
  · simp [registeredBuffer, RDMABuffer.setRegistration, hk32]
  · intro o ho
    simp only [registeredBuffer, RDMABuffer.setRegistration, RDMABuffer.bufferMgr_construct,
      List.map_map, List.mem_map, List.mem_range, hk32] at ho
    obtain ⟨i, hi, rfl⟩ := ho
    refine ⟨hsize64, ?_⟩
    simp only [World.securityCheck, Except.bind_eq_ok, check_eq_ok, Function.comp_apply]
    refine ⟨(), ?_, (), ?_, by simp⟩
    · show (UInt64.ofNat size).toNat ≠ 0
      omega
    · rw [haddress i hi]
      omega
  · intro i o ho
    simp only [registeredBuffer, RDMABuffer.setRegistration, RDMABuffer.bufferMgr_construct,
      List.map_map, List.getElem?_map, Option.map_eq_some_iff, hk32] at ho
    obtain ⟨j, hj, rfl⟩ := ho
    obtain ⟨hi, rfl⟩ := List.getElem?_eq_some_iff.1 hj
    rw [List.length_range] at hi
    rw [List.getElem_range]
    exact haddress i hi

end Placed

/-- **No block is in use at the start.** -/
theorem ringWindow_registered {size k : ℕ} (c : ChannelId) (mr : MrId) (ptr : ℕ) (info : String)
    (hk : 0 < k) (hk31 : k < 2 ^ 31) :
    RingWindow k 0 0 ⟨registeredBuffer c mr ptr size k info, []⟩ := by
  have hk32 := toNat_ofNat_blocks hk31
  have hobj := RDMABuffer.toBufferObj_construct ptr (.ofNat size) (.ofNat k) info
  refine .init ⟨hk, (congrArg BufferObj.blocks hobj).trans hk32, ?_, ?_, ?_⟩ ?_
  · simp [registeredBuffer, RDMABuffer.setRegistration, hk32]
  · show (RDMABuffer.construct ..).nextActive + 1 = _
    rw [show _ = _ from congrArg BufferObj.nextActive hobj]
    simp [RDMABuffer.unsplit]
  · show (RDMABuffer.construct ..).lastActive + 1 = _
    rw [show _ = _ from congrArg BufferObj.lastActive hobj]
    simp [RDMABuffer.unsplit]
  · refine List.countP_eq_zero.2 fun o ho => ?_
    simp only [registeredBuffer, RDMABuffer.setRegistration, List.mem_map] at ho
    obtain ⟨o', ho', rfl⟩ := ho
    simp [(RDMABuffer.mem_construct _ _ _ _ ho').2.2]

end RdmaCore

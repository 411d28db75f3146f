/-
  The blocks of a base buffer as memory (src/rdma_buffer.cc): where they lie,
  what `fill_in` and `clear` leave in them, what a fresh buffer holds, and
  which objects `at()` can be called on.

  * `allocateBuffer_partition`: up to `2^31` blocks partition their buffer, and
    after any calls each byte is what the last call that covers it has put
    there;
  * `allocateBuffer_zeroed_iff`: the constructor clears the first block only;
  * `chain_represented_iff`: the objects that `at()`, `next()` and `last()`
    return are blocks, whose `blocks_` does not count their own blocks.
-/
import RdmaCore.Buffer
import RdmaCore.Lib.Writes
import Mathlib.Order.Interval.Set.Basic

namespace RdmaCore

namespace BufferObj

/-- The bytes of an object. -/
def range (o : BufferObj) : Set ℕ := Set.Ico o.dataPtr (o.dataPtr + o.bufferSize)

/-- `RDMABuffer::clear` -/
def clear (o : BufferObj) (mem : ByteMem) : ByteMem := mem.fill o.dataPtr 0 o.bufferSize

/-- `RDMABuffer::fill_in`; `toCopyedData` is what `memcpy` finds at the pointer. -/
def fillIn (o : BufferObj) (toCopyedData : ByteMem) (dataLength : UInt32) (mem : ByteMem) :
    Except Fault ByteMem := do
  check (dataLength.toNat ≤ o.bufferSize) .dataLength
  let mem := o.clear mem
  pure (mem.write o.dataPtr (toCopyedData.read 0 dataLength.toNat))

end BufferObj

/-- A call of `fill_in` or `clear` on the base buffer or on `at(i)`. -/
inductive FillCall where
  | fillIn (on : Handle) (toCopyedData : ByteMem) (dataLength : UInt32)
  | clear (on : Handle)

namespace RDMABuffer

/-- The base buffer, or the block that `at(i)` returns. -/
def deref (base : RDMABuffer) : Handle → Except Fault BufferObj
  | .base => pure base.toBufferObj
  | .block i => base.blockAt i

end RDMABuffer

namespace FillCall

/-- The object a call is made on. -/
def on : FillCall → Handle
  | fillIn on _ _ => on
  | clear on => on

/-- The bytes a call copies. -/
def data : FillCall → List UInt8
  | fillIn _ toCopyedData dataLength => toCopyedData.read 0 dataLength.toNat
  | clear _ => []

def exec (base : RDMABuffer) (mem : ByteMem) : FillCall → Except Fault ByteMem
  | fillIn on toCopyedData dataLength => do
    let o ← base.deref on
    o.fillIn toCopyedData dataLength mem
  | clear on => do
    let o ← base.deref on
    pure (o.clear mem)

/-- The object exists, and the length passes the `CHECK` of `fill_in`. -/
def Passes (base : RDMABuffer) (c : FillCall) : Prop :=
  ∃ o, base.deref c.on = .ok o ∧ c.data.length ≤ o.bufferSize

/-- What a call puts into the memory: its data, followed by zeros up to the end
    of the object. -/
def puts (base : RDMABuffer) (c : FillCall) : Option ByteMem.Write :=
  (base.deref c.on).toOption.map fun o =>
    (o.dataPtr, c.data ++ List.replicate (o.bufferSize - c.data.length) 0)

/-- A call sequence. -/
def run (base : RDMABuffer) (mem : ByteMem) (cs : List FillCall) : Except Fault ByteMem :=
  cs.foldlM (exec base) mem

/-! ## Calls are writes -/

variable {base : RDMABuffer} {c : FillCall}

theorem exec_eq {o : BufferObj} (ho : base.deref c.on = .ok o) (hlen : c.data.length ≤ o.bufferSize)
    (mem : ByteMem) : c.exec base mem =
      .ok (mem.write o.dataPtr (c.data ++ List.replicate (o.bufferSize - c.data.length) 0)) := by
  rw [← ByteMem.write_fill mem o.dataPtr o.bufferSize hlen]
  cases c with
  | fillIn on src len =>
    have hlen' : len.toNat ≤ o.bufferSize := by simpa [data] using hlen
    simp only [exec, BufferObj.fillIn, Except.bind_eq_ok, check_eq_ok, Except.pure_eq_ok]
    exact ⟨o, ho, (), hlen', rfl⟩
  | clear on =>
    simp only [exec, Except.bind_eq_ok, Except.pure_eq_ok]
    exact ⟨o, ho, (ByteMem.write_nil _ _).symm⟩

/-- **A call sequence is a sequence of writes.** -/
theorem run_eq {cs : List FillCall} (h : ∀ c ∈ cs, c.Passes base) (mem : ByteMem) :
    run base mem cs = .ok (mem.writes (cs.filterMap (puts base))) := by
  induction cs generalizing mem with
  | nil => rfl
  | cons c cs ih =>
    obtain ⟨o, ho, hlen⟩ := h c List.mem_cons_self
    have hputs : c.puts base = some (o.dataPtr,
        c.data ++ List.replicate (o.bufferSize - c.data.length) 0) := by
      rw [puts, ho]
      rfl
    rw [run, List.foldlM_cons, exec_eq ho hlen, List.filterMap_cons_some hputs]
    exact ih (fun c hc => h c (List.mem_cons_of_mem _ hc)) _

end FillCall

namespace RDMABuffer

/-! ## Where the blocks lie -/

section
variable (ptr : ℕ) (b : UInt64) (k : UInt32) (info : String)

theorem blockAt_construct {i : ℕ} {o : BufferObj} :
    (construct ptr b k info).blockAt i = .ok o ↔ i < k.toNat ∧ o = blockOf ptr b info i := by
  have hblocks : (construct ptr b k info).blocks = k.toNat := by
    rw [toBufferObj_construct]; rfl
  simp only [blockAt, Except.bind_eq_ok, check_eq_ok, hblocks, bufferMgr_construct,
    List.getElem?_map]
  constructor
  · rintro ⟨-, hi, h⟩
    rw [List.getElem?_range hi] at h
    exact ⟨hi, (Except.pure_eq_ok.1 h).symm⟩
  · rintro ⟨hi, rfl⟩
    refine ⟨(), hi, ?_⟩
    rw [List.getElem?_range hi]
    rfl

theorem construct_dataPtr : (construct ptr b k info).dataPtr = ptr := by
  rw [toBufferObj_construct]; rfl

variable {b k}

theorem construct_bufferSize (hbk : b.toNat * k.toNat < 2 ^ 64) :
    (construct ptr b k info).bufferSize = b.toNat * k.toNat := by
  rw [toBufferObj_construct]
  exact Nat.mod_eq_of_lt hbk

theorem add_mul_le {i : ℕ} (hi : i < k.toNat) : i * b.toNat + b.toNat ≤ b.toNat * k.toNat := by
  have h : (i + 1) * b.toNat ≤ k.toNat * b.toNat := Nat.mul_le_mul_right _ hi
  rw [Nat.succ_mul, Nat.mul_comm k.toNat] at h
  exact h

/-- The address of a block whose index is not negative as an `int`. -/
theorem dataPtr_blockOf {i : ℕ} (hptr : ptr + b.toNat * k.toNat ≤ 2 ^ 64) (hb : 0 < b.toNat)
    (hi : i < k.toNat) (h31 : i < 2 ^ 31) : (blockOf ptr b info i).dataPtr = ptr + i * b.toNat := by
  have hle := add_mul_le (b := b) hi
  simp only [blockOf, toSize_ofNat]
  rw [Nat.mod_eq_of_lt (a := i) (b := 2 ^ 32) (by omega), if_pos h31, Nat.mod_eq_of_lt (by omega)]

end

/-- The blocks are disjoint pieces of the buffer, of size `b`, that cover it. -/
structure Partition (base : RDMABuffer) (b k : ℕ) : Prop where
  size : base.bufferSize = b * k
  blockAt : ∀ i < k, ∃ o, base.blockAt i = .ok o ∧ o.bufferSize = b ∧
    o.dataPtr = base.dataPtr + i * b
  disjoint : ∀ i < k, ∀ j < k, i ≠ j → ∀ o o', base.blockAt i = .ok o → base.blockAt j = .ok o' →
    ∀ a ∈ o.range, a ∉ o'.range
  cover : ∀ a, a ∈ base.range ↔ ∃ i < k, ∃ o, base.blockAt i = .ok o ∧ a ∈ o.range

/-- `base.range` in blocks of `b` bytes. -/
theorem mem_blocks_iff {p b k a : ℕ} (hb : 0 < b) :
    a ∈ Set.Ico p (p + b * k) ↔ ∃ i < k, a ∈ Set.Ico (p + i * b) (p + i * b + b) := by
  simp only [Set.mem_Ico]
  constructor
  · rintro ⟨hp, ha⟩
    refine ⟨(a - p) / b, Nat.div_lt_of_lt_mul (by omega), ?_, ?_⟩
    · have := Nat.div_mul_le_self (a - p) b
      omega
    · have := Nat.lt_div_mul_add (a := a - p) hb
      omega
  · rintro ⟨i, hi, hp, ha⟩
    have h : (i + 1) * b ≤ k * b := Nat.mul_le_mul_right b hi
    rw [Nat.succ_mul, Nat.mul_comm k] at h
    omega

theorem disjoint_blocks {p b i j : ℕ} (h : i ≠ j) :
    ∀ a ∈ Set.Ico (p + i * b) (p + i * b + b), a ∉ Set.Ico (p + j * b) (p + j * b + b) := by
  rintro a ⟨hi, hi'⟩ ⟨hj, hj'⟩
  rcases Nat.lt_or_gt_of_ne h with hlt | hlt
  · have := Nat.mul_le_mul_right b hlt
    rw [Nat.succ_mul] at this
    omega
  · have := Nat.mul_le_mul_right b hlt
    rw [Nat.succ_mul] at this
    omega

theorem partition_construct (ptr : ℕ) {b : UInt64} {k : UInt32} (info : String) (hb : 0 < b.toNat)
    (hk : k.toNat ≤ 2 ^ 31) (hbk : b.toNat * k.toNat < 2 ^ 64)
    (hptr : ptr + b.toNat * k.toNat ≤ 2 ^ 64) :
    (construct ptr b k info).Partition b.toNat k.toNat := by
  have haddr : ∀ i < k.toNat, (blockOf ptr b info i).range =
      Set.Ico (ptr + i * b.toNat) (ptr + i * b.toNat + b.toNat) := by
    intro i hi
    rw [BufferObj.range, dataPtr_blockOf ptr info hptr hb hi (by omega)]
    rfl
  refine ⟨construct_bufferSize ptr info hbk, ?_, ?_, ?_⟩
  · intro i hi
    refine ⟨_, (blockAt_construct ptr b k info).2 ⟨hi, rfl⟩, rfl, ?_⟩
    rw [dataPtr_blockOf ptr info hptr hb hi (by omega), construct_dataPtr]
  · intro i hi j hj hij o o' ho ho'
    obtain ⟨-, rfl⟩ := (blockAt_construct ptr b k info).1 ho
    obtain ⟨-, rfl⟩ := (blockAt_construct ptr b k info).1 ho'
    rw [haddr i hi, haddr j hj]
    exact disjoint_blocks hij
  · intro a
    rw [BufferObj.range, construct_dataPtr, construct_bufferSize ptr info hbk, mem_blocks_iff hb]
    constructor
    · rintro ⟨i, hi, ha⟩
      exact ⟨i, hi, _, (blockAt_construct ptr b k info).2 ⟨hi, rfl⟩, by rw [haddr i hi]; exact ha⟩
    · rintro ⟨i, hi, o, ho, ha⟩
      obtain ⟨-, rfl⟩ := (blockAt_construct ptr b k info).1 ho
      rw [haddr i hi] at ha
      exact ⟨i, hi, ha⟩

/-- The constructor returns if `posix_memalign` does. -/
theorem exists_allocateBuffer (mem : ByteMem) {ptr : ℕ} {b : UInt64} {k : UInt32} (info : String)
    (hb : 1 ≤ b.toNat) (hk : 1 ≤ k.toNat) (hbk : b.toNat * k.toNat < 2 ^ 64) (hptr : ptr ≠ 0) :
    ∃ base mem', allocateBuffer mem ptr b k info = .ok (base, mem') := by
  have hsize : totalSize b k = b.toNat * k.toNat := Nat.mod_eq_of_lt hbk
  have hle : b.toNat ≤ totalSize b k := hsize ▸ Nat.le_mul_of_pos_right _ hk
  refine ⟨construct ptr b k info, mem.fill ptr 0 b.toNat, ?_⟩
  simp only [allocateBuffer, check, hptr, ne_eq, not_false_eq_true, if_true,
    if_pos (Nat.lt_of_lt_of_le hb hle), if_neg (Nat.not_lt.2 hle)]
  rfl

/-- The byte that the last call covering `a` has put there. -/
def lastPut (base : RDMABuffer) (cs : List FillCall) (a : ℕ) : Option UInt8 :=
  (ByteMem.lastWrite (cs.filterMap (FillCall.puts base)) a).map (·.byteAt a)

/-- **Blocks partition their buffer, and their contents are isolated**: after
    any calls of `fill_in` and `clear` on buffer and blocks, each byte is what
    the last call on an object that contains it has put there. -/
theorem allocateBuffer_partition (mem : ByteMem) {ptr : ℕ} {b : UInt64} {k : UInt32} (info : String)
    (hb : 1 ≤ b.toNat) (hk : 1 ≤ k.toNat) (hk31 : k.toNat ≤ 2 ^ 31)
    (hbk : b.toNat * k.toNat < 2 ^ 64) (hptr : ptr ≠ 0)
    (hspace : ptr + b.toNat * k.toNat ≤ 2 ^ 64) :
    ∃ base mem', allocateBuffer mem ptr b k info = .ok (base, mem') ∧
      base.Partition b.toNat k.toNat ∧
      ∀ m cs, (∀ c ∈ cs, FillCall.Passes base c) →
        ∃ m', FillCall.run base m cs = .ok m' ∧ ∀ a, m' a = (lastPut base cs a).getD (m a) := by
  obtain ⟨base, mem', h⟩ := exists_allocateBuffer mem info hb hk hbk hptr
  refine ⟨base, mem', h, ?_, ?_⟩
  · obtain ⟨rfl, -⟩ := allocateBuffer_ok h
    exact partition_construct ptr info hb hk31 hbk hspace
  · intro m cs hpass
    refine ⟨_, FillCall.run_eq hpass m, ?_⟩
    intro a
    exact ByteMem.writes_apply m _ a

/-- Two blocks: the buffer is filled, then its second block is cleared. -/
theorem allocateBuffer_partition_two : ∃ base mem' m',
    allocateBuffer (fun _ => 1) 4096 16 2 "data" = .ok (base, mem') ∧ base.Partition 16 2 ∧
      FillCall.run base mem' [.fillIn .base (fun _ => 7) 20, .clear (.block 1)] = .ok m' ∧
      m' 4096 = 7 ∧ m' 4112 = 0 ∧ m' 4128 = 1 := by
  have hspace : 4096 + (16 : UInt64).toNat * (2 : UInt32).toNat ≤ 2 ^ 64 := by decide
  obtain ⟨base, mem', h, hpart, hrun⟩ := allocateBuffer_partition (fun _ => 1) "data"
    (by decide) (by decide) (by decide) (by decide) (by decide) hspace
  obtain ⟨rfl, -, -, rfl⟩ := allocateBuffer_ok h
  obtain ⟨m', hm, hbyte⟩ := hrun _ [.fillIn .base (fun _ => 7) 20, .clear (.block 1)] (by
    intro c hc
    rcases List.mem_cons.1 hc with rfl | hc
    · exact ⟨_, rfl, by decide⟩
    · obtain rfl := List.mem_singleton.1 hc
      exact ⟨_, rfl, by decide⟩)
  refine ⟨_, _, m', h, hpart, hm, ?_, ?_, ?_⟩
  · exact (hbyte 4096).trans (by decide)
  · exact (hbyte 4112).trans (by decide)
  · exact (hbyte 4128).trans (by decide)

/-! ## What a fresh buffer holds -/

/-- "clean all the mem buf": buffer and blocks hold zeros. -/
def Zeroed (base : RDMABuffer) (mem : ByteMem) : Prop :=
  (∀ a ∈ base.range, mem a = 0) ∧
    ∀ i o, base.blockAt i = .ok o → ∀ a ∈ o.range, mem a = 0

/-- Where the constructor puts a block whose index is negative as an `int`. -/
def displacedPtr (ptr b i : ℕ) : ℕ := (ptr + (2 ^ 64 - 2 ^ 32 + i) * b) % 2 ^ 64

theorem dataPtr_blockOf_of_le (ptr : ℕ) (b : UInt64) (info : String) {i : ℕ} (hi : i < 2 ^ 32)
    (h31 : 2 ^ 31 ≤ i) : (blockOf ptr b info i).dataPtr = displacedPtr ptr b.toNat i := by
  simp only [blockOf, toSize_ofNat, displacedPtr]
  rw [Nat.mod_eq_of_lt (a := i) (b := 2 ^ 32) hi, if_neg (Nat.not_lt.2 h31)]

/-- A displaced block does not overlap the first block. -/
theorem displaced_disjoint {ptr b k i : ℕ} (hb : 0 < b) (hbk : b * k < 2 ^ 64) (hi : i < k)
    (h31 : 2 ^ 31 ≤ i) (hi32 : i < 2 ^ 32) (hptr : ptr + b * k ≤ 2 ^ 64) :
    displacedPtr ptr b i + b ≤ ptr ∨ ptr + b ≤ displacedPtr ptr b i := by
  -- the block lies `d` bytes before the buffer, modulo `2^64`
  obtain ⟨d, hd⟩ : ∃ d, d = (2 ^ 32 - i) * b := ⟨_, rfl⟩
  have hsum : (2 ^ 64 - 2 ^ 32 + i) * b + d = 2 ^ 64 * b := by
    rw [hd, ← Nat.add_mul]
    congr 1
    omega
  have hd1 : b ≤ d := hd ▸ Nat.le_mul_of_pos_left b (by omega)
  have hd2 : d + b ≤ b * k := by
    rw [hd, ← Nat.succ_mul, Nat.mul_comm b]
    exact Nat.mul_le_mul_right b (by omega)
  rcases Nat.lt_or_ge ptr d with hlt | hle
  · have hval : ptr + (2 ^ 64 - 2 ^ 32 + i) * b = 2 ^ 64 + ptr - d + 2 ^ 64 * (b - 1) := by
      have hpred : 2 ^ 64 * b = 2 ^ 64 * (b - 1) + 2 ^ 64 := by
        rw [← Nat.mul_succ]
        congr 1
        omega
      omega
    rw [displacedPtr, hval, Nat.add_mul_mod_self_left, Nat.mod_eq_of_lt (by omega)]
    omega
  · have hval : ptr + (2 ^ 64 - 2 ^ 32 + i) * b = ptr - d + 2 ^ 64 * b := by omega
    rw [displacedPtr, hval, Nat.add_mul_mod_self_left, Nat.mod_eq_of_lt (by omega)]
    omega

/-- **Fresh buffers are zero** exactly if the memory returned by
    `posix_memalign` was zero after the first block, and in the blocks that do
    not lie in the buffer. -/
theorem allocateBuffer_zeroed_iff {mem mem' : ByteMem} {ptr : ℕ} {b : UInt64} {k : UInt32}
    {info : String} {base : RDMABuffer} (h : allocateBuffer mem ptr b k info = .ok (base, mem'))
    (hbk : b.toNat * k.toNat < 2 ^ 64) (hptr : ptr + b.toNat * k.toNat ≤ 2 ^ 64) :
    base.Zeroed mem' ↔
      (∀ a, ptr + b.toNat ≤ a → a < ptr + b.toNat * k.toNat → mem a = 0) ∧
        ∀ i, 2 ^ 31 ≤ i → i < k.toNat → ∀ a, displacedPtr ptr b.toNat i ≤ a →
          a < displacedPtr ptr b.toNat i + b.toNat → mem a = 0 := by
  obtain ⟨rfl, hpos, -, rfl⟩ := allocateBuffer_ok h
  have hb : 0 < b.toNat := by
    refine Nat.pos_of_ne_zero fun hb0 => ?_
    rw [totalSize, hb0, Nat.zero_mul] at hpos
    exact absurd hpos (by decide)
  have hk32 : k.toNat < 2 ^ 32 := k.toNat_lt
  have hrange : (construct ptr b k info).range = Set.Ico ptr (ptr + b.toNat * k.toNat) := by
    rw [BufferObj.range, construct_dataPtr, construct_bufferSize ptr info hbk]
  have hfill := mem.fill_eq_zero_iff ptr b.toNat
  constructor
  · rintro ⟨hbuf, hblk⟩
    refine ⟨?_, ?_⟩
    · intro a ha ha'
      exact (hfill a).1 (hbuf a (by rw [hrange]; exact ⟨by omega, ha'⟩)) (by omega)
    · intro i h31 hi a ha ha'
      have hd := displaced_disjoint hb hbk hi h31 (by omega) hptr
      refine (hfill a).1 (hblk i _ ((blockAt_construct ptr b k info).2 ⟨hi, rfl⟩) a ?_) (by omega)
      rw [BufferObj.range, dataPtr_blockOf_of_le ptr b info (by omega) h31]
      exact ⟨ha, ha'⟩
  · rintro ⟨htail, hdis⟩
    have hbuf : ∀ a ∈ Set.Ico ptr (ptr + b.toNat * k.toNat), (mem.fill ptr 0 b.toNat) a = 0 := by
      rintro a ⟨ha, ha'⟩
      exact (hfill a).2 fun hn => htail a (by omega) ha'
    refine ⟨fun a ha => hbuf a (hrange ▸ ha), ?_⟩
    intro i o ho a ha
    obtain ⟨hi, rfl⟩ := (blockAt_construct ptr b k info).1 ho
    rcases Nat.lt_or_ge i (2 ^ 31) with h31 | h31
    · rw [BufferObj.range, dataPtr_blockOf ptr info hptr hb hi h31] at ha
      exact hbuf a ((mem_blocks_iff hb).2 ⟨i, hi, ha⟩)
    · rw [BufferObj.range, dataPtr_blockOf_of_le ptr b info (by omega) h31] at ha
      exact (hfill a).2 fun _ => hdis i h31 hi a ha.1 ha.2

/-- Two blocks, of which the second held zeros before. -/
theorem allocateBuffer_zeroed_two : ∃ base mem',
    allocateBuffer (fun a => if a < 4352 then 170 else 0) 4096 256 2 "data" = .ok (base, mem') ∧
      base.Zeroed mem' := by
  obtain ⟨base, mem', h⟩ : ∃ base mem',
    allocateBuffer (fun a => if a < 4352 then 170 else 0) 4096 256 2 "data" =
      .ok (base, mem') := ⟨_, _, rfl⟩
  refine ⟨base, mem', h, (allocateBuffer_zeroed_iff h (by decide) (by decide)).2 ⟨?_, ?_⟩⟩
  · intro a ha ha'
    have hsize : (256 : UInt64).toNat = 256 := rfl
    rw [hsize] at ha
    exact if_neg (by omega)
  · intro i h31 hi
    have htwo : (2 : UInt32).toNat = 2 := rfl
    omega

/-- The second block of a fresh buffer keeps what the memory held. -/
theorem allocateBuffer_not_zeroed : ∃ base mem',
    allocateBuffer (fun _ => 170) 4096 256 2 "data" = .ok (base, mem') ∧ ¬ base.Zeroed mem' := by
  refine ⟨_, _, rfl, fun hz => ?_⟩
  have h := hz.1 4352 ⟨by decide, by decide⟩
  exact absurd h (by decide)

/-! ## The objects that `at()` is called on -/

/-- `buffer_mgr_` of an object: the constructor of a block pushes nothing. -/
def bufferMgrOf (base : RDMABuffer) : Handle → List BufferObj
  | .base => base.bufferMgr
  | .block _ => []

/-- `at(index)` on any object of a base buffer. -/
def atOn (base : RDMABuffer) (on : Handle) (index : ℕ) : Except Fault Handle := do
  match base.object on with
  | none => throw .undefined
  | some o =>
    check (index < o.blocks) .blockIndex
    if index < (base.bufferMgrOf on).length then pure (.block index) else throw .undefined

end RDMABuffer

/-- A call on the object that the last call has returned. -/
inductive ObjCall where
  | blockAt (index : ℕ)
  | next
  | last

namespace ObjCall

/-- The base buffer after the call, and the object returned; `next()` and
    `last()` go through `base_buffer_`. -/
def exec : RDMABuffer × Handle → ObjCall → Except Fault (RDMABuffer × Handle)
  | (base, on), blockAt index => do
    let block ← base.atOn on index
    pure (base, block)
  | (base, _), next => do
    let (base, index) ← base.next
    pure (base, .block index)
  | (base, _), last => do
    let (base, index) ← base.last
    pure (base, .block index)

/-- A chain of calls, the first on the base buffer. -/
def chain (base : RDMABuffer) (cs : List ObjCall) : Except Fault (RDMABuffer × Handle) :=
  cs.foldlM exec (base, .base)

end ObjCall

namespace RDMABuffer

/-- `blocks_` of an object is the size of its `buffer_mgr_`, and every index
    that passes the `CHECK` of `at()` is in range. -/
def Represented (base : RDMABuffer) (on : Handle) : Prop :=
  ∃ o, base.object on = some o ∧ o.blocks = (base.bufferMgrOf on).length ∧
    ∀ index < o.blocks, ∃ block, (base.bufferMgrOf on)[index]? = some block

/-- What chains of calls keep. -/
structure ChainInv (s : RDMABuffer × Handle) : Prop where
  blocks : s.1.blocks = s.1.bufferMgr.length
  block : ∀ o ∈ s.1.bufferMgr, o.blocks = 1
  valid : ∀ i, s.2 = .block i → i < s.1.bufferMgr.length

theorem ChainInv.modify {base base' : RDMABuffer} {on : Handle} {j : ℕ} {b : Bool}
    (h : ChainInv (base, on)) (hj : j < base.bufferMgr.length)
    (hmgr : base'.bufferMgr = base.bufferMgr.modify j fun o => { o with inUsed := b })
    (hblocks : base'.blocks = base.blocks) : ChainInv (base', .block j) where
  blocks := by rw [hblocks, h.blocks, hmgr, List.length_modify]
  block o ho := by
    obtain ⟨i, hi⟩ := List.mem_iff_getElem?.1 (hmgr ▸ ho)
    rw [List.getElem?_modify, Option.map_eq_map, Option.map_eq_some_iff] at hi
    obtain ⟨o', ho', rfl⟩ := hi
    have hone := h.block o' (List.mem_of_getElem? ho')
    split_ifs <;> exact hone
  valid i hi := by
    obtain rfl := Handle.block.inj hi
    rw [hmgr, List.length_modify]
    exact hj

theorem atOn_eq_ok {base : RDMABuffer} {on block : Handle} {index : ℕ}
    (h : base.atOn on index = .ok block) :
    on = .base ∧ block = .block index ∧ index < base.bufferMgr.length := by
  unfold atOn at h
  split at h
  · cases h
  · obtain ⟨-, -, hread⟩ := Except.bind_eq_ok.1 h
    split_ifs at hread with hlt
    cases on with
    | base => exact ⟨rfl, (Except.pure_eq_ok.1 hread).symm, hlt⟩
    | block i => exact absurd hlt (Nat.not_lt_zero _)

/-- A call returns a block. -/
theorem ChainInv.exec {s s' : RDMABuffer × Handle} {c : ObjCall} (h : ChainInv s)
    (hc : c.exec s = .ok s') : ChainInv s' ∧ ∃ i, s'.2 = .block i := by
  obtain ⟨base, on⟩ := s
  cases c with
  | blockAt index =>
    simp only [ObjCall.exec, Except.bind_eq_ok, Except.pure_eq_ok] at hc
    obtain ⟨block, hat, rfl⟩ := hc
    obtain ⟨-, rfl, hlt⟩ := atOn_eq_ok hat
    refine ⟨⟨h.blocks, h.block, fun i hi => ?_⟩, index, rfl⟩
    obtain rfl := Handle.block.inj hi
    exact hlt
  | next =>
    simp only [ObjCall.exec, Except.bind_eq_ok, Except.pure_eq_ok] at hc
    obtain ⟨⟨base', j⟩, hnext, rfl⟩ := hc
    obtain ⟨hj, hmgr, hblocks⟩ := next_ok hnext
    exact ⟨h.modify hj hmgr hblocks, j, rfl⟩
  | last =>
    simp only [ObjCall.exec, Except.bind_eq_ok, Except.pure_eq_ok] at hc
    obtain ⟨⟨base', j⟩, hlast, rfl⟩ := hc
    obtain ⟨hj, hmgr, hblocks⟩ := last_ok hlast
    exact ⟨h.modify hj hmgr hblocks, j, rfl⟩

theorem ChainInv.chain {s s' : RDMABuffer × Handle} {cs : List ObjCall} (h : ChainInv s)
    (hc : cs.foldlM ObjCall.exec s = .ok s') : ChainInv s' := by
  induction cs generalizing s with
  | nil =>
    obtain rfl := Except.pure_eq_ok.1 hc
    exact h
  | cons c cs ih =>
    rw [List.foldlM_cons, Except.bind_eq_ok] at hc
    obtain ⟨s₁, h₁, hc⟩ := hc
    exact ih (h.exec h₁).1 hc

theorem chainInv_construct (ptr : ℕ) (b : UInt64) (k : UInt32) (info : String) :
    ChainInv (construct ptr b k info, .base) where
  blocks := by
    rw [length_construct, toBufferObj_construct]
    rfl
  block o ho := by
    rw [bufferMgr_construct] at ho
    obtain ⟨i, -, rfl⟩ := List.mem_map.1 ho
    rfl
  valid i hi := by cases hi

theorem ChainInv.represented_iff {base : RDMABuffer} {on : Handle} (h : ChainInv (base, on)) :
    base.Represented on ↔ on = .base := by
  cases on with
  | base =>
    simp only [Represented, object, bufferMgrOf, Option.some.injEq, exists_eq_left', iff_true]
    refine ⟨h.blocks, fun index hindex => ?_⟩
    rw [h.blocks] at hindex
    exact ⟨_, List.getElem?_eq_getElem hindex⟩
  | block i =>
    simp only [reduceCtorEq, iff_false]
    rintro ⟨o, ho, hlen, -⟩
    -- a block has one block, and no list of blocks
    have hone := h.block o (List.mem_of_getElem? ho)
    rw [hone] at hlen
    exact absurd hlen Nat.one_ne_zero

/-- **The representation behind `at()`** holds of the base buffer, and of no
    block that a chain of calls returns. -/
theorem chain_represented_iff {mem mem' : ByteMem} {ptr : ℕ} {b : UInt64} {k : UInt32}
    {info : String} {base base' : RDMABuffer} {on : Handle} {cs : List ObjCall}
    (h : allocateBuffer mem ptr b k info = .ok (base, mem'))
    (hc : ObjCall.chain base cs = .ok (base', on)) : base'.Represented on ↔ on = .base := by
  obtain ⟨rfl, -⟩ := allocateBuffer_ok h
  exact ((chainInv_construct ptr b k info).chain hc).represented_iff

theorem chain_represented_base : ∃ base mem',
    allocateBuffer (fun _ => 0) 4096 256 2 "data" = .ok (base, mem') ∧ base.Represented .base := by
  obtain ⟨base, mem', h⟩ : ∃ base mem',
    allocateBuffer (fun _ => 0) 4096 256 2 "data" = .ok (base, mem') := ⟨_, _, rfl⟩
  have hc : ObjCall.chain base [] = .ok (base, .base) := rfl
  exact ⟨base, mem', h, (chain_represented_iff h hc).2 rfl⟩

/-- `at(0)` on a block passes the `CHECK` and reads out of range. -/
theorem at_block_undefined : ∃ base mem',
    allocateBuffer (fun _ => 0) 4096 256 2 "data" = .ok (base, mem') ∧
      ObjCall.chain base [.blockAt 0] = .ok (base, .block 0) ∧ ¬ base.Represented (.block 0) ∧
      ObjCall.chain base [.blockAt 0, .blockAt 0] = .error .undefined := by
  refine ⟨_, _, rfl, rfl, ?_, rfl⟩
  rintro ⟨o, ho, hlen, -⟩
  obtain rfl := Option.some.inj ho
  exact absurd hlen (by decide)

end RDMABuffer

end RdmaCore

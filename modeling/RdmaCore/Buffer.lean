/-
  RDMABuffer (include/rdma_buffer.h, src/rdma_buffer.cc): a base buffer, the
  blocks it is split into, and the block ring.

  A base buffer owns its blocks for its whole life, and a block only points
  back to its base; the model therefore keeps the blocks inside the base
  (`bufferMgr`) and names a block by its index.  `size_t` and addresses are
  natural numbers reduced modulo `2^64`, `int` members are `BitVec 32`.

  * `allocateBuffer` is the constructor of a base buffer, with the recursive
    construction of the blocks (`split`);
  * `next` and `last` are the two cursors of the ring.
-/
import RdmaCore.Types
import Mathlib.Data.BitVec
import Mathlib.Tactic.NormNum

namespace RdmaCore

abbrev ChannelId := ℕ
abbrev BufferId := ℕ
abbrev MrId := ℕ

/-- The data members of one `RDMABuffer` object, base buffer or block. -/
structure BufferObj where
  bufferName : String
  bufferSize : ℕ
  /-- `0` is the null pointer -/
  dataPtr : ℕ
  ownedByChannel : Option ChannelId := none
  isInitialized : Bool := false
  mr : Option MrId := none
  nextActive : BitVec 32 := -1
  lastActive : BitVec 32 := -1
  inUsed : Bool := false
  bufferIndex : BitVec 32 := -1
  isSubBuffer : Bool := false
  blocks : ℕ := 1

/-- A base buffer with its blocks. -/
structure RDMABuffer extends BufferObj where
  bufferMgr : List BufferObj := []

/-- An object of a base buffer: the base itself or one of its blocks. -/
inductive Handle where
  | base
  | block (i : ℕ)
  deriving DecidableEq, Repr

/-- An `int` used as a `size_t`. -/
def toSize (x : BitVec 32) : ℕ := (x.signExtend 64).toNat

/-- A counter as a `size_t`: the sign extension adds `2^64 - 2^32` while it is
    negative. -/
theorem toSize_ofNat (n : ℕ) : toSize (BitVec.ofNat 32 n) =
    if n % 2 ^ 32 < 2 ^ 31 then n % 2 ^ 32 else 2 ^ 64 - 2 ^ 32 + n % 2 ^ 32 := by
  have hn : n % 2 ^ 32 < 2 ^ 32 := Nat.mod_lt _ (by norm_num)
  rw [toSize, BitVec.toNat_signExtend, BitVec.toNat_setWidth, BitVec.toNat_ofNat,
    BitVec.msb_eq_decide, BitVec.toNat_ofNat, Nat.mod_eq_of_lt (b := 2 ^ 64) (by omega)]
  split_ifs with h1 h2 h2 <;> simp only [decide_eq_true_eq] at h1 <;> omega

namespace RDMABuffer

/-- The object a handle refers to. -/
def object (base : RDMABuffer) : Handle → Option BufferObj
  | .base => some base.toBufferObj
  | .block i => base.bufferMgr[i]?

/-- Base buffer and blocks with a new channel and region. -/
def setRegistration (base : RDMABuffer) (c : ChannelId) (mr : MrId) : RDMABuffer :=
  { base with
    ownedByChannel := some c
    mr := some mr
    bufferMgr := base.bufferMgr.map fun o => { o with ownedByChannel := some c, mr := some mr } }

/-! ## Construction -/

/-- `get_block_size()` -/
def getBlockSize (base : RDMABuffer) : ℕ := base.bufferMgr.length % 2 ^ 32

/-- The constructor with `is_sub_buffer = true` (and one block). -/
def subBuffer (base : RDMABuffer) (bufferSizeInByte : UInt64) (bufferInfo : String) : BufferObj :=
  let bufferIndex := BitVec.ofNat 32 base.getBlockSize
  { bufferName := bufferInfo
    bufferSize := bufferSizeInByte.toNat
    dataPtr := (base.dataPtr + toSize bufferIndex * bufferSizeInByte.toNat) % 2 ^ 64
    ownedByChannel := base.ownedByChannel
    isInitialized := true
    mr := base.mr
    bufferIndex := bufferIndex
    isSubBuffer := true }

/-- The loop "split the buffer": `n` blocks still to push, `bIndex` pushed. -/
def split (bufferSizeInByte : UInt64) (bufferInfo : String) : ℕ → ℕ → RDMABuffer → RDMABuffer
  | 0, _, base => base
  | n + 1, bIndex, base =>
    let block := base.subBuffer bufferSizeInByte (toString bIndex ++ "@" ++ bufferInfo)
    split bufferSizeInByte bufferInfo n (bIndex + 1)
      { base with bufferMgr := base.bufferMgr ++ [block] }

/-- The size of a base buffer, `(size_t)buffer_size_in_byte * (size_t)num_blocks`. -/
def totalSize (bufferSizeInByte : UInt64) (numBlocks : UInt32) : ℕ :=
  bufferSizeInByte.toNat * numBlocks.toNat % 2 ^ 64

/-- The members of a base buffer before it is split. -/
def unsplit (ptr : ℕ) (bufferSizeInByte : UInt64) (numBlocks : UInt32) (bufferInfo : String) :
    RDMABuffer where
  bufferName := bufferInfo
  bufferSize := totalSize bufferSizeInByte numBlocks
  dataPtr := ptr
  blocks := numBlocks.toNat

/-- The base buffer built by the constructor, with its blocks. -/
def construct (ptr : ℕ) (bufferSizeInByte : UInt64) (numBlocks : UInt32) (bufferInfo : String) :
    RDMABuffer :=
  { split bufferSizeInByte bufferInfo numBlocks.toNat 0
      (unsplit ptr bufferSizeInByte numBlocks bufferInfo) with isInitialized := true }

/-- `allocate_buffer`: the constructor of a base buffer at the address `ptr`
    returned by `posix_memalign` (`0` if it fails), and the memory after it. -/
def allocateBuffer (mem : ByteMem) (ptr : ℕ) (bufferSizeInByte : UInt64) (numBlocks : UInt32)
    (bufferInfo : String) : Except Fault (RDMABuffer × ByteMem) := do
  let size := totalSize bufferSizeInByte numBlocks
  check (0 < size) .emptyBuffer
  check (ptr ≠ 0) .memalign
  let base := construct ptr bufferSizeInByte numBlocks bufferInfo
  -- the memset clears one block; it runs past the allocation if the product wrapped around
  if size < bufferSizeInByte.toNat then throw .undefined
  pure (base, mem.fill ptr 0 bufferSizeInByte.toNat)

/-! ## The block ring -/

/-- `at(index)`, called on the base buffer. -/
def blockAt (base : RDMABuffer) (index : ℕ) : Except Fault BufferObj := do
  check (index < base.blocks) .blockIndex
  match base.bufferMgr[index]? with
  | some block => pure block
  | none => throw .undefined

/-- `next()`: the base buffer after the call, and the index of the block returned. -/
def next (base : RDMABuffer) : Except Fault (RDMABuffer × ℕ) :=
  let cursor := base.nextActive + 1
  let index := toSize cursor % base.blocks
  if index < base.bufferMgr.length then
    .ok ({ base with
      nextActive := cursor
      bufferMgr := base.bufferMgr.modify index fun b => { b with inUsed := true } }, index)
  else .error .undefined

/-- `last()` -/
def last (base : RDMABuffer) : Except Fault (RDMABuffer × ℕ) :=
  let cursor := base.lastActive + 1
  let index := toSize cursor % base.blocks
  if index < base.bufferMgr.length then
    .ok ({ base with
      lastActive := cursor
      bufferMgr := base.bufferMgr.modify index fun b => { b with inUsed := false } }, index)
  else .error .undefined

/-- What `next()` changes, apart from its cursor. -/
theorem next_ok {base base' : RDMABuffer} {j : ℕ} (h : base.next = .ok (base', j)) :
    j < base.bufferMgr.length ∧
      base'.bufferMgr = (base.bufferMgr.modify j fun o => { o with inUsed := true }) ∧
      base'.blocks = base.blocks := by
  simp only [next] at h
  split_ifs at h with hlt
  obtain ⟨rfl, rfl⟩ := Prod.mk.inj (Except.ok.inj h)
  exact ⟨hlt, rfl, rfl⟩

theorem last_ok {base base' : RDMABuffer} {j : ℕ} (h : base.last = .ok (base', j)) :
    j < base.bufferMgr.length ∧
      base'.bufferMgr = (base.bufferMgr.modify j fun o => { o with inUsed := false }) ∧
      base'.blocks = base.blocks := by
  simp only [last] at h
  split_ifs at h with hlt
  obtain ⟨rfl, rfl⟩ := Prod.mk.inj (Except.ok.inj h)
  exact ⟨hlt, rfl, rfl⟩

/-! ## What the constructor establishes -/

/-- The loop only pushes blocks. -/
theorem toBufferObj_split (b : UInt64) (info : String) :
    ∀ (n i : ℕ) (base : RDMABuffer), (split b info n i base).toBufferObj = base.toBufferObj
  | 0, _, _ => rfl
  | n + 1, i, base => by rw [split, toBufferObj_split b info n (i + 1)]

/-- Block `i` of a base buffer at `ptr`, as it is constructed. -/
def blockOf (ptr : ℕ) (b : UInt64) (info : String) (i : ℕ) : BufferObj where
  bufferName := toString i ++ "@" ++ info
  bufferSize := b.toNat
  dataPtr := (ptr + toSize (BitVec.ofNat 32 i) * b.toNat) % 2 ^ 64
  isInitialized := true
  bufferIndex := BitVec.ofNat 32 i
  isSubBuffer := true

/-- The loop pushes the blocks one after another. -/
theorem bufferMgr_split (b : UInt64) (info : String) (n : ℕ) (base : RDMABuffer)
    (hown : base.ownedByChannel = none) (hmr : base.mr = none) :
    (split b info n base.bufferMgr.length base).bufferMgr =
      base.bufferMgr ++ (List.range' base.bufferMgr.length n).map (blockOf base.dataPtr b info) := by
  induction n generalizing base with
  | zero => simp [split]
  | succ n ih =>
    have hblock : base.subBuffer b (toString base.bufferMgr.length ++ "@" ++ info) =
        blockOf base.dataPtr b info base.bufferMgr.length := by
      have hindex : BitVec.ofNat 32 base.getBlockSize = BitVec.ofNat 32 base.bufferMgr.length :=
        BitVec.eq_of_toNat_eq (by simp [getBlockSize])
      simp only [subBuffer, blockOf, hindex, hown, hmr]
    rw [split, hblock]
    have hlen := ih { base with
      bufferMgr := base.bufferMgr ++ [blockOf base.dataPtr b info base.bufferMgr.length] } hown hmr
    simp only [List.length_append, List.length_singleton] at hlen
    rw [hlen, List.append_assoc, List.range'_succ, List.map_cons]
    rfl

section
variable (ptr : ℕ) (b : UInt64) (k : UInt32) (info : String)

theorem toBufferObj_construct : (construct ptr b k info).toBufferObj =
    { (unsplit ptr b k info).toBufferObj with isInitialized := true } := by
  simp [construct, toBufferObj_split]

@[simp] theorem construct_ownedByChannel : (construct ptr b k info).ownedByChannel = none := by
  rw [toBufferObj_construct]; rfl

@[simp] theorem construct_mr : (construct ptr b k info).mr = none := by
  rw [toBufferObj_construct]; rfl

/-- The blocks of a base buffer. -/
theorem bufferMgr_construct :
    (construct ptr b k info).bufferMgr = (List.range k.toNat).map (blockOf ptr b info) := by
  have h := bufferMgr_split b info k.toNat (unsplit ptr b k info) rfl rfl
  rw [List.range_eq_range']
  exact h

@[simp] theorem length_construct : (construct ptr b k info).bufferMgr.length = k.toNat := by
  rw [bufferMgr_construct, List.length_map, List.length_range]

theorem mem_construct {o : BufferObj} (h : o ∈ (construct ptr b k info).bufferMgr) :
    o.ownedByChannel = none ∧ o.mr = none ∧ o.inUsed = false := by
  rw [bufferMgr_construct] at h
  obtain ⟨i, -, rfl⟩ := List.mem_map.1 h
  exact ⟨rfl, rfl, rfl⟩

end

/-- What `allocateBuffer` returns. -/
theorem allocateBuffer_ok {mem mem' : ByteMem} {ptr : ℕ} {b : UInt64} {k : UInt32} {info : String}
    {base : RDMABuffer} (h : allocateBuffer mem ptr b k info = .ok (base, mem')) :
    base = construct ptr b k info ∧ 0 < totalSize b k ∧ ptr ≠ 0 ∧
      mem' = mem.fill ptr 0 b.toNat := by
  unfold allocateBuffer at h
  simp only [check, bind, Except.bind, pure, Except.pure, throw, throwThe,
    MonadExceptOf.throw] at h
  split_ifs at h with h1 h2 h3
  simp only [Except.ok.injEq, Prod.mk.injEq] at h
  exact ⟨h.1.symm, h1, h2, h.2.symm⟩

end RDMABuffer

end RdmaCore

/-
  Buffers, channels and memory regions together: registration, deregistration
  and destruction (src/rdma_buffer.cc, src/rdma_channel.cc, `register_mem` and
  `deregister_mem` of src/rdma_adapter.cc and src/rdma_device.cc), and the
  posting operations `send_remote`, `recv_remote`, `read_remote`,
  `write_remote`.

  A `World` holds the live channels and base buffers of the process and all
  memory regions ever registered; `step` is one call of the user.  What the
  environment decides (the memory returned by `posix_memalign`, the keys of a
  new region) is part of the action.

  `deregisterFromChannel` follows the source: it resets the base buffer only,
  its blocks keep the old channel and region.
-/
import RdmaCore.Types
import RdmaCore.Buffer
import RdmaCore.Lib.Lts
import Std.Data.TreeMap.Lemmas
import Mathlib.Logic.Function.Basic

namespace RdmaCore

/-- A memory region (`struct ibv_mr`); deregistering it clears `registered`. -/
structure MemRegion where
  pd : ℕ
  addr : ℕ
  length : ℕ
  lkey : UInt32
  rkey : UInt32
  registered : Bool := true

/-- What a channel contributes to registration: its protection domain (`0` is
    null) and the buffers registered in it, by name. -/
structure RDMAChannel where
  pd : ℕ
  owningBuffers : Std.TreeMap String BufferId := ∅

structure World where
  mem : ByteMem
  /-- address and size of the blocks allocated by `posix_memalign` -/
  heap : List (ℕ × ℕ)
  channels : ChannelId → Option RDMAChannel
  buffers : BufferId → Option RDMABuffer
  mrs : List MemRegion

namespace World

/-- `n` channels, loaded (each with a protection domain of its own), and no buffer. -/
def init (n : ℕ) : World where
  mem := fun _ => 0
  heap := []
  channels := fun c => if c < n then some { pd := c + 1 } else none
  buffers := fun _ => none
  mrs := []

/-- Following a pointer to a buffer. -/
def getBuffer (w : World) (b : BufferId) : Except Fault RDMABuffer :=
  match w.buffers b with
  | some buf => .ok buf
  | none => .error .undefined

/-- Following a pointer to a channel. -/
def getChannel (w : World) (c : ChannelId) : Except Fault RDMAChannel :=
  match w.channels c with
  | some ch => .ok ch
  | none => .error .undefined

def setBuffer (w : World) (b : BufferId) (buf : RDMABuffer) : World :=
  { w with buffers := Function.update w.buffers b (some buf) }

def setChannel (w : World) (c : ChannelId) (ch : RDMAChannel) : World :=
  { w with channels := Function.update w.channels c (some ch) }

/-! ## Registration -/

/-- `real_register_mem`: the new region is the last of `mrs`. -/
def realRegisterMem (w : World) (pd dataPtr sizeInByte : ℕ) (lkey rkey : UInt32) :
    Except Fault (World × MrId) := do
  check (pd ≠ 0) .emptyPd
  check (0 < sizeInByte) .zeroSize
  check (dataPtr ≠ 0) .nullData
  let mr : MemRegion := { pd, addr := dataPtr, length := sizeInByte, lkey, rkey }
  pure ({ w with mrs := w.mrs ++ [mr] }, w.mrs.length)

/-- `real_deregister_mem`; the region must still be registered. -/
def realDeregisterMem (w : World) (mr : MrId) : Except Fault World :=
  match w.mrs[mr]? with
  | some r =>
    if r.registered then .ok { w with mrs := w.mrs.set mr { r with registered := false } }
    else .error .undefined
  | none => .error .undefined

/-- `RDMABuffer::register_in_channel` -/
def registerInChannel (w : World) (b : BufferId) (c : ChannelId) (lkey rkey : UInt32) :
    Except Fault World := do
  let buf ← w.getBuffer b
  check (buf.isSubBuffer = false) .subBuffer
  let ch ← w.getChannel c
  let (w, mr) ← w.realRegisterMem ch.pd buf.dataPtr buf.bufferSize lkey rkey
  pure (w.setBuffer b (buf.setRegistration c mr))

/-- `RDMAChannel::register_buffer` -/
def registerBuffer (w : World) (c : ChannelId) (b : BufferId) (lkey rkey : UInt32) :
    Except Fault World := do
  let buf ← w.getBuffer b
  let ch ← w.getChannel c
  check (buf.bufferName ∉ ch.owningBuffers) .alreadyRegistered
  let w ← w.registerInChannel b c lkey rkey
  pure (w.setChannel c { ch with owningBuffers := ch.owningBuffers.insert buf.bufferName b })

/-- `RDMAChannel::remove_buffer` -/
def removeBuffer (w : World) (c : ChannelId) (name : String) : Except Fault World := do
  let ch ← w.getChannel c
  pure (w.setChannel c { ch with owningBuffers := ch.owningBuffers.erase name })

/-- `RDMABuffer::deregister_from_channel`, with `none` for a null channel. -/
def deregisterFromChannel (w : World) (b : BufferId) : Option ChannelId → Except Fault World
  | none => pure w
  | some c => do
    let buf ← w.getBuffer b
    check (buf.isSubBuffer = false) .subBuffer
    match buf.mr with
    | none => throw (.check .illegalMr)
    | some mr =>
      let w ← w.realDeregisterMem mr
      let w ← w.removeBuffer c buf.bufferName
      pure (w.setBuffer b { buf with ownedByChannel := none, mr := none })

/-! ## Destruction -/

/-- `RDMABuffer::~RDMABuffer` of a base buffer.  The blocks are cleared and
    never used again. -/
def destroyBuffer (w : World) (b : BufferId) : Except Fault World := do
  let buf ← w.getBuffer b
  let w ← w.deregisterFromChannel b buf.ownedByChannel
  pure { w with
    buffers := Function.update w.buffers b none
    heap := w.heap.erase (buf.dataPtr, buf.bufferSize) }

/-- What the loop of `~RDMAChannel` has done. -/
structure Teardown where
  world : World
  visited : List BufferId := []
  deregistered : List (Option MrId) := []

/-- The loop of `RDMAChannel::~RDMAChannel` over `owning_buffers`, from a list
    of its nodes on: a node erased meanwhile is not reached, and advancing the
    iterator from an erased node is undefined. -/
def destroyLoop (c : ChannelId) : List (String × BufferId) → Teardown → Except Fault Teardown
  | [], t => .ok t
  | (name, b) :: nodes, t => do
    let ch ← t.world.getChannel c
    if name ∉ ch.owningBuffers then destroyLoop c nodes t
    else
      let buf ← t.world.getBuffer b
      let w ← t.world.deregisterFromChannel b (some c)
      let ch ← w.getChannel c
      if name ∉ ch.owningBuffers then throw .undefined
      destroyLoop c nodes ⟨w, t.visited ++ [b], t.deregistered ++ [buf.mr]⟩

/-- The loop of the destructor of a channel. -/
def teardown (w : World) (c : ChannelId) : Except Fault Teardown := do
  let ch ← w.getChannel c
  destroyLoop c ch.owningBuffers.toList { world := w }

/-- `RDMAChannel::~RDMAChannel` -/
def destroyChannel (w : World) (c : ChannelId) : Except Fault World := do
  let t ← w.teardown c
  pure { t.world with channels := Function.update t.world.channels c none }

/-! ## Runs -/

/-- Calls of the user. -/
inductive Action where
  /-- `allocate_buffer`, with the object `b` and the memory at `ptr` -/
  | allocate (b : BufferId) (ptr : ℕ) (size : UInt64) (numBlocks : UInt32) (name : String)
  /-- `c->register_buffer(b)`, with the keys of the new region -/
  | register (c : ChannelId) (b : BufferId) (lkey rkey : UInt32)
  /-- `b->deregister_from_channel(c)` -/
  | deregister (b : BufferId) (c : ChannelId)
  | destroyBuffer (b : BufferId)
  | destroyChannel (c : ChannelId)

/-- The memory at `ptr` is free for `size` bytes. -/
def FreeAt (w : World) (ptr size : ℕ) : Prop :=
  ptr + size ≤ 2 ^ 64 ∧ ∀ a ∈ w.heap, ptr + size ≤ a.1 ∨ a.1 + a.2 ≤ ptr

instance (w : World) (ptr size : ℕ) : Decidable (w.FreeAt ptr size) :=
  inferInstanceAs (Decidable (_ ∧ _))

/-- One call; `none` if it does not return, or if the environment cannot
    answer it this way (memory in use, a key that was given before). -/
def step (w : World) : Action → Option World
  | .allocate b ptr size numBlocks name =>
    let total := RDMABuffer.totalSize size numBlocks
    if w.buffers b = none ∧ w.FreeAt ptr total then
      match RDMABuffer.allocateBuffer w.mem ptr size numBlocks name with
      | .ok (buf, mem) => some { w.setBuffer b buf with mem := mem, heap := (ptr, total) :: w.heap }
      | .error _ => none
    else none
  | .register c b lkey rkey =>
    if lkey ∈ w.mrs.map (·.lkey) then none else (w.registerBuffer c b lkey rkey).toOption
  | .deregister b c => (w.deregisterFromChannel b (some c)).toOption
  | .destroyBuffer b => (w.destroyBuffer b).toOption
  | .destroyChannel c => (w.destroyChannel c).toOption

/-! ## What a call does -/

section
variable {w w' : World} {b : BufferId} {c : ChannelId} {lkey rkey : UInt32}

theorem update_eq_some {α : Type} {f : ℕ → Option α} {i j : ℕ} {x : Option α} {y : α} :
    Function.update f i x j = some y ↔ (j = i ∧ x = some y) ∨ (j ≠ i ∧ f j = some y) := by
  rcases eq_or_ne j i with rfl | hne
  · simp
  · simp [hne]

@[simp] theorem getBuffer_eq_ok {buf : RDMABuffer} :
    w.getBuffer b = .ok buf ↔ w.buffers b = some buf := by
  unfold getBuffer; split <;> simp [*]

@[simp] theorem getChannel_eq_ok {ch : RDMAChannel} :
    w.getChannel c = .ok ch ↔ w.channels c = some ch := by
  unfold getChannel; split <;> simp [*]

/-- The region that registers `buf` in `ch`. -/
def regionOf (ch : RDMAChannel) (buf : RDMABuffer) (lkey rkey : UInt32) : MemRegion :=
  { pd := ch.pd, addr := buf.dataPtr, length := buf.bufferSize, lkey, rkey }

/-- The world after a successful registration. -/
def registered (w : World) (c : ChannelId) (ch : RDMAChannel) (b : BufferId) (buf : RDMABuffer)
    (lkey rkey : UInt32) : World :=
  { w with
    mrs := w.mrs ++ [regionOf ch buf lkey rkey]
    buffers := Function.update w.buffers b (some (buf.setRegistration c w.mrs.length))
    channels := Function.update w.channels c
      (some { ch with owningBuffers := ch.owningBuffers.insert buf.bufferName b }) }

/-- The world after a successful deregistration. -/
def deregistered (w : World) (c : ChannelId) (ch : RDMAChannel) (b : BufferId) (buf : RDMABuffer)
    (mr : MrId) (r : MemRegion) : World :=
  { w with
    mrs := w.mrs.set mr { r with registered := false }
    buffers := Function.update w.buffers b (some { buf with ownedByChannel := none, mr := none })
    channels := Function.update w.channels c
      (some { ch with owningBuffers := ch.owningBuffers.erase buf.bufferName }) }

theorem realRegisterMem_ok {pd a n : ℕ} {mr : MrId}
    (h : w.realRegisterMem pd a n lkey rkey = .ok (w', mr)) :
    w' = { w with mrs := w.mrs ++ [{ pd, addr := a, length := n, lkey, rkey }] } ∧
      mr = w.mrs.length := by
  simp only [realRegisterMem, Except.bind_eq_ok, check_eq_ok, Except.pure_eq_ok,
    Prod.mk.injEq] at h
  obtain ⟨-, -, -, -, -, -, rfl, rfl⟩ := h
  exact ⟨rfl, rfl⟩

theorem realDeregisterMem_ok {mr : MrId} (h : w.realDeregisterMem mr = .ok w') :
    ∃ r, w.mrs[mr]? = some r ∧ r.registered = true ∧
      w' = { w with mrs := w.mrs.set mr { r with registered := false } } := by
  unfold realDeregisterMem at h
  split at h
  · next r hr =>
    split_ifs at h with hreg
    exact ⟨r, hr, hreg, (Except.ok.inj h).symm⟩
  · cases h

theorem registerBuffer_ok (h : w.registerBuffer c b lkey rkey = .ok w') :
    ∃ buf ch, w.buffers b = some buf ∧ w.channels c = some ch ∧
      buf.bufferName ∉ ch.owningBuffers ∧ w' = w.registered c ch b buf lkey rkey := by
  simp only [registerBuffer, registerInChannel, Except.bind_eq_ok, getBuffer_eq_ok,
    getChannel_eq_ok, check_eq_ok, Except.pure_eq_ok] at h
  obtain ⟨buf, hbuf, ch, hch, -, hname, -, ⟨buf', hbuf', -, -, ch', hch', ⟨w₁, mr⟩, hreg, rfl⟩,
    rfl⟩ := h
  obtain rfl : buf = buf' := Option.some.inj (hbuf.symm.trans hbuf')
  obtain rfl : ch = ch' := Option.some.inj (hch.symm.trans hch')
  obtain ⟨rfl, rfl⟩ := realRegisterMem_ok hreg
  exact ⟨buf, ch, hbuf, hch, hname, rfl⟩

theorem deregisterFromChannel_ok (h : w.deregisterFromChannel b (some c) = .ok w') :
    ∃ buf ch mr r, w.buffers b = some buf ∧ w.channels c = some ch ∧ buf.mr = some mr ∧
      w.mrs[mr]? = some r ∧ r.registered = true ∧ w' = w.deregistered c ch b buf mr r := by
  simp only [deregisterFromChannel, Except.bind_eq_ok, getBuffer_eq_ok, check_eq_ok] at h
  obtain ⟨buf, hbuf, -, -, h⟩ := h
  split at h
  · cases h
  · next mr hmr =>
    simp only [removeBuffer, Except.bind_eq_ok, getChannel_eq_ok, Except.pure_eq_ok] at h
    obtain ⟨w₁, hw₁, w₂, ⟨ch, hch, rfl⟩, rfl⟩ := h
    obtain ⟨r, hr, hreg, rfl⟩ := realDeregisterMem_ok hw₁
    exact ⟨buf, ch, mr, r, hbuf, hch, hmr, hr, hreg, rfl⟩

/-- The world after the destruction of a buffer that is not registered. -/
def freed (w : World) (b : BufferId) (buf : RDMABuffer) : World :=
  { w with
    buffers := Function.update w.buffers b none
    heap := w.heap.erase (buf.dataPtr, buf.bufferSize) }

theorem destroyBuffer_ok (h : w.destroyBuffer b = .ok w') :
    ∃ buf w₁, w.buffers b = some buf ∧
      w.deregisterFromChannel b buf.ownedByChannel = .ok w₁ ∧ w' = w₁.freed b buf := by
  simp only [destroyBuffer, Except.bind_eq_ok, getBuffer_eq_ok, Except.pure_eq_ok] at h
  obtain ⟨buf, hbuf, w₁, hw₁, rfl⟩ := h
  exact ⟨buf, w₁, hbuf, hw₁, rfl⟩

theorem destroyChannel_ok (h : w.destroyChannel c = .ok w') :
    ∃ ch t, w.channels c = some ch ∧ destroyLoop c ch.owningBuffers.toList { world := w } = .ok t ∧
      w' = { t.world with channels := Function.update t.world.channels c none } := by
  simp only [destroyChannel, teardown, Except.bind_eq_ok, getChannel_eq_ok,
    Except.pure_eq_ok] at h
  obtain ⟨t, ⟨ch, hch, ht⟩, rfl⟩ := h
  exact ⟨ch, t, hch, ht, rfl⟩

/-- One round of the loop of the destructor: the node was erased before, or it
    is visited and then still there. -/
theorem destroyLoop_cons_ok {t t' : Teardown} {name : String} {nodes : List (String × BufferId)}
    (h : destroyLoop c ((name, b) :: nodes) t = .ok t') :
    ∃ ch, t.world.channels c = some ch ∧
      ((name ∉ ch.owningBuffers ∧ destroyLoop c nodes t = .ok t') ∨
        (name ∈ ch.owningBuffers ∧ ∃ buf w ch', t.world.buffers b = some buf ∧
          t.world.deregisterFromChannel b (some c) = .ok w ∧ w.channels c = some ch' ∧
          name ∈ ch'.owningBuffers ∧
          destroyLoop c nodes ⟨w, t.visited ++ [b], t.deregistered ++ [buf.mr]⟩ = .ok t')) := by
  rw [destroyLoop, Except.bind_eq_ok] at h
  obtain ⟨ch, hch, h⟩ := h
  refine ⟨ch, getChannel_eq_ok.1 hch, ?_⟩
  split_ifs at h with hname
  · simp only [Except.bind_eq_ok, getBuffer_eq_ok, getChannel_eq_ok] at h
    obtain ⟨buf, hbuf, w, hw, ch', hch', h⟩ := h
    split_ifs at h with hin
    · exact Or.inr ⟨hname, buf, w, ch', hbuf, hw, hch', hin, h⟩
    · cases h
  · exact Or.inl ⟨hname, h⟩

/-- The world after a successful allocation. -/
def allocated (w : World) (b : BufferId) (ptr : ℕ) (size : UInt64) (numBlocks : UInt32)
    (name : String) : World :=
  { w with
    mem := w.mem.fill ptr 0 size.toNat
    heap := (ptr, RDMABuffer.totalSize size numBlocks) :: w.heap
    buffers := Function.update w.buffers b (some (RDMABuffer.construct ptr size numBlocks name)) }

/-- **What a call of the user can do.** -/
theorem step_cases {a : Action} (h : w.step a = some w') :
    (∃ b ptr size k name, a = .allocate b ptr size k name ∧ w.buffers b = none ∧
      w' = w.allocated b ptr size k name) ∨
    (∃ c b lkey rkey buf ch, a = .register c b lkey rkey ∧ lkey ∉ w.mrs.map (·.lkey) ∧
      w.buffers b = some buf ∧ w.channels c = some ch ∧ buf.bufferName ∉ ch.owningBuffers ∧
      w' = w.registered c ch b buf lkey rkey) ∨
    (∃ b c, a = .deregister b c ∧ w.deregisterFromChannel b (some c) = .ok w') ∨
    (∃ b buf w₁, a = .destroyBuffer b ∧ w.buffers b = some buf ∧
      w.deregisterFromChannel b buf.ownedByChannel = .ok w₁ ∧ w' = w₁.freed b buf) ∨
    (∃ c ch t, a = .destroyChannel c ∧ w.channels c = some ch ∧
      destroyLoop c ch.owningBuffers.toList { world := w } = .ok t ∧
      w' = { t.world with channels := Function.update t.world.channels c none }) := by
  cases a with
  | allocate b ptr size k name =>
    refine Or.inl ⟨b, ptr, size, k, name, rfl, ?_⟩
    simp only [step] at h
    split_ifs at h with hfree
    split at h
    · next buf mem hbuf =>
      obtain ⟨rfl, -, -, rfl⟩ := RDMABuffer.allocateBuffer_ok hbuf
      exact ⟨hfree.1, (Option.some.inj h).symm⟩
    · cases h
  | register c b lkey rkey =>
    simp only [step] at h
    split_ifs at h with hkey
    obtain ⟨buf, ch, hbuf, hch, hname, hw'⟩ := registerBuffer_ok (Lts.toOption_eq_some.1 h)
    exact Or.inr (Or.inl ⟨c, b, lkey, rkey, buf, ch, rfl, hkey, hbuf, hch, hname, hw'⟩)
  | deregister b c => exact Or.inr (Or.inr (Or.inl ⟨b, c, rfl, Lts.toOption_eq_some.1 h⟩))
  | destroyBuffer b =>
    obtain ⟨buf, w₁, hbuf, hw₁, hw'⟩ := destroyBuffer_ok (Lts.toOption_eq_some.1 h)
    exact Or.inr (Or.inr (Or.inr (Or.inl ⟨b, buf, w₁, rfl, hbuf, hw₁, hw'⟩)))
  | destroyChannel c =>
    obtain ⟨ch, t, hch, ht, hw'⟩ := destroyChannel_ok (Lts.toOption_eq_some.1 h)
    exact Or.inr (Or.inr (Or.inr (Or.inr ⟨c, ch, t, rfl, hch, ht, hw'⟩)))

end

/-! ## Posting -/

inductive Opcode where
  | sendWithImm | recv | rdmaWrite | rdmaWriteWithImm | rdmaRead
  deriving DecidableEq, Repr

/-- The part of a posted work request that refers to memory. -/
structure WorkRequest where
  opcode : Opcode
  addr : ℕ
  length : ℕ
  lkey : UInt32
  imm : Option UInt32 := none
  remote : Option (UInt64 × UInt32) := none

/-- `RDMABuffer::security_check` -/
def securityCheck (o : BufferObj) : Except Fault Unit := do
  check (o.bufferSize ≠ 0) .zeroSize
  check (o.dataPtr ≠ 0) .nullData
  check (o.ownedByChannel ≠ none) .notOwned

/-- `mr_->lkey`, read through a pointer that is not checked: a region that was
    deregistered meanwhile still yields its old key. -/
def loadLkey (w : World) (o : BufferObj) : Except Fault UInt32 :=
  match o.mr.bind (w.mrs[·]?) with
  | some r => .ok r.lkey
  | none => .error .undefined

/-- The common part of the four posting operations: the checks of the local
    buffer, of the length against the bound `limit` of a remote one, and the
    scatter entry. -/
def postOn (w : World) (o : BufferObj) (len : UInt32) (limit : ℕ) (opcode : Opcode)
    (imm : Option UInt32) (remote : Option (UInt64 × UInt32)) : Except Fault WorkRequest := do
  securityCheck o
  check (len.toNat ≤ o.bufferSize ∧ len.toNat ≤ limit) .dataLength
  let lkey ← w.loadLkey o
  pure { opcode, addr := o.dataPtr, length := len.toNat, lkey, imm, remote }

/-- `RDMAAdapter::send_remote` -/
def sendRemote (w : World) (o : BufferObj) (len msgTag : UInt32) : Except Fault WorkRequest :=
  w.postOn o len o.bufferSize .sendWithImm (some msgTag) none

/-- `RDMAAdapter::recv_remote` -/
def recvRemote (w : World) (o : BufferObj) (len : UInt32) : Except Fault WorkRequest :=
  w.postOn o len o.bufferSize .recv none none

/-- `RDMAAdapter::read_remote` -/
def readRemote (w : World) (o : BufferObj) (len : UInt32) (d : CommDescriptor) :
    Except Fault WorkRequest :=
  w.postOn o len d.bufferLength.toNat .rdmaRead none (some (d.bufferAddr, d.rkey))

/-- `RDMAAdapter::write_remote` -/
def writeRemote (w : World) (o : BufferObj) (len : UInt32) (d : CommDescriptor) (msgTag : UInt32)
    (notifyPeer : Bool) : Except Fault WorkRequest :=
  if notifyPeer then
    w.postOn o len d.bufferLength.toNat .rdmaWriteWithImm (some msgTag) (some (d.bufferAddr, d.rkey))
  else w.postOn o len d.bufferLength.toNat .rdmaWrite none (some (d.bufferAddr, d.rkey))

/-- A posting call, with its arguments other than buffer and length. -/
inductive PostCall where
  | send (msgTag : UInt32)
  | recv
  | read (d : CommDescriptor)
  | write (d : CommDescriptor) (msgTag : UInt32) (notifyPeer : Bool)

def post (w : World) (o : BufferObj) (len : UInt32) : PostCall → Except Fault WorkRequest
  | .send msgTag => w.sendRemote o len msgTag
  | .recv => w.recvRemote o len
  | .read d => w.readRemote o len d
  | .write d msgTag notifyPeer => w.writeRemote o len d msgTag notifyPeer

end World

end RdmaCore

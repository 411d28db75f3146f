/-
  What the modules share: the `CHECK`s that can end the process, and the wire
  data of include/rdma_adapter.h (message tags and the descriptor of a remote
  buffer, with the bytes they occupy in memory).
-/
import RdmaCore.Lib.Bytes

namespace RdmaCore

/-! ## Checks -/

/-- The `CHECK`s (and `LOG(FATAL)`s) of the buffer, channel and adapter code
    that can end the process. -/
inductive Check where
  /-- "The buffer should not been empty" -/
  | emptyBuffer
  /-- "[error] posix_memalign" -/
  | memalign
  /-- "[Error]: sub-buffer cannot register in channel" -/
  | subBuffer
  /-- "Illegal mr for ..." -/
  | illegalMr
  /-- "The buffer (...) has already been registered in this channel (...)" -/
  | alreadyRegistered
  /-- "protect domain should not be empty for register mem" -/
  | emptyPd
  /-- "Error of register mem buf with size", "[ERROR]: buffer size is 0" -/
  | zeroSize
  /-- "Error of data_ptr", "[ERROR]: buffer data_ptr is nullptr" -/
  | nullData
  /-- "[ERROR]: buffer owned_by_channel is nullptr" -/
  | notOwned
  /-- "Invalid data length to ...", "Error, the data length cannot be larger than ..." -/
  | dataLength
  /-- "[WARNING]: Encounting unsuccess wqe, for: ..." -/
  | unsuccessWqe
  /-- "..., detected imm data failed to check for ..." -/
  | immData
  /-- "Cannot find the remote buffer info for rw_sink_buffer_for_test" -/
  | noPeerBuffer
  /-- "block index exceeds the maximum number of blocks" -/
  | blockIndex
  /-- "Configure ERROR: ... is expected to use shared cq, but the cq_key is not set" -/
  | cqKeyNotSet
  /-- "[ConfigError], you are using privated compt_queue mode, detect previous one, ..." -/
  | previousCq
  /-- "Invalid adapter unique_id" -/
  | uniqueId
  /-- "Invalid remote adaper" -/
  | remoteAdapter
  /-- `CHECK(params.link_layer = self_.link_layer)` -/
  | linkLayerUnset
  /-- "QP should working in the same mode" -/
  | linkLayer
  /-- "Running under RoCE requires to speficy the gid_index" -/
  | gidIndex
  /-- "Invalid ib_port", "Invalid port index" -/
  | ibPort
  deriving DecidableEq, Repr

/-- Why an operation does not return: a failed `CHECK`, or undefined
    behaviour (a null or dangling pointer, an access out of bounds). -/
inductive Fault where
  | check (c : Check)
  | undefined
  deriving DecidableEq, Repr

/-- `CHECK(p)`. -/
def check (p : Prop) [Decidable p] (c : Check) : Except Fault Unit :=
  if p then .ok () else .error (.check c)

@[simp] theorem check_eq_ok {p : Prop} [Decidable p] {c : Check} {u : Unit} :
    check p c = .ok u ↔ p := by
  unfold check; split_ifs with h <;> simp [h]

theorem Except.bind_eq_ok {ε α β : Type} {x : Except ε α} {f : α → Except ε β} {r : β} :
    (x >>= f) = .ok r ↔ ∃ a, x = .ok a ∧ f a = .ok r := by
  cases x <;> simp [bind, Except.bind]

theorem check_eq_error {p : Prop} [Decidable p] {c : Check} {f : Fault} :
    check p c = .error f ↔ ¬ p ∧ f = .check c := by
  unfold check; split_ifs with h <;> simp [h, eq_comm]

theorem Except.bind_eq_error {ε α β : Type} {x : Except ε α} {f : α → Except ε β} {e : ε} :
    (x >>= f) = .error e ↔ x = .error e ∨ ∃ a, x = .ok a ∧ f a = .error e := by
  cases x <;> simp [bind, Except.bind]

theorem Except.pure_eq_ok {ε α : Type} {a r : α} : (pure a : Except ε α) = .ok r ↔ a = r := by
  simp [pure, Except.pure]

/-! ## Wire data -/

/-- `enum class MessageType : uint32_t` -/
inductive MessageType where
  | unset
  | rawDataBlock
  | testForConnection
  | testForSyncData
  | sayHello
  | requestExchangeKey
  | responseExchangeKey
  deriving DecidableEq, Repr

namespace MessageType

/-- The value of a tag, sent as immediate data. -/
def toImm : MessageType → UInt32
  | unset => 0
  | rawDataBlock => 1
  | testForConnection => 2
  | testForSyncData => 3
  | sayHello => 127
  | requestExchangeKey => ((1 : UInt32) <<< 31) + 1
  | responseExchangeKey => ((1 : UInt32) <<< 31) + 2

/-- `static_cast<MessageType>(imm)`; `none` if no enumerator has this value. -/
def ofImm (imm : UInt32) : Option MessageType :=
  [unset, rawDataBlock, testForConnection, testForSyncData, sayHello, requestExchangeKey,
    responseExchangeKey].find? (·.toImm = imm)

@[simp] theorem ofImm_toImm (t : MessageType) : ofImm t.toImm = some t := by
  cases t <;> rfl

end MessageType

/-- `struct CommDescriptor` (packed): how a peer addresses a remote buffer. -/
structure CommDescriptor where
  bufferAddr : UInt64
  bufferLength : UInt64
  rkey : UInt32
  fd : UInt32
  deriving DecidableEq, Repr

namespace CommDescriptor

/-- `sizeof(struct CommDescriptor)` -/
def size : ℕ := 24

/-- The bytes of a descriptor in memory. -/
def toBytes (d : CommDescriptor) : List UInt8 :=
  leBytes 8 d.bufferAddr.toNat ++ leBytes 8 d.bufferLength.toNat ++ leBytes 4 d.rkey.toNat ++
    leBytes 4 d.fd.toNat

@[simp] theorem length_toBytes (d : CommDescriptor) : d.toBytes.length = size := by
  simp [toBytes, size]

/-- `((struct CommDescriptor *)a)->buffer_addr_` -/
def loadAddr (m : ByteMem) (a : ℕ) : UInt64 := UInt64.ofNat (leNat (m.read a 8))

/-- `((struct CommDescriptor *)a)->buffer_length_` -/
def loadLength (m : ByteMem) (a : ℕ) : UInt64 := UInt64.ofNat (leNat (m.read (a + 8) 8))

/-- `((struct CommDescriptor *)a)->rkey_` -/
def loadRkey (m : ByteMem) (a : ℕ) : UInt32 := UInt32.ofNat (leNat (m.read (a + 16) 4))

/-- **A descriptor stored in memory is read back field by field.** -/
theorem load_of_read {m : ByteMem} {a : ℕ} {d : CommDescriptor} (h : m.read a size = d.toBytes) :
    loadAddr m a = d.bufferAddr ∧ loadLength m a = d.bufferLength ∧ loadRkey m a = d.rkey := by
  rw [size, show 24 = 8 + 8 + 4 + 4 from rfl, ByteMem.read_add, ByteMem.read_add, ByteMem.read_add,
    toBytes] at h
  obtain ⟨h, -⟩ := List.append_inj h (by simp)
  obtain ⟨h, h3⟩ := List.append_inj h (by simp)
  obtain ⟨h1, h2⟩ := List.append_inj h (by simp)
  refine ⟨?_, ?_, ?_⟩
  · rw [loadAddr, h1, leNat_leBytes d.bufferAddr.toNat_lt]; simp
  · rw [loadLength, h2, leNat_leBytes d.bufferLength.toNat_lt]; simp
  · rw [loadRkey, h3, leNat_leBytes d.rkey.toNat_lt]; simp

end CommDescriptor

end RdmaCore

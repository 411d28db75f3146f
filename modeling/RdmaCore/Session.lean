/-
  The default session of two peers (`default_established_fn` and the default
  completion handlers of src/rdma_session.cc) over one reliable connection.

  Each side runs one thread (`process_CQ`): the established callback, and then
  one handler per completion.  A callback is a list of small operations
  (`Op`), so that the two threads and the network interleave between any two
  accesses to a buffer or a queue.  The network fetches the payload of a
  request at some moment after it is posted (`fetch`), delivers the requests
  of a side in order (`deliver`), and reports a delivered request to its
  sender later (`complete`); a message for which no receive is posted waits.

  `log` and `handled` record the messages that consume a receive: those a side
  has posted, and those of its peer whose handler it has started.
-/
import RdmaCore.Adapter
import RdmaCore.Lib.Lts
import Mathlib.Logic.Function.Basic

namespace RdmaCore

/-- The buffers that `default_established_fn` allocates for a channel. -/
inductive Buf where
  | recv
  | send
  | read
  | write
  /-- `read_write_sink_buffer_for_test` -/
  | sink
  deriving DecidableEq, Repr

namespace Buf

/-- The block size; every buffer has ten blocks. -/
def blockSize : Buf → ℕ
  | recv => 256
  | send => 256
  | read => 1000
  | write => 1000
  | sink => 1000

/-- `buffer_size` -/
def size (b : Buf) : ℕ := b.blockSize * 10

end Buf

/-- One side of the session: what the callbacks read and never change. -/
structure Peer where
  /-- the bytes of `a_channel->info()` -/
  info : List UInt8
  /-- the `CHECK` of `update_my_adapter_info` -/
  infoOk : info.length < 128 - 20
  sinkAddr : UInt64
  sinkRkey : UInt32
  /-- what the stack holds in a descriptor that is not initialised -/
  stack : CommDescriptor
  /-- what `posix_memalign` leaves in the buffers -/
  mem : Buf → ByteMem

namespace Peer

/-- "Greetings from ... for 'RDMA connection test'" -/
def baseToSendData (p : Peer) : List UInt8 :=
  Adapter.bytes "Greetings from " ++ p.info ++ Adapter.bytes " for 'RDMA connection test'"

/-- The text sent by `default_established_fn`. -/
def firstText (p : Peer) : List UInt8 := p.baseToSendData ++ Adapter.bytes ", count: "

/-- The text written to the peer. -/
def writeText (p : Peer) : List UInt8 :=
  Adapter.bytes "[RDMA write/read test]: " ++ p.baseToSendData

theorem length_baseToSendData (p : Peer) : p.baseToSendData.length = p.info.length + 42 := by
  have h1 : (Adapter.bytes "Greetings from ").length = 15 := by decide +kernel
  have h2 : (Adapter.bytes " for 'RDMA connection test'").length = 27 := by decide +kernel
  simp only [baseToSendData, List.length_append, h1, h2]
  omega

theorem length_firstText (p : Peer) : p.firstText.length = p.info.length + 51 := by
  have h : (Adapter.bytes ", count: ").length = 9 := by decide +kernel
  rw [firstText, List.length_append, length_baseToSendData, h]

theorem length_writeText (p : Peer) : p.writeText.length = p.info.length + 66 := by
  have h : (Adapter.bytes "[RDMA write/read test]: ").length = 24 := by decide +kernel
  rw [writeText, List.length_append, length_baseToSendData, h]
  omega

/-- The texts have no NUL but those of the identity. -/
theorem zero_mem_baseToSendData (p : Peer) : 0 ∈ p.baseToSendData ↔ 0 ∈ p.info := by
  have h1 : 0 ∉ Adapter.bytes "Greetings from " := by decide +kernel
  have h2 : 0 ∉ Adapter.bytes " for 'RDMA connection test'" := by decide +kernel
  simp [baseToSendData, h1, h2]

theorem zero_mem_writeText (p : Peer) : 0 ∈ p.writeText ↔ 0 ∈ p.info := by
  have h : 0 ∉ Adapter.bytes "[RDMA write/read test]: " := by decide +kernel
  rw [writeText, List.mem_append, zero_mem_baseToSendData]
  exact or_iff_right h

/-- `local_comm_descritor`: how the peer addresses the sink buffer. -/
def descriptor (p : Peer) : CommDescriptor where
  bufferAddr := p.sinkAddr
  bufferLength := UInt64.ofNat Buf.sink.size
  rkey := p.sinkRkey
  fd := p.stack.fd

end Peer

/-- Two peers whose sink buffers lie at 0x1000 and 0x8000. -/
def Peer.pair (x : Bool) : Peer where
  info := Adapter.bytes (if x then "A" else "B")
  infoOk := by cases x <;> decide +kernel
  sinkAddr := if x then 0x1000 else 0x8000
  sinkRkey := if x then 0x11 else 0x22
  stack := ⟨0, 0, 0, 0⟩
  mem := fun _ _ => 0

/-- A message that consumes a receive of the peer. -/
inductive Msg where
  | send (tag : MessageType)
  | writeImm (tag : MessageType)
  deriving DecidableEq, Repr

/-- A request in the send queue. -/
inductive Request where
  | send (len : ℕ) (tag : MessageType)
  | write (len : ℕ) (d : CommDescriptor) (imm : Option MessageType)
  | read (len : ℕ) (d : CommDescriptor)

namespace Request

/-- The buffer whose bytes a request carries. -/
def source : Request → Option (Buf × ℕ)
  | send len _ => some (.send, len)
  | write len _ _ => some (.write, len)
  | read _ _ => none

def msg : Request → Option Msg
  | send _ tag => some (.send tag)
  | write _ _ (some tag) => some (.writeImm tag)
  | _ => none

end Request

/-- A posted request, with its payload once the network has fetched it. -/
structure Posted where
  request : Request
  payload : Option (List UInt8) := none

/-- A completion (`struct ibv_wc`), by opcode. -/
inductive Wc where
  | send
  | recv (tag : MessageType) (byteLen : ℕ)
  | write
  | read
  | recvWithImm (tag : MessageType)

/-- The message a completion reports. -/
def Wc.msg : Wc → Option Msg
  | recv tag _ => some (.send tag)
  | recvWithImm tag => some (.writeImm tag)
  | _ => none

/-- A delivered request that is not yet reported to its sender; a read brings
    its data back. -/
inductive Ack where
  | send
  | write
  | read (data : List UInt8)

/-- The completion of a request. -/
def Ack.wc : Ack → Wc
  | send => .send
  | write => .write
  | read _ => .read

/-! ## Callbacks -/

/-- The operations of the callbacks. -/
inductive Op where
  | checkLength (b : Buf) (len : ℕ)
  | clear (b : Buf)
  | copy (b : Buf) (data : List UInt8)
  | recvRemote
  | sendRemote (len : ℕ) (tag : MessageType)
  | writeRemote (len : ℕ) (tag : MessageType) (notifyPeer : Bool)
  | readRemote (len : ℕ)
  /-- `peer_buffer->buffer_addr_`, and the other two fields -/
  | loadAddr
  | loadLength
  | loadRkey
  | insertPeerBuffer
  | findPeerBuffer
  /-- `std::string((char *)buffer->data_addr())` -/
  | readText (b : Buf)
  /-- the two halves of `sync_with_peer` -/
  | syncSend
  | syncRecv

/-- `RDMABuffer::fill_in` -/
def fillIn (b : Buf) (data : List UInt8) : List Op :=
  [.checkLength b data.length, .clear b, .copy b data]

namespace Peer

/-- `default_established_fn`, after the buffers are registered. -/
def establishedFn (p : Peer) : List Op :=
  [.clear .recv, .recvRemote, .recvRemote, .syncSend, .syncRecv] ++
  fillIn .send p.firstText ++ [.sendRemote p.firstText.length .testForSyncData]

/-- `default_process_recv_done` for `REQUEST_EXCHANGE_KEY`; the response is sent
    without filling in the send buffer. -/
def requestExchangeKey (p : Peer) : List Op :=
  [.loadAddr, .loadLength, .loadRkey, .insertPeerBuffer, .recvRemote,
    .sendRemote p.baseToSendData.length .responseExchangeKey] ++
  fillIn .write p.writeText ++ [.writeRemote p.writeText.length .responseExchangeKey true]

/-- `default_process_recv_done` for `TEST_FOR_SYNC_DATA`. -/
def testForSyncData (p : Peer) : List Op :=
  [.readText .recv, .recvRemote] ++ fillIn .send p.descriptor.toBytes ++
  [.sendRemote CommDescriptor.size .requestExchangeKey]

/-- `default_process_recv_done` for all other tags. -/
def otherTag (p : Peer) : List Op :=
  [.readText .recv, .recvRemote] ++ fillIn .send p.baseToSendData ++
  [.sendRemote p.baseToSendData.length .unset]

/-- `default_process_recv_done` -/
def processRecvDone (p : Peer) : MessageType → List Op
  | .requestExchangeKey => p.requestExchangeKey
  | .testForSyncData => p.testForSyncData
  | _ => p.otherTag

/-- `default_process_write_done` -/
def processWriteDone : List Op :=
  [.findPeerBuffer, .clear .read, .readRemote Buf.read.size]

/-- `default_process_read_done` -/
def processReadDone (p : Peer) : List Op :=
  [.findPeerBuffer, .readText .read] ++ fillIn .write p.writeText ++
  [.writeRemote p.writeText.length .unset false]

/-- The handler that `process_CQ` calls for a completion. -/
def handler (p : Peer) : Wc → List Op
  | .send => []
  | .recv tag _ => p.processRecvDone tag
  | .write => processWriteDone
  | .read => p.processReadDone
  | .recvWithImm _ => [.recvRemote]

/-- What the thread runs: the established callback, or the handler of a completion. -/
def code (p : Peer) : Option Wc → List Op
  | none => p.establishedFn
  | some wc => p.handler wc

/-- The callbacks by their bodies. -/
inductive CodeOf (p : Peer) : Option Wc → List Op → Prop where
  | established : CodeOf p none p.establishedFn
  | send : CodeOf p (some .send) []
  | request (byteLen : ℕ) : CodeOf p (some (.recv .requestExchangeKey byteLen)) p.requestExchangeKey
  | test (byteLen : ℕ) : CodeOf p (some (.recv .testForSyncData byteLen)) p.testForSyncData
  | other {tag : MessageType} (byteLen : ℕ) (hkey : tag ≠ .requestExchangeKey)
    (htest : tag ≠ .testForSyncData) : CodeOf p (some (.recv tag byteLen)) p.otherTag
  | write : CodeOf p (some .write) processWriteDone
  | read : CodeOf p (some .read) p.processReadDone
  | recvWithImm (tag : MessageType) : CodeOf p (some (.recvWithImm tag)) [.recvRemote]

theorem codeOf (p : Peer) (c : Option Wc) : p.CodeOf c (p.code c) := by
  cases c with
  | none => exact .established
  | some wc =>
    cases wc with
    | send => exact .send
    | write => exact .write
    | read => exact .read
    | recvWithImm tag => exact .recvWithImm tag
    | recv tag byteLen =>
      cases tag with
      | requestExchangeKey => exact .request byteLen
      | testForSyncData => exact .test byteLen
      | unset | rawDataBlock | testForConnection | sayHello | responseExchangeKey =>
        exact .other byteLen (by decide) (by decide)

end Peer

/-! ## The two sides -/

structure Side where
  /-- the completion being handled; `none` in the established callback -/
  current : Option Wc := none
  /-- what is left of the callback -/
  todo : List Op
  /-- `remote_comm_descritor` -/
  descriptor : CommDescriptor
  /-- the text read last -/
  text : List UInt8 := []
  mem : Buf → ByteMem
  /-- `peer_buffer_mgr_["rw_sink_buffer_for_test"]` -/
  peerBuffer : Option CommDescriptor := none
  /-- receives posted and not consumed -/
  rq : ℕ := 0
  sq : List Posted := []
  acks : List Ack := []
  cq : List Wc := []
  sqInflight : ℤ := 0
  rqInflight : ℤ := 0
  failed : Option Check := none
  log : List Msg := []
  handled : List Msg := []

/-- The session before the established callbacks run. -/
def Side.init (p : Peer) : Side where
  todo := p.establishedFn
  descriptor := p.stack
  mem := fun b => (p.mem b).fill 0 0 b.blockSize

namespace Side

def setMem (me : Side) (b : Buf) (m : ByteMem) : Side :=
  { me with mem := Function.update me.mem b m }

@[simp] theorem setMem_mem_self (me : Side) (b : Buf) (m : ByteMem) : (me.setMem b m).mem b = m :=
  Function.update_self ..

theorem setMem_mem_of_ne (me : Side) {b c : Buf} (m : ByteMem) (h : c ≠ b) :
    (me.setMem b m).mem c = me.mem c := Function.update_of_ne h ..

/-- Posts a request to the send queue. -/
def post (me : Side) (r : Request) : Side :=
  { me with
    sq := me.sq ++ [⟨r, none⟩]
    log := me.log ++ r.msg.toList
    sqInflight := me.sqInflight + 1 }

/-- The data of a completed read is in the read buffer. -/
def land (me : Side) : Ack → Side
  | .read data => me.setMem .read ((me.mem .read).write 0 data)
  | _ => me

@[simp] theorem todo_land (me : Side) (ack : Ack) : (me.land ack).todo = me.todo := by
  cases ack <;> rfl

@[simp] theorem sq_land (me : Side) (ack : Ack) : (me.land ack).sq = me.sq := by
  cases ack <;> rfl

@[simp] theorem peerBuffer_land (me : Side) (ack : Ack) :
    (me.land ack).peerBuffer = me.peerBuffer := by
  cases ack <;> rfl

theorem mem_land_of_ne (me : Side) (ack : Ack) {b : Buf} (h : b ≠ .read) :
    (me.land ack).mem b = me.mem b := by
  cases ack with
  | send | write => rfl
  | read data => exact me.setMem_mem_of_ne _ h

/-- An operation other than the synchronisation of the two sides. -/
def perform (me : Side) : Op → Except Check Side
  | .checkLength b len => if len ≤ b.size then .ok me else .error .dataLength
  | .clear b => .ok (me.setMem b ((me.mem b).fill 0 0 b.size))
  | .copy b data => .ok (me.setMem b ((me.mem b).write 0 data))
  | .recvRemote => .ok { me with rq := me.rq + 1, rqInflight := me.rqInflight + 1 }
  | .sendRemote len tag =>
    if len ≤ Buf.send.size then .ok (me.post (.send len tag)) else .error .dataLength
  | .writeRemote len tag notifyPeer =>
    if len ≤ Buf.write.size ∧ len ≤ me.descriptor.bufferLength.toNat then
      .ok (me.post (.write len me.descriptor (if notifyPeer then some tag else none)))
    else .error .dataLength
  | .readRemote len =>
    if len ≤ Buf.read.size ∧ len ≤ me.descriptor.bufferLength.toNat then
      .ok (me.post (.read len me.descriptor))
    else .error .dataLength
  | .loadAddr =>
    .ok { me with descriptor.bufferAddr := CommDescriptor.loadAddr (me.mem .recv) 0 }
  | .loadLength =>
    .ok { me with descriptor.bufferLength := CommDescriptor.loadLength (me.mem .recv) 0 }
  | .loadRkey =>
    .ok { me with descriptor.rkey := CommDescriptor.loadRkey (me.mem .recv) 0 }
  | .insertPeerBuffer =>
    -- a second insertion under the same key is refused
    .ok { me with peerBuffer := me.peerBuffer <|> some me.descriptor }
  | .findPeerBuffer =>
    match me.peerBuffer with
    | some d => .ok { me with descriptor := d }
    | none => .error .noPeerBuffer
  | .readText b => .ok { me with text := (me.mem b).cstr 0 b.size }
  | .syncSend => .ok me
  | .syncRecv => .ok me

end Side

/-- Two sides, and the bytes each has sent to synchronise and the other has
    not read. -/
structure Sys where
  side : Bool → Side
  synced : Bool → ℕ := fun _ => 0

inductive SysAct where
  /-- the thread of a side performs its next operation -/
  | exec (x : Bool)
  /-- the thread of a side takes its next completion -/
  | poll (x : Bool)
  /-- the network fetches the payload of the `j`-th request of a side -/
  | fetch (x : Bool) (j : ℕ)
  /-- the oldest request of a side reaches the other side -/
  | deliver (x : Bool)
  /-- the oldest delivered request of a side completes -/
  | complete (x : Bool)

namespace Sys

def init (P : Bool → Peer) : Sys where
  side := fun x => Side.init (P x)

def set (s : Sys) (x : Bool) (me : Side) : Sys :=
  { s with side := Function.update s.side x me }

/-- Access to the sink buffer of `p` with a descriptor: the offset of the
    bytes, if they lie in the buffer and the key is right. -/
def sinkOffset (p : Peer) (d : CommDescriptor) (len : ℕ) : Option ℕ :=
  if d.rkey = p.sinkRkey ∧ p.sinkAddr ≤ d.bufferAddr ∧
      d.bufferAddr.toNat + len ≤ p.sinkAddr.toNat + Buf.sink.size then
    some (d.bufferAddr.toNat - p.sinkAddr.toNat)
  else none

def exec (s : Sys) (x : Bool) : Option Sys :=
  let me := s.side x
  match me.todo with
  | [] => none
  | .syncSend :: todo => some
    { s.set x { me with todo } with synced := Function.update s.synced x (s.synced x + 1) }
  | .syncRecv :: todo =>
    if 0 < s.synced (!x) then some
      { s.set x { me with todo } with synced := Function.update s.synced (!x) (s.synced (!x) - 1) }
    else none
  | o :: todo =>
    match me.perform o with
    | .ok me' => some (s.set x { me' with todo })
    | .error c => some (s.set x { me with failed := some c })

def poll (P : Bool → Peer) (s : Sys) (x : Bool) : Option Sys :=
  let me := s.side x
  match me.todo, me.cq with
  | [], wc :: cq => some (s.set x
    { me with
      current := some wc, todo := (P x).handler wc, cq
      handled := me.handled ++ wc.msg.toList })
  | _, _ => none

def fetch (s : Sys) (x : Bool) (j : ℕ) : Option Sys :=
  let me := s.side x
  match me.sq[j]? with
  | some ⟨r, none⟩ =>
    match r.source with
    | some (b, len) => some (s.set x
      { me with sq := me.sq.set j ⟨r, some ((me.mem b).read 0 len)⟩ })
    | none => none
  | _ => none

/-- The peer of a message: a receive is consumed and a completion generated. -/
def consume (you : Side) (wc : Wc) : Side := { you with rq := you.rq - 1, cq := you.cq ++ [wc] }

def deliver (P : Bool → Peer) (s : Sys) (x : Bool) : Option Sys :=
  let me := s.side x
  let you := s.side (!x)
  match me.sq with
  | ⟨.send len tag, some data⟩ :: sq =>
    if 0 < you.rq then some
      ((s.set x { me with sq, acks := me.acks ++ [.send] }).set (!x)
        (consume (you.setMem .recv ((you.mem .recv).write 0 data)) (.recv tag len)))
    else none
  | ⟨.write len d imm, some data⟩ :: sq =>
    match sinkOffset (P (!x)) d len with
    | none => some (s.set x { me with failed := some .unsuccessWqe })
    | some a =>
      let me := { me with sq, acks := me.acks ++ [.write] }
      let you := you.setMem .sink ((you.mem .sink).write a data)
      match imm with
      | none => some ((s.set x me).set (!x) you)
      | some tag =>
        if 0 < you.rq then some ((s.set x me).set (!x) (consume you (.recvWithImm tag))) else none
  | ⟨.read len d, _⟩ :: sq =>
    match sinkOffset (P (!x)) d len with
    | none => some (s.set x { me with failed := some .unsuccessWqe })
    | some a => some (s.set x
      { me with sq, acks := me.acks ++ [.read ((you.mem .sink).read a len)] })
  | _ => none

def complete (s : Sys) (x : Bool) : Option Sys :=
  let me := s.side x
  match me.acks with
  | [] => none
  | ack :: acks => some (s.set x { me.land ack with acks, cq := me.cq ++ [ack.wc] })

/-- One step; the thread of a process that has failed a `CHECK` has ended. -/
def step (P : Bool → Peer) (s : Sys) : SysAct → Option Sys
  | .exec x => if (s.side x).failed.isNone then s.exec x else none
  | .poll x => if (s.side x).failed.isNone then s.poll P x else none
  | .fetch x j => s.fetch x j
  | .deliver x => s.deliver P x
  | .complete x => s.complete x

end Sys

/-! ## The cases of a step -/

/-- What an operation may do: it leaves alone what the thread and the network
    hand to each other, and posts a request without its payload. -/
structure Side.Performed (me : Side) (o : Op) (me' : Side) : Prop where
  current : me'.current = me.current
  todo : me'.todo = me.todo
  acks : me'.acks = me.acks
  cq : me'.cq = me.cq
  failed : me'.failed = me.failed
  handled : me'.handled = me.handled
  /-- a buffer is cleared, filled, or left alone -/
  mem : ∀ b, o = .clear b ∨ (∃ data, o = .copy b data ∧ me'.mem b = (me.mem b).write 0 data) ∨
    me'.mem b = me.mem b
  sq : me'.sq = me.sq ∨ ∃ r, me'.sq = me.sq ++ [⟨r, none⟩] ∧
    ∀ len tag, r = .send len tag → o = .sendRemote len tag

theorem Side.performed {me me' : Side} {o : Op} (h : me.perform o = .ok me') :
    me.Performed o me' := by
  cases o with
  | clear c =>
    obtain rfl := Except.ok.inj h
    refine ⟨rfl, rfl, rfl, rfl, rfl, rfl, fun b => ?_, .inl rfl⟩
    by_cases hb : b = c
    · exact .inl (hb ▸ rfl)
    · exact .inr (.inr (me.setMem_mem_of_ne _ hb))
  | copy c data =>
    obtain rfl := Except.ok.inj h
    refine ⟨rfl, rfl, rfl, rfl, rfl, rfl, fun b => ?_, .inl rfl⟩
    by_cases hb : b = c
    · subst hb
      exact .inr (.inl ⟨data, rfl, me.setMem_mem_self ..⟩)
    · exact .inr (.inr (me.setMem_mem_of_ne _ hb))
  | recvRemote | loadAddr | loadLength | loadRkey | insertPeerBuffer | readText c | syncSend
  | syncRecv =>
    obtain rfl := Except.ok.inj h
    exact ⟨rfl, rfl, rfl, rfl, rfl, rfl, fun _ => .inr (.inr rfl), .inl rfl⟩
  | checkLength c len =>
    simp only [Side.perform] at h
    split_ifs at h
    obtain rfl := Except.ok.inj h
    exact ⟨rfl, rfl, rfl, rfl, rfl, rfl, fun _ => .inr (.inr rfl), .inl rfl⟩
  | sendRemote len tag | writeRemote len tag notifyPeer | readRemote len =>
    simp only [Side.perform] at h
    split_ifs at h <;> obtain rfl := Except.ok.inj h <;>
      exact ⟨rfl, rfl, rfl, rfl, rfl, rfl, fun _ => .inr (.inr rfl), .inr ⟨_, rfl, by simp⟩⟩
  | findPeerBuffer =>
    simp only [Side.perform] at h
    split at h
    · obtain rfl := Except.ok.inj h
      exact ⟨rfl, rfl, rfl, rfl, rfl, rfl, fun _ => .inr (.inr rfl), .inl rfl⟩
    · cases h

variable {P : Bool → Peer} {s s' : Sys} {x : Bool}

namespace Sys

@[simp] theorem set_side_self (s : Sys) (x : Bool) (me : Side) : (s.set x me).side x = me :=
  Function.update_self ..

@[simp] theorem set_side_not (s : Sys) (x : Bool) (me : Side) :
    (s.set x me).side (!x) = s.side (!x) := Function.update_of_ne (Bool.not_ne_self x) ..

@[simp] theorem set_not_side (s : Sys) (x : Bool) (me : Side) :
    (s.set (!x) me).side x = s.side x := Function.update_of_ne (Bool.self_ne_not x) ..

/-- What a thread does in one step. -/
theorem exec_cases (h : s.exec x = some s') :
    ∃ o todo, (s.side x).todo = o :: todo ∧
      ((∃ c, (s.side x).perform o = .error c ∧
          s' = s.set x { s.side x with failed := some c }) ∨
        ∃ me', (s.side x).perform o = .ok me' ∧
          ((o = .syncSend ∧ me' = s.side x ∧
              s' = { s.set x { me' with todo } with
                synced := Function.update s.synced x (s.synced x + 1) }) ∨
            (o = .syncRecv ∧ me' = s.side x ∧ 0 < s.synced (!x) ∧
              s' = { s.set x { me' with todo } with
                synced := Function.update s.synced (!x) (s.synced (!x) - 1) }) ∨
            (o ≠ .syncSend ∧ o ≠ .syncRecv ∧ s' = s.set x { me' with todo }))) := by
  unfold exec at h
  cases ht : (s.side x).todo with
  | nil => simp [ht] at h
  | cons o todo =>
    refine ⟨o, todo, rfl, ?_⟩
    by_cases hs : o = .syncSend
    · subst hs
      simp only [ht, Option.some.injEq] at h
      exact .inr ⟨_, rfl, .inl ⟨rfl, rfl, h.symm⟩⟩
    by_cases hr : o = .syncRecv
    · subst hr
      simp only [ht, Option.ite_none_right_eq_some, Option.some.injEq] at h
      exact .inr ⟨_, rfl, .inr (.inl ⟨rfl, rfl, h.1, h.2.symm⟩)⟩
    cases hp : (s.side x).perform o with
    | error c =>
      simp only [ht, hp, Option.some.injEq] at h
      exact .inl ⟨c, rfl, by rw [← h, ← ht]⟩
    | ok me' =>
      simp only [ht, hp, Option.some.injEq] at h
      exact .inr ⟨me', rfl, .inr (.inr ⟨hs, hr, h.symm⟩)⟩

theorem poll_cases (h : s.poll P x = some s') :
    ∃ wc cq, (s.side x).todo = [] ∧ (s.side x).cq = wc :: cq ∧
      s' = s.set x
        { s.side x with
          current := some wc, todo := (P x).handler wc, cq
          handled := (s.side x).handled ++ wc.msg.toList } := by
  unfold poll at h
  cases ht : (s.side x).todo with
  | cons o todo => simp [ht] at h
  | nil =>
    cases hq : (s.side x).cq with
    | nil => simp [ht, hq] at h
    | cons wc cq =>
      simp only [ht, hq, Option.some.injEq] at h
      exact ⟨wc, cq, rfl, rfl, h.symm⟩

theorem fetch_cases {j : ℕ} (h : s.fetch x j = some s') :
    ∃ r b len, (s.side x).sq[j]? = some ⟨r, none⟩ ∧ r.source = some (b, len) ∧
      s' = s.set x
        { s.side x with
          sq := (s.side x).sq.set j ⟨r, some (((s.side x).mem b).read 0 len)⟩ } := by
  simp only [fetch] at h
  split at h
  · rename_i r hj
    split at h
    · rename_i b len hr
      exact ⟨r, b, len, hj, hr, (Option.some.inj h).symm⟩
    · cases h
  · cases h

/-- A delivery fails, writes a message into the receive buffer, writes into the
    sink buffer with or without a notification, or reads the sink buffer. -/
theorem deliver_cases (h : s.deliver P x = some s') :
    s' = s.set x { s.side x with failed := some .unsuccessWqe } ∨
    (∃ len tag data sq, (s.side x).sq = ⟨.send len tag, some data⟩ :: sq ∧
      0 < (s.side (!x)).rq ∧
      s' = (s.set x { s.side x with sq, acks := (s.side x).acks ++ [.send] }).set (!x)
        (consume ((s.side (!x)).setMem .recv (((s.side (!x)).mem .recv).write 0 data))
          (.recv tag len))) ∨
    (∃ len d data sq a, (s.side x).sq = ⟨.write len d none, some data⟩ :: sq ∧
      sinkOffset (P (!x)) d len = some a ∧
      s' = (s.set x { s.side x with sq, acks := (s.side x).acks ++ [.write] }).set (!x)
        ((s.side (!x)).setMem .sink (((s.side (!x)).mem .sink).write a data))) ∨
    (∃ len d tag data sq a, (s.side x).sq = ⟨.write len d (some tag), some data⟩ :: sq ∧
      sinkOffset (P (!x)) d len = some a ∧ 0 < (s.side (!x)).rq ∧
      s' = (s.set x { s.side x with sq, acks := (s.side x).acks ++ [.write] }).set (!x)
        (consume ((s.side (!x)).setMem .sink (((s.side (!x)).mem .sink).write a data))
          (.recvWithImm tag))) ∨
    (∃ len d payload sq a, (s.side x).sq = ⟨.read len d, payload⟩ :: sq ∧
      sinkOffset (P (!x)) d len = some a ∧
      s' = s.set x
        { s.side x with
          sq, acks := (s.side x).acks ++ [.read (((s.side (!x)).mem .sink).read a len)] }) := by
  simp only [deliver] at h
  split at h
  · rename_i len tag data sq hq
    simp only [Option.ite_none_right_eq_some, Option.some.injEq] at h
    exact .inr (.inl ⟨len, tag, data, sq, hq, h.1, h.2.symm⟩)
  · rename_i len d imm data sq hq
    cases ha : sinkOffset (P (!x)) d len with
    | none =>
      simp only [ha, Option.some.injEq] at h
      exact .inl h.symm
    | some a =>
      cases imm with
      | none =>
        simp only [ha, Option.some.injEq] at h
        exact .inr (.inr (.inl ⟨len, d, data, sq, a, hq, ha, h.symm⟩))
      | some tag =>
        simp only [ha, Option.ite_none_right_eq_some, Option.some.injEq] at h
        exact .inr (.inr (.inr (.inl ⟨len, d, tag, data, sq, a, hq, ha, h.1, h.2.symm⟩)))
  · rename_i len d payload sq hq
    cases ha : sinkOffset (P (!x)) d len with
    | none =>
      simp only [ha, Option.some.injEq] at h
      exact .inl h.symm
    | some a =>
      simp only [ha, Option.some.injEq] at h
      exact .inr (.inr (.inr (.inr ⟨len, d, payload, sq, a, hq, ha, h.symm⟩)))
  · cases h

theorem complete_cases (h : s.complete x = some s') :
    ∃ ack acks, (s.side x).acks = ack :: acks ∧
      s' = s.set x { (s.side x).land ack with acks, cq := (s.side x).cq ++ [ack.wc] } := by
  simp only [complete] at h
  split at h
  · cases h
  · rename_i ack acks ha
    exact ⟨ack, acks, ha, (Option.some.inj h).symm⟩

end Sys

/-- What a step does to the two sides, where `me` is the side that acts (or
    whose request the network serves). -/
inductive Move (P : Bool → Peer) (x : Bool) (me you : Side) : Side → Side → Prop where
  | exec {o : Op} {todo : List Op} {me' : Side} (ht : me.todo = o :: todo)
      (hp : me.perform o = .ok me') : Move P x me you { me' with todo } you
  | fail (c : Check) : Move P x me you { me with failed := some c } you
  | poll {wc : Wc} {cq : List Wc} (ht : me.todo = []) (hq : me.cq = wc :: cq) :
      Move P x me you
        { me with
          current := some wc, todo := (P x).handler wc, cq
          handled := me.handled ++ wc.msg.toList } you
  | fetch {j : ℕ} {r : Request} {b : Buf} {len : ℕ} (hj : me.sq[j]? = some ⟨r, none⟩)
      (hr : r.source = some (b, len)) :
      Move P x me you { me with sq := me.sq.set j ⟨r, some ((me.mem b).read 0 len)⟩ } you
  | send {len : ℕ} {tag : MessageType} {data : List UInt8} {sq : List Posted}
      (hq : me.sq = ⟨.send len tag, some data⟩ :: sq) (hr : 0 < you.rq) :
      Move P x me you { me with sq, acks := me.acks ++ [.send] }
        (Sys.consume (you.setMem .recv ((you.mem .recv).write 0 data)) (.recv tag len))
  | write {len : ℕ} {d : CommDescriptor} {data : List UInt8} {sq : List Posted} {a : ℕ}
      (hq : me.sq = ⟨.write len d none, some data⟩ :: sq)
      (ha : Sys.sinkOffset (P (!x)) d len = some a) :
      Move P x me you { me with sq, acks := me.acks ++ [.write] }
        (you.setMem .sink ((you.mem .sink).write a data))
  | writeImm {len : ℕ} {d : CommDescriptor} {tag : MessageType} {data : List UInt8}
      {sq : List Posted} {a : ℕ} (hq : me.sq = ⟨.write len d (some tag), some data⟩ :: sq)
      (ha : Sys.sinkOffset (P (!x)) d len = some a) (hr : 0 < you.rq) :
      Move P x me you { me with sq, acks := me.acks ++ [.write] }
        (Sys.consume (you.setMem .sink ((you.mem .sink).write a data)) (.recvWithImm tag))
  | read {len : ℕ} {d : CommDescriptor} {payload : Option (List UInt8)} {sq : List Posted}
      {a : ℕ} (hq : me.sq = ⟨.read len d, payload⟩ :: sq)
      (ha : Sys.sinkOffset (P (!x)) d len = some a) :
      Move P x me you
        { me with sq, acks := me.acks ++ [.read ((you.mem .sink).read a len)] } you
  | complete {ack : Ack} {acks : List Ack} (ha : me.acks = ack :: acks) :
      Move P x me you { me.land ack with acks, cq := me.cq ++ [ack.wc] } you

namespace Sys

/-- Every step is a move of one side. -/
theorem step_move {a : SysAct} (h : step P s a = some s') :
    ∃ x, Move P x (s.side x) (s.side (!x)) (s'.side x) (s'.side (!x)) := by
  cases a with
  | exec x =>
    simp only [step, Option.ite_none_right_eq_some] at h
    refine ⟨x, ?_⟩
    obtain ⟨o, todo, ht, ⟨c, -, rfl⟩ | ⟨me', hp, ⟨-, -, rfl⟩ | ⟨-, -, -, rfl⟩ | ⟨-, -, rfl⟩⟩⟩ :=
      exec_cases h.2
    · rw [set_side_self, set_side_not]; exact .fail c
    all_goals
      simp only [set_side_self, set_side_not]
      exact .exec ht hp
  | poll x =>
    simp only [step, Option.ite_none_right_eq_some] at h
    obtain ⟨wc, cq, ht, hq, rfl⟩ := poll_cases h.2
    exact ⟨x, by rw [set_side_self, set_side_not]; exact .poll ht hq⟩
  | fetch x j =>
    obtain ⟨r, b, len, hj, hr, rfl⟩ := fetch_cases h
    exact ⟨x, by rw [set_side_self, set_side_not]; exact .fetch hj hr⟩
  | deliver x =>
    refine ⟨x, ?_⟩
    obtain rfl | ⟨len, tag, data, sq, hq, hr, rfl⟩ | ⟨len, d, data, sq, a, hq, ha, rfl⟩ |
      ⟨len, d, tag, data, sq, a, hq, ha, hr, rfl⟩ | ⟨len, d, payload, sq, a, hq, ha, rfl⟩ :=
      deliver_cases h
    · rw [set_side_self, set_side_not]; exact .fail _
    · rw [set_not_side, set_side_self, set_side_self]; exact .send hq hr
    · rw [set_not_side, set_side_self, set_side_self]; exact .write hq ha
    · rw [set_not_side, set_side_self, set_side_self]; exact .writeImm hq ha hr
    · rw [set_side_self, set_side_not]; exact .read hq ha
  | complete x =>
    obtain ⟨ack, acks, ha, rfl⟩ := complete_cases h
    exact ⟨x, by rw [set_side_self, set_side_not]; exact .complete ha⟩

/-- **Invariants of a side towards its peer**: both directions hold initially
    and every move preserves them. -/
theorem move_induct {R : Bool → Side → Side → Prop} (hr : Lts.Reachable (step P) (init P) s)
    (h₀ : ∀ x, R x (Side.init (P x)) (Side.init (P (!x))))
    (hstep : ∀ s, Lts.Reachable (step P) (init P) s → ∀ x me you, R x (s.side x) (s.side (!x)) →
      R (!x) (s.side (!x)) (s.side x) → Move P x (s.side x) (s.side (!x)) me you →
      R x me you ∧ R (!x) you me) : ∀ x, R x (s.side x) (s.side (!x)) := by
  refine (hr.induct (P := fun s => Lts.Reachable (step P) (init P) s ∧
    ∀ x, R x (s.side x) (s.side (!x))) ⟨.refl _, h₀⟩ ?_).2
  intro t a t' ⟨ht, h⟩ ha
  refine ⟨ht.tail ha, ?_⟩
  obtain ⟨x, hm⟩ := step_move ha
  have hx := h (!x)
  rw [Bool.not_not] at hx
  have hR := hstep t ht x _ _ (h x) hx hm
  rw [Bool.forall_bool' x, Bool.not_not]
  exact hR

end Sys

end RdmaCore

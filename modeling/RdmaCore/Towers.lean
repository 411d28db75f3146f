/-
  The data protocol of example/mesh_comm_service.cc: `process_CQ` of a
  `ServerTower` with `n` channels, and of the `ClientTower`s at their other
  ends.

  The server runs one thread for all its channels, which share a completion
  queue; each client runs a thread for its only channel.  A thread posts its
  receives, waits for its peers, and then polls batches of completions and
  handles them one after another.  A handler is a list of small operations
  (`Op`), so that the threads and the network interleave between any two
  accesses to a buffer or a queue.  A call of `next()` or `last()` changes the
  cursors of its thread only, and is taken together with the request that it
  is for.

  The network fetches the payload of a request at some moment after it is
  posted (`fetch`), delivers the requests of a channel in order (`deliver`),
  and reports a delivered request to its poster later (`complete`).  A request
  that fails ends the thread of its poster at once, not when its completion is
  polled.  A channel is named by its index in the session, and the memory of a
  buffer is addressed from the start of the buffer.
-/
import RdmaCore.Placed

namespace RdmaCore

/-- `*(struct CommDescriptor *)a` -/
def CommDescriptor.load (m : ByteMem) (a : ℕ) : CommDescriptor where
  bufferAddr := loadAddr m a
  bufferLength := loadLength m a
  rkey := loadRkey m a
  fd := UInt32.ofNat (leNat (m.read (a + 20) 4))

namespace Tower

/-! ## Constants -/

/-- `NUM_BLOCK` -/
def numBlock : ℕ := 128

/-- `BLOCK_SIZE` -/
def blockSize : ℕ := 16 * 1024

/-- `max_send_wr` and `max_recv_wr` of `lazy_config_hca` -/
def maxWr : ℕ := numBlock

/-- `enum class MsgDataChannel : uint32_t` -/
inductive MsgDataChannel where
  | requestBuffer
  | responseToRequestBuffer
  | sendTestRequest
  | responseToSendTestRequest
  | writeTestRequest
  | responseToWriteTestRequest
  | readTestRequest
  | responseToReadTestRequest
  | byebye
  | transferRawData
  deriving DecidableEq, Repr

/-- The value of a tag, sent as immediate data. -/
def MsgDataChannel.toImm : MsgDataChannel → UInt32
  | requestBuffer => 1
  | responseToRequestBuffer => 2
  | sendTestRequest => 3
  | responseToSendTestRequest => 4
  | writeTestRequest => 5
  | responseToWriteTestRequest => 6
  | readTestRequest => 7
  | responseToReadTestRequest => 8
  | byebye => 255
  | transferRawData => 299

/-! ## Channels -/

/-- What ends a thread. -/
inductive Failure where
  | fault (f : Fault)
  /-- "[error] failed to post send_request to Channel", "[error] failed to post SR to Channel" -/
  | postSend
  /-- "[error] failed to post RR to Channel" -/
  | postRecv
  | unimplemented
  /-- "Unknown opcode from ..." -/
  | unknownOpcode
  /-- "[ERROR]: Encounting unsuccess wqe: ..." -/
  | unsuccessWqe
  /-- "Currently, one thread only support <=64 connection" -/
  | tooManyChannels
  deriving DecidableEq, Repr

/-- The opcode of a request. -/
inductive Kind where
  | send
  | write
  deriving DecidableEq, Repr

/-- A request in the send queue; its bytes are the first `len` of a block of
    the send buffer. -/
inductive Request where
  | send (block len : ℕ) (tag : MsgDataChannel)
  | write (block len : ℕ) (remote : CommDescriptor)
  deriving DecidableEq, Repr

namespace Request

def kind : Request → Kind
  | send .. => .send
  | write .. => .write

def block : Request → ℕ
  | send block _ _ => block
  | write block _ _ => block

def len : Request → ℕ
  | send _ len _ => len
  | write _ len _ => len

end Request

/-- A posted request, with its payload once the network has fetched it. -/
structure Posted where
  request : Request
  payload : Option (List UInt8) := none

/-- A completion (`struct ibv_wc`): of an own request, or of a receive. -/
inductive Wc where
  | sent (k : Kind)
  | recv (imm : UInt32)
  deriving DecidableEq, Repr

/-- The completion of an own request. -/
def Wc.ofSq : Wc → Bool
  | sent _ => true
  | recv _ => false

/-- One side of a channel, with the buffers that `process_CQ` registers in it. -/
structure Chan where
  /-- `tensor_buffer_send[channel_index]` -/
  send : RDMABuffer
  /-- `tensor_buffer_recv[channel_index]` -/
  recv : RDMABuffer
  /-- `tensor_buffer_send[channel_index]->mr_->rkey` -/
  rkey : UInt32
  sendMem : ByteMem
  recvMem : ByteMem
  /-- the block `active_send_buf` -/
  active : ℕ := 0
  /-- `peer_comm_fd_mgr[channel_index]` -/
  peerComm : CommDescriptor := ⟨0, 0, 0, 0⟩
  sqInflight : ℤ := 0
  rqInflight : ℤ := 0
  sq : List Posted := []
  /-- delivered requests that are not reported -/
  acks : List Kind := []
  /-- the blocks of the receives posted -/
  rq : List ℕ := []

/-- What the environment decides for the two buffers of one side: addresses,
    the key of the send buffer, and what `posix_memalign` leaves in them. -/
structure Placement where
  sendPtr : ℕ
  recvPtr : ℕ
  rkey : UInt32
  sendMem : ByteMem
  recvMem : ByteMem
  sendPtr_pos : 0 < sendPtr
  recvPtr_pos : 0 < recvPtr
  sendPtr_le : sendPtr + blockSize * numBlock ≤ 2 ^ 64
  recvPtr_le : recvPtr + blockSize * numBlock ≤ 2 ^ 64

/-- A buffer of `process_CQ`, registered in the channel `c`. -/
def tensorBuffer (c : ChannelId) (mr : MrId) (ptr : ℕ) (info : String) : RDMABuffer :=
  registeredBuffer c mr ptr blockSize numBlock info

/-- The channel after `register_buffer`. -/
def Chan.init (c : ChannelId) (p : Placement) : Chan where
  send := tensorBuffer c 0 p.sendPtr "datachannel_write_placeholder"
  recv := tensorBuffer c 1 p.recvPtr "datachannel_recv_placeholder"
  rkey := p.rkey
  sendMem := p.sendMem.fill 0 0 blockSize
  recvMem := p.recvMem.fill 0 0 blockSize

/-! ## Operations -/

inductive Op where
  /-- `recv_remote(recv->next(), BLOCK_SIZE)` -/
  | recvNext
  /-- the two halves of `sync_with_peer` -/
  | syncSend
  | syncRecv
  /-- `send_remote(send->next(), len, tag)` -/
  | sendNext (len : ℕ) (tag : MsgDataChannel)
  | decreaseSqe
  | decreaseRqe
  /-- `send->last()` -/
  | ackSend
  /-- `recv->last()` -/
  | ackRecv
  /-- the descriptor of the send buffer is written to `send->next()` -/
  | fillNext
  /-- `send_remote(active_send_buf, len, tag)` -/
  | sendActive (len : ℕ) (tag : MsgDataChannel)
  /-- `peer_comm_fd_mgr[channel_index]` is read from `recv->next()` -/
  | loadNext
  /-- `write_remote` of `send->next()` to the buffer of the peer -/
  | writeNext
  | fatal (f : Failure)
  deriving DecidableEq, Repr

def fault {α : Type} (r : Except Fault α) : Except Failure α := failWith .fault r

namespace Chan

/-- `ibv_post_send`; `reported` own requests are in the completion queue. -/
def postSend (me : Chan) (reported : ℕ) (r : Request) : Except Failure Chan :=
  if me.sq.length + me.acks.length + reported < maxWr then
    .ok { me with sqInflight := me.sqInflight + 1, sq := me.sq ++ [⟨r, none⟩] }
  else .error .postSend

/-- `recv_remote`; the completions of `reported` receives are in the completion queue. -/
def recvRemote (me : Chan) (reported i len : ℕ) : Except Failure Chan := do
  fault (me.recv.checkBlock i len len)
  if me.rq.length + reported < maxWr then
    .ok { me with rqInflight := me.rqInflight + 1, rq := me.rq ++ [i] }
  else .error .postRecv

/-- `send_remote` -/
def sendRemote (me : Chan) (reported i len : ℕ) (tag : MsgDataChannel) : Except Failure Chan := do
  fault (me.send.checkBlock i len len)
  me.postSend reported (.send i len tag)

/-- `write_remote`, without a message to the peer. -/
def writeRemote (me : Chan) (reported i len : ℕ) : Except Failure Chan := do
  fault (me.send.checkBlock i len me.peerComm.bufferLength.toNat)
  me.postSend reported (.write i len me.peerComm)

/-- The descriptor that a server advertises. -/
def descriptor (me : Chan) : CommDescriptor where
  bufferAddr := .ofNat me.send.dataPtr
  bufferLength := .ofNat me.send.bufferSize
  rkey := me.rkey
  fd := 0

/-- An operation other than the synchronisation; `reported` completions of own
    requests, or of receives, are in the completion queue. -/
def perform (me : Chan) (reported : Bool → ℕ) : Op → Except Failure Chan
  | .recvNext => do
    let (recv, i) ← fault me.recv.next
    { me with recv }.recvRemote (reported false) i blockSize
  | .sendNext len tag => do
    let (send, i) ← fault me.send.next
    { me with send }.sendRemote (reported true) i len tag
  | .decreaseSqe => .ok { me with sqInflight := me.sqInflight - 1 }
  | .decreaseRqe => .ok { me with rqInflight := me.rqInflight - 1 }
  | .ackSend => do
    let (send, _) ← fault me.send.last
    .ok { me with send }
  | .ackRecv => do
    let (recv, _) ← fault me.recv.last
    .ok { me with recv }
  | .fillNext => do
    let (send, i) ← fault me.send.next
    .ok { me with
      send
      active := i
      sendMem := me.sendMem.write (i * blockSize) me.descriptor.toBytes }
  | .sendActive len tag => me.sendRemote (reported true) me.active len tag
  | .loadNext => do
    let (recv, i) ← fault me.recv.next
    .ok { me with recv, peerComm := CommDescriptor.load me.recvMem (i * blockSize) }
  | .writeNext => do
    let (send, i) ← fault me.send.next
    let o ← fault (send.blockAt i)
    -- `write_remote` takes the length as a `uint32_t`
    { me with send }.writeRemote (reported true) i (o.bufferSize % 2 ^ 32)
  | .syncSend => .ok me
  | .syncRecv => .ok me
  | .fatal f => .error f

/-- A write of `len` bytes with the descriptor `d` to the send buffer: the
    offset of the bytes, if they lie in the buffer and the key is right. -/
def offset (me : Chan) (d : CommDescriptor) (len : ℕ) : Option ℕ :=
  if d.rkey = me.rkey ∧ me.send.dataPtr ≤ d.bufferAddr.toNat ∧
      d.bufferAddr.toNat + len ≤ me.send.dataPtr + me.send.bufferSize then
    some (d.bufferAddr.toNat - me.send.dataPtr)
  else none

end Chan

/-! ## Programs -/

/-- What a thread does with a completion in a channel of a server (`true`) or
    of a client. -/
def handler : Bool → Wc → List Op
  | _, .sent .send => [.decreaseSqe, .ackSend]
  | true, .recv imm =>
    [.ackRecv, .decreaseRqe] ++
    (if imm = MsgDataChannel.requestBuffer.toImm then
      [.fillNext, .sendActive CommDescriptor.size .responseToRequestBuffer]
    else [.fatal .unimplemented]) ++
    [.recvNext]
  | true, .sent .write => [.fatal .unknownOpcode]
  | false, .recv imm =>
    [.decreaseRqe, .ackRecv] ++
    (if imm = MsgDataChannel.responseToRequestBuffer.toImm then [.loadNext]
    else [.fatal .unimplemented]) ++
    List.replicate (numBlock - 1) .writeNext
  | false, .sent .write => [.decreaseSqe, .ackSend, .writeNext]

/-- The receives posted at the start. -/
def receives : List Op := List.replicate numBlock .recvNext

/-- The start of a channel, up to the polling loop. -/
def start : Bool → List Op
  | true => receives ++ [.syncSend, .syncRecv]
  | false => receives ++ [.syncSend, .syncRecv, .sendNext 1 .requestBuffer]

/-! ## The service -/

/-- The threads: that of the server (`none`), and those of the clients. -/
abbrev ThreadId (n : ℕ) := Option (Fin n)

/-- The thread of one side of a channel. -/
def threadOf {n : ℕ} (x : Bool) (c : Fin n) : ThreadId n := if x then none else some c

/-- A thread in `process_CQ`. -/
structure Thread (n : ℕ) where
  /-- what is left of the start or of the handler -/
  todo : List (Fin n × Op)
  /-- `global_wc`: polled, and not handled -/
  batch : List (Fin n × Wc) := []
  /-- the completion queue -/
  cq : List (Fin n × Wc) := []
  failed : Option Failure := none

/-- What a thread runs before its polling loop. -/
def Thread.init {n : ℕ} : ThreadId n → Thread n
  | none => {
      todo := (List.finRange n).flatMap (fun c => receives.map (c, ·)) ++
        (List.finRange n).flatMap fun c => [(c, .syncSend), (c, .syncRecv)]
      failed := if n ≤ 64 then none else some .tooManyChannels }
  | some c => { todo := (start false).map (c, ·) }

/-- The completions of a channel in the completion queue, of own requests or of receives. -/
def Thread.reported {n : ℕ} (t : Thread n) (c : Fin n) (sq : Bool) : ℕ :=
  t.cq.countP fun e => e.1 = c ∧ e.2.ofSq = sq

structure Service (n : ℕ) where
  thread : ThreadId n → Thread n
  chan : Bool → Fin n → Chan
  /-- the bytes that a side of a channel has sent to synchronise, and the other has not read -/
  synced : Bool → Fin n → ℕ

inductive Act (n : ℕ) where
  /-- a thread performs its next operation -/
  | exec (t : ThreadId n)
  /-- a thread polls `k` completions -/
  | poll (t : ThreadId n) (k : ℕ)
  /-- a thread turns to the next completion of its batch -/
  | handle (t : ThreadId n)
  /-- the network fetches the payload of the `j`-th request of a side -/
  | fetch (x : Bool) (c : Fin n) (j : ℕ)
  /-- the oldest request of a side reaches the other side -/
  | deliver (x : Bool) (c : Fin n)
  /-- the oldest delivered request of a side is reported -/
  | complete (x : Bool) (c : Fin n)

namespace Service

variable {n : ℕ}

/-- The service after the buffers are registered. -/
def init (P : Bool → Fin n → Placement) : Service n where
  thread := Thread.init
  chan := fun x c => Chan.init c (P x c)
  synced := fun _ _ => 0

def setThread (s : Service n) (t : ThreadId n) (th : Thread n) : Service n :=
  { s with thread := Function.update s.thread t th }

def setChan (s : Service n) (x : Bool) (c : Fin n) (me : Chan) : Service n :=
  { s with chan := Function.update s.chan x (Function.update (s.chan x) c me) }

def setSynced (s : Service n) (x : Bool) (c : Fin n) (k : ℕ) : Service n :=
  { s with synced := Function.update s.synced x (Function.update (s.synced x) c k) }

/-- A completion is added to the queue of the thread of one side. -/
def push (s : Service n) (x : Bool) (c : Fin n) (wc : Wc) : Service n :=
  let th := s.thread (threadOf x c)
  s.setThread (threadOf x c) { th with cq := th.cq ++ [(c, wc)] }

def fail (s : Service n) (t : ThreadId n) (f : Failure) : Service n :=
  s.setThread t { s.thread t with failed := some f }

def exec (s : Service n) (t : ThreadId n) : Option (Service n) :=
  let th := s.thread t
  let x := t.isNone
  match th.todo with
  | [] => none
  | (c, .syncSend) :: todo =>
    some ((s.setThread t { th with todo }).setSynced x c (s.synced x c + 1))
  | (c, .syncRecv) :: todo =>
    if 0 < s.synced (!x) c then
      some ((s.setThread t { th with todo }).setSynced (!x) c (s.synced (!x) c - 1))
    else none
  | (c, o) :: todo =>
    match (s.chan x c).perform (th.reported c) o with
    | .ok me => some ((s.setThread t { th with todo }).setChan x c me)
    | .error f => some (s.fail t f)

/-- `poll_cq_batch(global_wc, 128)` returns up to 128 completions. -/
def poll (s : Service n) (t : ThreadId n) (k : ℕ) : Option (Service n) :=
  let th := s.thread t
  if th.todo = [] ∧ th.batch = [] ∧ 0 < k ∧ k ≤ 128 ∧ k ≤ th.cq.length then
    some (s.setThread t { th with batch := th.cq.take k, cq := th.cq.drop k })
  else none

def handle (s : Service n) (t : ThreadId n) : Option (Service n) :=
  let th := s.thread t
  match th.todo, th.batch with
  | [], (c, wc) :: batch =>
    some (s.setThread t { th with todo := (handler t.isNone wc).map (c, ·), batch })
  | _, _ => none

def fetch (s : Service n) (x : Bool) (c : Fin n) (j : ℕ) : Option (Service n) :=
  let me := s.chan x c
  match me.sq[j]? with
  | some ⟨r, none⟩ =>
    some (s.setChan x c
      { me with sq := me.sq.set j ⟨r, some (me.sendMem.read (r.block * blockSize) r.len)⟩ })
  | _ => none

def deliver (s : Service n) (x : Bool) (c : Fin n) : Option (Service n) :=
  let me := s.chan x c
  let you := s.chan (!x) c
  match me.sq with
  | ⟨.send _ len tag, some data⟩ :: sq =>
    match you.rq with
    | [] => none
    | i :: rq =>
      if len ≤ blockSize then
        some (((s.setChan x c { me with sq, acks := me.acks ++ [.send] }).setChan (!x) c
          { you with rq, recvMem := you.recvMem.write (i * blockSize) data }).push (!x) c
            (.recv tag.toImm))
      else some (s.fail (threadOf x c) .unsuccessWqe)
  | ⟨.write _ len d, some data⟩ :: sq =>
    match you.offset d len with
    | some a =>
      some ((s.setChan x c { me with sq, acks := me.acks ++ [.write] }).setChan (!x) c
        { you with sendMem := you.sendMem.write a data })
    | none => some (s.fail (threadOf x c) .unsuccessWqe)
  | _ => none

def complete (s : Service n) (x : Bool) (c : Fin n) : Option (Service n) :=
  let me := s.chan x c
  match me.acks with
  | [] => none
  | k :: acks => some ((s.setChan x c { me with acks }).push x c (.sent k))

/-- One action; a thread that has failed does nothing more. -/
def step (s : Service n) : Act n → Option (Service n)
  | .exec t => if (s.thread t).failed = none then s.exec t else none
  | .poll t k => if (s.thread t).failed = none then s.poll t k else none
  | .handle t => if (s.thread t).failed = none then s.handle t else none
  | .fetch x c j => s.fetch x c j
  | .deliver x c => s.deliver x c
  | .complete x c => s.complete x c

end Service

end Tower

end RdmaCore

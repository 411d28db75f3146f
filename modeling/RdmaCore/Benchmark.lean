/-
  The benchmark of example/lat_bw_benchmark.cc: `process_CQ` of a
  `SchedulingServer` and of the `SchedulingClient` at the other end of its only
  channel.

  Both threads run straight through their tests.  What a thread does is a list
  of small operations (`Op`), so that the threads and the network interleave
  between any two accesses to the buffer or a queue.  A call of `next()` is
  taken together with the request it is for, and a poll together with the
  checks of the completions polled: both concern the thread alone.  The sleeps
  and the timers are left out.

  The network fetches the payload of a request at some moment after it is
  posted (`fetch`), delivers the requests of a side in order (`deliver`), and
  reports a delivered request to its poster later (`complete`).  A message
  waits for a receive (`rnr_retry` is 7, without limit).  A request that fails
  ends the thread of its poster at once, not when its completion is polled.
  The memory of the buffer is addressed from its start.
-/
import RdmaCore.Towers

namespace RdmaCore

namespace Benchmark

/-! ## Constants -/

/-- `8 * MB` -/
def blockSize : ℕ := 8 * 1024 * 1024

/-- the blocks of `benchmark_buffer`, and the operations of a test -/
def count : ℕ := 1000

/-- `max_send_wr` and `max_recv_wr` of `lazy_config_hca` -/
def maxWr : ℕ := 1024

/-- The values of `buffer_size` in the loops of `process_CQ`, from 1 to `8 * MB`. -/
def sizes : List ℕ := (List.range 24).map (2 ^ ·)

/-- `enum class MessageforTest : uint32_t` -/
inductive MessageforTest where
  | requestBuffer
  | responseToRequestBuffer
  | sendTestRequest
  | responseToSendTestRequest
  | writeTestRequest
  | responseToWriteTestRequest
  | readTestRequest
  | responseToReadTestRequest
  | byebye
  | testRawData
  deriving DecidableEq, Repr

/-- What ends a thread. -/
inductive Failure where
  | fault (f : Fault)
  /-- "[error] failed to post send_request to Channel", "[error] failed to post SR to Channel" -/
  | postSend
  /-- "[error] failed to post RR to Channel" -/
  | postRecv
  /-- "Failed to query exchange info with error ..." -/
  | status
  /-- "Receive unexpected opcode", "Unexpected opcode" -/
  | opcode
  /-- "Unexpected message for the test benchmark", "Invalid msg_type" -/
  | message
  /-- "Unexpected send completion events", "Unexpected receive completion events" -/
  | repeated
  /-- `CHECK(confirm == 1000)` -/
  | confirm
  deriving DecidableEq, Repr

/-! ## Requests and completions -/

/-- The opcode of an own request in its completion. -/
inductive Opcode where
  | send
  | rdmaWrite
  | rdmaRead
  deriving DecidableEq, Repr

/-- What a request is, without the bytes it is about. -/
inductive Kind where
  | send (tag : MessageforTest)
  | write
  | read
  deriving DecidableEq, Repr

def Kind.opcode : Kind → Opcode
  | send _ => .send
  | write => .rdmaWrite
  | read => .rdmaRead

/-- A request in the send queue, on the first `len` bytes of a block. -/
inductive Request where
  | send (block len : ℕ) (tag : MessageforTest)
  | write (block len : ℕ) (remote : CommDescriptor)
  | read (block len : ℕ) (remote : CommDescriptor)
  deriving DecidableEq, Repr

namespace Request

def kind : Request → Kind
  | send _ _ tag => .send tag
  | write .. => .write
  | read .. => .read

def block : Request → ℕ
  | send block _ _ => block
  | write block _ _ => block
  | read block _ _ => block

def len : Request → ℕ
  | send _ len _ => len
  | write _ len _ => len
  | read _ len _ => len

end Request

/-- A posted request, with its payload once the network has fetched it. -/
structure Posted where
  request : Request
  payload : Option (List UInt8) := none

/-- A completion (`struct ibv_wc`): of an own request, or of a receive. -/
inductive Wc where
  | sent (k : Kind)
  | recv (tag : MessageforTest)
  deriving DecidableEq, Repr

def Wc.ofSq : Wc → Bool
  | sent _ => true
  | recv _ => false

/-! ## Channels -/

/-- One side of the channel, with `benchmark_buffer`. -/
structure Chan where
  buffer : RDMABuffer
  /-- `benchmark_buffer->mr_->rkey` -/
  rkey : UInt32
  mem : ByteMem
  /-- `buffer_peer` -/
  bufferPeer : CommDescriptor := ⟨0, 0, 0, 0⟩
  sqInflight : ℤ := 0
  rqInflight : ℤ := 0
  sq : List Posted := []
  /-- delivered requests that are not reported -/
  acks : List Kind := []
  /-- the receives posted, with block and length -/
  rq : List (ℕ × ℕ) := []

/-- What the environment decides for the buffer of one side: its address, its
    key, and what `posix_memalign` leaves in it. -/
structure Placement where
  ptr : ℕ
  rkey : UInt32
  mem : ByteMem
  ptr_pos : 0 < ptr
  ptr_le : ptr + blockSize * count ≤ 2 ^ 64

/-- The channel after `register_buffer`. -/
def Chan.init (c : ChannelId) (p : Placement) : Chan where
  buffer := registeredBuffer c 0 p.ptr blockSize count "benchmark_buffer"
  rkey := p.rkey
  mem := p.mem.fill 0 0 blockSize

/-! ## Operations -/

inductive Op where
  /-- `recv_remote(at(i), len)` -/
  | recvAt (i len : ℕ)
  /-- `recv_remote(b, b->buffer_size)` for `b = next()` -/
  | recvNext
  /-- the two halves of `sync_with_peer` -/
  | syncSend
  | syncRecv
  /-- `send_remote(at(i), len, tag)` -/
  | sendAt (i len : ℕ) (tag : MessageforTest)
  /-- `send_remote(next(), len, tag)` -/
  | sendNext (len : ℕ) (tag : MessageforTest)
  /-- `write_remote(next(), len, &buffer_peer, ..)` -/
  | writeNext (len : ℕ)
  /-- `write_remote(at(i), len, &buffer_peer, ..)` -/
  | writeAt (i len : ℕ)
  /-- `read_remote(next(), len, &buffer_peer)` -/
  | readNext (len : ℕ)
  | last
  /-- the address, the length and the key of the first block are written to `at(1)` -/
  | fill
  /-- `buffer_peer` is read from `at(0)` -/
  | load
  /-- polls the completion of the own request `k`, and checks its opcode -/
  | awaitSent (k : Kind)
  /-- polls the completion of a receive of the message `tag`; `checked` if the tag is checked -/
  | awaitRecv (tag : MessageforTest) (checked : Bool)
  /-- the loop that waits for the completions of `request` and of `response`, in any order -/
  | exchange (request response : MessageforTest) (send recv : Bool)
  /-- the loop that confirms the writes of a bandwidth test; `ring` if it calls `last()` -/
  | confirm (index confirmed : ℕ) (ring : Bool)
  deriving DecidableEq, Repr

def fault {α : Type} (r : Except Fault α) : Except Failure α := failWith .fault r

namespace Chan

/-- `ibv_post_send`; `reported` own requests are in the completion queue. -/
def postSend (me : Chan) (reported : ℕ) (r : Request) : Except Failure Chan :=
  if me.sq.length + me.acks.length + reported < maxWr then
    .ok { me with sqInflight := me.sqInflight + 1, sq := me.sq ++ [⟨r, none⟩] }
  else .error .postSend

/-- `recv_remote`; the completions of `reported` receives are in the completion queue. -/
def recvRemote (me : Chan) (reported i len : ℕ) : Except Failure Chan := do
  fault (me.buffer.checkBlock i len len)
  if me.rq.length + reported < maxWr then
    .ok { me with rqInflight := me.rqInflight + 1, rq := me.rq ++ [(i, len)] }
  else .error .postRecv

/-- `send_remote` -/
def sendRemote (me : Chan) (reported i len : ℕ) (tag : MessageforTest) : Except Failure Chan := do
  fault (me.buffer.checkBlock i len len)
  me.postSend reported (.send i len tag)

/-- `write_remote`, without a message to the peer. -/
def writeRemote (me : Chan) (reported i len : ℕ) : Except Failure Chan := do
  fault (me.buffer.checkBlock i len me.bufferPeer.bufferLength.toNat)
  me.postSend reported (.write i len me.bufferPeer)

/-- `read_remote` -/
def readRemote (me : Chan) (reported i len : ℕ) : Except Failure Chan := do
  fault (me.buffer.checkBlock i len me.bufferPeer.bufferLength.toNat)
  me.postSend reported (.read i len me.bufferPeer)

/-- The members of the descriptor that the server assigns; `fd_` keeps its bytes. -/
def descriptorBytes (me : Chan) (first : BufferObj) : List UInt8 :=
  leBytes 8 first.dataPtr ++ leBytes 8 first.bufferSize ++ leBytes 4 me.rkey.toNat

/-- An operation on the channel; `reported` completions of own requests, or of
    receives, are in the completion queue. -/
def perform (me : Chan) (reported : Bool → ℕ) : Op → Except Failure Chan
  | .recvAt i len => me.recvRemote (reported false) i len
  | .recvNext => do
    let (buffer, i) ← fault me.buffer.next
    let o ← fault (buffer.blockAt i)
    -- `recv_remote` takes the length as a `uint32_t`
    { me with buffer }.recvRemote (reported false) i (o.bufferSize % 2 ^ 32)
  | .sendAt i len tag => me.sendRemote (reported true) i len tag
  | .sendNext len tag => do
    let (buffer, i) ← fault me.buffer.next
    { me with buffer }.sendRemote (reported true) i len tag
  | .writeNext len => do
    let (buffer, i) ← fault me.buffer.next
    { me with buffer }.writeRemote (reported true) i len
  | .writeAt i len => me.writeRemote (reported true) i len
  | .readNext len => do
    let (buffer, i) ← fault me.buffer.next
    { me with buffer }.readRemote (reported true) i len
  | .last => do
    let (buffer, _) ← fault me.buffer.last
    .ok { me with buffer }
  | .fill => do
    let first ← fault (me.buffer.blockAt 0)
    .ok { me with mem := me.mem.write blockSize (me.descriptorBytes first) }
  | .load => .ok { me with bufferPeer := CommDescriptor.load me.mem 0 }
  | .syncSend | .syncRecv | .awaitSent _ | .awaitRecv .. | .exchange .. | .confirm .. => .ok me

/-- A one-sided operation on `len` bytes with the descriptor `d`: the offset of
    the bytes, if they lie in the buffer and the key is right. -/
def offset (me : Chan) (d : CommDescriptor) (len : ℕ) : Option ℕ :=
  if d.rkey = me.rkey ∧ me.buffer.dataPtr ≤ d.bufferAddr.toNat ∧
      d.bufferAddr.toNat + len ≤ me.buffer.dataPtr + me.buffer.bufferSize then
    some (d.bufferAddr.toNat - me.buffer.dataPtr)
  else none

/-- The completions of a bandwidth test are checked one after another. -/
def confirmAll (ring : Bool) : Chan → List Wc → Except Failure Chan
  | me, [] => .ok me
  | me, .sent k :: wcs =>
    if k.opcode = .rdmaWrite then do
      let me ← if ring then me.perform (fun _ => 0) .last else .ok me
      confirmAll ring me wcs
    else .error .opcode
  | _, .recv _ :: _ => .error .opcode

end Chan

/-- What an operation that polls one completion goes on with. -/
def Op.take : Op → Wc → Except Failure (List Op)
  | .awaitSent k, .sent k' => if k'.opcode = k.opcode then .ok [] else .error .opcode
  | .awaitSent _, .recv _ => .error .opcode
  | .awaitRecv tag checked, .recv tag' =>
    if checked → tag' = tag then .ok [] else .error .message
  | .awaitRecv _ _, .sent _ => .error .opcode
  | .exchange request response send recv, .sent k =>
    if k.opcode = .send then
      if send then .error .repeated else .ok (loop request response true recv)
    else .error .opcode
  | .exchange request response send recv, .recv tag =>
    if tag = response then
      if recv then .error .repeated else .ok (loop request response send true)
    else .error .message
  | o, _ => .ok [o]
where
  /-- `if (send_completion && recv_completion) break;` -/
  loop (request response : MessageforTest) (send recv : Bool) : List Op :=
    if send && recv then [] else [.exchange request response send recv]

/-- The operation polls one completion. -/
def Op.polls : Op → Bool
  | awaitSent _ | awaitRecv .. | exchange .. => true
  | _ => false

/-! ## Programs -/

/-- `n` times the operations `ops`. -/
def repeated (n : ℕ) (ops : List Op) : List Op := (List.replicate n ops).flatten

namespace SchedulingClient

def exchangeBufferInfo : List Op :=
  [.sendAt 1 2 .requestBuffer,
    .exchange .requestBuffer .responseToRequestBuffer false false, .load]

def latSend (msgLength : ℕ) : List Op :=
  [.recvAt 0 64, .sendAt 1 2 .sendTestRequest,
    .exchange .sendTestRequest .responseToSendTestRequest false false] ++
  repeated count [.sendNext msgLength .testRawData, .awaitSent (.send .testRawData), .last]

def writeTest (msgLength : ℕ) : List Op :=
  repeated count [.writeNext msgLength, .awaitSent .write, .last]

def readTest (msgLength : ℕ) : List Op :=
  repeated count [.readNext msgLength, .awaitSent .read, .last]

def writeBwTest (msgLength : ℕ) : List Op :=
  repeated count [.writeNext msgLength] ++ [.confirm 0 0 true]

def writeBwTestFake (msgLength : ℕ) : List Op :=
  repeated count [.writeAt 0 msgLength] ++ [.confirm 0 0 false]

/-- `process_CQ` after the buffer is registered. -/
def processCQ : List Op :=
  [.recvAt 0 blockSize, .syncSend, .syncRecv] ++ exchangeBufferInfo ++ sizes.flatMap latSend ++
  sizes.flatMap writeTest ++ sizes.flatMap readTest ++ sizes.flatMap writeBwTest ++
  sizes.flatMap writeBwTestFake ++ [.sendAt 0 64 .byebye]

end SchedulingClient

namespace SchedulingServer

def exchangeBufferInfo : List Op :=
  [.awaitRecv .requestBuffer true, .fill, .sendAt 1 64 .responseToRequestBuffer,
    .awaitSent (.send .responseToRequestBuffer)]

def latSend : List Op :=
  [.recvAt 0 64, .awaitRecv .sendTestRequest false] ++ repeated count [.recvNext] ++
  [.sendAt 1 0 .responseToSendTestRequest, .awaitSent (.send .responseToSendTestRequest)] ++
  repeated count [.awaitRecv .testRawData true, .last]

/-- `process_CQ` after the buffer is registered. -/
def processCQ : List Op :=
  [.recvAt 0 blockSize, .syncSend, .syncRecv] ++ exchangeBufferInfo ++
  sizes.flatMap (fun _ => latSend) ++ [.recvAt 0 64, .awaitRecv .byebye true]

end SchedulingServer

/-- The program of the server (`true`) or of the client. -/
def processCQ (x : Bool) : List Op :=
  if x then SchedulingServer.processCQ else SchedulingClient.processCQ

/-! ## The benchmark -/

/-- A thread in `process_CQ`, and its side of the channel. -/
structure Party where
  todo : List Op
  /-- the completion queue -/
  cq : List Wc := []
  chan : Chan
  failed : Option Failure := none

/-- The completions of own requests, or of receives, in the completion queue. -/
def Party.reported (p : Party) (sq : Bool) : ℕ := p.cq.countP fun wc => wc.ofSq = sq

structure State where
  party : Bool → Party
  /-- the bytes that a side has sent to synchronise, and the other has not read -/
  synced : Bool → ℕ

inductive Act where
  /-- a thread performs its next operation -/
  | exec (x : Bool)
  /-- a thread that confirms writes polls `k` completions -/
  | poll (x : Bool) (k : ℕ)
  /-- the network fetches the payload of the `j`-th request of a side -/
  | fetch (x : Bool) (j : ℕ)
  /-- the oldest request of a side reaches the other side -/
  | deliver (x : Bool)
  /-- the oldest delivered request of a side is reported -/
  | complete (x : Bool)
  deriving DecidableEq, Repr

namespace State

/-- The two sides after the buffers are registered. -/
def init (P : Bool → Placement) : State where
  party x := { todo := processCQ x, chan := Chan.init 0 (P x) }
  synced _ := 0

def setParty (s : State) (x : Bool) (p : Party) : State :=
  { s with party := Function.update s.party x p }

def setSynced (s : State) (x : Bool) (n : ℕ) : State :=
  { s with synced := Function.update s.synced x n }

def fail (s : State) (x : Bool) (f : Failure) : State :=
  s.setParty x { s.party x with failed := some f }

def exec (s : State) (x : Bool) : Option State :=
  let p := s.party x
  match p.todo with
  | [] => none
  | .syncSend :: todo => some ((s.setParty x { p with todo }).setSynced x (s.synced x + 1))
  | .syncRecv :: todo =>
    if 0 < s.synced (!x) then
      some ((s.setParty x { p with todo }).setSynced (!x) (s.synced (!x) - 1))
    else none
  | .confirm index confirmed _ :: todo =>
    if index < count ∧ confirmed < count then none
    else if confirmed = count then some (s.setParty x { p with todo })
    else some (s.fail x .confirm)
  | o :: todo =>
    if o.polls then
      match p.cq with
      | [] => none
      | wc :: cq =>
        match o.take wc with
        | .ok os => some (s.setParty x { p with todo := os ++ todo, cq })
        | .error f => some (s.fail x f)
    else
      match p.chan.perform p.reported o with
      | .ok chan => some (s.setParty x { p with todo, chan })
      | .error f => some (s.fail x f)

/-- `poll_cq_batch(global_wc, 128)` returns up to 128 completions. -/
def poll (s : State) (x : Bool) (k : ℕ) : Option State :=
  let p := s.party x
  match p.todo with
  | .confirm index confirmed ring :: todo =>
    if index < count ∧ confirmed < count ∧ 0 < k ∧ k ≤ 128 ∧ k ≤ p.cq.length then
      match p.chan.confirmAll ring (p.cq.take k) with
      | .ok chan => some (s.setParty x { p with
          todo := .confirm (index + 1) (confirmed + k) ring :: todo
          cq := p.cq.drop k
          chan })
      | .error f => some (s.fail x f)
    else none
  | _ => none

def fetch (s : State) (x : Bool) (j : ℕ) : Option State :=
  let p := s.party x
  match p.chan.sq[j]? with
  | some ⟨r, none⟩ =>
    some (s.setParty x { p with chan := { p.chan with
      sq := p.chan.sq.set j ⟨r, some (p.chan.mem.read (r.block * blockSize) r.len)⟩ } })
  | _ => none

/-- The oldest request of a side leaves its send queue. -/
def sent (s : State) (x : Bool) (k : Kind) : State :=
  let p := s.party x
  s.setParty x { p with chan := { p.chan with sq := p.chan.sq.tail, acks := p.chan.acks ++ [k] } }

def deliver (s : State) (x : Bool) : Option State :=
  let you := s.party (!x)
  match (s.party x).chan.sq with
  | ⟨.send _ len tag, some data⟩ :: _ =>
    match you.chan.rq with
    | [] => none
    | (i, limit) :: rq =>
      if len ≤ limit then
        some ((s.sent x (.send tag)).setParty (!x) { you with
          cq := you.cq ++ [.recv tag]
          chan := { you.chan with rq, mem := you.chan.mem.write (i * blockSize) data } })
      else some (s.fail x .status)
  | ⟨.write _ len d, some data⟩ :: _ =>
    match you.chan.offset d len with
    | some a =>
      some ((s.sent x .write).setParty (!x) { you with
        chan := { you.chan with mem := you.chan.mem.write a data } })
    | none => some (s.fail x .status)
  | ⟨.read i len d, _⟩ :: _ =>
    match you.chan.offset d len with
    | some a =>
      let p := (s.sent x .read).party x
      some (s.setParty x { p with chan := { p.chan with
        mem := p.chan.mem.write (i * blockSize) (you.chan.mem.read a len) } })
    | none => some (s.fail x .status)
  | _ => none

def complete (s : State) (x : Bool) : Option State :=
  let p := s.party x
  match p.chan.acks with
  | [] => none
  | k :: acks => some (s.setParty x { p with cq := p.cq ++ [.sent k], chan := { p.chan with acks } })

/-- One action; a thread that has failed does nothing more. -/
def step (s : State) : Act → Option State
  | .exec x => if (s.party x).failed = none then s.exec x else none
  | .poll x k => if (s.party x).failed = none then s.poll x k else none
  | .fetch x j => s.fetch x j
  | .deliver x => s.deliver x
  | .complete x => s.complete x

end State

end Benchmark

end RdmaCore

/-
  The default callbacks of a session as a whole (src/rdma_session.cc), between
  which `process_CQ` has no state of its own: a channel handles one completion
  after another, in any order and with any contents of its buffers.

  * `Side.handle`: the handler of a completion, run to its end;
  * `handle_request`, `handle_other`, `handle_write`, `handle_read`: what each
    handler posts and what it keeps of the peer.

  The requests a channel has posted are never removed from `sq` here, and no
  receive is consumed: `sq` and `rq` are all that was posted.
-/
import RdmaCore.Session

namespace RdmaCore

/-- A completion that a channel polls; the data of a message is in the receive
    buffer and that of a read in the read buffer when its handler runs. -/
inductive Completion where
  | send
  /-- with the immediate data, if the message has any -/
  | recv (imm : Option UInt32) (recvBuffer : ByteMem)
  | write
  | read (readBuffer : ByteMem)
  | recvWithImm (imm : Option UInt32)

/-- `default_process_recv_done`, by the immediate data. -/
def Peer.recvCode (p : Peer) (imm : UInt32) : List Op :=
  match MessageType.ofImm imm with
  | some tag => p.processRecvDone tag
  | none => p.otherTag

namespace Side

/-- The operations of a callback, one after another. -/
def performAll (me : Side) (ops : List Op) : Except Check Side := ops.foldlM perform me

/-- `default_established_fn`, for this channel. -/
def establish (p : Peer) (me : Side) : Except Check Side := me.performAll p.establishedFn

/-- The handler of a completion. -/
def handle (p : Peer) (me : Side) : Completion → Except Check Side
  | .send => pure me
  | .recv none _ => throw .immData
  | .recv (some imm) m => (me.setMem .recv m).performAll (p.recvCode imm)
  | .write => me.performAll Peer.processWriteDone
  | .read m => (me.setMem .read m).performAll p.processReadDone
  | .recvWithImm none => throw .immData
  | .recvWithImm (some _) => me.performAll [.recvRemote]

/-- Handling as a step; `none` if a `CHECK` of the handler ends the process. -/
def handling (p : Peer) (me : Side) (c : Completion) : Option Side := (me.handle p c).toOption

/-! ## What the handlers do -/

variable {p : Peer} {me me' : Side}

theorem performAll_nil : me.performAll [] = .ok me' ↔ me = me' := Except.pure_eq_ok

theorem performAll_cons {o : Op} {ops : List Op} : me.performAll (o :: ops) = .ok me' ↔
    ∃ me₁, me.perform o = .ok me₁ ∧ me₁.performAll ops = .ok me' := by
  rw [performAll, List.foldlM_cons, Except.bind_eq_ok]
  rfl

theorem performAll_append {ops ops' : List Op} : me.performAll (ops ++ ops') = .ok me' ↔
    ∃ me₁, me.performAll ops = .ok me₁ ∧ me₁.performAll ops' = .ok me' := by
  rw [performAll, List.foldlM_append, Except.bind_eq_ok]
  rfl

theorem handle_of_handling {c : Completion} (h : me.handling p c = some me') :
    me.handle p c = .ok me' := Lts.toOption_eq_some.1 h

end Side

/-- The operation leaves alone the send queue and what is known of the peer. -/
def Op.Quiet : Op → Prop
  | .checkLength .. | .clear _ | .copy .. | .recvRemote | .readText _ | .syncSend | .syncRecv => True
  | _ => False

theorem quiet_fillIn (b : Buf) (data : List UInt8) : ∀ o ∈ fillIn b data, o.Quiet := by
  simp [fillIn, Op.Quiet]

/-- What quiet operations keep. -/
structure Side.SameQueue (me me' : Side) : Prop where
  sq : me'.sq = me.sq
  peerBuffer : me'.peerBuffer = me.peerBuffer
  descriptor : me'.descriptor = me.descriptor

namespace Side

variable {p : Peer} {me me' : Side}

theorem sameQueue_of_perform {o : Op} (ho : o.Quiet) (h : me.perform o = .ok me') :
    me.SameQueue me' := by
  cases o with
  | checkLength b len =>
    simp only [perform] at h
    split_ifs at h
    obtain rfl := Except.ok.inj h
    exact ⟨rfl, rfl, rfl⟩
  | clear | copy | recvRemote | readText | syncSend | syncRecv =>
    obtain rfl := Except.ok.inj h
    exact ⟨rfl, rfl, rfl⟩
  | sendRemote | writeRemote | readRemote | loadAddr | loadLength | loadRkey | insertPeerBuffer
  | findPeerBuffer => exact ho.elim

theorem sameQueue_of_performAll {ops : List Op} (hq : ∀ o ∈ ops, o.Quiet)
    (h : me.performAll ops = .ok me') : me.SameQueue me' := by
  induction ops generalizing me with
  | nil =>
    obtain rfl := performAll_nil.1 h
    exact ⟨rfl, rfl, rfl⟩
  | cons o ops ih =>
    obtain ⟨me₁, h₁, h⟩ := performAll_cons.1 h
    have hfirst := sameQueue_of_perform (hq o List.mem_cons_self) h₁
    have hrest := ih (fun o ho => hq o (List.mem_cons_of_mem _ ho)) h
    exact ⟨hrest.sq.trans hfirst.sq, hrest.peerBuffer.trans hfirst.peerBuffer,
      hrest.descriptor.trans hfirst.descriptor⟩

/-- `fill_in` before an operation. -/
theorem performAll_fillIn {b : Buf} {data : List UInt8} {o : Op}
    (h : me.performAll (fillIn b data ++ [o]) = .ok me') :
    ∃ me₁, me.SameQueue me₁ ∧ me₁.perform o = .ok me' := by
  obtain ⟨me₁, h₁, h⟩ := performAll_append.1 h
  obtain ⟨me₂, h₂, h⟩ := performAll_cons.1 h
  obtain rfl := performAll_nil.1 h
  exact ⟨me₁, sameQueue_of_performAll (quiet_fillIn b data) h₁, h₂⟩

theorem perform_sendRemote {len : ℕ} {tag : MessageType}
    (h : me.perform (.sendRemote len tag) = .ok me') : me' = me.post (.send len tag) := by
  simp only [perform] at h
  split_ifs at h
  exact (Except.ok.inj h).symm

theorem perform_writeRemote {len : ℕ} {tag : MessageType} {notifyPeer : Bool}
    (h : me.perform (.writeRemote len tag notifyPeer) = .ok me') :
    me' = me.post (.write len me.descriptor (if notifyPeer then some tag else none)) := by
  simp only [perform] at h
  by_cases hlen : len ≤ Buf.write.size ∧ len ≤ me.descriptor.bufferLength.toNat
  · rw [if_pos hlen] at h
    exact (Except.ok.inj h).symm
  · rw [if_neg hlen] at h
    cases h

theorem perform_readRemote {len : ℕ} (h : me.perform (.readRemote len) = .ok me') :
    me' = me.post (.read len me.descriptor) := by
  simp only [perform] at h
  split_ifs at h
  exact (Except.ok.inj h).symm

theorem perform_findPeerBuffer (h : me.perform .findPeerBuffer = .ok me') :
    ∃ d, me.peerBuffer = some d ∧ me' = { me with descriptor := d } := by
  simp only [perform] at h
  split at h
  · next d hd => exact ⟨d, hd, (Except.ok.inj h).symm⟩
  · cases h

/-- What the handler of `REQUEST_EXCHANGE_KEY` reads from the receive buffer. -/
def AdvertisedIn (m : ByteMem) (d : CommDescriptor) : Prop :=
  d.bufferAddr = CommDescriptor.loadAddr m 0 ∧ d.bufferLength = CommDescriptor.loadLength m 0 ∧
    d.rkey = CommDescriptor.loadRkey m 0

/-- The write goes to the buffer that the message advertises; the descriptor is
    kept only if there is none yet. -/
theorem handle_request {imm : UInt32} {m : ByteMem}
    (hi : MessageType.ofImm imm = some .requestExchangeKey)
    (h : me.handle p (.recv (some imm) m) = .ok me') :
    ∃ d, AdvertisedIn m d ∧ me'.peerBuffer = (me.peerBuffer <|> some d) ∧
      me'.sq = me.sq ++
        [⟨.send p.baseToSendData.length .responseExchangeKey, none⟩,
          ⟨.write p.writeText.length d (some .responseExchangeKey), none⟩] := by
  simp only [handle, Peer.recvCode, hi, Peer.processRecvDone, Peer.requestExchangeKey,
    List.append_assoc] at h
  obtain ⟨me₁, h₁, h₂⟩ := performAll_append.1 h
  obtain ⟨me₂, hq, hw⟩ := performAll_fillIn h₂
  obtain rfl := perform_writeRemote hw
  simp only [performAll_cons, performAll_nil] at h₁
  obtain ⟨_, ha, _, hl, _, hr, _, hins, _, hrecv, me₃, hsend, rfl⟩ := h₁
  obtain rfl := perform_sendRemote hsend
  obtain rfl := Except.ok.inj ha
  obtain rfl := Except.ok.inj hl
  obtain rfl := Except.ok.inj hr
  obtain rfl := Except.ok.inj hins
  obtain rfl := Except.ok.inj hrecv
  refine ⟨me₂.descriptor, ?_, ?_, ?_⟩
  · rw [hq.descriptor]
    refine ⟨?_, ?_, ?_⟩ <;> simp only [post, setMem_mem_self]
  · exact hq.peerBuffer.trans (by rw [hq.descriptor]; rfl)
  · show me₂.sq ++ _ = _
    rw [hq.sq]
    simp [post, setMem]

/-- A reply: quiet operations, and then a send. -/
theorem performAll_reply {ops : List Op} {data : List UInt8} {len : ℕ} {tag : MessageType}
    (hops : ∀ o ∈ ops, o.Quiet)
    (h : me.performAll (ops ++ (fillIn .send data ++ [.sendRemote len tag])) = .ok me') :
    me'.peerBuffer = me.peerBuffer ∧ me'.sq = me.sq ++ [⟨.send len tag, none⟩] := by
  obtain ⟨me₁, h₁, h₂⟩ := performAll_append.1 h
  have hfirst := sameQueue_of_performAll hops h₁
  obtain ⟨me₂, hq, hs⟩ := performAll_fillIn h₂
  obtain rfl := perform_sendRemote hs
  exact ⟨hq.peerBuffer.trans hfirst.peerBuffer, by
    show me₂.sq ++ _ = _
    rw [hq.sq, hfirst.sq]⟩

theorem handle_other {imm : UInt32} {m : ByteMem}
    (hi : MessageType.ofImm imm ≠ some .requestExchangeKey)
    (h : me.handle p (.recv (some imm) m) = .ok me') :
    me'.peerBuffer = me.peerBuffer ∧ ∃ len tag, me'.sq = me.sq ++ [⟨.send len tag, none⟩] := by
  have hquiet : ∀ o ∈ [Op.readText .recv, .recvRemote], o.Quiet := by simp [Op.Quiet]
  have hcode : ∃ data len tag, p.recvCode imm =
      [Op.readText .recv, .recvRemote] ++ (fillIn .send data ++ [.sendRemote len tag]) := by
    unfold Peer.recvCode
    split
    · next tag htag =>
      cases tag with
      | requestExchangeKey => exact absurd htag hi
      | testForSyncData => exact ⟨_, _, _, rfl⟩
      | _ => exact ⟨_, _, _, rfl⟩
    · exact ⟨_, _, _, rfl⟩
  obtain ⟨data, len, tag, hcode⟩ := hcode
  simp only [handle, hcode] at h
  obtain ⟨hpeer, hsq⟩ := performAll_reply hquiet h
  exact ⟨hpeer, len, tag, hsq⟩

/-- The read goes to the buffer that is kept. -/
theorem handle_write (h : me.handle p .write = .ok me') :
    ∃ d, me.peerBuffer = some d ∧ me'.peerBuffer = some d ∧
      me'.sq = me.sq ++ [⟨.read Buf.read.size d, none⟩] := by
  simp only [handle, Peer.processWriteDone, performAll_cons, performAll_nil] at h
  obtain ⟨_, hf, _, hc, _, hr, rfl⟩ := h
  obtain ⟨d, hd, rfl⟩ := perform_findPeerBuffer hf
  obtain rfl := Except.ok.inj hc
  obtain rfl := perform_readRemote hr
  exact ⟨d, hd, hd, rfl⟩

/-- The write goes to the buffer that is kept. -/
theorem handle_read {m : ByteMem} (h : me.handle p (.read m) = .ok me') :
    ∃ d, me.peerBuffer = some d ∧ me'.peerBuffer = some d ∧
      me'.sq = me.sq ++ [⟨.write p.writeText.length d none, none⟩] := by
  simp only [handle, Peer.processReadDone, List.append_assoc] at h
  obtain ⟨me₁, h₁, h₂⟩ := performAll_append.1 h
  simp only [performAll_cons, performAll_nil] at h₁
  obtain ⟨_, hf, me₂, ht, rfl⟩ := h₁
  obtain ⟨d, hd, rfl⟩ := perform_findPeerBuffer hf
  obtain rfl := Except.ok.inj ht
  obtain ⟨me₃, hq, hw⟩ := performAll_fillIn h₂
  obtain rfl := perform_writeRemote hw
  refine ⟨d, hd, hq.peerBuffer.trans hd, ?_⟩
  show me₃.sq ++ _ = _
  rw [hq.sq, hq.descriptor]
  rfl

theorem handle_recvWithImm {imm : Option UInt32} (h : me.handle p (.recvWithImm imm) = .ok me') :
    me'.peerBuffer = me.peerBuffer ∧ me'.sq = me.sq := by
  cases imm with
  | none => cases h
  | some imm =>
    obtain ⟨_, hr, h⟩ := performAll_cons.1 h
    obtain rfl := performAll_nil.1 h
    obtain rfl := Except.ok.inj hr
    exact ⟨rfl, rfl⟩

end Side

end RdmaCore

/-
  The one-sided loop of the default session: every side writes a text into the
  sink buffer of its peer, reads it back when the write has completed, writes
  again when the read has completed, and so on.

  * `Side.oneSided` counts the one-sided operations of a side wherever they
    are: still to be posted by the callback that runs, in the send queue,
    delivered, or completed and not handled.  There is one as soon as the key
    of the peer is handled, and never a second one (`oneSided_le_one`);
  * `Prepared`: what the callbacks need before they post, as a precondition of
    the operations that are left;
  * `Loop`: the text on its way through the write buffer, the sink buffer and
    the read buffer;
  * `failed_eq_none`: no `CHECK` of the session fails.
-/
import RdmaCore.Readiness

namespace RdmaCore

/-! ## One-sided operations -/

def Request.isOneSided : Request → Bool
  | send _ _ => false
  | write _ _ _ => true
  | read _ _ => true

def Ack.isOneSided : Ack → Bool
  | send => false
  | write => true
  | read _ => true

def Wc.isOneSided : Wc → Bool
  | write => true
  | read => true
  | _ => false

def Op.isOneSided : Op → Bool
  | writeRemote _ _ _ => true
  | readRemote _ => true
  | _ => false

namespace Side

/-- The one-sided operations posted and not yet handled. -/
def outstanding (me : Side) : ℕ :=
  me.sq.countP (·.request.isOneSided) + me.acks.countP Ack.isOneSided +
    me.cq.countP Wc.isOneSided

/-- All one-sided operations of a side, with those the callback has still to post. -/
def oneSided (me : Side) : ℕ := me.outstanding + me.todo.countP Op.isOneSided

end Side

theorem Ack.isOneSided_wc (ack : Ack) : ack.wc.isOneSided = ack.isOneSided := by
  cases ack <;> rfl

/-- A handler posts one one-sided operation for the key and for a one-sided
    completion, and none for the others. -/
theorem Peer.countP_isOneSided_handler (p : Peer) (wc : Wc) :
    (p.handler wc).countP Op.isOneSided =
      (if wc.isOneSided then 1 else 0) + wc.msg.toList.count (.send .requestExchangeKey) := by
  rcases wc with _ | ⟨tag, _⟩ | _ | _ | tag
  · rfl
  · cases tag <;> rfl
  · rfl
  · rfl
  · cases tag <;> rfl

theorem Peer.countP_isOneSided_establishedFn (p : Peer) :
    p.establishedFn.countP Op.isOneSided = 0 := rfl

/-- The request an operation posts, with the descriptor the callback uses. -/
def Op.request (d : CommDescriptor) : Op → Option Request
  | sendRemote len tag => some (.send len tag)
  | writeRemote len tag notifyPeer => some (.write len d (if notifyPeer then some tag else none))
  | readRemote len => some (.read len d)
  | _ => none

theorem Op.isOneSided_request (o : Op) (d : CommDescriptor) :
    (o.request d).toList.countP Request.isOneSided = if o.isOneSided then 1 else 0 := by
  cases o <;> rfl

namespace Side

variable {me me' : Side} {o : Op} {todo : List Op}

/-- What an operation posts, and what it does to the descriptor stored last. -/
theorem perform_posts (hp : me.perform o = .ok me') :
    me'.sq = me.sq ++ (o.request me.descriptor).toList.map (⟨·, none⟩) ∧
      (me.peerBuffer.isSome = true → me'.peerBuffer.isSome = true) := by
  cases o with
  | clear | copy | recvRemote | loadAddr | loadLength | loadRkey | readText | syncSend | syncRecv =>
    obtain rfl := Except.ok.inj hp
    exact ⟨(List.append_nil _).symm, id⟩
  | insertPeerBuffer =>
    obtain rfl := Except.ok.inj hp
    refine ⟨(List.append_nil _).symm, fun h => ?_⟩
    obtain ⟨d, hd⟩ := Option.isSome_iff_exists.1 h
    simp [hd]
  | checkLength =>
    simp only [perform] at hp
    split_ifs at hp
    obtain rfl := Except.ok.inj hp
    exact ⟨(List.append_nil _).symm, id⟩
  | sendRemote | writeRemote | readRemote =>
    simp only [perform] at hp
    split at hp
    · obtain rfl := Except.ok.inj hp
      exact ⟨rfl, id⟩
    · cases hp
  | findPeerBuffer =>
    simp only [perform] at hp
    split at hp
    · obtain rfl := Except.ok.inj hp
      exact ⟨(List.append_nil _).symm, id⟩
    · cases hp

/-- A request in the queue after an operation was there before, or was posted by it. -/
theorem mem_sq_perform (hp : me.perform o = .ok me') {r : Posted} (hr : r ∈ me'.sq) :
    r ∈ me.sq ∨ o.request me.descriptor = some r.request ∧ r.payload = none := by
  rw [(perform_posts hp).1, List.mem_append] at hr
  rcases hr with hr | hr
  · exact .inl hr
  · obtain ⟨r', hr', rfl⟩ := List.mem_map.1 hr
    exact .inr ⟨Option.mem_toList.1 hr', rfl⟩

theorem outstanding_perform (hp : me.perform o = .ok me') :
    { me' with todo }.outstanding = me.outstanding + if o.isOneSided then 1 else 0 := by
  have hf := Side.performed hp
  have hreq := o.isOneSided_request me.descriptor
  have hmap : ((o.request me.descriptor).toList.map (⟨·, none⟩ : Request → Posted)).countP
      (·.request.isOneSided) = (o.request me.descriptor).toList.countP Request.isOneSided := by
    rw [List.countP_map]
    rfl
  simp only [outstanding, hf.acks, hf.cq, (perform_posts hp).1, List.countP_append, hmap, hreq]
  omega

theorem outstanding_fetch {j : ℕ} {r : Request} {data : List UInt8}
    (hj : me.sq[j]? = some ⟨r, none⟩) :
    { me with sq := me.sq.set j ⟨r, some data⟩ }.outstanding = me.outstanding := by
  obtain ⟨hlt, hget⟩ := List.getElem?_eq_some_iff.1 hj
  have hset : (me.sq.set j ⟨r, some data⟩).countP (·.request.isOneSided) =
      me.sq.countP (·.request.isOneSided) := by
    rw [List.countP_set hlt, hget]
    by_cases h : r.isOneSided = true
    · have hpos : 0 < me.sq.countP (·.request.isOneSided) :=
        List.countP_pos_iff.2 ⟨_, List.mem_of_getElem? hj, h⟩
      simp only [h, if_true]
      omega
    · simp only [h, Bool.false_eq_true, if_false]
      rfl
  simp only [outstanding, hset]

theorem outstanding_complete {ack : Ack} {acks : List Ack} (ha : me.acks = ack :: acks) :
    { me.land ack with acks, cq := me.cq ++ [ack.wc] }.outstanding = me.outstanding := by
  simp only [outstanding, ha, me.sq_land, List.countP_append, List.countP_nil, List.countP_cons,
    ack.isOneSided_wc]
  omega

theorem oneSided_complete {ack : Ack} {acks : List Ack} (ha : me.acks = ack :: acks) :
    { me.land ack with acks, cq := me.cq ++ [ack.wc] }.oneSided = me.oneSided := by
  rw [oneSided, outstanding_complete ha, me.todo_land, oneSided]

/-- An operation that is performed moves from the callback to the send queue. -/
theorem oneSided_perform (ht : me.todo = o :: todo) (hp : me.perform o = .ok me') :
    { me' with todo }.oneSided = me.oneSided := by
  rw [oneSided, outstanding_perform hp, oneSided, ht, List.countP_cons]
  show _ + _ + todo.countP Op.isOneSided = _
  omega

end Side

variable {P : Bool → Peer} {s : Sys}

/-- A side has a one-sided operation as soon as it handles the key of its peer. -/
theorem oneSided_eq (hr : Lts.Reachable (Sys.step P) (Sys.init P) s) (x : Bool) :
    (s.side x).oneSided = (s.side x).handled.count (.send .requestExchangeKey) := by
  refine Sys.move_induct
    (R := fun _ me _ => me.oneSided = me.handled.count (.send .requestExchangeKey)) hr ?_ ?_ x
  · intro x
    rfl
  intro s _ x me you hx hy hm
  cases hm with
  | @exec o todo me' ht hp =>
    refine ⟨?_, hy⟩
    rw [Side.oneSided_perform ht hp, hx]
    exact congrArg (List.count _) (Side.performed hp).handled.symm
  | fail c => exact ⟨hx, hy⟩
  | @poll wc cq ht hq =>
    refine ⟨?_, hy⟩
    have hh := (P x).countP_isOneSided_handler wc
    simp only [Side.oneSided, Side.outstanding, ht, hq, List.countP_cons, List.countP_nil] at hx
    simp only [Side.oneSided, Side.outstanding, hh, List.count_append, ← hx]
    omega
  | @fetch j r b len hj hsrc =>
    refine ⟨?_, hy⟩
    rw [Side.oneSided, Side.outstanding_fetch hj]
    exact hx
  | send hq hrq | write hq ha | writeImm hq ha hrq =>
    refine ⟨?_, ?_⟩
    · rw [← hx]
      simp only [Side.oneSided, Side.outstanding, hq, List.countP_cons, List.countP_append,
        List.countP_nil, Request.isOneSided, Ack.isOneSided]
      simp only [if_true, Bool.false_eq_true, if_false]
      omega
    · refine Eq.trans ?_ hy
      simp [Side.oneSided, Side.outstanding, Sys.consume, Side.setMem, Wc.isOneSided]
  | read hq ha =>
    refine ⟨?_, hy⟩
    rw [← hx]
    simp only [Side.oneSided, Side.outstanding, hq, List.countP_cons, List.countP_append,
      List.countP_nil, Request.isOneSided, Ack.isOneSided]
    simp only [if_true]
    omega
  | @complete ack acks ha =>
    refine ⟨?_, hy⟩
    rw [Side.oneSided_complete ha, hx]
    cases ack <;> rfl

/-- **At most one.** -/
theorem oneSided_le_one (hr : Lts.Reachable (Sys.step P) (Sys.init P) s) (x : Bool) :
    (s.side x).oneSided ≤ 1 := by
  rw [oneSided_eq hr x, handled_eq hr x]
  exact count_scriptTo_le_one (by decide) _

/-! ## What the callbacks need -/

namespace Peer

variable (p : Peer)

theorem length_writeText_lt : p.writeText.length < Buf.sink.blockSize := by
  have hi := p.infoOk
  rw [p.length_writeText, Buf.blockSize]
  omega

/-- The first block of a buffer that holds the text of `p`. -/
def block : List UInt8 :=
  p.writeText ++ List.replicate (Buf.sink.blockSize - p.writeText.length) 0

@[simp] theorem length_block : p.block.length = Buf.sink.blockSize := by
  have h := p.length_writeText_lt
  rw [block, List.length_append, List.length_replicate]
  omega

end Peer

/-- The callback has a descriptor when it needs one, and posts the text and reads
    as many bytes as its buffer has.  The memory is that of the write buffer, and
    `known` says that a descriptor is stored. -/
def Prepared (p : Peer) : List Op → ByteMem → Bool → Prop
  | [], _, _ => True
  | .insertPeerBuffer :: todo, m, _ => Prepared p todo m true
  | .findPeerBuffer :: todo, m, known => known = true ∧ Prepared p todo m known
  | .clear .write :: todo, m, known => Prepared p todo (m.fill 0 0 Buf.write.size) known
  | .copy .write data :: todo, m, known => Prepared p todo (m.write 0 data) known
  | .writeRemote len _ _ :: todo, m, known =>
    (known = true ∧ len = p.writeText.length ∧ m.read 0 len = p.writeText) ∧
      Prepared p todo m known
  | .readRemote len :: todo, m, known =>
    (known = true ∧ len = Buf.read.size) ∧ Prepared p todo m known
  | _ :: todo, m, known => Prepared p todo m known

theorem prepared_code (p : Peer) (c : Option Wc) (m : ByteMem) (known : Bool)
    (h : ∀ wc, c = some wc → wc.isOneSided = true → known = true) :
    Prepared p (p.code c) m known := by
  have hw := fun m => ByteMem.read_write_self m 0 p.writeText
  have hcode := p.codeOf c
  generalize p.code c = ops at hcode ⊢
  cases hcode with
  | established => simp [Prepared, Peer.establishedFn, fillIn]
  | send => trivial
  | request => simp [Prepared, Peer.requestExchangeKey, fillIn, hw]
  | test => simp [Prepared, Peer.testForSyncData, fillIn]
  | other => simp [Prepared, Peer.otherTag, fillIn]
  | write =>
    have hk := h _ rfl rfl
    simp [Prepared, Peer.processWriteDone, hk]
  | read =>
    have hk := h _ rfl rfl
    simp [Prepared, Peer.processReadDone, fillIn, hk, hw]
  | recvWithImm => simp [Prepared]

theorem Prepared.perform {p : Peer} {me me' : Side} {o : Op} {todo : List Op}
    (hp : me.perform o = .ok me')
    (h : Prepared p (o :: todo) (me.mem .write) me.peerBuffer.isSome) :
    Prepared p todo (me'.mem .write) me'.peerBuffer.isSome := by
  cases o with
  | clear b | copy b =>
    obtain rfl := Except.ok.inj hp
    cases b with
    | write => rw [Side.setMem_mem_self]; exact h
    | recv | send | read | sink => rw [Side.setMem_mem_of_ne _ _ (by decide)]; exact h
  | recvRemote | loadAddr | loadLength | loadRkey | readText | syncSend | syncRecv =>
    obtain rfl := Except.ok.inj hp
    exact h
  | insertPeerBuffer =>
    obtain rfl := Except.ok.inj hp
    have hsome : (me.peerBuffer <|> some me.descriptor).isSome = true := by
      cases me.peerBuffer <;> rfl
    simp only [hsome]
    exact h
  | checkLength | sendRemote =>
    simp only [Side.perform] at hp
    split_ifs at hp
    obtain rfl := Except.ok.inj hp
    exact h
  | writeRemote | readRemote =>
    simp only [Side.perform] at hp
    split_ifs at hp <;> obtain rfl := Except.ok.inj hp <;> exact h.2
  | findPeerBuffer =>
    simp only [Side.perform] at hp
    split at hp
    · obtain rfl := Except.ok.inj hp
      exact h.2
    · cases hp

/-- The operations that change a buffer. -/
def Op.Fills (o : Op) (b : Buf) : Prop := o = .clear b ∨ ∃ data, o = .copy b data

theorem Side.mem_perform {me me' : Side} {o : Op} {b : Buf} (hp : me.perform o = .ok me')
    (ho : ¬ o.Fills b) : me'.mem b = me.mem b := by
  rcases (Side.performed hp).mem b with hc | ⟨data, hc, -⟩ | hm
  · exact absurd (.inl hc) ho
  · exact absurd (.inr ⟨data, hc⟩) ho
  · exact hm

/-- The write buffer and the read buffer are changed only by a callback that has
    still to post a one-sided operation, and the sink buffer by none. -/
theorem Peer.tails_fills (p : Peer) (c : Option Wc) :
    Tails (fun o todo => (o.Fills .write → 0 < todo.countP Op.isOneSided) ∧
      (o.Fills .read → .readText .read ∉ todo ∧ 0 < todo.countP Op.isOneSided) ∧
      ¬ o.Fills .sink) (p.code c) := by
  have hcode := p.codeOf c
  generalize p.code c = ops at hcode ⊢
  cases hcode with
  | established => simp [Tails, establishedFn, fillIn, Op.Fills]
  | send => trivial
  | request => simp [Tails, requestExchangeKey, fillIn, Op.Fills, Op.isOneSided]
  | test => simp [Tails, testForSyncData, fillIn, Op.Fills]
  | other => simp [Tails, otherTag, fillIn, Op.Fills]
  | write => simp [Tails, processWriteDone, Op.Fills, Op.isOneSided]
  | read => simp [Tails, processReadDone, fillIn, Op.Fills, Op.isOneSided]
  | recvWithImm => simp [Tails, Op.Fills]

theorem Peer.readRemote_mem_handler {p : Peer} {wc : Wc} {len : ℕ}
    (h : .readRemote len ∈ p.handler wc) : wc = .write := by
  rcases wc with _ | ⟨tag, _⟩ | _ | _ | _
  · simp [handler] at h
  · cases tag <;> simp [handler, processRecvDone, requestExchangeKey, testForSyncData, otherTag,
      fillIn] at h
  · rfl
  · simp [handler, processReadDone, fillIn] at h
  · simp [handler] at h

theorem Peer.readText_mem_handler {p : Peer} {wc : Wc} (h : .readText .read ∈ p.handler wc) :
    wc = .read := by
  rcases wc with _ | ⟨tag, _⟩ | _ | _ | _
  · simp [handler] at h
  · cases tag <;> simp [handler, processRecvDone, requestExchangeKey, testForSyncData, otherTag,
      fillIn] at h
  · simp [handler, processWriteDone] at h
  · rfl
  · simp [handler] at h

/-! ## The text on its way -/

/-- A write of the side was delivered, and no other was posted since. -/
def Side.Written (me : Side) : Prop :=
  .write ∈ me.acks ∨ .write ∈ me.cq ∨ (∃ len, .readRemote len ∈ me.todo) ∨
    ∃ len d payload, ⟨.read len d, payload⟩ ∈ me.sq

/-- The text of `p` in the buffers and requests of `me`, and in the sink buffer
    of its peer. -/
structure Loop (p q : Peer) (me you : Side) : Prop where
  prepared : Prepared p me.todo (me.mem .write) me.peerBuffer.isSome
  known : 0 < me.outstanding → me.peerBuffer.isSome = true
  write : ∀ len d imm payload, ⟨.write len d imm, payload⟩ ∈ me.sq →
    len = p.writeText.length ∧ d.Addresses q ∧
      ((payload = none ∧ (me.mem .write).read 0 len = p.writeText) ∨ payload = some p.writeText)
  read : ∀ len d payload, ⟨.read len d, payload⟩ ∈ me.sq → len = Buf.read.size ∧ d.Addresses q
  /-- the first block of the sink buffer is zeroed by its constructor -/
  sink : (you.mem .sink).read 0 Buf.sink.blockSize = List.replicate Buf.sink.blockSize 0 ∨
    (you.mem .sink).read 0 Buf.sink.blockSize = p.block
  written : me.Written → (you.mem .sink).read 0 Buf.sink.blockSize = p.block
  acked : ∀ data, .read data ∈ me.acks → data.take Buf.sink.blockSize = p.block
  landed : .read ∈ me.cq ∨ .readText .read ∈ me.todo →
    (me.mem .read).read 0 Buf.sink.blockSize = p.block

theorem Loop.init (p q : Peer) : Loop p q (Side.init p) (Side.init q) where
  prepared := prepared_code p none _ _ fun _ h => by cases h
  known := by simp [Side.init, Side.outstanding]
  write := by simp [Side.init]
  read := by simp [Side.init]
  sink := .inl (ByteMem.read_fill _ _ _ (Nat.le_refl _))
  written := by simp [Side.init, Side.Written, Peer.establishedFn, fillIn]
  acked := by simp [Side.init]
  landed := by simp [Side.init, Peer.establishedFn, fillIn]

/-- A descriptor of the sink buffer gives access to its beginning. -/
theorem sinkOffset_of_addresses {q : Peer} {d : CommDescriptor} {len : ℕ} (hd : d.Addresses q)
    (hlen : len ≤ Buf.sink.size) : Sys.sinkOffset q d len = some 0 := by
  obtain ⟨h1, -, h3⟩ := hd
  rw [Sys.sinkOffset, h1, h3, if_pos ⟨rfl, UInt64.le_refl _, by omega⟩, Nat.sub_self]

/-- The text is written over zeros or over itself. -/
theorem Peer.read_block {p : Peer} {m : ByteMem}
    (h : m.read 0 Buf.sink.blockSize = List.replicate Buf.sink.blockSize 0 ∨
      m.read 0 Buf.sink.blockSize = p.block) :
    (m.write 0 p.writeText).read 0 Buf.sink.blockSize = p.block := by
  rw [ByteMem.read_write_of_length_le _ _ _ p.length_writeText_lt.le, block]
  rcases h with h | h
  · rw [h, List.drop_replicate]
  · rw [h, block, List.drop_left]

/-- The peer of the side that moves: only its own sink buffer matters, and the
    callbacks do not change it. -/
theorem Loop.frame_peer {p q : Peer} {me you me' you' : Side} (h : Loop p q you me)
    (htodo : you'.todo = you.todo) (hwrite : you'.mem .write = you.mem .write)
    (hread : you'.mem .read = you.mem .read) (hpeer : you'.peerBuffer = you.peerBuffer)
    (hsq : you'.sq = you.sq) (hacks : you'.acks = you.acks)
    (hcq : ∀ wc, wc.isOneSided = true → (wc ∈ you'.cq ↔ wc ∈ you.cq))
    (hout : you'.outstanding = you.outstanding) (hsink : me'.mem .sink = me.mem .sink) :
    Loop p q you' me' where
  prepared := by rw [htodo, hwrite, hpeer]; exact h.prepared
  known := by rw [hout, hpeer]; exact h.known
  write := by rw [hsq, hwrite]; exact h.write
  read := by rw [hsq]; exact h.read
  sink := by rw [hsink]; exact h.sink
  written := by
    intro hw
    rw [hsink]
    refine h.written ?_
    unfold Side.Written at hw ⊢
    rw [hacks, hcq _ rfl, htodo, hsq] at hw
    exact hw
  acked := by rw [hacks]; exact h.acked
  landed := by rw [hcq _ rfl, htodo, hread]; exact h.landed

section

variable (hr : Lts.Reachable (Sys.step P) (Sys.init P) s) {x : Bool}
include hr

/-- A callback that changes the write buffer has no write in flight. -/
theorem Loop.exec_write {o : Op} {todo : List Op} {me' : Side}
    (h : Loop (P x) (P (!x)) (s.side x) (s.side (!x))) (ht : (s.side x).todo = o :: todo)
    (hp : (s.side x).perform o = .ok me') (len : ℕ) (d : CommDescriptor)
    (imm : Option MessageType) (payload : Option (List UInt8))
    (hmem : (⟨.write len d imm, payload⟩ : Posted) ∈ me'.sq) :
    len = (P x).writeText.length ∧ d.Addresses (P (!x)) ∧
      ((payload = none ∧ (me'.mem .write).read 0 len = (P x).writeText) ∨
        payload = some (P x).writeText) := by
  rcases Side.mem_sq_perform hp hmem with hmem | ⟨hreq, hpayload⟩
  · have hfills : ¬ o.Fills .write := by
      intro ho
      have hpos := (tails_todo hr ht ((P x).tails_fills _)).1 ho
      have hle := oneSided_le_one hr x
      have hsq : 0 < (s.side x).sq.countP (·.request.isOneSided) :=
        List.countP_pos_iff.2 ⟨_, hmem, rfl⟩
      simp only [Side.oneSided, Side.outstanding, ht, List.countP_cons] at hle
      omega
    rw [Side.mem_perform hp hfills]
    exact h.write len d imm payload hmem
  · have hs := (keys hr (!x)).2.sound
    rw [Bool.not_not, ht] at hs
    have hprep := h.prepared
    rw [ht] at hprep
    cases o with
    | writeRemote len' tag notifyPeer =>
      obtain ⟨rfl, rfl, rfl⟩ := Request.write.inj (Option.some.inj hreq)
      refine ⟨hprep.1.2.1, hs.1, .inl ⟨hpayload, ?_⟩⟩
      rw [Side.mem_perform hp (by simp [Op.Fills])]
      exact hprep.1.2.2
    | _ => cases hreq

theorem Loop.exec_read {o : Op} {todo : List Op} {me' : Side}
    (h : Loop (P x) (P (!x)) (s.side x) (s.side (!x))) (ht : (s.side x).todo = o :: todo)
    (hp : (s.side x).perform o = .ok me') (len : ℕ) (d : CommDescriptor)
    (payload : Option (List UInt8)) (hmem : (⟨.read len d, payload⟩ : Posted) ∈ me'.sq) :
    ((⟨.read len d, payload⟩ : Posted) ∈ (s.side x).sq ∨ o = .readRemote len) ∧
      len = Buf.read.size ∧ d.Addresses (P (!x)) := by
  rcases Side.mem_sq_perform hp hmem with hmem | ⟨hreq, -⟩
  · exact ⟨.inl hmem, h.read len d payload hmem⟩
  · have hs := (keys hr (!x)).2.sound
    rw [Bool.not_not, ht] at hs
    have hprep := h.prepared
    rw [ht] at hprep
    cases o with
    | readRemote len' =>
      obtain ⟨rfl, rfl⟩ := Request.read.inj (Option.some.inj hreq)
      exact ⟨.inr rfl, hprep.1.2, hs.1⟩
    | _ => cases hreq

theorem Loop.exec {o : Op} {todo : List Op} {me' : Side}
    (h : Loop (P x) (P (!x)) (s.side x) (s.side (!x))) (ht : (s.side x).todo = o :: todo)
    (hp : (s.side x).perform o = .ok me') :
    Loop (P x) (P (!x)) { me' with todo } (s.side (!x)) where
  prepared := by
    have hprep := h.prepared
    rw [ht] at hprep
    have hnext := hprep.perform hp
    exact hnext
  known := by
    intro hout
    rw [Side.outstanding_perform hp] at hout
    refine (Side.perform_posts hp).2 ?_
    by_cases ho : o.isOneSided = true
    · have hprep := h.prepared
      rw [ht] at hprep
      cases o with
      | writeRemote | readRemote => exact hprep.1.1
      | _ => cases ho
    · rw [if_neg ho] at hout
      exact h.known hout
  write := by
    have hwrite := h.exec_write hr ht hp
    exact hwrite
  read := fun len d payload hmem => (h.exec_read hr ht hp len d payload hmem).2
  sink := h.sink
  written := by
    have hf := Side.performed hp
    rintro (hw | hw | ⟨len, hw⟩ | ⟨len, d, payload, hw⟩)
    · exact h.written (.inl (hf.acks ▸ hw))
    · exact h.written (.inr (.inl (hf.cq ▸ hw)))
    · exact h.written (.inr (.inr (.inl ⟨len, ht ▸ List.mem_cons_of_mem _ hw⟩)))
    · rcases (h.exec_read hr ht hp len d payload hw).1 with hw | rfl
      · exact h.written (.inr (.inr (.inr ⟨len, d, payload, hw⟩)))
      · exact h.written (.inr (.inr (.inl ⟨len, ht ▸ List.mem_cons_self⟩)))
  acked := by
    intro data hd
    exact h.acked data ((Side.performed hp).acks ▸ hd)
  landed := by
    have hf := Side.performed hp
    intro hl
    have hl : .read ∈ (s.side x).cq ∨ .readText .read ∈ todo := by rw [← hf.cq]; exact hl
    have hfills : ¬ o.Fills .read := by
      intro ho
      obtain ⟨hnot, hpos⟩ := (tails_todo hr ht ((P x).tails_fills _)).2.1 ho
      rcases hl with hl | hl
      · have hle := oneSided_le_one hr x
        have hcq : 0 < (s.side x).cq.countP Wc.isOneSided := List.countP_pos_iff.2 ⟨_, hl, rfl⟩
        simp only [Side.oneSided, Side.outstanding, ht, List.countP_cons] at hle
        omega
      · exact hnot hl
    show (me'.mem .read).read 0 _ = _
    rw [Side.mem_perform hp hfills]
    refine h.landed (hl.imp_right fun hl => ?_)
    rw [ht]
    exact List.mem_cons_of_mem _ hl

end

section

variable {x : Bool} {p q : Peer} {me you : Side}

theorem Loop.poll {wc : Wc} {cq : List Wc} (h : Loop p q me you) (hq : me.cq = wc :: cq) :
    Loop p q { me with
      current := some wc, todo := p.handler wc, cq
      handled := me.handled ++ wc.msg.toList } you where
  prepared := by
    refine prepared_code p (some wc) _ _ ?_
    rintro _ ⟨⟩ hwc
    refine h.known ?_
    simp only [Side.outstanding, hq, List.countP_cons, hwc, if_true]
    omega
  known := by
    intro hout
    refine h.known ?_
    simp only [Side.outstanding, hq, List.countP_cons] at hout ⊢
    omega
  write := h.write
  read := h.read
  sink := h.sink
  written := by
    rintro (hw | hw | ⟨len, hw⟩ | hw)
    · exact h.written (.inl hw)
    · exact h.written (.inr (.inl (hq ▸ List.mem_cons_of_mem _ hw)))
    · obtain rfl := Peer.readRemote_mem_handler hw
      exact h.written (.inr (.inl (hq ▸ List.mem_cons_self)))
    · exact h.written (.inr (.inr (.inr hw)))
  acked := h.acked
  landed := by
    rintro (hl | hl)
    · exact h.landed (.inl (hq ▸ List.mem_cons_of_mem _ hl))
    · obtain rfl := Peer.readText_mem_handler hl
      exact h.landed (.inl (hq ▸ List.mem_cons_self))

theorem Loop.fetch {j : ℕ} {r : Request} {b : Buf} {len : ℕ} (h : Loop p q me you)
    (hj : me.sq[j]? = some ⟨r, none⟩) (hsrc : r.source = some (b, len)) :
    Loop p q { me with sq := me.sq.set j ⟨r, some ((me.mem b).read 0 len)⟩ } you where
  prepared := h.prepared
  known := by
    rw [Side.outstanding_fetch hj]
    exact h.known
  write := by
    intro len' d imm payload hmem
    rcases List.mem_or_eq_of_mem_set hmem with hmem | he
    · exact h.write len' d imm payload hmem
    · obtain ⟨rfl, rfl⟩ := Posted.mk.inj he
      obtain ⟨rfl, rfl⟩ := Prod.mk.inj (Option.some.inj hsrc)
      obtain ⟨h1, h2, h3⟩ := h.write len' d imm none (List.mem_of_getElem? hj)
      refine ⟨h1, h2, .inr ?_⟩
      rcases h3 with ⟨-, h3⟩ | h3
      · rw [h3]
      · cases h3
  read := by
    intro len' d payload hmem
    rcases List.mem_or_eq_of_mem_set hmem with hmem | he
    · exact h.read len' d payload hmem
    · obtain ⟨rfl, rfl⟩ := Posted.mk.inj he
      cases hsrc
  sink := h.sink
  written := by
    rintro (hw | hw | hw | ⟨len', d, payload, hw⟩)
    · exact h.written (.inl hw)
    · exact h.written (.inr (.inl hw))
    · exact h.written (.inr (.inr (.inl hw)))
    · rcases List.mem_or_eq_of_mem_set hw with hw | he
      · exact h.written (.inr (.inr (.inr ⟨len', d, payload, hw⟩)))
      · obtain ⟨rfl, rfl⟩ := Posted.mk.inj he
        cases hsrc
  acked := h.acked
  landed := h.landed

/-- A request is delivered: the sink buffer is left alone, or holds the text. -/
theorem Loop.deliver {r : Posted} {sq : List Posted} {ack : Ack} {you' : Side}
    (h : Loop p q me you) (hq : me.sq = r :: sq)
    (hk : ack.isOneSided = r.request.isOneSided)
    (hack : ∀ data, ack = .read data → data.take Buf.sink.blockSize = p.block)
    (hsink : (you'.mem .sink).read 0 Buf.sink.blockSize = p.block ∨
      (you'.mem .sink = you.mem .sink ∧ ack ≠ .write)) :
    Loop p q { me with sq, acks := me.acks ++ [ack] } you' where
  prepared := h.prepared
  known := by
    intro hout
    refine h.known ?_
    simp only [Side.outstanding, List.countP_append, List.countP_singleton, hk] at hout
    simp only [Side.outstanding, hq, List.countP_cons]
    omega
  write := fun len d imm payload hmem =>
    h.write len d imm payload (hq ▸ List.mem_cons_of_mem _ hmem)
  read := fun len d payload hmem => h.read len d payload (hq ▸ List.mem_cons_of_mem _ hmem)
  sink := by
    rcases hsink with hs | ⟨hs, -⟩
    · exact .inr hs
    · rw [hs]
      exact h.sink
  written := by
    intro hw
    rcases hsink with hs | ⟨hs, hne⟩
    · exact hs
    rw [hs]
    rcases hw with hw | hw | hw | ⟨len, d, payload, hw⟩
    · rcases List.mem_append.1 hw with hw | hw
      · exact h.written (.inl hw)
      · exact absurd (List.mem_singleton.1 hw).symm hne
    · exact h.written (.inr (.inl hw))
    · exact h.written (.inr (.inr (.inl hw)))
    · exact h.written (.inr (.inr (.inr ⟨len, d, payload, hq ▸ List.mem_cons_of_mem _ hw⟩)))
  acked := by
    intro data hd
    rcases List.mem_append.1 hd with hd | hd
    · exact h.acked data hd
    · exact hack data (List.mem_singleton.1 hd).symm
  landed := h.landed

/-- A write puts the text into the sink buffer. -/
theorem Loop.read_sink (h : Loop p q me you) {len : ℕ} {d : CommDescriptor}
    {imm : Option MessageType} {data : List UInt8} {sq : List Posted} {a : ℕ}
    (hq : me.sq = ⟨.write len d imm, some data⟩ :: sq) (ha : Sys.sinkOffset q d len = some a) :
    ((you.mem .sink).write a data).read 0 Buf.sink.blockSize = p.block := by
  obtain ⟨hlen, hd, hdata⟩ := h.write len d imm (some data) (hq ▸ List.mem_cons_self)
  have hle : len ≤ Buf.sink.size := hlen ▸ p.length_texts.2.2
  rw [sinkOffset_of_addresses hd hle] at ha
  obtain rfl := Option.some.inj ha
  rcases hdata with ⟨hdata, -⟩ | hdata
  · cases hdata
  · obtain rfl := Option.some.inj hdata
    exact p.read_block h.sink

/-- A read brings the text back. -/
theorem Loop.take_read (h : Loop p q me you) {len : ℕ} {d : CommDescriptor}
    {payload : Option (List UInt8)} {sq : List Posted} {a : ℕ}
    (hq : me.sq = ⟨.read len d, payload⟩ :: sq) (ha : Sys.sinkOffset q d len = some a) :
    ((you.mem .sink).read a len).take Buf.sink.blockSize = p.block := by
  have hmem : (⟨.read len d, payload⟩ : Posted) ∈ me.sq := hq ▸ List.mem_cons_self
  obtain ⟨hlen, hd⟩ := h.read len d payload hmem
  rw [sinkOffset_of_addresses hd (Nat.le_of_eq hlen)] at ha
  obtain rfl := Option.some.inj ha
  rw [ByteMem.take_read _ _ (hlen ▸ by decide)]
  exact h.written (.inr (.inr (.inr ⟨len, d, payload, hmem⟩)))

theorem Loop.complete {ack : Ack} {acks : List Ack} (h : Loop p q me you)
    (ha : me.acks = ack :: acks) :
    Loop p q { me.land ack with acks, cq := me.cq ++ [ack.wc] } you := by
  have hmem : (me.land ack).mem .write = me.mem .write := me.mem_land_of_ne ack (by decide)
  refine ⟨?_, ?_, ?_, ?_, h.sink, ?_, ?_, ?_⟩
  · show Prepared p (me.land ack).todo ((me.land ack).mem .write) (me.land ack).peerBuffer.isSome
    rw [me.todo_land, me.peerBuffer_land, hmem]
    exact h.prepared
  · intro hout
    show (me.land ack).peerBuffer.isSome = true
    rw [Side.outstanding_complete ha] at hout
    rw [me.peerBuffer_land]
    exact h.known hout
  · simp only [me.sq_land, hmem]
    exact h.write
  · simp only [me.sq_land]
    exact h.read
  · intro hw
    refine h.written ?_
    unfold Side.Written at hw ⊢
    simp only [me.todo_land, me.sq_land, List.mem_append, List.mem_singleton] at hw
    rcases hw with hw | (hw | hw) | hw | hw
    · exact .inl (ha ▸ List.mem_cons_of_mem _ hw)
    · exact .inr (.inl hw)
    · cases ack with
      | write => exact .inl (ha ▸ List.mem_cons_self)
      | send | read => cases hw
    · exact .inr (.inr (.inl hw))
    · exact .inr (.inr (.inr hw))
  · intro data hd
    exact h.acked data (ha ▸ List.mem_cons_of_mem _ hd)
  · intro hl
    cases ack with
    | read data =>
      have hdata := h.acked data (ha ▸ List.mem_cons_self)
      have hlen : Buf.sink.blockSize ≤ data.length := by
        have := congrArg List.length hdata
        rw [List.length_take, p.length_block] at this
        omega
      show ((me.setMem .read ((me.mem .read).write 0 data)).mem .read).read 0 _ = _
      rw [Side.setMem_mem_self, ByteMem.read_write _ _ _ hlen]
      exact hdata
    | send | write =>
      refine h.landed (hl.imp_left fun hl => ?_)
      rcases List.mem_append.1 hl with hl | hl
      · exact hl
      · cases List.mem_singleton.1 hl

end

section

variable (hr : Lts.Reachable (Sys.step P) (Sys.init P) s) {x : Bool}
include hr

theorem Loop.move {me you : Side} (h : Loop (P x) (P (!x)) (s.side x) (s.side (!x)))
    (hm : Move P x (s.side x) (s.side (!x)) me you) : Loop (P x) (P (!x)) me you := by
  cases hm with
  | exec ht hp => exact h.exec hr ht hp
  | fail c =>
    exact ⟨h.prepared, h.known, h.write, h.read, h.sink, h.written, h.acked, h.landed⟩
  | poll ht hq => exact h.poll hq
  | fetch hj hsrc => exact h.fetch hj hsrc
  | send hq hrq =>
    refine h.deliver hq rfl (fun data hd => by cases hd) (.inr ⟨?_, Ack.noConfusion⟩)
    simp [Sys.consume, Side.setMem]
  | write hq ha =>
    refine h.deliver hq rfl (fun data hd => by cases hd) (.inl ?_)
    rw [Side.setMem_mem_self]
    exact h.read_sink hq ha
  | writeImm hq ha hrq =>
    refine h.deliver hq rfl (fun data hd => by cases hd) (.inl ?_)
    rw [Sys.consume, Side.setMem_mem_self]
    exact h.read_sink hq ha
  | read hq ha =>
    refine h.deliver hq rfl ?_ (.inr ⟨rfl, Ack.noConfusion⟩)
    rintro data ⟨⟩
    exact h.take_read hq ha
  | complete ha => exact h.complete ha

theorem Loop.move_peer {p q : Peer} {me you : Side} (h : Loop p q (s.side (!x)) (s.side x))
    (hm : Move P x (s.side x) (s.side (!x)) me you) : Loop p q you me := by
  cases hm with
  | @exec o todo me' ht hp =>
    have hsink := Side.mem_perform hp (tails_todo hr ht ((P x).tails_fills _)).2.2
    exact h.frame_peer rfl rfl rfl rfl rfl rfl (fun _ _ => Iff.rfl) rfl hsink
  | fail | poll | fetch | read =>
    exact h.frame_peer rfl rfl rfl rfl rfl rfl (fun _ _ => Iff.rfl) rfl rfl
  | @complete ack acks ha =>
    cases ack <;> exact h.frame_peer rfl rfl rfl rfl rfl rfl (fun _ _ => Iff.rfl) rfl rfl
  | write hq ha =>
    refine h.frame_peer rfl ?_ ?_ rfl rfl rfl (fun _ _ => Iff.rfl) rfl rfl <;>
      exact Side.setMem_mem_of_ne _ _ (by decide)
  | send hq hrq | writeImm hq ha hrq =>
    refine h.frame_peer rfl ?_ ?_ rfl rfl rfl ?_ ?_ rfl
    · simp [Sys.consume, Side.setMem]
    · simp [Sys.consume, Side.setMem]
    · intro wc hwc
      simp only [Sys.consume, Side.setMem, List.mem_append, List.mem_singleton]
      refine or_iff_left ?_
      rintro rfl
      cases hwc
    · simp [Side.outstanding, Sys.consume, Side.setMem, Wc.isOneSided]

end

/-- The text of each side, in every reachable state. -/
theorem loop (hr : Lts.Reachable (Sys.step P) (Sys.init P) s) (x : Bool) :
    Loop (P x) (P (!x)) (s.side x) (s.side (!x)) := by
  refine Sys.move_induct (R := fun x me you => Loop (P x) (P (!x)) me you) hr
    (fun x => .init _ _) ?_ x
  intro s hr x me you hx hy hm
  exact ⟨hx.move hr hm, hy.move_peer hr hm⟩

/-! ## The checks -/

theorem Peer.tails_checkLength (p : Peer) (c : Option Wc) :
    Tails (fun o _ => ∀ b len, o = .checkLength b len → len ≤ b.size) (p.code c) := by
  obtain ⟨h1, h2, h3⟩ := p.length_texts
  have h4 : p.writeText.length ≤ Buf.write.size := h3
  have h5 : CommDescriptor.size ≤ Buf.send.size := by decide
  have hcode := p.codeOf c
  generalize p.code c = ops at hcode ⊢
  cases hcode with
  | established => simp [Tails, establishedFn, fillIn, h2]
  | send => trivial
  | request => simp [Tails, requestExchangeKey, fillIn, h4]
  | test => simp [Tails, testForSyncData, fillIn, h5]
  | other => simp [Tails, otherTag, fillIn, h1]
  | write => simp [Tails, processWriteDone]
  | read => simp [Tails, processReadDone, fillIn, h4]
  | recvWithImm => simp [Tails]

theorem Sys.failed_set {z : Bool} {me : Side} (h : me.failed = (s.side z).failed) (y : Bool) :
    ((s.set z me).side y).failed = (s.side y).failed := by
  rw [Sys.set]
  by_cases hy : y = z
  · subst hy
    simpa only [Function.update_self] using h
  · simp only [Function.update_of_ne hy]

section

variable (hr : Lts.Reachable (Sys.step P) (Sys.init P) s) {x : Bool}
include hr

/-- No operation of a callback fails. -/
theorem perform_ok {o : Op} {todo : List Op} (ht : (s.side x).todo = o :: todo) :
    ∃ me', (s.side x).perform o = .ok me' := by
  have hprep := (loop hr x).prepared
  have hs := (keys hr (!x)).2.sound
  rw [ht] at hprep
  rw [Bool.not_not, ht] at hs
  have hbuf : ∀ {d : CommDescriptor}, d.Addresses (P (!x)) →
      d.bufferLength.toNat = Buf.sink.size := by
    intro d hd
    rw [hd.2.1]
    rfl
  cases o with
  | clear | copy | recvRemote | loadAddr | loadLength | loadRkey | insertPeerBuffer | readText
  | syncSend | syncRecv => exact ⟨_, rfl⟩
  | checkLength b len =>
    exact ⟨_, if_pos (tails_todo hr ht ((P x).tails_checkLength _) b len rfl)⟩
  | sendRemote len tag =>
    exact ⟨_, if_pos ((tails_todo hr ht ((P x).tails_lengths _)).1 len tag rfl)⟩
  | writeRemote len tag notifyPeer =>
    have hlen := (tails_todo hr ht ((P x).tails_lengths _)).2 len tag notifyPeer rfl
    exact ⟨_, if_pos ⟨hlen, by rw [hbuf hs.1]; exact hlen⟩⟩
  | readRemote len =>
    have hlen : len = Buf.read.size := hprep.1.2
    exact ⟨_, if_pos ⟨hlen.le, by rw [hbuf hs.1]; exact hlen.le⟩⟩
  | findPeerBuffer =>
    obtain ⟨d, hd⟩ := Option.isSome_iff_exists.1 hprep.1
    exact ⟨{ s.side x with descriptor := d }, by simp [Side.perform, hd]⟩

/-- A thread that runs performs its next operation; its peer is left alone. -/
theorem exec_ok {s' : Sys} (ha : Sys.step P s (.exec x) = some s') :
    ∃ o todo me', (s.side x).todo = o :: todo ∧ (s.side x).perform o = .ok me' ∧
      s'.side x = { me' with todo } ∧ s'.side (!x) = s.side (!x) := by
  simp only [Sys.step, Option.ite_none_right_eq_some] at ha
  obtain ⟨o, todo, ht, ⟨c, hc, -⟩ | ⟨me', hp, hcase⟩⟩ := Sys.exec_cases ha.2
  · obtain ⟨me', hok⟩ := perform_ok hr ht
    rw [hok] at hc
    cases hc
  · refine ⟨o, todo, me', ht, hp, ?_⟩
    rcases hcase with ⟨-, -, rfl⟩ | ⟨-, -, -, rfl⟩ | ⟨-, -, rfl⟩ <;>
      exact ⟨Sys.set_side_self .., Sys.set_side_not ..⟩

/-- No request is refused by the peer. -/
theorem deliver_failed {s' : Sys} (h : s.deliver P x = some s') (y : Bool) :
    (s'.side y).failed = (s.side y).failed := by
  have hloop := loop hr x
  simp only [Sys.deliver] at h
  split at h
  · simp only [Option.ite_none_right_eq_some, Option.some.injEq] at h
    obtain ⟨-, rfl⟩ := h
    refine (Sys.failed_set ?_ y).trans (Sys.failed_set ?_ y)
    · rw [Sys.set_side_not]; rfl
    · rfl
  · rename_i len d imm data sq hq
    obtain ⟨hlen, hd, -⟩ := hloop.write len d imm (some data) (hq ▸ List.mem_cons_self)
    rw [sinkOffset_of_addresses hd (hlen ▸ (P x).length_texts.2.2)] at h
    cases imm with
    | none =>
      simp only [Option.some.injEq] at h
      subst h
      refine (Sys.failed_set ?_ y).trans (Sys.failed_set ?_ y)
      · rw [Sys.set_side_not]; rfl
      · rfl
    | some tag =>
      simp only [Option.ite_none_right_eq_some, Option.some.injEq] at h
      obtain ⟨-, rfl⟩ := h
      refine (Sys.failed_set ?_ y).trans (Sys.failed_set ?_ y)
      · rw [Sys.set_side_not]; rfl
      · rfl
  · rename_i len d payload sq hq
    obtain ⟨hlen, hd⟩ := hloop.read len d payload (hq ▸ List.mem_cons_self)
    rw [sinkOffset_of_addresses hd (Nat.le_of_eq hlen)] at h
    simp only [Option.some.injEq] at h
    subst h
    refine Sys.failed_set ?_ y
    rfl
  · cases h

end

/-- No `CHECK` of the session fails, and no request completes with an error. -/
theorem failed_eq_none (hr : Lts.Reachable (Sys.step P) (Sys.init P) s) (y : Bool) :
    (s.side y).failed = none := by
  refine (hr.induct (P := fun s => Lts.Reachable (Sys.step P) (Sys.init P) s ∧
    ∀ y, (s.side y).failed = none) ⟨.refl _, fun _ => rfl⟩ ?_).2 y
  intro s a s' ⟨hr, h⟩ ha
  refine ⟨hr.tail ha, fun y => ?_⟩
  cases a with
  | exec x =>
    obtain ⟨o, todo, me', -, hp, hself, hpeer⟩ := exec_ok hr ha
    rcases Bool.eq_or_eq_not y x with rfl | rfl
    · rw [hself]
      exact (Side.performed hp).failed.trans (h y)
    · rw [hpeer]
      exact h _
  | poll x =>
    simp only [Sys.step, Option.ite_none_right_eq_some] at ha
    obtain ⟨wc, cq, -, -, rfl⟩ := Sys.poll_cases ha.2
    refine (Sys.failed_set ?_ y).trans (h y)
    rfl
  | fetch x j =>
    obtain ⟨r, b, len, -, -, rfl⟩ := Sys.fetch_cases ha
    refine (Sys.failed_set ?_ y).trans (h y)
    rfl
  | deliver x => exact (deliver_failed hr ha y).trans (h y)
  | complete x =>
    obtain ⟨ack, acks, -, rfl⟩ := Sys.complete_cases ha
    refine (Sys.failed_set ?_ y).trans (h y)
    cases ack <;> rfl

/-! ## The buffers of a channel -/

namespace Buf

/-- The name of a buffer, up to the identity of its channel. -/
def label : Buf → String
  | recv => "recv_buffer_for_test@"
  | send => "send_buffer_for_test@"
  | read => "read_buffer_for_test@"
  | write => "write_buffer_for_test@"
  | sink => "read_write_sink_buffer_for_test@"

def bufferName (b : Buf) (id : String) : String := b.label ++ id

theorem bufferName_inj {b c : Buf} {id : String} (h : b.bufferName id = c.bufferName id) :
    b = c := by
  have hl : b.label.toList = c.label.toList := by
    have := congrArg String.toList h
    simpa [bufferName] using this
  revert hl
  cases b <;> cases c <;> decide

end Buf

/-- `RDMAChannel::register_buffer`, as far as it concerns the names. -/
def registerName (owningBuffers : List (String × Buf)) (id : String) (b : Buf) :
    Except Check (List (String × Buf)) :=
  if (owningBuffers.lookup (b.bufferName id)).isSome then .error .alreadyRegistered
  else .ok ((b.bufferName id, b) :: owningBuffers)

/-- The registrations of `default_established_fn`. -/
def registerNames (id : String) : Except Check (List (String × Buf)) :=
  [Buf.recv, .send, .read, .write, .sink].foldlM (registerName · id) []

/-- The buffers are registered, and found under their names. -/
theorem registerNames_ok (id : String) :
    ∃ owningBuffers, registerNames id = .ok owningBuffers ∧
      ∀ b : Buf, owningBuffers.lookup (b.bufferName id) = some b := by
  have hne : ∀ b c : Buf, b ≠ c → (b.bufferName id == c.bufferName id) = false := by
    intro b c hbc
    rw [beq_eq_false_iff_ne]
    exact fun h => hbc (Buf.bufferName_inj h)
  refine ⟨[Buf.sink, .write, .read, .send, .recv].map fun b => (b.bufferName id, b), ?_,
    fun b => ?_⟩
  · simp [registerNames, registerName, List.lookup_cons, hne, bind, Except.bind, pure, Except.pure]
  · cases b <;> simp [List.lookup_cons, hne]

end RdmaCore

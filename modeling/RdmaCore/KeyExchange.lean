/-
  The key exchange of the default session: a side stores the address, length
  and key of the sink buffer of its peer, whatever the interleaving.

  All messages of a side leave from one send buffer and land in one receive
  buffer.  The key is safe because the peer answers it (with the response)
  only after reading it, and a side refills its send buffer only when it
  has got this answer; the response in between carries the key as well.

  * `Sound`: what the callbacks need of the descriptor they use, as a
    precondition of the operations that are left;
  * `KeySent`, `KeyReceived`: the key on its way through the buffers and
    messages;
  * `peerBuffer_addresses`: what is stored.
-/
import RdmaCore.Conservation

namespace RdmaCore

variable {P : Bool → Peer} {s : Sys}

section

variable (hr : Lts.Reachable (Sys.step P) (Sys.init P) s)
include hr

theorem mem_log_of_mem_sq {x : Bool} {q : Posted} {m : Msg} (hq : q ∈ (s.side x).sq)
    (hm : q.request.msg = some m) : m ∈ (s.side x).log := by
  rw [log_order hr x]
  exact List.mem_append_right _ (List.mem_filterMap.2 ⟨q, hq, hm⟩)

/-- A text is sent only after the peer has sent its response. -/
theorem response_of_unset {x : Bool} (h : .send .unset ∈ (s.side x).log) :
    .send .responseExchangeKey ∈ (s.side (!x)).log := by
  rw [log_eq hr x] at h
  have h4 := (script_mem_scriptTo (le_refl 4)).1 h
  have hle := length_log_le hr x
  have hx := length_handled_le hr x
  rw [log_eq hr (!x)]
  refine (script_mem_scriptTo (by decide : 2 ≤ 4)).2 ?_
  unfold answered at hle
  split_ifs at hle <;> omega

/-- The response is sent after the key. -/
theorem request_of_response {x : Bool} (h : .send .responseExchangeKey ∈ (s.side x).log) :
    .send .requestExchangeKey ∈ (s.side x).log := by
  rw [log_eq hr x] at h ⊢
  have h2 := (script_mem_scriptTo (by decide : 2 ≤ 4)).1 h
  exact (script_mem_scriptTo (by decide : 1 ≤ 4)).2 (by omega)

/-- A side handles a message other than the greeting and the key only after its
    peer has sent its response. -/
theorem response_of_handled {x : Bool} {tag : MessageType} (h : .send tag ∈ (s.side x).handled)
    (ht : tag ≠ .testForSyncData) (hk : tag ≠ .requestExchangeKey) :
    .send .responseExchangeKey ∈ (s.side (!x)).log := by
  have hx := length_handled_le hr x
  rw [handled_eq hr x, scriptTo, List.mem_map] at h
  obtain ⟨i, hi, hs⟩ := h
  rw [List.mem_range] at hi
  rw [log_eq hr (!x)]
  refine (script_mem_scriptTo (by decide : 2 ≤ 4)).2 ?_
  rcases i with _ | _ | i
  · exact absurd (Msg.send.inj hs).symm ht
  · exact absurd (Msg.send.inj hs).symm hk
  · omega

/-- What has reached a side is a prefix of the script, and the next message to
    reach it is the next one of the script. -/
theorem next_delivery {x : Bool} {m : Msg} {out : List Msg} (h : (s.side x).flow.out = m :: out) :
    ∃ n, (s.side (!x)).handled ++ (s.side (!x)).flow.inbox = scriptTo n ∧ m = script n := by
  have hp : (s.side (!x)).handled ++ (s.side (!x)).flow.inbox ++ [m] <+:
      scriptTo (s.side x).log.length := by
    rw [← log_eq hr x, log_order hr x, h]
    exact ⟨out, by simp⟩
  have hs := (prefix_scriptTo hp).1
  rw [List.length_append, List.length_singleton, scriptTo_succ] at hs
  obtain ⟨h1, h2⟩ := List.append_inj' hs rfl
  exact ⟨_, h1, List.singleton_inj.1 h2⟩

end

/-! ## What the callbacks do next -/

/-- `Q` holds of every operation of a list together with what follows it. -/
def Tails (Q : Op → List Op → Prop) : List Op → Prop
  | [] => True
  | o :: todo => Q o todo ∧ Tails Q todo

theorem Tails.of_suffix {Q : Op → List Op → Prop} {o : Op} {todo : List Op} :
    ∀ {l : List Op}, Tails Q l → o :: todo <:+ l → Q o todo
  | [], _, h => absurd (List.suffix_nil.1 h) (List.cons_ne_nil _ _)
  | _ :: _, h, hs => by
    rcases List.suffix_cons_iff.1 hs with he | hs
    · obtain ⟨rfl, rfl⟩ := List.cons_eq_cons.1 he
      exact h.1
    · exact h.2.of_suffix hs

/-- The operations that change the send buffer. -/
def Op.FillsSend (o : Op) : Prop := o = .clear .send ∨ ∃ data, o = .copy .send data

theorem size_le_length_baseToSendData (p : Peer) :
    CommDescriptor.size ≤ p.baseToSendData.length := by
  rw [p.length_baseToSendData, CommDescriptor.size]
  omega

theorem Peer.handler_ne_sendRemote (p : Peer) (wc : Wc) :
    p.handler wc ≠ [.sendRemote CommDescriptor.size .requestExchangeKey] := by
  rcases wc with _ | ⟨tag, _⟩ | _ | _ | _
  · simp [handler]
  · cases tag <;> simp [handler, processRecvDone, requestExchangeKey, testForSyncData, otherTag]
  · simp [handler, processWriteDone]
  · simp [handler, processReadDone]
  · simp [handler]

theorem Peer.tails_sendRemote (p : Peer) (c : Option Wc) :
    Tails (fun o todo => ∀ len tag, o = .sendRemote len tag →
      (tag = .requestExchangeKey → len = CommDescriptor.size ∧ todo = []) ∧
        (tag = .responseExchangeKey → CommDescriptor.size ≤ len)) (p.code c) := by
  have hle := size_le_length_baseToSendData p
  have hcode := p.codeOf c
  generalize p.code c = ops at hcode ⊢
  cases hcode with
  | established => simp [Tails, establishedFn, fillIn]
  | send => trivial
  | request => simp [Tails, requestExchangeKey, fillIn, hle]
  | test => simp [Tails, testForSyncData, fillIn]
  | other => simp [Tails, otherTag, fillIn]
  | write => simp [Tails, processWriteDone]
  | read => simp [Tails, processReadDone, fillIn]
  | recvWithImm => simp [Tails]

/-- The key is sent right after it is filled in. -/
theorem Peer.tails_fillsSend (p : Peer) (c : Option Wc) :
    Tails (fun o todo =>
      (todo = [.sendRemote CommDescriptor.size .requestExchangeKey] →
        o = .copy .send p.descriptor.toBytes) ∧
      (o.FillsSend → todo = [.sendRemote CommDescriptor.size .requestExchangeKey] ∨
        .send .requestExchangeKey ∈ Flow.posts (todo.filterMap Op.flow) ∨ c = none ∨
          ∃ tag len, c = some (.recv tag len) ∧ tag ≠ .testForSyncData ∧
            tag ≠ .requestExchangeKey)) (p.code c) := by
  have hcode := p.codeOf c
  generalize p.code c = ops at hcode ⊢
  cases hcode with
  | established => simp [Tails, establishedFn, fillIn, Op.FillsSend]
  | send => trivial
  | request => simp [Tails, requestExchangeKey, fillIn, Op.FillsSend]
  | test => simp [Tails, testForSyncData, fillIn, Op.FillsSend, Op.flow, Flow.posts, Flow.Op.msg]
  | other _ hkey htest => simp [Tails, otherTag, fillIn, Op.FillsSend, hkey, htest]
  | write => simp [Tails, processWriteDone, Op.FillsSend]
  | read => simp [Tails, processReadDone, fillIn, Op.FillsSend]
  | recvWithImm => simp [Tails, Op.FillsSend]

/-- The operations that change the receive buffer. -/
def Op.FillsRecv (o : Op) : Prop := o = .clear .recv ∨ ∃ data, o = .copy .recv data

theorem Peer.tails_fillsRecv (p : Peer) (c : Option Wc) :
    Tails (fun o todo => o.FillsRecv → Flow.credits (todo.filterMap Op.flow) = 2 ∧ c = none)
      (p.code c) := by
  have hcode := p.codeOf c
  generalize p.code c = ops at hcode ⊢
  cases hcode with
  | established => exact ⟨fun _ => ⟨rfl, rfl⟩, by simp [Tails, fillIn, Op.FillsRecv]⟩
  | send => trivial
  | request => simp [Tails, requestExchangeKey, fillIn, Op.FillsRecv]
  | test => simp [Tails, testForSyncData, fillIn, Op.FillsRecv]
  | other => simp [Tails, otherTag, fillIn, Op.FillsRecv]
  | write => simp [Tails, processWriteDone, Op.FillsRecv]
  | read => simp [Tails, processReadDone, fillIn, Op.FillsRecv]
  | recvWithImm => simp [Tails, Op.FillsRecv]

/-- The operations that read the key out of the receive buffer. -/
def Op.Loads (o : Op) : Prop := o = .loadAddr ∨ o = .loadLength ∨ o = .loadRkey

theorem Peer.tails_loads (p : Peer) (c : Option Wc) :
    Tails (fun o todo => o.Loads →
      .send .responseExchangeKey ∈ Flow.posts (todo.filterMap Op.flow) ∧
        ∃ len, c = some (.recv .requestExchangeKey len)) (p.code c) := by
  have hcode := p.codeOf c
  generalize p.code c = ops at hcode ⊢
  cases hcode with
  | established => simp [Tails, establishedFn, fillIn, Op.Loads]
  | send => trivial
  | request =>
    simp [Tails, requestExchangeKey, fillIn, Op.Loads, Op.flow, Flow.posts, Flow.Op.msg]
  | test => simp [Tails, testForSyncData, fillIn, Op.Loads]
  | other => simp [Tails, otherTag, fillIn, Op.Loads]
  | write => simp [Tails, processWriteDone, Op.Loads]
  | read => simp [Tails, processReadDone, fillIn, Op.Loads]
  | recvWithImm => simp [Tails, Op.Loads]

theorem Op.eq_sendRemote {o : Op} {tag : MessageType}
    (h : .send tag ∈ Flow.posts o.flow.toList) : ∃ len, o = .sendRemote len tag := by
  unfold Op.flow at h
  split at h <;> simp_all [Flow.posts, Flow.Op.msg]

/-- What is left after the next operation is still to be posted. -/
theorem Side.mem_posts {me : Side} {o : Op} {todo : List Op} (ht : me.todo = o :: todo) {m : Msg}
    (h : m ∈ Flow.posts (todo.filterMap Op.flow)) : m ∈ Flow.posts me.flow.todo := by
  rw [Side.flow_todo ht, Flow.posts_append]
  exact List.mem_append_right _ h

section

variable (hr : Lts.Reachable (Sys.step P) (Sys.init P) s) {x : Bool} {o : Op} {todo : List Op}
  (ht : (s.side x).todo = o :: todo)
include hr ht

/-- A fact about what the callbacks do next holds of what a side does next. -/
theorem tails_todo {Q : Op → List Op → Prop} (h : Tails Q ((P x).code (s.side x).current)) :
    Q o todo :=
  h.of_suffix (ht ▸ (running hr x).suffix)

/-- As long as the peer has not sent its response, the send buffer is filled
    with the key or before the key is sent. -/
theorem fillsSend_cases (ho : o.FillsSend)
    (hC : .send .responseExchangeKey ∉ (s.side (!x)).log) :
    todo = [.sendRemote CommDescriptor.size .requestExchangeKey] ∨
      .send .requestExchangeKey ∉ (s.side x).log := by
  rcases (tails_todo hr ht ((P x).tails_fillsSend _)).2 ho with h | h | hc | ⟨tag, len, hc, h1, h2⟩
  · exact .inl h
  · exact .inr (not_mem_log hr (by decide) (Side.mem_posts ht h))
  · right
    intro hl
    have hle := length_log_le hr x
    rw [(running hr x).none hc] at hle
    rw [log_eq hr x] at hl
    have hlt := (script_mem_scriptTo (by decide : 1 ≤ 4)).1 hl
    exact absurd (hlt.trans_le hle) (by decide)
  · exact absurd (response_of_handled hr ((running hr x).some _ _ hc rfl) h1 h2) hC

/-- The receive buffer is filled only before a message can reach it. -/
theorem fillsRecv_cases (ho : o.FillsRecv) :
    (s.side x).handled ++ (s.side x).flow.inbox = [] := by
  obtain ⟨hc, hn⟩ := tails_todo hr ht ((P x).tails_fillsRecv _) ho
  have hk := two_receives hr x
  rw [Side.flow_todo ht, Flow.credits_append, hc] at hk
  rw [(running hr x).none hn, List.nil_append]
  exact List.length_eq_zero_iff.1 (by omega)

/-- The key is read while its message is handled, before the response. -/
theorem loads_cases (ho : o.Loads) :
    .send .responseExchangeKey ∉ (s.side x).log ∧
      .send .requestExchangeKey ∈ (s.side x).handled := by
  obtain ⟨hp, len, hc⟩ := tails_todo hr ht ((P x).tails_loads _) ho
  exact ⟨not_mem_log hr (by decide) (Side.mem_posts ht hp), (running hr x).some _ _ hc rfl⟩

end

/-! ## The descriptor a side uses -/

/-- The descriptor addresses the sink buffer of `p`. -/
def CommDescriptor.Addresses (d : CommDescriptor) (p : Peer) : Prop :=
  d.bufferAddr = p.sinkAddr ∧ d.bufferLength = UInt64.ofNat Buf.sink.size ∧ d.rkey = p.sinkRkey

/-- The descriptor is right whenever it is stored or used, if the receive buffer
    and the stored descriptor are right when they are read. -/
def Sound (p : Peer) : List Op → CommDescriptor → Prop
  | [], _ => True
  | .loadAddr :: todo, d => Sound p todo { d with bufferAddr := p.sinkAddr }
  | .loadLength :: todo, d =>
    Sound p todo { d with bufferLength := UInt64.ofNat Buf.sink.size }
  | .loadRkey :: todo, d => Sound p todo { d with rkey := p.sinkRkey }
  | .findPeerBuffer :: todo, _ => ∀ d : CommDescriptor, d.Addresses p → Sound p todo d
  | .insertPeerBuffer :: todo, d => d.Addresses p ∧ Sound p todo d
  | .writeRemote _ _ _ :: todo, d => d.Addresses p ∧ Sound p todo d
  | .readRemote _ :: todo, d => d.Addresses p ∧ Sound p todo d
  | _ :: todo, d => Sound p todo d

theorem sound_code (p q : Peer) (c : Option Wc) (d : CommDescriptor) : Sound p (q.code c) d := by
  have hcode := q.codeOf c
  generalize q.code c = ops at hcode ⊢
  cases hcode with
  | established => simp [Sound, Peer.establishedFn, fillIn]
  | send => trivial
  | request => simp [Sound, Peer.requestExchangeKey, fillIn, CommDescriptor.Addresses]
  | test => simp [Sound, Peer.testForSyncData, fillIn]
  | other => simp [Sound, Peer.otherTag, fillIn]
  | write => simp +contextual [Sound, Peer.processWriteDone]
  | read => simp +contextual [Sound, Peer.processReadDone, fillIn]
  | recvWithImm => simp [Sound]

theorem Sound.perform {p : Peer} {me me' : Side} {o : Op} {todo : List Op}
    (hp : me.perform o = .ok me') (h : Sound p (o :: todo) me.descriptor)
    (hload : o.Loads → (me.mem .recv).read 0 CommDescriptor.size = p.descriptor.toBytes)
    (hknown : ∀ d, me.peerBuffer = some d → d.Addresses p) :
    Sound p todo me'.descriptor ∧ ∀ d, me'.peerBuffer = some d → d.Addresses p := by
  cases o with
  | clear b | copy b data | recvRemote | readText b | syncSend | syncRecv =>
    obtain rfl := Except.ok.inj hp
    exact ⟨h, hknown⟩
  | loadAddr =>
    obtain rfl := Except.ok.inj hp
    obtain ⟨ha, -, -⟩ := CommDescriptor.load_of_read (hload (.inl rfl))
    refine ⟨?_, hknown⟩
    simp only [ha]
    exact h
  | loadLength =>
    obtain rfl := Except.ok.inj hp
    obtain ⟨-, hl, -⟩ := CommDescriptor.load_of_read (hload (.inr (.inl rfl)))
    refine ⟨?_, hknown⟩
    simp only [hl]
    exact h
  | loadRkey =>
    obtain rfl := Except.ok.inj hp
    obtain ⟨-, -, hk⟩ := CommDescriptor.load_of_read (hload (.inr (.inr rfl)))
    refine ⟨?_, hknown⟩
    simp only [hk]
    exact h
  | insertPeerBuffer =>
    obtain rfl := Except.ok.inj hp
    refine ⟨h.2, fun d hd => ?_⟩
    cases hb : me.peerBuffer with
    | none => simp [hb] at hd; exact hd ▸ h.1
    | some d' => simp [hb] at hd; exact hknown d (hd ▸ hb)
  | checkLength b len | sendRemote len tag =>
    simp only [Side.perform] at hp
    split_ifs at hp
    obtain rfl := Except.ok.inj hp
    exact ⟨h, hknown⟩
  | writeRemote len tag notifyPeer | readRemote len =>
    simp only [Side.perform] at hp
    split_ifs at hp <;> obtain rfl := Except.ok.inj hp <;> exact ⟨h.2, hknown⟩
  | findPeerBuffer =>
    simp only [Side.perform] at hp
    split at hp
    · rename_i d hd
      obtain rfl := Except.ok.inj hp
      exact ⟨h d (hknown d hd), hknown⟩
    · cases hp

/-! ## The key on its way -/

/-- The messages that carry the key. -/
def MessageType.CarriesKey (tag : MessageType) : Prop :=
  tag = .requestExchangeKey ∨ tag = .responseExchangeKey

/-- The key of `p` in the send buffer and the messages of `me`, until the peer
    has sent its response. -/
structure KeySent (p : Peer) (me you : Side) : Prop where
  length : ∀ q ∈ me.sq, ∀ len tag, q.request = .send len tag → tag.CarriesKey →
    CommDescriptor.size ≤ len
  buffer : .send .responseExchangeKey ∉ you.log →
    me.todo = [.sendRemote CommDescriptor.size .requestExchangeKey] ∨
      .send .requestExchangeKey ∈ me.log →
    (me.mem .send).read 0 CommDescriptor.size = p.descriptor.toBytes
  payload : .send .responseExchangeKey ∉ you.log →
    ∀ q ∈ me.sq, ∀ len tag data, q = ⟨.send len tag, some data⟩ → tag.CarriesKey →
      data.take CommDescriptor.size = p.descriptor.toBytes

/-- The key of `p` in the receive buffer of its peer, in the descriptor that the
    peer uses, and in what it has stored. -/
structure KeyReceived (p : Peer) (you : Side) : Prop where
  buffer : .send .responseExchangeKey ∉ you.log →
    .send .requestExchangeKey ∈ you.handled ++ you.flow.inbox →
    (you.mem .recv).read 0 CommDescriptor.size = p.descriptor.toBytes
  sound : Sound p you.todo you.descriptor
  known : ∀ d, you.peerBuffer = some d → d.Addresses p

theorem KeySent.init (p q : Peer) : KeySent p (Side.init p) (Side.init q) where
  length := by simp [Side.init]
  buffer := by simp [Side.init, Peer.establishedFn]
  payload := by simp [Side.init]

theorem KeyReceived.init (p q : Peer) : KeyReceived p (Side.init q) where
  buffer := by simp [Side.init, Side.flow]
  sound := sound_code p q none _
  known := by simp [Side.init]

/-- Requests may leave the queue, and the peer may send more. -/
theorem KeySent.frame {p : Peer} {me you me' you' : Side} (h : KeySent p me you)
    (hsq : me'.sq.Sublist me.sq) (htodo : me'.todo = me.todo) (hlog : me'.log = me.log)
    (hmem : me'.mem .send = me.mem .send) (hyou : you.log ⊆ you'.log) : KeySent p me' you' where
  length := fun q hq => h.length q (hsq.subset hq)
  buffer := by rw [htodo, hlog, hmem]; exact fun hC => h.buffer fun hm => hC (hyou hm)
  payload := fun hC q hq => h.payload (fun hm => hC (hyou hm)) q (hsq.subset hq)

/-- The peer of the side that moves, as the owner of the key. -/
theorem KeySent.move_peer {p : Peer} {x : Bool} {me you me' you' : Side} (h : KeySent p you me)
    (hm : Move P x me you me' you') : KeySent p you' me' := by
  cases hm with
  | exec ht hp =>
    refine h.frame (.refl _) rfl rfl rfl ?_
    simp only [Side.log_perform hp]
    exact List.subset_append_left ..
  | @complete ack acks ha =>
    cases ack <;> exact h.frame (.refl _) rfl rfl rfl (List.Subset.refl _)
  | fail | poll | fetch | send | write | writeImm | read =>
    exact h.frame (.refl _) rfl rfl rfl (List.Subset.refl _)

section

variable (hr : Lts.Reachable (Sys.step P) (Sys.init P) s) {x : Bool}
include hr

/-- The send buffer keeps the key, or gets it right before it is sent. -/
theorem KeySent.exec_buffer {o : Op} {todo : List Op} {me' : Side}
    (h : KeySent (P x) (s.side x) (s.side (!x))) (ht : (s.side x).todo = o :: todo)
    (hp : (s.side x).perform o = .ok me') (hC : .send .responseExchangeKey ∉ (s.side (!x)).log)
    (hkey : todo = [.sendRemote CommDescriptor.size .requestExchangeKey] ∨
      .send .requestExchangeKey ∈ me'.log) :
    (me'.mem .send).read 0 CommDescriptor.size = (P x).descriptor.toBytes := by
  by_cases htodo : todo = [.sendRemote CommDescriptor.size .requestExchangeKey]
  · have ho := (tails_todo hr ht ((P x).tails_fillsSend _)).1 htodo
    subst ho
    obtain rfl := Except.ok.inj hp
    rw [Side.setMem_mem_self, ByteMem.read_write _ _ _ (by simp)]
    exact List.take_of_length_le (by simp)
  · have hlog := hkey.resolve_left htodo
    rw [Side.log_perform hp, List.mem_append] at hlog
    have hold : (s.side x).todo = [.sendRemote CommDescriptor.size .requestExchangeKey] ∨
        .send .requestExchangeKey ∈ (s.side x).log := by
      rcases hlog with hl | hl
      · exact .inr hl
      · obtain ⟨len, rfl⟩ := Op.eq_sendRemote hl
        obtain ⟨rfl, rfl⟩ := (tails_todo hr ht ((P x).tails_sendRemote _) len _ rfl).1 rfl
        exact .inl ht
    have hfills : ¬ o.FillsSend := by
      intro ho
      rcases fillsSend_cases hr ht ho hC with h1 | h1
      · exact htodo h1
      · rw [ht] at hold
        rcases hold with h2 | h2
        · rw [(List.cons_eq_cons.1 h2).1] at ho
          simp [Op.FillsSend] at ho
        · exact h1 h2
    have hmem : me'.mem .send = (s.side x).mem .send := by
      rcases (Side.performed hp).mem .send with ho | ⟨data, ho, -⟩ | hm
      · exact absurd (.inl ho) hfills
      · exact absurd (.inr ⟨data, ho⟩) hfills
      · exact hm
    rw [hmem]
    exact h.buffer hC hold

theorem KeySent.exec {o : Op} {todo : List Op} {me' : Side}
    (h : KeySent (P x) (s.side x) (s.side (!x))) (ht : (s.side x).todo = o :: todo)
    (hp : (s.side x).perform o = .ok me') :
    KeySent (P x) { me' with todo } (s.side (!x)) where
  length := by
    intro q hq len tag hl hk
    rcases (Side.performed hp).sq with hsq | ⟨r, hsq, hsend⟩
    · exact h.length q (hsq ▸ hq) len tag hl hk
    · simp only [hsq, List.mem_append, List.mem_singleton] at hq
      rcases hq with hq | rfl
      · exact h.length q hq len tag hl hk
      · obtain ⟨h1, h2⟩ := tails_todo hr ht ((P x).tails_sendRemote _) len tag (hsend len tag hl)
        exact hk.elim (fun hk => (h1 hk).1.ge) h2
  buffer := by
    intro hC hkey
    have hbuf := h.exec_buffer hr ht hp hC hkey
    exact hbuf
  payload := by
    intro hC q hq len tag data hd hk
    rcases (Side.performed hp).sq with hsq | ⟨r, hsq, -⟩
    · exact h.payload hC q (hsq ▸ hq) len tag data hd hk
    · simp only [hsq, List.mem_append, List.mem_singleton] at hq
      rcases hq with hq | rfl
      · exact h.payload hC q hq len tag data hd hk
      · cases hd

theorem KeySent.fetch {j : ℕ} {r : Request} {b : Buf} {len : ℕ}
    (h : KeySent (P x) (s.side x) (s.side (!x))) (hj : (s.side x).sq[j]? = some ⟨r, none⟩)
    (hsrc : r.source = some (b, len)) :
    KeySent (P x)
      { s.side x with sq := (s.side x).sq.set j ⟨r, some (((s.side x).mem b).read 0 len)⟩ }
      (s.side (!x)) where
  length := by
    intro q hq len' tag hl hk
    rcases List.mem_or_eq_of_mem_set hq with hq | rfl
    · exact h.length q hq len' tag hl hk
    · exact h.length _ (List.mem_of_getElem? hj) len' tag hl hk
  buffer := h.buffer
  payload := by
    intro hC q hq len' tag data hd hk
    rcases List.mem_or_eq_of_mem_set hq with hq | rfl
    · exact h.payload hC q hq len' tag data hd hk
    · cases hd
      obtain ⟨rfl, rfl⟩ := Prod.mk.inj (Option.some.inj hsrc)
      have hmem := List.mem_of_getElem? hj
      have hlog : .send tag ∈ (s.side x).log := mem_log_of_mem_sq hr hmem rfl
      rw [ByteMem.take_read _ _ (h.length _ hmem _ tag rfl hk)]
      refine h.buffer hC (.inr ?_)
      rcases hk with rfl | rfl
      · exact hlog
      · exact request_of_response hr hlog

theorem KeySent.move {me you : Side} (h : KeySent (P x) (s.side x) (s.side (!x)))
    (hm : Move P x (s.side x) (s.side (!x)) me you) : KeySent (P x) me you := by
  cases hm with
  | exec ht hp => exact h.exec hr ht hp
  | fail => exact h.frame (.refl _) rfl rfl rfl (List.Subset.refl _)
  | @poll wc cq ht hq =>
    refine ⟨h.length, ?_, h.payload⟩
    intro hC hkey
    exact h.buffer hC (.inr (hkey.resolve_left ((P x).handler_ne_sendRemote wc)))
  | fetch hj hsrc => exact h.fetch hr hj hsrc
  | @send _ _ _ sq hq | @write _ _ _ sq _ hq | @writeImm _ _ _ _ sq _ hq | @read _ _ _ sq _ hq =>
    have hsub : sq.Sublist (s.side x).sq := hq ▸ List.sublist_cons_self ..
    exact h.frame hsub rfl rfl rfl (List.Subset.refl _)
  | @complete ack acks ha =>
    cases ack <;> exact h.frame (.refl _) rfl rfl rfl (List.Subset.refl _)

/-- A message reaches the receive buffer. -/
theorem KeyReceived.send {len : ℕ} {tag : MessageType} {data : List UInt8} {sq : List Posted}
    (h : KeyReceived (P x) (s.side (!x))) (hs : KeySent (P x) (s.side x) (s.side (!x)))
    (hq : (s.side x).sq = ⟨.send len tag, some data⟩ :: sq) :
    KeyReceived (P x) (Sys.consume
      ((s.side (!x)).setMem .recv (((s.side (!x)).mem .recv).write 0 data)) (.recv tag len)) where
  buffer := by
    intro hC hkey
    have hout : (s.side x).flow.out = .send tag :: sq.filterMap (·.request.msg) := by
      simp [Side.flow, hq, Request.msg]
    obtain ⟨n, hn, htag⟩ := next_delivery hr hout
    have hkey : .send .requestExchangeKey ∈ scriptTo n ++ [.send tag] := by
      rw [← hn]
      simpa [Sys.consume, Side.setMem, Side.flow, Wc.msg] using hkey
    have hmem : (⟨.send len tag, some data⟩ : Posted) ∈ (s.side x).sq := hq ▸ List.mem_cons_self
    have hcarries : tag.CarriesKey := by
      rcases n with _ | _ | _ | _ | n
      · rw [htag] at hkey
        exact absurd hkey (by decide)
      · exact .inl (Msg.send.inj htag)
      · exact .inr (Msg.send.inj htag)
      · cases htag
      · have hlog := mem_log_of_mem_sq hr hmem rfl
        rw [htag] at hlog
        exact absurd (response_of_unset hr hlog) hC
    have htake := hs.payload hC _ hmem len tag data rfl hcarries
    have hlen : CommDescriptor.size ≤ data.length := by
      have := congrArg List.length htake
      rw [List.length_take, CommDescriptor.length_toBytes] at this
      omega
    rw [Sys.consume, Side.setMem_mem_self, ByteMem.read_write _ _ _ hlen]
    exact htake
  sound := h.sound
  known := h.known

theorem KeyReceived.exec {p : Peer} {o : Op} {todo : List Op} {me' : Side}
    (h : KeyReceived p (s.side x)) (ht : (s.side x).todo = o :: todo)
    (hp : (s.side x).perform o = .ok me') : KeyReceived p { me' with todo } := by
  have hf := Side.performed hp
  have hsound := Sound.perform hp (ht ▸ h.sound) (fun ho => by
    obtain ⟨h1, h2⟩ := loads_cases hr ht ho
    exact h.buffer h1 (List.mem_append_left _ h2)) h.known
  refine ⟨?_, hsound.1, hsound.2⟩
  intro hC hkey
  have hkey : .send .requestExchangeKey ∈ (s.side x).handled ++ (s.side x).flow.inbox := by
    simpa only [Side.flow, hf.cq, hf.handled] using hkey
  have hfills : ¬ o.FillsRecv := by
    intro ho
    rw [fillsRecv_cases hr ht ho] at hkey
    exact absurd hkey List.not_mem_nil
  have hmem : me'.mem .recv = (s.side x).mem .recv := by
    rcases hf.mem .recv with ho | ⟨data, ho, -⟩ | hm
    · exact absurd (.inl ho) hfills
    · exact absurd (.inr ⟨data, ho⟩) hfills
    · exact hm
  simp only [hmem]
  refine h.buffer ?_ hkey
  simp only [Side.log_perform hp] at hC
  exact fun hl => hC (List.mem_append_left _ hl)

/-- The side that moves, as the receiver of the key. -/
theorem KeyReceived.move {p : Peer} {me you : Side} (h : KeyReceived p (s.side x))
    (hm : Move P x (s.side x) (s.side (!x)) me you) : KeyReceived p me := by
  cases hm with
  | exec ht hp => exact h.exec hr ht hp
  | @poll wc cq ht hq =>
    refine ⟨?_, sound_code p (P x) (some wc) _, h.known⟩
    intro hC hkey
    refine h.buffer hC ?_
    cases hw : wc.msg with
    | none => simpa [Side.flow, hq, hw] using hkey
    | some m => simpa [Side.flow, hq, hw] using hkey
  | fail | fetch | send | write | writeImm | read => exact ⟨h.buffer, h.sound, h.known⟩
  | @complete ack acks ha =>
    have hf := (s.side x).flow_land ack acks
    have hinbox := congrArg Flow.Party.inbox hf
    refine ⟨?_, ?_, ?_⟩
    · intro hC hkey
      rw [hinbox] at hkey
      cases ack <;> exact h.buffer hC hkey
    · cases ack <;> exact h.sound
    · cases ack <;> exact h.known

/-- The peer of the side that moves, as the receiver of the key. -/
theorem KeyReceived.move_peer {me you : Side} (h : KeyReceived (P x) (s.side (!x)))
    (hs : KeySent (P x) (s.side x) (s.side (!x)))
    (hm : Move P x (s.side x) (s.side (!x)) me you) : KeyReceived (P x) you := by
  cases hm with
  | exec | poll | fail | fetch | read | complete => exact h
  | send hq => exact h.send hr hs hq
  | write => exact ⟨h.buffer, h.sound, h.known⟩
  | writeImm =>
    refine ⟨?_, h.sound, h.known⟩
    intro hC hkey
    refine h.buffer hC ?_
    simpa [Sys.consume, Side.setMem, Side.flow, Wc.msg] using hkey

end

/-- Both keys, in every reachable state. -/
theorem keys (hr : Lts.Reachable (Sys.step P) (Sys.init P) s) (x : Bool) :
    KeySent (P x) (s.side x) (s.side (!x)) ∧ KeyReceived (P x) (s.side (!x)) := by
  refine Sys.move_induct (R := fun x me you => KeySent (P x) me you ∧ KeyReceived (P x) you) hr
    (fun x => ⟨.init _ _, .init _ _⟩) ?_ x
  intro s hr x me you hx hy hm
  exact ⟨⟨hx.1.move hr hm, hx.2.move_peer hr hx.1 hm⟩, hy.1.move_peer hm, hy.2.move hr hm⟩

/-- **Key exchange.** Whenever a side stores the descriptor it has read out of its
    receive buffer, and whenever it has stored one, this is the address, the
    size and the key of the sink buffer of its peer. -/
theorem peerBuffer_addresses (hr : Lts.Reachable (Sys.step P) (Sys.init P) s) (x : Bool) :
    (∀ todo, (s.side x).todo = .insertPeerBuffer :: todo →
      (s.side x).descriptor.Addresses (P (!x))) ∧
    ∀ d, (s.side x).peerBuffer = some d → d.Addresses (P (!x)) := by
  have h := (keys hr (!x)).2
  rw [Bool.not_not] at h
  refine ⟨?_, h.known⟩
  intro todo ht
  have hs := h.sound
  rw [ht] at hs
  exact hs.1

/-- After the greeting, the greeting and the key of B reach A, and A handles the
    greeting and takes the key. -/
def keyRun : List SysAct :=
  [greetingRun, [.fetch false 0, .deliver false, .fetch false 0, .deliver false, .poll true],
    List.replicate 6 (.exec true), [.poll true]].flatten

theorem peerBuffer_addresses_keyRun :
    ∃ s d, Lts.Reachable (Sys.step Peer.pair) (Sys.init Peer.pair) s ∧
      (s.side true).peerBuffer = some d ∧ d.Addresses (Peer.pair false) := by
  have h : (Lts.run (Sys.step Peer.pair) (Sys.init Peer.pair)
      (keyRun ++ List.replicate 4 (.exec true))).any
      (fun s => (s.side true).peerBuffer.isSome) = true := by decide +kernel
  obtain ⟨s, hr, hp⟩ := Lts.Reachable.of_any h
  obtain ⟨d, hd⟩ := Option.isSome_iff_exists.1 hp
  exact ⟨s, d, hr, hd, (peerBuffer_addresses hr true).2 d hd⟩

end RdmaCore

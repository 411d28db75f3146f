/-
  Text messages of the default session: does the handler of a message read what
  its sender had in the send buffer when it posted the message?

  A side fills its send buffer again without waiting for the completions of its
  SENDs, and two receives are posted into one receive buffer, which is not
  cleared between messages.

  * `Snapshots`: the send buffer at the moment a message was posted, kept with
    the message until its handler has run;
  * `Orderly`: a side fills its send buffer only when the payloads of its SENDs
    have been fetched, and a SEND is delivered only when the texts delivered
    before it have been read;
  * `Carried`: what an orderly run keeps;
  * the texts after the key exchange are shorter than the greeting, whose tail
    stays in the receive buffer: they are never read as they were sent.
-/
import RdmaCore.WriteRead

namespace RdmaCore

/-- The send buffer when each message of a side was posted: for the requests in
    the send queue, for the SENDs whose completions the peer has not taken, and
    for the SEND whose completion it has taken last. -/
structure Snapshots where
  out : List ByteMem := []
  inbox : List ByteMem := []
  current : Option ByteMem := none

namespace Snapshots

def post (g : Snapshots) (m : ByteMem) : Snapshots := { g with out := g.out ++ [m] }

/-- A request is delivered. -/
def deliver (g : Snapshots) (isSend : Bool) : Snapshots :=
  match g.out with
  | m :: out => { g with out, inbox := if isSend then g.inbox ++ [m] else g.inbox }
  | [] => g

/-- The completion of a SEND is taken. -/
def poll (g : Snapshots) : Snapshots :=
  match g.inbox with
  | m :: inbox => { g with inbox, current := some m }
  | [] => g

end Snapshots

/-- A session, with the snapshots of the messages of each side. -/
structure Tracked where
  sys : Sys
  snap : Bool → Snapshots := fun _ => {}

namespace Tracked

def init (P : Bool → Peer) : Tracked where
  sys := Sys.init P

/-- What a step does to the snapshots. -/
def record (t : Tracked) : SysAct → Bool → Snapshots
  | .exec x =>
    match (t.sys.side x).todo with
    | o :: _ =>
      if (o.request (t.sys.side x).descriptor).isSome then
        Function.update t.snap x ((t.snap x).post ((t.sys.side x).mem .send))
      else t.snap
    | [] => t.snap
  | .deliver x =>
    match (t.sys.side x).sq with
    | q :: _ => Function.update t.snap x ((t.snap x).deliver q.request.isSend)
    | [] => t.snap
  | .poll x =>
    match (t.sys.side x).cq with
    | .recv _ _ :: _ => Function.update t.snap (!x) (t.snap (!x)).poll
    | _ => t.snap
  | _ => t.snap

def step (P : Bool → Peer) (t : Tracked) (a : SysAct) : Option Tracked :=
  (Sys.step P t.sys a).map fun s => ⟨s, t.record a⟩

/-- The side is about to read the text of a message (`MSG_TYPE` and `byte_len` of
    the completion), and this was the send buffer when the message was posted. -/
def Handles (t : Tracked) (x : Bool) (tag : MessageType) (byteLen : ℕ) (m : ByteMem) : Prop :=
  (t.sys.side x).current = some (.recv tag byteLen) ∧
    (∃ todo, (t.sys.side x).todo = .readText .recv :: todo) ∧ (t.snap (!x)).current = some m

/-- Every text that is read is the text that its sender had in its buffer. -/
def Own (t : Tracked) : Prop :=
  ∀ x tag byteLen m, t.Handles x tag byteLen m →
    ((t.sys.side x).mem .recv).cstr 0 Buf.recv.size = m.cstr 0 Buf.send.size

end Tracked

/-- A text has reached the side and was not read. -/
def Side.Unread (me : Side) : Prop :=
  (∃ tag len, .recv tag len ∈ me.cq ∧ tag ≠ .requestExchangeKey) ∨ .readText .recv ∈ me.todo

/-- The send buffer is filled only when the payloads of the SENDs are fetched, and
    a SEND is delivered only when the texts before it are read. -/
def Sys.Orderly (s : Sys) : SysAct → Prop
  | .exec x => ∀ o todo, (s.side x).todo = o :: todo → o.Fills .send →
    ∀ q ∈ (s.side x).sq, q.request.isSend = true → q.payload.isSome = true
  | .deliver x => ∀ q sq, (s.side x).sq = q :: sq → q.request.isSend = true →
    ¬ (s.side (!x)).Unread
  | _ => True

/-- The texts after the key exchange are not handled (unless an identity with a
    NUL ends them early). -/
def Sys.NoText (P : Bool → Peer) (s : Sys) : SysAct → Prop
  | .poll x => ∀ len cq, (s.side x).cq = .recv .unset len :: cq → 0 ∈ (P (!x)).info
  | _ => True

/-! The conditions can be evaluated. -/

instance (o : Op) (b : Buf) : Decidable (o.Fills b) :=
  match o with
  | .clear c => decidable_of_iff (c = b) (by simp [Op.Fills])
  | .copy c _ => decidable_of_iff (c = b) (by simp [Op.Fills])
  | .checkLength _ _ | .recvRemote | .sendRemote _ _ | .writeRemote _ _ _ | .readRemote _
  | .loadAddr | .loadLength | .loadRkey | .insertPeerBuffer | .findPeerBuffer | .readText _
  | .syncSend | .syncRecv => isFalse (by simp [Op.Fills])

/-- The completion of a text. -/
def Wc.isText : Wc → Bool
  | .recv tag _ => tag ≠ .requestExchangeKey
  | _ => false

theorem Wc.exists_isText (cq : List Wc) :
    (∃ wc ∈ cq, wc.isText = true) ↔
      ∃ tag len, .recv tag len ∈ cq ∧ tag ≠ .requestExchangeKey := by
  constructor
  · rintro ⟨wc, hwc, ht⟩
    cases wc with
    | recv tag len => exact ⟨tag, len, hwc, of_decide_eq_true ht⟩
    | _ => cases ht
  · rintro ⟨tag, len, hwc, ht⟩
    exact ⟨_, hwc, decide_eq_true ht⟩

def Op.readsRecv : Op → Bool
  | .readText .recv => true
  | _ => false

theorem Op.exists_readsRecv (todo : List Op) :
    (∃ o ∈ todo, o.readsRecv = true) ↔ .readText .recv ∈ todo := by
  constructor
  · rintro ⟨o, ho, h⟩
    cases o with
    | readText b =>
      cases b with
      | recv => exact ho
      | _ => cases h
    | _ => cases h
  · intro h
    exact ⟨_, h, rfl⟩

instance (me : Side) : Decidable me.Unread :=
  decidable_of_iff ((∃ wc ∈ me.cq, wc.isText = true) ∨ ∃ o ∈ me.todo, o.readsRecv = true)
    (or_congr (Wc.exists_isText me.cq) (Op.exists_readsRecv me.todo))

/-- A condition on the head of a list. -/
def decidableHead {α : Type} (l : List α) (Q : α → Prop) [∀ a, Decidable (Q a)] :
    Decidable (∀ a as, l = a :: as → Q a) :=
  match l with
  | [] => isTrue fun _ _ h => by cases h
  | a :: _ => decidable_of_iff (Q a) ⟨fun h _ _ he => (List.cons_eq_cons.1 he).1 ▸ h,
      fun h => h _ _ rfl⟩

instance (s : Sys) (a : SysAct) : Decidable (s.Orderly a) :=
  match a with
  | .exec x => decidableHead (s.side x).todo fun o => o.Fills .send →
    ∀ q ∈ (s.side x).sq, q.request.isSend = true → q.payload.isSome = true
  | .deliver x => decidableHead (s.side x).sq fun q => q.request.isSend = true →
    ¬ (s.side (!x)).Unread
  | .poll _ | .fetch _ _ | .complete _ => isTrue trivial

/-- The completion of a text after the key exchange. -/
def Wc.isUnset : Wc → Bool
  | .recv .unset _ => true
  | _ => false

theorem Wc.isUnset_iff (wc : Wc) : wc.isUnset = true ↔ ∃ len, wc = .recv .unset len := by
  constructor
  · intro h
    cases wc with
    | recv tag len =>
      cases tag with
      | unset => exact ⟨len, rfl⟩
      | _ => cases h
    | _ => cases h
  · rintro ⟨len, rfl⟩
    rfl

instance (P : Bool → Peer) (s : Sys) (a : SysAct) : Decidable (s.NoText P a) :=
  match a with
  | .poll x =>
    have := decidableHead (s.side x).cq fun wc => wc.isUnset = true → 0 ∈ (P (!x)).info
    decidable_of_iff
      (∀ wc cq, (s.side x).cq = wc :: cq → wc.isUnset = true → 0 ∈ (P (!x)).info) <| by
      constructor
      · intro h len cq hq
        exact h _ cq hq rfl
      · intro h wc cq hq hwc
        obtain ⟨len, rfl⟩ := wc.isUnset_iff.1 hwc
        exact h len cq hq
  | .exec _ | .fetch _ _ | .deliver _ | .complete _ => isTrue trivial

/-! ## What is sent -/

/-- The length of a message of `p` and the send buffer when it is posted. -/
def Peer.Sent (p : Peer) (m : ByteMem) (len : ℕ) : MessageType → Prop
  | .testForSyncData => len = p.firstText.length ∧
    m.read 0 Buf.send.size =
      p.firstText ++ List.replicate (Buf.send.size - p.firstText.length) 0
  | .requestExchangeKey => len = CommDescriptor.size
  | .responseExchangeKey => len = p.baseToSendData.length ∧ m CommDescriptor.size = 0
  | .unset => len = p.baseToSendData.length ∧
    m.read 0 Buf.send.size =
      p.baseToSendData ++ List.replicate (Buf.send.size - p.baseToSendData.length) 0
  | _ => False

/-- The send buffer is right whenever a message is posted, and after the first
    handler it holds the key, which is followed by zero. -/
def Filling (p : Peer) (k : ℕ) : List Op → ByteMem → Prop
  | [], m => k = 1 → m CommDescriptor.size = 0
  | .clear .send :: todo, m => Filling p k todo (m.fill 0 0 Buf.send.size)
  | .copy .send data :: todo, m => Filling p k todo (m.write 0 data)
  | .sendRemote len tag :: todo, m => p.Sent m len tag ∧ Filling p k todo m
  | _ :: todo, m => Filling p k todo m

theorem read_fillIn (m : ByteMem) {data : List UInt8} {n : ℕ} (h : data.length ≤ n) :
    ((m.fill 0 0 n).write 0 data).read 0 n = data ++ List.replicate (n - data.length) 0 := by
  rw [ByteMem.read_write_of_length_le _ _ _ h, ByteMem.read_fill _ _ _ (Nat.le_refl _),
    List.drop_replicate]

theorem filling_establishedFn (p : Peer) (m : ByteMem) : Filling p 0 p.establishedFn m := by
  have hfirst := read_fillIn m p.length_texts.2.1
  simp [Filling, Peer.establishedFn, fillIn, Peer.Sent, hfirst]

theorem filling_handler (p : Peer) {wc : Wc} {k : ℕ} {m : ByteMem}
    (hm : ∀ msg, wc.msg = some msg → msg = script k)
    (h : k = 1 → m CommDescriptor.size = 0) :
    Filling p (k + wc.msg.toList.length) (p.handler wc) m := by
  have hbase := read_fillIn m p.length_texts.1
  have hkey : (((m.fill 0 0 Buf.send.size).write 0 p.descriptor.toBytes)
      CommDescriptor.size) = 0 := by
    simp [ByteMem.write, ByteMem.fill, CommDescriptor.size, Buf.size, Buf.blockSize]
  rcases wc with _ | ⟨tag, len⟩ | _ | _ | tag
  · simpa [Filling, Peer.handler, Wc.msg] using h
  · have htag : .send tag = script k := hm _ rfl
    rcases k with _ | _ | _ | _ | k
    · obtain rfl := Msg.send.inj htag
      simp [Filling, Peer.handler, Peer.processRecvDone, Peer.testForSyncData, fillIn, Peer.Sent,
        Wc.msg, hkey]
    · obtain rfl := Msg.send.inj htag
      simpa [Filling, Peer.handler, Peer.processRecvDone, Peer.requestExchangeKey, fillIn,
        Peer.Sent, Wc.msg] using h rfl
    · obtain rfl := Msg.send.inj htag
      simp [Filling, Peer.handler, Peer.processRecvDone, Peer.otherTag, fillIn, Peer.Sent, Wc.msg,
        hbase]
    · cases htag
    · obtain rfl := Msg.send.inj htag
      simp [Filling, Peer.handler, Peer.processRecvDone, Peer.otherTag, fillIn, Peer.Sent, Wc.msg,
        hbase]
  · simpa [Filling, Peer.handler, Peer.processWriteDone, Wc.msg] using h
  · simpa [Filling, Peer.handler, Peer.processReadDone, fillIn, Wc.msg] using h
  · have htag : .writeImm tag = script k := hm _ rfl
    rcases k with _ | _ | _ | _ | k
    · cases htag
    · cases htag
    · cases htag
    · simp [Filling, Peer.handler, Wc.msg]
    · cases htag

theorem Filling.perform {p : Peer} {k : ℕ} {me me' : Side} {o : Op} {todo : List Op}
    (hp : me.perform o = .ok me') (h : Filling p k (o :: todo) (me.mem .send)) :
    Filling p k todo (me'.mem .send) := by
  cases o with
  | clear b | copy b =>
    obtain rfl := Except.ok.inj hp
    cases b with
    | send => rw [Side.setMem_mem_self]; exact h
    | recv | write | read | sink => rw [Side.setMem_mem_of_ne _ _ (by decide)]; exact h
  | sendRemote =>
    rw [Side.mem_perform hp (by simp [Op.Fills])]
    exact h.2
  | _ =>
    rw [Side.mem_perform hp (by simp [Op.Fills])]
    exact h

/-! ## Messages and their snapshots -/

/-- A request in the send queue: its payload is that of its snapshot, or the send
    buffer `b` is still the snapshot. -/
def InFlight (p : Peer) (b : ByteMem) (q : Posted) (m : ByteMem) : Prop :=
  ∀ len tag, q.request = .send len tag → p.Sent m len tag ∧
    (q.payload = none → b = m) ∧ ∀ data, q.payload = some data → data = m.read 0 len

/-- A text in the receive buffer `r`: the bytes of the message, and for the
    greeting the whole buffer. -/
def Received (r m : ByteMem) (len : ℕ) (tag : MessageType) : Prop :=
  r.read 0 len = m.read 0 len ∧
    (tag = .testForSyncData → r.read 0 Buf.recv.size = m.read 0 Buf.send.size)

/-- A message whose completion is not taken, in the receive buffer `r`. -/
def Boxed (p : Peer) (r : ByteMem) (wc : Wc) (m : ByteMem) : Prop :=
  ∀ tag len, wc = .recv tag len → p.Sent m len tag ∧
    (tag ≠ .requestExchangeKey → Received r m len tag)

/-- The messages of `me`, with the configuration `p`, on their way to `you`. -/
structure Carried (p : Peer) (me you : Side) (g : Snapshots) : Prop where
  filling : Filling p me.handled.length me.todo (me.mem .send)
  flight : List.Forall₂ (InFlight p (me.mem .send)) me.sq g.out
  box : List.Forall₂ (Boxed p (you.mem .recv)) (you.cq.filter Wc.isRecv) g.inbox
  current : ∀ tag len, you.current = some (.recv tag len) → .readText .recv ∈ you.todo →
    ∃ m, g.current = some m ∧ p.Sent m len tag ∧ Received (you.mem .recv) m len tag
  /-- before the first message, once the buffer is cleared -/
  fresh : (∀ todo, you.todo ≠ .clear .recv :: todo) → you.handled ++ you.flow.inbox = [] →
    (you.mem .recv).read 0 Buf.recv.size = List.replicate Buf.recv.size 0
  /-- the tail of the greeting -/
  tail : you.handled ++ you.flow.inbox ≠ [] → you.mem .recv p.baseToSendData.length ≠ 0

theorem Carried.init (p q : Peer) : Carried p (Side.init p) (Side.init q) {} where
  filling := filling_establishedFn p _
  flight := .nil
  box := .nil
  current tag len h := by cases h
  fresh h := absurd rfl (h _)
  tail h := absurd rfl h

/-- The peer of the side that acts, as the sender: its buffer and queue are left
    alone. -/
theorem Carried.frame_sender {p : Peer} {me me' you : Side} {g : Snapshots}
    (h : Carried p me you g) (htodo : me'.todo = me.todo) (hhandled : me'.handled = me.handled)
    (hmem : me'.mem .send = me.mem .send) (hsq : me'.sq = me.sq) : Carried p me' you g where
  filling := by rw [htodo, hhandled, hmem]; exact h.filling
  flight := by rw [hsq, hmem]; exact h.flight
  box := h.box
  current := h.current
  fresh := h.fresh
  tail := h.tail

/-- The peer of the side that acts, as the receiver: its buffer and the messages
    that have reached it are left alone. -/
theorem Carried.frame_receiver {p : Peer} {me you you' : Side} {g : Snapshots}
    (h : Carried p me you g) (htodo : you'.todo = you.todo) (hcurrent : you'.current = you.current)
    (hhandled : you'.handled = you.handled) (hmem : you'.mem .recv = you.mem .recv)
    (hbox : you'.cq.filter Wc.isRecv = you.cq.filter Wc.isRecv)
    (hinbox : you'.flow.inbox = you.flow.inbox) : Carried p me you' g where
  filling := h.filling
  flight := h.flight
  box := by rw [hbox, hmem]; exact h.box
  current := by rw [hcurrent, htodo, hmem]; exact h.current
  fresh := by rw [htodo, hhandled, hinbox, hmem]; exact h.fresh
  tail := by rw [hhandled, hinbox, hmem]; exact h.tail

variable {P : Bool → Peer} {s : Sys} {x : Bool}

section

variable {p : Peer} {you : Side} {g : Snapshots} {o : Op} {todo : List Op} {me' : Side}

/-- The sender performs an operation: it posts a message with its snapshot, or
    fills its send buffer when no message needs it. -/
theorem Carried.exec_sender {me : Side} (h : Carried p me you g) (ht : me.todo = o :: todo)
    (hp : me.perform o = .ok me')
    (hord : o.Fills .send → ∀ q ∈ me.sq, q.request.isSend = true → q.payload.isSome = true) :
    Carried p { me' with todo } you
      (if (o.request me.descriptor).isSome then g.post (me.mem .send) else g) := by
  have hfill := h.filling
  rw [ht] at hfill
  have hold : List.Forall₂ (InFlight p (me'.mem .send)) me.sq g.out := by
    by_cases ho : o.Fills .send
    · refine List.forall₂_iff_zip.2 ⟨h.flight.length_eq, fun {q m} hqm len tag hr => ?_⟩
      obtain ⟨h1, -, h3⟩ := (List.forall₂_iff_zip.1 h.flight).2 hqm len tag hr
      refine ⟨h1, fun hn => ?_, h3⟩
      have hsome := hord ho q (List.of_mem_zip hqm).1 (by rw [hr]; rfl)
      rw [hn] at hsome
      cases hsome
    · rw [Side.mem_perform hp ho]
      exact h.flight
  refine ⟨?_, ?_, ?_, ?_, ?_, ?_⟩
  · have hnext := hfill.perform hp
    simp only [(Side.performed hp).handled]
    exact hnext
  · show List.Forall₂ (InFlight p (me'.mem .send)) me'.sq _
    rw [(Side.perform_posts hp).1]
    cases hreq : o.request me.descriptor with
    | none => simpa using hold
    | some r =>
      simp only [Option.isSome_some, if_true, Option.toList_some, List.map_cons, List.map_nil,
        Snapshots.post]
      refine List.rel_append hold (.cons (fun len tag hr => ?_) .nil)
      obtain rfl : r = .send len tag := hr
      have ho : o = .sendRemote len tag := by
        cases o with
        | sendRemote => obtain ⟨rfl, rfl⟩ := Request.send.inj (Option.some.inj hreq); rfl
        | writeRemote | readRemote => cases Option.some.inj hreq
        | _ => cases hreq
      subst ho
      refine ⟨hfill.1, fun _ => Side.mem_perform hp (by simp [Op.Fills]), fun data hd => ?_⟩
      cases hd
  · split <;> exact h.box
  · split <;> exact h.current
  · exact h.fresh
  · exact h.tail

end

theorem Side.filter_isRecv_eq_nil {me : Side} (h : me.flow.inbox = []) :
    me.cq.filter Wc.isRecv = [] := by
  rw [List.filter_eq_nil_iff]
  intro wc hwc hrecv
  cases wc with
  | recv tag len =>
    have hmem : .send tag ∈ me.flow.inbox := List.mem_filterMap.2 ⟨_, hwc, rfl⟩
    rw [h] at hmem
    cases hmem
  | _ => cases hrecv

theorem Peer.tails_copyRecv (p : Peer) (c : Option Wc) :
    Tails (fun o _ => ∀ data, o ≠ .copy .recv data) (p.code c) := by
  have hcode := p.codeOf c
  generalize p.code c = ops at hcode ⊢
  cases hcode with
  | established => simp [Tails, establishedFn, fillIn]
  | send => trivial
  | request => simp [Tails, requestExchangeKey, fillIn]
  | test => simp [Tails, testForSyncData, fillIn]
  | other => simp [Tails, otherTag, fillIn]
  | write => simp [Tails, processWriteDone]
  | read => simp [Tails, processReadDone, fillIn]
  | recvWithImm => simp [Tails]

theorem Peer.readText_recv_mem_handler {p : Peer} {wc : Wc} (h : .readText .recv ∈ p.handler wc) :
    ∃ tag len, wc = .recv tag len ∧ tag ≠ .requestExchangeKey := by
  rcases wc with _ | ⟨tag, len⟩ | _ | _ | _
  · simp [handler] at h
  · refine ⟨tag, len, rfl, ?_⟩
    rintro rfl
    simp [handler, processRecvDone, requestExchangeKey, fillIn] at h
  · simp [handler, processWriteDone] at h
  · simp [handler, processReadDone, fillIn] at h
  · simp [handler] at h

section

variable (hr : Lts.Reachable (Sys.step P) (Sys.init P) s) {p : Peer} {you : Side} {g : Snapshots}
include hr

/-- The receiver performs an operation: it clears its receive buffer only before
    the first message. -/
theorem Carried.exec_receiver {o : Op} {todo : List Op} {me' : Side}
    (h : Carried p you (s.side x) g) (ht : (s.side x).todo = o :: todo)
    (hp : (s.side x).perform o = .ok me') : Carried p you { me' with todo } g := by
  have hf := Side.performed hp
  have hinbox : { me' with todo }.flow.inbox = (s.side x).flow.inbox := by
    simp only [Side.flow, hf.cq]
  have hhandled : ({ me' with todo } : Side).handled = (s.side x).handled := hf.handled
  have hempty : o.Fills .recv → (s.side x).handled ++ (s.side x).flow.inbox = [] :=
    fun ho => fillsRecv_cases hr ht ho
  refine ⟨h.filling, h.flight, ?_, ?_, ?_, ?_⟩
  · show List.Forall₂ (Boxed p (me'.mem .recv)) (me'.cq.filter Wc.isRecv) g.inbox
    rw [hf.cq]
    by_cases ho : o.Fills .recv
    · have hbox := h.box
      rw [Side.filter_isRecv_eq_nil (List.append_eq_nil_iff.1 (hempty ho)).2] at hbox ⊢
      rw [List.forall₂_nil_left_iff] at hbox ⊢
      exact hbox
    · rw [Side.mem_perform hp ho]
      exact h.box
  · intro tag len hc hmem
    have hc : (s.side x).current = some (.recv tag len) := hf.current ▸ hc
    have ho : ¬ o.Fills .recv := by
      intro ho
      have hnone := (tails_todo hr ht ((P x).tails_fillsRecv _) ho).2
      rw [hc] at hnone
      cases hnone
    obtain ⟨m, h1, h2, h3⟩ := h.current tag len hc (ht ▸ List.mem_cons_of_mem _ hmem)
    refine ⟨m, h1, h2, ?_⟩
    show Received (me'.mem .recv) m len tag
    rw [Side.mem_perform hp ho]
    exact h3
  · intro _ hnil
    rw [hinbox, hhandled] at hnil
    show (me'.mem .recv).read 0 _ = _
    by_cases ho : o = .clear .recv
    · subst ho
      obtain rfl := Except.ok.inj hp
      rw [Side.setMem_mem_self]
      exact ByteMem.read_fill _ _ _ (Nat.le_refl _)
    · have hcopy := tails_todo hr ht ((P x).tails_copyRecv _)
      rw [Side.mem_perform hp (by rintro (h | ⟨data, h⟩); exacts [ho h, hcopy data h])]
      refine h.fresh (fun todo' h' => ho ?_) hnil
      rw [ht] at h'
      exact (List.cons_eq_cons.1 h').1
  · intro hne
    rw [hinbox, hhandled] at hne
    show me'.mem .recv _ ≠ 0
    rw [Side.mem_perform hp fun ho => hne (hempty ho)]
    exact h.tail hne

/-- The next message that a side takes is the next one of the script. -/
theorem next_poll {wc : Wc} {cq : List Wc} {m : Msg} (hq : (s.side x).cq = wc :: cq)
    (hm : wc.msg = some m) : m = script (s.side x).handled.length := by
  have hinbox : (s.side x).flow.inbox = m :: cq.filterMap Wc.msg := by
    simp only [Side.flow, hq, List.filterMap_cons, hm]
  have ho := log_order hr (!x)
  rw [Bool.not_not, hinbox, log_eq hr (!x)] at ho
  have hp : (s.side x).handled ++ [m] <+: scriptTo (s.side (!x)).log.length :=
    ⟨cq.filterMap Wc.msg ++ (s.side (!x)).flow.out, by rw [ho]; simp⟩
  have hs := (prefix_scriptTo hp).1
  rw [List.length_append, List.length_singleton, scriptTo_succ] at hs
  exact List.singleton_inj.1 (List.append_inj' hs rfl).2

/-- The sender takes a completion. -/
theorem Carried.poll_sender {wc : Wc} {cq : List Wc} (h : Carried (P x) (s.side x) you g)
    (ht : (s.side x).todo = []) (hq : (s.side x).cq = wc :: cq) :
    Carried (P x) { s.side x with
      current := some wc, todo := (P x).handler wc, cq
      handled := (s.side x).handled ++ wc.msg.toList } you g where
  filling := by
    have hfill := h.filling
    rw [ht] at hfill
    rw [List.length_append]
    exact filling_handler (P x) (fun m hm => next_poll hr hq hm) hfill
  flight := h.flight
  box := h.box
  current := h.current
  fresh := h.fresh
  tail := h.tail

end

/-- The receiver takes a completion; that of a SEND comes with its snapshot. -/
theorem Carried.poll_receiver {p q : Peer} {me you : Side} {g : Snapshots} {wc : Wc}
    {cq : List Wc} (h : Carried p you me g) (ht : me.todo = []) (hq : me.cq = wc :: cq) :
    Carried p you { me with
      current := some wc, todo := q.handler wc, cq
      handled := me.handled ++ wc.msg.toList }
      (if wc.isRecv then g.poll else g) := by
  have hmsgs : (me.handled ++ wc.msg.toList) ++ cq.filterMap Wc.msg =
      me.handled ++ me.flow.inbox := by
    simp only [Side.flow, hq]
    cases hm : wc.msg with
    | none => simp [hm]
    | some m => simp [hm]
  have hfresh : me.handled ++ me.flow.inbox = [] →
      (me.mem .recv).read 0 Buf.recv.size = List.replicate Buf.recv.size 0 :=
    h.fresh fun todo h => by rw [ht] at h; cases h
  have hbox := h.box
  rw [hq] at hbox
  by_cases hwc : wc.isRecv = true
  · rw [List.filter_cons_of_pos hwc] at hbox
    obtain ⟨m, rest, hm, hrest, hg⟩ := List.forall₂_cons_left_iff.1 hbox
    rw [if_pos hwc, Snapshots.poll, hg]
    refine ⟨h.filling, h.flight, hrest, ?_, fun _ hnil => hfresh (hmsgs ▸ hnil),
      fun hne => h.tail (hmsgs ▸ hne)⟩
    rintro tag len ⟨⟩ hmem
    have hmem : .readText .recv ∈ q.handler (.recv tag len) := hmem
    obtain ⟨tag', len', he, hkey⟩ := Peer.readText_recv_mem_handler hmem
    cases he
    exact ⟨m, rfl, (hm tag len rfl).1, (hm tag len rfl).2 hkey⟩
  · rw [List.filter_cons_of_neg hwc] at hbox
    rw [if_neg hwc]
    refine ⟨h.filling, h.flight, hbox, ?_, fun _ hnil => hfresh (hmsgs ▸ hnil),
      fun hne => h.tail (hmsgs ▸ hne)⟩
    rintro tag len ⟨⟩
    exact absurd rfl hwc

/-- The payload of a message is fetched. -/
theorem Carried.fetch {p : Peer} {me you : Side} {g : Snapshots} {j : ℕ} {r : Request} {b : Buf}
    {len : ℕ} (h : Carried p me you g) (hj : me.sq[j]? = some ⟨r, none⟩)
    (hsrc : r.source = some (b, len)) :
    Carried p { me with sq := me.sq.set j ⟨r, some ((me.mem b).read 0 len)⟩ } you g where
  filling := h.filling
  flight := by
    refine List.forall₂_iff_get.2 ⟨?_, ?_⟩
    · rw [List.length_set]
      exact h.flight.length_eq
    · intro i hi hi'
      have hold := h.flight.get (by simpa using hi) hi'
      simp only [List.get_eq_getElem, List.getElem_set] at hold ⊢
      split
      · next hij =>
        subst hij
        obtain ⟨hlt, hget⟩ := List.getElem?_eq_some_iff.1 hj
        rw [hget] at hold
        intro len' tag hreq
        obtain rfl : r = .send len' tag := hreq
        obtain ⟨rfl, rfl⟩ := Prod.mk.inj (Option.some.inj hsrc)
        obtain ⟨h1, h2, -⟩ := hold len' tag rfl
        refine ⟨h1, fun hn => absurd hn (Option.some_ne_none _), ?_⟩
        rintro data ⟨⟩
        rw [h2 rfl]
      · exact hold
  box := h.box
  current := h.current
  fresh := h.fresh
  tail := h.tail

/-! ## Deliveries -/

/-- The byte after the text of the greeting that the later texts have. -/
theorem Peer.firstText_tail (p : Peer) :
    p.firstText[p.baseToSendData.length]? = some 44 := by
  have hcount : Adapter.bytes ", count: " = [44, 32, 99, 111, 117, 110, 116, 58, 32] := by
    decide +kernel
  rw [firstText, List.getElem?_append_right (Nat.le_refl _), Nat.sub_self, hcount]
  rfl

theorem Peer.Sent.length_le {p : Peer} {m : ByteMem} {len : ℕ} {tag : MessageType}
    (h : p.Sent m len tag) (ht : tag ≠ .testForSyncData) : len ≤ p.baseToSendData.length := by
  cases tag with
  | testForSyncData => exact absurd rfl ht
  | requestExchangeKey => exact h ▸ size_le_length_baseToSendData p
  | responseExchangeKey | unset => exact h.1.le
  | rawDataBlock | testForConnection | sayHello => exact h.elim

theorem Peer.Sent.read_eq_firstText {p : Peer} {m : ByteMem} {len : ℕ}
    (h : p.Sent m len .testForSyncData) : m.read 0 len = p.firstText := by
  obtain ⟨hlen, hread⟩ := h
  have hle : len ≤ Buf.send.size := hlen ▸ p.length_texts.2.1
  rw [← ByteMem.take_read m 0 hle, hread, hlen, List.take_left]

/-- A message is received where it is written; the greeting needs a cleared buffer. -/
theorem Peer.Sent.received {p : Peer} {r m : ByteMem} {len : ℕ} {tag : MessageType}
    (h : p.Sent m len tag)
    (hclear : tag = .testForSyncData →
      r.read 0 Buf.recv.size = List.replicate Buf.recv.size 0) :
    Received (r.write 0 (m.read 0 len)) m len tag := by
  have hself := ByteMem.read_write_self r 0 (m.read 0 len)
  rw [ByteMem.length_read] at hself
  refine ⟨hself, ?_⟩
  rintro rfl
  have hle : p.firstText.length ≤ Buf.recv.size := p.length_texts.2.1
  rw [h.read_eq_firstText, ByteMem.read_write_of_length_le _ _ _ hle, hclear rfl,
    List.drop_replicate]
  exact h.2.symm

/-- After a message the tail of the greeting is still there. -/
theorem Peer.Sent.tail_write {p : Peer} {r m : ByteMem} {len : ℕ} {tag : MessageType}
    (h : p.Sent m len tag) (htail : tag ≠ .testForSyncData → r p.baseToSendData.length ≠ 0) :
    r.write 0 (m.read 0 len) p.baseToSendData.length ≠ 0 := by
  rw [ByteMem.write, if_pos (Nat.zero_le _), Nat.sub_zero]
  by_cases ht : tag = .testForSyncData
  · subst ht
    rw [h.read_eq_firstText, p.firstText_tail, Option.getD_some]
    decide
  · have hle : (m.read 0 len).length ≤ p.baseToSendData.length := by
      rw [ByteMem.length_read]
      exact h.length_le ht
    rw [List.getElem?_eq_none hle, Option.getD_none]
    exact htail ht

section

variable (hr : Lts.Reachable (Sys.step P) (Sys.init P) s) {g : Snapshots} {sq : List Posted}
include hr

/-- The first message to reach a side, and no other, is the greeting. -/
theorem greeting_iff_first {tag : MessageType} {out : List Msg}
    (hflow : (s.side x).flow.out = .send tag :: out) :
    tag = .testForSyncData ↔ (s.side (!x)).handled ++ (s.side (!x)).flow.inbox = [] := by
  obtain ⟨n, hn, htag⟩ := next_delivery hr hflow
  rw [hn]
  constructor
  · rintro rfl
    rcases n with _ | _ | _ | _ | n
    · rfl
    · cases htag
    · cases htag
    · cases htag
    · cases htag
  · intro h0
    have hn0 : n = 0 := by simpa using congrArg List.length h0
    subst hn0
    exact Msg.send.inj htag

/-- Before the first message, a receive is posted only into a cleared buffer. -/
theorem Carried.cleared (h : Carried (P x) (s.side x) (s.side (!x)) g)
    (hrq : 0 < (s.side (!x)).rq)
    (hnil : (s.side (!x)).handled ++ (s.side (!x)).flow.inbox = []) :
    ((s.side (!x)).mem .recv).read 0 Buf.recv.size = List.replicate Buf.recv.size 0 := by
  refine h.fresh (fun todo ht => ?_) hnil
  have hcredits := (tails_todo hr ht ((P (!x)).tails_fillsRecv _) (.inl rfl)).1
  have hk := two_receives hr (!x)
  rw [Side.flow_todo ht, Flow.credits_append, hcredits] at hk
  omega

/-- A SEND is delivered when nothing is left to be read. -/
theorem Carried.deliver_send {len : ℕ} {tag : MessageType} {data : List UInt8}
    (h : Carried (P x) (s.side x) (s.side (!x)) g)
    (hq : (s.side x).sq = ⟨.send len tag, some data⟩ :: sq) (hrq : 0 < (s.side (!x)).rq)
    (hread : ¬ (s.side (!x)).Unread) :
    Carried (P x) { s.side x with sq, acks := (s.side x).acks ++ [.send] }
      (Sys.consume ((s.side (!x)).setMem .recv (((s.side (!x)).mem .recv).write 0 data))
        (.recv tag len)) (g.deliver true) := by
  have hflight := h.flight
  rw [hq] at hflight
  obtain ⟨m, out, hm, hout, hg⟩ := List.forall₂_cons_left_iff.1 hflight
  obtain ⟨hsent, -, hpayload⟩ := hm len tag rfl
  obtain rfl := hpayload data rfl
  have hflow : (s.side x).flow.out = .send tag :: sq.filterMap (·.request.msg) := by
    simp [Side.flow, hq, Request.msg]
  have hgreet := greeting_iff_first hr hflow
  have hmem : (Sys.consume ((s.side (!x)).setMem .recv
      (((s.side (!x)).mem .recv).write 0 (m.read 0 len))) (.recv tag len)).mem .recv =
      ((s.side (!x)).mem .recv).write 0 (m.read 0 len) := by
    rw [Sys.consume, Side.setMem_mem_self]
  rw [Snapshots.deliver, hg]
  refine ⟨h.filling, hout, ?_, ?_, ?_, ?_⟩
  · rw [hmem]
    show List.Forall₂ _ (((s.side (!x)).cq ++ [Wc.recv tag len]).filter Wc.isRecv) _
    rw [List.filter_append]
    refine List.rel_append (List.forall₂_iff_zip.2 ⟨h.box.length_eq, ?_⟩) (.cons ?_ .nil)
    · -- only the key may be among the earlier messages
      intro wc m' hz tag' len' he
      refine ⟨((List.forall₂_iff_zip.1 h.box).2 hz tag' len' he).1, fun hkey => ?_⟩
      have hmem' := (List.mem_filter.1 (List.of_mem_zip hz).1).1
      exact absurd (.inl ⟨tag', len', he ▸ hmem', hkey⟩) hread
    · rintro tag' len' ⟨⟩
      exact ⟨hsent, fun _ => hsent.received fun ht => h.cleared hr hrq (hgreet.1 ht)⟩
  · intro tag' len' hc hmem'
    exact absurd (.inr hmem') hread
  · intro _ hnil
    simp [Sys.consume, Side.flow, Wc.msg] at hnil
  · intro _
    rw [hmem]
    exact hsent.tail_write fun ht => h.tail fun hnil => ht (hgreet.2 hnil)

/-- A write with notification is delivered after the greeting. -/
theorem handled_ne_nil_of_writeImm {len : ℕ} {d : CommDescriptor} {tag : MessageType}
    {payload : Option (List UInt8)}
    (hq : (s.side x).sq = ⟨.write len d (some tag), payload⟩ :: sq) :
    (s.side (!x)).handled ++ (s.side (!x)).flow.inbox ≠ [] := by
  have hflow : (s.side x).flow.out = .writeImm tag :: sq.filterMap (·.request.msg) := by
    simp [Side.flow, hq, Request.msg]
  obtain ⟨n, hn, htag⟩ := next_delivery hr hflow
  intro h0
  rw [hn] at h0
  have hn0 : n = 0 := by simpa using congrArg List.length h0
  subst hn0
  cases htag

end

/-- A write or a read is delivered. -/
theorem Carried.deliver_other {p : Peer} {me you you' : Side} {g : Snapshots} {q : Posted}
    {sq : List Posted} {acks : List Ack} {ms : List Msg} (h : Carried p me you g)
    (hq : me.sq = q :: sq) (htodo : you'.todo = you.todo) (hcurrent : you'.current = you.current)
    (hhandled : you'.handled = you.handled) (hmem : you'.mem .recv = you.mem .recv)
    (hbox : you'.cq.filter Wc.isRecv = you.cq.filter Wc.isRecv)
    (hinbox : you'.flow.inbox = you.flow.inbox ++ ms)
    (hms : ms ≠ [] → you.handled ++ you.flow.inbox ≠ []) :
    Carried p { me with sq, acks } you' (g.deliver false) := by
  have hflight := h.flight
  rw [hq] at hflight
  obtain ⟨m, out, -, hout, hg⟩ := List.forall₂_cons_left_iff.1 hflight
  rw [Snapshots.deliver, hg]
  refine ⟨h.filling, hout, ?_, ?_, ?_, ?_⟩
  · rw [hbox, hmem]
    exact h.box
  · rw [hcurrent, htodo, hmem]
    exact h.current
  · rw [htodo, hhandled, hinbox, hmem, ← List.append_assoc]
    exact fun ht hnil => h.fresh ht (List.append_eq_nil_iff.1 hnil).1
  · rw [hhandled, hinbox, hmem, ← List.append_assoc]
    intro hne
    refine h.tail fun hnil => hne ?_
    by_cases h0 : ms = []
    · rw [hnil, h0]
      rfl
    · exact absurd hnil (hms h0)

/-! ## Orderly runs -/

namespace Tracked

variable {t t' : Tracked} {a : SysAct}

theorem step_cases (hs : step P t a = some t') :
    Sys.step P t.sys a = some t'.sys ∧ t'.snap = t.record a := by
  simp only [step, Option.map_eq_some_iff] at hs
  obtain ⟨s, hs, rfl⟩ := hs
  exact ⟨hs, rfl⟩

/-- The messages of both sides are carried. -/
structure Inv (P : Bool → Peer) (t : Tracked) : Prop where
  reachable : Lts.Reachable (Sys.step P) (Sys.init P) t.sys
  carried : ∀ x, Carried (P x) (t.sys.side x) (t.sys.side (!x)) (t.snap x)

theorem Inv.init (P : Bool → Peer) : Inv P (init P) where
  reachable := .refl _
  carried x := .init (P x) (P (!x))

/-- Both directions of a step, from the messages of the side that acts and those
    of its peer. -/
theorem Inv.both (x : Bool) (hr : Lts.Reachable (Sys.step P) (Sys.init P) t.sys)
    (hx : Carried (P x) (t.sys.side x) (t.sys.side (!x)) (t.snap x))
    (hy : Carried (P (!x)) (t.sys.side (!x)) (t.sys.side x) (t.snap (!x))) : Inv P t := by
  refine ⟨hr, ?_⟩
  rw [Bool.forall_bool' x, Bool.not_not]
  exact ⟨hx, hy⟩

theorem update_not (f : Bool → Snapshots) (x : Bool) (g : Snapshots) :
    Function.update f x g (!x) = f (!x) := Function.update_of_ne (Bool.not_ne_self x) ..

theorem update_not' (f : Bool → Snapshots) (x : Bool) (g : Snapshots) :
    Function.update f (!x) g x = f x := Function.update_of_ne (Bool.self_ne_not x) ..

theorem Inv.exec (h : Inv P t) {x : Bool} (hs : step P t (.exec x) = some t')
    (hord : t.sys.Orderly (.exec x)) : Inv P t' := by
  obtain ⟨ha, hsnap⟩ := step_cases hs
  have hr := h.reachable
  have hx := h.carried x
  have hy := h.carried (!x)
  rw [Bool.not_not] at hy
  obtain ⟨o, todo, me', ht, hp, hself, hpeer⟩ := exec_ok hr ha
  have hrec : t'.snap x = (if (o.request (t.sys.side x).descriptor).isSome then
      (t.snap x).post ((t.sys.side x).mem .send) else t.snap x) ∧
      t'.snap (!x) = t.snap (!x) := by
    rw [hsnap]
    simp only [record, ht]
    split
    · exact ⟨Function.update_self .., update_not ..⟩
    · exact ⟨rfl, rfl⟩
  refine Inv.both x (hr.tail ha) ?_ ?_
  · rw [hrec.1, hself, hpeer]
    exact hx.exec_sender ht hp (hord o todo ht)
  · rw [hrec.2, hself, hpeer]
    exact hy.exec_receiver hr ht hp

theorem Inv.poll (h : Inv P t) {x : Bool} (hs : step P t (.poll x) = some t') : Inv P t' := by
  obtain ⟨ha, hsnap⟩ := step_cases hs
  have hr := h.reachable
  have hx := h.carried x
  have hy := h.carried (!x)
  rw [Bool.not_not] at hy
  have hr' := hr.tail ha
  simp only [Sys.step, Option.ite_none_right_eq_some] at ha
  obtain ⟨wc, cq, ht, hq, he⟩ := Sys.poll_cases ha.2
  have hrec : t'.snap x = t.snap x ∧
      t'.snap (!x) = (if wc.isRecv then (t.snap (!x)).poll else t.snap (!x)) := by
    rw [hsnap]
    simp only [record, hq]
    cases wc with
    | recv => exact ⟨update_not' .., Function.update_self ..⟩
    | send | write | read | recvWithImm => exact ⟨rfl, rfl⟩
  refine Inv.both x hr' ?_ ?_
  · rw [hrec.1, he, Sys.set_side_self, Sys.set_side_not]
    exact hx.poll_sender hr ht hq
  · rw [hrec.2, he, Sys.set_side_self, Sys.set_side_not]
    exact hy.poll_receiver ht hq

theorem Inv.fetch (h : Inv P t) {x : Bool} {j : ℕ} (hs : step P t (.fetch x j) = some t') :
    Inv P t' := by
  obtain ⟨ha, hsnap⟩ := step_cases hs
  have hr' := h.reachable.tail ha
  have hy := h.carried (!x)
  rw [Bool.not_not] at hy
  obtain ⟨r, b, len, hj, hsrc, he⟩ := Sys.fetch_cases ha
  refine Inv.both x hr' ?_ ?_
  · rw [hsnap, he, Sys.set_side_self, Sys.set_side_not]
    exact (h.carried x).fetch hj hsrc
  · rw [hsnap, he, Sys.set_side_self, Sys.set_side_not]
    exact hy.frame_receiver rfl rfl rfl rfl rfl rfl

theorem Inv.complete (h : Inv P t) {x : Bool} (hs : step P t (.complete x) = some t') :
    Inv P t' := by
  obtain ⟨ha, hsnap⟩ := step_cases hs
  have hr' := h.reachable.tail ha
  have hy := h.carried (!x)
  rw [Bool.not_not] at hy
  obtain ⟨ack, acks, hacks, he⟩ := Sys.complete_cases ha
  refine Inv.both x hr' ?_ ?_
  · rw [hsnap, he, Sys.set_side_self, Sys.set_side_not]
    cases ack <;> exact (h.carried x).frame_sender rfl rfl rfl rfl
  · rw [hsnap, he, Sys.set_side_self, Sys.set_side_not]
    cases ack <;> refine hy.frame_receiver rfl rfl rfl rfl ?_ ?_ <;>
      simp [Side.land, Ack.wc, Wc.isRecv, Side.flow, Wc.msg, Side.setMem]

theorem Inv.deliver (h : Inv P t) {x : Bool} (hs : step P t (.deliver x) = some t')
    (hord : t.sys.Orderly (.deliver x)) : Inv P t' := by
  obtain ⟨ha, hsnap⟩ := step_cases hs
  have hr := h.reachable
  have hr' := hr.tail ha
  have hx := h.carried x
  have hy := h.carried (!x)
  rw [Bool.not_not] at hy
  have hrec : ∀ q sq, (t.sys.side x).sq = q :: sq →
      t'.snap x = (t.snap x).deliver q.request.isSend ∧ t'.snap (!x) = t.snap (!x) := by
    intro q sq hq
    rw [hsnap]
    simp only [record, hq]
    exact ⟨Function.update_self .., update_not ..⟩
  rcases Sys.deliver_cases ha with he | ⟨len, tag, data, sq, hq, hrq, he⟩ |
    ⟨len, d, data, sq, b, hq, -, he⟩ | ⟨len, d, tag, data, sq, b, hq, -, -, he⟩ |
    ⟨len, d, payload, sq, b, hq, -, he⟩
  · have hfail := failed_eq_none hr' x
    rw [he, Sys.set_side_self] at hfail
    cases hfail
  · refine Inv.both x hr' ?_ ?_
    · rw [(hrec _ _ hq).1, he, Sys.set_not_side, Sys.set_side_self, Sys.set_side_self]
      exact hx.deliver_send hr hq hrq (hord _ _ hq rfl)
    · rw [(hrec _ _ hq).2, he, Sys.set_not_side, Sys.set_side_self, Sys.set_side_self]
      refine Carried.frame_sender (hy.frame_receiver rfl rfl rfl rfl rfl rfl) rfl rfl ?_ rfl
      simp [Sys.consume, Side.setMem]
  · refine Inv.both x hr' ?_ ?_
    · rw [(hrec _ _ hq).1, he, Sys.set_not_side, Sys.set_side_self, Sys.set_side_self]
      exact hx.deliver_other hq rfl rfl rfl (by simp [Side.setMem]) rfl
        (List.append_nil _).symm (absurd rfl)
    · rw [(hrec _ _ hq).2, he, Sys.set_not_side, Sys.set_side_self, Sys.set_side_self]
      refine Carried.frame_sender (hy.frame_receiver rfl rfl rfl rfl rfl rfl) rfl rfl ?_ rfl
      simp [Side.setMem]
  · refine Inv.both x hr' ?_ ?_
    · rw [(hrec _ _ hq).1, he, Sys.set_not_side, Sys.set_side_self, Sys.set_side_self]
      exact hx.deliver_other hq rfl rfl rfl (by simp [Sys.consume, Side.setMem])
        (by simp [Sys.consume, Side.setMem, Wc.isRecv])
        (by simp [Sys.consume, Side.setMem, Side.flow, Wc.msg]; rfl)
        (fun _ => handled_ne_nil_of_writeImm hr hq)
    · rw [(hrec _ _ hq).2, he, Sys.set_not_side, Sys.set_side_self, Sys.set_side_self]
      refine Carried.frame_sender (hy.frame_receiver rfl rfl rfl rfl rfl rfl) rfl rfl ?_ rfl
      simp [Sys.consume, Side.setMem]
  · refine Inv.both x hr' ?_ ?_
    · rw [(hrec _ _ hq).1, he, Sys.set_side_self, Sys.set_side_not]
      exact hx.deliver_other hq rfl rfl rfl rfl rfl (List.append_nil _).symm (absurd rfl)
    · rw [(hrec _ _ hq).2, he, Sys.set_side_self, Sys.set_side_not]
      exact hy.frame_receiver rfl rfl rfl rfl rfl rfl

/-- The steps of an orderly run carry the messages. -/
theorem Inv.step (h : Inv P t) (hord : t.sys.Orderly a) (hs : step P t a = some t') :
    Inv P t' := by
  cases a with
  | exec x => exact h.exec hs hord
  | poll x => exact h.poll hs
  | fetch x j => exact h.fetch hs
  | deliver x => exact h.deliver hs hord
  | complete x => exact h.complete hs

end Tracked

/-! ## Texts and their messages -/

theorem Peer.length_baseToSendData_lt (p : Peer) : p.baseToSendData.length < Buf.send.size :=
  Nat.lt_of_lt_of_le (List.getElem?_eq_some_iff.1 p.firstText_tail).1 p.length_texts.2.1

/-- A text without NUL is read together with what follows it in the buffer. -/
theorem Peer.lt_length_cstr {p : Peer} {r : ByteMem} (hnul : 0 ∉ p.info)
    (hread : r.read 0 p.baseToSendData.length = p.baseToSendData)
    (htail : r p.baseToSendData.length ≠ 0) :
    p.baseToSendData.length < (r.cstr 0 Buf.recv.size).length := by
  refine ByteMem.le_length_cstr p.length_baseToSendData_lt ?_
  rw [Nat.succ_eq_add_one, ByteMem.read_add, hread, List.mem_append]
  rintro (hb | hb)
  · exact hnul (p.zero_mem_baseToSendData.1 hb)
  · obtain ⟨i, hi, hz⟩ := ByteMem.zero_mem_read.1 hb
    obtain rfl : i = 0 := by omega
    rw [Nat.zero_add] at hz
    exact htail hz

theorem Received.cstr_unset_iff {p : Peer} {r m : ByteMem}
    (h : r.read 0 p.baseToSendData.length = m.read 0 p.baseToSendData.length)
    (hm : m.read 0 Buf.send.size =
      p.baseToSendData ++ List.replicate (Buf.send.size - p.baseToSendData.length) 0)
    (htail : r p.baseToSendData.length ≠ 0) :
    r.cstr 0 Buf.recv.size = m.cstr 0 Buf.send.size ↔ 0 ∈ p.info := by
  have hbase := p.length_texts.1
  have htext : m.read 0 p.baseToSendData.length = p.baseToSendData := by
    rw [← ByteMem.take_read m 0 hbase, hm, List.take_left' rfl]
  by_cases h0 : 0 ∈ p.info
  · refine iff_of_true (ByteMem.cstr_congr hbase h ?_) h0
    rw [h, htext]
    exact p.zero_mem_baseToSendData.2 h0
  · refine iff_of_false (fun heq => ?_) h0
    have hnul : ∀ b ∈ p.baseToSendData, b ≠ 0 := by
      rintro b hb rfl
      exact h0 (p.zero_mem_baseToSendData.1 hb)
    have hlt := p.length_baseToSendData_lt
    obtain ⟨k, hk⟩ : ∃ k, Buf.send.size - p.baseToSendData.length = k + 1 :=
      ⟨_, (Nat.succ_pred_eq_of_pos (by omega)).symm⟩
    rw [hk, List.replicate_succ] at hm
    have hsent : m.cstr 0 Buf.send.size = p.baseToSendData :=
      ByteMem.cstr_eq (Nat.le_refl _) hm hnul
    have hlong := Peer.lt_length_cstr h0 (h.trans htext) htail
    rw [heq, hsent] at hlong
    exact Nat.lt_irrefl _ hlong

/-- The text of a message ends where its sender has ended it, unless the tail of
    the greeting follows it. -/
theorem Received.cstr_iff {p : Peer} {r m : ByteMem} {len : ℕ} {tag : MessageType}
    (h : Received r m len tag) (hs : p.Sent m len tag) (htag : tag ≠ .requestExchangeKey)
    (htail : r p.baseToSendData.length ≠ 0) :
    r.cstr 0 Buf.recv.size = m.cstr 0 Buf.send.size ↔ (tag = .unset → 0 ∈ p.info) := by
  have hbase := p.length_texts.1
  cases tag with
  | testForSyncData =>
    refine iff_of_true ?_ (fun h => by cases h)
    rw [ByteMem.cstr, ByteMem.cstr, h.2 rfl]
  | requestExchangeKey => exact absurd rfl htag
  | responseExchangeKey =>
    obtain ⟨rfl, h0⟩ := hs
    -- the zeros of the key end the text of the response
    have hlt : CommDescriptor.size < p.baseToSendData.length := by
      rw [p.length_baseToSendData, CommDescriptor.size]
      omega
    refine iff_of_true (ByteMem.cstr_congr hbase h.1 ?_) (fun h => by cases h)
    rw [h.1]
    exact ByteMem.zero_mem_read.2 ⟨_, hlt, by rw [Nat.zero_add]; exact h0⟩
  | unset =>
    obtain ⟨rfl, hm⟩ := hs
    exact (Received.cstr_unset_iff h.1 hm htail).trans ⟨fun h0 _ => h0, fun h0 => h0 rfl⟩
  | rawDataBlock | testForConnection | sayHello => exact hs.elim

namespace Tracked

variable {t t' : Tracked} {a : SysAct}

/-- In an orderly run, a text that is about to be read comes with its snapshot. -/
theorem Inv.reads (h : Inv P t) {tag : MessageType} {byteLen : ℕ} {todo : List Op}
    (hc : (t.sys.side x).current = some (.recv tag byteLen))
    (ht : (t.sys.side x).todo = .readText .recv :: todo) :
    ∃ m, (t.snap (!x)).current = some m ∧
      ((t.sys.side x).mem .recv).read 0 byteLen = m.read 0 byteLen ∧
      (((t.sys.side x).mem .recv).cstr 0 Buf.recv.size = m.cstr 0 Buf.send.size ↔
        (tag = .unset → 0 ∈ (P (!x)).info)) := by
  have hrun := running h.reachable x
  have hcar := h.carried (!x)
  rw [Bool.not_not] at hcar
  have hmem : .readText .recv ∈ (t.sys.side x).todo := by rw [ht]; exact List.mem_cons_self
  obtain ⟨m, hm, hsent, hrec⟩ := hcar.current tag byteLen hc hmem
  have hcode : .readText .recv ∈ (P x).handler (.recv tag byteLen) := by
    have hin := hrun.suffix.mem hmem
    rw [hc] at hin
    exact hin
  obtain ⟨tag', len', he, htag⟩ := Peer.readText_recv_mem_handler hcode
  cases he
  have hhandled := hrun.some _ _ hc rfl
  have htail := hcar.tail (List.ne_nil_of_mem (List.mem_append_left _ hhandled))
  exact ⟨m, hm, hrec.1, hrec.cstr_iff hsent htag htail⟩

/-- Only a poll changes the completion that a side handles. -/
theorem current_step {s s' : Sys} (hs : Sys.step P s a = some s') (y : Bool) :
    (s'.side y).current = (s.side y).current ∨
      a = .poll y ∧ ∃ wc cq, (s.side y).cq = wc :: cq ∧ (s'.side y).current = some wc := by
  revert y
  cases a with
  | exec x =>
    simp only [Sys.step, Option.ite_none_right_eq_some] at hs
    rw [Bool.forall_bool' x]
    obtain ⟨o, todo, -, ⟨c, -, rfl⟩ | ⟨me', hp, hcase⟩⟩ := Sys.exec_cases hs.2
    · rw [Sys.set_side_self, Sys.set_side_not]
      exact ⟨.inl rfl, .inl rfl⟩
    · have hcur := (Side.performed hp).current
      rcases hcase with ⟨-, -, rfl⟩ | ⟨-, -, -, rfl⟩ | ⟨-, -, rfl⟩ <;>
        simp only [Sys.set_side_self, Sys.set_side_not] <;> exact ⟨.inl hcur, .inl trivial⟩
  | poll x =>
    simp only [Sys.step, Option.ite_none_right_eq_some] at hs
    rw [Bool.forall_bool' x]
    obtain ⟨wc, cq, -, hq, rfl⟩ := Sys.poll_cases hs.2
    rw [Sys.set_side_self, Sys.set_side_not]
    exact ⟨.inr ⟨rfl, wc, cq, hq, rfl⟩, .inl rfl⟩
  | fetch x j =>
    rw [Bool.forall_bool' x]
    obtain ⟨r, b, len, -, -, rfl⟩ := Sys.fetch_cases hs
    rw [Sys.set_side_self, Sys.set_side_not]
    exact ⟨.inl rfl, .inl rfl⟩
  | deliver x =>
    rw [Bool.forall_bool' x]
    obtain rfl | ⟨len, tag, data, sq, -, -, rfl⟩ | ⟨len, d, data, sq, b, -, -, rfl⟩ |
      ⟨len, d, tag, data, sq, b, -, -, -, rfl⟩ | ⟨len, d, payload, sq, b, -, -, rfl⟩ :=
      Sys.deliver_cases hs
    · rw [Sys.set_side_self, Sys.set_side_not]; exact ⟨.inl rfl, .inl rfl⟩
    · rw [Sys.set_not_side, Sys.set_side_self, Sys.set_side_self]; exact ⟨.inl rfl, .inl rfl⟩
    · rw [Sys.set_not_side, Sys.set_side_self, Sys.set_side_self]; exact ⟨.inl rfl, .inl rfl⟩
    · rw [Sys.set_not_side, Sys.set_side_self, Sys.set_side_self]; exact ⟨.inl rfl, .inl rfl⟩
    · rw [Sys.set_side_self, Sys.set_side_not]; exact ⟨.inl rfl, .inl rfl⟩
  | complete x =>
    rw [Bool.forall_bool' x]
    obtain ⟨ack, acks, -, rfl⟩ := Sys.complete_cases hs
    rw [Sys.set_side_self, Sys.set_side_not]
    refine ⟨.inl ?_, .inl rfl⟩
    cases ack <;> rfl

/-- Of the texts after the key exchange, only those that an identity with a NUL
    ends early are handled. -/
def Ended (P : Bool → Peer) (s : Sys) : Prop :=
  ∀ x len, (s.side x).current = some (.recv .unset len) → 0 ∈ (P (!x)).info

theorem Ended.step {s s' : Sys} (h : Ended P s) (hn : s.NoText P a)
    (hs : Sys.step P s a = some s') : Ended P s' := by
  intro x len hc
  rcases current_step hs x with he | ⟨rfl, wc, cq, hq, he⟩
  · exact h x len (he ▸ hc)
  · obtain rfl := Option.some.inj (he.symm.trans hc)
    exact hn len cq hq

theorem Inv.own (h : Inv P t) (he : Ended P t.sys) : t.Own := by
  rintro x tag byteLen m ⟨hc, ⟨todo, ht⟩, hm⟩
  obtain ⟨m', hm', -, hiff⟩ := h.reads hc ht
  obtain rfl := Option.some.inj (hm.symm.trans hm')
  exact hiff.2 fun htag => he x byteLen (htag ▸ hc)

/-- **The texts of an orderly run.** The bytes of a message are those that its
    sender had in the send buffer when it posted the message. The text that the
    handler reads is the text of the sender unless the message is one of those
    that follow the key exchange: the tail of the greeting is read with it. If no
    such text is handled, all texts are the texts of their senders. -/
theorem texts_of_orderly_run (P : Bool → Peer) (as : List SysAct) {t : Tracked}
    (hrun : Lts.run (step P) (init P) as = some t) :
    (Lts.Along (step P) (fun t a => t.sys.Orderly a) (init P) as →
      ∀ x tag byteLen todo, (t.sys.side x).current = some (.recv tag byteLen) →
        (t.sys.side x).todo = .readText .recv :: todo →
        ∃ m, (t.snap (!x)).current = some m ∧
          ((t.sys.side x).mem .recv).read 0 byteLen = m.read 0 byteLen ∧
          (((t.sys.side x).mem .recv).cstr 0 Buf.recv.size = m.cstr 0 Buf.send.size ↔
            (tag = .unset → 0 ∈ (P (!x)).info))) ∧
    (Lts.Along (step P) (fun t a => t.sys.Orderly a ∧ t.sys.NoText P a) (init P) as → t.Own) := by
  constructor
  · intro hal
    have h : Inv P t := by
      refine Lts.along_induct (P := Inv P) ?_ as (Inv.init P) hrun hal
      intro t a t' h hord hs
      exact h.step hord hs
    intro x tag byteLen todo hc ht
    exact h.reads hc ht
  · intro hal
    have h : Inv P t ∧ Ended P t.sys := by
      refine Lts.along_induct (P := fun t => Inv P t ∧ Ended P t.sys) ?_ as
        ⟨Inv.init P, fun x len hc => ?_⟩ hrun hal
      · rintro t a t' ⟨h, he⟩ ⟨hord, hn⟩ hs
        exact ⟨h.step hord hs, he.step hn (step_cases hs).1⟩
      · cases hc
    exact h.1.own h.2

/-- The text that a side is about to read. -/
def reading (me : Side) : Option (MessageType × ℕ) :=
  match me.current, me.todo with
  | some (.recv tag byteLen), .readText .recv :: _ => some (tag, byteLen)
  | _, _ => none

theorem reading_eq {me : Side} {tag : MessageType} {byteLen : ℕ}
    (h : reading me = some (tag, byteLen)) :
    me.current = some (.recv tag byteLen) ∧ ∃ todo, me.todo = .readText .recv :: todo := by
  simp only [reading] at h
  split at h
  · rename_i todo hc ht
    cases h
    exact ⟨hc, todo, ht⟩
  · cases h

/-- The established callbacks of both sides, and B takes the greeting of A. -/
def firstTextRun : List SysAct :=
  [List.replicate 4 (.exec true), List.replicate 9 (.exec false), List.replicate 5 (.exec true),
    [.fetch true 0, .deliver true, .poll false]].flatten

theorem texts_of_firstTextRun :
    ∃ t len m, Lts.run (step Peer.pair) (init Peer.pair) firstTextRun = some t ∧
      t.Handles false .testForSyncData len m ∧
      ((t.sys.side false).mem .recv).cstr 0 Buf.recv.size = m.cstr 0 Buf.send.size ∧ t.Own := by
  have h : (Lts.run (step Peer.pair) (init Peer.pair) firstTextRun).any
      (fun t => (reading (t.sys.side false)).any (·.1 = .testForSyncData)) = true := by
    decide +kernel
  have hal : Lts.Along (step Peer.pair) (fun t a => t.sys.Orderly a) (init Peer.pair)
      firstTextRun := by decide +kernel
  have hal' : Lts.Along (step Peer.pair) (fun t a => t.sys.Orderly a ∧ t.sys.NoText Peer.pair a)
      (init Peer.pair) firstTextRun := by decide +kernel
  obtain ⟨t, hrun, hp⟩ := (Option.any_eq_true _ _).1 h
  obtain ⟨⟨tag, len⟩, hread, htag⟩ := (Option.any_eq_true _ _).1 hp
  obtain rfl : tag = .testForSyncData := of_decide_eq_true htag
  obtain ⟨hc, todo, ht⟩ := reading_eq hread
  obtain ⟨hreads, hown⟩ := texts_of_orderly_run Peer.pair firstTextRun hrun
  obtain ⟨m, hm, -, hiff⟩ := hreads hal false _ len todo hc ht
  exact ⟨t, len, m, hrun, ⟨hc, ⟨todo, ht⟩, hm⟩, hiff.2 (fun h => by cases h), hown hal'⟩

/-- **A text that is not the text of its message.** The greeting and the key of B
    reach A before A takes the completion of the greeting: A reads the key. -/
theorem not_own_of_overwritten :
    ∃ t, Lts.Reachable (step Peer.pair) (init Peer.pair) t ∧ ¬ t.Own := by
  have h : (Lts.run (step Peer.pair) (init Peer.pair)
      [greetingRun, [.fetch false 0, .deliver false, .fetch false 0, .deliver false,
        .poll true]].flatten).any
      (fun t => (reading (t.sys.side true)).isSome && (t.snap false).current.any fun m =>
        ((t.sys.side true).mem .recv).cstr 0 Buf.recv.size ≠ m.cstr 0 Buf.send.size) = true := by
    decide +kernel
  obtain ⟨t, hr, hp⟩ := Lts.Reachable.of_any h
  obtain ⟨hread, hm⟩ := (Bool.and_eq_true _ _).mp hp
  obtain ⟨⟨tag, len⟩, hread⟩ := Option.isSome_iff_exists.1 hread
  obtain ⟨m, hm, hne⟩ := (Option.any_eq_true _ _).1 hm
  obtain ⟨hc, htodo⟩ := reading_eq hread
  refine ⟨t, hr, fun hown => ?_⟩
  exact of_decide_eq_true hne (hown true tag len m ⟨hc, htodo, hm⟩)

end Tracked

end RdmaCore

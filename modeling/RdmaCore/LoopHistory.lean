/-
  Histories of the one-sided loop: the requests a side has posted and the texts
  it has written, recorded along a run, and what the loop does in every run.

  The steps are those of the session; a `Trace` only records them.
  `Recorded` says what the trace of a side tells about its state: which request
  comes next, and that a text has come back whenever a read has completed.
-/
import RdmaCore.WriteRead

namespace RdmaCore

variable {P : Bool → Peer} {s : Sys}

/-! ## Histories -/

/-- What a side has done so far. -/
structure Trace where
  /-- the one-sided requests posted -/
  posted : List Request := []
  /-- the texts of the writes that were delivered and have not completed -/
  delivered : List (List UInt8) := []
  /-- the texts of the writes that have completed -/
  written : List (List UInt8) := []

namespace Trace

/-- The thread of the side performs an operation. -/
def exec (t : Trace) (me me' : Side) : Trace :=
  { t with
    posted := t.posted ++
      ((me'.sq.drop me.sq.length).map (·.request)).filter Request.isOneSided }

/-- The oldest request of the side is delivered. -/
def deliver (t : Trace) (me : Side) : Trace :=
  match me.sq with
  | ⟨.write _ _ _, some data⟩ :: _ => { t with delivered := t.delivered ++ [data] }
  | _ => t

/-- The oldest delivered request of the side completes. -/
def complete (t : Trace) (me : Side) : Trace :=
  match me.acks, t.delivered with
  | .write :: _, data :: delivered => { t with delivered, written := t.written ++ [data] }
  | _, _ => t

end Trace

/-- A session and what its sides have done so far. -/
structure History where
  sys : Sys
  trace : Bool → Trace := fun _ => {}

namespace History

def init (P : Bool → Peer) : History where
  sys := Sys.init P

/-- What a step adds to the traces. -/
def record (h : History) (s : Sys) : SysAct → Bool → Trace
  | .exec x => Function.update h.trace x ((h.trace x).exec (h.sys.side x) (s.side x))
  | .deliver x => Function.update h.trace x ((h.trace x).deliver (h.sys.side x))
  | .complete x => Function.update h.trace x ((h.trace x).complete (h.sys.side x))
  | _ => h.trace

def step (P : Bool → Peer) (h : History) (a : SysAct) : Option History :=
  (Sys.step P h.sys a).map fun s => ⟨s, h.record s a⟩

end History

namespace Request

/-- The `n`-th one-sided request of a side: a write with notification, a read, a
    write without, a read, and so on. -/
def Fits (n : ℕ) : Request → Prop
  | send _ _ => False
  | write _ _ imm => n % 2 = 0 ∧ imm = if n = 0 then some .responseExchangeKey else none
  | read _ _ => n % 2 = 1

def isWrite : Request → Bool
  | write _ _ _ => true
  | _ => false

def isRead : Request → Bool
  | read _ _ => true
  | _ => false

end Request

namespace Side

/-- A write is outstanding. -/
def Writing (me : Side) : Prop :=
  (∃ r ∈ me.sq, r.request.isWrite = true) ∨ .write ∈ me.acks ∨ .write ∈ me.cq

/-- A read is outstanding. -/
def Reading (me : Side) : Prop :=
  (∃ r ∈ me.sq, r.request.isRead = true) ∨ (∃ data, .read data ∈ me.acks) ∨ .read ∈ me.cq

/-- The last write has completed, and the next is not posted. -/
def Between (me : Side) : Prop :=
  .write ∈ me.cq ∨ (∃ len, .readRemote len ∈ me.todo) ∨ me.Reading ∨ .readText .read ∈ me.todo

end Side

def Ack.isWrite : Ack → Bool
  | write => true
  | _ => false

/-- What the trace of a side says about its state. -/
structure Recorded (p : Peer) (me : Side) (t : Trace) : Prop where
  fits : ∀ (i : ℕ) r, t.posted[i]? = some r → r.Fits i
  next : ∀ o ∈ me.todo, o.isOneSided = true → ∀ d r, o.request d = some r → r.Fits t.posted.length
  writing : me.Writing → t.posted.length % 2 = 1
  reading : me.Reading → t.posted.length % 2 = 0 ∧ t.posted ≠ []
  unposted : me.oneSided = 0 → t.posted = []
  acked : t.delivered.length = me.acks.countP Ack.isWrite
  delivered : ∀ data ∈ t.delivered, data = p.writeText
  written : ∀ data ∈ t.written, data = p.writeText
  between : me.Between → t.written ≠ []

theorem Recorded.init (p : Peer) : Recorded p (Side.init p) {} where
  fits i r h := by simp at h
  next o ho h := by
    have h0 := p.countP_isOneSided_establishedFn
    exact absurd h (List.countP_eq_zero.1 h0 o ho)
  writing := by simp [Side.init, Side.Writing]
  reading := by simp [Side.init, Side.Reading]
  unposted _ := rfl
  acked := rfl
  delivered := by simp
  written := by simp
  between := by simp [Side.init, Side.Between, Side.Reading, Peer.establishedFn, fillIn]

/-- Nothing has come up that was not to be done or polled before. -/
theorem Side.Between.of {me me' : Side} (h : me'.Between) (htodo : ∀ o ∈ me'.todo, o ∈ me.todo)
    (hcq : .write ∈ me'.cq → .write ∈ me.cq) (hrd : me'.Reading → me.Reading) : me.Between := by
  rcases h with h | ⟨len, h⟩ | h | h
  · exact .inl (hcq h)
  · exact .inr (.inl ⟨len, htodo _ h⟩)
  · exact .inr (.inr (.inl (hrd h)))
  · exact .inr (.inr (.inr (htodo _ h)))

/-- A step that posts no one-sided request. -/
theorem Recorded.keep {p : Peer} {me me' : Side} {t t' : Trace} (h : Recorded p me t)
    (htodo : ∀ o ∈ me'.todo, o ∈ me.todo) (hone : me'.oneSided = me.oneSided)
    (hw : me'.Writing → me.Writing) (hrd : me'.Reading → me.Reading)
    (hposted : t'.posted = t.posted)
    (hacked : t'.delivered.length = me'.acks.countP Ack.isWrite)
    (hdelivered : ∀ data ∈ t'.delivered, data = p.writeText)
    (hwritten : ∀ data ∈ t'.written, data = p.writeText)
    (hbetween : me'.Between → t'.written ≠ []) : Recorded p me' t' where
  fits := by rw [hposted]; exact h.fits
  next o ho := by rw [hposted]; exact h.next o (htodo o ho)
  writing hx := by rw [hposted]; exact h.writing (hw hx)
  reading hx := by rw [hposted]; exact h.reading (hrd hx)
  unposted := by rw [hposted, hone]; exact h.unposted
  acked := hacked
  delivered := hdelivered
  written := hwritten
  between := hbetween

/-- The peer of the side that acts. -/
theorem Recorded.frame {p : Peer} {me me' : Side} {t : Trace} (h : Recorded p me t)
    (htodo : me'.todo = me.todo) (hsq : me'.sq = me.sq) (hacks : me'.acks = me.acks)
    (hcq : ∀ wc, wc.isOneSided = true → (wc ∈ me'.cq ↔ wc ∈ me.cq))
    (hone : me'.oneSided = me.oneSided) : Recorded p me' t := by
  have hsub : ∀ o ∈ me'.todo, o ∈ me.todo := fun _ ho => htodo ▸ ho
  have hw : me'.Writing → me.Writing := by
    unfold Side.Writing
    rw [hsq, hacks, hcq _ rfl]
    exact id
  have hrd : me'.Reading → me.Reading := by
    unfold Side.Reading
    rw [hsq, hacks, hcq _ rfl]
    exact id
  refine h.keep hsub hone hw hrd rfl (by rw [hacks]; exact h.acked) h.delivered h.written ?_
  exact fun hb => h.between (hb.of hsub (hcq _ rfl).1 hrd)

theorem Request.isOneSided_of_isWrite {r : Request} (h : r.isWrite = true) :
    r.isOneSided = true := by
  cases r with
  | write => rfl
  | send | read => cases h

theorem Request.isOneSided_of_isRead {r : Request} (h : r.isRead = true) :
    r.isOneSided = true := by
  cases r with
  | read => rfl
  | send | write => cases h

theorem Side.outstanding_pos {me : Side} (h : me.Writing ∨ me.Reading) : 0 < me.outstanding := by
  have hsq : ∀ r ∈ me.sq, r.request.isOneSided = true → 0 < me.outstanding := by
    intro r hr h
    have : 0 < me.sq.countP (·.request.isOneSided) := List.countP_pos_iff.2 ⟨r, hr, h⟩
    simp only [Side.outstanding]
    omega
  have hacks : ∀ ack ∈ me.acks, ack.isOneSided = true → 0 < me.outstanding := by
    intro ack hack h
    have := List.countP_pos_iff.2 ⟨ack, hack, h⟩
    simp only [Side.outstanding]
    omega
  have hcq : ∀ wc ∈ me.cq, wc.isOneSided = true → 0 < me.outstanding := by
    intro wc hwc h
    have := List.countP_pos_iff.2 ⟨wc, hwc, h⟩
    simp only [Side.outstanding]
    omega
  rcases h with (⟨r, hr, h⟩ | h | h) | (⟨r, hr, h⟩ | ⟨data, h⟩ | h)
  · exact hsq r hr (Request.isOneSided_of_isWrite h)
  · exact hacks _ h rfl
  · exact hcq _ h rfl
  · exact hsq r hr (Request.isOneSided_of_isRead h)
  · exact hacks _ h rfl
  · exact hcq _ h rfl

section

variable {p : Peer} {me me' : Side} {o : Op} {todo : List Op} {t : Trace}

theorem Trace.posted_exec (t : Trace) (todo : List Op) (hp : me.perform o = .ok me') :
    (t.exec me { me' with todo }).posted =
      t.posted ++ (o.request me.descriptor).toList.filter Request.isOneSided := by
  simp only [Trace.exec, (Side.perform_posts hp).1, List.drop_left, List.map_map]
  congr 2
  exact List.map_id _

theorem Side.writing_perform (hp : me.perform o = .ok me') (h : { me' with todo }.Writing) :
    me.Writing ∨ ∃ r, o.request me.descriptor = some r ∧ r.isWrite = true := by
  have hf := Side.performed hp
  rcases h with ⟨r, hr, hw⟩ | h | h
  · rcases Side.mem_sq_perform hp hr with hr | ⟨hr, -⟩
    · exact .inl (.inl ⟨r, hr, hw⟩)
    · exact .inr ⟨_, hr, hw⟩
  · exact .inl (.inr (.inl (hf.acks ▸ h)))
  · exact .inl (.inr (.inr (hf.cq ▸ h)))

theorem Side.reading_perform (hp : me.perform o = .ok me') (h : { me' with todo }.Reading) :
    me.Reading ∨ ∃ r, o.request me.descriptor = some r ∧ r.isRead = true := by
  have hf := Side.performed hp
  rcases h with ⟨r, hr, hw⟩ | ⟨data, h⟩ | h
  · rcases Side.mem_sq_perform hp hr with hr | ⟨hr, -⟩
    · exact .inl (.inl ⟨r, hr, hw⟩)
    · exact .inr ⟨_, hr, hw⟩
  · exact .inl (.inr (.inl ⟨data, hf.acks ▸ h⟩))
  · exact .inl (.inr (.inr (hf.cq ▸ h)))

theorem Side.between_perform (ht : me.todo = o :: todo) (hp : me.perform o = .ok me')
    (h : { me' with todo }.Between) : me.Between := by
  rcases h with h | ⟨len, h⟩ | h | h
  · exact .inl ((Side.performed hp).cq ▸ h)
  · exact .inr (.inl ⟨len, ht ▸ List.mem_cons_of_mem _ h⟩)
  · rcases Side.reading_perform hp h with h | ⟨r, hr, hread⟩
    · exact .inr (.inr (.inl h))
    · cases o with
      | readRemote len => exact .inr (.inl ⟨len, ht ▸ List.mem_cons_self⟩)
      | sendRemote | writeRemote =>
        obtain rfl := Option.some.inj hr
        cases hread
      | _ => cases hr
  · exact .inr (.inr (.inr (ht ▸ List.mem_cons_of_mem _ h)))

/-- An operation that posts a one-sided request posts the one that is next; nothing else
    is outstanding or still to be posted. -/
theorem Recorded.exec_oneSided (h : Recorded p me t) (hone : me.oneSided ≤ 1)
    (ht : me.todo = o :: todo) (hp : me.perform o = .ok me') (ho : o.isOneSided = true) :
    Recorded p { me' with todo } (t.exec me { me' with todo }) := by
  have hcount : me.outstanding = 0 ∧ todo.countP Op.isOneSided = 0 := by
    simp only [Side.oneSided, ht, List.countP_cons, ho, if_true] at hone
    omega
  obtain ⟨r, hr, hr1⟩ : ∃ r, o.request me.descriptor = some r ∧ r.isOneSided = true := by
    cases o with
    | writeRemote | readRemote => exact ⟨_, rfl, rfl⟩
    | _ => cases ho
  have hfits : r.Fits t.posted.length := h.next o (ht ▸ List.mem_cons_self) ho me.descriptor r hr
  have hposted := t.posted_exec todo hp
  rw [hr, Option.toList_some, List.filter_cons_of_pos hr1, List.filter_nil] at hposted
  refine ⟨?_, ?_, ?_, ?_, ?_, ?_, h.delivered, h.written, ?_⟩
  · intro i r' hi
    rw [hposted] at hi
    rcases Nat.lt_trichotomy i t.posted.length with hlt | rfl | hgt
    · rw [List.getElem?_append_left hlt] at hi
      exact h.fits i r' hi
    · rw [List.getElem?_concat_length] at hi
      exact Option.some.inj hi ▸ hfits
    · rw [List.getElem?_eq_none (by simp; omega)] at hi
      cases hi
  · intro o' ho' h1
    exact absurd h1 (List.countP_eq_zero.1 hcount.2 o' ho')
  · intro hw
    rw [hposted, List.length_append, List.length_singleton]
    rcases Side.writing_perform hp hw with hw | ⟨r', hr', hw⟩
    · have := Side.outstanding_pos (.inl hw)
      omega
    · obtain rfl := Option.some.inj (hr.symm.trans hr')
      cases r with
      | write => have := hfits.1; omega
      | send | read => cases hw
  · intro hw
    rw [hposted, List.length_append, List.length_singleton]
    rcases Side.reading_perform hp hw with hw | ⟨r', hr', hw⟩
    · have := Side.outstanding_pos (.inr hw)
      omega
    · obtain rfl := Option.some.inj (hr.symm.trans hr')
      cases r with
      | read =>
        have hodd : t.posted.length % 2 = 1 := hfits
        exact ⟨by omega, by simp⟩
      | send | write => cases hw
  · intro h0
    rw [Side.oneSided_perform ht hp] at h0
    simp only [Side.oneSided, ht, List.countP_cons, ho, if_true] at h0
    omega
  · show t.delivered.length = me'.acks.countP Ack.isWrite
    rw [(Side.performed hp).acks]
    exact h.acked
  · exact fun hb => h.between (Side.between_perform ht hp hb)

theorem Recorded.exec_other (h : Recorded p me t) (ht : me.todo = o :: todo)
    (hp : me.perform o = .ok me') (ho : ¬ o.isOneSided = true) :
    Recorded p { me' with todo } (t.exec me { me' with todo }) := by
  have hnew : ∀ r, o.request me.descriptor = some r →
      r.isOneSided = false ∧ r.isWrite = false ∧ r.isRead = false := by
    intro r hr
    cases o with
    | sendRemote => obtain rfl := Option.some.inj hr; exact ⟨rfl, rfl, rfl⟩
    | writeRemote | readRemote => exact absurd rfl ho
    | _ => cases hr
  have hposted : (t.exec me { me' with todo }).posted = t.posted := by
    rw [t.posted_exec todo hp, List.filter_eq_nil_iff.2, List.append_nil]
    intro r hr
    rw [(hnew r (Option.mem_toList.1 hr)).1]
    exact Bool.false_ne_true
  refine h.keep (fun o' ho' => ht ▸ List.mem_cons_of_mem _ ho') (Side.oneSided_perform ht hp)
    ?_ ?_ hposted ?_ h.delivered h.written fun hb => h.between (Side.between_perform ht hp hb)
  · intro hw
    rcases Side.writing_perform hp hw with hw | ⟨r, hr, hw⟩
    · exact hw
    · rw [(hnew r hr).2.1] at hw
      cases hw
  · intro hw
    rcases Side.reading_perform hp hw with hw | ⟨r, hr, hw⟩
    · exact hw
    · rw [(hnew r hr).2.2] at hw
      cases hw
  · show t.delivered.length = me'.acks.countP Ack.isWrite
    rw [(Side.performed hp).acks]
    exact h.acked

/-- What a handler posts is next: after a write the read, after a read the write, and
    after the key the first write. -/
theorem Recorded.fits_handler {wc : Wc} (h : Recorded p me t) (hmem : wc ∈ me.cq)
    (hkey : wc.msg = some (.send .requestExchangeKey) → me.oneSided = 0) :
    ∀ o ∈ p.handler wc, o.isOneSided = true →
      ∀ d r, o.request d = some r → r.Fits t.posted.length := by
  intro o ho h1 d r hr
  rcases wc with _ | ⟨tag, byteLen⟩ | _ | _ | tag
  · cases ho
  · by_cases htag : tag = .requestExchangeKey
    · subst htag
      rw [h.unposted (hkey rfl)]
      simp only [Peer.handler, Peer.processRecvDone, Peer.requestExchangeKey, fillIn,
        List.mem_append, List.mem_cons, List.not_mem_nil, or_false] at ho
      rcases ho with ((rfl | rfl | rfl | rfl | rfl | rfl) | rfl | rfl | rfl) | rfl
      all_goals cases h1
      obtain rfl := Option.some.inj hr
      exact ⟨rfl, rfl⟩
    · have h0 := p.countP_isOneSided_handler (.recv tag byteLen)
      have hcount : ([.send tag] : List Msg).count (.send .requestExchangeKey) = 0 := by
        simp [htag]
      simp only [Wc.isOneSided, Wc.msg, Option.toList_some, hcount] at h0
      exact absurd h1 (List.countP_eq_zero.1 h0 o ho)
  · have hodd := h.writing (.inr (.inr hmem))
    simp only [Peer.handler, Peer.processWriteDone, List.mem_cons, List.not_mem_nil,
      or_false] at ho
    rcases ho with rfl | rfl | rfl
    all_goals cases h1
    obtain rfl := Option.some.inj hr
    exact hodd
  · obtain ⟨heven, hne⟩ := h.reading (.inr (.inr hmem))
    simp only [Peer.handler, Peer.processReadDone, fillIn, List.mem_append, List.mem_cons,
      List.not_mem_nil, or_false] at ho
    rcases ho with ((rfl | rfl) | rfl | rfl | rfl) | rfl
    all_goals cases h1
    obtain rfl := Option.some.inj hr
    exact ⟨heven, (if_neg (by simpa using hne)).symm⟩
  · simp only [Peer.handler, List.mem_singleton] at ho
    subst ho
    cases h1

theorem Recorded.poll {wc : Wc} {cq : List Wc} (h : Recorded p me t) (ht : me.todo = [])
    (hq : me.cq = wc :: cq)
    (hkey : wc.msg = some (.send .requestExchangeKey) → me.oneSided = 0) :
    Recorded p { me with
      current := some wc, todo := p.handler wc, cq
      handled := me.handled ++ wc.msg.toList } t where
  fits := h.fits
  next := h.fits_handler (hq ▸ List.mem_cons_self) hkey
  writing := by
    rintro (hw | hw | hw)
    · exact h.writing (.inl hw)
    · exact h.writing (.inr (.inl hw))
    · exact h.writing (.inr (.inr (hq ▸ List.mem_cons_of_mem _ hw)))
  reading := by
    rintro (hw | hw | hw)
    · exact h.reading (.inl hw)
    · exact h.reading (.inr (.inl hw))
    · exact h.reading (.inr (.inr (hq ▸ List.mem_cons_of_mem _ hw)))
  unposted := by
    intro h0
    refine h.unposted ?_
    simp only [Side.oneSided, Side.outstanding, p.countP_isOneSided_handler wc] at h0
    simp only [Side.oneSided, Side.outstanding, ht, hq, List.countP_cons, List.countP_nil]
    omega
  acked := h.acked
  delivered := h.delivered
  written := h.written
  between := by
    have hmem : wc ∈ me.cq := hq ▸ List.mem_cons_self
    rintro (hb | ⟨len, hb⟩ | (hb | hb | hb) | hb)
    · exact h.between (.inl (hq ▸ List.mem_cons_of_mem _ hb))
    · obtain rfl := Peer.readRemote_mem_handler hb
      exact h.between (.inl hmem)
    · exact h.between (.inr (.inr (.inl (.inl hb))))
    · exact h.between (.inr (.inr (.inl (.inr (.inl hb)))))
    · exact h.between (.inr (.inr (.inl (.inr (.inr (hq ▸ List.mem_cons_of_mem _ hb))))))
    · obtain rfl := Peer.readText_mem_handler hb
      exact h.between (.inr (.inr (.inl (.inr (.inr hmem)))))

/-- Requests may get their payload, and the oldest may be delivered. -/
theorem Recorded.serve {t' : Trace} (h : Recorded p me t) (htodo : me'.todo = me.todo)
    (hcq : me'.cq = me.cq) (hone : me'.oneSided = me.oneSided)
    (hw : me'.Writing → me.Writing) (hrd : me'.Reading → me.Reading)
    (hposted : t'.posted = t.posted) (hwritten : t'.written = t.written)
    (hacked : t'.delivered.length = me'.acks.countP Ack.isWrite)
    (hdelivered : ∀ data ∈ t'.delivered, data = p.writeText) : Recorded p me' t' := by
  have hsub : ∀ o ∈ me'.todo, o ∈ me.todo := fun _ ho => htodo ▸ ho
  refine h.keep hsub hone hw hrd hposted hacked hdelivered (by rw [hwritten]; exact h.written) ?_
  rw [hwritten]
  exact fun hb => h.between (hb.of hsub (fun hc => hcq ▸ hc) hrd)

theorem Recorded.fetch {j : ℕ} {r : Request} {data : List UInt8} (h : Recorded p me t)
    (hj : me.sq[j]? = some ⟨r, none⟩) :
    Recorded p { me with sq := me.sq.set j ⟨r, some data⟩ } t := by
  have hsub : ∀ r' ∈ me.sq.set j ⟨r, some data⟩, ∃ r'' ∈ me.sq, r''.request = r'.request := by
    intro r' hr'
    rcases List.mem_or_eq_of_mem_set hr' with hr' | rfl
    · exact ⟨r', hr', rfl⟩
    · exact ⟨_, List.mem_of_getElem? hj, rfl⟩
  have hone : { me with sq := me.sq.set j ⟨r, some data⟩ }.oneSided = me.oneSided := by
    rw [Side.oneSided, Side.outstanding_fetch hj, Side.oneSided]
  refine h.serve rfl rfl hone ?_ ?_ rfl rfl h.acked h.delivered
  · rintro (⟨r', hr', hw⟩ | hw)
    · obtain ⟨r'', hr'', he⟩ := hsub r' hr'
      exact .inl ⟨r'', hr'', he ▸ hw⟩
    · exact .inr hw
  · rintro (⟨r', hr', hw⟩ | hw)
    · obtain ⟨r'', hr'', he⟩ := hsub r' hr'
      exact .inl ⟨r'', hr'', he ▸ hw⟩
    · exact .inr hw

theorem Recorded.deliver {r : Posted} {sq : List Posted} {ack : Ack} {t' : Trace}
    (h : Recorded p me t) (hq : me.sq = r :: sq) (hk : ack.isOneSided = r.request.isOneSided)
    (hwr : ack.isWrite = r.request.isWrite) (hposted : t'.posted = t.posted)
    (hwritten : t'.written = t.written)
    (hlen : t'.delivered.length = t.delivered.length + if ack.isWrite then 1 else 0)
    (hdelivered : ∀ data ∈ t'.delivered, data = p.writeText) :
    Recorded p { me with sq, acks := me.acks ++ [ack] } t' := by
  have hmem : r ∈ me.sq := hq ▸ List.mem_cons_self
  refine h.serve rfl rfl ?_ ?_ ?_ hposted hwritten ?_ hdelivered
  · simp only [Side.oneSided, Side.outstanding, hq, List.countP_append, List.countP_nil,
      List.countP_cons, hk]
    omega
  · rintro (⟨r', hr', hw⟩ | hw | hw)
    · exact .inl ⟨r', hq ▸ List.mem_cons_of_mem _ hr', hw⟩
    · rcases List.mem_append.1 hw with hw | hw
      · exact .inr (.inl hw)
      · rw [← List.mem_singleton.1 hw] at hwr
        exact .inl ⟨r, hmem, hwr.symm⟩
    · exact .inr (.inr hw)
  · rintro (⟨r', hr', hw⟩ | ⟨data, hw⟩ | hw)
    · exact .inl ⟨r', hq ▸ List.mem_cons_of_mem _ hr', hw⟩
    · rcases List.mem_append.1 hw with hw | hw
      · exact .inr (.inl ⟨data, hw⟩)
      · refine .inl ⟨r, hmem, ?_⟩
        rw [← List.mem_singleton.1 hw] at hwr hk
        cases hreq : r.request with
        | read => rfl
        | send => rw [hreq] at hk; cases hk
        | write => rw [hreq] at hwr; cases hwr
    · exact .inr (.inr hw)
  · rw [hlen, h.acked, List.countP_append, List.countP_singleton]

theorem Recorded.deliver_write {len : ℕ} {d : CommDescriptor} {imm : Option MessageType}
    {data : List UInt8} {sq : List Posted} (h : Recorded p me t)
    (hq : me.sq = ⟨.write len d imm, some data⟩ :: sq) (hdata : data = p.writeText) :
    Recorded p { me with sq, acks := me.acks ++ [.write] } (t.deliver me) := by
  have hdel : t.deliver me = { t with delivered := t.delivered ++ [data] } := by
    simp only [Trace.deliver, hq]
  rw [hdel]
  refine h.deliver hq rfl rfl rfl rfl (List.length_append ..) ?_
  intro data' hd
  rcases List.mem_append.1 hd with hd | hd
  · exact h.delivered data' hd
  · rw [List.mem_singleton.1 hd]
    exact hdata

section
variable {ack : Ack} {acks : List Ack}

theorem Side.writing_complete (ha : me.acks = ack :: acks)
    (h : { me.land ack with acks, cq := me.cq ++ [ack.wc] }.Writing) : me.Writing := by
  rcases h with ⟨r, hr, h⟩ | h | h
  · exact .inl ⟨r, me.sq_land ack ▸ hr, h⟩
  · exact .inr (.inl (ha ▸ List.mem_cons_of_mem _ h))
  · rcases List.mem_append.1 h with h | h
    · exact .inr (.inr h)
    · cases ack with
      | write => exact .inr (.inl (ha ▸ List.mem_cons_self))
      | send | read => cases List.mem_singleton.1 h

theorem Side.reading_complete (ha : me.acks = ack :: acks)
    (h : { me.land ack with acks, cq := me.cq ++ [ack.wc] }.Reading) : me.Reading := by
  rcases h with ⟨r, hr, h⟩ | ⟨data, h⟩ | h
  · exact .inl ⟨r, me.sq_land ack ▸ hr, h⟩
  · exact .inr (.inl ⟨data, ha ▸ List.mem_cons_of_mem _ h⟩)
  · rcases List.mem_append.1 h with h | h
    · exact .inr (.inr h)
    · cases ack with
      | read data => exact .inr (.inl ⟨data, ha ▸ List.mem_cons_self⟩)
      | send | write => cases List.mem_singleton.1 h

/-- A write completes: its text is now the last one written. -/
theorem Recorded.complete_write (h : Recorded p me t) (ha : me.acks = .write :: acks) :
    Recorded p { me.land .write with acks, cq := me.cq ++ [.write] } (t.complete me) := by
  have hacked := h.acked
  simp only [ha, List.countP_cons, Ack.isWrite, if_true] at hacked
  obtain ⟨data, rest, hd⟩ : ∃ data rest, t.delivered = data :: rest :=
    List.exists_cons_of_length_pos (by omega)
  have ht : t.complete me = { t with delivered := rest, written := t.written ++ [data] } := by
    simp only [Trace.complete, ha, hd]
  rw [ht]
  refine h.keep (fun _ ho => ho) (Side.oneSided_complete ha) (Side.writing_complete ha)
    (Side.reading_complete ha) rfl ?_ ?_ ?_ fun _ => by simp
  · rw [hd, List.length_cons] at hacked
    exact Nat.succ.inj hacked
  · exact fun d hdm => h.delivered d (hd ▸ List.mem_cons_of_mem _ hdm)
  · intro d hdm
    rcases List.mem_append.1 hdm with hdm | hdm
    · exact h.written d hdm
    · rw [List.mem_singleton.1 hdm]
      exact h.delivered data (hd ▸ List.mem_cons_self)

theorem Recorded.complete_other (h : Recorded p me t) (ha : me.acks = ack :: acks)
    (hne : ack ≠ .write) :
    Recorded p { me.land ack with acks, cq := me.cq ++ [ack.wc] } (t.complete me) := by
  have ht : t.complete me = t := by
    cases ack with
    | write => exact absurd rfl hne
    | send | read => simp only [Trace.complete, ha]
  have hwc : .write ∈ me.cq ++ [ack.wc] → .write ∈ me.cq := by
    intro hmem
    rcases List.mem_append.1 hmem with hmem | hmem
    · exact hmem
    · cases ack with
      | write => exact absurd rfl hne
      | send | read => cases List.mem_singleton.1 hmem
  have hsub : ∀ o ∈ (me.land ack).todo, o ∈ me.todo := fun _ ho => me.todo_land ack ▸ ho
  rw [ht]
  refine h.keep hsub (Side.oneSided_complete ha) (Side.writing_complete ha)
    (Side.reading_complete ha) rfl ?_ h.delivered h.written
    fun hb => h.between (hb.of hsub hwc (Side.reading_complete ha))
  have hacked := h.acked
  rw [ha, List.countP_cons] at hacked
  cases ack with
  | write => exact absurd rfl hne
  | send | read => exact hacked

end

end

namespace History

variable {h h' : History} {a : SysAct}

theorem step_cases (hs : step P h a = some h') :
    Sys.step P h.sys a = some h'.sys ∧ h'.trace = h.record h'.sys a := by
  simp only [step, Option.map_eq_some_iff] at hs
  obtain ⟨s, hs, rfl⟩ := hs
  exact ⟨hs, rfl⟩

theorem reachable_sys (hr : Lts.Reachable (step P) (init P) h) :
    Lts.Reachable (Sys.step P) (Sys.init P) h.sys :=
  hr.induct (P := fun h => Lts.Reachable (Sys.step P) (Sys.init P) h.sys) (.refl _)
    fun _ _ _ hi hs => hi.tail (step_cases hs).1

end History

/-- A message arrives. -/
theorem Recorded.consume {p : Peer} {me : Side} {t : Trace} {b : Buf} {mem : ByteMem} {wc : Wc}
    (h : Recorded p me t) (hwc : wc.isOneSided = false) :
    Recorded p (Sys.consume (me.setMem b mem) wc) t := by
  refine h.frame rfl rfl rfl ?_ ?_
  · intro wc' hwc'
    simp only [Sys.consume, Side.setMem, List.mem_append, List.mem_singleton]
    refine or_iff_left ?_
    rintro rfl
    rw [hwc] at hwc'
    cases hwc'
  · simp [Side.oneSided, Side.outstanding, Sys.consume, Side.setMem, hwc]

/-- The side that a request reaches. -/
theorem Recorded.deliver_peer {p : Peer} {t : Trace} {x : Bool} {s' : Sys}
    (h : Recorded p (s.side (!x)) t) (hs : s.deliver P x = some s') :
    Recorded p (s'.side (!x)) t := by
  rcases Sys.deliver_cases hs with rfl | ⟨len, tag, data, sq, hq, -, rfl⟩ |
    ⟨len, d, data, sq, b, hq, -, rfl⟩ | ⟨len, d, tag, data, sq, b, hq, -, -, rfl⟩ |
    ⟨len, d, payload, sq, b, hq, -, rfl⟩
  · rw [Sys.set_side_not]
    exact h
  · rw [Sys.set_side_self]
    exact h.consume rfl
  · rw [Sys.set_side_self]
    exact h.frame rfl rfl rfl (fun _ _ => Iff.rfl) rfl
  · rw [Sys.set_side_self]
    exact h.consume rfl
  · rw [Sys.set_side_not]
    exact h

/-- A write carries the text of its side. -/
theorem payload_eq (hr : Lts.Reachable (Sys.step P) (Sys.init P) s) {x : Bool} {len : ℕ}
    {d : CommDescriptor} {imm : Option MessageType} {data : List UInt8} {sq : List Posted}
    (hq : (s.side x).sq = ⟨.write len d imm, some data⟩ :: sq) : data = (P x).writeText := by
  obtain ⟨-, -, hdata⟩ := (loop hr x).write len d imm (some data) (hq ▸ List.mem_cons_self)
  rcases hdata with ⟨hdata, -⟩ | hdata
  · cases hdata
  · exact Option.some.inj hdata

/-- The side that posted the request. -/
theorem Recorded.deliver_self {t : Trace} {x : Bool} {s' : Sys} (h : Recorded (P x) (s.side x) t)
    (hr : Lts.Reachable (Sys.step P) (Sys.init P) s) (hs : s.deliver P x = some s') :
    Recorded (P x) (s'.side x) (t.deliver (s.side x)) := by
  rcases Sys.deliver_cases hs with he | ⟨len, tag, data, sq, hq, -, rfl⟩ |
    ⟨len, d, data, sq, b, hq, -, rfl⟩ | ⟨len, d, tag, data, sq, b, hq, -, -, rfl⟩ |
    ⟨len, d, payload, sq, b, hq, -, rfl⟩
  · -- no request of a reachable session fails
    have hfail := failed_eq_none (hr.tail (a := .deliver x) hs) x
    rw [he, Sys.set_side_self] at hfail
    cases hfail
  · have hdel : t.deliver (s.side x) = t := by simp only [Trace.deliver, hq]
    rw [Sys.set_not_side, Sys.set_side_self, hdel]
    exact h.deliver hq rfl rfl rfl rfl rfl h.delivered
  · rw [Sys.set_not_side, Sys.set_side_self]
    exact h.deliver_write hq (payload_eq hr hq)
  · rw [Sys.set_not_side, Sys.set_side_self]
    exact h.deliver_write hq (payload_eq hr hq)
  · have hdel : t.deliver (s.side x) = t := by simp only [Trace.deliver, hq]
    rw [Sys.set_side_self, hdel]
    exact h.deliver hq rfl rfl rfl rfl rfl h.delivered

/-- Both sides of a step, from the side that acts and its peer. -/
theorem recorded_both {x : Bool} {h h' : History}
    (hx : Recorded (P x) (h'.sys.side x) (h'.trace x))
    (hy : Recorded (P (!x)) (h'.sys.side (!x)) (h.trace (!x)))
    (ht : h'.trace (!x) = h.trace (!x)) (y : Bool) :
    Recorded (P y) (h'.sys.side y) (h'.trace y) := by
  revert y
  rw [Bool.forall_bool' x]
  exact ⟨hx, ht ▸ hy⟩

theorem Recorded.step {h h' : History} {a : SysAct}
    (hr : Lts.Reachable (History.step P) (History.init P) h)
    (hrec : ∀ x, Recorded (P x) (h.sys.side x) (h.trace x))
    (hs : History.step P h a = some h') (y : Bool) :
    Recorded (P y) (h'.sys.side y) (h'.trace y) := by
  have hreach := History.reachable_sys hr
  have hreach' := History.reachable_sys (hr.tail hs)
  obtain ⟨ha, htr⟩ := History.step_cases hs
  have hne : ∀ (x : Bool) (t : Trace), Function.update h.trace x t (!x) = h.trace (!x) :=
    fun x t => Function.update_of_ne (Bool.not_ne_self x) ..
  cases a with
  | exec x =>
    obtain ⟨o, todo, me', ht, hp, hself, hpeer⟩ := exec_ok hreach ha
    have htx : h'.trace x = (h.trace x).exec (h.sys.side x) { me' with todo } := by
      rw [htr, History.record, Function.update_self, hself]
    refine recorded_both (x := x) (h := h) ?_ ?_ (by rw [htr]; exact hne ..) y
    · rw [htx, hself]
      by_cases ho : o.isOneSided = true
      · exact (hrec x).exec_oneSided (oneSided_le_one hreach x) ht hp ho
      · exact (hrec x).exec_other ht hp ho
    · rw [hpeer]
      exact hrec (!x)
  | poll x =>
    simp only [Sys.step, Option.ite_none_right_eq_some] at ha
    obtain ⟨wc, cq, ht, hq, he⟩ := Sys.poll_cases ha.2
    refine recorded_both (x := x) (h := h) ?_ ?_ (by rw [htr]; rfl) y
    · have hle := oneSided_le_one hreach' x
      rw [he, Sys.set_side_self] at hle
      rw [htr, he, Sys.set_side_self]
      refine (hrec x).poll ht hq fun hkey => ?_
      simp only [Side.oneSided, Side.outstanding, (P x).countP_isOneSided_handler, hkey,
        Option.toList_some, List.count_singleton_self] at hle
      simp only [Side.oneSided, Side.outstanding, ht, hq, List.countP_cons, List.countP_nil]
      omega
    · rw [he, Sys.set_side_not]
      exact hrec (!x)
  | fetch x j =>
    obtain ⟨r, b, len, hj, -, he⟩ := Sys.fetch_cases ha
    refine recorded_both (x := x) (h := h) ?_ ?_ (by rw [htr]; rfl) y
    · rw [htr, he, Sys.set_side_self]
      exact (hrec x).fetch hj
    · rw [he, Sys.set_side_not]
      exact hrec (!x)
  | deliver x =>
    have htx : h'.trace x = (h.trace x).deliver (h.sys.side x) := by
      rw [htr, History.record, Function.update_self]
    refine recorded_both (x := x) (h := h) ?_ ?_ (by rw [htr]; exact hne ..) y
    · rw [htx]
      exact (hrec x).deliver_self hreach ha
    · exact (hrec (!x)).deliver_peer ha
  | complete x =>
    obtain ⟨ack, acks, hacks, he⟩ := Sys.complete_cases ha
    have htx : h'.trace x = (h.trace x).complete (h.sys.side x) := by
      rw [htr, History.record, Function.update_self]
    refine recorded_both (x := x) (h := h) ?_ ?_ (by rw [htr]; exact hne ..) y
    · rw [htx, he, Sys.set_side_self]
      by_cases hack : ack = .write
      · subst hack
        exact (hrec x).complete_write hacks
      · exact (hrec x).complete_other hacks hack
    · rw [he, Sys.set_side_not]
      exact hrec (!x)

theorem recorded {h : History} (hr : Lts.Reachable (History.step P) (History.init P) h) (x : Bool) :
    Recorded (P x) (h.sys.side x) (h.trace x) := by
  refine (hr.induct (P := fun h => Lts.Reachable (History.step P) (History.init P) h ∧
    ∀ x, Recorded (P x) (h.sys.side x) (h.trace x)) ⟨.refl _, fun x => .init (P x)⟩ ?_).2 x
  intro h a h' ⟨hr, hrec⟩ hs
  exact ⟨hr.tail hs, Recorded.step hr hrec hs⟩

/-! ## The loop -/

/-- The text has no NUL if the identity of the channel has none. -/
theorem Peer.ne_zero_of_mem_writeText {p : Peer} (h : ∀ b ∈ p.info, b ≠ 0) :
    ∀ b ∈ p.writeText, b ≠ 0 := by
  rintro b hb rfl
  exact h 0 (p.zero_mem_writeText.1 hb) rfl

/-- What is read back is the text that was written. -/
theorem cstr_landed (hr : Lts.Reachable (Sys.step P) (Sys.init P) s) {x : Bool}
    (hnul : ∀ b ∈ (P x).info, b ≠ 0)
    (hl : .read ∈ (s.side x).cq ∨ .readText .read ∈ (s.side x).todo) :
    ((s.side x).mem .read).cstr 0 Buf.read.size = (P x).writeText := by
  have hlt := (P x).length_writeText_lt
  have hblock : (P x).block = (P x).writeText ++
      0 :: List.replicate (Buf.sink.blockSize - (P x).writeText.length - 1) 0 := by
    rw [Peer.block, ← List.replicate_succ]
    congr 2
    omega
  have hread := (loop hr x).landed hl
  rw [hblock] at hread
  exact ByteMem.cstr_eq (by decide) hread (Peer.ne_zero_of_mem_writeText hnul)

/-- **The one-sided loop.**  In every run, a side has at most one write or read
    outstanding; it posts them in turn, starting with the write with
    notification that answers the key; no `CHECK` fails, and the buffers are
    found under their names; and a completed read has brought back the text of
    the last write that has completed. -/
theorem one_sided_loop (hnul : ∀ x, ∀ b ∈ (P x).info, b ≠ 0) {h : History}
    (hr : Lts.Reachable (History.step P) (History.init P) h) (x : Bool) :
    (h.sys.side x).outstanding ≤ 1 ∧
    (∀ (i : ℕ) r, (h.trace x).posted[i]? = some r → r.Fits i) ∧
    ((h.trace x).posted ≠ [] → .send .requestExchangeKey ∈ (h.sys.side x).handled) ∧
    (h.sys.side x).failed = none ∧
    (∀ id, ∃ owningBuffers, registerNames id = .ok owningBuffers ∧
      ∀ b : Buf, owningBuffers.lookup (b.bufferName id) = some b) ∧
    (.read ∈ (h.sys.side x).cq ∨ .readText .read ∈ (h.sys.side x).todo →
      (h.trace x).written.getLast? =
        some (((h.sys.side x).mem .read).cstr 0 Buf.read.size)) := by
  have hreach := History.reachable_sys hr
  have hrec := recorded hr x
  refine ⟨?_, hrec.fits, ?_, failed_eq_none hreach x, registerNames_ok, ?_⟩
  · have hle := oneSided_le_one hreach x
    simp only [Side.oneSided] at hle
    omega
  · intro hne
    rw [← List.count_pos_iff, ← oneSided_eq hreach x]
    exact Nat.pos_of_ne_zero fun h0 => hne (hrec.unposted h0)
  · intro hl
    have hb : (h.sys.side x).Between := by
      rcases hl with hl | hl
      · exact .inr (.inr (.inl (.inr (.inr hl))))
      · exact .inr (.inr (.inr hl))
    have hne := hrec.between hb
    rw [cstr_landed hreach (hnul x) hl, List.getLast?_eq_some_getLast hne]
    exact congrArg some (hrec.written _ (List.getLast_mem hne))

/-- Greetings, keys, responses and writes go back and forth until the first read
    of A has completed. -/
def readRun : List SysAct :=
  [List.replicate 4 (.exec true), List.replicate 4 (.exec false), List.replicate 5 (.exec true),
    List.replicate 5 (.exec false),
    [.fetch true 0, .fetch false 0, .deliver true, .complete true, .poll true, .poll false],
    List.replicate 6 (.exec false), [.fetch false 1, .deliver false, .complete false, .poll true],
    List.replicate 6 (.exec true),
    [.poll false, .fetch true 0, .deliver true, .complete true, .poll true, .poll false],
    List.replicate 10 (.exec false),
    [.fetch false 1, .fetch false 2, .deliver false, .complete false, .poll true],
    List.replicate 10 (.exec true),
    [.poll false, .fetch true 0, .fetch true 1, .deliver true, .complete true, .poll true,
      .poll false],
    List.replicate 6 (.exec false), [.fetch false 2, .deliver true, .complete true, .poll true],
    List.replicate 3 (.exec true),
    [.poll false, .exec false, .deliver true, .complete true]].flatten

theorem one_sided_loop_readRun :
    ∃ h, Lts.Reachable (History.step Peer.pair) (History.init Peer.pair) h ∧
      (h.trace true).posted.length = 2 ∧ .read ∈ (h.sys.side true).cq ∧
      (h.trace true).written.getLast? =
        some (((h.sys.side true).mem .read).cstr 0 Buf.read.size) := by
  have hrun : (Lts.run (History.step Peer.pair) (History.init Peer.pair) readRun).any
      (fun h => (h.trace true).posted.length = 2 &&
        (h.sys.side true).cq.any fun | .read => true | _ => false) = true := by decide +kernel
  obtain ⟨h, hr, hp⟩ := Lts.Reachable.of_any hrun
  simp only [Bool.and_eq_true, decide_eq_true_eq, List.any_eq_true] at hp
  obtain ⟨hlen, wc, hmem, hwc⟩ := hp
  have hread : .read ∈ (h.sys.side true).cq := by
    cases wc with
    | read => exact hmem
    | _ => cases hwc
  have hnul : ∀ x, ∀ b ∈ (Peer.pair x).info, b ≠ 0 := by decide +kernel
  exact ⟨h, hr, hlen, hread, (one_sided_loop hnul hr true).2.2.2.2.2 (.inl hread)⟩

end RdmaCore

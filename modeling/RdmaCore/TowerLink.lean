/-
  One channel of the service of example/mesh_comm_service.cc: what its two
  sides do while the thread of the server also serves other channels.

  * `Link`: the two sides of a channel, each with what is left for it to do and
    the completions of the channel that are not handled;
  * `Service.step_link`: a step of the service that fails no thread is a step
    of one channel, and leaves the others as they are;
  * `Owned`: the thread of a client serves its own channel only.
-/
import RdmaCore.Towers

namespace RdmaCore

namespace Tower

variable {n : ℕ}

/-! ## The entries of a channel -/

/-- The entries of the channel `c` in a list of a thread. -/
def ofChan {α : Type} (c : Fin n) (l : List (Fin n × α)) : List α :=
  (l.filter (·.1 = c)).map (·.2)

section
variable {α : Type} {c c' : Fin n} (a : α) (l k : List (Fin n × α))

@[simp] theorem ofChan_nil : ofChan c ([] : List (Fin n × α)) = [] := rfl

@[simp] theorem ofChan_cons_self : ofChan c ((c, a) :: l) = a :: ofChan c l := by simp [ofChan]

theorem ofChan_cons_of_ne (h : c' ≠ c) : ofChan c ((c', a) :: l) = ofChan c l := by
  simp [ofChan, h]

@[simp] theorem ofChan_append : ofChan c (k ++ l) = ofChan c k ++ ofChan c l := by simp [ofChan]

@[simp] theorem ofChan_map_self (l : List α) : ofChan c (l.map (c, ·)) = l := by
  induction l with
  | nil => rfl
  | cons a l ih => rw [List.map_cons, ofChan_cons_self, ih]

theorem ofChan_map_of_ne (h : c' ≠ c) (l : List α) : ofChan c (l.map (c', ·)) = [] := by
  induction l with
  | nil => rfl
  | cons a l ih => rw [List.map_cons, ofChan_cons_of_ne _ _ h, ih]

/-- The entries of every channel of a list in turn. -/
theorem ofChan_flatMap {cs : List (Fin n)} (hcs : cs.Nodup) (f : Fin n → List α) :
    ofChan c (cs.flatMap fun c => (f c).map (c, ·)) = if c ∈ cs then f c else [] := by
  induction cs with
  | nil => rfl
  | cons c' cs ih =>
    rw [List.flatMap_cons, ofChan_append, ih (List.nodup_cons.1 hcs).2]
    by_cases h : c' = c
    · subst h
      simp [(List.nodup_cons.1 hcs).1]
    · simp [ofChan_map_of_ne h, Ne.symm h]

theorem countP_ofChan (p : α → Bool) {l : List (Fin n × α)} :
    (ofChan c l).countP p = l.countP fun e => e.1 = c ∧ p e.2 = true := by
  rw [ofChan, List.countP_map, List.countP_filter]
  congr 1; funext e
  simp [Bool.and_comm]

end

/-! ## A channel -/

/-- One side of a channel. -/
structure LinkEnd where
  /-- what is left for the channel of the start or of its handler -/
  todo : List Op
  /-- completions of the channel that are not handled -/
  cq : List Wc := []
  chan : Chan

structure Link where
  side : Bool → LinkEnd
  synced : Bool → ℕ

namespace Link

def set (l : Link) (x : Bool) (e : LinkEnd) : Link :=
  { l with side := Function.update l.side x e }

def setSynced (l : Link) (x : Bool) (k : ℕ) : Link :=
  { l with synced := Function.update l.synced x k }

variable (l : Link) (x : Bool) (e : LinkEnd) (k : ℕ)

@[simp] theorem set_side_self : (l.set x e).side x = e := Function.update_self ..

@[simp] theorem set_side_not : (l.set x e).side (!x) = l.side (!x) :=
  Function.update_of_ne (Bool.not_ne_self x) ..

@[simp] theorem set_not_side : (l.set (!x) e).side x = l.side x :=
  Function.update_of_ne (Bool.self_ne_not x) ..

@[simp] theorem set_set (e' : LinkEnd) : (l.set x e).set x e' = l.set x e' := by
  simp [set]

@[simp] theorem set_synced : (l.set x e).synced = l.synced := rfl

@[simp] theorem setSynced_side : (l.setSynced x k).side = l.side := rfl

end Link

/-- The channel `c` of a service. -/
def Service.link (s : Service n) (c : Fin n) : Link where
  side := fun x => {
    todo := ofChan c (s.thread (threadOf x c)).todo
    cq := ofChan c ((s.thread (threadOf x c)).batch ++ (s.thread (threadOf x c)).cq)
    chan := s.chan x c }
  synced := fun x => s.synced x c

/-- What a step of a channel does. -/
inductive Link.Label where
  | op (x : Bool) (o : Op)
  | handle (x : Bool) (wc : Wc)
  | fetch (x : Bool)
  | deliver (x : Bool) (k : Kind)
  | report (x : Bool) (k : Kind)
  deriving DecidableEq

/-- One step of a channel. -/
inductive Link.Step : Link → Link.Label → Link → Prop where
  | perform {l : Link} {x : Bool} {o : Op} {todo : List Op} {reported : Bool → ℕ} {me : Chan}
      (ht : (l.side x).todo = o :: todo) (hs : o ≠ .syncSend) (hr : o ≠ .syncRecv)
      (hp : (l.side x).chan.perform reported o = .ok me) :
      Step l (.op x o) (l.set x { l.side x with todo, chan := me })
  | syncSend {l : Link} {x : Bool} {todo : List Op} (ht : (l.side x).todo = .syncSend :: todo) :
      Step l (.op x .syncSend) ((l.set x { l.side x with todo }).setSynced x (l.synced x + 1))
  | syncRecv {l : Link} {x : Bool} {todo : List Op} (ht : (l.side x).todo = .syncRecv :: todo)
      (hs : 0 < l.synced (!x)) :
      Step l (.op x .syncRecv)
        ((l.set x { l.side x with todo }).setSynced (!x) (l.synced (!x) - 1))
  | handle {l : Link} {x : Bool} {wc : Wc} {cq : List Wc} (ht : (l.side x).todo = [])
      (hq : (l.side x).cq = wc :: cq) :
      Step l (.handle x wc) (l.set x { l.side x with todo := handler x wc, cq })
  | fetch {l : Link} {x : Bool} {j : ℕ} {r : Request}
      (hj : (l.side x).chan.sq[j]? = some ⟨r, none⟩) :
      Step l (.fetch x) (l.set x { l.side x with
        chan := { (l.side x).chan with
          sq := (l.side x).chan.sq.set j
            ⟨r, some ((l.side x).chan.sendMem.read (r.block * blockSize) r.len)⟩ } })
  | message {l : Link} {x : Bool} {b len i : ℕ} {tag : MsgDataChannel} {data : List UInt8}
      {sq : List Posted} {rq : List ℕ}
      (hq : (l.side x).chan.sq = ⟨.send b len tag, some data⟩ :: sq)
      (hr : (l.side (!x)).chan.rq = i :: rq) :
      Step l (.deliver x .send)
        ((l.set x { l.side x with
          chan := { (l.side x).chan with sq, acks := (l.side x).chan.acks ++ [.send] } }).set (!x)
          { l.side (!x) with
            chan := { (l.side (!x)).chan with
              rq
              recvMem := (l.side (!x)).chan.recvMem.write (i * blockSize) data }
            cq := (l.side (!x)).cq ++ [.recv tag.toImm] })
  | write {l : Link} {x : Bool} {b len a : ℕ} {d : CommDescriptor} {data : List UInt8}
      {sq : List Posted} (hq : (l.side x).chan.sq = ⟨.write b len d, some data⟩ :: sq)
      (ha : (l.side (!x)).chan.offset d len = some a) :
      Step l (.deliver x .write)
        ((l.set x { l.side x with
          chan := { (l.side x).chan with sq, acks := (l.side x).chan.acks ++ [.write] } }).set (!x)
          { l.side (!x) with
            chan := { (l.side (!x)).chan with
              sendMem := (l.side (!x)).chan.sendMem.write a data } })
  | report {l : Link} {x : Bool} {k : Kind} {acks : List Kind}
      (ha : (l.side x).chan.acks = k :: acks) :
      Step l (.report x k) (l.set x { l.side x with
        chan := { (l.side x).chan with acks }
        cq := (l.side x).cq ++ [.sent k] })

/-! ## Projection -/

/-- All entries of a thread are those of one channel. -/
structure Thread.OwnedBy (th : Thread n) (c : Fin n) : Prop where
  todo : ∀ e ∈ th.todo, e.1 = c
  batch : ∀ e ∈ th.batch, e.1 = c
  cq : ∀ e ∈ th.cq, e.1 = c

/-- A client's thread serves its own channel. -/
def Service.Owned (s : Service n) : Prop := ∀ c, (s.thread (some c)).OwnedBy c

/-- A step of the channel `c` that leaves the other channels as they are. -/
structure Service.StepIn (s : Service n) (c : Fin n) (lab : Link.Label) (s' : Service n) :
    Prop where
  step : Link.Step (s.link c) lab (s'.link c)
  frame : ∀ c', c' ≠ c → s'.link c' = s.link c'

namespace Service

variable {s s' : Service n} {x : Bool} {c c' : Fin n}

theorem threadOf_eq_iff {y : Bool} :
    threadOf y c = threadOf x c' ↔ y = x ∧ (x = false → c = c') := by
  cases x <;> cases y <;> simp [threadOf]

@[simp] theorem isNone_threadOf : (threadOf x c).isNone = x := by cases x <;> rfl

theorem link_todo : ((s.link c).side x).todo = ofChan c (s.thread (threadOf x c)).todo := rfl

theorem link_cq : ((s.link c).side x).cq =
    ofChan c (s.thread (threadOf x c)).batch ++ ofChan c (s.thread (threadOf x c)).cq :=
  ofChan_append ..

@[simp] theorem link_chan : ((s.link c).side x).chan = s.chan x c := rfl

@[simp] theorem link_synced : (s.link c).synced x = s.synced x c := rfl

/-- A thread that changes what it has to do for one channel. -/
theorem link_setThread (th : Thread n) (htodo : c ≠ c' → ofChan c th.todo =
      ofChan c (s.thread (threadOf x c')).todo)
    (hcq : c ≠ c' → ofChan c (th.batch ++ th.cq) =
      ofChan c ((s.thread (threadOf x c')).batch ++ (s.thread (threadOf x c')).cq)) :
    (s.setThread (threadOf x c') th).link c =
      if c = c' then (s.link c).set x
        { (s.link c).side x with todo := ofChan c th.todo, cq := ofChan c (th.batch ++ th.cq) }
      else s.link c := by
  split_ifs with hc
  · subst hc
    simp only [link, Link.set, setThread, Link.mk.injEq, and_true]
    funext y
    by_cases hy : y = x
    · subst hy; simp
    · have hne : threadOf y c ≠ threadOf x c := fun h => hy (threadOf_eq_iff.1 h).1
      simp [hy, hne]
  · simp only [link, setThread, Link.mk.injEq, and_true]
    funext y
    by_cases hy : threadOf y c = threadOf x c'
    · simp only [hy, Function.update_self, htodo hc, hcq hc]
    · simp only [Function.update_of_ne hy]

theorem link_setChan {me : Chan} : (s.setChan x c' me).link c =
    if c = c' then (s.link c).set x { (s.link c).side x with chan := me } else s.link c := by
  split_ifs with hc
  · subst hc
    simp only [link, Link.set, setChan, Link.mk.injEq, and_true]
    funext y
    by_cases hy : y = x
    · subst hy; simp
    · simp [hy]
  · simp only [link, setChan, Link.mk.injEq, and_true]
    funext y
    by_cases hy : y = x
    · subst hy; simp [hc]
    · simp [hy]

theorem link_setSynced {k : ℕ} : (s.setSynced x c' k).link c =
    if c = c' then (s.link c).setSynced x k else s.link c := by
  split_ifs with hc
  · subst hc
    simp only [link, Link.setSynced, setSynced, Link.mk.injEq, true_and]
    funext y
    by_cases hy : y = x
    · subst hy; simp
    · simp [hy]
  · simp only [link, setSynced, Link.mk.injEq, true_and]
    funext y
    by_cases hy : y = x
    · subst hy; simp [hc]
    · simp [hy]

theorem link_push {wc : Wc} : (s.push x c' wc).link c =
    if c = c' then (s.link c).set x { (s.link c).side x with cq := ((s.link c).side x).cq ++ [wc] }
    else s.link c := by
  rw [push, link_setThread]
  · split_ifs with hc
    · subst hc
      rw [← List.append_assoc, ofChan_append, ofChan_cons_self, ofChan_nil]
      rfl
    · rfl
  · intro _
    rfl
  · intro hc
    rw [← List.append_assoc, ofChan_append, ofChan_cons_of_ne _ _ (Ne.symm hc), ofChan_nil,
      List.append_nil]

/-! ### The steps -/

variable {t : ThreadId n}

/-- A thread runs the operations of its own channels. -/
theorem Owned.threadOf_todo (h : s.Owned) {e : Fin n × Op} (he : e ∈ (s.thread t).todo) :
    t = threadOf t.isNone e.1 := by
  cases t with
  | none => rfl
  | some c => rw [(h c).todo e he]; rfl

theorem Owned.threadOf_batch (h : s.Owned) {e : Fin n × Wc} (he : e ∈ (s.thread t).batch) :
    t = threadOf t.isNone e.1 := by
  cases t with
  | none => rfl
  | some c => rw [(h c).batch e he]; rfl

/-- The next operation of a thread is that of its channel. -/
theorem todo_self {o : Op} {todo : List (Fin n × Op)}
    (ht : (s.thread (threadOf x c)).todo = (c, o) :: todo) :
    ((s.link c).side x).todo = o :: ofChan c todo := by
  rw [link_todo, ht, ofChan_cons_self]

theorem todo_of_ne {o : Op} {todo : List (Fin n × Op)}
    (ht : (s.thread (threadOf x c')).todo = (c', o) :: todo) (hc : c ≠ c') :
    ofChan c todo = ofChan c (s.thread (threadOf x c')).todo := by
  rw [ht, ofChan_cons_of_ne _ _ (Ne.symm hc)]

/-- What the next operation of a thread does. -/
theorem exec_cases (ho : s.Owned) (h : s.exec t = some s') :
    ∃ x c o todo, t = threadOf x c ∧ (s.thread (threadOf x c)).todo = (c, o) :: todo ∧
      ((o = .syncSend ∧ s' = (s.setThread (threadOf x c)
          { s.thread (threadOf x c) with todo }).setSynced x c (s.synced x c + 1)) ∨
        (o = .syncRecv ∧ 0 < s.synced (!x) c ∧ s' = (s.setThread (threadOf x c)
          { s.thread (threadOf x c) with todo }).setSynced (!x) c (s.synced (!x) c - 1)) ∨
        (o ≠ .syncSend ∧ o ≠ .syncRecv ∧
          ((∃ me, (s.chan x c).perform ((s.thread (threadOf x c)).reported c) o = .ok me ∧
              s' = (s.setThread (threadOf x c)
                { s.thread (threadOf x c) with todo }).setChan x c me) ∨
            ∃ f, (s.chan x c).perform ((s.thread (threadOf x c)).reported c) o = .error f ∧
              s' = s.fail (threadOf x c) f))) := by
  unfold exec at h
  cases hcons : (s.thread t).todo with
  | nil => simp only [hcons] at h; cases h
  | cons e todo =>
    obtain ⟨c, o⟩ := e
    have ht := ho.threadOf_todo (hcons ▸ List.mem_cons_self)
    simp only at ht
    rw [ht] at h hcons
    generalize t.isNone = x at h hcons ht
    refine ⟨x, c, o, todo, ht, hcons, ?_⟩
    simp only [hcons, isNone_threadOf] at h
    split at h
    · next he => cases he
    · next he =>
      obtain ⟨⟨rfl, rfl⟩, rfl⟩ := by simpa using he
      exact .inl ⟨rfl, (Option.some.inj h).symm⟩
    · next he =>
      obtain ⟨⟨rfl, rfl⟩, rfl⟩ := by simpa using he
      split_ifs at h with hs
      exact .inr (.inl ⟨rfl, hs, (Option.some.inj h).symm⟩)
    · next hsend hrecv he =>
      obtain ⟨⟨rfl, rfl⟩, rfl⟩ := by simpa using he
      refine .inr (.inr ⟨fun h => hsend (by rw [h]), fun h => hrecv (by rw [h]), ?_⟩)
      split at h
      · next me hp => exact .inl ⟨me, hp, (Option.some.inj h).symm⟩
      · next f hp => exact .inr ⟨f, hp, (Option.some.inj h).symm⟩

theorem failed_fail (s : Service n) (t : ThreadId n) (f : Failure) :
    ((s.fail t f).thread t).failed = some f := by
  simp [fail, setThread]

theorem StepIn.of_ite {lab : Link.Label} {l : Link}
    (h : ∀ c', s'.link c' = if c' = c then l else s.link c') (hs : Link.Step (s.link c) lab l) :
    s.StepIn c lab s' where
  step := by rw [h, if_pos rfl]; exact hs
  frame c' hc := by rw [h, if_neg hc]

theorem stepIn_exec (ho : s.Owned) (h : s.exec t = some s')
    (hf : ∀ t, (s'.thread t).failed = none) : ∃ c x o, s.StepIn c (.op x o) s' := by
  obtain ⟨x, c', o, todo, -, ht,
    ⟨rfl, rfl⟩ | ⟨rfl, hs, rfl⟩ | ⟨hs, hr, ⟨me, hp, rfl⟩ | ⟨f, -, rfl⟩⟩⟩ := exec_cases ho h
  · refine ⟨c', x, .syncSend, .of_ite (fun c => ?_) (.syncSend (todo_self ht))⟩
    rw [link_setSynced, link_setThread _ (fun hc => todo_of_ne ht hc) (fun _ => by rfl)]
    split_ifs with hc
    · subst hc; rfl
    · rfl
  · refine ⟨c', x, .syncRecv, .of_ite (fun c => ?_) (.syncRecv (todo_self ht) hs)⟩
    rw [link_setSynced, link_setThread _ (fun hc => todo_of_ne ht hc) (fun _ => by rfl)]
    split_ifs with hc
    · subst hc; rfl
    · rfl
  · refine ⟨c', x, o, .of_ite (fun c => ?_) (.perform (todo_self ht) hs hr hp)⟩
    rw [link_setChan, link_setThread _ (fun hc => todo_of_ne ht hc) (fun _ => by rfl)]
    split_ifs with hc
    · subst hc
      rw [Link.set_side_self, Link.set_set]
      rfl
    · rfl
  · have := hf (threadOf x c')
    rw [failed_fail] at this
    cases this

theorem link_poll {k : ℕ} (h : s.poll t k = some s') (c : Fin n) : s'.link c = s.link c := by
  unfold poll at h
  simp only at h
  split_ifs at h with hp
  obtain rfl := Option.some.inj h
  simp only [link, setThread, Link.mk.injEq, and_true]
  funext x
  by_cases ht : threadOf x c = t
  · simp only [ht, Function.update_self, hp.2.1, List.take_append_drop, List.nil_append]
  · simp only [Function.update_of_ne ht]

theorem stepIn_handle (ho : s.Owned) (h : s.handle t = some s') :
    ∃ c wc batch, (s.thread t).batch = (c, wc) :: batch ∧ s.StepIn c (.handle t.isNone wc) s' := by
  unfold handle at h
  simp only at h
  split at h
  · next c' wc batch ht hb =>
    have hx := ho.threadOf_batch (hb ▸ List.mem_cons_self)
    simp only at hx
    refine ⟨c', wc, batch, hb, ?_⟩
    rw [hx] at h ht hb ⊢
    generalize t.isNone = x at h ht hb ⊢
    simp only [isNone_threadOf, Option.some.injEq] at h ⊢
    subst h
    have htodo : ((s.link c').side x).todo = [] := by rw [link_todo, ht, ofChan_nil]
    have hcq : ((s.link c').side x).cq =
        wc :: ofChan c' (batch ++ (s.thread (threadOf x c')).cq) := by
      rw [link_cq, hb, ofChan_cons_self, ofChan_append, List.cons_append]
    refine .of_ite (fun c => ?_) (.handle htodo hcq)
    rw [link_setThread]
    · split_ifs with hc
      · subst hc
        rw [ofChan_map_self]
      · rfl
    · intro hc
      rw [ht, ofChan_map_of_ne (Ne.symm hc), ofChan_nil]
    · intro hc
      rw [hb, ofChan_append, ofChan_append, ofChan_cons_of_ne _ _ (Ne.symm hc)]
  · cases h

theorem stepIn_fetch {x : Bool} {c' : Fin n} {j : ℕ} (h : s.fetch x c' j = some s') :
    s.StepIn c' (.fetch x) s' := by
  unfold fetch at h
  simp only at h
  split at h
  · next r hj =>
    obtain rfl := Option.some.inj h
    refine .of_ite (fun c => ?_) (.fetch hj)
    rw [link_setChan]
    split_ifs with hc
    · subst hc; rfl
    · rfl
  · cases h

/-- What the delivery of a request does. -/
theorem deliver_cases {x : Bool} {c : Fin n} (h : s.deliver x c = some s') :
    (∃ b len tag data sq i rq, (s.chan x c).sq = ⟨.send b len tag, some data⟩ :: sq ∧
        (s.chan (!x) c).rq = i :: rq ∧
        ((len ≤ blockSize ∧ s' = ((s.setChan x c { s.chan x c with
              sq, acks := (s.chan x c).acks ++ [.send] }).setChan (!x) c { s.chan (!x) c with
                rq
                recvMem := (s.chan (!x) c).recvMem.write (i * blockSize) data }).push (!x) c
                  (.recv tag.toImm)) ∨
          (blockSize < len ∧ s' = s.fail (threadOf x c) .unsuccessWqe))) ∨
      ∃ b len d data sq, (s.chan x c).sq = ⟨.write b len d, some data⟩ :: sq ∧
        ((∃ a, (s.chan (!x) c).offset d len = some a ∧ s' = (s.setChan x c { s.chan x c with
              sq, acks := (s.chan x c).acks ++ [.write] }).setChan (!x) c { s.chan (!x) c with
                sendMem := (s.chan (!x) c).sendMem.write a data }) ∨
          ((s.chan (!x) c).offset d len = none ∧ s' = s.fail (threadOf x c) .unsuccessWqe)) := by
  unfold deliver at h
  simp only at h
  split at h
  · next b len tag data sq hq =>
    split at h
    · cases h
    · next i rq hr =>
      refine .inl ⟨b, len, tag, data, sq, i, rq, hq, hr, ?_⟩
      split_ifs at h with hlen
      · exact .inl ⟨hlen, (Option.some.inj h).symm⟩
      · exact .inr ⟨by omega, (Option.some.inj h).symm⟩
  · next b len d data sq hq =>
    refine .inr ⟨b, len, d, data, sq, hq, ?_⟩
    split at h
    · next a ha => exact .inl ⟨a, ha, (Option.some.inj h).symm⟩
    · next ha => exact .inr ⟨ha, (Option.some.inj h).symm⟩
  · cases h

theorem stepIn_deliver {x : Bool} {c' : Fin n} (h : s.deliver x c' = some s')
    (hf : ∀ t, (s'.thread t).failed = none) :
    ∃ k, s.StepIn c' (.deliver x k) s' ∧ (k = .write → s'.thread = s.thread) := by
  obtain ⟨b, len, tag, data, sq, i, rq, hq, hr, ⟨-, rfl⟩ | ⟨-, rfl⟩⟩ |
    ⟨b, len, d, data, sq, hq, ⟨a, ha, rfl⟩ | ⟨-, rfl⟩⟩ := deliver_cases h
  · refine ⟨.send, .of_ite (fun c => ?_) (.message hq hr), nofun⟩
    rw [link_push, link_setChan, link_setChan]
    split_ifs with hc
    · subst hc
      rw [Link.set_side_self, Link.set_set, Link.set_side_not]
      rfl
    · rfl
  · have := hf (threadOf x c')
    rw [failed_fail] at this
    cases this
  · refine ⟨.write, .of_ite (fun c => ?_) (.write hq ha), fun _ => rfl⟩
    rw [link_setChan, link_setChan]
    split_ifs with hc
    · subst hc
      rw [Link.set_side_not]
      rfl
    · rfl
  · have := hf (threadOf x c')
    rw [failed_fail] at this
    cases this

theorem stepIn_complete {x : Bool} {c' : Fin n} (h : s.complete x c' = some s') :
    ∃ k, s.StepIn c' (.report x k) s' := by
  unfold complete at h
  simp only at h
  split at h
  · cases h
  · next k acks ha =>
    obtain rfl := Option.some.inj h
    refine ⟨k, .of_ite (fun c => ?_) (.report ha)⟩
    rw [link_push, link_setChan]
    split_ifs with hc
    · subst hc
      rw [Link.set_side_self, Link.set_set]
      rfl
    · rfl

/-- **Isolation of the channels**: a step of the service that fails no thread
    is a step of one channel and leaves the others as they are, unless it only
    polls completions. -/
theorem step_link {a : Act n} (ho : s.Owned) (h : s.step a = some s')
    (hf : ∀ t, (s'.thread t).failed = none) :
    (∃ t k, a = .poll t k ∧ ∀ c, s'.link c = s.link c) ∨ ∃ c lab, s.StepIn c lab s' := by
  cases a with
  | exec t =>
    simp only [step, Option.ite_none_right_eq_some] at h
    obtain ⟨c, x, o, hs⟩ := stepIn_exec ho h.2 hf
    exact .inr ⟨c, _, hs⟩
  | poll t k =>
    simp only [step, Option.ite_none_right_eq_some] at h
    exact .inl ⟨t, k, rfl, link_poll h.2⟩
  | handle t =>
    simp only [step, Option.ite_none_right_eq_some] at h
    obtain ⟨c, wc, -, -, hs⟩ := stepIn_handle ho h.2
    exact .inr ⟨c, _, hs⟩
  | fetch x c' j => exact .inr ⟨c', _, stepIn_fetch h⟩
  | deliver x c' =>
    obtain ⟨k, hs, -⟩ := stepIn_deliver h hf
    exact .inr ⟨c', _, hs⟩
  | complete x c' =>
    obtain ⟨k, hs⟩ := stepIn_complete h
    exact .inr ⟨c', _, hs⟩

/-- What every step of a channel keeps, a step of the service keeps. -/
theorem step_forall_link {I : Fin n → Link → Prop} {a : Act n} (ho : s.Owned)
    (h : s.step a = some s') (hf : ∀ t, (s'.thread t).failed = none) (hI : ∀ c, I c (s.link c))
    (hstep : ∀ c l lab l', I c l → Link.Step l lab l' → I c l') (c : Fin n) : I c (s'.link c) := by
  obtain ⟨-, -, -, heq⟩ | ⟨c', lab, hs⟩ := step_link ho h hf
  · rw [heq]; exact hI c
  · by_cases hc : c = c'
    · subst hc; exact hstep _ _ _ _ (hI c) hs.step
    · rw [hs.frame c hc]; exact hI c

/-! ### The threads of the clients -/

theorem owned_init (P : Bool → Fin n → Placement) : (init P).Owned := by
  intro c
  refine ⟨?_, ?_, ?_⟩ <;> simp [init, Thread.init]

theorem Owned.setThread (h : s.Owned) {th : Thread n} (hth : ∀ c, t = some c → th.OwnedBy c) :
    (s.setThread t th).Owned := by
  intro c
  by_cases ht : some c = t
  · subst ht
    simpa [Service.setThread] using hth c rfl
  · simpa [Service.setThread, ht] using h c

theorem Owned.push (h : s.Owned) (x : Bool) (c : Fin n) (wc : Wc) : (s.push x c wc).Owned := by
  refine h.setThread fun c' hc' => ?_
  rw [hc']
  refine ⟨(h c').todo, (h c').batch, fun e he => ?_⟩
  rcases List.mem_append.1 he with he | he
  · exact (h c').cq e he
  · obtain rfl := List.mem_singleton.1 he
    cases x with
    | true => cases hc'
    | false => exact Option.some.inj hc'

theorem Owned.fail (h : s.Owned) (t : ThreadId n) (f : Failure) : (s.fail t f).Owned :=
  h.setThread fun c hc => by
    rw [hc]
    exact ⟨(h c).todo, (h c).batch, (h c).cq⟩

theorem Owned.exec (h : s.Owned) (hs : s.exec t = some s') : s'.Owned := by
  obtain ⟨x, c, o, todo, -, ht, hs⟩ := exec_cases h hs
  have hth : ({ s.thread (threadOf x c) with todo } : Thread n).todo <:+
      (s.thread (threadOf x c)).todo := ht ▸ List.suffix_cons ..
  have hset : (s.setThread (threadOf x c) { s.thread (threadOf x c) with todo }).Owned := by
    refine h.setThread fun c' hc' => ?_
    rw [hc'] at hth ⊢
    exact ⟨fun e he => (h c').todo e (hth.subset he), (h c').batch, (h c').cq⟩
  obtain ⟨-, rfl⟩ | ⟨-, -, rfl⟩ | ⟨-, -, ⟨me, -, rfl⟩ | ⟨f, -, rfl⟩⟩ := hs
  · exact hset
  · exact hset
  · exact hset
  · exact h.fail _ f

theorem Owned.step {a : Act n} (h : s.Owned) (hs : s.step a = some s') : s'.Owned := by
  cases a with
  | exec t =>
    simp only [Service.step, Option.ite_none_right_eq_some] at hs
    exact h.exec hs.2
  | poll t k =>
    simp only [Service.step, Option.ite_none_right_eq_some, Service.poll] at hs
    obtain ⟨-, -, hs⟩ := hs
    obtain rfl := Option.some.inj hs
    refine h.setThread fun c hc => ?_
    subst hc
    exact ⟨(h c).todo, fun e he => (h c).cq e (List.mem_of_mem_take he),
      fun e he => (h c).cq e (List.mem_of_mem_drop he)⟩
  | handle t =>
    simp only [Service.step, Option.ite_none_right_eq_some, Service.handle] at hs
    obtain ⟨-, hs⟩ := hs
    split at hs
    · next c' wc batch ht hb =>
      obtain rfl := Option.some.inj hs
      refine h.setThread fun c hc => ?_
      subst hc
      refine ⟨fun e he => ?_, fun e he => (h c).batch e (hb ▸ List.mem_cons_of_mem _ he), (h c).cq⟩
      obtain ⟨o, -, rfl⟩ := List.mem_map.1 he
      exact (h c).batch (c', wc) (hb ▸ List.mem_cons_self)
    · cases hs
  | fetch x c j =>
    simp only [Service.step, Service.fetch] at hs
    split at hs
    · obtain rfl := Option.some.inj hs
      exact h
    · cases hs
  | deliver x c =>
    obtain ⟨b, len, tag, data, sq, i, rq, hq, hr, ⟨-, rfl⟩ | ⟨-, rfl⟩⟩ |
      ⟨b, len, d, data, sq, hq, ⟨a, ha, rfl⟩ | ⟨-, rfl⟩⟩ := deliver_cases hs
    · exact Owned.push h _ _ _
    · exact h.fail _ _
    · exact h
    · exact h.fail _ _
  | complete x c =>
    simp only [Service.step, Service.complete] at hs
    split at hs
    · cases hs
    · obtain rfl := Option.some.inj hs
      exact Owned.push h _ _ _

end Service

end Tower

end RdmaCore

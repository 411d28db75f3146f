/-
  Whole runs of the service of example/mesh_comm_service.cc.

  * `Link.Inv.perform_ok`, `Link.Inv.deliver_ok`: under the invariant of a
    channel no operation and no delivery fails;
  * `Service.Good`: what holds in every run of a server of at most 64 channels.
-/
import RdmaCore.TowerInv
import Mathlib.Logic.Relation

namespace RdmaCore

namespace Tower

/-! ## Operations do not fail -/

section
variable {P : Bool → Placement} {loaded : ℕ} {l l' : Link} {x : Bool} {o : Op} {todo : List Op}
  {reported : Bool → ℕ}

theorem cursorIndex_lt (i : ℕ) : cursorIndex numBlock i < numBlock := Nat.mod_lt _ (by decide)

theorem postSend_isOk (me : Chan) {k : ℕ} (r : Request)
    (h : me.sq.length + me.acks.length + k < maxWr) : ∃ me', me.postSend k r = .ok me' :=
  ⟨_, if_pos h⟩

/-- A client that has sent its request is past its receives and the barrier. -/
theorem Code.client_started {todo : List Op} (h : Code false todo)
    (hm : todo.countP Op.isMessage = 0) :
    todo.count .recvNext = 0 ∧ todo.count .syncRecv = 0 := by
  have hwrites (k : ℕ) : (List.replicate k Op.writeNext).count .recvNext = 0 ∧
      (List.replicate k Op.writeNext).count .syncRecv = 0 :=
    ⟨count_writes (by decide) k, count_writes (by decide) k⟩
  cases h with
  | nil => exact ⟨rfl, rfl⟩
  | cons hn =>
    cases hn with
    | recvNext x k => simp [afterSync, Op.isMessage, List.countP_cons] at hm
    | syncSend | syncRecv | request => simp [afterSync, Op.isMessage, List.countP_cons] at hm
    | decreaseSqe | ackSend | decreaseSqeWrite | ackSendWrite => exact ⟨rfl, rfl⟩
    | write k => simpa using hwrites k
    | decreaseRqeClient | ackRecvClient | loadNext => simpa using hwrites (numBlock - 1)

/-- A server that has passed its signal posts one receive for each that it handles. -/
theorem Code.server_started {todo : List Op} (h : Code true todo)
    (hs : todo.count .syncSend = 0) : todo.count .recvNext ≤ 1 := by
  cases h with
  | nil => exact Nat.zero_le _
  | cons hn =>
    cases hn with
    | recvNext x k => simp at hs
    | syncSend => simp at hs
    | _ => decide

namespace Link.Inv

/-- **Receiver ready**: a message finds a receive at the other side. -/
theorem rq_ne_nil (h : l.Inv P loaded) (hq : 0 < (l.side x).queued .send) :
    (l.side (!x)).chan.rq ≠ [] := by
  have hunloaded := h.counts.unloaded
  have hserver := h.counts.serverReceives
  have hclient := h.counts.clientReceives
  simp only [numBlock] at hserver hclient
  cases x with
  | true =>
    obtain ⟨hrecv, -⟩ := (h.side false).code.client_started (by rw [← LinkEnd.messages]; omega)
    intro hnil
    rw [show (!true) = false from rfl] at hnil
    rw [hnil, List.length_nil] at hclient
    omega
  | false =>
    obtain ⟨-, hsync⟩ := (h.side false).code.client_started (by rw [← LinkEnd.messages]; omega)
    have hbarrier := h.counts.barrier true
    rw [show (!true) = false from rfl, hsync] at hbarrier
    have hrecv := (h.side true).code.server_started (by omega)
    intro hnil
    rw [show (!false) = true from rfl] at hnil
    rw [hnil, List.length_nil] at hserver
    omega

/-- There is room for a request that is to be posted. -/
theorem room (h : l.Inv P loaded) (ht : (l.side x).todo = o :: todo) (ho : o.isPost = true)
    (hsq : reported true ≤ (l.side x).cq.countP Wc.ofSq) :
    (l.side x).chan.sq.length + (l.side x).chan.acks.length + reported true < maxWr := by
  have hroom := h.counts.sendRoom x
  rw [ht, List.countP_cons_of_pos ho, LinkEnd.flight] at hroom
  rw [maxWr]
  omega

/-- **No operation of a side fails.** -/
theorem perform_ok (h : l.Inv P loaded) (reported : Bool → ℕ) (ht : (l.side x).todo = o :: todo)
    (hsq : reported true ≤ (l.side x).cq.countP Wc.ofSq)
    (hrq : reported false ≤ (l.side x).received) :
    ∃ me, (l.side x).chan.perform reported o = .ok me := by
  obtain ⟨q₁, hsend⟩ := h.sendRing x
  obtain ⟨p₂, q₂, hrecv⟩ := h.recvRing x
  have hplaced := (h.side x).placed
  have hcode := (h.side x).code
  rw [ht] at hcode
  cases hcode with
  | cons hn =>
    cases o with
    | recvNext =>
      obtain ⟨recv, hnext, -⟩ := hrecv.window.ring.next
      have hroom := h.counts.recvRoom x
      rw [ht, List.count_cons_self, LinkEnd.recvs] at hroom
      simp only [Chan.perform, Chan.recvRemote, Except.bind_eq_ok, fault, failWith_eq_ok]
      exact ⟨_, _, hnext, (), (hplaced.recv.next hnext).checkBlock (cursorIndex_lt _)
        le_rfl le_rfl, if_pos (by rw [maxWr]; omega)⟩
    | syncSend | syncRecv | decreaseSqe | decreaseRqe => exact ⟨_, rfl⟩
    | sendNext len tag =>
      obtain ⟨send, hnext, -⟩ := hsend.window.ring.next
      obtain ⟨me, hme⟩ := postSend_isOk { (l.side x).chan with send }
        (.send (cursorIndex numBlock ((l.side x).turn q₁ + (l.side x).ahead)) len tag)
        (h.room ht rfl hsq)
      cases hn
      simp only [Chan.perform, Chan.sendRemote, Except.bind_eq_ok, fault, failWith_eq_ok]
      exact ⟨me, _, hnext, (), (hplaced.send.next hnext).checkBlock (cursorIndex_lt _)
        (by decide) le_rfl, hme⟩
    | ackSend =>
      obtain ⟨send, hlast, -⟩ := hsend.window.ring.last
      simp only [Chan.perform, Except.bind_eq_ok, fault, failWith_eq_ok]
      exact ⟨_, _, hlast, rfl⟩
    | ackRecv =>
      obtain ⟨recv, hlast, -⟩ := hrecv.window.ring.last
      simp only [Chan.perform, Except.bind_eq_ok, fault, failWith_eq_ok]
      exact ⟨_, _, hlast, rfl⟩
    | fillNext =>
      obtain ⟨send, hnext, -⟩ := hsend.window.ring.next
      simp only [Chan.perform, Except.bind_eq_ok, fault, failWith_eq_ok]
      exact ⟨_, _, hnext, rfl⟩
    | sendActive len tag =>
      have hactive : (l.side x).chan.active < numBlock := by
        rw [hsend.active (by simp [LinkEnd.ahead, ht, Op.isSendActive])]
        exact Nat.mod_lt _ (by decide)
      obtain ⟨me, hme⟩ := postSend_isOk (l.side x).chan
        (.send (l.side x).chan.active len tag) (h.room ht rfl hsq)
      cases hn
      simp only [Chan.perform, Chan.sendRemote, Except.bind_eq_ok]
      exact ⟨me, (), failWith_eq_ok.2 (hplaced.send.checkBlock hactive (by decide) le_rfl), hme⟩
    | loadNext =>
      obtain ⟨recv, hnext, -⟩ := hrecv.window.ring.next
      simp only [Chan.perform, Except.bind_eq_ok, fault, failWith_eq_ok]
      exact ⟨_, _, hnext, rfl⟩
    | writeNext =>
      obtain ⟨send, hnext, -⟩ := hsend.window.ring.next
      obtain ⟨b, hb, hsize, -⟩ := (hplaced.send.next hnext).blockAt (cursorIndex_lt _)
      obtain ⟨me, hme⟩ := postSend_isOk { (l.side x).chan with send }
        (.write (cursorIndex numBlock ((l.side x).turn q₁ + (l.side x).ahead))
          (b.bufferSize % 2 ^ 32) (l.side x).chan.peerComm) (h.room ht rfl hsq)
      have hlen : b.bufferSize % 2 ^ 32 = blockSize := by rw [hsize]; rfl
      have hlimit : blockSize ≤ (l.side x).chan.peerComm.bufferLength.toNat := by
        cases x with
        | true => cases hn
        | false =>
          have hloaded := h.loaded_of_writeNext (by rw [ht]; rfl)
          rw [h.loads.peerComm (by omega)]
          show blockSize ≤ (UInt64.ofNat (blockSize * numBlock)).toNat
          decide
      simp only [Chan.perform, Chan.writeRemote, Except.bind_eq_ok, fault, failWith_eq_ok]
      exact ⟨me, _, hnext, b, hb, (), (hplaced.send.next hnext).checkBlock
        (cursorIndex_lt _) hlen.le (hlen.trans_le hlimit), hme⟩
    | fatal f => cases hn

/-- **No delivery of a request fails**, and a message finds a receive. -/
theorem deliver_ok (h : l.Inv P loaded) {r : Posted} {sq : List Posted}
    (hq : (l.side x).chan.sq = r :: sq) :
    (∃ b len tag, r.request = .send b len tag ∧ len ≤ blockSize ∧ (l.side (!x)).chan.rq ≠ []) ∨
      ∃ b, r.request = .write b blockSize (P (!x)).descriptor ∧
        (l.side (!x)).chan.offset (P (!x)).descriptor blockSize = some 0 := by
  have hr := (h.side x).requests r (hq ▸ List.mem_cons_self)
  obtain ⟨request, payload⟩ := r
  cases request with
  | send b len tag =>
    obtain ⟨-, hlen⟩ := hr
    refine .inl ⟨b, len, tag, rfl, ?_, ?_⟩
    · rw [hlen]; cases x <;> decide
    · exact h.rq_ne_nil (by simp [LinkEnd.queued, hq, Request.kind])
  | write b len d =>
    obtain ⟨rfl, rfl⟩ : x = false ∧ len = blockSize := hr
    refine .inr ⟨b, ?_, (h.side true).placed.offset le_rfl⟩
    rw [h.loads.writes _ (hq ▸ List.mem_cons_self) b _ d rfl]
    rfl

end Link.Inv

end

/-! ## The start -/

theorem start_eq (x : Bool) : start x = receives ++ .syncSend :: .syncRecv :: afterSync x := by
  cases x <;> rfl

theorem count_start {o : Op} (ho : o ≠ .recvNext) (x : Bool) :
    (start x).count o = (Op.syncSend :: .syncRecv :: afterSync x).count o := by
  rw [start_eq, List.count_append, List.count_eq_zero.2, Nat.zero_add]
  exact fun h => ho (List.eq_of_mem_replicate h)

theorem count_recvNext_start (x : Bool) : (start x).count .recvNext = numBlock := by
  rw [start_eq, List.count_append, receives, List.count_replicate_self]
  cases x <;> rfl

theorem countP_isMessage_start (x : Bool) :
    (start x).countP Op.isMessage = if x then 0 else 1 := by
  rw [start_eq, List.countP_append, List.countP_eq_zero.2]
  · cases x <;> rfl
  · intro o ho
    rw [List.eq_of_mem_replicate ho]
    decide

variable {n : ℕ} {P : Bool → Fin n → Placement} {s s' : Service n}

/-- A side at the start. -/
def LinkEnd.init (x : Bool) (c : ChannelId) (p : Placement) : LinkEnd where
  todo := start x
  chan := Chan.init c p

namespace Service

theorem link_init (P : Bool → Fin n → Placement) (c : Fin n) (x : Bool) :
    ((init P).link c).side x = LinkEnd.init x c (P x c) := by
  have htodo : (((init P).link c).side x).todo = start x := by
    cases x with
    | true =>
      have hbarrier : (List.finRange n).flatMap (fun c => [(c, Op.syncSend), (c, Op.syncRecv)]) =
          (List.finRange n).flatMap fun c => [Op.syncSend, .syncRecv].map (c, ·) := rfl
      rw [link_todo]
      show ofChan c (_ ++ _) = _
      rw [ofChan_append, hbarrier, ofChan_flatMap (List.nodup_finRange n),
        ofChan_flatMap (List.nodup_finRange n), if_pos (List.mem_finRange c),
        if_pos (List.mem_finRange c)]
      rfl
    | false => exact ofChan_map_self ..
  have hcq : (((init P).link c).side x).cq = [] := by cases x <;> rfl
  exact congrArg₂ (LinkEnd.mk · · (Chan.init c (P x c))) htodo hcq

end Service

namespace LinkEnd
variable (x : Bool) (c : ChannelId) (p : Placement)

theorem flight_init : (init x c p).flight = 0 := rfl

theorem recvs_init : (init x c p).recvs = 0 := rfl

theorem messages_init : (init x c p).messages = if x then 0 else 1 := countP_isMessage_start x

theorem ahead_init : (init x c p).ahead = 0 := by
  rw [ahead, init, start_eq]
  rfl

theorem turn_init : (init x c p).turn 0 = 0 := by
  rw [turn, flight_init, init, count_start (by decide)]
  cases x <;> rfl

theorem Inv.init : (LinkEnd.init x c p).Inv p x where
  code := code_start x
  placed := Chan.Placed.init c p
  requests _ hr := absurd hr List.not_mem_nil
  acks _ hk := absurd hk List.not_mem_nil
  cq _ hwc := absurd hwc List.not_mem_nil
  sqInflight := by
    rw [flight_init, LinkEnd.init, count_start (by decide)]
    cases x <;> rfl
  rqInflight := by
    rw [recvs_init, LinkEnd.init, count_start (by decide)]
    cases x <;> rfl

theorem SendRing.init : (LinkEnd.init x c p).SendRing 0 where
  window := by
    rw [turn_init, ahead_init, Nat.add_zero, Window.slots_self]
    exact ringWindow_registered _ _ _ _ (by decide) (by decide)
  blocks := by
    rw [turn_init, Nat.zero_sub, Window.slots_self]
    rfl
  active h := by simp [ahead_init] at h

theorem RecvRing.init : RecvRing x (LinkEnd.init x c p) 0 0 0 where
  window := by
    rw [Window.slots_self]
    exact ringWindow_registered _ _ _ _ (by decide) (by decide)
  count := by
    rw [recvs_init, LinkEnd.init, count_start (by decide)]
    cases x <;> rfl
  blocks := by
    rw [Nat.zero_sub, Nat.zero_sub, Window.slots_self]
    rfl
  posted _ := by
    rw [LinkEnd.init, count_recvNext_start]
    exact Nat.zero_add _
  server _ := rfl

theorem Answers.init (d : CommDescriptor) : (LinkEnd.init x c p).Answers d where
  filled h := by simp [ahead_init] at h
  answer _ hr := absurd hr List.not_mem_nil

theorem Loads.init (d : CommDescriptor) : (LinkEnd.init x c p).Loads d 0 where
  received h := by
    have hload : (LinkEnd.init x c p).todo.count .loadNext = 0 := by
      rw [LinkEnd.init, count_start (by decide)]
      cases x <;> rfl
    rw [hload] at h
    exact absurd h (lt_irrefl 0)
  peerComm h := absurd h (by decide)
  writes _ hr := absurd hr List.not_mem_nil

end LinkEnd

theorem Link.Counts.init (P : Bool → Fin n → Placement) (c : Fin n) :
    ((Service.init P).link c).Counts 0 := by
  have hchan (x : Bool) : (LinkEnd.init x c (P x c)).chan = Chan.init c (P x c) := rfl
  have hcq (x : Bool) : (LinkEnd.init x c (P x c)).cq = [] := rfl
  have hqueued (x : Bool) (k : Kind) : (LinkEnd.init x c (P x c)).queued k = 0 := rfl
  have hreceived (x : Bool) : (LinkEnd.init x c (P x c)).received = 0 := rfl
  have hrecvs (x : Bool) : (LinkEnd.init x c (P x c)).todo.count .recvNext = numBlock :=
    count_recvNext_start x
  have hcount {o : Op} (ho : o ≠ .recvNext) (x : Bool) :
      (LinkEnd.init x c (P x c)).todo.count o =
        (Op.syncSend :: .syncRecv :: afterSync x).count o := count_start ho x
  constructor <;>
    simp only [Service.link_init, LinkEnd.messages_init, hchan, hcq, hqueued, hreceived, hrecvs,
      hcount (o := .loadNext) (by decide), hcount (o := .writeNext) (by decide),
      hcount (o := .syncSend) (by decide), hcount (o := .syncRecv) (by decide)]
  case barrier => intro x; cases x <;> rfl
  case requests | answers => exact le_rfl
  all_goals rfl

/-- **The invariant holds of every channel at the start.** -/
theorem Link.Inv.init (P : Bool → Fin n → Placement) (c : Fin n) :
    ((Service.init P).link c).Inv (fun x => P x c) 0 where
  side x := Service.link_init P c x ▸ LinkEnd.Inv.init x c (P x c)
  counts := .init P c
  sendRing x := ⟨0, Service.link_init P c x ▸ .init x c (P x c)⟩
  recvRing x := by
    refine ⟨0, 0, ?_⟩
    rw [Service.link_init, ite_self]
    exact .init x c (P x c)
  answers := Service.link_init P c true ▸ .init true c (P true c) _
  loads := Service.link_init P c false ▸ .init false c (P false c) _

/-! ## Runs -/

namespace Service

/-- What holds of the service in every run of a server of at most 64 channels. -/
structure Good (P : Bool → Fin n → Placement) (s : Service n) : Prop where
  owned : s.Owned
  running : ∀ t, (s.thread t).failed = none
  link : ∀ c, ∃ loaded, (s.link c).Inv (fun x => P x c) loaded

theorem failed_setThread (h : ∀ t, (s.thread t).failed = none) {t : ThreadId n} {th : Thread n}
    (hth : th.failed = (s.thread t).failed) (t' : ThreadId n) :
    ((s.setThread t th).thread t').failed = none := by
  by_cases ht : t' = t
  · subst ht; simpa [setThread, hth] using h t'
  · simpa [setThread, ht] using h t'

theorem reported_le {x : Bool} {c : Fin n} (sq : Bool) : (s.thread (threadOf x c)).reported c sq ≤
    ((s.link c).side x).cq.countP fun wc => wc.ofSq = sq := by
  rw [link_cq, List.countP_append, countP_ofChan, countP_ofChan]
  simp [Thread.reported]

/-- **No thread fails** in a step. -/
theorem Good.running_step {a : Act n} (h : s.Good P) (hs : s.step a = some s') (t : ThreadId n) :
    (s'.thread t).failed = none := by
  cases a with
  | exec t' =>
    simp only [step, Option.ite_none_right_eq_some] at hs
    obtain ⟨x, c, o, todo, -, ht, ⟨-, rfl⟩ | ⟨-, -, rfl⟩ | ⟨-, -, ⟨me, -, rfl⟩ | ⟨f, hp, -⟩⟩⟩ :=
      exec_cases h.owned hs.2
    · exact failed_setThread h.running (by rfl) t
    · exact failed_setThread h.running (by rfl) t
    · exact failed_setThread h.running (by rfl) t
    · obtain ⟨loaded, hl⟩ := h.link c
      obtain ⟨me, hme⟩ := hl.perform_ok ((s.thread (threadOf x c)).reported c)
        (todo_self ht) ((reported_le true).trans_eq (by simp))
        ((reported_le false).trans_eq (by simp [LinkEnd.received]))
      rw [link_chan, hp] at hme
      cases hme
  | poll t' k =>
    simp only [step, Option.ite_none_right_eq_some, poll] at hs
    obtain rfl := Option.some.inj hs.2.2
    exact failed_setThread h.running (by rfl) t
  | handle t' =>
    simp only [step, Option.ite_none_right_eq_some, handle] at hs
    obtain ⟨-, hs⟩ := hs
    split at hs
    · obtain rfl := Option.some.inj hs
      exact failed_setThread h.running (by rfl) t
    · cases hs
  | fetch x c j =>
    simp only [step, fetch] at hs
    split at hs
    · obtain rfl := Option.some.inj hs
      exact h.running t
    · cases hs
  | deliver x c =>
    obtain ⟨loaded, hl⟩ := h.link c
    obtain ⟨b, len, tag, data, sq, i, rq, hq, -, ⟨-, rfl⟩ | ⟨hlen, -⟩⟩ |
      ⟨b, len, d, data, sq, hq, ⟨a, -, rfl⟩ | ⟨ha, -⟩⟩ := deliver_cases hs
    · exact failed_setThread h.running (by rfl) t
    · obtain ⟨b', len', tag', hr, hle, -⟩ | ⟨b', hr, -⟩ := hl.deliver_ok hq
      · cases hr; omega
      · cases hr
    · exact h.running t
    · obtain ⟨b', len', tag', hr, -⟩ | ⟨b', hr, hoffset⟩ := hl.deliver_ok hq
      · cases hr
      · cases hr
        rw [link_chan, ha] at hoffset
        cases hoffset
  | complete x c =>
    simp only [step, complete] at hs
    split at hs
    · cases hs
    · obtain rfl := Option.some.inj hs
      exact failed_setThread h.running (by rfl) t

theorem Good.step {a : Act n} (h : s.Good P) (hs : s.step a = some s') : s'.Good P where
  owned := h.owned.step hs
  running := h.running_step hs
  link := step_forall_link (I := fun c l => ∃ loaded, l.Inv (fun x => P x c) loaded) h.owned hs
    (h.running_step hs) h.link fun _ _ lab _ ⟨loaded, hl⟩ hstep =>
      ⟨loaded + lab.loads, hl.step hstep⟩

theorem Good.init (hn : n ≤ 64) (P : Bool → Fin n → Placement) : (init P).Good P where
  owned := owned_init P
  running t := by
    cases t with
    | none => exact if_pos hn
    | some c => rfl
  link c := ⟨0, .init P c⟩

theorem Good.reachable (hn : n ≤ 64) (h : Lts.Reachable Service.step (Service.init P) s) :
    s.Good P :=
  h.induct (.init hn P) fun _ _ _ hg hs => hg.step hs

/-- **No run ever ends a thread** (no `CHECK` fails, no queue overflows, no
    write misses its buffer, no completion is unknown), for up to 64 channels. -/
theorem no_thread_fails_iff (P : Bool → Fin n → Placement) :
    (∀ s, Lts.Reachable step (init P) s → ∀ t, (s.thread t).failed = none) ↔ n ≤ 64 := by
  constructor
  · intro h
    have hnone := h (init P) (.refl _) none
    by_contra hn
    rw [show ((init P).thread none).failed = some .tooManyChannels from if_neg hn] at hnone
    cases hnone
  · intro hn s hs
    exact (Good.reachable hn hs).running

end Service

/-- A block that the operation takes from a ring is free, and a block that it
    gives back is in use, but not by a request or a receive in its queue. -/
def Chan.Exclusive (me : Chan) : Op → Prop
  | .recvNext | .loadNext =>
    ∃ base i, me.recv.next = .ok (base, i) ∧ me.recv.inUsedAt i = false
  | .sendNext _ _ | .fillNext | .writeNext =>
    ∃ base i, me.send.next = .ok (base, i) ∧ me.send.inUsedAt i = false
  | .ackSend => ∃ base i, me.send.last = .ok (base, i) ∧ me.send.inUsedAt i = true ∧
      ∀ r ∈ me.sq, r.request.block ≠ i
  | .ackRecv => ∃ base i, me.recv.last = .ok (base, i) ∧ me.recv.inUsedAt i = true ∧ i ∉ me.rq
  | .sendActive _ _ => me.send.inUsedAt me.active = true ∧
      ∀ r ∈ me.sq, r.request.block ≠ me.active
  | _ => True

/-- The slot of turn `k` is not among those of later turns. -/
theorem mod_notMem_slots {a b k : ℕ} (hab : k < a) (hb : b ≤ k + numBlock) :
    k % numBlock ∉ Window.slots numBlock a b := by
  intro h
  obtain ⟨i, hi, hib, he⟩ := Window.mem_slots.1 h
  exact Window.mod_ne_mod (by omega) (by omega) he.symm

namespace LinkEnd

variable {x : Bool} {e : LinkEnd} {p q loaded : ℕ} {o : Op} {todo : List Op}

theorem SendRing.next_free (h : e.SendRing q) (ht : e.todo = o :: todo) (hn : Next x o todo)
    (ho : o.isPost = true ∨ o = .fillNext) (hact : o.isSendActive = false)
    (hroom : e.flight + e.todo.countP Op.isPost ≤ numBlock) (hpost : 0 < e.todo.countP Op.isPost) :
    ∃ base i, e.chan.send.next = .ok (base, i) ∧ e.chan.send.inUsedAt i = false := by
  have hcount : e.todo.count .ackSend = 0 := ht ▸ hn.count_ackSend_cons ho
  have hahead : e.ahead = 0 := by simp [ahead, ht, hact]
  obtain ⟨base, hnext, hfree, -⟩ := h.window.next_of_index (by rw [hahead, turn, hcount]; omega)
    (cursorIndex_numBlock _)
  exact ⟨base, _, hnext, hfree⟩

theorem SendRing.last_used (h : e.SendRing q) (ht : e.todo = .ackSend :: todo) :
    ∃ base i, e.chan.send.last = .ok (base, i) ∧ e.chan.send.inUsedAt i = true ∧
      ∀ r ∈ e.chan.sq, r.request.block ≠ i := by
  have hroom := h.window.room
  have hpos : q < e.turn q := by rw [turn, ht, List.count_cons_self]; omega
  have hfirst : q < e.turn q - e.chan.sq.length := by
    rw [turn, flight, ht, List.count_cons_self]; omega
  obtain ⟨base, hlast, hused, -⟩ := h.window.last_of_index (by omega) (cursorIndex_numBlock _)
  refine ⟨base, _, hlast, hused, fun r hr he => ?_⟩
  have hmem : q % numBlock ∈ e.chan.sq.map (·.request.block) := List.mem_map.2 ⟨r, hr, he⟩
  rw [h.blocks] at hmem
  exact mod_notMem_slots hfirst (by omega) hmem

theorem SendRing.active_used (h : e.SendRing q) (ha : e.ahead = 1) :
    e.chan.send.inUsedAt e.chan.active = true ∧
      ∀ r ∈ e.chan.sq, r.request.block ≠ e.chan.active := by
  have hroom := h.window.room
  have hle : q + e.chan.sq.length ≤ e.turn q := by rw [turn, flight]; omega
  rw [ha] at hroom
  rw [h.active ha]
  refine ⟨?_, fun r hr he => ?_⟩
  · rw [h.window.inUsed, Window.mem_slots]
    exact ⟨e.turn q, by omega, by omega, rfl⟩
  · have hmem : e.turn q % numBlock ∈ e.chan.sq.map (·.request.block) := List.mem_map.2 ⟨r, hr, he⟩
    rw [h.blocks] at hmem
    exact Window.next_notMem (by omega) hmem

theorem RecvRing.next_free (h : RecvRing x e p q loaded) (hack : e.todo.count .ackRecv = 0)
    (hlt : e.recvs + loaded < numBlock) :
    ∃ base i, e.chan.recv.next = .ok (base, i) ∧ e.chan.recv.inUsedAt i = false := by
  have hcount := h.count
  obtain ⟨base, hnext, hfree, -⟩ := h.window.next_of_index (by omega) (cursorIndex_numBlock _)
  exact ⟨base, _, hnext, hfree⟩

theorem RecvRing.last_used (h : RecvRing x e p q loaded) (ht : e.todo = .ackRecv :: todo) :
    ∃ base i, e.chan.recv.last = .ok (base, i) ∧ e.chan.recv.inUsedAt i = true ∧ i ∉ e.chan.rq := by
  have hroom := h.window.room
  have hcount := h.count
  rw [ht, List.count_cons_self, recvs] at hcount
  obtain ⟨base, hlast, hused, -⟩ := h.window.last_of_index (by omega) (cursorIndex_numBlock _)
  refine ⟨base, _, hlast, hused, ?_⟩
  rw [h.blocks]
  exact mod_notMem_slots (by omega) (by omega)

end LinkEnd

/-- **The rings are used exclusively.** -/
theorem Link.Inv.exclusive {P : Bool → Placement} {loaded : ℕ} {l : Link} {x : Bool} {o : Op}
    {todo : List Op} (h : l.Inv P loaded) (ht : (l.side x).todo = o :: todo) :
    (l.side x).chan.Exclusive o := by
  obtain ⟨q, hsend⟩ := h.sendRing x
  obtain ⟨p', q', hrecv⟩ := h.recvRing x
  have hcode := (h.side x).code
  have hpost (ho : o.isPost = true) : 0 < (l.side x).todo.countP Op.isPost := by
    rw [ht, List.countP_cons_of_pos ho]
    exact Nat.succ_pos _
  rw [ht] at hcode
  cases hcode with
  | cons hn =>
    cases o with
    | recvNext =>
      have hroom := h.counts.recvRoom x
      rw [h.loaded_of_head (.inl (by rw [ht]; rfl))] at hrecv
      refine hrecv.next_free (ht ▸ hn.count_ackRecv_cons (.inl rfl)) ?_
      rw [ht, List.count_cons_self] at hroom
      omega
    | loadNext =>
      have hhead : (l.side x).todo.head? = some .loadNext := by rw [ht]; rfl
      rw [h.loaded_of_head (.inr hhead)] at hrecv
      exact hrecv.next_free (ht ▸ hn.count_ackRecv_cons (.inr rfl)) (h.recvs_lt hhead)
    | sendNext len tag =>
      exact hsend.next_free ht hn (.inl rfl) rfl (h.counts.sendRoom x) (hpost rfl)
    | writeNext => exact hsend.next_free ht hn (.inl rfl) rfl (h.counts.sendRoom x) (hpost rfl)
    | fillNext =>
      refine hsend.next_free ht hn (.inr rfl) rfl (h.counts.sendRoom x) ?_
      cases hn
      rw [ht]; decide
    | ackSend => exact hsend.last_used ht
    | ackRecv => exact hrecv.last_used ht
    | sendActive len tag => exact hsend.active_used (by simp [LinkEnd.ahead, ht, Op.isSendActive])
    | syncSend | syncRecv | decreaseSqe | decreaseRqe | fatal f => trivial

/-- The requests that are not counted down. -/
theorem Link.Inv.flight_decreaseSqe_le {P : Bool → Placement} {loaded : ℕ} {l : Link}
    (h : l.Inv P loaded) (x : Bool) :
    (l.side x).flight + (l.side x).todo.count .decreaseSqe ≤ numBlock := by
  obtain ⟨q, hsend⟩ := h.sendRing x
  have hroom := hsend.window.room
  have hcode := (h.side x).code.count_decrease_le.1
  rw [LinkEnd.turn] at hroom
  omega

/-- The receives that are not counted down. -/
theorem Link.Inv.recvs_decreaseRqe_le {P : Bool → Placement} {loaded : ℕ} {l : Link}
    (h : l.Inv P loaded) (x : Bool) :
    (l.side x).recvs + (l.side x).todo.count .decreaseRqe ≤ numBlock := by
  have hcode := (h.side x).code.count_decrease_le.2
  have hroom := h.counts.recvRoom x
  have hunloaded := h.counts.unloaded
  have hclient := h.counts.clientReceives
  cases x with
  | true =>
    simp only [if_true] at hcode
    omega
  | false =>
    simp only [Bool.false_eq_true, if_false] at hcode
    rw [LinkEnd.recvs]
    simp only [numBlock] at *
    omega

/-! ## What holds in every run -/

/-- Buffers one after another, in cleared memory. -/
def Placement.zeroed : Placement where
  sendPtr := 0x10000
  recvPtr := 0x10000 + blockSize * numBlock
  rkey := 7
  sendMem := fun _ => 0
  recvMem := fun _ => 0
  sendPtr_pos := by decide
  recvPtr_pos := by decide
  sendPtr_le := by decide
  recvPtr_le := by decide

/-- A server with one client. -/
def Service.one : Service 1 := .init fun _ _ => .zeroed

/-- Both sides post their receives and meet; the server takes the request, and posts its answer. -/
def Service.answering : List (Act 1) :=
  List.replicate 129 (.exec none) ++ List.replicate 131 (.exec (some 0)) ++
    [.exec none, .fetch false 0 0, .deliver false 0, .poll none 1, .handle none] ++
    List.replicate 4 (.exec none)

/-- The client loads the answer and posts its writes; of the first two the one is reported, and
    its handler begun, and the other is delivered and reported behind it. -/
def Service.writing : List (Act 1) :=
  [.exec none, .fetch true 0 0, .deliver true 0, .complete true 0, .poll (some 0) 1,
    .handle (some 0)] ++ List.replicate 130 (.exec (some 0)) ++
    [.fetch false 0 0, .deliver false 0, .complete false 0, .complete false 0, .fetch false 0 0,
      .deliver false 0, .complete false 0, .poll (some 0) 2, .handle (some 0), .exec (some 0),
      .exec (some 0), .handle (some 0), .exec (some 0)]

/-- `cq_size` of `lazy_config_hca` -/
def cqSize (endPoints : ℕ) : ℕ := (maxWr + maxWr) * endPoints

namespace Service

/-- The states after `answering` and after `writing`. -/
theorem exists_writing : ∃ s s', Lts.run step one answering = some s ∧
    Lts.run step s writing = some s' ∧
    ((s.chan true 0).sq.map (·.request.kind) = [.send] ∧ (s.chan false 0).rq.length = 128) ∧
    (s'.thread (some 0)).todo = [(0, .ackSend), (0, .writeNext)] ∧
    (s'.chan false 0).sq.map (·.request.kind) = List.replicate 125 .write ∧
    (s'.chan false 0).sqInflight = 126 ∧ (s'.chan false 0).rqInflight = 127 ∧
    (s'.thread none).cq = [(0, .sent .send)] ∧ (s'.thread (some 0)).cq = [(0, .sent .write)] := by
  have hrun : (Lts.run step one answering).any (fun s => decide (
      ((s.chan true 0).sq.map (·.request.kind) = [.send] ∧ (s.chan false 0).rq.length = 128) ∧
      (Lts.run step s writing).any (fun s' => decide (
        (s'.thread (some 0)).todo = [(0, .ackSend), (0, .writeNext)] ∧
        (s'.chan false 0).sq.map (·.request.kind) = List.replicate 125 .write ∧
        (s'.chan false 0).sqInflight = 126 ∧ (s'.chan false 0).rqInflight = 127 ∧
        (s'.thread none).cq = [(0, .sent .send)] ∧
        (s'.thread (some 0)).cq = [(0, .sent .write)])) = true)) = true := by
    decide +kernel
  obtain ⟨s, hs, hp⟩ := (Option.any_eq_true _ _).1 hrun
  obtain ⟨hanswer, hwriting⟩ := of_decide_eq_true hp
  obtain ⟨s', hs', hp'⟩ := (Option.any_eq_true _ _).1 hwriting
  exact ⟨s, s', hs, hs', hanswer, of_decide_eq_true hp'⟩

theorem exists_reachable_writing : ∃ s, Lts.Reachable step one s ∧
    (s.thread (some 0)).todo = [(0, .ackSend), (0, .writeNext)] ∧
    (s.chan false 0).sq.map (·.request.kind) = List.replicate 125 .write ∧
    (s.chan false 0).sqInflight = 126 ∧ (s.chan false 0).rqInflight = 127 ∧
    (s.thread none).cq = [(0, .sent .send)] ∧ (s.thread (some 0)).cq = [(0, .sent .write)] := by
  obtain ⟨s, s', hs, hs', -, hwriting⟩ := exists_writing
  exact ⟨s', Lts.Reachable.trans ⟨_, hs⟩ ⟨_, hs'⟩, hwriting⟩

theorem exists_reachable_answering : ∃ s, Lts.Reachable step one s ∧
    (s.chan true 0).sq.map (·.request.kind) = [.send] ∧ (s.chan false 0).rq.length = 128 := by
  obtain ⟨s, -, hs, -, hanswering, -⟩ := exists_writing
  exact ⟨s, ⟨_, hs⟩, hanswering⟩

theorem Good.link_flow {a : Act n} (h : s.Good P) (hs : s.step a = some s') (c : Fin n) :
    (s'.link c).flow = (s.link c).flow ∨
      Conduit.Steps program (s.link c).flow (s'.link c).flow := by
  obtain ⟨-, -, -, heq⟩ | ⟨c', lab, hin⟩ := step_link h.owned hs (h.running_step hs)
  · exact .inl (congrArg Link.flow (heq c))
  · by_cases hc : c = c'
    · subst hc
      obtain ⟨loaded, hl⟩ := h.link c
      have hflow := Link.step_flow hin.step fun x => (hl.side x).cq
      cases hlab : lab.flow with
      | none => rw [hlab] at hflow; exact .inl hflow
      | some lab' => rw [hlab] at hflow; exact .inr ⟨lab', hflow⟩
    · exact .inl (congrArg Link.flow (hin.frame c hc))

/-- **Each channel runs as two programs at the ends of a connection of their
    own**, although the server serves all of them in one thread. -/
theorem link_simulates (hn : n ≤ 64) (h : Lts.Reachable step (init P) s) (c : Fin n) :
    Relation.ReflTransGen (Conduit.Steps program) ((init P).link c).flow (s.link c).flow := by
  refine (h.induct (P := fun s => s.Good P ∧ Relation.ReflTransGen (Conduit.Steps program)
    ((init P).link c).flow (s.link c).flow) ⟨.init hn P, .refl⟩ fun s a s' hI hs => ?_).2
  obtain heq | hsteps := hI.1.link_flow hs c
  · exact ⟨hI.1.step hs, heq ▸ hI.2⟩
  · exact ⟨hI.1.step hs, hI.2.tail hsteps⟩

theorem link_simulates_one : ∃ s, Lts.Reachable step one s ∧ (s.link 0).flow ≠ (one.link 0).flow ∧
    Relation.ReflTransGen (Conduit.Steps program) (one.link 0).flow (s.link 0).flow := by
  obtain ⟨s, hs, -, hsq, -⟩ := exists_reachable_writing
  refine ⟨s, hs, fun heq => ?_, link_simulates (by decide) hs 0⟩
  have hnil : (s.chan false 0).sq.map (·.request.kind) = [] :=
    congrArg (fun l : Conduit.State Op Kind => (l.side false).sq) heq
  rw [hsq] at hnil
  cases hnil

/-- **Every call of `next()` returns a free block, and every call of `last()`
    the block of a request or receive that is completed**, in every run. -/
theorem rings_exclusive (hn : n ≤ 64) (h : Lts.Reachable step (init P) s) {t : ThreadId n}
    {c : Fin n} {o : Op} {todo : List (Fin n × Op)} (ht : (s.thread t).todo = (c, o) :: todo) :
    (s.chan t.isNone c).Exclusive o := by
  have hgood := Good.reachable hn h
  obtain ⟨loaded, hl⟩ := hgood.link c
  have heq := hgood.owned.threadOf_todo (ht ▸ List.mem_cons_self)
  rw [heq] at ht
  exact hl.exclusive (todo_self ht)

theorem rings_exclusive_one : ∃ s, Lts.Reachable step one s ∧
    (s.chan false 0).sq.length = 125 ∧ (s.thread (some 0)).todo = [(0, .ackSend), (0, .writeNext)] ∧
    (s.chan false 0).Exclusive .ackSend := by
  obtain ⟨s, hs, htodo, hsq, -⟩ := exists_reachable_writing
  have hlen : (s.chan false 0).sq.length = 125 := by simpa using congrArg List.length hsq
  exact ⟨s, hs, hlen, htodo, rings_exclusive (by decide) hs htodo⟩

/-- **The counters of a channel are exact**, and its queues never overflow: what is posted and
    not counted down is within the queues. -/
theorem inflight_exact (hn : n ≤ 64) (h : Lts.Reachable step (init P) s) (x : Bool) (c : Fin n) :
    (s.chan x c).sqInflight =
        ((s.link c).side x).flight + ((s.link c).side x).todo.count .decreaseSqe ∧
      (s.chan x c).rqInflight =
        ((s.link c).side x).recvs + ((s.link c).side x).todo.count .decreaseRqe ∧
      ((s.link c).side x).flight ≤ maxWr ∧ ((s.link c).side x).recvs ≤ maxWr ∧
      (s.chan x c).sqInflight ≤ maxWr ∧ (s.chan x c).rqInflight ≤ maxWr := by
  obtain ⟨loaded, hl⟩ := (Good.reachable hn h).link c
  have hsend := hl.counts.sendRoom x
  have hrecv := hl.counts.recvRoom x
  have hsq := (hl.side x).sqInflight
  have hrq := (hl.side x).rqInflight
  have hcountSq := hl.flight_decreaseSqe_le x
  have hcountRq := hl.recvs_decreaseRqe_le x
  rw [link_chan] at hsq hrq
  rw [maxWr]
  exact ⟨hsq, hrq, by omega, by omega, by omega, by omega⟩

theorem inflight_exact_one : ∃ s, Lts.Reachable step one s ∧
    (s.chan false 0).sqInflight = 126 ∧ (s.chan false 0).sqInflight =
      ((s.link 0).side false).flight + ((s.link 0).side false).todo.count .decreaseSqe ∧
    (s.chan false 0).rqInflight = 127 ∧
    (s.chan false 0).rqInflight =
      ((s.link 0).side false).recvs + ((s.link 0).side false).todo.count .decreaseRqe := by
  obtain ⟨s, hs, -, -, hsq, hrq, -⟩ := exists_reachable_writing
  obtain ⟨hsqe, hrqe, -⟩ := inflight_exact (by decide) hs false 0
  exact ⟨s, hs, hsq, hsqe, hrq, hrqe⟩

/-- **Every write of a client goes to the send buffer of its own server**, with
    the descriptor that the server put into its answer. -/
theorem writes_on_target (hn : n ≤ 64) (h : Lts.Reachable step (init P) s) (c : Fin n) :
    (∀ r ∈ (s.chan true c).sq, r.data (s.chan true c).sendMem = (P true c).descriptor.toBytes) ∧
      ∀ r ∈ (s.chan false c).sq, r.request.kind = .write →
        ∃ b, r.request = .write b blockSize (P true c).descriptor ∧
          (s.chan true c).offset (P true c).descriptor blockSize = some 0 := by
  obtain ⟨loaded, hl⟩ := (Good.reachable hn h).link c
  refine ⟨hl.answers.answer, fun r hr hk => ?_⟩
  obtain ⟨request, payload⟩ := r
  cases request with
  | send => cases hk
  | write b len d =>
    obtain ⟨-, rfl⟩ : _ ∧ len = blockSize := (hl.side false).requests _ hr
    obtain rfl := hl.loads.writes _ hr b _ d rfl
    exact ⟨b, rfl, (hl.side true).placed.offset le_rfl⟩

theorem writes_on_target_one : ∃ s s', Lts.Reachable step one s ∧ Lts.Reachable step one s' ∧
    ((s.chan true 0).sq.map (·.request.kind) = [.send] ∧ ∀ r ∈ (s.chan true 0).sq,
      r.data (s.chan true 0).sendMem = Placement.zeroed.descriptor.toBytes) ∧
    (s'.chan false 0).sq.map (·.request.kind) = List.replicate 125 .write ∧
    ∀ r ∈ (s'.chan false 0).sq, r.request.kind = .write →
      ∃ b, r.request = .write b blockSize Placement.zeroed.descriptor ∧
        (s'.chan true 0).offset Placement.zeroed.descriptor blockSize = some 0 := by
  obtain ⟨s, hs, hanswer, -⟩ := exists_reachable_answering
  obtain ⟨s', hs', -, hwrites, -⟩ := exists_reachable_writing
  exact ⟨s, s', hs, hs', ⟨hanswer, (writes_on_target (by decide) hs 0).1⟩, hwrites,
    (writes_on_target (by decide) hs' 0).2⟩

/-- **A message never finds its receiver not ready**: for the messages in a
    send queue there are as many receives at the other side. -/
theorem receiver_ready (hn : n ≤ 64) (h : Lts.Reachable step (init P) s) (x : Bool) (c : Fin n) :
    ((s.link c).side x).queued .send ≤ (s.chan (!x) c).rq.length := by
  obtain ⟨loaded, hl⟩ := (Good.reachable hn h).link c
  have hunloaded := hl.counts.unloaded
  have hone : ((s.link c).side x).queued .send ≤ 1 := by cases x <;> omega
  rcases Nat.eq_zero_or_pos (((s.link c).side x).queued .send) with hzero | hpos
  · rw [hzero]
    exact Nat.zero_le _
  · exact hone.trans (List.length_pos_of_ne_nil (hl.rq_ne_nil hpos))

theorem receiver_ready_one : ∃ s, Lts.Reachable step one s ∧
    ((s.link 0).side true).queued .send = 1 ∧
    ((s.link 0).side true).queued .send ≤ (s.chan false 0).rq.length := by
  obtain ⟨s, hs, hsq, -⟩ := exists_reachable_answering
  have hqueued : ((s.link 0).side true).queued .send = 1 := by
    rw [LinkEnd.queued, link_chan, hsq]
    rfl
  exact ⟨s, hs, hqueued, receiver_ready (by decide) hs true 0⟩

/-- **The pipeline of a client stays full**: it has no write under way, or
    exactly `NUM_BLOCK - 1` of them. -/
theorem writes_underway (hn : n ≤ 64) (h : Lts.Reachable step (init P) s) (c : Fin n) :
    ((s.link c).side false).todo.count .writeNext + ((s.link c).side false).queued .write +
        ((s.link c).side false).chan.acks.count .write +
        ((s.link c).side false).cq.count (.sent .write) = 0 ∨
      ((s.link c).side false).todo.count .writeNext + ((s.link c).side false).queued .write +
        ((s.link c).side false).chan.acks.count .write +
        ((s.link c).side false).cq.count (.sent .write) = numBlock - 1 := by
  obtain ⟨loaded, hl⟩ := (Good.reachable hn h).link c
  have hunloaded := hl.counts.unloaded
  rw [hl.counts.writes]
  obtain hzero | hone : loaded + ((s.link c).side false).todo.count .loadNext = 0 ∨
      loaded + ((s.link c).side false).todo.count .loadNext = 1 := by omega
  · exact .inl (by rw [hzero, Nat.mul_zero])
  · exact .inr (by rw [hone, Nat.mul_one])

theorem writes_underway_one : ∃ s, Lts.Reachable step one s ∧
    ((s.link 0).side false).queued .write = 125 ∧
    ((s.link 0).side false).todo.count .writeNext + ((s.link 0).side false).queued .write +
      ((s.link 0).side false).chan.acks.count .write +
      ((s.link 0).side false).cq.count (.sent .write) = numBlock - 1 := by
  obtain ⟨s, hs, -, hsq, -⟩ := exists_reachable_writing
  have hqueued : ((s.link 0).side false).queued .write = 125 := by
    rw [LinkEnd.queued, link_chan, hsq, List.count_replicate_self]
  obtain hzero | hfull := writes_underway (by decide) hs 0
  · rw [hqueued] at hzero
    omega
  · exact ⟨s, hs, hqueued, hfull⟩

/-- The completions of a channel that are not handled. -/
theorem Good.length_cq (h : s.Good P) (x : Bool) (c : Fin n) :
    ((s.link c).side x).cq.length ≤ if x then 1 else numBlock + 1 := by
  obtain ⟨loaded, hl⟩ := h.link c
  have hunloaded := hl.counts.unloaded
  have hwrites := hl.counts.writes
  have hrequests := hl.counts.requests
  have hanswers := hl.counts.answers
  have hlen (cq : List Wc) : cq.length = cq.count (.sent .send) + cq.count (.sent .write) +
      cq.countP fun wc => !wc.ofSq := by
    rw [← countP_ofSq, List.length_eq_countP_add_countP Wc.ofSq]
    simp
  rw [hlen]
  cases x <;> simp only [numBlock, LinkEnd.received, if_true, Bool.false_eq_true, if_false] at * <;>
    omega

/-- **The completion queues never overflow**: that of the server holds at most
    one completion of each channel. -/
theorem length_cq_le (hn : n ≤ 64) (h : Lts.Reachable step (init P) s) :
    ((s.thread none).cq.map (·.1)).Nodup ∧ (s.thread none).cq.length ≤ n ∧ n ≤ cqSize n ∧
      ∀ c, (s.thread (some c)).cq.length ≤ numBlock + 1 ∧ numBlock + 1 ≤ cqSize 1 := by
  have hgood := Good.reachable hn h
  have hlink (x : Bool) (c : Fin n) : (ofChan c (s.thread (threadOf x c)).cq).length ≤
      if x then 1 else numBlock + 1 := by
    refine (Nat.le_trans ?_ (hgood.length_cq x c))
    rw [link_cq, List.length_append]
    exact Nat.le_add_left ..
  have hnodup : ((s.thread none).cq.map (·.1)).Nodup := by
    refine List.nodup_iff_count_le_one.2 fun c => ?_
    refine Nat.le_trans (Nat.le_of_eq ?_) (hlink true c)
    rw [ofChan, List.length_map, ← List.countP_eq_length_filter, List.count, List.countP_map]
    congr 1
  refine ⟨hnodup, ?_, by simp only [cqSize, maxWr, numBlock]; omega, fun c => ⟨?_, by decide⟩⟩
  · simpa using hnodup.length_le_card
  · have hall : (s.thread (some c)).cq.filter (·.1 = c) = (s.thread (some c)).cq :=
      List.filter_eq_self.2 fun e he => by simpa using (hgood.owned c).cq e he
    have hle := hlink false c
    rw [ofChan, List.length_map] at hle
    exact hall ▸ hle

theorem length_cq_le_one : ∃ s, Lts.Reachable step one s ∧
    (s.thread none).cq = [(0, .sent .send)] ∧ (s.thread (some 0)).cq = [(0, .sent .write)] ∧
    ((s.thread none).cq.map (·.1)).Nodup ∧
    (s.thread none).cq.length ≤ 1 ∧ (s.thread (some 0)).cq.length ≤ numBlock + 1 := by
  obtain ⟨s, hs, -, -, -, -, hserver, hclient⟩ := exists_reachable_writing
  obtain ⟨hnodup, hle, -, hcq⟩ := length_cq_le (by decide) hs
  exact ⟨s, hs, hserver, hclient, hnodup, hle, (hcq 0).1⟩

end Service

end Tower

end RdmaCore

/-
  The messages of the default session: which receives and messages the
  callbacks post, what is in flight, and in which order.

  * `Sys.step_flow`: the session simulates two parties that answer each
    other's messages against credits (`Flow`); a receive is a credit.
-/
import RdmaCore.Session
import RdmaCore.Lib.Flow

namespace RdmaCore

/-- The receives and messages that an operation posts, and its part in the
    synchronisation. -/
def Op.flow : Op → Option (Flow.Op Msg)
  | recvRemote => some .credit
  | sendRemote _ tag => some (.post (.send tag))
  | writeRemote _ tag true => some (.post (.writeImm tag))
  | syncSend => some .signal
  | syncRecv => some .await
  | _ => none

/-- The established callback. -/
def start : List (Flow.Op Msg) :=
  [.credit, .credit, .signal, .await, .post (.send .testForSyncData)]

/-- The handler of a message. -/
def Msg.reply : Msg → List (Flow.Op Msg)
  | send .testForSyncData => [.credit, .post (.send .requestExchangeKey)]
  | send .requestExchangeKey =>
    [.credit, .post (.send .responseExchangeKey), .post (.writeImm .responseExchangeKey)]
  | send _ => [.credit, .post (.send .unset)]
  | writeImm _ => [.credit]

def Side.flow (me : Side) : Flow.Party Msg where
  todo := me.todo.filterMap Op.flow
  credits := me.rq
  out := me.sq.filterMap (·.request.msg)
  inbox := me.cq.filterMap Wc.msg
  sent := me.log
  handled := me.handled

def Sys.flow (s : Sys) : Flow.State Msg where
  party := fun x => (s.side x).flow
  signals := s.synced

/-- What an action does to the messages, unless it fails. -/
def Sys.label (s : Sys) : SysAct → Flow.Label Msg
  | .exec x =>
    match (s.side x).todo.head?.bind Op.flow with
    | some o => .op x o
    | none => .silent
  | .poll x =>
    match (s.side x).cq.head?.bind Wc.msg with
    | some m => .handle x m
    | none => .silent
  | .deliver x =>
    match (s.side x).sq.head?.bind (·.request.msg) with
    | some m => .deliver x m
    | none => .silent
  | _ => .silent

/-! ## Simulation -/

variable {P : Bool → Peer} {s s' : Sys} {x : Bool}

theorem Peer.flow_establishedFn (p : Peer) : p.establishedFn.filterMap Op.flow = start := by
  rfl

theorem Peer.flow_handler (p : Peer) (wc : Wc) :
    (p.handler wc).filterMap Op.flow = (wc.msg.map Msg.reply).getD [] := by
  rcases wc with _ | ⟨tag, _⟩ | _ | _ | tag
  · rfl
  · cases tag <;> rfl
  · rfl
  · rfl
  · rfl

namespace Sys

@[simp] theorem flow_party (s : Sys) (x : Bool) : s.flow.party x = (s.side x).flow := rfl

theorem flow_set (s : Sys) (x : Bool) (me : Side) : (s.set x me).flow = s.flow.set x me.flow := by
  simp only [flow, set, Flow.State.set, Flow.State.mk.injEq, and_true]
  funext y
  by_cases hy : y = x
  · subst hy; simp
  · simp [hy]

theorem flow_set_synced (s : Sys) (x : Bool) (me : Side) (synced : Bool → ℕ) :
    { s.set x me with synced }.flow = { s.flow.set x me.flow with signals := synced } := by
  rw [← flow_set]; rfl

theorem flow_set_of_eq {me : Side} (h : me.flow = (s.side x).flow) :
    (s.set x me).flow = s.flow := by
  rw [flow_set, h]
  exact congrArg (Flow.State.mk · s.synced) (Function.update_eq_self x s.flow.party)

theorem flow_init (P : Bool → Peer) : (init P).flow = Flow.State.init start := by
  simp only [flow, init, Flow.State.init, Flow.State.mk.injEq, and_true]
  funext x
  simp [Side.flow, Side.init, Peer.flow_establishedFn]

end Sys

theorem Side.flow_todo {me : Side} {o : Op} {todo : List Op} (h : me.todo = o :: todo) :
    me.flow.todo = o.flow.toList ++ todo.filterMap Op.flow := by
  cases ho : o.flow <;> simp [Side.flow, h, ho]

theorem Side.flow_post (me : Side) (r : Request) :
    (me.post r).flow =
      { me.flow with out := me.flow.out ++ r.msg.toList, sent := me.log ++ r.msg.toList } := by
  cases hr : r.msg <;> simp [Side.flow, Side.post, hr]

/-- The receives and messages of an operation are added to those of the side. -/
theorem Side.flow_perform {me me' : Side} {o : Op} (h : me.perform o = .ok me') :
    me'.flow =
      { me.flow with
        credits := me.rq + Flow.credits o.flow.toList
        out := me.flow.out ++ Flow.posts o.flow.toList
        sent := me.log ++ Flow.posts o.flow.toList } := by
  cases o with
  | clear b | copy b data | recvRemote | loadAddr | loadLength | loadRkey | insertPeerBuffer
  | readText b | syncSend | syncRecv =>
    obtain rfl := Except.ok.inj h
    simp [Side.flow, Side.setMem, Op.flow, Flow.credits, Flow.posts, Flow.Op.isCredit, Flow.Op.msg]
  | checkLength b len =>
    simp only [Side.perform] at h
    split_ifs at h
    obtain rfl := Except.ok.inj h
    simp [Side.flow, Op.flow, Flow.credits]
  | sendRemote len tag =>
    simp only [Side.perform] at h
    split_ifs at h
    obtain rfl := Except.ok.inj h
    rw [Side.flow_post]; rfl
  | writeRemote len tag notifyPeer =>
    simp only [Side.perform] at h
    split_ifs at h <;> obtain rfl := Except.ok.inj h <;> rw [Side.flow_post]
    · subst notifyPeer; rfl
    · rw [Bool.not_eq_true] at *; subst notifyPeer; rfl
  | readRemote len =>
    simp only [Side.perform] at h
    split_ifs at h
    obtain rfl := Except.ok.inj h
    rw [Side.flow_post]; rfl
  | findPeerBuffer =>
    simp only [Side.perform] at h
    split at h
    · obtain rfl := Except.ok.inj h
      simp [Side.flow, Op.flow, Flow.credits]
    · cases h

/-- The completion of an own request brings no message. -/
theorem Side.flow_land (me : Side) (ack : Ack) (acks : List Ack) :
    { me.land ack with acks, cq := me.cq ++ [ack.wc] }.flow = me.flow := by
  cases ack <;> simp [Side.flow, Side.land, Side.setMem, Ack.wc, Wc.msg]

theorem Side.log_perform {me me' : Side} {o : Op} (h : me.perform o = .ok me') :
    me'.log = me.log ++ Flow.posts o.flow.toList :=
  congrArg Flow.Party.sent (Side.flow_perform h)

theorem Op.flow_eq_signal {o : Op} (h : o.flow = some .signal) : o = .syncSend := by
  unfold Op.flow at h
  split at h <;> simp_all

theorem Op.flow_eq_await {o : Op} (h : o.flow = some .await) : o = .syncRecv := by
  unfold Op.flow at h
  split at h <;> simp_all

namespace Sys

/-- A thread fails a check, or its operation is a step of the messages. -/
theorem exec_flow (h : s.exec x = some s') :
    (s'.flow = s.flow ∧ ∃ o todo c, (s.side x).todo = o :: todo ∧
        (s.side x).perform o = .error c) ∨
      Flow.Step Msg.reply s.flow (s.label (.exec x)) s'.flow := by
  obtain ⟨o, todo, ht, ⟨c, hp, rfl⟩ | ⟨me', hp, h⟩⟩ := exec_cases h
  · left
    exact ⟨flow_set_of_eq rfl, o, todo, c, ht, hp⟩
  right
  have htodo := Side.flow_todo ht
  rw [label, ht, List.head?_cons, Option.bind_some]
  obtain ⟨rfl, rfl, rfl⟩ | ⟨rfl, rfl, hs, rfl⟩ | ⟨hs, hr, rfl⟩ := h
  · rw [flow_set_synced]
    exact Flow.Step.signal htodo
  · rw [flow_set_synced]
    exact Flow.Step.await htodo hs
  have hme : { me' with todo }.flow = { me'.flow with todo := todo.filterMap Op.flow } := rfl
  rw [Side.flow_perform hp] at hme
  cases ho : o.flow with
  | none =>
    have hme : { me' with todo }.flow = (s.side x).flow := by
      rw [hme]; simp [Side.flow, ht, ho, Flow.credits]
    rw [flow_set_of_eq hme]
    exact .silent s.flow
  | some o' =>
    rw [ho] at htodo
    rw [flow_set, hme, ho]
    cases o' with
    | post m => exact Flow.Step.post htodo
    | credit =>
      simp only [Option.toList_some, Flow.posts_cons, Flow.Op.msg, Option.toList_none,
        Flow.posts_nil, List.append_nil]
      exact Flow.Step.credit htodo
    | signal => exact absurd (Op.flow_eq_signal ho) hs
    | await => exact absurd (Op.flow_eq_await ho) hr

theorem poll_flow (h : s.poll P x = some s') :
    Flow.Step Msg.reply s.flow (s.label (.poll x)) s'.flow := by
  obtain ⟨wc, cq, ht, hq, rfl⟩ := poll_cases h
  rw [label, hq, List.head?_cons, Option.bind_some, flow_set]
  cases hm : wc.msg with
  | none =>
    rw [← flow_set, flow_set_of_eq]
    · exact .silent s.flow
    · simp [Side.flow, ht, hq, hm, Peer.flow_handler]
  | some m =>
    have htodo : (s.flow.party x).todo = [] := by simp [Side.flow, ht]
    have hinbox : (s.flow.party x).inbox = m :: cq.filterMap Wc.msg := by simp [Side.flow, hq, hm]
    convert Flow.Step.handle htodo hinbox using 2
    simp [Side.flow, Peer.flow_handler, hm]

/-- The requests stay the same when a payload is fetched. -/
theorem requests_set {sq : List Posted} {j : ℕ} {r : Request} {payload : Option (List UInt8)}
    (h : sq[j]? = some ⟨r, payload⟩) (data : Option (List UInt8)) :
    (sq.set j ⟨r, data⟩).map (·.request) = sq.map (·.request) := by
  refine List.ext_getElem? fun i => ?_
  by_cases hi : j = i
  · subst hi
    obtain ⟨hj, hr⟩ := List.getElem?_eq_some_iff.1 h
    simp [hj, hr]
  · simp [hi]

theorem fetch_flow {j : ℕ} (h : s.fetch x j = some s') : s'.flow = s.flow := by
  obtain ⟨r, b, len, hj, -, rfl⟩ := fetch_cases h
  apply flow_set_of_eq
  have hreq := congrArg (List.filterMap Request.msg)
    (requests_set hj (some (((s.side x).mem b).read 0 len)))
  rw [List.filterMap_map, List.filterMap_map] at hreq
  exact congrArg (fun out => { (s.side x).flow with out }) hreq

theorem complete_flow (h : s.complete x = some s') : s'.flow = s.flow := by
  obtain ⟨ack, acks, -, rfl⟩ := complete_cases h
  exact flow_set_of_eq ((s.side x).flow_land ack acks)

/-- A message reaches the other side: its receive becomes a completion. -/
theorem consume_flow {p : Posted} {m : Msg} {sq : List Posted} {acks : List Ack} {you : Side}
    {wc : Wc} (hq : (s.side x).sq = p :: sq) (hp : p.request.msg = some m) (hwc : wc.msg = some m)
    (hyou : you.flow = (s.side (!x)).flow) (hr : 0 < (s.side (!x)).rq) :
    Flow.Step Msg.reply s.flow (.deliver x m)
      ((s.set x { s.side x with sq, acks }).set (!x) (consume you wc)).flow := by
  have hout : (s.flow.party x).out = m :: sq.filterMap (·.request.msg) := by
    simp [Side.flow, hq, hp]
  have hconsume : (consume you wc).flow =
      { you.flow with credits := you.flow.credits - 1, inbox := you.flow.inbox ++ [m] } := by
    simp [consume, Side.flow, hwc]
  rw [flow_set, flow_set, hconsume, hyou]
  exact Flow.Step.deliver hout hr

theorem deliver_flow (h : s.deliver P x = some s') :
    s'.flow = s.flow ∨ Flow.Step Msg.reply s.flow (s.label (.deliver x)) s'.flow := by
  obtain rfl | ⟨len, tag, data, sq, hq, hr, rfl⟩ | ⟨len, d, data, sq, a, hq, -, rfl⟩ |
    ⟨len, d, tag, data, sq, a, hq, -, hr, rfl⟩ | ⟨len, d, payload, sq, a, hq, -, rfl⟩ :=
    deliver_cases h
  · exact .inl (flow_set_of_eq rfl)
  all_goals right; rw [label, hq, List.head?_cons, Option.bind_some]
  · exact consume_flow hq rfl rfl rfl hr
  · rw [flow_set_of_eq, flow_set_of_eq]
    · exact .silent s.flow
    · simp [Side.flow, hq, Request.msg]
    · rw [set_side_not]; rfl
  · exact consume_flow hq rfl rfl rfl hr
  · rw [flow_set_of_eq]
    · exact .silent s.flow
    · simp [Side.flow, hq, Request.msg]

/-- **A step of the session is a step of its messages**, unless it fails. -/
theorem step_flow {a : SysAct} (h : step P s a = some s') :
    s'.flow = s.flow ∨ Flow.Step Msg.reply s.flow (s.label a) s'.flow := by
  cases a with
  | exec x =>
    simp only [step, Option.ite_none_right_eq_some] at h
    exact (exec_flow h.2).imp_left fun h => h.1
  | poll x =>
    simp only [step, Option.ite_none_right_eq_some] at h
    exact .inr (poll_flow h.2)
  | fetch x j =>
    rw [fetch_flow h]
    exact .inr (.silent s.flow)
  | deliver x => exact deliver_flow h
  | complete x =>
    rw [complete_flow h]
    exact .inr (.silent s.flow)

end Sys

/-! ## Invariants -/

/-- **An invariant of the messages holds in every reachable state of the session.** -/
theorem flow_induct {Q : Flow.State Msg → Prop} (hr : Lts.Reachable (Sys.step P) (Sys.init P) s)
    (h₀ : Q (Flow.State.init start))
    (hstep : ∀ t l t', Q t → Flow.Step Msg.reply t l t' → Q t') : Q s.flow := by
  refine hr.induct (P := fun s => Q s.flow) (Sys.flow_init P ▸ h₀) ?_
  intro t a t' ht ha
  rcases Sys.step_flow ha with h | h
  · rw [h]; exact ht
  · exact hstep _ _ _ ht h

theorem regular_reply : Flow.Regular start Msg.reply where
  credit := by rintro (tag | tag) <;> cases tag <;> rfl
  signal := by rintro (tag | tag) <;> cases tag <;> rfl
  await := by rintro (tag | tag) <;> cases tag <;> rfl
  start := rfl

theorem flow_inv (hr : Lts.Reachable (Sys.step P) (Sys.init P) s) :
    Flow.Inv start Msg.reply s.flow :=
  flow_induct hr (.init regular_reply) fun _ _ _ h hs => h.step regular_reply hs

/-- What a side runs: the rest of the established callback, or of the handler
    of the completion it has taken last. -/
structure Side.Running (p : Peer) (me : Side) : Prop where
  suffix : me.todo <:+ p.code me.current
  none : me.current = none → me.handled = []
  some : ∀ wc m, me.current = some wc → wc.msg = some m → m ∈ me.handled

theorem running (hr : Lts.Reachable (Sys.step P) (Sys.init P) s) (x : Bool) :
    (s.side x).Running (P x) := by
  refine Sys.move_induct (R := fun x me _ => me.Running (P x)) hr ?_ ?_ x
  · exact fun x => ⟨List.suffix_rfl, fun _ => rfl, by simp [Side.init]⟩
  intro s _ x me you hx hy hm
  cases hm with
  | @exec o todo me' ht hp =>
    have hf := Side.performed hp
    refine ⟨⟨?_, ?_, ?_⟩, hy⟩
    · exact hf.current ▸ (List.suffix_cons o todo).trans (ht ▸ hx.suffix)
    · simpa only [hf.current, hf.handled] using hx.none
    · simpa only [hf.current, hf.handled] using hx.some
  | poll ht hq =>
    refine ⟨⟨List.suffix_rfl, by simp, ?_⟩, hy⟩
    rintro wc m ⟨⟩ hm
    simp [hm]
  | fail | fetch | read => exact ⟨⟨hx.suffix, hx.none, hx.some⟩, hy⟩
  | send | write | writeImm =>
    exact ⟨⟨hx.suffix, hx.none, hx.some⟩, hy.suffix, hy.none, hy.some⟩
  | @complete ack acks ha =>
    exact ⟨by cases ack <;> exact ⟨hx.suffix, hx.none, hx.some⟩, hy⟩

end RdmaCore

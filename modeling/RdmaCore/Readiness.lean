/-
  Receivers in the default session: is a receive posted for every message in
  flight?  Each side posts two receives, but answers the key with two
  messages, while its own chain of messages goes on.

  * `always_ready_iff`: a run keeps a receive for every message in flight
    exactly when the posts of both sides are spaced (`Spaced`) by the receives
    that their peers have posted again;
  * `not_ready_responseRun`: a run in which they are not.
-/
import RdmaCore.KeyExchange
import Mathlib.Data.List.Infix

namespace RdmaCore

variable {P : Bool → Peer} {s s' : Sys} {x : Bool} {m : Msg}

namespace Sys

/-- Every message in flight finds a receive ("there is a Receive Request in the
    responder side, so we won't get any into RNR flow"). -/
def Ready (s : Sys) : Prop :=
  ∀ x, (s.side x).sq.countP (·.request.msg.isSome) ≤ (s.side (!x)).rq

instance (s : Sys) : Decidable s.Ready := inferInstanceAs (Decidable (∀ _, _))

end Sys

def Op.isRecvRemote : Op → Bool
  | recvRemote => true
  | _ => false

/-- The number of messages for which a side has posted a new receive. -/
def Side.reposted (me : Side) : ℕ := me.handled.length - me.todo.countP Op.isRecvRemote

namespace Sys

/-- The messages of a side for which the peer has not posted a new receive. -/
def owed (s : Sys) (x : Bool) : List Msg := (s.side x).log.drop (s.side (!x)).reposted

/-- A side posts the write with notification only when the receive of its key is
    posted again, and a SEND only when that of the write is, unless no SEND is
    owed. -/
def Spaced (s : Sys) : SysAct → Prop
  | .exec x =>
    match (s.side x).todo with
    | .sendRemote _ _ :: _ =>
      ¬ (.writeImm .responseExchangeKey ∈ s.owed x ∧ ∃ tag, .send tag ∈ s.owed x)
    | .writeRemote _ _ true :: _ => .send .requestExchangeKey ∉ s.owed x
    | _ => True
  | _ => True

end Sys

/-! ## What is owed when a side posts -/

theorem Side.credits_flow (me : Side) :
    Flow.credits me.flow.todo = me.todo.countP Op.isRecvRemote := by
  rw [Side.flow, Flow.credits, List.countP_filterMap]
  refine List.countP_congr fun o _ => ?_
  unfold Op.flow
  split <;> simp_all [Op.isRecvRemote, Flow.Op.isCredit]

theorem not_isSend_script {n : ℕ} : ¬ (script n).isSend ↔ n = 3 := by
  match n with
  | 0 | 1 | 2 | 3 => decide
  | n + 4 => simp [script, Msg.isSend]

theorem Msg.reply_eq (m : Msg) : ∃ rest, m.reply = .credit :: rest ∧ Flow.credits rest = 0 := by
  rcases m with tag | tag <;> cases tag <;> exact ⟨_, rfl, rfl⟩

/-- In the established callback, the receives come before the synchronisation,
    and the message after it. -/
theorem suffix_start {l : List (Flow.Op Msg)} (h : l <:+ start) :
    (l.countP Flow.Op.isSignal = 0 → Flow.credits l = 0) ∧
      ((l.head?.bind Flow.Op.msg).isSome → l.countP Flow.Op.isAwait = 0) := by
  have hall : ∀ l ∈ start.tails, (l.countP Flow.Op.isSignal = 0 → Flow.credits l = 0) ∧
      ((l.head?.bind Flow.Op.msg).isSome → l.countP Flow.Op.isAwait = 0) := by decide
  exact hall l ((List.mem_tails l start).2 h)

section

variable (hr : Lts.Reachable (Sys.step P) (Sys.init P) s) {rest : List (Flow.Op Msg)}
  (hx : (s.side x).flow.todo = .post m :: rest)
include hr hx

/-- A side that posts a message has synchronised with its peer. -/
theorem countP_isAwait_of_post : (s.side x).flow.todo.countP Flow.Op.isAwait = 0 := by
  have hc := flow_todo_suffix hr x
  cases hl : (s.side x).handled.getLast? with
  | none =>
    rw [hl] at hc
    exact (suffix_start hc).2 (by rw [hx]; rfl)
  | some m' =>
    rw [hl] at hc
    exact Nat.le_zero.1 (hc.sublist.countP_le.trans_eq (regular_reply.await m'))

/-- The peer has posted all its receives, or it is at the beginning of a handler. -/
theorem reposted_cases :
    Flow.credits (s.side (!x)).flow.todo = 0 ∨
      ∃ ms m', (s.side (!x)).handled = ms ++ [m'] ∧ (s.side (!x)).flow.todo = m'.reply := by
  have hc := flow_todo_suffix hr (!x)
  rcases List.eq_nil_or_concat (s.side (!x)).handled with hn | ⟨ms, m', hm⟩
  · left
    have hb := (flow_inv hr).barrier (!x)
    rw [Bool.not_not, Sys.flow_party, Sys.flow_party, countP_isAwait_of_post hr hx] at hb
    rw [hn] at hc
    exact (suffix_start hc).1 (by omega)
  · obtain ⟨ops, hops, h0⟩ := m'.reply_eq
    rw [hm, List.concat_eq_append, List.getLast?_concat, Option.map_some, Option.getD_some, hops,
      List.suffix_cons_iff] at hc
    rcases hc with hc | hc
    · right
      exact ⟨ms, m', by rw [hm, List.concat_eq_append], by rw [hc, hops]⟩
    · left
      exact Nat.le_zero.1 (hc.sublist.countP_le.trans_eq h0)

/-- What is owed: what is in flight or not handled, and the message whose handler
    is at its beginning. -/
theorem owed_cases :
    (Flow.credits (s.side (!x)).flow.todo = 0 ∧
      s.owed x = (s.side (!x)).flow.inbox ++ (s.side x).flow.out) ∨
    ∃ m', (s.side (!x)).flow.todo = m'.reply ∧
      s.owed x = m' :: ((s.side (!x)).flow.inbox ++ (s.side x).flow.out) := by
  have ho := log_order hr x
  rcases reposted_cases hr hx with h0 | ⟨ms, m', hm, ht⟩
  · left
    refine ⟨h0, ?_⟩
    rw [Sys.owed, Side.reposted, ← Side.credits_flow, h0, ho, List.append_assoc, Nat.sub_zero,
      List.drop_left]
  · right
    refine ⟨m', ht, ?_⟩
    rw [Sys.owed, Side.reposted, ← Side.credits_flow, ht, regular_reply.credit, ho, hm]
    simp

/-- A new message finds a receive iff at most one message is owed. -/
theorem length_owed_le_one_iff :
    (s.owed x).length ≤ 1 ↔ (s.side x).flow.out.length + 1 ≤ (s.side (!x)).rq := by
  have hk := two_receives hr (!x)
  rcases owed_cases hr hx with ⟨h0, ho⟩ | ⟨m', ht, ho⟩
  · rw [ho, List.length_append]
    omega
  · rw [ht, regular_reply.credit] at hk
    rw [ho, List.length_cons, List.length_append]
    omega

/-- When a side posts a SEND, at most one is owed: the other SEND is the one it answers. -/
theorem countP_owed_le_one (hm : m.isSend) : (s.owed x).countP Msg.isSend ≤ 1 := by
  have htok := (flow_inv hr).tokens countP_posts_reply x
  have hstart : (Flow.posts start).countP Msg.isSend = 1 := rfl
  have hpost : 1 ≤ (Flow.posts (s.side x).flow.todo).countP Msg.isSend := by
    rw [hx, Flow.posts_cons, Flow.Op.msg, Option.toList_some, List.singleton_append,
      List.countP_cons, if_pos hm]
    omega
  simp only [Sys.flow_party] at htok
  rcases owed_cases hr hx with ⟨h0, ho⟩ | ⟨m', ht, ho⟩
  · rw [ho, List.countP_append]
    omega
  · rw [ht, countP_posts_reply] at htok
    rw [ho, List.countP_cons, List.countP_append]
    omega

/-- The message that a side posts is the next one of its script. -/
theorem eq_script_of_post : m = script (s.side x).log.length := by
  have hp := log_append_posts hr x
  rw [hx, Flow.posts_cons, Flow.Op.msg, Option.toList_some, ← List.append_assoc] at hp
  have hpre : (s.side x).log ++ [m] <+: scriptTo (answered (s.side x).handled.length) :=
    hp ▸ List.prefix_append ..
  have hs := (prefix_scriptTo hpre).1
  rw [List.length_append, List.length_singleton, scriptTo_succ] at hs
  exact List.singleton_inj.1 (List.append_inj' hs rfl).2

omit hx in
/-- A message owed that is no SEND is the write with notification. -/
theorem eq_writeImm_of_mem_owed {m : Msg} (h : m ∈ s.owed x) (hm : ¬ m.isSend) :
    m = .writeImm .responseExchangeKey := by
  have hl := List.mem_of_mem_drop h
  rw [log_eq hr x, scriptTo, List.mem_map] at hl
  obtain ⟨i, -, rfl⟩ := hl
  rw [not_isSend_script.1 hm]
  rfl

omit hx in
/-- At most one write with notification is owed. -/
theorem countP_not_isSend_owed_le_one : (s.owed x).countP (fun m => ¬ m.isSend) ≤ 1 := by
  have hc : (s.owed x).countP (fun m => ¬ m.isSend) =
      (s.owed x).count (.writeImm .responseExchangeKey) := by
    refine List.countP_congr fun m hm => ?_
    simp only [decide_eq_true_eq, beq_iff_eq]
    exact ⟨eq_writeImm_of_mem_owed hr hm, by rintro rfl; decide⟩
  rw [hc]
  refine ((List.drop_sublist ..).count_le _).trans ?_
  rw [log_eq hr x]
  exact count_scriptTo_le_one (by decide) _

/-- The side spaces its SENDs iff at most one message is owed. -/
theorem spaced_send_iff (hm : m.isSend) :
    ¬ (.writeImm .responseExchangeKey ∈ s.owed x ∧ ∃ tag, .send tag ∈ s.owed x) ↔
      (s.owed x).length ≤ 1 := by
  have h1 := countP_owed_le_one hr hx hm
  have h2 := countP_not_isSend_owed_le_one hr (x := x)
  rw [List.length_eq_countP_add_countP Msg.isSend]
  constructor
  · intro h
    by_contra hlen
    have hsend : 0 < (s.owed x).countP Msg.isSend := by omega
    have himm : 0 < (s.owed x).countP (fun m => ¬ m.isSend) := by omega
    obtain ⟨m₁, hm₁, hs₁⟩ := List.countP_pos_iff.1 hsend
    obtain ⟨m₂, hm₂, hs₂⟩ := List.countP_pos_iff.1 himm
    refine h ⟨eq_writeImm_of_mem_owed hr hm₂ (by simpa using hs₂) ▸ hm₂, ?_⟩
    cases m₁ with
    | send tag => exact ⟨tag, hm₁⟩
    | writeImm tag => cases hs₁
  · rintro hlen ⟨himm, tag, hsend⟩
    have h3 : 0 < (s.owed x).countP Msg.isSend := List.countP_pos_iff.2 ⟨_, hsend, rfl⟩
    have h4 : 0 < (s.owed x).countP (fun m => ¬ m.isSend) :=
      List.countP_pos_iff.2 ⟨_, himm, rfl⟩
    omega

/-- The side spaces its write with notification iff at most one message is owed. -/
theorem spaced_writeImm_iff (hm : ¬ m.isSend) :
    .send .requestExchangeKey ∉ s.owed x ↔ (s.owed x).length ≤ 1 := by
  rw [eq_script_of_post hr hx, not_isSend_script] at hm
  rw [Sys.owed, log_eq hr x, hm]
  generalize (s.side (!x)).reposted = j
  match j with
  | 0 | 1 | 2 => decide
  | j + 3 => rw [List.drop_eq_nil_of_le (by simp)]; simp

end

/-! ## Posting succeeds -/

/-- The texts fit into the buffers. -/
theorem Peer.length_texts (p : Peer) :
    p.baseToSendData.length ≤ Buf.send.size ∧ p.firstText.length ≤ Buf.send.size ∧
      p.writeText.length ≤ Buf.sink.size := by
  have hi := p.infoOk
  simp only [p.length_baseToSendData, p.length_firstText, p.length_writeText, Buf.size,
    Buf.blockSize]
  omega

theorem Peer.tails_lengths (p : Peer) (c : Option Wc) :
    Tails (fun o _ => (∀ len tag, o = .sendRemote len tag → len ≤ Buf.send.size) ∧
      ∀ len tag notifyPeer, o = .writeRemote len tag notifyPeer → len ≤ Buf.sink.size)
      (p.code c) := by
  obtain ⟨h1, h2, h3⟩ := p.length_texts
  have h4 : CommDescriptor.size ≤ Buf.send.size := by decide
  have hcode := p.codeOf c
  generalize p.code c = ops at hcode ⊢
  cases hcode with
  | established => simp [Tails, establishedFn, fillIn, h2]
  | send => trivial
  | request => simp [Tails, requestExchangeKey, fillIn, h1, h3]
  | test => simp [Tails, testForSyncData, fillIn, h4]
  | other => simp [Tails, otherTag, fillIn, h1]
  | write => simp [Tails, processWriteDone]
  | read => simp [Tails, processReadDone, fillIn, h3]
  | recvWithImm => simp [Tails]

/-- A message that is posted passes the checks of its length. -/
theorem perform_post (hr : Lts.Reachable (Sys.step P) (Sys.init P) s) {o : Op} {todo : List Op}
    (ht : (s.side x).todo = o :: todo) (ho : o.flow = some (.post m)) :
    ∃ me', (s.side x).perform o = .ok me' := by
  obtain ⟨h1, h2⟩ := tails_todo hr ht ((P x).tails_lengths _)
  unfold Op.flow at ho
  split at ho
  · cases ho
  · rename_i len tag
    exact ⟨_, if_pos (h1 len tag rfl)⟩
  · rename_i len tag
    have hs := (keys hr (!x)).2.sound
    rw [Bool.not_not, ht] at hs
    have hlen : len ≤ (s.side x).descriptor.bufferLength.toNat := by
      rw [hs.1.2.1]
      exact h2 len tag true rfl
    exact ⟨_, if_pos ⟨h2 len tag true rfl, hlen⟩⟩
  all_goals cases ho

/-! ## Whole runs -/

namespace Sys

theorem ready_flow (s : Sys) : s.Ready ↔ Flow.Ready s.flow := by
  simp [Ready, Flow.Ready, Side.flow, List.length_filterMap_eq_countP]

theorem ready_init (P : Bool → Peer) : (init P).Ready := by
  intro x; simp [init, Side.init]

/-- Only the thread of a side posts messages. -/
theorem label_eq_post {a : SysAct} (h : s.label a = .op x (.post m)) :
    a = .exec x ∧ ∃ o todo, (s.side x).todo = o :: todo ∧ o.flow = some (.post m) := by
  cases a with
  | exec y =>
    simp only [label] at h
    split at h
    · rename_i o' ho
      obtain ⟨rfl, rfl⟩ := Flow.Label.op.inj h
      obtain ⟨o, hh, ho⟩ := Option.bind_eq_some_iff.1 ho
      obtain ⟨todo, ht⟩ := List.head?_eq_some_iff.1 hh
      exact ⟨rfl, o, todo, ht, ho⟩
    · cases h
  | poll y | deliver y =>
    simp only [label] at h
    split at h <;> cases h
  | fetch y j | complete y => cases h

/-- A post is spaced iff at most one message is owed. -/
theorem spaced_iff (hr : Lts.Reachable (step P) (init P) s) {o : Op} {todo : List Op}
    (ht : (s.side x).todo = o :: todo) (ho : o.flow = some (.post m)) :
    s.Spaced (.exec x) ↔ (s.owed x).length ≤ 1 := by
  have hx := Side.flow_todo ht
  rw [ho] at hx
  unfold Op.flow at ho
  split at ho
  · cases ho
  · obtain rfl := Flow.Op.post.inj (Option.some.inj ho)
    simp only [Spaced, ht]
    exact spaced_send_iff hr hx rfl
  · obtain rfl := Flow.Op.post.inj (Option.some.inj ho)
    simp only [Spaced, ht]
    exact spaced_writeImm_iff hr hx Bool.false_ne_true
  all_goals cases ho

/-- Other actions are spaced. -/
theorem spaced_of_label {a : SysAct} (h : ∀ x m, s.label a ≠ .op x (.post m)) : s.Spaced a := by
  cases a with
  | exec x =>
    simp only [Spaced]
    split
    · rename_i tag todo ht
      exact absurd (by simp [label, ht, Op.flow]) (h x (.send tag))
    · rename_i tag todo ht
      exact absurd (by simp [label, ht, Op.flow]) (h x (.writeImm tag))
    · trivial
  | poll x | fetch x j | deliver x | complete x => trivial

/-- A spaced step keeps a receive for every message. -/
theorem ready_step {a : SysAct} (hr : Lts.Reachable (step P) (init P) s) (h : s.Ready)
    (ha : step P s a = some s') (hc : s.Spaced a) : s'.Ready := by
  rw [ready_flow] at h ⊢
  rcases step_flow ha with hf | hf
  · rw [hf]; exact h
  · refine h.step hf fun x m hl => ?_
    obtain ⟨rfl, o, todo, ht, ho⟩ := label_eq_post hl
    have hx := Side.flow_todo ht
    rw [ho] at hx
    exact (length_owed_le_one_iff hr hx).1 ((spaced_iff hr ht ho).1 hc)

/-- A step that keeps a receive for every message is spaced. -/
theorem spaced_of_ready {a : SysAct} (hr : Lts.Reachable (step P) (init P) s)
    (ha : step P s a = some s') (h : s'.Ready) : s.Spaced a := by
  by_cases hl : ∃ x m, s.label a = .op x (.post m)
  · obtain ⟨x, m, hl⟩ := hl
    obtain ⟨rfl, o, todo, ht, ho⟩ := label_eq_post hl
    have hx := Side.flow_todo ht
    rw [ho] at hx
    simp only [step, Option.ite_none_right_eq_some] at ha
    rw [spaced_iff hr ht ho, length_owed_le_one_iff hr hx]
    rcases exec_flow ha.2 with ⟨-, o', todo', c, ht', hp⟩ | hf
    · -- the post would have failed a check
      obtain ⟨rfl, rfl⟩ := List.cons_eq_cons.1 (ht.symm.trans ht')
      obtain ⟨me', hok⟩ := perform_post hr ht ho
      rw [hok] at hp
      cases hp
    · rw [hl] at hf
      exact ((ready_flow s').1 h).of_post hf
  · exact spaced_of_label fun x m h => hl ⟨x, m, h⟩

/-- **No receiver-not-ready.** In a run of the default session, every message
    in flight finds a receive in all states exactly when all posts are spaced. -/
theorem always_ready_iff (P : Bool → Peer) (as : List SysAct) {s : Sys}
    (hrun : Lts.run (step P) (init P) as = some s) :
    Lts.Always (step P) Ready (init P) as ↔ Lts.Along (step P) Spaced (init P) as := by
  refine Lts.always_iff_along (P := fun s => Lts.Reachable (step P) (init P) s ∧ s.Ready)
    (fun s h => h.2) ?_ ?_ as ⟨.refl _, ready_init P⟩ hrun
  · intro s a s' ⟨hr, h⟩ ha hc
    exact ⟨hr.tail ha, ready_step hr h ha hc⟩
  · intro s a s' ⟨hr, _⟩ ha h
    exact spaced_of_ready hr ha h

/-- A answers the key of B with two messages while its own key is in flight. -/
def responseRun : List SysAct := keyRun ++ List.replicate 10 (.exec true)

/-- Three messages of A are in flight, and B has two receives. -/
theorem not_ready_responseRun :
    ∃ s, Lts.Reachable (step Peer.pair) (init Peer.pair) s ∧ ¬ s.Ready := by
  have h : (Lts.run (step Peer.pair) (init Peer.pair) responseRun).any (¬ ·.Ready) = true := by
    decide +kernel
  obtain ⟨s, hr, hp⟩ := Lts.Reachable.of_any h
  exact ⟨s, hr, by simpa using hp⟩

theorem always_ready_iff_responseRun :
    ∃ s, Lts.run (step Peer.pair) (init Peer.pair) responseRun = some s ∧
      (Lts.Always (step Peer.pair) Ready (init Peer.pair) responseRun ↔
        Lts.Along (step Peer.pair) Spaced (init Peer.pair) responseRun) := by
  have h : (Lts.run (step Peer.pair) (init Peer.pair) responseRun).isSome := by decide +kernel
  obtain ⟨s, hs⟩ := Option.isSome_iff_exists.1 h
  exact ⟨s, hs, always_ready_iff Peer.pair responseRun hs⟩

end Sys

end RdmaCore

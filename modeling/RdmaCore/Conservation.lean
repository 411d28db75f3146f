/-
  Conservation of receives and messages in the default session.

  Each side sends `script`: the greeting, its key, the response, a write with
  notification, and then texts forever.

  * `Scripted`: what a side sends and handles is a prefix of the script;
  * `conserved`: between two handlers, receives and messages are conserved.
-/
import RdmaCore.SessionFlow
import Mathlib.Data.List.Nodup
import Mathlib.Tactic.IntervalCases

namespace RdmaCore

/-! ## The script -/

/-- The messages a side sends. -/
def script : ℕ → Msg
  | 0 => .send .testForSyncData
  | 1 => .send .requestExchangeKey
  | 2 => .send .responseExchangeKey
  | 3 => .writeImm .responseExchangeKey
  | _ => .send .unset

/-- The first `n` messages of the script. -/
def scriptTo (n : ℕ) : List Msg := (List.range n).map script

@[simp] theorem length_scriptTo (n : ℕ) : (scriptTo n).length = n := by simp [scriptTo]

theorem scriptTo_succ (n : ℕ) : scriptTo (n + 1) = scriptTo n ++ [script n] := by
  simp [scriptTo, List.range_succ]

theorem prefix_scriptTo {l : List Msg} {n : ℕ} (h : l <+: scriptTo n) :
    l = scriptTo l.length ∧ l.length ≤ n := by
  have hn : l.length ≤ n := by simpa using h.length_le
  refine ⟨?_, hn⟩
  rw [List.prefix_iff_eq_take.1 h]
  simp [scriptTo, ← List.map_take, List.take_range, hn]

theorem script_of_four_le {n : ℕ} (h : 4 ≤ n) : script n = .send .unset := by
  obtain ⟨k, rfl⟩ := Nat.exists_eq_add_of_le' h
  rfl

/-- The position of a message in the script. -/
theorem script_mem_scriptTo {j n : ℕ} (hj : j ≤ 4) : script j ∈ scriptTo n ↔ j < n := by
  simp only [scriptTo, List.mem_map, List.mem_range]
  constructor
  · rintro ⟨i, hi, h⟩
    by_cases h4 : 4 ≤ i
    · omega
    · rw [Nat.not_le] at h4
      have hij : i = j := by interval_cases i <;> interval_cases j <;> simp_all [script]
      omega
  · intro h
    exact ⟨j, h, rfl⟩

/-- A message other than the texts is in the script once. -/
theorem count_scriptTo_le_one {m : Msg} (hm : m ≠ .send .unset) (n : ℕ) :
    (scriptTo n).count m ≤ 1 := by
  have h4 : (scriptTo 4).count m ≤ 1 := List.nodup_iff_count_le_one.1 (by decide) m
  rcases Nat.le_total n 4 with hn | hn
  · have hp : scriptTo n <+: scriptTo 4 := by
      obtain ⟨k, hk⟩ := Nat.exists_eq_add_of_le hn
      rw [hk, scriptTo, scriptTo, List.range_add, List.map_append]
      exact List.prefix_append ..
    exact (hp.sublist.count_le m).trans h4
  · induction n, hn using Nat.le_induction with
    | base => exact h4
    | succ n hn ih =>
      rw [scriptTo_succ, script_of_four_le hn, List.count_append, List.count_singleton]
      simpa [hm.symm] using ih

/-- The length of what a side sends in answer to `k` messages of the script. -/
def answered (k : ℕ) : ℕ := if k = 2 ∨ k = 3 then k + 2 else k + 1

theorem posts_scriptTo (k : ℕ) :
    Flow.posts start ++ (scriptTo k).flatMap (fun m => Flow.posts m.reply) =
      scriptTo (answered k) := by
  induction k with
  | zero => rfl
  | succ k ih =>
    rw [scriptTo_succ, List.flatMap_append, ← List.append_assoc, ih]
    match k with
    | 0 | 1 | 2 | 3 => rfl
    | k + 4 =>
      have h1 : answered (k + 4) = k + 5 := by simp [answered]
      have h2 : answered (k + 4 + 1) = k + 6 := by simp [answered]
      rw [h1, h2]
      exact (scriptTo_succ (k + 5)).symm

/-- Both sides have handled a prefix of the script. -/
def Scripted (t : Flow.State Msg) : Prop :=
  ∀ x, (t.party x).handled = scriptTo (t.party x).handled.length

section

variable {t t' : Flow.State Msg} {l : Flow.Label Msg}

theorem Scripted.posts (h : Scripted t) (hi : Flow.Inv start Msg.reply t) (x : Bool) :
    (t.party x).sent ++ Flow.posts (t.party x).todo =
      scriptTo (answered (t.party x).handled.length) := by
  rw [hi.posted x, h x, posts_scriptTo, length_scriptTo]

theorem Scripted.sent (h : Scripted t) (hi : Flow.Inv start Msg.reply t) (x : Bool) :
    (t.party x).sent = scriptTo (t.party x).sent.length ∧
      (t.party x).sent.length ≤ answered (t.party x).handled.length :=
  prefix_scriptTo (h.posts hi x ▸ List.prefix_append ..)

theorem Scripted.init : Scripted (Flow.State.init start) := by
  intro x; rfl

theorem Scripted.step (h : Scripted t) (hi : Flow.Inv start Msg.reply t)
    (hs : Flow.Step Msg.reply t l t') : Scripted t' := by
  intro x
  rcases hs.handled_or_sent with hh | hsent
  · rw [hh x]; exact h x
  · have hp := (hi.step regular_reply hs).handled_prefix_sent (!x)
    rw [Bool.not_not, hsent, (h.sent hi (!x)).1] at hp
    exact (prefix_scriptTo hp).1

end

variable {P : Bool → Peer} {s : Sys}

theorem scripted (hr : Lts.Reachable (Sys.step P) (Sys.init P) s) : Scripted s.flow := by
  have h := flow_induct (Q := fun t => Flow.Inv start Msg.reply t ∧ Scripted t) hr
    ⟨.init regular_reply, .init⟩ fun t l t' ⟨hi, h⟩ hs => ⟨hi.step regular_reply hs, h.step hi hs⟩
  exact h.2

/-! ## Conservation -/

def Request.isSend : Request → Bool
  | send _ _ => true
  | _ => false

/-- Receive completions (`IBV_WC_RECV` or `IBV_WC_RECV_RDMA_WITH_IMM`). -/
def Wc.isReceive : Wc → Bool
  | recv _ _ => true
  | recvWithImm _ => true
  | _ => false

/-- `IBV_WC_RECV` -/
def Wc.isRecv : Wc → Bool
  | recv _ _ => true
  | _ => false

/-- The SENDs of a side that are in flight, or delivered and not handled. -/
def Sys.sends (s : Sys) (x : Bool) : ℕ :=
  (s.side x).sq.countP (·.request.isSend) + (s.side (!x)).cq.countP Wc.isRecv

/-- The number of sides that have posted their initial send. -/
def Sys.started (s : Sys) : ℕ := [true, false].countP fun x => (s.side x).log ≠ []

/-- The side has finished `default_established_fn`. -/
def Side.Established (me : Side) : Prop := me.current.isSome ∨ me.todo = []

/-- No handler is running: each side is in the established callback or between
    two handlers. -/
def Sys.Settled (s : Sys) : Prop := ∀ x, (s.side x).current = none ∨ (s.side x).todo = []

structure Sys.Conserved (s : Sys) : Prop where
  /-- receives not consumed and receive completions not handled -/
  receives : ∀ x, (s.side x).Established → (s.side x).rq + (s.side x).cq.countP Wc.isReceive = 2
  sends : s.sends true + s.sends false = s.started
  /-- a response is followed by the write at once -/
  script : ∀ x, ∃ n ≠ 3, (s.side x).log = scriptTo n

def Msg.isSend : Msg → Bool
  | send _ => true
  | writeImm _ => false

/-- Every SEND is answered by one SEND. -/
theorem countP_posts_reply (m : Msg) :
    (Flow.posts m.reply).countP Msg.isSend = if m.isSend then 1 else 0 := by
  rcases m with tag | tag <;> cases tag <;> rfl

section

variable (hr : Lts.Reachable (Sys.step P) (Sys.init P) s)
include hr

/-- What a side has sent and has still to send, by the number of messages it
    has handled. -/
theorem log_append_posts (x : Bool) :
    (s.side x).log ++ Flow.posts (s.side x).flow.todo =
      scriptTo (answered (s.side x).handled.length) :=
  (scripted hr).posts (flow_inv hr) x

theorem log_eq (x : Bool) : (s.side x).log = scriptTo (s.side x).log.length :=
  ((scripted hr).sent (flow_inv hr) x).1

theorem handled_eq (x : Bool) : (s.side x).handled = scriptTo (s.side x).handled.length :=
  scripted hr x

theorem length_log_le (x : Bool) : (s.side x).log.length ≤ answered (s.side x).handled.length :=
  ((scripted hr).sent (flow_inv hr) x).2

theorem length_handled_le (x : Bool) :
    (s.side x).handled.length ≤ (s.side (!x)).log.length := by
  have h := ((flow_inv hr).handled_prefix_sent (!x)).length_le
  rw [Bool.not_not] at h
  exact h

/-- The messages of a side: handled, reported to the peer, or in flight. -/
theorem log_order (x : Bool) :
    (s.side x).log = (s.side (!x)).handled ++ (s.side (!x)).flow.inbox ++ (s.side x).flow.out :=
  (flow_inv hr).order x

/-- The two receives of a side: posted, consumed by a message not yet handled, or
    still to be posted. -/
theorem two_receives (x : Bool) :
    (s.side x).rq + (s.side x).flow.inbox.length + Flow.credits (s.side x).flow.todo = 2 :=
  (flow_inv hr).credits x

theorem flow_todo_suffix (x : Bool) :
    (s.side x).flow.todo <:+ ((s.side x).handled.getLast?.map Msg.reply).getD start :=
  (flow_inv hr).code x

/-- A message other than the texts is sent once. -/
theorem not_mem_log {m : Msg} {x : Bool} (hm : m ≠ .send .unset)
    (h : m ∈ Flow.posts (s.side x).flow.todo) : m ∉ (s.side x).log := by
  intro hl
  have hc := count_scriptTo_le_one hm (answered (s.side x).handled.length)
  rw [← log_append_posts hr x, List.count_append] at hc
  have h1 := List.count_pos_iff.2 h
  have h2 := List.count_pos_iff.2 hl
  omega

namespace Sys.Settled

variable (hs : s.Settled)
include hs

/-- What a side has still to send is its first message. -/
theorem posts (x : Bool) :
    Flow.posts (s.side x).flow.todo = if (s.side x).log = [] then scriptTo 1 else [] := by
  have hp := log_append_posts hr x
  rcases hs x with hc | ht
  · rw [(running hr x).none hc] at hp
    rcases List.append_eq_singleton_iff.1 hp with ⟨h1, h2⟩ | ⟨h1, h2⟩
    · rw [if_pos h1, h2]; rfl
    · rw [if_neg (by simp [h1]), h2]
  · have hf : (s.side x).flow.todo = [] := by simp [Side.flow, ht]
    rw [hf, Flow.posts_nil, List.append_nil] at hp
    rw [hf, if_neg]
    · rfl
    · intro hl
      rw [hl] at hp
      have hlen := congrArg List.length hp
      simp only [List.length_nil, length_scriptTo, answered] at hlen
      split_ifs at hlen

theorem receives (x : Bool) (hx : (s.side x).Established) :
    (s.side x).rq + (s.side x).cq.countP Wc.isReceive = 2 := by
  have ht : (s.side x).todo = [] := by
    rcases hs x with hc | ht
    · exact hx.resolve_left (by simp [hc])
    · exact ht
  have hc := two_receives hr x
  have hq : (s.side x).cq.countP Wc.isReceive = (s.side x).flow.inbox.length := by
    rw [Side.flow, List.length_filterMap_eq_countP]
    exact List.countP_congr fun wc _ => by cases wc <;> simp [Wc.isReceive, Wc.msg]
  have h0 : Flow.credits (s.side x).flow.todo = 0 := by simp [Side.flow, ht, Flow.credits]
  omega

/-- A SEND is posted, or the side has still to send it. -/
theorem countP_posts (x : Bool) :
    (Flow.posts (s.flow.party x).todo).countP Msg.isSend +
      (if (s.side x).log ≠ [] then 1 else 0) = 1 := by
  rw [Sys.flow_party, hs.posts hr x]
  by_cases hl : (s.side x).log = []
  · simp only [hl, if_true, ne_eq, not_true, if_false]; rfl
  · simp [hl]

theorem sends : s.sends true + s.sends false = s.started := by
  have hout : ∀ x, (s.side x).sq.countP (·.request.isSend) =
      (s.flow.party x).out.countP Msg.isSend := by
    intro x
    rw [Sys.flow_party, Side.flow, List.countP_filterMap]
    refine List.countP_congr fun p _ => ?_
    rcases p with ⟨_ | ⟨_, _, _ | _⟩ | _, _⟩ <;> simp [Request.isSend, Request.msg, Msg.isSend]
  have hin : ∀ x, (s.side x).cq.countP Wc.isRecv = (s.flow.party x).inbox.countP Msg.isSend := by
    intro x
    rw [Sys.flow_party, Side.flow, List.countP_filterMap]
    refine List.countP_congr fun wc _ => ?_
    cases wc <;> simp [Wc.isRecv, Wc.msg, Msg.isSend]
  have htok := (flow_inv hr).tokens countP_posts_reply true
  have hstart : (Flow.posts start).countP Msg.isSend = 1 := rfl
  have ht := hs.countP_posts hr true
  have hf := hs.countP_posts hr false
  simp only [Bool.not_true] at htok
  simp only [Sys.sends, Sys.started, hout, hin, List.countP_cons, List.countP_nil,
    decide_eq_true_eq, Bool.not_true, Bool.not_false]
  omega

theorem script (x : Bool) : ∃ n ≠ 3, (s.side x).log = scriptTo n := by
  refine ⟨_, ?_, log_eq hr x⟩
  intro h3
  have hl : (s.side x).log ≠ [] := List.ne_nil_of_length_pos (by omega)
  have hp := log_append_posts hr x
  rw [hs.posts hr x, if_neg hl, List.append_nil] at hp
  rw [hp, length_scriptTo, answered] at h3
  split_ifs at h3 <;> omega

end Sys.Settled

/-- **Conservation.** Whenever no handler is running, the receives and messages
    of the session are conserved, and the messages follow the script. -/
theorem conserved (hs : s.Settled) : s.Conserved :=
  ⟨hs.receives hr, hs.sends hr, hs.script hr⟩

end

/-- The established callbacks of both sides, and B handles the greeting of A. -/
def greetingRun : List SysAct :=
  [List.replicate 4 (.exec true), List.replicate 9 (.exec false), List.replicate 5 (.exec true),
    [.fetch true 0, .deliver true, .poll false], List.replicate 6 (.exec false)].flatten

theorem conserved_greetingRun :
    ∃ s, Lts.Reachable (Sys.step Peer.pair) (Sys.init Peer.pair) s ∧ s.Settled ∧
      (s.side false).handled = [.send .testForSyncData] ∧ s.Conserved := by
  have h : (Lts.run (Sys.step Peer.pair) (Sys.init Peer.pair) greetingRun).any
      (fun s => (s.side true).todo.isEmpty && (s.side false).todo.isEmpty &&
        (s.side false).handled = [.send .testForSyncData]) = true := by decide +kernel
  obtain ⟨s, hr, hp⟩ := Lts.Reachable.of_any h
  simp only [Bool.and_eq_true, List.isEmpty_iff, decide_eq_true_eq] at hp
  obtain ⟨⟨ht, hf⟩, hh⟩ := hp
  have hs : s.Settled := fun x => .inr (by cases x <;> assumption)
  exact ⟨s, hr, hs, hh, conserved hr hs⟩

end RdmaCore

/-
  Progress of the service of example/mesh_comm_service.cc.

  * `Service.never_stuck`: some thread or the network can always act;
  * `Service.actions_le`: all but a bounded number of the actions of a run are
    spent on its writes, eight for each;
  * `Service.writes_forever`: every run goes on to handle more writes.

  The bound comes from a rank: what is left to do until the next write of a
  channel is reported, as a weighted count of the connection (`effort`).
-/
import RdmaCore.TowerRuns

namespace RdmaCore

namespace Tower

variable {n : ℕ} {P : Bool → Fin n → Placement} {s s' : Service n}

/-! ## No deadlock -/

namespace Service

/-- No action is possible. -/
def Stuck (s : Service n) : Prop := ∀ a, s.step a = none

/-- A thread that cannot act is done, or waits for its peer to synchronise. -/
theorem Stuck.todo (h : s.Stuck) (hg : s.Good P) (t : ThreadId n) : (s.thread t).todo = [] ∨
    ∃ c todo, (s.thread t).todo = (c, .syncRecv) :: todo ∧ s.synced (!t.isNone) c = 0 := by
  have hexec := h (.exec t)
  simp only [step, hg.running t, if_true, exec] at hexec
  split at hexec
  · next ht => exact .inl ht
  · cases hexec
  · next c todo ht =>
    refine .inr ⟨c, todo, ht, ?_⟩
    split_ifs at hexec with hs
    omega
  · split at hexec <;> cases hexec

theorem Stuck.cq (h : s.Stuck) (hg : s.Good P) {t : ThreadId n} (ht : (s.thread t).todo = []) :
    (s.thread t).batch = [] ∧ (s.thread t).cq = [] := by
  have hbatch : (s.thread t).batch = [] := by
    have hhandle := h (.handle t)
    simp only [step, hg.running t, if_true, handle, ht] at hhandle
    cases hb : (s.thread t).batch with
    | nil => rfl
    | cons e batch => rw [hb] at hhandle; cases hhandle
  refine ⟨hbatch, ?_⟩
  have hpoll := h (.poll t 1)
  simp only [step, hg.running t, if_true, poll, ht, hbatch] at hpoll
  cases hcq : (s.thread t).cq with
  | nil => rfl
  | cons e cq => simp [hcq] at hpoll

theorem Stuck.acks (h : s.Stuck) (x : Bool) (c : Fin n) : (s.chan x c).acks = [] := by
  have hcomplete := h (.complete x c)
  simp only [step, complete] at hcomplete
  split at hcomplete
  · next ha => exact ha
  · cases hcomplete

theorem Stuck.sq (h : s.Stuck) (hg : s.Good P) (x : Bool) (c : Fin n) : (s.chan x c).sq = [] := by
  obtain ⟨loaded, hl⟩ := hg.link c
  have hdeliver := h (.deliver x c)
  have hfetch := h (.fetch x c 0)
  simp only [step, deliver, fetch] at hdeliver hfetch
  cases hq : (s.chan x c).sq with
  | nil => rfl
  | cons r sq =>
    obtain ⟨request, payload⟩ := r
    rw [hq] at hdeliver hfetch
    cases payload with
    | none => cases hfetch
    | some data =>
      obtain ⟨b, len, tag, rfl, hlen, hrq⟩ | ⟨b, rfl, ha⟩ := hl.deliver_ok (x := x) hq
      · obtain ⟨i, rq, hr⟩ := List.exists_cons_of_ne_nil hrq
        rw [link_chan] at hr
        simp [hr, hlen] at hdeliver
      · rw [link_chan] at ha
        simp [ha] at hdeliver

/-- A side that waits for its peer has sent its own signal. -/
theorem count_syncSend_of_code {x : Bool} {todo : List Op}
    (h : Code x (.syncRecv :: todo)) : (Op.syncRecv :: todo).count .syncSend = 0 := by
  cases h with
  | cons hn => cases hn; cases x <;> rfl

/-- A thread that waits at the barrier of a channel, as a side of it. -/
theorem Good.waiting (hg : s.Good P) {x : Bool} {c : Fin n} {todo : List (Fin n × Op)}
    (ht : (s.thread (threadOf x c)).todo = (c, .syncRecv) :: todo) :
    0 < ((s.link c).side x).todo.count .syncRecv ∧
      ((s.link c).side x).todo.count .syncSend = 0 := by
  obtain ⟨loaded, hl⟩ := hg.link c
  have hcode := (hl.side x).code
  rw [todo_self ht] at hcode ⊢
  exact ⟨by rw [List.count_cons_self]; omega, count_syncSend_of_code hcode⟩

theorem Stuck.todo_server (h : s.Stuck) (hg : s.Good P) : (s.thread none).todo = [] := by
  obtain ht | ⟨c, todo, ht, hs⟩ := h.todo hg none
  · exact ht
  · exfalso
    obtain ⟨loaded, hl⟩ := hg.link c
    have hbarrier := hl.counts.barrier false
    obtain ⟨hwait, -⟩ := hg.waiting (x := true) ht
    have hsynced : (s.link c).synced false = 0 := hs
    have hsend : ((s.link c).side false).todo.count .syncSend = 0 := by
      obtain ht' | ⟨c', todo', ht', -⟩ := h.todo hg (some c)
      · rw [link_todo, show threadOf false c = some c from rfl, ht']
        rfl
      · obtain rfl : c' = c := (hg.owned c).todo (c', .syncRecv) (ht' ▸ List.mem_cons_self)
        exact (hg.waiting (x := false) ht').2
    rw [Bool.not_false] at hbarrier
    omega

theorem Stuck.todo_client (h : s.Stuck) (hg : s.Good P) (c : Fin n) :
    (s.thread (some c)).todo = [] := by
  obtain ht | ⟨c', todo, ht, hs⟩ := h.todo hg (some c)
  · exact ht
  · exfalso
    obtain rfl : c' = c := (hg.owned c).todo (c', .syncRecv) (ht ▸ List.mem_cons_self)
    obtain ⟨loaded, hl⟩ := hg.link c'
    have hbarrier := hl.counts.barrier true
    obtain ⟨hwait, -⟩ := hg.waiting (x := false) ht
    have hsynced : (s.link c').synced true = 0 := hs
    have hserver : ((s.link c').side true).todo = [] := by
      rw [link_todo, show threadOf true c' = none from rfl, h.todo_server hg]
      rfl
    rw [Bool.not_true, hserver, List.count_nil] at hbarrier
    omega

theorem Stuck.todo_eq_nil (h : s.Stuck) (hg : s.Good P) : ∀ t, (s.thread t).todo = []
  | none => h.todo_server hg
  | some c => h.todo_client hg c

theorem Good.exists_step (hpos : 0 < n) (hg : s.Good P) : ∃ a s', s.step a = some s' := by
  by_contra hno
  have hstuck : s.Stuck := fun a => Option.eq_none_iff_forall_ne_some.2 fun s' hs =>
    hno ⟨a, s', hs⟩
  obtain ⟨loaded, hl⟩ := hg.link ⟨0, hpos⟩
  have hunloaded := hl.counts.unloaded
  have hwrites := hl.counts.writes
  -- all queues of the first channel are empty
  have htodo (x : Bool) : ((s.link ⟨0, hpos⟩).side x).todo = [] := by
    rw [link_todo, hstuck.todo_eq_nil hg]
    rfl
  have hcq (x : Bool) : ((s.link ⟨0, hpos⟩).side x).cq = [] := by
    obtain ⟨hbatch, hcq⟩ := hstuck.cq hg (hstuck.todo_eq_nil hg (threadOf x ⟨0, hpos⟩))
    rw [link_cq, hbatch, hcq]
    rfl
  simp only [LinkEnd.messages, LinkEnd.queued, LinkEnd.received, htodo, hcq, link_chan,
    hstuck.sq hg, hstuck.acks, List.map_nil, List.count_nil, List.countP_nil, numBlock]
    at hunloaded hwrites
  omega

/-- **The service never gets stuck**: there is always a thread or a part of the
    network that can act. -/
theorem never_stuck (hpos : 0 < n) (hn : n ≤ 64) (h : Lts.Reachable step (init P) s) :
    ∃ a s', s.step a = some s' :=
  (Good.reachable hn h).exists_step hpos

theorem never_stuck_one : ∃ s, Lts.Reachable step one s ∧
    (s.chan false 0).sq.map (·.request.kind) = List.replicate 125 .write ∧
    ∃ a s', s.step a = some s' := by
  obtain ⟨s, hs, -, hsq, -⟩ := exists_reachable_writing
  exact ⟨s, hs, hsq, never_stuck (by decide) (by decide) hs⟩

end Service

/-! ## The rank of a channel -/

open Conduit (Weight sumOf)

/-- The actions that are left until the requests and completions lead to no
    more than writes that are reported.  Each handler costs its operations. -/
def effort : Weight Op Kind where
  sq
    | true, .send => 647
    | false, .send => 661
    | _, .write => 4
  ack
    | _, .send => 5
    | _, .write => 2
  sent
    | _, .send => 3
    | _, .write => 0
  received
    | true, .send => 653
    | false, .send => 639
    | _, .write => 0
  extra _ _ := 1

/-- The requests whose payload is fetched. -/
def LinkEnd.fetched (e : LinkEnd) : ℕ := e.chan.sq.countP (·.payload.isSome)

namespace Link

/-- The rank of a channel. -/
def rank (l : Link) : ℤ :=
  effort.total program l.flow - (l.side true).fetched - (l.side false).fetched

/-- What a step takes off the rank, at least; only the handler of a write adds to it. -/
def Label.cost : Label → ℤ
  | op _ _ => 1
  | handle _ wc => if wc = .sent .write then -7 else 1
  | fetch _ => 1
  | deliver _ .send => 2
  | deliver _ .write => 1
  | report _ _ => 2

variable {l l' : Link} {lab : Label}

theorem rank_eq (l : Link) (x : Bool) : l.rank =
    effort.total program l.flow - (l.side x).fetched - (l.side (!x)).fetched := by
  cases x
  · rw [rank, Bool.not_false]; omega
  · rfl

theorem fetched_performs {me me' : Chan} {o : Op} (hp : me.Performs o me') :
    me'.sq.countP (·.payload.isSome) = me.sq.countP (·.payload.isSome) := by
  cases hp <;> simp

theorem countP_fetch {sq : List Posted} {j : ℕ} {r : Request} (hj : sq[j]? = some ⟨r, none⟩)
    (data : Option (List UInt8)) (hdata : data.isSome = true) :
    (sq.set j ⟨r, data⟩).countP (·.payload.isSome) = sq.countP (·.payload.isSome) + 1 := by
  obtain ⟨hlt, hget⟩ := List.getElem?_eq_some_iff.1 hj
  rw [List.countP_set hlt, hget]
  simp [hdata]

theorem gain_handle {x : Bool} {wc : Wc} (h : wc.Expected x) :
    effort.gain program (.handle x [] wc.completion (handler x wc)) ≤
      -(Label.handle x wc).cost := by
  cases wc with
  | sent k =>
    cases k with
    | send => cases x <;> decide
    | write =>
      obtain hk | rfl := h
      · cases hk
      · decide
  | recv imm =>
    obtain rfl : imm = (expectedTag x).toImm := h
    cases x with
    | true => decide
    | false =>
      rw [show handler false (.recv (expectedTag false).toImm) =
          [.decreaseRqe, .ackRecv, .loadNext] ++ List.replicate (numBlock - 1) .writeNext from rfl,
        Weight.gain, Conduit.sumOf_append, Conduit.sumOf_replicate]
      decide

/-- **Every step of a channel takes its cost off the rank.** -/
theorem rank_step (hs : Link.Step l lab l') (hw : ∀ x, ∀ wc ∈ (l.side x).cq, wc.Expected x) :
    l'.rank + lab.cost ≤ l.rank := by
  have hflow := step_flow hs hw
  cases hs with
  | @perform x o todo reported me ht hs hr hp =>
    have htotal := Weight.total_step (w := effort) (show Conduit.Step _ _ _ _ from hflow)
    have hfetched : LinkEnd.fetched { l.side x with todo, chan := me } = (l.side x).fetched :=
      fetched_performs (Chan.performs hp)
    rw [rank_eq l x, rank_eq _ x, set_side_self, set_side_not, hfetched, htotal]
    simp only [Weight.gain, Label.cost, effort]
    omega
  | @syncSend x todo ht =>
    have htotal := Weight.total_step (w := effort) (show Conduit.Step _ _ _ _ from hflow)
    rw [rank_eq l x, rank_eq _ x, htotal, setSynced_side, set_side_self, set_side_not]
    simp only [Weight.gain, Label.cost, effort, LinkEnd.fetched]
    omega
  | @syncRecv x todo ht hpos =>
    have htotal := Weight.total_step (w := effort) (show Conduit.Step _ _ _ _ from hflow)
    rw [rank_eq l x, rank_eq _ x, htotal, setSynced_side, set_side_self, set_side_not]
    simp only [Weight.gain, Label.cost, effort, LinkEnd.fetched]
    omega
  | @handle x wc cq ht hq =>
    have htotal := Weight.total_step (w := effort) (show Conduit.Step _ _ _ _ from hflow)
    have hgain := gain_handle (hw x wc (hq ▸ List.mem_cons_self))
    rw [rank_eq l x, rank_eq _ x, htotal, set_side_self, set_side_not]
    simp only [LinkEnd.fetched]
    omega
  | @fetch x j r hj =>
    have htotal : effort.total program _ = effort.total program l.flow :=
      congrArg (effort.total program) (show _ = l.flow from hflow)
    have hfetched := countP_fetch hj
      (some ((l.side x).chan.sendMem.read (r.block * blockSize) r.len)) rfl
    rw [rank_eq l x, rank_eq _ x, htotal, set_side_self, set_side_not]
    simp only [LinkEnd.fetched, Label.cost, hfetched, Nat.cast_succ]
    omega
  | @message x b len i tag data sq rq hq hr =>
    have htotal := Weight.total_step (w := effort) (show Conduit.Step _ _ _ _ from hflow)
    rw [rank_eq l x, rank_eq _ x, htotal, set_side_self, set_not_side, set_side_self]
    cases x <;>
      simp [LinkEnd.fetched, hq, Weight.gain, Label.cost, effort, program] <;> omega
  | @write x b len a d data sq hq ha =>
    have htotal := Weight.total_step (w := effort) (show Conduit.Step _ _ _ _ from hflow)
    rw [rank_eq l x, rank_eq _ x, htotal, set_side_self, set_not_side, set_side_self]
    cases x <;>
      simp [LinkEnd.fetched, hq, Weight.gain, Label.cost, effort, program] <;> omega
  | @report x k acks ha =>
    have htotal := Weight.total_step (w := effort) (show Conduit.Step _ _ _ _ from hflow)
    rw [rank_eq l x, rank_eq _ x, htotal, set_side_self, set_side_not]
    cases k <;> simp only [LinkEnd.fetched, Weight.gain, Label.cost, effort] <;> omega

theorem fetched_le (e : LinkEnd) : (e.fetched : ℤ) ≤ e.queued .send + e.queued .write := by
  have hle : e.fetched ≤ e.chan.sq.length := List.countP_le_length
  have hlen := length_kinds (e.chan.sq.map (·.request.kind))
  rw [List.length_map] at hlen
  simp only [LinkEnd.queued]
  omega

theorem rank_nonneg (l : Link) : 0 ≤ l.rank := by
  have htrue := fetched_le (l.side true)
  have hfalse := fetched_le (l.side false)
  simp only [rank, Weight.total, flow_side, ofEnd_flow]
  simp only [effort, Conduit.sumOf_const, Int.mul_zero, Int.add_zero, Int.sub_zero]
  omega

/-- The rank of a channel at the start. -/
theorem rank_init (c : Fin n) : ((Service.init P).link c).rank = 922 := by
  have hchan (x : Bool) : (LinkEnd.init x c (P x c)).chan = Chan.init c (P x c) := rfl
  have hcq (x : Bool) : (LinkEnd.init x c (P x c)).cq = [] := rfl
  have htodo (x : Bool) : (LinkEnd.init x c (P x c)).todo = start x := rfl
  have hlen (x : Bool) : (start x).length = if x then 130 else 131 := by
    rw [start_eq, receives, List.length_append, List.length_replicate]
    cases x <;> rfl
  simp only [rank, Weight.total, flow_side, ofEnd_flow, Service.link_init, LinkEnd.messages_init,
    LinkEnd.queued, LinkEnd.received, LinkEnd.fetched, htodo, hcq, hchan,
    count_start (o := .writeNext) (by decide)]
  simp [effort, hlen, Chan.init, afterSync]

end Link

namespace Service

/-- The completions in the completion queues. -/
def waiting (s : Service n) : ℤ := (s.thread none).cq.length +
  sumOf (fun c => ((s.thread (some c)).cq.length : ℤ)) (List.finRange n)

/-- The rank of the service. -/
def rank (s : Service n) : ℤ := sumOf (fun c => (s.link c).rank) (List.finRange n) + s.waiting

/-- The thread turns to the completion of a write. -/
def handlesWrite (s : Service n) : Act n → Bool
  | .handle t => (s.thread t).batch.head?.any (·.2 = .sent .write)
  | _ => false

theorem waiting_congr (h : ∀ t, (s'.thread t).cq = (s.thread t).cq) : s'.waiting = s.waiting := by
  simp only [waiting, h]

theorem waiting_setThread (t : ThreadId n) (th : Thread n) :
    (s.setThread t th).waiting = s.waiting - (s.thread t).cq.length + th.cq.length := by
  cases t with
  | none => simp [waiting, setThread]; omega
  | some c =>
    have hsum := Conduit.sumOf_update (f := fun c => ((s.thread (some c)).cq.length : ℤ))
      (g := fun c' => (((s.setThread (some c) th).thread (some c')).cq.length : ℤ))
      (List.nodup_finRange n) (List.mem_finRange c) fun c' hc => by simp [setThread, hc]
    simp only [waiting, hsum]
    simp [setThread]
    omega

theorem waiting_push (x : Bool) (c : Fin n) (wc : Wc) :
    (s.push x c wc).waiting = s.waiting + 1 := by
  rw [push, waiting_setThread, List.length_append, List.length_singleton]
  omega

theorem StepIn.rank_add_cost {c : Fin n} {lab : Link.Label} (h : s.StepIn c lab s')
    (hg : s.Good P) : s'.rank - s'.waiting + lab.cost ≤ s.rank - s.waiting := by
  obtain ⟨loaded, hl⟩ := hg.link c
  have hstep := Link.rank_step h.step fun x => (hl.side x).cq
  have hsum := Conduit.sumOf_update (f := fun c => (s.link c).rank)
    (g := fun c => (s'.link c).rank) (List.nodup_finRange n) (List.mem_finRange c)
    fun c' hc => congrArg Link.rank (h.frame c' hc)
  simp only [rank, hsum]
  omega

theorem cq_exec {t : ThreadId n} (h : s.exec t = some s') (t' : ThreadId n) :
    (s'.thread t').cq = (s.thread t').cq := by
  have hset (th : Thread n) (hth : th.cq = (s.thread t).cq) :
      ((s.setThread t th).thread t').cq = (s.thread t').cq := by
    by_cases ht : t' = t
    · subst ht; simpa [setThread] using hth
    · simp [setThread, ht]
  unfold exec at h
  simp only at h
  split at h
  · cases h
  · obtain rfl := Option.some.inj h
    exact hset _ rfl
  · split_ifs at h
    obtain rfl := Option.some.inj h
    exact hset _ rfl
  · split at h
    · obtain rfl := Option.some.inj h
      exact hset _ rfl
    · obtain rfl := Option.some.inj h
      exact hset _ rfl

theorem waiting_fail (t : ThreadId n) (f : Failure) : (s.fail t f).waiting = s.waiting := by
  rw [fail, waiting_setThread]
  exact Int.sub_add_cancel ..

theorem waiting_deliver {x : Bool} {c : Fin n} (h : s.deliver x c = some s') :
    s'.waiting ≤ s.waiting + 1 := by
  obtain ⟨b, len, tag, data, sq, i, rq, -, -, ⟨-, rfl⟩ | ⟨-, rfl⟩⟩ |
    ⟨b, len, d, data, sq, -, ⟨a, -, rfl⟩ | ⟨-, rfl⟩⟩ := deliver_cases h
  · rw [waiting_push]
    exact le_rfl
  · rw [waiting_fail]
    omega
  · show s.waiting ≤ _
    omega
  · rw [waiting_fail]
    omega

/-- **Every action takes at least one off the rank**, but for the handler of a
    write, which adds at most seven. -/
theorem rank_step {a : Act n} (hg : s.Good P) (hs : s.step a = some s') :
    s'.rank + (if s.handlesWrite a then -7 else 1) ≤ s.rank := by
  have hf := (hg.step hs).running
  cases a with
  | exec t =>
    simp only [step, Option.ite_none_right_eq_some] at hs
    obtain ⟨c, x, o, hin⟩ := stepIn_exec hg.owned hs.2 hf
    have hcost := hin.rank_add_cost hg
    rw [waiting_congr (cq_exec hs.2)] at hcost
    simp only [Link.Label.cost, handlesWrite, Bool.false_eq_true, if_false] at hcost ⊢
    omega
  | poll t k =>
    simp only [step, Option.ite_none_right_eq_some] at hs
    have hlink := link_poll hs.2
    obtain ⟨-, hs⟩ := hs
    unfold poll at hs
    simp only at hs
    split_ifs at hs with hp
    obtain rfl := Option.some.inj hs
    simp only [rank, hlink, waiting_setThread, List.length_drop, handlesWrite, Bool.false_eq_true,
      if_false]
    omega
  | handle t =>
    simp only [step, Option.ite_none_right_eq_some] at hs
    obtain ⟨c, wc, batch, hb, hin⟩ := stepIn_handle hg.owned hs.2
    have hcost := hin.rank_add_cost hg
    have hwaiting : s'.waiting = s.waiting := by
      obtain ⟨-, hs⟩ := hs
      unfold handle at hs
      simp only at hs
      split at hs
      · obtain rfl := Option.some.inj hs
        rw [waiting_setThread]
        exact Int.sub_add_cancel ..
      · cases hs
    have hwrite : s.handlesWrite (.handle t) = decide (wc = .sent .write) := by
      simp [handlesWrite, hb]
    rw [hwaiting] at hcost
    simp only [Link.Label.cost] at hcost
    simp only [hwrite, decide_eq_true_eq]
    omega
  | fetch x c j =>
    have hcost := (stepIn_fetch hs).rank_add_cost hg
    have hwaiting : s'.waiting = s.waiting := by
      simp only [step, fetch] at hs
      split at hs
      · obtain rfl := Option.some.inj hs
        rfl
      · cases hs
    rw [hwaiting] at hcost
    simp only [Link.Label.cost, handlesWrite, Bool.false_eq_true, if_false] at hcost ⊢
    omega
  | deliver x c =>
    obtain ⟨k, hin, hthread⟩ := stepIn_deliver hs hf
    have hcost := hin.rank_add_cost hg
    have hwaiting := waiting_deliver hs
    cases k with
    | send =>
      simp only [Link.Label.cost, handlesWrite, Bool.false_eq_true, if_false] at hcost ⊢
      omega
    | write =>
      have hsame : s'.waiting = s.waiting := waiting_congr fun t => by rw [hthread rfl]
      simp only [Link.Label.cost, handlesWrite, Bool.false_eq_true, if_false] at hcost ⊢
      omega
  | complete x c =>
    obtain ⟨k, hin⟩ := stepIn_complete hs
    have hcost := hin.rank_add_cost hg
    have hwaiting : s'.waiting = s.waiting + 1 := by
      simp only [step, complete] at hs
      split at hs
      · cases hs
      · obtain rfl := Option.some.inj hs
        rw [waiting_push]
        rfl
    rw [hwaiting] at hcost
    simp only [Link.Label.cost, handlesWrite, Bool.false_eq_true, if_false] at hcost ⊢
    omega

theorem rank_nonneg (s : Service n) : 0 ≤ s.rank := by
  have hsum : 0 ≤ sumOf (fun c => (s.link c).rank) (List.finRange n) :=
    Conduit.sumOf_nonneg fun c => (s.link c).rank_nonneg
  have hcq : 0 ≤ sumOf (fun c => ((s.thread (some c)).cq.length : ℤ)) (List.finRange n) :=
    Conduit.sumOf_nonneg fun c => Int.natCast_nonneg _
  simp only [rank, waiting]
  omega

theorem rank_init (P : Bool → Fin n → Placement) : (init P).rank = 922 * n := by
  have hcq (t : ThreadId n) : (((init P).thread t).cq.length : ℤ) = 0 := by cases t <;> rfl
  simp only [rank, waiting, Link.rank_init, hcq, Conduit.sumOf_const, List.length_finRange]
  omega

/-- The writes whose completions are handled in a run. -/
def handledWrites : Service n → List (Act n) → ℕ
  | _, [] => 0
  | s, a :: as =>
    (if s.handlesWrite a then 1 else 0) + ((s.step a).map fun s' => handledWrites s' as).getD 0

theorem rank_run (as : List (Act n)) {s s' : Service n} (hg : s.Good P)
    (h : Lts.run step s as = some s') :
    s'.rank + as.length ≤ s.rank + 8 * s.handledWrites as := by
  induction as generalizing s with
  | nil =>
    obtain rfl := Option.some.inj h
    simp [handledWrites]
  | cons a as ih =>
    rw [Lts.run_cons, Option.bind_eq_some_iff] at h
    obtain ⟨s₁, ha, h⟩ := h
    have hrest := ih (hg.step ha) h
    have hstep := rank_step hg ha
    simp only [handledWrites, ha, Option.map_some, Option.getD_some, List.length_cons,
      Nat.cast_add, Nat.cast_one]
    split_ifs at hstep ⊢ <;> simp only [Nat.cast_one, Nat.cast_zero] <;> omega

/-- **All actions but `922` for each channel are spent on writes**, eight for
    each: a write is posted, fetched, delivered, reported, polled and handled,
    and its block and its count are given back. -/
theorem actions_le (hn : n ≤ 64) {as : List (Act n)} (h : Lts.run step (init P) as = some s) :
    as.length ≤ 922 * n + 8 * (init P).handledWrites as := by
  have hrun := rank_run as (.init hn P) h
  have hpos := s.rank_nonneg
  rw [rank_init] at hrun
  omega

theorem actions_le_one : ∃ as s, Lts.run step one as = some s ∧ as.length = 418 ∧
    as.length ≤ 922 * 1 + 8 * one.handledWrites as := by
  obtain ⟨s, s', hs, hs', -⟩ := exists_writing
  have hrun : Lts.run step one (answering ++ writing) = some s' := by
    rw [Lts.run_append, hs, Option.bind_some, hs']
  have hlen : (answering ++ writing).length = 418 := by
    simp only [answering, writing, List.length_append, List.length_replicate, List.length_cons,
      List.length_nil]
  generalize answering ++ writing = as at hrun hlen
  exact ⟨as, s', hrun, hlen, actions_le (by decide) hrun⟩

theorem Good.exists_run (hpos : 0 < n) (hg : s.Good P) (m : ℕ) :
    ∃ as s', Lts.run Service.step s as = some s' ∧ as.length = m := by
  induction m generalizing s with
  | zero => exact ⟨[], s, rfl, rfl⟩
  | succ m ih =>
    obtain ⟨a, s₁, ha⟩ := hg.exists_step hpos
    obtain ⟨as, s', has, hlen⟩ := ih (hg.step ha)
    exact ⟨a :: as, s', by rw [Lts.run_cons, ha]; exact has, by rw [List.length_cons, hlen]⟩

/-- **The service writes for ever**: every run goes on to handle any number of writes. -/
theorem writes_forever (hpos : 0 < n) (hn : n ≤ 64) {as : List (Act n)}
    (h : Lts.run step (init P) as = some s) (k : ℕ) :
    ∃ bs s', Lts.run step (init P) (as ++ bs) = some s' ∧
      k ≤ (init P).handledWrites (as ++ bs) := by
  obtain ⟨bs, s', hbs, hlen⟩ := (Good.reachable hn ⟨as, h⟩).exists_run hpos (922 * n + 8 * k)
  have hrun : Lts.run step (init P) (as ++ bs) = some s' := by
    rw [Lts.run_append, h]
    exact hbs
  have hle := rank_run (as ++ bs) (.init hn P) hrun
  have hpos' := s'.rank_nonneg
  rw [rank_init, List.length_append] at hle
  exact ⟨bs, s', hrun, by omega⟩

theorem writes_forever_one : ∃ bs s', Lts.run step one ([] ++ bs) = some s' ∧
    1000 ≤ one.handledWrites ([] ++ bs) :=
  writes_forever (s := one) (by decide) (by decide) rfl 1000

end Service

end Tower

end RdmaCore

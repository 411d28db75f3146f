/-
  Dispatch of completions (`RDMASession::running` and `RDMASession::process_CQ`
  in src/rdma_session.cc, `real_poll_completion_queue` in src/rdma_device.cc).

  * `running` groups the channels of a session by completion queue and starts
    one thread per group; the map it fills is an association list, whose keys
    differ by construction;
  * a thread polls the channels of its group in turn, at most 128 completions
    at a time into the array `global_wc`, and calls one handler per entry.
    Poll and calls are separate steps, so completions may arrive and other
    threads may run between them;
  * `ThreadInv`: per queue, the calls made, the entries of the array that are
    still to be handled and the completions still queued are, in this order,
    what has arrived.
-/
import RdmaCore.Lib.Lts
import Mathlib.Data.List.AList
import Mathlib.Logic.Function.Basic

namespace RdmaCore

/-! ## Completions -/

/-- `enum ibv_wc_status` -/
inductive WcStatus where
  | success
  | error (code : ℕ)
  deriving DecidableEq, Repr

/-- `enum ibv_wc_opcode`, with a name for the values `process_CQ` knows. -/
inductive WcOpcode where
  | send
  | recv
  | rdmaWrite
  | rdmaRead
  | recvRdmaWithImm
  | other (code : ℕ)
  deriving DecidableEq, Repr

/-- `struct ibv_wc` -/
structure WorkCompletion where
  wrId : UInt64
  status : WcStatus
  opcode : WcOpcode
  immData : UInt32
  deriving DecidableEq, Repr

/-- The handlers of a session. -/
inductive Handler where
  | processSendDone
  | processRecvDone
  | processWriteDone
  | processReadDone
  | processRecvWriteWithImmDone
  deriving DecidableEq, Repr

/-- The `switch` of `process_CQ`. -/
def WcOpcode.handler : WcOpcode → Option Handler
  | send => some .processSendDone
  | recv => some .processRecvDone
  | rdmaWrite => some .processWriteDone
  | rdmaRead => some .processReadDone
  | recvRdmaWithImm => some .processRecvWriteWithImmDone
  | other _ => none

/-- The completions that a session answers, each with its callback. -/
def callbacks : List (WcOpcode × Handler) :=
  [(.send, .processSendDone), (.recv, .processRecvDone), (.rdmaWrite, .processWriteDone),
    (.rdmaRead, .processReadDone), (.recvRdmaWithImm, .processRecvWriteWithImmDone)]

/-- **The switch agrees with the table**, and knows no other opcode. -/
theorem WcOpcode.handler_eq_lookup (o : WcOpcode) : o.handler = callbacks.lookup o := by
  cases o <;> rfl

/-- The `LOG(FATAL)`s of `process_CQ`. -/
inductive CqFatal where
  /-- "[WARNING]: Encounting unsuccess wqe, for: ..." -/
  | unsuccessWqe
  /-- "Unknown opcode from ..." -/
  | unknownOpcode
  deriving DecidableEq, Repr

namespace WorkCompletion

/-- A successful completion with a callback for its opcode. -/
def Known (wc : WorkCompletion) : Prop :=
  wc.status = .success ∧ (callbacks.lookup wc.opcode).isSome = true

instance (wc : WorkCompletion) : Decidable wc.Known := inferInstanceAs (Decidable (_ ∧ _))

/-- The body of the loop over the polled entries: the handler that is called. -/
def process (wc : WorkCompletion) : Except CqFatal Handler :=
  if wc.status ≠ .success then .error .unsuccessWqe
  else
    match wc.opcode.handler with
    | some h => .ok h
    | none => .error .unknownOpcode

/-- The call a completion is to be answered with: its callback and the completion. -/
def call (wc : WorkCompletion) : Option Handler × WorkCompletion :=
  (callbacks.lookup wc.opcode, wc)

theorem process_eq_ok {wc : WorkCompletion} {h : Handler} (hp : wc.process = .ok h) :
    callbacks.lookup wc.opcode = some h := by
  rw [← WcOpcode.handler_eq_lookup]
  simp only [process] at hp
  split at hp
  · cases hp
  · split at hp
    · next h' hh => cases hp; exact hh
    · cases hp

theorem Known.process {wc : WorkCompletion} (hk : wc.Known) :
    ∃ h, wc.process = .ok h := by
  obtain ⟨hs, ho⟩ := hk
  rw [← WcOpcode.handler_eq_lookup] at ho
  obtain ⟨h, hh⟩ := Option.isSome_iff_exists.1 ho
  exact ⟨h, by simp [WorkCompletion.process, hs, hh]⟩

end WorkCompletion

/-! ## Channels by completion queue -/

/-- The connected endpoints of a session: the channels of `end_point_mgr_`,
    each owned by its endpoint, and the completion queue each of them uses. -/
structure EndPointMgr (χ κ : Type) where
  channels : List χ
  completQ : χ → κ
  nodup : channels.Nodup

namespace EndPointMgr

variable {χ κ : Type} [DecidableEq κ]

/-- The map `all_channel` of `running`. -/
abbrev ChannelMap (χ κ : Type) := AList fun _ : κ => List χ

/-- The loop body of `running`. -/
def addChannel (completQ : χ → κ) (allChannel : ChannelMap χ κ) (channel : χ) : ChannelMap χ κ :=
  let allChannel :=
    if (allChannel.lookup (completQ channel)).isNone then
      allChannel.insert (completQ channel) []
    else allChannel
  allChannel.insert (completQ channel)
    ((allChannel.lookup (completQ channel)).getD [] ++ [channel])

variable (E : EndPointMgr χ κ)

/-- The map filled by `running`. -/
def allChannel : ChannelMap χ κ := E.channels.foldl (addChannel E.completQ) ∅

/-- The arguments of the `process_CQ` threads started by `running`. -/
def groups : List (List χ) := E.allChannel.entries.map (·.2)

theorem lookup_addChannel (completQ : χ → κ) (m : ChannelMap χ κ) (c : χ) (k : κ) :
    (addChannel completQ m c).lookup k =
      if k = completQ c then some ((m.lookup k).getD [] ++ [c]) else m.lookup k := by
  by_cases hk : k = completQ c
  · subst hk
    rw [if_pos rfl, addChannel, AList.lookup_insert]
    split
    · next hn =>
      rw [AList.lookup_insert, Option.isNone_iff_eq_none.1 hn]
      rfl
    · rfl
  · rw [if_neg hk, addChannel, AList.lookup_insert_ne hk]
    split
    · rw [AList.lookup_insert_ne hk]
    · rfl

/-- The map holds the channels `l`, in order, under their completion queues. -/
def Grouped (completQ : χ → κ) (m : ChannelMap χ κ) (l : List χ) : Prop :=
  ∀ k g, m.lookup k = some g ↔ g = l.filter (completQ · = k) ∧ g ≠ []

theorem Grouped.addChannel {completQ : χ → κ} {m : ChannelMap χ κ} {l : List χ}
    (h : Grouped completQ m l) (c : χ) :
    Grouped completQ (addChannel completQ m c) (l ++ [c]) := by
  intro k g
  rw [lookup_addChannel, List.filter_append]
  by_cases hk : k = completQ c
  · subst hk
    have hget : (m.lookup (completQ c)).getD [] = l.filter (completQ · = completQ c) := by
      cases hm : m.lookup (completQ c) with
      | some g' => exact ((h _ _).1 hm).1
      | none =>
        by_contra hne
        rw [(h (completQ c) _).2 ⟨rfl, fun he => hne he.symm⟩] at hm
        cases hm
    simp only [if_pos, hget, Option.some.injEq, decide_true, List.filter_cons_of_pos,
      List.filter_nil]
    constructor
    · rintro rfl
      exact ⟨rfl, by simp⟩
    · rintro ⟨rfl, -⟩
      rfl
  · rw [if_neg hk, h k g, List.filter_cons_of_neg (by simpa using fun he => hk he.symm),
      List.filter_nil, List.append_nil]

theorem Grouped.foldl {completQ : χ → κ} (cs : List χ) {m : ChannelMap χ κ} {l : List χ}
    (h : Grouped completQ m l) :
    Grouped completQ (cs.foldl (EndPointMgr.addChannel completQ) m) (l ++ cs) := by
  induction cs generalizing m l with
  | nil => rw [List.append_nil]; exact h
  | cons c cs ih =>
    have hnext := ih (h.addChannel c)
    rw [List.append_assoc] at hnext
    exact hnext

/-- Under a queue stand the channels that use it. -/
theorem lookup_allChannel (k : κ) (g : List χ) :
    E.allChannel.lookup k = some g ↔ g = E.channels.filter (E.completQ · = k) ∧ g ≠ [] := by
  have h₀ : Grouped E.completQ (∅ : ChannelMap χ κ) [] := by
    intro k g
    rw [AList.lookup_empty]
    constructor
    · intro h; cases h
    · rintro ⟨rfl, h⟩; exact absurd rfl h
  exact h₀.foldl E.channels k g

theorem getElem?_groups {i : ℕ} {g : List χ} (h : E.groups[i]? = some g) :
    ∃ k, E.allChannel.entries[i]? = some ⟨k, g⟩ ∧ g = E.channels.filter (E.completQ · = k) ∧
      g ≠ [] := by
  rw [groups, List.getElem?_map, Option.map_eq_some_iff] at h
  obtain ⟨⟨k, g'⟩, he, rfl⟩ := h
  have hl := AList.mem_lookup_iff.2 (List.mem_of_getElem? he)
  exact ⟨k, he, (E.lookup_allChannel k g').1 hl⟩

/-- The channels of a group have one completion queue. -/
theorem completQ_of_mem_group {i : ℕ} {g : List χ} (h : E.groups[i]? = some g) {c c' : χ}
    (hc : c ∈ g) (hc' : c' ∈ g) : E.completQ c = E.completQ c' := by
  obtain ⟨k, -, rfl, -⟩ := E.getElem?_groups h
  have hck := of_decide_eq_true (List.mem_filter.1 hc).2
  have hck' := of_decide_eq_true (List.mem_filter.1 hc').2
  rw [hck, hck']

/-- Different threads poll different queues. -/
theorem group_of_completQ {i j : ℕ} {g g' : List χ} (h : E.groups[i]? = some g)
    (h' : E.groups[j]? = some g') {c c' : χ} (hc : c ∈ g) (hc' : c' ∈ g')
    (he : E.completQ c = E.completQ c') : i = j := by
  obtain ⟨k, hi, rfl, -⟩ := E.getElem?_groups h
  obtain ⟨k', hj, rfl, -⟩ := E.getElem?_groups h'
  have hck := of_decide_eq_true (List.mem_filter.1 hc).2
  have hck' := of_decide_eq_true (List.mem_filter.1 hc').2
  have hkk : k = k' := by rw [← hck, ← hck', he]
  have hki : E.allChannel.keys[i]? = some k := by
    rw [AList.keys, List.keys, List.getElem?_map, hi, Option.map_some]
  have hkj : E.allChannel.keys[j]? = some k := by
    rw [AList.keys, List.keys, List.getElem?_map, hj, Option.map_some, ← hkk]
  obtain ⟨hlt, hget⟩ := List.getElem?_eq_some_iff.1 hki
  obtain ⟨hlt', hget'⟩ := List.getElem?_eq_some_iff.1 hkj
  exact (E.allChannel.keys_nodup.getElem_inj_iff).1 (hget.trans hget'.symm)

/-- Every channel is in a group. -/
theorem exists_group {c : χ} (hc : c ∈ E.channels) :
    ∃ (i : ℕ) (g : List χ), E.groups[i]? = some g ∧ c ∈ g := by
  have hmem : c ∈ E.channels.filter (E.completQ · = E.completQ c) :=
    List.mem_filter.2 ⟨hc, decide_eq_true rfl⟩
  have hl := (E.lookup_allChannel (E.completQ c) _).2 ⟨rfl, List.ne_nil_of_mem hmem⟩
  have he := AList.mem_lookup_iff.1 hl
  obtain ⟨i, hi⟩ := List.getElem?_of_mem he
  exact ⟨i, _, by rw [groups, List.getElem?_map, hi, Option.map_some], hmem⟩

end EndPointMgr

/-! ## The threads -/

/-- A `process_CQ` thread. -/
structure Poller (χ : Type) where
  aggregatedChannels : List χ
  /-- `established_done_` has returned -/
  established : Bool := false
  /-- the position of the loop over the channels -/
  next : ℕ := 0
  /-- `each_channel` of the last poll -/
  eachChannel : Option χ := none
  /-- the entries of `global_wc` written so far -/
  globalWc : List WorkCompletion := []
  numWqe : ℤ := 0
  wqeIndex : ℕ := 0

/-- A call of a handler, with the channel whose poll returned the completion. -/
structure HandlerCall (χ : Type) where
  eachChannel : χ
  handler : Handler
  wc : WorkCompletion

structure DispatchState (χ κ : Type) where
  /-- the completions that have arrived in a queue and were not polled -/
  queued : κ → List WorkCompletion := fun _ => []
  /-- all completions that have arrived in a queue -/
  arrived : κ → List WorkCompletion := fun _ => []
  threads : List (Poller χ)
  calls : List (HandlerCall χ) := []
  fatal : Option CqFatal := none

/-- A completion arrives, or a thread takes its next step. -/
inductive DispatchAct (κ : Type) where
  | arrive (cq : κ) (wc : WorkCompletion)
  | establishedDone (thread : ℕ)
  | poll (thread : ℕ) (numWqe : ℤ)
  | process (thread : ℕ)

/-- `ibv_poll_cq`: for a result `r ≥ 0` the oldest `r` completions are moved
    from the queue to the array; an error (`r < 0`) leaves both alone. -/
def pollCompletionQueue (queue : List WorkCompletion) (expected : ℕ) (r : ℤ) :
    Option (List WorkCompletion × List WorkCompletion) :=
  if r < 0 then some ([], queue)
  else if r.toNat ≤ expected ∧ r.toNat ≤ queue.length then
    some (queue.take r.toNat, queue.drop r.toNat)
  else none

namespace Poller

variable {χ : Type}

/-- The inner loop has an entry to process. -/
def Busy (t : Poller χ) : Prop := (t.wqeIndex : ℤ) < t.numWqe

instance (t : Poller χ) : Decidable t.Busy := inferInstanceAs (Decidable (_ < _))

/-- The polled entries that are still to be processed. -/
def batch (t : Poller χ) : List WorkCompletion := (t.globalWc.take t.numWqe.toNat).drop t.wqeIndex

theorem batch_of_not_busy {t : Poller χ} (h : ¬ t.Busy) : t.batch = [] := by
  refine List.drop_eq_nil_of_le ?_
  rw [List.length_take]
  unfold Busy at h
  omega

/-- The array and the loop variables after a poll of `channel`. -/
def polled (t : Poller χ) (channel : χ) (r : ℤ) (wcs : List WorkCompletion) : Poller χ :=
  { t with
    next := (t.next + 1) % t.aggregatedChannels.length
    eachChannel := some channel
    globalWc := wcs ++ t.globalWc.drop wcs.length
    numWqe := r
    wqeIndex := 0 }

theorem batch_polled (t : Poller χ) (c : χ) {r : ℤ} {wcs : List WorkCompletion}
    (h : r.toNat = wcs.length) : (t.polled c r wcs).batch = wcs := by
  simp only [batch, polled, h, List.drop_zero, List.take_left]

theorem batch_of_busy {t : Poller χ} {wc : WorkCompletion} (h : t.Busy)
    (hwc : t.globalWc[t.wqeIndex]? = some wc) :
    t.batch = wc :: { t with wqeIndex := t.wqeIndex + 1 }.batch := by
  have hlt : t.wqeIndex < t.numWqe.toNat := by unfold Busy at h; omega
  have hget : (t.globalWc.take t.numWqe.toNat)[t.wqeIndex]? = some wc := by
    rw [List.getElem?_take_of_lt hlt, hwc]
  obtain ⟨hlen, hget⟩ := List.getElem?_eq_some_iff.1 hget
  rw [batch, List.drop_eq_getElem_cons hlen, hget]
  rfl

end Poller

theorem pollCompletionQueue_spec {queue wcs rest : List WorkCompletion} {expected : ℕ} {r : ℤ}
    (h : pollCompletionQueue queue expected r = some (wcs, rest)) :
    wcs ++ rest = queue ∧ r.toNat = wcs.length := by
  simp only [pollCompletionQueue] at h
  split at h
  · next hr =>
    cases h
    exact ⟨rfl, by simp; omega⟩
  · split at h
    · next hlen =>
      cases h
      exact ⟨List.take_append_drop _ _, by rw [List.length_take]; omega⟩
    · cases h

namespace DispatchState

variable {χ κ : Type} [DecidableEq κ] (E : EndPointMgr χ κ)

/-- `running`, when the threads start. -/
def init : DispatchState χ κ where
  threads := E.groups.map fun g => { aggregatedChannels := g }

def setThread (s : DispatchState χ κ) (i : ℕ) (t : Poller χ) : DispatchState χ κ :=
  { s with threads := s.threads.set i t }

/-- `poll_cq_batch(global_wc, 128)` of the next channel of a thread. -/
def poll (s : DispatchState χ κ) (i : ℕ) (r : ℤ) : Option (DispatchState χ κ) := do
  let t ← s.threads[i]?
  guard (t.established = true ∧ ¬ t.Busy)
  let channel ← t.aggregatedChannels[t.next]?
  let (wcs, rest) ← pollCompletionQueue (s.queued (E.completQ channel)) 128 r
  pure { s.setThread i (t.polled channel r wcs) with
    queued := Function.update s.queued (E.completQ channel) rest }

/-- One iteration of the loop over the polled entries. -/
def process (s : DispatchState χ κ) (i : ℕ) : Option (DispatchState χ κ) := do
  let t ← s.threads[i]?
  guard (t.established = true ∧ t.Busy)
  let eachChannel ← t.eachChannel
  let wc ← t.globalWc[t.wqeIndex]?
  match wc.process with
  | .ok handler =>
    pure { s.setThread i { t with wqeIndex := t.wqeIndex + 1 } with
      calls := s.calls ++ [{ eachChannel, handler, wc }] }
  | .error f => pure { s with fatal := some f }

def step (s : DispatchState χ κ) (a : DispatchAct κ) : Option (DispatchState χ κ) :=
  if s.fatal.isSome then none
  else
    match a with
    | .arrive cq wc =>
      some { s with
        queued := Function.update s.queued cq (s.queued cq ++ [wc])
        arrived := Function.update s.arrived cq (s.arrived cq ++ [wc]) }
    | .establishedDone i => do
      let t ← s.threads[i]?
      guard (t.established = false)
      pure (s.setThread i { t with established := true })
    | .poll i r => s.poll E i r
    | .process i => s.process i

/-- The handler calls for completions polled from a queue, in order. -/
def callsOn (s : DispatchState χ κ) (k : κ) : List (Option Handler × WorkCompletion) :=
  (s.calls.filter fun c => E.completQ c.eachChannel = k).map fun c => (some c.handler, c.wc)

/-- What a step does, by the part of `process_CQ` it is taken from. -/
inductive Move (s : DispatchState χ κ) : DispatchState χ κ → Prop where
  | arrive (cq : κ) (wc : WorkCompletion) :
    Move s { s with
      queued := Function.update s.queued cq (s.queued cq ++ [wc])
      arrived := Function.update s.arrived cq (s.arrived cq ++ [wc]) }
  | establishedDone {i : ℕ} {t : Poller χ} (ht : s.threads[i]? = some t) :
    Move s (s.setThread i { t with established := true })
  | poll {i : ℕ} {t : Poller χ} {c : χ} {r : ℤ} {wcs rest : List WorkCompletion}
    (ht : s.threads[i]? = some t) (hidle : ¬ t.Busy)
    (hc : t.aggregatedChannels[t.next]? = some c)
    (hr : pollCompletionQueue (s.queued (E.completQ c)) 128 r = some (wcs, rest)) :
    Move s { s.setThread i (t.polled c r wcs) with
      queued := Function.update s.queued (E.completQ c) rest }
  | process {i : ℕ} {t : Poller χ} {c : χ} {wc : WorkCompletion} {h : Handler}
    (ht : s.threads[i]? = some t) (hbusy : t.Busy) (hc : t.eachChannel = some c)
    (hwc : t.globalWc[t.wqeIndex]? = some wc) (hp : wc.process = .ok h) :
    Move s { s.setThread i { t with wqeIndex := t.wqeIndex + 1 } with
      calls := s.calls ++ [⟨c, h, wc⟩] }
  | fatal {i : ℕ} {t : Poller χ} {c : χ} {wc : WorkCompletion} {f : CqFatal}
    (ht : s.threads[i]? = some t) (hbusy : t.Busy) (hc : t.eachChannel = some c)
    (hwc : t.globalWc[t.wqeIndex]? = some wc) (hp : wc.process = .error f) :
    Move s { s with fatal := some f }

variable {E} {s s' : DispatchState χ κ} {a : DispatchAct κ}

theorem step_move (h : s.step E a = some s') : Move E s s' := by
  simp only [step] at h
  split at h
  · cases h
  cases a with
  | arrive cq wc => cases h; exact .arrive cq wc
  | establishedDone i =>
    simp only [bind, Option.bind_eq_some_iff, pure, Option.some.injEq] at h
    obtain ⟨t, ht, -, -, rfl⟩ := h
    exact .establishedDone ht
  | poll i r =>
    simp only [poll, bind, Option.bind_eq_some_iff, pure, Option.some.injEq,
      Option.guard_eq_some'] at h
    obtain ⟨t, ht, -, hg, c, hc, ⟨wcs, rest⟩, hr, rfl⟩ := h
    exact .poll ht hg.2 hc hr
  | process i =>
    simp only [process, bind, Option.bind_eq_some_iff, Option.guard_eq_some'] at h
    obtain ⟨t, ht, -, hg, c, hc, wc, hwc, h⟩ := h
    split at h
    · next hd hp => cases h; exact .process ht hg.2 hc hwc hp
    · next f hp => cases h; exact .fatal ht hg.2 hc hwc hp

section
variable {i : ℕ} {t : Poller χ} {c : χ}

theorem step_establishedDone (hs : s.fatal = none) (ht : s.threads[i]? = some t)
    (hest : t.established = false) :
    s.step E (.establishedDone i) = some (s.setThread i { t with established := true }) := by
  simp [step, hs, ht, hest, guard, pure]

theorem step_poll {r : ℤ} {wcs rest : List WorkCompletion} (hs : s.fatal = none)
    (ht : s.threads[i]? = some t) (hest : t.established = true) (hidle : ¬ t.Busy)
    (hc : t.aggregatedChannels[t.next]? = some c)
    (hr : pollCompletionQueue (s.queued (E.completQ c)) 128 r = some (wcs, rest)) :
    s.step E (.poll i r) = some { s.setThread i (t.polled c r wcs) with
      queued := Function.update s.queued (E.completQ c) rest } := by
  simp [step, hs, poll, ht, hest, hidle, hc, hr, guard, pure]

theorem step_process {wc : WorkCompletion} {h : Handler} (hs : s.fatal = none)
    (ht : s.threads[i]? = some t) (hest : t.established = true) (hbusy : t.Busy)
    (hc : t.eachChannel = some c) (hwc : t.globalWc[t.wqeIndex]? = some wc)
    (hp : wc.process = .ok h) :
    s.step E (.process i) = some { s.setThread i { t with wqeIndex := t.wqeIndex + 1 } with
      calls := s.calls ++ [⟨c, h, wc⟩] } := by
  simp [step, hs, process, ht, hest, hbusy, hc, hwc, hp, guard, pure]

end

/-! ## The accounts of a thread -/

variable (E) in
/-- A thread between two steps: the loop is at a channel of its group, the
    array holds the polled entries, and for the queue it polls the calls
    made, the rest of the batch and the rest of the queue are what arrived. -/
structure ThreadInv (s : DispatchState χ κ) (t : Poller χ) : Prop where
  next : t.next < t.aggregatedChannels.length
  loaded : t.numWqe.toNat ≤ t.globalWc.length
  polled : t.Busy → ∃ c ∈ t.aggregatedChannels, t.eachChannel = some c
  accounts : ∀ c ∈ t.aggregatedChannels,
    s.callsOn E (E.completQ c) ++ (t.batch ++ s.queued (E.completQ c)).map WorkCompletion.call =
      (s.arrived (E.completQ c)).map WorkCompletion.call

variable (E) in
structure DispatchInv (s : DispatchState χ κ) : Prop where
  groups : s.threads.map (·.aggregatedChannels) = E.groups
  thread : ∀ (i : ℕ) t, s.threads[i]? = some t → ThreadInv E s t
  fatal : s.fatal.isSome = true → ∃ k, ∃ wc ∈ s.arrived k, ¬ wc.Known

theorem dispatchInv_init (E : EndPointMgr χ κ) : DispatchInv E (init E) where
  groups := by simp [init, Function.comp_def]
  thread i t ht := by
    simp only [init, List.getElem?_map, Option.map_eq_some_iff] at ht
    obtain ⟨g, hg, rfl⟩ := ht
    obtain ⟨k, -, -, hne⟩ := E.getElem?_groups hg
    refine ⟨List.length_pos_iff.2 hne, Nat.le_refl _, fun hb => ?_, fun c _ => rfl⟩
    exact absurd hb (by simp [Poller.Busy])
  fatal h := by cases h

omit [DecidableEq κ] in
theorem getElem?_setThread {i j : ℕ} {t t' u : Poller χ} (ht : s.threads[i]? = some t)
    (hu : (s.setThread i t').threads[j]? = some u) :
    (j = i ∧ u = t') ∨ (j ≠ i ∧ s.threads[j]? = some u) := by
  obtain ⟨hlt, -⟩ := List.getElem?_eq_some_iff.1 ht
  by_cases hj : j = i
  · subst hj
    simp only [setThread, List.getElem?_set_self hlt, Option.some.injEq] at hu
    exact Or.inl ⟨rfl, hu.symm⟩
  · rw [setThread, List.getElem?_set_ne (Ne.symm hj)] at hu
    exact Or.inr ⟨hj, hu⟩

omit [DecidableEq κ] in
theorem groups_setThread {i : ℕ} {t t' : Poller χ} (ht : s.threads[i]? = some t)
    (h : t'.aggregatedChannels = t.aggregatedChannels) :
    (s.setThread i t').threads.map (·.aggregatedChannels) =
      s.threads.map (·.aggregatedChannels) := by
  refine List.ext_getElem? fun j => ?_
  rw [setThread, List.getElem?_map, List.getElem?_map, List.getElem?_set]
  split
  · next hij =>
    subst hij
    obtain ⟨hlt, -⟩ := List.getElem?_eq_some_iff.1 ht
    rw [if_pos hlt, ht, Option.map_some, Option.map_some, h]
  · rfl

theorem DispatchInv.group (h : DispatchInv E s) {i : ℕ} {t : Poller χ}
    (ht : s.threads[i]? = some t) : E.groups[i]? = some t.aggregatedChannels := by
  rw [← h.groups, List.getElem?_map, ht, Option.map_some]

/-- The queue of a thread is not polled by the others. -/
theorem DispatchInv.completQ_ne (h : DispatchInv E s) {i j : ℕ} {t u : Poller χ} {c c' : χ}
    (ht : s.threads[i]? = some t) (hu : s.threads[j]? = some u) (hij : j ≠ i)
    (hc : c ∈ t.aggregatedChannels) (hc' : c' ∈ u.aggregatedChannels) :
    E.completQ c' ≠ E.completQ c := by
  intro he
  exact hij (E.group_of_completQ (h.group hu) (h.group ht) hc' hc he)

/-- A thread whose queue and calls a step does not touch. -/
theorem ThreadInv.frame {t : Poller χ} (h : ThreadInv E s t)
    (hsame : ∀ c ∈ t.aggregatedChannels, s'.callsOn E (E.completQ c) = s.callsOn E (E.completQ c) ∧
      s'.queued (E.completQ c) = s.queued (E.completQ c) ∧
      s'.arrived (E.completQ c) = s.arrived (E.completQ c)) : ThreadInv E s' t where
  next := h.next
  loaded := h.loaded
  polled := h.polled
  accounts c hc := by
    obtain ⟨h1, h2, h3⟩ := hsame c hc
    rw [h1, h2, h3]
    exact h.accounts c hc

theorem DispatchInv.arrive (h : DispatchInv E s) (cq : κ) (wc : WorkCompletion) :
    DispatchInv E { s with
      queued := Function.update s.queued cq (s.queued cq ++ [wc])
      arrived := Function.update s.arrived cq (s.arrived cq ++ [wc]) } where
  groups := h.groups
  thread i t ht := by
    refine ⟨(h.thread i t ht).next, (h.thread i t ht).loaded, (h.thread i t ht).polled, ?_⟩
    intro c hc
    have hacc := (h.thread i t ht).accounts c hc
    show s.callsOn E _ ++ List.map _ (t.batch ++ Function.update s.queued cq _ _) =
      List.map _ (Function.update s.arrived cq _ _)
    by_cases hk : E.completQ c = cq
    · subst hk
      rw [Function.update_self, Function.update_self, ← List.append_assoc, List.map_append,
        ← List.append_assoc, hacc, List.map_append]
    · rw [Function.update_of_ne hk, Function.update_of_ne hk]
      exact hacc
  fatal hf := by
    obtain ⟨k, wc', hmem, hwc'⟩ := h.fatal hf
    refine ⟨k, wc', ?_, hwc'⟩
    show wc' ∈ Function.update s.arrived cq _ k
    by_cases hk : k = cq
    · subst hk
      rw [Function.update_self]
      exact List.mem_append_left _ hmem
    · rw [Function.update_of_ne hk]
      exact hmem

theorem DispatchInv.poll (h : DispatchInv E s) {i : ℕ} {t : Poller χ} {c : χ} {r : ℤ}
    {wcs rest : List WorkCompletion} (ht : s.threads[i]? = some t) (hidle : ¬ t.Busy)
    (hc : t.aggregatedChannels[t.next]? = some c)
    (hr : pollCompletionQueue (s.queued (E.completQ c)) 128 r = some (wcs, rest)) :
    DispatchInv E { s.setThread i (t.polled c r wcs) with
      queued := Function.update s.queued (E.completQ c) rest } where
  groups := by
    rw [← h.groups]
    exact groups_setThread ht rfl
  thread j u hu := by
    obtain ⟨hsplit, hlen⟩ := pollCompletionQueue_spec hr
    have hmem := List.mem_of_getElem? hc
    have hti := h.thread i t ht
    rcases getElem?_setThread ht hu with ⟨rfl, rfl⟩ | ⟨hij, hu⟩
    · refine ⟨Nat.mod_lt _ (Nat.lt_of_le_of_lt (Nat.zero_le _) hti.next), ?_,
        fun _ => ⟨c, hmem, rfl⟩, ?_⟩
      · simp only [Poller.polled, List.length_append, hlen]
        omega
      · intro c' hc'
        have hacc := hti.accounts c hmem
        rw [Poller.batch_of_not_busy hidle, List.nil_append] at hacc
        have hcc : E.completQ c' = E.completQ c := E.completQ_of_mem_group (h.group ht) hc' hmem
        show s.callsOn E _ ++ List.map _ (_ ++ Function.update s.queued _ rest _) = _
        rw [hcc, Function.update_self, Poller.batch_polled t c hlen, hsplit]
        exact hacc
    · refine (h.thread j u hu).frame fun c' hc' => ⟨rfl, ?_, rfl⟩
      exact Function.update_of_ne (h.completQ_ne ht hu hij hmem hc') _ _
  fatal := h.fatal

theorem callsOn_append {x : HandlerCall χ} (h : s'.calls = s.calls ++ [x]) {k : κ} :
    s'.callsOn E k =
      s.callsOn E k ++ if E.completQ x.eachChannel = k then [(some x.handler, x.wc)] else [] := by
  rw [callsOn, h, List.filter_append, List.map_append]
  by_cases hk : E.completQ x.eachChannel = k
  · simp [hk, callsOn]
  · simp [hk, callsOn]

/-- The call of a handler is the call its completion asks for. -/
theorem DispatchInv.process (h : DispatchInv E s) {i : ℕ} {t : Poller χ} {c : χ}
    {wc : WorkCompletion} {hd : Handler} (ht : s.threads[i]? = some t) (hbusy : t.Busy)
    (hc : t.eachChannel = some c) (hwc : t.globalWc[t.wqeIndex]? = some wc)
    (hp : wc.process = .ok hd) :
    DispatchInv E { s.setThread i { t with wqeIndex := t.wqeIndex + 1 } with
      calls := s.calls ++ [⟨c, hd, wc⟩] } where
  groups := by
    rw [← h.groups]
    exact groups_setThread ht rfl
  thread j u hu := by
    have hti := h.thread i t ht
    obtain ⟨c₀, hmem, hc₀⟩ := hti.polled hbusy
    obtain rfl : c = c₀ := Option.some.inj (hc.symm.trans hc₀)
    rcases getElem?_setThread ht hu with ⟨rfl, rfl⟩ | ⟨hij, hu⟩
    · refine ⟨hti.next, hti.loaded, fun _ => ⟨c, hmem, hc⟩, fun c' hc' => ?_⟩
      have hcc : E.completQ c = E.completQ c' := E.completQ_of_mem_group (h.group ht) hmem hc'
      have hacc := hti.accounts c' hc'
      have hcall : wc.call = (some hd, wc) := by
        rw [WorkCompletion.call, WorkCompletion.process_eq_ok hp]
      rw [Poller.batch_of_busy hbusy hwc, List.cons_append, List.map_cons, hcall] at hacc
      rw [callsOn_append rfl, if_pos hcc, List.append_assoc]
      exact hacc
    · refine (h.thread j u hu).frame fun c' hc' => ⟨?_, rfl, rfl⟩
      have hne := h.completQ_ne ht hu hij hmem hc'
      rw [callsOn_append rfl, if_neg (Ne.symm hne), List.append_nil]
  fatal := h.fatal

/-- What a thread has polled has arrived in its queue. -/
theorem ThreadInv.mem_arrived {t : Poller χ} (h : ThreadInv E s t) {c : χ}
    (hc : c ∈ t.aggregatedChannels) {wc : WorkCompletion} (hwc : wc ∈ t.batch) :
    wc ∈ s.arrived (E.completQ c) := by
  have hmem : wc.call ∈ (s.arrived (E.completQ c)).map WorkCompletion.call := by
    rw [← h.accounts c hc]
    exact List.mem_append_right _ (List.mem_map_of_mem (List.mem_append_left _ hwc))
  obtain ⟨wc', hwc', he⟩ := List.mem_map.1 hmem
  obtain rfl : wc' = wc := congrArg Prod.snd he
  exact hwc'

theorem DispatchInv.step (h : DispatchInv E s) (hs : s.step E a = some s') : DispatchInv E s' := by
  cases step_move hs with
  | arrive cq wc => exact h.arrive cq wc
  | establishedDone ht =>
    refine ⟨?_, fun j u hu => ?_, h.fatal⟩
    · rw [← h.groups]
      exact groups_setThread ht rfl
    rcases getElem?_setThread ht hu with ⟨rfl, rfl⟩ | ⟨-, hu⟩
    · have hti := h.thread j _ ht
      exact ⟨hti.next, hti.loaded, hti.polled, hti.accounts⟩
    · exact (h.thread j u hu).frame fun c _ => ⟨rfl, rfl, rfl⟩
  | poll ht hidle hc hr => exact h.poll ht hidle hc hr
  | process ht hbusy hc hwc hp => exact h.process ht hbusy hc hwc hp
  | @fatal i t c wc f ht hbusy hc hwc hp =>
    refine ⟨h.groups, fun j u hu => (h.thread j u hu).frame fun c _ => ⟨rfl, rfl, rfl⟩, fun _ => ?_⟩
    have hti := h.thread i t ht
    obtain ⟨c₀, hmem, -⟩ := hti.polled hbusy
    refine ⟨E.completQ c₀, wc, hti.mem_arrived hmem ?_, fun hk => ?_⟩
    · rw [Poller.batch_of_busy hbusy hwc]
      exact List.mem_cons_self
    · obtain ⟨hd, hok⟩ := hk.process
      rw [hok] at hp
      cases hp

theorem dispatchInv_reachable (h : Lts.Reachable (DispatchState.step E) (init E) s) :
    DispatchInv E s :=
  h.induct (dispatchInv_init E) fun _ _ _ hi hs => hi.step hs

/-- The handler of a known completion is called, whatever else arrives. -/
theorem DispatchInv.fatal_eq_none (h : DispatchInv E s)
    (hk : ∀ k, ∀ wc ∈ s.arrived k, wc.Known) : s.fatal = none := by
  rw [← Option.not_isSome_iff_eq_none]
  intro hf
  obtain ⟨k, wc, hmem, hwc⟩ := h.fatal hf
  exact hwc (hk k wc hmem)

/-! ## A thread drains its queue -/

/-- The steps a thread has to take until its queue is handled. -/
def work (s : DispatchState χ κ) (t : Poller χ) (k : κ) : ℕ :=
  2 * (s.queued k).length + t.batch.length + if t.established then 0 else 1

/-- While something is to be handled, the thread can take a step towards it. -/
theorem DispatchInv.advance (h : DispatchInv E s) (hk : ∀ k, ∀ wc ∈ s.arrived k, wc.Known)
    {i : ℕ} {t : Poller χ} (ht : s.threads[i]? = some t) {c : χ}
    (hc : c ∈ t.aggregatedChannels) (hw : t.batch ++ s.queued (E.completQ c) ≠ []) :
    ∃ a s' t', s.step E a = some s' ∧ s'.arrived = s.arrived ∧ s'.threads[i]? = some t' ∧
      t'.aggregatedChannels = t.aggregatedChannels ∧
      s'.work t' (E.completQ c) < s.work t (E.completQ c) := by
  have hnone := h.fatal_eq_none hk
  obtain ⟨hlt, -⟩ := List.getElem?_eq_some_iff.1 ht
  have hti := h.thread i t ht
  have hset : ∀ t', (s.setThread i t').threads[i]? = some t' :=
    fun t' => List.getElem?_set_self hlt
  by_cases hest : t.established = true
  · by_cases hbusy : t.Busy
    · -- an entry of the array is next
      have hlen : t.wqeIndex < t.globalWc.length := by
        have hle := hti.loaded
        unfold Poller.Busy at hbusy
        omega
      obtain ⟨wc, hwc⟩ : ∃ wc, t.globalWc[t.wqeIndex]? = some wc :=
        ⟨_, List.getElem?_eq_getElem hlen⟩
      have hbatch := Poller.batch_of_busy hbusy hwc
      obtain ⟨c₀, hmem, hc₀⟩ := hti.polled hbusy
      obtain ⟨hd, hp⟩ := (hk _ wc (hti.mem_arrived hmem (hbatch ▸ List.mem_cons_self))).process
      refine ⟨.process i, _, { t with wqeIndex := t.wqeIndex + 1 },
        step_process hnone ht hest hbusy hc₀ hwc hp, rfl, hset _, rfl, ?_⟩
      simp only [work, hbatch, List.length_cons]
      show 2 * (s.queued _).length + _ + _ < _
      omega
    · -- the array is done: poll one completion
      obtain ⟨c₀, hc₀⟩ : ∃ c₀, t.aggregatedChannels[t.next]? = some c₀ :=
        ⟨_, List.getElem?_eq_getElem hti.next⟩
      have hcc : E.completQ c₀ = E.completQ c :=
        E.completQ_of_mem_group (h.group ht) (List.mem_of_getElem? hc₀) hc
      rw [Poller.batch_of_not_busy hbusy, List.nil_append] at hw
      obtain ⟨wc, rest, hq⟩ := List.exists_cons_of_ne_nil hw
      have hr : pollCompletionQueue (s.queued (E.completQ c₀)) 128 1 = some ([wc], rest) := by
        rw [hcc, hq]
        simp [pollCompletionQueue]
      refine ⟨.poll i 1, _, t.polled c₀ 1 [wc], step_poll hnone ht hest hbusy hc₀ hr, rfl, hset _,
        rfl, ?_⟩
      have hb : (t.polled c₀ 1 [wc]).batch = [wc] := Poller.batch_polled t c₀ rfl
      have he : (t.polled c₀ 1 [wc]).established = t.established := rfl
      simp only [work, hb, he, Poller.batch_of_not_busy hbusy, hcc, Function.update_self, hq,
        List.length_cons, List.length_nil]
      omega
  · have hest := Bool.eq_false_iff.2 hest
    refine ⟨.establishedDone i, _, { t with established := true },
      step_establishedDone hnone ht hest, rfl, hset _, rfl, ?_⟩
    simp only [work, hest]
    show 2 * (s.queued _).length + t.batch.length + 0 < _
    simp

/-- The thread of a group can handle everything that has arrived in its queue. -/
theorem DispatchInv.drain {i : ℕ} {c : χ} (n : ℕ) (h : DispatchInv E s)
    (hk : ∀ k, ∀ wc ∈ s.arrived k, wc.Known) {t : Poller χ} (ht : s.threads[i]? = some t)
    (hc : c ∈ t.aggregatedChannels) (hn : s.work t (E.completQ c) ≤ n) :
    ∃ s', Lts.Reachable (DispatchState.step E) s s' ∧ s'.arrived = s.arrived ∧
      s'.callsOn E (E.completQ c) = (s.arrived (E.completQ c)).map WorkCompletion.call := by
  induction n generalizing s t with
  | zero =>
    have hacc := (h.thread i t ht).accounts c hc
    simp only [work] at hn
    have hb : t.batch = [] := List.eq_nil_of_length_eq_zero (by omega)
    have hq : s.queued (E.completQ c) = [] := List.eq_nil_of_length_eq_zero (by omega)
    rw [hb, hq] at hacc
    exact ⟨s, .refl s, rfl, by rw [← hacc]; exact (List.append_nil _).symm⟩
  | succ n ih =>
    by_cases hw : t.batch ++ s.queued (E.completQ c) = []
    · have hacc := (h.thread i t ht).accounts c hc
      rw [hw] at hacc
      exact ⟨s, .refl s, rfl, by rw [← hacc]; exact (List.append_nil _).symm⟩
    · obtain ⟨a, s₁, t₁, hs, harr, ht₁, hagg, hlt⟩ := h.advance hk ht hc hw
      obtain ⟨s', hreach, harr', hcalls⟩ := ih (h.step hs) (fun k => by rw [harr]; exact hk k) ht₁
        (hagg ▸ hc) (by omega)
      obtain ⟨as, has⟩ := hreach
      rw [harr] at harr' hcalls
      refine ⟨s', ⟨a :: as, ?_⟩, harr', hcalls⟩
      rw [Lts.run_cons, hs]
      exact has

/-- What has been called for a queue is a beginning of what has arrived in it. -/
theorem DispatchInv.callsOn_isPrefix (h : DispatchInv E s) {c : χ} (hc : c ∈ E.channels) :
    s.callsOn E (E.completQ c) <+: (s.arrived (E.completQ c)).map WorkCompletion.call := by
  obtain ⟨i, g, hg, hmem⟩ := E.exists_group hc
  rw [← h.groups, List.getElem?_map, Option.map_eq_some_iff] at hg
  obtain ⟨t, ht, rfl⟩ := hg
  exact ⟨_, (h.thread i t ht).accounts c hmem⟩

/-- **Each completion is dispatched exactly once.**  The groups of `running`
    partition the channels by completion queue.  In every state of the threads
    the calls made for a queue, the polled entries and the queued completions
    are what arrived, in order; the thread of the queue can always handle the
    rest; and the calls of two runs in which the same completions arrived
    differ only in how far they got. -/
theorem completions_dispatched_once (E : EndPointMgr χ κ) :
    (∀ c ∈ E.channels, ∃! i : ℕ, ∃ g : List χ, E.groups[i]? = some g ∧ c ∈ g) ∧
    (∀ g ∈ E.groups, g.Nodup ∧ (∀ c ∈ g, c ∈ E.channels) ∧
      ∀ c ∈ g, ∀ c' ∈ g, E.completQ c = E.completQ c') ∧
    (∀ (i j : ℕ) (g g' : List χ), E.groups[i]? = some g → E.groups[j]? = some g' →
      ∀ c ∈ g, ∀ c' ∈ g', E.completQ c = E.completQ c' → i = j) ∧
    ∀ s, Lts.Reachable (DispatchState.step E) (init E) s →
      (∀ k, ∀ wc ∈ s.arrived k, wc.Known) →
      s.fatal = none ∧ s.threads.map (·.aggregatedChannels) = E.groups ∧
      ∀ c ∈ E.channels,
        (∀ t ∈ s.threads, c ∈ t.aggregatedChannels →
          s.callsOn E (E.completQ c) ++
              (t.batch ++ s.queued (E.completQ c)).map WorkCompletion.call =
            (s.arrived (E.completQ c)).map WorkCompletion.call) ∧
        (∃ s', Lts.Reachable (DispatchState.step E) s s' ∧ s'.arrived = s.arrived ∧
          s'.callsOn E (E.completQ c) = (s.arrived (E.completQ c)).map WorkCompletion.call) ∧
        ∀ s', Lts.Reachable (DispatchState.step E) (init E) s' →
          s'.arrived (E.completQ c) = s.arrived (E.completQ c) →
          s.callsOn E (E.completQ c) <+: s'.callsOn E (E.completQ c) ∨
            s'.callsOn E (E.completQ c) <+: s.callsOn E (E.completQ c) := by
  refine ⟨fun c hc => ?_, fun g hg => ?_, ?_, fun s hs hk => ?_⟩
  · obtain ⟨i, g, hg, hmem⟩ := E.exists_group hc
    refine ⟨i, ⟨g, hg, hmem⟩, ?_⟩
    rintro j ⟨g', hg', hmem'⟩
    exact E.group_of_completQ hg' hg hmem' hmem rfl
  · obtain ⟨i, hi⟩ := List.getElem?_of_mem hg
    obtain ⟨k, -, rfl, -⟩ := E.getElem?_groups hi
    exact ⟨E.nodup.filter _, fun c hc => (List.mem_filter.1 hc).1,
      fun c hc c' hc' => E.completQ_of_mem_group hi hc hc'⟩
  · intro i j g g' hi hj c hc c' hc' he
    exact E.group_of_completQ hi hj hc hc' he
  · have h := dispatchInv_reachable hs
    refine ⟨h.fatal_eq_none hk, h.groups, fun c hc => ⟨fun t ht hct => ?_, ?_, ?_⟩⟩
    · obtain ⟨i, hi⟩ := List.getElem?_of_mem ht
      exact (h.thread i t hi).accounts c hct
    · obtain ⟨i, g, hg, hmem⟩ := E.exists_group hc
      rw [← h.groups, List.getElem?_map, Option.map_eq_some_iff] at hg
      obtain ⟨t, ht, rfl⟩ := hg
      exact h.drain _ hk ht hmem (Nat.le_refl _)
    · intro s' hs' harr
      have hp := h.callsOn_isPrefix hc
      have hp' := (dispatchInv_reachable hs').callsOn_isPrefix hc
      rw [harr] at hp'
      exact List.prefix_or_prefix_of_prefix hp hp'

/-- Three channels, the first two with one completion queue. -/
def threeChannels : EndPointMgr ℕ Bool where
  channels := [0, 1, 2]
  completQ c := c == 2
  nodup := by decide

/-- One completion of each opcode on the shared queue; a poll of the first channel fails, and
    the next ones fetch one completion through the other channel and four through the first. -/
def threeChannelsRun : List (DispatchAct Bool) :=
  [.arrive false ⟨0, .success, .send, 0⟩, .establishedDone 1, .poll 1 (-1), .poll 1 1,
    .arrive false ⟨1, .success, .recv, 3⟩, .arrive false ⟨2, .success, .rdmaWrite, 0⟩,
    .process 1, .arrive false ⟨3, .success, .rdmaRead, 0⟩,
    .arrive false ⟨4, .success, .recvRdmaWithImm, 7⟩, .poll 1 4, .process 1, .process 1,
    .process 1, .process 1]

/-- All completions of `threeChannelsRun` get their call, in order. -/
theorem threeChannels_dispatched :
    ∃ s, Lts.Reachable (DispatchState.step threeChannels) (init threeChannels) s ∧
      (∀ k, ∀ wc ∈ s.arrived k, wc.Known) ∧ s.fatal = none ∧
      s.calls.map (fun c => (c.handler, c.wc.wrId)) =
        [(.processSendDone, 0), (.processRecvDone, 1), (.processWriteDone, 2),
          (.processReadDone, 3), (.processRecvWriteWithImmDone, 4)] ∧
      s.callsOn threeChannels false <+: (s.arrived false).map WorkCompletion.call := by
  have hrun : (Lts.run (DispatchState.step threeChannels) (init threeChannels)
      threeChannelsRun).any (fun s => decide ((∀ k, ∀ wc ∈ s.arrived k, wc.Known) ∧
        s.calls.map (fun c => (c.handler, c.wc.wrId)) =
          [(.processSendDone, 0), (.processRecvDone, 1), (.processWriteDone, 2),
            (.processReadDone, 3), (.processRecvWriteWithImmDone, 4)] ∧
        [0, 1] ∈ s.threads.map (·.aggregatedChannels))) = true := by
    decide +kernel
  obtain ⟨s, hs, hp⟩ := Lts.Reachable.of_any hrun
  obtain ⟨hk, hcalls, hmem⟩ := of_decide_eq_true hp
  obtain ⟨-, -, -, hmain⟩ := completions_dispatched_once threeChannels
  obtain ⟨hfatal, -, hch⟩ := hmain s hs hk
  obtain ⟨t, ht, hagg⟩ := List.mem_map.1 hmem
  have hacc := (hch 0 (by decide)).1 t ht (by rw [hagg]; decide)
  exact ⟨s, hs, hk, hfatal, hcalls, ⟨_, hacc⟩⟩

end DispatchState

end RdmaCore

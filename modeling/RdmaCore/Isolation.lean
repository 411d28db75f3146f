/-
  Several server sessions in one process, on one device: who handles the
  completions of a channel?

  The completion queue of a session is found by a key that is built from role
  and session id, and every session polls the queues of its own channels.

  * `ProcState`: adapters are loaded, sessions start to run and completions are
    dispatched, in any order;
  * `Genuine`, `HandlersInv`: a completion is handled by a thread that polls the
    queue of the channel it belongs to;
  * sessions with different names use different queues, and sessions with equal
    names do not.
-/
import RdmaCore.ServerSession
import RdmaCore.Dispatch

namespace RdmaCore

/-! ## The process -/

/-- The adapters of a process, and the threads of the sessions that run. -/
structure ProcState (ι : Type) where
  load : LoadState ι
  dispatch : DispatchState ι (Option CqId) := { threads := [] }

inductive ProcAct (σ ι : Type) where
  /-- the thread that loads an adapter takes its next step -/
  | load (i : ι)
  /-- a session that is connected starts its threads -/
  | running (a : σ)
  /-- the request of a channel completes -/
  | arrive (i : ι) (wc : WorkCompletion)
  /-- a thread of a session takes its next step -/
  | establishedDone (thread : ℕ)
  | poll (thread : ℕ) (numWqe : ℤ)
  | process (thread : ℕ)

namespace Process

variable {σ ι : Type} [DecidableEq σ] [DecidableEq ι] (p : Process σ ι)

/-- The channels of a session, and the queues they use. -/
def endPointMgr (load : LoadState ι) (a : σ) : EndPointMgr ι (Option CqId) where
  channels := p.endPoints.filter (p.session · = a)
  completQ := fun i => (load.loaders i).usedCq
  nodup := p.nodup.filter _

/-- All channels. -/
def allChannels (load : LoadState ι) : EndPointMgr ι (Option CqId) where
  channels := p.endPoints
  completQ := fun i => (load.loaders i).usedCq
  nodup := p.nodup

def init : ProcState ι where
  load := LoadState.init p.setup

/-- A step of the process; a failed `CHECK` ends it. -/
def step (s : ProcState ι) (act : ProcAct σ ι) : Option (ProcState ι) :=
  if s.load.aborted.isSome then none
  else
    let onDispatch := fun a =>
      (s.dispatch.step (p.allChannels s.load) a).map fun d => { s with dispatch := d }
    match act with
    | .load i => (LoadState.step p.setup s.load i).map fun load => { s with load }
    | .running a =>
      if ∀ i ∈ p.endPoints, p.session i = a → (s.load.loaders i).pc = .loaded then
        some { s with dispatch := { s.dispatch with
          threads := s.dispatch.threads ++ (DispatchState.init (p.endPointMgr s.load a)).threads } }
      else none
    | .arrive i wc =>
      -- the work requests of a channel carry its address
      if wc.wrId = p.address i ∧ (s.load.loaders i).pc = .loaded then
        onDispatch (.arrive (s.load.loaders i).usedCq wc)
      else none
    | .establishedDone n => onDispatch (.establishedDone n)
    | .poll n r => onDispatch (.poll n r)
    | .process n => onDispatch (.process n)

end Process

/-! ## Loading -/

namespace LoadState

variable {ι : Type} [DecidableEq ι] {S : LoadSetup ι} {s s' : LoadState ι} {i : ι}

/-- An adapter keeps its queue. -/
theorem usedCq_step (h : LoadInv S s) (hs : step S s i = some s') {j : ι} {cq : CqId}
    (hj : (s.loaders j).usedCq = some cq) : (s'.loaders j).usedCq = some cq := by
  have hset : ∀ (l : Loader), ((s.loaders i).usedCq = some cq → l.usedCq = some cq) →
      (Function.update s.loaders i l j).usedCq = some cq := by
    intro l hl
    by_cases hji : j = i
    · subst hji
      rw [Function.update_self]
      exact hl hj
    · rw [Function.update_of_ne hji]
      exact hj
  obtain ⟨-, ⟨f, -, rfl⟩ | ⟨l, hpc, hl, rfl⟩ | ⟨-, rfl⟩ | ⟨d, d', l, hd, hl, rfl⟩⟩ := step_cases hs
  · exact hj
  · refine hset l fun hi => ?_
    rw [((h.loader i).start hpc hl).2]
    exact hi
  · exact hset _ fun hi => hi
  · refine hset l fun hi => ?_
    by_cases hpc : (s.loaders i).pc = .createCq
    · have hused := (h.loader i).used
      rw [hpc, hi] at hused
      cases hused
    · rw [((h.loader i).onDevice hpc hl).2.1]
      exact hi

/-- Adapters with one queue have one key. -/
theorem effectiveKey_eq (h : LoadInv S s) {i j : ι} {cq : CqId}
    (hi : (s.loaders i).usedCq = some cq) (hj : (s.loaders j).usedCq = some cq) :
    S.effectiveKey i = S.effectiveKey j := by
  have hri := (h.created _ cq).1 (h.reg i cq hi)
  have hrj := (h.created _ cq).1 (h.reg j cq hj)
  exact Option.some.inj (hri.symm.trans hrj)

end LoadState

/-- The steps of a shared adapter up to its queue. -/
def LoadPc.toCq : LoadPc → ℕ
  | start => 6
  | getDevice => 5
  | registerAdapter => 4
  | createPd => 3
  | createComptChannel => 2
  | createCq => 1
  | _ => 0

/-- On the device, a shared adapter gets one step closer to its queue. -/
theorem Loader.exists_onDevice {ι : Type} [DecidableEq ι] {i : ι} {l : Loader} (hca : Hca)
    (d : Device ι) (hshared : l.adapter.config.usingSharedCq = true) (h0 : 0 < l.pc.toCq)
    (h5 : l.pc.toCq < 5) :
    ∃ d' l', l.onDevice hca i d = .ok (d', l') ∧ l'.pc.toCq < l.pc.toCq := by
  unfold Loader.onDevice
  cases hp : l.pc with
  | start | getDevice =>
    rw [hp] at h5
    exact absurd h5 (by decide)
  | hasCreatedCq | createQp | updateMyAdapterInfo | loaded =>
    rw [hp] at h0
    exact absurd h0 (by decide)
  | registerAdapter => exact ⟨_, _, rfl, Nat.lt_succ_self 3⟩
  | createPd => exact ⟨_, _, rfl, Nat.lt_succ_self 2⟩
  | createComptChannel =>
    by_cases hev : l.adapter.config.useEventChannel = true
    · simp only [hshared, hev, if_true]
      exact ⟨_, _, rfl, Nat.lt_succ_self 1⟩
    · simp only [hshared, hev, if_true]
      exact ⟨_, _, rfl, Nat.lt_succ_self 1⟩
  | createCq => exact ⟨_, _, rfl, Nat.lt_succ_self 0⟩

/-- The device exists once the adapter has asked for it. -/
def LoadState.DeviceFor {ι : Type} (s : LoadState ι) (i : ι) : Prop :=
  (s.loaders i).pc.toCq < 5 → s.device.isSome = true

namespace LoadState

variable {ι : Type} [DecidableEq ι] {S : LoadSetup ι} {s s' : LoadState ι} {i : ι}

omit [DecidableEq ι] in
theorem deviceFor_of_start (h : (s.loaders i).pc = .start) : s.DeviceFor i := by
  intro hlt
  rw [h] at hlt
  exact absurd hlt (by decide)

/-- A step that uses the device. -/
theorem step_onDevice (hab : s.aborted = none) {d d' : Device ι} {l : Loader}
    (hd : s.device = some d) (h0 : 0 < (s.loaders i).pc.toCq) (h5 : (s.loaders i).pc.toCq < 5)
    (hok : (s.loaders i).onDevice S.hca i d = .ok (d', l)) :
    step S s i = some { s.setLoader i l with device := some d' } := by
  cases hp : (s.loaders i).pc with
  | start | getDevice =>
    rw [hp] at h5
    exact absurd h5 (by decide)
  | hasCreatedCq | createQp | updateMyAdapterInfo | loaded =>
    rw [hp] at h0
    exact absurd h0 (by decide)
  | registerAdapter | createPd | createComptChannel | createCq =>
    simp only [step, hab, hp, hd, hok]
    rfl

/-- A shared adapter gets one step closer to its queue. -/
theorem exists_step (h : LoadInv S s) (hab : s.aborted = none) (hdev : s.DeviceFor i)
    (hshared : (S.config i).usingSharedCq = true) (hkey : (S.config i).cqKey ≠ "")
    (hpc : (s.loaders i).pc.hasCq = false) :
    ∃ l d, step S s i = some { s.setLoader i l with device := d } ∧
      (l.pc.toCq < 5 → d.isSome = true) ∧ l.pc.toCq < (s.loaders i).pc.toCq := by
  have hl := h.loader i
  have hsh : (s.loaders i).adapter.config.usingSharedCq = true := hl.shared.trans hshared
  have honDevice : 0 < (s.loaders i).pc.toCq → (s.loaders i).pc.toCq < 5 →
      ∃ l d, step S s i = some { s.setLoader i l with device := d } ∧
        (l.pc.toCq < 5 → d.isSome = true) ∧ l.pc.toCq < (s.loaders i).pc.toCq := by
    intro h0 h5
    obtain ⟨d, hd⟩ := Option.isSome_iff_exists.1 (hdev h5)
    obtain ⟨d', l, hok, hlt⟩ := Loader.exists_onDevice (i := i) S.hca d hsh h0 h5
    exact ⟨l, some d', step_onDevice hab hd h0 h5 hok, fun _ => rfl, hlt⟩
  cases hp : (s.loaders i).pc with
  | start =>
    obtain ⟨halloc, hk⟩ := hl.fresh hp
    have hstart : (s.loaders i).start = .ok { s.loaders i with pc := .getDevice } := by
      simp [Loader.start, halloc, hsh, check, hk, hkey]
    refine ⟨{ s.loaders i with pc := .getDevice }, s.device, ?_, ?_, ?_⟩
    · simp only [step, hab, hp, hstart]
      rfl
    · intro hlt
      exact absurd hlt (Nat.lt_irrefl 5)
    · exact Nat.lt_succ_self 5
  | getDevice =>
    refine ⟨{ s.loaders i with pc := .registerAdapter }, some (s.device.getD {}), ?_, ?_, ?_⟩
    · simp only [step, hab, hp]
      rfl
    · exact fun _ => rfl
    · exact Nat.lt_succ_self 4
  | registerAdapter | createPd | createComptChannel | createCq =>
    rw [← hp]
    exact honDevice (by rw [hp]; decide) (by rw [hp]; decide)
  | hasCreatedCq =>
    have hpriv := hl.onlyPrivate hp
    rw [hshared] at hpriv
    cases hpriv
  | createQp | updateMyAdapterInfo | loaded =>
    rw [hp] at hpc
    cases hpc

/-- A shared adapter gets its queue, and the others are left alone. -/
theorem exists_usedCq (hr : Lts.Reachable (step S) (init S) s) (hab : s.aborted = none)
    (hdev : s.DeviceFor i) (hshared : (S.config i).usingSharedCq = true)
    (hkey : (S.config i).cqKey ≠ "") :
    ∃ s', Lts.Reachable (step S) (init S) s' ∧ s'.aborted = none ∧
      (∃ cq, (s'.loaders i).usedCq = some cq) ∧ ∀ j ≠ i, s'.loaders j = s.loaders j := by
  induction hn : (s.loaders i).pc.toCq using Nat.strong_induction_on generalizing s with
  | _ n ih =>
    have h := loadInv_reachable hr
    cases hpc : (s.loaders i).pc.hasCq with
    | true =>
      refine ⟨s, hr, hab, ?_, fun _ _ => rfl⟩
      rw [← Option.isSome_iff_exists, (h.loader i).used, hpc]
    | false =>
      obtain ⟨l, d, hs, hd, hlt⟩ := exists_step h hab hdev hshared hkey hpc
      have hself : ({ s.setLoader i l with device := d } : LoadState ι).loaders i = l :=
        Function.update_self ..
      obtain ⟨s', hr', hab', hcq, hothers⟩ := ih l.pc.toCq (hn ▸ hlt) (hr.tail hs) hab
        (by rw [DeviceFor, hself]; exact hd) (by rw [hself])
      refine ⟨s', hr', hab', hcq, fun j hj => ?_⟩
      rw [hothers j hj]
      exact Function.update_of_ne hj ..

end LoadState

/-! ## Dispatch -/

namespace Process

variable {σ ι : Type} (p : Process σ ι)

/-- A completion of a channel that uses the queue. -/
def Genuine (usedCq : ι → Option CqId) (k : Option CqId) (wc : WorkCompletion) : Prop :=
  k ≠ none ∧ ∃ i, wc.wrId = p.address i ∧ usedCq i = k

/-- Completions stay with the queue of their channels. -/
structure HandlersInv (usedCq : ι → Option CqId) (d : DispatchState ι (Option CqId)) : Prop where
  queued : ∀ k, ∀ wc ∈ d.queued k, p.Genuine usedCq k wc
  batch : ∀ t ∈ d.threads, ∀ wc ∈ t.batch,
    ∃ c, t.eachChannel = some c ∧ p.Genuine usedCq (usedCq c) wc
  calls : ∀ c ∈ d.calls, p.Genuine usedCq (usedCq c.eachChannel) c.wc

variable {p} {usedCq usedCq' : ι → Option CqId} {d d' : DispatchState ι (Option CqId)}

theorem Genuine.mono (hle : ∀ i cq, usedCq i = some cq → usedCq' i = some cq) {k : Option CqId}
    {wc : WorkCompletion} (h : p.Genuine usedCq k wc) : p.Genuine usedCq' k wc := by
  obtain ⟨hk, i, hi, hu⟩ := h
  obtain ⟨cq, rfl⟩ := Option.ne_none_iff_exists'.1 hk
  exact ⟨hk, i, hi, hle i cq hu⟩

/-- Adapters that get their queues later change nothing. -/
theorem HandlersInv.mono (h : p.HandlersInv usedCq d)
    (hle : ∀ i cq, usedCq i = some cq → usedCq' i = some cq) : p.HandlersInv usedCq' d := by
  have hsame : ∀ (c : ι) wc, p.Genuine usedCq (usedCq c) wc → p.Genuine usedCq' (usedCq' c) wc := by
    intro c wc hg
    obtain ⟨cq, hcq⟩ := Option.ne_none_iff_exists'.1 hg.1
    have hg' := hg.mono hle
    rw [hcq] at hg'
    rw [hle c cq hcq]
    exact hg'
  refine ⟨fun k wc hwc => (h.queued k wc hwc).mono hle, ?_, fun c hc => hsame _ _ (h.calls c hc)⟩
  intro t ht wc hwc
  obtain ⟨c, hc, hg⟩ := h.batch t ht wc hwc
  exact ⟨c, hc, hsame c wc hg⟩

/-- A thread changes: what is left of its batch is genuine. -/
theorem HandlersInv.setThread (h : p.HandlersInv usedCq d) {n : ℕ} {t : Poller ι}
    (ht : ∀ wc ∈ t.batch, ∃ c, t.eachChannel = some c ∧ p.Genuine usedCq (usedCq c) wc) :
    p.HandlersInv usedCq (d.setThread n t) := by
  refine ⟨h.queued, ?_, h.calls⟩
  intro u hu
  rcases List.mem_or_eq_of_mem_set hu with hu | rfl
  · exact h.batch u hu
  · exact ht

/-- A queue changes: what it holds is genuine. -/
theorem HandlersInv.setQueue (h : p.HandlersInv usedCq d) {k : Option CqId}
    {q : List WorkCompletion} (hq : ∀ wc ∈ q, p.Genuine usedCq k wc) :
    ∀ k', ∀ wc ∈ Function.update d.queued k q k', p.Genuine usedCq k' wc :=
  (Function.forall_update_iff d.queued fun k' q => ∀ wc ∈ q, p.Genuine usedCq k' wc).2
    ⟨hq, fun k' _ => h.queued k'⟩

section
variable {E : EndPointMgr ι (Option CqId)} {n : ℕ}

theorem HandlersInv.poll (hE : E.completQ = usedCq) (h : p.HandlersInv usedCq d) {r : ℤ}
    (hs : d.poll E n r = some d') : p.HandlersInv usedCq d' := by
  simp only [DispatchState.poll, bind, Option.bind_eq_some_iff, pure, Option.some.injEq,
    Option.guard_eq_some'] at hs
  obtain ⟨t, -, -, -, c, -, ⟨wcs, rest⟩, hr, rfl⟩ := hs
  obtain ⟨happ, hlen⟩ := pollCompletionQueue_spec hr
  have hfrom : ∀ wc ∈ wcs ++ rest, p.Genuine usedCq (usedCq c) wc := by
    intro wc hwc
    rw [happ, hE] at hwc
    exact h.queued _ wc hwc
  have hset := h.setThread (n := n) (t := t.polled c r wcs) fun wc hwc =>
    ⟨c, rfl, hfrom wc (List.mem_append_left _ (by rwa [t.batch_polled c hlen] at hwc))⟩
  refine ⟨hset.setQueue fun wc hwc => ?_, hset.batch, hset.calls⟩
  rw [hE]
  exact hfrom wc (List.mem_append_right _ hwc)

theorem HandlersInv.process (h : p.HandlersInv usedCq d) (hs : d.process n = some d') :
    p.HandlersInv usedCq d' := by
  simp only [DispatchState.process, bind, Option.bind_eq_some_iff, Option.guard_eq_some'] at hs
  obtain ⟨t, ht, -, hg, c, hc, wc, hwc, hs⟩ := hs
  have hbatch := h.batch t (List.mem_of_getElem? ht)
  rw [Poller.batch_of_busy hg.2 hwc] at hbatch
  split at hs
  · cases hs
    have hset := h.setThread (n := n) (t := { t with wqeIndex := t.wqeIndex + 1 })
      fun wc' hwc' => hbatch wc' (List.mem_cons_of_mem _ hwc')
    refine ⟨hset.queued, hset.batch, fun call hcall => ?_⟩
    rcases List.mem_append.1 hcall with hcall | hcall
    · exact h.calls call hcall
    · rw [List.mem_singleton] at hcall
      subst hcall
      obtain ⟨c', hc', hgen⟩ := hbatch wc List.mem_cons_self
      obtain rfl := Option.some.inj (hc.symm.trans hc')
      exact hgen
  · cases hs
    exact ⟨h.queued, h.batch, h.calls⟩

/-- **Dispatch keeps completions with the queues of their channels.** -/
theorem HandlersInv.step (hE : E.completQ = usedCq) (h : p.HandlersInv usedCq d)
    {a : DispatchAct (Option CqId)} (hs : d.step E a = some d')
    (ha : ∀ k wc, a = .arrive k wc → p.Genuine usedCq k wc) : p.HandlersInv usedCq d' := by
  simp only [DispatchState.step] at hs
  split at hs
  · cases hs
  cases a with
  | arrive k wc =>
    cases hs
    refine ⟨h.setQueue fun wc' hwc => ?_, h.batch, h.calls⟩
    rw [List.mem_append, List.mem_singleton] at hwc
    rcases hwc with hwc | rfl
    · exact h.queued k wc' hwc
    · exact ha k wc' rfl
  | establishedDone n =>
    simp only [bind, Option.bind_eq_some_iff, pure, Option.some.injEq] at hs
    obtain ⟨t, ht, -, -, rfl⟩ := hs
    exact h.setThread fun wc hwc => h.batch t (List.mem_of_getElem? ht) wc hwc
  | poll n r => exact h.poll hE hs
  | process n => exact h.process hs

end

end Process

/-! ## Sessions -/

namespace Process

variable {σ ι : Type} [DecidableEq σ] [DecidableEq ι] {p : Process σ ι} {s s' : ProcState ι}

/-- The adapters of a reachable state, and what is dispatched. -/
structure Inv (p : Process σ ι) (s : ProcState ι) : Prop where
  load : LoadInv p.setup s.load
  handlers : p.HandlersInv (fun i => (s.load.loaders i).usedCq) s.dispatch

omit [DecidableEq σ] in
theorem Inv.init (p : Process σ ι) : Inv p p.init where
  load := loadInv_init p.setup
  handlers := by
    refine ⟨?_, ?_, ?_⟩
    · intro k wc h; cases h
    · intro t h; cases h
    · intro c h; cases h

theorem Inv.step (h : Inv p s) {act : ProcAct σ ι} (hs : p.step s act = some s') : Inv p s' := by
  have hdispatch : ∀ a, (∀ k wc, a = .arrive k wc →
      p.Genuine (fun i => (s.load.loaders i).usedCq) k wc) →
      (s.dispatch.step (p.allChannels s.load) a).map (fun d => { s with dispatch := d }) = some s' →
      Inv p s' := by
    intro a ha hs
    obtain ⟨d, hd, rfl⟩ := Option.map_eq_some_iff.1 hs
    exact ⟨h.load, h.handlers.step rfl hd ha⟩
  simp only [Process.step] at hs
  split at hs
  · cases hs
  cases act with
  | load i =>
    obtain ⟨load, hl, rfl⟩ := Option.map_eq_some_iff.1 hs
    exact ⟨h.load.step hl, h.handlers.mono fun j cq hj => LoadState.usedCq_step h.load hl hj⟩
  | running a =>
    simp only [Option.ite_none_right_eq_some, Option.some.injEq] at hs
    obtain ⟨-, rfl⟩ := hs
    refine ⟨h.load, h.handlers.queued, fun t ht wc hwc => ?_, h.handlers.calls⟩
    rcases List.mem_append.1 ht with ht | ht
    · exact h.handlers.batch t ht wc hwc
    · -- a new thread has polled nothing
      obtain ⟨g, -, rfl⟩ := List.mem_map.1 ht
      cases hwc
  | arrive i wc =>
    simp only [Option.ite_none_right_eq_some] at hs
    obtain ⟨⟨hid, hpc⟩, hs⟩ := hs
    refine hdispatch _ (fun k wc' ha => ?_) hs
    cases ha
    have hused := (h.load.loader i).used
    rw [hpc] at hused
    refine ⟨fun hnone => ?_, i, hid, rfl⟩
    rw [hnone] at hused
    cases hused
  | establishedDone n => exact hdispatch _ (fun k wc ha => by cases ha) hs
  | poll n r => exact hdispatch _ (fun k wc ha => by cases ha) hs
  | process n => exact hdispatch _ (fun k wc ha => by cases ha) hs

theorem inv_reachable (h : Lts.Reachable p.step p.init s) : Inv p s :=
  h.induct (Inv.init p) fun _ _ _ h hs => h.step hs

/-- No channel of `a` uses the queue of a channel of `b`, and the handlers of
    neither are called for the channels of the other. (A thread polls channels
    of its own session, so the channel of a call tells whose handler it is.) -/
structure Separate (p : Process σ ι) (a b : σ) (s : ProcState ι) : Prop where
  queues : ∀ i j, p.session i = a → p.session j = b → ∀ cq,
    (s.load.loaders i).usedCq = some cq → (s.load.loaders j).usedCq ≠ some cq
  handlers : ∀ c ∈ s.dispatch.calls, ∀ i, c.wc.wrId = p.address i →
    ¬ (p.session c.eachChannel = a ∧ p.session i = b) ∧
      ¬ (p.session c.eachChannel = b ∧ p.session i = a)

omit [DecidableEq σ] [DecidableEq ι] in
theorem effectiveKey_eq_iff {i j : ι} :
    p.setup.effectiveKey i = p.setup.effectiveKey j ↔
      p.info (p.session i) = p.info (p.session j) := by
  rw [p.effectiveKey_setup, p.effectiveKey_setup]
  constructor
  · intro h
    have h := congrArg String.toList h
    simp only [String.toList_append, List.append_cancel_left_eq] at h
    exact String.toList_inj.1 h
  · intro h
    rw [h]

omit [DecidableEq σ] in
/-- A call is made by a session that has the name of the session of the channel. -/
theorem Inv.info_eq (h : Inv p s) {c : HandlerCall ι} (hc : c ∈ s.dispatch.calls) {i : ι}
    (hi : c.wc.wrId = p.address i) :
    p.info (p.session c.eachChannel) = p.info (p.session i) := by
  obtain ⟨hne, j, hj, hused⟩ := h.handlers.calls c hc
  obtain rfl : i = j := p.address_inj (hi.symm.trans hj)
  obtain ⟨cq, hcq⟩ := Option.ne_none_iff_exists'.1 hne
  rw [hcq] at hused
  exact effectiveKey_eq_iff.1 (LoadState.effectiveKey_eq h.load hcq hused)

/-- Loading alone is a run of the process. -/
theorem reachable_of_load {load : LoadState ι}
    (h : Lts.Reachable (LoadState.step p.setup) (LoadState.init p.setup) load) :
    Lts.Reachable p.step p.init { p.init with load } := by
  refine h.induct (P := fun load => Lts.Reachable p.step p.init { p.init with load }) (.refl _) ?_
  intro load i load' hr hs
  refine hr.tail (a := .load i) ?_
  have hab := (LoadState.step_cases hs).1
  simp only [Process.step, hab, hs]
  rfl

omit [DecidableEq σ] in
/-- Two sessions of the same name get one queue. -/
theorem exists_shared {i j : ι} (h : p.info (p.session i) = p.info (p.session j)) :
    ∃ load cq, Lts.Reachable (LoadState.step p.setup) (LoadState.init p.setup) load ∧
      (load.loaders i).usedCq = some cq ∧ (load.loaders j).usedCq = some cq := by
  have hkey : ∀ k, (p.setup.config k).cqKey ≠ "" := by
    intro k hk
    have hk := congrArg String.toList hk
    simp [setup, lazyConfigHca] at hk
  obtain ⟨s₁, hr₁, hab₁, ⟨cq, hcq⟩, hothers₁⟩ := LoadState.exists_usedCq (i := i)
    (.refl (LoadState.init p.setup)) rfl (LoadState.deviceFor_of_start rfl) rfl (hkey i)
  by_cases hij : j = i
  · subst hij
    exact ⟨s₁, cq, hr₁, hcq, hcq⟩
  · have hdev : s₁.DeviceFor j :=
      LoadState.deviceFor_of_start (by rw [hothers₁ j hij]; rfl)
    obtain ⟨s₂, hr₂, -, ⟨cq', hcq'⟩, hothers₂⟩ :=
      LoadState.exists_usedCq hr₁ hab₁ hdev rfl (hkey j)
    rw [← hothers₂ i (Ne.symm hij)] at hcq
    have hreg := (loadInv_reachable hr₂).reg i cq hcq
    rw [effectiveKey_eq_iff.2 h, (loadInv_reachable hr₂).reg j cq' hcq'] at hreg
    rw [Option.some.inj hreg] at hcq'
    exact ⟨s₂, cq, hr₂, hcq, hcq'⟩

/-- **Isolation of sessions.** Two sessions of a process are separate in all
    runs iff their names differ (or one of them has no endpoint). -/
theorem separate_iff (p : Process σ ι) (a b : σ) :
    (∀ s, Lts.Reachable p.step p.init s → p.Separate a b s) ↔
      (p.info a ≠ p.info b ∨ (∀ i, p.session i ≠ a) ∨ ∀ i, p.session i ≠ b) := by
  constructor
  · intro h
    by_contra hn
    push Not at hn
    obtain ⟨hinfo, ⟨i, rfl⟩, j, rfl⟩ := hn
    obtain ⟨load, cq, hr, hi, hj⟩ := exists_shared hinfo
    exact (h _ (reachable_of_load hr)).queues i j rfl rfl cq hi hj
  · intro h s hs
    have hinv := inv_reachable hs
    have hinfo : ∀ i j, p.session i = a → p.session j = b →
        p.info (p.session i) ≠ p.info (p.session j) := by
      rintro i j rfl rfl
      rcases h with h | h | h
      · exact h
      · exact absurd rfl (h i)
      · exact absurd rfl (h j)
    refine ⟨?_, ?_⟩
    · intro i j hi hj cq hci hcj
      exact hinfo i j hi hj (effectiveKey_eq_iff.1 (LoadState.effectiveKey_eq hinv.load hci hcj))
    · intro c hc i hi
      have heq := hinv.info_eq hc hi
      constructor
      · rintro ⟨ha, hb⟩
        exact hinfo _ _ ha hb heq
      · rintro ⟨hb, ha⟩
        exact hinfo _ _ ha hb heq.symm

end Process

/-- Two sessions with the same role and session id, with one client each. -/
def namesakes : Process Bool Bool where
  hca := { ports := [⟨2, .mtu4096, 0⟩], gid := fun _ _ => Vector.replicate 16 0 }
  role := fun _ => "server"
  sessionId := fun _ => "0"
  endPoints := [true, false]
  session := id
  connector := fun i => ⟨⟨10, 0, 0, 1⟩, 2020, ⟨10, 0, 0, if i then 2 else 3⟩, 40000⟩
  address := fun i => if i then 64 else 128
  mem_endPoints := by decide
  nodup := by decide
  distinct := by decide
  address_inj := by decide

/-- Both sessions load and run; a message reaches the channel of the second one,
    and the thread of the first one polls its completion. -/
def namesakesRun : List (ProcAct Bool Bool) :=
  [(List.replicate 8 [.load true, .load false]).flatten,
    [.running true, .running false, .establishedDone 0, .establishedDone 1,
      .arrive false ⟨128, .success, .recv, 0⟩, .poll 0 1, .process 0]].flatten

theorem not_separate_namesakes :
    ∃ s, Lts.Reachable namesakes.step namesakes.init s ∧ ¬ namesakes.Separate true false s := by
  have h : (Lts.run namesakes.step namesakes.init namesakesRun).any
      (fun s => s.dispatch.calls.any fun c => c.eachChannel && c.wc.wrId = 128) = true := by
    decide +kernel
  obtain ⟨s, hs, hp⟩ := Lts.Reachable.of_any h
  obtain ⟨c, hc, hp⟩ := List.any_eq_true.1 hp
  obtain ⟨hcall, hid⟩ := (Bool.and_eq_true _ _).mp hp
  refine ⟨s, hs, fun hsep => ?_⟩
  exact (hsep.handlers c hc false (of_decide_eq_true hid)).1 ⟨hcall, rfl⟩

end RdmaCore

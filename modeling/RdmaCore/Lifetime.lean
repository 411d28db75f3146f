/-
  Adapters that come and go while their device lives (`RDMAAdapter::loading`
  and `~RDMAAdapter` in src/rdma_adapter.cc, the registries of
  src/rdma_device.cc).

  A call of `loading` runs the critical sections of `Loading` one after the
  other (`Loader.loading_first`).  An adapter is named by its address, which a
  later adapter may have again.

  * `LiveOnly`: `adapter_set_` and `reg_cqs_` list live adapters only; no
    destructor takes anything out of them;
  * `LifetimeInv`: kept by the steps that spare the loaded adapters.
-/
import RdmaCore.Loading

namespace RdmaCore

/-! ## A call of `loading` -/

namespace Loader

variable {ι : Type} [DecidableEq ι]

/-- The next `n` steps of `loading` on the device. -/
def onDevices (hca : Hca) (i : ι) : ℕ → Device ι → Loader → Except Fault (Device ι × Loader)
  | 0, d, l => pure (d, l)
  | n + 1, d, l => do
    let (d, l) ← l.onDevice hca i d
    onDevices hca i n d l

/-- A call of `loading`, with the device in `device_map_`. -/
def loading (hca : Hca) (i : ι) (device : Option (Device ι)) (l : Loader) :
    Except Fault (Option (Device ι) × Loader) := do
  let l ← { l with pc := .start }.start
  if l.pc = .loaded then pure (device, l)
  else
    -- `get_device`; no path has more than seven steps
    let (d, l) ← onDevices hca i 7 (device.getD {}) { l with pc := .registerAdapter }
    pure (some d, l)

/-- The key `loading` uses for the completion queue. -/
def key (l : Loader) : String :=
  if l.adapter.config.usingSharedCq then l.adapter.config.cqKey else l.adapter.endpoint.info

end Loader

section
variable {ι : Type} [DecidableEq ι] {hca : Hca} {i : ι} {d : Device ι} {l : Loader}

/-- The device after `register_adapter`, `create_pd` and `create_compt_channel`. -/
def Device.prepare (d : Device ι) (i : ι) (useEventChannel : Bool) : Device ι :=
  { d.registerAdapter i with
    pds := (d.registerAdapter i).pds + 1
    eventChannels := (d.registerAdapter i).eventChannels + useEventChannel.toNat }

/-- The adapter after these. -/
def Loader.prepared (d : Device ι) (i : ι) (l : Loader) : Loader :=
  { l with
    pc := if l.adapter.config.usingSharedCq then .createCq else .hasCreatedCq
    pd := some (d.registerAdapter i).pds
    eventChannel := if l.adapter.config.useEventChannel then
      some (d.registerAdapter i).eventChannels else l.eventChannel }

/-- A step that meets its `CHECK`s. -/
theorem Loader.onDevices_step {d₁ : Device ι} {l₁ : Loader} (n : ℕ)
    (h : l.onDevice hca i d = .ok (d₁, l₁)) :
    onDevices hca i (n + 1) d l = onDevices hca i n d₁ l₁ := by
  rw [onDevices, h]; rfl

theorem Loader.onDevices_loaded (hca : Hca) (i : ι) (d : Device ι) (hpc : l.pc = .loaded) (n : ℕ) :
    onDevices hca i n d l = .ok (d, l) := by
  induction n with
  | zero => rfl
  | succ n ih =>
    have h : l.onDevice hca i d = .ok (d, l) := by rw [onDevice, hpc]; rfl
    rw [onDevices_step n h, ih]

theorem Loader.onDevices_prepare (n : ℕ) (hpc : l.pc = .registerAdapter) :
    onDevices hca i (n + 3) d l =
      onDevices hca i n (d.prepare i l.adapter.config.useEventChannel) (l.prepared d i) := by
  have hreg : l.onDevice hca i d = .ok (d.registerAdapter i, { l with pc := .createPd }) := by
    rw [onDevice, hpc]; rfl
  rw [onDevices_step _ hreg, onDevices_step _ rfl]
  refine onDevices_step n ?_
  by_cases hev : l.adapter.config.useEventChannel = true
  · simp only [onDevice, hev, if_true, Device.prepare, prepared]; rfl
  · rw [Bool.not_eq_true] at hev
    simp only [onDevice, hev, Device.prepare, prepared]; rfl

theorem Loader.onDevices_createCq (n : ℕ) (hpc : l.pc = .createCq) :
    onDevices hca i (n + 3) d l = (do
      let (d, cq) := d.createCompletionQueue l.adapter.config.cqKey l.adapter.config.cqSize
      let a ← l.adapter.updateMyAdapterInfo hca (UInt32.ofNat d.qps)
      pure ({ d with qps := d.qps + 1 },
        { l with
          pc := .loaded
          adapter := { a with status := .resourceAllocated, resourceIsAllocated := true }
          usedCq := some cq
          qp := some d.qps })) := by
  generalize hd' : d.createCompletionQueue l.adapter.config.cqKey l.adapter.config.cqSize = r
  have hcq : l.onDevice hca i d = .ok (r.1, { l with pc := .createQp, usedCq := some r.2 }) := by
    rw [onDevice, hpc, ← hd']; rfl
  rw [onDevices_step _ hcq, onDevices_step _ rfl, onDevices]
  cases ha : l.adapter.updateMyAdapterInfo hca (UInt32.ofNat r.1.qps) with
  | error f => simp [onDevice, ha, bind, Except.bind]
  | ok a => simp [onDevice, ha, onDevices_loaded, bind, Except.bind, pure, Except.pure]

/-- **The second call of `loading` allocates nothing.** -/
theorem Loader.loading_again (hca : Hca) (i : ι) (device : Option (Device ι))
    (hl : l.adapter.resourceIsAllocated = true) :
    l.loading hca i device = .ok (device, { l with pc := .loaded }) := by
  have hstart : { l with pc := .start }.start = .ok { l with pc := .loaded } := by
    rw [start, if_pos hl]; rfl
  rw [loading, hstart]; rfl

/-- All steps on the device: only a private adapter has a `CHECK` on the registry. -/
theorem Loader.onDevices_all (hca : Hca) (i : ι) (d : Device ι) (hpc : l.pc = .registerAdapter) :
    onDevices hca i 7 d l = (do
      if l.adapter.config.usingSharedCq then pure ()
      else check (d.regCqs l.adapter.config.cqKey = none) .previousCq
      onDevices hca i 3 (d.prepare i l.adapter.config.useEventChannel)
        { l.prepared d i with pc := .createCq }) := by
  have hreg : (d.prepare i l.adapter.config.useEventChannel).regCqs = d.regCqs := by
    unfold Device.prepare Device.registerAdapter; split_ifs <;> rfl
  rw [onDevices_prepare 4 hpc]
  by_cases hs : l.adapter.config.usingSharedCq = true
  · have hpc' : (l.prepared d i).pc = .createCq := if_pos hs
    have heq : { l.prepared d i with pc := .createCq } = l.prepared d i := by rw [← hpc']
    rw [if_pos hs, heq, onDevices_createCq 1 hpc', onDevices_createCq 0 hpc']
  · have hpc' : (l.prepared d i).pc = .hasCreatedCq := if_neg hs
    rw [if_neg hs, onDevices, onDevice, hpc']
    have hadapter : (l.prepared d i).adapter = l.adapter := rfl
    simp only [hreg, hadapter]
    cases check (d.regCqs l.adapter.config.cqKey = none) .previousCq <;> rfl

/-- The first step of the first call sets the key. -/
theorem Loader.start_first (hl : l.adapter.resourceIsAllocated = false) :
    { l with pc := .start }.start =
      if l.adapter.config.usingSharedCq ∧ l.adapter.config.cqKey = "" then
        .error (.check .cqKeyNotSet)
      else .ok { l with pc := .getDevice, adapter.config.cqKey := l.key } := by
  unfold start
  rw [if_neg (by rw [hl]; decide)]
  by_cases hs : l.adapter.config.usingSharedCq = true
  · rw [if_pos hs, key, if_pos hs]
    by_cases hk : l.adapter.config.cqKey = ""
    · rw [if_pos ⟨hs, hk⟩, check, if_neg (not_not.2 hk)]; rfl
    · rw [if_neg (fun h => hk h.2), check, if_pos hk]; rfl
  · rw [if_neg hs, if_neg (fun h => hs h.1), key, if_neg hs]; rfl

/-- The device after the first call, up to the number of queue pairs. -/
def Device.queued (d : Device ι) (i : ι) (l : Loader) : Device ι × CqId :=
  (d.prepare i l.adapter.config.useEventChannel).createCompletionQueue l.key
    l.adapter.config.cqSize

/-- The `CHECK`s on the key. -/
def Loader.checkKey (d : Device ι) (l : Loader) : Except Fault Unit :=
  if l.adapter.config.usingSharedCq then check (l.adapter.config.cqKey ≠ "") .cqKeyNotSet
  else check (d.regCqs l.key = none) .previousCq

/-- **What the first call of `loading` does.** -/
theorem Loader.loading_first (hca : Hca) (i : ι) (device : Option (Device ι))
    (hl : l.adapter.resourceIsAllocated = false) : l.loading hca i device = (do
      l.checkKey (device.getD {})
      let (d, cq) := (device.getD {}).queued i l
      let a ← { l.adapter with config.cqKey := l.key }.updateMyAdapterInfo hca (UInt32.ofNat d.qps)
      pure (some { d with qps := d.qps + 1 },
        { l.prepared (device.getD {}) i with
          pc := .loaded
          adapter := { a with status := .resourceAllocated, resourceIsAllocated := true }
          usedCq := some cq
          qp := some d.qps })) := by
  rw [loading, start_first hl, checkKey]
  by_cases hs : l.adapter.config.usingSharedCq = true
  · rw [if_pos hs]
    by_cases hk : l.adapter.config.cqKey = ""
    · rw [if_pos ⟨hs, hk⟩, check, if_neg (not_not.2 hk)]; rfl
    · rw [if_neg (fun h => hk h.2), check, if_pos hk]
      show (onDevices hca i 7 (device.getD {})
        { l with pc := .registerAdapter, adapter.config.cqKey := l.key } >>=
          fun r => pure (some r.1, r.2)) = _
      rw [onDevices_all hca i _ rfl, if_pos hs, onDevices_createCq 0 rfl]
      simp only [bind_assoc, pure_bind]
      rfl
  · rw [if_neg (fun h => hs h.1), if_neg hs]
    show (onDevices hca i 7 (device.getD {})
      { l with pc := .registerAdapter, adapter.config.cqKey := l.key } >>=
        fun r => pure (some r.1, r.2)) = _
    rw [onDevices_all hca i _ rfl, if_neg hs, onDevices_createCq 0 rfl]
    cases check ((device.getD {}).regCqs l.key = none) .previousCq with
    | error f => rfl
    | ok u =>
      simp only [bind_assoc, pure_bind]
      rfl

theorem Device.queued_spec (d : Device ι) (i : ι) (l : Loader) :
    (∀ j, j ∈ (d.queued i l).1.adapterSet ↔ j = i ∨ j ∈ d.adapterSet) ∧
      (d.queued i l).1.regCqs = Function.update d.regCqs l.key (some (d.queued i l).2) ∧
      (d.regCqs l.key = none → (d.queued i l).2 = d.created.length) ∧
      (d.queued i l).1.created = d.created ++
        (if d.regCqs l.key = none then [(l.key, l.adapter.config.cqSize)] else []) ∧
      (d.Listed → (d.queued i l).1.Listed) := by
  have hset : ∀ j, j ∈ (d.registerAdapter i).adapterSet ↔ j = i ∨ j ∈ d.adapterSet := by
    intro j
    unfold registerAdapter
    split_ifs with hi
    · exact ⟨Or.inr, fun h => h.elim (fun h => h ▸ hi) id⟩
    · exact List.mem_cons
  have hframe : (d.registerAdapter i).regCqs = d.regCqs ∧
      (d.registerAdapter i).created = d.created := by
    unfold registerAdapter
    split_ifs <;> exact ⟨rfl, rfl⟩
  have hadd : (d.queued i l).1.adapterSet = (d.registerAdapter i).adapterSet := by
    unfold queued createCompletionQueue
    split <;> rfl
  obtain ⟨hreg, hcase⟩ := (d.prepare i l.adapter.config.useEventChannel).createCompletionQueue_spec
    l.key l.adapter.config.cqSize
  have hpre : (d.prepare i l.adapter.config.useEventChannel).regCqs = d.regCqs := hframe.1
  have hpre' : (d.prepare i l.adapter.config.useEventChannel).created = d.created := hframe.2
  rw [hpre, hpre'] at hcase
  refine ⟨fun j => by rw [hadd]; exact hset j, by rw [← hpre]; exact hreg, ?_, ?_, ?_⟩
  · intro hnone
    rcases hcase with ⟨hc, -⟩ | ⟨-, hcq, -⟩
    · rw [hnone] at hc; cases hc
    · exact hcq
  · rcases hcase with ⟨hc, hcr⟩ | ⟨hc, -, hcr⟩
    · rw [hc, if_neg (Option.some_ne_none _), List.append_nil]; exact hcr
    · rw [hc, if_pos rfl]; exact hcr
  · intro hlisted
    refine Listed.createCompletionQueue (fun k cq => ?_) l.key l.adapter.config.cqSize
    rw [hpre, hpre']
    exact hlisted k cq

/-- The first call of `loading`, if it meets its `CHECK`s. -/
theorem Loader.loading_ok {device device' : Option (Device ι)} {l' : Loader}
    (hl : l.adapter.resourceIsAllocated = false) (h : l.loading hca i device = .ok (device', l')) :
    (∃ n, device' = some { ((device.getD {}).queued i l).1 with qps := n }) ∧
      l'.adapter.resourceIsAllocated = true ∧ l'.adapter.config.cqKey = l.key ∧
      l'.usedCq = some ((device.getD {}).queued i l).2 := by
  rw [loading_first hca i device hl] at h
  simp only [Except.bind_eq_ok, Except.pure_eq_ok, Prod.mk.injEq] at h
  obtain ⟨-, -, a, ha, rfl, rfl⟩ := h
  obtain ⟨-, -, hkey⟩ := Adapter.updateMyAdapterInfo_frame ha
  exact ⟨⟨_, rfl⟩, rfl, hkey, rfl⟩

end

section
variable {ι : Type} [DecidableEq ι] {hca : Hca} {i : ι} {l : Loader}

theorem Device.queued_counts (d : Device ι) (i : ι) (l : Loader) :
    (d.queued i l).1.pds = d.pds + 1 ∧ (d.queued i l).1.qps = d.qps := by
  have hreg : (d.registerAdapter i).pds = d.pds ∧ (d.registerAdapter i).qps = d.qps := by
    unfold registerAdapter
    split_ifs <;> exact ⟨rfl, rfl⟩
  unfold queued createCompletionQueue
  split
  · exact ⟨congrArg (· + 1) hreg.1, hreg.2⟩
  · exact ⟨congrArg (· + 1) hreg.1, hreg.2⟩

/-- The resources that the first call of `loading` takes from the device. -/
theorem Loader.loading_resources {device device' : Option (Device ι)} {l' : Loader}
    (hl : l.adapter.resourceIsAllocated = false) (h : l.loading hca i device = .ok (device', l')) :
    (device'.getD {}).pds = (device.getD {}).pds + 1 ∧ l'.pd = some (device.getD {}).pds ∧
      (device'.getD {}).qps = (device.getD {}).qps + 1 ∧ l'.qp = some (device.getD {}).qps ∧
      l'.adapter.self.qpNum = UInt32.ofNat (device.getD {}).qps ∧ l'.adapter.qp = l.adapter.qp := by
  obtain ⟨hpds, hqps⟩ := Device.queued_counts (device.getD {}) i l
  have hpd : ((device.getD {}).registerAdapter i).pds = (device.getD {}).pds := by
    unfold Device.registerAdapter
    split_ifs <;> rfl
  rw [loading_first hca i device hl] at h
  simp only [hqps, Except.bind_eq_ok, Except.pure_eq_ok, Prod.mk.injEq] at h
  obtain ⟨-, -, a, ha, rfl, rfl⟩ := h
  obtain ⟨hnum, hqp⟩ := Adapter.updateMyAdapterInfo_qp ha
  exact ⟨hpds, congrArg some hpd, rfl, rfl, hnum, hqp⟩

end

/-! ## Adapters come and go -/

/-- A device and the adapters that live, each at its address. -/
structure Lifetime (ι : Type) where
  /-- `device_map_[dev_name]` -/
  device : Option (Device ι) := none
  adapters : ι → Option Loader := fun _ => none
  /-- a failed `CHECK` ends the process -/
  aborted : Option Fault := none

namespace Lifetime

variable {ι : Type} [DecidableEq ι]

inductive Action (ι : Type) where
  /-- an adapter at a free address, which an earlier one may have had -/
  | create (i : ι) (e : EndPointId) (config : AdapterConfig)
  | loading (i : ι)
  | destroy (i : ι)

/-- The device is only told of adapters that load: `~RDMAAdapter` leaves it alone. -/
def step (hca : Hca) (s : Lifetime ι) (a : Action ι) : Option (Lifetime ι) :=
  if s.aborted.isSome then none
  else
    match a with
    | .create i e config =>
      match s.adapters i with
      | some _ => none
      | none => some { s with
          adapters := Function.update s.adapters i (some { adapter := { endpoint := e, config } }) }
    | .loading i =>
      match s.adapters i with
      | none => none
      | some l =>
        match l.loading hca i s.device with
        | .ok (device, l) =>
          some { s with device, adapters := Function.update s.adapters i (some l) }
        | .error f => some { s with aborted := some f }
    | .destroy i =>
      match s.adapters i with
      | none => none
      | some _ => some { s with adapters := Function.update s.adapters i none }

/-- The adapter at an address is alive and `loading` has returned. -/
def loaded (s : Lifetime ι) (i : ι) : Bool :=
  (s.adapters i).any (·.adapter.resourceIsAllocated)

/-- The device, empty before the first adapter loads. -/
def registries (s : Lifetime ι) : Device ι := s.device.getD {}

/-- The registries list live adapters only: the set has those that are loaded,
    every key is the key of one of them, and a private adapter loads and gets a
    queue of its own whenever none of them has its name as key. -/
structure LiveOnly (hca : Hca) (s : Lifetime ι) : Prop where
  adapterSet : ∀ i, i ∈ s.registries.adapterSet ↔ s.loaded i = true
  regCqs : ∀ k, s.registries.regCqs k ≠ none →
    ∃ i l, s.adapters i = some l ∧ s.loaded i = true ∧ l.adapter.config.cqKey = k
  fresh : ∀ i l, s.adapters i = some l → s.loaded i = false →
    l.adapter.config.usingSharedCq = false →
    (∀ j l', s.adapters j = some l' → s.loaded j = true → l'.adapter.config.cqKey ≠ l.key) →
    (∃ r, l.loading hca i none = .ok r) →
    ∃ d l' cq, l.loading hca i s.device = .ok (some d, l') ∧ l'.usedCq = some cq ∧
      d.created = s.registries.created ++ [(l.key, l.adapter.config.cqSize)] ∧
      ∀ j l₁, s.adapters j = some l₁ → l₁.usedCq ≠ some cq

/-- Only adapters that are not loaded are destroyed. -/
def SparesLoaded (s : Lifetime ι) : Action ι → Prop
  | .destroy i => s.loaded i = false
  | _ => True

instance (s : Lifetime ι) : ∀ a, Decidable (SparesLoaded s a)
  | .create .. => isTrue trivial
  | .loading _ => isTrue trivial
  | .destroy i => inferInstanceAs (Decidable (s.loaded i = false))

/-- The invariant of runs in which no loaded adapter is destroyed. -/
structure LifetimeInv (s : Lifetime ι) : Prop where
  adapterSet : ∀ i, i ∈ s.registries.adapterSet ↔ s.loaded i = true
  regCqs : ∀ k, s.registries.regCqs k ≠ none →
    ∃ i l, s.adapters i = some l ∧ s.loaded i = true ∧ l.adapter.config.cqKey = k
  listed : s.registries.Listed
  used : ∀ i l cq, s.adapters i = some l → l.usedCq = some cq → cq < s.registries.created.length

omit [DecidableEq ι] in
theorem lifetimeInv_init : LifetimeInv ({} : Lifetime ι) where
  adapterSet i := iff_of_false (by intro h; cases h) (by intro h; cases h)
  regCqs k h := absurd rfl h
  listed k cq := by simp [registries]
  used i l cq h := by cases h

section
variable {hca : Hca} {s s' : Lifetime ι} {i : ι}

omit [DecidableEq ι] in
theorem loaded_eq {l : Loader} (h : s.adapters i = some l) :
    s.loaded i = l.adapter.resourceIsAllocated := by
  rw [loaded, h]; rfl

theorem loaded_update (o : Option Loader) (d : Option (Device ι)) (f : Option Fault) (j : ι) :
    loaded ⟨d, Function.update s.adapters i o, f⟩ j =
      if j = i then o.any (·.adapter.resourceIsAllocated) else s.loaded j := by
  unfold loaded
  dsimp only
  rw [Function.update_apply]
  split_ifs <;> rfl

/-- An adapter is replaced that is not loaded, by one that is not loaded. -/
theorem LifetimeInv.unloaded (h : LifetimeInv s) (hi : s.loaded i = false) {o : Option Loader}
    (ho : o.any (·.adapter.resourceIsAllocated) = false) (hu : ∀ l, o = some l → l.usedCq = none) :
    LifetimeInv { s with adapters := Function.update s.adapters i o } := by
  have hl : ∀ j, loaded { s with adapters := Function.update s.adapters i o } j = s.loaded j := by
    intro j
    rw [loaded_update]
    split_ifs with hj
    · rw [hj, hi, ho]
    · rfl
  refine ⟨fun j => ?_, fun k hk => ?_, h.listed, fun j l cq hj hcq => ?_⟩
  · rw [hl]; exact h.adapterSet j
  · obtain ⟨j, l, hj, hlj, hkey⟩ := h.regCqs k hk
    have hne : j ≠ i := by rintro rfl; rw [hi] at hlj; cases hlj
    exact ⟨j, l, (Function.update_of_ne hne _ _).trans hj, by rw [hl]; exact hlj, hkey⟩
  · rcases eq_or_ne j i with rfl | hne
    · have ho' : o = some l := by rw [← hj]; exact (Function.update_self j o s.adapters).symm
      rw [hu l ho'] at hcq; cases hcq
    · exact h.used j l cq ((Function.update_of_ne hne _ _).symm.trans hj) hcq

/-- A second call of `loading`. -/
theorem LifetimeInv.again (h : LifetimeInv s) {l : Loader} (hi : s.adapters i = some l) :
    LifetimeInv { s with
      adapters := Function.update s.adapters i (some { l with pc := .loaded }) } := by
  have hget : ∀ j l', Function.update s.adapters i (some { l with pc := .loaded }) j = some l' →
      ∃ l₁, s.adapters j = some l₁ ∧ l₁.usedCq = l'.usedCq := by
    intro j l' hj
    rcases eq_or_ne j i with rfl | hne
    · rw [Function.update_self] at hj
      obtain rfl := Option.some.inj hj
      exact ⟨l, hi, rfl⟩
    · rw [Function.update_of_ne hne] at hj
      exact ⟨l', hj, rfl⟩
  have hloaded : ∀ j, loaded ⟨s.device,
      Function.update s.adapters i (some { l with pc := .loaded }), s.aborted⟩ j =
        s.loaded j := by
    intro j
    rw [loaded_update]
    split_ifs with hj
    · rw [hj, loaded_eq hi]; rfl
    · rfl
  refine ⟨fun j => ?_, fun k hk => ?_, h.listed, fun j l' cq hj hcq => ?_⟩
  · rw [hloaded]; exact h.adapterSet j
  · obtain ⟨j, l₁, hj, hlj, hkj⟩ := h.regCqs k hk
    rw [← hloaded] at hlj
    rcases eq_or_ne j i with rfl | hne
    · obtain rfl := Option.some.inj (hi.symm.trans hj)
      exact ⟨j, _, Function.update_self .., hlj, hkj⟩
    · exact ⟨j, l₁, (Function.update_of_ne hne _ _).trans hj, hlj, hkj⟩
  · obtain ⟨l₁, hj', hq⟩ := hget j l' hj
    exact h.used j l₁ cq hj' (hq.trans hcq)

/-- An adapter is loaded for the first time. -/
theorem LifetimeInv.loads (h : LifetimeInv s) {l l' : Loader} {device : Option (Device ι)}
    (hi : s.adapters i = some l) (hnew : s.loaded i = false)
    (hok : l.loading hca i s.device = .ok (device, l')) :
    LifetimeInv { s with device, adapters := Function.update s.adapters i (some l') } := by
  have hl := loaded_eq hi
  rw [hnew] at hl
  obtain ⟨⟨n, rfl⟩, halloc, hkey, hcq⟩ := Loader.loading_ok hl.symm hok
  obtain ⟨hset, hreg, -, hcreated, hlist⟩ := Device.queued_spec s.registries i l
  have hlisted := hlist h.listed
  set r := s.registries.queued i l with hr
  have hself : Function.update s.adapters i (some l') i = some l' := Function.update_self ..
  have hother : ∀ j, j ≠ i → Function.update s.adapters i (some l') j = s.adapters j :=
    fun j hj => Function.update_of_ne hj _ _
  have hloaded : ∀ j, loaded ⟨some { r.1 with qps := n }, Function.update s.adapters i (some l'),
      s.aborted⟩ j = true ↔ j = i ∨ s.loaded j = true := by
    intro j
    rw [loaded_update]
    split_ifs with hj
    · exact iff_of_true halloc (Or.inl hj)
    · exact ⟨Or.inr, fun h => h.resolve_left hj⟩
  refine ⟨fun j => ?_, fun k hk => ?_, hlisted, fun j l₁ cq hj hq => ?_⟩
  · exact (hset j).trans ((or_congr_right (h.adapterSet j)).trans (hloaded j).symm)
  · by_cases hki : k = l.key
    · exact ⟨i, l', hself, (hloaded i).2 (Or.inl rfl), hkey.trans hki.symm⟩
    · -- an older key, of an adapter other than `i`
      replace hk : r.1.regCqs k ≠ none := hk
      rw [hreg, Function.update_of_ne hki] at hk
      obtain ⟨j, l₁, hj, hlj, hkj⟩ := h.regCqs k hk
      have hne : j ≠ i := by rintro rfl; rw [hnew] at hlj; cases hlj
      exact ⟨j, l₁, (hother j hne).trans hj, (hloaded j).2 (Or.inr hlj), hkj⟩
  · show cq < r.1.created.length
    rcases eq_or_ne j i with rfl | hne
    · obtain rfl := Option.some.inj (hself.symm.trans hj)
      have hmem : (r.1.created.map (·.1))[cq]? = some l.key := by
        rw [← hlisted, hreg, Function.update_self]
        exact hcq.symm.trans hq
      have hlt := (List.getElem?_eq_some_iff.1 hmem).1
      rwa [List.length_map] at hlt
    · rw [hcreated, List.length_append]
      exact (h.used j l₁ cq ((hother j hne).symm.trans hj) hq).trans_le (Nat.le_add_right _ _)

/-- **Steps that spare the loaded adapters keep the invariant.** -/
theorem LifetimeInv.step (h : LifetimeInv s) {a : Action ι} (hs : step hca s a = some s')
    (hc : SparesLoaded s a) : LifetimeInv s' := by
  unfold Lifetime.step at hs
  split_ifs at hs with hab
  cases a with
  | create i e config =>
    simp only at hs
    cases hi : s.adapters i with
    | some l => rw [hi] at hs; cases hs
    | none =>
      rw [hi] at hs
      obtain rfl := Option.some.inj hs
      refine h.unloaded (by rw [loaded, hi]; rfl) rfl ?_
      rintro l ⟨⟩; rfl
  | loading i =>
    simp only at hs
    cases hi : s.adapters i with
    | none => rw [hi] at hs; cases hs
    | some l =>
      rw [hi] at hs
      simp only at hs
      split at hs
      · next device l' hok =>
        obtain rfl := Option.some.inj hs
        cases hnew : s.loaded i with
        | false => exact h.loads hi hnew hok
        | true =>
          rw [loaded_eq hi] at hnew
          rw [Loader.loading_again hca i s.device hnew] at hok
          obtain ⟨rfl, rfl⟩ := Prod.mk.inj (Except.ok.inj hok)
          exact h.again hi
      · obtain rfl := Option.some.inj hs
        exact ⟨h.adapterSet, h.regCqs, h.listed, h.used⟩
  | destroy i =>
    simp only at hs
    cases hi : s.adapters i with
    | none => rw [hi] at hs; cases hs
    | some l =>
      rw [hi] at hs
      obtain rfl := Option.some.inj hs
      exact h.unloaded hc rfl (fun l h => by cases h)

/-- **A private adapter gets a queue of its own** unless a loaded adapter has
    its name as key. -/
theorem LifetimeInv.fresh (h : LifetimeInv s) {l : Loader} (hi : s.adapters i = some l)
    (hnew : s.loaded i = false) (hpriv : l.adapter.config.usingSharedCq = false)
    (hkey : ∀ j l', s.adapters j = some l' → s.loaded j = true → l'.adapter.config.cqKey ≠ l.key)
    (hok : ∃ r, l.loading hca i none = .ok r) :
    ∃ d l' cq, l.loading hca i s.device = .ok (some d, l') ∧ l'.usedCq = some cq ∧
      d.created = s.registries.created ++ [(l.key, l.adapter.config.cqSize)] ∧
      ∀ j l₁, s.adapters j = some l₁ → l₁.usedCq ≠ some cq := by
  have hnone : s.registries.regCqs l.key = none := by
    by_contra hne
    obtain ⟨j, l', hj, hlj, hk⟩ := h.regCqs _ hne
    exact hkey j l' hj hlj hk
  obtain ⟨-, -, hcq, hcr, -⟩ := Device.queued_spec s.registries i l
  replace hcq := hcq hnone
  rw [hnone, if_pos rfl] at hcr
  have hl : l.adapter.resourceIsAllocated = false := by rw [← loaded_eq hi]; exact hnew
  obtain ⟨r, hr⟩ := hok
  rw [Loader.loading_first hca i none hl] at hr
  simp only [Except.bind_eq_ok] at hr
  obtain ⟨-, -, a, ha, -⟩ := hr
  obtain ⟨a', ha'⟩ := Adapter.updateMyAdapterInfo_ok_of ha
    (UInt32.ofNat (s.registries.queued i l).1.qps)
  have hcheck : l.checkKey s.registries = .ok () := by
    rw [Loader.checkKey, hpriv, hnone]; rfl
  have hload := Loader.loading_first hca i s.device hl
  have hreg : s.device.getD {} = s.registries := rfl
  simp only [hreg, hcheck, ha', bind, Except.bind] at hload
  refine ⟨_, _, _, hload, rfl, hcr, fun j l₁ hj hq => ?_⟩
  exact absurd (h.used j l₁ _ hj hq) (by rw [hcq]; exact Nat.lt_irrefl _)

/-- **The registries of a device list live adapters only in the runs that never
    destroy a loaded adapter**, and in no others. -/
theorem liveOnly_iff (hca : Hca) (as : List (Action ι)) {s : Lifetime ι}
    (hrun : Lts.run (step hca) {} as = some s) :
    Lts.Always (step hca) (LiveOnly hca) {} as ↔ Lts.Along (step hca) SparesLoaded {} as := by
  refine Lts.always_iff_along (fun s h => ?_) (fun s a s' h => h.step) (fun s a s' h hs hq => ?_)
    as lifetimeInv_init hrun
  · exact ⟨h.adapterSet, h.regCqs, fun i l => h.fresh⟩
  · cases a with
    | create => trivial
    | loading => trivial
    | destroy i =>
      unfold step at hs
      split_ifs at hs
      cases hi : s.adapters i with
      | none => simp only [hi] at hs; cases hs
      | some l =>
        simp only [hi] at hs
        obtain rfl := Option.some.inj hs
        -- the set still has `i`, which is no longer alive
        rw [SparesLoaded, Bool.eq_false_iff]
        intro hl
        have hmem := (hq.adapterSet i).1 ((h.adapterSet i).2 hl)
        rw [loaded_update, if_pos rfl] at hmem
        cases hmem

end

/-! ## One address, two lives -/

/-- The life of a private adapter up to its second call of `loading`. -/
def privateLife : List (Action Bool) :=
  [.create true (serverSetup.endpoint true) { usingSharedCq := false }, .destroy true,
    .create true (serverSetup.endpoint true) { usingSharedCq := false }, .loading true,
    .loading true]

theorem liveOnly_privateLife :
    Lts.Always (step serverSetup.hca) (LiveOnly serverSetup.hca) {} privateLife := by
  refine (liveOnly_iff serverSetup.hca privateLife rfl).2 ?_
  decide +kernel

/-- After its end, the device still has the adapter and its queue, and a new
    adapter of the same name does not load. -/
theorem not_liveOnly_after_privateLife : ∃ s,
    Lts.Reachable (step serverSetup.hca) {} s ∧ (∀ i, s.loaded i = false) ∧
      s.registries.adapterSet = [true] ∧
      s.registries.regCqs (serverSetup.endpoint true).info ≠ none ∧
      (∃ l, s.adapters true = some l ∧
        l.loading serverSetup.hca true s.device = .error (.check .previousCq)) ∧
      ¬ LiveOnly serverSetup.hca s := by
  have h : (Lts.run (step serverSetup.hca) {} [privateLife, [.destroy true,
      .create true (serverSetup.endpoint true) { usingSharedCq := false }]].flatten).any
      (fun s => !s.loaded true && !s.loaded false && decide (s.registries.adapterSet = [true]) &&
        (s.registries.regCqs (serverSetup.endpoint true).info).isSome &&
        (s.adapters true).any fun l =>
          match l.loading serverSetup.hca true s.device with
          | .error f => f = .check .previousCq
          | .ok _ => false) = true := by
    decide +kernel
  obtain ⟨s, hs, hp⟩ := Lts.Reachable.of_any h
  simp only [Bool.and_eq_true, Bool.not_eq_true', decide_eq_true_eq, Option.any_eq_true] at hp
  obtain ⟨⟨⟨⟨ht, hf⟩, hset⟩, hreg⟩, l, hl, hload⟩ := hp
  have hdead : ∀ i, s.loaded i = false := by
    intro i
    cases i
    · exact hf
    · exact ht
  refine ⟨s, hs, hdead, hset, Option.isSome_iff_ne_none.1 hreg, ⟨l, hl, ?_⟩, fun hq => ?_⟩
  · cases hc : l.loading serverSetup.hca true s.device with
    | error f => rw [hc] at hload; rw [of_decide_eq_true hload]
    | ok r => rw [hc] at hload; cases hload
  · have hmem := (hq.adapterSet true).1 (by rw [hset]; exact List.mem_singleton_self _)
    rw [hdead] at hmem
    cases hmem

end Lifetime

end RdmaCore

/-
  Concurrent loading of the adapters of one device (`RDMAAdapter::loading` in
  src/rdma_adapter.cc, src/rdma_device.cc).

  Every endpoint loads its adapter in a thread of its own; a step is what a
  thread does under one acquisition of a lock of the device.  The registry of
  completion queues is `reg_cqs_`; `created` lists the calls of
  `ibv_create_cq`, and a queue is named by its position in this list.

  A private adapter first asks whether its queue exists and creates it in a
  second critical section.  No other adapter can come between, because the
  keys of private adapters are their names (`LoadSetup.effectiveKey_inj`).
-/
import RdmaCore.Adapter
import RdmaCore.Lib.Lts
import Mathlib.Data.List.Nodup
import Mathlib.Logic.Function.Basic

namespace RdmaCore

abbrev CqId := ℕ

/-- The adapters that are loaded: their endpoints and configurations. -/
structure LoadSetup (ι : Type) where
  hca : Hca
  endpoint : ι → EndPointId
  config : ι → AdapterConfig
  /-- Endpoints have different connections. -/
  distinct : ∀ i j, (endpoint i).connector = (endpoint j).connector → i = j
  sharedKey : ∀ i, (config i).usingSharedCq = true → ∃ t, (config i).cqKey = "SharedCQ@" ++ t

/-- The members of `RDMADevice` that loading uses. -/
structure Device (ι : Type) where
  adapterSet : List ι := []
  regCqs : String → Option CqId := fun _ => none
  /-- the calls of `ibv_create_cq`, with key and size of the queue -/
  created : List (String × UInt32) := []
  pds : ℕ := 0
  eventChannels : ℕ := 0
  qps : ℕ := 0

/-- The critical sections of `loading`, by what comes next. -/
inductive LoadPc where
  | start
  | getDevice
  | registerAdapter
  | createPd
  | createComptChannel
  | hasCreatedCq
  | createCq
  | createQp
  | updateMyAdapterInfo
  | loaded
  deriving DecidableEq, Repr

/-- A call of `loading` and the members it sets. -/
structure Loader where
  adapter : Adapter
  pc : LoadPc := .start
  pd : Option ℕ := none
  eventChannel : Option ℕ := none
  usedCq : Option CqId := none
  qp : Option ℕ := none

structure LoadState (ι : Type) where
  /-- `device_map_[dev_name]` -/
  device : Option (Device ι) := none
  loaders : ι → Loader
  /-- a failed `CHECK` ends the process -/
  aborted : Option Fault := none

namespace Device

variable {ι : Type}

/-- `register_adapter` -/
def registerAdapter [DecidableEq ι] (d : Device ι) (i : ι) : Device ι :=
  if i ∈ d.adapterSet then d else { d with adapterSet := i :: d.adapterSet }

/-- `create_completion_queue` -/
def createCompletionQueue (d : Device ι) (cqKey : String) (maxCqe : UInt32) : Device ι × CqId :=
  match d.regCqs cqKey with
  | some cq => (d, cq)
  | none =>
    let cq := d.created.length
    ({ d with
      created := d.created ++ [(cqKey, maxCqe)]
      regCqs := Function.update d.regCqs cqKey (some cq) }, cq)

/-- Both branches of `create_completion_queue` leave the queue in the registry. -/
theorem createCompletionQueue_spec (d : Device ι) (key : String) (size : UInt32) :
    (d.createCompletionQueue key size).1.regCqs =
        Function.update d.regCqs key (some (d.createCompletionQueue key size).2) ∧
      ((d.regCqs key = some (d.createCompletionQueue key size).2 ∧
          (d.createCompletionQueue key size).1.created = d.created) ∨
        (d.regCqs key = none ∧ (d.createCompletionQueue key size).2 = d.created.length ∧
          (d.createCompletionQueue key size).1.created = d.created ++ [(key, size)])) := by
  unfold createCompletionQueue
  split
  · next cq hcq => exact ⟨by rw [← hcq, Function.update_eq_self], Or.inl ⟨hcq, rfl⟩⟩
  · next hcq => exact ⟨rfl, Or.inr ⟨hcq, rfl, rfl⟩⟩

/-- The registry lists the queues created, each under its key. -/
def Listed (d : Device ι) : Prop :=
  ∀ k cq, d.regCqs k = some cq ↔ (d.created.map (·.1))[cq]? = some k

theorem Listed.createCompletionQueue {d : Device ι} (h : d.Listed) (key : String)
    (size : UInt32) : (d.createCompletionQueue key size).1.Listed := by
  obtain ⟨hreg, hcase⟩ := d.createCompletionQueue_spec key size
  intro k cq
  have hold := h k cq
  rcases hcase with ⟨hc, hcr⟩ | ⟨hc, hcq, hcr⟩
  · rw [hreg, hcr, ← hc, Function.update_eq_self]; exact hold
  · -- the new queue is the last of the list
    rw [hreg, hcq, hcr, List.map_append]
    have hlen : (d.created.map (·.1)).length = d.created.length := List.length_map _
    by_cases hk : k = key
    · subst hk
      rw [Function.update_self]
      rw [hc] at hold
      rcases Nat.lt_trichotomy cq d.created.length with hlt | rfl | hgt
      · rw [List.getElem?_append_left (by rw [hlen]; exact hlt), ← hold]
        exact iff_of_false (fun he => hlt.ne' (Option.some.inj he)) (Option.some_ne_none _).symm
      · rw [List.getElem?_append_right (by rw [hlen]), hlen, Nat.sub_self]
        simp
      · rw [List.getElem?_eq_none (by simp; omega)]
        exact iff_of_false (fun he => hgt.ne (Option.some.inj he)) (Option.some_ne_none _).symm
    · rw [Function.update_of_ne hk, hold]
      rcases Nat.lt_trichotomy cq d.created.length with hlt | rfl | hgt
      · rw [List.getElem?_append_left (by rw [hlen]; exact hlt)]
      · rw [List.getElem?_append_right (by rw [hlen]), hlen, Nat.sub_self]
        simp [Ne.symm hk]
      · rw [List.getElem?_eq_none (by simp; omega), List.getElem?_eq_none (by simp; omega)]

end Device

/-- `loading` up to its first critical section. -/
def Loader.start (l : Loader) : Except Fault Loader := do
  if l.adapter.resourceIsAllocated then pure { l with pc := .loaded }
  else if l.adapter.config.usingSharedCq then
    check (l.adapter.config.cqKey ≠ "") .cqKeyNotSet
    pure { l with pc := .getDevice }
  else
    pure { l with
      pc := .getDevice
      adapter.config.cqKey := l.adapter.endpoint.info }

/-- The steps of `loading` that use the device. -/
def Loader.onDevice {ι : Type} [DecidableEq ι] (hca : Hca) (i : ι) (d : Device ι) (l : Loader) :
    Except Fault (Device ι × Loader) :=
  match l.pc with
  | .registerAdapter => pure (d.registerAdapter i, { l with pc := .createPd })
  | .createPd =>
    pure ({ d with pds := d.pds + 1 }, { l with pc := .createComptChannel, pd := some d.pds })
  | .createComptChannel =>
    let pc := if l.adapter.config.usingSharedCq then .createCq else .hasCreatedCq
    if l.adapter.config.useEventChannel then
      pure ({ d with eventChannels := d.eventChannels + 1 },
        { l with pc, eventChannel := some d.eventChannels })
    else pure (d, { l with pc })
  | .hasCreatedCq => do
    check (d.regCqs l.adapter.config.cqKey = none) .previousCq
    pure (d, { l with pc := .createCq })
  | .createCq =>
    let (d, cq) := d.createCompletionQueue l.adapter.config.cqKey l.adapter.config.cqSize
    pure (d, { l with pc := .createQp, usedCq := some cq })
  | .createQp =>
    pure ({ d with qps := d.qps + 1 }, { l with pc := .updateMyAdapterInfo, qp := some d.qps })
  | .updateMyAdapterInfo => do
    let a ← l.adapter.updateMyAdapterInfo hca (UInt32.ofNat (l.qp.getD 0))
    pure (d, { l with
      pc := .loaded
      adapter := { a with status := .resourceAllocated, resourceIsAllocated := true } })
  | _ => pure (d, l)

section
variable {ι : Type} [DecidableEq ι] {hca : Hca} {i : ι} {d d' : Device ι} {l l' : Loader}

/-- What a step on the device does if its `CHECK`s pass. -/
inductive Loader.DeviceStep (hca : Hca) (i : ι) (d : Device ι) (l : Loader) :
    Device ι → Loader → Prop where
  | registerAdapter (hpc : l.pc = .registerAdapter) :
    DeviceStep hca i d l (d.registerAdapter i) { l with pc := .createPd }
  | createPd (hpc : l.pc = .createPd) :
    DeviceStep hca i d l { d with pds := d.pds + 1 }
      { l with pc := .createComptChannel, pd := some d.pds }
  | createComptChannel (hpc : l.pc = .createComptChannel) :
    DeviceStep hca i d l
      { d with eventChannels := d.eventChannels + l.adapter.config.useEventChannel.toNat }
      { l with
        pc := if l.adapter.config.usingSharedCq then .createCq else .hasCreatedCq
        eventChannel :=
          if l.adapter.config.useEventChannel then some d.eventChannels else l.eventChannel }
  | hasCreatedCq (hpc : l.pc = .hasCreatedCq) (hkey : d.regCqs l.adapter.config.cqKey = none) :
    DeviceStep hca i d l d { l with pc := .createCq }
  | createCq (hpc : l.pc = .createCq) :
    DeviceStep hca i d l
      (d.createCompletionQueue l.adapter.config.cqKey l.adapter.config.cqSize).1
      { l with
        pc := .createQp
        usedCq := some
          (d.createCompletionQueue l.adapter.config.cqKey l.adapter.config.cqSize).2 }
  | createQp (hpc : l.pc = .createQp) :
    DeviceStep hca i d l { d with qps := d.qps + 1 }
      { l with pc := .updateMyAdapterInfo, qp := some d.qps }
  | updateMyAdapterInfo (hpc : l.pc = .updateMyAdapterInfo) {a : Adapter}
    (ha : l.adapter.updateMyAdapterInfo hca (UInt32.ofNat (l.qp.getD 0)) = .ok a) :
    DeviceStep hca i d l d { l with
      pc := .loaded
      adapter := { a with status := .resourceAllocated, resourceIsAllocated := true } }
  | idle (hpc : l.pc = .start ∨ l.pc = .getDevice ∨ l.pc = .loaded) : DeviceStep hca i d l d l

theorem Loader.onDevice_cases (h : l.onDevice hca i d = .ok (d', l')) :
    DeviceStep hca i d l d' l' := by
  unfold onDevice at h
  cases hpc : l.pc with
  | createComptChannel =>
    rw [hpc] at h
    have hstep : DeviceStep hca i d l _ _ := .createComptChannel hpc
    by_cases hev : l.adapter.config.useEventChannel = true
    · simp only [hev, if_true, Except.pure_eq_ok, Prod.mk.injEq] at h
      obtain ⟨rfl, rfl⟩ := h
      rw [hev] at hstep
      exact hstep
    · rw [Bool.not_eq_true] at hev
      simp only [hev, Bool.false_eq_true, if_false, Except.pure_eq_ok, Prod.mk.injEq] at h
      obtain ⟨rfl, rfl⟩ := h
      rw [hev] at hstep
      exact hstep
  | hasCreatedCq =>
    rw [hpc] at h
    simp only [Except.bind_eq_ok, Except.pure_eq_ok, check_eq_ok, Prod.mk.injEq] at h
    obtain ⟨-, hkey, rfl, rfl⟩ := h
    exact .hasCreatedCq hpc hkey
  | updateMyAdapterInfo =>
    rw [hpc] at h
    simp only [Except.bind_eq_ok, Except.pure_eq_ok, Prod.mk.injEq] at h
    obtain ⟨a, ha, rfl, rfl⟩ := h
    exact .updateMyAdapterInfo hpc ha
  | registerAdapter =>
    rw [hpc] at h
    obtain ⟨rfl, rfl⟩ := Prod.mk.inj (Except.ok.inj h)
    exact .registerAdapter hpc
  | createPd =>
    rw [hpc] at h
    obtain ⟨rfl, rfl⟩ := Prod.mk.inj (Except.ok.inj h)
    exact .createPd hpc
  | createCq =>
    rw [hpc] at h
    obtain ⟨rfl, rfl⟩ := Prod.mk.inj (Except.ok.inj h)
    exact .createCq hpc
  | createQp =>
    rw [hpc] at h
    obtain ⟨rfl, rfl⟩ := Prod.mk.inj (Except.ok.inj h)
    exact .createQp hpc
  | start | getDevice | loaded =>
    rw [hpc] at h
    obtain ⟨rfl, rfl⟩ := Prod.mk.inj (Except.ok.inj h)
    exact .idle (by simp [hpc])

theorem Loader.start_loads (h : l.start = .ok l') :
    l.adapter.config.Loads l'.adapter.config := by
  unfold Loader.start at h
  split_ifs at h
  · obtain rfl := Except.pure_eq_ok.1 h
    exact .refl _
  · simp only [Except.bind_eq_ok, Except.pure_eq_ok] at h
    obtain ⟨-, -, rfl⟩ := h
    exact .refl _
  · obtain rfl := Except.pure_eq_ok.1 h
    exact ⟨_, _, rfl⟩

theorem Loader.onDevice_loads (h : l.onDevice hca i d = .ok (d', l')) :
    l.adapter.config.Loads l'.adapter.config := by
  cases Loader.onDevice_cases h with
  | updateMyAdapterInfo hpc ha =>
    have hloads := Adapter.updateMyAdapterInfo_loads ha
    exact hloads
  | registerAdapter | createPd | createComptChannel | hasCreatedCq | createCq | createQp | idle =>
    exact .refl _

end

namespace LoadState

variable {ι : Type} [DecidableEq ι]

def init (S : LoadSetup ι) : LoadState ι where
  loaders := fun i => { adapter := { endpoint := S.endpoint i, config := S.config i } }

def setLoader (s : LoadState ι) (i : ι) (l : Loader) : LoadState ι :=
  { s with loaders := Function.update s.loaders i l }

/-- A step of the thread that loads adapter `i`. -/
def step (S : LoadSetup ι) (s : LoadState ι) (i : ι) : Option (LoadState ι) :=
  if s.aborted.isSome then none
  else
    match (s.loaders i).pc with
    | .loaded => none
    | .start =>
      match (s.loaders i).start with
      | .ok l => some (s.setLoader i l)
      | .error f => some { s with aborted := some f }
    | .getDevice =>
      some { s.setLoader i { s.loaders i with pc := .registerAdapter } with
        device := some (s.device.getD {}) }
    | _ =>
      match s.device with
      | none => some { s with aborted := some .undefined }
      | some d =>
        match (s.loaders i).onDevice S.hca i d with
        | .ok (d, l) => some { s.setLoader i l with device := some d }
        | .error f => some { s with aborted := some f }

/-- A step fails a `CHECK`, is local, creates the device, or uses it. -/
theorem step_cases {S : LoadSetup ι} {s s' : LoadState ι} {i : ι} (hs : step S s i = some s') :
    s.aborted = none ∧
    ((∃ f, ((s.loaders i).start = .error f ∨ f = .undefined ∨
          ∃ d, s.device = some d ∧ (s.loaders i).onDevice S.hca i d = .error f) ∧
        s' = { s with aborted := some f }) ∨
      (∃ l, (s.loaders i).pc = .start ∧ (s.loaders i).start = .ok l ∧ s' = s.setLoader i l) ∨
      ((s.loaders i).pc = .getDevice ∧
        s' = { s.setLoader i { s.loaders i with pc := .registerAdapter } with
          device := some (s.device.getD {}) }) ∨
      ∃ d d' l, s.device = some d ∧ (s.loaders i).onDevice S.hca i d = .ok (d', l) ∧
        s' = { s.setLoader i l with device := some d' }) := by
  unfold step at hs
  split_ifs at hs with hab
  refine ⟨by simpa using hab, ?_⟩
  split at hs
  · cases hs
  · next hpc =>
    split at hs
    · next l hl => exact .inr (.inl ⟨l, hpc, hl, (Option.some.inj hs).symm⟩)
    · next f hf => exact .inl ⟨f, .inl hf, (Option.some.inj hs).symm⟩
  · next hpc => exact .inr (.inr (.inl ⟨hpc, (Option.some.inj hs).symm⟩))
  · split at hs
    · exact .inl ⟨_, .inr (.inl rfl), (Option.some.inj hs).symm⟩
    · next d hd =>
      split at hs
      · next d' l hok => exact .inr (.inr (.inr ⟨d, d', l, hd, hok, (Option.some.inj hs).symm⟩))
      · next f hf => exact .inl ⟨f, .inr (.inr ⟨d, hd, hf⟩), (Option.some.inj hs).symm⟩

end LoadState

/-! ## Keys -/

namespace LoadSetup

variable {ι : Type} (S : LoadSetup ι)

/-- The key an adapter uses for its completion queue. -/
def effectiveKey (i : ι) : String :=
  if (S.config i).usingSharedCq then (S.config i).cqKey else (S.endpoint i).info

variable {S}

theorem sharedKey_ne_info {t : String} (e : EndPointId) : "SharedCQ@" ++ t ≠ e.info := by
  intro h
  have h := congrArg String.toList h
  simp [EndPointId.info] at h

/-- **Only shared adapters have equal keys.** -/
theorem effectiveKey_inj {i j : ι} (h : S.effectiveKey i = S.effectiveKey j) (hij : i ≠ j) :
    (S.config i).usingSharedCq = true ∧ (S.config j).usingSharedCq = true := by
  unfold effectiveKey at h
  by_cases hi : (S.config i).usingSharedCq = true
  · by_cases hj : (S.config j).usingSharedCq = true
    · exact ⟨hi, hj⟩
    · obtain ⟨t, ht⟩ := S.sharedKey i hi
      rw [if_pos hi, if_neg hj, ht] at h
      exact absurd h (sharedKey_ne_info _)
  · by_cases hj : (S.config j).usingSharedCq = true
    · obtain ⟨t, ht⟩ := S.sharedKey j hj
      rw [if_neg hi, if_pos hj, ht] at h
      exact absurd h.symm (sharedKey_ne_info _)
    · rw [if_neg hi, if_neg hj] at h
      exact absurd (S.distinct i j (EndPointId.connector_eq_of_info_eq h)) hij

end LoadSetup

/-! ## The registry -/

namespace LoadState

variable {ι : Type} [DecidableEq ι]

/-- The registry of completion queues, empty before the device exists. -/
def regCqs (s : LoadState ι) : String → Option CqId := (s.device.getD {}).regCqs

/-- The keys for which `ibv_create_cq` was called, in order. -/
def createdKeys (s : LoadState ι) : List String := (s.device.getD {}).created.map (·.1)

end LoadState

/-- The thread has left `create_cq`. -/
def LoadPc.hasCq : LoadPc → Bool
  | createQp => true
  | updateMyAdapterInfo => true
  | loaded => true
  | _ => false

/-- One adapter while it is loaded: what `loading` keeps, and the key once set. -/
structure LoaderInv {ι : Type} (S : LoadSetup ι) (i : ι) (l : Loader) : Prop where
  endpoint : l.adapter.endpoint = S.endpoint i
  shared : l.adapter.config.usingSharedCq = (S.config i).usingSharedCq
  fresh : l.pc = .start →
    l.adapter.resourceIsAllocated = false ∧ l.adapter.config.cqKey = (S.config i).cqKey
  key : l.pc ≠ .start → l.adapter.config.cqKey = S.effectiveKey i
  onlyPrivate : l.pc = .hasCreatedCq → (S.config i).usingSharedCq = false
  used : l.usedCq.isSome = l.pc.hasCq

/-- The invariant of concurrent loading. -/
structure LoadInv {ι : Type} [DecidableEq ι] (S : LoadSetup ι) (s : LoadState ι) : Prop where
  loader : ∀ i, LoaderInv S i (s.loaders i)
  reg : ∀ i cq, (s.loaders i).usedCq = some cq → s.regCqs (S.effectiveKey i) = some cq
  /-- A key in the registry is the key of an adapter that uses the queue. -/
  owner : ∀ k cq, s.regCqs k = some cq → ∃ i, S.effectiveKey i = k ∧ (s.loaders i).usedCq = some cq
  created : ∀ k cq, s.regCqs k = some cq ↔ s.createdKeys[cq]? = some k
  noPrevious : s.aborted ≠ some (.check .previousCq)

/-- What `loading` keeps, once the key is set. -/
theorem LoaderInv.advance {ι : Type} {S : LoadSetup ι} {i : ι} {l : Loader} (hl : LoaderInv S i l)
    {a : Adapter} {pc : LoadPc} {pd e q : Option ℕ} {cq : Option CqId}
    (he : a.endpoint = l.adapter.endpoint)
    (hsh : a.config.usingSharedCq = l.adapter.config.usingSharedCq)
    (hk : a.config.cqKey = S.effectiveKey i) (hpc : pc ≠ .start)
    (hpriv : pc = .hasCreatedCq → (S.config i).usingSharedCq = false)
    (hused : cq.isSome = pc.hasCq) : LoaderInv S i ⟨a, pc, pd, e, cq, q⟩ :=
  ⟨he.trans hl.endpoint, hsh.trans hl.shared, fun h => absurd h hpc, fun _ => hk, hpriv, hused⟩

section
variable {ι : Type} [DecidableEq ι] {S : LoadSetup ι} {s s' : LoadState ι} {i : ι}

theorem loadInv_init (S : LoadSetup ι) : LoadInv S (LoadState.init S) where
  loader i := ⟨rfl, rfl, fun _ => ⟨rfl, rfl⟩, fun h => absurd rfl h, LoadPc.noConfusion, rfl⟩
  reg i cq h := by cases h
  owner k cq h := by cases h
  created k cq := by simp [LoadState.regCqs, LoadState.createdKeys, LoadState.init]
  noPrevious h := by cases h

theorem LoadInv.forall_loaderInv (h : LoadInv S s) {l : Loader} (hl : LoaderInv S i l) :
    ∀ j, LoaderInv S j (Function.update s.loaders i l j) :=
  (Function.forall_update_iff s.loaders (LoaderInv S)).2 ⟨hl, fun j _ => h.loader j⟩

/-- A step that does not touch the registry. -/
theorem LoadInv.quiet (h : LoadInv S s) {l : Loader} {d : Option (Device ι)}
    (hl : LoaderInv S i l) (huse : l.usedCq = (s.loaders i).usedCq)
    (hreg : (d.getD {}).regCqs = s.regCqs) (hcr : (d.getD {}).created.map (·.1) = s.createdKeys) :
    LoadInv S { s.setLoader i l with device := d } := by
  have huse' : ∀ j, (Function.update s.loaders i l j).usedCq = (s.loaders j).usedCq :=
    (Function.forall_update_iff s.loaders fun j l => l.usedCq = (s.loaders j).usedCq).2
      ⟨huse, fun _ _ => rfl⟩
  refine ⟨h.forall_loaderInv hl, fun j cq hj => ?_, fun k cq hk => ?_, fun k cq => ?_,
    h.noPrevious⟩
  · show (d.getD {}).regCqs _ = _
    rw [hreg]
    exact h.reg j cq ((huse' j).symm.trans hj)
  · obtain ⟨j, hj, hcq⟩ := h.owner k cq (by rw [← hreg]; exact hk)
    exact ⟨j, hj, (huse' j).trans hcq⟩
  · show (d.getD {}).regCqs k = _ ↔ ((d.getD {}).created.map (·.1))[cq]? = _
    rw [hreg, hcr]; exact h.created k cq

theorem LoadInv.abort (h : LoadInv S s) {f : Fault} (hf : f ≠ .check .previousCq) :
    LoadInv S { s with aborted := some f } :=
  ⟨h.loader, h.reg, h.owner, h.created, fun he => hf (Option.some.inj he)⟩

/-- The private path finds no queue under its key. -/
theorem LoadInv.regCqs_eq_none (h : LoadInv S s) (hpc : (s.loaders i).pc.hasCq = false)
    (hpriv : (S.config i).usingSharedCq = false) : s.regCqs (S.effectiveKey i) = none := by
  cases hk : s.regCqs (S.effectiveKey i) with
  | none => rfl
  | some cq =>
    exfalso
    obtain ⟨j, hj, hcq⟩ := h.owner _ cq hk
    rcases eq_or_ne j i with rfl | hne
    · have hused := (h.loader j).used
      rw [hcq, hpc] at hused; cases hused
    · have hshared := (LoadSetup.effectiveKey_inj hj hne).2
      rw [hpriv] at hshared; cases hshared

theorem LoadInv.createCq (h : LoadInv S s) {d : Device ι} (hd : s.device = some d)
    (hpc : (s.loaders i).pc = .createCq) (size : UInt32) :
    LoadInv S { s.setLoader i { s.loaders i with
        pc := .createQp
        usedCq := some (d.createCompletionQueue (s.loaders i).adapter.config.cqKey size).2 } with
      device := some (d.createCompletionQueue (s.loaders i).adapter.config.cqKey size).1 } := by
  have hl := h.loader i
  have hkey : (s.loaders i).adapter.config.cqKey = S.effectiveKey i := hl.key (by rw [hpc]; decide)
  have hregd : s.regCqs = d.regCqs := by rw [LoadState.regCqs, hd]; rfl
  have hcrd : s.createdKeys = d.created.map (·.1) := by rw [LoadState.createdKeys, hd]; rfl
  have hnone : (s.loaders i).usedCq = none := by
    have := hl.used
    rw [hpc] at this
    exact Option.not_isSome_iff_eq_none.1 (by rw [this]; decide)
  rw [hkey]
  obtain ⟨hreg, hcase⟩ := d.createCompletionQueue_spec (S.effectiveKey i) size
  have hlisted : d.Listed := by
    intro k cq
    rw [← hregd, ← hcrd]
    exact h.created k cq
  have hlisted' := hlisted.createCompletionQueue (S.effectiveKey i) size
  generalize (d.createCompletionQueue (S.effectiveKey i) size).2 = cq at *
  generalize (d.createCompletionQueue (S.effectiveKey i) size).1 = d' at *
  refine ⟨h.forall_loaderInv ?_, fun j cq' hj => ?_, fun k cq' hk => ?_, fun k cq' => ?_,
    h.noPrevious⟩
  · exact hl.advance rfl rfl hkey (by decide) (absurd · (by decide)) rfl
  · show d'.regCqs _ = _
    replace hj : (Function.update s.loaders i _ j).usedCq = some cq' := hj
    rw [hreg]
    rcases eq_or_ne j i with rfl | hne
    · rw [Function.update_self] at hj ⊢; exact hj
    · rw [Function.update_of_ne hne] at hj
      have hold := h.reg j cq' hj
      rw [hregd] at hold
      by_cases hk : S.effectiveKey j = S.effectiveKey i
      · rw [hk, Function.update_self]
        rw [hk] at hold
        rcases hcase with ⟨hc, -⟩ | ⟨hc, -⟩
        · exact hc.symm.trans hold
        · rw [hc] at hold; cases hold
      · rw [Function.update_of_ne hk]; exact hold
  · replace hk : d'.regCqs k = some cq' := hk
    show ∃ j, _ ∧ (Function.update s.loaders i _ j).usedCq = some cq'
    rw [hreg] at hk
    by_cases hki : k = S.effectiveKey i
    · refine ⟨i, hki.symm, ?_⟩
      rw [hki, Function.update_self] at hk
      rw [Function.update_self]; exact hk
    · rw [Function.update_of_ne hki, ← hregd] at hk
      obtain ⟨j, hj, hcq⟩ := h.owner k cq' hk
      have hne : j ≠ i := by rintro rfl; rw [hnone] at hcq; cases hcq
      exact ⟨j, hj, by rw [Function.update_of_ne hne]; exact hcq⟩
  · exact hlisted' k cq'

omit [DecidableEq ι] in
/-- The first step sets the key. -/
theorem LoaderInv.start {l l' : Loader} (hl : LoaderInv S i l) (hpc : l.pc = .start)
    (h : l.start = .ok l') : LoaderInv S i l' ∧ l'.usedCq = l.usedCq := by
  obtain ⟨halloc, hkey⟩ := hl.fresh hpc
  have hused := hl.used
  rw [hpc] at hused
  unfold Loader.start at h
  rw [halloc] at h
  simp only [Bool.false_eq_true, if_false] at h
  split_ifs at h with hsh
  · simp only [Except.bind_eq_ok, Except.pure_eq_ok] at h
    obtain ⟨-, -, rfl⟩ := h
    refine ⟨hl.advance rfl rfl ?_ (by decide) (absurd · (by decide)) hused, rfl⟩
    rw [hl.shared] at hsh
    rw [LoadSetup.effectiveKey, if_pos hsh]; exact hkey
  · obtain rfl := Except.pure_eq_ok.1 h
    refine ⟨hl.advance rfl rfl ?_ (by decide) (absurd · (by decide)) hused, rfl⟩
    rw [hl.shared] at hsh
    rw [LoadSetup.effectiveKey, if_neg hsh, ← hl.endpoint]

theorem Loader.start_ne_previousCq (l : Loader) : l.start ≠ .error (.check .previousCq) := by
  unfold Loader.start
  simp only [check, bind, Except.bind, pure, Except.pure]
  split_ifs <;> simp

/-- A step on the device other than `create_cq` leaves the registry alone. -/
theorem LoaderInv.onDevice {l l' : Loader} {d d' : Device ι} (hl : LoaderInv S i l)
    (hcq : l.pc ≠ .createCq) (h : l.onDevice S.hca i d = .ok (d', l')) :
    LoaderInv S i l' ∧ l'.usedCq = l.usedCq ∧ d'.regCqs = d.regCqs ∧ d'.created = d.created := by
  have hused := hl.used
  have hkey := hl.key
  cases Loader.onDevice_cases h with
  | registerAdapter hpc =>
    rw [hpc] at hused hkey
    refine ⟨hl.advance rfl rfl (hkey (by decide)) (by decide) (absurd · (by decide)) hused,
      rfl, ?_, ?_⟩ <;>
      (unfold Device.registerAdapter; split_ifs <;> rfl)
  | createPd hpc | createQp hpc | hasCreatedCq hpc =>
    rw [hpc] at hused hkey
    exact ⟨hl.advance rfl rfl (hkey (by decide)) (by decide) (absurd · (by decide)) hused,
      rfl, rfl, rfl⟩
  | createComptChannel hpc =>
    rw [hpc] at hused hkey
    refine ⟨hl.advance rfl rfl (hkey (by decide)) ?_ ?_ ?_, rfl, rfl, rfl⟩
    · split_ifs <;> decide
    · rw [← hl.shared]
      split_ifs with hsh
      · exact (absurd · (by decide))
      · intro _; exact Bool.eq_false_iff.2 hsh
    · rw [hused]; split_ifs <;> rfl
  | createCq hpc => exact absurd hpc hcq
  | updateMyAdapterInfo hpc ha =>
    rw [hpc] at hused hkey
    obtain ⟨he, hsh, hk⟩ := Adapter.updateMyAdapterInfo_frame ha
    exact ⟨hl.advance he hsh (hk.trans (hkey (by decide))) (by decide) (absurd · (by decide)) hused,
      rfl, rfl, rfl⟩
  | idle => exact ⟨hl, rfl, rfl, rfl⟩

/-- Only the private path can find a previous queue. -/
theorem Loader.onDevice_previousCq {l : Loader} {d : Device ι} {hca : Hca}
    (h : l.onDevice hca i d = .error (.check .previousCq)) :
    l.pc = .hasCreatedCq ∧ d.regCqs l.adapter.config.cqKey ≠ none := by
  unfold onDevice at h
  split at h
  case h_4 hpc =>
    refine ⟨hpc, fun hn => ?_⟩
    simp only [check, hn, if_true, bind, Except.bind, pure, Except.pure] at h
    cases h
  case h_7 hpc =>
    cases ha : l.adapter.updateMyAdapterInfo hca (UInt32.ofNat (l.qp.getD 0)) with
    | ok a => rw [ha] at h; cases h
    | error f =>
      rw [ha] at h
      cases h
      exact absurd ha (Adapter.updateMyAdapterInfo_ne_previousCq _ _ _)
  case h_3 => split_ifs at h <;> cases h
  all_goals cases h

/-- No step finds a previous queue: the key of a private adapter is in no one
    else's hands. -/
theorem LoadInv.onDevice_ne_previousCq (h : LoadInv S s) {d : Device ι} (hd : s.device = some d) :
    (s.loaders i).onDevice S.hca i d ≠ .error (.check .previousCq) := by
  intro herr
  obtain ⟨hpc, hne⟩ := Loader.onDevice_previousCq herr
  have hkey := (h.loader i).key (by rw [hpc]; decide)
  have hreg : d.regCqs = s.regCqs := by rw [LoadState.regCqs, hd]; rfl
  rw [hkey, hreg] at hne
  exact hne (h.regCqs_eq_none (by rw [hpc]; rfl) ((h.loader i).onlyPrivate hpc))

/-- **Every step keeps the invariant.** -/
theorem LoadInv.step (h : LoadInv S s) (hs : LoadState.step S s i = some s') : LoadInv S s' := by
  have hl := h.loader i
  obtain ⟨-, ⟨f, hf, rfl⟩ | ⟨l, hpc, hok, rfl⟩ | ⟨hpc, rfl⟩ | ⟨d, d', l', hd, hok, rfl⟩⟩ :=
    LoadState.step_cases hs
  · refine h.abort ?_
    rintro rfl
    rcases hf with hf | hf | ⟨d, hd, hf⟩
    · exact Loader.start_ne_previousCq _ hf
    · cases hf
    · exact h.onDevice_ne_previousCq hd hf
  · obtain ⟨hl', huse⟩ := hl.start hpc hok
    exact h.quiet hl' huse rfl rfl
  · have hused := hl.used
    rw [hpc] at hused
    exact h.quiet (hl.advance rfl rfl (hl.key (by rw [hpc]; decide)) (by decide)
      (absurd · (by decide)) hused) rfl rfl rfl
  · by_cases hcq : (s.loaders i).pc = .createCq
    · rw [Loader.onDevice, hcq] at hok
      obtain ⟨rfl, rfl⟩ := Prod.mk.inj (Except.ok.inj hok)
      exact h.createCq hd hcq _
    · obtain ⟨hl', huse, hreg, hcr⟩ := hl.onDevice hcq hok
      refine h.quiet hl' huse ?_ ?_
      · rw [LoadState.regCqs, hd]; exact hreg
      · rw [LoadState.createdKeys, hd]; exact congrArg _ hcr

theorem loadInv_reachable (h : Lts.Reachable (LoadState.step S) (LoadState.init S) s) :
    LoadInv S s :=
  h.induct (loadInv_init S) fun _ _ _ => LoadInv.step

/-- `ibv_create_cq` is called once per key at most. -/
theorem LoadInv.nodup_createdKeys (h : LoadInv S s) : s.createdKeys.Nodup := by
  rw [List.nodup_iff_getElem?_ne_getElem?]
  intro m n hmn hn he
  obtain ⟨k, hk⟩ : ∃ k, s.createdKeys[n]? = some k := ⟨_, List.getElem?_eq_getElem hn⟩
  have hm := (h.created k m).2 (he.trans hk)
  rw [(h.created k n).2 hk] at hm
  exact hmn.ne (Option.some.inj hm).symm

theorem LoadInv.mem_createdKeys (h : LoadInv S s) (k : String) :
    k ∈ s.createdKeys ↔ ∃ i, S.effectiveKey i = k ∧ (s.loaders i).usedCq ≠ none := by
  constructor
  · intro hk
    obtain ⟨cq, hcq⟩ := List.mem_iff_getElem?.1 hk
    obtain ⟨i, hi, hused⟩ := h.owner k cq ((h.created k cq).2 hcq)
    exact ⟨i, hi, by rw [hused]; exact Option.some_ne_none _⟩
  · rintro ⟨i, rfl, hne⟩
    obtain ⟨cq, hcq⟩ := Option.ne_none_iff_exists'.1 hne
    exact List.mem_of_getElem? ((h.created _ cq).1 (h.reg i cq hcq))

/-- Adapters share a queue iff they are both shared and have equal keys. -/
theorem LoadInv.usedCq_eq_iff (h : LoadInv S s) {i j : ι} (hij : i ≠ j) {cq cq' : CqId}
    (hi : (s.loaders i).usedCq = some cq) (hj : (s.loaders j).usedCq = some cq') :
    cq = cq' ↔ (S.config i).usingSharedCq = true ∧ (S.config j).usingSharedCq = true ∧
      (S.config i).cqKey = (S.config j).cqKey := by
  have hri := h.reg i cq hi
  have hrj := h.reg j cq' hj
  constructor
  · rintro rfl
    have hk : S.effectiveKey i = S.effectiveKey j := by
      have := ((h.created _ cq).1 hri).symm.trans ((h.created _ cq).1 hrj)
      exact Option.some.inj this
    obtain ⟨hsi, hsj⟩ := LoadSetup.effectiveKey_inj hk hij
    rw [LoadSetup.effectiveKey, LoadSetup.effectiveKey, if_pos hsi, if_pos hsj] at hk
    exact ⟨hsi, hsj, hk⟩
  · rintro ⟨hsi, hsj, hk⟩
    rw [LoadSetup.effectiveKey, if_pos hsi, hk] at hri
    rw [LoadSetup.effectiveKey, if_pos hsj, hri] at hrj
    exact Option.some.inj hrj

open Classical in
/-- **The registry of completion queues under concurrent loading**: no private
    adapter finds a previous queue, one queue is created per key in use, and
    only shared adapters with equal keys share a queue. -/
theorem completionQueues_of_loading {s : LoadState ι}
    (h : Lts.Reachable (LoadState.step S) (LoadState.init S) s) :
    s.aborted ≠ some (.check .previousCq) ∧
      (∀ k, s.createdKeys.count k =
        if ∃ i, S.effectiveKey i = k ∧ (s.loaders i).usedCq ≠ none then 1 else 0) ∧
      (∀ i, (s.loaders i).pc = .loaded → (s.loaders i).usedCq ≠ none) ∧
      ∀ i j, i ≠ j → ∀ cq cq', (s.loaders i).usedCq = some cq → (s.loaders j).usedCq = some cq' →
        (cq = cq' ↔ (S.config i).usingSharedCq = true ∧ (S.config j).usingSharedCq = true ∧
          (S.config i).cqKey = (S.config j).cqKey) := by
  have hinv := loadInv_reachable h
  refine ⟨hinv.noPrevious, fun k => ?_, fun i hpc hnone => ?_,
    fun i j hij cq cq' hi hj => hinv.usedCq_eq_iff hij hi hj⟩
  · split_ifs with hk
    · exact List.count_eq_one_of_mem hinv.nodup_createdKeys ((hinv.mem_createdKeys k).2 hk)
    · exact List.count_eq_zero_of_not_mem fun hm => hk ((hinv.mem_createdKeys k).1 hm)
  · have hused := (hinv.loader i).used
    rw [hpc, hnone] at hused; cases hused

end

/-- Two endpoints of one server session. -/
def serverSetup : LoadSetup Bool where
  hca := { ports := [⟨2, .mtu4096, 0⟩], gid := fun _ _ => Vector.replicate 16 0 }
  endpoint := fun i =>
    ⟨⟨⟨10, 0, 0, 1⟩, 2020, ⟨10, 0, 0, if i then 2 else 3⟩, 40000⟩, "server", "0"⟩
  config := fun _ => { cqKey := "SharedCQ@server@0" }
  distinct := by decide
  sharedKey := fun _ _ => ⟨"server@0", rfl⟩

theorem completionQueues_of_serverSetup : ∃ s cq cq',
    Lts.run (LoadState.step serverSetup) (LoadState.init serverSetup)
      [true, true, false, true, false, true, true, false, false, true, false, false] = some s ∧
    (s.loaders true).usedCq = some cq ∧ (s.loaders false).usedCq = some cq' ∧ cq = cq' ∧
    s.createdKeys.count "SharedCQ@server@0" = 1 := by
  refine ⟨_, _, _, rfl, rfl, rfl, ?_⟩
  have h := completionQueues_of_loading (S := serverSetup)
    ⟨[true, true, false, true, false, true, true, false, false, true, false, false], rfl⟩
  refine ⟨(h.2.2.2 true false (by decide) _ _ rfl rfl).2 ⟨rfl, rfl, rfl⟩, ?_⟩
  rw [h.2.1, if_pos ⟨true, rfl, Option.some_ne_none _⟩]

end RdmaCore

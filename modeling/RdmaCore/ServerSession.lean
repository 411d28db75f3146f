/-
  Server sessions (src/rdma_server_sess.cc) and the size of the completion
  queue that their endpoints share.

  `RDMAServerSession::lazy_config_hca` gives all endpoints of a session one
  `cq_key` and leaves the sizes of the configuration alone: the queue has the
  default size, whatever the number of queue pairs attached to it.

  * `Process`: the server sessions of a process and their endpoints;
  * `SizeInv`: loading keeps the sizes, and the queues have the size of some
    configuration;
  * `Sufficient`: the size of a queue covers the requests of all queue pairs
    attached to it.
-/
import RdmaCore.Loading
import Mathlib.Algebra.BigOperators.Group.Finset.Basic
import Mathlib.Algebra.BigOperators.Fin
import Mathlib.Algebra.Order.BigOperators.Group.Finset
import Mathlib.Data.Fintype.Card

namespace RdmaCore

/-- `RDMAServerSession::lazy_config_hca`, on the configuration of one endpoint. -/
def lazyConfigHca (info : String) (c : AdapterConfig) : AdapterConfig :=
  { c with usingSharedCq := true, cqKey := "SharedCQ@" ++ info }

/-- The server sessions `σ` of a process on one device, and their endpoints `ι`. -/
structure Process (σ ι : Type) where
  hca : Hca
  role : σ → String
  sessionId : σ → String
  /-- all endpoints, in the order in which the sessions hold them -/
  endPoints : List ι
  session : ι → σ
  connector : ι → TCPConnector
  /-- where the channel of an endpoint lies -/
  address : ι → UInt64
  mem_endPoints : ∀ i, i ∈ endPoints
  nodup : endPoints.Nodup
  distinct : Function.Injective connector
  address_inj : Function.Injective address

namespace Process

variable {σ ι : Type} (p : Process σ ι)

/-- `RDMASession::info` -/
def info (a : σ) : String := p.role a ++ "@" ++ p.sessionId a

/-- The adapters that the sessions load, after `lazy_config_hca`. -/
def setup : LoadSetup ι where
  hca := p.hca
  endpoint := fun i => ⟨p.connector i, p.role (p.session i), p.sessionId (p.session i)⟩
  config := fun i => lazyConfigHca (p.info (p.session i)) {}
  distinct := fun _ _ h => p.distinct h
  sharedKey := fun i _ => ⟨p.info (p.session i), rfl⟩

theorem effectiveKey_setup (i : ι) :
    p.setup.effectiveKey i = "SharedCQ@" ++ p.info (p.session i) := rfl

end Process

/-! ## Sizes -/

/-- The sizes of a configuration. -/
def AdapterConfig.sizes (c : AdapterConfig) : UInt32 × UInt32 × UInt32 :=
  (c.cqSize, c.maxSendWr, c.maxRecvWr)

theorem AdapterConfig.Loads.sizes {c c' : AdapterConfig} (h : c.Loads c') :
    c'.sizes = c.sizes := by
  obtain ⟨cqKey, usedMtu, rfl⟩ := h
  rfl

/-- A queue that a step on the device creates has the size of the configuration. -/
theorem Loader.onDevice_created {ι : Type} [DecidableEq ι] {l l' : Loader} {hca : Hca} {i : ι}
    {d d' : Device ι} (h : l.onDevice hca i d = .ok (d', l')) : d'.created = d.created ∨
      d'.created = d.created ++ [(l.adapter.config.cqKey, l.adapter.config.cqSize)] := by
  cases Loader.onDevice_cases h with
  | createCq =>
    obtain ⟨-, ⟨-, hc⟩ | ⟨-, -, hc⟩⟩ :=
      d.createCompletionQueue_spec l.adapter.config.cqKey l.adapter.config.cqSize
    · exact .inl hc
    · exact .inr hc
  | registerAdapter =>
    refine .inl ?_
    unfold Device.registerAdapter
    split_ifs <;> rfl
  | createPd | createComptChannel | hasCreatedCq | createQp | updateMyAdapterInfo | idle =>
    exact .inl rfl

namespace LoadState

variable {ι : Type} [DecidableEq ι] {S : LoadSetup ι} {s s' : LoadState ι} {i : ι}

/-- The queues created, with key and size. -/
def created (s : LoadState ι) : List (String × UInt32) := (s.device.getD {}).created

/-- The sizes of the configurations are kept, and are those of the queues. -/
structure SizeInv (S : LoadSetup ι) (s : LoadState ι) : Prop where
  loader : ∀ i, (s.loaders i).adapter.config.sizes = (S.config i).sizes
  created : ∀ e ∈ s.created, ∃ i, e.2 = (S.config i).cqSize

omit [DecidableEq ι] in
theorem SizeInv.init (S : LoadSetup ι) : SizeInv S (init S) where
  loader _ := rfl
  created e he := by cases he

theorem SizeInv.setLoader (h : SizeInv S s) {l : Loader} {d : Option (Device ι)}
    (hl : (s.loaders i).adapter.config.Loads l.adapter.config)
    (hd : (d.getD {}).created = s.created ∨ ∃ k,
      (d.getD {}).created = s.created ++ [(k, (s.loaders i).adapter.config.cqSize)]) :
    SizeInv S { s.setLoader i l with device := d } where
  loader j := by
    show (Function.update s.loaders i l j).adapter.config.sizes = _
    by_cases hj : j = i
    · subst hj
      rw [Function.update_self, hl.sizes, h.loader]
    · rw [Function.update_of_ne hj, h.loader]
  created e he := by
    replace he : e ∈ (d.getD {}).created := he
    rcases hd with hd | ⟨k, hd⟩
    · exact h.created e (hd ▸ he)
    · rw [hd, List.mem_append, List.mem_singleton] at he
      rcases he with he | rfl
      · exact h.created e he
      · exact ⟨i, congrArg Prod.fst (h.loader i)⟩

theorem SizeInv.step (h : SizeInv S s) (hs : step S s i = some s') : SizeInv S s' := by
  obtain ⟨-, ⟨f, -, rfl⟩ | ⟨l, -, hl, rfl⟩ | ⟨-, rfl⟩ | ⟨d, d', l, hd, hl, rfl⟩⟩ := step_cases hs
  · exact ⟨h.loader, h.created⟩
  · exact h.setLoader (Loader.start_loads hl) (.inl rfl)
  · exact h.setLoader (.refl _) (.inl rfl)
  · have hcreated : s.created = d.created := by rw [LoadState.created, hd]; rfl
    refine h.setLoader (Loader.onDevice_loads hl) ?_
    rw [hcreated]
    rcases Loader.onDevice_created hl with hcr | hcr
    · exact .inl hcr
    · exact .inr ⟨_, hcr⟩

theorem sizeInv_reachable (h : Lts.Reachable (step S) (init S) s) : SizeInv S s :=
  h.induct (SizeInv.init S) fun _ _ _ => SizeInv.step

/-! ## The size of a shared queue -/

section
variable [Fintype ι]

/-- The requests that the queue pair of an adapter admits. -/
def admitted (s : LoadState ι) (i : ι) : ℕ :=
  (s.loaders i).adapter.config.maxSendWr.toNat + (s.loaders i).adapter.config.maxRecvWr.toNat

/-- The adapters whose queue pairs are attached to a queue. -/
def attached (s : LoadState ι) (cq : CqId) : Finset ι :=
  Finset.univ.filter fun i => (s.loaders i).usedCq = some cq

/-- The size of every queue covers what the queue pairs attached to it admit. -/
def Sufficient (s : LoadState ι) : Prop :=
  ∀ cq key size, s.created[cq]? = some (key, size) →
    ∑ i ∈ s.attached cq, s.admitted i ≤ size.toNat

/-- No requests that the queue pairs admit overrun a queue. -/
def NoOverrun (s : LoadState ι) : Prop :=
  ∀ outstanding : ι → ℕ, (∀ i, outstanding i ≤ s.admitted i) →
    ∀ cq key size, s.created[cq]? = some (key, size) →
      ∑ i ∈ s.attached cq, outstanding i ≤ size.toNat

omit [DecidableEq ι] in
theorem noOverrun_iff : s.NoOverrun ↔ s.Sufficient := by
  constructor
  · intro h
    exact h s.admitted fun _ => Nat.le_refl _
  · intro h outstanding hle cq key size hcq
    exact (Finset.sum_le_sum fun i _ => hle i).trans (h cq key size hcq)

end

end LoadState

/-! ## Server sessions -/

section
variable {N : ℕ} {p : Process Unit (Fin N)} {s : LoadState (Fin N)}

/-- Queues and queue pairs have the default sizes. -/
theorem default_sizes (h : LoadState.SizeInv p.setup s) :
    (∀ i, s.admitted i = 256) ∧ ∀ e ∈ s.created, e.2 = 1024 := by
  constructor
  · intro i
    have hsizes := h.loader i
    simp only [AdapterConfig.sizes, Prod.mk.injEq] at hsizes
    rw [LoadState.admitted, hsizes.2.1, hsizes.2.2]
    rfl
  · intro e he
    obtain ⟨i, hi⟩ := h.created e he
    exact hi

/-- The adapters of one session are attached to one queue. -/
theorem attached_eq_univ (h : LoadInv p.setup s) (hall : ∀ i, (s.loaders i).pc = .loaded)
    (i : Fin N) : ∃ cq e, s.created[cq]? = some e ∧ s.attached cq = Finset.univ := by
  have hused : ∀ j, ∃ cq, (s.loaders j).usedCq = some cq := by
    intro j
    have hj := (h.loader j).used
    rw [hall j] at hj
    exact Option.isSome_iff_exists.1 hj
  obtain ⟨cq, hcq⟩ := hused i
  have hreg := h.reg i cq hcq
  have hget := (h.created _ cq).1 hreg
  rw [LoadState.createdKeys, List.getElem?_map, Option.map_eq_some_iff] at hget
  obtain ⟨e, he, -⟩ := hget
  refine ⟨cq, e, he, ?_⟩
  ext j
  simp only [LoadState.attached, Finset.mem_filter, Finset.mem_univ, true_and, iff_true]
  obtain ⟨cq', hcq'⟩ := hused j
  -- the registry has one queue under the key of the session
  have hkey : p.setup.effectiveKey j = p.setup.effectiveKey i := by
    rw [p.effectiveKey_setup, p.effectiveKey_setup, Subsingleton.elim (p.session j) (p.session i)]
  have hreg' := h.reg j cq' hcq'
  rw [hkey, hreg] at hreg'
  rw [hcq', Option.some.inj hreg']

/-- **The shared queue of a server session** with `N` endpoints is large enough
    iff there are at most four of them. -/
theorem sufficient_iff {N : ℕ} (p : Process Unit (Fin N)) {s : LoadState (Fin N)}
    (h : Lts.Reachable (LoadState.step p.setup) (LoadState.init p.setup) s)
    (hall : ∀ i, (s.loaders i).pc = .loaded) :
    (s.Sufficient ↔ N ≤ 4) ∧ (s.NoOverrun ↔ N ≤ 4) := by
  rw [LoadState.noOverrun_iff, and_self]
  obtain ⟨hadm, hsize⟩ := default_sizes (LoadState.sizeInv_reachable h)
  have hsum : ∀ t : Finset (Fin N), ∑ i ∈ t, s.admitted i = t.card * 256 := by
    intro t
    rw [Finset.sum_congr rfl fun i _ => hadm i, Finset.sum_const, smul_eq_mul]
  constructor
  · intro hsuf
    by_contra hN
    obtain ⟨cq, ⟨key, size⟩, hcq, hatt⟩ :=
      attached_eq_univ (loadInv_reachable h) hall ⟨0, by omega⟩
    obtain rfl : size = 1024 := hsize _ (List.mem_of_getElem? hcq)
    have hle := hsuf cq key 1024 hcq
    rw [hatt, hsum, Finset.card_univ, Fintype.card_fin] at hle
    have hn : (1024 : UInt32).toNat = 1024 := rfl
    omega
  · intro hN cq key size hcq
    have hcard : (s.attached cq).card ≤ N := by
      simpa using Finset.card_le_univ (s.attached cq)
    obtain rfl : size = 1024 := hsize _ (List.mem_of_getElem? hcq)
    have hn : (1024 : UInt32).toNat = 1024 := rfl
    rw [hsum, hn]
    omega

end

/-- A server session with `N` clients. -/
def clients (N : ℕ) (hN : N ≤ 256) : Process Unit (Fin N) where
  hca := { ports := [⟨2, .mtu4096, 0⟩], gid := fun _ _ => Vector.replicate 16 0 }
  role := fun _ => "server"
  sessionId := fun _ => "0"
  endPoints := List.finRange N
  session := fun _ => ()
  connector := fun i => ⟨⟨10, 0, 0, 1⟩, 2020, ⟨10, 0, 1, UInt8.ofNat i⟩, 40000⟩
  address := fun i => UInt64.ofNat i
  mem_endPoints := List.mem_finRange
  nodup := List.nodup_finRange N
  distinct := by
    intro i j h
    simp only [TCPConnector.mk.injEq, Ipv4.mk.injEq, true_and, and_true] at h
    have hmod := congrArg UInt8.toNat h
    simp only [UInt8.toNat_ofNat'] at hmod
    omega
  address_inj := by
    intro i j h
    have hmod := congrArg UInt64.toNat h
    simp only [UInt64.toNat_ofNat'] at hmod
    omega

/-- Every adapter takes the eight steps of `loading`, in turns. -/
def inTurns (N : ℕ) : List (Fin N) := (List.replicate 8 (List.finRange N)).flatten

theorem sufficient_two_clients : ∃ s,
    Lts.Reachable (LoadState.step (clients 2 (by decide)).setup)
      (LoadState.init (clients 2 (by decide)).setup) s ∧
    (∀ i, (s.loaders i).pc = .loaded) ∧ s.Sufficient ∧ s.NoOverrun := by
  have h : (Lts.run (LoadState.step (clients 2 (by decide)).setup)
      (LoadState.init (clients 2 (by decide)).setup) (inTurns 2)).any
      (fun s => decide (∀ i, (s.loaders i).pc = .loaded)) = true := by decide +kernel
  obtain ⟨s, hs, hp⟩ := Lts.Reachable.of_any h
  have hall := of_decide_eq_true hp
  obtain ⟨hsuf, hover⟩ := sufficient_iff (clients 2 (by decide)) hs hall
  exact ⟨s, hs, hall, hsuf.2 (by decide), hover.2 (by decide)⟩

/-- The queue of a session with five clients has 1024 entries for 1280 requests. -/
theorem not_sufficient_five_clients : ∃ s,
    Lts.Reachable (LoadState.step (clients 5 (by decide)).setup)
      (LoadState.init (clients 5 (by decide)).setup) s ∧
    (∀ i, (s.loaders i).pc = .loaded) ∧ ¬ s.Sufficient := by
  have h : (Lts.run (LoadState.step (clients 5 (by decide)).setup)
      (LoadState.init (clients 5 (by decide)).setup) (inTurns 5)).any
      (fun s => decide ((∀ i, (s.loaders i).pc = .loaded) ∧
        (s.created[0]?).map (·.2.toNat) = some 1024 ∧
          ∑ i ∈ s.attached 0, s.admitted i = 1280)) = true := by decide +kernel
  obtain ⟨s, hs, hp⟩ := Lts.Reachable.of_any h
  obtain ⟨hall, hsize, hsum⟩ := of_decide_eq_true hp
  obtain ⟨⟨key, size⟩, hcq, hn⟩ := Option.map_eq_some_iff.1 hsize
  refine ⟨s, hs, hall, fun hsuf => ?_⟩
  have hle := hsuf 0 key size hcq
  rw [hsum, hn] at hle
  omega

end RdmaCore

/-
  The full mesh of example/mesh_comm_service.cc: every node of a list runs one
  server session, and one client session for each address of its cluster.

  The server accepts connections in a loop that runs at least once and ends
  when a 32-bit counter reaches the size of the cluster
  (`RDMAServerSession::init_session` of src/rdma_server_sess.cc).  A client
  session tries until it is connected; that it gives up after five minutes is
  left out.

  * `acceptLoop_eq`: how many connections the loop accepts;
  * `length_connectionsTo`: how many connections the other nodes open;
  * `countsMatch_iff`: the lists for which the two agree on every node.
-/
import RdmaCore.Config
import RdmaCore.Identity
import Mathlib.Algebra.BigOperators.Group.List.Lemmas
import Mathlib.Algebra.Group.Action.Defs
import Mathlib.Data.List.Count
import Mathlib.Data.List.Dedup

namespace RdmaCore

/-! ## The server -/

section
variable {α : Type} {size : ℕ} {connected : UInt32}

/-- The loop of `init_session`, on the connections that arrive: those accepted,
    and those left; `none` if the loop waits for more. -/
def acceptLoop (size : ℕ) (connected : UInt32) : List α → Option (List α × List α)
  | [] => none
  | c :: cs =>
    let connected := connected + 1
    if size ≤ connected.toNat then some ([c], cs)
    else (acceptLoop size connected cs).map fun r => (c :: r.1, r.2)

/-- `init_session` accepts `k` connections before it returns. -/
def InitSessionAccepts (α : Type) (size k : ℕ) : Prop :=
  ∀ arrivals : List α, acceptLoop size 0 arrivals =
    if k ≤ arrivals.length then some (arrivals.take k, arrivals.drop k) else none

/-- The counter does not wrap before the loop ends. -/
theorem acceptLoop_eq (hsize : size < 2 ^ 32) (hc : connected.toNat < max 1 size)
    (arrivals : List α) :
    acceptLoop size connected arrivals =
      if max 1 size - connected.toNat ≤ arrivals.length then
        some (arrivals.take (max 1 size - connected.toNat),
          arrivals.drop (max 1 size - connected.toNat))
      else none := by
  induction arrivals generalizing connected with
  | nil =>
    rw [if_neg (by rw [List.length_nil]; omega)]
    rfl
  | cons c cs ih =>
    have hnext : (connected + 1).toNat = connected.toNat + 1 := by
      rw [UInt32.toNat_add]
      exact Nat.mod_eq_of_lt (by simp; omega)
    obtain ⟨r, hr⟩ : ∃ r, max 1 size - connected.toNat = r + 1 :=
      ⟨max 1 size - connected.toNat - 1, by omega⟩
    simp only [acceptLoop, hnext, hr, List.length_cons, Nat.add_le_add_iff_right,
      List.take_succ_cons, List.drop_succ_cons]
    by_cases hlast : size ≤ connected.toNat + 1
    · obtain rfl : r = 0 := by omega
      rw [if_pos hlast, if_pos (Nat.zero_le _), List.take_zero, List.drop_zero]
    · rw [if_neg hlast, ih (by omega), hnext,
        show max 1 size - (connected.toNat + 1) = r by omega]
      split_ifs <;> rfl

/-- The counter never reaches the size. -/
theorem acceptLoop_of_le (hsize : 2 ^ 32 ≤ size) (arrivals : List α) :
    acceptLoop size connected arrivals = none := by
  induction arrivals generalizing connected with
  | nil => rfl
  | cons c cs ih =>
    have hlt : (connected + 1).toNat < 2 ^ 32 := (connected + 1).toNat_lt
    rw [acceptLoop, if_neg (by omega), ih]
    rfl

theorem acceptLoop_zero (hsize : size < 2 ^ 32) (arrivals : List α) :
    acceptLoop size 0 arrivals =
      if max 1 size ≤ arrivals.length then
        some (arrivals.take (max 1 size), arrivals.drop (max 1 size))
      else none :=
  acceptLoop_eq hsize (by simp) arrivals

/-- **How many connections the server accepts.** -/
theorem initSessionAccepts_iff [Inhabited α] {k : ℕ} :
    InitSessionAccepts α size k ↔ size < 2 ^ 32 ∧ k = max 1 size := by
  constructor
  · intro h
    have hsize : size < 2 ^ 32 := by
      by_contra hge
      have hk := h (List.replicate k default)
      rw [acceptLoop_of_le (Nat.le_of_not_lt hge), List.length_replicate,
        if_pos (Nat.le_refl k)] at hk
      cases hk
    have hmax := h (List.replicate (max 1 size) default)
    rw [acceptLoop_zero hsize, List.length_replicate, if_pos (Nat.le_refl _)] at hmax
    by_cases hk : k ≤ max 1 size
    · rw [if_pos hk, Option.some.injEq, Prod.mk.injEq, List.drop_replicate, List.drop_replicate,
        Nat.sub_self] at hmax
      have hlen := congrArg List.length hmax.2
      rw [List.length_replicate, List.length_replicate] at hlen
      exact ⟨hsize, by omega⟩
    · rw [if_neg hk] at hmax
      cases hmax
  · rintro ⟨hsize, rfl⟩ arrivals
    exact acceptLoop_zero hsize arrivals

end

theorem length_filter_ne {α : Type} [DecidableEq α] (a : α) (l : List α) :
    (l.filter (· ≠ a)).length + l.count a = l.length := by
  have hsplit := List.length_eq_length_filter_add (l := l) (· == a)
  have hne : (l.filter fun x => !(x == a)) = l.filter (· ≠ a) :=
    List.filter_congr fun x _ => by by_cases hx : x = a <;> simp [hx]
  rw [hne, ← List.count_eq_length_filter] at hsplit
  omega

/-! ## The nodes -/

/-- `start_server_service`, up to `init_session` -/
def startServerService (conf : Config) : Config :=
  { conf with role := "master", masterIp := "", serveAsClient := false }

/-- `start_client_service`, up to `init_session` -/
def startClientService (conf : Config) (serverIp : String) : Config :=
  { conf with role := "slaver", masterIp := serverIp, cluster := [], serveAsClient := true }

/-- The client sessions that `main` starts. -/
def clientServices (conf : Config) : List Config := conf.cluster.map (startClientService conf)

/-- The nodes of `L`, each with its own address and with `L` as its `--cluster`;
    the other options are arbitrary, but for the common port. -/
structure Deployment (L : List Ipv4) where
  args : Ipv4 → List Opt
  conf : Ipv4 → DerivedConfig
  tcpPort : UInt32
  parsed : ∀ i ∈ L, DerivedConfig.parseArgs i.toText {} (args i) = .ok (conf i)
  words : ∀ i ∈ L, DerivedConfig.clusterWords (args i) = L.map Ipv4.toText
  port : ∀ i ∈ L, (conf i).tcpPort = tcpPort

/-- A connection: the node that opens it, and its client session. -/
structure Connection where
  node : Ipv4
  client : Config

instance : Inhabited Connection := ⟨⟨0, 0, 0, 0⟩, {}⟩

namespace Deployment

variable {L : List Ipv4} (d : Deployment L)

/-- The configuration of the server session of a node. -/
def server (i : Ipv4) : Config := startServerService (d.conf i).toConfig

/-- The connections that the client sessions of node `j` open to node `i`. -/
def connectionsFrom (i j : Ipv4) : List Connection :=
  ((clientServices (d.conf j).toConfig).filter fun c =>
    c.masterIp = i.toText ∧ c.tcpPort = (d.server i).tcpPort).map fun c => ⟨j, c⟩

/-- The connections that the other nodes open to node `i`. -/
def connectionsTo (i : Ipv4) : List Connection :=
  (L.dedup.filter (· ≠ i)).flatMap (d.connectionsFrom i)

/-- **The counts match**: the server of every node accepts as many connections as
    the other nodes open to it. -/
def CountsMatch : Prop :=
  ∀ i ∈ L, InitSessionAccepts Connection (d.server i).cluster.length (d.connectionsTo i).length

/-! ## Counting -/

theorem toText_injective : Function.Injective Ipv4.toText := by
  intro i j h
  have hsep : i.toText.toList ++ ':' :: [] = j.toText.toList ++ ':' :: [] := by rw [h]
  exact (Ipv4.toText_sep_inj rfl hsep).1

variable {i j : Ipv4}

/-- The cluster of a node: the entries of the list other than its own address. -/
theorem cluster_perm (hi : i ∈ L) :
    (d.conf i).cluster.Perm ((L.filter (· ≠ i)).map Ipv4.toText) := by
  have hperm := DerivedConfig.parseArgs_cluster (Or.inl rfl) (d.parsed i hi)
  rw [d.words i hi, List.filter_map] at hperm
  refine hperm.trans (List.Perm.of_eq ?_)
  show (L.filter fun j => decide (j.toText ≠ i.toText)).map Ipv4.toText = _
  simp only [ne_eq, toText_injective.eq_iff]

theorem length_cluster (hi : i ∈ L) :
    (d.server i).cluster.length + L.count i = L.length := by
  show (d.conf i).cluster.length + _ = _
  rw [(d.cluster_perm hi).length_eq, List.length_map, length_filter_ne]

/-- A node opens as many connections to another as the list has entries for it. -/
theorem length_connectionsFrom (hi : i ∈ L) (hj : j ∈ L) (hij : i ≠ j) :
    (d.connectionsFrom i j).length = L.count i := by
  have hport : (d.server i).tcpPort = (d.conf j).tcpPort := by
    rw [d.port j hj]
    exact d.port i hi
  rw [connectionsFrom, List.length_map, ← List.countP_eq_length_filter, clientServices,
    List.countP_map]
  have hentry : ((fun c : Config => decide (c.masterIp = i.toText ∧
      c.tcpPort = (d.server i).tcpPort)) ∘ startClientService (d.conf j).toConfig) =
        (· == i.toText) := by
    funext w
    simp only [Function.comp_apply, startClientService, hport, and_true]
    exact (beq_eq_decide w i.toText).symm
  rw [hentry, ← List.count, (d.cluster_perm hj).count_eq,
    List.count_map_of_injective _ _ toText_injective]
  exact List.count_filter (decide_eq_true hij)

theorem length_connectionsTo (hi : i ∈ L) :
    (d.connectionsTo i).length = (L.dedup.length - 1) * L.count i := by
  rw [connectionsTo, List.length_flatMap]
  have hconst : ∀ n ∈ (L.dedup.filter (· ≠ i)).map fun j => (d.connectionsFrom i j).length,
      n = L.count i := by
    intro n hn
    obtain ⟨j, hj, rfl⟩ := List.mem_map.1 hn
    obtain ⟨hj, hji⟩ := List.mem_filter.1 hj
    exact d.length_connectionsFrom hi (List.mem_dedup.1 hj) (Ne.symm (of_decide_eq_true hji))
  rw [List.sum_eq_card_nsmul _ _ hconst, List.length_map, smul_eq_mul]
  have hrest := length_filter_ne i L.dedup
  rw [List.count_eq_one_of_mem L.nodup_dedup (List.mem_dedup.2 hi)] at hrest
  rw [← hrest, Nat.add_sub_cancel]

end Deployment

/-- A list with at least two nodes, each listed equally often. -/
def Regular (L : List Ipv4) : Prop :=
  2 ≤ L.dedup.length ∧ ∀ i ∈ L, ∀ j ∈ L, L.count i = L.count j

theorem Regular.length_eq {L : List Ipv4} (h : Regular L) {i : Ipv4} (hi : i ∈ L) :
    L.length = L.dedup.length * L.count i := by
  rw [← List.sum_map_count_dedup_eq_length L]
  have hconst : ∀ n ∈ L.dedup.map fun j => L.count j, n = L.count i := by
    intro n hn
    obtain ⟨j, hj, rfl⟩ := List.mem_map.1 hn
    exact h.2 j (List.mem_dedup.1 hj) i hi
  rw [List.sum_eq_card_nsmul _ _ hconst, List.length_map, smul_eq_mul]

/-- What `m - 1` nodes open to a node listed `c` times, and what it accepts. -/
theorem opened_eq_accepted_iff {m c n : ℕ} (hc : 0 < c) (hcn : c ≤ n) (hmn : m ≤ n) :
    (m - 1) * c = max 1 (n - c) ↔ 2 ≤ m ∧ m * c = n := by
  rw [Nat.sub_one_mul]
  constructor
  · intro h
    have htwo : 2 ≤ m := by
      by_contra hlt
      have hle := Nat.mul_le_mul_right c (show m ≤ 1 by omega)
      omega
    have hle := Nat.mul_le_mul_right c htwo
    exact ⟨htwo, by omega⟩
  · rintro ⟨htwo, rfl⟩
    have hle := Nat.mul_le_mul_right c htwo
    omega

namespace Deployment

variable {L : List Ipv4} (d : Deployment L) {i : Ipv4}

/-- The counts of one node. -/
theorem initSessionAccepts_iff (hi : i ∈ L) :
    InitSessionAccepts Connection (d.server i).cluster.length (d.connectionsTo i).length ↔
      L.length - L.count i < 2 ^ 32 ∧ 2 ≤ L.dedup.length ∧
        L.dedup.length * L.count i = L.length := by
  have hlen := d.length_cluster hi
  rw [RdmaCore.initSessionAccepts_iff, d.length_connectionsTo hi,
    show (d.server i).cluster.length = L.length - L.count i by omega,
    opened_eq_accepted_iff (List.count_pos_iff.2 hi) List.count_le_length
      (List.dedup_sublist L).length_le]

end Deployment

/-- **The rendezvous of the mesh**: the counts match exactly for the lists that
    name at least two nodes, all equally often, and less than 2^32 others. -/
theorem countsMatch_iff {L : List Ipv4} (d : Deployment L) : d.CountsMatch ↔
    L = [] ∨ Regular L ∧ ∀ i ∈ L, L.length - L.count i < 2 ^ 32 := by
  constructor
  · intro h
    rw [or_iff_not_imp_left]
    intro hne
    have hall := fun i hi => (d.initSessionAccepts_iff hi).1 (h i hi)
    obtain ⟨i, hi⟩ := List.exists_mem_of_ne_nil L hne
    obtain ⟨-, htwo, -⟩ := hall i hi
    refine ⟨⟨htwo, ?_⟩, fun i hi => (hall i hi).1⟩
    intro i hi j hj
    have heq := (hall i hi).2.2.trans (hall j hj).2.2.symm
    exact Nat.eq_of_mul_eq_mul_left (by omega) heq
  · rintro (rfl | ⟨hreg, hsize⟩) i hi
    · exact absurd hi List.not_mem_nil
    · exact (d.initSessionAccepts_iff hi).2 ⟨hsize i hi, hreg.1, (hreg.length_eq hi).symm⟩

/-! ## Nodes that are started with the list alone -/

/-- An address is not taken for an option. -/
theorem head_toText (i : Ipv4) : i.toText.toList.head? ≠ some '-' := by
  intro h
  have hdot : i.toText.toList = Text.decimal i.a.toNat ++
      ".".toList ++ (toString i.b.toNat ++ "." ++ toString i.c.toNat ++ "." ++
        toString i.d.toNat).toList := by
    simp only [Ipv4.toText, Text.decimal, String.toList_append, List.append_assoc]
  rw [hdot] at h
  cases hdec : Text.decimal i.a.toNat with
  | nil =>
    rw [hdec] at h
    cases h
  | cons x xs =>
    rw [hdec] at h
    obtain rfl := Option.some.inj h
    exact Text.not_mem_decimal rfl i.a.toNat (hdec ▸ List.mem_cons_self)

/-- Every node is started with `--cluster` only. -/
def Deployment.plain (L : List Ipv4) : Deployment L where
  args := fun _ => DerivedConfig.clusterArgs (L.map Ipv4.toText)
  conf := fun i => (DerivedConfig.parseArgs i.toText {}
    (DerivedConfig.clusterArgs (L.map Ipv4.toText))).toOption.getD {}
  tcpPort := 2020
  parsed := by
    intro i _
    obtain ⟨localIp, cluster, numSenders, h⟩ := @DerivedConfig.parseArgs_clusterArgs i.toText
      (L.map Ipv4.toText)
    rw [h]
    rfl
  words := by
    intro i _
    refine DerivedConfig.clusterWords_clusterArgs fun w hw => ?_
    obtain ⟨j, -, rfl⟩ := List.mem_map.1 hw
    exact head_toText j
  port := by
    intro i _
    obtain ⟨localIp, cluster, numSenders, h⟩ := @DerivedConfig.parseArgs_clusterArgs i.toText
      (L.map Ipv4.toText)
    rw [h]
    rfl

/-- The only node of its list waits for a connection that nobody opens; and the
    node listed twice gets two connections and accepts one. -/
theorem not_countsMatch : (∃ d : Deployment [⟨12, 12, 12, 1⟩], ¬ d.CountsMatch) ∧
    ∃ d : Deployment [⟨12, 12, 12, 1⟩, ⟨12, 12, 12, 1⟩, ⟨12, 12, 12, 2⟩], ¬ d.CountsMatch := by
  constructor
  · refine ⟨.plain _, fun h => ?_⟩
    have hnone := h ⟨12, 12, 12, 1⟩ List.mem_cons_self []
    have hlen : ((Deployment.plain [⟨12, 12, 12, 1⟩]).connectionsTo ⟨12, 12, 12, 1⟩).length = 0 := by
      decide +kernel
    rw [hlen] at hnone
    cases hnone
  · refine ⟨.plain _, fun h => ?_⟩
    have hone := h ⟨12, 12, 12, 1⟩ List.mem_cons_self [default]
    have hlen : ((Deployment.plain [⟨12, 12, 12, 1⟩, ⟨12, 12, 12, 1⟩, ⟨12, 12, 12, 2⟩]).connectionsTo
        ⟨12, 12, 12, 1⟩).length = 2 := by decide +kernel
    have hcluster : ((Deployment.plain [⟨12, 12, 12, 1⟩, ⟨12, 12, 12, 1⟩, ⟨12, 12, 12, 2⟩]).server
        ⟨12, 12, 12, 1⟩).cluster.length = 1 := by decide +kernel
    rw [hlen, hcluster] at hone
    cases hone

end RdmaCore

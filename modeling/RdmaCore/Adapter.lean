/-
  RDMAAdapter (include/rdma_adapter.h, src/rdma_adapter.cc): the configuration
  of an adapter, the information it sends to its peer, and the transitions of
  its queue pair.

  * `AdapterInfo.ofBytes_toBytes`: the information of an adapter is read back
    from the bytes sent over the connection;
  * `updateMyAdapterInfo_ok`, `connecting_ok`: what `loading` and `connecting`
    leave in the adapter.

  What the verbs library answers (attributes of the port, the number of a new
  queue pair, the outcome of `ibv_modify_qp`) is a parameter.
-/
import RdmaCore.Types
import RdmaCore.Identity

namespace RdmaCore

/-- `enum ibv_mtu` -/
inductive IbvMtu where
  | mtu256
  | mtu512
  | mtu1024
  | mtu2048
  | mtu4096
  deriving DecidableEq, Repr

namespace IbvMtu

def toNat : IbvMtu → ℕ
  | mtu256 => 1
  | mtu512 => 2
  | mtu1024 => 3
  | mtu2048 => 4
  | mtu4096 => 5

theorem toNat_inj {m n : IbvMtu} (h : m.toNat = n.toNat) : m = n := by
  cases m <;> cases n <;> first | rfl | cases h

/-- The smaller of two MTUs. -/
def min (m n : IbvMtu) : IbvMtu := if n.toNat < m.toNat then n else m

theorem toNat_min_le (m n : IbvMtu) : (min m n).toNat ≤ n.toNat := by
  unfold min; split_ifs with h <;> omega

end IbvMtu

/-- `union ibv_gid` -/
abbrev Gid := Vector UInt8 16

/-- The part of `struct ibv_port_attr` that adapters use. -/
structure PortAttr where
  linkLayer : UInt8
  activeMtu : IbvMtu
  lid : UInt16
  deriving DecidableEq, Repr

/-- `IBV_LINK_LAYER_ETHERNET` -/
def linkLayerEthernet : UInt8 := 2

/-- What the device reports about its ports. -/
structure Hca where
  ports : List PortAttr
  gid : UInt8 → UInt8 → Gid

namespace Hca

/-- `RDMADevice::query_gid` -/
def queryGid (hca : Hca) (ibPort gidIndex : UInt8) : Except Fault Gid := do
  check (1 ≤ ibPort.toNat ∧ ibPort.toNat ≤ hca.ports.length) .ibPort
  pure (hca.gid ibPort gidIndex)

/-- `RDMADevice::get_port_attr` -/
def getPortAttr (hca : Hca) (ibPort : UInt32) : Except Fault PortAttr := do
  check (1 ≤ ibPort.toNat ∧ ibPort.toNat ≤ hca.ports.length) .ibPort
  match hca.ports[ibPort.toNat - 1]? with
  | some port => pure port
  | none => throw .undefined

end Hca

/-- `struct AdapterConfig` -/
structure AdapterConfig where
  devName : String := "mlx5_0"
  trafficClass : UInt32 := 0
  cqSize : UInt32 := 1024
  ibPort : Int32 := 1
  gidIndex : Int32 := 3
  usedMtu : IbvMtu := .mtu4096
  cqKey : String := ""
  usingSharedCq : Bool := true
  useEventChannel : Bool := false
  maxSendWr : UInt32 := 128
  maxRecvWr : UInt32 := 128
  deriving DecidableEq

/-- `loading` sets the key of the completion queue and the MTU only. -/
def AdapterConfig.Loads (c c' : AdapterConfig) : Prop :=
  ∃ cqKey usedMtu, c' = { c with cqKey, usedMtu }

namespace AdapterConfig.Loads

variable {c c' c'' : AdapterConfig}

theorem refl (c : AdapterConfig) : c.Loads c := ⟨c.cqKey, c.usedMtu, rfl⟩

theorem trans (h : c.Loads c') (h' : c'.Loads c'') : c.Loads c'' := by
  obtain ⟨cqKey, usedMtu, rfl⟩ := h
  obtain ⟨cqKey', usedMtu', rfl⟩ := h'
  exact ⟨cqKey', usedMtu', rfl⟩

end AdapterConfig.Loads

/-! ## The information exchanged with the peer -/

/-- `struct AdapterInfo` (packed); the MTU is the value of the enumerator. -/
structure AdapterInfo where
  gid : Gid := Vector.replicate 16 0
  qpNum : UInt32 := 0
  lid : UInt16 := 0
  linkLayer : UInt8 := 0
  activeMtu : UInt32 := 1
  uniqueId : Vector UInt8 128 := Vector.replicate 128 0
  deriving DecidableEq

namespace AdapterInfo

/-- `sizeof(struct AdapterInfo)` -/
def size : ℕ := 155

def toBytes (i : AdapterInfo) : List UInt8 :=
  i.gid.toList ++ (leBytes 4 i.qpNum.toNat ++ (leBytes 2 i.lid.toNat ++
    (i.linkLayer :: (leBytes 4 i.activeMtu.toNat ++ i.uniqueId.toList))))

/-- The structure at the start of a byte array. -/
def ofBytes (bs : List UInt8) : AdapterInfo where
  gid := Vector.ofFn fun i => bs.getD i 0
  qpNum := UInt32.ofNat (leNat ((bs.drop 16).take 4))
  lid := UInt16.ofNat (leNat ((bs.drop 20).take 2))
  linkLayer := bs.getD 22 0
  activeMtu := UInt32.ofNat (leNat ((bs.drop 23).take 4))
  uniqueId := Vector.ofFn fun i => bs.getD (27 + i) 0

@[simp] theorem length_toBytes (i : AdapterInfo) : i.toBytes.length = size := by
  simp [toBytes, size]

theorem ofFn_getD {n k : ℕ} {b : List UInt8} {v : Vector UInt8 n} {l : List UInt8}
    (h : b.drop k = v.toList ++ l) : Vector.ofFn (fun i : Fin n => b.getD (k + i) 0) = v := by
  ext i hi
  have hget : b[k + i]? = (v.toList ++ l)[i]? := by rw [← h, List.getElem?_drop]
  rw [List.getElem?_append_left (by simpa using hi)] at hget
  simp [List.getD_eq_getElem?_getD, hget, hi]

/-- **The information of an adapter is read back from its bytes.** -/
theorem ofBytes_toBytes (i : AdapterInfo) : ofBytes i.toBytes = i := by
  have h16 : i.toBytes.drop 16 = leBytes 4 i.qpNum.toNat ++ (leBytes 2 i.lid.toNat ++
      (i.linkLayer :: (leBytes 4 i.activeMtu.toNat ++ i.uniqueId.toList))) :=
    List.drop_left' (by simp)
  have h20 : i.toBytes.drop 20 = leBytes 2 i.lid.toNat ++
      (i.linkLayer :: (leBytes 4 i.activeMtu.toNat ++ i.uniqueId.toList)) := by
    rw [show 20 = 16 + 4 from rfl, ← List.drop_drop, h16, List.drop_left' (by simp)]
  have h22 : i.toBytes.drop 22 =
      i.linkLayer :: (leBytes 4 i.activeMtu.toNat ++ i.uniqueId.toList) := by
    rw [show 22 = 20 + 2 from rfl, ← List.drop_drop, h20, List.drop_left' (by simp)]
  have h23 : i.toBytes.drop 23 = leBytes 4 i.activeMtu.toNat ++ i.uniqueId.toList := by
    rw [show 23 = 22 + 1 from rfl, ← List.drop_drop, h22, List.drop_succ_cons, List.drop_zero]
  have h27 : i.toBytes.drop 27 = i.uniqueId.toList ++ [] := by
    rw [show 27 = 23 + 4 from rfl, ← List.drop_drop, h23, List.drop_left' (by simp),
      List.append_nil]
  have hlink : i.toBytes.getD 22 0 = i.linkLayer := by
    have hget : i.toBytes[22 + 0]? = (i.toBytes.drop 22)[0]? := List.getElem?_drop.symm
    rw [h22] at hget
    rw [List.getD_eq_getElem?_getD, hget]; rfl
  have hgid : Vector.ofFn (fun j : Fin 16 => i.toBytes.getD j 0) = i.gid := by
    have := ofFn_getD (k := 0) (b := i.toBytes) (v := i.gid) rfl
    simpa using this
  obtain ⟨gid, qpNum, lid, linkLayer, activeMtu, uniqueId⟩ := i
  simp only [ofBytes, h16, h20, h23, hlink, hgid, ofFn_getD h27, AdapterInfo.mk.injEq]
  refine ⟨trivial, ?_, ?_, trivial, ?_, trivial⟩
  · rw [List.take_left' (by simp), leNat_leBytes qpNum.toNat_lt]; simp
  · rw [List.take_left' (by simp), leNat_leBytes lid.toNat_lt]; simp
  · rw [List.take_left' (by simp), leNat_leBytes activeMtu.toNat_lt]; simp

end AdapterInfo

/-! ## Queue pairs -/

inductive QpState where
  | reset
  | init
  | rtr
  | rts
  deriving DecidableEq, Repr

/-- The attributes passed to `ibv_modify_qp` for the transition to RTR. -/
structure RtrAttr where
  pathMtu : IbvMtu
  destQpNum : UInt32
  dlid : UInt16
  portNum : UInt8
  isGlobal : Bool := false
  dgid : Option Gid := none
  sgidIndex : UInt8 := 0
  trafficClass : UInt8 := 0
  deriving DecidableEq

/-- A queue pair: its state, and the attributes it was configured with on the
    way to RTR. -/
structure QueuePair where
  state : QpState := .reset
  attr : Option RtrAttr := none
  deriving DecidableEq

/-- `enum class AdapterState` -/
inductive AdapterState where
  | unused
  | reset
  | resourceAllocated
  | connecting
  deriving DecidableEq, Repr

/-- Which calls of `ibv_modify_qp` succeed. -/
structure ModifyQp where
  init : Bool := true
  rtr : Bool := true
  rts : Bool := true

/-! ## The adapter -/

/-- The members of an `RDMAAdapter` that `loading` and `connecting` use. -/
structure Adapter where
  endpoint : EndPointId
  config : AdapterConfig
  self : AdapterInfo := {}
  remote : AdapterInfo := {}
  qp : QueuePair := {}
  /-- the attributes passed by `modify_qp_to_rtr` -/
  rtrAttr : Option RtrAttr := none
  status : AdapterState := .reset
  resourceIsAllocated : Bool := false
  deriving DecidableEq

namespace Adapter

/-- `std::string` as bytes. -/
def bytes (s : String) : List UInt8 := s.toList.flatMap String.utf8EncodeChar

/-- `memset` and `sprintf("%s")` into `unique_id`. -/
def uniqueIdOf (s : String) : Vector UInt8 128 :=
  Vector.ofFn fun i => ((bytes s).takeWhile (· ≠ 0)).getD i 0

/-- `RDMAAdapter::update_my_adapter_info`, with the number of the queue pair
    just created. -/
def updateMyAdapterInfo (hca : Hca) (qpNum : UInt32) (a : Adapter) : Except Fault Adapter := do
  let gid ← hca.queryGid a.config.ibPort.toUInt32.toUInt8 a.config.gidIndex.toUInt32.toUInt8
  let port ← hca.getPortAttr a.config.ibPort.toUInt32
  -- the smaller of the configured and the active MTU is used and advertised
  let mtu := if port.activeMtu.toNat < a.config.usedMtu.toNat then port.activeMtu
    else a.config.usedMtu
  check ((bytes a.endpoint.info).length < 128 - 20) .uniqueId
  pure { a with
    config := { a.config with usedMtu := mtu }
    self :=
      { gid, qpNum, lid := port.lid, linkLayer := port.linkLayer
        activeMtu := UInt32.ofNat mtu.toNat, uniqueId := uniqueIdOf a.endpoint.info } }

/-- What `update_my_adapter_info` does not change. -/
theorem updateMyAdapterInfo_frame {hca : Hca} {qpNum : UInt32} {a a' : Adapter}
    (h : a.updateMyAdapterInfo hca qpNum = .ok a') : a'.endpoint = a.endpoint ∧
      a'.config.usingSharedCq = a.config.usingSharedCq ∧ a'.config.cqKey = a.config.cqKey := by
  simp only [updateMyAdapterInfo, Except.bind_eq_ok, check_eq_ok, Except.pure_eq_ok] at h
  obtain ⟨gid, -, port, -, -, -, rfl⟩ := h
  exact ⟨rfl, rfl, rfl⟩

theorem updateMyAdapterInfo_loads {hca : Hca} {qpNum : UInt32} {a a' : Adapter}
    (h : a.updateMyAdapterInfo hca qpNum = .ok a') : a.config.Loads a'.config := by
  simp only [updateMyAdapterInfo, Except.bind_eq_ok, check_eq_ok, Except.pure_eq_ok] at h
  obtain ⟨gid, -, port, -, -, -, rfl⟩ := h
  exact ⟨_, _, rfl⟩

/-- The number of the queue pair is advertised; the queue pair stays as it is. -/
theorem updateMyAdapterInfo_qp {hca : Hca} {qpNum : UInt32} {a a' : Adapter}
    (h : a.updateMyAdapterInfo hca qpNum = .ok a') : a'.self.qpNum = qpNum ∧ a'.qp = a.qp := by
  simp only [updateMyAdapterInfo, Except.bind_eq_ok, Except.pure_eq_ok] at h
  obtain ⟨gid, -, port, -, -, -, rfl⟩ := h
  exact ⟨rfl, rfl⟩

/-- Whether the information can be set does not depend on the queue pair. -/
theorem updateMyAdapterInfo_ok_of {hca : Hca} {n : UInt32} {a a' : Adapter}
    (h : a.updateMyAdapterInfo hca n = .ok a') (m : UInt32) :
    ∃ a₁, a.updateMyAdapterInfo hca m = .ok a₁ := by
  simp only [updateMyAdapterInfo, Except.bind_eq_ok, Except.pure_eq_ok] at h ⊢
  obtain ⟨gid, hgid, port, hport, u, hu, -⟩ := h
  exact ⟨_, gid, hgid, port, hport, u, hu, rfl⟩

theorem updateMyAdapterInfo_ne_previousCq (hca : Hca) (qpNum : UInt32) (a : Adapter) :
    a.updateMyAdapterInfo hca qpNum ≠ .error (.check .previousCq) := by
  intro h
  simp only [updateMyAdapterInfo, Hca.queryGid, Hca.getPortAttr, Except.bind_eq_error,
    check_eq_error] at h
  rcases h with (⟨-, h⟩ | ⟨_, -, h⟩) | ⟨_, -, (⟨-, h⟩ | ⟨_, -, h⟩) | ⟨_, -, ⟨-, h⟩ | ⟨_, -, h⟩⟩⟩
  case inr.inl.inr => split at h <;> cases h
  all_goals cases h

/-- `RDMAAdapter::loading` as one step, without the resources taken from the
    device other than the number of the queue pair. -/
def loading (hca : Hca) (qpNum : UInt32) (a : Adapter) : Except Fault Adapter := do
  if a.resourceIsAllocated then pure a
  else
    if a.config.usingSharedCq then check (a.config.cqKey ≠ "") .cqKeyNotSet
    let config := { a.config with
      cqKey := if a.config.usingSharedCq then a.config.cqKey else a.endpoint.info }
    let a ← updateMyAdapterInfo hca qpNum { a with config := config }
    pure { a with status := .resourceAllocated, resourceIsAllocated := true }

/-- `RDMAAdapter::update_peer_adapter_info`; its `CHECK` assigns to the
    argument, so it tests the own link layer. -/
def updatePeerAdapterInfo (params : AdapterInfo) (a : Adapter) : Except Fault Adapter := do
  check (a.self.linkLayer ≠ 0) .linkLayerUnset
  pure { a with remote := params }

/-- `RDMAAdapter::modify_qp_to_init` -/
def modifyQpToInit (ok : Bool) (a : Adapter) : Adapter :=
  if ok then { a with qp := { a.qp with state := .init } } else a

/-- The attributes set up by `modify_qp_to_rtr`. -/
def rtrAttrOf (a : Adapter) : Except Fault RtrAttr := do
  let attr : RtrAttr :=
    { pathMtu := a.config.usedMtu, destQpNum := a.remote.qpNum, dlid := a.remote.lid
      portNum := a.config.ibPort.toUInt32.toUInt8 }
  if a.self.linkLayer = linkLayerEthernet then
    check (a.self.linkLayer = a.remote.linkLayer) .linkLayer
    check (0 ≤ a.config.gidIndex) .gidIndex
    pure { attr with
      isGlobal := true
      portNum := 1
      dgid := some a.remote.gid
      sgidIndex := a.config.gidIndex.toUInt32.toUInt8
      trafficClass := a.config.trafficClass.toUInt8 }
  else pure attr

/-- `RDMAAdapter::modify_qp_to_rtr` -/
def modifyQpToRtr (ok : Bool) (a : Adapter) : Except Fault Adapter := do
  let attr ← a.rtrAttrOf
  let a := { a with rtrAttr := some attr }
  pure (if ok then { a with qp := { state := .rtr, attr := some attr } } else a)

/-- `RDMAAdapter::modify_qp_to_rts` -/
def modifyQpToRts (ok : Bool) (a : Adapter) : Adapter :=
  if ok then { a with qp := { a.qp with state := .rts } } else a

/-- The start of `RDMAAdapter::connecting`: the checks of the peer's information. -/
def acceptPeer (peer : AdapterInfo) (a : Adapter) : Except Fault Adapter := do
  check (peer.uniqueId.get 0 ≠ 0) .remoteAdapter
  updatePeerAdapterInfo peer a

/-! ## What `loading` and `connecting` leave in the adapter -/

section
variable {hca : Hca} {qpNum : UInt32} {a a' : Adapter}

/-- The adapter advertises and uses the smaller of its configured MTU and the
    MTU of its port. -/
theorem loading_ok (hfresh : a.resourceIsAllocated = false) (h : a.loading hca qpNum = .ok a') :
    ∃ port, hca.getPortAttr a.config.ibPort.toUInt32 = .ok port ∧
      a'.config.usedMtu = a.config.usedMtu.min port.activeMtu ∧ a'.status = .resourceAllocated := by
  unfold loading at h
  rw [hfresh] at h
  simp only [Bool.false_eq_true, if_false, updateMyAdapterInfo] at h
  split_ifs at h <;>
    simp only [Except.bind_eq_ok, Except.pure_eq_ok] at h
  · obtain ⟨-, -, -, ⟨gid, -, port, hport, -, -, rfl⟩, rfl⟩ := h
    exact ⟨port, hport, rfl, rfl⟩
  · obtain ⟨-, ⟨gid, -, port, hport, -, -, rfl⟩, rfl⟩ := h
    exact ⟨port, hport, rfl, rfl⟩

theorem acceptPeer_ok {peer : AdapterInfo} (h : a.acceptPeer peer = .ok a') :
    a' = { a with remote := peer } := by
  simp only [acceptPeer, updatePeerAdapterInfo, Except.bind_eq_ok, check_eq_ok,
    Except.pure_eq_ok] at h
  obtain ⟨-, -, -, -, rfl⟩ := h
  rfl

/-- The transition to RTR uses the own MTU and the addresses of the peer. -/
theorem rtrAttrOf_ok {attr : RtrAttr} (h : a.rtrAttrOf = .ok attr) :
    attr.pathMtu = a.config.usedMtu ∧ attr.destQpNum = a.remote.qpNum ∧
      attr.dlid = a.remote.lid ∧
      (a.self.linkLayer = linkLayerEthernet → attr.dgid = some a.remote.gid) := by
  unfold rtrAttrOf at h
  dsimp only at h
  split_ifs at h with heth
  · simp only [Except.bind_eq_ok, Except.pure_eq_ok] at h
    obtain ⟨-, -, -, -, rfl⟩ := h
    exact ⟨rfl, rfl, rfl, fun _ => rfl⟩
  · obtain rfl := Except.pure_eq_ok.1 h
    exact ⟨rfl, rfl, rfl, fun he => absurd he heth⟩

theorem modifyQpToInit_eq (ok : Bool) (a : Adapter) : a.modifyQpToInit ok =
    { a with qp := if ok then { a.qp with state := .init } else a.qp } := by
  cases ok <;> rfl

theorem modifyQpToRts_eq (ok : Bool) (a : Adapter) : a.modifyQpToRts ok =
    { a with qp := if ok then { a.qp with state := .rts } else a.qp } := by
  cases ok <;> rfl

theorem modifyQpToRtr_ok {ok : Bool} (h : a.modifyQpToRtr ok = .ok a') :
    ∃ attr, a.rtrAttrOf = .ok attr ∧
      a' = { a with
        rtrAttr := some attr
        qp := if ok then { state := .rtr, attr := some attr } else a.qp } := by
  simp only [modifyQpToRtr, Except.bind_eq_ok, Except.pure_eq_ok] at h
  obtain ⟨attr, hattr, rfl⟩ := h
  refine ⟨attr, hattr, ?_⟩
  cases ok <;> rfl

end

end Adapter

end RdmaCore

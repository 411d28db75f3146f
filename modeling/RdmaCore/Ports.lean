/-
  The port of an adapter (`update_my_adapter_info`, `modify_qp_to_init` and
  `modify_qp_to_rtr` of src/rdma_adapter.cc).

  The port of the configuration is used four times: for the GID, for the
  attributes of the port, and in the attributes of the transitions to INIT and
  to RTR.  The Ethernet branch of `modify_qp_to_rtr` sets port 1 instead.

  * `updateMyAdapterInfo_port`: an `ib_port` that passes the `CHECK`s survives
    the conversions to `uint8_t` and `uint`;
  * `onePort_iff`: the four uses agree exactly if the port is not an Ethernet
    port, or is port 1.
-/
import RdmaCore.Transitions

namespace RdmaCore

/-- A device; `phys_port_cnt` is a `uint8_t`. -/
structure RDMADevice extends Hca where
  physPortCnt : ports.length < 2 ^ 8

/-- The attributes passed to `ibv_modify_qp` for the transition to INIT. -/
structure InitAttr where
  portNum : UInt8
  pkeyIndex : UInt16 := 0
  /-- local write, remote read and remote write -/
  qpAccessFlags : UInt32 := 7
  deriving DecidableEq

namespace Adapter

/-- The attributes set up by `modify_qp_to_init`. -/
def initAttrOf (a : Adapter) : InitAttr where
  portNum := a.config.ibPort.toUInt32.toUInt8

/-- What an adapter with the configuration `config` advertises after
    `update_my_adapter_info` (`a`) and sets up in `connecting` (`a'`) refers to
    the port of the configuration. -/
structure OnePort (dev : RDMADevice) (config : AdapterConfig) (a a' : Adapter) : Prop where
  gid : ∃ p : UInt8, (p.toNat : ℤ) = config.ibPort.toInt ∧
    a.self.gid = dev.gid p config.gidIndex.toUInt32.toUInt8
  attr : ∃ port, dev.ports[config.ibPort.toInt.toNat - 1]? = some port ∧
    a.self.linkLayer = port.linkLayer ∧ a.self.lid = port.lid ∧
    a.self.activeMtu = UInt32.ofNat (config.usedMtu.min port.activeMtu).toNat
  init : (a.initAttrOf.portNum.toNat : ℤ) = config.ibPort.toInt
  rtr : ∃ attr, a'.rtrAttr = some attr ∧ (attr.portNum.toNat : ℤ) = config.ibPort.toInt

/-! ## The conversions of the port -/

section
variable {dev : RDMADevice} {qpNum : UInt32} {a a₁ a₂ : Adapter} {m : ModifyQp} {peer : AdapterInfo}
  {b : Bool}

theorem toInt_of_lt {x : Int32} (h : x.toUInt32.toNat < 2 ^ 31) :
    x.toInt = x.toUInt32.toNat := by
  have hx : x.toInt = x.toBitVec.toInt := rfl
  have hn : x.toUInt32.toNat = x.toBitVec.toNat := rfl
  rw [hn] at h
  rw [hx, hn, BitVec.toInt_eq_toNat_cond, if_pos (by omega)]

/-- A port that passes the `CHECK` of `get_port_attr` is not changed by the
    conversions. -/
theorem toUInt8_of_le {x : Int32} (h : x.toUInt32.toNat ≤ dev.ports.length) :
    (x.toUInt32.toUInt8.toNat : ℤ) = x.toInt ∧ x.toInt.toNat = x.toUInt32.toNat := by
  have hlt := dev.physPortCnt
  have h8 : x.toUInt32.toUInt8.toNat = x.toUInt32.toNat := by
    rw [UInt32.toNat_toUInt8]
    exact Nat.mod_eq_of_lt (by omega)
  rw [h8, toInt_of_lt (by omega)]
  exact ⟨rfl, rfl⟩

/-- **What is advertised** refers to the port of the configuration. -/
theorem updateMyAdapterInfo_port (h : a.updateMyAdapterInfo dev.toHca qpNum = .ok a₁) :
    a.config.ibPort.toUInt32.toNat ≤ dev.ports.length ∧ a₁.config.ibPort = a.config.ibPort ∧
    a₁.self.gid = dev.gid a.config.ibPort.toUInt32.toUInt8 a.config.gidIndex.toUInt32.toUInt8 ∧
    ∃ port, dev.ports[a.config.ibPort.toUInt32.toNat - 1]? = some port ∧
      a₁.self.linkLayer = port.linkLayer ∧ a₁.self.lid = port.lid ∧
      a₁.self.activeMtu = UInt32.ofNat (a.config.usedMtu.min port.activeMtu).toNat := by
  simp only [updateMyAdapterInfo, Hca.queryGid, Hca.getPortAttr, Except.bind_eq_ok, check_eq_ok,
    Except.pure_eq_ok] at h
  obtain ⟨gid, ⟨-, -, rfl⟩, port, ⟨-, ⟨-, hle⟩, hport⟩, -, -, rfl⟩ := h
  split at hport
  · next port' hget =>
    obtain rfl := Except.pure_eq_ok.1 hport
    exact ⟨hle, rfl, rfl, port', hget, rfl, rfl, rfl⟩
  · cases hport

/-! ## The port of the transitions -/

/-- The port set by `modify_qp_to_rtr`. -/
theorem rtrAttrOf_portNum {attr : RtrAttr} (h : a.rtrAttrOf = .ok attr) :
    attr.portNum =
      if a.self.linkLayer = linkLayerEthernet then 1 else a.config.ibPort.toUInt32.toUInt8 := by
  unfold rtrAttrOf at h
  dsimp only at h
  split_ifs at h ⊢ with heth
  · simp only [Except.bind_eq_ok, Except.pure_eq_ok] at h
    obtain ⟨-, -, -, -, rfl⟩ := h
    rfl
  · obtain rfl := Except.pure_eq_ok.1 h
    rfl

theorem connecting_portNum (h : a.connecting m peer = .ok (a₂, b)) :
    ∃ attr, a₂.rtrAttr = some attr ∧ attr.portNum =
      if a.self.linkLayer = linkLayerEthernet then 1 else a.config.ibPort.toUInt32.toUInt8 := by
  simp only [connecting, Except.bind_eq_ok, Except.pure_eq_ok, Prod.mk.injEq] at h
  obtain ⟨a₁, h₁, a₃, h₃, rfl, -⟩ := h
  obtain rfl := acceptPeer_ok h₁
  obtain ⟨attr, hattr, rfl⟩ := modifyQpToRtr_ok h₃
  refine ⟨attr, by simp only [modifyQpToRts_eq], ?_⟩
  rw [rtrAttrOf_portNum hattr]
  simp only [modifyQpToInit_eq]

/-- **One port throughout** exactly if the port is not an Ethernet port, or is
    port 1. -/
theorem onePort_iff (hinfo : a.updateMyAdapterInfo dev.toHca qpNum = .ok a₁)
    (hconn : a₁.connecting m peer = .ok (a₂, b)) : OnePort dev a.config a₁ a₂ ↔
      (∀ port, dev.ports[a.config.ibPort.toInt.toNat - 1]? = some port →
        port.linkLayer ≠ linkLayerEthernet) ∨ a.config.ibPort = 1 := by
  obtain ⟨hle, hport, hgid, port, hget, hlink, hlid, hmtu⟩ := updateMyAdapterInfo_port hinfo
  obtain ⟨h8, hnat⟩ := toUInt8_of_le hle
  obtain ⟨attr, hattr, hnum⟩ := connecting_portNum hconn
  rw [← hnat] at hget
  rw [hlink, hport] at hnum
  simp only [hget, Option.some.injEq, forall_eq']
  constructor
  · rintro ⟨-, -, -, attr', hattr', hrtr⟩
    obtain rfl := Option.some.inj (hattr.symm.trans hattr')
    by_cases heth : port.linkLayer = linkLayerEthernet
    · rw [hnum, if_pos heth] at hrtr
      exact Or.inr (Int32.toInt_inj.1 hrtr.symm)
    · exact Or.inl heth
  · intro h
    refine ⟨⟨_, h8, hgid⟩, ⟨port, hget, hlink, hlid, hmtu⟩, ?_, attr, hattr, ?_⟩
    · rw [initAttrOf, hport]
      exact h8
    · rw [hnum]
      split_ifs with heth
      · rw [h.resolve_left (not_not.2 heth)]
        rfl
      · exact h8

/-- A device with two ports of one link layer. -/
def twoPorts (linkLayer : UInt8) : RDMADevice where
  ports := List.replicate 2 ⟨linkLayer, .mtu4096, 7⟩
  gid := fun port _ => Vector.replicate 16 port
  physPortCnt := by rw [List.length_replicate]; decide

/-- An adapter that uses the second port. -/
def secondPort : Adapter where
  endpoint := ⟨⟨⟨10, 0, 0, 1⟩, 2020, ⟨10, 0, 0, 2⟩, 40000⟩, "server", "0"⟩
  config := { ibPort := 2 }

/-- The information of a peer on a port of the given link layer. -/
def peerOn (linkLayer : UInt8) : AdapterInfo :=
  { linkLayer, uniqueId := Vector.replicate 128 66 }

theorem secondPort_connects (linkLayer : UInt8) (h : linkLayer ≠ 0) : ∃ a₁ a₂,
    secondPort.updateMyAdapterInfo (twoPorts linkLayer).toHca 17 = .ok a₁ ∧
      a₁.connecting {} (peerOn linkLayer) = .ok (a₂, true) := by
  obtain ⟨a₁, h₁⟩ : ∃ a₁, secondPort.updateMyAdapterInfo (twoPorts linkLayer).toHca 17 = .ok a₁ :=
    ⟨_, rfl⟩
  obtain ⟨-, -, -, port, hget, hlink, -⟩ := updateMyAdapterInfo_port h₁
  obtain rfl : _ = port := Option.some.inj hget
  have hgid : a₁.config.gidIndex = 3 := by
    obtain ⟨cqKey, usedMtu, hc⟩ := updateMyAdapterInfo_loads h₁
    rw [hc]
    rfl
  have hacc : a₁.Accepts (peerOn linkLayer) := by
    have hid : (Vector.replicate 128 (66 : UInt8)).get ⟨0, zero_lt_uniqueId⟩ ≠ 0 := by decide
    refine ⟨hid, by rw [hlink]; exact h, fun _ => ⟨hlink, ?_⟩⟩
    rw [hgid]
    decide
  obtain ⟨a₂, h₂⟩ := exists_connecting {} hacc
  exact ⟨a₁, a₂, h₁, h₂⟩

/-- The second port of an InfiniBand device is used throughout. -/
theorem onePort_infiniBand : ∃ a₁ a₂,
    secondPort.updateMyAdapterInfo (twoPorts 1).toHca 17 = .ok a₁ ∧
      a₁.connecting {} (peerOn 1) = .ok (a₂, true) ∧
      OnePort (twoPorts 1) secondPort.config a₁ a₂ := by
  obtain ⟨a₁, a₂, h₁, h₂⟩ := secondPort_connects 1 (by decide)
  refine ⟨a₁, a₂, h₁, h₂, (onePort_iff h₁ h₂).2 (Or.inl fun port hport => ?_)⟩
  obtain rfl : _ = port := Option.some.inj hport
  decide

/-- The second port of an Ethernet device is advertised, and the transition to
    RTR sets the first. -/
theorem not_onePort_ethernet : ∃ a₁ a₂ attr,
    secondPort.updateMyAdapterInfo (twoPorts linkLayerEthernet).toHca 17 = .ok a₁ ∧
      a₁.connecting {} (peerOn linkLayerEthernet) = .ok (a₂, true) ∧
      a₁.initAttrOf.portNum = 2 ∧ a₂.rtrAttr = some attr ∧ attr.portNum = 1 ∧
      ¬ OnePort (twoPorts linkLayerEthernet) secondPort.config a₁ a₂ := by
  obtain ⟨a₁, a₂, h₁, h₂⟩ := secondPort_connects linkLayerEthernet (by decide)
  obtain ⟨-, hport, -, port, hget, hlink, -⟩ := updateMyAdapterInfo_port h₁
  obtain rfl : _ = port := Option.some.inj hget
  obtain ⟨attr, hattr, hnum⟩ := connecting_portNum h₂
  rw [if_pos hlink] at hnum
  refine ⟨a₁, a₂, attr, h₁, h₂, ?_, hattr, hnum, ?_⟩
  · rw [initAttrOf, hport]
    decide
  · rintro ⟨-, -, -, attr', hattr', hrtr⟩
    obtain rfl := Option.some.inj (hattr.symm.trans hattr')
    rw [hnum] at hrtr
    exact absurd hrtr (by decide)

end

end Adapter

end RdmaCore

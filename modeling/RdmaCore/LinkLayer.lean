/-
  Agreement on the link layer (`update_peer_adapter_info`, `modify_qp_to_rtr`
  and `connecting` of src/rdma_adapter.cc).

  `CHECK(params.link_layer = self_.link_layer)` assigns to the structure of the
  caller instead of comparing, and `modify_qp_to_rtr` compares under Ethernet
  only.  `connectingWith` is `connecting` with the structure of the caller
  after it.

  * `linkLayerAgreement_iff`: the structure is left alone, and only a peer of
    the own link layer is accepted, exactly if the layers agreed before;
  * `connectingWith_ok_iff`: which peers are accepted.
-/
import RdmaCore.Transitions

namespace RdmaCore

namespace Adapter

/-- `RDMAAdapter::update_peer_adapter_info`, with the structure of the caller
    after it. -/
def updatePeer (params : AdapterInfo) (a : Adapter) : AdapterInfo × Except Fault Adapter :=
  let a := { a with remote := params }
  -- `CHECK(params.link_layer = self_.link_layer)`
  let params := { params with linkLayer := a.self.linkLayer }
  (params, do
    check (params.linkLayer ≠ 0) .linkLayerUnset
    pure a)

/-- `RDMAAdapter::connecting`, with the structure of the caller after it. -/
def connectingWith (m : ModifyQp) (peer : AdapterInfo) (a : Adapter) :
    AdapterInfo × Except Fault (Adapter × Bool) :=
  if peer.uniqueId.get ⟨0, zero_lt_uniqueId⟩ ≠ 0 then
    let (peer, updated) := a.updatePeer peer
    (peer, do
      let a ← updated
      let a := a.modifyQpToInit m.init
      let a ← a.modifyQpToRtr m.rtr
      let a := a.modifyQpToRts m.rts
      pure ({ a with status := .connecting }, true))
  else (peer, .error (.check .remoteAdapter))

/-- `connecting(peer)` gets past its `CHECK`s only with a peer of the own link
    layer, and leaves the structure of the caller unchanged. -/
structure LinkLayerAgreement (m : ModifyQp) (peer : AdapterInfo) (a : Adapter) : Prop where
  agrees : ∀ r, (a.connectingWith m peer).2 = .ok r → peer.linkLayer = a.self.linkLayer
  unchanged : (a.connectingWith m peer).1 = peer

/-! ## The structure of the caller -/

variable {m : ModifyQp} {peer : AdapterInfo} {a : Adapter}

theorem connectingWith_snd (m : ModifyQp) (peer : AdapterInfo) (a : Adapter) :
    (a.connectingWith m peer).2 = a.connecting m peer := by
  have hget : peer.uniqueId.get ⟨0, zero_lt_uniqueId⟩ = peer.uniqueId.get 0 := rfl
  unfold connectingWith connecting acceptPeer
  rw [hget]
  by_cases hid : peer.uniqueId.get 0 ≠ 0
  · rw [if_pos hid, check, if_pos hid]
    rfl
  · rw [if_neg hid, check, if_neg hid]
    rfl

theorem connectingWith_fst (m : ModifyQp) (peer : AdapterInfo) (a : Adapter) :
    (a.connectingWith m peer).1 =
      if peer.uniqueId.get ⟨0, zero_lt_uniqueId⟩ ≠ 0 then
        { peer with linkLayer := a.self.linkLayer }
      else peer := by
  unfold connectingWith
  split_ifs <;> rfl

theorem unchanged_iff : (a.connectingWith m peer).1 = peer ↔
    peer.uniqueId.get ⟨0, zero_lt_uniqueId⟩ = 0 ∨ peer.linkLayer = a.self.linkLayer := by
  rw [connectingWith_fst]
  split_ifs with hid
  · constructor
    · intro h
      exact Or.inr (congrArg AdapterInfo.linkLayer h).symm
    · rintro (h | h)
      · exact absurd h hid
      · rw [← h]
  · exact ⟨fun _ => Or.inl (not_not.1 hid), fun _ => rfl⟩

/-- `connecting` gets past its `CHECK`s with the peers that `Accepts` lists: not
    under Ethernet, of any link layer. -/
theorem connectingWith_ok_iff : (∃ r, (a.connectingWith m peer).2 = .ok r) ↔ a.Accepts peer := by
  rw [connectingWith_snd]
  constructor
  · rintro ⟨⟨a', b⟩, h⟩
    exact (connecting_ok h).1
  · intro h
    obtain ⟨a', h'⟩ := exists_connecting m h
    exact ⟨_, h'⟩

/-- **Link-layer agreement** holds of a call exactly if the `CHECK` that assigns
    is not reached, or has nothing to change. -/
theorem linkLayerAgreement_iff : LinkLayerAgreement m peer a ↔
    peer.uniqueId.get ⟨0, zero_lt_uniqueId⟩ = 0 ∨ peer.linkLayer = a.self.linkLayer := by
  constructor
  · rintro ⟨-, hunchanged⟩
    exact unchanged_iff.1 hunchanged
  · intro h
    refine ⟨fun r hr => ?_, unchanged_iff.2 h⟩
    rcases h with h | h
    · exact absurd h (connectingWith_ok_iff.1 ⟨r, hr⟩).1
    · exact h

/-- What a call that returns leaves of the peer it was given. -/
theorem returned_agrees_iff : (∀ r, (a.connectingWith m peer).2 = .ok r →
      peer.linkLayer = a.self.linkLayer ∧ (a.connectingWith m peer).1 = peer) ↔
    (a.Accepts peer → peer.linkLayer = a.self.linkLayer) := by
  rw [← connectingWith_ok_iff]
  constructor
  · rintro h ⟨r, hr⟩
    exact (h r hr).1
  · intro h r hr
    exact ⟨h ⟨r, hr⟩, unchanged_iff.2 (Or.inr (h ⟨r, hr⟩))⟩

/-- An adapter on an InfiniBand port. -/
def infiniBand : Adapter where
  endpoint := ⟨⟨⟨10, 0, 0, 1⟩, 2020, ⟨10, 0, 0, 2⟩, 40000⟩, "server", "0"⟩
  config := {}
  self := { linkLayer := 1, uniqueId := Vector.replicate 128 65 }

/-- The information of a peer on an Ethernet port. -/
def ethernetPeer : AdapterInfo :=
  { linkLayer := linkLayerEthernet, uniqueId := Vector.replicate 128 66 }

/-- An InfiniBand adapter connects to an Ethernet peer, and sets the link layer
    in the structure of the caller. -/
theorem infiniBand_connects_ethernet : ∃ a',
    infiniBand.connecting {} ethernetPeer = .ok (a', true) ∧
    (infiniBand.connectingWith {} ethernetPeer).1.linkLayer = 1 ∧
    ¬ LinkLayerAgreement {} ethernetPeer infiniBand := by
  have hacc : infiniBand.Accepts ethernetPeer := by decide
  obtain ⟨a', h⟩ := exists_connecting {} hacc
  refine ⟨a', h, by decide, ?_⟩
  rintro ⟨-, hunchanged⟩
  exact absurd (unchanged_iff.1 hunchanged) (by decide)

end Adapter

end RdmaCore

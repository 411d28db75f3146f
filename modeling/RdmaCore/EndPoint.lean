/-
  RDMAEndPoint (src/rdma_endpoint.cc): the connection of two endpoints over
  one TCP connection, up to the first message of the default session
  (`RDMASession::default_established_fn`).

  Each side runs the constructor, `connecting` and the established callback as
  one program (`endPointCode`) over the byte streams of the connection; the
  three exchanges of a `Q` and the exchange of the adapters' information share
  these streams.
-/
import RdmaCore.Adapter
import RdmaCore.Lib.Duplex

namespace RdmaCore

open Duplex

/-- One end of a connection: its configuration, and what its device answers. -/
structure EndPointSetup where
  endpoint : EndPointId
  config : AdapterConfig
  hca : Hca
  qpNum : UInt32
  modifyQp : ModifyQp := {}

/-- The local state of an endpoint: its adapter, the information received, and
    the number of receives and sends posted. -/
structure EndPointState where
  adapter : Adapter
  peerInfo : AdapterInfo := {}
  recvs : ℕ := 0
  sends : ℕ := 0

namespace EndPointState

/-- The endpoint before its constructor runs. -/
def init (S : EndPointSetup) : EndPointState where
  adapter := { endpoint := S.endpoint, config := S.config }

/-- A step of the adapter that may fail. -/
def onAdapter (f : Adapter → Except Fault Adapter) (l : EndPointState) : Option EndPointState :=
  (f l.adapter).toOption.map fun a => { l with adapter := a }

end EndPointState

/-! ## The program of an endpoint -/

section
open EndPointState

/-- `sock_sync_data(1, "Q", &temp_char)` -/
def syncWithPeer : List (Instr EndPointState) :=
  [.send 1 (fun _ => [81]) (fun _ => rfl), .recv 1 fun l _ => l]

/-- `RDMAAdapter::connecting`, one instruction per change of the queue pair. -/
def adapterConnecting (m : ModifyQp) : List (Instr EndPointState) :=
  [.exec fun l => l.onAdapter (·.acceptPeer l.peerInfo),
    .exec fun l => l.onAdapter fun a => .ok (a.modifyQpToInit m.init),
    .exec fun l => l.onAdapter (·.modifyQpToRtr m.rtr),
    .exec fun l => l.onAdapter fun a => .ok { a.modifyQpToRts m.rts with status := .connecting }]

/-- `RDMAEndPoint::connecting` -/
def connecting (S : EndPointSetup) : List (Instr EndPointState) :=
  [.exec (onAdapter (Adapter.loading S.hca S.qpNum)),
    .send AdapterInfo.size (fun l => l.adapter.self.toBytes) (fun _ => AdapterInfo.length_toBytes _),
    .recv AdapterInfo.size fun l m => { l with peerInfo := AdapterInfo.ofBytes m }] ++
  adapterConnecting S.modifyQp ++ syncWithPeer

/-- `RDMASession::default_established_fn`, as far as it posts and synchronises. -/
def establishedFn : List (Instr EndPointState) :=
  [.exec fun l => some { l with recvs := l.recvs + 1 },
    .exec fun l => some { l with recvs := l.recvs + 1 }] ++
  syncWithPeer ++
  [.exec fun l => some { l with sends := l.sends + 1 }]

/-- The constructor of `RDMAEndPoint`, `connecting` and the established callback. -/
def endPointCode (S : EndPointSetup) : List (Instr EndPointState) :=
  syncWithPeer ++ connecting S ++ establishedFn

end

/-- Two endpoints of one connection. -/
def endPoints (S : Bool → EndPointSetup) : State EndPointState :=
  Duplex.init (fun x => endPointCode (S x)) (fun x => EndPointState.init (S x))

/-! ## One endpoint -/

/-- The program up to the transition to RTS. -/
def connectCode (S : EndPointSetup) : List (Instr EndPointState) :=
  syncWithPeer ++
  [.exec (EndPointState.onAdapter (Adapter.loading S.hca S.qpNum)),
    .send AdapterInfo.size (fun l => l.adapter.self.toBytes) (fun _ => AdapterInfo.length_toBytes _),
    .recv AdapterInfo.size fun l m => { l with peerInfo := AdapterInfo.ofBytes m }] ++
  adapterConnecting S.modifyQp

/-- From there to the `Q` that follows the two receives. -/
def readyCode : List (Instr EndPointState) :=
  syncWithPeer ++
  [.exec fun l => some { l with recvs := l.recvs + 1 },
    .exec fun l => some { l with recvs := l.recvs + 1 },
    .send 1 (fun _ => [81]) (fun _ => rfl)]

/-- The end of the program, where the first message is posted. -/
def startCode : List (Instr EndPointState) :=
  [.recv 1 fun l _ => l, .exec fun l => some { l with sends := l.sends + 1 }]

/-- The program in its three parts. -/
theorem endPointCode_eq (S : EndPointSetup) :
    endPointCode S = connectCode S ++ (readyCode ++ startCode) := rfl

/-- What `connecting` leaves in an endpoint that got the bytes `m` from its peer. -/
structure Connected (S : EndPointSetup) (m : List UInt8) (attr : RtrAttr) (a : Adapter) : Prop where
  rtrAttr : a.rtrAttr = some attr
  pathMtu : ∃ port, S.hca.getPortAttr S.config.ibPort.toUInt32 = .ok port ∧
    attr.pathMtu = S.config.usedMtu.min port.activeMtu
  destQpNum : attr.destQpNum = (AdapterInfo.ofBytes m).qpNum
  dlid : attr.dlid = (AdapterInfo.ofBytes m).lid
  dgid : a.self.linkLayer = linkLayerEthernet → attr.dgid = some (AdapterInfo.ofBytes m).gid
  status : a.status = .connecting
  qp : S.modifyQp = {} → a.qp = { state := .rts, attr := some attr }

theorem onAdapter_some {f : Adapter → Except Fault Adapter} {l l' : EndPointState}
    (h : l.onAdapter f = some l') : ∃ a, f l.adapter = .ok a ∧ l' = { l with adapter := a } := by
  unfold EndPointState.onAdapter at h
  cases hf : f l.adapter with
  | error e => rw [hf] at h; cases h
  | ok a => rw [hf] at h; exact ⟨a, rfl, (Option.some.inj h).symm⟩

/-- **The first part of the program**: the endpoint has sent its own
    information, and its queue pair is configured with that of the peer. -/
theorem replay_connectCode {S : EndPointSetup} {l : EndPointState} {r s : List (List UInt8)}
    (h : replay (connectCode S) (EndPointState.init S) r = some (l, s)) :
    ∃ q m attr, r = [q, m] ∧ s = [[81], l.adapter.self.toBytes] ∧ Connected S m attr l.adapter ∧
      l.recvs = 0 := by
  have hsizes := (replay_sizes h).2
  obtain ⟨q, m, rfl⟩ := List.length_eq_two.1 (show r.length = 2 by
    simpa [recvSizes, connectCode, syncWithPeer, adapterConnecting]
      using congrArg List.length hsizes)
  obtain ⟨hq, hm⟩ : q.length = 1 ∧ m.length = AdapterInfo.size := by
    simpa [recvSizes, connectCode, syncWithPeer, adapterConnecting] using hsizes
  simp only [connectCode, syncWithPeer, adapterConnecting, List.cons_append, List.nil_append,
    replay, hq, hm, if_true, Option.map_eq_some_iff, Option.bind_eq_some_iff,
    Prod.mk.injEq] at h
  obtain ⟨⟨l₁, s₁⟩, h, rfl, rfl⟩ := h
  obtain ⟨l₂, hload, ⟨l₃, s₃⟩, ⟨l₄, hacc, l₅, hinit, l₆, hrtr, l₇, hrts, h⟩, h₃⟩ := h
  obtain ⟨a₂, ha₂, rfl⟩ := onAdapter_some hload
  obtain ⟨a₄, ha₄, rfl⟩ := onAdapter_some hacc
  obtain ⟨a₅, ha₅, rfl⟩ := onAdapter_some hinit
  obtain ⟨a₆, ha₆, rfl⟩ := onAdapter_some hrtr
  obtain ⟨a₇, ha₇, rfl⟩ := onAdapter_some hrts
  obtain ⟨rfl, rfl⟩ := Prod.mk.inj (Option.some.inj h)
  obtain ⟨rfl, rfl⟩ := h₃
  obtain ⟨port, hport, hmtu, -⟩ := Adapter.loading_ok rfl ha₂
  obtain rfl := Adapter.acceptPeer_ok ha₄
  obtain rfl := Except.ok.inj ha₅
  obtain ⟨attr, hattr, rfl⟩ := Adapter.modifyQpToRtr_ok ha₆
  obtain rfl := Except.ok.inj ha₇
  obtain ⟨hpath, hdest, hdlid, hdgid⟩ := Adapter.rtrAttrOf_ok hattr
  simp only [Adapter.modifyQpToInit_eq] at hpath hdest hdlid hdgid
  refine ⟨q, m, attr, rfl, ?_, ?_, rfl⟩
  · simp only [Adapter.modifyQpToInit_eq, Adapter.modifyQpToRts_eq]
  · refine ⟨by simp only [Adapter.modifyQpToRts_eq], ⟨port, hport, hpath.trans hmtu⟩, hdest, hdlid,
      ?_, rfl, ?_⟩
    · simpa only [Adapter.modifyQpToInit_eq, Adapter.modifyQpToRts_eq] using hdgid
    · intro hm
      simp [Adapter.modifyQpToRts_eq, hm]

/-- The rest of the program leaves the adapter alone. -/
theorem replay_readyCode {l l' : EndPointState} {r s : List (List UInt8)}
    (h : replay readyCode l r = some (l', s)) :
    l'.adapter = l.adapter ∧ l'.recvs = l.recvs + 2 := by
  cases r with
  | nil => simp [readyCode, syncWithPeer, replay] at h
  | cons q r =>
    cases r with
    | nil =>
      simp only [readyCode, syncWithPeer, List.cons_append, List.nil_append, replay,
        Option.map_eq_some_iff] at h
      obtain ⟨⟨l₁, s₁⟩, h, h₁⟩ := h
      split_ifs at h
      obtain ⟨rfl, -⟩ := Prod.mk.inj (Option.some.inj h)
      obtain ⟨rfl, -⟩ := Prod.mk.inj h₁
      exact ⟨rfl, rfl⟩
    | cons q' r => simp [readyCode, syncWithPeer, replay] at h

theorem keeps_onAdapter {P : EndPointState → Prop}
    {f : EndPointState → Adapter → Except Fault Adapter}
    (h : ∀ l a, f l l.adapter = .ok a → P l → P { l with adapter := a }) :
    Instr.Keeps P (.exec fun l => l.onAdapter (f l)) := by
  intro l l' hl hP
  obtain ⟨a, ha, rfl⟩ := onAdapter_some hl
  exact h l a ha hP

/-- After `connecting`, nothing changes the adapter. -/
theorem keeps_adapter (a : Adapter) : ∀ i ∈ readyCode ++ startCode,
    i.Keeps fun l => l.adapter = a := by
  simp only [readyCode, startCode, syncWithPeer, List.cons_append, List.nil_append,
    List.forall_mem_cons]
  refine ⟨trivial, fun _ _ h => h, ?_, ?_, trivial, fun _ _ h => h, ?_, List.forall_mem_nil _⟩ <;>
    (rintro l l' hl h; obtain rfl := Option.some.inj hl; exact h)

/-- The number of receives does not change after the second one. -/
theorem keeps_recvs (n : ℕ) : ∀ i ∈ startCode, i.Keeps fun l => l.recvs = n := by
  simp only [startCode, List.forall_mem_cons]
  refine ⟨fun _ _ h => h, ?_, List.forall_mem_nil _⟩
  rintro l l' hl h
  obtain rfl := Option.some.inj hl
  exact h

/-- Nothing is sent before the last instruction. -/
theorem keeps_sends (S : EndPointSetup) :
    ∀ i ∈ connectCode S ++ (readyCode ++ [.recv 1 fun l _ => l]), i.Keeps fun l => l.sends = 0 := by
  simp only [connectCode, adapterConnecting, readyCode, syncWithPeer, List.cons_append,
    List.nil_append, List.forall_mem_cons]
  refine ⟨trivial, fun _ _ h => h, ?_, trivial, fun _ _ h => h, ?_, ?_, ?_, ?_, trivial,
    fun _ _ h => h, ?_, ?_, trivial, fun _ _ h => h, List.forall_mem_nil _⟩
  · exact keeps_onAdapter fun _ _ _ h => h
  · exact keeps_onAdapter fun _ _ _ h => h
  · exact keeps_onAdapter fun _ _ _ h => h
  · exact keeps_onAdapter fun _ _ _ h => h
  · exact keeps_onAdapter fun _ _ _ h => h
  · rintro l l' hl h; obtain rfl := Option.some.inj hl; exact h
  · rintro l l' hl h; obtain rfl := Option.some.inj hl; exact h

/-- An adapter is connecting only after its last transition. -/
theorem keeps_status (S : EndPointSetup) : ∀ i ∈ (connectCode S).dropLast,
    i.Keeps fun l => l.adapter.status ≠ .connecting := by
  simp only [connectCode, adapterConnecting, syncWithPeer, List.cons_append, List.nil_append,
    List.dropLast_cons_cons, List.dropLast_singleton, List.forall_mem_cons]
  refine ⟨trivial, fun _ _ h => h, ?_, trivial, fun _ _ h => h, ?_, ?_, ?_, List.forall_mem_nil _⟩
  · refine keeps_onAdapter fun l a ha h => ?_
    cases hal : l.adapter.resourceIsAllocated with
    | true =>
      rw [Adapter.loading, hal] at ha
      exact Except.ok.inj ha ▸ h
    | false =>
      obtain ⟨-, -, -, hstatus⟩ := Adapter.loading_ok hal ha
      rw [hstatus]; decide
  · refine keeps_onAdapter fun l a ha h => ?_
    rw [Adapter.acceptPeer_ok ha]; exact h
  · refine keeps_onAdapter fun l a ha h => ?_
    rw [← Except.ok.inj ha, Adapter.modifyQpToInit_eq]; exact h
  · refine keeps_onAdapter fun l a ha h => ?_
    obtain ⟨attr, -, rfl⟩ := Adapter.modifyQpToRtr_ok ha
    exact h

/-- An endpoint that has come at least as far as RTS. -/
theorem connected_of_replay {S : EndPointSetup} {e d : List (Instr EndPointState)}
    {l : EndPointState} {r s : List (List UInt8)} (he : readyCode ++ startCode = e ++ d)
    (h : replay (connectCode S ++ e) (EndPointState.init S) r = some (l, s)) :
    ∃ q m attr r' s', r = q :: m :: r' ∧ s = [81] :: l.adapter.self.toBytes :: s' ∧
      Connected S m attr l.adapter := by
  obtain ⟨l₁, r₁, r₂, s₁, s₂, h₁, h₂, rfl, rfl⟩ := replay_append_ok h
  obtain ⟨q, m, attr, rfl, rfl, hcon, -⟩ := replay_connectCode h₁
  have hkeep : l.adapter = l₁.adapter := replay_keeps (P := fun l => l.adapter = l₁.adapter)
    (fun i hi => keeps_adapter _ i (by rw [he]; exact List.mem_append_left _ hi)) rfl h₂
  exact ⟨q, m, attr, r₂, s₂, rfl, by rw [hkeep]; rfl, by rw [hkeep]; exact hcon⟩

/-! ## Two endpoints -/

section
variable {S : Bool → EndPointSetup} {s : State EndPointState}

theorem endPoints_framing (h : Lts.Reachable Duplex.step (endPoints S) s) (x : Bool) :
    (s.party (!x)).rcvd <+: (s.party x).sent := by
  refine rcvd_prefix_sent (fun _ => rfl) (fun x n hn => ?_) h x
  replace hn : n ∈ [1, AdapterInfo.size, 1, 1] := hn
  simp only [AdapterInfo.size, List.mem_cons, List.not_mem_nil, or_false] at hn
  omega

/-- The queue pair of `a` is addressed to the adapter of the peer. -/
def AddressedTo (a peer : Adapter) : Prop :=
  ∃ attr, a.qp.attr = some attr ∧ attr.destQpNum = peer.self.qpNum ∧
    attr.dlid = peer.self.lid ∧
    (a.self.linkLayer = linkLayerEthernet → attr.dgid = some peer.self.gid)

/-- The information a side has got is that of the other side. -/
theorem ofBytes_eq_self {x : Bool} (h : Lts.Reachable Duplex.step (endPoints S) s)
    {q m : List UInt8} {r' s' : List (List UInt8)} (hr : (s.party x).rcvd = q :: m :: r')
    (hs : (s.party (!x)).sent = [81] :: (s.party (!x)).loc.adapter.self.toBytes :: s') :
    AdapterInfo.ofBytes m = (s.party (!x)).loc.adapter.self := by
  have hpre := endPoints_framing h (!x)
  rw [Bool.not_not, hr, hs, List.cons_prefix_cons, List.cons_prefix_cons] at hpre
  rw [hpre.2.1, AdapterInfo.ofBytes_toBytes]

/-- A side that has posted its first message has executed its whole program. -/
theorem replay_of_sends {x : Bool} (h : Lts.Reachable Duplex.step (endPoints S) s)
    (hx : 0 < (s.party x).loc.sends) :
    replay (connectCode (S x) ++ (readyCode ++ startCode)) (EndPointState.init (S x))
      (s.party x).rcvd = some ((s.party x).loc, (s.party x).sent) := by
  obtain ⟨e, he, hrep⟩ := (inv_reachable h).replayed_of_not (x := x)
    (c := connectCode (S x) ++ (readyCode ++ [.recv 1 fun l _ => l])) (d := [])
    (P := fun l => l.sends = 0) rfl rfl (keeps_sends (S x)) (Nat.pos_iff_ne_zero.1 hx)
  obtain ⟨rfl, -⟩ := List.append_eq_nil_iff.1 he.symm
  exact hrep

/-- A side whose peer has got four messages has posted its two receives. -/
theorem replay_of_four {x : Bool} (h : Lts.Reachable Duplex.step (endPoints S) s)
    (hlen : 4 ≤ (s.party (!x)).rcvd.length) : ∃ e, startCode = e ++ (s.party x).code ∧
      replay (connectCode (S x) ++ (readyCode ++ e)) (EndPointState.init (S x))
        (s.party x).rcvd = some ((s.party x).loc, (s.party x).sent) := by
  have hsent : 4 ≤ (s.party x).sent.length := hlen.trans (endPoints_framing h x).length_le
  exact (inv_reachable h).replayed_of_sent (x := x)
    (c := connectCode (S x) ++ (readyCode.dropLast)) (d := startCode) rfl hsent

/-- **Connection barrier and address agreement**: when one side has posted its
    first message, the queue pair of its peer is in RTS and the peer has posted
    both receives, and each queue pair is addressed to the other. -/
theorem connection_barrier (hok : ∀ x, (S x).modifyQp = {})
    (h : Lts.Reachable Duplex.step (endPoints S) s) {x : Bool}
    (hx : 0 < (s.party x).loc.sends) :
    (s.party (!x)).loc.adapter.qp.state = .rts ∧ (s.party (!x)).loc.recvs = 2 ∧
      ∀ y, AddressedTo (s.party y).loc.adapter (s.party (!y)).loc.adapter := by
  have hrep := replay_of_sends h hx
  have hlen : 4 ≤ (s.party (!!x)).rcvd.length := by
    have := congrArg List.length (replay_sizes hrep).2
    rw [List.length_map] at this
    rw [Bool.not_not, this]
    exact Nat.le_refl 4
  obtain ⟨e, he, hrep'⟩ := replay_of_four (x := !x) h hlen
  obtain ⟨q, m, attr, r', s', hr, hs, hcon⟩ := connected_of_replay (d := []) (by simp) hrep
  obtain ⟨q', m', attr', r'', s'', hr', hs', hcon'⟩ := connected_of_replay
    (e := readyCode ++ e) (d := (s.party (!x)).code) (by rw [he, List.append_assoc]) hrep'
  have hrecvs : (s.party (!x)).loc.recvs = 2 := by
    obtain ⟨l₁, _, _, _, _, h₁, h₂, -, -⟩ := replay_append_ok hrep'
    obtain ⟨l₂, _, _, _, _, h₃, h₄, -, -⟩ := replay_append_ok h₂
    obtain ⟨_, _, _, -, -, -, hzero⟩ := replay_connectCode h₁
    refine replay_keeps (P := fun l => l.recvs = 2) (fun i hi => keeps_recvs 2 i ?_) ?_ h₄
    · rw [he]; exact List.mem_append_left _ hi
    · rw [(replay_readyCode h₃).2, hzero]
  have hqp := hcon.qp (hok x)
  have hqp' := hcon'.qp (hok (!x))
  refine ⟨by rw [hqp'], hrecvs, fun y => ?_⟩
  have hinfo := ofBytes_eq_self h hr hs'
  have hinfo' := ofBytes_eq_self (x := !x) h hr' (by rw [Bool.not_not]; exact hs)
  rcases bool_eq_or_eq_not y x with rfl | rfl
  · exact ⟨attr, by rw [hqp], by rw [hcon.destQpNum, hinfo], by rw [hcon.dlid, hinfo],
      fun heth => by rw [hcon.dgid heth, hinfo]⟩
  · exact ⟨attr', by rw [hqp'], by rw [hcon'.destQpNum, hinfo'], by rw [hcon'.dlid, hinfo'],
      fun heth => by rw [hcon'.dgid heth, hinfo']⟩

/-! ## Path MTU -/

/-- Both sides pass the same path MTU, within the MTU of either port. -/
def PathMtuAgree (a b : Adapter) (active active' : IbvMtu) : Prop :=
  ∃ attr attr', a.rtrAttr = some attr ∧ b.rtrAttr = some attr' ∧ attr.pathMtu = attr'.pathMtu ∧
    attr.pathMtu.toNat ≤ active.toNat ∧ attr.pathMtu.toNat ≤ active'.toNat

/-- A side passes the smaller of its own configured and active MTU, whatever
    its peer has advertised. -/
theorem pathMtu_eq {x : Bool} (h : Lts.Reachable Duplex.step (endPoints S) s)
    (hx : (s.party x).loc.adapter.status = .connecting) {port : PortAttr}
    (hport : (S x).hca.getPortAttr (S x).config.ibPort.toUInt32 = .ok port) :
    ∃ attr, (s.party x).loc.adapter.rtrAttr = some attr ∧
      attr.pathMtu = (S x).config.usedMtu.min port.activeMtu := by
  obtain ⟨e, he, hrep⟩ := (inv_reachable h).replayed_of_not (x := x)
    (c := (connectCode (S x)).dropLast) (d := readyCode ++ startCode)
    (P := fun l => l.adapter.status ≠ .connecting) rfl (AdapterState.noConfusion ·)
    (keeps_status (S x)) (not_not.2 hx)
  obtain ⟨_, _, attr, _, _, -, -, hcon⟩ := connected_of_replay (S := S x) he hrep
  obtain ⟨port', hport', hmtu⟩ := hcon.pathMtu
  obtain rfl := Except.ok.inj (hport.symm.trans hport')
  exact ⟨attr, hcon.rtrAttr, hmtu⟩

/-- **Path-MTU agreement** holds iff the smaller of configured and active MTU is
    the same on both sides. -/
theorem pathMtuAgree_iff (h : Lts.Reachable Duplex.step (endPoints S) s) {port : Bool → PortAttr}
    (hport : ∀ x, (S x).hca.getPortAttr (S x).config.ibPort.toUInt32 = .ok (port x))
    (hc : ∀ x, (s.party x).loc.adapter.status = .connecting) :
    PathMtuAgree (s.party true).loc.adapter (s.party false).loc.adapter (port true).activeMtu
        (port false).activeMtu ↔
      (S true).config.usedMtu.min (port true).activeMtu =
        (S false).config.usedMtu.min (port false).activeMtu := by
  obtain ⟨attr, hattr, hmtu⟩ := pathMtu_eq h (hc true) (hport true)
  obtain ⟨attr', hattr', hmtu'⟩ := pathMtu_eq h (hc false) (hport false)
  constructor
  · rintro ⟨b, b', hb, hb', heq, -, -⟩
    obtain rfl := Option.some.inj (hattr.symm.trans hb)
    obtain rfl := Option.some.inj (hattr'.symm.trans hb')
    rw [← hmtu, ← hmtu', heq]
  · intro heq
    refine ⟨attr, attr', hattr, hattr', by rw [hmtu, hmtu', heq], ?_, ?_⟩
    · rw [hmtu]; exact IbvMtu.toNat_min_le _ _
    · rw [hmtu, heq]; exact IbvMtu.toNat_min_le _ _

end

/-! ## Runs of two endpoints -/

/-- A RoCE endpoint with the default configuration on a port with the given MTU. -/
def rocePoint (last : UInt8) (qpNum : UInt32) (activeMtu : IbvMtu) : EndPointSetup where
  endpoint := ⟨⟨⟨10, 0, 0, last⟩, 2020, ⟨10, 0, 0, 3 - last⟩, 2020⟩, "node", "0"⟩
  config := { cqKey := "SharedCQ@node" }
  hca := { ports := [⟨linkLayerEthernet, activeMtu, 7⟩], gid := fun _ _ => Vector.replicate 16 last }
  qpNum := qpNum

/-- Two such endpoints. -/
def rocePair (mtu mtu' : IbvMtu) (x : Bool) : EndPointSetup :=
  if x then rocePoint 1 11 mtu else rocePoint 2 12 mtu'

/-- Both sides in lockstep, up to the first message of each. -/
def lockstep : List Act :=
  [0, 1, 0, 0, AdapterInfo.size, 0, 0, 0, 0, 0, 1, 0, 0, 0, 1, 0].flatMap fun n =>
    [⟨true, n⟩, ⟨false, n⟩]

/-- Both sides have connected and posted their first message. -/
def started (s : State EndPointState) : Bool :=
  ∀ x, 0 < (s.party x).loc.sends ∧ (s.party x).loc.adapter.status = .connecting

theorem lockstep_started {mtu mtu' : IbvMtu}
    (h : (Lts.run Duplex.step (endPoints (rocePair mtu mtu')) lockstep).map started = some true) :
    ∃ s, Lts.Reachable Duplex.step (endPoints (rocePair mtu mtu')) s ∧
      (∀ x, 0 < (s.party x).loc.sends) ∧ ∀ x, (s.party x).loc.adapter.status = .connecting := by
  obtain ⟨s, hs, hdec⟩ := Option.map_eq_some_iff.1 h
  have hall := of_decide_eq_true hdec
  exact ⟨s, ⟨_, hs⟩, fun x => (hall x).1, fun x => (hall x).2⟩

theorem rocePair_started :
    (Lts.run Duplex.step (endPoints (rocePair .mtu1024 .mtu1024)) lockstep).map started =
      some true := by
  decide +kernel

theorem connection_barrier_rocePair : ∃ s,
    Lts.Reachable Duplex.step (endPoints (rocePair .mtu1024 .mtu1024)) s ∧
      (s.party false).loc.adapter.qp.state = .rts ∧ (s.party false).loc.recvs = 2 ∧
      ∀ y, AddressedTo (s.party y).loc.adapter (s.party (!y)).loc.adapter := by
  obtain ⟨s, hs, hsends, -⟩ := lockstep_started rocePair_started
  exact ⟨s, hs, connection_barrier (fun x => by cases x <;> rfl) hs (hsends true)⟩

theorem pathMtuAgree_rocePair : ∃ s,
    Lts.Reachable Duplex.step (endPoints (rocePair .mtu1024 .mtu1024)) s ∧
      PathMtuAgree (s.party true).loc.adapter (s.party false).loc.adapter .mtu1024 .mtu1024 := by
  obtain ⟨s, hs, -, hc⟩ := lockstep_started rocePair_started
  have hport : ∀ x, (rocePair .mtu1024 .mtu1024 x).hca.getPortAttr
      (rocePair .mtu1024 .mtu1024 x).config.ibPort.toUInt32 =
        .ok ⟨linkLayerEthernet, .mtu1024, 7⟩ := by
    intro x; cases x <;> rfl
  exact ⟨s, hs, (pathMtuAgree_iff hs hport hc).2 rfl⟩

/-- Ports with different MTUs: each side passes its own to its queue pair. -/
theorem not_pathMtuAgree_rocePair : ∃ s,
    Lts.Reachable Duplex.step (endPoints (rocePair .mtu4096 .mtu1024)) s ∧
      (∀ x, (s.party x).loc.adapter.status = .connecting) ∧
      ¬ PathMtuAgree (s.party true).loc.adapter (s.party false).loc.adapter .mtu4096 .mtu1024 := by
  obtain ⟨s, hs, -, hc⟩ := @lockstep_started .mtu4096 .mtu1024 (by decide +kernel)
  refine ⟨s, hs, hc, ?_⟩
  rintro ⟨b, b', hb, hb', heq, -, -⟩
  obtain ⟨attr, hattr, hmtu⟩ := pathMtu_eq hs (hc true) rfl
  obtain ⟨attr', hattr', hmtu'⟩ := pathMtu_eq hs (hc false) rfl
  obtain rfl := Option.some.inj (hattr.symm.trans hb)
  obtain rfl := Option.some.inj (hattr'.symm.trans hb')
  rw [hmtu, hmtu'] at heq
  exact absurd heq (by decide)

end RdmaCore

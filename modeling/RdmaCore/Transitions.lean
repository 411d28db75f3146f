/-
  Failed transitions of a queue pair: what `RDMAAdapter::connecting` returns
  and how far `RDMAEndPoint::connecting` gets when `ibv_modify_qp` fails.

  * `Adapter.connecting`: the whole of `RDMAAdapter::connecting`, which drops
    the codes of its three transitions;
  * `Stopped`: no failed transition is reported as a connection;
  * an endpoint whose `CHECK`s pass reports a connection whatever
    `ibv_modify_qp` has returned.
-/
import RdmaCore.EndPoint

namespace RdmaCore

open Duplex

/-- All three calls of `ibv_modify_qp` succeed. -/
def ModifyQp.Succeed (m : ModifyQp) : Prop := m.init = true ∧ m.rtr = true ∧ m.rts = true

instance (m : ModifyQp) : Decidable m.Succeed := inferInstanceAs (Decidable (_ ∧ _))

/-! ## One adapter -/

namespace Adapter

/-- `RDMAAdapter::connecting`, with the value it returns. -/
def connecting (m : ModifyQp) (peer : AdapterInfo) (a : Adapter) :
    Except Fault (Adapter × Bool) := do
  let a ← a.acceptPeer peer
  -- the codes of the three transitions are dropped
  let a := a.modifyQpToInit m.init
  let a ← a.modifyQpToRtr m.rtr
  let a := a.modifyQpToRts m.rts
  pure ({ a with status := .connecting }, true)

theorem zero_lt_uniqueId : 0 < 128 := by decide

/-- The `CHECK`s of `connecting`. -/
def Accepts (a : Adapter) (peer : AdapterInfo) : Prop :=
  peer.uniqueId.get ⟨0, zero_lt_uniqueId⟩ ≠ 0 ∧ a.self.linkLayer ≠ 0 ∧
    (a.self.linkLayer = linkLayerEthernet →
      a.self.linkLayer = peer.linkLayer ∧ 0 ≤ a.config.gidIndex)

instance (a : Adapter) (peer : AdapterInfo) : Decidable (a.Accepts peer) :=
  inferInstanceAs (Decidable (_ ∧ _))

variable {m : ModifyQp} {peer : AdapterInfo} {a a' : Adapter} {b : Bool}

theorem acceptPeer_eq_ok :
    a.acceptPeer peer = .ok a' ↔
      peer.uniqueId.get 0 ≠ 0 ∧ a.self.linkLayer ≠ 0 ∧ a' = { a with remote := peer } := by
  simp only [acceptPeer, updatePeerAdapterInfo, Except.bind_eq_ok, check_eq_ok,
    Except.pure_eq_ok]
  constructor
  · rintro ⟨-, h, -, h', rfl⟩
    exact ⟨h, h', rfl⟩
  · rintro ⟨h, h', rfl⟩
    exact ⟨(), h, (), h', rfl⟩

/-- The attributes of the transition to RTR exist if the link layers agree. -/
theorem exists_rtrAttrOf_iff :
    (∃ attr, a.rtrAttrOf = .ok attr) ↔ (a.self.linkLayer = linkLayerEthernet →
      a.self.linkLayer = a.remote.linkLayer ∧ 0 ≤ a.config.gidIndex) := by
  unfold rtrAttrOf
  dsimp only
  split_ifs with heth
  · simp only [Except.bind_eq_ok, Except.pure_eq_ok, check_eq_ok]
    constructor
    · rintro ⟨attr, -, h, -, h', -⟩ -
      exact ⟨h, h'⟩
    · intro h
      exact ⟨_, (), (h heth).1, (), (h heth).2, rfl⟩
  · exact ⟨fun _ h => absurd h heth, fun _ => ⟨_, rfl⟩⟩

/-- `connecting` returns, always `true`, iff its `CHECK`s pass. -/
theorem connecting_ok (h : a.connecting m peer = .ok (a', b)) :
    a.Accepts peer ∧ b = true ∧ a'.status = .connecting ∧ (m.Succeed → a'.qp.state = .rts) := by
  simp only [connecting, Except.bind_eq_ok, Except.pure_eq_ok, Prod.mk.injEq] at h
  obtain ⟨a₁, h₁, a₂, h₂, rfl, rfl⟩ := h
  obtain ⟨hid, hlink, rfl⟩ := acceptPeer_eq_ok.1 h₁
  obtain ⟨attr, hattr, rfl⟩ := modifyQpToRtr_ok h₂
  have heth := exists_rtrAttrOf_iff.1 ⟨attr, hattr⟩
  simp only [modifyQpToInit_eq] at heth
  refine ⟨⟨hid, hlink, heth⟩, rfl, rfl, ?_⟩
  rintro ⟨-, -, hrts⟩
  simp only [modifyQpToRts_eq, hrts, if_true]

theorem exists_connecting (m : ModifyQp) (h : a.Accepts peer) :
    ∃ a', a.connecting m peer = .ok (a', true) := by
  obtain ⟨hid, hlink, heth⟩ := h
  have hacc : a.acceptPeer peer = .ok { a with remote := peer } :=
    acceptPeer_eq_ok.2 ⟨hid, hlink, rfl⟩
  obtain ⟨attr, hattr⟩ := exists_rtrAttrOf_iff
    (a := ({ a with remote := peer } : Adapter).modifyQpToInit m.init).2
    (by simp only [modifyQpToInit_eq]; exact heth)
  simp only [connecting, Except.bind_eq_ok, Except.pure_eq_ok, Prod.mk.injEq]
  exact ⟨_, _, hacc, _, Except.bind_eq_ok.2 ⟨attr, hattr, rfl⟩, rfl, trivial⟩

end Adapter

/-! ## One endpoint -/

/-- The adapter after `loading`. -/
def EndPointSetup.loaded (S : EndPointSetup) : Except Fault Adapter :=
  (EndPointState.init S).adapter.loading S.hca S.qpNum

theorem EndPointState.length_self (l : EndPointState) :
    l.adapter.self.toBytes.length = AdapterInfo.size := AdapterInfo.length_toBytes _

/-- The program up to the information that an endpoint sends. -/
def helloCode (S : EndPointSetup) : List (Instr EndPointState) :=
  syncWithPeer ++
  [.exec (EndPointState.onAdapter (Adapter.loading S.hca S.qpNum)),
    .send AdapterInfo.size (fun l => l.adapter.self.toBytes) EndPointState.length_self]

theorem onAdapter_eq_some {f : Adapter → Except Fault Adapter} {l l' : EndPointState} :
    l.onAdapter f = some l' ↔ ∃ a, f l.adapter = .ok a ∧ l' = { l with adapter := a } := by
  constructor
  · exact onAdapter_some
  · rintro ⟨a, ha, rfl⟩
    simp [EndPointState.onAdapter, ha, Except.toOption]

theorem replay_helloCode {S : EndPointSetup} {l : EndPointState} {q : List UInt8}
    {t : List (List UInt8)} :
    replay (helloCode S) (EndPointState.init S) [q] = some (l, t) ↔
      q.length = 1 ∧ ∃ a, S.loaded = .ok a ∧ l = { EndPointState.init S with adapter := a } ∧
        t = [[81], a.self.toBytes] := by
  simp only [helloCode, syncWithPeer, List.cons_append, List.nil_append, replay,
    Option.map_eq_some_iff, Prod.mk.injEq]
  constructor
  · rintro ⟨⟨l₁, t₁⟩, h, rfl, rfl⟩
    split_ifs at h with hq
    simp only [Option.bind_eq_some_iff, Option.map_some, Option.some.injEq, Prod.mk.injEq] at h
    obtain ⟨l₂, hl, rfl, rfl⟩ := h
    obtain ⟨a, ha, rfl⟩ := onAdapter_some hl
    exact ⟨hq, a, ha, rfl, rfl⟩
  · rintro ⟨hq, a, ha, rfl, rfl⟩
    refine ⟨({ EndPointState.init S with adapter := a }, [a.self.toBytes]), ?_, rfl, rfl⟩
    rw [if_pos hq, onAdapter_eq_some.2 ⟨a, ha, rfl⟩]
    rfl

/-- The transitions of an endpoint are those of `RDMAAdapter::connecting`. -/
theorem replay_adapterConnecting {m : ModifyQp} {l l' : EndPointState} {t : List (List UInt8)} :
    replay (adapterConnecting m) l [] = some (l', t) ↔
      ∃ a, l.adapter.connecting m l.peerInfo = .ok (a, true) ∧ l' = { l with adapter := a } ∧
        t = [] := by
  simp only [adapterConnecting, replay, Adapter.connecting, Option.bind_eq_some_iff,
    onAdapter_eq_some, Except.bind_eq_ok, Except.pure_eq_ok, Prod.mk.injEq, Option.some.injEq]
  constructor
  · rintro ⟨l₁, ⟨a₁, h₁, rfl⟩, l₂, ⟨a₂, h₂, rfl⟩, l₃, ⟨a₃, h₃, rfl⟩, l₄, ⟨a₄, h₄, rfl⟩, rfl, rfl⟩
    obtain rfl := Except.ok.inj h₂
    obtain rfl := Except.ok.inj h₄
    exact ⟨_, ⟨a₁, h₁, a₃, h₃, rfl, trivial⟩, rfl, rfl⟩
  · rintro ⟨a, ⟨a₁, h₁, a₃, h₃, rfl, -⟩, rfl, rfl⟩
    exact ⟨_, ⟨a₁, h₁, rfl⟩, _, ⟨_, rfl, rfl⟩, _, ⟨a₃, h₃, rfl⟩, _, ⟨_, rfl, rfl⟩, rfl, rfl⟩

/-- Up to the transition to RTS: the information is sent, that of the peer is
    received, and the adapter connects with it. -/
theorem connectCode_eq (S : EndPointSetup) :
    connectCode S = helloCode S ++
      ([.recv AdapterInfo.size fun l m => { l with peerInfo := AdapterInfo.ofBytes m }] ++
        adapterConnecting S.modifyQp) := rfl

theorem replay_recvInfo {m : ModifyQp} {l l' : EndPointState} {b : List UInt8}
    {t : List (List UInt8)} :
    replay ([.recv AdapterInfo.size fun l m => { l with peerInfo := AdapterInfo.ofBytes m }] ++
      adapterConnecting m) l [b] = some (l', t) ↔
      b.length = AdapterInfo.size ∧ ∃ a,
        l.adapter.connecting m (AdapterInfo.ofBytes b) = .ok (a, true) ∧
        l' = { l with adapter := a, peerInfo := AdapterInfo.ofBytes b } ∧ t = [] := by
  simp only [List.cons_append, List.nil_append, replay]
  by_cases hb : b.length = AdapterInfo.size
  · rw [if_pos hb, replay_adapterConnecting]
    exact ⟨fun h => ⟨hb, h⟩, fun h => h.2⟩
  · rw [if_neg hb]
    exact ⟨fun h => (by cases h), fun h => absurd h.1 hb⟩

/-- What a side that has come to RTS has done. -/
theorem replay_connectCode_connecting {S : EndPointSetup} {l : EndPointState}
    {r t : List (List UInt8)} (h : replay (connectCode S) (EndPointState.init S) r = some (l, t)) :
    ∃ q m a, r = [q, m] ∧ S.loaded = .ok a ∧
      a.connecting S.modifyQp (AdapterInfo.ofBytes m) = .ok (l.adapter, true) := by
  obtain ⟨q, m, -, rfl, -⟩ := replay_connectCode h
  rw [connectCode_eq] at h
  obtain ⟨l₁, r₁, r₂, t₁, t₂, h₁, h₂, hr, -⟩ := replay_append_ok h
  have hlen : r₁.length = 1 := by
    simpa [helloCode, syncWithPeer, recvSizes] using congrArg List.length (replay_sizes h₁).2
  obtain ⟨q', rfl⟩ := List.length_eq_one_iff.1 hlen
  obtain ⟨rfl, rfl⟩ := List.cons_eq_cons.1 hr
  obtain ⟨-, a, ha, rfl, -⟩ := replay_helloCode.1 h₁
  obtain ⟨-, a', ha', rfl, -⟩ := replay_recvInfo.1 h₂
  exact ⟨q, m, a, rfl, ha, ha'⟩

/-! ## Two endpoints -/

/-- The side has returned from `RDMAEndPoint::connecting`. -/
def Returned (s : State EndPointState) (x : Bool) : Prop :=
  (s.party x).code.length ≤ establishedFn.length

instance (s : State EndPointState) (x : Bool) : Decidable (Returned s x) :=
  inferInstanceAs (Decidable (_ ≤ _))

/-- No failed transition is reported as a connection. -/
structure Stopped (S : Bool → EndPointSetup) (s : State EndPointState) : Prop where
  reported : ∀ x, (s.party x).loc.adapter.status = .connecting →
    (S x).modifyQp.Succeed ∧ (s.party x).loc.adapter.qp.state = .rts
  synced : ∀ x, Returned s x → (S x).modifyQp.Succeed
  both : (∀ x, Returned s x) → ∀ x, (s.party x).loc.adapter.qp.state = .rts

/-- Both sides load, and the information of the peer passes the `CHECK`s of `x`. -/
def Admits (S : Bool → EndPointSetup) (x : Bool) : Prop :=
  ∃ a b, (S x).loaded = .ok a ∧ (S (!x)).loaded = .ok b ∧ a.Accepts b.self

section
variable {S : Bool → EndPointSetup} {s : State EndPointState}

/-- A side that has returned from `connecting` is connecting. -/
theorem Returned.status (h : Lts.Reachable Duplex.step (endPoints S) s) {x : Bool}
    (hx : Returned s x) : (s.party x).loc.adapter.status = .connecting := by
  obtain ⟨done, hprog, hrep⟩ := (inv_reachable h).replayed x
  rw [endPointCode_eq] at hprog
  rcases List.append_eq_append_iff.1 hprog with ⟨e, rfl, he⟩ | ⟨c, -, hcode⟩
  · obtain ⟨_, _, attr, _, _, -, -, hcon⟩ := connected_of_replay he hrep
    exact hcon.status
  · have hlen := hx
    rw [Returned, hcode, List.length_append] at hlen
    have : (readyCode ++ startCode).length = establishedFn.length + 2 := rfl
    omega

/-- A side that is connecting has passed its `CHECK`s, on the information of its
    peer. -/
theorem admits_of_connecting (h : Lts.Reachable Duplex.step (endPoints S) s) {x : Bool}
    (hx : (s.party x).loc.adapter.status = .connecting) :
    Admits S x ∧ ((S x).modifyQp.Succeed → (s.party x).loc.adapter.qp.state = .rts) := by
  obtain ⟨e, he, hrep⟩ := (inv_reachable h).replayed_of_not (x := x)
    (c := (connectCode (S x)).dropLast) (d := readyCode ++ startCode)
    (P := fun l => l.adapter.status ≠ .connecting) rfl (AdapterState.noConfusion ·)
    (keeps_status (S x)) (not_not.2 hx)
  obtain ⟨l₁, r₁, r₂, t₁, t₂, h₁, h₂, hr, -⟩ := replay_append_ok (c := connectCode (S x)) hrep
  obtain ⟨q, m, a, rfl, ha, hcon⟩ := replay_connectCode_connecting h₁
  have hkeep : (s.party x).loc.adapter = l₁.adapter :=
    replay_keeps (P := fun l => l.adapter = l₁.adapter)
      (fun i hi => keeps_adapter _ i (by rw [he]; exact List.mem_append_left _ hi)) rfl h₂
  -- the peer has sent the information that `x` has received
  have hpre := endPoints_framing h (!x)
  rw [Bool.not_not, hr] at hpre
  obtain ⟨e', he', hrep'⟩ := (inv_reachable h).replayed_of_sent (x := !x)
    (c := (helloCode (S (!x))).dropLast) (i := .send AdapterInfo.size
      (fun l => l.adapter.self.toBytes) (fun _ => AdapterInfo.length_toBytes _)) rfl
    (by have := hpre.length_le; simp at this; simp [helloCode, syncWithPeer, sendSizes]; omega)
  obtain ⟨l₃, r₃, r₄, t₃, t₄, h₃, -, -, ht⟩ := replay_append_ok (c := helloCode (S (!x))) hrep'
  have hlen : r₃.length = 1 := by
    simpa [helloCode, syncWithPeer, recvSizes] using congrArg List.length (replay_sizes h₃).2
  obtain ⟨q', rfl⟩ := List.length_eq_one_iff.1 hlen
  obtain ⟨-, b, hb, -, rfl⟩ := replay_helloCode.1 h₃
  rw [ht] at hpre
  simp only [List.cons_append, List.nil_append, List.cons_prefix_cons] at hpre
  rw [hpre.2.1, AdapterInfo.ofBytes_toBytes] at hcon
  obtain ⟨hacc, -, -, hrts⟩ := Adapter.connecting_ok hcon
  rw [hkeep]
  exact ⟨⟨a, b, ha, hb, hacc⟩, hrts⟩

/-- A side that passes its `CHECK`s gets to report a connection. -/
theorem exists_connecting_of_admits {x : Bool} (h : Admits S x) :
    ∃ s, Lts.Reachable Duplex.step (endPoints S) s ∧
      (s.party x).loc.adapter.status = .connecting := by
  obtain ⟨a, b, ha, hb, hacc⟩ := h
  obtain ⟨a', hcon⟩ := Adapter.exists_connecting (S x).modifyQp hacc
  -- what `x` does with the messages of its peer
  have hhello := replay_helloCode (q := [81]).2 ⟨rfl, a, ha, rfl, rfl⟩
  have hconnect : replay (connectCode (S x)) (EndPointState.init (S x))
      ([[81]] ++ [b.self.toBytes]) =
        some ({ EndPointState.init (S x) with adapter := a', peerInfo := b.self },
          [[81], a.self.toBytes]) := by
    rw [connectCode_eq, replay_append hhello, replay_recvInfo.2 ⟨AdapterInfo.length_toBytes _, a',
      by rw [AdapterInfo.ofBytes_toBytes]; exact hcon, rfl, rfl⟩, AdapterInfo.ofBytes_toBytes]
    rfl
  obtain ⟨l₁, r₁, r₂, t₁, t₂, h₁, h₂, hr, -⟩ :=
    replay_append_ok (c := [.send 1 (fun _ => [81]) (fun _ => rfl)])
      (d := (connectCode (S x)).tail) hconnect
  cases r₁ with
  | cons m r => cases h₁
  | nil =>
    obtain ⟨rfl, rfl⟩ := Prod.mk.inj (Option.some.inj h₁)
    obtain rfl : [[81], b.self.toBytes] = r₂ := hr
    -- `x` sends its `Q`, then its peer goes on until it has sent its information
    obtain ⟨s₁, hs₁⟩ := advanced_of_replay (s := endPoints S) (x := x)
      (c := [.send 1 (fun _ => [81]) (fun _ => rfl)])
      (d := (connectCode (S x)).tail ++ (readyCode ++ startCode)) (r := []) (w := [])
      (fun n hn => by cases hn) rfl rfl h₁ rfl
    have hpeer : s₁.party (!x) = (endPoints S).party (!x) := hs₁.peer
    have hwire : s₁.wire (!!x) = [[81]].flatten ++ [] := by
      rw [Bool.not_not, hs₁.wire]
      rfl
    obtain ⟨s₂, hs₂⟩ := advanced_of_replay (s := s₁) (x := !x) (c := helloCode (S (!x)))
      (d := [.recv AdapterInfo.size fun l m => { l with peerInfo := AdapterInfo.ofBytes m }] ++
        adapterConnecting (S (!x)).modifyQp ++ (readyCode ++ startCode))
      (fun n hn => by simp [helloCode, syncWithPeer, recvSizes] at hn; omega)
      (by rw [hpeer]; rfl) (by rw [hpeer]; rfl)
      (by rw [hpeer]; exact replay_helloCode.2 ⟨rfl, b, hb, rfl, rfl⟩) hwire
    have hself : s₂.party x = s₁.party x := by
      have := hs₂.peer
      rwa [Bool.not_not] at this
    have hpos : ∀ n ∈ recvSizes (connectCode (S x)).tail, 0 < n := by
      intro n hn
      simp [connectCode, syncWithPeer, recvSizes, adapterConnecting, AdapterInfo.size] at hn
      omega
    have hwire' : s₂.wire (!x) = [[81], b.self.toBytes].flatten ++ [] := by
      rw [hs₂.wire, hs₁.wireIn]
      simp
    obtain ⟨s₃, hs₃⟩ := advanced_of_replay (s := s₂) (x := x) (d := readyCode ++ startCode) hpos
      (by rw [hself, hs₁.code]) (by rw [hself, hs₁.acc]) (by rw [hself, hs₁.loc]; exact h₂) hwire'
    refine ⟨s₃, (hs₁.reachable.trans hs₂.reachable).trans hs₃.reachable, ?_⟩
    rw [hs₃.loc]
    exact (Adapter.connecting_ok hcon).2.2.1

end

/-- **Failed transitions.** `RDMAAdapter::connecting` never reports a failed
    transition iff its transitions succeed whenever its `CHECK`s pass; and for two
    endpoints, no failed transition passes for a connection iff the transitions of
    every side that passes its `CHECK`s succeed. -/
theorem failed_transitions_iff (S : Bool → EndPointSetup) :
    (∀ m peer a, (∀ a', Adapter.connecting m peer a = .ok (a', true) →
        a'.status = .connecting → m.Succeed ∧ a'.qp.state = .rts) ↔
      (a.Accepts peer → m.Succeed)) ∧
    ((∀ s, Lts.Reachable Duplex.step (endPoints S) s → Stopped S s) ↔
      ∀ x, Admits S x → (S x).modifyQp.Succeed) := by
  constructor
  · intro m peer a
    constructor
    · intro h hacc
      obtain ⟨a', ha'⟩ := Adapter.exists_connecting m hacc
      exact (h a' ha' (Adapter.connecting_ok ha').2.2.1).1
    · intro h a' ha' _
      obtain ⟨hacc, -, -, hrts⟩ := Adapter.connecting_ok ha'
      exact ⟨h hacc, hrts (h hacc)⟩
  · constructor
    · intro h x hx
      obtain ⟨s, hs, hstatus⟩ := exists_connecting_of_admits hx
      exact ((h s hs).reported x hstatus).1
    · intro h s hs
      have hreported : ∀ x, (s.party x).loc.adapter.status = .connecting →
          (S x).modifyQp.Succeed ∧ (s.party x).loc.adapter.qp.state = .rts := by
        intro x hx
        obtain ⟨hadm, hrts⟩ := admits_of_connecting hs hx
        exact ⟨h x hadm, hrts (h x hadm)⟩
      refine ⟨hreported, ?_, ?_⟩
      · intro x hx
        exact (hreported x (hx.status hs)).1
      · intro hall x
        exact (hreported x ((hall x).status hs)).2

/-- Two endpoints; the transitions of one side fail. -/
def failingPair (x : Bool) : EndPointSetup :=
  { rocePair .mtu1024 .mtu1024 x with modifyQp := { init := !x, rtr := !x, rts := !x } }

/-- Both sides return from `connecting` and report a connection, and the queue
    pair of one of them is still in RESET. -/
theorem not_stopped_failingPair :
    ∃ s, Lts.Reachable Duplex.step (endPoints failingPair) s ∧ (∀ x, Returned s x) ∧
      (∀ x, (s.party x).loc.adapter.status = .connecting) ∧
      (s.party true).loc.adapter.qp.state = .reset ∧ ¬ Stopped failingPair s := by
  have h : (Lts.run Duplex.step (endPoints failingPair) lockstep).any
      (fun s => decide ((∀ x, Returned s x ∧ (s.party x).loc.adapter.status = .connecting) ∧
        (s.party true).loc.adapter.qp.state = .reset)) = true := by decide +kernel
  obtain ⟨s, hs, hp⟩ := Lts.Reachable.of_any h
  obtain ⟨hall, hqp⟩ := of_decide_eq_true hp
  refine ⟨s, hs, fun x => (hall x).1, fun x => (hall x).2, hqp, fun hstop => ?_⟩
  have hrts := hstop.both (fun x => (hall x).1) true
  rw [hqp] at hrts
  cases hrts

end RdmaCore

/-
  Connecting again after a reset (`RDMAEndPoint::connecting` and `reset` in
  src/rdma_endpoint.cc, `reset_hca` and `modify_qp_to_reset` in
  src/rdma_adapter.cc).

  An endpoint calls `connecting` once and then `reset` any number of times,
  on one TCP connection; `loading` is the call modelled in `Lifetime`, on the
  device of the endpoint.  Requests to `ibv_modify_qp` are logged with the
  state of the queue pair, and succeed if the transition is legal.

  * `Stage`: the numbers that tell how far an endpoint has come;
  * `At`: what holds of an endpoint at a stage;
  * `outline_round`: one round leads from stage to stage.
-/
import RdmaCore.Lib.Duplex
import RdmaCore.Lifetime

namespace RdmaCore

open Duplex

/-! ## Transitions -/

/-- The transitions that `ibv_modify_qp` is used for. -/
def QpState.legal : QpState → QpState → Bool
  | _, .reset => true
  | .reset, .init => true
  | .init, .rtr => true
  | .rtr, .rts => true
  | _, _ => false

/-- `RDMAAdapter::modify_qp_to_reset`; the attributes of the queue pair are lost. -/
def Adapter.modifyQpToReset (ok : Bool) (a : Adapter) : Adapter :=
  if ok then { a with qp := {} } else a

/-! ## One endpoint -/

/-- One end of a connection: its configuration, and its device, which may have
    served other adapters. -/
structure ReconnectSetup where
  endpoint : EndPointId
  config : AdapterConfig
  hca : Hca
  device : Option (Device Unit) := none

/-- An endpoint in its calls of `connecting` and `reset`. -/
structure RoundState where
  loader : Loader
  device : Option (Device Unit)
  /-- what `loading` has returned -/
  infos : List AdapterInfo := []
  /-- what was received as `peer_info` -/
  peerInfos : List AdapterInfo := []
  /-- the calls of `ibv_modify_qp`: the state of the queue pair, and the state asked for -/
  requests : List (QpState × QpState) := []
  /-- how often `RDMAAdapter::connecting` has returned -/
  connected : ℕ := 0
  /-- the calls of `connecting` and `reset`, begun and returned from -/
  calls : ℕ := 0
  returns : ℕ := 0

namespace RoundState

def init (S : ReconnectSetup) : RoundState where
  loader := { adapter := { endpoint := S.endpoint, config := S.config } }
  device := S.device

/-- `RDMAAdapter::loading` -/
def loading (S : ReconnectSetup) (l : RoundState) : Option RoundState :=
  (l.loader.loading S.hca () l.device).toOption.map fun p =>
    { l with device := p.1, loader := p.2, infos := l.infos ++ [p.2.adapter.self] }

/-- `adapt_info` and `peer_info` of the call of `connecting`. -/
def adaptInfo (l : RoundState) : AdapterInfo := l.infos.getLastD {}
def peerInfo (l : RoundState) : AdapterInfo := l.peerInfos.getLastD {}

/-- A step of the adapter that may fail. -/
def onAdapter (f : Adapter → Except Fault Adapter) (l : RoundState) : Option RoundState :=
  (f l.loader.adapter).toOption.map fun a => { l with loader.adapter := a }

/-- A call of `ibv_modify_qp`, after `CHECK(qp_ != 0)`. -/
def modifyQp (target : QpState) (f : Bool → Adapter → Except Fault Adapter) (l : RoundState) :
    Option RoundState :=
  let current := l.loader.adapter.qp.state
  if l.loader.qp = none then none
  else { l with requests := l.requests ++ [(current, target)] }.onAdapter
    (f (current.legal target))

/-- `RDMAAdapter::reset_hca` -/
def resetHca : RoundState → Option RoundState :=
  modifyQp .reset fun ok a => .ok (a.modifyQpToReset ok)

end RoundState

section
open RoundState

/-- `sock_sync_data(1, "Q", &temp_char)`, and what follows it. -/
def syncThen (f : RoundState → RoundState) : List (Instr RoundState) :=
  [.send 1 (fun _ => [81]) (fun _ => rfl), .recv 1 fun l _ => f l]

/-- `RDMAEndPoint::connecting`, up to its return -/
def connectingRound (S : ReconnectSetup) : List (Instr RoundState) :=
  [.exec (RoundState.loading S),
    .send AdapterInfo.size (fun l => l.adaptInfo.toBytes) (fun _ => AdapterInfo.length_toBytes _),
    .recv AdapterInfo.size fun l m =>
      { l with peerInfos := l.peerInfos ++ [AdapterInfo.ofBytes m] },
    .exec fun l => l.onAdapter (·.acceptPeer l.peerInfo),
    .exec (modifyQp .init fun ok a => .ok (a.modifyQpToInit ok)),
    .exec (modifyQp .rtr Adapter.modifyQpToRtr),
    .exec (modifyQp .rts fun ok a => .ok (a.modifyQpToRts ok)),
    .exec fun l => some { l with
      loader.adapter.status := .connecting, connected := l.connected + 1 }] ++
  syncThen fun l => { l with returns := l.returns + 1 }

/-- A call begins. -/
def beginCall : Instr RoundState := .exec fun l => some { l with calls := l.calls + 1 }

/-- The exchange of the constructor, `connecting`, and `n` calls of `reset`. -/
def reconnectCode (S : ReconnectSetup) (n : ℕ) : List (Instr RoundState) :=
  syncThen id ++ (beginCall :: connectingRound S) ++
    (List.replicate n (beginCall :: .exec resetHca :: connectingRound S)).flatten

end

/-- Two endpoints of one connection. -/
def endPointRounds (S : Bool → ReconnectSetup) (n : ℕ) : State RoundState :=
  Duplex.init (fun x => reconnectCode (S x) n) (fun x => RoundState.init (S x))

/-! ## What an endpoint keeps -/

/-- The resources of an adapter: one protection domain, one queue pair, and the
    completion queue of its key, which is created if the device had none. -/
structure Built (S : ReconnectSetup) (l : RoundState) : Prop where
  allocated : l.loader.adapter.resourceIsAllocated = true
  pds : (l.device.getD {}).pds = (S.device.getD {}).pds + 1
  pd : l.loader.pd = some (S.device.getD {}).pds
  created : (l.device.getD {}).created = (S.device.getD {}).created ++
    (if (S.device.getD {}).regCqs (RoundState.init S).loader.key = none then
      [((RoundState.init S).loader.key, S.config.cqSize)] else [])
  usedCq : l.loader.usedCq ≠ none ∧
    (l.device.getD {}).regCqs (RoundState.init S).loader.key = l.loader.usedCq
  qps : (l.device.getD {}).qps = (S.device.getD {}).qps + 1
  qp : l.loader.qp = some (S.device.getD {}).qps
  qpNum : l.loader.adapter.self.qpNum = UInt32.ofNat (S.device.getD {}).qps

theorem Built.congr {S : ReconnectSetup} {l l' : RoundState} (h : Built S l)
    (hdev : l'.device = l.device) (hpd : l'.loader.pd = l.loader.pd)
    (hcq : l'.loader.usedCq = l.loader.usedCq) (hqp : l'.loader.qp = l.loader.qp)
    (halloc : l'.loader.adapter.resourceIsAllocated = l.loader.adapter.resourceIsAllocated)
    (hself : l'.loader.adapter.self = l.loader.adapter.self) : Built S l' where
  allocated := halloc.trans h.allocated
  pds := by rw [hdev]; exact h.pds
  pd := hpd.trans h.pd
  created := by rw [hdev]; exact h.created
  usedCq := by rw [hdev, hcq]; exact h.usedCq
  qps := by rw [hdev]; exact h.qps
  qp := hqp.trans h.qp
  qpNum := by rw [hself]; exact h.qpNum

/-- What holds of an endpoint wherever it is. -/
structure Facts (S : ReconnectSetup) (l : RoundState) (r t : List (List UInt8)) : Prop where
  legal : ∀ q ∈ l.requests, q.1.legal q.2 = true
  fresh : l.infos = [] → l.device = S.device ∧ l.loader = (RoundState.init S).loader
  built : l.infos ≠ [] → Built S l
  same : ∀ i ∈ l.infos, i = l.loader.adapter.self
  /-- The odd messages are the information of the rounds. -/
  sentInfos : ∀ i m, t[2 * i + 1]? = some m → ∃ a, l.infos[i]? = some a ∧ m = a.toBytes
  rcvdInfos : ∀ i b, l.peerInfos[i]? = some b →
    ∃ m, r[2 * i + 1]? = some m ∧ b = AdapterInfo.ofBytes m
  addressed : l.loader.adapter.qp.state = .rtr ∨ l.loader.adapter.qp.state = .rts →
    ∃ attr b, l.loader.adapter.qp.attr = some attr ∧ l.peerInfos.getLast? = some b ∧
      attr.destQpNum = b.qpNum

section
variable {S : ReconnectSetup} {l l' : RoundState} {r t : List (List UInt8)}

theorem facts_init (S : ReconnectSetup) : Facts S (RoundState.init S) [] [] where
  legal q h := by cases h
  fresh _ := ⟨rfl, rfl⟩
  built h := absurd rfl h
  same i h := by cases h
  sentInfos i m h := by cases h
  rcvdInfos i b h := by cases h
  addressed h := by rcases h with h | h <;> cases h

theorem RoundState.loading_some (h : l.loading S = some l') : ∃ device loader,
    l.loader.loading S.hca () l.device = .ok (device, loader) ∧
      l' = { l with device, loader, infos := l.infos ++ [loader.adapter.self] } := by
  unfold RoundState.loading at h
  cases hload : l.loader.loading S.hca () l.device with
  | error f => rw [hload] at h; cases h
  | ok p => rw [hload] at h; exact ⟨p.1, p.2, rfl, (Option.some.inj h).symm⟩

/-- The first call takes the resources from the device. -/
theorem Facts.built_of_loading (h : Facts S l r t) (hnil : l.infos = [])
    {device : Option (Device Unit)} {loader : Loader}
    (hload : l.loader.loading S.hca () l.device = .ok (device, loader)) :
    Built S { l with device, loader, infos := l.infos ++ [loader.adapter.self] } ∧
      loader.adapter.qp = l.loader.adapter.qp := by
  obtain ⟨hdev, hinit⟩ := h.fresh hnil
  rw [hdev, hinit] at hload
  obtain ⟨⟨n, hdevice⟩, halloc, -, hused⟩ := Loader.loading_ok rfl hload
  obtain ⟨hpds, hpd, hqps, hqp, hnum, hsame⟩ := Loader.loading_resources rfl hload
  obtain ⟨-, hreg, -, hcreated, -⟩ :=
    Device.queued_spec (S.device.getD {}) () (RoundState.init S).loader
  refine ⟨⟨halloc, hpds, hpd, ?_, ⟨?_, ?_⟩, hqps, hqp, hnum⟩, by rw [hinit]; exact hsame⟩
  · rw [hdevice]; exact hcreated
  · show loader.usedCq ≠ none
    rw [hused]; exact Option.some_ne_none _
  · show (device.getD {}).regCqs _ = loader.usedCq
    rw [hused, hdevice]
    show ((S.device.getD {}).queued () _).1.regCqs _ = _
    rw [hreg, Function.update_self]

/-- **`loading` builds the adapter once**, and returns the same information
    every time. -/
theorem Facts.loading (h : Facts S l r t) (hl : l.loading S = some l') : Facts S l' r t ∧
    l'.loader.adapter.qp = l.loader.adapter.qp := by
  obtain ⟨device, loader, hload, rfl⟩ := RoundState.loading_some hl
  have hsent : ∀ i m, t[2 * i + 1]? = some m →
      ∃ a, (l.infos ++ [loader.adapter.self])[i]? = some a ∧ m = a.toBytes := by
    intro i m hm
    obtain ⟨a, ha, rfl⟩ := h.sentInfos i m hm
    have hi := (List.getElem?_eq_some_iff.1 ha).1
    exact ⟨a, by rw [List.getElem?_append_left hi]; exact ha, rfl⟩
  have hne : l.infos ++ [loader.adapter.self] ≠ [] := List.append_ne_nil_of_right_ne_nil _ (by simp)
  by_cases hnil : l.infos = []
  · obtain ⟨hbuilt, hqp⟩ := h.built_of_loading hnil hload
    refine ⟨⟨h.legal, fun he => absurd he hne, fun _ => hbuilt, ?_, hsent, h.rcvdInfos, ?_⟩, hqp⟩
    · intro i hi
      rw [hnil, List.nil_append, List.mem_singleton] at hi
      exact hi
    · show loader.adapter.qp.state = _ ∨ loader.adapter.qp.state = _ → _
      rw [hqp]; exact h.addressed
  · have hbuilt := h.built hnil
    rw [Loader.loading_again S.hca () l.device hbuilt.allocated] at hload
    obtain ⟨rfl, rfl⟩ := Prod.mk.inj (Except.ok.inj hload)
    refine ⟨⟨h.legal, fun he => absurd he hne, fun _ => hbuilt.congr rfl rfl rfl rfl rfl rfl, ?_,
      hsent, h.rcvdInfos, h.addressed⟩, rfl⟩
    · intro i hi
      rcases List.mem_append.1 hi with hi | hi
      · exact h.same i hi
      · exact List.mem_singleton.1 hi

/-- A change of the adapter that keeps its own information. -/
theorem Facts.adapter (h : Facts S l r t) (hne : l.infos ≠ []) {a : Adapter}
    {requests : List (QpState × QpState)} {connected : ℕ}
    (hself : a.self = l.loader.adapter.self)
    (halloc : a.resourceIsAllocated = l.loader.adapter.resourceIsAllocated)
    (hlegal : ∀ q ∈ requests, q.1.legal q.2 = true)
    (haddr : a.qp.state = .rtr ∨ a.qp.state = .rts → ∃ attr b, a.qp.attr = some attr ∧
      l.peerInfos.getLast? = some b ∧ attr.destQpNum = b.qpNum) :
    Facts S { l with loader.adapter := a, requests, connected } r t := by
  refine ⟨hlegal, fun he => absurd he hne, fun _ => ?_, ?_, h.sentInfos, h.rcvdInfos, haddr⟩
  · exact (h.built hne).congr rfl rfl rfl rfl halloc hself
  · intro i hi
    exact (h.same i hi).trans hself.symm

/-- The numbers of calls and returns do not matter. -/
theorem Facts.counted (h : Facts S l r t) (calls returns : ℕ) :
    Facts S { l with calls, returns } r t :=
  ⟨h.legal, h.fresh, fun hne => (h.built hne).congr rfl rfl rfl rfl rfl rfl, h.same, h.sentInfos,
    h.rcvdInfos, h.addressed⟩

/-- The information is sent as the message of the round. -/
theorem Facts.sendInfo (h : Facts S l r t) {k : ℕ} (ht : t.length = 2 * k + 1)
    (hi : l.infos.length = k + 1) : Facts S l r (t ++ [l.adaptInfo.toBytes]) := by
  refine ⟨h.legal, h.fresh, h.built, h.same, ?_, h.rcvdInfos, h.addressed⟩
  intro i m hm
  rcases Nat.lt_or_ge (2 * i + 1) t.length with hlt | hge
  · rw [List.getElem?_append_left hlt] at hm
    exact h.sentInfos i m hm
  · obtain rfl : i = k := by
      have := (List.getElem?_eq_some_iff.1 hm).1
      rw [List.length_append, List.length_singleton] at this
      omega
    rw [List.getElem?_append_right hge, ← ht, Nat.sub_self] at hm
    obtain rfl := Option.some.inj hm
    refine ⟨l.adaptInfo, ?_, rfl⟩
    have hk : i < l.infos.length := by omega
    rw [RoundState.adaptInfo, List.getLastD_eq_getLast?, List.getLast?_eq_getElem?, hi,
      Nat.add_sub_cancel, List.getElem?_eq_getElem hk]
    rfl

/-- Other messages are even. -/
theorem Facts.sendSync (h : Facts S l r t) {k : ℕ} (ht : t.length = 2 * k) (m : List UInt8) :
    Facts S l r (t ++ [m]) := by
  refine ⟨h.legal, h.fresh, h.built, h.same, ?_, h.rcvdInfos, h.addressed⟩
  intro i m' hm
  have hlt := (List.getElem?_eq_some_iff.1 hm).1
  rw [List.length_append, List.length_singleton] at hlt
  rw [List.getElem?_append_left (by omega)] at hm
  exact h.sentInfos i m' hm

/-- A message that is received. -/
theorem Facts.recv (h : Facts S l r t) (m : List UInt8) : Facts S l (r ++ [m]) t := by
  refine ⟨h.legal, h.fresh, h.built, h.same, h.sentInfos, ?_, h.addressed⟩
  intro i b hb
  obtain ⟨m', hm, rfl⟩ := h.rcvdInfos i b hb
  have hi := (List.getElem?_eq_some_iff.1 hm).1
  exact ⟨m', by rw [List.getElem?_append_left hi]; exact hm, rfl⟩

/-- The information of the peer is received as the message of the round. -/
theorem Facts.recvInfo (h : Facts S l r t) {k : ℕ} (hr : r.length = 2 * k + 1)
    (hp : l.peerInfos.length = k) (hqp : l.loader.adapter.qp.state = .reset) (m : List UInt8) :
    Facts S { l with peerInfos := l.peerInfos ++ [AdapterInfo.ofBytes m] } (r ++ [m]) t := by
  have hrecv := h.recv m
  refine ⟨h.legal, h.fresh, fun hne => (h.built hne).congr rfl rfl rfl rfl rfl rfl, h.same,
    h.sentInfos, ?_, ?_⟩
  · intro i b hb
    rcases Nat.lt_or_ge i l.peerInfos.length with hlt | hge
    · exact hrecv.rcvdInfos i b (by rw [← hb]; exact (List.getElem?_append_left hlt).symm)
    · rw [List.getElem?_append_right hge] at hb
      obtain rfl : i = k := by
        have := (List.getElem?_eq_some_iff.1 hb).1
        rw [List.length_singleton] at this
        omega
      rw [hp, Nat.sub_self] at hb
      obtain rfl := Option.some.inj hb
      exact ⟨m, by rw [← hr, List.getElem?_append_right (Nat.le_refl _), Nat.sub_self]; rfl, rfl⟩
  · intro hs
    rw [hqp] at hs
    rcases hs with hs | hs <;> cases hs

theorem RoundState.onAdapter_some {f : Adapter → Except Fault Adapter}
    (h : l.onAdapter f = some l') :
    ∃ a, f l.loader.adapter = .ok a ∧ l' = { l with loader.adapter := a } := by
  unfold RoundState.onAdapter at h
  cases hf : f l.loader.adapter with
  | error e => rw [hf] at h; cases h
  | ok a => rw [hf] at h; exact ⟨a, rfl, (Option.some.inj h).symm⟩

theorem RoundState.modifyQp_some {target : QpState} {f : Bool → Adapter → Except Fault Adapter}
    (h : l.modifyQp target f = some l') :
    ∃ a, f (l.loader.adapter.qp.state.legal target) l.loader.adapter = .ok a ∧
      l' = { l with
        loader.adapter := a
        requests := l.requests ++ [(l.loader.adapter.qp.state, target)] } := by
  unfold RoundState.modifyQp at h
  dsimp only at h
  split_ifs at h
  obtain ⟨a, ha, rfl⟩ := RoundState.onAdapter_some h
  exact ⟨a, ha, rfl⟩

/-- A legal request. -/
theorem Facts.legal_snoc (h : Facts S l r t) {q q' : QpState} (hq : q.legal q' = true) :
    ∀ p ∈ l.requests ++ [(q, q')], p.1.legal p.2 = true := by
  intro p hp
  rcases List.mem_append.1 hp with hp | hp
  · exact h.legal p hp
  · rw [List.mem_singleton.1 hp]; exact hq

theorem Facts.resetHca (h : Facts S l r t) (hne : l.infos ≠ []) (hl : l.resetHca = some l') :
    Facts S l' r t ∧ l'.loader.adapter.qp.state = .reset := by
  obtain ⟨a, ha, rfl⟩ := RoundState.modifyQp_some hl
  have hlegal : ∀ q : QpState, q.legal .reset = true := by
    intro q
    cases q <;> rfl
  rw [hlegal, Adapter.modifyQpToReset, if_pos rfl] at ha
  obtain rfl := Except.ok.inj ha
  refine ⟨h.adapter hne rfl rfl (h.legal_snoc (hlegal _)) ?_, rfl⟩
  rintro (hs | hs) <;> cases hs

theorem Facts.acceptPeer (h : Facts S l r t) (hne : l.infos ≠ [])
    (hqp : l.loader.adapter.qp.state = .reset)
    (hl : l.onAdapter (·.acceptPeer l.peerInfo) = some l') :
    Facts S l' r t ∧ l'.loader.adapter.qp.state = .reset ∧
      l'.loader.adapter.remote = l'.peerInfo := by
  obtain ⟨a, ha, rfl⟩ := RoundState.onAdapter_some hl
  obtain rfl := Adapter.acceptPeer_ok ha
  refine ⟨h.adapter hne rfl rfl h.legal ?_, hqp, rfl⟩
  rintro (hs | hs) <;> (rw [show _ = QpState.reset from hqp] at hs; cases hs)

theorem Facts.modifyQpToInit (h : Facts S l r t) (hne : l.infos ≠ [])
    (hqp : l.loader.adapter.qp.state = .reset)
    (hl : l.modifyQp .init (fun ok a => .ok (a.modifyQpToInit ok)) = some l') :
    Facts S l' r t ∧ l'.loader.adapter.qp.state = .init ∧
      l'.loader.adapter.remote = l.loader.adapter.remote := by
  obtain ⟨a, ha, rfl⟩ := RoundState.modifyQp_some hl
  rw [hqp, Adapter.modifyQpToInit_eq] at ha
  obtain rfl := Except.ok.inj ha
  refine ⟨h.adapter hne rfl rfl (h.legal_snoc (by rw [hqp]; rfl)) ?_, rfl, rfl⟩
  rintro (hs | hs) <;> cases hs

/-- The queue pair is addressed to the adapter whose information was received. -/
theorem Facts.modifyQpToRtr (h : Facts S l r t) (hne : l.infos ≠ []) (hpeer : l.peerInfos ≠ [])
    (hqp : l.loader.adapter.qp.state = .init) (hrem : l.loader.adapter.remote = l.peerInfo)
    (hl : l.modifyQp .rtr Adapter.modifyQpToRtr = some l') :
    Facts S l' r t ∧ l'.loader.adapter.qp.state = .rtr := by
  obtain ⟨a, ha, rfl⟩ := RoundState.modifyQp_some hl
  rw [hqp] at ha
  obtain ⟨attr, hattr, rfl⟩ := Adapter.modifyQpToRtr_ok ha
  obtain ⟨-, hdest, -, -⟩ := Adapter.rtrAttrOf_ok hattr
  refine ⟨h.adapter hne rfl rfl (h.legal_snoc (by rw [hqp]; rfl)) ?_, rfl⟩
  intro _
  refine ⟨attr, l.peerInfo, rfl, ?_, by rw [hdest, hrem]⟩
  rw [RoundState.peerInfo, List.getLastD_eq_getLast?, List.getLast?_eq_some_getLast hpeer]
  rfl

theorem Facts.modifyQpToRts (h : Facts S l r t) (hne : l.infos ≠ [])
    (hqp : l.loader.adapter.qp.state = .rtr)
    (hl : l.modifyQp .rts (fun ok a => .ok (a.modifyQpToRts ok)) = some l') :
    Facts S l' r t ∧ l'.loader.adapter.qp.state = .rts := by
  obtain ⟨a, ha, rfl⟩ := RoundState.modifyQp_some hl
  rw [hqp, Adapter.modifyQpToRts_eq] at ha
  obtain rfl := Except.ok.inj ha
  refine ⟨h.adapter hne rfl rfl (h.legal_snoc (by rw [hqp]; rfl)) ?_, rfl⟩
  intro _
  exact h.addressed (Or.inl hqp)

end

/-! ## Rounds -/

/-- How far an endpoint has come. -/
structure Stage where
  calls : ℕ
  infos : ℕ
  peers : ℕ
  connected : ℕ
  returns : ℕ
  rcvd : ℕ
  sent : ℕ
  state : QpState

namespace Stage

def of (l : RoundState) (r t : List (List UInt8)) : Stage :=
  ⟨l.calls, l.infos.length, l.peerInfos.length, l.connected, l.returns, r.length, t.length,
    l.loader.adapter.qp.state⟩

/-- Between two calls. -/
def idle (k : ℕ) : Stage := ⟨k, k, k, k, k, 2 * k + 1, 2 * k + 1, if k = 0 then .reset else .rts⟩

/-- In the next call, before `loading`. -/
def begun (k : ℕ) : Stage := ⟨k + 1, k, k, k, k, 2 * k + 1, 2 * k + 1, .reset⟩

/-- What the numbers of an endpoint tell its peer. -/
structure Fits (p : Stage) : Prop where
  returned : p.returns = 0 ∨ 2 * p.returns + 1 ≤ p.rcvd
  told : p.sent ≤ 2 * p.connected + 2
  heard : p.connected ≤ p.peers
  idle : p.calls = p.returns → 0 < p.returns → p.state = .rts

end Stage

/-- An endpoint at a stage. -/
structure At (S : ReconnectSetup) (p : Stage) (l : RoundState) (r t : List (List UInt8)) :
    Prop where
  facts : Facts S l r t
  stage : Stage.of l r t = p

/-- It has taken over the information of its peer. -/
structure Accepted (S : ReconnectSetup) (p : Stage) (l : RoundState) (r t : List (List UInt8)) :
    Prop extends At S p l r t where
  remote : l.loader.adapter.remote = l.peerInfo

/-- What holds at all stages. -/
structure Aligned (S : ReconnectSetup) (l : RoundState) (r t : List (List UInt8)) : Prop where
  facts : Facts S l r t
  fits : (Stage.of l r t).Fits

section
variable {S : ReconnectSetup} {l l' : RoundState} {r t : List (List UInt8)} {p : Stage}

theorem At.aligned (hp : p.Fits) : ∀ l r t, At S p l r t → Aligned S l r t :=
  fun _ _ _ h => ⟨h.facts, by rw [h.stage]; exact hp⟩

theorem Accepted.aligned (hp : p.Fits) : ∀ l r t, Accepted S p l r t → Aligned S l r t :=
  fun l r t h => At.aligned hp l r t h.toAt

/-- Every stage of a round fits. -/
theorem Stage.fits_mk {k infos peers connected returns rcvd sent : ℕ} {state : QpState}
    (hk : returns ≤ k) (hr : 2 * returns + 1 ≤ rcvd) (ht : sent ≤ 2 * connected + 2)
    (hp : connected ≤ peers) :
    Stage.Fits ⟨k + 1, infos, peers, connected, returns, rcvd, sent, state⟩ :=
  ⟨Or.inr hr, ht, hp, fun h _ => by simp only at h; omega⟩

theorem Stage.fits_idle (k : ℕ) : (Stage.idle k).Fits := by
  refine ⟨Or.inr (Nat.le_refl _), ?_, Nat.le_refl _, fun _ hk => ?_⟩
  · show 2 * k + 1 ≤ 2 * k + 2
    omega
  · exact if_neg (Nat.pos_iff_ne_zero.1 hk)

theorem leads_beginCall (k : ℕ) :
    beginCall.Leads (At S (.idle k)) (At S { Stage.idle k with calls := k + 1 }) := by
  intro l r t l' hl h
  obtain rfl := Option.some.inj hl
  refine ⟨h.facts.counted _ _, ?_⟩
  obtain ⟨hc, hi, hp, hcn, hrt, hr, ht, hq⟩ := Stage.mk.inj h.stage
  simp only [Stage.of, hc, hi, hp, hcn, hrt, hr, ht, hq, Stage.idle]

theorem At.infos_ne_nil (h : At S p l r t) (hp : 0 < p.infos) : l.infos ≠ [] := by
  have hi : l.infos.length = p.infos := congrArg Stage.infos h.stage
  exact List.ne_nil_of_length_pos (by rw [hi]; exact hp)

/-- A step that changes the queue pair only. -/
theorem At.of_state (h : At S p l r t) (hfacts : Facts S l' r t) {q : QpState}
    (hq : l'.loader.adapter.qp.state = q) (hc : l'.calls = l.calls) (hi : l'.infos = l.infos)
    (hp : l'.peerInfos = l.peerInfos) (hn : l'.connected = l.connected)
    (hr : l'.returns = l.returns) : At S { p with state := q } l' r t := by
  refine ⟨hfacts, ?_⟩
  rw [← h.stage, Stage.of, hc, hi, hp, hn, hr, hq]
  rfl

theorem leads_resetHca (k : ℕ) : (Instr.exec RoundState.resetHca).Leads
    (At S { Stage.idle (k + 1) with calls := k + 2 }) (At S (.begun (k + 1))) := by
  intro l r t l' hl h
  obtain ⟨hfacts, hstate⟩ := h.facts.resetHca (h.infos_ne_nil (Nat.succ_pos k)) hl
  obtain ⟨a, -, rfl⟩ := RoundState.modifyQp_some hl
  exact h.of_state hfacts hstate rfl rfl rfl rfl rfl

section
variable {k : ℕ}

theorem leads_loading : (Instr.exec (RoundState.loading S)).Leads (At S (.begun k))
    (At S ⟨k + 1, k + 1, k, k, k, 2 * k + 1, 2 * k + 1, .reset⟩) := by
  intro l r t l' hl h
  obtain ⟨hfacts, hqp⟩ := h.facts.loading hl
  obtain ⟨device, loader, -, rfl⟩ := RoundState.loading_some hl
  refine ⟨hfacts, ?_⟩
  obtain ⟨hc, hi, hp, hcn, hrt, hr, ht, hq⟩ := Stage.mk.inj h.stage
  rw [← hqp] at hq
  simp only [Stage.of, List.length_append, List.length_singleton, hc, hi, hp, hcn, hrt, hr, ht]
  exact congrArg _ hq

theorem leads_sendInfo : (Instr.send AdapterInfo.size (fun l : RoundState => l.adaptInfo.toBytes)
      (fun _ => AdapterInfo.length_toBytes _)).Leads
    (At S ⟨k + 1, k + 1, k, k, k, 2 * k + 1, 2 * k + 1, .reset⟩)
    (At S ⟨k + 1, k + 1, k, k, k, 2 * k + 1, 2 * k + 2, .reset⟩) := by
  intro l r t h
  obtain ⟨hc, hi, hp, hcn, hrt, hr, ht, hq⟩ := Stage.mk.inj h.stage
  refine ⟨h.facts.sendInfo ht hi, ?_⟩
  simp only [Stage.of, List.length_append, List.length_singleton, hc, hi, hp, hcn, hrt, hr, ht, hq]

theorem leads_recvInfo : (Instr.recv AdapterInfo.size fun (l : RoundState) m =>
      { l with peerInfos := l.peerInfos ++ [AdapterInfo.ofBytes m] }).Leads
    (At S ⟨k + 1, k + 1, k, k, k, 2 * k + 1, 2 * k + 2, .reset⟩)
    (At S ⟨k + 1, k + 1, k + 1, k, k, 2 * k + 2, 2 * k + 2, .reset⟩) := by
  intro l r t m _ h
  obtain ⟨hc, hi, hp, hcn, hrt, hr, ht, hq⟩ := Stage.mk.inj h.stage
  refine ⟨h.facts.recvInfo hr hp hq m, ?_⟩
  simp only [Stage.of, List.length_append, List.length_singleton, hc, hi, hp, hcn, hrt, hr, ht, hq]

theorem leads_acceptPeer :
    (Instr.exec fun l : RoundState => l.onAdapter (·.acceptPeer l.peerInfo)).Leads
    (At S ⟨k + 1, k + 1, k + 1, k, k, 2 * k + 2, 2 * k + 2, .reset⟩)
    (Accepted S ⟨k + 1, k + 1, k + 1, k, k, 2 * k + 2, 2 * k + 2, .reset⟩) := by
  intro l r t l' hl h
  have hq : l.loader.adapter.qp.state = .reset := congrArg Stage.state h.stage
  obtain ⟨hfacts, hstate, hrem⟩ := h.facts.acceptPeer (h.infos_ne_nil (Nat.succ_pos k)) hq hl
  obtain ⟨a, -, rfl⟩ := RoundState.onAdapter_some hl
  exact ⟨h.of_state hfacts hstate rfl rfl rfl rfl rfl, hrem⟩

theorem leads_modifyQpToInit :
    (Instr.exec (RoundState.modifyQp .init fun ok a => .ok (a.modifyQpToInit ok))).Leads
    (Accepted S ⟨k + 1, k + 1, k + 1, k, k, 2 * k + 2, 2 * k + 2, .reset⟩)
    (Accepted S ⟨k + 1, k + 1, k + 1, k, k, 2 * k + 2, 2 * k + 2, .init⟩) := by
  intro l r t l' hl h
  have hq : l.loader.adapter.qp.state = .reset := congrArg Stage.state h.stage
  obtain ⟨hfacts, hstate, hrem⟩ := h.facts.modifyQpToInit (h.infos_ne_nil (Nat.succ_pos k)) hq hl
  obtain ⟨a, -, rfl⟩ := RoundState.modifyQp_some hl
  exact ⟨h.of_state hfacts hstate rfl rfl rfl rfl rfl, hrem.trans h.remote⟩

theorem leads_modifyQpToRtr : (Instr.exec (RoundState.modifyQp .rtr Adapter.modifyQpToRtr)).Leads
    (Accepted S ⟨k + 1, k + 1, k + 1, k, k, 2 * k + 2, 2 * k + 2, .init⟩)
    (At S ⟨k + 1, k + 1, k + 1, k, k, 2 * k + 2, 2 * k + 2, .rtr⟩) := by
  intro l r t l' hl h
  have hq : l.loader.adapter.qp.state = .init := congrArg Stage.state h.stage
  have hp : l.peerInfos.length = k + 1 := congrArg Stage.peers h.stage
  obtain ⟨hfacts, hstate⟩ := h.facts.modifyQpToRtr (h.infos_ne_nil (Nat.succ_pos k))
    (List.ne_nil_of_length_eq_add_one hp) hq h.remote hl
  obtain ⟨a, -, rfl⟩ := RoundState.modifyQp_some hl
  exact h.of_state hfacts hstate rfl rfl rfl rfl rfl

theorem leads_modifyQpToRts :
    (Instr.exec (RoundState.modifyQp .rts fun ok a => .ok (a.modifyQpToRts ok))).Leads
    (At S ⟨k + 1, k + 1, k + 1, k, k, 2 * k + 2, 2 * k + 2, .rtr⟩)
    (At S ⟨k + 1, k + 1, k + 1, k, k, 2 * k + 2, 2 * k + 2, .rts⟩) := by
  intro l r t l' hl h
  have hq : l.loader.adapter.qp.state = .rtr := congrArg Stage.state h.stage
  obtain ⟨hfacts, hstate⟩ := h.facts.modifyQpToRts (h.infos_ne_nil (Nat.succ_pos k)) hq hl
  obtain ⟨a, -, rfl⟩ := RoundState.modifyQp_some hl
  exact h.of_state hfacts hstate rfl rfl rfl rfl rfl

theorem leads_connected : (Instr.exec fun l : RoundState => some { l with
      loader.adapter.status := .connecting, connected := l.connected + 1 }).Leads
    (At S ⟨k + 1, k + 1, k + 1, k, k, 2 * k + 2, 2 * k + 2, .rts⟩)
    (At S ⟨k + 1, k + 1, k + 1, k + 1, k, 2 * k + 2, 2 * k + 2, .rts⟩) := by
  intro l r t l' hl h
  obtain rfl := Option.some.inj hl
  refine ⟨h.facts.adapter (h.infos_ne_nil (Nat.succ_pos k)) rfl rfl h.facts.legal
    h.facts.addressed, ?_⟩
  obtain ⟨hc, hi, hp, hcn, hrt, hr, ht, hq⟩ := Stage.mk.inj h.stage
  simp only [Stage.of, hc, hi, hp, hcn, hrt, hr, ht, hq]

/-- A `Q` is sent after an even number of messages. -/
theorem leads_sendSync {calls infos peers connected returns rcvd : ℕ} {state : QpState} (n : ℕ) :
    (Instr.send 1 (fun _ : RoundState => [81]) (fun _ => rfl)).Leads
    (At S ⟨calls, infos, peers, connected, returns, rcvd, 2 * n, state⟩)
    (At S ⟨calls, infos, peers, connected, returns, rcvd, 2 * n + 1, state⟩) := by
  intro l r t h
  obtain ⟨hc, hi, hp, hcn, hrt, hr, ht, hq⟩ := Stage.mk.inj h.stage
  refine ⟨h.facts.sendSync ht _, ?_⟩
  simp only [Stage.of, List.length_append, List.length_singleton, hc, hi, hp, hcn, hrt, hr, ht, hq]

theorem leads_returned : (Instr.recv 1 fun (l : RoundState) _ =>
      { l with returns := l.returns + 1 }).Leads
    (At S ⟨k + 1, k + 1, k + 1, k + 1, k, 2 * k + 2, 2 * k + 3, .rts⟩)
    (At S (.idle (k + 1))) := by
  intro l r t m _ h
  refine ⟨(h.facts.recv m).counted _ _, ?_⟩
  obtain ⟨hc, hi, hp, hcn, hrt, hr, ht, hq⟩ := Stage.mk.inj h.stage
  simp only [Stage.of, List.length_append, List.length_singleton, hc, hi, hp, hcn, hrt, hr, ht, hq,
    Stage.idle, if_neg (Nat.succ_ne_zero k)]
  rfl

/-- **The stages of a round**, in order. -/
theorem outline_connectingRound (S : ReconnectSetup) (k : ℕ) :
    Outline (Aligned S) (At S (.begun k)) (connectingRound S) (At S (.idle (k + 1))) := by
  have hfit : ∀ {infos peers connected rcvd sent : ℕ} {state : QpState},
      2 * k + 1 ≤ rcvd → sent ≤ 2 * connected + 2 → connected ≤ peers →
      Stage.Fits ⟨k + 1, infos, peers, connected, k, rcvd, sent, state⟩ :=
    fun hr ht hp => Stage.fits_mk (Nat.le_refl k) hr ht hp
  have hbegun : (Stage.begun k).Fits :=
    hfit (Nat.le_refl _) (Nat.le_succ (2 * k + 1)) (Nat.le_refl k)
  refine .cons (At.aligned hbegun) leads_loading ?_
  refine .cons (At.aligned (hfit (by omega) (by omega) (by omega))) leads_sendInfo ?_
  refine .cons (At.aligned (hfit (by omega) (by omega) (by omega))) leads_recvInfo ?_
  refine .cons (At.aligned (hfit (by omega) (by omega) (by omega))) leads_acceptPeer ?_
  refine .cons (Accepted.aligned (hfit (by omega) (by omega) (by omega))) leads_modifyQpToInit ?_
  refine .cons (Accepted.aligned (hfit (by omega) (by omega) (by omega))) leads_modifyQpToRtr ?_
  refine .cons (At.aligned (hfit (by omega) (by omega) (by omega))) leads_modifyQpToRts ?_
  refine .cons (At.aligned (hfit (by omega) (by omega) (by omega))) leads_connected ?_
  refine .cons (At.aligned (hfit (by omega) (by omega) (by omega))) (leads_sendSync (k + 1)) ?_
  refine .cons (At.aligned (hfit (by omega) (by omega) (by omega))) leads_returned ?_
  exact .nil (At.aligned (Stage.fits_idle (k + 1)))

end

/-- The exchange of the constructor. -/
theorem outline_constructor (S : ReconnectSetup) :
    Outline (Aligned S) (At S ⟨0, 0, 0, 0, 0, 0, 0, .reset⟩) (syncThen id) (At S (.idle 0)) := by
  have hfit : ∀ {sent : ℕ}, sent ≤ 2 → Stage.Fits ⟨0, 0, 0, 0, 0, 0, sent, .reset⟩ :=
    fun h => ⟨Or.inl rfl, h, Nat.le_refl 0, fun _ h => absurd h (Nat.lt_irrefl 0)⟩
  refine .cons (At.aligned (hfit (Nat.zero_le 2))) (leads_sendSync 0) ?_
  refine .cons (Q := At S (.idle 0)) (At.aligned (hfit (Nat.le_succ 1))) ?_
    (.nil (At.aligned (Stage.fits_idle 0)))
  intro l r t m _ h
  refine ⟨h.facts.recv m, ?_⟩
  obtain ⟨hc, hi, hp, hcn, hrt, hr, ht, hq⟩ := Stage.mk.inj h.stage
  simp only [Stage.of, id, List.length_append, List.length_singleton, hc, hi, hp, hcn, hrt, hr, ht,
    hq]
  rfl

theorem Stage.fits_called (k : ℕ) : ({ Stage.idle k with calls := k + 1 } : Stage).Fits :=
  Stage.fits_mk (Nat.le_refl k) (Nat.le_refl _) (Nat.le_succ (2 * k + 1)) (Nat.le_refl k)

/-- Any number of rounds. -/
theorem outline_reconnectCode (S : ReconnectSetup) (n : ℕ) :
    Outline (Aligned S) (At S ⟨0, 0, 0, 0, 0, 0, 0, .reset⟩) (reconnectCode S n)
      (At S (.idle (n + 1))) := by
  have hfirst : Outline (Aligned S) (At S (.idle 0)) (beginCall :: connectingRound S)
      (At S (.idle 1)) :=
    .cons (At.aligned (Stage.fits_idle 0)) (leads_beginCall 0) (outline_connectingRound S 0)
  have hreset : ∀ k, Outline (Aligned S) (At S (.idle (k + 1)))
      (beginCall :: .exec RoundState.resetHca :: connectingRound S) (At S (.idle (k + 2))) := by
    intro k
    refine .cons (At.aligned (Stage.fits_idle (k + 1))) (leads_beginCall (k + 1)) ?_
    refine .cons (At.aligned (Stage.fits_called (k + 1))) (leads_resetHca k) ?_
    exact outline_connectingRound S (k + 1)
  have hresets := Outline.replicate (P := fun k => At S (.idle (k + 1))) hreset
    (fun k => At.aligned (Stage.fits_idle (k + 1))) 0 n
  simp only [Nat.zero_add] at hresets
  exact ((outline_constructor S).append hfirst).append hresets

end

/-! ## Two endpoints -/

/-- Two endpoints that connect and reset: the requests are legal, each adapter
    is built once and always returns the same information, the rounds are paired,
    and the queue pairs are connected to each other whenever both sides have
    returned from the same round. -/
structure Reconnected (S : Bool → ReconnectSetup) (s : State RoundState) : Prop where
  legal : ∀ x, ∀ q ∈ (s.party x).loc.requests, q.1.legal q.2 = true
  unbuilt : ∀ x, (s.party x).loc.infos = [] → (s.party x).loc.device = (S x).device
  built : ∀ x, (s.party x).loc.infos ≠ [] → Built (S x) (s.party x).loc
  same : ∀ x, ∀ i ∈ (s.party x).loc.infos, ∀ j ∈ (s.party x).loc.infos, i = j
  /-- The information received in a round is the one sent in this round. -/
  paired : ∀ x, (s.party x).loc.peerInfos <+: (s.party (!x)).loc.infos
  inStep : ∀ x, (s.party x).loc.returns ≤ (s.party (!x)).loc.connected ∧
    (s.party x).loc.connected ≤ (s.party (!x)).loc.infos.length
  connected : ∀ i, 0 < i → (∀ x, (s.party x).loc.calls = i ∧ (s.party x).loc.returns = i) →
    ∀ x, (s.party x).loc.loader.adapter.qp.state = .rts ∧
      ∃ attr n, (s.party x).loc.loader.adapter.qp.attr = some attr ∧
        (s.party (!x)).loc.loader.qp = some n ∧ attr.destQpNum = UInt32.ofNat n

section
variable {S : Bool → ReconnectSetup} {n : ℕ} {s : State RoundState}

theorem endPointRounds_aligned (h : Lts.Reachable Duplex.step (endPointRounds S n) s) (x : Bool) :
    Aligned (S x) (s.party x).loc (s.party x).rcvd (s.party x).sent :=
  (outline_reconnectCode (S x) n).reachable ⟨facts_init (S x), rfl⟩ h

/-- The sizes of the messages of all rounds. -/
def roundSizes (n : ℕ) : List ℕ :=
  [1, AdapterInfo.size, 1] ++ (List.replicate n [AdapterInfo.size, 1]).flatten

theorem sizes_reconnectCode (S : ReconnectSetup) (n : ℕ) :
    sendSizes (reconnectCode S n) = roundSizes n ∧
      recvSizes (reconnectCode S n) = roundSizes n := by
  unfold reconnectCode
  rw [sendSizes_append, sendSizes_replicate, recvSizes_append, recvSizes_replicate]
  exact ⟨rfl, rfl⟩

/-- What a side has received its peer has sent. -/
theorem endPointRounds_framing (h : Lts.Reachable Duplex.step (endPointRounds S n) s) (x : Bool) :
    (s.party (!x)).rcvd <+: (s.party x).sent := by
  refine rcvd_prefix_sent (fun x => ?_) (fun x k hk => ?_) h x
  · rw [(sizes_reconnectCode _ n).2, (sizes_reconnectCode _ n).1]
  · rw [(sizes_reconnectCode _ n).1] at hk
    simp only [roundSizes, AdapterInfo.size, List.mem_append, List.mem_flatten,
      List.mem_replicate] at hk
    rcases hk with hk | ⟨l, ⟨-, rfl⟩, hk⟩
    · simp only [List.mem_cons, List.not_mem_nil, or_false] at hk
      omega
    · simp only [List.mem_cons, List.not_mem_nil, or_false] at hk
      omega

/-- The information received in a round is what the peer sent in it. -/
theorem peerInfos_isPrefix (h : Lts.Reachable Duplex.step (endPointRounds S n) s) (x : Bool) :
    (s.party x).loc.peerInfos <+: (s.party (!x)).loc.infos := by
  obtain ⟨rest, hrest⟩ := endPointRounds_framing h (!x)
  rw [Bool.not_not] at hrest
  rw [List.prefix_iff_getElem?]
  intro i hi
  obtain ⟨m, hm, hb⟩ := (endPointRounds_aligned h x).facts.rcvdInfos i _
    (List.getElem?_eq_getElem hi)
  have hlt := (List.getElem?_eq_some_iff.1 hm).1
  have hsent : (s.party (!x)).sent[2 * i + 1]? = some m := by
    rw [← hrest, List.getElem?_append_left hlt]; exact hm
  obtain ⟨a, ha, rfl⟩ := (endPointRounds_aligned h (!x)).facts.sentInfos i m hsent
  rw [ha, hb, AdapterInfo.ofBytes_toBytes]

/-- A side that has returned from a round has met its peer in it. -/
theorem rounds_inStep (h : Lts.Reachable Duplex.step (endPointRounds S n) s) (x : Bool) :
    (s.party x).loc.returns ≤ (s.party (!x)).loc.connected ∧
      (s.party x).loc.connected ≤ (s.party (!x)).loc.infos.length := by
  have hx := (endPointRounds_aligned h x).fits
  have hy := (endPointRounds_aligned h (!x)).fits
  have hlen := (endPointRounds_framing h (!x)).length_le
  rw [Bool.not_not] at hlen
  constructor
  · -- its last `Q` was sent after the peer had connected
    have hreturned := hx.returned
    have htold := hy.told
    simp only [Stage.of] at hreturned htold
    omega
  · exact hx.heard.trans (peerInfos_isPrefix h x).length_le

/-- A side between two rounds is connected to its peer. -/
theorem connected_of_idle (h : Lts.Reachable Duplex.step (endPointRounds S n) s) {x : Bool}
    (hidle : (s.party x).loc.calls = (s.party x).loc.returns) (hpos : 0 < (s.party x).loc.returns) :
    (s.party x).loc.loader.adapter.qp.state = .rts ∧
      ∃ attr n, (s.party x).loc.loader.adapter.qp.attr = some attr ∧
        (s.party (!x)).loc.loader.qp = some n ∧ attr.destQpNum = UInt32.ofNat n := by
  have hx := endPointRounds_aligned h x
  have hy := endPointRounds_aligned h (!x)
  have hstate := hx.fits.idle hidle hpos
  obtain ⟨attr, b, hattr, hb, hdest⟩ := hx.facts.addressed (Or.inr hstate)
  -- the last information is one that the peer has sent
  have hmem : b ∈ (s.party (!x)).loc.infos :=
    (peerInfos_isPrefix h x).subset (List.mem_of_getLast? hb)
  have hbuilt := hy.facts.built (List.ne_nil_of_mem hmem)
  exact ⟨hstate, attr, _, hattr, hbuilt.qp, by rw [hdest, hy.facts.same b hmem]; exact hbuilt.qpNum⟩

/-- **Reconnecting after a reset**, for any number of rounds and any
    interleaving of the two sides. -/
theorem reconnected_of_rounds (S : Bool → ReconnectSetup) (n : ℕ) {s : State RoundState}
    (h : Lts.Reachable Duplex.step (endPointRounds S n) s) : Reconnected S s where
  legal x := (endPointRounds_aligned h x).facts.legal
  unbuilt x hnil := ((endPointRounds_aligned h x).facts.fresh hnil).1
  built x := (endPointRounds_aligned h x).facts.built
  same x i hi j hj := by
    have hsame := (endPointRounds_aligned h x).facts.same
    rw [hsame i hi, hsame j hj]
  paired := peerInfos_isPrefix h
  inStep := rounds_inStep h
  connected i hi hall x := by
    obtain ⟨hc, hr⟩ := hall x
    exact connected_of_idle h (hc.trans hr.symm) (by rw [hr]; exact hi)

end

/-- A RoCE endpoint; its device has numbered some queue pairs already. -/
def reconnectPair (x : Bool) : ReconnectSetup where
  endpoint :=
    ⟨⟨⟨10, 0, 0, if x then 1 else 2⟩, 2020, ⟨10, 0, 0, if x then 2 else 1⟩, 2020⟩, "node", "0"⟩
  config := { cqKey := "SharedCQ@node@0" }
  hca :=
    { ports := [⟨linkLayerEthernet, .mtu1024, 7⟩], gid := fun _ _ => Vector.replicate 16 1 }
  device := some { qps := if x then 11 else 12 }

/-- Both sides in lockstep, through `connecting` and two resets. -/
def threeRounds : List Act :=
  [[0, 1, 0, 0, 0, AdapterInfo.size, 0, 0, 0, 0, 0, 0, 1],
    [0, 0, 0, 0, AdapterInfo.size, 0, 0, 0, 0, 0, 0, 1],
    [0, 0, 0, 0, AdapterInfo.size, 0, 0, 0, 0, 0, 0, 1]].flatten.flatMap fun n =>
      [⟨true, n⟩, ⟨false, n⟩]

theorem reconnected_threeRounds : ∃ s,
    Lts.Reachable Duplex.step (endPointRounds reconnectPair 2) s ∧
      (∀ x, (s.party x).loc.returns = 3) ∧ Reconnected reconnectPair s ∧
      ∀ x, (s.party x).loc.loader.adapter.qp.state = .rts := by
  have h : (Lts.run Duplex.step (endPointRounds reconnectPair 2) threeRounds).any
      (fun s => decide (∀ x, (s.party x).loc.calls = 3 ∧ (s.party x).loc.returns = 3)) = true := by
    decide +kernel
  obtain ⟨s, hs, hp⟩ := Lts.Reachable.of_any h
  have hall := of_decide_eq_true hp
  have hrec := reconnected_of_rounds reconnectPair 2 hs
  exact ⟨s, hs, fun x => (hall x).2, hrec, fun x => (hrec.connected 3 (by decide) hall x).1⟩

end RdmaCore

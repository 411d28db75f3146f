/-
  Framing on the TCP connection (`TCPConnector::sock_sync_data`, `send_data`
  and `recv_data_force` in src/tcp_connector.cc).

  Two peers call `sock_sync_data` one call after the other.  A step is one
  call of `send` or `recv`, or the return; `recv` stores what it gets where
  `data_placeholder + total_read_bytes` points.  The log of a peer holds, for
  every call that has returned, its value, the bytes then at `remote_data`
  and the number of bytes then read from the connection.

  * `SyncInv`: what a peer has read is a prefix of what the other has sent,
    and it is cut at the sizes of the calls;
  * `exists_step`: as long as a call is left, one of the peers can go on.
-/
import RdmaCore.Lib.Bytes
import RdmaCore.Lib.Lts
import Mathlib.Algebra.BigOperators.Group.List.Lemmas
import Mathlib.Algebra.Order.BigOperators.Group.List
import Mathlib.Logic.Function.Basic

namespace RdmaCore

/-- The arguments of `sock_sync_data`: the bytes at `local_data`, which are
    `xfer_size` many, and the address `remote_data`. -/
structure SyncCall where
  localData : List UInt8
  remoteData : ℕ

/-- `xfer_size` -/
def SyncCall.xferSize (c : SyncCall) : ℕ := c.localData.length

/-- The variables of `recv_data_force`, and `write_msg` of its caller. -/
structure RecvDataForce where
  msgSize : ℕ
  dataPlaceholder : ℕ
  totalReadBytes : ℕ := 0
  writeMsg : ℕ

/-- What a call leaves behind when it returns. -/
structure SyncReturn where
  value : ℤ
  remoteData : List UInt8
  consumed : ℕ

/-- A peer: the calls still to be made, and the one it is in. -/
structure SyncPeer where
  todo : List SyncCall
  mem : ByteMem
  current : Option RecvDataForce := none
  sent : List (List UInt8) := []
  /-- all bytes that `recv` has returned -/
  taken : List UInt8 := []
  returns : List SyncReturn := []

structure SyncState where
  peer : Bool → SyncPeer
  /-- what a side has sent and the other has not read -/
  wire : Bool → List UInt8 := fun _ => []

/-- A side goes on; if it calls `recv`, it gets `chunk` bytes. -/
structure SyncAct where
  side : Bool
  chunk : ℕ := 0

namespace SyncState

def init (calls : Bool → List SyncCall) (mem : Bool → ByteMem) : SyncState where
  peer := fun x => { todo := calls x, mem := mem x }

def step (s : SyncState) (a : SyncAct) : Option SyncState :=
  let p := s.peer a.side
  match p.current with
  | none =>
    match p.todo with
    | [] => none
    | c :: todo => some
      { peer := Function.update s.peer a.side { p with
          todo
          current := some
            { msgSize := c.xferSize, dataPlaceholder := c.remoteData, writeMsg := c.xferSize }
          sent := p.sent ++ [c.localData] }
        wire := Function.update s.wire a.side (s.wire a.side ++ c.localData) }
  | some r =>
    if r.totalReadBytes < r.msgSize then
      let arrived := s.wire (!a.side)
      -- `recv` blocks until there is something to read
      if 0 < a.chunk ∧ a.chunk ≤ arrived.length ∧ a.chunk ≤ r.msgSize - r.totalReadBytes then some
        { peer := Function.update s.peer a.side { p with
            mem := p.mem.write (r.dataPlaceholder + r.totalReadBytes) (arrived.take a.chunk)
            current := some { r with totalReadBytes := r.totalReadBytes + a.chunk }
            taken := p.taken ++ arrived.take a.chunk }
          wire := Function.update s.wire (!a.side) (arrived.drop a.chunk) }
      else none
    else some
      { s with peer := Function.update s.peer a.side { p with
          current := none
          returns := p.returns ++ [{
            value := (r.totalReadBytes : ℤ) - r.writeMsg
            remoteData := p.mem.read r.dataPlaceholder r.msgSize
            consumed := p.taken.length }] } }

end SyncState

/-! ## One peer -/

/-- The bytes of the first `i` calls. -/
def syncOffset (sizes : List ℕ) (i : ℕ) : ℕ := (sizes.take i).sum

theorem syncOffset_succ {sizes : List ℕ} {i n : ℕ} (h : sizes[i]? = some n) :
    syncOffset sizes (i + 1) = syncOffset sizes i + n := by
  obtain ⟨hi, rfl⟩ := List.getElem?_eq_some_iff.1 h
  rw [syncOffset, syncOffset, List.sum_take_succ _ _ hi]

theorem syncOffset_mono (sizes : List ℕ) {i j : ℕ} (h : i ≤ j) :
    syncOffset sizes i ≤ syncOffset sizes j :=
  (List.take_sublist_take_left h).sum_le_sum fun _ _ => Nat.zero_le _

/-- A peer whose calls have the given sizes, and the stream it has read, cut at
    these sizes. -/
structure PeerInv (sizes : List ℕ) (calls : List SyncCall) (p : SyncPeer) : Prop where
  made : ∃ done, calls = done ++ p.todo ∧ p.sent = done.map (·.localData) ∧
    done.length = p.returns.length + p.current.toList.length
  taken : p.taken.length =
    syncOffset sizes p.returns.length + p.current.elim 0 (·.totalReadBytes)
  /-- The loop has stored what it has read. -/
  current : ∀ r, p.current = some r → r.writeMsg = r.msgSize ∧ r.totalReadBytes ≤ r.msgSize ∧
    sizes[p.returns.length]? = some r.msgSize ∧
    p.mem.read r.dataPlaceholder r.totalReadBytes =
      p.taken.drop (syncOffset sizes p.returns.length)
  returns : ∀ i r, p.returns[i]? = some r → r.value = 0 ∧
    r.consumed = syncOffset sizes (i + 1) ∧
    r.remoteData = (p.taken.take (syncOffset sizes (i + 1))).drop (syncOffset sizes i)

theorem peerInv_init (sizes : List ℕ) (calls : List SyncCall) (mem : ByteMem) :
    PeerInv sizes calls { todo := calls, mem } where
  made := ⟨[], rfl, rfl, rfl⟩
  taken := rfl
  current r h := by cases h
  returns i r h := by cases h

section
variable {sizes : List ℕ} {calls : List SyncCall} {p : SyncPeer}

/-- A call starts. -/
theorem PeerInv.send (h : PeerInv sizes calls p) (hsizes : calls.map (·.xferSize) = sizes)
    {c : SyncCall} {todo : List SyncCall} (hcur : p.current = none) (htodo : p.todo = c :: todo) :
    PeerInv sizes calls { p with
      todo
      current := some
        { msgSize := c.xferSize, dataPlaceholder := c.remoteData, writeMsg := c.xferSize }
      sent := p.sent ++ [c.localData] } := by
  obtain ⟨done, hcalls, hsent, hlen⟩ := h.made
  have htaken := h.taken
  rw [hcur] at hlen htaken
  replace hlen : done.length = p.returns.length := hlen
  replace htaken : p.taken.length = syncOffset sizes p.returns.length := htaken
  refine ⟨⟨done ++ [c], ?_, ?_, ?_⟩, htaken, ?_, h.returns⟩
  · rw [hcalls, htodo, List.append_assoc]; rfl
  · rw [hsent, List.map_append]; rfl
  · rw [List.length_append, hlen]; rfl
  · intro r hr
    obtain rfl := Option.some.inj hr
    refine ⟨rfl, Nat.zero_le _, ?_, ?_⟩
    · rw [← hsizes, hcalls, htodo, List.getElem?_map, List.getElem?_append_right hlen.le, hlen,
        Nat.sub_self]
      rfl
    · rw [← htaken, List.drop_length]; rfl

/-- A call of `recv` that returns some of the bytes asked for. -/
theorem PeerInv.recv (h : PeerInv sizes calls p) {r : RecvDataForce} {chunk : List UInt8}
    (hcur : p.current = some r) (hfit : chunk.length ≤ r.msgSize - r.totalReadBytes) :
    PeerInv sizes calls { p with
      mem := p.mem.write (r.dataPlaceholder + r.totalReadBytes) chunk
      current := some { r with totalReadBytes := r.totalReadBytes + chunk.length }
      taken := p.taken ++ chunk } := by
  obtain ⟨hwrite, hle, hsize, hread⟩ := h.current r hcur
  have htaken := h.taken
  rw [hcur] at htaken
  replace htaken : p.taken.length = syncOffset sizes p.returns.length + r.totalReadBytes := htaken
  have hstart : syncOffset sizes p.returns.length ≤ p.taken.length := by omega
  have hmade := h.made
  rw [hcur] at hmade
  refine ⟨hmade, ?_, ?_, ?_⟩
  · rw [List.length_append, htaken, Nat.add_assoc]; rfl
  · intro r' hr
    obtain rfl := Option.some.inj hr
    refine ⟨hwrite, by show _ + _ ≤ r.msgSize; omega, hsize, ?_⟩
    -- the new bytes follow those of the earlier iterations
    show (p.mem.write _ chunk).read _ (r.totalReadBytes + chunk.length) = _
    rw [ByteMem.read_add, ByteMem.read_write_of_le _ _ _ (Nat.le_refl _), hread,
      ByteMem.read_write_self, List.drop_append_of_le_length hstart]
  · intro i r' hi
    obtain ⟨hv, hc, hd⟩ := h.returns i r' hi
    have hlt : i < p.returns.length := (List.getElem?_eq_some_iff.1 hi).1
    have hoff : syncOffset sizes (i + 1) ≤ p.taken.length :=
      (syncOffset_mono sizes (Nat.succ_le_of_lt hlt)).trans hstart
    refine ⟨hv, hc, ?_⟩
    rw [hd, List.take_append_of_le_length hoff]

/-- The loop is left, and the call returns. -/
theorem PeerInv.ret (h : PeerInv sizes calls p) {r : RecvDataForce} (hcur : p.current = some r)
    (hend : ¬ r.totalReadBytes < r.msgSize) :
    PeerInv sizes calls { p with
      current := none
      returns := p.returns ++ [{
        value := (r.totalReadBytes : ℤ) - r.writeMsg
        remoteData := p.mem.read r.dataPlaceholder r.msgSize
        consumed := p.taken.length }] } := by
  obtain ⟨hwrite, hle, hsize, hread⟩ := h.current r hcur
  have heq : r.totalReadBytes = r.msgSize := Nat.le_antisymm hle (Nat.le_of_not_lt hend)
  have htaken := h.taken
  rw [hcur] at htaken
  replace htaken : p.taken.length = syncOffset sizes p.returns.length + r.totalReadBytes := htaken
  have hoff := syncOffset_succ hsize
  rw [heq] at htaken hread
  obtain ⟨done, hcalls, hsent, hlen⟩ := h.made
  rw [hcur] at hlen
  refine ⟨⟨done, hcalls, hsent, ?_⟩, ?_, fun r' hr => (Option.some_ne_none _ hr.symm).elim, ?_⟩
  · rw [List.length_append, hlen]; rfl
  · rw [List.length_append]
    show p.taken.length = syncOffset sizes (p.returns.length + 1) + 0
    rw [hoff, htaken, Nat.add_zero]
  · intro i r' hi
    rcases Nat.lt_or_ge i p.returns.length with hlt | hge
    · rw [List.getElem?_append_left hlt] at hi
      exact h.returns i r' hi
    · rw [List.getElem?_append_right hge] at hi
      obtain rfl : i = p.returns.length := by
        have hi' := (List.getElem?_eq_some_iff.1 hi).1
        rw [List.length_singleton] at hi'
        omega
      rw [Nat.sub_self] at hi
      obtain rfl := Option.some.inj hi
      refine ⟨?_, ?_, ?_⟩
      · show (r.totalReadBytes : ℤ) - r.writeMsg = 0
        rw [hwrite, heq, Int.sub_self]
      · show p.taken.length = _
        rw [htaken, hoff]
      · show p.mem.read r.dataPlaceholder r.msgSize = _
        rw [hread, hoff, ← htaken, List.take_length]

end

/-! ## Two peers -/

/-- Both peers make calls of the same sizes, and every byte sent is read or on
    the wire. -/
structure SyncInv (sizes : List ℕ) (calls : Bool → List SyncCall) (s : SyncState) : Prop where
  peer : ∀ x, PeerInv sizes (calls x) (s.peer x)
  stream : ∀ x, (s.peer (!x)).taken ++ s.wire x = (s.peer x).sent.flatten

section
variable {sizes : List ℕ} {calls : Bool → List SyncCall} {s s' : SyncState}

theorem syncInv_init (sizes : List ℕ) (calls : Bool → List SyncCall) (mem : Bool → ByteMem) :
    SyncInv sizes calls (SyncState.init calls mem) where
  peer x := peerInv_init sizes (calls x) (mem x)
  stream _ := rfl

/-- The invariant after a move of one peer. -/
theorem SyncInv.move (h : SyncInv sizes calls s) {x : Bool} {p : SyncPeer}
    {wire : Bool → List UInt8} (hp : PeerInv sizes (calls x) p)
    (hin : p.taken ++ wire (!x) = (s.peer (!x)).sent.flatten)
    (hout : (s.peer (!x)).taken ++ wire x = p.sent.flatten) :
    SyncInv sizes calls { peer := Function.update s.peer x p, wire } := by
  have hself : Function.update s.peer x p x = p := Function.update_self ..
  have hother : Function.update s.peer x p (!x) = s.peer (!x) :=
    Function.update_of_ne (by cases x <;> decide) ..
  have hcases : ∀ y, y = x ∨ y = !x := by
    intro y
    cases x <;> cases y <;> decide
  refine ⟨fun y => ?_, fun y => ?_⟩
  · rcases hcases y with rfl | rfl
    · show PeerInv sizes _ (Function.update s.peer y p y)
      rw [hself]; exact hp
    · show PeerInv sizes _ (Function.update s.peer x p (!x))
      rw [hother]; exact h.peer _
  · rcases hcases y with rfl | rfl
    · show (Function.update s.peer y p (!y)).taken ++ wire y =
        (Function.update s.peer y p y).sent.flatten
      rw [hself, hother]; exact hout
    · show (Function.update s.peer x p (!!x)).taken ++ _ =
        (Function.update s.peer x p (!x)).sent.flatten
      rw [Bool.not_not, hself, hother]; exact hin

/-- **Every step keeps the streams and the peers aligned.** -/
theorem SyncInv.step (h : SyncInv sizes calls s) (hsizes : ∀ x, (calls x).map (·.xferSize) = sizes)
    {a : SyncAct} (hs : s.step a = some s') : SyncInv sizes calls s' := by
  have hne : (!a.side) ≠ a.side := by cases a.side <;> decide
  have hin := h.stream (!a.side)
  rw [Bool.not_not] at hin
  have hout := h.stream a.side
  unfold SyncState.step at hs
  dsimp only at hs
  cases hcur : (s.peer a.side).current with
  | none =>
    rw [hcur] at hs
    cases htodo : (s.peer a.side).todo with
    | nil => rw [htodo] at hs; cases hs
    | cons c todo =>
      rw [htodo] at hs
      obtain rfl := Option.some.inj hs
      refine h.move ((h.peer a.side).send (hsizes _) hcur htodo) ?_ ?_
      · rw [Function.update_of_ne hne]; exact hin
      · rw [Function.update_self, ← List.append_assoc, hout, List.flatten_append,
          List.flatten_singleton]
  | some r =>
    rw [hcur] at hs
    dsimp only at hs
    split_ifs at hs with hlt hchunk
    · obtain ⟨-, harr, hfit⟩ := hchunk
      obtain rfl := Option.some.inj hs
      have hlen : ((s.wire (!a.side)).take a.chunk).length = a.chunk := List.length_take_of_le harr
      have hp := (h.peer a.side).recv hcur (hlen.trans_le hfit)
      rw [hlen] at hp
      refine h.move hp ?_ ?_
      · rw [Function.update_self, List.append_assoc, List.take_append_drop]; exact hin
      · rw [Function.update_of_ne hne.symm]; exact hout
    · obtain rfl := Option.some.inj hs
      exact h.move ((h.peer a.side).ret hcur hlt) hin hout

theorem syncInv_reachable (hsizes : ∀ x, (calls x).map (·.xferSize) = sizes)
    {mem : Bool → ByteMem} (h : Lts.Reachable SyncState.step (SyncState.init calls mem) s) :
    SyncInv sizes calls s :=
  h.induct (syncInv_init sizes calls mem) fun _ _ _ h => h.step hsizes

/-- The number of calls a peer has begun. -/
def SyncPeer.begun (p : SyncPeer) : ℕ := p.returns.length + p.current.toList.length

/-- The messages a peer has sent are its first ones. -/
theorem PeerInv.sent_eq {c : List SyncCall} {p : SyncPeer} (h : PeerInv sizes c p) :
    p.sent = (c.map (·.localData)).take p.begun := by
  obtain ⟨done, hcalls, hsent, hlen⟩ := h.made
  rw [hsent, hcalls, List.map_append, List.take_left' (by rw [List.length_map, hlen]; rfl)]

theorem PeerInv.begun_add {c : List SyncCall} {p : SyncPeer} (h : PeerInv sizes c p) :
    p.begun + p.todo.length = c.length := by
  obtain ⟨done, hcalls, -, hlen⟩ := h.made
  rw [hcalls, List.length_append, hlen]; rfl

/-- What a peer has read is a prefix of all that the other one is to send. -/
theorem SyncInv.taken_isPrefix (h : SyncInv sizes calls s) (x : Bool) :
    (s.peer x).taken <+: ((calls (!x)).map (·.localData)).flatten := by
  have hstr := h.stream (!x)
  rw [Bool.not_not] at hstr
  refine List.IsPrefix.trans ⟨_, hstr⟩ ?_
  rw [(h.peer (!x)).sent_eq]
  exact (List.take_prefix _ _).flatten

/-- **Framing of the side channel**: whenever a call returns, it returns 0, the
    bytes at `remote_data` are those the other peer has passed to the call of the
    same number, and nothing of the next message has been read. -/
theorem sockSyncData_framing (hsizes : ∀ x, (calls x).map (·.xferSize) = sizes)
    {mem : Bool → ByteMem} (h : Lts.Reachable SyncState.step (SyncState.init calls mem) s)
    {x : Bool} {i : ℕ} {r : SyncReturn} (hr : (s.peer x).returns[i]? = some r) :
    r.value = 0 ∧ ((calls (!x)).map (·.localData))[i]? = some r.remoteData ∧
      r.consumed = syncOffset sizes (i + 1) := by
  have hinv := syncInv_reachable hsizes h
  obtain ⟨hvalue, hconsumed, hdata⟩ := (hinv.peer x).returns i r hr
  refine ⟨hvalue, ?_, hconsumed⟩
  have hi : i < (s.peer x).returns.length := (List.getElem?_eq_some_iff.1 hr).1
  have htaken := (hinv.peer x).taken
  have hoff : syncOffset sizes (i + 1) ≤ (s.peer x).taken.length := by
    rw [htaken]
    exact (syncOffset_mono sizes hi).trans (Nat.le_add_right _ _)
  have hlens : ((calls (!x)).map (·.localData)).map List.length = sizes := by
    rw [← hsizes (!x), List.map_map]; rfl
  have hbound : i < ((calls (!x)).map (·.localData)).length := by
    have hbegun := (hinv.peer x).begun_add
    have hx : (calls x).length = sizes.length := by rw [← hsizes x, List.length_map]
    rw [← List.length_map List.length, hlens]
    unfold SyncPeer.begun at hbegun
    omega
  -- the bytes read are cut where the messages of the other peer end
  obtain ⟨rest, hrest⟩ := hinv.taken_isPrefix x
  have hslice := List.drop_take_succ_flatten_eq_getElem _ i hbound
  rw [hlens, ← hrest] at hslice
  replace hslice : (((s.peer x).taken ++ rest).take (syncOffset sizes (i + 1))).drop
    (syncOffset sizes i) = _ := hslice
  rw [List.take_append_of_le_length hoff] at hslice
  rw [List.getElem?_eq_getElem hbound, ← hslice, hdata]

end

/-- Three calls of each peer; the second message is empty. -/
def threeCalls (x : Bool) : List SyncCall :=
  if x then [⟨[1, 2, 3], 100⟩, ⟨[], 200⟩, ⟨[4, 5], 100⟩]
  else [⟨[6, 7, 8], 100⟩, ⟨[], 100⟩, ⟨[9, 10], 101⟩]

/-- One peer sends its first message late, and reads the others in two chunks. -/
def threeCallsRun : List SyncAct :=
  [⟨true, 0⟩, ⟨false, 0⟩, ⟨true, 1⟩, ⟨true, 2⟩, ⟨true, 0⟩, ⟨true, 0⟩, ⟨true, 0⟩, ⟨true, 0⟩,
    ⟨false, 3⟩, ⟨false, 0⟩, ⟨false, 0⟩, ⟨false, 0⟩, ⟨false, 0⟩, ⟨false, 1⟩, ⟨false, 1⟩, ⟨false, 0⟩]

theorem sockSyncData_framing_threeCalls : ∃ s r,
    Lts.Reachable SyncState.step (SyncState.init threeCalls fun _ _ => 0) s ∧
      (s.peer false).returns[2]? = some r ∧ r.value = 0 ∧ r.remoteData = [4, 5] ∧
      r.consumed = 5 := by
  have h : (Lts.run SyncState.step (SyncState.init threeCalls fun _ _ => 0) threeCallsRun).any
      (fun s => ((s.peer false).returns[2]?).isSome) = true := by
    decide +kernel
  obtain ⟨s, hs, hr⟩ := Lts.Reachable.of_any h
  obtain ⟨r, hr⟩ := Option.isSome_iff_exists.1 hr
  have hsizes : ∀ x, (threeCalls x).map (·.xferSize) = [3, 0, 2] := by
    intro x
    cases x <;> rfl
  obtain ⟨hvalue, hdata, hconsumed⟩ := sockSyncData_framing hsizes hs hr
  exact ⟨s, r, hs, hr, hvalue, (Option.some.inj hdata).symm, hconsumed⟩

section
variable {sizes : List ℕ} {calls : Bool → List SyncCall} {s s' : SyncState}

/-! ## No call waits for ever -/

/-- A peer that cannot go on has made all its calls, or waits for bytes. -/
theorem SyncState.exists_step_or (s : SyncState) (x : Bool) : (∃ a s', s.step a = some s') ∨
    ((s.peer x).todo = [] ∧ (s.peer x).current = none) ∨
    ∃ r, (s.peer x).current = some r ∧ r.totalReadBytes < r.msgSize ∧ s.wire (!x) = [] := by
  cases hcur : (s.peer x).current with
  | none =>
    cases htodo : (s.peer x).todo with
    | nil => exact Or.inr (Or.inl ⟨rfl, rfl⟩)
    | cons c todo => exact Or.inl ⟨⟨x, 0⟩, _, by simp only [step, hcur, htodo]; rfl⟩
  | some r =>
    by_cases hlt : r.totalReadBytes < r.msgSize
    · cases hwire : s.wire (!x) with
      | nil => exact Or.inr (Or.inr ⟨r, rfl, hlt, rfl⟩)
      | cons b bs =>
        have hone : 0 < 1 ∧ 1 ≤ (b :: bs).length ∧ 1 ≤ r.msgSize - r.totalReadBytes := by
          refine ⟨Nat.one_pos, ?_, ?_⟩
          · rw [List.length_cons]; omega
          · omega
        exact Or.inl ⟨⟨x, 1⟩, _, by
          simp only [step, hcur, hlt, hwire, hone, and_self, if_true]; rfl⟩
    · exact Or.inl ⟨⟨x, 0⟩, _, by simp only [step, hcur, hlt, if_false]; rfl⟩

/-- A peer that waits for bytes is ahead of the other one. -/
theorem SyncInv.begun_le (h : SyncInv sizes calls s)
    (hsizes : ∀ x, (calls x).map (·.xferSize) = sizes) {x : Bool} {r : RecvDataForce}
    (hcur : (s.peer x).current = some r)
    (hlt : r.totalReadBytes < r.msgSize) (hwire : s.wire (!x) = []) :
    (s.peer (!x)).begun ≤ (s.peer x).returns.length := by
  have hstr := h.stream (!x)
  rw [Bool.not_not, hwire, List.append_nil, (h.peer (!x)).sent_eq] at hstr
  have hlen : (s.peer x).taken.length = syncOffset sizes (s.peer (!x)).begun := by
    rw [hstr, List.length_flatten, List.map_take, List.map_map, syncOffset, ← hsizes (!x)]
    rfl
  have htaken := (h.peer x).taken
  rw [hcur] at htaken
  replace htaken : (s.peer x).taken.length =
    syncOffset sizes (s.peer x).returns.length + r.totalReadBytes := htaken
  obtain ⟨-, -, hsize, -⟩ := (h.peer x).current r hcur
  have hsucc := syncOffset_succ hsize
  by_contra hn
  have hmono := syncOffset_mono sizes (Nat.succ_le_of_lt (Nat.lt_of_not_le hn))
  rw [Nat.succ_eq_add_one] at hmono
  omega

/-- **As long as a call is left, one of the peers can go on.** -/
theorem SyncInv.exists_step (h : SyncInv sizes calls s)
    (hsizes : ∀ x, (calls x).map (·.xferSize) = sizes) {x : Bool}
    (hx : (s.peer x).todo ≠ [] ∨ (s.peer x).current ≠ none) : ∃ a s', s.step a = some s' := by
  rcases s.exists_step_or x with hstep | ⟨htodo, hcur⟩ | ⟨r, hcur, hlt, hwire⟩
  · exact hstep
  · exact (hx.elim (absurd htodo) (absurd hcur))
  have hle := h.begun_le hsizes hcur hlt hwire
  rcases s.exists_step_or (!x) with hstep | ⟨htodo', hcur'⟩ | ⟨r', hcur', hlt', hwire'⟩
  · exact hstep
  · -- the other peer has sent everything
    obtain ⟨-, -, hsize, -⟩ := (h.peer x).current r hcur
    have hlt := (List.getElem?_eq_some_iff.1 hsize).1
    have hbegun := (h.peer (!x)).begun_add
    have hlen : (calls (!x)).length = sizes.length := by rw [← hsizes (!x), List.length_map]
    rw [htodo', List.length_nil] at hbegun
    omega
  · -- each would be ahead of the other
    have hle' := h.begun_le hsizes hcur' hlt' hwire'
    rw [Bool.not_not] at hle'
    unfold SyncPeer.begun at hle hle'
    rw [hcur] at hle'
    rw [hcur'] at hle
    simp only [Option.toList_some, List.length_singleton] at hle hle'
    omega

end

end RdmaCore

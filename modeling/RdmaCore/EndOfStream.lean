/-
  The receive loops when the peer closes the connection (`recv_data`,
  `recv_data_force` and `sock_sync_data` of src/tcp_connector.cc).

  From then on `recv` returns 0.  `recv_data` means to leave its loop with this
  value, but `!rc` stays true; `recv_data_force` logs a warning.  Both loops
  end exactly if all the bytes asked for have arrived before
  (`endOfStream_iff`).

  A sequence of results stands for `recv` returning them one after the other,
  and 0 from then on.
-/
import RdmaCore.Lib.Loop
import Mathlib.Data.PNat.Basic

namespace RdmaCore

/-- "read socket failed" -/
inductive ReadFailed where
  | readFailed
  deriving DecidableEq, Repr

/-! ## The loops -/

/-- The variables of `recv_data`. -/
structure RecvData where
  rc : ℤ := 0
  totalReadBytes : ℤ := 0
  deriving DecidableEq

namespace RecvData

/-- `!rc && total_read_bytes < msg_size` -/
def cond (msgSize : ℤ) (v : RecvData) : Bool := v.rc = 0 && v.totalReadBytes < msgSize

def body (v : RecvData) (readBytes : ℤ) : Except ReadFailed RecvData :=
  if 0 < readBytes then pure { v with totalReadBytes := v.totalReadBytes + readBytes }
  else if readBytes < 0 then throw .readFailed
  else pure { v with rc := readBytes }

end RecvData

namespace RecvDataForce

/-- `total_read_bytes < msg_size`, on `total_read_bytes` -/
def cond (msgSize totalReadBytes : ℤ) : Bool := totalReadBytes < msgSize

def body (totalReadBytes readBytes : ℤ) : Except ReadFailed ℤ :=
  if 0 < readBytes then pure (totalReadBytes + readBytes)
  else if readBytes < 0 then throw .readFailed
  -- "Cannot receive any data from socket"
  else pure totalReadBytes

end RecvDataForce

/-- The results of `recv` before the peer closes the connection. -/
def recvResults (rs : List ℕ+) : List ℤ := rs.map fun r : ℕ+ => ((r : ℕ) : ℤ)

/-- `recv_data` returns `v`. -/
def RecvDataReturns (msgSize : ℤ) (rs : List ℕ+) (v : ℤ) : Prop :=
  ∃ s, Loop.EndsIn (RecvData.cond msgSize) RecvData.body (recvResults rs) 0 {} s ∧ v = s.rc

/-- `recv_data_force` returns `v`. -/
def RecvDataForceReturns (msgSize : ℤ) (rs : List ℕ+) (v : ℤ) : Prop :=
  Loop.EndsIn (RecvDataForce.cond msgSize) RecvDataForce.body (recvResults rs) 0 0 v

/-- `sock_sync_data` returns `v`, where `send` takes all of the message. -/
def SockSyncDataReturns (xferSize : ℤ) (rs : List ℕ+) (v : ℤ) : Prop :=
  ∃ recvMsg, RecvDataForceReturns xferSize rs recvMsg ∧ v = recvMsg - xferSize

/-- The call ends, and if bytes are missing it returns what no call returns that
    reads the whole message. -/
def ReportsClose (returns : List ℕ+ → ℤ → Prop) (msgSize : ℤ) (rs : List ℕ+) : Prop :=
  ∃ v, returns rs v ∧ ((recvResults rs).sum < msgSize → ∀ rs' v',
    msgSize ≤ (recvResults rs').sum → returns rs' v' → v ≠ v')

/-- Both receive functions end when the peer goes away. -/
def EndOfStream (msgSize : ℤ) (rs : List ℕ+) : Prop :=
  ReportsClose (RecvDataReturns msgSize) msgSize rs ∧
    ReportsClose (RecvDataForceReturns msgSize) msgSize rs

/-! ## When they end -/

variable {msgSize : ℤ} {rs : List ℕ+}

theorem pos_recvResults : ∀ r ∈ recvResults rs, 0 < r := by
  intro r hr
  obtain ⟨p, -, rfl⟩ := List.mem_map.1 hr
  exact Int.natCast_pos.2 p.pos

/-- `rc` is 0 in all turns. -/
theorem RecvData.counting (msgSize : ℤ) : Loop.Counting (cond msgSize) body
    (fun v => v.rc = 0) totalReadBytes msgSize where
  cond_iff v hv := by simp [cond, hv]
  more v a hv ha := ⟨_, if_pos ha, hv, rfl⟩
  zero v hv := by
    obtain ⟨rc, totalReadBytes⟩ := v
    obtain rfl : rc = 0 := hv
    rfl

theorem RecvDataForce.counting (msgSize : ℤ) : Loop.Counting (cond msgSize) body
    (fun _ => True) id msgSize where
  cond_iff v _ := by simp [cond]
  more v a _ ha := ⟨_, if_pos ha, trivial, rfl⟩
  zero v _ := rfl

theorem recvData_returns_iff :
    (∃ v, RecvDataReturns msgSize rs v) ↔ msgSize ≤ (recvResults rs).sum := by
  have hends := (RecvData.counting msgSize).ends_iff (s := {}) (@pos_recvResults rs) rfl
  rw [zero_add] at hends
  rw [← hends]
  constructor
  · rintro ⟨v, s, hs, -⟩
    exact ⟨s, hs⟩
  · rintro ⟨s, hs⟩
    exact ⟨_, s, hs, rfl⟩

theorem recvDataForce_returns_iff :
    (∃ v, RecvDataForceReturns msgSize rs v) ↔ msgSize ≤ (recvResults rs).sum := by
  have hends := (RecvDataForce.counting msgSize).ends_iff (s := 0) (@pos_recvResults rs) trivial
  rwa [id, zero_add] at hends

theorem reportsClose_iff {returns : List ℕ+ → ℤ → Prop}
    (h : (∃ v, returns rs v) ↔ msgSize ≤ (recvResults rs).sum) :
    ReportsClose returns msgSize rs ↔ msgSize ≤ (recvResults rs).sum := by
  constructor
  · rintro ⟨v, hv, -⟩
    exact h.1 ⟨v, hv⟩
  · intro hle
    obtain ⟨v, hv⟩ := h.2 hle
    exact ⟨v, hv, fun hlt => absurd hle (not_le.2 hlt)⟩

/-- **The receive loops end** exactly if the peer has sent all the bytes asked
    for. -/
theorem endOfStream_iff : EndOfStream msgSize rs ↔ msgSize ≤ (recvResults rs).sum := by
  rw [EndOfStream, reportsClose_iff recvData_returns_iff,
    reportsClose_iff recvDataForce_returns_iff, and_self]

theorem sockSyncData_returns_iff :
    (∃ v, SockSyncDataReturns msgSize rs v) ↔ msgSize ≤ (recvResults rs).sum := by
  rw [← recvDataForce_returns_iff]
  constructor
  · rintro ⟨v, recvMsg, h, -⟩
    exact ⟨recvMsg, h⟩
  · rintro ⟨recvMsg, h⟩
    exact ⟨_, recvMsg, h, rfl⟩

/-- A peer that closes the connection after 3 of the 4 bytes keeps both loops
    running. -/
theorem not_endOfStream_short :
    (¬ ∃ v, RecvDataReturns 4 [2, 1] v) ∧ (¬ ∃ v, RecvDataForceReturns 4 [2, 1] v) ∧
      ¬ EndOfStream 4 [2, 1] := by
  have hshort : ¬ (4 : ℤ) ≤ (recvResults [2, 1]).sum := by decide
  exact ⟨mt recvData_returns_iff.1 hshort, mt recvDataForce_returns_iff.1 hshort,
    mt endOfStream_iff.1 hshort⟩

end RdmaCore

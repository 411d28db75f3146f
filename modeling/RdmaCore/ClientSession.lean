/-
  How a client session opens its connection (`RDMAClientSession::init_session`
  of src/rdma_client_sess.cc).

  The loop tries to connect until it succeeds or the retries are used up, and
  `accept_new_connection` follows in both cases; `is_connected_` is set, and
  not looked at.

  * `connectLoop_isConnected`, `connectLoop_calls`: the loop;
  * `onlyConnected_iff`: an endpoint is created for real connections only
    exactly if one of the attempts succeeds.

  The outcomes of `connect`, and that of the first exchange on the connection,
  are parameters.
-/
import RdmaCore.Propagation

namespace RdmaCore

inductive ClientCall where
  | connect (succeeds : Bool)
  | acceptNewConnection
  deriving DecidableEq, Repr

/-- How `accept_new_connection` can end the process: "Failed writing data to
    remote", "sync error for ..." -/
inductive SyncFailed where
  | syncFailed
  deriving DecidableEq, Repr

/-- A client session, with the calls that `init_session` has made. -/
structure ClientSession where
  session : RDMASession
  isConnected : Bool := false
  calls : List ClientCall := []

namespace ClientSession

/-- The do-while loop of `init_session`, from attempt `i` on. -/
def connectLoop (connects : ℕ → Bool) (s : ClientSession) (i countTry : ℕ) : ClientSession :=
  let s := { s with calls := s.calls ++ [.connect (connects i)] }
  if connects i then { s with isConnected := true }
  else match countTry with
    | 0 => s
    | countTry + 1 => connectLoop connects s (i + 1) countTry

/-- `accept_new_connection`; the constructor of the endpoint exchanges a byte
    with the peer. -/
def acceptNewConnection (sync : Except SyncFailed Unit) (connector : TCPConnector)
    (s : ClientSession) : ClientSession × Except SyncFailed Unit :=
  let s := { s with calls := s.calls ++ [.acceptNewConnection] }
  match sync with
  | .ok () => ({ s with session := s.session.acceptNewConnection connector }, .ok ())
  | .error e => (s, .error e)

/-- `count_try` at the start -/
def retries : ℕ := 10 * 300

def initSession (connects : ℕ → Bool) (sync : Except SyncFailed Unit) (connector : TCPConnector)
    (s : ClientSession) : ClientSession × Except SyncFailed Unit :=
  (connectLoop connects s 0 retries).acceptNewConnection sync connector

/-- One of the attempts succeeds. -/
def Connects (connects : ℕ → Bool) : Prop := ∃ i ≤ retries, connects i = true

/-- `init_session` creates an endpoint on a real connection only. -/
structure OnlyConnected (connects : ℕ → Bool) (sync : Except SyncFailed Unit)
    (connector : TCPConnector) (session : RDMASession) : Prop where
  accepts : .acceptNewConnection ∈ (initSession connects sync connector { session }).1.calls ↔
    Connects connects
  connected : (initSession connects sync connector { session }).1.isConnected = true ↔
    Connects connects
  unchanged : ¬ Connects connects →
    (initSession connects sync connector { session }).1.session.endPointMgr = session.endPointMgr

/-! ## The loop -/

variable {connects : ℕ → Bool} {sync : Except SyncFailed Unit} {connector : TCPConnector}
  {session : RDMASession}

theorem connectLoop_isConnected (s : ClientSession) (i countTry : ℕ) :
    (connectLoop connects s i countTry).isConnected = true ↔
      s.isConnected = true ∨ ∃ j ≤ countTry, connects (i + j) = true := by
  induction countTry generalizing s i with
  | zero =>
    rw [connectLoop]
    cases h : connects i <;> simp [h]
  | succ countTry ih =>
    rw [connectLoop]
    cases h : connects i with
    | true => simpa [h] using Or.inr ⟨0, Nat.zero_le _, h⟩
    | false =>
      simp only [Bool.false_eq_true, if_false, ih]
      refine or_congr_right ⟨?_, ?_⟩
      · rintro ⟨j, hj, hc⟩
        exact ⟨j + 1, by omega, by rw [← hc]; congr 1; omega⟩
      · rintro ⟨j, hj, hc⟩
        cases j with
        | zero => rw [Nat.add_zero, h] at hc; cases hc
        | succ j => exact ⟨j, by omega, by rw [← hc]; congr 1; omega⟩

/-- The loop only connects. -/
theorem connectLoop_session (s : ClientSession) (i countTry : ℕ) :
    (connectLoop connects s i countTry).session = s.session := by
  induction countTry generalizing s i with
  | zero =>
    rw [connectLoop]
    split <;> rfl
  | succ countTry ih =>
    rw [connectLoop]
    split
    · rfl
    · exact ih _ _

/-! ## The session -/

theorem initSession_isConnected :
    (initSession connects sync connector { session }).1.isConnected = true ↔ Connects connects := by
  have hloop : (connectLoop connects { session } 0 retries).isConnected = true ↔ _ :=
    connectLoop_isConnected { session } 0 retries
  simp only [Bool.false_eq_true, false_or, Nat.zero_add] at hloop
  rw [Connects, ← hloop]
  cases sync with
  | ok u => rfl
  | error e => rfl

/-- `accept_new_connection` is called whatever the loop has done. -/
theorem accept_mem_initSession :
    .acceptNewConnection ∈ (initSession connects sync connector { session }).1.calls := by
  cases sync with
  | ok u => exact List.mem_append_right _ List.mem_cons_self
  | error e => exact List.mem_append_right _ List.mem_cons_self

/-- It adds an endpoint, connected or not. -/
theorem session_initSession :
    (initSession connects (.ok ()) connector { session }).1.session =
      session.acceptNewConnection connector :=
  congrArg (RDMASession.acceptNewConnection · connector) (connectLoop_session { session } 0 retries)

/-- **An endpoint is created on real connections only** exactly if one of the
    attempts succeeds. -/
theorem onlyConnected_iff :
    OnlyConnected connects sync connector session ↔ Connects connects := by
  constructor
  · intro h
    exact h.accepts.1 accept_mem_initSession
  · intro h
    exact ⟨iff_of_true accept_mem_initSession h, initSession_isConnected, fun hn => absurd h hn⟩

/-- A client whose attempts are all refused, by a server at 12.12.12.2. -/
def refused : ClientSession × Except SyncFailed Unit :=
  initSession (fun _ => false) (.error .syncFailed)
    ⟨⟨12, 12, 12, 1⟩, 0, ⟨12, 12, 12, 2⟩, 2020⟩ { session := { kind := .client, workEnv := {} } }

/-- It goes on to create an endpoint, and the exchange on the socket ends the
    process. -/
theorem not_onlyConnected_refused :
    .acceptNewConnection ∈ refused.1.calls ∧ refused.1.isConnected = false ∧
      refused.2 = .error .syncFailed ∧
      ¬ OnlyConnected (fun _ => false) (.error .syncFailed)
        ⟨⟨12, 12, 12, 1⟩, 0, ⟨12, 12, 12, 2⟩, 2020⟩ { kind := .client, workEnv := {} } := by
  have hnone : ¬ Connects fun _ => false := fun ⟨_, _, h⟩ => Bool.false_ne_true h
  refine ⟨accept_mem_initSession, ?_, rfl, mt onlyConnected_iff.1 hnone⟩
  exact Bool.eq_false_of_not_eq_true (mt initSession_isConnected.1 hnone)

end ClientSession

end RdmaCore

/-
  The messages, receives and completions of the benchmark of
  example/lat_bw_benchmark.cc, as two programs at the ends of a reliable
  connection (`Script`) that follow one schedule.

  * `Op.flow`: what the operations do to the queues;
  * `schedule`: the operations of both threads in one order, in which every
    wait takes all that is under way;
  * `project_schedule`, `check_schedule`: it is a schedule of `process_CQ` of
    both sides, and can be followed.
-/
import RdmaCore.Benchmark
import RdmaCore.Lib.ScheduleRuns

open Conduit Script

namespace RdmaCore

namespace Benchmark

/-! ## Operations -/

/-- The connection of the two sides. -/
def net : Net Kind where
  message
    | .send _ => true
    | .write => false
    | .read => false
  early k := k = .send .testRawData
  sendRoom := maxWr
  recvRoom := maxWr

def Wc.completion : Wc → Conduit.Completion Kind
  | sent k => .sent k
  | recv tag => .received (.send tag)

/-- The completions that the loop of `Op.exchange` still waits for. -/
def pending (request response : MessageforTest) (send recv : Bool) : List (Conduit.Completion Kind) :=
  (if send then [] else [.sent (.send request)]) ++
    (if recv then [] else [.received (.send response)])

/-- What an operation does to the queues. -/
def Op.flow : Op → List (Script.Op Kind)
  | recvAt _ _ => [.recv]
  | recvNext => [.recv]
  | syncSend => [.signal]
  | syncRecv => [.wait]
  | sendAt _ _ tag => [.post (.send tag)]
  | sendNext _ tag => [.post (.send tag)]
  | writeNext _ => [.post .write]
  | writeAt _ _ => [.post .write]
  | readNext _ => [.post .read]
  | last => []
  | fill => []
  | load => []
  | awaitSent k => [.await [.sent k]]
  | awaitRecv tag _ => [.await [.received (.send tag)]]
  | exchange request response send recv => wait (pending request response send recv)
  | confirm _ confirmed _ => wait (List.replicate (count - confirmed) (.sent .write))

/-! ## The schedule -/

/-- `register_buffer`, `sync_with_peer` and `exchange_buffer_info`. -/
def opening : List (Bool × Script.Op Kind) :=
  [(false, .recv), (false, .signal), (true, .recv), (true, .signal), (false, .wait), (true, .wait),
    (false, .post (.send .requestBuffer)),
    (true, .await [.received (.send .requestBuffer)]),
    (true, .post (.send .responseToRequestBuffer)),
    (true, .await [.sent (.send .responseToRequestBuffer)]),
    (false, .await [.sent (.send .requestBuffer), .received (.send .responseToRequestBuffer)])]

/-- A message of `lat_send`. -/
def raw : List (Bool × Script.Op Kind) :=
  [(false, .post (.send .testRawData)), (false, .await [.sent (.send .testRawData)]),
    (true, .await [.received (.send .testRawData)])]

/-- `lat_send` -/
def latSend : List (Bool × Script.Op Kind) :=
  [(true, .recv), (false, .recv), (false, .post (.send .sendTestRequest)),
    (true, .await [.received (.send .sendTestRequest)])] ++
  List.replicate count (true, .recv) ++
  [(true, .post (.send .responseToSendTestRequest)),
    (true, .await [.sent (.send .responseToSendTestRequest)]),
    (false, .await [.sent (.send .sendTestRequest),
      .received (.send .responseToSendTestRequest)])] ++
  (List.replicate count raw).flatten

/-- `write_test` and `read_test` -/
def oneByOne (k : Kind) : List (Bool × Script.Op Kind) :=
  (List.replicate count [(false, .post k), (false, .await [.sent k])]).flatten

/-- `write_bw_test` and `write_bw_test_fake` -/
def atOnce : List (Bool × Script.Op Kind) :=
  List.replicate count (false, .post .write) ++
    [(false, .await (List.replicate count (.sent .write)))]

/-- The end of `process_CQ`. -/
def closing : List (Bool × Script.Op Kind) :=
  [(true, .recv), (false, .post (.send .byebye)), (true, .await [.received (.send .byebye)])]

def schedule : List (Bool × Script.Op Kind) :=
  opening ++ sizes.flatMap (fun _ => latSend) ++ sizes.flatMap (fun _ => oneByOne .write) ++
  sizes.flatMap (fun _ => oneByOne .read) ++ sizes.flatMap (fun _ => atOnce) ++
  sizes.flatMap (fun _ => atOnce) ++ closing

/-! ### It is the schedule of the two threads -/

theorem flatMap_repeated (n : ℕ) (ops : List Op) :
    (repeated n ops).flatMap Op.flow = (List.replicate n (ops.flatMap Op.flow)).flatten := by
  induction n with
  | zero => rfl
  | succ n ih =>
    rw [repeated, List.replicate_succ, List.flatten_cons, List.flatMap_append, List.replicate_succ,
      List.flatten_cons, ← ih]
    rfl

theorem project_repeated (x : Bool) (n : ℕ) (G : List (Bool × Script.Op Kind)) :
    project x (List.replicate n G).flatten = (List.replicate n (project x G)).flatten := by
  induction n with
  | zero => rfl
  | succ n ih =>
    rw [List.replicate_succ, List.flatten_cons, project_append, ih, List.replicate_succ,
      List.flatten_cons]

theorem project_flatMap {α : Type} (x : Bool) (f : α → List (Bool × Script.Op Kind)) (l : List α) :
    project x (l.flatMap f) = l.flatMap fun a => project x (f a) := by
  induction l with
  | nil => rfl
  | cons a l ih => rw [List.flatMap_cons, project_append, ih, List.flatMap_cons]

theorem project_replicate (x y : Bool) (n : ℕ) (o : Script.Op Kind) :
    project x (List.replicate n (y, o)) = if y = x then List.replicate n o else [] := by
  unfold project
  split_ifs with h
  · exact List.filterMap_replicate_of_some (if_pos h)
  · exact List.filterMap_replicate_of_none (if_neg h)

section
variable (len : ℕ)

theorem project_latSend_client :
    project false latSend = (SchedulingClient.latSend len).flatMap Op.flow := by
  rw [latSend, SchedulingClient.latSend, project_append, project_append, project_append,
    project_replicate, project_repeated, List.flatMap_append, flatMap_repeated]
  rfl

theorem project_latSend_server : project true latSend = SchedulingServer.latSend.flatMap Op.flow := by
  rw [latSend, SchedulingServer.latSend, project_append, project_append, project_append,
    project_replicate, project_repeated, List.flatMap_append, List.flatMap_append,
    List.flatMap_append, flatMap_repeated, flatMap_repeated, if_pos rfl,
    ← List.flatten_replicate_singleton]
  rfl

theorem project_writeTest :
    project false (oneByOne .write) = (SchedulingClient.writeTest len).flatMap Op.flow := by
  rw [oneByOne, SchedulingClient.writeTest, project_repeated, flatMap_repeated]
  rfl

theorem project_readTest :
    project false (oneByOne .read) = (SchedulingClient.readTest len).flatMap Op.flow := by
  rw [oneByOne, SchedulingClient.readTest, project_repeated, flatMap_repeated]
  rfl

theorem project_writeBwTest :
    project false atOnce = (SchedulingClient.writeBwTest len).flatMap Op.flow := by
  rw [atOnce, SchedulingClient.writeBwTest, project_append, project_replicate, if_pos rfl,
    List.flatMap_append, flatMap_repeated, ← List.flatten_replicate_singleton]
  rfl

theorem project_writeBwTestFake :
    project false atOnce = (SchedulingClient.writeBwTestFake len).flatMap Op.flow := by
  rw [atOnce, SchedulingClient.writeBwTestFake, project_append, project_replicate, if_pos rfl,
    List.flatMap_append, flatMap_repeated, ← List.flatten_replicate_singleton]
  rfl

theorem project_oneByOne (k : Kind) : project true (oneByOne k) = [] := by
  rw [oneByOne, project_repeated]
  exact List.flatten_replicate_nil

theorem project_atOnce : project true atOnce = [] := by
  rw [atOnce, project_append, project_replicate, if_neg (by decide)]
  rfl

end

/-- A part of the schedule, and the part of the program of end `x` that it is for. -/
theorem project_part {x : Bool} {G : List (Bool × Script.Op Kind)} {f : ℕ → List Op}
    (h : ∀ len, project x G = (f len).flatMap Op.flow) :
    project x (sizes.flatMap fun _ => G) = (sizes.flatMap f).flatMap Op.flow := by
  rw [project_flatMap, List.flatMap_assoc]
  exact List.flatMap_congr fun len _ => h len

theorem project_nothing {G : List (Bool × Script.Op Kind)} (h : project true G = []) :
    project true (sizes.flatMap fun _ => G) = [] := by
  rw [project_flatMap, h]
  exact List.flatMap_eq_nil_iff.2 fun _ _ => rfl

/-- **The schedule is one of the two threads.** -/
theorem project_schedule (x : Bool) : project x schedule = (processCQ x).flatMap Op.flow := by
  rw [schedule, project_append, project_append, project_append, project_append, project_append,
    project_append]
  cases x with
  | false =>
    rw [processCQ, if_neg Bool.false_ne_true, SchedulingClient.processCQ, List.flatMap_append,
      List.flatMap_append, List.flatMap_append, List.flatMap_append, List.flatMap_append,
      List.flatMap_append, List.flatMap_append, ← project_part project_latSend_client,
      ← project_part project_writeTest, ← project_part project_readTest,
      ← project_part project_writeBwTest, ← project_part project_writeBwTestFake]
    rfl
  | true =>
    rw [project_part fun _ => project_latSend_server, project_nothing (project_oneByOne _),
      project_nothing (project_oneByOne _), project_nothing project_atOnce, processCQ, if_pos rfl,
      SchedulingServer.processCQ, List.flatMap_append, List.flatMap_append, List.append_nil,
      List.append_nil, List.append_nil, List.append_nil]
    rfl

/-! ### It can be followed -/

section
variable {n : ℕ}

open Balance

theorem leads_recvs {b : Balance Kind} {k : ℕ} (hb : b.transit = []) (h : k + n ≤ maxWr) :
    Leads net (ends b { ready := k }) (List.replicate n (true, .recv))
      (ends b { ready := k + n }) := by
  induction n generalizing k with
  | zero => exact .nil
  | succ n ih =>
    have hn := ih (k := k + 1) (by omega)
    rw [Nat.add_right_comm] at hn
    refine .consTrue ?_ hn
    show k + b.transit.length < maxWr
    rw [hb, List.length_nil]
    omega

/-- A message of `lat_send` takes a receive, and may come as soon as the client has the answer. -/
theorem leads_raw {owed : Option ℕ} (h : owed = none ∨ owed = some 0) :
    Leads net (ends {} { ready := n + 1, owed }) raw (ends {} { ready := n }) := by
  refine .consFalse ⟨by decide, fun _ => ⟨Nat.succ_pos n, h.imp_right fun h => ⟨h, rfl⟩⟩⟩ ?_
  refine .consFalse ⟨by simp, rfl, rfl, fun h => absurd h (lt_irrefl 0)⟩ ?_
  refine .consTrue ⟨by simp, rfl, rfl, fun _ k hk => absurd hk List.not_mem_nil⟩ ?_
  simp only [Balance.act, Balance.react, sents_received, sents_nil, ne_eq, not_true, and_false,
    if_false]
  exact .nil

theorem leads_raws :
    Leads net (ends {} { ready := n }) (List.replicate n raw).flatten (ends {} {}) := by
  induction n with
  | zero => exact .nil
  | succ n ih => exact (leads_raw (.inl rfl)).append ih

theorem leads_latSend : Leads net (ends {} {}) latSend (ends {} {}) := by
  refine .append (.append (.append ?_ (leads_recvs
    (b := { out := [.send .sendTestRequest], ready := 1 }) (k := 0) rfl (by decide))) ?_)
    ((leads_raw (n := 999) (.inr rfl)).append leads_raws)
  · exact .consTrue (by decide) <| .consFalse (by decide) <| .consFalse (by decide) <|
      .consTrue (by decide) .nil
  · exact .consTrue (by decide) <| .consTrue (by decide) <| .consFalse (by decide) .nil

theorem leads_oneByOne {k : Kind} (hk : net.message k = false) :
    Leads net (ends {} {}) (oneByOne k) (ends {} {}) := by
  refine .repeated ?_ _
  refine .consFalse ⟨by decide, fun h => absurd h (by rw [hk]; decide)⟩ ?_
  simp only [Balance.act, Balance.react, hk]
  exact .consFalse ⟨by simp, rfl, rfl, fun h => absurd h (lt_irrefl 0)⟩ .nil

theorem leads_writes {k : ℕ} (h : k + n ≤ maxWr) :
    Leads net (ends { out := List.replicate k .write } {})
      (List.replicate n (false, .post .write))
      (ends { out := List.replicate (k + n) .write } {}) := by
  induction n generalizing k with
  | zero => exact .nil
  | succ n ih =>
    have hn := ih (k := k + 1) (by omega)
    rw [Nat.add_right_comm, List.replicate_succ'] at hn
    refine .consFalse ⟨?_, fun h => absurd h (by decide)⟩ hn
    show (List.replicate k _).length < maxWr
    rw [List.length_replicate]
    omega

theorem sents_replicate (k : Kind) : sents (List.replicate n (.sent k)) = List.replicate n k := by
  induction n with
  | zero => rfl
  | succ n ih => rw [List.replicate_succ, sents_sent, ih, List.replicate_succ]

theorem receiveds_replicate (k : Kind) : receiveds (List.replicate n (.sent k)) = [] := by
  induction n with
  | zero => rfl
  | succ n ih => rw [List.replicate_succ, receiveds_sent, ih]

theorem leads_atOnce : Leads net (ends {} {}) atOnce (ends {} {}) := by
  refine .append (leads_writes (k := 0) (n := count) (by decide)) ?_
  rw [Nat.zero_add]
  exact .consFalse ⟨List.cons_ne_nil _ _, sents_replicate _, receiveds_replicate _,
    fun h => absurd h (lt_irrefl 0)⟩ .nil

theorem leads_opening : Leads net (ends {} {}) opening (ends {} {}) :=
  .consFalse (by decide) <| .consFalse (by decide) <| .consTrue (by decide) <|
    .consTrue (by decide) <| .consFalse (by decide) <| .consTrue (by decide) <|
    .consFalse (by decide) <| .consTrue (by decide) <| .consTrue (by decide) <|
    .consTrue (by decide) <| .consFalse (by decide) .nil

theorem leads_closing :
    Leads net (ends {} {}) closing (ends { out := [.send .byebye] } {}) :=
  .consTrue (by decide) <| .consFalse (by decide) <| .consTrue (by decide) .nil

/-- **The schedule can be followed.** -/
theorem check_schedule : Balance.Check net (fun _ => {}) schedule := by
  have hends : (fun _ => {}) = (ends {} {} : Bool → Balance Kind) := by
    funext x
    cases x <;> rfl
  rw [hends]
  exact (((((leads_opening.append (.flatMap (fun _ => leads_latSend) _)).append
    (.flatMap (fun _ => leads_oneByOne rfl) _)).append
    (.flatMap (fun _ => leads_oneByOne rfl) _)).append
    (.flatMap (fun _ => leads_atOnce) _)).append
    (.flatMap (fun _ => leads_atOnce) _)).append leads_closing |>.check

end

end Benchmark

end RdmaCore

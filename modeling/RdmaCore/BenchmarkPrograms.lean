/-
  The programs of the two threads of the benchmark of
  example/lat_bw_benchmark.cc: what every rest of one of them satisfies.

  * `Rest`: what is left of a program; its first operation may have begun;
  * `of_processCQ`: the operations of each side, and the blocks and lengths
    they are about;
  * `processCQ_eq`: the programs before and after the operation in which the
    server writes its descriptor and the client reads it;
  * `fits_processCQ`: the messages of each side fit the receives of the other,
    one by one;
  * `Rest.reported`: the server waits for a report right after a message.
-/
import RdmaCore.BenchmarkFlow

namespace RdmaCore

namespace Benchmark

/-! ## Repetitions -/

section
variable {α : Type} {n : ℕ} {ops : List Op} {P : Op → Prop}

theorem repeated_succ (n : ℕ) (ops : List Op) : repeated (n + 1) ops = ops ++ repeated n ops := by
  rw [repeated, List.replicate_succ, List.flatten_cons, repeated]

theorem forall_repeated (h : ∀ o ∈ ops, P o) : ∀ o ∈ repeated n ops, P o := by
  intro o ho
  obtain ⟨l, hl, ho⟩ := List.mem_flatten.1 ho
  rw [List.eq_of_mem_replicate hl] at ho
  exact h o ho

theorem le_of_mem_sizes {len : ℕ} (h : len ∈ sizes) : len ≤ blockSize := by
  revert len
  decide

theorem forall_sizes {f : ℕ → List Op} (h : ∀ len ≤ blockSize, ∀ o ∈ f len, P o) :
    ∀ o ∈ sizes.flatMap f, P o := by
  intro o ho
  obtain ⟨len, hlen, ho⟩ := List.mem_flatMap.1 ho
  exact h len (le_of_mem_sizes hlen) o ho

end

/-! ## The operations of the two sides -/

/-- The operation before anything of it has been done. -/
def Op.start : Op → Op
  | exchange request response _ _ => exchange request response false false
  | confirm _ _ ring => confirm 0 0 ring
  | o => o

/-- How much of the operation can have been done. -/
def Op.Under : Op → Prop
  | exchange _ _ send recv => (send && recv) = false
  | confirm index confirmed _ => index ≤ confirmed ∧ confirmed ≤ count
  | _ => True

/-- The operations that side `x` starts. -/
def Op.Of (x : Bool) : Op → Prop
  | recvAt i len => i = 0 ∧ len ≤ blockSize
  | recvNext => x = true
  | syncSend => True
  | syncRecv => True
  | sendAt i len tag =>
    if x then i = 1 ∧ (len = 64 ∧ tag = .responseToRequestBuffer ∨
      len = 0 ∧ tag = .responseToSendTestRequest)
    else i ≤ 1 ∧ len ≤ 64
  | sendNext len _ => x = false ∧ len ≤ blockSize
  | writeNext len => x = false ∧ len ≤ blockSize
  | writeAt i len => x = false ∧ i = 0 ∧ len ≤ blockSize
  | readNext len => x = false ∧ len ≤ blockSize
  | last => True
  | fill => x = true
  | load => x = false
  | awaitSent _ => True
  | awaitRecv _ _ => x = true
  | exchange _ _ send recv => x = false ∧ send = false ∧ recv = false
  | confirm index confirmed _ => x = false ∧ index = 0 ∧ confirmed = 0

theorem Op.Of.start_eq {x : Bool} {o : Op} (h : o.Of x) : o.start = o := by
  cases o with
  | exchange => obtain ⟨-, rfl, rfl⟩ := h; rfl
  | confirm => obtain ⟨-, rfl, rfl⟩ := h; rfl
  | _ => rfl

theorem Op.Of.under {x : Bool} {o : Op} (h : o.Of x) : o.Under := by
  cases o with
  | exchange => obtain ⟨-, rfl, rfl⟩ := h; rfl
  | confirm => obtain ⟨-, rfl, rfl⟩ := h; exact ⟨le_rfl, Nat.zero_le _⟩
  | _ => trivial

/-- **The operations of the two programs.** -/
theorem of_processCQ (x : Bool) : ∀ o ∈ processCQ x, o.Of x := by
  cases x with
  | true =>
    simp only [processCQ, if_true, SchedulingServer.processCQ, SchedulingServer.latSend,
      List.forall_mem_append]
    refine ⟨⟨⟨?_, ?_⟩, forall_sizes fun len _ => ?_⟩, ?_⟩
    case' refine_3 =>
      simp only [List.forall_mem_append]
      refine ⟨⟨⟨?_, forall_repeated ?_⟩, ?_⟩, forall_repeated ?_⟩
    all_goals simp [SchedulingServer.exchangeBufferInfo, Op.Of, blockSize]
  | false =>
    simp only [processCQ, Bool.false_eq_true, if_false, SchedulingClient.processCQ,
      List.forall_mem_append]
    refine ⟨⟨⟨⟨⟨⟨⟨?_, ?_⟩, forall_sizes fun len h => ?_⟩, forall_sizes fun len h => ?_⟩,
      forall_sizes fun len h => ?_⟩, forall_sizes fun len h => ?_⟩, forall_sizes fun len h => ?_⟩,
      ?_⟩
    · simp [Op.Of]
    · simp [SchedulingClient.exchangeBufferInfo, Op.Of]
    · rw [SchedulingClient.latSend, List.forall_mem_append]
      exact ⟨by simp [Op.Of, blockSize], forall_repeated (by simp [Op.Of, h])⟩
    · exact forall_repeated (by simp [Op.Of, h])
    · exact forall_repeated (by simp [Op.Of, h])
    · rw [SchedulingClient.writeBwTest, List.forall_mem_append]
      exact ⟨forall_repeated (by simp [Op.Of, h]), by simp [Op.Of]⟩
    · rw [SchedulingClient.writeBwTestFake, List.forall_mem_append]
      exact ⟨forall_repeated (by simp [Op.Of, h]), by simp [Op.Of]⟩
    · simp [Op.Of]

/-! ## What is left of a program -/

/-- What is left of the program of side `x`; the first operation may have begun. -/
def Rest (x : Bool) : List Op → Prop
  | [] => True
  | o :: t => o.start :: t <:+ processCQ x ∧ o.Under

namespace Rest

variable {x : Bool} {o : Op} {t : List Op}

theorem of_suffix (h : t <:+ processCQ x) : Rest x t := by
  cases t with
  | nil => trivial
  | cons o t =>
    have ho := of_processCQ x o (h.subset List.mem_cons_self)
    exact ⟨by rwa [ho.start_eq], ho.under⟩

theorem init (x : Bool) : Rest x (processCQ x) := of_suffix (List.suffix_refl _)

theorem suffix (h : Rest x (o :: t)) : t <:+ processCQ x := (List.suffix_cons _ _).trans h.1

theorem tail (h : Rest x (o :: t)) : Rest x t := of_suffix h.suffix

theorem of (h : Rest x (o :: t)) : o.start.Of x :=
  of_processCQ x _ (h.1.subset List.mem_cons_self)

end Rest

/-- What is left of a program, with its first operation as at its start. -/
def started : List Op → List Op
  | [] => []
  | o :: t => o.start :: t

theorem Rest.started_suffix {x : Bool} {todo : List Op} (h : Rest x todo) :
    started todo <:+ processCQ x := by
  cases todo with
  | nil => exact List.nil_suffix
  | cons o t => exact h.1

/-! ### The exchange of the descriptor -/

/-- The operation with the descriptor: the server writes it, the client reads it. -/
def exchanged (x : Bool) : Op := if x then .fill else .load

/-- The operations of side `x` before it. -/
def before (x : Bool) : List Op :=
  if x then [.recvAt 0 blockSize, .syncSend, .syncRecv, .awaitRecv .requestBuffer true]
  else [.recvAt 0 blockSize, .syncSend, .syncRecv, .sendAt 1 2 .requestBuffer,
    .exchange .requestBuffer .responseToRequestBuffer false false]

/-- The server sends its descriptor. -/
def answer : List Op :=
  [.sendAt 1 64 .responseToRequestBuffer, .awaitSent (.send .responseToRequestBuffer)]

/-- The tests of the one-sided operations. -/
def oneSided : List Op :=
  sizes.flatMap SchedulingClient.writeTest ++ (sizes.flatMap SchedulingClient.readTest ++
    (sizes.flatMap SchedulingClient.writeBwTest ++ sizes.flatMap SchedulingClient.writeBwTestFake))

/-- The tests of the server. -/
def serverTests : List Op :=
  sizes.flatMap (fun _ => SchedulingServer.latSend) ++ [.recvAt 0 64, .awaitRecv .byebye true]

/-- The tests of the client. -/
def clientTests : List Op :=
  sizes.flatMap SchedulingClient.latSend ++ (oneSided ++ [.sendAt 0 64 .byebye])

/-- The operations of side `x` after the operation with the descriptor. -/
def after (x : Bool) : List Op := if x then answer ++ serverTests else clientTests

theorem processCQ_eq (x : Bool) : processCQ x = before x ++ exchanged x :: after x := by
  cases x with
  | false =>
    simp only [processCQ, Bool.false_eq_true, if_false, SchedulingClient.processCQ, after,
      clientTests, oneSided, List.append_assoc]
    rfl
  | true =>
    simp only [processCQ, if_true, SchedulingServer.processCQ, after, serverTests,
      List.append_assoc]
    rfl

theorem forall_oneSided {P : Op → Prop} (hw : ∀ len, P (.writeNext len))
    (hr : ∀ len, P (.readNext len)) (ha : ∀ len, P (.writeAt 0 len)) (hs : ∀ k, P (.awaitSent k)) (hl : P .last)
    (hc : ∀ ring, P (.confirm 0 0 ring)) : ∀ o ∈ oneSided, P o := by
  simp only [oneSided, List.forall_mem_append]
  refine ⟨forall_sizes fun len _ => forall_repeated ?_,
    forall_sizes fun len _ => forall_repeated ?_, forall_sizes fun len _ => ?_,
    forall_sizes fun len _ => ?_⟩
  · simp [hw, hs, hl]
  · simp [hr, hs, hl]
  · rw [SchedulingClient.writeBwTest, List.forall_mem_append]
    exact ⟨forall_repeated (by simp [hw]), by simp [hc]⟩
  · rw [SchedulingClient.writeBwTestFake, List.forall_mem_append]
    exact ⟨forall_repeated (by simp [ha]), by simp [hc]⟩

theorem forall_serverTests {P : Op → Prop} (hlat : ∀ o ∈ SchedulingServer.latSend, P o)
    (hrecv : P (.recvAt 0 64)) (hbye : P (.awaitRecv .byebye true)) : ∀ o ∈ serverTests, P o := by
  rw [serverTests, List.forall_mem_append]
  exact ⟨forall_sizes fun _ _ => hlat, by simp [hrecv, hbye]⟩

/-- The descriptor is written, and read, once. -/
theorem exchanged_notMem_after (x : Bool) : exchanged x ∉ after x := by
  suffices h : ∀ o ∈ after x, o ≠ exchanged x from fun hmem => h _ hmem rfl
  cases x with
  | true =>
    rw [after, if_pos rfl, List.forall_mem_append]
    refine ⟨by simp [answer, exchanged], forall_serverTests ?_ ?_ ?_⟩
    case refine_1 =>
      simp only [SchedulingServer.latSend, List.forall_mem_append]
      exact ⟨⟨⟨by simp [exchanged], forall_repeated (by simp [exchanged])⟩, by simp [exchanged]⟩,
        forall_repeated (by simp [exchanged])⟩
    all_goals simp [exchanged]
  | false =>
    simp only [after, Bool.false_eq_true, if_false, clientTests, List.forall_mem_append]
    refine ⟨forall_sizes fun len _ => ?_, forall_oneSided ?_ ?_ ?_ ?_ ?_ ?_, by simp [exchanged]⟩
    case' refine_1 =>
      rw [SchedulingClient.latSend, List.forall_mem_append]
      refine ⟨?_, forall_repeated ?_⟩
    all_goals simp [exchanged]

theorem Op.start_eq_exchanged {x : Bool} {o : Op} : o.start = exchanged x ↔ o = exchanged x := by
  cases x <;> cases o <;> simp [start, exchanged]

theorem exchanged_mem_started {x : Bool} {todo : List Op} :
    exchanged x ∈ started todo ↔ exchanged x ∈ todo := by
  cases todo with
  | nil => rfl
  | cons o t =>
    rw [started, List.mem_cons, List.mem_cons, eq_comm, Op.start_eq_exchanged, eq_comm]

namespace Rest

variable {x : Bool} {o : Op} {t todo : List Op}

/-- What is left while the descriptor is to be exchanged. -/
theorem suffix_of_mem (h : Rest x todo) (hmem : exchanged x ∈ todo) :
    exchanged x :: after x <:+ started todo := by
  have hsuffix : exchanged x :: after x <:+ processCQ x := ⟨before x, (processCQ_eq x).symm⟩
  rcases List.suffix_or_suffix_of_suffix h.started_suffix hsuffix with hs | hs
  · rcases List.suffix_cons_iff.1 hs with heq | hs
    · rw [heq]
    · exact absurd (hs.subset (exchanged_mem_started.2 hmem)) (exchanged_notMem_after x)
  · exact hs

/-- What is left once the descriptor is exchanged. -/
theorem suffix_after (h : Rest x todo) (hmem : exchanged x ∉ todo) : started todo <:+ after x := by
  have hsuffix : exchanged x :: after x <:+ processCQ x := ⟨before x, (processCQ_eq x).symm⟩
  rw [← exchanged_mem_started] at hmem
  rcases List.suffix_or_suffix_of_suffix h.started_suffix hsuffix with hs | hs
  · rcases List.suffix_cons_iff.1 hs with heq | hs
    · exact absurd (heq ▸ List.mem_cons_self) hmem
    · exact hs
  · exact absurd (hs.subset List.mem_cons_self) hmem

/-- The next operation while the descriptor is to be exchanged. -/
theorem mem_before (h : Rest x (o :: t)) (hmem : exchanged x ∈ o :: t) :
    o.start ∈ before x ∨ o = exchanged x ∧ t = after x := by
  obtain ⟨u, hu⟩ := h.suffix_of_mem hmem
  obtain ⟨p, hp⟩ := h.started_suffix
  cases u with
  | nil =>
    obtain ⟨ho, ht⟩ := List.cons.inj hu
    exact .inr ⟨Op.start_eq_exchanged.1 ho.symm, ht.symm⟩
  | cons o' u =>
    obtain ⟨rfl, -⟩ := List.cons.inj hu
    rw [← hu, processCQ_eq, ← List.append_assoc] at hp
    rw [← List.append_cancel_right hp]
    exact .inl (List.mem_append_right _ List.mem_cons_self)

end Rest

/-! ### Reports of the server -/

/-- Every wait for a report comes right after a message. -/
def Reported (l : List Op) : Prop :=
  ∀ p k t, l = p ++ .awaitSent k :: t → ∃ p' i len tag, p = p' ++ [.sendAt i len tag]

theorem Reported.append {l l' : List Op} (h : Reported l) (h' : Reported l') :
    Reported (l ++ l') := by
  intro p k t hp
  rcases List.append_eq_append_iff.1 hp with ⟨r, rfl, hr⟩ | ⟨r, hl, hr⟩
  · obtain ⟨p', i, len, tag, rfl⟩ := h' r k t hr
    exact ⟨l ++ p', i, len, tag, (List.append_assoc ..).symm⟩
  · cases r with
    | nil =>
      obtain ⟨p', i, len, tag, hnil⟩ := h' [] k t hr.symm
      exact absurd hnil (List.append_ne_nil_of_right_ne_nil _ (List.cons_ne_nil _ _)).symm
    | cons o r =>
      obtain ⟨rfl, -⟩ := List.cons.inj hr
      exact h p k r hl

/-- Operations without such waits. -/
theorem Reported.of_forall {l : List Op} (h : ∀ o ∈ l, ∀ k, o ≠ .awaitSent k) : Reported l :=
  fun _ k _ hl => absurd rfl
    (h (.awaitSent k) (hl ▸ List.mem_append_right _ List.mem_cons_self) k)

theorem Reported.flatMap {ops : List Op} (h : Reported ops) (l : List ℕ) :
    Reported (l.flatMap fun _ => ops) := by
  induction l with
  | nil => exact .of_forall (List.forall_mem_nil _)
  | cons a l ih => exact h.append ih

/-- A message with the wait for its report. -/
theorem Reported.single (i len : ℕ) (tag : MessageforTest) (k : Kind) :
    Reported [.sendAt i len tag, .awaitSent k] := by
  intro p k' t hl
  match p with
  | [] => cases hl
  | [o] =>
    obtain ⟨rfl, -⟩ := List.cons.inj hl
    exact ⟨[], i, len, tag, rfl⟩
  | _ :: _ :: p => simp at hl

theorem reported_processCQ : Reported (processCQ true) := by
  have hlat : Reported SchedulingServer.latSend := by
    rw [SchedulingServer.latSend]
    refine ((Reported.append ?_ ?_).append (.single _ _ _ _)).append ?_
    · exact .of_forall (by simp)
    · exact .of_forall (forall_repeated (by simp))
    · exact .of_forall (forall_repeated (by simp))
  have hbefore : Reported (before true ++ [exchanged true]) :=
    .of_forall (by simp [before, exchanged])
  rw [processCQ_eq, List.append_cons, after, if_pos rfl]
  refine hbefore.append (.append (.single _ _ _ _) ((hlat.flatMap _).append ?_))
  exact .of_forall (by simp)

/-- **The server waits for a report** right after a message. -/
theorem Rest.reported {o : Op} {k : Kind} {t : List Op} (h : Rest true (o :: .awaitSent k :: t)) :
    ∃ i len tag, o = .sendAt i len tag := by
  obtain ⟨p, hp⟩ := h.1
  obtain ⟨p', i, len, tag, hlast⟩ :=
    reported_processCQ (p ++ [o.start]) k t (by rw [← hp]; simp)
  obtain ⟨-, ho⟩ := List.append_inj' hlast rfl
  refine ⟨i, len, tag, ?_⟩
  cases o <;> simp_all [Op.start]

/-! ## Messages -/

/-- The lengths of the messages that an operation sends. -/
def Op.lens : Op → List ℕ
  | sendAt _ len _ => [len]
  | sendNext len _ => [len]
  | _ => []

/-- The lengths of the receives that an operation posts. -/
def Op.limits : Op → List ℕ
  | recvAt _ len => [len]
  | recvNext => [blockSize]
  | _ => []

/-- The messages that an operation waits for. -/
def Op.awaits : Op → ℕ
  | awaitRecv .. => 1
  | exchange _ _ _ recv => if recv then 0 else 1
  | _ => 0

/-- The messages that the operations `ops` wait for. -/
def awaits (ops : List Op) : ℕ := (ops.map Op.awaits).sum

section
variable (o : Op) (ops ops' : List Op)

@[simp] theorem awaits_nil : awaits [] = 0 := by
  simp [awaits]

@[simp] theorem awaits_cons : awaits (o :: ops) = o.awaits + awaits ops := by
  simp [awaits]

@[simp] theorem awaits_append : awaits (ops ++ ops') = awaits ops + awaits ops' := by
  simp [awaits]

theorem lens_start : o.start.lens = o.lens := by
  cases o <;> rfl

theorem awaits_le_start : o.awaits ≤ o.start.awaits := by
  cases o with
  | exchange request response send recv => cases recv <;> simp [Op.awaits, Op.start]
  | _ => exact le_rfl

theorem lens_started : (started ops).flatMap Op.lens = ops.flatMap Op.lens := by
  cases ops with
  | nil => rfl
  | cons o t => rw [started, List.flatMap_cons, List.flatMap_cons, lens_start]

theorem awaits_le_started : awaits ops ≤ awaits (started ops) := by
  cases ops with
  | nil => exact le_rfl
  | cons o t =>
    rw [started, awaits_cons, awaits_cons]
    exact Nat.add_le_add_right (awaits_le_start o) _

variable {ops ops'}

theorem awaits_le_of_suffix (h : ops <:+ ops') : awaits ops ≤ awaits ops' := by
  obtain ⟨p, rfl⟩ := h
  rw [awaits_append]
  exact Nat.le_add_left ..

theorem length_lens_le_of_suffix (h : ops <:+ ops') :
    (ops.flatMap Op.lens).length ≤ (ops'.flatMap Op.lens).length := by
  obtain ⟨p, rfl⟩ := h
  rw [List.flatMap_append, List.length_append]
  exact Nat.le_add_left ..

end

theorem flatMap_repeated_one {f : Op → List ℕ} {ops : List Op} {n a : ℕ} (h : ops.flatMap f = [a]) :
    (repeated n ops).flatMap f = List.replicate n a := by
  induction n with
  | zero => rfl
  | succ n ih => rw [repeated_succ, List.flatMap_append, ih, h]; rfl

theorem flatMap_repeated_nil {f : Op → List ℕ} {ops : List Op} {n : ℕ} (h : ops.flatMap f = []) :
    (repeated n ops).flatMap f = [] :=
  List.flatMap_eq_nil_iff.2 (forall_repeated (List.flatMap_eq_nil_iff.1 h))

theorem lens_client : (processCQ false).flatMap Op.lens =
    2 :: (sizes.flatMap (fun len => 2 :: List.replicate count len) ++ [64]) := by
  have hbefore : (before false).flatMap Op.lens = [2] := rfl
  have hlat : ∀ len, (SchedulingClient.latSend len).flatMap Op.lens =
      2 :: List.replicate count len := by
    intro len
    rw [SchedulingClient.latSend, List.flatMap_append, flatMap_repeated_one rfl]
    rfl
  have hone : oneSided.flatMap Op.lens = [] :=
    List.flatMap_eq_nil_iff.2 (forall_oneSided (fun _ => rfl) (fun _ => rfl) (fun _ => rfl)
      (fun _ => rfl) rfl fun _ => rfl)
  simp only [processCQ_eq, after, clientTests, Bool.false_eq_true, if_false, List.flatMap_append,
    List.flatMap_cons, List.flatMap_nil, List.flatMap_assoc, hbefore, hlat, hone, exchanged, Op.lens,
    List.nil_append, List.singleton_append]

theorem limits_client : (processCQ false).flatMap Op.limits =
    blockSize :: sizes.flatMap (fun _ => [64]) := by
  have hbefore : (before false).flatMap Op.limits = [blockSize] := rfl
  have hlat : ∀ len, (SchedulingClient.latSend len).flatMap Op.limits = [64] := by
    intro len
    rw [SchedulingClient.latSend, List.flatMap_append, flatMap_repeated_nil rfl]
    rfl
  have hone : oneSided.flatMap Op.limits = [] :=
    List.flatMap_eq_nil_iff.2 (forall_oneSided (fun _ => rfl) (fun _ => rfl) (fun _ => rfl)
      (fun _ => rfl) rfl fun _ => rfl)
  simp only [processCQ_eq, after, clientTests, Bool.false_eq_true, if_false, List.flatMap_append,
    List.flatMap_cons, List.flatMap_nil, List.flatMap_assoc, hbefore, hlat, hone, exchanged,
    Op.limits, List.nil_append, List.singleton_append, List.append_nil]

theorem lens_server : (processCQ true).flatMap Op.lens = 64 :: sizes.flatMap (fun _ => [0]) := by
  have hbefore : (before true).flatMap Op.lens = [] := rfl
  have hanswer : answer.flatMap Op.lens = [64] := rfl
  have hlat : SchedulingServer.latSend.flatMap Op.lens = [0] := by
    rw [SchedulingServer.latSend, List.flatMap_append, List.flatMap_append, List.flatMap_append,
      flatMap_repeated_nil rfl, flatMap_repeated_nil rfl]
    rfl
  simp only [processCQ_eq, after, serverTests, if_true, List.flatMap_append, List.flatMap_cons,
    List.flatMap_nil, List.flatMap_assoc, hbefore, hanswer, hlat, exchanged, Op.lens,
    List.nil_append, List.singleton_append, List.append_nil]

theorem limits_server : (processCQ true).flatMap Op.limits =
    blockSize :: (sizes.flatMap (fun _ => 64 :: List.replicate count blockSize) ++ [64]) := by
  have hbefore : (before true).flatMap Op.limits = [blockSize] := rfl
  have hanswer : answer.flatMap Op.limits = [] := rfl
  have hlat : SchedulingServer.latSend.flatMap Op.limits =
      64 :: List.replicate count blockSize := by
    rw [SchedulingServer.latSend, List.flatMap_append, List.flatMap_append, List.flatMap_append,
      flatMap_repeated_one rfl, flatMap_repeated_nil rfl, List.append_assoc]
    exact congrArg (64 :: ·) (List.append_nil _)
  simp only [processCQ_eq, after, serverTests, if_true, List.flatMap_append, List.flatMap_cons,
    List.flatMap_nil, List.flatMap_assoc, hbefore, hanswer, hlat, exchanged, Op.limits,
    List.nil_append, List.singleton_append, List.append_nil]

theorem forall₂_replicate {a b : ℕ} (h : a ≤ b) (n : ℕ) :
    List.Forall₂ (· ≤ ·) (List.replicate n a) (List.replicate n b) := by
  induction n with
  | zero => exact .nil
  | succ n ih => exact .cons h ih

theorem forall₂_flatMap {f g : ℕ → List ℕ} {l : List ℕ}
    (h : ∀ a ∈ l, List.Forall₂ (· ≤ ·) (f a) (g a)) :
    List.Forall₂ (· ≤ ·) (l.flatMap f) (l.flatMap g) := by
  induction l with
  | nil => exact .nil
  | cons a l ih =>
    obtain ⟨ha, hl⟩ := List.forall_mem_cons.1 h
    exact List.rel_append ha (ih hl)

/-- **The messages of each side fit the receives of the other.** -/
theorem fits_processCQ (x : Bool) : List.Forall₂ (· ≤ ·) ((processCQ x).flatMap Op.lens)
    ((processCQ (!x)).flatMap Op.limits) := by
  cases x with
  | false =>
    rw [Bool.not_false, lens_client, limits_server]
    exact .cons (by decide) (List.rel_append (forall₂_flatMap fun len h =>
      .cons (by decide) (forall₂_replicate (le_of_mem_sizes h) _)) (.cons le_rfl .nil))
  | true =>
    rw [Bool.not_true, lens_server, limits_client]
    exact .cons (by decide) (forall₂_flatMap fun _ _ => .cons (Nat.zero_le _) .nil)

/-! ### Before and after the exchange -/

theorem two_le_lens (x : Bool) : 2 ≤ ((processCQ x).flatMap Op.lens).length := by
  have hsizes : sizes = 1 :: sizes.tail := rfl
  cases x with
  | true =>
    rw [lens_server, hsizes, List.flatMap_cons, List.length_cons, List.length_append]
    simp only [List.length_singleton]
    omega
  | false =>
    rw [lens_client, List.length_cons, List.length_append, List.length_singleton]
    omega

theorem awaits_eq (x : Bool) : awaits (processCQ x) = 1 + awaits (after x) := by
  have hbefore : awaits (before x) = 1 := by cases x <;> rfl
  have hexchanged : (exchanged x).awaits = 0 := by cases x <;> rfl
  rw [processCQ_eq, awaits_append, awaits_cons, hbefore, hexchanged, Nat.zero_add]

/-- The server answers the request; the client has sent it. -/
theorem lens_eq (x : Bool) : (processCQ x).flatMap Op.lens =
    (if x then [] else [2]) ++ (after x).flatMap Op.lens := by
  have hbefore : (before x).flatMap Op.lens = if x then [] else [2] := by cases x <;> rfl
  have hexchanged : (exchanged x).lens = [] := by cases x <;> rfl
  rw [processCQ_eq, List.flatMap_append, List.flatMap_cons, hbefore, hexchanged, List.nil_append]

namespace Rest

variable {x : Bool} {todo : List Op}

/-- Once the descriptor is exchanged, a message has been received. -/
theorem awaits_lt (h : Rest x todo) (hmem : exchanged x ∉ todo) :
    awaits todo < awaits (processCQ x) := by
  have hle := awaits_le_of_suffix (h.suffix_after hmem)
  have hstarted := awaits_le_started todo
  rw [awaits_eq]
  omega

/-- Before the descriptor is exchanged, the messages after it are not sent. -/
theorem le_length_lens (h : Rest x todo) (hmem : exchanged x ∈ todo) :
    ((after x).flatMap Op.lens).length ≤ (todo.flatMap Op.lens).length := by
  rw [← lens_started todo]
  exact length_lens_le_of_suffix ((List.suffix_cons _ _).trans (h.suffix_of_mem hmem))

/-- A server that has received at most one message has not sent more than its answer. -/
theorem server_lens (h : Rest true todo) (hle : awaits (processCQ true) ≤ awaits todo + 1) :
    ((processCQ true).flatMap Op.lens).length ≤ (todo.flatMap Op.lens).length + 1 := by
  obtain ⟨rest, hrest⟩ : ∃ rest, serverTests =
      [.recvAt 0 64, .awaitRecv .sendTestRequest false] ++ rest := by
    have hsizes : sizes = 1 :: sizes.tail := rfl
    rw [serverTests, hsizes, List.flatMap_cons, SchedulingServer.latSend]
    simp only [List.append_assoc]
    exact ⟨_, rfl⟩
  have hafter : after true =
      answer ++ [.recvAt 0 64, .awaitRecv .sendTestRequest false] ++ rest := by
    rw [after, if_pos rfl, hrest, List.append_assoc]
  have hfirst : (answer ++ [Op.recvAt 0 64, .awaitRecv .sendTestRequest false]).flatMap Op.lens =
      [64] := rfl
  have hwaits : awaits (answer ++ [.recvAt 0 64, .awaitRecv .sendTestRequest false]) = 1 := rfl
  have hsuffix : rest <:+ processCQ true := by
    rw [processCQ_eq, hafter]
    exact (List.suffix_append _ _).trans ((List.suffix_cons _ _).trans (List.suffix_append _ _))
  rcases List.suffix_or_suffix_of_suffix h.started_suffix hsuffix with hs | hs
  · have hstarted := awaits_le_started todo
    have hs := awaits_le_of_suffix hs
    rw [awaits_eq, hafter, awaits_append, hwaits] at hle
    omega
  · have hs := length_lens_le_of_suffix hs
    rw [lens_started] at hs
    rw [lens_eq, hafter, List.flatMap_append, hfirst]
    simp only [if_true, List.nil_append, List.length_append, List.length_singleton]
    omega

end Rest

end Benchmark

end RdmaCore

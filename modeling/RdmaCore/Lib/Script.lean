/-
  Straight-line programs at the two ends of a reliable connection: each posts
  requests and receives, waits for completions, and waits for a signal of the
  other end.

  * `Past`: what an end has done, as far as its queues show it;
  * `History.step`: in every run of any two programs, what the ends have done
    accounts for what is in their queues.
-/
import RdmaCore.Lib.Conduit

open Conduit

namespace Script

variable {K : Type}

inductive Op (K : Type) where
  | post (k : K)
  | recv
  /-- waits for the completions `cs`, in any order -/
  | await (cs : List (Completion K))
  | signal
  /-- waits for a signal -/
  | wait

/-- The requests of a connection, and the room in the queues. -/
structure Net (K : Type) where
  /-- the request is a message -/
  message : K → Bool
  /-- a message that may come while its receiver waits for reports -/
  early : K → Bool
  sendRoom : ℕ
  recvRoom : ℕ

def Op.effect : Op K → Effect K
  | post k => .post k
  | recv => .recv
  | await _ => .poll
  | signal => .signal
  | wait => .await

/-- What is left after one of the completions `cs`. -/
def resume [DecidableEq K] (cs : List (Completion K)) (c : Completion K) (t : List (Op K)) :
    List (Op K) :=
  if cs.erase c = [] then t else .await (cs.erase c) :: t

/-- The wait for the completions `cs`, if there are any. -/
def wait (cs : List (Completion K)) : List (Op K) := if cs = [] then [] else [.await cs]

theorem resume_eq [DecidableEq K] (cs : List (Completion K)) (c : Completion K) (t : List (Op K)) :
    resume cs c t = wait (cs.erase c) ++ t := by
  unfold resume wait
  split <;> rfl

def program [DecidableEq K] (N : Net K) : Program (Op K) K where
  effect := Op.effect
  message := N.message
  Handle _ todo c todo' := ∃ cs t, todo = .await cs :: t ∧ c ∈ cs ∧ todo' = resume cs c t

/-! ## What an end has done -/

/-- The requests reported by the completions `cs`. -/
def sents (cs : List (Completion K)) : List K :=
  cs.filterMap fun c => match c with
    | .sent k => some k
    | .received _ => none

/-- The messages received by the completions `cs`. -/
def receiveds (cs : List (Completion K)) : List K :=
  cs.filterMap fun c => match c with
    | .sent _ => none
    | .received k => some k

section
variable (k : K) (cs cs' : List (Completion K))

@[simp] theorem sents_nil : sents ([] : List (Completion K)) = [] := rfl

@[simp] theorem receiveds_nil : receiveds ([] : List (Completion K)) = [] := rfl

@[simp] theorem sents_sent : sents (.sent k :: cs) = k :: sents cs := rfl

@[simp] theorem sents_received : sents (.received k :: cs) = sents cs := rfl

@[simp] theorem receiveds_sent : receiveds (.sent k :: cs) = receiveds cs := rfl

@[simp] theorem receiveds_received : receiveds (.received k :: cs) = k :: receiveds cs := rfl

@[simp] theorem sents_append : sents (cs ++ cs') = sents cs ++ sents cs' := List.filterMap_append

@[simp] theorem receiveds_append : receiveds (cs ++ cs') = receiveds cs ++ receiveds cs' :=
  List.filterMap_append

end

/-- What an end has done. -/
structure Past (K : Type) where
  posts : List K := []
  sents : List K := []
  receiveds : List K := []
  recvs : ℕ := 0
  signals : ℕ := 0
  waits : ℕ := 0
  /-- for each message posted, how many had been received before -/
  stamps : List ℕ := []

namespace Past

variable (N : Net K)

def add (p : Past K) : Op K → Past K
  | .post k => { p with
      posts := p.posts ++ [k]
      stamps := if N.message k then p.stamps ++ [p.receiveds.length] else p.stamps }
  | .recv => { p with recvs := p.recvs + 1 }
  | .await cs => { p with
      sents := p.sents ++ Script.sents cs
      receiveds := p.receiveds ++ Script.receiveds cs }
  | .signal => { p with signals := p.signals + 1 }
  | .wait => { p with waits := p.waits + 1 }

/-- The messages posted. -/
def messages (p : Past K) : List K := p.posts.filter N.message

/-- What the operations `d` do. -/
def of (d : List (Op K)) : Past K := d.foldl (add N) {}

theorem of_append (d d' : List (Op K)) : of N (d ++ d') = d'.foldl (add N) (of N d) :=
  List.foldl_append ..

theorem of_concat (d : List (Op K)) (o : Op K) : of N (d ++ [o]) = (of N d).add N o :=
  of_append ..

end Past

/-- What a step adds to the past of an end. -/
def did : Label (Op K) K → Bool → List (Op K)
  | .op y o, x => if x = y then [o] else []
  | .handle y _ c _, x => if x = y then [.await [c]] else []
  | .deliver _ _, _ => []
  | .report _ _, _ => []

/-- The pasts after a step. -/
def record (N : Net K) (past : Bool → Past K) (lab : Label (Op K) K) (x : Bool) : Past K :=
  (did lab x).foldl (Past.add N) (past x)

/-! ## Histories -/

/-- What the ends have done accounts for what is in their queues. -/
structure History (N : Net K) (past : Bool → Past K) (s : State (Op K) K) : Prop where
  sent : ∀ x, (past x).sents ++ sents (s.side x).cq ++ (s.side x).acks ++ (s.side x).sq =
    (past x).posts
  received : ∀ x, (past x).receiveds ++ receiveds (s.side x).cq ++
    (s.side (!x)).sq.filter N.message = (past (!x)).messages N
  recvs : ∀ x, (past x).recvs =
    (s.side x).rq + (past x).receiveds.length + (receiveds (s.side x).cq).length
  signals : ∀ x, s.signals x + (past (!x)).waits = (past x).signals
  stamps : ∀ x, (past x).stamps.length = ((past x).messages N).length
  stamp : ∀ x, ∀ n ∈ (past x).stamps, n ≤ (past x).receiveds.length

section
variable {N : Net K} {past : Bool → Past K} {s s' : State (Op K) K} {lab : Label (Op K) K}

/-- What a step does to the queues of an end. -/
inductive Move (N : Net K) (e : End (Op K) K) (p : Past K) : End (Op K) K → Past K → Prop where
  | stay {e' : End (Op K) K} {signals waits : ℕ} (hsq : e'.sq = e.sq) (hacks : e'.acks = e.acks)
      (hcq : e'.cq = e.cq) (hrq : e'.rq = e.rq) : Move N e p e' { p with signals, waits }
  | post {k : K} {todo : List (Op K)} :
      Move N e p { e with todo, sq := e.sq ++ [k] } (p.add N (.post k))
  | recv {todo : List (Op K)} : Move N e p { e with todo, rq := e.rq + 1 } (p.add N .recv)
  | take {c : Completion K} {cq : List (Completion K)} {todo : List (Op K)}
      (hq : e.cq = c :: cq) : Move N e p { e with todo, cq } (p.add N (.await [c]))
  | deliver {k : K} {sq : List K} (hq : e.sq = k :: sq) :
      Move N e p { e with sq, acks := e.acks ++ [k] } p
  | receive {k : K} (hr : 0 < e.rq) :
      Move N e p { e with rq := e.rq - 1, cq := e.cq ++ [.received k] } p
  | report {k : K} {acks : List K} (ha : e.acks = k :: acks) :
      Move N e p { e with acks, cq := e.cq ++ [.sent k] } p

theorem Move.idle {e : End (Op K) K} {p : Past K} : Move N e p e p :=
  .stay rfl rfl rfl rfl

theorem eq_or_eq_not (x y : Bool) : x = y ∨ x = !y := by
  cases x <;> cases y <;> simp

@[simp] theorem record_op (x : Bool) (o : Op K) :
    record N past (.op x o) x = (past x).add N o := by simp [record, did]

@[simp] theorem record_op_not (x : Bool) (o : Op K) :
    record N past (.op x o) (!x) = past (!x) := by simp [record, did]

@[simp] theorem record_handle (x : Bool) (todo todo' : List (Op K)) (c : Completion K) :
    record N past (.handle x todo c todo') x = (past x).add N (.await [c]) := by
  simp [record, did]

@[simp] theorem record_handle_not (x : Bool) (todo todo' : List (Op K)) (c : Completion K) :
    record N past (.handle x todo c todo') (!x) = past (!x) := by simp [record, did]

/-! ### One end -/

variable {e e' : End (Op K) K} {p p' : Past K}

theorem Move.sent (hm : Move N e p e' p')
    (h : p.sents ++ sents e.cq ++ e.acks ++ e.sq = p.posts) :
    p'.sents ++ sents e'.cq ++ e'.acks ++ e'.sq = p'.posts := by
  cases hm with
  | stay hsq hacks hcq hrq => rw [hsq, hacks, hcq]; exact h
  | post => simp [Past.add, ← h]
  | recv => exact h
  | @take c cq todo hq => cases c <;> simpa [Past.add, hq] using h
  | deliver hq => simpa [hq] using h
  | receive hr => simpa using h
  | report ha => simpa [ha] using h

theorem Move.recvs (hm : Move N e p e' p')
    (h : p.recvs = e.rq + p.receiveds.length + (receiveds e.cq).length) :
    p'.recvs = e'.rq + p'.receiveds.length + (receiveds e'.cq).length := by
  cases hm with
  | stay hsq hacks hcq hrq => rw [hrq, hcq]; exact h
  | post => exact h
  | recv => simp only [Past.add]; omega
  | @take c cq todo hq =>
    cases c <;> simp [Past.add, hq] at h ⊢ <;> omega
  | deliver hq => exact h
  | receive hr => simp; omega
  | report ha => simpa using h

theorem Move.stamps (hm : Move N e p e' p') (h : p.stamps.length = (p.messages N).length) :
    p'.stamps.length = (p'.messages N).length := by
  cases hm with
  | @post k todo =>
    by_cases hk : N.message k = true <;> simpa [Past.add, Past.messages, hk] using h
  | _ => exact h

theorem Move.stamp (hm : Move N e p e' p') (h : ∀ n ∈ p.stamps, n ≤ p.receiveds.length) :
    ∀ n ∈ p'.stamps, n ≤ p'.receiveds.length := by
  intro n hn
  cases hm with
  | @post k todo =>
    simp only [Past.add] at hn ⊢
    split at hn
    · rcases List.mem_append.1 hn with hn | hn
      · exact h n hn
      · rw [List.mem_singleton.1 hn]
    · exact h n hn
  | @take c cq todo hq =>
    simp only [Past.add, List.length_append]
    have := h n hn
    omega
  | _ => exact h n hn

/-- The start of two programs. -/
theorem History.init (N : Net K) (todo : Bool → List (Op K)) :
    History N (fun _ => {}) { side := fun x => { todo := todo x } } where
  sent _ := rfl
  received _ := rfl
  recvs _ := rfl
  signals _ := rfl
  stamps _ := rfl
  stamp _ _ hn := absurd hn List.not_mem_nil

/-! ### Both ends -/

variable [DecidableEq K]

theorem step_moves (hs : Step (program N) s lab s') (x : Bool) :
    Move N (s.side x) (past x) (s'.side x) (record N past lab x) := by
  cases hs with
  | @op y o todo ht hw hp =>
    rcases eq_or_eq_not x y with rfl | rfl
    · rw [record_op]
      cases o with
      | await cs => exact absurd rfl hp
      | post k =>
        simp only [program, Op.effect, State.apply, State.set_side_self]
        exact .post
      | recv =>
        simp only [program, Op.effect, State.apply, State.set_side_self]
        exact .recv
      | signal | wait =>
        simp only [program, Op.effect, State.apply, State.setSignals_side, State.set_side_self]
        exact .stay rfl rfl rfl rfl
    · rw [record_op_not]
      cases o with
      | await cs => exact absurd rfl hp
      | post k | recv =>
        simp only [program, Op.effect, State.apply, State.set_side_not]
        exact .idle
      | signal | wait =>
        simp only [program, Op.effect, State.apply, State.setSignals_side, State.set_side_not]
        exact .idle
  | @handle y c cq todo hq hh =>
    rcases eq_or_eq_not x y with rfl | rfl
    · rw [record_handle, State.set_side_self]
      exact .take hq
    · rw [record_handle_not, State.set_side_not]
      exact .idle
  | @message y k sq hq hk hr =>
    rcases eq_or_eq_not x y with rfl | rfl
    · rw [State.set_not_side, State.set_side_self]
      exact .deliver hq
    · rw [State.set_side_self]
      exact .receive hr
  | @oneSided y k sq hq hk =>
    rcases eq_or_eq_not x y with rfl | rfl
    · rw [State.set_side_self]
      exact .deliver hq
    · rw [State.set_side_not]
      exact .idle
  | @report y k acks ha =>
    rcases eq_or_eq_not x y with rfl | rfl
    · rw [State.set_side_self]
      exact .report ha
    · rw [State.set_side_not]
      exact .idle

theorem History.received_step (h : History N past s) (hs : Step (program N) s lab s') (x : Bool) :
    (record N past lab x).receiveds ++ receiveds (s'.side x).cq ++
      (s'.side (!x)).sq.filter N.message = (record N past lab (!x)).messages N := by
  have hx := h.received x
  cases hs with
  | @op y o todo ht hw hp =>
    rcases eq_or_eq_not x y with rfl | rfl
    · cases o with
      | await cs => exact absurd rfl hp
      | _ => simpa [program, Op.effect, State.apply, Past.add] using hx
    · cases o with
      | await cs => exact absurd rfl hp
      | post k =>
        simp [program, Op.effect, State.apply, Past.add, Past.messages] at hx ⊢
        rw [← hx, List.append_assoc, List.append_assoc]
      | _ => simpa [program, Op.effect, State.apply, Past.add, Past.messages] using hx
  | @handle y c cq todo hq hh =>
    rcases eq_or_eq_not x y with rfl | rfl
    · cases c <;> simpa [Past.add, hq] using hx
    · simpa [Past.add, Past.messages] using hx
  | @message y k sq hq hk hr =>
    have hk' : N.message k = true := hk
    rcases eq_or_eq_not x y with rfl | rfl
    · simpa [record, did] using hx
    · simpa [record, did, hq, hk'] using hx
  | @oneSided y k sq hq hk =>
    have hk' : N.message k = false := hk
    rcases eq_or_eq_not x y with rfl | rfl
    · simpa [record, did] using hx
    · simpa [record, did, hq, hk'] using hx
  | @report y k acks ha =>
    rcases eq_or_eq_not x y with rfl | rfl
    · simpa [record, did] using hx
    · simpa [record, did] using hx

theorem History.signals_step (h : History N past s) (hs : Step (program N) s lab s') (x : Bool) :
    s'.signals x + (record N past lab (!x)).waits = (record N past lab x).signals := by
  have hx := h.signals x
  cases hs with
  | @op y o todo ht hw hp =>
    rcases eq_or_eq_not x y with rfl | rfl
    · cases o with
      | await cs => exact absurd rfl hp
      | signal =>
        simp [program, Op.effect, State.apply, Past.add]
        omega
      | _ => simpa [program, Op.effect, State.apply, Past.add] using hx
    · cases o with
      | await cs => exact absurd rfl hp
      | wait =>
        have hpos := hw rfl
        simp [program, Op.effect, State.apply, Past.add] at hx ⊢
        omega
      | _ => simpa [program, Op.effect, State.apply, Past.add] using hx
  | @handle y c cq todo hq hh =>
    rcases eq_or_eq_not x y with rfl | rfl
    · simpa [Past.add] using hx
    · simpa [Past.add] using hx
  | _ => simpa [record, did] using hx

/-- **Every step keeps the history.** -/
theorem History.step (h : History N past s) (hs : Step (program N) s lab s') :
    History N (record N past lab) s' where
  sent x := (step_moves hs x).sent (h.sent x)
  received := h.received_step hs
  recvs x := (step_moves hs x).recvs (h.recvs x)
  signals := h.signals_step hs
  stamps x := (step_moves hs x).stamps (h.stamps x)
  stamp x := (step_moves hs x).stamp (h.stamp x)

end

end Script

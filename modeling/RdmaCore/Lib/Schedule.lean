/-
  Schedules of two programs: one list in which the operations of both are
  interleaved, and in which every wait takes all that is under way.

  * `Balance.Check`: a schedule can be followed; a message finds a receive, and
    may come while its receiver waits for a report only if it is early and
    its sender has received all that the receiver has sent;
  * `agrees_of_check`: the balances at a place of a schedule account for what
    the ends have done before it;
  * `Place`: how far an end is in a schedule.
-/
import RdmaCore.Lib.Script
import Mathlib.Data.List.Induction

open Conduit

namespace Script

variable {K : Type}

/-- What end `x` does in a schedule. -/
def project (x : Bool) (G : List (Bool × Op K)) : List (Op K) :=
  G.filterMap fun e => if e.1 = x then some e.2 else none

section
variable (x : Bool) (o : Op K) (G G' : List (Bool × Op K))

@[simp] theorem project_nil : project x ([] : List (Bool × Op K)) = [] := rfl

@[simp] theorem project_cons : project x ((x, o) :: G) = o :: project x G := by simp [project]

@[simp] theorem project_cons_not : project x ((!x, o) :: G) = project x G := by simp [project]

@[simp] theorem project_not_cons : project (!x) ((x, o) :: G) = project (!x) G := by
  simp [project]

@[simp] theorem project_append : project x (G ++ G') = project x G ++ project x G' :=
  List.filterMap_append

end

/-- An operation of an end is an operation of the schedule. -/
theorem exists_of_project {x : Bool} {G : List (Bool × Op K)} {o : Op K} {d t : List (Op K)}
    (h : project x G = d ++ o :: t) :
    ∃ pre post, G = pre ++ (x, o) :: post ∧ project x pre = d ∧ project x post = t := by
  obtain ⟨G₁, G₂, rfl, h₁, h₂⟩ := List.filterMap_eq_append_iff.1 h
  obtain ⟨mid, e, post, rfl, hmid, he, hpost⟩ := List.filterMap_eq_cons_iff.1 h₂
  obtain ⟨y, o'⟩ := e
  obtain ⟨rfl, rfl⟩ : y = x ∧ o' = o := by simpa using he
  refine ⟨G₁ ++ mid, post, (List.append_assoc ..).symm, ?_, hpost⟩
  have hnil : project y mid = [] := List.filterMap_eq_nil_iff.2 hmid
  rw [project_append, hnil, List.append_nil]
  exact h₁

/-! ## Balances -/

/-- What is under way from an end when a schedule is followed. -/
structure Balance (K : Type) where
  /-- requests not reported -/
  out : List K := []
  /-- messages that the other end has not received -/
  transit : List K := []
  /-- receives that no message has taken -/
  ready : ℕ := 0
  /-- signals that the other end has not seen -/
  signals : ℕ := 0
  /-- how many messages the other end still has to receive before it may post one -/
  owed : Option ℕ := none

namespace Balance

variable (N : Net K)

/-- An operation of the end. -/
def act (b : Balance K) : Op K → Balance K
  | .post k => { b with
      out := b.out ++ [k]
      transit := if N.message k then b.transit ++ [k] else b.transit }
  | .recv => { b with ready := b.ready + 1 }
  | .await cs => { b with
      out := []
      owed := if 0 < b.ready ∧ sents cs ≠ [] then some b.transit.length else b.owed }
  | .signal => { b with signals := b.signals + 1 }
  | .wait => b

/-- An operation of the other end. -/
def react (b : Balance K) : Op K → Balance K
  | .post k => if N.message k then { b with ready := b.ready - 1, owed := none } else b
  | .recv => b
  | .await cs => { b with transit := [], owed := b.owed.map (· - (receiveds cs).length) }
  | .signal => b
  | .wait => { b with signals := b.signals - 1 }

/-- The operation can be performed; `b` is the balance of the end and `b'` that of the other. -/
def Ok (b b' : Balance K) : Op K → Prop
  | .post k => b.out.length < N.sendRoom ∧ (N.message k = true →
      0 < b'.ready ∧ (b'.owed = none ∨ b'.owed = some 0 ∧ N.early k = true))
  | .recv => b.ready + b'.transit.length < N.recvRoom
  | .await cs => cs ≠ [] ∧ sents cs = b.out ∧ receiveds cs = b'.transit ∧
      (0 < b.ready → ∀ k ∈ sents cs, N.message k = true)
  | .signal => True
  | .wait => 0 < b'.signals

instance [DecidableEq K] (b b' : Balance K) : ∀ o, Decidable (b.Ok N b' o)
  | .post k => inferInstanceAs (Decidable (b.out.length < N.sendRoom ∧ (N.message k = true →
      0 < b'.ready ∧ (b'.owed = none ∨ b'.owed = some 0 ∧ N.early k = true))))
  | .recv => inferInstanceAs (Decidable (b.ready + b'.transit.length < N.recvRoom))
  | .await cs => inferInstanceAs (Decidable (cs ≠ [] ∧ sents cs = b.out ∧
      receiveds cs = b'.transit ∧ (0 < b.ready → ∀ k ∈ sents cs, N.message k = true)))
  | .signal => inferInstanceAs (Decidable True)
  | .wait => inferInstanceAs (Decidable (0 < b'.signals))

/-- The balances after an operation of end `x`. -/
def next (τ : Bool → Balance K) (e : Bool × Op K) (x : Bool) : Balance K :=
  if x = e.1 then (τ x).act N e.2 else (τ x).react N e.2

/-- The schedule can be followed. -/
def Check : (Bool → Balance K) → List (Bool × Op K) → Prop
  | _, [] => True
  | τ, e :: G => (τ e.1).Ok N (τ (!e.1)) e.2 ∧ Check (next N τ e) G

variable {N} {τ : Bool → Balance K}

theorem check_append {G G' : List (Bool × Op K)} :
    Check N τ (G ++ G') ↔ Check N τ G ∧ Check N (G.foldl (next N) τ) G' := by
  induction G generalizing τ with
  | nil => simp [Check]
  | cons e G ih => simp only [List.cons_append, Check, List.foldl_cons, ih, and_assoc]

@[simp] theorem next_self (x : Bool) (o : Op K) : next N τ (x, o) x = (τ x).act N o := by
  simp [next]

@[simp] theorem next_not (x : Bool) (o : Op K) : next N τ (x, o) (!x) = (τ (!x)).react N o := by
  simp [next]

/-- An end is owed no more than it has sent. -/
def Bounded (b : Balance K) : Prop := ∀ n ∈ b.owed, n ≤ b.transit.length

theorem Bounded.act {b : Balance K} (h : b.Bounded) (o : Op K) : (b.act N o).Bounded := by
  intro n hn
  cases o with
  | post k =>
    have := h n hn
    simp only [Balance.act]
    split
    · rw [List.length_append]; omega
    · exact this
  | await cs =>
    simp only [Balance.act] at hn ⊢
    split at hn
    · cases hn; exact le_rfl
    · exact h n hn
  | _ => exact h n hn

theorem Bounded.react {b b' : Balance K} {o : Op K} (h : b.Bounded) (hok : b'.Ok N b o) :
    (b.react N o).Bounded := by
  intro n hn
  cases o with
  | post k =>
    simp only [Balance.react] at hn ⊢
    split at hn
    · cases hn
    · simp only [*]; exact h n hn
  | await cs =>
    simp only [Balance.react, Option.mem_def, Option.map_eq_some_iff] at hn
    obtain ⟨n, hn, rfl⟩ := hn
    have := h n hn
    rw [hok.2.2.1]
    omega
  | _ => exact h n hn

theorem Bounded.next {x : Bool} {e : Bool × Op K} (h : (τ x).Bounded)
    (hok : (τ e.1).Ok N (τ (!e.1)) e.2) : (next N τ e x).Bounded := by
  obtain ⟨y, o⟩ := e
  rcases eq_or_eq_not x y with rfl | rfl
  · rw [next_self]; exact h.act o
  · rw [next_not]; exact h.react hok

/-! ### Balances and pasts -/

/-- The balances of two ends that have the pasts `past`. -/
structure Agrees (N : Net K) (past : Bool → Past K) (τ : Bool → Balance K) : Prop where
  posts : ∀ x, (past x).posts = (past x).sents ++ (τ x).out
  messages : ∀ x, (past x).messages N = (past (!x)).receiveds ++ (τ x).transit
  recvs : ∀ x, (past x).recvs = (τ x).ready + ((past (!x)).messages N).length
  signals : ∀ x, (past x).signals = (τ x).signals + (past (!x)).waits
  owed : ∀ x, (τ x).Bounded

theorem Agrees.init : Agrees N (fun _ => {}) fun _ => ({} : Balance K) := by
  constructor <;> simp [Past.messages, Bounded]

variable {past : Bool → Past K}

/-- **An operation keeps the balances.** -/
theorem Agrees.next {x : Bool} {o : Op K} (h : Agrees N past τ)
    (hok : (τ x).Ok N (τ (!x)) o) : Agrees N (record N past (.op x o)) (next N τ (x, o)) := by
  have hself := h.posts x
  have hmsg := h.messages x
  have hmsg' := h.messages (!x)
  have hrecvs := h.recvs x
  have hrecvs' := h.recvs (!x)
  have hsig := h.signals x
  have hsig' := h.signals (!x)
  simp only [Past.messages, Bool.not_not] at hmsg hmsg' hrecvs hrecvs' hsig'
  constructor <;> intro y <;> rcases eq_or_eq_not y x with rfl | rfl
  case posts.inl =>
    rw [record_op, next_self]
    cases o with
    | post k => simp [Past.add, act, hself]
    | await cs => simp [Past.add, act, hself, hok.2.1]
    | _ => exact hself
  case posts.inr =>
    rw [record_op_not, next_not]
    cases o with
    | post k => simp only [react]; split <;> exact h.posts _
    | _ => exact h.posts _
  case messages.inl =>
    rw [record_op, record_op_not, next_self]
    cases o with
    | post k => by_cases hk : N.message k <;> simp [Past.messages, Past.add, act, hmsg, hk]
    | _ => exact hmsg
  case messages.inr =>
    rw [Bool.not_not, record_op, record_op_not, next_not]
    cases o with
    | post k => simp only [react]; split <;> exact hmsg'
    | await cs => simp [Past.messages, Past.add, react, hmsg', hok.2.2.1]
    | _ => exact hmsg'
  case recvs.inl =>
    rw [record_op, record_op_not, next_self]
    cases o with
    | recv => simp only [Past.messages, Past.add, act]; omega
    | _ => exact hrecvs
  case recvs.inr =>
    rw [Bool.not_not, record_op, record_op_not, next_not]
    cases o with
    | post k =>
      by_cases hk : N.message k
      · have hpos := (hok.2 hk).1
        simp only [Past.messages, Past.add, react, hk, if_true, List.filter_append,
          List.filter_cons_of_pos, List.filter_nil, List.length_append, List.length_singleton]
        omega
      · simpa [Past.messages, Past.add, react, hk] using hrecvs'
    | _ => exact hrecvs'
  case signals.inl =>
    rw [record_op, record_op_not, next_self]
    cases o with
    | signal => simp only [Past.add, act]; omega
    | _ => exact hsig
  case signals.inr =>
    rw [Bool.not_not, record_op, record_op_not, next_not]
    cases o with
    | post k => simp only [react]; split <;> exact hsig'
    | wait =>
      have hpos : 0 < (τ (!x)).signals := hok
      simp only [Past.add, react]
      omega
    | _ => exact hsig'
  case owed.inl => exact (h.owed y).next hok
  case owed.inr => exact (h.owed (!x)).next hok

/-- **The balances after a schedule** are those of what the ends have done in it. -/
theorem agrees_of_check {G : List (Bool × Op K)} (h : Check N (fun _ => {}) G) :
    Agrees N (fun y => Past.of N (project y G)) (G.foldl (Balance.next N) fun _ => {}) := by
  induction G using List.reverseRecOn with
  | nil => exact .init
  | append_singleton G e ih =>
    obtain ⟨hG, hok, -⟩ := check_append.1 h
    obtain ⟨x, o⟩ := e
    have hpast : (fun y => Past.of N (project y (G ++ [(x, o)]))) =
        record N (fun y => Past.of N (project y G)) (.op x o) := by
      funext y
      rcases eq_or_eq_not y x with rfl | rfl
      · rw [record_op, project_append, project_cons, project_nil, Past.of_concat]
      · rw [record_op_not, project_append, project_not_cons, project_nil, List.append_nil]
    rw [hpast, List.foldl_append]
    exact (ih hG).next hok

/-- The messages that the operations `d` receive. -/
def receivedBy (d : List (Op K)) : List K :=
  d.flatMap fun o => match o with
    | .await cs => receiveds cs
    | _ => []

/-- What an end is owed after operations in which the other posts no message. -/
theorem owed_foldl {x : Bool} {mid : List (Bool × Op K)} {n : ℕ} (hb : (τ x).Bounded)
    (h : Check N τ mid) (hmid : ∀ k, .post k ∈ project (!x) mid → N.message k = false)
    (hn : (τ x).owed = some n) :
    ∃ n', (mid.foldl (Balance.next N) τ x).owed = some n' ∧
      n ≤ n' + (receivedBy (project (!x) mid)).length := by
  induction mid generalizing τ n with
  | nil => exact ⟨n, hn, Nat.le_add_right ..⟩
  | cons e mid ih =>
    obtain ⟨hok, h⟩ := h
    have hb' := hb.next hok
    obtain ⟨y, o⟩ := e
    rcases eq_or_eq_not x y with rfl | rfl
    · rw [project_not_cons] at hmid ⊢
      obtain ⟨n₁, hn₁, hle⟩ : ∃ n₁, (Balance.next N τ (x, o) x).owed = some n₁ ∧ n ≤ n₁ := by
        rw [next_self]
        cases o with
        | await cs =>
          simp only [act]
          split
          · exact ⟨_, rfl, hb n hn⟩
          · exact ⟨n, hn, le_rfl⟩
        | _ => exact ⟨n, hn, le_rfl⟩
      obtain ⟨n', hn', hle'⟩ := ih hb' h hmid hn₁
      exact ⟨n', hn', hle.trans hle'⟩
    · rw [Bool.not_not, project_cons] at hmid ⊢
      obtain ⟨n₁, hn₁, hle⟩ : ∃ n₁, (Balance.next N τ (y, o) (!y)).owed = some n₁ ∧
          n ≤ n₁ + (receivedBy [o]).length := by
        rw [next_not]
        cases o with
        | post k =>
          have hk := hmid k List.mem_cons_self
          exact ⟨n, by simp [react, hk, hn], Nat.le_add_right ..⟩
        | await cs =>
          refine ⟨n - (receiveds cs).length, by simp [react, hn], ?_⟩
          simp only [receivedBy, List.flatMap_cons, List.flatMap_nil, List.append_nil]
          omega
        | _ => exact ⟨n, hn, Nat.le_add_right ..⟩
      have hmid' : ∀ k, .post k ∈ project (!(!y)) mid → N.message k = false := by
        rw [Bool.not_not]
        exact fun k hk => hmid k (List.mem_cons_of_mem _ hk)
      obtain ⟨n', hn', hle'⟩ := ih hb' h hmid' hn₁
      refine ⟨n', hn', ?_⟩
      rw [Bool.not_not] at hle'
      simp only [receivedBy, List.flatMap_cons, List.flatMap_nil, List.append_nil,
        List.length_append] at hle hle' ⊢
      omega

/-! ### Schedules in parts -/

/-- The balances of the end `false` and of the end `true`. -/
def ends (b b' : Balance K) (x : Bool) : Balance K := if x then b' else b

variable (N) in
/-- The schedule can be followed, and leads from the balances `τ` to the balances `τ'`. -/
structure Leads (τ : Bool → Balance K) (G : List (Bool × Op K)) (τ' : Bool → Balance K) : Prop where
  check : Check N τ G
  last : G.foldl (next N) τ = τ'

namespace Leads

variable {τ' τ'' : Bool → Balance K} {G G' : List (Bool × Op K)} {b b' : Balance K} {o : Op K}

theorem nil : Leads N τ [] τ := ⟨trivial, rfl⟩

theorem append (h : Leads N τ G τ') (h' : Leads N τ' G' τ'') : Leads N τ (G ++ G') τ'' :=
  ⟨check_append.2 ⟨h.check, h.last ▸ h'.check⟩, by rw [List.foldl_append, h.last, h'.last]⟩

/-- An operation of the end `false`. -/
theorem consFalse (hok : b.Ok N b' o) (h : Leads N (ends (b.act N o) (b'.react N o)) G τ) :
    Leads N (ends b b') ((false, o) :: G) τ := by
  have hnext : next N (ends b b') (false, o) = ends (b.act N o) (b'.react N o) := by
    funext x
    cases x <;> rfl
  exact ⟨⟨hok, hnext ▸ h.check⟩, by rw [List.foldl_cons, hnext, h.last]⟩

/-- An operation of the end `true`. -/
theorem consTrue (hok : b'.Ok N b o) (h : Leads N (ends (b.react N o) (b'.act N o)) G τ) :
    Leads N (ends b b') ((true, o) :: G) τ := by
  have hnext : next N (ends b b') (true, o) = ends (b.react N o) (b'.act N o) := by
    funext x
    cases x <;> rfl
  exact ⟨⟨hok, hnext ▸ h.check⟩, by rw [List.foldl_cons, hnext, h.last]⟩

/-- A part that leads back to where it starts can be repeated. -/
theorem repeated (h : Leads N τ G τ) (n : ℕ) : Leads N τ (List.replicate n G).flatten τ := by
  induction n with
  | zero => exact nil
  | succ n ih => exact h.append ih

theorem flatMap {α : Type} {f : α → List (Bool × Op K)} (h : ∀ a, Leads N τ (f a) τ) (l : List α) :
    Leads N τ (l.flatMap f) τ := by
  induction l with
  | nil => exact nil
  | cons a l ih => exact (h a).append ih

end Leads

end Balance

/-! ## Places in a schedule -/

/-- What an end has done before it has done what `q` says. -/
structure Past.Before (p q : Past K) : Prop where
  posts : p.posts <+: q.posts
  stamps : p.stamps <+: q.stamps
  recvs : p.recvs ≤ q.recvs
  signals : p.signals ≤ q.signals

section
variable {N : Net K}

theorem Past.Before.refl (p : Past K) : p.Before p :=
  ⟨List.prefix_refl _, List.prefix_refl _, le_rfl, le_rfl⟩

theorem Past.Before.trans {p q r : Past K} (h : p.Before q) (h' : q.Before r) : p.Before r :=
  ⟨h.posts.trans h'.posts, h.stamps.trans h'.stamps, h.recvs.trans h'.recvs,
    h.signals.trans h'.signals⟩

theorem Past.before_add (p : Past K) (o : Op K) : p.Before (p.add N o) := by
  cases o with
  | post k =>
    refine ⟨List.prefix_append .., ?_, le_rfl, le_rfl⟩
    simp only [Past.add]
    split
    · exact List.prefix_append ..
    · exact List.prefix_refl _
  | recv => exact ⟨List.prefix_refl _, List.prefix_refl _, Nat.le_succ _, le_rfl⟩
  | signal => exact ⟨List.prefix_refl _, List.prefix_refl _, le_rfl, Nat.le_succ _⟩
  | _ => exact ⟨List.prefix_refl _, List.prefix_refl _, le_rfl, le_rfl⟩

theorem Past.before_foldl (p : Past K) (d : List (Op K)) : p.Before (d.foldl (Past.add N) p) := by
  induction d generalizing p with
  | nil => exact .refl p
  | cons o d ih => exact (p.before_add o).trans (ih _)

theorem Past.before_of_append (d d' : List (Op K)) : (Past.of N d).Before (Past.of N (d ++ d')) := by
  rw [Past.of_append]
  exact Past.before_foldl ..

theorem Past.Before.messages {p q : Past K} (h : p.Before q) (N : Net K) :
    p.messages N <+: q.messages N :=
  h.posts.filter _

/-- The waits `l` and then `cs` are the wait for both. -/
theorem add_await (p : Past K) {l cs cs' : List (Completion K)}
    (hs : sents l ++ sents cs = sents cs') (hr : receiveds l ++ receiveds cs = receiveds cs') :
    (p.add N (.await l)).add N (.await cs) = p.add N (.await cs') := by
  simp only [Past.add, List.append_assoc, hs, hr]

/-- The place of an end in a schedule: its past, and what it has to do. -/
inductive Place (N : Net K) (G : List (Bool × Op K)) (x : Bool) : Past K → List (Op K) → Prop where
  | next {pre post : List (Bool × Op K)} {o : Op K} (h : G = pre ++ (x, o) :: post) :
      Place N G x (Past.of N (project x pre)) (o :: project x post)
  | partway {pre post : List (Bool × Op K)} {l cs cs' : List (Completion K)}
      (h : G = pre ++ (x, .await cs') :: post) (hs : sents l ++ sents cs = sents cs')
      (hr : receiveds l ++ receiveds cs = receiveds cs') (hne : cs ≠ []) :
      Place N G x ((Past.of N (project x pre)).add N (.await l)) (.await cs :: project x post)
  | finished : Place N G x (Past.of N (project x G)) []

variable {G : List (Bool × Op K)} {x : Bool} {p : Past K} {todo t : List (Op K)} {o : Op K}
  {l cs : List (Completion K)} {c : Completion K} {k : K}

theorem Place.of_append {pre post : List (Bool × Op K)} (h : G = pre ++ post) :
    Place N G x (Past.of N (project x pre)) (project x post) := by
  cases hp : project x post with
  | nil =>
    have : project x G = project x pre := by rw [h, project_append, hp, List.append_nil]
    rw [← this]
    exact .finished
  | cons o t =>
    obtain ⟨mid, post', rfl, hmid, rfl⟩ := exists_of_project (d := []) hp
    rw [← List.append_assoc] at h
    have := Place.next (N := N) h
    rwa [project_append, hmid, List.append_nil] at this

theorem Place.before (h : Place N G x p todo) : p.Before (Past.of N (project x G)) := by
  cases h with
  | next h =>
    rw [h, project_append]
    exact Past.before_of_append ..
  | @partway pre post l cs cs' h hs hr hne =>
    have hadd := add_await (N := N) (Past.of N (project x pre)) hs hr
    rw [h, project_append, project_cons, List.append_cons, Past.of_append, Past.of_concat, ← hadd]
    exact (Past.before_add _ _).trans (Past.before_foldl ..)
  | finished => exact .refl _

/-- An end that waits for completions. -/
theorem Place.await (h : Place N G x p (.await cs :: t)) :
    ∃ pre post cs' l, G = pre ++ (x, .await cs') :: post ∧
      p = (Past.of N (project x pre)).add N (.await l) ∧ t = project x post ∧
      sents l ++ sents cs = sents cs' ∧ receiveds l ++ receiveds cs = receiveds cs' ∧
      (cs' ≠ [] → cs ≠ []) := by
  generalize ht : Op.await cs :: t = todo at h
  cases h with
  | @next pre post o h =>
    cases ht
    exact ⟨pre, post, cs, [], h, by simp [Past.add], rfl, rfl, rfl, id⟩
  | @partway pre post l cs₁ cs' h hs hr hne =>
    cases ht
    exact ⟨pre, post, cs', l, h, rfl, rfl, hs, hr, fun _ => hne⟩
  | finished => cases ht

theorem Place.op (h : Place N G x p (o :: t)) (ho : ∀ cs, o ≠ .await cs) :
    Place N G x (p.add N o) t := by
  generalize ht : o :: t = todo at h
  cases h with
  | @next pre post o' h =>
    cases ht
    have := Place.of_append (N := N) (x := x) (h.trans (List.append_cons ..))
    rwa [project_append, project_cons, project_nil, Past.of_concat] at this
  | partway h hs hr hne =>
    cases ht
    exact absurd rfl (ho _)
  | finished => cases ht

variable [DecidableEq K]

theorem sents_erase {r : List K} (h : sents cs = k :: r) : .sent k ∈ cs ∧
    sents (cs.erase (.sent k)) = r ∧ receiveds (cs.erase (.sent k)) = receiveds cs := by
  induction cs with
  | nil => cases h
  | cons c cs ih =>
    cases c with
    | sent k' =>
      obtain ⟨rfl, rfl⟩ := List.cons.inj h
      rw [List.erase_cons_head]
      exact ⟨List.mem_cons_self, rfl, rfl⟩
    | received k' =>
      obtain ⟨hmem, hs, hr⟩ := ih h
      rw [List.erase_cons_tail (by simp), sents_received, receiveds_received, hs, hr]
      exact ⟨List.mem_cons_of_mem _ hmem, rfl, rfl⟩

theorem receiveds_erase {r : List K} (h : receiveds cs = k :: r) : .received k ∈ cs ∧
    sents (cs.erase (.received k)) = sents cs ∧ receiveds (cs.erase (.received k)) = r := by
  induction cs with
  | nil => cases h
  | cons c cs ih =>
    cases c with
    | sent k' =>
      obtain ⟨hmem, hs, hr⟩ := ih h
      rw [List.erase_cons_tail (by simp), sents_sent, receiveds_sent, hs, hr]
      exact ⟨List.mem_cons_of_mem _ hmem, rfl, rfl⟩
    | received k' =>
      obtain ⟨rfl, rfl⟩ := List.cons.inj h
      rw [List.erase_cons_head]
      exact ⟨List.mem_cons_self, rfl, rfl⟩

/-- The completion is the first of its kind that is waited for. -/
def First (cs : List (Completion K)) : Completion K → Prop
  | .sent k => ∃ r, sents cs = k :: r
  | .received k => ∃ r, receiveds cs = k :: r

theorem First.mem (h : First cs c) : c ∈ cs := by
  cases c with
  | sent k => obtain ⟨r, hr⟩ := h; exact (sents_erase hr).1
  | received k => obtain ⟨r, hr⟩ := h; exact (receiveds_erase hr).1

theorem First.erase (h : First cs c) : sents [c] ++ sents (cs.erase c) = sents cs ∧
    receiveds [c] ++ receiveds (cs.erase c) = receiveds cs := by
  cases c with
  | sent k =>
    obtain ⟨r, hr⟩ := h
    obtain ⟨-, hs, hr'⟩ := sents_erase hr
    rw [hs, hr', hr]
    exact ⟨rfl, rfl⟩
  | received k =>
    obtain ⟨r, hr⟩ := h
    obtain ⟨-, hs, hr'⟩ := receiveds_erase hr
    rw [hs, hr', hr]
    exact ⟨rfl, rfl⟩

/-- A completion taken by an end that waits for it. -/
theorem Place.take (h : Place N G x p (.await cs :: t)) (hc : First cs c) :
    Place N G x (p.add N (.await [c])) (resume cs c t) := by
  obtain ⟨pre, post, cs', l, hG, rfl, rfl, hs, hr, -⟩ := h.await
  obtain ⟨hsc, hrc⟩ := hc.erase
  have hs' : sents (l ++ [c]) ++ sents (cs.erase c) = sents cs' := by
    rw [sents_append, List.append_assoc, hsc, hs]
  have hr' : receiveds (l ++ [c]) ++ receiveds (cs.erase c) = receiveds cs' := by
    rw [receiveds_append, List.append_assoc, hrc, hr]
  rw [add_await _ (sents_append l [c]).symm (receiveds_append l [c]).symm, resume]
  split
  · next he =>
    rw [he, sents_nil, List.append_nil] at hs'
    rw [he, receiveds_nil, List.append_nil] at hr'
    have := Place.of_append (N := N) (x := x) (hG.trans (List.append_cons ..))
    rw [project_append, project_cons, project_nil, Past.of_concat] at this
    simpa only [Past.add, hs', hr'] using this
  · next he => exact .partway hG hs' hr' he

end

end Script

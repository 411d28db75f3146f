/-
  Two parties that run straight-line programs and exchange messages over a
  reliable byte stream in each direction.

  A receive of `n` bytes gets them in chunks of any size, and neither side
  marks where a message ends.  If the sizes of the messages one side sends are
  the sizes the other side expects, then

  * `rcvd_prefix_sent`: the messages a party has received are the first
    messages its peer has sent;
  * `Inv.replayed`: the local state of a party is determined by the part of
    its program it has executed and the messages it has received;
  * `Outline.reachable`: what every assertion of a proof outline implies holds
    in all states;
  * `advanced_of_replay`: a party whose messages have arrived can go on.

  The first two turn a question about all interleavings into one about
  single programs.
-/
import RdmaCore.Lib.Lts
import Mathlib.Data.List.Basic
import Mathlib.Logic.Function.Basic

namespace Duplex

variable {L : Type}

/-- An instruction of a party with the local state `L`. -/
inductive Instr (L : Type) where
  /-- sends a message of `n` bytes -/
  | send (n : ℕ) (f : L → List UInt8) (h : ∀ l, (f l).length = n)
  /-- receives `n` bytes -/
  | recv (n : ℕ) (g : L → List UInt8 → L)
  /-- a local step, which may end the party -/
  | exec (f : L → Option L)

structure Party (L : Type) where
  code : List (Instr L)
  loc : L
  /-- the bytes of the current receive that have arrived -/
  acc : List UInt8 := []
  /-- the messages sent so far -/
  sent : List (List UInt8) := []
  /-- the messages received so far -/
  rcvd : List (List UInt8) := []

structure State (L : Type) where
  party : Bool → Party L
  /-- what each side has sent and the other has not read -/
  wire : Bool → List UInt8 := fun _ => []

/-- A side executes its next instruction; a receive gets `chunk` bytes. -/
structure Act where
  side : Bool
  chunk : ℕ := 0

def init (prog : Bool → List (Instr L)) (l₀ : Bool → L) : State L where
  party := fun x => { code := prog x, loc := l₀ x }

def step (s : State L) (a : Act) : Option (State L) :=
  let p := s.party a.side
  match p.code with
  | [] => none
  | .send _ f _ :: code => some
    { party := Function.update s.party a.side { p with code, sent := p.sent ++ [f p.loc] }
      wire := Function.update s.wire a.side (s.wire a.side ++ f p.loc) }
  | .exec f :: code => (f p.loc).map fun loc =>
    { s with party := Function.update s.party a.side { p with code, loc } }
  | .recv n g :: code =>
    let arrived := s.wire (!a.side)
    let acc := p.acc ++ arrived.take a.chunk
    if 0 < a.chunk ∧ a.chunk ≤ arrived.length ∧ acc.length ≤ n then some
      { party := Function.update s.party a.side
          (if acc.length < n then { p with acc }
          else { p with code, loc := g p.loc acc, acc := [], rcvd := p.rcvd ++ [acc] })
        wire := Function.update s.wire (!a.side) (arrived.drop a.chunk) }
    else none

/-! ## Replaying a program -/

/-- The local state after a program, and the messages it sends, given the
    messages it receives. -/
def replay : List (Instr L) → L → List (List UInt8) → Option (L × List (List UInt8))
  | [], l, [] => some (l, [])
  | [], _, _ :: _ => none
  | .send _ f _ :: code, l, r => (replay code l r).map fun p => (p.1, f l :: p.2)
  | .recv n g :: code, l, m :: r => if m.length = n then replay code (g l m) r else none
  | .recv _ _ :: _, _, [] => none
  | .exec f :: code, l, r => (f l).bind fun l => replay code l r

/-- The sizes of the messages a program sends. -/
def sendSizes : List (Instr L) → List ℕ
  | [] => []
  | .send n _ _ :: code => n :: sendSizes code
  | _ :: code => sendSizes code

/-- The sizes of the messages a program receives. -/
def recvSizes : List (Instr L) → List ℕ
  | [] => []
  | .recv n _ :: code => n :: recvSizes code
  | _ :: code => recvSizes code

theorem sendSizes_append (c d : List (Instr L)) :
    sendSizes (c ++ d) = sendSizes c ++ sendSizes d := by
  induction c with
  | nil => rfl
  | cons i c ih => cases i <;> simp [sendSizes, ih]

theorem recvSizes_append (c d : List (Instr L)) :
    recvSizes (c ++ d) = recvSizes c ++ recvSizes d := by
  induction c with
  | nil => rfl
  | cons i c ih => cases i <;> simp [recvSizes, ih]

theorem sendSizes_replicate (n : ℕ) (c : List (Instr L)) :
    sendSizes (List.replicate n c).flatten = (List.replicate n (sendSizes c)).flatten := by
  induction n with
  | zero => rfl
  | succ n ih => simp only [List.replicate_succ, List.flatten_cons, sendSizes_append, ih]

theorem recvSizes_replicate (n : ℕ) (c : List (Instr L)) :
    recvSizes (List.replicate n c).flatten = (List.replicate n (recvSizes c)).flatten := by
  induction n with
  | zero => rfl
  | succ n ih => simp only [List.replicate_succ, List.flatten_cons, recvSizes_append, ih]

theorem replay_append {c d : List (Instr L)} {l l' : L} {r r' s : List (List UInt8)}
    (h : replay c l r = some (l', s)) :
    replay (c ++ d) l (r ++ r') = (replay d l' r').map fun p => (p.1, s ++ p.2) := by
  induction c generalizing l r s with
  | nil =>
    cases r with
    | nil =>
      obtain ⟨rfl, rfl⟩ := Prod.mk.inj (Option.some.inj h)
      simp
    | cons m r => cases h
  | cons i c ih =>
    cases i with
    | send n f hf =>
      simp only [replay, Option.map_eq_some_iff, Prod.mk.injEq] at h
      obtain ⟨⟨l₁, s₁⟩, h, rfl, rfl⟩ := h
      simp only [List.cons_append, replay, ih h, Option.map_map]
      rfl
    | recv n g =>
      cases r with
      | nil => cases h
      | cons m r =>
        simp only [replay] at h
        split_ifs at h with hm
        simp only [List.cons_append, replay, hm, if_true, ih h]
    | exec f =>
      simp only [replay, Option.bind_eq_some_iff] at h
      obtain ⟨l₁, hl, h⟩ := h
      simp only [List.cons_append, replay, hl, Option.bind_some, ih h]

/-- The replay of a program that is composed of two. -/
theorem replay_append_ok {c d : List (Instr L)} {l l' : L} {r s : List (List UInt8)}
    (h : replay (c ++ d) l r = some (l', s)) : ∃ l₁ r₁ r₂ s₁ s₂, replay c l r₁ = some (l₁, s₁) ∧
      replay d l₁ r₂ = some (l', s₂) ∧ r = r₁ ++ r₂ ∧ s = s₁ ++ s₂ := by
  induction c generalizing l r s with
  | nil => exact ⟨l, [], r, [], s, rfl, h, rfl, rfl⟩
  | cons i c ih =>
    cases i with
    | send n f hf =>
      simp only [List.cons_append, replay, Option.map_eq_some_iff, Prod.mk.injEq] at h
      obtain ⟨⟨l₁, s'⟩, h, rfl, rfl⟩ := h
      obtain ⟨l₁, r₁, r₂, s₁, s₂, h₁, h₂, rfl, rfl⟩ := ih h
      exact ⟨l₁, r₁, r₂, f l :: s₁, s₂, by simp [replay, h₁], h₂, rfl, rfl⟩
    | recv n g =>
      cases r with
      | nil => cases h
      | cons m r =>
        simp only [List.cons_append, replay] at h
        split_ifs at h with hm
        obtain ⟨l₁, r₁, r₂, s₁, s₂, h₁, h₂, rfl, rfl⟩ := ih h
        exact ⟨l₁, m :: r₁, r₂, s₁, s₂, by simp [replay, hm, h₁], h₂, rfl, rfl⟩
    | exec f =>
      simp only [List.cons_append, replay, Option.bind_eq_some_iff] at h
      obtain ⟨l₀, hl, h⟩ := h
      obtain ⟨l₁, r₁, r₂, s₁, s₂, h₁, h₂, rfl, rfl⟩ := ih h
      exact ⟨l₁, r₁, r₂, s₁, s₂, by simp [replay, hl, h₁], h₂, rfl, rfl⟩

/-- The messages of a replay have the sizes of the program. -/
theorem replay_sizes {c : List (Instr L)} {l l' : L} {r s : List (List UInt8)}
    (h : replay c l r = some (l', s)) :
    s.map List.length = sendSizes c ∧ r.map List.length = recvSizes c := by
  induction c generalizing l r s with
  | nil =>
    cases r with
    | nil => obtain ⟨rfl, rfl⟩ := Prod.mk.inj (Option.some.inj h); exact ⟨rfl, rfl⟩
    | cons m r => cases h
  | cons i c ih =>
    cases i with
    | send n f hf =>
      simp only [replay, Option.map_eq_some_iff, Prod.mk.injEq] at h
      obtain ⟨⟨l₁, s₁⟩, h, rfl, rfl⟩ := h
      obtain ⟨hs, hr⟩ := ih h
      exact ⟨by simp [sendSizes, hs, hf], hr⟩
    | recv n g =>
      cases r with
      | nil => cases h
      | cons m r =>
        simp only [replay] at h
        split_ifs at h with hm
        obtain ⟨hs, hr⟩ := ih h
        exact ⟨hs, by simp [recvSizes, hr, hm]⟩
    | exec f =>
      simp only [replay, Option.bind_eq_some_iff] at h
      obtain ⟨l₁, -, h⟩ := h
      exact ih h

/-- The instruction keeps a property of the local state. -/
def Instr.Keeps (P : L → Prop) : Instr L → Prop
  | .send _ _ _ => True
  | .recv _ g => ∀ l m, P l → P (g l m)
  | .exec f => ∀ l l', f l = some l' → P l → P l'

/-- What every instruction keeps holds after the program. -/
theorem replay_keeps {P : L → Prop} {c : List (Instr L)} (hc : ∀ i ∈ c, i.Keeps P) {l l' : L}
    {r s : List (List UInt8)} (hl : P l) (h : replay c l r = some (l', s)) : P l' := by
  induction c generalizing l r s with
  | nil =>
    cases r with
    | nil => obtain ⟨rfl, -⟩ := Prod.mk.inj (Option.some.inj h); exact hl
    | cons m r => cases h
  | cons i c ih =>
    have hi := hc i List.mem_cons_self
    have hc' : ∀ i ∈ c, i.Keeps P := fun j hj => hc j (List.mem_cons_of_mem _ hj)
    cases i with
    | send n f hf =>
      simp only [replay, Option.map_eq_some_iff, Prod.mk.injEq] at h
      obtain ⟨⟨l₁, s₁⟩, h, rfl, -⟩ := h
      exact ih hc' hl h
    | recv n g =>
      cases r with
      | nil => cases h
      | cons m r =>
        simp only [replay] at h
        split_ifs at h
        exact ih hc' (hi l m hl) h
    | exec f =>
      simp only [replay, Option.bind_eq_some_iff] at h
      obtain ⟨l₁, hl₁, h⟩ := h
      exact ih hc' (hi l l₁ hl₁ hl) h

/-! ## Proof outlines -/

/-- An assertion about a party: its local state, the messages it has received
    and the messages it has sent. -/
abbrev Assertion (L : Type) := L → List (List UInt8) → List (List UInt8) → Prop

/-- The instruction leads from one assertion to the other. -/
def Instr.Leads (P Q : Assertion L) : Instr L → Prop
  | .send _ f _ => ∀ l r t, P l r t → Q l r (t ++ [f l])
  | .recv n g => ∀ l r t m, m.length = n → P l r t → Q (g l m) (r ++ [m]) t
  | .exec f => ∀ l r t l', f l = some l' → P l r t → Q l' r t

/-- A program with an assertion before every instruction and at the end, all of
    which imply `I`. -/
inductive Outline (I : Assertion L) : Assertion L → List (Instr L) → Assertion L → Prop
  | nil {P : Assertion L} (h : ∀ l r t, P l r t → I l r t) : Outline I P [] P
  | cons {P Q R : Assertion L} {i : Instr L} {c : List (Instr L)}
      (h : ∀ l r t, P l r t → I l r t) (hi : i.Leads P Q) (hc : Outline I Q c R) :
      Outline I P (i :: c) R

section
variable {I P Q R : Assertion L} {c d : List (Instr L)}

theorem Outline.append (h : Outline I P c Q) (h' : Outline I Q d R) :
    Outline I P (c ++ d) R := by
  induction h with
  | nil _ => exact h'
  | cons hI hi _ ih => exact .cons hI hi (ih h')

/-- Programs that are outlined one after the other. -/
theorem Outline.replicate {P : ℕ → Assertion L} (h : ∀ k, Outline I (P k) c (P (k + 1)))
    (h₀ : ∀ k l r t, P k l r t → I l r t) (k n : ℕ) :
    Outline I (P k) (List.replicate n c).flatten (P (k + n)) := by
  induction n generalizing k with
  | zero => exact .nil (h₀ k)
  | succ n ih =>
    rw [List.replicate_succ, List.flatten_cons, Nat.add_comm n 1, ← Nat.add_assoc]
    exact (h k).append (ih (k + 1))

/-- The assertion at the place a replay has come to implies `I`. -/
theorem Outline.replay {l l' : L} {r₀ r t₀ t : List (List UInt8)}
    (h : Outline I P (c ++ d) Q) (hP : P l r₀ t₀) (hrep : replay c l r = some (l', t)) :
    I l' (r₀ ++ r) (t₀ ++ t) := by
  induction c generalizing P l r₀ r t₀ t with
  | nil =>
    cases r with
    | cons m r => cases hrep
    | nil =>
      obtain ⟨rfl, rfl⟩ := Prod.mk.inj (Option.some.inj hrep)
      rw [List.append_nil, List.append_nil]
      cases h with
      | nil hI => exact hI _ _ _ hP
      | cons hI _ _ => exact hI _ _ _ hP
  | cons i c ih =>
    cases h with
    | cons _ hi hc =>
      cases i with
      | send n f hf =>
        simp only [Duplex.replay, Option.map_eq_some_iff, Prod.mk.injEq] at hrep
        obtain ⟨⟨l₁, t₁⟩, hrep, rfl, rfl⟩ := hrep
        have hI := ih hc (hi l r₀ t₀ hP) hrep
        rwa [List.append_assoc] at hI
      | recv n g =>
        cases r with
        | nil => cases hrep
        | cons m r =>
          simp only [Duplex.replay] at hrep
          split_ifs at hrep with hm
          have hI := ih hc (hi l r₀ t₀ m hm hP) hrep
          rwa [List.append_assoc] at hI
      | exec f =>
        simp only [Duplex.replay, Option.bind_eq_some_iff] at hrep
        obtain ⟨l₁, hl, hrep⟩ := hrep
        exact ih hc (hi l r₀ t₀ l₁ hl hP) hrep

end

/-! ## The invariant of all runs -/

/-- Each party has replayed a part of its program, and what it has read is
    what its peer has sent, up to the bytes on the wire. -/
structure Inv (prog : Bool → List (Instr L)) (l₀ : Bool → L) (s : State L) : Prop where
  replayed : ∀ x, ∃ done, prog x = done ++ (s.party x).code ∧
    replay done (l₀ x) (s.party x).rcvd = some ((s.party x).loc, (s.party x).sent)
  stream : ∀ x, (s.party (!x)).rcvd.flatten ++ ((s.party (!x)).acc ++ s.wire x) =
    (s.party x).sent.flatten

section
variable {prog : Bool → List (Instr L)} {l₀ : Bool → L} {s s' : State L} {a : Act}

theorem inv_init (prog : Bool → List (Instr L)) (l₀ : Bool → L) : Inv prog l₀ (init prog l₀) where
  replayed _ := ⟨[], rfl, rfl⟩
  stream _ := rfl

/-- What an action can do to the side that takes it and to the wires. -/
theorem step_cases (h : step s a = some s') : ∃ i code p' w',
    (s.party a.side).code = i :: code ∧ s'.party = Function.update s.party a.side p' ∧
    s'.wire = w' ∧
    ((∃ n f hf, i = .send n f hf ∧
        p' = { s.party a.side with
          code := code, sent := (s.party a.side).sent ++ [f (s.party a.side).loc] } ∧
        w' = Function.update s.wire a.side (s.wire a.side ++ f (s.party a.side).loc)) ∨
      (∃ f l, i = .exec f ∧ f (s.party a.side).loc = some l ∧
        p' = { s.party a.side with code := code, loc := l } ∧ w' = s.wire) ∨
      (∃ n g, i = .recv n g ∧
        w' = Function.update s.wire (!a.side) ((s.wire (!a.side)).drop a.chunk) ∧
        (p' = { s.party a.side with
            acc := (s.party a.side).acc ++ (s.wire (!a.side)).take a.chunk } ∨
          ∃ m, m = (s.party a.side).acc ++ (s.wire (!a.side)).take a.chunk ∧ m.length = n ∧
            p' = { s.party a.side with
              code := code, loc := g (s.party a.side).loc m, acc := []
              rcvd := (s.party a.side).rcvd ++ [m] }))) := by
  unfold step at h
  dsimp only at h
  split at h
  · cases h
  · next n f hf code hcode =>
    obtain rfl := Option.some.inj h
    exact ⟨_, code, _, _, hcode, rfl, rfl, Or.inl ⟨n, f, hf, rfl, rfl, rfl⟩⟩
  · next f code hcode =>
    simp only [Option.map_eq_some_iff] at h
    obtain ⟨l, hl, rfl⟩ := h
    exact ⟨_, code, _, _, hcode, rfl, rfl, Or.inr (Or.inl ⟨f, l, rfl, hl, rfl, rfl⟩)⟩
  · next n g code hcode =>
    split_ifs at h with hguard hlt
    · obtain rfl := Option.some.inj h
      exact ⟨_, code, _, _, hcode, rfl, rfl, Or.inr (Or.inr ⟨n, g, rfl, rfl, Or.inl rfl⟩)⟩
    · obtain rfl := Option.some.inj h
      exact ⟨_, code, _, _, hcode, rfl, rfl, Or.inr (Or.inr ⟨n, g, rfl, rfl, Or.inr
        ⟨_, rfl, Nat.le_antisymm hguard.2.2 (Nat.le_of_not_lt hlt), rfl⟩⟩)⟩

theorem bool_eq_or_eq_not (x y : Bool) : x = y ∨ x = !y := by
  cases x <;> cases y <;> simp

/-- The replay of the party that moves goes on by one instruction. -/
theorem Inv.replayed_snoc {i : Instr L} {code : List (Instr L)} {l : L}
    {r t : List (List UInt8)} (h : Inv prog l₀ s) (x : Bool) (hcode : (s.party x).code = i :: code)
    (hi : replay [i] (s.party x).loc r = some (l, t)) :
    ∃ done, prog x = done ++ code ∧
      replay done (l₀ x) ((s.party x).rcvd ++ r) = some (l, (s.party x).sent ++ t) := by
  obtain ⟨done, hprog, hrep⟩ := h.replayed x
  refine ⟨done ++ [i], by rw [hprog, hcode]; simp, ?_⟩
  rw [replay_append hrep, hi]; rfl

/-- **Every action keeps the invariant.** -/
theorem Inv.step (h : Inv prog l₀ s) (hs : step s a = some s') : Inv prog l₀ s' := by
  obtain ⟨i, code, p', w', hcode, hparty, hwire, hcase⟩ := step_cases hs
  have hne : (!a.side) ≠ a.side := by cases a.side <;> decide
  -- the other party does not move, and what it has read is unchanged
  have hself : s'.party a.side = p' := by rw [hparty, Function.update_self]
  have hother : s'.party (!a.side) = s.party (!a.side) := by
    rw [hparty, Function.update_of_ne hne]
  have hrep : ∀ {done}, prog a.side = done ++ p'.code →
      replay done (l₀ a.side) p'.rcvd = some (p'.loc, p'.sent) →
      ∀ x, ∃ done, prog x = done ++ (s'.party x).code ∧
        replay done (l₀ x) (s'.party x).rcvd = some ((s'.party x).loc, (s'.party x).sent) := by
    intro done hprog hd x
    rcases bool_eq_or_eq_not x a.side with rfl | rfl
    · rw [hself]; exact ⟨done, hprog, hd⟩
    · rw [hother]; exact h.replayed _
  have hstr : p'.rcvd.flatten ++ (p'.acc ++ s'.wire (!a.side)) = (s.party (!a.side)).sent.flatten →
      (s.party (!a.side)).rcvd.flatten ++ ((s.party (!a.side)).acc ++ s'.wire a.side) =
        p'.sent.flatten →
      ∀ x, (s'.party (!x)).rcvd.flatten ++ ((s'.party (!x)).acc ++ s'.wire x) =
        (s'.party x).sent.flatten := by
    intro h₁ h₂ x
    rcases bool_eq_or_eq_not x a.side with rfl | rfl
    · rw [hself, hother]; exact h₂
    · rw [Bool.not_not, hself, hother]; exact h₁
  have hin := h.stream (!a.side)
  have hout := h.stream a.side
  rw [Bool.not_not] at hin
  rcases hcase with ⟨n, f, hf, rfl, rfl, rfl⟩ | ⟨f, l, rfl, hl, rfl, rfl⟩ |
    ⟨n, g, rfl, rfl, rfl | ⟨m, hm, hlen, rfl⟩⟩
  · obtain ⟨done, hprog, hd⟩ := h.replayed_snoc a.side hcode (r := [])
      (by simp only [replay, Option.map_some]; rfl)
    rw [List.append_nil] at hd
    refine ⟨hrep hprog hd, hstr ?_ ?_⟩
    · rw [hwire, Function.update_of_ne hne]; exact hin
    · rw [hwire, Function.update_self, List.flatten_append, ← hout]; simp
  · obtain ⟨done, hprog, hd⟩ := h.replayed_snoc a.side hcode (r := []) (l := l) (t := [])
      (by simp [replay, hl])
    rw [List.append_nil, List.append_nil] at hd
    refine ⟨hrep hprog hd, hstr ?_ ?_⟩
    · rw [hwire]; exact hin
    · rw [hwire]; exact hout
  · obtain ⟨done, hprog, hd⟩ := h.replayed a.side
    refine ⟨hrep hprog hd, hstr ?_ ?_⟩
    · rw [hwire, Function.update_self, ← hin]
      simp only [List.append_assoc, List.take_append_drop]
    · rw [hwire, Function.update_of_ne hne.symm]; exact hout
  · obtain ⟨done, hprog, hd⟩ := h.replayed_snoc a.side hcode (r := [m]) (t := [])
      (by simp only [replay, hlen, if_true]; rfl)
    rw [List.append_nil] at hd
    refine ⟨hrep hprog hd, hstr ?_ ?_⟩
    · rw [hwire, Function.update_self, ← hin, hm]
      simp only [List.flatten_append, List.flatten_singleton, List.nil_append, List.append_assoc,
        List.take_append_drop]
    · rw [hwire, Function.update_of_ne hne.symm]; exact hout

theorem inv_reachable (h : Lts.Reachable step (init prog l₀) s) : Inv prog l₀ s :=
  h.induct (inv_init prog l₀) fun _ _ _ => Inv.step

/-- **Floyd's rule**: what all assertions of an outline imply holds of a party
    in every run. -/
theorem Outline.reachable {I P Q : Assertion L} {x : Bool} (ho : Outline I P (prog x) Q)
    (hP : P (l₀ x) [] []) (h : Lts.Reachable Duplex.step (init prog l₀) s) :
    I (s.party x).loc (s.party x).rcvd (s.party x).sent := by
  obtain ⟨done, hprog, hrep⟩ := (inv_reachable h).replayed x
  rw [hprog] at ho
  exact ho.replay hP hrep

/-! ## How far a party has come -/

/-- A party that has not left a prefix of its program has replayed a part of it. -/
theorem Inv.replayed_or (h : Inv prog l₀ s) {x : Bool} {c d : List (Instr L)} {i : Instr L}
    (hprog : prog x = c ++ i :: d) :
    (∃ done, done <+: c ∧
      replay done (l₀ x) (s.party x).rcvd = some ((s.party x).loc, (s.party x).sent)) ∨
    ∃ e, d = e ++ (s.party x).code ∧
      replay (c ++ i :: e) (l₀ x) (s.party x).rcvd = some ((s.party x).loc, (s.party x).sent) := by
  obtain ⟨done, hdone, hrep⟩ := h.replayed x
  rw [hprog] at hdone
  rcases List.append_eq_append_iff.1 hdone with ⟨t, rfl, ht⟩ | ⟨t, rfl, ht⟩
  · cases t with
    | nil => exact Or.inl ⟨c, List.prefix_rfl, by simpa using hrep⟩
    | cons j t =>
      obtain ⟨rfl, rfl⟩ := List.cons.inj ht
      exact Or.inr ⟨t, rfl, hrep⟩
  · exact Or.inl ⟨done, List.prefix_append _ _, hrep⟩

/-- A property that a prefix of the program keeps and that does not hold any
    more shows that the instruction after it was executed. -/
theorem Inv.replayed_of_not {P : L → Prop} (h : Inv prog l₀ s) {x : Bool} {c d : List (Instr L)}
    {i : Instr L} (hprog : prog x = c ++ i :: d) (hP : P (l₀ x)) (hc : ∀ j ∈ c, j.Keeps P)
    (hn : ¬ P (s.party x).loc) : ∃ e, d = e ++ (s.party x).code ∧
      replay (c ++ i :: e) (l₀ x) (s.party x).rcvd = some ((s.party x).loc, (s.party x).sent) := by
  rcases h.replayed_or hprog with ⟨done, hdone, hrep⟩ | h
  · exact absurd (replay_keeps (fun j hj => hc j (hdone.subset hj)) hP hrep) hn
  · exact h

/-- A party that has sent more messages than a prefix of its program sends has
    executed the instruction after it. -/
theorem Inv.replayed_of_sent (h : Inv prog l₀ s) {x : Bool} {c d : List (Instr L)} {i : Instr L}
    (hprog : prog x = c ++ i :: d) (hn : (sendSizes c).length < (s.party x).sent.length) :
    ∃ e, d = e ++ (s.party x).code ∧
      replay (c ++ i :: e) (l₀ x) (s.party x).rcvd = some ((s.party x).loc, (s.party x).sent) := by
  rcases h.replayed_or hprog with ⟨done, ⟨t, rfl⟩, hrep⟩ | h
  · have hlen := congrArg List.length (replay_sizes hrep).1
    rw [List.length_map] at hlen
    rw [sendSizes_append, List.length_append] at hn
    omega
  · exact h

/-! ## Framing -/

/-- Two lists of messages with sizes from one list: if the bytes of the first
    are a prefix of the bytes of the second, then so are the messages. -/
theorem prefix_of_flatten_prefix {sizes : List ℕ} (hpos : ∀ n ∈ sizes, 0 < n) :
    ∀ {r s : List (List UInt8)}, r.map List.length <+: sizes → s.map List.length <+: sizes →
      r.flatten <+: s.flatten → r <+: s := by
  induction sizes with
  | nil =>
    intro r s hr _ _
    rw [List.prefix_nil, List.map_eq_nil_iff] at hr
    rw [hr]; exact List.nil_prefix
  | cons n sizes ih =>
    intro r s hr hs hf
    cases r with
    | nil => exact List.nil_prefix
    | cons m r =>
      rw [List.map_cons, List.cons_prefix_cons] at hr
      cases s with
      | nil =>
        have : m = [] := by
          rw [List.flatten_cons, List.flatten_nil, List.prefix_nil, List.append_eq_nil_iff] at hf
          exact hf.1
        have := hpos n List.mem_cons_self
        rw [← hr.1] at this
        simp_all
      | cons m' s =>
        rw [List.map_cons, List.cons_prefix_cons] at hs
        rw [List.flatten_cons, List.flatten_cons] at hf
        obtain ⟨t, ht⟩ := hf
        rw [List.append_assoc] at ht
        obtain ⟨rfl, hrest⟩ := List.append_inj ht (hr.1.trans hs.1.symm)
        rw [List.prefix_cons_inj]
        exact ih (fun k hk => hpos k (List.mem_cons_of_mem _ hk)) hr.2 hs.2 ⟨t, hrest⟩

/-- **Framing**: if each side sends what the other expects, the messages
    received are the first messages sent. -/
theorem rcvd_prefix_sent (hsizes : ∀ x, recvSizes (prog (!x)) = sendSizes (prog x))
    (hpos : ∀ x, ∀ n ∈ sendSizes (prog x), 0 < n)
    (h : Lts.Reachable step (init prog l₀) s) (x : Bool) :
    (s.party (!x)).rcvd <+: (s.party x).sent := by
  have hinv := inv_reachable h
  obtain ⟨done, hprog, hrep⟩ := hinv.replayed x
  obtain ⟨done', hprog', hrep'⟩ := hinv.replayed (!x)
  refine prefix_of_flatten_prefix (hpos x) ?_ ?_ ⟨_, hinv.stream x⟩
  · rw [(replay_sizes hrep').2, ← hsizes x, hprog', recvSizes_append]
    exact List.prefix_append _ _
  · rw [(replay_sizes hrep).1, hprog, sendSizes_append]
    exact List.prefix_append _ _

/-! ## One party on its own -/

/-- What is left when the party `x` has executed a part of its program and its
    peer has not moved. -/
structure Advanced (x : Bool) (s s' : State L) (d : List (Instr L)) (l : L)
    (out rest : List UInt8) : Prop where
  reachable : Lts.Reachable Duplex.step s s'
  code : (s'.party x).code = d
  loc : (s'.party x).loc = l
  acc : (s'.party x).acc = []
  peer : s'.party (!x) = s.party (!x)
  wire : s'.wire x = s.wire x ++ out
  wireIn : s'.wire (!x) = rest

theorem Advanced.refl (x : Bool) (hacc : (s.party x).acc = []) :
    Advanced x s s (s.party x).code (s.party x).loc [] (s.wire (!x)) :=
  ⟨.refl s, rfl, rfl, hacc, rfl, by simp, rfl⟩

theorem Advanced.trans {x : Bool} {s'' : State L} {d d' : List (Instr L)} {l l' : L}
    {out out' rest rest' : List UInt8} (h : Advanced x s s' d l out rest)
    (h' : Advanced x s' s'' d' l' out' rest') : Advanced x s s'' d' l' (out ++ out') rest' where
  reachable := h.reachable.trans h'.reachable
  code := h'.code
  loc := h'.loc
  acc := h'.acc
  peer := h'.peer.trans h.peer
  wire := by rw [h'.wire, h.wire, List.append_assoc]
  wireIn := h'.wireIn

theorem advanced_of_step {x : Bool} {n : ℕ} {q : Party L} {w' : Bool → List UInt8}
    {out rest : List UInt8} (hs : Duplex.step s ⟨x, n⟩ = some ⟨Function.update s.party x q, w'⟩)
    (hacc : q.acc = []) (hout : w' x = s.wire x ++ out) (hin : w' (!x) = rest) :
    ∃ s', Advanced x s s' q.code q.loc out rest := by
  have hself : Function.update s.party x q x = q := Function.update_self ..
  refine ⟨_, (Lts.Reachable.refl s).tail hs, ?_, ?_, ?_, ?_, hout, hin⟩
  · show (Function.update s.party x q x).code = _
    rw [hself]
  · show (Function.update s.party x q x).loc = _
    rw [hself]
  · show (Function.update s.party x q x).acc = _
    rw [hself, hacc]
  · exact Function.update_of_ne (by cases x <;> decide) ..

/-- A party whose next message has arrived can execute its next instruction. -/
theorem advanced_of_instr {x : Bool} {i : Instr L} {d : List (Instr L)} {l : L}
    {r t : List (List UInt8)} {rest : List UInt8} (hpos : ∀ n ∈ recvSizes [i], 0 < n)
    (hcode : (s.party x).code = i :: d) (hacc : (s.party x).acc = [])
    (hrep : replay [i] (s.party x).loc r = some (l, t)) (hwire : s.wire (!x) = r.flatten ++ rest) :
    ∃ s', Advanced x s s' d l t.flatten rest := by
  have hne : (!x) ≠ x := by cases x <;> decide
  cases i with
  | send n f hf =>
    cases r with
    | nil =>
      obtain ⟨rfl, rfl⟩ := Prod.mk.inj (Option.some.inj hrep)
      refine advanced_of_step (n := 0) (q := { s.party x with
        code := d, sent := (s.party x).sent ++ [f (s.party x).loc] })
        (by simp only [Duplex.step, hcode]; rfl) hacc ?_ ?_
      · rw [Function.update_self]; simp
      · rw [Function.update_of_ne hne, hwire]; rfl
    | cons m r => cases hrep
  | recv n g =>
    rcases r with _ | ⟨m, _ | ⟨m', r⟩⟩
    · cases hrep
    · simp only [replay] at hrep
      split_ifs at hrep with hm
      obtain ⟨rfl, rfl⟩ := Prod.mk.inj (Option.some.inj hrep)
      rw [List.flatten_singleton] at hwire
      -- the whole message in one chunk
      have htake : (s.wire (!x)).take n = m ∧ (s.wire (!x)).drop n = rest := by
        rw [hwire]
        exact ⟨List.take_left' hm, List.drop_left' hm⟩
      have hn : 0 < n ∧ n ≤ (s.wire (!x)).length := by
        refine ⟨hpos n List.mem_cons_self, ?_⟩
        rw [hwire, List.length_append, hm]
        omega
      refine advanced_of_step (n := n) (q := { s.party x with
        code := d, loc := g (s.party x).loc m, acc := [], rcvd := (s.party x).rcvd ++ [m] })
        (by simp only [Duplex.step, hcode, hacc, List.nil_append, htake, hm, hn, Nat.le_refl,
          and_self, if_true, Nat.lt_irrefl, if_false]; rfl) rfl ?_ ?_
      · rw [Function.update_of_ne hne.symm]; simp
      · rw [Function.update_self]
    · simp only [replay] at hrep
      split_ifs at hrep
  | exec f =>
    simp only [replay, Option.bind_eq_some_iff] at hrep
    obtain ⟨l₁, hl, hrep⟩ := hrep
    cases r with
    | nil =>
      obtain ⟨rfl, rfl⟩ := Prod.mk.inj (Option.some.inj hrep)
      refine advanced_of_step (n := 0) (q := { s.party x with code := d, loc := l₁ })
        (by simp only [Duplex.step, hcode, hl, Option.map_some]; rfl) hacc ?_ ?_
      · simp
      · rw [hwire]; rfl
    | cons m r => cases hrep

/-- **A party whose messages have arrived** can execute its program on its own. -/
theorem advanced_of_replay {x : Bool} {c d : List (Instr L)} {l : L} {r t : List (List UInt8)}
    {w : List UInt8} (hpos : ∀ n ∈ recvSizes c, 0 < n) (hcode : (s.party x).code = c ++ d)
    (hacc : (s.party x).acc = []) (hrep : replay c (s.party x).loc r = some (l, t))
    (hwire : s.wire (!x) = r.flatten ++ w) : ∃ s', Advanced x s s' d l t.flatten w := by
  induction c generalizing s r t with
  | nil =>
    cases r with
    | nil =>
      obtain ⟨rfl, rfl⟩ := Prod.mk.inj (Option.some.inj hrep)
      have h := Advanced.refl x hacc
      rw [hcode, hwire] at h
      exact ⟨s, h⟩
    | cons m r => cases hrep
  | cons i c ih =>
    obtain ⟨l₁, r₁, r₂, t₁, t₂, h₁, h₂, rfl, rfl⟩ := replay_append_ok (c := [i]) (d := c) hrep
    have hsizes : recvSizes (i :: c) = recvSizes [i] ++ recvSizes c := recvSizes_append [i] c
    rw [hsizes] at hpos
    rw [List.flatten_append, List.append_assoc] at hwire
    obtain ⟨s₁, hs₁⟩ := advanced_of_instr
      (fun n hn => hpos n (List.mem_append_left _ hn)) hcode hacc h₁ hwire
    obtain ⟨s₂, hs₂⟩ := ih (fun n hn => hpos n (List.mem_append_right _ hn)) hs₁.code hs₁.acc
      (by rw [hs₁.loc]; exact h₂) hs₁.wireIn
    rw [List.flatten_append]
    exact ⟨s₂, hs₁.trans hs₂⟩

end

end Duplex

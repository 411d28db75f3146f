/-
  Two parties that answer each other's messages against credits.

  A message needs a credit of its receiver to be delivered and is delivered in
  order.  A party handles a delivered message by running a list of
  operations: it posts messages and gives new credits.  Before the exchange
  the parties may wait for each other's signal.

  * `Order`: a message sent is handled, or waits at the receiver, or is out;
  * `Posted`: what a party sends is determined by what it has handled;
  * `Credits`: the credits of a party are conserved, if every handler gives one;
  * `Code`: a party runs the handler of the message it took last;
  * `Barrier`: a party passes its wait only after the signal of the other;
  * `Inv.tokens`: a kind of messages that are answered by one message of the
    same kind is conserved.
-/
import Mathlib.Logic.Function.Basic
import Mathlib.Data.List.Basic
import Mathlib.Data.Bool.Basic
import Mathlib.Tactic.Common

namespace Flow

variable {M : Type}

/-- The operations of a handler. -/
inductive Op (M : Type) where
  | post (m : M)
  | credit
  | signal
  | await

namespace Op

def msg : Op M → Option M
  | post m => some m
  | _ => none

def isCredit : Op M → Bool
  | credit => true
  | _ => false

def isSignal : Op M → Bool
  | signal => true
  | _ => false

def isAwait : Op M → Bool
  | await => true
  | _ => false

end Op

/-- The messages that a list of operations posts. -/
def posts (l : List (Op M)) : List M := l.filterMap Op.msg

@[simp] theorem posts_nil : posts ([] : List (Op M)) = [] := rfl

theorem posts_cons (o : Op M) (l : List (Op M)) : posts (o :: l) = o.msg.toList ++ posts l := by
  cases o <;> rfl

theorem posts_append (k l : List (Op M)) : posts (k ++ l) = posts k ++ posts l :=
  List.filterMap_append ..

/-- The number of credits that a list of operations gives. -/
def credits (l : List (Op M)) : ℕ := l.countP Op.isCredit

theorem credits_append (k l : List (Op M)) : credits (k ++ l) = credits k + credits l :=
  List.countP_append ..

structure Party (M : Type) where
  /-- what is left of the handler -/
  todo : List (Op M)
  /-- credits given and not used -/
  credits : ℕ := 0
  /-- messages posted and not delivered -/
  out : List M := []
  /-- messages delivered and not handled -/
  inbox : List M := []
  sent : List M := []
  handled : List M := []

structure State (M : Type) where
  party : Bool → Party M
  /-- signals of a party that the other has not seen -/
  signals : Bool → ℕ := fun _ => 0

namespace State

def set (s : State M) (x : Bool) (p : Party M) : State M :=
  { s with party := Function.update s.party x p }

@[simp] theorem set_party_self (s : State M) (x : Bool) (p : Party M) :
    (s.set x p).party x = p := Function.update_self ..

@[simp] theorem set_party_not (s : State M) (x : Bool) (p : Party M) :
    (s.set x p).party (!x) = s.party (!x) := Function.update_of_ne (Bool.not_ne_self x) ..

@[simp] theorem set_not_party (s : State M) (x : Bool) (p : Party M) :
    (s.set (!x) p).party x = s.party x := Function.update_of_ne (Bool.self_ne_not x) ..

@[simp] theorem set_signals (s : State M) (x : Bool) (p : Party M) :
    (s.set x p).signals = s.signals := rfl

end State

/-- What a step does. -/
inductive Label (M : Type) where
  | silent
  | op (x : Bool) (o : Op M)
  | handle (x : Bool) (m : M)
  | deliver (x : Bool) (m : M)

variable (reply : M → List (Op M))

inductive Step : State M → Label M → State M → Prop where
  | silent (s : State M) : Step s .silent s
  | post {s : State M} {x : Bool} {m : M} {todo : List (Op M)}
      (h : (s.party x).todo = .post m :: todo) :
      Step s (.op x (.post m)) (s.set x
        { s.party x with
          todo
          out := (s.party x).out ++ [m]
          sent := (s.party x).sent ++ [m] })
  | credit {s : State M} {x : Bool} {todo : List (Op M)}
      (h : (s.party x).todo = .credit :: todo) :
      Step s (.op x .credit) (s.set x
        { s.party x with todo, credits := (s.party x).credits + 1 })
  | signal {s : State M} {x : Bool} {todo : List (Op M)}
      (h : (s.party x).todo = .signal :: todo) :
      Step s (.op x .signal)
        { s.set x { s.party x with todo } with
          signals := Function.update s.signals x (s.signals x + 1) }
  | await {s : State M} {x : Bool} {todo : List (Op M)}
      (h : (s.party x).todo = .await :: todo) (hs : 0 < s.signals (!x)) :
      Step s (.op x .await)
        { s.set x { s.party x with todo } with
          signals := Function.update s.signals (!x) (s.signals (!x) - 1) }
  | handle {s : State M} {x : Bool} {m : M} {inbox : List M}
      (h : (s.party x).todo = []) (hi : (s.party x).inbox = m :: inbox) :
      Step s (.handle x m) (s.set x
        { s.party x with
          todo := reply m
          inbox
          handled := (s.party x).handled ++ [m] })
  | deliver {s : State M} {x : Bool} {m : M} {out : List M}
      (h : (s.party x).out = m :: out) (hc : 0 < (s.party (!x)).credits) :
      Step s (.deliver x m)
        ((s.set x { s.party x with out }).set (!x)
          { s.party (!x) with
            credits := (s.party (!x)).credits - 1
            inbox := (s.party (!x)).inbox ++ [m] })

/-- The parties before they run `start`. -/
def State.init (start : List (Op M)) : State M where
  party := fun _ => { todo := start }

/-! ## Invariants -/

/-- The messages of a party, in order: handled, waiting at the other party, and out. -/
def Order (s : State M) : Prop :=
  ∀ x, (s.party x).sent = (s.party (!x)).handled ++ (s.party (!x)).inbox ++ (s.party x).out

/-- What a party has sent and has still to send answers what it has handled. -/
def Posted (start : List (Op M)) (s : State M) : Prop :=
  ∀ x, (s.party x).sent ++ posts (s.party x).todo =
    posts start ++ (s.party x).handled.flatMap fun m => posts (reply m)

/-- Credits of a party: unused, used by a message not yet handled, or to be given. -/
def Credits (k : ℕ) (s : State M) : Prop :=
  ∀ x, (s.party x).credits + (s.party x).inbox.length + credits (s.party x).todo = k

/-- A party runs `start`, or the handler of the message it took last. -/
def Code (start : List (Op M)) (s : State M) : Prop :=
  ∀ x, (s.party x).todo <:+ ((s.party x).handled.getLast?.map reply).getD start

/-- The signals of a party are its part of the waits of the other. -/
def Barrier (s : State M) : Prop :=
  ∀ x, s.signals x + (s.party x).todo.countP Op.isSignal =
    (s.party (!x)).todo.countP Op.isAwait

variable {reply} {start : List (Op M)} {s s' : State M} {l : Label M}

theorem Order.init : Order (State.init start) := by
  intro x; rfl

theorem Order.step (h : Order s) (hs : Step reply s l s') : Order s' := by
  cases hs with
  | silent => exact h
  | @post x m todo ht =>
    rw [Order, Bool.forall_bool' x]
    constructor
    · simp [h x]
    · simpa using h (!x)
  | @credit x todo ht | @signal x todo ht | @await x todo ht hs =>
    rw [Order, Bool.forall_bool' x]
    constructor
    · simpa using h x
    · simpa using h (!x)
  | @handle x m inbox ht hi =>
    rw [Order, Bool.forall_bool' x]
    constructor
    · simpa using h x
    · simpa [hi] using h (!x)
  | @deliver x m out ho hc =>
    rw [Order, Bool.forall_bool' x]
    constructor
    · simpa [ho] using h x
    · simpa using h (!x)

theorem Posted.init : Posted reply start (State.init start) := by
  intro x; simp [State.init]

theorem Posted.step (h : Posted reply start s) (hs : Step reply s l s') :
    Posted reply start s' := by
  cases hs with
  | silent => exact h
  | @post x m todo ht =>
    rw [Posted, Bool.forall_bool' x]
    constructor
    · simpa [ht, posts_cons, Op.msg] using h x
    · simpa using h (!x)
  | @credit x todo ht | @signal x todo ht | @await x todo ht hs =>
    rw [Posted, Bool.forall_bool' x]
    constructor
    · simpa [ht, posts_cons, Op.msg] using h x
    · simpa using h (!x)
  | @handle x m inbox ht hi =>
    rw [Posted, Bool.forall_bool' x]
    constructor
    · have hx := h x
      rw [ht, posts_nil, List.append_nil] at hx
      simp [hx]
    · simpa using h (!x)
  | @deliver x m out ho hc =>
    rw [Posted, Bool.forall_bool' x]
    constructor
    · simpa using h x
    · simpa using h (!x)

theorem Credits.init : Credits (credits start) (State.init start) := by
  intro x; simp [State.init]

theorem Credits.step {k : ℕ} (hreply : ∀ m, credits (reply m) = 1) (h : Credits k s)
    (hs : Step reply s l s') : Credits k s' := by
  cases hs with
  | silent => exact h
  | @post x m todo ht | @credit x todo ht | @signal x todo ht | @await x todo ht hs =>
    rw [Credits, Bool.forall_bool' x]
    have hx := h x
    simp only [ht, credits, List.countP_cons, Op.isCredit] at hx
    constructor
    · simp only [State.set_party_self, credits]; grind
    · simpa using h (!x)
  | @handle x m inbox ht hi =>
    rw [Credits, Bool.forall_bool' x]
    have hx := h x
    simp only [ht, hi, credits, List.countP_nil, List.length_cons] at hx
    constructor
    · simp only [State.set_party_self, hreply]; omega
    · simpa using h (!x)
  | @deliver x m out ho hc =>
    rw [Credits, Bool.forall_bool' x]
    have hy := h (!x)
    constructor
    · simpa using h x
    · simp only [State.set_party_self, List.length_append, List.length_singleton]; omega

theorem Code.init : Code reply start (State.init start) := by
  intro x; simp [State.init]

theorem Code.step (h : Code reply start s) (hs : Step reply s l s') : Code reply start s' := by
  cases hs with
  | silent => exact h
  | @post x m todo ht | @credit x todo ht | @signal x todo ht | @await x todo ht hs =>
    rw [Code, Bool.forall_bool' x]
    have hx := h x
    rw [ht] at hx
    constructor
    · simpa using (List.suffix_cons ..).trans hx
    · simpa using h (!x)
  | @handle x m inbox ht hi =>
    rw [Code, Bool.forall_bool' x]
    constructor
    · simp
    · simpa using h (!x)
  | @deliver x m out ho hc =>
    rw [Code, Bool.forall_bool' x]
    constructor
    · simpa using h x
    · simpa using h (!x)

theorem Barrier.init (hstart : start.countP Op.isSignal = start.countP Op.isAwait) :
    Barrier (State.init start) := by
  intro x; simpa [State.init] using hstart

theorem Barrier.step (hsignal : ∀ m, (reply m).countP Op.isSignal = 0)
    (hawait : ∀ m, (reply m).countP Op.isAwait = 0) (h : Barrier s) (hs : Step reply s l s') :
    Barrier s' := by
  cases hs with
  | silent => exact h
  | @post x m todo ht | @credit x todo ht =>
    rw [Barrier, Bool.forall_bool' x]
    constructor
    · simpa [ht, Op.isSignal] using h x
    · simpa [ht, Op.isAwait] using h (!x)
  | @signal x todo ht =>
    rw [Barrier, Bool.forall_bool' x]
    constructor
    · have hx := h x
      simp only [ht, List.countP_cons, Op.isSignal, if_true] at hx
      simp only [Function.update_self, State.set_party_self, State.set_party_not]; omega
    · simpa [ht, Op.isAwait] using h (!x)
  | @await x todo ht hs =>
    rw [Barrier, Bool.forall_bool' x]
    constructor
    · simpa [ht, Op.isSignal] using h x
    · have hx := h (!x)
      simp only [ht, Bool.not_not, List.countP_cons, Op.isAwait, if_true] at hx
      simp only [Function.update_self, State.set_party_self, State.set_party_not, Bool.not_not]
      omega
  | @handle x m inbox ht hi =>
    rw [Barrier, Bool.forall_bool' x]
    constructor
    · simpa [ht, hsignal] using h x
    · simpa [ht, hawait] using h (!x)
  | @deliver x m out ho hc =>
    rw [Barrier, Bool.forall_bool' x]
    constructor
    · simpa using h x
    · simpa using h (!x)

/-- A step does not both send and handle a message. -/
theorem Step.handled_or_sent (hs : Step reply s l s') :
    (∀ x, (s'.party x).handled = (s.party x).handled) ∨
      ∀ x, (s'.party x).sent = (s.party x).sent := by
  cases hs with
  | silent => exact .inl fun x => rfl
  | @post x | @credit x | @signal x | @await x | @deliver x =>
    left; rw [Bool.forall_bool' x]; simp
  | @handle x => right; rw [Bool.forall_bool' x]; simp

/-! ## Readiness -/

/-- Every message that is out finds a credit. -/
def Ready (s : State M) : Prop := ∀ x, (s.party x).out.length ≤ (s.party (!x)).credits

/-- Readiness is lost only when a message is posted without a credit left. -/
theorem Ready.step (h : Ready s) (hs : Step reply s l s')
    (hl : ∀ x m, l = .op x (.post m) →
      (s.party x).out.length + 1 ≤ (s.party (!x)).credits) : Ready s' := by
  cases hs with
  | silent => exact h
  | @post x m todo ht =>
    rw [Ready, Bool.forall_bool' x]
    constructor
    · simpa using hl x m rfl
    · simpa using h (!x)
  | @credit x todo ht =>
    rw [Ready, Bool.forall_bool' x]
    have hy := h (!x)
    rw [Bool.not_not] at hy
    constructor
    · simpa using h x
    · simpa using Nat.le_succ_of_le hy
  | @signal x todo ht | @await x todo ht hs | @handle x m inbox ht hi =>
    rw [Ready, Bool.forall_bool' x]
    constructor
    · simpa using h x
    · simpa using h (!x)
  | @deliver x m out ho hc =>
    rw [Ready, Bool.forall_bool' x]
    have hx := h x
    rw [ho, List.length_cons] at hx
    constructor
    · simp only [State.set_party_self, State.set_not_party]; omega
    · simpa using h (!x)

theorem Ready.of_post {x : Bool} {m : M} (h : Ready s') (hs : Step reply s (.op x (.post m)) s') :
    (s.party x).out.length + 1 ≤ (s.party (!x)).credits := by
  cases hs with
  | post ht => simpa using h x

/-! ## The invariants together -/

/-- Every handler gives one credit, and only `start` takes part in the barrier. -/
structure Regular (start : List (Op M)) (reply : M → List (Op M)) : Prop where
  credit : ∀ m, credits (reply m) = 1
  signal : ∀ m, (reply m).countP Op.isSignal = 0
  await : ∀ m, (reply m).countP Op.isAwait = 0
  start : start.countP Op.isSignal = start.countP Op.isAwait

structure Inv (start : List (Op M)) (reply : M → List (Op M)) (s : State M) : Prop where
  order : Order s
  posted : Posted reply start s
  credits : Credits (credits start) s
  code : Code reply start s
  barrier : Barrier s

namespace Inv

theorem init (hr : Regular start reply) : Inv start reply (State.init start) :=
  ⟨.init, .init, .init, .init, .init hr.start⟩

theorem step (hr : Regular start reply) (h : Inv start reply s) (hs : Step reply s l s') :
    Inv start reply s' :=
  ⟨h.order.step hs, h.posted.step hs, h.credits.step hr.credit hs, h.code.step hs,
    h.barrier.step hr.signal hr.await hs⟩

/-- The other party has handled a part of what a party has sent. -/
theorem handled_prefix_sent (h : Inv start reply s) (x : Bool) :
    (s.party (!x)).handled <+: (s.party x).sent := by
  rw [h.order x, List.append_assoc]
  exact List.prefix_append ..

/-- **Tokens.** Messages of a kind that are answered by one message of the
    kind are conserved. -/
theorem tokens (h : Inv start reply s) {p : M → Bool}
    (hp : ∀ m, (posts (reply m)).countP p = if p m then 1 else 0) (x : Bool) :
    (s.party x).out.countP p + (s.party (!x)).inbox.countP p +
        ((s.party (!x)).out.countP p + (s.party x).inbox.countP p) +
      ((posts (s.party x).todo).countP p + (posts (s.party (!x)).todo).countP p) =
      2 * (posts start).countP p := by
  have hanswers : ∀ ms : List M, (ms.flatMap fun m => posts (reply m)).countP p = ms.countP p := by
    intro ms
    induction ms with
    | nil => rfl
    | cons m ms ih => rw [List.flatMap_cons, List.countP_append, ih, hp, List.countP_cons]; omega
  have hsent : ∀ x, (s.party x).sent.countP p =
      (s.party (!x)).handled.countP p + (s.party (!x)).inbox.countP p +
        (s.party x).out.countP p := by
    intro x; rw [h.order x, List.countP_append, List.countP_append]
  have hposted : ∀ x, (s.party x).sent.countP p + (posts (s.party x).todo).countP p =
      (posts start).countP p + (s.party x).handled.countP p := by
    intro x
    rw [← List.countP_append, h.posted x, List.countP_append, hanswers]
  have h1 := hsent x
  have h2 := hsent (!x)
  have h3 := hposted x
  have h4 := hposted (!x)
  rw [Bool.not_not] at h2
  omega

end Inv

end Flow

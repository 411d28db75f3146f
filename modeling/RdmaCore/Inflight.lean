/-
  The counters of the requests in flight (`sq_inflight` and `rq_inflight` of
  include/rdma_adapter.h) while `process_CQ` of src/rdma_session.cc serves a
  group of channels with the default callbacks.

  One thread visits the channels for the established callback, and then handles
  completions; the completions of different channels come in any order.

  * `balanced_of_run`: the counters are all that was posted, because no default
    handler calls `decrease_sqe` or `decrease_rqe`;
  * `exact_iff`: they count what is in flight exactly until the first
    completion of the channel is handled.

  The counters are integers here; those of the source have 64 bits.
-/
import RdmaCore.Handlers
import RdmaCore.Lib.Lts

namespace RdmaCore

namespace Side

/-- `get_sqe` -/
def getSqe (me : Side) : ℤ := me.sqInflight

/-- `get_rqe` -/
def getRqe (me : Side) : ℤ := me.rqInflight

/-- The counters are the numbers of requests and receives posted. -/
structure Balanced (me : Side) : Prop where
  sq : me.getSqe = me.sq.length
  rq : me.getRqe = me.rq

variable {p : Peer} {me me' : Side}

theorem balanced_init : (Side.init p).Balanced := ⟨rfl, rfl⟩

theorem Balanced.of_eq (hb : me.Balanced) (hsqe : me'.sqInflight = me.sqInflight)
    (hrqe : me'.rqInflight = me.rqInflight) (hsq : me'.sq = me.sq) (hrq : me'.rq = me.rq) :
    me'.Balanced := by
  refine ⟨?_, ?_⟩
  · rw [hsq]
    exact hsqe.trans hb.sq
  · rw [hrq]
    exact hrqe.trans hb.rq

theorem Balanced.setMem (hb : me.Balanced) (b : Buf) (m : ByteMem) : (me.setMem b m).Balanced :=
  hb.of_eq rfl rfl rfl rfl

theorem Balanced.post (hb : me.Balanced) (r : Request) : (me.post r).Balanced where
  sq := by
    have hlen : (me.post r).sq.length = me.sq.length + 1 := List.length_append
    show me.getSqe + 1 = ((me.post r).sq.length : ℤ)
    rw [hlen, hb.sq, Nat.cast_succ]
  rq := hb.rq

theorem Balanced.perform (hb : me.Balanced) {o : Op} (h : me.perform o = .ok me') :
    me'.Balanced := by
  cases o with
  | checkLength b len =>
    simp only [Side.perform] at h
    split_ifs at h
    exact Except.ok.inj h ▸ hb
  | clear | copy =>
    exact Except.ok.inj h ▸ hb.setMem _ _
  | recvRemote =>
    obtain rfl := Except.ok.inj h
    refine ⟨hb.sq, ?_⟩
    show me.getRqe + 1 = ((me.rq + 1 : ℕ) : ℤ)
    rw [hb.rq, Nat.cast_succ]
  | sendRemote len tag => exact perform_sendRemote h ▸ hb.post _
  | writeRemote len tag notifyPeer => exact perform_writeRemote h ▸ hb.post _
  | readRemote len => exact perform_readRemote h ▸ hb.post _
  | loadAddr | loadLength | loadRkey | insertPeerBuffer | readText | syncSend | syncRecv =>
    simp only [Side.perform, Except.ok.injEq] at h
    subst h
    exact hb.of_eq rfl rfl rfl rfl
  | findPeerBuffer =>
    obtain ⟨d, -, rfl⟩ := perform_findPeerBuffer h
    exact hb.of_eq rfl rfl rfl rfl

theorem Balanced.performAll (hb : me.Balanced) {ops : List Op} (h : me.performAll ops = .ok me') :
    me'.Balanced := by
  induction ops generalizing me with
  | nil => exact performAll_nil.1 h ▸ hb
  | cons o ops ih =>
    obtain ⟨me₁, h₁, h⟩ := performAll_cons.1 h
    exact ih (hb.perform h₁) h

theorem Balanced.handle (hb : me.Balanced) {c : Completion} (h : me.handle p c = .ok me') :
    me'.Balanced := by
  cases c with
  | send => exact Except.pure_eq_ok.1 h ▸ hb
  | recv imm m =>
    cases imm with
    | none => cases h
    | some imm => exact (hb.setMem .recv m).performAll h
  | write => exact hb.performAll h
  | read m => exact (hb.setMem .read m).performAll h
  | recvWithImm imm =>
    cases imm with
    | none => cases h
    | some imm => exact hb.performAll h

end Side

/-- A completion of a send, write or read; the others consume a receive. -/
def Completion.ofSq : Completion → Bool
  | send => true
  | write => true
  | read _ => true
  | recv .. => false
  | recvWithImm _ => false

/-! ## The polling thread -/

/-- What the thread of `process_CQ` does next. -/
inductive Event (C : Type) where
  /-- `default_established_fn` turns to its next channel -/
  | established
  | completion (c : C) (wc : Completion)

/-- The thread of `process_CQ`. -/
structure Polling (C : Type) where
  side : C → Side
  /-- the channels that `default_established_fn` has still to visit -/
  waiting : List C

section
variable {C : Type} [DecidableEq C] {P : C → Peer} {s s' : Polling C} {as : List (Event C)} {c : C}

namespace Polling

def init (P : C → Peer) (aggregatedChannels : List C) : Polling C where
  side := fun c => Side.init (P c)
  waiting := aggregatedChannels

/-- One handler; `none` if one of its `CHECK`s ends the process. -/
def step (P : C → Peer) (s : Polling C) : Event C → Option (Polling C)
  | .established =>
    match s.waiting with
    | [] => none
    | c :: waiting => ((s.side c).establish (P c)).toOption.map fun me =>
        ⟨Function.update s.side c me, waiting⟩
  | .completion c wc =>
    if s.waiting = [] then
      ((s.side c).handling (P c) wc).map fun me => { s with side := Function.update s.side c me }
    else none

end Polling

/-- The completions of a channel that an event handles, of its sends, writes
    and reads or of its receives. -/
def Event.handles (c : C) (sq : Bool) : Event C → Bool
  | established => false
  | completion c' wc => c' = c ∧ wc.ofSq = sq

/-- **In flight**: posted, and the completion not handled by the events so far. -/
structure Exact (s : Polling C) (as : List (Event C)) (c : C) : Prop where
  sqe : (s.side c).getSqe = (s.side c).sq.length - as.countP (Event.handles c true)
  rqe : (s.side c).getRqe = (s.side c).rq - as.countP (Event.handles c false)

/-- A handler changes its own channel only. -/
theorem Polling.balanced_step {a : Event C} (hb : ∀ c, (s.side c).Balanced)
    (h : s.step P a = some s') : ∀ c, (s'.side c).Balanced := by
  have hupd {c' : C} {me' : Side} (hme : me'.Balanced) :
      ∀ c, (Function.update s.side c' me' c).Balanced :=
    (Function.forall_update_iff s.side fun _ me => me.Balanced).2 ⟨hme, fun c _ => hb c⟩
  cases a with
  | established =>
    simp only [step] at h
    split at h
    · cases h
    · next c' waiting _ =>
      obtain ⟨me', hme, rfl⟩ := Option.map_eq_some_iff.1 h
      exact hupd ((hb c').performAll (Lts.toOption_eq_some.1 hme))
  | completion c' wc =>
    simp only [step] at h
    split_ifs at h
    obtain ⟨me', hme, rfl⟩ := Option.map_eq_some_iff.1 h
    exact hupd ((hb c').handle (Side.handle_of_handling hme))

/-- **The counters only count what was posted.** -/
theorem balanced_of_run {cs : List C} (h : Lts.run (Polling.step P) (.init P cs) as = some s) :
    ∀ c, (s.side c).Balanced :=
  Lts.run_induct (fun _ _ _ hb hstep => Polling.balanced_step hb hstep) as
    (fun _ => Side.balanced_init) h

/-- No completion of the channel, of either kind. -/
theorem countP_handles_eq_zero : (∀ sq, as.countP (Event.handles c sq) = 0) ↔
    ∀ wc, Event.completion c wc ∉ as := by
  simp only [List.countP_eq_zero]
  constructor
  · intro h wc hmem
    exact h wc.ofSq _ hmem (decide_eq_true ⟨rfl, rfl⟩)
  · intro h sq a ha
    cases a with
    | established => exact Bool.false_ne_true
    | completion c' wc =>
      intro htrue
      obtain ⟨rfl, -⟩ := of_decide_eq_true htrue
      exact h wc ha

theorem exact_iff_of_run {cs : List C} (h : Lts.run (Polling.step P) (.init P cs) as = some s) :
    Exact s as c ↔ ∀ wc, Event.completion c wc ∉ as := by
  have hb := balanced_of_run h c
  rw [← countP_handles_eq_zero]
  constructor
  · rintro ⟨hsq, hrq⟩
    rw [hb.sq] at hsq
    rw [hb.rq] at hrq
    intro sq
    cases sq <;> omega
  · intro hzero
    refine ⟨?_, ?_⟩
    · rw [hb.sq, hzero true, Nat.cast_zero, sub_zero]
    · rw [hb.rq, hzero false, Nat.cast_zero, sub_zero]

/-- **The counters of a channel are exact** in every state of a run exactly if
    the run handles no completion of the channel. -/
theorem exact_iff {cs : List C} (h : Lts.run (Polling.step P) (.init P cs) as = some s) :
    (∀ as₁ s₁, as₁ <+: as → Lts.run (Polling.step P) (.init P cs) as₁ = some s₁ →
      Exact s₁ as₁ c) ↔ ∀ wc, Event.completion c wc ∉ as := by
  constructor
  · intro hall
    exact (exact_iff_of_run h).1 (hall as s (List.prefix_refl as) h)
  · intro hnone as₁ s₁ hp h₁
    exact (exact_iff_of_run h₁).2 fun wc hmem => hnone wc (hp.subset hmem)

end

/-- A channel is established. -/
theorem exact_established : ∃ s, Lts.run (Polling.step fun _ : Unit => .pair true)
    (.init (fun _ => .pair true) [()]) [.established] = some s ∧ Exact s [.established] () := by
  have h : (Lts.run (Polling.step fun _ : Unit => .pair true) (.init (fun _ => .pair true) [()])
      [.established]).isSome = true := by decide +kernel
  obtain ⟨s, hs⟩ := Option.isSome_iff_exists.1 h
  exact ⟨s, hs, (exact_iff hs).2 (by simp) _ s (List.prefix_refl _) hs⟩

/-- The first send completes, and `get_sqe` stays 1. -/
theorem not_exact_send : ∃ s, Lts.run (Polling.step fun _ : Unit => .pair true)
    (.init (fun _ => .pair true) [()]) [.established, .completion () .send] = some s ∧
      ¬ Exact s [.established, .completion () .send] () := by
  have h : (Lts.run (Polling.step fun _ : Unit => .pair true) (.init (fun _ => .pair true) [()])
      [.established, .completion () .send]).any (fun s =>
        (s.side ()).getSqe = 1 ∧ (s.side ()).sq.length = 1) = true := by decide +kernel
  obtain ⟨s, hs, hp⟩ := (Option.any_eq_true _ _).1 h
  obtain ⟨hsqe, hlen⟩ := of_decide_eq_true hp
  refine ⟨s, hs, fun hex => ?_⟩
  have hcount : [Event.established, .completion () .send].countP (Event.handles () true) = 1 := rfl
  have hsq := hex.sqe
  rw [hsqe, hlen, hcount] at hsq
  exact absurd hsq (by decide)

end RdmaCore

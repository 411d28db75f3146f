/-
  The remote buffer that the one-sided operations of a channel go to
  (`insert_peer_buffer` and `find_peer_buffer` of src/rdma_channel.cc, the
  handlers of src/rdma_session.cc).

  The handler of `REQUEST_EXCHANGE_KEY` writes to the buffer it has just
  received, but `insert_peer_buffer` keeps the first one, and the handlers of
  finished writes and reads use what it keeps.

  * `run_peerBuffer`: the buffer kept is the first one advertised;
  * `usesLatest_iff`: all operations go to the latest one exactly if the first
    and the latest agree whenever a write or read has finished.
-/
import RdmaCore.Handlers
import RdmaCore.Lib.Lts
import Mathlib.Data.List.Induction

namespace RdmaCore

/-- Address, length and rkey of a remote buffer. -/
abbrev Target := UInt64 × UInt64 × UInt32

def CommDescriptor.target (d : CommDescriptor) : Target := (d.bufferAddr, d.bufferLength, d.rkey)

/-- The remote buffer that a one-sided operation uses. -/
def Request.target : Request → Option Target
  | send .. => none
  | write _ d _ => some d.target
  | read _ d => some d.target

namespace Completion

/-- The buffer that a `REQUEST_EXCHANGE_KEY` advertises. -/
def advertised : Completion → Option Target
  | recv (some imm) m =>
    if MessageType.ofImm imm = some .requestExchangeKey then
      some (CommDescriptor.loadAddr m 0, CommDescriptor.loadLength m 0, CommDescriptor.loadRkey m 0)
    else none
  | _ => none

/-- A finished write or read. -/
def OneSided : Completion → Prop
  | write => True
  | read _ => True
  | _ => False

/-- The buffers advertised in a sequence, oldest first. -/
def advertisements (cs : List Completion) : List Target := cs.filterMap advertised

theorem advertisements_append (cs : List Completion) (c : Completion) :
    advertisements (cs ++ [c]) = advertisements cs ++ c.advertised.toList := by
  rw [advertisements, List.filterMap_append]
  cases h : c.advertised with
  | none => rw [List.filterMap_cons_none h]; rfl
  | some t => rw [List.filterMap_cons_some h]; rfl

end Completion

open Completion

/-- The remote buffers of the operations launched between two states. -/
def Side.launched (me me' : Side) : List Target :=
  (me'.sq.drop me.sq.length).filterMap (·.request.target)

/-- Every one-sided operation that a handler of the sequence launches goes to
    the buffer advertised last. -/
def UsesLatest (p : Peer) (me : Side) (cs : List Completion) : Prop :=
  ∀ cs₁ c, cs₁ ++ [c] <+: cs → ∀ me₁ me₂, Lts.run (Side.handling p) me cs₁ = some me₁ →
    me₁.handling p c = some me₂ →
      ∀ t ∈ me₁.launched me₂, (advertisements (cs₁ ++ [c])).getLast? = some t

/-- Whenever a write or read finishes, the buffer advertised last is the first. -/
def FirstIsLatest (cs : List Completion) : Prop :=
  ∀ cs₁ c, cs₁ ++ [c] <+: cs → c.OneSided →
    (advertisements cs₁).head? = (advertisements cs₁).getLast?

section
variable {p : Peer} {me me' : Side} {c : Completion}

theorem Side.launched_eq {rs : List Posted} (h : me'.sq = me.sq ++ rs) :
    me.launched me' = rs.filterMap (·.request.target) := by
  rw [launched, h, List.drop_left]

theorem target_eq {m : ByteMem} {d : CommDescriptor} (h : Side.AdvertisedIn m d) :
    d.target =
      (CommDescriptor.loadAddr m 0, CommDescriptor.loadLength m 0, CommDescriptor.loadRkey m 0) := by
  obtain ⟨ha, hl, hr⟩ := h
  rw [CommDescriptor.target, ha, hl, hr]

/-- What the handlers keep, and where they launch. -/
theorem handling_spec (h : me.handling p c = some me') :
    me'.peerBuffer.map (·.target) = (me.peerBuffer.map (·.target)).or c.advertised ∧
      (me.launched me' = c.advertised.toList ∧ ¬ c.OneSided ∨
        c.advertised = none ∧ c.OneSided ∧ ∃ d, me.peerBuffer = some d ∧
          me.launched me' = [d.target]) := by
  replace h := Side.handle_of_handling h
  cases c with
  | send =>
    obtain rfl := Except.pure_eq_ok.1 h
    refine ⟨by simp [advertised], .inl ⟨?_, id⟩⟩
    rw [Side.launched_eq (List.append_nil _).symm]
    rfl
  | recv imm m =>
    cases imm with
    | none => cases h
    | some imm =>
      by_cases hi : MessageType.ofImm imm = some .requestExchangeKey
      · obtain ⟨d, hd, hpeer, hsq⟩ := Side.handle_request hi h
        have hadv : (recv (some imm) m).advertised = some d.target := by
          rw [advertised, if_pos hi, target_eq hd]
        rw [hpeer, hadv, Side.launched_eq hsq]
        refine ⟨?_, .inl ⟨rfl, id⟩⟩
        cases me.peerBuffer <;> rfl
      · obtain ⟨hpeer, len, tag, hsq⟩ := Side.handle_other hi h
        have hadv : (recv (some imm) m).advertised = none := if_neg hi
        rw [hpeer, hadv, Side.launched_eq hsq]
        exact ⟨(Option.or_none).symm, .inl ⟨rfl, id⟩⟩
  | write =>
    obtain ⟨d, hd, hd', hsq⟩ := Side.handle_write h
    refine ⟨by rw [hd, hd']; rfl, .inr ⟨rfl, trivial, d, hd, ?_⟩⟩
    rw [Side.launched_eq hsq]
    rfl
  | read m =>
    obtain ⟨d, hd, hd', hsq⟩ := Side.handle_read h
    refine ⟨by rw [hd, hd']; rfl, .inr ⟨rfl, trivial, d, hd, ?_⟩⟩
    rw [Side.launched_eq hsq]
    rfl
  | recvWithImm imm =>
    obtain ⟨hpeer, hsq⟩ := Side.handle_recvWithImm h
    refine ⟨by simp [hpeer, advertised], .inl ⟨?_, id⟩⟩
    rw [Side.launched_eq (hsq.trans (List.append_nil _).symm)]
    rfl

/-- **The buffer that a channel keeps is the first one advertised.** -/
theorem run_peerBuffer {cs : List Completion} (hfresh : me.peerBuffer = none)
    (h : Lts.run (Side.handling p) me cs = some me') :
    me'.peerBuffer.map (·.target) = (advertisements cs).head? := by
  induction cs using List.reverseRecOn generalizing me' with
  | nil =>
    obtain rfl := Option.some.inj h
    rw [hfresh]
    rfl
  | append_singleton cs c ih =>
    rw [Lts.run_append, Option.bind_eq_some_iff] at h
    obtain ⟨me₁, h₁, h₂⟩ := h
    simp only [Lts.run_cons, Lts.run_nil, Option.bind_fun_some] at h₂
    rw [(handling_spec h₂).1, ih h₁, advertisements_append, List.head?_append]
    cases c.advertised <;> rfl

/-- **All one-sided operations use the latest buffer** exactly if no write or
    read finishes while the buffer advertised last differs from the first. -/
theorem usesLatest_iff {cs : List Completion} (hfresh : me.peerBuffer = none)
    (h : Lts.run (Side.handling p) me cs = some me') : UsesLatest p me cs ↔ FirstIsLatest cs := by
  constructor
  · intro huse cs₁ c hp hone
    obtain ⟨cs₂, rfl⟩ := hp
    rw [List.append_assoc, Lts.run_append, Option.bind_eq_some_iff] at h
    obtain ⟨me₁, h₁, h⟩ := h
    simp only [List.singleton_append, Lts.run_cons, Option.bind_eq_some_iff] at h
    obtain ⟨me₂, h₂, -⟩ := h
    obtain ⟨-, ⟨-, hnot⟩ | ⟨hnone, -, d, hd, hlaunch⟩⟩ := handling_spec h₂
    · exact absurd hone hnot
    · have hlast := huse cs₁ c (List.prefix_append _ cs₂) me₁ me₂ h₁ h₂ d.target
        (hlaunch ▸ List.mem_singleton.2 rfl)
      rw [advertisements_append, hnone, Option.toList_none, List.append_nil] at hlast
      rw [hlast, ← run_peerBuffer hfresh h₁, hd]
      rfl
  · intro hfirst cs₁ c hp me₁ me₂ h₁ h₂ t ht
    rw [advertisements_append]
    obtain ⟨-, ⟨hlaunch, -⟩ | ⟨hnone, hone, d, hd, hlaunch⟩⟩ := handling_spec h₂
    · rw [hlaunch, Option.mem_toList] at ht
      rw [ht, Option.toList_some, List.getLast?_concat]
    · rw [hlaunch] at ht
      obtain rfl := List.mem_singleton.1 ht
      rw [hnone, Option.toList_none, List.append_nil, ← hfirst cs₁ c hp hone,
        ← run_peerBuffer hfresh h₁, hd]
      rfl

/-- A peer that always advertises the same buffer. -/
theorem firstIsLatest_of_forall {cs : List Completion} {t : Target}
    (h : ∀ t' ∈ advertisements cs, t' = t) : FirstIsLatest cs := by
  intro cs₁ c hp _
  obtain ⟨cs₂, rfl⟩ := hp
  have hsame : ∀ t' ∈ advertisements cs₁, t' = t := by
    intro t' ht
    refine h t' ?_
    rw [List.append_assoc, advertisements, List.filterMap_append]
    exact List.mem_append_left _ ht
  rw [List.eq_replicate_of_mem hsame, List.head?_replicate, List.getLast?_replicate]

end

/-- A `REQUEST_EXCHANGE_KEY` that brings this descriptor. -/
def Completion.requesting (d : CommDescriptor) : Completion :=
  .recv (some MessageType.requestExchangeKey.toImm) fun i => d.toBytes.getD i 0

/-- The same buffer advertised twice. -/
theorem usesLatest_repeated : ∃ me, (Side.init (.pair true)).establish (.pair true) = .ok me ∧
    UsesLatest (.pair true) me
      [requesting ⟨0x8000, 10000, 0x22, 0⟩, requesting ⟨0x8000, 10000, 0x22, 0⟩, write] := by
  have h : ((Side.init (.pair true)).establish (.pair true)).toOption.any (fun me =>
      me.peerBuffer.isNone && (Lts.run (Side.handling (.pair true)) me
        [requesting ⟨0x8000, 10000, 0x22, 0⟩, requesting ⟨0x8000, 10000, 0x22, 0⟩,
          write]).isSome) = true := by decide +kernel
  obtain ⟨me, hme, h⟩ := (Option.any_eq_true _ _).1 h
  rw [Bool.and_eq_true, Option.isNone_iff_eq_none, Option.isSome_iff_exists] at h
  obtain ⟨hfresh, me', hrun⟩ := h
  refine ⟨me, Lts.toOption_eq_some.1 hme, (usesLatest_iff hfresh hrun).2 ?_⟩
  have hadv : advertisements [requesting ⟨0x8000, 10000, 0x22, 0⟩,
      requesting ⟨0x8000, 10000, 0x22, 0⟩, write] =
        List.replicate 2 (0x8000, 10000, 0x22) := by decide +kernel
  exact firstIsLatest_of_forall fun t' ht => List.eq_of_mem_replicate (hadv ▸ ht)

/-- The peer advertises another buffer: the read goes to the first one. -/
theorem reads_superseded_buffer : ∃ me me',
    (Side.init (.pair true)).establish (.pair true) = .ok me ∧
      Lts.run (Side.handling (.pair true)) me
        [requesting ⟨0x8000, 10000, 0x22, 0⟩, requesting ⟨0x9000, 10000, 0x33, 0⟩, write] =
          some me' ∧
      ¬ UsesLatest (.pair true) me
        [requesting ⟨0x8000, 10000, 0x22, 0⟩, requesting ⟨0x9000, 10000, 0x33, 0⟩, write] := by
  have h : ((Side.init (.pair true)).establish (.pair true)).toOption.any (fun me =>
      (Lts.run (Side.handling (.pair true)) me
        [requesting ⟨0x8000, 10000, 0x22, 0⟩, requesting ⟨0x9000, 10000, 0x33, 0⟩]).any fun me₁ =>
        (me₁.handling (.pair true) write).any fun me₂ =>
          me₁.launched me₂ = [(0x8000, 10000, 0x22)]) = true := by decide +kernel
  have hlast : (advertisements [requesting ⟨0x8000, 10000, 0x22, 0⟩,
      requesting ⟨0x9000, 10000, 0x33, 0⟩, write]).getLast? = some (0x9000, 10000, 0x33) := by
    decide +kernel
  simp only [Option.any_eq_true, decide_eq_true_eq] at h
  obtain ⟨me, hme, me₁, h₁, me₂, h₂, hlaunch⟩ := h
  refine ⟨me, me₂, Lts.toOption_eq_some.1 hme, ?_, ?_⟩
  · exact (Lts.run_append (Side.handling (.pair true)) me [_, _] [write]).trans (by
      rw [h₁, Option.bind_some, Lts.run_cons, h₂]
      rfl)
  · intro huse
    have h := huse [_, _] write (List.prefix_refl _) me₁ me₂ h₁ h₂ _
      (hlaunch ▸ List.mem_singleton.2 rfl)
    rw [List.cons_append, List.cons_append, List.nil_append, hlast] at h
    simp at h

end RdmaCore

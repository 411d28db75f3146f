/-
  The registration that a base buffer shares with its blocks
  (`register_in_channel` and `deregister_from_channel` of src/rdma_buffer.cc).

  `register_in_channel` updates the base buffer and every block;
  `deregister_from_channel` resets the base buffer only.  The blocks inherit
  the registration of their buffer in all states of a run exactly if the run
  does not deregister the buffer (`inherits_iff`).
-/
import RdmaCore.Registry

namespace RdmaCore

/-- A call that registers or deregisters a base buffer. -/
inductive RegCall where
  /-- `c->register_buffer(b)` -/
  | registerBuffer (c : ChannelId) (lkey rkey : UInt32)
  /-- `b->register_in_channel(c)` -/
  | registerInChannel (c : ChannelId) (lkey rkey : UInt32)
  /-- `b->deregister_from_channel(c)`, with `none` for a null channel -/
  | deregister (c : Option ChannelId)
  deriving DecidableEq

namespace RegCall

def exec (b : BufferId) (w : World) : RegCall → Except Fault World
  | registerBuffer c lkey rkey => w.registerBuffer c b lkey rkey
  | registerInChannel c lkey rkey => w.registerInChannel b c lkey rkey
  | deregister c => w.deregisterFromChannel b c

/-- The call on buffer `b`; `none` if it does not return. -/
def step (b : BufferId) (w : World) (c : RegCall) : Option World := (c.exec b w).toOption

theorem exec_of_step {b : BufferId} {w w' : World} {c : RegCall} (h : c.step b w = some w') :
    c.exec b w = .ok w' :=
  Lts.toOption_eq_some.1 h

/-- The call deregisters the buffer from a channel. -/
def Deregisters : RegCall → Prop
  | deregister c => c ≠ none
  | _ => False

instance (c : RegCall) : Decidable c.Deregisters :=
  match c with
  | deregister c => inferInstanceAs (Decidable (c ≠ none))
  | registerBuffer .. => isFalse id
  | registerInChannel .. => isFalse id

end RegCall

namespace World

/-- Every block of `b` that `at()` returns has the registration of `b`, and no
    block of an unregistered buffer passes `security_check`. -/
def Inherits (b : BufferId) (w : World) : Prop :=
  ∀ buf, w.buffers b = some buf → ∀ i o, buf.blockAt i = .ok o →
    o.ownedByChannel = buf.ownedByChannel ∧ o.mr = buf.mr ∧
      (buf.ownedByChannel = none → ∃ f, securityCheck o = .error f)

/-- `b` has blocks, and they share its registration. -/
def Shared (b : BufferId) (w : World) : Prop :=
  ∃ buf, w.buffers b = some buf ∧ buf.blocks = buf.bufferMgr.length ∧ 0 < buf.blocks ∧
    ∀ o ∈ buf.bufferMgr, o.ownedByChannel = buf.ownedByChannel ∧ o.mr = buf.mr

section
variable {w w' : World} {b : BufferId} {c : ChannelId} {lkey rkey : UInt32}

theorem securityCheck_unowned {o : BufferObj} (h : o.ownedByChannel = none) :
    ∃ f, securityCheck o = .error f := by
  cases hc : securityCheck o with
  | error f => exact ⟨f, rfl⟩
  | ok u =>
    simp only [securityCheck, Except.bind_eq_ok, check_eq_ok] at hc
    obtain ⟨-, -, -, -, hown⟩ := hc
    exact absurd h hown

theorem Shared.inherits (h : Shared b w) : Inherits b w := by
  obtain ⟨buf, hbuf, hblocks, -, hall⟩ := h
  intro buf' hbuf' i o ho
  obtain rfl := Option.some.inj (hbuf.symm.trans hbuf')
  have hmem : o ∈ buf.bufferMgr := by
    simp only [RDMABuffer.blockAt, Except.bind_eq_ok] at ho
    obtain ⟨-, -, ho⟩ := ho
    split at ho
    · next block hget => exact Except.pure_eq_ok.1 ho ▸ List.mem_of_getElem? hget
    · cases ho
  obtain ⟨hown, hmr⟩ := hall o hmem
  exact ⟨hown, hmr, fun hn => securityCheck_unowned (hown.trans hn)⟩

/-- Base buffer and blocks get the new registration. -/
theorem Shared.of_setRegistration {buf : RDMABuffer} {mr : MrId}
    (hblocks : buf.blocks = buf.bufferMgr.length) (hpos : 0 < buf.blocks)
    (hw' : w'.buffers b = some (buf.setRegistration c mr)) :
    Shared b w' := by
  refine ⟨_, hw', ?_, hpos, ?_⟩
  · simp only [RDMABuffer.setRegistration, List.length_map]
    exact hblocks
  · intro o ho
    obtain ⟨o', -, rfl⟩ := List.mem_map.1 ho
    exact ⟨rfl, rfl⟩

theorem registerInChannel_ok (h : w.registerInChannel b c lkey rkey = .ok w') :
    ∃ buf mr, w.buffers b = some buf ∧ w'.buffers b = some (buf.setRegistration c mr) := by
  simp only [registerInChannel, Except.bind_eq_ok, getBuffer_eq_ok, Except.pure_eq_ok] at h
  obtain ⟨buf, hbuf, -, -, ch, -, ⟨w₁, mr⟩, -, rfl⟩ := h
  exact ⟨buf, mr, hbuf, Function.update_self ..⟩

theorem Shared.step {a : RegCall} (h : Shared b w) (hs : RegCall.step b w a = some w')
    (ha : ¬ a.Deregisters) : Shared b w' := by
  obtain ⟨buf, hbuf, hblocks, hpos, hall⟩ := h
  have hok := RegCall.exec_of_step hs
  cases a with
  | registerBuffer c lkey rkey =>
    obtain ⟨buf', ch, hbuf', -, -, rfl⟩ := registerBuffer_ok hok
    obtain rfl := Option.some.inj (hbuf.symm.trans hbuf')
    exact Shared.of_setRegistration hblocks hpos (Function.update_self ..)
  | registerInChannel c lkey rkey =>
    obtain ⟨buf', mr, hbuf', hw'⟩ := registerInChannel_ok hok
    obtain rfl := Option.some.inj (hbuf.symm.trans hbuf')
    exact Shared.of_setRegistration hblocks hpos hw'
  | deregister c =>
    cases c with
    | none =>
      obtain rfl := Except.pure_eq_ok.1 hok
      exact ⟨buf, hbuf, hblocks, hpos, hall⟩
    | some c => exact absurd (Option.some_ne_none c) ha

/-- After a deregistration the blocks have a region, and their buffer has none. -/
theorem Shared.not_inherits {a : RegCall} (h : Shared b w) (hs : RegCall.step b w a = some w')
    (ha : a.Deregisters) : ¬ Inherits b w' := by
  obtain ⟨buf, hbuf, hblocks, hpos, hall⟩ := h
  cases a with
  | registerBuffer | registerInChannel => exact ha.elim
  | deregister c =>
    cases c with
    | none => exact absurd rfl ha
    | some c =>
      obtain ⟨buf', ch, mr, r, hbuf', -, hmr, -, -, rfl⟩ :=
        deregisterFromChannel_ok (RegCall.exec_of_step hs)
      obtain rfl := Option.some.inj (hbuf.symm.trans hbuf')
      intro hinh
      have hlen : 0 < buf.bufferMgr.length := hblocks ▸ hpos
      have hget : buf.bufferMgr[0]? = some (buf.bufferMgr.get ⟨0, hlen⟩) :=
        List.getElem?_eq_getElem hlen
      have hat : ({ buf with ownedByChannel := none, mr := none } : RDMABuffer).blockAt 0 =
          .ok (buf.bufferMgr.get ⟨0, hlen⟩) := by
        simp only [RDMABuffer.blockAt, Except.bind_eq_ok, check_eq_ok, hget]
        exact ⟨(), hpos, rfl⟩
      obtain ⟨-, hnone, -⟩ := hinh _ (Function.update_self ..) 0 _ hat
      rw [(hall _ (List.mem_of_getElem? hget)).2, hmr] at hnone
      exact Option.some_ne_none mr hnone

end

theorem shared_of_allocateBuffer {mem mem' : ByteMem} {ptr : ℕ} {size : UInt64} {k : UInt32}
    {info : String} {base : RDMABuffer}
    (h : RDMABuffer.allocateBuffer mem ptr size k info = .ok (base, mem')) {w : World}
    {b : BufferId} (hw : w.buffers b = some base) : Shared b w := by
  obtain ⟨rfl, hpos, -⟩ := RDMABuffer.allocateBuffer_ok h
  have hblocks : (RDMABuffer.construct ptr size k info).blocks = k.toNat := by
    rw [RDMABuffer.toBufferObj_construct]
    rfl
  refine ⟨_, hw, ?_, ?_, ?_⟩
  · rw [hblocks, RDMABuffer.length_construct]
  · rw [hblocks]
    refine Nat.pos_of_ne_zero fun hk => ?_
    rw [RDMABuffer.totalSize, hk, Nat.mul_zero] at hpos
    exact absurd hpos (by decide)
  · intro o ho
    obtain ⟨hown, hmr, -⟩ := RDMABuffer.mem_construct ptr size k info ho
    rw [hown, hmr, RDMABuffer.construct_ownedByChannel, RDMABuffer.construct_mr]
    exact ⟨rfl, rfl⟩

/-- **Blocks inherit the registration of their buffer** in all states of a run
    exactly if no call of the run deregisters the buffer. -/
theorem inherits_iff {mem mem' : ByteMem} {ptr : ℕ} {size : UInt64} {k : UInt32} {info : String}
    {base : RDMABuffer} (h : RDMABuffer.allocateBuffer mem ptr size k info = .ok (base, mem'))
    {w w' : World} {b : BufferId} (hw : w.buffers b = some base) {cs : List RegCall}
    (hr : Lts.run (RegCall.step b) w cs = some w') :
    Lts.Always (RegCall.step b) (Inherits b) w cs ↔ ∀ c ∈ cs, ¬ c.Deregisters := by
  rw [← Lts.along_iff_forall hr]
  refine Lts.always_iff_along (P := Shared b) (fun _ => Shared.inherits) ?_ ?_ cs
    (shared_of_allocateBuffer h hw) hr
  · intro s c s' hs hstep hc
    exact hs.step hstep hc
  · intro s c s' hs hstep hq hc
    exact hs.not_inherits hstep hc hq

/-- A buffer of two blocks in the memory at 4096. -/
def oneBuffer : World :=
  (init 1).setBuffer 0 (RDMABuffer.construct 4096 256 2 "data")

theorem inherits_registered : ∃ w', Lts.run (RegCall.step 0) oneBuffer
    [.registerBuffer 0 1 2, .registerInChannel 0 3 4] = some w' ∧
      Lts.Always (RegCall.step 0) (Inherits 0) oneBuffer
        [.registerBuffer 0 1 2, .registerInChannel 0 3 4] := by
  have h : RDMABuffer.allocateBuffer (fun _ => 0) 4096 256 2 "data" =
      .ok (RDMABuffer.construct 4096 256 2 "data", _) := rfl
  have hw : oneBuffer.buffers 0 = some (RDMABuffer.construct 4096 256 2 "data") := rfl
  obtain ⟨w', hr⟩ : ∃ w', Lts.run (RegCall.step 0) oneBuffer
    [.registerBuffer 0 1 2, .registerInChannel 0 3 4] = some w' := ⟨_, rfl⟩
  exact ⟨w', hr, (inherits_iff h hw hr).2 (by decide)⟩

/-- A block of a buffer that is registered and deregistered keeps its owner and
    passes `security_check`. -/
theorem not_inherits_deregistered : ∃ w' buf o, Lts.run (RegCall.step 0) oneBuffer
    [.registerBuffer 0 1 2, .deregister (some 0)] = some w' ∧ w'.buffers 0 = some buf ∧
      buf.ownedByChannel = none ∧ buf.blockAt 0 = .ok o ∧ o.ownedByChannel = some 0 ∧
      securityCheck o = .ok () ∧ ¬ Inherits 0 w' := by
  refine ⟨_, _, _, rfl, rfl, rfl, rfl, rfl, rfl, fun hinh => ?_⟩
  obtain ⟨hown, -⟩ := hinh _ rfl 0 _ rfl
  exact absurd hown (by decide)

end World

end RdmaCore

/-
  Destruction of a channel (`RDMAChannel::~RDMAChannel`).

  The loop of the destructor deregisters the buffers of `owning_buffers`, and
  each deregistration erases a node of the map the loop iterates over.  The
  node just visited must still be there when the iterator advances, so a loop
  over a non-empty map cannot end with an empty one (`destroyLoop_mem`).
-/
import RdmaCore.Registry

namespace RdmaCore

namespace World

/-- What the destructor of the channel `c` is for: each registered buffer is
    visited once, its region is deregistered once, and afterwards the channel
    has no buffer and none of these buffers is registered. -/
def TeardownOk (w : World) (c : ChannelId) : Prop :=
  ∃ ch t ch', w.channels c = some ch ∧ w.teardown c = .ok t ∧ t.world.channels c = some ch' ∧
    t.visited.Perm (ch.owningBuffers.toList.map (·.2)) ∧
    t.deregistered.Perm (ch.owningBuffers.toList.map fun e => (w.buffers e.2).bind (·.mr)) ∧
    ch'.owningBuffers.isEmpty = true ∧
    ∀ e ∈ ch.owningBuffers.toList, ∃ buf, t.world.buffers e.2 = some buf ∧
      buf.ownedByChannel = none ∧ buf.mr = none

/-- Nodes that were erased are not visited. -/
theorem destroyLoop_of_not_mem {c : ChannelId} {ch : RDMAChannel} {t : Teardown}
    (hch : t.world.channels c = some ch) :
    ∀ (nodes : List (String × BufferId)), (∀ e ∈ nodes, e.1 ∉ ch.owningBuffers) →
      destroyLoop c nodes t = .ok t
  | [], _ => rfl
  | (name, b) :: nodes, h => by
    have hget := getChannel_eq_ok.2 hch
    have hname : name ∉ ch.owningBuffers := h _ List.mem_cons_self
    simp only [destroyLoop, hget, bind, Except.bind, hname, not_false_eq_true, if_true]
    exact destroyLoop_of_not_mem hch nodes fun e he => h e (List.mem_cons_of_mem _ he)

/-- If the loop still has a node of the map before it and ends, then the map
    is not empty in the end. -/
theorem destroyLoop_mem {c : ChannelId} :
    ∀ (nodes : List (String × BufferId)) {t t' : Teardown} {ch : RDMAChannel},
      t.world.channels c = some ch → (∃ e ∈ nodes, e.1 ∈ ch.owningBuffers) →
      destroyLoop c nodes t = .ok t' →
      ∃ ch' name, t'.world.channels c = some ch' ∧ name ∈ ch'.owningBuffers
  | [], _, _, _, _, hex, _ => by obtain ⟨e, he, -⟩ := hex; cases he
  | (name, b) :: nodes, t, t', ch, hch, hex, h => by
    obtain ⟨ch₀, hch₀, ⟨hname, h⟩ | ⟨-, buf, w, ch₁, -, -, hch₁, hin, h⟩⟩ := destroyLoop_cons_ok h
    · obtain rfl := Option.some.inj (hch.symm.trans hch₀)
      obtain ⟨e, he, hmem⟩ := hex
      rcases List.mem_cons.1 he with rfl | he
      · exact absurd hmem hname
      · exact destroyLoop_mem nodes hch ⟨e, he, hmem⟩ h
    · by_cases hrest : ∃ e ∈ nodes, e.1 ∈ ch₁.owningBuffers
      · exact destroyLoop_mem nodes hch₁ hrest h
      · -- nothing is left to visit, and the node just visited is still in the map
        have hskip := destroyLoop_of_not_mem
          (t := ⟨w, t.visited ++ [b], t.deregistered ++ [buf.mr]⟩)
          hch₁ nodes fun e he hmem => hrest ⟨e, he, hmem⟩
        rw [hskip] at h
        obtain rfl := Except.ok.inj h
        exact ⟨ch₁, name, hch₁, hin⟩

/-- **The destructor of a channel works exactly if the channel has no
    registered buffer.** -/
theorem teardownOk_iff {w : World} {c : ChannelId} {ch : RDMAChannel}
    (hch : w.channels c = some ch) : w.TeardownOk c ↔ ch.owningBuffers.isEmpty = true := by
  have hget := getChannel_eq_ok.2 hch
  have hrun : w.teardown c = destroyLoop c ch.owningBuffers.toList { world := w } := by
    simp [teardown, hget, bind, Except.bind]
  constructor
  · rintro ⟨ch₀, t, ch', hch₀, ht, hch', -, -, hempty, -⟩
    by_contra hne
    rw [Bool.not_eq_true] at hne
    obtain ⟨name, hname⟩ := Std.TreeMap.isEmpty_eq_false_iff_exists_mem.1 hne
    obtain ⟨b, hb⟩ := Option.isSome_iff_exists.1 (Std.TreeMap.mem_iff_isSome_getElem?.1 hname)
    have hnode : (name, b) ∈ ch.owningBuffers.toList :=
      Std.TreeMap.mem_toList_iff_getElem?_eq_some.2 hb
    rw [hrun] at ht
    obtain ⟨ch₁, name₁, hch₁, hmem⟩ := destroyLoop_mem _ (t := { world := w }) hch
      ⟨_, hnode, hname⟩ ht
    rw [hch'] at hch₁
    obtain rfl := Option.some.inj hch₁
    exact Std.TreeMap.not_mem_of_isEmpty hempty hmem
  · intro hempty
    have hnil : ch.owningBuffers.toList = [] := by
      rwa [← List.isEmpty_iff, Std.TreeMap.isEmpty_toList]
    refine ⟨ch, { world := w }, ch, hch, by rw [hrun, hnil]; rfl, hch, ?_, ?_, hempty, ?_⟩ <;>
      simp [hnil]

/-- A channel whose buffer was registered and deregistered again. -/
theorem teardownOk_of_deregistered :
    ∃ w, Lts.run step (init 1)
        [.allocate 0 4096 8 1 "buf", .register 0 0 7 7, .deregister 0 0] = some w ∧
      w.TeardownOk 0 := by
  refine ⟨_, rfl, (teardownOk_iff rfl).2 ?_⟩
  rfl

/-- A channel with one registered buffer: the iterator is advanced from the
    node that the loop body has erased. -/
theorem not_teardownOk_of_one_buffer :
    ∃ w, Lts.run step (init 1)
        [.allocate 0 4096 8 1 "buf", .register 0 0 7 7] = some w ∧
      w.teardown 0 = .error .undefined ∧ ¬ w.TeardownOk 0 := by
  refine ⟨_, rfl, rfl, ?_⟩
  rintro ⟨ch, t, ch', -, ht, -⟩
  cases ht

end World

end RdmaCore

/-
  Channel registry and buffer ownership.

  The registration of a buffer is recorded twice: in `owning_buffers` of the
  channel, by name, and in `owned_by_channel` and `mr_` of the buffer.  The two
  records agree (`Agree`) as long as a buffer is registered only while no
  channel owns it and deregistered only from its owner (`Disciplined`); the
  code checks neither, and the first call that breaks this rule breaks the
  agreement.
-/
import RdmaCore.Registry

namespace RdmaCore

namespace World

/-- Registry and ownership agree: `b` is registered in `c` under its name iff
    `b` is owned by `c` and has a region. -/
def Agree (w : World) : Prop :=
  ∀ c ch b buf, w.channels c = some ch → w.buffers b = some buf →
    (ch.owningBuffers[buf.bufferName]? = some b ↔ buf.ownedByChannel = some c ∧ buf.mr ≠ none)

/-- A buffer is registered only if it has no owner, and deregistered only from
    its owner. -/
def Disciplined (w : World) : Action → Prop
  | .register _ b _ _ => ∀ buf, w.buffers b = some buf → buf.ownedByChannel = none
  | .deregister b c => ∀ buf, w.buffers b = some buf → buf.ownedByChannel = some c
  | _ => True

/-- The invariant of disciplined runs. -/
structure OwnerInv (w : World) : Prop where
  /-- A registered name belongs to a live buffer that the channel owns. -/
  entry : ∀ c ch name b, w.channels c = some ch → ch.owningBuffers[name]? = some b →
    ∃ buf, w.buffers b = some buf ∧ buf.bufferName = name ∧ buf.ownedByChannel = some c
  /-- The owner of a live buffer is live and has the buffer in its registry. -/
  owner : ∀ b buf c, w.buffers b = some buf → buf.ownedByChannel = some c →
    ∃ ch, w.channels c = some ch ∧ ch.owningBuffers[buf.bufferName]? = some b
  region : ∀ b buf, w.buffers b = some buf → (buf.mr = none ↔ buf.ownedByChannel = none)

theorem OwnerInv.agree {w : World} (h : OwnerInv w) : w.Agree := by
  intro c ch b buf hch hbuf
  constructor
  · intro he
    obtain ⟨buf', hbuf', -, hown⟩ := h.entry c ch _ b hch he
    obtain rfl := Option.some.inj (hbuf.symm.trans hbuf')
    exact ⟨hown, fun hmr => by rw [(h.region b buf hbuf).1 hmr] at hown; cases hown⟩
  · rintro ⟨hown, -⟩
    obtain ⟨ch', hch', he⟩ := h.owner b buf c hbuf hown
    obtain rfl := Option.some.inj (hch.symm.trans hch')
    exact he

theorem ownerInv_init (n : ℕ) : OwnerInv (init n) where
  entry c ch name b hch he := by
    simp only [init, Option.ite_none_right_eq_some, Option.some.injEq] at hch
    rw [← hch.2] at he
    simp at he
  owner b buf c hbuf := by cases hbuf
  region b buf hbuf := by cases hbuf

/-! ## Disciplined steps keep the invariant -/

section
variable {w w' : World} {b : BufferId} {buf : RDMABuffer} {c : ChannelId} {ch : RDMAChannel}

theorem OwnerInv.allocated (h : OwnerInv w) (hb : w.buffers b = none) (ptr : ℕ) (size : UInt64)
    (k : UInt32) (name : String) : OwnerInv (w.allocated b ptr size k name) where
  entry c ch name' b' hch he := by
    obtain ⟨buf, hbuf, hrest⟩ := h.entry c ch name' b' hch he
    have hne : b' ≠ b := by rintro rfl; rw [hb] at hbuf; cases hbuf
    exact ⟨buf, update_eq_some.2 (Or.inr ⟨hne, hbuf⟩), hrest⟩
  owner b' buf' c hbuf' hown := by
    rcases update_eq_some.1 hbuf' with ⟨rfl, hx⟩ | ⟨-, hbuf'⟩
    · obtain rfl := Option.some.inj hx
      simp at hown
    · exact h.owner b' buf' c hbuf' hown
  region b' buf' hbuf' := by
    rcases update_eq_some.1 hbuf' with ⟨rfl, hx⟩ | ⟨-, hbuf'⟩
    · obtain rfl := Option.some.inj hx
      simp
    · exact h.region b' buf' hbuf'

/-- No entry refers to a buffer without an owner. -/
theorem OwnerInv.entry_ne (h : OwnerInv w) (hbuf : w.buffers b = some buf)
    (hown : buf.ownedByChannel = none) {name : String} {b' : BufferId}
    (hch : w.channels c = some ch) (he : ch.owningBuffers[name]? = some b') : b' ≠ b := by
  obtain ⟨buf', hbuf', -, hown'⟩ := h.entry c ch name b' hch he
  rintro rfl
  obtain rfl := Option.some.inj (hbuf.symm.trans hbuf')
  rw [hown] at hown'
  cases hown'

theorem OwnerInv.registered (h : OwnerInv w) (hbuf : w.buffers b = some buf)
    (hch : w.channels c = some ch) (hname : buf.bufferName ∉ ch.owningBuffers)
    (hown : buf.ownedByChannel = none) (lkey rkey : UInt32) :
    OwnerInv (w.registered c ch b buf lkey rkey) := by
  have hold : ∀ c' ch' name' b', w.channels c' = some ch' → ch'.owningBuffers[name']? = some b' →
      ∃ buf', (w.registered c ch b buf lkey rkey).buffers b' = some buf' ∧
        buf'.bufferName = name' ∧ buf'.ownedByChannel = some c' := by
    intro c' ch' name' b' hch' he
    obtain ⟨buf', hbuf', hrest⟩ := h.entry c' ch' name' b' hch' he
    exact ⟨buf', update_eq_some.2 (Or.inr ⟨h.entry_ne hbuf hown hch' he, hbuf'⟩), hrest⟩
  refine ⟨fun c' ch' name' b' hch' he => ?_, fun b' buf' c' hbuf' hown' => ?_,
    fun b' buf' hbuf' => ?_⟩
  · rcases update_eq_some.1 hch' with ⟨rfl, hx⟩ | ⟨-, hch'⟩
    · obtain rfl := Option.some.inj hx
      simp only [Std.TreeMap.getElem?_insert, Std.LawfulEqCmp.compare_eq_iff_eq] at he
      split_ifs at he with hn
      · obtain rfl := Option.some.inj he
        exact ⟨_, update_eq_some.2 (Or.inl ⟨rfl, rfl⟩), hn, rfl⟩
      · exact hold c' ch name' b' hch he
    · exact hold c' ch' name' b' hch' he
  · rcases update_eq_some.1 hbuf' with ⟨rfl, hx⟩ | ⟨hne, hbuf'⟩
    · obtain rfl := Option.some.inj hx
      obtain rfl := Option.some.inj hown'
      exact ⟨_, update_eq_some.2 (Or.inl ⟨rfl, rfl⟩), Std.TreeMap.getElem?_insert_self⟩
    · obtain ⟨ch', hch', he⟩ := h.owner b' buf' c' hbuf' hown'
      rcases eq_or_ne c' c with rfl | hc
      · obtain rfl := Option.some.inj (hch.symm.trans hch')
        refine ⟨_, update_eq_some.2 (Or.inl ⟨rfl, rfl⟩), ?_⟩
        have hn : buf.bufferName ≠ buf'.bufferName := by
          intro hn
          refine hname (Std.TreeMap.mem_iff_isSome_getElem?.2 ?_)
          rw [hn, he]; rfl
        simpa [Std.TreeMap.getElem?_insert, hn] using he
      · exact ⟨ch', update_eq_some.2 (Or.inr ⟨hc, hch'⟩), he⟩
  · rcases update_eq_some.1 hbuf' with ⟨rfl, hx⟩ | ⟨-, hbuf'⟩
    · obtain rfl := Option.some.inj hx
      simp [RDMABuffer.setRegistration]
    · exact h.region b' buf' hbuf'

theorem OwnerInv.deregistered (h : OwnerInv w) (hbuf : w.buffers b = some buf)
    (hch : w.channels c = some ch) (hown : buf.ownedByChannel = some c) (mr : MrId)
    (r : MemRegion) : OwnerInv (w.deregistered c ch b buf mr r) where
  entry c' ch' name' b' hch' he := by
    obtain ⟨ch₀, hch₀, he₀, hname⟩ : ∃ ch₀, w.channels c' = some ch₀ ∧
        ch₀.owningBuffers[name']? = some b' ∧ (c' = c → buf.bufferName ≠ name') := by
      rcases update_eq_some.1 hch' with ⟨rfl, hx⟩ | ⟨hne, hch'⟩
      · obtain rfl := Option.some.inj hx
        simp only [Std.TreeMap.getElem?_erase, Std.LawfulEqCmp.compare_eq_iff_eq] at he
        split_ifs at he with hn
        exact ⟨ch, hch, he, fun _ => hn⟩
      · exact ⟨ch', hch', he, fun hc => absurd hc hne⟩
    obtain ⟨buf', hbuf', hn', hown'⟩ := h.entry c' ch₀ name' b' hch₀ he₀
    have hne : b' ≠ b := by
      rintro rfl
      obtain rfl := Option.some.inj (hbuf.symm.trans hbuf')
      exact hname (Option.some.inj (hown'.symm.trans hown)) hn'
    exact ⟨buf', update_eq_some.2 (Or.inr ⟨hne, hbuf'⟩), hn', hown'⟩
  owner b' buf' c' hbuf' hown' := by
    rcases update_eq_some.1 hbuf' with ⟨rfl, hx⟩ | ⟨hne, hbuf'⟩
    · obtain rfl := Option.some.inj hx
      cases hown'
    · obtain ⟨ch', hch', he⟩ := h.owner b' buf' c' hbuf' hown'
      rcases eq_or_ne c' c with rfl | hc
      · obtain rfl := Option.some.inj (hch.symm.trans hch')
        refine ⟨_, update_eq_some.2 (Or.inl ⟨rfl, rfl⟩), ?_⟩
        -- `b` is the only buffer registered under its name
        have hn : buf.bufferName ≠ buf'.bufferName := by
          intro hn
          obtain ⟨ch₁, hch₁, he₁⟩ := h.owner b buf c' hbuf hown
          obtain rfl := Option.some.inj (hch.symm.trans hch₁)
          rw [hn, he] at he₁
          exact hne (Option.some.inj he₁)
        simpa [Std.TreeMap.getElem?_erase, hn] using he
      · exact ⟨ch', update_eq_some.2 (Or.inr ⟨hc, hch'⟩), he⟩
  region b' buf' hbuf' := by
    rcases update_eq_some.1 hbuf' with ⟨rfl, hx⟩ | ⟨-, hbuf'⟩
    · obtain rfl := Option.some.inj hx
      simp
    · exact h.region b' buf' hbuf'

theorem OwnerInv.freed (h : OwnerInv w) (hbuf : w.buffers b = some buf)
    (hown : buf.ownedByChannel = none) (buf₀ : RDMABuffer) : OwnerInv (w.freed b buf₀) := by
  have hlive : ∀ b' buf', (w.freed b buf₀).buffers b' = some buf' → w.buffers b' = some buf' := by
    intro b' buf' hbuf'
    rcases update_eq_some.1 hbuf' with ⟨-, hx⟩ | ⟨-, hbuf'⟩
    · cases hx
    · exact hbuf'
  refine ⟨fun c ch name b' hch he => ?_, fun b' buf' c hbuf' => h.owner b' buf' c (hlive _ _ hbuf'),
    fun b' buf' hbuf' => h.region b' buf' (hlive _ _ hbuf')⟩
  obtain ⟨buf', hbuf', hrest⟩ := h.entry c ch name b' hch he
  exact ⟨buf', update_eq_some.2 (Or.inr ⟨h.entry_ne hbuf hown hch he, hbuf'⟩), hrest⟩

/-- The loop of the destructor cannot get past a node of its own buffer. -/
theorem destroyLoop_eq_nil {nodes : List (String × BufferId)} {t : Teardown} (h : OwnerInv w)
    (hch : w.channels c = some ch) (hnodes : ∀ e ∈ nodes, ch.owningBuffers[e.1]? = some e.2)
    (ht : destroyLoop c nodes { world := w } = .ok t) : nodes = [] := by
  cases nodes with
  | nil => rfl
  | cons e nodes =>
    exfalso
    obtain ⟨name, b⟩ := e
    have he := hnodes _ List.mem_cons_self
    have hmem : name ∈ ch.owningBuffers := by
      rw [Std.TreeMap.mem_iff_isSome_getElem?, he]; rfl
    obtain ⟨ch', hch', ⟨hn, -⟩ | ⟨-, buf, w₁, ch₁, hbuf, hw₁, hch₁, hin, -⟩⟩ :=
      destroyLoop_cons_ok ht
    · obtain rfl := Option.some.inj (hch.symm.trans hch')
      exact hn hmem
    obtain ⟨buf', ch', mr, r, hbuf', hch', -, -, -, rfl⟩ := deregisterFromChannel_ok hw₁
    obtain rfl := Option.some.inj (hbuf.symm.trans hbuf')
    obtain rfl := Option.some.inj (hch.symm.trans hch')
    obtain ⟨buf', hbuf', hname, -⟩ := h.entry c ch name b hch he
    obtain rfl := Option.some.inj (hbuf.symm.trans hbuf')
    rcases update_eq_some.1 hch₁ with ⟨-, hx⟩ | ⟨hne, -⟩
    · obtain rfl := Option.some.inj hx
      rw [← hname] at hin
      simp [Std.TreeMap.mem_erase] at hin
    · exact hne rfl

theorem OwnerInv.destroyChannel (h : OwnerInv w) (hch : w.channels c = some ch)
    (hempty : ch.owningBuffers.toList = []) :
    OwnerInv { w with channels := Function.update w.channels c none } where
  entry c' ch' name b hch' he := by
    rcases update_eq_some.1 hch' with ⟨-, hx⟩ | ⟨-, hch'⟩
    · cases hx
    · exact h.entry c' ch' name b hch' he
  owner b buf c' hbuf hown := by
    obtain ⟨ch', hch', he⟩ := h.owner b buf c' hbuf hown
    have hne : c' ≠ c := by
      rintro rfl
      obtain rfl := Option.some.inj (hch.symm.trans hch')
      have := Std.TreeMap.mem_toList_iff_getElem?_eq_some.2 he
      rw [hempty] at this; cases this
    exact ⟨ch', update_eq_some.2 (Or.inr ⟨hne, hch'⟩), he⟩
  region := h.region

/-- **A disciplined step keeps the invariant.** -/
theorem OwnerInv.step {a : Action} (h : OwnerInv w) (hs : w.step a = some w')
    (hd : w.Disciplined a) : OwnerInv w' := by
  rcases step_cases hs with ⟨b, ptr, size, k, name, rfl, hb, rfl⟩ |
    ⟨c, b, lkey, rkey, buf, ch, rfl, -, hbuf, hch, hname, rfl⟩ | ⟨b, c, rfl, hw'⟩ |
    ⟨b, buf, w₁, rfl, hbuf, hw₁, rfl⟩ | ⟨c, ch, t, rfl, hch, ht, rfl⟩
  · exact h.allocated hb ptr size k name
  · exact h.registered hbuf hch hname (hd buf hbuf) lkey rkey
  · obtain ⟨buf, ch, mr, r, hbuf, hch, -, -, -, rfl⟩ := deregisterFromChannel_ok hw'
    exact h.deregistered hbuf hch (hd buf hbuf) mr r
  · cases hown : buf.ownedByChannel with
    | none =>
      rw [hown] at hw₁
      obtain rfl := Except.ok.inj hw₁
      exact h.freed hbuf hown buf
    | some c =>
      rw [hown] at hw₁
      obtain ⟨buf', ch, mr, r, hbuf', hch, -, -, -, rfl⟩ := deregisterFromChannel_ok hw₁
      obtain rfl := Option.some.inj (hbuf.symm.trans hbuf')
      exact (h.deregistered hbuf hch hown mr r).freed (update_eq_some.2 (Or.inl ⟨rfl, rfl⟩)) rfl buf
  · have hnil := destroyLoop_eq_nil h hch
      (fun e he => Std.TreeMap.mem_toList_iff_getElem?_eq_some.1 he) ht
    rw [hnil] at ht
    obtain rfl := Except.ok.inj ht
    exact h.destroyChannel hch hnil

/-- **An undisciplined step breaks the agreement**: the old owner keeps its
    entry for the buffer. -/
theorem OwnerInv.disciplined_of_agree {a : Action} (h : OwnerInv w) (hs : w.step a = some w')
    (hag : w'.Agree) : w.Disciplined a := by
  rcases step_cases hs with ⟨b, ptr, size, k, name, rfl, hb, rfl⟩ |
    ⟨c, b, lkey, rkey, buf, ch, rfl, -, hbuf, hch, hname, rfl⟩ | ⟨b, c, rfl, hw'⟩ |
    ⟨b, buf, w₁, rfl, -, -, rfl⟩ | ⟨c, ch, t, rfl, -, -, rfl⟩
  · trivial
  · intro buf' hbuf'
    obtain rfl := Option.some.inj (hbuf.symm.trans hbuf')
    by_contra hown
    obtain ⟨c₀, hc₀⟩ := Option.ne_none_iff_exists'.1 hown
    obtain ⟨ch₀, hch₀, he⟩ := h.owner b buf c₀ hbuf hc₀
    have hne : c₀ ≠ c := by
      rintro rfl
      obtain rfl := Option.some.inj (hch.symm.trans hch₀)
      refine hname (Std.TreeMap.mem_iff_isSome_getElem?.2 ?_)
      rw [he]; rfl
    have := (hag c₀ ch₀ b _ (update_eq_some.2 (Or.inr ⟨hne, hch₀⟩))
      (update_eq_some.2 (Or.inl ⟨rfl, rfl⟩))).1 he
    exact hne (Option.some.inj this.1).symm
  · obtain ⟨buf, ch, mr, r, hbuf, hch, hmr, -, -, rfl⟩ := deregisterFromChannel_ok hw'
    intro buf' hbuf'
    obtain rfl := Option.some.inj (hbuf.symm.trans hbuf')
    by_contra hown
    have hown₀ : buf.ownedByChannel ≠ none := by
      intro hn; rw [(h.region b buf hbuf).2 hn] at hmr; cases hmr
    obtain ⟨c₀, hc₀⟩ := Option.ne_none_iff_exists'.1 hown₀
    obtain ⟨ch₀, hch₀, he⟩ := h.owner b buf c₀ hbuf hc₀
    have hne : c₀ ≠ c := by rintro rfl; exact hown hc₀
    have := (hag c₀ ch₀ b _ (update_eq_some.2 (Or.inr ⟨hne, hch₀⟩))
      (update_eq_some.2 (Or.inl ⟨rfl, rfl⟩))).1 he
    cases this.1
  · trivial
  · trivial

end

/-- **Registry and ownership agree in all states of a run iff the run is
    disciplined.** -/
theorem agree_iff_disciplined (n : ℕ) (as : List Action) {w : World}
    (h : Lts.run step (init n) as = some w) :
    Lts.Always step Agree (init n) as ↔ Lts.Along step Disciplined (init n) as :=
  Lts.always_iff_along (fun _ => OwnerInv.agree) (fun _ _ _ => OwnerInv.step)
    (fun _ _ _ => OwnerInv.disciplined_of_agree) as (ownerInv_init n) h

/-- A disciplined run: a buffer moves from one channel to another. -/
theorem agree_move : ∃ w, Lts.run step (init 2)
      [.allocate 0 4096 8 2 "buf", .register 0 0 7 7, .deregister 0 0, .register 1 0 8 8] = some w ∧
    Lts.Always step Agree (init 2)
      [.allocate 0 4096 8 2 "buf", .register 0 0 7 7, .deregister 0 0, .register 1 0 8 8] := by
  refine ⟨_, rfl, (agree_iff_disciplined 2 _ rfl).2 ?_⟩
  refine ⟨trivial, fun _ h => ?_⟩; cases h
  refine ⟨fun _ h => by cases h; rfl, fun _ h => ?_⟩; cases h
  refine ⟨fun _ h => by cases h; rfl, fun _ h => ?_⟩; cases h
  exact ⟨fun _ h => by cases h; rfl, fun _ _ => trivial⟩

/-- A buffer registered in two channels. -/
theorem not_agree_two_channels : ∃ w, Lts.run step (init 2)
      [.allocate 0 4096 8 1 "buf", .register 0 0 7 7, .register 1 0 8 8] = some w ∧ ¬ w.Agree := by
  refine ⟨_, rfl, fun h => ?_⟩
  have := (h 0 _ 0 _ rfl rfl).1 rfl
  cases this.1

end World

end RdmaCore

/-
  Posted work requests and the memory they refer to.

  `security_check` only asks for some owner of the buffer, and deregistration
  does not reset the blocks of a buffer.  A request therefore lies in memory
  registered by the posting channel exactly if this channel owns the base
  buffer and the object lies inside the base buffer (`covered_iff`); the state
  invariant behind it is `RegionInv`.
-/
import RdmaCore.Registry
import Mathlib.Order.Interval.Set.Basic

namespace RdmaCore

namespace World

/-- The bytes from `addr` on lie in a region with the key `lkey` that is
    registered through the protection domain of `ch`. -/
def Covered (w : World) (ch : RDMAChannel) (addr len : ℕ) (lkey : UInt32) : Prop :=
  ∃ r ∈ w.mrs, r.registered = true ∧ r.pd = ch.pd ∧ r.lkey = lkey ∧
    Set.Ico addr (addr + len) ⊆ Set.Ico r.addr (r.addr + r.length)

/-- A region that is not registered any more. -/
def Stale (w : World) (mr : MrId) : Prop :=
  ∃ r, w.mrs[mr]? = some r ∧ r.registered = false

/-- The region of a registered base buffer. -/
def Registers (w : World) (mr : MrId) (c : ChannelId) (buf : RDMABuffer) : Prop :=
  ∃ r, w.mrs[mr]? = some r ∧ r.registered = true ∧ r.pd = c + 1 ∧ r.addr = buf.dataPtr ∧
    r.length = buf.bufferSize

/-- The regions of one base buffer and its blocks. -/
structure BufferInv (w : World) (buf : RDMABuffer) : Prop where
  unowned : buf.ownedByChannel = none → buf.mr = none
  region : ∀ c, buf.ownedByChannel = some c → ∃ mr, buf.mr = some mr ∧ w.Registers mr c buf
  /-- The blocks of a registered buffer share its registration. -/
  block : ∀ o ∈ buf.bufferMgr, buf.ownedByChannel ≠ none → o.mr = buf.mr
  /-- The blocks of an unregistered buffer may still refer to a stale region. -/
  staleBlock : ∀ o ∈ buf.bufferMgr, buf.ownedByChannel = none →
    ∀ mr, o.mr = some mr → w.Stale mr

/-- The invariant of all runs. -/
structure RegionInv (w : World) : Prop where
  pd : ∀ c ch, w.channels c = some ch → ch.pd = c + 1
  buffer : ∀ b buf, w.buffers b = some buf → w.BufferInv buf
  /-- A region belongs to one base buffer. -/
  unique : ∀ b b' buf buf' mr, w.buffers b = some buf → w.buffers b' = some buf' →
    buf.mr = some mr → buf'.mr = some mr → b = b'
  /-- Keys are not given twice. -/
  keys : (w.mrs.map (·.lkey)).Nodup

theorem regionInv_init (n : ℕ) : RegionInv (init n) where
  pd c ch hch := by
    simp only [init, Option.ite_none_right_eq_some, Option.some.injEq] at hch
    rw [← hch.2]
  buffer b buf hbuf := by cases hbuf
  unique b b' buf buf' mr hbuf := by cases hbuf
  keys := List.nodup_nil

theorem BufferInv.owned {w : World} {buf : RDMABuffer} {mr : MrId} (h : w.BufferInv buf)
    (hmr : buf.mr = some mr) : ∃ c, buf.ownedByChannel = some c ∧ w.Registers mr c buf := by
  cases hown : buf.ownedByChannel with
  | none => rw [h.unowned hown] at hmr; cases hmr
  | some c =>
    obtain ⟨mr', hmr', hreg⟩ := h.region c hown
    obtain rfl := Option.some.inj (hmr.symm.trans hmr')
    exact ⟨c, rfl, hreg⟩

/-! ## Frame rules -/

/-- `BufferInv` depends on the regions only, and only on that of the buffer
    being kept and the stale ones staying stale. -/
theorem BufferInv.frame {w w' : World} {buf : RDMABuffer} (h : w.BufferInv buf)
    (hreg : ∀ mr c, buf.mr = some mr → w.Registers mr c buf → w'.Registers mr c buf)
    (hstale : ∀ mr, w.Stale mr → w'.Stale mr) : w'.BufferInv buf where
  unowned := h.unowned
  region c hown := by
    obtain ⟨mr, hmr, hr⟩ := h.region c hown
    exact ⟨mr, hmr, hreg mr c hmr hr⟩
  block := h.block
  staleBlock o ho hown mr hmr := hstale mr (h.staleBlock o ho hown mr hmr)

section
variable {w w' : World} {b : BufferId} {buf : RDMABuffer} {c : ChannelId} {ch : RDMAChannel}

theorem RegionInv.allocated (h : RegionInv w) (b : BufferId) (ptr : ℕ) (size : UInt64)
    (k : UInt32) (name : String) : RegionInv (w.allocated b ptr size k name) where
  pd := h.pd
  buffer b' buf' hbuf' := by
    rcases update_eq_some.1 hbuf' with ⟨-, hx⟩ | ⟨-, hbuf'⟩
    · obtain rfl := Option.some.inj hx
      refine ⟨by simp, by simp, by simp, fun o ho _ mr hmr => ?_⟩
      rw [(RDMABuffer.mem_construct ptr size k name ho).2.1] at hmr; cases hmr
    · exact (h.buffer b' buf' hbuf').frame (fun _ _ _ hr => hr) (fun _ hr => hr)
  unique b₁ b₂ buf₁ buf₂ mr h₁ h₂ hm₁ hm₂ := by
    rcases update_eq_some.1 h₁ with ⟨-, hx⟩ | ⟨-, h₁⟩
    · obtain rfl := Option.some.inj hx
      simp at hm₁
    · rcases update_eq_some.1 h₂ with ⟨-, hx⟩ | ⟨-, h₂⟩
      · obtain rfl := Option.some.inj hx
        simp at hm₂
      · exact h.unique b₁ b₂ buf₁ buf₂ mr h₁ h₂ hm₁ hm₂
  keys := h.keys

theorem RegionInv.lt_length (h : RegionInv w) (hbuf : w.buffers b = some buf) {mr : MrId}
    (hmr : buf.mr = some mr) : mr < w.mrs.length := by
  obtain ⟨c, -, r, hr, -⟩ := (h.buffer b buf hbuf).owned hmr
  exact (List.getElem?_eq_some_iff.1 hr).1

theorem RegionInv.registered (h : RegionInv w) (hbuf : w.buffers b = some buf)
    (hch : w.channels c = some ch) {lkey : UInt32} (hkey : lkey ∉ w.mrs.map (·.lkey))
    (rkey : UInt32) : RegionInv (w.registered c ch b buf lkey rkey) := by
  have hold : ∀ (mr : MrId) (r : MemRegion), w.mrs[mr]? = some r →
      (w.registered c ch b buf lkey rkey).mrs[mr]? = some r := fun mr r hr => by
    have hlt := (List.getElem?_eq_some_iff.1 hr).1
    simpa [World.registered, List.getElem?_append_left hlt] using hr
  refine ⟨fun c' ch' hch' => ?_, fun b' buf' hbuf' => ?_,
    fun b₁ b₂ buf₁ buf₂ mr h₁ h₂ hm₁ hm₂ => ?_, ?_⟩
  · rcases update_eq_some.1 hch' with ⟨rfl, hx⟩ | ⟨-, hch'⟩
    · obtain rfl := Option.some.inj hx
      exact h.pd c' ch hch
    · exact h.pd c' ch' hch'
  · rcases update_eq_some.1 hbuf' with ⟨rfl, hx⟩ | ⟨-, hbuf'⟩
    · obtain rfl := Option.some.inj hx
      refine ⟨by simp [RDMABuffer.setRegistration], fun c' hc' => ?_, fun o ho _ => ?_,
        by simp [RDMABuffer.setRegistration]⟩
      · obtain rfl := Option.some.inj hc'
        exact ⟨_, rfl, regionOf ch buf lkey rkey, by simp [World.registered], rfl, h.pd c ch hch,
          rfl, rfl⟩
      · obtain ⟨o', -, rfl⟩ := List.mem_map.1 ho
        rfl
    · refine (h.buffer b' buf' hbuf').frame (fun mr c' _ ⟨r, hr, hrest⟩ => ?_)
        (fun mr ⟨r, hr, hrest⟩ => ?_)
      · exact ⟨r, hold mr r hr, hrest⟩
      · exact ⟨r, hold mr r hr, hrest⟩
  · -- the new region is no buffer's old one
    have hnew : ∀ b' buf', w.buffers b' = some buf' → buf'.mr ≠ some w.mrs.length :=
      fun b' buf' hb' hm => (h.lt_length hb' hm).false
    rcases update_eq_some.1 h₁ with ⟨rfl, hx⟩ | ⟨-, hb₁⟩
    · obtain rfl := Option.some.inj hx
      obtain rfl := Option.some.inj hm₁
      rcases update_eq_some.1 h₂ with ⟨rfl, -⟩ | ⟨-, h₂⟩
      · rfl
      · exact absurd hm₂ (hnew b₂ buf₂ h₂)
    · rcases update_eq_some.1 h₂ with ⟨rfl, hx⟩ | ⟨-, h₂⟩
      · obtain rfl := Option.some.inj hx
        obtain rfl := Option.some.inj hm₂
        exact absurd hm₁ (hnew b₁ buf₁ hb₁)
      · exact h.unique b₁ b₂ buf₁ buf₂ mr hb₁ h₂ hm₁ hm₂
  · simp only [World.registered, List.map_append, List.map_cons, List.map_nil]
    exact List.nodup_append.2 ⟨h.keys, List.nodup_singleton _, fun x hx y hy => by
      rw [List.mem_singleton.1 hy]; rintro rfl; exact hkey hx⟩

theorem RegionInv.deregistered (h : RegionInv w) (hbuf : w.buffers b = some buf)
    (hch : w.channels c = some ch) {mr : MrId} {r : MemRegion} (hmr : buf.mr = some mr)
    (hr : w.mrs[mr]? = some r) : RegionInv (w.deregistered c ch b buf mr r) := by
  have hlt := (List.getElem?_eq_some_iff.1 hr).1
  have hself : (w.deregistered c ch b buf mr r).Stale mr :=
    ⟨{ r with registered := false }, by simp [World.deregistered, hlt], rfl⟩
  have hother : ∀ mr', mr' ≠ mr → (w.deregistered c ch b buf mr r).mrs[mr']? = w.mrs[mr']? :=
    fun mr' hne => List.getElem?_set_ne hne.symm
  refine ⟨fun c' ch' hch' => ?_, fun b' buf' hbuf' => ?_,
    fun b₁ b₂ buf₁ buf₂ m h₁ h₂ hm₁ hm₂ => ?_, ?_⟩
  · rcases update_eq_some.1 hch' with ⟨rfl, hx⟩ | ⟨-, hch'⟩
    · obtain rfl := Option.some.inj hx
      exact h.pd c' ch hch
    · exact h.pd c' ch' hch'
  · rcases update_eq_some.1 hbuf' with ⟨rfl, hx⟩ | ⟨hne, hbuf'⟩
    · obtain rfl := Option.some.inj hx
      obtain ⟨c₀, hc₀, -⟩ := (h.buffer b' buf hbuf).owned hmr
      refine ⟨fun _ => rfl, fun _ hc => absurd hc (Option.some_ne_none _).symm,
        fun o ho hn => absurd rfl hn, fun o ho _ m hm => ?_⟩
      -- the blocks still refer to the region just deregistered
      have := (h.buffer b' buf hbuf).block o ho (by rw [hc₀]; exact Option.some_ne_none _)
      rw [this, hmr] at hm
      obtain rfl := Option.some.inj hm
      exact hself
    · refine (h.buffer b' buf' hbuf').frame (fun m c' hm ⟨r', hr', hrest⟩ => ?_)
        (fun m ⟨r', hr', hrest⟩ => ?_)
      · have hm' : m ≠ mr := fun he =>
          hne (h.unique b' b buf' buf m hbuf' hbuf hm (hmr.trans (congrArg _ he.symm)))
        exact ⟨r', (hother m hm').trans hr', hrest⟩
      · rcases eq_or_ne m mr with rfl | hm'
        · exact hself
        · exact ⟨r', (hother m hm').trans hr', hrest⟩
  · rcases update_eq_some.1 h₁ with ⟨-, hx⟩ | ⟨-, h₁⟩
    · obtain rfl := Option.some.inj hx
      cases hm₁
    · rcases update_eq_some.1 h₂ with ⟨-, hx⟩ | ⟨-, h₂⟩
      · obtain rfl := Option.some.inj hx
        cases hm₂
      · exact h.unique b₁ b₂ buf₁ buf₂ m h₁ h₂ hm₁ hm₂
  · have hkeys : (w.deregistered c ch b buf mr r).mrs.map (·.lkey) = w.mrs.map (·.lkey) := by
      rw [World.deregistered, List.map_set]
      obtain ⟨_, rfl⟩ := List.getElem?_eq_some_iff.1 hr
      rw [← List.getElem_map (h := by simpa using hlt) (f := fun r : MemRegion => r.lkey)]
      exact List.set_getElem_self _
    rw [hkeys]; exact h.keys

theorem RegionInv.freed (h : RegionInv w) (b : BufferId) (buf : RDMABuffer) :
    RegionInv (w.freed b buf) := by
  have hlive : ∀ b' buf', (w.freed b buf).buffers b' = some buf' → w.buffers b' = some buf' := by
    intro b' buf' hbuf'
    rcases update_eq_some.1 hbuf' with ⟨-, hx⟩ | ⟨-, hbuf'⟩
    · cases hx
    · exact hbuf'
  exact ⟨h.pd, fun b' buf' hb' => (h.buffer b' buf' (hlive _ _ hb')).frame (fun _ _ _ hr => hr)
      (fun _ hr => hr),
    fun b₁ b₂ buf₁ buf₂ m h₁ h₂ => h.unique b₁ b₂ buf₁ buf₂ m (hlive _ _ h₁) (hlive _ _ h₂), h.keys⟩

theorem RegionInv.deregister {oc : Option ChannelId} (h : RegionInv w)
    (hw' : w.deregisterFromChannel b oc = .ok w') : RegionInv w' := by
  cases oc with
  | none => exact Except.ok.inj hw' ▸ h
  | some c =>
    obtain ⟨buf, ch, mr, r, hbuf, hch, hmr, hr, -, rfl⟩ := deregisterFromChannel_ok hw'
    exact h.deregistered hbuf hch hmr hr

theorem RegionInv.destroyLoop {c : ChannelId} :
    ∀ (nodes : List (String × BufferId)) {t t' : Teardown}, RegionInv t.world →
      World.destroyLoop c nodes t = .ok t' → RegionInv t'.world
  | [], t, t', h, ht => Except.ok.inj ht ▸ h
  | (name, b) :: nodes, t, t', h, ht => by
    obtain ⟨-, -, ⟨-, ht⟩ | ⟨-, buf, w, -, -, hw, -, -, ht⟩⟩ := destroyLoop_cons_ok ht
    · exact destroyLoop nodes h ht
    · exact destroyLoop nodes (t := ⟨w, t.visited ++ [b], t.deregistered ++ [buf.mr]⟩)
        (h.deregister hw) ht

/-- **Every call keeps the invariant.** -/
theorem RegionInv.step {a : Action} (h : RegionInv w) (hs : w.step a = some w') :
    RegionInv w' := by
  rcases step_cases hs with ⟨b, ptr, size, k, name, rfl, -, rfl⟩ |
    ⟨c, b, lkey, rkey, buf, ch, rfl, hkey, hbuf, hch, -, rfl⟩ | ⟨b, c, rfl, hw'⟩ |
    ⟨b, buf, w₁, rfl, -, hw₁, rfl⟩ | ⟨c, ch, t, rfl, -, ht, rfl⟩
  · exact h.allocated b ptr size k name
  · exact h.registered hbuf hch hkey rkey
  · exact h.deregister hw'
  · exact (h.deregister hw₁).freed b buf
  · have ht' := RegionInv.destroyLoop _ (t := { world := w }) h ht
    refine ⟨fun c' ch' hch' => ?_, fun b buf hbuf => (ht'.buffer b buf hbuf).frame
      (fun _ _ _ hr => hr) (fun _ hr => hr), ht'.unique, ht'.keys⟩
    rcases update_eq_some.1 hch' with ⟨-, hx⟩ | ⟨-, hch'⟩
    · cases hx
    · exact ht'.pd c' ch' hch'

theorem regionInv_reachable {n : ℕ} (h : Lts.Reachable World.step (init n) w) : RegionInv w :=
  h.induct (regionInv_init n) fun _ _ _ => RegionInv.step

end

/-! ## Posting -/

/-- The request a posting call makes. -/
theorem post_ok {w : World} {o : BufferObj} {len : UInt32} {call : PostCall} {wr : WorkRequest}
    (h : w.post o len call = .ok wr) :
    o.ownedByChannel ≠ none ∧ wr.addr = o.dataPtr ∧ wr.length = len.toNat ∧
      ∃ mr r, o.mr = some mr ∧ w.mrs[mr]? = some r ∧ wr.lkey = r.lkey := by
  have hpost {limit : ℕ} {op : Opcode} {imm : Option UInt32} {remote : Option (UInt64 × UInt32)}
      (h : w.postOn o len limit op imm remote = .ok wr) :
      o.ownedByChannel ≠ none ∧ wr.addr = o.dataPtr ∧ wr.length = len.toNat ∧
        ∃ mr r, o.mr = some mr ∧ w.mrs[mr]? = some r ∧ wr.lkey = r.lkey := by
    simp only [postOn, securityCheck, Except.bind_eq_ok, check_eq_ok, Except.pure_eq_ok] at h
    obtain ⟨-, ⟨-, -, -, -, hown⟩, -, -, lkey, hkey, rfl⟩ := h
    unfold loadLkey at hkey
    split at hkey
    · next r hr =>
      obtain ⟨mr, hmr, hr⟩ := Option.bind_eq_some_iff.1 hr
      exact ⟨hown, rfl, rfl, mr, r, hmr, hr, (Except.ok.inj hkey).symm⟩
    · cases hkey
  cases call with
  | send tag => exact hpost h
  | recv => exact hpost h
  | read d => exact hpost h
  | write d tag notify => cases notify <;> exact hpost h

/-- An object of a buffer has the region of its base, or is a block that was
    left with a stale one. -/
theorem BufferInv.object_mr {w : World} {buf : RDMABuffer} (h : w.BufferInv buf) {hd : Handle}
    {o : BufferObj} (ho : buf.object hd = some o) :
    o.mr = buf.mr ∨ (buf.ownedByChannel = none ∧ ∀ mr, o.mr = some mr → w.Stale mr) := by
  cases hd with
  | base => exact Or.inl (Option.some.inj ho ▸ rfl)
  | block i =>
    have hmem : o ∈ buf.bufferMgr := List.mem_of_getElem? ho
    by_cases hown : buf.ownedByChannel = none
    · exact Or.inr ⟨hown, h.staleBlock o hmem hown⟩
    · exact Or.inl (h.block o hmem hown)

/-- A key determines its region. -/
theorem RegionInv.eq_of_lkey {w : World} (h : RegionInv w) {r r' : MemRegion} (hr : r ∈ w.mrs)
    (hr' : r' ∈ w.mrs) (hk : r.lkey = r'.lkey) : r = r' :=
  List.inj_on_of_nodup_map h.keys hr hr' hk

/-- **A posted request is covered by a registration of the posting channel iff
    the channel owns the base buffer and the request lies inside it.** -/
theorem covered_iff {n : ℕ} {w : World} (hw : Lts.Reachable step (init n) w) {c : ChannelId}
    {ch : RDMAChannel} (hch : w.channels c = some ch) {b : BufferId} {buf : RDMABuffer}
    (hbuf : w.buffers b = some buf) {hd : Handle} {o : BufferObj} (ho : buf.object hd = some o)
    {len : UInt32} {call : PostCall} {wr : WorkRequest} (hpost : w.post o len call = .ok wr) :
    w.Covered ch o.dataPtr len.toNat wr.lkey ↔
      buf.ownedByChannel = some c ∧ Set.Ico o.dataPtr (o.dataPtr + len.toNat) ⊆
        Set.Ico buf.dataPtr (buf.dataPtr + buf.bufferSize) := by
  have hinv := regionInv_reachable hw
  have hb := hinv.buffer b buf hbuf
  obtain ⟨-, -, -, mr, r, hmr, hr, hkey⟩ := post_ok hpost
  have hmem : r ∈ w.mrs := List.mem_of_getElem? hr
  constructor
  · rintro ⟨r', hr', hlive, hpd, hkey', hsub⟩
    obtain rfl : r' = r := hinv.eq_of_lkey hr' hmem (hkey'.trans hkey)
    rcases hb.object_mr ho with hsame | ⟨-, hstale⟩
    · obtain ⟨c₀, hc₀, r₀, hr₀, -, hpd₀, haddr, hlen⟩ := hb.owned (hsame.symm.trans hmr)
      obtain rfl := Option.some.inj (hr.symm.trans hr₀)
      rw [hpd₀, hinv.pd c ch hch] at hpd
      obtain rfl : c₀ = c := Nat.succ.inj hpd
      rw [← haddr, ← hlen]
      exact ⟨hc₀, hsub⟩
    · obtain ⟨r₀, hr₀, hdead⟩ := hstale mr hmr
      obtain rfl := Option.some.inj (hr.symm.trans hr₀)
      rw [hlive] at hdead; cases hdead
  · rintro ⟨hown, hsub⟩
    obtain ⟨m, hm, r₀, hr₀, hlive, hpd, haddr, hlen⟩ := hb.region c hown
    rcases hb.object_mr ho with hsame | ⟨hnone, -⟩
    · obtain rfl := Option.some.inj (hmr.symm.trans (hsame.trans hm))
      obtain rfl := Option.some.inj (hr.symm.trans hr₀)
      exact ⟨r, hmem, hlive, by rw [hpd, hinv.pd c ch hch], hkey.symm,
        by rw [haddr, hlen]; exact hsub⟩
    · rw [hown] at hnone; cases hnone

/-- A block of a registered buffer. -/
theorem covered_block : ∃ w ch buf o wr, Lts.run step (init 1)
      [.allocate 0 4096 8 2 "buf", .register 0 0 7 9] = some w ∧ w.channels 0 = some ch ∧
    w.buffers 0 = some buf ∧ buf.object (.block 1) = some o ∧ w.post o 8 (.send 0) = .ok wr ∧
    w.Covered ch o.dataPtr 8 wr.lkey := by
  refine ⟨_, _, _, _, _, rfl, rfl, rfl, rfl, rfl, ?_⟩
  have hw : Lts.Reachable step (init 1) _ :=
    ⟨[.allocate 0 4096 8 2 "buf", .register 0 0 7 9], rfl⟩
  refine (@covered_iff 1 _ hw 0 _ rfl 0 _ rfl (.block 1) _ rfl 8 (.send 0) _ rfl).2 ⟨rfl, ?_⟩
  exact Set.Ico_subset_Ico (by decide) (by decide)

/-- A block of a buffer that has been deregistered: the call passes its checks
    and posts the key of a region that is gone. -/
theorem not_covered_stale_block : ∃ w ch buf o wr, Lts.run step (init 1)
      [.allocate 0 4096 8 2 "buf", .register 0 0 7 9, .deregister 0 0] = some w ∧
    w.channels 0 = some ch ∧ w.buffers 0 = some buf ∧ buf.object (.block 1) = some o ∧
    w.post o 8 (.send 0) = .ok wr ∧ ¬ w.Covered ch o.dataPtr 8 wr.lkey := by
  refine ⟨_, _, _, _, _, rfl, rfl, rfl, rfl, rfl, ?_⟩
  rintro ⟨r, hr, hlive, -⟩
  obtain rfl := List.mem_singleton.1 hr
  cases hlive

end World

end RdmaCore

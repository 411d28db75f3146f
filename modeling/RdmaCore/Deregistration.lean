/-
  Regions that are passed to `deregister_mem`.

  The ledger of a run lists the regions that its calls have passed to
  `deregister_mem`, through `RDMABuffer::deregister_from_channel` or the
  destructor of a base buffer.  What a call passes (`passed`) depends on the
  `CHECK`s of these functions only, not on the state of the region.

  * `LedgerInv`: the regions of the ledger are those that are gone, so they are
    none of the regions that buffers hold (`RegionInv`).
-/
import RdmaCore.Posting

namespace RdmaCore

namespace World

/-- The region that `deregister_from_channel` of a buffer passes on. -/
def passedBy (w : World) (b : BufferId) : List MrId :=
  match w.buffers b with
  | some buf => if buf.isSubBuffer then [] else buf.mr.toList
  | none => []

/-- The regions that a call passes to `deregister_mem`. -/
def passed (w : World) : Action → List MrId
  | .deregister b _ => w.passedBy b
  | .destroyBuffer b =>
    if (w.buffers b).any (·.ownedByChannel.isSome) then w.passedBy b else []
  | _ => []

end World

/-- A world, and the regions that were passed to `deregister_mem`, in order. -/
structure Ledger where
  world : World
  calls : List MrId := []

namespace Ledger

def init (n : ℕ) : Ledger where
  world := World.init n

/-- A call on buffers; channels are not destroyed. -/
def step (l : Ledger) : World.Action → Option Ledger
  | .destroyChannel _ => none
  | a => (l.world.step a).map fun w => ⟨w, l.calls ++ l.world.passed a⟩

/-- The regions of the ledger are gone. -/
structure LedgerInv (l : Ledger) : Prop where
  region : World.RegionInv l.world
  stale : ∀ mr ∈ l.calls, l.world.Stale mr
  nodup : l.calls.Nodup

theorem ledgerInv_init (n : ℕ) : LedgerInv (init n) where
  region := World.regionInv_init n
  stale mr h := by cases h
  nodup := List.nodup_nil

section
variable {l l' : Ledger} {w : World} {b : BufferId} {buf : RDMABuffer}

/-- The region that a buffer holds is registered, and not in the ledger. -/
theorem LedgerInv.held (h : LedgerInv l) (hbuf : l.world.buffers b = some buf) {mr : MrId}
    (hmr : buf.mr = some mr) :
    mr ∉ l.calls ∧ ∃ r, l.world.mrs[mr]? = some r ∧ r.registered = true := by
  obtain ⟨c, -, r, hr, hreg, -⟩ := (h.region.buffer b buf hbuf).owned hmr
  refine ⟨fun hmem => ?_, r, hr, hreg⟩
  obtain ⟨r', hr', hdead⟩ := h.stale mr hmem
  obtain rfl := Option.some.inj (hr.symm.trans hr')
  rw [hreg] at hdead
  cases hdead

theorem mem_passedBy {mr : MrId} (h : mr ∈ w.passedBy b) :
    ∃ buf, w.buffers b = some buf ∧ buf.mr = some mr := by
  simp only [World.passedBy] at h
  split at h
  · next buf hbuf =>
    split at h
    · cases h
    · exact ⟨buf, hbuf, Option.mem_toList.1 h⟩
  · cases h

theorem mem_passed {a : World.Action} {mr : MrId} (h : mr ∈ w.passed a) :
    ∃ b buf, w.buffers b = some buf ∧ buf.mr = some mr := by
  cases a with
  | deregister b c => exact ⟨b, mem_passedBy h⟩
  | destroyBuffer b =>
    simp only [World.passed] at h
    split at h
    · exact ⟨b, mem_passedBy h⟩
    · cases h
  | allocate | register | destroyChannel => cases h

/-- A step adds the regions that are gone after it. -/
theorem LedgerInv.add (h : LedgerInv l) (hr : World.RegionInv w) {mrs : List MrId}
    (hstale : ∀ mr, l.world.Stale mr → w.Stale mr) (hnew : ∀ mr ∈ mrs, w.Stale mr)
    (hnodup : mrs.Nodup) (hnot : ∀ mr ∈ mrs, mr ∉ l.calls) : LedgerInv ⟨w, l.calls ++ mrs⟩ where
  region := hr
  stale mr hmr := by
    rcases List.mem_append.1 hmr with hmr | hmr
    · exact hstale mr (h.stale mr hmr)
    · exact hnew mr hmr
  nodup := by
    rw [List.nodup_append']
    exact ⟨h.nodup, hnodup, fun mr hmr hmr' => hnot mr hmr' hmr⟩

theorem stale_deregistered {c : ChannelId} {ch : RDMAChannel} {mr mr' : MrId} {r : MemRegion}
    (h : w.Stale mr') : (w.deregistered c ch b buf mr r).Stale mr' := by
  obtain ⟨r', hr', hdead⟩ := h
  have hlt := (List.getElem?_eq_some_iff.1 hr').1
  by_cases hm : mr' = mr
  · subst hm
    exact ⟨{ r with registered := false }, by simp [World.deregistered, hlt], rfl⟩
  · refine ⟨r', ?_, hdead⟩
    rw [← hr']
    exact List.getElem?_set_ne (Ne.symm hm)

/-- What `deregister_from_channel` passes on is gone afterwards. -/
theorem LedgerInv.deregister (h : LedgerInv l) {c : ChannelId}
    (hs : l.world.deregisterFromChannel b (some c) = .ok w) :
    LedgerInv ⟨w, l.calls ++ l.world.passedBy b⟩ := by
  have hregion := h.region.deregister hs
  have hsub : ∃ buf, l.world.buffers b = some buf ∧ buf.isSubBuffer = false := by
    simp only [World.deregisterFromChannel, Except.bind_eq_ok, World.getBuffer_eq_ok,
      check_eq_ok] at hs
    obtain ⟨buf, hbuf, -, hsub, -⟩ := hs
    exact ⟨buf, hbuf, hsub⟩
  obtain ⟨buf, ch, mr, r, hbuf, hch, hmr, hr, -, rfl⟩ := World.deregisterFromChannel_ok hs
  obtain ⟨buf', hbuf', hsub⟩ := hsub
  obtain rfl := Option.some.inj (hbuf.symm.trans hbuf')
  have hpassed : l.world.passedBy b = [mr] := by
    simp [World.passedBy, hbuf, hsub, hmr]
  have hlt := (List.getElem?_eq_some_iff.1 hr).1
  rw [hpassed]
  refine h.add hregion (fun _ => stale_deregistered) ?_ (List.nodup_singleton mr) ?_
  · intro mr' hmr'
    obtain rfl := List.mem_singleton.1 hmr'
    exact ⟨{ r with registered := false }, by simp [World.deregistered, hlt], rfl⟩
  · intro mr' hmr'
    obtain rfl := List.mem_singleton.1 hmr'
    exact (h.held hbuf hmr).1

/-- **Every call keeps the invariant.** -/
theorem LedgerInv.step (h : LedgerInv l) {a : World.Action} (hs : l.step a = some l') :
    LedgerInv l' := by
  have hmap : ∃ w, l.world.step a = some w ∧ l' = ⟨w, l.calls ++ l.world.passed a⟩ := by
    cases a with
    | destroyChannel c => cases hs
    | _ =>
      obtain ⟨w, hw, rfl⟩ := Option.map_eq_some_iff.1 hs
      exact ⟨w, hw, rfl⟩
  obtain ⟨w, hw, rfl⟩ := hmap
  have hregion := h.region.step hw
  rcases World.step_cases hw with ⟨b, ptr, size, k, name, rfl, -, rfl⟩ |
    ⟨c, b, lkey, rkey, buf, ch, rfl, -, -, -, -, rfl⟩ | ⟨b, c, rfl, hw'⟩ |
    ⟨b, buf, w₁, rfl, hbuf, hw₁, rfl⟩ | ⟨c, ch, t, rfl, -⟩
  · exact h.add hregion (fun _ hst => hst) (fun _ hm => by cases hm) List.nodup_nil
      fun _ hm => by cases hm
  · refine h.add hregion ?_ (fun _ hm => by cases hm) List.nodup_nil fun _ hm => by cases hm
    rintro mr ⟨r, hr, hdead⟩
    have hlt := (List.getElem?_eq_some_iff.1 hr).1
    exact ⟨r, by simpa [World.registered, List.getElem?_append_left hlt] using hr, hdead⟩
  · exact h.deregister hw'
  · -- the destructor deregisters a buffer that has an owner
    cases hown : buf.ownedByChannel with
    | none =>
      rw [hown] at hw₁
      obtain rfl := Except.ok.inj hw₁
      have hpassed : l.world.passed (.destroyBuffer b) = [] := by
        simp [World.passed, hbuf, hown]
      rw [hpassed]
      exact h.add hregion (fun _ hst => hst) (fun _ hm => by cases hm) List.nodup_nil
        fun _ hm => by cases hm
    | some c =>
      rw [hown] at hw₁
      have hpassed : l.world.passed (.destroyBuffer b) = l.world.passedBy b := by
        simp [World.passed, hbuf, hown]
      rw [hpassed]
      have hd := h.deregister hw₁
      exact ⟨hregion, hd.stale, hd.nodup⟩
  · cases hs

theorem ledgerInv_reachable {n : ℕ} (h : Lts.Reachable step (init n) l) : LedgerInv l :=
  h.induct (ledgerInv_init n) fun _ _ _ h hs => h.step hs

/-- **No region is deregistered twice.** In every run the regions passed to
    `deregister_mem` are all different, and no call can pass one of them again; a
    region is held by one base buffer at most, and one that is held has not been
    passed and is registered. -/
theorem deregistered_once {n : ℕ} (h : Lts.Reachable step (init n) l) :
    l.calls.Nodup ∧ (∀ a, ∀ mr ∈ l.world.passed a, mr ∉ l.calls) ∧
      (∀ b b' buf buf' mr, l.world.buffers b = some buf → l.world.buffers b' = some buf' →
        buf.mr = some mr → buf'.mr = some mr → b = b') ∧
      ∀ b buf mr, l.world.buffers b = some buf → buf.mr = some mr →
        mr ∉ l.calls ∧ ∃ r, l.world.mrs[mr]? = some r ∧ r.registered = true := by
  have hinv := ledgerInv_reachable h
  refine ⟨hinv.nodup, ?_, hinv.region.unique, fun b buf mr hbuf hmr => hinv.held hbuf hmr⟩
  intro a mr hmem
  obtain ⟨b, buf, hbuf, hmr⟩ := mem_passed hmem
  exact (hinv.held hbuf hmr).1

end

/-- A buffer is registered in two channels, deregistered, registered again and
    destroyed. -/
theorem deregistered_once_again : ∃ l,
    Lts.run step (init 2) [.allocate 0 4096 8 2 "buf", .register 0 0 7 9, .register 1 0 8 9,
      .deregister 0 0, .register 0 0 9 9, .destroyBuffer 0] = some l ∧
    l.calls = [1, 2] ∧ l.calls.Nodup := by
  refine ⟨_, rfl, rfl, ?_⟩
  exact (deregistered_once (n := 2) ⟨[.allocate 0 4096 8 2 "buf", .register 0 0 7 9,
    .register 1 0 8 9, .deregister 0 0, .register 0 0 9 9, .destroyBuffer 0], rfl⟩).1

end Ledger

end RdmaCore

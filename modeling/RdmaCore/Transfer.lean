/-
  The length of a transfer (`send_remote`, `recv_remote`, `read_remote` and
  `write_remote` of src/rdma_adapter.cc).

  Callers give the length as a `size_t`; the parameter of the four calls is a
  `uint32_t`, and their `CHECK`s compare what is left of the length after the
  conversion.

  * `posts_of_registered`: on a registered buffer that passes `security_check`
    no length within the buffers is refused;
  * `exact_transfer_iff`: the request covers the length asked for exactly if
    this fits into 32 bits.
-/
import RdmaCore.Posting

namespace RdmaCore

namespace World

/-- A posting call whose length argument is a `size_t`. -/
def postSize (w : World) (o : BufferObj) (len : UInt64) (call : PostCall) :
    Except Fault WorkRequest :=
  w.post o len.toUInt32 call

/-- The remote buffer of a one-sided call has `len` bytes. -/
def PostCall.Fits (len : ℕ) : PostCall → Prop
  | .send _ => True
  | .recv => True
  | .read d => len ≤ d.bufferLength.toNat
  | .write d _ _ => len ≤ d.bufferLength.toNat

/-- The call fails a `CHECK`, or posts a request for exactly `len` bytes. -/
def ExactTransfer (w : World) (o : BufferObj) (len : UInt64) (call : PostCall) : Prop :=
  (∃ c, w.postSize o len call = .error (.check c)) ∨
    ∃ wr, w.postSize o len call = .ok wr ∧ wr.length = len.toNat

variable {n : ℕ} {w : World} {b : BufferId} {buf : RDMABuffer} {hd : Handle} {o : BufferObj}

/-- The region of a registered buffer, or of one of its blocks. -/
theorem exists_lkey (hw : Lts.Reachable step (init n) w) (hbuf : w.buffers b = some buf)
    (hown : buf.ownedByChannel ≠ none) (ho : buf.object hd = some o) :
    ∃ lkey, w.loadLkey o = .ok lkey := by
  have hb := (regionInv_reachable hw).buffer b buf hbuf
  obtain ⟨c, hc⟩ := Option.ne_none_iff_exists'.1 hown
  obtain ⟨mr, hmr, r, hr, -⟩ := hb.region c hc
  have homr : o.mr = some mr := by
    rcases hb.object_mr ho with hsame | ⟨hnone, -⟩
    · exact hsame.trans hmr
    · exact absurd hnone hown
  refine ⟨r.lkey, ?_⟩
  simp only [loadLkey, homr, Option.bind_some, hr]

/-- What the common part of the four calls does with a buffer that has a region. -/
theorem postOn_eq {len lkey : UInt32} {limit : ℕ} {op : Opcode} {imm : Option UInt32}
    {remote : Option (UInt64 × UInt32)} (hkey : w.loadLkey o = .ok lkey)
    (hfit : len.toNat ≤ o.bufferSize ∧ len.toNat ≤ limit) :
    w.postOn o len limit op imm remote = (securityCheck o).bind fun _ =>
      .ok ⟨op, o.dataPtr, len.toNat, lkey, imm, remote⟩ := by
  simp only [postOn, check, if_pos hfit, hkey]
  rfl

theorem toNat_toUInt32_le (len : UInt64) : len.toUInt32.toNat ≤ len.toNat := by
  rw [UInt64.toNat_toUInt32]
  exact Nat.mod_le _ _

theorem securityCheck_cases (o : BufferObj) :
    securityCheck o = .ok () ∨ ∃ c, securityCheck o = .error (.check c) := by
  cases h : securityCheck o with
  | ok u => exact Or.inl rfl
  | error f =>
    simp only [securityCheck, Except.bind_eq_error, check_eq_error] at h
    obtain ⟨-, rfl⟩ | ⟨-, -, ⟨-, rfl⟩ | ⟨-, -, -, rfl⟩⟩ := h
    · exact Or.inr ⟨_, rfl⟩
    · exact Or.inr ⟨_, rfl⟩
    · exact Or.inr ⟨_, rfl⟩

/-- **A registered buffer** that passes `security_check` is posted with what is
    left of the length; none within the buffers is refused. -/
theorem posts_of_registered (hw : Lts.Reachable step (init n) w) (hbuf : w.buffers b = some buf)
    (hown : buf.ownedByChannel ≠ none) (ho : buf.object hd = some o) {len : UInt64}
    {call : PostCall} (hlen : len.toNat ≤ o.bufferSize) (hfit : call.Fits len.toNat) :
    ∃ wr, wr.length = len.toUInt32.toNat ∧
      w.postSize o len call = (securityCheck o).bind fun _ => .ok wr := by
  have hle := toNat_toUInt32_le len
  obtain ⟨lkey, hkey⟩ := exists_lkey hw hbuf hown ho
  have hpost {limit : ℕ} (hlimit : len.toUInt32.toNat ≤ limit) (op : Opcode) (imm : Option UInt32)
      (remote : Option (UInt64 × UInt32)) : ∃ wr : WorkRequest, wr.length = len.toUInt32.toNat ∧
        w.postOn o len.toUInt32 limit op imm remote = (securityCheck o).bind fun _ => .ok wr :=
    ⟨_, rfl, postOn_eq hkey ⟨hle.trans hlen, hlimit⟩⟩
  cases call with
  | send msgTag => exact hpost (hle.trans hlen) _ _ _
  | recv => exact hpost (hle.trans hlen) _ _ _
  | read d => exact hpost (hle.trans hfit) _ _ _
  | write d msgTag notify =>
    cases notify with
    | false => exact hpost (hle.trans hfit) _ _ _
    | true => exact hpost (hle.trans hfit) _ _ _

/-- **A transfer covers exactly the bytes asked for** exactly if their number
    fits into the `uint32_t` parameter, or `security_check` stops the call. -/
theorem exact_transfer_iff (hw : Lts.Reachable step (init n) w) (hbuf : w.buffers b = some buf)
    (hown : buf.ownedByChannel ≠ none) (ho : buf.object hd = some o) {len : UInt64}
    {call : PostCall} (hlen : len.toNat ≤ o.bufferSize) (hfit : call.Fits len.toNat) :
    w.ExactTransfer o len call ↔ len.toNat < 2 ^ 32 ∨ securityCheck o ≠ .ok () := by
  obtain ⟨wr, hwr, hpost⟩ := posts_of_registered hw hbuf hown ho hlen hfit
  rw [UInt64.toNat_toUInt32] at hwr
  rw [ExactTransfer, hpost]
  rcases securityCheck_cases o with hsec | ⟨c, hsec⟩
  · rw [hsec]
    constructor
    · rintro (⟨c, hc⟩ | ⟨wr', hok, hlen'⟩)
      · cases hc
      · obtain rfl : wr = wr' := Except.ok.inj hok
        have hmod := Nat.mod_lt len.toNat (show 0 < 2 ^ 32 by decide)
        exact Or.inl (by omega)
    · intro h
      have hlt := h.resolve_right fun hne => hne rfl
      exact Or.inr ⟨wr, rfl, hwr.trans (Nat.mod_eq_of_lt hlt)⟩
  · rw [hsec]
    exact ⟨fun _ => Or.inr nofun, fun _ => Or.inl ⟨c, rfl⟩⟩

/-- A receive of a buffer's own size. -/
theorem exact_transfer_small : ∃ w buf, Lts.run step (init 1)
      [.allocate 0 4096 10000 1 "recv", .register 0 0 7 9] = some w ∧ w.buffers 0 = some buf ∧
    w.ExactTransfer buf.toBufferObj 10000 .recv := by
  refine ⟨_, _, rfl, rfl, ?_⟩
  have hw : Lts.Reachable step (init 1) _ :=
    ⟨[.allocate 0 4096 10000 1 "recv", .register 0 0 7 9], rfl⟩
  exact (@exact_transfer_iff 1 _ 0 _ .base _ hw rfl nofun rfl 10000 .recv (by decide)
    trivial).2 (Or.inl (by decide))

/-- A receive of the benchmark's buffer, which has 8388608000 bytes, posts
    4093640704 of them. -/
theorem not_exact_transfer_benchmark : ∃ w buf wr, Lts.run step (init 1)
      [.allocate 0 4096 8388608000 1 "benchmark_buffer", .register 0 0 7 9] = some w ∧
    w.buffers 0 = some buf ∧ buf.bufferSize = 8388608000 ∧
    w.postSize buf.toBufferObj 8388608000 .recv = .ok wr ∧ wr.length = 4093640704 ∧
    ¬ w.ExactTransfer buf.toBufferObj 8388608000 .recv := by
  refine ⟨_, _, _, rfl, rfl, rfl, rfl, rfl, ?_⟩
  rintro (⟨c, hc⟩ | ⟨wr, hok, hlen⟩)
  · cases hc
  · obtain rfl := Except.ok.inj hok
    exact absurd hlen (by decide)

end World

end RdmaCore

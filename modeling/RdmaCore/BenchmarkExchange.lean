/-
  The messages and the descriptor of the benchmark of
  example/lat_bw_benchmark.cc, in steps in which no thread fails.

  * `Party.Inv`: what holds of one side: its buffer stays where it is, and once
    the client has read the descriptor, its writes and reads are about the first
    block of the server;
  * `Lengths`: the lengths of the messages, and of the receives for them;
  * `Exchange`: the bytes of the descriptor, on their way to the client;
  * `State.Step.agreed`: every step keeps the three.
-/
import RdmaCore.BenchmarkSteps

namespace RdmaCore

namespace Benchmark

/-! ## The descriptor -/

namespace Placement

variable (p : Placement)

/-- What the server writes into its answer. -/
def descriptorBytes : List UInt8 :=
  leBytes 8 p.ptr ++ leBytes 8 blockSize ++ leBytes 4 p.rkey.toNat

theorem length_descriptorBytes : p.descriptorBytes.length = 20 := by
  simp [descriptorBytes]

/-- The descriptor is that of the first block. -/
structure Describes (d : CommDescriptor) : Prop where
  addr : d.bufferAddr.toNat = p.ptr
  length : d.bufferLength.toNat = blockSize
  rkey : d.rkey = p.rkey

variable {p}

theorem describes_load {m : ByteMem} (h : m.read 0 20 = p.descriptorBytes) :
    p.Describes (CommDescriptor.load m 0) := by
  rw [show 20 = 8 + 8 + 4 from rfl, ByteMem.read_add, ByteMem.read_add, descriptorBytes] at h
  obtain ⟨h, hrkey⟩ := List.append_inj h (by simp)
  obtain ⟨haddr, hlength⟩ := List.append_inj h (by simp)
  have hptr : p.ptr < 2 ^ 64 :=
    Nat.lt_of_lt_of_le (Nat.lt_add_of_pos_right (by decide)) p.ptr_le
  refine ⟨?_, ?_, ?_⟩
  · show (UInt64.ofNat (leNat (m.read 0 8))).toNat = p.ptr
    rw [haddr, leNat_leBytes (by omega), UInt64.toNat_ofNat', Nat.mod_eq_of_lt hptr]
  · show (UInt64.ofNat (leNat (m.read (0 + 8) 8))).toNat = blockSize
    rw [hlength, leNat_leBytes (by decide), UInt64.toNat_ofNat', Nat.mod_eq_of_lt (by decide)]
  · show UInt32.ofNat (leNat (m.read (0 + (8 + 8)) 4)) = p.rkey
    rw [hrkey, leNat_leBytes p.rkey.toNat_lt, UInt32.ofNat_toNat]

end Placement

/-! ## One side -/

/-- The buffer of a side is placed. -/
structure Chan.Placed (p : Placement) (me : Chan) : Prop where
  buffer : RdmaCore.Placed blockSize count p.ptr me.buffer
  rkey : me.rkey = p.rkey

namespace Chan.Placed

variable {p : Placement} {me me' : Chan} {o : Op}

theorem init (c : ChannelId) (p : Placement) : (Chan.init c p).Placed p :=
  ⟨.registered _ _ _ (by decide) (by decide) (by decide) p.ptr_pos p.ptr_le, rfl⟩

theorem performs (h : me.Placed p) (hp : me.Performs o me') : me'.Placed p := by
  cases hp with
  | post hp =>
    cases hp with
    | sendAt | writeAt => exact ⟨h.buffer, h.rkey⟩
    | sendNext hn | writeNext hn | readNext hn => exact ⟨h.buffer.next hn, h.rkey⟩
  | recv hr =>
    cases hr with
    | recvAt => exact ⟨h.buffer, h.rkey⟩
    | recvNext hn => exact ⟨h.buffer.next hn, h.rkey⟩
  | last hl => exact ⟨h.buffer.last hl, h.rkey⟩
  | fill | load => exact ⟨h.buffer, h.rkey⟩

/-- A one-sided request about the first block is served there. -/
theorem offset {d : CommDescriptor} {len : ℕ} (h : me.Placed p) (hd : p.Describes d)
    (hlen : len ≤ blockSize) : me.offset d len = some 0 := by
  have hle : blockSize ≤ blockSize * count := Nat.le_mul_of_pos_right _ (by decide)
  rw [Chan.offset, if_pos]
  · rw [hd.addr, h.buffer.dataPtr, Nat.sub_self]
  · rw [hd.addr, hd.rkey, h.rkey, h.buffer.dataPtr, h.buffer.bufferSize]
    exact ⟨rfl, le_rfl, by omega⟩

/-- The server describes its first block. -/
theorem descriptorBytes {first : BufferObj} (h : me.Placed p)
    (hf : me.buffer.blockAt 0 = .ok first) : me.descriptorBytes first = p.descriptorBytes := by
  rw [Chan.descriptorBytes, Placement.descriptorBytes, h.buffer.dataPtr_blockAt hf,
    h.buffer.bufferSize_blockAt hf, h.rkey, Nat.zero_mul, Nat.add_zero]

end Chan.Placed

/-- A request that side `x` has posted, with `todo` left. -/
def Request.Of (P : Bool → Placement) (x : Bool) (todo : List Op) : Request → Prop
  | send block _ _ => x = true → block = 1
  | write _ len d | read _ len d =>
    x = false ∧ exchanged x ∉ todo ∧ len ≤ blockSize ∧ (P true).Describes d

theorem Request.Of.mono {P : Bool → Placement} {x : Bool} {todo todo' : List Op} {r : Request}
    (h : r.Of P x todo) (hmem : exchanged x ∈ todo' → exchanged x ∈ todo) : r.Of P x todo' := by
  cases r with
  | send => exact h
  | write | read =>
    obtain ⟨hx, hnot, hd⟩ := h
    exact ⟨hx, fun hin => hnot (hmem hin), hd⟩

/-- What holds of side `x`. -/
structure Party.Inv (P : Bool → Placement) (x : Bool) (p : Party) : Prop where
  rest : Rest x p.todo
  placed : p.chan.Placed (P x)
  requests : ∀ r ∈ p.chan.sq, r.request.Of P x p.todo
  receives : x = false → ∀ e ∈ p.chan.rq, e.1 = 0
  loaded : x = false → exchanged x ∉ p.todo → (P true).Describes p.chan.bufferPeer

namespace Party.Inv

variable {P : Bool → Placement} {x : Bool} {p p' : Party} {o : Op} {todo : List Op} {me : Chan}

theorem init (P : Bool → Placement) (x : Bool) : ((State.init P).party x).Inv P x where
  rest := .init x
  placed := .init 0 (P x)
  requests _ hr := absurd hr List.not_mem_nil
  receives _ _ he := absurd he List.not_mem_nil
  loaded _ hmem := by
    refine absurd ?_ hmem
    show exchanged x ∈ processCQ x
    rw [processCQ_eq]
    exact List.mem_append_right _ List.mem_cons_self

/-- What is left of the program, from its next operation. -/
theorem rest_cons (h : p.Inv P x) (ht : p.todo = o :: todo) : Rest x (o :: todo) := ht ▸ h.rest

theorem of (h : p.Inv P x) (ht : p.todo = o :: todo) : o.start.Of x := (h.rest_cons ht).of

/-- A step of a side that posts nothing. -/
theorem move (h : p.Inv P x) (hrest : Rest x p'.todo)
    (hmem : exchanged x ∈ p'.todo ↔ exchanged x ∈ p.todo) (hplaced : p'.chan.Placed (P x))
    (hsq : ∀ r ∈ p'.chan.sq, ∃ r' ∈ p.chan.sq, r'.request = r.request)
    (hrq : p'.chan.rq ⊆ p.chan.rq) (hpeer : p'.chan.bufferPeer = p.chan.bufferPeer) :
    p'.Inv P x where
  rest := hrest
  placed := hplaced
  requests r hr := by
    obtain ⟨r', hr', heq⟩ := hsq r hr
    rw [← heq]
    exact (h.requests r' hr').mono hmem.1
  receives hx e he := h.receives hx e (hrq he)
  loaded hx hnot := by
    rw [hpeer]
    exact h.loaded hx fun hin => hnot (hmem.2 hin)

/-- A one-sided operation comes after the exchange. -/
theorem notMem_of_oneSided (h : p.Inv P x) (ht : p.todo = o :: todo) (ho : o.start ∉ before x)
    (hne : o ≠ exchanged x) : exchanged x ∉ p.todo := by
  intro hmem
  have hrest := h.rest_cons ht
  rw [ht] at hmem
  rcases hrest.mem_before hmem with hbefore | ⟨heq, -⟩
  · exact ho hbefore
  · exact hne heq

/-- The request of an operation that posts one. -/
theorem of_posts {buffer : RDMABuffer} {r : Request} (h : p.Inv P x) (ht : p.todo = o :: todo)
    (hp : p.chan.Posts o buffer r) : r.Of P x todo := by
  have hof := h.of ht
  have hone : ∀ len, x = false → len ≤ blockSize → (∀ y, o.start ∉ before y) →
      (∀ y, o ≠ exchanged y) → x = false ∧ exchanged x ∉ todo ∧ len ≤ blockSize ∧
        (P true).Describes p.chan.bufferPeer := by
    intro len hx hlen hbefore hne
    have hnot := h.notMem_of_oneSided ht (hbefore x) (hne x)
    refine ⟨hx, fun hin => hnot ?_, hlen, h.loaded hx hnot⟩
    rw [ht]
    exact List.mem_cons_of_mem _ hin
  cases hp with
  | sendAt =>
    rintro rfl
    exact hof.1
  | sendNext hn =>
    rintro rfl
    cases hof.1
  | writeNext hn | readNext hn =>
    exact hone _ hof.1 hof.2 (by rintro (_ | _) <;> simp [before, Op.start])
      (by rintro (_ | _) <;> simp [exchanged])
  | writeAt =>
    exact hone _ hof.1 hof.2.2 (by rintro (_ | _) <;> simp [before, Op.start])
      (by rintro (_ | _) <;> simp [exchanged])

theorem of_receives {buffer : RDMABuffer} {i limit : ℕ} (h : p.Inv P x) (ht : p.todo = o :: todo)
    (hr : p.chan.Receives o buffer i limit) (hx : x = false) : i = 0 := by
  have hof := h.of ht
  cases hr with
  | recvAt => exact hof.1
  | recvNext =>
    rw [hx] at hof
    cases hof

/-- An operation that is performed; the client reads the descriptor of the server. -/
theorem perform (h : p.Inv P x) (ht : p.todo = o :: todo) (hp : p.chan.Performs o me)
    (hload : o = .load → (P true).Describes (CommDescriptor.load p.chan.mem 0)) :
    Party.Inv P x { p with todo, chan := me } := by
  have hrest := h.rest_cons ht
  have hof : ∀ r ∈ p.chan.sq, r.request.Of P x todo := fun r hr =>
    (h.requests r hr).mono fun hin => ht ▸ List.mem_cons_of_mem _ hin
  have hloaded : o ≠ .load → x = false → exchanged x ∉ todo →
      (P true).Describes p.chan.bufferPeer := by
    rintro hne rfl hnot
    refine h.loaded rfl fun hin => ?_
    rw [ht] at hin
    rcases List.mem_cons.1 hin with heq | hin
    · exact hne heq.symm
    · exact hnot hin
  have hplaced := h.placed.performs hp
  refine ⟨hrest.tail, hplaced, ?_, ?_, ?_⟩
  · cases hp with
    | post hpost =>
      intro r hr
      rcases List.mem_append.1 hr with hr | hr
      · exact hof r hr
      · rw [List.mem_singleton.1 hr]
        exact h.of_posts ht hpost
    | recv | last | fill | load => exact hof
  · intro hx
    cases hp with
    | recv hr =>
      intro e he
      rcases List.mem_append.1 he with he | he
      · exact h.receives hx e he
      · rw [List.mem_singleton.1 he]
        exact h.of_receives ht hr hx
    | post | last | fill | load => exact h.receives hx
  · cases hp with
    | post hpost => exact hloaded (by rintro rfl; cases hpost)
    | recv hr => exact hloaded (by rintro rfl; cases hr)
    | last | fill => exact hloaded (by simp)
    | load => exact fun _ _ => hload rfl

end Party.Inv

/-! ## Lengths -/

/-- The lengths of the messages in a request. -/
def Request.lens : Request → List ℕ
  | send _ len _ => [len]
  | _ => []

namespace Party

variable (p : Party)

/-- The lengths of the messages that a side has posted or is to post. -/
def lens : List ℕ := p.chan.sq.flatMap (·.request.lens) ++ p.todo.flatMap Op.lens

/-- The lengths of the receives that a side has posted or is to post. -/
def limits : List ℕ := p.chan.rq.map (·.2) ++ p.todo.flatMap Op.limits

/-- A step of a side in which no message is delivered. -/
structure Same (p p' : Party) : Prop where
  lens : p'.lens = p.lens
  limits : p'.limits = p.limits
  waits : awaits p'.todo + p.reported false = awaits p.todo + p'.reported false

end Party

/-- Of the messages of side `x`, `n x` have been delivered. -/
structure Lengths (n : Bool → ℕ) (s : State) : Prop where
  lens : ∀ x, (s.party x).lens = ((processCQ x).flatMap Op.lens).drop (n x)
  limits : ∀ x, (s.party x).limits = ((processCQ x).flatMap Op.limits).drop (n !x)
  waits : ∀ x, n (!x) + awaits (s.party x).todo =
    awaits (processCQ x) + (s.party x).reported false

theorem Lengths.init (P : Bool → Placement) : Lengths (fun _ => 0) (State.init P) where
  lens _ := rfl
  limits _ := rfl
  waits x := by
    show 0 + awaits (processCQ x) = _
    exact Nat.add_comm ..

theorem Lengths.setParty {n : Bool → ℕ} {s : State} {x : Bool} {p' : Party} (h : Lengths n s)
    (hsame : (s.party x).Same p') : Lengths n (s.setParty x p') := by
  refine ⟨fun y => ?_, fun y => ?_, fun y => ?_⟩ <;>
    rcases Script.eq_or_eq_not y x with rfl | rfl
  · rw [State.setParty_self, hsame.lens]
    exact h.lens y
  · rw [State.setParty_not]
    exact h.lens _
  · rw [State.setParty_self, hsame.limits]
    exact h.limits y
  · rw [State.setParty_not]
    exact h.limits _
  · have hwaits := h.waits y
    have hsame := hsame.waits
    rw [State.setParty_self]
    omega
  · rw [State.setParty_not]
    exact h.waits _

/-- A message of side `x` is delivered. -/
theorem Lengths.message {n : Bool → ℕ} {s : State} {x : Bool} (h : Lengths n s) {b len i limit : ℕ}
    {tag : MessageforTest} {payload : Option (List UInt8)} {sq : List Posted}
    {rq : List (ℕ × ℕ)} (hq : (s.party x).chan.sq = ⟨.send b len tag, payload⟩ :: sq)
    (hr : (s.party (!x)).chan.rq = (i, limit) :: rq) (acks : List Kind) (mem : ByteMem) :
    Lengths (Function.update n x (n x + 1))
      ((s.setParty x { s.party x with chan := { (s.party x).chan with sq, acks } }).setParty (!x)
        { s.party (!x) with
          cq := (s.party (!x)).cq ++ [.recv tag]
          chan := { (s.party (!x)).chan with rq, mem } }) := by
  have hself : Function.update n x (n x + 1) x = n x + 1 := Function.update_self ..
  have hother : Function.update n x (n x + 1) (!x) = n !x :=
    Function.update_of_ne (Bool.not_ne_self x) ..
  refine ⟨fun y => ?_, fun y => ?_, fun y => ?_⟩ <;>
    rcases Script.eq_or_eq_not y x with rfl | rfl
  · have hlens := h.lens y
    rw [Party.lens, hq, List.flatMap_cons] at hlens
    rw [State.setParty_of_not, State.setParty_self, hself, ← List.tail_drop, ← hlens]
    rfl
  · rw [State.setParty_self, hother, ← h.lens]
    rfl
  · rw [State.setParty_of_not, State.setParty_self, hother, ← h.limits]
    rfl
  · have hlimits := h.limits !x
    rw [Party.limits, hr, List.map_cons, Bool.not_not] at hlimits
    rw [State.setParty_self, Bool.not_not, hself, ← List.tail_drop, ← hlimits]
    rfl
  · rw [State.setParty_of_not, State.setParty_self, hother]
    exact h.waits y
  · have hwaits := h.waits !x
    have hcq : Party.reported { s.party (!x) with
        cq := (s.party (!x)).cq ++ [.recv tag]
        chan := { (s.party (!x)).chan with rq, mem } } false =
          (s.party (!x)).reported false + 1 := by
      rw [Party.reported, List.countP_append]
      rfl
    rw [Bool.not_not] at hwaits
    rw [State.setParty_self, Bool.not_not, hself, hcq]
    show n x + 1 + awaits (s.party (!x)).todo = _
    omega

/-- A message fits the receive that it takes. -/
theorem Lengths.fits {n : Bool → ℕ} {s : State} {x : Bool} (h : Lengths n s) {b len i limit : ℕ}
    {tag : MessageforTest} {payload : Option (List UInt8)} {sq : List Posted}
    {rq : List (ℕ × ℕ)} (hq : (s.party x).chan.sq = ⟨.send b len tag, payload⟩ :: sq)
    (hr : (s.party (!x)).chan.rq = (i, limit) :: rq) : len ≤ limit := by
  have hlens := h.lens x
  have hlimits := h.limits !x
  rw [Party.lens, hq, List.flatMap_cons] at hlens
  rw [Party.limits, hr, List.map_cons, Bool.not_not] at hlimits
  have hfits := List.forall₂_drop (n x) (fits_processCQ x)
  rw [← hlens, ← hlimits] at hfits
  cases hfits with
  | cons hle _ => exact hle

/-! ### Steps of one side -/

/-- What an operation does to the lengths. -/
theorem Chan.Performs.lens {p : Placement} {me me' : Chan} {o : Op} (h : me.Placed p)
    (hp : me.Performs o me') :
    me'.sq.flatMap (·.request.lens) = me.sq.flatMap (·.request.lens) ++ o.lens ∧
      me'.rq.map (·.2) = me.rq.map (·.2) ++ o.limits ∧ o.awaits = 0 := by
  cases hp with
  | post hpost => cases hpost <;> simp [Request.lens, Op.lens, Op.limits, Op.awaits]
  | recv hr =>
    cases hr with
    | recvAt => simp [Op.lens, Op.limits, Op.awaits]
    | recvNext hn ho =>
      have hsize := (h.buffer.next hn).bufferSize_blockAt ho
      have hlimit : blockSize < 4294967296 := by decide
      simp [Op.lens, Op.limits, Op.awaits, hsize, hlimit]
  | last | fill | load => simp [Op.lens, Op.limits, Op.awaits]

/-- What a poll does to the lengths. -/
theorem Op.Takes.lens {o : Op} {wc : Wc} {os : List Op} (h : o.Takes wc os) :
    os.flatMap Op.lens = o.lens ∧ os.flatMap Op.limits = o.limits ∧
      Benchmark.awaits os + [wc].countP (fun wc => wc.ofSq = false) = o.awaits := by
  cases h with
  | awaitSent | awaitRecv => exact ⟨rfl, rfl, rfl⟩
  | @request request response recv => cases recv <;> exact ⟨rfl, rfl, rfl⟩
  | @response request response send => cases send <;> exact ⟨rfl, rfl, rfl⟩

/-- A poll does not exchange the descriptor. -/
theorem Op.Takes.exchanged_mem {o : Op} {wc : Wc} {os : List Op} (h : o.Takes wc os) (x : Bool)
    (todo : List Op) : exchanged x ∈ os ++ todo ↔ exchanged x ∈ o :: todo := by
  cases h with
  | awaitSent | awaitRecv => cases x <;> simp [exchanged]
  | @request request response recv => cases x <;> cases recv <;> simp [exchanged, take.loop]
  | @response request response send => cases x <;> cases send <;> simp [exchanged, take.loop]

/-- An operation that is neither of the exchange nor a poll. -/
theorem exchanged_mem_tail {x : Bool} {o : Op} {todo : List Op} (ho : o ≠ exchanged x) :
    exchanged x ∈ todo ↔ exchanged x ∈ o :: todo := by
  rw [List.mem_cons, or_iff_right fun heq => ho heq.symm]

namespace Party.Same

variable {p : Party} {o : Op} {todo : List Op}

theorem perform {q : Placement} {me : Chan} (h : p.chan.Placed q) (ht : p.todo = o :: todo)
    (hp : p.chan.Performs o me) : p.Same { p with todo, chan := me } := by
  obtain ⟨hlens, hlimits, hwaits⟩ := hp.lens h
  refine ⟨?_, ?_, ?_⟩
  · simp only [Party.lens, ht, hlens, List.flatMap_cons, List.append_assoc]
  · simp only [Party.limits, ht, hlimits, List.flatMap_cons, List.append_assoc]
  · simp only [ht, awaits_cons, hwaits, Nat.zero_add]
    rfl

/-- An operation that is done without the channel. -/
theorem skip (ht : p.todo = o :: todo) (hlens : o.lens = []) (hlimits : o.limits = [])
    (hwaits : o.awaits = 0) : p.Same { p with todo } := by
  refine ⟨?_, ?_, ?_⟩
  · simp only [Party.lens, ht, hlens, List.flatMap_cons, List.nil_append]
  · simp only [Party.limits, ht, hlimits, List.flatMap_cons, List.nil_append]
  · simp only [ht, awaits_cons, hwaits, Nat.zero_add]
    rfl

theorem take {wc : Wc} {cq : List Wc} {os : List Op} (ht : p.todo = o :: todo)
    (hq : p.cq = wc :: cq) (h : o.Takes wc os) : p.Same { p with todo := os ++ todo, cq } := by
  obtain ⟨hlens, hlimits, hwaits⟩ := h.lens
  refine ⟨?_, ?_, ?_⟩
  · simp only [Party.lens, ht, List.flatMap_cons, List.flatMap_append, hlens]
  · simp only [Party.limits, ht, List.flatMap_cons, List.flatMap_append, hlimits]
  · have hcq : p.reported false = [wc].countP (fun wc => wc.ofSq = false) +
        cq.countP fun wc => wc.ofSq = false := by
      rw [reported, hq, ← List.countP_append, List.singleton_append]
    rw [hcq, ht, awaits_append, awaits_cons, ← hwaits]
    simp only [reported]
    omega

/-- Requests that are fetched. -/
theorem fetch {j : ℕ} {r : Request} {data : List UInt8} (hj : p.chan.sq[j]? = some ⟨r, none⟩) :
    p.Same { p with chan := { p.chan with sq := p.chan.sq.set j ⟨r, some data⟩ } } := by
  refine ⟨?_, rfl, rfl⟩
  have hset : (p.chan.sq.set j ⟨r, some data⟩).map (·.request) = p.chan.sq.map (·.request) := by
    refine List.ext_getElem? fun i => ?_
    rw [List.map_set, List.getElem?_set]
    split_ifs with hi hlen
    · rw [← hi, List.getElem?_map, hj]
      rfl
    · rw [List.length_map] at hlen
      exact absurd (List.getElem?_eq_some_iff.1 hj).1 hlen
    · rfl
  have hflat := congrArg (List.flatMap Request.lens) hset
  rw [List.flatMap_map, List.flatMap_map] at hflat
  rw [Party.lens, Party.lens, ← hflat]

end Party.Same

/-! ## The exchange -/

/-- The bytes of the descriptor, until the client has read them; `n` messages of the server
    have been delivered. -/
structure Exchange (P : Bool → Placement) (n : ℕ) (s : State) : Prop where
  filled : exchanged true ∉ (s.party true).todo →
    (s.party true).chan.mem.read blockSize 20 = (P true).descriptorBytes
  fetched : ∀ r ∈ (s.party true).chan.sq, ∀ data, r.payload = some data →
    (P true).descriptorBytes <+: data
  received : 0 < n → (s.party false).chan.mem.read 0 20 = (P true).descriptorBytes

/-- What holds while no thread has failed. -/
structure State.Agreed (P : Bool → Placement) (s : State) : Prop where
  sides : ∀ x, (s.party x).Inv P x
  messages : ∃ n, Lengths n s ∧ (exchanged false ∈ (s.party false).todo → Exchange P (n true) s)

namespace State

variable {P : Bool → Placement} {n : Bool → ℕ} {s s' : State} {x : Bool} {p' : Party}

theorem Agreed.init (P : Bool → Placement) : (State.init P).Agreed P where
  sides := Party.Inv.init P
  messages := by
    refine ⟨_, .init P, fun _ => ⟨fun hnot => ?_, fun r hr => absurd hr List.not_mem_nil,
      fun hpos => absurd hpos (Nat.lt_irrefl 0)⟩⟩
    refine absurd ?_ hnot
    show exchanged true ∈ processCQ true
    rw [processCQ_eq]
    exact List.mem_append_right _ List.mem_cons_self

/-- As long as the client has not read the descriptor, each side has posted at most one
    message. -/
theorem Agreed.early (h : s.Agreed P) (hn : Lengths n s)
    (hmem : exchanged false ∈ (s.party false).todo) (x : Bool) :
    n x + ((s.party x).chan.sq.flatMap (·.request.lens)).length ≤ 1 := by
  have hclient := congrArg List.length (hn.lens false)
  have hserver := congrArg List.length (hn.lens true)
  have hwaits := hn.waits true
  rw [Party.lens, List.length_append, List.length_drop] at hclient hserver
  rw [Bool.not_true] at hwaits
  have htwo := two_le_lens false
  have htwo' := two_le_lens true
  have hle := (h.sides false).rest.le_length_lens hmem
  have heq := congrArg List.length (lens_eq false)
  rw [List.length_append] at heq
  have hone : (if false = true then [] else [2] : List ℕ).length = 1 := rfl
  cases x with
  | false => omega
  | true =>
    have hle' := (h.sides true).rest.server_lens (by omega)
    omega

/-- A step of one side in which no message is delivered and the memory is not changed. -/
theorem Agreed.setParty (h : s.Agreed P) (hinv : p'.Inv P x) (hsame : (s.party x).Same p')
    (hmem : exchanged x ∈ p'.todo ↔ exchanged x ∈ (s.party x).todo)
    (hbytes : p'.chan.mem = (s.party x).chan.mem)
    (hsq : x = true → ∀ r ∈ p'.chan.sq, ∀ data, r.payload = some data →
      r ∈ (s.party x).chan.sq) : (s.setParty x p').Agreed P := by
  obtain ⟨n, hn, hexchange⟩ := h.messages
  refine ⟨forall_setParty h.sides hinv, n, hn.setParty hsame, fun hearly => ?_⟩
  cases x with
  | false =>
    have hself := s.setParty_self false p'
    have hother := s.setParty_client p'
    rw [hself] at hearly
    have hs := hexchange (hmem.1 hearly)
    refine ⟨?_, ?_, ?_⟩
    · rw [hother]
      exact hs.filled
    · rw [hother]
      exact hs.fetched
    · rw [hself, hbytes]
      exact hs.received
  | true =>
    have hself := s.setParty_self true p'
    have hother := s.setParty_server p'
    rw [hother] at hearly
    have hs := hexchange hearly
    refine ⟨?_, ?_, ?_⟩
    · rw [hself, hbytes, hmem]
      exact hs.filled
    · rw [hself]
      exact fun r hr data hdata => hs.fetched r (hsq rfl r hr data hdata) data hdata
    · rw [hother]
      exact hs.received

/-- The message that the server has posted is its answer. -/
theorem Agreed.answer (h : s.Agreed P) (hn : Lengths n s)
    (hmem : exchanged false ∈ (s.party false).todo) {r : Posted}
    (hr : r ∈ (s.party true).chan.sq) :
    (∃ tag, r.request = .send 1 64 tag) ∧ exchanged true ∉ (s.party true).todo := by
  have hof := (h.sides true).requests r hr
  cases hk : r.request with
  | write | read =>
    rw [hk] at hof
    cases hof.1
  | send block len tag =>
    rw [hk] at hof
    obtain rfl : block = 1 := hof rfl
    have hearly := h.early hn hmem true
    have hlens := hn.lens true
    have hin : len ∈ (s.party true).chan.sq.flatMap (·.request.lens) :=
      List.mem_flatMap.2 ⟨r, hr, by rw [hk]; exact List.mem_cons_self⟩
    have hpos := List.length_pos_of_mem hin
    obtain ⟨len', hlen'⟩ := List.length_eq_one_iff.1
      (show ((s.party true).chan.sq.flatMap (·.request.lens)).length = 1 by omega)
    rw [hlen'] at hin
    obtain rfl := List.mem_singleton.1 hin
    have hzero : n true = 0 := by omega
    rw [Party.lens, hlen', hzero, List.drop_zero] at hlens
    refine ⟨⟨tag, ?_⟩, fun hfill => ?_⟩
    · rw [lens_server] at hlens
      obtain ⟨rfl, -⟩ := List.cons.inj hlens
      rfl
    · have hle := (h.sides true).rest.le_length_lens hfill
      rw [lens_eq, if_pos rfl, List.nil_append] at hlens
      have hlength := congrArg List.length hlens
      rw [List.length_append, List.length_singleton] at hlength
      omega

/-! ## Steps -/

/-- The client reads the descriptor of the server. -/
theorem Agreed.describes_load (h : s.Agreed P) {todo : List Op}
    (ht : (s.party false).todo = .load :: todo) :
    (P true).Describes (CommDescriptor.load (s.party false).chan.mem 0) := by
  obtain ⟨n, hn, hexchange⟩ := h.messages
  have hmem : exchanged false ∈ (s.party false).todo := by
    rw [ht]
    exact List.mem_cons_self
  have hrest := (h.sides false).rest_cons ht
  have hafter : todo = after false := by
    rcases hrest.mem_before List.mem_cons_self with hbefore | ⟨-, heq⟩
    · simp [before, Op.start] at hbefore
    · exact heq
  have hwaits := hn.waits false
  have hload : Op.load.awaits = 0 := rfl
  rw [ht, awaits_cons, hload, hafter, awaits_eq, Bool.not_false] at hwaits
  exact Placement.describes_load ((hexchange hmem).received (by omega))

theorem Agreed.perform (h : s.Agreed P) {o : Op} {todo : List Op} {me : Chan}
    (ht : (s.party x).todo = o :: todo) (hp : (s.party x).chan.Performs o me) :
    (s.setParty x { s.party x with todo, chan := me }).Agreed P := by
  have hside := h.sides x
  have hof := hside.of ht
  have hinv := hside.perform ht hp fun hload => by
    subst hload
    obtain rfl : x = false := hof
    exact h.describes_load ht
  have hsame := Party.Same.perform hside.placed ht hp
  have hmem : o ≠ exchanged x → (exchanged x ∈ todo ↔ exchanged x ∈ (s.party x).todo) := by
    intro ho
    rw [ht]
    exact exchanged_mem_tail ho
  cases hp with
  | post hpost =>
    refine h.setParty hinv hsame (hmem ?_) rfl fun _ r hr data hdata => ?_
    · rintro rfl
      cases x <;> cases hpost
    · rcases List.mem_append.1 hr with hr | hr
      · exact hr
      · rw [List.mem_singleton.1 hr] at hdata
        cases hdata
  | recv hr =>
    refine h.setParty hinv hsame (hmem ?_) rfl fun _ _ hr _ _ => hr
    rintro rfl
    cases x <;> cases hr
  | last hl =>
    refine h.setParty hinv hsame (hmem ?_) rfl fun _ _ hr _ _ => hr
    cases x <;> exact fun heq => by cases heq
  | @fill first hf =>
    obtain rfl : x = true := hof
    obtain ⟨n, hn, hexchange⟩ := h.messages
    refine ⟨forall_setParty h.sides hinv, n, hn.setParty hsame, fun hearly => ?_⟩
    rw [setParty_server] at hearly
    have hs := hexchange hearly
    refine ⟨fun _ => ?_, ?_, ?_⟩
    · have hlength := (P true).length_descriptorBytes
      rw [setParty_self, hside.placed.descriptorBytes hf]
      show (ByteMem.write _ _ _).read blockSize 20 = _
      rw [← hlength, ByteMem.read_write_self]
    · rw [setParty_self]
      exact hs.fetched
    · rw [setParty_server]
      exact hs.received
  | load =>
    obtain rfl : x = false := hof
    obtain ⟨n, hn, -⟩ := h.messages
    have hnot : exchanged false ∉ todo := by
      have hrest := hside.rest_cons ht
      rcases hrest.mem_before List.mem_cons_self with hbefore | ⟨-, rfl⟩
      · simp [before, Op.start] at hbefore
      · exact exchanged_notMem_after false
    refine ⟨forall_setParty h.sides hinv, n, hn.setParty hsame, fun hearly => ?_⟩
    rw [setParty_self] at hearly
    exact absurd hearly hnot

/-- An operation that is done without the channel. -/
theorem Agreed.skip (h : s.Agreed P) {o : Op} {todo : List Op}
    (ht : (s.party x).todo = o :: todo) (hlens : o.lens = []) (hlimits : o.limits = [])
    (hwaits : o.awaits = 0) (ho : o ≠ exchanged x) :
    (s.setParty x { s.party x with todo }).Agreed P := by
  have hside := h.sides x
  have hmem : exchanged x ∈ todo ↔ exchanged x ∈ (s.party x).todo := by
    rw [ht]
    exact exchanged_mem_tail ho
  have hrest := hside.rest_cons ht
  exact h.setParty (hside.move hrest.tail hmem hside.placed (fun r hr => ⟨r, hr, rfl⟩)
    (List.Subset.refl _) rfl) (.skip ht hlens hlimits hwaits) hmem rfl fun _ _ hr _ _ => hr

theorem Agreed.take (h : s.Agreed P) {o : Op} {todo os : List Op} {wc : Wc} {cq : List Wc}
    (ht : (s.party x).todo = o :: todo) (hq : (s.party x).cq = wc :: cq) (hok : o.Takes wc os) :
    (s.setParty x { s.party x with todo := os ++ todo, cq }).Agreed P := by
  have hside := h.sides x
  have hmem : exchanged x ∈ os ++ todo ↔ exchanged x ∈ (s.party x).todo := by
    rw [ht]
    exact hok.exchanged_mem x todo
  have hrest := hside.rest_cons ht
  exact h.setParty (hside.move (take_rest hrest hok) hmem hside.placed
    (fun r hr => ⟨r, hr, rfl⟩) (List.Subset.refl _) rfl) (.take ht hq hok) hmem rfl
    fun _ _ hr _ _ => hr

theorem Agreed.confirm (h : s.Agreed P) {index confirmed k : ℕ} {ring : Bool} {todo : List Op}
    {me : Chan} (ht : (s.party x).todo = .confirm index confirmed ring :: todo)
    (hok : (s.party x).chan.confirmAll ring ((s.party x).cq.take k) = .ok me)
    (hrest : Rest x (.confirm (index + 1) (confirmed + k) ring :: todo)) :
    (s.setParty x { s.party x with
      todo := .confirm (index + 1) (confirmed + k) ring :: todo
      cq := (s.party x).cq.drop k
      chan := me }).Agreed P := by
  have hside := h.sides x
  have hmem : exchanged x ∈ .confirm (index + 1) (confirmed + k) ring :: todo ↔
      exchanged x ∈ (s.party x).todo := by
    rw [ht]
    cases x <;> simp [exchanged]
  have hsent := confirmAll_sent hok
  obtain ⟨buffer, rfl, hbuffer⟩ := confirmAll_eq hok
  refine h.setParty (hside.move hrest hmem ⟨hbuffer hside.placed.buffer, hside.placed.rkey⟩
    (fun r hr => ⟨r, hr, rfl⟩) (List.Subset.refl _) rfl) ⟨?_, ?_, ?_⟩ hmem rfl
    fun _ _ hr _ _ => hr
  · rw [Party.lens, Party.lens, ht]
    rfl
  · rw [Party.limits, Party.limits, ht]
    rfl
  · have hcq := congrArg (List.countP fun wc => wc.ofSq = false)
      (List.take_append_drop k (s.party x).cq)
    rw [List.countP_append, hsent, Nat.zero_add] at hcq
    rw [ht]
    show awaits (.confirm (index + 1) (confirmed + k) ring :: todo) + (s.party x).reported false =
      awaits (.confirm index confirmed ring :: todo) +
        ((s.party x).cq.drop k).countP fun wc => wc.ofSq = false
    rw [hcq, awaits_cons, awaits_cons]
    rfl

theorem Agreed.report (h : s.Agreed P) (k : Kind) (acks : List Kind) :
    (s.setParty x { s.party x with
      cq := (s.party x).cq ++ [.sent k], chan := { (s.party x).chan with acks } }).Agreed P := by
  have hside := h.sides x
  have hcq : Party.reported { s.party x with
      cq := (s.party x).cq ++ [.sent k], chan := { (s.party x).chan with acks } } false =
        (s.party x).reported false := by
    rw [Party.reported, List.countP_append]
    rfl
  refine h.setParty (hside.move hside.rest Iff.rfl ⟨hside.placed.buffer, hside.placed.rkey⟩
    (fun r hr => ⟨r, hr, rfl⟩) (List.Subset.refl _) rfl) ⟨rfl, rfl, ?_⟩ Iff.rfl rfl
    fun _ _ hr _ _ => hr
  rw [hcq]

theorem Agreed.setSynced (h : s.Agreed P) (k : ℕ) : (s.setSynced x k).Agreed P where
  sides := h.sides
  messages := by
    obtain ⟨n, hn, hexchange⟩ := h.messages
    exact ⟨n, ⟨hn.lens, hn.limits, hn.waits⟩, fun hmem =>
      ⟨(hexchange hmem).filled, (hexchange hmem).fetched, (hexchange hmem).received⟩⟩

theorem Agreed.fetch (h : s.Agreed P) {j : ℕ} {r : Request}
    (hj : (s.party x).chan.sq[j]? = some ⟨r, none⟩) :
    (s.setParty x { s.party x with
      chan := { (s.party x).chan with
        sq := (s.party x).chan.sq.set j
          ⟨r, some ((s.party x).chan.mem.read (r.block * blockSize) r.len)⟩ } }).Agreed P := by
  have hside := h.sides x
  have hsq : ∀ q ∈ (s.party x).chan.sq.set j
      ⟨r, some ((s.party x).chan.mem.read (r.block * blockSize) r.len)⟩,
      q ∈ (s.party x).chan.sq ∨
        q = ⟨r, some ((s.party x).chan.mem.read (r.block * blockSize) r.len)⟩ :=
    fun q hq => List.mem_or_eq_of_mem_set hq
  have hinv : Party.Inv P x { s.party x with
      chan := { (s.party x).chan with
        sq := (s.party x).chan.sq.set j
          ⟨r, some ((s.party x).chan.mem.read (r.block * blockSize) r.len)⟩ } } := by
    refine hside.move hside.rest Iff.rfl ⟨hside.placed.buffer, hside.placed.rkey⟩
      (fun q hq => ?_) (List.Subset.refl _) rfl
    rcases hsq q hq with hq | rfl
    · exact ⟨q, hq, rfl⟩
    · exact ⟨_, List.mem_of_getElem? hj, rfl⟩
  cases x with
  | false => exact h.setParty hinv (.fetch hj) Iff.rfl rfl fun hx => by cases hx
  | true =>
    obtain ⟨n, hn, hexchange⟩ := h.messages
    refine ⟨forall_setParty h.sides hinv, n, hn.setParty (.fetch hj), fun hearly => ?_⟩
    rw [← Bool.not_true, setParty_not] at hearly
    have hs := hexchange hearly
    obtain ⟨⟨tag, hr⟩, hfill⟩ := h.answer hn hearly (List.mem_of_getElem? hj)
    obtain rfl : r = .send 1 64 tag := hr
    refine ⟨?_, ?_, ?_⟩
    · rw [setParty_self]
      exact hs.filled
    · rw [setParty_self]
      intro q hq data hdata
      rcases hsq q hq with hq | rfl
      · exact hs.fetched q hq data hdata
      · obtain rfl := Option.some.inj hdata
        have hfilled := hs.filled hfill
        rw [← ByteMem.take_read _ _ (show 20 ≤ 64 by decide)] at hfilled
        show _ <+: (s.party true).chan.mem.read (1 * blockSize) 64
        rw [Nat.one_mul, ← hfilled]
        exact List.take_prefix ..
    · rw [← Bool.not_true, setParty_not]
      exact hs.received

/-- The oldest request of a side is delivered. -/
theorem Agreed.sent_inv (h : s.Agreed P) {r : Posted} {sq : List Posted}
    (hq : (s.party x).chan.sq = r :: sq) (acks : List Kind) (mem : ByteMem) :
    Party.Inv P x { s.party x with chan := { (s.party x).chan with sq, acks, mem } } := by
  have hside := h.sides x
  refine hside.move hside.rest Iff.rfl ⟨hside.placed.buffer, hside.placed.rkey⟩ (fun q hin => ?_)
    (List.Subset.refl _) rfl
  exact ⟨q, hq ▸ List.mem_cons_of_mem r hin, rfl⟩

/-- A request reaches the other side. -/
theorem Agreed.reached_inv (h : s.Agreed P) {rq : List (ℕ × ℕ)} (hrq : rq ⊆ (s.party x).chan.rq)
    (cq : List Wc) (mem : ByteMem) :
    Party.Inv P x { s.party x with cq, chan := { (s.party x).chan with rq, mem } } := by
  have hside := h.sides x
  exact hside.move hside.rest Iff.rfl ⟨hside.placed.buffer, hside.placed.rkey⟩
    (fun q hin => ⟨q, hin, rfl⟩) hrq rfl

/-- Only the client, once it has read the descriptor, posts writes and reads. -/
theorem Agreed.late (h : s.Agreed P) {r : Posted} (hr : r ∈ (s.party x).chan.sq)
    (hlens : r.request.lens = []) : x = false ∧ exchanged false ∉ (s.party false).todo := by
  have hof := (h.sides x).requests r hr
  cases hk : r.request with
  | send =>
    rw [hk] at hlens
    cases hlens
  | write | read =>
    rw [hk] at hof
    obtain ⟨rfl, hnot, -⟩ := hof
    exact ⟨rfl, hnot⟩

/-- A write or a read of the client is delivered. -/
theorem Agreed.oneSided (h : s.Agreed P) {r : Posted} {sq : List Posted} (acks : List Kind)
    (mem : ByteMem) (hq : (s.party x).chan.sq = r :: sq) (hlens : r.request.lens = []) :
    (s.setParty x { s.party x with
      chan := { (s.party x).chan with sq, acks, mem } }).Agreed P := by
  have hinv := h.sent_inv hq acks mem
  obtain ⟨rfl, hnot⟩ := h.late (hq ▸ List.mem_cons_self) hlens
  obtain ⟨n, hn, -⟩ := h.messages
  refine ⟨forall_setParty h.sides hinv, n, hn.setParty ⟨?_, rfl, rfl⟩, fun hearly => ?_⟩
  · simp only [Party.lens, hq, List.flatMap_cons, hlens, List.nil_append]
  · rw [setParty_self] at hearly
    exact absurd hearly hnot

/-- A write of the client changes the memory of the other side. -/
theorem Agreed.written (h : s.Agreed P) (hnot : exchanged false ∉ (s.party false).todo)
    (mem : ByteMem) :
    (s.setParty x { s.party x with chan := { (s.party x).chan with mem } }).Agreed P := by
  obtain ⟨n, hn, -⟩ := h.messages
  refine ⟨forall_setParty h.sides (h.reached_inv (List.Subset.refl _) _ _), n,
    hn.setParty ⟨rfl, rfl, rfl⟩, fun hearly => ?_⟩
  cases x with
  | false =>
    rw [setParty_self] at hearly
    exact absurd hearly hnot
  | true =>
    rw [← Bool.not_true, setParty_not] at hearly
    exact absurd hearly hnot

theorem Agreed.message (h : s.Agreed P) {b len i limit : ℕ} {tag : MessageforTest}
    {data : List UInt8} {sq : List Posted} {rq : List (ℕ × ℕ)} {mem : ByteMem} (acks : List Kind)
    (hq : (s.party x).chan.sq = ⟨.send b len tag, some data⟩ :: sq)
    (hr : (s.party (!x)).chan.rq = (i, limit) :: rq)
    (hmem : mem = (s.party (!x)).chan.mem.write (i * blockSize) data) :
    ((s.setParty x { s.party x with chan := { (s.party x).chan with sq, acks } }).setParty (!x)
      { s.party (!x) with
        cq := (s.party (!x)).cq ++ [.recv tag]
        chan := { (s.party (!x)).chan with rq, mem } }).Agreed P := by
  obtain ⟨n, hn, hexchange⟩ := h.messages
  have hrq : rq ⊆ (s.party (!x)).chan.rq := by
    rw [hr]
    exact List.subset_cons_self ..
  refine ⟨forall_setParty (forall_setParty h.sides (h.sent_inv hq _ _)) (h.reached_inv hrq _ _),
    _, hn.message hq hr acks _, fun hearly => ?_⟩
  have hposted : 0 < ((s.party x).chan.sq.flatMap (·.request.lens)).length := by
    rw [hq, List.flatMap_cons, List.length_append]
    exact Nat.lt_of_lt_of_le Nat.one_pos (Nat.le_add_right 1 _)
  cases x with
  | true =>
    have hclient : ∀ (t : State) q, (t.setParty (!true) q).party false = q :=
      fun t q => t.setParty_self (!true) q
    rw [hclient] at hearly
    have hs := hexchange hearly
    have hdata := hs.fetched _ (hq ▸ List.mem_cons_self) data rfl
    refine ⟨?_, ?_, fun _ => ?_⟩
    · rw [setParty_of_not, setParty_self]
      exact hs.filled
    · rw [setParty_of_not, setParty_self]
      exact fun r hr => hs.fetched r (hq ▸ List.mem_cons_of_mem _ hr)
    · have hi : i = 0 := (h.sides (!true)).receives rfl _ (hr ▸ List.mem_cons_self)
      have hlength := (P true).length_descriptorBytes
      rw [hclient]
      show mem.read 0 20 = _
      rw [hmem, hi, Nat.zero_mul, ← hlength, ByteMem.read_write _ _ _ hdata.length_le]
      exact (List.prefix_iff_eq_take.1 hdata).symm
  | false =>
    have hserver : ∀ (t : State) q, (t.setParty (!false) q).party true = q :=
      fun t q => t.setParty_self (!false) q
    rw [setParty_of_not, setParty_self] at hearly
    have hs := hexchange hearly
    have hnone := h.early hn hearly false
    refine ⟨fun hfill => ?_, ?_, ?_⟩
    · -- the server has received the request before
      rw [hserver] at hfill
      have hlt := (h.sides true).rest.awaits_lt hfill
      have hwaits := hn.waits true
      rw [Bool.not_true] at hwaits
      omega
    · rw [hserver]
      exact hs.fetched
    · rw [setParty_of_not, setParty_self, Function.update_of_ne (by decide)]
      exact hs.received

/-- **A step without failures** keeps what the two sides agree on. -/
theorem Step.agreed {a : Act} (h : s.Agreed P) (hs : Step s a s')
    (hrest : ∀ y, Rest y (s'.party y).todo) :
    s'.Agreed P := by
  cases hs with
  | perform ht hp => exact h.perform ht hp
  | @syncSend x todo ht =>
    exact (h.skip ht rfl rfl rfl (by cases x <;> exact fun heq => by cases heq)).setSynced _
  | @syncRecv x todo ht hpos =>
    exact (h.skip ht rfl rfl rfl (by cases x <;> exact fun heq => by cases heq)).setSynced _
  | take ht ho hq hok => exact h.take ht hq (Op.takes ho hok)
  | @confirmed x index ring todo ht =>
    exact h.skip ht rfl rfl rfl (by cases x <;> exact fun heq => by cases heq)
  | @confirm x index confirmed k ring todo me ht hc hk hle hok =>
    have hx := hrest x
    rw [setParty_self] at hx
    exact h.confirm ht hok hx
  | fetch hj => exact h.fetch hj
  | message hq hr hle => exact h.message _ hq hr rfl
  | @write x b len a d data sq hq ha =>
    have hlate := h.late (hq ▸ List.mem_cons_self) rfl
    have hfirst := h.oneSided ((s.party x).chan.acks ++ [.write]) (s.party x).chan.mem hq rfl
    have hsecond := hfirst.written (x := !x) ?_ ((s.party (!x)).chan.mem.write a data)
    · rw [setParty_not] at hsecond
      exact hsecond
    · obtain ⟨rfl, hnot⟩ := hlate
      rw [setParty_self]
      exact hnot
  | read hq ha => exact h.oneSided _ _ hq rfl
  | report ha => exact h.report _ _

end State

end Benchmark

end RdmaCore

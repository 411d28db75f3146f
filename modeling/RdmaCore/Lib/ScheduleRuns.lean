/-
  Runs of the two programs of a schedule.

  * `Follows.step`: the two programs follow the schedule in every run;
  * `Follows.expected`: an end meets only completions that it waits for, unless
    a message has overtaken a report (`Overtaken`);
  * `Follows.progress`: a run is not stuck before both programs are done, unless
    a message has overtaken a report; there is a step after which none has
    (`Prompt`, `Follows.acks_ne_nil`);
  * `Follows.sendRoom`, `Follows.recvRoom`: the queues have room.
-/
import RdmaCore.Lib.Schedule

open Conduit

namespace Script

open Balance

variable {K : Type}

/-- The two ends are at places of the schedule `G`. -/
structure Follows (N : Net K) (G : List (Bool × Op K)) (past : Bool → Past K)
    (s : State (Op K) K) : Prop where
  history : History N past s
  place : ∀ x, Place N G x (past x) (s.side x).todo

section
variable {N : Net K}

theorem Past.stamps_of (d : List (Op K)) :
    (Past.of N d).stamps.length = ((Past.of N d).messages N).length := by
  induction d using List.reverseRecOn with
  | nil => rfl
  | append_singleton d o ih =>
    rw [Past.of_concat]
    cases o with
    | post k => by_cases hk : N.message k <;> simpa [Past.add, Past.messages, hk] using ih
    | _ => exact ih

theorem Past.receiveds_of_append (d d' : List (Op K)) :
    (Past.of N (d ++ d')).receiveds = (Past.of N d).receiveds ++ receivedBy d' := by
  rw [Past.of_append]
  generalize Past.of N d = p
  induction d' generalizing p with
  | nil => simp [receivedBy]
  | cons o d' ih =>
    rw [List.foldl_cons, ih]
    cases o <;> simp [Past.add, receivedBy]

/-- The first message of the operations `d'`. -/
theorem exists_message {d d' : List (Op K)}
    (h : ((Past.of N d).messages N).length < ((Past.of N (d ++ d')).messages N).length) :
    ∃ d₁ m d₂, d' = d₁ ++ .post m :: d₂ ∧ N.message m = true ∧
      (∀ k, .post k ∈ d₁ → N.message k = false) ∧
      (Past.of N (d ++ d₁)).messages N = (Past.of N d).messages N := by
  induction d' generalizing d with
  | nil => rw [List.append_nil] at h; exact absurd h (lt_irrefl _)
  | cons o d' ih =>
    by_cases ho : ∃ m, o = .post m ∧ N.message m = true
    · obtain ⟨m, rfl, hm⟩ := ho
      exact ⟨[], m, d', rfl, hm, fun k hk => absurd hk List.not_mem_nil, by rw [List.append_nil]⟩
    · have hmsg : (Past.of N (d ++ [o])).messages N = (Past.of N d).messages N := by
        rw [Past.of_concat]
        cases o with
        | post m =>
          have hm : N.message m = false := by simpa using fun hm => ho ⟨m, rfl, hm⟩
          simp [Past.messages, Past.add, hm]
        | _ => rfl
      rw [List.append_cons] at h
      obtain ⟨d₁, m, d₂, rfl, hm, hd₁, hd⟩ := ih (by rwa [hmsg])
      refine ⟨o :: d₁, m, d₂, rfl, hm, fun k hk => ?_, ?_⟩
      · rcases List.mem_cons.1 hk with rfl | hk
        · simpa using fun hm => ho ⟨k, rfl, hm⟩
        · exact hd₁ k hk
      · rw [List.append_cons, hd, hmsg]

/-- The message that is posted after the operations `d`, and its stamp. -/
theorem getElem?_of_post (d d' : List (Op K)) {m : K} (hm : N.message m = true) :
    ((Past.of N (d ++ .post m :: d')).messages N)[((Past.of N d).messages N).length]? = some m ∧
      (Past.of N (d ++ .post m :: d')).stamps[((Past.of N d).messages N).length]? =
        some (Past.of N d).receiveds.length := by
  have hbefore := Past.before_of_append (N := N) (d ++ [.post m]) d'
  rw [← List.append_cons, Past.of_concat] at hbefore
  obtain ⟨r, hr⟩ := hbefore.messages N
  obtain ⟨r', hr'⟩ := hbefore.stamps
  rw [← hr, ← hr']
  constructor
  · simp [Past.add, Past.messages, hm]
  · rw [← Past.stamps_of]
    simp [Past.add, hm]

theorem getElem?_earlier {α : Type} {l L : List α} {i : ℕ} {a : α} (h : l <+: L)
    (hi : i < l.length) (ha : L[i]? = some a) : l[i]? = some a := by
  obtain ⟨r, rfl⟩ := h
  rwa [List.getElem?_append_left hi] at ha

/-- Two continuations of one list. -/
theorem head_unique {α : Type} {l l₁ l₂ L : List α} {a b : α} (h₁ : l ++ a :: l₁ <+: L)
    (h₂ : l ++ b :: l₂ <+: L) : a = b := by
  obtain ⟨r₁, rfl⟩ := h₁
  obtain ⟨r₂, h₂⟩ := h₂
  rw [List.append_assoc, List.append_assoc] at h₂
  exact (List.cons.inj (List.append_cancel_left h₂)).1.symm

theorem eq_nil_of_sents_receiveds {cs : List (Completion K)} (hs : sents cs = [])
    (hr : receiveds cs = []) : cs = [] := by
  cases cs with
  | nil => rfl
  | cons c cs => cases c <;> simp at hs hr

/-! ## Completions that are waited for -/

variable {G : List (Bool × Op K)} {past : Bool → Past K} {s s' : State (Op K) K}
  {lab : Label (Op K) K} {x : Bool} {cs cq : List (Completion K)} {t : List (Op K)}
  {c : Completion K}

/-- The balances before the operation of a schedule that an end has come to. -/
theorem check_at {pre post : List (Bool × Op K)} {o : Op K}
    (hG : Check N (fun _ => {}) (pre ++ (x, o) :: post)) :
    ∃ τ, Agrees N (fun y => Past.of N (project y pre)) τ ∧ (τ x).Ok N (τ (!x)) o ∧
      Check N (Balance.next N τ (x, o)) post := by
  obtain ⟨hpre, hok, hpost⟩ := check_append.1 hG
  exact ⟨_, agrees_of_check hpre, hok, hpost⟩

/-- A waiting end: what is left of its wait, and how it stands to the schedule. -/
structure Waiting (N : Net K) (G : List (Bool × Op K)) (p : Past K) (x : Bool)
    (cs : List (Completion K)) where
  pre : List (Bool × Op K)
  post : List (Bool × Op K)
  cs' : List (Completion K)
  τ : Bool → Balance K
  split : G = pre ++ (x, .await cs') :: post
  agrees : Agrees N (fun y => Past.of N (project y pre)) τ
  ok : (τ x).Ok N (τ (!x)) (.await cs')
  check : Check N (Balance.next N τ (x, .await cs')) post
  ne : cs ≠ []
  past_posts : p.posts = (Past.of N (project x pre)).posts
  past_recvs : p.recvs = (Past.of N (project x pre)).recvs
  sents_ne : sents cs ≠ [] → sents cs' ≠ []
  mem : ∀ k ∈ sents cs, k ∈ sents cs'
  posts : p.posts = p.sents ++ sents cs
  messages : (Past.of N (project (!x) pre)).messages N = p.receiveds ++ receiveds cs

theorem exists_waiting {p : Past K} {pre post : List (Bool × Op K)} {cs' l : List (Completion K)}
    (hG : Check N (fun _ => {}) G) (hsplit : G = pre ++ (x, .await cs') :: post)
    (hp : p = (Past.of N (project x pre)).add N (.await l))
    (hs : sents l ++ sents cs = sents cs') (hr : receiveds l ++ receiveds cs = receiveds cs')
    (hne : cs' ≠ [] → cs ≠ []) : ∃ w : Waiting N G p x cs, w.pre = pre := by
  obtain ⟨τ, hagrees, hok, hcheck⟩ := check_at (hsplit ▸ hG)
  have hposts : (Past.of N (project x pre)).posts =
      (Past.of N (project x pre)).sents ++ (τ x).out := hagrees.posts x
  have hmessages := hagrees.messages (!x)
  rw [Bool.not_not] at hmessages
  refine ⟨⟨pre, post, cs', τ, hsplit, hagrees, hok, hcheck, hne hok.1, by rw [hp]; rfl,
    by rw [hp]; rfl, fun hcs he => ?_, fun k hk => ?_, ?_, ?_⟩, rfl⟩
  · rw [he] at hs
    exact hcs (List.append_eq_nil_iff.1 hs).2
  · rw [← hs]
    exact List.mem_append_right _ hk
  · rw [hp]
    simp only [Past.add]
    rw [hposts, ← hok.2.1, ← hs, List.append_assoc]
  · rw [hp, hmessages, ← hok.2.2.1, ← hr, ← List.append_assoc]
    rfl

theorem Follows.waiting (hG : Check N (fun _ => {}) G) (h : Follows N G past s)
    (ht : (s.side x).todo = .await cs :: t) : Nonempty (Waiting N G (past x) x cs) := by
  obtain ⟨pre, post, cs', l, hsplit, hp, -, hs, hr, hne⟩ := (ht ▸ h.place x).await
  obtain ⟨w, -⟩ := exists_waiting hG hsplit hp hs hr hne
  exact ⟨w⟩

/-- A message that comes while its receiver waits for reports only is early, and its
    sender has received all messages of the receiver. -/
theorem Follows.early_of_received {k : K} {l l' : List (Completion K)} (h : Follows N G past s)
    (w : Waiting N G (past x) x cs) (hq : (s.side x).cq = l ++ .received k :: l')
    (hl : receiveds l = []) (hr : receiveds cs = []) : N.early k = true ∧
      (∀ k ∈ sents cs, N.message k = true) ∧
      ∃ n, (past (!x)).stamps[(past x).receiveds.length]? = some n ∧
        ((past x).messages N).length ≤ n := by
  have hmessages := w.messages
  rw [hr, List.append_nil] at hmessages
  have hreceived := h.history.received x
  rw [hq, receiveds_append, hl, List.nil_append, receiveds_received, List.append_assoc,
    List.cons_append] at hreceived
  -- a receive is ready, so the schedule asks the sender to have received all messages
  have hready : 0 < (w.τ x).ready := by
    have hrecvs := h.history.recvs x
    have hagrees := w.agrees.recvs x
    rw [w.past_recvs, hq, receiveds_append, hl, List.nil_append, receiveds_received,
      List.length_cons] at hrecvs
    rw [hmessages] at hagrees
    omega
  have hsents : sents cs ≠ [] := fun hs => w.ne (eq_nil_of_sents_receiveds hs hr)
  have howed : (Balance.next N w.τ (x, .await w.cs') x).owed = some (w.τ x).transit.length := by
    rw [next_self]
    exact if_pos ⟨hready, w.sents_ne hsents⟩
  -- the message is the first that the sender posts after this wait
  have hbefore := (h.place (!x)).before (N := N)
  have hproject : project (!x) G = project (!x) w.pre ++ project (!x) w.post := by
    conv_lhs => rw [w.split]
    rw [project_append, project_not_cons]
  have hlt : ((Past.of N (project (!x) w.pre)).messages N).length <
      ((Past.of N (project (!x) w.pre ++ project (!x) w.post)).messages N).length := by
    have hle := (hbefore.messages N).length_le
    rw [← hreceived, hproject, List.length_append, List.length_cons] at hle
    rw [hmessages]
    omega
  obtain ⟨d₁, m, d₂, hd, hm, hd₁, hsame⟩ := exists_message hlt
  obtain ⟨mid, post, hpost, rfl, -⟩ := exists_of_project hd
  have hcheck := w.check
  rw [hpost] at hcheck
  obtain ⟨hmid, hok, -⟩ := check_append.1 hcheck
  obtain ⟨n, hn, hle⟩ := owed_foldl ((w.agrees.owed x).next w.ok) hmid hd₁ howed
  obtain ⟨-, howed'⟩ := hok.2 hm
  rw [Bool.not_not, hn] at howed'
  obtain ⟨rfl, hearly⟩ : n = 0 ∧ N.early m = true := by simpa using howed'
  rw [Nat.zero_add] at hle
  obtain ⟨hget, hstamp⟩ := getElem?_of_post (N := N) (project (!x) w.pre ++ project (!x) mid) d₂ hm
  rw [List.append_assoc, ← hd, ← hproject, hsame, hmessages] at hget hstamp
  have hi : (past x).receiveds.length < ((past (!x)).messages N).length := by
    rw [← hreceived, List.length_append, List.length_cons]
    omega
  have hkm := getElem?_earlier (hbefore.messages N) hi hget
  rw [← hreceived, List.getElem?_append_right le_rfl, Nat.sub_self] at hkm
  obtain rfl : k = m := by simpa using hkm
  refine ⟨hearly, fun k hk => w.ok.2.2.2 hready k (w.mem k hk), _,
    getElem?_earlier hbefore.stamps (by rw [h.history.stamps]; exact hi) hstamp, ?_⟩
  have hout := congrArg List.length (w.agrees.messages x)
  rw [List.length_append] at hout
  rw [Past.receiveds_of_append, List.length_append, Past.messages, w.past_posts]
  simp only [Past.messages] at hout
  omega

/-- The messages of an end that have not been delivered, when a message has come before the
    reports that it waits for. -/
theorem Follows.messages_eq_nil {k : K} (h : Follows N G past s) (w : Waiting N G (past x) x cs)
    (hq : (s.side x).cq = .received k :: cq) (hr : receiveds cs = []) :
    (s.side x).sq.filter N.message = [] := by
  obtain ⟨-, -, n, hstamp, hle⟩ := h.early_of_received (l := []) w hq rfl hr
  have hn := h.history.stamp (!x) n (List.mem_of_getElem? hstamp)
  have hreceived := congrArg List.length (h.history.received (!x))
  rw [Bool.not_not, List.length_append, List.length_append] at hreceived
  exact List.length_eq_zero_iff.1 (by omega)

/-- A message that comes first before the reports that its receiver waits for comes before
    some of its requests are reported. -/
theorem Follows.acks_ne_nil {k : K} (h : Follows N G past s) (w : Waiting N G (past x) x cs)
    (hq : (s.side x).cq = [.received k]) (hr : receiveds cs = []) : (s.side x).acks ≠ [] := by
  intro hacks
  have hmessage := (h.early_of_received (l := []) w hq rfl hr).2.1
  have hsq := h.messages_eq_nil w hq hr
  have hsent := h.history.sent x
  rw [w.posts, hq, hacks, sents_received, sents_nil, List.append_nil, List.append_nil] at hsent
  rw [List.append_cancel_left hsent, List.filter_eq_self.2 hmessage] at hsq
  exact w.ne (eq_nil_of_sents_receiveds hsq hr)

theorem mem_of_mem_posts {k : K} {d : List (Op K)} (h : k ∈ (Past.of N d).posts) : .post k ∈ d := by
  induction d using List.reverseRecOn with
  | nil => exact absurd h List.not_mem_nil
  | append_singleton d o ih =>
    rw [Past.of_concat] at h
    cases o with
    | post m =>
      rcases List.mem_append.1 h with h | h
      · exact List.mem_append_left _ (ih h)
      · rw [List.mem_singleton.1 h]
        exact List.mem_append_right _ List.mem_cons_self
    | _ => exact List.mem_append_left _ (ih h)

/-- An end that waits for reports only has no other completions, as long as no early
    message is sent to it. -/
theorem Follows.cq_of_sents (h : Follows N G past s) (w : Waiting N G (past x) x cs)
    (hr : receiveds cs = [])
    (hearly : ∀ k, .post k ∈ project (!x) G → N.early k = false) :
    receiveds (s.side x).cq = [] ∧ sents (s.side x).cq <+: sents cs := by
  constructor
  · cases hk : receiveds (s.side x).cq with
    | nil => rfl
    | cons k r =>
      obtain ⟨l, c, l', hq, hl, hc, -⟩ := List.filterMap_eq_cons_iff.1 hk
      obtain rfl : c = .received k := by cases c <;> simp_all
      have hl : receiveds l = [] := List.filterMap_eq_nil_iff.2 hl
      have hmem : k ∈ (past (!x)).messages N := by
        rw [← h.history.received x, hk]
        simp
      have hpost := mem_of_mem_posts
        ((h.place (!x)).before.posts.subset (List.mem_of_mem_filter hmem))
      have hk := (h.early_of_received w hq hl hr).1
      rw [hearly k hpost] at hk
      cases hk
  · have hsent := h.history.sent x
    rw [w.posts, List.append_assoc, List.append_assoc] at hsent
    exact ⟨_, List.append_cancel_left hsent⟩

/-- A message has come before the reports that end `x` waits for. -/
def Overtaken (s : State (Op K) K) (x : Bool) : Prop :=
  ∃ cs t k cq, (s.side x).todo = .await cs :: t ∧ receiveds cs = [] ∧
    (s.side x).cq = .received k :: cq

/-- **An end meets only completions that it waits for**, if it waits for messages or meets
    a report. -/
theorem Follows.expected (hG : Check N (fun _ => {}) G) (h : Follows N G past s)
    (ht : (s.side x).todo = .await cs :: t) (hq : (s.side x).cq = c :: cq)
    (hc : ∀ k, c = .received k → receiveds cs ≠ []) : First cs c := by
  obtain ⟨w⟩ := h.waiting hG ht
  cases c with
  | sent k =>
    have hsent := h.history.sent x
    rw [w.posts, hq, sents_sent, List.append_assoc, List.append_assoc] at hsent
    exact ⟨_, (List.append_cancel_left hsent).symm⟩
  | received k =>
    have hreceived := h.history.received x
    rw [hq, receiveds_received, List.append_assoc, List.cons_append] at hreceived
    obtain ⟨m, r, hr⟩ := List.exists_cons_of_ne_nil (hc k rfl)
    refine ⟨r, ?_⟩
    have h₁ := (h.place (!x)).before.messages N
    rw [← hreceived] at h₁
    have h₂ := (Past.before_of_append (N := N) (project (!x) w.pre)
      (project (!x) ((x, .await w.cs') :: w.post))).messages N
    rw [← project_append, ← w.split, w.messages, hr] at h₂
    rw [head_unique h₁ h₂]
    exact hr

theorem Follows.expected_of_not_overtaken (hG : Check N (fun _ => {}) G) (h : Follows N G past s)
    (ht : (s.side x).todo = .await cs :: t) (hq : (s.side x).cq = c :: cq)
    (ho : ¬Overtaken s x) : First cs c :=
  h.expected hG ht hq fun k hk hr => ho ⟨cs, t, k, cq, ht, hr, hk ▸ hq⟩

/-- A message that is waited for. -/
theorem receiveds_ne_nil {k : K} (h : .received k ∈ cs) : receiveds cs ≠ [] :=
  List.ne_nil_of_mem (List.mem_filterMap.2 ⟨_, h, rfl⟩)

/-! ## Steps -/

section
variable [DecidableEq K]

/-- **The two programs follow the schedule** in every step. -/
theorem Follows.step (hG : Check N (fun _ => {}) G) (h : Follows N G past s)
    (hs : Step (program N) s lab s') : Follows N G (record N past lab) s' := by
  refine ⟨h.history.step hs, fun x => ?_⟩
  have hplace := h.place
  cases hs with
  | @op y o todo ht hw hpoll =>
    rcases eq_or_eq_not x y with rfl | rfl
    · rw [record_op]
      have hop := (ht ▸ hplace x).op fun cs ho => hpoll (by rw [ho]; rfl)
      cases o with
      | await cs => exact absurd rfl hpoll
      | _ => simpa [program, Op.effect, State.apply] using hop
    · rw [record_op_not]
      cases o with
      | await cs => exact absurd rfl hpoll
      | _ => simpa [program, Op.effect, State.apply] using hplace (!y)
  | @handle y c cq todo hq hh =>
    rcases eq_or_eq_not x y with rfl | rfl
    · obtain ⟨cs, t, ht, hc, rfl⟩ := hh
      rw [record_handle, State.set_side_self]
      exact (ht ▸ hplace x).take (h.expected hG ht hq fun k hk => receiveds_ne_nil (hk ▸ hc))
    · rw [record_handle_not, State.set_side_not]
      exact hplace _
  | @message y k sq hq hk hr =>
    rcases eq_or_eq_not x y with rfl | rfl
    · simpa [record, did] using hplace x
    · simpa [record, did] using hplace (!y)
  | @oneSided y k sq hq hk =>
    rcases eq_or_eq_not x y with rfl | rfl
    · simpa [record, did] using hplace x
    · simpa [record, did] using hplace (!y)
  | @report y k acks ha =>
    rcases eq_or_eq_not x y with rfl | rfl
    · simpa [record, did] using hplace x
    · simpa [record, did] using hplace (!y)

/-- Several reports that are taken one after another. -/
theorem Follows.takes (hG : Check N (fun _ => {}) G) {l : List (Completion K)}
    (h : Follows N G past s) (ht : (s.side x).todo = wait cs ++ t)
    (hq : (s.side x).cq = l ++ cq) (hr : receiveds l = []) (hl : l.length ≤ cs.length) :
    ∃ past', Follows N G past' (s.set x { s.side x with todo := wait (cs.diff l) ++ t, cq }) := by
  induction l generalizing cs s past with
  | nil =>
    refine ⟨past, ?_⟩
    rw [List.diff_nil, ← ht, ← List.nil_append cq, ← hq, State.set_side]
    exact h
  | cons c l ih =>
    have hne : cs ≠ [] := fun hcs => by rw [hcs] at hl; exact absurd hl (Nat.not_succ_le_zero _)
    have ht' : (s.side x).todo = .await cs :: t := by rw [ht, wait, if_neg hne]; rfl
    obtain ⟨k, rfl⟩ : ∃ k, c = .sent k := by cases c <;> simp at hr ⊢
    have hc := h.expected hG ht' hq fun _ hk => by cases hk
    have hstep := h.step hG (.handle hq ⟨cs, t, ht', hc.mem, rfl⟩)
    obtain ⟨past', h'⟩ := ih hstep
      (by rw [State.set_side_self, resume_eq]) (by rw [State.set_side_self]; rfl) hr
      (by rw [List.length_erase_of_mem hc.mem]; exact Nat.le_pred_of_lt hl)
    refine ⟨past', ?_⟩
    rw [State.set_side_self, State.set_set] at h'
    rw [List.diff_cons]
    exact h'

end

/-- The two programs of a schedule at their start. -/
theorem Follows.init (G : List (Bool × Op K)) :
    Follows N G (fun _ => {}) { side := fun x => { todo := project x G } } where
  history := .init N _
  place _ := Place.of_append (List.nil_append G).symm

/-! ## Progress -/

/-- Where an end stands that has something to do. -/
structure Stands (N : Net K) (G : List (Bool × Op K)) (p : Past K) (todo : List (Op K)) (x : Bool)
    (pre : List (Bool × Op K)) : Prop where
  split : ∃ o post, G = pre ++ (x, o) :: post
  before : (Past.of N (project x pre)).Before p
  here : (∃ cs t, todo = .await cs :: t ∧ ∃ w : Waiting N G p x cs, w.pre = pre) ∨
    ∃ o t post, todo = o :: t ∧ (∀ cs, o ≠ .await cs) ∧ G = pre ++ (x, o) :: post ∧
      p = Past.of N (project x pre)

theorem Place.stands {p : Past K} {todo : List (Op K)} (hG : Check N (fun _ => {}) G)
    (h : Place N G x p todo) (hne : todo ≠ []) : ∃ pre, Stands N G p todo x pre := by
  cases h with
  | @next pre post o h =>
    refine ⟨pre, ⟨o, post, h⟩, .refl _, ?_⟩
    cases o with
    | await cs =>
      exact .inl ⟨cs, _, rfl, exists_waiting hG h (l := []) (by simp [Past.add]) rfl rfl id⟩
    | _ => exact .inr ⟨_, _, post, rfl, (fun _ => by simp), h, rfl⟩
  | @partway pre post l cs cs' h hs hr hcs =>
    exact ⟨pre, ⟨_, post, h⟩, Past.before_add .., .inl ⟨cs, _, rfl,
      exists_waiting hG h rfl hs hr fun _ => hcs⟩⟩
  | finished => exact absurd rfl hne

/-- One of two ends is behind the other. -/
theorem Follows.exists_late (hG : Check N (fun _ => {}) G) (h : Follows N G past s)
    (hne : ∃ x, (s.side x).todo ≠ []) : ∃ x pre, Stands N G (past x) (s.side x).todo x pre ∧
      (Past.of N (project (!x) pre)).Before (past (!x)) := by
  obtain ⟨x, hx⟩ := hne
  obtain ⟨pre, hstands⟩ := (h.place x).stands hG hx
  obtain ⟨o, post, hsplit⟩ := hstands.split
  by_cases hy : (s.side (!x)).todo = []
  · refine ⟨x, pre, hstands, ?_⟩
    have hplace := hy ▸ h.place (!x)
    generalize past (!x) = p at hplace
    cases hplace
    rw [hsplit, project_append]
    exact Past.before_of_append ..
  · obtain ⟨pre', hstands'⟩ := (h.place (!x)).stands hG hy
    obtain ⟨o', post', hsplit'⟩ := hstands'.split
    rcases List.append_eq_append_iff.1 (hsplit.symm.trans hsplit') with
      ⟨r, rfl, hr⟩ | ⟨r, rfl, hr⟩
    · refine ⟨x, pre, hstands, .trans ?_ hstands'.before⟩
      rw [project_append]
      exact Past.before_of_append ..
    · refine ⟨!x, pre', hstands', ?_⟩
      rw [Bool.not_not]
      refine .trans ?_ hstands.before
      rw [project_append]
      exact Past.before_of_append ..

section
variable [DecidableEq K]

/-- An early message is delivered once all requests that its receiver had delivered are
    reported. -/
def Prompt (N : Net K) (s : State (Op K) K) : Label (Op K) K → Prop
  | .deliver x k => N.message k = true → N.early k = true → (s.side (!x)).acks = []
  | _ => True

/-- Some prompt step is possible. -/
def CanStep (N : Net K) (s : State (Op K) K) : Prop :=
  ∃ lab s', Step (program N) s lab s' ∧ Prompt N s lab

theorem canStep_report {k : K} {acks : List K} (ha : (s.side x).acks = k :: acks) : CanStep N s :=
  ⟨_, _, .report ha, trivial⟩

/-- A request that is posted can be delivered, once its receiver's requests are reported. -/
theorem canStep_deliver {k : K} {sq : List K} (hq : (s.side x).sq = k :: sq)
    (hr : N.message k = true → 0 < (s.side (!x)).rq) : CanStep N s := by
  cases hk : N.message k with
  | true =>
    cases ha : (s.side (!x)).acks with
    | nil => exact ⟨_, _, .message hq hk (hr hk), fun _ _ => ha⟩
    | cons k' acks => exact canStep_report ha
  | false => exact ⟨_, _, .oneSided hq hk, fun hk' => absurd hk' (by rw [hk]; decide)⟩

/-- A wait of the end that is behind can go on. -/
theorem Follows.canStep_await (hG : Check N (fun _ => {}) G) (h : Follows N G past s)
    (ht : (s.side x).todo = .await cs :: t) (w : Waiting N G (past x) x cs)
    (hlate : (Past.of N (project (!x) w.pre)).Before (past (!x))) (ho : ¬Overtaken s x) :
    CanStep N s := by
  have hsent := h.history.sent x
  have hreceived := h.history.received x
  have hreceived' := congrArg List.length (h.history.received (!x))
  have hrecvs := h.history.recvs x
  have hrecvs' := h.history.recvs (!x)
  have hagrees := w.agrees.recvs x
  have hagrees' := w.agrees.recvs (!x)
  rw [Bool.not_not] at hreceived' hagrees'
  have hmessages := (hlate.messages N).length_le
  have hle := hlate.recvs
  have hposts : ((Past.of N (project x w.pre)).messages N).length =
      ((past x).messages N).length := by rw [Past.messages, Past.messages, w.past_posts]
  cases hq : (s.side x).cq with
  | cons c cq =>
    have hc := h.expected_of_not_overtaken hG ht hq ho
    exact ⟨_, _, .handle hq ⟨cs, t, ht, hc.mem, rfl⟩, trivial⟩
  | nil =>
    cases ha : (s.side x).acks with
    | cons k acks => exact canStep_report ha
    | nil =>
      rw [hq] at hsent hreceived hrecvs
      cases hsq : (s.side x).sq with
      | cons k sq =>
        refine canStep_deliver hsq fun hk => ?_
        simp only [hsq, List.filter_cons_of_pos hk, List.length_append, List.length_cons]
          at hreceived'
        omega
      | nil =>
        -- all requests are reported, so a message is waited for
        simp only [ha, hsq, sents_nil, List.append_nil] at hsent
        have hs : sents cs = [] := by
          have hposts := w.posts
          rw [← hsent] at hposts
          exact List.self_eq_append_right.1 hposts
        have hr : receiveds cs ≠ [] := fun hr => w.ne (eq_nil_of_sents_receiveds hs hr)
        have hpos := List.length_pos_iff.2 hr
        have hlen := congrArg List.length w.messages
        rw [List.length_append] at hlen
        have hlen' := congrArg List.length hreceived
        simp only [receiveds_nil, List.append_nil, List.length_append] at hlen'
        cases hsq' : (s.side (!x)).sq with
        | nil =>
          rw [hsq'] at hlen'
          simp only [List.filter_nil, List.length_nil] at hlen'
          omega
        | cons k sq =>
          refine canStep_deliver hsq' fun _ => ?_
          rw [Bool.not_not]
          rw [w.past_recvs, receiveds_nil, List.length_nil] at hrecvs
          omega

/-- **No run is stuck** before both programs are done, unless a message has overtaken a
    report. -/
theorem Follows.progress (hG : Check N (fun _ => {}) G) (h : Follows N G past s)
    (hno : ∀ x, ¬Overtaken s x) (hne : ∃ x, (s.side x).todo ≠ []) : CanStep N s := by
  obtain ⟨x, pre, hstands, hlate⟩ := h.exists_late hG hne
  rcases hstands.here with ⟨cs, t, ht, w, rfl⟩ | ⟨o, t, post, ht, ho, hsplit, hp⟩
  · exact h.canStep_await hG ht w hlate (hno x)
  · refine ⟨.op x o, _, .op ht (fun hwait => ?_) fun hpoll => ?_, trivial⟩
    · obtain ⟨τ, hagrees, hok, -⟩ := check_at (hsplit ▸ hG)
      have hsignals := h.history.signals (!x)
      have hagrees := hagrees.signals (!x)
      have hle := hlate.signals
      rw [Bool.not_not] at hsignals hagrees
      rw [← hp] at hagrees
      cases o with
      | wait =>
        have hpos : 0 < (τ (!x)).signals := hok
        omega
      | _ => cases hwait
    · cases o with
      | await cs => exact ho cs rfl
      | _ => cases hpoll

end

/-! ## Room -/

/-- **The send queue has room** for the request that an end posts next. -/
theorem Follows.sendRoom {k : K} (hG : Check N (fun _ => {}) G) (h : Follows N G past s)
    (ht : (s.side x).todo = .post k :: t) :
    (s.side x).sq.length + (s.side x).acks.length + (sents (s.side x).cq).length < N.sendRoom := by
  obtain ⟨pre, hstands⟩ := (h.place x).stands hG (by rw [ht]; exact List.cons_ne_nil _ _)
  rcases hstands.here with ⟨cs, t, ht', -⟩ | ⟨o, t, post, ht', -, hsplit, hp⟩
  · rw [ht] at ht'; cases ht'
  · rw [ht] at ht'
    cases ht'
    obtain ⟨τ, hagrees, hok, -⟩ := check_at (hsplit ▸ hG)
    have hposts := congrArg List.length (hagrees.posts x)
    have hsent := congrArg List.length (h.history.sent x)
    have hroom := hok.1
    simp only [← hp, List.length_append] at hposts hsent
    omega

/-- **The receive queue has room** for the receive that an end posts next. -/
theorem Follows.recvRoom (hG : Check N (fun _ => {}) G) (h : Follows N G past s)
    (ht : (s.side x).todo = .recv :: t) :
    (s.side x).rq + (receiveds (s.side x).cq).length < N.recvRoom := by
  obtain ⟨pre, hstands⟩ := (h.place x).stands hG (by rw [ht]; exact List.cons_ne_nil _ _)
  rcases hstands.here with ⟨cs, t, ht', -⟩ | ⟨o, t, post, ht', -, hsplit, hp⟩
  · rw [ht] at ht'; cases ht'
  · rw [ht] at ht'
    cases ht'
    obtain ⟨τ, hagrees, hok, -⟩ := check_at (hsplit ▸ hG)
    have hrecvs := hagrees.recvs x
    have hmessages := congrArg List.length (hagrees.messages (!x))
    have hhistory := h.history.recvs x
    have hroom : (τ x).ready + (τ (!x)).transit.length < N.recvRoom := hok
    rw [Bool.not_not] at hmessages
    simp only [← hp, List.length_append] at hrecvs hmessages
    omega

end

end Script

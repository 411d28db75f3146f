/-
  How a node finds its own address (`NetTool::get_ip` and `get_node_id` of
  include/util/net_util.h, called by `Derived_Config::get_local_ip`).

  The subnet test works on texts: the first address of the next block, less its
  last character, gives the length of the prefix that an address is compared
  in.

  * `inetAddr_toText`: `inet_addr` reads back what `inet_ntoa` writes;
  * `gatewayText_toText`: for a length of 24 the prefix is "a.b.c.";
  * `getIp_eq`: the address found is the last one listed in a.b.c.0/24.

  The host is little-endian; what `getifaddrs` lists is a parameter.
-/
import RdmaCore.Config
import RdmaCore.Identity
import Mathlib.Data.List.Induction

namespace RdmaCore

/-! ## Addresses -/

namespace Ipv4

/-- `s_addr`: the bytes of the address, as a word of the host -/
def word (ip : Ipv4) : UInt32 := UInt32.ofNat (leNat [ip.a, ip.b, ip.c, ip.d])

/-- The bytes of a word in memory. -/
def ofWord (w : UInt32) : Ipv4 :=
  ⟨w.toUInt8, (w >>> 8).toUInt8, (w >>> 16).toUInt8, (w >>> 24).toUInt8⟩

/-- The address whose value is `n`. -/
def ofValue (n : ℕ) : Ipv4 :=
  ⟨UInt8.ofNat (n / 2 ^ 24), UInt8.ofNat (n / 2 ^ 16), UInt8.ofNat (n / 2 ^ 8), UInt8.ofNat n⟩

/-- The addresses agree in their first 24 bits. -/
def SameNet (p q : Ipv4) : Prop := p.a = q.a ∧ p.b = q.b ∧ p.c = q.c

instance (p q : Ipv4) : Decidable (SameNet p q) := inferInstanceAs (Decidable (_ ∧ _))

end Ipv4

/-- One part of the numbers-and-dots notation: hexadecimal, octal or decimal. -/
def inetPart (cs : List Char) : Option ℕ :=
  let (base, ds) := match cs with
    | '0' :: x :: ds => if x = 'x' ∨ x = 'X' then (16, ds) else (8, x :: ds)
    | cs => (10, cs)
  if ds ≠ [] ∧ ds.all (digitValue · < base) then some (leadingNumber base ds) else none

/-- The value of the parts: the last one fills the bytes that are left. -/
def inetValue : List ℕ → Option ℕ
  | [a] => if a < 2 ^ 32 then some a else none
  | [a, b] => if a < 2 ^ 8 ∧ b < 2 ^ 24 then some (a * 2 ^ 24 + b) else none
  | [a, b, c] =>
    if a < 2 ^ 8 ∧ b < 2 ^ 8 ∧ c < 2 ^ 16 then some (a * 2 ^ 24 + b * 2 ^ 16 + c) else none
  | [a, b, c, d] =>
    if a < 2 ^ 8 ∧ b < 2 ^ 8 ∧ c < 2 ^ 8 ∧ d < 2 ^ 8 then
      some (a * 2 ^ 24 + b * 2 ^ 16 + c * 2 ^ 8 + d)
    else none
  | _ => none

/-- `inet_addr`; `INADDR_NONE` if the text is not an address -/
def inetAddr (cp : String) : UInt32 :=
  let parts := (cp.toList.takeWhile (!isSpace ·)).splitOn '.'
  match (parts.mapM inetPart).bind inetValue with
  | some n => (Ipv4.ofValue n).word
  | none => -1

/-- `inet_ntoa` -/
def inetNtoa (w : UInt32) : String := (Ipv4.ofWord w).toText

example : inetAddr "12.12.12.111" = 0x6f0c0c0c ∧ inetAddr "0xc.0x0c0c6f" = 0x6f0c0c0c ∧
    inetAddr "1.2.3.256" = -1 := by
  decide +kernel

/-! ## The search -/

/-- `ifa_addr` of an interface that has one -/
inductive SockAddr where
  | inet (ip : Ipv4)
  | inet6
  /-- any other family -/
  | other
  deriving DecidableEq, Repr

namespace NetTool

/-- `ip_`: the first address of the next block, without its last character -/
def gatewayText (ipPrefix : String) (len : UInt32) : List Char :=
  let ip := inetAddr ipPrefix
  let ipLocal := (ip <<< (32 - len)) >>> (32 - len)
  let gtway := ipLocal + (1 : UInt32) <<< len
  (inetNtoa gtway).toList.dropLast

/-- `strncmp(addressBuffer, ip_prefix, n) == 0` -/
def Selects (ipPrefix : String) (n : ℕ) (ip : Ipv4) : Prop :=
  ip.toText.toList.take n = ipPrefix.toList.take n

instance (ipPrefix : String) (n : ℕ) (ip : Ipv4) : Decidable (Selects ipPrefix n ip) :=
  inferInstanceAs (Decidable (_ = _))

/-- One turn of the loop of `get_node_id`; `none` for an interface without an
    address. -/
def nextNodeId (ipPrefix : String) (n : ℕ) (nodeId : Int32) (ifaAddr : Option SockAddr) : Int32 :=
  match ifaAddr with
  | some (.inet ip) =>
    if Selects ipPrefix n ip then atoi (String.ofList (ip.toText.toList.drop n)) else nodeId
  | _ => nodeId

def getNodeId (ifs : List (Option SockAddr)) (ipPrefix : String) (len : UInt32) : Int32 :=
  ifs.foldl (nextNodeId ipPrefix (gatewayText ipPrefix len).length) (-1)

def getIp (ifs : List (Option SockAddr)) (ipPrefix : String) (len : UInt32) : String :=
  let nodeId := getNodeId ifs ipPrefix len
  String.ofList (ipPrefix.toList.take ((gatewayText ipPrefix len).length - 1)) ++
    ("." ++ toString nodeId.toInt)

example : getIp [some (.inet ⟨127, 0, 0, 1⟩), some .inet6, some (.inet ⟨12, 12, 12, 7⟩), none]
    "12.12.12.111" 24 = "12.12.12.7" := by
  decide +kernel

end NetTool

/-! ## Numbers and dots -/

theorem digitValue_of_isDigit {c : Char} (h : c.isDigit = true) :
    digitValue c = c.toNat - '0'.toNat ∧ digitValue c < 10 := by
  have hval : digitValue c = c.toNat - '0'.toNat := by rw [digitValue, if_pos h]
  refine ⟨hval, ?_⟩
  rw [hval]
  simp only [Char.isDigit, Bool.and_eq_true, decide_eq_true_eq] at h
  have h9 : c.toNat ≤ 57 := h.2
  show c.toNat - 48 < 10
  omega

theorem forall_isDigit_decimal (n : ℕ) : ∀ c ∈ Text.decimal n, c.isDigit = true :=
  fun _ => Text.isDigit_of_mem_decimal

theorem digitValue_decimal {n : ℕ} {c : Char} (h : c ∈ Text.decimal n) : digitValue c < 10 :=
  (digitValue_of_isDigit (Text.isDigit_of_mem_decimal h)).2

theorem leadingNumber_decimal (n : ℕ) : leadingNumber 10 (Text.decimal n) = n := by
  have htake : (Text.decimal n).takeWhile (fun c => digitValue c < 10) = Text.decimal n :=
    List.takeWhile_eq_self_iff.2 fun c hc => decide_eq_true (digitValue_decimal hc)
  have hfold : ∀ (cs : List Char) (m : ℕ), (∀ c ∈ cs, c.isDigit = true) →
      cs.foldl (fun n c => n * 10 + digitValue c) m = Nat.ofDigitChars 10 cs m := by
    intro cs
    induction cs with
    | nil => exact fun _ _ => rfl
    | cons c cs ih =>
      intro m hcs
      rw [List.foldl_cons, ih _ fun d hd => hcs d (List.mem_cons_of_mem _ hd),
        Nat.ofDigitChars_cons, (digitValue_of_isDigit (hcs c List.mem_cons_self)).1, Nat.mul_comm]
  rw [leadingNumber, htake, hfold _ _ (forall_isDigit_decimal n), Text.decimal_eq]
  exact Nat.ofDigitChars_ten_toDigits

theorem isSpace_of_isDigit {c : Char} (h : c.isDigit = true) : isSpace c = false := by
  rw [Char.isDigit, Bool.and_eq_true, decide_eq_true_eq, decide_eq_true_eq] at h
  simp only [isSpace, Bool.or_eq_false_iff, decide_eq_false_iff_not, Bool.and_eq_false_iff]
  refine ⟨?_, Or.inr fun hle => ?_⟩
  · rintro rfl
    exact absurd h.1 (by decide)
  · exact absurd (UInt32.le_trans h.1 hle) (by decide)

/-- A text of digits starts with no blank and no sign. -/
theorem leadingSign_of_digits {cs : List Char} (h : ∀ c ∈ cs, c.isDigit = true) :
    leadingSign (cs.dropWhile isSpace) = (false, cs) := by
  cases cs with
  | nil => rfl
  | cons c cs =>
    have hc := h c List.mem_cons_self
    rw [List.dropWhile_cons_of_neg (by simp [isSpace_of_isDigit hc]), leadingSign.eq_def]
    split
    · next heq =>
      obtain ⟨rfl, -⟩ := List.cons.inj heq
      cases hc
    · next heq =>
      obtain ⟨rfl, -⟩ := List.cons.inj heq
      cases hc
    · rfl

/-- `atoi` reads back what `%d` writes. -/
theorem atoi_decimal {n : ℕ} (h : n < 2 ^ 31) :
    (atoi (String.ofList (Text.decimal n))).toInt = n := by
  rw [atoi, String.toList_ofList, leadingSign_of_digits (forall_isDigit_decimal n)]
  simp only [leadingNumber_decimal, Bool.false_eq_true, if_false]
  rw [min_eq_left (by omega)]
  exact Int32.toInt_ofInt_of_le (by omega) (by omega)

/-- A decimal text is not taken for an octal or hexadecimal one. -/
theorem inetPart_decimal (n : ℕ) : inetPart (Text.decimal n) = some n := by
  have hall : (Text.decimal n).all (digitValue · < 10) = true :=
    List.all_eq_true.2 fun c hc => decide_eq_true (digitValue_decimal hc)
  unfold inetPart
  split
  · next heq =>
    split at heq
    · next x ds hcs =>
      rcases Nat.eq_zero_or_pos n with rfl | hpos
      · rw [Text.decimal_eq, Nat.toDigits_zero] at hcs
        cases hcs
      · exact absurd (congrArg List.head? hcs) (Text.head_decimal hpos)
    · obtain ⟨rfl, rfl⟩ := Prod.mk.inj heq
      rw [if_pos ⟨Text.decimal_ne_nil n, hall⟩, leadingNumber_decimal]

/-! ## Texts of addresses -/

namespace Ipv4

variable {p q : Ipv4}

/-- The text of an address up to its last dot. -/
def netText (ip : Ipv4) : List Char :=
  Text.decimal ip.a.toNat ++ '.' :: (Text.decimal ip.b.toNat ++ '.' ::
    (Text.decimal ip.c.toNat ++ ['.']))

theorem SameNet.netText_eq (h : p.SameNet q) : p.netText = q.netText := by
  obtain ⟨ha, hb, hc⟩ := h
  rw [netText, netText, ha, hb, hc]

theorem toList_toText (ip : Ipv4) : ip.toText.toList = ip.netText ++ Text.decimal ip.d.toNat := by
  simp [toText, netText, Text.decimal, String.toList_append]

/-- **`inet_addr` reads back** what `inet_ntoa` writes. -/
theorem inetAddr_toText (ip : Ipv4) : inetAddr ip.toText = ip.word := by
  have hdot (n : ℕ) : '.' ∉ Text.decimal n := Text.not_mem_decimal rfl n
  have hspace : ip.toText.toList.takeWhile (!isSpace ·) = ip.toText.toList := by
    refine List.takeWhile_eq_self_iff.2 fun c hc => ?_
    have hcase : c.isDigit = true ∨ c = '.' := by
      simp only [toList_toText, netText, List.mem_append, List.mem_cons, List.not_mem_nil,
        or_false] at hc
      rcases hc with (h | h | h | h | h | h) | h <;>
        first | exact Or.inr h | exact Or.inl (Text.isDigit_of_mem_decimal h)
    rcases hcase with h | rfl
    · rw [isSpace_of_isDigit h]
      rfl
    · decide
  have hsplit : ip.toText.toList.splitOn '.' = [Text.decimal ip.a.toNat, Text.decimal ip.b.toNat,
      Text.decimal ip.c.toNat, Text.decimal ip.d.toNat] := by
    rw [toList_toText, netText]
    simp only [List.append_assoc, List.cons_append, List.nil_append,
      List.splitOn_append_cons_self, List.splitOn_eq_singleton (hdot _)]
  have hparts : [Text.decimal ip.a.toNat, Text.decimal ip.b.toNat, Text.decimal ip.c.toNat,
      Text.decimal ip.d.toNat].mapM inetPart =
        some [ip.a.toNat, ip.b.toNat, ip.c.toNat, ip.d.toNat] := by
    simp [inetPart_decimal]
  have ha := ip.a.toNat_lt
  have hb := ip.b.toNat_lt
  have hc := ip.c.toNat_lt
  have hd := ip.d.toNat_lt
  have hvalue : ofValue (ip.a.toNat * 2 ^ 24 + ip.b.toNat * 2 ^ 16 + ip.c.toNat * 2 ^ 8 +
      ip.d.toNat) = ip := by
    obtain ⟨a, b, c, d⟩ := ip
    simp only [ofValue, mk.injEq, ← UInt8.toNat_inj, UInt8.toNat_ofNat']
    dsimp only at ha hb hc hd
    omega
  simp only [inetAddr, hspace, hsplit, hparts, Option.bind_some, inetValue, ha, hb, hc, hd,
    and_self, if_true, hvalue]

theorem toNat_word (ip : Ipv4) : ip.word.toNat =
    ip.a.toNat + 2 ^ 8 * ip.b.toNat + 2 ^ 16 * ip.c.toNat + 2 ^ 24 * ip.d.toNat := by
  have ha := ip.a.toNat_lt
  have hb := ip.b.toNat_lt
  have hc := ip.c.toNat_lt
  have hd := ip.d.toNat_lt
  simp only [word, leNat, UInt32.toNat_ofNat']
  omega

/-- The shifts clear the last byte, and the sum sets it to 1. -/
theorem ofWord_gateway (ip : Ipv4) :
    ofWord ((ip.word <<< (32 - 24 : UInt32)) >>> (32 - 24 : UInt32) +
      (1 : UInt32) <<< (24 : UInt32)) = ⟨ip.a, ip.b, ip.c, 1⟩ := by
  have hword := ip.toNat_word
  have ha := ip.a.toNat_lt
  have hb := ip.b.toNat_lt
  have hc := ip.c.toNat_lt
  have hd := ip.d.toNat_lt
  have hgtway : ((ip.word <<< (32 - 24 : UInt32)) >>> (32 - 24 : UInt32) +
      (1 : UInt32) <<< (24 : UInt32)).toNat =
      ip.a.toNat + 2 ^ 8 * ip.b.toNat + 2 ^ 16 * ip.c.toNat + 2 ^ 24 := by
    have h8 : ((32 : UInt32) - 24).toNat % 32 = 8 := rfl
    have h24 : ((1 : UInt32) <<< 24).toNat = 2 ^ 24 := rfl
    rw [UInt32.toNat_add, UInt32.toNat_shiftRight, UInt32.toNat_shiftLeft, h8, h24,
      Nat.shiftLeft_eq, Nat.shiftRight_eq_div_pow, hword]
    omega
  simp only [ofWord, mk.injEq, ← UInt8.toNat_inj, UInt32.toNat_toUInt8, UInt32.toNat_shiftRight,
    Nat.shiftRight_eq_div_pow, hgtway]
  refine ⟨by omega, ?_, ?_, ?_⟩
  · show (_ / 2 ^ 8) % 2 ^ 8 = _
    omega
  · show (_ / 2 ^ 16) % 2 ^ 8 = _
    omega
  · show (_ / 2 ^ 24) % 2 ^ 8 = 1
    omega

/-- An address starts with the text of a network exactly if it lies in it. -/
theorem take_toText_iff :
    q.toText.toList.take p.netText.length = p.toText.toList.take p.netText.length ↔
      SameNet p q := by
  have hp : p.toText.toList.take p.netText.length = p.netText := by
    rw [toList_toText, List.take_left]
  rw [hp]
  constructor
  · intro h
    have happ := List.take_append_drop p.netText.length q.toText.toList
    rw [h, toList_toText] at happ
    simp only [netText, List.append_assoc, List.cons_append, List.nil_append] at happ
    obtain ⟨ha, happ⟩ := Text.decimal_sep_inj rfl happ
    obtain ⟨hb, happ⟩ := Text.decimal_sep_inj rfl happ
    obtain ⟨hc, -⟩ := Text.decimal_sep_inj rfl happ
    exact ⟨UInt8.toNat_inj.1 ha, UInt8.toNat_inj.1 hb, UInt8.toNat_inj.1 hc⟩
  · intro h
    rw [h.netText_eq, toList_toText, List.take_left]

end Ipv4

/-! ## The address found -/

namespace NetTool

variable {p q : Ipv4} {ifs : List (Option SockAddr)}

theorem gatewayText_toText (p : Ipv4) : gatewayText p.toText 24 = p.netText := by
  simp only [gatewayText, inetNtoa, Ipv4.inetAddr_toText, Ipv4.ofWord_gateway, Ipv4.toList_toText]
  have h1 : Text.decimal (1 : UInt8).toNat = ['1'] := by decide
  rw [h1, List.dropLast_concat]
  rfl

/-- The IPv4 address of an interface. -/
def inetOf : Option SockAddr → Option Ipv4
  | some (.inet ip) => some ip
  | _ => none

/-- The last interface listed in the network of `p`. -/
def lastInNet (p : Ipv4) (ifs : List (Option SockAddr)) : Option Ipv4 :=
  ((ifs.filterMap inetOf).filter (p.SameNet ·)).getLast?

/-- The interfaces selected are those in the network. -/
theorem selects_iff : Selects p.toText (gatewayText p.toText 24).length q ↔ p.SameNet q := by
  rw [gatewayText_toText]
  exact Ipv4.take_toText_iff

/-- An address in the network yields its last byte. -/
theorem nodeId_of_sameNet (h : p.SameNet q) :
    (atoi (String.ofList (q.toText.toList.drop p.netText.length))).toInt = q.d.toNat := by
  rw [h.netText_eq, Ipv4.toList_toText, List.drop_left]
  exact atoi_decimal (q.d.toNat_lt.trans (by decide))

theorem lastInNet_append (ifs : List (Option SockAddr)) (ifa : Option SockAddr) :
    lastInNet p (ifs ++ [ifa]) =
      match inetOf ifa with
      | some q => if p.SameNet q then some q else lastInNet p ifs
      | none => lastInNet p ifs := by
  simp only [lastInNet, List.filterMap_append, List.filter_append]
  cases h : inetOf ifa with
  | none => simp [h]
  | some q => by_cases hq : p.SameNet q <;> simp [h, hq]

/-- **The loop of `get_node_id`** keeps the last byte of the last address in the
    network. -/
theorem toInt_getNodeId (p : Ipv4) (ifs : List (Option SockAddr)) :
    (getNodeId ifs p.toText 24).toInt =
      (lastInNet p ifs).elim (-1) fun q => (q.d.toNat : ℤ) := by
  unfold getNodeId
  induction ifs using List.reverseRecOn with
  | nil => rfl
  | append_singleton ifs ifa ih =>
    rw [List.foldl_append, List.foldl_cons, List.foldl_nil, lastInNet_append]
    cases ifa with
    | none => exact ih
    | some addr =>
      cases addr with
      | inet6 => exact ih
      | other => exact ih
      | inet q =>
        simp only [nextNodeId, inetOf, selects_iff]
        split_ifs with hq
        · rw [gatewayText_toText]
          exact nodeId_of_sameNet hq
        · exact ih

/-- The text put together from the prefix and the last byte. -/
theorem getIp_text (h : p.SameNet q) :
    String.ofList (p.toText.toList.take ((gatewayText p.toText 24).length - 1)) ++
      ("." ++ toString (q.d.toNat : ℤ)) = q.toText := by
  obtain ⟨init, hinit⟩ : ∃ init, q.netText = init ++ ['.'] :=
    ⟨Text.decimal q.a.toNat ++ '.' :: (Text.decimal q.b.toNat ++ '.' :: Text.decimal q.c.toNat),
      by simp [Ipv4.netText]⟩
  refine String.toList_injective ?_
  rw [gatewayText_toText, Ipv4.toList_toText, Ipv4.toList_toText, h.netText_eq, hinit,
    String.toList_append, String.toList_append, String.toList_ofList, List.length_append,
    List.length_singleton, Nat.add_sub_cancel, List.append_assoc, List.take_left,
    List.append_assoc]
  rfl

theorem getIp_of_lastInNet (h : lastInNet p ifs = some q) : getIp ifs p.toText 24 = q.toText := by
  have hsame : p.SameNet q := of_decide_eq_true (List.mem_filter.1 (List.mem_of_getLast? h)).2
  rw [getIp, toInt_getNodeId, h]
  exact getIp_text hsame

theorem exists_lastInNet (h : ∃ q, some (.inet q) ∈ ifs ∧ p.SameNet q) :
    ∃ q, lastInNet p ifs = some q := by
  obtain ⟨q, hmem, hnet⟩ := h
  refine Option.ne_none_iff_exists'.1 ?_
  rw [lastInNet, Ne, List.getLast?_eq_none_iff]
  refine List.ne_nil_of_mem (a := q) ?_
  exact List.mem_filter.2 ⟨List.mem_filterMap.2 ⟨_, hmem, rfl⟩, decide_eq_true hnet⟩

/-- **The address found** is the last one listed in the network of `p`; no other
    interface is selected. -/
theorem getIp_eq (h : ∃ q, some (.inet q) ∈ ifs ∧ p.SameNet q) :
    (∃ q, lastInNet p ifs = some q ∧ getIp ifs p.toText 24 = q.toText) ∧
      ∀ q, Selects p.toText (gatewayText p.toText 24).length q → p.SameNet q := by
  obtain ⟨q, hq⟩ := exists_lastInNet h
  exact ⟨⟨q, hq, getIp_of_lastInNet hq⟩, fun q' hq' => selects_iff.1 hq'⟩

/-- A node with two interfaces. -/
theorem getIp_eq_twoInterfaces :
    getIp [some (.inet ⟨127, 0, 0, 1⟩), some (.inet ⟨12, 12, 12, 7⟩)]
      (Ipv4.toText ⟨12, 12, 12, 111⟩) 24 = Ipv4.toText ⟨12, 12, 12, 7⟩ := by
  obtain ⟨⟨q, hq, hip⟩, -⟩ := @getIp_eq ⟨12, 12, 12, 111⟩
    [some (.inet ⟨127, 0, 0, 1⟩), some (.inet ⟨12, 12, 12, 7⟩)] ⟨⟨12, 12, 12, 7⟩, by decide⟩
  obtain rfl : ⟨12, 12, 12, 7⟩ = q := Option.some.inj hq
  exact hip

/-- The own address of a node is that of its last interface in 12.12.12.0/24. -/
theorem localIp_getLocalIp {c : DerivedConfig} (hc : c.localIp = "")
    (h : lastInNet ⟨12, 12, 12, 111⟩ ifs = some q) :
    (c.getLocalIp (getIp ifs "12.12.12.111" 24)).localIp = q.toText := by
  have htext : Ipv4.toText ⟨12, 12, 12, 111⟩ = "12.12.12.111" := by decide
  rw [DerivedConfig.getLocalIp, if_pos hc, ← htext]
  exact getIp_of_lastInNet h

end NetTool

end RdmaCore

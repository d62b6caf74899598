import RustyTinc.Core.AddressText

/-!
The text form of a subnet.

* `parseSubnet_parsed`: what a parsed subnet is like;
* `parseSubnet_display`: every such subnet reads back from its text.
-/

namespace RustyTinc

open Text

/-- The two families of IP addresses. -/
inductive AddressFamily where
  | ipv4
  | ipv6
deriving DecidableEq

/-- Why a text is not a subnet. -/
inductive SubnetParseError where
  | empty
  | tooLong
  | invalidWeight
  | invalidPrefix
  | prefixNotAllowed (family : AddressFamily)
  | invalidAddress
deriving DecidableEq

/-- A text with as many bytes is too long to be a subnet. -/
def maxNetStr : ℕ := 64

/-- The number of bytes of a text. -/
def utf8Len (text : List Char) : ℕ := (text.map Char.utf8Size).sum

/-- A number that may have white space before it, but not after it. -/
def parseCI32 (input : List Char) (error : SubnetParseError) : Except SubnetParseError ℤ :=
  let trimmedStart := input.dropWhile isAsciiWhitespace
  if trimmedStart = [] then .error error
  else if trimmedStart.any isAsciiWhitespace then .error error
  else
    match parseSigned (2 ^ 31) trimmedStart with
    | some n => .ok n
    | none => .error error

/-- A prefix is not longer than its address. -/
def validatePrefix (prefixLen bound : UInt8) : Except SubnetParseError Unit :=
  if bound < prefixLen then .error .invalidPrefix else .ok ()

/-- A prefix length, from a number that was parsed. -/
def i32ToPrefix (prefixLen : ℤ) (bound : UInt8) : Except SubnetParseError UInt8 :=
  if prefixLen < 0 ∨ 255 < prefixLen then .error .invalidPrefix
  else do
    validatePrefix (UInt8.ofNat prefixLen.toNat) bound
    return UInt8.ofNat prefixLen.toNat

/-- The text before the weight, and the weight. -/
def splitWeight (input : List Char) : Except SubnetParseError (List Char × ℤ) :=
  match splitOnce '#' input with
  | some (address, weight) => (parseCI32 weight .invalidWeight).map (Prod.mk address)
  | none => .ok (input, defaultWeight)

/-- The text before the prefix length, and the prefix length. -/
def splitPrefix (addressAndPrefix : List Char) :
    Except SubnetParseError (List Char × Option ℤ) :=
  match splitOnce '/' addressAndPrefix with
  | some (address, prefixLen) =>
      (parseCI32 prefixLen .invalidPrefix).map fun n => (address, some n)
  | none => .ok (addressAndPrefix, none)

/-- The kind of a subnet, from the text of its address and its prefix length. -/
def parseKind (address : List Char) (prefixLen : Option ℤ) : Except SubnetParseError SubnetKind :=
  match MacAddr.parse address with
  | some mac =>
      if prefixLen.isSome then .error (.prefixNotAllowed .ipv4) else .ok (.mac mac)
  | none =>
      match Ipv4Addr.parse address with
      | some address => (i32ToPrefix (prefixLen.getD 32) 32).map (.ipv4 address)
      | none =>
          match Ipv6Addr.parse address with
          | some address => (i32ToPrefix (prefixLen.getD 128) 128).map (.ipv6 address)
          | none => .error .invalidAddress

/-- The subnet of a text: an address, and a prefix length and a weight when they are given. -/
def parseSubnet (input : List Char) : Except SubnetParseError Subnet :=
  if input = [] then .error .empty
  else if maxNetStr ≤ utf8Len input then .error .tooLong
  else do
    let (addressAndPrefix, weight) ← splitWeight input
    let (address, prefixLen) ← splitPrefix addressAndPrefix
    let kind ← parseKind address prefixLen
    return { kind, weight }

/-- The prefix length fits the address. -/
def SubnetKind.PrefixFits : SubnetKind → Prop
  | .mac _ => True
  | .ipv4 _ prefixLen => prefixLen ≤ 32
  | .ipv6 _ prefixLen => prefixLen ≤ 128

/-- A subnet as the parser delivers it: without owner, and with everything in its range. -/
structure Subnet.Parsed (s : Subnet) : Prop where
  prefixFits : s.kind.PrefixFits
  weight_inRange : InRange (2 ^ 31) s.weight
  owner_eq : s.owner = none
  expires_eq : s.expires = none

/-! ### What is parsed -/

lemma bind_eq_ok {ε α β : Type} {x : Except ε α} {f : α → Except ε β} {b : β} :
    x >>= f = .ok b ↔ ∃ a, x = .ok a ∧ f a = .ok b := by
  cases x with
  | error e => simp [bind, Except.bind]
  | ok a => simp [bind, Except.bind]

lemma map_eq_ok {ε α β : Type} {x : Except ε α} {f : α → β} {b : β} :
    x.map f = .ok b ↔ ∃ a, x = .ok a ∧ f a = b := by
  cases x with
  | error e => simp [Except.map]
  | ok a => simp [Except.map]

lemma parseCI32_inRange {input : List Char} {error : SubnetParseError} {n : ℤ}
    (h : parseCI32 input error = .ok n) : InRange (2 ^ 31) n := by
  rw [parseCI32] at h
  split_ifs at h
  split at h
  · next m hparse =>
      obtain rfl := Except.ok.inj h
      exact inRange_of_parseSigned (by norm_num) hparse
  · cases h

lemma i32ToPrefix_le {prefixLen : ℤ} {bound p : UInt8} (h : i32ToPrefix prefixLen bound = .ok p) :
    p ≤ bound := by
  rw [i32ToPrefix] at h
  split_ifs at h
  obtain ⟨_, hvalid, hp⟩ := bind_eq_ok.mp h
  obtain rfl := Except.ok.inj hp
  rw [validatePrefix] at hvalid
  split_ifs at hvalid with hlt
  exact UInt8.not_lt.mp hlt

lemma splitWeight_inRange {input address : List Char} {weight : ℤ}
    (h : splitWeight input = .ok (address, weight)) : InRange (2 ^ 31) weight := by
  rw [splitWeight] at h
  split at h
  · obtain ⟨n, hparse, hn⟩ := map_eq_ok.mp h
    obtain rfl := (Prod.mk.inj hn).2
    exact parseCI32_inRange hparse
  · obtain rfl := (Prod.mk.inj (Except.ok.inj h)).2
    exact ⟨by decide, by decide⟩

/-- An accepted prefix fits its address. -/
lemma parseKind_fits {address : List Char} {prefixLen : Option ℤ} {kind : SubnetKind}
    (h : parseKind address prefixLen = .ok kind) : kind.PrefixFits := by
  rw [parseKind] at h
  split at h
  · split_ifs at h
    obtain rfl := Except.ok.inj h
    trivial
  · split at h
    · obtain ⟨p, hp, rfl⟩ := map_eq_ok.mp h
      exact i32ToPrefix_le hp
    · split at h
      · obtain ⟨p, hp, rfl⟩ := map_eq_ok.mp h
        exact i32ToPrefix_le hp
      · cases h

/-- **What a parsed subnet is like.** -/
theorem parseSubnet_parsed {input : List Char} {s : Subnet} (h : parseSubnet input = .ok s) :
    s.Parsed := by
  rw [parseSubnet] at h
  split_ifs at h
  obtain ⟨⟨addressAndPrefix, weight⟩, hweight, h⟩ := bind_eq_ok.mp h
  obtain ⟨⟨address, prefixLen⟩, -, h⟩ := bind_eq_ok.mp h
  obtain ⟨kind, hkind, h⟩ := bind_eq_ok.mp h
  obtain rfl := Except.ok.inj h
  exact ⟨parseKind_fits hkind, splitWeight_inRange hweight, rfl, rfl⟩

/-! ### The text of a subnet -/

/-- The characters of subnets. -/
def subnetChars : List Char := '#' :: '/' :: '-' :: addressChars

lemma subnetChars_spec : ∀ c ∈ subnetChars, isWhitespace c = false ∧ isAsciiWhitespace c = false ∧
    c.utf8Size = 1 :=
  forall_mem_of_all (by decide)

lemma utf8Len_eq_length {text : List Char} (h : ∀ c ∈ text, c ∈ subnetChars) :
    utf8Len text = text.length := by
  have hsizes : text.map Char.utf8Size = text.map fun _ => 1 :=
    List.map_congr_left fun c hc => (subnetChars_spec c (h c hc)).2.2
  rw [utf8Len, hsizes]
  simp

/-- The text of a number. -/
lemma toString_spec {n : ℤ} (h : InRange (2 ^ 31) n) : (toString n).toList ≠ [] ∧
    (∀ c ∈ (toString n).toList, c ∈ subnetChars) ∧ (toString n).toList.length ≤ 11 := by
  have hdigits : ∀ n : ℕ, ∀ c ∈ Nat.toDigits 10 n, c ∈ subnetChars := by
    intro n c hc
    have := mem_lowerDigits_of_mem_toDigits (by omega) (by omega) hc
    simp only [subnetChars, addressChars, List.mem_cons]
    tauto
  have hlen : ∀ n : ℕ, n ≤ 2 ^ 31 → (Nat.toDigits 10 n).length ≤ 10 := fun n hn =>
    (Nat.length_toDigits_le_iff (by omega) (by omega)).mpr (by omega)
  obtain ⟨hlow, hhigh⟩ := h
  cases n with
  | ofNat n =>
      have htext : (toString (Int.ofNat n)).toList = Nat.toDigits 10 n := Nat.toList_repr
      have := hlen n (by simp only [Int.ofNat_eq_natCast] at hhigh; omega)
      rw [htext]
      exact ⟨Nat.toDigits_ne_nil, hdigits n, by omega⟩
  | negSucc n =>
      have htext : (toString (Int.negSucc n)).toList = '-' :: Nat.toDigits 10 (n + 1) := by
        show ("-" ++ (n + 1).repr).toList = _
        simp
      have := hlen (n + 1) (by omega)
      rw [htext]
      refine ⟨List.cons_ne_nil _ _, ?_, by rw [List.length_cons]; omega⟩
      exact List.forall_mem_cons.mpr ⟨by decide, hdigits _⟩

/-- A number is read again from its text. -/
lemma parseCI32_toString {n : ℤ} (h : InRange (2 ^ 31) n) (error : SubnetParseError) :
    parseCI32 (toString n).toList error = .ok n := by
  obtain ⟨hne, hchars, -⟩ := toString_spec h
  have hwhite : ∀ c ∈ (toString n).toList, isAsciiWhitespace c = false :=
    fun c hc => (subnetChars_spec c (hchars c hc)).2.1
  have htrim : (toString n).toList.dropWhile isAsciiWhitespace = (toString n).toList := by
    obtain ⟨c, text, htext⟩ := List.exists_cons_of_ne_nil hne
    rw [htext] at hwhite ⊢
    exact List.dropWhile_cons_of_neg (by simp [hwhite c List.mem_cons_self])
  have hany : (toString n).toList.any isAsciiWhitespace = false :=
    List.any_eq_false.mpr fun c hc => by simp [hwhite c hc]
  rw [parseCI32, htrim]
  simp only [hne, hany, if_false, Bool.false_eq_true, parseSigned_toString h]

lemma i32ToPrefix_toNat {p bound : UInt8} (h : p ≤ bound) :
    i32ToPrefix (p.toNat : ℤ) bound = .ok p := by
  have hlt := p.toNat_lt
  have hrange : ¬((p.toNat : ℤ) < 0 ∨ 255 < (p.toNat : ℤ)) := by omega
  rw [i32ToPrefix, if_neg hrange, Int.toNat_natCast, UInt8.ofNat_toNat, validatePrefix,
    if_neg (UInt8.not_lt.mpr h)]
  rfl

namespace Subnet

/-- The text of the address. -/
def addressText (s : Subnet) : List Char :=
  match s.kind with
  | .mac address => address.display.toList
  | .ipv4 address _ => address.display.toList
  | .ipv6 address _ => address.display.toList

/-- The prefix length where it is written. -/
def writtenPrefix (s : Subnet) : Option ℤ :=
  match s.kind with
  | .mac _ => none
  | .ipv4 _ prefixLen => if prefixLen ≠ 32 then some prefixLen.toNat else none
  | .ipv6 _ prefixLen => if prefixLen ≠ 128 then some prefixLen.toNat else none

/-- A number after a separator, where it is written. -/
def suffixText (sep : Char) (n : Option ℤ) : List Char :=
  match n with
  | some n => sep :: (toString n).toList
  | none => []

/-- The text of a subnet: the address, the prefix length and the weight. -/
lemma toList_display (s : Subnet) : s.display.toList =
    s.addressText ++ suffixText '/' s.writtenPrefix ++
      suffixText '#' (if s.weight ≠ defaultWeight then some s.weight else none) := by
  have hweight : (if s.weight ≠ defaultWeight then "#" ++ toString s.weight else "").toList =
      suffixText '#' (if s.weight ≠ defaultWeight then some s.weight else none) := by
    split_ifs
    · rw [String.toList_append]
      rfl
    · rfl
  have hpre : ∀ p q : UInt8, (if p ≠ q then "/" ++ toString p.toNat else "").toList =
      suffixText '/' (if p ≠ q then some (p.toNat : ℤ) else none) := by
    intro p q
    split_ifs
    · rw [String.toList_append]
      rfl
    · rfl
  rw [display, String.toList_append, hweight]
  congr 1
  obtain ⟨kind, weight, owner, expires⟩ := s
  cases kind with
  | mac address => simp [addressText, writtenPrefix, suffixText]
  | ipv4 address prefixLen =>
      rw [String.toList_append, hpre]
      rfl
  | ipv6 address prefixLen =>
      rw [String.toList_append, hpre]
      rfl

variable {s : Subnet}

lemma addressText_spec (s : Subnet) :
    (∀ c ∈ s.addressText, c ∈ addressChars) ∧ s.addressText.length ≤ 40 := by
  obtain ⟨kind, weight, owner, expires⟩ := s
  cases kind with
  | mac address =>
      exact ⟨fun c hc => address.mem_display hc, address.length_display.trans (by omega)⟩
  | ipv4 address prefixLen =>
      exact ⟨fun c hc => (address.mem_display hc).1, address.length_display.trans (by omega)⟩
  | ipv6 address prefixLen =>
      exact ⟨fun c hc => address.mem_display hc, address.length_display⟩

lemma suffixText_spec {sep : Char} (hsep : sep ∈ subnetChars) {n : Option ℤ}
    (hn : ∀ m, n = some m → InRange (2 ^ 31) m) :
    (∀ c ∈ suffixText sep n, c ∈ subnetChars) ∧ (suffixText sep n).length ≤ 12 := by
  cases n with
  | none => exact ⟨fun c hc => absurd hc List.not_mem_nil, Nat.zero_le _⟩
  | some m =>
      obtain ⟨-, hchars, hlen⟩ := toString_spec (hn m rfl)
      exact ⟨List.forall_mem_cons.mpr ⟨hsep, hchars⟩, Nat.succ_le_succ hlen⟩

/-- The weight where it is written. -/
def writtenWeight (s : Subnet) : Option ℤ :=
  if s.weight ≠ defaultWeight then some s.weight else none

/-- A written prefix length is a byte, and not the one that is meant without any. -/
lemma exists_of_writtenPrefix (s : Subnet) {n : ℤ} (h : s.writtenPrefix = some n) :
    ∃ p : UInt8, n = p.toNat := by
  rw [writtenPrefix] at h
  split at h
  · cases h
  · split_ifs at h
    exact ⟨_, (Option.some.inj h).symm⟩
  · split_ifs at h
    exact ⟨_, (Option.some.inj h).symm⟩

lemma writtenPrefix_inRange (s : Subnet) : ∀ n, s.writtenPrefix = some n → InRange (2 ^ 31) n := by
  intro n hn
  obtain ⟨p, rfl⟩ := s.exists_of_writtenPrefix hn
  have := p.toNat_lt
  exact ⟨by omega, by omega⟩

lemma Parsed.writtenWeight_inRange (h : s.Parsed) :
    ∀ n, s.writtenWeight = some n → InRange (2 ^ 31) n := by
  intro n hn
  rw [writtenWeight] at hn
  split_ifs at hn
  exact Option.some.inj hn ▸ h.weight_inRange

lemma Parsed.display_chars (h : s.Parsed) : ∀ c ∈ s.display.toList, c ∈ subnetChars := by
  intro c hc
  rw [toList_display, List.mem_append, List.mem_append] at hc
  rcases hc with (hc | hc) | hc
  · have := s.addressText_spec.1 c hc
    simp only [subnetChars, List.mem_cons]
    tauto
  · exact (suffixText_spec (by decide) s.writtenPrefix_inRange).1 c hc
  · exact (suffixText_spec (by decide) h.writtenWeight_inRange).1 c hc

/-- The text of a subnet is short enough to be read again. -/
lemma Parsed.length_display (h : s.Parsed) : s.display.toList.length < maxNetStr := by
  have haddress := s.addressText_spec.2
  have hweight := (@suffixText_spec '#' (by decide) _ h.writtenWeight_inRange).2
  have hpre : (suffixText '/' s.writtenPrefix).length ≤ 4 := by
    cases hwritten : s.writtenPrefix with
    | none => exact Nat.zero_le _
    | some n =>
        obtain ⟨p, rfl⟩ := s.exists_of_writtenPrefix hwritten
        have htext : (toString (p.toNat : ℤ)).toList = Nat.toDigits 10 p.toNat := Nat.toList_repr
        have hlen := (Nat.length_toDigits_le_iff (b := 10) (k := 3) (by omega) (by omega)).mpr
          (lt_trans p.toNat_lt (by omega))
        rw [suffixText, htext, List.length_cons]
        omega
  rw [writtenWeight] at hweight
  rw [toList_display, List.length_append, List.length_append, maxNetStr]
  omega

/-- A written number is found behind its separator, and none is found where none is written. -/
lemma splitOnce_suffixText {sep : Char} {before : List Char} (h : sep ∉ before) (n : Option ℤ) :
    splitOnce sep (before ++ suffixText sep n) = n.map fun n => (before, (toString n).toList) := by
  cases n with
  | none => simpa [suffixText] using splitOnce_eq_none h
  | some n => exact splitOnce_append h

/-- The weight is read again. -/
lemma Parsed.splitWeight_display (h : s.Parsed) :
    splitWeight s.display.toList =
      .ok (s.addressText ++ suffixText '/' s.writtenPrefix, s.weight) := by
  have hsep : '#' ∉ s.addressText ++ suffixText '/' s.writtenPrefix := by
    intro hmem
    rcases List.mem_append.mp hmem with hmem | hmem
    · exact absurd (s.addressText_spec.1 _ hmem) (by decide)
    · cases hwritten : s.writtenPrefix with
      | none =>
          rw [hwritten] at hmem
          cases hmem
      | some n =>
          obtain ⟨p, rfl⟩ := s.exists_of_writtenPrefix hwritten
          rw [hwritten, suffixText, List.mem_cons] at hmem
          have hdigit := hmem.resolve_left (by decide)
          have htext : (toString (p.toNat : ℤ)).toList = Nat.toDigits 10 p.toNat :=
            Nat.toList_repr
          rw [htext] at hdigit
          exact absurd (mem_lowerDigits_of_mem_toDigits (by omega) (by omega) hdigit) (by decide)
  rw [splitWeight, toList_display, splitOnce_suffixText hsep]
  split_ifs with hweight
  · simp only [Option.map_some, parseCI32_toString h.weight_inRange]
    rfl
  · rw [not_not] at hweight
    rw [Option.map_none, hweight]
    simp [suffixText]

lemma splitPrefix_display (s : Subnet) :
    splitPrefix (s.addressText ++ suffixText '/' s.writtenPrefix) =
      .ok (s.addressText, s.writtenPrefix) := by
  have hsep : '/' ∉ s.addressText := fun hmem =>
    absurd (s.addressText_spec.1 _ hmem) (by decide)
  rw [splitPrefix, splitOnce_suffixText hsep]
  cases hwritten : s.writtenPrefix with
  | none => simp [suffixText]
  | some n =>
      simp only [Option.map_some, parseCI32_toString (s.writtenPrefix_inRange n hwritten)]
      rfl

/-- Without a written prefix length the whole address is meant. -/
lemma i32ToPrefix_written {p bound : UInt8} (h : p ≤ bound) :
    i32ToPrefix ((if p ≠ bound then some (p.toNat : ℤ) else none).getD bound.toNat) bound =
      .ok p := by
  split_ifs with hp
  · exact i32ToPrefix_toNat h
  · rw [not_not.mp hp]
    exact i32ToPrefix_toNat (UInt8.le_refl bound)

/-- The address and the prefix length are read again. -/
lemma parseKind_display (h : s.kind.PrefixFits) :
    parseKind s.addressText s.writtenPrefix = .ok s.kind := by
  obtain ⟨kind, weight, owner, expires⟩ := s
  cases kind with
  | mac address => simp [parseKind, addressText, writtenPrefix, MacAddr.parse_display]
  | ipv4 address prefixLen =>
      have hpre := @i32ToPrefix_written _ 32 h
      simp only [parseKind, addressText, writtenPrefix, address.parseMac_display,
        Ipv4Addr.parse_display]
      exact (congrArg (Except.map (SubnetKind.ipv4 address)) hpre)
  | ipv6 address prefixLen =>
      have hpre := @i32ToPrefix_written _ 128 h
      simp only [parseKind, addressText, writtenPrefix, address.parseMac_display,
        address.parseIpv4_display, Ipv6Addr.parse_display]
      exact (congrArg (Except.map (SubnetKind.ipv6 address)) hpre)

/-- No address has an empty text. -/
lemma addressText_ne_nil (s : Subnet) : s.addressText ≠ [] := by
  intro hnil
  obtain ⟨kind, weight, owner, expires⟩ := s
  cases kind with
  | mac address =>
      have := MacAddr.parse_display address
      rw [show address.display.toList = [] from hnil] at this
      cases this
  | ipv4 address prefixLen =>
      have := Ipv4Addr.parse_display address
      rw [show address.display.toList = [] from hnil] at this
      cases this
  | ipv6 address prefixLen =>
      have := Ipv6Addr.parse_display address
      rw [show address.display.toList = [] from hnil] at this
      cases this

lemma display_ne_nil (s : Subnet) : s.display.toList ≠ [] := by
  rw [toList_display]
  intro hnil
  exact s.addressText_ne_nil (List.append_eq_nil_iff.mp (List.append_eq_nil_iff.mp hnil).1).1

/-- **Every subnet that the parser can deliver reads back from its text.** -/
theorem parseSubnet_display (h : s.Parsed) : parseSubnet s.display.toList = .ok s := by
  have hlen : ¬ maxNetStr ≤ utf8Len s.display.toList := by
    rw [utf8Len_eq_length h.display_chars]
    exact not_le.mpr h.length_display
  rw [parseSubnet, if_neg s.display_ne_nil, if_neg hlen, h.splitWeight_display]
  show (splitPrefix _ >>= _) = _
  rw [s.splitPrefix_display]
  show (parseKind _ _ >>= _) = _
  rw [parseKind_display h.prefixFits]
  obtain ⟨kind, weight, owner, expires⟩ := s
  obtain rfl : owner = none := h.owner_eq
  obtain rfl : expires = none := h.expires_eq
  rfl

end Subnet

end RustyTinc

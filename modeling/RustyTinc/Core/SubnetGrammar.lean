import RustyTinc.Core.SubnetText

/-!
The texts that are read as subnets.

* `SubnetGrammar`: an address, a prefix length and a weight, for given forms of numbers and of the
  groups of a hardware address;
* `IsInteger`, `IsHexGroup`: decimal integers, and one or two hexadecimal digits;
* `PaddedInteger`: what the reader of numbers takes, an integer after white space;
* `parseSubnet_grammar`: every text that is read has this form;
* `subnet_text`: with that, every subnet reads back from its text.
-/

namespace RustyTinc

open Text

/-! ### The grammar -/

/-- One of the ten digits. -/
def IsDecimalDigit (c : Char) : Prop := '0' ≤ c ∧ c ≤ '9'

/-- A digit, or a letter that stands for one. -/
def IsHexDigit (c : Char) : Prop :=
  IsDecimalDigit c ∨ ('a' ≤ c ∧ c ≤ 'f') ∨ ('A' ≤ c ∧ c ≤ 'F')

instance (c : Char) : Decidable (IsDecimalDigit c) := inferInstanceAs (Decidable (_ ∧ _))

instance (c : Char) : Decidable (IsHexDigit c) := inferInstanceAs (Decidable (_ ∨ _))

/-- The number that decimal digits write. -/
def decimalValue (digits : List Char) : ℕ :=
  digits.foldl (fun n c => n * 10 + (c.toNat - '0'.toNat)) 0

/-- **A decimal integer**, with or without a sign. -/
inductive IsInteger : List Char → ℤ → Prop
  | unsigned {digits : List Char} (hne : digits ≠ []) (hdigits : ∀ c ∈ digits, IsDecimalDigit c) :
      IsInteger digits (decimalValue digits)
  | plus {digits : List Char} (hne : digits ≠ []) (hdigits : ∀ c ∈ digits, IsDecimalDigit c) :
      IsInteger ('+' :: digits) (decimalValue digits)
  | minus {digits : List Char} (hne : digits ≠ []) (hdigits : ∀ c ∈ digits, IsDecimalDigit c) :
      IsInteger ('-' :: digits) (-decimalValue digits)

/-- An integer after white space. -/
def PaddedInteger (text : List Char) (n : ℤ) : Prop :=
  ∃ space number, text = space ++ number ∧ (∀ c ∈ space, isAsciiWhitespace c = true) ∧
    IsInteger number n

/-- **One or two hexadecimal digits.** -/
def IsHexGroup (group : List Char) : Prop :=
  (group.length = 1 ∨ group.length = 2) ∧ ∀ c ∈ group, IsHexDigit c

/-- One or two characters that are hexadecimal digits, if none of them is a plus sign. -/
def IsSignedGroup (group : List Char) : Prop :=
  (group.length = 1 ∨ group.length = 2) ∧ ('+' ∉ group → ∀ c ∈ group, IsHexDigit c)

section Grammar

variable (number : List Char → ℤ → Prop) (group : List Char → Prop)

/-- The text of an address: a hardware address is exactly six groups with colons between them. -/
def AddressForm : SubnetKind → List Char → Prop
  | .mac _, text => ∃ groups, text = [':'].intercalate groups ∧ groups.length = 6 ∧
      ∀ part ∈ groups, group part
  | .ipv4 address _, text => Ipv4Addr.parse text = some address
  | .ipv6 address _, text => Ipv6Addr.parse text = some address

/-- The text after a slash, if there is one: not for hardware addresses, and within the range of
the family. -/
def PrefixForm : SubnetKind → Option (List Char) → Prop
  | .mac _, text => text = none
  | .ipv4 _ prefixLen, none => prefixLen = 32
  | .ipv6 _ prefixLen, none => prefixLen = 128
  | .ipv4 _ prefixLen, some text => number text prefixLen.toNat ∧ prefixLen ≤ 32
  | .ipv6 _ prefixLen, some text => number text prefixLen.toNat ∧ prefixLen ≤ 128

/-- The text after a number sign, if there is one. -/
def WeightForm (weight : ℤ) : Option (List Char) → Prop
  | none => weight = defaultWeight
  | some text => number text weight

/-- A text after a separator, where there is one. -/
def separatedText (sep : Char) : Option (List Char) → List Char
  | none => []
  | some text => sep :: text

/-- **The grammar of subnets**: an address, optionally a prefix length and optionally a weight. -/
def SubnetGrammar (text : List Char) (s : Subnet) : Prop :=
  ∃ address prefixText weightText,
    text = address ++ separatedText '/' prefixText ++ separatedText '#' weightText ∧
      AddressForm group s.kind address ∧ PrefixForm number s.kind prefixText ∧
      WeightForm number s.weight weightText

end Grammar

/-! ### What is read -/

lemma char_le_iff {c d : Char} : c ≤ d ↔ c.toNat ≤ d.toNat := UInt32.le_iff_toNat_le

lemma digitValue_ten {c : Char} {d : ℕ} (h : digitValue 10 c = some d) :
    IsDecimalDigit c ∧ d = c.toNat - '0'.toNat := by
  obtain ⟨hvalue, hlt⟩ := Option.filter_eq_some_iff.mp h
  rw [decide_eq_true_iff] at hlt
  split_ifs at hvalue with hdigit
  · exact ⟨hdigit, (Option.some.inj hvalue).symm⟩
  · obtain rfl := Option.some.inj hvalue
    omega
  · obtain rfl := Option.some.inj hvalue
    omega

lemma digitValue_sixteen {c : Char} {d : ℕ} (h : digitValue 16 c = some d) : IsHexDigit c := by
  obtain ⟨hvalue, hlt⟩ := Option.filter_eq_some_iff.mp h
  rw [decide_eq_true_iff] at hlt
  have hf : 'f'.toNat = 'a'.toNat + 5 := rfl
  have hF : 'F'.toNat = 'A'.toNat + 5 := rfl
  split_ifs at hvalue with hdigit hlower hupper
  · exact Or.inl hdigit
  · obtain rfl := Option.some.inj hvalue
    exact Or.inr (Or.inl ⟨hlower.1, char_le_iff.mpr (by omega)⟩)
  · obtain rfl := Option.some.inj hvalue
    exact Or.inr (Or.inr ⟨hupper.1, char_le_iff.mpr (by omega)⟩)

lemma digitsValue_ten {digits : List Char} {value n : ℕ} (h : digitsValue 10 digits value = some n) :
    (∀ c ∈ digits, IsDecimalDigit c) ∧
      n = digits.foldl (fun n c => n * 10 + (c.toNat - '0'.toNat)) value := by
  induction digits generalizing value with
  | nil => exact ⟨by simp, (Option.some.inj h).symm⟩
  | cons c digits ih =>
      obtain ⟨d, hd, hrest⟩ := Option.bind_eq_some_iff.mp h
      obtain ⟨hdigit, rfl⟩ := digitValue_ten hd
      obtain ⟨hdigits, hn⟩ := ih hrest
      exact ⟨List.forall_mem_cons.mpr ⟨hdigit, hdigits⟩, hn⟩

lemma parseDigits_ten {digits : List Char} {n : ℕ} (h : parseDigits 10 digits = some n) :
    digits ≠ [] ∧ (∀ c ∈ digits, IsDecimalDigit c) ∧ n = decimalValue digits := by
  rw [parseDigits] at h
  split_ifs at h with hne
  exact ⟨hne, digitsValue_ten h⟩

/-- The integers that are read are decimal. -/
lemma isInteger_of_parseSigned {bound : ℕ} {text : List Char} {n : ℤ}
    (h : parseSigned bound text = some n) : IsInteger text n := by
  unfold parseSigned at h
  split at h
  · obtain ⟨m, hm, rfl⟩ := Option.map_eq_some_iff.mp h
    obtain ⟨hne, hdigits, rfl⟩ := parseDigits_ten (Option.filter_eq_some_iff.mp hm).1
    exact .minus hne hdigits
  · obtain ⟨m, hm, rfl⟩ := Option.map_eq_some_iff.mp h
    have hparse := (Option.filter_eq_some_iff.mp hm).1
    split at hparse
    · obtain ⟨hne, hdigits, rfl⟩ := parseDigits_ten hparse
      exact .plus hne hdigits
    · obtain ⟨hne, hdigits, rfl⟩ := parseDigits_ten hparse
      exact .unsigned hne hdigits

lemma paddedInteger_of_parseCI32 {text : List Char} {error : SubnetParseError} {n : ℤ}
    (h : parseCI32 text error = .ok n) : PaddedInteger text n := by
  rw [parseCI32] at h
  split_ifs at h
  split at h
  · next m hm =>
      obtain rfl := Except.ok.inj h
      refine ⟨text.takeWhile isAsciiWhitespace, text.dropWhile isAsciiWhitespace,
        List.takeWhile_append_dropWhile.symm, fun c hc => ?_, isInteger_of_parseSigned hm⟩
      exact List.mem_takeWhile_imp hc
  · cases h

/-- A text is what stands before and behind the separator. -/
lemma eq_of_splitOnce {sep : Char} {text before rest : List Char}
    (h : splitOnce sep text = some (before, rest)) : text = before ++ sep :: rest := by
  rw [splitOnce] at h
  split at h
  · cases h
  · next c tail hdrop =>
      obtain ⟨rfl, rfl⟩ := Prod.mk.inj (Option.some.inj h)
      have hhead := List.head_dropWhile_not (fun c => decide (c ≠ sep))
        (w := by rw [hdrop]; exact List.cons_ne_nil c tail)
      simp only [hdrop, List.head_cons, decide_eq_false_iff_not, not_not] at hhead
      subst hhead
      rw [← hdrop, List.takeWhile_append_dropWhile]

lemma digitsValue_sixteen {digits : List Char} {value n : ℕ}
    (h : digitsValue 16 digits value = some n) : ∀ c ∈ digits, IsHexDigit c := by
  induction digits generalizing value with
  | nil => simp
  | cons c digits ih =>
      obtain ⟨d, hd, hrest⟩ := Option.bind_eq_some_iff.mp h
      exact List.forall_mem_cons.mpr ⟨digitValue_sixteen hd, ih hrest⟩

/-- The reader of octets takes a plus sign, and otherwise hexadecimal digits. -/
lemma isSignedGroup_of_parse {part : List Char} {n : ℕ}
    (h : (if part = [] ∨ 2 < part.length then none else parseUnsigned 16 255 part) = some n) :
    IsSignedGroup part := by
  split_ifs at h with hlen
  rw [not_or] at hlen
  have hpos := List.length_pos_iff.mpr hlen.1
  refine ⟨by omega, fun hplus => ?_⟩
  have hparse := (Option.filter_eq_some_iff.mp h).1
  split at hparse
  · exact absurd List.mem_cons_self hplus
  · rw [parseDigits] at hparse
    split_ifs at hparse
    exact digitsValue_sixteen hparse

lemma exists_of_mapM_eq_some {α β : Type} {f : α → Option β} {xs : List α} {ys : List β}
    (h : xs.mapM f = some ys) : ∀ x ∈ xs, ∃ y, f x = some y := by
  induction xs generalizing ys with
  | nil => simp
  | cons x xs ih =>
      rw [List.mapM_cons] at h
      obtain ⟨y, hy, h⟩ := Option.bind_eq_some_iff.mp h
      obtain ⟨rest, hrest, -⟩ := Option.bind_eq_some_iff.mp h
      exact List.forall_mem_cons.mpr ⟨⟨y, hy⟩, ih hrest⟩

/-- The groups of a hardware address that is read. -/
lemma addressForm_of_parseMac {text : List Char} {address : MacAddr}
    (h : MacAddr.parse text = some address) : AddressForm IsSignedGroup (.mac address) text := by
  rw [MacAddr.parse] at h
  split_ifs at h with hlen
  obtain ⟨octets, hoctets, -⟩ := Option.bind_eq_some_iff.mp h
  refine ⟨text.splitOn ':', (List.intercalate_splitOn ':').symm, not_not.mp hlen,
    fun part hpart => ?_⟩
  obtain ⟨n, hn⟩ := exists_of_mapM_eq_some hoctets part hpart
  exact isSignedGroup_of_parse hn

/-- A prefix length that is read. -/
lemma eq_of_i32ToPrefix {n : ℤ} {bound p : UInt8} (h : i32ToPrefix n bound = .ok p) :
    n = p.toNat := by
  rw [i32ToPrefix] at h
  split_ifs at h with hrange
  obtain ⟨-, -, hp⟩ := bind_eq_ok.mp h
  obtain rfl := Except.ok.inj hp
  rw [UInt8.toNat_ofNat', Nat.mod_eq_of_lt (by omega)]
  omega

/-- The text of the weight and what is before it. -/
lemma splitWeight_spec {text rest : List Char} {weight : ℤ}
    (h : splitWeight text = .ok (rest, weight)) : ∃ weightText,
      text = rest ++ separatedText '#' weightText ∧ WeightForm PaddedInteger weight weightText := by
  rw [splitWeight] at h
  split at h
  · next before weightText hsplit =>
      obtain ⟨n, hparse, hn⟩ := map_eq_ok.mp h
      obtain ⟨rfl, rfl⟩ := Prod.mk.inj hn
      exact ⟨some weightText, eq_of_splitOnce hsplit, paddedInteger_of_parseCI32 hparse⟩
  · obtain ⟨rfl, rfl⟩ := Prod.mk.inj (Except.ok.inj h)
    exact ⟨none, (List.append_nil _).symm, rfl⟩

/-- The text of the prefix length and what is before it. -/
lemma splitPrefix_spec {text address : List Char} {prefixLen : Option ℤ}
    (h : splitPrefix text = .ok (address, prefixLen)) : ∃ prefixText,
      text = address ++ separatedText '/' prefixText ∧
        (prefixLen = none ∧ prefixText = none ∨ ∃ n digits, prefixLen = some n ∧
          prefixText = some digits ∧ PaddedInteger digits n) := by
  rw [splitPrefix] at h
  split at h
  · next before digits hsplit =>
      obtain ⟨n, hparse, hn⟩ := map_eq_ok.mp h
      obtain ⟨rfl, rfl⟩ := Prod.mk.inj hn
      exact ⟨some digits, eq_of_splitOnce hsplit,
        Or.inr ⟨n, digits, rfl, rfl, paddedInteger_of_parseCI32 hparse⟩⟩
  · obtain ⟨rfl, rfl⟩ := Prod.mk.inj (Except.ok.inj h)
    exact ⟨none, (List.append_nil _).symm, Or.inl ⟨rfl, rfl⟩⟩

/-- An address that is accepted has the form of the grammar. -/
lemma parseKind_spec {address : List Char} {prefixLen : Option ℤ} {kind : SubnetKind}
    {prefixText : Option (List Char)} (h : parseKind address prefixLen = .ok kind)
    (hpre : prefixLen = none ∧ prefixText = none ∨ ∃ n digits, prefixLen = some n ∧
      prefixText = some digits ∧ PaddedInteger digits n) :
    AddressForm IsSignedGroup kind address ∧ PrefixForm PaddedInteger kind prefixText := by
  rw [parseKind] at h
  split at h
  · next mac hmac =>
      split_ifs at h with hnone
      obtain rfl := Except.ok.inj h
      refine ⟨addressForm_of_parseMac hmac, ?_⟩
      rcases hpre with ⟨-, rfl⟩ | ⟨n, digits, rfl, -⟩
      · rfl
      · exact absurd rfl hnone
  · split at h
    · next ipv4 hipv4 =>
        obtain ⟨p, hp, rfl⟩ := map_eq_ok.mp h
        refine ⟨hipv4, ?_⟩
        rcases hpre with ⟨rfl, rfl⟩ | ⟨n, digits, rfl, rfl, hdigits⟩
        · exact UInt8.toNat_inj.mp (Int.natCast_inj.mp (eq_of_i32ToPrefix hp).symm)
        · exact ⟨eq_of_i32ToPrefix hp ▸ hdigits, i32ToPrefix_le hp⟩
    · split at h
      · next ipv6 hipv6 =>
          obtain ⟨p, hp, rfl⟩ := map_eq_ok.mp h
          refine ⟨hipv6, ?_⟩
          rcases hpre with ⟨rfl, rfl⟩ | ⟨n, digits, rfl, rfl, hdigits⟩
          · exact UInt8.toNat_inj.mp (Int.natCast_inj.mp (eq_of_i32ToPrefix hp).symm)
          · exact ⟨eq_of_i32ToPrefix hp ▸ hdigits, i32ToPrefix_le hp⟩
      · cases h

/-- **Every text that is read as a subnet is of its grammar**, with white space allowed before
the numbers. -/
lemma parseSubnet_grammar {text : List Char} {s : Subnet} (h : parseSubnet text = .ok s) :
    SubnetGrammar PaddedInteger IsSignedGroup text s := by
  rw [parseSubnet] at h
  split_ifs at h
  obtain ⟨⟨addressAndPrefix, weight⟩, hweight, h⟩ := bind_eq_ok.mp h
  obtain ⟨⟨address, prefixLen⟩, hpre, h⟩ := bind_eq_ok.mp h
  obtain ⟨kind, hkind, h⟩ := bind_eq_ok.mp h
  obtain rfl := Except.ok.inj h
  obtain ⟨weightText, rfl, hweightText⟩ := splitWeight_spec hweight
  obtain ⟨prefixText, rfl, hpreText⟩ := splitPrefix_spec hpre
  obtain ⟨haddress, hpreForm⟩ := parseKind_spec hkind hpreText
  exact ⟨address, prefixText, weightText, rfl, haddress, hpreForm, hweightText⟩

/-! ### Both directions -/

/-- A subnet without what its text leaves out reads back. -/
lemma parseSubnet_display_kind (s : Subnet) (hpre : s.kind.PrefixFits)
    (hweight : InRange (2 ^ 31) s.weight) :
    parseSubnet s.display.toList = .ok { kind := s.kind, weight := s.weight } :=
  have hparsed : ({ kind := s.kind, weight := s.weight } : Subnet).Parsed :=
    ⟨hpre, hweight, rfl, rfl⟩
  Subnet.parseSubnet_display hparsed

/-- **The text of a subnet**: every subnet reads back from its text, up to the owner and the time
of expiry, which are not written; and a text is only read as a subnet if it is of the grammar.
Before a number there may be white space. -/
theorem subnet_text :
    (∀ s : Subnet, s.kind.PrefixFits → InRange (2 ^ 31) s.weight →
      ∃ s', parseSubnet s.display.toList = .ok s' ∧ s'.kind = s.kind ∧ s'.weight = s.weight) ∧
    ∀ text s, parseSubnet text = .ok s → SubnetGrammar PaddedInteger IsSignedGroup text s :=
  ⟨fun s hpre hweight => ⟨_, parseSubnet_display_kind s hpre hweight, rfl, rfl⟩,
    fun _ _ => parseSubnet_grammar⟩

/-- A network with a weight. -/
theorem subnet_text_weighted : ∃ s',
    parseSubnet (Subnet.display { kind := .ipv4 #v[10, 0, 0, 0] 8, weight := -3 }).toList = .ok s' ∧
      s'.kind = .ipv4 #v[10, 0, 0, 0] 8 ∧ s'.weight = -3 :=
  have hpre : (8 : UInt8) ≤ 32 := by decide
  subnet_text.1 { kind := .ipv4 #v[10, 0, 0, 0] 8, weight := -3 } hpre ⟨by decide, by decide⟩

/-- Integers are written without white space. -/
lemma IsInteger.notMem_space {text : List Char} {n : ℤ} (h : IsInteger text n) : ' ' ∉ text := by
  have hdigit : ¬ IsDecimalDigit ' ' := by decide
  cases h with
  | unsigned hne hdigits => exact fun hmem => hdigit (hdigits _ hmem)
  | plus hne hdigits =>
      exact fun hmem => hdigit (hdigits _ ((List.mem_cons.mp hmem).resolve_left (by decide)))
  | minus hne hdigits =>
      exact fun hmem => hdigit (hdigits _ ((List.mem_cons.mp hmem).resolve_left (by decide)))

lemma exists_of_mem_intercalate {sep c : Char} {parts : List (List Char)}
    (h : c ∈ [sep].intercalate parts) (hc : c ≠ sep) : ∃ part ∈ parts, c ∈ part := by
  cases parts with
  | nil => simp at h
  | cons part parts =>
      rw [intercalate_cons, List.mem_append, List.mem_flatMap] at h
      rcases h with h | ⟨part', hpart, h⟩
      · exact ⟨part, List.mem_cons_self, h⟩
      · exact ⟨part', List.mem_cons_of_mem _ hpart, (List.mem_cons.mp h).resolve_left hc⟩

/-- White space before a weight is accepted, which is not of the grammar with plain integers. -/
theorem parseSubnet_padded_weight :
    ∃ s, parseSubnet "1:2:3:4:5:6# 7".toList = .ok s ∧
      ¬ SubnetGrammar IsInteger IsHexGroup "1:2:3:4:5:6# 7".toList s := by
  refine ⟨{ kind := .mac #v[1, 2, 3, 4, 5, 6], weight := 7 }, by decide +kernel, ?_⟩
  rintro ⟨address, prefixText, weightText, htext, ⟨groups, rfl, -, hgroups⟩, rfl, hweight⟩
  have hmem : ' ' ∈ "1:2:3:4:5:6# 7".toList := by decide
  rw [htext, separatedText, List.append_nil, List.mem_append] at hmem
  rcases hmem with hmem | hmem
  · obtain ⟨part, hpart, hspace⟩ := exists_of_mem_intercalate hmem (by decide)
    exact absurd ((hgroups part hpart).2 ' ' hspace) (by decide)
  · cases weightText with
    | none => cases hmem
    | some digits =>
        exact hweight.notMem_space ((List.mem_cons.mp hmem).resolve_left (by decide))

end RustyTinc

import RustyTinc.Core.PastRequests
import RustyTinc.Library.Bytes
import RustyTinc.Library.Text

/-!
The text forms of addresses.

* `MacAddr.parse_display`, `Ipv4Addr.parse_display`, `Ipv6Addr.parse_display`: addresses read
  back from their texts;
* `Ipv6Addr.parseMac_display`, `Ipv6Addr.parseIpv4_display`: the text of an IPv6 address is not
  the text of an address of another kind.
-/

namespace RustyTinc

open Text

/-! ### The reader of addresses -/

/-- The rest of a text that begins with the character. -/
def readGivenChar (c : Char) : List Char → Option (List Char)
  | [] => none
  | c' :: rest => if c' = c then some rest else none

/-- A number of a bounded number of digits. -/
def readNumber (radix maxDigits : ℕ) (allowZeroPrefix : Bool) (bound : ℕ) (text : List Char) :
    Option (ℕ × List Char) :=
  let digits := text.takeWhile fun c => (digitValue radix c).isSome
  let rest := text.dropWhile fun c => (digitValue radix c).isSome
  if maxDigits < digits.length ∨ (¬ allowZeroPrefix ∧ digits.headD ' ' = '0' ∧ 1 < digits.length)
  then none
  else ((parseDigits radix digits).filter (· ≤ bound)).map fun n : ℕ => (n, rest)

/-- Octets with dots between them. -/
def readIpv4Octets : ℕ → Bool → List Char → Option (List ℕ × List Char)
  | 0, _, text => some ([], text)
  | count + 1, first, text => do
      let text ← if first then some text else readGivenChar '.' text
      let (octet, text) ← readNumber 10 3 false 255 text
      let (octets, text) ← readIpv4Octets count false text
      return (octet :: octets, text)

/-- The four numbers of an IPv4 address at the front of a text. -/
def readIpv4Addr (text : List Char) : Option (List ℕ × List Char) := readIpv4Octets 4 true text

/-- Up to `limit` groups with colons between them, and whether the last two were written as an
IPv4 address. -/
def readGroups : ℕ → Bool → List Char → List ℕ × Bool × List Char
  | 0, _, text => ([], false, text)
  | limit + 1, first, text =>
      let body := if first then some text else readGivenChar ':' text
      match (if 0 < limit then body.bind readIpv4Addr else none) with
      | some (octets, rest) =>
          ([octets.getD 0 0 * 256 + octets.getD 1 0, octets.getD 2 0 * 256 + octets.getD 3 0],
            true, rest)
      | none =>
          match body.bind (readNumber 16 4 true 0xffff) with
          | some (group, rest) =>
              let r := readGroups limit false rest
              (group :: r.1, r.2)
          | none => ([], false, text)

/-- The eight groups of an IPv6 address at the front of a text, where `::` stands for those left
out. -/
def readIpv6Addr (text : List Char) : Option (List ℕ × List Char) :=
  let (head, headIpv4, rest) := readGroups 8 true text
  if head.length = 8 then some (head, rest)
  else if headIpv4 then none
  else do
    let rest ← readGivenChar ':' rest
    let rest ← readGivenChar ':' rest
    let (tail, _, rest) := readGroups (8 - (head.length + 1)) true rest
    return (head ++ List.replicate (8 - head.length - tail.length) 0 ++ tail, rest)

/-- Six groups of at most two hexadecimal digits. -/
def MacAddr.parse (text : List Char) : Option MacAddr :=
  let parts := text.splitOn ':'
  if parts.length ≠ 6 then none
  else do
    let octets ← parts.mapM fun part =>
      if part = [] ∨ 2 < part.length then none else parseUnsigned 16 255 part
    return Bytes.array 6 (octets.map UInt8.ofNat)

/-- A whole text that is an IPv4 address. -/
def Ipv4Addr.parse (text : List Char) : Option Ipv4Addr :=
  if 15 < text.length then none
  else
    match readIpv4Addr text with
    | some (octets, []) => some (Bytes.array 4 (octets.map UInt8.ofNat))
    | _ => none

/-- The bytes of eight groups, the high byte of each group first. -/
def Ipv6Addr.ofSegments (segments : List ℕ) : Ipv6Addr :=
  Bytes.array 16 (segments.flatMap fun s => [UInt8.ofNat (s / 256), UInt8.ofNat s])

/-- A whole text that is an IPv6 address. -/
def Ipv6Addr.parse (text : List Char) : Option Ipv6Addr :=
  match readIpv6Addr text with
  | some (segments, []) => some (Ipv6Addr.ofSegments segments)
  | _ => none

/-! ### Numbers within addresses -/

/-- What follows a number does not continue it. -/
def Ends (text : List Char) : Prop := text = [] ∨ ∃ rest, text = '.' :: rest ∨ text = ':' :: rest

/-- The digits of a number are all that is read of it. -/
lemma Ends.takeWhile_append {radix n : ℕ} {rest : List Char} (hpos : 1 < radix) (hle : radix ≤ 16)
    (h : Ends rest) :
    (Nat.toDigits radix n ++ rest).takeWhile (fun c => (digitValue radix c).isSome) =
        Nat.toDigits radix n ∧
      (Nat.toDigits radix n ++ rest).dropWhile (fun c => (digitValue radix c).isSome) = rest := by
  have hdigits : ∀ c ∈ Nat.toDigits radix n, (digitValue radix c).isSome = true := by
    intro c hc
    obtain ⟨d, hd, rfl⟩ := exists_digit_of_mem_toDigits hpos hc
    rw [digitValue_digitChar (lt_of_lt_of_le hd hle) hd]
    rfl
  have hend : ∀ c, c = '.' ∨ c = ':' → (digitValue radix c).isSome = false := by
    rintro c (rfl | rfl) <;> rfl
  rw [List.takeWhile_append_of_pos hdigits, List.dropWhile_append_of_pos hdigits]
  rcases h with rfl | ⟨rest, rfl | rfl⟩
  · simp
  · simp [hend '.' (Or.inl rfl)]
  · simp [hend ':' (Or.inr rfl)]

/-- A number is read when it has no leading zeros or these are allowed. -/
lemma readNumber_toDigits {radix maxDigits bound n : ℕ} {allowZeroPrefix : Bool}
    {rest : List Char} (hpos : 1 < radix) (hle : radix ≤ 16) (hrest : Ends rest)
    (hlen : (Nat.toDigits radix n).length ≤ maxDigits) (hbound : n ≤ bound)
    (hzero : allowZeroPrefix = true ∨
      ¬((Nat.toDigits radix n).headD ' ' = '0' ∧ 1 < (Nat.toDigits radix n).length)) :
    readNumber radix maxDigits allowZeroPrefix bound (Nat.toDigits radix n ++ rest) =
      some (n, rest) := by
  obtain ⟨htake, hdrop⟩ := hrest.takeWhile_append (n := n) hpos hle
  have hgood : ¬(maxDigits < (Nat.toDigits radix n).length ∨ (¬ allowZeroPrefix ∧
      (Nat.toDigits radix n).headD ' ' = '0' ∧ 1 < (Nat.toDigits radix n).length)) := by
    rintro (h | ⟨hallow, h⟩)
    · omega
    · exact (hzero.resolve_left hallow) h
  rw [readNumber, htake, hdrop, if_neg hgood,
    parseDigits_toDigits hpos hle]
  simp [Option.filter, hbound]

lemma readNumber_octet {n : ℕ} {rest : List Char} (hn : n < 256) (hrest : Ends rest) :
    readNumber 10 3 false 255 (Nat.toDigits 10 n ++ rest) = some (n, rest) := by
  have hlead : ∀ n : Fin 256,
      ¬((Nat.toDigits 10 n).headD ' ' = '0' ∧ 1 < (Nat.toDigits 10 n).length) := by
    decide +kernel
  exact readNumber_toDigits (by omega) (by omega) hrest
    ((Nat.length_toDigits_le_iff (by omega) (by omega)).mpr (by omega)) (by omega)
    (Or.inr (hlead ⟨n, hn⟩))

lemma readNumber_group {n : ℕ} {rest : List Char} (hn : n < 65536) (hrest : Ends rest) :
    readNumber 16 4 true 0xffff (Nat.toDigits 16 n ++ rest) = some (n, rest) :=
  readNumber_toDigits (by omega) (by omega) hrest
    ((Nat.length_toDigits_le_iff (by omega) (by omega)).mpr (by omega)) (by omega) (Or.inl rfl)

lemma rest_of_readNumber {radix maxDigits bound n : ℕ} {allowZeroPrefix : Bool}
    {text rest : List Char}
    (h : readNumber radix maxDigits allowZeroPrefix bound text = some (n, rest)) :
    rest = text.dropWhile fun c => (digitValue radix c).isSome := by
  unfold readNumber at h
  dsimp only at h
  split at h
  · cases h
  · obtain ⟨m, -, hm⟩ := Option.map_eq_some_iff.mp h
    exact (Prod.mk.inj hm).2.symm

/-- An address does not begin with digits that no dot follows. -/
lemma readIpv4Addr_eq_none {text : List Char}
    (h : readGivenChar '.' (text.dropWhile fun c => (digitValue 10 c).isSome) = none) :
    readIpv4Addr text = none := by
  cases hnumber : readNumber 10 3 false 255 text with
  | none => simp [readIpv4Addr, readIpv4Octets, hnumber]
  | some r =>
      obtain ⟨n, rest⟩ := r
      obtain rfl := rest_of_readNumber hnumber
      simp [readIpv4Addr, readIpv4Octets, hnumber, h]

/-- A group that a colon or nothing follows is not the start of an IPv4 address. -/
lemma readIpv4Addr_group {n : ℕ} {rest : List Char}
    (hrest : rest = [] ∨ ∃ r, rest = ':' :: r) :
    readIpv4Addr (Nat.toDigits 16 n ++ rest) = none := by
  have hdot : '.' ∉ Nat.toDigits 16 n := fun hmem =>
    absurd (mem_lowerDigits_of_mem_toDigits (by omega) (by omega) hmem) (by decide)
  refine readIpv4Addr_eq_none ?_
  cases hdrop : (Nat.toDigits 16 n ++ rest).dropWhile fun c => (digitValue 10 c).isSome with
  | nil => rfl
  | cons c r =>
      have hc : c ≠ '.' := by
        rintro rfl
        have hmem : '.' ∈ Nat.toDigits 16 n ++ rest :=
          (List.dropWhile_sublist _).subset (hdrop ▸ List.mem_cons_self)
        have hstop : (Nat.toDigits 16 n).dropWhile (fun c => (digitValue 10 c).isSome) = [] := by
          by_contra hne
          rw [List.dropWhile_append, if_neg (by simpa using hne)] at hdrop
          obtain ⟨c', r', hcons⟩ := List.exists_cons_of_ne_nil hne
          rw [hcons, List.cons_append] at hdrop
          have hmem : c' ∈ Nat.toDigits 16 n :=
            (List.dropWhile_sublist _).subset (hcons ▸ List.mem_cons_self)
          exact hdot ((List.cons.inj hdrop).1 ▸ hmem)
        rw [List.dropWhile_append, if_pos (by simp [hstop])] at hdrop
        rcases hrest with rfl | ⟨r', rfl⟩
        · simp at hdrop
        · have hcolon : (digitValue 10 ':').isSome = false := rfl
          rw [List.dropWhile_cons_of_neg (by simp [hcolon])] at hdrop
          exact absurd (List.cons.inj hdrop).1 (by decide)
      simp [readGivenChar, hc]

/-! ### IPv4 -/

/-- Numbers behind points are read again. -/
lemma readIpv4Octets_dotted {octets : List ℕ} {rest : List Char} (h : ∀ n ∈ octets, n < 256)
    (hrest : Ends rest) :
    readIpv4Octets octets.length false
      (octets.flatMap (fun n => '.' :: Nat.toDigits 10 n) ++ rest) = some (octets, rest) := by
  induction octets with
  | nil => rfl
  | cons n octets ih =>
      obtain ⟨hn, h⟩ := List.forall_mem_cons.mp h
      have hends : Ends (octets.flatMap (fun n => '.' :: Nat.toDigits 10 n) ++ rest) := by
        cases octets with
        | nil => exact hrest
        | cons m octets => exact Or.inr ⟨_, Or.inl rfl⟩
      have hnumber := readNumber_octet hn hends
      simp only [List.flatMap_cons, List.length_cons, readIpv4Octets, List.cons_append,
        List.append_assoc, readGivenChar, if_true, Bool.false_eq_true, if_false]
      simp [hnumber, ih h]

/-- The text of some numbers with a separator between them. -/
def separated (sep : Char) (radix : ℕ) (numbers : List ℕ) : List Char :=
  [sep].intercalate (numbers.map (Nat.toDigits radix))

lemma separated_cons (sep : Char) (radix n : ℕ) (numbers : List ℕ) :
    separated sep radix (n :: numbers) =
      Nat.toDigits radix n ++ numbers.flatMap fun n => sep :: Nat.toDigits radix n := by
  rw [separated, List.map_cons, intercalate_cons, List.flatMap_map]

/-- Four numbers with points between them are read again. -/
lemma readIpv4Addr_separated {a b c d : ℕ} {rest : List Char}
    (h : ∀ n ∈ [a, b, c, d], n < 256) (hrest : Ends rest) :
    readIpv4Addr (separated '.' 10 [a, b, c, d] ++ rest) = some ([a, b, c, d], rest) := by
  obtain ⟨ha, h⟩ := List.forall_mem_cons.mp h
  have htail := readIpv4Octets_dotted h hrest
  have hnumber := @readNumber_octet a ([b, c, d].flatMap (fun n => '.' :: Nat.toDigits 10 n) ++
    rest) ha (Or.inr ⟨_, Or.inl rfl⟩)
  rw [separated_cons, List.append_assoc, readIpv4Addr, readIpv4Octets]
  simp only [if_true, Option.bind_eq_bind, Option.bind_some, hnumber]
  rw [show ([b, c, d] : List ℕ).length = 3 from rfl] at htail
  rw [htail]
  rfl

namespace Ipv4Addr

/-- The octets as numbers. -/
def octets (address : Ipv4Addr) : List ℕ := address.toList.map UInt8.toNat

lemma toList_display (address : Ipv4Addr) :
    address.display.toList = separated '.' 10 address.octets := by
  have hdot : ".".toList = ['.'] := rfl
  rw [display, String.toList_intercalate, separated, octets, List.map_map, List.map_map, hdot]
  exact congrArg _ (List.map_congr_left fun b _ => Nat.toList_repr)

/-- **IPv4 addresses read back.** -/
theorem parse_display (address : Ipv4Addr) : parse address.display.toList = some address := by
  obtain ⟨a, b, c, d, hoctets⟩ : ∃ a b c d, address.toList = [a, b, c, d] := by
    have hlen : address.toList.length = 4 := by simp
    match address.toList, hlen with
    | [a, b, c, d], _ => exact ⟨a, b, c, d, rfl⟩
  have htext : address.display.toList =
      separated '.' 10 [a.toNat, b.toNat, c.toNat, d.toNat] ++ [] := by
    rw [toList_display, octets, hoctets, List.append_nil]
    rfl
  have hread := @readIpv4Addr_separated a.toNat b.toNat c.toNat d.toNat []
    (by simpa using ⟨a.toNat_lt, b.toNat_lt, c.toNat_lt, d.toNat_lt⟩) (Or.inl rfl)
  have hlen : (separated '.' 10 [a.toNat, b.toNat, c.toNat, d.toNat]).length ≤ 15 := by
    have hdigits : ∀ b : UInt8, (Nat.toDigits 10 b.toNat).length ≤ 3 := fun b =>
      (Nat.length_toDigits_le_iff (by omega) (by omega)).mpr (by have := b.toNat_lt; omega)
    have ha := hdigits a
    have hb := hdigits b
    have hc := hdigits c
    have hd := hdigits d
    simp only [separated_cons, List.flatMap_cons, List.flatMap_nil, List.length_append,
      List.length_cons, List.length_nil]
    omega
  rw [htext, parse, if_neg (by simpa using hlen), hread]
  have harray : Bytes.array 4 address.toList = address := Bytes.array_toList address
  rw [hoctets] at harray
  simpa using harray

end Ipv4Addr

/-! ### IPv6 -/

section Groups

variable {rest : List Char}

/-- The groups may end here. -/
def GroupsEnd (text : List Char) : Prop := text = [] ∨ ∃ rest, text = ':' :: ':' :: rest

lemma GroupsEnd.ends (h : GroupsEnd rest) : Ends rest :=
  h.imp_right fun ⟨r, hr⟩ => ⟨':' :: r, Or.inr hr⟩

lemma readNumber_colon (text : List Char) : readNumber 16 4 true 0xffff (':' :: text) = none := by
  have hcolon : (digitValue 16 ':').isSome = false := rfl
  simp [readNumber, hcolon, parseDigits]

lemma readIpv4Addr_colon (text : List Char) : readIpv4Addr (':' :: text) = none := by
  have hcolon : (digitValue 10 ':').isSome = false := rfl
  refine readIpv4Addr_eq_none ?_
  rw [List.dropWhile_cons_of_neg (by simp [hcolon])]
  rfl

lemma readGroups_end {limit : ℕ} {first : Bool} (h : GroupsEnd rest) :
    readGroups limit first rest = ([], false, rest) := by
  cases limit with
  | zero => rfl
  | succ limit =>
      rcases h with rfl | ⟨r, rfl⟩
      · have hnone : readIpv4Addr [] = none := rfl
        cases first <;> simp [readGroups, readGivenChar, hnone, readNumber, parseDigits]
      · cases first <;>
          simp [readGroups, readGivenChar, readIpv4Addr_colon, readNumber_colon]

/-- One group, when what follows it is another one or the end. -/
lemma readGroups_group {limit g : ℕ} {first : Bool} {text : List Char} (hg : g < 65536)
    (htext : (if first then some text else readGivenChar ':' text) =
      some (Nat.toDigits 16 g ++ rest))
    (hrest : rest = [] ∨ ∃ r, rest = ':' :: r) :
    readGroups (limit + 1) first text =
      (g :: (readGroups limit false rest).1, (readGroups limit false rest).2) := by
  have hends : Ends rest := hrest.imp_right fun ⟨r, hr⟩ => ⟨r, Or.inr hr⟩
  have hipv4 : (if 0 < limit then readIpv4Addr (Nat.toDigits 16 g ++ rest) else none) = none := by
    rw [readIpv4Addr_group hrest, ite_self]
  rw [readGroups, htext]
  simp only [Option.bind_some, hipv4, readNumber_group hg hends]

/-- Groups as they are written, with a colon before the first one too unless they start a text. -/
def groupsText (first : Bool) (groups : List ℕ) : List Char :=
  if first then separated ':' 16 groups else groups.flatMap fun g => ':' :: Nat.toDigits 16 g

/-- Groups with colons between them are read again, and nothing behind them. -/
lemma readGroups_groupsText {groups : List ℕ} {limit : ℕ} {first : Bool}
    (h : ∀ g ∈ groups, g < 65536) (hlen : groups.length ≤ limit) (hrest : GroupsEnd rest) :
    readGroups limit first (groupsText first groups ++ rest) = (groups, false, rest) := by
  induction groups generalizing limit first with
  | nil => cases first <;> exact readGroups_end hrest
  | cons g groups ih =>
      obtain ⟨hg, h⟩ := List.forall_mem_cons.mp h
      obtain ⟨limit, rfl⟩ := Nat.exists_eq_add_one_of_ne_zero (n := limit) (by
        rw [List.length_cons] at hlen
        omega)
      have hmore : groupsText false groups ++ rest = [] ∨
          ∃ r, groupsText false groups ++ rest = ':' :: r := by
        cases groups with
        | nil => exact hrest.imp_right fun ⟨r, hr⟩ => ⟨':' :: r, hr⟩
        | cons g' groups => exact Or.inr ⟨_, rfl⟩
      have htext : (if first then some (groupsText first (g :: groups) ++ rest)
          else readGivenChar ':' (groupsText first (g :: groups) ++ rest)) =
            some (Nat.toDigits 16 g ++ (groupsText false groups ++ rest)) := by
        cases first <;> simp [groupsText, separated_cons, readGivenChar]
      rw [readGroups_group hg htext hmore, ih h (by simpa using hlen)]

/-- **Groups with colons between them are read.** -/
lemma readGroups_separated {groups : List ℕ} {limit : ℕ} (h : ∀ g ∈ groups, g < 65536)
    (hlen : groups.length ≤ limit) (hrest : GroupsEnd rest) :
    readGroups limit true (separated ':' 16 groups ++ rest) = (groups, false, rest) :=
  readGroups_groupsText h hlen hrest

end Groups

namespace Ipv6Addr

/-- A run of zeros in some segments, up to a position. -/
def ZeroRun (all : List ℕ) (n : ℕ) (run : ℕ × ℕ) : Prop :=
  run.1 + run.2 ≤ n ∧ ∀ i, run.1 ≤ i → i < run.1 + run.2 → all[i]? = some 0

/-- The step of `zeroRun`. -/
def zeroRunStep (runs : (ℕ × ℕ) × (ℕ × ℕ)) (segment : ℕ × ℕ) : (ℕ × ℕ) × (ℕ × ℕ) :=
  if segment.1 = 0 then
    let current := (if runs.2.2 = 0 then segment.2 else runs.2.1, runs.2.2 + 1)
    (if current.2 > runs.1.2 then current else runs.1, current)
  else (runs.1, (0, 0))

/-- What the search has found is a run of zeros; the current run ends where the search is. -/
lemma zeroRun_foldl {all rest : List ℕ} {n : ℕ} {runs : (ℕ × ℕ) × (ℕ × ℕ)}
    (hn : n ≤ all.length) (hall : all.drop n = rest) (hlongest : ZeroRun all n runs.1)
    (hcurrent : ZeroRun all n runs.2) (hends : runs.2.2 = 0 ∨ runs.2.1 + runs.2.2 = n) :
    ZeroRun all all.length ((rest.zipIdx n).foldl zeroRunStep runs).1 := by
  induction rest generalizing n runs with
  | nil =>
      have hle : all.length ≤ n := List.drop_eq_nil_iff.mp hall
      exact le_antisymm hn hle ▸ hlongest
  | cons segment rest ih =>
      have hget : all[n]? = some segment := by
        rw [← List.head?_drop, hall]
        rfl
      have hrest : all.drop (n + 1) = rest := by
        rw [← List.tail_drop, hall]
        rfl
      have hlt : n < all.length := by
        by_contra hge
        rw [List.getElem?_eq_none (not_lt.mp hge)] at hget
        cases hget
      have hlongest' : ZeroRun all (n + 1) runs.1 := ⟨by have := hlongest.1; omega, hlongest.2⟩
      rw [List.zipIdx_cons, List.foldl_cons]
      by_cases hzero : segment = 0
      · obtain ⟨start, hstart, hlen, hsame⟩ : ∃ start,
            (if runs.2.2 = 0 then n else runs.2.1) = start ∧ start + runs.2.2 = n ∧
              (runs.2.2 = 0 ∨ start = runs.2.1) := by
          by_cases hempty : runs.2.2 = 0
          · exact ⟨n, if_pos hempty, by omega, Or.inl hempty⟩
          · exact ⟨runs.2.1, if_neg hempty, hends.resolve_left hempty, Or.inr rfl⟩
        have hcurrent' : ZeroRun all (n + 1) (start, runs.2.2 + 1) := by
          refine ⟨by simp only; omega, fun i hi hi' => ?_⟩
          simp only at hi hi'
          by_cases hlast : i = n
          · rw [hlast, hget, hzero]
          · have hstart' := hsame.resolve_left (by omega)
            exact hcurrent.2 i (by omega) (by omega)
        have hstep : zeroRunStep runs (segment, n) =
            (if runs.2.2 + 1 > runs.1.2 then (start, runs.2.2 + 1) else runs.1,
              (start, runs.2.2 + 1)) := by
          simp only [zeroRunStep, hzero, if_true, hstart]
        rw [hstep]
        refine ih hlt hrest ?_ hcurrent' (Or.inr (by simp only; omega))
        split_ifs
        · exact hcurrent'
        · exact hlongest'
      · simp only [zeroRunStep, hzero, if_false]
        exact ih hlt hrest hlongest' ⟨Nat.zero_le _, fun i _ hi => absurd hi (Nat.not_lt_zero i)⟩
          (Or.inl rfl)

lemma zeroRun_spec (segments : List ℕ) :
    ZeroRun segments segments.length (zeroRun segments) := by
  have hempty : ZeroRun segments 0 (0, 0) := ⟨le_rfl, fun i _ hi => absurd hi (by simp)⟩
  exact zeroRun_foldl (Nat.zero_le _) rfl hempty hempty (Or.inl rfl)

/-- Some segments with a run of zeros left out. -/
lemma take_append_drop_of_zeroRun {segments : List ℕ} {start len : ℕ}
    (h : ZeroRun segments segments.length (start, len)) :
    segments.take start ++ List.replicate len 0 ++ segments.drop (start + len) = segments := by
  have hmiddle : List.replicate len 0 = (segments.drop start).take len := by
    refine List.ext_getElem? fun i => ?_
    rw [List.getElem?_take, List.getElem?_drop, List.getElem?_replicate]
    split_ifs with hi
    · exact (h.2 (start + i) (by simp) (by simpa using hi)).symm
    · rfl
  rw [hmiddle, ← List.drop_drop, List.append_assoc, List.take_append_drop, List.take_append_drop]

/-! The segments of an address -/

section Segments

variable (address : Ipv6Addr)

lemma length_segments : address.segments.length = 8 := by simp [segments]

lemma segments_lt {s : ℕ} (h : s ∈ address.segments) : s < 65536 := by
  obtain ⟨i, -, rfl⟩ := List.mem_map.mp h
  have := (address.toList.getD (2 * i) 0).toNat_lt
  have := (address.toList.getD (2 * i + 1) 0).toNat_lt
  omega

/-- The octets of an address, one by one. -/
lemma exists_octets : ∃ a b c d e f g h i j k l m n o q : UInt8,
    address.toList = [a, b, c, d, e, f, g, h, i, j, k, l, m, n, o, q] := by
  have hlen : address.toList.length = 16 := by simp
  match address.toList, hlen with
  | [a, b, c, d, e, f, g, h, i, j, k, l, m, n, o, q], _ =>
      exact ⟨a, b, c, d, e, f, g, h, i, j, k, l, m, n, o, q, rfl⟩

/-- **The segments of an address determine it.** -/
lemma ofSegments_segments : ofSegments address.segments = address := by
  have hpair : ∀ x y : UInt8, UInt8.ofNat ((x.toNat * 256 + y.toNat) / 256) = x ∧
      UInt8.ofNat (x.toNat * 256 + y.toNat) = y := by
    intro x y
    have hx := x.toNat_lt
    have hy := y.toNat_lt
    constructor
    · rw [show (x.toNat * 256 + y.toNat) / 256 = x.toNat by omega, UInt8.ofNat_toNat]
    · refine UInt8.toNat_inj.mp ?_
      rw [UInt8.toNat_ofNat']
      omega
  have hbytes : address.segments.flatMap (fun s => [UInt8.ofNat (s / 256), UInt8.ofNat s]) =
      address.toList := by
    obtain ⟨a, b, c, d, e, f, g, h, i, j, k, l, m, n, o, q, hoctets⟩ := address.exists_octets
    rw [segments, hoctets]
    simp [List.range_succ, hpair]
  rw [ofSegments, hbytes, Bytes.array_toList]

/-- The three forms of the text of an address: mapped, with a run of zeros left out, and full. -/
lemma display_cases :
    (∃ a b c d : UInt8, address.segments = [0, 0, 0, 0, 0, 0xffff,
        a.toNat * 256 + b.toNat, c.toNat * 256 + d.toNat] ∧
      address.display.toList = ':' :: ':' :: (Nat.toDigits 16 0xffff ++
        ':' :: separated '.' 10 [a.toNat, b.toNat, c.toNat, d.toNat])) ∨
    (∃ start len, ZeroRun address.segments 8 (start, len) ∧ 1 < len ∧
      address.display.toList = separated ':' 16 (address.segments.take start) ++
        ':' :: ':' :: separated ':' 16 (address.segments.drop (start + len))) ∨
    address.display.toList = separated ':' 16 address.segments := by
  have htext : ∀ segments : List ℕ,
      (":".intercalate (segments.map hex)).toList = separated ':' 16 segments := by
    intro segments
    rw [String.toList_intercalate, List.map_map, separated]
    congr 1
    exact List.map_congr_left fun s _ => String.toList_ofList
  rw [display]
  dsimp only
  split_ifs with hmapped hrun
  · left
    obtain ⟨a, b, c, d, e, f, g, h, i, j, k, l, m, n, o, q, hoctets⟩ := address.exists_octets
    refine ⟨m, n, o, q, ?_, ?_⟩
    · rw [← List.take_append_drop 6 address.segments, hmapped]
      simp [segments, hoctets, List.range_succ]
    · have hpre : "::ffff:".toList = ':' :: ':' :: (Nat.toDigits 16 0xffff ++ [':']) := by
        decide
      have hdot : ".".toList = ['.'] := rfl
      rw [String.toList_append, hpre, String.toList_intercalate, hoctets, hdot]
      simp [separated]
  · right
    left
    have hspec := zeroRun_spec address.segments
    rw [length_segments] at hspec
    refine ⟨_, _, hspec, hrun, ?_⟩
    have hcolons : "::".toList = [':', ':'] := rfl
    simp only [String.toList_append, htext, hcolons, List.append_assoc, List.cons_append,
      List.nil_append]
    rfl
  · exact Or.inr (Or.inr (htext _))

/-- **IPv6 addresses read back.** -/
theorem parse_display : parse address.display.toList = some address := by
  have hread : readIpv6Addr address.display.toList = some (address.segments, []) := by
    have hlt : ∀ {s}, s ∈ address.segments → s < 65536 := fun h => address.segments_lt h
    have hlen := address.length_segments
    rcases address.display_cases with ⟨a, b, c, d, hsegments, htext⟩ |
      ⟨start, len, hrun, hlong, htext⟩ | htext
    · have hhead : ∀ r, readGroups 8 true (':' :: ':' :: r) = ([], false, ':' :: ':' :: r) :=
        fun r => readGroups_end (Or.inr ⟨r, rfl⟩)
      have hdotted := @readIpv4Addr_separated a.toNat b.toNat c.toNat d.toNat []
        (by simpa using ⟨a.toNat_lt, b.toNat_lt, c.toNat_lt, d.toNat_lt⟩) (Or.inl rfl)
      rw [List.append_nil] at hdotted
      have htail : readGroups 7 true (Nat.toDigits 16 0xffff ++
          ':' :: separated '.' 10 [a.toNat, b.toNat, c.toNat, d.toNat]) =
            ([0xffff, a.toNat * 256 + b.toNat, c.toNat * 256 + d.toNat], true, []) := by
        rw [readGroups_group (g := 0xffff) (by omega) (if_pos rfl) (Or.inr ⟨_, rfl⟩)]
        simp [readGroups, readGivenChar, hdotted]
      rw [htext, hsegments, readIpv6Addr, hhead]
      simp only [List.length_nil, Nat.reduceAdd, Nat.reduceSub, readGivenChar, if_true,
        Option.bind_eq_bind, Option.bind_some, htail]
      rfl
    · have hle : start + len ≤ 8 := hrun.1
      have hhead := @readGroups_separated
        (':' :: ':' :: separated ':' 16 (address.segments.drop (start + len)))
        (address.segments.take start) 8
        (fun s hs => hlt (List.mem_of_mem_take hs)) (by rw [List.length_take]; omega)
        (Or.inr ⟨_, rfl⟩)
      have hstart : (address.segments.take start).length = start := by
        rw [List.length_take]
        omega
      have htail := @readGroups_separated [] (address.segments.drop (start + len))
        (8 - (start + 1)) (fun s hs => hlt (List.mem_of_mem_drop hs))
        (by rw [List.length_drop]; omega) (Or.inl rfl)
      have hdrop : 8 - start - (address.segments.drop (start + len)).length = len := by
        rw [List.length_drop]
        omega
      rw [← hlen] at hrun
      rw [List.append_nil] at htail
      rw [htext, readIpv6Addr, hhead]
      simp only [hstart, show ¬start = 8 by omega, if_false, Bool.false_eq_true, readGivenChar,
        if_true, Option.bind_eq_bind, Option.bind_some, htail, hdrop,
        take_append_drop_of_zeroRun hrun]
      rfl
    · have hhead := @readGroups_separated [] address.segments 8
        (fun s hs => hlt hs) hlen.le (Or.inl rfl)
      rw [List.append_nil] at hhead
      rw [htext, readIpv6Addr, hhead]
      simp only [hlen, if_true]
  rw [parse, hread]
  exact congrArg some address.ofSegments_segments

end Segments

end Ipv6Addr

/-! ### Hardware addresses -/

namespace MacAddr

lemma toList_hexByte (b : UInt8) :
    (hexByte b).toList = (if b < 16 then ['0'] else []) ++ Nat.toDigits 16 b.toNat := by
  rw [hexByte, hex, String.toList_append, String.toList_ofList]
  split_ifs <;> rfl

/-- The two digits of an octet. -/
lemma hexByte_spec (b : UInt8) : (hexByte b).toList.length = 2 ∧
    (∀ c ∈ (hexByte b).toList, c ∈ lowerDigits) ∧
    parseUnsigned 16 255 (hexByte b).toList = some b.toNat := by
  have hall : ∀ n : Fin 256, ∀ digits ∈ [(if n.val < 16 then ['0'] else []) ++
      Nat.toDigits 16 n.val], digits.length = 2 ∧ (digits.all fun c => c ∈ lowerDigits) = true ∧
        parseUnsigned 16 255 digits = some n.val := by decide +kernel
  have hlt : b < 16 ↔ b.toNat < 16 := UInt8.lt_iff_toNat_lt
  rw [toList_hexByte]
  simp only [hlt]
  obtain ⟨hlength, hdigits, hparse⟩ := hall ⟨b.toNat, b.toNat_lt⟩ _ List.mem_cons_self
  exact ⟨hlength, forall_mem_of_all hdigits, hparse⟩

lemma toList_display (address : MacAddr) :
    address.display.toList = [':'].intercalate (address.toList.map fun b => (hexByte b).toList) := by
  have hcolon : ":".toList = [':'] := rfl
  rw [display, String.toList_intercalate, List.map_map, hcolon]
  rfl

/-- **Hardware addresses read back.** -/
theorem parse_display (address : MacAddr) : parse address.display.toList = some address := by
  have hsplit : address.display.toList.splitOn ':' =
      address.toList.map fun b => (hexByte b).toList := by
    rw [toList_display, List.splitOn_intercalate]
    · rintro digits hdigits hcolon
      obtain ⟨b, -, rfl⟩ := List.mem_map.mp hdigits
      exact absurd ((hexByte_spec b).2.1 ':' hcolon) (by decide)
    · intro hnil
      have := congrArg List.length hnil
      simp at this
  have hparts : ∀ octets : List UInt8, (octets.map fun b => (hexByte b).toList).mapM
      (fun part => if part = [] ∨ 2 < part.length then none else parseUnsigned 16 255 part) =
        some (octets.map UInt8.toNat) := by
    intro octets
    induction octets with
    | nil => rfl
    | cons b octets ih =>
        obtain ⟨hlen, -, hparse⟩ := hexByte_spec b
        have hgood : ¬((hexByte b).toList = [] ∨ 2 < (hexByte b).toList.length) := by
          rintro (h | h)
          · rw [h] at hlen
            cases hlen
          · omega
        rw [List.map_cons, List.mapM_cons, ih, if_neg hgood, hparse]
        rfl
  rw [parse, hsplit]
  simp only [List.length_map, Vector.length_toList, ne_eq, not_true, if_false, hparts]
  simp [Function.comp_def]

/-- A text with an empty part or without six of them is not a hardware address. -/
lemma parse_eq_none {text : List Char}
    (h : (text.splitOn ':').length ≠ 6 ∨ [] ∈ text.splitOn ':') : parse text = none := by
  rw [parse]
  split_ifs with hlen
  · rfl
  · have hempty := h.resolve_left (not_not.mpr (not_not.mp hlen))
    have hnone : ∀ parts : List (List Char), [] ∈ parts → parts.mapM
        (fun part => if part = [] ∨ 2 < part.length then none else parseUnsigned 16 255 part) =
          none := by
      intro parts hmem
      induction parts with
      | nil => cases hmem
      | cons part parts ih =>
          rw [List.mapM_cons]
          rcases List.mem_cons.mp hmem with rfl | hmem
          · rfl
          · rw [ih hmem]
            cases (if part = [] ∨ 2 < part.length then none else parseUnsigned 16 255 part) <;> rfl
    rw [hnone _ hempty]
    rfl

end MacAddr

/-! ### Texts of one kind only -/

/-- The characters of addresses. -/
def addressChars : List Char := ':' :: '.' :: lowerDigits

/-- The text of some numbers holds digits and separators only. -/
lemma mem_separated {sep : Char} {radix : ℕ} {numbers : List ℕ} (hpos : 1 < radix)
    (hle : radix ≤ 16) {c : Char} (h : c ∈ separated sep radix numbers) :
    c = sep ∨ c ∈ lowerDigits := by
  cases numbers with
  | nil =>
      rw [show separated sep radix [] = [] from rfl] at h
      cases h
  | cons n numbers =>
      rw [separated_cons, List.mem_append, List.mem_flatMap] at h
      rcases h with h | ⟨m, -, h⟩
      · exact Or.inr (mem_lowerDigits_of_mem_toDigits hpos hle h)
      · exact (List.mem_cons.mp h).imp_right (mem_lowerDigits_of_mem_toDigits hpos hle)

/-- The length of some numbers of at most `width` digits. -/
lemma length_separated_le {sep : Char} {radix width : ℕ} {numbers : List ℕ} (hpos : 1 < radix)
    (hwidth : 0 < width) (h : ∀ n ∈ numbers, n < radix ^ width) :
    (separated sep radix numbers).length ≤ (width + 1) * numbers.length := by
  have hdigits : ∀ n ∈ numbers, (Nat.toDigits radix n).length ≤ width :=
    fun n hn => (Nat.length_toDigits_le_iff hpos hwidth).mpr (h n hn)
  cases numbers with
  | nil => exact Nat.zero_le _
  | cons n numbers =>
      obtain ⟨hn, hnumbers⟩ := List.forall_mem_cons.mp hdigits
      have hrest : (numbers.flatMap fun n => sep :: Nat.toDigits radix n).length ≤
          (width + 1) * numbers.length := by
        clear h hdigits hn
        induction numbers with
        | nil => exact Nat.zero_le _
        | cons m numbers ih =>
            obtain ⟨hm, hnumbers⟩ := List.forall_mem_cons.mp hnumbers
            have := ih hnumbers
            rw [List.flatMap_cons, List.length_append, List.length_cons, List.length_cons,
              Nat.mul_add]
            omega
      rw [separated_cons, List.length_append, List.length_cons, Nat.mul_add]
      omega

/-- The characters of a MAC address are those of addresses. -/
lemma MacAddr.mem_display {address : MacAddr} {c : Char} (h : c ∈ address.display.toList) :
    c ∈ addressChars := by
  have hpart : ∀ b : UInt8, ∀ c ∈ (hexByte b).toList, c ∈ addressChars := fun b c hc =>
    List.mem_cons_of_mem _ (List.mem_cons_of_mem _ ((hexByte_spec b).2.1 c hc))
  rw [toList_display] at h
  cases hoctets : address.toList with
  | nil => simp [hoctets] at h
  | cons b octets =>
      rw [hoctets, List.map_cons, intercalate_cons, List.mem_append, List.mem_flatMap] at h
      rcases h with h | ⟨part, hpart', h⟩
      · exact hpart b c h
      · obtain ⟨b', -, rfl⟩ := List.mem_map.mp hpart'
        rcases List.mem_cons.mp h with rfl | h
        · exact List.mem_cons_self
        · exact hpart b' c h

/-- The text of a MAC address is short. -/
lemma MacAddr.length_display (address : MacAddr) : address.display.toList.length ≤ 18 := by
  have hparts : ∀ octets : List UInt8,
      ([':'].intercalate (octets.map fun b => (hexByte b).toList)).length ≤ 3 * octets.length := by
    intro octets
    cases octets with
    | nil => exact Nat.zero_le _
    | cons b octets =>
        have hrest : ((octets.map fun b => (hexByte b).toList).flatMap (':' :: ·)).length =
            3 * octets.length := by
          induction octets with
          | nil => rfl
          | cons b octets ih =>
              rw [List.map_cons, List.flatMap_cons, List.length_append, ih, List.length_cons,
                (hexByte_spec b).1, List.length_cons]
              omega
        rw [List.map_cons, intercalate_cons, List.length_append, hrest, (hexByte_spec b).1,
          List.length_cons]
        omega
  rw [toList_display]
  simpa using hparts address.toList

namespace Ipv4Addr

variable (address : Ipv4Addr)

/-- The characters of an IPv6 address are those of addresses. -/
lemma mem_display {c : Char} (h : c ∈ address.display.toList) : c ∈ addressChars ∧ c ≠ ':' := by
  rw [toList_display] at h
  rcases mem_separated (by omega) (by omega) h with rfl | h
  · exact ⟨by decide, by decide⟩
  · refine ⟨List.mem_cons_of_mem _ (List.mem_cons_of_mem _ h), ?_⟩
    rintro rfl
    exact absurd h (by decide)

/-- The text of an IPv6 address is short. -/
lemma length_display : address.display.toList.length ≤ 16 := by
  have hlen : address.octets.length = 4 := by simp [octets]
  have := @length_separated_le '.' 10 3 address.octets (by omega) (by omega)
    fun n hn => by
      obtain ⟨b, -, rfl⟩ := List.mem_map.mp hn
      have := b.toNat_lt
      omega
  rw [toList_display]
  omega

lemma parseMac_display : MacAddr.parse address.display.toList = none := by
  refine MacAddr.parse_eq_none (Or.inl ?_)
  rw [List.splitOn_eq_singleton fun h => (address.mem_display h).2 rfl, List.length_singleton]
  omega

end Ipv4Addr

namespace Ipv6Addr

variable (address : Ipv6Addr)

lemma mem_display {c : Char} (h : c ∈ address.display.toList) : c ∈ addressChars := by
  have hdigit : ∀ {c}, c ∈ lowerDigits → c ∈ addressChars :=
    fun h => List.mem_cons_of_mem _ (List.mem_cons_of_mem _ h)
  have hgroups : ∀ {segments}, c ∈ separated ':' 16 segments → c ∈ addressChars := by
    intro segments h
    rcases mem_separated (by omega) (by omega) h with rfl | h
    · exact List.mem_cons_self
    · exact hdigit h
  rcases address.display_cases with ⟨_, _, _, _, -, htext⟩ | ⟨_, _, -, -, htext⟩ | htext
  · rw [htext] at h
    simp only [List.mem_cons, List.mem_append] at h
    rcases h with rfl | rfl | h | rfl | h
    · exact List.mem_cons_self
    · exact List.mem_cons_self
    · exact hdigit (mem_lowerDigits_of_mem_toDigits (by omega) (by omega) h)
    · exact List.mem_cons_self
    · rcases mem_separated (by omega) (by omega) h with rfl | h
      · exact List.mem_cons_of_mem _ List.mem_cons_self
      · exact hdigit h
  · rw [htext] at h
    simp only [List.mem_cons, List.mem_append] at h
    rcases h with h | rfl | rfl | h
    · exact hgroups h
    · exact List.mem_cons_self
    · exact List.mem_cons_self
    · exact hgroups h
  · exact hgroups (htext ▸ h)

lemma length_display : address.display.toList.length ≤ 40 := by
  have hlen := address.length_segments
  have hgroups : ∀ segments : List ℕ, (∀ s ∈ segments, s ∈ address.segments) →
      (separated ':' 16 segments).length ≤ 5 * segments.length := fun segments h =>
    @length_separated_le _ _ 4 _ (by omega) (by omega) fun s hs => address.segments_lt (h s hs)
  rcases address.display_cases with ⟨a, b, c, d, -, htext⟩ | ⟨start, len, hrun, hlong, htext⟩ |
    htext
  · have hdotted := @length_separated_le '.' 10 3 ([a, b, c, d].map UInt8.toNat) (by omega)
      (by omega) fun n hn => by
        obtain ⟨x, -, rfl⟩ := List.mem_map.mp hn
        have := x.toNat_lt
        omega
    have hffff : (Nat.toDigits 16 0xffff).length = 4 := by decide
    rw [htext, List.length_cons, List.length_cons, List.length_append, List.length_cons, hffff]
    simp only [List.map_cons, List.map_nil, List.length_cons, List.length_nil] at hdotted
    omega
  · have hle : start + len ≤ 8 := hrun.1
    have htake := hgroups (address.segments.take start) fun s hs => List.mem_of_mem_take hs
    have hdrop := hgroups (address.segments.drop (start + len)) fun s hs => List.mem_of_mem_drop hs
    rw [List.length_take] at htake
    rw [List.length_drop] at hdrop
    rw [htext, List.length_append, List.length_cons, List.length_cons]
    omega
  · have := hgroups address.segments fun s hs => hs
    rw [htext]
    omega

/-- **The text of an IPv6 address is not a hardware address.** -/
lemma parseMac_display : MacAddr.parse address.display.toList = none := by
  have hdouble : ∀ before rest : List Char,
      [] ∈ (before ++ ':' :: ':' :: rest).splitOn ':' := by
    intro before rest
    rw [List.splitOn_append_cons_self]
    refine List.mem_append_right _ ?_
    rw [← List.nil_append (':' :: rest), List.splitOn_append_cons_self]
    exact List.mem_append_left _ List.mem_cons_self
  refine MacAddr.parse_eq_none ?_
  rcases address.display_cases with ⟨_, _, _, _, -, htext⟩ | ⟨_, _, -, -, htext⟩ | htext
  · rw [htext]
    exact Or.inr (hdouble [] _)
  · rw [htext]
    exact Or.inr (hdouble _ _)
  · left
    rw [htext, separated, List.splitOn_intercalate]
    · simp [length_segments]
    · rintro digits hdigits hcolon
      obtain ⟨s, -, rfl⟩ := List.mem_map.mp hdigits
      exact absurd (mem_lowerDigits_of_mem_toDigits (by omega) (by omega) hcolon) (by decide)
    · intro hnil
      have := congrArg List.length hnil
      simp [length_segments] at this

/-- **The text of an IPv6 address is not an IPv4 address.** -/
lemma parseIpv4_display : Ipv4Addr.parse address.display.toList = none := by
  have hread : readIpv4Addr address.display.toList = none := by
    have hgroups : ∀ {segments : List ℕ} {rest : List Char}, (segments.length = 1 → rest = [] ∨
        ∃ r, rest = ':' :: r) → segments ≠ [] →
        readIpv4Addr (separated ':' 16 segments ++ rest) = none := by
      intro segments rest hrest hne
      obtain ⟨s, segments, rfl⟩ := List.exists_cons_of_ne_nil hne
      rw [separated_cons, List.append_assoc]
      refine readIpv4Addr_group ?_
      cases segments with
      | nil => exact hrest rfl
      | cons s' segments => exact Or.inr ⟨_, rfl⟩
    rcases address.display_cases with ⟨_, _, _, _, -, htext⟩ | ⟨start, _, -, -, htext⟩ | htext
    · rw [htext]
      exact readIpv4Addr_colon _
    · rw [htext]
      cases htake : address.segments.take start with
      | nil => exact readIpv4Addr_colon _
      | cons s segments =>
          exact hgroups (fun _ => Or.inr ⟨_, rfl⟩) (List.cons_ne_nil s segments)
    · rw [htext, ← List.append_nil (separated ':' 16 address.segments)]
      refine hgroups (fun _ => Or.inl rfl) fun hnil => ?_
      have := congrArg List.length hnil
      simp [length_segments] at this
  rw [Ipv4Addr.parse, hread]
  exact ite_self _

end Ipv6Addr

end RustyTinc

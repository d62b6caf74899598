import Mathlib.Data.List.DropRight
import Mathlib.Data.List.TakeWhile
import Mathlib.Tactic

/-!
Lines of text: fields between white space, text around a separator, and numbers.

* `fields_unwords`: words that are joined by spaces are the fields of the line;
* `splitOnce_append`: a text is split at the first separator;
* `lines_rewrite_unlines`: lines read back, with either ending;
* `parseUnsigned_toDigits`, `parseSigned_toString`: numbers that are in range read back.
-/

namespace Text

/-- The rule for checks of all characters of a text. -/
lemma forall_mem_of_all {text : List Char} {p : Char → Prop} [DecidablePred p]
    (h : (text.all fun c => p c) = true) : ∀ c ∈ text, p c := by
  simpa using h

/-! ### Fields -/

/-- The characters with the property `White_Space`. -/
def isWhitespace (c : Char) : Bool :=
  let n := c.toNat
  (0x9 ≤ n && n ≤ 0xd) || n = 0x20 || n = 0x85 || n = 0xa0 || n = 0x1680 ||
    (0x2000 ≤ n && n ≤ 0x200a) || n = 0x2028 || n = 0x2029 || n = 0x202f || n = 0x205f ||
    n = 0x3000

/-- White space, as ASCII has it. -/
def isAsciiWhitespace (c : Char) : Bool :=
  let n := c.toNat
  n = 0x9 || n = 0xa || n = 0xc || n = 0xd || n = 0x20

/-- The pieces between white space that are not empty. -/
def fields (line : List Char) : List (List Char) :=
  (line.splitOnP isWhitespace).filter fun field => !field.isEmpty

/-- Words with a space between any two of them. -/
def unwords (words : List (List Char)) : List Char := [' '].intercalate words

/-- Something that is read back as one field. -/
def IsWord (word : List Char) : Prop := word ≠ [] ∧ ∀ c ∈ word, isWhitespace c = false

/-- No piece holds a separator. -/
lemma mem_splitOnP {p : Char → Bool} {line piece : List Char} (h : piece ∈ line.splitOnP p) :
    ∀ c ∈ piece, p c = false := by
  induction line generalizing piece with
  | nil =>
      rw [List.splitOnP_nil, List.mem_singleton] at h
      simp [h]
  | cons c line ih =>
      rw [List.splitOnP_cons_eq_if_modifyHead] at h
      split_ifs at h with hc
      · rcases List.mem_cons.mp h with rfl | h
        · simp
        · exact ih h
      · obtain ⟨first, rest, hsplit⟩ := List.exists_cons_of_ne_nil (List.splitOnP_ne_nil p line)
        rw [hsplit] at h ih
        rcases List.mem_cons.mp h with rfl | h
        · exact List.forall_mem_cons.mpr ⟨by simpa using hc, ih List.mem_cons_self⟩
        · exact ih (List.mem_cons_of_mem first h)

lemma isWord_of_mem_fields {line word : List Char} (h : word ∈ fields line) : IsWord word := by
  rw [fields, List.mem_filter] at h
  exact ⟨by simpa using h.2, mem_splitOnP h.1⟩

/-- **Words that are joined by spaces are the fields of the line.** -/
lemma fields_unwords {words : List (List Char)} (h : ∀ word ∈ words, IsWord word) :
    fields (unwords words) = words := by
  have hspace : isWhitespace ' ' = true := by decide
  induction words with
  | nil => rfl
  | cons word words ih =>
      obtain ⟨hword, hwords⟩ := List.forall_mem_cons.mp h
      have hkeep : (!word.isEmpty) = true := by simpa using hword.1
      cases words with
      | nil =>
          have hline : unwords [word] = word := by simp [unwords]
          rw [hline, fields, List.splitOnP_eq_singleton hword.2]
          simp [hword.1]
      | cons next words =>
          have hline : unwords (word :: next :: words) = word ++ ' ' :: unwords (next :: words) := by
            simp [unwords, List.intercalate, List.intersperse]
          rw [hline, fields, List.splitOnP_append_cons_of_forall_mem hword.2 ' ' hspace,
            List.filter_cons, if_pos hkeep]
          exact congrArg (word :: ·) (ih hwords)

/-- Words that are joined by spaces do not end with white space. -/
lemma unwords_last {words : List (List Char)} (h : ∀ word ∈ words, IsWord word) {c : Char}
    (hc : (unwords words).getLast? = some c) : isWhitespace c = false := by
  induction words with
  | nil => cases hc
  | cons word words ih =>
      obtain ⟨hword, hwords⟩ := List.forall_mem_cons.mp h
      cases words with
      | nil =>
          have hline : unwords [word] = word := by simp [unwords]
          rw [hline] at hc
          exact hword.2 c (List.mem_of_getLast? hc)
      | cons next words =>
          have hline : unwords (word :: next :: words) =
              (word ++ [' ']) ++ unwords (next :: words) := by
            simp [unwords, List.intercalate, List.intersperse]
          have hne : unwords (next :: words) ≠ [] := by
            intro hnil
            have hfields := fields_unwords hwords
            rw [hnil] at hfields
            exact absurd hfields (List.cons_ne_nil next words).symm
          rw [hline, List.getLast?_append_of_ne_nil _ hne] at hc
          exact ih hwords hc

/-- Leading white space does not count. -/
lemma fields_cons {c : Char} {line : List Char} (h : isWhitespace c = true) :
    fields (c :: line) = fields line := by
  rw [fields, List.splitOnP_cons_eq_if_modifyHead, if_pos h]
  rfl

/-! ### Separators -/

/-- The parts before and after the first separator. -/
def splitOnce (sep : Char) (text : List Char) : Option (List Char × List Char) :=
  match text.dropWhile (· ≠ sep) with
  | [] => none
  | _ :: rest => some (text.takeWhile (· ≠ sep), rest)

lemma splitOnce_append {sep : Char} {before rest : List Char} (h : sep ∉ before) :
    splitOnce sep (before ++ sep :: rest) = some (before, rest) := by
  have hne : ∀ c ∈ before, decide (c ≠ sep) = true :=
    fun c hc => decide_eq_true fun heq => h (heq ▸ hc)
  have hdrop : (before ++ sep :: rest).dropWhile (· ≠ sep) = sep :: rest := by
    rw [List.dropWhile_append_of_pos hne]
    simp
  have htake : (before ++ sep :: rest).takeWhile (· ≠ sep) = before := by
    rw [List.takeWhile_append_of_pos hne]
    simp
  rw [splitOnce, hdrop, htake]

/-- Pieces with a separator between them, from the first one on. -/
lemma intercalate_cons (sep : Char) (piece : List Char) (pieces : List (List Char)) :
    [sep].intercalate (piece :: pieces) = piece ++ pieces.flatMap (sep :: ·) := by
  induction pieces generalizing piece with
  | nil => simp
  | cons next pieces ih =>
      have hstep : [sep].intercalate (piece :: next :: pieces) =
          piece ++ sep :: [sep].intercalate (next :: pieces) := by
        simp [List.intercalate, List.intersperse]
      rw [hstep, ih]
      simp

lemma splitOnce_eq_none {sep : Char} {text : List Char} (h : sep ∉ text) :
    splitOnce sep text = none := by
  have hdrop : text.dropWhile (· ≠ sep) = [] :=
    List.dropWhile_eq_nil_iff.mpr fun c hc => decide_eq_true fun heq => h (heq ▸ hc)
  rw [splitOnce, hdrop]

/-! ### Lines -/

/-- The pieces of a text that end with a line feed; the last one may end without it. -/
def splitInclusive : List Char → List (List Char)
  | [] => []
  | c :: text =>
      if c = '\n' then [c] :: splitInclusive text
      else match splitInclusive text with
        | [] => [[c]]
        | piece :: pieces => (c :: piece) :: pieces

/-- A piece without its ending: a line feed, and a carriage return before it. -/
def lineOf (piece : List Char) : List Char :=
  if piece.getLast? = some '\n' then
    if piece.dropLast.getLast? = some '\r' then piece.dropLast.dropLast else piece.dropLast
  else piece

/-- The lines of a text. -/
def lines (text : List Char) : List (List Char) := (splitInclusive text).map lineOf

/-- The two ways to end a line. -/
inductive LineEnding
  | lineFeed
  | carriageReturnLineFeed
deriving DecidableEq

/-- The characters at the end of a line. -/
def LineEnding.chars : LineEnding → List Char
  | lineFeed => ['\n']
  | carriageReturnLineFeed => ['\r', '\n']

/-- A text of which every line feed is written as a given ending. -/
def LineEnding.rewrite (ending : LineEnding) (text : List Char) : List Char :=
  text.flatMap fun c => if c = '\n' then ending.chars else [c]

lemma LineEnding.rewrite_of_notMem (ending : LineEnding) {line : List Char} (h : '\n' ∉ line) :
    ending.rewrite line = line := by
  induction line with
  | nil => rfl
  | cons c line ih =>
      obtain ⟨hc, hline⟩ := not_or.mp (List.mem_cons.not.mp h)
      rw [rewrite, List.flatMap_cons, if_neg (Ne.symm hc), ← rewrite, ih hline]
      rfl

lemma LineEnding.rewrite_append (ending : LineEnding) (text rest : List Char) :
    ending.rewrite (text ++ rest) = ending.rewrite text ++ ending.rewrite rest :=
  List.flatMap_append

/-- What is read of a line, whatever its ending: the carriage returns at its end do not count. -/
def trimEnd (line : List Char) : List Char := line.rdropWhile (· = '\r')

lemma splitInclusive_cons {line : List Char} (h : '\n' ∉ line) (rest : List Char) :
    splitInclusive (line ++ '\n' :: rest) = (line ++ ['\n']) :: splitInclusive rest := by
  induction line with
  | nil => simp [splitInclusive]
  | cons c line ih =>
      obtain ⟨hc, hline⟩ := not_or.mp (List.mem_cons.not.mp h)
      rw [List.cons_append, splitInclusive, if_neg (Ne.symm hc), ih hline]
      rfl

lemma lineOf_lineFeed (line : List Char) :
    trimEnd (lineOf (line ++ ['\n'])) = trimEnd line := by
  rw [lineOf, List.getLast?_concat, if_pos rfl, List.dropLast_concat]
  split_ifs with h
  · have hline := List.dropLast_append_getLast? '\r' h
    nth_rewrite 2 [← hline]
    rw [trimEnd, trimEnd, List.rdropWhile_concat_pos _ _ _ (by decide)]
  · rfl

/-- **A line is what comes before its ending**, up to carriage returns. -/
lemma lines_cons (ending : LineEnding) {line : List Char} (h : '\n' ∉ line) (rest : List Char) :
    ∃ read, lines (line ++ ending.chars ++ rest) = read :: lines rest ∧
      trimEnd read = trimEnd line := by
  cases ending with
  | lineFeed =>
      refine ⟨lineOf (line ++ ['\n']), ?_, lineOf_lineFeed line⟩
      rw [LineEnding.chars, List.append_assoc, List.singleton_append, lines, splitInclusive_cons h]
      rfl
  | carriageReturnLineFeed =>
      have h' : '\n' ∉ line ++ ['\r'] := by simp [h]
      refine ⟨lineOf (line ++ ['\r'] ++ ['\n']), ?_, ?_⟩
      · have hsplit : line ++ LineEnding.chars .carriageReturnLineFeed ++ rest =
            line ++ ['\r'] ++ '\n' :: rest := by simp [LineEnding.chars]
        rw [hsplit, lines, splitInclusive_cons h']
        rfl
      · rw [lineOf_lineFeed, trimEnd, trimEnd, List.rdropWhile_concat_pos _ _ _ (by decide)]

/-- Lines, each with its ending. -/
def unlines (texts : List (List Char)) : List Char := texts.flatMap fun line => line ++ ['\n']

lemma trimEnd_trimEnd (line : List Char) : trimEnd (trimEnd line) = trimEnd line :=
  List.rdropWhile_idempotent _ _

lemma trimEnd_of_getLast {line : List Char} (h : ∀ c ∈ line.getLast?, c ≠ '\r') :
    trimEnd line = line := by
  refine List.rdropWhile_eq_self_iff.mpr fun hne => ?_
  simpa using h _ (List.getLast?_eq_some_getLast hne)

/-- **Lines read back** with either ending, up to carriage returns. -/
lemma lines_rewrite_unlines (ending : LineEnding) {texts : List (List Char)}
    (h : ∀ line ∈ texts, '\n' ∉ line) :
    (lines (ending.rewrite (unlines texts))).map trimEnd = texts.map trimEnd := by
  induction texts with
  | nil => rfl
  | cons line texts ih =>
      obtain ⟨hline, htexts⟩ := List.forall_mem_cons.mp h
      have htext : ending.rewrite (unlines (line :: texts)) =
          line ++ ending.chars ++ ending.rewrite (unlines texts) := by
        rw [unlines, List.flatMap_cons, ending.rewrite_append, ending.rewrite_append,
          ending.rewrite_of_notMem hline, ← unlines]
        simp [LineEnding.rewrite]
      obtain ⟨read, hread, htrim⟩ := lines_cons ending hline (ending.rewrite (unlines texts))
      rw [htext, hread, List.map_cons, htrim, ih htexts, List.map_cons]

/-! ### Numbers -/

/-- The value of a digit below the radix. -/
def digitValue (radix : ℕ) (c : Char) : Option ℕ :=
  let value :=
    if '0' ≤ c ∧ c ≤ '9' then some (c.toNat - '0'.toNat)
    else if 'a' ≤ c ∧ c ≤ 'z' then some (c.toNat - 'a'.toNat + 10)
    else if 'A' ≤ c ∧ c ≤ 'Z' then some (c.toNat - 'A'.toNat + 10)
    else none
  value.filter (· < radix)

/-- The number that some digits continue. -/
def digitsValue (radix : ℕ) : List Char → ℕ → Option ℕ
  | [], value => some value
  | c :: digits, value => do digitsValue radix digits (value * radix + (← digitValue radix c))

/-- A number of at least one digit. -/
def parseDigits (radix : ℕ) (digits : List Char) : Option ℕ :=
  if digits = [] then none else digitsValue radix digits 0

/-- A number up to a bound, with or without a plus sign. -/
def parseUnsigned (radix bound : ℕ) (text : List Char) : Option ℕ :=
  let digits := match text with
    | '+' :: digits => digits
    | digits => digits
  (parseDigits radix digits).filter (· ≤ bound)

/-- A decimal number of a signed type of the given range, with or without a sign. -/
def parseSigned (bound : ℕ) (text : List Char) : Option ℤ :=
  match text with
  | '-' :: digits => ((parseDigits 10 digits).filter (· ≤ bound)).map fun n : ℕ => -(n : ℤ)
  | text => (parseUnsigned 10 (bound - 1) text).map fun n : ℕ => (n : ℤ)

section Digits

variable {radix : ℕ}

lemma digitValue_digitChar {d : ℕ} (hd : d < 16) (h : d < radix) :
    digitValue radix (Nat.digitChar d) = some d := by
  have hvalue : ∀ d : Fin 16, (if '0' ≤ Nat.digitChar d ∧ Nat.digitChar d ≤ '9' then
        some ((Nat.digitChar d).toNat - '0'.toNat)
      else if 'a' ≤ Nat.digitChar d ∧ Nat.digitChar d ≤ 'z' then
        some ((Nat.digitChar d).toNat - 'a'.toNat + 10)
      else if 'A' ≤ Nat.digitChar d ∧ Nat.digitChar d ≤ 'Z' then
        some ((Nat.digitChar d).toNat - 'A'.toNat + 10)
      else none) = some (d : ℕ) := by decide
  rw [digitValue, hvalue ⟨d, hd⟩]
  simp [Option.filter, h]

lemma digitsValue_append (digits digits' : List Char) (value : ℕ) :
    digitsValue radix (digits ++ digits') value =
      (digitsValue radix digits value).bind (digitsValue radix digits') := by
  induction digits generalizing value with
  | nil => rfl
  | cons c digits ih =>
      rw [List.cons_append, digitsValue, digitsValue]
      cases digitValue radix c with
      | none => rfl
      | some d => exact ih _

/-- A number is read again from its digits. -/
lemma digitsValue_toDigits (hpos : 1 < radix) (hle : radix ≤ 16) (n : ℕ) :
    digitsValue radix (Nat.toDigits radix n) 0 = some n := by
  have hsingle : ∀ d < radix, ∀ value,
      digitsValue radix [Nat.digitChar d] value = some (value * radix + d) := by
    intro d hd value
    simp [digitsValue, digitValue_digitChar (lt_of_lt_of_le hd hle) hd]
  induction n using Nat.strong_induction_on with
  | _ n ih =>
      by_cases hn : n < radix
      · rw [Nat.toDigits_of_lt_base hn, hsingle n hn]
        simp
      · have hdiv : n / radix < n := Nat.div_lt_self (by omega) hpos
        rw [Nat.toDigits_of_base_le hpos (not_lt.mp hn), digitsValue_append, ih _ hdiv]
        exact (hsingle _ (Nat.mod_lt n (by omega)) _).trans
          (congrArg some (Nat.div_add_mod' n radix))

lemma parseDigits_toDigits (hpos : 1 < radix) (hle : radix ≤ 16) (n : ℕ) :
    parseDigits radix (Nat.toDigits radix n) = some n := by
  rw [parseDigits, if_neg Nat.toDigits_ne_nil, digitsValue_toDigits hpos hle]

/-- The characters of a number are the digits of numbers below the radix. -/
lemma exists_digit_of_mem_toDigits (hpos : 1 < radix) {n : ℕ} {c : Char}
    (h : c ∈ Nat.toDigits radix n) : ∃ d < radix, c = Nat.digitChar d := by
  induction n using Nat.strong_induction_on with
  | _ n ih =>
      by_cases hn : n < radix
      · rw [Nat.toDigits_of_lt_base hn, List.mem_singleton] at h
        exact ⟨n, hn, h⟩
      · rw [Nat.toDigits_of_base_le hpos (not_lt.mp hn), List.mem_append, List.mem_singleton] at h
        rcases h with h | h
        · exact ih _ (Nat.div_lt_self (by omega) hpos) h
        · exact ⟨n % radix, Nat.mod_lt n (by omega), h⟩

/-- The digits of numbers, in lower case. -/
def lowerDigits : List Char := "0123456789abcdef".toList

lemma mem_lowerDigits_of_mem_toDigits (hpos : 1 < radix) (hle : radix ≤ 16) {n : ℕ} {c : Char}
    (h : c ∈ Nat.toDigits radix n) : c ∈ lowerDigits := by
  have hdigit : ∀ d < 16, Nat.digitChar d ∈ lowerDigits := by decide
  obtain ⟨d, hd, rfl⟩ := exists_digit_of_mem_toDigits hpos h
  exact hdigit d (lt_of_lt_of_le hd hle)

/-- Digits have no sign in front of them. -/
lemma parseUnsigned_toDigits (hpos : 1 < radix) (hle : radix ≤ 16) {n bound : ℕ}
    (h : n ≤ bound) : parseUnsigned radix bound (Nat.toDigits radix n) = some n := by
  have hdigits : ∀ digits, Nat.toDigits radix n ≠ '+' :: digits := by
    intro digits hplus
    have hmem : '+' ∈ lowerDigits := mem_lowerDigits_of_mem_toDigits hpos hle (n := n) (by simp [hplus])
    exact absurd hmem (by decide)
  unfold parseUnsigned
  split
  · next digits hplus => exact absurd hplus (hdigits digits)
  · simp only [parseDigits_toDigits hpos hle, Option.filter, h, decide_true, if_true]

lemma parseUnsigned_le {bound n : ℕ} {text : List Char}
    (h : parseUnsigned radix bound text = some n) : n ≤ bound := by
  unfold parseUnsigned at h
  exact of_decide_eq_true (Option.filter_eq_some_iff.mp h).2

end Digits

/-- The range of a signed type. -/
def InRange (bound : ℕ) (n : ℤ) : Prop := -bound ≤ n ∧ n < bound

instance (bound : ℕ) (n : ℤ) : Decidable (InRange bound n) := inferInstanceAs (Decidable (_ ∧ _))

lemma inRange_of_parseSigned {bound : ℕ} (hpos : 0 < bound) {text : List Char} {n : ℤ}
    (h : parseSigned bound text = some n) : InRange bound n := by
  unfold parseSigned at h
  split at h
  · obtain ⟨m, hm, rfl⟩ := Option.map_eq_some_iff.mp h
    rw [Option.filter_eq_some_iff] at hm
    have hle : m ≤ bound := by simpa using hm.2
    constructor <;> omega
  · obtain ⟨m, hm, rfl⟩ := Option.map_eq_some_iff.mp h
    have hle := parseUnsigned_le hm
    constructor <;> omega

/-- **Numbers that are in range read back.** -/
lemma parseSigned_toString {bound : ℕ} {n : ℤ} (h : InRange bound n) :
    parseSigned bound (toString n).toList = some n := by
  obtain ⟨hlow, hhigh⟩ := h
  cases n with
  | ofNat n =>
      have htext : (toString (Int.ofNat n)).toList = Nat.toDigits 10 n := Nat.toList_repr
      have hminus : ∀ digits, Nat.toDigits 10 n ≠ '-' :: digits := by
        intro digits hminus
        have hmem : '-' ∈ lowerDigits :=
          @mem_lowerDigits_of_mem_toDigits 10 (by omega) (by omega) n _ (by simp [hminus])
        exact absurd hmem (by decide)
      have hle : n ≤ bound - 1 := by
        simp only [Int.ofNat_eq_natCast] at hhigh
        omega
      rw [htext]
      unfold parseSigned
      split
      · next digits h => exact absurd h (hminus digits)
      · rw [parseUnsigned_toDigits (by omega) (by omega) hle]
        rfl
  | negSucc n =>
      have htext : (toString (Int.negSucc n)).toList = '-' :: Nat.toDigits 10 (n + 1) := by
        show ("-" ++ (n + 1).repr).toList = _
        simp
      have hle : n + 1 ≤ bound := by omega
      rw [htext]
      simp only [parseSigned, @parseDigits_toDigits 10 (by omega) (by omega),
        Option.filter, hle, decide_true, if_true]
      rfl

end Text

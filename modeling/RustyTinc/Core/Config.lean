import Mathlib.Data.String.Basic
import RustyTinc.Core.PastRequests
import RustyTinc.Library.Settings
import RustyTinc.Library.StableSort

/-!
The settings of the daemon: lines of configuration files and options of the command line, kept in
the order in which they count.

* `compareConfig_ne_gt_iff`: the comparison is the order of a rank;
* `ConfigTree.Holds.add`: a tree holds what was added to it, sorted and stable;
* `mem_parseConfigFile`: which lines of a file are settings;
* `pairwise_parseConfigFile`: they are numbered.
-/

namespace RustyTinc

open Text

/-- Where a setting stands: in a file, or among the options of the command line. -/
structure ConfigSource where
  file : Option (List Char)
  line : ℤ
deriving DecidableEq

/-- A setting `Name = Value`, with the place from which it was read. -/
structure Config where
  variableName : List Char
  value : List Char
  source : ConfigSource
deriving DecidableEq

/-- Why a line is refused. -/
inductive ConfigParseError where
  | missingValue (variableName : List Char) (file : Option (List Char)) (line : ℤ)
deriving DecidableEq

/-! ### Order -/

/-- The order of the bytes of two texts is the order of their characters. -/
def compareText (a b : List Char) : Ordering := if a < b then .lt else if a = b then .eq else .gt

/-- The order of two texts, whatever the case of their letters. -/
def compareCaseInsensitive (a b : List Char) : Ordering := compareText (lowercase a) (lowercase b)

/-- Settings are ordered by their names, and those of one name by where they come from: the command
line before files, then by line and by file. -/
def compareConfig (a b : Config) : Ordering :=
  let result := compareCaseInsensitive a.variableName b.variableName
  if result ≠ .eq then result
  else
    let result := match a.source.file, b.source.file with
      | none, some _ => .lt
      | some _, none => .gt
      | _, _ => .eq
    if result ≠ .eq then result
    else
      let result := cmp a.source.line b.source.line
      if result ≠ .eq then result
      else match a.source.file, b.source.file with
        | some a, some b => compareText a b
        | _, _ => .eq

/-- What the comparison looks at: the variable, whether a file gives it, the line, the file. -/
def Config.rank (c : Config) : List Char ×ₗ Bool ×ₗ ℤ ×ₗ List Char :=
  toLex (lowercase c.variableName,
    toLex (c.source.file.isSome, toLex (c.source.line, c.source.file.getD [])))

/-- The comparison of two pairs looks at the first parts first. -/
lemma cmp_toLex {α β : Type*} [LinearOrder α] [LinearOrder β] (a a' : α) (b b' : β) :
    cmp (toLex (a, b)) (toLex (a', b')) = if cmp a a' ≠ .eq then cmp a a' else cmp b b' := by
  rcases lt_trichotomy a a' with h | h | h
  · have hlt : toLex (a, b) < toLex (a', b') := Prod.Lex.toLex_lt_toLex.mpr (.inl h)
    rw [(cmp_eq_lt_iff _ _).mpr hlt, (cmp_eq_lt_iff _ _).mpr h]
    rfl
  · subst h
    rw [cmp_self_eq_eq, if_neg (by simp)]
    rcases lt_trichotomy b b' with h | h | h
    · have hlt : toLex (a, b) < toLex (a, b') := Prod.Lex.toLex_lt_toLex.mpr (.inr ⟨rfl, h⟩)
      rw [(cmp_eq_lt_iff _ _).mpr hlt, (cmp_eq_lt_iff _ _).mpr h]
    · rw [h, cmp_self_eq_eq, cmp_self_eq_eq]
    · have hgt : toLex (a, b') < toLex (a, b) := Prod.Lex.toLex_lt_toLex.mpr (.inr ⟨rfl, h⟩)
      rw [(cmp_eq_gt_iff _ _).mpr hgt, (cmp_eq_gt_iff _ _).mpr h]
  · have hgt : toLex (a', b') < toLex (a, b) := Prod.Lex.toLex_lt_toLex.mpr (.inl h)
    rw [(cmp_eq_gt_iff _ _).mpr hgt, (cmp_eq_gt_iff _ _).mpr h]
    rfl

lemma compareText_eq (a b : List Char) :
    compareText a b = @cmp (List Char) _ LinearOrder.toDecidableLT a b := by
  rw [compareText]
  rcases lt_trichotomy a b with h | h | h
  · rw [if_pos h, (cmp_eq_lt_iff _ _).mpr h]
  · rw [if_neg (h ▸ lt_irrefl a), if_pos h, (cmp_eq_eq_iff _ _).mpr h]
  · rw [if_neg (lt_asymm h), if_neg h.ne', (cmp_eq_gt_iff _ _).mpr h]

lemma compareConfig_eq (a b : Config) : compareConfig a b = cmp a.rank b.rank := by
  rw [Config.rank, Config.rank, cmp_toLex, cmp_toLex, cmp_toLex]
  unfold compareConfig compareCaseInsensitive
  rw [compareText_eq]
  cases a.source.file <;> cases b.source.file
  case some.some file file' =>
    have hfile := compareText_eq file file'
    show (if _ then _ else if _ then _ else compareText file file') = _
    rw [hfile]
    rfl
  all_goals rfl

/-- **The comparison is the order of the ranks.** -/
lemma compareConfig_ne_gt_iff (a b : Config) : compareConfig a b ≠ .gt ↔ a.rank ≤ b.rank := by
  rw [compareConfig_eq, Ne, cmp_eq_gt_iff, not_lt]

/-! ### Trees -/

/-- The settings in the order in which they count. -/
structure ConfigTree where
  entries : List Config
  sorted : entries.Pairwise fun a b => compareConfig a b ≠ .gt

namespace ConfigTree

/-- No settings. -/
def new : ConfigTree := ⟨[], List.Pairwise.nil⟩

/-- The settings of a tree are in order. -/
lemma pairwise_insertionSort (entries : List Config) :
    (entries.insertionSort fun a b => compareConfig a b ≠ .gt).Pairwise
      fun a b => compareConfig a b ≠ .gt := by
  have htotal : Std.Total fun a b : Config => compareConfig a b ≠ .gt := by
    refine ⟨fun a b => ?_⟩
    rw [compareConfig_ne_gt_iff, compareConfig_ne_gt_iff]
    exact le_total _ _
  have htrans : IsTrans Config fun a b => compareConfig a b ≠ .gt := by
    refine ⟨fun a b c hab hbc => ?_⟩
    rw [compareConfig_ne_gt_iff] at hab hbc ⊢
    exact hab.trans hbc
  exact List.pairwise_insertionSort _ entries

/-- The sort is stable. -/
def add (tree : ConfigTree) (config : Config) : ConfigTree :=
  ⟨(tree.entries ++ [config]).insertionSort fun a b => compareConfig a b ≠ .gt,
    pairwise_insertionSort _⟩

/-- The first setting of the variable in the order of the tree. -/
def lookup (tree : ConfigTree) (variableName : List Char) : Option Config :=
  tree.entries.find? fun config => eqIgnoreAsciiCase config.variableName variableName

/-- All settings of the variable in the order of the tree. -/
def lookupAll (tree : ConfigTree) (variableName : List Char) : List Config :=
  tree.entries.filter fun config => eqIgnoreAsciiCase config.variableName variableName

lemma lookup_eq_head (tree : ConfigTree) (variableName : List Char) :
    tree.lookup variableName = (tree.lookupAll variableName).head? :=
  List.head?_filter.symm

/-- The tree holds what was added, in the order of the ranks. -/
def Holds (tree : ConfigTree) (added : List Config) : Prop :=
  StableSort.Sorts Config.rank tree.entries added

lemma Holds.new : ConfigTree.new.Holds [] := ⟨List.Pairwise.nil, fun _ => rfl⟩

/-- **What is added** is held besides what was there. -/
lemma Holds.add {tree : ConfigTree} {added : List Config} (h : tree.Holds added)
    (config : Config) : (tree.add config).Holds (added ++ [config]) := by
  have hsort : (tree.entries ++ [config]).insertionSort (fun a b => compareConfig a b ≠ .gt) =
      (tree.entries ++ [config]).insertionSort fun a b => a.rank ≤ b.rank := by
    simp only [compareConfig_ne_gt_iff]
  show StableSort.Sorts Config.rank
    ((tree.entries ++ [config]).insertionSort fun a b => compareConfig a b ≠ .gt) _
  rw [hsort]
  exact StableSort.Sorts.concat h config

lemma Holds.foldl_add {tree : ConfigTree} {added : List Config} (h : tree.Holds added)
    (configs : List Config) : (configs.foldl ConfigTree.add tree).Holds (added ++ configs) := by
  induction configs generalizing tree added with
  | nil => rwa [List.append_nil]
  | cons config configs ih =>
      rw [List.append_cons]
      exact ih (h.add config)

end ConfigTree

/-! ### Lines -/

/-- The setting on one line of a file. -/
def parseConfigLine (line : List Char) (file : Option (List Char)) (lineNumber : ℤ) :
    Except ConfigParseError Config :=
  let (variableName, value) := splitSetting (line.rdropWhile isBlank)
  if value = [] then .error (.missingValue variableName file lineNumber)
  else .ok ⟨variableName, value, ⟨file, lineNumber⟩⟩

/-- The number of a line, counted from one; numbers stop at the largest one of 32 bits. -/
def configLineNumber (index : ℕ) : ℤ := min (index + 1) (2 ^ 31 - 1)

/-- A line without the carriage return at its end. -/
def stripCarriageReturn (line : List Char) : List Char :=
  if line.getLast? = some '\r' then line.dropLast else line

/-- The first line of a key in a host file begins with this. -/
def pemBegin : List Char := "-----BEGIN".toList

/-- The last line of a key in a host file begins with this. -/
def pemEnd : List Char := "-----END".toList

/-- The settings from a line on, inside of a key or not. -/
def parseConfigLines (file : List Char) :
    ℕ → Bool → List (List Char) → Except ConfigParseError (List Config)
  | _, _, [] => .ok []
  | index, ignorePem, rawLine :: rest =>
      let line := stripCarriageReturn rawLine
      if line = [] ∨ line.head? = some '#' then parseConfigLines file (index + 1) ignorePem rest
      else if ignorePem then
        parseConfigLines file (index + 1) (!pemEnd.isPrefixOf line) rest
      else if pemBegin.isPrefixOf line then parseConfigLines file (index + 1) true rest
      else
        match parseConfigLine line (some file) (configLineNumber index) with
        | .error e => .error e
        | .ok config => (parseConfigLines file (index + 1) false rest).map (config :: ·)

/-- The settings of a file, without its comments and keys. -/
def parseConfigFile (contents file : List Char) : Except ConfigParseError (List Config) :=
  parseConfigLines file 0 false (lines contents)

/-- Whether a key is open after some lines. -/
def pemOpen : Bool → List (List Char) → Bool
  | ignorePem, [] => ignorePem
  | ignorePem, rawLine :: rest =>
      let line := stripCarriageReturn rawLine
      if line = [] ∨ line.head? = some '#' then pemOpen ignorePem rest
      else pemOpen (if ignorePem then !pemEnd.isPrefixOf line else pemBegin.isPrefixOf line) rest

/-- The line at an index is neither empty nor a comment nor a part of a key. -/
def IsSettingAt (ignorePem : Bool) (rawLines : List (List Char)) (index : ℕ)
    (line : List Char) : Prop :=
  rawLines[index]?.map stripCarriageReturn = some line ∧ line ≠ [] ∧ line.head? ≠ some '#' ∧
    pemOpen ignorePem (rawLines.take index) = false ∧ pemBegin.isPrefixOf line = false

lemma isSettingAt_succ {ignorePem : Bool} {rawLine : List Char} {rest : List (List Char)}
    {index : ℕ} {line : List Char} :
    IsSettingAt ignorePem (rawLine :: rest) (index + 1) line ↔
      IsSettingAt (pemOpen ignorePem [rawLine]) rest index line := by
  have hopen : pemOpen ignorePem (rawLine :: rest.take index) =
      pemOpen (pemOpen ignorePem [rawLine]) (rest.take index) := by
    simp only [pemOpen]
    split_ifs <;> rfl
  rw [IsSettingAt, IsSettingAt, List.getElem?_cons_succ, List.take_succ_cons, hopen]

lemma isSettingAt_zero {ignorePem : Bool} {rawLine : List Char} {rest : List (List Char)}
    {line : List Char} :
    IsSettingAt ignorePem (rawLine :: rest) 0 line ↔
      stripCarriageReturn rawLine = line ∧ line ≠ [] ∧ line.head? ≠ some '#' ∧
        ignorePem = false ∧ pemBegin.isPrefixOf line = false := by
  rw [IsSettingAt, List.getElem?_cons_zero, Option.map_some, Option.some_inj]
  rfl

/-- The settings of some lines are those of the first line and those of the others. -/
lemma exists_isSettingAt_cons {ignorePem : Bool} {rawLine : List Char} {rest : List (List Char)}
    {P : ℕ → List Char → Prop} :
    (∃ i line, IsSettingAt ignorePem (rawLine :: rest) i line ∧ P i line) ↔
      (IsSettingAt ignorePem (rawLine :: rest) 0 (stripCarriageReturn rawLine) ∧
        P 0 (stripCarriageReturn rawLine)) ∨
      ∃ i line, IsSettingAt (pemOpen ignorePem [rawLine]) rest i line ∧ P (i + 1) line := by
  constructor
  · rintro ⟨i, line, hat, hp⟩
    cases i with
    | zero =>
        obtain rfl := (isSettingAt_zero.mp hat).1
        exact .inl ⟨hat, hp⟩
    | succ i => exact .inr ⟨i, line, isSettingAt_succ.mp hat, hp⟩
  · rintro (⟨hat, hp⟩ | ⟨i, line, hat, hp⟩)
    · exact ⟨0, _, hat, hp⟩
    · exact ⟨i + 1, line, isSettingAt_succ.mpr hat, hp⟩

/-- **What the first line does**: it holds no setting and is skipped, or it holds the first one. -/
lemma parseConfigLines_cons {file : List Char} {index : ℕ} {ignorePem : Bool}
    {rawLine : List Char} {rest : List (List Char)} {configs : List Config}
    (h : parseConfigLines file index ignorePem (rawLine :: rest) = .ok configs) :
    ¬IsSettingAt ignorePem (rawLine :: rest) 0 (stripCarriageReturn rawLine) ∧
        parseConfigLines file (index + 1) (pemOpen ignorePem [rawLine]) rest = .ok configs ∨
      IsSettingAt ignorePem (rawLine :: rest) 0 (stripCarriageReturn rawLine) ∧
        ∃ first tail, parseConfigLine (stripCarriageReturn rawLine) (some file)
            (configLineNumber index) = .ok first ∧
          parseConfigLines file (index + 1) (pemOpen ignorePem [rawLine]) rest = .ok tail ∧
          configs = first :: tail := by
  rw [parseConfigLines] at h
  rw [isSettingAt_zero]
  by_cases hempty : stripCarriageReturn rawLine = [] ∨ (stripCarriageReturn rawLine).head? = some '#'
  · rw [if_pos hempty] at h
    refine Or.inl ⟨fun hat => hempty.elim hat.2.1 hat.2.2.1, ?_⟩
    simpa only [pemOpen, if_pos hempty] using h
  rw [if_neg hempty] at h
  cases ignorePem with
  | true =>
      rw [if_pos rfl] at h
      refine Or.inl ⟨fun hat => Bool.noConfusion hat.2.2.2.1, ?_⟩
      simpa only [pemOpen, if_neg hempty, if_true] using h
  | false =>
      rw [if_neg (by simp)] at h
      by_cases hbegin : pemBegin.isPrefixOf (stripCarriageReturn rawLine)
      · rw [if_pos hbegin] at h
        refine Or.inl ⟨fun hat => by simp [hbegin] at hat, ?_⟩
        simpa [pemOpen, if_neg hempty, hbegin] using h
      · rw [if_neg hbegin] at h
        have hopen : pemOpen false [rawLine] = false := by simp [pemOpen, hbegin]
        obtain ⟨hne, hcomment⟩ := not_or.mp hempty
        refine Or.inr ⟨⟨rfl, hne, hcomment, rfl, Bool.not_eq_true _ ▸ hbegin⟩, ?_⟩
        rw [hopen]
        cases hline : parseConfigLine (stripCarriageReturn rawLine) (some file)
            (configLineNumber index) with
        | error e =>
            rw [hline] at h
            cases h
        | ok first =>
            cases hrest : parseConfigLines file (index + 1) false rest with
            | error e =>
                rw [hline, hrest] at h
                cases h
            | ok tail =>
                rw [hline, hrest] at h
                cases h
                exact ⟨first, tail, rfl, rfl, rfl⟩

/-- The settings of a file are those of its lines that hold one. -/
lemma mem_parseConfigLines {file : List Char} {index : ℕ} {ignorePem : Bool}
    {rawLines : List (List Char)} {configs : List Config}
    (h : parseConfigLines file index ignorePem rawLines = .ok configs) (config : Config) :
    config ∈ configs ↔ ∃ i line, IsSettingAt ignorePem rawLines i line ∧
      parseConfigLine line (some file) (configLineNumber (index + i)) = .ok config := by
  induction rawLines generalizing index ignorePem configs with
  | nil =>
      cases h
      simp [IsSettingAt]
  | cons rawLine rest ih =>
      have hshift : ∀ i, index + 1 + i = index + (i + 1) := by omega
      rw [exists_isSettingAt_cons]
      rcases parseConfigLines_cons h with ⟨hnot, hrest⟩ | ⟨hat, first, tail, hline, hrest, rfl⟩
      · rw [ih hrest]
        simp only [hnot, false_and, false_or, hshift]
      · have hfirst : config = first ↔ parseConfigLine (stripCarriageReturn rawLine)
            (some file) (configLineNumber index) = .ok config := by
          rw [hline, Except.ok.injEq, eq_comm]
        rw [List.mem_cons, ih hrest, hfirst]
        simp only [hat, true_and, hshift, Nat.add_zero]

lemma configLineNumber_of_lt {i : ℕ} (h : i + 1 < 2 ^ 31) : configLineNumber i = i + 1 := by
  have hle : (i : ℤ) + 1 ≤ 2 ^ 31 - 1 := by omega
  exact min_eq_left hle

lemma IsSettingAt.index_lt {ignorePem : Bool} {rawLines : List (List Char)} {i : ℕ}
    {line : List Char} (h : IsSettingAt ignorePem rawLines i line) : i < rawLines.length := by
  obtain ⟨rawLine, hrawLine, -⟩ := Option.map_eq_some_iff.mp h.1
  exact (List.getElem?_eq_some_iff.mp hrawLine).1

lemma parseConfigLine_source {line : List Char} {file : Option (List Char)} {number : ℤ}
    {config : Config} (h : parseConfigLine line file number = .ok config) :
    config.source = ⟨file, number⟩ := by
  simp only [parseConfigLine] at h
  split_ifs at h
  cases h
  rfl

/-- **The settings of a file**, each with the number of its line. -/
lemma mem_parseConfigFile {contents file : List Char} {configs : List Config}
    (h : parseConfigFile contents file = .ok configs) (config : Config) :
    config ∈ configs ↔ ∃ i line, IsSettingAt false (lines contents) i line ∧
      parseConfigLine line (some file) (configLineNumber i) = .ok config := by
  have hmem := mem_parseConfigLines h config
  simpa only [Nat.zero_add] using hmem

/-- The settings of a file come in the order of its lines. -/
lemma pairwise_parseConfigLines {file : List Char} {index : ℕ} {ignorePem : Bool}
    {rawLines : List (List Char)} {configs : List Config}
    (h : parseConfigLines file index ignorePem rawLines = .ok configs)
    (hshort : index + rawLines.length < 2 ^ 31) :
    configs.Pairwise fun a b => a.source.line < b.source.line := by
  induction rawLines generalizing index ignorePem configs with
  | nil =>
      cases h
      exact List.Pairwise.nil
  | cons rawLine rest ih =>
      rw [List.length_cons] at hshort
      rcases parseConfigLines_cons h with ⟨-, hrest⟩ | ⟨-, first, tail, hline, hrest, rfl⟩
      · exact ih hrest (by omega)
      · refine List.pairwise_cons.mpr ⟨fun config hmem => ?_, ih hrest (by omega)⟩
        obtain ⟨i, line, hat, hparse⟩ := (mem_parseConfigLines hrest config).mp hmem
        have hi := hat.index_lt
        rw [parseConfigLine_source hline, parseConfigLine_source hparse]
        show configLineNumber index < configLineNumber (index + 1 + i)
        rw [configLineNumber_of_lt (by omega), configLineNumber_of_lt (by omega)]
        omega

/-- **The settings of a file** have growing numbers. -/
lemma pairwise_parseConfigFile {contents file : List Char} {configs : List Config}
    (h : parseConfigFile contents file = .ok configs)
    (hshort : (lines contents).length < 2 ^ 31) :
    configs.Pairwise fun a b => a.source.line < b.source.line :=
  pairwise_parseConfigLines h (by omega)

end RustyTinc

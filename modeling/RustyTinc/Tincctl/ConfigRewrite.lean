import RustyTinc.Tincctl.ConfigEdit

/-!
What an edit of a configuration file does to its lines and to the values of the variables.

* `Settings.edit`: the effect of an edit in terms of the values alone;
* `delete_refines`, `set_refines`, `add_refines`: the file that is written has these values;
* `rewriteText_otherLines`: **the lines that set another variable, or none, stay** as they are.
-/

namespace RustyTinc

open Text

/-! ### Values -/

/-- The values of the variables of a file, whose names count in lower case. -/
abbrev Settings := List Char → List (List Char)

/-- What stays of a value when it is read back. -/
def trimValue (value : List Char) : List Char := value.rdropWhile fun c => isBlank c || c = '\r'

/-- **The effect of an edit** on the values of its variable. -/
def Settings.edit (s : Settings) (edit : PreparedConfigEdit) :
    Except TincError (List Char × Settings) :=
  let k := lowercase edit.variableName
  match edit.action, edit.value with
  | .get, _ =>
      if s k = [] then .error .noMatchingConfigurationVariables else .ok (unlines (s k), s)
  | .delete, value =>
      if (s k).any fun v => value.all (eqIgnoreAsciiCase v) then
        .ok ([], Function.update s k ((s k).filter fun v => !value.all (eqIgnoreAsciiCase v)))
      else .error .noConfigurationVariablesDeleted
  | .set, some value => .ok ([], Function.update s k [trimValue value])
  | .add, some value =>
      if (s k).any (eqIgnoreAsciiCase · value) then .ok ([], s)
      else .ok ([], Function.update s k (s k ++ [trimValue value]))
  | .set, none => .error (.missingValue edit.variableName)
  | .add, none => .error (.missingValue edit.variableName)

/-! ### Lines of a file -/

/-- The setting in a line. -/
def settingOf (line : List Char) : List Char × List Char :=
  (lowercase (parseConfigFileLine line).1, (parseConfigFileLine line).2)

/-- The settings in the lines of a file. -/
def settingsOf (contents : List Char) : List (List Char × List Char) :=
  (lines contents).map settingOf

/-- The values of each variable in a file. -/
def fileSettings (contents : List Char) : Settings := Multimap.values (settingsOf contents)

/-- No line ends with a carriage return, besides the one that belongs to its ending. -/
def Clean (contents : List Char) : Prop := ∀ line ∈ lines contents, line.getLast? ≠ some '\r'

/-- Something that is read back as one line. -/
def IsLine (line : List Char) : Prop := '\n' ∉ line ∧ line.getLast? ≠ some '\r'

/-- The text consists of lines with the given settings. -/
def Writes (text : List Char) (entries : List (List Char × List Char)) : Prop :=
  ∃ ls, text = unlines ls ∧ (∀ line ∈ ls, IsLine line) ∧ ls.map settingOf = entries

lemma lineOf_append_lineFeed {line : List Char} (h : line.getLast? ≠ some '\r') :
    lineOf (line ++ ['\n']) = line := by
  rw [lineOf, List.getLast?_concat, if_pos rfl, List.dropLast_concat, if_neg h]

lemma lines_unlines {ls : List (List Char)} (h : ∀ line ∈ ls, IsLine line) :
    lines (unlines ls) = ls := by
  induction ls with
  | nil => rfl
  | cons line ls ih =>
      obtain ⟨hline, hls⟩ := List.forall_mem_cons.mp h
      have htext : unlines (line :: ls) = line ++ '\n' :: unlines ls := by
        simp [unlines]
      rw [htext, lines, splitInclusive_cons hline.1, List.map_cons, lineOf_append_lineFeed hline.2]
      exact congrArg (line :: ·) (ih hls)

lemma Writes.nil : Writes [] [] := ⟨[], rfl, by simp, rfl⟩

lemma Writes.concat {text : List Char} {entries : List (List Char × List Char)}
    (h : Writes text entries) {line : List Char} (hline : IsLine line) :
    Writes (text ++ line ++ ['\n']) (entries ++ [settingOf line]) := by
  obtain ⟨ls, rfl, hls, rfl⟩ := h
  refine ⟨ls ++ [line], by simp [unlines], ?_, by simp⟩
  intro l hl
  rcases List.mem_append.mp hl with hl | hl
  · exact hls l hl
  · exact List.mem_singleton.mp hl ▸ hline

lemma Writes.clean {text : List Char} {entries : List (List Char × List Char)}
    (h : Writes text entries) : Clean text := by
  obtain ⟨ls, rfl, hls, -⟩ := h
  intro line hline
  rw [lines_unlines hls] at hline
  exact (hls line hline).2

lemma Writes.settingsOf {text : List Char} {entries : List (List Char × List Char)}
    (h : Writes text entries) : settingsOf text = entries := by
  obtain ⟨ls, rfl, hls, rfl⟩ := h
  rw [RustyTinc.settingsOf, lines_unlines hls]

/-- The line feed of a piece is at its end. -/
lemma splitInclusive_mem {text piece : List Char} (h : piece ∈ splitInclusive text) :
    piece ≠ [] ∧ '\n' ∉ piece.dropLast := by
  induction text generalizing piece with
  | nil => cases h
  | cons c text ih =>
      rw [splitInclusive] at h
      split_ifs at h with hc
      · rcases List.mem_cons.mp h with rfl | h
        · simp
        · exact ih h
      · cases hrest : splitInclusive text with
        | nil =>
            rw [hrest] at h
            rw [List.mem_singleton.mp h]
            simp
        | cons first rest =>
            rw [hrest] at h ih
            rcases List.mem_cons.mp h with rfl | h
            · obtain ⟨hne, hfeed⟩ := ih List.mem_cons_self
              rw [List.dropLast_cons_of_ne_nil hne]
              simp [hfeed, Ne.symm hc]
            · exact ih (List.mem_cons_of_mem _ h)

/-- A piece of a clean file is one line. -/
structure IsPiece (piece : List Char) : Prop where
  isLine : IsLine (lineOf piece)
  rawLine : rawLine piece = lineOf piece
  ended : piece.getLast? = some '\n' ∨ RustyTinc.rawLine piece ≠ []

/-- Every piece of a clean file ends with its line. -/
lemma Clean.isPiece {contents : List Char} (h : Clean contents) {piece : List Char}
    (hpiece : piece ∈ splitInclusive contents) : IsPiece piece := by
  obtain ⟨hne, hfeed⟩ := splitInclusive_mem hpiece
  have hclean : (lineOf piece).getLast? ≠ some '\r' :=
    h (lineOf piece) (List.mem_map_of_mem hpiece)
  by_cases hend : piece.getLast? = some '\n'
  · have hraw : RustyTinc.rawLine piece = lineOf piece := by
      rw [RustyTinc.rawLine, lineOf, if_pos hend, if_pos hend, stripCarriageReturn]
    refine ⟨⟨?_, hclean⟩, hraw, .inl hend⟩
    rw [lineOf, if_pos hend]
    split_ifs
    · exact fun hmem => hfeed (List.mem_of_mem_dropLast hmem)
    · exact hfeed
  · have hself : lineOf piece = piece := if_neg hend
    rw [hself] at hclean
    have hraw : RustyTinc.rawLine piece = piece := by
      rw [RustyTinc.rawLine, if_neg hend, stripCarriageReturn, if_neg hclean]
    refine ⟨⟨?_, by rwa [hself]⟩, hraw.trans hself.symm, .inr (by rw [hraw]; exact hne)⟩
    rw [hself]
    intro hmem
    rw [← List.dropLast_append_getLast hne] at hmem
    rcases List.mem_append.mp hmem with hmem | hmem
    · exact hfeed hmem
    · exact hend (by rw [List.getLast?_eq_some_getLast hne, ← List.mem_singleton.mp hmem])

lemma Writes.keep {state : ConfigRewrite} {entries : List (List Char × List Char)}
    (h : Writes state.rewritten entries) {piece : List Char} (hpiece : IsPiece piece) :
    Writes (state.keep piece).rewritten (entries ++ [settingOf (lineOf piece)]) := by
  have hkeep := h.concat hpiece.isLine
  rw [ConfigRewrite.keep, if_pos hpiece.ended, hpiece.rawLine]
  exact hkeep

/-! ### One edit -/

/-- What is written reads back. -/
structure PreparedConfigEdit.Valid (edit : PreparedConfigEdit) : Prop where
  name_ne_nil : edit.variableName ≠ []
  name : ∀ c ∈ edit.variableName, endsName c = false ∧ c ≠ '\n'
  value : ∀ value ∈ edit.value, (∀ c ∈ value, c ≠ '\n' ∧ c ≠ '\r') ∧
    ∀ c ∈ value.head?, isBlank c = false
  given : edit.action = .set ∨ edit.action = .add → edit.value ≠ none

lemma dropWhile_isBlank_name {name rest : List Char} (hne : name ≠ [])
    (hname : ∀ c ∈ name, endsName c = false) :
    (name ++ rest).dropWhile isBlank = name ++ rest := by
  refine dropWhile_isBlank_of_head fun c hc => ?_
  rw [List.head?_append_of_ne_nil _ hne] at hc
  have hend := hname c (List.mem_of_mem_head? hc)
  rw [endsName, Bool.or_eq_false_iff] at hend
  exact hend.1

variable {edit : PreparedConfigEdit} {value : List Char}

lemma PreparedConfigEdit.Valid.settingOf (h : edit.Valid) (hvalue : edit.value = some value) :
    settingOf (formatSetting edit.variableName value) =
      (lowercase edit.variableName, trimValue value) := by
  have hname : ∀ c ∈ edit.variableName, endsName c = false := fun c hc => (h.name c hc).1
  rw [RustyTinc.settingOf, parseConfigFileLine, formatSetting,
    dropWhile_isBlank_name h.name_ne_nil hname, splitSetting_format hname (h.value value hvalue).2]
  rfl

/-- The written line is a line. -/
lemma PreparedConfigEdit.Valid.isLine (h : edit.Valid) (hvalue : edit.value = some value) :
    IsLine (formatSetting edit.variableName value) := by
  obtain ⟨hbreaks, -⟩ := h.value value hvalue
  constructor
  · intro hmem
    rcases List.mem_append.mp hmem with hmem | hmem
    · exact (h.name _ hmem).2 rfl
    · simp only [List.mem_cons] at hmem
      rcases hmem with hmem | hmem | hmem | hmem
      · exact absurd hmem (by decide)
      · exact absurd hmem (by decide)
      · exact absurd hmem (by decide)
      · exact (hbreaks _ hmem).1 rfl
  · intro hlast
    rw [formatSetting, List.getLast?_append_of_ne_nil _ (by simp)] at hlast
    have hmem := List.mem_of_getLast? hlast
    simp only [List.mem_cons] at hmem
    rcases hmem with hmem | hmem | hmem | hmem
    · exact absurd hmem (by decide)
    · exact absurd hmem (by decide)
    · exact absurd hmem (by decide)
    · exact (hbreaks _ hmem).2 rfl

/-- The settings in the lines of some pieces. -/
def pieceSettings (pieces : List (List Char)) : List (List Char × List Char) :=
  pieces.map fun piece => settingOf (lineOf piece)

lemma pieceSettings_cons (piece : List Char) (pieces : List (List Char)) :
    pieceSettings (piece :: pieces) = settingOf (lineOf piece) :: pieceSettings pieces := rfl

variable {state : ConfigRewrite} {entries : List (List Char × List Char)}
  {piece : List Char} {pieces : List (List Char)}

lemma line_other (hpiece : IsPiece piece)
    (hne : (settingOf (lineOf piece)).1 ≠ lowercase edit.variableName) (state : ConfigRewrite) :
    state.line edit piece = .ok (state.keep piece) := by
  have hmatch : ¬eqIgnoreAsciiCase (parseConfigFileLine (rawLine piece)).1 edit.variableName := by
    rw [hpiece.rawLine]
    exact fun h => hne (of_decide_eq_true h)
  rw [ConfigRewrite.line]
  exact if_neg hmatch

/-- What happens to a line that names the variable. -/
lemma line_match (hpiece : IsPiece piece)
    (heq : (settingOf (lineOf piece)).1 = lowercase edit.variableName) (state : ConfigRewrite) :
    state.line edit piece =
      match edit.action, edit.value with
      | .delete, value =>
          if value.all (eqIgnoreAsciiCase (settingOf (lineOf piece)).2) then
            .ok { state with removed := true }
          else .ok (state.keep piece)
      | .set, some value =>
          if state.set then .ok state
          else .ok { state with
            rewritten := state.rewritten ++ formatSetting edit.variableName value ++ ['\n']
            set := true }
      | .add, some value =>
          if eqIgnoreAsciiCase (settingOf (lineOf piece)).2 value then
            .ok { state.keep piece with foundDuplicate := true }
          else .ok (state.keep piece)
      | .set, none => .error (.missingValue edit.variableName)
      | .add, none => .error (.missingValue edit.variableName)
      | .get, _ => .ok (state.keep piece) := by
  have hmatch : eqIgnoreAsciiCase (parseConfigFileLine (rawLine piece)).1 edit.variableName := by
    rw [hpiece.rawLine]
    exact decide_eq_true heq
  have hvalue : (settingOf (lineOf piece)).2 = (parseConfigFileLine (rawLine piece)).2 := by
    rw [hpiece.rawLine]
    rfl
  rw [ConfigRewrite.line, hvalue]
  exact if_pos hmatch

/-- **Deleting**: the lines of the variable with the value are left out. -/
lemma foldlM_delete (haction : edit.action = .delete) (hpieces : ∀ piece ∈ pieces, IsPiece piece)
    (h : Writes state.rewritten entries) :
    ∃ state', pieces.foldlM (ConfigRewrite.line edit) state = .ok state' ∧
      Writes state'.rewritten (entries ++ Multimap.remove (lowercase edit.variableName)
        (fun v => edit.value.all (eqIgnoreAsciiCase v)) (pieceSettings pieces)) ∧
      state'.removed = (state.removed || (pieceSettings pieces).any fun e =>
        e.1 = lowercase edit.variableName && edit.value.all (eqIgnoreAsciiCase e.2)) := by
  induction pieces generalizing state entries with
  | nil =>
      refine ⟨state, rfl, ?_, by simp [pieceSettings]⟩
      simpa [pieceSettings, Multimap.remove] using h
  | cons piece pieces ih =>
      obtain ⟨hpiece, hrest⟩ := List.forall_mem_cons.mp hpieces
      rw [List.foldlM_cons, pieceSettings_cons, Multimap.remove_cons, List.any_cons]
      by_cases hkey : (settingOf (lineOf piece)).1 = lowercase edit.variableName
      · by_cases hvalue : edit.value.all (eqIgnoreAsciiCase (settingOf (lineOf piece)).2)
        · have hstep : state.line edit piece = .ok { state with removed := true } := by
            rw [line_match hpiece hkey, haction]
            exact if_pos hvalue
          obtain ⟨state', hfold, hwrites, hremoved⟩ :=
            @ih { state with removed := true } entries hrest h
          refine ⟨state', by rw [hstep]; exact hfold, ?_, ?_⟩
          · simpa [hkey, hvalue] using hwrites
          · rw [hremoved]
            simp [hkey, hvalue]
        · have hstep : state.line edit piece = .ok (state.keep piece) := by
            rw [line_match hpiece hkey, haction]
            exact if_neg hvalue
          obtain ⟨state', hfold, hwrites, hremoved⟩ := ih hrest (h.keep hpiece)
          refine ⟨state', by rw [hstep]; exact hfold, ?_, ?_⟩
          · simpa [hkey, hvalue] using hwrites
          · rw [hremoved]
            simp [hvalue, ConfigRewrite.keep]
      · obtain ⟨state', hfold, hwrites, hremoved⟩ := ih hrest (h.keep hpiece)
        refine ⟨state', by rw [line_other hpiece hkey]; exact hfold, ?_, ?_⟩
        · simpa [hkey] using hwrites
        · rw [hremoved]
          simp [hkey, ConfigRewrite.keep]

/-- **Setting**: the first line of the variable is replaced, the others are left out. -/
lemma foldlM_set (hvalid : edit.Valid) (haction : edit.action = .set)
    (hvalue : edit.value = some value) (hpieces : ∀ piece ∈ pieces, IsPiece piece)
    (h : Writes state.rewritten entries) :
    ∃ state', pieces.foldlM (ConfigRewrite.line edit) state = .ok state' ∧
      Writes state'.rewritten (entries ++ Multimap.replace (lowercase edit.variableName)
        (trimValue value) state.set (pieceSettings pieces)) ∧
      state'.set = (state.set || (pieceSettings pieces).any fun e =>
        e.1 = lowercase edit.variableName) := by
  induction pieces generalizing state entries with
  | nil =>
      refine ⟨state, rfl, ?_, by simp [pieceSettings]⟩
      simpa [pieceSettings, Multimap.replace] using h
  | cons piece pieces ih =>
      obtain ⟨hpiece, hrest⟩ := List.forall_mem_cons.mp hpieces
      rw [List.foldlM_cons, pieceSettings_cons, Multimap.replace, List.any_cons]
      by_cases hkey : (settingOf (lineOf piece)).1 = lowercase edit.variableName
      · rw [if_pos hkey]
        by_cases hset : state.set
        · have hstep : state.line edit piece = .ok state := by
            rw [line_match hpiece hkey, haction, hvalue]
            exact if_pos hset
          obtain ⟨state', hfold, hwrites, hstate⟩ := ih hrest h
          refine ⟨state', by rw [hstep]; exact hfold, ?_, ?_⟩
          · simpa [hset] using hwrites
          · rw [hstate]
            simp [hset]
        · have hwritten := h.concat (hvalid.isLine hvalue)
          rw [hvalid.settingOf hvalue] at hwritten
          have hstep : state.line edit piece = .ok { state with
              rewritten := state.rewritten ++ formatSetting edit.variableName value ++ ['\n']
              set := true } := by
            rw [line_match hpiece hkey, haction, hvalue]
            exact if_neg hset
          obtain ⟨state', hfold, hwrites, hstate⟩ := @ih { state with
            rewritten := state.rewritten ++ formatSetting edit.variableName value ++ ['\n']
            set := true } _ hrest hwritten
          refine ⟨state', by rw [hstep]; exact hfold, ?_, ?_⟩
          · simpa [hset] using hwrites
          · rw [hstate]
            simp [hkey]
      · obtain ⟨state', hfold, hwrites, hstate⟩ := ih hrest (h.keep hpiece)
        refine ⟨state', by rw [line_other hpiece hkey]; exact hfold, ?_, ?_⟩
        · simpa [hkey, ConfigRewrite.keep] using hwrites
        · rw [hstate]
          simp [hkey, ConfigRewrite.keep]

/-- **Adding**: all lines are kept, and a line that has the value already is noticed. -/
lemma foldlM_add (haction : edit.action = .add) (hvalue : edit.value = some value)
    (hpieces : ∀ piece ∈ pieces, IsPiece piece) (h : Writes state.rewritten entries) :
    ∃ state', pieces.foldlM (ConfigRewrite.line edit) state = .ok state' ∧
      Writes state'.rewritten (entries ++ pieceSettings pieces) ∧
      state'.foundDuplicate = (state.foundDuplicate || (pieceSettings pieces).any fun e =>
        e.1 = lowercase edit.variableName && eqIgnoreAsciiCase e.2 value) := by
  induction pieces generalizing state entries with
  | nil => exact ⟨state, rfl, by simpa [pieceSettings] using h, by simp [pieceSettings]⟩
  | cons piece pieces ih =>
      obtain ⟨hpiece, hrest⟩ := List.forall_mem_cons.mp hpieces
      rw [List.foldlM_cons, pieceSettings_cons, List.any_cons]
      have hkeep := h.keep hpiece
      by_cases hkey : (settingOf (lineOf piece)).1 = lowercase edit.variableName
      · by_cases hsame : eqIgnoreAsciiCase (settingOf (lineOf piece)).2 value
        · have hstep : state.line edit piece =
              .ok { state.keep piece with foundDuplicate := true } := by
            rw [line_match hpiece hkey, haction, hvalue]
            exact if_pos hsame
          obtain ⟨state', hfold, hwrites, hstate⟩ :=
            @ih { state.keep piece with foundDuplicate := true } _ hrest hkeep
          refine ⟨state', by rw [hstep]; exact hfold, by simpa using hwrites, ?_⟩
          rw [hstate]
          simp [hkey, hsame]
        · have hstep : state.line edit piece = .ok (state.keep piece) := by
            rw [line_match hpiece hkey, haction, hvalue]
            exact if_neg hsame
          obtain ⟨state', hfold, hwrites, hstate⟩ := ih hrest hkeep
          refine ⟨state', by rw [hstep]; exact hfold, by simpa using hwrites, ?_⟩
          rw [hstate]
          simp [hsame, ConfigRewrite.keep]
      · obtain ⟨state', hfold, hwrites, hstate⟩ := ih hrest hkeep
        refine ⟨state', by rw [line_other hpiece hkey]; exact hfold, by simpa using hwrites, ?_⟩
        rw [hstate]
        simp [hkey, ConfigRewrite.keep]

/-! ### The file that is written -/

lemma settingsOf_eq (contents : List Char) :
    settingsOf contents = pieceSettings (splitInclusive contents) := by
  rw [settingsOf, lines, List.map_map]
  rfl

/-- The text that is written has the values of the abstract edit, or both fail alike. -/
def RewriteRefines (rewritten : Except TincError (List Char))
    (abstract : Except TincError (List Char × Settings)) : Prop :=
  match rewritten, abstract with
  | .ok text, .ok (output, s) => output = [] ∧ Clean text ∧ fileSettings text = s
  | .error e, .error e' => e = e'
  | _, _ => False

variable {contents : List Char}

lemma Writes.refines {text : List Char} {s : Settings} (h : Writes text entries)
    (hvalues : ∀ k, Multimap.values entries k = s k) :
    RewriteRefines (.ok text) (.ok ([], s)) := by
  refine ⟨rfl, h.clean, funext fun k => ?_⟩
  rw [fileSettings, h.settingsOf, hvalues]

/-- To delete a value from the file is to delete it from the settings. -/
lemma delete_refines (hclean : Clean contents) (haction : edit.action = .delete) :
    RewriteRefines (do
      let state ← (splitInclusive contents).foldlM (ConfigRewrite.line edit) {}
      state.finish edit) ((fileSettings contents).edit edit) := by
  obtain ⟨state, hfold, hwrites, hremoved⟩ :=
    @foldlM_delete edit {} [] _ haction (fun piece => hclean.isPiece) Writes.nil
  rw [hfold, Settings.edit, haction]
  show RewriteRefines (state.finish edit) (if _ then _ else _)
  have hany : (fileSettings contents (lowercase edit.variableName)).any
      (fun v => edit.value.all (eqIgnoreAsciiCase v)) = state.removed := by
    rw [fileSettings, Multimap.any_values, settingsOf_eq, hremoved]
    rfl
  have hfinish : state.finish edit = if state.removed then .ok state.rewritten
      else .error .noConfigurationVariablesDeleted := by
    rw [ConfigRewrite.finish, haction]
    cases state.removed <;> simp
  rw [hany, hfinish]
  cases state.removed with
  | false => rfl
  | true =>
      refine hwrites.refines fun k => ?_
      rw [List.nil_append, Multimap.values_remove, Function.update_apply, fileSettings,
        settingsOf_eq]

/-- To set a value in the file is to set it in the settings. -/
lemma set_refines (hclean : Clean contents) (hvalid : edit.Valid) (haction : edit.action = .set)
    (hvalue : edit.value = some value) :
    RewriteRefines (do
      let state ← (splitInclusive contents).foldlM (ConfigRewrite.line edit) {}
      state.finish edit) ((fileSettings contents).edit edit) := by
  obtain ⟨state, hfold, hwrites, hset⟩ :=
    @foldlM_set edit value {} [] _ hvalid haction hvalue (fun piece => hclean.isPiece) Writes.nil
  rw [hfold, Settings.edit, haction, hvalue]
  have hassign : ∀ k, Multimap.values (Multimap.assign (lowercase edit.variableName)
      (trimValue value) (pieceSettings (splitInclusive contents))) k = Function.update
        (fileSettings contents) (lowercase edit.variableName) [trimValue value] k := by
    intro k
    rw [Multimap.values_assign, Function.update_apply, fileSettings, settingsOf_eq]
  show RewriteRefines (state.finish edit) (.ok _)
  rw [ConfigRewrite.finish, haction, hvalue]
  rw [Multimap.assign] at hassign
  change state.set = (pieceSettings (splitInclusive contents)).any _ at hset
  rw [← hset] at hassign
  cases hstate : state.set with
  | true =>
      rw [hstate] at hassign
      simp only [reduceCtorEq, false_and, true_and, not_true, or_self, if_false]
      refine hwrites.refines fun k => ?_
      rw [← hassign]
      simp
  | false =>
      rw [hstate] at hassign
      have hwritten := hwrites.concat (hvalid.isLine hvalue)
      rw [hvalid.settingOf hvalue] at hwritten
      simp only [reduceCtorEq, false_and, true_and, Bool.false_eq_true, not_false_eq_true,
        or_true, if_true]
      refine hwritten.refines fun k => ?_
      rw [← hassign]
      simp

/-- To add a value to the file is to add it to the settings. -/
lemma add_refines (hclean : Clean contents) (hvalid : edit.Valid) (haction : edit.action = .add)
    (hvalue : edit.value = some value) :
    RewriteRefines (do
      let state ← (splitInclusive contents).foldlM (ConfigRewrite.line edit) {}
      state.finish edit) ((fileSettings contents).edit edit) := by
  obtain ⟨state, hfold, hwrites, hdup⟩ :=
    @foldlM_add edit value {} [] _ haction hvalue (fun piece => hclean.isPiece) Writes.nil
  rw [hfold, Settings.edit, haction, hvalue]
  have hany : (fileSettings contents (lowercase edit.variableName)).any
      (eqIgnoreAsciiCase · value) = state.foundDuplicate := by
    rw [fileSettings, Multimap.any_values, settingsOf_eq, hdup]
    rfl
  show RewriteRefines (state.finish edit) (if _ then _ else _)
  rw [hany, ConfigRewrite.finish, haction, hvalue]
  cases state.foundDuplicate with
  | true =>
      simp only [reduceCtorEq, false_and, true_and, not_true, or_self, if_false, if_true]
      refine hwrites.refines fun k => ?_
      rw [List.nil_append, fileSettings, settingsOf_eq]
  | false =>
      have hwritten := hwrites.concat (hvalid.isLine hvalue)
      rw [hvalid.settingOf hvalue] at hwritten
      simp only [reduceCtorEq, false_and, true_and, Bool.false_eq_true, not_false_eq_true,
        true_or, if_true, if_false]
      refine hwritten.refines fun k => ?_
      rw [List.nil_append, Multimap.values_append, Function.update_apply, fileSettings,
        settingsOf_eq]
      by_cases hk : k = lowercase edit.variableName
      · simp [hk]
      · simp [hk, Ne.symm hk]

lemma getConfigValues_eq (variableName contents : List Char) :
    getConfigValues variableName contents =
      unlines (fileSettings contents (lowercase variableName)) := by
  rw [getConfigValues, fileSettings, settingsOf, Multimap.values, List.filter_map, List.map_map,
    List.filter_map, List.map_map]
  rfl

lemma unlines_eq_nil_iff {ls : List (List Char)} : unlines ls = [] ↔ ls = [] := by
  cases ls <;> simp [unlines]

/-! ### The lines that stay -/

/-- The lines of a file that do not set the variable. -/
def otherLines (variableName : List Char) (contents : List Char) : List (List Char) :=
  (lines contents).filter fun line => (settingOf line).1 ≠ variableName

/-- The text consists of lines, with the given ones among them where the others are those of the
variable. -/
def Leaves (variableName text : List Char) (others : List (List Char)) : Prop :=
  ∃ ls, text = unlines ls ∧ (∀ line ∈ ls, IsLine line) ∧
    ls.filter (fun line => (settingOf line).1 ≠ variableName) = others

variable {others : List (List Char)} {state' : ConfigRewrite}

lemma Leaves.concat {k text : List Char} (h : Leaves k text others) {line : List Char}
    (hline : IsLine line) :
    Leaves k (text ++ line ++ ['\n'])
      (others ++ [line].filter fun line => (settingOf line).1 ≠ k) := by
  obtain ⟨ls, rfl, hls, rfl⟩ := h
  refine ⟨ls ++ [line], by simp [unlines], fun l hl => ?_, List.filter_append ..⟩
  rcases List.mem_append.mp hl with hl | hl
  · exact hls l hl
  · exact List.mem_singleton.mp hl ▸ hline

lemma Leaves.keep {k : List Char} (h : Leaves k state.rewritten others) (hpiece : IsPiece piece) :
    Leaves k (state.keep piece).rewritten
      (others ++ [lineOf piece].filter fun line => (settingOf line).1 ≠ k) := by
  rw [ConfigRewrite.keep, if_pos hpiece.ended, hpiece.rawLine]
  exact h.concat hpiece.isLine

lemma Leaves.format (h : Leaves (lowercase edit.variableName) state.rewritten others)
    (hvalid : edit.Valid) (hvalue : edit.value = some value) :
    Leaves (lowercase edit.variableName)
      (state.rewritten ++ formatSetting edit.variableName value ++ ['\n']) others := by
  have hconcat := h.concat (hvalid.isLine hvalue)
  rwa [List.filter_cons_of_neg (by simp [hvalid.settingOf hvalue]), List.filter_nil,
    List.append_nil] at hconcat

/-- **One line**: it is kept, or it sets the variable and is left out or written anew. -/
lemma line_cases (hpiece : IsPiece piece) (h : state.line edit piece = .ok state') :
    state'.rewritten = (state.keep piece).rewritten ∨
      (settingOf (lineOf piece)).1 = lowercase edit.variableName ∧
        (state'.rewritten = state.rewritten ∨ ∃ value, edit.value = some value ∧
          state'.rewritten =
            state.rewritten ++ formatSetting edit.variableName value ++ ['\n']) := by
  by_cases hkey : (settingOf (lineOf piece)).1 = lowercase edit.variableName
  · rw [line_match hpiece hkey] at h
    cases haction : edit.action with
    | get =>
        rw [haction] at h
        cases h
        exact .inl rfl
    | delete =>
        rw [haction] at h
        change (if _ then _ else _) = _ at h
        split_ifs at h
        · cases h
          exact .inr ⟨hkey, .inl rfl⟩
        · cases h
          exact .inl rfl
    | set =>
        cases hvalue : edit.value with
        | none =>
            rw [haction, hvalue] at h
            cases h
        | some value =>
            rw [haction, hvalue] at h
            change (if _ then _ else _) = _ at h
            split_ifs at h
            · cases h
              exact .inr ⟨hkey, .inl rfl⟩
            · cases h
              exact .inr ⟨hkey, .inr ⟨value, rfl, rfl⟩⟩
    | add =>
        cases hvalue : edit.value with
        | none =>
            rw [haction, hvalue] at h
            cases h
        | some value =>
            rw [haction, hvalue] at h
            change (if _ then _ else _) = _ at h
            split_ifs at h <;> cases h <;> exact .inl rfl
  · rw [line_other hpiece hkey] at h
    cases h
    exact .inl rfl

/-- A line of another variable is left as it is. -/
lemma Leaves.line (h : Leaves (lowercase edit.variableName) state.rewritten others)
    (hvalid : edit.Valid) (hpiece : IsPiece piece) (hline : state.line edit piece = .ok state') :
    Leaves (lowercase edit.variableName) state'.rewritten (others ++ [lineOf piece].filter
      fun line => (settingOf line).1 ≠ lowercase edit.variableName) := by
  rcases line_cases hpiece hline with hkeep | ⟨hkey, hdrop⟩
  · rw [hkeep]
    exact h.keep hpiece
  · rw [List.filter_cons_of_neg (by simp [hkey]), List.filter_nil, List.append_nil]
    rcases hdrop with hdrop | ⟨value, hvalue, hwrite⟩
    · rwa [hdrop]
    · rw [hwrite]
      exact h.format hvalid hvalue

/-- All lines of other variables are left as they are. -/
lemma Leaves.foldlM (h : Leaves (lowercase edit.variableName) state.rewritten others)
    (hvalid : edit.Valid) (hpieces : ∀ piece ∈ pieces, IsPiece piece)
    (hfold : pieces.foldlM (ConfigRewrite.line edit) state = .ok state') :
    Leaves (lowercase edit.variableName) state'.rewritten (others ++ (pieces.map lineOf).filter
      fun line => (settingOf line).1 ≠ lowercase edit.variableName) := by
  induction pieces generalizing state others with
  | nil =>
      cases hfold
      simpa using h
  | cons piece pieces ih =>
      obtain ⟨hpiece, hrest⟩ := List.forall_mem_cons.mp hpieces
      rw [List.foldlM_cons] at hfold
      cases hline : state.line edit piece with
      | error e =>
          rw [hline] at hfold
          cases hfold
      | ok next =>
          rw [hline] at hfold
          have hall := ih (h.line hvalid hpiece hline) hrest hfold
          rwa [List.append_assoc, ← List.filter_append] at hall

/-- The text after the loop is what it has written, and perhaps a setting of the variable. -/
lemma Leaves.finish (h : Leaves (lowercase edit.variableName) state.rewritten others)
    (hvalid : edit.Valid) {text : List Char} (hfinish : state.finish edit = .ok text) :
    Leaves (lowercase edit.variableName) text others := by
  rw [ConfigRewrite.finish] at hfinish
  split_ifs at hfinish
  · cases hvalue : edit.value with
    | none =>
        rw [hvalue] at hfinish
        cases hfinish
    | some value =>
        rw [hvalue] at hfinish
        cases hfinish
        exact h.format hvalid hvalue
  · cases hfinish
    exact h

/-- **The other lines stay** as they are, in their order. -/
lemma rewriteText_otherLines (hclean : Clean contents) (hvalid : edit.Valid) {text : List Char}
    (htext : (do
      let state ← (splitInclusive contents).foldlM (ConfigRewrite.line edit) {}
      state.finish edit) = .ok text) :
    otherLines (lowercase edit.variableName) text =
      otherLines (lowercase edit.variableName) contents := by
  cases hfold : (splitInclusive contents).foldlM (ConfigRewrite.line edit) {} with
  | error e =>
      rw [hfold] at htext
      cases htext
  | ok state =>
      rw [hfold] at htext
      have hstart : Leaves (lowercase edit.variableName) ({} : ConfigRewrite).rewritten [] :=
        ⟨[], rfl, by simp, rfl⟩
      obtain ⟨ls, rfl, hls, hothers⟩ :=
        (hstart.foldlM hvalid (fun piece => hclean.isPiece) hfold).finish hvalid htext
      rw [otherLines, lines_unlines hls, hothers, List.nil_append]
      rfl

end RustyTinc

import RustyTinc.Core.MetaText
import RustyTinc.Tincctl.ConfigRuns

/-!
Host files that are exported from one directory and imported into another one.

* `exists_hostText`: what an export keeps of a file;
* `importLines_hostTexts`: what an import makes of the hosts in a text;
* `importHosts_runExportAllCommand`: hosts that are exported and imported **keep the values of
  their variables**, and the files that are there stay.
-/

namespace RustyTinc

open Text

/-! ### Export -/

/-- The line gives the name of a host. -/
def givesName (line : List Char) : Bool :=
  eqIgnoreAsciiCase (parseConfigFileLine line).1 "Name".toList

/-- A piece of a host file, unless it gives the name. -/
def exportPiece (piece : List Char) : List Char :=
  if givesName (rawLine piece) then []
  else rawLine piece ++ if piece.getLast? = some '\n' then ['\n'] else []

/-- The line that starts a host. -/
def nameLine (name : String) : List Char := "Name = ".toList ++ name.toList

/-- The export of one host: its name and its file. -/
def exportHost (confbase : Confbase) (name : String) : Except TincError (List Char) :=
  if checkId name then
    match confbase.read (.host name) with
    | none => .error (.io (.host name))
    | some contents =>
        .ok (nameLine name ++ '\n' :: (splitInclusive contents).flatMap exportPiece)
  else .error (.invalidNodeName name)

/-- The line between two hosts. -/
def hostSeparator : List Char :=
  "#---------------------------------------------------------------#".toList

/-- The directory lists its files in some order, and their names are sorted. -/
def runExportAllCommand (confbase : Confbase) : Except TincError (List Char) :=
  match confbase.hosts with
  | none => .error (.io .hostsDir)
  | some files =>
      ((files.keys.filter checkId).mapM (exportHost confbase)).map
        ('\n' :: (hostSeparator ++ ['\n'])).intercalate

/-! ### Import -/

/-- A host file in an export. -/
structure ImportHost where
  name : String
  contents : List Char

/-- The name on a line that begins a host. -/
def parseImportName (line : List Char) : Option (List Char) :=
  ("Name = ".toList.isPrefixOf? line).bind fun rest => (fields rest).head?

/-- The state of the loop over the lines: the files, the host that is read, and how many were
begun. -/
structure ImportState where
  hosts : OrdMap String (List Char)
  current : Option ImportHost := none
  count : ℕ := 0

/-- `write_import_host`, for the host that is read. -/
def ImportState.settle (state : ImportState) : ImportState :=
  match state.current with
  | none => state
  | some host => ⟨state.hosts.insert host.name host.contents, none, state.count⟩

/-- A host begins; one that is there is skipped. -/
def ImportState.startHost (force : Bool) (state : ImportState) (name : String) : ImportState :=
  if state.settle.hosts.contains name ∧ ¬force then state.settle
  else ⟨state.settle.hosts, some ⟨name, []⟩, state.count + 1⟩

/-- More text of the host that is read. -/
def ImportState.push (state : ImportState) (text : List Char) : ImportState :=
  { state with current := state.current.map fun host => ⟨host.name, host.contents ++ text⟩ }

/-- A line of an export: a name, a separator or a line of the file. -/
def ImportState.line (force : Bool) (state : ImportState) (line : List Char) :
    Except TincError ImportState :=
  match parseImportName line with
  | some name =>
      if checkId (.ofList name) then .ok (state.startHost force (.ofList name))
      else .error (.invalidNodeName (.ofList name))
  | none => .ok (if line = hostSeparator ++ ['\n'] then state else state.push line)

/-- The loop over the lines. A line that is refused ends it and leaves behind what was written. -/
def importLines (force : Bool) :
    ImportState → List (List Char) → Except TincError Unit × ImportState
  | state, [] => (.ok (), state)
  | state, line :: rest =>
      match state.line force line with
      | .error e => (.error e, state)
      | .ok state => importLines force state rest

/-- The number of hosts that are imported, and the directory that is left behind. -/
def importHosts (confbase : Confbase) (input : List Char) (force : Bool) :
    Except TincError ℕ × Confbase :=
  match importLines force ⟨confbase.hosts.getD .empty, none, 0⟩ (splitInclusive input) with
  | (.error e, state) => (.error e, { confbase with hosts := some state.hosts })
  | (.ok (), state) =>
      (if state.count = 0 then .error .noHostConfigurationsImported else .ok state.count,
        { confbase with hosts := some state.settle.hosts })

/-! ### Lines and pieces -/

/-- Every text is some lines and a rest without a line feed. -/
lemma exists_unlines_append (text : List Char) : ∃ ls rest, text = unlines ls ++ rest ∧
    (∀ line ∈ ls, '\n' ∉ line) ∧ '\n' ∉ rest := by
  induction text with
  | nil => exact ⟨[], [], rfl, by simp, by simp⟩
  | cons c text ih =>
      obtain ⟨ls, rest, rfl, hls, hrest⟩ := ih
      by_cases hc : c = '\n'
      · exact ⟨[] :: ls, rest, by simp [unlines, hc], by simpa using hls, hrest⟩
      · cases ls with
        | nil =>
            exact ⟨[], c :: rest, by simp [unlines], by simp, by simp [Ne.symm hc, hrest]⟩
        | cons line ls =>
            exact ⟨(c :: line) :: ls, rest, by simp [unlines],
              by simpa [Ne.symm hc] using hls, hrest⟩

lemma splitInclusive_of_notMem {text : List Char} (h : '\n' ∉ text) :
    splitInclusive text = if text = [] then [] else [text] := by
  induction text with
  | nil => rfl
  | cons c text ih =>
      obtain ⟨hc, htext⟩ := not_or.mp (List.mem_cons.not.mp h)
      rw [splitInclusive, if_neg (Ne.symm hc), ih htext, if_neg (List.cons_ne_nil c text)]
      split_ifs with hnil
      · rw [hnil]
      · rfl

lemma splitInclusive_unlines_append {ls : List (List Char)} (h : ∀ line ∈ ls, '\n' ∉ line)
    (text : List Char) :
    splitInclusive (unlines ls ++ text) = ls.map (· ++ ['\n']) ++ splitInclusive text := by
  induction ls with
  | nil => rfl
  | cons line ls ih =>
      obtain ⟨hline, hls⟩ := List.forall_mem_cons.mp h
      have htext : unlines (line :: ls) ++ text = line ++ '\n' :: (unlines ls ++ text) := by
        simp [unlines]
      rw [htext, splitInclusive_cons hline, ih hls]
      rfl

lemma unlines_append (ls ls' : List (List Char)) :
    unlines (ls ++ ls') = unlines ls ++ unlines ls' := List.flatMap_append

/-- A rest without a line feed is a line. -/
lemma lineOf_of_notMem {text : List Char} (h : '\n' ∉ text) : lineOf text = text :=
  if_neg fun hlast => h (List.mem_of_getLast? hlast)

/-- The lines of some lines and a rest. -/
lemma settingsOf_unlines_append {ls : List (List Char)} {rest : List Char}
    (hls : ∀ line ∈ ls, IsLine line) (hrest : IsLine rest) :
    settingsOf (unlines ls ++ rest) =
      (ls ++ if rest = [] then [] else [rest]).map settingOf := by
  have hpiece : (splitInclusive rest).map lineOf = if rest = [] then [] else [rest] := by
    rw [splitInclusive_of_notMem hrest.1]
    split_ifs with hnil
    · rfl
    · rw [List.map_singleton, lineOf_of_notMem hrest.1]
  have hlines : (ls.map (· ++ ['\n'])).map lineOf = ls := by
    rw [List.map_map]
    exact (List.map_congr_left fun line hline => lineOf_append_lineFeed (hls line hline).2).trans
      (List.map_id ls)
  rw [settingsOf, lines, splitInclusive_unlines_append fun line hline => (hls line hline).1,
    List.map_append, hpiece, hlines]

/-- Lines of other variables do not matter. -/
lemma values_filter_settingOf {ls : List (List Char)} {p : List Char → Bool} {k : List Char}
    (h : ∀ line ∈ ls, p line = false → (settingOf line).1 ≠ k) :
    Multimap.values ((ls.filter p).map settingOf) k = Multimap.values (ls.map settingOf) k := by
  induction ls with
  | nil => rfl
  | cons line ls ih =>
      obtain ⟨hline, hls⟩ := List.forall_mem_cons.mp h
      cases hp : p line with
      | true => rw [List.filter_cons_of_pos hp, List.map_cons, List.map_cons, Multimap.values_cons,
          Multimap.values_cons, ih hls]
      | false => rw [List.filter_cons_of_neg (by simp [hp]), List.map_cons, Multimap.values_cons,
          if_neg (hline hp), ih hls]

/-! ### What is exported -/

/-- A variable that counts for an exchange: not the name, and not in a comment. -/
def Exchanged (k : List Char) : Prop := k ≠ [] ∧ k ≠ "name".toList ∧ k.head? ≠ some '#'

/-- A host as it is exported: its lines, and a rest without a line feed. -/
structure HostText where
  name : String
  lines : List (List Char)
  rest : List Char

namespace HostText

/-- The text of a host in an export. -/
def text (h : HostText) : List Char := nameLine h.name ++ '\n' :: (unlines h.lines ++ h.rest)

/-- The values of a variable in the lines. -/
def values (h : HostText) (k : List Char) : List (List Char) :=
  Multimap.values ((h.lines ++ [h.rest]).map settingOf) k

/-- No line begins another host. -/
structure Valid (h : HostText) : Prop where
  name : checkId h.name = true
  lines : ∀ line ∈ h.lines, IsLine line ∧ givesName line = false
  rest : IsLine h.rest ∧ givesName h.rest = false

end HostText

lemma settingOf_of_givesName {line : List Char} (h : givesName line = true) :
    (settingOf line).1 = "name".toList := by
  have hname : lowercase "Name".toList = "name".toList := by decide
  exact (eqIgnoreAsciiCase_iff.mp h).trans hname

lemma givesName_nil : givesName [] = false := by decide

lemma settingOf_nil : settingOf [] = ([], []) := by decide

lemma isLine_nil : IsLine [] := ⟨by simp, by simp⟩

/-- The lines of a file that are exported. -/
lemma flatMap_exportPiece_map {ls : List (List Char)}
    (hpiece : ∀ line ∈ ls, IsPiece (line ++ ['\n'])) :
    (ls.map (· ++ ['\n'])).flatMap exportPiece = unlines
      ((ls.map fun line => lineOf (line ++ ['\n'])).filter fun line => !givesName line) := by
  induction ls with
  | nil => rfl
  | cons line ls ih =>
      obtain ⟨hline, hls⟩ := List.forall_mem_cons.mp hpiece
      rw [List.map_cons, List.flatMap_cons, ih hls, exportPiece, hline.rawLine,
        List.getLast?_concat, if_pos rfl, List.map_cons]
      cases hgives : givesName (lineOf (line ++ ['\n'])) with
      | true => rw [List.filter_cons_of_neg (by simp [hgives]), if_pos rfl, List.nil_append]
      | false =>
          rw [List.filter_cons_of_pos (by simp [hgives]), if_neg (by simp)]
          rfl

section Rest

variable {rest : List Char}

/-- The rest of a file that is exported. -/
lemma flatMap_exportPiece_rest (hrest : '\n' ∉ rest) (hpiece : rest ≠ [] → IsPiece rest) :
    (splitInclusive rest).flatMap exportPiece = if givesName rest then [] else rest := by
  have hself := lineOf_of_notMem hrest
  rw [splitInclusive_of_notMem hrest]
  split_ifs with hne hgives hgives
  · rfl
  · exact hne.symm
  · rw [List.flatMap_singleton, exportPiece, (hpiece hne).rawLine, hself, if_pos hgives]
  · rw [List.flatMap_singleton, exportPiece, (hpiece hne).rawLine, hself, if_neg hgives,
      if_neg fun h => hrest (List.mem_of_getLast? h), List.append_nil]

lemma values_nil_line {k : List Char} (hne : k ≠ []) :
    Multimap.values ([([] : List Char)].map settingOf) k = [] := by
  rw [List.map_singleton, settingOf_nil, Multimap.values_cons, if_neg (Ne.symm hne)]
  rfl

/-- The values in the rest of a file stay. -/
lemma values_rest (hrest : '\n' ∉ rest) {k : List Char} (hk : Exchanged k) :
    Multimap.values ([if givesName rest then [] else rest].map settingOf) k =
      Multimap.values (((splitInclusive rest).map lineOf).map settingOf) k := by
  obtain ⟨hne, hname, -⟩ := hk
  rw [splitInclusive_of_notMem hrest]
  by_cases hempty : rest = []
  · rw [if_pos hempty, hempty, ite_self]
    exact values_nil_line hne
  · have hlines : [rest].map lineOf = [rest] := congrArg ([·]) (lineOf_of_notMem hrest)
    rw [if_neg hempty, hlines]
    split_ifs with hgives
    · rw [values_nil_line hne, List.map_singleton, Multimap.values_cons,
        if_neg (by rw [settingOf_of_givesName hgives]; exact Ne.symm hname)]
      rfl
    · rfl

end Rest

/-- **What an export keeps of a file.** -/
lemma exists_hostText {contents : List Char} (hclean : Clean contents) {name : String}
    (hname : checkId name = true) : ∃ h : HostText, h.name = name ∧ h.Valid ∧
      h.text = nameLine name ++ '\n' :: (splitInclusive contents).flatMap exportPiece ∧
      ∀ k, Exchanged k → h.values k = fileSettings contents k := by
  obtain ⟨ls, rest, rfl, hls, hrest⟩ := exists_unlines_append contents
  have hsplit := splitInclusive_unlines_append hls rest
  have hpiece : ∀ line ∈ ls, IsPiece (line ++ ['\n']) := fun line hline =>
    hclean.isPiece (by rw [hsplit]; exact List.mem_append_left _ (List.mem_map_of_mem hline))
  have hlast : rest ≠ [] → IsPiece rest := by
    intro hne
    refine hclean.isPiece ?_
    rw [hsplit, splitInclusive_of_notMem hrest, if_neg hne]
    exact List.mem_append_right _ List.mem_cons_self
  have hline : IsLine rest := by
    by_cases hne : rest = []
    · rw [hne]
      exact isLine_nil
    · exact lineOf_of_notMem hrest ▸ (hlast hne).isLine
  let kept := (ls.map fun line => lineOf (line ++ ['\n'])).filter fun line => !givesName line
  refine ⟨⟨name, kept, if givesName rest then [] else rest⟩, rfl, ⟨hname, ?_, ?_⟩, ?_, ?_⟩
  · intro line hmem
    obtain ⟨hmem, hkeep⟩ := List.mem_filter.mp hmem
    obtain ⟨line, hfull, rfl⟩ := List.mem_map.mp hmem
    exact ⟨(hpiece line hfull).isLine, by simpa using hkeep⟩
  · cases hgives : givesName rest with
    | true => exact ⟨isLine_nil, givesName_nil⟩
    | false => exact ⟨hline, hgives⟩
  · rw [HostText.text, hsplit, List.flatMap_append, flatMap_exportPiece_map hpiece,
      flatMap_exportPiece_rest hrest hlast]
  · intro k hk
    have hlines : lines (unlines ls ++ rest) = (ls.map fun line => lineOf (line ++ ['\n'])) ++
        (splitInclusive rest).map lineOf := by
      rw [lines, hsplit, List.map_append, List.map_map]
      rfl
    rw [HostText.values, fileSettings, settingsOf, hlines, List.map_append, List.map_append,
      Multimap.values_append, Multimap.values_append, values_rest hrest hk]
    refine congrArg (· ++ _) (values_filter_settingOf fun line _ hgives => ?_)
    rw [settingOf_of_givesName (by simpa using hgives)]
    exact Ne.symm hk.2.1

/-! ### What is imported -/

/-- The name is read again from its line. -/
lemma parseImportName_nameLine {name : String} (h : checkId name = true) :
    parseImportName (nameLine name ++ ['\n']) = some name.toList := by
  have hword := checkId_word h
  have hprefix : "Name = ".toList.isPrefixOf? (nameLine name ++ ['\n']) =
      some (name.toList ++ ['\n']) :=
    List.isPrefixOf?_eq_some_iff_append_eq.mpr (List.append_assoc _ _ _).symm
  have hfields : fields (name.toList ++ ['\n']) = [name.toList] := by
    rw [fields, List.splitOnP_append_cons_of_forall_mem hword.2 '\n' (by decide),
      List.splitOnP_nil]
    simp [hword.1]
  rw [parseImportName, hprefix, Option.bind_some, hfields]
  rfl

lemma givesName_append (rest : List Char) : givesName ("Name = ".toList ++ rest) = true := by
  have hname : ∀ c ∈ "Name".toList, endsName c = false :=
    forall_mem_of_all (by decide +kernel)
  have hrest : ∀ c ∈ (' ' :: '=' :: ' ' :: rest).head?, endsName c = true := by
    intro c hc
    cases hc
    rfl
  show givesName ("Name".toList ++ ' ' :: '=' :: ' ' :: rest) = true
  rw [givesName, parseConfigFileLine, dropWhile_isBlank_name (by simp) hname,
    splitSetting_append hname hrest]
  exact eqIgnoreAsciiCase_iff.mpr rfl

/-- A line that gives no name begins no host. -/
lemma parseImportName_eq_none {line ending : List Char} (h : givesName line = false)
    (hending : ending = [] ∨ ending = ['\n']) : parseImportName (line ++ ending) = none := by
  cases hprefix : "Name = ".toList.isPrefixOf? (line ++ ending) with
  | none =>
      rw [parseImportName, hprefix]
      rfl
  | some rest =>
      have heq := List.isPrefixOf?_eq_some_iff_append_eq.mp hprefix
      have hline : ∃ rest, line = "Name = ".toList ++ rest := by
        rcases hending with rfl | rfl
        · exact ⟨rest, by rw [heq, List.append_nil]⟩
        · rcases List.eq_nil_or_concat' rest with rfl | ⟨rest, c, rfl⟩
          · have hlast := congrArg List.getLast? heq
            rw [List.getLast?_concat] at hlast
            exact absurd hlast (by decide)
          · rw [← List.append_assoc] at heq
            exact ⟨rest, (List.append_inj_left' heq rfl).symm⟩
      obtain ⟨rest, rfl⟩ := hline
      rw [givesName_append] at h
      cases h

variable {force : Bool} {state : ImportState}

lemma importLines_cons {line : List Char} {rest : List (List Char)} {state' : ImportState}
    (h : state.line force line = .ok state') :
    importLines force state (line :: rest) = importLines force state' rest := by
  rw [importLines, h]

namespace ImportState

lemma push_nil (state : ImportState) : state.push [] = state := by
  obtain ⟨hosts, current, count⟩ := state
  cases current <;> simp [push]

lemma push_push (state : ImportState) (text text' : List Char) :
    (state.push text).push text' = state.push (text ++ text') := by
  obtain ⟨hosts, current, count⟩ := state
  cases current <;> simp [push]

lemma line_nameLine {name : String} (h : checkId name = true) :
    state.line force (nameLine name ++ ['\n']) = .ok (state.startHost force name) := by
  rw [line, parseImportName_nameLine h]
  dsimp only
  rw [String.ofList_toList, if_pos h]

/-- A host of that name is imported. -/
def takes (force : Bool) (state : ImportState) (name : String) : Bool :=
  force || (state.settle.hosts.get? name).isNone

/-- **One host** is put beside the others, when it is imported. -/
lemma get?_settle_startHost (name : String) (text : List Char) (other : String) :
    ((state.startHost force name).push text).settle.hosts.get? other =
      if other = name ∧ state.takes force name then some text
      else state.settle.hosts.get? other := by
  have hidle : (state.settle.push text).settle.hosts = state.settle.hosts := by
    obtain ⟨hosts, current, count⟩ := state
    cases current <;> rfl
  rw [startHost]
  split_ifs with hskip htake htake
  · rw [hidle]
    have htakes := htake.2
    rw [takes, Bool.or_eq_true, Option.isNone_iff_eq_none] at htakes
    rcases htakes with hforce | hnone
    · exact absurd hforce hskip.2
    · have hcontains := hskip.1
      rw [OrdMap.contains, hnone] at hcontains
      cases hcontains
  · rw [hidle]
  · obtain ⟨rfl, -⟩ := htake
    show (state.settle.hosts.insert other ([] ++ text)).get? other = _
    rw [OrdMap.get?_insert, if_pos rfl, List.nil_append]
  · show (state.settle.hosts.insert name ([] ++ text)).get? other = _
    rw [OrdMap.get?_insert, if_neg]
    rintro rfl
    refine htake ⟨rfl, ?_⟩
    rw [takes]
    rw [OrdMap.contains] at hskip
    cases force <;> simp_all

lemma count_startHost (name : String) (text : List Char) :
    ((state.startHost force name).push text).count =
      state.count + if state.takes force name then 1 else 0 := by
  have hsettle : state.settle.count = state.count := by
    obtain ⟨hosts, current, count⟩ := state
    cases current <;> rfl
  rw [startHost, takes, OrdMap.contains]
  cases force <;> cases state.settle.hosts.get? name <;> simp [push, hsettle]

end ImportState

/-- Lines that give no name are pushed, without the separators. -/
lemma importLines_map {ls : List (List Char)} (hls : ∀ line ∈ ls, givesName line = false)
    (rest : List (List Char)) :
    importLines force state (ls.map (· ++ ['\n']) ++ rest) =
      importLines force (state.push (unlines (ls.filter (· ≠ hostSeparator)))) rest := by
  induction ls generalizing state with
  | nil => exact congrArg (importLines force · rest) state.push_nil.symm
  | cons line ls ih =>
      obtain ⟨hline, hls⟩ := List.forall_mem_cons.mp hls
      have hstep : state.line force (line ++ ['\n']) =
          .ok (state.push (unlines ([line].filter (· ≠ hostSeparator)))) := by
        rw [ImportState.line, parseImportName_eq_none hline (.inr rfl)]
        by_cases heq : line = hostSeparator
        · rw [heq, if_pos rfl, List.filter_cons_of_neg (by simp)]
          exact congrArg Except.ok state.push_nil.symm
        · rw [if_neg fun h => heq (List.append_cancel_right h),
            List.filter_cons_of_pos (by simp [heq])]
          simp [unlines]
      rw [List.map_cons, List.cons_append, importLines_cons hstep, ih hls, ImportState.push_push,
        ← unlines_append, ← List.filter_append]
      rfl

namespace HostText

variable {h : HostText}

/-- What an import writes of a host. -/
def imported (h : HostText) (last : Bool) : List Char :=
  if last then unlines (h.lines.filter (· ≠ hostSeparator)) ++ h.rest
  else unlines ((h.lines ++ [h.rest]).filter (· ≠ hostSeparator))

lemma settingOf_hostSeparator : (settingOf hostSeparator).1.head? = some '#' := by decide

/-- **The values stay.** -/
lemma Valid.fileSettings_imported (hvalid : h.Valid) (last : Bool) {k : List Char}
    (hk : Exchanged k) : fileSettings (h.imported last) k = h.values k := by
  obtain ⟨hne, -, hcomment⟩ := hk
  have hfilter : ∀ ls : List (List Char),
      Multimap.values ((ls.filter (· ≠ hostSeparator)).map settingOf) k =
        Multimap.values (ls.map settingOf) k := by
    intro ls
    refine values_filter_settingOf fun line _ hline heq => hcomment ?_
    rw [← heq, show line = hostSeparator by simpa using hline]
    exact settingOf_hostSeparator
  have hlines : ∀ line ∈ h.lines.filter (· ≠ hostSeparator), IsLine line :=
    fun line hline => (hvalid.lines line (List.mem_of_mem_filter hline)).1
  cases last with
  | true =>
      rw [fileSettings, imported, if_pos rfl, settingsOf_unlines_append hlines hvalid.rest.1,
        List.map_append, Multimap.values_append, hfilter, values, List.map_append,
        Multimap.values_append]
      refine congrArg (_ ++ ·) ?_
      split_ifs with hnil
      · rw [hnil, values_nil_line hne]
        rfl
      · rfl
  | false =>
      have hall : ∀ line ∈ (h.lines ++ [h.rest]).filter (· ≠ hostSeparator), IsLine line := by
        intro line hline
        rcases List.mem_append.mp (List.mem_of_mem_filter hline) with hmem | hmem
        · exact (hvalid.lines line hmem).1
        · exact List.mem_singleton.mp hmem ▸ hvalid.rest.1
      rw [fileSettings, imported, if_neg (by simp), settingsOf, lines_unlines hall, hfilter, values]

lemma Valid.nameLine (hvalid : h.Valid) : '\n' ∉ RustyTinc.nameLine h.name := by
  intro hmem
  rcases List.mem_append.mp hmem with hmem | hmem
  · exact absurd hmem (by decide)
  · exact absurd ((checkId_word hvalid.name).2 _ hmem) (by decide)

/-- The last host of a text. -/
lemma Valid.importLines_text (hvalid : h.Valid) :
    importLines force state (splitInclusive h.text) =
      (.ok (), (state.startHost force h.name).push (h.imported true)) := by
  have htext : h.text = unlines (RustyTinc.nameLine h.name :: h.lines) ++ h.rest := by
    simp [text, unlines]
  have hlines : ∀ line ∈ RustyTinc.nameLine h.name :: h.lines, '\n' ∉ line :=
    List.forall_mem_cons.mpr ⟨hvalid.nameLine, fun line hline => (hvalid.lines line hline).1.1⟩
  have hgives : ∀ line ∈ h.lines, givesName line = false :=
    fun line hline => (hvalid.lines line hline).2
  rw [htext, splitInclusive_unlines_append hlines, List.map_cons, List.cons_append,
    importLines_cons (ImportState.line_nameLine hvalid.name), importLines_map hgives,
    splitInclusive_of_notMem hvalid.rest.1.1, imported, if_pos rfl]
  by_cases hnil : h.rest = []
  · rw [if_pos hnil, hnil, List.append_nil]
    rfl
  · have hnone := parseImportName_eq_none hvalid.rest.2 (.inl rfl)
    rw [List.append_nil] at hnone
    have hsep : h.rest ≠ hostSeparator ++ ['\n'] := fun heq => hvalid.rest.1.1 (by simp [heq])
    rw [if_neg hnil, ← ImportState.push_push]
    refine importLines_cons ?_
    rw [ImportState.line, hnone]
    exact congrArg Except.ok (if_neg hsep)

/-- A host that is followed by others. -/
lemma Valid.importLines_text_append (hvalid : h.Valid) (text : List Char) :
    importLines force state
        (splitInclusive (h.text ++ ('\n' :: (hostSeparator ++ ['\n']) ++ text))) =
      importLines force ((state.startHost force h.name).push (h.imported false))
        (splitInclusive text) := by
  have htext : h.text ++ ('\n' :: (hostSeparator ++ ['\n']) ++ text) =
      unlines (RustyTinc.nameLine h.name :: (h.lines ++ [h.rest, hostSeparator])) ++ text := by
    simp [HostText.text, unlines]
  have hlines : ∀ line ∈ h.lines ++ [h.rest, hostSeparator],
      '\n' ∉ line ∧ givesName line = false := by
    intro line hline
    rcases List.mem_append.mp hline with hmem | hmem
    · exact ⟨(hvalid.lines line hmem).1.1, (hvalid.lines line hmem).2⟩
    · rcases List.mem_cons.mp hmem with rfl | hmem
      · exact ⟨hvalid.rest.1.1, hvalid.rest.2⟩
      · rw [List.mem_singleton.mp hmem]
        decide
  have hfeeds : ∀ line ∈ RustyTinc.nameLine h.name :: (h.lines ++ [h.rest, hostSeparator]),
      '\n' ∉ line :=
    List.forall_mem_cons.mpr ⟨hvalid.nameLine, fun line hline => (hlines line hline).1⟩
  have hfilter : (h.lines ++ [h.rest, hostSeparator]).filter (· ≠ hostSeparator) =
      (h.lines ++ [h.rest]).filter (· ≠ hostSeparator) := by
    simp [List.filter_cons]
  rw [htext, splitInclusive_unlines_append hfeeds, List.map_cons, List.cons_append,
    importLines_cons (ImportState.line_nameLine hvalid.name),
    importLines_map fun line hline => (hlines line hline).2, hfilter, imported,
    if_neg (by simp)]

end HostText

/-- **A run of the import** over hosts with different names: those that are not there yet, or all
of them, are written, and the others stay. -/
lemma importLines_hostTexts {hosts : List HostText} (hvalid : ∀ h ∈ hosts, h.Valid)
    (hnodup : (hosts.map (·.name)).Nodup) (state : ImportState) :
    ∃ final, importLines force state (splitInclusive
        (('\n' :: (hostSeparator ++ ['\n'])).intercalate (hosts.map HostText.text))) =
        (.ok (), final) ∧
      final.count = state.count + ((hosts.map (·.name)).filter (state.takes force)).length ∧
      (∀ h ∈ hosts, state.takes force h.name → ∃ last,
        final.settle.hosts.get? h.name = some (h.imported last)) ∧
      ∀ name, (name ∈ hosts.map (·.name) → state.takes force name = false) →
        final.settle.hosts.get? name = state.settle.hosts.get? name := by
  induction hosts generalizing state with
  | nil => exact ⟨state, rfl, rfl, by simp, fun _ _ => rfl⟩
  | cons h hosts ih =>
      obtain ⟨hfirst, hrest⟩ := List.forall_mem_cons.mp hvalid
      rw [List.map_cons, List.nodup_cons] at hnodup
      let next := (state.startHost force h.name).push (h.imported hosts.isEmpty)
      have hget : ∀ other, next.settle.hosts.get? other =
          if other = h.name ∧ state.takes force h.name then some (h.imported hosts.isEmpty)
          else state.settle.hosts.get? other :=
        ImportState.get?_settle_startHost h.name _
      have hother : ∀ other, other ≠ h.name →
          next.settle.hosts.get? other = state.settle.hosts.get? other :=
        fun other hne => (hget other).trans (if_neg fun hand => hne hand.1)
      have htakes : ∀ other ∈ hosts.map (·.name),
          next.takes force other = state.takes force other := by
        intro other hmem
        have hne : other ≠ h.name := fun heq => hnodup.1 (heq ▸ hmem)
        rw [ImportState.takes, ImportState.takes, hother other hne]
      obtain ⟨final, hrun, hcount, htaken, hkept⟩ := ih hrest hnodup.2 next
      refine ⟨final, ?_, ?_, ?_, ?_⟩
      · rw [← hrun]
        cases hosts with
        | nil =>
            have htext : ('\n' :: (hostSeparator ++ ['\n'])).intercalate
                ([h].map HostText.text) = h.text := by simp [List.intercalate]
            rw [htext, hfirst.importLines_text]
            rfl
        | cons h' hosts =>
            have htext : ('\n' :: (hostSeparator ++ ['\n'])).intercalate
                ((h :: h' :: hosts).map HostText.text) =
                h.text ++ ('\n' :: (hostSeparator ++ ['\n']) ++
                  ('\n' :: (hostSeparator ++ ['\n'])).intercalate
                    ((h' :: hosts).map HostText.text)) := by
              simp [List.intercalate]
            rw [htext, hfirst.importLines_text_append]
            rfl
      · rw [hcount, List.map_cons, List.filter_cons,
          List.filter_congr htakes, ImportState.count_startHost]
        split_ifs
        · rw [List.length_cons]
          omega
        · rfl
      · intro host hhost htake
        rcases List.mem_cons.mp hhost with rfl | hmem
        · refine ⟨hosts.isEmpty, ?_⟩
          rw [hkept host.name fun hmem => absurd hmem hnodup.1, hget, if_pos ⟨rfl, htake⟩]
        · have hname := List.mem_map_of_mem (f := HostText.name) hmem
          exact htaken host hmem ((htakes host.name hname).trans htake)
      · intro name hname
        rw [hkept name fun hmem => (htakes name hmem).trans (hname (List.mem_cons_of_mem _ hmem)),
          hget, if_neg]
        rintro ⟨rfl, htake⟩
        rw [hname List.mem_cons_self] at htake
        cases htake

/-! ### From one directory to another -/

/-- The hosts that are exported and imported. -/
def exchangedNames (source target : Confbase) (force : Bool) : List String :=
  ((source.hosts.elim [] OrdMap.keys).filter checkId).filter fun name =>
    force || (target.read (.host name)).isNone

/-- **The texts of an export.** -/
lemma exists_hostTexts {source : Confbase} (hclean : source.Clean) {names : List String}
    {texts : List (List Char)} (h : names.mapM (exportHost source) = .ok texts) :
    ∃ hosts : List HostText, hosts.map (·.name) = names ∧ hosts.map HostText.text = texts ∧
      ∀ host ∈ hosts, host.Valid ∧ ∃ contents, source.read (.host host.name) = some contents ∧
        ∀ k, Exchanged k → host.values k = fileSettings contents k := by
  induction names generalizing texts with
  | nil =>
      cases h
      exact ⟨[], rfl, rfl, by simp⟩
  | cons name names ih =>
      rw [List.mapM_cons] at h
      cases hfirst : exportHost source name with
      | error e =>
          rw [hfirst] at h
          cases h
      | ok text =>
      cases hrest : names.mapM (exportHost source) with
      | error e =>
          rw [hfirst, hrest] at h
          cases h
      | ok texts' =>
          rw [hfirst, hrest] at h
          cases h
          obtain ⟨hosts, hnames, htexts, hhosts⟩ := ih hrest
          rw [exportHost] at hfirst
          split_ifs at hfirst with hname
          cases hread : source.read (.host name) with
          | none =>
              rw [hread] at hfirst
              cases hfirst
          | some contents =>
              rw [hread] at hfirst
              cases hfirst
              obtain ⟨host, rfl, hvalid, htext, hvalues⟩ :=
                exists_hostText (hclean _ _ hread) hname
              exact ⟨host :: hosts, congrArg (host.name :: ·) hnames,
                by rw [List.map_cons, htext, htexts],
                List.forall_mem_cons.mpr ⟨⟨hvalid, contents, hread, hvalues⟩, hhosts⟩⟩

/-- **Hosts that are exported and imported.** All hosts of the source that the target does not
have, or all of them when it is forced, get a file in which every variable has the values that it
has in the source, apart from the name; all other files of the target stay. Nothing to import is
an error. -/
theorem importHosts_runExportAllCommand {source target : Confbase} {text : List Char}
    {force : Bool} (hclean : source.Clean) (hexport : runExportAllCommand source = .ok text) :
    (importHosts target text force).1 =
        (if (exchangedNames source target force).length = 0 then
          .error .noHostConfigurationsImported
        else .ok (exchangedNames source target force).length) ∧
      ∃ files, (importHosts target text force).2 = { target with hosts := some files } ∧
        (∀ name ∈ exchangedNames source target force, ∃ contents imported,
          source.read (.host name) = some contents ∧ files.get? name = some imported ∧
          ∀ k, Exchanged k → fileSettings imported k = fileSettings contents k) ∧
        ∀ name, name ∉ exchangedNames source target force →
          files.get? name = target.read (.host name) := by
  rw [runExportAllCommand] at hexport
  cases hfiles : source.hosts with
  | none =>
      rw [hfiles] at hexport
      cases hexport
  | some files =>
  rw [hfiles] at hexport
  dsimp only at hexport
  cases htexts : (files.keys.filter checkId).mapM (exportHost source) with
  | error e =>
      rw [htexts] at hexport
      cases hexport
  | ok texts =>
  rw [htexts] at hexport
  cases hexport
  obtain ⟨hosts, hnames, rfl, hhosts⟩ := exists_hostTexts hclean htexts
  let start : ImportState := ⟨target.hosts.getD .empty, none, 0⟩
  have hstart : ∀ name, start.settle.hosts.get? name = target.read (.host name) := by
    intro name
    show (target.hosts.getD .empty).get? name = target.hosts.bind (·.get? name)
    cases target.hosts <;> rfl
  have hnodup : (hosts.map (·.name)).Nodup := hnames ▸ files.nodup_keys.filter _
  have htakes : exchangedNames source target force =
      (hosts.map (·.name)).filter (start.takes force) := by
    rw [exchangedNames, hfiles, hnames]
    refine List.filter_congr fun name _ => ?_
    rw [ImportState.takes, hstart]
  obtain ⟨final, hrun, hcount, htaken, hkept⟩ :=
    @importLines_hostTexts force hosts (fun h hh => (hhosts h hh).1) hnodup start
  rw [importHosts, hrun, htakes]
  dsimp only
  rw [hcount, Nat.zero_add]
  refine ⟨rfl, final.settle.hosts, rfl, ?_, ?_⟩
  · intro name hname
    obtain ⟨hmem, htake⟩ := List.mem_filter.mp hname
    obtain ⟨host, hhost, rfl⟩ := List.mem_map.mp hmem
    obtain ⟨hvalid, contents, hread, hvalues⟩ := hhosts host hhost
    obtain ⟨last, hget⟩ := htaken host hhost htake
    exact ⟨contents, _, hread, hget, fun k hk =>
      (hvalid.fileSettings_imported last hk).trans (hvalues k hk)⟩
  · intro name hname
    rw [hkept name fun hmem => ?_, hstart]
    exact Bool.eq_false_iff.mpr fun htake => hname (List.mem_filter.mpr ⟨hmem, htake⟩)

/-- Two hosts: a file without a line feed at its end, and one that names its host. -/
def exchangeSource : Confbase :=
  ⟨"/etc/tinc/a".toList, some "Name = alpha\n".toList, none,
    some ((OrdMap.empty.insert "alpha" "Port = 656".toList).insert "beta"
      "Name = beta\nSubnet = 10.0.0.0/8\n".toList)⟩

/-- A directory that knows one of them. -/
def exchangeTarget : Confbase :=
  ⟨"/etc/tinc/b".toList, some "Name = gamma\n".toList, none,
    some (OrdMap.empty.insert "alpha" "Port = 655\n".toList)⟩

/-- An export of two hosts. -/
def exchangeText : List Char :=
  "Name = alpha\nPort = 656\n".toList ++ (hostSeparator ++ ['\n']) ++
    "Name = beta\nSubnet = 10.0.0.0/8\n".toList

/-- The files are clean. -/
lemma exchangeSource_clean : exchangeSource.Clean := by
  intro path contents hread
  have hclean : (∀ line ∈ lines "Name = alpha\n".toList, line.getLast? ≠ some '\r') ∧
      (∀ line ∈ lines "Port = 656".toList, line.getLast? ≠ some '\r') ∧
      ∀ line ∈ lines "Name = beta\nSubnet = 10.0.0.0/8\n".toList, line.getLast? ≠ some '\r' := by
    decide +kernel
  cases path with
  | tincConf =>
      cases hread
      exact hclean.1
  | confD name => cases hread
  | hostsDir => cases hread
  | host name =>
      change ((OrdMap.empty.insert "alpha" "Port = 656".toList).insert "beta"
        "Name = beta\nSubnet = 10.0.0.0/8\n".toList).get? name = some contents at hread
      rw [OrdMap.get?_insert, OrdMap.get?_insert] at hread
      split_ifs at hread
      · cases hread
        exact hclean.2.2
      · cases hread
        exact hclean.2.1
      · cases hread

/-- Two hosts are exported and imported. -/
theorem importHosts_runExportAllCommand_two :
    (importHosts exchangeTarget exchangeText false).1 = .ok 1 ∧
      ∃ files, (importHosts exchangeTarget exchangeText false).2.hosts = some files ∧
        files.get? "alpha" = some "Port = 655\n".toList ∧
        ∃ imported, files.get? "beta" = some imported ∧
          fileSettings imported "subnet".toList = ["10.0.0.0/8".toList] := by
  have hexport : runExportAllCommand exchangeSource = .ok exchangeText := by
    have hrun : (runExportAllCommand exchangeSource).toOption = some exchangeText := by
      decide +kernel
    cases hresult : runExportAllCommand exchangeSource with
    | error e =>
        rw [hresult] at hrun
        cases hrun
    | ok text =>
        rw [hresult] at hrun
        exact congrArg Except.ok (Option.some.inj hrun)
  have hnames : exchangedNames exchangeSource exchangeTarget false = ["beta"] := by decide +kernel
  obtain ⟨hcount, files, hdir, htaken, hkept⟩ :=
    @importHosts_runExportAllCommand _ exchangeTarget _ false exchangeSource_clean hexport
  rw [hnames] at hcount htaken hkept
  obtain ⟨contents, imported, hread, hget, hvalues⟩ := htaken "beta" List.mem_cons_self
  refine ⟨hcount, files, by rw [hdir], ?_, imported, hget, ?_⟩
  · rw [hkept "alpha" (by decide)]
    decide +kernel
  · have hbeta : exchangeSource.read (.host "beta") =
        some "Name = beta\nSubnet = 10.0.0.0/8\n".toList := by decide +kernel
    obtain rfl := Option.some.inj (hbeta.symm.trans hread)
    rw [hvalues "subnet".toList ⟨by decide, by decide, by decide⟩]
    decide +kernel

end RustyTinc

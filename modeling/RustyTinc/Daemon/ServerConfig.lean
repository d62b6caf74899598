import RustyTinc.Core.Config

/-!
What the daemon reads when it starts: the options of its command line, the files of the server
and the file of its own host, and the files of all hosts.

* `ConfigTree.Reads`: a tree holds what some options and files give, each setting once;
* `ConfigTree.Reads.answers`: its lookups find the setting that is in effect, and all of them;
* `loadServerTree_settings`: **the settings that the daemon starts from**.
-/

namespace RustyTinc

open Text

/-! ### Files -/

/-- The files of a configuration directory with their texts. -/
structure Confbase where
  path : List Char
  tincConf : Option (List Char)
  confD : Option (OrdMap String (List Char))
  hosts : Option (OrdMap String (List Char))

/-- The files and directories under the configuration directory. -/
inductive ConfigPath where
  | tincConf
  | confD (name : String)
  | hostsDir
  | host (name : String)
deriving DecidableEq

/-- Why the configuration cannot be loaded. -/
inductive ConfigLoadError where
  | io (path : ConfigPath)
  | parse (error : ConfigParseError)
deriving DecidableEq

/-- `Path::join` -/
def joinPath (base name : List Char) : List Char :=
  if base = [] ∨ base.getLast? = some '/' then base ++ name else base ++ '/' :: name

/-- The path below the configuration directory. -/
def ConfigPath.relative : ConfigPath → List Char
  | tincConf => "tinc.conf".toList
  | confD name => "conf.d/".toList ++ name.toList
  | hostsDir => "hosts".toList
  | host name => "hosts/".toList ++ name.toList

/-- The path of a file, as settings name it. -/
def Confbase.display (confbase : Confbase) (path : ConfigPath) : List Char :=
  joinPath confbase.path path.relative

/-- `fs::read_to_string` -/
def Confbase.read (confbase : Confbase) : ConfigPath → Option (List Char)
  | .tincConf => confbase.tincConf
  | .confD name => confbase.confD.bind (·.get? name)
  | .hostsDir => none
  | .host name => confbase.hosts.bind (·.get? name)

/-- `Path::extension` is `conf`. -/
def hasConfExtension (name : String) : Bool :=
  ".conf".toList.isSuffixOf name.toList && 5 < name.length

/-! ### Reading -/

/-- The settings of a file are added, in their order. -/
def ConfigTree.extendFromFile (tree : ConfigTree) (contents file : List Char) :
    Except ConfigParseError ConfigTree :=
  (parseConfigFile contents file).map (·.foldl ConfigTree.add tree)

/-- The same for a file of the configuration directory. -/
def ConfigTree.extendFromPath (tree : ConfigTree) (confbase : Confbase) (path : ConfigPath) :
    Except ConfigLoadError ConfigTree :=
  match confbase.read path with
  | none => .error (.io path)
  | some contents => (tree.extendFromFile contents (confbase.display path)).mapError .parse

/-- The option as a setting of the server, or of the named host. -/
def selectOption (host : Option String) (config : Config) : Option Config :=
  (match host with
    | some name => do
        let rest ← name.toList.isPrefixOf? config.variableName
        ['.'].isPrefixOf? rest
    | none => if '.' ∈ config.variableName then none else some config.variableName).map
    fun variableName => ⟨variableName, config.value, ⟨none, config.source.line⟩⟩

/-- The options of the command line that are meant for the host, or for the server. -/
def ConfigTree.applyCommandLineOptions (tree : ConfigTree) (options : List Config)
    (host : Option String) : ConfigTree :=
  (options.filterMap (selectOption host)).reverse.foldl ConfigTree.add tree

/-- The directory lists its files in some order, and they are sorted by their paths. -/
def ConfigTree.extendFromConfDir (tree : ConfigTree) (confbase : Confbase) :
    Except ConfigLoadError ConfigTree :=
  match confbase.confD with
  | none => .ok tree
  | some files =>
      (files.keys.filter hasConfExtension).foldlM
        (fun tree name => tree.extendFromPath confbase (.confD name)) tree

/-- The settings of the server: the command line, `tinc.conf` and the files of `conf.d`. -/
def ConfigTree.readServerConfig (tree : ConfigTree) (confbase : Confbase) (options : List Config) :
    Except ConfigLoadError ConfigTree := do
  let tree := tree.applyCommandLineOptions options none
  let tree ← tree.extendFromPath confbase .tincConf
  tree.extendFromConfDir confbase

/-- The settings of a host: the command line and the host file. -/
def ConfigTree.readHostConfig (tree : ConfigTree) (confbase : Confbase) (name : String)
    (options : List Config) : Except ConfigLoadError ConfigTree :=
  (tree.applyCommandLineOptions options (some name)).extendFromPath confbase (.host name)

/-- The settings of all hosts with a file, by their names. -/
def ConfigTree.readAllHostConfigs (confbase : Confbase) (options : List Config) :
    Except ConfigLoadError (List (String × ConfigTree)) :=
  match confbase.hosts with
  | none => .error (.io .hostsDir)
  | some files =>
      (files.keys.filter checkId).mapM fun name => do
        let tree ← ConfigTree.new.readHostConfig confbase name options
        return (name, tree)

/-- The options of the command line, with their numbers. -/
def parseCliConfigs (arguments : List (List Char)) : Except ConfigParseError (List Config) :=
  arguments.zipIdx.mapM fun argument => parseConfigLine argument.1 none (argument.2 + 1)

/-- Why the configuration of the server is refused. -/
inductive ServerConfigError where
  | load (error : ConfigLoadError)
  | missingRequired (variableName : List Char)
deriving DecidableEq

/-- The settings from which the daemon starts: the name of its host, the settings of the server and
its own host, and those of each host. -/
def loadServerTree (confbase : Confbase) (options : List Config) :
    Except ServerConfigError (String × ConfigTree × List (String × ConfigTree)) := do
  let tree ← (ConfigTree.new.readServerConfig confbase options).mapError .load
  match tree.lookup "Name".toList with
  | none => throw (.missingRequired "Name".toList)
  | some name =>
      let name := String.ofList name.value
      let tree ← (tree.readHostConfig confbase name options).mapError .load
      let hosts ← (ConfigTree.readAllHostConfigs confbase options).mapError .load
      return (name, tree, hosts)

/-! ### What is given -/

/-- A line of the file gives the setting. -/
def FileGives (confbase : Confbase) (path : ConfigPath) (config : Config) : Prop :=
  ∃ contents i line, confbase.read path = some contents ∧
    IsSettingAt false (lines contents) i line ∧
    parseConfigLine line (some (confbase.display path)) (configLineNumber i) = .ok config

/-- An option for the server or for one of some hosts, or a line of one of some files, gives the
setting. -/
def Given (confbase : Confbase) (options : List Config) (hosts : List (Option String))
    (paths : List ConfigPath) (config : Config) : Prop :=
  (∃ host ∈ hosts, ∃ option ∈ options, selectOption host option = some config) ∨
    ∃ path ∈ paths, FileGives confbase path config

/-- All files have fewer than `2 ^ 31` lines. -/
def Confbase.Short (confbase : Confbase) : Prop :=
  ∀ path contents, confbase.read path = some contents → (lines contents).length < 2 ^ 31

/-! ### Ranks -/

/-- A setting counts before another one of its variable: options before files, then lower numbers
first, then the order of the paths. -/
def Config.Precedes (a b : Config) : Prop :=
  match a.source.file, b.source.file with
  | none, some _ => True
  | some _, none => False
  | none, none => a.source.line < b.source.line
  | some file, some file' =>
      a.source.line < b.source.line ∨ a.source.line = b.source.line ∧ file < file'

lemma Config.rank_lt_iff {a b : Config} (h : lowercase a.variableName = lowercase b.variableName) :
    a.rank < b.rank ↔ a.Precedes b := by
  rw [rank, rank, h, Prod.Lex.toLex_lt_toLex]
  simp only [lt_irrefl, true_and, false_or]
  rw [Prod.Lex.toLex_lt_toLex, Prod.Lex.toLex_lt_toLex, Precedes]
  cases a.source.file <;> cases b.source.file <;> simp

/-- The options are numbered. -/
def Numbered (options : List Config) : Prop :=
  options.Pairwise fun a b => a.source.line ≠ b.source.line

lemma Numbered.eq_of_line {options : List Config} (h : Numbered options) {a b : Config}
    (ha : a ∈ options) (hb : b ∈ options) (hline : a.source.line = b.source.line) : a = b := by
  have hsymm : Std.Symm fun a b : Config => a.source.line ≠ b.source.line :=
    ⟨fun _ _ hne => hne.symm⟩
  by_contra hne
  exact h.forall ha hb hne hline

/-- **The options of the command line are numbered.** -/
lemma numbered_parseCliConfigs {arguments : List (List Char)} {options : List Config}
    (h : parseCliConfigs arguments = .ok options) : Numbered options := by
  have hfrom : ∀ (n : ℕ) (options : List Config), ((arguments.zipIdx n).mapM fun argument =>
      parseConfigLine argument.1 none (argument.2 + 1)) = .ok options →
      (∀ option ∈ options, (n : ℤ) < option.source.line) ∧ Numbered options := by
    clear h options
    induction arguments with
    | nil =>
        rintro n options h
        cases h
        exact ⟨by simp, List.Pairwise.nil⟩
    | cons argument arguments ih =>
        intro n options h
        rw [List.zipIdx_cons, List.mapM_cons] at h
        cases hfirst : parseConfigLine argument none (n + 1) with
        | error e =>
            rw [hfirst] at h
            cases h
        | ok first =>
            rw [hfirst] at h
            cases hrest : ((arguments.zipIdx (n + 1)).mapM fun argument =>
                parseConfigLine argument.1 none (argument.2 + 1)) with
            | error e =>
                rw [hrest] at h
                cases h
            | ok rest =>
                rw [hrest] at h
                cases h
                obtain ⟨hlow, hpair⟩ := ih (n + 1) rest hrest
                have hline : first.source.line = n + 1 := by rw [parseConfigLine_source hfirst]
                refine ⟨List.forall_mem_cons.mpr ⟨by omega, fun option hmem => ?_⟩,
                  List.pairwise_cons.mpr ⟨fun option hmem => ?_, hpair⟩⟩
                · have hlt := hlow option hmem
                  omega
                · have hlt := hlow option hmem
                  omega
  exact (hfrom 0 options h).2

/-- An option that is meant for a host or the server, without the name of the host. -/
lemma selectOption_eq_some {host : Option String} {option config : Config}
    (h : selectOption host option = some config) :
    config.source = ⟨none, option.source.line⟩ ∧ config.value = option.value ∧
      match host with
      | some name => name.toList ++ '.' :: config.variableName = option.variableName
      | none => '.' ∉ option.variableName ∧ config.variableName = option.variableName := by
  obtain ⟨variableName, hname, rfl⟩ := Option.map_eq_some_iff.mp h
  refine ⟨rfl, rfl, ?_⟩
  cases host with
  | none =>
      simp only at hname
      split_ifs at hname with hdot
      cases hname
      exact ⟨hdot, rfl⟩
  | some name =>
      obtain ⟨rest, hrest, hstrip⟩ := Option.bind_eq_some_iff.mp hname
      rw [← List.isPrefixOf?_eq_some_iff_append_eq.mp hrest,
        ← List.isPrefixOf?_eq_some_iff_append_eq.mp hstrip]
      rfl

/-- **An option sets a variable** for one host, or for the server. -/
lemma host_eq_of_selectOption {host host' : Option String} {option config config' : Config}
    (h : selectOption host option = some config) (h' : selectOption host' option = some config')
    (hname : lowercase config.variableName = lowercase config'.variableName) : host = host' := by
  have hvar := (selectOption_eq_some h).2.2
  have hvar' := (selectOption_eq_some h').2.2
  have hlength : config.variableName.length = config'.variableName.length := by
    have := congrArg List.length hname
    simpa [lowercase] using this
  cases host with
  | none =>
      cases host' with
      | none => rfl
      | some name' =>
          -- the option has a dot before the name of its variable
          refine absurd ?_ hvar.1
          rw [← hvar']
          simp
  | some name =>
      cases host' with
      | none =>
          refine absurd ?_ hvar'.1
          rw [← hvar]
          simp
      | some name' =>
          have hboth := List.append_inj' (hvar.trans hvar'.symm) (by simp [hlength])
          exact congrArg some (String.toList_inj.mp hboth.1)

/-- Paths start differently, or one is shorter, or the names in them differ. -/
lemma ConfigPath.relative_inj {path path' : ConfigPath} (h : path.relative = path'.relative) :
    path = path' := by
  have hhead := congrArg List.head? h
  have hslash := congrArg (fun text => text[5]?) h
  cases path <;> cases path'
  case tincConf.tincConf => rfl
  case hostsDir.hostsDir => rfl
  case confD.confD name name' =>
    exact congrArg confD (String.toList_inj.mp (List.append_cancel_left h))
  case host.host name name' =>
    exact congrArg host (String.toList_inj.mp (List.append_cancel_left h))
  case hostsDir.host name => cases hslash
  case host.hostsDir name => cases hslash
  all_goals cases hhead

lemma Confbase.display_inj (confbase : Confbase) {path path' : ConfigPath}
    (h : confbase.display path = confbase.display path') : path = path' := by
  have hrelative : path.relative = path'.relative := by
    simp only [display, joinPath] at h
    split_ifs at h
    · exact List.append_cancel_left h
    · exact (List.cons.inj (List.append_cancel_left h)).2
  exact ConfigPath.relative_inj hrelative

variable {confbase : Confbase} {options : List Config} {hosts : List (Option String)}
  {paths : List ConfigPath} {config config' : Config}

/-- Settings of one rank that options give belong to one host. -/
lemma Given.mem_hosts_of_rank (hoptions : Numbered options) {host : Option String}
    {option : Config} (hoption : option ∈ options)
    (hselect : selectOption host option = some config)
    (h : Given confbase options hosts paths config') (hrank : config.rank = config'.rank) :
    host ∈ hosts := by
  simp only [Config.rank, toLex_inj, Prod.mk.injEq] at hrank
  obtain ⟨hname, hfile, hline, -⟩ := hrank
  have hsource := (selectOption_eq_some hselect).1
  rcases h with ⟨host', hhost', option', hoption', hselect'⟩ |
    ⟨path, -, contents, i, line, -, -, hparse⟩
  · rw [hsource, (selectOption_eq_some hselect').1] at hline
    obtain rfl := hoptions.eq_of_line hoption hoption' hline
    rwa [host_eq_of_selectOption hselect hselect' hname]
  · rw [hsource, parseConfigLine_source hparse] at hfile
    cases hfile

/-- Settings of one rank that files give stand in one file. -/
lemma Given.mem_paths_of_rank {path : ConfigPath} (hgives : FileGives confbase path config)
    (h : Given confbase options hosts paths config') (hrank : config.rank = config'.rank) :
    path ∈ paths := by
  simp only [Config.rank, toLex_inj, Prod.mk.injEq] at hrank
  obtain ⟨-, hfile, -, hpath⟩ := hrank
  obtain ⟨contents, i, line, -, -, hparse⟩ := hgives
  have hsource := parseConfigLine_source hparse
  rcases h with ⟨host, -, option, -, hselect⟩ |
    ⟨path', hpath', contents', i', line', -, -, hparse'⟩
  · rw [hsource, (selectOption_eq_some hselect).1] at hfile
    cases hfile
  · rw [hsource, parseConfigLine_source hparse'] at hpath
    rwa [confbase.display_inj hpath]

lemma rank_ne_of_line (h : config.source.line ≠ config'.source.line) :
    config.rank ≠ config'.rank := by
  intro hrank
  simp only [Config.rank, toLex_inj, Prod.mk.injEq] at hrank
  exact h hrank.2.2.1

/-! ### What a tree holds -/

/-- The tree holds exactly what is given, and no two settings of a variable count the same. -/
def ConfigTree.Reads (tree : ConfigTree) (confbase : Confbase) (options : List Config)
    (hosts : List (Option String)) (paths : List ConfigPath) : Prop :=
  ∃ added, tree.Holds added ∧ (added.map Config.rank).Nodup ∧
    ∀ config, config ∈ added ↔ Given confbase options hosts paths config

namespace ConfigTree.Reads

variable {tree : ConfigTree}

lemma new : ConfigTree.new.Reads confbase options [] [] :=
  ⟨[], Holds.new, List.nodup_nil, by simp [Given]⟩

/-- More settings are read, whose ranks are new. -/
lemma foldl_add {hosts' : List (Option String)} {paths' : List ConfigPath}
    (h : tree.Reads confbase options hosts paths) {configs : List Config}
    (hpair : configs.Pairwise fun a b => a.rank ≠ b.rank)
    (hnew : ∀ config ∈ configs, ∀ config', Given confbase options hosts paths config' →
      config.rank ≠ config'.rank)
    (hgiven : ∀ config, Given confbase options hosts paths config ∨ config ∈ configs ↔
      Given confbase options hosts' paths' config) :
    (configs.foldl ConfigTree.add tree).Reads confbase options hosts' paths' := by
  obtain ⟨added, hholds, hnodup, hmem⟩ := h
  refine ⟨_, hholds.foldl_add configs, ?_, fun config => ?_⟩
  · rw [List.map_append, List.nodup_append]
    refine ⟨hnodup, List.pairwise_map.mpr hpair, ?_⟩
    rintro _ hold _ hnew' heq
    obtain ⟨config', hconfig', rfl⟩ := List.mem_map.mp hold
    obtain ⟨config, hconfig, rfl⟩ := List.mem_map.mp hnew'
    exact hnew config hconfig config' ((hmem config').mp hconfig') heq.symm
  · rw [List.mem_append, hmem, hgiven]

/-- The options for one more host have been read. -/
lemma applyCommandLineOptions (hoptions : Numbered options)
    (h : tree.Reads confbase options hosts paths) {host : Option String} (hhost : host ∉ hosts) :
    (tree.applyCommandLineOptions options host).Reads confbase options (hosts ++ [host]) paths := by
  refine h.foldl_add ?_ (fun config hconfig config' hgiven hrank => ?_) fun config => ?_
  · refine List.pairwise_reverse.mpr (hoptions.filterMap _ ?_)
    intro option option' hline config hselect config' hselect'
    refine (rank_ne_of_line ?_).symm
    rwa [(selectOption_eq_some hselect).1, (selectOption_eq_some hselect').1]
  · obtain ⟨option, hoption, hselect⟩ := List.mem_filterMap.mp (List.mem_reverse.mp hconfig)
    exact hhost (hgiven.mem_hosts_of_rank hoptions hoption hselect hrank)
  · rw [List.mem_reverse, List.mem_filterMap, Given, Given, or_right_comm]
    refine or_congr_left ?_
    simp only [List.mem_append, List.mem_singleton, or_and_right, exists_or, exists_eq_left]

/-- One more file has been read. -/
lemma extendFromPath (hshort : confbase.Short) (h : tree.Reads confbase options hosts paths)
    {path : ConfigPath} (hpath : path ∉ paths) {tree' : ConfigTree}
    (hok : tree.extendFromPath confbase path = .ok tree') :
    tree'.Reads confbase options hosts (paths ++ [path]) := by
  rw [ConfigTree.extendFromPath] at hok
  cases hread : confbase.read path with
  | none =>
      rw [hread] at hok
      cases hok
  | some contents =>
      rw [hread] at hok
      cases hparse : parseConfigFile contents (confbase.display path) with
      | error e =>
          simp only [extendFromFile, hparse] at hok
          cases hok
      | ok configs =>
          simp only [extendFromFile, hparse] at hok
          cases hok
          have hfile : ∀ config, config ∈ configs ↔ FileGives confbase path config := by
            intro config
            rw [mem_parseConfigFile hparse, FileGives, hread]
            simp only [Option.some_inj, exists_and_left, exists_eq_left']
          refine h.foldl_add ?_ (fun config hconfig config' hgiven hrank => ?_) fun config => ?_
          · exact (pairwise_parseConfigFile hparse (hshort path contents hread)).imp
              fun hlt => rank_ne_of_line hlt.ne
          · exact hpath (hgiven.mem_paths_of_rank ((hfile config).mp hconfig) hrank)
          · rw [hfile, Given, Given, or_assoc]
            refine or_congr_right ?_
            simp only [List.mem_append, List.mem_singleton, or_and_right, exists_or, exists_eq_left]

/-- Some more files have been read. -/
lemma foldlM (hshort : confbase.Short) {names : List String} {path : String → ConfigPath}
    (h : tree.Reads confbase options hosts paths) (hpaths : (paths ++ names.map path).Nodup)
    {tree' : ConfigTree}
    (hok : names.foldlM (fun tree name => tree.extendFromPath confbase (path name)) tree =
      .ok tree') :
    tree'.Reads confbase options hosts (paths ++ names.map path) := by
  induction names generalizing tree paths with
  | nil =>
      cases hok
      rwa [List.map_nil, List.append_nil]
  | cons name names ih =>
      rw [List.foldlM_cons] at hok
      cases hname : tree.extendFromPath confbase (path name) with
      | error e =>
          rw [hname] at hok
          cases hok
      | ok next =>
          rw [hname] at hok
          rw [List.map_cons, List.append_cons] at hpaths ⊢
          have hfresh := (List.nodup_append.mp hpaths).1
          refine ih (h.extendFromPath hshort ?_ hname) hpaths hok
          intro hmem
          exact (List.nodup_append.mp hfresh).2.2 _ hmem _ (List.mem_singleton_self _) rfl

end ConfigTree.Reads

/-- The files of the server. -/
def Confbase.serverPaths (confbase : Confbase) : List ConfigPath :=
  .tincConf ::
    ((confbase.confD.map OrdMap.keys).getD [] |>.filter hasConfExtension).map .confD

lemma Confbase.nodup_serverPaths (confbase : Confbase) : confbase.serverPaths.Nodup := by
  have hinj : Function.Injective ConfigPath.confD := fun _ _ h => ConfigPath.confD.inj h
  refine List.nodup_cons.mpr ⟨by simp, (List.Nodup.filter _ ?_).map hinj⟩
  cases confbase.confD with
  | none => exact List.nodup_nil
  | some files => exact files.nodup_keys

lemma Confbase.host_not_mem_serverPaths (confbase : Confbase) (name : String) :
    .host name ∉ confbase.serverPaths := by
  simp [serverPaths]

section Loading

variable (hshort : confbase.Short) (hoptions : Numbered options)
include hshort hoptions

/-- The tree of the server holds its options and its files. -/
lemma ConfigTree.Reads.readServerConfig {tree : ConfigTree}
    (hok : ConfigTree.new.readServerConfig confbase options = .ok tree) :
    tree.Reads confbase options [none] confbase.serverPaths := by
  rw [ConfigTree.readServerConfig] at hok
  have hnew : ConfigTree.new.Reads confbase options [] [] := ConfigTree.Reads.new
  have hhost : (none : Option String) ∉ ([] : List (Option String)) := List.not_mem_nil
  have hstart := hnew.applyCommandLineOptions hoptions hhost
  cases hconf : (ConfigTree.new.applyCommandLineOptions options none).extendFromPath confbase
      .tincConf with
  | error e =>
      rw [hconf] at hok
      cases hok
  | ok next =>
      rw [hconf] at hok
      have hnext := hstart.extendFromPath hshort List.not_mem_nil hconf
      change next.extendFromConfDir confbase = .ok tree at hok
      rw [ConfigTree.extendFromConfDir] at hok
      have hpaths := confbase.nodup_serverPaths
      rw [Confbase.serverPaths] at hpaths ⊢
      cases hdir : confbase.confD with
      | none =>
          rw [hdir] at hok
          cases hok
          exact hnext
      | some files =>
          rw [hdir] at hok hpaths
          exact hnext.foldlM hshort hpaths hok

lemma ConfigTree.Reads.readHostConfig {tree tree' : ConfigTree} {name : String}
    (h : tree.Reads confbase options hosts paths) (hhost : some name ∉ hosts)
    (hpath : .host name ∉ paths)
    (hok : tree.readHostConfig confbase name options = .ok tree') :
    tree'.Reads confbase options (hosts ++ [some name]) (paths ++ [.host name]) :=
  (h.applyCommandLineOptions hoptions hhost).extendFromPath hshort hpath hok

/-- The trees of the hosts are read one by one. -/
lemma readHosts_spec {names : List String} {hosts : List (String × ConfigTree)}
    (h : (names.mapM fun name => do
      let tree ← ConfigTree.new.readHostConfig confbase name options
      return (name, tree) : Except ConfigLoadError _) = .ok hosts) :
    hosts.map Prod.fst = names ∧ ∀ host ∈ hosts,
      host.2.Reads confbase options [some host.1] [.host host.1] := by
  induction names generalizing hosts with
  | nil =>
      cases h
      exact ⟨rfl, by simp⟩
  | cons name names ih =>
      rw [List.mapM_cons] at h
      cases hname : ConfigTree.new.readHostConfig confbase name options with
      | error e =>
          rw [hname] at h
          cases h
      | ok tree =>
          rw [hname] at h
          cases hrest : (names.mapM fun name => do
              let tree ← ConfigTree.new.readHostConfig confbase name options
              return (name, tree) : Except ConfigLoadError _) with
          | error e =>
              rw [hrest] at h
              cases h
          | ok rest =>
              rw [hrest] at h
              cases h
              obtain ⟨hnames, hreads⟩ := ih hrest
              refine ⟨congrArg (name :: ·) hnames, List.forall_mem_cons.mpr ⟨?_, hreads⟩⟩
              exact ConfigTree.Reads.new.readHostConfig hshort hoptions List.not_mem_nil
                List.not_mem_nil hname

/-- The names of the files of the hosts directory that are names of hosts. -/
def Confbase.hostNames (confbase : Confbase) : List String :=
  ((confbase.hosts.map OrdMap.keys).getD []).filter checkId

/-- **What the daemon starts from**: its name is read from the files of the server, to which the
file of its own host is added, and every host has a tree of its own. -/
lemma loadServerTree_reads {name : String} {tree : ConfigTree}
    {hosts : List (String × ConfigTree)}
    (h : loadServerTree confbase options = .ok (name, tree, hosts)) :
    (∃ server : ConfigTree, server.Reads confbase options [none] confbase.serverPaths ∧
      (server.lookup "Name".toList).map (fun config => String.ofList config.value) = some name) ∧
    tree.Reads confbase options [none, some name] (confbase.serverPaths ++ [.host name]) ∧
    hosts.map Prod.fst = confbase.hostNames ∧
      ∀ host ∈ hosts, host.2.Reads confbase options [some host.1] [.host host.1] := by
  rw [loadServerTree] at h
  cases hserver : ConfigTree.new.readServerConfig confbase options with
  | error e =>
      rw [hserver] at h
      cases h
  | ok server =>
      rw [hserver] at h
      change (match server.lookup "Name".toList with
        | none => _
        | some name => _) = _ at h
      cases hname : server.lookup "Name".toList with
      | none =>
          rw [hname] at h
          cases h
      | some config =>
          rw [hname] at h
          cases htree : server.readHostConfig confbase (String.ofList config.value) options with
          | error e =>
              simp only [htree] at h
              cases h
          | ok next =>
              simp only [htree] at h
              cases hhosts : ConfigTree.readAllHostConfigs confbase options with
              | error e =>
                  rw [hhosts] at h
                  cases h
              | ok all =>
                  rw [hhosts] at h
                  cases h
                  have hreads := ConfigTree.Reads.readServerConfig hshort hoptions hserver
                  refine ⟨⟨server, hreads, by rw [hname]; rfl⟩, hreads.readHostConfig hshort
                    hoptions (by simp) (confbase.host_not_mem_serverPaths _) htree, ?_⟩
                  rw [ConfigTree.readAllHostConfigs] at hhosts
                  rw [Confbase.hostNames]
                  cases hdir : confbase.hosts with
                  | none =>
                      rw [hdir] at hhosts
                      cases hhosts
                  | some files =>
                      rw [hdir] at hhosts
                      exact readHosts_spec hshort hoptions hhosts

end Loading

/-! ### Which setting counts -/

/-- The setting is given for the variable, and it counts before all others that are. -/
def InEffect (confbase : Confbase) (options : List Config) (hosts : List (Option String))
    (paths : List ConfigPath) (variableName : List Char) (config : Config) : Prop :=
  Given confbase options hosts paths config ∧
    eqIgnoreAsciiCase config.variableName variableName ∧
    ∀ other, Given confbase options hosts paths other →
      eqIgnoreAsciiCase other.variableName variableName → other = config ∨ config.Precedes other

/-- The lookups of the tree: one finds the setting of a variable that is in effect, the other lists
all that are given for it, in the order in which they count. -/
def ConfigTree.Answers (tree : ConfigTree) (confbase : Confbase) (options : List Config)
    (hosts : List (Option String)) (paths : List ConfigPath) : Prop :=
  ∀ variableName,
    (∀ config, tree.lookup variableName = some config ↔
      InEffect confbase options hosts paths variableName config) ∧
    (tree.lookupAll variableName).Pairwise Config.Precedes ∧
    ∀ config, config ∈ tree.lookupAll variableName ↔
      Given confbase options hosts paths config ∧
        eqIgnoreAsciiCase config.variableName variableName

lemma eqIgnoreAsciiCase_iff {a b : List Char} :
    eqIgnoreAsciiCase a b = true ↔ lowercase a = lowercase b := decide_eq_true_iff

/-- **A tree answers with what it holds.** -/
lemma ConfigTree.Reads.answers {tree : ConfigTree} (h : tree.Reads confbase options hosts paths) :
    tree.Answers confbase options hosts paths := by
  obtain ⟨added, hholds, hnodup, hmem⟩ := h
  intro variableName
  have hall : ∀ config, config ∈ tree.lookupAll variableName ↔
      Given confbase options hosts paths config ∧
        eqIgnoreAsciiCase config.variableName variableName := by
    intro config
    rw [ConfigTree.lookupAll, List.mem_filter, hholds.perm.mem_iff, hmem]
  have hsame : ∀ {a b : Config}, eqIgnoreAsciiCase a.variableName variableName →
      eqIgnoreAsciiCase b.variableName variableName → (a.rank < b.rank ↔ a.Precedes b) := by
    intro a b ha hb
    rw [eqIgnoreAsciiCase_iff] at ha hb
    exact Config.rank_lt_iff (ha.trans hb.symm)
  have hpair : (tree.lookupAll variableName).Pairwise fun a b => a.rank < b.rank :=
    (hholds.pairwise_lt hnodup).filter _
  refine ⟨fun config => ?_, hpair.imp_of_mem fun {a b} ha hb hlt => ?_, hall⟩
  · rw [ConfigTree.lookup_eq_head, StableSort.head?_eq_some_iff hpair, hall, InEffect, and_assoc]
    refine and_congr_right fun _ => and_congr_right fun hname => ?_
    simp only [hall, and_imp]
    refine forall_congr' fun other => forall_congr' fun _ => forall_congr' fun hother => ?_
    rw [hsame hname hother]
  · exact (hsame ((hall a).mp ha).2 ((hall b).mp hb).2).mp hlt

/-- **The settings that the daemon starts from.** The name is in effect among the settings of the
server. A variable has the setting that counts before all others of it: an option of the command
line before any file, the lower of two line numbers, and of two files with the same line number
the one with the lesser path. Every host whose file is in the directory has a tree of its own, with
the settings of its file and of the options that name it. -/
theorem loadServerTree_settings {confbase : Confbase} {arguments : List (List Char)}
    {options : List Config} {name : String} {tree : ConfigTree}
    {hosts : List (String × ConfigTree)} (hshort : confbase.Short)
    (hoptions : parseCliConfigs arguments = .ok options)
    (hload : loadServerTree confbase options = .ok (name, tree, hosts)) :
    (∃ config, name = String.ofList config.value ∧
      InEffect confbase options [none] confbase.serverPaths "Name".toList config) ∧
    tree.Answers confbase options [none, some name] (confbase.serverPaths ++ [.host name]) ∧
    hosts.map Prod.fst = confbase.hostNames ∧
    ∀ host ∈ hosts, host.2.Answers confbase options [some host.1] [.host host.1] := by
  have hnumbered := numbered_parseCliConfigs hoptions
  obtain ⟨⟨server, hserver, hname⟩, htree, hnames, hhosts⟩ :=
    loadServerTree_reads hshort hnumbered hload
  refine ⟨?_, htree.answers, hnames, fun host hhost => (hhosts host hhost).answers⟩
  obtain ⟨config, hconfig, rfl⟩ := Option.map_eq_some_iff.mp hname
  exact ⟨config, rfl, ((hserver.answers _).1 config).mp hconfig⟩

/-- A server whose port stands in its own file, on an earlier line than in the file of the server,
and a peer. -/
def portConfbase : Confbase :=
  ⟨"/etc/tinc".toList, some "Name = alpha\nPort = 655\n".toList, none,
    some ((OrdMap.empty.insert "alpha" "Port = 656\n# behind a router\n".toList).insert "beta"
      "Port = 657\n".toList)⟩

/-- The command line sets another port for the peer. -/
def portOption : Config := ⟨"beta.port".toList, "700".toList, ⟨none, 1⟩⟩

/-- The files have few lines. -/
lemma portConfbase_short : portConfbase.Short := by
  intro path contents hread
  have hlines : (∀ text ∈ portConfbase.tincConf, (lines text).length < 2 ^ 31) ∧
      (lines "Port = 656\n# behind a router\n".toList).length < 2 ^ 31 ∧
      (lines "Port = 657\n".toList).length < 2 ^ 31 := by decide
  cases path with
  | tincConf => exact hlines.1 contents hread
  | confD name => cases hread
  | hostsDir => cases hread
  | host name =>
      change ((OrdMap.empty.insert "alpha" "Port = 656\n# behind a router\n".toList).insert "beta"
        "Port = 657\n".toList).get? name = some contents at hread
      rw [OrdMap.get?_insert, OrdMap.get?_insert] at hread
      split_ifs at hread
      · cases hread
        exact hlines.2.2
      · cases hread
        exact hlines.2.1
      · cases hread

/-- Two hosts, one of which has an option on the command line as well. -/
theorem loadServerTree_settings_port : ∃ tree hosts,
    loadServerTree portConfbase [portOption] = .ok ("alpha", tree, hosts) ∧
    InEffect portConfbase [portOption] [none, some "alpha"]
      (portConfbase.serverPaths ++ [.host "alpha"]) "port".toList
      ⟨"Port".toList, "656".toList, ⟨some "/etc/tinc/hosts/alpha".toList, 1⟩⟩ ∧
    hosts.map Prod.fst = ["alpha", "beta"] ∧
    ∃ beta ∈ hosts, beta.1 = "beta" ∧ beta.2.lookupAll "Port".toList =
      [⟨"port".toList, "700".toList, ⟨none, 1⟩⟩,
        ⟨"Port".toList, "657".toList, ⟨some "/etc/tinc/hosts/beta".toList, 1⟩⟩] ∧
      (beta.2.lookupAll "Port".toList).Pairwise Config.Precedes := by
  have hrun : (loadServerTree portConfbase [portOption]).toOption.map
      (fun r => (r.1, r.2.1.lookup "port".toList,
        r.2.2.map fun host => (host.1, host.2.lookupAll "Port".toList))) = some ("alpha",
        some ⟨"Port".toList, "656".toList, ⟨some "/etc/tinc/hosts/alpha".toList, 1⟩⟩,
        [("alpha", [⟨"Port".toList, "656".toList, ⟨some "/etc/tinc/hosts/alpha".toList, 1⟩⟩]),
          ("beta", [⟨"port".toList, "700".toList, ⟨none, 1⟩⟩,
            ⟨"Port".toList, "657".toList, ⟨some "/etc/tinc/hosts/beta".toList, 1⟩⟩])]) := by
    decide +kernel
  cases hload : loadServerTree portConfbase [portOption] with
  | error e =>
      rw [hload] at hrun
      cases hrun
  | ok result =>
      obtain ⟨name, tree, hosts⟩ := result
      rw [hload] at hrun
      obtain ⟨rfl, hrun⟩ := Prod.mk.inj (Option.some_inj.mp hrun)
      obtain ⟨hlookup, hall⟩ := Prod.mk.inj hrun
      have hoptions : parseCliConfigs ["beta.port = 700".toList] = .ok [portOption] := by
        decide +kernel
      obtain ⟨-, htree, hnames, hhosts⟩ :=
        loadServerTree_settings portConfbase_short hoptions hload
      have hbeta : ("beta", [⟨"port".toList, "700".toList, ⟨none, 1⟩⟩,
          (⟨"Port".toList, "657".toList, ⟨some "/etc/tinc/hosts/beta".toList, 1⟩⟩ : Config)]) ∈
          hosts.map fun host => (host.1, host.2.lookupAll "Port".toList) := by
        rw [hall]
        exact List.mem_cons_of_mem _ List.mem_cons_self
      obtain ⟨beta, hmem, heq⟩ := List.mem_map.mp hbeta
      obtain ⟨hname, hlist⟩ := Prod.mk.inj heq
      refine ⟨tree, hosts, rfl, ((htree "port".toList).1 _).mp hlookup, ?_, beta, hmem, hname,
        hlist, (hhosts beta hmem "Port".toList).2.1⟩
      rw [hnames]
      decide +kernel

end RustyTinc

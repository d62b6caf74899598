import RustyTinc.Core.Route
import RustyTinc.Core.SubnetText
import RustyTinc.Daemon.ServerConfig

/-!
The commands that read and change the settings of a configuration directory.

* `parseConfigEdit`: what a command asks for;
* `prepareConfigEdit`: the file that it is about, and what is refused;
* `editConfigFile`: the file read, or written anew;
* `Confbase.perform`: one command on a directory.
-/

namespace RustyTinc

open Text

/-! ### Variables -/

/-- A variable of the configuration, and where it may stand. -/
structure VariableSpec where
  name : List Char
  flags : UInt8
deriving DecidableEq

/-- The variable stands in `tinc.conf`. -/
def varServer : UInt8 := 0x01
/-- The variable stands in host files. -/
def varHost : UInt8 := 0x02
/-- The variable may be set several times. -/
def varMultiple : UInt8 := 0x04
/-- The variable has no effect any more. -/
def varObsolete : UInt8 := 0x08
/-- The variable may be set by an invitation. -/
def varSafe : UInt8 := 0x10

namespace VariableSpec

/-- The variable stands in `tinc.conf`. -/
def isServer (spec : VariableSpec) : Bool := spec.flags &&& varServer != 0

/-- The variable stands in host files. -/
def isHost (spec : VariableSpec) : Bool := spec.flags &&& varHost != 0

/-- The variable may be set several times. -/
def isMultiple (spec : VariableSpec) : Bool := spec.flags &&& varMultiple != 0

/-- The variable has no effect any more. -/
def isObsolete (spec : VariableSpec) : Bool := spec.flags &&& varObsolete != 0

end VariableSpec

/-- `VARIABLES` -/
def variableSpecs : List VariableSpec :=
  ([
    ("AddressFamily", varServer ||| varSafe),
    ("AutoConnect", varServer ||| varSafe),
    ("BindToAddress", varServer ||| varMultiple),
    ("BindToInterface", varServer),
    ("Broadcast", varServer ||| varSafe),
    ("BroadcastSubnet", varServer ||| varMultiple ||| varSafe),
    ("ConnectTo", varServer ||| varMultiple ||| varSafe),
    ("DecrementTTL", varServer ||| varSafe),
    ("Device", varServer),
    ("DeviceStandby", varServer),
    ("DeviceType", varServer),
    ("DirectOnly", varServer ||| varSafe),
    ("Ed25519PrivateKeyFile", varServer),
    ("ExperimentalProtocol", varServer),
    ("Forwarding", varServer),
    ("FWMark", varServer),
    ("GraphDumpFile", varServer ||| varObsolete),
    ("Hostnames", varServer),
    ("IffOneQueue", varServer),
    ("Interface", varServer),
    ("InvitationExpire", varServer),
    ("KeyExpire", varServer ||| varSafe),
    ("ListenAddress", varServer ||| varMultiple),
    ("LocalDiscovery", varServer ||| varSafe),
    ("LogLevel", varServer),
    ("MACExpire", varServer ||| varSafe),
    ("MaxConnectionBurst", varServer ||| varSafe),
    ("MaxOutputBufferSize", varServer ||| varSafe),
    ("MaxTimeout", varServer ||| varSafe),
    ("Mode", varServer ||| varSafe),
    ("Name", varServer),
    ("PingInterval", varServer ||| varSafe),
    ("PingTimeout", varServer ||| varSafe),
    ("PriorityInheritance", varServer),
    ("PrivateKey", varServer ||| varObsolete),
    ("PrivateKeyFile", varServer),
    ("ProcessPriority", varServer),
    ("Proxy", varServer),
    ("ReplayWindow", varServer ||| varSafe),
    ("Sandbox", varServer),
    ("ScriptsExtension", varServer),
    ("ScriptsInterpreter", varServer),
    ("StrictSubnets", varServer ||| varSafe),
    ("TunnelServer", varServer ||| varSafe),
    ("UDPDiscovery", varServer ||| varSafe),
    ("UDPDiscoveryKeepaliveInterval", varServer ||| varSafe),
    ("UDPDiscoveryInterval", varServer ||| varSafe),
    ("UDPDiscoveryTimeout", varServer ||| varSafe),
    ("MTUInfoInterval", varServer ||| varSafe),
    ("UDPInfoInterval", varServer ||| varSafe),
    ("UDPRcvBuf", varServer),
    ("UDPSndBuf", varServer),
    ("UPnP", varServer),
    ("UPnPDiscoverWait", varServer),
    ("UPnPRefreshPeriod", varServer),
    ("VDEGroup", varServer),
    ("VDEPort", varServer),
    ("Address", varHost ||| varMultiple),
    ("Cipher", varServer ||| varHost),
    ("ClampMSS", varServer ||| varHost ||| varSafe),
    ("Compression", varServer ||| varHost ||| varSafe),
    ("Digest", varServer ||| varHost),
    ("Ed25519PublicKey", varHost),
    ("Ed25519PublicKeyFile", varServer ||| varHost),
    ("IndirectData", varServer ||| varHost ||| varSafe),
    ("MACLength", varServer ||| varHost),
    ("PMTU", varServer ||| varHost),
    ("PMTUDiscovery", varServer ||| varHost),
    ("Port", varHost),
    ("PublicKey", varHost ||| varObsolete),
    ("PublicKeyFile", varServer ||| varHost ||| varObsolete),
    ("Subnet", varHost ||| varMultiple ||| varSafe),
    ("TCPOnly", varServer ||| varHost ||| varSafe),
    ("Weight", varHost ||| varSafe)
  ] : List (String × UInt8)).map fun spec => ⟨spec.1.toList, spec.2⟩

/-- The variable of a name, whatever the case of its letters. -/
def lookupVariable (variableName : List Char) : Option VariableSpec :=
  variableSpecs.find? fun candidate => eqIgnoreAsciiCase candidate.name variableName

/-! ### Subnets -/

/-- All bits after the mask are zero. -/
def maskCheck (bytes : List UInt8) (maskLen : ℕ) : Bool :=
  let index := maskLen / 8
  let partialBits := maskLen % 8
  if partialBits ≠ 0 then
    (bytes[index]?.getD 0 &&& ~~~partialMask partialBits) == 0 &&
      (bytes.drop (index + 1)).all (· == 0)
  else (bytes.drop index).all (· == 0)

/-- No bit of the address is set behind the prefix. -/
def Subnet.hasCanonicalMask (s : Subnet) : Bool :=
  match s.kind with
  | .mac _ => true
  | .ipv4 address prefixLen => maskCheck address.toList prefixLen.toNat
  | .ipv6 address prefixLen => maskCheck address.toList prefixLen.toNat

/-! ### Commands -/

/-- Why a command is refused. -/
inductive TincError where
  | invalidArguments (text : String)
  | unknownVariable (variableName : List Char)
  | obsoleteVariable (variableName : List Char)
  | serverVariableInHostFile (variableName : List Char)
  | missingValue (variableName : List Char)
  | malformedSubnet (value : List Char)
  | nonCanonicalSubnet (value : List Char)
  | invalidNodeName (name : String)
  | missingLocalName
  | noMatchingConfigurationVariables
  | noConfigurationVariablesDeleted
  | noHostConfigurationsImported
  | configurationExists (path : ConfigPath)
  | io (path : ConfigPath)
deriving DecidableEq

/-- What a command does with a variable. -/
inductive ConfigAction where
  | get
  | delete
  | set
  | add
deriving DecidableEq

/-- A command, as it was parsed. -/
structure ConfigEdit where
  action : ConfigAction
  node : Option String
  variableName : List Char
  value : Option (List Char)
deriving DecidableEq

/-- What a command does with a variable. -/
def configActionFromCommand (command : List Char) : Option ConfigAction :=
  let command := lowercase command
  if command = "get".toList then some .get
  else if command = "del".toList then some .delete
  else if command = "set".toList ∨ command = "replace".toList ∨ command = "change".toList then
    some .set
  else if command = "add".toList then some .add
  else none

/-- The variable of a command, with its node, and the value. -/
def parseConfigSelectorAndValue (line : List Char) : Except TincError (List Char × List Char) :=
  let (selector, rest) := splitSetting (line.dropWhile isBlank)
  if selector = [] then .error (.invalidArguments "no variable given") else .ok (selector, rest)

/-- The action, and how many arguments name it. -/
def configAction (command : List Char) (args : List (List Char)) :
    Except TincError (ConfigAction × ℕ) :=
  let action := (configActionFromCommand command).getD .get
  if eqIgnoreAsciiCase command "config".toList then
    match args with
    | [] => .error (.invalidArguments "invalid number of arguments")
    | first :: _ =>
        match configActionFromCommand first with
        | some parsed => .ok (parsed, 1)
        | none => .ok (action, 0)
  else .ok (action, 0)

/-- The host that is named before the first dot, and the variable. -/
def splitSelector (selector : List Char) : Option String × List Char :=
  match splitOnce '.' selector with
  | some (node, variableName) => (some (String.ofList node), variableName)
  | none => (none, selector)

/-- The edit, unless its variable or its value is missing. -/
def checkedEdit (action : ConfigAction) (node : Option String) (variableName value : List Char) :
    Except TincError ConfigEdit :=
  if variableName = [] then .error (.invalidArguments "no variable given")
  else if (action = .set ∨ action = .add) ∧ value = [] then .error (.missingValue variableName)
  else if value = [] then .ok ⟨action, node, variableName, none⟩
  else .ok ⟨if action = .get then .set else action, node, variableName, some value⟩

/-- What a command line asks for. -/
def parseConfigEdit (command : List Char) (args : List (List Char)) :
    Except TincError ConfigEdit :=
  match configAction command args with
  | .error e => .error e
  | .ok (action, start) =>
      if args.length ≤ start then .error (.invalidArguments "invalid number of arguments")
      else
        match parseConfigSelectorAndValue (unwords (args.drop start)) with
        | .error e => .error e
        | .ok (selector, value) =>
            checkedEdit action (splitSelector selector).1 (splitSelector selector).2 value

/-! ### Files -/

/-- The name at the start of a line and its value, without what surrounds them. -/
def parseConfigFileLine (line : List Char) : List Char × List Char :=
  let (variableName, value) := splitSetting (line.dropWhile isBlank)
  (variableName, value.rdropWhile fun c => isBlank c || c = '\r')

/-- A command with the file that it edits. -/
structure PreparedConfigEdit where
  path : ConfigPath
  action : ConfigAction
  variableName : List Char
  value : Option (List Char)
deriving DecidableEq

/-- A value that is a subnet. -/
def validateSubnet (value : List Char) : Except TincError Unit :=
  match parseSubnet value with
  | .error _ => .error (.malformedSubnet value)
  | .ok s => if s.hasCanonicalMask then .ok () else .error (.nonCanonicalSubnet value)

/-- The name of this node, as `tinc.conf` gives it. -/
def readLocalName (confbase : Confbase) : Except TincError String :=
  match confbase.read .tincConf with
  | none => .error (.io .tincConf)
  | some contents =>
      match ((lines contents).map parseConfigFileLine).find? fun setting =>
        eqIgnoreAsciiCase setting.1 "Name".toList && setting.2 ≠ [] with
      | some setting => .ok (String.ofList setting.2)
      | none => .error .missingLocalName

/-- What is refused about a variable that is known. -/
def checkVariable (edit : ConfigEdit) (spec : VariableSpec) (force : Bool) :
    Except TincError Unit :=
  let subnet := if eqIgnoreAsciiCase spec.name "Subnet".toList then
    edit.value.elim (.ok ()) validateSubnet else .ok ()
  match subnet with
  | .error e => .error e
  | .ok () =>
      if (edit.action = .set ∨ edit.action = .add) ∧ spec.isObsolete ∧ ¬force then
        .error (.obsoleteVariable spec.name)
      else if edit.node.isSome ∧ (edit.action = .set ∨ edit.action = .add) ∧ ¬spec.isHost ∧
          ¬force then
        .error (.serverVariableInHostFile spec.name)
      else .ok ()

/-- The host that the edit is about: the own one, when the variable is not one of the server. -/
def editNode (edit : ConfigEdit) (spec : VariableSpec) (localName : Except TincError String) :
    Except TincError (Option String) :=
  if edit.node = none ∧ ¬spec.isServer then localName.map some else .ok edit.node

/-- The edit with the variable as it is spelled, and the host that it is about; the directory is
read for the name of its own host only. -/
def resolveConfigEdit (edit : ConfigEdit) (localName : Except TincError String) (force : Bool) :
    Except TincError ConfigEdit :=
  match lookupVariable edit.variableName with
  | some spec =>
      match checkVariable edit spec force with
      | .error e => .error e
      | .ok () =>
          (editNode edit spec localName).map fun node =>
            ⟨if edit.action = .add ∧ ¬spec.isMultiple then .set else edit.action, node, spec.name,
              edit.value⟩
  | none =>
      if ¬force ∧ (edit.action = .set ∨ edit.action = .add) then
        .error (.unknownVariable edit.variableName)
      else .ok edit

/-- The file that a command edits, when it may edit it. -/
def prepareConfigEdit (edit : ConfigEdit) (localName : Except TincError String) (force : Bool) :
    Except TincError PreparedConfigEdit :=
  match resolveConfigEdit edit localName force with
  | .error e => .error e
  | .ok edit =>
      match edit.node with
      | some node =>
          if checkId node then .ok ⟨.host node, edit.action, edit.variableName, edit.value⟩
          else .error (.invalidNodeName node)
      | none => .ok ⟨.tincConf, edit.action, edit.variableName, edit.value⟩

/-- A file with new contents. -/
def Confbase.write (confbase : Confbase) (path : ConfigPath) (contents : List Char) : Confbase :=
  match path with
  | .tincConf => { confbase with tincConf := some contents }
  | .confD name => { confbase with confD := confbase.confD.map (·.insert name contents) }
  | .hostsDir => confbase
  | .host name => { confbase with hosts := confbase.hosts.map (·.insert name contents) }

/-- A setting as it is written. -/
def formatSetting (variableName value : List Char) : List Char :=
  variableName ++ ' ' :: '=' :: ' ' :: value

/-- The state of the loop over the lines of a file. -/
structure ConfigRewrite where
  rewritten : List Char := []
  set : Bool := false
  foundDuplicate : Bool := false
  removed : Bool := false

/-- A piece without its line feed, and without one carriage return. -/
def rawLine (piece : List Char) : List Char :=
  stripCarriageReturn (if piece.getLast? = some '\n' then piece.dropLast else piece)

/-- The line is kept, and ends with a line feed. -/
def ConfigRewrite.keep (state : ConfigRewrite) (piece : List Char) : ConfigRewrite :=
  { state with
    rewritten := state.rewritten ++ rawLine piece ++
      if piece.getLast? = some '\n' ∨ rawLine piece ≠ [] then ['\n'] else [] }

/-- One line of the file that is written anew. -/
def ConfigRewrite.line (edit : PreparedConfigEdit) (state : ConfigRewrite) (piece : List Char) :
    Except TincError ConfigRewrite :=
  let (variableName, existingValue) := parseConfigFileLine (rawLine piece)
  if eqIgnoreAsciiCase variableName edit.variableName then
    match edit.action, edit.value with
    | .delete, value =>
        if value.all (eqIgnoreAsciiCase existingValue) then .ok { state with removed := true }
        else .ok (state.keep piece)
    | .set, some value =>
        if state.set then .ok state
        else .ok { state with
          rewritten := state.rewritten ++ formatSetting edit.variableName value ++ ['\n']
          set := true }
    | .add, some value =>
        if eqIgnoreAsciiCase existingValue value then
          .ok { state.keep piece with foundDuplicate := true }
        else .ok (state.keep piece)
    | .set, none => .error (.missingValue edit.variableName)
    | .add, none => .error (.missingValue edit.variableName)
    | .get, _ => .ok (state.keep piece)
  else .ok (state.keep piece)

/-- The text after the loop: a setting that is still missing is put at the end. -/
def ConfigRewrite.finish (edit : PreparedConfigEdit) (state : ConfigRewrite) :
    Except TincError (List Char) :=
  if edit.action = .add ∧ ¬state.foundDuplicate ∨ edit.action = .set ∧ ¬state.set then
    match edit.value with
    | some value =>
        .ok (state.rewritten ++ formatSetting edit.variableName value ++ ['\n'])
    | none => .error (.missingValue edit.variableName)
  else if edit.action = .delete ∧ ¬state.removed then .error .noConfigurationVariablesDeleted
  else .ok state.rewritten

/-- The values of a variable, one on each line. -/
def getConfigValues (variableName contents : List Char) : List Char :=
  unlines ((((lines contents).map parseConfigFileLine).filter fun setting =>
    eqIgnoreAsciiCase setting.1 variableName).map Prod.snd)

/-- The file after a command, and what the command prints. -/
def editConfigFile (confbase : Confbase) (edit : PreparedConfigEdit) :
    Except TincError (List Char × Confbase) :=
  match confbase.read edit.path with
  | none => .error (.io edit.path)
  | some contents =>
      if edit.action = .get then
        let output := getConfigValues edit.variableName contents
        if output = [] then .error .noMatchingConfigurationVariables else .ok (output, confbase)
      else do
        let state ← (splitInclusive contents).foldlM (ConfigRewrite.line edit) {}
        let rewritten ← state.finish edit
        return ([], confbase.write edit.path rewritten)

/-- A command of `tinc`, as it was typed. -/
structure ConfigCommand where
  name : List Char
  arguments : List (List Char)
  force : Bool

/-- A command, from its words to the files. -/
def runConfigCommand (confbase : Confbase) (command : ConfigCommand) :
    Except TincError (List Char × Confbase) := do
  let edit ← parseConfigEdit command.name command.arguments
  let prepared ← prepareConfigEdit edit (readLocalName confbase) command.force
  editConfigFile confbase prepared

/-- What a command prints, and the directory that it leaves behind. -/
def Confbase.perform (confbase : Confbase) (command : ConfigCommand) :
    Except TincError (List Char) × Confbase :=
  match runConfigCommand confbase command with
  | .ok (output, confbase) => (.ok output, confbase)
  | .error e => (.error e, confbase)

end RustyTinc

import SearchTable.Command.Folder
import SearchTable.Command.Help
import SearchTable.Condition.Basic
import SearchTable.Expression.Form
import SearchTable.Options.File
import SearchTable.Schema.Json
import SearchTable.Schema.Text
/-!
# Running a command line

What a run prints, reports and logs, as a function of the command line and its surroundings.  Lines
that were printed before a failure stay printed.
-/

namespace SearchTable.Command

/-- What a run can see of its surroundings. -/
structure Surroundings where
  /-- The path of an options file that the environment names. -/
  configVariable : Option String
  /-- The directory of the run, as it is shown. -/
  directory : String
  /-- What is found at a path, seen from the directory of the run, once the run has opened its
  log. -/
  look : String → Found

/-- What a run leaves behind. -/
structure Outcome where
  code : Nat
  output : String
  diagnostics : String
  /-- The lines of the log, if there is one. -/
  log : Option (List String)
  deriving DecidableEq, Repr

/-- The name and version of the program. -/
def versionText : String := "solrstore 0.1.0"

/-- Text that a step of a run prints, and how the step ends: with what it reports, or a failure. -/
structure Printed where
  output : String
  result : Except StoreError String

namespace Printed

/-- A step that prints one line. -/
def line (text : String) : Printed := ⟨text ++ "\n", .ok ""⟩

/-- A line, when there is a text for it. -/
def lineOf (text : Except StoreError String) : Printed :=
  match text with
  | .ok text => line text
  | .error e => ⟨"", .error e⟩

/-- One step after another; a failure ends the run. -/
def followedBy (first second : Printed) : Printed :=
  match first.result with
  | .ok report => ⟨first.output ++ second.output, second.result.map (report ++ ·)⟩
  | .error e => ⟨first.output, .error e⟩

end Printed

/-! ## Conditions -/

/-- The id and the value of a binding, which stand before and after its first equals sign. -/
def readBinding (text : String) : Except StoreError (String × Value) :=
  match Text.cut '=' text with
  | some (id, value) => .ok (Text.trim id, .ofLiteral value)
  | none => .error (.config (.binding text))

/-- The values that bindings give to ids; the last binding of an id counts. -/
def readBindings (texts : List String) : Except StoreError Bindings :=
  (texts.mapM readBinding).map Dictionary.ofList

/-- The query of a condition with values in the place of its placeholders. -/
def resolved (condition : Condition) (bindings : List String) : Except StoreError String := do
  condition.resolve (← readBindings bindings)

/-- Shows a condition and its placeholders.  It is resolved when there are bindings or nothing needs
one. -/
def showCondition (condition : Condition) (bindings : List String) : Printed :=
  let shown := (Printed.line ("query=" ++ condition.display)).followedBy
    (.line ("placeholders=" ++ ",".intercalate condition.placeholders))
  if bindings.isEmpty && !condition.placeholders.isEmpty then shown
  else shown.followedBy (.lineOf ((resolved condition bindings).map ("resolved=" ++ ·)))

/-! ## Schemas -/

/-- The schema with the given fields, over the fields of an older one if there is one. -/
def mergedSchema (fields : String) (uniqueKey mergeWith : Option String) :
    Except StoreError Schema := do
  let schema ← Schema.ofText fields uniqueKey
  match mergeWith with
  | none => .ok schema
  | some old => .ok (.merge (← Schema.ofText old uniqueKey) schema)

/-! ## Options -/

/-- The name of the options file in the directory of a run. -/
def ownConfigFile : String := "solrstore.toml"

/-- The paths at which a request may look for an options file, the first one first, each with the
way it is shown. -/
def configPaths (s : Surroundings) (path : Option String) : List (String × String) :=
  (path.toList ++ s.configVariable.toList).map (fun p => (p, p)) ++
    [(ownConfigFile, s.directory ++ "/" ++ ownConfigFile)]

/-- The options in effect and the path of the file that they come from, as it is shown.  The first
file that there is decides; one that was asked for by name has to be there. -/
def loadOptions (s : Surroundings) (path : Option String) :
    Except StoreError (Options × Option String) :=
  match path.filter fun p => !(s.look p).isThere with
  | some p => .error (.config (.fileNotFound p))
  | none =>
    match (configPaths s path).find? fun candidate => (s.look candidate.1).isThere with
    | none => .ok ({}, none)
    | some (path, shown) =>
      match s.look path with
      | .text content => do .ok (← Options.ofFileText content, some shown)
      | _ => .error .io

/-- Shows options and reports where they come from. -/
def showOptions (o : Options) (source : Option String) : Printed :=
  ⟨o.toJson.indented ++ "\n",
    .ok (match source with
      | some path => "loaded " ++ path ++ "\n"
      | none => "no config file found; using defaults\n")⟩

/-! ## Requests -/

/-- What a request prints and what it has to say in the log. -/
def Request.perform (s : Surroundings) : Request → Printed × List Log.Entry
  | .version => (.line versionText, [])
  | .help topic => (⟨topic.page.render, .ok ""⟩, [])
  | .compile expression bindings =>
    match Expression.ofJsonText expression with
    | .error e => (⟨"", .error e⟩, [])
    | .ok e => (showCondition (.compile e) bindings, Condition.notices e)
  | .schema fields uniqueKey mergeWith =>
    (.lineOf ((mergedSchema fields uniqueKey mergeWith).map fun schema => schema.toJson.indented),
      [])
  | .config path =>
    match loadOptions s path with
    | .error e => (⟨"", .error e⟩, [])
    | .ok (o, source) => (showOptions o source, [])

/-- A line of the log, if the level of the log lets it through. -/
def logLine? (filter : Log.Level) : Log.Entry → Option String
  | .line level text =>
    if filter.admits level then some ("[" ++ level.name ++ "] " ++ text) else none
  | .audit .. => none

/-- The lines of a log of a level. -/
def logLines (level : String) (entries : List Log.Entry) : List String :=
  entries.filterMap (logLine? (.read level))

/-- The outcome of an invocation: a failure is reported and ends the run with code 1. -/
def Invocation.run (s : Surroundings) (i : Invocation) : Outcome :=
  let (printed, entries) := i.request.perform s
  let log := if i.isLogged then i.logLevel.map fun level => logLines level entries else none
  match printed.result with
  | .ok report => ⟨0, printed.output, report, log⟩
  | .error e => ⟨1, printed.output, "error: " ++ e.message ++ "\n", log⟩

/-- The name of the file for the lines of the log. -/
def logFile : String := "solrstore.log"

/-- The name of the file for the records of changes. -/
def auditFile : String := "solrstore_audit.log"

/-- The files that a command line opens before anything else; they are there from then on. -/
def openedFiles (words : List String) : List String :=
  if (Invocation.read? words).any Invocation.isLogged then [logFile, auditFile] else []

/-- The paths that a command line has to look up. -/
def pathsOf (configVariable : Option String) (words : List String) : List String :=
  match Invocation.read? words with
  | some ⟨_, .config path⟩ => path.toList ++ configVariable.toList ++ [ownConfigFile]
  | _ => []

/-- The outcome of a command line.  One that is not used as it should be ends with code 2. -/
def run (s : Surroundings) (words : List String) : Outcome :=
  match Invocation.read? words with
  | some i => i.run s
  | none => ⟨2, "", "", none⟩

/-- The outcome of a command line in a folder. -/
def runIn (folder : Folder) (directory : String) (configVariable : Option String)
    (words : List String) : Outcome :=
  run ⟨configVariable, directory, (folder.withFiles (openedFiles words)).look⟩ words

end SearchTable.Command

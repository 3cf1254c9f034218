import SearchTable.Text.Blank
/-!
# Command lines

The words of a command line and what they ask for.  Options are written `--name value` or
`--name=value`; a value that is a word of its own may not look like an option.  `Invocation.read?`
answers nothing for a command line that is not used as it should be.
-/

namespace SearchTable.Command

/-- What help can be asked for. -/
inductive Topic where
  /-- The whole program. -/
  | program
  | compile
  | schema
  | config
  /-- The asking for help itself. -/
  | help
  deriving DecidableEq, Repr

/-- What a command line asks for. -/
inductive Request where
  | version
  | help (topic : Topic)
  | compile (expression : String) (bindings : List String)
  | schema (fields : String) (uniqueKey mergeWith : Option String)
  | config (path : Option String)
  deriving DecidableEq, Repr

/-- A command line: the log level, if the run is to be logged, and the request. -/
structure Invocation where
  logLevel : Option String
  request : Request
  deriving DecidableEq, Repr

/-! ## Words -/

/-- Whether a word can be the value of the option in front of it: it does not start with a hyphen,
unless it is nothing but one. -/
def isValueWord (word : String) : Bool :=
  match word.toList with
  | ['-'] => true
  | '-' :: _ => false
  | _ => true

/-- The name of an option and the value written in the same word, if a word is an option. -/
def optionParts? (word : String) : Option (String × Option String) :=
  match word.toList with
  | '-' :: '-' :: body =>
    match Text.cutChars '=' body with
    | some (name, value) => some (String.ofList name, some (String.ofList value))
    | none => some (String.ofList body, none)
  | _ => none

/-- Whether a word is a switch, which takes effect when it is read: its name behind two hyphens, or
a hyphen and its letter, whatever other letters follow. -/
def isSwitch (name : String) (letter : Char) (word : String) : Bool :=
  match word.toList with
  | '-' :: '-' :: body => String.ofList body == name
  | '-' :: c :: _ => c == letter
  | _ => false

/-- Whether a word asks for help. -/
def isHelpWord : String → Bool := isSwitch "help" 'h'

/-- Whether a word asks for the version. -/
def isVersionWord : String → Bool := isSwitch "version" 'V'

/-! ## Options of a request -/

/-- How an option of a request may be given. -/
structure OptionRule where
  name : String
  /-- Whether it may be given more than once. -/
  mayRepeat : Bool
  /-- Whether its value may be empty. -/
  mayBeEmpty : Bool
  deriving DecidableEq, Repr

/-- What the words behind the name of a request come to. -/
inductive Reading where
  /-- They ask for help. -/
  | help
  /-- Options with their values, in their order. -/
  | options (given : List (String × String))
  deriving DecidableEq, Repr

/-- Whether an option with a value may follow the options that are given already. -/
def accepts (rules : List OptionRule) (given : List (String × String)) (name value : String) :
    Bool :=
  rules.any fun rule =>
    rule.name == name && (rule.mayRepeat || !given.any fun o => o.1 == name) &&
      (rule.mayBeEmpty || value != "")

/-- The options in a list of words, after those that are given already.  There must be nothing but
options that the rules accept; a lone pair of hyphens may end the list, and help takes effect at
once, whatever follows. -/
def readOptions (rules : List OptionRule) (given : List (String × String)) :
    List String → Option Reading
  | [] => some (.options given)
  | ["--"] => some (.options given)
  | word :: rest =>
    if isHelpWord word then some .help
    else
      match optionParts? word, rest with
      | none, _ => none
      | some (name, some value), rest =>
        if accepts rules given name value then readOptions rules (given ++ [(name, value)]) rest
        else none
      | some (name, none), value :: rest =>
        if isValueWord value && accepts rules given name value then
          readOptions rules (given ++ [(name, value)]) rest
        else none
      | some _, [] => none

/-- The values of an option. -/
def valuesOf (name : String) (options : List (String × String)) : List String :=
  (options.filter fun o => o.1 == name).map (·.2)

/-! ## Requests -/

namespace Request

/-- The request for a compiled condition: its expression and the bindings of its placeholders. -/
def readCompile (words : List String) : Option Request := do
  match ← readOptions [⟨"expr", false, true⟩, ⟨"bind", true, true⟩] [] words with
  | .help => some (.help .compile)
  | .options given => some (.compile (← given.lookup "expr") (valuesOf "bind" given))

/-- The request for a schema: its fields, its unique key and an older schema to merge it over. -/
def readSchema (words : List String) : Option Request := do
  let rules := [⟨"fields", false, true⟩, ⟨"unique-key", false, true⟩, ⟨"merge-with", false, true⟩]
  match ← readOptions rules [] words with
  | .help => some (.help .schema)
  | .options given =>
    some (.schema (← given.lookup "fields") (given.lookup "unique-key") (given.lookup "merge-with"))

/-- The request for the options that are in effect.  A path may not be empty. -/
def readConfig (words : List String) : Option Request := do
  match ← readOptions [⟨"config", false, false⟩] [] words with
  | .help => some (.help .config)
  | .options given => some (.config (given.lookup "config"))

/-- The request for help, on the request that is named if one is. -/
def readHelp : List String → Option Request
  | [] => some (.help .program)
  | ["compile"] => some (.help .compile)
  | ["schema"] => some (.help .schema)
  | ["config"] => some (.help .config)
  | ["help"] => some (.help .help)
  | _ => none

/-- The request of a name, with the words after the name. -/
def read? (name : String) (words : List String) : Option Request :=
  match name with
  | "compile" => readCompile words
  | "schema" => readSchema words
  | "config" => readConfig words
  | "help" => readHelp words
  | _ => none

/-- Whether a request is about the program itself.  It is answered while the command line is read,
so that no run begins. -/
def isAboutProgram : Request → Bool
  | .version => true
  | .help _ => true
  | _ => false

end Request

namespace Invocation

/-- The invocation in a list of words: options of the whole run, then the request.  Asking for the
version or for help takes effect at once, whatever follows. -/
def readFrom (logLevel : Option String) : List String → Option Invocation
  | [] => none
  | word :: rest =>
    if isVersionWord word then some ⟨logLevel, .version⟩
    else if isHelpWord word then some ⟨logLevel, .help .program⟩
    else
      match optionParts? word with
      | none => (Request.read? word rest).map fun request => ⟨logLevel, request⟩
      | some ("log-level", value) =>
        if logLevel.isSome then none
        else
          match value, rest with
          | some value, rest => readFrom (some value) rest
          | none, value :: rest => if isValueWord value then readFrom (some value) rest else none
          | none, [] => none
      | some _ => none

/-- The invocation that the words of a command line are. -/
def read? (words : List String) : Option Invocation := readFrom none words

/-- Whether the run leaves a log. -/
def isLogged (i : Invocation) : Bool := i.logLevel.isSome && !i.request.isAboutProgram

end Invocation

end SearchTable.Command

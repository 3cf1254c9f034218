import SearchTable.Command.Arguments
/-!
# Help

Pages of help.  A page says what something is for and how it is used, and lists under headings the
words that may be used with what they mean.  The meanings under one heading start in one column.
-/

namespace SearchTable.Command

/-- Words with what they mean, under a heading. -/
structure HelpSection where
  heading : String
  entries : List (String × String)
  deriving Repr

/-- A page of help. -/
structure HelpPage where
  purpose : String
  usage : String
  sections : List HelpSection
  deriving Repr

/-! ## The text of a page -/

namespace HelpSection

/-- The length of the longest of the words that are explained. -/
def width (s : HelpSection) : Nat := s.entries.foldl (fun n entry => max n entry.1.length) 0

/-- The line of an entry: the words, blanks up to the column of the meanings, and the meaning. -/
def line (width : Nat) (entry : String × String) : String :=
  "  " ++ entry.1 ++ String.ofList (List.replicate (width + 2 - entry.1.length) ' ') ++ entry.2 ++
    "\n"

/-- The heading and the lines of the entries. -/
def render (s : HelpSection) : String :=
  s.heading ++ ":\n" ++ String.join (s.entries.map (line s.width))

end HelpSection

/-- The text of a page, with an empty line between its parts. -/
def HelpPage.render (page : HelpPage) : String :=
  page.purpose ++ "\n\nUsage: " ++ page.usage ++ "\n" ++
    String.join (page.sections.map fun s => "\n" ++ s.render)

/-! ## The pages -/

/-- The entry of the switch that asks for help. -/
def helpEntry : String × String := ("-h, --help", "Print help")

/-- What the request for a compiled condition is for. -/
def compilePurpose : String := "Compile a condition expression (JSON) into a store query"

/-- What the request for a schema is for. -/
def schemaPurpose : String := "Parse a schema string and print it as JSON"

/-- What the request for the options in effect is for. -/
def configPurpose : String := "Print the effective store options"

/-- What the request for help is for. -/
def helpPurpose : String := "Print this message or the help of the given subcommand(s)"

/-- The page on a topic.  Where an option has no letter, blanks keep the names in one column. -/
def Topic.page : Topic → HelpPage
  | .program =>
    ⟨"Document store table connector tools", "solrstore [OPTIONS] <COMMAND>",
      [⟨"Commands",
        [("compile", compilePurpose), ("schema", schemaPurpose), ("config", configPurpose),
          ("help", helpPurpose)]⟩,
      ⟨"Options",
        [("    --log-level <LOG_LEVEL>",
          "Logging level: error|warn|info|debug|trace. Logs go to ./solrstore.log when set."),
          helpEntry, ("-V, --version", "Print version")]⟩]⟩
  | .compile =>
    ⟨compilePurpose, "solrstore compile [OPTIONS] --expr <EXPR>",
      [⟨"Options",
        [("    --expr <EXPR>", "Expression JSON, e.g. " ++
          "\x7b\"$cmp\":\x7b\"op\":\">=\",\"left\":\x7b\"$field\":\"age\"\x7d," ++
          "\"right\":\x7b\"$param\":\"a\"\x7d\x7d\x7d"),
          ("    --bind <ID=VALUE>", "Bind a placeholder; repeat for several"), helpEntry]⟩]⟩
  | .schema =>
    ⟨schemaPurpose, "solrstore schema [OPTIONS] --fields <FIELDS>",
      [⟨"Options",
        [("    --fields <FIELDS>", "Field list: \"name type [flag]*, ...\""),
          ("    --unique-key <UNIQUE_KEY>", "Unique key field; defaults to id"),
          ("    --merge-with <MERGE_WITH>", "Existing schema string to merge the new fields over"),
          helpEntry]⟩]⟩
  | .config =>
    ⟨configPurpose, "solrstore config [OPTIONS]",
      [⟨"Options",
        [("    --config <CONFIG>",
          "Path to a TOML options file. Falls back to SOLRSTORE_CONFIG, then ./solrstore.toml."),
          helpEntry]⟩]⟩
  | .help =>
    ⟨helpPurpose, "solrstore help [COMMAND]...",
      [⟨"Arguments", [("[COMMAND]...", "Print help for the subcommand(s)")]⟩]⟩

end SearchTable.Command

import SearchTable.Number.Decimal
/-!
# TOML documents

A TOML document is a sequence of statements: settings `key = value` and headers, each of which
names the table that the settings after it go to.  `Statement` is one of them as it is written, and
`Item.ofStatements?` builds the table that a sequence of them describes.

A table may be described in several places, but only once in each way.  What is remembered of a
table is therefore its `Origin`:

* a header opens a table that no header has opened before, one that is only implied by the header of
  a table inside it included;
* a dotted key adds to tables that dotted keys have made, and passes through implied ones;
* a table between braces is closed.
-/

namespace SearchTable.Toml

open Number

/-- How a table came into being. -/
inductive Origin where
  /-- By a header of its own. -/
  | header
  /-- By the header of a table inside it. -/
  | implied
  /-- By a dotted key. -/
  | dotted
  /-- As a value between braces. -/
  | braces
  deriving DecidableEq, Repr

/-- What a name stands for in a document. -/
inductive Item where
  | text (s : String)
  | integer (n : Int)
  | float (x : Binary .double)
  | bool (b : Bool)
  /-- A date, a time, or both, as written. -/
  | moment (text : String)
  | array (items : List Item)
  | table (origin : Origin) (entries : List (String × Item))
  /-- The tables that headers in double brackets have opened under one name, the last one first. -/
  | series (tables : List (List (String × Item)))
  deriving Repr, Inhabited

/-- The names of a table and what they stand for, in the order in which they were first used. -/
abbrev Entries := List (String × Item)

/-- A statement of a document. -/
inductive Statement where
  | header (path : List String)
  | seriesHeader (path : List String)
  | setting (path : List String) (value : Item)
  deriving Repr

namespace Item

/-! ## Building tables -/

/-- Replaces what a name stands for, which is nothing at first; `change` may refuse. -/
def alter (name : String) (change : Option Item → Option Item) : Entries → Option Entries
  | [] => do some [(name, ← change none)]
  | (n, item) :: rest =>
    if n = name then do some ((n, ← change (some item)) :: rest)
    else do some ((n, item) :: (← alter name change rest))

/-- Sets a name that stands for nothing yet. -/
def setNew (value : Item) : Option Item → Option Item
  | none => some value
  | some _ => none

/-- Sets the value of a key.  The tables on the way are made where they are missing.  A table that
no dotted key has made may be passed through, if it has no header, but nothing may be set in it. -/
def setPath (value : Item) : (path : List String) → Entries → Option Entries
  | [], _ => none
  | [name], entries => alter name (setNew value) entries
  | name :: next :: path, entries =>
    alter name (fun
      | none => (setPath value (next :: path) []).map (.table .dotted)
      | some (.table .dotted inner) =>
        (setPath value (next :: path) inner).map (.table .dotted)
      | some (.table .implied inner) =>
        if path.isEmpty then none
        else (setPath value (next :: path) inner).map (.table .implied)
      | some (.series (last :: earlier)) =>
        if path.isEmpty then none
        else (setPath value (next :: path) last).map fun t => .series (t :: earlier)
      | some _ => none) entries

/-- Opens the table that a header names. -/
def openTable : Option Item → Option Item
  | none => some (.table .header [])
  | some (.table .implied inner) => some (.table .header inner)
  | some _ => none

/-- Opens one more table of the series that a header names. -/
def openSeries : Option Item → Option Item
  | none => some (.series [[]])
  | some (.series tables) => some (.series ([] :: tables))
  | some _ => none

/-- Replaces what the last name of a header's path stands for. -/
def alterAt (change : Option Item → Option Item) : (path : List String) → Entries → Option Entries
  | [], _ => none
  | [name], entries => alter name change entries
  | name :: next :: path, entries =>
    alter name (fun
      | none => (alterAt change (next :: path) []).map (.table .implied)
      | some (.table .braces _) => none
      | some (.table origin inner) => (alterAt change (next :: path) inner).map (.table origin)
      | some (.series (last :: earlier)) =>
        (alterAt change (next :: path) last).map fun t => .series (t :: earlier)
      | some _ => none) entries

/-- Sets the value of a key in an open table. -/
def setInside (path : List String) (value : Item) : Option Item → Option Item
  | some (.table origin inner) => (setPath value path inner).map (.table origin)
  | some (.series (last :: earlier)) =>
    (setPath value path last).map fun t => .series (t :: earlier)
  | _ => none

/-- The table that statements describe, from the entries that there are already and the path of the
header that is in force. -/
def build (current : List String) : List Statement → Entries → Option Entries
  | [], entries => some entries
  | .header path :: rest, entries => do build path rest (← alterAt openTable path entries)
  | .seriesHeader path :: rest, entries => do build path rest (← alterAt openSeries path entries)
  | .setting path value :: rest, entries => do
    let entries ←
      if current.isEmpty then setPath value path entries
      else alterAt (setInside path value) current entries
    build current rest entries

/-- The table that a document describes, if its statements agree with one another. -/
def ofStatements? (statements : List Statement) : Option Entries := build [] statements []

/-- The table that settings between braces describe. -/
def ofSettings? (settings : List (List String × Item)) : Option Item :=
  (settings.foldlM (fun entries (path, value) => setPath value path entries) []).map
    (.table .braces)

/-! ## Values by kind -/

/-- The text that an item is, if it is one. -/
def toText? : Item → Option String
  | text s => some s
  | _ => none

/-- The truth value that an item is, if it is one. -/
def toBool? : Item → Option Bool
  | bool b => some b
  | _ => none

/-- The natural number below a bound that an item is, if it is one. -/
def toNatBelow? (bound : Nat) : Item → Option Nat
  | integer n => if 0 ≤ n ∧ n < bound then some n.toNat else none
  | _ => none

end Item

end SearchTable.Toml

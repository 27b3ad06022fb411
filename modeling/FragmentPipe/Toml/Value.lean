/-!
The values of a TOML document. Tables remember how they came to be, because that decides what may
still be added to them. Settings are read off these values, whatever parser they come from.
-/

namespace FragmentPipe.Toml

/-- How a table came to be. -/
inductive TableKind where
  /-- By its own header, or as a member of an array of tables. -/
  | explicit
  /-- By the header of a table inside it. -/
  | implicit
  /-- By a dotted key. -/
  | dotted
  deriving DecidableEq, Repr

/-- A value. Of floating point numbers and dates only their presence is kept. -/
inductive Value where
  | text (s : String)
  | integer (n : Int)
  | floating
  | boolean (b : Bool)
  | dateTime
  | array (items : List Value)
  /-- A table written in place; `dotted` tells that a dotted key made it. -/
  | inline (dotted : Bool) (entries : List (String × Value))
  | table (kind : TableKind) (entries : List (String × Value))
  /-- An array of tables, each by its own header. -/
  | tables (members : List (List (String × Value)))
  deriving Repr

/-- The entries of a table in the order of their first appearance. -/
abbrev Entries := List (String × Value)

namespace Entries

/-- Replaces the value of a key. -/
def replace (entries : Entries) (key : String) (v : Value) : Entries :=
  entries.map fun entry => if entry.1 = key then (key, v) else entry

/-- Appends a key that is not there yet. -/
def add? (entries : Entries) (key : String) (v : Value) : Option Entries :=
  match entries.lookup key with
  | some _ => none
  | none => some (entries ++ [(key, v)])

/-- Changes the last member of a list. -/
def changeLast (f : Entries → Option Entries) : List Entries → Option (List Entries)
  | [] => none
  | [members] => (f members).map ([·])
  | first :: rest => (changeLast f rest).map (first :: ·)

/-- Goes down a path and changes the entries found there. Missing tables are made on the way, dotted
ones for a dotted key and implicit ones for a header. A dotted key does not enter a table that has a
header, and nothing enters a value that is no table; an array of tables is entered at its last
member. -/
def descend (byDottedKey : Bool) :
    List String → (TableKind → Entries → Option Entries) → TableKind → Entries → Option Entries
  | [], change, kind, entries => change kind entries
  | key :: path, change, _, entries =>
    let made := if byDottedKey then TableKind.dotted else TableKind.implicit
    match entries.lookup key with
    | none =>
      (descend byDottedKey path change made []).map fun inner =>
        entries ++ [(key, .table made inner)]
    | some (.table kind inner) =>
      if byDottedKey && kind == .explicit then none
      else
        (descend byDottedKey path change kind inner).map fun inner =>
          entries.replace key (.table kind inner)
    | some (.tables members) =>
      (changeLast (descend byDottedKey path change .explicit) members).map fun members =>
        entries.replace key (.tables members)
    | some _ => none

/-- Enters the value of a dotted key. A dotted key may only extend tables that dotted keys made. -/
def addDotted (path : List String) (key : String) (v : Value) (kind : TableKind)
    (entries : Entries) : Option Entries :=
  let change (kind : TableKind) (entries : Entries) : Option Entries :=
    if (kind == .dotted) == path.isEmpty then none else entries.add? key v
  descend true path change kind entries

/-- Enters the value of a dotted key into a table written in place. -/
def addInline (key : String) (v : Value) : List String → Entries → Option Entries
  | [], entries => entries.add? key v
  | next :: path, entries =>
    match entries.lookup next with
    | none => (addInline key v path []).map fun inner => entries ++ [(next, .inline true inner)]
    | some (.inline true inner) =>
      (addInline key v path inner).map fun inner => entries.replace next (.inline true inner)
    | some _ => none

end Entries

end FragmentPipe.Toml

import FragmentPipe.Toml.Lexical
import FragmentPipe.Toml.Value

/-!
TOML documents. The text is read as a list of statements, which are then entered into the tables one
after the other. `parse?` is one parser that settings can be read with; results about settings hold for
any.
-/

namespace FragmentPipe.Toml

/-- A value that holds no other values. Numbers and dates begin alike, so dates are tried first. -/
def scalarValue (s : List Char) : Option (Value × List Char) :=
  match s with
  | [] => none
  | c :: _ =>
    if c = '"' ∨ c = '\'' then
      (anyString s).map fun (read, rest) => (.text (String.ofList read), rest)
    else if c = 't' then
      if "true".toList.isPrefixOf s then some (.boolean true, s.drop 4) else none
    else if c = 'f' then
      if "false".toList.isPrefixOf s then some (.boolean false, s.drop 5) else none
    else if c = '+' ∨ c = '-' ∨ c = 'i' ∨ c = 'n' ∨ c.isDigit then
      match dateTime s with
      | some rest => some (.dateTime, rest)
      | none =>
        match floating s with
        | some rest => some (.floating, rest)
        | none => (integer s).map fun (n, rest) => (.integer n, rest)
    else none

/-- The items of an array, after its bracket. A comma may follow the last one. Every item takes at
least one character, so the length of the text bounds their number. -/
def arrayItems (item : List Char → Option (Value × List Char)) :
    Nat → List Char → Option (List Value × List Char)
  | 0, _ => none
  | fuel + 1, s =>
    match skipTrivia false s with
    | ']' :: rest => some ([], rest)
    | s =>
      match item s with
      | none => none
      | some (v, rest) =>
        match skipTrivia false rest with
        | ',' :: rest => (arrayItems item fuel rest).map fun (vs, rest) => (v :: vs, rest)
        | ']' :: rest => some ([v], rest)
        | _ => none

/-- A key, an equals sign and a value. -/
def keyValue (item : List Char → Option (Value × List Char)) (s : List Char) :
    Option ((List String × String × Value) × List Char) :=
  match keyPath s with
  | none => none
  | some ((path, key), '=' :: rest) =>
    (item (skipBlanks rest)).map fun (v, rest) => ((path, key, v), rest)
  | some _ => none

/-- The entries of a table written in place, after its brace, added to those before. No comma
follows the last one. -/
def inlineEntries (item : List Char → Option (Value × List Char)) :
    Nat → Entries → List Char → Option (Entries × List Char)
  | 0, _, _ => none
  | fuel + 1, entries, s =>
    match keyValue item s with
    | none => none
    | some ((path, key, v), rest) =>
      match Entries.addInline key v path entries with
      | none => none
      | some entries =>
        match skipBlanks rest with
        | ',' :: rest => inlineEntries item fuel entries rest
        | '\x7d' :: rest => some (entries, rest)
        | _ => none

/-- A table written in place, after its brace. -/
def inlineTable (item : List Char → Option (Value × List Char)) (s : List Char) :
    Option (Entries × List Char) :=
  match skipBlanks s with
  | '\x7d' :: rest => some ([], rest)
  | _ => inlineEntries item s.length [] s

/-- A value in which at most `depth` arrays and tables lie in one another. -/
def value : Nat → List Char → Option (Value × List Char)
  | 0, s => scalarValue s
  | depth + 1, s =>
    match s with
    | '[' :: rest =>
      (arrayItems (value depth) s.length rest).map fun (vs, rest) => (.array vs, rest)
    | '\x7b' :: rest =>
      (inlineTable (value depth) rest).map fun (entries, rest) => (.inline false entries, rest)
    | _ => scalarValue s

/-- A line of a document that says something. -/
inductive Statement where
  /-- A value for a key of the current table. -/
  | entry (path : List String) (key : String) (v : Value)
  /-- The header of a table. -/
  | header (path : List String) (key : String)
  /-- The header of a member of an array of tables. -/
  | member (path : List String) (key : String)

/-- A header, after its opening brackets. -/
def headerLine (closing : List Char) (make : List String → String → Statement) (s : List Char) :
    Option (Statement × List Char) :=
  match keyPath s with
  | none => none
  | some ((path, key), rest) =>
    if closing.isPrefixOf rest then
      (endLine? (rest.drop closing.length)).map fun rest => (make path key, rest)
    else none

/-- A line that is neither empty nor a mere comment. -/
def statement : List Char → Option (Statement × List Char)
  | '[' :: '[' :: rest => headerLine [']', ']'] .member rest
  | '[' :: rest => headerLine [']'] .header rest
  | s =>
    match keyValue (value maxDepth) s with
    | none => none
    | some ((path, key, v), rest) => (endLine? rest).map fun rest => (.entry path key v, rest)

/-- The statements of a text. Each line takes at least one character. -/
def statements : Nat → List Char → Option (List Statement)
  | 0, s => if s.isEmpty then some [] else none
  | fuel + 1, s =>
    match skipBlanks s with
    | [] => some []
    | '#' :: rest => (endLine? ('#' :: rest)).bind (statements fuel)
    | '\n' :: rest => statements fuel rest
    | '\r' :: '\n' :: rest => statements fuel rest
    | s =>
      match statement s with
      | none => none
      | some (first, rest) => (statements fuel rest).map (first :: ·)

/-- A document under construction: the entries of its root and the path to the current table. -/
structure Draft where
  entries : Entries
  current : List String

namespace Draft

/-- Opens a table by its header: a new one, or one that only headers of inner tables have made. -/
def openTable (d : Draft) (path : List String) (key : String) : Option Draft :=
  let change (_ : TableKind) (entries : Entries) : Option Entries :=
    match entries.lookup key with
    | none => some (entries ++ [(key, .table .explicit [])])
    | some (.table .implicit inner) => some (entries.replace key (.table .explicit inner))
    | some _ => none
  (Entries.descend false path change .explicit d.entries).map fun entries =>
    ⟨entries, path ++ [key]⟩

/-- Opens a new member of an array of tables. -/
def openMember (d : Draft) (path : List String) (key : String) : Option Draft :=
  let change (_ : TableKind) (entries : Entries) : Option Entries :=
    match entries.lookup key with
    | none => some (entries ++ [(key, .tables [[]])])
    | some (.tables members) => some (entries.replace key (.tables (members ++ [[]])))
    | some _ => none
  (Entries.descend false path change .explicit d.entries).map fun entries =>
    ⟨entries, path ++ [key]⟩

/-- Enters a statement. -/
def enter (d : Draft) : Statement → Option Draft
  | .entry path key v =>
    (Entries.descend false d.current (Entries.addDotted path key v) .explicit d.entries).map
      fun entries => { d with entries := entries }
  | .header path key => d.openTable path key
  | .member path key => d.openMember path key

end Draft

/-- The entries of a document. A byte order mark may stand first. -/
def parse? (text : String) : Option Entries :=
  let s := match text.toList with
    | '\uFEFF' :: rest => rest
    | s => s
  match statements (s.length + 1) s with
  | none => none
  | some lines => (lines.foldlM Draft.enter ⟨[], []⟩).map Draft.entries

end FragmentPipe.Toml

import LinkageAudit.Toml.Scalar

/-!
# TOML documents

A document is read in two steps: its text becomes a list of statements, and the statements build
a tree of tables. The second step is where keys can clash.

* `Toml.value`: any value, arrays and inline tables included.
* `Toml.statements`: the lines of a document.
* `Toml.Tree.add`: obeys one statement, or refuses it.
* `Toml.parse?`: the table that a document writes.
-/

namespace LinkageAudit.Toml

/-! ## Trees of tables -/

/-- How a table came to be, which decides what may be added to it later. -/
inductive Origin where
  /-- By a header of its own, or as an element of an array of tables. -/
  | header
  /-- On the way to a table with a header. -/
  | implied
  /-- On the way to a value with a dotted key. -/
  | dotted
  deriving DecidableEq, Repr

/-- What stands under a key while a document is read. A table inside a value is closed; tables
outside can still grow. -/
inductive Tree where
  | value (v : Value)
  | table (origin : Origin) (entries : List (String × Tree))
  | tables (items : List (List (String × Tree)))

namespace Tree

/-- The entries of a growing table. -/
abbrev Entries := List (String × Tree)

/-- Puts a tree under a key that is there, or at the end. -/
def put (key : String) (tree : Tree) : Entries → Entries
  | [] => [(key, tree)]
  | (k, t) :: es => if k = key then (k, tree) :: es else (k, t) :: put key tree es

/-- Changes the last element of a list; `none` if there is none or the change fails. -/
def changeLast (f : Entries → Option Entries) : List Entries → Option (List Entries)
  | [] => none
  | [es] => (f es).map ([·])
  | es :: rest => (changeLast f rest).map (es :: ·)

/-- Adds a value under a dotted key. The tables on the way must not have headers of their own, and
the one that takes the value must have come from a dotted key. -/
def addValue (v : Value) : List String → Entries → Option Entries
  | [], _ => none
  | [key], es => if (es.lookup key).isSome then none else some (put key (.value v) es)
  | key :: last :: more, es =>
    match es.lookup key with
    | none => (addValue v (last :: more) []).map fun sub => put key (.table .dotted sub) es
    | some (.value _) => none
    | some (.table .header _) => none
    | some (.table .implied sub) =>
      if more.isEmpty then none
      else (addValue v (last :: more) sub).map fun sub => put key (.table .implied sub) es
    | some (.table .dotted sub) =>
      (addValue v (last :: more) sub).map fun sub => put key (.table .dotted sub) es
    | some (.tables items) =>
      if more.isEmpty then none
      else (changeLast (addValue v (last :: more)) items).map fun items =>
        put key (.tables items) es

/-- Changes the table that a header names. Missing tables on the way are made; an array of tables
stands for its last element. -/
def change (f : Entries → Option Entries) : List String → Entries → Option Entries
  | [], es => f es
  | key :: path, es =>
    match es.lookup key with
    | none => (change f path []).map fun sub => put key (.table .implied sub) es
    | some (.value _) => none
    | some (.table origin sub) => (change f path sub).map fun sub => put key (.table origin sub) es
    | some (.tables items) =>
      (changeLast (change f path) items).map fun items => put key (.tables items) es

/-- Gives a table its header. It must be new, or only implied so far. -/
def open? (key : String) (es : Entries) : Option Entries :=
  match es.lookup key with
  | none => some (put key (.table .header []) es)
  | some (.table .implied sub) => some (put key (.table .header sub) es)
  | some _ => none

/-- Adds an element to an array of tables, which may be new. -/
def append? (key : String) (es : Entries) : Option Entries :=
  match es.lookup key with
  | none => some (put key (.tables [[]]) es)
  | some (.tables items) => some (put key (.tables (items ++ [[]])) es)
  | some _ => none

mutual

/-- The value that a finished tree stands for. -/
def finish : Tree → Value
  | value v => v
  | table _ entries => .table (finishEntries entries)
  | tables items => .array (finishItems items)

/-- The table that finished entries stand for. -/
def finishEntries : List (String × Tree) → Table
  | [] => []
  | (k, t) :: es => (k, finish t) :: finishEntries es

/-- The tables that finished elements stand for. -/
def finishItems : List (List (String × Tree)) → List Value
  | [] => []
  | es :: rest => .table (finishEntries es) :: finishItems rest

end

end Tree

/-! ## Keys -/

/-- A character of a key without quotes. -/
def isBareKeyChar (c : Char) : Bool := c.isAlphanum || c = '-' || c = '_'

/-- One part of a key. -/
def simpleKey : Reader String
  | s@(c :: _) =>
    if c = '"' ∨ c = '\'' then shortString s
    else
      let run := s.takeWhile isBareKeyChar
      if run.isEmpty then none else some (String.ofList run, s.dropWhile isBareKeyChar)
  | [] => none

/-- How deep values and keys may nest. -/
def maxDepth : Nat := 79

/-- A key of up to `n` parts with dots between them and blanks around them. -/
def key : Nat → Reader (List String)
  | 0, _ => none
  | n + 1, s => do
    let (part, s) ← simpleKey (blank s)
    match blank s with
    | '.' :: r => (key n r).map fun (parts, r) => (part :: parts, r)
    | r => some ([part], r)

/-! ## Values -/

/-- The items of an array and its closing bracket; the last item may be followed by a comma. The
number bounds the items. -/
def arrayItems (item : Reader Value) : Nat → Reader (List Value)
  | 0, _ => none
  | n + 1, s => do
    match ← gap s with
    | ']' :: r => some ([], r)
    | s =>
      let (v, s) ← item s
      match ← gap s with
      | ',' :: r => (arrayItems item n r).map fun (vs, r) => (v :: vs, r)
      | ']' :: r => some ([v], r)
      | _ => none

/-- A key with its value. -/
def keyValue (item : Reader Value) : Reader (List String × Value) := fun s => do
  let (path, s) ← key maxDepth s
  let (v, s) ← item (blank (← after? '=' s))
  some ((path, v), s)

/-- The entries of an inline table after the first, with the closing brace. The number bounds the
entries. -/
def inlineEntries (item : Reader Value) (entries : Tree.Entries) : Nat → Reader Table
  | 0, _ => none
  | n + 1, s => do
    let ((path, v), s) ← keyValue item s
    let entries ← Tree.addValue v path entries
    match blank s with
    | ',' :: r => inlineEntries item entries n r
    | '\x7d' :: r => some (Tree.finishEntries entries, r)
    | _ => none

/-- An inline table after its opening brace. -/
def inlineTable (item : Reader Value) : Reader Table := fun s =>
  match blank s with
  | '\x7d' :: r => some ([], r)
  | r => inlineEntries item [] s.length r

/-- A value that holds no other values. -/
def atom : Reader Value := fun s =>
  if s.head?.any fun c => c = '"' || c = '\'' then
    (quoted s).map fun (t, r) => (.string t, r)
  else scalar s

/-- A value whose arrays and inline tables nest at most `depth` deep. -/
def value : Nat → Reader Value
  | 0 => atom
  | depth + 1 => fun s =>
    match s with
    | '[' :: r => (arrayItems (value depth) s.length r).map fun (vs, r) => (.array vs, r)
    | '\x7b' :: r => (inlineTable (value depth) r).map fun (es, r) => (.table es, r)
    | s => atom s

/-! ## Statements -/

/-- A line of a document that says something. -/
inductive Statement where
  | assign (path : List String) (v : Value)
  | header (path : List String)
  | element (path : List String)

/-- The header of a table or of an element of an array of tables, after its first bracket. -/
def header : Reader Statement
  | '[' :: s => do
    let (path, s) ← key maxDepth s
    some (.element path, ← after? ']' (← after? ']' s))
  | s => do
    let (path, s) ← key maxDepth s
    some (.header path, ← after? ']' s)

/-- The statements of a document. The number bounds the lines. -/
def statements : Nat → List Char → Option (List Statement)
  | 0, _ => none
  | n + 1, s =>
    match blank s with
    | [] => some []
    | '#' :: r => (lineEnd ('#' :: r)).bind (statements n)
    | '[' :: r => do
      let (statement, s) ← header r
      (statements n (← lineEnd s)).map (statement :: ·)
    | s =>
      match newline? s with
      | some r => statements n r
      | none => do
        let ((path, v), s) ← keyValue (value maxDepth) s
        (statements n (← lineEnd s)).map (.assign path v :: ·)

/-! ## Documents -/

/-- A tree under construction and the table that assignments go to. -/
structure Builder where
  entries : Tree.Entries
  current : List String

/-- Obeys a statement, or refuses it because its keys clash with earlier ones. -/
def Builder.obey (b : Builder) : Statement → Option Builder
  | .assign path v =>
    (Tree.change (Tree.addValue v path) b.current b.entries).map fun es => ⟨es, b.current⟩
  | .header path =>
    match path.getLast? with
    | none => none
    | some last => (Tree.change (Tree.open? last) path.dropLast b.entries).map fun es => ⟨es, path⟩
  | .element path =>
    match path.getLast? with
    | none => none
    | some last =>
      (Tree.change (Tree.append? last) path.dropLast b.entries).map fun es => ⟨es, path⟩

/-- The table that a document writes. A byte order mark in front is dropped. -/
def parse? (text : String) : Option Table := do
  let s := match text.toList with
    | c :: r => if c = Char.ofNat 0xFEFF then r else c :: r
    | [] => []
  let lines ← statements (s.length + 1) s
  let built ← lines.foldlM Builder.obey ⟨[], []⟩
  some (Tree.finishEntries built.entries)

end LinkageAudit.Toml

/-!
# JSON values and their text

The values that structured reports are made of. Numbers are natural, and an object keeps the order
of its fields.

* `Json.text`: a value over several lines, each level indented by two spaces.
-/

namespace LinkageAudit

/-- A JSON value. -/
inductive Json where
  | bool (b : Bool)
  | number (n : Nat)
  | string (s : String)
  | array (items : List Json)
  | object (fields : List (String × Json))
  deriving Repr

namespace Json

/-- A character inside quotes. Quotes, backslashes and control characters are escaped, the common
ones by a letter. -/
def escape (c : Char) : List Char :=
  if c = '"' then ['\\', '"']
  else if c = '\\' then ['\\', '\\']
  else if c = '\n' then ['\\', 'n']
  else if c = '\r' then ['\\', 'r']
  else if c = '\t' then ['\\', 't']
  else if c = '\x08' then ['\\', 'b']
  else if c = '\x0c' then ['\\', 'f']
  else if c.toNat < 0x20 then
    ['\\', 'u', '0', '0', Nat.digitChar (c.toNat / 16), Nat.digitChar (c.toNat % 16)]
  else [c]

/-- A string in quotes. -/
def quote (s : String) : List Char := '"' :: s.toList.flatMap escape ++ ['"']

/-- The spaces in front of a line. -/
def indentation (depth : Nat) : List Char := List.replicate (2 * depth) ' '

/-- Items between brackets, each on a line of its own; nothing between the brackets if there are
no items. -/
def block (opening closing : Char) (depth : Nat) (items : List (List Char)) : List Char :=
  if items.isEmpty then [opening, closing]
  else
    let lines := items.map fun item => '\n' :: indentation (depth + 1) ++ item
    opening :: [','].intercalate lines ++ '\n' :: indentation depth ++ [closing]

mutual

/-- The characters of a value that starts on a line of a depth. -/
def render (depth : Nat) : Json → List Char
  | bool true => "true".toList
  | bool false => "false".toList
  | number n => (toString n).toList
  | string s => quote s
  | array items => block '[' ']' depth (renderItems (depth + 1) items)
  | object fields => block '\x7b' '\x7d' depth (renderFields (depth + 1) fields)

/-- The items of an array, one by one. -/
def renderItems (depth : Nat) : List Json → List (List Char)
  | [] => []
  | v :: vs => render depth v :: renderItems depth vs

/-- The fields of an object, one by one. -/
def renderFields (depth : Nat) : List (String × Json) → List (List Char)
  | [] => []
  | (key, v) :: fields => (quote key ++ ':' :: ' ' :: render depth v) :: renderFields depth fields

end

/-- The text of a value. -/
def text (v : Json) : String := String.ofList (v.render 0)

end Json

end LinkageAudit

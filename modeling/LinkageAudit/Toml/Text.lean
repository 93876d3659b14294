/-!
# Characters, blanks and strings of TOML

Readers take the characters that are left and give what they read and the rest.

* `Toml.blank`, `Toml.gap`: what may stand between tokens, on a line and across lines.
* `Toml.lineEnd`: the end of a line or of the document, after blanks and a comment.
* `Toml.quoted`: a string of any of the four kinds.
-/

namespace LinkageAudit.Toml

/-- Reads something at the front of the characters that are left. -/
abbrev Reader (α : Type) := List Char → Option (α × List Char)

/-- A space or a tab. -/
def isBlank (c : Char) : Bool := c = ' ' || c = '\t'

/-- A character that may stand in comments and, apart from the delimiter, in strings: no control
character but the tab. -/
def isPlain (c : Char) : Bool := c = '\t' || (0x20 ≤ c.toNat && c.toNat ≠ 0x7F)

/-- The rest after spaces and tabs. -/
def blank (s : List Char) : List Char := s.dropWhile isBlank

/-- The rest after a line break. A carriage return counts only before a line feed. -/
def newline? : List Char → Option (List Char)
  | '\n' :: r => some r
  | '\r' :: '\n' :: r => some r
  | _ => none

/-- The rest after the end of a line or of the document. -/
def endOfLine? : List Char → Option (List Char)
  | [] => some []
  | s => newline? s

/-- The rest after a comment, if there is one. -/
def comment : List Char → List Char
  | '#' :: r => r.dropWhile isPlain
  | s => s

/-- The rest after blanks, a comment and the end of the line. -/
def lineEnd (s : List Char) : Option (List Char) := endOfLine? (comment (blank s))

/-- The rest after blanks, comments and line breaks, from inside a comment or from outside. A
comment must end in a line break. -/
def gapFrom (inComment : Bool) : List Char → Option (List Char)
  | [] => if inComment then none else some []
  | '\n' :: r => gapFrom false r
  | '\r' :: '\n' :: r => gapFrom false r
  | c :: r =>
    if inComment then if isPlain c then gapFrom true r else none
    else if isBlank c then gapFrom false r
    else if c = '#' then gapFrom true r
    else some (c :: r)

/-- The rest after blanks, comments and line breaks. -/
def gap (s : List Char) : Option (List Char) := gapFrom false s

/-! ## Strings -/

/-- The value of a digit in bases up to sixteen. -/
def digitValue? (c : Char) : Option Nat :=
  if '0' ≤ c ∧ c ≤ '9' then some (c.toNat - '0'.toNat)
  else if 'a' ≤ c ∧ c ≤ 'f' then some (c.toNat - 'a'.toNat + 10)
  else if 'A' ≤ c ∧ c ≤ 'F' then some (c.toNat - 'A'.toNat + 10)
  else none

/-- The character of a code point that has one. -/
def charOf? (n : Nat) : Option Char := if n.isValidChar then some (Char.ofNat n) else none

/-- The character after a backslash and a letter. -/
def escape? : Char → Option Char
  | 'b' => some '\x08'
  | 't' => some '\t'
  | 'n' => some '\n'
  | 'f' => some '\x0c'
  | 'r' => some '\r'
  | '"' => some '"'
  | '\\' => some '\\'
  | _ => none

/-- Puts a character in front of what was read. -/
def push (c : Char) (r : Option (List Char × List Char)) : Option (List Char × List Char) :=
  r.map fun (cs, rest) => (c :: cs, rest)

/-- What ends a string over several lines: three delimiters, with at most two more of them in
front that belong to the string. `none` where fewer than three stand. -/
def closing? (delimiter : Char) (s : List Char) : Option (List Char × List Char) :=
  let run := (s.takeWhile (· = delimiter)).length
  if run < 3 then none
  else
    let extra := min (run - 3) 2
    some (List.replicate extra delimiter, s.drop (extra + 3))

/-- Where a reader stands inside a string with escapes. -/
inductive EscapeState where
  /-- Between characters; after a trimmed line break, blanks and line breaks are dropped. -/
  | text (trimming : Bool)
  /-- After a backslash. -/
  | escape
  /-- Before more digits of a code point. -/
  | digits (more value : Nat)
  /-- After a backslash and a blank: only a line break may follow. -/
  | lineBreak
  deriving DecidableEq, Repr

/-- The content of a string with escapes, up to its end. -/
def escaped (multiline : Bool) : EscapeState → Reader (List Char)
  | _, [] => none
  | .text trimming, c :: r =>
    if c = '\\' then escaped multiline .escape r
    else if c = '"' then
      if multiline then
        match closing? '"' (c :: r) with
        | some found => some found
        | none => push c (escaped multiline (.text false) r)
      else some ([], r)
    else if c = '\n' then
      if trimming then escaped multiline (.text true) r
      else if multiline then push c (escaped multiline (.text false) r)
      else none
    else if c = '\r' then
      match r with
      | '\n' :: r =>
        if trimming then escaped multiline (.text true) r
        else if multiline then push '\n' (escaped multiline (.text false) r)
        else none
      | _ => none
    else if trimming && isBlank c then escaped multiline (.text true) r
    else if isPlain c then push c (escaped multiline (.text false) r)
    else none
  | .escape, c :: r =>
    if c = 'u' then escaped multiline (.digits 3 0) r
    else if c = 'U' then escaped multiline (.digits 7 0) r
    else match escape? c with
      | some x => push x (escaped multiline (.text false) r)
      | none =>
        if !multiline then none
        else if c = '\n' then escaped multiline (.text true) r
        else if c = '\r' then
          match r with
          | '\n' :: r => escaped multiline (.text true) r
          | _ => none
        else if isBlank c then escaped multiline .lineBreak r
        else none
  | .lineBreak, c :: r =>
    if c = '\n' then escaped multiline (.text true) r
    else if c = '\r' then
      match r with
      | '\n' :: r => escaped multiline (.text true) r
      | _ => none
    else if isBlank c then escaped multiline .lineBreak r
    else none
  | .digits more value, c :: r =>
    match digitValue? c with
    | none => none
    | some d =>
      match more with
      | more + 1 => escaped multiline (.digits more (value * 16 + d)) r
      | 0 =>
        match charOf? (value * 16 + d) with
        | some x => push x (escaped multiline (.text false) r)
        | none => none

/-- The content of a string without escapes, up to its end. -/
def literal (multiline : Bool) : Reader (List Char)
  | [] => none
  | c :: r =>
    if c = '\'' then
      if multiline then
        match closing? '\'' (c :: r) with
        | some found => some found
        | none => push c (literal multiline r)
      else some ([], r)
    else if c = '\n' then if multiline then push c (literal multiline r) else none
    else if c = '\r' then
      match r with
      | '\n' :: r => if multiline then push '\n' (literal multiline r) else none
      | _ => none
    else if isPlain c then push c (literal multiline r)
    else none

/-- A string on one line. -/
def shortString : Reader String
  | '"' :: r => (escaped false (.text false) r).map fun (cs, r) => (String.ofList cs, r)
  | '\'' :: r => (literal false r).map fun (cs, r) => (String.ofList cs, r)
  | _ => none

/-- A string of any kind. A line break right after three opening delimiters is dropped. -/
def quoted : Reader String
  | '"' :: '"' :: '"' :: r =>
    (escaped true (.text false) ((newline? r).getD r)).map fun (cs, r) => (String.ofList cs, r)
  | '\'' :: '\'' :: '\'' :: r =>
    (literal true ((newline? r).getD r)).map fun (cs, r) => (String.ofList cs, r)
  | s => shortString s

end LinkageAudit.Toml

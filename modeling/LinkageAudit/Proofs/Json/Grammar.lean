import LinkageAudit.Json
import Mathlib.Data.List.Forall2

/-!
# The grammar of JSON

What standard JSON texts stand for, whoever wrote them: any blanks, any numerals, any escapes.

* `Json.Value`: what a text stands for. Numbers are exact, and an object keeps its members as they
  stand in the text.
* `Json.Numeral`, `Json.SpellsString`: the texts of numbers and of strings.
* `Json.Spells`: the texts of values, built from `Json.Listed` and `Json.Member`.
* `Json.IsText`: a whole text, which is a value with blanks around it.
-/

namespace LinkageAudit.Json

/-- What a JSON text stands for. -/
inductive Value where
  | null
  | bool (b : Bool)
  | number (q : Rat)
  | string (s : String)
  | array (items : List Value)
  | object (members : List (String × Value))
  deriving Repr

/-- The characters that may stand between tokens. -/
def isBlank (c : Char) : Bool := c = ' ' || c = '\t' || c = '\n' || c = '\r'

/-- Blanks only, or nothing. -/
def Blank (cs : List Char) : Prop := ∀ c ∈ cs, isBlank c

/-! ## Numerals -/

/-- One digit or more. -/
def Digits (cs : List Char) : Prop := cs ≠ [] ∧ ∀ c ∈ cs, c.isDigit

/-- What a run of digits counts to. -/
def count (cs : List Char) : Nat := Nat.ofDigitChars 10 cs 0

/-- The part in front of the point. Only the numeral zero begins with a zero. -/
def Whole (cs : List Char) : Prop := Digits cs ∧ (cs.head? = some '0' → cs = ['0'])

/-- The part behind the point, with its digits; there may be none. -/
inductive Fraction : List Char → List Char → Prop where
  | none : Fraction [] []
  | some {digits : List Char} (h : Digits digits) : Fraction ('.' :: digits) digits

/-- The power of ten; there may be none. -/
inductive Exponent : List Char → Int → Prop where
  | none : Exponent [] 0
  | positive {e : Char} {plus digits : List Char} (he : e = 'e' ∨ e = 'E')
      (hplus : plus = [] ∨ plus = ['+']) (h : Digits digits) :
      Exponent (e :: plus ++ digits) (count digits)
  | negative {e : Char} {digits : List Char} (he : e = 'e' ∨ e = 'E') (h : Digits digits) :
      Exponent (e :: '-' :: digits) (-count digits)

/-- A numeral without its sign. -/
inductive Magnitude : List Char → Rat → Prop where
  | intro {whole fraction digits exponent : List Char} {n : Int} (hwhole : Whole whole)
      (hfraction : Fraction fraction digits) (hexponent : Exponent exponent n) :
      Magnitude (whole ++ fraction ++ exponent)
        (count (whole ++ digits) * (10 : Rat) ^ (n - digits.length))

/-- The decimal numerals. -/
inductive Numeral : List Char → Rat → Prop where
  | positive {cs : List Char} {q : Rat} (h : Magnitude cs q) : Numeral cs q
  | negative {cs : List Char} {q : Rat} (h : Magnitude cs q) : Numeral ('-' :: cs) (-q)

/-! ## Strings -/

/-- What a letter after a backslash stands for. -/
def unescape? (letter : Char) : Option Char :=
  match letter with
  | '"' => some '"'
  | '\\' => some '\\'
  | '/' => some '/'
  | 'b' => some '\x08'
  | 'f' => some '\x0c'
  | 'n' => some '\n'
  | 'r' => some '\r'
  | 't' => some '\t'
  | _ => none

/-- The number of a hexadecimal digit, of either case. -/
def hexDigit? (c : Char) : Option Nat :=
  if '0' ≤ c ∧ c ≤ '9' then some (c.toNat - '0'.toNat)
  else if 'a' ≤ c ∧ c ≤ 'f' then some (c.toNat - 'a'.toNat + 10)
  else if 'A' ≤ c ∧ c ≤ 'F' then some (c.toNat - 'A'.toNat + 10)
  else none

/-- The number of four hexadecimal digits. -/
def codeUnit? (digits : List Char) : Option Nat :=
  match digits with
  | [a, b, c, d] => do
    return (((← hexDigit? a) * 16 + (← hexDigit? b)) * 16 + (← hexDigit? c)) * 16 + (← hexDigit? d)
  | _ => none

/-- One character between quotes. A code unit of its own is never half of a surrogate pair, since no
character has such a number. -/
inductive SpellsChar : List Char → Char → Prop where
  | plain {c : Char} (hquote : c ≠ '"') (hbackslash : c ≠ '\\') (hcontrol : 0x20 ≤ c.toNat) :
      SpellsChar [c] c
  | letter {l c : Char} (h : unescape? l = some c) : SpellsChar ['\\', l] c
  | unit {digits : List Char} {c : Char} (h : codeUnit? digits = some c.toNat) :
      SpellsChar ('\\' :: 'u' :: digits) c
  | pair {digits digits' : List Char} {high low : Nat} {c : Char}
      (h : codeUnit? digits = some high) (h' : codeUnit? digits' = some low)
      (hhigh : 0xD800 ≤ high ∧ high < 0xDC00) (hlow : 0xDC00 ≤ low ∧ low < 0xE000)
      (hc : c.toNat = 0x10000 + (high - 0xD800) * 0x400 + (low - 0xDC00)) :
      SpellsChar ('\\' :: 'u' :: digits ++ '\\' :: 'u' :: digits') c

/-- A string between quotes. -/
inductive SpellsString : List Char → String → Prop where
  | intro {units : List (List Char)} {s : String} (h : List.Forall₂ SpellsChar units s.toList) :
      SpellsString ('"' :: units.flatten ++ ['"']) s

/-! ## Values -/

section Tokens
variable {α : Type} (R : List Char → α → Prop)

/-- Something with blanks around it. -/
inductive Padded : List Char → α → Prop where
  | intro {before cs after : List Char} {a : α} (hbefore : Blank before) (h : R cs a)
      (hafter : Blank after) : Padded (before ++ cs ++ after) a

/-- A member of an object: its name, a colon and its value. -/
inductive Member : List Char → String × α → Prop where
  | intro {name cs : List Char} {s : String} {a : α} (hname : Padded SpellsString name s)
      (h : Padded R cs a) : Member (name ++ ':' :: cs) (s, a)

/-- What stands between brackets: items with commas between them, or blanks. -/
inductive Listed : List Char → List α → Prop where
  | blank {cs : List Char} (h : Blank cs) : Listed cs []
  | items {texts : List (List Char)} {as : List α} (hne : texts ≠ [])
      (h : List.Forall₂ R texts as) : Listed ([','].intercalate texts) as

end Tokens

/-- The texts of values, with no blanks around them. -/
inductive Spells : List Char → Value → Prop where
  | null : Spells ['n', 'u', 'l', 'l'] .null
  | boolTrue : Spells ['t', 'r', 'u', 'e'] (.bool true)
  | boolFalse : Spells ['f', 'a', 'l', 's', 'e'] (.bool false)
  | number {cs : List Char} {q : Rat} (h : Numeral cs q) : Spells cs (.number q)
  | string {cs : List Char} {s : String} (h : SpellsString cs s) : Spells cs (.string s)
  | array {cs : List Char} {items : List Value} (h : Listed (Padded Spells) cs items) :
      Spells ('[' :: cs ++ [']']) (.array items)
  | object {cs : List Char} {members : List (String × Value)}
      (h : Listed (Member Spells) cs members) :
      Spells ('\x7b' :: cs ++ ['\x7d']) (.object members)

/-- A whole text. -/
def IsText (cs : List Char) (v : Value) : Prop := Padded Spells cs v

end LinkageAudit.Json

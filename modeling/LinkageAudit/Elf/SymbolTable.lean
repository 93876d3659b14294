import LinkageAudit.Elf.Section
import LinkageAudit.Symbol
import LinkageAudit.Text.Utf8

/-!
# Symbol table

* `SymbolTable.ofSections`: the one symbol table of an image; any other number is refused.
* `SymbolTable.judge`: what one entry comes to: a symbol, nothing, or a fault.
* `SymbolTable.tallyAll`: one pass over all entries but number 0, up to the first fault. It keeps the
  symbols and counts the entries that come to nothing.

Local symbols, section and file names and symbols without a name come to nothing. Their type,
binding and section index must be supported all the same, but the names of the first three are
never looked up. So an entry is dropped at one of two places, before its name is looked up or after.
-/

namespace LinkageAudit.Elf

/-- How far a symbol is visible. -/
inductive Binding where
  | fileLocal
  | global
  | weak
  | unique
  deriving DecidableEq, Repr

/-- The binding of a raw number. -/
def Binding.ofCode? : Nat → Option Binding
  | 0 => some fileLocal
  | 1 => some global
  | 2 => some weak
  | 10 => some unique
  | _ => none

/-- What a symbol stands for. -/
inductive SymbolType where
  | untyped
  | object
  | function
  | sectionName
  | fileName
  | common
  | threadLocal
  | indirectFunction
  deriving DecidableEq, Repr

namespace SymbolType

/-- The type of a raw number. -/
def ofCode? : Nat → Option SymbolType
  | 0 => some untyped
  | 1 => some object
  | 2 => some function
  | 3 => some sectionName
  | 4 => some fileName
  | 5 => some common
  | 6 => some threadLocal
  | 10 => some indirectFunction
  | _ => none

/-- Entries that a compiler makes for itself. -/
def isAncillary : SymbolType → Bool
  | sectionName | fileName => true
  | _ => false

/-- The kind that a type is reported as. -/
def kind : SymbolType → Symbol.Kind
  | function | indirectFunction => .function
  | object | common | threadLocal => .object
  | untyped | sectionName | fileName => .other

end SymbolType

/-- Where a symbol lives. -/
inductive Placement where
  | undefined
  | inSection
  | absolute
  | common
  | extended
  deriving DecidableEq, Repr

/-- The placement of a raw section index. Indices from `FF00` on are reserved, and of those only
three have a meaning. -/
def Placement.ofCode? (raw : Nat) : Option Placement :=
  if raw = 0 then some undefined
  else if raw < 0xFF00 then some inSection
  else if raw = 0xFFF1 then some absolute
  else if raw = 0xFFF2 then some common
  else if raw = 0xFFFF then some extended
  else none

/-- Everything that is placed somewhere is defined, common and absolute symbols included. -/
def Placement.isDefined (p : Placement) : Bool := p != undefined

/-- Start and end of a string table in the image. -/
structure StringTable where
  start : Nat
  stop : Nat
  deriving DecidableEq, Repr

/-- The bytes before the first zero byte among the next `n` bytes. -/
def untilZero (image : ByteArray) (pos : Nat) : Nat → Option (List UInt8)
  | 0 => none
  | n + 1 =>
    let b := byteAt image pos
    if b = 0 then some [] else (untilZero image (pos + 1) n).map (b :: ·)

/-- The string at an offset of a string table. It must end inside the table, and the table inside
the image. -/
def StringTable.get? (t : StringTable) (image : ByteArray) (offset : Nat) : Option (List UInt8) :=
  let pos := t.start + offset
  if pos ≤ t.stop ∧ t.stop ≤ image.size then untilZero image pos (t.stop - pos) else none

/-- The fields of one symbol table entry. -/
structure Entry where
  name : Nat
  info : Nat
  sectionIndex : Nat
  deriving DecidableEq, Repr

/-- The raw type: the low half of the info byte. -/
def Entry.rawType (e : Entry) : Nat := e.info % 16

/-- The raw binding: the high half of the info byte. -/
def Entry.rawBinding (e : Entry) : Nat := e.info / 16

/-- The entry is local or names a section or a file, so that it comes to nothing whatever its name
is. -/
def Entry.Unlisted (e : Entry) : Prop := e.rawBinding = 0 ∨ e.rawType = 3 ∨ e.rawType = 4

instance (e : Entry) : Decidable e.Unlisted := inferInstanceAs (Decidable (_ ∨ _))

/-- Reads the entry at a position. -/
def Entry.read (format : Format) (image : ByteArray) (pos : Nat) : Entry :=
  let layout := format.layout.symbol
  let number (field : Field) : Nat := field.read format.order image pos
  { name := number layout.name
    info := number layout.info
    sectionIndex := number layout.sectionIndex }

/-- The symbols kept so far, and how many entries were dropped at either place. -/
structure Tally where
  symbols : Array Symbol
  unlisted : Nat
  nameless : Nat
  deriving DecidableEq, Repr

namespace Tally

/-- The tally before any entry. -/
def empty : Tally := ⟨#[], 0, 0⟩

/-- The symbols kept so far, in table order. -/
def kept (tally : Tally) : List Symbol := tally.symbols.toList

/-- The number of entries dropped so far. -/
def discarded (tally : Tally) : Nat := tally.unlisted + tally.nameless

/-- Adds an entry that came to a symbol or to nothing. -/
def add (tally : Tally) (e : Entry) : Option Symbol → Tally
  | some s => { tally with symbols := tally.symbols.push s }
  | none =>
    if e.Unlisted then { tally with unlisted := tally.unlisted + 1 }
    else { tally with nameless := tally.nameless + 1 }

variable {tally : Tally} {e : Entry}

theorem add_of_unlisted (h : e.Unlisted) :
    tally.add e none = { tally with unlisted := tally.unlisted + 1 } := if_pos h

theorem add_of_not_unlisted (h : ¬ e.Unlisted) :
    tally.add e none = { tally with nameless := tally.nameless + 1 } := if_neg h

@[simp] theorem kept_add {v : Option Symbol} : (tally.add e v).kept = tally.kept ++ v.toList := by
  cases v with
  | some s => exact Array.toList_push
  | none =>
    rw [Option.toList_none, List.append_nil, add]
    split <;> rfl

@[simp] theorem discarded_add {v : Option Symbol} :
    (tally.add e v).discarded = tally.discarded + if v.isNone then 1 else 0 := by
  cases v with
  | some s => rfl
  | none =>
    by_cases h : e.Unlisted
    · rw [add_of_unlisted h]
      exact Nat.add_right_comm tally.unlisted 1 tally.nameless
    · rw [add_of_not_unlisted h]
      rfl

end Tally

/-- A symbol table: where its entries are, how many there are, and the strings that name them.
Without strings no name can be looked up. -/
structure SymbolTable where
  format : Format
  offset : Nat
  count : Nat
  strings : Option StringTable
  deriving DecidableEq, Repr

namespace SymbolTable

/-- The string table that a section refers to; none if it refers to section 0. -/
def linkedStrings (sections : List Section) (link : Nat) :
    Except SymbolTableError (Option StringTable) :=
  if link = 0 then .ok none
  else match sections[link]? with
    | none => .error .linkIndex
    | some s =>
      if s.kind ≠ Section.stringTable then .error .linkKind
      else if s.offset + s.length < 0x1_0000_0000_0000_0000 then
        .ok (some ⟨s.offset, s.offset + s.length⟩)
      else .error .linkRange

/-- Extended section indices of the symbol table `index` are aligned whole words in the image.
They are never read. -/
def extendedIndicesFit (image : ByteArray) (sections : List Section) (index : Nat) : Bool :=
  sections.all fun s =>
    s.kind != Section.extendedIndices || s.link != index
      || inImage image s.offset s.length && s.offset % 4 == 0 && s.length % 4 == 0

/-- The symbol table in section number `index`. -/
def ofSection (format : Format) (image : ByteArray) (sections : List Section) (s : Section)
    (index : Nat) : Except SymbolTableError SymbolTable := do
  let size := format.layout.symbol.size
  let fits := inImage image s.offset s.length && s.length % size == 0
    && s.offset % format.layout.alignment == 0
  if !fits then throw .tableRange
  let strings ← linkedStrings sections s.link
  if !extendedIndicesFit image sections index then throw .extendedIndices
  return ⟨format, s.offset, s.length / size, strings⟩

/-- The one symbol table of an image. -/
def ofSections (format : Format) (image : ByteArray) (sections : List Section) :
    Except Error SymbolTable :=
  match sections.zipIdx.filter fun (s, _) => s.kind == Section.symbolTable with
  | [(s, index)] => (ofSection format image sections s index).mapError .symbolTable
  | found => .error (.symbolTableCount found.length)

/-- The entry with a number. -/
def entry (t : SymbolTable) (image : ByteArray) (index : Nat) : Entry :=
  Entry.read t.format image (t.offset + index * t.format.layout.symbol.size)

/-- The name of an entry. -/
def name? (t : SymbolTable) (image : ByteArray) (e : Entry) : Option (List UInt8) :=
  t.strings.bind fun s => s.get? image e.name

/-- What an entry comes to: a symbol to keep, nothing, or a fault. -/
def judge (t : SymbolTable) (image : ByteArray) (e : Entry) : Except SymbolError (Option Symbol) :=
  match SymbolType.ofCode? e.rawType with
  | none => .error (.unsupportedType e.rawType)
  | some type =>
    match Binding.ofCode? e.rawBinding with
    | none => .error (.unsupportedBinding e.rawBinding)
    | some binding =>
      match Placement.ofCode? e.sectionIndex with
      | none => .error (.unsupportedSection e.sectionIndex)
      | some placement =>
        if type.isAncillary || binding == .fileLocal then .ok none
        else match t.name? image e with
          | none => .error .unreadableName
          | some [] => .ok none
          | some bytes => .ok (some ⟨Utf8.decodeLossy bytes, type.kind, placement.isDefined⟩)

/-- What the entry with a number comes to. A fault shows the number. -/
def judgeAt (t : SymbolTable) (image : ByteArray) (index : Nat) : Except Error (Option Symbol) :=
  (t.judge image (t.entry image index)).mapError (.symbol index)

/-- Judges the entry with a number and adds it. -/
def tallyEntry (t : SymbolTable) (image : ByteArray) (tally : Tally) (index : Nat) :
    Except Error Tally :=
  (t.judgeAt image index).map (tally.add (t.entry image index))

/-- One pass over all entries but number 0, up to the first fault. -/
def tallyAll (t : SymbolTable) (image : ByteArray) : Except Error Tally :=
  (List.range' 1 (t.count - 1)).foldlM (t.tallyEntry image) .empty

end SymbolTable

end LinkageAudit.Elf

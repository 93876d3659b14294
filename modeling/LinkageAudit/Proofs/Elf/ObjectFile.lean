import LinkageAudit.Elf.Section
import LinkageAudit.Proofs.Elf.Encoding

/-!
# Object files

What an object file with one symbol table consists of, record by record, and when an image lays it
out. Nothing here refers to how an image is read.

* `FileHeader.cells`, `SectionHeader.cells`, `SymbolRecord.cells`: the numbers of each record, in
  the order of the format.
* `ObjectFile.LaysOut`: an image is the object file with the symbols of a list.
-/

namespace LinkageAudit.Elf

/-! ## Formats -/

namespace WordSize

/-- The byte that names a word size. -/
def code : WordSize → UInt8
  | bits32 => 1
  | bits64 => 2

/-- The bytes of an address, an offset or a size. Headers and symbol tables are aligned to it. -/
def width : WordSize → Nat
  | bits32 => 4
  | bits64 => 8

/-- The bytes of a file header. -/
def fileHeaderSize : WordSize → Nat
  | bits32 => 52
  | bits64 => 64

/-- The bytes of a section header. -/
def sectionHeaderSize : WordSize → Nat
  | bits32 => 40
  | bits64 => 64

/-- The bytes of a symbol table entry. -/
def entrySize : WordSize → Nat
  | bits32 => 16
  | bits64 => 24

end WordSize

/-- The byte that names a byte order. -/
def ByteOrder.code : ByteOrder → UInt8
  | .little => 1
  | .big => 2

/-- The bytes that tell the format of an image. Nine more follow before the file header proper,
for the operating system. -/
def Format.identification (f : Format) : List UInt8 :=
  [0x7F, 0x45, 0x4C, 0x46] ++ [f.wordSize.code, f.order.code, 1]

/-! ## Records -/

/-- The numbers of a file header. -/
structure FileHeader where
  fileType : Nat
  machine : Nat
  version : Nat
  entryPoint : Nat
  programTable : Nat
  sectionTable : Nat
  flags : Nat
  headerSize : Nat
  programSize : Nat
  programCount : Nat
  sectionSize : Nat
  sectionCount : Nat
  nameSection : Nat
  deriving DecidableEq, Repr

/-- The numbers of a file header in order, after the identification. -/
def FileHeader.cells (h : FileHeader) (w : WordSize) : List Cell :=
  [⟨2, h.fileType⟩, ⟨2, h.machine⟩, ⟨4, h.version⟩, ⟨w.width, h.entryPoint⟩,
    ⟨w.width, h.programTable⟩, ⟨w.width, h.sectionTable⟩, ⟨4, h.flags⟩, ⟨2, h.headerSize⟩,
    ⟨2, h.programSize⟩, ⟨2, h.programCount⟩, ⟨2, h.sectionSize⟩, ⟨2, h.sectionCount⟩,
    ⟨2, h.nameSection⟩]

/-- The numbers of a section header. -/
structure SectionHeader where
  name : Nat
  kind : Nat
  flags : Nat
  address : Nat
  offset : Nat
  length : Nat
  link : Nat
  info : Nat
  alignment : Nat
  recordSize : Nat
  deriving DecidableEq, Repr

/-- The numbers of a section header in order. -/
def SectionHeader.cells (s : SectionHeader) (w : WordSize) : List Cell :=
  [⟨4, s.name⟩, ⟨4, s.kind⟩, ⟨w.width, s.flags⟩, ⟨w.width, s.address⟩, ⟨w.width, s.offset⟩,
    ⟨w.width, s.length⟩, ⟨4, s.link⟩, ⟨4, s.info⟩, ⟨w.width, s.alignment⟩,
    ⟨w.width, s.recordSize⟩]

/-- A symbol as a symbol table describes it, with a type, a binding and a section index that are
supported. -/
structure SymbolRecord where
  name : List UInt8
  type : Nat
  binding : Nat
  sectionIndex : Nat
  other : Nat
  value : Nat
  size : Nat
  zero_notMem_name : 0 ∉ name
  type_supported : type ∈ [0, 1, 2, 3, 4, 5, 6, 10]
  binding_supported : binding ∈ [0, 1, 2, 10]
  sectionIndex_supported : sectionIndex < 0xFF00 ∨ sectionIndex ∈ [0xFFF1, 0xFFF2, 0xFFFF]

/-- The numbers of a symbol in order, its name being given by an offset. Type and binding share a
byte. The word sizes do not agree on the order. -/
def SymbolRecord.cells (r : SymbolRecord) (w : WordSize) (nameOffset : Nat) : List Cell :=
  match w with
  | .bits32 => [⟨4, nameOffset⟩, ⟨4, r.value⟩, ⟨4, r.size⟩, ⟨1, 16 * r.binding + r.type⟩,
      ⟨1, r.other⟩, ⟨2, r.sectionIndex⟩]
  | .bits64 => [⟨4, nameOffset⟩, ⟨1, 16 * r.binding + r.type⟩, ⟨1, r.other⟩,
      ⟨2, r.sectionIndex⟩, ⟨8, r.value⟩, ⟨8, r.size⟩]

theorem widthOf_cells_fileHeader (h : FileHeader) (w : WordSize) :
    16 + widthOf (h.cells w) = w.fileHeaderSize := by
  cases w <;> simp [FileHeader.cells, widthOf, WordSize.width, WordSize.fileHeaderSize]

theorem widthOf_cells_sectionHeader (s : SectionHeader) (w : WordSize) :
    widthOf (s.cells w) = w.sectionHeaderSize := by
  cases w <;> simp [SectionHeader.cells, widthOf, WordSize.width, WordSize.sectionHeaderSize]

theorem widthOf_cells_symbolRecord (r : SymbolRecord) (w : WordSize) (nameOffset : Nat) :
    widthOf (r.cells w nameOffset) = w.entrySize := by
  cases w <;> simp [SymbolRecord.cells, widthOf, WordSize.entrySize]

/-! ## Object files -/

/-- The headers of an object file, and which sections hold its symbols and their names. -/
structure ObjectFile where
  format : Format
  header : FileHeader
  sections : List SectionHeader
  symbolIndex : Nat
  symbols : SectionHeader
  strings : SectionHeader
  deriving DecidableEq, Repr

namespace ObjectFile

variable (o : ObjectFile) (image : ByteArray) (records : List SymbolRecord)

/-- The index of the section that names the sections. One too large for the file header is the
link of section 0. -/
def nameIndex : Nat :=
  if o.header.nameSection = 0xFFFF then (o.sections.head?.map (·.link)).getD 0
  else o.header.nameSection

/-- The image has the headers of an object file where they belong. -/
structure HasHeaders : Prop where
  identification : HasBytes image 0 o.format.identification
  fileHeader : HasRecord image o.format.order 16 (o.header.cells o.format.wordSize)
  table_ne_zero : o.header.sectionTable ≠ 0
  table_aligned : o.format.wordSize.width ∣ o.header.sectionTable
  sectionSize : o.header.sectionSize = o.format.wordSize.sectionHeaderSize
  -- A count too large for the file header is the length of section 0.
  sectionCount : o.sections.length = if o.header.sectionCount = 0
    then (o.sections.head?.map (·.length)).getD 0 else o.header.sectionCount
  sectionHeaders : ∀ i s, o.sections[i]? = some s → HasRecord image o.format.order
    (o.header.sectionTable + i * o.format.wordSize.sectionHeaderSize) (s.cells o.format.wordSize)
  nameIndex_ne_zero : o.nameIndex ≠ 0
  names : ∃ s, o.sections[o.nameIndex]? = some s ∧
    (s.kind = 8 ∨ s.offset + s.length < 2 ^ 64)

/-- The image is an object file with one symbol table, which holds a null entry and then the
symbols of the list, and a string table that holds their names. -/
structure LaysOut : Prop extends o.HasHeaders image where
  symbols_mem : o.sections[o.symbolIndex]? = some o.symbols
  symbols_kind : ∀ i s, o.sections[i]? = some s → (s.kind = 2 ↔ i = o.symbolIndex)
  symbols_aligned : o.format.wordSize.width ∣ o.symbols.offset
  symbols_length : o.symbols.length = (records.length + 1) * o.format.wordSize.entrySize
  symbols_inside : o.symbols.offset + o.symbols.length ≤ image.size
  nullEntry : HasBytes image o.symbols.offset (List.replicate o.format.wordSize.entrySize 0)
  link_ne_zero : o.symbols.link ≠ 0
  strings_mem : o.sections[o.symbols.link]? = some o.strings
  strings_kind : o.strings.kind = 3
  strings_range : o.strings.offset + o.strings.length < 2 ^ 64
  entries : ∀ i r, records[i]? = some r → ∃ nameOffset,
    HasRecord image o.format.order (o.symbols.offset + (i + 1) * o.format.wordSize.entrySize)
      (r.cells o.format.wordSize nameOffset) ∧
    nameOffset + r.name.length < o.strings.length ∧
    HasBytes image (o.strings.offset + nameOffset) (r.name ++ [0])
  strings_inside : o.strings.offset + o.strings.length ≤ image.size
  -- Large section indices of the symbols are whole words in the image.
  extendedIndices : ∀ s ∈ o.sections, s.kind = 18 → s.link = o.symbolIndex →
    s.offset + s.length ≤ image.size ∧ 4 ∣ s.offset ∧ 4 ∣ s.length

end ObjectFile

end LinkageAudit.Elf

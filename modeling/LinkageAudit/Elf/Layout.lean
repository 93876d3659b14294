/-!
# Layout of ELF records

The format comes in two word sizes and two byte orders. The two word sizes differ in the size and
order of the fields of each record, so a layout is a table of field positions; the byte order says
how the bytes of a field make a number.

* `WordSize.layout`: where each field lies in the file header, a section header and a symbol.
* `Field.read`: the number in a field of a record.
-/

namespace LinkageAudit.Elf

/-- Size of addresses and offsets. -/
inductive WordSize where
  | bits32
  | bits64
  deriving DecidableEq, Repr

/-- Order of the bytes of a number. -/
inductive ByteOrder where
  | little
  | big
  deriving DecidableEq, Repr

/-- How numbers and records are laid out in an image. -/
structure Format where
  wordSize : WordSize
  order : ByteOrder
  deriving DecidableEq, Repr

/-- A number inside a record: where it starts and how many bytes it takes. -/
structure Field where
  offset : Nat
  width : Nat
  deriving DecidableEq, Repr

/-- The fields of the file header that say where the sections are. -/
structure HeaderLayout where
  size : Nat
  fileType : Field
  sectionTable : Field
  sectionSize : Field
  sectionCount : Field
  nameSection : Field
  deriving DecidableEq, Repr

/-- The fields of a section header that say what a section holds and where. -/
structure SectionLayout where
  size : Nat
  kind : Field
  offset : Field
  length : Field
  link : Field
  deriving DecidableEq, Repr

/-- The fields of a symbol that say what it is called and what it is. -/
structure SymbolLayout where
  size : Nat
  name : Field
  info : Field
  sectionIndex : Field
  deriving DecidableEq, Repr

/-- The record layouts of one word size. `alignment` is that of section headers and symbols. -/
structure Layout where
  alignment : Nat
  header : HeaderLayout
  sectionHeader : SectionLayout
  symbol : SymbolLayout
  deriving DecidableEq, Repr

/-- The layout of a word size. -/
def WordSize.layout : WordSize → Layout
  | .bits32 =>
    { alignment := 4
      header :=
        { size := 52, fileType := ⟨16, 2⟩, sectionTable := ⟨32, 4⟩, sectionSize := ⟨46, 2⟩
          sectionCount := ⟨48, 2⟩, nameSection := ⟨50, 2⟩ }
      sectionHeader :=
        { size := 40, kind := ⟨4, 4⟩, offset := ⟨16, 4⟩, length := ⟨20, 4⟩, link := ⟨24, 4⟩ }
      symbol :=
        { size := 16, name := ⟨0, 4⟩, info := ⟨12, 1⟩, sectionIndex := ⟨14, 2⟩ } }
  | .bits64 =>
    { alignment := 8
      header :=
        { size := 64, fileType := ⟨16, 2⟩, sectionTable := ⟨40, 8⟩, sectionSize := ⟨58, 2⟩
          sectionCount := ⟨60, 2⟩, nameSection := ⟨62, 2⟩ }
      sectionHeader :=
        { size := 64, kind := ⟨4, 4⟩, offset := ⟨24, 8⟩, length := ⟨32, 8⟩, link := ⟨40, 4⟩ }
      symbol :=
        { size := 24, name := ⟨0, 4⟩, info := ⟨4, 1⟩, sectionIndex := ⟨6, 2⟩ } }

/-- The layout of a format. -/
def Format.layout (f : Format) : Layout := f.wordSize.layout

/-- The byte at a position. It is zero past the end, which every reader rules out beforehand. -/
def byteAt (image : ByteArray) (i : Nat) : UInt8 :=
  if h : i < image.size then image[i] else 0

/-- The number that bytes make, the first byte being the least significant. -/
def littleEndian : List UInt8 → Nat
  | [] => 0
  | b :: bs => b.toNat + 256 * littleEndian bs

/-- The number that bytes make in a byte order. -/
def ByteOrder.number : ByteOrder → List UInt8 → Nat
  | .little, bs => littleEndian bs
  | .big, bs => littleEndian bs.reverse

/-- The bytes of an image from a position on. -/
def bytesAt (image : ByteArray) (pos count : Nat) : List UInt8 :=
  (List.range count).map fun i => byteAt image (pos + i)

/-- The number in a field of the record at a position. -/
def Field.read (field : Field) (order : ByteOrder) (image : ByteArray) (record : Nat) : Nat :=
  order.number (bytesAt image (record + field.offset) field.width)

/-- A range of bytes that lies in an image. -/
def inImage (image : ByteArray) (start length : Nat) : Bool := start + length ≤ image.size

end LinkageAudit.Elf

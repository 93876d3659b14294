import LinkageAudit.Elf.Error
import LinkageAudit.Elf.Layout

/-!
# File header and section table

* `Header.read`: the file header, once its magic, word size, byte order and version are known.
* `Header.sections`: every section header, number 0 included.

Every range is checked against the image before it is read, and offsets are natural numbers, so
no sum of two fields can wrap around and pass a check.
-/

namespace LinkageAudit.Elf

/-- The part of the file header that leads to the sections. -/
structure Header where
  format : Format
  fileType : Nat
  sectionTable : Nat
  sectionSize : Nat
  sectionCount : Nat
  nameSection : Nat
  deriving DecidableEq, Repr

/-- What a section holds, where its bytes are, and the section it refers to. -/
structure Section where
  kind : Nat
  offset : Nat
  length : Nat
  link : Nat
  deriving DecidableEq, Repr

/-- The kind of a symbol table. Tables for dynamic linking are of another kind. -/
def Section.symbolTable : Nat := 2

/-- The kind of a string table. -/
def Section.stringTable : Nat := 3

/-- The kind of a section that takes no room in the image. -/
def Section.withoutBytes : Nat := 8

/-- The kind of a table of section indices too large for a symbol. -/
def Section.extendedIndices : Nat := 18

/-- The file type of a relocatable object. -/
def relocatable : Nat := 1

/-- The word size that the fifth byte of an image names. -/
def WordSize.ofByte? (b : UInt8) : Option WordSize :=
  if b = 1 then some .bits32 else if b = 2 then some .bits64 else none

/-- The byte order that the sixth byte of an image names. -/
def ByteOrder.ofByte? (b : UInt8) : Option ByteOrder :=
  if b = 1 then some .little else if b = 2 then some .big else none

/-- The bytes that every image starts with. -/
def magic : List UInt8 := [0x7F, 0x45, 0x4C, 0x46]

/-- The word size of an image, from its first sixteen bytes. -/
def WordSize.ofImage (image : ByteArray) : Except Error WordSize :=
  if image.size < 16 then .error .magicTruncated
  else if bytesAt image 0 4 ≠ magic then .error .magicUnknown
  else match WordSize.ofByte? (byteAt image 4) with
    | some w => .ok w
    | none => .error .magicUnknown

/-- Reads the file header of a known word size. -/
def Header.ofWordSize (wordSize : WordSize) (image : ByteArray) : Except Error Header :=
  let layout := wordSize.layout.header
  if image.size < layout.size then .error .headerTruncated
  else if byteAt image 6 ≠ 1 then .error .headerUnsupported
  else match ByteOrder.ofByte? (byteAt image 5) with
    | none => .error .headerUnsupported
    | some order =>
      let number (field : Field) : Nat := field.read order image 0
      .ok
        { format := ⟨wordSize, order⟩
          fileType := number layout.fileType
          sectionTable := number layout.sectionTable
          sectionSize := number layout.sectionSize
          sectionCount := number layout.sectionCount
          nameSection := number layout.nameSection }

/-- Reads the file header. -/
def Header.read (image : ByteArray) : Except Error Header := do
  let wordSize ← WordSize.ofImage image
  Header.ofWordSize wordSize image

/-- Reads the section header at a position. -/
def Section.read (format : Format) (image : ByteArray) (pos : Nat) : Section :=
  let layout := format.layout.sectionHeader
  let number (field : Field) : Nat := field.read format.order image pos
  { kind := number layout.kind
    offset := number layout.offset
    length := number layout.length
    link := number layout.link }

/-- The bytes of a section, as offset and length; a section without bytes has no range. -/
def Section.range? (s : Section) : Option (Nat × Nat) :=
  if s.kind = Section.withoutBytes then none else some (s.offset, s.length)

namespace Header

/-- The header's record size is that of the format. -/
def sizeMatches (h : Header) : Bool := h.sectionSize == h.format.layout.sectionHeader.size

/-- A table of `count` section headers lies in the image, at an aligned position. -/
def tableFits (h : Header) (image : ByteArray) (count : Nat) : Bool :=
  inImage image h.sectionTable (count * h.format.layout.sectionHeader.size)
    && h.sectionTable % h.format.layout.alignment == 0

/-- The number of sections. A count of zero in the file header means that section header 0 holds
the count as its length. -/
def count (h : Header) (image : ByteArray) : Except SectionTableError Nat :=
  if h.sectionTable = 0 then .ok 0
  else if h.sectionCount ≠ 0 then .ok h.sectionCount
  else if !h.sizeMatches then .error .headerSize
  else if !h.tableFits image 1 then .error .firstHeader
  else .ok (Section.read h.format image h.sectionTable).length

/-- The section headers of a table of known size. -/
def readTable (h : Header) (image : ByteArray) (count : Nat) : List Section :=
  (List.range count).map fun i =>
    Section.read h.format image (h.sectionTable + i * h.format.layout.sectionHeader.size)

/-- Every section header, number 0 included. -/
def table (h : Header) (image : ByteArray) : Except SectionTableError (List Section) := do
  let count ← h.count image
  if count = 0 then return []
  else if !h.sizeMatches then throw .headerSize
  else if !h.tableFits image count then throw .tableRange
  else return h.readTable image count

/-- The index of the section that names the sections; the largest index in the file header means
that section header 0 holds the index as its link. -/
def nameIndex (h : Header) (sections : List Section) : Nat :=
  if h.nameSection = 0xFFFF then (sections[0]?.map (·.link)).getD 0 else h.nameSection

/-- Checks the section that names the sections. Its names are never read. -/
def checkNames (h : Header) (sections : List Section) : Except SectionTableError Unit :=
  if sections.isEmpty then .ok ()
  else if h.nameIndex sections = 0 then .error .namesMissing
  else match sections[h.nameIndex sections]? with
    | none => .error .namesIndex
    | some s =>
      match s.range? with
      | none => .ok ()
      | some (offset, length) =>
        if offset + length < 0x1_0000_0000_0000_0000 then .ok () else .error .namesRange

/-- Every section header of an image whose section table is sound. -/
def sections (h : Header) (image : ByteArray) : Except SectionTableError (List Section) := do
  let sections ← h.table image
  h.checkNames sections
  return sections

end Header

end LinkageAudit.Elf

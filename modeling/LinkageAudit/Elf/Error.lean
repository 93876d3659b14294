/-!
# Why an image is refused

The causes, grouped by the part of the image that shows them, and their wording.
-/

namespace LinkageAudit.Elf

/-- What is wrong with the section table or the section that names the sections. -/
inductive SectionTableError where
  | headerSize
  | firstHeader
  | tableRange
  | namesMissing
  | namesIndex
  | namesRange
  deriving DecidableEq, Repr

/-- What is wrong with the symbol table section or a section that belongs to it. -/
inductive SymbolTableError where
  | tableRange
  | linkIndex
  | linkKind
  | linkRange
  | extendedIndices
  deriving DecidableEq, Repr

/-- What is wrong with one symbol. -/
inductive SymbolError where
  | unsupportedType (raw : Nat)
  | unsupportedBinding (raw : Nat)
  | unsupportedSection (raw : Nat)
  | unreadableName
  deriving DecidableEq, Repr

/-- Why an image is refused. -/
inductive Error where
  | magicTruncated
  | magicUnknown
  | headerTruncated
  | headerUnsupported
  | sectionTable (cause : SectionTableError)
  | symbolTableCount (found : Nat)
  | symbolTable (cause : SymbolTableError)
  | symbol (index : Nat) (cause : SymbolError)
  deriving DecidableEq, Repr

/-- A number in lower-case hexadecimal digits after `0x`. -/
def hexadecimal (n : Nat) : String := "0x" ++ String.ofList (Nat.toDigits 16 n)

/-- The wording of a section table fault. -/
def SectionTableError.message : SectionTableError → String
  | headerSize => "Invalid ELF section header entry size"
  | firstHeader => "Invalid ELF section header offset or size"
  | tableRange => "Invalid ELF section header offset/size/alignment"
  | namesMissing => "Missing ELF e_shstrndx"
  | namesIndex => "Invalid ELF e_shstrndx"
  | namesRange => "Invalid ELF shstrtab size"

/-- The wording of a symbol table fault. -/
def SymbolTableError.message : SymbolTableError → String
  | tableRange => "Invalid ELF symbol table data"
  | linkIndex => "Invalid ELF section index"
  | linkKind => "Invalid ELF string section type"
  | linkRange => "Invalid ELF string section offset or size"
  | extendedIndices => "Invalid ELF symtab_shndx data"

/-- The wording of a symbol fault. -/
def SymbolError.message : SymbolError → String
  | unsupportedType raw => s!"unsupported type {raw}"
  | unsupportedBinding raw => s!"unsupported binding {raw}"
  | unsupportedSection raw => "unsupported section index " ++ hexadecimal raw
  | unreadableName => "invalid name: Invalid ELF symbol name offset"

/-- The wording of a fault. -/
def Error.message : Error → String
  | magicTruncated => "unrecognized file format: Could not read file magic"
  | magicUnknown => "unrecognized file format: Unknown file magic"
  | headerTruncated => "invalid ELF header: Invalid ELF header size or alignment"
  | headerUnsupported => "invalid ELF header: Unsupported ELF header"
  | sectionTable cause => "invalid section table: " ++ cause.message
  | symbolTableCount found => s!"expected exactly one symbol table section, found {found}"
  | symbolTable cause => "invalid symbol table: " ++ cause.message
  | symbol index cause => s!"symbol {index}: {cause.message}"

end LinkageAudit.Elf

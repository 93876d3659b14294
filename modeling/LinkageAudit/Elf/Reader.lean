import LinkageAudit.Elf.SymbolTable
import LinkageAudit.Traced

/-!
# Symbols of an image

* `Header.symbolTable`: the way from the file header to the symbol table.
* `symbols`: the global and weak symbols of an image, in table order.

The checks go from the outside in: magic, file header, section table, number of symbol tables,
symbol table, entries. The first fault ends the reading. An image of another type than that of a
relocatable object is read all the same, with a warning.
-/

namespace LinkageAudit.Elf

/-- The symbol table of an image whose file header is known. -/
def Header.symbolTable (header : Header) (image : ByteArray) : Except Error SymbolTable := do
  let sections ← (header.sections image).mapError .sectionTable
  SymbolTable.ofSections header.format image sections

/-- The symbols of a table, with an event that counts the entries kept and dropped. -/
def SymbolTable.symbols (table : SymbolTable) (image : ByteArray) :
    Traced Error (List Symbol) := do
  let tally ← Traced.ofExcept (table.tallyAll image)
  Traced.emit (.symbolsRead tally.kept.length tally.discarded)
  return tally.kept

/-- The global and weak symbols of an image. -/
def symbols (image : ByteArray) : Traced Error (List Symbol) := do
  let header ← Traced.ofExcept (Header.read image)
  if header.fileType ≠ relocatable then
    Traced.emit (.notRelocatable header.fileType)
  let table ← Traced.ofExcept (header.symbolTable image)
  table.symbols image

end LinkageAudit.Elf

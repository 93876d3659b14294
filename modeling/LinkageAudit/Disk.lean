import LinkageAudit.Path

/-!
# Reading files

A disk is what reading a path gives. Everything that a run sees of the outside world is one such
function, so two runs on the same disk can differ only in their arguments.
-/

namespace LinkageAudit

/-- Why a file cannot be read. -/
inductive ReadError where
  | notFound
  | isDirectory
  | notDirectory
  | nameTooLong
  | zeroByte
  | illFormedText
  | other (description : String) (code : Nat)
  deriving DecidableEq, Repr

/-- The wording of a reason, with the number that the system gives it. -/
def ReadError.message : ReadError → String
  | notFound => "No such file or directory (os error 2)"
  | isDirectory => "Is a directory (os error 21)"
  | notDirectory => "Not a directory (os error 20)"
  | nameTooLong => "File name too long (os error 36)"
  | zeroByte => "file name contained an unexpected NUL byte"
  | illFormedText => "stream did not contain valid UTF-8"
  | other description code => s!"{description} (os error {code})"

/-- The content of every path, or why it cannot be read. -/
structure Disk where
  read : Path → Except ReadError ByteArray

/-- The disk on which only the listed paths are known. -/
def Disk.ofList (contents : List (String × Except ReadError ByteArray)) : Disk :=
  ⟨fun path => (contents.lookup path.text).getD (.error .notFound)⟩

/-- Reads a file that must hold UTF-8 text. -/
def Disk.readText (disk : Disk) (path : Path) : Except ReadError String := do
  let bytes ← disk.read path
  match String.fromUTF8? bytes with
  | some text => return text
  | none => throw .illFormedText

end LinkageAudit

import LinkageAudit.Role
import LinkageAudit.Symbol

/-!
# Naming rules

The audited library shares one name space: every name of its own starts with a root, and a name
that starts with the root and a further suffix is private. What a symbol does in an object file
follows from its name and from the public prefix of that file.

* `Naming.roleOf`: the role of a symbol. The private stem is tested before the public prefix, so
  a private name stays private under a public prefix that it also starts with.
-/

namespace LinkageAudit

/-- The root of the library's names and the suffix that marks private ones. -/
structure Naming where
  root : String
  privateSuffix : String
  deriving DecidableEq, Repr

namespace Naming

/-- The naming of the library that the standard policy is about. -/
def standard : Naming := ⟨"termpaint", "p"⟩

/-- What private names start with. -/
def privateStem (n : Naming) : String := n.root ++ n.privateSuffix

/-- The role of a symbol in a file with a public prefix; the first rule that applies wins. -/
def roleOf (n : Naming) (publicPrefix : String) (s : Symbol) : Role :=
  if s.defined then
    if s.name.startsWith n.privateStem then .privateExport
    else if s.name.startsWith publicPrefix then .publicExport
    else .genericExport
  else if s.name.startsWith n.root then .siblingImport
  else .systemImport

end Naming

end LinkageAudit

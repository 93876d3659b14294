import LinkageAudit.Component
import LinkageAudit.Path

/-!
# Audit targets

A manifest is a list of targets: the object files to audit, each with the rules that apply to it.
-/

namespace LinkageAudit

/-- An object file to audit: its component sets the import rules, its public prefix what it may
export. -/
structure Target where
  path : Path
  component : Component
  publicPrefix : String
  deriving DecidableEq, Repr

end LinkageAudit

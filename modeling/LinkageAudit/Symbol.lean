/-!
# Symbols

What the audit knows of one global or weak symbol of an object file.
-/

namespace LinkageAudit

/-- What a symbol names. -/
inductive Symbol.Kind where
  | function
  | object
  | other
  deriving DecidableEq, Repr

/-- The name of a kind in reports. -/
def Symbol.Kind.name : Symbol.Kind → String
  | function => "function"
  | object => "object"
  | other => "other"

/-- A symbol that an object file defines or, if not `defined`, imports. -/
structure Symbol where
  name : String
  kind : Symbol.Kind
  defined : Bool
  deriving DecidableEq, Repr

end LinkageAudit

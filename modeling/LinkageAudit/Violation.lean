import LinkageAudit.Path

/-!
# Violations

A symbol that breaks the policy, and its one-line report.
-/

namespace LinkageAudit

/-- How a symbol breaks the policy. -/
inductive Violation.Kind where
  | unwhitelistedImport
  | leakedPrivate
  | leakedGeneric
  deriving DecidableEq, Repr

namespace Violation.Kind

/-- What a text report says of a kind. -/
def message : Violation.Kind → String
  | unwhitelistedImport => "system import not on whitelist"
  | leakedPrivate => "leaked private symbol"
  | leakedGeneric => "leaked generic symbol"

/-- The name of a kind in a structured report. -/
def key : Violation.Kind → String
  | unwhitelistedImport => "unwhitelisted_import"
  | leakedPrivate => "leaked_private"
  | leakedGeneric => "leaked_generic"

end Violation.Kind

/-- A symbol of a file that breaks the policy. -/
structure Violation where
  kind : Violation.Kind
  file : Path
  symbol : String
  deriving DecidableEq, Repr

/-- The line of a violation in a text report. -/
def Violation.line (v : Violation) : String :=
  v.kind.message ++ " " ++ v.file.text ++ ": " ++ v.symbol

end LinkageAudit

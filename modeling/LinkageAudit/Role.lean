/-!
# Roles of symbols

The five roles that a symbol can play in an object file, in the order in which reports list them,
and tables with a number for each role.
-/

namespace LinkageAudit

/-- What a symbol does in an object file: three kinds of export, two kinds of import. -/
inductive Role where
  | privateExport
  | publicExport
  | genericExport
  | siblingImport
  | systemImport
  deriving DecidableEq, Repr

namespace Role

/-- Every role, in report order. -/
def all : List Role :=
  [privateExport, publicExport, genericExport, siblingImport, systemImport]

theorem mem_all (r : Role) : r ∈ all := by
  cases r <;> decide

theorem nodup_all : all.Nodup := by decide

/-- The name of a role in text reports. -/
def title : Role → String
  | privateExport => "private export"
  | publicExport => "public export"
  | genericExport => "generic export"
  | siblingImport => "sibling import"
  | systemImport => "system import"

/-- The name of a role as a key or value of a structured report. -/
def key : Role → String
  | privateExport => "private_export"
  | publicExport => "public_export"
  | genericExport => "generic_export"
  | siblingImport => "sibling_import"
  | systemImport => "system_import"

end Role

/-- A number for each role. -/
structure RoleCounts where
  privateExport : Nat
  publicExport : Nat
  genericExport : Nat
  siblingImport : Nat
  systemImport : Nat
  deriving DecidableEq, Repr

namespace RoleCounts

/-- The number that belongs to a role. -/
def get (n : RoleCounts) : Role → Nat
  | .privateExport => n.privateExport
  | .publicExport => n.publicExport
  | .genericExport => n.genericExport
  | .siblingImport => n.siblingImport
  | .systemImport => n.systemImport

/-- The table of a function of the role. -/
def ofFunction (f : Role → Nat) : RoleCounts :=
  ⟨f .privateExport, f .publicExport, f .genericExport, f .siblingImport, f .systemImport⟩

@[simp] theorem get_ofFunction (f : Role → Nat) (r : Role) : (ofFunction f).get r = f r := by
  cases r <;> rfl

/-- A table as it stands in a log line: every key with its number. -/
def text (n : RoleCounts) : String :=
  let entry (r : Role) : String := r.key ++ ": " ++ toString (n.get r)
  "CategoryCounts \x7b " ++ ", ".intercalate (Role.all.map entry) ++ " \x7d"

end RoleCounts

end LinkageAudit

import LinkageAudit.Policy
import LinkageAudit.Toml.Document

/-!
# Configuration files

What a configuration file can say, and how it is read off a TOML table.

* `Config.ofTable?`: only the keys named here are looked at. A missing section or list is empty;
  a missing or ill-typed field of a target refuses the whole file.
-/

namespace LinkageAudit

/-- The content of a configuration file. -/
structure Config where
  buildDirectory : Option Path
  extraCore : List String
  extraExtended : List String
  extraExported : List String
  targets : List Target
  deriving DecidableEq, Repr

namespace Config

/-- The configuration that says nothing. -/
def empty : Config := ⟨none, [], [], [], []⟩

/-- The fields of a record, by name. -/
abbrev Fields := String → Option Toml.Value

/-- The fields of a value that stands for a record. A table names its fields, and an array lists
them in the order of `names`. A date-time counts as a record without any of them. -/
def fields? (names : List String) : Toml.Value → Option Fields
  | .table entries => some fun name => entries.lookup name
  | .array items => some fun name => (names.zip items).lookup name
  | .dateTime _ => some fun _ => none
  | _ => none

/-- The fields of a section, which may be missing. -/
def section? (table : Toml.Table) (name : String) (names : List String) : Option Fields :=
  match table.lookup name with
  | none => some fun _ => none
  | some v => fields? names v

/-- The strings of an array of strings. -/
def strings? : Toml.Value → Option (List String)
  | .array items => items.mapM Toml.Value.string?
  | _ => none

/-- The strings of a list, which may be missing. -/
def list? (fields : Fields) (name : String) : Option (List String) :=
  match fields name with
  | none => some []
  | some v => strings? v

/-- An empty array or table. -/
def isEmptyValue : Toml.Value → Bool
  | .array [] | .table [] => true
  | _ => false

/-- A component: its name, or a table whose only key is its name and holds nothing. -/
def component? : Toml.Value → Option Component
  | .string name => Component.ofName? name
  | .table [(name, v)] => if isEmptyValue v then Component.ofName? name else none
  | _ => none

/-- A target; every field must be there. -/
def target? (v : Toml.Value) : Option Target := do
  let fields ← fields? ["path", "component", "public_prefix"] v
  let path ← (← fields "path").string?
  let component ← component? (← fields "component")
  let publicPrefix ← (← fields "public_prefix").string?
  return ⟨⟨path⟩, component, publicPrefix⟩

/-- The targets of a document, which may be missing. -/
def targets? (table : Toml.Table) : Option (List Target) :=
  match table.lookup "objects" with
  | none => some []
  | some (.array items) => items.mapM target?
  | some _ => none

/-- The build directory of a section, which may be missing. -/
def buildDirectory? (fields : Fields) : Option (Option Path) :=
  match fields "build_dir" with
  | none => some none
  | some v => v.string?.map fun s => some ⟨s⟩

/-- The configuration that a document holds. -/
def ofTable? (table : Toml.Table) : Option Config := do
  let general ← section? table "general" ["build_dir"]
  let policy ← section? table "policy"
    ["extra_core_imports", "extra_integration_imports", "extra_allowed_private"]
  return {
    buildDirectory := ← buildDirectory? general
    extraCore := ← list? policy "extra_core_imports"
    extraExtended := ← list? policy "extra_integration_imports"
    extraExported := ← list? policy "extra_allowed_private"
    targets := ← targets? table }

end Config

end LinkageAudit

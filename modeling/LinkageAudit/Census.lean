import LinkageAudit.Naming
import LinkageAudit.Target

/-!
# Symbols by role

* `ByRole.sort`: symbols sorted by role in one pass; `ByRole.get_sort` says that each role gets
  exactly its symbols, in the order in which they came.
* `Inventory.census`: the symbols of a target, sorted.
-/

namespace LinkageAudit

/-- A list of symbols for each role. -/
structure ByRole where
  privateExports : List Symbol
  publicExports : List Symbol
  genericExports : List Symbol
  siblingImports : List Symbol
  systemImports : List Symbol
  deriving DecidableEq, Repr

namespace ByRole

/-- No symbols in any role. -/
def empty : ByRole := ⟨[], [], [], [], []⟩

/-- The symbols of a role. -/
def get (b : ByRole) : Role → List Symbol
  | .privateExport => b.privateExports
  | .publicExport => b.publicExports
  | .genericExport => b.genericExports
  | .siblingImport => b.siblingImports
  | .systemImport => b.systemImports

/-- Puts a symbol in front of those of a role. -/
def cons (b : ByRole) (r : Role) (s : Symbol) : ByRole :=
  match r with
  | .privateExport => { b with privateExports := s :: b.privateExports }
  | .publicExport => { b with publicExports := s :: b.publicExports }
  | .genericExport => { b with genericExports := s :: b.genericExports }
  | .siblingImport => { b with siblingImports := s :: b.siblingImports }
  | .systemImport => { b with systemImports := s :: b.systemImports }

/-- Sorts symbols by role. -/
def sort (role : Symbol → Role) (symbols : List Symbol) : ByRole :=
  symbols.foldr (fun s b => b.cons (role s) s) empty

theorem get_cons (b : ByRole) (r r' : Role) (s : Symbol) :
    (b.cons r s).get r' = if r = r' then s :: b.get r' else b.get r' := by
  cases r <;> cases r' <;> rfl

theorem get_sort (role : Symbol → Role) (symbols : List Symbol) (r : Role) :
    (sort role symbols).get r = symbols.filter (role · = r) := by
  induction symbols with
  | nil => cases r <;> rfl
  | cons s ss ih =>
    rw [sort, List.foldr_cons, get_cons, ← sort, ih, List.filter_cons]
    simp only [decide_eq_true_eq]

end ByRole

/-- A target with the symbols that were found in its file. -/
structure Inventory extends Target where
  symbols : List Symbol
  deriving DecidableEq, Repr

/-- An inventory with its symbols sorted by role. -/
structure Census where
  inventory : Inventory
  byRole : ByRole
  deriving DecidableEq, Repr

/-- Sorts the symbols of a target. -/
def Inventory.census (inventory : Inventory) (naming : Naming) : Census :=
  ⟨inventory, .sort (naming.roleOf inventory.publicPrefix) inventory.symbols⟩

namespace Census

/-- The symbols with a role, in symbol table order. -/
def withRole (c : Census) (r : Role) : List Symbol := c.byRole.get r

/-- The number of symbols with each role. -/
def counts (c : Census) : RoleCounts := .ofFunction fun r => (c.withRole r).length

/-- The number of symbols with any role. -/
def total (c : Census) : Nat := (Role.all.flatMap c.withRole).length

end Census

end LinkageAudit

import LinkageAudit.Census
import LinkageAudit.NameSet
import LinkageAudit.Violation

/-!
# Visibility policy

Which system functions a component may import, and which private symbols may stay visible.

* `Policy.extend`: adds names to one of the three lists of a policy.
* `Policy.violations`: the violations of a census, in report order.

Sibling imports and public exports are never checked.
-/

namespace LinkageAudit

/-- The three lists of a policy. -/
inductive Allowance where
  /-- Imports open to every component. -/
  | core
  /-- Imports open to the integration component as well. -/
  | extended
  /-- Private symbols that may stay visible. -/
  | exported
  deriving DecidableEq, Repr

/-- A policy: a set of names for each of its lists. -/
structure Policy where
  core : NameSet
  extended : NameSet
  exported : NameSet
  deriving DecidableEq, Repr

namespace Policy

/-- The policy that allows nothing. -/
def empty : Policy := ⟨.empty, .empty, .empty⟩

/-- One of the lists. -/
def get (p : Policy) : Allowance → NameSet
  | .core => p.core
  | .extended => p.extended
  | .exported => p.exported

/-- Adds names to one of the lists. -/
def extend (p : Policy) (a : Allowance) (names : List String) : Policy :=
  match a with
  | .core => { p with core := p.core.insertAll names }
  | .extended => { p with extended := p.extended.insertAll names }
  | .exported => { p with exported := p.exported.insertAll names }

theorem get_extend (p : Policy) (a b : Allowance) (names : List String) :
    (p.extend a names).get b = if a = b then (p.get b).insertAll names else p.get b := by
  cases a <;> cases b <;> rfl

/-- A component may import a name. -/
def mayImport (p : Policy) (component : Component) (name : String) : Bool :=
  p.core.contains name || component == .integration && p.extended.contains name

/-- A private symbol may stay visible. -/
def mayExport (p : Policy) (name : String) : Bool := p.exported.contains name

/-- The violations of a target: imports first, those that another component could make before
those that none could, then private symbols, then generic ones. Each group keeps symbol table
order. -/
def violations (p : Policy) (c : Census) : List Violation :=
  let violation (kind : Violation.Kind) (s : Symbol) : Violation := ⟨kind, c.inventory.path, s.name⟩
  let refused := (c.withRole .systemImport).filter fun s =>
    !p.mayImport c.inventory.component s.name
  let (elsewhere, unknown) := refused.partition fun s => p.extended.contains s.name
  let leaked := (c.withRole .privateExport).filter fun s => !p.mayExport s.name
  (elsewhere ++ unknown).map (violation .unwhitelistedImport)
    ++ leaked.map (violation .leakedPrivate)
    ++ (c.withRole .genericExport).map (violation .leakedGeneric)

end Policy

end LinkageAudit

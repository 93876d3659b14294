import LinkageAudit.Proofs.Audit.Extension

/-!
# One file in either component

What the component of a file decides. Nothing but the group of imports that only the integration
component may make depends on it: that group comes first in the report of the main component, and
what follows it is the report of the integration component.

* `Policy.groupOf?_as_eq_some_iff`: each other group has the same symbols in either component.
* `Policy.violations_as_main`: the report of the main component in two parts.
* `Policy.violations_main_eq_append`: the same with what else the two components have in common.
* `Plan.inspect_as`: two inspections of one file.
-/

namespace LinkageAudit

/-! ## Files and components -/

/-- The same target as part of a component. -/
def Target.as (target : Target) (component : Component) : Target :=
  { target with component := component }

namespace Inventory

/-- The same file with the same symbols as part of a component. -/
def as (inventory : Inventory) (component : Component) : Inventory :=
  { inventory with component := component }

theorem toTarget_as (inventory : Inventory) (component : Component) :
    (inventory.as component).toTarget = inventory.toTarget.as component := rfl

end Inventory

/-! ## Groups -/

/-- Whether the names in the extended list are open decides of the first group and of no other. -/
theorem Violation.Group.admits_or_and {core isOpen extended mayExport : Bool} {g : Group}
    (h : g ≠ .elsewhere) :
    g.admits (core || isOpen && extended) extended mayExport =
      g.admits core extended mayExport := by
  cases g with
  | elsewhere => exact absurd rfl h
  | unknown => cases core <;> cases isOpen <;> cases extended <;> rfl
  | leakedPrivate | leakedGeneric => rfl

namespace Policy

variable {policy : Policy} {naming : Naming}

/-- A group other than the first has the same symbols in either component. -/
theorem groupOf?_as_eq_some_iff {target : Target} {component component' : Component} {s : Symbol}
    {g : Violation.Group} (h : g ≠ .elsewhere) :
    policy.groupOf? naming (target.as component) s = some g ↔
      policy.groupOf? naming (target.as component') s = some g := by
  simp only [groupOf?, Role.group?_eq_some_iff, mayImport, Violation.Group.admits_or_and h]
  rfl

/-- The first group of the main component has the imports that only the integration component may
make. -/
theorem groupOf?_main_eq_elsewhere_iff {target : Target} {s : Symbol} :
    policy.groupOf? naming (target.as .main) s = some .elsewhere ↔
      naming.roleOf target.publicPrefix s = .systemImport ∧ s.name ∈ policy.extended.names ∧
        s.name ∉ policy.core.names := by
  rw [groupOf?, Role.group?_eq_some_iff]
  simp [Violation.Group.role, Violation.Group.admits, mayImport, Target.as]

/-- An import that is refused to the integration component is not in the list that is for it. -/
theorem notMem_extended_of_mem_violations {inventory : Inventory} {v : Violation}
    (h : v ∈ policy.violations ((inventory.as .integration).census naming))
    (hkind : v.kind = .unwhitelistedImport) : v.symbol ∉ policy.extended.names := by
  obtain ⟨s, -, hs, -, hname⟩ := mem_violations_census_iff.1 h
  rw [hkind, kindOf?_eq_unwhitelistedImport_iff] at hs
  have hclosed : s.name ∉ policy.core.names ∧ s.name ∉ policy.extended.names := by
    simpa [mayImport, Inventory.toTarget_as, Target.as] using hs.2
  exact hname ▸ hclosed.2

end Policy

/-! ## Reports -/

namespace Inventory

/-- The imports of a file that a policy opens to the integration component and to no other. -/
def integrationOnly (inventory : Inventory) (policy : Policy) (naming : Naming) : List Violation :=
  inventory.select .unwhitelistedImport fun s =>
    naming.roleOf inventory.publicPrefix s == .systemImport &&
      (policy.extended.contains s.name && !policy.core.contains s.name)

variable {inventory : Inventory} {policy : Policy} {naming : Naming}

theorem mem_extended_of_mem_integrationOnly {v : Violation}
    (h : v ∈ inventory.integrationOnly policy naming) :
    v.kind = .unwhitelistedImport ∧ v.symbol ∈ policy.extended.names := by
  obtain ⟨s, hs, rfl⟩ := List.mem_map.1 h
  have hname := (List.mem_filter.1 hs).2
  simp only [Bool.and_eq_true, NameSet.contains_iff] at hname
  exact ⟨rfl, hname.2.1⟩

theorem select_elsewhere_main :
    (inventory.as .main).select .unwhitelistedImport
        (policy.groupOf? naming (inventory.as .main).toTarget · = some .elsewhere) =
      inventory.integrationOnly policy naming := by
  refine congrArg (List.map _) (List.filter_congr fun s _ => ?_)
  rw [Bool.eq_iff_iff, decide_eq_true_iff, toTarget_as, Policy.groupOf?_main_eq_elsewhere_iff]
  simp

theorem select_groupOf?_as (inventory : Inventory) (policy : Policy) (naming : Naming)
    (component component' : Component) {g : Violation.Group} (h : g ≠ .elsewhere) :
    (inventory.as component).select g.kind
        (policy.groupOf? naming (inventory.as component).toTarget · = some g) =
      (inventory.as component').select g.kind
        (policy.groupOf? naming (inventory.as component').toTarget · = some g) := by
  refine congrArg (List.map _) (List.filter_congr fun s _ => ?_)
  rw [decide_eq_decide]
  exact Policy.groupOf?_as_eq_some_iff h

end Inventory

namespace Policy

variable (policy : Policy) (naming : Naming) (inventory : Inventory)

/-- What is reported of a file in the main component is first what only the integration component
may import, and then what is reported of the file there. -/
theorem violations_as_main :
    policy.violations ((inventory.as .main).census naming) =
      inventory.integrationOnly policy naming ++
        policy.violations ((inventory.as .integration).census naming) := by
  have hrest (g : Violation.Group) (h : g ≠ .elsewhere) :=
    inventory.select_groupOf?_as policy naming .main .integration h
  have hnone : (inventory.as .integration).select .unwhitelistedImport
      (policy.groupOf? naming (inventory.as .integration).toTarget · = some .elsewhere) = [] :=
    select_elsewhere_eq_nil rfl
  simp only [violations_census, Violation.Group.all, List.flatMap_cons]
  rw [hrest .unknown (by decide), hrest .leakedPrivate (by decide),
    hrest .leakedGeneric (by decide)]
  simp only [Violation.Group.kind, Inventory.select_elsewhere_main, hnone, List.nil_append]
  rfl

/-- The names in the report on the main component tell where its first part ends. -/
theorem filter_violations_as_main :
    (policy.violations ((inventory.as .main).census naming)).filter
        (!·.isListed policy.extended.names .unwhitelistedImport) =
      policy.violations ((inventory.as .integration).census naming) := by
  have hfirst : ∀ v ∈ inventory.integrationOnly policy naming,
      v.isListed policy.extended.names .unwhitelistedImport = true := by
    intro v hv
    simpa [Violation.isListed] using Inventory.mem_extended_of_mem_integrationOnly hv
  have hrest : ∀ v ∈ policy.violations ((inventory.as .integration).census naming),
      v.isListed policy.extended.names .unwhitelistedImport = false := by
    intro v hv
    simpa [Violation.isListed] using notMem_extended_of_mem_violations hv
  rw [violations_as_main, List.filter_append,
    List.filter_eq_nil_iff.2 fun v hv => by simp [hfirst v hv], List.nil_append,
    List.filter_eq_self]
  exact fun v hv => by simp [hrest v hv]

/-- The report on a file in the main component is that on the same file in the integration
component, with the imports in front that only the integration component may make. The names in the
report tell which these are, so one report gives the other. How the symbols are sorted, counted and
listed does not depend on the component. -/
theorem violations_main_eq_append (policy : Policy) (naming : Naming) (inventory : Inventory) :
    let census (component : Component) := (inventory.as component).census naming
    let only := inventory.symbols.filter fun s =>
      naming.roleOf inventory.publicPrefix s == .systemImport &&
        (policy.extended.contains s.name && !policy.core.contains s.name)
    policy.violations (census .main) =
      only.map (fun s => ⟨.unwhitelistedImport, inventory.path, s.name⟩) ++
        policy.violations (census .integration) ∧
    policy.violations (census .integration) =
      (policy.violations (census .main)).filter
        (!·.isListed policy.extended.names .unwhitelistedImport) ∧
    (∀ r, (census .main).withRole r = (census .integration).withRole r) ∧
    (census .main).counts = (census .integration).counts ∧
    (census .main).total = (census .integration).total ∧
    (census .main).listings = (census .integration).listings := by
  intro census only
  exact ⟨violations_as_main policy naming inventory,
    (filter_violations_as_main policy naming inventory).symm, fun _ => rfl, rfl, rfl, rfl⟩

/-- What only the integration component may import comes before what nobody may. -/
example :
    let policy : Policy := ⟨⟨["malloc"], by simp⟩, ⟨["malloc", "poll"], by simp⟩, .empty⟩
    let imports := ["dlopen", "poll", "malloc", "poll"].map (⟨·, .other, false⟩)
    let inventory : Inventory := ⟨⟨⟨"a.o"⟩, .main, ""⟩, imports⟩
    (policy.violations ((inventory.as .main).census .standard)).map (·.symbol) =
      ["poll", "poll", "dlopen"] := by
  decide +kernel

end Policy

/-! ## Inspections -/

/-- An inspection of a file in the main component says what one in the integration component does:
it opens and logs the same, fails in the same way, and shows the same but for the component, and for
what only the integration component may import. -/
theorem Plan.inspect_as (plan : Plan) (disk : Disk) (target : Target) :
    let inspect (component : Component) := plan.inspect disk (target.as component)
    (inspect .integration).events = (inspect .main).events ∧
    (inspect .integration).result = (inspect .main).result.map fun seen =>
      { seen with
        file := { seen.file with component := .integration }
        violations := seen.violations.filter
          (!·.isListed plan.policy.extended.names .unwhitelistedImport) } := by
  intro inspect
  cases h : (disk.symbols target.path).result with
  | error e =>
    have haudit (component : Component) :=
      @Target.audit_of_symbols_error disk plan.naming plan.policy (target.as component) e h
    simp only [inspect, Plan.inspect, haudit]
    exact ⟨rfl, rfl⟩
  | ok symbols =>
    have haudit (component : Component) :=
      @Target.audit_of_symbols_ok disk plan.naming plan.policy (target.as component) symbols h
    have hfilter :=
      plan.policy.filter_violations_as_main plan.naming (target.inventory symbols)
    simp only [inspect, Plan.inspect, haudit]
    refine ⟨rfl, congrArg Except.ok ?_⟩
    exact congrArg (Inspection.mk _ _) hfilter.symm

end LinkageAudit

import LinkageAudit.Proofs.Audit.Verdict
import Mathlib.Data.List.Count
import Mathlib.Data.List.Perm.Basic

/-!
# The violations of one target

What is reported of a target, read off its symbols one by one. Each symbol falls into at most one
of four groups, and the report lists one group after the other.

* `Policy.groupOf?`, `Policy.kindOf?`: the group that a symbol is reported in, and as what;
  `Policy.kindOf?_eq_some_iff`: its role and the policy tell.
* `Policy.violations_census`: the violations of a target, group by group;
  `Policy.violations_eq_append`: imports first, and leaks after them.
* `Policy.violations_perm`: up to order, each symbol is reported on its own.
* `Policy.violations_eq_selections`: the violations as four selections of the symbols, and what
  follows for repeated symbols, for either component and for roles that are never checked.
-/

namespace LinkageAudit

section Grouping

variable {α β γ : Type} [DecidableEq γ]

/-- Items put group by group are the items of any group, in another order. -/
theorem flatMap_filter_perm {f : α → Option γ} (h : γ → α → β) {groups : List γ}
    (hnodup : groups.Nodup) (hall : ∀ a g, f a = some g → g ∈ groups) (l : List α) :
    (groups.flatMap fun g => (l.filter (f · = some g)).map (h g)).Perm
      (l.filterMap fun a => (f a).map (h · a)) := by
  induction l with
  | nil => simp
  | cons a l ih =>
    cases hf : f a with
    | none => simpa [List.filter_cons, hf] using ih
    | some g =>
      obtain ⟨before, after, rfl⟩ := List.append_of_mem (hall a g hf)
      have hnot : g ∉ before ++ after :=
        (List.nodup_cons.1 (List.perm_middle.nodup_iff.1 hnodup)).1
      rw [List.mem_append, not_or] at hnot
      obtain ⟨hbefore, hafter⟩ := hnot
      -- The new item comes first in its own group, and the other groups stay as they are.
      have hskip {gs : List γ} (hg : g ∉ gs) :
          (gs.flatMap fun g' => ((a :: l).filter (f · = some g')).map (h g')) =
            gs.flatMap fun g' => (l.filter (f · = some g')).map (h g') := by
        refine List.flatMap_congr fun g' hg' => ?_
        have hne : g ≠ g' := fun e => hg (e ▸ hg')
        simp [hf, hne]
      rw [List.flatMap_append, List.flatMap_cons] at ih ⊢
      rw [hskip hbefore, hskip hafter, List.filterMap_cons, hf,
        List.filter_cons_of_pos (by simp [hf]), List.map_cons]
      exact List.perm_middle.trans (ih.cons _)

end Grouping

/-! ## Groups -/

/-- The groups of the violations of a target. -/
inductive Violation.Group where
  /-- Imports that the other component may make. -/
  | elsewhere
  /-- Imports that no component may make. -/
  | unknown
  | leakedPrivate
  | leakedGeneric
  deriving DecidableEq, Repr

namespace Violation.Group

/-- Every group, in report order. -/
def all : List Group := [elsewhere, unknown, leakedPrivate, leakedGeneric]

theorem mem_all (g : Group) : g ∈ all := by
  cases g <;> decide

theorem nodup_all : all.Nodup := by decide

/-- What is reported of the symbols of a group. -/
def kind : Group → Violation.Kind
  | elsewhere | unknown => .unwhitelistedImport
  | leakedPrivate => .leakedPrivate
  | leakedGeneric => .leakedGeneric

/-- The role that the symbols of a group have. -/
def role : Group → Role
  | elsewhere | unknown => .systemImport
  | leakedPrivate => .privateExport
  | leakedGeneric => .genericExport

/-- A name with the role of a group belongs to the group, by what the policy says of it: whether it
may be imported, whether the integration component may import it, and whether it may stay
visible. -/
def admits (mayImport extended mayExport : Bool) : Group → Bool
  | elsewhere => extended && !mayImport
  | unknown => !extended && !mayImport
  | leakedPrivate => !mayExport
  | leakedGeneric => true

end Violation.Group

namespace Violation.Kind

/-- The role that the symbols of a kind have. -/
def role : Violation.Kind → Role
  | unwhitelistedImport => .systemImport
  | leakedPrivate => .privateExport
  | leakedGeneric => .genericExport

/-- A name with the role of a kind is reported, by whether it may be imported and whether it may
stay visible. -/
def admits (mayImport mayExport : Bool) : Violation.Kind → Bool
  | unwhitelistedImport => !mayImport
  | leakedPrivate => !mayExport
  | leakedGeneric => true

end Violation.Kind

/-- The group of a name with a role, by what the policy says of the name. -/
def Role.group? (mayImport extended mayExport : Bool) : Role → Option Violation.Group
  | systemImport => if mayImport then none else some (if extended then .elsewhere else .unknown)
  | privateExport => if mayExport then none else some .leakedPrivate
  | genericExport => some .leakedGeneric
  | publicExport | siblingImport => none

theorem Role.group?_eq_some_iff {mayImport extended mayExport : Bool} {r : Role}
    {g : Violation.Group} : r.group? mayImport extended mayExport = some g ↔
      r = g.role ∧ g.admits mayImport extended mayExport = true := by
  cases r <;> cases mayImport <;> cases extended <;> cases mayExport <;> cases g <;> decide

/-- Whether the integration component may import a name decides where it is reported, and not as
what. -/
theorem Role.map_kind_group?_eq_some_iff {mayImport extended mayExport : Bool} {r : Role}
    {kind : Violation.Kind} : (r.group? mayImport extended mayExport).map (·.kind) = some kind ↔
      r = kind.role ∧ kind.admits mayImport mayExport = true := by
  cases r <;> cases mayImport <;> cases extended <;> cases mayExport <;> cases kind <;> decide

/-- The violations of one kind on selected symbols of a target, in symbol table order. -/
def Inventory.select (inventory : Inventory) (kind : Violation.Kind) (p : Symbol → Bool) :
    List Violation :=
  (inventory.symbols.filter p).map fun s => ⟨kind, inventory.path, s.name⟩

theorem Inventory.kind_of_mem_select {inventory : Inventory} {kind : Violation.Kind}
    {p : Symbol → Bool} {v : Violation} (h : v ∈ inventory.select kind p) : v.kind = kind := by
  obtain ⟨s, -, rfl⟩ := List.mem_map.1 h
  rfl

namespace Policy

/-- The group that a symbol of a target is reported in, if it is. -/
def groupOf? (policy : Policy) (naming : Naming) (target : Target) (s : Symbol) :
    Option Violation.Group :=
  (naming.roleOf target.publicPrefix s).group? (policy.mayImport target.component s.name)
    (policy.extended.contains s.name) (policy.mayExport s.name)

/-- What a symbol of a target is reported as, if it is. -/
def kindOf? (policy : Policy) (naming : Naming) (target : Target) (s : Symbol) :
    Option Violation.Kind :=
  (policy.groupOf? naming target s).map (·.kind)

variable (policy : Policy) (naming : Naming) (inventory : Inventory)

/-- The symbols of a group are those with its role that belong to it. -/
theorem filter_withRole (g : Violation.Group) :
    ((inventory.census naming).withRole g.role).filter (fun s =>
        g.admits (policy.mayImport inventory.component s.name) (policy.extended.contains s.name)
          (policy.mayExport s.name)) =
      inventory.symbols.filter (policy.groupOf? naming inventory.toTarget · = some g) := by
  rw [Inventory.withRole_census, List.filter_filter]
  refine List.filter_congr fun s _ => ?_
  rw [Bool.eq_iff_iff, decide_eq_true_iff, groupOf?, Role.group?_eq_some_iff, Bool.and_eq_true,
    decide_eq_true_iff, and_comm]

/-- The violations of a target, group by group, each in symbol table order. -/
theorem violations_census :
    policy.violations (inventory.census naming) = Violation.Group.all.flatMap fun g =>
      inventory.select g.kind (policy.groupOf? naming inventory.toTarget · = some g) := by
  have hgeneric : (inventory.census naming).withRole .genericExport =
      inventory.symbols.filter
        (policy.groupOf? naming inventory.toTarget · = some .leakedGeneric) := by
    rw [← filter_withRole]
    exact (List.filter_eq_self.2 fun _ _ => rfl).symm
  simp only [violations, List.partition_eq_filter_filter, List.filter_filter, hgeneric,
    Violation.Group.all, List.flatMap_cons, List.flatMap_nil, List.append_nil, List.map_append,
    List.append_assoc, Inventory.select, ← filter_withRole _ _ _ .elsewhere,
    ← filter_withRole _ _ _ .unknown, ← filter_withRole _ _ _ .leakedPrivate]
  rfl

/-- The refused imports of a target, in report order. -/
def refusedImports : List Violation :=
  inventory.select .unwhitelistedImport
      (policy.groupOf? naming inventory.toTarget · = some .elsewhere) ++
    inventory.select .unwhitelistedImport
      (policy.groupOf? naming inventory.toTarget · = some .unknown)

/-- The leaked names of a target, in report order. -/
def leaks : List Violation :=
  inventory.select .leakedPrivate
      (policy.groupOf? naming inventory.toTarget · = some .leakedPrivate) ++
    inventory.select .leakedGeneric
      (policy.groupOf? naming inventory.toTarget · = some .leakedGeneric)

/-- Imports are reported before leaks. -/
theorem violations_eq_append : policy.violations (inventory.census naming) =
    policy.refusedImports naming inventory ++ policy.leaks naming inventory := by
  simp [violations_census, Violation.Group.all, Violation.Group.kind, refusedImports, leaks]

/-- Up to order, each symbol of a target is reported on its own. -/
theorem violations_perm :
    (policy.violations (inventory.census naming)).Perm
      (inventory.symbols.filterMap fun s =>
        (policy.kindOf? naming inventory.toTarget s).map (⟨·, inventory.path, s.name⟩)) := by
  rw [violations_census]
  simp only [kindOf?, Option.map_map]
  exact flatMap_filter_perm _ Violation.Group.nodup_all (fun _ g _ => g.mem_all) _

variable {policy naming inventory}

theorem kind_of_mem_refusedImports {v : Violation}
    (h : v ∈ policy.refusedImports naming inventory) : v.kind = .unwhitelistedImport := by
  rcases List.mem_append.1 h with h | h <;> exact Inventory.kind_of_mem_select h

theorem kind_ne_of_mem_leaks {v : Violation} (h : v ∈ policy.leaks naming inventory) :
    v.kind ≠ .unwhitelistedImport := by
  rcases List.mem_append.1 h with h | h <;> rw [Inventory.kind_of_mem_select h] <;> decide

theorem mem_violations_census_iff {v : Violation} :
    v ∈ policy.violations (inventory.census naming) ↔ ∃ s ∈ inventory.symbols,
      policy.kindOf? naming inventory.toTarget s = some v.kind ∧ v.file = inventory.path ∧
        v.symbol = s.name := by
  rw [(violations_perm policy naming inventory).mem_iff, List.mem_filterMap]
  refine exists_congr fun s => and_congr_right fun _ => ?_
  rw [Option.map_eq_some_iff]
  constructor
  · rintro ⟨kind, hk, rfl⟩
    exact ⟨hk, rfl, rfl⟩
  · rintro ⟨hk, hf, hs⟩
    exact ⟨v.kind, hk, by rw [← hf, ← hs]⟩

/-- A symbol is reported as often as its file repeats it. -/
theorem count_violations_census {kind : Violation.Kind} {name : String} :
    (policy.violations (inventory.census naming)).count ⟨kind, inventory.path, name⟩ =
      inventory.symbols.countP fun s =>
        s.name == name && policy.kindOf? naming inventory.toTarget s == some kind := by
  rw [(violations_perm policy naming inventory).count_eq, List.count, List.countP_filterMap]
  refine List.countP_congr fun s _ => ?_
  cases policy.kindOf? naming inventory.toTarget s with
  | none => simp
  | some k => simp [and_comm]

section Kinds

variable {target : Target} {s : Symbol}

/-- What a symbol is reported as, by its role and by what the policy says of its name. -/
theorem kindOf?_eq_some_iff {kind : Violation.Kind} :
    policy.kindOf? naming target s = some kind ↔
      naming.roleOf target.publicPrefix s = kind.role ∧
        kind.admits (policy.mayImport target.component s.name) (policy.mayExport s.name) = true :=
  Role.map_kind_group?_eq_some_iff

/-- An import is reported only if its name is not open to every component. -/
theorem kindOf?_eq_unwhitelistedImport_iff :
    policy.kindOf? naming target s = some .unwhitelistedImport ↔
      naming.roleOf target.publicPrefix s = .systemImport ∧
        policy.mayImport target.component s.name = false := by
  simp [kindOf?_eq_some_iff, Violation.Kind.role, Violation.Kind.admits]

theorem kindOf?_eq_leakedPrivate_iff :
    policy.kindOf? naming target s = some .leakedPrivate ↔
      naming.roleOf target.publicPrefix s = .privateExport ∧ policy.mayExport s.name = false := by
  simp [kindOf?_eq_some_iff, Violation.Kind.role, Violation.Kind.admits]

/-- Every generic export is reported, whatever the policy lists. -/
theorem kindOf?_eq_leakedGeneric_iff :
    policy.kindOf? naming target s = some .leakedGeneric ↔
      naming.roleOf target.publicPrefix s = .genericExport := by
  simp [kindOf?_eq_some_iff, Violation.Kind.role, Violation.Kind.admits]

end Kinds

/-- Nothing is reported of public exports and sibling imports. -/
theorem role_of_groupOf?_eq_some {target : Target} {s : Symbol} {g : Violation.Group}
    (h : policy.groupOf? naming target s = some g) :
    naming.roleOf target.publicPrefix s ≠ .publicExport ∧
      naming.roleOf target.publicPrefix s ≠ .siblingImport := by
  rw [(Role.group?_eq_some_iff.1 h).1]
  cases g <;> decide

/-- The symbols of a group, by their role and by what the policy says of their names. -/
theorem select_groupOf?_eq (g : Violation.Group) {p : Symbol → Bool}
    (h : ∀ s, p s = (decide (naming.roleOf inventory.publicPrefix s = g.role) &&
      g.admits (policy.mayImport inventory.component s.name) (policy.extended.contains s.name)
        (policy.mayExport s.name))) :
    inventory.select g.kind (policy.groupOf? naming inventory.toTarget · = some g) =
      inventory.select g.kind p := by
  refine congrArg (List.map _) (List.filter_congr fun s _ => ?_)
  rw [h, Bool.eq_iff_iff, decide_eq_true_iff, Bool.and_eq_true, decide_eq_true_iff]
  exact Role.group?_eq_some_iff

/-- The integration component may import whatever is in its list. -/
theorem select_elsewhere_eq_nil (h : inventory.component = .integration) :
    inventory.select .unwhitelistedImport
      (policy.groupOf? naming inventory.toTarget · = some .elsewhere) = [] := by
  refine List.map_eq_nil_iff.2 (List.filter_eq_nil_iff.2 fun s _ hs => ?_)
  have hadmits := (Role.group?_eq_some_iff.1 (of_decide_eq_true hs)).2
  have hname : s.name ∈ policy.extended.names ∧ s.name ∉ policy.core.names ∧
      s.name ∉ policy.extended.names := by
    simpa [Violation.Group.admits, mayImport, h] using hadmits
  exact hname.2.2 hname.1

/-- A name in the core list is never reported as an import. -/
theorem kind_ne_unwhitelistedImport_of_mem_core {v : Violation}
    (hv : v ∈ policy.violations (inventory.census naming))
    (hcore : v.symbol ∈ policy.core.names) : v.kind ≠ .unwhitelistedImport := by
  intro hkind
  obtain ⟨s, -, hs, -, hsymbol⟩ := mem_violations_census_iff.1 hv
  rw [hkind, kindOf?_eq_unwhitelistedImport_iff] at hs
  have hopen : policy.mayImport inventory.component s.name = true := by
    simp [mayImport, ← hsymbol, hcore]
  exact Bool.false_ne_true (hs.2.symm.trans hopen)

/-- Symbols that are never reported can be left out. -/
theorem violations_filter_symbols {p : Symbol → Bool}
    (h : ∀ s g, policy.groupOf? naming inventory.toTarget s = some g → p s = true) :
    policy.violations ({ inventory with symbols := inventory.symbols.filter p }.census naming) =
      policy.violations (inventory.census naming) := by
  rw [violations_census, violations_census]
  refine List.flatMap_congr fun g _ => congrArg (List.map _) ?_
  show List.filter _ (inventory.symbols.filter p) = _
  rw [List.filter_filter]
  refine List.filter_congr fun s _ => ?_
  by_cases hs : policy.groupOf? naming inventory.toTarget s = some g
  · rw [h s g hs, Bool.and_true]
  · simp [hs]

/-- The violations of a target are four selections of its symbols, one after the other: refused
imports that are in the extended list, other refused imports, private symbols that are not listed,
and all generic ones. -/
theorem violations_eq_selections (policy : Policy) (naming : Naming) (inventory : Inventory) :
    let role := naming.roleOf inventory.publicPrefix
    let refused (s : Symbol) : Bool :=
      role s == .systemImport && !policy.mayImport inventory.component s.name
    let elsewhere := inventory.select .unwhitelistedImport fun s =>
      refused s && policy.extended.contains s.name
    let unknown := inventory.select .unwhitelistedImport fun s =>
      refused s && !policy.extended.contains s.name
    let leakedPrivate := inventory.select .leakedPrivate fun s =>
      role s == .privateExport && !policy.mayExport s.name
    let leakedGeneric := inventory.select .leakedGeneric fun s => role s == .genericExport
    let checked := inventory.symbols.filter fun s =>
      role s != .publicExport && role s != .siblingImport
    let violations := policy.violations (inventory.census naming)
    violations = elsewhere ++ unknown ++ leakedPrivate ++ leakedGeneric ∧
    -- A name is reported as often as the symbol table repeats it.
    (∀ kind name, violations.count ⟨kind, inventory.path, name⟩ =
      inventory.symbols.countP fun s =>
        s.name == name && policy.kindOf? naming inventory.toTarget s == some kind) ∧
    -- No import of the integration component is one that only another may make.
    (inventory.component = .integration → elsewhere = []) ∧
    -- A name in the core list is open to either component, in the extended list or not.
    (∀ name ∈ policy.core.names, name ∈ policy.extended.names → ∀ component : Component,
      ∀ v ∈ policy.violations ({ inventory with component := component }.census naming),
        v.symbol = name → v.kind ≠ .unwhitelistedImport) ∧
    -- Public exports and sibling imports make no difference.
    policy.violations ({ inventory with symbols := checked }.census naming) = violations := by
  intro role refused elsewhere unknown leakedPrivate leakedGeneric checked violations
  have helsewhere : inventory.select .unwhitelistedImport
      (policy.groupOf? naming inventory.toTarget · = some .elsewhere) = elsewhere :=
    select_groupOf?_eq .elsewhere fun s =>
      (Bool.and_assoc _ _ _).trans (congrArg _ (Bool.and_comm _ _))
  have hunknown : inventory.select .unwhitelistedImport
      (policy.groupOf? naming inventory.toTarget · = some .unknown) = unknown :=
    select_groupOf?_eq .unknown fun s =>
      (Bool.and_assoc _ _ _).trans (congrArg _ (Bool.and_comm _ _))
  have hprivate : inventory.select .leakedPrivate
      (policy.groupOf? naming inventory.toTarget · = some .leakedPrivate) = leakedPrivate :=
    select_groupOf?_eq .leakedPrivate fun s => rfl
  have hgeneric : inventory.select .leakedGeneric
      (policy.groupOf? naming inventory.toTarget · = some .leakedGeneric) = leakedGeneric :=
    select_groupOf?_eq .leakedGeneric fun s => (Bool.and_true _).symm
  refine ⟨?_, fun kind name => count_violations_census, fun hcomponent => ?_,
    fun name hcore _ component v hv hname => ?_, ?_⟩
  · rw [← helsewhere, ← hunknown, ← hprivate, ← hgeneric, List.append_assoc]
    exact violations_eq_append policy naming inventory
  · rw [← helsewhere]
    exact select_elsewhere_eq_nil hcomponent
  · exact kind_ne_unwhitelistedImport_of_mem_core hv (hname ▸ hcore)
  · refine violations_filter_symbols fun s g hs => ?_
    simpa [role] using role_of_groupOf?_eq_some hs

end Policy

end LinkageAudit

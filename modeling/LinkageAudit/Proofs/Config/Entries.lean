import LinkageAudit.Proofs.EffectiveConfig

/-!
# What a configuration file says

A configuration is read off three entries of a document, and each of them off the entries with the
keys that it knows. A document is taken as a whole or not at all: one value that does not fit
refuses it.

* `Config.ofTable?_eq_some_iff`: the configuration is read in three parts, each off one entry.
* `Config.Outline`: the sections and targets of a document that has them as tables.
* `Config.Outline.Says`: what such a document says; `Config.ofTable?_eq_some_iff_of_fits`: it is read
  as what it says, and refused if it says nothing that fits.
* `Config.Outline.Fitting`, `Config.Outline.Misfit`: documents that say something, and ways to be
  refused.
-/

namespace LinkageAudit

open Toml (Value Table)

/-- The key of a list of a policy. -/
def Allowance.configKey : Allowance → String
  | core => "extra_core_imports"
  | extended => "extra_integration_imports"
  | exported => "extra_allowed_private"

namespace Config

/-- The keys of the general section. -/
def generalKeys : List String := ["build_dir"]

/-- The keys of the policy section. -/
def policyKeys : List String :=
  ["extra_core_imports", "extra_integration_imports", "extra_allowed_private"]

/-- The keys of a target. -/
def targetKeys : List String := ["path", "component", "public_prefix"]

/-! ## Three parts -/

/-- The fields of a section, by its value. -/
def fieldsOf? (names : List String) : Option Value → Option Fields
  | none => some fun _ => none
  | some v => fields? names v

/-- The build directory, by the value of the general section. -/
def readDirectory? (general : Option Value) : Option (Option Path) :=
  (fieldsOf? generalKeys general).bind buildDirectory?

/-- The names of a list, by the value of the policy section. -/
def readList? (a : Allowance) (policy : Option Value) : Option (List String) :=
  (fieldsOf? policyKeys policy).bind (list? · a.configKey)

/-- The targets, by their value. -/
def readTargets? : Option Value → Option (List Target)
  | none => some []
  | some (.array items) => items.mapM target?
  | some _ => none

/-- A configuration is read in three parts, and none of them looks at what another is about. -/
theorem ofTable?_eq_some_iff {table : Table} {config : Config} :
    ofTable? table = some config ↔
      readDirectory? (table.lookup "general") = some config.buildDirectory ∧
      (∀ a, readList? a (table.lookup "policy") = some (config.extra a)) ∧
      readTargets? (table.lookup "objects") = some config.targets := by
  have hgeneral : section? table "general" ["build_dir"] =
      fieldsOf? generalKeys (table.lookup "general") := rfl
  have hpolicy : section? table "policy"
      ["extra_core_imports", "extra_integration_imports", "extra_allowed_private"] =
        fieldsOf? policyKeys (table.lookup "policy") := rfl
  have htargets : targets? table = readTargets? (table.lookup "objects") := rfl
  unfold ofTable? readDirectory? readList?
  rw [hgeneral, hpolicy, htargets]
  simp only [Option.bind_eq_bind, Option.bind_eq_some_iff, Option.pure_def, Option.some.injEq]
  constructor
  · rintro ⟨general, hgeneral, policy, hpolicy, directory, hdirectory, core, hcore, extended,
      hextended, exported, hexported, targets, htargets, rfl⟩
    refine ⟨⟨general, hgeneral, hdirectory⟩, fun a => ⟨policy, hpolicy, ?_⟩, htargets⟩
    cases a with
    | core => exact hcore
    | extended => exact hextended
    | exported => exact hexported
  · rintro ⟨⟨general, hgeneral, hdirectory⟩, hlists, htargets⟩
    obtain ⟨policy, hpolicy, hcore⟩ := hlists .core
    have hlist (a : Allowance) : list? policy a.configKey = some (config.extra a) := by
      obtain ⟨policy', hpolicy', hlist⟩ := hlists a
      rw [hpolicy] at hpolicy'
      cases hpolicy'
      exact hlist
    exact ⟨general, hgeneral, policy, hpolicy, _, hdirectory, _, hcore, _, hlist .extended, _,
      hlist .exported, _, htargets, rfl⟩

/-! ## Documents with tables for sections -/

/-- A string value, by its text. -/
theorem string?_eq_some_iff {v : Value} {s : String} : v.string? = some s ↔ v = .string s := by
  cases v <;> simp [Toml.Value.string?]

/-- A value that stands for a component: its name, or a table with its name and nothing else. -/
def IsComponent (v : Value) (c : Component) : Prop :=
  v = .string c.name ∨ ∃ content, v = .table [(c.name, content)] ∧ isEmptyValue content = true

theorem component?_eq_some_iff {v : Value} {c : Component} :
    component? v = some c ↔ IsComponent v c := by
  unfold component? IsComponent
  split
  · simp [Component.ofName?_eq_some_iff]
  · next name content =>
    by_cases h : isEmptyValue content = true
    · simp [h, Component.ofName?_eq_some_iff]
    · simp [h]
  · next hstring htable =>
    simp only [reduceCtorEq, false_iff, not_or, not_exists, not_and]
    exact ⟨hstring _, fun content hv => absurd hv (htable _ _)⟩

/-- A table says a target: all three fields are there. -/
structure SaysTarget (table : Table) (t : Target) : Prop where
  path : table.lookup "path" = some (.string t.path.text)
  component : ∃ v, table.lookup "component" = some v ∧ IsComponent v t.component
  publicPrefix : table.lookup "public_prefix" = some (.string t.publicPrefix)

theorem target?_eq_some_iff {table : Table} {t : Target} :
    target? (.table table) = some t ↔ SaysTarget table t := by
  simp only [target?, fields?, Option.bind_eq_bind, Option.bind_eq_some_iff, Option.pure_def,
    Option.some.injEq, string?_eq_some_iff, component?_eq_some_iff]
  constructor
  · rintro ⟨_, rfl, _, hpath, path, rfl, v, hv, component, hcomponent, _, hpublic, publicPrefix,
      rfl, rfl⟩
    exact ⟨hpath, ⟨v, hv, hcomponent⟩, hpublic⟩
  · rintro ⟨hpath, ⟨v, hv, hcomponent⟩, hpublic⟩
    exact ⟨_, rfl, _, hpath, _, rfl, v, hv, _, hcomponent, _, hpublic, _, rfl, rfl⟩

/-- A value that may be missing says a list of names. -/
def SaysNames (v : Option Value) (names : List String) : Prop :=
  v = some (.array (names.map .string)) ∨ v = none ∧ names = []

theorem strings?_eq_some_iff {v : Value} {names : List String} :
    strings? v = some names ↔ v = .array (names.map .string) := by
  cases v with
  | array items =>
    simp only [strings?, mapM_eq_some_iff, string?_eq_some_iff, Toml.Value.array.injEq]
    rw [← List.forall₂_map_right_iff (R := (· = ·)) (f := Value.string), List.forall₂_eq_eq_eq]
  | _ => simp [strings?]

/-- The sections and the targets of a document that has tables for all of them. -/
structure Outline where
  general : Option Table
  policy : Option Table
  targets : Option (List Table)

namespace Outline

/-- The outline of a document, which may have other entries as well. -/
structure Fits (o : Outline) (table : Table) : Prop where
  general : table.lookup "general" = o.general.map .table
  policy : table.lookup "policy" = o.policy.map .table
  targets : table.lookup "objects" = o.targets.map fun targets => .array (targets.map .table)

/-- The value of a key of the general section. -/
def general? (o : Outline) (key : String) : Option Value := (o.general.getD []).lookup key

/-- The value of a key of the policy section. -/
def policy? (o : Outline) (key : String) : Option Value := (o.policy.getD []).lookup key

/-- The tables of the targets, in document order. -/
def tables (o : Outline) : List Table := o.targets.getD []

/-- A document says a configuration: the values under its keys are those of the configuration. A
missing list has no names, and a section or list of targets that is missing has no entries. -/
structure Says (o : Outline) (config : Config) : Prop where
  directory : o.general? "build_dir" = config.buildDirectory.map fun path => .string path.text
  names : ∀ a, SaysNames (o.policy? a.configKey) (config.extra a)
  targets : List.Forall₂ SaysTarget o.tables config.targets

theorem fieldsOf?_map_table (names : List String) (section? : Option Table) :
    fieldsOf? names (section?.map .table) = some fun key => (section?.getD []).lookup key := by
  cases section? <;> rfl

theorem readDirectory?_eq_some_iff {general : Option Table} {directory : Option Path} :
    readDirectory? (general.map .table) = some directory ↔
      (general.getD []).lookup "build_dir" = directory.map fun path => .string path.text := by
  rw [readDirectory?, fieldsOf?_map_table, Option.bind_some]
  simp only [buildDirectory?]
  cases (general.getD []).lookup "build_dir" with
  | none => cases directory <;> simp
  | some v =>
    cases directory with
    | none => simp
    | some path =>
      obtain ⟨text⟩ := path
      simp [string?_eq_some_iff]

theorem readList?_eq_some_iff {policy : Option Table} {a : Allowance} {names : List String} :
    readList? a (policy.map .table) = some names ↔
      SaysNames ((policy.getD []).lookup a.configKey) names := by
  rw [readList?, fieldsOf?_map_table, Option.bind_some]
  simp only [list?, SaysNames]
  cases (policy.getD []).lookup a.configKey with
  | none => simp [eq_comm]
  | some v => simp [strings?_eq_some_iff]

theorem readTargets?_eq_some_iff {tables : Option (List Table)} {targets : List Target} :
    readTargets? (tables.map fun tables => .array (tables.map .table)) = some targets ↔
      List.Forall₂ SaysTarget (tables.getD []) targets := by
  cases tables with
  | none => simp [readTargets?, eq_comm]
  | some tables =>
    show (tables.map Value.table).mapM target? = _ ↔ List.Forall₂ _ tables _
    rw [mapM_eq_some_iff, List.forall₂_map_left_iff]
    simp only [target?_eq_some_iff]

end Outline

/-- A document is read as what it says, and refused if what it says is no configuration. -/
theorem ofTable?_eq_some_iff_of_fits {o : Outline} {table : Table} (h : o.Fits table)
    {config : Config} : ofTable? table = some config ↔ o.Says config := by
  rw [ofTable?_eq_some_iff, h.general, h.policy, h.targets, Outline.readDirectory?_eq_some_iff,
    Outline.readTargets?_eq_some_iff]
  simp only [Outline.readList?_eq_some_iff]
  exact ⟨fun ⟨hdirectory, hnames, htargets⟩ => ⟨hdirectory, hnames, htargets⟩,
    fun ⟨hdirectory, hnames, htargets⟩ => ⟨hdirectory, hnames, htargets⟩⟩

/-! ## Documents that fit, and others -/

/-- A single value that is not a string. -/
def isOtherScalar : Value → Bool
  | .integer _ | .float _ | .boolean _ | .dateTime _ => true
  | .string _ | .array _ | .table _ => false

namespace Outline

/-- A document has strings where strings belong, and every target has all its fields. -/
structure Fitting (o : Outline) : Prop where
  directory : ∀ v, o.general? "build_dir" = some v → ∃ s, v = .string s
  names : ∀ (a : Allowance) v, o.policy? a.configKey = some v →
    ∃ names : List String, v = .array (names.map .string)
  targets : ∀ table ∈ o.tables, ∃ (path : String) (component : Component) (publicPrefix : String),
    table.lookup "path" = some (.string path) ∧
      table.lookup "component" = some (.string component.name) ∧
      table.lookup "public_prefix" = some (.string publicPrefix)

/-- A document that fits says a configuration. -/
theorem Fitting.exists_config {o : Outline} (h : o.Fitting) : ∃ config, o.Says config := by
  have hdirectory : ∃ directory : Option Path,
      o.general? "build_dir" = directory.map fun path => .string path.text := by
    cases hv : o.general? "build_dir" with
    | none => exact ⟨none, rfl⟩
    | some v =>
      obtain ⟨s, rfl⟩ := h.directory v hv
      exact ⟨some ⟨s⟩, rfl⟩
  have hnames (a : Allowance) : ∃ names, SaysNames (o.policy? a.configKey) names := by
    cases hv : o.policy? a.configKey with
    | none => exact ⟨[], .inr ⟨rfl, rfl⟩⟩
    | some v =>
      obtain ⟨names, rfl⟩ := h.names a v hv
      exact ⟨names, .inl rfl⟩
  have htargets : ∃ targets, List.Forall₂ SaysTarget o.tables targets := by
    have htarget : ∀ table ∈ o.tables, ∃ t, SaysTarget table t := by
      intro table htable
      obtain ⟨path, component, publicPrefix, hpath, hcomponent, hpublic⟩ := h.targets table htable
      exact ⟨⟨⟨path⟩, component, publicPrefix⟩, hpath, ⟨_, hcomponent, .inl rfl⟩, hpublic⟩
    exact exists_forall₂ htarget
  obtain ⟨directory, hdirectory⟩ := hdirectory
  obtain ⟨targets, htargets⟩ := htargets
  choose names hnames using hnames
  refine ⟨⟨directory, names .core, names .extended, names .exported, targets⟩, hdirectory, ?_,
    htargets⟩
  intro a
  cases a <;> exact hnames _

/-- One thing in a document that fits no configuration. -/
inductive Misfit (o : Outline) : Prop where
  /-- A target without one of its fields. -/
  | missing {table : Table} {key : String} (htable : table ∈ o.tables) (hkey : key ∈ targetKeys)
      (h : table.lookup key = none)
  /-- A target of a component that there is not. -/
  | component {table : Table} {name : String} (htable : table ∈ o.tables)
      (h : table.lookup "component" = some (.string name)) (hname : ∀ c : Component, name ≠ c.name)
  /-- A field of a target that is no string. -/
  | field {table : Table} {key : String} {v : Value} (htable : table ∈ o.tables)
      (hkey : key ∈ targetKeys) (h : table.lookup key = some v) (hv : isOtherScalar v = true)
  /-- A build directory that is no string. -/
  | directory {v : Value} (h : o.general? "build_dir" = some v) (hv : isOtherScalar v = true)
  /-- A single value for a list. -/
  | list {a : Allowance} {v : Value} (h : o.policy? a.configKey = some v)
      (hv : isOtherScalar v = true ∨ ∃ s, v = .string s)
  /-- A list with something that is no string. -/
  | name {a : Allowance} {items : List Value} {v : Value}
      (h : o.policy? a.configKey = some (.array items)) (hitem : v ∈ items)
      (hv : isOtherScalar v = true)

/-- Every field of a target is there and is a string, or a table for the component. -/
theorem exists_field_of_saysTarget {table : Table} {t : Target} (h : SaysTarget table t)
    {key : String} (hkey : key ∈ targetKeys) :
    ∃ v, table.lookup key = some v ∧ isOtherScalar v = false := by
  simp only [targetKeys, List.mem_cons, List.not_mem_nil, or_false] at hkey
  rcases hkey with rfl | rfl | rfl
  · exact ⟨_, h.path, rfl⟩
  · obtain ⟨v, hv, rfl | ⟨content, rfl, -⟩⟩ := h.component
    · exact ⟨_, hv, rfl⟩
    · exact ⟨_, hv, rfl⟩
  · exact ⟨_, h.publicPrefix, rfl⟩

theorem eq_array_of_saysNames {v : Value} {names : List String} (h : SaysNames (some v) names) :
    v = .array (names.map .string) := by
  simpa [SaysNames] using h

/-- What fits no configuration refuses the document, whatever else there is in it. -/
theorem Misfit.no_config {o : Outline} (h : o.Misfit) (config : Config) : ¬ o.Says config := by
  intro hcontent
  have htarget {table : Table} (htable : table ∈ o.tables) : ∃ t, SaysTarget table t := by
    obtain ⟨t, -, ht⟩ := exists_right_of_forall₂ hcontent.targets htable
    exact ⟨t, ht⟩
  cases h with
  | missing htable hkey h =>
    obtain ⟨t, ht⟩ := htarget htable
    obtain ⟨v, hv, -⟩ := exists_field_of_saysTarget ht hkey
    rw [h] at hv
    cases hv
  | component htable h hname =>
    obtain ⟨t, -, ⟨v, hcomponent, hv⟩, -⟩ := htarget htable
    rw [h] at hcomponent
    cases hcomponent
    rcases hv with hv | ⟨content, hv, -⟩
    · cases hv
      exact hname _ rfl
    · cases hv
  | field htable hkey h hv =>
    obtain ⟨t, ht⟩ := htarget htable
    obtain ⟨v, hv', hother⟩ := exists_field_of_saysTarget ht hkey
    rw [h] at hv'
    cases hv'
    exact Bool.false_ne_true (hother.symm.trans hv)
  | directory h hv =>
    have hdirectory := hcontent.directory
    rw [h] at hdirectory
    obtain ⟨path, -, hpath⟩ := Option.map_eq_some_iff.1 hdirectory.symm
    rw [← hpath] at hv
    cases hv
  | @list a v h hv =>
    have hnames := hcontent.names a
    rw [h] at hnames
    rw [eq_array_of_saysNames hnames] at hv
    rcases hv with hv | ⟨s, hv⟩ <;> cases hv
  | @name a items v h hitem hv =>
    have hnames := hcontent.names a
    rw [h] at hnames
    cases eq_array_of_saysNames hnames
    obtain ⟨s, -, rfl⟩ := List.mem_map.1 hitem
    cases hv

end Outline

end Config

end LinkageAudit

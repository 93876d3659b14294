import LinkageAudit.Proofs.Audit.Extension
import LinkageAudit.Proofs.Audit.Linkage
import LinkageAudit.Proofs.EffectiveConfig

/-!
# Names that a policy is asked about

An audit asks a policy about few names. Whether the core list has a name matters for imports from
outside the library, whether the extended list has it matters for those of them that the core list
does not have, and the third list is about private symbols. Two policies give the same reports
exactly if they give the same answers to these questions.

* `Policy.Idle`: a list is never asked about a name, and `Policy.Agree`: two policies differ at
  most in such names.
* `Policy.Agree.violations_eq`, `Policy.agree_of_violations_eq`: they are the policies with the same
  violations in every file.
* `Plan.audit_withPolicy`, `Command.run_withPolicy`: so runs with either come to the same.
* `Config.Agree`: configurations that lead to such policies.
* `Policy.agree_iff_audits_eq`: the whole, from the lists to the exit of a run.
-/

namespace LinkageAudit

/-! ## Questions -/

namespace Policy

/-- No audit asks whether a list has a name: the import lists are not asked about names of the
library, the extended list not about what the core list has, and the third list only about private
names. -/
def Idle (p : Policy) (naming : Naming) : Allowance → String → Prop
  | .core, name => naming.root.toList <+: name.toList
  | .extended, name => naming.root.toList <+: name.toList ∨ name ∈ p.core.names
  | .exported, name => ¬ naming.privateStem.toList <+: name.toList

instance (p : Policy) (naming : Naming) (a : Allowance) (name : String) :
    Decidable (p.Idle naming a name) :=
  match a with
  | .core => inferInstanceAs (Decidable (naming.root.toList <+: name.toList))
  | .extended =>
    inferInstanceAs (Decidable (naming.root.toList <+: name.toList ∨ name ∈ p.core.names))
  | .exported => inferInstanceAs (Decidable ¬ naming.privateStem.toList <+: name.toList)

/-- Two policies have the same answer to every question that audits ask. -/
structure Agree (naming : Naming) (p p' : Policy) : Prop where
  core : ∀ name, ¬ naming.root.toList <+: name.toList →
    (name ∈ p.core.names ↔ name ∈ p'.core.names)
  extended : ∀ name, ¬ naming.root.toList <+: name.toList → name ∉ p.core.names →
    (name ∈ p.extended.names ↔ name ∈ p'.extended.names)
  exported : ∀ name, naming.privateStem.toList <+: name.toList →
    (name ∈ p.exported.names ↔ name ∈ p'.exported.names)

/-- Policies agree if their lists differ in idle names at most. -/
theorem agree_iff_idle_or {naming : Naming} {p p' : Policy} : p.Agree naming p' ↔
    ∀ a name, p.Idle naming a name ∨ (name ∈ (p.get a).names ↔ name ∈ (p'.get a).names) := by
  constructor
  · intro h a name
    refine or_iff_not_imp_left.2 fun hidle => ?_
    cases a with
    | core => exact h.core name hidle
    | extended =>
      obtain ⟨hroot, hcore⟩ := not_or.1 hidle
      exact h.extended name hroot hcore
    | exported => exact h.exported name (not_not.1 hidle)
  · intro h
    exact ⟨fun name hroot => (h .core name).resolve_left hroot,
      fun name hroot hcore => (h .extended name).resolve_left (not_or.2 ⟨hroot, hcore⟩),
      fun name hstem => (h .exported name).resolve_left (not_not.2 hstem)⟩

variable {naming : Naming} {p p' : Policy}

/-- Idle names can be added to any list. -/
theorem agree_extend {a : Allowance} {names : List String}
    (h : ∀ name ∈ names, p.Idle naming a name) : p.Agree naming (p.extend a names) := by
  refine agree_iff_idle_or.2 fun b name => ?_
  rw [mem_extend]
  by_cases hname : a = b ∧ name ∈ names
  · obtain ⟨rfl, hname⟩ := hname
    exact .inl (h name hname)
  · exact .inr ⟨.inl, fun hm => hm.resolve_right hname⟩

/-- Names can be added in any order and any number of times. -/
theorem agree_extend_of_mem_iff {a : Allowance} {names names' : List String}
    (h : ∀ name, name ∈ names ↔ name ∈ names') :
    (p.extend a names).Agree naming (p.extend a names') := by
  refine agree_iff_idle_or.2 fun b name => .inr ?_
  rw [mem_extend, mem_extend, h]

end Policy

/-! ## Answers -/

namespace Policy

variable {naming : Naming} {p p' : Policy}

/-- A symbol is reported in the same group by policies that agree. -/
theorem Agree.groupOf?_eq (h : p.Agree naming p') (target : Target) (s : Symbol) :
    p.groupOf? naming target s = p'.groupOf? naming target s := by
  unfold groupOf?
  cases hrole : naming.roleOf target.publicPrefix s with
  | systemImport =>
    have hroot := (Naming.roleOf_eq_systemImport_iff.1 hrole).2
    have hcore : p.core.contains s.name = p'.core.contains s.name := by
      rw [Bool.eq_iff_iff, NameSet.contains_iff, NameSet.contains_iff, h.core s.name hroot]
    cases hopen : p.core.contains s.name with
    | true => simp [Role.group?, mayImport, ← hcore, hopen]
    | false =>
      have hextended : p.extended.contains s.name = p'.extended.contains s.name := by
        rw [Bool.eq_iff_iff, NameSet.contains_iff, NameSet.contains_iff,
          h.extended s.name hroot (NameSet.contains_eq_false_iff.1 hopen)]
      rw [mayImport, mayImport, hcore, hextended]
      rfl
  | privateExport =>
    have hstem := (Naming.roleOf_eq_privateExport_iff.1 hrole).2
    have hexported : p.mayExport s.name = p'.mayExport s.name := by
      rw [mayExport, mayExport, Bool.eq_iff_iff, NameSet.contains_iff, NameSet.contains_iff,
        h.exported s.name hstem]
    simp only [Role.group?, hexported]
  | publicExport | genericExport | siblingImport => rfl

theorem Agree.violations_eq (h : p.Agree naming p') (inventory : Inventory) :
    p.violations (inventory.census naming) = p'.violations (inventory.census naming) := by
  simp only [violations_census, h.groupOf?_eq]

/-- One symbol alone in a file is reported as what it is. -/
theorem mem_violations_singleton_iff {target : Target} {s : Symbol} {kind : Violation.Kind} :
    ⟨kind, target.path, s.name⟩ ∈ p.violations ((target.inventory [s]).census naming) ↔
      p.kindOf? naming target s = some kind := by
  rw [mem_violations_census_iff]
  simp [Target.inventory]

/-- Policies with the same violations in every file agree: a file with one symbol asks for any
answer. -/
theorem agree_of_violations_eq (h : ∀ inventory : Inventory,
    p.violations (inventory.census naming) = p'.violations (inventory.census naming)) :
    p.Agree naming p' := by
  have hkind (target : Target) (s : Symbol) (kind : Violation.Kind) :
      p.kindOf? naming target s = some kind ↔ p'.kindOf? naming target s = some kind := by
    rw [← mem_violations_singleton_iff, ← mem_violations_singleton_iff, h]
  have himport (component : Component) {name : String}
      (hroot : ¬ naming.root.toList <+: name.toList) :
      p.mayImport component name = true ↔ p'.mayImport component name = true := by
    have hrole : naming.roleOf "" ⟨name, .other, false⟩ = .systemImport :=
      Naming.roleOf_eq_systemImport_iff.2 ⟨rfl, hroot⟩
    have hrefused := hkind ⟨⟨""⟩, component, ""⟩ ⟨name, .other, false⟩ .unwhitelistedImport
    rw [kindOf?_eq_unwhitelistedImport_iff, kindOf?_eq_unwhitelistedImport_iff] at hrefused
    exact not_iff_not.1 (by simpa [hrole] using hrefused)
  have hexport {name : String} (hstem : naming.privateStem.toList <+: name.toList) :
      p.mayExport name = true ↔ p'.mayExport name = true := by
    have hrole : naming.roleOf "" ⟨name, .other, true⟩ = .privateExport :=
      Naming.roleOf_eq_privateExport_iff.2 ⟨rfl, hstem⟩
    have hleaked := hkind ⟨⟨""⟩, .main, ""⟩ ⟨name, .other, true⟩ .leakedPrivate
    rw [kindOf?_eq_leakedPrivate_iff, kindOf?_eq_leakedPrivate_iff] at hleaked
    exact not_iff_not.1 (by simpa [hrole] using hleaked)
  -- The main component is asked about the core list alone, which then leaves the other one.
  have hcore {name : String} (hroot : ¬ naming.root.toList <+: name.toList) :
      name ∈ p.core.names ↔ name ∈ p'.core.names := by
    simpa [mayImport] using himport .main hroot
  refine ⟨fun _ => hcore, fun name hroot hclosed => ?_, fun name hstem => ?_⟩
  · have hclosed' : name ∉ p'.core.names := mt (hcore hroot).2 hclosed
    simpa [mayImport, hclosed, hclosed'] using himport .integration hroot
  · simpa [mayExport] using hexport hstem

end Policy

/-! ## Runs -/

section Runs

variable {naming : Naming} {p p' : Policy} (h : p.Agree naming p') (disk : Disk)
include h

theorem Target.audit_congr (target : Target) :
    target.audit disk naming p = target.audit disk naming p' := by
  cases hs : (disk.symbols target.path).result with
  | error e => rw [audit_of_symbols_error hs, audit_of_symbols_error hs]
  | ok symbols =>
    rw [audit_of_symbols_ok hs, audit_of_symbols_ok hs, verdict, verdict, h.violations_eq]

theorem Target.auditAll_congr (targets : List Target) :
    auditAll disk naming p targets = auditAll disk naming p' targets := by
  induction targets with
  | nil => rfl
  | cons target targets ih => rw [auditAll, auditAll, audit_congr h, ih]

end Runs

/-- A plan with another policy. -/
def Plan.withPolicy (plan : Plan) (policy : Policy) : Plan := { plan with policy := policy }

section Plans

variable {plan : Plan} {p : Policy} (h : plan.policy.Agree plan.naming p) (disk : Disk)
include h

theorem Plan.audit_withPolicy : (plan.withPolicy p).audit disk = plan.audit disk := by
  unfold Plan.audit
  rw [Target.auditAll_congr h]
  rfl

theorem Plan.inspect_withPolicy (target : Target) :
    (plan.withPolicy p).inspect disk target = plan.inspect disk target := by
  unfold Plan.inspect
  rw [Target.audit_congr h]
  rfl

/-- The commands that do not show the policy do the same with a policy that agrees. -/
theorem Command.run_withPolicy {command : Command} (hcommand : command ≠ .whitelist) :
    command.run (plan.withPolicy p) disk = command.run plan disk := by
  cases command with
  | audit => simp only [run, Plan.audit_withPolicy h]
  | inspect object component publicPrefix => simp only [run, Plan.inspect_withPolicy h]
  | whitelist => exact absurd rfl hcommand
  | manifest => rfl

end Plans

/-! ## Configurations -/

/-- Two configurations that differ at most in the order and number of their names, and in idle
ones. -/
structure Config.Agree (config config' : Config) : Prop where
  buildDirectory_eq : config'.buildDirectory = config.buildDirectory
  targets_eq : config'.targets = config.targets
  names : ∀ a name, (Plan.policyFor config).Idle .standard a name ∨
    (name ∈ config.extra a ↔ name ∈ config'.extra a)

namespace Config

variable {config config' : Config}

theorem Agree.policyFor (h : config.Agree config') :
    (Plan.policyFor config).Agree .standard (Plan.policyFor config') := by
  refine Policy.agree_iff_idle_or.2 fun a name => (h.names a name).imp_right fun hname => ?_
  rw [Plan.mem_policyFor, Plan.mem_policyFor, hname]

/-- Two plans from configurations that agree are the same but for their policies. -/
theorem Agree.make (h : config.Agree config') (override : Option Path) :
    Plan.make override config' =
      (Plan.make override config).withPolicy (Plan.policyFor config') := by
  have hdirectory : Plan.directoryFor override config' = Plan.directoryFor override config := by
    rw [Plan.directoryFor, Plan.directoryFor, h.buildDirectory_eq]
  have htargets : Plan.targetsFor config' = Plan.targetsFor config := by
    rw [Plan.targetsFor, Plan.targetsFor, h.targets_eq]
  rw [Plan.make, Plan.make, hdirectory, htargets]
  rfl

theorem Agree.run_make (h : config.Agree config') (override : Option Path) (disk : Disk)
    {command : Command} (hcommand : command ≠ .whitelist) :
    command.run (Plan.make override config') disk =
      command.run (Plan.make override config) disk := by
  have hplan : (Plan.make override config).policy.Agree (Plan.make override config).naming
      (Plan.policyFor config') := h.policyFor
  rw [h.make]
  exact Command.run_withPolicy hplan disk hcommand

theorem extra_extend (config : Config) (a b : Allowance) (names : List String) :
    (config.extend a names).extra b =
      if a = b then config.extra b ++ names else config.extra b := by
  cases a <;> cases b <;> rfl

theorem agree_extend {a : Allowance} {names : List String}
    (h : ∀ name ∈ names, (Plan.policyFor config).Idle .standard a name) :
    config.Agree (config.extend a names) := by
  refine ⟨by cases a <;> rfl, by cases a <;> rfl, fun b name => ?_⟩
  rw [extra_extend]
  split
  · next hab =>
    rw [List.mem_append]
    by_cases hname : name ∈ names
    · exact .inl (hab ▸ h name hname)
    · exact .inr ⟨.inl, fun hm => hm.resolve_right hname⟩
  · exact .inr Iff.rfl

/-- A name of the library, one that is in the core list anyway, and one that comes twice. -/
example : Config.empty.Agree
    (Config.empty.extend .extended ["termpaint_new", "malloc", "termpaint_new"]) :=
  agree_extend (by decide +kernel)

end Config

/-- Two configurations that agree lead to the same exit of any run that does not show the policy. -/
theorem Invocation.exit_eq_of_agree {i : Invocation} {path : Option Path} {disk : Disk}
    {config config' : Config} (filter filter' : LogFilter) (h : config.Agree config')
    (hload : (Config.load disk i.options.config).result = .ok config)
    (hload' : (Config.load disk path).result = .ok config')
    (hcommand : i.command ≠ some .whitelist) :
    let i' : Invocation := { i with options := { i.options with config := path } }
    (i'.exit disk filter').stdout = (i.exit disk filter).stdout ∧
      (i'.exit disk filter').status = (i.exit disk filter).status := by
  intro i'
  have hcommand' : i.command.getD .audit ≠ .whitelist := by
    cases hc : i.command with
    | none => decide
    | some command => exact fun he => hcommand (he ▸ hc)
  refine exit_eq_of_result filter' filter ?_ rfl rfl
  rw [result_execute_of_load (i := i') hload', result_execute_of_load hload]
  exact congrArg (fun run => run.result.mapError Failure.object) (h.run_make _ disk hcommand')

namespace Policy

/-- Which names in a policy can matter: those that some audit asks about. Policies that have the
same answers there are the ones that report the same of every file. So no audit changes with names
of the library in a list of imports, with names in the extended list that the core list has, with
names in the third list that are not private, or with the order and repetition of names. -/
theorem agree_iff_audits_eq (naming : Naming) (p p' : Policy) :
    (p.Agree naming p' ↔ ∀ inventory : Inventory,
      p.violations (inventory.census naming) = p'.violations (inventory.census naming)) ∧
    -- Runs with policies that agree come to the same, event by event and in the end.
    (p.Agree naming p' → ∀ directory manifest disk,
      let plan (policy : Policy) : Plan := ⟨directory, manifest, naming, policy⟩
      (plan p').audit disk = (plan p).audit disk ∧
        ∀ target, (plan p').inspect disk target = (plan p).inspect disk target) ∧
    -- A policy agrees with itself after it is given idle names, and however new names are listed.
    (∀ a names, (∀ name ∈ names, p.Idle naming a name) → p.Agree naming (p.extend a names)) ∧
    (∀ a names names', (∀ name, name ∈ names ↔ name ∈ names') →
      (p.extend a names).Agree naming (p.extend a names')) ∧
    -- The same of configurations.
    (∀ config a names, (∀ name ∈ names, (Plan.policyFor config).Idle .standard a name) →
      config.Agree (config.extend a names)) ∧
    (∀ config config' : Config, config'.buildDirectory = config.buildDirectory →
      config'.targets = config.targets →
      (∀ a name, name ∈ config.extra a ↔ name ∈ config'.extra a) → config.Agree config') ∧
    ∀ config config' : Config, config.Agree config' →
      (∀ override disk (command : Command), command ≠ .whitelist →
        command.run (.make override config') disk = command.run (.make override config) disk) ∧
      -- So the files that hold them can be exchanged under any command that does not list names.
      ∀ (i : Invocation) path disk filter,
        (Config.load disk i.options.config).result = .ok config →
        (Config.load disk path).result = .ok config' → i.command ≠ some .whitelist →
        let i' : Invocation := { i with options := { i.options with config := path } }
        (i'.exit disk filter).stdout = (i.exit disk filter).stdout ∧
          (i'.exit disk filter).status = (i.exit disk filter).status := by
  refine ⟨⟨Agree.violations_eq, agree_of_violations_eq⟩, fun h directory manifest disk => ?_,
    fun a names => agree_extend, fun a names names' => agree_extend_of_mem_iff,
    fun config a names => Config.agree_extend,
    fun config config' hdirectory htargets hnames =>
      ⟨hdirectory, htargets, fun a name => .inr (hnames a name)⟩,
    fun config config' h => ⟨fun override disk command => h.run_make override disk,
      fun i path disk filter hload hload' hcommand =>
        Invocation.exit_eq_of_agree filter filter h hload hload' hcommand⟩⟩
  · intro plan
    have hplan : (plan p).policy.Agree (plan p).naming p' := h
    exact ⟨Plan.audit_withPolicy hplan disk, Plan.inspect_withPolicy hplan disk⟩

end Policy

end LinkageAudit

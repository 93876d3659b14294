import LinkageAudit.Proofs.Audit.Composition
import LinkageAudit.Proofs.Audit.Violations
import LinkageAudit.Proofs.Elf.RoundTrip
import LinkageAudit.Proofs.Text.Utf8
import Mathlib.Data.List.Perm.Subperm

/-!
# More names in a policy

What becomes of a report when a configuration lists more names. Nothing is added, and what goes
away is what the new names excuse. Only one thing moves: an import that becomes open to the
integration component, and only to it, is reported earlier where the main component makes it.

* `Policy.violations_extend`: the violations of one target without those that are excused, where
  the list counts.
* `Policy.reordersImports_extend`: the violations of one target where it does not.
* `Plan.result_audit_extend`: two runs, target by target.
* `Plan.audit_extend`: what each of the three lists changes in a report.
-/

namespace LinkageAudit

/-! ## Configurations and plans -/

/-- A configuration with more names in one of its lists. -/
def Config.extend (config : Config) (a : Allowance) (names : List String) : Config :=
  match a with
  | .core => { config with extraCore := config.extraCore ++ names }
  | .extended => { config with extraExtended := config.extraExtended ++ names }
  | .exported => { config with extraExported := config.extraExported ++ names }

namespace Plan

/-- A plan with more names in one of the lists of its policy. -/
def extend (plan : Plan) (a : Allowance) (names : List String) : Plan :=
  { plan with policy := plan.policy.extend a names }

theorem policyFor_extend (config : Config) (a : Allowance) (names : List String) :
    policyFor (config.extend a names) = (policyFor config).extend a names := by
  cases a <;> simp only [policyFor, Config.extend, Policy.extend, NameSet.insertAll_append]

/-- More configured names change the policy of a plan and nothing else. -/
theorem make_extend (override : Option Path) (config : Config) (a : Allowance)
    (names : List String) :
    make override (config.extend a names) = (make override config).extend a names := by
  unfold make
  rw [policyFor_extend]
  cases a <;> rfl

end Plan

/-! ## What new names excuse -/

/-- The violations that a list of a policy is about. -/
def Allowance.kind : Allowance → Violation.Kind
  | core | extended => .unwhitelistedImport
  | exported => .leakedPrivate

/-- A list counts for a component. -/
def Allowance.appliesTo : Allowance → Component → Bool
  | extended, component => component == .integration
  | core, _ | exported, _ => true

/-- A violation is of a kind, and its symbol is among the names. -/
def Violation.isListed (names : List String) (kind : Violation.Kind) (v : Violation) : Bool :=
  v.kind == kind && names.contains v.symbol

/-- Two reports on one target that differ at most in the order of the imports, which come first. -/
def ReordersImports (old new : List Violation) : Prop :=
  ∃ imports imports' leaks, old = imports ++ leaks ∧ new = imports' ++ leaks ∧
    imports'.Perm imports ∧ (∀ v ∈ imports, v.kind = .unwhitelistedImport) ∧
      ∀ v ∈ leaks, v.kind ≠ .unwhitelistedImport

/-- A name that becomes open is no longer reported as an import. Whether the integration component
may import it matters only as long as it is reported. -/
theorem Role.group?_or_mayImport {mayImport extended extended' mayExport listed : Bool}
    (h : listed = false → extended' = extended) (r : Role) :
    r.group? (mayImport || listed) extended' mayExport =
      (r.group? mayImport extended mayExport).filter fun g =>
        !(g.kind == .unwhitelistedImport && listed) := by
  cases listed with
  | false =>
    rw [h rfl]
    cases r <;> cases mayImport <;> cases extended <;> cases mayExport <;> rfl
  | true => cases r <;> cases mayImport <;> cases extended <;> cases mayExport <;> rfl

/-- A name that may stay visible is no longer reported as private. -/
theorem Role.group?_or_mayExport (mayImport extended mayExport listed : Bool) (r : Role) :
    r.group? mayImport extended (mayExport || listed) =
      (r.group? mayImport extended mayExport).filter fun g =>
        !(g.kind == .leakedPrivate && listed) := by
  cases r <;> cases mayImport <;> cases extended <;> cases mayExport <;> cases listed <;> rfl

namespace Policy

variable (policy : Policy) (naming : Naming) (a : Allowance) (names : List String)

/-- Where a list counts, a symbol stays in its group unless the new names excuse it. -/
theorem groupOf?_extend {target : Target} (h : a.appliesTo target.component = true) (s : Symbol) :
    (policy.extend a names).groupOf? naming target s =
      (policy.groupOf? naming target s).filter fun g =>
        !(g.kind == a.kind && names.contains s.name) := by
  unfold groupOf?
  cases a with
  | core =>
    have hopen : (policy.extend .core names).mayImport target.component s.name =
        (policy.mayImport target.component s.name || names.contains s.name) := by
      simp only [mayImport, extend, NameSet.contains_insertAll, Bool.or_right_comm]
    rw [hopen]
    exact Role.group?_or_mayImport (fun _ => rfl) _
  | extended =>
    have hopen : (policy.extend .extended names).mayImport target.component s.name =
        (policy.mayImport target.component s.name || names.contains s.name) := by
      have hcomponent : (target.component == .integration) = true := h
      simp only [mayImport, extend, NameSet.contains_insertAll, hcomponent, Bool.true_and,
        Bool.or_assoc]
    rw [hopen]
    refine Role.group?_or_mayImport (fun hlisted => ?_) _
    simp only [extend, NameSet.contains_insertAll, hlisted, Bool.or_false]
  | exported =>
    have hvisible : (policy.extend .exported names).mayExport s.name =
        (policy.mayExport s.name || names.contains s.name) :=
      NameSet.contains_insertAll _ _ _
    rw [hvisible]
    exact Role.group?_or_mayExport _ _ _ _ _

/-- The violations of a target without those that the new names excuse. -/
theorem violations_extend {inventory : Inventory}
    (h : a.appliesTo inventory.component = true) :
    (policy.extend a names).violations (inventory.census naming) =
      (policy.violations (inventory.census naming)).filter (!·.isListed names a.kind) := by
  rw [violations_census, violations_census, List.filter_flatMap]
  refine List.flatMap_congr fun g _ => ?_
  unfold Inventory.select
  rw [List.filter_map, List.filter_filter]
  refine congrArg _ (List.filter_congr fun s _ => ?_)
  rw [groupOf?_extend policy naming a names h, Bool.eq_iff_iff, decide_eq_true_iff,
    Option.filter_eq_some_iff, Bool.and_eq_true, decide_eq_true_iff, and_comm]
  rfl

/-- Names for the integration component excuse nothing in another. -/
theorem kindOf?_extend_extended {target : Target}
    (h : Allowance.extended.appliesTo target.component = false) (s : Symbol) :
    (policy.extend .extended names).kindOf? naming target s = policy.kindOf? naming target s := by
  have hopen : (policy.extend .extended names).mayImport target.component s.name =
      policy.mayImport target.component s.name := by
    have hcomponent : (target.component == .integration) = false := h
    simp only [mayImport, extend, hcomponent, Bool.false_and]
  ext kind
  rw [kindOf?_eq_some_iff, kindOf?_eq_some_iff, hopen]
  rfl

/-- Where the new names do not count, imports may change places among themselves. -/
theorem reordersImports_extend {inventory : Inventory}
    (h : Allowance.extended.appliesTo inventory.component = false) :
    ReordersImports (policy.violations (inventory.census naming))
      ((policy.extend .extended names).violations (inventory.census naming)) := by
  -- No list that leaks depend on has changed.
  have hleaks : (policy.extend .extended names).leaks naming inventory =
      policy.leaks naming inventory := by
    simp only [leaks, groupOf?, Role.group?_eq_some_iff]
    rfl
  have hperm : ((policy.extend .extended names).violations (inventory.census naming)).Perm
      (policy.violations (inventory.census naming)) := by
    refine (violations_perm _ _ _).trans ?_
    simp only [kindOf?_extend_extended policy naming names h]
    exact (violations_perm _ _ _).symm
  rw [violations_eq_append, violations_eq_append, hleaks] at hperm ⊢
  exact ⟨_, _, _, rfl, rfl, (List.perm_append_right_iff _).1 hperm,
    fun v => kind_of_mem_refusedImports, fun v => kind_ne_of_mem_leaks⟩

end Policy

/-! ## Runs -/

/-- A target with the same symbols, judged by a policy. -/
def Verdict.under (v : Verdict) (policy : Policy) : Verdict := ⟨v.census, policy.violations v.census⟩

/-- What new names in a list do to the violations of a target: where the list counts, those that are
excused go, and elsewhere imports may change places. -/
def Allowance.Affects (a : Allowance) (names : List String) (component : Component)
    (old new : List Violation) : Prop :=
  if a.appliesTo component then new = old.filter (!·.isListed names a.kind)
  else ReordersImports old new

/-- Either way nothing is added. -/
theorem Allowance.Affects.subperm {a : Allowance} {names : List String} {component : Component}
    {old new : List Violation} (h : a.Affects names component old new) : new.Subperm old := by
  unfold Allowance.Affects at h
  split at h
  · rw [h]
    exact List.filter_sublist.subperm
  · obtain ⟨imports, imports', leaks, rfl, rfl, hperm, -⟩ := h
    exact (hperm.append_right leaks).subperm

namespace Plan

variable {plan : Plan} {disk : Disk} (a : Allowance) (names : List String)

theorem verdictOf_extend {target : Target} {v : Verdict} (h : plan.verdictOf disk target = .ok v) :
    (plan.extend a names).verdictOf disk target =
      .ok (v.under (plan.policy.extend a names)) ∧
    a.Affects names target.component v.violations
      (v.under (plan.policy.extend a names)).violations := by
  obtain ⟨symbols, hs, rfl⟩ := Target.audit_eq_ok_iff.1 h
  refine ⟨Target.audit_eq_ok_iff.2 ⟨symbols, hs, rfl⟩, ?_⟩
  unfold Allowance.Affects
  split
  · next happlies => exact Policy.violations_extend _ _ a names happlies
  · next happlies =>
    rw [Bool.not_eq_true] at happlies
    cases a with
    | extended => exact Policy.reordersImports_extend _ _ names happlies
    | core | exported => cases happlies

/-- The verdicts on one target of a run, before and after a list has new names. -/
structure Extends (plan : Plan) (disk : Disk) (a : Allowance) (names : List String)
    (target : Target) (block : Verdict × Verdict) : Prop where
  old : plan.verdictOf disk target = .ok block.1
  new : (plan.extend a names).verdictOf disk target = .ok block.2
  census : block.2.census = block.1.census
  violations : a.Affects names target.component block.1.violations block.2.violations

/-- A run that succeeds does so with new names, target by target. -/
theorem result_audit_extend {report : Report} (h : (plan.audit disk).result = .ok report) :
    ∃ blocks, List.Forall₂ (plan.Extends disk a names) plan.manifest blocks ∧
      report = .ofVerdicts (blocks.map (·.1)) ∧
      ((plan.extend a names).audit disk).result = .ok (.ofVerdicts (blocks.map (·.2))) := by
  obtain ⟨verdicts, hverdicts, rfl⟩ := audit_eq_ok_iff.1 h
  let blocks := verdicts.map fun v => (v, v.under (plan.policy.extend a names))
  have hblocks : List.Forall₂ (plan.Extends disk a names) plan.manifest blocks :=
    List.forall₂_map_right_iff.2 <| hverdicts.imp fun target v hv =>
      let ⟨hnew, haffects⟩ := verdictOf_extend a names hv
      ⟨hv, hnew, rfl, haffects⟩
  refine ⟨blocks, hblocks, ?_, audit_eq_ok_iff.2 ⟨_, ?_, rfl⟩⟩
  · simp [blocks, Function.comp_def]
  · exact List.forall₂_map_right_iff.2 (hblocks.imp fun target block hb => hb.new)

variable {a names} {targets : List Target} {blocks : List (Verdict × Verdict)}

/-- New names do not change what is in a file. -/
theorem files_eq_of_extends (h : List.Forall₂ (plan.Extends disk a names) targets blocks) :
    (Report.ofVerdicts (blocks.map (·.2))).files = (Report.ofVerdicts (blocks.map (·.1))).files := by
  simp only [Report.ofVerdicts, List.map_map]
  refine List.map_congr_left fun block hb => ?_
  obtain ⟨target, -, hblock⟩ := exists_right_of_forall₂ h.flip hb
  exact congrArg Census.summary hblock.census

/-- A list that counts everywhere takes what it excuses out of the whole report. -/
theorem violations_eq_of_extends (h : List.Forall₂ (plan.Extends disk a names) targets blocks)
    (happlies : ∀ component, a.appliesTo component = true) :
    (Report.ofVerdicts (blocks.map (·.2))).violations =
      (Report.ofVerdicts (blocks.map (·.1))).violations.filter (!·.isListed names a.kind) := by
  simp only [Report.ofVerdicts, List.flatMap_map, List.filter_flatMap]
  refine List.flatMap_congr fun block hb => ?_
  obtain ⟨target, -, hblock⟩ := exists_right_of_forall₂ h.flip hb
  simpa [Allowance.Affects, happlies] using hblock.violations

/-- New names add no violation. -/
theorem violations_subperm_of_extends
    (h : List.Forall₂ (plan.Extends disk a names) targets blocks) :
    (Report.ofVerdicts (blocks.map (·.2))).violations.Subperm
      (Report.ofVerdicts (blocks.map (·.1))).violations := by
  simp only [Report.ofVerdicts, List.flatMap_map]
  induction h with
  | nil => exact List.Subperm.refl _
  | cons hblock _ ih => exact List.Subperm.append hblock.violations.subperm ih

/-- More names in a configuration take away the violations that they excuse and add none. Names that
only the integration component may import change nothing in another target but the order of its
imports. -/
theorem audit_extend (override : Option Path) (config : Config) (manifest : List Target)
    (disk : Disk) (names : List String) {report : Report}
    (h : (((make override config).withManifest manifest).audit disk).result = .ok report) :
    let plan (config : Config) : Plan := (make override config).withManifest manifest
    let result (config : Config) := ((plan config).audit disk).result
    -- Imports of names that are now open to every component are gone, and the rest stays.
    result (config.extend .core names) =
      .ok ⟨report.files, report.violations.filter (!·.isListed names .unwhitelistedImport)⟩ ∧
    -- So are private symbols that may now stay visible.
    result (config.extend .exported names) =
      .ok ⟨report.files, report.violations.filter (!·.isListed names .leakedPrivate)⟩ ∧
    -- What the integration component may now import is gone from its own targets only.
    (∃ blocks : List (Verdict × Verdict),
      List.Forall₂ (fun target block =>
        (plan config).verdictOf disk target = .ok block.1 ∧
        (plan (config.extend .extended names)).verdictOf disk target = .ok block.2 ∧
        block.2.census.summary = block.1.census.summary ∧
        match target.component with
        | .integration => block.2.violations =
            block.1.violations.filter (!·.isListed names .unwhitelistedImport)
        | .main => ReordersImports block.1.violations block.2.violations) manifest blocks ∧
      report = .ofVerdicts (blocks.map (·.1)) ∧
      result (config.extend .extended names) = .ok (.ofVerdicts (blocks.map (·.2)))) ∧
    -- Neither way is another file audited, another summary given or a violation added.
    ∀ a, (make override (config.extend a names)).manifest = (make override config).manifest ∧
      ∃ report', result (config.extend a names) = .ok report' ∧ report'.files = report.files ∧
        report'.violations.Subperm report.violations := by
  intro plan result
  have hplan (a : Allowance) : plan (config.extend a names) = (plan config).extend a names :=
    congrArg (withManifest · manifest) (make_extend override config a names)
  have hresult (a : Allowance) :
      ∃ blocks, List.Forall₂ ((plan config).Extends disk a names) manifest blocks ∧
        report = .ofVerdicts (blocks.map (·.1)) ∧
        result (config.extend a names) = .ok (.ofVerdicts (blocks.map (·.2))) := by
    simp only [result, hplan]
    exact result_audit_extend a names h
  have hfilter (a : Allowance) (happlies : ∀ component, a.appliesTo component = true) :
      result (config.extend a names) =
        .ok ⟨report.files, report.violations.filter (!·.isListed names a.kind)⟩ := by
    obtain ⟨blocks, hblocks, rfl, hnew⟩ := hresult a
    rw [hnew, ← files_eq_of_extends hblocks, ← violations_eq_of_extends hblocks happlies]
  refine ⟨hfilter .core fun _ => rfl, hfilter .exported fun _ => rfl, ?_, fun a => ⟨?_, ?_⟩⟩
  · obtain ⟨blocks, hblocks, hold, hnew⟩ := hresult .extended
    refine ⟨blocks, hblocks.imp fun target block hb => ?_, hold, hnew⟩
    refine ⟨hb.old, hplan .extended ▸ hb.new, congrArg Census.summary hb.census, ?_⟩
    have haffects := hb.violations
    unfold Allowance.Affects at haffects
    cases hc : target.component <;> rw [hc] at haffects <;> exact haffects
  · rw [make_extend]
    rfl
  · obtain ⟨blocks, hblocks, rfl, hnew⟩ := hresult a
    exact ⟨_, hnew, files_eq_of_extends hblocks, violations_subperm_of_extends hblocks⟩

/-- An object file that imports two names, of which only the second is in the standard lists. -/
def twoImports : ByteArray :=
  Elf.write ⟨.bits64, .little⟩
    [.imported (Utf8.encode "dlopen") (by decide +kernel),
      .imported (Utf8.encode "poll") (by decide +kernel)]

/-- A name that is opened for the integration component alone is no longer reported there. In the
main component it is, now in front of the other import. -/
theorem audit_extend_twoImports :
    let disk : Disk := .ofList [("a.o", .ok twoImports), ("b.o", .ok twoImports)]
    let manifest : List Target := [⟨⟨"a.o"⟩, .main, ""⟩, ⟨⟨"b.o"⟩, .integration, ""⟩]
    let violations (config : Config) :=
      (((make none config).withManifest manifest).audit disk).result.map (·.violations)
    violations .empty = .ok [⟨.unwhitelistedImport, ⟨"a.o"⟩, "poll"⟩,
      ⟨.unwhitelistedImport, ⟨"a.o"⟩, "dlopen"⟩, ⟨.unwhitelistedImport, ⟨"b.o"⟩, "dlopen"⟩] ∧
    violations (Config.empty.extend .core ["dlopen"]) =
      .ok [⟨.unwhitelistedImport, ⟨"a.o"⟩, "poll"⟩] ∧
    violations (Config.empty.extend .extended ["dlopen"]) =
      .ok [⟨.unwhitelistedImport, ⟨"a.o"⟩, "dlopen"⟩, ⟨.unwhitelistedImport, ⟨"a.o"⟩, "poll"⟩] := by
  intro disk manifest violations
  have hrun : (((make none .empty).withManifest manifest).audit disk).result = .ok
      ⟨[⟨⟨⟨"a.o"⟩, .main, ""⟩, ⟨0, 0, 0, 0, 2⟩⟩, ⟨⟨⟨"b.o"⟩, .integration, ""⟩, ⟨0, 0, 0, 0, 2⟩⟩],
        [⟨.unwhitelistedImport, ⟨"a.o"⟩, "poll"⟩, ⟨.unwhitelistedImport, ⟨"a.o"⟩, "dlopen"⟩,
          ⟨.unwhitelistedImport, ⟨"b.o"⟩, "dlopen"⟩]⟩ := by
    decide +kernel
  obtain ⟨hcore, -, -, -⟩ := audit_extend none .empty manifest disk ["dlopen"] hrun
  refine ⟨?_, ?_, by decide +kernel⟩
  · simp only [violations, hrun]
    rfl
  · simp only [violations, hcore]
    decide

end Plan

end LinkageAudit

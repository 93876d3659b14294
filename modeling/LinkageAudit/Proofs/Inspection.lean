import LinkageAudit.Proofs.Exit

/-!
# Inspections and audits

Inspecting a target of the manifest shows the same as the audit reports of it: the same summary,
the same violations, and in text the same lines. If the audit fails, so does the inspection of the
target that it fails at.

* `Plan.result_inspect`: an inspection shows the verdict on its target.
* `Report.text_ofVerdicts`, `Inspection.text_printout`: both texts by the violations of each target.
* `Verdict.inspection_shows`: an inspection next to the summary and the violations of its target.
* `Plan.inspect_agrees`: both commands on one plan, target by target.
-/

namespace LinkageAudit

/-! ## Texts -/

/-- The lines of violations in a text report. -/
def Violation.lines (violations : List Violation) : String :=
  String.join (violations.map fun v => v.line ++ "\n")

theorem Violation.lines_append (vs vs' : List Violation) :
    lines (vs ++ vs') = lines vs ++ lines vs' := by
  simp [lines]

theorem Violation.lines_flatMap {α : Type} (f : α → List Violation) (l : List α) :
    lines (l.flatMap f) = String.join (l.map fun a => lines (f a)) := by
  induction l with
  | nil => rfl
  | cons a l ih => rw [List.flatMap_cons, lines_append, ih, List.map_cons, String.join_cons]

theorem Report.text_printout (r : Report) :
    r.printout.text false = Violation.lines r.violations := by
  show String.join ((r.violations.map (·.line)).map (· ++ "\n")) = _
  rw [List.map_map]
  rfl

/-- The text of a report has the lines of one target after those of another. -/
theorem Report.text_ofVerdicts (verdicts : List Verdict) :
    (Report.ofVerdicts verdicts).printout.text false =
      String.join (verdicts.map fun v => Violation.lines v.violations) := by
  rw [text_printout]
  exact Violation.lines_flatMap _ _

/-- What the text of an inspection says before the violations: one line for the target and one for
each role. -/
def Inspection.head (i : Inspection) : String :=
  String.join ((i.file.heading :: i.listings.map (·.line)).map (· ++ "\n"))

theorem Inspection.text_printout (i : Inspection) :
    i.printout.text false = i.head ++ Violation.lines i.violations := by
  show String.join ((i.file.heading :: i.listings.map (·.line) ++
    i.violations.map (·.line)).map (· ++ "\n")) = _
  rw [List.map_append, String.join_append, List.map_map]
  rfl

/-! ## Listings -/

namespace Census

theorem role_listings (c : Census) : c.listings.map (·.role) = Role.all := by
  rw [listings, List.map_map]
  exact List.map_id _

/-- Each listing has as many symbols as the summary counts. -/
theorem length_items_of_mem_listings {c : Census} {l : Listing} (h : l ∈ c.listings) :
    l.items.length = c.summary.counts.get l.role := by
  obtain ⟨role, -, rfl⟩ := List.mem_map.1 h
  simp [summary, counts]

end Census

/-- An inspection shows the part of a report that is about one target: its summary, its violations,
the lines of these behind everything else, and the symbols that the summary counts. -/
structure Inspection.Shows (i : Inspection) (summary : Summary) (violations : List Violation) :
    Prop where
  file_eq : i.file = summary
  violations_eq : i.violations = violations
  text_eq : i.printout.text false = i.head ++ Violation.lines violations
  roles_eq : i.listings.map (·.role) = Role.all
  length_eq : ∀ l ∈ i.listings, l.items.length = summary.counts.get l.role

theorem Verdict.inspection_shows (v : Verdict) :
    v.inspection.Shows v.census.summary v.violations where
  file_eq := rfl
  violations_eq := rfl
  text_eq := Inspection.text_printout v.inspection
  roles_eq := v.census.role_listings
  length_eq _ hl := Census.length_items_of_mem_listings hl

/-! ## Commands -/

/-- The command that inspects a target as it stands in a manifest. -/
def Target.inspectCommand (t : Target) : Command :=
  .inspect t.path t.component (some t.publicPrefix)

/-- What the inspection of a target prints, and how many violations it finds. -/
def Verdict.inspectOutput (v : Verdict) : Output :=
  ⟨v.inspection.printout, v.violations.length⟩

namespace Plan

variable (plan : Plan) (disk : Disk)

theorem result_inspect (target : Target) :
    (plan.inspect disk target).result = (plan.verdictOf disk target).map Verdict.inspection := by
  unfold inspect verdictOf
  rw [Traced.result_bind]
  cases (target.audit disk plan.naming plan.policy).result <;> rfl

/-- Inspecting a target of a manifest comes to its verdict. -/
theorem result_run_inspectCommand (target : Target) :
    (target.inspectCommand.run plan disk).result =
      (plan.verdictOf disk target).map Verdict.inspectOutput := by
  show (plan.inspect disk target >>= _).result = _
  rw [Traced.result_bind, result_inspect]
  cases plan.verdictOf disk target <;> rfl

end Plan

/-- A run whose command fails prints nothing, and its last words are those of the failure. -/
theorem Invocation.exit_of_run_error {i : Invocation} {disk : Disk} {config : Config}
    {e : ObjectError} (filter : LogFilter)
    (hload : (Config.load disk i.options.config).result = .ok config)
    (hrun : ((i.command.getD .audit).run (.make i.options.buildDirectory config) disk).result =
      .error e) :
    ∃ log, i.exit disk filter = ⟨1, "", log ++ (Failure.object e).report⟩ := by
  have hexecute := Invocation.result_execute_of_load hload
  rw [hrun] at hexecute
  exact ⟨_, Invocation.exit_of_error filter hexecute⟩

namespace Plan

/-- Inspecting a target shows what the audit of the manifest reports of it. -/
theorem inspect_agrees (plan : Plan) (disk : Disk) :
    -- An audit that succeeds: an inspection shows what is reported of its target.
    (∀ report, (plan.audit disk).result = .ok report →
      (Command.audit.run plan disk).result = .ok ⟨report.printout, report.violations.length⟩ ∧
      ∃ blocks : List Verdict,
        List.Forall₂ (fun t v => plan.verdictOf disk t = .ok v) plan.manifest blocks ∧
        report.violations = blocks.flatMap (·.violations) ∧
        report.printout.text false =
          String.join (blocks.map fun v => Violation.lines v.violations) ∧
        ∀ (i : Nat) (target : Target) (block : Verdict), plan.manifest[i]? = some target →
          blocks[i]? = some block →
          ∃ (inspection : Inspection) (summary : Summary),
            (target.inspectCommand.run plan disk).result =
              .ok ⟨inspection.printout, inspection.violations.length⟩ ∧
            report.files[i]? = some summary ∧ inspection.Shows summary block.violations) ∧
    -- An audit that fails: the first target that fails does so on its own.
    (∀ e, (plan.audit disk).result = .error e →
      (Command.audit.run plan disk).result = .error e ∧
      ∃ before target after, plan.manifest = before ++ target :: after ∧
        (∀ t ∈ before, ∃ output, (t.inspectCommand.run plan disk).result = .ok output) ∧
        (target.inspectCommand.run plan disk).result = .error e ∧
        -- Nothing is printed then, and both runs end in the same words.
        ∀ options config filter, (Config.load disk options.config).result = .ok config →
          plan = .make options.buildDirectory config →
          ∃ log log', (Invocation.mk options (some .audit)).exit disk filter =
              ⟨1, "", log ++ (Failure.object e).report⟩ ∧
            (Invocation.mk options (some target.inspectCommand)).exit disk filter =
              ⟨1, "", log' ++ (Failure.object e).report⟩) ∧
    -- Without a prefix a target has that of its component.
    ∀ object component, (Command.inspect object component none).run plan disk =
      (Command.inspect object component (some component.publicPrefix)).run plan disk := by
  refine ⟨fun report h => ⟨Command.run_audit_eq_ok_iff.2 ⟨report, h, rfl⟩, ?_⟩,
    fun e h => ⟨Command.run_audit_eq_error_iff.2 h, ?_⟩, fun _ _ => rfl⟩
  · obtain ⟨blocks, hblocks, rfl⟩ := audit_eq_ok_iff.1 h
    refine ⟨blocks, hblocks, rfl, Report.text_ofVerdicts blocks,
      fun i target block htarget hblock => ?_⟩
    have hverdict : plan.verdictOf disk target = .ok block := by
      obtain ⟨hi, rfl⟩ := List.getElem?_eq_some_iff.1 htarget
      obtain ⟨hi', rfl⟩ := List.getElem?_eq_some_iff.1 hblock
      exact hblocks.get hi hi'
    refine ⟨block.inspection, block.census.summary, ?_, ?_, block.inspection_shows⟩
    · rw [result_run_inspectCommand, hverdict]
      rfl
    · show (blocks.map (·.census.summary))[i]? = _
      rw [List.getElem?_map, hblock]
      rfl
  · obtain ⟨before, target, after, hm, hb, he⟩ := audit_eq_error_iff.1 h
    have hinspect : (target.inspectCommand.run plan disk).result = .error e := by
      rw [result_run_inspectCommand, he]
      rfl
    refine ⟨before, target, after, hm, fun t ht => ?_, hinspect,
      fun options config filter hload hplan => ?_⟩
    · obtain ⟨v, hv⟩ := hb t ht
      exact ⟨v.inspectOutput, by rw [result_run_inspectCommand, hv]; rfl⟩
    · subst hplan
      obtain ⟨log, haudit⟩ := Invocation.exit_of_run_error
        (i := ⟨options, some .audit⟩) filter hload (Command.run_audit_eq_error_iff.2 h)
      obtain ⟨log', hexit⟩ := Invocation.exit_of_run_error
        (i := ⟨options, some target.inspectCommand⟩) filter hload hinspect
      exact ⟨log, log', haudit, hexit⟩

end Plan

end LinkageAudit

import LinkageAudit.Program
import LinkageAudit.Proofs.Audit.Composition
import LinkageAudit.Proofs.Elf.RoundTrip
import LinkageAudit.Proofs.Text.Utf8

/-!
# Exit statuses

What the exit status and the printed text say about a run.

* `Command.findings`: the violations that a command reports.
* `Invocation.exit_cases`: a run ends because there is no configuration, because its command fails,
  or with what the command prints.
* `Report.text_printout_eq_empty_iff`: a text report is empty exactly if nothing is reported.
* `exitOf_of_parse`: the exit status of every run, and what can be read off it.
-/

namespace LinkageAudit

/-! ## Commands -/

namespace Command

/-- The violations that a command reports. Listing commands report none. -/
def findings (command : Command) (plan : Plan) (disk : Disk) :
    Except ObjectError (List Violation) :=
  match command with
  | audit => (plan.audit disk).result.map (·.violations)
  | inspect object component publicPrefix =>
    (plan.inspect disk (.ofInspect object component publicPrefix)).result.map (·.violations)
  | whitelist | manifest => .ok []

variable {command : Command} {plan : Plan} {disk : Disk}

theorem run_audit_eq_ok_iff {output : Output} :
    (audit.run plan disk).result = .ok output ↔
      ∃ report, (plan.audit disk).result = .ok report ∧
        output = ⟨report.printout, report.violations.length⟩ := by
  simp [run, bind_eq_ok_iff, @eq_comm _ output]

theorem run_audit_eq_error_iff {e : ObjectError} :
    (audit.run plan disk).result = .error e ↔ (plan.audit disk).result = .error e := by
  rw [run, Traced.result_bind]
  cases (plan.audit disk).result <;> simp

theorem run_inspect_eq_ok_iff {object : Path} {component : Component}
    {publicPrefix : Option String} {output : Output} :
    ((inspect object component publicPrefix).run plan disk).result = .ok output ↔
      ∃ inspection,
        (plan.inspect disk (.ofInspect object component publicPrefix)).result = .ok inspection ∧
        output = ⟨inspection.printout, inspection.violations.length⟩ := by
  simp [run, bind_eq_ok_iff, @eq_comm _ output]

/-- A command that succeeds counts the violations that it reports. -/
theorem exists_findings_of_run {output : Output}
    (h : (command.run plan disk).result = .ok output) :
    ∃ violations, command.findings plan disk = .ok violations ∧
      output.violations = violations.length := by
  cases command with
  | audit =>
    obtain ⟨report, haudit, rfl⟩ := run_audit_eq_ok_iff.1 h
    exact ⟨report.violations, by rw [findings, haudit]; rfl, rfl⟩
  | inspect object component publicPrefix =>
    obtain ⟨inspection, hinspect, rfl⟩ := run_inspect_eq_ok_iff.1 h
    exact ⟨inspection.violations, by rw [findings, hinspect]; rfl, rfl⟩
  | whitelist | manifest =>
    cases h
    exact ⟨[], rfl, rfl⟩

/-- Only audits and inspections report violations. -/
theorem eq_audit_or_eq_inspect_of_findings {violations : List Violation}
    (h : command.findings plan disk = .ok violations) (hne : violations ≠ []) :
    command = audit ∨ ∃ object component publicPrefix,
      command = inspect object component publicPrefix := by
  cases command with
  | audit => exact .inl rfl
  | inspect object component publicPrefix => exact .inr ⟨object, component, publicPrefix, rfl⟩
  | whitelist | manifest =>
    cases h
    exact absurd rfl hne

end Command

/-! ## Printed text -/

/-- Lines print nothing only if there are none. -/
theorem Printout.text_lines_eq_empty_iff (p : Printout) : p.text false = "" ↔ p.lines = [] := by
  show String.join (p.lines.map (· ++ "\n")) = "" ↔ _
  cases p.lines with
  | nil => simp
  | cons line lines => simp [String.append_eq_empty_iff]

theorem Report.text_printout_eq_empty_iff (r : Report) :
    r.printout.text false = "" ↔ r.violations = [] := by
  rw [Printout.text_lines_eq_empty_iff]
  exact List.map_eq_nil_iff

/-! ## Runs -/

namespace Invocation

variable (i : Invocation) (disk : Disk) (filter : LogFilter)

/-- A run loads its configuration and then runs its command. -/
theorem result_execute :
    (i.execute disk).result = (Config.load disk i.options.config).result.mapError .config >>=
      fun config => ((i.command.getD .audit).run (.make i.options.buildDirectory config)
        disk).result.mapError .object := by
  simp only [execute, plan, Traced.result_bind, Traced.result_emit, ok_bind,
    Traced.result_mapError, Traced.result_pure]
  cases (Config.load disk i.options.config).result with
  | error e => rfl
  | ok config =>
    show ((i.output _ disk).result >>= _) = (i.output _ disk).result
    cases (i.output (.make i.options.buildDirectory config) disk).result with
    | error e => rfl
    | ok o =>
      rw [ok_bind]
      split <;> rfl

variable {i disk} in
/-- With a configuration, a run comes to what its command comes to. -/
theorem result_execute_of_load {config : Config}
    (h : (Config.load disk i.options.config).result = .ok config) :
    (i.execute disk).result = ((i.command.getD .audit).run (.make i.options.buildDirectory config)
      disk).result.mapError .object := by
  rw [result_execute, h]
  rfl

variable {i disk} in
theorem exit_of_ok {o : Output} (h : (i.execute disk).result = .ok o) :
    i.exit disk filter = ⟨if i.rejects o then 2 else 0, o.printout.text i.options.json,
      filter.render (i.execute disk).events⟩ := by
  simp only [Invocation.exit, h]

variable {i disk} in
theorem exit_of_error {f : Failure} (h : (i.execute disk).result = .error f) :
    i.exit disk filter = ⟨1, "", filter.render (i.execute disk).events ++ f.report⟩ := by
  simp only [Invocation.exit, h]

variable {i disk} in
/-- A successful audit prints its report, whatever the log filter. -/
theorem stdout_of_audit {config : Config} {report : Report}
    (hcommand : i.command.getD .audit = .audit)
    (hload : (Config.load disk i.options.config).result = .ok config)
    (h : ((Plan.make i.options.buildDirectory config).audit disk).result = .ok report) :
    (i.exit disk filter).stdout = report.printout.text i.options.json := by
  have hrun := Command.run_audit_eq_ok_iff.2 ⟨report, h, rfl⟩
  have hexecute := result_execute_of_load hload
  rw [hcommand, hrun] at hexecute
  rw [exit_of_ok filter hexecute]

/-- A run ends for one of three reasons: there is no configuration, its command fails, or its
command has something to print. -/
theorem exit_cases :
    (∃ e, (Config.load disk i.options.config).result = .error e ∧
      (i.exit disk filter).status = 1 ∧ (i.exit disk filter).stdout = "") ∨
    (∃ config e, (Config.load disk i.options.config).result = .ok config ∧
      ((i.command.getD .audit).run (.make i.options.buildDirectory config) disk).result =
        .error e ∧
      (i.exit disk filter).status = 1 ∧ (i.exit disk filter).stdout = "") ∨
    ∃ config output, (Config.load disk i.options.config).result = .ok config ∧
      ((i.command.getD .audit).run (.make i.options.buildDirectory config) disk).result =
        .ok output ∧
      (i.exit disk filter).status = (if i.rejects output then 2 else 0) ∧
      (i.exit disk filter).stdout = output.printout.text i.options.json := by
  cases hload : (Config.load disk i.options.config).result with
  | error e =>
    have hexecute := result_execute i disk
    rw [hload] at hexecute
    refine .inl ⟨e, rfl, ?_⟩
    rw [exit_of_error filter hexecute]
    exact ⟨rfl, rfl⟩
  | ok config =>
    have hexecute := result_execute_of_load hload
    cases hrun : ((i.command.getD .audit).run (.make i.options.buildDirectory config)
        disk).result with
    | error e =>
      refine .inr (.inl ⟨config, e, rfl, hrun, ?_⟩)
      rw [hrun] at hexecute
      rw [exit_of_error filter hexecute]
      exact ⟨rfl, rfl⟩
    | ok output =>
      refine .inr (.inr ⟨config, output, rfl, hrun, ?_⟩)
      rw [hrun] at hexecute
      rw [exit_of_ok filter hexecute]
      exact ⟨rfl, rfl⟩

theorem status_eq_one_iff :
    (i.exit disk filter).status = 1 ↔
      (∃ e, (Config.load disk i.options.config).result = .error e) ∨
      ∃ config e, (Config.load disk i.options.config).result = .ok config ∧
        ((i.command.getD .audit).run (.make i.options.buildDirectory config) disk).result =
          .error e := by
  rcases exit_cases i disk filter with ⟨e, hload, hstatus, -⟩ |
    ⟨config, e, hload, hrun, hstatus, -⟩ | ⟨config, output, hload, hrun, hstatus, -⟩
  · simp [hload, hstatus]
  · simp [hload, hrun, hstatus]
  · have hne : (i.exit disk filter).status ≠ 1 := by
      rw [hstatus]
      split <;> decide
    simp [hload, hrun, hne]

/-- Strict runs of an audit or an inspection show that violations were reported. -/
theorem status_eq_two_iff :
    (i.exit disk filter).status = 2 ↔
      ∃ config output violations, (Config.load disk i.options.config).result = .ok config ∧
        ((i.command.getD .audit).run (.make i.options.buildDirectory config) disk).result =
          .ok output ∧ i.options.strict = true ∧
        (i.command = none ∨ i.command = some .audit ∨
          ∃ object component publicPrefix,
            i.command = some (.inspect object component publicPrefix)) ∧
        (i.command.getD .audit).findings (.make i.options.buildDirectory config) disk =
          .ok violations ∧ violations ≠ [] := by
  rcases exit_cases i disk filter with ⟨e, hload, hstatus, -⟩ |
    ⟨config, e, hload, hrun, hstatus, -⟩ | ⟨config, output, hload, hrun, hstatus, -⟩
  · simp [hload, hstatus]
  · simp [hload, hrun, hstatus]
  · obtain ⟨violations, hfindings, hcount⟩ := Command.exists_findings_of_run hrun
    have hrejects : (i.exit disk filter).status = 2 ↔
        i.options.strict = true ∧ violations ≠ [] := by
      simp [hstatus, rejects, hcount, List.length_pos_iff]
    rw [hrejects]
    constructor
    · rintro ⟨hstrict, hne⟩
      refine ⟨config, output, violations, hload, hrun, hstrict, ?_, hfindings, hne⟩
      cases hc : i.command with
      | none => exact .inl rfl
      | some command =>
        rw [hc, Option.getD_some] at hfindings
        rcases Command.eq_audit_or_eq_inspect_of_findings hfindings hne with
          rfl | ⟨object, component, publicPrefix, rfl⟩
        · exact .inr (.inl rfl)
        · exact .inr (.inr ⟨object, component, publicPrefix, rfl⟩)
    · rintro ⟨config', -, violations', hload', -, hstrict, -, hfindings', hne⟩
      obtain rfl := Except.ok.inj (hload.symm.trans hload')
      obtain rfl := Except.ok.inj (hfindings.symm.trans hfindings')
      exact ⟨hstrict, hne⟩

/-- Listings report no violations. -/
theorem status_ne_two_of_listing
    (h : i.command = some .whitelist ∨ i.command = some .manifest) :
    (i.exit disk filter).status ≠ 2 := by
  rw [Ne, status_eq_two_iff]
  rintro ⟨config, output, violations, -, -, -, -, hfindings, hne⟩
  rcases h with hc | hc <;> rw [hc] at hfindings <;> cases hfindings <;> exact hne rfl

theorem status_eq_zero_of_ne (h₁ : (i.exit disk filter).status ≠ 1)
    (h₂ : (i.exit disk filter).status ≠ 2) : (i.exit disk filter).status = 0 := by
  rcases exit_cases i disk filter with ⟨e, -, hstatus, -⟩ | ⟨config, e, -, -, hstatus, -⟩ |
    ⟨config, output, -, -, hstatus, -⟩
  · exact absurd hstatus h₁
  · exact absurd hstatus h₁
  · rw [hstatus] at h₂ ⊢
    exact if_neg fun hrejects => h₂ (if_pos hrejects)

/-- A run that fails prints nothing. -/
theorem stdout_eq_empty_of_status_eq_one (h : (i.exit disk filter).status = 1) :
    (i.exit disk filter).stdout = "" := by
  rcases exit_cases i disk filter with ⟨e, -, -, hstdout⟩ | ⟨config, e, -, -, -, hstdout⟩ |
    ⟨config, output, -, -, hstatus, -⟩
  · exact hstdout
  · exact hstdout
  · rw [hstatus] at h
    split at h <;> cases h

/-- A text audit that does not fail prints something exactly if it reports a violation. -/
theorem exists_report_of_text_audit (hjson : i.options.json = false)
    (hcommand : i.command.getD .audit = .audit) (h : (i.exit disk filter).status ≠ 1) :
    ∃ config report, (Config.load disk i.options.config).result = .ok config ∧
      ((Plan.make i.options.buildDirectory config).audit disk).result = .ok report ∧
      ((i.exit disk filter).stdout = "" ↔ report.violations = []) := by
  rcases exit_cases i disk filter with ⟨e, -, hstatus, -⟩ | ⟨config, e, -, -, hstatus, -⟩ |
    ⟨config, output, hload, hrun, -, hstdout⟩
  · exact absurd hstatus h
  · exact absurd hstatus h
  · rw [hcommand, Command.run_audit_eq_ok_iff] at hrun
    obtain ⟨report, haudit, rfl⟩ := hrun
    refine ⟨config, report, hload, haudit, ?_⟩
    rw [hstdout, hjson]
    exact report.text_printout_eq_empty_iff

end Invocation

/-! ## Outcomes -/

/-- What a text audit can come to. -/
inductive Outcome where
  | clean
  | reported
  | failed
  /-- The command line makes no sense. -/
  | misused
  deriving DecidableEq, Repr

/-- The outcome that an exit status shows together with whether anything is printed. -/
def Outcome.shownBy (status : Nat) (silent : Bool) : Outcome :=
  match status, silent with
  | 1, _ => failed
  | _, false => reported
  | 0, true => clean
  | _, true => misused

/-- What an audit comes to, by its configuration and its report. -/
def Invocation.auditOutcome (i : Invocation) (disk : Disk) : Outcome :=
  match (Config.load disk i.options.config).result with
  | .error _ => .failed
  | .ok config =>
    match ((Plan.make i.options.buildDirectory config).audit disk).result with
    | .error _ => .failed
    | .ok report => if report.violations = [] then .clean else .reported

/-- A text audit shows its outcome. -/
theorem Invocation.shownBy_exit (i : Invocation) (disk : Disk) (filter : LogFilter)
    (hjson : i.options.json = false) (hcommand : i.command.getD .audit = .audit) :
    Outcome.shownBy (i.exit disk filter).status (i.exit disk filter).stdout.isEmpty =
      i.auditOutcome disk := by
  unfold auditOutcome
  rcases i.exit_cases disk filter with ⟨e, hload, hstatus, -⟩ |
    ⟨config, e, hload, hrun, hstatus, -⟩ | ⟨config, output, hload, hrun, hstatus, hstdout⟩
  · simp only [hload, hstatus, Outcome.shownBy]
  · rw [hcommand, Command.run_audit_eq_error_iff] at hrun
    simp only [hload, hrun, hstatus, Outcome.shownBy]
  · rw [hcommand, Command.run_audit_eq_ok_iff] at hrun
    obtain ⟨report, haudit, rfl⟩ := hrun
    have hsilent : (i.exit disk filter).stdout.isEmpty = true ↔ report.violations = [] := by
      rw [String.isEmpty_iff, hstdout, hjson]
      exact report.text_printout_eq_empty_iff
    simp only [hload, haudit]
    by_cases hclean : report.violations = []
    · have hzero : (i.exit disk filter).status = 0 := by
        rw [hstatus, rejects, hclean]
        simp
      rw [hzero, hsilent.2 hclean, if_pos hclean]
      rfl
    · rw [hstatus, Bool.eq_false_iff.2 (mt hsilent.1 hclean), if_neg hclean]
      by_cases hrejects : i.rejects ⟨report.printout, report.violations.length⟩ = true
      · rw [if_pos hrejects]
        rfl
      · rw [if_neg hrejects]
        rfl

theorem Invocation.auditOutcome_ne_misused (i : Invocation) (disk : Disk) :
    i.auditOutcome disk ≠ .misused := by
  unfold auditOutcome
  split
  · decide
  · split
    · decide
    · split <;> decide

/-- A command line that makes no sense, and does not ask for a text, ends as misuse. -/
theorem Stop.exit_of_mistake {s : Stop} (hhelp : s ≠ .help) (hversion : s ≠ .version) :
    s.exit.status = 2 ∧ s.exit.stdout = "" := by
  cases s with
  | help => exact absurd rfl hhelp
  | version => exact absurd rfl hversion
  | _ => exact ⟨rfl, rfl⟩

/-- The exit status of a run, for every command line that makes sense, and what an observer of a
text audit can tell from the status and from whether anything is printed. -/
theorem exitOf_of_parse (disk : Disk) (filter : LogFilter) {words : List String} {i : Invocation}
    (h : Invocation.parse words = .ok i) :
    let exit := exitOf disk filter words
    let command := i.command.getD .audit
    let load := (Config.load disk i.options.config).result
    let plan (config : Config) := Plan.make i.options.buildDirectory config
    let isTextAudit := i.options.json = false ∧ (i.command = none ∨ i.command = some .audit)
    -- Status 1: there is no configuration, or the command fails.
    (exit.status = 1 ↔ (∃ e, load = .error e) ∨
      ∃ config e, load = .ok config ∧ (command.run (plan config) disk).result = .error e) ∧
    -- Status 2: neither fails, and violations are reported that count.
    (exit.status = 2 ↔
      ∃ config output violations, load = .ok config ∧
        (command.run (plan config) disk).result = .ok output ∧ i.options.strict = true ∧
        (i.command = none ∨ i.command = some .audit ∨
          ∃ object component publicPrefix,
            i.command = some (.inspect object component publicPrefix)) ∧
        command.findings (plan config) disk = .ok violations ∧ violations ≠ []) ∧
    (exit.status ≠ 1 → exit.status ≠ 2 → exit.status = 0) ∧
    (i.command = some .whitelist ∨ i.command = some .manifest → exit.status ≠ 2) ∧
    -- A run that fails prints nothing.
    (exit.status = 1 → exit.stdout = "") ∧
    -- A text audit that does not fail prints nothing exactly if it reports nothing.
    (isTextAudit → exit.status ≠ 1 →
      ∃ config report, load = .ok config ∧ ((plan config).audit disk).result = .ok report ∧
        (exit.stdout = "" ↔ report.violations = [])) ∧
    -- So both together show its outcome, and no outcome looks like a usage error.
    (isTextAudit →
      Outcome.shownBy exit.status exit.stdout.isEmpty = i.auditOutcome disk) ∧
    (i.auditOutcome disk ≠ .misused) ∧
    ∀ words' s, Invocation.parse words' = .error s → s ≠ .help → s ≠ .version →
      Outcome.shownBy (exitOf disk filter words').status
        (exitOf disk filter words').stdout.isEmpty = .misused := by
  intro exit command load plan isTextAudit
  have hexit : exit = i.exit disk filter := by simp only [exit, exitOf, h]
  have hcommand : i.command = none ∨ i.command = some .audit → i.command.getD .audit = .audit := by
    rintro (hc | hc) <;> rw [hc] <;> rfl
  rw [hexit]
  refine ⟨i.status_eq_one_iff disk filter, i.status_eq_two_iff disk filter,
    i.status_eq_zero_of_ne disk filter, i.status_ne_two_of_listing disk filter,
    i.stdout_eq_empty_of_status_eq_one disk filter,
    fun ⟨hjson, hc⟩ => i.exists_report_of_text_audit disk filter hjson (hcommand hc),
    fun ⟨hjson, hc⟩ => i.shownBy_exit disk filter hjson (hcommand hc),
    i.auditOutcome_ne_misused disk, ?_⟩
  intro words' s hs hhelp hversion
  obtain ⟨hstatus, hstdout⟩ := Stop.exit_of_mistake hhelp hversion
  simp only [exitOf, hs, hstatus, hstdout]
  rfl

/-- An object file that exports one name, which is under no prefix. -/
def strayExport : ByteArray :=
  Elf.write ⟨.bits64, .little⟩ [.exported (Utf8.encode "stray") (by decide +kernel)]

/-- Violations in the first file are not printed if the second cannot be read, and they do not
count either. -/
theorem exitOf_of_parse_strayExport :
    let disk : Disk := .ofList [("_build/termpaint@sta/termpaint.c.o", .ok strayExport)]
    let plan : Plan := .make none .empty
    let first : Target := ⟨⟨"_build/termpaint@sta/termpaint.c.o"⟩, .main, "termpaint_"⟩
    plan.manifest.head? = some first ∧
    (plan.verdictOf disk first).map (·.violations) =
      .ok [⟨.leakedGeneric, first.path, "stray"⟩] ∧
    Invocation.parse ["--strict"] = .ok ⟨⟨false, true, none, none⟩, none⟩ ∧
    (exitOf disk .standard ["--strict"]).status = 1 ∧
    (exitOf disk .standard ["--strict"]).stdout = "" := by
  intro disk plan first
  have hparse : Invocation.parse ["--strict"] = .ok ⟨⟨false, true, none, none⟩, none⟩ := by
    decide +kernel
  have hfails : (plan.audit disk).result =
      .error (.unreadable ⟨"_build/termpaint@sta/termpaint_event.c.o"⟩ .notFound) := by
    decide +kernel
  obtain ⟨hone, -, -, -, hsilent, -⟩ := exitOf_of_parse disk .standard hparse
  have hstatus : (exitOf disk .standard ["--strict"]).status = 1 :=
    hone.2 (.inr ⟨.empty, _, rfl, Command.run_audit_eq_error_iff.2 hfails⟩)
  exact ⟨by decide +kernel, by decide +kernel, hparse, hstatus, hsilent hstatus⟩

end LinkageAudit

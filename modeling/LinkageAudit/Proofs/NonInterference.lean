import LinkageAudit.Proofs.CommandLine.Flags
import LinkageAudit.Proofs.Exit

/-!
# What flags and the log filter change

A report is compared between builds, so nothing but the audited files may show in it. The log filter
and the flags each change one thing and leave the rest of the exit alone.

* `Invocation.work`, `Invocation.execute_of_ok`: a run up to the point where the flags matter, and
  what they add to it.
* `Invocation.exit_mark_strict`, `Invocation.exit_mark_json`: one exit with a flag and without it.
* `exitOf_noninterference`: the same for command lines.
-/

namespace LinkageAudit

open CommandLine

/-- The log of two runs on end is the log of one and then the other. -/
theorem LogFilter.render_append (filter : LogFilter) (events events' : List Event) :
    filter.render (events ++ events') = filter.render events ++ filter.render events' := by
  simp [render]

namespace Invocation

/-- A run up to the point where its violations are counted. -/
def work (i : Invocation) (disk : Disk) : Traced Failure Output := do
  let plan ← i.plan disk
  Traced.emit (.buildDirectory plan.buildDirectory)
  i.output plan disk

/-- The warning of a run that fails for its violations alone. -/
def warning (i : Invocation) (o : Output) : List Event :=
  if i.rejects o then [.strictFailure o.violations] else []

variable {i : Invocation} {disk : Disk} {filter : LogFilter}

theorem execute_eq (i : Invocation) (disk : Disk) :
    i.execute disk = i.work disk >>= fun o => ⟨i.warning o, .ok o⟩ := by
  unfold execute work
  rw [Traced.bind_assoc]
  refine congrArg (i.plan disk >>= ·) (funext fun plan => ?_)
  rw [Traced.bind_assoc]
  refine congrArg (Traced.emit _ >>= ·) (funext fun _ => ?_)
  refine congrArg (i.output plan disk >>= ·) (funext fun o => ?_)
  unfold warning
  split <;> rfl

theorem execute_of_ok {o : Output} (h : (i.work disk).result = .ok o) :
    i.execute disk = ⟨(i.work disk).events ++ i.warning o, .ok o⟩ := by
  rw [execute_eq, Traced.bind_of_ok h]

theorem execute_of_error {f : Failure} (h : (i.work disk).result = .error f) :
    i.execute disk = ⟨(i.work disk).events, .error f⟩ := by
  rw [execute_eq, Traced.bind_of_error h]

theorem rejects_iff {o : Output} :
    i.rejects o = true ↔ i.options.strict = true ∧ 0 < o.violations := by
  simp [rejects]

/-- No flag changes what a run does before its violations are counted. -/
theorem work_mark (i : Invocation) (f : Flag) (disk : Disk) :
    (i.mark f).work disk = i.work disk := by
  cases f <;> rfl

theorem exit_of_work_ok {o : Output} (h : (i.work disk).result = .ok o) :
    i.exit disk filter = ⟨if i.rejects o then 2 else 0, o.printout.text i.options.json,
      filter.render (i.work disk).events ++ filter.render (i.warning o)⟩ := by
  have hexecute := execute_of_ok h
  rw [exit_of_ok filter (by rw [hexecute]), hexecute, LogFilter.render_append]

theorem exit_of_work_error {f : Failure} (h : (i.work disk).result = .error f) :
    i.exit disk filter = ⟨1, "", filter.render (i.work disk).events ++ f.report⟩ := by
  have hexecute := execute_of_error h
  rw [exit_of_error filter (by rw [hexecute]), hexecute]

/-- The log filter shows in the log only. -/
theorem exit_filter (i : Invocation) (disk : Disk) (filter filter' : LogFilter) :
    (i.exit disk filter).stdout = (i.exit disk filter').stdout ∧
      (i.exit disk filter).status = (i.exit disk filter').status := by
  cases h : (i.work disk).result with
  | error f => rw [exit_of_work_error h, exit_of_work_error h]; exact ⟨rfl, rfl⟩
  | ok o => rw [exit_of_work_ok h, exit_of_work_ok h]; exact ⟨rfl, rfl⟩

/-- Strictness changes nothing, or turns a success into a rejection and says so at the end of the
log. -/
theorem exit_mark_strict (i : Invocation) (disk : Disk) (filter : LogFilter) :
    (i.mark .strict).exit disk filter = i.exit disk filter ∨
      ((i.exit disk filter).status = 0 ∧ ∃ n, 0 < n ∧ (i.mark .strict).exit disk filter =
        ⟨2, (i.exit disk filter).stdout,
          (i.exit disk filter).stderr ++ filter.render [.strictFailure n]⟩) := by
  have hwork := work_mark i .strict disk
  cases h : (i.work disk).result with
  | error f =>
    rw [exit_of_work_error h, exit_of_work_error (i := i.mark .strict) (hwork ▸ h), hwork]
    exact .inl rfl
  | ok o =>
    rw [exit_of_work_ok h, exit_of_work_ok (i := i.mark .strict) (hwork ▸ h), hwork]
    cases hloose : i.rejects o with
    | true =>
      -- The run is strict already.
      have hstrict : (i.mark .strict).rejects o = true :=
        decide_eq_true (rejects_iff.1 hloose).2
      exact .inl (by simp only [warning, hloose, hstrict]; rfl)
    | false =>
      by_cases hviolations : 0 < o.violations
      · have hstrict : (i.mark .strict).rejects o = true := decide_eq_true hviolations
        refine .inr ⟨rfl, o.violations, hviolations, ?_⟩
        have hsilent : filter.render [] = "" := rfl
        simp only [warning, hloose, hstrict, if_true, Bool.false_eq_true, if_false, hsilent,
          String.append_empty]
        rfl
      · have hstrict : (i.mark .strict).rejects o = false := decide_eq_false hviolations
        exact .inl (by simp only [warning, hloose, hstrict]; rfl)

/-- The form of the report shows on the standard output only. -/
theorem exit_mark_json (i : Invocation) (disk : Disk) (filter : LogFilter) :
    ((i.mark .json).exit disk filter).status = (i.exit disk filter).status ∧
      ((i.mark .json).exit disk filter).stderr = (i.exit disk filter).stderr := by
  have hwork := work_mark i .json disk
  cases h : (i.work disk).result with
  | error f =>
    rw [exit_of_work_error h, exit_of_work_error (i := i.mark .json) (hwork ▸ h), hwork]
    exact ⟨rfl, rfl⟩
  | ok o =>
    rw [exit_of_work_ok h, exit_of_work_ok (i := i.mark .json) (hwork ▸ h), hwork]
    exact ⟨rfl, rfl⟩

end Invocation

/-- What can be told apart from outside by the log filter, by `--strict` and by `--json`, each
alone: the log, the exit status of a report with violations, and the form of the report. -/
theorem exitOf_noninterference (disk : Disk) {words : List String} {i : Invocation}
    (h : Invocation.parse words = .ok i) :
    -- The log filter changes neither the report nor the status.
    (∀ filter filter', (exitOf disk filter words).stdout = (exitOf disk filter' words).stdout ∧
      (exitOf disk filter words).status = (exitOf disk filter' words).status) ∧
    ∀ filter before after, words = before ++ after →
      let plain := exitOf disk filter words
      -- Strictness turns a success into a rejection at most, and warns of it at the end.
      (∀ i', Invocation.parse (before ++ "--strict" :: after) = .ok i' →
        let strict := exitOf disk filter (before ++ "--strict" :: after)
        strict.stdout = plain.stdout ∧
          ((strict.status = plain.status ∧ strict.stderr = plain.stderr) ∨
            (plain.status = 0 ∧ strict.status = 2 ∧ ∃ n, 0 < n ∧
              strict.stderr = plain.stderr ++ filter.render [.strictFailure n]))) ∧
      -- The form of the report changes nothing but the report.
      ∀ i', Invocation.parse (before ++ "--json" :: after) = .ok i' →
        let json := exitOf disk filter (before ++ "--json" :: after)
        json.status = plain.status ∧ json.stderr = plain.stderr := by
  refine ⟨fun filter filter' => ?_, fun filter before after hwords => ⟨fun i' h' => ?_,
    fun i' h' => ?_⟩⟩
  · simp only [exitOf, h]
    exact i.exit_filter disk filter filter'
  · have hmark := Invocation.eq_mark_of_parse_insert (f := .strict) (hwords ▸ h) h'
    simp only [exitOf, h, h', hmark]
    rcases i.exit_mark_strict disk filter with hsame | ⟨hstatus, n, hn, hexit⟩
    · rw [hsame]
      exact ⟨rfl, .inl ⟨rfl, rfl⟩⟩
    · rw [hexit]
      exact ⟨rfl, .inr ⟨hstatus, rfl, n, hn, rfl⟩⟩
  · have hmark := Invocation.eq_mark_of_parse_insert (f := .json) (hwords ▸ h) h'
    simp only [exitOf, h, h', hmark]
    exact i.exit_mark_json disk filter

/-- An inspection that finds a violation, with one more word after the subcommand. -/
theorem exitOf_noninterference_strayExport :
    let disk : Disk := .ofList [("a.o", .ok strayExport)]
    let plain := exitOf disk .standard ["inspect", "a.o"]
    let strict := exitOf disk .standard ["inspect", "--strict", "a.o"]
    Invocation.parse ["inspect", "a.o"] =
      .ok ⟨⟨false, false, none, none⟩, some (.inspect ⟨"a.o"⟩ .main none)⟩ ∧
    Invocation.parse ["inspect", "--strict", "a.o"] =
      .ok ⟨⟨false, true, none, none⟩, some (.inspect ⟨"a.o"⟩ .main none)⟩ ∧
    plain.status = 0 ∧ strict.status = 2 ∧ strict.stdout = plain.stdout ∧
    ∃ n, 0 < n ∧ strict.stderr = plain.stderr ++ LogFilter.standard.render [.strictFailure n] := by
  intro disk plain strict
  have hparse : Invocation.parse ["inspect", "a.o"] =
      .ok ⟨⟨false, false, none, none⟩, some (.inspect ⟨"a.o"⟩ .main none)⟩ := by
    decide +kernel
  have hparse' : Invocation.parse ["inspect", "--strict", "a.o"] =
      .ok ⟨⟨false, true, none, none⟩, some (.inspect ⟨"a.o"⟩ .main none)⟩ := by
    decide +kernel
  have hrejected : strict.status = 2 := by decide +kernel
  obtain ⟨-, hflags⟩ := exitOf_noninterference disk hparse
  obtain ⟨hstdout, hsame | ⟨hstatus, -, n, hn, hstderr⟩⟩ :=
    (hflags .standard ["inspect"] ["a.o"] rfl).1 _ hparse'
  · have hloose : plain.status = 0 := by decide +kernel
    have hstatus : strict.status = plain.status := hsame.1
    rw [hrejected, hloose] at hstatus
    cases hstatus
  · exact ⟨hparse, hparse', hstatus, hrejected, hstdout, n, hn, hstderr⟩

end LinkageAudit

import LinkageAudit.Proofs.Audit.Linkage
import LinkageAudit.Proofs.Audit.RawNames
import LinkageAudit.Proofs.Inspection
import LinkageAudit.Proofs.Text.Lines

/-!
# The lines of a text report

A text report has the line of each violation, in order, with a newline behind it. The path and the
name in such a line are printed as they are, newlines included, and nothing keeps a symbol table
from holding one. So a report has one line for each violation exactly if no reported path or name
holds a newline; in all other reports some violation takes several lines, and what an object file
says in these passes for the tool's own words.

* `Violation.isLine_line_iff`: when the line of a violation is one.
* `Plan.source_of_mem_violations`: where the texts in a report come from.
* `Plan.text_report_lines`: the text of every report as lines.
* `Plan.text_report_forged`: two different reports with one text.
-/

namespace LinkageAudit

/-! ## Lines -/

/-- A decoded name fits on a line exactly if no byte of it is a newline. -/
theorem isLine_decodeLossy_iff {bytes : List UInt8} :
    IsLine (Utf8.decodeLossy bytes) ↔ 0x0A ∉ bytes :=
  not_congr (Utf8.mem_decodeLossy_iff (by decide))

theorem Violation.isLine_message (kind : Violation.Kind) : IsLine kind.message := by
  cases kind <;> decide +kernel

/-- The line of a violation is one exactly if its path and its name hold no newline. -/
theorem Violation.isLine_line_iff {v : Violation} :
    IsLine v.line ↔ IsLine v.file.text ∧ IsLine v.symbol := by
  have hspace : IsLine " " := by decide
  have hcolon : IsLine ": " := by decide
  simp [Violation.line, isLine_append_iff, Violation.isLine_message, hspace, hcolon]

theorem Violation.count_line (v : Violation) :
    v.line.toList.count '\n' = v.file.text.toList.count '\n' + v.symbol.toList.count '\n' := by
  have hmessage := isLine_iff_count_eq_zero.1 (Violation.isLine_message v.kind)
  have hspace : " ".toList.count '\n' = 0 := by decide
  have hcolon : ": ".toList.count '\n' = 0 := by decide
  simp only [Violation.line, String.toList_append, List.count_append, hmessage, hspace, hcolon]
  omega

theorem Report.text_eq_unlines (r : Report) :
    r.printout.text false = unlines (r.violations.map (·.line)) := rfl

/-! ## Reported texts -/

namespace Plan

variable {plan : Plan} {disk : Disk}

/-- Whatever is reported is a path of the manifest and the decoded name of a symbol in the file
there. -/
theorem source_of_mem_violations {report : Report} (h : (plan.audit disk).result = .ok report)
    {v : Violation} (hv : v ∈ report.violations) :
    ∃ target ∈ plan.manifest, v.file = target.path ∧
      ∃ image raws, disk.read target.path = .ok image ∧ Elf.rawSymbols image = .ok raws ∧
        ∃ s ∈ raws, v.symbol = Utf8.decodeLossy s.name := by
  obtain ⟨blocks, hblocks, rfl⟩ := audit_eq_ok_iff.1 h
  obtain ⟨b, hb, hvb⟩ := List.mem_flatMap.1 hv
  obtain ⟨target, ht, hverdict⟩ := exists_right_of_forall₂ hblocks.flip hb
  have hblock := block_of_verdictOf hverdict
  rw [hblock.violations, hblock.census] at hvb
  obtain ⟨s, hs, -, hfile, hsymbol⟩ := Policy.mem_violations_census_iff.1 hvb
  obtain ⟨image, hread, hsymbols⟩ := Disk.symbols_eq_ok_iff.1 hblock.symbols
  rw [Elf.result_symbols_eq_map] at hsymbols
  obtain ⟨raws, hraws, hdecoded⟩ := map_eq_ok_iff.1 hsymbols
  rw [← hdecoded] at hs
  obtain ⟨raw, hraw, rfl⟩ := List.mem_map.1 hs
  have htarget : b.census.inventory.path = target.path := congrArg Target.path hblock.target_eq
  exact ⟨target, ht, hfile.trans htarget, image, raws, hread, hraws, raw, hraw, hsymbol⟩

/-- No path in the manifest holds a newline, and no name in an object file. -/
def FitsOnLines (plan : Plan) (disk : Disk) : Prop :=
  ∀ target ∈ plan.manifest, IsLine target.path.text ∧
    ∀ image raws, disk.read target.path = .ok image → Elf.rawSymbols image = .ok raws →
      ∀ s ∈ raws, 0x0A ∉ s.name

theorem FitsOnLines.isLine_of_mem_violations (hfits : plan.FitsOnLines disk) {report : Report}
    (h : (plan.audit disk).result = .ok report) {v : Violation} (hv : v ∈ report.violations) :
    IsLine v.file.text ∧ IsLine v.symbol := by
  obtain ⟨target, ht, hfile, image, raws, hread, hraws, s, hs, hsymbol⟩ :=
    source_of_mem_violations h hv
  obtain ⟨hpath, hnames⟩ := hfits target ht
  rw [hfile, hsymbol, isLine_decodeLossy_iff]
  exact ⟨hpath, hnames image raws hread hraws s hs⟩

/-- The text of a report has the line of each violation, in order, and a newline behind it. It has
one line for each violation exactly if no reported path or name holds a newline. -/
theorem text_report_lines {report : Report} (h : (plan.audit disk).result = .ok report) :
    let text := report.printout.text false
    let lines := report.violations.map (·.line)
    let newlines (s : String) : Nat := s.toList.count '\n'
    -- The text is what every text audit with this plan prints.
    (∀ (i : Invocation) (config : Config) (filter : LogFilter), i.options.json = false →
      i.command = none ∨ i.command = some .audit →
      (Config.load disk i.options.config).result = .ok config →
      plan = .make i.options.buildDirectory config → (i.exit disk filter).stdout = text) ∧
    text = unlines lines ∧
    -- Every newline in a reported path or name gives one line too many.
    lineCount text = report.violations.length +
      (report.violations.map fun v => newlines v.file.text + newlines v.symbol).sum ∧
    (lineCount text = report.violations.length ↔
      ∀ v ∈ report.violations, IsLine v.file.text ∧ IsLine v.symbol) ∧
    (MadeOfLines text lines ↔ ∀ v ∈ report.violations, IsLine v.file.text ∧ IsLine v.symbol) ∧
    -- Without newlines in the manifest and in the files, there is no other reading.
    (plan.FitsOnLines disk →
      MadeOfLines text lines ∧ ∀ lines', MadeOfLines text lines' → lines' = lines) := by
  intro text lines newlines
  have htext : text = unlines lines := report.text_eq_unlines
  have hlength : lines.length = report.violations.length := List.length_map _
  have hlines : (∀ line ∈ lines, IsLine line) ↔
      ∀ v ∈ report.violations, IsLine v.file.text ∧ IsLine v.symbol := by
    simp only [lines, List.forall_mem_map, Violation.isLine_line_iff]
  have hmade : MadeOfLines text lines ↔
      ∀ v ∈ report.violations, IsLine v.file.text ∧ IsLine v.symbol := by
    rw [htext, madeOfLines_unlines_iff, hlines]
  refine ⟨fun i config filter hjson hcommand hload hplan => ?_, htext, ?_, ?_, hmade,
    fun hfits => ?_⟩
  · subst hplan
    have haudit : i.command.getD .audit = .audit := by
      rcases hcommand with hc | hc <;> rw [hc] <;> rfl
    rw [Invocation.stdout_of_audit filter haudit hload h, hjson]
  · rw [htext, lineCount_unlines, hlength, List.map_map]
    simp only [Function.comp_def, Violation.count_line, newlines]
  · rw [htext, ← hlength, lineCount_unlines_eq_iff, hlines]
  · have hown : MadeOfLines text lines :=
      hmade.2 fun v hv => hfits.isLine_of_mem_violations h hv
    exact ⟨hown, fun lines' h' => h'.unique hown⟩

/-! ## Two targets -/

/-- A plan for two files whose names are under one prefix. -/
def twoTargets : Plan :=
  ⟨⟨"."⟩, [⟨⟨"a.o"⟩, .main, "x_"⟩, ⟨⟨"b.o"⟩, .main, "x_"⟩], .standard, .empty⟩

/-- A disk with the two files. -/
def twoFiles (a b : ByteArray) : Disk := .ofList [("a.o", .ok a), ("b.o", .ok b)]

theorem result_audit_twoTargets {a b : ByteArray} {symbols symbols' : List Symbol}
    (ha : (Elf.symbols a).result = .ok symbols) (hb : (Elf.symbols b).result = .ok symbols') :
    (twoTargets.audit (twoFiles a b)).result =
      .ok (.ofVerdicts
        [Target.verdict ⟨⟨"a.o"⟩, .main, "x_"⟩ .standard .empty symbols,
          Target.verdict ⟨⟨"b.o"⟩, .main, "x_"⟩ .standard .empty symbols']) := by
  have hfirst : ((twoFiles a b).symbols ⟨"a.o"⟩).result = .ok symbols :=
    Disk.symbols_eq_ok_iff.2 ⟨a, rfl, ha⟩
  have hsecond : ((twoFiles a b).symbols ⟨"b.o"⟩).result = .ok symbols' :=
    Disk.symbols_eq_ok_iff.2 ⟨b, rfl, hb⟩
  exact audit_eq_ok_iff.2 ⟨_, .cons (verdictOf_of_symbols twoTargets hfirst)
    (.cons (verdictOf_of_symbols twoTargets hsecond) .nil), rfl⟩

theorem result_symbols_strayExport :
    (Elf.symbols strayExport).result = .ok [⟨"stray", .function, true⟩] := by
  refine Elf.result_symbols_write_eq (by decide +kernel) ?_ (by decide +kernel)
  simp [Elf.SymbolRecord.fits_exported]

/-- Two files with one name each. -/
theorem text_report_lines_strayExport :
    let disk := twoFiles strayExport strayExport
    ∃ report, (twoTargets.audit disk).result = .ok report ∧ twoTargets.FitsOnLines disk ∧
      MadeOfLines (report.printout.text false)
        ["leaked generic symbol a.o: stray", "leaked generic symbol b.o: stray"] := by
  intro disk
  have haudit := result_audit_twoTargets result_symbols_strayExport result_symbols_strayExport
  have hraws : Elf.rawSymbols strayExport = .ok [⟨Utf8.encode "stray", .function, true⟩] := by
    decide +kernel
  have hnames : ∀ image raws, (Except.ok strayExport : Except ReadError ByteArray) = .ok image →
      Elf.rawSymbols image = .ok raws → ∀ s ∈ raws, 0x0A ∉ s.name := by
    rintro _ raws ⟨⟩ hr s hs
    rw [hraws] at hr
    cases hr
    obtain rfl := List.mem_singleton.1 hs
    decide +kernel
  have hfits : twoTargets.FitsOnLines disk :=
    List.forall_mem_cons.2 ⟨⟨by decide, hnames⟩,
      List.forall_mem_cons.2 ⟨⟨by decide, hnames⟩, List.forall_mem_nil _⟩⟩
  obtain ⟨-, -, -, -, -, hlines⟩ := text_report_lines haudit
  refine ⟨_, haudit, hfits, ?_⟩
  convert (hlines hfits).1
  decide +kernel

/-- An object file that exports one name. What stands behind the newline in it is the line of a
violation in another file. -/
def forgedExport : ByteArray :=
  Elf.write ⟨.bits64, .little⟩
    [.exported (Utf8.encode "stray\nleaked generic symbol b.o: stray") (by decide +kernel)]

/-- An object file without symbols. -/
def noExport : ByteArray := Elf.write ⟨.bits64, .little⟩ []

theorem result_symbols_forgedExport : (Elf.symbols forgedExport).result =
    .ok [⟨"stray\nleaked generic symbol b.o: stray", .function, true⟩] := by
  refine Elf.result_symbols_write_eq (by decide +kernel) ?_ (by decide +kernel)
  simp [Elf.SymbolRecord.fits_exported]

theorem result_symbols_noExport : (Elf.symbols noExport).result = .ok [] := by
  refine Elf.result_symbols_write_eq (by decide +kernel) ?_ rfl
  simp

/-- One violation whose text has two lines, and is the text of two violations. -/
theorem text_report_forged :
    ∃ report report', (twoTargets.audit (twoFiles forgedExport noExport)).result = .ok report ∧
      (twoTargets.audit (twoFiles strayExport strayExport)).result = .ok report' ∧
      report.printout.text false = report'.printout.text false ∧
      report.violations.length = 1 ∧ report'.violations.length = 2 ∧
      lineCount (report.printout.text false) = 2 ∧
      ¬ MadeOfLines (report.printout.text false) (report.violations.map (·.line)) := by
  refine ⟨_, _, result_audit_twoTargets result_symbols_forgedExport result_symbols_noExport,
    result_audit_twoTargets result_symbols_strayExport result_symbols_strayExport,
    by decide +kernel, by decide +kernel, by decide +kernel, by decide +kernel, fun hmade => ?_⟩
  -- The text would have as many lines as there are violations.
  have hcount := lineCount_unlines_eq_iff.2 hmade.isLine
  rw [← hmade.text_eq] at hcount
  exact absurd hcount (by decide +kernel)

end Plan

end LinkageAudit

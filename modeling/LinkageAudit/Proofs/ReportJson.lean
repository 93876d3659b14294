import LinkageAudit.Proofs.Audit.Linkage
import LinkageAudit.Proofs.Exit
import LinkageAudit.Proofs.Json.Printed
import LinkageAudit.Proofs.Json.Schema

/-!
# Structured reports

A report that is printed as JSON loses nothing, whatever its names and paths are made of.

* `Report.ofValue?`: a report read from a JSON value, by the names of its fields.
* `auditReportSchema`: the published schema of what an audit prints.
* `Report.ofValue?_json`, `auditReportSchema_accepts`: a report is read back as it was, and its
  envelope satisfies the schema.
* `Plan.audit_json_roundtrip`: the same of the text that an audit prints.
-/

namespace LinkageAudit

open Json (Value Schema)

/-! ## Reading -/

/-- The kind of violation with a key. -/
def Violation.Kind.ofKey? (key : String) : Option Violation.Kind :=
  [unwhitelistedImport, leakedPrivate, leakedGeneric].find? (·.key = key)

/-- The number of a role, under the key of that role. -/
def Role.count? (r : Role) (v : Value) : Option Nat := do (← v.get? r.key).nat?

/-- A table of numbers as a value says it. -/
def RoleCounts.ofValue? (v : Value) : Option RoleCounts := do
  return { privateExport := ← Role.privateExport.count? v
           publicExport := ← Role.publicExport.count? v
           genericExport := ← Role.genericExport.count? v
           siblingImport := ← Role.siblingImport.count? v
           systemImport := ← Role.systemImport.count? v }

/-- A summary as a value says it. -/
def Summary.ofValue? (v : Value) : Option Summary := do
  return { path := ⟨← (← v.get? "path").string?⟩
           component := ← Component.ofName? (← (← v.get? "component").string?)
           publicPrefix := ← (← v.get? "public_prefix").string?
           counts := ← RoleCounts.ofValue? (← v.get? "counts") }

/-- A violation as a value says it. -/
def Violation.ofValue? (v : Value) : Option Violation := do
  return { kind := ← Violation.Kind.ofKey? (← (← v.get? "kind").string?)
           file := ⟨← (← v.get? "file").string?⟩
           symbol := ← (← v.get? "symbol").string? }

/-- A report as a value says it. -/
def Report.ofValue? (v : Value) : Option Report := do
  return { files := ← (← v.get? "files").items? Summary.ofValue?
           violations := ← (← v.get? "violations").items? Violation.ofValue? }

theorem Violation.Kind.ofKey?_key (kind : Violation.Kind) : ofKey? kind.key = some kind := by
  cases kind <;> decide

theorem Role.count?_json (r : Role) (n : RoleCounts) : r.count? n.json.value = some (n.get r) := by
  cases r <;> simp [count?, RoleCounts.json, all, key, Json.value, Json.members]

theorem RoleCounts.ofValue?_json (n : RoleCounts) : ofValue? n.json.value = some n := by
  simp only [ofValue?, Role.count?_json]
  rfl

theorem Summary.ofValue?_json (s : Summary) : ofValue? s.json.value = some s := by
  simp [ofValue?, json, Target.fields, Json.value, Json.members, Component.ofName?_name,
    RoleCounts.ofValue?_json]

theorem Violation.ofValue?_json (v : Violation) : ofValue? v.json.value = some v := by
  simp [ofValue?, json, Json.value, Json.members, Violation.Kind.ofKey?_key]

/-- A report has its files and its violations in their order. -/
theorem Report.value_json (r : Report) : r.json.value =
    .object [("files", .array (r.files.map fun s => s.json.value)),
      ("violations", .array (r.violations.map fun v => v.json.value))] := by
  simp only [json, Json.value, Json.members, Json.values_eq_map, List.map_map]
  rfl

theorem Report.ofValue?_json (r : Report) : ofValue? r.json.value = some r := by
  simp [ofValue?, value_json, Value.items?_map Summary.ofValue?_json,
    Value.items?_map Violation.ofValue?_json]

/-! ## The schema -/

/-- The numbers of a file. -/
def countsSchema : Schema :=
  .object
    ["private_export", "public_export", "generic_export", "sibling_import", "system_import"] true
    [("private_export", .integer 0), ("public_export", .integer 0),
      ("generic_export", .integer 0), ("sibling_import", .integer 0),
      ("system_import", .integer 0)]

/-- A file. -/
def fileSchema : Schema :=
  .object ["path", "component", "public_prefix", "counts"] true
    [("path", .string), ("component", .enum ["main", "integration"]),
      ("public_prefix", .string), ("counts", countsSchema)]

/-- A violation. -/
def violationSchema : Schema :=
  .object ["kind", "file", "symbol"] true
    [("kind", .enum ["unwhitelisted_import", "leaked_private", "leaked_generic"]),
      ("file", .string), ("symbol", .string)]

/-- What an audit prints. -/
def auditReportSchema : Schema :=
  .object ["ok", "data"] false
    [("ok", .boolean),
      ("data", .object ["files", "violations"] true
        [("files", .array fileSchema), ("violations", .array violationSchema)])]

theorem countsSchema_accepts (n : RoleCounts) : countsSchema.accepts n.json.value := by
  simp [countsSchema, RoleCounts.json, Role.all, Role.key, Json.value, Json.members,
    Schema.object_accepts_iff]

theorem fileSchema_accepts (s : Summary) : fileSchema.accepts s.json.value := by
  have hcomponent : s.component.name ∈ ["main", "integration"] := by
    cases s.component <;> decide
  simpa [fileSchema, Summary.json, Target.fields, Json.value, Json.members,
    Schema.object_accepts_iff, countsSchema_accepts] using hcomponent

theorem violationSchema_accepts (v : Violation) : violationSchema.accepts v.json.value := by
  have hkind : v.kind.key ∈ ["unwhitelisted_import", "leaked_private", "leaked_generic"] := by
    cases v.kind <;> decide
  simpa [violationSchema, Violation.json, Json.value, Json.members, Schema.object_accepts_iff]
    using hkind

/-- The envelope of a report. -/
theorem auditReportSchema_accepts (r : Report) :
    auditReportSchema.accepts r.printout.envelope.value := by
  have hfiles := Schema.array_accepts_map fileSchema_accepts r.files
  have hviolations := Schema.array_accepts_map violationSchema_accepts r.violations
  simpa [auditReportSchema, Printout.envelope, Report.printout, Json.value, Json.members,
    Report.value_json, Schema.object_accepts_iff] using ⟨hfiles, hviolations⟩

example : auditReportSchema.accepts (.object [("ok", .bool true)]) = false := by decide

/-! ## What is printed -/

theorem Printout.text_json (p : Printout) : p.text true = p.envelope.text ++ "\n" := by
  show String.join [p.envelope.text ++ "\n"] = _
  simp

/-- The value in an envelope is marked as a success. -/
theorem Printout.value_envelope (p : Printout) :
    p.envelope.value = .object [("ok", .bool true), ("data", p.value.value)] := rfl

namespace Plan

/-- What an audit prints with `--json` is one JSON value and a newline. Any reader of JSON finds
the report in it, and the value satisfies the published schema. -/
theorem audit_json_roundtrip {plan : Plan} {disk : Disk} {report : Report}
    (h : (plan.audit disk).result = .ok report) :
    ∃ text value,
      -- The command and the program print this text.
      (Command.audit.run plan disk).result.map (·.printout.text true) = .ok (text ++ "\n") ∧
      (∀ (i : Invocation) config filter, i.options.json = true → i.command.getD .audit = .audit →
        (Config.load disk i.options.config).result = .ok config →
        plan = .make i.options.buildDirectory config →
        (i.exit disk filter).stdout = text ++ "\n") ∧
      -- It stands for one value, and for no other.
      Json.Spells text.toList value ∧
      (∀ w, Json.IsText (text ++ "\n").toList w ↔ w = value) ∧
      -- The value holds the report.
      value.get? "ok" = some (.bool true) ∧
      (value.get? "data").bind Report.ofValue? = some report ∧
      auditReportSchema.accepts value := by
  refine ⟨report.printout.envelope.text, report.printout.envelope.value, ?_, ?_, ?_,
    Json.isText_iff _, ?_, ?_, auditReportSchema_accepts report⟩
  · rw [Command.run_audit_eq_ok_iff.2 ⟨report, h, rfl⟩, ← Printout.text_json]
    rfl
  · rintro i config filter hjson hcommand hload rfl
    rw [Invocation.stdout_of_audit filter hcommand hload h, hjson, Printout.text_json]
  · rw [Json.text, String.toList_ofList]
    exact Json.spells_render 0 _
  · simp [Printout.value_envelope]
  · simp [Printout.value_envelope, Report.printout, Report.ofValue?_json]

/-- An object file that exports a name with a quote, a backslash, a newline and a control
character. -/
def quotedExport : ByteArray :=
  Elf.write ⟨.bits64, .little⟩ [.exported (Utf8.encode "\"\\\n\x01é") (by decide +kernel)]

theorem result_symbols_quotedExport :
    (Elf.symbols quotedExport).result = .ok [⟨"\"\\\n\x01é", .function, true⟩] := by
  refine Elf.result_symbols_write_eq (by decide +kernel) ?_ (by decide +kernel)
  simp [Elf.SymbolRecord.fits_exported]

/-- The name and the path are read back, whatever was escaped. -/
theorem audit_json_roundtrip_quotedExport :
    let disk : Disk := .ofList [("a\t\".o", .ok quotedExport)]
    let target : Target := ⟨⟨"a\t\".o"⟩, .main, "\r"⟩
    let plan : Plan := ⟨⟨"."⟩, [target], .standard, .empty⟩
    let report : Report :=
      ⟨[⟨target, ⟨0, 0, 1, 0, 0⟩⟩], [⟨.leakedGeneric, target.path, "\"\\\n\x01é"⟩]⟩
    (plan.audit disk).result = .ok report ∧
    ∃ text value,
      (Command.audit.run plan disk).result.map (·.printout.text true) = .ok (text ++ "\n") ∧
      (∀ w, Json.IsText (text ++ "\n").toList w ↔ w = value) ∧
      (value.get? "data").bind Report.ofValue? = some report ∧
      auditReportSchema.accepts value := by
  intro disk target plan report
  have hsymbols : (disk.symbols target.path).result = _ :=
    Disk.symbols_eq_ok_iff.2 ⟨quotedExport, rfl, result_symbols_quotedExport⟩
  have hrun : (plan.audit disk).result = _ :=
    audit_eq_ok_iff.2 ⟨_, .cons (verdictOf_of_symbols plan hsymbols) .nil, rfl⟩
  have hreport : (plan.audit disk).result = .ok report := hrun.trans (by decide +kernel)
  obtain ⟨text, value, hprint, -, -, htext, -, hread, hschema⟩ := audit_json_roundtrip hreport
  exact ⟨hreport, text, value, hprint, htext, hread, hschema⟩

end Plan

end LinkageAudit

import LinkageAudit.Disk
import LinkageAudit.Elf.Reader
import LinkageAudit.Plan
import LinkageAudit.Report

/-!
# Audits

From files on a disk to reports. Each function gives a value that holds its events and its result.

* `Target.audit`: one target: its file is read, its symbols are sorted and judged.
* `Plan.audit`: the whole manifest in order. The first target that fails ends the audit, and
  nothing is reported.
* `Plan.inspect`: one target in full.
-/

namespace LinkageAudit

/-- Why an object file has no symbols to show. -/
inductive ObjectError where
  | unreadable (path : Path) (reason : ReadError)
  | malformed (path : Path) (reason : Elf.Error)
  deriving DecidableEq, Repr

namespace ObjectError

/-- The wording of a reason. -/
def message : ObjectError → String
  | unreadable path reason => s!"cannot read object file {path.text}: {reason.message}"
  | malformed path reason => s!"malformed object file {path.text}: {reason.message}"

/-- The path of the file. -/
def path : ObjectError → Path
  | unreadable path _ | malformed path _ => path

end ObjectError

/-- The symbols of an object file. -/
def Disk.symbols (disk : Disk) (path : Path) : Traced ObjectError (List Symbol) := do
  Traced.emit (.objectOpened path)
  let image ← Traced.ofExcept ((disk.read path).mapError (.unreadable path))
  (Elf.symbols image).mapError (.malformed path)

/-- Sorts the symbols of a target by role, and says so. -/
def Inventory.sorted {ε : Type} (inventory : Inventory) (naming : Naming) : Traced ε Census := do
  let census := inventory.census naming
  Traced.emit (.sorted inventory.path census.total census.counts)
  return census

/-- A sorted target with its violations. -/
structure Verdict where
  census : Census
  violations : List Violation
  deriving DecidableEq, Repr

namespace Target

/-- Reads, sorts and judges one target. -/
def audit (target : Target) (disk : Disk) (naming : Naming) (policy : Policy) :
    Traced ObjectError Verdict := do
  let symbols ← disk.symbols target.path
  let census ← Inventory.sorted { target with symbols := symbols } naming
  return ⟨census, policy.violations census⟩

/-- Audits targets in order, up to the first that fails. -/
def auditAll (disk : Disk) (naming : Naming) (policy : Policy) :
    List Target → Traced ObjectError (List Verdict)
  | [] => return []
  | target :: targets => do
    let verdict ← target.audit disk naming policy
    let verdicts ← auditAll disk naming policy targets
    return verdict :: verdicts

end Target

/-- The report on audited targets. -/
def Report.ofVerdicts (verdicts : List Verdict) : Report :=
  ⟨verdicts.map (·.census.summary), verdicts.flatMap (·.violations)⟩

/-- What there is to see of one audited target. -/
def Verdict.inspection (v : Verdict) : Inspection :=
  ⟨v.census.summary, v.census.listings, v.violations⟩

namespace Plan

/-- Audits the manifest. -/
def audit (plan : Plan) (disk : Disk) : Traced ObjectError Report := do
  let report := Report.ofVerdicts (← Target.auditAll disk plan.naming plan.policy plan.manifest)
  Traced.emit (.audited report.files.length report.violations.length)
  return report

/-- Inspects one target, which need not be in the manifest. -/
def inspect (plan : Plan) (disk : Disk) (target : Target) : Traced ObjectError Inspection := do
  return (← target.audit disk plan.naming plan.policy).inspection

end Plan

end LinkageAudit

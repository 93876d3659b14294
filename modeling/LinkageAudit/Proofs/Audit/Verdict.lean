import LinkageAudit.Audit
import LinkageAudit.Proofs.FirstFailure

/-!
# The audit of one target

What auditing one target opens, gives and fails with, as a function of the symbols in its file.

* `Target.audit_eq_ok_iff`: a verdict is that on the symbols of the file.
* `Target.audit_of_symbols_ok`, `Target.audit_of_symbols_error`: the same for the whole run.
* `Target.path_of_audit_error`: a failure names the file of the target.
* `Target.opened_audit`: one file is opened, that of the target.
* `Inventory.withRole_census`: the symbols of a role, in symbol table order.
* `Policy.file_of_mem_violations`: a violation names the file of the census.
-/

namespace LinkageAudit

/-- Reading an image opens no further file. -/
theorem Elf.opened_symbols (image : ByteArray) : (Elf.symbols image).opened = [] := by
  have htable (table : Elf.SymbolTable) : (table.symbols image).opened = [] :=
    Traced.opened_bind_eq_nil rfl fun verdicts => rfl
  refine Traced.opened_bind_eq_nil rfl fun header => ?_
  dsimp only
  split
  · exact Traced.opened_bind_eq_nil rfl fun _ => Traced.opened_bind_eq_nil rfl htable
  · exact Traced.opened_bind_eq_nil rfl htable

namespace Disk

theorem symbols_eq_ok_iff {disk : Disk} {path : Path} {symbols : List Symbol} :
    (disk.symbols path).result = .ok symbols ↔
      ∃ image, disk.read path = .ok image ∧ (Elf.symbols image).result = .ok symbols := by
  simp [Disk.symbols, bind_eq_ok_iff, mapError_eq_ok_iff]

theorem path_of_symbols_error {disk : Disk} {path : Path} {e : ObjectError}
    (h : (disk.symbols path).result = .error e) : e.path = path := by
  simp only [Disk.symbols, Traced.result_bind, Traced.result_emit, ok_bind,
    Traced.result_ofExcept, Traced.result_mapError] at h
  cases hr : disk.read path with
  | error reason =>
    rw [hr] at h
    cases h
    rfl
  | ok image =>
    rw [hr] at h
    obtain ⟨reason, -, rfl⟩ := mapError_eq_error_iff.1 h
    rfl

theorem opened_symbols (disk : Disk) (path : Path) : (disk.symbols path).opened = [path] := by
  unfold Disk.symbols
  rw [Traced.opened_bind_of_ok (Traced.result_emit _)]
  have hread : (Traced.ofExcept ((disk.read path).mapError (ObjectError.unreadable path)) >>=
      fun image => (Elf.symbols image).mapError (ObjectError.malformed path)).opened = [] :=
    Traced.opened_bind_eq_nil rfl Elf.opened_symbols
  rw [hread]
  rfl

end Disk

/-- Each role has exactly its symbols. -/
@[simp] theorem Inventory.withRole_census (inventory : Inventory) (naming : Naming) (role : Role) :
    (inventory.census naming).withRole role =
      inventory.symbols.filter (naming.roleOf inventory.publicPrefix · = role) :=
  ByRole.get_sort _ _ role

/-- A violation is about the file of the census that it comes from. -/
theorem Policy.file_of_mem_violations {policy : Policy} {census : Census} {v : Violation}
    (h : v ∈ policy.violations census) : v.file = census.inventory.path := by
  simp only [Policy.violations, List.mem_append, List.mem_map] at h
  rcases h with (⟨s, -, rfl⟩ | ⟨s, -, rfl⟩) | ⟨s, -, rfl⟩ <;> rfl

namespace Target

variable {disk : Disk} {naming : Naming} {policy : Policy}

/-- A target with the symbols that were found in its file. -/
def inventory (target : Target) (symbols : List Symbol) : Inventory :=
  { target with symbols := symbols }

/-- The verdict on a target whose symbols are known. -/
def verdict (target : Target) (naming : Naming) (policy : Policy) (symbols : List Symbol) :
    Verdict :=
  ⟨(target.inventory symbols).census naming,
    policy.violations ((target.inventory symbols).census naming)⟩

theorem audit_eq_ok_iff {target : Target} {v : Verdict} :
    (target.audit disk naming policy).result = .ok v ↔
      ∃ symbols, (disk.symbols target.path).result = .ok symbols ∧
        target.verdict naming policy symbols = v := by
  simp only [Target.audit, Inventory.sorted, Traced.result_bind, bind_eq_ok_iff,
    Traced.result_emit, Traced.result_pure, Except.ok.injEq]
  constructor
  · rintro ⟨symbols, hs, census, ⟨-, -, rfl⟩, hv⟩
    exact ⟨symbols, hs, hv⟩
  · rintro ⟨symbols, hs, hv⟩
    exact ⟨symbols, hs, _, ⟨⟨⟩, trivial, rfl⟩, hv⟩

theorem audit_eq_error_iff {target : Target} {e : ObjectError} :
    (target.audit disk naming policy).result = .error e ↔
      (disk.symbols target.path).result = .error e := by
  simp only [Target.audit, Inventory.sorted, Traced.result_bind]
  cases (disk.symbols target.path).result <;> simp

/-- The audit of a target whose file has symbols. -/
theorem audit_of_symbols_ok {target : Target} {symbols : List Symbol}
    (h : (disk.symbols target.path).result = .ok symbols) :
    target.audit disk naming policy =
      let v := target.verdict naming policy symbols
      ⟨(disk.symbols target.path).events ++ [.sorted target.path v.census.total v.census.counts],
        .ok v⟩ := by
  rw [audit, Traced.bind_of_ok h]
  rfl

theorem audit_of_symbols_error {target : Target} {e : ObjectError}
    (h : (disk.symbols target.path).result = .error e) :
    target.audit disk naming policy = ⟨(disk.symbols target.path).events, .error e⟩ := by
  rw [audit, Traced.bind_of_error h]

theorem path_of_audit_error {target : Target} {e : ObjectError}
    (h : (target.audit disk naming policy).result = .error e) : e.path = target.path :=
  Disk.path_of_symbols_error (audit_eq_error_iff.1 h)

theorem opened_audit (target : Target) :
    (target.audit disk naming policy).opened = [target.path] := by
  unfold Target.audit
  cases h : (disk.symbols target.path).result with
  | error e => rw [Traced.opened_bind_of_error h, Disk.opened_symbols]
  | ok symbols => rw [Traced.opened_bind_of_ok h, Disk.opened_symbols]; rfl

theorem toTarget_summary_verdict (target : Target) (symbols : List Symbol) :
    (target.verdict naming policy symbols).census.summary.toTarget = target := rfl

/-- A summary counts the symbols of the target's own file. -/
theorem counts_summary_verdict (target : Target) (symbols : List Symbol) (role : Role) :
    (target.verdict naming policy symbols).census.summary.counts.get role =
      (symbols.filter (naming.roleOf target.publicPrefix · = role)).length := by
  simp only [Target.verdict, Census.summary, Census.counts, RoleCounts.get_ofFunction,
    Inventory.withRole_census]
  rfl

end Target

end LinkageAudit

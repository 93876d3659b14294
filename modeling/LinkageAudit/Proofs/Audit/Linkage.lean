import LinkageAudit.Proofs.Audit.Composition
import LinkageAudit.Proofs.Audit.Violations
import LinkageAudit.Proofs.Elf.RoundTrip
import LinkageAudit.Proofs.Text.Utf8

/-!
# One name in several files

A name that one audited file defines and another imports is judged in both. The two judgements fit
together as long as every public prefix lies inside the library's own name space: what is refused
as an import of the one is reported as a stray export of the other.

* `Naming.roleOf_eq_iff`: what tells the symbols of a role from all others.
* `Naming.roleOf_eq_genericExport_of_foreign`: a definition outside the root is a generic one,
  under any public prefix inside it.
* `Plan.generic_where_unwhitelisted`: a reported import that another file of the run defines is
  reported there too.
-/

namespace LinkageAudit

/-! ## Roles on both sides -/

namespace Naming

variable {naming : Naming} {publicPrefix : String} {s : Symbol}

/-- What tells the symbols of a role from all others. -/
def Merits (naming : Naming) (publicPrefix : String) (s : Symbol) : Role → Prop
  | .privateExport => s.defined = true ∧ naming.privateStem.toList <+: s.name.toList
  | .publicExport => s.defined = true ∧ ¬ naming.privateStem.toList <+: s.name.toList ∧
      publicPrefix.toList <+: s.name.toList
  | .genericExport => s.defined = true ∧ ¬ naming.privateStem.toList <+: s.name.toList ∧
      ¬ publicPrefix.toList <+: s.name.toList
  | .siblingImport => s.defined = false ∧ naming.root.toList <+: s.name.toList
  | .systemImport => s.defined = false ∧ ¬ naming.root.toList <+: s.name.toList

theorem roleOf_eq_iff {r : Role} :
    naming.roleOf publicPrefix s = r ↔ naming.Merits publicPrefix s r := by
  unfold roleOf Merits
  simp only [← String.startsWith_string_iff]
  cases s.defined with
  | false => by_cases hroot : s.name.startsWith naming.root = true <;> cases r <;> simp [hroot]
  | true =>
    by_cases hstem : s.name.startsWith naming.privateStem = true <;>
      by_cases hpublic : s.name.startsWith publicPrefix = true <;>
        cases r <;> simp [hstem, hpublic]

theorem roleOf_eq_systemImport_iff : naming.roleOf publicPrefix s = .systemImport ↔
    s.defined = false ∧ ¬ naming.root.toList <+: s.name.toList := roleOf_eq_iff

theorem roleOf_eq_privateExport_iff : naming.roleOf publicPrefix s = .privateExport ↔
    s.defined = true ∧ naming.privateStem.toList <+: s.name.toList := roleOf_eq_iff

theorem roleOf_eq_publicExport_iff : naming.roleOf publicPrefix s = .publicExport ↔
    s.defined = true ∧ ¬ naming.privateStem.toList <+: s.name.toList ∧
      publicPrefix.toList <+: s.name.toList := roleOf_eq_iff

theorem roleOf_eq_genericExport_iff : naming.roleOf publicPrefix s = .genericExport ↔
    s.defined = true ∧ ¬ naming.privateStem.toList <+: s.name.toList ∧
      ¬ publicPrefix.toList <+: s.name.toList := roleOf_eq_iff

theorem root_prefix_privateStem (naming : Naming) :
    naming.root.toList <+: naming.privateStem.toList := by
  rw [privateStem, String.toList_append]
  exact List.prefix_append _ _

/-- Where the public prefix is inside the root, so is every name that is exported on purpose. -/
theorem roleOf_eq_genericExport_of_foreign (hinside : naming.root.toList <+: publicPrefix.toList)
    (hdefined : s.defined = true) (hforeign : ¬ naming.root.toList <+: s.name.toList) :
    naming.roleOf publicPrefix s = .genericExport := by
  rw [roleOf_eq_genericExport_iff]
  exact ⟨hdefined, fun h => hforeign (naming.root_prefix_privateStem.trans h),
    fun h => hforeign (hinside.trans h)⟩

/-- What is exported on purpose is the library's own. -/
theorem root_prefix_of_export (hinside : naming.root.toList <+: publicPrefix.toList)
    (h : naming.roleOf publicPrefix s = .publicExport ∨
      naming.roleOf publicPrefix s = .privateExport) : naming.root.toList <+: s.name.toList := by
  rcases h with h | h
  · exact hinside.trans (roleOf_eq_publicExport_iff.1 h).2.2
  · exact naming.root_prefix_privateStem.trans (roleOf_eq_privateExport_iff.1 h).2

end Naming

/-! ## Blocks of a report -/

/-- The block of a target in the report of a run: its verdict, on the symbols in its own file. -/
structure Plan.Block (plan : Plan) (disk : Disk) (target : Target) (v : Verdict) : Prop where
  verdict : plan.verdictOf disk target = .ok v
  target_eq : v.census.inventory.toTarget = target
  symbols : (disk.symbols target.path).result = .ok v.census.inventory.symbols
  census : v.census = v.census.inventory.census plan.naming
  violations : v.violations = plan.policy.violations v.census

namespace Plan

variable {plan : Plan} {disk : Disk}

theorem block_of_verdictOf {target : Target} {v : Verdict}
    (h : plan.verdictOf disk target = .ok v) : plan.Block disk target v := by
  obtain ⟨symbols, hs, rfl⟩ := Target.audit_eq_ok_iff.1 h
  exact ⟨h, rfl, hs, rfl, rfl⟩

theorem verdictOf_of_symbols (plan : Plan) {target : Target} {symbols : List Symbol}
    (h : (disk.symbols target.path).result = .ok symbols) :
    plan.verdictOf disk target = .ok (target.verdict plan.naming plan.policy symbols) :=
  Target.audit_eq_ok_iff.2 ⟨symbols, h, rfl⟩

/-- A reported import is one that its file does not define, and its name is not the library's. -/
theorem Block.foreign_of_unwhitelisted {target : Target} {b : Verdict}
    (hb : plan.Block disk target b) {v : Violation} (hv : v ∈ b.violations)
    (hkind : v.kind = .unwhitelistedImport) : ¬ plan.naming.root.toList <+: v.symbol.toList := by
  rw [hb.violations, hb.census] at hv
  obtain ⟨s, -, hs, -, hname⟩ := Policy.mem_violations_census_iff.1 hv
  rw [hkind, Policy.kindOf?_eq_unwhitelistedImport_iff] at hs
  rw [hname]
  exact (Naming.roleOf_eq_systemImport_iff.1 hs.1).2

/-- A foreign name that a file defines is reported there. -/
theorem Block.leakedGeneric_of_foreign {target : Target} {a : Verdict}
    (ha : plan.Block disk target a)
    (hinside : plan.naming.root.toList <+: target.publicPrefix.toList) {s : Symbol}
    (hs : s ∈ a.census.inventory.symbols) (hdefined : s.defined = true)
    (hforeign : ¬ plan.naming.root.toList <+: s.name.toList) :
    ⟨.leakedGeneric, target.path, s.name⟩ ∈ a.violations := by
  rw [← ha.target_eq] at hinside ⊢
  rw [ha.violations, ha.census]
  have hrole := Naming.roleOf_eq_genericExport_of_foreign hinside hdefined hforeign
  exact Policy.mem_violations_census_iff.2
    ⟨s, hs, Policy.kindOf?_eq_leakedGeneric_iff.2 hrole, rfl, rfl⟩

/-- What a file exports on purpose has a name of the library's own. -/
theorem Block.root_prefix_of_export {target : Target} {a : Verdict}
    (ha : plan.Block disk target a)
    (hinside : plan.naming.root.toList <+: target.publicPrefix.toList) {s : Symbol}
    (hs : s ∈ a.census.withRole .publicExport ++ a.census.withRole .privateExport) :
    plan.naming.root.toList <+: s.name.toList := by
  rw [← ha.target_eq] at hinside
  rw [ha.census, Inventory.withRole_census, Inventory.withRole_census] at hs
  simp only [List.mem_append, List.mem_filter, decide_eq_true_eq] at hs
  exact Naming.root_prefix_of_export hinside (hs.imp And.right And.right)

/-- No import that counts as one of the system has a name of the library's own. -/
theorem Block.not_root_prefix_of_systemImport {target : Target} {b : Verdict}
    (hb : plan.Block disk target b) {s : Symbol} (hs : s ∈ b.census.withRole .systemImport) :
    ¬ plan.naming.root.toList <+: s.name.toList := by
  rw [hb.census, Inventory.withRole_census, List.mem_filter, decide_eq_true_eq] at hs
  exact (Naming.roleOf_eq_systemImport_iff.1 hs.2).2

/-- Where every public prefix lies inside the root, a reported import that some file of the run
defines is reported there as a generic export. So nothing that a file exports on purpose is taken
for an import from the system in another. -/
theorem generic_where_unwhitelisted {report : Report}
    (hroot : ∀ t ∈ plan.manifest, plan.naming.root.toList <+: t.publicPrefix.toList)
    (h : (plan.audit disk).result = .ok report) :
    ∃ blocks, List.Forall₂ (plan.Block disk) plan.manifest blocks ∧
      report = .ofVerdicts blocks ∧
      ∀ definer a importer b, (definer, a) ∈ plan.manifest.zip blocks →
        (importer, b) ∈ plan.manifest.zip blocks →
        (∀ s ∈ a.census.inventory.symbols, s.defined = true →
          ∀ v ∈ b.violations, v.kind = .unwhitelistedImport → v.symbol = s.name →
            ⟨.leakedGeneric, definer.path, s.name⟩ ∈ a.violations) ∧
        ∀ s ∈ a.census.withRole .publicExport ++ a.census.withRole .privateExport,
          (∀ s' ∈ b.census.withRole .systemImport, s'.name ≠ s.name) ∧
          ∀ v ∈ b.violations, v.symbol = s.name → v.kind ≠ .unwhitelistedImport := by
  obtain ⟨blocks, hverdicts, rfl⟩ := audit_eq_ok_iff.1 h
  have hblocks : List.Forall₂ (plan.Block disk) plan.manifest blocks :=
    hverdicts.imp fun _ _ hv => block_of_verdictOf hv
  refine ⟨blocks, hblocks, rfl, fun definer a importer b hda hib => ?_⟩
  have ha : plan.Block disk definer a := (List.forall₂_iff_zip.1 hblocks).2 hda
  have hb : plan.Block disk importer b := (List.forall₂_iff_zip.1 hblocks).2 hib
  have hinside := hroot definer (List.of_mem_zip hda).1
  refine ⟨fun s hs hdefined v hv hkind hname => ?_, fun s hs => ⟨fun s' hs' hname => ?_,
    fun v hv hname hkind => ?_⟩⟩
  · have hforeign := hb.foreign_of_unwhitelisted hv hkind
    rw [hname] at hforeign
    exact ha.leakedGeneric_of_foreign hinside hs hdefined hforeign
  · have hforeign := hb.not_root_prefix_of_systemImport hs'
    rw [hname] at hforeign
    exact hforeign (ha.root_prefix_of_export hinside hs)
  · have hforeign := hb.foreign_of_unwhitelisted hv hkind
    rw [hname] at hforeign
    exact hforeign (ha.root_prefix_of_export hinside hs)

/-- An object file that exports two names, of which only the second is the library's. -/
def twoExports : ByteArray :=
  Elf.write ⟨.bits64, .little⟩
    [.exported (Utf8.encode "ticks") (by decide +kernel),
      .exported (Utf8.encode "termpaintx_new") (by decide +kernel)]

/-- An object file that imports the same two names. -/
def sameTwoImports : ByteArray :=
  Elf.write ⟨.bits64, .little⟩
    [.imported (Utf8.encode "ticks") (by decide +kernel),
      .imported (Utf8.encode "termpaintx_new") (by decide +kernel)]

theorem result_symbols_twoExports : (Elf.symbols twoExports).result =
    .ok [⟨"ticks", .function, true⟩, ⟨"termpaintx_new", .function, true⟩] := by
  refine Elf.result_symbols_write_eq (by decide +kernel) ?_ (by decide +kernel)
  simp [Elf.SymbolRecord.fits_exported]

theorem result_symbols_sameTwoImports : (Elf.symbols sameTwoImports).result =
    .ok [⟨"ticks", .other, false⟩, ⟨"termpaintx_new", .other, false⟩] := by
  refine Elf.result_symbols_write_eq (by decide +kernel) ?_ (by decide +kernel)
  simp [Elf.SymbolRecord.fits_imported]

/-- The foreign name is reported on both sides, and the other on neither. -/
theorem generic_where_unwhitelisted_twoExports :
    let disk : Disk := .ofList [("a.o", .ok twoExports), ("b.o", .ok sameTwoImports)]
    let definer : Target := ⟨⟨"a.o"⟩, .integration, "termpaintx_"⟩
    let importer : Target := ⟨⟨"b.o"⟩, .main, "termpaint_"⟩
    let plan : Plan := ⟨⟨"."⟩, [definer, importer], .standard, .empty⟩
    (∀ t ∈ plan.manifest, plan.naming.root.toList <+: t.publicPrefix.toList) ∧
    (plan.audit disk).result.map (·.violations) =
      .ok [⟨.leakedGeneric, ⟨"a.o"⟩, "ticks"⟩, ⟨.unwhitelistedImport, ⟨"b.o"⟩, "ticks"⟩] ∧
    ∃ a b, plan.Block disk definer a ∧ plan.Block disk importer b ∧
      ⟨.unwhitelistedImport, ⟨"b.o"⟩, "ticks"⟩ ∈ b.violations ∧
      ⟨.leakedGeneric, ⟨"a.o"⟩, "ticks"⟩ ∈ a.violations := by
  intro disk definer importer plan
  have hroot : ∀ t ∈ plan.manifest, plan.naming.root.toList <+: t.publicPrefix.toList := by
    decide
  have hexports : (disk.symbols definer.path).result = _ :=
    Disk.symbols_eq_ok_iff.2 ⟨twoExports, rfl, result_symbols_twoExports⟩
  have himports : (disk.symbols importer.path).result = _ :=
    Disk.symbols_eq_ok_iff.2 ⟨sameTwoImports, rfl, result_symbols_sameTwoImports⟩
  have hdefiner := verdictOf_of_symbols plan hexports
  have himporter := verdictOf_of_symbols plan himports
  have hrun : (plan.audit disk).result = _ :=
    audit_eq_ok_iff.2 ⟨_, .cons hdefiner (.cons himporter .nil), rfl⟩
  obtain ⟨blocks, hblocks, -, hlinks⟩ := generic_where_unwhitelisted hroot hrun
  obtain ⟨a, _, ha, hrest, rfl⟩ := List.forall₂_cons_left_iff.1 hblocks
  obtain ⟨b, _, hb, -, rfl⟩ := List.forall₂_cons_left_iff.1 hrest
  have hticks : ⟨"ticks", .function, true⟩ ∈ a.census.inventory.symbols := by
    simp [Except.ok.inj (ha.symbols.symm.trans hexports)]
  have hmem : ⟨.unwhitelistedImport, ⟨"b.o"⟩, "ticks"⟩ ∈ b.violations := by
    rw [Except.ok.inj (hb.verdict.symm.trans himporter)]
    decide +kernel
  have hleak := (hlinks definer a importer b List.mem_cons_self
    (List.mem_cons_of_mem _ List.mem_cons_self)).1 _ hticks rfl _ hmem rfl rfl
  exact ⟨hroot, by rw [hrun]; decide +kernel, a, b, ha, hb, hmem, hleak⟩

end Plan

end LinkageAudit

import LinkageAudit.Proofs.Audit.Composition
import LinkageAudit.Proofs.Elf.Entries

/-!
# Clean audits

An audit without violations, stated entry by entry of the symbol tables in the audited files.

* `Plan.AllowsExport`, `Plan.AllowsImport`: what the rules ask of a name, on its own.
* `Target.violations_verdict_eq_nil_iff`: symbols break no rule if the rules allow each of them.
* `Elf.mem_symbols_iff`: the symbols of an image are its exposed entries.
* `Plan.violations_audit_eq_nil_iff`: a report is clean if each target's verdict is.
* `Plan.audit_clean_iff`: an audit is clean if every file can be read and the rules allow every
  exposed entry, and only then.
-/

namespace LinkageAudit

/-! ## Rules -/

namespace Plan

/-- The rules let a target define a name: a private one if it is listed, any other if it has the
public prefix of the target. -/
def AllowsExport (plan : Plan) (target : Target) (name : String) : Prop :=
  let stem := plan.naming.root ++ plan.naming.privateSuffix
  (stem.toList <+: name.toList ∧ name ∈ plan.policy.exported.names) ∨
    (¬ stem.toList <+: name.toList ∧ target.publicPrefix.toList <+: name.toList)

/-- The rules let a target import a name: one of the library itself, or one that is open to its
component. -/
def AllowsImport (plan : Plan) (target : Target) (name : String) : Prop :=
  plan.naming.root.toList <+: name.toList ∨ name ∈ plan.policy.core.names ∨
    (target.component = .integration ∧ name ∈ plan.policy.extended.names)

/-- The rules let a target define or import a symbol. -/
def Allows (plan : Plan) (target : Target) (s : Symbol) : Prop :=
  (s.defined = true → plan.AllowsExport target s.name) ∧
    (s.defined = false → plan.AllowsImport target s.name)

end Plan

/-- The rules on a symbol in terms of its role. -/
theorem Plan.allows_iff {plan : Plan} {target : Target} {s : Symbol} : plan.Allows target s ↔
    (plan.naming.roleOf target.publicPrefix s = .systemImport →
        plan.policy.mayImport target.component s.name = true) ∧
      (plan.naming.roleOf target.publicPrefix s = .privateExport →
        plan.policy.mayExport s.name = true) ∧
      plan.naming.roleOf target.publicPrefix s ≠ .genericExport := by
  have hexport : plan.policy.mayExport s.name = true ↔ s.name ∈ plan.policy.exported.names :=
    NameSet.contains_iff
  have himport : plan.policy.mayImport target.component s.name = true ↔
      s.name ∈ plan.policy.core.names ∨
        (target.component = .integration ∧ s.name ∈ plan.policy.extended.names) := by
    simp [Policy.mayImport]
  rw [hexport, himport]
  unfold Plan.Allows Plan.AllowsExport Plan.AllowsImport Naming.roleOf Naming.privateStem
  simp only [String.startsWith_string_iff]
  generalize plan.naming.root ++ plan.naming.privateSuffix = stem
  cases s.defined with
  | true =>
    by_cases hprivate : stem.toList <+: s.name.toList
    · simp [hprivate]
    · by_cases hpublic : target.publicPrefix.toList <+: s.name.toList <;>
        simp [hprivate, hpublic]
  | false =>
    by_cases hroot : plan.naming.root.toList <+: s.name.toList <;> simp [hroot]

theorem Policy.violations_eq_nil_iff {policy : Policy} {census : Census} :
    policy.violations census = [] ↔
      (∀ s ∈ census.withRole .systemImport,
        policy.mayImport census.inventory.component s.name = true) ∧
      (∀ s ∈ census.withRole .privateExport, policy.mayExport s.name = true) ∧
      census.withRole .genericExport = [] := by
  -- The two groups of imports together are all that are refused.
  have hsplit (p : Symbol → Bool) (l : List Symbol) :
      (l.partition p).1 ++ (l.partition p).2 = [] ↔ l = [] := by
    rw [List.partition_eq_filter_filter, List.append_eq_nil_iff]
    constructor
    · rintro ⟨hp, hn⟩
      refine List.eq_nil_iff_forall_not_mem.2 fun s hs => ?_
      cases h : p s with
      | true => exact List.filter_eq_nil_iff.1 hp s hs h
      | false => exact List.filter_eq_nil_iff.1 hn s hs (by simp [h])
    · rintro rfl
      exact ⟨rfl, rfl⟩
  simp only [Policy.violations, List.append_eq_nil_iff (p := List.map _ _ ++ _),
    List.append_eq_nil_iff (p := List.map _ _), List.map_eq_nil_iff, hsplit,
    List.filter_eq_nil_iff]
  simp [and_assoc]

/-- A target breaks no rule exactly if each of its symbols is allowed. -/
theorem Target.violations_verdict_eq_nil_iff {plan : Plan} {target : Target}
    {symbols : List Symbol} :
    (target.verdict plan.naming plan.policy symbols).violations = [] ↔
      ∀ s ∈ symbols, plan.Allows target s := by
  have hmem {role : Role} {s : Symbol} :
      s ∈ ((target.inventory symbols).census plan.naming).withRole role ↔
        s ∈ symbols ∧ plan.naming.roleOf target.publicPrefix s = role := by
    simp [Target.inventory]
  unfold Target.verdict
  rw [Policy.violations_eq_nil_iff, List.eq_nil_iff_forall_not_mem]
  simp only [hmem, Plan.allows_iff]
  constructor
  · rintro ⟨himport, hprivate, hgeneric⟩ s hs
    exact ⟨fun hr => himport s ⟨hs, hr⟩, fun hr => hprivate s ⟨hs, hr⟩,
      fun hr => hgeneric s ⟨hs, hr⟩⟩
  · intro h
    exact ⟨fun s hs => (h s hs.1).1 hs.2, fun s hs => (h s hs.1).2.1 hs.2,
      fun s hs => (h s hs.1).2.2 hs.2⟩

/-! ## Entries -/

namespace Elf

variable {image : ByteArray}

/-- Entry `e` of the symbol table of an image, not number 0, shows the name `bytes` to other files:
it names neither a section nor a file, is not local, and the name is not empty. -/
structure Exposes (image : ByteArray) (e : Entry) (bytes : List UInt8) : Prop where
  entry : ∃ table index strings, symbolTable image = .ok table ∧ 1 ≤ index ∧ index < table.count ∧
    e = table.entry image index ∧ table.strings = some strings ∧ strings.Holds image e.name bytes
  type_ne_section : e.rawType ≠ 3
  type_ne_file : e.rawType ≠ 4
  binding_ne_local : e.rawBinding ≠ 0
  name_ne_nil : bytes ≠ []

/-- The symbols of an image are its exposed entries. -/
theorem mem_symbols_iff {ss : List Symbol} (h : (symbols image).result = .ok ss) {s : Symbol} :
    s ∈ ss ↔ ∃ e bytes, Exposes image e bytes ∧
      s = ⟨Utf8.decodeLossy bytes, kindOf e.rawType, e.sectionIndex != 0⟩ := by
  obtain ⟨table, verdicts, ht, hv, rfl⟩ := symbols_eq_ok_iff.1 h
  rw [SymbolTable.judgeAll_eq_ok_iff] at hv
  simp only [List.mem_filterMap, id, exists_eq_right]
  constructor
  · intro hs
    obtain ⟨index, hi, hj⟩ := exists_right_of_forall₂ hv.flip hs
    obtain ⟨bytes, hn, hsym⟩ := (SymbolTable.eq_some_iff_of_judge hj).1 rfl
    obtain ⟨h3, h4, h0, hne, rfl⟩ := symbolOf?_eq_some_iff.1 hsym
    obtain ⟨strings, hs, hholds⟩ := SymbolTable.name?_eq_some_iff.1 hn
    obtain ⟨h1, hcount⟩ := SymbolTable.mem_indices.1 hi
    exact ⟨table.entry image index, bytes,
      ⟨⟨table, index, strings, ht, h1, hcount, rfl, hs, hholds⟩, h3, h4, h0, hne⟩, rfl⟩
  · rintro ⟨e, bytes, ⟨⟨table', index, strings, ht', h1, hcount, rfl, hs, hholds⟩, h3, h4, h0, hne⟩,
      rfl⟩
    rw [ht] at ht'
    cases ht'
    obtain ⟨v, hmem, hj⟩ := exists_right_of_forall₂ hv (SymbolTable.mem_indices.2 ⟨h1, hcount⟩)
    have hn := SymbolTable.name?_eq_some_iff.2 ⟨strings, hs, hholds⟩
    rwa [← (SymbolTable.eq_some_iff_of_judge hj).2
      ⟨bytes, hn, symbolOf?_eq_some_iff.2 ⟨h3, h4, h0, hne, rfl⟩⟩]

/-- What holds of every symbol by its name and whether it is defined holds of every exposed
entry. -/
theorem forall_symbols_iff {ss : List Symbol} (h : (symbols image).result = .ok ss)
    {p : Symbol → Prop} : (∀ s ∈ ss, p s) ↔
      ∀ e bytes, Exposes image e bytes →
        p ⟨Utf8.decodeLossy bytes, kindOf e.rawType, e.sectionIndex != 0⟩ := by
  constructor
  · intro hp e bytes he
    exact hp _ ((mem_symbols_iff h).2 ⟨e, bytes, he, rfl⟩)
  · intro hp s hs
    obtain ⟨e, bytes, he, rfl⟩ := (mem_symbols_iff h).1 hs
    exact hp e bytes he

end Elf

/-! ## Audits -/

namespace Plan

variable {plan : Plan} {disk : Disk}

/-- A report is clean exactly if each verdict in it is. -/
theorem violations_audit_eq_nil_iff :
    (∃ report, (plan.audit disk).result = .ok report ∧ report.violations = []) ↔
      ∀ target ∈ plan.manifest, ∃ v, plan.verdictOf disk target = .ok v ∧ v.violations = [] := by
  constructor
  · rintro ⟨report, hr, hclean⟩ target ht
    obtain ⟨verdicts, hv, rfl⟩ := audit_eq_ok_iff.1 hr
    obtain ⟨v, hmem, htv⟩ := exists_right_of_forall₂ hv ht
    exact ⟨v, htv, List.flatMap_eq_nil_iff.1 hclean v hmem⟩
  · intro h
    cases hr : (plan.audit disk).result with
    | error e =>
      obtain ⟨before, target, after, hm, -, he⟩ := audit_eq_error_iff.1 hr
      obtain ⟨v, hv, -⟩ := h target (by simp [hm])
      rw [he] at hv
      cases hv
    | ok report =>
      obtain ⟨verdicts, hv, rfl⟩ := audit_eq_ok_iff.1 hr
      refine ⟨_, rfl, List.flatMap_eq_nil_iff.2 fun v hmem => ?_⟩
      obtain ⟨target, ht, htv⟩ := exists_right_of_forall₂ hv.flip hmem
      obtain ⟨v', hv', hclean⟩ := h target ht
      have hsame : v' = v := Except.ok.inj (hv'.symm.trans htv)
      rwa [← hsame]

/-- An audit is clean exactly if every target's file can be read and its image is accepted, and the
rules let the target define or import every exposed entry. -/
theorem audit_clean_iff (plan : Plan) (disk : Disk) :
    (∃ report, (plan.audit disk).result = .ok report ∧ report.violations = []) ↔
      ∀ target ∈ plan.manifest, ∃ image ss, disk.read target.path = .ok image ∧
        (Elf.symbols image).result = .ok ss ∧
        ∀ e bytes, Elf.Exposes image e bytes →
          (e.sectionIndex ≠ 0 → plan.AllowsExport target (Utf8.decodeLossy bytes)) ∧
          (e.sectionIndex = 0 → plan.AllowsImport target (Utf8.decodeLossy bytes)) := by
  rw [violations_audit_eq_nil_iff]
  refine forall₂_congr fun target _ => ?_
  have hallows {image : ByteArray} {ss : List Symbol}
      (h : (Elf.symbols image).result = .ok ss) :
      (target.verdict plan.naming plan.policy ss).violations = [] ↔
        ∀ e bytes, Elf.Exposes image e bytes →
          (e.sectionIndex ≠ 0 → plan.AllowsExport target (Utf8.decodeLossy bytes)) ∧
          (e.sectionIndex = 0 → plan.AllowsImport target (Utf8.decodeLossy bytes)) := by
    rw [Target.violations_verdict_eq_nil_iff, Elf.forall_symbols_iff h]
    simp only [Allows, bne_iff_ne, bne_eq_false_iff_eq]
  constructor
  · rintro ⟨v, hv, hclean⟩
    obtain ⟨ss, hs, rfl⟩ := Target.audit_eq_ok_iff.1 hv
    obtain ⟨image, hread, himage⟩ := Disk.symbols_eq_ok_iff.1 hs
    exact ⟨image, ss, hread, himage, (hallows himage).1 hclean⟩
  · rintro ⟨image, ss, hread, himage, hentries⟩
    have hs := Disk.symbols_eq_ok_iff.2 ⟨image, hread, himage⟩
    exact ⟨_, Target.audit_eq_ok_iff.2 ⟨ss, hs, rfl⟩, (hallows himage).2 hentries⟩

end Plan

end LinkageAudit

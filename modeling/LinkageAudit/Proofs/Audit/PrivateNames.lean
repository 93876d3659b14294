import LinkageAudit.Proofs.Audit.Linkage
import LinkageAudit.Proofs.Audit.Partition
import LinkageAudit.Proofs.Audit.Relevance

/-!
# Private names under a public prefix

The private stem and a public prefix can overlap: a file may export under a prefix that is private
itself. Then the order in which the two are tried decides about the names that start with both, and
the private stem goes first.

* `Naming.roleByStems`: roles of exports by a list of stems, the first that fits deciding;
  `Naming.roleOf_eq_roleByStems` says that this is how roles are given.
* `Naming.roleByStems_swap_ne_iff`: the names for which the order of two stems matters.
* `exists_prefix_of_both_iff`: there are such names if one of the stems begins with the other.
* `Policy.leaks_of_private_prefix`: the exports that are reported under a private prefix.
* `Naming.private_before_public`: what the order comes to, up to the report.
-/

namespace LinkageAudit

/-! ## Stems in order -/

namespace Naming

/-- The stems of exports with their roles, in the order in which they are tried. -/
def exportStems (naming : Naming) (publicPrefix : String) : List (String × Role) :=
  [(naming.privateStem, .privateExport), (publicPrefix, .publicExport)]

/-- The role of a symbol by stems: that of the first one that an export starts with. -/
def roleByStems (naming : Naming) (stems : List (String × Role)) (s : Symbol) : Role :=
  if s.defined then
    ((stems.find? fun stem => s.name.startsWith stem.1).map (·.2)).getD .genericExport
  else if s.name.startsWith naming.root then .siblingImport
  else .systemImport

variable {naming : Naming} {publicPrefix : String} {s : Symbol}

theorem roleOf_eq_roleByStems :
    naming.roleOf publicPrefix s = naming.roleByStems (naming.exportStems publicPrefix) s := by
  unfold roleOf roleByStems exportStems
  by_cases hstem : s.name.startsWith naming.privateStem = true <;>
    by_cases hpublic : s.name.startsWith publicPrefix = true <;>
      simp [hstem, hpublic]

/-- A stem that fits decides before all later ones. -/
theorem roleByStems_cons {stem : String × Role} {stems : List (String × Role)}
    (hdefined : s.defined = true) (h : stem.1.toList <+: s.name.toList) :
    naming.roleByStems (stem :: stems) s = stem.2 := by
  simp [roleByStems, hdefined, h]

/-- The order of two stems matters for the exports that start with both. -/
theorem roleByStems_swap_ne_iff {x y : String × Role} :
    naming.roleByStems [x, y] s ≠ naming.roleByStems [y, x] s ↔
      s.defined = true ∧ x.1.toList <+: s.name.toList ∧ y.1.toList <+: s.name.toList ∧
        x.2 ≠ y.2 := by
  unfold roleByStems
  rw [← String.startsWith_string_iff, ← String.startsWith_string_iff]
  cases s.defined with
  | false => simp
  | true =>
    by_cases hx : s.name.startsWith x.1 = true <;>
      by_cases hy : s.name.startsWith y.1 = true <;> simp [hx, hy]

/-- With the public prefix in front, the names that start with both would be public. -/
theorem roleByStems_reverse_ne_iff :
    naming.roleOf publicPrefix s ≠ naming.roleByStems (naming.exportStems publicPrefix).reverse s ↔
      s.defined = true ∧ naming.privateStem.toList <+: s.name.toList ∧
        publicPrefix.toList <+: s.name.toList := by
  rw [roleOf_eq_roleByStems]
  refine roleByStems_swap_ne_iff.trans ?_
  simp

end Naming

/-- Some name starts with each of two stems if one of them starts with the other. -/
theorem exists_prefix_of_both_iff {a b : String} :
    (∃ name : String, a.toList <+: name.toList ∧ b.toList <+: name.toList) ↔
      a.toList <+: b.toList ∨ b.toList <+: a.toList := by
  constructor
  · rintro ⟨name, ha, hb⟩
    exact List.prefix_or_prefix_of_prefix ha hb
  · rintro (h | h)
    · exact ⟨b, h, List.prefix_rfl⟩
    · exact ⟨a, List.prefix_rfl, h⟩

/-! ## Reports under a private prefix -/

namespace Policy

variable {policy : Policy} {naming : Naming} {inventory : Inventory}

/-- Without the imports, the leaks are left of a report. -/
theorem filter_leaks :
    (policy.violations (inventory.census naming)).filter (·.kind ≠ .unwhitelistedImport) =
      policy.leaks naming inventory := by
  have himports : (policy.refusedImports naming inventory).filter
      (·.kind ≠ .unwhitelistedImport) = [] := by
    rw [List.filter_eq_nil_iff]
    intro v hv
    simp [kind_of_mem_refusedImports hv]
  have hleaks : (policy.leaks naming inventory).filter (·.kind ≠ .unwhitelistedImport) =
      policy.leaks naming inventory := by
    rw [List.filter_eq_self]
    intro v hv
    simp [kind_ne_of_mem_leaks hv]
  rw [violations_eq_append, List.filter_append, himports, hleaks, List.nil_append]

/-- Under a private prefix nothing is public: an export is private and judged by the list of those
that may stay visible, or it is reported. -/
theorem leaks_of_private_prefix
    (h : naming.privateStem.toList <+: inventory.publicPrefix.toList) :
    (policy.violations (inventory.census naming)).filter (·.kind ≠ .unwhitelistedImport) =
      inventory.select .leakedPrivate (fun s =>
          s.defined && s.name.startsWith naming.privateStem && !policy.mayExport s.name) ++
        inventory.select .leakedGeneric (fun s =>
          s.defined && !s.name.startsWith naming.privateStem) := by
  rw [filter_leaks, leaks]
  refine congrArg₂ _ (select_groupOf?_eq .leakedPrivate fun s => ?_)
    (select_groupOf?_eq .leakedGeneric fun s => ?_)
  · rw [Bool.eq_iff_iff]
    simp [Violation.Group.role, Violation.Group.admits, Naming.roleOf_eq_privateExport_iff]
  · have hpublic (hname : inventory.publicPrefix.toList <+: s.name.toList) :
        naming.privateStem.toList <+: s.name.toList := h.trans hname
    rw [Bool.eq_iff_iff]
    simpa [Violation.Group.role, Violation.Group.admits, Naming.roleOf_eq_genericExport_iff]
      using fun _ => mt hpublic

theorem mem_violations_of_kind {s : Symbol} {kind : Violation.Kind}
    (hs : s ∈ inventory.symbols)
    (h : policy.kindOf? naming inventory.toTarget s = some kind) :
    ⟨kind, inventory.path, s.name⟩ ∈ policy.violations (inventory.census naming) :=
  mem_violations_census_iff.2 ⟨s, hs, h, rfl, rfl⟩

/-- An export with the private stem is never reported as a generic one, and no other export as a
private one. -/
theorem stem_of_leak {v : Violation} (hv : v ∈ policy.violations (inventory.census naming)) :
    (v.kind = .leakedPrivate → naming.privateStem.toList <+: v.symbol.toList) ∧
      (v.kind = .leakedGeneric → ¬ naming.privateStem.toList <+: v.symbol.toList) := by
  obtain ⟨s, -, hkind, -, hname⟩ := mem_violations_census_iff.1 hv
  rw [hname]
  constructor
  · intro h
    rw [h, kindOf?_eq_leakedPrivate_iff, Naming.roleOf_eq_privateExport_iff] at hkind
    exact hkind.1.2
  · intro h
    rw [h, kindOf?_eq_leakedGeneric_iff, Naming.roleOf_eq_genericExport_iff] at hkind
    exact hkind.2.1

/-- A private name is reported unless it is listed, whatever else the policy lists. -/
theorem leakedPrivate_mem_violations_iff {s : Symbol} (hs : s ∈ inventory.symbols)
    (hdefined : s.defined = true) (hstem : naming.privateStem.toList <+: s.name.toList) :
    ⟨.leakedPrivate, inventory.path, s.name⟩ ∈ policy.violations (inventory.census naming) ↔
      s.name ∉ policy.exported.names := by
  rw [← NameSet.contains_eq_false_iff]
  constructor
  · intro hv
    obtain ⟨s', -, hkind, -, hname⟩ := mem_violations_census_iff.1 hv
    have hname : s.name = s'.name := hname
    rw [hname]
    exact (kindOf?_eq_leakedPrivate_iff.1 hkind).2
  · intro hlisted
    have hrole : naming.roleOf inventory.publicPrefix s = .privateExport :=
      Naming.roleOf_eq_privateExport_iff.2 ⟨hdefined, hstem⟩
    exact mem_violations_of_kind hs (kindOf?_eq_leakedPrivate_iff.2 ⟨hrole, hlisted⟩)

end Policy

namespace Naming

/-- The private stem goes before the public prefix. That matters for the exports that start with
both, which the other order would make public, and they exist if one of the two stems starts with
the other. No private name gets into a public or generic role, and under a public prefix that is
itself private no export is public: each is reported as a generic one, or judged by the list of
private names that may stay visible. -/
theorem private_before_public (naming : Naming) (inventory : Inventory) :
    let stem := naming.privateStem.toList
    let publicPrefix := inventory.publicPrefix
    let role := naming.roleOf publicPrefix
    let publicFirst := naming.roleByStems (naming.exportStems publicPrefix).reverse
    let census := inventory.census naming
    -- Roles are given by the two stems in order.
    role = naming.roleByStems (naming.exportStems publicPrefix) ∧
    -- The other order would make the exports that start with both public.
    (∀ s, role s ≠ publicFirst s ↔
      s.defined = true ∧ stem <+: s.name.toList ∧ publicPrefix.toList <+: s.name.toList) ∧
    (∀ s, role s ≠ publicFirst s → role s = .privateExport ∧ publicFirst s = .publicExport) ∧
    ((∃ s, role s ≠ publicFirst s) ↔
      stem <+: publicPrefix.toList ∨ publicPrefix.toList <+: stem) ∧
    -- Private names are nowhere else.
    (∀ s, stem <+: s.name.toList →
      s ∉ census.withRole .publicExport ∧ s ∉ census.withRole .genericExport) ∧
    -- Under a private prefix no name is public, and each export is in one of two groups.
    (stem <+: publicPrefix.toList → census.withRole .publicExport = [] ∧
      ∀ policy : Policy,
        let violations := policy.violations census
        violations.filter (·.kind ≠ .unwhitelistedImport) =
          inventory.select .leakedPrivate (fun s =>
              s.defined && s.name.startsWith naming.privateStem && !policy.mayExport s.name) ++
            inventory.select .leakedGeneric (fun s =>
              s.defined && !s.name.startsWith naming.privateStem) ∧
        ∀ s ∈ inventory.symbols, s.defined = true →
          if stem <+: s.name.toList then
            ⟨.leakedGeneric, inventory.path, s.name⟩ ∉ violations ∧
              (⟨.leakedPrivate, inventory.path, s.name⟩ ∈ violations ↔
                s.name ∉ policy.exported.names)
          else
            ⟨.leakedGeneric, inventory.path, s.name⟩ ∈ violations ∧
              ⟨.leakedPrivate, inventory.path, s.name⟩ ∉ violations) := by
  intro stem publicPrefix role publicFirst census
  refine ⟨funext fun s => roleOf_eq_roleByStems, fun s => roleByStems_reverse_ne_iff,
    fun s hs => ?_, ?_, fun s hstem => ⟨fun hs => ?_, fun hs => ?_⟩, fun hlead => ⟨?_, ?_⟩⟩
  · obtain ⟨hdefined, hstem, hpublic⟩ := roleByStems_reverse_ne_iff.1 hs
    exact ⟨roleOf_eq_privateExport_iff.2 ⟨hdefined, hstem⟩, roleByStems_cons hdefined hpublic⟩
  · rw [← exists_prefix_of_both_iff]
    constructor
    · rintro ⟨s, hs⟩
      exact ⟨s.name, (roleByStems_reverse_ne_iff.1 hs).2⟩
    · rintro ⟨name, hname⟩
      exact ⟨⟨name, .other, true⟩, roleByStems_reverse_ne_iff.2 ⟨rfl, hname⟩⟩
  · have hrole := (inventory.mem_withRole_census naming).1 hs
    exact (roleOf_eq_publicExport_iff.1 hrole.2).2.1 hstem
  · have hrole := (inventory.mem_withRole_census naming).1 hs
    exact (roleOf_eq_genericExport_iff.1 hrole.2).2.1 hstem
  · rw [List.eq_nil_iff_forall_not_mem]
    intro s hs
    have hrole := (inventory.mem_withRole_census naming).1 hs
    obtain ⟨-, hstem, hpublic⟩ := roleOf_eq_publicExport_iff.1 hrole.2
    exact hstem (hlead.trans hpublic)
  · intro policy violations
    refine ⟨Policy.leaks_of_private_prefix hlead, fun s hs hdefined => ?_⟩
    split
    · next hstem =>
      exact ⟨fun hv => (Policy.stem_of_leak hv).2 rfl hstem,
        Policy.leakedPrivate_mem_violations_iff hs hdefined hstem⟩
    · next hstem =>
      have hgeneric : role s = .genericExport :=
        roleOf_eq_genericExport_iff.2 ⟨hdefined, hstem, fun h => hstem (hlead.trans h)⟩
      exact ⟨Policy.mem_violations_of_kind hs (Policy.kindOf?_eq_leakedGeneric_iff.2 hgeneric),
        fun hv => hstem ((Policy.stem_of_leak hv).1 rfl)⟩

/-- A file whose public prefix is its one private name, with another private name, a name from
outside the library and an import. -/
theorem private_before_public_rescueFile :
    let rescue : Symbol := ⟨"termpaintp_rescue_embedded", .function, true⟩
    let helper : Symbol := ⟨"termpaintp_helper", .function, true⟩
    let stray : Symbol := ⟨"poll_once", .object, true⟩
    let inventory : Inventory :=
      ⟨⟨⟨"ttyrescue.c.o"⟩, .integration, "termpaintp_rescue_embedded"⟩,
        [rescue, ⟨"poll", .other, false⟩, helper, stray]⟩
    let census := inventory.census .standard
    let violations := Policy.standard.violations census
    standard.privateStem.toList <+: inventory.publicPrefix.toList ∧
    standard.roleOf inventory.publicPrefix rescue ≠
      standard.roleByStems (standard.exportStems inventory.publicPrefix).reverse rescue ∧
    (rescue ∉ census.withRole .publicExport ∧ rescue ∉ census.withRole .genericExport) ∧
    census.withRole .publicExport = [] ∧
    violations.filter (·.kind ≠ .unwhitelistedImport) =
      [⟨.leakedPrivate, inventory.path, helper.name⟩,
        ⟨.leakedGeneric, inventory.path, stray.name⟩] ∧
    ⟨.leakedPrivate, inventory.path, rescue.name⟩ ∉ violations := by
  intro rescue helper stray inventory census violations
  have hlead : standard.privateStem.toList <+: inventory.publicPrefix.toList := by
    decide +kernel
  have hrescue : standard.privateStem.toList <+: rescue.name.toList := hlead
  obtain ⟨-, hmoved, -, -, hnowhere, hunder⟩ := private_before_public standard inventory
  obtain ⟨hpublic, hreport⟩ := hunder hlead
  obtain ⟨hleaks, hexports⟩ := hreport Policy.standard
  have hlisted := hexports rescue (by simp [inventory]) rfl
  rw [if_pos hrescue] at hlisted
  refine ⟨hlead, (hmoved rescue).2 ⟨rfl, hrescue, List.prefix_rfl⟩, hnowhere rescue hrescue,
    hpublic, hleaks.trans (by decide +kernel), fun hv => hlisted.2.1 hv (by decide +kernel)⟩

end Naming

end LinkageAudit

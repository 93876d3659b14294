import LinkageAudit.Proofs.Audit.Violations
import LinkageAudit.Proofs.Elf.RoundTrip
import LinkageAudit.Proofs.Elf.Writer
import LinkageAudit.Proofs.Text.Utf8

/-!
# Verdicts on undecoded names

The names in a symbol table are bytes, and the rules are about text. Here the rules are put on the
bytes themselves, and decoding first makes no difference: as long as the rules are legible, a name
that is not well-formed text gains nothing and loses nothing by the characters that replace its
ill-formed parts.

* `RawSymbol`, `Naming.rawRoleOf`, `Policy.rawGroupOf?`: symbols and rules on bytes.
* `Policy.groupOf?_decode`: a symbol is reported as its undecoded name is.
* `Elf.verdict_of_rawSymbols`: the verdict on an image is the verdict on its undecoded symbols.
-/

namespace LinkageAudit

/-! ## Rules on bytes -/

/-- A symbol whose name is not decoded. -/
structure RawSymbol where
  name : List UInt8
  kind : Symbol.Kind
  defined : Bool
  deriving DecidableEq, Repr

namespace RawSymbol

/-- The symbol with its name decoded. -/
def decode (s : RawSymbol) : Symbol := ⟨Utf8.decodeLossy s.name, s.kind, s.defined⟩

/-- The name starts with the bytes of a text. -/
def startsWith (s : RawSymbol) (text : String) : Bool := (Utf8.encode text).isPrefixOf s.name

end RawSymbol

/-- The bytes are those of a name in the set. -/
def NameSet.containsBytes (s : NameSet) (bytes : List UInt8) : Bool :=
  s.names.any fun name => Utf8.encode name == bytes

/-- The role of a symbol by the bytes of its name. -/
def Naming.rawRoleOf (n : Naming) (publicPrefix : String) (s : RawSymbol) : Role :=
  if s.defined then
    if s.startsWith n.privateStem then .privateExport
    else if s.startsWith publicPrefix then .publicExport
    else .genericExport
  else if s.startsWith n.root then .siblingImport
  else .systemImport

namespace Policy

/-- A component may import the name with these bytes. -/
def mayImportBytes (p : Policy) (component : Component) (bytes : List UInt8) : Bool :=
  p.core.containsBytes bytes || component == .integration && p.extended.containsBytes bytes

/-- A private symbol whose name has these bytes may stay visible. -/
def mayExportBytes (p : Policy) (bytes : List UInt8) : Bool := p.exported.containsBytes bytes

/-- The group that a symbol is reported in, by the bytes of its name. -/
def rawGroupOf? (p : Policy) (naming : Naming) (target : Target) (s : RawSymbol) :
    Option Violation.Group :=
  (naming.rawRoleOf target.publicPrefix s).group? (p.mayImportBytes target.component s.name)
    (p.extended.containsBytes s.name) (p.mayExportBytes s.name)

/-- What a symbol is reported as, by the bytes of its name. -/
def rawKindOf? (p : Policy) (naming : Naming) (target : Target) (s : RawSymbol) :
    Option Violation.Kind :=
  (p.rawGroupOf? naming target s).map (·.kind)

end Policy

/-! ## Legible rules -/

/-- No name in the set holds a replacement character. -/
def NameSet.Legible (s : NameSet) : Prop := ∀ name ∈ s.names, Utf8.Legible name

instance (s : NameSet) : Decidable s.Legible :=
  inferInstanceAs (Decidable (∀ name ∈ s.names, Utf8.Legible name))

/-- Neither the root nor the suffix holds a replacement character. -/
structure Naming.Legible (n : Naming) : Prop where
  root : Utf8.Legible n.root
  privateSuffix : Utf8.Legible n.privateSuffix

/-- No list holds a replacement character. -/
structure Policy.Legible (p : Policy) : Prop where
  core : p.core.Legible
  extended : p.extended.Legible
  exported : p.exported.Legible

theorem Naming.legible_standard : Naming.standard.Legible :=
  ⟨by decide +kernel, by decide +kernel⟩

theorem Policy.legible_standard : Policy.standard.Legible :=
  ⟨by decide +kernel, by decide +kernel, by decide +kernel⟩

theorem Naming.Legible.privateStem {n : Naming} (h : n.Legible) : Utf8.Legible n.privateStem := by
  unfold Naming.privateStem Utf8.Legible
  rw [String.toList_append, List.mem_append, not_or]
  exact ⟨h.root, h.privateSuffix⟩

theorem RawSymbol.startsWith_decode {text : String} (h : Utf8.Legible text) (s : RawSymbol) :
    s.decode.name.startsWith text = s.startsWith text := by
  rw [Bool.eq_iff_iff, RawSymbol.startsWith, List.isPrefixOf_iff_prefix]
  exact Utf8.startsWith_decodeLossy_iff h

theorem NameSet.contains_decodeLossy {s : NameSet} (h : s.Legible) (bytes : List UInt8) :
    s.contains (Utf8.decodeLossy bytes) = s.containsBytes bytes := by
  rw [Bool.eq_iff_iff, contains_iff, containsBytes, List.any_eq_true]
  simp only [beq_iff_eq]
  constructor
  · intro hm
    exact ⟨_, hm, ((Utf8.decodeLossy_eq_iff (h _ hm)).1 rfl).symm⟩
  · rintro ⟨name, hm, rfl⟩
    rwa [(Utf8.decodeLossy_eq_iff (h name hm)).2 rfl]

theorem Naming.roleOf_decode {n : Naming} {publicPrefix : String} (hn : n.Legible)
    (hp : Utf8.Legible publicPrefix) (s : RawSymbol) :
    n.roleOf publicPrefix s.decode = n.rawRoleOf publicPrefix s := by
  unfold roleOf rawRoleOf
  rw [s.startsWith_decode hn.privateStem, s.startsWith_decode hp, s.startsWith_decode hn.root]
  rfl

namespace Policy

variable {policy : Policy} {naming : Naming} {target : Target}

theorem mayImport_decodeLossy (h : policy.Legible) (component : Component) (bytes : List UInt8) :
    policy.mayImport component (Utf8.decodeLossy bytes) = policy.mayImportBytes component bytes := by
  rw [mayImport, mayImportBytes, NameSet.contains_decodeLossy h.core,
    NameSet.contains_decodeLossy h.extended]

theorem mayExport_decodeLossy (h : policy.Legible) (bytes : List UInt8) :
    policy.mayExport (Utf8.decodeLossy bytes) = policy.mayExportBytes bytes :=
  NameSet.contains_decodeLossy h.exported bytes

/-- A symbol is reported in the group that its undecoded name is reported in. -/
theorem groupOf?_decode (hnaming : naming.Legible) (hpublic : Utf8.Legible target.publicPrefix)
    (hpolicy : policy.Legible) (s : RawSymbol) :
    policy.groupOf? naming target s.decode = policy.rawGroupOf? naming target s := by
  rw [groupOf?, rawGroupOf?, Naming.roleOf_decode hnaming hpublic]
  simp only [RawSymbol.decode, mayImport_decodeLossy hpolicy, mayExport_decodeLossy hpolicy,
    NameSet.contains_decodeLossy hpolicy.extended]

end Policy

/-! ## Images -/

namespace Elf

/-- The undecoded symbol that raw numbers and a name stand for, if any. -/
def rawSymbolOf? (type binding sectionIndex : Nat) (name : List UInt8) : Option RawSymbol :=
  if binding = 0 ∨ type = 3 ∨ type = 4 ∨ name = [] then none
  else some ⟨name, kindOf type, sectionIndex != 0⟩

theorem symbolOf?_eq_map (type binding sectionIndex : Nat) (name : List UInt8) :
    symbolOf? type binding sectionIndex name =
      (rawSymbolOf? type binding sectionIndex name).map RawSymbol.decode := by
  unfold symbolOf? rawSymbolOf?
  split <;> rfl

namespace SymbolTable

/-- The undecoded symbol that an entry stands for, if any. -/
def rawSymbol? (t : SymbolTable) (image : ByteArray) (e : Entry) : Option RawSymbol :=
  (t.name? image e).bind (rawSymbolOf? e.rawType e.rawBinding e.sectionIndex)

/-- The undecoded symbols of a table, in table order. -/
def rawSymbols (t : SymbolTable) (image : ByteArray) : List RawSymbol :=
  (List.range' 1 (t.count - 1)).filterMap fun index => t.rawSymbol? image (t.entry image index)

/-- An entry that is accepted comes to its undecoded symbol with the name decoded. -/
theorem eq_map_rawSymbol?_of_judge {t : SymbolTable} {image : ByteArray} {e : Entry}
    {v : Option Symbol} (h : t.judge image e = .ok v) :
    v = (t.rawSymbol? image e).map RawSymbol.decode := by
  refine Option.ext fun s => ?_
  rw [eq_some_iff_of_judge h, rawSymbol?, Option.map_bind, Option.bind_eq_some_iff]
  simp only [Function.comp_apply, symbolOf?_eq_map]

end SymbolTable

/-- The undecoded symbols of an image whose entries are all accepted. -/
def rawSymbols (image : ByteArray) : Except Error (List RawSymbol) := do
  let table ← symbolTable image
  let _ ← table.judgeAll image
  return table.rawSymbols image

/-- The symbols of an image are its undecoded ones with their names decoded. -/
theorem result_symbols_eq_map (image : ByteArray) :
    (symbols image).result = (rawSymbols image).map (·.map RawSymbol.decode) := by
  rw [result_symbols, rawSymbols]
  cases symbolTable image with
  | error e => rfl
  | ok table =>
    rw [ok_bind, ok_bind]
    cases hv : table.judgeAll image with
    | error e => rfl
    | ok verdicts =>
      have hverdicts : (List.range' 1 (table.count - 1)).map (fun index =>
          (table.rawSymbol? image (table.entry image index)).map RawSymbol.decode) = verdicts := by
        rw [← List.forall₂_eq_eq_eq, List.forall₂_map_left_iff]
        exact (SymbolTable.judgeAll_eq_ok_iff.1 hv).imp fun index v hj =>
          (SymbolTable.eq_map_rawSymbol?_of_judge hj).symm
      show Except.ok (verdicts.filterMap id) =
        Except.ok ((table.rawSymbols image).map RawSymbol.decode)
      rw [← hverdicts, List.filterMap_map, SymbolTable.rawSymbols, List.map_filterMap]
      rfl

/-- Decoding names never changes a verdict. Under legible rules, the roles and violations of the
symbols of an image are those of its undecoded symbols, and a name that is no text is on no
list. -/
theorem verdict_of_rawSymbols {naming : Naming} {target : Target} {policy : Policy}
    (hnaming : naming.Legible) (hpublic : Utf8.Legible target.publicPrefix)
    (hpolicy : policy.Legible) (image : ByteArray) :
    -- Tests of a decoded name against a legible text are tests of its bytes.
    (∀ bytes text, Utf8.Legible text →
      ((Utf8.decodeLossy bytes).startsWith text = true ↔ Utf8.encode text <+: bytes) ∧
        (Utf8.decodeLossy bytes = text ↔ bytes = Utf8.encode text)) ∧
    -- The symbols that are judged have the bytes in the image as undecoded names.
    (symbols image).result = (rawSymbols image).map (·.map RawSymbol.decode) ∧
    -- Each symbol is judged as the bytes of its name are.
    (∀ s : RawSymbol,
      naming.roleOf target.publicPrefix s.decode = naming.rawRoleOf target.publicPrefix s ∧
        policy.mayImport target.component s.decode.name =
          policy.mayImportBytes target.component s.name ∧
        policy.mayExport s.decode.name = policy.mayExportBytes s.name ∧
        policy.kindOf? naming target s.decode = policy.rawKindOf? naming target s) ∧
    -- So roles and violations of all symbols together are selections by the bytes.
    (∀ raws : List RawSymbol,
      let verdict := target.verdict naming policy (raws.map RawSymbol.decode)
      (∀ role, verdict.census.withRole role =
        (raws.filter (naming.rawRoleOf target.publicPrefix · = role)).map RawSymbol.decode) ∧
      verdict.violations = Violation.Group.all.flatMap fun g =>
        (raws.filter (policy.rawGroupOf? naming target · = some g)).map fun s =>
          ⟨g.kind, target.path, s.decode.name⟩) ∧
    -- A name that is not well-formed is on no list.
    (∀ bytes, (∀ text, bytes ≠ Utf8.encode text) →
      (∀ component, policy.mayImport component (Utf8.decodeLossy bytes) = false) ∧
        policy.mayExport (Utf8.decodeLossy bytes) = false) := by
  have hrole (s : RawSymbol) := Naming.roleOf_decode hnaming hpublic s
  have hgroup (s : RawSymbol) := Policy.groupOf?_decode hnaming hpublic hpolicy s
  have hlisted {names : NameSet} {bytes : List UInt8} (h : ∀ text, bytes ≠ Utf8.encode text) :
      names.containsBytes bytes = false := by
    rw [NameSet.containsBytes, List.any_eq_false]
    exact fun name _ he => h name (beq_iff_eq.1 he).symm
  refine ⟨fun bytes text h =>
      ⟨Utf8.startsWith_decodeLossy_iff h, Utf8.decodeLossy_eq_iff h⟩,
    result_symbols_eq_map image, fun s => ⟨hrole s,
      Policy.mayImport_decodeLossy hpolicy _ _, Policy.mayExport_decodeLossy hpolicy _, ?_⟩,
    fun raws => ⟨fun role => ?_, ?_⟩, fun bytes h => ⟨fun component => ?_, ?_⟩⟩
  · rw [Policy.kindOf?, hgroup, Policy.rawKindOf?]
  · show ((target.inventory (raws.map RawSymbol.decode)).census naming).withRole role = _
    rw [Inventory.withRole_census]
    show (raws.map RawSymbol.decode).filter (naming.roleOf target.publicPrefix · = role) = _
    rw [List.filter_map]
    refine congrArg _ (List.filter_congr fun s _ => ?_)
    rw [Function.comp_apply, hrole]
  · show policy.violations ((target.inventory (raws.map RawSymbol.decode)).census naming) = _
    rw [Policy.violations_census]
    refine List.flatMap_congr fun g _ => ?_
    show ((raws.map RawSymbol.decode).filter (policy.groupOf? naming target · = some g)).map _ = _
    rw [List.filter_map, List.map_map]
    refine congrArg _ (List.filter_congr fun s _ => ?_)
    rw [Function.comp_apply, hgroup]
  · rw [Policy.mayImport_decodeLossy hpolicy, Policy.mayImportBytes, hlisted h, hlisted h,
      Bool.false_or, Bool.and_false]
  · rw [Policy.mayExport_decodeLossy hpolicy]
    exact hlisted h

/-- An import and an export, each with a byte in its name that no text has. -/
def illegibleRecords : List SymbolRecord :=
  [.imported (Utf8.encode "malloc" ++ [0xFF]) (by decide +kernel),
    .exported (Utf8.encode "termpaint_" ++ [0xC3]) (by decide +kernel)]

/-- A name that only begins like a listed one is refused, and one that begins with the public
prefix is public, whatever comes after. -/
theorem verdict_of_rawSymbols_illegibleRecords :
    let target : Target := ⟨⟨"a.o"⟩, .main, "termpaint_"⟩
    Naming.standard.Legible ∧ Utf8.Legible target.publicPrefix ∧ Policy.standard.Legible ∧
      ∃ raws, rawSymbols (write ⟨.bits64, .little⟩ illegibleRecords) = .ok raws ∧
        (symbols (write ⟨.bits64, .little⟩ illegibleRecords)).result =
          .ok (raws.map RawSymbol.decode) ∧
        (target.verdict .standard .standard (raws.map RawSymbol.decode)).violations =
          [⟨.unwhitelistedImport, ⟨"a.o"⟩, "malloc\uFFFD"⟩] := by
  intro target
  have hpublic : Utf8.Legible target.publicPrefix := by decide +kernel
  obtain ⟨-, hsymbols, -, hlists, -⟩ := verdict_of_rawSymbols Naming.legible_standard hpublic
    Policy.legible_standard (write ⟨.bits64, .little⟩ illegibleRecords)
  have hraws : rawSymbols (write ⟨.bits64, .little⟩ illegibleRecords) =
      .ok [⟨Utf8.encode "malloc" ++ [0xFF], .other, false⟩,
        ⟨Utf8.encode "termpaint_" ++ [0xC3], .function, true⟩] := by
    decide +kernel
  refine ⟨Naming.legible_standard, hpublic, Policy.legible_standard, _, hraws, ?_, ?_⟩
  · rw [hsymbols, hraws]
    rfl
  · rw [(hlists _).2]
    decide +kernel

end Elf

end LinkageAudit

import LinkageAudit.Proofs.Elf.Offences

/-!
# Where the symbols of an image come from

An image may announce any number of sections, in any order, with any number of symbol tables among
them. Its symbols are read only if it has exactly one, so there is never a choice to make: the
number of symbol tables alone decides whether an image is refused for it, and what is read comes
from that one section and from the strings that it links to.

* `Header.sectionAt`, `Header.symbolTables`: the section headers that a file header announces,
  number 0 included, and the numbers of those that are symbol tables.
* `Header.sections_eq_map_sectionAt`: reading the section table gives just these headers.
* `SymbolTable.ofSections_eq_scans`: counting the symbol tables and taking one are two scans of the
  sections, and they find the same ones.
* `symbolTable_of_singleton`, `symbolTable_of_length_ne_one`: a single symbol table is taken, and
  any other number is refused.
* `Header.ComesFrom`: a symbol is that of an entry of a section, named in the linked section.
* `symbols_of_sections`: the refusal by number, and the origin of every symbol.

Symbol tables for dynamic linking are of another kind. They do not count, and nothing is read from
them.
-/

namespace LinkageAudit.Elf

variable {image : ByteArray} {header : Header} {sections : List Section}

/-! ## Wording -/

namespace Error

/-- The letter that the wording of a fault begins with. -/
def initial : Error → Char
  | magicTruncated | magicUnknown => 'u'
  | headerTruncated | headerUnsupported | sectionTable _ | symbolTable _ => 'i'
  | symbolTableCount _ => 'e'
  | symbol _ _ => 's'

theorem head?_message (e : Error) : e.message.toList.head? = some e.initial := by
  have happend {s t : String} {c : Char} (h : s.toList.head? = some c) :
      (s ++ t).toList.head? = some c := by
    rw [String.toList_append, List.head?_append, h, Option.some_or]
  cases e with
  | magicTruncated | magicUnknown | headerTruncated | headerUnsupported => decide +kernel
  | sectionTable cause =>
    have hword : ("invalid section table: " : String).toList.head? = some 'i' := by decide +kernel
    exact happend hword
  | symbolTable cause =>
    have hword : ("invalid symbol table: " : String).toList.head? = some 'i' := by decide +kernel
    exact happend hword
  | symbolTableCount found =>
    have hword : ("expected exactly one symbol table section, found " : String).toList.head? =
        some 'e' := by decide +kernel
    exact happend hword
  | symbol index cause =>
    have hword : ("symbol " : String).toList.head? = some 's' := by decide +kernel
    exact happend (happend (happend hword))

/-- No other fault is worded like a wrong number of symbol tables, and the wording tells the
number. -/
theorem message_eq_symbolTableCount_iff {e : Error} {k : Nat} :
    e.message = (symbolTableCount k).message ↔ e = symbolTableCount k := by
  refine ⟨fun h => ?_, fun h => by rw [h]⟩
  have hinitial := e.head?_message
  rw [h, head?_message] at hinitial
  cases e with
  | symbolTableCount found =>
    have hdigits : Nat.toDigits 10 found = Nat.toDigits 10 k :=
      String.ofList_injective ((String.append_right_inj _).1 h)
    rw [← Nat.ofDigitChars_ten_toDigits (n := found), hdigits, Nat.ofDigitChars_ten_toDigits]
  | magicTruncated | magicUnknown => simp [initial] at hinitial
  | headerTruncated | headerUnsupported => simp [initial] at hinitial
  | sectionTable | symbolTable | symbol => simp [initial] at hinitial

end Error

/-! ## Section headers -/

namespace Header

/-- The number of section headers that a file header announces: none without a section table, and
otherwise its count or, where that is zero, the length in section header 0. -/
def announced (h : Header) (image : ByteArray) : Nat :=
  if h.sectionTable = 0 then 0
  else if h.sectionCount = 0 then (Section.read h.format image h.sectionTable).length
  else h.sectionCount

/-- Section header `i`. -/
def sectionAt (h : Header) (image : ByteArray) (i : Nat) : Section :=
  Section.read h.format image (h.sectionTable + i * h.format.layout.sectionHeader.size)

/-- Section `i` is a symbol table. -/
def isSymbolTable (h : Header) (image : ByteArray) (i : Nat) : Bool :=
  (h.sectionAt image i).kind == Section.symbolTable

/-- The numbers of the announced sections that are symbol tables. -/
def symbolTables (h : Header) (image : ByteArray) : List Nat :=
  (List.range (h.announced image)).filter (h.isSymbolTable image)

theorem count_eq_announced {n : Nat} (h : header.count image = .ok n) :
    n = header.announced image := by
  unfold announced
  rcases count_eq_ok_iff.1 h with ⟨h0, rfl⟩ | ⟨h0, hc, rfl⟩ | ⟨h0, hc, -, -, rfl⟩
  · rw [if_pos h0]
  · rw [if_neg h0, if_neg hc]
  · rw [if_neg h0, if_pos hc]

/-- Reading the section table gives every header that the file header announces, in order. -/
theorem sections_eq_map_sectionAt (h : header.sections image = .ok sections) :
    sections = (List.range (header.announced image)).map (header.sectionAt image) := by
  obtain ⟨sections', htable, ⟨⟩, -, hsame⟩ := by
    simpa only [Header.sections, bind_eq_ok_iff] using h
  obtain ⟨n, hcount, hread, -⟩ := table_eq_ok_iff.1 htable
  rw [← Except.ok.inj hsame, hread, ← count_eq_announced hcount]
  rfl

theorem getElem?_sections (h : header.sections image = .ok sections) {i : Nat} {s : Section} :
    sections[i]? = some s ↔ i < header.announced image ∧ s = header.sectionAt image i := by
  rw [sections_eq_map_sectionAt h, List.getElem?_map, Option.map_eq_some_iff]
  simp only [List.getElem?_eq_some_iff, List.getElem_range, List.length_range]
  constructor
  · rintro ⟨_, ⟨hi, rfl⟩, rfl⟩
    exact ⟨hi, rfl⟩
  · rintro ⟨hi, rfl⟩
    exact ⟨i, ⟨hi, rfl⟩, rfl⟩

theorem length_symbolTables (h : header.sections image = .ok sections) :
    (header.symbolTables image).length = sections.countP (·.kind == Section.symbolTable) := by
  rw [sections_eq_map_sectionAt h, List.countP_map, List.countP_eq_length_filter]
  rfl

/-- The sections of the kind are the announced ones of it, each with its number. -/
theorem filter_zipIdx_sections (h : header.sections image = .ok sections) :
    sections.zipIdx.filter (fun (s, _) => s.kind == Section.symbolTable) =
      (header.symbolTables image).map fun i => (header.sectionAt image i, i) := by
  have hzip : sections.zipIdx = (List.range (header.announced image)).map fun i =>
      (header.sectionAt image i, i) := by
    rw [sections_eq_map_sectionAt h]
    refine List.ext_getElem (by simp) fun i _ _ => ?_
    simp
  rw [hzip, List.filter_map]
  rfl

end Header

/-! ## The one symbol table -/

/-- One scan counts the symbol tables and another looks for the first. They always agree: where the
count is one, the second finds it, so it does not matter what an unsuccessful search would give. -/
theorem SymbolTable.ofSections_eq_scans (f : Format) (image : ByteArray) (sections : List Section)
    (missing : Except Error SymbolTable) :
    ofSections f image sections =
      if sections.countP (·.kind == Section.symbolTable) = 1 then
        match sections.zipIdx.find? (·.1.kind == Section.symbolTable) with
        | some (s, index) => (ofSection f image sections s index).mapError .symbolTable
        | none => missing
      else .error (.symbolTableCount (sections.countP (·.kind == Section.symbolTable))) := by
  have hcount : sections.countP (·.kind == Section.symbolTable) =
      (sections.zipIdx.filter fun (s, _) => s.kind == Section.symbolTable).length := by
    rw [← List.countP_eq_length_filter]
    conv_lhs => rw [← List.zipIdx_map_fst 0 sections, List.countP_map]
    rfl
  rw [ofSections, hcount, ← List.head?_filter]
  split
  · next s index hone =>
    rw [hone]
    rfl
  · next hother =>
    rw [if_neg]
    intro hone
    obtain ⟨⟨s, index⟩, hfound⟩ := List.length_eq_one_iff.1 hone
    exact hother s index hfound

theorem symbolTable_eq (hheader : Header.read image = .ok header)
    (hsections : header.sections image = .ok sections) :
    symbolTable image = SymbolTable.ofSections header.format image sections := by
  rw [symbolTable, hheader, ok_bind, Header.symbolTable, hsections]
  rfl

/-- The one symbol table of an image is taken, wherever it stands. -/
theorem symbolTable_of_singleton (hheader : Header.read image = .ok header)
    (hsections : header.sections image = .ok sections) {index : Nat}
    (h : header.symbolTables image = [index]) :
    symbolTable image = (SymbolTable.ofSection header.format image sections
      (header.sectionAt image index) index).mapError .symbolTable := by
  rw [symbolTable_eq hheader hsections, SymbolTable.ofSections,
    Header.filter_zipIdx_sections hsections, h]
  rfl

/-- An image with none or several symbol tables is refused before any of them is looked at. -/
theorem symbolTable_of_length_ne_one (hheader : Header.read image = .ok header)
    (hsections : header.sections image = .ok sections)
    (h : (header.symbolTables image).length ≠ 1) :
    symbolTable image = .error (.symbolTableCount (header.symbolTables image).length) := by
  rw [symbolTable_eq hheader hsections, SymbolTable.ofSections_eq_scans _ _ _ (symbolTable image),
    ← Header.length_symbolTables hsections, if_neg h]

theorem symbols_eq_error_symbolTableCount_iff (hheader : Header.read image = .ok header)
    (hsections : header.sections image = .ok sections) {k : Nat} :
    (symbols image).result = .error (.symbolTableCount k) ↔
      k = (header.symbolTables image).length ∧ k ≠ 1 := by
  by_cases hone : (header.symbolTables image).length = 1
  · obtain ⟨index, hindex⟩ := List.length_eq_one_iff.1 hone
    refine iff_of_false (fun herror => ?_) fun hk => hk.2 (hk.1.trans hone)
    -- All that can be wrong with the one table is the table itself or an entry of it.
    cases htable : SymbolTable.ofSection header.format image sections
        (header.sectionAt image index) index with
    | error cause =>
      rw [result_symbols, symbolTable_of_singleton hheader hsections hindex, htable] at herror
      cases herror
    | ok table =>
      have hok : symbolTable image = .ok table := by
        rw [symbolTable_of_singleton hheader hsections hindex, htable]
        rfl
      obtain ⟨_, _, -, he⟩ := (symbols_eq_error_iff_of_symbolTable hok).1 herror
      cases he
  · rw [result_symbols, symbolTable_of_length_ne_one hheader hsections hone, error_bind,
      Except.error.injEq, Error.symbolTableCount.injEq]
    constructor
    · rintro rfl
      exact ⟨rfl, hone⟩
    · rintro ⟨rfl, -⟩
      rfl

/-! ## Origins -/

namespace Header

/-- Entry `i` of section `index`. -/
def entryAt (h : Header) (image : ByteArray) (index i : Nat) : Entry :=
  Entry.read h.format image
    ((h.sectionAt image index).offset + i * h.format.layout.symbol.size)

/-- The section that section `index` links to. -/
def linkedSection (h : Header) (image : ByteArray) (index : Nat) : Section :=
  h.sectionAt image (h.sectionAt image index).link

/-- A symbol is that of entry `i` of section `index`: the entry lies in that section, and the name
in the strings that the section links to. -/
structure ComesFrom (h : Header) (image : ByteArray) (index i : Nat) (s : Symbol) : Prop where
  behindNull : 1 ≤ i
  inSection : (i + 1) * h.format.layout.symbol.size ≤ (h.sectionAt image index).length
  inImage : (h.sectionAt image index).offset + (h.sectionAt image index).length ≤ image.size
  linked : (h.sectionAt image index).link ≠ 0
  announced : (h.sectionAt image index).link < h.announced image
  strings : (h.linkedSection image index).kind = Section.stringTable
  listed : ¬ (h.entryAt image index i).Unlisted
  named : ∃ bytes, (⟨(h.linkedSection image index).offset,
      (h.linkedSection image index).offset + (h.linkedSection image index).length⟩ :
        StringTable).Holds image (h.entryAt image index i).name bytes ∧ bytes ≠ [] ∧
    s = ⟨Utf8.decodeLossy bytes, kindOf (h.entryAt image index i).rawType,
      (h.entryAt image index i).sectionIndex != 0⟩

end Header

namespace SymbolTable

/-- The strings of a symbol table are those of the section that it links to. -/
theorem linkedStrings_eq_some_iff {link : Nat} {strings : StringTable} :
    linkedStrings sections link = .ok (some strings) ↔ link ≠ 0 ∧ ∃ s, sections[link]? = some s ∧
      s.kind = Section.stringTable ∧ s.offset + s.length < 2 ^ 64 ∧
      strings = ⟨s.offset, s.offset + s.length⟩ := by
  unfold linkedStrings
  by_cases hlink : link = 0
  · simp [hlink]
  rw [if_neg hlink]
  cases hs : sections[link]? with
  | none => simp
  | some s =>
    by_cases hkind : s.kind = Section.stringTable
    · by_cases hrange : s.offset + s.length < 0x1_0000_0000_0000_0000
      · simp [hlink, hkind, hrange, eq_comm]
      · simp [hkind, hrange]
    · simp [hkind]

/-- The kept symbols of a table next to the numbers of their entries. -/
theorem exists_numbers_keptSymbols (t : SymbolTable) (image : ByteArray) :
    ∃ numbers : List Nat, numbers.Pairwise (· < ·) ∧
      List.Forall₂ (fun i s => (1 ≤ i ∧ i < t.count) ∧ t.symbol? image (t.entry image i) = some s)
        numbers (t.keptSymbols image) := by
  let kept (i : Nat) : Option Symbol := t.symbol? image (t.entry image i)
  have hkept (l : List Nat) : List.Forall₂ (fun i s => kept i = some s)
      (l.filter fun i => (kept i).isSome) (l.filterMap kept) := by
    induction l with
    | nil => exact .nil
    | cons i l ih =>
      cases hi : kept i with
      | none => simpa [hi] using ih
      | some s => simpa [hi] using ih
  refine ⟨_, List.Pairwise.filter _ List.pairwise_lt_range',
    (List.forall₂_and_left (p := fun i => 1 ≤ i ∧ i < t.count) _ _).2 ⟨fun i hi => ?_, hkept _⟩⟩
  exact mem_indices.1 (List.mem_of_mem_filter hi)

end SymbolTable

/-- An entry that comes to a symbol lies in the section that its table was made of, and so does its
name in the linked one. -/
theorem Header.comesFrom_of_symbol? (hsections : header.sections image = .ok sections) {index : Nat}
    {table : SymbolTable} (htable : SymbolTable.ofSection header.format image sections
      (header.sectionAt image index) index = .ok table) {i : Nat} {s : Symbol} (h1 : 1 ≤ i)
    (hi : i < table.count) (hs : table.symbol? image (table.entry image i) = some s) :
    header.ComesFrom image index i s := by
  obtain ⟨hinside, -, -, -, strings, hstrings, rfl⟩ := SymbolTable.ofSection_eq_ok_iff.1 htable
  obtain ⟨hlisted, bytes, ⟨_, rfl, hholds⟩, hne, rfl⟩ := SymbolTable.symbol?_eq_some_iff.1 hs
  obtain ⟨hlink, _, hlinked, hkind, -, rfl⟩ := SymbolTable.linkedStrings_eq_some_iff.1 hstrings
  obtain ⟨hannounced, rfl⟩ := (getElem?_sections hsections).1 hlinked
  refine ⟨h1, ?_, of_decide_eq_true hinside, hlink, hannounced, hkind, hlisted, bytes, hholds, hne,
    rfl⟩
  exact Nat.mul_le_of_le_div _ _ _ hi

/-- Symbols that are read come from the one symbol table, in the order of its entries. -/
theorem exists_comesFrom_of_symbols (hheader : Header.read image = .ok header)
    (hsections : header.sections image = .ok sections) {index : Nat}
    (hindex : header.symbolTables image = [index]) {ss : List Symbol}
    (h : (symbols image).result = .ok ss) :
    ∃ numbers : List Nat, numbers.Pairwise (· < ·) ∧
      List.Forall₂ (header.ComesFrom image index) numbers ss := by
  obtain ⟨table, _, htable, -⟩ := symbols_eq_ok_iff.1 h
  obtain ⟨-, rfl⟩ := (symbols_eq_ok_iff_of_symbolTable htable).1 h
  rw [symbolTable_of_singleton hheader hsections hindex, mapError_eq_ok_iff] at htable
  obtain ⟨numbers, hsorted, hnumbers⟩ := table.exists_numbers_keptSymbols image
  exact ⟨numbers, hsorted, hnumbers.imp fun i s hi =>
    Header.comesFrom_of_symbol? hsections htable hi.1.1 hi.1.2 hi.2⟩

/-- Only the number of symbol tables decides whether an image with a sound section table is refused
for it, whatever is in them. Where the symbols can be read there is one such table, and they are
symbols of its own entries, in order, under names from the strings that it links to. -/
theorem symbols_of_sections (hheader : Header.read image = .ok header)
    (hsections : header.sections image = .ok sections) :
    let found := header.symbolTables image
    -- The sections are those that the file header announces, and no others.
    sections = (List.range (header.announced image)).map (header.sectionAt image) ∧
    found.length = sections.countP (·.kind == Section.symbolTable) ∧
    -- The symbol table is what a search for the first one finds if there is just one, and it does
    -- not matter what an unsuccessful search would give.
    (∀ missing, symbolTable image =
      if found.length = 1 then
        match sections.zipIdx.find? (·.1.kind == Section.symbolTable) with
        | some (s, index) =>
          (SymbolTable.ofSection header.format image sections s index).mapError .symbolTable
        | none => missing
      else .error (.symbolTableCount found.length)) ∧
    -- The refusal tells how many there are, and nothing else is worded like it.
    (∀ k, (symbols image).result = .error (.symbolTableCount k) ↔ k = found.length ∧ k ≠ 1) ∧
    ((symbols image).result.mapError Error.message = .error
        ("expected exactly one symbol table section, found " ++ toString found.length) ↔
      found.length ≠ 1) ∧
    -- What is read comes from the only symbol table, and from no section of another kind.
    ∀ ss, (symbols image).result = .ok ss → ∃ index, found = [index] ∧
      (∀ j, j < header.announced image → j ≠ index →
        (header.sectionAt image j).kind ≠ Section.symbolTable) ∧
      ∃ numbers : List Nat, numbers.Pairwise (· < ·) ∧
        List.Forall₂ (header.ComesFrom image index) numbers ss := by
  intro found
  have hcount := Header.length_symbolTables hsections
  have hrefused (k : Nat) := symbols_eq_error_symbolTableCount_iff (k := k) hheader hsections
  refine ⟨Header.sections_eq_map_sectionAt hsections, hcount, fun missing => ?_, hrefused, ?_,
    fun ss hss => ?_⟩
  · rw [symbolTable_eq hheader hsections, show found.length = _ from hcount]
    exact SymbolTable.ofSections_eq_scans _ _ _ missing
  · rw [mapError_eq_error_iff]
    constructor
    · rintro ⟨e, he, hmessage⟩
      rw [Error.message_eq_symbolTableCount_iff.1 hmessage] at he
      exact ((hrefused _).1 he).2
    · intro hne
      exact ⟨_, (hrefused _).2 ⟨rfl, hne⟩, rfl⟩
  · have hone : found.length = 1 := by
      by_contra hne
      rw [(hrefused _).2 ⟨rfl, hne⟩] at hss
      cases hss
    obtain ⟨index, hindex⟩ := List.length_eq_one_iff.1 hone
    refine ⟨index, hindex, fun j hj hne hkind => ?_,
      exists_comesFrom_of_symbols hheader hsections hindex hss⟩
    have hmem : j ∈ found := List.mem_filter.2 ⟨List.mem_range.2 hj, beq_iff_eq.2 hkind⟩
    rw [hindex, List.mem_singleton] at hmem
    exact hne hmem

/-- The sample with the number of sections in section header 0. -/
def extendedSample : ByteArray :=
  ((write ⟨.bits64, .little⟩ sampleRecords).set! 60 0).set! 96 3

/-- The same with section 0 a symbol table as well. -/
def crowdedSample : ByteArray := extendedSample.set! 68 2

/-- Section 0 counts like any other. Where it is no symbol table, what is read comes from
section 1. -/
theorem symbols_of_sections_crowdedSample :
    (∃ header sections, Header.read crowdedSample = .ok header ∧
      header.sections crowdedSample = .ok sections ∧ header.sectionCount = 0 ∧
      header.symbolTables crowdedSample = [0, 1] ∧
      (symbols crowdedSample).result = .error (.symbolTableCount 2)) ∧
    ∃ header sections, Header.read extendedSample = .ok header ∧
      header.sections extendedSample = .ok sections ∧
      ∃ numbers, List.Forall₂ (header.ComesFrom extendedSample 1) numbers
        [⟨"f", .function, true⟩, ⟨"g", .other, false⟩] := by
  let header : Header := ⟨⟨.bits64, .little⟩, 1, 64, 64, 0, 2⟩
  let sections (kind : Nat) : List Section := [⟨kind, 0, 3, 0⟩, ⟨2, 256, 96, 2⟩, ⟨3, 352, 7, 0⟩]
  have hheader : Header.read crowdedSample = .ok header := by decide +kernel
  have hsections : header.sections crowdedSample = .ok (sections 2) := by decide +kernel
  have hheader' : Header.read extendedSample = .ok header := by decide +kernel
  have hsections' : header.sections extendedSample = .ok (sections 0) := by decide +kernel
  obtain ⟨-, -, -, hrefused, -⟩ := symbols_of_sections hheader hsections
  obtain ⟨-, -, -, -, -, horigin⟩ := symbols_of_sections hheader' hsections'
  refine ⟨⟨header, _, hheader, hsections, rfl, by decide +kernel,
    (hrefused 2).2 (by decide +kernel)⟩, header, _, hheader', hsections', ?_⟩
  obtain ⟨index, hindex, -, numbers, -, hnumbers⟩ := horigin
    [⟨"f", .function, true⟩, ⟨"g", .other, false⟩] (by decide +kernel)
  have hone : header.symbolTables extendedSample = [1] := by decide +kernel
  obtain rfl : index = 1 := List.singleton_inj.1 (hindex.symm.trans hone)
  exact ⟨numbers, hnumbers⟩

end LinkageAudit.Elf

import LinkageAudit.Proofs.Elf.Entries
import LinkageAudit.Proofs.Elf.Writer

/-!
# Reading object files back

An image that lays out an object file gives its symbols, in both word sizes and both byte orders.

* `Section.read_of_hasRecord`, `Entry.read_of_hasRecord`: a record is read as it was written.
* `ObjectFile.HasHeaders.starts`, `ObjectFile.HasHeaders.leadsTo`: so are the headers.
* `ObjectFile.LaysOut.symbolTable_eq`, `ObjectFile.LaysOut.judge_entry`: so is the symbol table.
* `symbols_laysOut`: the symbols of an image are those of the records that it lays out.
-/

namespace LinkageAudit.Elf

variable {image : ByteArray}

/-! ## Sizes -/

namespace WordSize

theorem alignment_layout (w : WordSize) : w.layout.alignment = w.width := by
  cases w <;> rfl

theorem size_header_layout (w : WordSize) : w.layout.header.size = w.fileHeaderSize := by
  cases w <;> rfl

theorem size_sectionHeader_layout (w : WordSize) :
    w.layout.sectionHeader.size = w.sectionHeaderSize := by
  cases w <;> rfl

theorem size_symbol_layout (w : WordSize) : w.layout.symbol.size = w.entrySize := by
  cases w <;> rfl

theorem ofByte?_code (w : WordSize) : ofByte? w.code = some w := by
  cases w <;> rfl

end WordSize

theorem ByteOrder.ofByte?_code (order : ByteOrder) : ofByte? order.code = some order := by
  cases order <;> rfl

/-! ## One of a kind -/

/-- A list with one member of a kind, together with its place. -/
theorem filter_zipIdx_eq_singleton {α : Type} {p : α → Bool} {l : List α} {a : α} {i : Nat}
    (ha : l[i]? = some a) (hp : ∀ j b, l[j]? = some b → (p b = true ↔ j = i)) (n : Nat) :
    (l.zipIdx n).filter (fun (b, _) => p b) = [(a, n + i)] := by
  induction l generalizing i n with
  | nil => cases ha
  | cons x l ih =>
    rw [List.zipIdx_cons, List.filter_cons]
    have hx := hp 0 x rfl
    cases i with
    | zero =>
      cases ha
      have hrest : (l.zipIdx (n + 1)).filter (fun (b, _) => p b) = [] := by
        refine List.filter_eq_nil_iff.2 fun y hy hpy => ?_
        obtain ⟨j, hj⟩ := List.mem_iff_getElem?.1 (List.fst_mem_of_mem_zipIdx hy)
        have := (hp (j + 1) y.1 hj).1 hpy
        omega
      rw [if_pos (hx.2 rfl), hrest]
      rfl
    | succ i =>
      have hx0 : ¬ p x = true := fun hpx => by
        have := hx.1 hpx
        omega
      rw [if_neg hx0, ih ha (fun j b hb => ?_)]
      · rw [Nat.add_right_comm, Nat.add_assoc]
      · rw [hp (j + 1) b hb]
        omega

/-! ## Records -/

/-- The part of a section header that is read. -/
def SectionHeader.toSection (s : SectionHeader) : Section := ⟨s.kind, s.offset, s.length, s.link⟩

/-- The fields of a file header that are read lie where their numbers are written, behind the
identification. -/
theorem FileHeader.places (h : FileHeader) (w : WordSize) :
    w.layout.header.fileType = ⟨16 + widthOf ((h.cells w).take 0), 2⟩ ∧
      w.layout.header.sectionTable = ⟨16 + widthOf ((h.cells w).take 5), w.width⟩ ∧
      w.layout.header.sectionSize = ⟨16 + widthOf ((h.cells w).take 10), 2⟩ ∧
      w.layout.header.sectionCount = ⟨16 + widthOf ((h.cells w).take 11), 2⟩ ∧
      w.layout.header.nameSection = ⟨16 + widthOf ((h.cells w).take 12), 2⟩ := by
  cases w <;> simp [WordSize.layout, WordSize.width, FileHeader.cells, widthOf]

theorem Section.read_of_hasRecord {f : Format} {pos : Nat} {s : SectionHeader}
    (h : HasRecord image f.order pos (s.cells f.wordSize)) :
    Section.read f image pos = s.toSection := by
  obtain ⟨w, order⟩ := f
  have hkind : w.layout.sectionHeader.kind.read order image pos = s.kind :=
    h.read_eq (i := 1) rfl (by cases w <;> exact ⟨rfl, rfl⟩)
  have hoffset : w.layout.sectionHeader.offset.read order image pos = s.offset :=
    h.read_eq (i := 4) rfl (by cases w <;> exact ⟨rfl, rfl⟩)
  have hlength : w.layout.sectionHeader.length.read order image pos = s.length :=
    h.read_eq (i := 5) rfl (by cases w <;> exact ⟨rfl, rfl⟩)
  have hlink : w.layout.sectionHeader.link.read order image pos = s.link :=
    h.read_eq (i := 6) rfl (by cases w <;> exact ⟨rfl, rfl⟩)
  unfold Section.read SectionHeader.toSection Format.layout
  dsimp only
  rw [hkind, hoffset, hlength, hlink]

theorem Entry.read_of_hasRecord {f : Format} {pos nameOffset : Nat} {r : SymbolRecord}
    (h : HasRecord image f.order pos (r.cells f.wordSize nameOffset)) :
    Entry.read f image pos = ⟨nameOffset, 16 * r.binding + r.type, r.sectionIndex⟩ := by
  obtain ⟨w, order⟩ := f
  have hname : w.layout.symbol.name.read order image pos = nameOffset := by
    cases w <;> exact h.read_eq (i := 0) rfl ⟨rfl, rfl⟩
  -- Behind the name the word sizes go separate ways.
  have hinfo : w.layout.symbol.info.read order image pos = 16 * r.binding + r.type := by
    cases w with
    | bits32 => exact h.read_eq (i := 3) rfl ⟨rfl, rfl⟩
    | bits64 => exact h.read_eq (i := 1) rfl ⟨rfl, rfl⟩
  have hsection : w.layout.symbol.sectionIndex.read order image pos = r.sectionIndex := by
    cases w with
    | bits32 => exact h.read_eq (i := 5) rfl ⟨rfl, rfl⟩
    | bits64 => exact h.read_eq (i := 3) rfl ⟨rfl, rfl⟩
  unfold Entry.read Format.layout
  dsimp only
  rw [hname, hinfo, hsection]

/-! ## Headers -/

namespace ObjectFile

variable {o : ObjectFile} {records : List SymbolRecord}

/-- The part of the file header that is read. -/
def toHeader (o : ObjectFile) : Header :=
  { format := o.format
    fileType := o.header.fileType
    sectionTable := o.header.sectionTable
    sectionSize := o.header.sectionSize
    sectionCount := o.header.sectionCount
    nameSection := o.header.nameSection }

theorem HasHeaders.starts (h : o.HasHeaders image) : o.toHeader.Starts image := by
  obtain ⟨⟨w, order⟩, header, sections, symbolIndex, symbols, strings⟩ := o
  have hident := h.identification
  have hcells := h.fileHeader
  have hcodes : HasBytes image 4 [w.code, order.code, 1] := hident.right
  obtain ⟨hfileType, htable, hsize, hcount, hnames⟩ := header.places w
  refine ⟨?_, hident.left.content, ?_, ?_, ?_, ?_, ?_, ?_, ?_, ?_⟩
  · show w.layout.header.size ≤ image.size
    rw [WordSize.size_header_layout, ← widthOf_cells_fileHeader header w]
    exact hcells.inside
  · rw [hcodes.head]
    exact w.ofByte?_code
  · rw [hcodes.tail.head]
    exact order.ofByte?_code
  · exact hcodes.tail.tail.head
  · show header.fileType = w.layout.header.fileType.read order image 0
    rw [hfileType]
    exact (hcells.read_place (i := 0) rfl).symm
  · show header.sectionTable = w.layout.header.sectionTable.read order image 0
    rw [htable]
    exact (hcells.read_place (i := 5) rfl).symm
  · show header.sectionSize = w.layout.header.sectionSize.read order image 0
    rw [hsize]
    exact (hcells.read_place (i := 10) rfl).symm
  · show header.sectionCount = w.layout.header.sectionCount.read order image 0
    rw [hcount]
    exact (hcells.read_place (i := 11) rfl).symm
  · show header.nameSection = w.layout.header.nameSection.read order image 0
    rw [hnames]
    exact (hcells.read_place (i := 12) rfl).symm

/-- The section table lies in the image. -/
theorem HasHeaders.table_inside (h : o.HasHeaders image) :
    o.header.sectionTable + o.sections.length * o.format.wordSize.sectionHeaderSize ≤
      image.size := by
  obtain ⟨s, hs, -⟩ := h.names
  obtain ⟨hlt, -⟩ := List.getElem?_eq_some_iff.1 hs
  have hlast := h.sectionHeaders (o.sections.length - 1) _ (List.getElem?_eq_getElem (by omega))
  have hinside := hlast.inside
  rw [widthOf_cells_sectionHeader, Nat.add_assoc, ← Nat.succ_mul] at hinside
  have hcount : (o.sections.length - 1).succ = o.sections.length := by omega
  rwa [hcount] at hinside

/-- Section header `i` is read as it was written. -/
theorem HasHeaders.section_read (h : o.HasHeaders image) {i : Nat} {s : SectionHeader}
    (hs : o.sections[i]? = some s) : Section.read o.format image
      (o.header.sectionTable + i * o.format.layout.sectionHeader.size) = s.toSection := by
  show Section.read o.format image
    (o.header.sectionTable + i * o.format.wordSize.layout.sectionHeader.size) = s.toSection
  rw [WordSize.size_sectionHeader_layout]
  exact Section.read_of_hasRecord (h.sectionHeaders i s hs)

theorem HasHeaders.checkNames_eq (h : o.HasHeaders image) :
    o.toHeader.checkNames (o.sections.map (·.toSection)) = .ok () := by
  obtain ⟨s, hs, hrange⟩ := h.names
  have hindex : o.toHeader.nameIndex (o.sections.map (·.toSection)) = o.nameIndex := by
    unfold Header.nameIndex ObjectFile.nameIndex
    cases o.sections <;> rfl
  have hempty : (o.sections.map (·.toSection)).isEmpty = false := by
    cases hsections : o.sections with
    | nil =>
      rw [hsections] at hs
      cases hs
    | cons => rfl
  unfold Header.checkNames
  rw [hempty, hindex, List.getElem?_map, hs]
  simp only [Bool.false_eq_true, if_false, h.nameIndex_ne_zero, Option.map_some]
  unfold Section.range?
  by_cases hkind : s.toSection.kind = Section.withoutBytes
  · rw [if_pos hkind]
  · rw [if_neg hkind]
    exact if_pos (hrange.resolve_left hkind)

theorem HasHeaders.leadsTo (h : o.HasHeaders image) :
    o.toHeader.LeadsTo image (o.sections.map (·.toSection)) := by
  obtain ⟨s, hs, -⟩ := h.names
  have hne : o.sections ≠ [] := by
    intro hnil
    rw [hnil] at hs
    cases hs
  refine ⟨h.table_ne_zero, ?_, by simpa using hne, ?_, ?_, ?_, h.checkNames_eq⟩
  · show (o.header.sectionSize == o.format.wordSize.layout.sectionHeader.size) = true
    rw [WordSize.size_sectionHeader_layout, h.sectionSize]
    exact beq_self_eq_true _
  · show (o.sections.map (·.toSection)).length = if o.header.sectionCount = 0
      then (Section.read o.format image o.header.sectionTable).length else o.header.sectionCount
    rw [List.length_map, h.sectionCount]
    obtain ⟨first, rest, hsections⟩ := List.exists_cons_of_ne_nil hne
    have hfirst := h.section_read (i := 0) (s := first) (by rw [hsections]; rfl)
    rw [Nat.zero_mul, Nat.add_zero] at hfirst
    rw [hfirst, hsections]
    rfl
  · show (decide (o.header.sectionTable + (o.sections.map (·.toSection)).length *
        o.format.wordSize.layout.sectionHeader.size ≤ image.size) &&
      o.header.sectionTable % o.format.wordSize.layout.alignment == 0) = true
    rw [List.length_map, WordSize.size_sectionHeader_layout, WordSize.alignment_layout,
      decide_eq_true h.table_inside, Nat.mod_eq_zero_of_dvd h.table_aligned]
    rfl
  · refine List.ext_getElem (by simp) fun i hi _ => ?_
    rw [List.length_map] at hi
    simp only [Header.readTable, List.getElem_map, List.getElem_range]
    exact (h.section_read (List.getElem?_eq_getElem hi)).symm

/-! ## Symbol table -/

/-- The symbol table of an object file. -/
def toSymbolTable (o : ObjectFile) (count : Nat) : SymbolTable :=
  { format := o.format
    offset := o.symbols.offset
    count := count
    strings := some ⟨o.strings.offset, o.strings.offset + o.strings.length⟩ }

theorem LaysOut.linkedStrings_eq (h : o.LaysOut image records) :
    SymbolTable.linkedStrings (o.sections.map (·.toSection)) o.symbols.link =
      .ok (some ⟨o.strings.offset, o.strings.offset + o.strings.length⟩) := by
  unfold SymbolTable.linkedStrings
  rw [if_neg h.link_ne_zero, List.getElem?_map, h.strings_mem]
  have hkind : o.strings.toSection.kind = Section.stringTable := h.strings_kind
  have hrange : o.strings.toSection.offset + o.strings.toSection.length <
      0x1_0000_0000_0000_0000 := h.strings_range
  simp only [Option.map_some, hkind, ne_eq, not_true, if_false, hrange, if_true]
  rfl

theorem LaysOut.extendedIndicesFit_eq (h : o.LaysOut image records) :
    SymbolTable.extendedIndicesFit image (o.sections.map (·.toSection)) o.symbolIndex = true := by
  unfold SymbolTable.extendedIndicesFit
  rw [List.all_map, List.all_eq_true]
  intro s hs
  show (s.kind != 18 || s.link != o.symbolIndex || inImage image s.offset s.length &&
    s.offset % 4 == 0 && s.length % 4 == 0) = true
  by_cases hkind : s.kind = 18
  · by_cases hlink : s.link = o.symbolIndex
    · obtain ⟨hinside, hoffset, hlength⟩ := h.extendedIndices s hs hkind hlink
      simp only [inImage, hinside, Nat.mod_eq_zero_of_dvd hoffset, Nat.mod_eq_zero_of_dvd hlength,
        decide_true, beq_self_eq_true, Bool.and_true, Bool.or_true]
    · simp only [bne_iff_ne.2 hlink, Bool.or_true, Bool.true_or]
  · simp only [bne_iff_ne.2 hkind, Bool.true_or]

/-- The symbol table of an image is the one that it lays out. -/
theorem LaysOut.symbolTable_eq (h : o.LaysOut image records) :
    symbolTable image = .ok (o.toSymbolTable (records.length + 1)) := by
  have hsize : 0 < o.format.wordSize.entrySize := by
    cases o.format.wordSize <;> decide
  have hp : ∀ j s, (o.sections.map (·.toSection))[j]? = some s →
      ((s.kind == Section.symbolTable) = true ↔ j = o.symbolIndex) := by
    intro j s hs
    rw [List.getElem?_map, Option.map_eq_some_iff] at hs
    obtain ⟨s, hs, rfl⟩ := hs
    rw [beq_iff_eq]
    exact h.symbols_kind j s hs
  refine symbolTable_eq_ok_iff.2 ⟨o.toHeader, _, h.starts, h.leadsTo,
    SymbolTable.ofSections_eq_ok_iff.2 ⟨o.symbols.toSection, o.symbolIndex, ?_,
      SymbolTable.ofSection_eq_ok_iff.2 ⟨decide_eq_true h.symbols_inside, ?_, ?_,
        h.extendedIndicesFit_eq, _, h.linkedStrings_eq, ?_⟩⟩⟩
  · have hone := filter_zipIdx_eq_singleton (p := fun s : Section => s.kind == Section.symbolTable)
      (by rw [List.getElem?_map, h.symbols_mem]; rfl) hp 0
    rwa [Nat.zero_add] at hone
  · show o.symbols.length % o.format.wordSize.layout.symbol.size = 0
    rw [WordSize.size_symbol_layout, h.symbols_length, Nat.mul_mod_left]
  · show o.symbols.offset % o.format.wordSize.layout.alignment = 0
    rw [WordSize.alignment_layout]
    exact Nat.mod_eq_zero_of_dvd h.symbols_aligned
  · show o.toSymbolTable (records.length + 1) = ⟨o.format, o.symbols.offset,
      o.symbols.length / o.format.wordSize.layout.symbol.size, _⟩
    rw [WordSize.size_symbol_layout, h.symbols_length, Nat.mul_div_cancel _ hsize]
    rfl

end ObjectFile

/-! ## Symbols -/

namespace SymbolRecord

/-- The symbol that a record stands for, if it stands for one. -/
def symbol? (r : SymbolRecord) : Option Symbol :=
  symbolOf? r.type r.binding r.sectionIndex r.name

theorem type_lt (r : SymbolRecord) : r.type < 16 := by
  have htype := r.type_supported
  simp only [List.mem_cons, List.not_mem_nil, or_false] at htype
  omega

/-- An entry with the numbers of a record has a meaning. -/
theorem exists_means (r : SymbolRecord) {e : Entry} (htype : e.rawType = r.type)
    (hbinding : e.rawBinding = r.binding) (hsection : e.sectionIndex = r.sectionIndex) :
    ∃ type binding placement, SymbolTable.Means e type binding placement := by
  have ht : SupportedType e.rawType := by
    have hmem := r.type_supported
    simp only [List.mem_cons, List.not_mem_nil, or_false] at hmem
    unfold SupportedType
    omega
  have hb : SupportedBinding e.rawBinding := by
    have hmem := r.binding_supported
    simp only [List.mem_cons, List.not_mem_nil, or_false] at hmem
    unfold SupportedBinding
    omega
  have hs : SupportedSection e.sectionIndex := by
    have hmem := r.sectionIndex_supported
    simp only [List.mem_cons, List.not_mem_nil, or_false] at hmem
    unfold SupportedSection
    omega
  exact SymbolTable.exists_means_of_supported ht hb hs

end SymbolRecord

namespace ObjectFile

variable {o : ObjectFile} {records : List SymbolRecord}

theorem LaysOut.entry_eq (h : o.LaysOut image records) {i : Nat} {r : SymbolRecord}
    (hr : records[i]? = some r) (count : Nat) : ∃ nameOffset,
      (o.toSymbolTable count).entry image (i + 1) =
        ⟨nameOffset, 16 * r.binding + r.type, r.sectionIndex⟩ ∧
      (⟨o.strings.offset, o.strings.offset + o.strings.length⟩ : StringTable).Holds image
        nameOffset r.name := by
  obtain ⟨nameOffset, hrecord, hends, hname⟩ := h.entries i r hr
  refine ⟨nameOffset, ?_, ⟨?_, h.strings_inside, r.zero_notMem_name, hname.left.content,
    hname.right.head⟩⟩
  · show Entry.read o.format image
      (o.symbols.offset + (i + 1) * o.format.wordSize.layout.symbol.size) = _
    rw [WordSize.size_symbol_layout]
    exact Entry.read_of_hasRecord hrecord
  · show o.strings.offset + nameOffset + r.name.length < o.strings.offset + o.strings.length
    omega

/-- The entry behind the null entry and `i` others comes to what record `i` stands for. -/
theorem LaysOut.judge_entry (h : o.LaysOut image records) {i : Nat} {r : SymbolRecord}
    (hr : records[i]? = some r) (count : Nat) :
    (o.toSymbolTable count).judge image ((o.toSymbolTable count).entry image (i + 1)) =
      .ok r.symbol? := by
  obtain ⟨nameOffset, hentry, hholds⟩ := h.entry_eq hr count
  have hlt := r.type_lt
  have htype : ((o.toSymbolTable count).entry image (i + 1)).rawType = r.type := by
    rw [hentry]
    show (16 * r.binding + r.type) % 16 = r.type
    omega
  have hbinding : ((o.toSymbolTable count).entry image (i + 1)).rawBinding = r.binding := by
    rw [hentry]
    show (16 * r.binding + r.type) / 16 = r.binding
    omega
  have hsection : ((o.toSymbolTable count).entry image (i + 1)).sectionIndex = r.sectionIndex := by
    rw [hentry]
  obtain ⟨type, binding, placement, hm⟩ := r.exists_means htype hbinding hsection
  have hname : (o.toSymbolTable count).name? image ((o.toSymbolTable count).entry image (i + 1)) =
      some r.name := by
    refine SymbolTable.name?_eq_some_iff.2 ⟨_, rfl, ?_⟩
    rw [hentry]
    exact hholds
  rw [SymbolTable.judge_of_name hm hname, htype, hbinding, hsection]
  rfl

end ObjectFile

/-- The symbols of an image are those of the records that it lays out. -/
theorem result_symbols_of_laysOut {o : ObjectFile} {records : List SymbolRecord}
    (h : o.LaysOut image records) :
    (symbols image).result = .ok (records.filterMap (·.symbol?)) := by
  refine symbols_eq_ok_iff.2 ⟨_, records.map (·.symbol?), h.symbolTable_eq,
    SymbolTable.judgeAll_eq_ok_iff.2 ?_, ?_⟩
  · show List.Forall₂ _ (List.range' 1 records.length) _
    rw [List.forall₂_iff_get]
    refine ⟨by simp, fun i hi hi' => ?_⟩
    rw [List.length_range'] at hi
    simp only [List.get_eq_getElem, List.getElem_range', List.getElem_map, Nat.one_mul,
      Nat.add_comm 1 i]
    exact h.judge_entry (List.getElem?_eq_getElem hi) _
  · rw [List.filterMap_map]
    rfl

/-- A list of symbols reads back in whichever format it was written. -/
theorem result_symbols_write {f : Format} {records : List SymbolRecord}
    (hsize : (write f records).size < 2 ^ 32) (hfits : ∀ r ∈ records, r.Fits f.wordSize) :
    (symbols (write f records)).result = .ok (records.filterMap (·.symbol?)) :=
  result_symbols_of_laysOut (laysOut_write hsize hfits)

/-- A local symbol, a function `f` and an import `g`. -/
def sampleRecords : List SymbolRecord :=
  [⟨[0x68], 1, 0, 1, 0, 0, 4, by decide, by decide, by decide, by decide⟩,
    ⟨[0x66], 2, 1, 1, 2, 16, 8, by decide, by decide, by decide, by decide⟩,
    ⟨[0x67], 0, 2, 0, 0, 0, 0, by decide, by decide, by decide, by decide⟩]

theorem laysOut_sampleRecords (f : Format) :
    (ObjectFile.ofSymbols f sampleRecords).LaysOut (write f sampleRecords) sampleRecords := by
  refine laysOut_write ?_ ?_
  · rw [size_write]
    cases f with
    | mk w order => cases w <;> cases order <;> decide
  · have hfits : ∀ w : WordSize, ∀ r ∈ sampleRecords,
        r.other < 256 ∧ r.value < 256 ^ w.width ∧ r.size < 256 ^ w.width := by
      intro w
      cases w <;> decide
    intro r hr
    obtain ⟨hother, hvalue, hvsize⟩ := hfits f.wordSize r hr
    exact ⟨hother, hvalue, hvsize⟩

/-- An object file reads back as its symbols: those that are not local, name neither a section nor
a file and have a name, in order. So any two encodings of the same records read alike, whatever
their word size and byte order. -/
theorem symbols_laysOut {o : ObjectFile} {records : List SymbolRecord}
    (h : o.LaysOut image records) :
    (symbols image).result = .ok (records.filterMap (·.symbol?)) ∧
      ∀ (o' : ObjectFile) (image' : ByteArray), o'.LaysOut image' records →
        (symbols image').result = (symbols image).result := by
  refine ⟨result_symbols_of_laysOut h, fun o' image' h' => ?_⟩
  rw [result_symbols_of_laysOut h', result_symbols_of_laysOut h]

/-- In 64 bits with the least significant byte first, and in 32 bits the other way round. -/
theorem symbols_laysOut_sampleRecords :
    (symbols (write ⟨.bits64, .little⟩ sampleRecords)).result =
        .ok [⟨"f", .function, true⟩, ⟨"g", .other, false⟩] ∧
      (symbols (write ⟨.bits32, .big⟩ sampleRecords)).result =
        (symbols (write ⟨.bits64, .little⟩ sampleRecords)).result := by
  obtain ⟨hread, hsame⟩ := symbols_laysOut (laysOut_sampleRecords ⟨.bits64, .little⟩)
  have hsymbols : sampleRecords.filterMap (·.symbol?) =
      [⟨"f", .function, true⟩, ⟨"g", .other, false⟩] := by
    decide +kernel
  rw [hsymbols] at hread
  exact ⟨hread, hsame _ _ (laysOut_sampleRecords ⟨.bits32, .big⟩)⟩

namespace SymbolRecord

/-- A global symbol that is defined elsewhere. -/
def imported (name : List UInt8) (h : 0 ∉ name) : SymbolRecord :=
  ⟨name, 0, 1, 0, 0, 0, 0, h, by decide, by decide, by decide⟩

/-- A global function in the first section. -/
def exported (name : List UInt8) (h : 0 ∉ name) : SymbolRecord :=
  ⟨name, 2, 1, 1, 0, 0, 0, h, by decide, by decide, by decide⟩

theorem fits_imported (name : List UInt8) (h : 0 ∉ name) (w : WordSize) :
    (imported name h).Fits w :=
  ⟨Nat.zero_lt_succ _, Nat.pow_pos (by decide), Nat.pow_pos (by decide)⟩

theorem fits_exported (name : List UInt8) (h : 0 ∉ name) (w : WordSize) :
    (exported name h).Fits w :=
  ⟨Nat.zero_lt_succ _, Nat.pow_pos (by decide), Nat.pow_pos (by decide)⟩

end SymbolRecord

/-- A list of symbols that makes no large image reads back, as a computation on the list shows. -/
theorem result_symbols_write_eq {f : Format} {records : List SymbolRecord} {ss : List Symbol}
    (hsize : headersSize f.wordSize + (symbolBytes f records).length +
      (stringBytes records).length < 2 ^ 32)
    (hfits : ∀ r ∈ records, r.Fits f.wordSize) (h : records.filterMap (·.symbol?) = ss) :
    (symbols (write f records)).result = .ok ss := by
  rw [← size_write] at hsize
  rw [result_symbols_write hsize hfits, h]

end LinkageAudit.Elf

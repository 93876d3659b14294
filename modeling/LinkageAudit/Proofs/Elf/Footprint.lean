import LinkageAudit.Proofs.Elf.Entries

/-!
# What reading an image looks at

A successful reading depends on few bytes of an image, and on its size only in that more bytes
never hurt.

* `Footprint`: the positions that are looked at: parts of the file header, the section table, three
  fields of each entry but number 0, and the linked string table.
* `symbols_footprint`: an image that is at least as long and agrees on the footprint of another has
  the same symbols; so have all extensions of an image, and all prefixes that can be read.

Sections may overlap. A byte that two of them share is in the footprint if either looks at it.
-/

namespace LinkageAudit.Elf

variable {image image' : ByteArray}

/-! ## Positions -/

/-- The fields of the file header that lead to the sections. -/
def HeaderLayout.leading (l : HeaderLayout) : List Field :=
  [l.sectionTable, l.sectionSize, l.sectionCount, l.nameSection]

/-- The fields of a symbol that are looked at. -/
def SymbolLayout.used (l : SymbolLayout) : List Field := [l.name, l.info, l.sectionIndex]

/-- Position `i` is looked at as part of the file header. -/
def ReadsHeader (image : ByteArray) (i : Nat) : Prop :=
  i < 7 ∨ ∃ header, Header.read image = .ok header ∧
    ∃ field ∈ header.format.layout.header.leading, field.Covers 0 i

/-- Position `i` lies in the section table. -/
def ReadsSections (image : ByteArray) (i : Nat) : Prop :=
  ∃ header n, Header.read image = .ok header ∧ header.count image = .ok n ∧
    header.sectionTable ≤ i ∧
    i < header.sectionTable + n * header.format.layout.sectionHeader.size

/-- Position `i` is looked at as part of an entry of the symbol table. -/
def ReadsEntries (image : ByteArray) (i : Nat) : Prop :=
  ∃ table index, symbolTable image = .ok table ∧ 1 ≤ index ∧ index < table.count ∧
    ∃ field ∈ table.format.layout.symbol.used,
      field.Covers (table.offset + index * table.format.layout.symbol.size) i

/-- Position `i` lies in the linked string table. -/
def ReadsStrings (image : ByteArray) (i : Nat) : Prop :=
  ∃ table strings, symbolTable image = .ok table ∧ table.strings = some strings ∧
    strings.start ≤ i ∧ i < strings.stop

/-- Position `i` is looked at. -/
def Footprint (image : ByteArray) (i : Nat) : Prop :=
  ReadsHeader image i ∨ ReadsSections image i ∨ ReadsEntries image i ∨ ReadsStrings image i

/-- `image'` is at least as long as `image`, and has the same bytes at the positions `P`. -/
structure AgreeOn (P : Nat → Prop) (image image' : ByteArray) : Prop where
  size_le : image.size ≤ image'.size
  byteAt_eq : ∀ i, i < image.size → P i → byteAt image' i = byteAt image i

theorem AgreeOn.mono {P Q : Nat → Prop} (h : AgreeOn P image image') (hQ : ∀ i, Q i → P i) :
    AgreeOn Q image image' :=
  ⟨h.size_le, fun i hi hq => h.byteAt_eq i hi (hQ i hq)⟩

/-- A field reads alike if it lies in the smaller image and its bytes are looked at. -/
theorem AgreeOn.read_eq {P : Nat → Prop} (h : AgreeOn P image image') {field : Field}
    {order : ByteOrder} {record : Nat} (hin : record + field.offset + field.width ≤ image.size)
    (hP : ∀ i, field.Covers record i → P i) :
    field.read order image' record = field.read order image record :=
  Field.read_congr fun i hi => h.byteAt_eq i (by have := hi.2; omega) (hP i hi)

theorem inImage_of_size_le (hsize : image.size ≤ image'.size) {start length : Nat}
    (h : inImage image start length = true) : inImage image' start length = true := by
  simp only [inImage, decide_eq_true_eq] at h ⊢
  omega

/-! ## File header -/

theorem HeaderLayout.leading_fits (f : Format) {field : Field}
    (h : field ∈ f.layout.header.leading) :
    field.offset + field.width ≤ f.layout.header.size := by
  revert field
  unfold Format.layout
  cases f.wordSize <;> decide

/-- The same file header but for the file type, which nothing depends on. -/
theorem Header.Starts.congr {header : Header} (h : header.Starts image)
    (hagree : AgreeOn (ReadsHeader image) image image') :
    ∃ fileType, Header.Starts { header with fileType := fileType } image' := by
  have hread := Header.read_eq_ok_iff.2 h
  have hident (i : Nat) (hi : i < 7) : byteAt image' i = byteAt image i := by
    have h16 : 16 ≤ header.format.layout.header.size := by
      unfold Format.layout
      cases header.format.wordSize <;> decide
    have hfits := h.fits
    exact hagree.byteAt_eq i (by omega) (.inl hi)
  have hfield (field : Field) (hf : field ∈ header.format.layout.header.leading) :
      field.read header.format.order image' 0 = field.read header.format.order image 0 := by
    have hle := HeaderLayout.leading_fits header.format hf
    have hfits := h.fits
    exact hagree.read_eq (by omega) fun i hi => .inr ⟨header, hread, field, hf, hi⟩
  refine ⟨header.format.layout.header.fileType.read header.format.order image' 0,
    Nat.le_trans h.fits hagree.size_le, ?_, ?_, ?_, ?_, rfl, ?_, ?_, ?_, ?_⟩
  · rw [bytesAt_congr fun i _ hi => hident i (by omega), h.magic]
  · rw [hident 4 (by omega), h.wordSize]
  · rw [hident 5 (by omega), h.order]
  · rw [hident 6 (by omega), h.version]
  · rw [h.sectionTable]
    exact (hfield _ (by simp [HeaderLayout.leading])).symm
  · rw [h.sectionSize]
    exact (hfield _ (by simp [HeaderLayout.leading])).symm
  · rw [h.sectionCount]
    exact (hfield _ (by simp [HeaderLayout.leading])).symm
  · rw [h.nameSection]
    exact (hfield _ (by simp [HeaderLayout.leading])).symm

/-! ## Section table -/

/-- The fields of a section header. -/
def SectionLayout.used (l : SectionLayout) : List Field := [l.kind, l.offset, l.length, l.link]

theorem SectionLayout.used_fits (f : Format) {field : Field}
    (h : field ∈ f.layout.sectionHeader.used) :
    field.offset + field.width ≤ f.layout.sectionHeader.size := by
  revert field
  unfold Format.layout
  cases f.wordSize <;> decide

/-- Section headers read alike where their whole record is looked at. -/
theorem AgreeOn.section_read_eq {P : Nat → Prop} (h : AgreeOn P image image') {f : Format}
    {pos : Nat} (hin : pos + f.layout.sectionHeader.size ≤ image.size)
    (hP : ∀ i, pos ≤ i → i < pos + f.layout.sectionHeader.size → P i) :
    Section.read f image' pos = Section.read f image pos := by
  have hfield (field : Field) (hf : field ∈ f.layout.sectionHeader.used) :
      field.read f.order image' pos = field.read f.order image pos := by
    have hle := SectionLayout.used_fits f hf
    exact h.read_eq (by omega) fun i hi =>
      hP i (by have := hi.1; omega) (by have := hi.2; omega)
  dsimp only [Section.read]
  rw [hfield _ (by simp [SectionLayout.used]), hfield _ (by simp [SectionLayout.used]),
    hfield _ (by simp [SectionLayout.used]), hfield _ (by simp [SectionLayout.used])]

theorem Header.LeadsTo.count_eq {header : Header} {sections : List Section}
    (h : header.LeadsTo image sections) : header.count image = .ok sections.length := by
  have hn0 : sections.length ≠ 0 := fun h0 => h.nonempty (List.length_eq_zero_iff.1 h0)
  have hcount := h.count
  refine Header.count_eq_ok_iff.2 ?_
  by_cases hc : header.sectionCount = 0
  · rw [if_pos hc] at hcount
    exact .inr (.inr ⟨h.present, hc, h.recordSize, Header.tableFits_one hn0 h.fits, hcount⟩)
  · rw [if_neg hc] at hcount
    exact .inr (.inl ⟨h.present, hc, hcount⟩)

theorem Header.LeadsTo.congr {header : Header} {sections : List Section}
    (h : header.LeadsTo image sections) (hread : Header.read image = .ok header)
    (hagree : AgreeOn (ReadsSections image) image image') (fileType : Nat) :
    Header.LeadsTo { header with fileType := fileType } image' sections := by
  have hpos : 0 < sections.length := List.length_pos_iff.2 h.nonempty
  have hfits := h.fits
  simp only [Header.tableFits, inImage, Bool.and_eq_true, decide_eq_true_eq, beq_iff_eq] at hfits
  have hsection (k : Nat) (hk : k < sections.length) :
      Section.read header.format image'
          (header.sectionTable + k * header.format.layout.sectionHeader.size) =
        Section.read header.format image
          (header.sectionTable + k * header.format.layout.sectionHeader.size) := by
    have hstep := Nat.mul_le_mul_right header.format.layout.sectionHeader.size hk
    rw [Nat.succ_mul] at hstep
    exact hagree.section_read_eq (by omega) fun i hlo hhi =>
      ⟨header, sections.length, hread, h.count_eq, by omega, by omega⟩
  refine ⟨h.present, h.recordSize, h.nonempty, ?_, ?_, ?_, h.names⟩
  · have hfirst := hsection 0 hpos
    rw [Nat.zero_mul, Nat.add_zero] at hfirst
    rw [h.count]
    simp only [hfirst]
  · simp only [Header.tableFits, inImage, Bool.and_eq_true, decide_eq_true_eq, beq_iff_eq]
    exact ⟨Nat.le_trans hfits.1 hagree.size_le, hfits.2⟩
  · conv => lhs; rw [h.content]
    refine List.map_congr_left fun k hk => ?_
    exact (hsection k (List.mem_range.1 hk)).symm

/-! ## Symbol table -/

namespace SymbolTable

theorem ofSections_of_size_le (hsize : image.size ≤ image'.size) {f : Format}
    {sections : List Section} {table : SymbolTable}
    (h : ofSections f image sections = .ok table) : ofSections f image' sections = .ok table := by
  obtain ⟨s, index, hs, ht⟩ := ofSections_eq_ok_iff.1 h
  obtain ⟨hin, hlen, hoff, hext, hstrings⟩ := ofSection_eq_ok_iff.1 ht
  refine ofSections_eq_ok_iff.2 ⟨s, index, hs, ofSection_eq_ok_iff.2 ?_⟩
  refine ⟨inImage_of_size_le hsize hin, hlen, hoff, ?_, hstrings⟩
  simp only [extendedIndicesFit, List.all_eq_true, Bool.or_eq_true, Bool.and_eq_true] at hext ⊢
  intro x hx
  rcases hext x hx with hother | ⟨⟨hin', hoff'⟩, hlen'⟩
  · exact .inl hother
  · exact .inr ⟨⟨inImage_of_size_le hsize hin', hoff'⟩, hlen'⟩

end SymbolTable

/-- The entries of a symbol table lie in the image. -/
theorem symbolTable_fits {table : SymbolTable} (h : symbolTable image = .ok table) :
    table.offset + table.count * table.format.layout.symbol.size ≤ image.size := by
  obtain ⟨header, sections, -, -, hs⟩ := symbolTable_eq_ok_iff.1 h
  obtain ⟨s, index, -, ht⟩ := SymbolTable.ofSections_eq_ok_iff.1 hs
  obtain ⟨hin, -, -, -, strings, -, rfl⟩ := SymbolTable.ofSection_eq_ok_iff.1 ht
  simp only [inImage, decide_eq_true_eq] at hin
  have := Nat.div_mul_le_self s.length header.format.layout.symbol.size
  dsimp only
  omega

theorem symbolTable_congr {table : SymbolTable} (h : symbolTable image = .ok table)
    (hagree : AgreeOn (Footprint image) image image') : symbolTable image' = .ok table := by
  obtain ⟨header, sections, hstarts, hleads, hs⟩ := symbolTable_eq_ok_iff.1 h
  have hread := Header.read_eq_ok_iff.2 hstarts
  obtain ⟨fileType, hstarts'⟩ := hstarts.congr (hagree.mono fun i hi => .inl hi)
  have hleads' := hleads.congr hread (hagree.mono fun i hi => .inr (.inl hi)) fileType
  exact symbolTable_eq_ok_iff.2
    ⟨_, sections, hstarts', hleads', SymbolTable.ofSections_of_size_le hagree.size_le hs⟩

/-! ## Entries -/

theorem SymbolLayout.used_fits (f : Format) {field : Field}
    (h : field ∈ f.layout.symbol.used) : field.offset + field.width ≤ f.layout.symbol.size := by
  revert field
  unfold Format.layout
  cases f.wordSize <;> decide

theorem entry_congr {table : SymbolTable} (h : symbolTable image = .ok table)
    (hagree : AgreeOn (ReadsEntries image) image image') {index : Nat} (h1 : 1 ≤ index)
    (hcount : index < table.count) : table.entry image' index = table.entry image index := by
  have hfits := symbolTable_fits h
  have hstep := Nat.mul_le_mul_right table.format.layout.symbol.size hcount
  rw [Nat.succ_mul] at hstep
  have hfield (field : Field) (hf : field ∈ table.format.layout.symbol.used) :
      field.read table.format.order image'
          (table.offset + index * table.format.layout.symbol.size) =
        field.read table.format.order image
          (table.offset + index * table.format.layout.symbol.size) := by
    have hle := SymbolLayout.used_fits table.format hf
    exact hagree.read_eq (by omega) fun i hi => ⟨table, index, h, h1, hcount, field, hf, hi⟩
  dsimp only [SymbolTable.entry, Entry.read]
  rw [hfield _ (by simp [SymbolLayout.used]), hfield _ (by simp [SymbolLayout.used]),
    hfield _ (by simp [SymbolLayout.used])]

theorem name?_congr {table : SymbolTable} (h : symbolTable image = .ok table)
    (hagree : AgreeOn (ReadsStrings image) image image') {e : Entry} {bytes : List UInt8}
    (hname : table.name? image e = some bytes) : table.name? image' e = some bytes := by
  obtain ⟨strings, hs, hholds⟩ := SymbolTable.name?_eq_some_iff.1 hname
  refine SymbolTable.name?_eq_some_iff.2 ⟨strings, hs, hholds.congr hagree.size_le ?_⟩
  intro i hlo hhi
  exact hagree.byteAt_eq i (Nat.lt_of_lt_of_le hhi hholds.tableInside)
    ⟨table, strings, h, hs, hlo, hhi⟩

/-- An entry that is judged comes to the same where its name does. -/
theorem judge_congr {table : SymbolTable} {e : Entry} {v : Option Symbol}
    (hname : ∀ bytes, table.name? image e = some bytes → table.name? image' e = some bytes)
    (h : table.judge image e = .ok v) : table.judge image' e = .ok v := by
  cases v with
  | some s =>
    obtain ⟨type, binding, placement, bytes, hm, hv, hn, hne, hs⟩ :=
      SymbolTable.judge_eq_ok_some_iff.1 h
    exact SymbolTable.judge_eq_ok_some_iff.2
      ⟨type, binding, placement, bytes, hm, hv, hname _ hn, hne, hs⟩
  | none =>
    obtain ⟨type, binding, placement, hm, hv⟩ := SymbolTable.judge_eq_ok_none_iff.1 h
    exact SymbolTable.judge_eq_ok_none_iff.2 ⟨type, binding, placement, hm, hv.imp_right (hname _)⟩

/-! ## Symbols -/

theorem symbols_congr {ss : List Symbol} (h : (symbols image).result = .ok ss)
    (hagree : AgreeOn (Footprint image) image image') : (symbols image').result = .ok ss := by
  obtain ⟨table, verdicts, ht, hv, hss⟩ := symbols_eq_ok_iff.1 h
  refine symbols_eq_ok_iff.2 ⟨table, verdicts, symbolTable_congr ht hagree, ?_, hss⟩
  rw [SymbolTable.judgeAll_eq_ok_iff] at hv ⊢
  have hindices : ∀ index ∈ List.range' 1 (table.count - 1), 1 ≤ index ∧ index < table.count :=
    fun index hi => SymbolTable.mem_indices.1 hi
  refine ((List.forall₂_and_left (p := fun i => 1 ≤ i ∧ i < table.count) _ _).2
    ⟨hindices, hv⟩).imp fun index v hi => ?_
  obtain ⟨⟨h1, hcount⟩, hj⟩ := hi
  rw [entry_congr ht (hagree.mono fun i hi => .inr (.inr (.inl hi))) h1 hcount]
  exact judge_congr
    (fun bytes => name?_congr ht (hagree.mono fun i hi => .inr (.inr (.inr hi)))) hj

/-! ## Bytes that are not looked at -/

/-- The two fields after the identification, file type and machine, are skipped. -/
theorem not_readsHeader_of_fileType {i : Nat} (hlo : 16 ≤ i) (hhi : i < 20) :
    ¬ ReadsHeader image i := by
  have hbehind (f : Format) : ∀ field ∈ f.layout.header.leading, 20 ≤ field.offset := by
    unfold Format.layout
    cases f.wordSize <;> decide
  rintro (hi | ⟨header, -, field, hf, hi⟩)
  · omega
  · have hoffset := hbehind header.format field hf
    have := hi.1
    omega

/-- Entry 0 is skipped, and so is what the used fields of an entry leave over. -/
theorem not_readsEntries {table : SymbolTable} (h : symbolTable image = .ok table) {index o : Nat}
    (ho : o < table.format.layout.symbol.size)
    (hspare : index = 0 ∨ ∀ field ∈ table.format.layout.symbol.used, ¬ field.Covers 0 o) :
    ¬ ReadsEntries image (table.offset + index * table.format.layout.symbol.size + o) := by
  rintro ⟨table', index', ht', h1, -, field, hf, hlo, hhi⟩
  rw [h] at ht'
  cases ht'
  have hfits := SymbolLayout.used_fits table.format hf
  have hsame : index' = index := by
    -- Both numbers are the quotient of the position by the size of an entry.
    obtain ⟨o', ho', heq⟩ : ∃ o', o' < table.format.layout.symbol.size ∧
        index * table.format.layout.symbol.size + o =
          index' * table.format.layout.symbol.size + o' :=
      ⟨index * table.format.layout.symbol.size + o - index' * table.format.layout.symbol.size,
        by omega, by omega⟩
    have hdiv := congrArg (· / table.format.layout.symbol.size) heq
    simp only [Nat.mul_comm _ table.format.layout.symbol.size] at hdiv
    rw [Nat.mul_add_div (by omega), Nat.mul_add_div (by omega), Nat.div_eq_of_lt ho,
      Nat.div_eq_of_lt ho'] at hdiv
    omega
  subst hsame
  rcases hspare with h0 | hspare
  · omega
  · exact hspare field hf ⟨by omega, by omega⟩

/-- Reading an image depends on its footprint alone, and a longer image reads no differently. -/
theorem symbols_footprint (image : ByteArray) :
    (∀ ss image', (symbols image).result = .ok ss → image.size ≤ image'.size →
      (∀ i, i < image.size → Footprint image i → byteAt image' i = byteAt image i) →
      (symbols image').result = .ok ss) ∧
    -- Any one byte outside the footprint can change.
    (∀ ss i b, (symbols image).result = .ok ss → ¬ Footprint image i →
      ∀ h : i < image.size, (symbols (image.set i b h)).result = .ok ss) ∧
    -- Not looked at, unless they lie in another part that is: file type and machine, entry 0, and
    -- the value, size and other bytes of an entry.
    (∀ i, 16 ≤ i → i < 20 → ¬ ReadsHeader image i) ∧
    (∀ table index o, symbolTable image = .ok table → o < table.format.layout.symbol.size →
      (index = 0 ∨ ∀ field ∈ table.format.layout.symbol.used, ¬ field.Covers 0 o) →
      ¬ ReadsEntries image (table.offset + index * table.format.layout.symbol.size + o)) ∧
    -- Bytes behind the end change nothing, and bytes cut off at the end nothing but to a refusal.
    (∀ ss tail, (symbols image).result = .ok ss → (symbols (image ++ tail)).result = .ok ss) ∧
    (∀ n, (∃ e, (symbols (image.extract 0 n)).result = .error e) ∨
      (symbols (image.extract 0 n)).result = (symbols image).result) := by
  refine ⟨fun ss image' h hsize hagree => symbols_congr h ⟨hsize, hagree⟩, ?_,
    fun i hlo hhi => not_readsHeader_of_fileType hlo hhi,
    fun table index o ht ho hspare => not_readsEntries ht ho hspare, ?_, ?_⟩
  · intro ss i b h hi hlt
    refine symbols_congr h ⟨Nat.le_of_eq ?_, fun j _ hj => byteAt_set_ne hlt b ?_⟩
    · simp [← ByteArray.size_data]
    · rintro rfl
      exact hi hj
  · intro ss tail h
    refine symbols_congr h ⟨?_, fun i hi _ => byteAt_append_left hi⟩
    rw [ByteArray.size_append]
    omega
  · intro n
    cases h : (symbols (image.extract 0 n)).result with
    | error e => exact .inl ⟨e, rfl⟩
    | ok ss =>
      have hsize : (image.extract 0 n).size ≤ image.size := by
        rw [ByteArray.size_extract]
        omega
      exact .inr (symbols_congr h ⟨hsize, fun i hi _ => (byteAt_extract_zero hi).symm⟩).symm

end LinkageAudit.Elf

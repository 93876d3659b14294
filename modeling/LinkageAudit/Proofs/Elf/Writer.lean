import LinkageAudit.Proofs.Elf.ObjectFile

/-!
# Writing object files

An image for any list of symbols, in any format: the headers, the symbol table and its names one
behind the other.

* `write`: the image.
* `laysOut_write`: it lays out the symbols, if offsets fit into four bytes.
-/

namespace LinkageAudit.Elf

/-! ## Contents -/

/-- The names of symbols, each with a zero byte behind it. -/
def nameBytes (records : List SymbolRecord) : List UInt8 :=
  records.flatMap fun r => r.name ++ [0]

/-- A string table: the empty name, then the names of the symbols. -/
def stringBytes (records : List SymbolRecord) : List UInt8 := [0] ++ nameBytes records

/-- The entries of symbols whose names start at an offset. -/
def entryBytes (f : Format) : Nat → List SymbolRecord → List UInt8
  | _, [] => []
  | nameOffset, r :: rs => f.order.encode (r.cells f.wordSize nameOffset) ++
      entryBytes f (nameOffset + (r.name.length + 1)) rs

/-- A symbol table: the null entry, then those of the symbols. -/
def symbolBytes (f : Format) (records : List SymbolRecord) : List UInt8 :=
  List.replicate f.wordSize.entrySize 0 ++ entryBytes f 1 records

theorem nameBytes_append (rs ss : List SymbolRecord) :
    nameBytes (rs ++ ss) = nameBytes rs ++ nameBytes ss := List.flatMap_append

theorem nameBytes_cons (r : SymbolRecord) (rs : List SymbolRecord) :
    nameBytes (r :: rs) = r.name ++ [0] ++ nameBytes rs := List.flatMap_cons

theorem entryBytes_append (f : Format) (nameOffset : Nat) (rs ss : List SymbolRecord) :
    entryBytes f nameOffset (rs ++ ss) =
      entryBytes f nameOffset rs ++ entryBytes f (nameOffset + (nameBytes rs).length) ss := by
  induction rs generalizing nameOffset with
  | nil => rfl
  | cons r rs ih =>
    have hoffset : nameOffset + (nameBytes (r :: rs)).length =
        nameOffset + (r.name.length + 1) + (nameBytes rs).length := by
      simp only [nameBytes_cons, List.length_append, List.length_singleton]
      omega
    rw [List.cons_append, entryBytes, entryBytes, ih, hoffset, List.append_assoc]

theorem length_entryBytes (f : Format) (nameOffset : Nat) (rs : List SymbolRecord) :
    (entryBytes f nameOffset rs).length = rs.length * f.wordSize.entrySize := by
  induction rs generalizing nameOffset with
  | nil => simp [entryBytes]
  | cons r rs ih =>
    rw [entryBytes, List.length_append, ih, ByteOrder.length_encode, widthOf_cells_symbolRecord,
      List.length_cons, Nat.succ_mul, Nat.add_comm]

theorem length_symbolBytes (f : Format) (records : List SymbolRecord) :
    (symbolBytes f records).length = (records.length + 1) * f.wordSize.entrySize := by
  rw [symbolBytes, List.length_append, List.length_replicate, length_entryBytes, Nat.succ_mul,
    Nat.add_comm]

/-! ## Headers -/

/-- A section header in which every number is zero. -/
def SectionHeader.null : SectionHeader := ⟨0, 0, 0, 0, 0, 0, 0, 0, 0, 0⟩

/-- The bytes of the headers: file header, and headers of the null section, the symbol table and
the string table. -/
def headersSize (w : WordSize) : Nat := w.fileHeaderSize + 3 * w.sectionHeaderSize

/-- The header of a file with three sections, the last of which names them. -/
def FileHeader.ofThree (w : WordSize) : FileHeader :=
  { fileType := 1
    machine := 0
    version := 1
    entryPoint := 0
    programTable := 0
    sectionTable := w.fileHeaderSize
    flags := 0
    headerSize := w.fileHeaderSize
    programSize := 0
    programCount := 0
    sectionSize := w.sectionHeaderSize
    sectionCount := 3
    nameSection := 2 }

/-- The header of a symbol table right behind the headers. -/
def SectionHeader.ofSymbols (f : Format) (records : List SymbolRecord) : SectionHeader :=
  { SectionHeader.null with
    kind := 2
    offset := headersSize f.wordSize
    length := (symbolBytes f records).length
    link := 2
    alignment := f.wordSize.width
    recordSize := f.wordSize.entrySize }

/-- The header of a string table right behind the symbol table. -/
def SectionHeader.ofStrings (f : Format) (records : List SymbolRecord) : SectionHeader :=
  { SectionHeader.null with
    kind := 3
    offset := headersSize f.wordSize + (symbolBytes f records).length
    length := (stringBytes records).length
    alignment := 1 }

/-- The object file of a list of symbols. Its string table also names its sections. -/
def ObjectFile.ofSymbols (f : Format) (records : List SymbolRecord) : ObjectFile :=
  { format := f
    header := .ofThree f.wordSize
    sections := [.null, .ofSymbols f records, .ofStrings f records]
    symbolIndex := 1
    symbols := .ofSymbols f records
    strings := .ofStrings f records }

/-- The bytes of a file header. -/
def ObjectFile.headerBytes (o : ObjectFile) : List UInt8 :=
  o.format.identification ++ List.replicate 9 0 ++
    o.format.order.encode (o.header.cells o.format.wordSize)

/-- The bytes of a section table. -/
def ObjectFile.tableBytes (o : ObjectFile) : List UInt8 :=
  o.sections.flatMap fun s => o.format.order.encode (s.cells o.format.wordSize)

/-- The image of a list of symbols. -/
def write (f : Format) (records : List SymbolRecord) : ByteArray :=
  ofBytes ((ObjectFile.ofSymbols f records).headerBytes ++
    (ObjectFile.ofSymbols f records).tableBytes ++ symbolBytes f records ++ stringBytes records)

/-- The numbers of a symbol fit into the bytes that a format has for them. -/
structure SymbolRecord.Fits (r : SymbolRecord) (w : WordSize) : Prop where
  other : r.other < 256
  value : r.value < 256 ^ w.width
  size : r.size < 256 ^ w.width

theorem ObjectFile.length_headerBytes (o : ObjectFile) :
    o.headerBytes.length = o.format.wordSize.fileHeaderSize := by
  simp only [headerBytes, List.length_append, List.length_replicate, ByteOrder.length_encode,
    ← widthOf_cells_fileHeader o.header]
  rfl

theorem ObjectFile.length_tableBytes (o : ObjectFile) :
    o.tableBytes.length = o.sections.length * o.format.wordSize.sectionHeaderSize := by
  simp only [tableBytes, List.length_flatMap, ByteOrder.length_encode,
    widthOf_cells_sectionHeader, List.map_const', List.sum_replicate_nat]

/-! ## The image -/

section

variable (f : Format) (records : List SymbolRecord)

theorem size_write : (write f records).size =
    headersSize f.wordSize + (symbolBytes f records).length + (stringBytes records).length := by
  simp only [write, size_ofBytes, List.length_append, ObjectFile.length_headerBytes,
    ObjectFile.length_tableBytes]
  rfl

theorem hasBytes_all : HasBytes (write f records) 0
    ((ObjectFile.ofSymbols f records).headerBytes ++
      (ObjectFile.ofSymbols f records).tableBytes ++ symbolBytes f records ++
        stringBytes records) :=
  hasBytes_ofBytes _

theorem hasBytes_headerBytes :
    HasBytes (write f records) 0 (ObjectFile.ofSymbols f records).headerBytes :=
  (hasBytes_all f records).left.left.left

theorem hasBytes_tableBytes : HasBytes (write f records) f.wordSize.fileHeaderSize
    (ObjectFile.ofSymbols f records).tableBytes := by
  have h := (hasBytes_all f records).left.left.right
  rwa [ObjectFile.length_headerBytes, Nat.zero_add] at h

theorem hasBytes_symbolBytes :
    HasBytes (write f records) (headersSize f.wordSize) (symbolBytes f records) := by
  have h := (hasBytes_all f records).left.right
  rwa [List.length_append, ObjectFile.length_headerBytes, ObjectFile.length_tableBytes,
    Nat.zero_add] at h

theorem hasBytes_stringBytes : HasBytes (write f records)
    (headersSize f.wordSize + (symbolBytes f records).length) (stringBytes records) := by
  have h := (hasBytes_all f records).right
  rwa [List.length_append, List.length_append, ObjectFile.length_headerBytes,
    ObjectFile.length_tableBytes, Nat.zero_add] at h

end

variable {f : Format} {records : List SymbolRecord}

/-- Section header `i` lies where it belongs. -/
theorem hasBytes_section {i : Nat} {s : SectionHeader}
    (hs : (ObjectFile.ofSymbols f records).sections[i]? = some s) :
    HasBytes (write f records)
      (f.wordSize.fileHeaderSize + i * f.wordSize.sectionHeaderSize)
      (f.order.encode (s.cells f.wordSize)) := by
  refine (hasBytes_tableBytes f records).piece (fun s _ => ?_) hs
  rw [ByteOrder.length_encode, widthOf_cells_sectionHeader]
  rfl

/-- Entry `i` behind the null entry and its name lie where they belong. -/
theorem hasBytes_entry {i : Nat} {r : SymbolRecord} (hr : records[i]? = some r) :
    ∃ nameOffset, nameOffset + r.name.length < (stringBytes records).length ∧
      HasBytes (write f records) (headersSize f.wordSize + (i + 1) * f.wordSize.entrySize)
        (f.order.encode (r.cells f.wordSize nameOffset)) ∧
      HasBytes (write f records)
        (headersSize f.wordSize + (symbolBytes f records).length + nameOffset) (r.name ++ [0]) := by
  obtain ⟨hi, rfl⟩ := List.getElem?_eq_some_iff.1 hr
  have hsplit : records = records.take i ++ records[i] :: records.drop (i + 1) := by
    rw [List.getElem_cons_drop, List.take_append_drop]
  have htake : (records.take i).length = i := List.length_take_of_le (Nat.le_of_lt hi)
  refine ⟨1 + (nameBytes (records.take i)).length, ?_, ?_, ?_⟩
  · have hlength := congrArg (fun rs => (stringBytes rs).length) hsplit
    simp only [stringBytes, nameBytes_append, nameBytes_cons, List.length_append,
      List.length_singleton] at hlength ⊢
    omega
  · have h := hasBytes_symbolBytes f records
    unfold symbolBytes at h
    rw [hsplit, entryBytes_append, entryBytes, ← hsplit] at h
    have hentry := h.right.right.left
    rwa [List.length_replicate, length_entryBytes, htake, Nat.add_assoc, Nat.add_comm
      f.wordSize.entrySize, ← Nat.succ_mul] at hentry
  · have h := hasBytes_stringBytes f records
    have hstrings : stringBytes records = [0] ++ (nameBytes (records.take i) ++
        (records[i].name ++ [0] ++ nameBytes (records.drop (i + 1)))) := by
      rw [← nameBytes_cons, ← nameBytes_append, ← hsplit]
      rfl
    rw [hstrings] at h
    have hname := h.right.right.left
    rwa [List.length_singleton, Nat.add_assoc] at hname

/-! ## Layout -/

theorem WordSize.lt_pow_width (w : WordSize) {n : Nat} (h : n < 2 ^ 32) : n < 256 ^ w.width := by
  have hpow : 2 ^ 32 ≤ 256 ^ w.width := by
    cases w <;> decide
  exact Nat.lt_of_lt_of_le h hpow

/-- A section header whose numbers take no more than four bytes. -/
theorem SectionHeader.fits_cells {s : SectionHeader} (w : WordSize)
    (h : ∀ n ∈ [s.name, s.kind, s.flags, s.address, s.offset, s.length, s.link, s.info,
      s.alignment, s.recordSize], n < 2 ^ 32) : ∀ c ∈ s.cells w, c.value < 256 ^ c.width := by
  simp only [List.forall_mem_cons] at h
  obtain ⟨hname, hkind, hflags, haddress, hoffset, hlength, hlink, hinfo, halignment, hsize, -⟩ := h
  simp only [SectionHeader.cells, List.forall_mem_cons]
  exact ⟨hname, hkind, w.lt_pow_width hflags, w.lt_pow_width haddress, w.lt_pow_width hoffset,
    w.lt_pow_width hlength, hlink, hinfo, w.lt_pow_width halignment, w.lt_pow_width hsize,
    List.forall_mem_nil _⟩

theorem FileHeader.fits_cells_ofThree (w : WordSize) :
    ∀ c ∈ (FileHeader.ofThree w).cells w, c.value < 256 ^ c.width := by
  cases w <;> decide

/-- There are three sections, and all of their numbers are small. -/
theorem fits_section (hsize : (write f records).size < 2 ^ 32) {i : Nat} {s : SectionHeader}
    (hs : (ObjectFile.ofSymbols f records).sections[i]? = some s) :
    ∀ c ∈ s.cells f.wordSize, c.value < 256 ^ c.width := by
  rw [size_write] at hsize
  have hw : f.wordSize.width < 2 ^ 32 ∧ f.wordSize.entrySize < 2 ^ 32 := by
    cases f.wordSize <;> decide
  refine SectionHeader.fits_cells f.wordSize ?_
  match i, hs with
  | 0, rfl => decide
  | 1, rfl =>
    simp only [SectionHeader.ofSymbols, SectionHeader.null, List.forall_mem_cons,
      List.not_mem_nil, false_imp_iff, implies_true, and_true]
    omega
  | 2, rfl =>
    simp only [SectionHeader.ofStrings, SectionHeader.null, List.forall_mem_cons,
      List.not_mem_nil, false_imp_iff, implies_true, and_true]
    omega

theorem hasHeaders_write (hsize : (write f records).size < 2 ^ 32) :
    (ObjectFile.ofSymbols f records).HasHeaders (write f records) := by
  have hheader := hasBytes_headerBytes f records
  refine ⟨hheader.left.left, ⟨FileHeader.fits_cells_ofThree f.wordSize, hheader.right⟩, ?_, ?_,
    rfl, rfl, fun i s hs => ⟨fits_section hsize hs, hasBytes_section hs⟩, (by decide : 2 ≠ 0),
    ⟨_, rfl, .inr ?_⟩⟩
  · show f.wordSize.fileHeaderSize ≠ 0
    cases f.wordSize <;> decide
  · show f.wordSize.width ∣ f.wordSize.fileHeaderSize
    cases f.wordSize <;> decide
  · show headersSize f.wordSize + (symbolBytes f records).length + (stringBytes records).length <
      2 ^ 64
    rw [size_write] at hsize
    omega

theorem fits_entry {r : SymbolRecord} {nameOffset : Nat} (w : WordSize) (h : r.Fits w)
    (hoffset : nameOffset < 2 ^ 32) : ∀ c ∈ r.cells w nameOffset, c.value < 256 ^ c.width := by
  obtain ⟨hother, hvalue, hsize⟩ := h
  have htype := r.type_supported
  have hbinding := r.binding_supported
  have hsection := r.sectionIndex_supported
  simp only [List.mem_cons, List.not_mem_nil, or_false] at htype hbinding hsection
  have hinfo : 16 * r.binding + r.type < 256 := by omega
  have hindex : r.sectionIndex < 256 ^ 2 := by omega
  cases w with
  | bits32 =>
    simp only [SymbolRecord.cells, List.forall_mem_cons]
    exact ⟨hoffset, hvalue, hsize, hinfo, hother, hindex, List.forall_mem_nil _⟩
  | bits64 =>
    simp only [SymbolRecord.cells, List.forall_mem_cons]
    exact ⟨hoffset, hinfo, hother, hindex, hvalue, hsize, List.forall_mem_nil _⟩

/-- The image of a list of symbols lays them out. -/
theorem laysOut_write (hsize : (write f records).size < 2 ^ 32)
    (hfits : ∀ r ∈ records, r.Fits f.wordSize) :
    (ObjectFile.ofSymbols f records).LaysOut (write f records) records := by
  have hheaders := hasHeaders_write hsize
  rw [size_write] at hsize
  have hkind : ∀ i s, (ObjectFile.ofSymbols f records).sections[i]? = some s →
      (s.kind = 2 ↔ i = 1) ∧ s.kind ≠ 18 := by
    intro i s hs
    match i, hs with
    | 0, rfl => decide
    | 1, rfl => exact ⟨by simp [SectionHeader.ofSymbols], (by decide : 2 ≠ 18)⟩
    | 2, rfl => exact ⟨by simp [SectionHeader.ofStrings], (by decide : 3 ≠ 18)⟩
  refine ⟨hheaders, rfl, fun i s hs => (hkind i s hs).1, ?_, length_symbolBytes f records, ?_,
    (hasBytes_symbolBytes f records).left, (by decide : 2 ≠ 0), rfl, rfl, ?_, ?_, ?_, ?_⟩
  · show f.wordSize.width ∣ headersSize f.wordSize
    cases f.wordSize <;> decide
  · show headersSize f.wordSize + (symbolBytes f records).length ≤ (write f records).size
    rw [size_write]
    omega
  · show headersSize f.wordSize + (symbolBytes f records).length + (stringBytes records).length <
      2 ^ 64
    omega
  · intro i r hr
    obtain ⟨nameOffset, hends, hentry, hname⟩ := hasBytes_entry (f := f) hr
    exact ⟨nameOffset, ⟨fits_entry f.wordSize (hfits r (List.mem_of_getElem? hr)) (by omega),
      hentry⟩, hends, hname⟩
  · exact Nat.le_of_eq (size_write f records).symm
  · intro s hs h18
    obtain ⟨i, hi⟩ := List.mem_iff_getElem?.1 hs
    exact absurd h18 (hkind i s hi).2

end LinkageAudit.Elf

import LinkageAudit.Elf.Section
import LinkageAudit.Proofs.FirstFailure

/-!
# What makes a section table readable

The file header and the section table of an image, stated as the conditions under which reading
gives them.

* `Header.read_eq_ok_iff`: the file header that an image starts with.
* `Header.sections_eq_ok_iff`: the sections that a file header leads to.
-/

namespace LinkageAudit.Elf

variable {image : ByteArray}

/-! ## File header -/

/-- The image starts with the file header `h`. -/
structure Header.Starts (h : Header) (image : ByteArray) : Prop where
  fits : h.format.layout.header.size ≤ image.size
  magic : bytesAt image 0 4 = magic
  wordSize : WordSize.ofByte? (byteAt image 4) = some h.format.wordSize
  order : ByteOrder.ofByte? (byteAt image 5) = some h.format.order
  version : byteAt image 6 = 1
  fileType : h.fileType = h.format.layout.header.fileType.read h.format.order image 0
  sectionTable : h.sectionTable = h.format.layout.header.sectionTable.read h.format.order image 0
  sectionSize : h.sectionSize = h.format.layout.header.sectionSize.read h.format.order image 0
  sectionCount : h.sectionCount = h.format.layout.header.sectionCount.read h.format.order image 0
  nameSection : h.nameSection = h.format.layout.header.nameSection.read h.format.order image 0

theorem WordSize.ofImage_eq_ok_iff {w : WordSize} : WordSize.ofImage image = .ok w ↔
    16 ≤ image.size ∧ bytesAt image 0 4 = magic ∧ WordSize.ofByte? (byteAt image 4) = some w := by
  unfold WordSize.ofImage
  split
  · simp; omega
  · split
    · simp_all
    · split <;> simp_all

theorem Header.ofWordSize_eq_ok_iff {w : WordSize} {h : Header} :
    Header.ofWordSize w image = .ok h ↔
      w.layout.header.size ≤ image.size ∧ byteAt image 6 = 1 ∧
        ∃ order, ByteOrder.ofByte? (byteAt image 5) = some order ∧
          h =
            { format := ⟨w, order⟩
              fileType := w.layout.header.fileType.read order image 0
              sectionTable := w.layout.header.sectionTable.read order image 0
              sectionSize := w.layout.header.sectionSize.read order image 0
              sectionCount := w.layout.header.sectionCount.read order image 0
              nameSection := w.layout.header.nameSection.read order image 0 } := by
  unfold Header.ofWordSize
  dsimp only
  split
  · next hs =>
    simp only [reduceCtorEq, false_iff]
    rintro ⟨hs', -⟩
    omega
  · next hs =>
    split
    · next hv =>
      simp only [reduceCtorEq, false_iff]
      rintro ⟨-, hv', -⟩
      exact hv hv'
    · next hv =>
      have hs' := Nat.not_lt.1 hs
      have hv' := Decidable.not_not.1 hv
      split
      · next ho => simp [ho]
      · next order ho =>
        simp only [ho, Option.some.injEq, exists_eq_left', Except.ok.injEq, hs', hv', true_and]
        exact eq_comm

theorem Header.read_eq_ok_iff {h : Header} : Header.read image = .ok h ↔ h.Starts image := by
  rw [Header.read, bind_eq_ok_iff]
  simp only [WordSize.ofImage_eq_ok_iff, Header.ofWordSize_eq_ok_iff]
  constructor
  · rintro ⟨w, ⟨-, hm, hw⟩, hs, hv, order, ho, rfl⟩
    exact ⟨hs, hm, hw, ho, hv, rfl, rfl, rfl, rfl, rfl⟩
  · intro hh
    have h16 : 16 ≤ h.format.layout.header.size := by
      unfold Format.layout
      cases h.format.wordSize <;> decide
    refine ⟨h.format.wordSize, ⟨Nat.le_trans h16 hh.fits, hh.magic, hh.wordSize⟩, hh.fits,
      hh.version, h.format.order, hh.order, ?_⟩
    obtain ⟨⟨w, o⟩, t, s, z, c, n⟩ := h
    obtain ⟨-, -, -, -, -, ht, hs, hz, hc, hn⟩ := hh
    simp only at ht hs hz hc hn
    rw [ht, hs, hz, hc, hn]
    rfl

/-! ## Section table -/

namespace Header

/-- The file header leads to the section table `sections`, number 0 included. -/
structure LeadsTo (h : Header) (image : ByteArray) (sections : List Section) : Prop where
  present : h.sectionTable ≠ 0
  recordSize : h.sizeMatches = true
  nonempty : sections ≠ []
  count : sections.length = if h.sectionCount = 0
    then (Section.read h.format image h.sectionTable).length else h.sectionCount
  fits : h.tableFits image sections.length = true
  content : sections = h.readTable image sections.length
  names : h.checkNames sections = .ok ()

/-- A table that lies in the image starts with a header that does. -/
theorem tableFits_one {h : Header} {n : Nat} (hn : n ≠ 0) (hf : h.tableFits image n = true) :
    h.tableFits image 1 = true := by
  simp only [tableFits, inImage, Bool.and_eq_true, decide_eq_true_eq, beq_iff_eq] at hf ⊢
  have hle := Nat.mul_le_mul_right h.format.layout.sectionHeader.size (Nat.one_le_iff_ne_zero.2 hn)
  exact ⟨by omega, hf.2⟩

@[simp] theorem length_readTable (h : Header) (image : ByteArray) (n : Nat) :
    (h.readTable image n).length = n := by
  simp [readTable]

theorem count_eq_ok_iff {h : Header} {n : Nat} : h.count image = .ok n ↔
    (h.sectionTable = 0 ∧ n = 0) ∨ (h.sectionTable ≠ 0 ∧ h.sectionCount ≠ 0 ∧ n = h.sectionCount) ∨
      (h.sectionTable ≠ 0 ∧ h.sectionCount = 0 ∧ h.sizeMatches = true ∧
        h.tableFits image 1 = true ∧ n = (Section.read h.format image h.sectionTable).length) := by
  unfold Header.count
  by_cases h0 : h.sectionTable = 0
  · simp only [h0, if_true, Except.ok.injEq, ne_eq, not_true, false_and, or_false, true_and]
    exact eq_comm
  by_cases hc : h.sectionCount = 0
  · cases hs : h.sizeMatches
    · simp [h0, hc]
    · cases hf : h.tableFits image 1
      · simp [h0, hc]
      · simp only [h0, hc, if_false, ne_eq, not_true, not_false_eq_true, Bool.not_true,
          Bool.false_eq_true, Except.ok.injEq, false_and, true_and, false_or]
        exact eq_comm
  · simp only [h0, hc, if_false, ne_eq, not_false_eq_true, if_true, Except.ok.injEq, false_and,
      true_and, false_or, and_false, or_false]
    exact eq_comm

/-- Sections are found exactly if there are none, or the whole table is sound. -/
theorem table_eq_ok_iff {h : Header} {sections : List Section} : h.table image = .ok sections ↔
    ∃ n, h.count image = .ok n ∧ sections = h.readTable image n ∧
      (n ≠ 0 → h.sizeMatches = true ∧ h.tableFits image n = true) := by
  rw [Header.table, bind_eq_ok_iff]
  refine exists_congr fun n => and_congr_right fun _ => ?_
  by_cases hn : n = 0
  · subst hn
    simp only [if_true, pure, Except.pure, Except.ok.injEq, ne_eq, not_true, false_imp_iff,
      and_true]
    exact eq_comm
  rw [if_neg hn]
  cases h.sizeMatches with
  | false => simp [hn, throw, throwThe, MonadExceptOf.throw]
  | true =>
    cases h.tableFits image n with
    | false => simp [hn, throw, throwThe, MonadExceptOf.throw]
    | true =>
      simp only [pure, Except.pure, Bool.not_true, Bool.false_eq_true, if_false, Except.ok.injEq,
        and_self, implies_true, and_true]
      exact eq_comm

theorem sections_eq_ok_iff {h : Header} {sections : List Section} (hne : sections ≠ []) :
    h.sections image = .ok sections ↔ h.LeadsTo image sections := by
  have hsections : h.sections image = .ok sections ↔
      h.table image = .ok sections ∧ h.checkNames sections = .ok () := by
    simp only [Header.sections, bind_eq_ok_iff, pure, Except.pure, Except.ok.injEq]
    constructor
    · rintro ⟨s, hs, ⟨⟩, hn, rfl⟩
      exact ⟨hs, hn⟩
    · rintro ⟨hs, hn⟩
      exact ⟨sections, hs, ⟨⟩, hn, rfl⟩
  rw [hsections, table_eq_ok_iff]
  constructor
  · rintro ⟨⟨n, hn, rfl, hsound⟩, hnames⟩
    have hn0 : n ≠ 0 := by
      rintro rfl
      exact hne rfl
    obtain ⟨hsize, hfits⟩ := hsound hn0
    rcases count_eq_ok_iff.1 hn with ⟨-, rfl⟩ | ⟨hp, hc, rfl⟩ | ⟨hp, hc, -, -, rfl⟩
    · exact absurd rfl hn0
    · refine ⟨hp, hsize, hne, ?_, ?_, ?_, hnames⟩
      · rw [length_readTable, if_neg hc]
      · rwa [length_readTable]
      · rw [length_readTable]
    · refine ⟨hp, hsize, hne, ?_, ?_, ?_, hnames⟩
      · rw [length_readTable, if_pos hc]
      · rwa [length_readTable]
      · rw [length_readTable]
  · intro hl
    have hn0 : sections.length ≠ 0 := fun h0 => hne (List.length_eq_zero_iff.1 h0)
    refine ⟨⟨sections.length, count_eq_ok_iff.2 ?_, hl.content,
      fun _ => ⟨hl.recordSize, hl.fits⟩⟩, hl.names⟩
    by_cases hc : h.sectionCount = 0
    · have hlen := hl.count
      rw [if_pos hc] at hlen
      exact .inr (.inr ⟨hl.present, hc, hl.recordSize, tableFits_one hn0 hl.fits, hlen⟩)
    · have hlen := hl.count
      rw [if_neg hc] at hlen
      exact .inr (.inl ⟨hl.present, hc, hlen⟩)

end Header

end LinkageAudit.Elf

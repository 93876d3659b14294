import LinkageAudit.Elf.SymbolTable

/-!
# Bytes, fields and strings of an image

What a read of a range of an image rests on.

* `bytesAt_congr`, `Field.read_congr`: images that agree on a range read alike there.
* `untilZero_eq_some_iff`, `StringTable.get?_eq_some_iff`: a string is the stretch of nonzero bytes
  from its offset to a zero byte inside the table.
-/

namespace LinkageAudit.Elf

variable {image image' : ByteArray}

/-! ## Single bytes -/

theorem byteAt_eq_getElem {i : Nat} (h : i < image.size) : byteAt image i = image[i] := dif_pos h

theorem byteAt_append_left {i : Nat} (h : i < image.size) :
    byteAt (image ++ image') i = byteAt image i := by
  rw [byteAt_eq_getElem h, byteAt_eq_getElem (by rw [ByteArray.size_append]; omega),
    ByteArray.getElem_append_left h]

theorem byteAt_extract_zero {n i : Nat} (h : i < (image.extract 0 n).size) :
    byteAt (image.extract 0 n) i = byteAt image i := by
  have hi : i < image.size := by
    rw [ByteArray.size_extract] at h
    omega
  rw [byteAt_eq_getElem h, byteAt_eq_getElem hi, ByteArray.getElem_extract]
  simp only [Nat.zero_add]

theorem byteAt_set_ne {i j : Nat} (hj : j < image.size) (b : UInt8) (hne : i ≠ j) :
    byteAt (image.set j b hj) i = byteAt image i := by
  have hsize : (image.set j b hj).size = image.size := by
    simp [← ByteArray.size_data]
  unfold byteAt
  simp only [hsize]
  split
  · simp only [ByteArray.getElem_eq_getElem_data, ByteArray.data_set]
    rw [Array.getElem_set_ne]
    exact hne.symm
  · rfl

/-! ## Ranges -/

@[simp] theorem length_bytesAt (image : ByteArray) (pos n : Nat) :
    (bytesAt image pos n).length = n := by
  simp [bytesAt]

@[simp] theorem getElem_bytesAt (image : ByteArray) (pos n i : Nat)
    (h : i < (bytesAt image pos n).length) : (bytesAt image pos n)[i] = byteAt image (pos + i) := by
  simp [bytesAt]

@[simp] theorem bytesAt_zero (image : ByteArray) (pos : Nat) : bytesAt image pos 0 = [] := rfl

theorem bytesAt_succ (image : ByteArray) (pos n : Nat) :
    bytesAt image pos (n + 1) = byteAt image pos :: bytesAt image (pos + 1) n := by
  simp [bytesAt, List.range_succ_eq_map, Function.comp_def, Nat.add_assoc, Nat.add_comm 1]

theorem bytesAt_add (image : ByteArray) (pos m n : Nat) :
    bytesAt image pos (m + n) = bytesAt image pos m ++ bytesAt image (pos + m) n := by
  simp [bytesAt, List.range_add, Function.comp_def, Nat.add_assoc]

theorem bytesAt_congr {pos n : Nat}
    (h : ∀ i, pos ≤ i → i < pos + n → byteAt image' i = byteAt image i) :
    bytesAt image' pos n = bytesAt image pos n := by
  simp only [bytesAt, List.map_inj_left, List.mem_range]
  intro i hi
  exact h (pos + i) (by omega) (by omega)

/-! ## Fields -/

/-- Position `i` belongs to the field in the record at `record`. -/
def Field.Covers (field : Field) (record i : Nat) : Prop :=
  record + field.offset ≤ i ∧ i < record + field.offset + field.width

theorem Field.read_congr {field : Field} {order : ByteOrder} {record : Nat}
    (h : ∀ i, field.Covers record i → byteAt image' i = byteAt image i) :
    field.read order image' record = field.read order image record := by
  unfold Field.read
  rw [bytesAt_congr fun i hlo hhi => h i ⟨hlo, hhi⟩]

/-! ## Strings -/

theorem untilZero_eq_some_iff {pos n : Nat} {bytes : List UInt8} :
    untilZero image pos n = some bytes ↔ bytes.length < n ∧ 0 ∉ bytes ∧
      bytesAt image pos bytes.length = bytes ∧ byteAt image (pos + bytes.length) = 0 := by
  induction n generalizing pos bytes with
  | zero => simp [untilZero]
  | succ n ih =>
    rw [untilZero]
    split
    · next hz =>
      -- The first byte ends the string, so the string is empty.
      constructor
      · rintro ⟨⟩
        exact ⟨by simp, by simp, rfl, hz⟩
      · rintro ⟨-, hn, hb, -⟩
        cases bytes with
        | nil => rfl
        | cons b bs =>
          rw [List.length_cons, bytesAt_succ, List.cons.injEq] at hb
          rw [← hb.1, hz] at hn
          simp at hn
    · next hz =>
      cases bytes with
      | nil => simp [hz]
      | cons b bs =>
        simp only [Option.map_eq_some_iff, List.cons.injEq, List.length_cons, bytesAt_succ]
        constructor
        · rintro ⟨bs', hbs, rfl, rfl⟩
          obtain ⟨hl, hn, hb, he⟩ := ih.1 hbs
          refine ⟨by omega, ?_, ⟨rfl, hb⟩, ?_⟩
          · rw [List.mem_cons, not_or]
            exact ⟨fun h => hz h.symm, hn⟩
          · rw [← he]
            congr 1
            omega
        · rintro ⟨hl, hn, ⟨rfl, hb⟩, he⟩
          refine ⟨bs, ih.2 ⟨by omega, fun h => hn (List.mem_cons_of_mem _ h), hb, ?_⟩, rfl, rfl⟩
          rw [← he]
          congr 1
          omega

/-- The string at `offset` of a table is `bytes`: they lie in the table, hold no zero byte, and one
follows. -/
structure StringTable.Holds (t : StringTable) (image : ByteArray) (offset : Nat)
    (bytes : List UInt8) : Prop where
  endsInside : t.start + offset + bytes.length < t.stop
  tableInside : t.stop ≤ image.size
  noZero : 0 ∉ bytes
  content : bytesAt image (t.start + offset) bytes.length = bytes
  terminator : byteAt image (t.start + offset + bytes.length) = 0

theorem StringTable.get?_eq_some_iff {t : StringTable} {offset : Nat} {bytes : List UInt8} :
    t.get? image offset = some bytes ↔ t.Holds image offset bytes := by
  unfold StringTable.get?
  dsimp only
  split
  · next h =>
    rw [untilZero_eq_some_iff]
    constructor
    · rintro ⟨hl, hn, hb, he⟩
      exact ⟨by omega, h.2, hn, hb, he⟩
    · intro ⟨hl, _, hn, hb, he⟩
      exact ⟨by omega, hn, hb, he⟩
  · next h =>
    simp only [reduceCtorEq, false_iff]
    intro ⟨hl, hs, _, _, _⟩
    exact h ⟨by omega, hs⟩

/-- A string found in one image is found in a larger one that agrees on the table. -/
theorem StringTable.Holds.congr {t : StringTable} {offset : Nat} {bytes : List UInt8}
    (h : t.Holds image offset bytes) (hsize : image.size ≤ image'.size)
    (hagree : ∀ i, t.start ≤ i → i < t.stop → byteAt image' i = byteAt image i) :
    t.Holds image' offset bytes := by
  have hend := h.endsInside
  refine ⟨hend, Nat.le_trans h.tableInside hsize, h.noZero, ?_, ?_⟩
  · rw [bytesAt_congr fun i hlo hhi => hagree i (by omega) (by omega), h.content]
  · rw [hagree _ (by omega) hend, h.terminator]

end LinkageAudit.Elf

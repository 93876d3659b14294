import Mathlib.Algebra.Ring.Nat
import LinkageAudit.Proofs.Elf.Bytes

/-!
# Encoding numbers and records

How numbers are written to an image, and that reading finds them again.

* `ByteOrder.bytes`: the bytes of a number; `ByteOrder.number_bytes` reads them back.
* `ByteOrder.encode`: the bytes of a record, its numbers one behind the other.
* `HasRecord.read_eq`: a field at the place of a number of a record reads that number.
-/

namespace LinkageAudit.Elf

variable {image : ByteArray} {order : ByteOrder}

/-! ## Numbers -/

/-- The bytes of a number, the least significant first. -/
def littleEndianBytes : Nat → Nat → List UInt8
  | 0, _ => []
  | width + 1, n => UInt8.ofNat n :: littleEndianBytes width (n / 256)

@[simp] theorem length_littleEndianBytes (width n : Nat) :
    (littleEndianBytes width n).length = width := by
  induction width generalizing n with
  | zero => rfl
  | succ width ih => rw [littleEndianBytes, List.length_cons, ih]

theorem littleEndian_littleEndianBytes {width n : Nat} (h : n < 256 ^ width) :
    littleEndian (littleEndianBytes width n) = n := by
  induction width generalizing n with
  | zero =>
    rw [Nat.pow_zero] at h
    have hn : n = 0 := by omega
    rw [hn]
    rfl
  | succ width ih =>
    have hrest : n / 256 < 256 ^ width := by
      rw [Nat.pow_succ] at h
      omega
    rw [littleEndianBytes, littleEndian, ih hrest]
    show (UInt8.ofNat n).toNat + 256 * (n / 256) = n
    rw [UInt8.toNat_ofNat']
    omega

/-- The bytes of a number in a byte order. -/
def ByteOrder.bytes : ByteOrder → Nat → Nat → List UInt8
  | .little, width, n => littleEndianBytes width n
  | .big, width, n => (littleEndianBytes width n).reverse

@[simp] theorem ByteOrder.length_bytes (order : ByteOrder) (width n : Nat) :
    (order.bytes width n).length = width := by
  cases order <;> simp [ByteOrder.bytes]

theorem ByteOrder.number_bytes (order : ByteOrder) {width n : Nat} (h : n < 256 ^ width) :
    order.number (order.bytes width n) = n := by
  cases order with
  | little => exact littleEndian_littleEndianBytes h
  | big =>
    show littleEndian (littleEndianBytes width n).reverse.reverse = n
    rw [List.reverse_reverse, littleEndian_littleEndianBytes h]

/-! ## Bytes at a position -/

/-- The image has `bytes` at a position. -/
structure HasBytes (image : ByteArray) (pos : Nat) (bytes : List UInt8) : Prop where
  inside : pos + bytes.length ≤ image.size
  content : bytesAt image pos bytes.length = bytes

theorem HasBytes.left {pos : Nat} {bs cs : List UInt8} (h : HasBytes image pos (bs ++ cs)) :
    HasBytes image pos bs := by
  obtain ⟨hinside, hcontent⟩ := h
  rw [List.length_append] at hinside hcontent
  rw [bytesAt_add] at hcontent
  exact ⟨by omega, (List.append_inj hcontent (length_bytesAt ..)).1⟩

theorem HasBytes.right {pos : Nat} {bs cs : List UInt8} (h : HasBytes image pos (bs ++ cs)) :
    HasBytes image (pos + bs.length) cs := by
  obtain ⟨hinside, hcontent⟩ := h
  rw [List.length_append] at hinside hcontent
  rw [bytesAt_add] at hcontent
  exact ⟨by omega, (List.append_inj hcontent (length_bytesAt ..)).2⟩

theorem HasBytes.head {pos : Nat} {b : UInt8} {bs : List UInt8}
    (h : HasBytes image pos (b :: bs)) : byteAt image pos = b := by
  have hcontent := h.content
  rw [List.length_cons, bytesAt_succ] at hcontent
  exact (List.cons.inj hcontent).1

theorem HasBytes.tail {pos : Nat} {b : UInt8} {bs : List UInt8}
    (h : HasBytes image pos (b :: bs)) : HasBytes image (pos + 1) bs :=
  @HasBytes.right image pos [b] bs h

/-- Among pieces of `n` bytes each, number `i` starts `i * n` bytes behind the first. -/
theorem HasBytes.piece {α : Type} {pos n : Nat} {l : List α} {bytes : α → List UInt8}
    (h : HasBytes image pos (l.flatMap bytes)) (hn : ∀ a ∈ l, (bytes a).length = n) {i : Nat}
    {a : α} (ha : l[i]? = some a) : HasBytes image (pos + i * n) (bytes a) := by
  induction l generalizing i pos with
  | nil => cases ha
  | cons x l ih =>
    rw [List.flatMap_cons] at h
    cases i with
    | zero =>
      cases ha
      rw [Nat.zero_mul]
      exact h.left
    | succ i =>
      have hrest := ih h.right (fun b hb => hn b (List.mem_cons_of_mem _ hb)) ha
      rwa [hn x List.mem_cons_self, Nat.add_assoc, Nat.add_comm n, ← Nat.succ_mul] at hrest

/-- The image that consists of `bytes`. -/
def ofBytes (bytes : List UInt8) : ByteArray := ⟨bytes.toArray⟩

@[simp] theorem size_ofBytes (bytes : List UInt8) : (ofBytes bytes).size = bytes.length := rfl

theorem byteAt_ofBytes {bytes : List UInt8} {i : Nat} (h : i < bytes.length) :
    byteAt (ofBytes bytes) i = bytes[i] := by
  rw [byteAt_eq_getElem (by rwa [size_ofBytes])]
  rfl

theorem hasBytes_ofBytes (bytes : List UInt8) : HasBytes (ofBytes bytes) 0 bytes := by
  refine ⟨by simp, List.ext_getElem (length_bytesAt ..) fun i _ hi => ?_⟩
  rw [getElem_bytesAt, Nat.zero_add, byteAt_ofBytes hi]

/-! ## Records -/

/-- A number of a record, and how many bytes it takes. -/
structure Cell where
  width : Nat
  value : Nat
  deriving DecidableEq, Repr

/-- The bytes that numbers take together. -/
def widthOf (cells : List Cell) : Nat := (cells.map (·.width)).sum

/-- The bytes of a record: those of its numbers in order. -/
def ByteOrder.encode (order : ByteOrder) (cells : List Cell) : List UInt8 :=
  cells.flatMap fun c => order.bytes c.width c.value

@[simp] theorem ByteOrder.length_encode (order : ByteOrder) (cells : List Cell) :
    (order.encode cells).length = widthOf cells := by
  simp [ByteOrder.encode, widthOf, List.length_flatMap]

theorem ByteOrder.encode_append (order : ByteOrder) (cs ds : List Cell) :
    order.encode (cs ++ ds) = order.encode cs ++ order.encode ds := List.flatMap_append

theorem ByteOrder.encode_cons (order : ByteOrder) (c : Cell) (cs : List Cell) :
    order.encode (c :: cs) = order.bytes c.width c.value ++ order.encode cs := List.flatMap_cons

/-- The image has a record at a position, each number of which fits into its bytes. -/
structure HasRecord (image : ByteArray) (order : ByteOrder) (pos : Nat) (cells : List Cell) :
    Prop where
  fits : ∀ c ∈ cells, c.value < 256 ^ c.width
  bytes : HasBytes image pos (order.encode cells)

theorem HasRecord.inside {pos : Nat} {cells : List Cell} (h : HasRecord image order pos cells) :
    pos + widthOf cells ≤ image.size := by
  have hinside := h.bytes.inside
  rwa [ByteOrder.length_encode] at hinside

/-- A field that lies where number `i` of a record does reads that number. -/
theorem HasRecord.read_eq {pos record i : Nat} {cells : List Cell} {c : Cell} {field : Field}
    (h : HasRecord image order pos cells) (hc : cells[i]? = some c)
    (hplace : record + field.offset = pos + widthOf (cells.take i) ∧ field.width = c.width) :
    field.read order image record = c.value := by
  obtain ⟨hi, rfl⟩ := List.getElem?_eq_some_iff.1 hc
  have hsplit : cells = cells.take i ++ cells[i] :: cells.drop (i + 1) := by
    rw [List.getElem_cons_drop, List.take_append_drop]
  have hbytes : HasBytes image (pos + widthOf (cells.take i))
      (order.bytes cells[i].width cells[i].value) := by
    have hall := h.bytes
    rw [hsplit] at hall
    rw [ByteOrder.encode_append, ByteOrder.encode_cons] at hall
    have hright := hall.right.left
    rwa [ByteOrder.length_encode] at hright
  have hcontent := hbytes.content
  rw [ByteOrder.length_bytes] at hcontent
  unfold Field.read
  rw [hplace.1, hplace.2, hcontent, ByteOrder.number_bytes]
  exact h.fits _ (List.getElem_mem hi)

theorem HasRecord.read_place {pos i : Nat} {cells : List Cell} {c : Cell}
    (h : HasRecord image order pos cells) (hc : cells[i]? = some c) :
    (⟨pos + widthOf (cells.take i), c.width⟩ : Field).read order image 0 = c.value :=
  h.read_eq hc ⟨Nat.zero_add _, rfl⟩

end LinkageAudit.Elf

import LinkageAudit.Text.Utf8
import Mathlib.Data.List.Basic

/-!
# Lossy text and its bytes

Decoding never makes up text: apart from the replacement character, what stands in the decoded
text stands byte for byte in the bytes.

* `Utf8.Spells`: the well-formed sequences and their code points, by length.
* `Utf8.spells_toNat_iff`: the well-formed sequence of a character is its encoding.
* `Utf8.scan_eq_some_cons_iff`: a scan begins with a character exactly if the bytes begin with its
  encoding.
* `Utf8.startsWith_decodeLossy_iff`, `Utf8.decodeLossy_eq_iff`: tests of a decoded name against a
  legible text are tests of its bytes.
* `Utf8.mem_decodeLossy_iff`: a decoded text has an ASCII character exactly if the bytes do.
-/

namespace LinkageAudit.Utf8

/-! ## Well-formed sequences -/

/-- The bytes are the well-formed sequence of a code point. The second byte has a narrower range
after `E0`, `ED`, `F0` and `F4`. -/
inductive Spells : List UInt8 → Nat → Prop where
  | one {b : UInt8} (lead : b.toNat < 0x80) : Spells [b] b.toNat
  | two {b b₁ : UInt8} (lead : 0xC2 ≤ b.toNat ∧ b.toNat < 0xE0)
      (second : 0x80 ≤ b₁.toNat ∧ b₁.toNat ≤ 0xBF) :
      Spells [b, b₁] ((b.toNat - 0xC0) * 64 + b₁.toNat % 64)
  | three {b b₁ b₂ : UInt8} (lead : 0xE0 ≤ b.toNat ∧ b.toNat < 0xF0)
      (second : (0x80 ≤ b₁.toNat ∧ b₁.toNat ≤ 0xBF) ∧ (b.toNat = 0xE0 → 0xA0 ≤ b₁.toNat) ∧
        (b.toNat = 0xED → b₁.toNat ≤ 0x9F))
      (third : 0x80 ≤ b₂.toNat ∧ b₂.toNat ≤ 0xBF) :
      Spells [b, b₁, b₂] (((b.toNat - 0xE0) * 64 + b₁.toNat % 64) * 64 + b₂.toNat % 64)
  | four {b b₁ b₂ b₃ : UInt8} (lead : 0xF0 ≤ b.toNat ∧ b.toNat < 0xF5)
      (second : (0x80 ≤ b₁.toNat ∧ b₁.toNat ≤ 0xBF) ∧ (b.toNat = 0xF0 → 0x90 ≤ b₁.toNat) ∧
        (b.toNat = 0xF4 → b₁.toNat ≤ 0x8F))
      (third : 0x80 ≤ b₂.toNat ∧ b₂.toNat ≤ 0xBF) (fourth : 0x80 ≤ b₃.toNat ∧ b₃.toNat ≤ 0xBF) :
      Spells [b, b₁, b₂, b₃]
        ((((b.toNat - 0xF0) * 64 + b₁.toNat % 64) * 64 + b₂.toNat % 64) * 64 + b₃.toNat % 64)

/-- Surrogates and values past the last code point are never spelled. -/
theorem Spells.isValidChar {bytes : List UInt8} {n : Nat} (h : Spells bytes n) :
    n.isValidChar := by
  unfold Nat.isValidChar
  cases h <;> omega

theorem ofNat_eq {n : Nat} {b : UInt8} (h : n = b.toNat) : UInt8.ofNat n = b := by
  rw [h, UInt8.ofNat_toNat]

theorem toNat_ofNat_of_lt {n : Nat} (h : n < 256) : (UInt8.ofNat n).toNat = n := by
  rw [UInt8.toNat_ofNat']
  exact Nat.mod_eq_of_lt h

/-- The encoding of a character is well formed. -/
theorem spells_utf8EncodeChar (c : Char) : Spells (String.utf8EncodeChar c) c.toNat := by
  have hvalid : c.toNat < 0xD800 ∨ (0xDFFF < c.toNat ∧ c.toNat < 0x110000) := c.valid
  have hspells {bytes : List UInt8} {n : Nat} (h : Spells bytes n) (hn : n = c.toNat) :
      Spells bytes c.toNat := hn ▸ h
  unfold String.utf8EncodeChar
  rw [Char.toNat_val]
  dsimp only
  generalize c.toNat = n at *
  have hlast : (UInt8.ofNat (n % 64 + 128)).toNat = n % 64 + 128 := toNat_ofNat_of_lt (by omega)
  have hmiddle : (UInt8.ofNat (n / 64 % 64 + 128)).toNat = n / 64 % 64 + 128 :=
    toNat_ofNat_of_lt (by omega)
  split
  · have hlead : (UInt8.ofNat n).toNat = n := toNat_ofNat_of_lt (by omega)
    exact hspells (.one (by omega)) hlead
  split
  · have hlead : (UInt8.ofNat (n / 64 % 32 + 192)).toNat = n / 64 % 32 + 192 :=
      toNat_ofNat_of_lt (by omega)
    exact hspells (.two (by omega) (by omega)) (by omega)
  split
  · have hlead : (UInt8.ofNat (n / 4096 % 16 + 224)).toNat = n / 4096 % 16 + 224 :=
      toNat_ofNat_of_lt (by omega)
    exact hspells (.three (by omega) (by omega) (by omega)) (by omega)
  · have hlead : (UInt8.ofNat (n / 262144 % 8 + 240)).toNat = n / 262144 % 8 + 240 :=
      toNat_ofNat_of_lt (by omega)
    have hsecond : (UInt8.ofNat (n / 4096 % 64 + 128)).toNat = n / 4096 % 64 + 128 :=
      toNat_ofNat_of_lt (by omega)
    exact hspells (.four (by omega) (by omega) (by omega) (by omega)) (by omega)

/-- A character has no other well-formed sequence than its encoding: there are no overlong
forms. -/
theorem Spells.eq_utf8EncodeChar {bytes : List UInt8} {c : Char} (h : Spells bytes c.toNat) :
    bytes = String.utf8EncodeChar c := by
  unfold String.utf8EncodeChar
  rw [Char.toNat_val]
  dsimp only
  generalize c.toNat = n at *
  cases h with
  | one lead => rw [if_pos (by omega), UInt8.ofNat_toNat]
  | @two b b₁ lead second =>
    rw [if_neg (by omega), if_pos (by omega), ofNat_eq (b := b) (by omega),
      ofNat_eq (b := b₁) (by omega)]
  | @three b b₁ b₂ lead second third =>
    rw [if_neg (by omega), if_neg (by omega), if_pos (by omega), ofNat_eq (b := b) (by omega),
      ofNat_eq (b := b₁) (by omega), ofNat_eq (b := b₂) (by omega)]
  | @four b b₁ b₂ b₃ lead second third fourth =>
    rw [if_neg (by omega), if_neg (by omega), if_neg (by omega), ofNat_eq (b := b) (by omega),
      ofNat_eq (b := b₁) (by omega), ofNat_eq (b := b₂) (by omega),
      ofNat_eq (b := b₃) (by omega)]

theorem spells_toNat_iff {bytes : List UInt8} {c : Char} :
    Spells bytes c.toNat ↔ bytes = String.utf8EncodeChar c :=
  ⟨Spells.eq_utf8EncodeChar, fun h => h ▸ spells_utf8EncodeChar c⟩

/-! ## Scanning -/

theorem ByteRange.contains_iff {r : ByteRange} {b : UInt8} :
    r.contains b = true ↔ r.low.toNat ≤ b.toNat ∧ b.toNat ≤ r.high.toNat := by
  simp [contains, UInt8.le_iff_toNat_le]

theorem contains_continuation_iff {b : UInt8} :
    continuation.contains b = true ↔ 0x80 ≤ b.toNat ∧ b.toNat ≤ 0xBF :=
  ByteRange.contains_iff

/-- The range of a second byte is narrower after two of the first bytes. -/
theorem contains_second_iff {b b₁ first last lowest highest : UInt8}
    (hlow : 0x80 ≤ lowest.toNat) (hhigh : highest.toNat ≤ 0xBF) :
    ByteRange.contains
        ⟨if b = first then lowest else 0x80, if b = last then highest else 0xBF⟩ b₁ = true ↔
      (0x80 ≤ b₁.toNat ∧ b₁.toNat ≤ 0xBF) ∧ (b.toNat = first.toNat → lowest.toNat ≤ b₁.toNat) ∧
        (b.toNat = last.toNat → b₁.toNat ≤ highest.toNat) := by
  have h80 : (0x80 : UInt8).toNat = 0x80 := rfl
  have hBF : (0xBF : UInt8).toNat = 0xBF := rfl
  rw [ByteRange.contains_iff]
  simp only [apply_ite UInt8.toNat, ← UInt8.toNat_inj, h80, hBF]
  split <;> split <;> omega

theorem lead_eq_some_iff {b : UInt8} {point : Nat} {ranges : List ByteRange} :
    lead b = some (point, ranges) ↔
      (b.toNat < 0x80 ∧ point = b.toNat ∧ ranges = []) ∨
      ((0xC2 ≤ b.toNat ∧ b.toNat < 0xE0) ∧ point = b.toNat - 0xC0 ∧ ranges = [continuation]) ∨
      ((0xE0 ≤ b.toNat ∧ b.toNat < 0xF0) ∧ point = b.toNat - 0xE0 ∧
        ranges = [⟨if b = 0xE0 then 0xA0 else 0x80, if b = 0xED then 0x9F else 0xBF⟩,
          continuation]) ∨
      ((0xF0 ≤ b.toNat ∧ b.toNat < 0xF5) ∧ point = b.toNat - 0xF0 ∧
        ranges = [⟨if b = 0xF0 then 0x90 else 0x80, if b = 0xF4 then 0x8F else 0xBF⟩,
          continuation, continuation]) := by
  simp only [lead, UInt8.lt_iff_toNat_lt]
  repeat' split
  all_goals grind

theorem follow_nil_eq_iff {point n : Nat} {bs rest : List UInt8} :
    follow point [] bs = (some n, rest) ↔ n = point ∧ bs = rest := by
  simp [follow, eq_comm]

theorem follow_cons_eq_iff {point n : Nat} {r : ByteRange} {rs : List ByteRange}
    {bs rest : List UInt8} : follow point (r :: rs) bs = (some n, rest) ↔
      ∃ b bs', bs = b :: bs' ∧ r.contains b = true ∧
        follow (point * 64 + b.toNat % 64) rs bs' = (some n, rest) := by
  cases bs with
  | nil => simp [follow]
  | cons b bs =>
    rw [follow]
    split
    · next h => simp [h]
    · next h => simp [h]

/-- A first byte and what it promises take exactly a well-formed sequence off the bytes. -/
theorem follow_of_lead_iff {b : UInt8} {bs rest : List UInt8} {n : Nat} :
    (∃ point ranges, lead b = some (point, ranges) ∧ follow point ranges bs = (some n, rest)) ↔
      ∃ bytes, Spells bytes n ∧ b :: bs = bytes ++ rest := by
  constructor
  · rintro ⟨point, ranges, hl, hf⟩
    rw [lead_eq_some_iff] at hl
    rcases hl with ⟨hb, rfl, rfl⟩ | ⟨hb, hp, rfl⟩ | ⟨hb, hp, rfl⟩ | ⟨hb, hp, rfl⟩
    · obtain ⟨rfl, rfl⟩ := follow_nil_eq_iff.1 hf
      exact ⟨_, .one hb, rfl⟩
    · simp only [follow_cons_eq_iff, follow_nil_eq_iff, contains_continuation_iff] at hf
      obtain ⟨b₁, _, rfl, h₁, hn, rfl⟩ := hf
      refine ⟨[b, b₁], ?_, rfl⟩
      rw [hn, hp]
      exact .two hb h₁
    · simp only [follow_cons_eq_iff, follow_nil_eq_iff, contains_continuation_iff] at hf
      obtain ⟨b₁, _, rfl, h₁, b₂, _, rfl, h₂, hn, rfl⟩ := hf
      rw [contains_second_iff (by decide) (by decide)] at h₁
      refine ⟨[b, b₁, b₂], ?_, rfl⟩
      rw [hn, hp]
      exact .three hb h₁ h₂
    · simp only [follow_cons_eq_iff, follow_nil_eq_iff, contains_continuation_iff] at hf
      obtain ⟨b₁, _, rfl, h₁, b₂, _, rfl, h₂, b₃, _, rfl, h₃, hn, rfl⟩ := hf
      rw [contains_second_iff (by decide) (by decide)] at h₁
      refine ⟨[b, b₁, b₂, b₃], ?_, rfl⟩
      rw [hn, hp]
      exact .four hb h₁ h₂ h₃
  · rintro ⟨bytes, hs, hb⟩
    cases hs with
    | one lead =>
      obtain ⟨rfl, rfl⟩ := List.cons.inj hb
      exact ⟨_, _, lead_eq_some_iff.2 (.inl ⟨lead, rfl, rfl⟩), rfl⟩
    | two lead second =>
      obtain ⟨rfl, rfl⟩ := List.cons.inj hb
      refine ⟨_, _, lead_eq_some_iff.2 (.inr (.inl ⟨lead, rfl, rfl⟩)), ?_⟩
      simp only [follow_cons_eq_iff, follow_nil_eq_iff, contains_continuation_iff]
      exact ⟨_, _, rfl, second, rfl, rfl⟩
    | three lead second third =>
      obtain ⟨rfl, rfl⟩ := List.cons.inj hb
      refine ⟨_, _, lead_eq_some_iff.2 (.inr (.inr (.inl ⟨lead, rfl, rfl⟩))), ?_⟩
      simp only [follow_cons_eq_iff, follow_nil_eq_iff, contains_continuation_iff]
      exact ⟨_, _, rfl, (contains_second_iff (by decide) (by decide)).2 second, _, _, rfl, third,
        rfl, rfl⟩
    | four lead second third fourth =>
      obtain ⟨rfl, rfl⟩ := List.cons.inj hb
      refine ⟨_, _, lead_eq_some_iff.2 (.inr (.inr (.inr ⟨lead, rfl, rfl⟩))), ?_⟩
      simp only [follow_cons_eq_iff, follow_nil_eq_iff, contains_continuation_iff]
      exact ⟨_, _, rfl, (contains_second_iff (by decide) (by decide)).2 second, _, _, rfl, third,
        _, _, rfl, fourth, rfl, rfl⟩

/-- A scan begins with a character exactly if the bytes begin with its encoding. -/
theorem scan_eq_some_cons_iff {bs : List UInt8} {c : Char} {items : List (Option Char)} :
    scan bs = some c :: items ↔
      ∃ rest, bs = String.utf8EncodeChar c ++ rest ∧ items = scan rest := by
  cases bs with
  | nil => simp [scan]
  | cons b bs =>
    constructor
    · intro h
      rw [scan] at h
      split at h
      · cases h
      · next point ranges hl =>
        obtain ⟨hc, rfl⟩ := List.cons.inj h
        obtain ⟨n, hn, rfl⟩ := Option.map_eq_some_iff.1 hc
        have hf : follow point ranges bs = (some n, (follow point ranges bs).2) :=
          Prod.ext hn rfl
        obtain ⟨bytes, hs, hb⟩ := follow_of_lead_iff.1 ⟨point, ranges, hl, hf⟩
        have hpoint : (Char.ofNat n).toNat = n := by
          rw [Char.ofNat, dif_pos hs.isValidChar]
          rfl
        rw [← hpoint] at hs
        exact ⟨_, spells_toNat_iff.1 hs ▸ hb, rfl⟩
    · rintro ⟨rest, hb, rfl⟩
      obtain ⟨point, ranges, hl, hf⟩ :=
        follow_of_lead_iff.2 ⟨_, spells_utf8EncodeChar c, hb⟩
      rw [scan]
      split
      · next h =>
        rw [hl] at h
        cases h
      · next h =>
        rw [hl] at h
        cases h
        rw [hf, Option.map_some, Char.ofNat_toNat]

theorem scan_eq_nil_iff {bs : List UInt8} : scan bs = [] ↔ bs = [] := by
  cases bs with
  | nil => simp [scan]
  | cons b bs =>
    rw [scan]
    split <;> simp

/-- Characters stand at the start of a scan exactly if their encodings stand at the start of the
bytes. -/
theorem map_some_prefix_scan_iff {cs : List Char} {bs : List UInt8} :
    cs.map some <+: scan bs ↔ cs.flatMap String.utf8EncodeChar <+: bs := by
  induction cs generalizing bs with
  | nil => simp
  | cons c cs ih =>
    rw [List.map_cons, List.flatMap_cons]
    constructor
    · rintro ⟨items, h⟩
      obtain ⟨rest, rfl, hitems⟩ := scan_eq_some_cons_iff.1 h.symm
      exact (List.prefix_append_right_inj _).2 (ih.1 ⟨items, hitems⟩)
    · rintro ⟨rest, rfl⟩
      rw [List.append_assoc, scan_eq_some_cons_iff.2 ⟨_, rfl, rfl⟩, List.cons_prefix_cons]
      exact ⟨rfl, ih.2 (List.prefix_append _ _)⟩

/-- Characters make up a scan exactly if their encodings make up the bytes. -/
theorem scan_eq_map_some_iff {cs : List Char} {bs : List UInt8} :
    scan bs = cs.map some ↔ bs = cs.flatMap String.utf8EncodeChar := by
  induction cs generalizing bs with
  | nil => exact scan_eq_nil_iff
  | cons c cs ih =>
    rw [List.map_cons, List.flatMap_cons, scan_eq_some_cons_iff]
    constructor
    · rintro ⟨rest, rfl, hrest⟩
      rw [ih.1 hrest.symm]
    · rintro rfl
      exact ⟨_, rfl, (ih.2 rfl).symm⟩

/-! ## Decoding -/

/-- The bytes of a text. -/
def encode (text : String) : List UInt8 := text.toUTF8.data.toList

theorem encode_eq (text : String) : encode text = text.toList.flatMap String.utf8EncodeChar := by
  have htext : text.toUTF8 = text.toList.utf8Encode := by
    rw [String.toUTF8_eq_toByteArray, ← String.toByteArray_ofList, String.ofList_toList]
  rw [encode, htext, List.utf8Encode, List.toList_data_toByteArray]

/-- A text in which nothing was replaced. -/
def Legible (text : String) : Prop := replacement ∉ text.toList

instance (text : String) : Decidable (Legible text) := inferInstanceAs (Decidable (_ ∉ _))

theorem toList_decodeLossy (bs : List UInt8) :
    (decodeLossy bs).toList = (scan bs).map (·.getD replacement) :=
  String.toList_ofList

/-- What is not the replacement character was not put in its place. -/
theorem getD_eq_iff {item : Option Char} {c : Char} (h : c ≠ replacement) :
    item.getD replacement = c ↔ item = some c := by
  cases item with
  | none => simp [h.symm]
  | some d => simp

theorem prefix_map_getD_iff {cs : List Char} (h : replacement ∉ cs) {items : List (Option Char)} :
    cs <+: items.map (·.getD replacement) ↔ cs.map some <+: items := by
  induction cs generalizing items with
  | nil => simp
  | cons c cs ih =>
    obtain ⟨hc, hcs⟩ := not_or.1 (mt List.mem_cons.2 h)
    cases items with
    | nil => simp
    | cons item items =>
      rw [List.map_cons, List.map_cons, List.cons_prefix_cons, List.cons_prefix_cons, ih hcs,
        eq_comm, getD_eq_iff (Ne.symm hc), eq_comm]

/-- A decoded text starts with a legible one exactly if the bytes do. -/
theorem startsWith_decodeLossy_iff {text : String} (h : Legible text) {bs : List UInt8} :
    (decodeLossy bs).startsWith text = true ↔ encode text <+: bs := by
  rw [String.startsWith_string_iff, toList_decodeLossy, prefix_map_getD_iff h,
    map_some_prefix_scan_iff, encode_eq]

theorem map_getD_eq_iff {cs : List Char} (h : replacement ∉ cs) {items : List (Option Char)} :
    items.map (·.getD replacement) = cs ↔ items = cs.map some := by
  constructor
  · intro he
    have hmapped := (prefix_map_getD_iff h).1 (he.symm ▸ List.prefix_rfl : cs <+: items.map _)
    exact (hmapped.eq_of_length (by rw [List.length_map, ← he, List.length_map])).symm
  · rintro rfl
    rw [List.map_map]
    exact List.map_id cs

/-- A decoded text is a legible one exactly if the bytes are its own. -/
theorem decodeLossy_eq_iff {text : String} (h : Legible text) {bs : List UInt8} :
    decodeLossy bs = text ↔ bs = encode text := by
  rw [← String.toList_inj, toList_decodeLossy, map_getD_eq_iff h, scan_eq_map_some_iff, encode_eq]

/-! ## ASCII characters -/

theorem utf8EncodeChar_of_ascii {c : Char} (h : c.toNat < 0x80) :
    String.utf8EncodeChar c = [UInt8.ofNat c.toNat] := by
  have hbyte : (UInt8.ofNat c.toNat).toNat = c.toNat := toNat_ofNat_of_lt (by omega)
  have hspells : Spells [UInt8.ofNat c.toNat] (UInt8.ofNat c.toNat).toNat := .one (by omega)
  rw [hbyte] at hspells
  exact hspells.eq_utf8EncodeChar.symm

/-- Bytes that follow a first byte are never ASCII. -/
theorem low_of_mem_ranges {b : UInt8} {point : Nat} {ranges : List ByteRange}
    (h : lead b = some (point, ranges)) : ∀ r ∈ ranges, 0x80 ≤ r.low.toNat := by
  have hlow {p : Prop} [Decidable p] {low high : UInt8} (hl : 0x80 ≤ low.toNat) :
      0x80 ≤ (ByteRange.mk (if p then low else 0x80) high).low.toNat := by
    split
    · exact hl
    · exact Nat.le_refl _
  have hcontinuation : 0x80 ≤ continuation.low.toNat := Nat.le_refl _
  rcases lead_eq_some_iff.1 h with ⟨-, -, rfl⟩ | ⟨-, -, rfl⟩ | ⟨-, -, rfl⟩ | ⟨-, -, rfl⟩
  · simp
  · simpa using hcontinuation
  · exact List.forall_mem_cons.2 ⟨hlow (by decide), by simpa using hcontinuation⟩
  · exact List.forall_mem_cons.2 ⟨hlow (by decide), by simpa using hcontinuation⟩

/-- An ASCII byte is never taken as one that follows, so it stays among the bytes not taken. -/
theorem mem_follow_iff {ranges : List ByteRange} (hranges : ∀ r ∈ ranges, 0x80 ≤ r.low.toNat)
    {a : UInt8} (ha : a.toNat < 0x80) (point : Nat) (bs : List UInt8) :
    a ∈ (follow point ranges bs).2 ↔ a ∈ bs := by
  induction ranges generalizing point bs with
  | nil => rfl
  | cons r ranges ih =>
    obtain ⟨hr, hranges⟩ := List.forall_mem_cons.1 hranges
    cases bs with
    | nil => rfl
    | cons b bs =>
      rw [follow]
      split
      · next hb =>
        have hne : a ≠ b := by
          rintro rfl
          have hlow := (ByteRange.contains_iff.1 hb).1
          omega
        rw [ih hranges, List.mem_cons, or_iff_right hne]
      · rfl

/-- A scan meets an ASCII character exactly where its byte stands. -/
theorem some_mem_scan_iff {c : Char} (h : c.toNat < 0x80) {bs : List UInt8} :
    some c ∈ scan bs ↔ UInt8.ofNat c.toNat ∈ bs := by
  have hbyte : (UInt8.ofNat c.toNat).toNat < 0x80 := by
    rw [toNat_ofNat_of_lt (by omega)]
    exact h
  induction bs using scan.induct with
  | case1 => simp [scan]
  | case2 b bs hlead ih =>
    have hne : UInt8.ofNat c.toNat ≠ b := by
      intro hb
      rw [hb] at hbyte
      have hascii := lead_eq_some_iff.2 (.inl ⟨hbyte, rfl, rfl⟩)
      rw [hlead] at hascii
      cases hascii
    rw [scan, hlead]
    simp [ih, hne]
  | case3 b bs point ranges hlead ih =>
    have hscan : scan (b :: bs) = (follow point ranges bs).1.map Char.ofNat ::
        scan (follow point ranges bs).2 := by
      rw [scan, hlead]
    have hrest : some c ∈ scan (follow point ranges bs).2 ↔ UInt8.ofNat c.toNat ∈ bs :=
      ih.trans (mem_follow_iff (low_of_mem_ranges hlead) hbyte point bs)
    rw [hscan, List.mem_cons, hrest, List.mem_cons]
    refine or_congr_left ⟨fun hc => ?_, fun hb => ?_⟩
    · rw [← hc] at hscan
      obtain ⟨rest, hencoded, -⟩ := scan_eq_some_cons_iff.1 hscan
      rw [utf8EncodeChar_of_ascii h] at hencoded
      exact (List.cons.inj hencoded).1.symm
    · have hencoded : b :: bs = String.utf8EncodeChar c ++ bs := by
        rw [utf8EncodeChar_of_ascii h, hb]
        rfl
      rw [scan_eq_some_cons_iff.2 ⟨bs, hencoded, rfl⟩] at hscan
      exact (List.cons.inj hscan).1

/-- Decoding neither makes up an ASCII character nor drops one. -/
theorem mem_decodeLossy_iff {c : Char} (h : c.toNat < 0x80) {bs : List UInt8} :
    c ∈ (decodeLossy bs).toList ↔ UInt8.ofNat c.toNat ∈ bs := by
  have hne : c ≠ replacement := by
    rintro rfl
    exact absurd h (by decide)
  rw [toList_decodeLossy, List.mem_map, ← some_mem_scan_iff h]
  simp only [getD_eq_iff hne, exists_eq_right]

end LinkageAudit.Utf8

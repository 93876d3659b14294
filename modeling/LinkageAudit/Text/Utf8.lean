/-!
# UTF-8 text from unchecked bytes

Decoding of byte strings that nobody has validated, such as the names in a symbol table.

* `Utf8.scan`: the characters of a byte string and its ill-formed stretches, in order.
* `Utf8.decodeLossy`: the text in which each ill-formed stretch is one `U+FFFD`.

An ill-formed stretch is a *maximal subpart*: the longest run of bytes that begins some
well-formed sequence without completing it, or a single byte that begins none.
-/

namespace LinkageAudit.Utf8

/-- An interval of bytes, both ends included. -/
structure ByteRange where
  low : UInt8
  high : UInt8
  deriving DecidableEq, Repr

/-- Membership in the interval. -/
def ByteRange.contains (r : ByteRange) (b : UInt8) : Bool := r.low ≤ b && b ≤ r.high

/-- The bytes that continue a sequence when its first byte sets no narrower range. -/
def continuation : ByteRange := ⟨0x80, 0xBF⟩

/-- What a first byte promises: its share of the code point, and the range of each byte to
follow. The narrower second ranges after `E0`, `ED`, `F0` and `F4` rule out overlong forms,
surrogates and values past `U+10FFFF`. `none` for a byte that starts no sequence. -/
def lead (b : UInt8) : Option (Nat × List ByteRange) :=
  if b < 0x80 then some (b.toNat, [])
  else if b < 0xC2 then none
  else if b < 0xE0 then some (b.toNat - 0xC0, [continuation])
  else if b < 0xF0 then
    let second := ⟨if b = 0xE0 then 0xA0 else 0x80, if b = 0xED then 0x9F else 0xBF⟩
    some (b.toNat - 0xE0, [second, continuation])
  else if b < 0xF5 then
    let second := ⟨if b = 0xF0 then 0x90 else 0x80, if b = 0xF4 then 0x8F else 0xBF⟩
    some (b.toNat - 0xF0, [second, continuation, continuation])
  else none

/-- Takes bytes while each lies in its range. Gives the code point if every range was met, and
the bytes not taken. -/
def follow (point : Nat) : List ByteRange → List UInt8 → Option Nat × List UInt8
  | [], bs => (some point, bs)
  | _ :: _, [] => (none, [])
  | r :: rs, b :: bs =>
    if r.contains b then follow (point * 64 + b.toNat % 64) rs bs else (none, b :: bs)

theorem length_follow_le (point : Nat) (rs : List ByteRange) (bs : List UInt8) :
    (follow point rs bs).2.length ≤ bs.length := by
  induction rs generalizing point bs with
  | nil => exact Nat.le_refl _
  | cons r rs ih =>
    cases bs with
    | nil => exact Nat.le_refl _
    | cons b bs =>
      rw [follow]
      split
      · exact Nat.le_succ_of_le (ih _ _)
      · exact Nat.le_refl _

/-- The characters of a byte string in order, with `none` for each ill-formed stretch. -/
def scan : List UInt8 → List (Option Char)
  | [] => []
  | b :: bs =>
    match lead b with
    | none => none :: scan bs
    | some (point, ranges) =>
      (follow point ranges bs).1.map Char.ofNat :: scan (follow point ranges bs).2
termination_by bs => bs.length
decreasing_by
  · exact Nat.lt_succ_self _
  · exact Nat.lt_succ_of_le (length_follow_le point ranges bs)

/-- The character that stands for an ill-formed stretch. -/
def replacement : Char := Char.ofNat 0xFFFD

/-- The text of a byte string, ill-formed stretches replaced. -/
def decodeLossy (bytes : List UInt8) : String :=
  String.ofList ((scan bytes).map (·.getD replacement))

end LinkageAudit.Utf8

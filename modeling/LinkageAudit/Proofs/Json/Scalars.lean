import LinkageAudit.Proofs.Json.Grammar

/-!
# Numerals and strings are unambiguous

A numeral ends where no character of a numeral follows, a string at its closing quote; what stands
in front of that decides the value.

* `Json.append_inj_of_run`: a run of characters of one class ends where the class ends.
* `Json.Numeral.determined`: a numeral and its number.
* `Json.SpellsChar.unique`, `Json.SpellsString.determined`: a character and a string.
-/

namespace LinkageAudit.Json

/-! ## Runs -/

/-- The text does not begin with a character of a class. -/
def Stops (p : Char → Bool) (cs : List Char) : Prop := ∀ c ∈ cs.head?, p c = false

@[simp] theorem stops_nil {p : Char → Bool} : Stops p [] := nofun

@[simp] theorem stops_cons {p : Char → Bool} {c : Char} {cs : List Char} :
    Stops p (c :: cs) ↔ p c = false := by
  simp [Stops]

theorem takeWhile_append_of_stops {p : Char → Bool} {cs rest : List Char} (h : ∀ c ∈ cs, p c)
    (hrest : Stops p rest) : (cs ++ rest).takeWhile p = cs := by
  rw [List.takeWhile_append_of_pos h]
  cases rest with
  | nil => simp
  | cons c rest => rw [List.takeWhile_cons_of_neg (by simpa using hrest), List.append_nil]

/-- Two runs of a class that end in the same text are the same. -/
theorem append_inj_of_run {p : Char → Bool} {cs cs' rest rest' : List Char} (h : ∀ c ∈ cs, p c)
    (h' : ∀ c ∈ cs', p c) (hrest : Stops p rest) (hrest' : Stops p rest')
    (happend : cs ++ rest = cs' ++ rest') : cs = cs' ∧ rest = rest' := by
  have hcs : cs = cs' := by
    rw [← takeWhile_append_of_stops h hrest, happend, takeWhile_append_of_stops h' hrest']
  subst hcs
  exact ⟨rfl, List.append_cancel_left happend⟩

/-! ## Numerals -/

/-- The characters that numerals are made of. -/
def isNumeralChar (c : Char) : Bool :=
  c.isDigit || c = '-' || c = '+' || c = '.' || c = 'e' || c = 'E'

theorem isNumeralChar_of_isDigit {c : Char} (h : c.isDigit) : isNumeralChar c := by
  simp [isNumeralChar, h]

theorem Digits.head {cs : List Char} (h : Digits cs) : ∃ c tail, cs = c :: tail ∧ c.isDigit := by
  obtain ⟨hne, hall⟩ := h
  cases cs with
  | nil => exact absurd rfl hne
  | cons c tail => exact ⟨c, tail, rfl, hall c List.mem_cons_self⟩

/-- Digits do not begin with another character. -/
theorem Digits.not_cons {c : Char} {cs : List Char} (hc : c.isDigit = false) :
    ¬ Digits (c :: cs) := by
  intro h
  have hdigit := h.2 c List.mem_cons_self
  rw [hc] at hdigit
  cases hdigit

/-- An exponent ends the digits in front of it, and takes no part in the fraction. -/
theorem Exponent.stops {cs : List Char} {n : Int} (h : Exponent cs n) :
    Stops (fun c => c.isDigit || c = '.') cs := by
  cases h with
  | none => exact stops_nil
  | positive he | negative he => rcases he with rfl | rfl <;> exact stops_cons.2 rfl

theorem Exponent.stops_isDigit {cs : List Char} {n : Int} (h : Exponent cs n) :
    Stops Char.isDigit cs :=
  fun c hc => (Bool.or_eq_false_iff.1 (h.stops c hc)).1

theorem eq_of_plus_append {plus plus' digits digits' : List Char} (hplus : plus = [] ∨ plus = ['+'])
    (hplus' : plus' = [] ∨ plus' = ['+']) (h : Digits digits) (h' : Digits digits')
    (happend : plus ++ digits = plus' ++ digits') : digits = digits' := by
  rcases hplus with rfl | rfl <;> rcases hplus' with rfl | rfl
  · exact happend
  · obtain rfl : digits = '+' :: digits' := happend
    exact absurd h (Digits.not_cons rfl)
  · obtain rfl : '+' :: digits = digits' := happend
    exact absurd h' (Digits.not_cons rfl)
  · exact List.append_cancel_left happend

theorem plus_append_ne_minus {plus digits digits' : List Char} (hplus : plus = [] ∨ plus = ['+'])
    (h : Digits digits) : plus ++ digits ≠ '-' :: digits' := by
  intro happend
  rcases hplus with rfl | rfl
  · obtain rfl : digits = '-' :: digits' := happend
    exact absurd h (Digits.not_cons rfl)
  · cases happend

theorem Exponent.unique {cs : List Char} {n n' : Int} (h : Exponent cs n) (h' : Exponent cs n') :
    n = n' := by
  generalize hcs : cs = cs' at h'
  cases h with
  | none => cases h' with
    | none => rfl
    | positive | negative => cases hcs
  | positive _ hplus hdigits => cases h' with
    | none => cases hcs
    | positive _ hplus' hdigits' =>
      rw [eq_of_plus_append hplus hplus' hdigits hdigits' (List.cons.inj hcs).2]
    | negative => exact absurd (List.cons.inj hcs).2 (plus_append_ne_minus hplus hdigits)
  | negative => cases h' with
    | none => cases hcs
    | positive _ hplus' hdigits' =>
      exact absurd (List.cons.inj hcs).2.symm (plus_append_ne_minus hplus' hdigits')
    | negative => rw [(List.cons.inj (List.cons.inj hcs).2).2]

/-- A fraction is determined by the text in front of an exponent. -/
theorem Fraction.unique {cs cs' digits digits' rest rest' : List Char} {n n' : Int}
    (h : Fraction cs digits) (h' : Fraction cs' digits') (hrest : Exponent rest n)
    (hrest' : Exponent rest' n') (happend : cs ++ rest = cs' ++ rest') :
    digits = digits' ∧ rest = rest' := by
  cases h with
  | none => cases h' with
    | none => exact ⟨rfl, happend⟩
    | some =>
      obtain rfl : rest = _ := happend
      cases stops_cons.1 hrest.stops
  | some hdigits => cases h' with
    | none =>
      obtain rfl : _ = rest' := happend
      cases stops_cons.1 hrest'.stops
    | some hdigits' =>
      exact append_inj_of_run hdigits.2 hdigits'.2 hrest.stops_isDigit hrest'.stops_isDigit
        (List.cons.inj happend).2

theorem Fraction.stops {cs digits rest : List Char} (h : Fraction cs digits)
    (hrest : Stops Char.isDigit rest) : Stops Char.isDigit (cs ++ rest) := by
  cases h with
  | none => exact hrest
  | some => exact stops_cons.2 rfl

theorem Magnitude.unique {cs : List Char} {q q' : Rat} (h : Magnitude cs q)
    (h' : Magnitude cs q') : q = q' := by
  generalize hcs : cs = cs' at h'
  obtain ⟨hwhole, hfraction, hexponent⟩ := h
  obtain ⟨hwhole', hfraction', hexponent'⟩ := h'
  rw [List.append_assoc, List.append_assoc] at hcs
  obtain ⟨rfl, htail⟩ := append_inj_of_run hwhole.1.2 hwhole'.1.2
    (hfraction.stops hexponent.stops_isDigit) (hfraction'.stops hexponent'.stops_isDigit) hcs
  obtain ⟨rfl, rfl⟩ := hfraction.unique hfraction' hexponent hexponent' htail
  rw [hexponent.unique hexponent']

theorem Magnitude.head {cs : List Char} {q : Rat} (h : Magnitude cs q) :
    ∃ c tail, cs = c :: tail ∧ c.isDigit := by
  obtain ⟨hwhole, -, -⟩ := h
  obtain ⟨c, tail, rfl, hc⟩ := hwhole.1.head
  exact ⟨c, _, rfl, hc⟩

theorem Digits.isNumeralChar {cs : List Char} (h : Digits cs) : ∀ c ∈ cs, isNumeralChar c :=
  fun c hc => isNumeralChar_of_isDigit (h.2 c hc)

theorem Fraction.isNumeralChar {cs digits : List Char} (h : Fraction cs digits) :
    ∀ c ∈ cs, isNumeralChar c := by
  cases h with
  | none => nofun
  | some h => exact List.forall_mem_cons.2 ⟨rfl, h.isNumeralChar⟩

theorem Exponent.isNumeralChar {cs : List Char} {n : Int} (h : Exponent cs n) :
    ∀ c ∈ cs, isNumeralChar c := by
  cases h with
  | none => nofun
  | positive he hplus h =>
    rcases he with rfl | rfl <;> rcases hplus with rfl | rfl <;>
      simpa [Json.isNumeralChar] using h.isNumeralChar
  | negative he h =>
    rcases he with rfl | rfl <;> simpa [Json.isNumeralChar] using h.isNumeralChar

theorem Magnitude.isNumeralChar {cs : List Char} {q : Rat} (h : Magnitude cs q) :
    ∀ c ∈ cs, isNumeralChar c := by
  obtain ⟨hwhole, hfraction, hexponent⟩ := h
  exact List.forall_mem_append.2 ⟨List.forall_mem_append.2
    ⟨hwhole.1.isNumeralChar, hfraction.isNumeralChar⟩, hexponent.isNumeralChar⟩

theorem Numeral.isNumeralChar {cs : List Char} {q : Rat} (h : Numeral cs q) :
    ∀ c ∈ cs, isNumeralChar c := by
  cases h with
  | positive h => exact h.isNumeralChar
  | negative h => exact List.forall_mem_cons.2 ⟨rfl, h.isNumeralChar⟩

theorem Numeral.unique {cs : List Char} {q q' : Rat} (h : Numeral cs q) (h' : Numeral cs q') :
    q = q' := by
  generalize hcs : cs = cs' at h'
  cases h with
  | positive h => cases h' with
    | positive h' =>
      subst hcs
      exact h.unique h'
    | negative h' =>
      obtain ⟨c, tail, rfl, hc⟩ := h.head
      cases hcs
      cases hc
  | negative h => cases h' with
    | positive h' =>
      obtain ⟨c, tail, rfl, hc⟩ := h'.head
      cases hcs
      cases hc
    | negative h' =>
      obtain rfl := (List.cons.inj hcs).2
      rw [h.unique h']

/-- A numeral is determined in front of a text that begins with no character of numerals. -/
theorem Numeral.determined {cs cs' rest rest' : List Char} {q q' : Rat} (h : Numeral cs q)
    (h' : Numeral cs' q') (hrest : Stops Json.isNumeralChar rest)
    (hrest' : Stops Json.isNumeralChar rest') (happend : cs ++ rest = cs' ++ rest') :
    cs = cs' ∧ q = q' ∧ rest = rest' := by
  obtain ⟨rfl, rfl⟩ :=
    append_inj_of_run h.isNumeralChar h'.isNumeralChar hrest hrest' happend
  exact ⟨rfl, h.unique h', rfl⟩

/-! ## Strings -/

theorem length_of_codeUnit? {digits : List Char} {n : Nat} (h : codeUnit? digits = some n) :
    digits.length = 4 := by
  unfold codeUnit? at h
  split at h
  · rfl
  · cases h

/-- Two code units are determined by their length. -/
theorem codeUnit?_determined {digits digits' rest rest' : List Char} {n n' : Nat}
    (h : codeUnit? digits = some n) (h' : codeUnit? digits' = some n')
    (happend : digits ++ rest = digits' ++ rest') : n = n' ∧ rest = rest' := by
  have hlength : digits.length = digits'.length := by
    rw [length_of_codeUnit? h, length_of_codeUnit? h']
  obtain ⟨rfl, rfl⟩ := List.append_inj happend hlength
  exact ⟨Option.some.inj (h.symm.trans h'), rfl⟩

/-- No character is half of a surrogate pair. -/
theorem toNat_not_surrogate (c : Char) : ¬ (0xD800 ≤ c.toNat ∧ c.toNat < 0xE000) := by
  have hvalid : c.toNat < 0xD800 ∨ (0xDFFF < c.toNat ∧ c.toNat < 0x110000) := c.valid
  omega

theorem letter_ne_u {l c : Char} (h : unescape? l = some c) : l ≠ 'u' := by
  rintro rfl
  cases h

/-- The texts of characters are a prefix code. -/
theorem SpellsChar.determined {cs cs' rest rest' : List Char} {c c' : Char} (h : SpellsChar cs c)
    (h' : SpellsChar cs' c') (happend : cs ++ rest = cs' ++ rest') : c = c' ∧ rest = rest' := by
  cases h with
  | plain _ hbackslash => cases h' with
    | plain => exact List.cons.inj happend
    | letter | unit | pair => exact absurd (List.cons.inj happend).1 hbackslash
  | letter h => cases h' with
    | plain _ hbackslash => exact absurd (List.cons.inj happend).1.symm hbackslash
    | letter h' =>
      obtain ⟨rfl, hrest⟩ := List.cons.inj (List.cons.inj happend).2
      exact ⟨Option.some.inj (h.symm.trans h'), hrest⟩
    | unit | pair => exact absurd (List.cons.inj (List.cons.inj happend).2).1 (letter_ne_u h)
  | unit h => cases h' with
    | plain _ hbackslash => exact absurd (List.cons.inj happend).1.symm hbackslash
    | letter h' => exact absurd (List.cons.inj (List.cons.inj happend).2).1.symm (letter_ne_u h')
    | unit h' =>
      obtain ⟨hc, hrest⟩ := codeUnit?_determined h h' (List.cons.inj (List.cons.inj happend).2).2
      exact ⟨Char.toNat_inj.1 hc, hrest⟩
    | pair h' _ hhigh =>
      -- The first half of a pair would be a character of its own.
      simp only [List.cons_append, List.append_assoc, List.cons.injEq, true_and] at happend
      obtain ⟨rfl, -⟩ := codeUnit?_determined h' h happend.symm
      exact absurd ⟨hhigh.1, by omega⟩ (toNat_not_surrogate _)
  | pair h hlow' hhigh _ hc => cases h' with
    | plain _ hbackslash => exact absurd (List.cons.inj happend).1.symm hbackslash
    | letter h' => exact absurd (List.cons.inj (List.cons.inj happend).2).1.symm (letter_ne_u h')
    | unit h' =>
      simp only [List.cons_append, List.append_assoc, List.cons.injEq, true_and] at happend
      obtain ⟨rfl, -⟩ := codeUnit?_determined h h' happend
      exact absurd ⟨hhigh.1, by omega⟩ (toNat_not_surrogate _)
    | pair h' hlow'' _ _ hc' =>
      simp only [List.cons_append, List.append_assoc, List.cons.injEq, true_and] at happend
      obtain ⟨rfl, htail⟩ := codeUnit?_determined h h' happend
      obtain ⟨rfl, hrest⟩ := codeUnit?_determined hlow' hlow''
        (List.cons.inj (List.cons.inj htail).2).2
      exact ⟨Char.toNat_inj.1 (hc.trans hc'.symm), hrest⟩

/-- The quote that ends a string is no text of a character. -/
theorem SpellsChar.head {cs : List Char} {c : Char} (h : SpellsChar cs c) :
    ∃ d tail, cs = d :: tail ∧ d ≠ '"' := by
  cases h with
  | plain hquote => exact ⟨_, [], rfl, hquote⟩
  | letter | unit | pair => exact ⟨'\\', _, rfl, by decide⟩

theorem forall₂_spellsChar_determined {units units' : List (List Char)}
    {cs cs' rest rest' : List Char}
    (h : List.Forall₂ SpellsChar units cs) (h' : List.Forall₂ SpellsChar units' cs')
    (happend : units.flatten ++ '"' :: rest = units'.flatten ++ '"' :: rest') :
    cs = cs' ∧ rest = rest' := by
  induction h generalizing units' cs' with
  | nil => cases h' with
    | nil => exact ⟨rfl, (List.cons.inj happend).2⟩
    | cons hc' _ =>
      obtain ⟨d, tail, rfl, hd⟩ := hc'.head
      exact absurd (List.cons.inj happend).1.symm hd
  | cons hc _ ih => cases h' with
    | nil =>
      obtain ⟨d, tail, rfl, hd⟩ := hc.head
      exact absurd (List.cons.inj happend).1 hd
    | cons hc' h' =>
      simp only [List.flatten_cons, List.append_assoc] at happend
      obtain ⟨rfl, htail⟩ := hc.determined hc' happend
      obtain ⟨rfl, hrest⟩ := ih h' htail
      exact ⟨rfl, hrest⟩

/-- A string is determined by any text behind it. -/
theorem SpellsString.determined {cs cs' rest rest' : List Char} {s s' : String}
    (h : SpellsString cs s) (h' : SpellsString cs' s') (happend : cs ++ rest = cs' ++ rest') :
    cs = cs' ∧ s = s' ∧ rest = rest' := by
  obtain ⟨h⟩ := h
  obtain ⟨h'⟩ := h'
  have htail := (List.cons.inj happend).2
  simp only [List.append_eq, List.append_assoc, List.singleton_append] at htail
  obtain ⟨hs, rfl⟩ := forall₂_spellsChar_determined h h' htail
  exact ⟨List.append_cancel_right happend, String.toList_inj.1 hs, rfl⟩

end LinkageAudit.Json

import LinkageAudit.Proofs.Json.Scalars

/-!
# JSON texts are unambiguous

* `Json.Determined`: in front of a rest that is not taken for a part of it, a text and what it
  stands for are determined.
* `Json.Padded.determined`, `Json.Member.determined`, `Json.Listed.determined`: padding, members and
  lists of what is determined are determined.
* `Json.Spells.determined`: values are determined, by induction on the length of the text.
* `Json.IsText.unique`: a text stands for one value at most.
-/

namespace LinkageAudit.Json

section Tokens
variable {α : Type} {R : List Char → α → Prop} {n : Nat}

/-- Among the texts shorter than a bound, those with the relation are determined in front of
certain rests, and so is what they stand for. -/
def Determined (follow : List Char → Prop) (R : List Char → α → Prop) (n : Nat) : Prop :=
  ∀ ⦃cs cs' rest rest' : List Char⦄ ⦃a a' : α⦄, cs.length < n → R cs a → R cs' a' →
    follow rest → follow rest' → cs ++ rest = cs' ++ rest' → cs = cs' ∧ a = a' ∧ rest = rest'

/-- The characters that end an item. -/
def isDelimiter (c : Char) : Bool := c = ',' || c = ':' || c = ']' || c = '\x7d'

/-- Nothing, or a text that begins with the end of an item. -/
def Delimited (cs : List Char) : Prop := ∀ c ∈ cs.head?, isDelimiter c

@[simp] theorem delimited_nil : Delimited [] := nofun

@[simp] theorem delimited_cons {c : Char} {cs : List Char} :
    Delimited (c :: cs) ↔ isDelimiter c := by
  simp [Delimited]

/-- The text begins with a token of its own. -/
def Solid (cs : List Char) : Prop :=
  ∃ c tail, cs = c :: tail ∧ isBlank c = false ∧ isDelimiter c = false

theorem isBlank_of_isDelimiter {c : Char} (h : isDelimiter c) : isBlank c = false := by
  simp only [isDelimiter, Bool.or_eq_true, decide_eq_true_eq] at h
  rcases h with ((rfl | rfl) | rfl) | rfl <;> rfl

theorem isNumeralChar_of_isDelimiter {c : Char} (h : isDelimiter c) : isNumeralChar c = false := by
  simp only [isDelimiter, Bool.or_eq_true, decide_eq_true_eq] at h
  rcases h with ((rfl | rfl) | rfl) | rfl <;> rfl

theorem isNumeralChar_of_isBlank {c : Char} (h : isBlank c) : isNumeralChar c = false := by
  simp only [isBlank, Bool.or_eq_true, decide_eq_true_eq] at h
  rcases h with ((rfl | rfl) | rfl) | rfl <;> rfl

theorem Delimited.stops_isBlank {cs : List Char} (h : Delimited cs) : Stops isBlank cs :=
  fun c hc => isBlank_of_isDelimiter (h c hc)

theorem Delimited.stops_isNumeralChar {blanks cs : List Char} (h : Delimited cs)
    (hblanks : Blank blanks) : Stops isNumeralChar (blanks ++ cs) := by
  cases blanks with
  | nil => exact fun c hc => isNumeralChar_of_isDelimiter (h c hc)
  | cons c blanks => exact stops_cons.2 (isNumeralChar_of_isBlank (hblanks c List.mem_cons_self))

theorem Solid.stops_isBlank {cs rest : List Char} (h : Solid cs) : Stops isBlank (cs ++ rest) := by
  obtain ⟨c, tail, rfl, hc, -⟩ := h
  exact stops_cons.2 hc

/-! ## Padding, members and lists -/

theorem Padded.determined (hR : Determined (Stops isNumeralChar) R n)
    (hsolid : ∀ {cs a}, R cs a → Solid cs) : Determined Delimited (Padded R) n := by
  rintro _ _ rest rest' a a' hlength ⟨hbefore, h, hafter⟩ ⟨hbefore', h', hafter'⟩ hrest hrest'
    happend
  simp only [List.append_assoc] at happend
  obtain ⟨rfl, hcore⟩ := append_inj_of_run hbefore hbefore' (hsolid h).stops_isBlank
    (hsolid h').stops_isBlank happend
  simp only [List.length_append] at hlength
  obtain ⟨rfl, rfl, htail⟩ := hR (by omega) h h' (hrest.stops_isNumeralChar hafter)
    (hrest'.stops_isNumeralChar hafter') hcore
  obtain ⟨rfl, rfl⟩ := append_inj_of_run hafter hafter' hrest.stops_isBlank hrest'.stops_isBlank
    htail
  exact ⟨rfl, rfl, rfl⟩

theorem solid_of_spellsString {cs : List Char} {s : String} (h : SpellsString cs s) : Solid cs := by
  cases h
  exact ⟨'"', _, rfl, rfl, rfl⟩

theorem Member.determined (hR : Determined (Stops isNumeralChar) R n)
    (hsolid : ∀ {cs a}, R cs a → Solid cs) : Determined Delimited (Member R) n := by
  rintro _ _ rest rest' _ _ hlength ⟨hname, h⟩ ⟨hname', h'⟩ hrest hrest' happend
  have hnames : Determined (Stops isNumeralChar) SpellsString n :=
    fun _ _ _ _ _ _ _ h h' _ _ happend => h.determined h' happend
  simp only [List.append_assoc, List.cons_append] at happend
  simp only [List.length_append, List.length_cons] at hlength
  obtain ⟨rfl, rfl, htail⟩ := Padded.determined hnames solid_of_spellsString (by omega) hname hname'
    (delimited_cons.2 rfl) (delimited_cons.2 rfl) happend
  obtain ⟨rfl, rfl, rfl⟩ := Padded.determined hR hsolid (by omega) h h' hrest hrest'
    (List.cons.inj htail).2
  exact ⟨rfl, rfl, rfl⟩

/-- A text that has a token, after blanks. -/
def Begun (cs : List Char) : Prop := ∃ blanks core, Blank blanks ∧ Solid core ∧ cs = blanks ++ core

theorem Solid.append {cs : List Char} (h : Solid cs) (rest : List Char) : Solid (cs ++ rest) := by
  obtain ⟨c, tail, rfl, hc⟩ := h
  exact ⟨c, tail ++ rest, rfl, hc⟩

theorem Begun.append {cs : List Char} (h : Begun cs) (rest : List Char) : Begun (cs ++ rest) := by
  obtain ⟨blanks, core, hblanks, hsolid, rfl⟩ := h
  exact ⟨blanks, core ++ rest, hblanks, hsolid.append rest, List.append_assoc ..⟩

theorem Padded.begun (hsolid : ∀ {cs a}, R cs a → Solid cs) {cs : List Char} {a : α}
    (h : Padded R cs a) : Begun cs := by
  obtain ⟨hbefore, h, -⟩ := h
  exact .append ⟨_, _, hbefore, hsolid h, rfl⟩ _

theorem Member.begun {cs : List Char} {member : String × α} (h : Member R cs member) :
    Begun cs := by
  obtain ⟨hname, -⟩ := h
  exact (hname.begun solid_of_spellsString).append _

theorem begun_intercalate (hbegun : ∀ {cs a}, R cs a → Begun cs) {texts : List (List Char)}
    {as : List α} (h : List.Forall₂ R texts as) (hne : texts ≠ []) :
    Begun ([','].intercalate texts) := by
  cases h with
  | nil => exact absurd rfl hne
  | cons ht hts => cases hts with
    | nil => exact List.intercalate_singleton ▸ hbegun ht
    | cons =>
      rw [List.intercalate_cons_cons, List.append_assoc]
      exact (hbegun ht).append _

/-- Behind the opening bracket there are either only blanks or a token. -/
theorem Begun.append_ne {cs blanks rest rest' : List Char} {close : Char} (h : Begun cs)
    (hblanks : Blank blanks) (hclose : isDelimiter close) :
    cs ++ rest ≠ blanks ++ close :: rest' := by
  intro happend
  obtain ⟨blanks', core, hblanks', hsolid, rfl⟩ := h
  rw [List.append_assoc] at happend
  obtain ⟨-, htail⟩ := append_inj_of_run hblanks' hblanks hsolid.stops_isBlank
    (stops_cons.2 (isBlank_of_isDelimiter hclose)) happend
  obtain ⟨c, tail, rfl, -, hc⟩ := hsolid
  rw [(List.cons.inj htail).1, hclose] at hc
  cases hc

variable {close : Char} {rest rest' : List Char}

/-- The items of a list are determined one after the other: only the last one is not followed by a
comma. -/
theorem items_determined (hR : Determined Delimited R n) (hclose : isDelimiter close)
    (hcomma : close ≠ ',') {texts texts' : List (List Char)} {as as' : List α}
    (h : List.Forall₂ R texts as) (h' : List.Forall₂ R texts' as') (hne : texts ≠ [])
    (hne' : texts' ≠ []) (hlength : ([','].intercalate texts).length < n)
    (happend : [','].intercalate texts ++ close :: rest =
      [','].intercalate texts' ++ close :: rest') :
    texts = texts' ∧ as = as' ∧ rest = rest' := by
  have hdelimited {c : Char} {cs : List Char} (hc : isDelimiter c) : Delimited (c :: cs) :=
    delimited_cons.2 hc
  induction h generalizing texts' as' with
  | nil => exact absurd rfl hne
  | cons ht hts ih => cases h' with
    | nil => exact absurd rfl hne'
    | cons ht' hts' => cases hts with
      | nil => cases hts' with
        | nil =>
          simp only [List.intercalate_singleton] at hlength happend
          obtain ⟨rfl, rfl, htail⟩ :=
            hR hlength ht ht' (hdelimited hclose) (hdelimited hclose) happend
          exact ⟨rfl, rfl, (List.cons.inj htail).2⟩
        | cons =>
          -- One list ends where the other goes on.
          simp only [List.intercalate_singleton, List.intercalate_cons_cons, List.append_assoc]
            at hlength happend
          obtain ⟨-, -, htail⟩ := hR hlength ht ht' (hdelimited hclose) (hdelimited rfl) happend
          exact absurd (List.cons.inj htail).1 hcomma
      | cons ht₂ hts => cases hts' with
        | nil =>
          simp only [List.intercalate_singleton, List.intercalate_cons_cons, List.append_assoc,
            List.length_append] at hlength happend
          obtain ⟨-, -, htail⟩ :=
            hR (by omega) ht ht' (hdelimited rfl) (hdelimited hclose) happend
          exact absurd (List.cons.inj htail).1.symm hcomma
        | cons ht₂' hts' =>
          simp only [List.intercalate_cons_cons, List.append_assoc, List.length_append]
            at hlength happend
          obtain ⟨rfl, rfl, htail⟩ :=
            hR (by omega) ht ht' (hdelimited rfl) (hdelimited rfl) happend
          obtain ⟨htexts, has, hrest⟩ := ih (.cons ht₂' hts') (List.cons_ne_nil _ _)
            (List.cons_ne_nil _ _) (by omega) (List.cons.inj htail).2
          exact ⟨congrArg _ htexts, congrArg _ has, hrest⟩

theorem Listed.determined (hR : Determined Delimited R n) (hbegun : ∀ {cs a}, R cs a → Begun cs)
    (hclose : isDelimiter close) (hcomma : close ≠ ',') {cs cs' : List Char} {as as' : List α}
    (h : Listed R cs as) (h' : Listed R cs' as') (hlength : cs.length < n)
    (happend : cs ++ close :: rest = cs' ++ close :: rest') :
    cs = cs' ∧ as = as' ∧ rest = rest' := by
  have hstops {rest : List Char} : Stops isBlank (close :: rest) :=
    stops_cons.2 (isBlank_of_isDelimiter hclose)
  cases h with
  | blank hblank => cases h' with
    | blank hblank' =>
      obtain ⟨rfl, htail⟩ := append_inj_of_run hblank hblank' hstops hstops happend
      exact ⟨rfl, rfl, (List.cons.inj htail).2⟩
    | items hne' h' =>
      exact absurd happend.symm ((begun_intercalate hbegun h' hne').append_ne hblank hclose)
  | items hne h => cases h' with
    | blank hblank' =>
      exact absurd happend ((begun_intercalate hbegun h hne).append_ne hblank' hclose)
    | items hne' h' =>
      obtain ⟨rfl, rfl, hrest⟩ := items_determined hR hclose hcomma h h' hne hne' hlength happend
      exact ⟨rfl, rfl, hrest⟩

theorem Listed.bracketed_determined (hR : Determined Delimited R n)
    (hbegun : ∀ {cs a}, R cs a → Begun cs) {opening : Char} (hclose : isDelimiter close)
    (hcomma : close ≠ ',') {cs cs' : List Char} {as as' : List α} (h : Listed R cs as)
    (h' : Listed R cs' as') (hlength : (opening :: cs ++ [close]).length < n + 1)
    (happend : (opening :: cs ++ [close]) ++ rest = (opening :: cs' ++ [close]) ++ rest') :
    cs = cs' ∧ as = as' ∧ rest = rest' := by
  simp only [List.cons_append, List.append_assoc, List.nil_append, List.cons.injEq, true_and]
    at happend
  simp only [List.length_append, List.length_cons, List.length_nil] at hlength
  exact h.determined hR hbegun hclose hcomma h' (by omega) happend

end Tokens

/-! ## Values -/

/-- What the first character of a value says about it. -/
inductive Kind where
  | null
  | bool
  | number
  | string
  | array
  | object

/-- The kind of a value. -/
def Value.kind : Value → Kind
  | null => .null
  | bool _ => .bool
  | number _ => .number
  | string _ => .string
  | array _ => .array
  | object _ => .object

/-- The kind of value that a character announces. -/
def announced (c : Char) : Kind :=
  if c = 'n' then .null
  else if c = 't' ∨ c = 'f' then .bool
  else if c = '"' then .string
  else if c = '[' then .array
  else if c = '\x7b' then .object
  else .number

theorem announced_of_isNumeralChar {c : Char} (h : isNumeralChar c) : announced c = .number := by
  have hne {d : Char} (hd : isNumeralChar d = false) : c ≠ d := by
    rintro rfl
    rw [h] at hd
    cases hd
  simp only [announced, hne (d := 'n') rfl, hne (d := 't') rfl, hne (d := 'f') rfl,
    hne (d := '"') rfl, hne (d := '[') rfl, hne (d := '\x7b') rfl, or_self, if_false]

/-- A value begins with a token, which announces its kind. -/
theorem Spells.head {cs : List Char} {v : Value} (h : Spells cs v) :
    ∃ c tail, cs = c :: tail ∧ announced c = v.kind ∧ isBlank c = false ∧
      isDelimiter c = false := by
  cases h with
  | null | boolTrue | boolFalse => exact ⟨_, _, rfl, rfl, rfl, rfl⟩
  | number h =>
    cases cs with
    | nil => cases h with
      | positive h =>
        obtain ⟨c, tail, hcs, -⟩ := h.head
        cases hcs
    | cons c tail =>
      have hc : isNumeralChar c := h.isNumeralChar c List.mem_cons_self
      refine ⟨c, tail, rfl, announced_of_isNumeralChar hc, ?_, ?_⟩
      · exact Bool.eq_false_iff.2 fun hblank => by simp [isNumeralChar_of_isBlank hblank] at hc
      · exact Bool.eq_false_iff.2 fun hdelimiter => by
          simp [isNumeralChar_of_isDelimiter hdelimiter] at hc
  | string h =>
    cases h
    exact ⟨'"', _, rfl, rfl, rfl, rfl⟩
  | array => exact ⟨'[', _, rfl, rfl, rfl, rfl⟩
  | object => exact ⟨'\x7b', _, rfl, rfl, rfl, rfl⟩

theorem Spells.solid {cs : List Char} {v : Value} (h : Spells cs v) : Solid cs := by
  obtain ⟨c, tail, rfl, -, hc⟩ := h.head
  exact ⟨c, tail, rfl, hc⟩

theorem Spells.kind_eq {cs cs' rest rest' : List Char} {v v' : Value} (h : Spells cs v)
    (h' : Spells cs' v') (happend : cs ++ rest = cs' ++ rest') : v.kind = v'.kind := by
  obtain ⟨c, tail, rfl, hc, -⟩ := h.head
  obtain ⟨c', tail', rfl, hc', -⟩ := h'.head
  rw [← hc, ← hc', (List.cons.inj happend).1]

/-- Values are determined. The induction is on the bound: the items of a value are shorter than the
value. -/
theorem Spells.determined (n : Nat) : Determined (Stops isNumeralChar) Spells n := by
  induction n with
  | zero => exact fun _ _ _ _ _ _ hlength => absurd hlength (Nat.not_lt_zero _)
  | succ n ih =>
    have hitems : Determined Delimited (Padded Spells) n := Padded.determined ih Spells.solid
    have hmembers : Determined Delimited (Member Spells) n := Member.determined ih Spells.solid
    intro cs cs' rest rest' v v' hlength h h' hrest hrest' happend
    have hkind := h.kind_eq h' happend
    cases h with
    | null => cases v' with
      | null =>
        cases h'
        exact ⟨rfl, rfl, List.append_cancel_left happend⟩
      | _ => cases hkind
    | boolTrue => cases v' with
      | bool => cases h' with
        | boolTrue => exact ⟨rfl, rfl, List.append_cancel_left happend⟩
        | boolFalse => cases happend
      | _ => cases hkind
    | boolFalse => cases v' with
      | bool => cases h' with
        | boolTrue => cases happend
        | boolFalse => exact ⟨rfl, rfl, List.append_cancel_left happend⟩
      | _ => cases hkind
    | number h => cases v' with
      | number => cases h' with
        | number h' =>
          obtain ⟨rfl, rfl, htail⟩ := h.determined h' hrest hrest' happend
          exact ⟨rfl, rfl, htail⟩
      | _ => cases hkind
    | string h => cases v' with
      | string => cases h' with
        | string h' =>
          obtain ⟨rfl, rfl, htail⟩ := h.determined h' happend
          exact ⟨rfl, rfl, htail⟩
      | _ => cases hkind
    | array h => cases v' with
      | array => cases h' with
        | array h' =>
          obtain ⟨rfl, rfl, htail⟩ := h.bracketed_determined hitems (Padded.begun Spells.solid) rfl
            (by decide) h' hlength happend
          exact ⟨rfl, rfl, htail⟩
      | _ => cases hkind
    | object h => cases v' with
      | object => cases h' with
        | object h' =>
          obtain ⟨rfl, rfl, htail⟩ := h.bracketed_determined hmembers Member.begun rfl
            (by decide) h' hlength happend
          exact ⟨rfl, rfl, htail⟩
      | _ => cases hkind

/-- A text stands for one value at most. -/
theorem IsText.unique {cs : List Char} {v v' : Value} (h : IsText cs v) (h' : IsText cs v') :
    v = v' :=
  (Padded.determined (Spells.determined _) Spells.solid (Nat.lt_succ_self _) h h' delimited_nil
    delimited_nil rfl).2.1

end LinkageAudit.Json

import LinkageAudit.Proofs.Json.Unambiguous

/-!
# Printed values are JSON texts

* `Json.value`: what a value stands for as JSON.
* `Json.spellsChar_escape`, `Json.numeral_toDigits`: what the writer makes of characters and numbers
  is in the grammar.
* `Json.spells_render`: the text of a value spells it.
* `Json.isText_iff`: with a newline behind it, it is the text of that value and of no other.
-/

namespace LinkageAudit.Json

mutual

/-- What a value stands for. -/
def value : Json → Value
  | bool b => .bool b
  | number n => .number n
  | string s => .string s
  | array items => .array (values items)
  | object fields => .object (members fields)

/-- What the items of an array stand for. -/
def values : List Json → List Value
  | [] => []
  | v :: vs => value v :: values vs

/-- What the fields of an object stand for. -/
def members : List (String × Json) → List (String × Value)
  | [] => []
  | (key, v) :: fields => (key, value v) :: members fields

end

theorem values_eq_map (vs : List Json) : values vs = vs.map value := by
  induction vs with
  | nil => rfl
  | cons v vs ih => rw [values, ih, List.map_cons]

/-! ## Characters and strings -/

theorem codeUnit?_control :
    ∀ n < 0x20, codeUnit? ['0', '0', Nat.digitChar (n / 16), Nat.digitChar (n % 16)] = some n := by
  decide

theorem spellsChar_escape (c : Char) : SpellsChar (escape c) c := by
  unfold escape
  split
  · subst c; exact .letter rfl
  split
  · subst c; exact .letter rfl
  split
  · subst c; exact .letter rfl
  split
  · subst c; exact .letter rfl
  split
  · subst c; exact .letter rfl
  split
  · subst c; exact .letter rfl
  split
  · subst c; exact .letter rfl
  split
  · next hcontrol => exact .unit (codeUnit?_control c.toNat hcontrol)
  · next hquote hbackslash _ _ _ _ _ hcontrol =>
    exact .plain hquote hbackslash (Nat.le_of_not_lt hcontrol)

theorem forall₂_escape (cs : List Char) : List.Forall₂ SpellsChar (cs.map escape) cs := by
  induction cs with
  | nil => exact .nil
  | cons c cs ih => exact .cons (spellsChar_escape c) ih

theorem spellsString_quote (s : String) : SpellsString (quote s) s := by
  rw [quote, List.flatMap_def]
  exact .intro (forall₂_escape s.toList)

example : quote "a\"\n\x01é" = "\"a\\\"\\n\\u0001é\"".toList := by decide

/-! ## Numbers -/

/-- Only zero is written with a zero in front. -/
theorem eq_zero_of_head?_toDigits (n : Nat) (h : (Nat.toDigits 10 n).head? = some '0') : n = 0 := by
  induction n using Nat.strongRecOn with
  | ind n ih =>
    rcases Nat.lt_or_ge n 10 with hn | hn
    · rw [Nat.toDigits_of_lt_base hn] at h
      exact Nat.digitChar_eq_zero.1 (Option.some.inj h)
    · rw [Nat.toDigits_of_base_le (by decide) hn, List.head?_append_of_ne_nil _ Nat.toDigits_ne_nil]
        at h
      have hzero : n / 10 = 0 := ih (n / 10) (by omega) h
      omega

theorem numeral_toDigits (n : Nat) : Numeral (Nat.toDigits 10 n) n := by
  have hwhole : Whole (Nat.toDigits 10 n) := by
    refine ⟨⟨Nat.toDigits_ne_nil, fun c hc =>
      Nat.isDigit_of_mem_toDigits (by decide) (by decide) hc⟩, fun h => ?_⟩
    rw [eq_zero_of_head?_toDigits n h]
    rfl
  have hmagnitude := Magnitude.intro hwhole .none .none
  have hvalue : (n : Rat) * (10 : Rat) ^ ((0 : Int) - (0 : Nat)) = n := by simp
  rw [List.append_nil, List.append_nil, count, Nat.ofDigitChars_ten_toDigits, List.length_nil,
    hvalue] at hmagnitude
  exact .positive hmagnitude

/-! ## Lists -/

section Lists
variable {α : Type} {R : List Char → α → Prop}

theorem blank_nil : Blank [] := nofun

theorem blank_append {cs cs' : List Char} (h : Blank cs) (h' : Blank cs') : Blank (cs ++ cs') :=
  List.forall_mem_append.2 ⟨h, h'⟩

theorem blank_line (depth : Nat) : Blank ('\n' :: indentation depth) := by
  refine List.forall_mem_cons.2 ⟨rfl, fun c hc => ?_⟩
  rw [List.eq_of_mem_replicate hc]
  rfl

theorem Padded.of {cs : List Char} {a : α} (h : R cs a) : Padded R cs a := by
  have hpadded := Padded.intro blank_nil h blank_nil
  rwa [List.nil_append, List.append_nil] at hpadded

theorem Padded.space {cs : List Char} {a : α} (h : R cs a) : Padded R (' ' :: cs) a := by
  have hpadded := Padded.intro (List.forall_mem_singleton.2 rfl : Blank [' ']) h blank_nil
  rwa [List.append_nil] at hpadded

/-- Blanks around an item belong to it. -/
def Absorbs (R : List Char → α → Prop) : Prop :=
  ∀ {before cs after : List Char} {a : α}, Blank before → R cs a → Blank after →
    R (before ++ cs ++ after) a

theorem Padded.absorbs : Absorbs (Padded R) := by
  rintro before _ after a hbefore ⟨hbefore', h, hafter'⟩ hafter
  have hpadded := Padded.intro (blank_append hbefore hbefore') h (blank_append hafter' hafter)
  simpa only [List.append_assoc] using hpadded

theorem Member.absorbs : Absorbs (Member R) := by
  rintro before _ after _ hbefore ⟨hname, h⟩ hafter
  have hmember := Member.intro (Padded.absorbs hbefore hname blank_nil)
    (Padded.absorbs blank_nil h hafter)
  simpa using hmember

/-- Blanks behind the last item belong to it. -/
theorem exists_intercalate_append (hR : Absorbs R) {texts : List (List Char)} {as : List α}
    (h : List.Forall₂ R texts as) (hne : texts ≠ []) {blanks : List Char} (hblanks : Blank blanks) :
    ∃ texts' ≠ [], List.Forall₂ R texts' as ∧
      [','].intercalate texts' = [','].intercalate texts ++ blanks := by
  induction h with
  | nil => exact absurd rfl hne
  | @cons text a texts as ht hts ih => cases hts with
    | nil =>
      have hlast := hR blank_nil ht hblanks
      exact ⟨[text ++ blanks], List.cons_ne_nil _ _, .cons hlast .nil,
        by rw [List.intercalate_singleton, List.intercalate_singleton]⟩
    | cons ht₂ hts =>
      obtain ⟨texts', hne', hall, heq⟩ := ih (List.cons_ne_nil _ _)
      refine ⟨text :: texts', List.cons_ne_nil _ _, .cons ht hall, ?_⟩
      rw [List.intercalate_cons_of_ne_nil hne', heq, List.intercalate_cons_cons,
        List.append_assoc, List.append_assoc, List.append_assoc]

/-- A block is a list between brackets. -/
theorem exists_listed_block (hR : Absorbs R) {texts : List (List Char)} {as : List α}
    (h : List.Forall₂ R texts as) (opening closing : Char) (depth : Nat) :
    ∃ cs, block opening closing depth texts = opening :: cs ++ [closing] ∧ Listed R cs as := by
  unfold block
  cases h with
  | nil => exact ⟨[], rfl, .blank nofun⟩
  | @cons text a texts as ht hts =>
    have hlines : List.Forall₂ R
        ((text :: texts).map fun item => '\n' :: indentation (depth + 1) ++ item) (a :: as) := by
      refine List.forall₂_map_left_iff.2 (List.Forall₂.imp (fun item a h => ?_) (.cons ht hts))
      have hitem := hR (blank_line (depth + 1)) h blank_nil
      rwa [List.append_nil] at hitem
    -- The line break in front of the closing bracket goes to the last item.
    obtain ⟨texts', hne, hall, heq⟩ :=
      exists_intercalate_append hR hlines (List.cons_ne_nil _ _) (blank_line depth)
    refine ⟨[','].intercalate texts', ?_, .items hne hall⟩
    rw [heq]
    simp

end Lists

/-! ## Values -/

mutual

theorem spells_render (depth : Nat) : ∀ v : Json, Spells (v.render depth) v.value
  | bool true => .boolTrue
  | bool false => .boolFalse
  | number n => by
    rw [render, Nat.toString_eq_ofList_toDigits, String.toList_ofList]
    exact .number (numeral_toDigits n)
  | string s => .string (spellsString_quote s)
  | array items => by
    obtain ⟨cs, hblock, hlisted⟩ := exists_listed_block Padded.absorbs
      (forall₂_renderItems (depth + 1) items) '[' ']' depth
    rw [render, hblock]
    exact .array hlisted
  | object fields => by
    obtain ⟨cs, hblock, hlisted⟩ := exists_listed_block Member.absorbs
      (forall₂_renderFields (depth + 1) fields) '\x7b' '\x7d' depth
    rw [render, hblock]
    exact .object hlisted

theorem forall₂_renderItems (depth : Nat) :
    ∀ vs : List Json, List.Forall₂ (Padded Spells) (renderItems depth vs) (values vs)
  | [] => .nil
  | v :: vs => .cons (.of (spells_render depth v)) (forall₂_renderItems depth vs)

theorem forall₂_renderFields (depth : Nat) :
    ∀ fields : List (String × Json),
      List.Forall₂ (Member Spells) (renderFields depth fields) (members fields)
  | [] => .nil
  | (key, v) :: fields =>
    .cons (.intro (.of (spellsString_quote key)) (.space (spells_render depth v)))
      (forall₂_renderFields depth fields)

end

/-- A printed line is the text of its value and of no other. -/
theorem isText_iff (v : Json) (w : Value) : IsText (v.text ++ "\n").toList w ↔ w = v.value := by
  have htext : IsText (v.text ++ "\n").toList v.value := by
    rw [String.toList_append, text, String.toList_ofList]
    exact .intro blank_nil (spells_render 0 v) (List.forall_mem_singleton.2 rfl)
  constructor
  · exact fun h => h.unique htext
  · rintro rfl
    exact htext

end LinkageAudit.Json

import LinkageAudit.Proofs.Json.Scalars
import Mathlib.Algebra.GroupWithZero.Nat

/-!
# Lines of a text

A line ends in a newline and holds no other. What stands between two newlines of a text is a line of
it, whoever wrote the newlines.

* `unlines`: texts one after the other, a newline behind each.
* `MadeOfLines.unique`: a text is made of lines in one way at most.
* `lineCount_unlines`: texts that hold newlines give more lines than there are texts.
* `madeOfLines_unlines_iff`, `lineCount_unlines_eq_iff`: each text gives one line exactly if none of
  them holds a newline.
-/

namespace LinkageAudit

/-- Fits on one line. -/
def IsLine (text : String) : Prop := '\n' ∉ text.toList

instance (text : String) : Decidable (IsLine text) := inferInstanceAs (Decidable (_ ∉ _))

/-- Texts one after the other, a newline behind each. -/
def unlines (texts : List String) : String := String.join (texts.map (· ++ "\n"))

/-- The number of lines that a text has, if it ends in one. -/
def lineCount (text : String) : Nat := text.toList.count '\n'

/-- A text is made of lines: they stand one after the other, and each fits on a line. -/
structure MadeOfLines (text : String) (lines : List String) : Prop where
  text_eq : text = unlines lines
  isLine : ∀ line ∈ lines, IsLine line

theorem isLine_append_iff {text text' : String} :
    IsLine (text ++ text') ↔ IsLine text ∧ IsLine text' := by
  simp [IsLine]

theorem isLine_iff_count_eq_zero {text : String} : IsLine text ↔ text.toList.count '\n' = 0 :=
  List.count_eq_zero.symm

theorem unlines_cons (text : String) (texts : List String) :
    unlines (text :: texts) = text ++ "\n" ++ unlines texts := by
  rw [unlines, List.map_cons, String.join_cons]
  rfl

theorem toList_unlines_cons (text : String) (texts : List String) :
    (unlines (text :: texts)).toList = text.toList ++ '\n' :: (unlines texts).toList := by
  rw [unlines_cons, String.toList_append, String.toList_append, List.append_assoc]
  rfl

/-- The first newline shows where the first line ends. -/
theorem append_newline_inj {before before' after after' : List Char} (h : '\n' ∉ before)
    (h' : '\n' ∉ before') (heq : before ++ '\n' :: after = before' ++ '\n' :: after') :
    before = before' ∧ after = after' := by
  have hrun {cs : List Char} (hcs : '\n' ∉ cs) : ∀ c ∈ cs, (c != '\n') = true := by
    intro c hc
    rw [bne_iff_ne]
    rintro rfl
    exact hcs hc
  obtain ⟨hbefore, hrest⟩ := Json.append_inj_of_run (hrun h) (hrun h') (Json.stops_cons.2 rfl)
    (Json.stops_cons.2 rfl) heq
  exact ⟨hbefore, (List.cons.inj hrest).2⟩

theorem unlines_cons_ne_empty (text : String) (texts : List String) :
    unlines (text :: texts) ≠ "" := by
  intro h
  have hlist := congrArg String.toList h
  rw [toList_unlines_cons] at hlist
  simp at hlist

/-- The lines of a text are its own. -/
theorem MadeOfLines.unique {text : String} {lines lines' : List String}
    (h : MadeOfLines text lines) (h' : MadeOfLines text lines') : lines = lines' := by
  obtain ⟨rfl, hlines⟩ := h
  obtain ⟨heq, hlines'⟩ := h'
  induction lines generalizing lines' with
  | nil =>
    cases lines' with
    | nil => rfl
    | cons line' rest' => exact absurd heq.symm (unlines_cons_ne_empty line' rest')
  | cons line rest ih =>
    cases lines' with
    | nil => exact absurd heq (unlines_cons_ne_empty line rest)
    | cons line' rest' =>
      obtain ⟨hline, hrest⟩ := List.forall_mem_cons.1 hlines
      obtain ⟨hline', hrest'⟩ := List.forall_mem_cons.1 hlines'
      have hlist := congrArg String.toList heq
      rw [toList_unlines_cons, toList_unlines_cons] at hlist
      obtain ⟨hfirst, hbehind⟩ := append_newline_inj hline hline' hlist
      rw [String.toList_inj.1 hfirst, ih hrest (String.toList_inj.1 hbehind) hrest']

/-- Every newline ends a line, those inside a text as well. -/
theorem lineCount_unlines (texts : List String) :
    lineCount (unlines texts) = texts.length + (texts.map fun t => t.toList.count '\n').sum := by
  induction texts with
  | nil => rfl
  | cons text texts ih =>
    have hcount : lineCount (unlines (text :: texts)) =
        text.toList.count '\n' + (lineCount (unlines texts) + 1) := by
      rw [lineCount, toList_unlines_cons, List.count_append, List.count_cons_self]
      rfl
    rw [hcount, ih, List.length_cons, List.map_cons, List.sum_cons]
    omega

/-- Texts stand on one line each exactly if none of them holds a newline. -/
theorem madeOfLines_unlines_iff {texts : List String} :
    MadeOfLines (unlines texts) texts ↔ ∀ text ∈ texts, IsLine text :=
  ⟨fun h => h.isLine, fun h => ⟨rfl, h⟩⟩

theorem lineCount_unlines_eq_iff {texts : List String} :
    lineCount (unlines texts) = texts.length ↔ ∀ text ∈ texts, IsLine text := by
  simp only [lineCount_unlines, Nat.add_eq_left, List.sum_eq_zero_iff_forall_eq_nat,
    List.forall_mem_map, isLine_iff_count_eq_zero]

end LinkageAudit

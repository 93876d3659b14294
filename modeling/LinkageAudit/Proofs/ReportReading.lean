import LinkageAudit.Proofs.ReportLines

/-!
# Reading text reports back

Text reports are kept and compared between builds, so a text should not stand for two reports. What
a line says is set off by fixed texts only: the message, `": "` between a path and a name, a space
between two names. The paths and names themselves may hold colons and spaces. A line can be read
back as long as no path holds the whole separator and no listed name holds a space.

* `append_inj_of_prefixFree`: fixed texts of which none begins another can be told apart.
* `Violation.eq_of_line_eq`, `Listing.eq_of_line_eq`: what a line of either sort says.
* `Listing.line_ne_line`: the two sorts of lines are never mistaken for each other.
* `text_reports_read_back`: reports with the same text, and inspections with the same text behind
  the heading.
-/

namespace LinkageAudit

/-! ## Separators -/

/-- Holds no colon with a space behind it. A colon at the end is none. -/
def LacksSeparator (text : String) : Prop := ¬ [':', ' '] <:+: text.toList

instance (text : String) : Decidable (LacksSeparator text) :=
  inferInstanceAs (Decidable (¬ _))

/-- A separator that stands further on does not overlap one at the beginning. -/
theorem eq_nil_or_prefix_of_separator_eq {between after after' : List Char}
    (h : ':' :: ' ' :: after = between ++ ':' :: ' ' :: after') :
    between = [] ∨ [':', ' '] <+: between := by
  match between, h with
  | [], _ => exact .inl rfl
  | [c], h => simp at h
  | c :: c' :: cs, h =>
    obtain ⟨rfl, rfl, -⟩ : ':' = c ∧ ' ' = c' ∧ _ := by simpa using h
    exact .inr ⟨cs, rfl⟩

/-- The first separator shows where the text in front of it ends, even if that ends in a colon. -/
theorem append_separator_inj {before before' after after' : List Char}
    (h : ¬ [':', ' '] <:+: before) (h' : ¬ [':', ' '] <:+: before')
    (heq : before ++ ':' :: ' ' :: after = before' ++ ':' :: ' ' :: after') :
    before = before' ∧ after = after' := by
  have hsame : before = before' := by
    rcases List.append_eq_append_iff.1 heq with ⟨between, hb, ha⟩ | ⟨between, hb, ha⟩
    · rcases eq_nil_or_prefix_of_separator_eq ha with rfl | hprefix
      · rw [hb, List.append_nil]
      · exact absurd (hb ▸ hprefix.isInfix.trans (List.suffix_append _ _).isInfix) h'
    · rcases eq_nil_or_prefix_of_separator_eq ha with rfl | hprefix
      · rw [hb, List.append_nil]
      · exact absurd (hb ▸ hprefix.isInfix.trans (List.suffix_append _ _).isInfix) h
  subst hsame
  have hbehind := List.append_cancel_left heq
  exact ⟨rfl, by simpa using hbehind⟩

/-- Fixed texts of which none begins another can be told apart, whatever stands behind them. -/
theorem append_inj_of_prefixFree {α : Type} {start : α → List Char}
    (hfree : ∀ a b, start a <+: start b → a = b) {a b : α} {rest rest' : List Char}
    (h : start a ++ rest = start b ++ rest') : a = b ∧ rest = rest' := by
  have hsame : a = b := by
    rcases List.prefix_or_prefix_of_prefix (List.prefix_append _ rest)
      (h ▸ List.prefix_append _ rest') with hab | hba
    · exact hfree a b hab
    · exact (hfree b a hba).symm
  subst hsame
  exact ⟨rfl, List.append_cancel_left h⟩

/-! ## Lines -/

/-- What a line of a text report begins with: the title of a listing or the message of a
violation. -/
def lineStart : Role ⊕ Violation.Kind → List Char
  | .inl role => (role.title ++ " (").toList
  | .inr kind => (kind.message ++ " ").toList

/-- The sorts of lines in a text report. -/
def lineSorts : List (Role ⊕ Violation.Kind) :=
  Role.all.map .inl ++ [.inr .unwhitelistedImport, .inr .leakedPrivate, .inr .leakedGeneric]

theorem mem_lineSorts (a : Role ⊕ Violation.Kind) : a ∈ lineSorts := by
  rcases a with role | kind
  · exact List.mem_append_left _ (List.mem_map_of_mem role.mem_all)
  · cases kind <;> simp [lineSorts]

theorem eq_of_lineStart_prefix (a b : Role ⊕ Violation.Kind) (h : lineStart a <+: lineStart b) :
    a = b := by
  have hfree : ∀ a ∈ lineSorts, ∀ b ∈ lineSorts, lineStart a <+: lineStart b → a = b := by
    decide +kernel
  exact hfree a (mem_lineSorts a) b (mem_lineSorts b) h

namespace Violation

/-- The path and the name of a violation can be told apart, and both fit on its line. -/
structure Readable (v : Violation) : Prop where
  isLine_file : IsLine v.file.text
  lacksSeparator : LacksSeparator v.file.text
  isLine_symbol : IsLine v.symbol

instance (v : Violation) : Decidable v.Readable :=
  decidable_of_iff (IsLine v.file.text ∧ LacksSeparator v.file.text ∧ IsLine v.symbol)
    ⟨fun ⟨hfile, hlacks, hsymbol⟩ => ⟨hfile, hlacks, hsymbol⟩,
      fun h => ⟨h.isLine_file, h.lacksSeparator, h.isLine_symbol⟩⟩

theorem toList_line (v : Violation) : v.line.toList =
    lineStart (.inr v.kind) ++ (v.file.text.toList ++ ':' :: ' ' :: v.symbol.toList) := by
  simp [line, lineStart]

theorem Readable.isLine {v : Violation} (h : v.Readable) : IsLine v.line :=
  isLine_line_iff.2 ⟨h.isLine_file, h.isLine_symbol⟩

/-- The line of a violation says all there is to say of it. -/
theorem eq_of_line_eq {v v' : Violation} (hv : v.Readable) (hv' : v'.Readable)
    (h : v.line = v'.line) : v = v' := by
  have hlist := congrArg String.toList h
  rw [toList_line, toList_line] at hlist
  obtain ⟨hkind, hrest⟩ := append_inj_of_prefixFree eq_of_lineStart_prefix hlist
  obtain ⟨hfile, hsymbol⟩ :=
    append_separator_inj hv.lacksSeparator hv'.lacksSeparator hrest
  obtain ⟨kind, ⟨file⟩, symbol⟩ := v
  obtain ⟨kind', ⟨file'⟩, symbol'⟩ := v'
  obtain rfl : kind = kind' := Sum.inr.inj hkind
  obtain rfl : file = file' := String.toList_inj.1 hfile
  obtain rfl : symbol = symbol' := String.toList_inj.1 hsymbol
  rfl

-- A path that holds the separator may end at either one.
example : line ⟨.leakedGeneric, ⟨"a: b"⟩, "c"⟩ = line ⟨.leakedGeneric, ⟨"a"⟩, "b: c"⟩ := by
  decide +kernel

end Violation

/-- A name that can be told from its neighbours in a listing. -/
structure IsWord (text : String) : Prop where
  ne_empty : text ≠ ""
  space_notMem : ' ' ∉ text.toList
  isLine : IsLine text

instance (text : String) : Decidable (IsWord text) :=
  decidable_of_iff (text ≠ "" ∧ ' ' ∉ text.toList ∧ IsLine text)
    ⟨fun ⟨hne, hspace, hline⟩ => ⟨hne, hspace, hline⟩,
      fun h => ⟨h.ne_empty, h.space_notMem, h.isLine⟩⟩

/-- Words with a space between each two split back into the same words. -/
theorem splitOn_intercalate_words {words : List String} (h : ∀ w ∈ words, IsWord w)
    (hne : words ≠ []) :
    (" ".intercalate words).toList.splitOn ' ' = words.map String.toList := by
  have hspaces : ∀ cs ∈ words.map String.toList, ' ' ∉ cs :=
    List.forall_mem_map.2 fun w hw => (h w hw).space_notMem
  rw [String.toList_intercalate]
  exact List.splitOn_intercalate ' ' hspaces (by simpa using hne)

theorem eq_nil_of_intercalate_words {words : List String} (h : ∀ w ∈ words, IsWord w)
    (hempty : " ".intercalate words = "") : words = [] := by
  match words with
  | [] => rfl
  | [w] => exact absurd (by simpa using hempty) (h w List.mem_cons_self).ne_empty
  | w :: w' :: words => simp [String.append_eq_empty_iff] at hempty

/-- Words with a space between each two can be told apart, and from no words. -/
theorem eq_of_intercalate_words_eq {words words' : List String} (h : ∀ w ∈ words, IsWord w)
    (h' : ∀ w ∈ words', IsWord w) (heq : " ".intercalate words = " ".intercalate words') :
    words = words' := by
  by_cases hne : words = []
  · subst hne
    exact (eq_nil_of_intercalate_words h' heq.symm).symm
  by_cases hne' : words' = []
  · subst hne'
    exact eq_nil_of_intercalate_words h heq
  have hsplit : words.map String.toList = words'.map String.toList := by
    rw [← splitOn_intercalate_words h hne, ← splitOn_intercalate_words h' hne', heq]
  exact List.map_injective_iff.2 (fun _ _ => String.toList_inj.1) hsplit

theorem isLine_intercalate_words {words : List String} (h : ∀ w ∈ words, IsWord w) :
    IsLine (" ".intercalate words) := by
  have hspace : IsLine " " := by decide
  induction words with
  | nil => decide
  | cons w words ih =>
    obtain ⟨hw, hwords⟩ := List.forall_mem_cons.1 h
    cases words with
    | nil => simpa using hw.isLine
    | cons w' words =>
      rw [String.intercalate_cons_cons, isLine_append_iff, isLine_append_iff]
      exact ⟨⟨hw.isLine, hspace⟩, ih hwords⟩

namespace Listing

/-- The names in a listing. -/
def names (l : Listing) : List String := l.items.map (·.name)

/-- The names in a listing can be told apart, and all fit on its line. -/
def Readable (l : Listing) : Prop := ∀ name ∈ l.names, IsWord name

instance (l : Listing) : Decidable l.Readable :=
  inferInstanceAs (Decidable (∀ name ∈ l.names, IsWord name))

theorem toList_line (l : Listing) : l.line.toList = lineStart (.inl l.role) ++
    (Nat.toDigits 10 l.items.length ++ ')' :: ':' :: ' ' :: (" ".intercalate l.names).toList) := by
  simp [line, lineStart, names, toString, Nat.repr]

theorem Readable.isLine {l : Listing} (h : l.Readable) : IsLine l.line := by
  have hstart : '\n' ∉ lineStart (.inl l.role) := by
    cases l.role <;> decide +kernel
  have hdigits : '\n' ∉ Nat.toDigits 10 l.items.length := fun hmem =>
    absurd (Nat.isDigit_of_mem_toDigits (by decide) (by decide) hmem) (by decide)
  have hnames : '\n' ∉ (" ".intercalate l.names).toList := isLine_intercalate_words h
  rw [IsLine, toList_line]
  simp only [List.mem_append, List.mem_cons, not_or]
  exact ⟨hstart, hdigits, by decide, by decide, by decide, hnames⟩

/-- The line of a listing says which role it is of and which names it has. -/
theorem eq_of_line_eq {l l' : Listing} (hl : l.Readable) (hl' : l'.Readable)
    (h : l.line = l'.line) : l.role = l'.role ∧ l.names = l'.names := by
  have hlist := congrArg String.toList h
  rw [toList_line, toList_line] at hlist
  obtain ⟨hrole, hrest⟩ := append_inj_of_prefixFree eq_of_lineStart_prefix hlist
  have hdigits (n : Nat) : ∀ c ∈ Nat.toDigits 10 n, c.isDigit := fun c hc =>
    Nat.isDigit_of_mem_toDigits (by decide) (by decide) hc
  obtain ⟨-, hbehind⟩ := Json.append_inj_of_run (hdigits _) (hdigits _) (Json.stops_cons.2 rfl)
    (Json.stops_cons.2 rfl) hrest
  have hnames : " ".intercalate l.names = " ".intercalate l'.names :=
    String.toList_inj.1 (by simpa using hbehind)
  exact ⟨Sum.inl.inj hrole, eq_of_intercalate_words_eq hl hl' hnames⟩

/-- No listing has the line of a violation. -/
theorem line_ne_line (l : Listing) (v : Violation) : l.line ≠ v.line := by
  intro h
  have hlist := congrArg String.toList h
  rw [toList_line, Violation.toList_line] at hlist
  cases (append_inj_of_prefixFree eq_of_lineStart_prefix hlist).1

end Listing

/-! ## Texts -/

theorem Violation.lines_eq_unlines (vs : List Violation) :
    lines vs = unlines (vs.map (·.line)) := by
  rw [lines, unlines, List.map_map]
  rfl

theorem Violation.eq_of_map_line_eq {vs vs' : List Violation} (hvs : ∀ v ∈ vs, v.Readable)
    (hvs' : ∀ v ∈ vs', v.Readable) (h : vs.map (·.line) = vs'.map (·.line)) : vs = vs' := by
  induction vs generalizing vs' with
  | nil => exact (List.map_eq_nil_iff.1 h.symm).symm
  | cons v vs ih =>
    cases vs' with
    | nil => simp at h
    | cons v' vs' =>
      obtain ⟨hv, hvs⟩ := List.forall_mem_cons.1 hvs
      obtain ⟨hv', hvs'⟩ := List.forall_mem_cons.1 hvs'
      obtain ⟨hfirst, hrest⟩ := List.cons.inj h
      rw [Violation.eq_of_line_eq hv hv' hfirst, ih hvs hvs' hrest]

/-- Two listings say the same: they are of one role and have the same names, and as many. The kinds
of the symbols are not printed. -/
structure Listing.Agrees (l l' : Listing) : Prop where
  role_eq : l.role = l'.role
  names_eq : l.names = l'.names
  length_eq : l.items.length = l'.items.length

theorem Listing.agrees_of_line_eq {l l' : Listing} (hl : l.Readable) (hl' : l'.Readable)
    (h : l.line = l'.line) : l.Agrees l' := by
  obtain ⟨hrole, hnames⟩ := eq_of_line_eq hl hl' h
  exact ⟨hrole, hnames, by simpa [names] using congrArg List.length hnames⟩

namespace Inspection

/-- An inspection that can be read back: every line of it is one line, and what stands on it can be
told apart. -/
structure Readable (i : Inspection) : Prop where
  isLine_path : IsLine i.file.path.text
  isLine_prefix : IsLine i.file.publicPrefix
  listings : ∀ l ∈ i.listings, l.Readable
  violations : ∀ v ∈ i.violations, v.Readable

instance (i : Inspection) : Decidable i.Readable :=
  decidable_of_iff (IsLine i.file.path.text ∧ IsLine i.file.publicPrefix ∧
      (∀ l ∈ i.listings, l.Readable) ∧ ∀ v ∈ i.violations, v.Readable)
    ⟨fun ⟨hpath, hprefix, hl, hv⟩ => ⟨hpath, hprefix, hl, hv⟩,
      fun h => ⟨h.isLine_path, h.isLine_prefix, h.listings, h.violations⟩⟩

/-- The lines behind the heading. -/
def body (i : Inspection) : List String := i.listings.map (·.line) ++ i.violations.map (·.line)

theorem Readable.isLine_of_mem_body {i : Inspection} (h : i.Readable) :
    ∀ line ∈ i.body, IsLine line := by
  unfold body
  rw [List.forall_mem_append, List.forall_mem_map, List.forall_mem_map]
  exact ⟨fun l hl => (h.listings l hl).isLine, fun v hv => (h.violations v hv).isLine⟩

theorem Readable.isLine_heading {i : Inspection} (h : i.Readable) : IsLine i.file.heading := by
  have hcomponent : IsLine i.file.component.name := by
    cases i.file.component <;> decide
  have hopen : IsLine " (" := by decide
  have hbetween : IsLine ", public prefix " := by decide
  have hclose : IsLine ")" := by decide
  have happend {text text' : String} (h : IsLine text) (h' : IsLine text') :
      IsLine (text ++ text') := isLine_append_iff.2 ⟨h, h'⟩
  exact happend (happend (happend (happend (happend h.isLine_path hopen) hcomponent) hbetween)
    h.isLine_prefix) hclose

/-- The listings end where the line of a violation stands first. -/
theorem agrees_of_lines_eq {ls ls' : List Listing} {vs vs' : List Violation}
    (hls : ∀ l ∈ ls, l.Readable) (hls' : ∀ l ∈ ls', l.Readable) (hvs : ∀ v ∈ vs, v.Readable)
    (hvs' : ∀ v ∈ vs', v.Readable)
    (h : ls.map (·.line) ++ vs.map (·.line) = ls'.map (·.line) ++ vs'.map (·.line)) :
    List.Forall₂ Listing.Agrees ls ls' ∧ vs = vs' := by
  induction ls generalizing ls' with
  | nil =>
    cases ls' with
    | nil => exact ⟨.nil, Violation.eq_of_map_line_eq hvs hvs' h⟩
    | cons l' ls' =>
      cases vs with
      | nil => simp at h
      | cons v vs => exact absurd (List.cons.inj h).1.symm (l'.line_ne_line v)
  | cons l ls ih =>
    cases ls' with
    | nil =>
      cases vs' with
      | nil => simp at h
      | cons v' vs' => exact absurd (List.cons.inj h).1 (l.line_ne_line v')
    | cons l' ls' =>
      obtain ⟨hl, hls⟩ := List.forall_mem_cons.1 hls
      obtain ⟨hl', hls'⟩ := List.forall_mem_cons.1 hls'
      obtain ⟨hfirst, hrest⟩ := List.cons.inj h
      obtain ⟨hagrees, hviolations⟩ := ih hls hls' hrest
      exact ⟨.cons (Listing.agrees_of_line_eq hl hl' hfirst) hagrees, hviolations⟩

end Inspection

/-- The text behind its first line. -/
def behindFirstLine (text : String) : String :=
  String.ofList (text.toList.dropWhile (· ≠ '\n')).tail

theorem behindFirstLine_unlines_cons {line : String} (h : IsLine line) (lines : List String) :
    behindFirstLine (unlines (line :: lines)) = unlines lines := by
  have hrun : ∀ c ∈ line.toList, (decide (c ≠ '\n')) = true := by
    intro c hc
    rw [decide_eq_true_eq]
    rintro rfl
    exact h hc
  rw [behindFirstLine, toList_unlines_cons, List.dropWhile_append_of_pos hrun]
  simp

/-- The heading is the first line of an inspection. -/
theorem Inspection.Readable.behindFirstLine_text {i : Inspection} (h : i.Readable) :
    behindFirstLine (i.printout.text false) = unlines i.body :=
  behindFirstLine_unlines_cons h.isLine_heading i.body

/-! ## Counts -/

theorem RoleCounts.eq_of_get_eq {n n' : RoleCounts} (h : ∀ r, n.get r = n'.get r) : n = n' := by
  obtain ⟨_, _, _, _, _⟩ := n
  obtain ⟨_, _, _, _, _⟩ := n'
  obtain rfl := h .privateExport
  obtain rfl := h .publicExport
  obtain rfl := h .genericExport
  obtain rfl := h .siblingImport
  obtain rfl := h .systemImport
  rfl

/-- An inspection has a listing for each role, in report order, and counts what is listed. -/
structure Inspection.CountsListings (i : Inspection) : Prop where
  roles_eq : i.listings.map (·.role) = Role.all
  counts_eq : ∀ l ∈ i.listings, l.items.length = i.file.counts.get l.role

theorem Plan.countsListings_of_inspect {plan : Plan} {disk : Disk} {target : Target}
    {i : Inspection} (h : (plan.inspect disk target).result = .ok i) : i.CountsListings := by
  rw [result_inspect, map_eq_ok_iff] at h
  obtain ⟨v, -, rfl⟩ := h
  exact ⟨v.census.role_listings, fun l hl => Census.length_items_of_mem_listings hl⟩

/-- What agrees on every listing agrees on every count. -/
theorem Inspection.CountsListings.counts_unique {i i' : Inspection} (hi : i.CountsListings)
    (hi' : i'.CountsListings) (h : List.Forall₂ Listing.Agrees i.listings i'.listings) :
    i.file.counts = i'.file.counts := by
  refine RoleCounts.eq_of_get_eq fun r => ?_
  obtain ⟨l, hl, rfl⟩ := List.mem_map.1 (hi.roles_eq ▸ r.mem_all)
  obtain ⟨l', hl', hagrees⟩ := exists_right_of_forall₂ h hl
  rw [← hi.counts_eq l hl, hagrees.length_eq, hi'.counts_eq l' hl', hagrees.role_eq]

/-! ## Reports -/

/-- What can be read off the text of a report, and off that of an inspection behind its heading. -/
theorem text_reports_read_back :
    -- The violations of a report.
    (∀ vs vs' : List Violation, (∀ v ∈ vs, v.Readable) → (∀ v ∈ vs', v.Readable) →
      Violation.lines vs = Violation.lines vs' → vs = vs') ∧
    -- The names in the listings of an inspection, their number, and its violations.
    (∀ i i' : Inspection, i.Readable → i'.Readable →
      behindFirstLine (i.printout.text false) = behindFirstLine (i'.printout.text false) →
      List.Forall₂ Listing.Agrees i.listings i'.listings ∧ i.violations = i'.violations ∧
        (i.CountsListings → i'.CountsListings → i.file.counts = i'.file.counts)) ∧
    -- The inspection of a target has five listings and counts what they list.
    ∀ plan disk target i, (Plan.inspect plan disk target).result = .ok i →
      i.listings.length = 5 ∧ i.CountsListings := by
  refine ⟨fun vs vs' hvs hvs' h => ?_, fun i i' hi hi' h => ?_, fun plan disk target i h => ?_⟩
  · rw [Violation.lines_eq_unlines, Violation.lines_eq_unlines] at h
    have hlines {vs : List Violation} (hvs : ∀ v ∈ vs, v.Readable) :
        MadeOfLines (unlines (vs.map (·.line))) (vs.map (·.line)) :=
      madeOfLines_unlines_iff.2 (List.forall_mem_map.2 fun v hv => (hvs v hv).isLine)
    exact Violation.eq_of_map_line_eq hvs hvs' ((hlines hvs).unique (h ▸ hlines hvs'))
  · rw [hi.behindFirstLine_text, hi'.behindFirstLine_text] at h
    have hlines {i : Inspection} (hi : i.Readable) : MadeOfLines (unlines i.body) i.body :=
      madeOfLines_unlines_iff.2 hi.isLine_of_mem_body
    have hbody : i.body = i'.body := (hlines hi).unique (h ▸ hlines hi')
    obtain ⟨hagrees, hviolations⟩ := Inspection.agrees_of_lines_eq hi.listings hi'.listings
      hi.violations hi'.violations hbody
    exact ⟨hagrees, hviolations, fun hcounts hcounts' => hcounts.counts_unique hcounts' hagrees⟩
  · have hcounts := Plan.countsListings_of_inspect h
    have hlength := congrArg List.length hcounts.roles_eq
    rw [List.length_map] at hlength
    exact ⟨hlength, hcounts⟩

theorem zero_notMem_stray : 0 ∉ Utf8.encode "stray" := by decide +kernel

/-- An object file that exports a variable under the name of `strayExport`. -/
def strayVariable : ByteArray :=
  let function := Elf.SymbolRecord.exported (Utf8.encode "stray") zero_notMem_stray
  let record := { function with type := 1, type_supported := .tail 0 (.head _) }
  Elf.write ⟨.bits64, .little⟩ [record]

/-- What an inspection of a file with one export shows. -/
def strayInspection (target : Target) (kind : Symbol.Kind) : Inspection :=
  (target.verdict .standard .empty [⟨"stray", kind, true⟩]).inspection

theorem result_inspect_stray {image : ByteArray} {kind : Symbol.Kind} (component : Component)
    (publicPrefix : String) (h : (Elf.symbols image).result = .ok [⟨"stray", kind, true⟩]) :
    (Plan.twoTargets.inspect (.ofList [("a:", .ok image)])
        ⟨⟨"a:"⟩, component, publicPrefix⟩).result =
      .ok (strayInspection ⟨⟨"a:"⟩, component, publicPrefix⟩ kind) := by
  have hsymbols : ((Disk.ofList [("a:", .ok image)]).symbols ⟨"a:"⟩).result =
      .ok [⟨"stray", kind, true⟩] := Disk.symbols_eq_ok_iff.2 ⟨image, rfl, h⟩
  rw [Plan.result_inspect, Plan.verdictOf_of_symbols Plan.twoTargets hsymbols]
  rfl

theorem result_symbols_strayVariable :
    (Elf.symbols strayVariable).result = .ok [⟨"stray", .object, true⟩] := by
  refine Elf.result_symbols_write_eq (by decide +kernel) (fun r hr => ?_) (by decide +kernel)
  obtain rfl := List.mem_singleton.1 hr
  exact ⟨Nat.zero_lt_succ _, Nat.pow_pos (by decide), Nat.pow_pos (by decide)⟩

/-- Two files at a path that ends in a colon, inspected as files of different components. The kinds
of their symbols differ, but the texts differ in the heading only. -/
theorem text_reports_read_back_strayVariable :
    let target : Target := ⟨⟨"a:"⟩, .main, "x_"⟩
    let target' : Target := ⟨⟨"a:"⟩, .integration, "y_"⟩
    ∃ i i', (Plan.twoTargets.inspect (.ofList [("a:", .ok strayExport)]) target).result = .ok i ∧
      (Plan.twoTargets.inspect (.ofList [("a:", .ok strayVariable)]) target').result = .ok i' ∧
      i.Readable ∧ i'.Readable ∧ i.listings ≠ i'.listings ∧
      behindFirstLine (i.printout.text false) = behindFirstLine (i'.printout.text false) ∧
      List.Forall₂ Listing.Agrees i.listings i'.listings ∧ i.violations = i'.violations ∧
      i.file.counts = i'.file.counts := by
  intro target target'
  have hi : (Plan.twoTargets.inspect (.ofList [("a:", .ok strayExport)]) target).result =
      .ok (strayInspection target .function) :=
    result_inspect_stray .main "x_" Plan.result_symbols_strayExport
  have hi' : (Plan.twoTargets.inspect (.ofList [("a:", .ok strayVariable)]) target').result =
      .ok (strayInspection target' .object) :=
    result_inspect_stray .integration "y_" result_symbols_strayVariable
  have hreadable : (strayInspection target .function).Readable := by decide +kernel
  have hreadable' : (strayInspection target' .object).Readable := by decide +kernel
  have hkinds : (strayInspection target .function).listings ≠
      (strayInspection target' .object).listings := by decide +kernel
  have htext : behindFirstLine ((strayInspection target .function).printout.text false) =
      behindFirstLine ((strayInspection target' .object).printout.text false) := by
    rw [hreadable.behindFirstLine_text, hreadable'.behindFirstLine_text]
    exact congrArg unlines (by decide +kernel)
  obtain ⟨hreports, hinspections, hcounts⟩ := text_reports_read_back
  obtain ⟨hagrees, -, hsame⟩ := hinspections _ _ hreadable hreadable' htext
  have hviolations : (strayInspection target .function).violations =
      (strayInspection target' .object).violations :=
    hreports _ _ hreadable.violations hreadable'.violations (by decide +kernel)
  exact ⟨_, _, hi, hi', hreadable, hreadable', hkinds, htext, hagrees, hviolations,
    hsame (hcounts _ _ _ _ hi).2 (hcounts _ _ _ _ hi').2⟩

end LinkageAudit

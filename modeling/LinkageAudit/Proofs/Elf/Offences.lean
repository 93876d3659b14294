import LinkageAudit.Proofs.Elf.RoundTrip

/-!
# Which entry an image is refused for

The entries of a symbol table are checked in order, and each of them in a fixed order of checks. The
first entry that fails a check decides, however many others would fail one too.

* `SymbolTable.Offends`: an entry fails a check and passes those before it.
* `SymbolTable.judge_eq_error_iff`: judging an entry shows its offence.
* `SymbolTable.judgeAll_eq_error_iff`, `SymbolTable.judgeAll_eq_ok_iff_sound`: going through a table
  shows the offence with the lowest number, or finds none.
* `symbols_of_entries`: what the symbols of an image come to, by its entries.

Entry 0 is never checked, and the name of an entry that is local or names a section or a file is
never looked up.
-/

namespace LinkageAudit.Elf

variable {image : ByteArray}

/-! ## Positions -/

/-- A number in a range stands behind all lower ones. -/
theorem range'_eq_append_cons_iff {s n i : Nat} {before after : List Nat} :
    List.range' s n = before ++ i :: after ↔
      s ≤ i ∧ i < s + n ∧ before = List.range' s (i - s) ∧
        after = List.range' (i + 1) (s + n - (i + 1)) := by
  rw [List.range'_eq_append_iff]
  constructor
  · rintro ⟨k, hk, rfl, hcons⟩
    obtain ⟨rfl, hpos, rfl⟩ := List.range'_eq_cons_iff.1 hcons.symm
    have hlength : n - k - 1 = s + n - (s + k * 1 + 1) := by omega
    have hbefore : s + k * 1 - s = k := by omega
    rw [hlength, hbefore]
    exact ⟨by omega, by omega, rfl, rfl⟩
  · rintro ⟨hlo, hhi, rfl, rfl⟩
    refine ⟨i - s, by omega, rfl, ?_⟩
    rw [eq_comm, List.range'_eq_cons_iff]
    have hlength : s + n - (i + 1) = n - (i - s) - 1 := by omega
    exact ⟨by omega, by omega, by rw [hlength]⟩

/-! ## One entry -/

namespace SymbolTable

variable {t : SymbolTable} {e : Entry}

/-- The name of an entry stands in the linked string table. -/
def Names (t : SymbolTable) (image : ByteArray) (e : Entry) (bytes : List UInt8) : Prop :=
  ∃ strings, t.strings = some strings ∧ strings.Holds image e.name bytes

/-- An entry fails a check and passes those before it: its type comes first, then its binding, its
section index and, unless it is unlisted, its name. -/
inductive Offends (t : SymbolTable) (image : ByteArray) (e : Entry) : SymbolError → Prop where
  | type (refused : ¬ SupportedType e.rawType) :
    Offends t image e (.unsupportedType e.rawType)
  | binding (type : SupportedType e.rawType) (refused : ¬ SupportedBinding e.rawBinding) :
    Offends t image e (.unsupportedBinding e.rawBinding)
  | sectionIndex (type : SupportedType e.rawType) (binding : SupportedBinding e.rawBinding)
      (refused : ¬ SupportedSection e.sectionIndex) :
    Offends t image e (.unsupportedSection e.sectionIndex)
  | name (type : SupportedType e.rawType) (binding : SupportedBinding e.rawBinding)
      (sectionIndex : SupportedSection e.sectionIndex) (listed : ¬ e.Unlisted)
      (refused : ∀ bytes, ¬ t.Names image e bytes) :
    Offends t image e .unreadableName

/-- The symbol that an entry stands for, if its name can be read and it stands for one. -/
def symbol? (t : SymbolTable) (image : ByteArray) (e : Entry) : Option Symbol :=
  (t.name? image e).bind (symbolOf? e.rawType e.rawBinding e.sectionIndex)

theorem name?_eq_none_iff : t.name? image e = none ↔ ∀ bytes, ¬ t.Names image e bytes := by
  rw [Option.eq_none_iff_forall_ne_some]
  exact forall_congr' fun bytes => not_congr name?_eq_some_iff

theorem Means.unlisted_iff {type : SymbolType} {binding : Binding} {placement : Placement}
    (h : Means e type binding placement) :
    (type.isAncillary || binding == .fileLocal) = true ↔ e.Unlisted := by
  rw [Bool.or_eq_true, beq_iff_eq, SymbolType.isAncillary_iff h.type,
    Binding.eq_fileLocal_iff h.binding, Entry.Unlisted, or_comm]

theorem symbol?_of_unlisted (h : e.Unlisted) : t.symbol? image e = none := by
  unfold symbol?
  cases t.name? image e with
  | none => rfl
  | some bytes =>
    have hdropped : e.rawBinding = 0 ∨ e.rawType = 3 ∨ e.rawType = 4 ∨ bytes = [] := by
      rcases h with h | h | h
      · exact .inl h
      · exact .inr (.inl h)
      · exact .inr (.inr (.inl h))
    exact if_pos hdropped

/-- An entry that fails a check is refused for it, whatever other checks it would fail. -/
theorem judge_of_offends {cause : SymbolError} (h : t.Offends image e cause) :
    t.judge image e = .error cause := by
  cases h with
  | type refused => simp only [judge, SymbolType.ofCode?_eq_none_iff.2 refused]
  | binding type refused =>
    obtain ⟨_, ht⟩ := SymbolType.exists_of_supported type
    simp only [judge, ht, Binding.ofCode?_eq_none_iff.2 refused]
  | sectionIndex type binding refused =>
    obtain ⟨_, ht⟩ := SymbolType.exists_of_supported type
    obtain ⟨_, hb⟩ := Binding.exists_of_supported binding
    simp only [judge, ht, hb, Placement.ofCode?_eq_none_iff.2 refused]
  | name type binding sectionIndex listed refused =>
    obtain ⟨_, _, _, hm⟩ := exists_means_of_supported type binding sectionIndex
    rw [judge_of_means hm, if_neg (mt hm.unlisted_iff.1 listed), name?_eq_none_iff.2 refused]

/-- An entry that fails no check comes to the symbol that it stands for. -/
theorem judge_of_sound (h : ∀ cause, ¬ t.Offends image e cause) :
    t.judge image e = .ok (t.symbol? image e) := by
  have htype : SupportedType e.rawType := by
    by_contra hrefused
    exact h _ (.type hrefused)
  have hbinding : SupportedBinding e.rawBinding := by
    by_contra hrefused
    exact h _ (.binding htype hrefused)
  have hsection : SupportedSection e.sectionIndex := by
    by_contra hrefused
    exact h _ (.sectionIndex htype hbinding hrefused)
  obtain ⟨type, binding, placement, hm⟩ := exists_means_of_supported htype hbinding hsection
  by_cases hlisted : e.Unlisted
  · rw [judge_of_means hm, if_pos (hm.unlisted_iff.2 hlisted), symbol?_of_unlisted hlisted]
  · have hname : ∃ bytes, t.Names image e bytes := by
      by_contra hrefused
      exact h _ (.name htype hbinding hsection hlisted (not_exists.1 hrefused))
    obtain ⟨bytes, hnames⟩ := hname
    have hn : t.name? image e = some bytes := name?_eq_some_iff.2 hnames
    rw [judge_of_name hm hn, symbol?, hn]
    rfl

theorem judge_eq_error_iff {cause : SymbolError} :
    t.judge image e = .error cause ↔ t.Offends image e cause := by
  refine ⟨fun h => ?_, judge_of_offends⟩
  by_cases hsound : ∀ cause, ¬ t.Offends image e cause
  · rw [judge_of_sound hsound] at h
    cases h
  · obtain ⟨cause', h'⟩ := not_forall_not.1 hsound
    have hsame : cause' = cause := Except.error.inj ((judge_of_offends h').symm.trans h)
    exact hsame ▸ h'

theorem judge_eq_ok_iff {v : Option Symbol} :
    t.judge image e = .ok v ↔
      (∀ cause, ¬ t.Offends image e cause) ∧ v = t.symbol? image e := by
  constructor
  · intro h
    have hsound : ∀ cause, ¬ t.Offends image e cause := by
      intro cause hoffends
      rw [judge_of_offends hoffends] at h
      cases h
    rw [judge_of_sound hsound] at h
    exact ⟨hsound, (Except.ok.inj h).symm⟩
  · rintro ⟨hsound, rfl⟩
    exact judge_of_sound hsound

/-- The symbols that are kept: those of entries that are not unlisted and have a name. -/
theorem symbol?_eq_some_iff {s : Symbol} : t.symbol? image e = some s ↔
    ¬ e.Unlisted ∧ ∃ bytes, t.Names image e bytes ∧ bytes ≠ [] ∧
      s = ⟨Utf8.decodeLossy bytes, kindOf e.rawType, e.sectionIndex != 0⟩ := by
  unfold symbol? Entry.Unlisted
  simp only [Option.bind_eq_some_iff, symbolOf?_eq_some_iff, name?_eq_some_iff, not_or]
  constructor
  · rintro ⟨bytes, hn, h3, h4, h0, hne, hs⟩
    exact ⟨⟨h0, h3, h4⟩, bytes, hn, hne, hs⟩
  · rintro ⟨⟨h0, h3, h4⟩, bytes, hn, hne, hs⟩
    exact ⟨bytes, hn, h3, h4, h0, hne, hs⟩

/-- What an unlisted entry comes to is settled by its numbers: its name, the strings and the rest of
the image do not matter. -/
theorem judge_of_unlisted (t' : SymbolTable) (image' : ByteArray) {e' : Entry} (h : e.Unlisted)
    (hinfo : e'.info = e.info) (hsection : e'.sectionIndex = e.sectionIndex) :
    t'.judge image' e' = t.judge image e := by
  have htype : e'.rawType = e.rawType := by rw [Entry.rawType, hinfo, Entry.rawType]
  have hbinding : e'.rawBinding = e.rawBinding := by rw [Entry.rawBinding, hinfo, Entry.rawBinding]
  unfold judge
  rw [htype, hbinding, hsection]
  cases ht : SymbolType.ofCode? e.rawType with
  | none => rfl
  | some type =>
    cases hb : Binding.ofCode? e.rawBinding with
    | none => rfl
    | some binding =>
      cases hp : Placement.ofCode? e.sectionIndex with
      | none => rfl
      | some placement =>
        have hdropped := (Means.mk ht hb hp).unlisted_iff.2 h
        simp only [hdropped, if_true]

/-! ## All entries -/

/-- An entry behind entry 0 offends, and none between the two does. -/
structure FirstOffence (t : SymbolTable) (image : ByteArray) (index : Nat) (cause : SymbolError) :
    Prop where
  behindNull : 1 ≤ index
  inTable : index < t.count
  offends : t.Offends image (t.entry image index) cause
  first : ∀ j, 1 ≤ j → j < index → ∀ c, ¬ t.Offends image (t.entry image j) c

/-- No entry behind entry 0 offends. -/
def Sound (t : SymbolTable) (image : ByteArray) : Prop :=
  ∀ index, 1 ≤ index → index < t.count → ∀ cause, ¬ t.Offends image (t.entry image index) cause

/-- The symbols that the entries behind entry 0 stand for, in order. -/
def keptSymbols (t : SymbolTable) (image : ByteArray) : List Symbol :=
  (List.range' 1 (t.count - 1)).filterMap fun index => t.symbol? image (t.entry image index)

/-- Going through a table fails exactly if an entry offends, and the first one that does decides. -/
theorem judgeAll_eq_error_iff {e : Error} :
    t.judgeAll image = .error e ↔
      ∃ index cause, t.FirstOffence image index cause ∧ e = .symbol index cause := by
  unfold judgeAll judgeAt
  simp only [mapM_eq_error_iff, range'_eq_append_cons_iff, mapError_eq_ok_iff,
    mapError_eq_error_iff, judge_eq_error_iff]
  constructor
  · rintro ⟨before, index, after, ⟨hlo, hhi, rfl, -⟩, hbefore, cause, hoffends, rfl⟩
    refine ⟨index, cause, ⟨hlo, by omega, hoffends, fun j h1 hj => ?_⟩, rfl⟩
    obtain ⟨v, hv⟩ := hbefore j (by rw [List.mem_range'_1]; omega)
    exact (judge_eq_ok_iff.1 hv).1
  · rintro ⟨index, cause, ⟨h1, hcount, hoffends, hfirst⟩, rfl⟩
    refine ⟨_, index, _, ⟨h1, by omega, rfl, rfl⟩, fun j hj => ?_, cause, hoffends, rfl⟩
    rw [List.mem_range'_1] at hj
    exact ⟨_, judge_of_sound (hfirst j hj.1 (by omega))⟩

/-- Going through a table succeeds exactly if no entry offends, and gives what each entry stands
for. -/
theorem judgeAll_eq_ok_iff_sound {verdicts : List (Option Symbol)} :
    t.judgeAll image = .ok verdicts ↔ t.Sound image ∧ verdicts =
      (List.range' 1 (t.count - 1)).map fun index => t.symbol? image (t.entry image index) := by
  have hmap : List.Forall₂ (fun index v => v = t.symbol? image (t.entry image index))
      (List.range' 1 (t.count - 1)) verdicts ↔ verdicts =
        (List.range' 1 (t.count - 1)).map fun index => t.symbol? image (t.entry image index) := by
    rw [eq_comm, ← List.forall₂_eq_eq_eq, List.forall₂_map_left_iff]
    simp only [eq_comm]
  simp only [judgeAll_eq_ok_iff, judge_eq_ok_iff, List.forall₂_and_left, hmap, mem_indices, Sound,
    and_imp]

end SymbolTable

/-! ## Images -/

variable {table : SymbolTable}

theorem symbols_eq_error_iff_of_symbolTable (h : symbolTable image = .ok table) {e : Error} :
    (symbols image).result = .error e ↔
      ∃ index cause, table.FirstOffence image index cause ∧ e = .symbol index cause := by
  rw [← SymbolTable.judgeAll_eq_error_iff, result_symbols, h, ok_bind]
  cases table.judgeAll image <;> simp [pure, Except.pure]

theorem symbols_eq_ok_iff_of_symbolTable (h : symbolTable image = .ok table) {ss : List Symbol} :
    (symbols image).result = .ok ss ↔ table.Sound image ∧ ss = table.keptSymbols image := by
  simp only [symbols_eq_ok_iff, SymbolTable.judgeAll_eq_ok_iff_sound, h, Except.ok.injEq]
  unfold SymbolTable.keptSymbols
  constructor
  · rintro ⟨_, _, rfl, ⟨hsound, rfl⟩, rfl⟩
    exact ⟨hsound, by rw [List.filterMap_map]; rfl⟩
  · rintro ⟨hsound, rfl⟩
    exact ⟨table, _, rfl, ⟨hsound, rfl⟩, by rw [List.filterMap_map]; rfl⟩

/-- What the symbols of an image with a sound symbol table section come to, by its entries. -/
theorem symbols_of_entries (h : symbolTable image = .ok table) :
    -- The offending entry with the lowest number decides, and it shows the first check that fails.
    (∀ e, (symbols image).result = .error e ↔
      ∃ index cause, table.FirstOffence image index cause ∧ e = .symbol index cause) ∧
    -- If no entry offends, the symbols are those that entries stand for, in order.
    (∀ ss, (symbols image).result = .ok ss ↔
      table.Sound image ∧ ss = table.keptSymbols image) ∧
    (∀ e s, table.symbol? image e = some s ↔ ¬ e.Unlisted ∧ ∃ bytes, table.Names image e bytes ∧
      bytes ≠ [] ∧ s = ⟨Utf8.decodeLossy bytes, kindOf e.rawType, e.sectionIndex != 0⟩) ∧
    -- An unlisted entry comes to the same with any name, strings and image.
    (∀ (e e' : Entry) (table' : SymbolTable) (image' : ByteArray), e.Unlisted →
      e'.info = e.info → e'.sectionIndex = e.sectionIndex →
      table'.judge image' e' = table.judge image e) ∧
    -- Entry 0 alone stands for nothing.
    (table.count ≤ 1 → (symbols image).result = .ok []) := by
  refine ⟨fun e => symbols_eq_error_iff_of_symbolTable h,
    fun ss => symbols_eq_ok_iff_of_symbolTable h, fun e s => SymbolTable.symbol?_eq_some_iff,
    fun e e' table' image' hu hinfo hsection =>
      SymbolTable.judge_of_unlisted table' image' hu hinfo hsection, fun hcount => ?_⟩
  refine (symbols_eq_ok_iff_of_symbolTable h).2 ⟨fun index h1 hindex => ?_, ?_⟩
  · omega
  · have hnone : table.count - 1 = 0 := by omega
    rw [SymbolTable.keptSymbols, hnone]
    rfl

/-- The sample with three faults: the name of the local symbol is out of reach, both halves of the
next info byte are unsupported, and so is the binding of the last symbol. -/
def faultySample : ByteArray :=
  (((write ⟨.bits64, .little⟩ sampleRecords).set! 283 0xFF).set! 308 0x3C).set! 332 0x50

/-- The first fault is none, and of the others the lower number and then the type decide. -/
theorem symbols_of_entries_faultySample :
    ∃ table, symbolTable faultySample = .ok table ∧
      (∀ bytes, ¬ table.Names faultySample (table.entry faultySample 1) bytes) ∧
      (symbols faultySample).result = .error (.symbol 2 (.unsupportedType 12)) := by
  have htable : symbolTable faultySample =
      .ok ⟨⟨.bits64, .little⟩, 256, 4, some ⟨352, 359⟩⟩ := by
    decide +kernel
  refine ⟨_, htable, SymbolTable.name?_eq_none_iff.1 (by decide +kernel),
    ((symbols_of_entries htable).1 _).2 ⟨2, .unsupportedType 12, ⟨by decide, by decide, ?_, ?_⟩, rfl⟩⟩
  · exact SymbolTable.judge_eq_error_iff.1 (by decide +kernel)
  · intro j h1 hj
    obtain rfl : j = 1 := by omega
    exact (SymbolTable.judge_eq_ok_iff (v := none).1 (by decide +kernel)).1

end LinkageAudit.Elf

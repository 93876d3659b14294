import LinkageAudit.Elf.Reader
import LinkageAudit.Proofs.Elf.Bytes
import LinkageAudit.Proofs.Elf.SectionTable

/-!
# What makes a symbol table readable

The symbol table of an image and its entries, stated as the conditions under which reading gives
them.

* `symbolTable_eq_ok_iff`: the symbol table that an image leads to.
* `SupportedType`, `SupportedBinding`, `SupportedSection`: the raw numbers that have a meaning.
* `SymbolTable.judge_eq_ok_some_iff`, `SymbolTable.judge_eq_ok_none_iff`: the entries that come to
  a symbol, and those that come to nothing.
* `SymbolTable.judge_of_name`: a named entry comes to what its name and numbers stand for.
* `SymbolTable.map_kept_tallyAll`: the pass over a table keeps what its entries come to.
* `symbols_eq_ok_iff`: the symbols of an image are those of its entries, number 0 left out.
-/

namespace LinkageAudit.Elf

variable {image : ByteArray}

/-- The symbol table that an image leads to. -/
def symbolTable (image : ByteArray) : Except Error SymbolTable := do
  let header ← Header.read image
  header.symbolTable image

namespace SymbolTable

/-! ## The section -/

theorem ofSection_eq_ok_iff {f : Format} {sections : List Section} {s : Section} {index : Nat}
    {table : SymbolTable} : ofSection f image sections s index = .ok table ↔
      inImage image s.offset s.length = true ∧ s.length % f.layout.symbol.size = 0 ∧
        s.offset % f.layout.alignment = 0 ∧ extendedIndicesFit image sections index = true ∧
        ∃ strings, linkedStrings sections s.link = .ok strings ∧
          table = ⟨f, s.offset, s.length / f.layout.symbol.size, strings⟩ := by
  have hthrow (e : SymbolTableError) (x : Except SymbolTableError SymbolTable) :
      ((throw e : Except SymbolTableError PUnit) >>= fun _ => x) = .error e := rfl
  unfold ofSection
  dsimp only
  cases h1 : inImage image s.offset s.length with
  | false => simp [hthrow]
  | true =>
    by_cases h2 : s.length % f.layout.symbol.size = 0
    · by_cases h3 : s.offset % f.layout.alignment = 0
      · cases h4 : linkedStrings sections s.link with
        | error e => simp [h2, h3]
        | ok strings =>
          cases h5 : extendedIndicesFit image sections index with
          | false => simp [h2, h3, hthrow]
          | true => simp [h2, h3, pure, Except.pure, eq_comm]
      · simp [h2, h3, hthrow]
    · simp [h2, hthrow]

theorem ofSections_eq_ok_iff {f : Format} {sections : List Section} {table : SymbolTable} :
    ofSections f image sections = .ok table ↔
      ∃ s index, sections.zipIdx.filter (fun (s, _) => s.kind == Section.symbolTable) =
          [(s, index)] ∧
        ofSection f image sections s index = .ok table := by
  unfold ofSections
  split
  · next s index h =>
    rw [mapError_eq_ok_iff]
    constructor
    · intro ht
      exact ⟨s, index, h, ht⟩
    · rintro ⟨s', index', h', ht⟩
      rw [h] at h'
      cases h'
      exact ht
  · next h =>
    simp only [reduceCtorEq, false_iff]
    rintro ⟨s, index, h', -⟩
    exact h s index h'

end SymbolTable

theorem symbolTable_eq_ok_iff {table : SymbolTable} : symbolTable image = .ok table ↔
    ∃ (header : Header) (sections : List Section), header.Starts image ∧
      header.LeadsTo image sections ∧
      SymbolTable.ofSections header.format image sections = .ok table := by
  have hne {f : Format} {sections : List Section}
      (h : SymbolTable.ofSections f image sections = .ok table) : sections ≠ [] := by
    rintro rfl
    cases h
  simp only [symbolTable, Header.symbolTable, bind_eq_ok_iff, mapError_eq_ok_iff,
    Header.read_eq_ok_iff]
  constructor
  · rintro ⟨header, hh, sections, hs, ht⟩
    exact ⟨header, sections, hh, (Header.sections_eq_ok_iff (hne ht)).1 hs, ht⟩
  · rintro ⟨header, sections, hh, hs, ht⟩
    exact ⟨header, hh, sections, (Header.sections_eq_ok_iff (hne ht)).2 hs, ht⟩

/-! ## Supported numbers -/

/-- The raw type has a meaning. -/
def SupportedType (raw : Nat) : Prop := raw ≤ 6 ∨ raw = 10

/-- The raw binding has a meaning. -/
def SupportedBinding (raw : Nat) : Prop := raw ≤ 2 ∨ raw = 10

/-- The raw section index has a meaning: it is below the reserved ones, or one of three. -/
def SupportedSection (raw : Nat) : Prop :=
  raw ≤ 0xFEFF ∨ raw = 0xFFF1 ∨ raw = 0xFFF2 ∨ raw = 0xFFFF

instance (raw : Nat) : Decidable (SupportedType raw) :=
  inferInstanceAs (Decidable (_ ∨ _))

instance (raw : Nat) : Decidable (SupportedBinding raw) :=
  inferInstanceAs (Decidable (_ ∨ _))

instance (raw : Nat) : Decidable (SupportedSection raw) :=
  inferInstanceAs (Decidable (_ ∨ _))

theorem SymbolType.ofCode?_eq_none_iff {raw : Nat} :
    ofCode? raw = none ↔ ¬ SupportedType raw := by
  unfold ofCode? SupportedType
  split <;> grind

theorem Binding.ofCode?_eq_none_iff {raw : Nat} :
    ofCode? raw = none ↔ ¬ SupportedBinding raw := by
  unfold ofCode? SupportedBinding
  split <;> grind

theorem Placement.ofCode?_eq_none_iff {raw : Nat} :
    ofCode? raw = none ↔ ¬ SupportedSection raw := by
  unfold ofCode? SupportedSection
  grind

theorem SymbolType.exists_of_supported {raw : Nat} (h : SupportedType raw) :
    ∃ type, ofCode? raw = some type :=
  Option.ne_none_iff_exists'.1 fun hnone => ofCode?_eq_none_iff.1 hnone h

theorem Binding.exists_of_supported {raw : Nat} (h : SupportedBinding raw) :
    ∃ binding, ofCode? raw = some binding :=
  Option.ne_none_iff_exists'.1 fun hnone => ofCode?_eq_none_iff.1 hnone h

theorem Placement.exists_of_supported {raw : Nat} (h : SupportedSection raw) :
    ∃ placement, ofCode? raw = some placement :=
  Option.ne_none_iff_exists'.1 fun hnone => ofCode?_eq_none_iff.1 hnone h

/-! ## Entries -/

/-- The kind that a raw type is reported as. -/
def kindOf : Nat → Symbol.Kind
  | 2 | 10 => .function
  | 1 | 5 | 6 => .object
  | _ => .other

/-- The symbol that raw numbers and a name stand for. Local symbols, section and file names and
symbols without a name stand for none. -/
def symbolOf? (type binding sectionIndex : Nat) (name : List UInt8) : Option Symbol :=
  if binding = 0 ∨ type = 3 ∨ type = 4 ∨ name = [] then none
  else some ⟨Utf8.decodeLossy name, kindOf type, sectionIndex != 0⟩

theorem symbolOf?_eq_some_iff {type binding sectionIndex : Nat} {bytes : List UInt8} {s : Symbol} :
    symbolOf? type binding sectionIndex bytes = some s ↔
      type ≠ 3 ∧ type ≠ 4 ∧ binding ≠ 0 ∧ bytes ≠ [] ∧
        s = ⟨Utf8.decodeLossy bytes, kindOf type, sectionIndex != 0⟩ := by
  unfold symbolOf?
  split
  · next h =>
    simp only [reduceCtorEq, false_iff]
    rintro ⟨h3, h4, h0, hne, -⟩
    rcases h with h | h | h | h <;> contradiction
  · next h =>
    simp only [not_or] at h
    simp only [Option.some.injEq, h, ne_eq, not_false_eq_true, true_and]
    exact eq_comm

theorem SymbolType.kind_eq {raw : Nat} {type : SymbolType} (h : ofCode? raw = some type) :
    type.kind = kindOf raw := by
  unfold ofCode? at h
  split at h <;> cases h <;> rfl

theorem SymbolType.isAncillary_iff {raw : Nat} {type : SymbolType} (h : ofCode? raw = some type) :
    type.isAncillary = true ↔ raw = 3 ∨ raw = 4 := by
  unfold ofCode? at h
  split at h <;> cases h <;> simp_all [isAncillary]

theorem Binding.eq_fileLocal_iff {raw : Nat} {binding : Binding} (h : ofCode? raw = some binding) :
    binding = .fileLocal ↔ raw = 0 := by
  unfold ofCode? at h
  split at h <;> cases h <;> simp_all

theorem Placement.isDefined_iff {raw : Nat} {placement : Placement}
    (h : ofCode? raw = some placement) : placement.isDefined = true ↔ raw ≠ 0 := by
  unfold ofCode? at h
  split at h
  · cases h
    simp_all [isDefined]
  · split at h
    · cases h
      simp_all [isDefined]
    · split at h
      · cases h
        simp_all [isDefined]
      · split at h
        · cases h
          simp_all [isDefined]
        · split at h
          · cases h
            simp_all [isDefined]
          · cases h

theorem Placement.isDefined_eq {raw : Nat} {placement : Placement}
    (h : ofCode? raw = some placement) : placement.isDefined = (raw != 0) := by
  rw [Bool.eq_iff_iff, isDefined_iff h, bne_iff_ne]

namespace SymbolTable

variable {t : SymbolTable} {e : Entry}

/-- The raw numbers of an entry have the meanings `type`, `binding` and `placement`. -/
structure Means (e : Entry) (type : SymbolType) (binding : Binding) (placement : Placement) :
    Prop where
  type : SymbolType.ofCode? e.rawType = some type
  binding : Binding.ofCode? e.rawBinding = some binding
  placement : Placement.ofCode? e.sectionIndex = some placement

/-- Numbers that are all supported have a meaning. -/
theorem exists_means_of_supported (htype : SupportedType e.rawType)
    (hbinding : SupportedBinding e.rawBinding) (hsection : SupportedSection e.sectionIndex) :
    ∃ type binding placement, Means e type binding placement := by
  obtain ⟨type, ht⟩ := SymbolType.exists_of_supported htype
  obtain ⟨binding, hb⟩ := Binding.exists_of_supported hbinding
  obtain ⟨placement, hp⟩ := Placement.exists_of_supported hsection
  exact ⟨type, binding, placement, ht, hb, hp⟩

/-- An entry that no other file can see: its name is never looked up. -/
def Hidden (type : SymbolType) (binding : Binding) : Prop :=
  type.isAncillary = true ∨ binding = .fileLocal

theorem judge_of_means {type : SymbolType} {binding : Binding} {placement : Placement}
    (h : Means e type binding placement) :
    t.judge image e =
      if type.isAncillary || binding == .fileLocal then .ok none
      else match t.name? image e with
        | none => .error .unreadableName
        | some [] => .ok none
        | some bytes => .ok (some ⟨Utf8.decodeLossy bytes, type.kind, placement.isDefined⟩) := by
  unfold judge
  rewrite [h.type, h.binding, h.placement]
  rfl

/-- An entry is judged only if its numbers have a meaning. -/
theorem means_of_judge {v : Option Symbol} (h : t.judge image e = .ok v) :
    ∃ type binding placement, Means e type binding placement := by
  unfold judge at h
  split at h
  · cases h
  · next type ht =>
    split at h
    · cases h
    · next binding hb =>
      split at h
      · cases h
      · next placement hp => exact ⟨type, binding, placement, ht, hb, hp⟩

theorem judge_eq_ok_some_iff {s : Symbol} : t.judge image e = .ok (some s) ↔
    ∃ type binding placement bytes, Means e type binding placement ∧ ¬ Hidden type binding ∧
      t.name? image e = some bytes ∧ bytes ≠ [] ∧
      s = ⟨Utf8.decodeLossy bytes, type.kind, placement.isDefined⟩ := by
  constructor
  · intro h
    obtain ⟨type, binding, placement, hm⟩ := means_of_judge h
    rw [judge_of_means hm] at h
    split at h
    · cases h
    · next hv =>
      split at h
      · cases h
      · cases h
      · next bytes hne hn =>
        cases h
        refine ⟨type, binding, placement, bytes, hm, ?_, hn, ?_, rfl⟩
        · simpa [Hidden] using hv
        · rintro rfl
          exact hne rfl
  · rintro ⟨type, binding, placement, bytes, hm, hv, hn, hne, rfl⟩
    rw [judge_of_means hm, if_neg (by simpa [Hidden] using hv), hn]
    cases bytes with
    | nil => exact absurd rfl hne
    | cons b bs => rfl

theorem judge_eq_ok_none_iff : t.judge image e = .ok none ↔
    ∃ type binding placement, Means e type binding placement ∧
      (Hidden type binding ∨ t.name? image e = some []) := by
  constructor
  · intro h
    obtain ⟨type, binding, placement, hm⟩ := means_of_judge h
    rw [judge_of_means hm] at h
    refine ⟨type, binding, placement, hm, ?_⟩
    split at h
    · next hv => exact .inl (by simpa [Hidden] using hv)
    · split at h
      · cases h
      · next hn => exact .inr hn
      · cases h
  · rintro ⟨type, binding, placement, hm, hv⟩
    rw [judge_of_means hm]
    rcases hv with hv | hn
    · rw [if_pos (by simpa [Hidden] using hv)]
    · rw [hn]
      split <;> rfl

/-- The bytes of a name lie in the linked string table. -/
theorem name?_eq_some_iff {bytes : List UInt8} : t.name? image e = some bytes ↔
    ∃ strings, t.strings = some strings ∧ strings.Holds image e.name bytes := by
  simp only [name?, Option.bind_eq_some_iff, StringTable.get?_eq_some_iff]

/-- An entry whose numbers have a meaning and whose name can be read comes to what these stand
for. -/
theorem judge_of_name {type : SymbolType} {binding : Binding} {placement : Placement}
    {bytes : List UInt8} (hm : Means e type binding placement)
    (hn : t.name? image e = some bytes) :
    t.judge image e = .ok (symbolOf? e.rawType e.rawBinding e.sectionIndex bytes) := by
  have htype := SymbolType.isAncillary_iff hm.type
  have hbinding := Binding.eq_fileLocal_iff hm.binding
  rw [judge_of_means hm, hn]
  by_cases hv : type.isAncillary = true ∨ binding = .fileLocal
  · have hraw : e.rawBinding = 0 ∨ e.rawType = 3 ∨ e.rawType = 4 ∨ bytes = [] := by
      rcases hv with hv | hv
      · exact .inr ((htype.1 hv).imp_right .inl)
      · exact .inl (hbinding.1 hv)
    rw [if_pos (by simpa using hv), symbolOf?, if_pos hraw]
  · rw [if_neg (by simpa using hv)]
    cases bytes with
    | nil => simp [symbolOf?]
    | cons b bs =>
      have hraw : ¬ (e.rawBinding = 0 ∨ e.rawType = 3 ∨ e.rawType = 4 ∨ b :: bs = []) := by
        rintro (h | h | h | h)
        · exact hv (.inr (hbinding.2 h))
        · exact hv (.inl (htype.2 (.inl h)))
        · exact hv (.inl (htype.2 (.inr h)))
        · cases h
      rw [symbolOf?, if_neg hraw, SymbolType.kind_eq hm.type,
        Placement.isDefined_eq hm.placement]

/-- What a judged entry comes to is what its name and numbers stand for. -/
theorem eq_some_iff_of_judge {v : Option Symbol} (h : t.judge image e = .ok v) {s : Symbol} :
    v = some s ↔ ∃ bytes, t.name? image e = some bytes ∧
      symbolOf? e.rawType e.rawBinding e.sectionIndex bytes = some s := by
  constructor
  · rintro rfl
    obtain ⟨type, binding, placement, bytes, hm, -, hn, -, -⟩ := judge_eq_ok_some_iff.1 h
    rw [judge_of_name hm hn] at h
    exact ⟨bytes, hn, Except.ok.inj h⟩
  · rintro ⟨bytes, hn, hs⟩
    obtain ⟨type, binding, placement, hm⟩ := means_of_judge h
    rw [judge_of_name hm hn] at h
    exact (Except.ok.inj h).symm.trans hs

/-- The numbers of the entries that are judged. -/
theorem mem_indices {t : SymbolTable} {index : Nat} :
    index ∈ List.range' 1 (t.count - 1) ↔ 1 ≤ index ∧ index < t.count := by
  simp only [List.mem_range'_1]
  omega

/-- What every entry but number 0 comes to, in order, or the first fault. -/
def judgeAll (t : SymbolTable) (image : ByteArray) : Except Error (List (Option Symbol)) :=
  (List.range' 1 (t.count - 1)).mapM (t.judgeAt image)

theorem judgeAll_eq_ok_iff {verdicts : List (Option Symbol)} :
    t.judgeAll image = .ok verdicts ↔
      List.Forall₂ (fun index v => t.judge image (t.entry image index) = .ok v)
        (List.range' 1 (t.count - 1)) verdicts := by
  simp only [judgeAll, judgeAt, mapM_eq_ok_iff, mapError_eq_ok_iff]

/-- Entries are judged the same with and without a tally, which keeps the symbols they come to. -/
theorem map_kept_foldlM (t : SymbolTable) (image : ByteArray) (indices : List Nat)
    (tally : Tally) : (indices.foldlM (t.tallyEntry image) tally).map (·.kept) =
      (indices.mapM (t.judgeAt image)).map (tally.kept ++ ·.filterMap id) := by
  induction indices generalizing tally with
  | nil => exact congrArg Except.ok (List.append_nil _).symm
  | cons index indices ih =>
    rw [List.foldlM_cons, List.mapM_cons, tallyEntry]
    cases t.judgeAt image index with
    | error e => rfl
    | ok v =>
      show (indices.foldlM (t.tallyEntry image) (tally.add (t.entry image index) v)).map _ = _
      rw [ih, Tally.kept_add, ok_bind]
      cases indices.mapM (t.judgeAt image) with
      | error e => rfl
      | ok verdicts =>
        show Except.ok _ = Except.ok (tally.kept ++ (v :: verdicts).filterMap id)
        cases v <;> simp

/-- The pass keeps what the entries come to. -/
theorem map_kept_tallyAll (t : SymbolTable) (image : ByteArray) :
    (t.tallyAll image).map (·.kept) = (t.judgeAll image).map (·.filterMap id) :=
  t.map_kept_foldlM image _ .empty

theorem result_symbols (t : SymbolTable) (image : ByteArray) :
    (t.symbols image).result = (t.judgeAll image).map (·.filterMap id) := by
  rw [← map_kept_tallyAll, symbols, Traced.result_bind, Traced.result_ofExcept]
  cases t.tallyAll image <;> rfl

end SymbolTable

/-! ## Symbols -/

theorem result_symbols (image : ByteArray) : (symbols image).result = do
    let table ← symbolTable image
    let verdicts ← table.judgeAll image
    return verdicts.filterMap id := by
  have htable (header : Header) :
      (Traced.ofExcept (header.symbolTable image) >>= fun table => table.symbols image).result =
        header.symbolTable image >>= fun table =>
          table.judgeAll image >>= fun verdicts => pure (verdicts.filterMap id) := by
    simp only [Traced.result_bind, Traced.result_ofExcept, SymbolTable.result_symbols]
    rfl
  unfold symbols symbolTable
  rw [Traced.result_bind, Traced.result_ofExcept]
  cases Header.read image with
  | error e => rfl
  | ok header =>
    rw [ok_bind, ok_bind]
    split
    · rw [Traced.result_bind, Traced.result_emit, ok_bind, htable]
    · exact htable header

theorem symbols_eq_ok_iff {ss : List Symbol} : (symbols image).result = .ok ss ↔
    ∃ table verdicts, symbolTable image = .ok table ∧ table.judgeAll image = .ok verdicts ∧
      ss = verdicts.filterMap id := by
  simp only [result_symbols, bind_eq_ok_iff, pure, Except.pure, Except.ok.injEq]
  constructor
  · rintro ⟨table, ht, verdicts, hv, rfl⟩
    exact ⟨table, verdicts, ht, hv, rfl⟩
  · rintro ⟨table, verdicts, ht, hv, rfl⟩
    exact ⟨table, ht, verdicts, hv, rfl⟩

end LinkageAudit.Elf

import LinkageAudit.Proofs.Audit.Partition
import LinkageAudit.Proofs.Elf.Offences
import LinkageAudit.Proofs.Text.Utf8

/-!
# Accounts of a symbol table

Reading a symbol table ends with an event that says how many entries became symbols and how many
were dropped. An entry can be dropped at two places: because of its numbers, before its name is
looked up, or because its name is empty. The two counts together leave out no entry but number 0.

* `Tally.Accounts`: what a pass knows of the entries behind it; `Tally.Accounts.tallyEntry` is one
  step, `Tally.Accounts.tallyAll` the whole pass.
* `SymbolTable.name_of_symbol?`: a kept symbol has a name, and no zero character in it.
* `events_symbols`: the event at the end has the numbers of the pass.
* `symbols_accounts`: the numbers in the log, and what they are the numbers of.
-/

namespace LinkageAudit.Elf

variable {image : ByteArray}

/-- Each entry counts once, wherever it ends. -/
theorem Tally.length_add (tally : Tally) (e : Entry) (v : Option Symbol) :
    (tally.add e v).kept.length + (tally.add e v).discarded =
      tally.kept.length + tally.discarded + 1 := by
  rw [kept_add, discarded_add, List.length_append]
  cases v with
  | some s => exact Nat.add_right_comm _ 1 _
  | none => rfl

namespace SymbolTable

/-- An entry that is not unlisted and whose name is empty. -/
def Nameless (t : SymbolTable) (image : ByteArray) (e : Entry) : Prop :=
  ¬ e.Unlisted ∧ t.name? image e = some []

instance (t : SymbolTable) (image : ByteArray) (e : Entry) : Decidable (t.Nameless image e) :=
  inferInstanceAs (Decidable (_ ∧ _))

/-- The entries behind entry 0. -/
def entries (t : SymbolTable) (image : ByteArray) : List Entry :=
  (List.range' 1 (t.count - 1)).map (t.entry image)

variable {t : SymbolTable} {e : Entry}

/-- An entry comes to nothing because it is unlisted or because it is nameless. -/
theorem unlisted_or_nameless_of_judge (h : t.judge image e = .ok none) :
    e.Unlisted ∨ t.Nameless image e := by
  obtain ⟨type, binding, placement, hm, hdropped⟩ := judge_eq_ok_none_iff.1 h
  by_cases hunlisted : e.Unlisted
  · exact .inl hunlisted
  · refine .inr ⟨hunlisted, hdropped.resolve_left fun hhidden => ?_⟩
    exact hunlisted (hm.unlisted_iff.1 (by simpa [Hidden] using hhidden))

/-- An entry that comes to a symbol is neither. -/
theorem not_dropped_of_judge {s : Symbol} (h : t.judge image e = .ok (some s)) :
    ¬ e.Unlisted ∧ ¬ t.Nameless image e := by
  obtain ⟨hunlisted, bytes, hnames, hne, -⟩ :=
    symbol?_eq_some_iff.1 (judge_eq_ok_iff.1 h).2.symm
  refine ⟨hunlisted, fun hnameless => hne ?_⟩
  exact Option.some.inj ((name?_eq_some_iff.2 hnames).symm.trans hnameless.2)

/-- The name of a kept symbol is not empty and holds no zero character: its bytes end before the
first zero, and decoding makes up neither. -/
theorem name_of_symbol? {s : Symbol} (h : t.symbol? image e = some s) :
    s.name ≠ "" ∧ Char.ofNat 0 ∉ s.name.toList := by
  obtain ⟨-, bytes, hnames, hne, rfl⟩ := symbol?_eq_some_iff.1 h
  obtain ⟨strings, -, hholds⟩ := hnames
  constructor
  · intro hempty
    have hchars := congrArg String.toList hempty
    rw [Utf8.toList_decodeLossy] at hchars
    exact hne (Utf8.scan_eq_nil_iff.1 (List.map_eq_nil_iff.1 hchars))
  · rw [Utf8.mem_decodeLossy_iff (by decide)]
    exact hholds.noZero

end SymbolTable

/-! ## The pass -/

/-- What a pass over the entries with some numbers has gathered. -/
structure Tally.Accounts (tally : Tally) (t : SymbolTable) (image : ByteArray)
    (indices : List Nat) : Prop where
  kept_eq : tally.kept = indices.filterMap fun i => t.symbol? image (t.entry image i)
  unlisted_eq : tally.unlisted = indices.countP fun i => decide (t.entry image i).Unlisted
  nameless_eq : tally.nameless = indices.countP fun i => decide (t.Nameless image (t.entry image i))
  length_eq : tally.kept.length + tally.discarded = indices.length

namespace Tally.Accounts

variable {t : SymbolTable} {tally tally' : Tally} {indices : List Nat}

theorem empty : Tally.empty.Accounts t image [] := ⟨rfl, rfl, rfl, rfl⟩

/-- One more entry. -/
theorem tallyEntry {index : Nat} (h : tally.Accounts t image indices)
    (hstep : t.tallyEntry image tally index = .ok tally') :
    tally'.Accounts t image (indices ++ [index]) := by
  obtain ⟨v, hv, rfl⟩ := map_eq_ok_iff.1 hstep
  rw [SymbolTable.judgeAt, mapError_eq_ok_iff] at hv
  have hlength := tally.length_add (t.entry image index) v
  have hsymbol := (SymbolTable.judge_eq_ok_iff.1 hv).2
  refine ⟨?_, ?_, ?_, by rw [hlength, h.length_eq, List.length_append]; rfl⟩
  · rw [kept_add, h.kept_eq, List.filterMap_append]
    cases v <;> simp [← hsymbol]
  all_goals
    rw [List.countP_append, List.countP_singleton]
    simp only [← h.unlisted_eq, ← h.nameless_eq]
    cases v with
    | some s =>
      obtain ⟨hunlisted, hnameless⟩ := SymbolTable.not_dropped_of_judge hv
      simp [add, hunlisted, hnameless]
    | none =>
      by_cases hunlisted : (t.entry image index).Unlisted
      · have hnameless : ¬ t.Nameless image (t.entry image index) := fun hn => hn.1 hunlisted
        simp [add_of_unlisted, hunlisted, hnameless]
      · have hnameless := (SymbolTable.unlisted_or_nameless_of_judge hv).resolve_left hunlisted
        simp [add_of_not_unlisted, hunlisted, hnameless]

/-- Any number of further entries. -/
theorem foldlM {more : List Nat} (h : tally.Accounts t image indices)
    (hrun : more.foldlM (t.tallyEntry image) tally = .ok tally') :
    tally'.Accounts t image (indices ++ more) := by
  induction more generalizing tally indices with
  | nil =>
    obtain rfl := Except.ok.inj hrun
    rwa [List.append_nil]
  | cons index more ih =>
    rw [List.foldlM_cons] at hrun
    obtain ⟨next, hnext, hrest⟩ := bind_eq_ok_iff.1 hrun
    rw [List.append_cons]
    exact ih (h.tallyEntry hnext) hrest

theorem tallyAll (h : t.tallyAll image = .ok tally) :
    tally.Accounts t image (List.range' 1 (t.count - 1)) :=
  empty.foldlM h

end Tally.Accounts

/-- The pass comes to a tally where all entries can be judged, and keeps what they come to. -/
theorem SymbolTable.exists_tally_of_judgeAll {t : SymbolTable} {verdicts : List (Option Symbol)}
    (h : t.judgeAll image = .ok verdicts) :
    ∃ tally, t.tallyAll image = .ok tally ∧ tally.kept = verdicts.filterMap id := by
  have hkept := t.map_kept_tallyAll image
  rw [h] at hkept
  exact map_eq_ok_iff.1 hkept

/-! ## The log -/

/-- Reading an image says how many entries it kept and dropped, once and at the end; a warning may
come before. -/
theorem events_symbols {table : SymbolTable} {tally : Tally} (h : symbolTable image = .ok table)
    (htally : table.tallyAll image = .ok tally) :
    ∃ warnings, (symbols image).events =
        warnings ++ [.symbolsRead tally.kept.length tally.discarded] ∧
      ∀ e ∈ warnings, e.level = .warn := by
  obtain ⟨header, hheader, htable⟩ := bind_eq_ok_iff.1 h
  have hread : Traced.ofExcept (header.symbolTable image) >>= (·.symbols image) =
      ⟨[.symbolsRead tally.kept.length tally.discarded], .ok tally.kept⟩ := by
    rw [htable, Traced.ofExcept_ok_bind, SymbolTable.symbols, htally, Traced.ofExcept_ok_bind]
    rfl
  unfold symbols
  rw [hheader, Traced.ofExcept_ok_bind]
  split
  · refine ⟨[.notRelocatable header.fileType], ?_, by simp [Event.level]⟩
    rw [Traced.bind_of_ok rfl, hread]
    rfl
  · refine ⟨[], ?_, List.forall_mem_nil _⟩
    rw [hread]
    rfl

/-- The only symbol table section of an image has `n` whole entries and nothing behind them. -/
def HasEntries (image : ByteArray) (n : Nat) : Prop :=
  ∃ (header : Header) (sections : List Section) (s : Section),
    Header.read image = .ok header ∧ header.sections image = .ok sections ∧
      sections.filter (·.kind == Section.symbolTable) = [s] ∧
      s.length = n * header.format.layout.symbol.size

theorem hasEntries_of_symbolTable {table : SymbolTable} (h : symbolTable image = .ok table) :
    HasEntries image table.count := by
  obtain ⟨header, hheader, htable⟩ := bind_eq_ok_iff.1 h
  obtain ⟨sections, hsections, hofSections⟩ := bind_eq_ok_iff.1 htable
  rw [mapError_eq_ok_iff] at hsections
  obtain ⟨s, index, hfilter, hofSection⟩ := SymbolTable.ofSections_eq_ok_iff.1 hofSections
  obtain ⟨-, hwhole, -, -, strings, -, rfl⟩ := SymbolTable.ofSection_eq_ok_iff.1 hofSection
  refine ⟨header, sections, s, hheader, hsections, ?_, ?_⟩
  · have hfirst := congrArg (List.map Prod.fst) hfilter
    rw [← List.zipIdx_map_fst 0 sections, List.filter_map]
    exact hfirst
  · exact (Nat.div_mul_cancel (Nat.dvd_of_mod_eq_zero hwhole)).symm

/-- The numbers in the log of an image that can be read. Every entry behind entry 0 is in one of
them, and what is kept has a name and a role. -/
theorem symbols_accounts {ss : List Symbol} (h : (symbols image).result = .ok ss) :
    ∃ (table : SymbolTable) (retained discarded : Nat),
      symbolTable image = .ok table ∧ HasEntries image table.count ∧
      ((symbols image).events.filter (·.level == .debug)).map (·.message) =
        [s!"symbol table: {retained} retained, {discarded} discarded"] ∧
      -- The numbers are those of one pass that counts at the two places where entries are dropped.
      (∃ tally, table.tallyAll image = .ok tally ∧ tally.kept = ss ∧
        discarded = tally.unlisted + tally.nameless) ∧
      discarded = (table.entries image).countP (fun e => decide e.Unlisted) +
        (table.entries image).countP (fun e => decide (table.Nameless image e)) ∧
      retained = ss.length ∧
      (table.count = 0 → retained + discarded = 0) ∧
      (1 ≤ table.count → retained + discarded = table.count - 1) ∧
      (∀ s ∈ ss, s.name ≠ "" ∧ Char.ofNat 0 ∉ s.name.toList) ∧
      ∀ (inventory : Inventory) (naming : Naming), inventory.symbols = ss →
        let counts := (inventory.census naming).counts
        counts.privateExport + counts.publicExport + counts.genericExport +
          counts.siblingImport + counts.systemImport = retained := by
  obtain ⟨table, verdicts, htable, hverdicts, hss⟩ := symbols_eq_ok_iff.1 h
  obtain ⟨tally, htally, hkept⟩ := SymbolTable.exists_tally_of_judgeAll hverdicts
  have haccounts := Tally.Accounts.tallyAll htally
  obtain ⟨warnings, hevents, hwarn⟩ := events_symbols htable htally
  obtain rfl : tally.kept = ss := hkept.trans hss.symm
  have hlength := haccounts.length_eq
  rw [List.length_range'] at hlength
  refine ⟨table, tally.kept.length, tally.discarded, htable, hasEntries_of_symbolTable htable, ?_,
    ⟨tally, htally, rfl, rfl⟩, ?_, rfl, fun h0 => by omega, fun h1 => hlength, fun s hs => ?_,
    fun inventory naming hsymbols => ?_⟩
  · have hnone : warnings.filter (·.level == .debug) = [] := by
      rw [List.filter_eq_nil_iff]
      intro e he
      simp [hwarn e he]
    rw [hevents, List.filter_append, hnone]
    rfl
  · simp only [Tally.discarded, haccounts.unlisted_eq, haccounts.nameless_eq,
      SymbolTable.entries, List.countP_map]
    rfl
  · rw [haccounts.kept_eq] at hs
    obtain ⟨index, -, hsymbol⟩ := List.mem_filterMap.1 hs
    exact SymbolTable.name_of_symbol? hsymbol
  · intro counts
    rw [← hsymbols, ← (inventory.flatMap_withRole_perm naming).length_eq]
    exact (inventory.census naming).total_eq_add_counts.symm

/-- The sample with a symbol that has no name. -/
def namelessRecords : List SymbolRecord := sampleRecords ++ [.imported [] (by decide)]

/-- Of five entries, the one behind number 0 is local and the last has no name. -/
theorem symbols_accounts_namelessRecords :
    let image := write ⟨.bits32, .big⟩ namelessRecords
    (symbols image).result = .ok [⟨"f", .function, true⟩, ⟨"g", .other, false⟩] ∧
      HasEntries image 5 ∧ ((symbols image).events.filter (·.level == .debug)).map (·.message) =
        ["symbol table: 2 retained, 2 discarded"] := by
  intro image
  have hread : (symbols image).result = .ok [⟨"f", .function, true⟩, ⟨"g", .other, false⟩] := by
    decide +kernel
  have htable : symbolTable image = .ok ⟨⟨.bits32, .big⟩, 172, 5, some ⟨252, 260⟩⟩ := by
    decide +kernel
  obtain ⟨table, retained, discarded, htable', hentries, hmessages, -, -, rfl, -, hsum, -⟩ :=
    symbols_accounts hread
  obtain rfl := Except.ok.inj (htable'.symm.trans htable)
  obtain rfl : discarded = 2 := by
    have hfive : 2 + discarded = 4 := hsum (by decide)
    omega
  exact ⟨hread, hentries, hmessages⟩

end LinkageAudit.Elf

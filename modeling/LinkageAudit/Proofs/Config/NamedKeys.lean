import LinkageAudit.Proofs.Config.Entries
import LinkageAudit.Proofs.Stages
import Mathlib.Logic.Relation

/-!
# Configuration files that say the same

Only the keys that a configuration knows count in a document. Entries with other keys, sections and
lists without content, and the order of entries make no difference, wherever in the document they
are.

* `Toml.Rewritten`: one way to write a table otherwise; `Toml.lookup_of_rewritten` is all that it
  does to a reader.
* `Config.Restated`: one such change anywhere in a document, and `Config.Alike`: any number of them.
* `Config.ofTable?_of_alike`: documents that are alike are read as the same.
* `Config.load_by_named_keys`: what is loaded, from the text of a file to the exit of a run.
-/

namespace LinkageAudit

open Toml (Value Table)

/-! ## Tables -/

namespace Toml

/-- A table with one more entry, of those that say nothing, or with two entries in another order. -/
inductive Rewritten (silent : String → Value → Prop) : Table → Table → Prop where
  | entry (before after : Table) {key : String} {v : Value}
      (hnew : (before ++ after).lookup key = none) (h : silent key v) :
      Rewritten silent (before ++ after) (before ++ (key, v) :: after)
  | swap (before after : Table) {x y : String × Value} (h : x.1 ≠ y.1) :
      Rewritten silent (before ++ x :: y :: after) (before ++ y :: x :: after)

variable {silent : String → Value → Prop} {t t' : Table}

theorem lookup_cons_eq_ite (key : String) (v : Value) (after : Table) (name : String) :
    List.lookup name ((key, v) :: after) = if name = key then some v else after.lookup name := by
  by_cases h : name = key
  · simp [h]
  · rw [List.lookup_cons, beq_eq_false_iff_ne.2 h, if_neg h]

theorem lookup_cons_cons_comm {x y : String × Value} (h : x.1 ≠ y.1) (after : Table)
    (name : String) : (y :: x :: after).lookup name = (x :: y :: after).lookup name := by
  obtain ⟨key, v⟩ := x
  obtain ⟨key', v'⟩ := y
  simp only [lookup_cons_eq_ite]
  by_cases hkey : name = key
  · have hkey' : name ≠ key' := fun e => h (hkey.symm.trans e)
    rw [if_neg hkey', if_pos hkey, if_pos hkey]
  · rw [if_neg hkey, if_neg hkey]

/-- What is found under a key stays, or it is new and says nothing. -/
theorem lookup_of_rewritten (h : Rewritten silent t t') (name : String) :
    t'.lookup name = t.lookup name ∨
      t.lookup name = none ∧ ∃ v, t'.lookup name = some v ∧ silent name v := by
  cases h with
  | @entry before after key v hnew h =>
    rw [List.lookup_append, List.lookup_append, lookup_cons_eq_ite]
    by_cases hname : name = key
    · subst hname
      rw [List.lookup_append, Option.or_eq_none_iff] at hnew
      rw [if_pos rfl, hnew.1, hnew.2]
      exact .inr ⟨rfl, v, rfl, h⟩
    · rw [if_neg hname]
      exact .inl rfl
  | swap before after h =>
    rw [List.lookup_append, List.lookup_append, lookup_cons_cons_comm h]
    exact .inl rfl

/-- An entry whose key is not among the known ones. -/
def Unknown (known : List String) (key : String) (_ : Value) : Prop := key ∉ known

/-- Unknown keys change nothing for the known ones. -/
theorem lookup_of_unknown {known : List String} (h : Rewritten (Unknown known) t t') {key : String}
    (hkey : key ∈ known) : t'.lookup key = t.lookup key := by
  rcases lookup_of_rewritten h key with h | ⟨-, v, -, hunknown⟩
  · exact h
  · exact absurd hkey hunknown

end Toml

open Toml (Rewritten Unknown)

/-! ## Documents -/

namespace Config

/-- An unknown key, or a section or list of targets without content. -/
def SilentInDocument (key : String) (v : Value) : Prop :=
  (key = "general" ∨ key = "policy" → v = .table []) ∧ (key = "objects" → v = .array [])

/-- An unknown key, or a list without names. -/
def SilentInPolicy (key : String) (v : Value) : Prop := key ∈ policyKeys → v = .array []

/-- A section or the table of one target is written otherwise. -/
inductive ValueRestated (key : String) : Value → Value → Prop where
  | general {s s' : Table} (hkey : key = "general") (h : Rewritten (Unknown generalKeys) s s') :
      ValueRestated key (.table s) (.table s')
  | policy {s s' : Table} (hkey : key = "policy") (h : Rewritten SilentInPolicy s s') :
      ValueRestated key (.table s) (.table s')
  | target (before after : List Value) {t t' : Table} (hkey : key = "objects")
      (h : Rewritten (Unknown targetKeys) t t') :
      ValueRestated key (.array (before ++ .table t :: after))
        (.array (before ++ .table t' :: after))

/-- One table of a document is written otherwise: that of the document itself, a section, or a
target. -/
inductive Restated : Table → Table → Prop where
  | document {t t' : Table} (h : Rewritten SilentInDocument t t') : Restated t t'
  | value (before after : Table) {key : String} {v v' : Value} (h : ValueRestated key v v') :
      Restated (before ++ (key, v) :: after) (before ++ (key, v') :: after)

/-- Documents that come from each other by writing tables otherwise, forth and back and as often as
one likes. -/
def Alike : Table → Table → Prop := Relation.EqvGen Restated

variable {t t' : Table}

/-- What is found under a key of a document stays, or is new and says nothing, or is written
otherwise. -/
theorem lookup_of_restated (h : Restated t t') (name : String) :
    t'.lookup name = t.lookup name ∨
      (t.lookup name = none ∧ ∃ v, t'.lookup name = some v ∧ SilentInDocument name v) ∨
      ∃ v v', t.lookup name = some v ∧ t'.lookup name = some v' ∧ ValueRestated name v v' := by
  cases h with
  | document h => exact (Toml.lookup_of_rewritten h name).imp id .inl
  | @value before after key v v' h =>
    rw [List.lookup_append, List.lookup_append, Toml.lookup_cons_eq_ite, Toml.lookup_cons_eq_ite]
    by_cases hname : name = key
    · subst hname
      rw [if_pos rfl, if_pos rfl]
      cases before.lookup name with
      | none => exact .inr (.inr ⟨v, v', rfl, rfl, h⟩)
      | some w => exact .inl rfl
    · rw [if_neg hname, if_neg hname]
      exact .inl rfl

/-- Whoever reads one entry of a document, and does not mind silent values and values written
otherwise, does not mind a document written otherwise. -/
theorem read_of_restated {α : Type} {read : Option Value → α} {name : String}
    (hsilent : ∀ v, SilentInDocument name v → read (some v) = read none)
    (hvalue : ∀ v v', ValueRestated name v v' → read (some v') = read (some v))
    (h : Restated t t') : read (t'.lookup name) = read (t.lookup name) := by
  rcases lookup_of_restated h name with h | ⟨hnone, v, hv, h⟩ | ⟨v, v', hv, hv', h⟩
  · rw [h]
  · rw [hnone, hv, hsilent v h]
  · rw [hv, hv', hvalue v v' h]

theorem readDirectory?_of_restated (h : Restated t t') :
    readDirectory? (t'.lookup "general") = readDirectory? (t.lookup "general") := by
  refine read_of_restated (fun v hv => ?_) (fun v v' h => ?_) h
  · rw [hv.1 (.inl rfl)]
    rfl
  · cases h with
    | @general s s' _ h =>
      have hkey : s'.lookup "build_dir" = s.lookup "build_dir" :=
        Toml.lookup_of_unknown h List.mem_cons_self
      simp only [readDirectory?, fieldsOf?, fields?, Option.bind_some, buildDirectory?, hkey]
    | policy hkey => exact absurd hkey (by decide)
    | target _ _ hkey => exact absurd hkey (by decide)

theorem readList?_of_restated (h : Restated t t') (a : Allowance) :
    readList? a (t'.lookup "policy") = readList? a (t.lookup "policy") := by
  refine read_of_restated (fun v hv => ?_) (fun v v' h => ?_) h
  · rw [hv.1 (.inr rfl)]
    rfl
  · cases h with
    | general hkey => exact absurd hkey (by decide)
    | @policy s s' _ h =>
      have hknown : a.configKey ∈ policyKeys := by cases a <;> decide
      simp only [readList?, fieldsOf?, fields?, Option.bind_some, list?]
      rcases Toml.lookup_of_rewritten h a.configKey with h | ⟨hnone, v, hv, hsilent⟩
      · rw [h]
      · rw [hnone, hv, hsilent hknown]
        rfl
    | target _ _ hkey => exact absurd hkey (by decide)

theorem target?_of_rewritten {s s' : Table} (h : Rewritten (Unknown targetKeys) s s') :
    target? (.table s') = target? (.table s) := by
  have hpath : s'.lookup "path" = s.lookup "path" := Toml.lookup_of_unknown h (by decide)
  have hcomponent : s'.lookup "component" = s.lookup "component" :=
    Toml.lookup_of_unknown h (by decide)
  have hpublic : s'.lookup "public_prefix" = s.lookup "public_prefix" :=
    Toml.lookup_of_unknown h (by decide)
  simp only [target?, fields?, Option.bind_eq_bind, Option.bind_some, hpath, hcomponent, hpublic]

theorem readTargets?_of_restated (h : Restated t t') :
    readTargets? (t'.lookup "objects") = readTargets? (t.lookup "objects") := by
  refine read_of_restated (fun v hv => ?_) (fun v v' h => ?_) h
  · rw [hv.2 rfl]
    rfl
  · cases h with
    | general hkey => exact absurd hkey (by decide)
    | policy hkey => exact absurd hkey (by decide)
    | target before after _ h =>
      simp only [readTargets?]
      rw [List.mapM_append, List.mapM_append, List.mapM_cons, List.mapM_cons,
        target?_of_rewritten h]

/-- A table written otherwise is read as the same. -/
theorem ofTable?_of_restated (h : Restated t t') : ofTable? t' = ofTable? t := by
  ext config
  rw [ofTable?_eq_some_iff, ofTable?_eq_some_iff, readDirectory?_of_restated h,
    readTargets?_of_restated h]
  simp only [readList?_of_restated h]

/-- Documents that are alike are read as the same configuration, or refused together. -/
theorem ofTable?_of_alike (h : Alike t t') : ofTable? t' = ofTable? t := by
  induction h with
  | rel _ _ h => exact ofTable?_of_restated h
  | refl _ => rfl
  | symm _ _ _ ih => exact ih.symm
  | trans _ _ _ _ _ ih ih' => exact ih'.trans ih

/-! ## Files -/

/-- What is written as text is read as that text. -/
theorem readText_of_toUTF8 {disk : Disk} {path : Path} {text : String}
    (h : disk.read path = .ok text.toUTF8) : disk.readText path = .ok text := by
  have htext : String.fromUTF8? text.toUTF8 = some text := by
    exact dif_pos text.isValidUTF8
  rw [Disk.readText, h, ok_bind, htext]
  rfl

/-- A file with well-formed text is loaded as what its document is read as. -/
theorem load_of_parse {disk : Disk} {path : Path} {text : String} {table : Table}
    (hread : disk.readText path = .ok text) (hparse : Toml.parse? text = some table) :
    load disk (some path) =
      match ofTable? table with
      | some config => ⟨[.configLoaded path], .ok config⟩
      | none => ⟨[], .error (.unfitting path)⟩ := by
  rw [load_some, hread]
  simp only [Except.mapError, ok_bind, ofText, hparse]
  cases ofTable? table <;> rfl

/-- A configuration file is judged by its known keys alone, and as a whole: documents that are alike
load as the same, one that fits gives exactly what it says, and one thing that does not fit leaves
nothing to run with. -/
theorem load_by_named_keys {disk : Disk} {path : Path} {text : String} {table : Table} {o : Outline}
    (hread : disk.readText path = .ok text) (hparse : Toml.parse? text = some table)
    (hfits : o.Fits table) :
    (∀ (disk' : Disk) text' table', disk'.readText path = .ok text' →
      Toml.parse? text' = some table' → Alike table table' →
        load disk' (some path) = load disk (some path)) ∧
    (∀ config, (load disk (some path)).result = .ok config ↔ o.Says config) ∧
    (o.Fitting → ∃ config, (load disk (some path)).result = .ok config ∧ o.Says config) ∧
    (o.Misfit → (load disk (some path)).result = .error (.unfitting path) ∧
      ∀ (i : Invocation) (filter : LogFilter), i.options.config = some path →
        (i.plan disk).result = .error (.config (.unfitting path)) ∧
        (i.exit disk filter).status = 1 ∧ (i.exit disk filter).stdout = "") := by
  have hload := load_of_parse hread hparse
  have hcontent (config : Config) :
      (load disk (some path)).result = .ok config ↔ o.Says config := by
    rw [hload, ← ofTable?_eq_some_iff_of_fits hfits]
    cases ofTable? table <;> simp
  refine ⟨?_, hcontent, ?_, ?_⟩
  · intro disk' text' table' hread' hparse' halike
    rw [hload, load_of_parse hread' hparse', ofTable?_of_alike halike]
  · intro h
    obtain ⟨config, hconfig⟩ := h.exists_config
    exact ⟨config, (hcontent config).2 hconfig, hconfig⟩
  · intro h
    have hnone : ofTable? table = none := by
      rw [Option.eq_none_iff_forall_ne_some]
      exact fun config hconfig => h.no_config config ((ofTable?_eq_some_iff_of_fits hfits).1 hconfig)
    have herror : (load disk (some path)).result = .error (.unfitting path) := by
      rw [hload, hnone]
    refine ⟨herror, fun i filter hpath => ?_⟩
    rw [← hpath] at herror
    rw [Invocation.plan_of_load_error herror, Invocation.exit_of_load_error filter herror]
    exact ⟨rfl, rfl, rfl⟩

/-- A document with a name twice, the same with an empty section and a misspelt key, and one with
half a target. -/
theorem load_by_named_keys_misspelt :
    let disk (text : String) : Disk := ⟨fun _ => .ok text.toUTF8⟩
    let path : Path := ⟨"c.toml"⟩
    let plain := "[policy]\nextra_core_imports=[\"f\",\"f\"]\n"
    let misspelt := "[general]\n[policy]\nextra_core=3\nextra_core_imports=[\"f\",\"f\"]\n"
    let half := "[[objects]]\npath=\"a\"\n"
    let i : Invocation := ⟨⟨false, true, none, some path⟩, none⟩
    (load (disk plain) (some path)).result = .ok ⟨none, ["f", "f"], [], [], []⟩ ∧
    load (disk misspelt) (some path) = load (disk plain) (some path) ∧
    (i.exit (disk half) .standard).status = 1 := by
  intro disk path plain misspelt half i
  let names : String × Value := ("extra_core_imports", .array [.string "f", .string "f"])
  let target : Table := [("path", .string "a")]
  have hread (text : String) : (disk text).readText path = .ok text := readText_of_toUTF8 rfl
  have hplain : Toml.parse? plain = some [("policy", .table [names])] := by
    decide +kernel
  have hmisspelt : Toml.parse? misspelt =
      some [("general", .table []), ("policy", .table [("extra_core", .integer 3), names])] := by
    decide +kernel
  have hhalf : Toml.parse? half = some [("objects", .array [.table target])] := by
    decide +kernel
  have hkey : Restated [("policy", .table [names])]
      [("policy", .table [("extra_core", .integer 3), names])] :=
    .value [] [] (.policy rfl (.entry [] [names] rfl fun hkey => absurd hkey (by decide)))
  have hsection : Restated [("policy", .table [("extra_core", .integer 3), names])]
      [("general", .table []), ("policy", .table [("extra_core", .integer 3), names])] :=
    .document (.entry [] [_] rfl ⟨fun _ => rfl, fun hkey => absurd hkey (by decide)⟩)
  obtain ⟨hsame, hcontent, -, -⟩ := load_by_named_keys (o := ⟨none, some [names], none⟩)
    (hread plain) hplain ⟨rfl, rfl, rfl⟩
  obtain ⟨-, -, -, hmisfit⟩ := load_by_named_keys (o := ⟨none, none, some [target]⟩)
    (hread half) hhalf ⟨rfl, rfl, rfl⟩
  have hmissing : Outline.Misfit ⟨none, none, some [target]⟩ :=
    .missing List.mem_cons_self (show "component" ∈ targetKeys by decide) rfl
  refine ⟨(hcontent _).2 ⟨rfl, ?_, .nil⟩, ?_, ((hmisfit hmissing).2 i _ rfl).2.1⟩
  · intro a
    cases a with
    | core => exact .inl rfl
    | extended => exact .inr ⟨rfl, rfl⟩
    | exported => exact .inr ⟨rfl, rfl⟩
  · exact hsame _ _ _ (hread misspelt) hmisspelt
      (.trans _ _ _ (.rel _ _ hkey) (.rel _ _ hsection))

end Config

end LinkageAudit

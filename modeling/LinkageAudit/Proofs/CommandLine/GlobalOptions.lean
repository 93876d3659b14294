import LinkageAudit.Proofs.CommandLine.Flags

/-!
# Reading the options that every command knows

The options that every command knows may stand before the subcommand or behind it. The words after
such an option are read as if it were not there, unless they give it again.

* `GlobalOption`: such an option with its value, as one word.
* `Draft.word_option`: reading the word of an option fills in the option and nothing else.
* `Carries`: a step of the reading that neither takes back nor looks at an option; every step is
  one, up to `carries_inner`, the reading of all words behind a subcommand.
* `parseFrom_words`, `inner_words`: reading a list of options at either level.
* `inner_giveAll`: options that the other words do not give pass through.
-/

namespace LinkageAudit

namespace CommandLine

/-! ## Forms of words -/

theorem longOf_append {name value : List Char} (h : '=' ∉ name) :
    longOf (name ++ '=' :: value) =
      .long (String.ofList name) (some (String.ofList value)) := by
  have hname : ∀ c ∈ name, (decide (c ≠ '=')) = true := by
    intro c hc
    rw [decide_eq_true_eq]
    rintro rfl
    exact h hc
  unfold longOf
  rw [List.dropWhile_append_of_pos hname, List.takeWhile_append_of_pos hname]
  simp

theorem Word.ofString_of_toList {w : String} {cs : List Char} (h : w.toList = '-' :: '-' :: cs)
    (hne : cs ≠ []) : Word.ofString w = longOf cs := by
  unfold Word.ofString
  rw [h]
  cases cs with
  | nil => exact absurd rfl hne
  | cons c cs => rfl

/-- A long option with its value in the same word. -/
theorem Word.ofString_long {name : String} (h : '=' ∉ name.toList) (value : String) :
    Word.ofString ("--" ++ name ++ "=" ++ value) = .long name (some value) := by
  have hchars : ("--" ++ name ++ "=" ++ value).toList =
      '-' :: '-' :: (name.toList ++ '=' :: value.toList) := by
    simp
  rw [Word.ofString_of_toList hchars (by simp), longOf_append h, String.ofList_toList,
    String.ofList_toList]

/-- The names of commands have no dashes. -/
theorem Word.ofString_of_isCommandName {w : String} (h : isCommandName w = true) :
    Word.ofString w = .plain := by
  rcases Bool.or_eq_true_iff.1 h with hhelp | hname
  · rw [beq_iff_eq] at hhelp
    subst hhelp
    decide
  · unfold Subcommand.ofName? at hname
    split at hname
    case h_5 => cases hname
    all_goals decide

/-! ## Options as words -/

/-- An option that every command knows. -/
inductive GlobalOption where
  | json
  | strict
  | buildDirectory (value : String)
  | config (value : String)
  deriving DecidableEq, Repr

namespace GlobalOption

/-- The name of an option. -/
def name : GlobalOption → String
  | json => "json"
  | strict => "strict"
  | buildDirectory _ => "build-dir"
  | config _ => "config"

/-- The value of an option. Flags have none. -/
def value? : GlobalOption → Option String
  | json | strict => none
  | buildDirectory value | config value => some value

/-- The word that gives an option. -/
def word (o : GlobalOption) : String :=
  match o.value? with
  | none => "--" ++ o.name
  | some value => "--" ++ o.name ++ "=" ++ value

/-- The word of an option is read as its name and its value. -/
theorem ofString_word (o : GlobalOption) : Word.ofString o.word = .long o.name o.value? := by
  cases o with
  | json | strict => decide +kernel
  | buildDirectory value => exact Word.ofString_long (by decide : '=' ∉ "build-dir".toList) value
  | config value => exact Word.ofString_long (by decide : '=' ∉ "config".toList) value

theorem word_ne_escape (o : GlobalOption) : o.word ≠ "--" := by
  intro h
  have hlong := o.ofString_word
  rw [h] at hlong
  cases hlong

theorem isCommandName_word (o : GlobalOption) : isCommandName o.word = false := by
  rw [Bool.eq_false_iff]
  intro h
  have hplain := Word.ofString_of_isCommandName h
  rw [o.ofString_word] at hplain
  cases hplain

end GlobalOption

/-! ## Drafts with an option -/

namespace Draft

variable {d : Draft} {o o' : GlobalOption}

/-- An option is given, whatever its value. -/
def has (d : Draft) : GlobalOption → Bool
  | .json => d.json
  | .strict => d.strict
  | .buildDirectory _ => d.buildDirectory.isSome
  | .config _ => d.config.isSome

/-- A draft with one more option. -/
def give (d : Draft) : GlobalOption → Draft
  | .json => { d with json := true }
  | .strict => { d with strict := true }
  | .buildDirectory value => { d with buildDirectory := some ⟨value⟩ }
  | .config value => { d with config := some ⟨value⟩ }

@[simp] theorem pending_give : (d.give o).pending = d.pending := by cases o <;> rfl

@[simp] theorem awaiting?_give : (d.give o).awaiting? = d.awaiting? := by cases o <;> rfl

@[simp] theorem hasOperand_give : (d.give o).hasOperand = d.hasOperand := by cases o <;> rfl

theorem has_empty (o : GlobalOption) : Draft.empty.has o = false := by cases o <;> rfl

/-- Options of different names do not see each other. -/
theorem has_give (h : o.name ≠ o'.name) : (d.give o).has o' = d.has o' := by
  cases o <;> cases o' <;> simp_all [give, has, GlobalOption.name]

/-- Reading the word of an option fills in that option. -/
theorem word_option (level : Level) (hpending : d.pending = none) (hfree : d.has o = false)
    (hvalue : o.value? ≠ some "") : d.word level o.word = .ok (d.give o) := by
  have hsettle : d.settle = .ok d := by rw [settle, hpending]
  have hpath {value : String} (h : some value ≠ some "") : pathOf value = .ok ⟨value⟩ := by
    rw [pathOf, if_neg]
    simpa using h
  unfold word
  rw [o.ofString_word]
  cases o with
  | json =>
    have hjson : d.json = false := hfree
    show d.raise .json = _
    simp [raise, hsettle, hjson, give, ok_bind, pure, Except.pure]
  | strict =>
    have hstrict : d.strict = false := hfree
    show d.raise .strict = _
    simp [raise, hsettle, hstrict, give, ok_bind, pure, Except.pure]
  | buildDirectory value =>
    have hholds : d.holds .buildDirectory = false := hfree
    show d.begin .buildDirectory (some value) = _
    simp [begin, hsettle, store, hholds, hpath hvalue, give, Except.map]
  | config value =>
    have hholds : d.holds .config = false := hfree
    show d.begin .config (some value) = _
    simp [begin, hsettle, store, hholds, hpath hvalue, give, Except.map]

end Draft

/-! ## Steps that leave options alone -/

/-- A step of the reading takes no option back. Unless it gives the option `o` itself, it does the
same on a draft that has `o`, and leaves `o` as it is. -/
structure Carries (o : GlobalOption) (f : Draft → Except Stop Draft) : Prop where
  keeps : ∀ d e, f d = .ok e → d.has o = true → e.has o = true
  passes : ∀ d e, f d = .ok e → e.has o = false → f (d.give o) = .ok (e.give o)

namespace Carries

variable {o : GlobalOption} {f g : Draft → Except Stop Draft}

theorem of_error (e : Stop) : Carries o fun _ => .error e where
  keeps := by
    rintro _ _ ⟨⟩
  passes := by
    rintro _ _ ⟨⟩

/-- A step that gives the option itself. -/
theorem of_gives (h : ∀ d e, f d = .ok e → e.has o = true) : Carries o f where
  keeps d e he _ := h d e he
  passes := by
    intro d e he hfree
    rw [h d e he] at hfree
    cases hfree

/-- A change of the draft that has nothing to do with the option. -/
theorem of_map {m : Draft → Draft} (hhas : ∀ d, (m d).has o = d.has o)
    (hgive : ∀ d, m (d.give o) = (m d).give o) : Carries o fun d => .ok (m d) where
  keeps := by
    rintro d _ ⟨⟩ hd
    rw [hhas, hd]
  passes := by
    rintro d _ ⟨⟩ -
    rw [hgive]

theorem ok : Carries o fun d => .ok d := of_map (m := id) (fun _ => rfl) (fun _ => rfl)

theorem bind (hf : Carries o f) (hg : Carries o g) : Carries o fun d => f d >>= g where
  keeps := by
    intro d e h hd
    obtain ⟨s, hs, he⟩ := bind_eq_ok_iff.1 h
    exact hg.keeps s e he (hf.keeps d s hs hd)
  passes := by
    intro d e h hfree
    obtain ⟨s, hs, he⟩ := bind_eq_ok_iff.1 h
    -- What the end does not have, the middle does not have.
    have hmiddle : s.has o = false := by
      rw [Bool.eq_false_iff]
      intro hhas
      rw [hg.keeps s e he hhas] at hfree
      cases hfree
    rw [hf.passes d s hs hmiddle, ok_bind]
    exact hg.passes s e he hfree

/-- What is pending has nothing to do with the option. -/
theorem pend (p : Option (Slot × Option String)) :
    Carries o fun d => .ok { d with pending := p } :=
  of_map (fun _ => by cases o <;> rfl) (fun _ => by cases o <;> rfl)

theorem map_pend (hf : Carries o f) (p : Option (Slot × Option String)) :
    Carries o fun d => (f d).map fun d => { d with pending := p } := by
  have hbind : (fun d => (f d).map fun d => { d with pending := p }) =
      fun d => f d >>= fun s => .ok { s with pending := p } := by
    funext d
    cases f d <;> rfl
  rw [hbind]
  exact hf.bind (pend p)

/-- A value that is checked for reasons other than the option, and kept. -/
theorem of_checked {α : Type} (r : Except Stop α) {m : Draft → α → Draft}
    (hhas : ∀ d a, (m d a).has o = d.has o)
    (hgive : ∀ d a, m (d.give o) a = (m d a).give o) : Carries o fun d => r.map (m d) := by
  cases r with
  | error e => exact .of_error e
  | ok a => exact .of_map (hhas · a) (hgive · a)

/-- A step that first looks at something which has nothing to do with the option. -/
theorem look {α : Type} (k : Draft → α) (hk : ∀ d, k (d.give o) = k d)
    (hf : ∀ a, ∃ g, Carries o g ∧ ∀ d, k d = a → f d = g d) : Carries o f where
  keeps := by
    intro d e he
    obtain ⟨g, hg, heq⟩ := hf (k d)
    rw [heq d rfl] at he
    exact hg.keeps d e he
  passes := by
    intro d e he hfree
    obtain ⟨g, hg, heq⟩ := hf (k d)
    rw [heq d rfl] at he
    rw [heq (d.give o) (hk d)]
    exact hg.passes d e he hfree

theorem ite {p : Draft → Prop} [∀ d, Decidable (p d)] (hp : ∀ d, p (d.give o) ↔ p d)
    (hf : Carries o f) (hg : Carries o g) : Carries o fun d => if p d then f d else g d where
  keeps := by
    intro d e h
    split at h
    · exact hf.keeps d e h
    · exact hg.keeps d e h
  passes := by
    intro d e h hfree
    split at h
    · next hd =>
      rw [if_pos ((hp d).2 hd)]
      exact hf.passes d e h hfree
    · next hd =>
      rw [if_neg (mt (hp d).1 hd)]
      exact hg.passes d e h hfree

end Carries

/-- Keeping a value gives an option in the slot of that option only. -/
theorem carries_store (o : GlobalOption) (slot : Slot) (value : String) :
    Carries o fun d => d.store slot value := by
  unfold Draft.store
  cases slot with
  | object =>
    exact .ite (fun _ => by cases o <;> rfl) (.of_error _)
      (.of_checked _ (fun _ _ => by cases o <;> rfl) (fun _ _ => by cases o <;> rfl))
  | publicPrefix =>
    exact .ite (fun _ => by cases o <;> rfl) (.of_error _)
      (.of_map (fun _ => by cases o <;> rfl) (fun _ => by cases o <;> rfl))
  | component =>
    refine .ite (fun _ => by cases o <;> rfl) (.of_error _) ?_
    cases Component.ofName? value with
    | none => exact .of_error _
    | some c => exact .of_map (fun _ => by cases o <;> rfl) (fun _ => by cases o <;> rfl)
  | buildDirectory =>
    cases o with
    | json | strict | config _ =>
      exact .ite (fun _ => .rfl) (.of_error _) (.of_checked _ (fun _ _ => rfl) (fun _ _ => rfl))
    | buildDirectory v =>
      refine .of_gives fun d e he => ?_
      split at he
      · cases he
      · obtain ⟨p, -, rfl⟩ := map_eq_ok_iff.1 he
        rfl
  | config =>
    cases o with
    | json | strict | buildDirectory _ =>
      exact .ite (fun _ => .rfl) (.of_error _) (.of_checked _ (fun _ _ => rfl) (fun _ _ => rfl))
    | config v =>
      refine .of_gives fun d e he => ?_
      split at he
      · cases he
      · obtain ⟨p, -, rfl⟩ := map_eq_ok_iff.1 he
        rfl

theorem carries_settle (o : GlobalOption) : Carries o Draft.settle := by
  refine .look Draft.pending (fun _ => Draft.pending_give) fun pending => ?_
  rcases pending with _ | ⟨slot, _ | value⟩
  · exact ⟨_, .ok, fun d hd => by rw [Draft.settle, hd]⟩
  · exact ⟨_, .of_error .invalidValue, fun d hd => by rw [Draft.settle, hd]⟩
  · refine ⟨_, (Carries.pend none).bind (carries_store o slot value), fun d hd => ?_⟩
    rw [Draft.settle, hd]
    rfl

theorem carries_raise (o : GlobalOption) (flag : Flag) : Carries o fun d => d.raise flag := by
  unfold Draft.raise
  refine (carries_settle o).bind ?_
  cases flag with
  | help | version => exact .of_error _
  | json =>
    cases o with
    | strict | buildDirectory _ | config _ =>
      exact .ite (fun _ => .rfl) (.of_error _) (.of_map (fun _ => rfl) (fun _ => rfl))
    | json =>
      refine .of_gives fun d e he => ?_
      dsimp only at he
      split at he <;> cases he
      rfl
  | strict =>
    cases o with
    | json | buildDirectory _ | config _ =>
      exact .ite (fun _ => .rfl) (.of_error _) (.of_map (fun _ => rfl) (fun _ => rfl))
    | strict =>
      refine .of_gives fun d e he => ?_
      dsimp only at he
      split at he <;> cases he
      rfl

theorem carries_begin (o : GlobalOption) (slot : Slot) (value : Option String) :
    Carries o fun d => d.begin slot value := by
  cases value with
  | none => exact (carries_settle o).map_pend _
  | some value => exact (carries_settle o).bind (carries_store o slot value)

theorem carries_long (o : GlobalOption) (level : Level) (name : String)
    (value : Option String) : Carries o fun d => d.long level name value := by
  unfold Draft.long
  split
  · split
    · exact .of_error _
    · exact carries_raise o _
  · exact carries_begin o _ value
  · exact .of_error _

theorem carries_short (o : GlobalOption) (level : Level) (letter : Char) :
    Carries o fun d => d.short level letter := by
  unfold Draft.short
  split
  · exact carries_raise o .help
  · split
    · exact carries_raise o .version
    · exact .of_error _

theorem carries_operand (o : GlobalOption) (level : Level) (escaped : Bool) (w : String) :
    Carries o fun d => d.operand level escaped w := by
  unfold Draft.operand
  cases level with
  | outer =>
    dsimp only
    split <;> exact .of_error _
  | inner command =>
    exact .ite (fun d => by rw [Draft.hasOperand_give]) ((carries_settle o).map_pend _)
      (.of_error _)

theorem carries_word (o : GlobalOption) (level : Level) (w : String) :
    Carries o fun d => d.word level w := by
  unfold Draft.word
  cases Word.ofString w with
  | long name value => exact carries_long o level name value
  | short letter => exact carries_short o level letter
  | escape | plain =>
    refine .look Draft.awaiting? (fun _ => Draft.awaiting?_give) fun awaiting => ?_
    cases awaiting with
    | none => exact ⟨_, carries_operand o level false w, fun d hd => by rw [hd]⟩
    | some slot => exact ⟨_, .pend (some (slot, some w)), fun d hd => by rw [hd]⟩

theorem carries_operands (o : GlobalOption) (level : Level) (words : List String) :
    Carries o fun d => operands level d words := by
  induction words with
  | nil => exact .ok
  | cons w words ih => exact (carries_operand o level true w).bind ih

/-- The words behind a subcommand ask for the same with an option that none of them gives. -/
theorem carries_inner (o : GlobalOption) (command : Subcommand) (words : List String) :
    Carries o fun d => inner command d words := by
  induction words with
  | nil => exact carries_settle o
  | cons w words ih =>
    simp only [inner_cons]
    by_cases hw : w = "--"
    · simp only [if_pos hw]
      exact (carries_operands o _ words).bind (carries_settle o)
    · simp only [if_neg hw]
      exact (carries_word o _ w).bind ih

/-! ## Lists of options -/

/-- Options that one level takes: each at most once, and none with an empty value. -/
structure IsChoice (opts : List GlobalOption) : Prop where
  names : (opts.map (·.name)).Nodup
  values : ∀ o ∈ opts, o.value? ≠ some ""

namespace IsChoice

variable {o : GlobalOption} {opts before after : List GlobalOption}

theorem head (h : IsChoice (o :: opts)) :
    o.value? ≠ some "" ∧ ∀ o' ∈ opts, o.name ≠ o'.name := by
  refine ⟨h.values o List.mem_cons_self, fun o' ho' hname => ?_⟩
  have hnot := (List.nodup_cons.1 h.names).1
  exact hnot (List.mem_map.2 ⟨o', ho', hname.symm⟩)

theorem of_sublist (hsub : before.Sublist opts) (h : IsChoice opts) : IsChoice before where
  names := h.names.sublist (hsub.map _)
  values o ho := h.values o (hsub.subset ho)

theorem of_perm (hperm : before.Perm opts) (h : IsChoice opts) : IsChoice before where
  names := (hperm.map _).nodup_iff.2 h.names
  values o ho := h.values o (hperm.mem_iff.1 ho)

end IsChoice

namespace Draft

variable {d : Draft} {o : GlobalOption} {opts : List GlobalOption}

/-- A draft with more options. -/
def giveAll (d : Draft) (opts : List GlobalOption) : Draft := opts.foldl give d

@[simp] theorem giveAll_cons : d.giveAll (o :: opts) = (d.give o).giveAll opts := rfl

@[simp] theorem pending_giveAll : (d.giveAll opts).pending = d.pending := by
  induction opts generalizing d with
  | nil => rfl
  | cons o opts ih => rw [giveAll_cons, ih, pending_give]

/-- An option leaves the others of its choice open. -/
theorem lacks_give (h : IsChoice (o :: opts)) (hfree : ∀ o' ∈ o :: opts, d.has o' = false) :
    ∀ o' ∈ opts, (d.give o).has o' = false := by
  intro o' ho'
  rw [has_give (h.head.2 o' ho')]
  exact hfree o' (List.mem_cons_of_mem o ho')

end Draft

/-- The words of options behind a subcommand give these options. -/
theorem inner_words {command : Subcommand} {d : Draft} {opts : List GlobalOption}
    (h : IsChoice opts) (hpending : d.pending = none) (hfree : ∀ o ∈ opts, d.has o = false)
    (words : List String) :
    inner command d (opts.map (·.word) ++ words) = inner command (d.giveAll opts) words := by
  induction opts generalizing d with
  | nil => rfl
  | cons o opts ih =>
    rw [List.map_cons, List.cons_append, inner_cons, if_neg o.word_ne_escape,
      Draft.word_option _ hpending (hfree o List.mem_cons_self) h.head.1, ok_bind]
    exact ih (h.of_sublist (List.sublist_cons_self o opts)) (by simpa using hpending)
      (Draft.lacks_give h hfree)

/-- Options that the other words do not give are there at the end as they were at the start. -/
theorem inner_giveAll {command : Subcommand} {d e : Draft} {opts : List GlobalOption}
    {words : List String} (h : IsChoice opts) (he : inner command d words = .ok e)
    (hfree : ∀ o ∈ opts, e.has o = false) :
    inner command (d.giveAll opts) words = .ok (e.giveAll opts) := by
  induction opts generalizing d e with
  | nil => exact he
  | cons o opts ih =>
    have ho := (carries_inner o command words).passes d e he (hfree o List.mem_cons_self)
    exact ih (h.of_sublist (List.sublist_cons_self o opts)) ho (Draft.lacks_give h hfree)

/-- The words of options before a subcommand give these options. -/
theorem parseFrom_words {d : Draft} {opts : List GlobalOption} (h : IsChoice opts)
    (hpending : d.pending = none) (hfree : ∀ o ∈ opts, d.has o = false) (words : List String) :
    parseFrom d (opts.map (·.word) ++ words) = parseFrom (d.giveAll opts) words := by
  induction opts generalizing d with
  | nil => rfl
  | cons o opts ih =>
    have hname := o.isCommandName_word
    rw [isCommandName, Bool.or_eq_false_iff, Option.isSome_eq_false_iff, Option.isNone_iff_eq_none]
      at hname
    rw [List.map_cons, List.cons_append, parseFrom_cons, hname.1, hname.2, Bool.and_false,
      if_neg Bool.false_ne_true, ite_self]
    dsimp only
    rw [if_neg o.word_ne_escape,
      Draft.word_option _ hpending (hfree o List.mem_cons_self) h.head.1, ok_bind]
    exact ih (h.of_sublist (List.sublist_cons_self o opts)) (by simpa using hpending)
      (Draft.lacks_give h hfree)

end CommandLine

end LinkageAudit

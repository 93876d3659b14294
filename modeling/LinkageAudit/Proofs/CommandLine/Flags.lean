import LinkageAudit.CommandLine
import LinkageAudit.Proofs.FirstFailure

/-!
# Flags on a command line

A flag is a word of its own. Where a command line makes sense with the word and without it, the two
ask for the same up to that flag.

* `AgreesUpTo`: a reading that succeeds only where another does, with that result up to a change.
* `Draft.word_of_settle`: checking a pending value early makes no difference to later words.
* `Draft.word_mark`, `inner_mark`, `parseFrom_mark`: nor does a flag that is raised already.
* `Invocation.eq_mark_of_parse_insert`: a command line with one more flag.
-/

namespace LinkageAudit

section Agreement

variable {ε α β : Type}

/-- The reading `y` succeeds only where `x` does, and gives what `x` gives, changed by `m`. -/
def AgreesUpTo (m : α → α) (x y : Except ε α) : Prop :=
  ∀ b, y = .ok b → ∃ a, x = .ok a ∧ b = m a

theorem AgreesUpTo.of_error {m : α → α} {x : Except ε α} {e : ε} : AgreesUpTo m x (.error e) := by
  rintro b ⟨⟩

theorem AgreesUpTo.of_ok {m : α → α} {a b : α} (h : b = m a) :
    AgreesUpTo m (Except.ok a : Except ε α) (.ok b) := by
  rintro _ ⟨⟩
  exact ⟨a, rfl, h⟩

theorem AgreesUpTo.map (m : α → α) (x : Except ε α) : AgreesUpTo m x (x.map m) := by
  cases x with
  | error e => exact .of_error
  | ok a => exact .of_ok rfl

theorem AgreesUpTo.refl (x : Except ε α) : AgreesUpTo id x x :=
  fun b h => ⟨b, h, rfl⟩

/-- A change that comes first can come last. -/
theorem AgreesUpTo.map_map {m : α → α} {m' : β → β} {g : α → β} (h : ∀ a, g (m a) = m' (g a))
    (x : Except ε α) : AgreesUpTo m' (x.map g) ((x.map m).map g) := by
  cases x with
  | error e => exact .of_error
  | ok a => exact .of_ok (h a)

theorem AgreesUpTo.bind {m : α → α} {m' : β → β} {x y : Except ε α} {f g : α → Except ε β}
    (h : AgreesUpTo m x y) (hf : ∀ a, x = .ok a → AgreesUpTo m' (f a) (g (m a))) :
    AgreesUpTo m' (x >>= f) (y >>= g) := by
  intro b hb
  obtain ⟨_, hy, hg⟩ := bind_eq_ok_iff.1 hb
  obtain ⟨a, hx, rfl⟩ := h _ hy
  obtain ⟨c, hc, rfl⟩ := hf a hx b hg
  exact ⟨c, bind_eq_ok_iff.2 ⟨a, hx, hc⟩, rfl⟩

end Agreement

namespace CommandLine

/-- The word that raises a flag. -/
def Flag.word : Flag → String
  | json => "--json"
  | strict => "--strict"
  | help => "--help"
  | version => "--version"

namespace Draft

/-- A draft with a flag raised. The flags that stop the reading leave no mark. -/
def mark (d : Draft) : Flag → Draft
  | .json => { d with json := true }
  | .strict => { d with strict := true }
  | .help | .version => d

/-! ## Raised flags -/

theorem awaiting?_mark (d : Draft) (f : Flag) : (d.mark f).awaiting? = d.awaiting? := by
  cases f <;> rfl

theorem hasOperand_mark (d : Draft) (f : Flag) : (d.mark f).hasOperand = d.hasOperand := by
  cases f <;> rfl

/-- Values are checked and kept without regard to flags. -/
theorem store_mark (d : Draft) (f : Flag) (slot : Slot) (value : String) :
    (d.mark f).store slot value = (d.store slot value).map (·.mark f) := by
  have hholds : (d.mark f).holds slot = d.holds slot := by
    cases f <;> cases slot <;> rfl
  unfold store
  rw [hholds]
  split
  · rfl
  · cases slot with
    | buildDirectory | config | object =>
      dsimp only
      cases pathOf value <;> cases f <;> rfl
    | publicPrefix => cases f <;> rfl
    | component =>
      dsimp only
      cases Component.ofName? value <;> cases f <;> rfl

theorem settle_mark (d : Draft) (f : Flag) : (d.mark f).settle = d.settle.map (·.mark f) := by
  have hpending : (d.mark f).pending = d.pending := by cases f <;> rfl
  have hclear : { d.mark f with pending := none } = { d with pending := none : Draft }.mark f := by
    cases f <;> rfl
  unfold settle
  rw [hpending, hclear]
  split
  · rfl
  · rfl
  · exact store_mark _ f _ _

/-- A flag cannot be raised twice, but another one does not see it. -/
theorem raise_mark (d : Draft) (f g : Flag) :
    AgreesUpTo (·.mark f) (d.raise g) ((d.mark f).raise g) := by
  unfold raise
  rw [settle_mark]
  refine (AgreesUpTo.map _ d.settle).bind fun s _ => ?_
  cases g with
  | help | version => exact .of_error
  | json => cases f <;> cases hs : s.json <;> simp [mark, hs, AgreesUpTo, pure, Except.pure]
  | strict => cases f <;> cases hs : s.strict <;> simp [mark, hs, AgreesUpTo, pure, Except.pure]

theorem begin_mark (d : Draft) (f : Flag) (slot : Slot) (value : Option String) :
    AgreesUpTo (·.mark f) (d.begin slot value) ((d.mark f).begin slot value) := by
  cases value with
  | none =>
    simp only [begin, settle_mark]
    exact .map_map (fun s => by cases f <;> rfl) d.settle
  | some value =>
    simp only [begin, settle_mark]
    refine (AgreesUpTo.map _ d.settle).bind fun s _ => ?_
    rw [store_mark]
    exact .map _ _

theorem long_mark (d : Draft) (f : Flag) (level : Level) (name : String) (value : Option String) :
    AgreesUpTo (·.mark f) (d.long level name value) ((d.mark f).long level name value) := by
  unfold long
  split
  · split
    · exact .of_error
    · exact raise_mark d f _
  · exact begin_mark d f _ _
  · exact .of_error

theorem short_mark (d : Draft) (f : Flag) (level : Level) (letter : Char) :
    AgreesUpTo (·.mark f) (d.short level letter) ((d.mark f).short level letter) := by
  unfold short
  split
  · exact raise_mark d f _
  · split
    · exact raise_mark d f _
    · exact .of_error

theorem operand_mark (d : Draft) (f : Flag) (level : Level) (escaped : Bool) (word : String) :
    AgreesUpTo (·.mark f) (d.operand level escaped word)
      ((d.mark f).operand level escaped word) := by
  unfold operand
  rw [hasOperand_mark, settle_mark]
  cases level with
  | outer =>
    dsimp only
    split <;> exact .of_error
  | inner command =>
    dsimp only
    split
    · exact .map_map (fun s => by cases f <;> rfl) d.settle
    · exact .of_error

/-- A word is read in the same way if a flag is raised already. -/
theorem word_mark (d : Draft) (f : Flag) (level : Level) (w : String) :
    AgreesUpTo (·.mark f) (d.word level w) ((d.mark f).word level w) := by
  unfold word
  rw [awaiting?_mark]
  split
  · exact long_mark d f level _ _
  · exact short_mark d f level _
  all_goals
    split
    · exact .of_ok (by cases f <;> rfl)
    · exact operand_mark d f level false w

/-! ## Checked values -/

/-- A draft whose pending value, if there is one, passes its check. -/
theorem settle_eq_ok_iff {d s : Draft} : d.settle = .ok s ↔
    (d.pending = none ∧ s = d) ∨ ∃ slot value, d.pending = some (slot, some value) ∧
      { d with pending := none : Draft }.store slot value = .ok s := by
  unfold settle
  rcases hp : d.pending with _ | ⟨slot, _ | value⟩ <;> simp [eq_comm]

/-- Keeping a value fills its own slot and leaves the pending one alone. -/
theorem pending_and_object_of_store {d s : Draft} {slot : Slot} {value : String}
    (h : d.store slot value = .ok s) :
    s.pending = d.pending ∧ s.object.isSome = (d.object.isSome || slot == .object) := by
  unfold store at h
  split at h
  · cases h
  · cases slot with
    | publicPrefix =>
      cases h
      exact ⟨rfl, (Bool.or_false _).symm⟩
    | buildDirectory | config =>
      dsimp only at h
      cases hv : pathOf value <;> rw [hv] at h <;> cases h
      exact ⟨rfl, (Bool.or_false _).symm⟩
    | object =>
      dsimp only at h
      cases hv : pathOf value <;> rw [hv] at h <;> cases h
      exact ⟨rfl, (Bool.or_true _).symm⟩
    | component =>
      dsimp only at h
      cases hv : Component.ofName? value <;> rw [hv] at h <;> cases h
      exact ⟨rfl, (Bool.or_false _).symm⟩

variable {d s : Draft}

theorem settle_of_settle (h : d.settle = .ok s) : s.pending = none ∧ s.settle = d.settle := by
  have hpending : s.pending = none := by
    rcases settle_eq_ok_iff.1 h with ⟨hp, rfl⟩ | ⟨slot, value, -, hs⟩
    · exact hp
    · exact (pending_and_object_of_store hs).1
  exact ⟨hpending, by rw [h]; exact settle_eq_ok_iff.2 (.inl ⟨hpending, rfl⟩)⟩

theorem awaiting?_of_settle (h : d.settle = .ok s) : d.awaiting? = none ∧ s.awaiting? = none := by
  have hd : d.awaiting? = none := by
    rcases settle_eq_ok_iff.1 h with ⟨hp, -⟩ | ⟨slot, value, hp, -⟩ <;> simp [awaiting?, hp]
  exact ⟨hd, by simp [awaiting?, (settle_of_settle h).1]⟩

theorem hasOperand_of_settle (h : d.settle = .ok s) : s.hasOperand = d.hasOperand := by
  have hs : s.hasOperand = s.object.isSome := by simp [hasOperand, (settle_of_settle h).1]
  rw [hs]
  rcases settle_eq_ok_iff.1 h with ⟨hp, rfl⟩ | ⟨slot, value, hp, hstore⟩
  · simp [hasOperand, hp]
  · simp [hasOperand, hp, (pending_and_object_of_store hstore).2]

theorem operand_of_settle (h : d.settle = .ok s) (level : Level) (escaped : Bool) (w : String) :
    s.operand level escaped w = d.operand level escaped w := by
  simp only [operand, (settle_of_settle h).2, hasOperand_of_settle h]

/-- Checking a pending value before the next word makes no difference to it. -/
theorem word_of_settle (h : d.settle = .ok s) (level : Level) (w : String) :
    s.word level w = d.word level w := by
  have hsettle := (settle_of_settle h).2
  have hlong (name : String) (value : Option String) :
      s.long level name value = d.long level name value := by
    cases value <;> simp only [long, raise, begin, hsettle]
  simp only [word, hlong, short, raise, hsettle, operand_of_settle h, (awaiting?_of_settle h).1,
    (awaiting?_of_settle h).2]

/-- The word of a flag checks the pending value and raises the flag, unless it stops the reading. -/
theorem word_flag (d : Draft) (f : Flag) (level : Level) :
    AgreesUpTo (·.mark f) d.settle (d.word level f.word) := by
  have hraise : AgreesUpTo (·.mark f) d.settle (d.raise f) := by
    rw [show d.settle = d.settle >>= Except.ok by cases d.settle <;> rfl]
    unfold raise
    refine (AgreesUpTo.refl d.settle).bind fun s _ => ?_
    cases f with
    | help | version => exact .of_error
    | json | strict =>
      dsimp only
      split
      · exact .of_error
      · exact .of_ok rfl
  cases f with
  | version =>
    by_cases houter : level = .outer
    · subst houter
      exact hraise
    · have hnone : d.word level Flag.version.word = .error .unknownArgument := by
        show d.long level "version" none = _
        simp [long, Level.flag?, Level.slot?, houter]
      rw [hnone]
      exact .of_error
  | json | strict | help => exact hraise

end Draft

/-! ## Words after the subcommand -/

theorem inner_cons (command : Subcommand) (d : Draft) (w : String) (words : List String) :
    inner command d (w :: words) =
      if w = "--" then operands (.inner command) d words >>= Draft.settle
      else d.word (.inner command) w >>= (inner command · words) := by
  by_cases hw : w = "--"
  · subst hw
    rfl
  · rw [if_neg hw, inner]
    exact fun h => hw h

theorem operands_mark (level : Level) (d : Draft) (f : Flag) (words : List String) :
    AgreesUpTo (·.mark f) (operands level d words) (operands level (d.mark f) words) := by
  induction words generalizing d with
  | nil => exact .of_ok rfl
  | cons w words ih => exact (d.operand_mark f level true w).bind fun d' _ => ih d'

theorem inner_mark (command : Subcommand) (d : Draft) (f : Flag) (words : List String) :
    AgreesUpTo (·.mark f) (inner command d words) (inner command (d.mark f) words) := by
  have hsettle (d : Draft) : AgreesUpTo (·.mark f) d.settle (d.mark f).settle := by
    rw [d.settle_mark]
    exact .map _ _
  induction words generalizing d with
  | nil => exact hsettle d
  | cons w words ih =>
    rw [inner_cons, inner_cons]
    split
    · exact (operands_mark _ d f words).bind fun d' _ => hsettle d'
    · exact (d.word_mark f _ w).bind fun d' _ => ih d'

theorem operands_of_settle {d s : Draft} (h : d.settle = .ok s) (level : Level) (w : String)
    (words : List String) : operands level s (w :: words) = operands level d (w :: words) := by
  show s.operand level true w >>= _ = d.operand level true w >>= _
  rw [Draft.operand_of_settle h]

theorem inner_of_settle {d s : Draft} (h : d.settle = .ok s) (command : Subcommand)
    (words : List String) : inner command s words = inner command d words := by
  have hsettle := (Draft.settle_of_settle h).2
  cases words with
  | nil => exact hsettle
  | cons w words =>
    rw [inner_cons, inner_cons, Draft.word_of_settle h]
    cases words with
    | nil =>
      split
      · exact hsettle
      · rfl
    | cons w' words => rw [operands_of_settle h]

theorem operand_inner_eq_ok {command : Subcommand} {d d' : Draft} {escaped : Bool} {w : String}
    (h : d.operand (.inner command) escaped w = .ok d') :
    command = .inspect ∧ d.hasOperand = false ∧ d'.hasOperand = true := by
  unfold Draft.operand at h
  dsimp only at h
  split at h
  · next hc =>
    cases hs : d.settle with
    | error e =>
      rw [hs] at h
      cases h
    | ok s =>
      rw [hs] at h
      cases h
      exact ⟨hc.1, by simpa using hc.2, by simp [Draft.hasOperand]⟩
  · cases h

/-- A command takes at most one operand. -/
theorem operands_cons_eq_ok {command : Subcommand} {d d' : Draft} {w : String}
    {words : List String} (h : operands (.inner command) d (w :: words) = .ok d') :
    command = .inspect ∧ d.hasOperand = false ∧ words = [] := by
  obtain ⟨d₁, h₁, h₂⟩ := bind_eq_ok_iff.1
    (show d.operand (.inner command) true w >>= (operands (.inner command) · words) = .ok d' from h)
  obtain ⟨hcommand, hfree, htaken⟩ := operand_inner_eq_ok h₁
  refine ⟨hcommand, hfree, ?_⟩
  cases words with
  | nil => rfl
  | cons w' words =>
    obtain ⟨d₂, h₃, -⟩ := bind_eq_ok_iff.1
      (show d₁.operand (.inner command) true w' >>= (operands (.inner command) · words) =
        .ok d' from h₂)
    rw [(operand_inner_eq_ok h₃).2.1] at htaken
    cases htaken

theorem Flag.word_ne_escape (f : Flag) : f.word ≠ "--" := by
  cases f <;> decide

/-- A flag among the words after the subcommand. Behind `--` its word is the operand, which is then
missing without it. -/
theorem inner_insert {command : Subcommand} {f : Flag} {before after : List String}
    {d e e' : Draft} (h : inner command d (before ++ after) = .ok e)
    (h' : inner command d (before ++ f.word :: after) = .ok e') :
    e' = e.mark f ∨ (command = .inspect ∧ e.object = none) := by
  induction before generalizing d with
  | nil =>
    rw [List.nil_append, inner_cons, if_neg f.word_ne_escape] at h'
    have hmark : AgreesUpTo (·.mark f) (d.settle >>= (inner command · after))
        (d.word (.inner command) f.word >>= (inner command · after)) :=
      (d.word_flag f _).bind fun s _ => inner_mark command s f after
    obtain ⟨a, ha, rfl⟩ := hmark _ h'
    obtain ⟨s, hs, ha⟩ := bind_eq_ok_iff.1 ha
    rw [inner_of_settle hs] at ha
    exact .inl (by rw [Except.ok.inj (ha.symm.trans h)])
  | cons w before ih =>
    rw [List.cons_append, inner_cons] at h h'
    by_cases hw : w = "--"
    · rw [if_pos hw] at h h'
      obtain ⟨d', hd', -⟩ := bind_eq_ok_iff.1 h'
      cases before with
      | cons x before =>
        have hnil := (operands_cons_eq_ok hd').2.2
        simp at hnil
      | nil =>
        obtain ⟨hcommand, hfree, rfl⟩ := operands_cons_eq_ok hd'
        have hsettle : d.settle = .ok e := h
        have hobject : e.object.isSome = false := by
          rw [← Draft.hasOperand_of_settle hsettle] at hfree
          simp only [Draft.hasOperand, Bool.or_eq_false_iff] at hfree
          exact hfree.1
        exact .inr ⟨hcommand, by simpa using hobject⟩
    · rw [if_neg hw] at h h'
      obtain ⟨d₁, hd₁, h⟩ := bind_eq_ok_iff.1 h
      rw [hd₁] at h'
      exact ih h h'

end CommandLine

/-! ## Whole command lines -/

open CommandLine

/-- Options with a flag raised. -/
def Options.mark (o : Options) : Flag → Options
  | .json => { o with json := true }
  | .strict => { o with strict := true }
  | .help | .version => o

/-- An invocation with a flag raised. -/
def Invocation.mark (i : Invocation) (f : Flag) : Invocation :=
  { i with options := i.options.mark f }

namespace CommandLine

theorem optionsOf_mark_before (before after : Draft) (f : Flag) :
    optionsOf (before.mark f) after = (optionsOf before after).mark f := by
  cases f <;> simp [optionsOf, Draft.mark, Options.mark]

theorem optionsOf_mark_after (before after : Draft) (f : Flag) :
    optionsOf before (after.mark f) = (optionsOf before after).mark f := by
  cases f <;> simp [optionsOf, Draft.mark, Options.mark]

theorem commandOf_mark (command : Subcommand) (d : Draft) (f : Flag) :
    commandOf command (d.mark f) = commandOf command d := by
  cases f <;> cases command <;> rfl

/-- What a draft and the subcommand with its words, if there is one, ask for. -/
def finish (before : Draft) : Option (Subcommand × List String) → Except Stop Invocation
  | none => do return ⟨optionsOf (← before.settle) .empty, none⟩
  | some (subcommand, words) => do
    let after ← inner subcommand .empty words
    let command ← commandOf subcommand after
    return ⟨optionsOf (← before.settle) after, some command⟩

/-- Reads words on from a draft of the outer level. -/
def parseFrom (d : Draft) (words : List String) : Except Stop Invocation := do
  let (before, rest) ← outer d words
  finish before rest

theorem parse_eq_parseFrom (words : List String) :
    Invocation.parse words = parseFrom .empty words := by
  unfold Invocation.parse parseFrom
  refine bind_congr fun ⟨before, rest⟩ => ?_
  cases rest with
  | none => rfl
  | some rest => rfl

theorem parseFrom_cons (d : Draft) (w : String) (words : List String) :
    parseFrom d (w :: words) =
      if d.awaiting?.isNone && w == "help" then .error (helpOn words)
      else match (if d.awaiting?.isNone then Subcommand.ofName? w else none) with
        | some command => finish d (some (command, words))
        | none =>
          if w = "--" then operands .outer d words >>= (finish · none)
          else d.word .outer w >>= (parseFrom · words) := by
  unfold parseFrom
  rw [outer]
  by_cases hhelp : (d.awaiting?.isNone && w == "help") = true
  · rw [if_pos hhelp, if_pos hhelp]
    rfl
  · rw [if_neg hhelp, if_neg hhelp]
    generalize (if d.awaiting?.isNone then Subcommand.ofName? w else none) = named
    cases named with
    | some command => rfl
    | none =>
      dsimp only
      by_cases hescape : w = "--"
      · rw [if_pos hescape, if_pos hescape]
        cases operands .outer d words <;> rfl
      · rw [if_neg hescape, if_neg hescape]
        cases d.word .outer w <;> rfl

theorem parseFrom_flag (d : Draft) (f : Flag) (words : List String) :
    parseFrom d (f.word :: words) = d.word .outer f.word >>= (parseFrom · words) := by
  have hhelp : (f.word == "help") = false := by cases f <;> decide
  have hname : Subcommand.ofName? f.word = none := by cases f <;> rfl
  rw [parseFrom_cons, hhelp, hname, Bool.and_false, if_neg Bool.false_ne_true, ite_self,
    if_neg f.word_ne_escape]

/-- Nothing but options stands before the subcommand. -/
theorem operands_outer_cons_ne_ok (d d' : Draft) (w : String) (words : List String) :
    operands .outer d (w :: words) ≠ .ok d' := by
  intro h
  obtain ⟨d₁, h₁, -⟩ := bind_eq_ok_iff.1
    (show d.operand .outer true w >>= (operands .outer · words) = .ok d' from h)
  unfold Draft.operand at h₁
  dsimp only at h₁
  split at h₁ <;> cases h₁

theorem finish_of_settle {d s : Draft} (h : d.settle = .ok s)
    (rest : Option (Subcommand × List String)) : finish s rest = finish d rest := by
  cases rest <;> simp only [finish, (Draft.settle_of_settle h).2]

theorem parseFrom_of_settle {d s : Draft} (h : d.settle = .ok s) (words : List String) :
    parseFrom s words = parseFrom d words := by
  cases words with
  | nil => exact finish_of_settle h none
  | cons w words =>
    have hescape : operands .outer s words >>= (finish · none) =
        operands .outer d words >>= (finish · none) := by
      cases words with
      | nil => exact finish_of_settle h none
      | cons w' words => rw [operands_of_settle h]
    simp only [parseFrom_cons, hescape, finish_of_settle h, Draft.word_of_settle h,
      Draft.awaiting?_of_settle h]

theorem finish_mark (d : Draft) (f : Flag) (rest : Option (Subcommand × List String)) :
    AgreesUpTo (·.mark f) (finish d rest) (finish (d.mark f) rest) := by
  cases rest with
  | none =>
    simp only [finish, Draft.settle_mark]
    refine (AgreesUpTo.map _ d.settle).bind fun s _ => .of_ok ?_
    rw [optionsOf_mark_before]
    rfl
  | some rest =>
    simp only [finish, Draft.settle_mark]
    refine (AgreesUpTo.refl _).bind fun after _ => (AgreesUpTo.refl _).bind fun command _ =>
      (AgreesUpTo.map _ d.settle).bind fun s _ => .of_ok ?_
    rw [optionsOf_mark_before]
    rfl

theorem parseFrom_mark (d : Draft) (f : Flag) (words : List String) :
    AgreesUpTo (·.mark f) (parseFrom d words) (parseFrom (d.mark f) words) := by
  induction words generalizing d with
  | nil => exact finish_mark d f none
  | cons w words ih =>
    rw [parseFrom_cons, parseFrom_cons, Draft.awaiting?_mark]
    split
    · exact .of_error
    · split
      · exact finish_mark d f _
      · split
        · exact (operands_mark _ d f words).bind fun d' _ => finish_mark d' f none
        · exact (d.word_mark f _ w).bind fun d' _ => ih d'

/-- A flag among the words after the subcommand makes no difference but the flag. -/
theorem finish_insert {d : Draft} {command : Subcommand} {f : Flag} {before after : List String}
    {i i' : Invocation} (h : finish d (some (command, before ++ after)) = .ok i)
    (h' : finish d (some (command, before ++ f.word :: after)) = .ok i') : i' = i.mark f := by
  simp only [finish, bind_eq_ok_iff] at h h'
  obtain ⟨e, he, c, hc, s, hs, hi⟩ := h
  obtain ⟨e', he', c', hc', s', hs', hi'⟩ := h'
  obtain rfl := Except.ok.inj (hs.symm.trans hs')
  rcases inner_insert he he' with rfl | ⟨rfl, hobject⟩
  · rw [commandOf_mark] at hc'
    obtain rfl := Except.ok.inj (hc.symm.trans hc')
    obtain rfl := Except.ok.inj hi
    obtain rfl := Except.ok.inj hi'
    rw [optionsOf_mark_after]
    rfl
  · rw [commandOf, hobject] at hc
    cases hc

theorem parseFrom_insert {d : Draft} {f : Flag} {before after : List String} {i i' : Invocation}
    (h : parseFrom d (before ++ after) = .ok i)
    (h' : parseFrom d (before ++ f.word :: after) = .ok i') : i' = i.mark f := by
  induction before generalizing d with
  | nil =>
    rw [List.nil_append, parseFrom_flag] at h'
    have hmark : AgreesUpTo (·.mark f) (d.settle >>= (parseFrom · after))
        (d.word .outer f.word >>= (parseFrom · after)) :=
      (d.word_flag f _).bind fun s _ => parseFrom_mark s f after
    obtain ⟨a, ha, rfl⟩ := hmark _ h'
    obtain ⟨s, hs, ha⟩ := bind_eq_ok_iff.1 ha
    rw [parseFrom_of_settle hs] at ha
    rw [Except.ok.inj (ha.symm.trans h)]
  | cons w before ih =>
    rw [List.cons_append, parseFrom_cons] at h h'
    split at h
    · cases h
    · next hhelp =>
      rw [if_neg hhelp] at h'
      split at h
      · next hcommand =>
        rw [hcommand] at h'
        exact finish_insert h h'
      · next hcommand =>
        rw [hcommand] at h'
        dsimp only at h'
        by_cases hw : w = "--"
        · rw [if_pos hw] at h'
          obtain ⟨d', hd', -⟩ := bind_eq_ok_iff.1 h'
          cases before <;> exact absurd hd' (operands_outer_cons_ne_ok _ _ _ _)
        · rw [if_neg hw] at h h'
          obtain ⟨d₁, hd₁, h⟩ := bind_eq_ok_iff.1 h
          rw [hd₁] at h'
          exact ih h h'

end CommandLine

/-- A command line that makes sense with the word of a flag and without it asks for the same, with
that flag raised. -/
theorem Invocation.eq_mark_of_parse_insert {f : Flag} {before after : List String}
    {i i' : Invocation} (h : Invocation.parse (before ++ after) = .ok i)
    (h' : Invocation.parse (before ++ f.word :: after) = .ok i') : i' = i.mark f := by
  rw [parse_eq_parseFrom] at h h'
  exact parseFrom_insert h h'

end LinkageAudit

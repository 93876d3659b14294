import Mathlib.Data.List.Nodup
import LinkageAudit.Program
import LinkageAudit.Proofs.CommandLine.GlobalOptions

/-!
# Where options stand on a command line

Each level reads its words into a draft of its own, and the drafts are joined at the end. The place
and the order of options therefore make no difference, and where both levels give a value, the
later one counts.

* `Options.ofList`: the options that a list gives, the later of two values in force.
* `parse_commandLine`: what a command line asks for whose options stand at both levels.
* `parse_commandLine_of_perm`, `parse_commandLine_of_later`: moving options, and dropping one.
* `exitOf_placement`: the same for whole runs.
-/

namespace LinkageAudit

/-! ## Options of a command line -/

open CommandLine

namespace Options

/-- No option is given. -/
def unset : Options := ⟨false, false, none, none⟩

/-- Options with one more. The value of an option takes the place of an earlier one. -/
def give (s : Options) : GlobalOption → Options
  | .json => { s with json := true }
  | .strict => { s with strict := true }
  | .buildDirectory value => { s with buildDirectory := some ⟨value⟩ }
  | .config value => { s with config := some ⟨value⟩ }

/-- The options that a list gives. -/
def ofList (opts : List GlobalOption) : Options := opts.foldl give unset

variable {o o' : GlobalOption} {opts opts' : List GlobalOption} {s : Options}

theorem give_give_of_name_eq (h : o.name = o'.name) : (s.give o).give o' = s.give o' := by
  cases o <;> cases o' <;> simp_all [give, GlobalOption.name]

theorem give_comm (h : o.name ≠ o'.name) : (s.give o).give o' = (s.give o').give o := by
  cases o <;> cases o' <;> simp_all [give, GlobalOption.name]

/-- The order of a choice makes no difference. -/
theorem ofList_eq_of_perm (hperm : opts.Perm opts') (h : IsChoice opts) :
    ofList opts = ofList opts' := by
  refine hperm.foldl_eq' (fun o ho o' ho' s => ?_) unset
  by_cases hname : o.name = o'.name
  · rw [List.inj_on_of_nodup_map h.names ho ho' hname]
  · exact give_comm hname

theorem foldl_give_of_mem (h : o.name ∈ opts.map (·.name)) :
    opts.foldl give (s.give o) = opts.foldl give s := by
  induction opts generalizing s with
  | nil => cases h
  | cons o' opts ih =>
    rw [List.foldl_cons, List.foldl_cons]
    by_cases hname : o.name = o'.name
    · rw [give_give_of_name_eq hname]
    · rw [give_comm hname]
      exact ih ((List.mem_cons.1 h).resolve_left hname)

/-- An option does not count where another of its name comes later. -/
theorem ofList_append_cons (h : o.name ∈ opts'.map (·.name)) :
    ofList (opts ++ o :: opts') = ofList (opts ++ opts') := by
  unfold ofList
  rw [List.foldl_append, List.foldl_cons, foldl_give_of_mem h, ← List.foldl_append]

end Options

namespace CommandLine

variable {before after d : Draft} {opts : List GlobalOption}

/-- An option behind the subcommand comes last. -/
theorem optionsOf_giveAll_after :
    optionsOf before (after.giveAll opts) = opts.foldl Options.give (optionsOf before after) := by
  induction opts generalizing after with
  | nil => rfl
  | cons o opts ih =>
    have hgive : optionsOf before (after.give o) = (optionsOf before after).give o := by
      cases o <;> simp [optionsOf, Draft.give, Options.give]
    rw [Draft.giveAll_cons, ih, hgive, List.foldl_cons]

/-- Options before the subcommand count where there are none behind it. -/
theorem optionsOf_giveAll_before (h : ∀ o, after.has o = false) :
    optionsOf (before.giveAll opts) after = opts.foldl Options.give (optionsOf before after) := by
  induction opts generalizing before with
  | nil => rfl
  | cons o opts ih =>
    have hgive : optionsOf (before.give o) after = (optionsOf before after).give o := by
      have ho := h o
      cases o <;> simp_all [optionsOf, Draft.give, Draft.has, Options.give]
    rw [Draft.giveAll_cons, ih, hgive, List.foldl_cons]

theorem lacks_of_optionsOf_eq_unset (h : optionsOf .empty d = .unset) (o : GlobalOption) :
    d.has o = false := by
  cases o <;> simp_all [optionsOf, Draft.empty, Draft.has, Options.unset]

theorem commandOf_giveAll (command : Subcommand) :
    commandOf command (d.giveAll opts) = commandOf command d := by
  induction opts generalizing d with
  | nil => rfl
  | cons o opts ih =>
    rw [Draft.giveAll_cons, ih]
    cases o <;> cases command <;> rfl

/-- The name of a subcommand. -/
def Subcommand.name : Subcommand → String
  | audit => "audit"
  | inspect => "inspect"
  | whitelist => "whitelist"
  | manifest => "manifest"

/-- The command line with options before the subcommand and directly behind its name. -/
def commandLine (before : List GlobalOption) (subcommand : Subcommand)
    (after : List GlobalOption) (args : List String) : List String :=
  before.map (·.word) ++ subcommand.name :: (after.map (·.word) ++ args)

theorem parseFrom_name (d : Draft) (hpending : d.pending = none) (subcommand : Subcommand)
    (words : List String) :
    parseFrom d (subcommand.name :: words) = finish d (some (subcommand, words)) := by
  have hawaiting : d.awaiting? = none := by simp [Draft.awaiting?, hpending]
  rw [parseFrom_cons, hawaiting]
  cases subcommand <;> rfl

theorem settle_empty_giveAll :
    (Draft.empty.giveAll opts).settle = .ok (Draft.empty.giveAll opts) :=
  Draft.settle_eq_ok_iff.2 (.inl ⟨Draft.pending_giveAll, rfl⟩)

end CommandLine

/-! ## Runs -/

section Runs

variable {subcommand : Subcommand} {args : List String} {command : Command}
  {opts before before' after : List GlobalOption} {o : GlobalOption}

/-- Options of both levels are one list of options, in the order of the command line. -/
theorem parse_commandLine
    (h : Invocation.parse (subcommand.name :: args) = .ok ⟨.unset, some command⟩)
    (hbefore : IsChoice before) (hafter : IsChoice after) :
    Invocation.parse (commandLine before subcommand after args) =
      .ok ⟨.ofList (before ++ after), some command⟩ := by
  rw [parse_eq_parseFrom, parseFrom_name _ rfl] at h
  obtain ⟨e, he, h⟩ := bind_eq_ok_iff.1
    (show inner subcommand .empty args >>= _ = Except.ok _ from h)
  obtain ⟨c, hc, h⟩ := bind_eq_ok_iff.1 h
  obtain ⟨hunset, rfl⟩ : optionsOf .empty e = .unset ∧ c = command := by
    simpa [Draft.settle, Draft.empty] using h
  -- The words of the subcommand give none of the options, so all of them pass through.
  have hlacks := lacks_of_optionsOf_eq_unset hunset
  have hinner : inner subcommand .empty (after.map (·.word) ++ args) = .ok (e.giveAll after) := by
    rw [inner_words hafter rfl fun o _ => Draft.has_empty o]
    exact inner_giveAll hafter he fun o _ => hlacks o
  have hoptions : optionsOf (Draft.empty.giveAll before) (e.giveAll after) =
      .ofList (before ++ after) := by
    rw [optionsOf_giveAll_after, optionsOf_giveAll_before hlacks, hunset, Options.ofList,
      List.foldl_append]
  rw [parse_eq_parseFrom, commandLine, parseFrom_words hbefore rfl fun o _ => Draft.has_empty o,
    parseFrom_name _ Draft.pending_giveAll]
  simp only [finish, hinner, commandOf_giveAll, hc, settle_empty_giveAll, ok_bind, hoptions]
  rfl

/-- Options alone ask for no command. -/
theorem parse_words (h : IsChoice opts) :
    Invocation.parse (opts.map (·.word)) = .ok ⟨.ofList opts, none⟩ := by
  have hwords := parseFrom_words h rfl (fun o _ => Draft.has_empty o) []
  have hoptions : optionsOf (Draft.empty.giveAll opts) .empty = .ofList opts :=
    optionsOf_giveAll_before Draft.has_empty
  rw [List.append_nil] at hwords
  rw [parse_eq_parseFrom, hwords]
  show finish _ none = _
  simp only [finish, settle_empty_giveAll, ok_bind, hoptions]
  rfl

/-- The place and the order of a choice of options make no difference. -/
theorem parse_commandLine_of_perm
    (h : Invocation.parse (subcommand.name :: args) = .ok ⟨.unset, some command⟩)
    (hopts : IsChoice opts) (hperm : (before ++ after).Perm opts) :
    Invocation.parse (commandLine before subcommand after args) =
      .ok ⟨.ofList opts, some command⟩ := by
  have hchoice := hopts.of_perm hperm
  rw [parse_commandLine h (hchoice.of_sublist (List.sublist_append_left before after))
    (hchoice.of_sublist (List.sublist_append_right before after)),
    Options.ofList_eq_of_perm hperm hchoice]

/-- An option before the subcommand does not count where another of its name stands behind it. -/
theorem parse_commandLine_of_later
    (h : Invocation.parse (subcommand.name :: args) = .ok ⟨.unset, some command⟩)
    (hbefore : IsChoice (before ++ o :: before')) (hafter : IsChoice after)
    (ho : o.name ∈ after.map (·.name)) :
    Invocation.parse (commandLine (before ++ o :: before') subcommand after args) =
      Invocation.parse (commandLine (before ++ before') subcommand after args) := by
  have hdropped : IsChoice (before ++ before') :=
    hbefore.of_sublist ((List.sublist_cons_self o before').append_left before)
  have hlater : o.name ∈ (before' ++ after).map (·.name) := by
    rw [List.map_append]
    exact List.mem_append_right _ ho
  rw [parse_commandLine h hbefore hafter, parse_commandLine h hdropped hafter, List.append_assoc,
    List.cons_append, Options.ofList_append_cons hlater, List.append_assoc]

/-- Without a command a run is that of `audit`. -/
theorem Invocation.exit_none (options : Options) (disk : Disk) (filter : LogFilter) :
    (Invocation.mk options none).exit disk filter =
      (Invocation.mk options (some .audit)).exit disk filter := rfl

/-- Runs of a subcommand whose own words make sense, with options that every command knows. Each
choice of options gives the same run wherever its members stand and in whatever order, `audit` can
be left out, and an option before the subcommand does not count where another of its name stands
behind it. -/
theorem exitOf_placement (disk : Disk) (filter : LogFilter)
    (h : Invocation.parse (subcommand.name :: args) = .ok ⟨.unset, some command⟩) :
    (∀ opts before after : List GlobalOption, IsChoice opts → (before ++ after).Perm opts →
      Invocation.parse (commandLine before subcommand after args) =
        .ok ⟨.ofList opts, some command⟩ ∧
      exitOf disk filter (commandLine before subcommand after args) =
        exitOf disk filter (commandLine opts subcommand [] args) ∧
      (command = .audit →
        exitOf disk filter (opts.map (·.word)) =
          exitOf disk filter (commandLine before subcommand after args))) ∧
    (∀ (before before' after : List GlobalOption) (o : GlobalOption),
      IsChoice (before ++ o :: before') → IsChoice after → o.name ∈ after.map (·.name) →
      exitOf disk filter (commandLine (before ++ o :: before') subcommand after args) =
        exitOf disk filter (commandLine (before ++ before') subcommand after args)) := by
  constructor
  · intro opts before after hopts hperm
    have hplaced := parse_commandLine_of_perm h hopts hperm
    have hfront : Invocation.parse (commandLine opts subcommand [] args) =
        .ok ⟨.ofList opts, some command⟩ :=
      parse_commandLine_of_perm h hopts (by rw [List.append_nil])
    refine ⟨hplaced, ?_, ?_⟩
    · rw [exitOf, hplaced, exitOf, hfront]
    · rintro rfl
      rw [exitOf, parse_words hopts, exitOf, hplaced]
      exact Invocation.exit_none _ disk filter
  · intro before before' after o hbefore hafter ho
    rw [exitOf, parse_commandLine_of_later h hbefore hafter ho, ← exitOf]

/-- Options around `inspect` with words of its own, `audit` left out, and a configuration that is
named at both levels. -/
theorem exitOf_placement_inspect :
    let disk := Disk.ofList []
    exitOf disk .standard
        ["--json", "inspect", "--build-dir=out", "--config=c.toml", "--prefix=", "--", "-a.o"] =
      exitOf disk .standard
        ["--config=c.toml", "--json", "--build-dir=out", "inspect", "--prefix=", "--", "-a.o"] ∧
    exitOf disk .standard ["--strict", "--config=-"] =
      exitOf disk .standard ["--config=-", "audit", "--strict"] ∧
    exitOf disk .standard ["--config=b.toml", "--json", "manifest", "--config=c.toml"] =
      exitOf disk .standard ["--json", "manifest", "--config=c.toml"] := by
  intro disk
  have hinspect : Invocation.parse (Subcommand.inspect.name :: ["--prefix=", "--", "-a.o"]) =
      .ok ⟨.unset, some (.inspect ⟨"-a.o"⟩ .main (some ""))⟩ := by decide +kernel
  have haudit : Invocation.parse [Subcommand.audit.name] = .ok ⟨.unset, some .audit⟩ := by
    decide +kernel
  have hmanifest : Invocation.parse [Subcommand.manifest.name] =
      .ok ⟨.unset, some .manifest⟩ := by decide +kernel
  have hchoice : IsChoice [.config "c.toml", .json, .buildDirectory "out"] :=
    ⟨by decide, by decide⟩
  have hplaced := ((exitOf_placement disk .standard hinspect).1 _ [.json]
    [.buildDirectory "out", .config "c.toml"] hchoice (by decide)).2.1
  have himplied := ((exitOf_placement disk .standard haudit).1
    [.strict, .config "-"] [.config "-"] [.strict] ⟨by decide, by decide⟩ (by decide)).2.2 rfl
  have hlater := (exitOf_placement disk .standard hmanifest).2
    [] [.json] [.config "c.toml"] (.config "b.toml") ⟨by decide, by decide⟩
    ⟨by decide, by decide⟩ (by decide)
  exact ⟨hplaced, himplied, hlater⟩

end Runs

end LinkageAudit

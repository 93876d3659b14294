import LinkageAudit.Proofs.EffectiveConfig

/-!
# Policies built step by step

A policy is built from nothing or from the built-in lists, by steps that each add names to one of
its lists. What it then is depends on the names that each list was given, in order, and on nothing
else about the steps.

* `Policy.get_run`: a list after a run has all names that were added to it.
* `Policy.names_run`: these are the built-in names and the added ones, each where it comes first;
  `Policy.names_policyFor`: so with the configured names in the policy of a plan.
* `Policy.run_eq_iff`: two runs build the same policy if they come to the same names in each list.
* `Policy.run_lists`: reports, questions and other ways to take the same steps.
-/

namespace LinkageAudit

namespace Policy

/-- A step: names for one of the lists. -/
structure Step where
  list : Allowance
  names : List String
  deriving DecidableEq, Repr

/-- All names that steps add to a list, in order. -/
def added (steps : List Step) (a : Allowance) : List String :=
  steps.flatMap fun step => if step.list = a then step.names else []

/-- Takes steps one after the other. -/
def run (p : Policy) (steps : List Step) : Policy :=
  steps.foldl (fun p step => p.extend step.list step.names) p

/-- What a policy is built from. -/
inductive Base where
  | empty
  | standard
  deriving DecidableEq, Repr

/-- The policy before any step. -/
def Base.policy : Base → Policy
  | empty => .empty
  | standard => .standard

/-- The built-in names of a list. -/
def Base.names : Base → Allowance → List String
  | empty, _ => []
  | standard, .core => standardCore
  | standard, .extended => standardExtended
  | standard, .exported => standardExported

/-! ## Lists -/

theorem eq_of_get {p q : Policy} (h : ∀ a, p.get a = q.get a) : p = q := by
  obtain ⟨core, extended, exported⟩ := q
  have hcore : p.core = core := h .core
  have hextended : p.extended = extended := h .extended
  have hexported : p.exported = exported := h .exported
  rw [← hcore, ← hextended, ← hexported]

theorem get_extend_of_ne {a b : Allowance} (h : a ≠ b) (p : Policy) (names : List String) :
    (p.extend a names).get b = p.get b := by
  rw [get_extend, if_neg h]

@[simp] theorem added_append (steps steps' : List Step) (a : Allowance) :
    added (steps ++ steps') a = added steps a ++ added steps' a :=
  List.flatMap_append

@[simp] theorem added_cons (step : Step) (steps : List Step) (a : Allowance) :
    added (step :: steps) a = (if step.list = a then step.names else []) ++ added steps a :=
  List.flatMap_cons

theorem mem_added {steps : List Step} {step : Step} (h : step ∈ steps) {name : String}
    (hname : name ∈ step.names) : name ∈ added steps step.list := by
  unfold added
  rw [List.mem_flatMap]
  exact ⟨step, h, by simpa using hname⟩

theorem run_append (p : Policy) (steps steps' : List Step) :
    p.run (steps ++ steps') = (p.run steps).run steps' :=
  List.foldl_append

/-- A run adds to each list what its steps have for it. -/
theorem get_run (p : Policy) (steps : List Step) (a : Allowance) :
    (p.run steps).get a = (p.get a).insertAll (added steps a) := by
  unfold run
  induction steps generalizing p with
  | nil => rfl
  | cons step steps ih =>
    rw [List.foldl_cons, ih, get_extend, added_cons]
    by_cases h : step.list = a
    · rw [if_pos h, if_pos h, NameSet.insertAll_append]
    · rw [if_neg h, if_neg h, List.nil_append]

theorem Base.get_policy (base : Base) (a : Allowance) :
    base.policy.get a = NameSet.empty.insertAll (base.names a) := by
  cases base with
  | empty => cases a <;> rfl
  | standard =>
    simp only [Base.policy, Policy.standard, get_extend]
    cases a <;> rfl

/-- A list has the built-in names and then the added ones, each where it comes first. -/
theorem names_run (base : Base) (steps : List Step) (a : Allowance) :
    ((base.policy.run steps).get a).names = (base.names a ++ added steps a).eraseDups := by
  rw [get_run, base.get_policy, ← NameSet.insertAll_append, NameSet.names_insertAll]
  rfl

/-- The policy of a plan is built in three steps, so each of its lists has the built-in names and
then the configured ones. -/
theorem names_policyFor (config : Config) (a : Allowance) :
    ((Plan.policyFor config).get a).names =
      (Base.standard.names a ++ config.extra a).eraseDups := by
  have hrun : Plan.policyFor config = Base.standard.policy.run
      [⟨.core, config.extraCore⟩, ⟨.extended, config.extraExtended⟩,
        ⟨.exported, config.extraExported⟩] := rfl
  rw [hrun, names_run]
  cases a <;> simp [added, Config.extra]

/-- Only what the lists come to counts. -/
theorem run_eq_iff {base : Base} {steps steps' : List Step} :
    base.policy.run steps = base.policy.run steps' ↔
      ∀ a, (base.names a ++ added steps a).eraseDups =
        (base.names a ++ added steps' a).eraseDups := by
  simp only [← names_run]
  constructor
  · intro h a
    rw [h]
  · intro h
    exact eq_of_get fun a => NameSet.eq_of_names (h a)

/-- A step that brings nothing new changes nothing. -/
theorem extend_of_subset {p : Policy} {a : Allowance} {names : List String}
    (h : ∀ name ∈ names, name ∈ (p.get a).names) : p.extend a names = p := by
  refine eq_of_get fun b => ?_
  rw [get_extend]
  by_cases hab : a = b
  · subst hab
    rw [if_pos rfl, NameSet.insertAll_of_subset h]
  · rw [if_neg hab]

/-- A step that was taken before changes nothing when it is taken again. -/
theorem run_repeat (p : Policy) {steps : List Step} {step : Step} (h : step ∈ steps)
    (later : List Step) : p.run (steps ++ step :: later) = p.run (steps ++ later) := by
  have hthere : ∀ name ∈ step.names, name ∈ ((p.run steps).get step.list).names := by
    intro name hname
    rw [get_run, NameSet.mem_insertAll]
    exact .inr (mem_added h hname)
  rw [run_append, run_append]
  show ((p.run steps).extend step.list step.names).run later = _
  rw [extend_of_subset hthere]

/-- Names can be added in one step or in two. -/
theorem run_split (base : Base) (steps later : List Step) (a : Allowance)
    (names names' : List String) :
    base.policy.run (steps ++ ⟨a, names ++ names'⟩ :: later) =
      base.policy.run (steps ++ ⟨a, names⟩ :: ⟨a, names'⟩ :: later) := by
  rw [run_eq_iff]
  intro b
  by_cases h : a = b <;> simp [h]

/-- Steps for different lists can change places. -/
theorem run_swap (base : Base) (steps later : List Step) {step step' : Step}
    (h : step.list ≠ step'.list) :
    base.policy.run (steps ++ step :: step' :: later) =
      base.policy.run (steps ++ step' :: step :: later) := by
  rw [run_eq_iff]
  intro a
  by_cases hstep : step.list = a
  · have hother : step'.list ≠ a := fun e => h (hstep.trans e.symm)
    simp [hstep, hother]
  · simp [hstep]

theorem names_prefix_of_run (p : Policy) {earlier steps : List Step} (h : earlier <+: steps)
    (a : Allowance) : ((p.run earlier).get a).names <+: ((p.run steps).get a).names := by
  obtain ⟨later, rfl⟩ := h
  rw [run_append, get_run _ later]
  exact NameSet.prefix_insertAll _ _

theorem mayImport_iff {p : Policy} {component : Component} {name : String} :
    p.mayImport component name = true ↔ name ∈ (p.get .core).names ∨
      component = .integration ∧ name ∈ (p.get .extended).names := by
  simp [mayImport, get]

theorem mayExport_iff {p : Policy} {name : String} :
    p.mayExport name = true ↔ name ∈ (p.get .exported).names :=
  NameSet.contains_iff

/-- However a policy is built, each of its lists is reported as the names that were added to it, the
built-in ones first and each at its first place, and asking the policy about a name looks it up
there. Steps for one list leave the others alone, and it does not matter in how many steps, how
often, or between which steps for other lists names are added. -/
theorem run_lists (base : Base) (steps : List Step) :
    let policy := base.policy.run steps
    let kept (a : Allowance) : List String := (base.names a ++ added steps a).eraseDups
    (∀ a, (policy.get a).names = kept a) ∧
    policy.json = .object [("core", .array ((kept .core).map .string)),
      ("extended", .array ((kept .extended).map .string)),
      ("allowed_private", .array ((kept .exported).map .string))] ∧
    (∀ a, (policy.get a).names.Nodup) ∧
    -- What was reported stays, in front of what comes later.
    (∀ earlier, earlier <+: steps → ∀ a,
      ((base.policy.run earlier).get a).names <+: (policy.get a).names) ∧
    -- The answers are those of the reported lists.
    (∀ component name, policy.mayImport component name = true ↔
      name ∈ (policy.get .core).names ∨
        component = .integration ∧ name ∈ (policy.get .extended).names) ∧
    (∀ name, policy.mayExport name = true ↔ name ∈ (policy.get .exported).names) ∧
    -- A step is about one list.
    (∀ step a, step.list ≠ a → (policy.run [step]).get a = policy.get a) ∧
    -- The same steps can be taken in other ways.
    (∀ step step' later, step.list ≠ step'.list →
      base.policy.run (steps ++ step :: step' :: later) =
        base.policy.run (steps ++ step' :: step :: later)) ∧
    (∀ a names names' later, base.policy.run (steps ++ ⟨a, names ++ names'⟩ :: later) =
      base.policy.run (steps ++ ⟨a, names⟩ :: ⟨a, names'⟩ :: later)) ∧
    (∀ step ∈ steps, ∀ later,
      base.policy.run (steps ++ step :: later) = base.policy.run (steps ++ later)) := by
  intro policy kept
  have hlists (a : Allowance) : (policy.get a).names = kept a := names_run base steps a
  refine ⟨hlists, ?_, fun a => (policy.get a).nodup,
    fun earlier h a => names_prefix_of_run base.policy h a, fun component name => mayImport_iff,
    fun name => mayExport_iff, fun step a h => get_extend_of_ne h policy step.names,
    fun step step' later h => run_swap base steps later h,
    fun a names names' later => run_split base steps later a names names',
    fun step h later => run_repeat base.policy h later⟩
  simp only [← hlists]
  rfl

/-- Names that come twice in a step, in two steps, among the built-in ones and in two lists. -/
theorem run_lists_fourRepeats :
    let extra : Step := ⟨.core, ["dlopen", "malloc", "dlopen"]⟩
    let steps : List Step := [extra, ⟨.extended, ["malloc"]⟩, ⟨.core, ["dlsym", "dlopen"]⟩]
    let policy := Base.standard.policy.run steps
    (policy.get .core).names = standardCore ++ ["dlopen", "dlsym"] ∧
    (policy.get .extended).names = standardExtended ++ ["malloc"] ∧
    (extra ∈ steps ∧ Base.standard.policy.run (steps ++ [extra]) = policy) ∧
    (extra.list ≠ .exported ∧ (policy.run [extra]).get .exported = policy.get .exported) ∧
    ([extra] <+: steps ∧
      ((Base.standard.policy.run [extra]).get .core).names <+: (policy.get .core).names) := by
  intro extra steps policy
  obtain ⟨hlists, -, -, hgrow, -, -, hother, -, -, hrepeat⟩ := run_lists .standard steps
  have hextra : extra ∈ steps := by simp [steps]
  have hearlier : [extra] <+: steps := List.prefix_append [extra] _
  have hcore : (Base.standard.names .core ++ added steps .core).eraseDups =
      standardCore ++ ["dlopen", "dlsym"] := by decide +kernel
  have hextended : (Base.standard.names .extended ++ added steps .extended).eraseDups =
      standardExtended ++ ["malloc"] := by decide +kernel
  have hlist : extra.list ≠ .exported := by decide
  exact ⟨(hlists .core).trans hcore, (hlists .extended).trans hextended,
    ⟨hextra, hrepeat extra hextra []⟩, ⟨hlist, hother extra .exported hlist⟩,
    hearlier, hgrow [extra] hearlier .core⟩

end Policy

end LinkageAudit

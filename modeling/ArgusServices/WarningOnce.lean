import ArgusServices.Publication
import ArgusServices.ResolutionTerminal
import ArgusServices.SummaryInvariant

namespace ArgusServices

open Transition

/-- No other system fails the request, and the evidence it aggregates has no negative score. -/
def Regular (w : World) (r : Request) : Prop :=
  Undisturbed w r ∧ match r with
    | .aggregate call => ∀ e ∈ w.db.evidences.find call.evidenceId, 0 ≤ e.severityScore
    | .resolve _ | .expireKey _ | .insertEvidence _ => True

instance (w : World) : ∀ r : Request, Decidable (Regular w r)
  | .aggregate call => inferInstanceAs (Decidable (call.raisesAt = none ∧
      ∀ e ∈ w.db.evidences.find call.evidenceId, 0 ≤ e.severityScore))
  | .resolve call => inferInstanceAs (Decidable (call.raisesAt = none ∧ True))
  | .expireKey _ | .insertEvidence _ => inferInstanceAs (Decidable (True ∧ True))

/-- A resolved decision that an aggregate call finds open is below the warning threshold. -/
def OpenBelowWarning (w : World) : Request → Prop
  | .aggregate call => ∀ evidence ∈ w.db.evidences.find call.evidenceId,
      ∀ d ∈ w.openDecision evidence, ∀ tenant ∈ w.db.tenants.find d.tenantId,
        evidence.capturedAt ≤ d.windowEnd → d.state.resolved = true →
          d.cumulativeSeverity < tenant.warningThreshold
  | .resolve _ | .expireKey _ | .insertEvidence _ => True

instance (w : World) : ∀ r : Request, Decidable (OpenBelowWarning w r)
  | .aggregate call => inferInstanceAs (Decidable (
      ∀ evidence ∈ w.db.evidences.find call.evidenceId, ∀ d ∈ w.openDecision evidence,
        ∀ tenant ∈ w.db.tenants.find d.tenantId, evidence.capturedAt ≤ d.windowEnd →
          d.state.resolved = true → d.cumulativeSeverity < tenant.warningThreshold))
  | .resolve _ | .expireKey _ | .insertEvidence _ => instDecidableTrue

/-- The number of `notify_warning` tasks enqueued for a decision. -/
def World.warnings (w : World) (id : Uuid) : Nat :=
  w.notifyWarning.count id

/-- A decision has been warned of once if its sum has reached the threshold, else not at all. -/
structure WarningTally (w : World) : Prop where
  summary : SummaryInvariant w.db
  warned : ∀ d, w.db.decisions.find d.id = some d →
    ∃ tenant, w.db.tenants.find d.tenantId = some tenant ∧
      w.warnings d.id = if tenant.warningThreshold ≤ d.cumulativeSeverity then 1 else 0
  unknown : ∀ id, w.db.decisions.find id = none → w.warnings id = 0

variable {w w' : World} {call : AggregateCall} {evidence : Evidence} {tenant : Tenant}
  {d : Decision}

theorem computeState_eq_warning :
    computeState d tenant = .warning ↔ tenant.warningThreshold ≤ d.cumulativeSeverity := by
  unfold computeState
  split
  next h => exact ⟨fun _ => h, fun _ => rfl⟩
  next h =>
    split
    · exact ⟨fun heq => (by cases heq), fun hle => absurd hle h⟩
    · exact ⟨fun heq => (by cases heq), fun hle => absurd hle h⟩

theorem cumulativeSeverity_le_afterLink (db : Db) (call : AggregateCall) (d : Decision)
    (h : 0 ≤ evidence.severityScore) :
    d.cumulativeSeverity ≤ (afterLink db call d evidence).cumulativeSeverity := by
  unfold afterLink
  split
  · exact Int.le_refl _
  · simp only [Decision.addEvidence]
    omega

/-- A task goes out exactly on the way into the warning state. -/
theorem count_newTasks : (newTasks tenant d).count d.id =
    if tenant.warningThreshold ≤ d.cumulativeSeverity ∧ d.state ≠ .warning then 1 else 0 := by
  unfold newTasks
  by_cases hwarn : computeState d tenant = .warning
  · have hle := computeState_eq_warning.mp hwarn
    by_cases hstate : d.state = .warning
    · simp [hwarn, hstate]
    · simp [hwarn, hle, hstate, Ne.symm hstate]
  · have hlt : ¬tenant.warningThreshold ≤ d.cumulativeSeverity :=
      fun hle => hwarn (computeState_eq_warning.mpr hle)
    simp [hwarn, hlt]

theorem count_newTasks_of_ne {id : Uuid} (h : id ≠ d.id) :
    (newTasks tenant d).count id = 0 := by
  unfold newTasks
  split
  · exact List.count_eq_zero.mpr (by simpa using h)
  · rfl

theorem Committed.warnings (h : Committed call w w' evidence tenant d) (id : Uuid) :
    w'.warnings id = w.warnings id +
      (newTasks tenant (afterLink w.db call d evidence)).count id := by
  simp only [World.warnings, h.notifyWarning, List.count_append]

theorem Undisturbed.delivered {r : Request} (h : Undisturbed w r) : Delivered w r := by
  cases r with
  | aggregate call =>
    intro evidence tenant d keys _ _ _ hfails
    have hr : call.raisesAt = none := h
    simp [FailsAfterPublish, hr] at hfails
  | resolve call =>
    intro hr
    have hnone : call.raisesAt = none := h
    rw [hnone] at hr
    cases hr
  | expireKey key => trivial
  | insertEvidence evidence => trivial

/-- The decision a call works on has been warned of exactly if it is in the warning state. -/
theorem WarningTally.target (h : WarningTally w) (hg : OpenBelowWarning w (.aggregate call))
    (hc : Committed call w w' evidence tenant d) :
    (d.state = .warning → tenant.warningThreshold ≤ d.cumulativeSeverity) ∧
      w.warnings d.id = if d.state = .warning then 1 else 0 := by
  rcases hc.target.found with ⟨hopen, hle, hrow⟩ | ⟨rfl, -, hfree⟩
  · obtain ⟨-, hten, -⟩ := World.openDecision_spec hopen
    obtain ⟨tenant', htn, hcount⟩ := h.warned d hrow
    have heq : tenant' = tenant := by
      rw [hten, hc.tenant_found] at htn
      exact (Option.some.inj htn).symm
    subst heq
    cases hres : d.state.resolved with
    | false =>
      obtain ⟨tenant₂, htn₂, hstate⟩ := (h.summary.summary _ _ hrow).state hres
      obtain rfl := Option.some.inj (htn.symm.trans htn₂)
      rw [hcount, hstate]
      simp only [computeState_eq_warning, imp_self, true_and]
    | true =>
      have hlt := hg evidence hc.evidence_found d hopen tenant' htn hle hres
      have hne : d.state ≠ .warning := by
        intro hwarn
        rw [hwarn] at hres
        cases hres
      rw [hcount, if_neg (by omega), if_neg hne]
      exact ⟨fun hwarn => absurd hwarn hne, rfl⟩
  · rw [h.unknown _ hfree]
    exact ⟨fun hwarn => (by cases hwarn), rfl⟩

theorem WarningTally.committed (h : WarningTally w) (hg : OpenBelowWarning w (.aggregate call))
    (hscore : 0 ≤ evidence.severityScore) (hc : Committed call w w' evidence tenant d) :
    WarningTally w' where
  summary := h.summary.committed hc
  warned := by
    intro r hr
    rw [hc.tenants, hc.warnings]
    rw [hc.find] at hr
    split at hr
    next hid =>
      obtain rfl := Option.some.inj hr
      obtain ⟨hwarn, hold⟩ := h.target hg hc
      refine ⟨tenant, ?_, ?_⟩
      · simp [hc.target_tenant, hc.tenant_found]
      · have hgrow := cumulativeSeverity_le_afterLink w.db call d hscore
        have hsent := @count_newTasks tenant (afterLink w.db call d evidence)
        rw [afterLink_id, afterLink_state] at hsent
        rw [afterState_id, afterLink_id, hold, hsent, afterState_cumulativeSeverity]
        by_cases hstate : d.state = .warning
        · have := hwarn hstate
          simp [hstate, show tenant.warningThreshold ≤
            (afterLink w.db call d evidence).cumulativeSeverity by omega]
        · simp [hstate]
    next hid =>
      obtain ⟨tenant', htn, hcount⟩ := h.warned r hr
      rw [count_newTasks_of_ne (by rwa [afterLink_id])]
      exact ⟨tenant', htn, hcount⟩
  unknown := by
    intro id hid
    rw [hc.find] at hid
    split at hid
    next => cases hid
    next hne =>
      rw [hc.warnings, h.unknown id hid, count_newTasks_of_ne (by rwa [afterLink_id])]

theorem WarningTally.resolve {call : ResolveCall} (h : WarningTally w)
    (hr : Resolved call w w' d) : WarningTally w' where
  summary := h.summary.resolved hr
  warned := by
    intro r hrow
    have htasks : w'.warnings = w.warnings := by
      rw [hr.world]
      rfl
    have htenants : w'.db.tenants = w.db.tenants := by
      rw [hr.world]
      rfl
    rw [htenants, htasks]
    rw [hr.find] at hrow
    split at hrow
    next =>
      obtain rfl := Option.some.inj hrow
      have hkey := w.db.decisions.keyed _ _ hr.found
      exact h.warned d (hkey ▸ hr.found)
    next => exact h.warned r hrow
  unknown := by
    intro id hid
    rw [hr.find] at hid
    split at hid
    next => cases hid
    next =>
      rw [hr.world]
      exact h.unknown id hid

theorem WarningTally.serve {r : Request} (h : WarningTally w) (hg : OpenBelowWarning w r)
    (hr : Regular w r) : WarningTally (serve w r) := by
  cases r with
  | aggregate call =>
    rcases aggregate_cases call w with hrolled | ⟨evidence, tenant, d, hc⟩
    · obtain ⟨-, htasks⟩ := hrolled.unsent (Undisturbed.delivered hr.1)
      have hcount : (ArgusServices.serve w (.aggregate call)).warnings = w.warnings := by
        funext id
        exact congrArg (List.count id) htasks
      have hdb : (ArgusServices.serve w (.aggregate call)).db = w.db := hrolled.db
      exact ⟨hdb ▸ h.summary, hdb ▸ hcount ▸ h.warned, hdb ▸ hcount ▸ h.unknown⟩
    · exact h.committed hg (hr.2 evidence hc.evidence_found) hc
  | resolve call =>
    rcases resolveDecision_cases call w with hrej | ⟨d, hdone⟩
    · have hw : ArgusServices.serve w (.resolve call) = w :=
        hrej.unsent (Undisturbed.delivered hr.1)
      rw [hw]
      exact h
    · exact h.resolve hdone
  | expireKey key => exact ⟨h.summary, h.warned, h.unknown⟩
  | insertEvidence evidence =>
    have hsummary := h.summary.serve (.insertEvidence evidence)
    simp only [ArgusServices.serve] at hsummary ⊢
    split
    next => exact h
    next hfree =>
      simp only [hfree] at hsummary
      exact ⟨hsummary, h.warned, h.unknown⟩

/-- A resolved decision over the threshold that is found open is warned of again. -/
theorem WarningTally.warned_twice {r : Request} (h : WarningTally w)
    (hg : ¬OpenBelowWarning w r) (hr : Regular w r) :
    ∃ id, 2 ≤ (ArgusServices.serve w r).warnings id := by
  cases r with
  | aggregate call =>
    simp only [OpenBelowWarning, not_forall, Int.not_lt] at hg
    obtain ⟨evidence, hev, d, hopen, tenant, htn, hle, hres, hsum⟩ := hg
    obtain ⟨hrow, hten, -⟩ := World.openDecision_spec hopen
    obtain ⟨tenant', htn', hcount⟩ := h.warned d hrow
    obtain rfl := Option.some.inj (htn'.symm.trans htn)
    have hc := aggregate_merges hr.1 hev (hten ▸ htn) hopen hle
    have hgrow := cumulativeSeverity_le_afterLink w.db call d (hr.2 evidence hev)
    have hne : d.state ≠ .warning := by
      intro hwarn
      rw [hwarn] at hres
      cases hres
    have hsent := @count_newTasks tenant' (afterLink w.db call d evidence)
    rw [afterLink_id, afterLink_state, if_pos ⟨by omega, hne⟩] at hsent
    refine ⟨d.id, ?_⟩
    have htotal := hc.warnings d.id
    rw [hsent, hcount, if_pos hsum] at htotal
    exact Nat.le_of_eq htotal.symm
  | resolve call => exact absurd trivial hg
  | expireKey key => exact absurd trivial hg
  | insertEvidence evidence => exact absurd trivial hg

theorem WarningTally.initial (h : w.Initial) : WarningTally w where
  summary := .initial h
  warned := fun d hd => by simp [h.decisions] at hd
  unknown := fun id _ => by simp [World.warnings, h.notifyWarning]

theorem WarningTally.warnings_le_one (h : WarningTally w) (id : Uuid) : w.warnings id ≤ 1 := by
  cases hd : w.db.decisions.find id with
  | none => simp [h.unknown id hd]
  | some d =>
    have hkey := w.db.decisions.keyed _ _ hd
    subst hkey
    obtain ⟨tenant, -, hcount⟩ := h.warned d hd
    rw [hcount]
    split <;> omega

theorem warnings_le_serve (r : Request) (hr : Regular w r) (id : Uuid) :
    w.warnings id ≤ (serve w r).warnings id := by
  cases r with
  | aggregate call =>
    rcases aggregate_cases call w with hrolled | ⟨evidence, tenant, d, hc⟩
    · obtain ⟨-, htasks⟩ := hrolled.unsent (Undisturbed.delivered hr.1)
      exact Nat.le_of_eq (congrArg (List.count id) htasks.symm)
    · have htotal := hc.warnings id
      exact htotal ▸ Nat.le_add_right _ _
  | resolve call =>
    rcases resolveDecision_cases call w with hrej | ⟨d, hdone⟩
    · have hw : serve w (.resolve call) = w := hrej.unsent (Undisturbed.delivered hr.1)
      rw [hw]
    · have hw : serve w (.resolve call) = _ := hdone.world
      rw [hw]
      exact Nat.le_refl _
  | expireKey key => exact Nat.le_refl _
  | insertEvidence evidence =>
    simp only [serve]
    split <;> exact Nat.le_refl _

/-- In a run without failures and without negative scores each decision is warned of at most once
exactly if no call finds a resolved decision open that has reached the warning threshold. -/
theorem warnings_le_one_iff {rs : List Request} (hw : w.Initial)
    (h : Run (Where Regular Served) w rs w') :
    (∀ id, w'.warnings id ≤ 1) ↔ Run (Where OpenBelowWarning (Where Regular Served)) w rs w' := by
  refine h.goal_iff_where WarningTally (fun w => ∀ id, w.warnings id ≤ 1)
    (fun w => ∃ id, 2 ≤ w.warnings id) ?_ ?_ ?_ (.initial hw) WarningTally.warnings_le_one ?_
  · intro w r w' hi hg hstep
    exact hstep.2 ▸ hi.serve hg hstep.1
  · intro w r w' hi hg hstep
    exact hstep.2 ▸ hi.warned_twice hg hstep.1
  · intro w r w' htwice hstep
    obtain ⟨id, hid⟩ := htwice
    exact ⟨id, hid.trans (hstep.2 ▸ warnings_le_serve r hstep.1 id)⟩
  · intro htwice hle
    obtain ⟨id, hid⟩ := htwice
    have := hle id
    omega

/-- A decision warned of, resolved and reopened by the next evidence of its window. -/
def alertRun : List Request :=
  [.aggregate (sampleAggregate 11 20), .resolve (sampleResolve 20),
    .aggregate (sampleAggregate 12 21)]

def alertWorld (score : Int) : World :=
  alertRun.foldl serve (sampleWorld [sampleEvidence 11 none score, sampleEvidence 12 none 5])

theorem regular_alertRun {score : Int} (h : score = 4 ∨ score = 12) :
    Run (Where Regular Served)
      (sampleWorld [sampleEvidence 11 none score, sampleEvidence 12 none 5]) alertRun
      (alertWorld score) := by
  apply run_serve_where
  rcases h with rfl | rfl
  · decide +kernel
  · decide +kernel

theorem warnings_alertWorld : (alertWorld 12).warnings ⟨20⟩ = 2 := by
  decide +kernel

theorem not_always_warned_once : ¬∀ (w w' : World) (rs : List Request), w.Initial →
    Run (Where Regular Served) w rs w' → ∀ id, w'.warnings id ≤ 1 := by
  intro h
  have hle := h _ _ _ (sampleWorld_initial _) (regular_alertRun (Or.inr rfl)) ⟨20⟩
  rw [warnings_alertWorld] at hle
  omega

/-- Below the threshold the resolved decision may come back, above it there is a second alert. -/
theorem warnings_le_one_iff_sample : (alertWorld 4).warnings ⟨20⟩ ≤ 1 ∧
    ¬Run (Where OpenBelowWarning (Where Regular Served))
      (sampleWorld [sampleEvidence 11 none 12, sampleEvidence 12 none 5]) alertRun
      (alertWorld 12) := by
  constructor
  · refine (warnings_le_one_iff (sampleWorld_initial _) (regular_alertRun (Or.inl rfl))).mpr ?_ ⟨20⟩
    exact run_serve_where_both (by decide +kernel)
  · intro hrun
    have hle := (warnings_le_one_iff (sampleWorld_initial _)
      (regular_alertRun (Or.inr rfl))).mpr hrun ⟨20⟩
    rw [warnings_alertWorld] at hle
    omega

end ArgusServices

import ArgusServices.AggregateEffect
import ArgusServices.ResolveEffect
import ArgusServices.Transition

namespace ArgusServices

open Transition

/-- What happens to the shared state, one transaction or outside event at a time. -/
inductive Request
  | aggregate (call : AggregateCall)
  | resolve (call : ResolveCall)
  | expireKey (key : String)
  | insertEvidence (evidence : Evidence)

def serve (w : World) : Request → World
  | .aggregate call => (aggregate call w).2
  | .resolve call => (resolveDecision call w).2
  | .expireKey key => { w with keys := Function.update w.keys key none }
  | .insertEvidence evidence =>
    if (w.db.evidences.find evidence.id).isSome then w
    else { w with db := { w.db with evidences := w.db.evidences.put evidence } }

def Served (w : World) (r : Request) (w' : World) : Prop :=
  w' = serve w r

/-- The states a run starts from: rows of other tables only, no open key, nothing sent. -/
structure World.Initial (w : World) : Prop where
  decisions : ∀ id, w.db.decisions.find id = none
  links : w.db.decisionEvidences = []
  feedback : w.db.feedback = []
  auditRecords : w.db.auditRecords = []
  keys : ∀ key, w.keys key = none
  published : w.published = []
  notifyWarning : w.notifyWarning = []

theorem run_serve (w : World) (rs : List Request) : Run Served w rs (rs.foldl serve w) := by
  induction rs generalizing w with
  | nil => exact .nil w
  | cons r rs ih => exact .cons rfl (ih _)

theorem run_served_eq {w w' : World} {rs : List Request} (h : Run Served w rs w') :
    w' = rs.foldl serve w := by
  induction h with
  | nil w => rfl
  | cons hstep _ ih => rw [ih, hstep, List.foldl_cons]

/-- The requests meet a guard, each in the state it is served in. -/
def meetsGuard (guard : World → Request → Prop) [∀ w r, Decidable (guard w r)] :
    World → List Request → Bool
  | _, [] => true
  | w, r :: rs => decide (guard w r) && meetsGuard guard (serve w r) rs

theorem run_serve_where {guard : World → Request → Prop} [∀ w r, Decidable (guard w r)]
    {w : World} {rs : List Request} (h : meetsGuard guard w rs = true) :
    Run (Where guard Served) w rs (rs.foldl serve w) := by
  induction rs generalizing w with
  | nil => exact .nil w
  | cons r rs ih =>
    simp only [meetsGuard, Bool.and_eq_true, decide_eq_true_eq] at h
    exact .cons ⟨h.1, rfl⟩ (ih h.2)

theorem run_serve_where_both {guard guard' : World → Request → Prop}
    [∀ w r, Decidable (guard w r)] [∀ w r, Decidable (guard' w r)] {w : World}
    {rs : List Request} (h : meetsGuard (fun w r => guard w r ∧ guard' w r) w rs = true) :
    Run (Where guard (Where guard' Served)) w rs (rs.foldl serve w) :=
  (run_serve_where h).mono fun _ _ _ hs => ⟨hs.1.1, hs.1.2, hs.2⟩

theorem Committed.find {call : AggregateCall} {w w' : World} {evidence : Evidence}
    {tenant : Tenant} {d : Decision} (h : Committed call w w' evidence tenant d) (id : Uuid) :
    w'.db.decisions.find id =
      if id = d.id then some (afterState call tenant (afterLink w.db call d evidence))
      else w.db.decisions.find id := by
  rw [h.db]
  simp only [stateTx, linkTx, KeyedTable.find_put, afterState_id, afterLink_id]
  split <;> rfl

theorem Resolved.find {call : ResolveCall} {w w' : World} {d : Decision}
    (h : Resolved call w w' d) (id : Uuid) :
    w'.db.decisions.find id =
      if id = d.id then some (resolvedRow call d) else w.db.decisions.find id := by
  rw [h.world]
  exact KeyedTable.find_put _ _ _

/-- The row a call works on is either the open decision or one that did not exist. -/
theorem Target.found {w : World} {call : AggregateCall} {evidence : Evidence} {tenant : Tenant}
    {d : Decision} {keys : String → Option RedisEntry}
    (h : Target w call evidence tenant d keys) :
    (w.openDecision evidence = some d ∧ evidence.capturedAt ≤ d.windowEnd ∧
        w.db.decisions.find d.id = some d) ∨
      (d = newDecision call evidence tenant ∧ w.Unmerged evidence ∧
        w.db.decisions.find d.id = none) := by
  cases h with
  | merge hd hle => exact Or.inl ⟨hd, hle, (World.openDecision_spec hd).1⟩
  | create hopen hfree _ => exact Or.inr ⟨rfl, hopen, hfree⟩

/-- No other system fails the request. -/
def Undisturbed (_ : World) : Request → Prop
  | .aggregate call => call.raisesAt = none
  | .resolve call => call.raisesAt = none
  | .expireKey _ | .insertEvidence _ => True

instance (w : World) : ∀ r : Request, Decidable (Undisturbed w r)
  | .aggregate call => inferInstanceAs (Decidable (call.raisesAt = none))
  | .resolve call => inferInstanceAs (Decidable (call.raisesAt = none))
  | .expireKey _ | .insertEvidence _ => instDecidableTrue

/-- What a commit keeps of the rows, and an evidence that arrives, every request keeps. -/
theorem serve_keeps {I : Db → Prop} {w : World} {r : Request} (h : I w.db)
    (committed : ∀ {call : AggregateCall} {w' : World} {evidence : Evidence} {tenant : Tenant}
      {d : Decision}, r = .aggregate call → Committed call w w' evidence tenant d → I w'.db)
    (resolved : ∀ {call : ResolveCall} {w' : World} {d : Decision}, r = .resolve call →
      Resolved call w w' d → I w'.db)
    (arrived : ∀ {evidence : Evidence}, w.db.evidences.find evidence.id = none →
      I { w.db with evidences := w.db.evidences.put evidence }) : I (serve w r).db := by
  cases r with
  | aggregate call =>
    rcases aggregate_cases call w with hr | ⟨evidence, tenant, d, hc⟩
    · exact hr.db ▸ h
    · exact committed rfl hc
  | resolve call =>
    rcases resolveDecision_cases call w with hr | ⟨d, hr⟩
    · exact hr.db ▸ h
    · exact resolved rfl hr
  | expireKey key => exact h
  | insertEvidence evidence =>
    simp only [serve]
    split
    next => exact h
    next hfree => exact arrived (by simpa using hfree)

/-- An undisturbed call that finds an open decision that takes its evidence works on it. -/
theorem aggregate_merges {call : AggregateCall} {w : World} {evidence : Evidence}
    {tenant : Tenant} {d : Decision} (hr : call.raisesAt = none)
    (hev : w.db.evidences.find call.evidenceId = some evidence)
    (htn : w.db.tenants.find evidence.tenantId = some tenant)
    (hopen : w.openDecision evidence = some d) (hle : evidence.capturedAt ≤ d.windowEnd) :
    Committed call w (aggregate call w).2 evidence tenant d := by
  obtain ⟨d₀, h⟩ := aggregate_commits hr hev htn (not_refused_of_merge hopen hle)
  rcases h.target.found with ⟨hopen', -⟩ | ⟨-, hun, -⟩
  · obtain rfl := Option.some.inj (hopen'.symm.trans hopen)
    exact h
  · have := hun d hopen
    omega

theorem computeState_unresolved (d : Decision) (tenant : Tenant) :
    (computeState d tenant).resolved = false := by
  unfold computeState
  split
  · rfl
  · split <;> rfl

theorem Committed.tenants {call : AggregateCall} {w w' : World} {evidence : Evidence}
    {tenant : Tenant} {d : Decision} (h : Committed call w w' evidence tenant d) :
    w'.db.tenants = w.db.tenants := by
  rw [h.db]
  rfl

theorem Committed.target_tenant {call : AggregateCall} {w w' : World} {evidence : Evidence}
    {tenant : Tenant} {d : Decision} (h : Committed call w w' evidence tenant d) :
    d.tenantId = evidence.tenantId := by
  rcases h.target.found with ⟨hopen, -⟩ | ⟨rfl, -⟩
  · exact (World.openDecision_spec hopen).2.1
  · rfl

/-- The row a call leaves is unresolved, the other rows are as they were. -/
theorem Committed.row {call : AggregateCall} {w w' : World} {evidence : Evidence}
    {tenant : Tenant} {d : Decision} (h : Committed call w w' evidence tenant d)
    {r : Decision} (hr : w'.db.decisions.find r.id = some r) :
    (r.id = d.id ∧ r.state.resolved = false ∧ r.tenantId = d.tenantId) ∨
      (r.id ≠ d.id ∧ w.db.decisions.find r.id = some r) := by
  rw [h.find] at hr
  split at hr
  next hid =>
    obtain rfl := Option.some.inj hr
    refine Or.inl ⟨hid, ?_, by simp⟩
    rw [afterState_state]
    exact computeState_unresolved _ _
  next hid => exact Or.inr ⟨hid, hr⟩

/-- Every decision is of a tenant that exists. -/
def Db.Tenanted (db : Db) : Prop :=
  ∀ d, db.decisions.find d.id = some d → ∃ tenant, db.tenants.find d.tenantId = some tenant

theorem Db.Tenanted.initial {w : World} (h : w.Initial) : w.db.Tenanted :=
  fun d hd => by simp [h.decisions] at hd

theorem Db.Tenanted.committed {call : AggregateCall} {w w' : World} {evidence : Evidence}
    {tenant : Tenant} {d : Decision} (h : w.db.Tenanted)
    (hc : Committed call w w' evidence tenant d) : w'.db.Tenanted := by
  intro r hr
  rw [hc.tenants]
  rcases hc.row hr with ⟨-, -, hten⟩ | ⟨-, hold⟩
  · exact ⟨tenant, by rw [hten, hc.target_tenant, hc.tenant_found]⟩
  · exact h r hold

theorem Db.Tenanted.resolved {call : ResolveCall} {w w' : World} {d : Decision}
    (h : w.db.Tenanted) (hr : Resolved call w w' d) : w'.db.Tenanted := by
  intro r hrow
  have htenants : w'.db.tenants = w.db.tenants := by
    rw [hr.world]
    rfl
  rw [htenants]
  rw [hr.find] at hrow
  split at hrow
  next =>
    obtain rfl := Option.some.inj hrow
    have hkey := w.db.decisions.keyed _ _ hr.found
    exact h d (hkey ▸ hr.found)
  next => exact h r hrow

theorem Db.Tenanted.serve {w : World} (r : Request) (h : w.db.Tenanted) :
    (serve w r).db.Tenanted :=
  serve_keeps h (fun _ hc => h.committed hc) (fun _ hr => h.resolved hr) (fun _ => h)

/-- A tenant and evidences of one camera, on which the properties below are tried. -/
def sampleTenant : Tenant where
  id := ⟨1⟩
  aggregationWindowSecs := 60
  weirdThreshold := 3
  warningThreshold := 10

def sampleEvidence (id : BitVec 128) (regionId : Option Uuid) (score : Int) : Evidence where
  id := ⟨id⟩
  tenantId := ⟨1⟩
  cameraId := ⟨2⟩
  regionId := regionId
  capturedAt := 0
  severityScore := score
  frameStorageUri := "file:///frame"
  ingestionId := ⟨id⟩

def sampleWorld (evidences : List Evidence) : World where
  db := {
    tenants := .put .empty sampleTenant
    evidences := evidences.foldl .put .empty
    decisions := .empty
    decisionEvidences := []
    feedback := []
    auditRecords := [] }
  keys := fun _ => none
  published := []
  notifyWarning := []

theorem sampleWorld_initial (evidences : List Evidence) : (sampleWorld evidences).Initial where
  decisions := fun _ => rfl
  links := rfl
  feedback := rfl
  auditRecords := rfl
  keys := fun _ => rfl
  published := rfl
  notifyWarning := rfl

def sampleAggregate (evidenceId newId : BitVec 128) : AggregateCall where
  evidenceId := ⟨evidenceId⟩
  newId := ⟨newId⟩
  now := 7
  raisesAt := none

def sampleResolve (decisionId : BitVec 128) : ResolveCall where
  tenantId := ⟨1⟩
  decisionId := ⟨decisionId⟩
  body := ⟨.truePositive, "", 7⟩
  auth := ⟨"watcher", some ⟨1⟩, .watcher⟩
  clock := 8
  now := 8
  raisesAt := none

def World.stateOf (w : World) (id : Uuid) : Option DecisionState :=
  (w.db.decisions.find id).map Decision.state

end ArgusServices

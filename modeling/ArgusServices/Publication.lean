import ArgusServices.SerialRun

namespace ArgusServices

open Transition

/-- The decision and the two states a `decision.state_changed` event names. -/
def Event.stateChange : Event → Option (Uuid × DecisionState × DecisionState)
  | .wsStateChanged _ id _ _ previous current _ _ => some (id, previous, current)
  | .busStateChanged _ id current previous => some (id, previous, current)
  | .wsResolved .. => none

/-- A committed `state_change` audit record of a decision between two states. -/
def Db.ChangeRecorded (db : Db) (id : Uuid) (previous current : DecisionState) : Prop :=
  ∃ a ∈ db.auditRecords, a.decisionId = id ∧ a.eventType = "state_change" ∧
    ∃ count severity, a.payload = .stateChange previous current count severity

/-- What is published of the changes and enqueued of the warnings has its audit record. -/
structure Recorded (w : World) : Prop where
  changes : ∀ e ∈ w.published, ∀ id previous current,
    e.stateChange = some (id, previous, current) → w.db.ChangeRecorded id previous current
  warnings : ∀ id ∈ w.notifyWarning, ∃ previous, w.db.ChangeRecorded id previous .warning

/-- Every resolution event of a run was preceded by a committed state that has it. -/
def ResolutionsCommitted (w : World) (rs : List Request) (w' : World) : Prop :=
  ∀ tenantId id state resolvedBy resolvedAt,
    .wsResolved tenantId id state resolvedBy resolvedAt ∈ w'.published →
      ∃ ss w₁, ss <+: rs ∧ Run Served w ss w₁ ∧ w₁.stateOf id = some state ∧ state.resolved = true

/-- Published events are never ahead of the database. -/
def NeverAhead (w : World) (rs : List Request) (w' : World) : Prop :=
  Recorded w' ∧ ResolutionsCommitted w rs w'

/-- No call raises between its first event and its commit. -/
def Delivered (w : World) : Request → Prop
  | .aggregate call => ∀ evidence tenant d keys,
      w.db.evidences.find call.evidenceId = some evidence →
      w.db.tenants.find evidence.tenantId = some tenant →
      Target w call evidence tenant d keys →
        ¬FailsAfterPublish call tenant (afterLink w.db call d evidence)
  | .resolve call => call.raisesAt = some .commit → ∀ d, ¬Accepted call w d
  | .expireKey _ | .insertEvidence _ => True

theorem Db.ChangeRecorded.mono {db db' : Db} {id : Uuid} {previous current : DecisionState}
    (h : db.ChangeRecorded id previous current)
    (hsub : ∀ a ∈ db.auditRecords, a ∈ db'.auditRecords) :
    db'.ChangeRecorded id previous current := by
  obtain ⟨a, ha, hrest⟩ := h
  exact ⟨a, hsub a ha, hrest⟩

/-- The events of a call name the change its audit record is written for. -/
theorem newEvents_recorded {tenant : Tenant} {d : Decision} {db : Db} {e : Event}
    {id : Uuid} {previous current : DecisionState} (he : e ∈ newEvents tenant d)
    (hc : e.stateChange = some (id, previous, current))
    (hsub : ∀ a ∈ newAudits tenant d, a ∈ db.auditRecords) :
    db.ChangeRecorded id previous current := by
  unfold newEvents at he
  unfold newAudits at hsub
  split at he
  · cases he
  next hnew =>
    simp only [hnew, ↓reduceIte] at hsub
    have ha := hsub _ List.mem_cons_self
    rcases List.mem_cons.mp he with rfl | he
    · cases hc
      exact ⟨_, ha, rfl, rfl, _, _, rfl⟩
    · obtain rfl := List.mem_singleton.mp he
      cases hc
      exact ⟨_, ha, rfl, rfl, _, _, rfl⟩

theorem newTasks_recorded {tenant : Tenant} {d : Decision} {db : Db} {id : Uuid}
    (hid : id ∈ newTasks tenant d)
    (hsub : ∀ a ∈ newAudits tenant d, a ∈ db.auditRecords) :
    db.ChangeRecorded id d.state .warning := by
  unfold newTasks at hid
  unfold newAudits at hsub
  split at hid
  next hnew =>
    obtain ⟨hne, hwarn⟩ := hnew
    obtain rfl := List.mem_singleton.mp hid
    rw [if_neg hne, hwarn] at hsub
    exact ⟨_, hsub _ List.mem_cons_self, rfl, rfl, _, _, rfl⟩
  · cases hid

theorem newEvents_not_resolved {tenant : Tenant} {d : Decision} {tenantId id : Uuid}
    {state : DecisionState} {resolvedBy : String} {resolvedAt : Int} :
    Event.wsResolved tenantId id state resolvedBy resolvedAt ∉ newEvents tenant d := by
  unfold newEvents
  split <;> simp

/-- A call that delivers what it publishes and is rolled back has sent nothing. -/
theorem RolledBack.unsent {call : AggregateCall} {w w' : World} (h : RolledBack call w w')
    (hd : Delivered w (.aggregate call)) :
    w'.published = w.published ∧ w'.notifyWarning = w.notifyWarning := by
  rcases h.leftover with rfl | ⟨evidence, tenant, hev, htn, hleft⟩
  · exact ⟨rfl, rfl⟩
  · cases hleft with
    | untouched => exact ⟨rfl, rfl⟩
    | keyDeleted => exact ⟨rfl, rfl⟩
    | @decided d keys es ts htarget hsent =>
      have hes : es = [] := by
        by_contra hne
        exact hd _ _ _ _ hev htn htarget (hsent.late hne)
      simp [hes, hsent.events_first hes]

theorem Recorded.committed {call : AggregateCall} {w w' : World} {evidence : Evidence}
    {tenant : Tenant} {d : Decision} (h : Recorded w)
    (hc : Committed call w w' evidence tenant d) : Recorded w' := by
  have hold : ∀ a ∈ w.db.auditRecords, a ∈ w'.db.auditRecords := by
    intro a ha
    rw [hc.db]
    exact List.mem_append_left _ ha
  have hnew : ∀ a ∈ newAudits tenant (afterLink w.db call d evidence),
      a ∈ w'.db.auditRecords := by
    intro a ha
    rw [hc.db]
    exact List.mem_append_right _ ha
  constructor
  · intro e he id previous current hchange
    rw [hc.published] at he
    rcases List.mem_append.mp he with he | he
    · exact (h.changes e he id previous current hchange).mono hold
    · exact newEvents_recorded he hchange hnew
  · intro id hid
    rw [hc.notifyWarning] at hid
    rcases List.mem_append.mp hid with hid | hid
    · obtain ⟨previous, hrec⟩ := h.warnings id hid
      exact ⟨previous, hrec.mono hold⟩
    · exact ⟨_, newTasks_recorded hid hnew⟩

theorem Recorded.resolved {call : ResolveCall} {w w' : World} {d : Decision} (h : Recorded w)
    (hr : Resolved call w w' d) : Recorded w' := by
  have hold : ∀ a ∈ w.db.auditRecords, a ∈ w'.db.auditRecords := by
    intro a ha
    rw [hr.world]
    exact List.mem_append_left _ ha
  constructor
  · intro e he id previous current hchange
    rw [hr.world] at he
    rcases List.mem_append.mp he with he | he
    · exact (h.changes e he id previous current hchange).mono hold
    · obtain rfl := List.mem_singleton.mp he
      cases hchange
  · intro id hid
    rw [hr.world] at hid
    obtain ⟨previous, hrec⟩ := h.warnings id hid
    exact ⟨previous, hrec.mono hold⟩

/-- Unless it fails at its commit, a request that raised has published nothing. -/
theorem Rejected.unsent {call : ResolveCall} {w w' : World} (h : Rejected call w w')
    (hd : Delivered w (.resolve call)) : w' = w := by
  cases h with
  | unchanged _ => rfl
  | published hr hacc => exact absurd hacc (hd hr _)

theorem Recorded.serve {w : World} {r : Request} (h : Recorded w) (hd : Delivered w r) :
    Recorded (serve w r) := by
  cases r with
  | aggregate call =>
    rcases aggregate_cases call w with hr | ⟨evidence, tenant, d, hc⟩
    · obtain ⟨hpub, htask⟩ := hr.unsent hd
      have hdb := hr.db
      constructor
      · intro e he id previous current hchange
        exact (h.changes e (hpub ▸ he) id previous current hchange).mono (fun a ha => hdb ▸ ha)
      · intro id hid
        obtain ⟨previous, hrec⟩ := h.warnings id (htask ▸ hid)
        exact ⟨previous, hrec.mono (fun a ha => hdb ▸ ha)⟩
    · exact h.committed hc
  | resolve call =>
    rcases resolveDecision_cases call w with hr | ⟨d, hr⟩
    · have hw : ArgusServices.serve w (.resolve call) = w := hr.unsent hd
      rw [hw]
      exact h
    · exact h.resolved hr
  | expireKey key => exact ⟨h.changes, h.warnings⟩
  | insertEvidence evidence =>
    simp only [ArgusServices.serve]
    split
    · exact h
    · exact ⟨h.changes, h.warnings⟩

/-- A resolution event that a step publishes has its state in the rows the step commits. -/
theorem serve_resolved_event {w : World} {r : Request} {tenantId id : Uuid}
    {state : DecisionState} {resolvedBy : String} {resolvedAt : Int} (hd : Delivered w r)
    (hold : .wsResolved tenantId id state resolvedBy resolvedAt ∉ w.published)
    (hnew : .wsResolved tenantId id state resolvedBy resolvedAt ∈ (serve w r).published) :
    (serve w r).stateOf id = some state ∧ state.resolved = true := by
  cases r with
  | aggregate call =>
    rcases aggregate_cases call w with hr | ⟨evidence, tenant, d, hc⟩
    · exact absurd ((hr.unsent hd).1 ▸ hnew) hold
    · have hpub := hc.published
      rcases List.mem_append.mp (hpub ▸ hnew) with he | he
      · exact absurd he hold
      · exact absurd he newEvents_not_resolved
  | resolve call =>
    rcases resolveDecision_cases call w with hr | ⟨d, hr⟩
    · exact absurd (hr.unsent hd ▸ hnew) hold
    · have hpub : (serve w (.resolve call)).published = w.published ++ [resolvedEvent call d] := by
        simp only [serve, hr.world]
      rw [hpub] at hnew
      rcases List.mem_append.mp hnew with he | he
      · exact absurd he hold
      · cases List.mem_singleton.mp he
        refine ⟨?_, dispositionToState_resolved _⟩
        exact Option.map_eq_some_iff.mpr ⟨_, (hr.find d.id).trans (if_pos rfl), rfl⟩
  | expireKey key => exact absurd hnew hold
  | insertEvidence evidence =>
    simp only [serve] at hnew
    split at hnew
    · exact absurd hnew hold
    · exact absurd hnew hold

theorem run_resolutionsCommitted {w w' : World} {rs : List Request} (hw : w.published = [])
    (h : Run (Where Delivered Served) w rs w') : ResolutionsCommitted w rs w' := by
  intro tenantId id state resolvedBy resolvedAt hmem
  rcases h.arises (P := fun w => .wsResolved tenantId id state resolvedBy resolvedAt ∈ w.published)
    hmem with hp | ⟨ls₁, r, ls₂, u, v, hrs, hrun, hold, ⟨hd, hstep⟩, hnew⟩
  · simp [hw] at hp
  · subst hstep
    refine ⟨ls₁ ++ [r], serve u r, ⟨ls₂, by simp [hrs]⟩, ?_, serve_resolved_event hd hold hnew⟩
    exact hrun.of_where.append (Run.single rfl)

/-- In the runs whose calls never raise between their first event and their commit, whatever was
published or enqueued is in the database. -/
theorem published_never_ahead {w w' : World} {rs : List Request} (hw : w.Initial)
    (h : Run (Where Delivered Served) w rs w') : NeverAhead w rs w' := by
  refine ⟨h.invariant_where ?_ ?_, run_resolutionsCommitted hw.published h⟩
  · intro u r v hrec hd hstep
    rw [hstep]
    exact hrec.serve hd
  · constructor
    · intro e he
      simp [hw.published] at he
    · intro id hid
      simp [hw.notifyWarning] at hid

def publishedStart : World :=
  sampleWorld [sampleEvidence 11 none 10]

/-- A call that raises its decision to warning, and whose commit fails. -/
def failedCommit : List Request :=
  [.aggregate { sampleAggregate 11 20 with raisesAt := some .commit }]

theorem not_published_never_ahead : ¬∀ (w w' : World) (rs : List Request), w.Initial →
    Run Served w rs w' → NeverAhead w rs w' := by
  intro h
  have hrec := (h publishedStart _ failedCommit (sampleWorld_initial _) (run_serve _ _)).1
  obtain ⟨previous, a, ha, _⟩ := hrec.warnings ⟨20⟩ (by decide)
  have hnone : (failedCommit.foldl serve publishedStart).db.auditRecords = [] := by decide
  simp [hnone] at ha

def warnedRun : List Request :=
  [.aggregate (sampleAggregate 11 20), .resolve (sampleResolve 20)]

theorem published_never_ahead_sample :
    NeverAhead publishedStart warnedRun (warnedRun.foldl serve publishedStart) ∧
      (warnedRun.foldl serve publishedStart).published.length = 3 ∧
      (warnedRun.foldl serve publishedStart).notifyWarning = [⟨20⟩] := by
  refine ⟨published_never_ahead (sampleWorld_initial _) ?_, by decide, by decide⟩
  refine .cons ⟨?_, rfl⟩ (.cons ⟨?_, rfl⟩ (.nil _))
  · intro evidence tenant d keys _ _ _ hfail
    obtain ⟨_, h | h | ⟨h, _⟩⟩ := hfail <;> cases h
  · intro h
    cases h

end ArgusServices

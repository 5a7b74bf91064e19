import ArgusServices.ResolutionTerminal

namespace ArgusServices

open Transition

/-- The state after an audit record, `none` if the record does not follow on the state before. -/
def AuditPayload.replay (s : DecisionState) : AuditPayload → Option DecisionState
  | .stateChange fromState toState _ _ => if fromState = s then some toState else none
  | .resolved disposition _ => some (dispositionToState disposition)

/-- The audit records of a decision, in the order written. -/
def Db.trail (db : Db) (id : Uuid) : List AuditPayload :=
  (db.auditRecords.filter fun r => r.decisionId = id).map AuditRecord.payload

def replayTrail (trail : List AuditPayload) : Option DecisionState :=
  trail.foldlM AuditPayload.replay .normal

/-- A trail that can be replayed to a state, and in which every record changes the state. -/
structure LeadsTo (trail : List AuditPayload) (s : DecisionState) : Prop where
  replayed : replayTrail trail = some s
  changes : ∀ before p after, trail = before ++ p :: after →
    ∃ t t', replayTrail before = some t ∧ p.replay t = some t' ∧ t' ≠ t

theorem LeadsTo.nil : LeadsTo [] .normal where
  replayed := rfl
  changes := by
    intro before p after h
    cases before <;> cases h

theorem LeadsTo.snoc {trail : List AuditPayload} {s s' : DecisionState} {p : AuditPayload}
    (h : LeadsTo trail s) (hp : p.replay s = some s') (hne : s' ≠ s) :
    LeadsTo (trail ++ [p]) s' where
  replayed := by
    have hs := h.replayed
    unfold replayTrail at hs ⊢
    simp [List.foldlM_append, hs, hp]
  changes := by
    intro before q after heq
    rcases List.eq_nil_or_concat after with rfl | ⟨after', r, rfl⟩
    · obtain ⟨rfl, hq⟩ := List.append_inj' heq rfl
      obtain rfl := List.singleton_inj.mp hq
      exact ⟨s, s', h.replayed, hp, hne⟩
    · have heq' : trail ++ [p] = (before ++ q :: after') ++ [r] := by simpa using heq
      obtain ⟨htrail, -⟩ := List.append_inj' heq' rfl
      exact h.changes before q after' htrail

/-- The history of every decision leads to its row, and there is no history without a row. -/
structure AuditTrail (db : Db) : Prop where
  leads : ∀ id d, db.decisions.find id = some d → LeadsTo (db.trail id) d.state
  known : ∀ r ∈ db.auditRecords, ∃ d, db.decisions.find r.decisionId = some d

theorem AuditTrail.initial {w : World} (h : w.Initial) : AuditTrail w.db where
  leads := fun id d hd => by simp [h.decisions id] at hd
  known := fun r hr => by simp [h.auditRecords] at hr

theorem AuditTrail.trail_of_free {db : Db} (h : AuditTrail db) {id : Uuid}
    (hfree : db.decisions.find id = none) : db.trail id = [] := by
  have hnone : (db.auditRecords.filter fun r => r.decisionId = id) = [] := by
    refine List.filter_eq_nil_iff.mpr fun r hr heq => ?_
    obtain ⟨d, hd⟩ := h.known r hr
    simp [of_decide_eq_true heq, hfree] at hd
  simp [Db.trail, hnone]

/-- New records of one decision go to the end of its trail and leave the other trails alone. -/
theorem trail_append {db db' : Db} {rs : List AuditRecord} {id₀ : Uuid}
    (h : db'.auditRecords = db.auditRecords ++ rs) (hrs : ∀ r ∈ rs, r.decisionId = id₀)
    (id : Uuid) : db'.trail id =
      if id = id₀ then db.trail id ++ rs.map AuditRecord.payload else db.trail id := by
  simp only [Db.trail, h, List.filter_append, List.map_append]
  split
  next heq =>
    have hall : rs.filter (fun r => r.decisionId = id) = rs := by
      rw [List.filter_eq_self]
      intro r hr
      exact decide_eq_true ((hrs r hr).trans heq.symm)
    rw [hall]
  next hne =>
    have hnone : rs.filter (fun r => r.decisionId = id) = [] := by
      rw [List.filter_eq_nil_iff]
      intro r hr heq
      exact hne ((of_decide_eq_true heq).symm.trans (hrs r hr))
    rw [hnone, List.map_nil, List.append_nil]

theorem newAudits_decisionId {tenant : Tenant} {d : Decision} {r : AuditRecord}
    (h : r ∈ newAudits tenant d) : r.decisionId = d.id := by
  unfold newAudits at h
  split at h
  · cases h
  · obtain rfl := List.mem_singleton.mp h
    rfl

/-- The record of a state change follows on the state the row had. -/
theorem LeadsTo.newAudits {trail : List AuditPayload} {d : Decision} (tenant : Tenant)
    (h : LeadsTo trail d.state) :
    LeadsTo (trail ++ (newAudits tenant d).map AuditRecord.payload) (computeState d tenant) := by
  unfold ArgusServices.newAudits
  split
  next hsame =>
    rw [hsame, List.map_nil, List.append_nil]
    exact h
  next hnew => exact h.snoc (by simp [AuditPayload.replay]) hnew

theorem AuditTrail.committed {call : AggregateCall} {w w' : World} {evidence : Evidence}
    {tenant : Tenant} {d : Decision} (h : AuditTrail w.db)
    (hc : Committed call w w' evidence tenant d) : AuditTrail w'.db := by
  have haudits : w'.db.auditRecords =
      w.db.auditRecords ++ newAudits tenant (afterLink w.db call d evidence) := by
    rw [hc.db]
    rfl
  have hids : ∀ r ∈ newAudits tenant (afterLink w.db call d evidence), r.decisionId = d.id :=
    fun r hr => (newAudits_decisionId hr).trans (afterLink_id _ _ _ _)
  have hstart : LeadsTo (w.db.trail d.id) d.state := by
    rcases hc.target.found with ⟨-, -, hrow⟩ | ⟨hnew, -, hfree⟩
    · exact h.leads _ _ hrow
    · rw [h.trail_of_free hfree, hnew]
      exact .nil
  refine ⟨?_, ?_⟩
  · intro id d' hd'
    rw [hc.find] at hd'
    rw [trail_append haudits hids]
    split at hd'
    next hid =>
      obtain rfl := Option.some.inj hd'
      rw [if_pos hid, hid, afterState_state]
      exact LeadsTo.newAudits tenant (by rwa [afterLink_state])
    next hid =>
      rw [if_neg hid]
      exact h.leads id d' hd'
  · intro r hr
    rw [hc.find]
    split
    next => exact ⟨_, rfl⟩
    next hid =>
      rw [haudits, List.mem_append] at hr
      exact hr.elim (h.known r) fun hr => absurd (hids r hr) hid

theorem AuditTrail.resolved {call : ResolveCall} {w w' : World} {d : Decision}
    (h : AuditTrail w.db) (hr : Resolved call w w' d) : AuditTrail w'.db := by
  have haudits : w'.db.auditRecords = w.db.auditRecords ++ [resolvedAudit call d] := by
    rw [hr.world]
    rfl
  have hids : ∀ r ∈ [resolvedAudit call d], r.decisionId = d.id := by
    intro r hr
    obtain rfl := List.mem_singleton.mp hr
    rfl
  refine ⟨?_, ?_⟩
  · intro id d' hd'
    rw [hr.find] at hd'
    rw [trail_append haudits hids]
    split at hd'
    next hid =>
      obtain rfl := Option.some.inj hd'
      have hrow : w.db.decisions.find d.id = some d :=
        w.db.decisions.keyed _ _ hr.found ▸ hr.found
      have hne : dispositionToState call.body.disposition ≠ d.state := by
        intro heq
        have hunresolved := hr.unresolved
        rw [← heq, dispositionToState_resolved] at hunresolved
        cases hunresolved
      rw [if_pos hid, hid]
      exact (h.leads _ _ hrow).snoc rfl hne
    next hid =>
      rw [if_neg hid]
      exact h.leads id d' hd'
  · intro r hmem
    rw [hr.find]
    split
    next => exact ⟨_, rfl⟩
    next hid =>
      rw [haudits, List.mem_append] at hmem
      exact hmem.elim (h.known r) fun hmem => absurd (hids r hmem) hid

theorem AuditTrail.serve {w : World} (r : Request) (h : AuditTrail w.db) :
    AuditTrail (serve w r).db :=
  serve_keeps h (fun _ hc => h.committed hc) (fun _ hr => h.resolved hr)
    fun _ => ⟨h.leads, h.known⟩

/-- In every committed state of a serial run the audit records of a decision replay from NORMAL to
the state of its row, and each of them changes the state replayed so far. -/
theorem audit_trail {w w' : World} {rs : List Request} (hw : w.Initial) (h : Run Served w rs w')
    {id : Uuid} {d : Decision} (hd : w'.db.decisions.find id = some d) :
    replayTrail (w'.db.trail id) = some d.state ∧
      ∀ before p after, w'.db.trail id = before ++ p :: after →
        ∃ s s', replayTrail before = some s ∧ p.replay s = some s' ∧ s' ≠ s := by
  have htrail : AuditTrail w'.db := by
    refine h.invariant (I := fun w => AuditTrail w.db) ?_ (.initial hw)
    intro w r _ hi heq
    subst heq
    exact hi.serve r
  have hleads := htrail.leads id d hd
  exact ⟨hleads.replayed, hleads.changes⟩

theorem audit_trail_sample : (reopenedWorld.db.trail ⟨20⟩).length = 2 ∧
    replayTrail (reopenedWorld.db.trail ⟨20⟩) = some .normal := by
  obtain ⟨d, hd, hst⟩ := Option.map_eq_some_iff.mp
    (by decide +kernel : reopenedWorld.stateOf ⟨20⟩ = some .normal)
  have hrun : Run Served _ reopenedRun reopenedWorld := run_serve _ _
  obtain ⟨hreplay, -⟩ := audit_trail (sampleWorld_initial _) hrun hd
  exact ⟨by decide +kernel, hst ▸ hreplay⟩

end ArgusServices

import ArgusServices.NoTrace
import ArgusServices.Place
import ArgusServices.SerialRun

namespace ArgusServices

open Effect

def Event.tenantId : Event → Uuid
  | .wsStateChanged tenantId .. | .busStateChanged tenantId .. | .wsResolved tenantId .. =>
    tenantId

/-- The decision of an id is there and of the tenant. -/
def Db.has (db : Db) (tenantId id : Uuid) : Bool :=
  (db.decisions.find id).any fun d => d.tenantId = tenantId

/-- A link or an answer is of the tenant of the decision it refers to. -/
structure Db.Referred (db : Db) : Prop where
  links : ∀ l ∈ db.decisionEvidences, db.has l.tenantId l.decisionId = true
  feedback : ∀ f ∈ db.feedback, db.has f.tenantId f.decisionId = true

/-- The rows of the tenant are the same; of the rows of others there are fewer. -/
structure SameRows (tenantId : Uuid) (db db' : Db) : Prop where
  tenant : db'.tenants.find tenantId = db.tenants.find tenantId
  evidences : ∀ id, (db'.evidences.find id).filter (fun e => e.tenantId = tenantId) =
    (db.evidences.find id).filter fun e => e.tenantId = tenantId
  decisions : ∀ id, (db'.decisions.find id).filter (fun d => d.tenantId = tenantId) =
    (db.decisions.find id).filter fun d => d.tenantId = tenantId
  links : (db'.decisionEvidences.filter fun l => l.tenantId = tenantId) =
    db.decisionEvidences.filter fun l => l.tenantId = tenantId
  feedback : (db'.feedback.filter fun f => f.tenantId = tenantId) =
    db.feedback.filter fun f => f.tenantId = tenantId
  audits : (db'.auditRecords.filter fun r => r.tenantId = tenantId) =
    db.auditRecords.filter fun r => r.tenantId = tenantId
  fewer : ∀ id, db.decisions.find id = none → db'.decisions.find id = none
  fewerEvidences : ∀ id, db.evidences.find id = none → db'.evidences.find id = none
  referred : db.Referred
  referred' : db'.Referred

/-- What the tenant sees of a world: its rows, its open keys, its events and the warnings of its
decisions. -/
structure SameView (tenantId : Uuid) (w w' : World) : Prop where
  rows : SameRows tenantId w.db w'.db
  keys : ∀ e : Evidence, e.tenantId = tenantId →
    w'.keys (openDecisionKey e) = w.keys (openDecisionKey e)
  published : (w'.published.filter fun e => e.tenantId = tenantId) =
    w.published.filter fun e => e.tenantId = tenantId
  tasks : w'.notifyWarning.filter (w'.db.has tenantId) = w.notifyWarning.filter (w.db.has tenantId)
  fewerTasks : ∀ id ∈ w'.notifyWarning, id ∈ w.notifyWarning

/-- Two sessions of the tenant in such worlds. -/
structure Beside (tenantId : Uuid) (s t : Session) : Prop where
  tx : SameRows tenantId s.tx t.tx
  world : SameView tenantId s.world t.world
  tasks : t.world.notifyWarning.filter (t.tx.has tenantId) =
    s.world.notifyWarning.filter (s.tx.has tenantId)
  tenant : s.tenant = some tenantId ∧ t.tenant = some tenantId
  role : s.role ≠ some .rootAdmin ∧ t.role ≠ some .rootAdmin

/-- The id a call would give to a decision is new. -/
structure Unused (id : Uuid) (s : Session) : Prop where
  rows : s.tx.decisions.find id = none
  tasks : id ∉ s.world.notifyWarning

/-- The session holds a row of the tenant. -/
def Held (tenantId : Uuid) (s : Session) (d : Decision) : Prop :=
  d.tenantId = tenantId ∧ s.tx.has tenantId d.id = true

variable {tenantId : Uuid} {db db' : Db} {w w' : World} {s t : Session} {d : Decision}
  {call : AggregateCall} {evidence : Evidence} {tenant : Tenant}

theorem Db.has_eq (db : Db) (tenantId id : Uuid) : db.has tenantId id =
    ((db.decisions.find id).filter fun d => d.tenantId = tenantId).isSome := by
  unfold Db.has
  cases db.decisions.find id with
  | none => rfl
  | some d => by_cases h : d.tenantId = tenantId <;> simp [h]

theorem SameRows.has (h : SameRows tenantId db db') (id : Uuid) :
    db'.has tenantId id = db.has tenantId id := by
  rw [Db.has_eq, Db.has_eq, h.decisions]

theorem Db.has_put (db : Db) (d : Decision) (tenantId id : Uuid) :
    Db.has { db with decisions := db.decisions.put d } tenantId id =
      if id = d.id then decide (d.tenantId = tenantId) else db.has tenantId id := by
  simp only [Db.has, KeyedTable.find_put]
  split <;> rfl

/-- A row that replaces another one is of the same tenant. -/
theorem Db.Referred.put (h : db.Referred)
    (hd : ∀ t, db.has t d.id = true → d.tenantId = t) :
    Db.Referred { db with decisions := db.decisions.put d } := by
  have hkept : ∀ t id, db.has t id = true →
      Db.has { db with decisions := db.decisions.put d } t id = true := by
    intro t id hhas
    rw [Db.has_put]
    split
    next heq =>
      subst heq
      exact decide_eq_true (hd t hhas)
    next => exact hhas
  constructor
  · intro l hl
    exact hkept _ _ (h.links l hl)
  · intro f hf
    exact hkept _ _ (h.feedback f hf)

theorem Db.has_unique {t t' : Uuid} {id : Uuid} (h : db.has t id = true)
    (h' : db.has t' id = true) : t = t' := by
  unfold Db.has at h h'
  cases hd : db.decisions.find id with
  | none =>
    rw [hd] at h
    cases h
  | some d =>
    rw [hd] at h h'
    exact (of_decide_eq_true h).symm.trans (of_decide_eq_true h')

theorem SameRows.put (h : SameRows tenantId db db') (htenant : d.tenantId = tenantId)
    (hd : db.has tenantId d.id = true ∨ db.decisions.find d.id = none) :
    SameRows tenantId { db with decisions := db.decisions.put d }
      { db' with decisions := db'.decisions.put d } := by
  have hsame : ∀ {db : Db}, db.has tenantId d.id = true ∨ db.decisions.find d.id = none →
      ∀ t, db.has t d.id = true → d.tenantId = t := by
    intro db hd t ht
    rcases hd with hd | hd
    · rw [htenant]
      exact Db.has_unique hd ht
    · simp [Db.has, hd] at ht
  have hd' : db'.has tenantId d.id = true ∨ db'.decisions.find d.id = none := by
    rcases hd with hd | hd
    · left
      rw [h.has]
      exact hd
    · exact Or.inr (h.fewer d.id hd)
  refine ⟨h.tenant, h.evidences, ?_, h.links, h.feedback, h.audits, ?_, h.fewerEvidences,
    h.referred.put (hsame hd), h.referred'.put (hsame hd')⟩
  · intro id
    simp only [KeyedTable.find_put]
    split
    next => rfl
    next => exact h.decisions id
  · intro id hnone
    simp only [KeyedTable.find_put] at hnone ⊢
    split at hnone
    next => cases hnone
    next hne =>
      rw [if_neg hne]
      exact h.fewer id hnone

/-- A link is looked for among the links of the tenant only. -/
theorem Db.Referred.linked (h : db.Referred) {id : Uuid} (hd : db.has tenantId id = true)
    (evidenceId : Uuid) : db.linked id evidenceId =
      (db.decisionEvidences.filter fun l => l.tenantId = tenantId).any fun l =>
        l.decisionId = id && l.evidenceId = evidenceId := by
  unfold Db.linked
  rw [List.any_filter, Bool.eq_iff_iff, List.any_eq_true, List.any_eq_true]
  refine exists_congr fun l => and_congr_right fun hl => ?_
  constructor
  · intro hmatch
    have hid : l.decisionId = id := by
      simp only [Bool.and_eq_true, decide_eq_true_eq] at hmatch
      exact hmatch.1
    have htenant := Db.has_unique (hid ▸ h.links l hl) hd
    simp only [htenant, decide_true, Bool.true_and]
    exact hmatch
  · intro hmatch
    exact (Bool.and_eq_true_iff.mp hmatch).2

theorem SameRows.linked (h : SameRows tenantId db db') {id : Uuid}
    (hd : db.has tenantId id = true) (evidenceId : Uuid) :
    db'.linked id evidenceId = db.linked id evidenceId := by
  rw [h.referred.linked hd, h.referred'.linked (h.has id ▸ hd), h.links]

end ArgusServices

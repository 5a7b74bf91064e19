import ArgusServices.AggregateEffect
import Mathlib.Algebra.BigOperators.Group.List.Basic

namespace ArgusServices

def Db.linksOf (db : Db) (id : Uuid) : List DecisionEvidence :=
  db.decisionEvidences.filter fun l => l.decisionId = id

def Db.scoreOf (db : Db) (l : DecisionEvidence) : Option Int :=
  (db.evidences.find l.evidenceId).map Evidence.severityScore

/-- The sum of `severity_score` over the evidences linked to a decision. -/
def Db.severityOf (db : Db) (id : Uuid) : Int :=
  ((db.linksOf id).filterMap db.scoreOf).sum

/-- The counters of a row agree with the link table. -/
structure Tally (db : Db) (d : Decision) : Prop where
  count : d.evidenceCount = (db.linksOf d.id).length
  severity : d.cumulativeSeverity = db.severityOf d.id

instance (db : Db) (d : Decision) : Decidable (Tally db d) :=
  decidable_of_iff (d.evidenceCount = (db.linksOf d.id).length ∧
      d.cumulativeSeverity = db.severityOf d.id)
    ⟨fun h => ⟨h.1, h.2⟩, fun h => ⟨h.count, h.severity⟩⟩

theorem Tally.congr {db db' : Db} {d d' : Decision} (h : Tally db d)
    (hl : db'.linksOf d.id = db.linksOf d.id)
    (hs : ∀ l ∈ db.linksOf d.id, db'.scoreOf l = db.scoreOf l) (hid : d'.id = d.id)
    (hc : d'.evidenceCount = d.evidenceCount)
    (hv : d'.cumulativeSeverity = d.cumulativeSeverity) : Tally db' d' where
  count := by rw [hc, hid, hl, h.count]
  severity := by
    rw [hv, h.severity, hid]
    simp only [Db.severityOf, hl]
    rw [List.filterMap_congr hs]

theorem scoreOf_congr {db db' : Db} (h : db'.evidences = db.evidences) :
    db'.scoreOf = db.scoreOf := by
  funext l
  simp only [Db.scoreOf, h]

theorem mem_linksOf {db : Db} {id : Uuid} {l : DecisionEvidence} :
    l ∈ db.linksOf id ↔ l ∈ db.decisionEvidences ∧ l.decisionId = id := by
  simp [Db.linksOf]

theorem linksOf_of_free {db : Db} {id : Uuid}
    (hlinks : ∀ l ∈ db.decisionEvidences, ∃ d, db.decisions.find l.decisionId = some d)
    (hfree : db.decisions.find id = none) : db.linksOf id = [] := by
  rw [List.eq_nil_iff_forall_not_mem]
  intro l hl
  obtain ⟨hmem, hid⟩ := mem_linksOf.mp hl
  obtain ⟨d, hd⟩ := hlinks l hmem
  rw [hid, hfree] at hd
  cases hd

theorem linked_iff {db : Db} {decisionId evidenceId : Uuid} :
    db.linked decisionId evidenceId = true ↔
      ∃ l ∈ db.linksOf decisionId, l.evidenceId = evidenceId := by
  simp only [Db.linked, List.any_eq_true, Bool.and_eq_true, decide_eq_true_eq, mem_linksOf]
  constructor
  · intro hex
    obtain ⟨l, hl, hd, he⟩ := hex
    exact ⟨l, ⟨hl, hd⟩, he⟩
  · intro hex
    obtain ⟨l, ⟨hl, hd⟩, he⟩ := hex
    exact ⟨l, hl, hd, he⟩

theorem linksOf_append_self {db db' : Db} {d : Decision} {evidence : Evidence}
    (h : db'.decisionEvidences = db.decisionEvidences ++ [linkRow d evidence]) :
    db'.linksOf d.id = db.linksOf d.id ++ [linkRow d evidence] := by
  simp [Db.linksOf, h, linkRow]

theorem linksOf_append_of_ne {db db' : Db} {d : Decision} {evidence : Evidence} {id : Uuid}
    (h : db'.decisionEvidences = db.decisionEvidences ++ [linkRow d evidence])
    (hne : id ≠ d.id) : db'.linksOf id = db.linksOf id := by
  simp [Db.linksOf, h, linkRow, hne.symm]

/-- A new link and the counters raised by one and by its score agree again. -/
theorem Tally.addLink {db db' : Db} {d d' : Decision} {evidence : Evidence} (h : Tally db d)
    (hl : db'.decisionEvidences = db.decisionEvidences ++ [linkRow d evidence])
    (he : db'.evidences = db.evidences) (hev : db.evidences.find evidence.id = some evidence)
    (hid : d'.id = d.id) (hc : d'.evidenceCount = d.evidenceCount + 1)
    (hv : d'.cumulativeSeverity = d.cumulativeSeverity + evidence.severityScore) :
    Tally db' d' := by
  have hlinks := linksOf_append_self hl
  have hscore : db.scoreOf (linkRow d evidence) = some evidence.severityScore := by
    simp [Db.scoreOf, linkRow, hev]
  constructor
  · rw [hc, hid, hlinks, h.count]
    simp
  · rw [hv, hid, h.severity]
    simp [Db.severityOf, hlinks, scoreOf_congr he, hscore]

end ArgusServices

import ArgusServices.Place
import ArgusServices.Segments
import ArgusServices.SummaryInvariant
import Mathlib.Data.List.Induction
import Mathlib.Data.List.Nodup

namespace ArgusServices

open Transition

/-- The length of the windows of a place, in microseconds. -/
def World.widthAt (w : World) (p : Place) : Int :=
  match w.db.tenants.find p.tenantId with
  | some tenant => seconds tenant.aggregationWindowSecs
  | none => 0

/-- The greedy segmentation of the evidences of a place: a segment takes what is captured within
one window from its first evidence. -/
def World.segmentsAt (w : World) (p : Place) (es : List Evidence) : List (Segment Evidence) :=
  Segment.greedy Evidence.capturedAt (fun e => e.capturedAt + w.widthAt p)
    (es.filter fun e => e.place = p)

/-- The evidences a list of calls is made for. -/
def World.evidencesOf (w : World) (calls : List AggregateCall) : List Evidence :=
  calls.filterMap fun call => w.db.evidences.find call.evidenceId

/-- The decisions of a place are those paired with a segment, each with the window that its first
evidence opens and with the evidences of the segment linked to it in their order. -/
structure Windows (db : Db) (p : Place) (width : Int) (ps : List (Decision × Segment Evidence)) :
    Prop where
  rows : ∀ d, d ∈ ps.map Prod.fst ↔ db.decisions.find d.id = some d ∧ d.place = p
  nodup : (ps.map fun x => x.1.id).Nodup
  windowStart : ∀ x ∈ ps, x.1.windowStart = x.2.first.capturedAt
  windowEnd : ∀ x ∈ ps, x.1.windowEnd = x.2.first.capturedAt + width
  links : ∀ x ∈ ps, (db.linksOf x.1.id).map DecisionEvidence.evidenceId =
    x.2.items.map Evidence.id

/-- The open key of a place names the decision of the last segment, or is not set. -/
def Points (w : World) (p : Place) (ps : List (Decision × Segment Evidence)) : Prop :=
  ∀ e : Evidence, e.place = p → (w.keys (openDecisionKey e)).map RedisEntry.value =
    ps.getLast?.map fun x => x.1.id.str

variable {w w' : World} {call : AggregateCall} {evidence : Evidence} {tenant : Tenant}
  {d : Decision} {p : Place} {width : Int} {ps : List (Decision × Segment Evidence)}

theorem openDecision_of_key
    (hkey : (w.keys (openDecisionKey evidence)).map RedisEntry.value = some d.id.str)
    (hrow : w.db.decisions.find d.id = some d) (hplace : d.place = evidence.place) :
    w.openDecision evidence = some d := by
  have htenant : d.tenantId = evidence.tenantId := congrArg Place.tenantId hplace
  simp [World.openDecision, hkey, truthy_some (Uuid.str_ne_empty _), Uuid.parse_str, hrow, htenant]

theorem openDecision_of_no_key
    (hkey : (w.keys (openDecisionKey evidence)).map RedisEntry.value = none) :
    w.openDecision evidence = none := by
  simp [World.openDecision, hkey, truthy]

theorem Points.openDecision (hp : Points w p ps) (hw : Windows w.db p width ps)
    (hplace : evidence.place = p) : w.openDecision evidence = ps.getLast?.map Prod.fst := by
  have hkey := hp evidence hplace
  cases hlast : ps.getLast? with
  | none =>
    rw [hlast] at hkey
    exact openDecision_of_no_key hkey
  | some x =>
    rw [hlast] at hkey
    have hmem : x.1 ∈ ps.map Prod.fst :=
      List.mem_map_of_mem (List.mem_of_getLast? hlast)
    obtain ⟨hrow, hx⟩ := (hw.rows x.1).mp hmem
    exact openDecision_of_key hkey hrow (hx.trans hplace.symm)

theorem Committed.linksOf_self (h : Committed call w w' evidence tenant d)
    (hnew : w.db.linked d.id evidence.id = false) :
    w'.db.linksOf d.id = w.db.linksOf d.id ++ [linkRow d evidence] := by
  apply linksOf_append_self
  rw [h.db]
  simp [stateTx, linkTx, newLinks, hnew]

theorem Committed.linksOf_of_ne (h : Committed call w w' evidence tenant d) {id : Uuid}
    (hne : id ≠ d.id) : w'.db.linksOf id = w.db.linksOf id := by
  have hlinks : w'.db.linksOf id = (linkTx w.db call d evidence).linksOf id := by
    rw [h.db]
    rfl
  rw [hlinks, linkTx_linksOf_of_ne hne]

/-- The row a call leaves of the decision it works on. -/
def rowAfter (db : Db) (call : AggregateCall) (evidence : Evidence) (tenant : Tenant)
    (d : Decision) : Decision :=
  afterState call tenant (afterLink db call d evidence)

@[simp] theorem rowAfter_id (db : Db) : (rowAfter db call evidence tenant d).id = d.id := by
  simp [rowAfter]

@[simp] theorem rowAfter_place (db : Db) :
    (rowAfter db call evidence tenant d).place = d.place := by
  simp [rowAfter]

@[simp] theorem rowAfter_windowStart (db : Db) :
    (rowAfter db call evidence tenant d).windowStart = d.windowStart := by
  simp [rowAfter]

@[simp] theorem rowAfter_windowEnd (db : Db) :
    (rowAfter db call evidence tenant d).windowEnd = d.windowEnd := by
  simp [rowAfter]

theorem Committed.find_row (h : Committed call w w' evidence tenant d) (id : Uuid) :
    w'.db.decisions.find id =
      if id = d.id then some (rowAfter w.db call evidence tenant d)
      else w.db.decisions.find id :=
  h.find id

/-- Rows elsewhere, their links and the rows of other places stay. -/
theorem Windows.committed_of_ne (hw : Windows w.db p width ps)
    (h : Committed call w w' evidence tenant d) (hplace : d.place ≠ p)
    (hold : ∀ r, w.db.decisions.find d.id = some r → r.place ≠ p) :
    Windows w'.db p width ps := by
  have hne : ∀ x ∈ ps, x.1.id ≠ d.id := by
    intro x hx heq
    obtain ⟨hrow, hp⟩ := (hw.rows x.1).mp (List.mem_map_of_mem hx)
    exact hold x.1 (heq ▸ hrow) hp
  refine ⟨?_, hw.nodup, hw.windowStart, hw.windowEnd, ?_⟩
  · intro r
    rw [hw.rows, h.find_row]
    split
    next heq =>
      constructor
      · intro hr
        exact absurd hr.2 (hold r (heq ▸ hr.1))
      · intro hr
        have hrp := congrArg Decision.place (Option.some.inj hr.1)
        rw [hr.2] at hrp
        exact absurd ((rowAfter_place _).symm.trans hrp) hplace
    next => rfl
  · intro x hx
    rw [h.linksOf_of_ne (hne x hx)]
    exact hw.links x hx

/-- A call that works on a decision of the place leaves the other windows before the one of its
row. -/
theorem Windows.committed_last {before : List (Decision × Segment Evidence)}
    {segment : Segment Evidence} (h : Committed call w w' evidence tenant d)
    (hrows : ∀ r, r ∈ before.map Prod.fst ↔
      r.id ≠ d.id ∧ w.db.decisions.find r.id = some r ∧ r.place = p)
    (hnodup : (before.map fun x => x.1.id).Nodup)
    (hbefore : ∀ x ∈ before, x.1.windowStart = x.2.first.capturedAt ∧
      x.1.windowEnd = x.2.first.capturedAt + width ∧
      (w.db.linksOf x.1.id).map DecisionEvidence.evidenceId = x.2.items.map Evidence.id)
    (hplace : d.place = p) (hstart : d.windowStart = segment.first.capturedAt)
    (hend : d.windowEnd = segment.first.capturedAt + width)
    (hlinks : (w'.db.linksOf d.id).map DecisionEvidence.evidenceId =
      segment.items.map Evidence.id) :
    Windows w'.db p width (before ++ [(rowAfter w.db call evidence tenant d, segment)]) := by
  have hne : ∀ x ∈ before, x.1.id ≠ d.id := fun x hx =>
    ((hrows x.1).mp (List.mem_map_of_mem hx)).1
  refine ⟨?_, ?_, ?_, ?_, ?_⟩
  · intro r
    rw [List.map_append, List.mem_append, hrows, List.map_singleton, List.mem_singleton,
      h.find_row]
    split
    next heq =>
      constructor
      · intro hr
        rcases hr with hr | rfl
        · exact absurd heq hr.1
        · exact ⟨rfl, (rowAfter_place _).trans hplace⟩
      · intro hr
        exact Or.inr (Option.some.inj hr.1).symm
    next hother =>
      constructor
      · intro hr
        rcases hr with hr | rfl
        · exact hr.2
        · exact absurd (rowAfter_id _) hother
      · intro hr
        exact Or.inl ⟨hother, hr⟩
  · rw [List.map_append, List.nodup_append]
    refine ⟨hnodup, List.nodup_singleton _, ?_⟩
    intro id hid other hother heq
    obtain ⟨x, hx, rfl⟩ := List.mem_map.mp hid
    rw [List.map_singleton, List.mem_singleton, rowAfter_id] at hother
    exact hne x hx (heq.trans hother)
  · rw [List.forall_mem_append, List.forall_mem_singleton]
    exact ⟨fun x hx => (hbefore x hx).1, (rowAfter_windowStart _).trans hstart⟩
  · rw [List.forall_mem_append, List.forall_mem_singleton]
    exact ⟨fun x hx => (hbefore x hx).2.1, (rowAfter_windowEnd _).trans hend⟩
  · rw [List.forall_mem_append, List.forall_mem_singleton]
    constructor
    · intro x hx
      rw [h.linksOf_of_ne (hne x hx)]
      exact (hbefore x hx).2.2
    · rw [rowAfter_id]
      exact hlinks

/-- A call that works on the decision of the last segment adds its evidence to it. -/
theorem Windows.committed_merge {before : List (Decision × Segment Evidence)}
    {last : Segment Evidence} (hw : Windows w.db p width (before ++ [(d, last)]))
    (h : Committed call w w' evidence tenant d) (hnew : w.db.linked d.id evidence.id = false) :
    Windows w'.db p width
      (before ++ [(rowAfter w.db call evidence tenant d, last.add evidence)]) := by
  obtain ⟨hrow, hd⟩ := (hw.rows d).mp (by simp)
  have hnodup := hw.nodup
  rw [List.map_append, List.nodup_append] at hnodup
  have hne : ∀ x ∈ before, x.1.id ≠ d.id := fun x hx =>
    hnodup.2.2 _ (List.mem_map_of_mem hx) _ (List.mem_singleton.mpr rfl)
  have hlast : (d, last) ∈ before ++ [(d, last)] := List.mem_append_right _ (by simp)
  refine Windows.committed_last h ?_ hnodup.1 ?_ hd (hw.windowStart _ hlast)
    (hw.windowEnd _ hlast) ?_
  · intro r
    rw [← hw.rows, List.map_append, List.mem_append, List.map_singleton, List.mem_singleton]
    constructor
    · intro hr
      obtain ⟨x, hx, rfl⟩ := List.mem_map.mp hr
      exact ⟨hne x hx, Or.inl hr⟩
    · intro hr
      rcases hr with ⟨hother, hr | rfl⟩
      · exact hr
      · exact absurd rfl hother
  · intro x hx
    have hmem := List.mem_append_left [(d, last)] hx
    exact ⟨hw.windowStart x hmem, hw.windowEnd x hmem, hw.links x hmem⟩
  · rw [h.linksOf_self hnew, List.map_append, hw.links _ hlast, Segment.items_add,
      List.map_append]
    rfl

/-- A call that creates a decision opens a segment with its evidence. -/
theorem Windows.committed_create (hw : Windows w.db p width ps)
    (h : Committed call w w' evidence tenant d) (hd : d = newDecision call evidence tenant)
    (hplace : evidence.place = p) (hwidth : seconds tenant.aggregationWindowSecs = width)
    (hfree : w.db.decisions.find d.id = none) (hlinks : w.db.linksOf d.id = []) :
    Windows w'.db p width (ps ++ [(rowAfter w.db call evidence tenant d, ⟨evidence, []⟩)]) := by
  have hnew : w.db.linked d.id evidence.id = false := by
    rw [Bool.eq_false_iff]
    intro hl
    obtain ⟨l, hmem, -⟩ := linked_iff.mp hl
    simp [hlinks] at hmem
  refine Windows.committed_last h ?_ hw.nodup ?_ ?_ ?_ ?_ ?_
  · intro r
    rw [hw.rows]
    constructor
    · intro hr
      refine ⟨?_, hr⟩
      intro heq
      rw [heq, hfree] at hr
      cases hr.1
    · exact And.right
  · intro x hx
    exact ⟨hw.windowStart x hx, hw.windowEnd x hx, hw.links x hx⟩
  · rw [hd, newDecision_place, hplace]
  · rw [hd]
    rfl
  · rw [hd, ← hwidth]
    rfl
  · rw [h.linksOf_self hnew, hlinks]
    rfl

/-- A call that nothing fails, for a tenant whose windows do not end before they start. -/
structure Unfailing (w : World) (call : AggregateCall) (evidence : Evidence) (tenant : Tenant) :
    Prop where
  raises : call.raisesAt = none
  evidence_found : w.db.evidences.find call.evidenceId = some evidence
  tenant_found : w.db.tenants.find evidence.tenantId = some tenant
  window : 0 ≤ tenant.aggregationWindowSecs

/-- What the calls made so far have left. -/
structure History (w₀ w : World) (calls : List AggregateCall) : Prop where
  evidences : w.db.evidences = w₀.db.evidences
  tenants : w.db.tenants = w₀.db.tenants
  windows : ∀ p, ∃ ps, ps.map Prod.snd = w₀.segmentsAt p (w₀.evidencesOf calls) ∧
    Windows w.db p (w₀.widthAt p) ps ∧ Points w p ps
  linked : ∀ l ∈ w.db.decisionEvidences, l.evidenceId ∈ calls.map AggregateCall.evidenceId
  link_decision : ∀ l ∈ w.db.decisionEvidences, ∃ d, w.db.decisions.find l.decisionId = some d
  ids : ∀ id d, w.db.decisions.find id = some d → id ∈ calls.map AggregateCall.newId

/-- With no decision and no open key, no call has been made. -/
theorem History.start (hdecisions : ∀ id, w.db.decisions.find id = none)
    (hlinks : w.db.decisionEvidences = []) (hopen : ∀ e, w.keys (openDecisionKey e) = none) :
    History w w [] where
  evidences := rfl
  tenants := rfl
  windows := by
    intro p
    refine ⟨[], rfl, ⟨?_, .nil, by simp, by simp, by simp⟩, ?_⟩
    · intro d
      simp [hdecisions d.id]
    · intro e _
      simp [hopen]
  linked := by simp [hlinks]
  link_decision := by simp [hlinks]
  ids := by simp [hdecisions]

theorem segmentsAt_concat_of_ne {w : World} {es : List Evidence} (h : evidence.place ≠ p) :
    w.segmentsAt p (es ++ [evidence]) = w.segmentsAt p es := by
  simp [World.segmentsAt, h]

theorem segmentsAt_concat_self {w : World} {es : List Evidence} (h : evidence.place = p) :
    w.segmentsAt p (es ++ [evidence]) = Segment.greedy Evidence.capturedAt
      (fun e => e.capturedAt + w.widthAt p) ((es.filter fun e => e.place = p) ++ [evidence]) := by
  simp [World.segmentsAt, h]

theorem Points.committed_of_ne (hp : Points w p ps) (h : Committed call w w' evidence tenant d)
    (hne : evidence.place ≠ p) : Points w' p ps := by
  intro e he
  rw [← hp e he]
  have hkey : openDecisionKey e ≠ openDecisionKey evidence := by
    intro heq
    exact hne ((openDecisionKey_eq_iff.mp heq).symm.trans he)
  rw [h.target.keys_of_ne hkey]

variable {w₀ : World} {calls : List AggregateCall}

theorem History.windows_other (hh : History w₀ w calls)
    (h : Committed call w w' evidence tenant d) (hne : evidence.place ≠ p)
    (hdplace : d.place = evidence.place) :
    ∃ ps, ps.map Prod.snd = w₀.segmentsAt p (w₀.evidencesOf calls ++ [evidence]) ∧
      Windows w'.db p (w₀.widthAt p) ps ∧ Points w' p ps := by
  obtain ⟨ps, hsegments, hw, hpoints⟩ := hh.windows p
  refine ⟨ps, hsegments.trans (segmentsAt_concat_of_ne hne).symm, ?_, hpoints.committed_of_ne h hne⟩
  apply hw.committed_of_ne h (hdplace ▸ hne)
  intro r hr
  rcases h.target.found with ⟨-, -, hrow⟩ | ⟨-, -, hfree⟩
  · obtain rfl := Option.some.inj (hr.symm.trans hrow)
    exact hdplace ▸ hne
  · rw [hfree] at hr
    cases hr

/-- A call that merges adds its evidence to the last segment of its place. -/
theorem History.windows_merge (hh : History w₀ w calls)
    (h : Committed call w w' evidence tenant d) (hnew : w.db.linked d.id evidence.id = false)
    (hd : w.openDecision evidence = some d) (hle : evidence.capturedAt ≤ d.windowEnd)
    (hkeys : w'.keys = w.keys) :
    ∃ ps, ps.map Prod.snd =
        w₀.segmentsAt evidence.place (w₀.evidencesOf calls ++ [evidence]) ∧
      Windows w'.db evidence.place (w₀.widthAt evidence.place) ps ∧
      Points w' evidence.place ps := by
  obtain ⟨ps, hsegments, hw, hpoints⟩ := hh.windows evidence.place
  have hlast := (hpoints.openDecision hw rfl).symm.trans hd
  rcases List.eq_nil_or_concat' ps with rfl | ⟨before, ⟨d', last⟩, rfl⟩
  · cases hlast
  obtain rfl : d' = d := by simpa using hlast
  refine ⟨_, ?_, hw.committed_merge h hnew, ?_⟩
  · have hend := hw.windowEnd (d', last) (by simp)
    rw [List.map_append] at hsegments
    rw [segmentsAt_concat_self rfl, Segment.greedy_concat evidence hsegments.symm,
      if_pos (hend ▸ hle)]
    simp
  · intro e he
    rw [hkeys, hpoints e he]
    simp

/-- A call that creates a decision opens a segment of its place with its evidence. -/
theorem History.windows_create (hh : History w₀ w calls)
    (h : Committed call w w' evidence tenant d) (hd : d = newDecision call evidence tenant)
    (hopen : w.Unmerged evidence) (hfree : w.db.decisions.find d.id = none)
    (hkeys : w'.keys = Function.update w.keys (openDecisionKey evidence)
      (some ⟨d.id.str, some (tenant.aggregationWindowSecs + 300)⟩)) :
    ∃ ps, ps.map Prod.snd =
        w₀.segmentsAt evidence.place (w₀.evidencesOf calls ++ [evidence]) ∧
      Windows w'.db evidence.place (w₀.widthAt evidence.place) ps ∧
      Points w' evidence.place ps := by
  obtain ⟨ps, hsegments, hw, hpoints⟩ := hh.windows evidence.place
  have hlast := hpoints.openDecision hw rfl
  have hwidth : seconds tenant.aggregationWindowSecs = w₀.widthAt evidence.place := by
    have htenant := hh.tenants ▸ h.tenant_found
    simp [World.widthAt, Evidence.place, htenant]
  have hlinks := linksOf_of_free hh.link_decision hfree
  refine ⟨_, ?_, hw.committed_create h hd rfl hwidth hfree hlinks, ?_⟩
  · rw [segmentsAt_concat_self rfl, List.map_append]
    rcases List.eq_nil_or_concat' ps with rfl | ⟨before, ⟨d', last⟩, rfl⟩
    · rw [Segment.greedy_eq_nil.mp hsegments.symm]
      rfl
    · have hend : d'.windowEnd = last.first.capturedAt + w₀.widthAt evidence.place :=
        hw.windowEnd (d', last) (by simp)
      have hpassed := hopen d' (by simpa using hlast)
      have hlate : ¬evidence.capturedAt ≤ last.first.capturedAt + w₀.widthAt evidence.place := by
        omega
      rw [List.map_append] at hsegments
      rw [Segment.greedy_concat evidence hsegments.symm, if_neg hlate]
      simp
  · intro e he
    rw [hkeys, openDecisionKey_eq_iff.mpr he]
    simp

theorem evidencesOf_concat (hev : w₀.db.evidences.find call.evidenceId = some evidence) :
    w₀.evidencesOf (calls ++ [call]) = w₀.evidencesOf calls ++ [evidence] := by
  simp [World.evidencesOf, hev]

/-- The open key of a place does not lead to a decision of another. -/
theorem History.openDecision_place (hh : History w₀ w calls)
    (hd : w.openDecision evidence = some d) : d.place = evidence.place := by
  obtain ⟨ps, -, hw, hpoints⟩ := hh.windows evidence.place
  have hlast := (hpoints.openDecision hw rfl).symm.trans hd
  obtain ⟨x, hx, rfl⟩ := Option.map_eq_some_iff.mp hlast
  exact ((hw.rows x.1).mp (List.mem_map_of_mem (List.mem_of_getLast? hx))).2

theorem History.not_refused (hh : History w₀ w calls)
    (hc : Unfailing w₀ call evidence tenant)
    (hfresh : call.newId ∉ calls.map AggregateCall.newId) : ¬Refused w call evidence tenant := by
  intro hrefused
  rcases hrefused with ⟨raw, hraw, hparse⟩ | ⟨-, htaken | hex⟩
  · obtain ⟨ps, -, -, hpoints⟩ := hh.windows evidence.place
    rw [hpoints evidence rfl] at hraw
    cases hlast : ps.getLast? with
    | none => simp [hlast, truthy] at hraw
    | some x =>
      rw [hlast, Option.map_some, truthy_some (Uuid.str_ne_empty _)] at hraw
      obtain rfl := Option.some.inj hraw
      simp [Uuid.parse_str] at hparse
  · obtain ⟨d, hd⟩ := Option.isSome_iff_exists.mp htaken
    exact hfresh (hh.ids _ d hd)
  · have := hc.window
    omega

theorem History.unlinked (hh : History w₀ w calls)
    (hnew : evidence.id ∉ calls.map AggregateCall.evidenceId) (id : Uuid) :
    w.db.linked id evidence.id = false := by
  rw [Bool.eq_false_iff]
  intro hl
  obtain ⟨l, hmem, heq⟩ := linked_iff.mp hl
  rw [← heq] at hnew
  exact hnew (hh.linked l (mem_linksOf.mp hmem).1)

/-- The windows of every place follow the one more evidence of a call. -/
theorem History.windows_step (hh : History w₀ w calls)
    (h : Committed call w w' evidence tenant d)
    (hnew : evidence.id ∉ calls.map AggregateCall.evidenceId) (p : Place) :
    ∃ ps, ps.map Prod.snd = w₀.segmentsAt p (w₀.evidencesOf calls ++ [evidence]) ∧
      Windows w'.db p (w₀.widthAt p) ps ∧ Points w' p ps := by
  rcases h.target.spec with ⟨hd, hle, hkeys⟩ | ⟨hd, hopen, hfree, hkeys⟩
  · by_cases hplace : evidence.place = p
    · subst hplace
      exact hh.windows_merge h (hh.unlinked hnew d.id) hd hle hkeys
    · exact hh.windows_other h hplace (hh.openDecision_place hd)
  · by_cases hplace : evidence.place = p
    · subst hplace
      exact hh.windows_create h hd hopen hfree hkeys
    · exact hh.windows_other h hplace (by rw [hd, newDecision_place])

/-- One more call, for an evidence that has not been aggregated before. -/
theorem History.step (hh : History w₀ w calls) (hc : Unfailing w₀ call evidence tenant)
    (hnew : call.evidenceId ∉ calls.map AggregateCall.evidenceId)
    (hfresh : call.newId ∉ calls.map AggregateCall.newId) :
    History w₀ (serve w (.aggregate call)) (calls ++ [call]) := by
  have hev : w.db.evidences.find call.evidenceId = some evidence := by
    rw [hh.evidences]
    exact hc.evidence_found
  have hid : evidence.id = call.evidenceId := w.db.evidences.keyed _ _ hev
  obtain ⟨d, h⟩ := aggregate_commits hc.raises hev (hh.tenants ▸ hc.tenant_found)
    (hh.not_refused hc hfresh)
  refine ⟨?_, ?_, ?_, ?_, ?_, ?_⟩
  · exact (congrArg Db.evidences h.db).trans hh.evidences
  · exact (congrArg Db.tenants h.db).trans hh.tenants
  · intro p
    rw [evidencesOf_concat hc.evidence_found]
    exact hh.windows_step h (hid ▸ hnew) p
  · intro l hl
    rw [List.map_append, List.mem_append]
    rcases h.mem_links hl with hold | ⟨-, heq⟩
    · exact Or.inl (hh.linked l hold)
    · exact Or.inr (by simp [heq, hid])
  · intro l hl
    simp only [serve, h.find]
    split
    next => exact ⟨_, rfl⟩
    next hne =>
      rcases h.mem_links hl with hold | ⟨heq, -⟩
      · exact hh.link_decision l hold
      · exact absurd heq hne
  · intro id r hr
    rw [List.map_append, List.mem_append]
    simp only [serve, h.find] at hr
    split at hr
    next heq =>
      rcases h.target.found with ⟨-, -, hrow⟩ | ⟨hd, -, -⟩
      · exact Or.inl (heq ▸ hh.ids _ _ hrow)
      · exact Or.inr (by simp [heq, hd])
    next => exact Or.inl (hh.ids id r hr)

theorem history (hw : w.Initial)
    (hcalls : ∀ call ∈ calls, ∃ evidence tenant, Unfailing w call evidence tenant)
    (hevidences : (calls.map AggregateCall.evidenceId).Nodup)
    (hids : (calls.map AggregateCall.newId).Nodup) :
    History w ((calls.map Request.aggregate).foldl serve w) calls := by
  induction calls using List.reverseRecOn with
  | nil => exact .start hw.decisions hw.links fun e => hw.keys (openDecisionKey e)
  | append_singleton calls call ih =>
    simp only [List.map_append, List.map_cons, List.map_nil, List.nodup_append,
      List.mem_singleton] at hevidences hids
    obtain ⟨evidence, tenant, hc⟩ := hcalls call (by simp)
    have hbefore := ih (fun c hm => hcalls c (List.mem_append_left _ hm)) hevidences.1 hids.1
    rw [List.map_append, List.foldl_append]
    apply hbefore.step hc
    · intro hmem
      exact hevidences.2.2 _ hmem _ rfl rfl
    · intro hmem
      exact hids.2.2 _ hmem _ rfl rfl

/-- Where a place has evidences, its windows do not end before they start. -/
theorem widthAt_nonneg
    (hcalls : ∀ call ∈ calls, ∃ evidence tenant, Unfailing w call evidence tenant)
    (hmem : evidence ∈ w.evidencesOf calls) : 0 ≤ w.widthAt evidence.place := by
  obtain ⟨call, hcall, hev⟩ := List.mem_filterMap.mp hmem
  obtain ⟨evidence', tenant, hc⟩ := hcalls call hcall
  obtain rfl := Option.some.inj (hev.symm.trans hc.evidence_found)
  have hwindow := hc.window
  simp only [World.widthAt, Evidence.place, hc.tenant_found, seconds]
  omega

/-- The windows of the segments of a place follow one another. -/
theorem Windows.pairwise {db : Db} (hw : Windows db p width ps)
    (h : (ps.map Prod.snd).Pairwise fun a b => a.first.capturedAt + width < b.first.capturedAt) :
    (ps.map Prod.fst).Pairwise fun d d' => d.windowEnd < d'.windowStart := by
  rw [List.pairwise_map] at h ⊢
  apply h.imp_of_mem
  intro x y hx hy hlt
  rw [hw.windowEnd x hx, hw.windowStart y hy]
  exact hlt

/-- The calls of a serial run, with no failure and no expired key, leave for each place the greedy
segmentation of its own evidences, one decision with its own window for each segment. -/
theorem greedy_windows (hw : w.Initial)
    (hcalls : ∀ call ∈ calls, ∃ evidence tenant, Unfailing w call evidence tenant)
    (hevidences : (calls.map AggregateCall.evidenceId).Nodup)
    (hids : (calls.map AggregateCall.newId).Nodup)
    (hrun : Run Served w (calls.map .aggregate) w') (p : Place) :
    ∃ ps, ps.map Prod.snd = w.segmentsAt p (w.evidencesOf calls) ∧
      Windows w'.db p (w.widthAt p) ps ∧
      (ps.map Prod.fst).Pairwise fun d d' => d.windowEnd < d'.windowStart := by
  rw [run_served_eq hrun]
  obtain ⟨ps, hsegments, hwindows, -⟩ := (history hw hcalls hevidences hids).windows p
  refine ⟨ps, hsegments, hwindows, hwindows.pairwise ?_⟩
  rw [hsegments]
  by_cases hwidth : 0 ≤ w.widthAt p
  · have hstop : ∀ e : Evidence, e.capturedAt ≤ e.capturedAt + w.widthAt p := by
      intro e
      omega
    exact Segment.greedy_pairwise _ hstop
  · have hnone : (w.evidencesOf calls).filter (fun e => e.place = p) = [] := by
      apply List.filter_eq_nil_iff.mpr
      intro e hmem heq
      exact hwidth (of_decide_eq_true heq ▸ widthAt_nonneg hcalls hmem)
    rw [World.segmentsAt, hnone]
    exact .nil

/-- Two cameras whose evidences arrive mixed: the first one has two windows. -/
def mixedEvidence (id cameraId : BitVec 128) (secs : Int) : Evidence :=
  { sampleEvidence id none 1 with cameraId := ⟨cameraId⟩, capturedAt := seconds secs }

def mixedStart : World :=
  sampleWorld [mixedEvidence 11 2 0, mixedEvidence 12 3 10, mixedEvidence 13 2 50,
    mixedEvidence 14 2 90]

def mixedCalls : List AggregateCall :=
  [sampleAggregate 11 20, sampleAggregate 12 21, sampleAggregate 13 22, sampleAggregate 14 23]

theorem mixedStart_unfailing (id newId cameraId : BitVec 128) (secs : Int)
    (h : mixedStart.db.evidences.find ⟨id⟩ = some (mixedEvidence id cameraId secs)) :
    Unfailing mixedStart (sampleAggregate id newId) (mixedEvidence id cameraId secs) sampleTenant :=
  ⟨rfl, h, by simp [mixedStart, sampleWorld, mixedEvidence, sampleEvidence, sampleTenant],
    by decide⟩

theorem greedy_windows_sample : ∃ ps : List (Decision × Segment Evidence),
    ps.map Prod.snd = [⟨mixedEvidence 11 2 0, [mixedEvidence 13 2 50]⟩,
      ⟨mixedEvidence 14 2 90, []⟩] ∧
    Windows ((mixedCalls.map Request.aggregate).foldl serve mixedStart).db ⟨⟨1⟩, ⟨2⟩, none⟩
      (seconds 60) ps := by
  have hcalls : ∀ call ∈ mixedCalls, ∃ evidence tenant,
      Unfailing mixedStart call evidence tenant := by
    intro call hmem
    simp only [mixedCalls, List.mem_cons, List.not_mem_nil, or_false] at hmem
    rcases hmem with rfl | rfl | rfl | rfl
    · exact ⟨_, _, mixedStart_unfailing 11 20 2 0 (by decide +kernel)⟩
    · exact ⟨_, _, mixedStart_unfailing 12 21 3 10 (by decide +kernel)⟩
    · exact ⟨_, _, mixedStart_unfailing 13 22 2 50 (by decide +kernel)⟩
    · exact ⟨_, _, mixedStart_unfailing 14 23 2 90 (by decide +kernel)⟩
  obtain ⟨ps, hsegments, hwindows, -⟩ := greedy_windows (sampleWorld_initial _) hcalls
    (by decide) (by decide) (run_serve _ _) ⟨⟨1⟩, ⟨2⟩, none⟩
  refine ⟨ps, hsegments.trans ?_, hwindows⟩
  decide +kernel

end ArgusServices

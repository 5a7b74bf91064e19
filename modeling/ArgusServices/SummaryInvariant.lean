import ArgusServices.LinkTable
import ArgusServices.SerialRun

namespace ArgusServices

open Transition

structure Summary (db : Db) (d : Decision) : Prop extends Tally db d where
  linked : 1 ≤ d.evidenceCount
  state : d.state.resolved = false →
    ∃ tenant, db.tenants.find d.tenantId = some tenant ∧ d.state = computeState d tenant

structure SummaryInvariant (db : Db) : Prop where
  summary : ∀ id d, db.decisions.find id = some d → Summary db d
  link_decision : ∀ l ∈ db.decisionEvidences, ∃ d, db.decisions.find l.decisionId = some d
  link_evidence : ∀ l ∈ db.decisionEvidences, ∃ e, db.evidences.find l.evidenceId = some e

theorem Summary.frame {db db' : Db} {d : Decision} (h : Summary db d)
    (ht : db'.tenants = db.tenants) (hl : db'.linksOf d.id = db.linksOf d.id)
    (hs : ∀ l ∈ db.linksOf d.id, db'.scoreOf l = db.scoreOf l) : Summary db' d where
  toTally := h.toTally.congr hl hs rfl rfl rfl
  linked := h.linked
  state := fun hr => by
    rw [ht]
    exact h.state hr

theorem SummaryInvariant.initial {w : World} (h : w.Initial) : SummaryInvariant w.db where
  summary := fun id d hd => by simp [h.decisions id] at hd
  link_decision := fun l hl => by simp [h.links] at hl
  link_evidence := fun l hl => by simp [h.links] at hl

theorem linkTx_links (db : Db) (call : AggregateCall) (d : Decision) (evidence : Evidence) :
    (linkTx db call d evidence).decisionEvidences =
      db.decisionEvidences ++ newLinks db d evidence := rfl

theorem linkTx_linksOf_of_ne {db : Db} {call : AggregateCall} {d : Decision}
    {evidence : Evidence} {id : Uuid} (h : id ≠ d.id) :
    (linkTx db call d evidence).linksOf id = db.linksOf id := by
  have hlinks := linkTx_links db call d evidence
  unfold newLinks at hlinks
  split at hlinks
  · rw [List.append_nil] at hlinks
    simp only [Db.linksOf, hlinks]
  · exact linksOf_append_of_ne hlinks h

/-- Linking an evidence counts it in exactly if the link is new. -/
theorem Tally.afterLink {db : Db} {d : Decision} {evidence : Evidence} (call : AggregateCall)
    (h : Tally db d) (hev : db.evidences.find evidence.id = some evidence) :
    Tally (linkTx db call d evidence) (afterLink db call d evidence) ∧
      1 ≤ (ArgusServices.afterLink db call d evidence).evidenceCount := by
  have hlinks := linkTx_links db call d evidence
  cases hl : db.linked d.id evidence.id with
  | true =>
    have hpos : 0 < (db.linksOf d.id).length := by
      obtain ⟨l, hmem, _⟩ := linked_iff.mp hl
      exact List.length_pos_of_mem hmem
    rw [newLinks_of_linked hl, List.append_nil] at hlinks
    rw [afterLink_of_linked hl]
    refine ⟨h.congr (by simp only [Db.linksOf, hlinks]) (fun _ _ => rfl) rfl rfl rfl, ?_⟩
    have := h.count
    omega
  | false =>
    rw [newLinks_of_new hl] at hlinks
    rw [afterLink_of_new hl]
    refine ⟨h.addLink hlinks rfl hev rfl rfl rfl, ?_⟩
    have hcount := h.count
    simp only [Decision.addEvidence]
    omega

/-- The row a call works on agrees with the link table, also when it has just been inserted. -/
theorem SummaryInvariant.target {w : World} {call : AggregateCall} {evidence : Evidence}
    {tenant : Tenant} {d : Decision} {keys : String → Option RedisEntry}
    (h : SummaryInvariant w.db) (ht : Target w call evidence tenant d keys) :
    Tally w.db d ∧ d.tenantId = evidence.tenantId := by
  cases ht with
  | merge ho hle =>
    obtain ⟨hd, hten, _⟩ := World.openDecision_spec ho
    exact ⟨(h.summary _ _ hd).toTally, hten⟩
  | create _ hfree _ =>
    have hnone := linksOf_of_free h.link_decision hfree
    exact ⟨⟨by simp [hnone, newDecision], by simp [Db.severityOf, hnone, newDecision]⟩, rfl⟩

theorem newLinks_decisionId {db : Db} {d : Decision} {evidence : Evidence} {l : DecisionEvidence}
    (h : l ∈ newLinks db d evidence) : l.decisionId = d.id ∧ l.evidenceId = evidence.id := by
  unfold newLinks at h
  split at h
  · cases h
  · obtain rfl := List.mem_singleton.mp h
    exact ⟨rfl, rfl⟩

theorem Committed.links {call : AggregateCall} {w w' : World} {evidence : Evidence}
    {tenant : Tenant} {d : Decision} (h : Committed call w w' evidence tenant d) :
    w'.db.decisionEvidences = w.db.decisionEvidences ++ newLinks w.db d evidence := by
  rw [h.db]
  rfl

/-- A link after the call was there before or joins the call's evidence and decision. -/
theorem Committed.mem_links {call : AggregateCall} {w w' : World} {evidence : Evidence}
    {tenant : Tenant} {d : Decision} (h : Committed call w w' evidence tenant d)
    {l : DecisionEvidence} (hl : l ∈ w'.db.decisionEvidences) : l ∈ w.db.decisionEvidences ∨
      (l.decisionId = d.id ∧ l.evidenceId = evidence.id) := by
  rw [h.links] at hl
  exact (List.mem_append.mp hl).imp_right newLinks_decisionId

theorem computeState_congr {d d' : Decision} {tenant : Tenant}
    (hc : d'.evidenceCount = d.evidenceCount) (hv : d'.cumulativeSeverity = d.cumulativeSeverity) :
    computeState d' tenant = computeState d tenant := by
  simp only [computeState, hc, hv]

theorem SummaryInvariant.committed {call : AggregateCall} {w w' : World} {evidence : Evidence}
    {tenant : Tenant} {d : Decision} (h : SummaryInvariant w.db)
    (hc : Committed call w w' evidence tenant d) : SummaryInvariant w'.db := by
  obtain ⟨htally, hten⟩ := h.target hc.target
  have hev : w.db.evidences.find evidence.id = some evidence := by
    rw [w.db.evidences.keyed _ _ hc.evidence_found]
    exact hc.evidence_found
  obtain ⟨hlinked, hpos⟩ := htally.afterLink call hev
  have hlinks : ∀ id, w'.db.linksOf id = (linkTx w.db call d evidence).linksOf id :=
    fun id => by rw [hc.db]; rfl
  have htenants : w'.db.tenants = w.db.tenants := by rw [hc.db]; rfl
  have hevidences : w'.db.evidences = w.db.evidences := by rw [hc.db]; rfl
  have hscores : w'.db.scoreOf = w.db.scoreOf := by rw [hc.db]; rfl
  refine ⟨?_, ?_, ?_⟩
  · intro id d' hd'
    rw [hc.find] at hd'
    split at hd'
    next =>
      obtain rfl := Option.some.inj hd'
      refine ⟨hlinked.congr (hlinks _) (fun l _ => by rw [hscores]; rfl)
        (afterState_id _ _ _) (by simp) (by simp), by simpa using hpos, fun _ => ⟨tenant, ?_, ?_⟩⟩
      · simpa [htenants, hten] using hc.tenant_found
      · rw [afterState_state]
        exact (computeState_congr (by simp) (by simp)).symm
    next hne =>
      have hid := w.db.decisions.keyed _ _ hd'
      refine (h.summary id d' hd').frame htenants ?_ (fun l _ => by rw [hscores])
      rw [hlinks, linkTx_linksOf_of_ne (hid ▸ hne)]
  · intro l hl
    rw [hc.find]
    split
    next => exact ⟨_, rfl⟩
    next hne =>
      rcases hc.mem_links hl with hl | ⟨hd, -⟩
      · exact h.link_decision l hl
      · exact absurd hd hne
  · intro l hl
    rw [hevidences]
    rcases hc.mem_links hl with hl | ⟨-, he⟩
    · exact h.link_evidence l hl
    · exact ⟨evidence, by rw [he, hev]⟩

theorem SummaryInvariant.resolved {call : ResolveCall} {w w' : World} {d : Decision}
    (h : SummaryInvariant w.db) (hr : Resolved call w w' d) : SummaryInvariant w'.db := by
  have hw := hr.world
  refine ⟨?_, ?_, ?_⟩
  · intro id d' hd'
    rw [hr.find] at hd'
    split at hd'
    next =>
      obtain rfl := Option.some.inj hd'
      have hold := h.summary _ _ hr.found
      refine ⟨hold.toTally.congr (by rw [hw]; rfl) (fun l _ => by rw [hw]; rfl) rfl rfl rfl,
        hold.linked, fun hst => ?_⟩
      simp at hst
    next =>
      exact (h.summary id d' hd').frame (by rw [hw]; rfl) (by rw [hw]; rfl)
        (fun l _ => by rw [hw]; rfl)
  · intro l hl
    rw [hr.find]
    split
    next => exact ⟨_, rfl⟩
    next =>
      rw [hw] at hl
      exact h.link_decision l hl
  · rw [hw]
    exact h.link_evidence

theorem SummaryInvariant.arrived {w : World} {evidence : Evidence} (h : SummaryInvariant w.db)
    (hfree : w.db.evidences.find evidence.id = none) :
    SummaryInvariant { w.db with evidences := w.db.evidences.put evidence } := by
  have hold : ∀ l ∈ w.db.decisionEvidences,
      (w.db.evidences.put evidence).find l.evidenceId = w.db.evidences.find l.evidenceId := by
    intro l hl
    obtain ⟨e, he⟩ := h.link_evidence l hl
    refine KeyedTable.find_put_of_ne _ fun heq => ?_
    simp [heq, hfree] at he
  refine ⟨fun id d hd => (h.summary id d hd).frame rfl rfl fun l hl => ?_, h.link_decision,
    fun l hl => ?_⟩
  · simp only [Db.scoreOf, hold l (List.mem_filter.mp hl).1]
  · obtain ⟨e, he⟩ := h.link_evidence l hl
    exact ⟨e, (hold l hl).trans he⟩

/-- Every request keeps the counters, the links and the states in step, whatever raises. -/
theorem SummaryInvariant.serve {w : World} (r : Request) (h : SummaryInvariant w.db) :
    SummaryInvariant (serve w r).db :=
  serve_keeps h (fun _ hc => h.committed hc) (fun _ hr => h.resolved hr) h.arrived

theorem run_summaryInvariant {w w' : World} {rs : List Request} (hw : w.Initial)
    (h : Run Served w rs w') : SummaryInvariant w'.db := by
  refine h.invariant (I := fun w => SummaryInvariant w.db) ?_ (.initial hw)
  intro w r _ hi heq
  subst heq
  exact hi.serve r

/-- In every committed state of a serial run the row of a decision counts its links, sums their
scores and, while it is unresolved, is in the state the thresholds give for these numbers. -/
theorem decision_summary {w w' : World} {rs : List Request} (hw : w.Initial)
    (h : Run Served w rs w') {id : Uuid} {d : Decision}
    (hd : w'.db.decisions.find id = some d) :
    d.evidenceCount = (w'.db.linksOf id).length ∧ 1 ≤ d.evidenceCount ∧
      (∀ l ∈ w'.db.linksOf id, ∃ e, w'.db.evidences.find l.evidenceId = some e) ∧
      d.cumulativeSeverity = w'.db.severityOf id ∧
      (d.state.resolved = false → ∃ tenant, w'.db.tenants.find d.tenantId = some tenant ∧
        d.state =
          if w'.db.severityOf id ≥ tenant.warningThreshold then .warning
          else if (w'.db.linksOf id).length ≥ tenant.weirdThreshold then .weird
          else .normal) := by
  have hinv := run_summaryInvariant hw h
  have hid := w'.db.decisions.keyed _ _ hd
  subst hid
  have hsum := hinv.summary _ _ hd
  refine ⟨hsum.count, hsum.linked, ?_, hsum.severity, ?_⟩
  · intro l hl
    exact hinv.link_evidence l (List.mem_filter.mp hl).1
  · intro hres
    obtain ⟨tenant, ht, hstate⟩ := hsum.state hres
    refine ⟨tenant, ht, ?_⟩
    rw [hstate, computeState, hsum.count, hsum.severity]

/-- Two evidences of one window, the second seen twice: two links, and the sum decides. -/
def summaryRun : List Request :=
  [.aggregate (sampleAggregate 11 20), .aggregate (sampleAggregate 12 21),
    .aggregate (sampleAggregate 12 22)]

def summaryWorld : World :=
  summaryRun.foldl serve (sampleWorld [sampleEvidence 11 none 4, sampleEvidence 12 none 6])

theorem decision_summary_sample : ∃ d, summaryWorld.db.decisions.find ⟨20⟩ = some d ∧
    d.evidenceCount = 2 ∧ d.cumulativeSeverity = 10 ∧ d.state = .warning := by
  obtain ⟨d, hd, hst⟩ := Option.map_eq_some_iff.mp
    (by decide +kernel : summaryWorld.stateOf ⟨20⟩ = some .warning)
  have hrun : Run Served _ summaryRun summaryWorld := run_serve _ _
  obtain ⟨hcount, _, _, hsum, _⟩ := decision_summary (sampleWorld_initial _) hrun hd
  refine ⟨d, hd, hcount.trans ?_, hsum.trans ?_, hst⟩
  · decide +kernel
  · decide +kernel

end ArgusServices

import ArgusServices.SummaryInvariant

namespace ArgusServices

open Transition

/-- No evidence is linked to two decisions. -/
def SingleLinks (db : Db) : Prop :=
  ∀ l ∈ db.decisionEvidences, ∀ l' ∈ db.decisionEvidences,
    l.evidenceId = l'.evidenceId → l.decisionId = l'.decisionId

/-- The two columns of a decision that its evidences add up in. -/
def Db.counters (db : Db) (id : Uuid) : Option (Int × Int) :=
  (db.decisions.find id).map fun d => (d.evidenceCount, d.cumulativeSeverity)

/-- The open key of an evidence that is linked already still leads to the decision it is linked
to, and the window of that decision takes it. -/
def StillOpen (w : World) : Request → Prop
  | .aggregate call => ∀ evidence ∈ w.db.evidences.find call.evidenceId,
      ∀ l ∈ w.db.decisionEvidences, l.evidenceId = evidence.id →
        ∃ d ∈ w.openDecision evidence, evidence.capturedAt ≤ d.windowEnd ∧ d.id = l.decisionId
  | _ => True

instance (w : World) : (r : Request) → Decidable (StillOpen w r)
  | .aggregate call => inferInstanceAs (Decidable (∀ evidence ∈ w.db.evidences.find call.evidenceId,
      ∀ l ∈ w.db.decisionEvidences, l.evidenceId = evidence.id →
        ∃ d ∈ w.openDecision evidence, evidence.capturedAt ≤ d.windowEnd ∧ d.id = l.decisionId))
  | .resolve _ | .expireKey _ | .insertEvidence _ => inferInstanceAs (Decidable True)

variable {w w' : World} {call : AggregateCall} {evidence : Evidence} {tenant : Tenant}
  {d : Decision}

theorem Committed.linked (h : Committed call w w' evidence tenant d) :
    ∃ l ∈ w'.db.decisionEvidences, l.decisionId = d.id ∧ l.evidenceId = evidence.id := by
  rw [h.links]
  by_cases hl : w.db.linked d.id evidence.id = true
  · obtain ⟨l, hmem, he⟩ := linked_iff.mp hl
    obtain ⟨hmem, hd⟩ := mem_linksOf.mp hmem
    exact ⟨l, List.mem_append_left _ hmem, hd, he⟩
  · refine ⟨linkRow d evidence, ?_, rfl, rfl⟩
    simp [newLinks, hl]

/-- A call that is still open for its evidence works on the decision the evidence is linked to. -/
theorem Committed.target_of_stillOpen (h : Committed call w w' evidence tenant d)
    (ho : StillOpen w (.aggregate call)) {l : DecisionEvidence} (hl : l ∈ w.db.decisionEvidences)
    (he : l.evidenceId = evidence.id) : d.id = l.decisionId := by
  obtain ⟨d', hd', hle, hid⟩ := ho evidence h.evidence_found l hl he
  rcases h.target.found with ⟨hd, -, -⟩ | ⟨-, hno, -⟩
  · obtain rfl := Option.some.inj (hd.symm.trans hd')
    exact hid
  · have := hno d' hd'
    omega

theorem SingleLinks.committed (hs : SingleLinks w.db)
    (h : Committed call w w' evidence tenant d) (ho : StillOpen w (.aggregate call)) :
    SingleLinks w'.db := by
  have old : ∀ l ∈ w.db.decisionEvidences, l.evidenceId = evidence.id → d.id = l.decisionId :=
    fun l hl he => h.target_of_stillOpen ho hl he
  intro l hl l' hl' heq
  rcases h.mem_links hl with hl | ⟨hd, he⟩
  · rcases h.mem_links hl' with hl' | ⟨hd', he'⟩
    · exact hs l hl l' hl' heq
    · rw [hd', old l hl (heq.trans he')]
  · rcases h.mem_links hl' with hl' | ⟨hd', he'⟩
    · rw [hd, old l' hl' (heq.symm.trans he)]
    · rw [hd, hd']

theorem SingleLinks.serve {r : Request} (hs : SingleLinks w.db) (ho : StillOpen w r) :
    SingleLinks (serve w r).db := by
  refine serve_keeps hs ?_ ?_ (fun _ => hs)
  · intro call w' evidence tenant d hr h
    subst hr
    exact hs.committed h ho
  · intro call w' d _ h
    have hlinks : w'.db.decisionEvidences = w.db.decisionEvidences := by
      rw [h.world]
      rfl
    simpa only [SingleLinks, hlinks] using hs

/-- A repeated call that is still open adds nothing up again. -/
theorem counters_repeated {l : DecisionEvidence} (ho : StillOpen w (.aggregate call))
    (hev : w.db.evidences.find call.evidenceId = some evidence)
    (hl : l ∈ w.db.decisionEvidences) (he : l.evidenceId = evidence.id) (id : Uuid) :
    (serve w (.aggregate call)).db.counters id = w.db.counters id := by
  rcases aggregate_cases call w with h | ⟨evidence', tenant, d, h⟩
  · simp only [serve, h.db]
  · obtain rfl := Option.some.inj (hev.symm.trans h.evidence_found)
    obtain ⟨d', hd', hle, hid⟩ := ho evidence hev l hl he
    have hd : d.id = l.decisionId := h.target_of_stillOpen ho hl he
    have hlinked : w.db.linked d.id evidence.id = true :=
      linked_iff.mpr ⟨l, mem_linksOf.mpr ⟨hl, hd.symm⟩, he⟩
    have hrow : w.db.decisions.find d.id = some d := by
      rcases h.target.found with ⟨-, -, hrow⟩ | ⟨-, hno, -⟩
      · exact hrow
      · have := hno d' hd'
        omega
    simp only [Db.counters, serve, h.find]
    split
    next heq =>
      subst heq
      simp [afterLink, hlinked, hrow]
    next => rfl

/-- A call that is no longer open for its evidence and that nothing fails links it again. -/
theorem not_singleLinks_serve (hinv : SummaryInvariant w.db) (hr : call.raisesAt = none)
    (hev : w.db.evidences.find call.evidenceId = some evidence)
    (htn : w.db.tenants.find evidence.tenantId = some tenant)
    (hok : ¬Refused w call evidence tenant) (hno : ¬StillOpen w (.aggregate call)) :
    ¬SingleLinks (serve w (.aggregate call)).db := by
  simp only [StillOpen, not_forall] at hno
  obtain ⟨ev, hev', l, hl, he, hlost⟩ := hno
  obtain rfl := Option.some.inj (hev.symm.trans hev')
  obtain ⟨d, h⟩ := aggregate_commits hr hev htn hok
  intro hs
  obtain ⟨l', hl', hd', he'⟩ := h.linked
  have hold : l ∈ (aggregate call w).2.db.decisionEvidences := by
    rw [h.links]
    exact List.mem_append_left _ hl
  have hsame := hs l hold l' hl' (he.trans he'.symm)
  rcases h.target.found with ⟨hd, hle, -⟩ | ⟨-, -, hfree⟩
  · exact hlost ⟨d, hd, hle, hd'.symm.trans hsame.symm⟩
  · obtain ⟨d₀, hd₀⟩ := hinv.link_decision l hl
    rw [hsame, hd', hfree] at hd₀
    cases hd₀

/-- In the runs whose repeated calls are still open for their evidence every evidence counts for
one decision and is counted once; a repeated call that is not, and that nothing fails, links its
evidence to a second decision. -/
theorem single_links {rs : List Request} (hw : w.Initial)
    (h : Run (Where StillOpen Served) w rs w') :
    SingleLinks w'.db ∧
      (∀ call evidence l, StillOpen w' (.aggregate call) →
        w'.db.evidences.find call.evidenceId = some evidence → l ∈ w'.db.decisionEvidences →
        l.evidenceId = evidence.id →
          ∀ id, (serve w' (.aggregate call)).db.counters id = w'.db.counters id) ∧
      (∀ call evidence tenant, call.raisesAt = none →
        w'.db.evidences.find call.evidenceId = some evidence →
        w'.db.tenants.find evidence.tenantId = some tenant →
        ¬Refused w' call evidence tenant → ¬StillOpen w' (.aggregate call) →
          ¬SingleLinks (serve w' (.aggregate call)).db) := by
  have hinv := run_summaryInvariant hw h.of_where
  have hstart : SingleLinks w.db := by simp [SingleLinks, hw.links]
  refine ⟨?_, ?_, ?_⟩
  · refine h.invariant_where (I := fun w => SingleLinks w.db) ?_ hstart
    intro u r v hs ho hstep
    rw [hstep]
    exact hs.serve ho
  · intro call evidence l ho hev hl he id
    exact counters_repeated ho hev hl he id
  · intro call evidence tenant hr hev htn hok hno
    exact not_singleLinks_serve hinv hr hev htn hok hno

/-- The second evidence opens a new window before the first one is delivered again. -/
def redeliveryStart : World :=
  sampleWorld [sampleEvidence 11 none 4, { sampleEvidence 12 none 5 with capturedAt := seconds 90 }]

def redeliveries : List AggregateCall :=
  [sampleAggregate 11 20, sampleAggregate 12 21, sampleAggregate 11 22]

/-- The evidences up to the one that is delivered again. -/
def rollover : List Request :=
  [.aggregate (sampleAggregate 11 20), .aggregate (sampleAggregate 12 21)]

def rolledOver : World :=
  rollover.foldl serve redeliveryStart

theorem not_singleLinks : ¬∀ (w w' : World) (calls : List AggregateCall), w.Initial →
    Run Served w (calls.map .aggregate) w' → SingleLinks w'.db := by
  intro h
  have hlinks := h redeliveryStart _ redeliveries (sampleWorld_initial _) (run_serve _ _)
  have hone := hlinks ⟨⟨1⟩, ⟨20⟩, ⟨11⟩⟩ (by decide +kernel) ⟨⟨1⟩, ⟨21⟩, ⟨11⟩⟩
    (by decide +kernel) rfl
  exact absurd hone (by decide)

/-- The evidence of the window that is open counts once when it is delivered again, the one of the
window before is linked twice. -/
theorem single_links_sample :
    (serve rolledOver (.aggregate (sampleAggregate 12 22))).db.counters ⟨21⟩ = some (1, 5) ∧
      ¬SingleLinks (serve rolledOver (.aggregate (sampleAggregate 11 22))).db := by
  have hrun : Run (Where StillOpen Served) redeliveryStart rollover rolledOver :=
    run_serve_where (by decide +kernel)
  obtain ⟨-, hsame, hlost⟩ := single_links (sampleWorld_initial _) hrun
  constructor
  · have hcount := hsame (sampleAggregate 12 22)
      { sampleEvidence 12 none 5 with capturedAt := seconds 90 } ⟨⟨1⟩, ⟨21⟩, ⟨12⟩⟩
      (by decide +kernel) (by decide +kernel) (by decide +kernel) rfl ⟨21⟩
    exact hcount.trans (by decide +kernel)
  · apply hlost (sampleAggregate 11 22) (sampleEvidence 11 none 4) sampleTenant rfl
      (by decide +kernel) (by decide +kernel)
    · obtain ⟨d, hd⟩ := Option.isSome_iff_exists.mp
        (by decide +kernel : (rolledOver.openDecision (sampleEvidence 11 none 4)).isSome = true)
      apply not_refused_of_merge hd
      have hend : (rolledOver.openDecision (sampleEvidence 11 none 4)).all
          (fun d => decide ((sampleEvidence 11 none 4).capturedAt ≤ d.windowEnd)) = true := by
        decide +kernel
      exact of_decide_eq_true (by simpa only [hd, Option.all_some] using hend)
    · decide +kernel

end ArgusServices

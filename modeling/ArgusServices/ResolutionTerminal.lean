import ArgusServices.SerialRun

namespace ArgusServices

open Transition

/-- A resolved decision has the same state in every later committed state. -/
def ResolutionTerminal : Prop :=
  ∀ (w : World) (rs ss : List Request) (w₁ w₂ : World), w.Initial → Run Served w rs w₁ →
    Run Served w₁ ss w₂ → ∀ (id : Uuid) (d : Decision), w₁.db.decisions.find id = some d →
      d.state.resolved = true → ∃ d', w₂.db.decisions.find id = some d' ∧ d'.state = d.state

/-- A decision of one evidence, resolved while its key is still set. -/
def resolvedRun : List Request :=
  [.aggregate (sampleAggregate 11 20), .resolve (sampleResolve 20)]

def resolvedStart : World :=
  sampleWorld [sampleEvidence 11 none 4, sampleEvidence 12 none 5,
    sampleEvidence 13 (some ⟨3⟩) 5]

def resolvedWorld : World :=
  resolvedRun.foldl serve resolvedStart

/-- The next evidence of the window has come. -/
def reopenedRun : List Request :=
  resolvedRun ++ [.aggregate (sampleAggregate 12 21)]

def reopenedWorld : World :=
  reopenedRun.foldl serve resolvedStart

/-- The second evidence of the window puts the resolved decision back to normal. -/
theorem not_resolutionTerminal : ¬ResolutionTerminal := by
  intro h
  obtain ⟨d, hd, hst⟩ := Option.map_eq_some_iff.mp
    (by decide : resolvedWorld.stateOf ⟨20⟩ = some .resolvedTruePositive)
  obtain ⟨d', hd', hsame⟩ := h resolvedStart resolvedRun [.aggregate (sampleAggregate 12 21)]
    resolvedWorld _ (sampleWorld_initial _) (run_serve _ _) (run_serve _ _) ⟨20⟩ d hd
    (by rw [hst]; rfl)
  have hkept : (serve resolvedWorld (.aggregate (sampleAggregate 12 21))).stateOf ⟨20⟩ =
      some .resolvedTruePositive :=
    Option.map_eq_some_iff.mpr ⟨d', hd', hsame.trans hst⟩
  exact absurd hkept (by decide)

/-- An aggregate call does not find a resolved decision still open for its evidence. -/
def OpenUnresolved (w : World) : Request → Prop
  | .aggregate call => ∀ (evidence : Evidence) (d : Decision),
      w.db.evidences.find call.evidenceId = some evidence → w.openDecision evidence = some d →
      evidence.capturedAt ≤ d.windowEnd → d.state.resolved = false
  | .resolve _ | .expireKey _ | .insertEvidence _ => True

instance (w : World) : ∀ r : Request, Decidable (OpenUnresolved w r)
  | .aggregate call => decidable_of_iff (∀ evidence ∈ w.db.evidences.find call.evidenceId,
        ∀ d ∈ w.openDecision evidence, evidence.capturedAt ≤ d.windowEnd → d.state.resolved = false)
      ⟨fun h e d he hd => h e he d hd, fun h e he d hd => h e d he hd⟩
  | .resolve _ | .expireKey _ | .insertEvidence _ => instDecidableTrue

/-- A step that finds no resolved decision open leaves the rows of all resolved ones alone. -/
theorem serve_resolved_row {w : World} {r : Request} {id : Uuid} {d : Decision}
    (hopen : OpenUnresolved w r) (hd : w.db.decisions.find id = some d)
    (hres : d.state.resolved = true) : (serve w r).db.decisions.find id = some d := by
  refine serve_keeps (I := fun db => db.decisions.find id = some d) hd ?_ ?_ (fun _ => hd)
  · intro call w' evidence tenant d₀ hr h
    subst hr
    have hne : id ≠ d₀.id := by
      intro heq
      subst heq
      rcases h.target.found with ⟨ho, hle, hrow⟩ | ⟨_, _, hfree⟩
      · obtain rfl := Option.some.inj (hrow.symm.trans hd)
        have := hopen evidence d₀ h.evidence_found ho hle
        simp [hres] at this
      · simp [hfree] at hd
    exact (h.find id).trans (by rw [if_neg hne, hd])
  · intro call w' d₀ _ h
    have hne : id ≠ d₀.id := by
      intro heq
      subst heq
      have hkey := w.db.decisions.keyed _ _ h.found
      obtain rfl := Option.some.inj (h.found.symm.trans (hkey ▸ hd))
      simp [h.unresolved] at hres
    exact (h.find id).trans (by rw [if_neg hne, hd])

theorem aggregate_reopens {w : World} {call : AggregateCall} {evidence : Evidence}
    {tenant : Tenant} {d : Decision} (hr : call.raisesAt = none)
    (hev : w.db.evidences.find call.evidenceId = some evidence)
    (htn : w.db.tenants.find evidence.tenantId = some tenant)
    (hd : w.openDecision evidence = some d) (hle : evidence.capturedAt ≤ d.windowEnd) :
    ∃ d', (serve w (.aggregate call)).db.decisions.find d.id = some d' ∧
      d'.state.resolved = false := by
  have h := aggregate_merges hr hev htn hd hle
  refine ⟨_, (h.find d.id).trans (if_pos rfl), ?_⟩
  rw [afterState_state]
  exact computeState_unresolved _ _

/-- Resolution is terminal in the runs whose aggregate calls find no resolved decision open, and
each undisturbed call that finds one breaks it. -/
theorem resolution_terminal (w : World) :
    (∀ (w' : World) (rs : List Request), Run (Where OpenUnresolved Served) w rs w' →
      ∀ (id : Uuid) (d : Decision), w.db.decisions.find id = some d → d.state.resolved = true →
        ∃ d', w'.db.decisions.find id = some d' ∧ d'.state = d.state) ∧
    (∀ (call : AggregateCall) (evidence : Evidence) (tenant : Tenant),
      call.raisesAt = none → w.db.evidences.find call.evidenceId = some evidence →
      w.db.tenants.find evidence.tenantId = some tenant →
      ¬OpenUnresolved w (.aggregate call) →
        ∃ d d', w.db.decisions.find d.id = some d ∧ d.state.resolved = true ∧
          (serve w (.aggregate call)).db.decisions.find d.id = some d' ∧
          d'.state.resolved = false) := by
  constructor
  · intro w' rs hrun id d hd hres
    have hrow := hrun.invariant_where (I := fun w => w.db.decisions.find id = some d)
      (fun w r w' hd ho hw => hw ▸ serve_resolved_row ho hd hres) hd
    exact ⟨d, hrow, rfl⟩
  · intro call evidence tenant hr hev htn hno
    simp only [OpenUnresolved, not_forall, Bool.not_eq_false] at hno
    obtain ⟨ev, d, hev', hd, hle, hres⟩ := hno
    obtain rfl := Option.some.inj (hev.symm.trans hev')
    obtain ⟨d', hd', hun⟩ := aggregate_reopens hr hev htn hd hle
    exact ⟨d, d', (World.openDecision_spec hd).1, hres, hd', hun⟩

/-- An evidence of another region leaves the resolved decision alone, one of the same region
reopens it. -/
theorem resolution_terminal_sample :
    (serve resolvedWorld (.aggregate (sampleAggregate 13 21))).stateOf ⟨20⟩ =
        some .resolvedTruePositive ∧
      ∃ d d', resolvedWorld.db.decisions.find d.id = some d ∧ d.state.resolved = true ∧
        (serve resolvedWorld (.aggregate (sampleAggregate 12 21))).db.decisions.find d.id =
          some d' ∧ d'.state.resolved = false := by
  obtain ⟨d, hd, hst⟩ := Option.map_eq_some_iff.mp
    (by decide : resolvedWorld.stateOf ⟨20⟩ = some .resolvedTruePositive)
  constructor
  · have hopen : OpenUnresolved resolvedWorld (.aggregate (sampleAggregate 13 21)) := by
      intro evidence d hev ho
      obtain rfl := Option.some.inj (hev.symm.trans
        (by decide : _ = some (sampleEvidence 13 (some ⟨3⟩) 5)))
      have hnone : resolvedWorld.openDecision (sampleEvidence 13 (some ⟨3⟩) 5) = none := by decide
      cases hnone.symm.trans ho
    obtain ⟨d', hd', hsame⟩ := (resolution_terminal resolvedWorld).1 _ _
      (Run.single ⟨hopen, rfl⟩) ⟨20⟩ d hd (by rw [hst]; rfl)
    exact Option.map_eq_some_iff.mpr ⟨d', hd', hsame.trans hst⟩
  · refine (resolution_terminal resolvedWorld).2 (sampleAggregate 12 21)
      (sampleEvidence 12 none 5) sampleTenant rfl (by decide) (by decide) ?_
    intro hopen
    obtain ⟨d, ho⟩ := Option.isSome_iff_exists.mp
      (by decide : (resolvedWorld.openDecision (sampleEvidence 12 none 5)).isSome = true)
    have hfacts : ((resolvedWorld.openDecision (sampleEvidence 12 none 5)).all fun d =>
        decide (0 ≤ d.windowEnd) && d.state.resolved) = true := by decide
    simp only [ho, Option.all_some, Bool.and_eq_true, decide_eq_true_eq] at hfacts
    have hun := hopen (sampleEvidence 12 none 5) d (by decide) ho hfacts.1
    simp [hfacts.2] at hun

end ArgusServices

import ArgusServices.ResolutionTerminal

namespace ArgusServices

open Transition

/-- A resolve request as a watcher of the tenant sends it for the row as it is. Its texts are
ones the database can store, which refuses U+0000. -/
structure Addressed (call : ResolveCall) (d : Decision) : Prop where
  decision : call.decisionId = d.id
  tenant : call.tenantId = d.tenantId
  access : call.auth.tenantId = some d.tenantId
  role : call.auth.role = .watcher
  current : call.body.updatedAt = d.updatedAt
  reasoning : blank call.body.reasoning = false

/-- Every unresolved decision takes every such request that no other system fails. -/
def Resolvable (w : World) : Prop :=
  ∀ d, w.db.decisions.find d.id = some d → d.state.resolved = false →
    ∀ call, Addressed call d → call.raisesAt = none →
      (∃ response, (resolveDecision call w).1 = .ok response) ∧
        (resolveDecision call w).2.stateOf d.id = some (dispositionToState call.body.disposition)

/-- Feedback rows belong to resolved decisions and resolved decisions have one. -/
structure FeedbackInvariant (db : Db) : Prop where
  resolved : ∀ f ∈ db.feedback, ∃ d, db.decisions.find f.decisionId = some d ∧
    d.state.resolved = true
  given : ∀ d, db.decisions.find d.id = some d → d.state.resolved = true →
    ∃ f ∈ db.feedback, f.decisionId = d.id
  tenant : db.Tenanted

/-- A decision that is to be resolved and has its feedback already. -/
def Stuck (db : Db) : Prop :=
  ∃ d, db.decisions.find d.id = some d ∧ d.state.resolved = false ∧
    ∃ f ∈ db.feedback, f.decisionId = d.id

variable {w w' : World} {evidence : Evidence} {tenant : Tenant} {d : Decision}

theorem Addressed.accepted {call : ResolveCall} (h : Addressed call d)
    (hd : w.db.decisions.find d.id = some d) (hun : d.state.resolved = false) :
    Accepted call w d where
  role := Or.inl h.role
  access := by rw [h.access, h.tenant]
  reasoning := by
    unfold ResolveDecisionRequest.requireReasoningForFpFn
    cases call.body.disposition <;> simp [h.reasoning]
  found := by rw [h.decision, hd]
  tenant := h.tenant.symm
  current := h.current.symm
  unresolved := hun

theorem FeedbackInvariant.resolvable (h : FeedbackInvariant w.db) : Resolvable w := by
  intro d hd hun call haddr hr
  have hnone : (w.db.feedback.any fun f => f.decisionId = d.id) = false := by
    rw [List.any_eq_false]
    intro f hf heq
    obtain ⟨d', hd', hres⟩ := h.resolved f hf
    rw [of_decide_eq_true heq, hd] at hd'
    obtain rfl := Option.some.inj hd'
    rw [hun] at hres
    cases hres
  have hdone := resolveDecision_commits hr (haddr.accepted hd hun) hnone
  refine ⟨hdone.answered, ?_⟩
  simp [World.stateOf, hdone.find]

/-- A request that says no more than it has to. -/
def briefRequest (d : Decision) : ResolveCall where
  tenantId := d.tenantId
  decisionId := d.id
  body := ⟨.truePositive, "seen", d.updatedAt⟩
  auth := ⟨"watcher", some d.tenantId, .watcher⟩
  clock := 0
  now := 0
  raisesAt := none

theorem addressed_briefRequest (d : Decision) : Addressed (briefRequest d) d :=
  ⟨rfl, rfl, rfl, rfl, rfl, (by decide : blank "seen" = false)⟩

/-- The feedback row makes every further request for the decision fail at the unique constraint. -/
theorem Stuck.not_resolvable (h : Stuck w.db) : ¬Resolvable w := by
  obtain ⟨d, hd, hun, f, hf, hfd⟩ := h
  intro hres
  obtain ⟨-, hstate⟩ := hres d hd hun (briefRequest d) (addressed_briefRequest d) rfl
  rcases resolveDecision_cases (briefRequest d) w with hrej | ⟨d', hdone⟩
  · simp only [World.stateOf, hrej.db, hd, Option.map_some, Option.some.injEq] at hstate
    simp [hstate] at hun
  · obtain rfl := Option.some.inj (hd.symm.trans hdone.found)
    have hnone := List.any_eq_false.mp hdone.no_feedback f hf
    exact hnone (decide_eq_true hfd)

theorem FeedbackInvariant.initial (h : w.Initial) : FeedbackInvariant w.db where
  resolved := fun f hf => by simp [h.feedback] at hf
  given := fun d hd => by simp [h.decisions] at hd
  tenant := .initial h

theorem Committed.feedback {call : AggregateCall} (h : Committed call w w' evidence tenant d) :
    w'.db.feedback = w.db.feedback := by
  rw [h.db]
  rfl

/-- A call whose open decision is unresolved works on a decision without feedback. -/
theorem FeedbackInvariant.committed {call : AggregateCall} (h : FeedbackInvariant w.db)
    (hg : OpenUnresolved w (.aggregate call)) (hc : Committed call w w' evidence tenant d) :
    FeedbackInvariant w'.db where
  resolved := by
    intro f hf
    rw [hc.feedback] at hf
    obtain ⟨r, hr, hres⟩ := h.resolved f hf
    rw [hc.find]
    split
    next hid =>
      rw [hid] at hr
      rcases hc.target.found with ⟨hopen, hle, hrow⟩ | ⟨-, -, hfree⟩
      · obtain rfl := Option.some.inj (hr.symm.trans hrow)
        have hun := hg _ _ hc.evidence_found hopen hle
        rw [hres] at hun
        cases hun
      · simp [hfree] at hr
    next => exact ⟨r, hr, hres⟩
  given := by
    intro r hr hres
    rw [hc.feedback]
    rcases hc.row hr with ⟨-, hun, -⟩ | ⟨-, hold⟩
    · rw [hres] at hun
      cases hun
    · exact h.given r hold hres
  tenant := h.tenant.committed hc

theorem FeedbackInvariant.resolve {call : ResolveCall} (h : FeedbackInvariant w.db)
    (hr : Resolved call w w' d) : FeedbackInvariant w'.db := by
  have hfeedback : w'.db.feedback = w.db.feedback ++ [resolvedFeedback call d] := by
    rw [hr.world]
    rfl
  refine ⟨?_, ?_, h.tenant.resolved hr⟩
  · intro f hf
    rw [hr.find]
    split
    next => exact ⟨_, rfl, dispositionToState_resolved _⟩
    next hid =>
      rw [hfeedback, List.mem_append, List.mem_singleton] at hf
      rcases hf with hf | rfl
      · exact h.resolved f hf
      · exact absurd rfl hid
  · intro r hrow hres
    rw [hfeedback]
    rw [hr.find] at hrow
    split at hrow
    next hid => exact ⟨resolvedFeedback call d, by simp, hid.symm⟩
    next =>
      obtain ⟨f, hf, hfr⟩ := h.given r hrow hres
      exact ⟨f, List.mem_append_left _ hf, hfr⟩

theorem FeedbackInvariant.serve {r : Request} (h : FeedbackInvariant w.db)
    (hg : OpenUnresolved w r) : FeedbackInvariant (serve w r).db := by
  refine serve_keeps h ?_ (fun _ hr => h.resolve hr) (fun _ => ⟨h.resolved, h.given, h.tenant⟩)
  intro call w' evidence tenant d hcall hc
  subst hcall
  exact h.committed hg hc

/-- An undisturbed call that finds a resolved decision open leaves it stuck. -/
theorem FeedbackInvariant.stuck {r : Request} (h : FeedbackInvariant w.db)
    (hg : ¬OpenUnresolved w r) (hr : Undisturbed w r) : Stuck (ArgusServices.serve w r).db := by
  cases r with
  | aggregate call =>
    simp only [OpenUnresolved, not_forall, Bool.not_eq_false] at hg
    obtain ⟨evidence, d, hev, hopen, hle, hres⟩ := hg
    obtain ⟨hrow, hten, -⟩ := World.openDecision_spec hopen
    obtain ⟨tenant, htn⟩ := h.tenant d hrow
    rw [hten] at htn
    obtain ⟨d', hd', hun⟩ := aggregate_reopens hr hev htn hopen hle
    obtain ⟨f, hf, hfd⟩ := h.given d hrow hres
    have hc := aggregate_merges hr hev htn hopen hle
    have hkey := (ArgusServices.serve w (.aggregate call)).db.decisions.keyed _ _ hd'
    refine ⟨d', hkey ▸ hd', hun, f, ?_, hfd.trans hkey.symm⟩
    exact hc.feedback.symm ▸ hf
  | resolve call => exact absurd trivial hg
  | expireKey key => exact absurd trivial hg
  | insertEvidence evidence => exact absurd trivial hg

theorem Stuck.serve {r : Request} (h : Stuck w.db) : Stuck (ArgusServices.serve w r).db := by
  refine serve_keeps h ?_ ?_ (fun _ => h)
  · intro call w' evidence tenant d₀ _ hc
    obtain ⟨d, hd, hun, f, hf, hfd⟩ := h
    unfold Stuck
    rw [hc.feedback]
    by_cases hid : d.id = d₀.id
    · refine ⟨afterState call tenant (afterLink w.db call d₀ evidence), ?_, ?_, f, hf, ?_⟩
      · simp [hc.find]
      · rw [afterState_state]
        exact computeState_unresolved _ _
      · simp [hfd, hid]
    · refine ⟨d, ?_, hun, f, hf, hfd⟩
      rw [hc.find, if_neg hid, hd]
  · intro call w' d₀ _ hr
    obtain ⟨d, hd, hun, f, hf, hfd⟩ := h
    have hne : d.id ≠ d₀.id := by
      intro hid
      exact List.any_eq_false.mp hr.no_feedback f hf (decide_eq_true (hfd.trans hid))
    have hfeedback : w'.db.feedback = w.db.feedback ++ [resolvedFeedback call d₀] := by
      rw [hr.world]
      rfl
    refine ⟨d, ?_, hun, f, ?_, hfd⟩
    · rw [hr.find, if_neg hne, hd]
    · rw [hfeedback]
      exact List.mem_append_left _ hf

/-- While no call finds a resolved decision open, every unresolved decision can be resolved,
whatever else raises. If nothing raises, these are the only runs that end so. -/
theorem resolvable_iff_openUnresolved {rs : List Request} (hw : w.Initial) :
    (Run (Where OpenUnresolved Served) w rs w' → Resolvable w') ∧
      (Run (Where Undisturbed Served) w rs w' →
        (Resolvable w' ↔ Run (Where OpenUnresolved (Where Undisturbed Served)) w rs w')) := by
  have hstart := FeedbackInvariant.initial hw
  constructor
  · intro h
    apply FeedbackInvariant.resolvable
    exact h.invariant_where (I := fun w => FeedbackInvariant w.db)
      (fun _ _ _ hi hg heq => heq ▸ hi.serve hg) hstart
  · intro h
    refine h.goal_iff_where (fun w => FeedbackInvariant w.db) Resolvable (fun w => Stuck w.db)
      ?_ ?_ ?_ hstart FeedbackInvariant.resolvable Stuck.not_resolvable
    · intro w r w' hi hg hstep
      exact hstep.2 ▸ hi.serve hg
    · intro w r w' hi hg hstep
      exact hstep.2 ▸ hi.stuck hg hstep.1
    · intro w r w' hstuck hstep
      exact hstep.2 ▸ hstuck.serve

theorem stuck_reopenedWorld : Stuck reopenedWorld.db := by
  obtain ⟨d, hd, hst⟩ := Option.map_eq_some_iff.mp
    (by decide +kernel : reopenedWorld.stateOf ⟨20⟩ = some .normal)
  have hid := reopenedWorld.db.decisions.keyed _ _ hd
  have hfeedback : ∃ f ∈ reopenedWorld.db.feedback, f.decisionId = ⟨20⟩ := by decide +kernel
  refine ⟨d, hid ▸ hd, by rw [hst]; rfl, ?_⟩
  rwa [hid]

/-- Put back to work by an evidence that came after its resolution, a decision stays there. -/
theorem not_always_resolvable : ¬∀ (w w' : World) (rs : List Request), w.Initial →
    Run (Where Undisturbed Served) w rs w' → Resolvable w' := by
  intro h
  refine stuck_reopenedWorld.not_resolvable (h resolvedStart reopenedWorld reopenedRun
    (sampleWorld_initial _) ?_)
  exact run_serve_where (by decide +kernel)

theorem resolvable_iff_openUnresolved_sample :
    Resolvable (serve resolvedStart (.aggregate (sampleAggregate 11 20))) ∧
      ¬Run (Where OpenUnresolved (Where Undisturbed Served)) resolvedStart reopenedRun
        reopenedWorld := by
  constructor
  · refine (resolvable_iff_openUnresolved (sampleWorld_initial _)).1 (Run.single ⟨?_, rfl⟩)
    decide +kernel
  · intro hrun
    have hserved : Run (Where Undisturbed Served) resolvedStart reopenedRun reopenedWorld :=
      run_serve_where (by decide +kernel)
    have hres := ((resolvable_iff_openUnresolved (sampleWorld_initial _)).2 hserved).mpr hrun
    exact stuck_reopenedWorld.not_resolvable hres

end ArgusServices

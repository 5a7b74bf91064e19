import ArgusServices.Triage

namespace ArgusServices

open Effect

/-- The checks a resolve request passes before it writes. -/
structure Accepted (call : ResolveCall) (w : World) (d : Decision) : Prop where
  role : call.auth.role = .watcher ∨ call.auth.role = .tenantAdmin
  access : call.auth.tenantId = some call.tenantId
  reasoning : call.body.requireReasoningForFpFn = true
  found : w.db.decisions.find call.decisionId = some d
  tenant : d.tenantId = call.tenantId
  current : d.updatedAt = call.body.updatedAt
  unresolved : d.state.resolved = false

def resolvedRow (call : ResolveCall) (d : Decision) : Decision :=
  { d.resolve call with updatedAt := call.now }

def resolvedFeedback (call : ResolveCall) (d : Decision) : Feedback :=
  ⟨call.tenantId, d.id, call.body.disposition,
    if call.body.reasoning = "" then call.body.disposition.value else call.body.reasoning,
    call.auth.sub⟩

def resolvedAudit (call : ResolveCall) (d : Decision) : AuditRecord :=
  ⟨d.tenantId, d.id, "resolved", .resolved call.body.disposition call.body.reasoning,
    some call.auth.sub⟩

def resolvedEvent (call : ResolveCall) (d : Decision) : Event :=
  .wsResolved call.tenantId d.id (dispositionToState call.body.disposition) call.auth.sub
    call.clock

def resolveTx (db : Db) (call : ResolveCall) (d : Decision) : Db :=
  { db with
    decisions := db.decisions.put (resolvedRow call d)
    feedback := db.feedback ++ [resolvedFeedback call d]
    auditRecords := db.auditRecords ++ [resolvedAudit call d] }

@[simp] theorem resolvedRow_state (call : ResolveCall) (d : Decision) :
    (resolvedRow call d).state = dispositionToState call.body.disposition := rfl

/-- A request that committed. -/
structure Resolved (call : ResolveCall) (w w' : World) (d : Decision) : Prop
    extends Accepted call w d where
  no_feedback : (w.db.feedback.any fun f => f.decisionId = d.id) = false
  world : w' = { w with
    db := resolveTx w.db call d
    published := w.published ++ [resolvedEvent call d] }

/-- A request that raised. Only a failed commit leaves a trace, the event it had published. -/
inductive Rejected (call : ResolveCall) (w : World) : World → Prop
  | unchanged : call.raisesAt ≠ none ∨ (∀ d, ¬Accepted call w d) ∨
      (∃ d, Accepted call w d ∧ (w.db.feedback.any fun f => f.decisionId = d.id) = true) →
      Rejected call w w
  | published {d : Decision} : call.raisesAt = some .commit → Accepted call w d →
      Rejected call w { w with published := w.published ++ [resolvedEvent call d] }

theorem resolveDecisionHandler_ends {call : ResolveCall} {w : World} {s : Session}
    (hrole : call.auth.role = .watcher ∨ call.auth.role = .tenantAdmin)
    (haccess : call.auth.tenantId = some call.tenantId)
    (hreason : call.body.requireReasoningForFpFn = true)
    (hs : s = ⟨w, w.db, some call.tenantId, some call.auth.role⟩) :
    Ends (resolveDecisionHandler call) s
      (fun _ t => ∃ d, Accepted call w d ∧
        (w.db.feedback.any fun f => f.decisionId = d.id) = false ∧
        t = { s with
          tx := resolveTx w.db call d
          world := { w with published := w.published ++ [resolvedEvent call d] } })
      (fun _ t => Rejected call w t.world) := by
  have raised : ∀ {step : ResolveStep}, decide (call.raisesAt = some step) = true →
      Rejected call w w := fun h => .unchanged (Or.inl (by simp [of_decide_eq_true h]))
  subst s
  have hroot : call.auth.role ≠ .rootAdmin := by
    rcases hrole with h | h <;> simp [h]
  simp only [resolveDecisionHandler, ResolveCall.at, getDecision, ends_bind, ends_raiseWhen,
    ends_get, ends_pure, Session.sees, Option.some.injEq, hroot, decide_false, Bool.or_false]
  refine ⟨raised, ?_⟩
  intro _
  cases hfind : (w.db.decisions.find call.decisionId).filter
      (fun d => decide (call.tenantId = d.tenantId)) with
  | none =>
    refine .unchanged (Or.inr (Or.inl fun d hd => ?_))
    have := (Option.filter_eq_none_iff.mp hfind) d hd.found
    simp [hd.tenant] at this
  | some d =>
    obtain ⟨hrow, hten⟩ := Option.filter_eq_some_iff.mp hfind
    have hten' : d.tenantId = call.tenantId := (of_decide_eq_true hten).symm
    have refused : ∀ {P : Prop}, (∀ d', Accepted call w d' → d' = d → ¬P) → P →
        Rejected call w w := by
      intro P hno hp
      refine .unchanged (Or.inr (Or.inl fun d' hd' => ?_))
      exact hno d' hd' (Option.some.inj (hd'.found.symm.trans hrow)) hp
    simp only [ends_bind, ends_raiseWhen, createFeedbackWithEmbedding, saveDecision,
      writeAuditRecord, publish, onTx, onWorld, ends_modify, ends_get, ends_pure,
      ResolveCall.at]
    refine ⟨fun h => absurd hten' (of_decide_eq_true h), ?_⟩
    intro _
    constructor
    · apply refused
      intro d' hd' heq h
      subst heq
      exact of_decide_eq_true h hd'.current
    intro hcur
    constructor
    · apply refused
      intro d' hd' heq h
      subst heq
      simp [hd'.unresolved] at h
    intro hopen
    have hacc : Accepted call w d := ⟨hrole, haccess, hreason, hrow, hten',
      by simpa using hcur, hopen⟩
    refine ⟨raised, ?_⟩
    intro _
    refine ⟨raised, ?_⟩
    intro _
    constructor
    · intro hfb
      exact .unchanged (Or.inr (Or.inr ⟨d, hacc, by simpa using hfb⟩))
    intro hfb
    refine ⟨raised, ?_⟩
    intro _
    refine ⟨raised, ?_⟩
    intro _
    exact ⟨d, hacc, by simpa using hfb, rfl⟩

/-- A principal other than the root administrator gets a session of its own tenant. -/
theorem getTenantDb_ends (call : ResolveCall) (w : World) :
    Ends (getTenantDb call) (Session.open w)
      (fun _ t => t.world = w ∧ (call.auth.role ≠ .rootAdmin →
        call.auth.tenantId = some call.tenantId ∧
          t = ⟨w, w.db, some call.tenantId, some call.auth.role⟩))
      (fun _ t => Rejected call w t.world) := by
  simp only [getTenantDb, requireTenantAccess, ResolveCall.at, ends_bind, ends_raiseWhen]
  constructor
  · intro h
    refine .unchanged (Or.inr (Or.inl fun d hd => ?_))
    exact (of_decide_eq_true h).2 hd.access
  intro haccess
  refine ⟨fun h => .unchanged (Or.inl (by simp [of_decide_eq_true h])), ?_⟩
  intro _
  split
  next hroot =>
    simp only [setSessionContext, ends_modify]
    exact ⟨rfl, fun h => absurd hroot h⟩
  next hroot =>
    have hten : call.auth.tenantId = some call.tenantId := by
      simpa [hroot] using haccess
    simp only [setSessionContext, ends_modify]
    exact ⟨rfl, fun _ => ⟨hten, by simp [hten, Session.open]⟩⟩

theorem resolveDecisionBody_ends (call : ResolveCall) (w : World) :
    Ends (resolveDecisionBody call) (Session.open w)
      (fun _ t => ∃ d, Resolved call w t.world d)
      (fun _ t => Rejected call w t.world) := by
  refine (getTenantDb_ends call w).bind ?_
  intro _ s hpost
  obtain ⟨hw, hs⟩ := hpost
  simp only [requireRole, ResolveCall.at, ends_bind, ends_raiseWhen]
  constructor
  · intro h
    rw [hw]
    refine .unchanged (Or.inr (Or.inl fun d hd => of_decide_eq_true h ?_))
    rcases hd.role with h | h <;> simp [h]
  intro hr
  constructor
  · intro h
    rw [hw]
    refine .unchanged (Or.inr (Or.inl fun d hd => ?_))
    simp [hd.reasoning] at h
  · intro hreason
    have hrole : call.auth.role = .watcher ∨ call.auth.role = .tenantAdmin := by
      simpa [or_iff_not_imp_left] using hr
    have hroot : call.auth.role ≠ .rootAdmin := by
      rcases hrole with h | h <;> simp [h]
    obtain ⟨hten, hs⟩ := hs hroot
    refine (resolveDecisionHandler_ends hrole hten (by simpa using hreason) hs).mono
      ?_ (fun _ _ h => h)
    intro _ t hpost
    obtain ⟨d, hacc, hfb, rfl⟩ := hpost
    simp only [commit, ends_modify, ends_pure]
    exact ⟨fun h => .published (of_decide_eq_true h) hacc, fun _ => ⟨d, hacc, hfb, rfl⟩⟩

theorem resolveDecision_result (call : ResolveCall) (w : World) :
    ((∃ e, (resolveDecision call w).1 = .error e) ∧ Rejected call w (resolveDecision call w).2) ∨
      (∃ response, (resolveDecision call w).1 = .ok response) ∧
        ∃ d, Resolved call w (resolveDecision call w).2 d := by
  have h := resolveDecisionBody_ends call w
  unfold resolveDecision runSession
  rcases hx : exec (resolveDecisionBody call) (Session.open w) with ⟨r | r, t⟩
  · exact Or.inl ⟨⟨r, rfl⟩, h.error hx⟩
  · exact Or.inr ⟨⟨r, rfl⟩, h.ok hx⟩

theorem resolveDecision_cases (call : ResolveCall) (w : World) :
    Rejected call w (resolveDecision call w).2 ∨
      ∃ d, Resolved call w (resolveDecision call w).2 d :=
  (resolveDecision_result call w).imp And.right And.right

/-- An accepted request for a decision without feedback, that nothing fails, commits. -/
theorem resolveDecision_commits {call : ResolveCall} {w : World} {d : Decision}
    (hr : call.raisesAt = none) (hacc : Accepted call w d)
    (hfeedback : (w.db.feedback.any fun f => f.decisionId = d.id) = false) :
    Resolved call w (resolveDecision call w).2 d := by
  rcases resolveDecision_cases call w with h | ⟨d', h⟩
  · generalize (resolveDecision call w).2 = w' at h
    cases h with
    | unchanged hcause =>
      rcases hcause with hraises | hno | ⟨d', hacc', hfb⟩
      · exact absurd hr hraises
      · exact absurd hacc (hno d)
      · obtain rfl := Option.some.inj (hacc.found.symm.trans hacc'.found)
        rw [hfeedback] at hfb
        cases hfb
    | published hraises _ =>
      rw [hr] at hraises
      cases hraises
  · obtain rfl := Option.some.inj (hacc.found.symm.trans h.found)
    exact h

theorem Rejected.db {call : ResolveCall} {w w' : World} (h : Rejected call w w') :
    w'.db = w.db := by
  cases h <;> rfl

theorem Resolved.answered {call : ResolveCall} {w : World} {d : Decision}
    (h : Resolved call w (resolveDecision call w).2 d) :
    ∃ response, (resolveDecision call w).1 = .ok response := by
  rcases resolveDecision_result call w with ⟨-, hrej⟩ | ⟨hok, -⟩
  · have hfeedback := congrArg Db.feedback (hrej.db.symm.trans (congrArg World.db h.world))
    simp [resolveTx] at hfeedback
  · exact hok

end ArgusServices

import ArgusServices.ResolutionTerminal
import ArgusServices.SummaryInvariant

namespace ArgusServices

open Effect Transition

/-- The database time at which the transaction of a call starts. -/
def Request.time : Request → Option Int
  | .aggregate call => some call.now
  | .resolve call => some call.now
  | .expireKey _ | .insertEvidence _ => none

def times (rs : List Request) : List Int :=
  rs.filterMap Request.time

theorem times_append (rs ss : List Request) : times (rs ++ ss) = times rs ++ times ss :=
  List.filterMap_append

/-- The row of a decision and its links are the same in both states. -/
def Untouched (id : Uuid) (w w' : World) : Prop :=
  w'.db.decisions.find id = w.db.decisions.find id ∧ w'.db.linksOf id = w.db.linksOf id

/-- The row of a decision carries one of these times. -/
def Stamped (id : Uuid) (ts : List Int) (w : World) : Prop :=
  ∃ d, w.db.decisions.find id = some d ∧ d.updatedAt ∈ ts

variable {w w' w₁ w₂ : World} {id : Uuid} {rs ss : List Request}

theorem Untouched.refl (id : Uuid) (w : World) : Untouched id w w :=
  ⟨rfl, rfl⟩

theorem Untouched.trans (h : Untouched id w w₁) (h' : Untouched id w₁ w₂) : Untouched id w w₂ :=
  ⟨h'.1.trans h.1, h'.2.trans h.2⟩

theorem Stamped.mono {ts us : List Int} (h : Stamped id ts w) (hsub : ∀ t ∈ ts, t ∈ us) :
    Stamped id us w := by
  obtain ⟨d, hd, ht⟩ := h
  exact ⟨d, hd, hsub _ ht⟩

theorem Stamped.untouched {ts : List Int} (h : Stamped id ts w) (hu : Untouched id w w') :
    Stamped id ts w' := by
  obtain ⟨d, hd, ht⟩ := h
  exact ⟨d, hu.1.trans hd, ht⟩

theorem afterLink_updatedAt {db : Db} {call : AggregateCall} {d : Decision} (evidence : Evidence)
    (h : db.linked d.id evidence.id = false ∨ d.updatedAt = call.now) :
    (afterLink db call d evidence).updatedAt = call.now := by
  unfold afterLink
  split
  next hl =>
    rcases h with h | h
    · rw [hl] at h
      cases h
    · exact h
  next => rfl

theorem afterState_updatedAt {call : AggregateCall} {tenant : Tenant} {d : Decision}
    (h : computeState d tenant ≠ d.state ∨ d.updatedAt = call.now) :
    (afterState call tenant d).updatedAt = call.now := by
  unfold afterState
  split
  next hsame => exact h.elim (absurd hsame) id
  next => rfl

/-- A call that changes a row or its links stamps the row with its own time. -/
theorem Committed.stamps {call : AggregateCall} {evidence : Evidence} {tenant : Tenant}
    {d : Decision} (h : Committed call w w' evidence tenant d) (id : Uuid) :
    Untouched id w w' ∨ Stamped id [call.now] w' := by
  have hlinks : w'.db.linksOf id = (linkTx w.db call d evidence).linksOf id := by
    rw [h.db]
    rfl
  by_cases hid : id = d.id
  · subst hid
    have hrow := (h.find d.id).trans (if_pos rfl)
    have stamped : ∀ {r : Decision}, r = afterState call tenant (afterLink w.db call d evidence) →
        r.updatedAt = call.now → Stamped d.id [call.now] w' := by
      intro r hr hnow
      exact ⟨r, hr ▸ hrow, List.mem_singleton.mpr hnow⟩
    rcases h.target.found with ⟨-, -, hold⟩ | ⟨hnew, -, -⟩
    · by_cases hl : w.db.linked d.id evidence.id = true
      · have hsame : afterLink w.db call d evidence = d := by simp [afterLink, hl]
        by_cases hstate : computeState d tenant = d.state
        · refine Or.inl ⟨?_, ?_⟩
          · rw [hrow, hold, hsame]
            simp [afterState, hstate]
          · rw [hlinks]
            simp [linkTx, newLinks, hl, Db.linksOf]
        · refine Or.inr (stamped rfl (afterState_updatedAt (Or.inl ?_)))
          rwa [hsame]
      · refine Or.inr (stamped rfl (afterState_updatedAt (Or.inr ?_)))
        exact afterLink_updatedAt _ (Or.inl (by simpa using hl))
    · refine Or.inr (stamped rfl (afterState_updatedAt (Or.inr ?_)))
      exact afterLink_updatedAt _ (Or.inr (by rw [hnew]; rfl))
  · refine Or.inl ⟨(h.find id).trans (if_neg hid), ?_⟩
    rw [hlinks, linkTx_linksOf_of_ne hid]

theorem Resolved.stamps {call : ResolveCall} {d : Decision} (h : Resolved call w w' d)
    (id : Uuid) : Untouched id w w' ∨ Stamped id [call.now] w' := by
  have hlinks : w'.db.linksOf id = w.db.linksOf id := by
    rw [h.world]
    rfl
  by_cases hid : id = d.id
  · refine Or.inr ⟨resolvedRow call d, ?_, List.mem_singleton.mpr rfl⟩
    rw [h.find, if_pos hid]
  · exact Or.inl ⟨(h.find id).trans (if_neg hid), hlinks⟩

/-- Every write path of a decision moves its `updated_at` to the time of the transaction. -/
theorem serve_stamps (w : World) (r : Request) (id : Uuid) :
    Untouched id w (serve w r) ∨ Stamped id (times [r]) (serve w r) := by
  cases r with
  | aggregate call =>
    rcases aggregate_cases call w with hr | ⟨evidence, tenant, d, hc⟩
    · have hdb : (serve w (.aggregate call)).db = w.db := hr.db
      exact Or.inl ⟨by rw [hdb], by rw [hdb]⟩
    · exact hc.stamps id
  | resolve call =>
    rcases resolveDecision_cases call w with hr | ⟨d, hr⟩
    · have hdb : (serve w (.resolve call)).db = w.db := hr.db
      exact Or.inl ⟨by rw [hdb], by rw [hdb]⟩
    · exact hr.stamps id
  | expireKey key => exact Or.inl (.refl id w)
  | insertEvidence evidence =>
    simp only [serve]
    split
    · exact Or.inl (.refl id w)
    · exact Or.inl ⟨rfl, rfl⟩

/-- Over a run a decision is left alone or ends with a time of the run in its row. -/
theorem run_stamps (h : Run Served w rs w') (id : Uuid) :
    Untouched id w w' ∨ Stamped id (times rs) w' := by
  induction h with
  | nil w => exact Or.inl (.refl id w)
  | @cons w v w' r rs hstep _ ih =>
    have hsplit : times (r :: rs) = times [r] ++ times rs := times_append [r] rs
    rw [hsplit]
    rcases ih with hun | hst
    · have hone := serve_stamps w r id
      rw [← hstep] at hone
      rcases hone with hone | hone
      · exact Or.inl (hone.trans hun)
      · exact Or.inr ((hone.untouched hun).mono fun t ht => List.mem_append_left _ ht)
    · exact Or.inr (hst.mono fun t ht => List.mem_append_right _ ht)

/-- A row with a time from before the run has been left alone throughout. -/
theorem untouched_of_time {d : Decision} {ss₁ ss₂ : List Request} {v : World}
    (h₁ : Run Served w₁ ss₁ v) (h₂ : Run Served v ss₂ w₂)
    (hd : w₂.db.decisions.find id = some d) (hnew : d.updatedAt ∉ times (ss₁ ++ ss₂)) :
    Untouched id w₁ v := by
  rcases run_stamps h₁ id with hun | hst
  · exact hun
  · exfalso
    apply hnew
    rw [times_append, List.mem_append]
    rcases run_stamps h₂ id with hun₂ | ⟨d', hd', ht⟩
    · obtain ⟨d', hd', ht⟩ := hst.untouched hun₂
      obtain rfl := Option.some.inj (hd.symm.trans hd')
      exact Or.inl ht
    · obtain rfl := Option.some.inj (hd.symm.trans hd')
      exact Or.inr ht

theorem getTenantDb_world (call : ResolveCall) (s : Session) :
    Ends (getTenantDb call) s (fun _ t => t.world = s.world) (fun _ t => t.world = s.world) := by
  simp only [getTenantDb, requireTenantAccess, ResolveCall.at, ends_bind, ends_raiseWhen]
  refine ⟨fun _ => trivial, fun _ => ⟨fun _ => trivial, fun _ => ?_⟩⟩
  split <;> rfl

/-- A handler that raises anything but an outage has published nothing. -/
theorem resolveDecisionHandler_world (call : ResolveCall) (s : Session) :
    Ends (resolveDecisionHandler call) s (fun _ _ => True)
      (fun e t => e = .outage ∨ t.world = s.world) := by
  simp only [resolveDecisionHandler, ResolveCall.at, getDecision, ends_bind, ends_raiseWhen,
    ends_get, ends_pure]
  refine ⟨fun _ => Or.inl trivial, fun _ => ?_⟩
  split
  next => exact Or.inr rfl
  next d _ =>
    simp only [ends_bind, ends_raiseWhen, createFeedbackWithEmbedding, saveDecision,
      writeAuditRecord, publish, onTx, onWorld, ends_modify, ends_get, ends_pure,
      ResolveCall.at, true_or, or_true, implies_true, and_self]

theorem resolveDecisionBody_world (call : ResolveCall) (w : World) :
    Ends (resolveDecisionBody call) (Session.open w) (fun _ _ => True)
      (fun e t => e = .outage ∨ t.world = w) := by
  refine ends_bind.mpr ((getTenantDb_world call _).mono ?_ fun _ _ h => Or.inr h)
  intro _ s hs
  have hs : s.world = w := hs
  simp only [requireRole, ResolveCall.at, ends_bind, ends_raiseWhen]
  refine ⟨fun _ => Or.inr hs, fun _ => ⟨fun _ => Or.inr hs, fun _ => ?_⟩⟩
  refine (resolveDecisionHandler_world call s).mono ?_
    (fun _ _ h => h.imp_right fun h => h.trans hs)
  intro _ t _
  simp only [commit, ends_modify, ends_pure]
  exact ⟨fun _ => Or.inl trivial, fun _ => trivial⟩

theorem resolveDecision_http_error {call : ResolveCall} {w : World} {status : Nat}
    {detail : String} (h : (resolveDecision call w).1 = .error (.httpException status detail)) :
    (resolveDecision call w).2 = w := by
  have hends := resolveDecisionBody_world call w
  unfold resolveDecision runSession at h ⊢
  rcases hx : exec (resolveDecisionBody call) (Session.open w) with ⟨r | r, t⟩
  · simp only [hx] at h ⊢
    rcases hends.error hx with hout | hworld
    · rw [Except.error.inj h] at hout
      cases hout
    · exact hworld
  · simp only [hx] at h
    cases h

/-- With transactions one after the other in database time, a request that carries the
`updated_at` read in an earlier state succeeds only if the decision and its links have been left
alone since, and one answered with an HTTP error changes nothing. -/
theorem stale_resolution_rejected {call : ResolveCall} {d : Decision} (hw : w.Initial)
    (hrs : Run Served w rs w₁) (hss : Run Served w₁ ss w₂)
    (hlater : (times (rs ++ ss)).Pairwise (· < ·))
    (hread : w₁.db.decisions.find call.decisionId = some d)
    (htoken : call.body.updatedAt = d.updatedAt) :
    (∀ response, (resolveDecision call w₂).1 = .ok response →
        ∀ ss₁ ss₂ v, ss = ss₁ ++ ss₂ → Run Served w₁ ss₁ v → Untouched call.decisionId w₁ v) ∧
      ∀ status detail, (resolveDecision call w₂).1 = .error (.httpException status detail) →
        (resolveDecision call w₂).2 = w₂ := by
  refine ⟨?_, fun _ _ => resolveDecision_http_error⟩
  intro response hok ss₁ ss₂ v hsplit hv
  have hread_time : d.updatedAt ∈ times rs := by
    rcases run_stamps hrs call.decisionId with hun | ⟨d', hd', ht⟩
    · rw [hun.1, hw.decisions] at hread
      cases hread
    · obtain rfl := Option.some.inj (hread.symm.trans hd')
      exact ht
  rcases resolveDecision_result call w₂ with ⟨⟨e, herr⟩, -⟩ | ⟨-, d₂, hdone⟩
  · rw [hok] at herr
    cases herr
  · have hrest : Run Served v ss₂ w₂ := by
      have hfold := run_serve v ss₂
      rw [run_served_eq hv, ← List.foldl_append, ← hsplit, ← run_served_eq hss] at hfold
      rwa [run_served_eq hv]
    refine untouched_of_time hv hrest hdone.found ?_
    rw [hdone.current, htoken, ← hsplit]
    intro hmem
    rw [times_append, List.pairwise_append] at hlater
    exact lt_irrefl _ (hlater.2.2 _ hread_time _ hmem)

/-- The decision is read here, before another evidence arrives. -/
def readWorld : World :=
  serve resolvedStart (.aggregate (sampleAggregate 11 20))

def laterCall (evidenceId : BitVec 128) : Request :=
  .aggregate { sampleAggregate evidenceId 21 with now := 8 }

/-- After an evidence of another region the decision is as it was read, after one of its own the
request is refused. -/
theorem stale_resolution_rejected_sample :
    Untouched ⟨20⟩ readWorld (serve readWorld (laterCall 13)) ∧
      (resolveDecision (sampleResolve 20) (serve readWorld (laterCall 12))).2 =
        serve readWorld (laterCall 12) := by
  obtain ⟨d, hd, hnow⟩ := Option.map_eq_some_iff.mp
    (by decide : (readWorld.db.decisions.find ⟨20⟩).map Decision.updatedAt = some 7)
  have hread : readWorld.db.decisions.find (sampleResolve 20).decisionId = some d := hd
  have hfirst : Run Served resolvedStart [.aggregate (sampleAggregate 11 20)] readWorld :=
    Run.single rfl
  have hsecond : ∀ id, Run Served readWorld [laterCall id] (serve readWorld (laterCall id)) :=
    fun id => Run.single rfl
  have hlater : ∀ id, (times ([.aggregate (sampleAggregate 11 20)] ++ [laterCall id])).Pairwise
      (· < ·) := by
    intro id
    simp [times, Request.time, laterCall, sampleAggregate]
  constructor
  · refine (stale_resolution_rejected (sampleWorld_initial _) hfirst (hsecond 13) (hlater 13)
      hread hnow.symm).1 ⟨⟨20⟩, .resolvedTruePositive, 8, "watcher"⟩ ?_
      [laterCall 13] [] _ rfl (hsecond 13)
    decide +kernel
  · refine (stale_resolution_rejected (sampleWorld_initial _) hfirst (hsecond 12) (hlater 12)
      hread hnow.symm).2 409 "Decision was updated by another watcher" ?_
    decide +kernel

end ArgusServices

import ArgusServices.AnalyzeEffect
import ArgusServices.EvidenceWindow
import ArgusServices.SeverityScore
import ArgusServices.WarningOnce

namespace ArgusServices

open Transition

/-- `NORMAL < WEIRD < WARNING`. -/
def DecisionState.Below : DecisionState → DecisionState → Prop
  | .normal, .weird | .normal, .warning | .weird, .warning => True
  | _, _ => False

instance (s t : DecisionState) : Decidable (s.Below t) :=
  decidable_of_iff ((s, t) ∈ [(DecisionState.normal, DecisionState.weird),
      (.normal, .warning), (.weird, .warning)])
    (by cases s <;> cases t <;> simp [DecisionState.Below])

/-- The step moves no decision to a lower state. -/
def Climbs (w : World) (_ : Request) (w' : World) : Prop :=
  ∀ id d d', w.db.decisions.find id = some d → w'.db.decisions.find id = some d' →
    ¬d'.state.Below d.state

/-- The rule can have been added by `create_rule`. -/
def Rule.Admitted (rule : Rule) : Prop :=
  ∃ body : CreateRuleRequest, rule.condition = .obj body.condition ∧
    rule.severityWeight = body.severityWeight

/-- The score is what some result of the VLM gets under some admitted rules. -/
def Evidence.Scored (intOfStr : String → Except Exn Int) (evidence : Evidence) : Prop :=
  ∃ vlmResult rules, (∀ r ∈ rules, Rule.Admitted r) ∧
    computeSeverityScore intOfStr vlmResult rules = .ok evidence.severityScore

theorem analyze_scored {intOfStr : String → Except Exn Int} {lib : AnalyzerLibrary}
    {attempt : AnalyzeAttempt} {message : IngestMessage} {evidence : Evidence}
    (hlib : lib.computeSeverityScore = computeSeverityScore intOfStr)
    (hrules : ∀ r ∈ attempt.rules, Rule.Admitted r)
    (h : attempt.analyze lib message = .ok evidence) : evidence.Scored intOfStr := by
  obtain ⟨vlmResult, hscore⟩ := (analyze_analyzed h).scored
  rw [hlib] at hscore
  exact ⟨vlmResult, _, fun r hr => hrules r (List.mem_of_mem_filter hr), hscore⟩

/-- The score comes from weights and hints none of which is negative. -/
def Evidence.ScoredNonnegative (intOfStr : String → Except Exn Int) (evidence : Evidence) : Prop :=
  ∃ vlmResult rules, (∀ r ∈ rules, 0 ≤ r.severityWeight) ∧ vlmResult.NonnegativeHints intOfStr ∧
    computeSeverityScore intOfStr vlmResult rules = .ok evidence.severityScore

/-- What a call aggregates was scored so. -/
def AggregatesNonnegative (intOfStr : String → Except Exn Int) (w : World) : Request → Prop
  | .aggregate call => ∀ e ∈ w.db.evidences.find call.evidenceId, e.ScoredNonnegative intOfStr
  | .resolve _ | .expireKey _ | .insertEvidence _ => True

def NoResolve (_ : World) : Request → Prop
  | .resolve _ => False
  | .aggregate _ | .expireKey _ | .insertEvidence _ => True

instance (w : World) : ∀ r : Request, Decidable (NoResolve w r)
  | .resolve _ => instDecidableFalse
  | .aggregate _ | .expireKey _ | .insertEvidence _ => instDecidableTrue

/-- A step of a run without resolutions and without failures. -/
abbrev Smooth : World → Request → World → Prop :=
  Where Undisturbed (Where NoResolve Served)

/-- An evidence that is new to a decision in WARNING keeps the sum at the threshold. -/
def StaysWarned (w : World) : Request → Prop
  | .aggregate call => ∀ evidence ∈ w.db.evidences.find call.evidenceId,
      ∀ d ∈ w.openDecision evidence, ∀ tenant ∈ w.db.tenants.find d.tenantId,
        evidence.capturedAt ≤ d.windowEnd → d.state = .warning →
          w.db.linked d.id evidence.id = false →
            tenant.warningThreshold ≤ d.cumulativeSeverity + evidence.severityScore
  | .resolve _ | .expireKey _ | .insertEvidence _ => True

instance (w : World) : ∀ r : Request, Decidable (StaysWarned w r)
  | .aggregate call => inferInstanceAs (Decidable (
      ∀ evidence ∈ w.db.evidences.find call.evidenceId, ∀ d ∈ w.openDecision evidence,
        ∀ tenant ∈ w.db.tenants.find d.tenantId, evidence.capturedAt ≤ d.windowEnd →
          d.state = .warning → w.db.linked d.id evidence.id = false →
            tenant.warningThreshold ≤ d.cumulativeSeverity + evidence.severityScore))
  | .resolve _ | .expireKey _ | .insertEvidence _ => instDecidableTrue

/-- The rows of the runs without a resolution. -/
structure Unresolved (db : Db) : Prop where
  summary : SummaryInvariant db
  unresolved : ∀ id d, db.decisions.find id = some d → d.state.resolved = false

variable {w w' : World} {call : AggregateCall} {evidence : Evidence} {tenant : Tenant}
  {d d' : Decision}

theorem not_below_self (s : DecisionState) : ¬s.Below s := by
  cases s <;> exact id

/-- With no fewer evidences, and a sum that is still at the threshold if it was, the state does
not fall. -/
theorem computeState_not_below (hcount : d.evidenceCount ≤ d'.evidenceCount)
    (hsum : tenant.warningThreshold ≤ d.cumulativeSeverity →
      tenant.warningThreshold ≤ d'.cumulativeSeverity) :
    ¬(computeState d' tenant).Below (computeState d tenant) := by
  unfold computeState
  by_cases hwarn : d'.cumulativeSeverity ≥ tenant.warningThreshold
  · rw [if_pos hwarn]
    split
    · exact id
    · split <;> exact id
  · have hold : ¬d.cumulativeSeverity ≥ tenant.warningThreshold := fun h => hwarn (hsum h)
    rw [if_neg hwarn, if_neg hold]
    by_cases hweird : d'.evidenceCount ≥ tenant.weirdThreshold
    · rw [if_pos hweird]
      split <;> exact id
    · rw [if_neg hweird, if_neg (by omega)]
      exact id

theorem computeState_below_warning (h : ¬tenant.warningThreshold ≤ d.cumulativeSeverity) :
    (computeState d tenant).Below .warning := by
  unfold computeState
  rw [if_neg h]
  split <;> trivial

theorem evidenceCount_le_afterLink (db : Db) (call : AggregateCall) (d : Decision)
    (evidence : Evidence) : d.evidenceCount ≤ (afterLink db call d evidence).evidenceCount := by
  unfold afterLink
  split
  · exact Int.le_refl _
  · simp only [Decision.addEvidence]
    omega

/-- The row a call works on is in the state its counters give, as long as nothing is resolved. -/
theorem Unresolved.target (h : Unresolved w.db) (hc : Committed call w w' evidence tenant d)
    (hd : w.db.decisions.find d.id = some d) : d.state = computeState d tenant := by
  obtain ⟨tenant', htn, hstate⟩ :=
    (h.summary.summary _ _ hd).state (h.unresolved _ _ hd)
  rw [hc.target_tenant, hc.tenant_found] at htn
  rw [hstate, Option.some.inj htn]

theorem Committed.climbs (hc : Committed call w w' evidence tenant d) (h : Unresolved w.db)
    (hg : StaysWarned w (.aggregate call)) (r : Request) : Climbs w r w' := by
  intro id r₀ r₁ hr₀ hr₁
  rw [hc.find] at hr₁
  split at hr₁
  next hid =>
    obtain rfl := Option.some.inj hr₁
    rcases hc.target.found with ⟨hopen, hle, hd⟩ | ⟨-, -, hfree⟩
    · obtain rfl := Option.some.inj (hd.symm.trans (hid ▸ hr₀))
      have hstate := h.target hc hd
      rw [afterState_state, hstate]
      apply computeState_not_below (evidenceCount_le_afterLink _ _ _ _)
      intro hsum
      have hwarn := hstate.trans (computeState_eq_warning.mpr hsum)
      by_cases hl : w.db.linked d.id evidence.id = true
      · simpa only [afterLink, hl, ↓reduceIte] using hsum
      · have hl : w.db.linked d.id evidence.id = false := by simpa using hl
        have hkeep := hg evidence hc.evidence_found d hopen tenant
          (hc.target_tenant ▸ hc.tenant_found) hle hwarn hl
        simpa only [afterLink, hl, Bool.false_eq_true, ↓reduceIte, Decision.addEvidence]
          using hkeep
    · rw [hid, hfree] at hr₀
      cases hr₀
  next =>
    obtain rfl := Option.some.inj (hr₀.symm.trans hr₁)
    exact not_below_self _

theorem climbs_of_rows (h : w'.db.decisions = w.db.decisions) (r : Request) : Climbs w r w' := by
  intro id d d' hd hd'
  rw [h] at hd'
  obtain rfl := Option.some.inj (hd.symm.trans hd')
  exact not_below_self _

/-- An undisturbed call that takes the sum of a decision in WARNING below the threshold lowers
its state. -/
theorem not_climbs (hr : call.raisesAt = none)
    (hg : ¬StaysWarned w (.aggregate call)) :
    ¬Climbs w (.aggregate call) (serve w (.aggregate call)) := by
  simp only [StaysWarned, not_forall] at hg
  obtain ⟨evidence, hev, d, hopen, tenant, htn, hle, hwarn, hl, hlow⟩ := hg
  obtain ⟨hd, hten, -⟩ := World.openDecision_spec hopen
  have hc := aggregate_merges hr hev (hten ▸ htn) hopen hle
  intro hclimbs
  refine hclimbs d.id d _ hd ((hc.find d.id).trans (if_pos rfl)) ?_
  rw [afterState_state, hwarn]
  apply computeState_below_warning
  simpa only [afterLink, hl, Bool.false_eq_true, ↓reduceIte, Decision.addEvidence] using hlow

theorem Unresolved.initial (h : w.Initial) : Unresolved w.db where
  summary := .initial h
  unresolved := fun id d hd => by simp [h.decisions id] at hd

theorem Unresolved.serve {r : Request} (h : Unresolved w.db) (hr : NoResolve w r) :
    Unresolved (serve w r).db where
  summary := h.summary.serve r
  unresolved := by
    refine serve_keeps (I := fun db => ∀ id d, db.decisions.find id = some d →
      d.state.resolved = false) h.unresolved ?_ ?_ (fun _ => h.unresolved)
    · intro call w' evidence tenant d _ hc id r hrow
      have hkey := w'.db.decisions.keyed _ _ hrow
      rcases hc.row (hkey ▸ hrow) with ⟨-, hun, -⟩ | ⟨-, hold⟩
      · exact hun
      · exact h.unresolved _ r hold
    · intro call w' d hcall _
      subst hcall
      exact hr.elim

theorem Unresolved.climbs {r : Request} (h : Unresolved w.db) (hr : NoResolve w r)
    (hg : StaysWarned w r) : Climbs w r (ArgusServices.serve w r) := by
  cases r with
  | aggregate call =>
    rcases aggregate_cases call w with hrolled | ⟨evidence, tenant, d, hc⟩
    · exact climbs_of_rows (congrArg Db.decisions hrolled.db) (.aggregate call)
    · exact hc.climbs h hg (.aggregate call)
  | resolve call => exact hr.elim
  | expireKey key => exact climbs_of_rows rfl (.expireKey key)
  | insertEvidence evidence =>
    apply climbs_of_rows
    simp only [ArgusServices.serve]
    split <;> rfl

/-- A score that is not negative does not take a sum below the threshold it has reached. -/
theorem Unresolved.staysWarned {r : Request} (h : Unresolved w.db)
    (hscore : ∀ call, r = .aggregate call →
      ∀ e ∈ w.db.evidences.find call.evidenceId, 0 ≤ e.severityScore) : StaysWarned w r := by
  cases r with
  | aggregate call =>
    intro evidence hev d hopen tenant htn _ hwarn _
    obtain ⟨hd, -⟩ := World.openDecision_spec hopen
    obtain ⟨tenant', htn', hstate⟩ := (h.summary.summary _ _ hd).state (h.unresolved _ _ hd)
    obtain rfl := Option.some.inj (htn'.symm.trans htn)
    have hsum := computeState_eq_warning.mp (hstate.symm.trans hwarn)
    have hpos := hscore call rfl evidence hev
    omega
  | resolve call => trivial
  | expireKey key => trivial
  | insertEvidence evidence => trivial

/-- Where no resolution comes, no decision falls to a lower state as long as every call keeps the
sums of decisions in WARNING at the threshold, whatever raises. If nothing raises, these are the
only runs without a fall. -/
theorem climbs_iff_staysWarned {rs : List Request} (hw : w.Initial) :
    (Run (Where StaysWarned (Where NoResolve Served)) w rs w' → Run (Such Climbs Served) w rs w') ∧
      (Run (Such Climbs Smooth) w rs w' ↔ Run (Where StaysWarned Smooth) w rs w') := by
  have hstart := Unresolved.initial hw
  constructor
  · intro h
    refine (h.such (I := fun w => Unresolved w.db) (P := Climbs) ?_ hstart).mono
      fun _ _ _ hs => ⟨hs.1.2.2, hs.2⟩
    intro w r w' hi hs
    obtain ⟨hg, hno, rfl⟩ := hs
    exact ⟨hi.serve hno, hi.climbs hno hg⟩
  · refine Run.such_iff_where (I := fun w => Unresolved w.db) ?_ ?_ hstart
    · intro w r w' hi hstep
      exact hstep.2.2 ▸ hi.serve hstep.2.1
    · intro w r w' hi hstep
      obtain ⟨hr, hno, rfl⟩ := hstep
      constructor
      · intro hclimbs
        by_contra hg
        cases r with
        | aggregate call => exact not_climbs hr hg hclimbs
        | resolve call => exact hg trivial
        | expireKey key => exact hg trivial
        | insertEvidence evidence => exact hg trivial
      · exact hi.climbs hno

theorem Evidence.ScoredNonnegative.nonneg {intOfStr : String → Except Exn Int} {e : Evidence}
    (h : e.ScoredNonnegative intOfStr) : 0 ≤ e.severityScore := by
  obtain ⟨vlmResult, rules, hweights, hhints, hscore⟩ := h
  exact computeSeverityScore_nonneg hweights hhints hscore

/-- With weights and hints that are not negative there is no fall. -/
theorem climbs_of_nonnegative {intOfStr : String → Except Exn Int} {rs : List Request}
    (hw : w.Initial)
    (h : Run (Where (AggregatesNonnegative intOfStr) (Where NoResolve Served)) w rs w') :
    Run (Such Climbs Served) w rs w' := by
  refine (h.such (I := fun w => Unresolved w.db) (P := Climbs) ?_ (Unresolved.initial hw)).mono
    fun _ _ _ hs => ⟨hs.1.2.2, hs.2⟩
  intro w r w' hi hs
  obtain ⟨hscored, hno, rfl⟩ := hs
  refine ⟨hi.serve hno, hi.climbs hno (hi.staysWarned ?_)⟩
  intro call hcall e he
  subst hcall
  exact (hscored e he).nonneg

theorem scored_of_ne_zero {intOfStr : String → Except Exn Int} {e : Evidence}
    (h : e.severityScore ≠ 0) : e.Scored intOfStr :=
  ⟨_, [], fun _ hr => absurd hr List.not_mem_nil, computeSeverityScore_int_hint h⟩

/-- A hint of 5 puts the decision in WARNING, one of -5 takes the sum back to zero, one of 3 does
not. -/
def fallStart : World :=
  admittedWorld [sampleEvidence 11 none 5, sampleEvidence 12 none (-5), sampleEvidence 13 none 3]

def fallCalls (evidenceId : BitVec 128) : List AggregateCall :=
  [sampleAggregate 11 20, sampleAggregate evidenceId 21]

def fallEnd (evidenceId : BitVec 128) : World :=
  ((fallCalls evidenceId).map Request.aggregate).foldl serve fallStart

theorem fallStart_scored (intOfStr : String → Except Exn Int) (id : Uuid) (e : Evidence)
    (h : fallStart.db.evidences.find id = some e) : e.Scored intOfStr := by
  apply scored_of_ne_zero
  have hfind : fallStart.db.evidences = (((KeyedTable.empty : KeyedTable Uuid Evidence
    Evidence.id).put (sampleEvidence 11 none 5)).put (sampleEvidence 12 none (-5))).put
      (sampleEvidence 13 none 3) := rfl
  rw [hfind] at h
  simp only [KeyedTable.find_put] at h
  split at h
  · obtain rfl := Option.some.inj h
    decide
  · split at h
    · obtain rfl := Option.some.inj h
      decide
    · split at h
      · obtain rfl := Option.some.inj h
        decide
      · cases h

theorem not_climbs_fall : ¬Run (Such Climbs Smooth) fallStart
    ((fallCalls 12).map Request.aggregate) (fallEnd 12) := by
  intro h
  obtain _ | ⟨⟨⟨_, _, hfirst⟩, _⟩, h⟩ := h
  obtain _ | ⟨⟨⟨_, _, hsecond⟩, hclimbs⟩, _⟩ := h
  have hfirst : _ = serve fallStart (.aggregate (sampleAggregate 11 20)) := hfirst
  subst hfirst
  have hsecond : _ = fallEnd 12 := hsecond
  subst hsecond
  obtain ⟨d, hd, hstate⟩ := Option.map_eq_some_iff.mp
    (by decide +kernel : (serve fallStart (.aggregate (sampleAggregate 11 20))).stateOf ⟨20⟩ =
      some .warning)
  obtain ⟨d', hd', hstate'⟩ := Option.map_eq_some_iff.mp
    (by decide +kernel : (fallEnd 12).stateOf ⟨20⟩ = some .weird)
  have hnot := hclimbs ⟨20⟩ d d' hd hd'
  rw [hstate, hstate'] at hnot
  exact hnot trivial

/-- A negative hint takes a decision out of WARNING. -/
theorem not_always_climbs : ¬∀ (intOfStr : String → Except Exn Int) (w w' : World)
    (calls : List AggregateCall), w.Initial → w.db.TenantsAdmitted →
    (∀ id e, w.db.evidences.find id = some e → e.Scored intOfStr) →
    Run Smooth w (calls.map Request.aggregate) w' →
      Run (Such Climbs Smooth) w (calls.map Request.aggregate) w' := by
  intro h
  have hrun : Run Smooth fallStart ((fallCalls 12).map Request.aggregate) (fallEnd 12) :=
    run_serve_where_both (by decide +kernel)
  exact not_climbs_fall (h (fun _ => .ok 0) _ _ _ (admittedWorld_initial _)
    (admittedWorld_admitted _) (fallStart_scored _) hrun)

theorem climbs_iff_staysWarned_sample :
    Run (Such Climbs Served) fallStart ((fallCalls 13).map Request.aggregate) (fallEnd 13) ∧
      ¬Run (Where StaysWarned Smooth) fallStart ((fallCalls 12).map Request.aggregate)
        (fallEnd 12) := by
  constructor
  · refine (climbs_iff_staysWarned (admittedWorld_initial _)).1 ?_
    exact run_serve_where_both (by decide +kernel)
  · intro hrun
    exact not_climbs_fall ((climbs_iff_staysWarned (admittedWorld_initial _)).2.mpr hrun)

end ArgusServices

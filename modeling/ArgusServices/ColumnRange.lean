import ArgusServices.EvidenceTimes
import ArgusServices.ScoringSpec

namespace ArgusServices

open Effect Transition

/-- The value fits an `Integer` column. -/
def FitsInteger (n : Int) : Prop :=
  -2147483648 ≤ n ∧ n ≤ 2147483647

instance (n : Int) : Decidable (FitsInteger n) :=
  inferInstanceAs (Decidable (_ ∧ _))

/-- What the hint scores, if it scores, fits; a float scores three times its value. -/
def Json.HintFits (intOfStr : String → Except Exn Int) : Json → Prop
  | .int k => FitsInteger k
  | .float x => ∀ k, x.triple.int = .ok k → k ≤ 2147483647
  | .str s => ∀ k, intOfStr s = .ok k → FitsInteger k
  | _ => True

/-- The weights of the matching rules together fit, or the hint used in their place does. -/
def ScoreFits (intOfStr : String → Except Exn Int) (members : Members) (rules : List Rule) : Prop :=
  if matchingWeights rules members = 0 ∧ members.suspicious = true then
    members.hint.HintFits intOfStr
  else FitsInteger (matchingWeights rules members)

/-- Every score and every sum fits its column. -/
structure SeveritiesFit (w : World) : Prop where
  scores : ∀ id e, w.db.evidences.find id = some e → FitsInteger e.severityScore
  sums : ∀ id d, w.db.decisions.find id = some d → FitsInteger d.cumulativeSeverity

/-- A result is scored into a new evidence, or a request is served. -/
inductive PipelineEvent
  | analyze (members : Members) (rules : List Rule) (evidence : Evidence)
  | request (r : Request)

inductive Pipelined (intOfStr : String → Except Exn Int) : World → PipelineEvent → World → Prop
  | analyze {w : World} {members : Members} {rules : List Rule} {evidence : Evidence} :
      (∀ rule ∈ rules, FitsInteger rule.severityWeight) →
      computeSeverityScore intOfStr (.obj members) rules = .ok evidence.severityScore →
      w.db.evidences.find evidence.id = none →
      Pipelined intOfStr w (.analyze members rules evidence) (serve w (.insertEvidence evidence))
  | request {w : World} {r : Request} : (∀ evidence, r ≠ .insertEvidence evidence) →
      Pipelined intOfStr w (.request r) (serve w r)

/-- No other system fails the event. -/
def EventUndisturbed (w : World) : PipelineEvent → Prop
  | .analyze _ _ _ => True
  | .request r => Undisturbed w r

/-- A new score fits, and so does a sum once the score of a newly linked evidence is added. -/
def SumsFit (intOfStr : String → Except Exn Int) (w : World) : PipelineEvent → Prop
  | .analyze members rules _ => ScoreFits intOfStr members rules
  | .request (.aggregate call) => ∀ evidence ∈ w.db.evidences.find call.evidenceId,
      ∀ d ∈ w.openDecision evidence, evidence.capturedAt ≤ d.windowEnd →
        w.db.linked d.id evidence.id = false →
          FitsInteger (d.cumulativeSeverity + evidence.severityScore)
  | .request (.resolve _) | .request (.expireKey _) | .request (.insertEvidence _) => True

variable {intOfStr : String → Except Exn Int} {members : Members} {rules : List Rule} {n : Int}
  {w w' : World} {call : AggregateCall} {evidence : Evidence} {tenant : Tenant} {d : Decision}
  {event : PipelineEvent}

theorem fits_scoreOfHint_iff {hint : Json} (h : scoreOfHint intOfStr hint = .ok n) :
    FitsInteger n ↔ hint.HintFits intOfStr := by
  cases hint with
  | bool b =>
    obtain rfl := Except.ok.inj h
    cases b <;> exact ⟨fun _ => trivial, fun _ => by decide⟩
  | int k =>
    obtain rfl := Except.ok.inj h
    exact Iff.rfl
  | float x =>
    obtain ⟨k, hk, hmax⟩ := bind_eq_ok.mp (scoreOfHint_float.symm.trans h)
    obtain rfl := Except.ok.inj hmax
    unfold Json.HintFits FitsInteger
    constructor
    · intro hfits m hm
      obtain rfl := Except.ok.inj (hk.symm.trans hm)
      omega
    · intro hbound
      have hle := hbound k hk
      omega
  | str s =>
    have hs : intOfStr s = .ok n := h
    unfold Json.HintFits
    constructor
    · intro hfits k hk
      obtain rfl := Except.ok.inj (hs.symm.trans hk)
      exact hfits
    · intro hall
      exact hall n hs
  | null => cases h
  | arr items => cases h
  | obj ms => cases h

theorem fits_score_iff (h : computeSeverityScore intOfStr (.obj members) rules = .ok n) :
    FitsInteger n ↔ ScoreFits intOfStr members rules := by
  obtain ⟨-, hscore⟩ := computeSeverityScore_eq_ok_iff.mp h
  unfold ScoreFits
  split at hscore
  next hhint =>
    rw [if_pos hhint]
    exact fits_scoreOfHint_iff hscore
  next hhint =>
    rw [if_neg hhint, hscore]

theorem afterLink_cumulativeSeverity {db : Db} :
    (afterLink db call d evidence).cumulativeSeverity =
      if db.linked d.id evidence.id then d.cumulativeSeverity
      else d.cumulativeSeverity + evidence.severityScore := by
  unfold afterLink
  split <;> rfl

/-- The sum a call leaves in its row fits exactly if an evidence it newly links lets it. -/
theorem Committed.fits_row_iff (h : Committed call w w' evidence tenant d)
    (hfit : SeveritiesFit w) :
    FitsInteger (afterState call tenant (afterLink w.db call d evidence)).cumulativeSeverity ↔
      ∀ d' ∈ w.openDecision evidence, evidence.capturedAt ≤ d'.windowEnd →
        w.db.linked d'.id evidence.id = false →
          FitsInteger (d'.cumulativeSeverity + evidence.severityScore) := by
  rw [afterState_cumulativeSeverity, afterLink_cumulativeSeverity]
  rcases h.target.found with ⟨hopen, hle, hrow⟩ | ⟨rfl, hun, -⟩
  · constructor
    · intro hfits d' hd' _ hnew
      obtain rfl := Option.some.inj (hopen.symm.trans hd')
      rwa [if_neg (ne_true_of_eq_false hnew)] at hfits
    · intro hguard
      split
      next => exact hfit.sums _ _ hrow
      next hnew => exact hguard d hopen hle (Bool.eq_false_iff.mpr hnew)
  · have hzero : (newDecision call evidence tenant).cumulativeSeverity = 0 := rfl
    have hscore := hfit.scores _ _ h.evidence_found
    constructor
    · intro _ d' hd' hle
      have hlate := hun d' hd'
      omega
    · intro _
      rw [hzero, Int.zero_add]
      split
      · decide
      · exact hscore

theorem Committed.severitiesFit_iff (h : Committed call w w' evidence tenant d)
    (hfit : SeveritiesFit w) : SeveritiesFit w' ↔
      FitsInteger (afterState call tenant (afterLink w.db call d evidence)).cumulativeSeverity := by
  constructor
  · intro hafter
    exact hafter.sums d.id _ ((h.find d.id).trans (if_pos rfl))
  · intro hrow
    constructor
    · intro id e he
      rw [h.evidences] at he
      exact hfit.scores id e he
    · intro id r hr
      rw [h.find] at hr
      split at hr
      next =>
        obtain rfl := Option.some.inj hr
        exact hrow
      next => exact hfit.sums id r hr

theorem SeveritiesFit.aggregate (hfit : SeveritiesFit w)
    (hg : SumsFit intOfStr w (.request (.aggregate call))) :
    SeveritiesFit (serve w (.aggregate call)) := by
  rcases aggregate_cases call w with hrolled | ⟨evidence, tenant, d, hc⟩
  · have hdb : (serve w (.aggregate call)).db = w.db := hrolled.db
    constructor
    · rw [hdb]
      exact hfit.scores
    · rw [hdb]
      exact hfit.sums
  · have hc' : Committed call w (serve w (.aggregate call)) evidence tenant d := hc
    rw [hc'.severitiesFit_iff hfit, hc'.fits_row_iff hfit]
    exact hg evidence hc.evidence_found

theorem SeveritiesFit.resolve {call : ResolveCall} (hfit : SeveritiesFit w) :
    SeveritiesFit (serve w (.resolve call)) := by
  rcases resolveDecision_cases call w with hrolled | ⟨d, hr⟩
  · have hdb : (serve w (.resolve call)).db = w.db := hrolled.db
    constructor
    · rw [hdb]
      exact hfit.scores
    · rw [hdb]
      exact hfit.sums
  · have hr' : Resolved call w (serve w (.resolve call)) d := hr
    constructor
    · rw [hr'.world]
      exact hfit.scores
    · intro id r hrow
      rw [hr'.find] at hrow
      split at hrow
      next =>
        obtain rfl := Option.some.inj hrow
        exact hfit.sums _ d hr.found
      next => exact hfit.sums id r hrow

theorem SeveritiesFit.insert_iff (hfit : SeveritiesFit w)
    (hfree : w.db.evidences.find evidence.id = none) :
    SeveritiesFit (serve w (.insertEvidence evidence)) ↔ FitsInteger evidence.severityScore := by
  have hserve : serve w (.insertEvidence evidence) =
      { w with db := { w.db with evidences := w.db.evidences.put evidence } } :=
    if_neg (ne_true_of_eq_false (by rw [hfree]; rfl))
  rw [hserve]
  constructor
  · intro hafter
    exact hafter.scores evidence.id evidence (KeyedTable.find_put_self _ _)
  · intro hscore
    constructor
    · intro id e he
      rw [KeyedTable.find_put] at he
      split at he
      · obtain rfl := Option.some.inj he
        exact hscore
      · exact hfit.scores id e he
    · exact hfit.sums

/-- An event whose new values fit keeps all fitting, whatever raises. -/
theorem SeveritiesFit.keep (hfit : SeveritiesFit w) (hstep : Pipelined intOfStr w event w')
    (hg : SumsFit intOfStr w event) : SeveritiesFit w' := by
  cases hstep with
  | analyze _ hscore hfree =>
    rw [hfit.insert_iff hfree, fits_score_iff hscore]
    exact hg
  | @request r hother =>
    cases r with
    | aggregate call => exact hfit.aggregate hg
    | resolve call => exact hfit.resolve
    | expireKey key => exact ⟨hfit.scores, hfit.sums⟩
    | insertEvidence evidence => exact absurd rfl (hother evidence)

/-- Of the events that nothing fails, only these keep all fitting. -/
theorem SeveritiesFit.keep_iff (hfit : SeveritiesFit w) (hten : w.db.Tenanted)
    (hstep : Pipelined intOfStr w event w') (hcalm : EventUndisturbed w event) :
    SeveritiesFit w' ↔ SumsFit intOfStr w event := by
  refine ⟨?_, hfit.keep hstep⟩
  intro hafter
  cases hstep with
  | analyze _ hscore hfree =>
    rwa [hfit.insert_iff hfree, fits_score_iff hscore] at hafter
  | @request r hother =>
    cases r with
    | aggregate call =>
      intro evidence hev d hopen hle hnew
      obtain ⟨hrow, hdecision, -⟩ := World.openDecision_spec hopen
      obtain ⟨tenant, htn⟩ := hten d hrow
      have hc : Committed call w (serve w (.aggregate call)) evidence tenant d :=
        aggregate_merges hcalm hev (hdecision ▸ htn) hopen hle
      rw [hc.severitiesFit_iff hfit, hc.fits_row_iff hfit] at hafter
      exact hafter d hopen hle hnew
    | resolve call => trivial
    | expireKey key => trivial
    | insertEvidence evidence => trivial

theorem Db.Tenanted.pipelined (h : w.db.Tenanted) (hstep : Pipelined intOfStr w event w') :
    w'.db.Tenanted := by
  cases hstep with
  | analyze _ _ _ => exact h.serve _
  | request _ => exact h.serve _

/-- While every new score fits and every newly linked score keeps its sum in range, all severities
fit their columns in every state, whatever raises. If nothing raises, these are the only runs in
which they do throughout. -/
theorem severitiesFit_iff_sumsFit {events : List PipelineEvent} (hten : w.db.Tenanted)
    (hfit : SeveritiesFit w) :
    (Run (Where (SumsFit intOfStr) (Pipelined intOfStr)) w events w' →
        Run (Into SeveritiesFit (Pipelined intOfStr)) w events w') ∧
      (Run (Into SeveritiesFit (Where EventUndisturbed (Pipelined intOfStr))) w events w' ↔
        Run (Where (SumsFit intOfStr) (Where EventUndisturbed (Pipelined intOfStr)))
          w events w') := by
  constructor
  · intro h
    refine h.into_of_where (I := fun w => w.db.Tenanted) ?_ hten hfit
    intro w event w' hi hp hg hstep
    exact ⟨hi.pipelined hstep, hp.keep hstep hg⟩
  · refine Run.into_iff_where (I := fun w => w.db.Tenanted) ?_ ?_ hten hfit
    · intro w event w' hi hstep
      exact hi.pipelined hstep.2
    · intro w event w' hi hp hstep
      exact hp.keep_iff hi hstep.2 hstep.1

theorem mem_of_find_foldl_put {rows : List Evidence}
    {table : KeyedTable Uuid Evidence Evidence.id} {id : Uuid} {e : Evidence}
    (h : (rows.foldl .put table).find id = some e) : e ∈ rows ∨ table.find id = some e := by
  induction rows generalizing table with
  | nil => exact Or.inr h
  | cons row rows ih =>
    rcases ih h with hmem | hput
    · exact Or.inl (List.mem_cons_of_mem _ hmem)
    · rw [KeyedTable.find_put] at hput
      split at hput
      · exact Or.inl (List.mem_cons.mpr (Or.inl (Option.some.inj hput).symm))
      · exact Or.inr hput

theorem severitiesFit_sampleWorld {evidences : List Evidence}
    (h : ∀ e ∈ evidences, FitsInteger e.severityScore) : SeveritiesFit (sampleWorld evidences) := by
  constructor
  · intro id e he
    rcases mem_of_find_foldl_put he with hmem | hempty
    · exact h e hmem
    · cases hempty
  · intro id d hd
    cases hd

/-- A suspicious result with a hint of three billions. -/
theorem not_always_severitiesFit :
    ¬∀ (intOfStr : String → Except Exn Int) (w w' : World) (events : List PipelineEvent),
      w.Initial → SeveritiesFit w →
        Run (Where EventUndisturbed (Pipelined intOfStr)) w events w' → SeveritiesFit w' := by
  intro h
  have hrun : Run (Where EventUndisturbed (Pipelined fun _ => .ok 0)) (sampleWorld [])
      [.analyze [("is_suspicious", .bool true), ("severity_hint", .int 3000000000)] []
        (sampleEvidence 11 none 3000000000)]
      (serve (sampleWorld []) (.insertEvidence (sampleEvidence 11 none 3000000000))) :=
    .single ⟨trivial, .analyze (by simp) rfl rfl⟩
  have hfit := h _ _ _ _ (sampleWorld_initial []) (severitiesFit_sampleWorld (by simp)) hrun
  exact absurd (hfit.scores ⟨11⟩ _ rfl) (by decide)

/-- The first of two evidences of two billions, and then the second. -/
def billions : World :=
  sampleWorld [sampleEvidence 11 none 2000000000, sampleEvidence 12 none 2000000000]

def afterBillion : World :=
  serve billions (.aggregate (sampleAggregate 11 20))

def afterBillions : World :=
  serve afterBillion (.aggregate (sampleAggregate 12 21))

/-- The first one fits; with the second the sum does not. -/
theorem severitiesFit_iff_sumsFit_sample :
    Run (Into SeveritiesFit (Pipelined fun _ => .ok 0)) billions
        [.request (.aggregate (sampleAggregate 11 20))] afterBillion ∧
      ¬Run (Where (SumsFit fun _ => .ok 0) (Where EventUndisturbed (Pipelined fun _ => .ok 0)))
        billions [.request (.aggregate (sampleAggregate 11 20)),
          .request (.aggregate (sampleAggregate 12 21))] afterBillions := by
  have hfit : SeveritiesFit billions := severitiesFit_sampleWorld (by decide)
  have hten : billions.db.Tenanted := .initial (sampleWorld_initial _)
  constructor
  · refine (severitiesFit_iff_sumsFit hten hfit).1 (.single ⟨?_, .request (by simp)⟩)
    intro e he d hopen
    cases hopen
  · intro h
    have hinto := (severitiesFit_iff_sumsFit hten hfit).2.mpr h
    have hend : SeveritiesFit afterBillions := hinto.invariant (fun _ _ _ _ hs => hs.2) hfit
    have hsum : (afterBillions.db.decisions.find ⟨20⟩).map Decision.cumulativeSeverity =
        some 4000000000 := by decide +kernel
    obtain ⟨d, hd, hvalue⟩ := Option.map_eq_some_iff.mp hsum
    have hd' := hend.sums _ d hd
    rw [hvalue] at hd'
    revert hd'
    decide

end ArgusServices

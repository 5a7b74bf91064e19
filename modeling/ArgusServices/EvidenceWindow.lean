import ArgusServices.Place
import ArgusServices.SingleLink

namespace ArgusServices

open Transition

structure CreateTenantRequest where
  name : String
  slug : String
  aggregationWindowSecs : Int := 300
  deriving DecidableEq, Repr

/-- The row `create_tenant` inserts, if the request is valid and its columns can hold the values;
the thresholds take the defaults of their columns. -/
def createTenant (body : CreateTenantRequest) (newId : Uuid) : Option Tenant :=
  if body.slug.length ≤ 63 ∧ body.name.length ≤ 255 ∧
      -2147483648 ≤ body.aggregationWindowSecs ∧ body.aggregationWindowSecs ≤ 2147483647 then
    some {
      id := newId
      aggregationWindowSecs := body.aggregationWindowSecs
      weirdThreshold := 2
      warningThreshold := 5 }
  else none

/-- The tenants are rows that `create_tenant` admits. -/
def Db.TenantsAdmitted (db : Db) : Prop :=
  ∀ id tenant, db.tenants.find id = some tenant → ∃ body, createTenant body id = some tenant

/-- The evidence was captured in the window of the decision. -/
def Decision.Spans (d : Decision) (evidence : Evidence) : Prop :=
  d.windowStart ≤ evidence.capturedAt ∧ evidence.capturedAt ≤ d.windowEnd

instance (d : Decision) (evidence : Evidence) : Decidable (d.Spans evidence) :=
  inferInstanceAs (Decidable (_ ∧ _))

/-- Every linked evidence lies in the window of its decision. -/
def LinkedInside (db : Db) : Prop :=
  ∀ l ∈ db.decisionEvidences, ∀ d ∈ db.decisions.find l.decisionId,
    ∀ e ∈ db.evidences.find l.evidenceId, d.Spans e

instance (db : Db) : Decidable (LinkedInside db) :=
  inferInstanceAs (Decidable (∀ l ∈ db.decisionEvidences, ∀ d ∈ db.decisions.find l.decisionId,
    ∀ e ∈ db.evidences.find l.evidenceId, d.Spans e))

/-- A call that merges its evidence has one that is not from before the window, and a call that
creates a decision does so for a tenant whose window is not negative. -/
def MergesInside (w : World) : Request → Prop
  | .aggregate call => ∀ evidence ∈ w.db.evidences.find call.evidenceId,
      (∀ d ∈ w.openDecision evidence, evidence.capturedAt ≤ d.windowEnd →
        d.windowStart ≤ evidence.capturedAt) ∧
      ∀ tenant ∈ w.db.tenants.find evidence.tenantId,
        w.Unmerged evidence → w.db.decisions.find call.newId = none →
          0 < tenant.aggregationWindowSecs + 300 → 0 ≤ tenant.aggregationWindowSecs
  | .resolve _ | .expireKey _ | .insertEvidence _ => True

/-- The open keys hold ids. -/
def KeysParse (w : World) : Prop :=
  ∀ evidence raw, truthy ((w.keys (openDecisionKey evidence)).map RedisEntry.value) = some raw →
    (Uuid.parse raw).isSome

/-- What the calls rely on and, while they merge inside, keep. -/
structure WindowInvariant (w : World) : Prop where
  summary : SummaryInvariant w.db
  tenant : w.db.Tenanted
  keys : KeysParse w
  inside : LinkedInside w.db

/-- A link that joins an evidence and a decision it was not captured in the window of. -/
def LinkedOutside (db : Db) : Prop :=
  ∃ l ∈ db.decisionEvidences, ∃ d ∈ db.decisions.find l.decisionId,
    ∃ e ∈ db.evidences.find l.evidenceId, ¬d.Spans e

instance (w : World) (evidence : Evidence) : Decidable (w.Unmerged evidence) :=
  inferInstanceAs (Decidable (∀ d ∈ w.openDecision evidence, d.windowEnd < evidence.capturedAt))

instance (w : World) : ∀ r : Request, Decidable (MergesInside w r)
  | .aggregate call => inferInstanceAs (Decidable (
      ∀ evidence ∈ w.db.evidences.find call.evidenceId,
        (∀ d ∈ w.openDecision evidence, evidence.capturedAt ≤ d.windowEnd →
          d.windowStart ≤ evidence.capturedAt) ∧
        ∀ tenant ∈ w.db.tenants.find evidence.tenantId,
          w.Unmerged evidence → w.db.decisions.find call.newId = none →
            0 < tenant.aggregationWindowSecs + 300 → 0 ≤ tenant.aggregationWindowSecs))
  | .resolve _ | .expireKey _ | .insertEvidence _ => instDecidableTrue

variable {w w' : World} {call : AggregateCall} {evidence : Evidence} {tenant : Tenant}
  {d : Decision}

theorem LinkedOutside.not_linkedInside {db : Db} (h : LinkedOutside db) : ¬LinkedInside db := by
  obtain ⟨l, hl, d, hd, e, he, hout⟩ := h
  exact fun hin => hout (hin l hl d hd e he)

@[simp] theorem spans_written {db : Db} {e : Evidence} :
    (afterState call tenant (afterLink db call d evidence)).Spans e ↔ d.Spans e := by
  simp [Decision.Spans]

/-- A call leaves the window of each row and gives a new row that of its decision. -/
theorem Committed.spans (h : Committed call w w' evidence tenant d) {id : Uuid} {r : Decision}
    (hr : w'.db.decisions.find id = some r) (e : Evidence) :
    (id = d.id ∧ (r.Spans e ↔ d.Spans e)) ∨ (id ≠ d.id ∧ w.db.decisions.find id = some r) := by
  rw [h.find] at hr
  split at hr
  next hid =>
    obtain rfl := Option.some.inj hr
    exact Or.inl ⟨hid, spans_written⟩
  next hid => exact Or.inr ⟨hid, hr⟩

theorem Committed.evidences (h : Committed call w w' evidence tenant d) :
    w'.db.evidences = w.db.evidences := by
  rw [h.db]
  rfl

/-- Under the guard the decision a call works on spans the evidence of the call. -/
theorem Committed.spans_of_guard (h : Committed call w w' evidence tenant d)
    (hg : MergesInside w (.aggregate call)) : d.Spans evidence := by
  obtain ⟨hmerge, hcreate⟩ := hg evidence h.evidence_found
  have htarget := h.target
  generalize w'.keys = keys at htarget
  cases htarget with
  | merge hopen hle => exact ⟨hmerge d hopen hle, hle⟩
  | create hun hfree hex =>
    have hwindow := hcreate tenant h.tenant_found hun hfree hex
    simp only [Decision.Spans, newDecision, seconds]
    omega

theorem LinkedInside.committed (hin : LinkedInside w.db) (hsum : SummaryInvariant w.db)
    (hg : MergesInside w (.aggregate call)) (h : Committed call w w' evidence tenant d) :
    LinkedInside w'.db := by
  intro l hl r hr e he
  rw [h.evidences] at he
  have hev := w.db.evidences.keyed _ _ h.evidence_found
  rcases h.mem_links hl with hold | ⟨hld, hle⟩
  · rcases h.spans hr e with ⟨hid, hiff⟩ | ⟨-, hrow⟩
    · rw [hiff]
      obtain ⟨r₀, hr₀⟩ := hsum.link_decision l hold
      rcases h.target.found with ⟨-, -, hd⟩ | ⟨-, -, hfree⟩
      · rw [← hid] at hd
        exact hin l hold d hd e he
      · rw [hid, hfree] at hr₀
        cases hr₀
    · exact hin l hold r hrow e he
  · rcases h.spans hr e with ⟨-, hiff⟩ | ⟨hne, -⟩
    · rw [hiff]
      rw [hle, hev, h.evidence_found] at he
      obtain rfl := Option.some.inj he
      exact h.spans_of_guard hg
    · exact absurd hld hne

theorem Committed.linkedOutside (h : Committed call w w' evidence tenant d)
    (hout : ¬d.Spans evidence) : LinkedOutside w'.db := by
  obtain ⟨l, hl, hld, hle⟩ := h.linked
  have hrow := (h.find d.id).trans (if_pos rfl)
  have hev := w.db.evidences.keyed _ _ h.evidence_found
  refine ⟨l, hl, _, hld ▸ hrow, evidence, ?_, ?_⟩
  · rw [hle, hev, h.evidences]
    exact h.evidence_found
  · rw [spans_written]
    exact hout

theorem LinkedOutside.committed (hout : LinkedOutside w.db)
    (h : Committed call w w' evidence tenant d) : LinkedOutside w'.db := by
  obtain ⟨l, hl, r, hr, e, he, hspan⟩ := hout
  have hl' : l ∈ w'.db.decisionEvidences := by
    rw [h.links]
    exact List.mem_append_left _ hl
  have he' : e ∈ w'.db.evidences.find l.evidenceId := by
    rw [h.evidences]
    exact he
  obtain ⟨r', hr', hspan'⟩ : ∃ r' ∈ w'.db.decisions.find l.decisionId, ¬r'.Spans e := by
    by_cases hid : l.decisionId = d.id
    · refine ⟨_, (h.find _).trans (if_pos hid), ?_⟩
      rw [spans_written]
      rcases h.target.found with ⟨-, -, hd⟩ | ⟨-, -, hfree⟩
      · obtain rfl := Option.some.inj (hr.symm.trans (hid ▸ hd))
        exact hspan
      · rw [hid, hfree] at hr
        cases hr
    · exact ⟨r, (h.find _).trans ((if_neg hid).trans hr), hspan⟩
  exact ⟨l, hl', r', hr', e, he', hspan'⟩

theorem KeysParse.update {key : String} {entry : Option RedisEntry} (h : KeysParse w)
    (hk : w'.keys = Function.update w.keys key entry)
    (hentry : ∀ x ∈ entry, (Uuid.parse x.value).isSome) : KeysParse w' := by
  intro e raw hraw
  rw [hk] at hraw
  by_cases heq : openDecisionKey e = key
  · rw [heq, Function.update_self] at hraw
    obtain ⟨hmap, -⟩ := Option.filter_eq_some_iff.mp hraw
    obtain ⟨x, hx, rfl⟩ := Option.map_eq_some_iff.mp hmap
    exact hentry x hx
  · rw [Function.update_of_ne heq] at hraw
    exact h e raw hraw

theorem KeysParse.target {keys : String → Option RedisEntry} (h : KeysParse w)
    (ht : Target w call evidence tenant d keys) (hk : w'.keys = keys) : KeysParse w' := by
  rcases ht.spec with ⟨-, -, rfl⟩ | ⟨-, -, -, rfl⟩
  · intro e raw hraw
    rw [hk] at hraw
    exact h e raw hraw
  · refine h.update hk ?_
    intro x hx
    obtain rfl := Option.some.inj hx
    simp [Uuid.parse_str]

theorem KeysParse.serve (h : KeysParse w) (r : Request) : KeysParse (serve w r) := by
  have same : ∀ {w' : World}, w'.keys = w.keys → KeysParse w' := by
    intro w' hk e raw hraw
    rw [hk] at hraw
    exact h e raw hraw
  cases r with
  | aggregate call =>
    rcases aggregate_cases call w with hr | ⟨evidence, tenant, d, hc⟩
    · rcases hr.leftover with hw | ⟨evidence, tenant, -, -, hleft⟩
      · exact same (congrArg World.keys hw)
      · simp only [ArgusServices.serve]
        generalize (aggregate call w).2 = w' at hleft
        cases hleft with
        | untouched => exact h
        | keyDeleted => exact h.update rfl (fun x hx => by cases hx)
        | decided htarget _ => exact h.target htarget rfl
    · exact h.target hc.target rfl
  | resolve call =>
    rcases resolveDecision_cases call w with hr | ⟨d, hr⟩
    · simp only [ArgusServices.serve]
      generalize (resolveDecision call w).2 = w' at hr
      cases hr <;> exact same rfl
    · exact same (by simp only [ArgusServices.serve, hr.world])
  | expireKey key => exact h.update rfl (fun x hx => by cases hx)
  | insertEvidence evidence =>
    simp only [ArgusServices.serve]
    split <;> exact same rfl

theorem LinkedInside.arrived (hin : LinkedInside w.db) (hsum : SummaryInvariant w.db)
    (hfree : w.db.evidences.find evidence.id = none) :
    LinkedInside { w.db with evidences := w.db.evidences.put evidence } := by
  intro l hl d hd e he
  obtain ⟨e₀, he₀⟩ := hsum.link_evidence l hl
  have hne : l.evidenceId ≠ evidence.id := by
    intro heq
    rw [heq, hfree] at he₀
    cases he₀
  have hold := KeyedTable.find_put_of_ne w.db.evidences hne
  exact hin l hl d hd e (hold ▸ he)

theorem WindowInvariant.initial (h : w.Initial) : WindowInvariant w where
  summary := .initial h
  tenant := .initial h
  keys := fun e raw hraw => by simp [h.keys, truthy] at hraw
  inside := fun l hl => by simp [h.links] at hl

theorem WindowInvariant.serve {r : Request} (h : WindowInvariant w) (hg : MergesInside w r) :
    WindowInvariant (serve w r) where
  summary := h.summary.serve r
  tenant := h.tenant.serve r
  keys := h.keys.serve r
  inside := by
    refine serve_keeps h.inside ?_ ?_ (fun hfree => h.inside.arrived h.summary hfree)
    · intro call w' evidence tenant d hcall hc
      subst hcall
      exact h.inside.committed h.summary hg hc
    · intro call w' d _ hr l hl r hrow e he
      rw [hr.world] at hl he
      rw [hr.find] at hrow
      split at hrow
      next hid =>
        obtain rfl := Option.some.inj hrow
        have hkey := w.db.decisions.keyed _ _ hr.found
        exact h.inside l hl d (by rw [hid, hkey]; exact hr.found) e he
      next => exact h.inside l hl r hrow e he

/-- An undisturbed call that breaks the guard commits and links its evidence outside. -/
theorem WindowInvariant.linkedOutside {r : Request} (h : WindowInvariant w)
    (hg : ¬MergesInside w r) (hr : Undisturbed w r) :
    LinkedOutside (ArgusServices.serve w r).db := by
  cases r with
  | aggregate call =>
    simp only [MergesInside, not_forall, not_and_or] at hg
    obtain ⟨evidence, hev, hg⟩ := hg
    rcases hg with ⟨d, hopen, hle, hlt⟩ | ⟨tenant, htn, hun, hfree, hex, hneg⟩
    · obtain ⟨hrow, hten, -⟩ := World.openDecision_spec hopen
      obtain ⟨tenant, htn⟩ := h.tenant d hrow
      have hc := aggregate_merges hr hev (hten ▸ htn) hopen hle
      exact hc.linkedOutside fun hspan => hlt hspan.1
    · have hok : ¬Refused w call evidence tenant := by
        intro hrefused
        rcases hrefused with ⟨raw, hraw, hnone⟩ | ⟨-, hsome | hle⟩
        · have hparse := h.keys evidence raw hraw
          simp [hnone] at hparse
        · simp [hfree] at hsome
        · omega
      obtain ⟨d, hc⟩ := aggregate_commits hr hev htn hok
      refine hc.linkedOutside fun hspan => hneg ?_
      rcases hc.target.found with ⟨hopen, hle, -⟩ | ⟨rfl, -⟩
      · have := hun d hopen
        omega
      · simp only [Decision.Spans, newDecision, seconds] at hspan
        omega
  | resolve call => exact absurd trivial hg
  | expireKey key => exact absurd trivial hg
  | insertEvidence evidence => exact absurd trivial hg

theorem LinkedOutside.serve {r : Request} (h : LinkedOutside w.db) :
    LinkedOutside (serve w r).db := by
  refine serve_keeps h (fun _ hc => h.committed hc) ?_ ?_
  · intro call w' d₀ _ hr
    obtain ⟨l, hl, d, hd, e, he, hout⟩ := h
    by_cases hid : l.decisionId = d₀.id
    · have hkey := w.db.decisions.keyed _ _ hr.found
      obtain rfl := Option.some.inj (hd.symm.trans ((hid.trans hkey) ▸ hr.found))
      exact ⟨l, hr.world ▸ hl, _, (hr.find _).trans (if_pos hid), e, hr.world ▸ he, hout⟩
    · exact ⟨l, hr.world ▸ hl, d, (hr.find _).trans ((if_neg hid).trans hd), e,
        hr.world ▸ he, hout⟩
  · intro evidence hfree
    obtain ⟨l, hl, d, hd, e, he, hout⟩ := h
    have hne : l.evidenceId ≠ evidence.id := by
      intro heq
      rw [heq, hfree] at he
      cases he
    exact ⟨l, hl, d, hd, e, (KeyedTable.find_put_of_ne _ hne).trans he, hout⟩

/-- While every call merges inside its window, every linked evidence lies in the window of its
decision, whatever raises. If nothing raises, these are the only runs that end so. -/
theorem linkedInside_iff_mergesInside {rs : List Request} (hw : w.Initial) :
    (Run (Where MergesInside Served) w rs w' → LinkedInside w'.db) ∧
      (Run (Where Undisturbed Served) w rs w' →
        (LinkedInside w'.db ↔ Run (Where MergesInside (Where Undisturbed Served)) w rs w')) := by
  have hstart := WindowInvariant.initial hw
  constructor
  · intro h
    exact (h.invariant_where (fun _ _ _ hi hg heq => heq ▸ hi.serve hg) hstart).inside
  · intro h
    refine h.goal_iff_where WindowInvariant (fun w => LinkedInside w.db)
      (fun w => LinkedOutside w.db) ?_ ?_ ?_ hstart WindowInvariant.inside
      LinkedOutside.not_linkedInside
    · intro w r w' hi hg hstep
      exact hstep.2 ▸ hi.serve hg
    · intro w r w' hi hg hstep
      exact hstep.2 ▸ hi.linkedOutside hg hstep.1
    · intro w r w' hlost hstep
      exact hstep.2 ▸ hlost.serve

/-- Evidences of a tenant that `create_tenant` admits, with windows of a minute. -/
def admittedWorld (evidences : List Evidence) : World :=
  { sampleWorld evidences with
    db := { (sampleWorld evidences).db with tenants := .put .empty ⟨⟨1⟩, 60, 2, 5⟩ } }

theorem admittedWorld_initial (evidences : List Evidence) : (admittedWorld evidences).Initial :=
  ⟨fun _ => rfl, rfl, rfl, rfl, fun _ => rfl, rfl, rfl⟩

theorem admittedWorld_admitted (evidences : List Evidence) :
    (admittedWorld evidences).db.TenantsAdmitted := by
  intro id tenant htn
  by_cases hid : id = ⟨1⟩
  · subst hid
    obtain rfl := Option.some.inj ((rfl : some (⟨⟨1⟩, 60, 2, 5⟩ : Tenant) = _).trans htn)
    exact ⟨⟨"tenant", "tenant", 60⟩, by decide⟩
  · have hnone : (admittedWorld evidences).db.tenants.find id = none :=
      KeyedTable.find_put_of_ne _ hid
    rw [hnone] at htn
    cases htn

/-- Two evidences captured at these seconds. -/
def minuteWorld (first second : Int) : World :=
  admittedWorld [{ sampleEvidence 11 none 4 with capturedAt := seconds first },
    { sampleEvidence 12 none 4 with capturedAt := seconds second }]

def minuteCalls : List AggregateCall :=
  [sampleAggregate 11 20, sampleAggregate 12 21]

def minuteEnd (first second : Int) : World :=
  (minuteCalls.map Request.aggregate).foldl serve (minuteWorld first second)

theorem late_linkedOutside : ¬LinkedInside (minuteEnd 10 0).db := by
  decide +kernel

/-- An evidence from before the window of the open decision is merged into it. -/
theorem not_always_linkedInside : ¬∀ (w w' : World) (calls : List AggregateCall), w.Initial →
    w.db.TenantsAdmitted → Run (Where Undisturbed Served) w (calls.map Request.aggregate) w' →
      LinkedInside w'.db := by
  intro h
  exact late_linkedOutside (h _ _ minuteCalls (admittedWorld_initial _)
    (admittedWorld_admitted _) (run_serve_where (by decide +kernel)))

/-- In the order of capture the second evidence is merged inside, the other way round it is not. -/
theorem linkedInside_iff_mergesInside_sample : LinkedInside (minuteEnd 0 10).db ∧
    ¬Run (Where MergesInside (Where Undisturbed Served)) (minuteWorld 10 0)
      (minuteCalls.map Request.aggregate) (minuteEnd 10 0) := by
  constructor
  · refine ((linkedInside_iff_mergesInside (admittedWorld_initial _)).2
      (run_serve_where (by decide +kernel))).mpr ?_
    exact run_serve_where_both (by decide +kernel)
  · intro hrun
    exact late_linkedOutside (((linkedInside_iff_mergesInside (admittedWorld_initial _)).2
      (run_serve_where (by decide +kernel))).mpr hrun)

end ArgusServices

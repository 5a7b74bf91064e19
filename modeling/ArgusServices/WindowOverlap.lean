import ArgusServices.GreedyWindows
import ArgusServices.RedisClock
import ArgusServices.SingleLink

namespace ArgusServices

open Transition

/-- The shared state with a clock: an open key is there until the instant it was set to expire. -/
structure ClockedWorld where
  db : Db
  keys : ExpiringKeys String String
  published : List Event
  notifyWarning : List Uuid
  now : Int

/-- A call with the instants at which it reads the open key and at which it sets it, if it does. -/
structure TimedCall where
  call : AggregateCall
  readAt : Int
  setAt : Int

/-- What a call sees at an instant; the keys that are left carry no time to live of their own. -/
def ClockedWorld.view (s : ClockedWorld) (now : Int) : World where
  db := s.db
  keys := fun key => (s.keys.get now key).map fun value => ⟨value, none⟩
  published := s.published
  notifyWarning := s.notifyWarning

def ClockedWorld.aggregate (s : ClockedWorld) (c : TimedCall) : ClockedWorld :=
  let w := (ArgusServices.aggregate c.call (s.view c.readAt)).2
  { db := w.db
    keys := afterCall s.keys w.keys c.setAt
    published := w.published
    notifyWarning := w.notifyWarning
    now := c.setAt }

/-- The evidences of its place that are linked so far were captured no later. -/
def InOrder (db : Db) (evidence : Evidence) : Prop :=
  ∀ l ∈ db.decisionEvidences, ∀ e ∈ db.evidences.find l.evidenceId, e.place = evidence.place →
    e.capturedAt ≤ evidence.capturedAt

instance (db : Db) (evidence : Evidence) : Decidable (InOrder db evidence) :=
  inferInstanceAs (Decidable (∀ l ∈ db.decisionEvidences,
    ∀ e ∈ db.evidences.find l.evidenceId, e.place = evidence.place →
      e.capturedAt ≤ evidence.capturedAt))

/-- One call after the other, at any distance, none of them failing, each place in its order. -/
structure Aggregates (s : ClockedWorld) (c : TimedCall) (s' : ClockedWorld) : Prop where
  next : s' = s.aggregate c
  later : s.now ≤ c.readAt
  read_set : c.readAt ≤ c.setAt
  fresh : s.db.decisions.find c.call.newId = none
  unfailing : ∃ evidence tenant, Unfailing (s.view c.readAt) c.call evidence tenant ∧
    InOrder s.db evidence

/-- The part of a row that stays as it was created. -/
structure Span where
  id : Uuid
  place : Place
  windowStart : Int
  windowEnd : Int
  deriving DecidableEq, Repr

def Decision.span (d : Decision) : Span :=
  ⟨d.id, d.place, d.windowStart, d.windowEnd⟩

def Db.HasSpan (db : Db) (x : Span) : Prop :=
  ∃ d ∈ db.decisions.find x.id, d.span = x

instance (db : Db) (x : Span) : Decidable (db.HasSpan x) :=
  inferInstanceAs (Decidable (∃ d ∈ db.decisions.find x.id, d.span = x))

/-- No two decisions of one place have windows that overlap. -/
def NoOverlap (db : Db) : Prop :=
  ∀ x y, db.HasSpan x → db.HasSpan y → x.place = y.place → x.id ≠ y.id →
    x.windowEnd < y.windowStart ∨ y.windowEnd < x.windowStart

/-- An evidence that a decision of its place could still take finds the open key alive. -/
def Timely (s : ClockedWorld) (c : TimedCall) : Prop :=
  ∀ evidence x, s.db.evidences.find c.call.evidenceId = some evidence → s.db.HasSpan x →
    x.place = evidence.place → evidence.capturedAt ≤ x.windowEnd →
    (s.keys.get c.readAt (openDecisionKey evidence)).isSome

variable {w w' : World} {call : AggregateCall} {evidence : Evidence} {tenant : Tenant}
  {d : Decision}

theorem hasSpan_of_row {db : Db} (h : db.decisions.find d.id = some d) : db.HasSpan d.span :=
  ⟨d, h, rfl⟩

@[simp] theorem rowAfter_span (db : Db) : (rowAfter db call evidence tenant d).span = d.span := by
  simp [Decision.span]

theorem Committed.hasSpan (h : Committed call w w' evidence tenant d) (x : Span) :
    w'.db.HasSpan x ↔ x = d.span ∨ w.db.HasSpan x := by
  unfold Db.HasSpan
  rw [h.find_row]
  constructor
  · intro hx
    obtain ⟨r, hr, rfl⟩ := hx
    split at hr
    · obtain rfl := Option.some.inj hr
      exact Or.inl (rowAfter_span _)
    · exact Or.inr ⟨r, hr, rfl⟩
  · intro hx
    split
    next hid =>
      refine ⟨_, rfl, ?_⟩
      rw [rowAfter_span]
      rcases hx with hx | ⟨r, hr, rfl⟩
      · exact hx.symm
      · rw [hid] at hr
        rcases h.target.found with ⟨-, -, hrow⟩ | ⟨-, -, hfree⟩
        · rw [Option.some.inj (hr.symm.trans hrow)]
        · rw [hfree] at hr
          cases hr
    next hid =>
      rcases hx with rfl | hx
      · exact absurd rfl hid
      · exact hx

/-- The span is after all others of its place. -/
def Db.IsLatest (db : Db) (x : Span) : Prop :=
  ∀ y, db.HasSpan y → y.place = x.place → y.id ≠ x.id → y.windowEnd < x.windowStart

/-- What holds while every evidence that can be merged finds the open key alive. -/
structure Ledger (s : ClockedWorld) : Prop where
  opened : ∀ x, s.db.HasSpan x → ∃ l ∈ s.db.decisionEvidences, ∃ e,
    s.db.evidences.find l.evidenceId = some e ∧ e.place = x.place ∧ e.capturedAt = x.windowStart
  ordered : ∀ x, s.db.HasSpan x → x.windowStart ≤ x.windowEnd
  disjoint : NoOverlap s.db
  keys : ∀ e value expiresAt, s.keys.entry (openDecisionKey e) = some (value, expiresAt) →
    ∃ x, s.db.HasSpan x ∧ value = x.id.str ∧ x.place = e.place ∧ s.db.IsLatest x

variable {s s' : ClockedWorld} {c : TimedCall}

/-- The open key leads to the latest decision of its place or is not there. -/
theorem Ledger.openDecision (hs : Ledger s) (now : Int) (e : Evidence) :
    (∃ r, (s.view now).openDecision e = some r ∧ s.db.HasSpan r.span ∧ r.place = e.place ∧
      s.db.IsLatest r.span) ∨
    ((s.view now).keys (openDecisionKey e) = none ∧
      s.keys.get now (openDecisionKey e) = none) := by
  cases hget : s.keys.get now (openDecisionKey e) with
  | none => exact Or.inr ⟨by simp [ClockedWorld.view, hget], rfl⟩
  | some value =>
    obtain ⟨expiresAt, hentry, -⟩ := ExpiringKeys.get_eq_some.mp hget
    obtain ⟨x, ⟨r, hr, rfl⟩, rfl, hplace, hlatest⟩ := hs.keys e value expiresAt hentry
    have hrow : s.db.decisions.find r.id = some r := hr
    refine Or.inl ⟨r, openDecision_of_key ?_ hrow hplace, hasSpan_of_row hrow, hplace, hlatest⟩
    simp [ClockedWorld.view, hget, Decision.span]

theorem Ledger.commits (hs : Ledger s) (h : Aggregates s c s') : ∃ evidence tenant d,
    Unfailing (s.view c.readAt) c.call evidence tenant ∧ InOrder s.db evidence ∧
    Committed c.call (s.view c.readAt) (ArgusServices.aggregate c.call (s.view c.readAt)).2
      evidence tenant d := by
  obtain ⟨evidence, tenant, hc, horder⟩ := h.unfailing
  have hok : ¬Refused (s.view c.readAt) c.call evidence tenant := by
    intro hrefused
    rcases hrefused with ⟨raw, hraw, hparse⟩ | ⟨-, htaken | hex⟩
    · rcases hs.openDecision c.readAt evidence with ⟨r, hopen, -⟩ | ⟨hnone, -⟩
      · obtain ⟨-, -, raw', id, hraw', hid⟩ := World.openDecision_spec hopen
        obtain rfl := Option.some.inj (hraw.symm.trans hraw')
        rw [hparse] at hid
        cases hid
      · simp [hnone, truthy] at hraw
    · have hfree : (s.view c.readAt).db.decisions.find c.call.newId = none := h.fresh
      simp [hfree] at htaken
    · have := hc.window
      omega
  obtain ⟨d, hd⟩ := aggregate_commits hc.raises hc.evidence_found hc.tenant_found hok
  exact ⟨evidence, tenant, d, hc, horder, hd⟩

theorem aggregate_links (hd : Committed c.call (s.view c.readAt)
    (ArgusServices.aggregate c.call (s.view c.readAt)).2 evidence tenant d) {l : DecisionEvidence}
    (hl : l ∈ s.db.decisionEvidences) : l ∈ (s.aggregate c).db.decisionEvidences := by
  have hlinks := hd.links
  exact hlinks ▸ List.mem_append_left _ hl

theorem aggregate_evidences (hd : Committed c.call (s.view c.readAt)
    (ArgusServices.aggregate c.call (s.view c.readAt)).2 evidence tenant d) {id : Uuid}
    {e : Evidence} (he : s.db.evidences.find id = some e) :
    (s.aggregate c).db.evidences.find id = some e := by
  have hrows := congrArg Db.evidences hd.db
  exact (congrArg (fun t => t.find id) hrows).trans he

theorem aggregate_hasSpan (hd : Committed c.call (s.view c.readAt)
    (ArgusServices.aggregate c.call (s.view c.readAt)).2 evidence tenant d) (x : Span) :
    (s.aggregate c).db.HasSpan x ↔ x = d.span ∨ s.db.HasSpan x :=
  hd.hasSpan x

theorem newDecision_span : (newDecision call evidence tenant).span =
    ⟨call.newId, evidence.place, evidence.capturedAt,
      evidence.capturedAt + seconds tenant.aggregationWindowSecs⟩ := rfl

/-- Under the guard a new decision comes after all others of its place. -/
theorem Ledger.passed (hs : Ledger s) (hg : Timely s c)
    (hev : s.db.evidences.find c.call.evidenceId = some evidence)
    (hopen : (s.view c.readAt).Unmerged evidence) {x : Span} (hx : s.db.HasSpan x)
    (hplace : x.place = evidence.place) : x.windowEnd < evidence.capturedAt := by
  by_contra hle
  have halive := hg evidence x hev hx hplace (by omega)
  rcases hs.openDecision c.readAt evidence with ⟨r, hr, hspan, hrp, hlatest⟩ | ⟨-, hnone⟩
  · have hpassed := hopen r hr
    by_cases hid : x.id = r.id
    · obtain ⟨r', hr', rfl⟩ := hx
      obtain ⟨r'', hr'', heq⟩ := hspan
      rw [hid] at hr'
      obtain rfl := Option.some.inj (hr'.symm.trans hr'')
      have hend := congrArg Span.windowEnd heq
      simp only [Decision.span] at hend hle
      omega
    · have hbefore := hlatest x hx (hplace.trans hrp.symm) hid
      have hordered := hs.ordered r.span hspan
      simp only [Decision.span] at hbefore hordered
      omega
  · simp [hnone] at halive

theorem Ledger.merge (hs : Ledger s)
    (hd : Committed c.call (s.view c.readAt) (ArgusServices.aggregate c.call (s.view c.readAt)).2
      evidence tenant d)
    (hopen : (s.view c.readAt).openDecision evidence = some d)
    (hkeys : (ArgusServices.aggregate c.call (s.view c.readAt)).2.keys = (s.view c.readAt).keys) :
    Ledger (s.aggregate c) := by
  have hrow : s.db.HasSpan d.span := hasSpan_of_row (World.openDecision_spec hopen).1
  have hspans : ∀ x, (s.aggregate c).db.HasSpan x ↔ s.db.HasSpan x := by
    intro x
    rw [aggregate_hasSpan hd]
    constructor
    · intro hx
      rcases hx with rfl | hx
      · exact hrow
      · exact hx
    · exact Or.inr
  have hlatest : ∀ x, s.db.IsLatest x → (s.aggregate c).db.IsLatest x := by
    intro x hx y hy
    exact hx y ((hspans y).mp hy)
  refine ⟨?_, ?_, ?_, ?_⟩
  · intro x hx
    obtain ⟨l, hl, e, he, hplace, hstart⟩ := hs.opened x ((hspans x).mp hx)
    exact ⟨l, aggregate_links hd hl, e, aggregate_evidences hd he, hplace, hstart⟩
  · intro x hx
    exact hs.ordered x ((hspans x).mp hx)
  · intro x y hx hy
    exact hs.disjoint x y ((hspans x).mp hx) ((hspans y).mp hy)
  · intro e value expiresAt hentry
    rcases afterCall_entry hentry with hold | ⟨ex, hset, -⟩
    · obtain ⟨x, hx, hvalue, hplace, hl⟩ := hs.keys e value expiresAt hold
      exact ⟨x, (hspans x).mpr hx, hvalue, hplace, hlatest x hl⟩
    · rw [hkeys] at hset
      simp [ClockedWorld.view] at hset

/-- A new decision after all others of its place is the latest one of it. -/
theorem isLatest_new (hd : Committed c.call (s.view c.readAt)
    (ArgusServices.aggregate c.call (s.view c.readAt)).2 evidence tenant d)
    (hafter : ∀ x, s.db.HasSpan x → x.place = d.span.place →
      x.windowEnd < d.span.windowStart) : (s.aggregate c).db.IsLatest d.span := by
  intro y hy hplace hne
  rcases (aggregate_hasSpan hd y).mp hy with rfl | hy
  · exact absurd rfl hne
  · exact hafter y hy hplace

theorem isLatest_of_other_place (hd : Committed c.call (s.view c.readAt)
    (ArgusServices.aggregate c.call (s.view c.readAt)).2 evidence tenant d) {x : Span}
    (hlatest : s.db.IsLatest x) (hplace : x.place ≠ d.span.place) :
    (s.aggregate c).db.IsLatest x := by
  intro y hy hyp hne
  rcases (aggregate_hasSpan hd y).mp hy with rfl | hy
  · exact absurd hyp.symm hplace
  · exact hlatest y hy hyp hne

theorem noOverlap_new (hd : Committed c.call (s.view c.readAt)
    (ArgusServices.aggregate c.call (s.view c.readAt)).2 evidence tenant d)
    (hdisjoint : NoOverlap s.db) (hafter : ∀ x, s.db.HasSpan x → x.place = d.span.place →
      x.windowEnd < d.span.windowStart) : NoOverlap (s.aggregate c).db := by
  intro x y hx hy hplace hne
  rcases (aggregate_hasSpan hd x).mp hx with rfl | hx
  · exact Or.inr (isLatest_new hd hafter y hy hplace.symm hne.symm)
  · rcases (aggregate_hasSpan hd y).mp hy with rfl | hy
    · exact Or.inl (hafter x hx hplace)
    · exact hdisjoint x y hx hy hplace hne

/-- The key that a created decision sets leads to it; the other keys lead where they led. -/
theorem Ledger.keys_create (hs : Ledger s)
    (hd : Committed c.call (s.view c.readAt) (ArgusServices.aggregate c.call (s.view c.readAt)).2
      evidence tenant d)
    (hplace : d.span.place = evidence.place)
    (hlatest : (s.aggregate c).db.IsLatest d.span)
    (hkeys : (ArgusServices.aggregate c.call (s.view c.readAt)).2.keys =
      Function.update (s.view c.readAt).keys (openDecisionKey evidence)
        (some ⟨d.id.str, some (tenant.aggregationWindowSecs + 300)⟩))
    {e : Evidence} {value : String} {expiresAt : Int}
    (hentry : (s.aggregate c).keys.entry (openDecisionKey e) = some (value, expiresAt)) :
    ∃ x, (s.aggregate c).db.HasSpan x ∧ value = x.id.str ∧ x.place = e.place ∧
      (s.aggregate c).db.IsLatest x := by
  by_cases hkey : openDecisionKey e = openDecisionKey evidence
  · refine ⟨d.span, (aggregate_hasSpan hd _).mpr (Or.inl rfl), ?_, ?_, hlatest⟩
    · have hset : (s.aggregate c).keys.entry (openDecisionKey e) =
          some (d.id.str, c.setAt + seconds (tenant.aggregationWindowSecs + 300)) := by
        simp [ClockedWorld.aggregate, afterCall, hkeys, hkey]
      rw [hset] at hentry
      exact (congrArg Prod.fst (Option.some.inj hentry)).symm
    · rw [hplace]
      exact (openDecisionKey_eq_iff.mp hkey).symm
  · rcases afterCall_entry hentry with hold | ⟨ex, hset, -⟩
    · obtain ⟨x, hx, hvalue, hxplace, hxlatest⟩ := hs.keys e value expiresAt hold
      refine ⟨x, (aggregate_hasSpan hd x).mpr (Or.inr hx), hvalue, hxplace, ?_⟩
      apply isLatest_of_other_place hd hxlatest
      intro hsame
      rw [hplace] at hsame
      exact hkey (openDecisionKey_eq_iff.mpr (hxplace.symm.trans hsame))
    · rw [hkeys, Function.update_of_ne hkey] at hset
      simp [ClockedWorld.view] at hset

theorem Ledger.create (hs : Ledger s)
    (hd : Committed c.call (s.view c.readAt) (ArgusServices.aggregate c.call (s.view c.readAt)).2
      evidence tenant d)
    (hnew : d = newDecision c.call evidence tenant) (hwindow : 0 ≤ tenant.aggregationWindowSecs)
    (hpassed : ∀ x, s.db.HasSpan x → x.place = evidence.place →
      x.windowEnd < evidence.capturedAt)
    (hkeys : (ArgusServices.aggregate c.call (s.view c.readAt)).2.keys =
      Function.update (s.view c.readAt).keys (openDecisionKey evidence)
        (some ⟨d.id.str, some (tenant.aggregationWindowSecs + 300)⟩)) :
    Ledger (s.aggregate c) := by
  have hspan : d.span = ⟨d.id, evidence.place, evidence.capturedAt,
      evidence.capturedAt + seconds tenant.aggregationWindowSecs⟩ := by
    rw [hnew, newDecision_span, newDecision_id]
  have hafter : ∀ x, s.db.HasSpan x → x.place = d.span.place →
      x.windowEnd < d.span.windowStart := by
    rw [hspan]
    exact hpassed
  refine ⟨?_, ?_, ?_, ?_⟩
  · intro x hx
    rcases (aggregate_hasSpan hd x).mp hx with rfl | hx
    · obtain ⟨l, hl, -, he⟩ := hd.linked
      have hev := (s.view c.readAt).db.evidences.keyed _ _ hd.evidence_found
      refine ⟨l, hl, evidence, aggregate_evidences hd ?_, ?_, ?_⟩
      · rw [he, hev]
        exact hd.evidence_found
      · rw [hspan]
      · rw [hspan]
    · obtain ⟨l, hl, e, he, hplace, hstart⟩ := hs.opened x hx
      exact ⟨l, aggregate_links hd hl, e, aggregate_evidences hd he, hplace, hstart⟩
  · intro x hx
    rcases (aggregate_hasSpan hd x).mp hx with rfl | hx
    · simp only [hspan, seconds]
      omega
    · exact hs.ordered x hx
  · exact noOverlap_new hd hs.disjoint hafter
  · intro e value expiresAt hentry
    exact hs.keys_create hd (by rw [hspan]) (isLatest_new hd hafter) hkeys hentry

theorem Ledger.step (hs : Ledger s) (hg : Timely s c) (h : Aggregates s c s') : Ledger s' := by
  obtain ⟨evidence, tenant, d, hc, -, hd⟩ := hs.commits h
  rw [h.next]
  rcases hd.target.spec with ⟨hopen, -, hkeys⟩ | ⟨hnew, hopen, -, hkeys⟩
  · exact hs.merge hd hopen hkeys
  · refine hs.create hd hnew hc.window ?_ hkeys
    intro x hx hplace
    exact hs.passed hg hc.evidence_found hopen hx hplace

/-- An evidence that finds its key expired opens a second window over one that could take it. -/
theorem Ledger.overlap (hs : Ledger s) (hg : ¬Timely s c) (h : Aggregates s c s') :
    ¬NoOverlap s'.db := by
  obtain ⟨evidence, tenant, d, hc, horder, hd⟩ := hs.commits h
  simp only [Timely, not_forall] at hg
  obtain ⟨ev, x, hev, hx, hplace, hle, hdead⟩ := hg
  obtain rfl := Option.some.inj (hc.evidence_found.symm.trans hev)
  rcases hs.openDecision c.readAt evidence with ⟨r, hr, -⟩ | ⟨hnone, -⟩
  · obtain ⟨-, -, raw, -, hraw, -⟩ := World.openDecision_spec hr
    obtain ⟨hmap, -⟩ := Option.filter_eq_some_iff.mp hraw
    simp only [ClockedWorld.view, Option.map_map, Option.map_eq_some_iff] at hmap
    obtain ⟨value, hvalue, -⟩ := hmap
    simp [hvalue] at hdead
  · have hno : (s.view c.readAt).openDecision evidence = none :=
      openDecision_of_no_key (by rw [hnone, Option.map_none])
    rcases hd.target.spec with ⟨hopen, -, -⟩ | ⟨hnew, -, hfree, -⟩
    · rw [hno] at hopen
      cases hopen
    · have hspan : d.span = ⟨d.id, evidence.place, evidence.capturedAt,
          evidence.capturedAt + seconds tenant.aggregationWindowSecs⟩ := by
        rw [hnew, newDecision_span, newDecision_id]
      have hne : d.span.id ≠ x.id := by
        intro hid
        obtain ⟨r, hr, -⟩ := hx
        have hfree' : s.db.decisions.find d.id = none := hfree
        rw [← hid] at hr
        exact absurd (hr.symm.trans hfree') (by simp)
      intro hdisjoint
      have hcases := hdisjoint d.span x (h.next ▸ (aggregate_hasSpan hd _).mpr (Or.inl rfl))
        (h.next ▸ (aggregate_hasSpan hd x).mpr (Or.inr hx)) (by rw [hspan, hplace]) hne
      obtain ⟨l, hl, e, he, heplace, hstart⟩ := hs.opened x hx
      have hearlier := horder l hl e he (heplace.trans hplace)
      have hwindow := hc.window
      simp only [hspan, seconds] at hcases
      omega

theorem not_noOverlap_stays (hn : ¬NoOverlap s.db) (h : Aggregates s c s') :
    ¬NoOverlap s'.db := by
  intro hdisjoint
  apply hn
  have hkept : ∀ x, s.db.HasSpan x → s'.db.HasSpan x := by
    intro x hx
    rw [h.next]
    rcases aggregate_cases c.call (s.view c.readAt) with hr | ⟨evidence, tenant, d, hd⟩
    · have hdb : (s.aggregate c).db = s.db := hr.db
      rw [hdb]
      exact hx
    · exact (aggregate_hasSpan hd x).mpr (Or.inr hx)
  intro x y hx hy
  exact hdisjoint x y (hkept x hx) (hkept y hy)

/-- The windows of each place stay apart in exactly the runs in which an evidence that a decision
of its place could still take is aggregated before the open key has expired. -/
theorem noOverlap_iff_timely {cs : List TimedCall} (hdecisions : ∀ id, s.db.decisions.find id = none)
    (hkeys : ∀ key, s.keys.entry key = none) (h : Run Aggregates s cs s') :
    NoOverlap s'.db ↔ Run (Where Timely Aggregates) s cs s' := by
  have hstart : Ledger s := by
    have hnone : ∀ x, ¬s.db.HasSpan x := by
      intro x hx
      obtain ⟨r, hr, -⟩ := hx
      simp [hdecisions] at hr
    refine ⟨?_, ?_, ?_, ?_⟩
    · intro x hx
      exact absurd hx (hnone x)
    · intro x hx
      exact absurd hx (hnone x)
    · intro x y hx
      exact absurd hx (hnone x)
    · intro e value expiresAt hentry
      simp [hkeys] at hentry
  exact h.goal_iff_where Ledger (fun s => NoOverlap s.db) (fun s => ¬NoOverlap s.db)
    (fun _ _ _ hs hg hstep => hs.step hg hstep)
    (fun _ _ _ hs hg hstep => hs.overlap hg hstep)
    (fun _ _ _ hn hstep => not_noOverlap_stays hn hstep)
    hstart Ledger.disjoint id

/-- Two evidences captured ten seconds apart, in windows of a minute. -/
def slowEvidence (id : BitVec 128) (secs : Int) : Evidence :=
  { sampleEvidence id none 4 with capturedAt := seconds secs }

def slowStart : ClockedWorld where
  db := (sampleWorld [slowEvidence 11 0, slowEvidence 12 10]).db
  keys := .empty
  published := []
  notifyWarning := []
  now := 0

def firstCall : TimedCall :=
  ⟨sampleAggregate 11 20, 0, 0⟩

/-- The second evidence waits this long for its turn. -/
def lateCall (secs : Int) : TimedCall :=
  ⟨sampleAggregate 12 21, seconds secs, seconds secs⟩

theorem aggregates_firstCall : Aggregates slowStart firstCall (slowStart.aggregate firstCall) where
  next := rfl
  later := by decide
  read_set := by decide
  fresh := rfl
  unfailing := ⟨slowEvidence 11 0, sampleTenant, ⟨rfl, by decide, by decide, by decide⟩,
    by decide⟩

theorem aggregates_lateCall {secs : Int} (h : 0 ≤ secs) :
    Aggregates (slowStart.aggregate firstCall) (lateCall secs)
      ((slowStart.aggregate firstCall).aggregate (lateCall secs)) where
  next := rfl
  later := by
    simp only [ClockedWorld.aggregate, firstCall, lateCall, seconds]
    omega
  read_set := Int.le_refl _
  fresh := by
    have hnone : (slowStart.aggregate firstCall).db.decisions.find ⟨21⟩ = none := by
      decide +kernel
    exact hnone
  unfailing := by
    have hev : (slowStart.aggregate firstCall).db.evidences.find ⟨12⟩ =
        some (slowEvidence 12 10) := by decide +kernel
    have htn : (slowStart.aggregate firstCall).db.tenants.find ⟨1⟩ = some sampleTenant := by
      decide +kernel
    exact ⟨slowEvidence 12 10, sampleTenant, ⟨rfl, hev, htn, by decide⟩, by decide +kernel⟩

theorem overlap_late :
    ¬NoOverlap ((slowStart.aggregate firstCall).aggregate (lateCall 400)).db := by
  intro hdisjoint
  have hwindows := hdisjoint ⟨⟨20⟩, ⟨⟨1⟩, ⟨2⟩, none⟩, 0, seconds 60⟩
    ⟨⟨21⟩, ⟨⟨1⟩, ⟨2⟩, none⟩, seconds 10, seconds 70⟩ ?_ ?_ rfl (by decide)
  · simp [seconds] at hwindows
  · decide +kernel
  · decide +kernel

theorem not_always_noOverlap : ¬∀ (s s' : ClockedWorld) (cs : List TimedCall),
    (∀ id, s.db.decisions.find id = none) → (∀ key, s.keys.entry key = none) →
    Run Aggregates s cs s' → NoOverlap s'.db := by
  intro h
  exact overlap_late (h slowStart _ [firstCall, lateCall 400] (fun _ => rfl) (fun _ => rfl)
    (.cons aggregates_firstCall (.single (aggregates_lateCall (by decide)))))

/-- Aggregated 100 seconds later the second evidence is timely, 400 seconds later it is not. -/
theorem noOverlap_iff_timely_sample :
    NoOverlap ((slowStart.aggregate firstCall).aggregate (lateCall 100)).db ∧
      ¬Run (Where Timely Aggregates) slowStart [firstCall, lateCall 400]
        ((slowStart.aggregate firstCall).aggregate (lateCall 400)) := by
  have hrun : ∀ {secs : Int}, 0 ≤ secs → Run Aggregates slowStart [firstCall, lateCall secs]
      ((slowStart.aggregate firstCall).aggregate (lateCall secs)) := by
    intro secs hsecs
    exact .cons aggregates_firstCall (.single (aggregates_lateCall hsecs))
  constructor
  · refine (noOverlap_iff_timely (fun _ => rfl) (fun _ => rfl) (hrun (by decide))).mpr ?_
    refine .cons ⟨?_, aggregates_firstCall⟩ (.single ⟨?_, aggregates_lateCall (by decide)⟩)
    · intro e x _ hx
      obtain ⟨d, hd, -⟩ := hx
      cases hd
    · intro e x hev _ _ _
      have hfound : (slowStart.aggregate firstCall).db.evidences.find ⟨12⟩ =
          some (slowEvidence 12 10) := by decide +kernel
      obtain rfl := Option.some.inj (hfound.symm.trans hev)
      decide +kernel
  · intro htimely
    have hdisjoint := (noOverlap_iff_timely (fun _ => rfl) (fun _ => rfl)
      (hrun (by decide))).mpr htimely
    exact overlap_late hdisjoint

end ArgusServices

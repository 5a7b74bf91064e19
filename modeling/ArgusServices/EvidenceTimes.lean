import ArgusServices.EvidenceWindow

namespace ArgusServices

open Transition

/-- When the linked evidences of a decision were captured, in the order of the links. -/
def Db.capturesOf (db : Db) (id : Uuid) : List Int :=
  (db.linksOf id).filterMap fun l => (db.evidences.find l.evidenceId).map Evidence.capturedAt

/-- The two times of the row are the earliest and the latest of its evidences. -/
structure Decision.Extremes (db : Db) (d : Decision) : Prop where
  first : d.firstEvidenceAt = (db.capturesOf d.id).min?
  last : d.lastEvidenceAt = (db.capturesOf d.id).max?

instance (db : Db) (d : Decision) : Decidable (d.Extremes db) :=
  decidable_of_iff (d.firstEvidenceAt = (db.capturesOf d.id).min? ∧
      d.lastEvidenceAt = (db.capturesOf d.id).max?)
    ⟨fun h => ⟨h.1, h.2⟩, fun h => ⟨h.first, h.last⟩⟩

def TimesExtreme (w : World) : Prop :=
  ∀ id d, w.db.decisions.find id = some d → d.Extremes w.db

/-- An evidence that a call links to the open decision was not captured before the last one that
was linked to it. -/
def LinksInOrder (w : World) : Request → Prop
  | .aggregate call => ∀ evidence ∈ w.db.evidences.find call.evidenceId,
      ∀ d ∈ w.openDecision evidence, evidence.capturedAt ≤ d.windowEnd →
        w.db.linked d.id evidence.id = false →
          ∀ last ∈ d.lastEvidenceAt, last ≤ evidence.capturedAt
  | .resolve _ | .expireKey _ | .insertEvidence _ => True

instance (w : World) : ∀ r : Request, Decidable (LinksInOrder w r)
  | .aggregate call => inferInstanceAs (Decidable (
      ∀ evidence ∈ w.db.evidences.find call.evidenceId,
        ∀ d ∈ w.openDecision evidence, evidence.capturedAt ≤ d.windowEnd →
          w.db.linked d.id evidence.id = false →
            ∀ last ∈ d.lastEvidenceAt, last ≤ evidence.capturedAt))
  | .resolve _ | .expireKey _ | .insertEvidence _ => instDecidableTrue

variable {w w' : World} {db db' : Db} {call : AggregateCall} {evidence : Evidence}
  {tenant : Tenant} {d : Decision} {xs : List Int} {t : Int}

theorem max?_concat_eq_iff : (xs ++ [t]).max? = some t ↔ ∀ x ∈ xs, x ≤ t := by
  rw [List.max?_eq_some_iff]
  constructor
  · intro h x hx
    exact h.2 x (List.mem_append_left _ hx)
  · intro h
    refine ⟨List.mem_append_right _ List.mem_cons_self, ?_⟩
    intro x hx
    rcases List.mem_append.mp hx with hx | hx
    · exact h x hx
    · exact (List.mem_singleton.mp hx).le

theorem min?_concat_eq {m : Int} (hm : xs.min? = some m) (h : m ≤ t) :
    (xs ++ [t]).min? = some m := by
  rw [List.min?_eq_some_iff] at hm ⊢
  obtain ⟨hmem, hleast⟩ := hm
  refine ⟨List.mem_append_left _ hmem, ?_⟩
  intro x hx
  rcases List.mem_append.mp hx with hx | hx
  · exact hleast x hx
  · exact (List.mem_singleton.mp hx) ▸ h

theorem Decision.Extremes.frame (h : d.Extremes db) (hl : db'.linksOf d.id = db.linksOf d.id)
    (he : ∀ l ∈ db.linksOf d.id, db'.evidences.find l.evidenceId = db.evidences.find l.evidenceId) :
    d.Extremes db' := by
  have hcaptures : db'.capturesOf d.id = db.capturesOf d.id := by
    unfold Db.capturesOf
    rw [hl]
    apply List.filterMap_congr
    intro l hmem
    rw [he l hmem]
  constructor
  · rw [hcaptures]
    exact h.first
  · rw [hcaptures]
    exact h.last

theorem Committed.capturesOf_new (h : Committed call w w' evidence tenant d)
    (hnew : w.db.linked d.id evidence.id = false) :
    w'.db.capturesOf d.id = w.db.capturesOf d.id ++ [evidence.capturedAt] := by
  have hlinks := h.links
  rw [newLinks_of_new hnew] at hlinks
  have hev := w.db.evidences.keyed _ _ h.evidence_found
  unfold Db.capturesOf
  rw [linksOf_append_self hlinks, List.filterMap_append, h.evidences]
  congr 1
  have hfound : w.db.evidences.find (linkRow d evidence).evidenceId = some evidence :=
    (congrArg w.db.evidences.find hev).trans h.evidence_found
  simp [hfound]

theorem Committed.linksOf_old (h : Committed call w w' evidence tenant d) {id : Uuid}
    (hold : id ≠ d.id ∨ w.db.linked d.id evidence.id = true) :
    w'.db.linksOf id = w.db.linksOf id := by
  have hlinks := h.links
  unfold newLinks at hlinks
  split at hlinks
  · unfold Db.linksOf
    rw [hlinks, List.append_nil]
  next hnew =>
    exact linksOf_append_of_ne hlinks (hold.resolve_right hnew)

@[simp] theorem afterState_firstEvidenceAt :
    (afterState call tenant d).firstEvidenceAt = d.firstEvidenceAt := by
  unfold afterState
  split <;> rfl

@[simp] theorem afterState_lastEvidenceAt :
    (afterState call tenant d).lastEvidenceAt = d.lastEvidenceAt := by
  unfold afterState
  split <;> rfl

theorem Committed.evidence_find (h : Committed call w w' evidence tenant d) (id : Uuid) :
    w'.db.evidences.find id = w.db.evidences.find id := by
  rw [h.evidences]

theorem Committed.extremes_old (h : Committed call w w' evidence tenant d) {r r' : Decision}
    (hr : r.Extremes w.db) (hold : r.id ≠ d.id ∨ w.db.linked d.id evidence.id = true)
    (hid : r'.id = r.id) (hfirst : r'.firstEvidenceAt = r.firstEvidenceAt)
    (hlast : r'.lastEvidenceAt = r.lastEvidenceAt) : r'.Extremes w'.db := by
  have hframe := hr.frame (h.linksOf_old hold) fun l _ => h.evidence_find l.evidenceId
  constructor
  · rw [hfirst, hid]
    exact hframe.first
  · rw [hlast, hid]
    exact hframe.last

theorem Committed.extremes_new_iff (h : Committed call w w' evidence tenant d)
    (hnew : w.db.linked d.id evidence.id = false) :
    (afterState call tenant (afterLink w.db call d evidence)).Extremes w'.db ↔
      d.firstEvidenceAt.or (some evidence.capturedAt) =
          (w.db.capturesOf d.id ++ [evidence.capturedAt]).min? ∧
        ∀ t ∈ w.db.capturesOf d.id, t ≤ evidence.capturedAt := by
  have hlink := @afterLink_of_new _ call _ _ hnew
  rw [← max?_concat_eq_iff, ← h.capturesOf_new hnew]
  constructor
  · intro hextremes
    obtain ⟨hfirst, hlast⟩ := hextremes
    rw [afterState_firstEvidenceAt, afterState_id, afterLink_id, hlink] at hfirst
    rw [afterState_lastEvidenceAt, afterState_id, afterLink_id, hlink] at hlast
    exact ⟨hfirst, hlast.symm⟩
  · intro hboth
    constructor
    · rw [afterState_firstEvidenceAt, afterState_id, afterLink_id, hlink]
      exact hboth.1
    · rw [afterState_lastEvidenceAt, afterState_id, afterLink_id, hlink]
      exact hboth.2.symm

/-- Linking to a row with the right times keeps them right exactly in the order of capture. -/
theorem Committed.extremes_merge_iff (h : Committed call w w' evidence tenant d)
    (hnew : w.db.linked d.id evidence.id = false) (hd : d.Extremes w.db) :
    (afterState call tenant (afterLink w.db call d evidence)).Extremes w'.db ↔
      ∀ last ∈ d.lastEvidenceAt, last ≤ evidence.capturedAt := by
  rw [h.extremes_new_iff hnew]
  constructor
  · intro hboth last hlast
    rw [hd.last] at hlast
    exact hboth.2 last (List.max?_eq_some_iff.mp hlast).1
  · intro hguard
    have hlatest : ∀ t ∈ w.db.capturesOf d.id, t ≤ evidence.capturedAt := by
      intro t ht
      obtain ⟨last, hlast⟩ := Option.isSome_iff_exists.mp (List.isSome_max?_of_mem ht)
      have hle := (List.max?_eq_some_iff.mp hlast).2 t ht
      exact hle.trans (hguard last (hd.last.trans hlast))
    refine ⟨?_, hlatest⟩
    rw [hd.first]
    cases hmin : (w.db.capturesOf d.id).min? with
    | none =>
      rw [List.min?_eq_none_iff.mp hmin]
      rfl
    | some m =>
      rw [Option.some_or]
      exact (min?_concat_eq hmin (hlatest m (List.min?_eq_some_iff.mp hmin).1)).symm

theorem Committed.extremes_create (h : Committed call w w' evidence tenant d)
    (hsum : SummaryInvariant w.db) (hd : d = newDecision call evidence tenant)
    (hfree : w.db.decisions.find d.id = none) :
    (afterState call tenant (afterLink w.db call d evidence)).Extremes w'.db := by
  have hnone := linksOf_of_free hsum.link_decision hfree
  have hnew : w.db.linked d.id evidence.id = false := by
    rw [Bool.eq_false_iff, ne_eq, linked_iff, hnone]
    simp
  have hcaptures : w.db.capturesOf d.id = [] := by
    unfold Db.capturesOf
    rw [hnone]
    rfl
  rw [h.extremes_new_iff hnew, hcaptures, hd]
  exact ⟨rfl, by simp⟩

/-- What the calls rely on and keep, in whatever order their evidences come. -/
structure LinkInvariant (w : World) : Prop where
  summary : SummaryInvariant w.db
  tenant : w.db.Tenanted

theorem LinkInvariant.initial (h : w.Initial) : LinkInvariant w :=
  ⟨.initial h, .initial h⟩

theorem LinkInvariant.serve (h : LinkInvariant w) (r : Request) : LinkInvariant (serve w r) :=
  ⟨h.summary.serve r, h.tenant.serve r⟩

theorem Committed.extremes_row (h : Committed call w w' evidence tenant d)
    (hsum : SummaryInvariant w.db) (hx : TimesExtreme w)
    (hg : LinksInOrder w (.aggregate call)) :
    (afterState call tenant (afterLink w.db call d evidence)).Extremes w'.db := by
  rcases h.target.found with ⟨hopen, hle, hrow⟩ | ⟨hd, -, hfree⟩
  · have hd := hx _ _ hrow
    cases hlinked : w.db.linked d.id evidence.id with
    | true =>
      rw [afterLink_of_linked hlinked]
      exact h.extremes_old hd (Or.inr hlinked) (by simp) (by simp) (by simp)
    | false =>
      rw [h.extremes_merge_iff hlinked hd]
      exact hg evidence h.evidence_found d hopen hle hlinked
  · exact h.extremes_create hsum hd hfree

theorem TimesExtreme.committed (hx : TimesExtreme w) (hsum : SummaryInvariant w.db)
    (hg : LinksInOrder w (.aggregate call)) (h : Committed call w w' evidence tenant d) :
    TimesExtreme w' := by
  intro id r hr
  rw [h.find] at hr
  split at hr
  next =>
    obtain rfl := Option.some.inj hr
    exact h.extremes_row hsum hx hg
  next hne =>
    have hid := w.db.decisions.keyed _ _ hr
    exact h.extremes_old (hx id r hr) (Or.inl (hid ▸ hne)) rfl rfl rfl

theorem TimesExtreme.resolved {call : ResolveCall} (hx : TimesExtreme w)
    (h : Resolved call w w' d) : TimesExtreme w' := by
  intro id r hr
  have hlinks : w'.db.linksOf = w.db.linksOf := by
    rw [h.world]
    rfl
  have hevidences : w'.db.evidences = w.db.evidences := by
    rw [h.world]
    rfl
  have hsame : ∀ r : Decision, r.Extremes w.db → r.Extremes w'.db := by
    intro r hr
    exact hr.frame (by rw [hlinks]) fun _ _ => by rw [hevidences]
  rw [h.find] at hr
  split at hr
  next =>
    obtain rfl := Option.some.inj hr
    have hd := hsame d (hx _ d h.found)
    exact ⟨hd.first, hd.last⟩
  next => exact hsame r (hx id r hr)

theorem TimesExtreme.arrived (hx : TimesExtreme w) (hsum : SummaryInvariant w.db)
    (hfree : w.db.evidences.find evidence.id = none) :
    TimesExtreme { w with db := { w.db with evidences := w.db.evidences.put evidence } } := by
  intro id r hr
  refine (hx id r hr).frame rfl ?_
  intro l hl
  obtain ⟨e, he⟩ := hsum.link_evidence l (List.mem_filter.mp hl).1
  refine KeyedTable.find_put_of_ne _ ?_
  intro heq
  rw [heq, hfree] at he
  cases he

/-- Every request that links in order keeps the times of all decisions right, whatever raises. -/
theorem TimesExtreme.serve {r : Request} (hx : TimesExtreme w) (hi : LinkInvariant w)
    (hg : LinksInOrder w r) : TimesExtreme (serve w r) := by
  refine serve_keeps (I := fun db => ∀ id d, db.decisions.find id = some d → d.Extremes db)
    hx ?_ ?_ ?_
  · intro call w' evidence tenant d hcall hc
    subst hcall
    exact hx.committed hi.summary hg hc
  · intro call w' d _ hr
    exact hx.resolved hr
  · intro evidence hfree
    exact hx.arrived hi.summary hfree

/-- An undisturbed call that links out of order leaves a row with a wrong last time. -/
theorem LinkInvariant.not_timesExtreme {r : Request} (hi : LinkInvariant w) (hx : TimesExtreme w)
    (hr : Undisturbed w r) (hg : ¬LinksInOrder w r) : ¬TimesExtreme (ArgusServices.serve w r) := by
  cases r with
  | aggregate call =>
    simp only [LinksInOrder, Classical.not_forall, Option.mem_def] at hg
    obtain ⟨evidence, hev, d, hopen, hle, hnew, last, hlast, hlate⟩ := hg
    obtain ⟨hrow, hten, -⟩ := World.openDecision_spec hopen
    obtain ⟨tenant, htn⟩ := hi.tenant d hrow
    have hc := aggregate_merges hr hev (hten ▸ htn) hopen hle
    intro hafter
    have hiff := hc.extremes_merge_iff hnew (hx _ d hrow)
    have hextremes := hafter d.id _ ((hc.find d.id).trans (if_pos rfl))
    exact hlate (hiff.mp hextremes last hlast)
  | resolve call => exact absurd trivial hg
  | expireKey key => exact absurd trivial hg
  | insertEvidence evidence => exact absurd trivial hg

theorem TimesExtreme.initial (h : w.Initial) : TimesExtreme w := by
  intro id d hd
  rw [h.decisions id] at hd
  cases hd

/-- While every call links in the order of capture, the two times of every decision are the
earliest and the latest of its evidences in every state, whatever raises. If nothing raises, these
are the only runs in which they are so throughout. -/
theorem timesExtreme_iff_linksInOrder {rs : List Request} (hw : w.Initial) :
    (Run (Where LinksInOrder Served) w rs w' → Run (Into TimesExtreme Served) w rs w') ∧
      (Run (Into TimesExtreme (Where Undisturbed Served)) w rs w' ↔
        Run (Where LinksInOrder (Where Undisturbed Served)) w rs w') := by
  constructor
  · intro h
    refine h.into_of_where (I := LinkInvariant) ?_ (.initial hw) (.initial hw)
    intro w r w' hi hx hg hstep
    obtain rfl := hstep
    exact ⟨hi.serve r, hx.serve hi hg⟩
  · refine Run.into_iff_where (I := LinkInvariant) ?_ ?_ (.initial hw) (.initial hw)
    · intro w r w' hi hstep
      exact hstep.2 ▸ hi.serve r
    · intro w r w' hi hx hstep
      obtain ⟨hr, rfl⟩ := hstep
      constructor
      · intro hafter
        by_contra hg
        exact hi.not_timesExtreme hx hr hg hafter
      · intro hg
        exact hx.serve hi hg

theorem late_not_timesExtreme : ¬TimesExtreme (minuteEnd 10 0) := by
  intro hx
  obtain ⟨d, hd, hlast⟩ := Option.map_eq_some_iff.mp
    (by decide +kernel : ((minuteEnd 10 0).db.decisions.find ⟨20⟩).map (fun d =>
      decide (d.Extremes (minuteEnd 10 0).db)) = some false)
  exact of_decide_eq_false hlast (hx _ d hd)

/-- An evidence from before the one a decision was created for. -/
theorem not_always_timesExtreme : ¬∀ (w w' : World) (calls : List AggregateCall), w.Initial →
    w.db.TenantsAdmitted → Run (Where Undisturbed Served) w (calls.map Request.aggregate) w' →
      TimesExtreme w' := by
  intro h
  exact late_not_timesExtreme (h _ _ minuteCalls (admittedWorld_initial _)
    (admittedWorld_admitted _) (run_serve_where (by decide +kernel)))

/-- In the order of capture the times of the decision are right, the other way round they are
not. -/
theorem timesExtreme_iff_linksInOrder_sample :
    Run (Into TimesExtreme Served) (minuteWorld 0 10) (minuteCalls.map Request.aggregate)
        (minuteEnd 0 10) ∧
      ¬Run (Where LinksInOrder (Where Undisturbed Served)) (minuteWorld 10 0)
        (minuteCalls.map Request.aggregate) (minuteEnd 10 0) := by
  constructor
  · exact (timesExtreme_iff_linksInOrder (admittedWorld_initial _)).1
      (run_serve_where (by decide +kernel))
  · intro h
    have hinto := (timesExtreme_iff_linksInOrder (admittedWorld_initial _)).2.mpr h
    have hx : TimesExtreme (minuteEnd 10 0) :=
      hinto.invariant (fun _ _ _ _ hstep => hstep.2) (.initial (admittedWorld_initial _))
    exact late_not_timesExtreme hx

end ArgusServices

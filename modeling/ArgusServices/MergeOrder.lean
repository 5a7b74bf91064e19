import ArgusServices.EvidenceWindow
import Mathlib.Data.List.Nodup

namespace ArgusServices

open Transition

/-- Nothing fails the call, and the open decision of its evidence is this one and takes it. -/
structure AggregateCall.MergesInto (call : AggregateCall) (w : World) (d : Decision) : Prop where
  undisturbed : call.raisesAt = none
  taken : ∃ evidence, w.db.evidences.find call.evidenceId = some evidence ∧
    w.openDecision evidence = some d ∧ evidence.capturedAt ≤ d.windowEnd

/-- The evidences that a decision gets in the calls for these ids, each once. -/
structure NewEvidences (w : World) (d : Decision) (ids : List Uuid) (added : List Evidence) :
    Prop where
  nodup : added.Nodup
  mem_iff : ∀ e, e ∈ added ↔ w.db.evidences.find e.id = some e ∧ e.id ∈ ids ∧
    w.db.linked d.id e.id = false

/-- The row of the decision once these evidences have been added to it. -/
structure Decision.Gains (d : Decision) (added : List Evidence) (r : Decision) : Prop where
  id : r.id = d.id
  tenantId : r.tenantId = d.tenantId
  windowEnd : r.windowEnd = d.windowEnd
  evidenceCount : r.evidenceCount = d.evidenceCount + added.length
  cumulativeSeverity : r.cumulativeSeverity =
    d.cumulativeSeverity + (added.map Evidence.severityScore).sum

/-- The state after calls for these ids that merge into the decision. -/
structure Absorbed (w : World) (tenant : Tenant) (d : Decision) (ids : List Uuid)
    (added : List Evidence) (w' : World) : Prop where
  new : NewEvidences w d ids added
  keys : w'.keys = w.keys
  evidences : w'.db.evidences = w.db.evidences
  tenants : w'.db.tenants = w.db.tenants
  links : w'.db.decisionEvidences = w.db.decisionEvidences ++ added.map (linkRow d)
  row : ∃ r, w'.db.decisions.find d.id = some r ∧ d.Gains added r ∧
    (ids ≠ [] → r.state = computeState r tenant)

/-- Two states have the same links, and the same count, sum and state of the decision. -/
structure SameMerge (id : Uuid) (w₁ w₂ : World) : Prop where
  links : w₁.db.decisionEvidences.Perm w₂.db.decisionEvidences
  row : ∃ r₁ r₂, w₁.db.decisions.find id = some r₁ ∧ w₂.db.decisions.find id = some r₂ ∧
    r₁.evidenceCount = r₂.evidenceCount ∧ r₁.cumulativeSeverity = r₂.cumulativeSeverity ∧
      r₁.state = r₂.state

variable {w w' v : World} {call : AggregateCall} {calls : List AggregateCall}
  {evidence : Evidence} {tenant : Tenant} {d r : Decision} {ids ids' : List Uuid}
  {added added' : List Evidence}

theorem NewEvidences.nil (w : World) (d : Decision) : NewEvidences w d [] [] :=
  ⟨List.nodup_nil, by simp⟩

/-- An evidence that is linked already, or was added, is not added again. -/
theorem NewEvidences.again (h : NewEvidences w d ids added)
    (hev : w.db.evidences.find evidence.id = some evidence)
    (hold : w.db.linked d.id evidence.id = true ∨ evidence ∈ added) :
    NewEvidences w d (ids ++ [evidence.id]) added := by
  refine ⟨h.nodup, ?_⟩
  intro e
  rw [h.mem_iff]
  constructor
  · intro he
    obtain ⟨hfound, hmem, hnew⟩ := he
    exact ⟨hfound, List.mem_append_left _ hmem, hnew⟩
  · intro he
    obtain ⟨hfound, hmem, hnew⟩ := he
    rcases List.mem_append.mp hmem with hmem | hmem
    · exact ⟨hfound, hmem, hnew⟩
    · have hid := List.mem_singleton.mp hmem
      rw [hid] at hfound hnew ⊢
      obtain rfl := Option.some.inj (hfound.symm.trans hev)
      rcases hold with hlinked | hadded
      · rw [hlinked] at hnew
        cases hnew
      · exact (h.mem_iff e).mp hadded

theorem NewEvidences.concat (h : NewEvidences w d ids added)
    (hev : w.db.evidences.find evidence.id = some evidence)
    (hnew : w.db.linked d.id evidence.id = false) (hadded : evidence ∉ added) :
    NewEvidences w d (ids ++ [evidence.id]) (added ++ [evidence]) := by
  constructor
  · exact List.nodup_append.mpr ⟨h.nodup, List.nodup_singleton _, by
      intro a ha b hb heq
      rw [List.mem_singleton] at hb
      exact hadded (hb ▸ heq ▸ ha)⟩
  · intro e
    rw [List.mem_append, List.mem_append, h.mem_iff, List.mem_singleton, List.mem_singleton]
    constructor
    · intro he
      rcases he with ⟨hfound, hmem, hunlinked⟩ | rfl
      · exact ⟨hfound, Or.inl hmem, hunlinked⟩
      · exact ⟨hev, Or.inr rfl, hnew⟩
    · intro he
      obtain ⟨hfound, hmem | hid, hunlinked⟩ := he
      · exact Or.inl ⟨hfound, hmem, hunlinked⟩
      · rw [hid] at hfound
        exact Or.inr (Option.some.inj (hfound.symm.trans hev))

/-- Which evidences are added depends on which ids there are only, up to the order. -/
theorem NewEvidences.perm (h : NewEvidences w d ids added) (h' : NewEvidences w d ids' added')
    (hsame : ∀ id, id ∈ ids ↔ id ∈ ids') : added.Perm added' := by
  rw [List.perm_ext_iff_of_nodup h.nodup h'.nodup]
  intro e
  rw [h.mem_iff, h'.mem_iff, hsame]

theorem linked_eq_true_iff {db : Db} {decisionId evidenceId : Uuid} :
    db.linked decisionId evidenceId = true ↔
      ∃ l ∈ db.decisionEvidences, l.decisionId = decisionId ∧ l.evidenceId = evidenceId := by
  simp [Db.linked]

/-- What is linked after the calls was linked before, or is one of the evidences added. -/
theorem Absorbed.linked_iff (h : Absorbed w tenant d ids added v)
    (hev : w.db.evidences.find evidence.id = some evidence) :
    v.db.linked d.id evidence.id = true ↔
      w.db.linked d.id evidence.id = true ∨ evidence ∈ added := by
  rw [linked_eq_true_iff, linked_eq_true_iff, h.links]
  constructor
  · intro hlinked
    obtain ⟨l, hl, hdecision, hevidence⟩ := hlinked
    rcases List.mem_append.mp hl with hl | hl
    · exact Or.inl ⟨l, hl, hdecision, hevidence⟩
    · obtain ⟨e, he, rfl⟩ := List.mem_map.mp hl
      have hfound := ((h.new.mem_iff e).mp he).1
      have hid : e.id = evidence.id := hevidence
      rw [hid, hev] at hfound
      exact Or.inr (Option.some.inj hfound ▸ he)
  · intro hlinked
    rcases hlinked with ⟨l, hl, hboth⟩ | hadded
    · exact ⟨l, List.mem_append_left _ hl, hboth⟩
    · exact ⟨linkRow d evidence,
        List.mem_append_right _ (List.mem_map_of_mem hadded), rfl, rfl⟩

theorem Absorbed.initial (hd : w.db.decisions.find d.id = some d) :
    Absorbed w tenant d [] [] w where
  new := .nil w d
  keys := rfl
  evidences := rfl
  tenants := rfl
  links := (List.append_nil _).symm
  row := ⟨d, hd, ⟨rfl, rfl, rfl, by simp, by simp⟩, fun h => absurd rfl h⟩

theorem Absorbed.openDecision (h : Absorbed w tenant d ids added v)
    (hr : v.db.decisions.find d.id = some r) (hten : r.tenantId = d.tenantId)
    (hopen : w.openDecision evidence = some d) : v.openDecision evidence = some r := by
  unfold World.openDecision at hopen ⊢
  rw [h.keys]
  obtain ⟨raw, hraw, hopen⟩ := Option.bind_eq_some_iff.mp hopen
  obtain ⟨id, hid, hopen⟩ := Option.bind_eq_some_iff.mp hopen
  obtain ⟨hfound, htenant⟩ := Option.filter_eq_some_iff.mp hopen
  have hkey := w.db.decisions.keyed _ _ hfound
  refine Option.bind_eq_some_iff.mpr ⟨raw, hraw, Option.bind_eq_some_iff.mpr ⟨id, hid, ?_⟩⟩
  refine Option.filter_eq_some_iff.mpr ⟨hkey ▸ hr, ?_⟩
  rw [hten]
  exact htenant

theorem Decision.Gains.afterState (h : d.Gains added r) (call : AggregateCall)
    (tenant : Tenant) : d.Gains added (afterState call tenant r) where
  id := (afterState_id _ _ _).trans h.id
  tenantId := (afterState_tenantId _ _ _).trans h.tenantId
  windowEnd := (afterState_windowEnd _ _ _).trans h.windowEnd
  evidenceCount := (afterState_evidenceCount _ _ _).trans h.evidenceCount
  cumulativeSeverity := (afterState_cumulativeSeverity _ _ _).trans h.cumulativeSeverity

theorem Decision.Gains.addEvidence (h : d.Gains added r) (evidence : Evidence) (now : Int) :
    d.Gains (added ++ [evidence]) { r.addEvidence evidence with updatedAt := now } where
  id := h.id
  tenantId := h.tenantId
  windowEnd := h.windowEnd
  evidenceCount := by
    simp only [Decision.addEvidence, h.evidenceCount, List.length_append, List.length_singleton]
    omega
  cumulativeSeverity := by
    simp only [Decision.addEvidence, h.cumulativeSeverity, List.map_append, List.sum_append,
      List.map_cons, List.map_nil, List.sum_singleton]
    omega

/-- Linking adds the evidence unless it is linked, and then the state is worked out. -/
theorem Absorbed.committed (h : Absorbed w tenant d ids added v)
    (hgains : d.Gains added r)
    (hev : w.db.evidences.find evidence.id = some evidence) (hkeys : w'.keys = v.keys)
    (hc : Committed call v w' evidence tenant r) :
    ∃ added', Absorbed w tenant d (ids ++ [evidence.id]) added' w' := by
  have hfind := (hc.find d.id).trans (if_pos hgains.id.symm)
  have hstate : ∀ r', (afterState call tenant r').state =
      computeState (afterState call tenant r') tenant := by
    intro r'
    rw [afterState_state]
    exact (computeState_congr (by simp) (by simp)).symm
  have hlinks := hc.links
  cases hlinked : v.db.linked r.id evidence.id with
  | true =>
    have hold := (h.linked_iff hev).mp (hgains.id ▸ hlinked)
    rw [afterLink_of_linked hlinked] at hfind
    rw [newLinks_of_linked hlinked, List.append_nil] at hlinks
    exact ⟨added, {
      new := h.new.again hev hold
      keys := hkeys.trans h.keys
      evidences := hc.evidences.trans h.evidences
      tenants := hc.tenants.trans h.tenants
      links := hlinks.trans h.links
      row := ⟨_, hfind, hgains.afterState call tenant, fun _ => hstate r⟩ }⟩
  | false =>
    have hnew : ¬(w.db.linked d.id evidence.id = true ∨ evidence ∈ added) := by
      rw [← h.linked_iff hev, ← hgains.id, hlinked]
      exact Bool.false_ne_true
    rw [afterLink_of_new hlinked] at hfind
    rw [newLinks_of_new hlinked] at hlinks
    have hlink : linkRow r evidence = linkRow d evidence := by
      unfold linkRow
      rw [hgains.id]
    exact ⟨added ++ [evidence], {
      new := h.new.concat hev (by simpa using fun hx => hnew (Or.inl hx)) fun hx =>
        hnew (Or.inr hx)
      keys := hkeys.trans h.keys
      evidences := hc.evidences.trans h.evidences
      tenants := hc.tenants.trans h.tenants
      links := by
        rw [hlinks, h.links, hlink, List.map_append, List.append_assoc]
        rfl
      row := ⟨_, hfind, (hgains.addEvidence evidence call.now).afterState call tenant,
        fun _ => hstate _⟩ }⟩

theorem Absorbed.step (h : Absorbed w tenant d ids added v) (hcall : call.MergesInto w d)
    (htn : w.db.tenants.find d.tenantId = some tenant) :
    ∃ added', Absorbed w tenant d (ids ++ [call.evidenceId]) added' (aggregate call v).2 := by
  obtain ⟨hr, evidence, hev, hopen, hle⟩ := hcall
  obtain ⟨r, hrow, hgains, -⟩ := h.row
  have hkey := w.db.evidences.keyed _ _ hev
  have hten := (World.openDecision_spec hopen).2.1
  have hc : Committed call v (aggregate call v).2 evidence tenant r := by
    refine aggregate_merges hr ?_ ?_ (h.openDecision hrow hgains.tenantId hopen) ?_
    · rw [h.evidences]
      exact hev
    · rw [h.tenants, ← hten]
      exact htn
    · rw [hgains.windowEnd]
      exact hle
  have hkeys : (aggregate call v).2.keys = v.keys := by
    rcases hc.target.spec with ⟨-, -, hkeys⟩ | ⟨-, hun, -⟩
    · exact hkeys
    · have hlate := hun r (h.openDecision hrow hgains.tenantId hopen)
      rw [hgains.windowEnd] at hlate
      omega
  rw [← hkey]
  exact h.committed hgains (hkey ▸ hev) hkeys hc

theorem Absorbed.run (h : Absorbed w tenant d ids added v)
    (hcalls : ∀ call ∈ calls, call.MergesInto w d)
    (htn : w.db.tenants.find d.tenantId = some tenant)
    (hrun : Run Served v (calls.map Request.aggregate) w') :
    ∃ added', Absorbed w tenant d (ids ++ calls.map AggregateCall.evidenceId) added' w' := by
  induction calls generalizing v ids added with
  | nil =>
    cases hrun
    exact ⟨added, by simpa using h⟩
  | cons call calls ih =>
    obtain ⟨_, hstep, hrest⟩ : ∃ u, Served v (.aggregate call) u ∧
        Run Served u (calls.map Request.aggregate) w' := by
      cases hrun with
      | cons hstep hrest => exact ⟨_, hstep, hrest⟩
    obtain rfl := hstep
    obtain ⟨more, hmore⟩ := h.step (hcalls call List.mem_cons_self) htn
    have hend := ih hmore (fun c hc => hcalls c (List.mem_cons_of_mem _ hc)) hrest
    rwa [List.append_assoc] at hend

theorem sameMerge_of_perm (hne : ids ≠ []) (hne' : ids' ≠ []) {w₁ w₂ : World}
    (h₁ : Absorbed w tenant d ids added w₁) (h₂ : Absorbed w tenant d ids' added' w₂)
    (hperm : added.Perm added') : SameMerge d.id w₁ w₂ := by
  obtain ⟨r₁, hrow₁, hgains₁, hstate₁⟩ := h₁.row
  obtain ⟨r₂, hrow₂, hgains₂, hstate₂⟩ := h₂.row
  have hcount : r₁.evidenceCount = r₂.evidenceCount := by
    rw [hgains₁.evidenceCount, hgains₂.evidenceCount, hperm.length_eq]
  have hsum : r₁.cumulativeSeverity = r₂.cumulativeSeverity := by
    rw [hgains₁.cumulativeSeverity, hgains₂.cumulativeSeverity, (hperm.map _).sum_eq]
  constructor
  · rw [h₁.links, h₂.links]
    exact (hperm.map _).append_left _
  · refine ⟨r₁, r₂, hrow₁, hrow₂, hcount, hsum, ?_⟩
    rw [hstate₁ hne, hstate₂ hne']
    exact computeState_congr hcount hsum

/-- Two runs of calls that merge evidences into the same open decision end with the same links,
count, sum and state of it if the same evidences occur in both, in whatever order and however
often. -/
theorem merges_commute {calls₁ calls₂ : List AggregateCall} {w₁ w₂ : World}
    (htn : w.db.tenants.find d.tenantId = some tenant)
    (hcalls₁ : ∀ call ∈ calls₁, call.MergesInto w d)
    (hcalls₂ : ∀ call ∈ calls₂, call.MergesInto w d) (hne : calls₁ ≠ []) (hne' : calls₂ ≠ [])
    (hsame : ∀ id, id ∈ calls₁.map AggregateCall.evidenceId ↔
      id ∈ calls₂.map AggregateCall.evidenceId)
    (h₁ : Run Served w (calls₁.map Request.aggregate) w₁)
    (h₂ : Run Served w (calls₂.map Request.aggregate) w₂) : SameMerge d.id w₁ w₂ := by
  obtain ⟨first, rest, rfl⟩ := List.exists_cons_of_ne_nil hne
  obtain ⟨evidence, -, hopen, -⟩ := (hcalls₁ first List.mem_cons_self).taken
  have hd := (World.openDecision_spec hopen).1
  obtain ⟨added₁, hend₁⟩ := (Absorbed.initial hd).run hcalls₁ htn h₁
  obtain ⟨added₂, hend₂⟩ := (Absorbed.initial hd).run hcalls₂ htn h₂
  rw [List.nil_append] at hend₁ hend₂
  refine sameMerge_of_perm (by simp) ?_ hend₁ hend₂ (hend₁.new.perm hend₂.new hsame)
  rw [ne_eq, List.map_eq_nil_iff]
  exact hne'

/-- A decision with one evidence, and two more of its camera. -/
def openWorld : World :=
  serve (sampleWorld
      [sampleEvidence 10 none 4, sampleEvidence 11 none 7, sampleEvidence 12 none (-2)])
    (.aggregate (sampleAggregate 10 20))

def openEnd (calls : List AggregateCall) : World :=
  (calls.map Request.aggregate).foldl serve openWorld

/-- The two evidences in either order, one of them twice. -/
theorem merges_commute_sample : SameMerge ⟨20⟩
    (openEnd [sampleAggregate 11 21, sampleAggregate 12 22, sampleAggregate 11 23])
    (openEnd [sampleAggregate 12 24, sampleAggregate 11 25]) := by
  obtain ⟨d, hopen, hd⟩ := (Option.any_eq_true _ _).mp
    (by decide +kernel : (openWorld.openDecision (sampleEvidence 11 none 7)).any (fun d =>
      d.id = ⟨20⟩ ∧ d.tenantId = ⟨1⟩ ∧ 0 ≤ d.windowEnd) = true)
  obtain ⟨hid, hten, hend⟩ := of_decide_eq_true hd
  have hfirst : ∀ newId, (sampleAggregate 11 newId).MergesInto openWorld d :=
    fun newId => ⟨rfl, _, rfl, hopen, hend⟩
  have hsecond : ∀ newId, (sampleAggregate 12 newId).MergesInto openWorld d :=
    fun newId => ⟨rfl, sampleEvidence 12 none (-2), rfl, hopen, hend⟩
  rw [← hid]
  refine merges_commute (?_ : _ = some sampleTenant) ?_ ?_ ?_ ?_ ?_ (run_serve _ _) (run_serve _ _)
  · rw [hten]
    rfl
  · simp only [List.forall_mem_cons]
    exact ⟨hfirst 21, hsecond 22, hfirst 23, by simp⟩
  · simp only [List.forall_mem_cons]
    exact ⟨hsecond 24, hfirst 25, by simp⟩
  · simp
  · simp
  · intro id
    simp only [List.map_cons, List.map_nil, List.mem_cons, List.not_mem_nil, sampleAggregate]
    grind

end ArgusServices

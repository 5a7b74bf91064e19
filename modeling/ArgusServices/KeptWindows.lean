import ArgusServices.GreedyWindows

namespace ArgusServices

variable {db db' : Db} {p : Place} {width : Int} {ps : List (Decision × Segment Evidence)}
  {w₀ w v : World} {calls : List AggregateCall}

/-- A change of a row in nothing that windows are about. -/
structure KeepsWindow (f : Decision → Decision) : Prop where
  id : ∀ r, (f r).id = r.id
  place : ∀ r, (f r).place = r.place
  windowStart : ∀ r, (f r).windowStart = r.windowStart
  windowEnd : ∀ r, (f r).windowEnd = r.windowEnd

theorem KeepsWindow.refl : KeepsWindow fun r => r :=
  ⟨fun _ => rfl, fun _ => rfl, fun _ => rfl, fun _ => rfl⟩

theorem keepsWindow_resolve (call : ResolveCall) (id : Uuid) :
    KeepsWindow fun r => if r.id = id then resolvedRow call r else r := by
  refine ⟨?_, ?_, ?_, ?_⟩ <;> intro r <;> split <;> rfl

theorem Windows.map_rows (hw : Windows db p width ps) {f : Decision → Decision}
    (hf : KeepsWindow f) (hrows : ∀ id, db'.decisions.find id = (db.decisions.find id).map f)
    (hlinks : db'.decisionEvidences = db.decisionEvidences) :
    Windows db' p width (ps.map fun x => (f x.1, x.2)) := by
  have hfst : (ps.map fun x => (f x.1, x.2)).map Prod.fst = (ps.map Prod.fst).map f := by
    rw [List.map_map, List.map_map]
    rfl
  have hlinksOf : ∀ id, db'.linksOf id = db.linksOf id := by
    intro id
    unfold Db.linksOf
    rw [hlinks]
  refine ⟨?_, ?_, ?_, ?_, ?_⟩
  · intro r
    rw [hfst, List.mem_map, hrows, Option.map_eq_some_iff]
    constructor
    · intro hr
      obtain ⟨d, hd, rfl⟩ := hr
      obtain ⟨hfind, hd⟩ := (hw.rows d).mp hd
      rw [hf.id, hf.place]
      exact ⟨⟨d, hfind, rfl⟩, hd⟩
    · intro hr
      obtain ⟨⟨d, hfind, rfl⟩, hd⟩ := hr
      rw [hf.id] at hfind
      rw [hf.place] at hd
      exact ⟨d, (hw.rows d).mpr ⟨hfind, hd⟩, rfl⟩
  · rw [List.map_map]
    refine Eq.mp (congrArg List.Nodup ?_) hw.nodup
    exact List.map_congr_left fun x _ => (hf.id x.1).symm
  · intro x hx
    obtain ⟨y, hy, rfl⟩ := List.mem_map.mp hx
    exact (hf.windowStart y.1).trans (hw.windowStart y hy)
  · intro x hx
    obtain ⟨y, hy, rfl⟩ := List.mem_map.mp hx
    exact (hf.windowEnd y.1).trans (hw.windowEnd y hy)
  · intro x hx
    obtain ⟨y, hy, rfl⟩ := List.mem_map.mp hx
    dsimp only
    rw [hf.id, hlinksOf]
    exact hw.links y hy

/-- The windows after a change of the decisions that keeps theirs. -/
theorem History.rebase (hh : History w₀ w calls) {f : Decision → Decision} (hf : KeepsWindow f)
    (hrows : ∀ id, v.db.decisions.find id = (w.db.decisions.find id).map f)
    (hlinks : v.db.decisionEvidences = w.db.decisionEvidences)
    (htenants : v.db.tenants = w₀.db.tenants)
    (hkeys : ∀ e, v.keys (openDecisionKey e) = w.keys (openDecisionKey e))
    (hevidences : v.evidencesOf calls = w₀.evidencesOf calls) : History v v calls := by
  have hwidth : ∀ p, v.widthAt p = w₀.widthAt p := by
    intro p
    unfold World.widthAt
    rw [htenants]
  refine ⟨rfl, rfl, ?_, ?_, ?_, ?_⟩
  · intro p
    obtain ⟨ps, hsegments, hw, hpoints⟩ := hh.windows p
    refine ⟨ps.map fun x => (f x.1, x.2), ?_, ?_, ?_⟩
    · rw [List.map_map]
      unfold World.segmentsAt at hsegments ⊢
      rw [hevidences, hwidth]
      exact hsegments
    · rw [hwidth]
      exact hw.map_rows hf hrows hlinks
    · intro e he
      rw [hkeys, hpoints e he, List.getLast?_map, Option.map_map]
      refine Option.map_congr fun x _ => ?_
      simp only [Function.comp_apply, hf.id]
  · rw [hlinks]
    exact hh.linked
  · intro l hl
    rw [hlinks] at hl
    obtain ⟨d, hd⟩ := hh.link_decision l hl
    exact ⟨f d, by rw [hrows, hd]; rfl⟩
  · intro id r hr
    rw [hrows] at hr
    obtain ⟨d, hd, -⟩ := Option.map_eq_some_iff.mp hr
    exact hh.ids id d hd

/-- What happens to other tables and keys is nothing to the windows. -/
theorem History.carry (hh : History w₀ w calls) (hdecisions : v.db.decisions = w.db.decisions)
    (hlinks : v.db.decisionEvidences = w.db.decisionEvidences)
    (htenants : v.db.tenants = w₀.db.tenants)
    (hkeys : ∀ e, v.keys (openDecisionKey e) = w.keys (openDecisionKey e))
    (hevidences : v.evidencesOf calls = w₀.evidencesOf calls) : History v v calls := by
  refine hh.rebase .refl ?_ hlinks htenants hkeys hevidences
  intro id
  rw [hdecisions, Option.map_id']

theorem Resolved.rows {call : ResolveCall} {w' : World} {d : Decision}
    (h : Resolved call w w' d) (id : Uuid) : w'.db.decisions.find id =
      (w.db.decisions.find id).map fun r => if r.id = d.id then resolvedRow call r else r := by
  have hself : w.db.decisions.find d.id = some d :=
    (w.db.decisions.keyed _ _ h.found).symm ▸ h.found
  by_cases hid : id = d.id
  · rw [h.find, if_pos hid, hid, hself, Option.map_some, if_pos rfl]
  · rw [h.find, if_neg hid]
    cases hr : w.db.decisions.find id with
    | none => rfl
    | some r =>
      have hne : r.id ≠ d.id := (w.db.decisions.keyed _ _ hr).symm ▸ hid
      rw [Option.map_some, if_neg hne]

/-- A resolution changes the state of its decision and nothing the windows are about. -/
theorem History.resolve (hh : History w w calls) (call : ResolveCall)
    (hdecisions : v.db.decisions = (resolveDecision call w).2.db.decisions)
    (hlinks : v.db.decisionEvidences = (resolveDecision call w).2.db.decisionEvidences)
    (hkeys : v.keys = (resolveDecision call w).2.keys) (htenants : v.db.tenants = w.db.tenants)
    (hevidences : v.db.evidences = w.db.evidences) : History v v calls := by
  have hevidencesOf : v.evidencesOf calls = w.evidencesOf calls := by
    unfold World.evidencesOf
    rw [hevidences]
  rcases resolveDecision_cases call w with hr | ⟨d, hr⟩
  · have hsame : (resolveDecision call w).2.keys = w.keys := by
      generalize (resolveDecision call w).2 = u at hr
      cases hr <;> rfl
    refine hh.carry ?_ ?_ htenants ?_ hevidencesOf
    · rw [hdecisions, hr.db]
    · rw [hlinks, hr.db]
    · intro e
      rw [hkeys, hsame]
  · refine hh.rebase (keepsWindow_resolve call d.id) ?_ ?_ htenants ?_ hevidencesOf
    · intro id
      rw [hdecisions, hr.rows]
    · rw [hlinks, hr.world]
      rfl
    · intro e
      rw [hkeys, hr.world]

end ArgusServices

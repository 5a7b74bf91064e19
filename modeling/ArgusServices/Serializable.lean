import ArgusServices.OwnTurns

namespace ArgusServices

open Relation Transition

variable {ι : Type} {calls : ι → AggregateCall} {w v u : World}

/-- What each call may touch, and under `none` what none of them does. -/
def scopeOf (calls : ι → AggregateCall) (db : Db) : Option ι → Scope
  | some i =>
    { keys := {key | ∃ evidence, db.evidences.find (calls i).evidenceId = some evidence ∧
        key = openDecisionKey evidence}
      ids := {id | (∀ j, (calls j).newId = id → j = i) ∧
        ∀ d, db.decisions.find id = some d → ∃ evidence,
          db.evidences.find (calls i).evidenceId = some evidence ∧ d.place = evidence.place}
      held := {id | id = (calls i).newId ∨ ∃ d evidence, db.decisions.find id = some d ∧
        db.evidences.find (calls i).evidenceId = some evidence ∧ d.place = evidence.place} }
  | none =>
    { keys := {key | ∀ i evidence, db.evidences.find (calls i).evidenceId = some evidence →
        key ≠ openDecisionKey evidence}
      ids := {id | ∀ i, id ≠ (calls i).newId ∧ ∀ d evidence, db.decisions.find id = some d →
        db.evidences.find (calls i).evidenceId = some evidence → d.place ≠ evidence.place}
      held := ∅ }

/-- The evidences of the calls come from places of their own. -/
def PlacesDiffer (calls : ι → AggregateCall) (db : Db) : Prop :=
  ∀ i j evidence evidence', i ≠ j → db.evidences.find (calls i).evidenceId = some evidence →
    db.evidences.find (calls j).evidenceId = some evidence' → evidence.place ≠ evidence'.place

/-- An id no row and no open key holds. -/
def World.FreshId (w : World) (id : Uuid) : Prop :=
  w.db.decisions.find id = none ∧ ∀ evidence, w.keyId evidence ≠ some id

/-- The open key of a place leads to decisions of that place. -/
def World.KeysLeadHome (w : World) : Prop :=
  ∀ evidence id d, w.keyId evidence = some id → w.db.decisions.find id = some d →
    d.place = evidence.place

theorem apart_scopeOf {db : Db} (hids : ∀ i j, (calls i).newId = (calls j).newId → i = j)
    (hplaces : PlacesDiffer calls db) (hfresh : ∀ i, db.decisions.find (calls i).newId = none) :
    Apart (scopeOf calls db) where
  held := by
    intro k id hid
    cases k with
    | none => exact hid.elim
    | some i =>
      rcases hid with rfl | ⟨d, evidence, hd, hev, hplace⟩
      · refine ⟨fun j hj => hids j i hj, ?_⟩
        intro d hd
        simp [hfresh i] at hd
      · refine ⟨?_, ?_⟩
        · intro j hj
          have hnone := hfresh j
          simp [hj, hd] at hnone
        · intro d' hd'
          obtain rfl := Option.some.inj (hd'.symm.trans hd)
          exact ⟨evidence, hev, hplace⟩
  keys := by
    intro k k' hk key hkey hkey'
    cases k with
    | none =>
      cases k' with
      | none => exact hk rfl
      | some j =>
        obtain ⟨evidence, hev, rfl⟩ := hkey'
        exact hkey j evidence hev rfl
    | some i =>
      obtain ⟨evidence, hev, rfl⟩ := hkey
      cases k' with
      | none => exact hkey' i evidence hev rfl
      | some j =>
        obtain ⟨evidence', hev', heq⟩ := hkey'
        have hij : i ≠ j := fun h => hk (congrArg some h.symm)
        exact hplaces i j evidence evidence' hij hev hev' (openDecisionKey_eq_iff.mp heq)
  ids := by
    intro k k' hk id hid hid'
    cases k with
    | none => exact hid
    | some i =>
      cases k' with
      | none =>
        obtain ⟨hne, hrow⟩ := hid' i
        rcases hid with rfl | ⟨d, evidence, hd, hev, hplace⟩
        · exact hne rfl
        · exact hrow d evidence hd hev hplace
      | some j =>
        obtain ⟨hnew, hrow⟩ := hid'
        have hij : i ≠ j := fun h => hk (congrArg some h.symm)
        rcases hid with rfl | ⟨d, evidence, hd, hev, hplace⟩
        · exact hij (hnew i rfl)
        · obtain ⟨evidence', hev', hplace'⟩ := hrow d hd
          exact hplaces i j evidence evidence' hij hev hev' (hplace.symm.trans hplace')

theorem confined_begun {i : ι} (hfresh : ∀ i, w.FreshId (calls i).newId)
    (hkeys : w.KeysLeadHome) : Confined (calls i) (scopeOf calls w.db (some i)) w .begun where
  new := Or.inl rfl
  key := fun evidence hev => ⟨evidence, hev, rfl⟩
  value := by
    intro evidence id hev hid
    refine ⟨?_, ?_⟩
    · rintro j rfl
      exact absurd hid ((hfresh j).2 evidence)
    · intro d hd
      exact ⟨evidence, hev, hkeys evidence id d hid hd⟩
  rows := by
    intro id hid hrow
    obtain ⟨d, hd⟩ := Option.ne_none_iff_exists'.mp hrow
    obtain ⟨evidence, hev, hplace⟩ := hid.2 d hd
    exact Or.inr ⟨d, evidence, hd, hev, hplace⟩
  phase := trivial

/-- The calls, with the keys nobody asks for as one more thread that has nothing to do. -/
def withIdle (s : Threads ι World AggregatePhase) : Threads (Option ι) World AggregatePhase :=
  ⟨s.shared, fun k => k.elim .begun s.phase⟩

theorem exists_scope (calls : ι → AggregateCall) (db : Db) (key : String) :
    ∃ k, key ∈ (scopeOf calls db k).keys := by
  by_cases h : ∃ i evidence, db.evidences.find (calls i).evidenceId = some evidence ∧
      key = openDecisionKey evidence
  · obtain ⟨i, evidence, hev, hkey⟩ := h
    exact ⟨some i, evidence, hev, hkey⟩
  · refine ⟨none, ?_⟩
    intro i evidence hev hkey
    exact h ⟨i, evidence, hev, hkey⟩

theorem withIdle_move [DecidableEq ι] (s : Threads ι World AggregatePhase) (i : ι)
    (next : World × AggregatePhase) :
    withIdle (s.move i next) = (withIdle s).move (some i) next := by
  simp only [withIdle, Threads.move, Threads.mk.injEq, true_and]
  funext k
  cases k with
  | none => rfl
  | some j => simp [Function.update_apply]

theorem turns_of_interleaved [DecidableEq ι] {db : Db} {s t : Threads ι World AggregatePhase}
    {l : Turn ι} (h : Interleaved calls s l t) :
    Threads.Turns (CallTurn calls (scopeOf calls db)) (withIdle s) (withIdle t) := by
  cases h with
  | @advance i hrun _ =>
    exact ⟨some i, _, .advance hrun, withIdle_move s i _⟩
  | @raise i hrun => exact ⟨some i, _, .raise hrun, withIdle_move s i _⟩
  | @expireKey key =>
    obtain ⟨k, hkey⟩ := exists_scope calls db key
    refine ⟨k, _, .expireKey hkey, ?_⟩
    simp [withIdle, Threads.move]

theorem turns_of_run [DecidableEq ι] {db : Db} {s t : Threads ι World AggregatePhase}
    {ls : List (Turn ι)} (h : Run (Interleaved calls) s ls t) :
    ReflTransGen (Threads.Turns (CallTurn calls (scopeOf calls db))) (withIdle s) (withIdle t) := by
  induction h with
  | nil s => exact .refl
  | cons hstep _ ih => exact .head (turns_of_interleaved hstep) ih

theorem CallTurn.evidences {scope : Option ι → Scope} {k : Option ι}
    {a b : World × AggregatePhase} (h : CallTurn calls scope k a b) :
    b.1.db.evidences = a.1.db.evidences := by
  cases h with
  | advance hp => exact (advance_advances _ _ hp).evidences
  | raise => rfl
  | expireKey => rfl

theorem turns_evidences {scope : Option ι → Scope} {k : Option ι} {a b : World × AggregatePhase}
    (h : ReflTransGen (CallTurn calls scope k) a b) : b.1.db.evidences = a.1.db.evidences := by
  induction h with
  | refl => rfl
  | tail _ hturn ih => exact hturn.evidences.trans ih

/-- A key expires. -/
def Expires (w v : World) : Prop :=
  ∃ key, v = w.withKey key none

theorem Expired.expires {key : String} (h : Expired key w v) : ReflTransGen Expires w v := by
  rcases h with rfl | rfl
  · exact .refl
  · exact .single ⟨key, rfl⟩

/-- The turns of a call alone are those of a serial call, before which its key may expire. -/
theorem alone_of_turns {db : Db} {i : ι} {b : World × AggregatePhase}
    (hw : w.db.evidences = db.evidences)
    (h : ReflTransGen (CallTurn calls (scopeOf calls db) (some i)) (w, .begun) b) :
    ∃ w', ReflTransGen Expires w w' ∧ w'.db = w.db ∧ Alone (calls i) w' b.1 b.2 := by
  induction h with
  | refl => exact ⟨w, .refl, rfl, .begun⟩
  | @tail c b _ hturn ih =>
    obtain ⟨w', hw', hdb, halone⟩ := ih
    cases hturn with
    | advance hp => exact ⟨w', hw', hdb, halone.advance hp⟩
    | raise hp => exact ⟨w', hw', hdb, halone.raise hp⟩
    | @expireKey _ x p key hkey =>
      obtain ⟨evidence, hev, rfl⟩ := hkey
      have hfound : w'.db.evidences.find (calls i).evidenceId = some evidence := by
        rw [hdb, hw, hev]
      obtain ⟨w'', hw'', halone'⟩ := halone.expire hfound
      exact ⟨w'', hw'.trans hw''.expires, hw''.db.trans hdb, halone'⟩

theorem expires_of_turns {db : Db} {b : World × AggregatePhase} {a : World × AggregatePhase}
    (h : ReflTransGen (CallTurn calls (scopeOf calls db) none) a b) :
    ReflTransGen Expires a.1 b.1 := by
  induction h with
  | refl => exact .refl
  | tail _ hturn ih =>
    cases hturn with
    | @expireKey _ x p key hkey => exact ih.tail ⟨key, rfl⟩

/-- The calls of a list one after the other, between which keys may expire: one that has committed
in `phase` commits and returns the same row, one that has failed raises. -/
inductive Serialized (calls : ι → AggregateCall) (phase : ι → AggregatePhase) :
    List ι → World → World → Prop
  | done {w : World} : Serialized calls phase [] w w
  | expireKey {is : List ι} {w u : World} {key : String} :
      Serialized calls phase is (serve w (.expireKey key)) u → Serialized calls phase is w u
  | commits {i : ι} {is : List ι} {w v u : World} {txn : Txn} : phase i = .committed txn →
      aggregate ((calls i).raising none) w = (.ok (txn.row (calls i)), v) →
      Serialized calls phase is v u → Serialized calls phase (i :: is) w u
  | raises {i : ι} {is : List ι} {w v u : World} {step : AggregateStep} {e : Exn} :
      phase i = .failed → aggregate ((calls i).raising (some step)) w = (.error e, v) →
      Serialized calls phase is v u → Serialized calls phase (i :: is) w u

variable {phase : ι → AggregatePhase}

theorem Serialized.after {is : List ι} (hw : ReflTransGen Expires w v)
    (h : Serialized calls phase is v u) : Serialized calls phase is w u := by
  induction hw using ReflTransGen.head_induction_on with
  | refl => exact h
  | head hstep _ ih =>
    obtain ⟨key, rfl⟩ := hstep
    exact .expireKey ih

theorem Alone.serialized {i : ι} {is : List ι} (h : Alone (calls i) w v (phase i))
    (hended : (phase i).ended = true) (hrest : Serialized calls phase is v u) :
    Serialized calls phase (i :: is) w u := by
  generalize hp : phase i = p at h hended
  cases h with
  | committed _ haggregate hv => exact .commits hp haggregate (hrest.after hv.expires)
  | failed haggregate hv =>
    refine .raises hp haggregate ?_
    rcases hv with rfl | ⟨evidence, _, hv⟩
    · exact hrest
    · exact hrest.after hv.expires
  | _ => cases hended

theorem serialized_of_series {db : Db} {p p' : Option ι → AggregatePhase} {is : List ι}
    (hbegun : ∀ i, p (some i) = .begun) (hphase : ∀ i, p' (some i) = phase i)
    (hended : ∀ i, (phase i).ended = true) (hw : w.db.evidences = db.evidences)
    (h : Threads.InSeries (CallTurn calls (scopeOf calls db)) p p' (is.map some ++ [none]) w u) :
    Serialized calls phase is w u := by
  induction is generalizing w with
  | nil =>
    cases h with
    | cons hidle hnil =>
      cases hnil
      exact Serialized.done.after (expires_of_turns hidle)
  | cons i is ih =>
    cases h with
    | @cons _ _ _ v _ hturns hrest =>
      rw [hbegun i, hphase i] at hturns
      obtain ⟨w', hw', -, halone⟩ := alone_of_turns hw hturns
      have hkept := (turns_evidences hturns).trans hw
      exact (halone.serialized (hended i) (ih hkept hrest)).after hw'

/-- The same rows and keys; for every decision the same links, audit records, events and tasks in
the same order, so altogether the same up to their order. -/
structure SameOutcome (w v : World) : Prop where
  same : SameOn Set.univ Set.univ w v
  links : w.db.decisionEvidences.Perm v.db.decisionEvidences
  auditRecords : w.db.auditRecords.Perm v.db.auditRecords
  published : w.published.Perm v.published
  notifyWarning : w.notifyWarning.Perm v.notifyWarning

theorem perm_of_filter_eq {α κ : Type} [DecidableEq α] [DecidableEq κ] {key : α → κ}
    {xs ys : List α} (h : ∀ k, xs.filter (fun x => key x = k) = ys.filter fun x => key x = k) :
    xs.Perm ys := by
  rw [List.perm_iff_count]
  intro x
  have hcount : ∀ zs : List α, (zs.filter fun z => key z = key x).count x = zs.count x :=
    fun zs => List.count_filter (by simp)
  rw [← hcount xs, ← hcount ys, h (key x)]

theorem SameOn.outcome (h : SameOn Set.univ Set.univ w v) : SameOutcome w v where
  same := h
  links := perm_of_filter_eq fun id => congrArg Dossier.links (h.dossier id trivial)
  auditRecords := perm_of_filter_eq fun id => congrArg Dossier.audits (h.dossier id trivial)
  published := perm_of_filter_eq fun id => congrArg Dossier.events (h.dossier id trivial)
  notifyWarning := perm_of_filter_eq fun id => congrArg Dossier.tasks (h.dossier id trivial)

/-- Every decision is in the scope of some call, or of none of them. -/
theorem exists_scope_id (calls : ι → AggregateCall) {db : Db}
    (hapart : Apart (scopeOf calls db)) (id : Uuid) : ∃ k, id ∈ (scopeOf calls db k).ids := by
  by_cases h : ∃ i, id ∈ (scopeOf calls db (some i)).held
  · obtain ⟨i, hid⟩ := h
    exact ⟨some i, hapart.held _ id hid⟩
  · refine ⟨none, ?_⟩
    intro i
    refine ⟨fun heq => h ⟨i, Or.inl heq⟩, ?_⟩
    intro d evidence hd hev hplace
    exact h ⟨i, Or.inr ⟨d, evidence, hd, hev, hplace⟩⟩

/-- Calls for evidences of different places are serializable: however their steps interleave,
wherever they fail and whichever keys expire, the calls one after the other, in any order, come to
the same. -/
theorem serializable [DecidableEq ι] {s t : Threads ι World AggregatePhase} {ls : List (Turn ι)}
    {order : List ι} (hbegun : ∀ i, s.phase i = .begun)
    (hplaces : PlacesDiffer calls s.shared.db)
    (hids : ∀ i j, (calls i).newId = (calls j).newId → i = j)
    (hfresh : ∀ i, s.shared.FreshId (calls i).newId) (hkeys : s.shared.KeysLeadHome)
    (hrun : Run (Interleaved calls) s ls t) (hended : ∀ i, (t.phase i).ended = true)
    (hnodup : order.Nodup) (hall : ∀ i, i ∈ order) :
    ∃ u, Serialized calls t.phase order s.shared u ∧ SameOutcome t.shared u := by
  have hapart := apart_scopeOf hids hplaces fun i => (hfresh i).1
  have hsound : ∀ k, ∀ i, k = some i → Confined (calls i) (scopeOf calls s.shared.db k) s.shared
      ((withIdle s).phase k) := by
    rintro k i rfl
    show Confined _ _ _ (s.phase i)
    rw [hbegun i]
    exact confined_begun hfresh hkeys
  have hnodup' : (order.map some ++ [none]).Nodup := by
    rw [List.nodup_append]
    refine ⟨hnodup.map (Option.some_injective ι), List.nodup_singleton none, ?_⟩
    simp
  obtain ⟨u, hseries, hsees⟩ := hapart.independent.serial hsound (turns_of_run hrun) hnodup' (by
    intro k
    cases k with
    | none => simp
    | some i => simp [hall i])
  refine ⟨u, serialized_of_series hbegun (fun _ => rfl) hended rfl hseries, SameOn.outcome ?_⟩
  have hsome := hsees none
  refine ⟨hsome.evidences, hsome.tenants, hsome.feedback, ?_, ?_⟩
  · intro key _
    obtain ⟨k, hkey⟩ := exists_scope calls s.shared.db key
    exact (hsees k).key key hkey
  · intro id _
    obtain ⟨k, hid⟩ := exists_scope_id calls hapart id
    exact (hsees k).dossier id hid

theorem neighbours_placesDiffer : PlacesDiffer neighbourCalls neighbours.shared.db := by
  have hfound : ∀ i, neighbours.shared.db.evidences.find (neighbourCalls i).evidenceId =
      some (if i then sampleEvidence 11 none 4 else sampleEvidence 12 (some ⟨3⟩) 5) := by
    decide
  intro i j evidence evidence' hij hev hev'
  rw [hfound] at hev hev'
  cases hev
  cases hev'
  revert i j
  decide

theorem serializable_sample : ∃ u,
    Serialized neighbourCalls (takeTurns neighbourCalls neighbours neighbourTurns).phase
      [false, true] neighbours.shared u ∧
    SameOutcome (takeTurns neighbourCalls neighbours neighbourTurns).shared u := by
  have hkeys : ∀ evidence, neighbours.shared.keyId evidence = none := fun _ => rfl
  refine @serializable Bool neighbourCalls _ neighbours _ _ [false, true] (fun _ => rfl)
    neighbours_placesDiffer (by decide) ?_ ?_ (run_takeTurns (by decide +kernel))
    (by decide +kernel) (by decide) (by decide)
  · intro i
    refine ⟨by revert i; decide, ?_⟩
    intro evidence hid
    simp [hkeys] at hid
  · intro evidence id d hid
    simp [hkeys] at hid

end ArgusServices

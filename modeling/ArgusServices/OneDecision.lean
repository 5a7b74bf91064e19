import ArgusServices.OpenKeyRace

namespace ArgusServices

open Transition

/-- The decision whose row a call has inserted, committed or not. -/
def AggregatePhase.createdRow (call : AggregateCall) : AggregatePhase → Option Uuid
  | .inserted _ _ | .keySet _ _ => some call.newId
  | .linked txn | .flushed txn _ | .committed txn =>
    if txn.created then some txn.base.id else none
  | _ => none

/-- A call that ends with a decision of its own, if it does not fail. -/
def AggregatePhase.separate (p : AggregatePhase) : Prop :=
  p.creates = true ∨ p = .failed

variable {call : AggregateCall} {w w' : World} {p p' : AggregatePhase}

theorem createdRow_cases {id : Uuid} (h : p.createdRow call = some id) :
    p.insertedRow call = some id ∨ ∃ txn, p = .committed txn ∧ txn.created = true ∧
      txn.base.id = id := by
  cases p with
  | committed txn =>
    simp only [AggregatePhase.createdRow, Option.ite_none_right_eq_some, Option.some.injEq] at h
    exact Or.inr ⟨txn, rfl, h⟩
  | inserted _ _ => exact Or.inl h
  | keySet _ _ => exact Or.inl h
  | linked txn => exact Or.inl h
  | flushed txn unsent => exact Or.inl h
  | _ => cases h

theorem Advances.createdRow (h : Advances call w p w' p') {id : Uuid}
    (hid : p'.createdRow call = some id) : p.createdRow call = some id ∨
      ∃ e tenant, p = .creating e tenant ∧ id = call.newId ∧ w.db.decisions.find id = none := by
  cases h with
  | insert hfree =>
    cases hid
    exact Or.inr ⟨_, _, rfl, rfl, hfree⟩
  | setKey _ => exact Or.inl hid
  | lookUpCreated => exact Or.inl hid
  | flush _ => exact Or.inl hid
  | send => exact Or.inl hid
  | commit => exact Or.inl hid
  | _ => cases hid

theorem AggregatePhase.separate.step (h : p.separate) (ha : Advances call w p w' p') :
    p'.separate := by
  rcases h with h | rfl
  · cases ha with
    | deleteKey => exact Or.inl rfl
    | insert _ => exact Or.inl rfl
    | setKey _ => exact Or.inl rfl
    | lookUpCreated => exact Or.inl rfl
    | flush _ => exact Or.inl h
    | send => exact Or.inl h
    | commit => exact Or.inl h
    | fail => exact Or.inr rfl
    | _ => cases h
  · cases ha
    exact Or.inr rfl

variable {ι : Type} {calls : ι → AggregateCall} {ev : ι → Evidence} {tenant : Tenant}
  {w₀ : World} {s t : Threads ι World AggregatePhase} {l : Turn ι}

/-- Two calls have not created the same row. -/
def DistinctRows (calls : ι → AggregateCall) (i j : ι) (p q : AggregatePhase) : Prop :=
  ∀ id, p.createdRow (calls i) = some id → q.createdRow (calls j) ≠ some id

/-- Rows calls have created are new and their own, committed ones are in the table. -/
structure CreatedRows (calls : ι → AggregateCall) (w₀ : World)
    (s : Threads ι World AggregatePhase) : Prop where
  kept : ∀ id, (w₀.db.decisions.find id).isSome → (s.shared.db.decisions.find id).isSome
  fresh : ∀ i id, (s.phase i).createdRow (calls i) = some id → w₀.db.decisions.find id = none
  committed : ∀ i txn, s.phase i = .committed txn →
    (s.shared.db.decisions.find txn.base.id).isSome
  distinct : ∀ i j, i ≠ j → DistinctRows calls i j (s.phase i) (s.phase j)

/-- No other call has created the row that a call is about to insert. -/
theorem CreatedRows.unclaimed {i j : ι} {e : Evidence} {tenant : Tenant}
    (h : CreatedRows calls w₀ s) (hij : j ≠ i) (hp : s.phase i = .creating e tenant)
    (hblocked : ¬Blocked calls s i) (hfree : s.shared.db.decisions.find (calls i).newId = none) :
    (s.phase j).createdRow (calls j) ≠ some (calls i).newId := by
  intro hrow
  rcases createdRow_cases hrow with hins | ⟨txn, hc, _, hid⟩
  · refine hblocked ⟨j, hij, ?_⟩
    simp [hp, AggregatePhase.waitsFor, hins]
  · have := h.committed j txn hc
    simp [hid, hfree] at this

/-- Some call has turned to creating once one has looked or the key is there. -/
structure LedBy (ev : ι → Evidence) (s : Threads ι World AggregatePhase) : Prop where
  loaded : ∀ i e tenant, s.phase i = .loaded e tenant → e = ev i
  looked : ∀ j, (s.phase j).looked = true → ∃ k, (s.phase k).separate
  key : ∀ i, s.shared.keys (openDecisionKey (ev i)) ≠ none → ∃ k, (s.phase k).separate

theorem Advances.keys (h : Advances call w p w' p') (key : String) (hkey : w'.keys key ≠ none) :
    w.keys key ≠ none ∨ p'.separate := by
  cases h with
  | deleteKey => exact Or.inr (Or.inl rfl)
  | setKey _ => exact Or.inr (Or.inl rfl)
  | send => exact Or.inl (send_keys w _ ▸ hkey)
  | _ => exact Or.inl hkey

theorem Advances.looked (h : Advances call w p w' p') (hl : p'.looked = true) :
    p.looked = true ∨ p'.separate ∨
      ∃ e tenant, p = .loaded e tenant ∧ w.keys (openDecisionKey e) ≠ none := by
  cases h with
  | keyAbsent _ => exact Or.inr (Or.inl (Or.inl rfl))
  | keyFound hraw =>
    refine Or.inr (Or.inr ⟨_, _, rfl, fun hnone => ?_⟩)
    simp [hnone, truthy] at hraw
  | load _ _ => cases hl
  | fail => cases hl
  | _ => exact Or.inl rfl

/-- Two calls that have turned to creating end with two decisions. -/
def TwoCreate (s : Threads ι World AggregatePhase) : Prop :=
  ∃ i j, i ≠ j ∧ (s.phase i).separate ∧ (s.phase j).separate

theorem not_afterFirst {i : ι} (h : ¬AfterFirst s (.advance i)) :
    (∃ e tenant, s.phase i = .loaded e tenant ∧
      truthy ((s.shared.keys (openDecisionKey e)).map RedisEntry.value) = none ∧
      ∃ j, (s.phase j).looked = true) ∨
    ∃ e tenant raw, s.phase i = .keyRead e tenant raw ∧
      ∀ id, Uuid.parse raw = some id → s.shared.db.decisions.find id = none := by
  simp only [AfterFirst, not_or, not_forall, Bool.not_eq_true, Bool.not_eq_false] at h
  obtain ⟨hfinds, j, hj⟩ := h
  cases hp : s.phase i with
  | loaded e tenant =>
    simp only [hp, AggregatePhase.finds, Option.isSome_eq_false_iff, Option.isNone_iff_eq_none]
      at hfinds
    exact Or.inl ⟨e, tenant, rfl, hfinds, j, hj⟩
  | keyRead e tenant raw =>
    simp only [hp, AggregatePhase.finds, Option.isSome_eq_false_iff, Option.isNone_iff_eq_none]
      at hfinds
    refine Or.inr ⟨e, tenant, raw, rfl, fun id hid => ?_⟩
    simpa [hid] using hfinds
  | _ => simp [hp, AggregatePhase.finds] at hfinds

theorem advance_loaded_separate {e : Evidence} {tenant : Tenant}
    (h : truthy ((w.keys (openDecisionKey e)).map RedisEntry.value) = none) :
    (call.advance w (.loaded e tenant)).2.separate := by
  simp only [AggregateCall.advance, h]
  exact Or.inl rfl

theorem advance_keyRead_separate {e : Evidence} {tenant : Tenant} {raw : String}
    (h : ∀ id, Uuid.parse raw = some id → w.db.decisions.find id = none) :
    (call.advance w (.keyRead e tenant raw)).2.separate := by
  simp only [AggregateCall.advance]
  split
  · exact Or.inr rfl
  next id hid =>
    simp only [h id hid, Option.filter_none]
    exact Or.inl rfl

/-- Two committed calls with decisions of their own have created two. -/
theorem CreatedRows.not_oneDecision (h : CreatedRows calls w₀ s) (htwo : TwoCreate s)
    (hall : ∀ i, ∃ txn, s.phase i = .committed txn) : ¬OneDecision calls w₀ s.shared := by
  intro hex
  obtain ⟨id, _, _, hunique, _⟩ := hex
  obtain ⟨i, j, hij, hi, hj⟩ := htwo
  have key : ∀ i, (s.phase i).separate → (s.phase i).createdRow (calls i) = some id := by
    intro i hi
    obtain ⟨txn, hc⟩ := hall i
    rcases hi with hi | hi
    · have hcreated : txn.created = true := by simpa [hc, AggregatePhase.creates] using hi
      have hrow : (s.phase i).createdRow (calls i) = some txn.base.id := by
        simp [hc, AggregatePhase.createdRow, hcreated]
      rw [hrow, hunique _ (h.fresh i _ hrow) (h.committed i txn hc)]
    · cases hc.symm.trans hi
  exact h.distinct i j hij id (key i hi) (key j hj)

variable [DecidableEq ι]

theorem Interleaved.separate (hs : Interleaved calls s l t) {i : ι}
    (h : (s.phase i).separate) : (t.phase i).separate := by
  rcases hs.phase i with hp | ha
  · exact hp ▸ h
  · exact h.step ha

theorem Interleaved.kept (hs : Interleaved calls s l t) {id : Uuid}
    (h : (s.shared.db.decisions.find id).isSome) : (t.shared.db.decisions.find id).isSome := by
  rcases hs.db with hdb | ⟨i, txn, _, _, _, hdb⟩
  · exact hdb ▸ h
  · rw [hdb, Txn.commit_find]
    split
    · rfl
    · exact h

theorem CreatedRows.step (h : CreatedRows calls w₀ s) (hs : Interleaved calls s l t) :
    CreatedRows calls w₀ t := by
  refine ⟨fun id hid => hs.kept (h.kept id hid), ?_, ?_, ?_⟩
  · intro i id hrow
    rcases hs.phase i with hp | ha
    · exact h.fresh i id (hp ▸ hrow)
    · rcases ha.createdRow hrow with hold | ⟨_, _, _, _, hfree⟩
      · exact h.fresh i id hold
      · by_contra hne
        have := h.kept id (Option.isSome_iff_ne_none.mpr hne)
        simp [hfree] at this
  · intro i txn hc
    rcases hs.phase i with hp | ha
    · exact hs.kept (h.committed i txn (hp ▸ hc))
    · rw [hc] at ha
      generalize hw : t.shared = w at ha
      generalize s.phase i = p at ha
      cases ha
      simp [Txn.commit_find]
  · cases hs with
    | @advance i hrun hblocked =>
      have ha := advance_advances (calls i) s.shared hrun
      refine Threads.forall₂_move (DistinctRows calls) h.distinct ?_ ?_
      · intro k hk id hrow
        rcases ha.createdRow hrow with hold | ⟨e, tenant, hp, rfl, hfree⟩
        · exact h.distinct i k hk.symm id hold
        · exact h.unclaimed hk hp hblocked hfree
      · intro j hj id hrow hnew
        rcases ha.createdRow hnew with hold | ⟨e, tenant, hp, rfl, hfree⟩
        · exact h.distinct j i hj id hrow hold
        · exact h.unclaimed hj hp hblocked hfree hrow
    | raise _ =>
      refine Threads.forall₂_move (DistinctRows calls) h.distinct ?_ ?_
      · intro k _ id hrow
        cases hrow
      · intro j _ id _ hrow
        cases hrow
    | expireKey => exact h.distinct

theorem LedBy.step (hwin : SameWindow calls w₀ ev tenant) (hfix : Fixed w₀ s.shared)
    (h : LedBy ev s) (hs : Interleaved calls s l t) : LedBy ev t := by
  have keep : (∃ k, (s.phase k).separate) → ∃ k, (t.phase k).separate := by
    intro hex
    obtain ⟨k, hk⟩ := hex
    exact ⟨k, hs.separate hk⟩
  refine ⟨?_, ?_, ?_⟩
  · intro i e tenant' hp
    rcases hs.phase i with hold | ha
    · exact h.loaded i e tenant' (hold ▸ hp)
    · rw [hp] at ha
      generalize t.shared = w at ha
      generalize s.phase i = p at ha
      cases ha with
      | load he _ =>
        rw [hfix.evidences, hwin.evidence] at he
        exact (Option.some.inj he).symm
  · intro j hj
    rcases hs.phase j with hold | ha
    · exact keep (h.looked j (hold ▸ hj))
    · rcases ha.looked hj with hl | hsep | ⟨e, tenant', hp, hkey⟩
      · exact keep (h.looked j hl)
      · exact ⟨j, hsep⟩
      · obtain rfl := h.loaded j e tenant' hp
        exact keep (h.key j hkey)
  · intro i hi
    cases hs with
    | @advance k hrun _ =>
      rcases (advance_advances (calls k) s.shared hrun).keys _ hi with hkey | hsep
      · exact keep (h.key i hkey)
      · exact ⟨k, by rw [Threads.move_phase_self]; exact hsep⟩
    | raise _ => exact keep (h.key i hi)
    | @expireKey key =>
      refine keep (h.key i fun hnone => hi ?_)
      simp only [World.withKey, Function.update_apply]
      split
      · rfl
      · exact hnone

theorem TwoCreate.step (h : TwoCreate s) (hs : Interleaved calls s l t) : TwoCreate t := by
  obtain ⟨i, j, hij, hi, hj⟩ := h
  exact ⟨i, j, hij, hs.separate hi, hs.separate hj⟩

theorem LedBy.lose (h : LedBy ev s) (hg : ¬AfterFirst s l) (hs : Interleaved calls s l t) :
    TwoCreate t := by
  have hother : ∀ {i k : ι}, (s.phase i).creates = false → s.phase i ≠ .failed →
      (s.phase k).separate → i ≠ k := by
    intro i k hc hf hk heq
    subst heq
    rcases hk with hk | hk
    · simp [hc] at hk
    · exact hf hk
  cases l with
  | raise _ => exact absurd trivial hg
  | expireKey _ => exact absurd trivial hg
  | advance i =>
    have hphase : t.phase i = ((calls i).advance s.shared (s.phase i)).2 := by
      cases hs
      exact Threads.move_phase_self
    rcases not_afterFirst hg with ⟨e, tenant, hp, hnone, j, hj⟩ | ⟨e, tenant, raw, hp, hnone⟩
    · obtain ⟨k, hk⟩ := h.looked j hj
      refine ⟨i, k, hother (by simp [hp, AggregatePhase.creates]) (by simp [hp]) hk, ?_,
        hs.separate hk⟩
      rw [hphase, hp]
      exact advance_loaded_separate hnone
    · obtain ⟨k, hk⟩ := h.looked i (by simp [hp, AggregatePhase.looked])
      refine ⟨i, k, hother (by simp [hp, AggregatePhase.creates]) (by simp [hp]) hk, ?_,
        hs.separate hk⟩
      rw [hphase, hp]
      exact advance_keyRead_separate hnone

/-- Concurrent calls for evidences of one window create one decision between them exactly if each
looks at the key and reads the row after the call that creates it. -/
theorem oneDecision_iff_afterFirst [Nonempty ι] {ls : List (Turn ι)}
    (hbegun : ∀ i, s.phase i = .begun) (hwin : SameWindow calls s.shared ev tenant)
    (hkey : ∀ i, s.shared.keys (openDecisionKey (ev i)) = none)
    (h : Run (Interleaved calls) s ls t) (hall : ∀ i, ∃ txn, t.phase i = .committed txn) :
    OneDecision calls s.shared t.shared ↔
      Run (Where AfterFirst (Interleaved calls)) s ls t := by
  have hrows : CreatedRows calls s.shared s := by
    refine ⟨fun _ h => h, ?_, ?_, ?_⟩
    · intro i id hrow
      simp [hbegun i, AggregatePhase.createdRow] at hrow
    · intro i txn hc
      simp [hbegun i] at hc
    · intro i j _ id hrow
      simp [hbegun i, AggregatePhase.createdRow] at hrow
  have hled : LedBy ev s := by
    refine ⟨?_, ?_, fun i hi => absurd (hkey i) hi⟩
    · intro i e tenant hp
      simp [hbegun i] at hp
    · intro j hj
      simp [hbegun j, AggregatePhase.looked] at hj
  have hstage : Stage calls ev tenant s.shared s := by
    refine .unopened (fun i entry hentry => ?_) rfl fun i => ?_
    · simp [hkey i] at hentry
    · rw [hbegun i]
      exact .begun
  refine h.goal_iff_where
    (fun u => Fixed s.shared u.shared ∧ CreatedRows calls s.shared u ∧ LedBy ev u ∧
      Stage calls ev tenant s.shared u)
    (fun u => OneDecision calls s.shared u.shared)
    (fun u => CreatedRows calls s.shared u ∧ TwoCreate u)
    ?_ ?_ ?_ ⟨⟨rfl, rfl⟩, hrows, hled, hstage⟩ ?_ ?_
  · intro u l v hinv hg hs
    obtain ⟨hfix, hr, hl, hst⟩ := hinv
    exact ⟨hfix.step hs, hr.step hs, hl.step hwin hfix hs, hst.step hwin hfix hg hs⟩
  · intro u l v hinv hg hs
    obtain ⟨hfix, hr, hl, hst⟩ := hinv
    exact ⟨hr.step hs, hl.lose hg hs⟩
  · intro u l v hinv hs
    obtain ⟨hr, htwo⟩ := hinv
    exact ⟨hr.step hs, htwo.step hs⟩
  · intro hex
    obtain ⟨_, _, _, hst⟩ := hex
    exact hst.oneDecision hwin hall
  · intro hboth
    obtain ⟨hr, htwo⟩ := hboth
    exact hr.not_oneDecision htwo hall

instance [Fintype ι] (s : Threads ι World AggregatePhase) : (l : Turn ι) →
    Decidable (AfterFirst s l)
  | .advance i => inferInstanceAs
      (Decidable ((s.phase i).finds s.shared = true ∨ ∀ j, (s.phase j).looked = false))
  | .raise _ | .expireKey _ => isTrue trivial

instance (p : AggregatePhase) : Decidable (∃ txn, p = .committed txn) :=
  decidable_of_iff (p.ended = true ∧ p ≠ .failed) (by cases p <;> simp [AggregatePhase.ended])

def pairEvidence : Bool → Evidence
  | true => sampleEvidence 12 none 2
  | false => sampleEvidence 13 none 3

def pairCalls : Bool → AggregateCall
  | true => sampleAggregate 12 21
  | false => sampleAggregate 13 22

def pairStart : Threads Bool World AggregatePhase :=
  ⟨sampleWorld [pairEvidence true, pairEvidence false], fun _ => .begun⟩

theorem pairStart_sameWindow : SameWindow pairCalls pairStart.shared pairEvidence sampleTenant where
  evidence := by decide
  tenant_found := by decide
  tenantId := by decide
  cameraId := by decide
  regionId := by decide
  window := by decide

/-- Both calls look at the open key before either sets it. -/
def pairTurns : List Bool :=
  [true, false, true, false] ++ List.replicate 5 true ++ List.replicate 5 false

theorem pairTurns_not_oneDecision :
    ¬OneDecision pairCalls pairStart.shared (takeTurns pairCalls pairStart pairTurns).shared := by
  intro hex
  obtain ⟨id, _, _, hunique, _⟩ := hex
  have h₁ := hunique ⟨21⟩ rfl (by decide +kernel)
  have h₂ := hunique ⟨22⟩ rfl (by decide +kernel)
  exact absurd (h₁.trans h₂.symm) (by decide)

theorem not_oneDecisionPerWindow : ¬OneDecisionPerWindow := by
  intro h
  refine pairTurns_not_oneDecision (h Bool _ inferInstance pairCalls pairEvidence sampleTenant
    pairStart _ pairTurns (fun _ => rfl) pairStart_sameWindow (fun _ => rfl) ?_
    (run_takeTurns (by decide +kernel)) (by decide +kernel))
  intro i id d hd
  cases hd

/-- One call after the other creates one decision, two that look at once create two. -/
theorem oneDecision_iff_afterFirst_sample :
    OneDecision pairCalls pairStart.shared
        (takeTurns pairCalls pairStart (List.replicate 7 true ++ List.replicate 6 false)).shared ∧
      ¬Run (Where AfterFirst (Interleaved pairCalls)) pairStart (pairTurns.map .advance)
        (takeTurns pairCalls pairStart pairTurns) := by
  constructor
  · have hrun : Run (Where AfterFirst (Interleaved pairCalls)) pairStart
        ((List.replicate 7 true ++ List.replicate 6 false).map .advance)
        (takeTurns pairCalls pairStart (List.replicate 7 true ++ List.replicate 6 false)) :=
      run_takeTurns_where (by decide +kernel) (by decide +kernel)
    exact (oneDecision_iff_afterFirst (fun _ => rfl) pairStart_sameWindow (fun _ => rfl)
      hrun.of_where (by decide +kernel)).mpr hrun
  · intro hrun
    exact pairTurns_not_oneDecision ((oneDecision_iff_afterFirst (fun _ => rfl)
      pairStart_sameWindow (fun _ => rfl) hrun.of_where (by decide +kernel)).mpr hrun)

end ArgusServices

import ArgusServices.AdvanceEffect
import ArgusServices.Place
import ArgusServices.SerialRun

namespace ArgusServices

open Transition

variable {ι : Type} {calls : ι → AggregateCall} {db db' : Db}

/-- An id is of a place: its row is, and so is the evidence of a call that would insert one. -/
structure BelongsTo (calls : ι → AggregateCall) (db : Db) (place : Place) (id : Uuid) : Prop where
  row : ∀ d, db.decisions.find id = some d → d.place = place
  call : ∀ i evidence, (calls i).newId = id →
    db.evidences.find (calls i).evidenceId = some evidence → evidence.place = place

/-- A row that is committed, with the place a session has read on it. -/
def Decision.Stands (d : Decision) (db : Db) : Prop :=
  ∃ d', db.decisions.find d.id = some d' ∧ d'.place = d.place

structure Txn.Placed (call : AggregateCall) (db : Db) (txn : Txn) : Prop where
  evidence : db.evidences.find call.evidenceId = some txn.evidence
  place : txn.base.place = txn.evidence.place
  created : txn.created = true → txn.base.id = call.newId
  read : txn.created = false → txn.base.Stands db

/-- What a call holds is of the place of its evidence. -/
def AggregatePhase.Placed (calls : ι → AggregateCall) (db : Db) (call : AggregateCall) :
    AggregatePhase → Prop
  | .loaded evidence _ | .windowPassed evidence _ | .creating evidence _ | .inserted evidence _
  | .keySet evidence _ => db.evidences.find call.evidenceId = some evidence
  | .keyRead evidence _ raw => db.evidences.find call.evidenceId = some evidence ∧
      ∀ id, Uuid.parse raw = some id → BelongsTo calls db evidence.place id
  | .rowRead evidence _ d => db.evidences.find call.evidenceId = some evidence ∧
      d.place = evidence.place ∧ d.Stands db
  | .linked txn | .flushed txn _ => txn.Placed call db
  | .begun | .committed _ | .failed => True

/-- The id an open key holds. -/
def World.keyId (w : World) (evidence : Evidence) : Option Uuid :=
  (truthy ((w.keys (openDecisionKey evidence)).map RedisEntry.value)).bind Uuid.parse

/-- A link joins two rows of one place and is of their tenant. -/
def Db.OwnPlace (db : Db) (l : DecisionEvidence) : Prop :=
  ∃ evidence d, db.evidences.find l.evidenceId = some evidence ∧
    db.decisions.find l.decisionId = some d ∧ evidence.place = d.place ∧
    l.tenantId = evidence.tenantId

structure OwnPlaces (calls : ι → AggregateCall) (s : Threads ι World AggregatePhase) : Prop where
  keys : ∀ evidence id, s.shared.keyId evidence = some id →
    BelongsTo calls s.shared.db evidence.place id
  news : ∀ i evidence, s.shared.db.evidences.find (calls i).evidenceId = some evidence →
    BelongsTo calls s.shared.db evidence.place (calls i).newId
  phases : ∀ i, (s.phase i).Placed calls s.shared.db (calls i)
  links : ∀ l ∈ s.shared.db.decisionEvidences, s.shared.db.OwnPlace l

/-- What a step does to the rows: they stay in their places, and a new one is in its call's. -/
structure KeepsPlaces (calls : ι → AggregateCall) (db db' : Db) : Prop where
  evidences : db'.evidences = db.evidences
  kept : ∀ d, db.decisions.find d.id = some d → d.Stands db'
  added : ∀ id d, db'.decisions.find id = some d → d.Stands db ∨
    ∃ i evidence, (calls i).newId = id ∧
      db.evidences.find (calls i).evidenceId = some evidence ∧ d.place = evidence.place

theorem KeepsPlaces.of_eq (h : db' = db) : KeepsPlaces calls db db' where
  evidences := by rw [h]
  kept := by
    intro d hd
    exact ⟨d, by rw [h, hd], rfl⟩
  added := by
    intro id d hd
    rw [h] at hd
    have hkey := db.decisions.keyed _ _ hd
    subst hkey
    exact Or.inl ⟨d, hd, rfl⟩

theorem KeepsPlaces.belongsTo (h : KeepsPlaces calls db db') {place : Place} {id : Uuid}
    (hb : BelongsTo calls db place id) : BelongsTo calls db' place id where
  row := by
    intro d hd
    have hkey := db'.decisions.keyed _ _ hd
    subst hkey
    rcases h.added _ d hd with ⟨d', hd', hplace⟩ | ⟨i, evidence, hid, hev, hplace⟩
    · rw [← hplace, hb.row d' hd']
    · rw [hplace, hb.call i evidence hid hev]
  call := by
    intro i evidence hid hev
    rw [h.evidences] at hev
    exact hb.call i evidence hid hev

theorem KeepsPlaces.stands (h : KeepsPlaces calls db db') {d : Decision} (hd : d.Stands db) :
    d.Stands db' := by
  obtain ⟨d', hrow, hplace⟩ := hd
  have hkey := db.decisions.keyed _ _ hrow
  obtain ⟨d'', hrow', hplace'⟩ := h.kept d' (by rw [hkey, hrow])
  exact ⟨d'', by rw [← hkey, hrow'], by rw [hplace', hplace]⟩

theorem KeepsPlaces.txn (h : KeepsPlaces calls db db') {call : AggregateCall} {txn : Txn}
    (ht : txn.Placed call db) : txn.Placed call db' where
  evidence := by rw [h.evidences, ht.evidence]
  place := ht.place
  created := ht.created
  read := fun hc => h.stands (ht.read hc)

theorem KeepsPlaces.phase (h : KeepsPlaces calls db db') {call : AggregateCall} {p : AggregatePhase}
    (hp : p.Placed calls db call) : p.Placed calls db' call := by
  cases p with
  | loaded | windowPassed | creating | inserted | keySet =>
    simp only [AggregatePhase.Placed] at hp ⊢
    rw [h.evidences, hp]
  | keyRead evidence tenant raw =>
    obtain ⟨hev, hkey⟩ := hp
    exact ⟨by rw [h.evidences, hev], fun id hid => h.belongsTo (hkey id hid)⟩
  | rowRead evidence tenant d =>
    obtain ⟨hev, hplace, hd⟩ := hp
    exact ⟨by rw [h.evidences, hev], hplace, h.stands hd⟩
  | linked txn => exact h.txn hp
  | flushed txn unsent => exact h.txn hp
  | begun => trivial
  | committed => trivial
  | failed => trivial

theorem KeepsPlaces.ownPlace (h : KeepsPlaces calls db db') {l : DecisionEvidence}
    (hl : db.OwnPlace l) : db'.OwnPlace l := by
  obtain ⟨evidence, d, hev, hd, hplace, hten⟩ := hl
  have hkey := db.decisions.keyed _ _ hd
  obtain ⟨d', hd', hplace'⟩ := h.kept d (by rw [hkey, hd])
  exact ⟨evidence, d', by rw [h.evidences, hev], by rw [← hkey, hd'], by rw [hplace', hplace],
    hten⟩

@[simp] theorem rebase_place (base work current : Decision) (h : work.place = base.place) :
    (base.rebase work current).place = current.place := by
  simp only [Decision.place, Place.mk.injEq] at h
  obtain ⟨hten, hcam, hreg⟩ := h
  unfold Decision.rebase
  split
  · rfl
  · simp [Decision.place, keepColumn, hten, hcam, hreg]

theorem Txn.row_place (txn : Txn) (call : AggregateCall) :
    (txn.row call).place = txn.base.place := by
  simp only [Txn.row, afterState_place, Txn.held]
  split <;> rfl

variable {call : AggregateCall} {txn : Txn}

theorem Txn.Placed.written (h : txn.Placed call db)
    (hnew : BelongsTo calls db txn.evidence.place call.newId) :
    (txn.written call db).place = txn.evidence.place := by
  unfold Txn.written
  split
  next d hd =>
    rw [rebase_place _ _ _ (txn.row_place call)]
    cases hc : txn.created with
    | true => exact hnew.row d (h.created hc ▸ hd)
    | false =>
      obtain ⟨d', hd', hplace⟩ := h.read hc
      obtain rfl := Option.some.inj (hd.symm.trans hd')
      rw [hplace, h.place]
  next => rw [txn.row_place, h.place]

theorem Txn.Placed.keepsPlaces {i : ι} (h : txn.Placed (calls i) db)
    (hnew : BelongsTo calls db txn.evidence.place (calls i).newId) :
    KeepsPlaces calls db (txn.commit (calls i) db) where
  evidences := rfl
  kept := by
    intro d hd
    simp only [Decision.Stands, Txn.commit_find]
    split
    next hid =>
      refine ⟨_, rfl, ?_⟩
      rw [h.written hnew]
      cases hc : txn.created with
      | true => exact (hnew.row d (by rw [← h.created hc, ← hid, hd])).symm
      | false =>
        obtain ⟨d', hd', hplace⟩ := h.read hc
        rw [← hid, hd] at hd'
        obtain rfl := Option.some.inj hd'
        rw [hplace, h.place]
    next => exact ⟨d, hd, rfl⟩
  added := by
    intro id d hd
    simp only [Txn.commit_find] at hd
    split at hd
    next hid =>
      obtain rfl := Option.some.inj hd
      cases hc : txn.created with
      | true =>
        refine Or.inr ⟨i, txn.evidence, ?_, h.evidence, h.written hnew⟩
        rw [hid, h.created hc]
      | false =>
        obtain ⟨d', hd', hplace⟩ := h.read hc
        refine Or.inl ⟨d', ?_, ?_⟩
        · rw [Txn.written_id, hd']
        · rw [hplace, h.written hnew, h.place]
    next =>
      have hkey := db.decisions.keyed _ _ hd
      exact Or.inl ⟨d, by rw [hkey, hd], rfl⟩

theorem Txn.Placed.ownPlace (h : txn.Placed call db)
    (hnew : BelongsTo calls db txn.evidence.place call.newId) {l : DecisionEvidence}
    (hl : l ∈ txn.links) : (txn.commit call db).OwnPlace l := by
  unfold Txn.links at hl
  split at hl
  next =>
    obtain rfl := List.mem_singleton.mp hl
    have hkey := db.evidences.keyed _ _ h.evidence
    refine ⟨txn.evidence, txn.written call db, ?_, ?_, (h.written hnew).symm, rfl⟩
    · simp only [Txn.commit, linkRow, hkey, h.evidence]
    · simp only [Txn.commit_find, linkRow, ↓reduceIte]
  next => cases hl

variable {w w' : World}

/-- A call leaves the ids in the open keys, but for its own, and that under its own key. -/
theorem Advances.keyId {p p' : AggregatePhase} (h : Advances call w p w' p')
    {evidence : Evidence} {id : Uuid} (hid : w'.keyId evidence = some id) :
    w.keyId evidence = some id ∨ ∃ own tenant, p = .inserted own tenant ∧
      own.place = evidence.place ∧ id = call.newId := by
  cases h with
  | deleteKey =>
    simp only [World.keyId, World.withKey, Function.update_apply] at hid
    split at hid
    · cases hid
    · exact Or.inl hid
  | @setKey own tenant _ =>
    simp only [World.keyId, World.withKey, Function.update_apply] at hid
    split at hid
    next hkey =>
      refine Or.inr ⟨own, tenant, rfl, (openDecisionKey_eq_iff.mp hkey).symm, ?_⟩
      obtain ⟨raw, hraw, hparse⟩ := Option.bind_eq_some_iff.mp hid
      obtain ⟨hraw, _⟩ := Option.filter_eq_some_iff.mp hraw
      obtain rfl := Option.some.inj hraw
      exact (Option.some.inj ((Uuid.parse_str call.newId).symm.trans hparse)).symm
    next => exact Or.inl hid
  | @send txn m unsent =>
    left
    cases m <;> exact hid
  | _ => exact Or.inl hid

theorem Advances.placed {p p' : AggregatePhase} (h : Advances call w p w' p')
    (hp : p.Placed calls w.db call)
    (hkeys : ∀ evidence id, w.keyId evidence = some id → BelongsTo calls w.db evidence.place id) :
    p'.Placed calls w.db call := by
  cases h with
  | load hev _ => exact hev
  | keyAbsent _ => exact hp
  | keyFound hraw =>
    refine ⟨hp, ?_⟩
    intro id hid
    exact hkeys _ id (by rw [World.keyId, hraw, Option.bind_some, hid])
  | rowAbsent _ _ => exact hp.1
  | rowOpen hid hd _ => exact ⟨hp.1, (hp.2 _ hid).row _ hd, _, hd, rfl⟩
  | rowPassed _ _ _ => exact hp.1
  | deleteKey => exact hp
  | insert _ => exact hp
  | setKey _ => exact hp
  | lookUp =>
    obtain ⟨hev, hplace, hd⟩ := hp
    exact ⟨hev, hplace, (fun hc => nomatch hc), fun _ => hd⟩
  | lookUpCreated => exact ⟨hp, rfl, fun _ => rfl, fun hc => nomatch hc⟩
  | flush _ => exact hp
  | send => exact hp
  | commit => trivial
  | fail => trivial

variable [DecidableEq ι] {s t : Threads ι World AggregatePhase} {l : Turn ι}

theorem OwnPlaces.keepsPlaces (h : OwnPlaces calls s) (hstep : Interleaved calls s l t) :
    KeepsPlaces calls s.shared.db t.shared.db := by
  rcases hstep.db with hdb | ⟨i, txn, _, hp, _, hdb⟩
  · exact .of_eq hdb
  · have htxn := h.phases i
    rw [hp] at htxn
    rw [hdb]
    exact Txn.Placed.keepsPlaces htxn (h.news i _ htxn.evidence)

theorem OwnPlaces.links_step (h : OwnPlaces calls s) (hstep : Interleaved calls s l t) :
    ∀ l ∈ t.shared.db.decisionEvidences, t.shared.db.OwnPlace l := by
  intro link hlink
  have hkeeps := h.keepsPlaces hstep
  rcases hstep.db with hdb | ⟨i, txn, _, hp, _, hdb⟩
  · rw [hdb] at hlink
    exact hkeeps.ownPlace (h.links link hlink)
  · rw [hdb] at hlink
    rcases List.mem_append.mp hlink with hold | hnew
    · exact hkeeps.ownPlace (h.links link hold)
    · have htxn := h.phases i
      rw [hp] at htxn
      rw [hdb]
      exact Txn.Placed.ownPlace htxn (h.news i _ htxn.evidence) hnew

theorem OwnPlaces.step (h : OwnPlaces calls s) (hstep : Interleaved calls s l t) :
    OwnPlaces calls t := by
  have hkeeps := h.keepsPlaces hstep
  refine ⟨?_, ?_, ?_, h.links_step hstep⟩
  · intro evidence id hid
    apply hkeeps.belongsTo
    cases hstep with
    | @advance i hrun _ =>
      have hadv := advance_advances (calls i) s.shared hrun
      rcases hadv.keyId hid with hid | ⟨own, _, hp, hplace, rfl⟩
      · exact h.keys evidence id hid
      · have hown := h.phases i
        rw [hp] at hown
        rw [← hplace]
        exact h.news i own hown
    | raise => exact h.keys evidence id hid
    | @expireKey key =>
      refine h.keys evidence id ?_
      simp only [World.keyId, World.withKey, Function.update_apply] at hid
      split at hid
      · cases hid
      · exact hid
  · intro i evidence hev
    rw [hkeeps.evidences] at hev
    exact hkeeps.belongsTo (h.news i evidence hev)
  · intro i
    apply hkeeps.phase
    rcases hstep.phase i with hp | hadv
    · rw [hp]
      exact h.phases i
    · exact hadv.placed (h.phases i) h.keys

/-- A decision only holds evidence of its own place: whatever the order of the steps, the failures
and the keys that expire, a link joins rows of one tenant, camera and region. -/
theorem own_place {ls : List (Turn ι)} (hbegun : ∀ i, s.phase i = .begun)
    (hkeys : ∀ key, s.shared.keys key = none) (hlinks : s.shared.db.decisionEvidences = [])
    (hids : ∀ i j, (calls i).newId = (calls j).newId → i = j)
    (hfresh : ∀ i, s.shared.db.decisions.find (calls i).newId = none)
    (hrun : Run (Interleaved calls) s ls t) {link : DecisionEvidence}
    (hlink : link ∈ t.shared.db.decisionEvidences) :
    ∃ evidence d, t.shared.db.evidences.find link.evidenceId = some evidence ∧
      t.shared.db.decisions.find link.decisionId = some d ∧ evidence.tenantId = d.tenantId ∧
      evidence.cameraId = d.cameraId ∧ evidence.regionId = d.regionId ∧
      link.tenantId = evidence.tenantId := by
  have hstart : OwnPlaces calls s := by
    refine ⟨?_, ?_, ?_, ?_⟩
    · intro evidence id hid
      simp [World.keyId, hkeys, truthy] at hid
    · intro i evidence hev
      refine ⟨fun d hd => ?_, ?_⟩
      · simp [hfresh i] at hd
      · intro j evidence' hid hev'
        obtain rfl := hids j i hid
        rw [Option.some.inj (hev.symm.trans hev')]
    · intro i
      rw [hbegun i]
      trivial
    · intro link' hlink'
      simp [hlinks] at hlink'
  have hend := hrun.invariant (fun _ _ _ => OwnPlaces.step) hstart
  obtain ⟨evidence, d, hev, hd, hplace, hten⟩ := hend.links link hlink
  simp only [Evidence.place, Decision.place, Place.mk.injEq] at hplace
  exact ⟨evidence, d, hev, hd, hplace.1, hplace.2.1, hplace.2.2, hten⟩

/-- Evidence of a camera as a whole and evidence of one of its regions. -/
def neighbours : Threads Bool World AggregatePhase :=
  ⟨sampleWorld [sampleEvidence 11 none 4, sampleEvidence 12 (some ⟨3⟩) 5], fun _ => .begun⟩

def neighbourCalls : Bool → AggregateCall
  | true => sampleAggregate 11 20
  | false => sampleAggregate 12 21

def neighbourTurns : List Bool :=
  (List.replicate 7 [true, false]).flatten

theorem own_place_sample : ∃ evidence d,
    (takeTurns neighbourCalls neighbours neighbourTurns).shared.db.evidences.find ⟨12⟩ =
      some evidence ∧
    (takeTurns neighbourCalls neighbours neighbourTurns).shared.db.decisions.find ⟨21⟩ = some d ∧
    evidence.tenantId = d.tenantId ∧ evidence.cameraId = d.cameraId ∧
    evidence.regionId = d.regionId ∧ (⟨1⟩ : Uuid) = evidence.tenantId :=
  @own_place Bool neighbourCalls _ neighbours _ _ (fun _ => rfl) (fun _ => rfl) rfl (by decide)
    (by decide) (run_takeTurns (by decide +kernel)) ⟨⟨1⟩, ⟨21⟩, ⟨12⟩⟩ (by decide +kernel)

end ArgusServices

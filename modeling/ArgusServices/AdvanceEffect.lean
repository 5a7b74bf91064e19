import ArgusServices.Interleaving

namespace ArgusServices

/-- All an unfinished call can do in its turn. -/
inductive Advances (call : AggregateCall) (w : World) :
    AggregatePhase → World → AggregatePhase → Prop
  | load {evidence : Evidence} {tenant : Tenant} :
      w.db.evidences.find call.evidenceId = some evidence →
      w.db.tenants.find evidence.tenantId = some tenant →
      Advances call w .begun w (.loaded evidence tenant)
  | keyAbsent {evidence : Evidence} {tenant : Tenant} :
      truthy ((w.keys (openDecisionKey evidence)).map RedisEntry.value) = none →
      Advances call w (.loaded evidence tenant) w (.creating evidence tenant)
  | keyFound {evidence : Evidence} {tenant : Tenant} {raw : String} :
      truthy ((w.keys (openDecisionKey evidence)).map RedisEntry.value) = some raw →
      Advances call w (.loaded evidence tenant) w (.keyRead evidence tenant raw)
  | rowAbsent {evidence : Evidence} {tenant : Tenant} {raw : String} {id : Uuid} :
      Uuid.parse raw = some id →
      (w.db.decisions.find id).filter (fun d => d.tenantId = evidence.tenantId) = none →
      Advances call w (.keyRead evidence tenant raw) w (.creating evidence tenant)
  | rowOpen {evidence : Evidence} {tenant : Tenant} {raw : String} {d : Decision} :
      Uuid.parse raw = some d.id → w.db.decisions.find d.id = some d →
      evidence.capturedAt ≤ d.windowEnd →
      Advances call w (.keyRead evidence tenant raw) w (.rowRead evidence tenant d)
  | rowPassed {evidence : Evidence} {tenant : Tenant} {raw : String} {d : Decision} :
      Uuid.parse raw = some d.id → w.db.decisions.find d.id = some d →
      d.windowEnd < evidence.capturedAt →
      Advances call w (.keyRead evidence tenant raw) w (.windowPassed evidence tenant)
  | deleteKey {evidence : Evidence} {tenant : Tenant} :
      Advances call w (.windowPassed evidence tenant)
        (w.withKey (openDecisionKey evidence) none) (.creating evidence tenant)
  | insert {evidence : Evidence} {tenant : Tenant} : w.db.decisions.find call.newId = none →
      Advances call w (.creating evidence tenant) w (.inserted evidence tenant)
  | setKey {evidence : Evidence} {tenant : Tenant} : 0 < tenant.aggregationWindowSecs + 300 →
      Advances call w (.inserted evidence tenant)
        (w.withKey (openDecisionKey evidence)
          (some ⟨call.newId.str, some (tenant.aggregationWindowSecs + 300)⟩))
        (.keySet evidence tenant)
  | lookUp {evidence : Evidence} {tenant : Tenant} {d : Decision} :
      Advances call w (.rowRead evidence tenant d) w
        (.linked ⟨evidence, tenant, d, false, !w.db.linked d.id evidence.id⟩)
  | lookUpCreated {evidence : Evidence} {tenant : Tenant} :
      Advances call w (.keySet evidence tenant) w
        (.linked ⟨evidence, tenant, newDecision call evidence tenant, true,
          !w.db.linked call.newId evidence.id⟩)
  | flush {txn : Txn} :
      (txn.newLink = true → w.db.linked txn.base.id txn.evidence.id = false) →
      Advances call w (.linked txn) w (.flushed txn (txn.messages call))
  | send {txn : Txn} {m : Message} {unsent : List Message} :
      Advances call w (.flushed txn (m :: unsent)) (w.send m) (.flushed txn unsent)
  | commit {txn : Txn} :
      Advances call w (.flushed txn []) { w with db := txn.commit call w.db } (.committed txn)
  | fail {p : AggregatePhase} : Advances call w p w .failed

theorem advance_advances (call : AggregateCall) (w : World) {p : AggregatePhase}
    (hp : p.ended = false) :
    Advances call w p (call.advance w p).1 (call.advance w p).2 := by
  cases p with
  | begun =>
    simp only [AggregateCall.advance]
    split
    · exact .fail
    next hev =>
      split
      · exact .fail
      next htn => exact .load hev htn
  | loaded evidence tenant =>
    simp only [AggregateCall.advance]
    split
    next h => exact .keyAbsent h
    next h => exact .keyFound h
  | keyRead evidence tenant raw =>
    simp only [AggregateCall.advance]
    split
    · exact .fail
    next id hid =>
      split
      next h => exact .rowAbsent hid h
      next d h =>
        obtain ⟨hd, _⟩ := Option.filter_eq_some_iff.mp h
        have hkey := w.db.decisions.keyed _ _ hd
        subst hkey
        split
        next hle => exact .rowOpen hid hd hle
        next hlt => exact .rowPassed hid hd (by omega)
  | rowRead evidence tenant d => exact .lookUp
  | windowPassed evidence tenant => exact .deleteKey
  | creating evidence tenant =>
    simp only [AggregateCall.advance]
    split
    · exact .fail
    next h => exact .insert (by simpa using h)
  | inserted evidence tenant =>
    simp only [AggregateCall.advance]
    split
    · exact .fail
    next h => exact .setKey (by omega)
  | keySet evidence tenant => exact .lookUpCreated
  | linked txn =>
    simp only [AggregateCall.advance]
    split
    · exact .fail
    next h => exact .flush (fun hn => by simpa [hn] using h)
  | flushed txn unsent =>
    cases unsent with
    | nil => exact .commit
    | cons m unsent => exact .send
  | committed txn => cases hp
  | failed => cases hp

/-- The row a call has read and may write back. -/
def AggregatePhase.base : AggregatePhase → Option Decision
  | .rowRead _ _ decision => some decision
  | .linked txn | .flushed txn _ => if txn.created then none else some txn.base
  | _ => none

def AggregatePhase.evidence : AggregatePhase → Option Evidence
  | .loaded evidence _ | .keyRead evidence _ _ | .rowRead evidence _ _ | .windowPassed evidence _
  | .creating evidence _ | .inserted evidence _ | .keySet evidence _ => some evidence
  | .linked txn | .flushed txn _ | .committed txn => some txn.evidence
  | .begun | .failed => none

variable {call : AggregateCall} {w w' : World} {p p' : AggregatePhase}

theorem send_db (w : World) (m : Message) : (w.send m).db = w.db := by
  cases m <;> rfl

/-- A call changes the committed rows with its commit only. -/
theorem Advances.db (h : Advances call w p w' p') : w'.db = w.db ∨
    ∃ txn, p = .flushed txn [] ∧ p' = .committed txn ∧ w'.db = txn.commit call w.db := by
  cases h with
  | commit => exact Or.inr ⟨_, rfl, rfl, rfl⟩
  | send => exact Or.inl (send_db w _)
  | _ => exact Or.inl rfl

theorem Advances.base (h : Advances call w p w' p') {d : Decision} (hd : p'.base = some d) :
    p.base = some d ∨ w.db.decisions.find d.id = some d := by
  cases h with
  | rowOpen _ hrow _ =>
    cases hd
    exact Or.inr hrow
  | lookUp => exact Or.inl hd
  | flush => exact Or.inl hd
  | send => exact Or.inl hd
  | _ => cases hd

theorem Advances.insertedRow (h : Advances call w p w' p') {id : Uuid}
    (hid : p'.insertedRow call = some id) :
    p.insertedRow call = some id ∨ w.db.decisions.find id = none := by
  cases h with
  | insert hfree =>
    cases hid
    exact Or.inr hfree
  | setKey => exact Or.inl hid
  | lookUpCreated => exact Or.inl hid
  | flush => exact Or.inl hid
  | send => exact Or.inl hid
  | _ => cases hid

theorem Advances.evidence (h : Advances call w p w' p') {evidence : Evidence}
    (he : p'.evidence = some evidence) :
    p.evidence = some evidence ∨ w.db.evidences.find evidence.id = some evidence := by
  cases h with
  | load hev _ =>
    cases he
    exact Or.inr (w.db.evidences.keyed _ _ hev ▸ hev)
  | fail => cases he
  | _ => exact Or.inl he

variable {ι : Type} [DecidableEq ι] {calls : ι → AggregateCall}
  {s t : Threads ι World AggregatePhase} {l : Turn ι}

theorem Interleaved.phase (h : Interleaved calls s l t) (j : ι) :
    t.phase j = s.phase j ∨ Advances (calls j) s.shared (s.phase j) t.shared (t.phase j) := by
  cases h with
  | @advance i hrun _ =>
    by_cases hj : j = i
    · subst hj
      rw [Threads.move_phase_self]
      exact Or.inr (advance_advances _ _ hrun)
    · exact Or.inl (Threads.move_phase_of_ne hj)
  | @raise i _ =>
    by_cases hj : j = i
    · subst hj
      rw [Threads.move_phase_self]
      exact Or.inr .fail
    · exact Or.inl (Threads.move_phase_of_ne hj)
  | expireKey => exact Or.inl rfl

theorem Interleaved.db (h : Interleaved calls s l t) : t.shared.db = s.shared.db ∨
    ∃ i txn, l = .advance i ∧ s.phase i = .flushed txn [] ∧ t.phase i = .committed txn ∧
      t.shared.db = txn.commit (calls i) s.shared.db := by
  cases h with
  | @advance i hrun _ =>
    rcases (advance_advances (calls i) s.shared hrun).db with hdb | ⟨txn, hp, hp', hdb⟩
    · exact Or.inl hdb
    · exact Or.inr ⟨i, txn, rfl, hp, Threads.move_phase_self.trans hp', hdb⟩
  | raise => exact Or.inl rfl
  | expireKey => exact Or.inl rfl

theorem Interleaved.evidences (h : Interleaved calls s l t) :
    t.shared.db.evidences = s.shared.db.evidences := by
  rcases h.db with hdb | ⟨i, txn, _, _, _, hdb⟩
  · rw [hdb]
  · rw [hdb]
    rfl

theorem Interleaved.tenants (h : Interleaved calls s l t) :
    t.shared.db.tenants = s.shared.db.tenants := by
  rcases h.db with hdb | ⟨i, txn, _, _, _, hdb⟩
  · rw [hdb]
  · rw [hdb]
    rfl

theorem Interleaved.base (h : Interleaved calls s l t) {j : ι} {d : Decision}
    (hd : (t.phase j).base = some d) :
    (s.phase j).base = some d ∨ s.shared.db.decisions.find d.id = some d := by
  rcases h.phase j with hp | ha
  · exact Or.inl (hp ▸ hd)
  · exact ha.base hd

theorem Interleaved.insertedRow (h : Interleaved calls s l t) {j : ι} {id : Uuid}
    (hid : (t.phase j).insertedRow (calls j) = some id) :
    (s.phase j).insertedRow (calls j) = some id ∨ s.shared.db.decisions.find id = none := by
  rcases h.phase j with hp | ha
  · exact Or.inl (hp ▸ hid)
  · exact ha.insertedRow hid

theorem Interleaved.evidence (h : Interleaved calls s l t) {j : ι} {evidence : Evidence}
    (he : (t.phase j).evidence = some evidence) :
    (s.phase j).evidence = some evidence ∨
      s.shared.db.evidences.find evidence.id = some evidence := by
  rcases h.phase j with hp | ha
  · exact Or.inl (hp ▸ he)
  · exact ha.evidence he

theorem rebase_id (base work current : Decision) : (base.rebase work current).id = current.id := by
  unfold Decision.rebase
  split <;> rfl

theorem rebase_evidenceCount (base work current : Decision) :
    (base.rebase work current).evidenceCount =
      keepColumn base.evidenceCount work.evidenceCount current.evidenceCount := by
  unfold Decision.rebase
  split
  next h => simp [h, keepColumn]
  next => rfl

theorem rebase_cumulativeSeverity (base work current : Decision) :
    (base.rebase work current).cumulativeSeverity =
      keepColumn base.cumulativeSeverity work.cumulativeSeverity current.cumulativeSeverity := by
  unfold Decision.rebase
  split
  next h => simp [h, keepColumn]
  next => rfl

@[simp] theorem Txn.held_id (txn : Txn) (call : AggregateCall) :
    (txn.held call).id = txn.base.id := by
  unfold Txn.held
  split <;> rfl

@[simp] theorem Txn.row_id (txn : Txn) (call : AggregateCall) :
    (txn.row call).id = txn.base.id := by
  simp [Txn.row]

theorem Txn.row_evidenceCount (txn : Txn) (call : AggregateCall) :
    (txn.row call).evidenceCount =
      txn.base.evidenceCount + if txn.newLink then 1 else 0 := by
  simp only [Txn.row, afterState_evidenceCount, Txn.held]
  split
  · rfl
  · omega

theorem Txn.row_cumulativeSeverity (txn : Txn) (call : AggregateCall) :
    (txn.row call).cumulativeSeverity =
      txn.base.cumulativeSeverity + if txn.newLink then txn.evidence.severityScore else 0 := by
  simp only [Txn.row, afterState_cumulativeSeverity, Txn.held]
  split
  · rfl
  · omega

theorem Txn.written_of_found {txn : Txn} (call : AggregateCall) {db : Db} {d : Decision}
    (h : db.decisions.find txn.base.id = some d) :
    txn.written call db = txn.base.rebase (txn.row call) d := by
  simp [Txn.written, h]

@[simp] theorem Txn.written_id (txn : Txn) (call : AggregateCall) (db : Db) :
    (txn.written call db).id = txn.base.id := by
  unfold Txn.written
  split
  next h => rw [rebase_id, db.decisions.keyed _ _ h]
  next => simp

@[simp] theorem Txn.row_tenantId (txn : Txn) (call : AggregateCall) :
    (txn.row call).tenantId = txn.base.tenantId := by
  simp only [Txn.row, afterState_tenantId, Txn.held]
  split <;> rfl

@[simp] theorem Txn.row_windowEnd (txn : Txn) (call : AggregateCall) :
    (txn.row call).windowEnd = txn.base.windowEnd := by
  simp only [Txn.row, afterState, Txn.held]
  split <;> split <;> rfl

theorem rebase_tenantId (base work current : Decision) :
    (base.rebase work current).tenantId =
      keepColumn base.tenantId work.tenantId current.tenantId := by
  unfold Decision.rebase
  split
  next h => simp [h, keepColumn]
  next => rfl

theorem rebase_windowEnd (base work current : Decision) :
    (base.rebase work current).windowEnd =
      keepColumn base.windowEnd work.windowEnd current.windowEnd := by
  unfold Decision.rebase
  split
  next h => simp [h, keepColumn]
  next => rfl

theorem Txn.commit_find (txn : Txn) (call : AggregateCall) (db : Db) (id : Uuid) :
    (txn.commit call db).decisions.find id =
      if id = txn.base.id then some (txn.written call db) else db.decisions.find id := by
  simp only [Txn.commit, KeyedTable.find_put, Txn.written_id]

end ArgusServices

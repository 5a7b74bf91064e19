import ArgusServices.AdvanceEffect

namespace ArgusServices

open Transition

theorem keepColumn_self {α : Type} [DecidableEq α] (base work : α) :
    keepColumn base work base = work := by
  unfold keepColumn
  split
  next h => exact h.symm
  next => rfl

/-- An UPDATE over the row as it was read writes the row of the session. -/
theorem rebase_self {base work : Decision} (h : work.id = base.id) :
    base.rebase work base = work := by
  unfold Decision.rebase
  split
  next hw => exact hw.symm
  next => simp only [keepColumn_self, ← h]

/-- The transaction of a call that works on a row, as `_link_evidence` leaves it. -/
def txnOf (db : Db) (evidence : Evidence) (tenant : Tenant) (d : Decision) (created : Bool) : Txn :=
  ⟨evidence, tenant, d, created, !db.linked d.id evidence.id⟩

variable {db : Db} {call : AggregateCall} {evidence : Evidence} {tenant : Tenant} {d : Decision}
  {created : Bool}

theorem txnOf_held (tenant : Tenant) (created : Bool) :
    (txnOf db evidence tenant d created).held call = afterLink db call d evidence := by
  cases h : db.linked d.id evidence.id <;> simp [txnOf, Txn.held, afterLink, h]

theorem txnOf_links : (txnOf db evidence tenant d created).links = newLinks db d evidence := by
  cases h : db.linked d.id evidence.id <;> simp [txnOf, Txn.links, newLinks, h]

/-- The commit of an undisturbed transaction leaves the rows the serial call leaves. -/
theorem txnOf_commit (hd : ∀ d', db.decisions.find d.id = some d' → d' = d) :
    (txnOf db evidence tenant d created).commit call db =
      stateTx (linkTx db call d evidence) call tenant (afterLink db call d evidence) := by
  have hrow : (txnOf db evidence tenant d created).row call =
      afterState call tenant (afterLink db call d evidence) := by
    rw [← txnOf_held tenant created]
    rfl
  have hid : (afterState call tenant (afterLink db call d evidence)).id = d.id := by simp
  have hwritten : (txnOf db evidence tenant d created).written call db =
      afterState call tenant (afterLink db call d evidence) := by
    unfold Txn.written
    rw [hrow]
    split
    next d' hd' =>
      obtain rfl := hd d' hd'
      exact rebase_self hid
    next => rfl
  simp only [Txn.commit, hwritten, txnOf_links, txnOf_held, stateTx, linkTx]
  rw [KeyedTable.put_put (afterState_id _ _ _)]
  rfl

theorem foldl_send (es : List Event) (ts : List Uuid) (w : World) :
    (es.map Message.event ++ ts.map Message.task).foldl World.send w =
      { w with published := w.published ++ es, notifyWarning := w.notifyWarning ++ ts } := by
  have htasks : ∀ w : World, (ts.map Message.task).foldl World.send w =
      { w with notifyWarning := w.notifyWarning ++ ts } := by
    induction ts with
    | nil => intro w; simp
    | cons t ts ih => intro w; simp [World.send, ih]
  induction es generalizing w with
  | nil => simp [htasks]
  | cons e es ih => simp [World.send, ih]

variable {ι : Type} [DecidableEq ι] {calls : ι → AggregateCall}
  {s : Threads ι World AggregatePhase} {i : ι} {w w' : World} {p p' : AggregatePhase}

/-- The other calls hold no uncommitted rows. -/
def Quiet (calls : ι → AggregateCall) (s : Threads ι World AggregatePhase) (i : ι) : Prop :=
  ∀ j, j ≠ i → (s.phase j).insertedRow (calls j) = none ∧ (s.phase j).lockedRow (calls j) = none

/-- One call alone can bring itself to a phase, with the shared state as given. -/
def Solo (calls : ι → AggregateCall) (s : Threads ι World AggregatePhase) (i : ι) (w : World)
    (p : AggregatePhase) : Prop :=
  ∃ n, Run (Interleaved calls) s (List.replicate n (.advance i)) (s.move i (w, p))

theorem Quiet.not_blocked (h : Quiet calls s i) : ¬Blocked calls (s.move i (w, p)) i := by
  intro hex
  obtain ⟨j, hj, hwait⟩ := hex
  obtain ⟨hins, hlock⟩ := h j hj
  rw [Threads.move_phase_of_ne hj, Threads.move_phase_self] at hwait
  cases p <;> simp [AggregatePhase.waitsFor, hins, hlock] at hwait

theorem Solo.start (h : s.phase i = p) : Solo calls s i s.shared p := by
  refine ⟨0, ?_⟩
  rw [← h, Threads.move_stay]
  exact .nil s

theorem Solo.step (h : Solo calls s i w p) (hq : Quiet calls s i) (hp : p.ended = false)
    (ha : (calls i).advance w p = (w', p')) : Solo calls s i w' p' := by
  obtain ⟨n, hrun⟩ := h
  have hended : ((s.move i (w, p)).phase i).ended = false := by
    rw [Threads.move_phase_self]
    exact hp
  have hstep := Interleaved.advance hended (hq.not_blocked (w := w) (p := p))
  rw [Threads.move_phase_self, Threads.move_shared, ha, Threads.move_move] at hstep
  refine ⟨n + 1, ?_⟩
  rw [List.replicate_succ']
  exact hrun.append (Run.single hstep)

theorem Solo.send_all {txn : Txn} {unsent : List Message} (hq : Quiet calls s i)
    (h : Solo calls s i w (.flushed txn unsent)) :
    Solo calls s i (unsent.foldl World.send w) (.flushed txn []) := by
  induction unsent generalizing w with
  | nil => exact h
  | cons m unsent ih => exact ih (h.step hq rfl rfl)

/-- From its link on, a call alone leaves what the serial call leaves. -/
theorem Solo.commit (hq : Quiet calls s i)
    (h : Solo calls s i w (.linked (txnOf w.db evidence tenant d created)))
    (hd : ∀ d', w.db.decisions.find d.id = some d' → d' = d) :
    Solo calls s i
      { w with
        db := stateTx (linkTx w.db (calls i) d evidence) (calls i) tenant
          (afterLink w.db (calls i) d evidence)
        published := w.published ++ newEvents tenant (afterLink w.db (calls i) d evidence)
        notifyWarning :=
          w.notifyWarning ++ newTasks tenant (afterLink w.db (calls i) d evidence) }
      (.committed (txnOf w.db evidence tenant d created)) := by
  have hflush : (calls i).advance w (.linked (txnOf w.db evidence tenant d created)) =
      (w, .flushed (txnOf w.db evidence tenant d created)
        ((txnOf w.db evidence tenant d created).messages (calls i))) := by
    simp [AggregateCall.advance, txnOf]
  have hsent := (h.step hq rfl hflush).send_all hq
  simp only [Txn.messages, txnOf_held, foldl_send] at hsent
  refine hsent.step hq rfl ?_
  simp only [AggregateCall.advance, txnOf_commit hd]
  rfl

theorem Solo.merge (hq : Quiet calls s i) (h : Solo calls s i w (.loaded evidence tenant))
    (hd : w.openDecision evidence = some d) (hle : evidence.capturedAt ≤ d.windowEnd) :
    Solo calls s i w (.linked (txnOf w.db evidence tenant d false)) := by
  obtain ⟨raw, hraw, hrest⟩ := Option.bind_eq_some_iff.mp hd
  obtain ⟨id, hid, hrow⟩ := Option.bind_eq_some_iff.mp hrest
  have hkey : (calls i).advance w (.loaded evidence tenant) =
      (w, .keyRead evidence tenant raw) := by
    simp only [AggregateCall.advance, hraw]
  have hread : (calls i).advance w (.keyRead evidence tenant raw) =
      (w, .rowRead evidence tenant d) := by
    simp only [AggregateCall.advance, hid, hrow, hle, ↓reduceIte]
  exact ((h.step hq rfl hkey).step hq rfl hread).step hq rfl rfl

theorem Solo.unmerged (hq : Quiet calls s i) (h : Solo calls s i w (.loaded evidence tenant))
    (hopen : w.Unmerged evidence)
    (hparse : ∀ raw, truthy ((w.keys (openDecisionKey evidence)).map RedisEntry.value) = some raw →
      Uuid.parse raw ≠ none) :
    ∃ w', Solo calls s i w' (.creating evidence tenant) ∧
      (w' = w ∨ w' = w.withKey (openDecisionKey evidence) none) := by
  cases hraw : truthy ((w.keys (openDecisionKey evidence)).map RedisEntry.value) with
  | none =>
    have hkey : (calls i).advance w (.loaded evidence tenant) = (w, .creating evidence tenant) := by
      simp only [AggregateCall.advance, hraw]
    exact ⟨w, h.step hq rfl hkey, Or.inl rfl⟩
  | some raw =>
    obtain ⟨id, hid⟩ := Option.ne_none_iff_exists'.mp (hparse raw hraw)
    have hkey : (calls i).advance w (.loaded evidence tenant) =
        (w, .keyRead evidence tenant raw) := by
      simp only [AggregateCall.advance, hraw]
    have hread := h.step hq rfl hkey
    have hod : w.openDecision evidence =
        (w.db.decisions.find id).filter fun d => d.tenantId = evidence.tenantId := by
      simp [World.openDecision, hraw, hid]
    cases hd : w.openDecision evidence with
    | none =>
      have hcreate : (calls i).advance w (.keyRead evidence tenant raw) =
          (w, .creating evidence tenant) := by
        simp only [AggregateCall.advance, hid, ← hod, hd]
      exact ⟨w, hread.step hq rfl hcreate, Or.inl rfl⟩
    | some d =>
      have hlt := hopen d hd
      have hpassed : (calls i).advance w (.keyRead evidence tenant raw) =
          (w, .windowPassed evidence tenant) := by
        simp only [AggregateCall.advance, hid, ← hod, hd]
        rw [if_neg (by omega)]
      exact ⟨_, (hread.step hq rfl hpassed).step hq rfl rfl, Or.inr rfl⟩

/-- A call that nothing fails and no other call disturbs: its steps lead to the state the serial
`aggregate` leaves. -/
theorem aggregate_interleaved (hq : Quiet calls s i) (hbegun : s.phase i = .begun)
    (hr : (calls i).raisesAt = none)
    (hev : s.shared.db.evidences.find (calls i).evidenceId = some evidence)
    (htn : s.shared.db.tenants.find evidence.tenantId = some tenant)
    (hok : ¬Refused s.shared (calls i) evidence tenant) :
    ∃ txn, Solo calls s i (aggregate (calls i) s.shared).2 (.committed txn) := by
  obtain ⟨d, hc⟩ := aggregate_commits hr hev htn hok
  generalize (aggregate (calls i) s.shared).2 = w' at hc
  have hw' : w' = ⟨w'.db, w'.keys, w'.published, w'.notifyWarning⟩ := rfl
  have hload : (calls i).advance s.shared .begun = (s.shared, .loaded evidence tenant) := by
    simp only [AggregateCall.advance, hev, htn]
  have hloaded := (Solo.start hbegun).step hq rfl hload
  have htarget := hc.target
  generalize hkeys : w'.keys = keys at htarget
  cases htarget with
  | merge hd hle =>
    have hrow := (World.openDecision_spec hd).1
    have hlinked := hloaded.merge hq hd hle
    have hdone := hlinked.commit hq fun d' hd' => Option.some.inj (hd'.symm.trans hrow)
    rw [hw', hc.db, hc.published, hc.notifyWarning, hkeys]
    exact ⟨_, hdone⟩
  | create hopen hfree hex =>
    obtain ⟨w, hcreating, hw⟩ := hloaded.unmerged hq hopen
      fun raw hraw hnone => hok (Or.inl ⟨raw, hraw, hnone⟩)
    have hdb : w.db = s.shared.db := by
      rcases hw with rfl | rfl <;> rfl
    have hset : w.withKey (openDecisionKey evidence)
        (some ⟨(calls i).newId.str, some (tenant.aggregationWindowSecs + 300)⟩) =
        s.shared.withKey (openDecisionKey evidence)
          (some ⟨(calls i).newId.str, some (tenant.aggregationWindowSecs + 300)⟩) := by
      rcases hw with rfl | rfl
      · rfl
      · simp [World.withKey]
    have hinsert : (calls i).advance w (.creating evidence tenant) =
        (w, .inserted evidence tenant) := by
      simp [AggregateCall.advance, hdb, hfree]
    have hsetKey : (calls i).advance w (.inserted evidence tenant) =
        (s.shared.withKey (openDecisionKey evidence)
          (some ⟨(calls i).newId.str, some (tenant.aggregationWindowSecs + 300)⟩),
          .keySet evidence tenant) := by
      simp only [AggregateCall.advance, hset]
      rw [if_neg (by omega)]
    have hlinked := ((hcreating.step hq rfl hinsert).step hq rfl hsetKey).step hq rfl rfl
    have hdone := hlinked.commit (d := newDecision (calls i) evidence tenant) hq
      fun d' hd' => by
        have hnone : s.shared.db.decisions.find (calls i).newId = some d' := hd'
        simp [hfree] at hnone
    rw [hw', hc.db, hc.published, hc.notifyWarning, hkeys]
    exact ⟨_, hdone⟩

end ArgusServices

import ArgusServices.Aggregation

namespace ArgusServices

open Effect

/-- The decision the open key of an evidence leads to in a session of its tenant. -/
def World.openDecision (w : World) (evidence : Evidence) : Option Decision := do
  let raw ← truthy ((w.keys (openDecisionKey evidence)).map RedisEntry.value)
  let id ← Uuid.parse raw
  (w.db.decisions.find id).filter fun d => d.tenantId = evidence.tenantId

theorem World.openDecision_spec {w : World} {evidence : Evidence} {d : Decision}
    (h : w.openDecision evidence = some d) :
    w.db.decisions.find d.id = some d ∧ d.tenantId = evidence.tenantId ∧
      ∃ raw id, truthy ((w.keys (openDecisionKey evidence)).map RedisEntry.value) = some raw ∧
        Uuid.parse raw = some id := by
  obtain ⟨raw, hraw, h⟩ := Option.bind_eq_some_iff.mp h
  obtain ⟨id, hid, h⟩ := Option.bind_eq_some_iff.mp h
  obtain ⟨hd, hten⟩ := Option.filter_eq_some_iff.mp h
  have hkey := w.db.decisions.keyed _ _ hd
  subst hkey
  exact ⟨hd, of_decide_eq_true hten, raw, d.id, hraw, hid⟩

/-- No decision the evidence could be merged into. -/
def World.Unmerged (w : World) (evidence : Evidence) : Prop :=
  ∀ d, w.openDecision evidence = some d → d.windowEnd < evidence.capturedAt

/-- The decision a call works on, as found or as inserted, and the keys it leaves. -/
inductive Target (w : World) (call : AggregateCall) (evidence : Evidence) (tenant : Tenant) :
    Decision → (String → Option RedisEntry) → Prop
  | merge {d : Decision} : w.openDecision evidence = some d → evidence.capturedAt ≤ d.windowEnd →
      Target w call evidence tenant d w.keys
  | create : w.Unmerged evidence →
      w.db.decisions.find call.newId = none → 0 < tenant.aggregationWindowSecs + 300 →
      Target w call evidence tenant (newDecision call evidence tenant)
        (Function.update w.keys (openDecisionKey evidence)
          (some ⟨call.newId.str, some (tenant.aggregationWindowSecs + 300)⟩))

def afterLink (db : Db) (call : AggregateCall) (d : Decision) (evidence : Evidence) : Decision :=
  if db.linked d.id evidence.id then d
  else { d.addEvidence evidence with updatedAt := call.now }

def newLinks (db : Db) (d : Decision) (evidence : Evidence) : List DecisionEvidence :=
  if db.linked d.id evidence.id then [] else [linkRow d evidence]

def afterState (call : AggregateCall) (tenant : Tenant) (d : Decision) : Decision :=
  if computeState d tenant = d.state then d
  else { d with state := computeState d tenant, updatedAt := call.now }

def newAudits (tenant : Tenant) (d : Decision) : List AuditRecord :=
  if computeState d tenant = d.state then []
  else [⟨d.tenantId, d.id, "state_change",
    .stateChange d.state (computeState d tenant) d.evidenceCount d.cumulativeSeverity,
    some "worker-aggregator"⟩]

def newEvents (tenant : Tenant) (d : Decision) : List Event :=
  if computeState d tenant = d.state then []
  else [.wsStateChanged d.tenantId d.id d.cameraId d.regionId d.state (computeState d tenant)
      d.cumulativeSeverity d.evidenceCount,
    .busStateChanged d.tenantId d.id (computeState d tenant) d.state]

def newTasks (tenant : Tenant) (d : Decision) : List Uuid :=
  if computeState d tenant ≠ d.state ∧ computeState d tenant = .warning then [d.id] else []

def linkTx (db : Db) (call : AggregateCall) (d : Decision) (evidence : Evidence) : Db :=
  { db with
    decisions := db.decisions.put (afterLink db call d evidence)
    decisionEvidences := db.decisionEvidences ++ newLinks db d evidence }

def stateTx (db : Db) (call : AggregateCall) (tenant : Tenant) (d : Decision) : Db :=
  { db with
    decisions := db.decisions.put (afterState call tenant d)
    auditRecords := db.auditRecords ++ newAudits tenant d }

@[simp] theorem newDecision_id (call : AggregateCall) (evidence : Evidence) (tenant : Tenant) :
    (newDecision call evidence tenant).id = call.newId := rfl

theorem afterLink_of_linked {db : Db} {call : AggregateCall} {d : Decision} {evidence : Evidence}
    (h : db.linked d.id evidence.id = true) : afterLink db call d evidence = d :=
  if_pos h

theorem afterLink_of_new {db : Db} {call : AggregateCall} {d : Decision} {evidence : Evidence}
    (h : db.linked d.id evidence.id = false) :
    afterLink db call d evidence = { d.addEvidence evidence with updatedAt := call.now } :=
  if_neg (ne_true_of_eq_false h)

theorem newLinks_of_linked {db : Db} {d : Decision} {evidence : Evidence}
    (h : db.linked d.id evidence.id = true) : newLinks db d evidence = [] :=
  if_pos h

theorem newLinks_of_new {db : Db} {d : Decision} {evidence : Evidence}
    (h : db.linked d.id evidence.id = false) : newLinks db d evidence = [linkRow d evidence] :=
  if_neg (ne_true_of_eq_false h)

@[simp] theorem afterLink_id (db : Db) (call : AggregateCall) (d : Decision)
    (evidence : Evidence) : (afterLink db call d evidence).id = d.id := by
  unfold afterLink
  split <;> rfl

@[simp] theorem afterState_id (call : AggregateCall) (tenant : Tenant) (d : Decision) :
    (afterState call tenant d).id = d.id := by
  unfold afterState
  split <;> rfl

@[simp] theorem afterLink_tenantId (db : Db) (call : AggregateCall) (d : Decision)
    (evidence : Evidence) : (afterLink db call d evidence).tenantId = d.tenantId := by
  unfold afterLink
  split <;> rfl

@[simp] theorem afterLink_state (db : Db) (call : AggregateCall) (d : Decision)
    (evidence : Evidence) : (afterLink db call d evidence).state = d.state := by
  unfold afterLink
  split <;> rfl

@[simp] theorem afterState_tenantId (call : AggregateCall) (tenant : Tenant) (d : Decision) :
    (afterState call tenant d).tenantId = d.tenantId := by
  unfold afterState
  split <;> rfl

@[simp] theorem afterState_evidenceCount (call : AggregateCall) (tenant : Tenant) (d : Decision) :
    (afterState call tenant d).evidenceCount = d.evidenceCount := by
  unfold afterState
  split <;> rfl

@[simp] theorem afterState_cumulativeSeverity (call : AggregateCall) (tenant : Tenant)
    (d : Decision) : (afterState call tenant d).cumulativeSeverity = d.cumulativeSeverity := by
  unfold afterState
  split <;> rfl

@[simp] theorem afterState_state (call : AggregateCall) (tenant : Tenant) (d : Decision) :
    (afterState call tenant d).state = computeState d tenant := by
  unfold afterState
  split
  next h => exact h.symm
  next => rfl

/-- What makes a call raise in a state where no other system fails it. -/
def Refused (w : World) (call : AggregateCall) (evidence : Evidence) (tenant : Tenant) : Prop :=
  (∃ raw, truthy ((w.keys (openDecisionKey evidence)).map RedisEntry.value) = some raw ∧
    Uuid.parse raw = none) ∨
  (w.Unmerged evidence ∧
    ((w.db.decisions.find call.newId).isSome ∨ tenant.aggregationWindowSecs + 300 ≤ 0))

inductive Cause (w : World) (call : AggregateCall) : Prop
  | outage : call.raisesAt ≠ none → Cause w call
  | noEvidence : w.db.evidences.find call.evidenceId = none → Cause w call
  | noTenant {evidence : Evidence} : w.db.evidences.find call.evidenceId = some evidence →
      w.db.tenants.find evidence.tenantId = none → Cause w call
  | refused {evidence : Evidence} {tenant : Tenant} :
      w.db.evidences.find call.evidenceId = some evidence →
      w.db.tenants.find evidence.tenantId = some tenant → Refused w call evidence tenant →
      Cause w call

/-- The call changes the state of the row and raises after it has published the first event. -/
def FailsAfterPublish (call : AggregateCall) (tenant : Tenant) (d : Decision) : Prop :=
  computeState d tenant ≠ d.state ∧
    (call.raisesAt = some .publishEvent ∨ call.raisesAt = some .commit ∨
      (call.raisesAt = some .notifyDelay ∧ computeState d tenant = .warning))

/-- The messages a call has sent when it raises between its first event and its commit. -/
structure PartlySent (call : AggregateCall) (tenant : Tenant) (d : Decision) (es : List Event)
    (ts : List Uuid) : Prop where
  events : es <+: newEvents tenant d
  tasks : ts <+: newTasks tenant d
  late : es ≠ [] → FailsAfterPublish call tenant d
  events_first : es = [] → ts = []

theorem PartlySent.none (call : AggregateCall) (tenant : Tenant) (d : Decision) :
    PartlySent call tenant d [] [] :=
  ⟨List.nil_prefix, List.nil_prefix, fun h => absurd rfl h, fun _ => rfl⟩

theorem PartlySent.first {call : AggregateCall} {tenant : Tenant} {d : Decision}
    (hnew : computeState d tenant ≠ d.state) (hr : call.raisesAt = some .publishEvent) :
    PartlySent call tenant d ((newEvents tenant d).take 1) [] :=
  ⟨List.take_prefix _ _, List.nil_prefix, fun _ => ⟨hnew, Or.inl hr⟩, fun _ => rfl⟩

theorem PartlySent.both {call : AggregateCall} {tenant : Tenant} {d : Decision}
    (hnew : computeState d tenant ≠ d.state) (hr : call.raisesAt = some .notifyDelay)
    (hwarn : computeState d tenant = .warning) :
    PartlySent call tenant d (newEvents tenant d) [] :=
  ⟨List.prefix_rfl, List.nil_prefix, fun _ => ⟨hnew, Or.inr (Or.inr ⟨hr, hwarn⟩)⟩, fun _ => rfl⟩

theorem PartlySent.all {call : AggregateCall} {tenant : Tenant} {d : Decision}
    (hr : call.raisesAt = some .commit) :
    PartlySent call tenant d (newEvents tenant d) (newTasks tenant d) := by
  refine ⟨List.prefix_rfl, List.prefix_rfl, ?_, ?_⟩
  · intro he
    have hnew : computeState d tenant ≠ d.state := by
      intro hsame
      exact he (if_pos hsame)
    exact ⟨hnew, Or.inr (Or.inl hr)⟩
  · intro he
    by_contra hts
    simp [newEvents, newTasks] at he hts
    exact hts.1 he

/-- The keys and messages a call that raised has left behind, for its evidence and tenant. -/
inductive Leftover (w : World) (call : AggregateCall) (evidence : Evidence) (tenant : Tenant) :
    World → Prop
  | untouched : Leftover w call evidence tenant w
  | keyDeleted : Leftover w call evidence tenant
      { w with keys := Function.update w.keys (openDecisionKey evidence) none }
  | decided {d : Decision} {keys : String → Option RedisEntry} {es : List Event}
      {ts : List Uuid} : Target w call evidence tenant d keys →
      PartlySent call tenant (afterLink w.db call d evidence) es ts →
      Leftover w call evidence tenant { w with
        keys := keys
        published := w.published ++ es
        notifyWarning := w.notifyWarning ++ ts }

/-- A call that raised and was rolled back: its rows are gone. -/
structure RolledBack (call : AggregateCall) (w w' : World) : Prop where
  cause : Cause w call
  leftover : w' = w ∨ ∃ evidence tenant, w.db.evidences.find call.evidenceId = some evidence ∧
    w.db.tenants.find evidence.tenantId = some tenant ∧ Leftover w call evidence tenant w'

/-- A call that committed, with the rows, keys and messages it left. -/
structure Committed (call : AggregateCall) (w w' : World) (evidence : Evidence) (tenant : Tenant)
    (d : Decision) : Prop where
  evidence_found : w.db.evidences.find call.evidenceId = some evidence
  tenant_found : w.db.tenants.find evidence.tenantId = some tenant
  target : Target w call evidence tenant d w'.keys
  db : w'.db = stateTx (linkTx w.db call d evidence) call tenant (afterLink w.db call d evidence)
  published : w'.published = w.published ++ newEvents tenant (afterLink w.db call d evidence)
  notifyWarning :
    w'.notifyWarning = w.notifyWarning ++ newTasks tenant (afterLink w.db call d evidence)

theorem linkEvidence_ends {call : AggregateCall} {d : Decision} {evidence : Evidence}
    {s : Session} (hd : s.tx.decisions.find d.id = some d) :
    Ends (linkEvidence call d evidence) s
      (fun d' t => d' = afterLink s.tx call d evidence ∧
        t = { s with tx := linkTx s.tx call d evidence })
      (fun _ t => t = s ∧ call.raisesAt ≠ none) := by
  simp only [linkEvidence, AggregateCall.at, ends_bind, ends_raiseWhen, ends_get]
  refine ⟨fun h => ⟨trivial, by simp [of_decide_eq_true h]⟩, ?_⟩
  intro _
  split
  next hl =>
    simp only [ends_pure, afterLink, hl, ↓reduceIte, linkTx, newLinks, List.append_nil,
      KeyedTable.put_eq_self hd, and_self]
  next hl =>
    simp only [onTx, saveDecision, ends_bind, ends_modify, ends_pure, afterLink, hl, linkTx,
      newLinks, Bool.false_eq_true, ↓reduceIte, and_self]

/-- Creation inserts the row, sets the key and links; it may raise before or after the key. -/
theorem createAndLink_ends {call : AggregateCall} {evidence : Evidence} {tenant : Tenant}
    {s : Session} {keys : String → Option RedisEntry}
    (hk : keys = Function.update s.world.keys (openDecisionKey evidence)
      (some ⟨call.newId.str, some (tenant.aggregationWindowSecs + 300)⟩)) :
    Ends (createAndLink call evidence tenant) s
      (fun d' t => s.tx.decisions.find call.newId = none ∧
        0 < tenant.aggregationWindowSecs + 300 ∧
        d' = afterLink s.tx call (newDecision call evidence tenant) evidence ∧
        t = { s with
          tx := linkTx s.tx call (newDecision call evidence tenant) evidence
          world := { s.world with keys := keys } })
      (fun _ t => (call.raisesAt ≠ none ∨ (s.tx.decisions.find call.newId).isSome ∨
          tenant.aggregationWindowSecs + 300 ≤ 0) ∧
        (t.world = s.world ∨ (s.tx.decisions.find call.newId = none ∧
          0 < tenant.aggregationWindowSecs + 300 ∧
          t.world = { s.world with keys := keys }))) := by
  simp only [createAndLink, createDecision, AggregateCall.at, onTx, setKey, onWorld, ends_bind,
    ends_raiseWhen, ends_get, ends_modify, ends_pure]
  refine ⟨fun h => ⟨Or.inl (by simp [of_decide_eq_true h]), Or.inl trivial⟩, ?_⟩
  intro _
  refine ⟨fun h => ⟨Or.inr (Or.inl h), Or.inl trivial⟩, ?_⟩
  intro hfree
  refine ⟨fun h => ⟨Or.inl (by simp [of_decide_eq_true h]), Or.inl trivial⟩, ?_⟩
  intro _
  refine ⟨fun h => ⟨Or.inr (Or.inr (of_decide_eq_true h)), Or.inl trivial⟩, ?_⟩
  intro hex
  have hfree' : s.tx.decisions.find call.newId = none := by simpa using hfree
  have hex' : 0 < tenant.aggregationWindowSecs + 300 := by simpa using hex
  refine (linkEvidence_ends (KeyedTable.find_put_self _ _)).mono ?_ ?_
  · intro d' t hpost
    obtain ⟨rfl, rfl⟩ := hpost
    refine ⟨hfree', hex', rfl, ?_⟩
    simp only [linkTx, newLinks, Db.linked, hk]
    rw [KeyedTable.put_put (afterLink_id _ _ _ _)]
    rfl
  · intro e t hpost
    obtain ⟨rfl, hr⟩ := hpost
    exact ⟨Or.inl hr, Or.inr ⟨hfree', hex', by simp only [hk, newDecision_id]⟩⟩

/-- A call that raised before any event: the target is set up, nothing has been sent. -/
theorem Leftover.of_target {w w' : World} {call : AggregateCall} {evidence : Evidence}
    {tenant : Tenant} {d : Decision} {keys : String → Option RedisEntry}
    (h : Target w call evidence tenant d keys) (hw : w' = { w with keys := keys }) :
    Leftover w call evidence tenant w' := by
  have hnone := Leftover.decided h (PartlySent.none call tenant _)
  simpa [hw] using hnone

/-- The session `aggregate` works in once it has switched to the tenant of the evidence. -/
def tenantOf (w : World) (evidence : Evidence) : Session :=
  ⟨w, w.db, some evidence.tenantId, some .tenantAdmin⟩

theorem createAndLink_target {w : World} {call : AggregateCall} {evidence : Evidence}
    {tenant : Tenant} {keys : String → Option RedisEntry}
    (hk : Function.update keys (openDecisionKey evidence)
        (some ⟨call.newId.str, some (tenant.aggregationWindowSecs + 300)⟩) =
      Function.update w.keys (openDecisionKey evidence)
        (some ⟨call.newId.str, some (tenant.aggregationWindowSecs + 300)⟩))
    (hleft : Leftover w call evidence tenant { w with keys := keys })
    (hopen : w.Unmerged evidence) :
    Ends (createAndLink call evidence tenant) (tenantOf { w with keys := keys } evidence)
      (fun d' t => ∃ d keys, Target w call evidence tenant d keys ∧
        d' = afterLink w.db call d evidence ∧
        t = { tenantOf { w with keys := keys } evidence with
          tx := linkTx w.db call d evidence })
      (fun _ t => (call.raisesAt ≠ none ∨ Refused w call evidence tenant) ∧
        Leftover w call evidence tenant t.world) := by
  refine (createAndLink_ends rfl).mono ?_ ?_
  · intro d' t hpost
    obtain ⟨hfree, hex, rfl, rfl⟩ := hpost
    refine ⟨_, _, Target.create hopen hfree hex, rfl, ?_⟩
    simp only [tenantOf, hk]
  · intro e t hpost
    obtain ⟨hcause, hworld⟩ := hpost
    refine ⟨hcause.imp_right fun h => Or.inr ⟨hopen, h⟩, ?_⟩
    rcases hworld with hworld | ⟨hfree, hex, hworld⟩
    · rw [hworld]
      exact hleft
    · apply Leftover.of_target (Target.create hopen hfree hex)
      rw [hworld]
      simp only [tenantOf, hk]

/-- What `_merge_or_create_decision` makes of the reply to its GET. -/
def openRow (call : AggregateCall) (openIdRaw : Option String) : SessionProc (Option Decision) := do
  match truthy openIdRaw with
  | none => pure none
  | some raw => do
    match Uuid.parse raw with
    | none => throw (.valueError "badly formed hexadecimal UUID string")
    | some id =>
      call.at .getDecision
      getDecision id

theorem mergeOrCreateDecision_eq (call : AggregateCall) (evidence : Evidence) (tenant : Tenant) :
    mergeOrCreateDecision call evidence tenant = (do
      call.at .getKey
      let openIdRaw ← getKey (openDecisionKey evidence)
      let found ← openRow call openIdRaw
      match found with
      | some decision =>
        if evidence.capturedAt ≤ decision.windowEnd then
          linkEvidence call decision evidence
        else
          call.at .deleteKey
          deleteKey (openDecisionKey evidence)
          createAndLink call evidence tenant
      | none => createAndLink call evidence tenant) := by
  unfold mergeOrCreateDecision openRow
  congr 1
  funext _
  congr 1
  funext raw
  cases truthy raw with
  | none => rfl
  | some raw =>
    dsimp only
    cases Uuid.parse raw with
    | none => rfl
    | some id => exact (bind_assoc _ _ _).symm

/-- Looking at the open key finds the open decision, unless the key holds no UUID. -/
theorem openRow_ends {w : World} {call : AggregateCall} {evidence : Evidence} :
    Ends (openRow call ((w.keys (openDecisionKey evidence)).map RedisEntry.value))
      (tenantOf w evidence)
      (fun found t => found = w.openDecision evidence ∧ t = tenantOf w evidence ∧
        (∀ raw, truthy ((w.keys (openDecisionKey evidence)).map RedisEntry.value) = some raw →
          (Uuid.parse raw).isSome) ∧
        (found.isSome → call.raisesAt ≠ some .getDecision))
      (fun _ t => t = tenantOf w evidence ∧ (call.raisesAt = some .getDecision ∨
        ∃ raw, truthy ((w.keys (openDecisionKey evidence)).map RedisEntry.value) = some raw ∧
          Uuid.parse raw = none)) := by
  unfold openRow World.openDecision
  cases hraw : truthy ((w.keys (openDecisionKey evidence)).map RedisEntry.value) with
  | none => exact ⟨rfl, rfl, nofun, nofun⟩
  | some raw =>
    cases hid : Uuid.parse raw with
    | none => simpa only [hid] using ⟨rfl, Or.inr ⟨raw, rfl, hid⟩⟩
    | some id =>
      simp only [hid, AggregateCall.at, getDecision, ends_bind, ends_raiseWhen, ends_get, ends_pure]
      refine ⟨fun h => ⟨trivial, Or.inl (of_decide_eq_true h)⟩, ?_⟩
      intro hstep
      refine ⟨?_, trivial, ?_, fun _ => of_decide_eq_false hstep⟩
      · simp [tenantOf, Session.sees, hid, eq_comm]
      · intro raw' hraw'
        obtain rfl := Option.some.inj hraw'
        simp [hid]

theorem mergeOrCreateDecision_ends {w : World} {call : AggregateCall} {evidence : Evidence}
    {tenant : Tenant} :
    Ends (mergeOrCreateDecision call evidence tenant) (tenantOf w evidence)
      (fun d' t => ∃ d keys, Target w call evidence tenant d keys ∧
        d' = afterLink w.db call d evidence ∧
        t = { tenantOf { w with keys := keys } evidence with
          tx := linkTx w.db call d evidence })
      (fun _ t => (call.raisesAt ≠ none ∨ Refused w call evidence tenant) ∧
        Leftover w call evidence tenant t.world) := by
  have raised : ∀ {step : AggregateStep}, decide (call.raisesAt = some step) = true →
      call.raisesAt ≠ none := fun h => by simp [of_decide_eq_true h]
  rw [mergeOrCreateDecision_eq]
  simp only [AggregateCall.at, getKey, ends_bind, ends_raiseWhen, ends_get, ends_pure]
  refine ⟨fun h => ⟨Or.inl (raised h), .untouched⟩, ?_⟩
  intro _
  apply openRow_ends.mono
  · intro found t hpost
    obtain ⟨hfound, rfl, -, -⟩ := hpost
    cases found with
    | none =>
      apply createAndLink_target rfl .untouched
      intro d hd
      cases hfound.trans hd
    | some d =>
      simp only
      split
      next hle =>
        refine (linkEvidence_ends (World.openDecision_spec hfound.symm).1).mono ?_ ?_
        · intro d' t hpost
          obtain ⟨rfl, rfl⟩ := hpost
          exact ⟨d, w.keys, Target.merge hfound.symm hle, rfl, rfl⟩
        · intro e t hpost
          obtain ⟨rfl, hr⟩ := hpost
          exact ⟨Or.inl hr, .untouched⟩
      next hlt =>
        simp only [deleteKey, onWorld, ends_bind, ends_raiseWhen, ends_modify]
        refine ⟨fun h => ⟨Or.inl (raised h), .untouched⟩, ?_⟩
        intro _
        apply createAndLink_target (Function.update_idem _ _ _) .keyDeleted
        intro d' hd'
        obtain rfl := Option.some.inj (hfound.trans hd')
        omega
  · intro e t hpost
    obtain ⟨rfl, hcause⟩ := hpost
    exact ⟨hcause.imp (fun h => by simp [h]) Or.inl, .untouched⟩

theorem applyStateTransitions_ends {call : AggregateCall} {tenant : Tenant} {d : Decision}
    {s : Session} (hd : s.tx.decisions.find d.id = some d) :
    Ends (applyStateTransitions call d tenant) s
      (fun d' t => d' = afterState call tenant d ∧
        t = { s with
          tx := stateTx s.tx call tenant d
          world := { s.world with
            published := s.world.published ++ newEvents tenant d
            notifyWarning := s.world.notifyWarning ++ newTasks tenant d } })
      (fun _ t => call.raisesAt ≠ none ∧ ∃ es ts, PartlySent call tenant d es ts ∧
        t.world = { s.world with
          published := s.world.published ++ es
          notifyWarning := s.world.notifyWarning ++ ts }) := by
  have raised : ∀ {step : AggregateStep}, decide (call.raisesAt = some step) = true →
      call.raisesAt ≠ none := fun h => by simp [of_decide_eq_true h]
  have unsent := PartlySent.none call tenant d
  simp only [applyStateTransitions]
  split
  next hsame =>
    simp only [ends_pure, afterState, stateTx, newAudits, newEvents, newTasks, hsame, ↓reduceIte,
      List.append_nil, KeyedTable.put_eq_self hd, ne_eq, not_true_eq_false, false_and, and_self]
  next hnew =>
    simp only [AggregateCall.at, saveDecision, writeAuditRecord, emitStateChange, publish, onTx,
      onWorld, ends_bind, ends_raiseWhen, ends_modify]
    refine ⟨fun h => ⟨raised h, [], [], unsent, by simp⟩, ?_⟩
    intro _
    refine ⟨fun h => ⟨raised h, [], [], unsent, by simp⟩, ?_⟩
    intro _
    constructor
    · intro h
      refine ⟨raised h, _, [], .first hnew (of_decide_eq_true h), ?_⟩
      simp [newEvents, hnew]
    intro _
    split
    next hwarn =>
      simp only [ends_bind, ends_raiseWhen, ends_modify, ends_pure]
      constructor
      · intro h
        refine ⟨raised h, _, [], .both hnew (of_decide_eq_true h) hwarn, ?_⟩
        simp [newEvents, hnew]
      · intro _
        simp [afterState, stateTx, newAudits, newEvents, newTasks, hwarn ▸ hnew, hwarn]
    next hother =>
      simp [afterState, stateTx, newAudits, newEvents, newTasks, hnew, hother]

/-- The steps of `aggregate` before it looks for a decision. -/
def AggregateStep.loads : AggregateStep → Bool
  | .setSessionContext | .getEvidence | .switchTenant | .getTenant => true
  | _ => false

def loadEvidence (call : AggregateCall) : SessionProc (Evidence × Tenant) := do
  call.at .setSessionContext
  setSessionContext none .rootAdmin
  call.at .getEvidence
  let s ← get
  match s.tx.evidences.find call.evidenceId with
  | none => throw (.valueError ("Evidence not found: " ++ call.evidenceId.str))
  | some evidence =>
    call.at .switchTenant
    setSessionContext (some evidence.tenantId) .tenantAdmin
    call.at .getTenant
    match s.tx.tenants.find evidence.tenantId with
    | none => throw (.valueError ("Tenant not found: " ++ evidence.tenantId.str))
    | some tenant => pure (evidence, tenant)

theorem aggregateBody_eq (call : AggregateCall) :
    aggregateBody call = (do
      let loaded ← loadEvidence call
      let merged ← mergeOrCreateDecision call loaded.1 loaded.2
      let decision ← applyStateTransitions call merged loaded.2
      call.at .commit
      commit
      call.at .closeSession
      pure decision) := by
  simp only [aggregateBody, loadEvidence, bind_assoc]
  congr 1
  funext _
  congr 1
  funext _
  congr 1
  funext _
  congr 1
  funext s
  cases s.tx.evidences.find call.evidenceId with
  | none => rfl
  | some evidence =>
    simp only [bind_assoc]
    congr 1
    funext _
    congr 1
    funext _
    congr 1
    funext _
    cases s.tx.tenants.find evidence.tenantId with
    | none => rfl
    | some tenant => rfl

theorem loadEvidence_ends {call : AggregateCall} {w : World} :
    Ends (loadEvidence call) (Session.open w)
      (fun loaded t => t = tenantOf w loaded.1 ∧
        w.db.evidences.find call.evidenceId = some loaded.1 ∧
        w.db.tenants.find loaded.1.tenantId = some loaded.2 ∧
        call.raisesAt.any AggregateStep.loads = false)
      (fun _ t => t.world = w ∧ t.tx = w.db ∧
        (call.raisesAt.any AggregateStep.loads = true ∨
          w.db.evidences.find call.evidenceId = none ∨
          ∃ evidence, w.db.evidences.find call.evidenceId = some evidence ∧
            w.db.tenants.find evidence.tenantId = none)) := by
  have raised : ∀ {step : AggregateStep}, decide (call.raisesAt = some step) = true →
      step.loads = true → call.raisesAt.any AggregateStep.loads = true := fun h hstep => by
    simp [of_decide_eq_true h, hstep]
  simp only [loadEvidence, AggregateCall.at, setSessionContext, ends_bind, ends_raiseWhen,
    ends_get, ends_modify]
  refine ⟨fun h => ⟨rfl, rfl, Or.inl (raised h rfl)⟩, ?_⟩
  intro hcontext
  refine ⟨fun h => ⟨rfl, rfl, Or.inl (raised h rfl)⟩, ?_⟩
  intro hevidence
  simp only [Session.open]
  cases hev : w.db.evidences.find call.evidenceId with
  | none => exact ⟨rfl, rfl, Or.inr (Or.inl rfl)⟩
  | some evidence =>
    simp only [ends_bind, ends_raiseWhen, ends_modify, Option.some_or]
    refine ⟨fun h => ⟨trivial, trivial, Or.inl (raised h rfl)⟩, ?_⟩
    intro hswitch
    refine ⟨fun h => ⟨trivial, trivial, Or.inl (raised h rfl)⟩, ?_⟩
    intro htenant
    cases htn : w.db.tenants.find evidence.tenantId with
    | none => exact ⟨rfl, rfl, Or.inr (Or.inr ⟨evidence, rfl, htn⟩)⟩
    | some tenant =>
      refine ⟨rfl, rfl, htn, ?_⟩
      rw [Option.any_eq_false]
      intro step hstep
      cases step with
      | setSessionContext => exact absurd hstep (of_decide_eq_false hcontext)
      | getEvidence => exact absurd hstep (of_decide_eq_false hevidence)
      | switchTenant => exact absurd hstep (of_decide_eq_false hswitch)
      | getTenant => exact absurd hstep (of_decide_eq_false htenant)
      | _ => rfl

theorem aggregateBody_ends (call : AggregateCall) (w : World) :
    Ends (aggregateBody call) (Session.open w)
      (fun _ t => ∃ evidence tenant d, Committed call w t.world evidence tenant d)
      (fun _ t => RolledBack call w t.world ∨
        ∃ evidence tenant d, Committed call w t.world evidence tenant d) := by
  rw [aggregateBody_eq]
  refine ends_bind.mpr (loadEvidence_ends.mono ?_ ?_)
  · intro loaded t hpost
    obtain ⟨evidence, tenant⟩ := loaded
    obtain ⟨rfl, hev, htn, -⟩ := hpost
    refine ends_bind.mpr (mergeOrCreateDecision_ends.mono ?_ ?_)
    · intro d' t hpost
      obtain ⟨d, keys, htarget, rfl, rfl⟩ := hpost
      refine ends_bind.mpr
        ((applyStateTransitions_ends (KeyedTable.find_put_self _ _)).mono ?_ ?_)
      · intro d'' t hpost
        obtain ⟨rfl, rfl⟩ := hpost
        simp only [AggregateCall.at, commit, ends_bind, ends_raiseWhen, ends_modify, ends_pure]
        constructor
        · intro h
          have hcommit : call.raisesAt = some .commit := of_decide_eq_true h
          refine Or.inl ⟨.outage (by simp [hcommit]), Or.inr ⟨evidence, tenant, hev, htn, ?_⟩⟩
          exact .decided htarget (.all hcommit)
        · intro _
          have hdone : Committed call w
              { db := stateTx (linkTx w.db call d evidence) call tenant
                  (afterLink w.db call d evidence)
                keys := keys
                published := w.published ++ newEvents tenant (afterLink w.db call d evidence)
                notifyWarning :=
                  w.notifyWarning ++ newTasks tenant (afterLink w.db call d evidence) }
              evidence tenant d := ⟨hev, htn, htarget, rfl, rfl, rfl⟩
          exact ⟨fun _ => Or.inr ⟨evidence, tenant, d, hdone⟩, fun _ =>
            ⟨evidence, tenant, d, hdone⟩⟩
      · intro e t hpost
        obtain ⟨hr, es, ts, hsent, hw⟩ := hpost
        refine Or.inl ⟨.outage hr, Or.inr ⟨evidence, tenant, hev, htn, ?_⟩⟩
        rw [hw]
        exact .decided htarget hsent
    · intro e t hpost
      obtain ⟨hcause, hleft⟩ := hpost
      refine Or.inl ⟨?_, Or.inr ⟨evidence, tenant, hev, htn, hleft⟩⟩
      exact hcause.elim .outage (.refused hev htn)
  · intro e t hpost
    obtain ⟨hw, -, hcause⟩ := hpost
    refine Or.inl ⟨?_, Or.inl hw⟩
    rcases hcause with hr | hev | ⟨evidence, hev, htn⟩
    · refine .outage ?_
      intro hnone
      simp [hnone] at hr
    · exact .noEvidence hev
    · exact .noTenant hev htn

/-- All a call of `aggregate` can do: commit, or leave the rows as they were. -/
theorem aggregate_cases (call : AggregateCall) (w : World) :
    RolledBack call w (aggregate call w).2 ∨
      ∃ evidence tenant d, Committed call w (aggregate call w).2 evidence tenant d := by
  have h := aggregateBody_ends call w
  unfold aggregate runSession
  rcases hx : exec (aggregateBody call) (Session.open w) with ⟨r | r, t⟩
  · exact h.error hx
  · exact Or.inr (h.ok hx)

theorem Leftover.db {call : AggregateCall} {w w' : World} {evidence : Evidence} {tenant : Tenant}
    (h : Leftover w call evidence tenant w') : w'.db = w.db := by
  cases h <;> rfl

theorem RolledBack.db {call : AggregateCall} {w w' : World} (h : RolledBack call w w') :
    w'.db = w.db := by
  rcases h.leftover with rfl | ⟨evidence, tenant, _, _, hleft⟩
  · rfl
  · exact hleft.db

/-- In a state with no open decision for it, or with one, a call that nothing fails commits. -/
theorem aggregate_commits {call : AggregateCall} {w : World} {evidence : Evidence}
    {tenant : Tenant} (hr : call.raisesAt = none)
    (hev : w.db.evidences.find call.evidenceId = some evidence)
    (htn : w.db.tenants.find evidence.tenantId = some tenant)
    (hok : ¬Refused w call evidence tenant) :
    ∃ d, Committed call w (aggregate call w).2 evidence tenant d := by
  rcases aggregate_cases call w with h | ⟨evidence', tenant', d, h⟩
  · cases h.cause with
    | outage h => exact absurd hr h
    | noEvidence h => simp [hev] at h
    | noTenant hev' h =>
      obtain rfl := Option.some.inj (hev.symm.trans hev')
      simp [htn] at h
    | refused hev' htn' h =>
      obtain rfl := Option.some.inj (hev.symm.trans hev')
      obtain rfl := Option.some.inj (htn.symm.trans htn')
      exact absurd h hok
  · obtain rfl := Option.some.inj (hev.symm.trans h.evidence_found)
    obtain rfl := Option.some.inj (htn.symm.trans h.tenant_found)
    exact ⟨d, h⟩

theorem not_refused_of_merge {w : World} {call : AggregateCall} {evidence : Evidence}
    {tenant : Tenant} {d : Decision} (hd : w.openDecision evidence = some d)
    (hle : evidence.capturedAt ≤ d.windowEnd) : ¬Refused w call evidence tenant := by
  obtain ⟨_, _, raw, id, hraw, hid⟩ := World.openDecision_spec hd
  intro hcase
  rcases hcase with ⟨raw', hraw', hnone⟩ | ⟨hno, _⟩
  · obtain rfl := Option.some.inj (hraw.symm.trans hraw')
    simp [hid] at hnone
  · have := hno d hd
    omega

end ArgusServices

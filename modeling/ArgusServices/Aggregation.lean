import ArgusServices.Store

namespace ArgusServices

open Effect

/-- The points at which a call of `aggregate` waits for another system and may raise. A step that
raises has not taken effect; a command whose reply is lost is the raise at the step after it. -/
inductive AggregateStep
  | setSessionContext | getEvidence | switchTenant | getTenant | getKey | getDecision | deleteKey
  | flushDecision | setKey | selectLink | flushAudit | publishWsEvent | publishEvent
  | notifyDelay | commit | closeSession
  deriving DecidableEq, Repr

/-- One call: `newId` is the value `uuid4` yields for a decision it creates, `now` the database
time of its transaction, `raisesAt` the step that raises, if one does. -/
structure AggregateCall where
  evidenceId : Uuid
  newId : Uuid
  now : Int
  raisesAt : Option AggregateStep
  deriving DecidableEq, Repr

def AggregateCall.at (call : AggregateCall) (step : AggregateStep) : SessionProc Unit :=
  raiseWhen (call.raisesAt = some step) .outage

def regionKey (evidence : Evidence) : String :=
  match evidence.regionId with
  | some id => id.str
  | none => "none"

/-- `OPEN_DECISION_KEY.format(...)`. -/
def openDecisionKey (evidence : Evidence) : String :=
  "decision:open:" ++ (evidence.tenantId.str ++ (":" ++ (evidence.cameraId.str ++
    (":" ++ regionKey evidence))))

def computeState (decision : Decision) (tenant : Tenant) : DecisionState :=
  if decision.cumulativeSeverity ≥ tenant.warningThreshold then .warning
  else if decision.evidenceCount ≥ tenant.weirdThreshold then .weird
  else .normal

def newDecision (call : AggregateCall) (evidence : Evidence) (tenant : Tenant) : Decision where
  id := call.newId
  tenantId := evidence.tenantId
  cameraId := evidence.cameraId
  regionId := evidence.regionId
  state := .normal
  cumulativeSeverity := 0
  evidenceCount := 0
  windowStart := evidence.capturedAt
  windowEnd := evidence.capturedAt + seconds tenant.aggregationWindowSecs
  firstEvidenceAt := some evidence.capturedAt
  lastEvidenceAt := some evidence.capturedAt
  resolvedAt := none
  resolvedBy := none
  updatedAt := call.now

def createDecision (call : AggregateCall) (evidence : Evidence) (tenant : Tenant) :
    SessionProc Decision := do
  call.at .flushDecision
  let s ← get
  raiseWhen (s.tx.decisions.find call.newId).isSome (.integrityError "decisions_pkey")
  let decision := newDecision call evidence tenant
  onTx fun db => { db with decisions := db.decisions.put decision }
  pure decision

/-- The counters and times `_link_evidence` changes on the row it holds. -/
def Decision.addEvidence (decision : Decision) (evidence : Evidence) : Decision :=
  { decision with
    evidenceCount := decision.evidenceCount + 1
    cumulativeSeverity := decision.cumulativeSeverity + evidence.severityScore
    lastEvidenceAt := some evidence.capturedAt
    firstEvidenceAt := decision.firstEvidenceAt.or (some evidence.capturedAt) }

def linkRow (decision : Decision) (evidence : Evidence) : DecisionEvidence :=
  ⟨evidence.tenantId, decision.id, evidence.id⟩

/-- The row that `_link_evidence` selects to find an existing link. -/
def Db.linked (db : Db) (decisionId evidenceId : Uuid) : Bool :=
  db.decisionEvidences.any fun l => l.decisionId = decisionId && l.evidenceId = evidenceId

def linkEvidence (call : AggregateCall) (decision : Decision) (evidence : Evidence) :
    SessionProc Decision := do
  call.at .selectLink
  let s ← get
  if s.tx.linked decision.id evidence.id then
    pure decision
  else
    onTx fun db =>
      { db with decisionEvidences := db.decisionEvidences ++ [linkRow decision evidence] }
    saveDecision call.now (decision.addEvidence evidence)
    pure { decision.addEvidence evidence with updatedAt := call.now }

def createAndLink (call : AggregateCall) (evidence : Evidence) (tenant : Tenant) :
    SessionProc Decision := do
  let decision ← createDecision call evidence tenant
  call.at .setKey
  setKey (openDecisionKey evidence) decision.id.str (tenant.aggregationWindowSecs + 300)
  linkEvidence call decision evidence

def mergeOrCreateDecision (call : AggregateCall) (evidence : Evidence) (tenant : Tenant) :
    SessionProc Decision := do
  call.at .getKey
  let openIdRaw ← getKey (openDecisionKey evidence)
  let found ← match truthy openIdRaw with
    | none => pure none
    | some raw => do
      match Uuid.parse raw with
      | none => throw (.valueError "badly formed hexadecimal UUID string")
      | some id =>
        call.at .getDecision
        getDecision id
  match found with
  | some decision =>
    if evidence.capturedAt ≤ decision.windowEnd then
      linkEvidence call decision evidence
    else
      call.at .deleteKey
      deleteKey (openDecisionKey evidence)
      createAndLink call evidence tenant
  | none => createAndLink call evidence tenant

def emitStateChange (call : AggregateCall) (decision : Decision)
    (oldState newState : DecisionState) : SessionProc Unit := do
  call.at .publishWsEvent
  publish (.wsStateChanged decision.tenantId decision.id decision.cameraId decision.regionId
    oldState newState decision.cumulativeSeverity decision.evidenceCount)
  call.at .publishEvent
  publish (.busStateChanged decision.tenantId decision.id newState oldState)
  if newState = .warning then
    call.at .notifyDelay
    onWorld fun w => { w with notifyWarning := w.notifyWarning ++ [decision.id] }
  else
    pure ()

def applyStateTransitions (call : AggregateCall) (decision : Decision) (tenant : Tenant) :
    SessionProc Decision := do
  let newState := computeState decision tenant
  if newState = decision.state then
    pure decision
  else
    call.at .flushAudit
    saveDecision call.now { decision with state := newState }
    writeAuditRecord decision "state_change"
      (.stateChange decision.state newState decision.evidenceCount decision.cumulativeSeverity)
      (some "worker-aggregator")
    emitStateChange call decision decision.state newState
    pure { decision with state := newState, updatedAt := call.now }

def aggregateBody (call : AggregateCall) : SessionProc Decision := do
  call.at .setSessionContext
  setSessionContext none .rootAdmin
  call.at .getEvidence
  let s ← get
  match s.tx.evidences.find call.evidenceId with
  | none => throw (.valueError ("Evidence not found: " ++ call.evidenceId.str))
  | some evidence =>
    call.at .switchTenant
    setSessionContext (some evidence.tenantId) .tenantAdmin
    call.at .getTenant
    match s.tx.tenants.find evidence.tenantId with
    | none => throw (.valueError ("Tenant not found: " ++ evidence.tenantId.str))
    | some tenant =>
      let merged ← mergeOrCreateDecision call evidence tenant
      let decision ← applyStateTransitions call merged tenant
      call.at .commit
      commit
      call.at .closeSession
      pure decision

def aggregate (call : AggregateCall) (w : World) : Except Exn Decision × World :=
  runSession (aggregateBody call) w

end ArgusServices

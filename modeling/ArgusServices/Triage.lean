import ArgusServices.Store

namespace ArgusServices

open Effect

/-- The code points `str.strip()` removes. -/
def isSpace (c : Char) : Bool :=
  (9 ≤ c.toNat && c.toNat ≤ 13) || (28 ≤ c.toNat && c.toNat ≤ 32) ||
    (8192 ≤ c.toNat && c.toNat ≤ 8202) ||
    [133, 160, 5760, 8232, 8233, 8239, 8287, 12288].contains c.toNat

def blank (s : String) : Bool :=
  s.toList.all isSpace

structure ResolveDecisionRequest where
  disposition : FeedbackDisposition
  reasoning : String
  updatedAt : Int
  deriving DecidableEq, Repr

/-- The model validator of `ResolveDecisionRequest`. -/
def ResolveDecisionRequest.requireReasoningForFpFn (body : ResolveDecisionRequest) : Bool :=
  match body.disposition with
  | .falsePositive | .falseNegative => !blank body.reasoning
  | .truePositive => true

structure AuthContext where
  sub : String
  tenantId : Option Uuid
  role : UserRole
  deriving DecidableEq, Repr

structure ResolveDecisionResponse where
  decisionId : Uuid
  state : DecisionState
  resolvedAt : Int
  resolvedBy : String
  deriving DecidableEq, Repr

/-- The points at which a resolve request waits for another system and may raise. -/
inductive ResolveStep
  | setSessionContext | getDecision | generateEmbedding | flushFeedback | flushAudit
  | publishWsEvent | commit
  deriving DecidableEq, Repr

/-- One request: `clock` is the reading of `datetime.now(UTC)` in the handler, `now` the database
time of its transaction, `raisesAt` the step that raises, if one does. -/
structure ResolveCall where
  tenantId : Uuid
  decisionId : Uuid
  body : ResolveDecisionRequest
  auth : AuthContext
  clock : Int
  now : Int
  raisesAt : Option ResolveStep
  deriving DecidableEq, Repr

def ResolveCall.at (call : ResolveCall) (step : ResolveStep) : SessionProc Unit :=
  raiseWhen (call.raisesAt = some step) .outage

def requireTenantAccess (tenantId : Uuid) (auth : AuthContext) : SessionProc Unit :=
  raiseWhen (auth.role ≠ .rootAdmin ∧ auth.tenantId ≠ some tenantId)
    (.httpException 403 "Tenant access denied")

def requireRole (roles : List UserRole) (auth : AuthContext) : SessionProc Unit :=
  raiseWhen (auth.role ∉ roles) (.httpException 403 "Insufficient permissions")

/-- `get_tenant_db` up to its yield. -/
def getTenantDb (call : ResolveCall) : SessionProc Unit := do
  requireTenantAccess call.tenantId call.auth
  call.at .setSessionContext
  if call.auth.role = .rootAdmin then
    setSessionContext (some call.tenantId) .tenantAdmin
  else
    setSessionContext call.auth.tenantId call.auth.role

def createFeedbackWithEmbedding (call : ResolveCall) (decision : Decision) :
    SessionProc Unit := do
  call.at .generateEmbedding
  call.at .flushFeedback
  let s ← get
  raiseWhen (s.tx.feedback.any fun f => f.decisionId = decision.id)
    (.integrityError "feedback_decision_id_key")
  let reasoning :=
    if call.body.reasoning = "" then call.body.disposition.value else call.body.reasoning
  onTx fun db => { db with feedback := db.feedback ++
    [⟨call.tenantId, decision.id, call.body.disposition, reasoning, call.auth.sub⟩] }

/-- The row as the handler leaves it. -/
def Decision.resolve (decision : Decision) (call : ResolveCall) : Decision :=
  { decision with
    state := dispositionToState call.body.disposition
    resolvedAt := some call.clock
    resolvedBy := some call.auth.sub }

def resolveDecisionHandler (call : ResolveCall) : SessionProc ResolveDecisionResponse := do
  call.at .getDecision
  match (← getDecision call.decisionId) with
  | none => throw (.httpException 404 "Decision not found")
  | some decision =>
    raiseWhen (decision.tenantId ≠ call.tenantId) (.httpException 404 "Decision not found")
    raiseWhen (decision.updatedAt ≠ call.body.updatedAt)
      (.httpException 409 "Decision was updated by another watcher")
    raiseWhen decision.state.resolved (.httpException 409 "Decision already resolved")
    saveDecision call.now (decision.resolve call)
    createFeedbackWithEmbedding call decision
    call.at .flushAudit
    writeAuditRecord decision "resolved" (.resolved call.body.disposition call.body.reasoning)
      (some call.auth.sub)
    call.at .publishWsEvent
    publish (.wsResolved call.tenantId decision.id (dispositionToState call.body.disposition)
      call.auth.sub call.clock)
    pure ⟨decision.id, dispositionToState call.body.disposition, call.clock, call.auth.sub⟩

/-- The request: dependencies, body validation, handler, and the commit of `get_db`. The answer to
a body the validator refuses would name its ValueError, which `JSONResponse` cannot write. -/
def resolveDecisionBody (call : ResolveCall) : SessionProc ResolveDecisionResponse := do
  getTenantDb call
  requireRole [.watcher, .tenantAdmin] call.auth
  raiseWhen (!call.body.requireReasoningForFpFn)
    (.typeError "Object of type ValueError is not JSON serializable")
  let response ← resolveDecisionHandler call
  call.at .commit
  commit
  pure response

def resolveDecision (call : ResolveCall) (w : World) :
    Except Exn ResolveDecisionResponse × World :=
  runSession (resolveDecisionBody call) w

end ArgusServices

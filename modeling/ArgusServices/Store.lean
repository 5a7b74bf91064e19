import ArgusServices.Domain
import ArgusServices.Effect
import ArgusServices.KeyedTable

namespace ArgusServices

open Effect

/-- The tables the pipeline reads and writes, keyed where a row is looked up by its id. -/
structure Db where
  tenants : KeyedTable Uuid Tenant Tenant.id
  evidences : KeyedTable Uuid Evidence Evidence.id
  decisions : KeyedTable Uuid Decision Decision.id
  decisionEvidences : List DecisionEvidence
  feedback : List Feedback
  auditRecords : List AuditRecord

inductive Event
  | wsStateChanged (tenantId decisionId cameraId : Uuid) (regionId : Option Uuid)
      (previousState currentState : DecisionState) (cumulativeSeverity evidenceCount : Int)
  | busStateChanged (tenantId decisionId : Uuid) (currentState previousState : DecisionState)
  | wsResolved (tenantId decisionId : Uuid) (state : DecisionState) (resolvedBy : String)
      (resolvedAt : Int)
  deriving DecidableEq, Repr

/-- A value with the time to live it was set with, in seconds. -/
structure RedisEntry where
  value : String
  ex : Option Int
  deriving DecidableEq, Repr

/-- What outlives a call: the committed rows, the Redis keys, the events handed to the WebSocket
channel and the event bus, and the decisions named by enqueued `notify_warning` tasks. -/
structure World where
  db : Db
  keys : String → Option RedisEntry
  published : List Event
  notifyWarning : List Uuid

inductive Exn
  | valueError (message : String)
  | overflowError (message : String)
  | httpException (statusCode : Nat) (detail : String)
  | integrityError (constraint : String)
  | responseError (message : String)
  | keyError (key : String)
  | typeError (message : String)
  | attributeError (message : String)
  | indexError (message : String)
  | outage
  deriving DecidableEq, Repr

/-- A session: `tx` is what its transaction sees, the committed rows with its own writes;
`tenant` and `role` are the settings the row-level policies read. -/
structure Session where
  world : World
  tx : Db
  tenant : Option Uuid
  role : Option UserRole

abbrev SessionProc (α : Type) := Proc Session Exn α

def Session.open (w : World) : Session :=
  ⟨w, w.db, none, none⟩

/-- The select policies of a tenant-scoped table, combined by OR. -/
def Session.sees (s : Session) (tenantId : Uuid) : Bool :=
  s.tenant = some tenantId || s.role = some .rootAdmin

def setSessionContext (tenantId : Option Uuid) (role : UserRole) : SessionProc Unit :=
  modify fun s => { s with tenant := tenantId.or s.tenant, role := some role }

def commit : SessionProc Unit :=
  modify fun s => { s with world := { s.world with db := s.tx } }

/-- The session of `tenant_session` and `get_db`: on an exception the uncommitted rows are
dropped, Redis and the queues keep what was sent to them. -/
def runSession {α : Type} (body : SessionProc α) (w : World) : Except Exn α × World :=
  let r := exec body (Session.open w)
  (r.1, r.2.world)

def onTx (f : Db → Db) : SessionProc Unit :=
  modify fun s => { s with tx := f s.tx }

def onWorld (f : World → World) : SessionProc Unit :=
  modify fun s => { s with world := f s.world }

/-- The test `if raw:` on the reply of a Redis GET. -/
def truthy (raw : Option String) : Option String :=
  raw.filter (· ≠ "")

theorem truthy_some {raw : String} (h : raw ≠ "") : truthy (some raw) = some raw := by
  simp [truthy, Option.filter_some, h]

def getKey (key : String) : SessionProc (Option String) := do
  let s ← get
  pure ((s.world.keys key).map RedisEntry.value)

/-- Redis refuses a time to live that is not positive. -/
def setKey (key value : String) (ex : Int) : SessionProc Unit := do
  raiseWhen (ex ≤ 0) (.responseError "invalid expire time in 'set' command")
  onWorld fun w => { w with keys := Function.update w.keys key (some ⟨value, some ex⟩) }

def deleteKey (key : String) : SessionProc Unit :=
  onWorld fun w => { w with keys := Function.update w.keys key none }

def publish (e : Event) : SessionProc Unit :=
  onWorld fun w => { w with published := w.published ++ [e] }

/-- `session.get(Decision, id)`: a row the policies hide is not found. -/
def getDecision (id : Uuid) : SessionProc (Option Decision) := do
  let s ← get
  pure ((s.tx.decisions.find id).filter fun d => s.sees d.tenantId)

/-- The UPDATE of a changed row; `onupdate` stamps it with the transaction's `now()`. -/
def saveDecision (now : Int) (d : Decision) : SessionProc Unit :=
  onTx fun db => { db with decisions := db.decisions.put { d with updatedAt := now } }

def writeAuditRecord (d : Decision) (eventType : String) (payload : AuditPayload)
    (actor : Option String) : SessionProc Unit :=
  onTx fun db =>
    { db with auditRecords := db.auditRecords ++ [⟨d.tenantId, d.id, eventType, payload, actor⟩] }

end ArgusServices

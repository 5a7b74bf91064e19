import ArgusServices.Configuration
import ArgusServices.Notifier
import ArgusServices.Triage

namespace ArgusServices

open Effect

/-- The tables the admin requests write; a row is only ever added to them. -/
structure ConfigDb where
  tenants : KeyedTable Uuid Tenant Tenant.id
  markets : List Market
  cameras : List Camera
  regions : List RegionOfInterest
  contextModes : List ContextMode
  schedules : List ContextModeSchedule
  lenses : List StoredLens
  rules : List StoredRule
  regionMappings : List RuleRegionMapping
  notificationConfigs : List NotificationConfig

structure CreateMarketRequest where
  name : String
  timezone : String
  deriving DecidableEq, Repr

structure CreateCameraRequest where
  name : String
  edgeDeviceId : String
  deriving DecidableEq, Repr

structure CreateRegionRequest where
  name : String
  polygon : List (List (String × PyFloat))

structure CreateContextModeRequest where
  name : String
  description : Option String
  deriving DecidableEq, Repr

structure CreateScheduleRequest where
  dayOfWeek : ScheduleDay
  startTime : Int
  endTime : Int
  marketId : Option Uuid
  deriving DecidableEq, Repr

structure CreateLensRequest where
  name : String
  systemPrompt : String
  outputSchema : List (String × Json)

structure CreateRuleRequest where
  contextModeId : Uuid
  name : String
  condition : List (String × Json)
  severityWeight : Int
  regionIds : List Uuid

structure CreateNotificationConfigRequest where
  channel : NotificationChannel
  recipient : String
  deriving DecidableEq, Repr

structure RuleResponse where
  id : Uuid
  contextModeId : Uuid
  name : String
  condition : List (String × Json)
  severityWeight : Int
  regionIds : List Uuid

/-- The create operations, with what their paths name besides the tenant. -/
inductive AdminBody
  | createMarket (body : CreateMarketRequest)
  | createCamera (marketId : Uuid) (body : CreateCameraRequest)
  | createRegion (cameraId : Uuid) (body : CreateRegionRequest)
  | createContextMode (body : CreateContextModeRequest)
  | createSchedule (modeId : Uuid) (body : CreateScheduleRequest)
  | createLens (modeId : Uuid) (body : CreateLensRequest)
  | createRule (body : CreateRuleRequest)
  | createNotificationConfig (body : CreateNotificationConfigRequest)

/-- One request: `newId` is the value `uuid4` yields for its row, `flushRaises` whether the
database refuses the row for a reason of its own, and `commit` how the commit ends. -/
structure AdminCall where
  auth : AuthContext
  tenantId : Uuid
  newId : Uuid
  flushRaises : Bool
  commit : Reply
  body : AdminBody

/-- A session on these tables; `tenant` and `role` are the settings the row-level policies read. -/
structure ConfigSession where
  tx : ConfigDb
  tenant : Option Uuid
  role : UserRole

abbrev ConfigProc (α : Type) := Proc ConfigSession Exn α

def ConfigSession.sees (s : ConfigSession) (tenantId : Uuid) : Bool :=
  s.tenant = some tenantId || s.role = .rootAdmin

def ConfigDb.marketOwner (db : ConfigDb) (id : Uuid) : Option Uuid :=
  (db.markets.find? fun m => m.id = id).map Market.tenantId

def ConfigDb.cameraOwner (db : ConfigDb) (id : Uuid) : Option Uuid :=
  (db.cameras.find? fun c => c.id = id).map Camera.tenantId

def ConfigDb.regionOwner (db : ConfigDb) (id : Uuid) : Option Uuid :=
  (db.regions.find? fun r => r.id = id).map RegionOfInterest.tenantId

def ConfigDb.contextModeOwner (db : ConfigDb) (id : Uuid) : Option Uuid :=
  (db.contextModes.find? fun m => m.id = id).map ContextMode.tenantId

def ConfigDb.ruleOwner (db : ConfigDb) (id : Uuid) : Option Uuid :=
  (db.rules.find? fun r => r.id = id).map fun r => r.tenantId

/-- `session.get(...)` with the test that the row is there and of the tenant of the path. -/
def AdminCall.requireOwn (call : AdminCall) (owner : ConfigDb → Option Uuid) (e : Exn) :
    ConfigProc Unit := do
  let s ← get
  match (owner s.tx).filter s.sees with
  | none => throw e
  | some tenantId => raiseWhen (tenantId ≠ call.tenantId) e

/-- `session.flush()` for a new row of a table whose ids are these. -/
def AdminCall.insert (call : AdminCall) (table : String) (ids : ConfigDb → List Uuid)
    (add : ConfigDb → ConfigDb) : ConfigProc Unit := do
  raiseWhen call.flushRaises .outage
  let s ← get
  raiseWhen (call.newId ∈ ids s.tx) (.integrityError (table ++ "_pkey"))
  raiseWhen (s.tx.tenants.find call.tenantId).isNone
    (.integrityError (table ++ "_tenant_id_fkey"))
  set { s with tx := add s.tx }

def createMarket (call : AdminCall) (body : CreateMarketRequest) : ConfigProc Market := do
  let market : Market :=
    { id := call.newId
      tenantId := call.tenantId
      name := body.name
      timezone := body.timezone }
  call.insert "markets" (fun db => db.markets.map Market.id)
    (fun db => { db with markets := db.markets ++ [market] })
  pure market

def createCamera (call : AdminCall) (marketId : Uuid) (body : CreateCameraRequest) :
    ConfigProc Camera := do
  call.requireOwn (fun db => db.marketOwner marketId) (.httpException 404 "Market not found")
  let camera : Camera :=
    { id := call.newId
      tenantId := call.tenantId
      marketId := marketId
      name := body.name
      edgeDeviceId := body.edgeDeviceId }
  let s ← get
  raiseWhen (s.tx.cameras.any fun c =>
      c.tenantId = call.tenantId ∧ c.edgeDeviceId = body.edgeDeviceId)
    (.integrityError "uq_cameras_tenant_edge_device")
  call.insert "cameras" (fun db => db.cameras.map Camera.id)
    (fun db => { db with cameras := db.cameras ++ [camera] })
  pure camera

def createRegion (call : AdminCall) (cameraId : Uuid) (body : CreateRegionRequest) :
    ConfigProc RegionOfInterest := do
  call.requireOwn (fun db => db.cameraOwner cameraId) (.httpException 404 "Camera not found")
  let region : RegionOfInterest :=
    { id := call.newId
      tenantId := call.tenantId
      cameraId := cameraId
      name := body.name
      polygon := body.polygon }
  call.insert "regions_of_interest" (fun db => db.regions.map RegionOfInterest.id)
    (fun db => { db with regions := db.regions ++ [region] })
  pure region

def createContextMode (call : AdminCall) (body : CreateContextModeRequest) :
    ConfigProc ContextMode := do
  let mode : ContextMode :=
    { id := call.newId
      tenantId := call.tenantId
      name := body.name
      description := body.description }
  call.insert "context_modes" (fun db => db.contextModes.map ContextMode.id)
    (fun db => { db with contextModes := db.contextModes ++ [mode] })
  pure mode

/-- The market is not looked up; the database only checks that there is one. -/
def createSchedule (call : AdminCall) (modeId : Uuid) (body : CreateScheduleRequest) :
    ConfigProc ContextModeSchedule := do
  call.requireOwn (fun db => db.contextModeOwner modeId)
    (.httpException 404 "Context mode not found")
  let schedule : ContextModeSchedule :=
    { id := call.newId
      tenantId := call.tenantId
      contextModeId := modeId
      dayOfWeek := body.dayOfWeek
      startTime := body.startTime
      endTime := body.endTime
      marketId := body.marketId }
  let s ← get
  raiseWhen (body.marketId.any fun id => (s.tx.marketOwner id).isNone)
    (.integrityError "context_mode_schedules_market_id_fkey")
  call.insert "context_mode_schedules" (fun db => db.schedules.map ContextModeSchedule.id)
    (fun db => { db with schedules := db.schedules ++ [schedule] })
  pure schedule

def createLens (call : AdminCall) (modeId : Uuid) (body : CreateLensRequest) :
    ConfigProc StoredLens := do
  call.requireOwn (fun db => db.contextModeOwner modeId)
    (.httpException 404 "Context mode not found")
  let lens : StoredLens :=
    { id := call.newId
      tenantId := call.tenantId
      contextModeId := modeId
      name := body.name
      systemPrompt := body.systemPrompt
      outputSchema := body.outputSchema
      version := 1 }
  call.insert "lenses" (fun db => db.lenses.map StoredLens.id)
    (fun db => { db with lenses := db.lenses ++ [lens] })
  pure lens

/-- The body of the loop over the regions of a new rule. -/
def createMapping (call : AdminCall) (regionId : Uuid) : ConfigProc Unit := do
  call.requireOwn (fun db => db.regionOwner regionId)
    (.httpException 400 ("Invalid region_id: " ++ regionId.str))
  let mapping : RuleRegionMapping :=
    { tenantId := call.tenantId
      ruleId := call.newId
      regionId := regionId }
  let s ← get
  raiseWhen (s.tx.regionMappings.any fun m => m.ruleId = call.newId ∧ m.regionId = regionId)
    (.integrityError "uq_rule_region_mappings_rule_region")
  set { s with tx := { s.tx with regionMappings := s.tx.regionMappings ++ [mapping] } }

def createRule (call : AdminCall) (body : CreateRuleRequest) : ConfigProc RuleResponse := do
  call.requireOwn (fun db => db.contextModeOwner body.contextModeId)
    (.httpException 404 "Context mode not found")
  let rule : StoredRule :=
    { id := call.newId
      tenantId := call.tenantId
      contextModeId := body.contextModeId
      name := body.name
      condition := .obj body.condition
      severityWeight := body.severityWeight }
  call.insert "rules" (fun db => db.rules.map StoredRule.id)
    (fun db => { db with rules := db.rules ++ [rule] })
  forM body.regionIds (createMapping call)
  pure
    { id := rule.id
      contextModeId := rule.contextModeId
      name := rule.name
      condition := body.condition
      severityWeight := rule.severityWeight
      regionIds := body.regionIds }

def createNotificationConfig (call : AdminCall) (body : CreateNotificationConfigRequest) :
    ConfigProc NotificationConfig := do
  let config : NotificationConfig :=
    { id := call.newId
      tenantId := call.tenantId
      channel := body.channel
      recipient := body.recipient
      isActive := true }
  call.insert "notification_configs" (fun db => db.notificationConfigs.map NotificationConfig.id)
    (fun db => { db with notificationConfigs := db.notificationConfigs ++ [config] })
  pure config

def AdminCall.handle (call : AdminCall) : ConfigProc Unit :=
  match call.body with
  | .createMarket body => discard (createMarket call body)
  | .createCamera marketId body => discard (createCamera call marketId body)
  | .createRegion cameraId body => discard (createRegion call cameraId body)
  | .createContextMode body => discard (createContextMode call body)
  | .createSchedule modeId body => discard (createSchedule call modeId body)
  | .createLens modeId body => discard (createLens call modeId body)
  | .createRule body => discard (createRule call body)
  | .createNotificationConfig body => discard (createNotificationConfig call body)

/-- `get_tenant_db` and `require_role`: the settings of the session, if the request is let in. -/
def AdminCall.context (call : AdminCall) : Except Exn (Option Uuid × UserRole) := do
  throwWhen (call.auth.role ≠ .rootAdmin ∧ call.auth.tenantId ≠ some call.tenantId)
    (.httpException 403 "Tenant access denied")
  throwWhen (call.auth.role ∉ [UserRole.tenantAdmin, UserRole.rootAdmin])
    (.httpException 403 "Insufficient permissions")
  pure (if call.auth.role = .rootAdmin then (some call.tenantId, .tenantAdmin)
    else (call.auth.tenantId, call.auth.role))

/-- The tables after a request, which are committed only if its handler returns. -/
def AdminCall.serve (call : AdminCall) (db : ConfigDb) : Except Exn Unit × ConfigDb :=
  match call.context with
  | .error e => (.error e, db)
  | .ok (tenant, role) =>
    match exec call.handle ⟨db, tenant, role⟩ with
    | (.error e, _) => (.error e, db)
    | (.ok _, s) =>
      (if call.commit.raises then .error .outage else .ok (),
        if call.commit.executed then s.tx else db)

end ArgusServices

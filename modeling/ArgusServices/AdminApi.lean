import ArgusServices.RuleCreation
import ArgusServices.ScopedRows

namespace ArgusServices

open Effect Transition Unordered

/-- What a create operation answers, and what the lists consist of. -/
inductive AdminRow
  | market (row : Market)
  | camera (row : Camera)
  | region (row : RegionOfInterest)
  | contextMode (row : ContextMode)
  | schedule (row : ContextModeSchedule)
  | lens (row : StoredLens)
  | rule (response : RuleResponse)
  | notificationConfig (row : NotificationConfig)

/-- A row without the order of the regions of a rule. -/
def AdminRow.unordered : AdminRow → AdminRow × Multiset Uuid
  | .rule response => (.rule response.unordered.1, response.unordered.2)
  | row => (row, 0)

/-- The handler with the value it returns. -/
def AdminCall.respond (call : AdminCall) : ConfigProc AdminRow :=
  match call.body with
  | .createMarket body => AdminRow.market <$> createMarket call body
  | .createCamera marketId body => AdminRow.camera <$> createCamera call marketId body
  | .createRegion cameraId body => AdminRow.region <$> createRegion call cameraId body
  | .createContextMode body => AdminRow.contextMode <$> createContextMode call body
  | .createSchedule modeId body => AdminRow.schedule <$> createSchedule call modeId body
  | .createLens modeId body => AdminRow.lens <$> createLens call modeId body
  | .createRule body => AdminRow.rule <$> createRule call body
  | .createNotificationConfig body =>
    AdminRow.notificationConfig <$> createNotificationConfig call body

/-- What a create request is answered. `get_db` commits once the handler has returned: before the
answer is sent, so that a commit that fails is answered an error, or after it, as newer versions of
the framework do. -/
def AdminCall.answer (sentFirst : Bool) (call : AdminCall) (db : ConfigDb) :
    Except Exn AdminRow := do
  let (tenant, role) ← call.context
  let row ← (exec call.respond ⟨db, tenant, role⟩).1
  throwWhen (!sentFirst && call.commit.raises) .outage
  pure row

/-- The lists of a tenant. -/
inductive AdminList
  | markets | cameras | contextModes | rules | notificationConfigs
  deriving DecidableEq, Repr

/-- The order in which the queries of the lists meet their rows. -/
structure ListOrder where
  markets : RowOrder Market
  cameras : RowOrder Camera
  contextModes : RowOrder ContextMode
  rules : RuleOrder
  notificationConfigs : RowOrder NotificationConfig

def ListOrder.asStored : ListOrder where
  markets := .asStored
  cameras := .asStored
  contextModes := .asStored
  rules := .asStored
  notificationConfigs := .asStored

structure AdminQuery where
  auth : AuthContext
  tenantId : Uuid
  list : AdminList
  order : ListOrder

/-- `get_tenant_db` and `require_role`, as for the create operations. -/
def listContext (auth : AuthContext) (tenantId : Uuid) : Except Exn (Option Uuid × UserRole) := do
  throwWhen (auth.role ≠ .rootAdmin ∧ auth.tenantId ≠ some tenantId)
    (.httpException 403 "Tenant access denied")
  throwWhen (auth.role ∉ [UserRole.tenantAdmin, UserRole.rootAdmin])
    (.httpException 403 "Insufficient permissions")
  pure (if auth.role = .rootAdmin then (some tenantId, .tenantAdmin)
    else (auth.tenantId, auth.role))

/-- The rows of a list as its query meets them. -/
def ConfigSession.listed (s : ConfigSession) (order : ListOrder) (tenantId : Uuid) :
    AdminList → Except Exn (List AdminRow)
  | .markets => .ok ((order.markets.arrange (s.tx.markets.filter fun m =>
      s.sees m.tenantId)).map AdminRow.market)
  | .cameras => .ok ((order.cameras.arrange (s.tx.cameras.filter fun c =>
      s.sees c.tenantId)).map AdminRow.camera)
  | .contextModes => .ok ((order.contextModes.arrange (s.tx.contextModes.filter fun m =>
      s.sees m.tenantId)).map AdminRow.contextMode)
  | .rules => (fun rules => rules.map AdminRow.rule) <$> s.listRules order.rules tenantId
  | .notificationConfigs =>
    .ok ((order.notificationConfigs.arrange (s.tx.notificationConfigs.filter fun c =>
      s.sees c.tenantId)).map AdminRow.notificationConfig)

/-- `order_by(Market.name)` in the collation of the database; the other lists have no order. -/
def AdminList.arrange (collate : String → String → Bool) : AdminList → List AdminRow →
    List AdminRow
  | .markets, rows => rows.mergeSort fun
    | .market m, .market m' => collate m.name m'.name
    | _, _ => true
  | _, rows => rows

/-- What the query of a list finds. -/
def AdminQuery.stored (query : AdminQuery) (db : ConfigDb) : Except Exn (List AdminRow) := do
  let (tenant, role) ← listContext query.auth query.tenantId
  (ConfigSession.mk db tenant role).listed query.order query.tenantId query.list

def AdminQuery.answer (collate : String → String → Bool) (query : AdminQuery) (db : ConfigDb) :
    Except Exn (List AdminRow) :=
  query.list.arrange collate <$> query.stored db

def AdminCall.market (call : AdminCall) (body : CreateMarketRequest) : Market where
  id := call.newId
  tenantId := call.tenantId
  name := body.name
  timezone := body.timezone

def AdminCall.camera (call : AdminCall) (marketId : Uuid) (body : CreateCameraRequest) :
    Camera where
  id := call.newId
  tenantId := call.tenantId
  marketId := marketId
  name := body.name
  edgeDeviceId := body.edgeDeviceId

def AdminCall.region (call : AdminCall) (cameraId : Uuid) (body : CreateRegionRequest) :
    RegionOfInterest where
  id := call.newId
  tenantId := call.tenantId
  cameraId := cameraId
  name := body.name
  polygon := body.polygon

def AdminCall.contextMode (call : AdminCall) (body : CreateContextModeRequest) :
    ContextMode where
  id := call.newId
  tenantId := call.tenantId
  name := body.name
  description := body.description

def AdminCall.lens (call : AdminCall) (modeId : Uuid) (body : CreateLensRequest) :
    StoredLens where
  id := call.newId
  tenantId := call.tenantId
  contextModeId := modeId
  name := body.name
  systemPrompt := body.systemPrompt
  outputSchema := body.outputSchema
  version := 1

def AdminCall.notificationConfig (call : AdminCall) (body : CreateNotificationConfigRequest) :
    NotificationConfig where
  id := call.newId
  tenantId := call.tenantId
  channel := body.channel
  recipient := body.recipient
  isActive := true

/-- The row a request is for. -/
def AdminCall.row (call : AdminCall) : AdminRow :=
  match call.body with
  | .createMarket body => .market (call.market body)
  | .createCamera marketId body => .camera (call.camera marketId body)
  | .createRegion cameraId body => .region (call.region cameraId body)
  | .createContextMode body => .contextMode (call.contextMode body)
  | .createSchedule modeId body => .schedule (call.schedule modeId body)
  | .createLens modeId body => .lens (call.lens modeId body)
  | .createRule body => .rule (call.ruleResponse body)
  | .createNotificationConfig body => .notificationConfig (call.notificationConfig body)

/-- The tables with the row of a request. -/
def AdminCall.add (call : AdminCall) (db : ConfigDb) : ConfigDb :=
  match call.body with
  | .createMarket body => { db with markets := db.markets ++ [call.market body] }
  | .createCamera marketId body =>
    { db with cameras := db.cameras ++ [call.camera marketId body] }
  | .createRegion cameraId body =>
    { db with regions := db.regions ++ [call.region cameraId body] }
  | .createContextMode body =>
    { db with contextModes := db.contextModes ++ [call.contextMode body] }
  | .createSchedule modeId body =>
    { db with schedules := db.schedules ++ [call.schedule modeId body] }
  | .createLens modeId body => { db with lenses := db.lenses ++ [call.lens modeId body] }
  | .createRule body => call.withRule body db
  | .createNotificationConfig body =>
    { db with notificationConfigs := db.notificationConfigs ++ [call.notificationConfig body] }

/-- The ids of the table that a request adds to. -/
def AdminCall.ids (call : AdminCall) (db : ConfigDb) : List Uuid :=
  match call.body with
  | .createMarket _ => db.markets.map Market.id
  | .createCamera .. => db.cameras.map Camera.id
  | .createRegion .. => db.regions.map RegionOfInterest.id
  | .createContextMode _ => db.contextModes.map ContextMode.id
  | .createSchedule .. => db.schedules.map ContextModeSchedule.id
  | .createLens .. => db.lenses.map StoredLens.id
  | .createRule _ => db.rules.map StoredRule.id
  | .createNotificationConfig _ => db.notificationConfigs.map NotificationConfig.id

/-- The request is let in, its handler returns and its commit is executed. -/
def AdminCall.commits (call : AdminCall) (db : ConfigDb) : Bool :=
  match call.context with
  | .error _ => false
  | .ok (tenant, role) => (exec call.respond ⟨db, tenant, role⟩).1.isOk && call.commit.executed

variable {α β : Type} {call : AdminCall} {db db' : ConfigDb} {s : ConfigSession}

theorem ends_map {f : α → β} {x : ConfigProc α} {Q : β → ConfigSession → Prop}
    {E : Exn → ConfigSession → Prop} :
    Ends (f <$> x) s Q E ↔ Ends x s (fun a t => Q (f a) t) E := by
  have hbind : f <$> x = x >>= fun a => pure (f a) := (bind_pure_comp f x).symm
  rw [hbind, ends_bind]
  rfl

theorem ends_insert_row {f : α → AdminRow} {row : α} {table : String}
    {ids : ConfigDb → List Uuid} {add : ConfigDb → ConfigDb} :
    Ends (do call.insert table ids add; pure row) s
      (fun a t => f a = f row ∧ call.newId ∉ ids s.tx ∧ t = { s with tx := add s.tx })
      fun _ _ => True := by
  refine ends_insert.bind ?_
  intro _ t ht
  obtain ⟨hfresh, rfl⟩ := ht
  exact ⟨rfl, hfresh, rfl⟩

theorem ends_own {owner : ConfigDb → Option Uuid} {e : Exn} {k : Unit → ConfigProc α}
    {Q : α → ConfigSession → Prop} (h : Ends (k ()) s Q fun _ _ => True) :
    Ends (call.requireOwn owner e >>= k) s Q fun _ _ => True := by
  refine ends_requireOwn.bind ?_
  intro _ t ht
  obtain ⟨rfl, -⟩ := ht
  exact h

/-- A handler that returns has added its row, whose id was free. -/
theorem ends_respond (hsees : s.sees call.tenantId = true) :
    Ends call.respond s (fun row t => row = call.row ∧ call.newId ∉ call.ids s.tx ∧
      t = { s with tx := call.add s.tx }) fun _ _ => True := by
  unfold AdminCall.respond AdminCall.row AdminCall.ids AdminCall.add
  cases call.body with
  | createMarket body => exact ends_map.mpr ends_insert_row
  | createCamera marketId body =>
    refine ends_map.mpr (ends_own ?_)
    rw [ends_bind, ends_get, ends_bind, ends_raiseWhen]
    exact ⟨fun _ => trivial, fun _ => ends_insert_row⟩
  | createRegion cameraId body => exact ends_map.mpr (ends_own ends_insert_row)
  | createContextMode body => exact ends_map.mpr ends_insert_row
  | createSchedule modeId body =>
    refine ends_map.mpr (ends_own ?_)
    rw [ends_bind, ends_get, ends_bind, ends_raiseWhen]
    exact ⟨fun _ => trivial, fun _ => ends_insert_row⟩
  | createLens modeId body => exact ends_map.mpr (ends_own ends_insert_row)
  | createRule body =>
    refine ends_map.mpr (ends_own (ends_insert.bind ?_))
    intro _ t ht
    obtain ⟨hfresh, rfl⟩ := ht
    have hloop := @ends_createMappings_iff call
      { s with tx := { s.tx with rules := s.tx.rules ++ [call.rule body] } } body.regionIds hsees
    refine ends_bind.mpr (hloop.mono ?_ ?_)
    · intro _ u hu
      obtain ⟨rfl, -⟩ := hu
      exact ⟨rfl, hfresh, rfl⟩
    · intro _ _ _
      trivial
  | createNotificationConfig body => exact ends_map.mpr ends_insert_row

theorem discard_map (f : α → β) (x : ConfigProc α) : discard (f <$> x) = discard x := by
  have hdiscard : ∀ {γ : Type} (y : ConfigProc γ), discard y = y >>= fun _ => pure () :=
    fun _ => rfl
  rw [hdiscard, hdiscard, ← bind_pure_comp, bind_assoc]
  rfl

theorem handle_eq (call : AdminCall) : call.handle = discard call.respond := by
  unfold AdminCall.handle AdminCall.respond
  cases call.body <;> exact (discard_map _ _).symm

/-- A request adds its row, if it is committed, and leaves the tables otherwise. -/
theorem serve_eq (call : AdminCall) (db : ConfigDb) :
    (call.serve db).2 = if call.commits db then call.add db else db := by
  unfold AdminCall.serve AdminCall.commits
  cases hcontext : call.context with
  | error e => rfl
  | ok context =>
    obtain ⟨tenant, role⟩ := context
    have hrow := @ends_respond call ⟨db, tenant, role⟩ (AdminCall.context_sees hcontext)
    obtain ⟨⟨result, t⟩, hexec⟩ : ∃ ended, exec call.respond ⟨db, tenant, role⟩ = ended := ⟨_, rfl⟩
    simp only [handle_eq, exec_discard, hexec]
    cases result with
    | error e => rfl
    | ok row =>
      obtain ⟨-, -, rfl⟩ := hrow.ok hexec
      rfl

/-- What is answered is the row, and it is committed, unless the answer went out before a commit
that fails. -/
theorem answer_eq_ok {sentFirst : Bool} {row : AdminRow} (h : call.answer sentFirst db = .ok row) :
    row = call.row ∧
      ((sentFirst = true → call.commit.executed = true) → call.commits db = true) := by
  unfold AdminCall.answer at h
  unfold AdminCall.commits
  cases hcontext : call.context with
  | error e =>
    rw [hcontext] at h
    cases h
  | ok context =>
    obtain ⟨tenant, role⟩ := context
    have hrow := @ends_respond call ⟨db, tenant, role⟩ (AdminCall.context_sees hcontext)
    rw [hcontext] at h
    simp only [bind_eq_ok, throwWhen_eq_ok] at h
    obtain ⟨_, hok, row', hresult, _, hcommit, hvalue⟩ := h
    cases hok
    cases hvalue
    obtain ⟨⟨result, t⟩, hexec⟩ : ∃ ended, exec call.respond ⟨db, tenant, role⟩ = ended := ⟨_, rfl⟩
    rw [hexec] at hresult
    subst hresult
    refine ⟨(hrow.ok hexec).1, ?_⟩
    intro hsent
    have hexecuted : call.commit.executed = true := by
      cases sentFirst with
      | true => exact hsent rfl
      | false => cases hreply : call.commit <;> simp_all [Reply.raises, Reply.executed]
    simp only [hexec, hexecuted]
    rfl

end ArgusServices

import ArgusServices.AdminListing
import ArgusServices.Purge
import ArgusServices.TwoRuns

namespace ArgusServices

open Effect Transition

/-- A mapping is of the tenant of its rule. -/
def ConfigDb.MappingsOwned (db : ConfigDb) : Prop :=
  ∀ m ∈ db.regionMappings, db.ruleOwner m.ruleId = some m.tenantId

/-- The configuration of the tenant is the same; of the rows of others there are fewer. -/
structure SameConfig (tenantId : Uuid) (db db' : ConfigDb) : Prop where
  tenant : db'.tenants.find tenantId = db.tenants.find tenantId
  markets : Scoped.Same Market.id Market.tenantId tenantId db.markets db'.markets
  cameras : Scoped.Same Camera.id Camera.tenantId tenantId db.cameras db'.cameras
  regions : Scoped.Same RegionOfInterest.id RegionOfInterest.tenantId tenantId db.regions
    db'.regions
  contextModes : Scoped.Same ContextMode.id ContextMode.tenantId tenantId db.contextModes
    db'.contextModes
  schedules : Scoped.Same ContextModeSchedule.id ContextModeSchedule.tenantId tenantId
    db.schedules db'.schedules
  lenses : Scoped.Same StoredLens.id (fun l => l.tenantId) tenantId db.lenses db'.lenses
  rules : Scoped.Same StoredRule.id (fun r => r.tenantId) tenantId db.rules db'.rules
  regionMappings : (db'.regionMappings.filter fun m => m.tenantId = tenantId) =
    db.regionMappings.filter fun m => m.tenantId = tenantId
  notificationConfigs : Scoped.Same NotificationConfig.id NotificationConfig.tenantId tenantId
    db.notificationConfigs db'.notificationConfigs
  owned : db.MappingsOwned
  owned' : db'.MappingsOwned

/-- The id a request would give to its row is not the id of a row of another tenant. -/
def AdminCall.Unused (call : AdminCall) (db : ConfigDb) : Prop :=
  match call.body with
  | .createMarket _ =>
    Scoped.Free Market.id Market.tenantId call.tenantId db.markets call.newId
  | .createCamera .. =>
    Scoped.Free Camera.id Camera.tenantId call.tenantId db.cameras call.newId
  | .createRegion .. =>
    Scoped.Free RegionOfInterest.id RegionOfInterest.tenantId call.tenantId db.regions call.newId
  | .createContextMode _ =>
    Scoped.Free ContextMode.id ContextMode.tenantId call.tenantId db.contextModes call.newId
  | .createSchedule .. =>
    Scoped.Free ContextModeSchedule.id ContextModeSchedule.tenantId call.tenantId db.schedules
      call.newId
  | .createLens .. =>
    Scoped.Free StoredLens.id (fun l => l.tenantId) call.tenantId db.lenses call.newId
  | .createRule _ =>
    Scoped.Free StoredRule.id (fun r => r.tenantId) call.tenantId db.rules call.newId
  | .createNotificationConfig _ =>
    Scoped.Free NotificationConfig.id NotificationConfig.tenantId call.tenantId
      db.notificationConfigs call.newId

inductive AdminRequest
  | create (call : AdminCall)
  | list (query : AdminQuery)

def AdminRequest.tenantId : AdminRequest → Uuid
  | .create call => call.tenantId
  | .list query => query.tenantId

inductive AdminAnswer
  | created (result : Except Exn AdminRow)
  | listed (result : Except Exn (List AdminRow))

def AdminRequest.answer (collate : String → String → Bool) (sentFirst : Bool) (db : ConfigDb) :
    AdminRequest → AdminAnswer
  | .create call => .created (call.answer sentFirst db)
  | .list query => .listed (query.answer collate db)

def AdminRequest.next (db : ConfigDb) : AdminRequest → ConfigDb
  | .create call => (call.serve db).2
  | .list _ => db

def AdminRequest.own (tenantId : Uuid) (r : AdminRequest) : Bool :=
  r.tenantId = tenantId

/-- What a create request of the tenant names is not another tenant's: neither the id it draws nor
the market of a schedule. -/
def Unmixed (tenantId : Uuid) (db : ConfigDb) : AdminRequest → Prop
  | .create call => call.tenantId = tenantId → call.Unused db ∧ call.Own db
  | .list _ => True

/-- Two sessions of the tenant on such tables. -/
structure ConfigBeside (tenantId : Uuid) (s t : ConfigSession) : Prop where
  tx : SameConfig tenantId s.tx t.tx
  sees : ∀ id, s.sees id = decide (id = tenantId)
  sees' : ∀ id, t.sees id = decide (id = tenantId)

variable {α β : Type} {call : AdminCall} {db db' : ConfigDb} {s t : ConfigSession}
  {tenantId : Uuid}

theorem ruleOwner_append {rules : List StoredRule} {id owner : Uuid}
    (h : db.ruleOwner id = some owner) :
    ConfigDb.ruleOwner { db with rules := db.rules ++ rules } id = some owner :=
  find?_map_append (List.prefix_append _ _) h

theorem ruleOwner_new {rule : StoredRule} (hfresh : rule.id ∉ db.rules.map StoredRule.id) :
    ConfigDb.ruleOwner { db with rules := db.rules ++ [rule] } rule.id = some rule.tenantId := by
  unfold ConfigDb.ruleOwner
  rw [List.find?_append, Scoped.find?_eq_none_of_not_mem hfresh]
  simp

theorem owned_rule {rule : StoredRule} (h : db.MappingsOwned) :
    ConfigDb.MappingsOwned { db with rules := db.rules ++ [rule] } :=
  fun m hm => ruleOwner_append (h m hm)

theorem owned_mappings {regionIds : List Uuid} (h : db.MappingsOwned)
    (hrule : db.ruleOwner call.newId = some call.tenantId) :
    (call.addMappings regionIds db).MappingsOwned := by
  intro m hm
  rcases List.mem_append.mp hm with hm | hm
  · exact h m hm
  · obtain ⟨regionId, -, rfl⟩ := List.mem_map.mp hm
    exact hrule

theorem owned_add (h : db.MappingsOwned) (hfresh : call.newId ∉ call.ids db) :
    (call.add db).MappingsOwned := by
  unfold AdminCall.add
  unfold AdminCall.ids at hfresh
  cases hbody : call.body with
  | createRule body =>
    rw [hbody] at hfresh
    exact owned_mappings (owned_rule h) (@ruleOwner_new db (call.rule body) hfresh)
  | _ => exact h

/-- Mappings of a rule of the tenant, in both. -/
theorem SameConfig.mappings (h : SameConfig tenantId db db') (regionIds : List Uuid)
    (hrule : db.ruleOwner call.newId = some call.tenantId)
    (hrule' : db'.ruleOwner call.newId = some call.tenantId) :
    SameConfig tenantId (call.addMappings regionIds db) (call.addMappings regionIds db') :=
  { h with
    regionMappings := by
      show (db'.regionMappings ++ regionIds.map call.mapping).filter _ =
        (db.regionMappings ++ regionIds.map call.mapping).filter _
      rw [List.filter_append, List.filter_append, h.regionMappings]
    owned := owned_mappings h.owned hrule
    owned' := owned_mappings h.owned' hrule' }

theorem SameConfig.rule (h : SameConfig tenantId db db') {rule : StoredRule}
    (hfresh : rule.id ∉ db.rules.map StoredRule.id) :
    SameConfig tenantId { db with rules := db.rules ++ [rule] }
      { db' with rules := db'.rules ++ [rule] } :=
  { h with
    rules := h.rules.both hfresh
    owned := owned_rule h.owned
    owned' := owned_rule h.owned' }

/-- The row of a request, in both. -/
theorem SameConfig.both (h : SameConfig tenantId db db') :
    call.newId ∉ call.ids db → SameConfig tenantId (call.add db) (call.add db') := by
  unfold AdminCall.add AdminCall.ids
  cases call.body with
  | createMarket body => exact fun hfresh => { h with markets := h.markets.both hfresh }
  | createCamera marketId body => exact fun hfresh => { h with cameras := h.cameras.both hfresh }
  | createRegion cameraId body => exact fun hfresh => { h with regions := h.regions.both hfresh }
  | createContextMode body =>
    exact fun hfresh => { h with contextModes := h.contextModes.both hfresh }
  | createSchedule modeId body =>
    exact fun hfresh => { h with schedules := h.schedules.both hfresh }
  | createLens modeId body => exact fun hfresh => { h with lenses := h.lenses.both hfresh }
  | createRule body =>
    intro hfresh
    have hfresh' : call.newId ∉ db'.rules.map StoredRule.id :=
      fun hmem => hfresh (h.rules.fewer _ hmem)
    have hrule := @SameConfig.rule _ _ _ h (call.rule body) hfresh
    exact hrule.mappings body.regionIds (@ruleOwner_new db (call.rule body) hfresh)
      (@ruleOwner_new db' (call.rule body) hfresh')
  | createNotificationConfig body =>
    exact fun hfresh => { h with notificationConfigs := h.notificationConfigs.both hfresh }

/-- The row of a request of another tenant, in the first one only. -/
theorem SameConfig.other (h : SameConfig tenantId db db') (hfresh : call.newId ∉ call.ids db)
    (hother : call.tenantId ≠ tenantId) : SameConfig tenantId (call.add db) db' := by
  have howned := owned_add h.owned hfresh
  unfold AdminCall.add at howned ⊢
  cases hbody : call.body with
  | createMarket body => exact { h with markets := h.markets.other hother }
  | createCamera marketId body => exact { h with cameras := h.cameras.other hother }
  | createRegion cameraId body => exact { h with regions := h.regions.other hother }
  | createContextMode body => exact { h with contextModes := h.contextModes.other hother }
  | createSchedule modeId body => exact { h with schedules := h.schedules.other hother }
  | createLens modeId body => exact { h with lenses := h.lenses.other hother }
  | createRule body =>
    rw [hbody] at howned
    refine { h with rules := h.rules.other hother, regionMappings := ?_, owned := howned }
    have hnone : ((body.regionIds.map call.mapping).filter fun m =>
        decide (m.tenantId = tenantId)) = [] := by
      rw [List.filter_eq_nil_iff]
      intro m hm
      obtain ⟨regionId, -, rfl⟩ := List.mem_map.mp hm
      simp [AdminCall.mapping, hother]
    show _ = (db.regionMappings ++ body.regionIds.map call.mapping).filter _
    rw [List.filter_append, hnone, List.append_nil]
    exact h.regionMappings
  | createNotificationConfig body =>
    exact { h with notificationConfigs := h.notificationConfigs.other hother }

/-- Both runs of a handler come to the same result. -/
def SameResult (x : ConfigProc α) (s t : ConfigSession) : Prop :=
  Alike x s x t (fun _ _ _ => True) fun _ _ => True

theorem SameResult.map {f : α → β} {x : ConfigProc α} (h : SameResult x s t) :
    SameResult (f <$> x) s t := by
  have hbind : f <$> x = x >>= fun a => pure (f a) := (bind_pure_comp f x).symm
  unfold SameResult
  rw [hbind]
  refine Alike.bind h ?_
  intro _ _ _ _
  exact alike_pure.mpr trivial

/-- Both find the row of the tenant, or refuse the request. -/
theorem alike_requireOwn (h : ConfigBeside tenantId s t) {owner : ConfigDb → Option Uuid}
    {e : Exn} {k : Unit → ConfigProc α} {Q : α → ConfigSession → ConfigSession → Prop}
    (howner : (owner t.tx).filter (fun o => o = tenantId) =
      (owner s.tx).filter fun o => o = tenantId)
    (hk : Alike (k ()) s (k ()) t Q fun _ _ => True) :
    Alike (call.requireOwn owner e >>= k) s (call.requireOwn owner e >>= k) t Q
      fun _ _ => True := by
  have hsees : s.sees = fun id => decide (id = tenantId) := funext h.sees
  have hsees' : t.sees = fun id => decide (id = tenantId) := funext h.sees'
  unfold AdminCall.requireOwn
  rw [bind_assoc, alike_get_bind, hsees, hsees', howner]
  cases (owner s.tx).filter fun o => decide (o = tenantId) with
  | none => exact ⟨rfl, trivial⟩
  | some o => exact alike_raiseWhen_bind trivial fun _ => hk

/-- `session.flush()` does the same, as the id is not another tenant's. -/
theorem alike_insert (h : ConfigBeside tenantId s t) (hcall : call.tenantId = tenantId)
    {table : String} {ids : ConfigDb → List Uuid} {add : ConfigDb → ConfigDb}
    (hids : call.newId ∈ ids t.tx ↔ call.newId ∈ ids s.tx) :
    Alike (call.insert table ids add) s (call.insert table ids add) t
      (fun _ s' t' => call.newId ∉ ids s.tx ∧ s' = { s with tx := add s.tx } ∧
        t' = { t with tx := add t.tx })
      fun _ _ => True := by
  unfold AdminCall.insert
  refine alike_raiseWhen_bind trivial ?_
  intro _
  rw [alike_get_bind]
  have htaken : decide (call.newId ∈ ids t.tx) = decide (call.newId ∈ ids s.tx) :=
    decide_eq_decide.mpr hids
  rw [htaken]
  refine alike_raiseWhen_bind trivial ?_
  intro hfresh
  have htenant : t.tx.tenants.find call.tenantId = s.tx.tenants.find call.tenantId :=
    hcall ▸ h.tx.tenant
  rw [htenant]
  refine alike_raiseWhen_bind trivial ?_
  intro _
  exact ⟨rfl, of_decide_eq_false hfresh, rfl, rfl⟩

theorem sameResult_insert {table : String} {ids : ConfigDb → List Uuid}
    {add : ConfigDb → ConfigDb} {row : α} (h : ConfigBeside tenantId s t)
    (hcall : call.tenantId = tenantId) (hids : call.newId ∈ ids t.tx ↔ call.newId ∈ ids s.tx) :
    SameResult (do call.insert table ids add; pure row) s t := by
  refine (alike_insert h hcall hids).bind ?_
  intro _ _ _ _
  exact alike_pure.mpr trivial

/-- Both find the region, or refuse it, and add the mapping, or have it. -/
theorem alike_createMapping (h : ConfigBeside tenantId s t) (hcall : call.tenantId = tenantId)
    (hrule : s.tx.ruleOwner call.newId = some call.tenantId)
    (hrule' : t.tx.ruleOwner call.newId = some call.tenantId) (regionId : Uuid) :
    Alike (createMapping call regionId) s (createMapping call regionId) t
      (fun _ s' t' => s' = { s with tx := call.addMappings [regionId] s.tx } ∧
        t' = { t with tx := call.addMappings [regionId] t.tx })
      fun _ _ => True := by
  have hof : ∀ {db : ConfigDb}, db.MappingsOwned → db.ruleOwner call.newId = some call.tenantId →
      ∀ m ∈ db.regionMappings, decide (m.ruleId = call.newId ∧ m.regionId = regionId) = true →
        m.tenantId = tenantId := by
    intro db howned hdb m hm hclash
    have hm' := howned m hm
    rw [(of_decide_eq_true hclash).1, hdb] at hm'
    rw [← Option.some.inj hm', hcall]
  have hany := Scoped.any_eq_of_rows h.tx.regionMappings (hof h.tx.owned hrule)
    (hof h.tx.owned' hrule')
  unfold createMapping
  refine alike_requireOwn h (h.tx.regions.found regionId) ?_
  rw [alike_get_bind, hany]
  refine alike_raiseWhen_bind trivial ?_
  intro _
  exact ⟨rfl, rfl, rfl⟩

/-- The loop over the regions, once the rule is there. -/
theorem sameResult_createMappings (h : ConfigBeside tenantId s t)
    (hcall : call.tenantId = tenantId)
    (hrule : s.tx.ruleOwner call.newId = some call.tenantId)
    (hrule' : t.tx.ruleOwner call.newId = some call.tenantId) (regionIds : List Uuid) :
    SameResult (forM regionIds (createMapping call)) s t := by
  induction regionIds generalizing s t with
  | nil => exact alike_pure.mpr trivial
  | cons regionId regionIds ih =>
    unfold SameResult
    rw [List.forM_cons]
    refine (alike_createMapping h hcall hrule hrule' regionId).bind ?_
    intro _ s' t' hstep
    obtain ⟨rfl, rfl⟩ := hstep
    exact ih ⟨h.tx.mappings [regionId] hrule hrule', h.sees, h.sees'⟩ hrule hrule'

/-- A handler comes to the same result. -/
theorem sameResult_respond (h : ConfigBeside tenantId s t) (hcall : call.tenantId = tenantId)
    (hunused : call.Unused s.tx) (hown : call.Own s.tx) : SameResult call.respond s t := by
  unfold AdminCall.respond
  unfold AdminCall.Unused at hunused
  unfold AdminCall.Own at hown
  cases hbody : call.body with
  | createMarket body =>
    rw [hbody, hcall] at hunused
    exact (sameResult_insert h hcall (h.tx.markets.mem_iff hunused)).map
  | createCamera marketId body =>
    rw [hbody, hcall] at hunused
    refine SameResult.map (alike_requireOwn h (h.tx.markets.found marketId) ?_)
    have hdevice : ∀ c : Camera,
        decide (c.tenantId = call.tenantId ∧ c.edgeDeviceId = body.edgeDeviceId) = true →
          c.tenantId = tenantId :=
      fun c hc => (of_decide_eq_true hc).1.trans hcall
    rw [alike_get_bind, Scoped.any_eq_of_rows h.tx.cameras.rows (fun c _ => hdevice c)
      fun c _ => hdevice c]
    refine alike_raiseWhen_bind trivial fun _ => ?_
    exact sameResult_insert h hcall (h.tx.cameras.mem_iff hunused)
  | createRegion cameraId body =>
    rw [hbody, hcall] at hunused
    refine SameResult.map (alike_requireOwn h (h.tx.cameras.found cameraId) ?_)
    exact sameResult_insert h hcall (h.tx.regions.mem_iff hunused)
  | createContextMode body =>
    rw [hbody, hcall] at hunused
    exact (sameResult_insert h hcall (h.tx.contextModes.mem_iff hunused)).map
  | createSchedule modeId body =>
    rw [hbody, hcall] at hunused
    rw [hbody] at hown
    refine SameResult.map (alike_requireOwn h (h.tx.contextModes.found modeId) ?_)
    have hmarket : (body.marketId.any fun id => (t.tx.marketOwner id).isNone) =
        body.marketId.any fun id => (s.tx.marketOwner id).isNone := by
      cases hid : body.marketId with
      | none => rfl
      | some id =>
        exact h.tx.markets.isNone_found fun owner howner =>
          (hown id hid owner howner).trans hcall
    rw [alike_get_bind, hmarket]
    refine alike_raiseWhen_bind trivial fun _ => ?_
    exact sameResult_insert h hcall (h.tx.schedules.mem_iff hunused)
  | createLens modeId body =>
    rw [hbody, hcall] at hunused
    refine SameResult.map (alike_requireOwn h (h.tx.contextModes.found modeId) ?_)
    exact sameResult_insert h hcall (h.tx.lenses.mem_iff hunused)
  | createRule body =>
    rw [hbody, hcall] at hunused
    refine SameResult.map (alike_requireOwn h (h.tx.contextModes.found body.contextModeId) ?_)
    refine (alike_insert h hcall (h.tx.rules.mem_iff hunused)).bind ?_
    intro _ s' t' hadded
    obtain ⟨hfresh, rfl, rfl⟩ := hadded
    have hfresh' : call.newId ∉ t.tx.rules.map StoredRule.id :=
      fun hmem => hfresh (h.tx.rules.fewer _ hmem)
    have hbeside : ConfigBeside tenantId
        { s with tx := { s.tx with rules := s.tx.rules ++ [call.rule body] } }
        { t with tx := { t.tx with rules := t.tx.rules ++ [call.rule body] } } :=
      ⟨@SameConfig.rule _ _ _ h.tx (call.rule body) hfresh, h.sees, h.sees'⟩
    have hloop := sameResult_createMappings hbeside hcall
      (@ruleOwner_new s.tx (call.rule body) hfresh) (@ruleOwner_new t.tx (call.rule body) hfresh')
      body.regionIds
    refine hloop.bind ?_
    intro _ _ _ _
    exact alike_pure.mpr trivial
  | createNotificationConfig body =>
    rw [hbody, hcall] at hunused
    exact (sameResult_insert h hcall (h.tx.notificationConfigs.mem_iff hunused)).map

theorem AdminCall.context_sees_only {tenant : Option Uuid} {role : UserRole}
    (h : call.context = .ok (tenant, role)) (db : ConfigDb) (id : Uuid) :
    (ConfigSession.mk db tenant role).sees id = decide (id = call.tenantId) :=
  @listContext_sees call.tenantId tenant role call.auth h db id

/-- A request of the tenant is answered the same, and commits or not in both. -/
theorem create_alike (h : SameConfig tenantId db db') (hcall : call.tenantId = tenantId)
    (hunused : call.Unused db) (hown : call.Own db) (sentFirst : Bool) :
    call.answer sentFirst db' = call.answer sentFirst db ∧
      call.commits db' = call.commits db := by
  unfold AdminCall.answer AdminCall.commits
  cases hcontext : call.context with
  | error e => exact ⟨rfl, rfl⟩
  | ok context =>
    obtain ⟨tenant, role⟩ := context
    have hsees := AdminCall.context_sees_only hcontext
    rw [hcall] at hsees
    have hbeside : ConfigBeside tenantId ⟨db, tenant, role⟩ ⟨db', tenant, role⟩ :=
      ⟨h, hsees db, hsees db'⟩
    have hsame := Alike.fst (sameResult_respond hbeside hcall hunused hown)
    constructor
    · simp only [bind, Except.bind, hsame]
    · simp only [hsame]

theorem listRules_same (h : SameConfig tenantId db db') {tenant : Option Uuid} {role : UserRole}
    (hsees : ∀ db id, (ConfigSession.mk db tenant role).sees id = decide (id = tenantId))
    (order : RuleOrder) :
    (ConfigSession.mk db' tenant role).listRules order tenantId =
      (ConfigSession.mk db tenant role).listRules order tenantId := by
  have hregions : ∀ order (rule : StoredRule),
      (ConfigSession.mk db' tenant role).regionIds order rule =
        (ConfigSession.mk db tenant role).regionIds order rule := by
    intro order rule
    have hshown : ∀ db : ConfigDb, (db.regionMappings.filter fun m =>
        m.ruleId = rule.id && decide (m.tenantId = tenantId)) =
          (db.regionMappings.filter fun m => decide (m.tenantId = tenantId)).filter
            fun m => decide (m.ruleId = rule.id) := by
      intro db
      rw [List.filter_filter]
    simp only [ConfigSession.regionIds, hsees, hshown, h.regionMappings]
  have hrules : ∀ db : ConfigDb, (db.rules.filter fun r =>
      decide (r.tenantId = tenantId) && decide (r.tenantId = tenantId)) =
        db.rules.filter fun r => decide (r.tenantId = tenantId) := by
    intro db
    simp only [Bool.and_self]
  simp only [ConfigSession.listRules, hsees, hregions, hrules, h.rules.rows]

/-- A list of the tenant shows the same. -/
theorem stored_alike (h : SameConfig tenantId db db') {query : AdminQuery}
    (hquery : query.tenantId = tenantId) : query.stored db' = query.stored db := by
  unfold AdminQuery.stored
  cases hcontext : listContext query.auth query.tenantId with
  | error e => rfl
  | ok context =>
    obtain ⟨tenant, role⟩ := context
    have hsees := listContext_sees hcontext
    rw [hquery] at hsees
    show (ConfigSession.mk db' tenant role).listed query.order query.tenantId query.list =
      (ConfigSession.mk db tenant role).listed query.order query.tenantId query.list
    rw [hquery]
    cases query.list with
    | markets => simp only [ConfigSession.listed, hsees, h.markets.rows]
    | cameras => simp only [ConfigSession.listed, hsees, h.cameras.rows]
    | contextModes => simp only [ConfigSession.listed, hsees, h.contextModes.rows]
    | rules => simp only [ConfigSession.listed, listRules_same h hsees]
    | notificationConfigs => simp only [ConfigSession.listed, hsees, h.notificationConfigs.rows]

theorem next_hidden (h : SameConfig tenantId db db') {r : AdminRequest}
    (hother : r.own tenantId = false) : SameConfig tenantId (r.next db) db' := by
  cases r with
  | create call =>
    show SameConfig tenantId (call.serve db).2 db'
    rw [serve_eq]
    split
    next hcommit => exact h.other (commits_fresh hcommit) (of_decide_eq_false hother)
    next => exact h
  | list query => exact h

theorem next_alike (collate : String → String → Bool) (sentFirst : Bool)
    (h : SameConfig tenantId db db') {r : AdminRequest} (hown : r.own tenantId = true)
    (hunmixed : Unmixed tenantId db r) :
    r.answer collate sentFirst db' = r.answer collate sentFirst db ∧
      SameConfig tenantId (r.next db) (r.next db') := by
  cases r with
  | create call =>
    have hcall : call.tenantId = tenantId := of_decide_eq_true hown
    obtain ⟨hunused, hmarket⟩ := hunmixed hcall
    obtain ⟨hanswer, hcommits⟩ := create_alike h hcall hunused hmarket sentFirst
    refine ⟨congrArg AdminAnswer.created hanswer, ?_⟩
    show SameConfig tenantId (call.serve db).2 (call.serve db').2
    rw [serve_eq, serve_eq, hcommits]
    split
    next hcommit => exact h.both (commits_fresh hcommit)
    next => exact h
  | list query =>
    refine ⟨?_, h⟩
    have hstored := stored_alike h (of_decide_eq_true hown)
    exact congrArg (fun rows => AdminAnswer.listed (query.list.arrange collate <$> rows)) hstored

theorem next_unwinds (tenantId : Uuid) (collate : String → String → Bool) (sentFirst : Bool) :
    Purge.Unwinds AdminRequest.next (fun _ r => r.own tenantId)
      (fun db r => r.answer collate sentFirst db) (Unmixed tenantId) (SameConfig tenantId) where
  hidden := fun _ _ _ hother _ h => next_hidden h hother
  alike := fun _ _ _ hown hunmixed h => next_alike collate sentFirst h hown hunmixed

theorem SameConfig.refl (h : db.MappingsOwned) : SameConfig tenantId db db where
  tenant := rfl
  markets := .refl _ _ _ _
  cameras := .refl _ _ _ _
  regions := .refl _ _ _ _
  contextModes := .refl _ _ _ _
  schedules := .refl _ _ _ _
  lenses := .refl _ _ _ _
  rules := .refl _ _ _ _
  regionMappings := rfl
  notificationConfigs := .refl _ _ _ _
  owned := h
  owned' := h

/-- Whatever other tenants create, the requests of a tenant are answered as if it were alone, and
its configuration comes to be the same. -/
theorem admin_isolated (tenantId : Uuid) (collate : String → String → Bool) (sentFirst : Bool)
    {rs : List AdminRequest} (h : db.MappingsOwned)
    (hrun : Run (Where (Unmixed tenantId) fun db r db' => db' = AdminRequest.next db r) db rs db') :
    SameConfig tenantId db'
        ((Purge.purge AdminRequest.next (fun _ r => r.own tenantId) db rs).foldl
          AdminRequest.next db) ∧
      Purge.answers AdminRequest.next (fun db r => r.answer collate sentFirst db) db
          (Purge.purge AdminRequest.next (fun _ r => r.own tenantId) db rs) =
        Purge.heard AdminRequest.next (fun _ r => r.own tenantId)
          (fun db r => r.answer collate sentFirst db) db rs :=
  (next_unwinds tenantId collate sentFirst).purge hrun (.refl h)

/-- Tenant 8 creates a mode of its own, and a lens for a mode of tenant 1, which it does not see. -/
def mixedRequests : List AdminRequest :=
  [.create (adminCall 8 6 (.createContextMode ⟨"Night", none⟩)),
    .create (adminCall 1 4 (.createContextMode ⟨"Day", none⟩)),
    .create (adminCall 8 7 (.createLens ⟨4⟩ ⟨"Gate", "Look at the gate.", []⟩)),
    .create (adminCall 1 7 (.createLens ⟨4⟩ ⟨"Door", "Look at the door.", []⟩))]

theorem admin_isolated_sample :
    SameConfig ⟨1⟩ (mixedRequests.foldl AdminRequest.next sampleSystem.config)
      ([.create (adminCall 1 4 (.createContextMode ⟨"Day", none⟩)),
        .create (adminCall 1 7 (.createLens ⟨4⟩ ⟨"Door", "Look at the door.", []⟩))].foldl
          AdminRequest.next sampleSystem.config) := by
  have howned : sampleSystem.config.MappingsOwned := by
    intro m hm
    cases hm
  have hother : (⟨8⟩ : Uuid) ≠ ⟨1⟩ := by decide
  refine (@admin_isolated _ _ ⟨1⟩ (fun _ _ => true) false mixedRequests howned ?_).1
  refine .cons ⟨fun h => absurd h hother, rfl⟩ ?_
  refine .cons ⟨fun _ => ⟨?_, trivial⟩, rfl⟩ ?_
  · show Scoped.Free ContextMode.id ContextMode.tenantId ⟨1⟩ _ ⟨4⟩
    decide +kernel
  refine .cons ⟨fun h => absurd h hother, rfl⟩ ?_
  refine .cons ⟨fun _ => ⟨?_, trivial⟩, rfl⟩ (.nil _)
  show Scoped.Free StoredLens.id (fun l => l.tenantId) ⟨1⟩ _ ⟨7⟩
  decide +kernel

end ArgusServices

import ArgusServices.RowPolicy
import ArgusServices.SerialRun

namespace ArgusServices

open Effect RowPolicy

/-- `TENANT_SCOPED_TABLES`. -/
inductive TenantScopedTable
  | tenantUsers | markets | cameras | regionsOfInterest | contextModes | contextModeSchedules
  | contextModeCameraAssignments | lenses | rules | ruleRegionMappings | evidences | decisions
  | decisionEvidences | feedback | auditRecords | notificationConfigs | notificationDeliveries
  deriving DecidableEq, Repr

/-- The column of a row that the policies read; that of a tenant user may be NULL. -/
structure ScopedRow where
  tenantId : Option Uuid
  deriving DecidableEq, Repr

/-- The custom settings of a transaction by their names. -/
abbrev Settings := String → Option String

/-- The cast `::uuid`, which reads back what a uuid is written as. -/
structure UuidCast where
  read : String → Option Uuid
  read_str : ∀ u : Uuid, read u.str = some u

def tenantSetting : String := "app.current_tenant_id"

def roleSetting : String := "app.current_role"

/-- `SELECT set_config(name, value, true)`. -/
def Settings.setConfig (s : Settings) (name value : String) : Settings :=
  Function.update s name (some value)

/-- What the policies read: `NULLIF(current_setting('app.current_tenant_id', true), '')::uuid` and
`current_setting('app.current_role', true)`. -/
structure PolicyContext where
  tenantId : Option Uuid
  role : Option String
  deriving DecidableEq, Repr

def Settings.context (s : Settings) (cast : UuidCast) : Except Exn PolicyContext :=
  match truthy (s tenantSetting) with
  | none => .ok ⟨none, s roleSetting⟩
  | some text =>
    match cast.read text with
    | some id => .ok ⟨some id, s roleSetting⟩
    | none => .error (.valueError "invalid input syntax for type uuid")

/-- `x = y`, which is NULL if one of them is. -/
def sqlEq {α : Type} [DecidableEq α] (x y : Option α) : Option Bool :=
  x.bind fun a => y.map fun b => a = b

def tenantMatches (context : PolicyContext) (row : ScopedRow) : Option Bool :=
  sqlEq row.tenantId context.tenantId

def isRootAdmin (context : PolicyContext) (_ : ScopedRow) : Option Bool :=
  sqlEq context.role (some UserRole.rootAdmin.value)

/-- `_enable_tenant_rls`. -/
def enableTenantRls : Table PolicyContext ScopedRow where
  enabled := true
  forced := true
  policies := [
    ⟨some .select, some tenantMatches, none⟩,
    ⟨some .insert, none, some tenantMatches⟩,
    ⟨some .update, some tenantMatches, some tenantMatches⟩,
    ⟨some .delete, some tenantMatches, none⟩,
    ⟨none, some isRootAdmin, some isRootAdmin⟩]

/-- `upgrade` of the migration, for the tables with a tenant column. -/
def upgrade (_ : TenantScopedTable) : Table PolicyContext ScopedRow :=
  enableTenantRls

/-- The role the application connects with. -/
def argusApp (owner : Bool) : Role where
  superuser := false
  bypassRls := false
  owner := owner

/-- `set_session_context`. -/
def Settings.setSessionContext (s : Settings) (tenantId : Option Uuid) (role : Option String) :
    Settings :=
  let s := match tenantId with
    | some id => s.setConfig tenantSetting id.str
    | none => s
  match role with
  | some value => s.setConfig roleSetting value
  | none => s

/-- `get_tenant_db` up to its yield, with `require_tenant_access` before it. -/
def Settings.getTenantDb (s : Settings) (auth : AuthContext) (tenantId : Uuid) :
    Except Exn Settings :=
  if auth.role ≠ .rootAdmin ∧ auth.tenantId ≠ some tenantId then
    .error (.httpException 403 "Tenant access denied")
  else if auth.role = .rootAdmin then
    .ok (s.setSessionContext (some tenantId) (some UserRole.tenantAdmin.value))
  else .ok (s.setSessionContext auth.tenantId (some auth.role.value))

/-- The rows of every tenant-scoped table that a session can work on are those of one tenant. -/
structure ScopedTo (cast : UuidCast) (role : Role) (s : Settings) (tenantId : Uuid) : Prop where
  select : ∀ table row, (fun c => (upgrade table).canSelect role c row) <$> s.context cast =
    .ok (decide (row.tenantId = some tenantId))
  insert : ∀ table row, (fun c => (upgrade table).canInsert role c row) <$> s.context cast =
    .ok (decide (row.tenantId = some tenantId))
  update : ∀ table old new,
    (fun c => (upgrade table).canUpdate role c old new) <$> s.context cast =
      .ok (decide (old.tenantId = some tenantId ∧ new.tenantId = some tenantId))
  delete : ∀ table row, (fun c => (upgrade table).canDelete role c row) <$> s.context cast =
    .ok (decide (row.tenantId = some tenantId))

variable {cast : UuidCast} {s s' : Settings} {owner : Bool} {tenantId : Uuid} {value : String}
  {row : ScopedRow} {context : PolicyContext}

theorem sqlEq_eq_true {α : Type} [DecidableEq α] {x y : Option α} :
    sqlEq x y = some true ↔ ∃ a, x = some a ∧ y = some a := by
  cases x with
  | none => simp [sqlEq]
  | some a =>
    cases y with
    | none => simp [sqlEq]
    | some b => simp [sqlEq, eq_comm]

theorem guards_argusApp (table : TenantScopedTable) :
    (upgrade table).guards (argusApp owner) = true := rfl

/-- The row is of the tenant of the context, or the context is of the root administrator. -/
def PolicyContext.admits (context : PolicyContext) (row : ScopedRow) : Bool :=
  tenantMatches context row = some true || isRootAdmin context row = some true

theorem shows_upgrade (table : TenantScopedTable) {c : Command} (hc : c ≠ .insert) :
    (upgrade table).shows (argusApp owner) c context row = context.admits row := by
  refine Table.shows_eq (guards_argusApp table) ?_ ?_
  · intro p hp hcovers hadmits
    simp only [upgrade, enableTenantRls, List.mem_cons, List.not_mem_nil, or_false] at hp
    rcases hp with rfl | rfl | rfl | rfl | rfl
    all_goals simp_all [Policy.admits, PolicyContext.admits]
  · intro h
    rw [PolicyContext.admits, Bool.or_eq_true, decide_eq_true_eq, decide_eq_true_eq] at h
    rcases h with hown | hroot
    · cases c with
      | insert => exact absurd rfl hc
      | select => exact ⟨_, .head _, rfl, by simp [Policy.admits, hown]⟩
      | update => exact ⟨_, .tail _ (.tail _ (.head _)), rfl, by simp [Policy.admits, hown]⟩
      | delete =>
        exact ⟨_, .tail _ (.tail _ (.tail _ (.head _))), rfl, by simp [Policy.admits, hown]⟩
    · exact ⟨_, .tail _ (.tail _ (.tail _ (.tail _ (.head _)))), rfl,
        by simp [Policy.admits, hroot]⟩

theorem takes_upgrade (table : TenantScopedTable) {c : Command}
    (hc : c = .insert ∨ c = .update) :
    (upgrade table).takes (argusApp owner) c context row = context.admits row := by
  refine Table.takes_eq (guards_argusApp table) ?_ ?_
  · intro p hp hcovers haccepts
    simp only [upgrade, enableTenantRls, List.mem_cons, List.not_mem_nil, or_false] at hp
    rcases hp with rfl | rfl | rfl | rfl | rfl
    all_goals simp_all [Policy.accepts, Policy.covers, PolicyContext.admits]
  · intro h
    rw [PolicyContext.admits, Bool.or_eq_true, decide_eq_true_eq, decide_eq_true_eq] at h
    rcases h with hown | hroot
    · rcases hc with rfl | rfl
      · exact ⟨_, .tail _ (.head _), rfl, by simp [Policy.accepts, hown]⟩
      · exact ⟨_, .tail _ (.tail _ (.head _)), rfl, by simp [Policy.accepts, hown]⟩
    · exact ⟨_, .tail _ (.tail _ (.tail _ (.tail _ (.head _)))), rfl,
        by simp [Policy.accepts, hroot]⟩

/-- A context that is not of the root administrator is let at the rows of its own tenant. -/
theorem admits_eq (hten : context.tenantId = some tenantId)
    (hrole : context.role ≠ some "root_admin") :
    context.admits row = decide (row.tenantId = some tenantId) := by
  have hroot : isRootAdmin context row ≠ some true := by
    rw [isRootAdmin, Ne, sqlEq_eq_true]
    intro h
    obtain ⟨value, hvalue, hroot⟩ := h
    exact hrole (hvalue.trans hroot.symm)
  have hown : tenantMatches context row = some true ↔ row.tenantId = some tenantId := by
    rw [tenantMatches, hten, sqlEq_eq_true]
    simp
  simp only [PolicyContext.admits, hroot, hown, decide_false, Bool.or_false]

theorem context_setSessionContext :
    (s.setSessionContext (some tenantId) (some value)).context cast =
      .ok ⟨some tenantId, some value⟩ := by
  have hne : tenantSetting ≠ roleSetting := by decide
  simp only [Settings.context, Settings.setSessionContext, Settings.setConfig,
    Function.update_of_ne hne, Function.update_self, truthy_some (Uuid.str_ne_empty tenantId),
    cast.read_str]

/-- A session set to a tenant, and to a role other than the root administrator's, is scoped. -/
theorem scopedTo_setSessionContext (hvalue : value ≠ "root_admin") :
    ScopedTo cast (argusApp owner) (s.setSessionContext (some tenantId) (some value))
      tenantId := by
  have hadmits : ∀ row : ScopedRow, (⟨some tenantId, some value⟩ : PolicyContext).admits row =
      decide (row.tenantId = some tenantId) :=
    fun row => admits_eq rfl fun h => hvalue (Option.some.inj h)
  constructor
  · intro table row
    rw [context_setSessionContext]
    exact congrArg Except.ok ((shows_upgrade table (by decide)).trans (hadmits row))
  · intro table row
    rw [context_setSessionContext]
    exact congrArg Except.ok ((takes_upgrade table (Or.inl rfl)).trans (hadmits row))
  · intro table old new
    rw [context_setSessionContext]
    refine congrArg Except.ok ?_
    simp only [Table.canUpdate, shows_upgrade table (by decide : Command.select ≠ .insert),
      shows_upgrade table (by decide : Command.update ≠ .insert),
      takes_upgrade table (Or.inr rfl), hadmits, Bool.and_self, Bool.decide_and]
  · intro table row
    rw [context_setSessionContext]
    refine congrArg Except.ok ?_
    simp only [Table.canDelete, shows_upgrade table (by decide : Command.select ≠ .insert),
      shows_upgrade table (by decide : Command.delete ≠ .insert), hadmits, Bool.and_self]

theorem UserRole.value_ne {role : UserRole} (h : role ≠ .rootAdmin) :
    role.value ≠ "root_admin" := by
  cases role with
  | rootAdmin => exact absurd rfl h
  | tenantAdmin => decide
  | watcher => decide

/-- All that a yielded session can be: its principal has access, its settings are of the path. -/
theorem getTenantDb_ok {auth : AuthContext} (h : s.getTenantDb auth tenantId = .ok s') :
    (auth.role = .rootAdmin ∨ auth.tenantId = some tenantId) ∧
      ∃ role : UserRole, role ≠ .rootAdmin ∧
        s' = s.setSessionContext (some tenantId) (some role.value) := by
  unfold Settings.getTenantDb at h
  by_cases hroot : auth.role = .rootAdmin
  · simp only [hroot, ne_eq, not_true_eq_false, false_and, ↓reduceIte, Except.ok.injEq] at h
    exact ⟨Or.inl hroot, .tenantAdmin, by decide, h.symm⟩
  · by_cases hten : auth.tenantId = some tenantId
    · simp only [hroot, hten, ne_eq, not_true_eq_false, and_false, ↓reduceIte,
        Except.ok.injEq] at h
      exact ⟨Or.inr hten, auth.role, hroot, h.symm⟩
    · simp [hroot, hten] at h

/-- The settings of a session that was opened over `base`. -/
def Session.settings (session : Session) (base : Settings) : Settings :=
  base.setSessionContext session.tenant (session.role.map UserRole.value)

theorem setSessionContext_setSessionContext {t t' : Option Uuid} {r r' : Option String} :
    (s.setSessionContext t r).setSessionContext t' r' =
      s.setSessionContext (t'.or t) (r'.or r) := by
  have hne : tenantSetting ≠ roleSetting := by decide
  cases t <;> cases t' <;> cases r <;> cases r' <;>
    simp [Settings.setSessionContext, Settings.setConfig, Function.update_idem,
      Function.update_comm hne]

theorem settings_setSessionContext (base : Settings) (t : Option Uuid) (role : UserRole)
    (session : Session) :
    Ends (setSessionContext t role) session
      (fun _ u => u.settings base = (session.settings base).setSessionContext t (some role.value))
      (fun _ _ => False) := by
  simp only [setSessionContext, ends_modify, Session.settings, setSessionContext_setSessionContext,
    Option.map_some, Option.some_or]

theorem getTenantDb_settings (base : Settings) (call : ResolveCall) (session : Session) :
    Ends (getTenantDb call) session
      (fun _ u => (session.settings base).getTenantDb call.auth call.tenantId =
        .ok (u.settings base))
      (fun _ _ => True) := by
  simp only [getTenantDb, requireTenantAccess, ResolveCall.at, ends_bind, ends_raiseWhen]
  refine ⟨fun _ => trivial, ?_⟩
  intro haccess
  refine ⟨fun _ => trivial, ?_⟩
  intro _
  simp only [Settings.getTenantDb, of_decide_eq_false haccess, ↓reduceIte]
  split
  · exact (settings_setSessionContext base _ _ session).mono
      (fun _ _ h => congrArg Except.ok h.symm) (fun _ _ h => h.elim)
  · exact (settings_setSessionContext base _ _ session).mono
      (fun _ _ h => congrArg Except.ok h.symm) (fun _ _ h => h.elim)

theorem context_settings (session : Session) :
    (session.settings fun _ => none).context cast =
      .ok ⟨session.tenant, session.role.map UserRole.value⟩ := by
  have hne : tenantSetting ≠ roleSetting := by decide
  cases ht : session.tenant with
  | none =>
    cases hr : session.role <;>
      simp [Session.settings, Settings.setSessionContext, Settings.setConfig, Settings.context,
        truthy, ht, hr, hne]
  | some id =>
    cases hr : session.role <;>
      simp [Session.settings, Settings.setSessionContext, Settings.setConfig, Settings.context,
        truthy_some (Uuid.str_ne_empty id), cast.read_str, ht, hr, hne, hne.symm]

/-- What a session sees is what the select policies show it. -/
theorem canSelect_settings (table : TenantScopedTable) (session : Session) :
    (fun c => (upgrade table).canSelect (argusApp owner) c ⟨some tenantId⟩) <$>
      (session.settings fun _ => none).context cast = .ok (session.sees tenantId) := by
  rw [context_settings]
  refine congrArg Except.ok ((shows_upgrade table (by decide)).trans ?_)
  have hroot : session.role.map UserRole.value = some "root_admin" ↔
      session.role = some .rootAdmin := by
    cases session.role with
    | none => simp
    | some role => cases role <;> decide
  have hadmin : isRootAdmin ⟨session.tenant, session.role.map UserRole.value⟩
      ⟨some tenantId⟩ = some true ↔ session.role = some .rootAdmin := by
    rw [← hroot, isRootAdmin, sqlEq_eq_true]
    simp [UserRole.value]
  have hown : tenantMatches ⟨session.tenant, session.role.map UserRole.value⟩
      ⟨some tenantId⟩ = some true ↔ session.tenant = some tenantId := by
    rw [tenantMatches, sqlEq_eq_true]
    simp
  simp only [PolicyContext.admits, Session.sees, hadmin, hown]

/-- The steps of `aggregate` after it has switched to the tenant of the evidence. -/
def AggregateStep.switched : AggregateStep → Bool
  | .setSessionContext | .getEvidence | .switchTenant => false
  | _ => true

section

variable {base : Settings} {call : AggregateCall} {evidence : Evidence} {tenant : Tenant}

theorem at_keeps (step : AggregateStep) : Keeps (Session.settings · base) (call.at step) :=
  keeps_raiseWhen _ _

theorem onTx_keeps (f : Db → Db) : Keeps (Session.settings · base) (onTx f) :=
  keeps_modify fun _ => rfl

theorem onWorld_keeps (f : World → World) : Keeps (Session.settings · base) (onWorld f) :=
  keeps_modify fun _ => rfl

theorem commit_keeps : Keeps (Session.settings · base) commit :=
  keeps_modify fun _ => rfl

theorem linkEvidence_keeps (decision : Decision) :
    Keeps (Session.settings · base) (linkEvidence call decision evidence) := by
  refine (at_keeps _).bind fun _ => keeps_get.bind fun s => ?_
  split
  · exact keeps_pure _
  · exact (onTx_keeps _).bind fun _ => (onTx_keeps _).bind fun _ => keeps_pure _

theorem createDecision_keeps :
    Keeps (Session.settings · base) (createDecision call evidence tenant) :=
  (at_keeps _).bind fun _ => keeps_get.bind fun _ => (keeps_raiseWhen _ _).bind fun _ =>
    (onTx_keeps _).bind fun _ => keeps_pure _

theorem setKey_keeps (key v : String) (ex : Int) :
    Keeps (Session.settings · base) (setKey key v ex) :=
  (keeps_raiseWhen _ _).bind fun _ => onWorld_keeps _

theorem createAndLink_keeps :
    Keeps (Session.settings · base) (createAndLink call evidence tenant) :=
  createDecision_keeps.bind fun decision => (at_keeps _).bind fun _ =>
    (setKey_keeps _ _ _).bind fun _ => linkEvidence_keeps decision

theorem openRow_keeps (openIdRaw : Option String) :
    Keeps (Session.settings · base) (openRow call openIdRaw) := by
  unfold openRow
  split
  · exact keeps_pure _
  · split
    · exact keeps_throw _
    · exact (at_keeps _).bind fun _ => keeps_get.bind fun _ => keeps_pure _

theorem mergeOrCreateDecision_keeps :
    Keeps (Session.settings · base) (mergeOrCreateDecision call evidence tenant) := by
  rw [mergeOrCreateDecision_eq]
  refine (at_keeps _).bind fun _ => (keeps_get.bind fun _ => keeps_pure _).bind fun raw =>
    (openRow_keeps raw).bind fun found => ?_
  cases found with
  | none => exact createAndLink_keeps
  | some decision =>
    simp only []
    split
    · exact linkEvidence_keeps decision
    · exact (at_keeps _).bind fun _ => (onWorld_keeps _).bind fun _ => createAndLink_keeps

theorem emitStateChange_keeps (decision : Decision) (oldState newState : DecisionState) :
    Keeps (Session.settings · base) (emitStateChange call decision oldState newState) := by
  refine (at_keeps _).bind fun _ => (onWorld_keeps _).bind fun _ =>
    (at_keeps _).bind fun _ => (onWorld_keeps _).bind fun _ => ?_
  split
  · exact (at_keeps _).bind fun _ => onWorld_keeps _
  · exact keeps_pure _

theorem applyStateTransitions_keeps (decision : Decision) :
    Keeps (Session.settings · base) (applyStateTransitions call decision tenant) := by
  simp only [applyStateTransitions]
  split
  · exact keeps_pure _
  · exact (at_keeps _).bind fun _ => (onTx_keeps _).bind fun _ => (onTx_keeps _).bind fun _ =>
      (emitStateChange_keeps _ _ _).bind fun _ => keeps_pure _

/-- What `aggregate` does once it has switched to the tenant of the evidence. -/
def afterSwitch (call : AggregateCall) (evidence : Evidence) (found : Option Tenant) :
    SessionProc Decision := do
  call.at .getTenant
  match found with
  | none => throw (.valueError ("Tenant not found: " ++ evidence.tenantId.str))
  | some tenant =>
    let merged ← mergeOrCreateDecision call evidence tenant
    let decision ← applyStateTransitions call merged tenant
    call.at .commit
    commit
    call.at .closeSession
    pure decision

theorem afterSwitch_keeps (found : Option Tenant) :
    Keeps (Session.settings · base) (afterSwitch call evidence found) := by
  refine (at_keeps _).bind fun _ => ?_
  cases found with
  | none => exact keeps_throw _
  | some tenant =>
    exact mergeOrCreateDecision_keeps.bind fun merged =>
      (applyStateTransitions_keeps merged).bind fun decision => (at_keeps _).bind fun _ =>
        commit_keeps.bind fun _ => (at_keeps _).bind fun _ => keeps_pure decision

/-- Once the context is that of the evidence's tenant no statement changes it. -/
theorem aggregateBody_settings {w : World}
    (hev : w.db.evidences.find call.evidenceId = some evidence)
    (hstep : ∀ step, call.raisesAt = some step → step.switched = true) :
    (exec (aggregateBody call) (Session.open w)).2.settings base =
      base.setSessionContext (some evidence.tenantId) (some UserRole.tenantAdmin.value) := by
  have passes : ∀ step : AggregateStep, step.switched = false →
      decide (call.raisesAt = some step) = true → False := by
    intro step hswitch h
    simp [hstep step (of_decide_eq_true h)] at hswitch
  have hrest : Ends (afterSwitch call evidence (w.db.tenants.find evidence.tenantId))
      (tenantOf w evidence)
      (fun _ t => t.settings base =
        base.setSessionContext (some evidence.tenantId) (some UserRole.tenantAdmin.value))
      (fun _ t => t.settings base =
        base.setSessionContext (some evidence.tenantId) (some UserRole.tenantAdmin.value)) :=
    afterSwitch_keeps _ _
  refine ends_state_iff (P := fun t : Session => t.settings base =
    base.setSessionContext (some evidence.tenantId) (some UserRole.tenantAdmin.value)).mp ?_
  simp only [aggregateBody, AggregateCall.at, setSessionContext, ends_bind, ends_raiseWhen,
    ends_get, ends_modify]
  refine ⟨fun h => (passes _ rfl h).elim, fun _ => ⟨fun h => (passes _ rfl h).elim, fun _ => ?_⟩⟩
  simp only [Session.open, hev, ends_bind, ends_raiseWhen, ends_modify]
  refine ⟨fun h => (passes _ rfl h).elim, fun _ => ?_⟩
  simp only [afterSwitch, AggregateCall.at, ends_bind, ends_raiseWhen] at hrest
  exact hrest

end

/-- Over any settings a connection may hold: the sessions of `get_tenant_db` are yielded only to
principals with access and work on the rows of the tenant of the path alone, and a call of
`aggregate` past its context switch, wherever it is stopped, works on those of the tenant of its
evidence. -/
theorem tenant_sessions_scoped (cast : UuidCast) (owner : Bool) (base : Settings) :
    (∀ auth tenantId s, base.getTenantDb auth tenantId = .ok s →
      (auth.role = .rootAdmin ∨ auth.tenantId = some tenantId) ∧
        ScopedTo cast (argusApp owner) s tenantId) ∧
    ∀ (call : AggregateCall) w evidence, w.db.evidences.find call.evidenceId = some evidence →
      (∀ step, call.raisesAt = some step → step.switched = true) →
      ScopedTo cast (argusApp owner)
        ((exec (aggregateBody call) (Session.open w)).2.settings base) evidence.tenantId := by
  constructor
  · intro auth tenantId s h
    obtain ⟨haccess, role, hrole, rfl⟩ := getTenantDb_ok h
    exact ⟨haccess, scopedTo_setSessionContext (UserRole.value_ne hrole)⟩
  · intro call w evidence hev hstep
    rw [aggregateBody_settings hev hstep]
    exact scopedTo_setSessionContext (by decide)

/-- A watcher's session, and a call that is stopped when it is to read the open key. -/
theorem tenant_sessions_scoped_sample :
    ScopedTo ⟨Uuid.parse, Uuid.parse_str⟩ (argusApp true)
      (Settings.setSessionContext (fun _ => none) (some ⟨1⟩) (some "watcher")) ⟨1⟩ ∧
    ScopedTo ⟨Uuid.parse, Uuid.parse_str⟩ (argusApp true)
      ((exec (aggregateBody { sampleAggregate 10 20 with raisesAt := some .getKey })
        (Session.open (sampleWorld [sampleEvidence 10 none 5]))).2.settings fun _ => some "")
      ⟨1⟩ := by
  constructor
  · exact ((tenant_sessions_scoped _ true _).1 ⟨"ana", some ⟨1⟩, .watcher⟩ ⟨1⟩ _ rfl).2
  · refine (tenant_sessions_scoped _ true _).2 _ _ (sampleEvidence 10 none 5) (by decide) ?_
    intro step hstep
    obtain rfl := Option.some.inj hstep
    rfl

end ArgusServices

import ArgusServices.Conservation
import ArgusServices.FrameDelivery
import ArgusServices.FrontDoor

namespace ArgusServices

open Effect Transition

/-- The tenant and the id of each row of the configuration; a mapping goes with its rule. -/
def ConfigDb.rows (db : ConfigDb) : List (Uuid × Uuid) :=
  db.markets.map (fun m => (m.tenantId, m.id)) ++ db.cameras.map (fun c => (c.tenantId, c.id)) ++
    db.regions.map (fun r => (r.tenantId, r.id)) ++
    db.contextModes.map (fun m => (m.tenantId, m.id)) ++
    db.schedules.map (fun s => (s.tenantId, s.id)) ++ db.lenses.map (fun l => (l.tenantId, l.id)) ++
    db.rules.map (fun r => (r.tenantId, r.id)) ++
    db.regionMappings.map (fun m => (m.tenantId, m.ruleId)) ++
    db.notificationConfigs.map fun c => (c.tenantId, c.id)

variable {door : Door} {lib : AnalyzerLibrary} {texts : FieldTexts} {ms : List ApiMove}
  {p q : Pipeline} {m : ApiMove}

/-- The fields are those of a sequence that a device has sent. -/
def StreamFields.Sent (door : Door) (ms : List ApiMove) (fields : StreamFields) : Prop :=
  ∃ t c i : Uuid, fields.lookup "tenant_id" = some t.str ∧ fields.lookup "camera_id" = some c.str ∧
    fields.lookup "ingestion_id" = some i.str ∧ SentBy door ms t c i

/-- A sequence of the tenant, and of the camera, has been sent. -/
def Fed (door : Door) (ms : List ApiMove) (tenantId cameraId : Uuid) : Prop :=
  ∃ ingestionId, SentBy door ms tenantId cameraId ingestionId

def Event.Backed (door : Door) (ms : List ApiMove) : Event → Prop
  | .wsStateChanged tenantId _ cameraId .. => Fed door ms tenantId cameraId
  | .busStateChanged tenantId .. => ∃ cameraId, Fed door ms tenantId cameraId
  | .wsResolved tenantId decisionId state resolvedBy _ => ∃ disposition,
      state = dispositionToState disposition ∧
        ResolvedBy door ms tenantId decisionId disposition resolvedBy

def AuditRecord.Backed (door : Door) (ms : List ApiMove) (r : AuditRecord) : Prop :=
  match r.payload with
  | .stateChange .. => r.actor = some "worker-aggregator" ∧ ∃ c, Fed door ms r.tenantId c
  | .resolved disposition _ => ∃ sub, r.actor = some sub ∧
      ResolvedBy door ms r.tenantId r.decisionId disposition sub

/-- A decision is of a place that was heard from, and was resolved, if it is, by a user of its
tenant. -/
structure Decision.Backed (door : Door) (ms : List ApiMove) (d : Decision) : Prop where
  fed : Fed door ms d.tenantId d.cameraId
  resolved : d.state.resolved = true → ∃ disposition sub,
    d.state = dispositionToState disposition ∧ d.resolvedBy = some sub ∧
      ResolvedBy door ms d.tenantId d.id disposition sub

structure World.Backed (door : Door) (ms : List ApiMove) (w : World) : Prop where
  decisions : ∀ id d, w.db.decisions.find id = some d → d.Backed door ms
  links : ∀ l ∈ w.db.decisionEvidences, ∃ c, Fed door ms l.tenantId c
  feedback : ∀ f ∈ w.db.feedback,
    ResolvedBy door ms f.tenantId f.decisionId f.disposition f.submittedBy
  audits : ∀ r ∈ w.db.auditRecords, r.Backed door ms
  events : ∀ e ∈ w.published, e.Backed door ms

/-- All there is of a tenant goes back to a request with a token for that tenant. -/
structure Pipeline.Backed (door : Door) (ms : List ApiMove) (p : Pipeline) : Prop where
  entries : ∀ entry ∈ p.group.entries, entry.2.Sent door ms
  tasks : ∀ entry ∈ p.group.tasks, entry.2.Sent door ms
  evidences : ∀ e ∈ p.system.analyzer.evidences,
    SentBy door ms e.tenantId e.cameraId e.ingestionId
  world : p.system.world.Backed door ms
  config : ∀ row ∈ p.system.config.rows, ConfiguredBy door ms row.1 row.2

/-- Nothing is there but tenants and Redis keys. -/
structure Pipeline.Bare (p : Pipeline) : Prop where
  group : p.group = ⟨[], 0, [], []⟩
  evidences : p.system.analyzer.evidences = []
  decisions : ∀ id, p.system.world.db.decisions.find id = none
  links : p.system.world.db.decisionEvidences = []
  feedback : p.system.world.db.feedback = []
  audits : p.system.world.db.auditRecords = []
  events : p.system.world.published = []
  config : p.system.config.rows = []

theorem Pipeline.Bare.backed (h : p.Bare) : p.Backed door ms where
  entries := by simp [h.group]
  tasks := by simp [h.group]
  evidences := by simp [h.evidences]
  world := ⟨by simp [h.decisions], by simp [h.links], by simp [h.feedback], by simp [h.audits],
    by simp [h.events]⟩
  config := by simp [h.config]

/-- A device that is let in puts its own sequences on the stream, and no others. -/
theorem Pipeline.Backed.ingestSequence (h : p.Backed door ms)
    {credentials : Option Auth.HTTPAuthorizationCredentials} {call : IngestCall}
    {replies : List Reply} {entryId : String}
    (hm : .ingestSequence credentials call replies entryId ∈ ms) :
    (p.ingestSequence door texts credentials call replies entryId).Backed door ms := by
  unfold Pipeline.ingestSequence
  cases hauth : Auth.getEdgeAuthContext door.library credentials with
  | error e => exact h
  | ok auth =>
    have hdevice := getEdgeAuthContext_device hauth
    show (p.accept texts { call with auth := ⟨auth.tenantId, auth.cameraId⟩ } replies
      entryId).Backed door ms
    have hworld : (p.accept texts { call with auth := ⟨auth.tenantId, auth.cameraId⟩ } replies
        entryId).system.world.Backed door ms :=
      ⟨h.world.decisions, h.world.links, h.world.feedback, h.world.audits, h.world.events⟩
    refine ⟨?_, h.tasks, h.evidences, hworld, h.config⟩
    intro entry hentry
    have hentry : entry ∈ p.group.entries ++ _ := hentry
    rcases List.mem_append.mp hentry with hold | hnew
    · exact h.entries entry hold
    · obtain ⟨event, hevent, rfl⟩ := List.mem_map.mp hnew
      have hstream := run_stream { call with auth := ⟨auth.tenantId, auth.cameraId⟩ }
        ⟨p.system.world.keys, p.system.stream⟩ replies
      have hevent : event ∈ (IngestCall.run { call with auth := ⟨auth.tenantId, auth.cameraId⟩ }
        replies (⟨p.system.world.keys, p.system.stream⟩, .begun)).1.stream.drop
          p.system.stream.length := hevent
      rcases hstream with hsame | ⟨hclaims, frameUris, hput⟩
      · simp [hsame] at hevent
      · rw [hput] at hevent
        obtain rfl : event = ingestEvent call.request frameUris := by simpa using hevent
        simp only [validateClaims, Bool.and_eq_true, decide_eq_true_eq] at hclaims
        obtain ⟨htenant, hcamera⟩ := hclaims
        refine ⟨call.request.tenantId, call.request.cameraId, call.request.ingestionId, rfl, rfl,
          rfl, credentials, call, replies, entryId, hm, rfl, ?_⟩
        rw [htenant, hcamera]
        exact hdevice

theorem Pipeline.Backed.poll (h : p.Backed door ms) (call : PollCall) :
    (p.poll call).Backed door ms := by
  have hgroup : (p.poll call).group = (exec (processIngestStreamBatch call) p.group).2 := rfl
  rw [poll_state] at hgroup
  refine { h with entries := ?_, tasks := ?_ }
  · rw [hgroup]
    split
    next => exact h.entries
    next => exact h.entries
  · rw [hgroup]
    split
    next =>
      intro entry hentry
      rcases List.mem_append.mp hentry with hold | hnew
      · exact h.tasks entry hold
      · have hunread : entry ∈ p.group.unread 10 := hands_mem call hnew
        exact h.entries entry (List.mem_of_mem_drop (List.mem_of_mem_take hunread))
    next => exact h.tasks

/-- The row of a message is of the tenant and the camera that sent it. -/
theorem sentBy_of_adds {attempt : AnalyzeAttempt} {fields : StreamFields} {w w' : AnalyzerWorld}
    (hfields : fields.Sent door ms)
    (hold : ∀ e ∈ w.evidences, SentBy door ms e.tenantId e.cameraId e.ingestionId)
    (h : attempt.Adds lib fields w w') :
    ∀ e ∈ w'.evidences, SentBy door ms e.tenantId e.cameraId e.ingestionId := by
  rcases h with hsame | ⟨message, evidence, hread, hanalyzed, -, hnew⟩
  · rw [hsame]
    exact hold
  · rw [hnew]
    intro e he
    rcases List.mem_append.mp he with he | he
    · exact hold e he
    · obtain rfl := List.mem_singleton.mp he
      obtain ⟨t, c, i, ht, hc, hi, hsent⟩ := hfields
      have hfrom := parseMessage_readFrom hread
      have hrow := analyze_analyzed hanalyzed
      have htenant := hfrom.tenant
      have hcamera := hfrom.camera
      have hingestion := hfrom.ingestion
      rw [ht, Option.bind_some, Uuid.parse_str] at htenant
      rw [hc, Option.bind_some, Uuid.parse_str] at hcamera
      rw [hi, Option.bind_some, Uuid.parse_str] at hingestion
      rw [hrow.tenant, hrow.camera, hrow.ingestion, ← Option.some.inj htenant,
        ← Option.some.inj hcamera, ← Option.some.inj hingestion]
      exact hsent

theorem Pipeline.Backed.analyze (h : p.Backed door ms) {entry : String × StreamFields}
    (hentry : entry ∈ p.group.tasks) (attempt : AnalyzeAttempt) (retries : Nat) :
    (p.analyze lib entry attempt retries).Backed door ms := by
  have hadds := ends_state_iff.mp (@ends_analyzeIngestMessage_adds lib
    (p.system.meets lib attempt entry.2) entry.1 entry.2 retries p.system.analyzer)
  refine { h with
    tasks := ?_
    evidences := sentBy_of_adds (h.tasks entry hentry) h.evidences hadds }
  intro task htask
  unfold Pipeline.analyze at htask
  dsimp only at htask
  split at htask
  next => exact h.tasks task (List.mem_of_mem_erase htask)
  next => exact h.tasks task htask

section Aggregate

variable {call : AggregateCall} {evidence : Evidence} {tenant : Tenant} {d : Decision}
  {w w' : World} {keys : String → Option RedisEntry}

/-- The decision an aggregation goes to is of the place of its evidence. -/
theorem Target.fed (hw : w.Backed door ms) (hevidence : Fed door ms evidence.tenantId
    evidence.cameraId) (h : Target w call evidence tenant d keys) :
    Fed door ms d.tenantId d.cameraId := by
  rcases h.found with ⟨-, -, hrow⟩ | ⟨rfl, -, -⟩
  · exact (hw.decisions _ _ hrow).fed
  · exact hevidence

theorem Fed.of_place {d' : Decision} (h : Fed door ms d.tenantId d.cameraId)
    (hplace : d'.place = d.place) : Fed door ms d'.tenantId d'.cameraId := by
  have htenant : d'.tenantId = d.tenantId := congrArg Place.tenantId hplace
  have hcamera : d'.cameraId = d.cameraId := congrArg Place.cameraId hplace
  rw [htenant, hcamera]
  exact h

theorem backed_newEvents (hfed : Fed door ms d.tenantId d.cameraId) :
    ∀ e ∈ newEvents tenant d, e.Backed door ms := by
  intro e he
  unfold newEvents at he
  split at he
  next => cases he
  next =>
    simp only [List.mem_cons, List.not_mem_nil, or_false] at he
    rcases he with rfl | rfl
    · exact hfed
    · exact ⟨_, hfed⟩

theorem backed_newAudits (hfed : Fed door ms d.tenantId d.cameraId) :
    ∀ r ∈ newAudits tenant d, r.Backed door ms := by
  intro r hr
  unfold newAudits at hr
  split at hr
  next => cases hr
  next =>
    rw [List.mem_singleton.mp hr]
    exact ⟨rfl, _, hfed⟩

theorem World.Backed.committed (hw : w.Backed door ms)
    (hevidence : Fed door ms evidence.tenantId evidence.cameraId)
    (h : Committed call w w' evidence tenant d) : w'.Backed door ms := by
  have hfed : Fed door ms d.tenantId d.cameraId := h.target.fed hw hevidence
  have hlinked := hfed.of_place (afterLink_place w.db call d evidence)
  refine ⟨?_, ?_, ?_, ?_, ?_⟩
  · intro id row hrow
    rw [h.find] at hrow
    split at hrow
    next =>
      obtain rfl := Option.some.inj hrow
      refine ⟨hlinked.of_place (afterState_place call tenant _), ?_⟩
      intro hresolved
      rw [afterState_state, computeState_unresolved] at hresolved
      cases hresolved
    next => exact hw.decisions id row hrow
  · intro l hl
    rw [h.db] at hl
    rcases List.mem_append.mp hl with hold | hnew
    · exact hw.links l hold
    · unfold newLinks at hnew
      split at hnew
      next => cases hnew
      next =>
        rw [List.mem_singleton.mp hnew]
        exact ⟨_, hevidence⟩
  · rw [h.db]
    exact hw.feedback
  · rw [h.db]
    intro r hr
    rcases List.mem_append.mp hr with hold | hnew
    · exact hw.audits r hold
    · exact backed_newAudits hlinked r hnew
  · rw [h.published]
    intro e he
    rcases List.mem_append.mp he with hold | hnew
    · exact hw.events e hold
    · exact backed_newEvents hlinked e hnew

/-- A call that raised may have sent the events of its state change. -/
theorem World.Backed.rolledBack (hw : w.Backed door ms)
    (hevidence : ∀ id e, w.db.evidences.find id = some e → Fed door ms e.tenantId e.cameraId)
    (h : RolledBack call w w') : w'.Backed door ms := by
  have hevents : ∀ e ∈ w'.published, e.Backed door ms := by
    rcases h.leftover with rfl | ⟨evidence, tenant, hfound, -, hleft⟩
    · exact hw.events
    · cases hleft with
      | untouched => exact hw.events
      | keyDeleted => exact hw.events
      | @decided d keys es ts htarget hsent =>
        have hfed := (htarget.fed hw (hevidence _ _ hfound)).of_place
          (afterLink_place w.db call d evidence)
        intro e he
        rcases List.mem_append.mp he with hold | hnew
        · exact hw.events e hold
        · exact backed_newEvents hfed e (hsent.events.subset hnew)
  refine ⟨?_, ?_, ?_, ?_, hevents⟩
  · rw [h.db]
    exact hw.decisions
  · rw [h.db]
    exact hw.links
  · rw [h.db]
    exact hw.feedback
  · rw [h.db]
    exact hw.audits

end Aggregate

theorem Pipeline.Backed.aggregate (h : p.Backed door ms) (evidenceId : String)
    (call : AggregateCall) : (p.aggregate evidenceId call).Backed door ms := by
  have hevidence : ∀ id e, p.system.toWorld.db.evidences.find id = some e →
      Fed door ms e.tenantId e.cameraId :=
    fun id e he => ⟨_, h.evidences e (KeyedTable.mem_of_find_ofList he)⟩
  have hworld : p.system.toWorld.Backed door ms :=
    ⟨h.world.decisions, h.world.links, h.world.feedback, h.world.audits, h.world.events⟩
  refine { h with world := ?_ }
  rcases aggregate_cases call p.system.toWorld with hrolled | ⟨evidence, tenant, d, hd⟩
  · exact hworld.rolledBack hevidence hrolled
  · exact hworld.committed (hevidence _ _ hd.evidence_found) hd

section Resolve

variable {call : ResolveCall} {w w' : World} {d : Decision}

/-- Only a request of a watcher or an administrator of the tenant is accepted. -/
theorem Accepted.resolvedBy {request : HttpRequest} {body : ResolveCall} {sub : String}
    {auth : Auth.AuthContext} (hauth : getAuthContext door request = .ok auth)
    (hsub : auth.sub = .str sub) (hm : .resolveDecision request body ∈ ms)
    (h : Accepted { body with auth := ⟨sub, auth.tenantId, auth.role⟩ } w d) :
    ResolvedBy door ms body.tenantId body.decisionId body.body.disposition sub := by
  have htoken := getAuthContext_eq_ok hauth fun _ => h.access
  rw [hsub] at htoken
  exact ⟨request, body, auth.role, hm, rfl, rfl, rfl, h.role, htoken⟩

theorem World.Backed.published (hw : w.Backed door ms) (hid : d.id = call.decisionId)
    (hby : ResolvedBy door ms call.tenantId call.decisionId call.body.disposition call.auth.sub) :
    ∀ e ∈ w.published ++ [resolvedEvent call d], e.Backed door ms := by
  intro e he
  rcases List.mem_append.mp he with hold | hnew
  · exact hw.events e hold
  · rw [List.mem_singleton.mp hnew]
    rw [← hid] at hby
    exact ⟨call.body.disposition, rfl, hby⟩

theorem World.Backed.resolved (hw : w.Backed door ms)
    (hby : ResolvedBy door ms call.tenantId call.decisionId call.body.disposition call.auth.sub)
    (h : Resolved call w w' d) : w'.Backed door ms := by
  have hid : d.id = call.decisionId := w.db.decisions.keyed _ _ h.found
  have hfed : Fed door ms d.tenantId d.cameraId := (hw.decisions _ _ h.found).fed
  have hown : ResolvedBy door ms d.tenantId d.id call.body.disposition call.auth.sub := by
    rw [h.tenant, hid]
    exact hby
  have hevents := hw.published hid hby
  rw [h.world]
  refine ⟨?_, hw.links, ?_, ?_, hevents⟩
  · intro id row hrow
    have hrow : (w.db.decisions.put (resolvedRow call d)).find id = some row := hrow
    rw [KeyedTable.find_put] at hrow
    split at hrow
    next =>
      obtain rfl := Option.some.inj hrow
      exact ⟨hfed, fun _ => ⟨_, _, rfl, rfl, hown⟩⟩
    next => exact hw.decisions id row hrow
  · intro f hf
    rcases List.mem_append.mp hf with hold | hnew
    · exact hw.feedback f hold
    · rw [List.mem_singleton.mp hnew]
      rw [h.tenant] at hown
      exact hown
  · intro r hr
    rcases List.mem_append.mp hr with hold | hnew
    · exact hw.audits r hold
    · rw [List.mem_singleton.mp hnew]
      exact ⟨_, rfl, hown⟩

end Resolve

theorem Pipeline.Backed.resolveDecision (h : p.Backed door ms) {request : HttpRequest}
    {call : ResolveCall} (hm : .resolveDecision request call ∈ ms) :
    (p.resolveDecision door request call).Backed door ms := by
  unfold Pipeline.resolveDecision
  split
  next => exact h
  next auth hauth =>
    split
    next sub hsub =>
      have hworld : p.system.toWorld.Backed door ms :=
        ⟨h.world.decisions, h.world.links, h.world.feedback, h.world.audits, h.world.events⟩
      refine ⟨h.entries, h.tasks, h.evidences, ?_, h.config⟩
      rcases resolveDecision_cases { call with auth := ⟨sub, auth.tenantId, auth.role⟩ }
        p.system.toWorld with hrejected | ⟨d, hd⟩
      · have hcases : ∀ {w : World}, Rejected { call with auth := ⟨sub, auth.tenantId, auth.role⟩ }
            p.system.toWorld w → w.Backed door ms := by
          intro w hw
          cases hw with
          | unchanged => exact hworld
          | published _ haccepted =>
            have hby : ResolvedBy door ms call.tenantId call.decisionId call.body.disposition sub :=
              haccepted.resolvedBy hauth hsub hm
            have hid := p.system.toWorld.db.decisions.keyed _ _ haccepted.found
            exact ⟨hworld.decisions, hworld.links, hworld.feedback, hworld.audits,
              hworld.published hid hby⟩
        exact hcases hrejected
      · have hby : ResolvedBy door ms call.tenantId call.decisionId call.body.disposition sub :=
          hd.toAccepted.resolvedBy hauth hsub hm
        exact hworld.resolved hby hd
    next => exact h

/-- A request adds rows of the tenant of its path only. -/
theorem mem_rows_add {call : AdminCall} {db : ConfigDb} {row : Uuid × Uuid}
    (h : row ∈ (call.add db).rows) : row ∈ db.rows ∨ row = (call.tenantId, call.newId) := by
  have hmapped : ∀ regionIds : List Uuid, ∀ m ∈ regionIds.map call.mapping,
      (m.tenantId, m.ruleId) = (call.tenantId, call.newId) := by
    intro regionIds m hm
    obtain ⟨_, -, rfl⟩ := List.mem_map.mp hm
    rfl
  unfold AdminCall.add at h
  unfold ConfigDb.rows at h ⊢
  cases hbody : call.body with
  | createRule body =>
    simp only [hbody, AdminCall.withRule, AdminCall.addMappings, AdminCall.rule, List.map_append,
      List.map_cons, List.map_nil, List.mem_append, List.mem_singleton] at h ⊢
    have hmapping : row ∈ (body.regionIds.map call.mapping).map (fun m => (m.tenantId, m.ruleId)) →
        row = (call.tenantId, call.newId) := by
      intro hrow
      obtain ⟨m, hm, rfl⟩ := List.mem_map.mp hrow
      exact hmapped body.regionIds m hm
    tauto
  | _ =>
    simp only [hbody, AdminCall.market, AdminCall.camera, AdminCall.region, AdminCall.contextMode,
      AdminCall.schedule, AdminCall.lens, AdminCall.notificationConfig, List.map_append,
      List.map_cons, List.map_nil, List.mem_append, List.mem_singleton] at h ⊢
    tauto

theorem AdminCall.context_role {call : AdminCall} {context : Option Uuid × UserRole}
    (h : call.context = .ok context) :
    (call.auth.role = .tenantAdmin ∨ call.auth.role = .rootAdmin) ∧
      (call.auth.role ≠ .rootAdmin → call.auth.tenantId = some call.tenantId) := by
  unfold AdminCall.context at h
  simp only [bind_eq_ok, throwWhen_eq_ok] at h
  obtain ⟨_, haccess, _, hrole, -⟩ := h
  rw [decide_eq_false_iff_not] at haccess hrole
  refine ⟨by simpa using Classical.not_not.mp hrole, ?_⟩
  intro hroot
  exact Classical.not_not.mp fun hne => haccess ⟨hroot, hne⟩

theorem configuredBy_of_rows {request : HttpRequest} {call : AdminCall} {auth : Auth.AuthContext}
    {db : ConfigDb} (hauth : getAuthContext door request = .ok auth)
    (hm : .admin request call ∈ ms) (hold : ∀ row ∈ db.rows, ConfiguredBy door ms row.1 row.2) :
    ∀ row ∈ (AdminCall.serve { call with auth := ⟨call.auth.sub, auth.tenantId, auth.role⟩ }
      db).2.rows, ConfiguredBy door ms row.1 row.2 := by
  rw [serve_eq]
  split
  next hcommits =>
    intro row hrow
    rcases mem_rows_add hrow with hrow | rfl
    · exact hold row hrow
    · unfold AdminCall.commits at hcommits
      split at hcommits
      next => cases hcommits
      next hcontext =>
        obtain ⟨hrole, htenant⟩ := AdminCall.context_role hcontext
        have htoken := getAuthContext_eq_ok hauth htenant
        exact ⟨request, call, auth.role, auth.sub, hm, rfl, rfl, hrole, htoken⟩
  next => exact hold

theorem Pipeline.Backed.admin (h : p.Backed door ms) {request : HttpRequest} {call : AdminCall}
    (hm : .admin request call ∈ ms) : Pipeline.Backed door ms
      { p with system := p.system.adminRequest door request call } := by
  unfold System.adminRequest
  split
  next => exact h
  next auth hauth =>
    exact ⟨h.entries, h.tasks, h.evidences, h.world, configuredBy_of_rows hauth hm h.config⟩

/-- What goes on behind the routes brings in nothing new. -/
theorem Pipeline.Backed.work (h : p.Backed door ms) {move : PipelineMove}
    (hinside : move.inside = true) (henabled : p.enabled move) :
    (p.next lib texts move).Backed door ms := by
  have hkeys : ∀ key entry, (p.setKey key entry).Backed door ms := by
    intro key entry
    have hworld : (p.setKey key entry).system.world.Backed door ms :=
      ⟨h.world.decisions, h.world.links, h.world.feedback, h.world.audits, h.world.events⟩
    exact ⟨h.entries, h.tasks, h.evidences, hworld, h.config⟩
  cases move with
  | poll call => exact h.poll call
  | analyze entry attempt retries => exact h.analyze henabled attempt retries
  | aggregate evidenceId call => exact h.aggregate evidenceId call
  | setActiveMode cameraId mode => exact hkeys _ _
  | expireKey key => exact hkeys _ _
  | _ => cases hinside

/-- The step lemma, for a request or a move of those that were made. -/
theorem Pipeline.Backed.step (h : p.Backed door ms) (hm : m ∈ ms)
    (hstep : Handling door lib texts p m q) : q.Backed door ms := by
  obtain ⟨hadmits, rfl⟩ := hstep
  cases m with
  | ingestSequence credentials call replies entryId => exact h.ingestSequence hm
  | resolveDecision request call => exact h.resolveDecision hm
  | admin request call => exact h.admin hm
  | work move => exact h.work hadmits.1 hadmits.2

theorem Pipeline.Backed.run {made : List ApiMove} (h : p.Backed door ms) (hsub : made ⊆ ms)
    (hrun : Run (Handling door lib texts) p made q) : q.Backed door ms := by
  induction hrun with
  | nil => exact h
  | cons hstep _ ih =>
    have hmade := hsub List.mem_cons_self
    exact ih (h.step hmade hstep) fun m hm => hsub (List.mem_cons_of_mem _ hm)

/-- Whatever requests are sent with whatever tokens, and however the work behind them goes: all
that there is of a tenant goes back to requests with tokens for that tenant. -/
theorem run_backed (hbare : p.Bare) (hrun : Run (Handling door lib texts) p ms q) :
    q.Backed door ms :=
  hbare.backed.run (List.Subset.refl ms) hrun

/-- The tokens of an administrator, a watcher and a camera of tenant 1. -/
def sampleTokens : String → Except Auth.JwtError Members
  | "admin" => .ok [("sub", .str "auth0|admin"), ("role", .str "tenant_admin"),
      ("tenant_id", .str (Uuid.str ⟨1⟩))]
  | "watcher" => .ok [("sub", .str "auth0|watcher"), ("role", .str "watcher"),
      ("tenant_id", .str (Uuid.str ⟨1⟩))]
  | "camera" => .ok Auth.edgePayload
  | _ => .error .invalidToken

def sampleDoor : Door :=
  ⟨{ Auth.libraryOf [] with decode := sampleTokens }, false⟩

def bearer (token : String) : Option Auth.HTTPAuthorizationCredentials :=
  some ⟨"Bearer", token⟩

/-- A move of the sample flow, asked for with a token where it is a request. -/
def PipelineMove.asked : PipelineMove → ApiMove
  | .accept call replies entryId => .ingestSequence (bearer "camera") call replies entryId
  | .resolve call => .resolveDecision ⟨bearer "watcher", none⟩ call
  | .admin call => .admin ⟨bearer "admin", none⟩ call
  | move => .work move

/-- The sample flow up to a resolved decision; before it, others try without a token of the tenant,
or with one that is not for the request. -/
def requestMoves : List ApiMove :=
  [.ingestSequence (bearer "watcher") sampleIngestCall [.done, .done, .done, .done] "6-0",
    .resolveDecision ⟨bearer "nobody", none⟩ (sampleResolve 20)] ++
    sampleMoves.map PipelineMove.asked ++ [PipelineMove.asked (.resolve (sampleResolve 20))]

def afterRequests : Pipeline :=
  requestMoves.foldl (Pipeline.handle sampleDoor sampleLibrary sampleTexts) samplePipeline

instance (p : Pipeline) : ∀ m, Decidable (p.admits m)
  | .work move => inferInstanceAs (Decidable (move.inside = true ∧ p.enabled move))
  | .ingestSequence .. | .resolveDecision .. | .admin .. => instDecidableTrue

theorem run_requestMoves : Run (Handling sampleDoor sampleLibrary sampleTexts) samplePipeline
    requestMoves afterRequests := by
  have hrun : Run (Handling sampleDoor sampleLibrary sampleTexts) samplePipeline
      (requestMoves.map id) afterRequests := by
    refine run_foldl (fun p m => decide (p.admits m)) ?_ ?_
    · intro p m hok
      exact ⟨of_decide_eq_true hok, rfl⟩
    · decide +kernel
  rwa [List.map_id] at hrun

theorem run_backed_sample : (afterRequests.system.world.db.decisions.find ⟨20⟩).isSome = true ∧
    ∀ d, afterRequests.system.world.db.decisions.find ⟨20⟩ = some d →
      d.state.resolved = true ∧ d.Backed sampleDoor requestMoves := by
  have hbare : samplePipeline.Bare := ⟨rfl, rfl, fun _ => rfl, rfl, rfl, rfl, rfl, rfl⟩
  have hbacked := run_backed hbare run_requestMoves
  refine ⟨by decide +kernel, ?_⟩
  intro d hd
  have hresolved : (afterRequests.system.world.db.decisions.find ⟨20⟩).map
      (fun d => d.state.resolved) = some true := by decide +kernel
  rw [hd] at hresolved
  exact ⟨Option.some.inj hresolved, hbacked.world.decisions _ d hd⟩

end ArgusServices

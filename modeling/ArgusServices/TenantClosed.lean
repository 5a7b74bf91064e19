import ArgusServices.AnalyzeEffect
import ArgusServices.ConfigEffect
import ArgusServices.IngestRun
import ArgusServices.Place
import ArgusServices.SerialRun

namespace ArgusServices

open Effect Transition

/-- The configuration, the evidences with the queues around them, the rows and keys of the
aggregation, and the ingest stream. -/
structure System where
  config : ConfigDb
  analyzer : AnalyzerWorld
  world : World
  stream : List IngestEvent

/-- The texts `xadd` writes for what is no text. -/
structure FieldTexts where
  isoformat : Int → String
  dumpsObject : List (String × String) → String
  dumpsArray : List String → String

def FieldTexts.payload (texts : FieldTexts) (event : IngestEvent) : StreamFields :=
  [("ingestion_id", event.ingestionId), ("tenant_id", event.tenantId),
    ("camera_id", event.cameraId), ("captured_at", texts.isoformat event.capturedAt),
    ("context_mode_id", event.contextModeId), ("region_id", event.regionId),
    ("edge_trigger_metadata", texts.dumpsObject event.edgeTriggerMetadata),
    ("frame_uris", texts.dumpsArray event.frameUris)]

/-- A foreign key of the evidence row of a message leads nowhere. -/
def ConfigDb.refuses (db : ConfigDb) (message : IngestMessage) : Bool :=
  (db.tenants.find message.tenantId).isNone || (db.cameraOwner message.cameraId).isNone ||
    (message.regionId.any fun id => (db.regionOwner id).isNone) ||
    (db.contextModeOwner message.contextModeId).isNone

/-- What a try meets: the lenses and rules there are, and the foreign keys. -/
def System.meets (s : System) (lib : AnalyzerLibrary) (attempt : AnalyzeAttempt)
    (fields : StreamFields) : AnalyzeAttempt :=
  { attempt with
    lenses := s.config.lenses.map StoredLens.toLens
    rules := s.config.rules.map StoredRule.toRule
    flushRaises := attempt.flushRaises ||
      (lib.parseMessage fields).toOption.any s.config.refuses }

inductive Operation
  | admin (call : AdminCall)
  | accept (call : IngestCall) (replies : List Reply)
  | analyze (attempt : AnalyzeAttempt) (messageId : String) (event : IngestEvent)
  | aggregate (call : AggregateCall)
  | redis (keys : String → Option RedisEntry)

def System.admin (s : System) (call : AdminCall) : System :=
  { s with config := (call.serve s.config).2 }

def System.accept (s : System) (call : IngestCall) (replies : List Reply) : System :=
  let w := (call.run replies (⟨s.world.keys, s.stream⟩, .begun)).1
  { s with
    world := { s.world with keys := w.keys }
    stream := w.stream }

def System.analyze (lib : AnalyzerLibrary) (s : System) (attempt : AnalyzeAttempt)
    (messageId : String) (fields : StreamFields) : System :=
  { s with
    analyzer := (exec (analyzeMessage lib (s.meets lib attempt fields) messageId fields)
      s.analyzer).2 }

/-- The rows and keys an aggregation sees. -/
def System.toWorld (s : System) : World :=
  { s.world with
    db := { s.world.db with
      tenants := s.config.tenants
      evidences := .ofList s.analyzer.evidences } }

def System.aggregate (s : System) (call : AggregateCall) : System :=
  { s with world := (ArgusServices.aggregate call s.toWorld).2 }

/-- The operations in any order. A token names a camera of its tenant, a message is analyzed that
is on the stream, and Redis keys come and go. -/
inductive Operating (lib : AnalyzerLibrary) (texts : FieldTexts) : System → Operation → System → Prop
  | admin {s : System} {call : AdminCall} :
      Operating lib texts s (.admin call) (s.admin call)
  | accept {s : System} {call : IngestCall} {replies : List Reply} :
      s.config.cameraOwner call.auth.cameraId = some call.auth.tenantId →
      Operating lib texts s (.accept call replies) (s.accept call replies)
  | analyze {s : System} {attempt : AnalyzeAttempt} {messageId : String} {event : IngestEvent} :
      event ∈ s.stream → Operating lib texts s (.analyze attempt messageId event)
        (s.analyze lib attempt messageId (texts.payload event))
  | aggregate {s : System} {call : AggregateCall} :
      Operating lib texts s (.aggregate call) (s.aggregate call)
  | redis {s : System} {keys : String → Option RedisEntry} :
      Operating lib texts s (.redis keys) { s with world := { s.world with keys := keys } }

/-- There is a decision of the place. -/
def System.HasPlace (s : System) (p : Place) : Prop :=
  ∃ d, s.world.db.decisions.find d.id = some d ∧ d.place = p

/-- The references of the rows that the pipeline writes. -/
def System.rowRefers (s : System) : ReferenceKind → Uuid → Uuid → Prop
  | .evidenceCamera, t, id => ∃ e ∈ s.analyzer.evidences, e.tenantId = t ∧ e.cameraId = id
  | .evidenceRegion, t, id => ∃ e ∈ s.analyzer.evidences, e.tenantId = t ∧ e.regionId = some id
  | .decisionCamera, t, id => ∃ p, s.HasPlace p ∧ p.tenantId = t ∧ p.cameraId = id
  | .decisionRegion, t, id => ∃ p, s.HasPlace p ∧ p.tenantId = t ∧ p.regionId = some id
  | _, _, _ => False

def System.references (s : System) : References ReferenceKind Uuid Uuid where
  refers := fun k t id => s.config.refers k t id ∨ s.rowRefers k t id
  owner := s.config.owner

/-- The two rows of every foreign key are of one tenant. -/
def System.TenantClosed (s : System) : Prop :=
  s.references.Closed

/-- No tenant-scoped rows and no messages; there may be tenants and Redis keys. -/
structure System.Empty (s : System) : Prop where
  config : s.config = ⟨s.config.tenants, [], [], [], [], [], [], [], [], []⟩
  evidences : s.analyzer.evidences = []
  decisions : ∀ id, s.world.db.decisions.find id = none
  stream : s.stream = []

/-- Neither the market of a new schedule nor the region of a message is of another tenant. -/
def System.Own (s : System) : Operation → Prop
  | .admin call => call.Own s.config
  | .analyze _ _ event => ∀ t ∈ Uuid.parse event.tenantId, ∀ r ∈ Uuid.parse event.regionId,
      ∀ owner ∈ s.config.regionOwner r, owner = t
  | _ => True

/-- A schedule or an evidence has been added. -/
def System.AddsRow (s s' : System) : Prop :=
  s'.config.schedules ≠ s.config.schedules ∨ s'.analyzer.evidences ≠ s.analyzer.evidences

structure System.Isolated (s : System) : Prop where
  closed : s.TenantClosed
  stream : ∀ event ∈ s.stream, ∃ t c, event.tenantId = t.str ∧ event.cameraId = c.str ∧
    s.config.cameraOwner c = some t

variable {lib : AnalyzerLibrary} {texts : FieldTexts} {s s' : System} {op : Operation}
  {attempt : AnalyzeAttempt} {messageId : String} {event : IngestEvent} {evidence : Evidence}

theorem grows_config {db : ConfigDb} (h : s.config.references.Grows db.references) :
    s.references.Grows { s with config := db }.references := by
  refine ⟨⟨?_, h.extends_to.owner⟩, ?_⟩
  · intro k t id hr
    rcases hr with hr | hr
    · exact Or.inl (h.extends_to.refers k t id hr)
    · exact Or.inr hr
  · intro k t id hr
    rcases hr with hr | hr
    · rcases h.added k t id hr with hr | ho
      · exact Or.inl (Or.inl hr)
      · exact Or.inr ho
    · exact Or.inl (Or.inr hr)

theorem grows_rows (hconfig : s'.config = s.config)
    (hkept : ∀ k t id, s.rowRefers k t id → s'.rowRefers k t id)
    (hadded : ∀ k t id, s'.rowRefers k t id → s.rowRefers k t id ∨ s.config.owner k id = some t) :
    s.references.Grows s'.references := by
  refine ⟨⟨?_, ?_⟩, ?_⟩
  · intro k t id hr
    rcases hr with hr | hr
    · exact Or.inl (hconfig ▸ hr)
    · exact Or.inr (hkept k t id hr)
  · intro k id t ho
    exact (congrArg (fun db => db.owner k id) hconfig).trans ho
  · intro k t id hr
    rcases hr with hr | hr
    · exact Or.inl (Or.inl (hconfig ▸ hr))
    · rcases hadded k t id hr with hr | ho
      · exact Or.inl (Or.inr hr)
      · exact Or.inr ((congrArg (fun db => db.owner k id) hconfig).trans ho)

theorem grows_same (hconfig : s'.config = s.config)
    (hevidences : s'.analyzer.evidences = s.analyzer.evidences)
    (hdecisions : s'.world.db.decisions = s.world.db.decisions) :
    s.references.Grows s'.references := by
  have hrows : s'.rowRefers = s.rowRefers := by
    funext k t id
    cases k <;> simp only [System.rowRefers, System.HasPlace, hevidences, hdecisions]
  refine grows_rows hconfig ?_ ?_
  · intro k t id hr
    rw [hrows]
    exact hr
  · intro k t id hr
    rw [hrows] at hr
    exact Or.inl hr

theorem grows_evidence {w : AnalyzerWorld} (hw : w.evidences = s.analyzer.evidences ++ [evidence])
    (hcamera : s.config.cameraOwner evidence.cameraId = some evidence.tenantId)
    (hregion : ∀ r ∈ evidence.regionId, s.config.regionOwner r = some evidence.tenantId) :
    s.references.Grows { s with analyzer := w }.references := by
  refine grows_rows rfl ?_ ?_
  · intro k t id hr
    cases k with
    | evidenceCamera | evidenceRegion =>
      obtain ⟨e, he, hrow⟩ := hr
      exact ⟨e, hw ▸ List.mem_append_left _ he, hrow⟩
    | _ => exact hr
  · intro k t id hr
    cases k with
    | evidenceCamera =>
      simp only [System.rowRefers, hw] at hr
      rcases exists_mem_concat hr with hr | ⟨rfl, rfl⟩
      · exact Or.inl hr
      · exact Or.inr hcamera
    | evidenceRegion =>
      simp only [System.rowRefers, hw] at hr
      rcases exists_mem_concat hr with hr | ⟨rfl, hid⟩
      · exact Or.inl hr
      · exact Or.inr (hregion id hid)
    | _ => exact Or.inl hr

theorem payload_lookup (texts : FieldTexts) (event : IngestEvent) :
    (texts.payload event).lookup "tenant_id" = some event.tenantId ∧
      (texts.payload event).lookup "camera_id" = some event.cameraId ∧
      (texts.payload event).lookup "region_id" = some event.regionId :=
  ⟨rfl, rfl, rfl⟩

/-- The row that a try adds is of the tenant, the camera and the region of its message, and its
foreign keys are there. -/
theorem analyze_adds (h : (s.meets lib attempt (texts.payload event)).Adds lib
      (texts.payload event) s.analyzer s'.analyzer)
    (hnew : s'.analyzer.evidences ≠ s.analyzer.evidences) :
    ∃ evidence, s'.analyzer.evidences = s.analyzer.evidences ++ [evidence] ∧
      Uuid.parse event.tenantId = some evidence.tenantId ∧
      Uuid.parse event.cameraId = some evidence.cameraId ∧
      (truthy (some event.regionId)).bind Uuid.parse = evidence.regionId ∧
      ∀ r ∈ evidence.regionId, (s.config.regionOwner r).isSome := by
  rcases h with hsame | ⟨message, evidence, hm, ha, hflush, hadded⟩
  · exact absurd hsame hnew
  · obtain ⟨htenant, hcamera, -, hregion⟩ := parseMessage_readFrom hm
    have hrow := analyze_analyzed ha
    obtain ⟨hlt, hlc, hlr⟩ := payload_lookup texts event
    rw [hlt, Option.bind_some, ← hrow.tenant] at htenant
    rw [hlc, Option.bind_some, ← hrow.camera] at hcamera
    rw [hlr, ← hrow.region] at hregion
    refine ⟨evidence, hadded, htenant, hcamera, hregion, ?_⟩
    intro r hmem
    simp only [System.meets, hm, Except.toOption, Option.any_some, ConfigDb.refuses,
      Bool.or_eq_false_iff] at hflush
    obtain ⟨-, ⟨-, hregions⟩, -⟩ := hflush
    rw [hrow.region] at hmem
    simpa [Option.mem_def.mp hmem, Option.isSome_iff_ne_none] using hregions

theorem meets_adds (s : System) (attempt : AnalyzeAttempt) (messageId : String)
    (fields : StreamFields) : (s.meets lib attempt fields).Adds lib fields s.analyzer
      (s.analyze lib attempt messageId fields).analyzer :=
  ends_state_iff.mp ends_analyzeMessage_adds

theorem System.Isolated.analyze (hs : s.Isolated) (hevent : event ∈ s.stream)
    (hown : s.Own (.analyze attempt messageId event)) :
    s.references.Grows (s.analyze lib attempt messageId (texts.payload event)).references := by
  by_cases hnew : (s.analyze lib attempt messageId (texts.payload event)).analyzer.evidences =
      s.analyzer.evidences
  · exact grows_same rfl hnew rfl
  · obtain ⟨evidence, hadded, htenant, hcamera, hregion, hfound⟩ :=
      analyze_adds (meets_adds s attempt messageId (texts.payload event)) hnew
    refine grows_evidence hadded ?_ ?_
    · obtain ⟨t, c, ht, hc, howner⟩ := hs.stream event hevent
      rw [ht, Uuid.parse_str] at htenant
      rw [hc, Uuid.parse_str] at hcamera
      rw [← Option.some.inj hcamera, howner, Option.some.inj htenant]
    · intro r hr
      obtain ⟨owner, howner⟩ := Option.isSome_iff_exists.mp (hfound r hr)
      rw [hr] at hregion
      obtain ⟨text, htext, hparse⟩ := Option.bind_eq_some_iff.mp hregion
      obtain ⟨hraw, -⟩ := Option.filter_eq_some_iff.mp htext
      obtain rfl := Option.some.inj hraw
      rw [howner, hown _ htenant r hparse owner howner]

section aggregate

variable {call : AggregateCall} {tenant : Tenant} {d : Decision}

theorem Committed.hasPlace_of (hd : Committed call s.toWorld (s.aggregate call).world evidence
    tenant d) {p : Place} (hp : (s.aggregate call).HasPlace p) :
    s.HasPlace p ∨ p = evidence.place := by
  obtain ⟨r, hr, rfl⟩ := hp
  rw [hd.find] at hr
  split at hr
  next =>
    rw [← Option.some.inj hr, afterState_place, afterLink_place]
    rcases hd.target.spec with ⟨hopen, -, -⟩ | ⟨rfl, -, -, -⟩
    · exact Or.inl ⟨d, (World.openDecision_spec hopen).1, rfl⟩
    · exact Or.inr rfl
  next => exact Or.inl ⟨r, hr, rfl⟩

theorem Committed.hasPlace_kept (hd : Committed call s.toWorld (s.aggregate call).world evidence
    tenant d) {p : Place} (hp : s.HasPlace p) : (s.aggregate call).HasPlace p := by
  obtain ⟨r, hr, rfl⟩ := hp
  have hfind := hd.find r.id
  split at hfind
  next hid =>
    have hrow : s.toWorld.db.decisions.find d.id = some r := hid ▸ hr
    rcases hd.target.spec with ⟨hopen, -, -⟩ | ⟨-, -, hfree, -⟩
    · obtain rfl := Option.some.inj ((World.openDecision_spec hopen).1.symm.trans hrow)
      refine ⟨afterState call tenant (afterLink s.toWorld.db call d evidence), ?_, ?_⟩
      · rw [afterState_id, afterLink_id]
        exact hfind
      · rw [afterState_place, afterLink_place]
    · rw [hfree] at hrow
      cases hrow
  next => exact ⟨r, hfind.trans hr, rfl⟩

/-- A decision is of the place of the evidence it was created for, and stays there. -/
theorem System.Isolated.aggregate (hs : s.Isolated) (call : AggregateCall) :
    s.references.Grows (s.aggregate call).references := by
  rcases aggregate_cases call s.toWorld with hrolled | ⟨evidence, tenant, d, hd⟩
  · have hdb : (s.aggregate call).world.db = s.toWorld.db := hrolled.db
    exact grows_same rfl rfl (by rw [hdb]; rfl)
  · have hev : evidence ∈ s.analyzer.evidences :=
      KeyedTable.mem_of_find_ofList hd.evidence_found
    have hd' : Committed call s.toWorld (s.aggregate call).world evidence tenant d := hd
    refine grows_rows rfl ?_ ?_
    · intro k t id hr
      cases k with
      | decisionCamera | decisionRegion =>
        obtain ⟨p, hp, hrow⟩ := hr
        exact ⟨p, hd'.hasPlace_kept hp, hrow⟩
      | _ => exact hr
    · intro k t id hr
      cases k with
      | decisionCamera =>
        obtain ⟨p, hp, rfl, rfl⟩ := hr
        rcases hd'.hasPlace_of hp with hp | rfl
        · exact Or.inl ⟨p, hp, rfl, rfl⟩
        · exact Or.inr (hs.closed .evidenceCamera _ _ (Or.inr ⟨evidence, hev, rfl, rfl⟩))
      | decisionRegion =>
        obtain ⟨p, hp, rfl, hid⟩ := hr
        rcases hd'.hasPlace_of hp with hp | rfl
        · exact Or.inl ⟨p, hp, rfl, hid⟩
        · exact Or.inr (hs.closed .evidenceRegion _ _ (Or.inr ⟨evidence, hev, rfl, hid⟩))
      | _ => exact Or.inl hr

end aggregate

/-- The step lemma: an operation that names nothing of another tenant adds references within one. -/
theorem System.Isolated.grows (hs : s.Isolated) (hown : s.Own op)
    (h : Operating lib texts s op s') : s.references.Grows s'.references := by
  cases h with
  | admin => exact grows_config (serve_grows hown)
  | accept => exact grows_same rfl rfl rfl
  | analyze hevent => exact hs.analyze hevent hown
  | aggregate => exact hs.aggregate _
  | redis => exact grows_same rfl rfl rfl

theorem System.Isolated.step (hs : s.Isolated) (hown : s.Own op)
    (h : Operating lib texts s op s') : s'.Isolated := by
  have hgrows := hs.grows hown h
  have hcamera : ∀ c t, s.config.cameraOwner c = some t → s'.config.cameraOwner c = some t :=
    hgrows.extends_to.owner .evidenceCamera
  refine ⟨hs.closed.grows hgrows, ?_⟩
  have hkept : ∀ event ∈ s.stream, ∃ t c, event.tenantId = t.str ∧ event.cameraId = c.str ∧
      s'.config.cameraOwner c = some t := by
    intro event hevent
    obtain ⟨t, c, ht, hc, howner⟩ := hs.stream event hevent
    exact ⟨t, c, ht, hc, hcamera c t howner⟩
  cases h with
  | @accept call replies htoken =>
    intro event hevent
    have hstream : (s.accept call replies).stream = s.stream ∨ validateClaims call = true ∧
        ∃ frameUris, (s.accept call replies).stream =
          s.stream ++ [ingestEvent call.request frameUris] := run_stream _ _ replies
    rcases hstream with hsame | ⟨hclaims, frameUris, hput⟩
    · rw [hsame] at hevent
      exact hkept event hevent
    · rw [hput] at hevent
      rcases List.mem_append.mp hevent with hevent | hevent
      · exact hkept event hevent
      · simp only [validateClaims, Bool.and_eq_true, decide_eq_true_eq] at hclaims
        obtain ⟨htenant, hid⟩ := hclaims
        rw [List.mem_singleton.mp hevent]
        refine ⟨call.request.tenantId, call.request.cameraId, rfl, rfl, ?_⟩
        rw [hid, htenant]
        exact htoken
  | admin => exact hkept
  | analyze => exact hkept
  | aggregate => exact hkept
  | redis => exact hkept

theorem System.Empty.isolated (h : s.Empty) : s.Isolated := by
  refine ⟨?_, ?_⟩
  · intro k t id hr
    rcases hr with hr | hr
    · rw [h.config] at hr
      cases k <;> simp [ConfigDb.refers] at hr
    · cases k <;> simp [System.rowRefers, System.HasPlace, h.evidences, h.decisions] at hr
  · rw [h.stream]
    intro event hevent
    cases hevent

/-- A schedule of another tenant's market, once it is there, refers to the other tenant. -/
theorem not_closed_of_schedule {call : AdminCall} (hown : ¬call.Own s.config)
    (hadds : (s.admin call).config.schedules ≠ s.config.schedules) :
    ¬(s.admin call).TenantClosed := by
  unfold AdminCall.Own at hown
  cases hbody : call.body with
  | createSchedule modeId body =>
    simp only [hbody, not_forall] at hown
    obtain ⟨marketId, hid, owner, howner, hne⟩ := hown
    have hserved : (s.admin call).config = s.config ∨ (s.admin call).config =
        { s.config with schedules := s.config.schedules ++ [call.schedule modeId body] } :=
      serve_schedule hbody s.config
    rcases hserved with hsame | hput
    · exact absurd (congrArg ConfigDb.schedules hsame) hadds
    · refine @References.not_closed _ _ _ _ .scheduleMarket call.tenantId owner marketId ?_ ?_ hne
      · refine Or.inl ⟨call.schedule modeId body, ?_, rfl, hid⟩
        rw [hput]
        exact List.mem_append_right _ (List.mem_singleton_self _)
      · exact (congrArg (fun db => db.marketOwner marketId) hput).trans howner
  | _ => simp [hbody] at hown

/-- An evidence of another tenant's region, once it is there, refers to the other tenant. -/
theorem not_closed_of_evidence (hown : ¬s.Own (.analyze attempt messageId event))
    (hadds : (s.analyze lib attempt messageId (texts.payload event)).analyzer.evidences ≠
      s.analyzer.evidences) :
    ¬(s.analyze lib attempt messageId (texts.payload event)).TenantClosed := by
  simp only [System.Own, not_forall] at hown
  obtain ⟨t, ht, r, hr, owner, howner, hne⟩ := hown
  obtain ⟨evidence, hadded, htenant, -, hregion, -⟩ :=
    analyze_adds (meets_adds s attempt messageId (texts.payload event)) hadds
  have htext : event.regionId ≠ "" := by
    intro hempty
    have hnone : Uuid.parse "" = none := by decide
    rw [hempty, hnone] at hr
    cases hr
  rw [truthy_some htext, Option.bind_some, Option.mem_def.mp hr] at hregion
  refine @References.not_closed _ _ _ _ .evidenceRegion t owner r ?_ howner hne
  refine Or.inr ⟨evidence, ?_, ?_, hregion.symm⟩
  · rw [hadded]
    exact List.mem_append_right _ (List.mem_singleton_self _)
  · exact Option.some.inj (htenant.symm.trans ht)

theorem not_closed_of_adds (h : Operating lib texts s op s') (hown : ¬s.Own op)
    (hadds : s.AddsRow s') : ¬s'.TenantClosed := by
  cases h with
  | admin =>
    rcases hadds with hadds | hadds
    · exact not_closed_of_schedule hown hadds
    · exact absurd rfl hadds
  | analyze hevent =>
    rcases hadds with hadds | hadds
    · exact absurd rfl hadds
    · exact not_closed_of_evidence hown hadds
  | accept => exact absurd trivial hown
  | aggregate => exact absurd trivial hown
  | redis => exact absurd trivial hown

/-- Runs whose calls name nothing of another tenant leave every reference within its tenant; a call
that does name something of another, once its row is added, does not. -/
theorem tenantClosed_of_own {ops : List Operation} (hempty : s.Empty) :
    (Run (Where System.Own (Operating lib texts)) s ops s' → s'.TenantClosed) ∧
      ∀ u op u', Operating lib texts u op u' → ¬u.Own op → u.AddsRow u' → ¬u'.TenantClosed := by
  constructor
  · intro h
    have hend : s'.Isolated := h.invariant_where
      (fun _ _ _ hs hown hstep => System.Isolated.step hs hown hstep) hempty.isolated
    exact hend.closed
  · intro u op u' hstep hown hadds
    exact not_closed_of_adds hstep hown hadds

def sampleSystem : System where
  config := ⟨((KeyedTable.empty.put sampleTenant).put { sampleTenant with id := ⟨8⟩ }),
    [], [], [], [], [], [], [], [], []⟩
  analyzer := ⟨[], [], [], []⟩
  world := ⟨⟨.empty, .empty, .empty, [], [], []⟩, fun _ => none, [], []⟩
  stream := []

/-- A request of an admin of the tenant that nothing interferes with. -/
def adminCall (tenantId newId : BitVec 128) (body : AdminBody) : AdminCall :=
  ⟨⟨"admin", some ⟨tenantId⟩, .tenantAdmin⟩, ⟨tenantId⟩, ⟨newId⟩, false, .done, body⟩

/-- A market of tenant 1, and a mode of a tenant with a schedule for that market. -/
def scheduleCalls (tenantId : BitVec 128) : List AdminCall :=
  [adminCall 1 5 (.createMarket ⟨"Centre", "UTC"⟩),
    adminCall tenantId 4 (.createContextMode ⟨"Opening hours", none⟩),
    adminCall tenantId 6 (.createSchedule ⟨4⟩ ⟨.thu, seconds 28800, seconds 64800, some ⟨5⟩⟩)]

def afterSchedule (tenantId : BitVec 128) : System :=
  (scheduleCalls tenantId).foldl System.admin sampleSystem

theorem empty_sampleSystem : sampleSystem.Empty :=
  ⟨rfl, rfl, fun _ => rfl, rfl⟩

theorem run_scheduleCalls (tenantId : BitVec 128) :
    Run (Operating lib texts) sampleSystem ((scheduleCalls tenantId).map Operation.admin)
      (afterSchedule tenantId) :=
  .cons .admin (.cons .admin (.single .admin))

def sampleTexts : FieldTexts where
  isoformat := fun _ => "1970-01-01T00:00:00+00:00"
  dumpsObject := fun _ => "{}"
  dumpsArray := fun _ => "[]"

theorem not_closed_afterSchedule : ¬(afterSchedule 8).TenantClosed := by
  have hrefers : ∃ x ∈ (afterSchedule 8).config.schedules, x.tenantId = ⟨8⟩ ∧
      x.marketId = some ⟨5⟩ := by decide +kernel
  have howner : (afterSchedule 8).config.marketOwner ⟨5⟩ = some ⟨1⟩ := by decide +kernel
  exact @References.not_closed _ _ _ (afterSchedule 8).references .scheduleMarket ⟨8⟩ ⟨1⟩ ⟨5⟩
    (Or.inl hrefers) howner (by decide)

theorem not_always_tenantClosed : ¬∀ (lib : AnalyzerLibrary) (texts : FieldTexts) (s s' : System)
    (ops : List Operation), s.Empty → Run (Operating lib texts) s ops s' → s'.TenantClosed := by
  intro h
  exact not_closed_afterSchedule
    (h sampleLibrary sampleTexts _ _ _ empty_sampleSystem (run_scheduleCalls 8))

/-- A schedule for the market of its own tenant, and one for the market of another. -/
theorem tenantClosed_of_own_sample :
    (afterSchedule 1).TenantClosed ∧ ¬(afterSchedule 8).TenantClosed := by
  have hsample := @tenantClosed_of_own sampleLibrary sampleTexts sampleSystem (afterSchedule 1)
    ((scheduleCalls 1).map Operation.admin) empty_sampleSystem
  constructor
  · have hown : ∀ marketId ∈ (some ⟨5⟩ : Option Uuid), ∀ owner ∈
        (((scheduleCalls 1).take 2).foldl System.admin sampleSystem).config.marketOwner marketId,
        owner = ⟨1⟩ := by decide +kernel
    exact hsample.1
      (.cons ⟨trivial, .admin⟩ (.cons ⟨trivial, .admin⟩ (.single ⟨hown, .admin⟩)))
  · refine hsample.2 (((scheduleCalls 8).take 2).foldl System.admin sampleSystem) _ _ .admin ?_ ?_
    · intro hown
      exact absurd (hown ⟨5⟩ rfl ⟨1⟩ (by decide +kernel)) (by decide)
    · exact Or.inl (by decide +kernel)

end ArgusServices

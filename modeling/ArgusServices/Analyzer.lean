import ArgusServices.Json

namespace ArgusServices

open Effect

/-- The fields of a stream entry, as they are received. -/
abbrev StreamFields := List (String × String)

structure Lens where
  tenantId : Uuid
  contextModeId : Uuid
  version : Int
  deriving DecidableEq, Repr

structure Rule where
  tenantId : Uuid
  contextModeId : Uuid
  condition : Json
  severityWeight : Int

/-- What the fields are read with, the text of an exception, and the scoring of a result. -/
structure AnalyzerLibrary where
  loads : String → Except Exn Json
  fromisoformat : String → Except Exn Int
  isdigit : String → Bool
  str : Exn → String
  computeSeverityScore : Json → List Rule → Except Exn Int

/-- What one try of the task meets: the rows its first session reads, whether the select of the
lens or the rest of that session raises, the result of the VLM, the identifier drawn for the
evidence, and how each of the later steps ends. -/
structure AnalyzeAttempt where
  lenses : List Lens
  rules : List Rule
  lensRaises : Bool
  rulesRaise : Bool
  vlmResult : Except Exn Json
  evidenceId : Uuid
  flushRaises : Bool
  commit : Reply
  xack : Reply
  enqueue : Reply
  moveToDlq : Reply
  dlqXack : Reply

/-- The evidences, the messages acknowledged to the group, the entries of the dead letter stream
and the arguments of the enqueued `aggregate_evidence` tasks. -/
structure AnalyzerWorld where
  evidences : List Evidence
  acked : List String
  dlq : List StreamFields
  aggregateEvidence : List String
  deriving DecidableEq, Repr

structure ParsedFields where
  fields : StreamFields
  frameUris : Json
  edgeTriggerMetadata : Json

structure IngestMessage where
  tenantId : Uuid
  cameraId : Uuid
  contextModeId : Uuid
  ingestionId : Uuid
  regionId : Option Uuid
  capturedAt : Int
  frameUris : Json
  edgeTriggerMetadata : Json

def maxRetries : Nat := 3

/-- `{**fields, key: value}`. -/
def StreamFields.set (fields : StreamFields) (key value : String) : StreamFields :=
  if fields.any fun f => f.1 = key then
    fields.map fun f => if f.1 = key then (key, value) else f
  else fields ++ [(key, value)]

def StreamFields.item (fields : StreamFields) (key : String) : Except Exn String :=
  match fields.lookup key with
  | some value => .ok value
  | none => .error (.keyError key)

def parseUuid (text : String) : Except Exn Uuid :=
  match Uuid.parse text with
  | some u => .ok u
  | none => .error (.valueError "badly formed hexadecimal UUID string")

def AnalyzerLibrary.parseJsonField (lib : AnalyzerLibrary) (fields : StreamFields) (key : String)
    (default : Json) : Except Exn Json :=
  match truthy (fields.lookup key) with
  | some raw => lib.loads raw
  | none => .ok default

def AnalyzerLibrary.parseStreamFields (lib : AnalyzerLibrary) (fields : StreamFields) :
    Except Exn ParsedFields := do
  let frameUris ← lib.parseJsonField fields "frame_uris" (.arr [])
  let edgeTriggerMetadata ← lib.parseJsonField fields "edge_trigger_metadata" (.obj [])
  pure
    { fields :=
        match truthy (fields.lookup "region_id") with
        | some _ => fields
        | none => fields.set "region_id" ""
      frameUris := frameUris
      edgeTriggerMetadata := edgeTriggerMetadata }

def StreamFields.regionId (fields : StreamFields) : Except Exn (Option Uuid) :=
  match truthy (fields.lookup "region_id") with
  | some text => some <$> parseUuid text
  | none => pure none

/-- The first lines of `_analyze_message`. -/
def AnalyzerLibrary.parseMessage (lib : AnalyzerLibrary) (fields : StreamFields) :
    Except Exn IngestMessage := do
  let parsed ← lib.parseStreamFields fields
  let tenantId ← parseUuid (← parsed.fields.item "tenant_id")
  let cameraId ← parseUuid (← parsed.fields.item "camera_id")
  let contextModeId ← parseUuid (← parsed.fields.item "context_mode_id")
  let ingestionId ← parseUuid (← parsed.fields.item "ingestion_id")
  let regionId ← parsed.fields.regionId
  let capturedAt ← lib.fromisoformat (← parsed.fields.item "captured_at")
  pure
    { tenantId := tenantId
      cameraId := cameraId
      contextModeId := contextModeId
      ingestionId := ingestionId
      regionId := regionId
      capturedAt := capturedAt
      frameUris := parsed.frameUris
      edgeTriggerMetadata := parsed.edgeTriggerMetadata }

def newerLens (best : Option Lens) (lens : Lens) : Option Lens :=
  match best with
  | some l => if l.version < lens.version then some lens else some l
  | none => some lens

/-- The lens of the highest version. -/
def selectLens (lenses : List Lens) (contextModeId tenantId : Uuid) : Option Lens :=
  (lenses.filter fun l => l.contextModeId = contextModeId ∧ l.tenantId = tenantId).foldl newerLens
    none

def selectRules (rules : List Rule) (contextModeId tenantId : Uuid) : List Rule :=
  rules.filter fun r => r.contextModeId = contextModeId ∧ r.tenantId = tenantId

/-- `frame_uris[0] if frame_uris else ""`, which has to be a text to be stored. -/
def frameStorageUri (frameUris : Json) : Except Exn String := do
  let uri ← if frameUris.truthy then frameUris.first else pure (.str "")
  match uri with
  | .str s => pure s
  | value => throw (.typeError ("expected str, got " ++ value.typeName))

def throwWhen (b : Bool) (e : Exn) : Except Exn Unit :=
  if b then throw e else pure ()

/-- From the first session to the construction of the row. -/
def AnalyzeAttempt.analyze (lib : AnalyzerLibrary) (attempt : AnalyzeAttempt)
    (message : IngestMessage) : Except Exn Evidence := do
  throwWhen attempt.lensRaises .outage
  throwWhen (selectLens attempt.lenses message.contextModeId message.tenantId).isNone
    (.valueError ("No lens configured for context mode " ++ message.contextModeId.str))
  throwWhen attempt.rulesRaise .outage
  let _scenario ← message.edgeTriggerMetadata.get "scenario" (.str "")
  let vlmResult ← attempt.vlmResult
  let severityScore ← lib.computeSeverityScore vlmResult
    (selectRules attempt.rules message.contextModeId message.tenantId)
  let uri ← frameStorageUri message.frameUris
  pure
    { id := attempt.evidenceId
      tenantId := message.tenantId
      cameraId := message.cameraId
      regionId := message.regionId
      capturedAt := message.capturedAt
      severityScore := severityScore
      frameStorageUri := uri
      ingestionId := message.ingestionId }

def AnalyzerWorld.addEvidence (w : AnalyzerWorld) (evidence : Evidence) : AnalyzerWorld :=
  { w with evidences := w.evidences ++ [evidence] }

def AnalyzerWorld.acknowledge (w : AnalyzerWorld) (messageId : String) : AnalyzerWorld :=
  { w with acked := w.acked ++ [messageId] }

def AnalyzerWorld.moveToDlq (w : AnalyzerWorld) (originalFields : StreamFields) (error : String) :
    AnalyzerWorld :=
  { w with dlq := w.dlq ++ [originalFields.set "error" error] }

def AnalyzerWorld.enqueueAggregate (w : AnalyzerWorld) (evidenceId : String) : AnalyzerWorld :=
  { w with aggregateEvidence := w.aggregateEvidence ++ [evidenceId] }

/-- The identifiers `_maybe_xack` acknowledges: digits before a first hyphen. -/
def AnalyzerLibrary.validMessageId (lib : AnalyzerLibrary) (messageId : String) : Bool :=
  messageId.toList.contains '-' &&
    lib.isdigit (String.ofList (messageId.toList.takeWhile (· ≠ '-')))

def maybeXack (lib : AnalyzerLibrary) (attempt : AnalyzeAttempt) (messageId : String) :
    Proc AnalyzerWorld Exn Unit :=
  if lib.validMessageId messageId then
    command attempt.xack (fun w => w.acknowledge messageId) .outage
  else pure ()

def analyzeMessage (lib : AnalyzerLibrary) (attempt : AnalyzeAttempt) (messageId : String)
    (fields : StreamFields) : Proc AnalyzerWorld Exn String := do
  let message ← ofExcept (lib.parseMessage fields)
  let evidence ← ofExcept (attempt.analyze lib message)
  raiseWhen attempt.flushRaises .outage
  let w ← get
  raiseWhen (w.evidences.any fun e => e.id = evidence.id) (.integrityError "evidences_pkey")
  raiseWhen (w.evidences.any fun e =>
      e.tenantId = evidence.tenantId ∧ e.ingestionId = evidence.ingestionId)
    (.integrityError "uq_evidences_tenant_ingestion")
  command attempt.commit (fun w => w.addEvidence evidence) .outage
  maybeXack lib attempt messageId
  command attempt.enqueue (fun w => w.enqueueAggregate evidence.id.str) .outage
  pure evidence.id.str

/-- The body of the task on its try number `retries`. -/
def analyzeIngestMessage (lib : AnalyzerLibrary) (attempt : AnalyzeAttempt) (messageId : String)
    (fields : StreamFields) (retries : Nat) : Proc AnalyzerWorld Exn (Option String) :=
  tryCatch (do pure (some (← analyzeMessage lib attempt messageId fields))) fun exc =>
    if retries ≥ maxRetries then do
      command attempt.moveToDlq (fun w => w.moveToDlq fields (lib.str exc)) .outage
      command attempt.dlqXack (fun w => w.acknowledge messageId) .outage
      pure none
    else throw exc

/-- The task with its retries: what it meets on each try, and the world it leaves at the end. -/
def runAnalyzeTask (lib : AnalyzerLibrary) (attempts : Nat → AnalyzeAttempt) (messageId : String)
    (fields : StreamFields) (w : AnalyzerWorld) : AnalyzerWorld :=
  (exec (autoretry (fun retries =>
    analyzeIngestMessage lib (attempts retries) messageId fields retries) maxRetries 0) w).2

end ArgusServices

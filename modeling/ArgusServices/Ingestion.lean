import ArgusServices.Store
import ArgusServices.Threads

namespace ArgusServices

structure FramePayload where
  index : Nat
  content : String
  deriving DecidableEq, Repr

/-- The values of `edgeTriggerMetadata` are their JSON texts. -/
structure IngestSequenceRequest where
  ingestionId : Uuid
  tenantId : Uuid
  cameraId : Uuid
  capturedAt : Int
  contextModeId : Uuid
  regionId : Option Uuid
  edgeTriggerMetadata : Option (List (String × String))
  frames : List FramePayload
  deriving DecidableEq, Repr

structure EdgeAuthContext where
  tenantId : Uuid
  cameraId : Uuid
  deriving DecidableEq, Repr

inductive IngestStatus
  | queued | duplicate
  deriving DecidableEq, Repr

structure IngestAcceptedResponse where
  ingestionId : Uuid
  status : IngestStatus
  queuedAt : Int
  deriving DecidableEq, Repr

/-- The fields of an event on the ingest stream. -/
structure IngestEvent where
  ingestionId : String
  tenantId : String
  cameraId : String
  capturedAt : Int
  contextModeId : String
  regionId : String
  edgeTriggerMetadata : List (String × String)
  frameUris : List String
  deriving DecidableEq, Repr

/-- The Redis keys and the stream the calls share. -/
structure IngestStore where
  keys : String → Option RedisEntry
  stream : List IngestEvent

structure IngestCall where
  auth : EdgeAuthContext
  request : IngestSequenceRequest
  bucket : String
  now : Int
  deriving DecidableEq, Repr

def idempotencyTtlSecs : Int := 86400

/-- `IDEMPOTENCY_KEY.format(...)`. -/
def idempotencyKey (tenantId ingestionId : Uuid) : String :=
  "ingest:idem:" ++ (tenantId.str ++ (":" ++ ingestionId.str))

/-- `ACTIVE_MODE_KEY.format(...)`. -/
def activeModeKey (cameraId : Uuid) : String :=
  "camera:active_mode:" ++ cameraId.str

def base64Char (c : Char) : Bool :=
  c.isAlphanum || c = '+' || c = '/'

/-- What `b64decode(text, validate=True)` is documented to accept: whole groups of four with their
padding. That some versions let excess padding after a whole group pass is left out. -/
def base64Valid (text : String) : Bool :=
  let data := text.toList.takeWhile base64Char
  let padding := text.toList.dropWhile base64Char
  (data.length % 4 = 0 && padding = []) || (data.length % 4 = 2 && padding = ['=', '=']) ||
    (data.length % 4 = 3 && padding = ['='])

def validateClaims (call : IngestCall) : Bool :=
  call.request.tenantId = call.auth.tenantId && call.request.cameraId = call.auth.cameraId

def validateActiveMode (w : IngestStore) (request : IngestSequenceRequest) : Except Exn Unit :=
  match truthy ((w.keys (activeModeKey request.cameraId)).map RedisEntry.value) with
  | none => .error (.httpException 400 "Camera has no active context mode")
  | some activeMode =>
    match Uuid.parse activeMode with
    | none => .error (.valueError "badly formed hexadecimal UUID string")
    | some id =>
      if id ≠ request.contextModeId then
        .error (.httpException 400 "context_mode_id does not match active mode for camera")
      else .ok ()

def uploadFrames (call : IngestCall) : Except Exn (List String) :=
  call.request.frames.mapM fun frame =>
    if base64Valid frame.content then
      .ok ("s3://" ++ call.bucket ++ "/" ++ call.request.tenantId.str ++ "/" ++
        call.request.cameraId.str ++ "/" ++ call.request.ingestionId.str ++ "/" ++
        toString frame.index ++ ".bin")
    else .error (.httpException 400 "Invalid base64 frame content")

def ingestEvent (request : IngestSequenceRequest) (frameUris : List String) : IngestEvent where
  ingestionId := request.ingestionId.str
  tenantId := request.tenantId.str
  cameraId := request.cameraId.str
  capturedAt := request.capturedAt
  contextModeId := request.contextModeId.str
  regionId := (request.regionId.map Uuid.str).getD ""
  edgeTriggerMetadata := request.edgeTriggerMetadata.getD []
  frameUris := frameUris

/-- The points of a call of `accept_sequence` between its waits. -/
inductive IngestPhase
  | begun
  | claimed
  | modeChecked
  | uploaded (frameUris : List String)
  | cleaning (cause : Exn)
  | returned (response : IngestAcceptedResponse)
  | raised (cause : Exn)
  deriving DecidableEq, Repr

def IngestPhase.ended : IngestPhase → Bool
  | .returned _ | .raised _ => true
  | _ => false

def IngestCall.key (call : IngestCall) : String :=
  idempotencyKey call.request.tenantId call.request.ingestionId

def IngestCall.respond (call : IngestCall) (status : IngestStatus) : IngestPhase :=
  .returned ⟨call.request.ingestionId, status, call.now⟩

/-- `set_key_nx` on the idempotency key. -/
def IngestCall.claim (call : IngestCall) (w : IngestStore) : IngestStore :=
  match w.keys call.key with
  | none => { w with keys := Function.update w.keys call.key (some ⟨"1", some idempotencyTtlSecs⟩) }
  | some _ => w

def IngestCall.release (call : IngestCall) (w : IngestStore) : IngestStore :=
  { w with keys := Function.update w.keys call.key none }

def IngestCall.enqueue (call : IngestCall) (w : IngestStore) (frameUris : List String) :
    IngestStore :=
  { w with stream := w.stream ++ [ingestEvent call.request frameUris] }

/-- What a call does when it is its turn, up to its next wait. -/
def IngestCall.advance (call : IngestCall) (w : IngestStore) :
    IngestPhase → IngestStore × IngestPhase
  | .begun =>
    if validateClaims call then
      match w.keys call.key with
      | none => (call.claim w, .claimed)
      | some _ => (w, call.respond .duplicate)
    else (w, .raised (.httpException 422 "tenant_id/camera_id mismatch with token claims"))
  | .claimed =>
    match validateActiveMode w call.request with
    | .ok _ => (w, .modeChecked)
    | .error e => (w, .cleaning e)
  | .modeChecked =>
    match uploadFrames call with
    | .ok frameUris => (w, .uploaded frameUris)
    | .error e => (w, .cleaning e)
  | .uploaded frameUris => (call.enqueue w frameUris, call.respond .queued)
  | .cleaning cause => (call.release w, .raised cause)
  | .returned response => (w, .returned response)
  | .raised cause => (w, .raised cause)

/-- What the step a call waits for does when it raises; a Redis command may have been executed
although its reply was lost. -/
def IngestCall.fail (call : IngestCall) (executed : Bool) (w : IngestStore) :
    IngestPhase → IngestStore × IngestPhase
  | .begun => (if executed && validateClaims call then call.claim w else w, .raised .outage)
  | .claimed | .modeChecked => (w, .cleaning .outage)
  | .uploaded frameUris =>
    (if executed then call.enqueue w frameUris else w, .cleaning .outage)
  | .cleaning _ => (if executed then call.release w else w, .raised .outage)
  | .returned response => (w, .returned response)
  | .raised cause => (w, .raised cause)

inductive IngestTurn (ι : Type)
  | advance (i : ι)
  | raise (i : ι) (executed : Bool)
  | cancel (i : ι)
  | setActiveMode (cameraId : Uuid) (mode : Option RedisEntry)

/-- The interleaved calls: one advances, or its step raises, or its request is cancelled, which no
handler catches; or the active mode of a camera changes. No idempotency key expires. -/
inductive Ingesting {ι : Type} [DecidableEq ι] (calls : ι → IngestCall) :
    Threads ι IngestStore IngestPhase → IngestTurn ι → Threads ι IngestStore IngestPhase → Prop
  | advance {s : Threads ι IngestStore IngestPhase} {i : ι} : (s.phase i).ended = false →
      Ingesting calls s (.advance i) (s.move i ((calls i).advance s.shared (s.phase i)))
  | raise {s : Threads ι IngestStore IngestPhase} {i : ι} {executed : Bool} :
      (s.phase i).ended = false →
      Ingesting calls s (.raise i executed)
        (s.move i ((calls i).fail executed s.shared (s.phase i)))
  | cancel {s : Threads ι IngestStore IngestPhase} {i : ι} : (s.phase i).ended = false →
      Ingesting calls s (.cancel i) (s.move i (s.shared, .raised .outage))
  | setActiveMode {s : Threads ι IngestStore IngestPhase} {cameraId : Uuid}
      {mode : Option RedisEntry} : Ingesting calls s (.setActiveMode cameraId mode)
      ⟨{ s.shared with keys := Function.update s.shared.keys (activeModeKey cameraId) mode },
        s.phase⟩

theorem idempotencyKey_injective {t i t' i' : Uuid}
    (h : idempotencyKey t i = idempotencyKey t' i') : t = t' ∧ i = i' := by
  unfold idempotencyKey at h
  obtain ⟨ht, hi⟩ := Uuid.str_append_inj ((String.append_right_inj _).mp h)
  exact ⟨ht, Uuid.str_injective ((String.append_right_inj _).mp hi)⟩

theorem append_ne_of_head {p q s t : String} {c d : Char} (hp : p.toList.head? = some c)
    (hq : q.toList.head? = some d) (hne : c ≠ d) : p ++ s ≠ q ++ t := by
  intro h
  have hl := congrArg (fun s => s.toList.head?) h
  simp only [String.toList_append, List.head?_append, hp, hq, Option.some_or,
    Option.some.injEq] at hl
  exact hne hl

theorem idempotencyKey_ne_activeModeKey (t i c : Uuid) :
    idempotencyKey t i ≠ activeModeKey c := by
  unfold idempotencyKey activeModeKey
  exact append_ne_of_head (c := 'i') (d := 'c') rfl rfl (by decide)

end ArgusServices

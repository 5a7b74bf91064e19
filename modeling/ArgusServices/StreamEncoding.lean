import ArgusServices.FrameStorage
import ArgusServices.TenantClosed

namespace ArgusServices

open Effect Transition

/-- What the texts of the fields are made with, and the values of the JSON texts in a request. -/
structure EncoderLibrary where
  dumps : Json → String
  isoformat : Int → String
  str : Json → String
  value : String → Json

/-- The text that `xadd` writes for the value of a field. -/
def EncoderLibrary.encode (enc : EncoderLibrary) : Json → String
  | .obj members => enc.dumps (.obj members)
  | .arr items => enc.dumps (.arr items)
  | .str s => s
  | value => enc.str value

def EncoderLibrary.payload (enc : EncoderLibrary) (fields : List (String × Json)) : StreamFields :=
  fields.map fun f => (f.1, enc.encode f.2)

def EncoderLibrary.metadata (enc : EncoderLibrary) (members : List (String × String)) : Json :=
  .obj (members.map fun m => (m.1, enc.value m.2))

/-- The fields that `accept_sequence` hands to `enqueue_ingest_event`. -/
def EncoderLibrary.eventFields (enc : EncoderLibrary) (event : IngestEvent) :
    List (String × Json) :=
  [("ingestion_id", .str event.ingestionId), ("tenant_id", .str event.tenantId),
    ("camera_id", .str event.cameraId),
    ("captured_at", .str (enc.isoformat event.capturedAt)),
    ("context_mode_id", .str event.contextModeId), ("region_id", .str event.regionId),
    ("edge_trigger_metadata", enc.metadata event.edgeTriggerMetadata),
    ("frame_uris", .arr (event.frameUris.map .str))]

/-- What `move_to_dlq` writes for the fields it was given. -/
def EncoderLibrary.dlqEntry (enc : EncoderLibrary) (originalFields : StreamFields)
    (error : String) : StreamFields :=
  enc.payload ((originalFields.set "error" error).map fun f => (f.1, .str f.2))

def EncoderLibrary.texts (enc : EncoderLibrary) : FieldTexts where
  isoformat := enc.isoformat
  dumpsObject := fun members => enc.dumps (enc.metadata members)
  dumpsArray := fun uris => enc.dumps (.arr (uris.map .str))

/-- The texts of an event are read back as what they were made of, and the empty text is not
JSON. -/
structure RoundTrips (lib : AnalyzerLibrary) (enc : EncoderLibrary) (event : IngestEvent) :
    Prop where
  metadata : lib.loads (enc.dumps (enc.metadata event.edgeTriggerMetadata)) =
    .ok (enc.metadata event.edgeTriggerMetadata)
  frameUris : lib.loads (enc.dumps (.arr (event.frameUris.map .str))) =
    .ok (.arr (event.frameUris.map .str))
  capturedAt : lib.fromisoformat (enc.isoformat event.capturedAt) = .ok event.capturedAt
  empty : ∀ value, lib.loads "" ≠ .ok value

/-- What the request says about its sequence, and where its frames are. -/
def IngestCall.message (enc : EncoderLibrary) (call : IngestCall) : IngestMessage where
  tenantId := call.request.tenantId
  cameraId := call.request.cameraId
  contextModeId := call.request.contextModeId
  ingestionId := call.request.ingestionId
  regionId := call.request.regionId
  capturedAt := call.request.capturedAt
  frameUris := .arr (call.request.frames.map fun frame => .str (call.frameUri frame))
  edgeTriggerMetadata := enc.metadata (call.request.edgeTriggerMetadata.getD [])

/-- The fields are those of the event, with an error text among them or without. -/
def ReadsLike (enc : EncoderLibrary) (event : IngestEvent) (fields : StreamFields) : Prop :=
  ∀ key, key ≠ "error" → fields.lookup key = (enc.texts.payload event).lookup key

variable {lib : AnalyzerLibrary} {enc : EncoderLibrary} {event : IngestEvent}
  {fields : StreamFields} {call : IngestCall}

theorem payload_eventFields : enc.payload (enc.eventFields event) = enc.texts.payload event :=
  rfl

/-- A text that is encoded again stays as it is. -/
theorem dlqEntry_eq (error : String) :
    enc.dlqEntry fields error = fields.set "error" error := by
  simp [EncoderLibrary.dlqEntry, EncoderLibrary.payload, EncoderLibrary.encode, Function.comp_def]

theorem readsLike_payload (enc : EncoderLibrary) (event : IngestEvent) :
    ReadsLike enc event (enc.payload (enc.eventFields event)) := by
  intro key _
  rw [payload_eventFields]

theorem readsLike_dlqEntry (error : String) :
    ReadsLike enc event (enc.dlqEntry (enc.payload (enc.eventFields event)) error) := by
  intro key hkey
  rw [dlqEntry_eq, lookup_set_of_ne hkey]
  rfl

theorem RoundTrips.parseJsonField {value : Json} (hforms : RoundTrips lib enc event)
    (default : Json) {key : String} (hkey : fields.lookup key = some (enc.dumps value))
    (hloads : lib.loads (enc.dumps value) = .ok value) :
    lib.parseJsonField fields key default = .ok value := by
  have hne : enc.dumps value ≠ "" := by
    intro hempty
    rw [hempty] at hloads
    exact hforms.empty value hloads
  unfold AnalyzerLibrary.parseJsonField
  rw [hkey, truthy_some hne]
  exact hloads

theorem item_of_lookup {key text : String} (h : fields.lookup key = some text) :
    fields.item key = .ok text := by
  rw [StreamFields.item, h]

theorem parseUuid_str (u : Uuid) : parseUuid u.str = .ok u := by
  rw [parseUuid, Uuid.parse_str]

theorem regionId_of_lookup {regionId : Option Uuid}
    (h : truthy (fields.lookup "region_id") = regionId.map Uuid.str) :
    fields.regionId = .ok regionId := by
  unfold StreamFields.regionId
  rw [h]
  cases regionId with
  | none => rfl
  | some id =>
    simp only [Option.map_some, parseUuid_str]
    rfl

/-- The empty text stands for no region. -/
theorem truthy_regionId (request : IngestSequenceRequest) (frameUris : List String) :
    truthy (some (ingestEvent request frameUris).regionId) = request.regionId.map Uuid.str := by
  unfold ingestEvent
  cases request.regionId with
  | none => rfl
  | some id => exact truthy_some (Uuid.str_ne_empty id)

theorem RoundTrips.parseMessage (hforms : RoundTrips lib enc call.event)
    (h : ReadsLike enc call.event fields) : lib.parseMessage fields = .ok (call.message enc) := by
  have huris := hforms.parseJsonField (.arr [])
    (h "frame_uris" (by decide)) hforms.frameUris
  have hmetadata := hforms.parseJsonField (.obj [])
    (h "edge_trigger_metadata" (by decide)) hforms.metadata
  obtain ⟨parsed, hparsed, hparsedUris, hparsedMetadata⟩ : ∃ parsed,
      lib.parseStreamFields fields = .ok parsed ∧
      parsed.frameUris = .arr (call.event.frameUris.map .str) ∧
      parsed.edgeTriggerMetadata = enc.metadata call.event.edgeTriggerMetadata := by
    unfold AnalyzerLibrary.parseStreamFields
    rw [huris, hmetadata]
    exact ⟨_, rfl, rfl, rfl⟩
  have hitem : ∀ {key text : String}, key ≠ "region_id" → key ≠ "error" →
      (enc.texts.payload call.event).lookup key = some text → parsed.fields.item key = .ok text := by
    intro key text hregion herror htext
    exact item_of_lookup (((parseStreamFields_lookup hparsed hregion).trans (h key herror)).trans
      htext)
  have hregion : parsed.fields.regionId = .ok call.request.regionId := by
    refine regionId_of_lookup ?_
    rw [parseStreamFields_region hparsed, h "region_id" (by decide)]
    exact truthy_regionId call.request _
  unfold AnalyzerLibrary.parseMessage
  refine bind_eq_ok.mpr ⟨parsed, hparsed, ?_⟩
  refine bind_eq_ok.mpr ⟨_, hitem (by decide) (by decide) rfl, ?_⟩
  refine bind_eq_ok.mpr ⟨_, parseUuid_str _, ?_⟩
  refine bind_eq_ok.mpr ⟨_, hitem (by decide) (by decide) rfl, ?_⟩
  refine bind_eq_ok.mpr ⟨_, parseUuid_str _, ?_⟩
  refine bind_eq_ok.mpr ⟨_, hitem (by decide) (by decide) rfl, ?_⟩
  refine bind_eq_ok.mpr ⟨_, parseUuid_str _, ?_⟩
  refine bind_eq_ok.mpr ⟨_, hitem (by decide) (by decide) rfl, ?_⟩
  refine bind_eq_ok.mpr ⟨_, parseUuid_str _, ?_⟩
  refine bind_eq_ok.mpr ⟨_, hregion, ?_⟩
  refine bind_eq_ok.mpr ⟨_, hitem (by decide) (by decide) rfl, ?_⟩
  refine bind_eq_ok.mpr ⟨_, hforms.capturedAt, ?_⟩
  have hframes : call.event.frameUris.map Json.str =
      call.request.frames.map fun frame => .str (call.frameUri frame) :=
    List.map_map
  rw [hparsedUris, hparsedMetadata, hframes]
  rfl

/-- The entry of a queued request is read back as what the request says, from the stream and, with
whatever error text, from the dead letter stream. -/
theorem parseMessage_queued (lib : AnalyzerLibrary) (enc : EncoderLibrary) (call : IngestCall)
    (w : IngestWorld) (ls : List SequenceMove) (s : SequenceState)
    (hqueued : s.phase = call.respond .queued) (h : Run (Accepts call) (.begin w) ls s)
    (hforms : RoundTrips lib enc call.event) :
    s.world.stream.getLast? = some call.event ∧
      lib.parseMessage (enc.payload (enc.eventFields call.event)) = .ok (call.message enc) ∧
      ∀ error, lib.parseMessage
        (enc.dlqEntry (enc.payload (enc.eventFields call.event)) error) =
          .ok (call.message enc) := by
  obtain ⟨-, hgathered⟩ := run_gathered h
  refine ⟨(hgathered.queued hqueued).2, ?_, ?_⟩
  · exact hforms.parseMessage (readsLike_payload enc call.event)
  · intro error
    exact hforms.parseMessage (readsLike_dlqEntry error)

def sampleQuoted : Json → String
  | .str s => "\"" ++ s ++ "\""
  | _ => "null"

def sampleEncoder : EncoderLibrary where
  dumps
    | .arr items => "[" ++ ", ".intercalate (items.map sampleQuoted) ++ "]"
    | _ => "{}"
  isoformat _ := "1970-01-01T00:00:00+00:00"
  str _ := "None"
  value _ := .null

/-- The list of the two URIs that a queued request has written. -/
def sampleUris : Json :=
  .arr ((sampleTwoFrames 1).event.frameUris.map .str)

def sampleLoads (text : String) : Except Exn Json :=
  if text = "{}" then .ok (.obj [])
  else if text = sampleEncoder.dumps sampleUris then .ok sampleUris
  else .error (.valueError "Expecting value: line 1 column 1 (char 0)")

def sampleDecoder : AnalyzerLibrary :=
  { sampleLibrary with loads := sampleLoads }

theorem roundTrips_sample :
    RoundTrips sampleDecoder sampleEncoder (sampleTwoFrames 1).event := by
  have hobject : sampleEncoder.dumps sampleUris ≠ "{}" := by decide +kernel
  have hempty : "" ≠ sampleEncoder.dumps sampleUris := by decide +kernel
  constructor
  · change sampleLoads "{}" = .ok (.obj [])
    rw [sampleLoads, if_pos rfl]
  · have huris : Json.arr ((sampleTwoFrames 1).event.frameUris.map .str) = sampleUris := rfl
    rw [huris, sampleDecoder]
    dsimp only [sampleLoads]
    rw [if_neg hobject, if_pos rfl]
  · decide +kernel
  · intro value h
    change sampleLoads "" = .ok value at h
    rw [sampleLoads, if_neg (by decide), if_neg hempty] at h
    cases h

theorem parseMessage_queued_sample :
    sampleDecoder.parseMessage (sampleEncoder.dlqEntry (sampleEncoder.payload
      (sampleEncoder.eventFields (sampleTwoFrames 1).event)) "No lens configured") =
        .ok ((sampleTwoFrames 1).message sampleEncoder) :=
  (parseMessage_queued _ _ _ _ _ (sampleTwoQueued 1) rfl
    (run_sampleTwoQueued (Or.inr rfl)).of_where roundTrips_sample).2.2 _

end ArgusServices

import ArgusServices.DecisionList
import ArgusServices.StrandedEvidence
import ArgusServices.StreamEncoding

namespace ArgusServices

open Effect Transition

/-- What the services share: Redis with the ingest stream and the frame bucket, the evidences with
the queues around them, and the rows of the triage. -/
structure Station where
  ingest : IngestWorld
  analyzer : AnalyzerWorld
  world : World

/-- Where a call of `accept_sequence` stands. -/
structure CallState where
  uploads : List UploadPhase
  phase : IngestPhase

def Station.sequence (s : Station) (c : CallState) : SequenceState :=
  ⟨s.ingest, c.uploads, c.phase⟩

/-- The rows and keys that aggregations and watchers see. -/
def Station.toWorld (s : Station) : World :=
  { s.world with
    db := { s.world.db with evidences := .ofList s.analyzer.evidences }
    keys := s.ingest.keys }

def Station.serve (s : Station) (r : Request) : Station :=
  let w := ArgusServices.serve s.toWorld r
  { s with world := w, ingest := { s.ingest with keys := w.keys } }

/-- A try of `analyze_ingest_message`. -/
def Station.analyze (s : Station) (lib : AnalyzerLibrary) (attempt : AnalyzeAttempt)
    (messageId : String) (fields : StreamFields) (retries : Nat) : Station :=
  { s with
    analyzer := (exec (analyzeIngestMessage lib attempt messageId fields retries) s.analyzer).2 }

inductive StationMove (ι : Type)
  | call (i : ι) (m : SequenceMove)
  | analyze (event : IngestEvent) (messageId : String) (attempt : AnalyzeAttempt) (retries : Nat)
  | serve (r : Request)
  | setKey (key : String) (entry : Option RedisEntry)

/-- Any number of calls take their steps in any order, uploads of calls that have raised included;
messages on the stream are analyzed any number of times, requests are served and keys come and
go. -/
inductive Delivering {ι : Type} [DecidableEq ι] (lib : AnalyzerLibrary) (texts : FieldTexts)
    (calls : ι → IngestCall) :
    Threads ι Station CallState → StationMove ι → Threads ι Station CallState → Prop
  | call {s : Threads ι Station CallState} {i : ι} {m : SequenceMove} {t : SequenceState} :
      (∀ o, m ≠ .other o) → Accepts (calls i) (s.shared.sequence (s.phase i)) m t →
      Delivering lib texts calls s (.call i m)
        (s.move i ({ s.shared with ingest := t.world }, ⟨t.uploads, t.phase⟩))
  | analyze {s : Threads ι Station CallState} {event : IngestEvent} {messageId : String}
      {attempt : AnalyzeAttempt} {retries : Nat} : event ∈ s.shared.ingest.stream →
      Delivering lib texts calls s (.analyze event messageId attempt retries)
        ⟨s.shared.analyze lib attempt messageId (texts.payload event) retries, s.phase⟩
  | serve {s : Threads ι Station CallState} {r : Request} :
      Delivering lib texts calls s (.serve r) ⟨s.shared.serve r, s.phase⟩
  | setKey {s : Threads ι Station CallState} {key : String} {entry : Option RedisEntry} :
      Delivering lib texts calls s (.setKey key entry)
        ⟨{ s.shared with ingest := { s.shared.ingest with
          keys := Function.update s.shared.ingest.keys key entry } }, s.phase⟩

/-- Frames that are stored under one key are the same frame: a sequence that is sent again is sent
with the same frames, and frames of one index are one. -/
def SameFrames {ι : Type} (calls : ι → IngestCall) : Prop :=
  ∀ i j, ∀ frame ∈ (calls i).request.frames, ∀ frame' ∈ (calls j).request.frames,
    (calls i).frameKey frame = (calls j).frameKey frame' →
      b64decode frame.content = b64decode frame'.content

/-- The object of a frame holds its content. -/
def IngestWorld.Holds (w : IngestWorld) (call : IngestCall) (frame : FramePayload) : Prop :=
  ∃ data, b64decode frame.content = some data ∧ w.objects (call.frameKey frame) = some data

/-- What is on the stream is the event of a call, and its frames are stored. -/
def IngestWorld.Delivered (w : IngestWorld) (call : IngestCall) : Prop :=
  call.event ∈ w.stream ∧ ∀ frame ∈ call.request.frames, w.Holds call frame

/-- A row was made from the event of a call. -/
structure Evidence.MadeFrom (evidence : Evidence) (call : IngestCall) : Prop where
  tenant : evidence.tenantId = call.request.tenantId
  camera : evidence.cameraId = call.request.cameraId
  region : evidence.regionId = call.request.regionId
  ingestion : evidence.ingestionId = call.request.ingestionId
  captured : evidence.capturedAt = call.request.capturedAt
  uri : ∀ frame, call.request.frames.head? = some frame →
    evidence.frameStorageUri = call.frameUri frame

structure Kept {ι : Type} (calls : ι → IngestCall) (s : Threads ι Station CallState) : Prop where
  matched : ∀ i, UploadsMatch (calls i) (s.shared.sequence (s.phase i))
  held : ∀ i (k : Nat) uri frame, (s.phase i).uploads[k]? = some (.stored uri) →
    (calls i).request.frames[k]? = some frame → s.shared.ingest.Holds (calls i) frame
  uploaded : ∀ i uris, (s.phase i).phase = .uploaded uris →
    (s.phase i).uploads = uris.map .stored ∧ uris = (calls i).request.frames.map (calls i).frameUri
  stream : ∀ event ∈ s.shared.ingest.stream, ∃ i, event = (calls i).event ∧
    s.shared.ingest.Delivered (calls i)
  evidences : ∀ e ∈ s.shared.analyzer.evidences, ∃ i, e.MadeFrom (calls i) ∧
    s.shared.ingest.Delivered (calls i)

variable {ι : Type} {lib : AnalyzerLibrary} {enc : EncoderLibrary} {calls : ι → IngestCall}
  {s t : Threads ι Station CallState} {i : ι} {call call' : IngestCall} {frame : FramePayload}
  {w w' : IngestWorld}

/-- An upload of a frame leaves what is stored, also where it writes. -/
theorem holds_uploadOne {other : FramePayload} {r : Reply} (h : w.Holds call frame)
    (hsame : call.frameKey frame = call'.frameKey other →
      b64decode frame.content = b64decode other.content) :
    (call'.uploadOne other r w).1.Holds call frame := by
  obtain ⟨data, hdata, hobject⟩ := h
  refine ⟨data, hdata, ?_⟩
  unfold IngestCall.uploadOne
  split
  next => exact hobject
  next written hwritten =>
    dsimp only
    split
    next =>
      dsimp only
      by_cases hkey : call.frameKey frame = call'.frameKey other
      · rw [hkey, Function.update_self, ← hwritten, ← hsame hkey, hdata]
      · rw [Function.update_of_ne hkey]
        exact hobject
    next => exact hobject

theorem holds_of_stored {r : Reply} {uri : String}
    (h : (call.uploadOne frame r w).2 = .stored uri) :
    (call.uploadOne frame r w).1.Holds call frame := by
  obtain ⟨hvalid, -⟩ := uploadOne_stored h
  refine ⟨_, if_pos hvalid, ?_⟩
  rw [uploadOne_stores h]
  exact if_pos hvalid

/-- A command of a call puts its event on the stream once its uploads are through, or nothing. -/
theorem step_stream {w : IngestStore} {p : IngestPhase} (hp : p.ended = false) (r : Reply) :
    (call.step (w, p) r).1.stream = w.stream ∨ ∃ uris, p = .uploaded uris ∧
      (call.step (w, p) r).1.stream = w.stream ++ [ingestEvent call.request uris] := by
  obtain ⟨lost, hstep⟩ := step_ingests call hp w r
  generalize call.step (w, p) r = s' at hstep
  obtain ⟨w', p'⟩ := s'
  cases hstep with
  | enqueue => exact Or.inr ⟨_, rfl, rfl⟩
  | enqueueLost => exact Or.inr ⟨_, rfl, rfl⟩
  | claim => exact Or.inl claim_stream
  | claimLost => exact Or.inl claim_stream
  | _ => exact Or.inl rfl

/-- What is stored stays stored, and what is on the stream stays there. -/
structure IngestWorld.Extends (calls : ι → IngestCall) (w w' : IngestWorld) : Prop where
  holds : ∀ i, ∀ frame ∈ (calls i).request.frames, w.Holds (calls i) frame →
    w'.Holds (calls i) frame
  stream : ∀ event ∈ w.stream, event ∈ w'.stream

theorem IngestWorld.Delivered.mono (h : w.Delivered (calls i))
    (hext : IngestWorld.Extends calls w w') : w'.Delivered (calls i) :=
  ⟨hext.stream _ h.1, fun frame hframe => hext.holds i frame hframe (h.2 frame hframe)⟩

theorem accepts_extends {m : SequenceMove} {u v : SequenceState} (hsame : SameFrames calls)
    (hown : ∀ o, m ≠ .other o) (h : Accepts (calls i) u m v) :
    IngestWorld.Extends calls u.world v.world := by
  cases h with
  | @command r hended hphase =>
    refine ⟨fun _ _ _ hold => hold, ?_⟩
    intro event hevent
    obtain hsame | ⟨uris, -, hput⟩ :=
      @step_stream (calls i) u.world.toIngestStore u.phase hended r
    · exact hsame ▸ hevent
    · exact hput ▸ List.mem_append_left _ hevent
  | @upload k frame r hframe hpending =>
    refine ⟨?_, ?_⟩
    · intro j other hother hold
      exact holds_uploadOne hold fun hkey =>
        hsame j i other hother frame (List.mem_of_getElem? hframe) hkey
    · intro event hevent
      have hstore := @uploadOne_store (calls i) frame r u.world
      show event ∈ ((calls i).uploadOne frame r u.world).1.stream
      rw [congrArg IngestStore.stream hstore]
      exact hevent
  | gathered hphase huris => exact ⟨fun _ _ _ hold => hold, fun _ hevent => hevent⟩
  | @other o hended hsparing => exact absurd rfl (hown o)

/-- After a step of a call its stored uploads are held. -/
theorem held_step {m : SequenceMove} {u v : SequenceState} (hsame : SameFrames calls)
    (hown : ∀ o, m ≠ .other o)
    (hheld : ∀ (k : Nat) uri frame, u.uploads[k]? = some (.stored uri) →
      (calls i).request.frames[k]? = some frame → u.world.Holds (calls i) frame)
    (h : Accepts (calls i) u m v) :
    ∀ (k : Nat) uri frame, v.uploads[k]? = some (.stored uri) →
      (calls i).request.frames[k]? = some frame → v.world.Holds (calls i) frame := by
  have hext := accepts_extends hsame hown h
  intro k uri frame hk hframe
  have hold : u.uploads[k]? = some (.stored uri) → v.world.Holds (calls i) frame := by
    intro hstored
    exact hext.holds i frame (List.mem_of_getElem? hframe) (hheld k uri frame hstored hframe)
  cases h with
  | @command r hended hphase =>
    simp only [IngestCall.receive] at hk
    split at hk
    next =>
      rw [List.getElem?_map, Option.map_eq_some_iff] at hk
      obtain ⟨_, -, huri⟩ := hk
      cases huri
    next => exact hold hk
  | @upload j other r hother hpending =>
    simp only [IngestCall.finish] at hk
    by_cases hj : j = k
    · subst hj
      obtain rfl := Option.some.inj (hother.symm.trans hframe)
      obtain ⟨hlt, -⟩ := List.getElem?_eq_some_iff.mp hpending
      rw [List.getElem?_set_self hlt] at hk
      exact holds_of_stored (Option.some.inj hk)
    · rw [List.getElem?_set_ne hj] at hk
      exact hold hk
  | gathered hphase huris => exact hold hk
  | @other o hended hsparing => exact absurd rfl (hown o)

/-- From `gather` on the uploads of a call are all through. -/
theorem uploaded_step {m : SequenceMove} {u v : SequenceState} (hm : UploadsMatch call u)
    (hown : ∀ o, m ≠ .other o)
    (hup : ∀ uris, u.phase = .uploaded uris →
      u.uploads = uris.map .stored ∧ uris = call.request.frames.map call.frameUri)
    (h : Accepts call u m v) :
    ∀ uris, v.phase = .uploaded uris →
      v.uploads = uris.map .stored ∧ uris = call.request.frames.map call.frameUri := by
  intro uris hphase'
  cases h with
  | @command r hended hphase => exact absurd hphase' (step_ne_uploaded hended hphase uris)
  | @upload k frame r hframe hpending =>
    have hphase := phase_of_finish hphase' (by simp) (by simp)
    exact absurd hpending (not_pending_of_stored (hup uris hphase).1 k)
  | gathered hphase huris =>
    cases hphase'
    exact ⟨huris, hm.gathered_eq hphase huris⟩
  | @other o hended hsparing => exact absurd rfl (hown o)

/-- All frames of a call whose uploads are through are held. -/
theorem holds_all {u : SequenceState} {uris : List String}
    (hheld : ∀ (k : Nat) uri frame, u.uploads[k]? = some (.stored uri) →
      call.request.frames[k]? = some frame → u.world.Holds call frame)
    (huploads : u.uploads = uris.map .stored)
    (huris : uris = call.request.frames.map call.frameUri) :
    ∀ frame ∈ call.request.frames, u.world.Holds call frame := by
  intro frame hframe
  obtain ⟨k, hk⟩ := List.mem_iff_getElem?.mp hframe
  refine hheld k (call.frameUri frame) frame ?_ hk
  rw [huploads, huris, List.getElem?_map, List.getElem?_map, hk]
  rfl

theorem stream_step {m : SequenceMove} {u v : SequenceState} (hown : ∀ o, m ≠ .other o)
    (hup : ∀ uris, u.phase = .uploaded uris →
      u.uploads = uris.map .stored ∧ uris = call.request.frames.map call.frameUri)
    (hheld : ∀ (k : Nat) uri frame, u.uploads[k]? = some (.stored uri) →
      call.request.frames[k]? = some frame → u.world.Holds call frame)
    (h : Accepts call u m v) : ∀ event ∈ v.world.stream, event ∈ u.world.stream ∨
      event = call.event ∧ ∀ frame ∈ call.request.frames, u.world.Holds call frame := by
  intro event hevent
  cases h with
  | @command r hended hphase =>
    rcases @step_stream call u.world.toIngestStore u.phase hended r with hsame | ⟨uris, hp, hput⟩
    · left
      have hmem : event ∈ (call.step u.whole r).1.stream := hevent
      rwa [show (call.step u.whole r).1.stream = u.world.stream from hsame] at hmem
    · obtain ⟨huploads, huris⟩ := hup uris hp
      have hmem : event ∈ (call.step u.whole r).1.stream := hevent
      rw [show (call.step u.whole r).1.stream = u.world.stream ++ [ingestEvent call.request uris]
        from hput] at hmem
      refine (List.mem_append.mp hmem).imp_right ?_
      intro hnew
      rw [List.mem_singleton.mp hnew, huris]
      exact ⟨rfl, holds_all hheld huploads huris⟩
  | @upload k frame r hframe hpending =>
    left
    have hstore := @uploadOne_store call frame r u.world
    have hmem : event ∈ (call.uploadOne frame r u.world).1.stream := hevent
    rwa [congrArg IngestStore.stream hstore] at hmem
  | gathered hphase huris => exact Or.inl hevent
  | @other o hended hsparing => exact absurd rfl (hown o)

/-- The evidences a try leaves: nothing new, or the row of the message. -/
theorem ends_analyzeIngestMessage_adds {attempt : AnalyzeAttempt} {messageId : String}
    {fields : StreamFields} {retries : Nat} {w : AnalyzerWorld} :
    Ends (analyzeIngestMessage lib attempt messageId fields retries) w
      (fun _ t => attempt.Adds lib fields w t) fun _ t => attempt.Adds lib fields w t := by
  unfold analyzeIngestMessage
  rw [ends_tryCatch, ends_bind]
  refine ends_analyzeMessage_adds.mono ?_ ?_
  · intro _ t ht
    exact ends_pure.mpr ht
  · intro exc t ht
    split
    · have hmoved : ∀ b : Bool, (if b then t.moveToDlq fields (lib.str exc) else t).evidences =
          t.evidences := by
        intro b
        cases b <;> rfl
      rw [ends_bind, ends_command]
      refine ⟨fun _ => ht.congr (hmoved _), fun _ => ?_⟩
      rw [ends_bind]
      refine Ends.mono (ends_command_evidences ?_) ?_ ?_
      · exact fun _ => rfl
      · intro _ u hu
        exact ends_pure.mpr (ht.congr (hu.trans (hmoved _)))
      · intro _ u hu
        exact ht.congr (hu.trans (hmoved _))
    · exact ends_throw.mpr ht

/-- The row of a message is made from the request whose event it is. -/
theorem madeFrom_of_analyze {attempt : AnalyzeAttempt} {evidence : Evidence}
    (h : attempt.analyze lib (call.message enc) = .ok evidence) : evidence.MadeFrom call := by
  unfold AnalyzeAttempt.analyze at h
  obtain ⟨_, -, h⟩ := bind_eq_ok.mp h
  obtain ⟨_, -, h⟩ := bind_eq_ok.mp h
  obtain ⟨_, -, h⟩ := bind_eq_ok.mp h
  obtain ⟨_, -, h⟩ := bind_eq_ok.mp h
  obtain ⟨_, -, h⟩ := bind_eq_ok.mp h
  obtain ⟨_, -, h⟩ := bind_eq_ok.mp h
  obtain ⟨uri, huri, h⟩ := bind_eq_ok.mp h
  cases h
  refine ⟨rfl, rfl, rfl, rfl, rfl, ?_⟩
  intro frame hframe
  obtain ⟨frames, hframes⟩ := List.head?_eq_some_iff.mp hframe
  simp only [IngestCall.message, hframes, List.map_cons] at huri
  cases huri
  rfl

theorem Kept.analyze (h : Kept calls s) (hforms : ∀ i, RoundTrips lib enc (calls i).event)
    {event : IngestEvent} (hevent : event ∈ s.shared.ingest.stream) (messageId : String)
    (attempt : AnalyzeAttempt) (retries : Nat) :
    Kept calls ⟨s.shared.analyze lib attempt messageId (enc.texts.payload event) retries,
      s.phase⟩ := by
  refine ⟨h.matched, h.held, h.uploaded, h.stream, ?_⟩
  intro e he
  obtain ⟨i, rfl, hdelivered⟩ := h.stream event hevent
  have hadds := ends_state_iff.mp (@ends_analyzeIngestMessage_adds lib attempt messageId
    (enc.texts.payload (calls i).event) retries s.shared.analyzer)
  rcases hadds with hsame | ⟨message, evidence, hm, hrow, -, hnew⟩
  · have hold : e ∈ s.shared.analyzer.evidences := hsame ▸ he
    exact h.evidences e hold
  · have hmem : e ∈ s.shared.analyzer.evidences ++ [evidence] := hnew ▸ he
    rcases List.mem_append.mp hmem with hold | hlast
    · exact h.evidences e hold
    · rw [List.mem_singleton.mp hlast]
      have hmessage := (hforms i).parseMessage (readsLike_payload enc (calls i).event)
      rw [payload_eventFields, hm] at hmessage
      cases hmessage
      exact ⟨i, madeFrom_of_analyze hrow, hdelivered⟩

/-- Nothing has been sent yet. -/
structure Unsent (s : Threads ι Station CallState) : Prop where
  stream : s.shared.ingest.stream = []
  evidences : s.shared.analyzer.evidences = []
  begun : ∀ i, s.phase i = ⟨[], .begun⟩

theorem Unsent.kept (h : Unsent s) (calls : ι → IngestCall) : Kept calls s where
  matched := by
    intro i
    rw [h.begun i]
    exact .begin (calls i) s.shared.ingest
  held := by
    intro i k uri frame hk
    simp [h.begun i] at hk
  uploaded := by
    intro i uris huris
    rw [h.begun i] at huris
    cases huris
  stream := by
    intro event hevent
    simp [h.stream] at hevent
  evidences := by
    intro e he
    simp [h.evidences] at he

variable [DecidableEq ι]

theorem Kept.accepts (h : Kept calls s) (hsame : SameFrames calls) {m : SequenceMove}
    {v : SequenceState} (hown : ∀ o, m ≠ .other o)
    (hstep : Accepts (calls i) (s.shared.sequence (s.phase i)) m v) :
    Kept calls (s.move i ({ s.shared with ingest := v.world }, ⟨v.uploads, v.phase⟩)) := by
  have hext := accepts_extends hsame hown hstep
  refine ⟨?_, ?_, ?_, ?_, ?_⟩
  · have hall : ∀ j, UploadsMatch (calls j) ⟨v.world, (s.phase j).uploads, (s.phase j).phase⟩ :=
      fun j => ⟨(h.matched j).length, (h.matched j).uri⟩
    exact Threads.forall_move (P := fun j (c : CallState) =>
      UploadsMatch (calls j) ⟨v.world, c.uploads, c.phase⟩) hall ((h.matched i).step hstep)
  · refine Threads.forall_move (P := fun j (c : CallState) => ∀ (k : Nat) uri frame,
      c.uploads[k]? = some (.stored uri) → (calls j).request.frames[k]? = some frame →
        v.world.Holds (calls j) frame) ?_ (held_step hsame hown (h.held i) hstep)
    intro j k uri frame hk hframe
    exact hext.holds j frame (List.mem_of_getElem? hframe) (h.held j k uri frame hk hframe)
  · exact Threads.forall_move (P := fun j (c : CallState) => ∀ uris, c.phase = .uploaded uris →
      c.uploads = uris.map .stored ∧ uris = (calls j).request.frames.map (calls j).frameUri)
        h.uploaded (uploaded_step (h.matched i) hown (h.uploaded i) hstep)
  · intro event hevent
    rcases stream_step hown (h.uploaded i) (h.held i) hstep event hevent with hold | ⟨rfl, hframes⟩
    · obtain ⟨j, hj, hdelivered⟩ := h.stream event hold
      exact ⟨j, hj, hdelivered.mono hext⟩
    · exact ⟨i, rfl, hevent, fun frame hframe => hext.holds i frame hframe (hframes frame hframe)⟩
  · intro e he
    obtain ⟨j, hmade, hdelivered⟩ := h.evidences e he
    exact ⟨j, hmade, hdelivered.mono hext⟩

theorem Kept.step {l : StationMove ι} (h : Kept calls s) (hsame : SameFrames calls)
    (hforms : ∀ i, RoundTrips lib enc (calls i).event)
    (hstep : Delivering lib enc.texts calls s l t) : Kept calls t := by
  cases hstep with
  | call hown hstep => exact h.accepts hsame hown hstep
  | analyze hevent => exact h.analyze hforms hevent _ _ _
  | serve => exact ⟨fun i => ⟨(h.matched i).length, (h.matched i).uri⟩, h.held, h.uploaded,
      h.stream, h.evidences⟩
  | setKey => exact ⟨fun i => ⟨(h.matched i).length, (h.matched i).uri⟩, h.held, h.uploaded,
      h.stream, h.evidences⟩

theorem openTenantDb_only (tenantId : Uuid) (auth : AuthContext) (w : World) :
    Ends (openTenantDb tenantId auth) (Session.open w)
      (fun _ s => s.tx = w.db ∧ ∀ id, s.sees id = decide (id = tenantId))
      (fun _ _ => True) := by
  by_cases haccess : auth.role = .rootAdmin ∨ auth.tenantId = some tenantId
  · exact (openTenantDb_sees haccess w).mono (fun _ _ h => h) fun _ _ _ => trivial
  · rw [not_or] at haccess
    simp only [openTenantDb, requireTenantAccess, ends_bind, ends_raiseWhen]
    refine ⟨fun _ => trivial, ?_⟩
    intro hopen
    exact absurd haccess (of_decide_eq_false hopen)

/-- The evidences that `get_decision` shows are rows of the tenant. -/
theorem getDecisionDetail_own {triage : TriageLibrary} {tenantId decisionId : Uuid}
    {auth : AuthContext} {w : World} {detail : Json}
    (h : (getDecisionDetail triage tenantId decisionId auth w).1 = .ok detail) :
    ∃ details, detail.member "evidences" = some (.arr details) ∧ ∀ answer ∈ details,
      ∃ evidence, w.db.evidences.find evidence.id = some evidence ∧
        evidence.tenantId = tenantId ∧ triage.evidenceDetail evidence = .ok answer := by
  have hbody : Ends (getDecisionBody triage tenantId decisionId auth) (Session.open w)
      (fun detail _ => ∃ (decision : Decision) (s : Session) (evidences : List Json),
        (s.tx = w.db ∧ ∀ id, s.sees id = decide (id = tenantId)) ∧
        (s.evidencesOf decision).mapM triage.evidenceDetail = .ok evidences ∧
        detail = .obj (construct DecisionDetail.fields (triage.detailKwargs decision evidences)))
      (fun _ _ => True) := by
    apply (openTenantDb_only tenantId auth w).bind
    intro _ s hs
    simp only [requireRole, getDecision, ends_bind, ends_raiseWhen, ends_get, ends_pure]
    refine ⟨fun _ => trivial, fun _ => ?_⟩
    split
    next => trivial
    next decision _ =>
      simp only [ends_bind, ends_get, ends_ofExcept]
      refine ⟨?_, fun _ _ => trivial⟩
      intro evidences hevidences
      exact ⟨decision, s, evidences, hs, hevidences, rfl⟩
  unfold getDecisionDetail runSession at h
  rcases hx : exec (getDecisionBody triage tenantId decisionId auth) (Session.open w) with
    ⟨r | r, u⟩
  · rw [hx] at h
    cases h
  · rw [hx] at h
    obtain rfl : r = detail := Except.ok.inj h
    obtain ⟨decision, s, evidences, ⟨htx, hsees⟩, hevidences, rfl⟩ := hbody.ok hx
    refine ⟨evidences, ?_, ?_⟩
    · rw [Json.member, construct_lookup]
      rfl
    · intro answer hanswer
      obtain ⟨evidence, hevidence, hdetail⟩ := exists_of_mem_mapM hevidences answer hanswer
      have hfind := find_of_mem_evidencesOf hevidence
      rw [htx] at hfind
      have hseen : s.sees evidence.tenantId = true := (List.mem_filter.mp hevidence).2
      rw [hsees] at hseen
      exact ⟨evidence, hfind, of_decide_eq_true hseen, hdetail⟩

/-- What a watcher plays back is what a camera of its tenant has sent: each evidence of a decision
is a row that was made from the event of a request of the tenant, and its link is for the object of
the first frame of that request, which holds the frame's content. -/
theorem playback_shows_upload {storage : Storage} {triage : TriageLibrary}
    {ls : List (StationMove ι)} (hbucket : '/' ∉ storage.s3BucketName.toList)
    (hcalls : ∀ i, (calls i).bucket = storage.s3BucketName) (hsame : SameFrames calls)
    (hforms : ∀ i, RoundTrips lib enc (calls i).event) (h : Unsent s)
    (hrun : Run (Delivering lib enc.texts calls) s ls t)
    {tenantId decisionId : Uuid} {auth : AuthContext} {detail : Json}
    (hdetail : (getDecisionDetail (storage.serves triage) tenantId decisionId auth
      t.shared.toWorld).1 = .ok detail) :
    ∃ details, detail.member "evidences" = some (.arr details) ∧ ∀ answer ∈ details,
      ∃ i evidence, t.shared.toWorld.db.evidences.find evidence.id = some evidence ∧
        answer.member "id" = some (.str evidence.id.str) ∧
        evidence.MadeFrom (calls i) ∧ (calls i).request.tenantId = tenantId ∧
        ∀ frame, (calls i).request.frames.head? = some frame →
          t.shared.ingest.Holds (calls i) frame ∧
            storage.LinksTo ((calls i).frameKey frame) answer := by
  have hkept : Kept calls t := by
    refine hrun.invariant (I := Kept calls) ?_ (h.kept calls)
    intro u l v hu hstep
    exact hu.step hsame hforms hstep
  obtain ⟨details, hdetails, hall⟩ := getDecisionDetail_own hdetail
  refine ⟨details, hdetails, ?_⟩
  intro answer hanswer
  obtain ⟨evidence, hfind, htenant, hshown⟩ := hall answer hanswer
  obtain ⟨i, hmade, hdelivered⟩ := hkept.evidences evidence (KeyedTable.mem_of_find_ofList hfind)
  refine ⟨i, evidence, hfind, evidenceDetail_id hshown, hmade, hmade.tenant ▸ htenant, ?_⟩
  intro frame hframe
  refine ⟨hdelivered.2 frame (List.mem_of_mem_head? hframe), ?_⟩
  refine @evidenceDetail_links storage triage _ evidence answer hbucket [] (fun _ _ => none) ?_
    hshown
  rw [hmade.uri frame hframe, IngestCall.frameUri, hcalls]
  rfl

/-- A station at which one call runs. -/
def Station.alone (s : Station) (u : SequenceState) : Threads Unit Station CallState :=
  ⟨{ s with ingest := u.world }, fun _ => ⟨u.uploads, u.phase⟩⟩

/-- The steps of a call on its own are steps of the station. -/
theorem run_alone {texts : FieldTexts} {station : Station} {u v : SequenceState}
    {ls : List SequenceMove} (hown : ∀ l ∈ ls, ∀ o, l ≠ .other o) (h : Run (Accepts call) u ls v) :
    Run (Delivering lib texts fun _ : Unit => call) (station.alone u)
      (ls.map (StationMove.call ())) (station.alone v) := by
  induction h with
  | nil u => exact .nil _
  | @cons u v w l ls hstep _ ih =>
    have hmoved : (station.alone u).move () ({ station with ingest := v.world },
        ⟨v.uploads, v.phase⟩) = station.alone v := by
      unfold Station.alone Threads.move
      congr 1
    rw [List.map_cons]
    refine .cons ?_ (ih fun l hl => hown l (List.mem_cons_of_mem _ hl))
    rw [← hmoved]
    exact .call (hown l List.mem_cons_self) hstep

/-- A triage that keeps its frames in the bucket of the sample call. -/
def frameStorage : Storage :=
  { sampleStorage with s3BucketName := "frames" }

def emptyStation : Station :=
  ⟨sampleIngestWorld, ⟨[], [], [], []⟩, sampleWorld []⟩

def afterUpload : Threads Unit Station CallState :=
  emptyStation.alone (sampleTwoQueued 1)

/-- A try with the lens of the mode of the sample call. -/
def frameAttempt : AnalyzeAttempt :=
  { sampleAttempt with lenses := [⟨⟨1⟩, ⟨5⟩, 1⟩] }

def afterTriage : Threads Unit Station CallState :=
  let s := afterUpload.shared.analyze sampleDecoder frameAttempt "1-0"
    (sampleEncoder.texts.payload (sampleTwoFrames 1).event) 0
  ⟨s.serve (.aggregate (sampleAggregate 11 20)), afterUpload.phase⟩

theorem run_afterTriage :
    Run (Delivering sampleDecoder sampleEncoder.texts fun _ : Unit => sampleTwoFrames 1)
      (emptyStation.alone (.begin sampleIngestWorld))
      ([.command .done, .command .done, .upload 0 .done, .upload 1 .done, .gathered,
          .command .done].map (.call ()) ++
        [.analyze (sampleTwoFrames 1).event "1-0" frameAttempt 0,
          .serve (.aggregate (sampleAggregate 11 20))]) afterTriage := by
  refine (run_alone ?_ (run_sampleTwoQueued (Or.inr rfl)).of_where).append ?_
  · intro l hl o heq
    subst heq
    simp at hl
  · refine .cons (.analyze ?_) (.single .serve)
    exact List.mem_singleton_self _

/-- The evidences in an answer of `get_decision`. -/
def shownEvidences : Except Exn Json → List Json
  | .ok detail =>
    match detail.member "evidences" with
    | some (.arr details) => details
    | _ => []
  | .error _ => []

def shownAfterTriage : Except Exn Json :=
  (getDecisionDetail (frameStorage.serves sampleTriage) ⟨1⟩ ⟨20⟩ ⟨"watcher", some ⟨1⟩, .watcher⟩
    afterTriage.shared.toWorld).1

theorem playback_shows_upload_sample : (shownEvidences shownAfterTriage).length = 1 ∧
    ∀ answer ∈ shownEvidences shownAfterTriage,
      (∃ evidence, afterTriage.shared.toWorld.db.evidences.find evidence.id = some evidence ∧
        evidence.MadeFrom (sampleTwoFrames 1)) ∧
      frameStorage.LinksTo ((sampleTwoFrames 1).frameKey ⟨0, "QUJD"⟩) answer := by
  have hlength : (shownEvidences shownAfterTriage).length = 1 := by decide +kernel
  refine ⟨hlength, ?_⟩
  have hsame : SameFrames fun _ : Unit => sampleTwoFrames 1 := by
    intro _ _ frame hframe frame' hframe' hkey
    have hagree : (sampleTwoFrames 1).request.FramesAgree := by
      unfold IngestSequenceRequest.FramesAgree
      decide +kernel
    exact hagree frame hframe frame' hframe' (frameKey_eq_iff.mp hkey)
  have hunsent : Unsent (emptyStation.alone (.begin sampleIngestWorld)) := ⟨rfl, rfl, fun _ => rfl⟩
  cases hshown : shownAfterTriage with
  | error e =>
    rw [hshown] at hlength
    cases hlength
  | ok detail =>
    have hdetail : (getDecisionDetail (frameStorage.serves sampleTriage) ⟨1⟩ ⟨20⟩
        ⟨"watcher", some ⟨1⟩, .watcher⟩ afterTriage.shared.toWorld).1 = .ok detail := hshown
    obtain ⟨details, hdetails, hall⟩ := playback_shows_upload (by decide) (fun _ => rfl) hsame
      (fun _ => roundTrips_sample) hunsent run_afterTriage hdetail
    have heq : shownEvidences (.ok detail) = details := by
      simp only [shownEvidences, hdetails]
    rw [heq]
    intro answer hanswer
    obtain ⟨_, evidence, hfind, -, hmade, -, hframes⟩ := hall answer hanswer
    exact ⟨⟨evidence, hfind, hmade⟩, (hframes _ rfl).2⟩

end ArgusServices

import ArgusServices.Json
import ArgusServices.ResolveEffect
import ArgusServices.SerialRun

namespace ArgusServices

open Effect Transition

/-- What the triage routes use of other libraries: how a datetime is written to and read from JSON,
the presigned links of the storage, and the `vlm_result` column of the evidences. -/
structure TriageLibrary where
  dumpDatetime : Int → String
  parseDatetime : Json → Option Int
  presignedGetUrl : String → Except Exn String
  vlmResult : Uuid → Json

/-- A model of the given fields: a keyword that is no field of it is ignored. -/
def construct (fields : List String) (kwargs : List (String × Json)) : List (String × Json) :=
  fields.filterMap fun field => (kwargs.lookup field).map fun value => (field, value)

def EvidenceDetail.fields : List String :=
  ["id", "captured_at", "severity_score", "vlm_result", "playback_url"]

def DecisionDetail.fields : List String :=
  ["id", "camera_id", "region_id", "state", "cumulative_severity", "evidence_count",
    "window_start", "window_end", "evidences"]

/-- `uri.split("/", n)[-1]`. -/
def lastPiece : Nat → List Char → List Char
  | 0, uri => uri
  | n + 1, uri =>
    match uri.dropWhile (· ≠ '/') with
    | [] => uri
    | _ :: rest => lastPiece n rest

def TriageLibrary.playbackUrl (lib : TriageLibrary) (uri : String) : Except Exn Json :=
  if "s3://".toList.isPrefixOf uri.toList then
    Json.str <$> lib.presignedGetUrl (String.ofList (lastPiece 3 uri.toList))
  else
    pure .null

def TriageLibrary.evidenceDetail (lib : TriageLibrary) (evidence : Evidence) :
    Except Exn Json := do
  let playbackUrl ← lib.playbackUrl evidence.frameStorageUri
  match lib.vlmResult evidence.id with
  | .obj members =>
    pure (.obj (construct EvidenceDetail.fields [
      ("id", .str evidence.id.str),
      ("captured_at", .str (lib.dumpDatetime evidence.capturedAt)),
      ("severity_score", .int evidence.severityScore),
      ("vlm_result", .obj members),
      ("playback_url", playbackUrl)]))
  | _ => throw (.valueError "Input should be a valid dictionary")

/-- `decision.evidences`, as far as the session sees them. -/
def Session.evidencesOf (s : Session) (decision : Decision) : List Evidence :=
  let links := s.tx.decisionEvidences.filter fun l =>
    l.decisionId = decision.id && s.sees l.tenantId
  (links.filterMap fun l => s.tx.evidences.find l.evidenceId).filter fun e => s.sees e.tenantId

/-- What `get_decision` hands to its response model. -/
def TriageLibrary.detailKwargs (lib : TriageLibrary) (decision : Decision)
    (evidences : List Json) : List (String × Json) :=
  [("id", .str decision.id.str),
    ("camera_id", .str decision.cameraId.str),
    ("region_id", match decision.regionId with
      | some id => .str id.str
      | none => .null),
    ("state", .str decision.state.value),
    ("cumulative_severity", .int decision.cumulativeSeverity),
    ("evidence_count", .int decision.evidenceCount),
    ("window_start", .str (lib.dumpDatetime decision.windowStart)),
    ("window_end", .str (lib.dumpDatetime decision.windowEnd)),
    ("updated_at", .str (lib.dumpDatetime decision.updatedAt)),
    ("evidences", .arr evidences)]

/-- The session of `get_tenant_db`. -/
def openTenantDb (tenantId : Uuid) (auth : AuthContext) : SessionProc Unit := do
  requireTenantAccess tenantId auth
  if auth.role = .rootAdmin then
    setSessionContext (some tenantId) .tenantAdmin
  else
    setSessionContext auth.tenantId auth.role

def getDecisionBody (lib : TriageLibrary) (tenantId decisionId : Uuid) (auth : AuthContext) :
    SessionProc Json := do
  openTenantDb tenantId auth
  requireRole [.watcher, .tenantAdmin, .rootAdmin] auth
  match (← getDecision decisionId) with
  | none => throw (.httpException 404 "Decision not found")
  | some decision =>
    let s ← get
    let evidences ← ofExcept ((s.evidencesOf decision).mapM lib.evidenceDetail)
    commit
    pure (.obj (construct DecisionDetail.fields (lib.detailKwargs decision evidences)))

/-- `GET /tenants/{tenant_id}/decisions/{decision_id}`. -/
def getDecisionDetail (lib : TriageLibrary) (tenantId decisionId : Uuid) (auth : AuthContext)
    (w : World) : Except Exn Json × World :=
  runSession (getDecisionBody lib tenantId decisionId auth) w

/-- `decision.updated_at` in the client: a member that is not there is undefined. -/
def Json.member : Json → String → Option Json
  | .obj members, key => members.lookup key
  | _, _ => none

/-- The body of `resolve` in the client; `JSON.stringify` leaves out what is undefined. -/
def resolveBody (decision : Json) (state reason : String) : Json :=
  .obj ([("disposition", some (.str state)), ("reasoning", some (.str reason)),
    ("updated_at", decision.member "updated_at")].filterMap fun (key, value) =>
      value.map fun v => (key, v))

def FeedbackDisposition.ofValue (text : String) : Option FeedbackDisposition :=
  [.truePositive, .falsePositive, .falseNegative].find? fun d => d.value = text

def ResolveDecisionRequest.parseReasoning : Option Json → Option String
  | none => some ""
  | some (.str s) => some s
  | some _ => none

/-- The fields of a request body; `updated_at` has no default. -/
def TriageLibrary.parseResolveRequest (lib : TriageLibrary) (body : Json) :
    Option ResolveDecisionRequest := do
  let disposition ← match ← body.member "disposition" with
    | .str text => FeedbackDisposition.ofValue text
    | _ => none
  let reasoning ← ResolveDecisionRequest.parseReasoning (body.member "reasoning")
  let updatedAt ← lib.parseDatetime (← body.member "updated_at")
  pure ⟨disposition, reasoning, updatedAt⟩

/-- The answer to a body that is no request, after the dependencies. -/
def rejectResolveBody (tenantId : Uuid) (auth : AuthContext) :
    SessionProc ResolveDecisionResponse := do
  openTenantDb tenantId auth
  requireRole [.watcher, .tenantAdmin] auth
  throw (.httpException 422 "Request validation failed")

/-- `POST /tenants/{tenant_id}/decisions/{decision_id}/resolve`, at a time when nothing fails. -/
def postResolve (lib : TriageLibrary) (tenantId decisionId : Uuid) (auth : AuthContext)
    (clock now : Int) (body : Json) (w : World) : Except Exn ResolveDecisionResponse × World :=
  match lib.parseResolveRequest body with
  | some request => resolveDecision ⟨tenantId, decisionId, request, auth, clock, now, none⟩ w
  | none => runSession (rejectResolveBody tenantId auth) w

theorem construct_lookup (fields : List String) (kwargs : List (String × Json)) (key : String) :
    (construct fields kwargs).lookup key = if key ∈ fields then kwargs.lookup key else none := by
  induction fields with
  | nil => simp [construct]
  | cons field fields ih =>
    unfold construct at ih ⊢
    rw [List.filterMap_cons]
    cases hv : kwargs.lookup field with
    | none =>
      simp only [Option.map_none, ih, List.mem_cons]
      by_cases hkey : key = field
      · subst hkey
        simp [hv]
      · simp [hkey]
    | some value =>
      simp only [Option.map_some, List.lookup_cons, ih, List.mem_cons]
      by_cases hkey : key = field
      · subst hkey
        simp [hv]
      · have hne : (key == field) = false := by simpa using hkey
        simp [hne, hkey]

variable {lib : TriageLibrary} {w : World} {tenantId decisionId : Uuid} {auth : AuthContext}
  {clock now : Int}

theorem openTenantDb_ends (hrole : auth.role ≠ .rootAdmin) (hten : auth.tenantId = some tenantId)
    {Q : Unit → Session → Prop} {E : Exn → Session → Prop} :
    Ends (openTenantDb tenantId auth) (Session.open w) Q E ↔
      Q () ⟨w, w.db, some tenantId, some auth.role⟩ := by
  simp [openTenantDb, requireTenantAccess, setSessionContext, ends_bind, ends_raiseWhen, hten,
    hrole, Session.open]

theorem getDecisionBody_ends (s : Session) :
    Ends (getDecisionBody lib tenantId decisionId auth) s
      (fun detail _ => ∃ kwargs, detail = .obj (construct DecisionDetail.fields kwargs))
      (fun _ _ => True) := by
  refine (ends_any _ s).bind ?_
  intro _ s₁ _
  refine (ends_any _ s₁).bind ?_
  intro _ s₂ _
  refine (ends_any _ s₂).bind ?_
  intro found s₃ _
  cases found with
  | none => trivial
  | some decision =>
    refine (ends_any _ s₃).bind ?_
    intro s₄ s₅ _
    refine (ends_any _ s₅).bind ?_
    intro evidences s₆ _
    refine (ends_any _ s₆).bind ?_
    intro _ s₇ _
    exact ⟨_, rfl⟩

theorem getDecisionDetail_fields {detail : Json}
    (h : (getDecisionDetail lib tenantId decisionId auth w).1 = .ok detail) :
    ∃ kwargs, detail = .obj (construct DecisionDetail.fields kwargs) := by
  unfold getDecisionDetail runSession at h
  rcases hx : exec (getDecisionBody lib tenantId decisionId auth) (Session.open w) with ⟨r | r, t⟩
  · rw [hx] at h
    cases h
  · rw [hx] at h
    obtain rfl : r = detail := Except.ok.inj h
    exact (getDecisionBody_ends _).ok hx

/-- The client posts no token, as the detail view shows none. -/
theorem resolveBody_updatedAt {detail : Json} (state reason : String)
    (h : (getDecisionDetail lib tenantId decisionId auth w).1 = .ok detail) :
    (resolveBody detail state reason).member "updated_at" = none := by
  obtain ⟨kwargs, rfl⟩ := getDecisionDetail_fields h
  have hnone : (Json.obj (construct DecisionDetail.fields kwargs)).member "updated_at" = none := by
    simp only [Json.member, construct_lookup]
    rfl
  simp only [resolveBody, hnone]
  rfl

theorem parseResolveRequest_none {body : Json} (h : body.member "updated_at" = none) :
    lib.parseResolveRequest body = none := by
  simp only [TriageLibrary.parseResolveRequest, h, Option.bind_eq_bind, Option.bind_none,
    Option.bind_fun_none, Option.bind_eq_none_iff]
  intro disposition _
  split <;> rfl

theorem evidenceDetail_ok {evidence : Evidence}
    (hurl : ∀ key, ∃ url, lib.presignedGetUrl key = .ok url)
    (hvlm : ∃ members, lib.vlmResult evidence.id = .obj members) :
    ∃ detail, lib.evidenceDetail evidence = .ok detail := by
  obtain ⟨members, hm⟩ := hvlm
  have hplay : ∃ value, lib.playbackUrl evidence.frameStorageUri = .ok value := by
    unfold TriageLibrary.playbackUrl
    split
    · obtain ⟨url, hu⟩ := hurl (String.ofList (lastPiece 3 evidence.frameStorageUri.toList))
      exact ⟨.str url, by rw [hu]; rfl⟩
    · exact ⟨.null, rfl⟩
  obtain ⟨value, hv⟩ := hplay
  exact ⟨_, by simp only [TriageLibrary.evidenceDetail, hv, hm, bind, Except.bind]; rfl⟩

/-- A watcher of the tenant sees the decision, if the storage answers. -/
theorem getDecisionDetail_ok {sub : String} {d : Decision}
    (hd : w.db.decisions.find decisionId = some d) (hten : d.tenantId = tenantId)
    (hurl : ∀ key, ∃ url, lib.presignedGetUrl key = .ok url)
    (hvlm : ∀ id, ∃ members, lib.vlmResult id = .obj members) :
    ∃ detail, (getDecisionDetail lib tenantId decisionId ⟨sub, some tenantId, .watcher⟩ w).1 =
      .ok detail := by
  have hend : Ends (getDecisionBody lib tenantId decisionId ⟨sub, some tenantId, .watcher⟩)
      (Session.open w) (fun _ _ => True) (fun _ _ => False) := by
    obtain ⟨details, hm⟩ := @mapM_returns _ _ _ lib.evidenceDetail
      (Session.evidencesOf ⟨w, w.db, some tenantId, some .watcher⟩ d)
      fun evidence _ => evidenceDetail_ok hurl (hvlm evidence.id)
    simp [getDecisionBody, openTenantDb_ends, requireRole, getDecision, Session.sees, hd, hten,
      Option.filter_some, hm, commit, -bind_pure_comp]
  unfold getDecisionDetail runSession
  rcases hx : exec (getDecisionBody lib tenantId decisionId ⟨sub, some tenantId, .watcher⟩)
    (Session.open w) with ⟨e | detail, t⟩
  · exact (hend.error hx).elim
  · exact ⟨detail, rfl⟩

theorem ofValue_value (disposition : FeedbackDisposition) :
    FeedbackDisposition.ofValue disposition.value = some disposition := by
  cases disposition <;> decide

theorem parseResolveRequest_resolveBody {view token : Json} {updatedAt : Int}
    (hview : view.member "updated_at" = some token) (hparse : lib.parseDatetime token = some updatedAt)
    (disposition : FeedbackDisposition) (reasoning : String) :
    lib.parseResolveRequest (resolveBody view disposition.value reasoning) =
      some ⟨disposition, reasoning, updatedAt⟩ := by
  have hbody : resolveBody view disposition.value reasoning =
      .obj [("disposition", .str disposition.value), ("reasoning", .str reasoning),
        ("updated_at", token)] := by
    simp [resolveBody, hview]
  have hdisposition : (resolveBody view disposition.value reasoning).member "disposition" =
      some (.str disposition.value) := by
    rw [hbody]
    rfl
  have hreasoning : (resolveBody view disposition.value reasoning).member "reasoning" =
      some (.str reasoning) := by
    rw [hbody]
    rfl
  have hupdated : (resolveBody view disposition.value reasoning).member "updated_at" =
      some token := by
    rw [hbody]
    rfl
  simp [TriageLibrary.parseResolveRequest, hdisposition, hreasoning, hupdated, ofValue_value,
    ResolveDecisionRequest.parseReasoning, hparse]

/-- What the client posts for a view that carries the token of the row is accepted. -/
theorem resolve_with_token {sub reasoning : String} {disposition : FeedbackDisposition}
    {view : Json} {d : Decision}
    (hview : view.member "updated_at" = some (.str (lib.dumpDatetime d.updatedAt)))
    (hparse : lib.parseDatetime (.str (lib.dumpDatetime d.updatedAt)) = some d.updatedAt)
    (hd : w.db.decisions.find decisionId = some d) (hten : d.tenantId = tenantId)
    (hopen : d.state.resolved = false)
    (hfeedback : (w.db.feedback.any fun f => f.decisionId = d.id) = false)
    (hreason : blank reasoning = false) :
    (postResolve lib tenantId decisionId ⟨sub, some tenantId, .watcher⟩ clock now
      (resolveBody view disposition.value reasoning) w).2.stateOf decisionId =
        some (dispositionToState disposition) := by
  simp only [postResolve, parseResolveRequest_resolveBody hview hparse]
  generalize hcall : (⟨tenantId, decisionId, ⟨disposition, reasoning, d.updatedAt⟩,
    ⟨sub, some tenantId, .watcher⟩, clock, now, none⟩ : ResolveCall) = call
  have hvalid : call.body.requireReasoningForFpFn = true := by
    subst hcall
    cases disposition <;> simp [ResolveDecisionRequest.requireReasoningForFpFn, hreason]
  have hacc : Accepted call w d := by
    subst hcall
    exact ⟨Or.inl rfl, rfl, hvalid, hd, hten, rfl, hopen⟩
  have hid : d.id = decisionId := w.db.decisions.keyed _ _ hd
  have hraises : call.raisesAt = none := by
    subst hcall
    rfl
  have hresolved := resolveDecision_commits hraises hacc hfeedback
  rw [World.stateOf, hresolved.find, if_pos hid.symm, Option.map_some, resolvedRow_state, ← hcall]

/-- What a watcher sees of a decision resolves it: the detail view answers, the client posts the
token it carries, and the decision ends in the state of the disposition. -/
def ResolvesDetail (lib : TriageLibrary) (tenantId decisionId : Uuid) (auth : AuthContext)
    (disposition : FeedbackDisposition) (reasoning : String) (clock now : Int) (w : World) : Prop :=
  ∃ detail, (getDecisionDetail lib tenantId decisionId auth w).1 = .ok detail ∧
    ∃ response w', postResolve lib tenantId decisionId auth clock now
        (resolveBody detail disposition.value reasoning) w = (.ok response, w') ∧
      w'.stateOf decisionId = some (dispositionToState disposition)

/-- No decision can be resolved with what its detail view carries: the request has no
`updated_at`, fails its validation and changes nothing. -/
theorem detail_never_resolves (lib : TriageLibrary) (tenantId decisionId : Uuid) (sub : String)
    (disposition : FeedbackDisposition) (reasoning : String) (clock now : Int) (w : World) :
    ¬ResolvesDetail lib tenantId decisionId ⟨sub, some tenantId, .watcher⟩ disposition reasoning
        clock now w ∧
      ∀ detail, (getDecisionDetail lib tenantId decisionId ⟨sub, some tenantId, .watcher⟩ w).1 =
        .ok detail →
        postResolve lib tenantId decisionId ⟨sub, some tenantId, .watcher⟩ clock now
          (resolveBody detail disposition.value reasoning) w =
            (.error (.httpException 422 "Request validation failed"), w) := by
  have hpost : ∀ detail, (getDecisionDetail lib tenantId decisionId
      ⟨sub, some tenantId, .watcher⟩ w).1 = .ok detail →
      postResolve lib tenantId decisionId ⟨sub, some tenantId, .watcher⟩ clock now
        (resolveBody detail disposition.value reasoning) w =
          (.error (.httpException 422 "Request validation failed"), w) := by
    intro detail hdetail
    have hnone := @parseResolveRequest_none lib _
      (resolveBody_updatedAt disposition.value reasoning hdetail)
    simp only [postResolve, hnone]
    have hend : Ends (rejectResolveBody tenantId ⟨sub, some tenantId, .watcher⟩)
        (Session.open w) (fun _ _ => False)
        (fun e t => e = .httpException 422 "Request validation failed" ∧ t.world = w) := by
      simp [rejectResolveBody, openTenantDb_ends, requireRole]
    unfold runSession
    rcases hx : exec (rejectResolveBody tenantId ⟨sub, some tenantId, .watcher⟩)
      (Session.open w) with ⟨e | r, t⟩
    · obtain ⟨rfl, rfl⟩ := hend.error hx
      rfl
    · exact (hend.ok hx).elim
  refine ⟨?_, hpost⟩
  intro h
  obtain ⟨detail, hdetail, response, w', hresponse, -⟩ := h
  rw [hpost detail hdetail] at hresponse
  cases hresponse

/-- The library on the instants of the run below. -/
def sampleTriage : TriageLibrary where
  dumpDatetime := fun t =>
    if t = 0 then "1970-01-01T00:00:00Z"
    else if t = seconds 60 then "1970-01-01T00:01:00Z"
    else "1970-01-01T00:00:00.000007Z"
  parseDatetime := fun value =>
    match value with
    | .str "1970-01-01T00:00:00Z" => some 0
    | .str "1970-01-01T00:01:00Z" => some (seconds 60)
    | .str "1970-01-01T00:00:00.000007Z" => some 7
    | _ => none
  presignedGetUrl := fun key => .ok ("https://storage/" ++ key)
  vlmResult := fun _ => .obj [("reasoning", .str "a person at the door")]

/-- One decision, created by one evidence. -/
def detailRun : List Request :=
  [.aggregate (sampleAggregate 11 20)]

def detailWorld : World :=
  detailRun.foldl serve (sampleWorld [sampleEvidence 11 none 4])

theorem not_always_resolvesDetail : ¬∀ (w₀ w : World) (rs : List Request) (d : Decision)
    (disposition : FeedbackDisposition) (reasoning : String) (clock now : Int), w₀.Initial →
    Run Served w₀ rs w → w.db.decisions.find d.id = some d → d.state.resolved = false →
    (w.db.feedback.any fun f => f.decisionId = d.id) = false → blank reasoning = false →
    ResolvesDetail sampleTriage d.tenantId d.id ⟨"watcher", some d.tenantId, .watcher⟩ disposition
      reasoning clock now w := by
  intro h
  have hrun : Run Served _ detailRun detailWorld := run_serve _ _
  obtain ⟨d, hd⟩ := Option.isSome_iff_exists.mp
    (by decide +kernel : (detailWorld.db.decisions.find ⟨20⟩).isSome = true)
  have hid := KeyedTable.keyed _ _ _ hd
  have hopen : ∀ d ∈ detailWorld.db.decisions.find ⟨20⟩, d.state.resolved = false := by
    decide +kernel
  exact (detail_never_resolves sampleTriage d.tenantId d.id "watcher" .truePositive "seen" 8 8 _).1
    (h _ _ _ d .truePositive "seen" 8 8 (sampleWorld_initial _) hrun (hid ▸ hd) (hopen d hd)
      rfl (by decide))

/-- The view of the decision answers, the request posted from it does not pass. -/
theorem detail_never_resolves_sample : ∃ detail,
    (getDecisionDetail sampleTriage ⟨1⟩ ⟨20⟩ ⟨"watcher", some ⟨1⟩, .watcher⟩ detailWorld).1 =
      .ok detail ∧
    postResolve sampleTriage ⟨1⟩ ⟨20⟩ ⟨"watcher", some ⟨1⟩, .watcher⟩ 8 8
      (resolveBody detail "true_positive" "seen") detailWorld =
        (.error (.httpException 422 "Request validation failed"), detailWorld) := by
  obtain ⟨d, hd⟩ := Option.isSome_iff_exists.mp
    (by decide +kernel : (detailWorld.db.decisions.find ⟨20⟩).isSome = true)
  have hten : ∀ d ∈ detailWorld.db.decisions.find ⟨20⟩, d.tenantId = ⟨1⟩ := by decide +kernel
  obtain ⟨detail, hdetail⟩ := @getDecisionDetail_ok sampleTriage _ _ _ "watcher" d hd (hten d hd)
    (fun _ => ⟨_, rfl⟩) fun _ => ⟨_, rfl⟩
  exact ⟨detail, hdetail, (detail_never_resolves sampleTriage ⟨1⟩ ⟨20⟩ "watcher" .truePositive
    "seen" 8 8 detailWorld).2 detail hdetail⟩

end ArgusServices

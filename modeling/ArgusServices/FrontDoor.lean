import ArgusServices.AdminApi
import ArgusServices.Pipeline
import ArgusServices.TokenClaims

namespace ArgusServices

open Transition

/-- What `get_auth_context` reads of a request. -/
structure HttpRequest where
  credentials : Option Auth.HTTPAuthorizationCredentials
  cookie : Option String

/-- The token library with `AUTH0_USE_MOCK`. -/
structure Door where
  library : Auth.Library
  auth0UseMock : Bool

/-- The bearer token, or in mock mode the cookie of the development login. -/
def HttpRequest.token (request : HttpRequest) (auth0UseMock : Bool) : Option String :=
  let cookie := if auth0UseMock then request.cookie else none
  match request.credentials with
  | none => cookie
  | some given => if given.scheme.toLower = "bearer" then some given.credentials else cookie

def getAuthContext (door : Door) (request : HttpRequest) : Except Exn Auth.AuthContext :=
  match truthy (request.token door.auth0UseMock) with
  | none => .error (.httpException 401 "Missing bearer token")
  | some token => Auth.authContextFromToken door.library token

/-- The requests of devices and users, and what goes on behind the routes. -/
inductive ApiMove
  | ingestSequence (credentials : Option Auth.HTTPAuthorizationCredentials) (call : IngestCall)
      (replies : List Effect.Reply) (entryId : String)
  | resolveDecision (request : HttpRequest) (call : ResolveCall)
  | admin (request : HttpRequest) (call : AdminCall)
  | work (move : PipelineMove)

/-- The moves of workers and of Redis. -/
def PipelineMove.inside : PipelineMove → Bool
  | .accept .. | .resolve _ | .admin _ => false
  | _ => true

def Pipeline.ingestSequence (door : Door) (texts : FieldTexts) (p : Pipeline)
    (credentials : Option Auth.HTTPAuthorizationCredentials) (call : IngestCall)
    (replies : List Effect.Reply) (entryId : String) : Pipeline :=
  match Auth.getEdgeAuthContext door.library credentials with
  | .error _ => p
  | .ok auth => p.accept texts { call with auth := ⟨auth.tenantId, auth.cameraId⟩ } replies entryId

/-- A subject that is no text does not go into the text columns of the rows it would sign. -/
def Pipeline.resolveDecision (door : Door) (p : Pipeline) (request : HttpRequest)
    (call : ResolveCall) : Pipeline :=
  match getAuthContext door request with
  | .error _ => p
  | .ok auth =>
    match auth.sub with
    | .str sub => p.resolve { call with auth := ⟨sub, auth.tenantId, auth.role⟩ }
    | _ => p

/-- No row of the configuration names the subject. -/
def System.adminRequest (door : Door) (s : System) (request : HttpRequest) (call : AdminCall) :
    System :=
  match getAuthContext door request with
  | .error _ => s
  | .ok auth => s.admin { call with auth := ⟨call.auth.sub, auth.tenantId, auth.role⟩ }

def Pipeline.handle (door : Door) (lib : AnalyzerLibrary) (texts : FieldTexts) (p : Pipeline) :
    ApiMove → Pipeline
  | .ingestSequence credentials call replies entryId =>
    p.ingestSequence door texts credentials call replies entryId
  | .resolveDecision request call => p.resolveDecision door request call
  | .admin request call => { p with system := p.system.adminRequest door request call }
  | .work move => p.next lib texts move

/-- Any request may come; behind the routes a worker takes a task that waits for it. -/
def Pipeline.admits (p : Pipeline) : ApiMove → Prop
  | .work move => move.inside = true ∧ p.enabled move
  | _ => True

def Handling (door : Door) (lib : AnalyzerLibrary) (texts : FieldTexts) (p : Pipeline)
    (m : ApiMove) (q : Pipeline) : Prop :=
  p.admits m ∧ q = p.handle door lib texts m

/-- The token of a device: of the client credentials flow, naming a camera and its tenant. -/
def DeviceToken (door : Door) (credentials : Option Auth.HTTPAuthorizationCredentials)
    (tenantId cameraId : Uuid) : Prop :=
  ∃ given claims, credentials = some given ∧
    Auth.readClaims door.library given.credentials = .ok claims ∧
    claims.gty = .str "client-credentials" ∧
    Auth.Names door.library claims.tenantId tenantId ∧
    Auth.Names door.library claims.cameraId cameraId

/-- The token of a user with a role; one that is no root administrator is of a tenant. -/
def UserToken (door : Door) (request : HttpRequest) (role : UserRole) (tenantId : Uuid)
    (sub : Json) : Prop :=
  ∃ token claims, request.token door.auth0UseMock = some token ∧
    Auth.readClaims door.library token = .ok claims ∧ claims.sub = sub ∧
    claims.role = .str role.value ∧
    (role ≠ .rootAdmin → Auth.Names door.library claims.tenantId tenantId)

variable {door : Door} {t : Uuid}

/-- A device of the camera has sent the sequence. -/
def SentBy (door : Door) (ms : List ApiMove) (tenantId cameraId ingestionId : Uuid) : Prop :=
  ∃ credentials call replies entryId, .ingestSequence credentials call replies entryId ∈ ms ∧
    call.request.ingestionId = ingestionId ∧ DeviceToken door credentials tenantId cameraId

/-- A watcher or an administrator of the tenant has asked to resolve the decision so. -/
def ResolvedBy (door : Door) (ms : List ApiMove) (tenantId decisionId : Uuid)
    (disposition : FeedbackDisposition) (sub : String) : Prop :=
  ∃ request call role, .resolveDecision request call ∈ ms ∧ call.tenantId = tenantId ∧
    call.decisionId = decisionId ∧ call.body.disposition = disposition ∧
    (role = .watcher ∨ role = .tenantAdmin) ∧ UserToken door request role tenantId (.str sub)

/-- An administrator of the tenant or a root administrator has asked for a row of the tenant, which
got the id. -/
def ConfiguredBy (door : Door) (ms : List ApiMove) (tenantId id : Uuid) : Prop :=
  ∃ request call role sub, .admin request call ∈ ms ∧ call.tenantId = tenantId ∧ call.newId = id ∧
    (role = .tenantAdmin ∨ role = .rootAdmin) ∧ UserToken door request role tenantId sub

theorem contextOfClaims_role {lib : Auth.Library} {token : String} {claims : Auth.StandardClaims}
    {auth : Auth.AuthContext} (h : Auth.contextOfClaims lib token claims = .ok auth) :
    auth.sub = claims.sub ∧ claims.role = .str auth.role.value := by
  unfold Auth.contextOfClaims at h
  obtain ⟨role, hrole, h⟩ := Effect.bind_eq_ok.mp h
  obtain ⟨tenantId, -, h⟩ := Effect.bind_eq_ok.mp h
  obtain ⟨cameraId, -, h⟩ := Effect.bind_eq_ok.mp h
  cases h
  exact ⟨rfl, Auth.parseRole_eq_ok.mp hrole⟩

/-- Who is let in holds a token, with the role and the tenant it is let in with. -/
theorem getAuthContext_eq_ok {request : HttpRequest} {auth : Auth.AuthContext}
    (h : getAuthContext door request = .ok auth)
    (ht : auth.role ≠ .rootAdmin → auth.tenantId = some t) :
    UserToken door request auth.role t auth.sub := by
  unfold getAuthContext at h
  split at h
  · cases h
  next token htoken =>
    obtain ⟨claims, hread, hcontext⟩ := Effect.bind_eq_ok.mp h
    obtain ⟨hsub, hrole⟩ := contextOfClaims_role hcontext
    obtain ⟨hgiven, -⟩ := Option.filter_eq_some_iff.mp htoken
    refine ⟨token, claims, hgiven, hread, hsub.symm, hrole, ?_⟩
    intro hroot
    have htenant := ht hroot
    rcases Auth.contextOfClaims_eq_ok hcontext with ⟨hnone, -⟩ | ⟨id, hid, hnames⟩
    · simp [hnone] at htenant
    · obtain rfl := Option.some.inj (hid.symm.trans htenant)
      exact hnames

theorem getEdgeAuthContext_device {credentials : Option Auth.HTTPAuthorizationCredentials}
    {auth : Auth.EdgeAuthContext}
    (h : Auth.getEdgeAuthContext door.library credentials = .ok auth) :
    DeviceToken door credentials auth.tenantId auth.cameraId := by
  unfold Auth.getEdgeAuthContext at h
  cases credentials with
  | none => cases h
  | some given =>
    simp only at h
    split at h
    · cases h
    · obtain ⟨claims, hread, h⟩ := Effect.bind_eq_ok.mp h
      have htenant := Auth.edgeContextOfClaims_eq_ok h
      unfold Auth.edgeContextOfClaims at h
      split at h
      · cases h
      next hgty =>
        split at h
        · cases h
        next hthere =>
          obtain ⟨tenantId, -, h⟩ := Effect.bind_eq_ok.mp (Auth.catching_eq_ok.mp h)
          obtain ⟨cameraId, hcamera, h⟩ := Effect.bind_eq_ok.mp h
          cases h
          rw [Bool.or_eq_true, not_or] at hthere
          have htruthy : claims.cameraId.truthy = true := by simpa using hthere.2
          refine ⟨given, claims, rfl, hread, ?_, htenant, (Auth.toUuid_eq_ok htruthy).mp hcamera⟩
          exact Json.eq_str.mp (by simpa using hgty)

end ArgusServices

import ArgusServices.Triage

namespace ArgusServices

/-- The claims `validate_jwt` returns. -/
structure Claims where
  sub : String
  tenantId : Option String
  role : Option String
  cameraId : Option String
  deriving DecidableEq, Repr

/-- `UserRole(value)`; `none` is the ValueError. -/
def UserRole.ofValue (value : String) : Option UserRole :=
  [UserRole.rootAdmin, .tenantAdmin, .watcher].find? fun role => role.value = value

def parseRole (value : Option String) : Except Exn UserRole :=
  match value with
  | none => .error (.httpException 401 "Missing role claim")
  | some value =>
    match UserRole.ofValue value with
    | none => .error (.httpException 401 ("Invalid role claim: " ++ value))
    | some role => .ok role

/-- A root administrator may come without a tenant, and its malformed tenant is not handled. -/
def parseTenantId (value : Option String) (role : UserRole) : Except Exn (Option Uuid) :=
  if role = .rootAdmin then
    match truthy value with
    | none => .ok none
    | some value =>
      match Uuid.parse value with
      | none => .error (.valueError "badly formed hexadecimal UUID string")
      | some id => .ok (some id)
  else
    match truthy value with
    | none => .error (.httpException 401 "Missing tenant_id claim")
    | some value =>
      match Uuid.parse value with
      | none => .error (.httpException 401 "Invalid tenant_id claim")
      | some id => .ok (some id)

def parseCameraId (value : Option String) : Except Exn (Option Uuid) :=
  match truthy value with
  | none => .ok none
  | some value =>
    match Uuid.parse value with
    | none => .error (.httpException 401 "Invalid camera_id claim")
    | some id => .ok (some id)

/-- `_auth_context_from_token`; without claims the token is invalid. -/
def authContextFromToken (claims : Option Claims) : Except Exn AuthContext :=
  match claims with
  | none => .error (.httpException 401 "Invalid token")
  | some claims => do
    let role ← parseRole claims.role
    let tenantId ← parseTenantId claims.tenantId role
    let _ ← parseCameraId claims.cameraId
    pure ⟨claims.sub, tenantId, role⟩

/-- How `triage_websocket` goes on once it has looked at the token. -/
inductive Handshake
  | close (code : Nat) (reason : String)
  | connect (auth : AuthContext) (tenantId : Uuid)
  deriving DecidableEq, Repr

/-- `triage_websocket` up to its call of `connect`. -/
def triageWebsocket (validateJwt : String → Option Claims) (token cookie : Option String) :
    Except Exn Handshake :=
  match truthy ((truthy token).or cookie) with
  | none => .ok (.close 4001 "Missing token")
  | some token =>
    match validateJwt token with
    | none => .ok (.close 4001 "Invalid token")
    | some claims =>
      if claims.role ∉ [some UserRole.watcher.value, some UserRole.tenantAdmin.value] then
        .ok (.close 4003 "Insufficient role")
      else do
        let auth ← authContextFromToken (some claims)
        match auth.tenantId with
        | none => pure (.close 4003 "Missing tenant_id")
        | some tenantId => pure (.connect auth tenantId)

/-- A websocket goes to the room of the tenant its token names. -/
theorem triageWebsocket_connect {validateJwt : String → Option Claims}
    {token cookie : Option String} {auth : AuthContext} {tenantId : Uuid}
    (h : triageWebsocket validateJwt token cookie = .ok (.connect auth tenantId)) :
    auth.tenantId = some tenantId := by
  unfold triageWebsocket at h
  split at h
  · cases h
  · split at h
    · cases h
    · split at h
      · cases h
      · obtain ⟨auth', -, h⟩ := Effect.bind_eq_ok.mp h
        split at h
        · cases h
        next hten =>
          cases h
          exact hten

end ArgusServices

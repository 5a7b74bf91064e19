import ArgusServices.ClientFrames
import ArgusServices.ScoringSpec
import ArgusServices.Token
import Mathlib.Data.List.DropRight

namespace ArgusServices

namespace Auth

open Effect

inductive JwtError
  | expiredSignature | invalidToken
  deriving DecidableEq, Repr

/-- What the code calls and reads: `jwt.decode` with the settings, the namespace of the claims,
`UUID(text)` with `none` as its ValueError, and how a value is written that is no text. -/
structure Library where
  decode : String → Except JwtError Members
  claimsNamespace : String
  uuid : String → Option Uuid
  repr : Json → String

/-- The claims as `extract_standard_claims` returns them, with null for None. -/
structure StandardClaims where
  sub : Json
  tenantId : Json
  role : Json
  cameraId : Json
  gty : Json

structure AuthContext where
  sub : Json
  tenantId : Option Uuid
  role : UserRole
  token : String
  cameraId : Option Uuid

structure EdgeAuthContext where
  sub : Json
  tenantId : Uuid
  cameraId : Uuid
  token : String

structure HTTPAuthorizationCredentials where
  scheme : String
  credentials : String

/-- `_claim`: a plain claim is taken even when it is null. -/
def claim (lib : Library) (payload : Members) (name : String) : Json :=
  let ns := String.ofList (lib.claimsNamespace.toList.rdropWhile fun c => c = '/')
  match payload.lookup name with
  | some value => value
  | none => payload.item (ns ++ "/" ++ name)

def extractStandardClaims (lib : Library) (payload : Members) : StandardClaims where
  sub := (payload.lookup "sub").getD (.str "")
  tenantId := claim lib payload "tenant_id"
  role := claim lib payload "role"
  cameraId := claim lib payload "camera_id"
  gty := payload.item "gty"

def validateJwt (lib : Library) (token : String) : Except JwtError StandardClaims :=
  (lib.decode token).map (extractStandardClaims lib)

/-- The call of `validate_jwt` with its except clauses. -/
def readClaims (lib : Library) (token : String) : Except Exn StandardClaims :=
  match validateJwt lib token with
  | .error .expiredSignature => .error (.httpException 401 "Token expired")
  | .error .invalidToken => .error (.httpException 401 "Invalid token")
  | .ok claims => .ok claims

/-- `UUID(value)`, which replaces the prefixes of a text before it reads the digits. -/
def toUuid (lib : Library) : Json → Except Exn Uuid
  | .null => .error (.typeError
      "one of the hex, bytes, bytes_le, fields, or int arguments must be given")
  | .str text =>
    match lib.uuid text with
    | none => .error (.valueError "badly formed hexadecimal UUID string")
    | some id => .ok id
  | value => .error (.attributeError
      ("'" ++ value.typeName ++ "' object has no attribute 'replace'"))

def isValueError : Exn → Bool
  | .valueError _ => true
  | _ => false

def isTypeOrValueError : Exn → Bool
  | .typeError _ | .valueError _ => true
  | _ => false

/-- `try` with an except clause that answers 401. -/
def catching {α : Type} (caught : Exn → Bool) (detail : String) : Except Exn α → Except Exn α
  | .error e => if caught e then .error (.httpException 401 detail) else .error e
  | .ok a => .ok a

/-- `_parse_role`; a value that is no text is of no role. -/
def parseRole (lib : Library) : Json → Except Exn UserRole
  | .null => .error (.httpException 401 "Missing role claim")
  | .str text =>
    match UserRole.ofValue text with
    | none => .error (.httpException 401 ("Invalid role claim: " ++ text))
    | some role => .ok role
  | value => .error (.httpException 401 ("Invalid role claim: " ++ lib.repr value))

/-- `_parse_tenant_id`; nothing is caught for a root administrator. -/
def parseTenantId (lib : Library) (value : Json) (role : UserRole) : Except Exn (Option Uuid) :=
  if role = .rootAdmin then
    if value.truthy then some <$> toUuid lib value else .ok none
  else if value.truthy then
    some <$> catching isValueError "Invalid tenant_id claim" (toUuid lib value)
  else .error (.httpException 401 "Missing tenant_id claim")

def parseCameraId (lib : Library) (value : Json) : Except Exn (Option Uuid) :=
  catching isTypeOrValueError "Invalid camera_id claim"
    (if value.truthy then some <$> toUuid lib value else .ok none)

/-- `_auth_context_from_token` once it has the claims. -/
def contextOfClaims (lib : Library) (token : String) (claims : StandardClaims) :
    Except Exn AuthContext := do
  let role ← parseRole lib claims.role
  let tenantId ← parseTenantId lib claims.tenantId role
  let cameraId ← parseCameraId lib claims.cameraId
  pure ⟨claims.sub, tenantId, role, token, cameraId⟩

def authContextFromToken (lib : Library) (token : String) : Except Exn AuthContext :=
  readClaims lib token >>= contextOfClaims lib token

/-- `get_edge_auth_context` once it has the claims. -/
def edgeContextOfClaims (lib : Library) (token : String) (claims : StandardClaims) :
    Except Exn EdgeAuthContext :=
  if claims.gty.eq (.str "client-credentials") = false then
    .error (.httpException 401 "M2M client credentials token required")
  else if !claims.tenantId.truthy || !claims.cameraId.truthy then
    .error (.httpException 401 "Missing tenant_id or camera_id claim")
  else
    catching isValueError "Invalid tenant_id or camera_id claim" do
      let tenantId ← toUuid lib claims.tenantId
      let cameraId ← toUuid lib claims.cameraId
      pure ⟨claims.sub, tenantId, cameraId, token⟩

def getEdgeAuthContext (lib : Library) (credentials : Option HTTPAuthorizationCredentials) :
    Except Exn EdgeAuthContext :=
  match credentials with
  | none => .error (.httpException 401 "Missing bearer token")
  | some given =>
    if given.scheme.toLower ≠ "bearer" then
      .error (.httpException 401 "Missing bearer token")
    else readClaims lib given.credentials >>= edgeContextOfClaims lib given.credentials

/-- What is raised, if anything, is an HTTPException with status 401. -/
def Answers {α : Type} (result : Except Exn α) : Prop :=
  ∀ e, result = .error e → ∃ detail, e = .httpException 401 detail

/-- The claim is a text that `UUID` reads. -/
def Names (lib : Library) (value : Json) (id : Uuid) : Prop :=
  ∃ text, value = .str text ∧ text ≠ "" ∧ lib.uuid text = some id

/-- The claims of a user that are read as UUIDs are missing or texts; of a root administrator the
tenant also has to be well formed. The camera only counts once the tenant is read. -/
structure UserReads (lib : Library) (claims : StandardClaims) (role : UserRole) : Prop where
  wellFormed : role = .rootAdmin → claims.tenantId.truthy = true →
    ∃ id, Names lib claims.tenantId id
  tenant : claims.tenantId.truthy = true → ∃ text, claims.tenantId = .str text
  camera : (∃ id, Names lib claims.tenantId id) ∨
      role = .rootAdmin ∧ claims.tenantId.truthy = false →
    claims.cameraId.truthy = true → ∃ text, claims.cameraId = .str text

/-- A token without a role is answered before its other claims are read. -/
def UserHandled (lib : Library) (claims : StandardClaims) : Prop :=
  ∀ role, claims.role = .str (UserRole.value role) → UserReads lib claims role

def EdgeHandled (lib : Library) (claims : StandardClaims) : Prop :=
  claims.gty = .str "client-credentials" → claims.tenantId.truthy = true →
    claims.cameraId.truthy = true → (∃ text, claims.tenantId = .str text) ∧
      ((∃ id, Names lib claims.tenantId id) → ∃ text, claims.cameraId = .str text)

variable {α β : Type} {lib : Library} {claims : StandardClaims} {value : Json} {role : UserRole}
  {token detail : String} {caught : Exn → Bool}

theorem answers_ok (a : α) : Answers (.ok a : Except Exn α) := by
  intro e h
  cases h

theorem answers_unauthorized (detail : String) :
    Answers (.error (.httpException 401 detail) : Except Exn α) := by
  intro e h
  cases h
  exact ⟨detail, rfl⟩

theorem answers_bind {x : Except Exn α} {f : α → Except Exn β} :
    Answers (x >>= f) ↔ Answers x ∧ ∀ a, x = .ok a → Answers (f a) := by
  cases x with
  | error e =>
    constructor
    · intro h
      refine ⟨?_, ?_⟩
      · intro e' he
        cases he
        exact h e rfl
      · intro a ha
        cases ha
    · intro h e' he
      cases he
      exact h.1 e rfl
  | ok a =>
    constructor
    · intro h
      refine ⟨answers_ok a, ?_⟩
      intro b hb
      cases hb
      exact h
    · intro h
      exact h.2 a rfl

theorem answers_map {x : Except Exn α} (f : α → β) : Answers (f <$> x) ↔ Answers x := by
  cases x with
  | error e =>
    constructor
    · intro h e' he
      cases he
      exact h e rfl
    · intro h e' he
      cases he
      exact h e rfl
  | ok a => exact ⟨fun _ => answers_ok a, fun _ => answers_ok (f a)⟩

theorem catching_caught {e : Exn} (h : caught e = true) :
    (catching caught detail (.error e) : Except Exn α) = .error (.httpException 401 detail) :=
  if_pos h

theorem catching_raised {e : Exn} (h : caught e = false) :
    (catching caught detail (.error e) : Except Exn α) = .error e :=
  if_neg (Bool.not_eq_true _ ▸ h)

theorem catching_eq_ok {x : Except Exn α} {a : α} : catching caught detail x = .ok a ↔
    x = .ok a := by
  cases x with
  | error e => cases h : caught e <;> simp [catching, h]
  | ok b => rfl

theorem catching_map {x : Except Exn α} (f : α → β) :
    catching caught detail (f <$> x) = f <$> catching caught detail x := by
  cases x with
  | error e => cases h : caught e <;> simp [catching, h]
  | ok a => rfl

theorem answers_catching {x : Except Exn α} : Answers (catching caught detail x) ↔
    ∀ e, x = .error e → caught e = false → ∃ detail, e = .httpException 401 detail := by
  cases x with
  | ok a =>
    constructor
    · intro _ e he
      cases he
    · intro _
      exact answers_ok a
  | error e =>
    cases hcaught : caught e with
    | true =>
      rw [catching_caught hcaught]
      constructor
      · intro _ e' he hfalse
        cases he
        rw [hcaught] at hfalse
        cases hfalse
      · intro _
        exact answers_unauthorized detail
    | false =>
      rw [catching_raised hcaught]
      constructor
      · intro h e' he _
        cases he
        exact h e rfl
      · intro h e' he
        cases he
        exact h e rfl hcaught

/-- `UUID` of a value that is there reads it, raises a ValueError on a text and an AttributeError on
anything else. -/
theorem toUuid_cases (lib : Library) (h : value.truthy = true) :
    (∃ id, Names lib value id ∧ toUuid lib value = .ok id) ∨
      ((∃ text, value = .str text) ∧ (¬∃ id, Names lib value id) ∧
        ∃ message, toUuid lib value = .error (.valueError message)) ∨
      ((¬∃ text, value = .str text) ∧
        ∃ message, toUuid lib value = .error (.attributeError message)) := by
  cases value with
  | null => cases h
  | str text =>
    have hne : text ≠ "" := of_decide_eq_true h
    cases hread : lib.uuid text with
    | some id =>
      left
      refine ⟨id, ⟨text, rfl, hne, hread⟩, ?_⟩
      simp only [toUuid, hread]
    | none =>
      right
      left
      refine ⟨⟨text, rfl⟩, ?_, "badly formed hexadecimal UUID string", ?_⟩
      · rintro ⟨id, other, heq, -, hother⟩
        cases heq
        rw [hread] at hother
        cases hother
      · simp only [toUuid, hread]
  | _ =>
    right
    right
    refine ⟨?_, _, rfl⟩
    rintro ⟨text, heq⟩
    cases heq

theorem Names.isText {id : Uuid} (h : Names lib value id) : ∃ text, value = .str text := by
  obtain ⟨text, heq, -⟩ := h
  exact ⟨text, heq⟩

theorem Names.truthy {id : Uuid} (h : Names lib value id) : value.truthy = true := by
  obtain ⟨text, rfl, hne, -⟩ := h
  exact decide_eq_true hne

theorem toUuid_eq_ok (h : value.truthy = true) {id : Uuid} :
    toUuid lib value = .ok id ↔ Names lib value id := by
  constructor
  · intro hok
    rcases toUuid_cases lib h with ⟨other, hnames, hother⟩ | ⟨-, -, message, herror⟩ |
      ⟨-, message, herror⟩
    · rw [hok] at hother
      cases hother
      exact hnames
    · rw [hok] at herror
      cases herror
    · rw [hok] at herror
      cases herror
  · rintro ⟨text, rfl, -, hread⟩
    simp only [toUuid, hread]

theorem answers_toUuid (h : value.truthy = true) :
    Answers (toUuid lib value) ↔ ∃ id, Names lib value id := by
  constructor
  · intro hanswers
    rcases toUuid_cases lib h with ⟨id, hnames, -⟩ | ⟨-, -, message, herror⟩ |
      ⟨-, message, herror⟩
    · exact ⟨id, hnames⟩
    · obtain ⟨detail, hdetail⟩ := hanswers _ herror
      cases hdetail
    · obtain ⟨detail, hdetail⟩ := hanswers _ herror
      cases hdetail
  · rintro ⟨id, hnames⟩
    rw [(toUuid_eq_ok h).mpr hnames]
    exact answers_ok id

/-- No except clause of these functions catches an AttributeError. -/
theorem answers_catching_toUuid (h : value.truthy = true)
    (hvalue : ∀ message, caught (.valueError message) = true)
    (hattribute : ∀ message, caught (.attributeError message) = false) :
    Answers (catching caught detail (toUuid lib value)) ↔ ∃ text, value = .str text := by
  rw [answers_catching]
  rcases toUuid_cases lib h with ⟨id, hnames, hok⟩ | ⟨htext, -, message, herror⟩ |
    ⟨hother, message, herror⟩
  · refine ⟨fun _ => hnames.isText, ?_⟩
    intro _ e he
    rw [hok] at he
    cases he
  · refine ⟨fun _ => htext, ?_⟩
    intro _ e he hfalse
    rw [herror] at he
    cases he
    rw [hvalue] at hfalse
    cases hfalse
  · constructor
    · intro hall
      obtain ⟨detail, hdetail⟩ := hall _ herror (hattribute message)
      cases hdetail
    · intro htext
      exact absurd htext hother

theorem ofValue_eq_some {text : String} :
    UserRole.ofValue text = some role ↔ text = role.value := by
  constructor
  · intro h
    unfold UserRole.ofValue at h
    have hvalue := List.find?_some h
    exact (of_decide_eq_true hvalue).symm
  · rintro rfl
    cases role <;> decide

theorem parseRole_eq_ok : parseRole lib value = .ok role ↔ value = .str role.value := by
  cases value with
  | str text =>
    rw [Json.str.injEq, ← ofValue_eq_some]
    unfold parseRole
    dsimp only
    cases UserRole.ofValue text with
    | none => simp
    | some other => simp
  | _ => simp [parseRole]

theorem answers_parseRole (lib : Library) (value : Json) : Answers (parseRole lib value) := by
  cases value with
  | str text =>
    unfold parseRole
    dsimp only
    cases UserRole.ofValue text with
    | none => exact answers_unauthorized _
    | some role => exact answers_ok role
  | _ => exact answers_unauthorized _

theorem map_some_eq_ok {x : Except Exn α} {found : Option α} :
    some <$> x = .ok found ↔ ∃ a, found = some a ∧ x = .ok a := by
  cases x with
  | error e =>
    constructor
    · intro h
      cases h
    · rintro ⟨a, -, h⟩
      cases h
  | ok a =>
    constructor
    · intro h
      cases h
      exact ⟨a, rfl, rfl⟩
    · rintro ⟨b, rfl, h⟩
      cases h
      rfl

/-- Only a root administrator comes without a tenant. -/
theorem parseTenantId_eq_ok {tenantId : Option Uuid} :
    parseTenantId lib value role = .ok tenantId ↔
      (tenantId = none ∧ role = .rootAdmin ∧ value.truthy = false) ∨
        ∃ id, tenantId = some id ∧ Names lib value id := by
  have hfalsy : value.truthy = false → ∀ id, ¬Names lib value id := by
    intro hfalse id hnames
    rw [hnames.truthy] at hfalse
    cases hfalse
  unfold parseTenantId
  cases htruthy : value.truthy with
  | true =>
    by_cases hroot : role = .rootAdmin
    · simp only [hroot, if_true, map_some_eq_ok, toUuid_eq_ok htruthy]
      simp
    · simp only [hroot, if_true, if_false, map_some_eq_ok, catching_eq_ok, toUuid_eq_ok htruthy]
      simp
  | false =>
    by_cases hroot : role = .rootAdmin
    · simp [hroot, hfalsy htruthy, eq_comm]
    · simp [hroot, hfalsy htruthy]

theorem answers_parseTenantId : Answers (parseTenantId lib value role) ↔
    (role = .rootAdmin → value.truthy = true → ∃ id, Names lib value id) ∧
      (value.truthy = true → ∃ text, value = .str text) := by
  unfold parseTenantId
  cases htruthy : value.truthy with
  | true =>
    by_cases hroot : role = .rootAdmin
    · simp only [hroot, if_true, answers_map, answers_toUuid htruthy, forall_const]
      constructor
      · intro h
        obtain ⟨id, hnames⟩ := h
        exact ⟨⟨id, hnames⟩, hnames.isText⟩
      · intro h
        exact h.1
    · simp only [hroot, if_true, if_false, answers_map, false_imp_iff, true_and, forall_const]
      exact answers_catching_toUuid htruthy (fun _ => rfl) fun _ => rfl
  | false =>
    by_cases hroot : role = .rootAdmin
    · simp [hroot, answers_ok]
    · simp [hroot, answers_unauthorized]

theorem answers_parseCameraId : Answers (parseCameraId lib value) ↔
    (value.truthy = true → ∃ text, value = .str text) := by
  unfold parseCameraId
  cases htruthy : value.truthy with
  | true =>
    simp only [if_true, forall_const, catching_map, answers_map]
    exact answers_catching_toUuid htruthy (fun _ => rfl) fun _ => rfl
  | false =>
    simp [catching, answers_ok]

theorem answers_contextOfRole (role : UserRole) : Answers (do
      let tenantId ← parseTenantId lib claims.tenantId role
      let cameraId ← parseCameraId lib claims.cameraId
      pure (AuthContext.mk claims.sub tenantId role token cameraId)) ↔
    UserReads lib claims role := by
  rw [answers_bind, answers_parseTenantId]
  constructor
  · rintro ⟨⟨hwell, htext⟩, hrest⟩
    refine ⟨hwell, htext, ?_⟩
    intro hread
    obtain ⟨tenantId, htenant⟩ : ∃ tenantId, parseTenantId lib claims.tenantId role =
        .ok tenantId := by
      rcases hread with ⟨id, hnames⟩ | hmissing
      · exact ⟨some id, parseTenantId_eq_ok.mpr (Or.inr ⟨id, rfl, hnames⟩)⟩
      · exact ⟨none, parseTenantId_eq_ok.mpr (Or.inl ⟨rfl, hmissing⟩)⟩
    exact answers_parseCameraId.mp (answers_bind.mp (hrest tenantId htenant)).1
  · intro h
    refine ⟨⟨h.wellFormed, h.tenant⟩, ?_⟩
    intro tenantId htenant
    have hread : (∃ id, Names lib claims.tenantId id) ∨
        role = .rootAdmin ∧ claims.tenantId.truthy = false := by
      rcases parseTenantId_eq_ok.mp htenant with ⟨-, hmissing⟩ | ⟨id, -, hnames⟩
      · exact Or.inr hmissing
      · exact Or.inl ⟨id, hnames⟩
    rw [answers_bind, answers_parseCameraId]
    exact ⟨h.camera hread, fun _ _ => answers_ok _⟩

/-- A user gets a context or a 401 unless a claim of a valid role reaches `UUID` unguarded. -/
theorem answers_contextOfClaims :
    Answers (contextOfClaims lib token claims) ↔ UserHandled lib claims := by
  unfold contextOfClaims
  rw [answers_bind]
  constructor
  · intro h role hrole
    exact (answers_contextOfRole role).mp (h.2 role (parseRole_eq_ok.mpr hrole))
  · intro h
    refine ⟨answers_parseRole lib claims.role, ?_⟩
    intro role hrole
    exact (answers_contextOfRole role).mpr (h role (parseRole_eq_ok.mp hrole))

/-- The two ids are read one after the other, so the camera only counts once the tenant is read. -/
theorem answers_edgeIds (htenant : claims.tenantId.truthy = true)
    (hcamera : claims.cameraId.truthy = true) :
    Answers (catching isValueError detail do
      let tenantId ← toUuid lib claims.tenantId
      let cameraId ← toUuid lib claims.cameraId
      pure (EdgeAuthContext.mk claims.sub tenantId cameraId token)) ↔
      (∃ text, claims.tenantId = .str text) ∧
        ((∃ id, Names lib claims.tenantId id) → ∃ text, claims.cameraId = .str text) := by
  rcases toUuid_cases lib htenant with ⟨id, hnames, hok⟩ | ⟨htext, hnone, message, herror⟩ |
    ⟨hother, message, herror⟩
  · have hcall : (do
        let tenantId ← toUuid lib claims.tenantId
        let cameraId ← toUuid lib claims.cameraId
        pure (EdgeAuthContext.mk claims.sub tenantId cameraId token)) =
      (fun cameraId => EdgeAuthContext.mk claims.sub id cameraId token) <$>
        toUuid lib claims.cameraId := by
      rw [hok]
      cases toUuid lib claims.cameraId <;> rfl
    rw [hcall, catching_map, answers_map,
      answers_catching_toUuid hcamera (fun _ => rfl) fun _ => rfl]
    constructor
    · intro hcameraText
      exact ⟨hnames.isText, fun _ => hcameraText⟩
    · intro h
      exact h.2 ⟨id, hnames⟩
  · rw [herror]
    constructor
    · intro _
      exact ⟨htext, fun hread => absurd hread hnone⟩
    · intro _
      exact answers_unauthorized _
  · rw [herror]
    constructor
    · intro h
      obtain ⟨detail, hdetail⟩ := h (.attributeError message) rfl
      cases hdetail
    · intro h
      exact absurd h.1 hother

/-- An edge device gets a context or a 401 unless one of its claims is there and no text. -/
theorem answers_edgeContextOfClaims :
    Answers (edgeContextOfClaims lib token claims) ↔ EdgeHandled lib claims := by
  unfold edgeContextOfClaims EdgeHandled
  by_cases hgty : claims.gty = .str "client-credentials"
  · have heq : claims.gty.eq (.str "client-credentials") = true := Json.eq_str.mpr hgty
    simp only [heq, Bool.true_eq_false, if_false]
    simp only [hgty, forall_const]
    cases htenant : claims.tenantId.truthy with
    | false => simp [answers_unauthorized]
    | true =>
      cases hcamera : claims.cameraId.truthy with
      | false => simp [answers_unauthorized]
      | true =>
        simp only [Bool.not_true, Bool.or_self, Bool.false_eq_true, if_false, forall_const]
        exact answers_edgeIds htenant hcamera
  · have hne : claims.gty.eq (.str "client-credentials") = false := by
      rw [← Bool.not_eq_true, Json.eq_str]
      exact hgty
    simp [hne, hgty, answers_unauthorized]

theorem edgeContextOfClaims_eq_ok {context : EdgeAuthContext}
    (h : edgeContextOfClaims lib token claims = .ok context) :
    Names lib claims.tenantId context.tenantId := by
  unfold edgeContextOfClaims at h
  split at h
  · cases h
  · split at h
    · cases h
    next hthere =>
      have htenant : claims.tenantId.truthy = true := by
        rw [Bool.or_eq_true, not_or] at hthere
        simpa using hthere.1
      obtain ⟨id, hread, h⟩ := bind_eq_ok.mp (catching_eq_ok.mp h)
      obtain ⟨cameraId, -, h⟩ := bind_eq_ok.mp h
      cases h
      exact (toUuid_eq_ok htenant).mp hread

theorem contextOfClaims_eq_ok {context : AuthContext}
    (h : contextOfClaims lib token claims = .ok context) :
    (context.tenantId = none ∧ context.role = .rootAdmin ∧ claims.tenantId.truthy = false) ∨
      ∃ id, context.tenantId = some id ∧ Names lib claims.tenantId id := by
  obtain ⟨role, -, h⟩ := bind_eq_ok.mp h
  obtain ⟨tenantId, htenant, h⟩ := bind_eq_ok.mp h
  obtain ⟨cameraId, -, h⟩ := bind_eq_ok.mp h
  cases h
  exact parseTenantId_eq_ok.mp htenant

/-- A claim that is a text or missing. -/
def ofText : Option String → Json
  | none => .null
  | some text => .str text

def StandardClaims.ofClaims (claims : Claims) : StandardClaims where
  sub := .str claims.sub
  tenantId := ofText claims.tenantId
  role := ofText claims.role
  cameraId := ofText claims.cameraId
  gty := .null

theorem parseRole_ofText (text : Option String) :
    parseRole lib (ofText text) = ArgusServices.parseRole text := by
  cases text <;> rfl

theorem truthy_ofText (text : Option String) :
    truthy text = if (ofText text).truthy then text else none := by
  cases text with
  | none => rfl
  | some text =>
    by_cases h : text = ""
    · rw [h]
      rfl
    · rw [truthy_some h]
      exact (if_pos (decide_eq_true h)).symm

theorem toUuid_ofText {text : String} (hparse : lib.uuid = Uuid.parse) :
    toUuid lib (ofText (some text)) = match Uuid.parse text with
      | none => .error (.valueError "badly formed hexadecimal UUID string")
      | some id => .ok id := by
  rw [← hparse]
  rfl

theorem parseTenantId_ofText (hparse : lib.uuid = Uuid.parse) (text : Option String)
    (role : UserRole) :
    parseTenantId lib (ofText text) role = ArgusServices.parseTenantId text role := by
  unfold parseTenantId ArgusServices.parseTenantId
  rw [truthy_ofText]
  cases htruthy : (ofText text).truthy with
  | false => rfl
  | true =>
    cases text with
    | none => cases htruthy
    | some text =>
      simp only [if_true, toUuid_ofText hparse]
      cases Uuid.parse text <;> rfl

theorem parseCameraId_ofText (hparse : lib.uuid = Uuid.parse) (text : Option String) :
    parseCameraId lib (ofText text) = ArgusServices.parseCameraId text := by
  unfold parseCameraId ArgusServices.parseCameraId
  rw [truthy_ofText]
  cases htruthy : (ofText text).truthy with
  | false => rfl
  | true =>
    cases text with
    | none => cases htruthy
    | some text =>
      simp only [if_true, toUuid_ofText hparse]
      cases Uuid.parse text <;> rfl

/-- On claims that are texts, this is the function the handshake of the websocket calls. -/
theorem contextOfClaims_ofClaims (hparse : lib.uuid = Uuid.parse) (claims : Claims) :
    (fun context => ArgusServices.AuthContext.mk claims.sub context.tenantId context.role) <$>
        contextOfClaims lib token (.ofClaims claims) =
      ArgusServices.authContextFromToken (some claims) := by
  unfold contextOfClaims ArgusServices.authContextFromToken
  dsimp only [StandardClaims.ofClaims]
  rw [parseRole_ofText]
  cases ArgusServices.parseRole claims.role with
  | error e => rfl
  | ok role =>
    simp only [parseTenantId_ofText hparse, parseCameraId_ofText hparse]
    cases htenant : ArgusServices.parseTenantId claims.tenantId role with
    | error e =>
      simp only [bind, Except.bind, htenant]
      rfl
    | ok tenantId =>
      cases hcamera : ArgusServices.parseCameraId claims.cameraId with
      | error e =>
        simp only [bind, Except.bind, htenant]
        rfl
      | ok cameraId =>
        simp only [bind, Except.bind, htenant]
        rfl

theorem readClaims_eq_ok : readClaims lib token = .ok claims ↔
    ∃ payload, lib.decode token = .ok payload ∧ claims = extractStandardClaims lib payload := by
  unfold readClaims validateJwt
  cases lib.decode token with
  | error e => cases e <;> simp [Except.map]
  | ok payload => simp [Except.map, eq_comm]

theorem answers_readClaims : Answers (readClaims lib token) := by
  unfold readClaims
  rcases validateJwt lib token with e | claims
  · cases e with
    | expiredSignature => exact answers_unauthorized _
    | invalidToken => exact answers_unauthorized _
  · exact answers_ok claims

/-- A token that cannot be decoded is answered; of one that can, the claims decide. -/
theorem answers_authContextFromToken : Answers (authContextFromToken lib token) ↔
    ∀ payload, lib.decode token = .ok payload →
      UserHandled lib (extractStandardClaims lib payload) := by
  unfold authContextFromToken
  rw [answers_bind]
  constructor
  · intro h payload hsigned
    exact answers_contextOfClaims.mp (h.2 _ (readClaims_eq_ok.mpr ⟨payload, hsigned, rfl⟩))
  · intro h
    refine ⟨answers_readClaims, ?_⟩
    intro claims hread
    obtain ⟨payload, hsigned, rfl⟩ := readClaims_eq_ok.mp hread
    exact answers_contextOfClaims.mpr (h payload hsigned)

theorem answers_getEdgeAuthContext {given : HTTPAuthorizationCredentials} :
    Answers (getEdgeAuthContext lib (some given)) ↔ (given.scheme.toLower = "bearer" →
      ∀ payload, lib.decode given.credentials = .ok payload →
        EdgeHandled lib (extractStandardClaims lib payload)) := by
  unfold getEdgeAuthContext
  by_cases hscheme : given.scheme.toLower = "bearer"
  · simp only [hscheme, ne_eq, not_true_eq_false, if_false, forall_const]
    rw [answers_bind]
    constructor
    · intro h payload hsigned
      exact answers_edgeContextOfClaims.mp (h.2 _ (readClaims_eq_ok.mpr ⟨payload, hsigned, rfl⟩))
    · intro h
      refine ⟨answers_readClaims, ?_⟩
      intro claims hread
      obtain ⟨payload, hsigned, rfl⟩ := readClaims_eq_ok.mp hread
      exact answers_edgeContextOfClaims.mpr (h payload hsigned)
  · simp only [hscheme, ne_eq, not_false_eq_true, if_true, false_imp_iff, iff_true]
    exact answers_unauthorized _

/-- A context is made from the claims of the payload. -/
theorem authContextFromToken_eq_ok {context : AuthContext}
    (h : authContextFromToken lib token = .ok context) : ∃ payload,
      lib.decode token = .ok payload ∧
        contextOfClaims lib token (extractStandardClaims lib payload) = .ok context := by
  obtain ⟨claims, hread, h⟩ := bind_eq_ok.mp h
  obtain ⟨payload, hsigned, rfl⟩ := readClaims_eq_ok.mp hread
  exact ⟨payload, hsigned, h⟩

theorem getEdgeAuthContext_eq_ok {given : HTTPAuthorizationCredentials}
    {context : EdgeAuthContext} (h : getEdgeAuthContext lib (some given) = .ok context) :
    ∃ payload, lib.decode given.credentials = .ok payload ∧
      edgeContextOfClaims lib given.credentials (extractStandardClaims lib payload) =
        .ok context := by
  unfold getEdgeAuthContext at h
  split at h
  · cases h
  next given' heq =>
    cases heq
    split at h
    · cases h
    · obtain ⟨claims, hread, h⟩ := bind_eq_ok.mp h
      obtain ⟨payload, hsigned, rfl⟩ := readClaims_eq_ok.mp hread
      exact ⟨payload, hsigned, h⟩

/-- Both functions return a context or raise a 401, and the contexts of users that are no root
administrators, and of edge devices, are of the tenant that the payload names. -/
structure GivesContext (lib : Library) (token : String) (payload : Members) : Prop where
  user : Answers (authContextFromToken lib token)
  edge : ∀ scheme, Answers (getEdgeAuthContext lib (some ⟨scheme, token⟩))
  userTenant : ∀ context, authContextFromToken lib token = .ok context →
    context.role ≠ .rootAdmin → ∃ id, context.tenantId = some id ∧
      Names lib (extractStandardClaims lib payload).tenantId id
  edgeTenant : ∀ scheme context,
    getEdgeAuthContext lib (some ⟨scheme, token⟩) = .ok context →
      Names lib (extractStandardClaims lib payload).tenantId context.tenantId

theorem givesContext_iff_handled (lib : Library) (token : String) (payload : Members)
    (hsigned : lib.decode token = .ok payload) : GivesContext lib token payload ↔
      UserHandled lib (extractStandardClaims lib payload) ∧
        EdgeHandled lib (extractStandardClaims lib payload) := by
  have hpayload : ∀ other, lib.decode token = .ok other → other = payload := by
    intro other hother
    exact Except.ok.inj (hother.symm.trans hsigned)
  have hscheme : "Bearer".toLower = "bearer" := by
    decide +kernel
  constructor
  · intro h
    refine ⟨answers_authContextFromToken.mp h.user payload hsigned, ?_⟩
    exact answers_getEdgeAuthContext.mp (h.edge "Bearer") hscheme payload hsigned
  · rintro ⟨huser, hedge⟩
    refine ⟨?_, ?_, ?_, ?_⟩
    · rw [answers_authContextFromToken]
      intro other hother
      exact hpayload other hother ▸ huser
    · intro scheme
      rw [answers_getEdgeAuthContext]
      intro _ other hother
      exact hpayload other hother ▸ hedge
    · intro context hcontext hrole
      obtain ⟨other, hother, hmade⟩ := authContextFromToken_eq_ok hcontext
      rw [hpayload other hother] at hmade
      rcases contextOfClaims_eq_ok hmade with ⟨-, hroot, -⟩ | hnames
      · exact absurd hroot hrole
      · exact hnames
    · intro scheme context hcontext
      obtain ⟨other, hother, hmade⟩ := getEdgeAuthContext_eq_ok hcontext
      rw [hpayload other hother] at hmade
      exact edgeContextOfClaims_eq_ok hmade

/-- The token of a root administrator whose tenant is no UUID. -/
def rootPayload : Members :=
  [("sub", .str "auth0|root"), ("role", .str "root_admin"), ("tenant_id", .str "all")]

/-- The token of an edge device, with namespaced claims. -/
def edgePayload : Members :=
  [("sub", .str "edge-1@clients"), ("gty", .str "client-credentials"),
    ("https://argus.dev/tenant_id", .str "00000000-0000-0000-0000-000000000001"),
    ("https://argus.dev/camera_id", .str "00000000-0000-0000-0000-000000000002")]

def libraryOf (payload : Members) : Library where
  decode _ := .ok payload
  claimsNamespace := "https://argus.dev/"
  uuid := Uuid.parse
  repr := Json.typeName

theorem not_always_givesContext :
    ¬∀ (lib : Library) (token : String) (payload : Members), lib.decode token = .ok payload →
      GivesContext lib token payload := by
  intro h
  have hraises : authContextFromToken (libraryOf rootPayload) "root" =
      .error (.valueError "badly formed hexadecimal UUID string") := by
    rfl
  obtain ⟨detail, hdetail⟩ :=
    (h (libraryOf rootPayload) "root" rootPayload rfl).user _ hraises
  cases hdetail

theorem givesContext_iff_handled_sample :
    GivesContext (libraryOf edgePayload) "edge" edgePayload := by
  refine (givesContext_iff_handled (libraryOf edgePayload) "edge" edgePayload rfl).mpr ⟨?_, ?_⟩
  · intro role hrole
    cases hrole
  · intro _ _ _
    exact ⟨⟨_, rfl⟩, fun _ => ⟨_, rfl⟩⟩

end Auth

end ArgusServices

import ArgusServices.SeverityScore
import ArgusServices.Transition

namespace ArgusServices

open Effect Transition

/-- How `json.loads` fails: with the error that the loop catches, or with another one, on a text
that is nested too deep for instance. -/
inductive LoadsError
  | jsonDecodeError
  | other (cause : Exn)

/-- Where the receive loop of a websocket stands. -/
inductive LoopState
  | receiving
  | closed (code : Nat) (reason : String)
  | raised (cause : Exn)

/-- The body of the loop on one frame. -/
def onFrame (loads : String → Except LoadsError Json) (tenantId : Uuid) (raw : String) :
    Except Exn LoopState :=
  match loads raw with
  | .error .jsonDecodeError => .ok .receiving
  | .error (.other cause) => .error cause
  | .ok msg => do
    if (← msg.get "type" .null).eq (.str "pong") then pure .receiving
    else if (← msg.get "type" .null).eq (.str "subscribe") then do
      let payloadTid ← (← msg.get "payload" (.obj [])).get "tenant_id" .null
      if payloadTid.truthy && !payloadTid.eq (.str tenantId.str) then
        pure (.closed 4003 "Tenant mismatch")
      else pure .receiving
    else pure .receiving

/-- The loop receives the next frame; an exception ends the handler. -/
inductive Receives (loads : String → Except LoadsError Json) (tenantId : Uuid) :
    LoopState → String → LoopState → Prop
  | frame {raw : String} {t : LoopState} : onFrame loads tenantId raw = .ok t →
      Receives loads tenantId .receiving raw t
  | raise {raw : String} {cause : Exn} : onFrame loads tenantId raw = .error cause →
      Receives loads tenantId .receiving raw (.raised cause)

/-- The frame subscribes to another tenant; an empty value names none. -/
def Mismatch (loads : String → Except LoadsError Json) (tenantId : Uuid) (raw : String) : Prop :=
  ∃ members payload payloadTid, loads raw = .ok (.obj members) ∧
    members.lookup "type" = some (.str "subscribe") ∧
    members.lookup "payload" = some (.obj payload) ∧
    payload.lookup "tenant_id" = some payloadTid ∧ payloadTid.truthy = true ∧
    payloadTid.eq (.str tenantId.str) = false

/-- The loop goes on, or closes on a frame that subscribes to another tenant. -/
def ClosesOrGoesOn (loads : String → Except LoadsError Json) (tenantId : Uuid) (_ : LoopState)
    (raw : String) (t : LoopState) : Prop :=
  (Mismatch loads tenantId raw → t = .closed 4003 "Tenant mismatch") ∧
    (¬Mismatch loads tenantId raw → t = .receiving)

/-- The frame is no JSON, or an object that has an object for its payload if it subscribes and has
one. -/
def Proper (loads : String → Except LoadsError Json) (_ : LoopState) (raw : String) : Prop :=
  match loads raw with
  | .error .jsonDecodeError => True
  | .ok (.obj members) => members.lookup "type" = some (.str "subscribe") →
      ∀ payload ∈ members.lookup "payload", ∃ fields, payload = .obj fields
  | _ => False

variable {loads : String → Except LoadsError Json} {tenantId : Uuid} {raw : String}
  {s t : LoopState}

theorem Json.eq_str {value : Json} {text : String} :
    value.eq (.str text) = true ↔ value = .str text := by
  cases value <;> simp [Json.eq, Json.number]

theorem Json.get_obj {members : List (String × Json)} {key : String} {default : Json} :
    (Json.obj members).get key default = .ok ((members.lookup key).getD default) :=
  rfl

theorem Json.get_error {value : Json} (h : ∀ members, value ≠ .obj members) (key : String)
    (default : Json) : ∃ cause, value.get key default = .error cause := by
  cases value with
  | obj members => exact absurd rfl (h members)
  | _ => exact ⟨_, rfl⟩

theorem getD_eq_str {found : Option Json} {default : Json} {text : String}
    (h : default ≠ .str text) : found.getD default = .str text ↔ found = some (.str text) := by
  cases found with
  | none => simp [h]
  | some value => simp

/-- A subscription compares the tenant that its payload names. -/
theorem onFrame_subscribe {members : List (String × Json)} (h : loads raw = .ok (.obj members))
    (htype : members.lookup "type" = some (.str "subscribe")) :
    onFrame loads tenantId raw = (do
      let payloadTid ← ((members.lookup "payload").getD (.obj [])).get "tenant_id" .null
      if payloadTid.truthy && !payloadTid.eq (.str tenantId.str) then
        pure (.closed 4003 "Tenant mismatch")
      else pure .receiving) := by
  unfold onFrame
  rw [h]
  simp only [Json.get_obj, htype, Option.getD_some]
  rfl

theorem onFrame_other {members : List (String × Json)} (h : loads raw = .ok (.obj members))
    (htype : members.lookup "type" ≠ some (.str "subscribe")) :
    onFrame loads tenantId raw = .ok .receiving := by
  have hne : ((members.lookup "type").getD .null).eq (.str "subscribe") = false := by
    rw [← Bool.not_eq_true, Json.eq_str, getD_eq_str (by simp)]
    exact htype
  unfold onFrame
  rw [h]
  simp only [Json.get_obj, bind, Except.bind, hne]
  split <;> rfl

theorem onFrame_mismatch (h : Mismatch loads tenantId raw) :
    onFrame loads tenantId raw = .ok (.closed 4003 "Tenant mismatch") := by
  obtain ⟨members, payload, payloadTid, hloads, htype, hpayload, htid, htruthy, hne⟩ := h
  rw [onFrame_subscribe hloads htype, hpayload, Option.getD_some, Json.get_obj, htid]
  simp only [bind, Except.bind, Option.getD_some, htruthy, hne]
  rfl

/-- A payload that is an object, or none, names a tenant or does not. -/
theorem onFrame_object {members : List (String × Json)} {fields : List (String × Json)}
    (h : loads raw = .ok (.obj members)) (htype : members.lookup "type" = some (.str "subscribe"))
    (hpayload : (members.lookup "payload").getD (.obj []) = .obj fields)
    (hno : ∀ payloadTid, fields.lookup "tenant_id" = some payloadTid → payloadTid.truthy = true →
      payloadTid.eq (.str tenantId.str) = true) :
    onFrame loads tenantId raw = .ok .receiving := by
  rw [onFrame_subscribe h htype, hpayload, Json.get_obj]
  cases htid : fields.lookup "tenant_id" with
  | none => rfl
  | some payloadTid =>
    have hstays : (payloadTid.truthy && !payloadTid.eq (.str tenantId.str)) = false := by
      cases htruthy : payloadTid.truthy with
      | false => rfl
      | true => simp [hno payloadTid htid htruthy]
    simp only [bind, Except.bind, Option.getD_some, hstays]
    rfl

theorem onFrame_proper (hp : Proper loads s raw) (hno : ¬Mismatch loads tenantId raw) :
    onFrame loads tenantId raw = .ok .receiving := by
  unfold Proper at hp
  split at hp
  next hloads =>
    unfold onFrame
    rw [hloads]
  next members hloads =>
    by_cases htype : members.lookup "type" = some (.str "subscribe")
    · cases hpayload : members.lookup "payload" with
      | none =>
        have hfields : (members.lookup "payload").getD (.obj []) = .obj [] := by
          rw [hpayload, Option.getD_none]
        refine onFrame_object hloads htype hfields ?_
        intro payloadTid htid
        cases htid
      | some payload =>
        obtain ⟨fields, rfl⟩ := hp htype payload hpayload
        have hfields : (members.lookup "payload").getD (.obj []) = .obj fields := by
          rw [hpayload, Option.getD_some]
        refine onFrame_object hloads htype hfields ?_
        intro payloadTid htid htruthy
        by_contra hne
        exact hno ⟨members, fields, payloadTid, hloads, htype, hpayload, htid, htruthy,
          by simpa using hne⟩
    · exact onFrame_other hloads htype
  next => exact hp.elim

theorem onFrame_improper (tenantId : Uuid) (hp : ¬Proper loads s raw) :
    ∃ cause, onFrame loads tenantId raw = .error cause := by
  unfold Proper at hp
  split at hp
  next => exact absurd trivial hp
  next members hloads =>
    simp only [Classical.not_imp, not_forall] at hp
    obtain ⟨htype, payload, hpayload, hfields⟩ := hp
    obtain ⟨cause, hcause⟩ := Json.get_error (fun fields heq => hfields ⟨fields, heq⟩)
      "tenant_id" .null
    refine ⟨cause, ?_⟩
    rw [onFrame_subscribe hloads htype, Option.mem_def.mp hpayload, Option.getD_some, hcause]
    rfl
  next hdecode hobject =>
    unfold onFrame
    cases hloads : loads raw with
    | error e =>
      cases e with
      | jsonDecodeError => exact absurd hloads hdecode
      | other cause => exact ⟨cause, rfl⟩
    | ok msg =>
      obtain ⟨cause, hcause⟩ := Json.get_error (fun members heq => hobject members
        (heq ▸ hloads)) "type" .null
      refine ⟨cause, ?_⟩
      simp only [hcause]
      rfl

/-- On a frame the loop goes on or closes as it should, unless the frame is not proper. -/
theorem closesOrGoesOn_iff (h : Receives loads tenantId s raw t) :
    ClosesOrGoesOn loads tenantId s raw t ↔ Proper loads s raw := by
  constructor
  · intro hc
    by_contra hp
    obtain ⟨cause, hcause⟩ := onFrame_improper tenantId hp
    cases h with
    | frame hok =>
      rw [hcause] at hok
      cases hok
    | raise herror =>
      by_cases hm : Mismatch loads tenantId raw
      · cases hc.1 hm
      · cases hc.2 hm
  · intro hp
    by_cases hm : Mismatch loads tenantId raw
    · have hclosed := onFrame_mismatch hm
      cases h with
      | frame hok =>
        rw [hclosed] at hok
        exact ⟨fun _ => (Except.ok.inj hok).symm, fun hno => absurd hm hno⟩
      | raise herror =>
        rw [hclosed] at herror
        cases herror
    · have hgoes := onFrame_proper hp hm
      cases h with
      | frame hok =>
        rw [hgoes] at hok
        exact ⟨fun hyes => absurd hyes hm, fun _ => (Except.ok.inj hok).symm⟩
      | raise herror =>
        rw [hgoes] at herror
        cases herror

/-- Every frame of a connection is answered by going on or, on a subscription to another tenant,
by closing with 4003, exactly if every frame is proper. -/
theorem closesOrGoesOn_iff_proper (loads : String → Except LoadsError Json) (tenantId : Uuid)
    (frames : List String) (t : LoopState) :
    Run (Such (ClosesOrGoesOn loads tenantId) (Receives loads tenantId)) .receiving frames t ↔
      Run (Where (Proper loads) (Receives loads tenantId)) .receiving frames t := by
  refine @Run.such_iff_where _ _ (Receives loads tenantId) (Proper loads) (fun _ => True)
    (ClosesOrGoesOn loads tenantId) (fun _ _ _ _ _ => trivial) ?_ _ _ _ trivial
  intro s raw t _ hstep
  exact closesOrGoesOn_iff hstep

/-- A decoder of one array; no other text is JSON. -/
def sampleFrames (raw : String) : Except LoadsError Json :=
  if raw = "[]" then .ok (.arr []) else .error .jsonDecodeError

/-- An array is no object, and ends the handler with an AttributeError. -/
theorem not_always_closesOrGoesOn : ¬∀ (loads : String → Except LoadsError Json)
    (tenantId : Uuid) (frames : List String) (t : LoopState),
    Run (Receives loads tenantId) .receiving frames t →
      Run (Such (ClosesOrGoesOn loads tenantId) (Receives loads tenantId)) .receiving frames t := by
  intro h
  have hloads : sampleFrames "[]" = .ok (.arr []) := if_pos rfl
  have hraises : onFrame sampleFrames ⟨1⟩ "[]" =
      .error (.attributeError "'list' object has no attribute 'get'") := by
    unfold onFrame
    rw [hloads]
    rfl
  have hmismatch : ¬Mismatch sampleFrames ⟨1⟩ "[]" := by
    intro hm
    obtain ⟨members, _, _, hobject, -⟩ := hm
    rw [hloads] at hobject
    cases hobject
  cases h _ _ _ _ (.single (.raise hraises)) with
  | cons hstep _ =>
    obtain ⟨hreceives, -, hgoes⟩ := hstep
    cases hgoes hmismatch
    cases hreceives with
    | frame hok =>
      rw [hraises] at hok
      cases hok

end ArgusServices

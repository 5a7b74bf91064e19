import ArgusServices.AggregateEffect

namespace ArgusServices

/-- What an open key stands for: a region of a camera of a tenant, or the camera as a whole. -/
structure Place where
  tenantId : Uuid
  cameraId : Uuid
  regionId : Option Uuid
  deriving DecidableEq, Repr

def Evidence.place (evidence : Evidence) : Place :=
  ⟨evidence.tenantId, evidence.cameraId, evidence.regionId⟩

def Decision.place (d : Decision) : Place :=
  ⟨d.tenantId, d.cameraId, d.regionId⟩

theorem regionKey_injective {e e' : Evidence} (h : regionKey e = regionKey e') :
    e.regionId = e'.regionId := by
  -- an identifier is longer than the text "none"
  have hlong : ∀ id : Uuid, id.str ≠ "none" := by
    intro id heq
    have hl := congrArg (fun s => s.toList.length) heq
    simp [Uuid.str_toList, Uuid.chars_length] at hl
  unfold regionKey at h
  cases hr : e.regionId with
  | none =>
    cases hr' : e'.regionId with
    | none => rfl
    | some id => exact absurd (by simpa [hr, hr'] using h.symm) (hlong id)
  | some id =>
    cases hr' : e'.regionId with
    | none => exact absurd (by simpa [hr, hr'] using h) (hlong id)
    | some id' =>
      have hstr : id.str = id'.str := by simpa [hr, hr'] using h
      rw [Uuid.str_injective hstr]

/-- Two evidences share an open key exactly if they come from one place. -/
theorem openDecisionKey_eq_iff {e e' : Evidence} :
    openDecisionKey e = openDecisionKey e' ↔ e.place = e'.place := by
  constructor
  · intro h
    unfold openDecisionKey at h
    obtain ⟨htenant, h⟩ := Uuid.str_append_inj ((String.append_right_inj _).mp h)
    obtain ⟨hcamera, h⟩ := Uuid.str_append_inj ((String.append_right_inj _).mp h)
    have hregion := regionKey_injective ((String.append_right_inj _).mp h)
    simp only [Evidence.place, htenant, hcamera, hregion]
  · intro h
    simp only [Evidence.place, Place.mk.injEq] at h
    obtain ⟨htenant, hcamera, hregion⟩ := h
    simp only [openDecisionKey, regionKey, htenant, hcamera, hregion]

/-- A call works on the open decision and leaves the keys, or on a new one that it sets the open
key to. -/
theorem Target.spec {w : World} {call : AggregateCall} {evidence : Evidence} {tenant : Tenant}
    {d : Decision} {keys : String → Option RedisEntry}
    (h : Target w call evidence tenant d keys) :
    (w.openDecision evidence = some d ∧ evidence.capturedAt ≤ d.windowEnd ∧ keys = w.keys) ∨
      (d = newDecision call evidence tenant ∧ w.Unmerged evidence ∧
        w.db.decisions.find d.id = none ∧ keys = Function.update w.keys (openDecisionKey evidence)
          (some ⟨d.id.str, some (tenant.aggregationWindowSecs + 300)⟩)) := by
  cases h with
  | merge hd hle => exact Or.inl ⟨hd, hle, rfl⟩
  | create hopen hfree _ => exact Or.inr ⟨rfl, hopen, hfree, rfl⟩

theorem Target.keys_of_ne {w : World} {call : AggregateCall} {evidence : Evidence}
    {tenant : Tenant} {d : Decision} {keys : String → Option RedisEntry} {key : String}
    (h : Target w call evidence tenant d keys) (hne : key ≠ openDecisionKey evidence) :
    keys key = w.keys key := by
  rcases h.spec with ⟨-, -, rfl⟩ | ⟨-, -, -, rfl⟩
  · rfl
  · exact Function.update_of_ne hne _ _

@[simp] theorem newDecision_place (call : AggregateCall) (evidence : Evidence) (tenant : Tenant) :
    (newDecision call evidence tenant).place = evidence.place := rfl

@[simp] theorem afterLink_place (db : Db) (call : AggregateCall) (d : Decision)
    (evidence : Evidence) : (afterLink db call d evidence).place = d.place := by
  unfold afterLink
  split <;> rfl

@[simp] theorem afterState_place (call : AggregateCall) (tenant : Tenant) (d : Decision) :
    (afterState call tenant d).place = d.place := by
  unfold afterState
  split <;> rfl

@[simp] theorem afterLink_windowStart (db : Db) (call : AggregateCall) (d : Decision)
    (evidence : Evidence) : (afterLink db call d evidence).windowStart = d.windowStart := by
  unfold afterLink
  split <;> rfl

@[simp] theorem afterState_windowStart (call : AggregateCall) (tenant : Tenant) (d : Decision) :
    (afterState call tenant d).windowStart = d.windowStart := by
  unfold afterState
  split <;> rfl

@[simp] theorem afterLink_windowEnd (db : Db) (call : AggregateCall) (d : Decision)
    (evidence : Evidence) : (afterLink db call d evidence).windowEnd = d.windowEnd := by
  unfold afterLink
  split <;> rfl

@[simp] theorem afterState_windowEnd (call : AggregateCall) (tenant : Tenant) (d : Decision) :
    (afterState call tenant d).windowEnd = d.windowEnd := by
  unfold afterState
  split <;> rfl

end ArgusServices

import ArgusServices.OwnPlace
import ArgusServices.SingleLink
import ArgusServices.TwoRuns

namespace ArgusServices

open Effect

/-- The steps a call has behind it when it deletes the key of a decision whose window has passed,
and the deletion itself. -/
def AggregateStep.beforeDelete : AggregateStep → Bool
  | .setSessionContext | .getEvidence | .switchTenant | .getTenant | .getKey | .getDecision
  | .deleteKey => true
  | _ => false

def AggregateCall.stopsEarly (call : AggregateCall) : Bool :=
  call.raisesAt.any AggregateStep.beforeDelete

/-- The call finds an open decision whose window has passed, and gets to delete its key. -/
structure DropsOpen (w : World) (call : AggregateCall) (evidence : Evidence) (d : Decision) :
    Prop where
  evidence_found : w.db.evidences.find call.evidenceId = some evidence
  tenant_found : (w.db.tenants.find evidence.tenantId).isSome
  opened : w.openDecision evidence = some d
  passed : d.windowEnd < evidence.capturedAt
  late : call.stopsEarly = false

/-- The keys a call leaves, whichever way it ends. -/
inductive KeyTrace (w : World) (call : AggregateCall) (evidence : Evidence) :
    (String → Option RedisEntry) → Prop
  | kept : (∀ d, w.openDecision evidence = some d → d.windowEnd < evidence.capturedAt →
      call.stopsEarly = true) → KeyTrace w call evidence w.keys
  | deleted {d : Decision} : w.openDecision evidence = some d →
      d.windowEnd < evidence.capturedAt → call.stopsEarly = false →
      KeyTrace w call evidence (Function.update w.keys (openDecisionKey evidence) none)
  | set {ex : Int} : w.db.decisions.find call.newId = none → w.Unmerged evidence →
      (∀ raw, truthy ((w.keys (openDecisionKey evidence)).map RedisEntry.value) = some raw →
        (Uuid.parse raw).isSome) →
      (∀ d, w.openDecision evidence = some d → call.stopsEarly = false) →
      KeyTrace w call evidence
        (Function.update w.keys (openDecisionKey evidence) (some ⟨call.newId.str, some ex⟩))

variable {w : World} {call : AggregateCall} {evidence : Evidence} {tenant : Tenant}

theorem stopsEarly_of_raises {step : AggregateStep}
    (h : decide (call.raisesAt = some step) = true) (hstep : step.beforeDelete = true) :
    call.stopsEarly = true := by
  simp [AggregateCall.stopsEarly, of_decide_eq_true h, hstep]

theorem KeyTrace.early (h : call.stopsEarly = true) : KeyTrace w call evidence w.keys :=
  .kept fun _ _ _ => h

/-- Creation after the key has been looked at, and deleted if a decision was passed over. -/
theorem createAndLink_keys {keys : String → Option RedisEntry} {ex : Int}
    (hkeys : KeyTrace w call evidence keys)
    (hset : w.db.decisions.find call.newId = none → KeyTrace w call evidence
      (Function.update w.keys (openDecisionKey evidence) (some ⟨call.newId.str, some ex⟩)))
    (hex : tenant.aggregationWindowSecs + 300 = ex)
    (hupd : ∀ entry, Function.update keys (openDecisionKey evidence) entry =
      Function.update w.keys (openDecisionKey evidence) entry) :
    Ends (createAndLink call evidence tenant) (tenantOf { w with keys := keys } evidence)
      (fun _ t => KeyTrace w call evidence t.world.keys)
      (fun _ t => KeyTrace w call evidence t.world.keys) := by
  refine (createAndLink_ends rfl).mono ?_ ?_
  · intro d t hpost
    obtain ⟨hfree, -, -, rfl⟩ := hpost
    simp only [tenantOf, hupd, hex]
    exact hset hfree
  · intro e t hpost
    obtain ⟨-, hworld⟩ := hpost
    rcases hworld with hworld | ⟨hfree, -, hworld⟩
    · rw [hworld]
      exact hkeys
    · rw [hworld]
      simp only [tenantOf, hupd, hex]
      exact hset hfree

theorem createAndLink_keys_of_none (hopen : w.openDecision evidence = none)
    (hparse : ∀ raw, truthy ((w.keys (openDecisionKey evidence)).map RedisEntry.value) = some raw →
      (Uuid.parse raw).isSome) :
    Ends (createAndLink call evidence tenant) (tenantOf w evidence)
      (fun _ t => KeyTrace w call evidence t.world.keys)
      (fun _ t => KeyTrace w call evidence t.world.keys) := by
  have hnone : ∀ d, w.openDecision evidence ≠ some d := by
    intro d hd
    cases hopen.symm.trans hd
  apply @createAndLink_keys w call evidence tenant w.keys _ (.kept ?_) ?_ rfl fun _ => rfl
  · exact fun d hd => absurd hd (hnone d)
  · intro hfree
    exact .set hfree (fun d hd => absurd hd (hnone d)) hparse fun d hd => absurd hd (hnone d)

theorem linkEvidence_keys {d : Decision} (hopen : w.openDecision evidence = some d)
    (hle : evidence.capturedAt ≤ d.windowEnd) :
    Ends (linkEvidence call d evidence) (tenantOf w evidence)
      (fun _ t => KeyTrace w call evidence t.world.keys)
      (fun _ t => KeyTrace w call evidence t.world.keys) := by
  have hkept : KeyTrace w call evidence w.keys := by
    refine .kept ?_
    intro d' hd' hlt
    obtain rfl := Option.some.inj (hd'.symm.trans hopen)
    omega
  refine (linkEvidence_ends (World.openDecision_spec hopen).1).mono ?_ ?_
  · intro d' t hpost
    obtain ⟨-, rfl⟩ := hpost
    exact hkept
  · intro e t hpost
    obtain ⟨rfl, -⟩ := hpost
    exact hkept

theorem createAndLink_keys_of_passed {d : Decision} (hopen : w.openDecision evidence = some d)
    (hpassed : d.windowEnd < evidence.capturedAt) (hstop : call.stopsEarly = false)
    (hparse : ∀ raw, truthy ((w.keys (openDecisionKey evidence)).map RedisEntry.value) = some raw →
      (Uuid.parse raw).isSome) :
    Ends (createAndLink call evidence tenant)
      (tenantOf { w with keys := Function.update w.keys (openDecisionKey evidence) none } evidence)
      (fun _ t => KeyTrace w call evidence t.world.keys)
      (fun _ t => KeyTrace w call evidence t.world.keys) := by
  apply createAndLink_keys (.deleted hopen hpassed hstop) ?_ rfl
  · intro entry
    exact Function.update_idem _ _ _
  · intro hfree
    refine .set hfree ?_ hparse fun _ _ => hstop
    intro d' hd'
    obtain rfl := Option.some.inj (hd'.symm.trans hopen)
    exact hpassed

theorem mergeOrCreateDecision_keys (hlate : call.stopsEarly = true →
      call.raisesAt = some .getKey ∨ call.raisesAt = some .getDecision ∨
        call.raisesAt = some .deleteKey) :
    Ends (mergeOrCreateDecision call evidence tenant) (tenantOf w evidence)
      (fun _ t => KeyTrace w call evidence t.world.keys)
      (fun _ t => KeyTrace w call evidence t.world.keys) := by
  rw [mergeOrCreateDecision_eq]
  simp only [AggregateCall.at, getKey, ends_bind, ends_raiseWhen, ends_get, ends_pure]
  refine ⟨fun h => .early (stopsEarly_of_raises h rfl), ?_⟩
  intro hgetKey
  apply openRow_ends.mono
  · intro found t hpost
    obtain ⟨hfound, rfl, hparse, hgetDecision⟩ := hpost
    cases found with
    | none => exact createAndLink_keys_of_none hfound.symm hparse
    | some d =>
      simp only
      split
      next hle => exact linkEvidence_keys hfound.symm hle
      next hgt =>
        simp only [deleteKey, onWorld, ends_bind, ends_raiseWhen, ends_modify]
        refine ⟨fun h => .early (stopsEarly_of_raises h rfl), ?_⟩
        intro hdeleteKey
        have hstop : call.stopsEarly = false := by
          rw [Bool.eq_false_iff]
          intro hearly
          rcases hlate hearly with h | h | h
          · exact of_decide_eq_false hgetKey h
          · exact hgetDecision rfl h
          · exact of_decide_eq_false hdeleteKey h
        exact createAndLink_keys_of_passed hfound.symm (by omega) hstop hparse
  · intro e t hpost
    obtain ⟨rfl, hstep | ⟨raw, hraw, hid⟩⟩ := hpost
    · exact .early (by simp [AggregateCall.stopsEarly, hstep, AggregateStep.beforeDelete])
    · refine .kept ?_
      intro d hd
      obtain ⟨-, -, raw', id, hraw', hid'⟩ := World.openDecision_spec hd
      obtain rfl := Option.some.inj (hraw.symm.trans hraw')
      cases hid.symm.trans hid'

/-- The keys a call leaves that may have failed before it found its evidence and tenant. -/
def KeysLeft (w : World) (call : AggregateCall) (keys : String → Option RedisEntry) : Prop :=
  (keys = w.keys ∧ ∀ evidence d, ¬DropsOpen w call evidence d) ∨
    ∃ evidence, w.db.evidences.find call.evidenceId = some evidence ∧
      (w.db.tenants.find evidence.tenantId).isSome ∧ KeyTrace w call evidence keys

theorem KeysLeft.early (h : call.stopsEarly = true) : KeysLeft w call w.keys := by
  refine Or.inl ⟨rfl, ?_⟩
  intro evidence d hd
  simp [hd.late] at h

theorem AggregateStep.beforeDelete_of_loads {step : AggregateStep} (h : step.loads = true) :
    step.beforeDelete = true := by
  cases step with
  | setSessionContext | getEvidence | switchTenant | getTenant => rfl
  | _ => exact absurd h (by decide)

/-- A call that has found its evidence and tenant stops early only on its way to the open row. -/
theorem stopsEarly_cases (h : call.stopsEarly = true)
    (hloads : call.raisesAt.any AggregateStep.loads = false) :
    call.raisesAt = some .getKey ∨ call.raisesAt = some .getDecision ∨
      call.raisesAt = some .deleteKey := by
  obtain ⟨step, hstep, hbefore⟩ := (Option.any_eq_true _ _).mp h
  have hnot := (Option.any_eq_false _ _).mp hloads step hstep
  cases step with
  | getKey => exact Or.inl hstep
  | getDecision => exact Or.inr (Or.inl hstep)
  | deleteKey => exact Or.inr (Or.inr hstep)
  | setSessionContext | getEvidence | switchTenant | getTenant => exact absurd hnot (by decide)
  | _ => exact absurd hbefore (by decide)

theorem aggregateBody_keys (call : AggregateCall) (w : World) :
    Ends (aggregateBody call) (Session.open w) (fun _ _ => True) fun _ t =>
      KeysLeft w call t.world.keys ∧
        (call.raisesAt = some .closeSession ∨ t.world.db = w.db) := by
  rw [aggregateBody_eq]
  refine ends_bind.mpr (loadEvidence_ends.mono ?_ ?_)
  · intro loaded t hpost
    obtain ⟨evidence, tenant⟩ := loaded
    obtain ⟨rfl, hev, htn, hloads⟩ := hpost
    have left : ∀ {keys}, KeyTrace w call evidence keys → KeysLeft w call keys := fun h =>
      Or.inr ⟨evidence, hev, by simp [htn], h⟩
    refine ends_bind.mpr ((Ends.and (@mergeOrCreateDecision_ends w call evidence tenant)
      (mergeOrCreateDecision_keys fun h => stopsEarly_cases h hloads)).mono ?_ ?_)
    · intro d' t hpost
      obtain ⟨⟨d, keys, -, rfl, rfl⟩, htrace⟩ := hpost
      refine ends_bind.mpr
        ((applyStateTransitions_ends (KeyedTable.find_put_self _ _)).mono ?_ ?_)
      · intro d'' t hpost
        obtain ⟨rfl, rfl⟩ := hpost
        simp only [AggregateCall.at, commit, ends_bind, ends_raiseWhen, ends_modify, ends_pure]
        refine ⟨fun _ => ⟨left htrace, Or.inr rfl⟩, fun _ => ⟨fun h => ?_, fun _ => trivial⟩⟩
        exact ⟨left htrace, Or.inl (of_decide_eq_true h)⟩
      · intro e t hpost
        obtain ⟨-, es, ts, -, hw⟩ := hpost
        rw [hw]
        exact ⟨left htrace, Or.inr rfl⟩
    · intro e t hpost
      obtain ⟨⟨-, hleft⟩, htrace⟩ := hpost
      exact ⟨left htrace, Or.inr hleft.db⟩
  · intro e t hpost
    obtain ⟨hw, -, hcause⟩ := hpost
    rw [hw]
    refine ⟨?_, Or.inr rfl⟩
    rcases hcause with hr | hev | ⟨evidence, hev, htn⟩
    · obtain ⟨step, hstep, hloads⟩ := (Option.any_eq_true _ _).mp hr
      have hbefore := AggregateStep.beforeDelete_of_loads hloads
      exact .early ((Option.any_eq_true _ _).mpr ⟨step, hstep, hbefore⟩)
    · refine Or.inl ⟨rfl, ?_⟩
      intro evidence d hd
      simp [hd.evidence_found] at hev
    · refine Or.inl ⟨rfl, ?_⟩
      intro evidence' d hd
      obtain rfl := Option.some.inj (hev.symm.trans hd.evidence_found)
      have hfound := hd.tenant_found
      simp [htn] at hfound

/-- A call that raised before the end of its commit has left the rows as they were, and its own
key at most. -/
theorem failed_left {e : Exn} (hfail : (aggregate call w).1 = .error e)
    (hrolled : call.raisesAt ≠ some .closeSession) :
    (aggregate call w).2.db = w.db ∧ KeysLeft w call (aggregate call w).2.keys := by
  have h := aggregateBody_keys call w
  unfold aggregate runSession at hfail ⊢
  rcases hx : exec (aggregateBody call) (Session.open w) with ⟨r | r, t⟩
  · obtain ⟨hkeys, hdb⟩ := h.error hx
    exact ⟨hdb.resolve_left hrolled, hkeys⟩
  · rw [hx] at hfail
    cases hfail

end ArgusServices

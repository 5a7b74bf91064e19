import ArgusServices.Scopes
import ArgusServices.SerialInterleaving

namespace ArgusServices

open Effect Relation

variable {call : AggregateCall} {w v : World} {evidence : Evidence} {tenant : Tenant}
  {d : Decision} {keys : String → Option RedisEntry}

theorem at_of_ne {step : AggregateStep} (h : call.raisesAt ≠ some step) :
    call.at step = pure () := by
  simp [AggregateCall.at, raiseWhen, h]

/-- The call with another system failing it at a step, or nowhere. -/
def AggregateCall.raising (call : AggregateCall) (step : Option AggregateStep) : AggregateCall :=
  { call with raisesAt := step }

/-- The state in which a call creates its decision: it has deleted the key of one whose window
has passed. -/
def World.pastOpen (w : World) (evidence : Evidence) : World :=
  if (w.openDecision evidence).isSome then w.withKey (openDecisionKey evidence) none else w

/-- The call finds its evidence and its tenant. -/
structure Loads (w : World) (call : AggregateCall) (evidence : Evidence) (tenant : Tenant) :
    Prop where
  evidence_found : w.db.evidences.find call.evidenceId = some evidence
  tenant_found : w.db.tenants.find evidence.tenantId = some tenant

def World.KeyParses (w : World) (evidence : Evidence) : Prop :=
  ∀ raw, truthy ((w.keys (openDecisionKey evidence)).map RedisEntry.value) = some raw →
    (Uuid.parse raw).isSome

theorem aggregate_eq_ok {w' : World} (h : Ends (aggregateBody call) (Session.open w)
    (fun d' t => d' = d ∧ t.world = w') (fun _ _ => False)) :
    aggregate call w = (.ok d, w') := by
  obtain ⟨⟨result, t⟩, hexec⟩ : ∃ ended, exec (aggregateBody call) (Session.open w) = ended :=
    ⟨_, rfl⟩
  cases result with
  | ok d' =>
    obtain ⟨rfl, rfl⟩ := h.ok hexec
    simp only [aggregate, runSession, hexec]
  | error e => exact (h.error hexec).elim

theorem aggregate_eq_error {w' : World} (h : Ends (aggregateBody call) (Session.open w)
    (fun _ _ => False) (fun _ t => t.world = w')) :
    ∃ e, aggregate call w = (.error e, w') := by
  obtain ⟨⟨result, t⟩, hexec⟩ : ∃ ended, exec (aggregateBody call) (Session.open w) = ended :=
    ⟨_, rfl⟩
  cases result with
  | ok d' => exact (h.ok hexec).elim
  | error e =>
    obtain rfl := h.error hexec
    exact ⟨e, by simp only [aggregate, runSession, hexec]⟩

theorem aggregate_raises (w : World) (call : AggregateCall) :
    aggregate (call.raising (some .setSessionContext)) w = (.error .outage, w) := rfl

/-- A call that loads its rows goes on in a session of its tenant. -/
theorem aggregateBody_loads (h : Loads w call evidence tenant)
    (hstep : call.raisesAt.any AggregateStep.loads = false) {Q : Decision → Session → Prop}
    {E : Exn → Session → Prop}
    (hrest : Ends (do
      let merged ← mergeOrCreateDecision call evidence tenant
      let decision ← applyStateTransitions call merged tenant
      call.at .commit
      commit
      call.at .closeSession
      pure decision) (tenantOf w evidence) Q E) :
    Ends (aggregateBody call) (Session.open w) Q E := by
  rw [aggregateBody_eq, ends_bind]
  refine loadEvidence_ends.mono ?_ ?_
  · intro loaded t hpost
    obtain ⟨found, foundTenant⟩ := loaded
    obtain ⟨rfl, hev, htn, -⟩ := hpost
    obtain rfl := Option.some.inj (h.evidence_found.symm.trans hev)
    obtain rfl := Option.some.inj (h.tenant_found.symm.trans htn)
    exact hrest
  · intro e t hpost
    obtain ⟨-, -, hraises | hnone | ⟨found, hev, hnone⟩⟩ := hpost
    · simp [hstep] at hraises
    · simp [h.evidence_found] at hnone
    · obtain rfl := Option.some.inj (h.evidence_found.symm.trans hev)
      simp [h.tenant_found] at hnone

/-- The steps of `_merge_or_create_decision`. -/
def AggregateStep.merges : AggregateStep → Bool
  | .getKey | .getDecision | .deleteKey | .flushDecision | .setKey | .selectLink => true
  | _ => false

theorem mergeOrCreateDecision_raising (hstep : call.raisesAt.any AggregateStep.merges = false)
    (evidence : Evidence) (tenant : Tenant) :
    mergeOrCreateDecision call evidence tenant =
      mergeOrCreateDecision (call.raising none) evidence tenant := by
  have hat : ∀ step : AggregateStep, step.merges = true →
      call.at step = (call.raising none).at step := by
    intro step hmerges
    have hne : call.raisesAt ≠ some step := by
      intro heq
      simp [heq, hmerges] at hstep
    have hnone : (call.raising none).raisesAt ≠ some step := by
      intro heq
      cases heq
    rw [at_of_ne hne, at_of_ne hnone]
  simp only [mergeOrCreateDecision, createAndLink, createDecision, linkEvidence,
    hat .getKey rfl, hat .getDecision rfl, hat .deleteKey rfl, hat .flushDecision rfl,
    hat .setKey rfl, hat .selectLink rfl]
  rfl

theorem Target.raising (h : Target w call evidence tenant d keys) (step : Option AggregateStep) :
    Target w (call.raising step) evidence tenant d keys := by
  cases h with
  | merge hd hle => exact .merge hd hle
  | create hopen hfree hex => exact .create hopen hfree hex

theorem Target.unique {d' : Decision} {keys' : String → Option RedisEntry}
    (h : Target w call evidence tenant d keys) (h' : Target w call evidence tenant d' keys') :
    d' = d ∧ keys' = keys := by
  cases h with
  | merge hd hle =>
    cases h' with
    | merge hd' _ => exact ⟨Option.some.inj (hd'.symm.trans hd), rfl⟩
    | create hopen' _ _ =>
      have hlt := hopen' d hd
      omega
  | create hopen _ _ =>
    cases h' with
    | merge hd' hle' =>
      have hlt := hopen d' hd'
      omega
    | create _ _ _ => exact ⟨rfl, rfl⟩

theorem Target.not_refused (h : Target w call evidence tenant d keys)
    (hparses : w.KeyParses evidence) : ¬Refused w call evidence tenant := by
  rintro (⟨raw, hraw, hnone⟩ | ⟨hopen, hcreate⟩)
  · have hsome := hparses raw hraw
    simp [hnone] at hsome
  · cases h with
    | merge hd hle =>
      have hlt := hopen d hd
      omega
    | create _ hfree hex =>
      rcases hcreate with htaken | hshort
      · simp [hfree] at htaken
      · omega

/-- Past its merge, a call holds the row of its target. -/
theorem mergeOrCreateDecision_target (hstep : call.raisesAt.any AggregateStep.merges = false)
    (hparses : w.KeyParses evidence) (h : Target w call evidence tenant d keys) :
    Ends (mergeOrCreateDecision call evidence tenant) (tenantOf w evidence)
      (fun d' t => d' = afterLink w.db call d evidence ∧
        t = { tenantOf { w with keys := keys } evidence with tx := linkTx w.db call d evidence })
      (fun _ _ => False) := by
  rw [mergeOrCreateDecision_raising hstep]
  refine mergeOrCreateDecision_ends.mono ?_ ?_
  · intro d' t hpost
    obtain ⟨found, keys', htarget, rfl, rfl⟩ := hpost
    obtain ⟨rfl, rfl⟩ := (h.raising none).unique htarget
    exact ⟨rfl, rfl⟩
  · intro e t hpost
    obtain ⟨hraises | hrefused, -⟩ := hpost
    · exact hraises rfl
    · exact (h.raising none).not_refused hparses hrefused

/-- A call whose link cannot be looked up has set its key and sent nothing. -/
theorem mergeOrCreateDecision_selectLink (hr : call.raisesAt = some .selectLink)
    (hparses : w.KeyParses evidence) (h : Target w call evidence tenant d keys) :
    Ends (mergeOrCreateDecision call evidence tenant) (tenantOf w evidence)
      (fun _ _ => False) (fun _ t => t.world = { w with keys := keys }) := by
  have hlink : ∀ (s : Session) (d : Decision), Ends (linkEvidence call d evidence) s
      (fun _ _ => False) (fun _ t => t = s) := by
    intro s d
    simp [linkEvidence, AggregateCall.at, hr]
  have hcreate : ∀ s : Session, s.tx.decisions.find call.newId = none →
      0 < tenant.aggregationWindowSecs + 300 →
      Ends (createAndLink call evidence tenant) s (fun _ _ => False) (fun _ t => t.world =
        { s.world with
          keys := Function.update s.world.keys (openDecisionKey evidence)
            (some ⟨call.newId.str, some (tenant.aggregationWindowSecs + 300)⟩) }) := by
    intro s hfree hex
    have hpos : ¬tenant.aggregationWindowSecs + 300 ≤ 0 := by omega
    simp only [createAndLink, createDecision, AggregateCall.at, hr, onTx, setKey, onWorld, hfree,
      ends_bind, ends_raiseWhen, ends_get, ends_modify, ends_pure]
    simp only [reduceCtorEq, Option.some.injEq, decide_false, Option.isSome_none, hpos,
      Bool.false_eq_true, false_implies, true_and, forall_const]
    refine (hlink _ _).mono (fun _ _ hfalse => hfalse) ?_
    rintro e t rfl
    rfl
  rw [mergeOrCreateDecision_eq]
  simp only [AggregateCall.at, getKey, hr, ends_bind, ends_raiseWhen, ends_get, ends_pure]
  refine ⟨fun h => by simp at h, ?_⟩
  intro _
  apply openRow_ends.mono
  · intro found t hpost
    obtain ⟨hfound, rfl, -, -⟩ := hpost
    have hopened : w.openDecision evidence = found := hfound.symm
    cases h with
    | merge hd hle =>
      obtain rfl := hopened.symm.trans hd
      simp only
      rw [if_pos hle]
      refine (hlink _ _).mono (fun _ _ hfalse => hfalse) ?_
      rintro e t rfl
      rfl
    | create hopen hfree hex =>
      cases found with
      | none => exact hcreate _ hfree hex
      | some d =>
        have hlt := hopen d hopened
        simp only
        rw [if_neg (by omega)]
        simp only [deleteKey, onWorld, ends_bind, ends_raiseWhen, ends_modify]
        refine ⟨fun h => by simp at h, ?_⟩
        intro _
        refine (hcreate _ hfree hex).mono (fun _ _ hfalse => hfalse) ?_
        rintro e t ht
        rw [ht]
        simp [tenantOf]
  · intro e t hpost
    obtain ⟨rfl, hraises | ⟨raw, hraw, hnone⟩⟩ := hpost
    · simp [hr] at hraises
    · have hsome := hparses raw hraw
      simp [hnone] at hsome

/-- A call that cannot insert its decision has deleted the key of one that is past. -/
theorem mergeOrCreateDecision_flushDecision (hr : call.raisesAt = some .flushDecision)
    (hparses : w.KeyParses evidence) (hopen : w.Unmerged evidence) :
    Ends (mergeOrCreateDecision call evidence tenant) (tenantOf w evidence)
      (fun _ _ => False) (fun _ t => t.world = w.pastOpen evidence) := by
  have hcreate : ∀ s : Session, Ends (createAndLink call evidence tenant) s
      (fun _ _ => False) (fun _ t => t = s) := by
    intro s
    simp [createAndLink, createDecision, AggregateCall.at, hr]
  rw [mergeOrCreateDecision_eq]
  simp only [AggregateCall.at, getKey, hr, ends_bind, ends_raiseWhen, ends_get, ends_pure]
  refine ⟨fun h => by simp at h, ?_⟩
  intro _
  apply openRow_ends.mono
  · intro found t hpost
    obtain ⟨hfound, rfl, -, -⟩ := hpost
    cases found with
    | none =>
      refine (hcreate _).mono (fun _ _ hfalse => hfalse) ?_
      rintro e t rfl
      have hnone : w.openDecision evidence = none := hfound.symm
      simp [World.pastOpen, hnone, tenantOf]
    | some d =>
      have hlt := hopen d hfound.symm
      simp only
      rw [if_neg (by omega)]
      simp only [deleteKey, onWorld, ends_bind, ends_raiseWhen, ends_modify]
      refine ⟨fun h => by simp at h, ?_⟩
      intro _
      refine (hcreate _).mono (fun _ _ hfalse => hfalse) ?_
      rintro e t rfl
      have hsome : w.openDecision evidence = some d := hfound.symm
      simp only [World.pastOpen, hsome, tenantOf, Option.isSome_some, ↓reduceIte]
      rfl
  · intro e t hpost
    obtain ⟨rfl, hraises | ⟨raw, hraw, hnone⟩⟩ := hpost
    · simp [hr] at hraises
    · have hsome := hparses raw hraw
      simp [hnone] at hsome

/-- The state a call leaves that works on a decision and commits. -/
def World.merged (w : World) (call : AggregateCall) (evidence : Evidence) (tenant : Tenant)
    (d : Decision) (keys : String → Option RedisEntry) : World where
  db := stateTx (linkTx w.db call d evidence) call tenant (afterLink w.db call d evidence)
  keys := keys
  published := w.published ++ newEvents tenant (afterLink w.db call d evidence)
  notifyWarning := w.notifyWarning ++ newTasks tenant (afterLink w.db call d evidence)

theorem applyStateTransitions_raising {step : Option AggregateStep} (hstep : ∀ st, step = some st →
      st = .commit) (d : Decision) (tenant : Tenant) :
    applyStateTransitions (call.raising step) d tenant =
      applyStateTransitions (call.raising none) d tenant := by
  have hat : ∀ st : AggregateStep, st ≠ .commit →
      (call.raising step).at st = (call.raising none).at st := by
    intro st hne
    have hraising : (call.raising step).raisesAt ≠ some st := by
      intro heq
      exact hne (hstep st heq)
    have hnone : (call.raising none).raisesAt ≠ some st := by
      intro heq
      cases heq
    rw [at_of_ne hraising, at_of_ne hnone]
  have haudit : AggregateStep.flushAudit ≠ .commit := by decide
  have hws : AggregateStep.publishWsEvent ≠ .commit := by decide
  have hevent : AggregateStep.publishEvent ≠ .commit := by decide
  have hnotify : AggregateStep.notifyDelay ≠ .commit := by decide
  simp only [applyStateTransitions, emitStateChange, hat .flushAudit haudit,
    hat .publishWsEvent hws, hat .publishEvent hevent, hat .notifyDelay hnotify]
  rfl

theorem aggregate_target (hload : Loads w call evidence tenant) (hparses : w.KeyParses evidence)
    (h : Target w call evidence tenant d keys) :
    aggregate (call.raising none) w =
      (.ok (afterState call tenant (afterLink w.db call d evidence)),
        w.merged call evidence tenant d keys) := by
  apply aggregate_eq_ok
  refine @aggregateBody_loads (call.raising none) w evidence tenant
    ⟨hload.evidence_found, hload.tenant_found⟩ rfl _ _ (ends_bind.mpr ?_)
  refine (mergeOrCreateDecision_target rfl hparses (h.raising none)).mono ?_ (fun _ _ hf => hf)
  rintro merged t ⟨rfl, rfl⟩
  refine ends_bind.mpr
    ((applyStateTransitions_ends (KeyedTable.find_put_self _ _)).mono ?_ ?_)
  · rintro d' t ⟨rfl, rfl⟩
    simp only [AggregateCall.at, commit, ends_bind, ends_raiseWhen, ends_modify, ends_pure]
    refine ⟨?_, fun _ => ⟨?_, fun _ => ⟨rfl, rfl⟩⟩⟩
    · intro hraises
      cases hraises
    · intro hraises
      cases hraises
  · rintro e t ⟨hraises, -⟩
    exact hraises rfl

/-- The rows a call has in its session when it looks at the state of its decision. -/
def afterMerge (w : World) (call : AggregateCall) (evidence : Evidence) (d : Decision)
    (keys : String → Option RedisEntry) : Session :=
  { tenantOf { w with keys := keys } evidence with tx := linkTx w.db call d evidence }

theorem aggregate_raises_late {step : AggregateStep} {w' : World}
    (hloads : step.loads = false) (hmerges : step.merges = false)
    (hload : Loads w call evidence tenant) (hparses : w.KeyParses evidence)
    (h : Target w call evidence tenant d keys)
    (hrest : Ends (do
      let decision ← applyStateTransitions (call.raising (some step))
        (afterLink w.db call d evidence) tenant
      (call.raising (some step)).at .commit
      commit
      (call.raising (some step)).at .closeSession
      pure decision) (afterMerge w call evidence d keys) (fun _ _ => False)
      (fun _ t => t.world = w')) :
    ∃ e, aggregate (call.raising (some step)) w = (.error e, w') := by
  apply aggregate_eq_error
  refine @aggregateBody_loads (call.raising (some step)) w evidence tenant
    ⟨hload.evidence_found, hload.tenant_found⟩ hloads _ _ (ends_bind.mpr ?_)
  refine (@mergeOrCreateDecision_target (call.raising (some step)) w evidence tenant d keys hmerges
    hparses (h.raising (some step))).mono ?_ ?_
  · rintro merged t ⟨rfl, rfl⟩
    exact hrest
  · intro e t hfalse
    exact hfalse.elim

theorem aggregate_raises_commit (hload : Loads w call evidence tenant)
    (hparses : w.KeyParses evidence) (h : Target w call evidence tenant d keys) :
    ∃ e, aggregate (call.raising (some .commit)) w =
      (.error e, { w.merged call evidence tenant d keys with db := w.db }) := by
  apply aggregate_raises_late rfl rfl hload hparses h
  have hcommit : ∀ st, some AggregateStep.commit = some st → st = .commit := by
    intro st heq
    exact (Option.some.inj heq).symm
  rw [applyStateTransitions_raising hcommit]
  refine ends_bind.mpr
    ((applyStateTransitions_ends (KeyedTable.find_put_self _ _)).mono ?_ ?_)
  · rintro d' t ⟨rfl, rfl⟩
    simp only [AggregateCall.at, commit, ends_bind, ends_raiseWhen, ends_modify, ends_pure]
    exact ⟨fun _ => rfl, fun hraises => by simp [AggregateCall.raising] at hraises⟩
  · rintro e t ⟨hraises, -⟩
    exact absurd rfl hraises

/-- A call that fails between its messages has sent the ones before. -/
theorem applyStateTransitions_publish {step : AggregateStep} {sent : List Event} {s : Session}
    (hnew : computeState d tenant ≠ d.state)
    (hsent : step = .publishEvent ∧ sent = (newEvents tenant d).take 1 ∨
      step = .notifyDelay ∧ sent = newEvents tenant d ∧ computeState d tenant = .warning) :
    Ends (applyStateTransitions (call.raising (some step)) d tenant) s (fun _ _ => False)
      (fun _ t => t.world = { s.world with published := s.world.published ++ sent }) := by
  simp only [applyStateTransitions]
  rw [if_neg hnew]
  simp only [newEvents, if_neg hnew] at hsent
  rcases hsent with ⟨rfl, rfl⟩ | ⟨rfl, rfl, hwarning⟩
  · simp [AggregateCall.at, AggregateCall.raising, saveDecision, writeAuditRecord,
      emitStateChange, publish, onTx, onWorld]
  · simp [AggregateCall.at, AggregateCall.raising, saveDecision, writeAuditRecord,
      emitStateChange, publish, onTx, onWorld, hwarning]

theorem aggregate_raises_publish {step : AggregateStep} {sent : List Event}
    (hload : Loads w call evidence tenant) (hparses : w.KeyParses evidence)
    (h : Target w call evidence tenant d keys)
    (hnew : computeState (afterLink w.db call d evidence) tenant ≠
      (afterLink w.db call d evidence).state)
    (hsent : step = .publishEvent ∧
        sent = (newEvents tenant (afterLink w.db call d evidence)).take 1 ∨
      step = .notifyDelay ∧ sent = newEvents tenant (afterLink w.db call d evidence) ∧
        computeState (afterLink w.db call d evidence) tenant = .warning) :
    ∃ e, aggregate (call.raising (some step)) w =
      (.error e, { w with keys := keys, published := w.published ++ sent }) := by
  have hloads : step.loads = false := by
    rcases hsent with ⟨rfl, -⟩ | ⟨rfl, -⟩ <;> rfl
  have hmerges : step.merges = false := by
    rcases hsent with ⟨rfl, -⟩ | ⟨rfl, -⟩ <;> rfl
  apply aggregate_raises_late hloads hmerges hload hparses h
  refine ends_bind.mpr ((applyStateTransitions_publish hnew hsent).mono ?_ ?_)
  · intro d' t hfalse
    exact hfalse.elim
  · intro e t ht
    exact ht

theorem aggregate_raises_selectLink (hload : Loads w call evidence tenant)
    (hparses : w.KeyParses evidence) (h : Target w call evidence tenant d keys) :
    ∃ e, aggregate (call.raising (some .selectLink)) w = (.error e, { w with keys := keys }) := by
  apply aggregate_eq_error
  refine @aggregateBody_loads (call.raising (some .selectLink)) w evidence tenant
    ⟨hload.evidence_found, hload.tenant_found⟩ rfl _ _ (ends_bind.mpr ?_)
  refine (mergeOrCreateDecision_selectLink rfl hparses (h.raising _)).mono ?_ (fun _ _ ht => ht)
  intro d' t hfalse
  exact hfalse.elim

theorem aggregate_raises_flushDecision (hload : Loads w call evidence tenant)
    (hparses : w.KeyParses evidence) (hopen : w.Unmerged evidence) :
    ∃ e, aggregate (call.raising (some .flushDecision)) w = (.error e, w.pastOpen evidence) := by
  apply aggregate_eq_error
  refine @aggregateBody_loads (call.raising (some .flushDecision)) w evidence tenant
    ⟨hload.evidence_found, hload.tenant_found⟩ rfl _ _ (ends_bind.mpr ?_)
  refine (mergeOrCreateDecision_flushDecision rfl hparses hopen).mono ?_ (fun _ _ ht => ht)
  intro d' t hfalse
  exact hfalse.elim

/-- Whatever a call has sent of its messages when it fails, a serial call that fails at some step
has sent the same. -/
theorem aggregate_sent {sent unsent : List Message} (hload : Loads w call evidence tenant)
    (hparses : w.KeyParses evidence) (h : Target w call evidence tenant d keys)
    (hsplit : sent ++ unsent =
      (newEvents tenant (afterLink w.db call d evidence)).map Message.event ++
        (newTasks tenant (afterLink w.db call d evidence)).map Message.task) :
    ∃ step e, aggregate (call.raising (some step)) w =
      (.error e, sent.foldl World.send { w with keys := keys }) := by
  have hnone : sent = [] → ∃ step e, aggregate (call.raising (some step)) w =
      (.error e, sent.foldl World.send { w with keys := keys }) := by
    rintro rfl
    exact ⟨_, aggregate_raises_selectLink hload hparses h⟩
  have hall : unsent = [] → ∃ step e, aggregate (call.raising (some step)) w =
      (.error e, sent.foldl World.send { w with keys := keys }) := by
    rintro rfl
    rw [List.append_nil] at hsplit
    rw [hsplit, foldl_send]
    exact ⟨_, aggregate_raises_commit hload hparses h⟩
  by_cases hnew : computeState (afterLink w.db call d evidence) tenant =
      (afterLink w.db call d evidence).state
  · simp only [newEvents, newTasks, hnew, ↓reduceIte, ne_eq, not_true_eq_false, false_and,
      List.map_nil, List.append_nil, List.append_eq_nil_iff] at hsplit
    exact hnone hsplit.1
  · have hpublish := @aggregate_raises_publish call w evidence tenant d keys
    simp only [newEvents, if_neg hnew] at hsplit hpublish
    cases sent with
    | nil => exact hnone rfl
    | cons first sent =>
      cases sent with
      | nil =>
        simp only [List.map_cons, List.cons_append, List.nil_append, List.cons.injEq] at hsplit
        obtain ⟨rfl, -⟩ := hsplit
        obtain ⟨e, he⟩ := hpublish hload hparses h hnew (Or.inl ⟨rfl, rfl⟩)
        exact ⟨_, e, he⟩
      | cons second sent =>
        simp only [List.map_cons, List.map_nil, List.cons_append, List.nil_append,
          List.cons.injEq] at hsplit
        obtain ⟨rfl, rfl, hrest⟩ := hsplit
        by_cases hwarning : computeState (afterLink w.db call d evidence) tenant = .warning
        · cases sent with
          | nil =>
            obtain ⟨e, he⟩ := hpublish hload hparses h hnew (Or.inr ⟨rfl, rfl, hwarning⟩)
            refine ⟨_, e, he.trans ?_⟩
            simp [World.send]
          | cons third sent =>
            have htasks : (newTasks tenant (afterLink w.db call d evidence)).length ≤ 1 := by
              unfold newTasks
              split <;> simp
            have hlength := congrArg List.length hrest
            simp only [List.cons_append, List.length_cons, List.length_append,
              List.length_map] at hlength
            exact hall (List.length_eq_zero_iff.mp (by omega))
        · simp only [newTasks, hwarning, and_false, ↓reduceIte, List.map_nil,
            List.append_eq_nil_iff] at hrest
          exact hall hrest.2

end ArgusServices

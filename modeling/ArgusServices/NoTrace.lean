import ArgusServices.FailedAggregate

namespace ArgusServices

open Effect

section TwoWorlds

variable {reserved : Uuid → Prop} {db₀ : Db}

/-- The open key of an evidence leads to no decision of its tenant, and names no id but a reserved
one. -/
def Lost (reserved : Uuid → Prop) (db₀ : Db) (keys : String → Option RedisEntry)
    (evidence : Evidence) : Prop :=
  ∀ raw, truthy ((keys (openDecisionKey evidence)).map RedisEntry.value) = some raw →
    ∃ id, Uuid.parse raw = some id ∧ reserved id ∧
      ∀ d, db₀.decisions.find id = some d → d.tenantId ≠ evidence.tenantId

/-- The rows of the reserved ids have the tenants they had. -/
def KeepsTenants (reserved : Uuid → Prop) (db₀ db : Db) : Prop :=
  ∀ id, reserved id → (db.decisions.find id).map Decision.tenantId =
    (db₀.decisions.find id).map Decision.tenantId

/-- Two worlds with the same rows, whose open keys differ only where they lead nowhere. -/
structure SameBut (reserved : Uuid → Prop) (db₀ : Db) (w w' : World) : Prop where
  db : w'.db = w.db
  keys : ∀ e, w'.keys (openDecisionKey e) = w.keys (openDecisionKey e) ∨
    (Lost reserved db₀ w.keys e ∧ Lost reserved db₀ w'.keys e)
  tenants : KeepsTenants reserved db₀ w.db

/-- Two sessions of one call, once it has switched to the tenant of its evidence. -/
structure Paired (reserved : Uuid → Prop) (db₀ : Db) (tenantId : Uuid) (s t : Session) :
    Prop where
  tx : t.tx = s.tx
  world : SameBut reserved db₀ s.world t.world
  tenants : KeepsTenants reserved db₀ s.tx
  tenant : s.tenant = some tenantId ∧ t.tenant = some tenantId
  role : s.role = some .tenantAdmin ∧ t.role = some .tenantAdmin

/-- A row a session holds is of the tenant that its id stands for. -/
def Decision.Known (reserved : Uuid → Prop) (db₀ : Db) (d : Decision) : Prop :=
  reserved d.id → (db₀.decisions.find d.id).map Decision.tenantId = some d.tenantId

variable {tenantId : Uuid} {s t : Session} {call : AggregateCall} {evidence : Evidence}
  {tenant : Tenant} {d : Decision}

theorem KeepsTenants.put {db : Db} (h : KeepsTenants reserved db₀ db)
    (hd : d.Known reserved db₀) :
    KeepsTenants reserved db₀ { db with decisions := db.decisions.put d } := by
  intro id hid
  simp only [KeyedTable.find_put]
  split
  next heq =>
    subst heq
    exact (hd hid).symm
  next => exact h id hid

theorem Paired.setTx (h : Paired reserved db₀ tenantId s t) {tx tx' : Db} (heq : tx' = tx)
    (htx : KeepsTenants reserved db₀ tx) :
    Paired reserved db₀ tenantId { s with tx := tx } { t with tx := tx' } :=
  ⟨heq, h.world, htx, h.tenant, h.role⟩

theorem Paired.send (h : Paired reserved db₀ tenantId s t) {w w' : World}
    (hdb : w.db = s.world.db) (hdb' : w'.db = t.world.db) (hkeys : w.keys = s.world.keys)
    (hkeys' : w'.keys = t.world.keys) :
    Paired reserved db₀ tenantId { s with world := w } { t with world := w' } := by
  refine ⟨h.tx, ⟨?_, ?_, ?_⟩, h.tenants, h.tenant, h.role⟩
  · rw [hdb, hdb', h.world.db]
  · rw [hkeys, hkeys']
    exact h.world.keys
  · rw [hdb]
    exact h.world.tenants

theorem Paired.setKey (h : Paired reserved db₀ tenantId s t) (evidence : Evidence)
    (entry : Option RedisEntry) :
    Paired reserved db₀ tenantId
      { s with world := { s.world with
        keys := Function.update s.world.keys (openDecisionKey evidence) entry } }
      { t with world := { t.world with
        keys := Function.update t.world.keys (openDecisionKey evidence) entry } } := by
  refine ⟨h.tx, ⟨h.world.db, ?_, h.world.tenants⟩, h.tenants, h.tenant, h.role⟩
  intro e
  by_cases hkey : openDecisionKey e = openDecisionKey evidence
  · exact Or.inl (by simp [hkey])
  · simp only [Lost, ne_eq, hkey, not_false_eq_true, Function.update_of_ne]
    exact h.world.keys e

theorem linkEvidence_alike (h : Paired reserved db₀ tenantId s t)
    (hd : d.Known reserved db₀) :
    Alike (linkEvidence call d evidence) s (linkEvidence call d evidence) t
      (fun d' s' t' => Paired reserved db₀ tenantId s' t' ∧ d'.Known reserved db₀)
      (Paired reserved db₀ tenantId) := by
  simp only [linkEvidence, AggregateCall.at]
  apply alike_raiseWhen_bind h
  intro _
  rw [alike_get_bind, h.tx]
  split
  next => exact alike_pure.mpr ⟨h, hd⟩
  next =>
    simp only [onTx, saveDecision, alike_modify_bind, alike_pure]
    have hrow : KeepsTenants reserved db₀ { s.tx with
        decisions := s.tx.decisions.put { d.addEvidence evidence with updatedAt := call.now }
        decisionEvidences := s.tx.decisionEvidences ++ [linkRow d evidence] } :=
      h.tenants.put (d := _) hd
    exact ⟨h.setTx (by rw [h.tx]) hrow, hd⟩

theorem createAndLink_alike (h : Paired reserved db₀ tenantId s t)
    (hnew : ¬reserved call.newId) :
    Alike (createAndLink call evidence tenant) s (createAndLink call evidence tenant) t
      (fun d' s' t' => Paired reserved db₀ tenantId s' t' ∧ d'.Known reserved db₀)
      (Paired reserved db₀ tenantId) := by
  have hknown : (newDecision call evidence tenant).Known reserved db₀ := fun hres =>
    absurd hres hnew
  simp only [createAndLink, createDecision, AggregateCall.at, setKey, onTx, onWorld, bind_assoc]
  apply alike_raiseWhen_bind h
  intro _
  rw [alike_get_bind, h.tx]
  apply alike_raiseWhen_bind h
  intro _
  have hput := h.setTx (congrArg (fun db : Db => { db with
    decisions := db.decisions.put (newDecision call evidence tenant) }) h.tx)
    (h.tenants.put hknown)
  simp only [alike_modify_bind, pure_bind]
  apply alike_raiseWhen_bind hput
  intro _
  apply alike_raiseWhen_bind hput
  intro _
  rw [alike_modify_bind]
  exact linkEvidence_alike (hput.setKey evidence _) hknown

/-- Where the key leads nowhere, a session of the tenant finds no row. -/
theorem Lost.openRow (hlost : Lost reserved db₀ s.world.keys evidence)
    (htenants : KeepsTenants reserved db₀ s.tx) (htenant : s.tenant = some evidence.tenantId)
    (hrole : s.role = some .tenantAdmin) (hstep : call.raisesAt ≠ some .getDecision) :
    exec (openRow call ((s.world.keys (openDecisionKey evidence)).map RedisEntry.value)) s =
      (.ok none, s) := by
  unfold ArgusServices.openRow
  split
  next => rfl
  next raw hraw =>
    obtain ⟨id, hid, hreserved, hother⟩ := hlost raw hraw
    have hhidden : ((s.tx.decisions.find id).filter fun d => s.sees d.tenantId) = none := by
      rw [Option.filter_eq_none_iff]
      intro d hd
      have hrow := htenants id hreserved
      rw [hd] at hrow
      obtain ⟨d', hd', hsame⟩ := Option.map_eq_some_iff.mp hrow.symm
      have hne := hother d' hd'
      rw [hsame] at hne
      simp [Session.sees, htenant, hrole, hne.symm]
    simp only [hid, AggregateCall.at, decide_eq_false hstep]
    rw [← hhidden]
    rfl

theorem openRow_alike (h : Paired reserved db₀ evidence.tenantId s t)
    (hstep : call.raisesAt ≠ some .getDecision) :
    Alike (openRow call ((s.world.keys (openDecisionKey evidence)).map RedisEntry.value)) s
      (openRow call ((t.world.keys (openDecisionKey evidence)).map RedisEntry.value)) t
      (fun found s' t' => Paired reserved db₀ evidence.tenantId s' t' ∧
        ∀ d ∈ found, d.Known reserved db₀) (Paired reserved db₀ evidence.tenantId) := by
  rcases h.world.keys evidence with hsame | ⟨hlost, hlost'⟩
  · rw [hsame]
    unfold openRow
    split
    next => exact alike_pure.mpr ⟨h, fun d hd => nomatch hd⟩
    next raw hraw =>
      split
      next => exact alike_throw.mpr h
      next id hid =>
        simp only [AggregateCall.at, getDecision]
        apply alike_raiseWhen_bind h
        intro _
        have hsees : t.sees = s.sees := by
          funext id'
          simp only [Session.sees, h.tenant.1, h.tenant.2, h.role.1, h.role.2]
        rw [alike_get_bind, h.tx, hsees, alike_pure]
        refine ⟨h, ?_⟩
        intro d hd hreserved
        obtain ⟨hrow, -⟩ := Option.filter_eq_some_iff.mp hd
        have hkey := s.tx.decisions.keyed _ _ hrow
        subst hkey
        rw [← h.tenants d.id hreserved, hrow, Option.map_some]
  · have htenants : KeepsTenants reserved db₀ t.tx := by
      rw [h.tx]
      exact h.tenants
    unfold Alike
    rw [hlost.openRow h.tenants h.tenant.1 h.role.1 hstep,
      hlost'.openRow htenants h.tenant.2 h.role.2 hstep]
    exact ⟨rfl, h, fun d hd => nomatch hd⟩

theorem mergeOrCreateDecision_alike (h : Paired reserved db₀ evidence.tenantId s t)
    (hstep : call.raisesAt ≠ some .getDecision) (hnew : ¬reserved call.newId) :
    Alike (mergeOrCreateDecision call evidence tenant) s
      (mergeOrCreateDecision call evidence tenant) t
      (fun d' s' t' => Paired reserved db₀ evidence.tenantId s' t' ∧ d'.Known reserved db₀)
      (Paired reserved db₀ evidence.tenantId) := by
  simp only [mergeOrCreateDecision_eq, AggregateCall.at, getKey, deleteKey, onWorld, bind_assoc,
    pure_bind]
  apply alike_raiseWhen_bind h
  intro _
  rw [alike_get_bind]
  apply (openRow_alike h hstep).bind
  intro found s' t' hfound
  obtain ⟨h', hknown⟩ := hfound
  cases found with
  | none => exact createAndLink_alike h' hnew
  | some d =>
    simp only
    split
    next => exact linkEvidence_alike h' (hknown d rfl)
    next =>
      apply alike_raiseWhen_bind h'
      intro _
      rw [alike_modify_bind]
      exact createAndLink_alike (h'.setKey evidence none) hnew

theorem onWorld_alike {f : World → World} (h : Paired reserved db₀ tenantId s t)
    (hdb : ∀ w, (f w).db = w.db) (hkeys : ∀ w, (f w).keys = w.keys) :
    Alike (onWorld f) s (onWorld f) t (fun _ s' t' => Paired reserved db₀ tenantId s' t')
      (Paired reserved db₀ tenantId) :=
  alike_modify.mpr (h.send (hdb _) (hdb _) (hkeys _) (hkeys _))

theorem publish_alike (h : Paired reserved db₀ tenantId s t) (e : Event) :
    Alike (publish e) s (publish e) t (fun _ s' t' => Paired reserved db₀ tenantId s' t')
      (Paired reserved db₀ tenantId) :=
  onWorld_alike h (fun _ => rfl) fun _ => rfl

theorem emitStateChange_alike (h : Paired reserved db₀ tenantId s t)
    {oldState newState : DecisionState} :
    Alike (emitStateChange call d oldState newState) s (emitStateChange call d oldState newState) t
      (fun _ s' t' => Paired reserved db₀ tenantId s' t') (Paired reserved db₀ tenantId) := by
  simp only [emitStateChange, AggregateCall.at]
  apply alike_raiseWhen_bind h
  intro _
  apply (publish_alike h _).bind
  intro _ s₁ t₁ h₁
  apply alike_raiseWhen_bind h₁
  intro _
  apply (publish_alike h₁ _).bind
  intro _ s₂ t₂ h₂
  split
  next =>
    apply alike_raiseWhen_bind h₂
    intro _
    exact onWorld_alike h₂ (fun _ => rfl) fun _ => rfl
  next => exact alike_pure.mpr h₂

theorem saveDecision_alike (h : Paired reserved db₀ tenantId s t) (hd : d.Known reserved db₀)
    (now : Int) :
    Alike (saveDecision now d) s (saveDecision now d) t
      (fun _ s' t' => Paired reserved db₀ tenantId s' t') (Paired reserved db₀ tenantId) := by
  apply alike_modify.mpr
  exact h.setTx (by rw [h.tx]) (h.tenants.put (d := { d with updatedAt := now }) hd)

theorem writeAuditRecord_alike (h : Paired reserved db₀ tenantId s t) {eventType : String}
    {payload : AuditPayload} {actor : Option String} :
    Alike (writeAuditRecord d eventType payload actor) s
      (writeAuditRecord d eventType payload actor) t
      (fun _ s' t' => Paired reserved db₀ tenantId s' t') (Paired reserved db₀ tenantId) := by
  apply alike_modify.mpr
  exact h.setTx (by rw [h.tx]) h.tenants

theorem applyStateTransitions_alike (h : Paired reserved db₀ tenantId s t)
    (hd : d.Known reserved db₀) :
    Alike (applyStateTransitions call d tenant) s (applyStateTransitions call d tenant) t
      (fun _ s' t' => Paired reserved db₀ tenantId s' t') (Paired reserved db₀ tenantId) := by
  simp only [applyStateTransitions]
  split
  next => exact alike_pure.mpr h
  next =>
    apply alike_raiseWhen_bind h
    intro _
    apply (saveDecision_alike (d := { d with state := computeState d tenant }) h hd call.now).bind
    intro _ s₁ t₁ h₁
    apply (writeAuditRecord_alike h₁).bind
    intro _ s₂ t₂ h₂
    apply (emitStateChange_alike h₂).bind
    intro _ s₃ t₃ h₃
    exact alike_pure.mpr h₃

variable {w w' : World}

theorem loadEvidence_alike (h : SameBut reserved db₀ w w') :
    Alike (loadEvidence call) (Session.open w) (loadEvidence call) (Session.open w')
      (fun loaded s t => Paired reserved db₀ loaded.1.tenantId s t)
      (fun s t => SameBut reserved db₀ s.world t.world) := by
  simp only [loadEvidence, AggregateCall.at, setSessionContext]
  refine alike_raiseWhen_bind h ?_
  intro _
  rw [alike_modify_bind]
  refine alike_raiseWhen_bind h ?_
  intro _
  rw [alike_get_bind]
  simp only [Session.open, h.db]
  cases w.db.evidences.find call.evidenceId with
  | none => exact alike_throw.mpr h
  | some evidence =>
    refine alike_raiseWhen_bind h ?_
    intro _
    rw [alike_modify_bind]
    refine alike_raiseWhen_bind h ?_
    intro _
    cases w.db.tenants.find evidence.tenantId with
    | none => exact alike_throw.mpr h
    | some tenant => exact alike_pure.mpr ⟨rfl, h, h.tenants, ⟨rfl, rfl⟩, ⟨rfl, rfl⟩⟩

/-- The same call in the two worlds leaves two such worlds again. -/
theorem SameBut.aggregate (h : SameBut reserved db₀ w w') (hnew : ¬reserved call.newId)
    (hstep : call.raisesAt ≠ some .getDecision) :
    SameBut reserved db₀ (aggregate call w).2 (aggregate call w').2 := by
  suffices hbody : Alike (aggregateBody call) (Session.open w) (aggregateBody call)
      (Session.open w') (fun _ s t => SameBut reserved db₀ s.world t.world)
      (fun s t => SameBut reserved db₀ s.world t.world) from hbody.snd
  rw [aggregateBody_eq]
  apply (loadEvidence_alike h).bind
  intro loaded s t hpaired
  have hmerge := @mergeOrCreateDecision_alike _ _ _ _ _ loaded.1 loaded.2 hpaired hstep hnew
  apply (hmerge.mono (fun _ _ _ hq => hq) fun _ _ hp => hp.world).bind
  intro d s₁ t₁ hpost
  obtain ⟨h₁, hknown⟩ := hpost
  have happly := @applyStateTransitions_alike _ _ _ _ _ call loaded.2 d h₁ hknown
  apply (happly.mono (fun _ _ _ hq => hq) fun _ _ hp => hp.world).bind
  intro d' s₂ t₂ h₂
  refine alike_raiseWhen_bind h₂.world ?_
  intro _
  simp only [commit]
  rw [alike_modify_bind]
  have hdone : SameBut reserved db₀ { s₂.world with db := s₂.tx }
      { t₂.world with db := t₂.tx } :=
    ⟨h₂.tx, h₂.world.keys, h₂.tenants⟩
  refine alike_raiseWhen_bind hdone ?_
  intro _
  exact alike_pure.mpr hdone

/-- What may come after a failed call: calls with ids of their own, keys that expire and new
evidences. An outage at the read of the decision is left out, as only a call that has found a key
gets there. -/
def Later (reserved : Uuid → Prop) : Request → Prop
  | .aggregate call => ¬reserved call.newId ∧ call.raisesAt ≠ some .getDecision
  | .expireKey _ | .insertEvidence _ => True
  | .resolve _ => False

theorem SameBut.serve (h : SameBut reserved db₀ w w') {r : Request} (hr : Later reserved r) :
    SameBut reserved db₀ (serve w r) (serve w' r) := by
  cases r with
  | aggregate call => exact h.aggregate hr.1 hr.2
  | resolve call => exact hr.elim
  | expireKey key =>
    refine ⟨h.db, ?_, h.tenants⟩
    intro e
    simp only [ArgusServices.serve]
    by_cases hkey : openDecisionKey e = key
    · exact Or.inl (by simp [hkey])
    · simp only [Lost, ne_eq, hkey, not_false_eq_true, Function.update_of_ne]
      exact h.keys e
  | insertEvidence evidence =>
    simp only [ArgusServices.serve, h.db]
    split
    · exact h
    · exact ⟨rfl, h.keys, h.tenants⟩

theorem SameBut.run (h : SameBut reserved db₀ w w') {rs : List Request}
    (hrs : ∀ r ∈ rs, Later reserved r) :
    SameBut reserved db₀ (rs.foldl ArgusServices.serve w) (rs.foldl ArgusServices.serve w') := by
  induction rs generalizing w w' with
  | nil => exact h
  | cons r rs ih =>
    apply ih (h.serve (hrs r (by simp)))
    intro r' hr'
    exact hrs r' (by simp [hr'])

end TwoWorlds

/-- The ids a later decision does not take: that of the failed call and those in the open keys. -/
def Reserved (w : World) (call : AggregateCall) (id : Uuid) : Prop :=
  id = call.newId ∨ ∃ e, w.keyId e = some id

/-- No later run of requests can tell the two worlds apart by their rows. -/
def NoTrace (w : World) (call : AggregateCall) : Prop :=
  ∀ rs : List Request, (∀ r ∈ rs, Later (Reserved w call) r) →
    (rs.foldl serve (aggregate call w).2).db = (rs.foldl serve w).db

variable {w : World} {call : AggregateCall} {evidence : Evidence} {d : Decision} {e : Exn}

theorem openDecision_of_find {raw : String} {id : Uuid}
    (hraw : truthy ((w.keys (openDecisionKey evidence)).map RedisEntry.value) = some raw)
    (hid : Uuid.parse raw = some id) (hd : w.db.decisions.find id = some d)
    (htenant : d.tenantId = evidence.tenantId) : w.openDecision evidence = some d := by
  simp [World.openDecision, hraw, hid, hd, htenant]

/-- A failed call that drops no open decision leaves keys that differ where they lead nowhere. -/
theorem failed_sameBut (hfail : (aggregate call w).1 = .error e)
    (hrolled : call.raisesAt ≠ some .closeSession)
    (hno : ∀ evidence d, ¬DropsOpen w call evidence d) :
    SameBut (Reserved w call) w.db w (aggregate call w).2 := by
  obtain ⟨hdb, hkeys⟩ := failed_left hfail hrolled
  refine ⟨hdb, ?_, fun _ _ => rfl⟩
  intro e'
  rcases hkeys with ⟨hsame, -⟩ | ⟨evidence, hev, htn, htrace⟩
  · exact Or.inl (by rw [hsame])
  · generalize (aggregate call w).2.keys = keys at htrace
    cases htrace with
    | kept _ => exact Or.inl rfl
    | deleted hopen hpassed hlate => exact absurd ⟨hev, htn, hopen, hpassed, hlate⟩ (hno evidence _)
    | @set ex hfree hunmerged hparse hlate =>
      by_cases hkey : openDecisionKey e' = openDecisionKey evidence
      · have htenant : e'.tenantId = evidence.tenantId :=
          congrArg Place.tenantId (openDecisionKey_eq_iff.mp hkey)
        refine Or.inr ⟨?_, ?_⟩
        · intro raw hraw
          rw [hkey] at hraw
          obtain ⟨id, hid⟩ := Option.isSome_iff_exists.mp (hparse raw hraw)
          refine ⟨id, hid, Or.inr ⟨evidence, by rw [World.keyId, hraw, Option.bind_some, hid]⟩, ?_⟩
          intro d hd hsame
          have hopen := openDecision_of_find hraw hid hd (hsame.trans htenant)
          exact hno evidence d ⟨hev, htn, hopen, hunmerged d hopen, hlate d hopen⟩
        · intro raw hraw
          rw [hkey, Function.update_self, Option.map_some,
            truthy_some (Uuid.str_ne_empty _)] at hraw
          obtain rfl := Option.some.inj hraw
          refine ⟨call.newId, Uuid.parse_str _, Or.inl rfl, ?_⟩
          intro d hd
          rw [hfree] at hd
          cases hd
      · exact Or.inl (by simp [hkey])

/-- After a failed call that drops an open decision the key leads to none. -/
theorem DropsOpen.openDecision (h : DropsOpen w call evidence d)
    (hfail : (aggregate call w).1 = .error e) (hrolled : call.raisesAt ≠ some .closeSession) :
    (aggregate call w).2.openDecision evidence = none := by
  obtain ⟨hdb, hkeys⟩ := failed_left hfail hrolled
  rcases hkeys with ⟨-, hno⟩ | ⟨evidence', hev, -, htrace⟩
  · exact absurd h (hno evidence d)
  · obtain rfl := Option.some.inj (hev.symm.trans h.evidence_found)
    unfold World.openDecision
    rw [hdb]
    generalize (aggregate call w).2.keys = keys at htrace
    cases htrace with
    | kept hearly =>
      have hlate := h.late
      simp [hearly d h.opened h.passed] at hlate
    | deleted => simp [truthy]
    | set hfree => simp [truthy_some (Uuid.str_ne_empty _), Uuid.parse_str, hfree]

/-- An evidence of the same place, captured while the window of the decision was open. -/
def lateEvidence (evidence : Evidence) (d : Decision) (id : Uuid) : Evidence :=
  { evidence with id := id, capturedAt := d.windowEnd }

theorem serve_insertEvidence (w : World) (evidence : Evidence)
    (hfree : w.db.evidences.find evidence.id = none) : serve w (.insertEvidence evidence) =
      { w with db := { w.db with evidences := w.db.evidences.put evidence } } := by
  simp [serve, hfree]

theorem lateEvidence_linked {id : Uuid} (newId : Uuid) (h : w.openDecision evidence = some d)
    (htenant : (w.db.tenants.find evidence.tenantId).isSome)
    (hfree : w.db.evidences.find id = none) :
    ∃ l ∈ ([.insertEvidence (lateEvidence evidence d id), .aggregate ⟨id, newId, 0, none⟩].foldl
      serve w).db.decisionEvidences, l.decisionId = d.id ∧ l.evidenceId = id := by
  obtain ⟨tenant, htn⟩ := Option.isSome_iff_exists.mp htenant
  have hins := serve_insertEvidence w (lateEvidence evidence d id) hfree
  simp only [List.foldl_cons, List.foldl_nil, hins]
  generalize hw₁ : ({ w with db := { w.db with
    evidences := w.db.evidences.put (lateEvidence evidence d id) } } : World) = w₁
  have hopen : w₁.openDecision (lateEvidence evidence d id) = some d := by
    rw [← hw₁]
    exact h
  have hev : w₁.db.evidences.find id = some (lateEvidence evidence d id) := by
    rw [← hw₁]
    exact KeyedTable.find_put_self _ (lateEvidence evidence d id)
  have htn₁ : w₁.db.tenants.find (lateEvidence evidence d id).tenantId = some tenant := by
    rw [← hw₁]
    exact htn
  have hle : (lateEvidence evidence d id).capturedAt ≤ d.windowEnd := Int.le_refl _
  obtain ⟨d', hd'⟩ := @aggregate_commits ⟨id, newId, 0, none⟩ w₁ _ _ rfl hev htn₁
    (not_refused_of_merge hopen hle)
  obtain ⟨l, hl, hld, hle'⟩ := hd'.linked
  refine ⟨l, hl, ?_, hle'⟩
  rcases hd'.target.found with ⟨hd, -, -⟩ | ⟨-, hno, -⟩
  · rw [hld, Option.some.inj (hd.symm.trans hopen)]
  · have := hno d hopen
    omega

theorem lateEvidence_not_linked {id newId : Uuid} (h : w.openDecision evidence = none)
    (hd : w.db.decisions.find d.id = some d) (hfree : w.db.evidences.find id = none)
    (hlinks : ∀ l ∈ w.db.decisionEvidences, l.evidenceId ≠ id) :
    ∀ l ∈ ([.insertEvidence (lateEvidence evidence d id), .aggregate ⟨id, newId, 0, none⟩].foldl
      serve w).db.decisionEvidences, ¬(l.decisionId = d.id ∧ l.evidenceId = id) := by
  have hins := serve_insertEvidence w (lateEvidence evidence d id) hfree
  simp only [List.foldl_cons, List.foldl_nil, hins]
  generalize hw₁ : ({ w with db := { w.db with
    evidences := w.db.evidences.put (lateEvidence evidence d id) } } : World) = w₁
  have hopen : w₁.openDecision (lateEvidence evidence d id) = none := by
    rw [← hw₁]
    exact h
  have hold : ∀ l ∈ w₁.db.decisionEvidences, l.evidenceId ≠ id := by
    rw [← hw₁]
    exact hlinks
  intro l hl hboth
  rcases aggregate_cases ⟨id, newId, 0, none⟩ w₁ with hr | ⟨evidence', tenant, d', hd'⟩
  · simp only [serve, hr.db] at hl
    exact hold l hl hboth.2
  · have hev : w₁.db.evidences.find id = some (lateEvidence evidence d id) := by
      rw [← hw₁]
      exact KeyedTable.find_put_self _ (lateEvidence evidence d id)
    obtain rfl := Option.some.inj (hev.symm.trans hd'.evidence_found)
    rcases hd'.mem_links hl with hl | ⟨hid', -⟩
    · exact hold l hl hboth.2
    · have hid : d'.id = d.id := hid'.symm.trans hboth.1
      rcases hd'.target.spec with ⟨hsome, -, -⟩ | ⟨-, -, hnone, -⟩
      · rw [hopen] at hsome
        cases hsome
      · rw [hid, ← hw₁] at hnone
        exact absurd (hd.symm.trans hnone) (by simp)

/-- A failed and rolled back call can be noticed later exactly if it drops an open decision: it
finds one whose window has passed and raises after it has deleted its key. -/
theorem noTrace_iff (hfail : (aggregate call w).1 = .error e)
    (hrolled : call.raisesAt ≠ some .closeSession)
    (hunused : ∃ id, w.db.evidences.find id = none ∧
      ∀ l ∈ w.db.decisionEvidences, l.evidenceId ≠ id)
    (hfresh : ∃ id, ¬Reserved w call id) :
    NoTrace w call ↔ ∀ evidence d, ¬DropsOpen w call evidence d := by
  constructor
  · intro hsame evidence d hdrop
    obtain ⟨id, hfree, hlinks⟩ := hunused
    obtain ⟨newId, hnew⟩ := hfresh
    have hdb := (failed_left hfail hrolled).1
    obtain ⟨l, hl, hboth⟩ := lateEvidence_linked newId hdrop.opened hdrop.tenant_found hfree
    have hend := hsame [.insertEvidence (lateEvidence evidence d id),
      .aggregate ⟨id, newId, 0, none⟩] (by simp [Later, hnew])
    rw [← hend] at hl
    refine lateEvidence_not_linked (hdrop.openDecision hfail hrolled) ?_ ?_ ?_ l hl hboth
    · rw [hdb]
      exact (World.openDecision_spec hdrop.opened).1
    · rw [hdb]
      exact hfree
    · rw [hdb]
      exact hlinks
  · intro hno rs hrs
    exact ((failed_sameBut hfail hrolled hno).run hrs).db

def capturedEvidence (id : BitVec 128) (secs : Int) : Evidence :=
  { sampleEvidence id none 1 with capturedAt := seconds secs }

/-- A minute's window that the second evidence has left, while the third one still belongs to it. -/
def droppedStart : World :=
  serve (sampleWorld [capturedEvidence 11 0, capturedEvidence 12 90, capturedEvidence 13 50])
    (.aggregate (sampleAggregate 11 20))

def failsAtCommit (evidenceId : BitVec 128) : AggregateCall :=
  { sampleAggregate evidenceId 21 with raisesAt := some .commit }

theorem droppedStart_keys : droppedStart.keys = Function.update (fun _ => none)
    (openDecisionKey (capturedEvidence 11 0)) (some ⟨Uuid.str ⟨20⟩, some 360⟩) := by
  rfl

theorem droppedStart_fresh (evidenceId : BitVec 128) :
    ¬Reserved droppedStart (failsAtCommit evidenceId) ⟨22⟩ := by
  intro h
  rcases h with h | ⟨e, he⟩
  · have hid : (⟨22⟩ : Uuid) = ⟨21⟩ := h
    exact absurd hid (by decide)
  · simp only [World.keyId, droppedStart_keys, Function.update_apply] at he
    split at he
    · rw [Option.map_some, truthy_some (Uuid.str_ne_empty _), Option.bind_some,
        Uuid.parse_str] at he
      exact absurd (Option.some.inj he) (by decide)
    · cases he

theorem not_always_noTrace : ¬∀ (w : World) (call : AggregateCall) (e : Exn),
    (aggregate call w).1 = .error e → call.raisesAt ≠ some .closeSession → NoTrace w call := by
  intro h
  have hsame := h droppedStart (failsAtCommit 12) .outage rfl (by decide)
    [.aggregate (sampleAggregate 13 22)] ?_
  · have hrow := congrArg (fun db => (db.decisions.find ⟨22⟩).isSome) hsame
    exact absurd hrow (by decide +kernel)
  · intro r hr
    obtain rfl := List.mem_singleton.mp hr
    exact ⟨droppedStart_fresh 12, by decide⟩

/-- The evidence of the open window may fail without a trace, the one after it may not. -/
theorem noTrace_iff_sample :
    NoTrace droppedStart (failsAtCommit 13) ∧ ¬NoTrace droppedStart (failsAtCommit 12) := by
  have hunused : ∃ id, droppedStart.db.evidences.find id = none ∧
      ∀ l ∈ droppedStart.db.decisionEvidences, l.evidenceId ≠ id :=
    ⟨⟨14⟩, by decide +kernel, by decide +kernel⟩
  constructor
  · refine (noTrace_iff (e := .outage) rfl (by decide) hunused
      ⟨_, droppedStart_fresh 13⟩).mpr ?_
    intro evidence d hdrop
    have hev : droppedStart.db.evidences.find ⟨13⟩ = some (capturedEvidence 13 50) := by
      decide +kernel
    obtain rfl := Option.some.inj (hev.symm.trans hdrop.evidence_found)
    have hopen : ∀ d ∈ droppedStart.openDecision (capturedEvidence 13 50),
        seconds 50 ≤ d.windowEnd := by decide +kernel
    have hle := hopen d hdrop.opened
    have hlt := hdrop.passed
    simp only [capturedEvidence] at hlt
    omega
  · intro hsame
    obtain ⟨d, hd⟩ := Option.isSome_iff_exists.mp (by decide +kernel :
      (droppedStart.openDecision (capturedEvidence 12 90)).isSome = true)
    have hpassed : ∀ d ∈ droppedStart.openDecision (capturedEvidence 12 90),
        d.windowEnd < seconds 90 := by decide +kernel
    exact (noTrace_iff (e := .outage) rfl (by decide) hunused
      ⟨_, droppedStart_fresh 12⟩).mp hsame _ d
      ⟨by decide +kernel, by decide +kernel, hd, hpassed d hd, by decide⟩

end ArgusServices

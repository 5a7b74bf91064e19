import ArgusServices.TenantView

namespace ArgusServices

open Effect

variable {tenantId : Uuid} {s t : Session} {call : AggregateCall} {evidence : Evidence}
  {tenant : Tenant} {d : Decision} {db db' : Db}

theorem SameRows.link (h : SameRows tenantId db db') {l : DecisionEvidence}
    (htenant : l.tenantId = tenantId) (hd : db.has tenantId l.decisionId = true) :
    SameRows tenantId { db with decisionEvidences := db.decisionEvidences ++ [l] }
      { db' with decisionEvidences := db'.decisionEvidences ++ [l] } := by
  have hreferred : ∀ {db : Db}, db.Referred → db.has tenantId l.decisionId = true →
      Db.Referred { db with decisionEvidences := db.decisionEvidences ++ [l] } := by
    intro db href hd
    refine ⟨?_, href.feedback⟩
    intro l' hl'
    rcases List.mem_append.mp hl' with hl' | hl'
    · exact href.links l' hl'
    · obtain rfl := List.mem_singleton.mp hl'
      exact htenant ▸ hd
  refine ⟨h.tenant, h.evidences, h.decisions, ?_, h.feedback, h.audits, h.fewer,
    h.fewerEvidences, hreferred h.referred hd, hreferred h.referred' (h.has _ ▸ hd)⟩
  simp only [List.filter_append, h.links]

theorem SameRows.answer (h : SameRows tenantId db db') {f : Feedback}
    (htenant : f.tenantId = tenantId) (hd : db.has tenantId f.decisionId = true) :
    SameRows tenantId { db with feedback := db.feedback ++ [f] }
      { db' with feedback := db'.feedback ++ [f] } := by
  have hreferred : ∀ {db : Db}, db.Referred → db.has tenantId f.decisionId = true →
      Db.Referred { db with feedback := db.feedback ++ [f] } := by
    intro db href hd
    refine ⟨href.links, ?_⟩
    intro f' hf'
    rcases List.mem_append.mp hf' with hf' | hf'
    · exact href.feedback f' hf'
    · obtain rfl := List.mem_singleton.mp hf'
      exact htenant ▸ hd
  refine ⟨h.tenant, h.evidences, h.decisions, h.links, ?_, h.audits, h.fewer,
    h.fewerEvidences, hreferred h.referred hd, hreferred h.referred' (h.has _ ▸ hd)⟩
  simp only [List.filter_append, h.feedback]

theorem SameRows.audit (h : SameRows tenantId db db') (r : AuditRecord) :
    SameRows tenantId { db with auditRecords := db.auditRecords ++ [r] }
      { db' with auditRecords := db'.auditRecords ++ [r] } := by
  refine ⟨h.tenant, h.evidences, h.decisions, h.links, h.feedback, ?_, h.fewer,
    h.fewerEvidences, ⟨h.referred.links, h.referred.feedback⟩,
    ⟨h.referred'.links, h.referred'.feedback⟩⟩
  simp only [List.filter_append, h.audits]

/-- An answer is looked for among the answers of the tenant only. -/
theorem Db.Referred.answered (h : db.Referred) {id : Uuid} (hd : db.has tenantId id = true) :
    (db.feedback.any fun f => f.decisionId = id) =
      (db.feedback.filter fun f => f.tenantId = tenantId).any fun f => f.decisionId = id := by
  rw [List.any_filter, Bool.eq_iff_iff, List.any_eq_true, List.any_eq_true]
  refine exists_congr fun f => and_congr_right fun hf => ?_
  constructor
  · intro hmatch
    have htenant := Db.has_unique (of_decide_eq_true hmatch ▸ h.feedback f hf) hd
    simp only [htenant, decide_true, Bool.true_and]
    exact hmatch
  · intro hmatch
    exact (Bool.and_eq_true_iff.mp hmatch).2

theorem SameRows.answered (h : SameRows tenantId db db') {id : Uuid}
    (hd : db.has tenantId id = true) :
    (db'.feedback.any fun f => f.decisionId = id) =
      db.feedback.any fun f => f.decisionId = id := by
  rw [h.referred.answered hd, h.referred'.answered (h.has id ▸ hd), h.feedback]

/-- The rows of both sessions change alike, and no enqueued task gets a row or loses it. -/
theorem Beside.setTx (h : Beside tenantId s t) {tx tx' : Db} (hrows : SameRows tenantId tx tx')
    (hhas : ∀ id ∈ s.world.notifyWarning, tx.has tenantId id = s.tx.has tenantId id) :
    Beside tenantId { s with tx := tx } { t with tx := tx' } := by
  refine ⟨hrows, h.world, ?_, h.tenant, h.role⟩
  have hs : s.world.notifyWarning.filter (tx.has tenantId) =
      s.world.notifyWarning.filter (s.tx.has tenantId) := List.filter_congr hhas
  have ht : t.world.notifyWarning.filter (tx'.has tenantId) =
      t.world.notifyWarning.filter (t.tx.has tenantId) := by
    apply List.filter_congr
    intro id hid
    rw [hrows.has, h.tx.has]
    exact hhas id (h.world.fewerTasks id hid)
  rw [hs, ht]
  exact h.tasks

theorem Beside.saveRow (h : Beside tenantId s t) {r : Decision} (hr : Held tenantId s r) :
    Beside tenantId { s with tx := { s.tx with decisions := s.tx.decisions.put r } }
      { t with tx := { t.tx with decisions := t.tx.decisions.put r } } := by
  apply h.setTx (h.tx.put hr.1 (Or.inl hr.2))
  intro id _
  rw [Db.has_put]
  split
  next heq =>
    rw [heq, hr.2]
    exact decide_eq_true hr.1
  next => rfl

theorem Held.saved {r : Decision} (hd : Held tenantId s d) (hr : Held tenantId s r) :
    Held tenantId { s with tx := { s.tx with decisions := s.tx.decisions.put r } } d := by
  refine ⟨hd.1, ?_⟩
  rw [Db.has_put]
  split
  next => exact decide_eq_true hr.1
  next => exact hd.2

theorem Beside.setKey (h : Beside tenantId s t) (evidence : Evidence)
    (entry : Option RedisEntry) :
    Beside tenantId
      { s with world := { s.world with
        keys := Function.update s.world.keys (openDecisionKey evidence) entry } }
      { t with world := { t.world with
        keys := Function.update t.world.keys (openDecisionKey evidence) entry } } := by
  refine ⟨h.tx, ⟨h.world.rows, ?_, h.world.published, h.world.tasks, h.world.fewerTasks⟩,
    h.tasks, h.tenant, h.role⟩
  intro e he
  simp only [Function.update_apply, h.world.keys e he]

theorem publish_beside (h : Beside tenantId s t) (e : Event) :
    Alike (publish e) s (publish e) t (fun _ s' t' => Beside tenantId s' t' ∧ s'.tx = s.tx)
      (fun s' t' => SameView tenantId s'.world t'.world) := by
  refine alike_modify.mpr ⟨⟨h.tx, ⟨h.world.rows, h.world.keys, ?_, h.world.tasks,
    h.world.fewerTasks⟩, h.tasks, h.tenant, h.role⟩, rfl⟩
  simp only [List.filter_append, h.world.published]

theorem Beside.notify (h : Beside tenantId s t) (id : Uuid) :
    Beside tenantId
      { s with world := { s.world with notifyWarning := s.world.notifyWarning ++ [id] } }
      { t with world := { t.world with notifyWarning := t.world.notifyWarning ++ [id] } } := by
  refine ⟨h.tx, ⟨h.world.rows, h.world.keys, h.world.published, ?_, ?_⟩, ?_, h.tenant, h.role⟩
  · simp only [List.filter_append, h.world.tasks, List.filter_cons, h.world.rows.has,
      List.filter_nil]
  · intro id' hid'
    rcases List.mem_append.mp hid' with hid' | hid'
    · exact List.mem_append_left _ (h.world.fewerTasks id' hid')
    · exact List.mem_append_right _ hid'
  · simp only [List.filter_append, h.tasks, List.filter_cons, h.tx.has, List.filter_nil]

theorem linkEvidence_beside (h : Beside tenantId s t) (hd : Held tenantId s d)
    (hev : evidence.tenantId = tenantId) :
    Alike (linkEvidence call d evidence) s (linkEvidence call d evidence) t
      (fun d' s' t' => Beside tenantId s' t' ∧ Held tenantId s' d')
      (fun s' t' => SameView tenantId s'.world t'.world) := by
  simp only [linkEvidence, AggregateCall.at]
  refine alike_raiseWhen_bind h.world ?_
  intro _
  rw [alike_get_bind, h.tx.linked hd.2]
  split
  next => exact alike_pure.mpr ⟨h, hd⟩
  next =>
    simp only [onTx, saveDecision, alike_modify_bind, alike_pure]
    have hlink := h.setTx (h.tx.link (l := linkRow d evidence) hev hd.2) fun _ _ => rfl
    have hrow : Held tenantId { s with tx := { s.tx with
        decisionEvidences := s.tx.decisionEvidences ++ [linkRow d evidence] } }
        { d.addEvidence evidence with updatedAt := call.now } := hd
    exact ⟨hlink.saveRow hrow, hrow.saved hrow⟩

theorem createAndLink_beside (h : Beside tenantId s t) (hev : evidence.tenantId = tenantId)
    (hnew : Unused call.newId s) :
    Alike (createAndLink call evidence tenant) s (createAndLink call evidence tenant) t
      (fun d' s' t' => Beside tenantId s' t' ∧ Held tenantId s' d')
      (fun s' t' => SameView tenantId s'.world t'.world) := by
  simp only [createAndLink, createDecision, AggregateCall.at, setKey, onTx, onWorld, bind_assoc]
  refine alike_raiseWhen_bind h.world ?_
  intro _
  rw [alike_get_bind, hnew.rows, h.tx.fewer _ hnew.rows]
  refine alike_raiseWhen_bind h.world ?_
  intro _
  have hput : Beside tenantId
      { s with tx := { s.tx with
        decisions := s.tx.decisions.put (newDecision call evidence tenant) } }
      { t with tx := { t.tx with
        decisions := t.tx.decisions.put (newDecision call evidence tenant) } } := by
    apply h.setTx (h.tx.put hev (Or.inr hnew.rows))
    intro id hid
    rw [Db.has_put, if_neg]
    intro heq
    obtain rfl : id = call.newId := heq
    exact hnew.tasks hid
  have hheld : Held tenantId { s with tx := { s.tx with
      decisions := s.tx.decisions.put (newDecision call evidence tenant) } }
      (newDecision call evidence tenant) := by
    refine ⟨hev, ?_⟩
    rw [Db.has_put, if_pos rfl]
    exact decide_eq_true hev
  simp only [alike_modify_bind, pure_bind]
  refine alike_raiseWhen_bind hput.world ?_
  intro _
  refine alike_raiseWhen_bind hput.world ?_
  intro _
  rw [alike_modify_bind]
  exact linkEvidence_beside (hput.setKey evidence _) hheld hev

theorem Beside.sees (h : Beside tenantId s t) (id : Uuid) :
    s.sees id = decide (id = tenantId) ∧ t.sees id = decide (id = tenantId) := by
  simp only [Session.sees, h.tenant.1, h.tenant.2, h.role.1, h.role.2, Option.some.injEq,
    decide_false, Bool.or_false, eq_comm, and_self]

theorem getDecision_beside (h : Beside tenantId s t) (id : Uuid) :
    Alike (getDecision id) s (getDecision id) t
      (fun found s' t' => s' = s ∧ t' = t ∧ ∀ d ∈ found, Held tenantId s d)
      (fun s' t' => SameView tenantId s'.world t'.world) := by
  have hs : (fun d : Decision => s.sees d.tenantId) = fun d => decide (d.tenantId = tenantId) :=
    funext fun d => (h.sees d.tenantId).1
  have ht : (fun d : Decision => t.sees d.tenantId) = fun d => decide (d.tenantId = tenantId) :=
    funext fun d => (h.sees d.tenantId).2
  simp only [getDecision]
  rw [alike_get_bind, hs, ht, h.tx.decisions, alike_pure]
  refine ⟨rfl, rfl, ?_⟩
  intro d hd
  obtain ⟨hrow, htenant⟩ := Option.filter_eq_some_iff.mp hd
  have hkey := s.tx.decisions.keyed _ _ hrow
  subst hkey
  refine ⟨of_decide_eq_true htenant, ?_⟩
  simp only [Db.has, hrow, Option.any_some]
  exact htenant

theorem openRow_beside (h : Beside tenantId s t) (raw : Option String) :
    Alike (openRow call raw) s (openRow call raw) t
      (fun found s' t' => s' = s ∧ t' = t ∧ ∀ d ∈ found, Held tenantId s d)
      (fun s' t' => SameView tenantId s'.world t'.world) := by
  unfold openRow
  split
  next => exact alike_pure.mpr ⟨rfl, rfl, fun d hd => nomatch hd⟩
  next raw hraw =>
    split
    next => exact alike_throw.mpr h.world
    next id hid =>
      simp only [AggregateCall.at]
      refine alike_raiseWhen_bind h.world ?_
      intro _
      exact getDecision_beside h id

theorem mergeOrCreateDecision_beside (h : Beside tenantId s t)
    (hev : evidence.tenantId = tenantId) (hnew : Unused call.newId s) :
    Alike (mergeOrCreateDecision call evidence tenant) s
      (mergeOrCreateDecision call evidence tenant) t
      (fun d' s' t' => Beside tenantId s' t' ∧ Held tenantId s' d')
      (fun s' t' => SameView tenantId s'.world t'.world) := by
  simp only [mergeOrCreateDecision_eq, AggregateCall.at, getKey, deleteKey, onWorld, bind_assoc,
    pure_bind]
  refine alike_raiseWhen_bind h.world ?_
  intro _
  rw [alike_get_bind, h.world.keys evidence hev]
  apply (openRow_beside h _).bind
  intro found s' t' hfound
  obtain ⟨rfl, rfl, hheld⟩ := hfound
  cases found with
  | none => exact createAndLink_beside h hev hnew
  | some d =>
    simp only
    split
    next => exact linkEvidence_beside h (hheld d rfl) hev
    next =>
      refine alike_raiseWhen_bind h.world ?_
      intro _
      rw [alike_modify_bind]
      exact createAndLink_beside (h.setKey evidence none) hev ⟨hnew.rows, hnew.tasks⟩

theorem emitStateChange_beside (h : Beside tenantId s t) {oldState newState : DecisionState} :
    Alike (emitStateChange call d oldState newState) s (emitStateChange call d oldState newState) t
      (fun _ s' t' => Beside tenantId s' t')
      (fun s' t' => SameView tenantId s'.world t'.world) := by
  simp only [emitStateChange, AggregateCall.at]
  refine alike_raiseWhen_bind h.world ?_
  intro _
  apply (publish_beside h _).bind
  intro _ s₁ t₁ hpost
  obtain ⟨h₁, -⟩ := hpost
  refine alike_raiseWhen_bind h₁.world ?_
  intro _
  apply (publish_beside h₁ _).bind
  intro _ s₂ t₂ hpost
  obtain ⟨h₂, -⟩ := hpost
  split
  next =>
    refine alike_raiseWhen_bind h₂.world ?_
    intro _
    exact alike_modify.mpr (h₂.notify d.id)
  next => exact alike_pure.mpr h₂

theorem applyStateTransitions_beside (h : Beside tenantId s t) (hd : Held tenantId s d) :
    Alike (applyStateTransitions call d tenant) s (applyStateTransitions call d tenant) t
      (fun _ s' t' => Beside tenantId s' t')
      (fun s' t' => SameView tenantId s'.world t'.world) := by
  simp only [applyStateTransitions]
  split
  next => exact alike_pure.mpr h
  next =>
    refine alike_raiseWhen_bind h.world ?_
    intro _
    have hrow : Held tenantId s
        { d with state := computeState d tenant, updatedAt := call.now } := hd
    have hsaved := h.saveRow hrow
    simp only [saveDecision, writeAuditRecord, onTx, alike_modify_bind]
    have haudit := hsaved.setTx (hsaved.tx.audit ⟨d.tenantId, d.id, "state_change",
      .stateChange d.state (computeState d tenant) d.evidenceCount d.cumulativeSeverity,
      some "worker-aggregator"⟩) fun _ _ => rfl
    apply (emitStateChange_beside haudit).bind
    intro _ s₁ t₁ h₁
    exact alike_pure.mpr h₁

variable {w w' : World}

/-- What both sessions commit they both see. -/
theorem Beside.committed (h : Beside tenantId s t) :
    SameView tenantId { s.world with db := s.tx } { t.world with db := t.tx } :=
  ⟨h.tx, h.world.keys, h.world.published, h.tasks, h.world.fewerTasks⟩

/-- The evidence of a call, as the administrator's session finds it, is of the tenant. -/
def OwnEvidence (tenantId : Uuid) (db : Db) (call : AggregateCall) : Bool :=
  (db.evidences.find call.evidenceId).any fun e => e.tenantId = tenantId

theorem loadEvidence_beside (h : SameView tenantId w w') (hown : OwnEvidence tenantId w.db call) :
    Alike (loadEvidence call) (Session.open w) (loadEvidence call) (Session.open w')
      (fun loaded s t => loaded.1.tenantId = tenantId ∧ Beside tenantId s t ∧
        s.tx = w.db ∧ s.world = w)
      (fun s t => SameView tenantId s.world t.world) := by
  simp only [loadEvidence, AggregateCall.at, setSessionContext]
  refine alike_raiseWhen_bind h ?_
  intro _
  rw [alike_modify_bind]
  refine alike_raiseWhen_bind h ?_
  intro _
  rw [alike_get_bind]
  simp only [Session.open]
  have hsame := h.rows.evidences call.evidenceId
  unfold OwnEvidence at hown
  cases hev : w.db.evidences.find call.evidenceId with
  | none => simp [hev] at hown
  | some evidence =>
    rw [hev, Option.any_some] at hown
    rw [hev, Option.filter_some, if_pos hown] at hsame
    obtain ⟨hev', -⟩ := Option.filter_eq_some_iff.mp hsame
    have htenant : evidence.tenantId = tenantId := of_decide_eq_true hown
    rw [hev']
    refine alike_raiseWhen_bind h ?_
    intro _
    rw [alike_modify_bind]
    refine alike_raiseWhen_bind h ?_
    intro _
    simp only [htenant, h.rows.tenant]
    cases w.db.tenants.find tenantId with
    | none => exact alike_throw.mpr h
    | some tenant =>
      have hrole : some UserRole.tenantAdmin ≠ some UserRole.rootAdmin := by decide
      refine alike_pure.mpr ⟨htenant, ?_, rfl, rfl⟩
      exact ⟨h.rows, h, h.tasks, ⟨rfl, rfl⟩, ⟨hrole, hrole⟩⟩

/-- A call on an evidence of the tenant does the same in two worlds it cannot tell apart. -/
theorem aggregateBody_beside (h : SameView tenantId w w')
    (hown : OwnEvidence tenantId w.db call) (hnew : Unused call.newId (Session.open w)) :
    Alike (aggregateBody call) (Session.open w) (aggregateBody call) (Session.open w')
      (fun _ s t => SameView tenantId s.world t.world)
      (fun s t => SameView tenantId s.world t.world) := by
  rw [aggregateBody_eq]
  apply (loadEvidence_beside h hown).bind
  intro loaded s t hpost
  obtain ⟨hev, hbeside, htx, hworld⟩ := hpost
  have hunused : Unused call.newId s := by
    refine ⟨?_, ?_⟩
    · rw [htx]
      exact hnew.rows
    · rw [hworld]
      exact hnew.tasks
  apply (mergeOrCreateDecision_beside hbeside hev hunused).bind
  intro d s₁ t₁ hpost
  obtain ⟨h₁, hheld⟩ := hpost
  apply (applyStateTransitions_beside h₁ hheld).bind
  intro d' s₂ t₂ h₂
  refine alike_raiseWhen_bind h₂.world ?_
  intro _
  simp only [commit]
  rw [alike_modify_bind]
  refine alike_raiseWhen_bind h₂.committed ?_
  intro _
  exact alike_pure.mpr h₂.committed

section Resolve

variable {call : ResolveCall}

theorem getTenantDb_beside (h : SameView tenantId w w') (hcall : call.tenantId = tenantId) :
    Alike (getTenantDb call) (Session.open w) (getTenantDb call) (Session.open w')
      (fun _ s t => s.world = w ∧ t.world = w' ∧
        (call.auth.role ∈ [UserRole.watcher, .tenantAdmin] → Beside tenantId s t))
      (fun s t => SameView tenantId s.world t.world) := by
  simp only [getTenantDb, requireTenantAccess, ResolveCall.at]
  refine alike_raiseWhen_bind h ?_
  intro haccess
  refine alike_raiseWhen_bind h ?_
  intro _
  split
  next hroot =>
    refine alike_modify.mpr ⟨rfl, rfl, ?_⟩
    intro hrole
    rw [hroot] at hrole
    cases hrole with
    | tail _ hrole =>
      cases hrole with
      | tail _ hrole => cases hrole
  next hroot =>
    refine alike_modify.mpr ⟨rfl, rfl, ?_⟩
    intro _
    have hten : call.auth.tenantId = some tenantId := by
      simpa [hroot, hcall] using haccess
    have hnot : some call.auth.role ≠ some UserRole.rootAdmin := fun h => hroot (Option.some.inj h)
    exact ⟨h.rows, h, h.tasks, by simp [hten, Session.open], ⟨hnot, hnot⟩⟩

theorem createFeedbackWithEmbedding_beside (h : Beside tenantId s t) (hd : Held tenantId s d)
    (hcall : call.tenantId = tenantId) :
    Alike (createFeedbackWithEmbedding call d) s (createFeedbackWithEmbedding call d) t
      (fun _ s' t' => Beside tenantId s' t')
      (fun s' t' => SameView tenantId s'.world t'.world) := by
  simp only [createFeedbackWithEmbedding, ResolveCall.at]
  refine alike_raiseWhen_bind h.world ?_
  intro _
  refine alike_raiseWhen_bind h.world ?_
  intro _
  rw [alike_get_bind, h.tx.answered hd.2]
  refine alike_raiseWhen_bind h.world ?_
  intro _
  have hanswer := h.setTx (h.tx.answer (f := ⟨call.tenantId, d.id, call.body.disposition,
    if call.body.reasoning = "" then call.body.disposition.value else call.body.reasoning,
    call.auth.sub⟩) hcall hd.2) fun _ _ => rfl
  exact alike_modify.mpr hanswer

theorem resolveDecisionHandler_beside (h : Beside tenantId s t) (hcall : call.tenantId = tenantId) :
    Alike (resolveDecisionHandler call) s (resolveDecisionHandler call) t
      (fun _ s' t' => Beside tenantId s' t')
      (fun s' t' => SameView tenantId s'.world t'.world) := by
  simp only [resolveDecisionHandler, ResolveCall.at]
  refine alike_raiseWhen_bind h.world ?_
  intro _
  apply (getDecision_beside h call.decisionId).bind
  intro found s' t' hpost
  obtain ⟨rfl, rfl, hheld⟩ := hpost
  cases found with
  | none => exact alike_throw.mpr h.world
  | some d =>
    have hd := hheld d rfl
    refine alike_raiseWhen_bind h.world ?_
    intro _
    refine alike_raiseWhen_bind h.world ?_
    intro _
    refine alike_raiseWhen_bind h.world ?_
    intro _
    have hrow : Held tenantId s' { d.resolve call with updatedAt := call.now } := hd
    simp only [saveDecision, writeAuditRecord, onTx]
    rw [alike_modify_bind]
    apply (createFeedbackWithEmbedding_beside (h.saveRow hrow) (hd.saved hrow) hcall).bind
    intro _ s₁ t₁ h₁
    refine alike_raiseWhen_bind h₁.world ?_
    intro _
    rw [alike_modify_bind]
    have haudit := h₁.setTx (h₁.tx.audit ⟨d.tenantId, d.id, "resolved",
      .resolved call.body.disposition call.body.reasoning, some call.auth.sub⟩) fun _ _ => rfl
    refine alike_raiseWhen_bind haudit.world ?_
    intro _
    apply (publish_beside haudit _).bind
    intro _ s₂ t₂ hpost
    exact alike_pure.mpr hpost.1

/-- A request of the tenant does the same in two worlds it cannot tell apart. -/
theorem resolveDecisionBody_beside (h : SameView tenantId w w') (hcall : call.tenantId = tenantId) :
    Alike (resolveDecisionBody call) (Session.open w) (resolveDecisionBody call) (Session.open w')
      (fun _ s t => SameView tenantId s.world t.world)
      (fun s t => SameView tenantId s.world t.world) := by
  simp only [resolveDecisionBody, requireRole, ResolveCall.at]
  apply (getTenantDb_beside h hcall).bind
  intro _ s t hpost
  obtain ⟨rfl, rfl, hbeside⟩ := hpost
  refine alike_raiseWhen_bind h ?_
  intro hrole
  have hb : Beside tenantId s t := by
    apply hbeside
    by_contra hno
    exact absurd hrole (by simpa using hno)
  refine alike_raiseWhen_bind h ?_
  intro _
  apply (resolveDecisionHandler_beside hb hcall).bind
  intro response s₁ t₁ h₁
  refine alike_raiseWhen_bind h₁.world ?_
  intro _
  simp only [commit]
  rw [alike_modify_bind]
  exact alike_pure.mpr h₁.committed

end Resolve

end ArgusServices

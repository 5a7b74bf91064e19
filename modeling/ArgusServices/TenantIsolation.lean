import ArgusServices.Purge
import ArgusServices.Resolvable
import ArgusServices.SummaryInvariant
import ArgusServices.TenantAlike

namespace ArgusServices

open Effect Transition

/-- The requests that are of the tenant, each in the world it is served in. -/
def Request.own (tenantId : Uuid) (w : World) : Request → Bool
  | .aggregate call => OwnEvidence tenantId w.db call
  | .resolve call => call.tenantId = tenantId
  | .expireKey key => ("decision:open:" ++ tenantId.str).toList.isPrefixOf key.toList
  | .insertEvidence evidence => evidence.tenantId = tenantId

inductive Answer
  | aggregated (result : Except Exn Decision)
  | resolved (result : Except Exn ResolveDecisionResponse)
  | silent

def Request.answer (w : World) : Request → Answer
  | .aggregate call => .aggregated (ArgusServices.aggregate call w).1
  | .resolve call => .resolved (resolveDecision call w).1
  | .expireKey _ | .insertEvidence _ => .silent

/-- Ids are new where they are made: that of a decision, and that of an evidence unless its own
tenant has used it. -/
def NewIds (w : World) : Request → Prop
  | .aggregate call =>
    w.db.decisions.find call.newId = none ∧ call.newId ∉ w.notifyWarning
  | .insertEvidence evidence =>
    ∀ e ∈ w.db.evidences.find evidence.id, e.tenantId = evidence.tenantId
  | .resolve _ | .expireKey _ => True

instance (w : World) : ∀ r : Request, Decidable (NewIds w r)
  | .aggregate call => inferInstanceAs (Decidable (w.db.decisions.find call.newId = none ∧
      call.newId ∉ w.notifyWarning))
  | .insertEvidence evidence => inferInstanceAs (Decidable (∀ e ∈ w.db.evidences.find evidence.id,
      e.tenantId = evidence.tenantId))
  | .resolve _ | .expireKey _ => instDecidableTrue

variable {tenantId : Uuid} {w w' u : World} {db db' db'' : Db}

theorem SameRows.trans (h : SameRows tenantId db db') (h' : SameRows tenantId db' db'') :
    SameRows tenantId db db'' where
  tenant := h'.tenant.trans h.tenant
  evidences := fun id => (h'.evidences id).trans (h.evidences id)
  decisions := fun id => (h'.decisions id).trans (h.decisions id)
  links := h'.links.trans h.links
  feedback := h'.feedback.trans h.feedback
  audits := h'.audits.trans h.audits
  fewer := fun id hnone => h'.fewer id (h.fewer id hnone)
  fewerEvidences := fun id hnone => h'.fewerEvidences id (h.fewerEvidences id hnone)
  referred := h.referred
  referred' := h'.referred'

theorem SameRows.refl (h : db.Referred) : SameRows tenantId db db :=
  ⟨rfl, fun _ => rfl, fun _ => rfl, rfl, rfl, rfl, fun _ h => h, fun _ h => h, h, h⟩

theorem SameView.trans (h : SameView tenantId w w') (h' : SameView tenantId w' u) :
    SameView tenantId w u where
  rows := h.rows.trans h'.rows
  keys := fun e he => (h'.keys e he).trans (h.keys e he)
  published := h'.published.trans h.published
  tasks := h'.tasks.trans h.tasks
  fewerTasks := fun id hid => h.fewerTasks id (h'.fewerTasks id hid)

theorem SameView.refl (h : w.db.Referred) : SameView tenantId w w :=
  ⟨.refl h, fun _ _ => rfl, rfl, rfl, fun _ h => h⟩

/-- Rows of another tenant that are added, and one of them that is replaced, hide from the
tenant. -/
theorem SameRows.elsewhere {new : Db} (r : Decision) (ls : List DecisionEvidence)
    (fs : List Feedback) (rs : List AuditRecord) (href : new.Referred) (href' : db.Referred)
    (htenants : new.tenants = db.tenants) (hevidences : new.evidences = db.evidences)
    (hfind : ∀ id, new.decisions.find id = if id = r.id then some r else db.decisions.find id)
    (hlinks : new.decisionEvidences = db.decisionEvidences ++ ls)
    (hfeedback : new.feedback = db.feedback ++ fs)
    (haudits : new.auditRecords = db.auditRecords ++ rs)
    (hr : r.tenantId ≠ tenantId) (hold : db.has tenantId r.id = false)
    (hls : ∀ l ∈ ls, l.tenantId ≠ tenantId) (hfs : ∀ f ∈ fs, f.tenantId ≠ tenantId)
    (hrs : ∀ a ∈ rs, a.tenantId ≠ tenantId) : SameRows tenantId new db := by
  have happend : ∀ {ρ : Type} {p : ρ → Bool} {xs ys : List ρ}, (∀ y ∈ ys, p y = false) →
      xs.filter p = (xs ++ ys).filter p := by
    intro ρ p xs ys hys
    have hnone : ys.filter p = [] := List.filter_eq_nil_iff.mpr fun y hy => by simp [hys y hy]
    rw [List.filter_append, hnone, List.append_nil]
  refine ⟨?_, ?_, ?_, ?_, ?_, ?_, ?_, ?_, href, href'⟩
  · rw [htenants]
  · intro id
    rw [hevidences]
  · intro id
    rw [hfind]
    split
    next heq =>
      rw [Option.filter_some, if_neg (by simp [hr]), Option.filter_eq_none_iff]
      intro d hd
      rw [← heq, Db.has, hd, Option.any_some] at hold
      simp [hold]
    next => rfl
  · rw [hlinks]
    exact happend fun l hl => decide_eq_false (hls l hl)
  · rw [hfeedback]
    exact happend fun f hf => decide_eq_false (hfs f hf)
  · rw [haudits]
    exact happend fun a ha => decide_eq_false (hrs a ha)
  · intro id hnone
    rw [hfind] at hnone
    split at hnone
    next => cases hnone
    next => exact hnone
  · intro id hnone
    rw [← hevidences]
    exact hnone

section Hidden

variable {call : AggregateCall} {evidence : Evidence} {tenant : Tenant} {d : Decision}
  {keys : String → Option RedisEntry}

/-- The row a call works on is of the tenant of its evidence or new. -/
theorem Target.has_tenant (h : Target w call evidence tenant d keys) {t : Uuid}
    (ht : w.db.has t d.id = true) : evidence.tenantId = t := by
  rcases h.found with ⟨hopen, -, hfound⟩ | ⟨-, -, hnone⟩
  · rw [Db.has, hfound] at ht
    rw [← (World.openDecision_spec hopen).2.1]
    exact of_decide_eq_true ht
  · rw [Db.has, hnone] at ht
    cases ht

theorem Target.has_other (h : Target w call evidence tenant d keys)
    (hother : evidence.tenantId ≠ tenantId) : w.db.has tenantId d.id = false := by
  by_contra hhas
  exact hother (h.has_tenant (by simpa using hhas))

theorem Target.row_tenant (h : Target w call evidence tenant d keys) :
    d.tenantId = evidence.tenantId := by
  rcases h.found with ⟨hopen, -⟩ | ⟨rfl, -⟩
  · exact (World.openDecision_spec hopen).2.1
  · rfl

theorem Db.Referred.committed (h : w.db.Referred) (hc : Committed call w w' evidence tenant d) :
    w'.db.Referred := by
  have hhas : ∀ t id, w.db.has t id = true → w'.db.has t id = true := by
    intro t id ht
    unfold Db.has at ht ⊢
    rw [hc.find]
    split
    next heq =>
      subst heq
      have htenant := hc.target_tenant.trans (hc.target.has_tenant ht)
      simpa using htenant
    next => exact ht
  constructor
  · intro l hl
    rw [hc.links] at hl
    rcases List.mem_append.mp hl with hl | hl
    · exact hhas _ _ (h.links l hl)
    · unfold newLinks at hl
      split at hl
      next => cases hl
      next =>
        obtain rfl := List.mem_singleton.mp hl
        rw [Db.has, hc.find, linkRow, if_pos rfl, Option.any_some]
        simp [hc.target_tenant]
  · intro f hf
    rw [hc.feedback] at hf
    exact hhas _ _ (h.feedback f hf)

theorem Db.Referred.resolve {call : ResolveCall} (h : w.db.Referred) (hr : Resolved call w w' d) :
    w'.db.Referred := by
  have hid := w.db.decisions.keyed _ _ hr.found
  have hhas : ∀ t id, w.db.has t id = true → w'.db.has t id = true := by
    intro t id ht
    unfold Db.has at ht ⊢
    rw [hr.find]
    split
    next heq =>
      rw [heq, hid, hr.found] at ht
      exact ht
    next => exact ht
  constructor
  · intro l hl
    rw [hr.world] at hl
    exact hhas _ _ (h.links l hl)
  · intro f hf
    rw [hr.world] at hf
    rcases List.mem_append.mp hf with hf | hf
    · exact hhas _ _ (h.feedback f hf)
    · obtain rfl := List.mem_singleton.mp hf
      rw [Db.has, resolvedFeedback, hr.find, if_pos rfl, Option.any_some]
      exact decide_eq_true hr.tenant

theorem Db.Referred.serve (h : w.db.Referred) (r : Request) : (serve w r).db.Referred :=
  serve_keeps h (fun _ hc => h.committed hc) (fun _ hr => h.resolve hr)
    fun _ => ⟨h.links, h.feedback⟩

theorem newEvents_tenantId {e : Event} (h : e ∈ newEvents tenant d) : e.tenantId = d.tenantId := by
  unfold newEvents at h
  split at h
  next => cases h
  next =>
    rcases List.mem_cons.mp h with rfl | h
    · rfl
    · obtain rfl := List.mem_singleton.mp h
      rfl

theorem newTasks_id {id : Uuid} (h : id ∈ newTasks tenant d) : id = d.id := by
  unfold newTasks at h
  split at h
  next => exact List.mem_singleton.mp h
  next => cases h

theorem openDecisionKey_ne {e : Evidence} (he : e.tenantId = tenantId)
    (hother : evidence.tenantId ≠ tenantId) : openDecisionKey e ≠ openDecisionKey evidence := by
  intro hkey
  have hplace := congrArg Place.tenantId (openDecisionKey_eq_iff.mp hkey)
  exact hother (hplace.symm.trans he)

/-- What a call sends and the keys it changes for an evidence of another tenant hide from the
tenant. -/
theorem SameView.elsewhere (hrows : SameRows tenantId u.db w.db)
    (htarget : Target w call evidence tenant d u.keys) (hother : evidence.tenantId ≠ tenantId)
    {es : List Event} {ts : List Uuid}
    (hes : ∀ e ∈ es, e.tenantId = evidence.tenantId) (hts : ∀ id ∈ ts, id = d.id)
    (hpublished : u.published = w.published ++ es)
    (htasks : u.notifyWarning = w.notifyWarning ++ ts) : SameView tenantId u w := by
  have hnone : es.filter (fun e => decide (e.tenantId = tenantId)) = [] := by
    rw [List.filter_eq_nil_iff]
    intro e he
    simp [hes e he, hother]
  have hnone' : ts.filter (u.db.has tenantId) = [] := by
    rw [List.filter_eq_nil_iff]
    intro id hid
    rw [hts id hid, ← hrows.has, htarget.has_other hother]
    exact Bool.false_ne_true
  refine ⟨hrows, ?_, ?_, ?_, ?_⟩
  · intro e he
    exact (htarget.keys_of_ne (openDecisionKey_ne he hother)).symm
  · rw [hpublished, List.filter_append, hnone, List.append_nil]
  · rw [htasks, List.filter_append, hnone', List.append_nil]
    exact List.filter_congr fun id _ => hrows.has id
  · intro id hid
    rw [htasks]
    exact List.mem_append_left _ hid

theorem Leftover.hidden (h : Leftover w call evidence tenant u) (href : w.db.Referred)
    (hother : evidence.tenantId ≠ tenantId) : SameView tenantId u w := by
  cases h with
  | untouched => exact .refl href
  | keyDeleted =>
    refine ⟨.refl href, ?_, rfl, rfl, fun _ h => h⟩
    intro e he
    have hne := openDecisionKey_ne he hother
    simp only [Function.update_apply, if_neg hne]
  | decided htarget hsent =>
    refine SameView.elsewhere (.refl href) htarget hother ?_ ?_ rfl rfl
    · intro e he
      rw [newEvents_tenantId (hsent.events.subset he), afterLink_tenantId, htarget.row_tenant]
    · intro id hid
      rw [newTasks_id (hsent.tasks.subset hid), afterLink_id]

theorem Committed.hidden_rows (h : Committed call w w' evidence tenant d)
    (href : w.db.Referred) (hother : evidence.tenantId ≠ tenantId) :
    SameRows tenantId w'.db w.db := by
  have hrow : d.tenantId ≠ tenantId := by
    rw [h.target_tenant]
    exact hother
  refine SameRows.elsewhere (afterState call tenant (afterLink w.db call d evidence))
    _ [] (newAudits tenant (afterLink w.db call d evidence)) (href.committed h) href h.tenants ?_ ?_
    h.links ?_ ?_ ?_ ?_ ?_ ?_ ?_
  · rw [h.db]
    rfl
  · intro id
    rw [h.find, afterState_id, afterLink_id]
  · rw [h.feedback, List.append_nil]
  · rw [h.db]
    rfl
  · rw [afterState_tenantId, afterLink_tenantId]
    exact hrow
  · rw [afterState_id, afterLink_id]
    exact h.target.has_other hother
  · intro l hl
    unfold newLinks at hl
    split at hl
    next => cases hl
    next =>
      obtain rfl := List.mem_singleton.mp hl
      exact hother
  · exact nofun
  · intro a ha
    unfold newAudits at ha
    split at ha
    next => cases ha
    next =>
      obtain rfl := List.mem_singleton.mp ha
      rw [afterLink_tenantId]
      exact hrow

theorem Committed.hidden (h : Committed call w w' evidence tenant d) (href : w.db.Referred)
    (hother : evidence.tenantId ≠ tenantId) : SameView tenantId w' w := by
  refine SameView.elsewhere (h.hidden_rows href hother) h.target hother ?_ ?_ h.published
    h.notifyWarning
  · intro e he
    rw [newEvents_tenantId he, afterLink_tenantId, h.target_tenant]
  · intro id hid
    rw [newTasks_id hid, afterLink_id]

theorem aggregate_hidden (href : w.db.Referred) (hown : OwnEvidence tenantId w.db call = false) :
    SameView tenantId (aggregate call w).2 w := by
  have hother : ∀ {evidence : Evidence}, w.db.evidences.find call.evidenceId = some evidence →
      evidence.tenantId ≠ tenantId := by
    intro evidence hev heq
    simp [OwnEvidence, hev, heq] at hown
  rcases aggregate_cases call w with hr | ⟨evidence, tenant, d, hc⟩
  · rcases hr.leftover with hsame | ⟨evidence, tenant, hev, -, hleft⟩
    · rw [hsame]
      exact .refl href
    · exact hleft.hidden href (hother hev)
  · exact hc.hidden href (hother hc.evidence_found)

theorem Resolved.hidden {call : ResolveCall} (h : Resolved call w w' d) (href : w.db.Referred)
    (hother : call.tenantId ≠ tenantId) : SameView tenantId w' w := by
  have hrow : d.tenantId ≠ tenantId := by
    rw [h.tenant]
    exact hother
  have hid := w.db.decisions.keyed _ _ h.found
  have hrows : SameRows tenantId w'.db w.db := by
    refine SameRows.elsewhere (resolvedRow call d) [] [resolvedFeedback call d]
      [resolvedAudit call d] (href.resolve h) href ?_ ?_ h.find ?_ ?_ ?_ hrow ?_ nofun ?_ ?_
    · rw [h.world]
      rfl
    · rw [h.world]
      rfl
    · rw [h.world, List.append_nil]
      rfl
    · rw [h.world]
      rfl
    · rw [h.world]
      rfl
    · have hfound := h.found
      rw [← hid] at hfound
      unfold Db.has
      rw [show (resolvedRow call d).id = d.id from rfl, hfound, Option.any_some]
      exact decide_eq_false hrow
    · intro f hf
      obtain rfl := List.mem_singleton.mp hf
      exact hother
    · intro a ha
      obtain rfl := List.mem_singleton.mp ha
      exact hrow
  refine ⟨hrows, ?_, ?_, ?_, ?_⟩
  · intro e _
    rw [h.world]
  · rw [h.world]
    simp only [List.filter_append, List.filter_cons, List.filter_nil, resolvedEvent,
      Event.tenantId, hother, decide_false, Bool.false_eq_true, if_false, List.append_nil]
  · rw [show w'.notifyWarning = w.notifyWarning by rw [h.world]]
    exact List.filter_congr fun id _ => hrows.has id
  · intro id hin
    rw [h.world]
    exact hin

theorem resolveDecision_hidden {call : ResolveCall} (href : w.db.Referred)
    (hother : call.tenantId ≠ tenantId) : SameView tenantId (resolveDecision call w).2 w := by
  rcases resolveDecision_cases call w with hr | ⟨d, hr⟩
  · generalize (resolveDecision call w).2 = u at hr
    cases hr with
    | unchanged _ => exact .refl href
    | published _ hacc =>
      refine ⟨.refl href, fun _ _ => rfl, ?_, rfl, fun _ h => h⟩
      simp only [List.filter_append, List.filter_cons, List.filter_nil, resolvedEvent,
        Event.tenantId, hother, decide_false, Bool.false_eq_true, if_false, List.append_nil]
  · exact hr.hidden href hother

end Hidden

/-- The open keys of a tenant begin with its id. -/
theorem openDecisionKey_own {e : Evidence} (he : e.tenantId = tenantId) :
    Request.own tenantId w (.expireKey (openDecisionKey e)) = true := by
  simp only [Request.own, openDecisionKey, he, String.toList_append, List.isPrefixOf_iff_prefix]
  rw [← List.append_assoc "decision:open:".toList]
  exact List.prefix_append _ _

theorem SameRows.put_other {evidence : Evidence} (href : db.Referred)
    (hother : evidence.tenantId ≠ tenantId) (hfree : db.evidences.find evidence.id = none) :
    SameRows tenantId { db with evidences := db.evidences.put evidence } db := by
  refine ⟨rfl, ?_, fun _ => rfl, rfl, rfl, rfl, fun _ h => h, ?_, ⟨href.links, href.feedback⟩,
    href⟩
  · intro id
    simp only [KeyedTable.find_put]
    split
    next heq =>
      rw [heq, hfree, Option.filter_some, if_neg (by simp [hother])]
      rfl
    next => rfl
  · intro id hnone
    simp only [KeyedTable.find_put] at hnone
    split at hnone
    next => cases hnone
    next => exact hnone

theorem SameRows.put_own (h : SameRows tenantId db db') (evidence : Evidence) :
    SameRows tenantId { db with evidences := db.evidences.put evidence }
      { db' with evidences := db'.evidences.put evidence } := by
  refine ⟨h.tenant, ?_, h.decisions, h.links, h.feedback, h.audits, h.fewer, ?_,
    ⟨h.referred.links, h.referred.feedback⟩, ⟨h.referred'.links, h.referred'.feedback⟩⟩
  · intro id
    simp only [KeyedTable.find_put]
    split
    next => rfl
    next => exact h.evidences id
  · intro id hnone
    simp only [KeyedTable.find_put] at hnone ⊢
    split at hnone
    next => cases hnone
    next hne =>
      rw [if_neg hne]
      exact h.fewerEvidences id hnone

theorem serve_hidden (h : SameView tenantId w w') {r : Request}
    (hown : r.own tenantId w = false) : SameView tenantId (serve w r) w' := by
  have href := h.rows.referred
  suffices hstep : SameView tenantId (serve w r) w from hstep.trans h
  cases r with
  | aggregate call => exact aggregate_hidden href hown
  | resolve call => exact resolveDecision_hidden href (of_decide_eq_false hown)
  | expireKey key =>
    refine ⟨.refl href, ?_, rfl, rfl, fun _ h => h⟩
    intro e he
    have hne : openDecisionKey e ≠ key := by
      rintro rfl
      rw [openDecisionKey_own he] at hown
      cases hown
    simp only [serve, Function.update_apply, if_neg hne]
  | insertEvidence evidence =>
    simp only [serve]
    split
    next => exact .refl href
    next hfree =>
      have hrows := SameRows.put_other href (of_decide_eq_false hown) (by simpa using hfree)
      refine ⟨hrows, fun _ _ => rfl, rfl, ?_, fun _ h => h⟩
      exact List.filter_congr fun id _ => hrows.has id

theorem serve_alike (h : SameView tenantId w w') {r : Request} (hown : r.own tenantId w = true)
    (hnew : NewIds w r) :
    r.answer w' = r.answer w ∧ SameView tenantId (serve w r) (serve w' r) := by
  cases r with
  | aggregate call =>
    have hbody := aggregateBody_beside h hown ⟨hnew.1, hnew.2⟩
    exact ⟨congrArg Answer.aggregated hbody.fst, hbody.snd⟩
  | resolve call =>
    have hbody := resolveDecisionBody_beside h (of_decide_eq_true hown)
    exact ⟨congrArg Answer.resolved hbody.fst, hbody.snd⟩
  | expireKey key =>
    refine ⟨rfl, h.rows, ?_, h.published, h.tasks, h.fewerTasks⟩
    intro e he
    simp only [serve, Function.update_apply, h.keys e he]
  | insertEvidence evidence =>
    refine ⟨rfl, ?_⟩
    have htenant : evidence.tenantId = tenantId := of_decide_eq_true hown
    simp only [serve]
    cases hev : w.db.evidences.find evidence.id with
    | none =>
      rw [h.rows.fewerEvidences _ hev]
      have hrows := h.rows.put_own evidence
      exact ⟨hrows, h.keys, h.published, h.tasks, h.fewerTasks⟩
    | some e =>
      have hsame := h.rows.evidences evidence.id
      have he : e.tenantId = tenantId := (hnew e hev).trans htenant
      rw [hev, Option.filter_some, if_pos (decide_eq_true he)] at hsame
      rw [(Option.filter_eq_some_iff.mp hsame).1]
      exact h

theorem serve_unwinds (tenantId : Uuid) : Purge.Unwinds serve (fun w r => r.own tenantId w)
    (fun w r => r.answer w) NewIds (SameView tenantId) where
  hidden := fun _ _ _ hown _ h => serve_hidden h hown
  alike := fun _ _ _ hown hnew h => serve_alike h hown hnew

theorem Db.Referred.initial (h : w.Initial) : w.db.Referred where
  links := fun l hl => by simp [h.links] at hl
  feedback := fun f hf => by simp [h.feedback] at hf

/-- A tenant sees what it would see, and its requests are answered what they would be answered, had
nobody else sent any request. -/
theorem tenant_isolated (tenantId : Uuid) {rs : List Request} (h : w.Initial)
    (hrun : Run (Where NewIds Served) w rs w') :
    SameView tenantId w'
        ((Purge.purge serve (fun w r => r.own tenantId w) w rs).foldl serve w) ∧
      Purge.answers serve (fun w r => r.answer w) w
          (Purge.purge serve (fun w r => r.own tenantId w) w rs) =
        Purge.heard serve (fun w r => r.own tenantId w) (fun w r => r.answer w) w rs :=
  (serve_unwinds tenantId).purge hrun (.refl (.initial h))

/-- An evidence of a second tenant, from a camera with the id of the first one's. -/
def otherEvidence (id : BitVec 128) (score : Int) : Evidence :=
  { sampleEvidence id none score with tenantId := ⟨9⟩ }

def twoTenants : World :=
  let w := sampleWorld [sampleEvidence 11 none 12, otherEvidence 12 12]
  { w with db := { w.db with tenants := w.db.tenants.put { sampleTenant with id := ⟨9⟩ } } }

theorem twoTenants_initial : twoTenants.Initial where
  decisions := fun _ => rfl
  links := rfl
  feedback := rfl
  auditRecords := rfl
  keys := fun _ => rfl
  published := rfl
  notifyWarning := rfl

/-- Both tenants aggregate and resolve; the second one also tries the decision of the first. -/
def interleaved : List Request :=
  [.aggregate (sampleAggregate 12 21), .aggregate (sampleAggregate 11 20),
    .resolve { sampleResolve 20 with tenantId := ⟨9⟩, auth := ⟨"other", some ⟨9⟩, .watcher⟩ },
    .resolve (sampleResolve 20)]

theorem tenant_isolated_sample :
    SameView ⟨1⟩ (interleaved.foldl serve twoTenants)
      ([.aggregate (sampleAggregate 11 20), .resolve (sampleResolve 20)].foldl serve
        twoTenants) := by
  have hguard : meetsGuard NewIds twoTenants interleaved = true := by decide +kernel
  exact (tenant_isolated ⟨1⟩ twoTenants_initial (run_serve_where hguard)).1

end ArgusServices

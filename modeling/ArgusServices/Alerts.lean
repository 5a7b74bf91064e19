import ArgusServices.AdminListing
import ArgusServices.DeliveryLog
import ArgusServices.RagFeedback
import ArgusServices.TenantView
import ArgusServices.WarningOnce
import Mathlib.Algebra.BigOperators.Group.List.Basic

namespace ArgusServices

open Effect Transition

/-- A `notify_warning` task that waits for the notifier, with the retries it has behind it. -/
structure NotifyTask where
  decisionId : Uuid
  retries : Nat
  deriving DecidableEq, Repr

/-- The configuration, the triage, the tasks it has enqueued for the notifier, and what the
notifier has logged and sent. -/
structure AlertWorld where
  config : ConfigDb
  keyed : (config.notificationConfigs.map NotificationConfig.id).Nodup
  world : World
  tasks : List NotifyTask
  deliveries : List NotificationDelivery
  accepted : List ProviderMessage
  refused : List ProviderRefusal

inductive AlertMove
  | admin (call : AdminCall)
  | serve (r : Request)
  | notify (task : NotifyTask) (attempt : NotifyAttempt)

/-- The rows and queues the notifier works on. -/
def AlertWorld.notifier (w : AlertWorld) : NotifierWorld where
  decisions := w.world.db.decisions
  configs := ⟨w.config.notificationConfigs, w.keyed⟩
  deliveries := w.deliveries
  accepted := w.accepted
  refused := w.refused

theorem serve_keyed {call : AdminCall} {db : ConfigDb}
    (h : (db.notificationConfigs.map NotificationConfig.id).Nodup) :
    ((call.serve db).2.notificationConfigs.map NotificationConfig.id).Nodup := by
  rw [serve_eq]
  split
  next hcommits =>
    have hfresh := commits_fresh hcommits
    unfold AdminCall.add
    unfold AdminCall.ids at hfresh
    cases hbody : call.body with
    | createNotificationConfig body =>
      rw [hbody] at hfresh
      rw [List.map_append, List.nodup_append]
      refine ⟨h, List.nodup_singleton _, ?_⟩
      intro id hid id' hid' heq
      obtain rfl := List.mem_singleton.mp hid'
      rw [heq] at hid
      exact hfresh hid
    | _ => exact h
  next => exact h

def AlertWorld.admin (w : AlertWorld) (call : AdminCall) : AlertWorld :=
  { w with
    config := (call.serve w.config).2
    keyed := serve_keyed w.keyed }

/-- A transaction of the triage; what it enqueues comes to the tasks of the notifier. -/
def AlertWorld.serve (w : AlertWorld) (r : Request) : AlertWorld :=
  let world := ArgusServices.serve w.world r
  { w with
    world := world
    tasks := w.tasks ++ (world.notifyWarning.drop w.world.notifyWarning.length).map (⟨·, 0⟩) }

/-- The task after a try, if there is another one. -/
def NotifyTask.again (task : NotifyTask) (succeeded : Bool) : List NotifyTask :=
  if succeeded = false ∧ task.retries < maxNotifyRetries then
    [{ task with retries := task.retries + 1 }]
  else []

/-- One try of a task. -/
def AlertWorld.notify (w : AlertWorld) (task : NotifyTask) (attempt : NotifyAttempt) :
    AlertWorld :=
  let r := exec (notifyWarning attempt task.decisionId.str) w.notifier
  { w with
    tasks := w.tasks.erase task ++ task.again r.1.isOk
    deliveries := r.2.deliveries
    accepted := r.2.accepted
    refused := r.2.refused }

def AlertWorld.next (w : AlertWorld) : AlertMove → AlertWorld
  | .admin call => w.admin call
  | .serve r => w.serve r
  | .notify task attempt => w.notify task attempt

def AlertWorld.enabled (w : AlertWorld) : AlertMove → Prop
  | .notify task _ => task ∈ w.tasks
  | _ => True

def Alerting (w : AlertWorld) (m : AlertMove) (u : AlertWorld) : Prop :=
  w.enabled m ∧ u = w.next m

/-- A request of `list_decision_deliveries`, with the order its query meets the rows in. -/
structure DeliveryQuery where
  auth : AuthContext
  tenantId : Uuid
  decisionId : Uuid
  order : RowOrder NotificationDelivery

/-- The guards are those of the lists of the configuration. -/
def DeliveryQuery.context (query : DeliveryQuery) : Except Exn (Option Uuid × UserRole) :=
  listContext query.auth query.tenantId

def AlertWorld.listDecisionDeliveries (w : AlertWorld) (query : DeliveryQuery) :
    Except Exn (List NotificationDelivery) := do
  let (tenant, role) ← query.context
  let s := ConfigSession.mk w.config tenant role
  match (w.world.db.decisions.find query.decisionId).filter fun d => s.sees d.tenantId with
  | none => throw (.httpException 404 "Decision not found")
  | some decision =>
    throwWhen (decision.tenantId ≠ query.tenantId) (.httpException 404 "Decision not found")
    pure (query.order.arrange (w.deliveries.filter fun d =>
      d.decisionId = query.decisionId ∧ s.sees d.tenantId))

/-- The rows of a try for a decision: one for each recipient, if the provider accepts them all. -/
def NotifierWorld.loggedFor (w : NotifierWorld) (attempt : NotifyAttempt) :
    Option Decision → List NotificationDelivery
  | none => []
  | some decision =>
    if (w.activeConfigs decision).all attempt.accepts then
      (attempt.order.arrange (w.activeConfigs decision)).map (attempt.sentDelivery decision)
    else []

/-- The messages of a try, up to the first one that is refused. -/
def NotifierWorld.sentOn (w : NotifierWorld) (attempt : NotifyAttempt) :
    Option Decision → List ProviderMessage
  | none => []
  | some decision =>
    (attempt.reachedIn (w.activeConfigs decision)).map (attempt.messageTo decision)

def AlertWorld.loggedBy (w : AlertWorld) (task : NotifyTask) (attempt : NotifyAttempt) :
    List NotificationDelivery :=
  w.notifier.loggedFor attempt (w.world.db.decisions.find task.decisionId)

def AlertWorld.sentBy (w : AlertWorld) (task : NotifyTask) (attempt : NotifyAttempt) :
    List ProviderMessage :=
  w.notifier.sentOn attempt (w.world.db.decisions.find task.decisionId)

/-- The rows that the tries of a run have added. -/
def AlertWorld.logged : AlertWorld → List AlertMove → List NotificationDelivery
  | _, [] => []
  | w, .notify task attempt :: ms =>
    w.loggedBy task attempt ++ (w.notify task attempt).logged ms
  | w, m :: ms => (w.next m).logged ms

variable {w u : AlertWorld} {task : NotifyTask} {attempt : NotifyAttempt} {m : AlertMove}
  {ms : List AlertMove}

theorem namedDecision_notifier (w : AlertWorld) (id : Uuid) :
    w.notifier.namedDecision id.str = w.world.db.decisions.find id := by
  unfold NotifierWorld.namedDecision
  rw [Uuid.parse_str]
  rfl

/-- What a try adds, whichever way it ends; one that raises leaves no rows. -/
theorem ends_notifyWarning_adds (w : NotifierWorld) (attempt : NotifyAttempt)
    (decisionId : String) : Ends (notifyWarning attempt decisionId) w
      (fun _ t => t.deliveries = w.deliveries ++
          w.loggedFor attempt (w.namedDecision decisionId) ∧
        t.accepted = w.accepted ++ w.sentOn attempt (w.namedDecision decisionId))
      (fun _ t => (t.deliveries = w.deliveries ++
          w.loggedFor attempt (w.namedDecision decisionId) ∧
        t.accepted = w.accepted ++ w.sentOn attempt (w.namedDecision decisionId)) ∧
          w.loggedFor attempt (w.namedDecision decisionId) = []) := by
  cases hnamed : w.namedDecision decisionId with
  | none =>
    refine (ends_notifyWarning_missing hnamed).mono ?_ ?_
    · intro _ _ h
      exact h.elim
    · intro _ t ht
      simp [ht, NotifierWorld.loggedFor, NotifierWorld.sentOn]
  | some decision =>
    have hrecipients : w.recipients decisionId = w.activeConfigs decision := by
      simp only [NotifierWorld.recipients, hnamed]
    have hends := @ends_notifyWarning attempt decision decisionId w hnamed
    rw [hrecipients] at hends
    refine hends.mono ?_ ?_
    · intro _ t ht
      obtain ⟨hall, rfl⟩ := ht
      rw [NotifierWorld.loggedFor, if_pos (List.all_eq_true.mpr hall)]
      exact ⟨rfl, rfl⟩
    · intro _ t ht
      obtain ⟨⟨c, hc, hrefused⟩, rfl⟩ := ht
      have hnot : ¬(w.activeConfigs decision).all attempt.accepts = true := by
        intro hall
        simp [List.all_eq_true.mp hall c hc] at hrefused
      rw [NotifierWorld.loggedFor, if_neg hnot, List.append_nil]
      exact ⟨⟨rfl, rfl⟩, rfl⟩

theorem notifyWarning_adds (w : NotifierWorld) (attempt : NotifyAttempt) (decisionId : String) :
    ((exec (notifyWarning attempt decisionId) w).2.deliveries =
        w.deliveries ++ w.loggedFor attempt (w.namedDecision decisionId) ∧
      (exec (notifyWarning attempt decisionId) w).2.accepted =
        w.accepted ++ w.sentOn attempt (w.namedDecision decisionId)) ∧
    ((exec (notifyWarning attempt decisionId) w).1.isOk = false →
      w.loggedFor attempt (w.namedDecision decisionId) = []) := by
  have hends := ends_notifyWarning_adds w attempt decisionId
  obtain ⟨⟨result, t⟩, hexec⟩ : ∃ ended, exec (notifyWarning attempt decisionId) w = ended :=
    ⟨_, rfl⟩
  rw [hexec]
  cases result with
  | ok value =>
    refine ⟨hends.ok hexec, ?_⟩
    intro hraised
    cases hraised
  | error e =>
    obtain ⟨hadds, hnone⟩ := hends.error hexec
    exact ⟨hadds, fun _ => hnone⟩

theorem notify_adds (w : AlertWorld) (task : NotifyTask) (attempt : NotifyAttempt) :
    (w.notify task attempt).deliveries = w.deliveries ++ w.loggedBy task attempt ∧
      (w.notify task attempt).accepted = w.accepted ++ w.sentBy task attempt := by
  have hadds := (notifyWarning_adds w.notifier attempt task.decisionId.str).1
  rw [namedDecision_notifier] at hadds
  unfold AlertWorld.notify
  dsimp only
  exact hadds

/-- A task whose try has logged rows is not tried again. -/
theorem notify_tasks (w : AlertWorld) (task : NotifyTask) (attempt : NotifyAttempt) :
    ∃ succeeded, (w.notify task attempt).tasks = w.tasks.erase task ++ task.again succeeded ∧
      (succeeded = false → w.loggedBy task attempt = []) := by
  have hraises := (notifyWarning_adds w.notifier attempt task.decisionId.str).2
  rw [namedDecision_notifier] at hraises
  exact ⟨_, rfl, hraises⟩

/-- The log after a run is the log before it with what its tries have added. -/
theorem deliveries_run (hrun : Run Alerting w ms u) :
    u.deliveries = w.deliveries ++ w.logged ms := by
  induction hrun with
  | nil w => exact (List.append_nil _).symm
  | @cons w v u m ms hstep _ ih =>
    obtain ⟨-, rfl⟩ := hstep
    rw [ih]
    cases m with
    | notify task attempt =>
      show (w.notify task attempt).deliveries ++ (w.notify task attempt).logged ms = _
      rw [(notify_adds w task attempt).1, List.append_assoc]
      rfl
    | admin call => rfl
    | serve r => rfl

/-- What a task counts for a decision, if one that was retried `n` times counts `weight n`. -/
def NotifyTask.due (task : NotifyTask) (weight : Nat → Nat) (id : Uuid) : Nat :=
  if task.decisionId = id then weight task.retries else 0

def AlertWorld.due (w : AlertWorld) (weight : Nat → Nat) (id : Uuid) : Nat :=
  (w.tasks.map fun task => task.due weight id).sum

/-- A message is of a decision that was warned of, to an active recipient of its tenant. -/
def AlertWorld.Warrants (w : AlertWorld) (message : ProviderMessage) : Prop :=
  ∃ decision config, w.world.db.decisions.find decision.id = some decision ∧
    decision.id ∈ w.world.notifyWarning ∧ config ∈ w.config.notificationConfigs ∧
    config.tenantId = decision.tenantId ∧ config.isActive = true ∧
    message = ⟨config.id, config.channel, config.recipient, warningBody decision, message.sid⟩

/-- A row tells of a message that the provider has accepted. -/
def AlertWorld.Tells (w : AlertWorld) (row : NotificationDelivery) : Prop :=
  ∃ decision message, w.world.db.decisions.find row.decisionId = some decision ∧
    message ∈ w.accepted ∧ row = message.delivery decision

/-- Of each warning a recipient is sent one message a try and has one row in the end. -/
structure AlertWorld.Sound (w : AlertWorld) : Prop where
  retries : ∀ task ∈ w.tasks, task.retries ≤ maxNotifyRetries
  warned : ∀ task ∈ w.tasks, task.decisionId ∈ w.world.notifyWarning
  rows : ∀ id c, (w.deliveries.countP fun row => row.decisionId = id ∧ row.configId = c) +
    w.due (fun _ => 1) id ≤ w.world.warnings id
  messages : ∀ d c, (w.accepted.countP fun m => m.configId = c ∧ m.body = warningBody d) +
    w.due (maxNotifyRetries + 1 - ·) d.id ≤ (maxNotifyRetries + 1) * w.world.warnings d.id
  warrants : ∀ message ∈ w.accepted, w.Warrants message
  tells : ∀ row ∈ w.deliveries, w.Tells row

/-- Nothing has been enqueued, sent or logged yet. -/
structure AlertWorld.Idle (w : AlertWorld) : Prop where
  tasks : w.tasks = []
  deliveries : w.deliveries = []
  accepted : w.accepted = []

theorem AlertWorld.Idle.sound (h : w.Idle) : w.Sound where
  retries := by simp [h.tasks]
  warned := by simp [h.tasks]
  rows := by simp [h.deliveries, AlertWorld.due, h.tasks]
  messages := by simp [h.accepted, AlertWorld.due, h.tasks]
  warrants := by simp [h.accepted]
  tells := by simp [h.deliveries]

section Serve

variable {r : Request} {v : World}

/-- A transaction only adds to the tasks it has enqueued. -/
theorem notifyWarning_prefix (v : World) (r : Request) :
    v.notifyWarning <+: (ArgusServices.serve v r).notifyWarning := by
  cases r with
  | aggregate call =>
    show v.notifyWarning <+: (aggregate call v).2.notifyWarning
    rcases aggregate_cases call v with hrolled | ⟨evidence, tenant, d, hd⟩
    · rcases hrolled.leftover with hsame | ⟨evidence, tenant, -, -, hleft⟩
      · rw [hsame]
      · generalize (aggregate call v).2 = u at hleft
        cases hleft with
        | untouched => exact List.prefix_rfl
        | keyDeleted => exact List.prefix_rfl
        | decided => exact List.prefix_append _ _
    · rw [hd.notifyWarning]
      exact List.prefix_append _ _
  | resolve call =>
    show v.notifyWarning <+: (resolveDecision call v).2.notifyWarning
    rcases resolveDecision_cases call v with hrejected | ⟨d, hd⟩
    · generalize (resolveDecision call v).2 = u at hrejected
      cases hrejected with
      | unchanged => exact List.prefix_rfl
      | published => exact List.prefix_rfl
    · rw [hd.world]
  | expireKey key => exact List.prefix_rfl
  | insertEvidence evidence =>
    unfold ArgusServices.serve
    dsimp only
    split <;> exact List.prefix_rfl

theorem sum_map_enqueued (weight : Nat → Nat) (id : Uuid) (ids : List Uuid) :
    ((ids.map (NotifyTask.mk · 0)).map fun task => task.due weight id).sum =
      weight 0 * ids.count id := by
  induction ids with
  | nil => rfl
  | cons other ids ih =>
    rw [List.map_cons, List.map_cons, List.sum_cons, ih, List.count_cons]
    unfold NotifyTask.due
    by_cases hid : other = id
    · simp only [hid, ↓reduceIte, beq_self_eq_true]
      rw [Nat.mul_add, Nat.mul_one, Nat.add_comm]
    · simp [hid]

/-- What is enqueued is due as often as it is warned of. -/
theorem due_serve (w : AlertWorld) (r : Request) (weight : Nat → Nat) (id : Uuid) :
    (w.serve r).due weight id + weight 0 * w.world.warnings id =
      w.due weight id + weight 0 * (w.serve r).world.warnings id := by
  obtain ⟨ids, hids⟩ := notifyWarning_prefix w.world r
  have htasks : (w.serve r).tasks = w.tasks ++ ids.map (NotifyTask.mk · 0) := by
    show w.tasks ++ ((ArgusServices.serve w.world r).notifyWarning.drop
      w.world.notifyWarning.length).map (NotifyTask.mk · 0) = _
    rw [← hids, List.drop_left]
  have hwarnings : (w.serve r).world.warnings id = w.world.warnings id + ids.count id := by
    show (ArgusServices.serve w.world r).notifyWarning.count id = _
    rw [← hids, List.count_append]
    rfl
  have hdue : (w.serve r).due weight id = w.due weight id + weight 0 * ids.count id := by
    unfold AlertWorld.due
    rw [htasks, List.map_append, List.sum_append, sum_map_enqueued]
  rw [hdue, hwarnings, Nat.mul_add]
  omega

end Serve

theorem due_notify {succeeded : Bool} (htask : task ∈ w.tasks)
    (h : u.tasks = w.tasks.erase task ++ task.again succeeded) (weight : Nat → Nat) (id : Uuid) :
    u.due weight id + task.due weight id =
      w.due weight id + ((task.again succeeded).map fun task => task.due weight id).sum := by
  have herase := List.sum_map_erase (fun task : NotifyTask => task.due weight id) htask
  unfold AlertWorld.due
  rw [h, List.map_append, List.sum_append]
  omega

/-- A task that is tried again counts one try less than it did. -/
theorem again_due (succeeded : Bool) (hretries : task.retries ≤ maxNotifyRetries) (id : Uuid) :
    ((task.again succeeded).map fun task => task.due (maxNotifyRetries + 1 - ·) id).sum +
      (if task.decisionId = id then 1 else 0) ≤ task.due (maxNotifyRetries + 1 - ·) id := by
  unfold NotifyTask.again
  by_cases hid : task.decisionId = id
  · have hpositive : 1 ≤ maxNotifyRetries + 1 - task.retries := by omega
    split <;> simp [NotifyTask.due, hid] <;> omega
  · split <;> simp [NotifyTask.due, hid]

theorem again_due_one (succeeded : Bool) (id : Uuid) :
    ((task.again succeeded).map fun task => task.due (fun _ => 1) id).sum +
      (if succeeded = true ∧ task.decisionId = id then 1 else 0) ≤
        task.due (fun _ => 1) id := by
  unfold NotifyTask.again NotifyTask.due
  cases succeeded with
  | true => simp
  | false =>
    split
    next => simp
    next => simp

section Counting

variable {configs : List NotificationConfig} {decision : Decision}

theorem countP_id_le_one (h : (configs.map NotificationConfig.id).Nodup) (c : Uuid) :
    (configs.countP fun config => config.id = c) ≤ 1 := by
  have hcount := List.nodup_iff_count_le_one.mp h c
  rw [List.count_eq_countP, List.countP_map] at hcount
  refine Nat.le_trans (Nat.le_of_eq (List.countP_congr ?_)) hcount
  intro config _
  simp

theorem activeConfigs_nodup (w : NotifierWorld) (decision : Decision) :
    ((w.activeConfigs decision).map NotificationConfig.id).Nodup :=
  (List.filter_sublist.map NotificationConfig.id).nodup w.configs.keyed

theorem arranged_nodup (w : NotifierWorld) (attempt : NotifyAttempt) (decision : Decision) :
    ((attempt.order.arrange (w.activeConfigs decision)).map NotificationConfig.id).Nodup :=
  ((attempt.order.perm _).map _).nodup_iff.mpr (activeConfigs_nodup w decision)

/-- A decision is named by the body of its message. -/
theorem warningBody_id {d d' : Decision} (h : warningBody d = warningBody d') : d.id = d'.id := by
  unfold warningBody at h
  simp only [String.append_assoc] at h
  exact (Uuid.str_append_inj ((String.append_right_inj _).mp h)).1

/-- A try logs one row for a recipient at most, and none if it does not succeed. -/
theorem countP_loggedBy (w : AlertWorld) (task : NotifyTask) (attempt : NotifyAttempt)
    (id c : Uuid) :
    ((w.loggedBy task attempt).countP fun row => row.decisionId = id ∧ row.configId = c) ≤
      if task.decisionId = id then 1 else 0 := by
  unfold AlertWorld.loggedBy
  cases hfind : w.world.db.decisions.find task.decisionId with
  | none => simp [NotifierWorld.loggedFor]
  | some decision =>
    have hkey : decision.id = task.decisionId := w.world.db.decisions.keyed _ _ hfind
    unfold NotifierWorld.loggedFor
    dsimp only
    split
    next =>
      rw [List.countP_map]
      split
      next hid =>
        refine Nat.le_trans (List.countP_mono_left ?_)
          (countP_id_le_one (arranged_nodup w.notifier attempt decision) c)
        intro config _ hrow
        have hrow := of_decide_eq_true hrow
        exact decide_eq_true hrow.2
      next hid =>
        refine Nat.le_of_eq (List.countP_eq_zero.mpr ?_)
        intro config _ hrow
        have hrow := of_decide_eq_true hrow
        exact hid (hkey.symm.trans hrow.1)
    next => simp

theorem countP_sentBy (w : AlertWorld) (task : NotifyTask) (attempt : NotifyAttempt)
    (decision : Decision) (c : Uuid) :
    ((w.sentBy task attempt).countP fun m => m.configId = c ∧ m.body = warningBody decision) ≤
      if task.decisionId = decision.id then 1 else 0 := by
  unfold AlertWorld.sentBy
  cases hfind : w.world.db.decisions.find task.decisionId with
  | none => simp [NotifierWorld.sentOn]
  | some found =>
    have hkey : found.id = task.decisionId := w.world.db.decisions.keyed _ _ hfind
    unfold NotifierWorld.sentOn
    dsimp only
    rw [List.countP_map]
    split
    next hid =>
      have hids := arranged_nodup w.notifier attempt found
      have hreached : ((attempt.reachedIn (w.notifier.activeConfigs found)).map
          NotificationConfig.id).Nodup :=
        ((List.takeWhile_sublist _).map _).nodup hids
      refine Nat.le_trans (List.countP_mono_left ?_) (countP_id_le_one hreached c)
      intro config _ hsent
      have hsent := of_decide_eq_true hsent
      exact decide_eq_true hsent.1
    next hid =>
      refine Nat.le_of_eq (List.countP_eq_zero.mpr ?_)
      intro config _ hsent
      have hsent := of_decide_eq_true hsent
      exact hid (hkey.symm.trans (warningBody_id hsent.2))

end Counting

theorem AlertWorld.Warrants.mono {message : ProviderMessage} (h : w.Warrants message)
    (hkeeps : KeepsCameras w.world.db u.world.db)
    (hwarned : ∀ id ∈ w.world.notifyWarning, id ∈ u.world.notifyWarning)
    (hconfigs : ∀ c ∈ w.config.notificationConfigs, c ∈ u.config.notificationConfigs) :
    u.Warrants message := by
  obtain ⟨decision, config, hfind, hnamed, hconfig, htenant, hactive, hmessage⟩ := h
  obtain ⟨decision', hfind', htenant', hcamera'⟩ := hkeeps _ _ hfind
  have hid : decision'.id = decision.id := u.world.db.decisions.keyed _ _ hfind'
  have hbody : warningBody decision' = warningBody decision := by
    unfold warningBody deepLink
    rw [hid, hcamera']
  refine ⟨decision', config, hid ▸ hfind', hid ▸ hwarned _ hnamed, hconfigs _ hconfig,
    htenant.trans htenant'.symm, hactive, ?_⟩
  rw [hbody]
  exact hmessage

theorem AlertWorld.Tells.mono {row : NotificationDelivery} (h : w.Tells row)
    (hkeeps : KeepsCameras w.world.db u.world.db)
    (haccepted : ∀ message ∈ w.accepted, message ∈ u.accepted) : u.Tells row := by
  obtain ⟨decision, message, hfind, hmessage, hrow⟩ := h
  obtain ⟨decision', hfind', htenant', -⟩ := hkeeps _ _ hfind
  have hid : decision'.id = decision.id :=
    (u.world.db.decisions.keyed _ _ hfind').trans (w.world.db.decisions.keyed _ _ hfind).symm
  refine ⟨decision', message, hfind', haccepted _ hmessage, ?_⟩
  rw [hrow]
  unfold ProviderMessage.delivery
  rw [hid, htenant']

theorem AlertWorld.Sound.serve (h : w.Sound) (r : Request) : (w.serve r).Sound := by
  have hkeeps : KeepsCameras w.world.db (w.serve r).world.db := keepsCameras_serve w.world r
  have hprefix : w.world.notifyWarning <+: (w.serve r).world.notifyWarning :=
    notifyWarning_prefix w.world r
  have hnew : ∀ task ∈ (w.serve r).tasks, task ∈ w.tasks ∨
      task.retries = 0 ∧ task.decisionId ∈ (w.serve r).world.notifyWarning := by
    intro task htask
    rcases List.mem_append.mp htask with hold | hadded
    · exact Or.inl hold
    · obtain ⟨id, hid, rfl⟩ := List.mem_map.mp hadded
      exact Or.inr ⟨rfl, List.mem_of_mem_drop hid⟩
  refine ⟨?_, ?_, ?_, ?_, ?_, ?_⟩
  · intro task htask
    rcases hnew task htask with hold | ⟨hzero, -⟩
    · exact h.retries task hold
    · omega
  · intro task htask
    rcases hnew task htask with hold | ⟨-, hnamed⟩
    · exact hprefix.subset (h.warned task hold)
    · exact hnamed
  · intro id c
    have hdue := due_serve w r (fun _ => 1) id
    have hrows := h.rows id c
    show (w.deliveries.countP fun row => row.decisionId = id ∧ row.configId = c) + _ ≤ _
    omega
  · intro d c
    have hdue := due_serve w r (maxNotifyRetries + 1 - ·) d.id
    have hmessages := h.messages d c
    show (w.accepted.countP fun m => m.configId = c ∧ m.body = warningBody d) + _ ≤ _
    rw [Nat.sub_zero] at hdue
    omega
  · intro message hmessage
    exact (h.warrants message hmessage).mono hkeeps hprefix.subset fun _ hc => hc
  · intro row hrow
    exact (h.tells row hrow).mono hkeeps fun _ hm => hm

theorem AlertWorld.Sound.admin (h : w.Sound) (call : AdminCall) : (w.admin call).Sound := by
  have hconfigs : ∀ c ∈ w.config.notificationConfigs,
      c ∈ (w.admin call).config.notificationConfigs := by
    intro c hc
    show c ∈ (call.serve w.config).2.notificationConfigs
    rw [serve_eq]
    split
    next =>
      unfold AdminCall.add
      cases call.body with
      | createNotificationConfig body => exact List.mem_append_left _ hc
      | _ => exact hc
    next => exact hc
  refine ⟨h.retries, h.warned, h.rows, h.messages, ?_, h.tells⟩
  intro message hmessage
  exact (h.warrants message hmessage).mono (.refl _) (fun _ hid => hid) hconfigs

/-- A message of a try is of the decision of the task, to an active recipient of its tenant. -/
theorem warrants_sentBy (hnamed : task.decisionId ∈ w.world.notifyWarning) :
    ∀ message ∈ w.sentBy task attempt, w.Warrants message := by
  intro message hmessage
  unfold AlertWorld.sentBy at hmessage
  cases hfind : w.world.db.decisions.find task.decisionId with
  | none =>
    rw [hfind] at hmessage
    cases hmessage
  | some decision =>
    rw [hfind] at hmessage
    obtain ⟨config, hconfig, rfl⟩ := List.mem_map.mp hmessage
    have hkey : decision.id = task.decisionId := w.world.db.decisions.keyed _ _ hfind
    obtain ⟨hrow, hactive⟩ := List.mem_filter.mp (mem_of_mem_reachedIn hconfig)
    obtain ⟨htenant, hactive⟩ := of_decide_eq_true hactive
    exact ⟨decision, config, hkey ▸ hfind, hkey ▸ hnamed, hrow, htenant, hactive, rfl⟩

/-- A row of a try tells of the message to its recipient. -/
theorem tells_loggedBy : ∀ row ∈ w.loggedBy task attempt, ∃ decision message,
    w.world.db.decisions.find row.decisionId = some decision ∧
      message ∈ w.sentBy task attempt ∧ row = message.delivery decision := by
  intro row hrow
  unfold AlertWorld.loggedBy at hrow
  unfold AlertWorld.sentBy
  cases hfind : w.world.db.decisions.find task.decisionId with
  | none =>
    rw [hfind] at hrow
    cases hrow
  | some decision =>
    have hkey : decision.id = task.decisionId := w.world.db.decisions.keyed _ _ hfind
    rw [hfind] at hrow
    unfold NotifierWorld.loggedFor at hrow
    dsimp only at hrow
    split at hrow
    next hall =>
      obtain ⟨config, hconfig, rfl⟩ := List.mem_map.mp hrow
      have hreached : attempt.reachedIn (w.notifier.activeConfigs decision) =
          attempt.order.arrange (w.notifier.activeConfigs decision) := by
        apply reached_eq_self
        intro c hc
        exact List.all_eq_true.mp hall c ((attempt.order.perm _).mem_iff.mp hc)
      refine ⟨decision, attempt.messageTo decision config, ?_, ?_, rfl⟩
      · show w.world.db.decisions.find decision.id = some decision
        rw [hkey]
        exact hfind
      · show attempt.messageTo decision config ∈
          (attempt.reachedIn (w.notifier.activeConfigs decision)).map (attempt.messageTo decision)
        rw [hreached]
        exact List.mem_map_of_mem hconfig
    next => cases hrow

theorem AlertWorld.Sound.notify (h : w.Sound) (htask : task ∈ w.tasks)
    (attempt : NotifyAttempt) : (w.notify task attempt).Sound := by
  obtain ⟨hdeliveries, haccepted⟩ := notify_adds w task attempt
  obtain ⟨succeeded, htasks, hraised⟩ := notify_tasks w task attempt
  have hkeeps : KeepsCameras w.world.db (w.notify task attempt).world.db := .refl _
  have hnamed := h.warned task htask
  have hagain : ∀ other ∈ task.again succeeded, other.decisionId = task.decisionId ∧
      other.retries ≤ maxNotifyRetries := by
    intro other hother
    unfold NotifyTask.again at hother
    split at hother
    next hmore =>
      rw [List.mem_singleton.mp hother]
      exact ⟨rfl, hmore.2⟩
    next => cases hother
  have hmem : ∀ other ∈ (w.notify task attempt).tasks, other ∈ w.tasks ∨
      other ∈ task.again succeeded := by
    intro other hother
    rw [htasks] at hother
    exact (List.mem_append.mp hother).imp_left List.mem_of_mem_erase
  refine ⟨?_, ?_, ?_, ?_, ?_, ?_⟩
  · intro other hother
    rcases hmem other hother with hold | hnew
    · exact h.retries other hold
    · exact (hagain other hnew).2
  · intro other hother
    rcases hmem other hother with hold | hnew
    · exact h.warned other hold
    · show other.decisionId ∈ w.world.notifyWarning
      rw [(hagain other hnew).1]
      exact hnamed
  · intro id c
    have hdue := due_notify htask htasks (fun _ => 1) id
    have hone := @again_due_one task succeeded id
    have hrows := h.rows id c
    have hadded := countP_loggedBy w task attempt id c
    rw [hdeliveries, List.countP_append]
    show _ ≤ w.world.warnings id
    cases succeeded with
    | true =>
      simp only [true_and] at hone
      omega
    | false =>
      rw [hraised rfl]
      simp only [List.countP_nil]
      omega
  · intro d c
    have hdue := due_notify htask htasks (maxNotifyRetries + 1 - ·) d.id
    have hone := again_due succeeded (h.retries task htask) d.id
    have hmessages := h.messages d c
    have hadded := countP_sentBy w task attempt d c
    rw [haccepted, List.countP_append]
    show _ ≤ (maxNotifyRetries + 1) * w.world.warnings d.id
    omega
  · intro message hmessage
    rw [haccepted] at hmessage
    have hall : w.Warrants message := by
      rcases List.mem_append.mp hmessage with hold | hnew
      · exact h.warrants message hold
      · exact warrants_sentBy hnamed message hnew
    exact hall.mono hkeeps (fun _ hid => hid) fun _ hc => hc
  · intro row hrow
    rw [hdeliveries] at hrow
    rcases List.mem_append.mp hrow with hold | hnew
    · refine (h.tells row hold).mono hkeeps ?_
      intro message hmessage
      rw [haccepted]
      exact List.mem_append_left _ hmessage
    · obtain ⟨decision, message, hfind, hmessage, hrow⟩ := tells_loggedBy row hnew
      refine ⟨decision, message, hfind, ?_, hrow⟩
      rw [haccepted]
      exact List.mem_append_right _ hmessage

theorem AlertWorld.Sound.step (h : w.Sound) (hstep : Alerting w m u) : u.Sound := by
  obtain ⟨henabled, rfl⟩ := hstep
  cases m with
  | admin call => exact h.admin call
  | serve r => exact h.serve r
  | notify task attempt => exact h.notify henabled attempt

/-- Whatever the triage, the administrators and the provider do: a message goes to an active
recipient of the tenant of a decision that was warned of, four times a warning at most, and a row of
the log tells of a message and is there once a warning at most. -/
theorem alerts_sound (hidle : w.Idle) (hrun : Run Alerting w ms u) : u.Sound := by
  refine hrun.invariant (I := AlertWorld.Sound) ?_ hidle.sound
  intro _ _ _ hs hstep
  exact hs.step hstep

theorem DeliveryQuery.sees {query : DeliveryQuery} {tenant : Option Uuid} {role : UserRole}
    (h : query.context = .ok (tenant, role)) (db : ConfigDb) (id : Uuid) :
    (ConfigSession.mk db tenant role).sees id = decide (id = query.tenantId) :=
  listContext_sees h db id

/-- The status view of a decision: an administrator of its tenant sees exactly the rows that the
tries for the decision have logged, and for a decision of another tenant there is a 404. -/
theorem deliveries_listed (hidle : w.Idle) (hrun : Run Alerting w ms u) {query : DeliveryQuery}
    {context : Option Uuid × UserRole} (hlet : query.context = .ok context) :
    u.listDecisionDeliveries query =
      if u.world.db.has query.tenantId query.decisionId then
        .ok (query.order.arrange
          ((w.logged ms).filter fun row => row.decisionId = query.decisionId))
      else .error (.httpException 404 "Decision not found") := by
  obtain ⟨tenant, role⟩ := context
  have hsound := alerts_sound hidle hrun
  have hlog : u.deliveries = w.logged ms := by
    rw [deliveries_run hrun, hidle.deliveries, List.nil_append]
  have hsees := DeliveryQuery.sees hlet u.config
  unfold AlertWorld.listDecisionDeliveries Db.has
  rw [hlet]
  show (match (u.world.db.decisions.find query.decisionId).filter fun d =>
    (ConfigSession.mk u.config tenant role).sees d.tenantId with
    | none => _
    | some decision => _) = _
  simp only [hsees]
  cases hfind : u.world.db.decisions.find query.decisionId with
  | none => rfl
  | some decision =>
    by_cases htenant : decision.tenantId = query.tenantId
    · -- all rows of the decision are of its tenant, so the policies hide none of them
      have hrows : (u.deliveries.filter fun row => row.decisionId = query.decisionId ∧
          decide (row.tenantId = query.tenantId) = true) =
          (w.logged ms).filter fun row => row.decisionId = query.decisionId := by
        rw [hlog]
        apply List.filter_congr
        intro row hrow
        obtain ⟨found, message, hfound, -, heq⟩ := hsound.tells row (hlog ▸ hrow)
        have hof : row.tenantId = found.tenantId := by rw [heq]; rfl
        by_cases hid : row.decisionId = query.decisionId
        · rw [hid, hfind] at hfound
          obtain rfl := Option.some.inj hfound
          simp [hid, hof, htenant]
        · simp [hid]
      simp only [htenant, decide_true, Option.filter_some, Option.any_some, ↓reduceIte, ne_eq,
        not_true_eq_false, decide_false]
      rw [hrows]
      rfl
    · simp [htenant, Option.filter_some]
      rfl

def alertStart : AlertWorld where
  config := sampleSystem.config
  keyed := .nil
  world := sampleWorld [sampleEvidence 11 none 12]
  tasks := []
  deliveries := []
  accepted := []
  refused := []

/-- Two recipients of tenant 1, one of tenant 8, and a decision of tenant 1 that is warned of. The
second recipient is refused on the first try. -/
def alertMoves : List AlertMove :=
  [.admin (adminCall 1 31 (.createNotificationConfig ⟨.sms, "+15550000001"⟩)),
    .admin (adminCall 8 33 (.createNotificationConfig ⟨.sms, "+15550000003"⟩)),
    .admin (adminCall 1 32 (.createNotificationConfig ⟨.whatsapp, "+15550000002"⟩)),
    .serve (.aggregate (sampleAggregate 11 20)), .notify ⟨⟨20⟩, 0⟩ (refusedOnce 0),
    .notify ⟨⟨20⟩, 1⟩ (refusedOnce 1)]

def afterAlerts : AlertWorld :=
  alertMoves.foldl AlertWorld.next alertStart

instance alertEnabled (w : AlertWorld) : ∀ m, Decidable (w.enabled m)
  | .notify task _ => inferInstanceAs (Decidable (task ∈ w.tasks))
  | .admin _ | .serve _ => instDecidableTrue

theorem run_alertMoves : Run Alerting alertStart alertMoves afterAlerts := by
  have hrun : Run Alerting alertStart (alertMoves.map id) afterAlerts := by
    refine run_foldl (fun w m => decide (w.enabled m)) ?_ ?_
    · intro w m hok
      exact ⟨of_decide_eq_true hok, rfl⟩
    · decide +kernel
  rwa [List.map_id] at hrun

theorem idle_alertStart : alertStart.Idle :=
  ⟨rfl, rfl, rfl⟩

/-- The recipient that was not refused has two messages for one warning. -/
theorem alerts_sound_sample : afterAlerts.accepted.length = 3 ∧
    ∀ message ∈ afterAlerts.accepted, afterAlerts.Warrants message :=
  ⟨by decide +kernel, (alerts_sound idle_alertStart run_alertMoves).warrants⟩

def deliveryQuery (tenantId : BitVec 128) : DeliveryQuery where
  auth := ⟨"root", none, .rootAdmin⟩
  tenantId := ⟨tenantId⟩
  decisionId := ⟨20⟩
  order := ⟨id, fun rows => .refl rows⟩

theorem deliveries_listed_sample :
    (afterAlerts.listDecisionDeliveries (deliveryQuery 1)).map List.length = .ok 2 ∧
      afterAlerts.listDecisionDeliveries (deliveryQuery 8) =
        .error (.httpException 404 "Decision not found") := by
  constructor
  · rw [@deliveries_listed _ _ _ idle_alertStart run_alertMoves (deliveryQuery 1) _ rfl]
    decide +kernel
  · rw [@deliveries_listed _ _ _ idle_alertStart run_alertMoves (deliveryQuery 8) _ rfl]
    decide +kernel

end ArgusServices

import ArgusServices.Notifier
import Mathlib.Data.List.TakeWhile

namespace ArgusServices

open Effect

variable {attempt : NotifyAttempt} {decision : Decision} {decisionId : String} {w : NotifierWorld}

def NotifyAttempt.accepts (attempt : NotifyAttempt) (config : NotificationConfig) : Bool :=
  match attempt.answer config with
  | .ok _ => true
  | .error _ => false

def NotifyAttempt.sid (attempt : NotifyAttempt) (config : NotificationConfig) : String :=
  match attempt.answer config with
  | .ok sid => sid
  | .error _ => ""

def NotifyAttempt.messageTo (attempt : NotifyAttempt) (decision : Decision)
    (config : NotificationConfig) : ProviderMessage where
  configId := config.id
  channel := config.channel
  recipient := config.recipient
  body := warningBody decision
  sid := attempt.sid config

def NotifyAttempt.sentDelivery (attempt : NotifyAttempt) (decision : Decision)
    (config : NotificationConfig) : NotificationDelivery :=
  { pendingDelivery decision config with
    status := .sent, providerMessageId := some (attempt.sid config) }

def NotifyAttempt.refusal (attempt : NotifyAttempt) (config : NotificationConfig) :
    ProviderRefusal where
  configId := config.id
  channel := config.channel
  error :=
    match attempt.answer config with
    | .ok _ => ""
    | .error exc => attempt.str exc

/-- The configs a try goes through before the provider refuses one. -/
def NotifyAttempt.reached (attempt : NotifyAttempt) (configs : List NotificationConfig) :
    List NotificationConfig :=
  configs.takeWhile attempt.accepts

/-- The config a try breaks off at, if there is one. -/
def NotifyAttempt.brokenOffAt (attempt : NotifyAttempt) (configs : List NotificationConfig) :
    List NotificationConfig :=
  (configs.dropWhile attempt.accepts).take 1

def NotifierWorld.withAccepted (w : NotifierWorld) (messages : List ProviderMessage) :
    NotifierWorld :=
  { w with accepted := w.accepted ++ messages }

def NotifierWorld.withRefused (w : NotifierWorld) (refusals : List ProviderRefusal) :
    NotifierWorld :=
  { w with refused := w.refused ++ refusals }

@[simp] theorem withAccepted_nil : w.withAccepted [] = w := by
  simp [NotifierWorld.withAccepted]

@[simp] theorem withAccepted_withAccepted (m m' : List ProviderMessage) :
    (w.withAccepted m).withAccepted m' = w.withAccepted (m ++ m') := by
  simp [NotifierWorld.withAccepted]

theorem reached_cons_of_accepts {config : NotificationConfig} {configs : List NotificationConfig}
    (h : attempt.accepts config = true) :
    attempt.reached (config :: configs) = config :: attempt.reached configs := by
  simp [NotifyAttempt.reached, h]

theorem reached_cons_of_refuses {config : NotificationConfig} {configs : List NotificationConfig}
    (h : attempt.accepts config = false) : attempt.reached (config :: configs) = [] := by
  simp [NotifyAttempt.reached, h]

theorem brokenOffAt_cons_of_accepts {config : NotificationConfig}
    {configs : List NotificationConfig} (h : attempt.accepts config = true) :
    attempt.brokenOffAt (config :: configs) = attempt.brokenOffAt configs := by
  simp [NotifyAttempt.brokenOffAt, h]

theorem brokenOffAt_cons_of_refuses {config : NotificationConfig}
    {configs : List NotificationConfig} (h : attempt.accepts config = false) :
    attempt.brokenOffAt (config :: configs) = [config] := by
  simp [NotifyAttempt.brokenOffAt, h]

theorem reached_eq_self {configs : List NotificationConfig}
    (h : ∀ c ∈ configs, attempt.accepts c = true) : attempt.reached configs = configs :=
  List.takeWhile_eq_self_iff.mpr h

theorem ends_notifyConfig {config : NotificationConfig} {s : NotifierSession} :
    Ends (notifyConfig attempt decision config) s
      (fun _ t => attempt.accepts config = true ∧
        t = ⟨s.world.withAccepted [attempt.messageTo decision config],
          s.tx ++ [attempt.sentDelivery decision config]⟩)
      fun _ t => attempt.accepts config = false ∧
        t.world = s.world.withRefused [attempt.refusal config] := by
  unfold notifyConfig
  simp only [addDelivery, ends_bind, ends_modify]
  cases hanswer : attempt.answer config with
  | ok sid =>
    simp [acceptMessage, setDelivery, NotifyAttempt.accepts, NotifyAttempt.sid, hanswer,
      NotifyAttempt.messageTo, NotifyAttempt.sentDelivery, NotifierWorld.withAccepted]
  | error exc =>
    simp [refuseMessage, setDelivery, NotifyAttempt.accepts, hanswer, NotifierWorld.withRefused,
      NotifyAttempt.refusal]

/-- The loop: it goes through all configs, or raises at the first one that is refused. -/
theorem ends_notifyConfigs (configs : List NotificationConfig) (s : NotifierSession) :
    Ends (forM configs (notifyConfig attempt decision)) s
      (fun _ t => (∀ c ∈ configs, attempt.accepts c = true) ∧
        t = ⟨s.world.withAccepted (configs.map (attempt.messageTo decision)),
          s.tx ++ configs.map (attempt.sentDelivery decision)⟩)
      fun _ t => (∃ c ∈ configs, attempt.accepts c = false) ∧
        t.world = (s.world.withAccepted ((attempt.reached configs).map
          (attempt.messageTo decision))).withRefused ((attempt.brokenOffAt configs).map
            attempt.refusal) := by
  induction configs generalizing s with
  | nil => simp
  | cons config configs ih =>
    rw [List.forM_cons, ends_bind]
    refine ends_notifyConfig.mono ?_ ?_
    · intro _ t hpost
      obtain ⟨haccepts, rfl⟩ := hpost
      refine (ih _).mono ?_ ?_
      · intro _ u hpost
        obtain ⟨hall, rfl⟩ := hpost
        refine ⟨List.forall_mem_cons.mpr ⟨haccepts, hall⟩, ?_⟩
        simp
      · intro _ u hpost
        obtain ⟨⟨c, hmem, hrefused⟩, hworld⟩ := hpost
        refine ⟨⟨c, List.mem_cons_of_mem _ hmem, hrefused⟩, ?_⟩
        simp [hworld, reached_cons_of_accepts haccepts, brokenOffAt_cons_of_accepts haccepts]
    · intro _ t hpost
      obtain ⟨hrefused, hworld⟩ := hpost
      refine ⟨⟨config, List.mem_cons_self, hrefused⟩, ?_⟩
      simp [hworld, reached_cons_of_refuses hrefused, brokenOffAt_cons_of_refuses hrefused]

/-- The configs a try reaches in the order of its own query. -/
def NotifyAttempt.reachedIn (attempt : NotifyAttempt) (configs : List NotificationConfig) :
    List NotificationConfig :=
  attempt.reached (attempt.order.arrange configs)

def NotifyAttempt.brokenOffIn (attempt : NotifyAttempt) (configs : List NotificationConfig) :
    List NotificationConfig :=
  attempt.brokenOffAt (attempt.order.arrange configs)

theorem mem_of_mem_reachedIn {config : NotificationConfig} {configs : List NotificationConfig}
    (h : config ∈ attempt.reachedIn configs) : config ∈ configs :=
  (attempt.order.perm configs).mem_iff.mp (List.takeWhile_subset _ h)

/-- The decision the text names. -/
def NotifierWorld.namedDecision (w : NotifierWorld) (decisionId : String) : Option Decision :=
  (Uuid.parse decisionId).bind w.decisions.find

/-- The active configs of the tenant of the decision. -/
def NotifierWorld.recipients (w : NotifierWorld) (decisionId : String) : List NotificationConfig :=
  match w.namedDecision decisionId with
  | some decision => w.activeConfigs decision
  | none => []

/-- Whom a task notifies depends on the decisions and the configs only. -/
theorem recipients_congr {t : NotifierWorld} (hdecisions : t.decisions = w.decisions)
    (hconfigs : t.configs = w.configs) (decisionId : String) :
    t.recipients decisionId = w.recipients decisionId ∧
      t.namedDecision decisionId = w.namedDecision decisionId := by
  have hnamed : t.namedDecision decisionId = w.namedDecision decisionId := by
    simp only [NotifierWorld.namedDecision, hdecisions]
  refine ⟨?_, hnamed⟩
  simp only [NotifierWorld.recipients, hnamed, NotifierWorld.activeConfigs, hconfigs]

/-- A try commits all its rows, or raises and leaves none; the messages before that stay sent. -/
theorem ends_notifyWarning (h : w.namedDecision decisionId = some decision) :
    Ends (notifyWarning attempt decisionId) w
      (fun _ t => (∀ c ∈ w.recipients decisionId, attempt.accepts c = true) ∧
        t = { w.withAccepted ((attempt.reachedIn (w.recipients decisionId)).map
            (attempt.messageTo decision)) with
          deliveries := w.deliveries ++ (attempt.order.arrange (w.recipients decisionId)).map
            (attempt.sentDelivery decision) })
      fun _ t => (∃ c ∈ w.recipients decisionId, attempt.accepts c = false) ∧
        t = (w.withAccepted ((attempt.reachedIn (w.recipients decisionId)).map
          (attempt.messageTo decision))).withRefused
            ((attempt.brokenOffIn (w.recipients decisionId)).map attempt.refusal) := by
  have hrecipients : w.recipients decisionId = w.activeConfigs decision := by
    simp [NotifierWorld.recipients, h]
  have hmem : ∀ c, c ∈ attempt.order.arrange (w.activeConfigs decision) ↔
      c ∈ w.activeConfigs decision := fun c => (attempt.order.perm _).mem_iff
  obtain ⟨id, hid, hfound⟩ := Option.bind_eq_some_iff.mp h
  rw [hrecipients]
  unfold notifyWarning notifyWarningSession
  rw [ends_within]
  simp only [ends_bind, ends_get, hid, NotifierSession.open, hfound, commitDeliveries, ends_modify,
    ends_pure]
  refine (ends_notifyConfigs _ _).mono ?_ ?_
  · intro _ t hpost
    obtain ⟨hall, rfl⟩ := hpost
    rw [NotifyAttempt.reachedIn, reached_eq_self hall]
    exact ⟨fun c hc => hall c ((hmem c).mpr hc), rfl⟩
  · intro _ t hpost
    obtain ⟨⟨c, hc, hrefused⟩, hworld⟩ := hpost
    exact ⟨⟨c, (hmem c).mp hc, hrefused⟩, hworld⟩

theorem ends_notifyWarning_missing (h : w.namedDecision decisionId = none) :
    Ends (notifyWarning attempt decisionId) w (fun _ _ => False) fun _ t => t = w := by
  unfold notifyWarning notifyWarningSession
  rw [ends_within, ends_bind, ends_get]
  cases hid : Uuid.parse decisionId with
  | none => rfl
  | some id =>
    have hfind : w.decisions.find id = none := by
      simpa [NotifierWorld.namedDecision, hid] using h
    simp only [NotifierSession.open, hfind]
    rfl

end ArgusServices

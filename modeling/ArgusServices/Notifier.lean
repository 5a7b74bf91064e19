import ArgusServices.Store
import Mathlib.Data.List.Nodup

namespace ArgusServices

open Effect

inductive NotificationChannel
  | sms | whatsapp
  deriving DecidableEq, Repr

inductive NotificationStatus
  | pending | sent | delivered | failed
  deriving DecidableEq, Repr

structure NotificationConfig where
  id : Uuid
  tenantId : Uuid
  channel : NotificationChannel
  recipient : String
  isActive : Bool
  deriving DecidableEq, Repr

structure NotificationDelivery where
  tenantId : Uuid
  decisionId : Uuid
  configId : Uuid
  channel : NotificationChannel
  status : NotificationStatus
  providerMessageId : Option String
  errorDetail : Option String
  deriving DecidableEq, Repr

/-- A message the provider took, with the config it was sent for. -/
structure ProviderMessage where
  configId : Uuid
  channel : NotificationChannel
  recipient : String
  body : String
  sid : String
  deriving DecidableEq, Repr

/-- A call the provider refused, with the text of the exception it ended in. -/
structure ProviderRefusal where
  configId : Uuid
  channel : NotificationChannel
  error : String
  deriving DecidableEq, Repr

/-- The rows of `notification_configs`, with their primary key. -/
structure ConfigTable where
  rows : List NotificationConfig
  keyed : (rows.map NotificationConfig.id).Nodup

structure NotifierWorld where
  decisions : KeyedTable Uuid Decision Decision.id
  configs : ConfigTable
  deliveries : List NotificationDelivery
  accepted : List ProviderMessage
  refused : List ProviderRefusal

/-- The order in which a query without ORDER BY returns its rows. -/
structure RowOrder (α : Type) where
  arrange : List α → List α
  perm : ∀ rows, (arrange rows).Perm rows

/-- The rows as they were inserted. -/
def RowOrder.asStored {α : Type} : RowOrder α where
  arrange := id
  perm := fun rows => .refl rows

/-- What one try of the task meets: the order of the configs, the answer of the provider to the
call for each of them, and the text of its exceptions. -/
structure NotifyAttempt where
  order : RowOrder NotificationConfig
  answer : NotificationConfig → Except Exn String
  str : Exn → String

/-- The session of a try, whose rows are dropped unless it commits. -/
structure NotifierSession where
  world : NotifierWorld
  tx : List NotificationDelivery

def NotifierSession.open (w : NotifierWorld) : NotifierSession :=
  ⟨w, w.deliveries⟩

def maxNotifyRetries : Nat := 3

def deepLink (decision : Decision) : String :=
  "https://triage.argus.local/decisions/" ++ decision.id.str

def warningBody (decision : Decision) : String :=
  "ARGUS Warning: decision " ++ decision.id.str ++ " on camera " ++ decision.cameraId.str ++
    ". Review: " ++ deepLink decision

def pendingDelivery (decision : Decision) (config : NotificationConfig) : NotificationDelivery where
  tenantId := decision.tenantId
  decisionId := decision.id
  configId := config.id
  channel := config.channel
  status := .pending
  providerMessageId := none
  errorDetail := none

/-- The configs the select of a try returns, but for their order. -/
def NotifierWorld.activeConfigs (w : NotifierWorld) (decision : Decision) :
    List NotificationConfig :=
  w.configs.rows.filter fun c => c.tenantId = decision.tenantId ∧ c.isActive

def addDelivery (delivery : NotificationDelivery) : Proc NotifierSession Exn Unit :=
  modify fun s => { s with tx := s.tx ++ [delivery] }

/-- The columns set on the row that was added last. -/
def setDelivery (delivery : NotificationDelivery) : Proc NotifierSession Exn Unit :=
  modify fun s => { s with tx := s.tx.dropLast ++ [delivery] }

def acceptMessage (message : ProviderMessage) : Proc NotifierSession Exn Unit :=
  modify fun s => { s with world := { s.world with accepted := s.world.accepted ++ [message] } }

def refuseMessage (refusal : ProviderRefusal) : Proc NotifierSession Exn Unit :=
  modify fun s => { s with world := { s.world with refused := s.world.refused ++ [refusal] } }

/-- The body of the loop over the configs. -/
def notifyConfig (attempt : NotifyAttempt) (decision : Decision) (config : NotificationConfig) :
    Proc NotifierSession Exn Unit := do
  let delivery := pendingDelivery decision config
  addDelivery delivery
  match attempt.answer config with
  | .ok sid =>
    acceptMessage ⟨config.id, config.channel, config.recipient, warningBody decision, sid⟩
    setDelivery { delivery with status := .sent, providerMessageId := some sid }
  | .error exc =>
    refuseMessage ⟨config.id, config.channel, attempt.str exc⟩
    setDelivery { delivery with status := .failed, errorDetail := some (attempt.str exc) }
    throw exc

def commitDeliveries : Proc NotifierSession Exn Unit :=
  modify fun s => { s with world := { s.world with deliveries := s.tx } }

def notifyWarningSession (attempt : NotifyAttempt) (decisionId : String) :
    Proc NotifierSession Exn String := do
  let s ← get
  match Uuid.parse decisionId with
  | none => throw (.valueError "badly formed hexadecimal UUID string")
  | some id =>
    match s.world.decisions.find id with
    | none => throw (.valueError ("Decision not found: " ++ decisionId))
    | some decision =>
      forM (attempt.order.arrange (s.world.activeConfigs decision)) (notifyConfig attempt decision)
      commitDeliveries
      commitDeliveries
      pure decisionId

/-- `_notify_warning`: on an exception the session is rolled back, the calls to the provider
stay made. -/
def notifyWarning (attempt : NotifyAttempt) (decisionId : String) : Proc NotifierWorld Exn String :=
  within NotifierSession.open NotifierSession.world (notifyWarningSession attempt decisionId)

/-- The task with its retries, and the world it leaves at the end. -/
def runNotifyTask (attempts : Nat → NotifyAttempt) (decisionId : String) (w : NotifierWorld) :
    NotifierWorld :=
  (exec (autoretry (fun retries => notifyWarning (attempts retries) decisionId) maxNotifyRetries 0)
    w).2

end ArgusServices

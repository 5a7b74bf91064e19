import ArgusServices.Uuid

namespace ArgusServices

inductive UserRole
  | rootAdmin | tenantAdmin | watcher
  deriving DecidableEq, Repr

def UserRole.value : UserRole → String
  | .rootAdmin => "root_admin"
  | .tenantAdmin => "tenant_admin"
  | .watcher => "watcher"

inductive DecisionState
  | normal | weird | warning
  | resolvedTruePositive | resolvedFalsePositive | resolvedFalseNegative
  deriving DecidableEq, Repr

def DecisionState.value : DecisionState → String
  | .normal => "normal"
  | .weird => "weird"
  | .warning => "warning"
  | .resolvedTruePositive => "resolved_true_positive"
  | .resolvedFalsePositive => "resolved_false_positive"
  | .resolvedFalseNegative => "resolved_false_negative"

/-- The states `resolve_decision` refuses to resolve again. -/
def DecisionState.resolved : DecisionState → Bool
  | .resolvedTruePositive | .resolvedFalsePositive | .resolvedFalseNegative => true
  | .normal | .weird | .warning => false

inductive FeedbackDisposition
  | truePositive | falsePositive | falseNegative
  deriving DecidableEq, Repr

def FeedbackDisposition.value : FeedbackDisposition → String
  | .truePositive => "true_positive"
  | .falsePositive => "false_positive"
  | .falseNegative => "false_negative"

/-- `_DISPOSITION_TO_STATE`. -/
def dispositionToState : FeedbackDisposition → DecisionState
  | .truePositive => .resolvedTruePositive
  | .falsePositive => .resolvedFalsePositive
  | .falseNegative => .resolvedFalseNegative

@[simp] theorem dispositionToState_resolved (d : FeedbackDisposition) :
    (dispositionToState d).resolved = true := by
  cases d <;> rfl

/-- `timedelta(seconds=n)`; instants are counted in microseconds, the resolution of `datetime`. -/
def seconds (n : Int) : Int :=
  n * 1000000

structure Tenant where
  id : Uuid
  aggregationWindowSecs : Int
  weirdThreshold : Int
  warningThreshold : Int
  deriving DecidableEq, Repr

structure Evidence where
  id : Uuid
  tenantId : Uuid
  cameraId : Uuid
  regionId : Option Uuid
  capturedAt : Int
  severityScore : Int
  frameStorageUri : String
  ingestionId : Uuid
  deriving DecidableEq, Repr

structure Decision where
  id : Uuid
  tenantId : Uuid
  cameraId : Uuid
  regionId : Option Uuid
  state : DecisionState
  cumulativeSeverity : Int
  evidenceCount : Int
  windowStart : Int
  windowEnd : Int
  firstEvidenceAt : Option Int
  lastEvidenceAt : Option Int
  resolvedAt : Option Int
  resolvedBy : Option String
  updatedAt : Int
  deriving DecidableEq, Repr

structure DecisionEvidence where
  tenantId : Uuid
  decisionId : Uuid
  evidenceId : Uuid
  deriving DecidableEq, Repr

structure Feedback where
  tenantId : Uuid
  decisionId : Uuid
  disposition : FeedbackDisposition
  reasoning : String
  submittedBy : String
  deriving DecidableEq, Repr

inductive AuditPayload
  | stateChange (fromState toState : DecisionState) (evidenceCount cumulativeSeverity : Int)
  | resolved (disposition : FeedbackDisposition) (reasoning : String)
  deriving DecidableEq, Repr

structure AuditRecord where
  tenantId : Uuid
  decisionId : Uuid
  eventType : String
  payload : AuditPayload
  actor : Option String
  deriving DecidableEq, Repr

end ArgusServices

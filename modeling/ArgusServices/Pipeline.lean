import ArgusServices.FailedAggregate
import ArgusServices.StreamPolls
import ArgusServices.SummaryInvariant
import ArgusServices.TenantClosed

namespace ArgusServices

open Effect Transition

/-- The system with the consumer group of its ingest stream. The group's `tasks` are those that
wait for an analyzer, `aggregateEvidence` those that wait for the aggregator. `givenUp` are the
analyzer's tasks whose last try raised: their entries stay pending, and no poll reads these again.
`dropped` are the aggregation tasks that raised: that task is not retried. -/
structure Pipeline where
  system : System
  group : ConsumerGroup
  givenUp : List (String × StreamFields)
  dropped : List String

inductive PipelineMove
  | accept (call : IngestCall) (replies : List Reply) (entryId : String)
  | poll (call : PollCall)
  | analyze (entry : String × StreamFields) (attempt : AnalyzeAttempt) (retries : Nat)
  | aggregate (evidenceId : String) (call : AggregateCall)
  | resolve (call : ResolveCall)
  | admin (call : AdminCall)
  | setActiveMode (cameraId : Uuid) (mode : Option RedisEntry)
  | expireKey (key : String)

def Pipeline.accept (texts : FieldTexts) (p : Pipeline) (call : IngestCall)
    (replies : List Reply) (entryId : String) : Pipeline :=
  let s := p.system.accept call replies
  { p with
    system := s
    group := { p.group with
      entries := p.group.entries ++ (s.stream.drop p.system.stream.length).map fun event =>
        (entryId, texts.payload event) } }

def Pipeline.poll (p : Pipeline) (call : PollCall) : Pipeline :=
  { p with group := (exec (processIngestStreamBatch call) p.group).2 }

/-- A try of `analyze_ingest_message`; one that raises is retried later, unless it was the last. -/
def Pipeline.analyze (lib : AnalyzerLibrary) (p : Pipeline) (entry : String × StreamFields)
    (attempt : AnalyzeAttempt) (retries : Nat) : Pipeline :=
  let r := exec (analyzeIngestMessage lib (p.system.meets lib attempt entry.2) entry.1 entry.2
    retries) p.system.analyzer
  { p with
    system := { p.system with analyzer := r.2 }
    group := { p.group with
      pending := p.group.pending.filter fun q => q.1 ∉ r.2.acked
      tasks := if r.1.isOk = true ∨ maxRetries ≤ retries then p.group.tasks.erase entry
        else p.group.tasks }
    givenUp := if r.1.isOk = false ∧ maxRetries ≤ retries then p.givenUp ++ [entry]
      else p.givenUp }

/-- `aggregate_evidence`. -/
def Pipeline.aggregate (p : Pipeline) (evidenceId : String) (call : AggregateCall) : Pipeline :=
  let r := ArgusServices.aggregate call p.system.toWorld
  { p with
    system := { p.system with
      analyzer := { p.system.analyzer with
        aggregateEvidence := p.system.analyzer.aggregateEvidence.erase evidenceId }
      world := r.2 }
    dropped := if r.1.isOk then p.dropped else p.dropped ++ [evidenceId] }

def Pipeline.resolve (p : Pipeline) (call : ResolveCall) : Pipeline :=
  { p with system := { p.system with world := (resolveDecision call p.system.toWorld).2 } }

def Pipeline.setKey (p : Pipeline) (key : String) (entry : Option RedisEntry) : Pipeline :=
  { p with system := { p.system with world := { p.system.world with
    keys := Function.update p.system.world.keys key entry } } }

def Pipeline.next (lib : AnalyzerLibrary) (texts : FieldTexts) (p : Pipeline) :
    PipelineMove → Pipeline
  | .accept call replies entryId => p.accept texts call replies entryId
  | .poll call => p.poll call
  | .analyze entry attempt retries => p.analyze lib entry attempt retries
  | .aggregate evidenceId call => p.aggregate evidenceId call
  | .resolve call => p.resolve call
  | .admin call => { p with system := p.system.admin call }
  | .setActiveMode cameraId mode => p.setKey (activeModeKey cameraId) mode
  | .expireKey key => p.setKey key none

/-- A worker takes a task that waits for it. -/
def Pipeline.enabled (p : Pipeline) : PipelineMove → Prop
  | .analyze entry _ _ => entry ∈ p.group.tasks
  | .aggregate evidenceId call => evidenceId ∈ p.system.analyzer.aggregateEvidence ∧
      Uuid.parse evidenceId = some call.evidenceId
  | _ => True

def Working (lib : AnalyzerLibrary) (texts : FieldTexts) (p : Pipeline) (m : PipelineMove)
    (q : Pipeline) : Prop :=
  p.enabled m ∧ q = p.next lib texts m

/-- A command that raises has not been executed, and none raises after the commit of the row or
after the message has been moved to the dead letters. -/
structure AnalyzeAttempt.FailsCleanly (attempt : AnalyzeAttempt) : Prop where
  commit : attempt.commit ≠ .lost
  committed : attempt.commit = .done → attempt.xack = .done ∧ attempt.enqueue = .done
  moved : attempt.moveToDlq ≠ .lost
  buried : attempt.moveToDlq = .done → attempt.dlqXack = .done

/-- What may fail, fails before it has taken effect, and no idempotency key expires. -/
def Pipeline.failsCleanly (p : Pipeline) : PipelineMove → Prop
  | .accept _ replies _ => .lost ∉ replies
  | .poll call => HandsOver p.group (.poll call)
  | .analyze _ attempt _ => attempt.FailsCleanly
  | .aggregate _ call => call.raisesAt ≠ some .closeSession
  | .expireKey key => "ingest:idem:".toList.isPrefixOf key.toList = false
  | .resolve _ | .admin _ | .setActiveMode _ _ => True

/-- The tenant and the ingestion that fields name. -/
def StreamFields.name (fields : StreamFields) : Option (Uuid × Uuid) := do
  let tenantId ← (fields.lookup "tenant_id").bind Uuid.parse
  let ingestionId ← (fields.lookup "ingestion_id").bind Uuid.parse
  pure (tenantId, ingestionId)

def IngestEvent.name (event : IngestEvent) : Option (Uuid × Uuid) := do
  let tenantId ← Uuid.parse event.tenantId
  let ingestionId ← Uuid.parse event.ingestionId
  pure (tenantId, ingestionId)

def Evidence.name (e : Evidence) : Option (Uuid × Uuid) :=
  some (e.tenantId, e.ingestionId)

/-- The entries the group has not read yet. -/
def Pipeline.unread (p : Pipeline) : List (String × StreamFields) :=
  p.group.entries.drop p.group.delivered

/-- The sequences by their places: unread, waiting, given up, among the dead letters, analyzed. -/
def Pipeline.sequences (p : Pipeline) : List (Option (Uuid × Uuid)) :=
  p.unread.map (fun entry => entry.2.name) ++ p.group.tasks.map (fun entry => entry.2.name) ++
    p.givenUp.map (fun entry => entry.2.name) ++ p.system.analyzer.dlq.map StreamFields.name ++
    p.system.analyzer.evidences.map Evidence.name

/-- The evidences that wait, that an aggregation has dropped, and that decisions link. -/
def Pipeline.aggregations (p : Pipeline) : List String :=
  p.system.analyzer.aggregateEvidence ++ p.dropped ++
    p.system.world.db.decisionEvidences.map fun l => l.evidenceId.str

/-- Every accepted sequence is in one place, and every evidence of the analyzer is in one place. -/
structure Pipeline.Conserved (p : Pipeline) : Prop where
  sequences : (p.system.stream.map IngestEvent.name).Perm p.sequences
  evidences : (p.system.analyzer.evidences.map fun e => e.id.str).Perm p.aggregations
  names : (p.system.stream.map IngestEvent.name).Nodup
  ids : (p.system.analyzer.evidences.map Evidence.id).Nodup

/-- Nothing has been accepted yet; there may be a configuration and active modes. -/
structure Pipeline.Initial (p : Pipeline) : Prop where
  stream : p.system.stream = []
  group : p.group = ⟨[], 0, [], []⟩
  analyzer : p.system.analyzer = ⟨[], [], [], []⟩
  links : p.system.world.db.decisionEvidences = []
  givenUp : p.givenUp = []
  dropped : p.dropped = []

end ArgusServices

import ArgusServices.AggregateEffect
import ArgusServices.Threads
import ArgusServices.Transition
import Mathlib.Data.Fintype.Basic

namespace ArgusServices

open Transition

/-- What a call of `aggregate` holds from its look at the link table to its end: the row as it
read or inserted it, and whether it adds a link. -/
structure Txn where
  evidence : Evidence
  tenant : Tenant
  base : Decision
  created : Bool
  newLink : Bool
  deriving DecidableEq, Repr

/-- The row in the session after `_link_evidence`. -/
def Txn.held (txn : Txn) (call : AggregateCall) : Decision :=
  if txn.newLink then { txn.base.addEvidence txn.evidence with updatedAt := call.now }
  else txn.base

/-- The row in the session after `_apply_state_transitions`. -/
def Txn.row (txn : Txn) (call : AggregateCall) : Decision :=
  afterState call txn.tenant (txn.held call)

def Txn.links (txn : Txn) : List DecisionEvidence :=
  if txn.newLink then [linkRow txn.base txn.evidence] else []

/-- A column the session did not change keeps the value the row has by now. -/
def keepColumn {α : Type} [DecidableEq α] (base work current : α) : α :=
  if work = base then current else work

/-- The UPDATE of a row that was read as `base`: it sets the changed columns and the stamp. -/
def Decision.rebase (base work current : Decision) : Decision :=
  if work = base then current
  else
    { id := current.id
      tenantId := keepColumn base.tenantId work.tenantId current.tenantId
      cameraId := keepColumn base.cameraId work.cameraId current.cameraId
      regionId := keepColumn base.regionId work.regionId current.regionId
      state := keepColumn base.state work.state current.state
      cumulativeSeverity :=
        keepColumn base.cumulativeSeverity work.cumulativeSeverity current.cumulativeSeverity
      evidenceCount := keepColumn base.evidenceCount work.evidenceCount current.evidenceCount
      windowStart := keepColumn base.windowStart work.windowStart current.windowStart
      windowEnd := keepColumn base.windowEnd work.windowEnd current.windowEnd
      firstEvidenceAt :=
        keepColumn base.firstEvidenceAt work.firstEvidenceAt current.firstEvidenceAt
      lastEvidenceAt := keepColumn base.lastEvidenceAt work.lastEvidenceAt current.lastEvidenceAt
      resolvedAt := keepColumn base.resolvedAt work.resolvedAt current.resolvedAt
      resolvedBy := keepColumn base.resolvedBy work.resolvedBy current.resolvedBy
      updatedAt := work.updatedAt }

/-- The row the commit leaves: an inserted one as it is, a read one over what it is by now. -/
def Txn.written (txn : Txn) (call : AggregateCall) (db : Db) : Decision :=
  match db.decisions.find txn.base.id with
  | some current => txn.base.rebase (txn.row call) current
  | none => txn.row call

def Txn.commit (txn : Txn) (call : AggregateCall) (db : Db) : Db :=
  { db with
    decisions := db.decisions.put (txn.written call db)
    decisionEvidences := db.decisionEvidences ++ txn.links
    auditRecords := db.auditRecords ++ newAudits txn.tenant (txn.held call) }

/-- A message of `_emit_state_change`, sent while the transaction is open. -/
inductive Message
  | event (e : Event)
  | task (decisionId : Uuid)
  deriving DecidableEq, Repr

def Txn.messages (txn : Txn) (call : AggregateCall) : List Message :=
  (newEvents txn.tenant (txn.held call)).map .event ++
    (newTasks txn.tenant (txn.held call)).map .task

def World.withKey (w : World) (key : String) (entry : Option RedisEntry) : World :=
  { w with keys := Function.update w.keys key entry }

def World.send (w : World) : Message → World
  | .event e => { w with published := w.published ++ [e] }
  | .task id => { w with notifyWarning := w.notifyWarning ++ [id] }

/-- The points of a call of `aggregate` between its waits. -/
inductive AggregatePhase
  | begun
  | loaded (evidence : Evidence) (tenant : Tenant)
  | keyRead (evidence : Evidence) (tenant : Tenant) (raw : String)
  | rowRead (evidence : Evidence) (tenant : Tenant) (decision : Decision)
  | windowPassed (evidence : Evidence) (tenant : Tenant)
  | creating (evidence : Evidence) (tenant : Tenant)
  | inserted (evidence : Evidence) (tenant : Tenant)
  | keySet (evidence : Evidence) (tenant : Tenant)
  | linked (txn : Txn)
  | flushed (txn : Txn) (unsent : List Message)
  | committed (txn : Txn)
  | failed
  deriving DecidableEq, Repr

def AggregatePhase.ended : AggregatePhase → Bool
  | .committed _ | .failed => true
  | _ => false

/-- What a call does when it is its turn, up to its next wait. Rows it reads are committed ones. -/
def AggregateCall.advance (call : AggregateCall) (w : World) :
    AggregatePhase → World × AggregatePhase
  | .begun =>
    match w.db.evidences.find call.evidenceId with
    | none => (w, .failed)
    | some evidence =>
      match w.db.tenants.find evidence.tenantId with
      | none => (w, .failed)
      | some tenant => (w, .loaded evidence tenant)
  | .loaded evidence tenant =>
    match truthy ((w.keys (openDecisionKey evidence)).map RedisEntry.value) with
    | none => (w, .creating evidence tenant)
    | some raw => (w, .keyRead evidence tenant raw)
  | .keyRead evidence tenant raw =>
    match Uuid.parse raw with
    | none => (w, .failed)
    | some id =>
      match (w.db.decisions.find id).filter fun d => d.tenantId = evidence.tenantId with
      | none => (w, .creating evidence tenant)
      | some decision =>
        if evidence.capturedAt ≤ decision.windowEnd then (w, .rowRead evidence tenant decision)
        else (w, .windowPassed evidence tenant)
  | .rowRead evidence tenant decision =>
    (w, .linked ⟨evidence, tenant, decision, false, !w.db.linked decision.id evidence.id⟩)
  | .windowPassed evidence tenant =>
    (w.withKey (openDecisionKey evidence) none, .creating evidence tenant)
  | .creating evidence tenant =>
    if (w.db.decisions.find call.newId).isSome then (w, .failed)
    else (w, .inserted evidence tenant)
  | .inserted evidence tenant =>
    if tenant.aggregationWindowSecs + 300 ≤ 0 then (w, .failed)
    else
      (w.withKey (openDecisionKey evidence)
        (some ⟨call.newId.str, some (tenant.aggregationWindowSecs + 300)⟩),
        .keySet evidence tenant)
  | .keySet evidence tenant =>
    (w, .linked ⟨evidence, tenant, newDecision call evidence tenant, true,
      !w.db.linked call.newId evidence.id⟩)
  | .linked txn =>
    if txn.newLink && w.db.linked txn.base.id txn.evidence.id then (w, .failed)
    else (w, .flushed txn (txn.messages call))
  | .flushed txn (m :: unsent) => (w.send m, .flushed txn unsent)
  | .flushed txn [] => ({ w with db := txn.commit call w.db }, .committed txn)
  | .committed txn => (w, .committed txn)
  | .failed => (w, .failed)

/-- The decision whose uncommitted row a call has inserted. -/
def AggregatePhase.insertedRow (call : AggregateCall) : AggregatePhase → Option Uuid
  | .inserted _ _ | .keySet _ _ => some call.newId
  | .linked txn | .flushed txn _ => if txn.created then some txn.base.id else none
  | _ => none

/-- The decision whose row an open UPDATE of a call locks. -/
def AggregatePhase.lockedRow (call : AggregateCall) : AggregatePhase → Option Uuid
  | .flushed txn _ => if txn.created || txn.row call = txn.base then none else some txn.base.id
  | _ => none

/-- A call waits where it would write what the other has written and not yet committed. -/
def AggregatePhase.waitsFor (call : AggregateCall) (p : AggregatePhase) (other : AggregateCall)
    (q : AggregatePhase) : Bool :=
  match p with
  | .creating _ _ => q.insertedRow other = some call.newId
  | .linked txn =>
    (q.lockedRow other).any fun id => (AggregatePhase.flushed txn []).lockedRow call = some id
  | _ => false

def Blocked {ι : Type} (calls : ι → AggregateCall) (s : Threads ι World AggregatePhase)
    (i : ι) : Prop :=
  ∃ j, j ≠ i ∧ (s.phase i).waitsFor (calls i) (calls j) (s.phase j) = true

instance {ι : Type} [Fintype ι] [DecidableEq ι] (calls : ι → AggregateCall)
    (s : Threads ι World AggregatePhase) (i : ι) : Decidable (Blocked calls s i) :=
  inferInstanceAs (Decidable (∃ j, j ≠ i ∧ _ = true))

inductive Turn (ι : Type)
  | advance (i : ι)
  | raise (i : ι)
  | expireKey (key : String)

/-- The interleaved calls: one of them advances, one raises, or a key expires. -/
inductive Interleaved {ι : Type} [DecidableEq ι] (calls : ι → AggregateCall) :
    Threads ι World AggregatePhase → Turn ι → Threads ι World AggregatePhase → Prop
  | advance {s : Threads ι World AggregatePhase} {i : ι} : (s.phase i).ended = false →
      ¬Blocked calls s i → Interleaved calls s (.advance i)
        (s.move i ((calls i).advance s.shared (s.phase i)))
  | raise {s : Threads ι World AggregatePhase} {i : ι} : (s.phase i).ended = false →
      Interleaved calls s (.raise i) (s.move i (s.shared, .failed))
  | expireKey {s : Threads ι World AggregatePhase} {key : String} :
      Interleaved calls s (.expireKey key) ⟨s.shared.withKey key none, s.phase⟩

/-- The calls take turns in a given order. -/
def takeTurns {ι : Type} [DecidableEq ι] (calls : ι → AggregateCall) :
    Threads ι World AggregatePhase → List ι → Threads ι World AggregatePhase
  | s, [] => s
  | s, i :: is => takeTurns calls (s.move i ((calls i).advance s.shared (s.phase i))) is

def canTakeTurns {ι : Type} [Fintype ι] [DecidableEq ι] (calls : ι → AggregateCall) :
    Threads ι World AggregatePhase → List ι → Bool
  | _, [] => true
  | s, i :: is => !(s.phase i).ended && !decide (Blocked calls s i) &&
      canTakeTurns calls (s.move i ((calls i).advance s.shared (s.phase i))) is

theorem run_takeTurns {ι : Type} [Fintype ι] [DecidableEq ι] {calls : ι → AggregateCall}
    {s : Threads ι World AggregatePhase} {is : List ι} (h : canTakeTurns calls s is = true) :
    Run (Interleaved calls) s (is.map .advance) (takeTurns calls s is) := by
  induction is generalizing s with
  | nil => exact .nil s
  | cons i is ih =>
    simp only [canTakeTurns, Bool.and_eq_true, Bool.not_eq_true', decide_eq_false_iff_not] at h
    obtain ⟨⟨hrun, hfree⟩, hrest⟩ := h
    exact .cons (.advance hrun hfree) (ih hrest)

/-- The turns meet a guard. -/
def meetsTurns {ι : Type} [DecidableEq ι] (calls : ι → AggregateCall)
    (guard : Threads ι World AggregatePhase → Turn ι → Prop) [∀ s l, Decidable (guard s l)] :
    Threads ι World AggregatePhase → List ι → Bool
  | _, [] => true
  | s, i :: is => decide (guard s (.advance i)) &&
      meetsTurns calls guard (s.move i ((calls i).advance s.shared (s.phase i))) is

theorem run_takeTurns_where {ι : Type} [Fintype ι] [DecidableEq ι] {calls : ι → AggregateCall}
    {guard : Threads ι World AggregatePhase → Turn ι → Prop} [∀ s l, Decidable (guard s l)]
    {s : Threads ι World AggregatePhase} {is : List ι} (h : canTakeTurns calls s is = true)
    (hg : meetsTurns calls guard s is = true) :
    Run (Where guard (Interleaved calls)) s (is.map .advance) (takeTurns calls s is) := by
  induction is generalizing s with
  | nil => exact .nil s
  | cons i is ih =>
    simp only [canTakeTurns, Bool.and_eq_true, Bool.not_eq_true', decide_eq_false_iff_not] at h
    simp only [meetsTurns, Bool.and_eq_true, decide_eq_true_eq] at hg
    obtain ⟨⟨hrun, hfree⟩, hrest⟩ := h
    exact .cons ⟨hg.1, .advance hrun hfree⟩ (ih hrest hg.2)

end ArgusServices

import ArgusServices.Ingestion
import ArgusServices.Transition

namespace ArgusServices

open Transition

/-- A call that has claimed the key and can still put its event on the stream. -/
def IngestPhase.working : IngestPhase → Bool
  | .claimed | .modeChecked | .uploaded _ => true
  | _ => false

def IngestPhase.answered (status : IngestStatus) : IngestPhase → Bool
  | .returned response => response.status = status
  | _ => false

/-- All the step of an unfinished call can do; `lost` is when an appended event may go with a
raised XADD. -/
inductive Ingests (call : IngestCall) (lost : Prop) (w : IngestStore) :
    IngestPhase → IngestStore → IngestPhase → Prop
  | claim : w.keys call.key = none → Ingests call lost w .begun (call.claim w) .claimed
  | claimLost {e : Exn} : Ingests call lost w .begun (call.claim w) (.raised e)
  | duplicate : w.keys call.key ≠ none →
      Ingests call lost w .begun w (call.respond .duplicate)
  | check : Ingests call lost w .claimed w .modeChecked
  | upload {frameUris : List String} : Ingests call lost w .modeChecked w (.uploaded frameUris)
  | stop {p : IngestPhase} {e : Exn} : p.working = true → Ingests call lost w p w (.cleaning e)
  | enqueue {frameUris : List String} : Ingests call lost w (.uploaded frameUris)
      (call.enqueue w frameUris) (call.respond .queued)
  | enqueueLost {frameUris : List String} {e : Exn} : lost →
      Ingests call lost w (.uploaded frameUris) (call.enqueue w frameUris) (.cleaning e)
  | cleanup {e e' : Exn} : Ingests call lost w (.cleaning e) (call.release w) (.raised e')
  | drop {p : IngestPhase} {e : Exn} : p.ended = false → Ingests call lost w p w (.raised e)

theorem Ingests.mono {call : IngestCall} {lost lost' : Prop} {w w' : IngestStore}
    {p p' : IngestPhase} (h : Ingests call lost w p w' p') (hl : lost → lost') :
    Ingests call lost' w p w' p' := by
  cases h with
  | claim h => exact .claim h
  | claimLost => exact .claimLost
  | duplicate h => exact .duplicate h
  | check => exact .check
  | upload => exact .upload
  | stop h => exact .stop h
  | enqueue => exact .enqueue
  | enqueueLost h => exact .enqueueLost (hl h)
  | cleanup => exact .cleanup
  | drop h => exact .drop h

theorem advance_ingests (call : IngestCall) (w : IngestStore) {p : IngestPhase}
    (hp : p.ended = false) :
    Ingests call False w p (call.advance w p).1 (call.advance w p).2 := by
  cases p with
  | begun =>
    simp only [IngestCall.advance]
    split
    · split
      next h => exact .claim h
      next h => exact .duplicate (by simp [h])
    · exact .drop rfl
  | claimed =>
    simp only [IngestCall.advance]
    split
    · exact .check
    · exact .stop rfl
  | modeChecked =>
    simp only [IngestCall.advance]
    split
    · exact .upload
    · exact .stop rfl
  | uploaded frameUris => exact .enqueue
  | cleaning cause => exact .cleanup
  | returned response => cases hp
  | raised cause => cases hp

theorem fail_ingests (call : IngestCall) (executed : Bool) (w : IngestStore) {p : IngestPhase}
    (hp : p.ended = false) :
    Ingests call (executed = true ∧ ∃ frameUris, p = .uploaded frameUris) w p
      (call.fail executed w p).1 (call.fail executed w p).2 := by
  cases p with
  | begun =>
    simp only [IngestCall.fail]
    split
    · exact .claimLost
    · exact .drop rfl
  | claimed => exact .stop rfl
  | modeChecked => exact .stop rfl
  | uploaded frameUris =>
    simp only [IngestCall.fail]
    split
    next h => exact .enqueueLost ⟨h, frameUris, rfl⟩
    next => exact .stop rfl
  | cleaning cause =>
    simp only [IngestCall.fail]
    split
    · exact .cleanup
    · exact .drop rfl
  | returned response => cases hp
  | raised cause => cases hp

/-- The requests for one sequence of a tenant. -/
def IngestCall.isFor (call : IngestCall) (tenantId ingestionId : Uuid) : Prop :=
  call.request.tenantId = tenantId ∧ call.request.ingestionId = ingestionId

instance (call : IngestCall) (tenantId ingestionId : Uuid) :
    Decidable (call.isFor tenantId ingestionId) :=
  inferInstanceAs (Decidable (_ ∧ _))

/-- The events of one sequence on the stream. -/
def IngestStore.events (w : IngestStore) (tenantId ingestionId : Uuid) : List IngestEvent :=
  w.stream.filter fun e => e.tenantId = tenantId.str && e.ingestionId = ingestionId.str

variable {tenantId ingestionId : Uuid} {call : IngestCall} {lost : Prop} {w w' : IngestStore}
  {p p' : IngestPhase}

theorem IngestCall.isFor.key (h : call.isFor tenantId ingestionId) :
    call.key = idempotencyKey tenantId ingestionId := by
  rw [IngestCall.key, h.1, h.2]

theorem key_ne_of_not_isFor (h : ¬call.isFor tenantId ingestionId) :
    idempotencyKey tenantId ingestionId ≠ call.key := by
  intro heq
  obtain ⟨ht, hi⟩ := idempotencyKey_injective heq
  exact h ⟨ht.symm, hi.symm⟩

theorem claim_keys_self : (call.claim w).keys call.key ≠ none := by
  unfold IngestCall.claim
  split
  next => simp
  next entry h => simp [h]

theorem claim_keys_of_ne {key : String} (h : key ≠ call.key) :
    (call.claim w).keys key = w.keys key := by
  unfold IngestCall.claim
  split
  · simp [h]
  · rfl

theorem claim_stream : (call.claim w).stream = w.stream := by
  unfold IngestCall.claim
  split <;> rfl

theorem claim_events : (call.claim w).events tenantId ingestionId =
    w.events tenantId ingestionId := by
  simp only [IngestStore.events, claim_stream]

theorem enqueue_events (h : call.isFor tenantId ingestionId) (frameUris : List String) :
    (call.enqueue w frameUris).events tenantId ingestionId =
      w.events tenantId ingestionId ++ [ingestEvent call.request frameUris] := by
  simp [IngestStore.events, IngestCall.enqueue, ingestEvent, h.1, h.2]

theorem enqueue_events_of_not_isFor (h : ¬call.isFor tenantId ingestionId)
    (frameUris : List String) :
    (call.enqueue w frameUris).events tenantId ingestionId = w.events tenantId ingestionId := by
  simp only [IngestStore.events, IngestCall.enqueue, List.filter_append, ingestEvent]
  have hne : ¬(call.request.tenantId.str = tenantId.str ∧
      call.request.ingestionId.str = ingestionId.str) := by
    intro hboth
    obtain ⟨ht, hi⟩ := hboth
    exact h ⟨Uuid.str_injective ht, Uuid.str_injective hi⟩
  simpa using hne

/-- A call for another sequence leaves the key and the events of this one alone. -/
theorem Ingests.frame (h : Ingests call lost w p w' p')
    (hfor : ¬call.isFor tenantId ingestionId) :
    w'.keys (idempotencyKey tenantId ingestionId) = w.keys (idempotencyKey tenantId ingestionId) ∧
      w'.events tenantId ingestionId = w.events tenantId ingestionId := by
  have hkey := key_ne_of_not_isFor hfor
  cases h with
  | claim _ => exact ⟨claim_keys_of_ne hkey, claim_events⟩
  | claimLost => exact ⟨claim_keys_of_ne hkey, claim_events⟩
  | enqueue => exact ⟨rfl, enqueue_events_of_not_isFor hfor _⟩
  | enqueueLost _ => exact ⟨rfl, enqueue_events_of_not_isFor hfor _⟩
  | cleanup => exact ⟨by simp [IngestCall.release, hkey], rfl⟩
  | _ => exact ⟨rfl, rfl⟩

variable {ι : Type} [DecidableEq ι] {calls : ι → IngestCall}

/-- The state after a turn, were it possible. -/
def takeIngestTurn (calls : ι → IngestCall) (s : Threads ι IngestStore IngestPhase) :
    IngestTurn ι → Threads ι IngestStore IngestPhase
  | .advance i => s.move i ((calls i).advance s.shared (s.phase i))
  | .raise i executed => s.move i ((calls i).fail executed s.shared (s.phase i))
  | .cancel i => s.move i (s.shared, .raised .outage)
  | .setActiveMode cameraId mode =>
    ⟨{ s.shared with keys := Function.update s.shared.keys (activeModeKey cameraId) mode }, s.phase⟩

def canTakeIngestTurn (s : Threads ι IngestStore IngestPhase) : IngestTurn ι → Bool
  | .advance i | .raise i _ | .cancel i => !(s.phase i).ended
  | .setActiveMode _ _ => true

def canTakeIngestTurns (calls : ι → IngestCall) :
    Threads ι IngestStore IngestPhase → List (IngestTurn ι) → Bool
  | _, [] => true
  | s, l :: ls => canTakeIngestTurn s l && canTakeIngestTurns calls (takeIngestTurn calls s l) ls

theorem ingesting_takeIngestTurn {s : Threads ι IngestStore IngestPhase} {l : IngestTurn ι}
    (h : canTakeIngestTurn s l = true) : Ingesting calls s l (takeIngestTurn calls s l) := by
  cases l with
  | advance i => exact .advance (by simpa [canTakeIngestTurn] using h)
  | raise i executed => exact .raise (by simpa [canTakeIngestTurn] using h)
  | cancel i => exact .cancel (by simpa [canTakeIngestTurn] using h)
  | setActiveMode cameraId mode => exact .setActiveMode

theorem run_takeIngestTurns {s : Threads ι IngestStore IngestPhase} {ls : List (IngestTurn ι)}
    (h : canTakeIngestTurns calls s ls = true) :
    Run (Ingesting calls) s ls (ls.foldl (takeIngestTurn calls) s) := by
  induction ls generalizing s with
  | nil => exact .nil s
  | cons l ls ih =>
    simp only [canTakeIngestTurns, Bool.and_eq_true] at h
    exact .cons (ingesting_takeIngestTurn h.1) (ih h.2)

/-- A request of a camera whose active mode is set. -/
def sampleIngestCall : IngestCall where
  auth := ⟨⟨1⟩, ⟨2⟩⟩
  request := {
    ingestionId := ⟨11⟩
    tenantId := ⟨1⟩
    cameraId := ⟨2⟩
    capturedAt := 0
    contextModeId := ⟨5⟩
    regionId := none
    edgeTriggerMetadata := none
    frames := [⟨0, "QUJD"⟩] }
  bucket := "frames"
  now := 7

def sampleIngestStart : Threads Bool IngestStore IngestPhase :=
  ⟨⟨Function.update (fun _ => none) (activeModeKey ⟨2⟩) (some ⟨Uuid.str ⟨5⟩, none⟩), []⟩,
    fun _ => .begun⟩

end ArgusServices

import ArgusServices.IngestRun
import ArgusServices.RedisClock
import ArgusServices.SchedulerEffect

namespace ArgusServices

open Effect Transition

/-- A pass of the scheduler: what its queries return, and when. -/
structure SchedulerPass where
  rows : SchedulerRows
  now : Int
  deriving DecidableEq, Repr

/-- The shared keys and the stream, with the passes there have been, the latest first. -/
structure Intake where
  keys : ExpiringKeys String String
  stream : List IngestEvent
  passes : List SchedulerPass
  now : Int

inductive IntakeEvent
  | pass (pass : SchedulerPass)
  | request (call : IngestCall) (replies : List Reply)

def Intake.schedule (lib : ZoneLibrary) (s : Intake) (pass : SchedulerPass) : Intake :=
  { s with
    keys := passKeys lib pass.rows pass.now s.keys
    passes := pass :: s.passes
    now := pass.now }

def Intake.store (s : Intake) (now : Int) : IngestStore :=
  ⟨liveKeys s.keys now, s.stream⟩

def Intake.accept (s : Intake) (call : IngestCall) (replies : List Reply) : Intake :=
  let w := (call.run replies (s.store call.now, .begun)).1
  { s with
    keys := afterCall s.keys w.keys call.now
    stream := w.stream
    now := call.now }

/-- Passes and requests one after the other, at instants that do not go back. -/
inductive Serving (lib : ZoneLibrary) : Intake → IntakeEvent → Intake → Prop
  | pass {s : Intake} {pass : SchedulerPass} : s.now ≤ pass.now → pass.rows.Constrained →
      Serving lib s (.pass pass) (s.schedule lib pass)
  | request {s : Intake} {call : IngestCall} {replies : List Reply} : s.now ≤ call.now →
      Serving lib s (.request call replies) (s.accept call replies)

/-- The mode assigned to the camera is in one of its schedules for the market of the camera. -/
def SchedulerPass.Inside (lib : ZoneLibrary) (pass : SchedulerPass) (cameraId : Uuid) : Prop :=
  ∃ a ∈ pass.rows.assignments, a.cameraId = cameraId ∧ ∃ s ∈ pass.rows.schedules,
    lib.inside pass.rows pass.now s = true ∧ pass.rows.applies s a = true

instance (lib : ZoneLibrary) (pass : SchedulerPass) (cameraId : Uuid) :
    Decidable (pass.Inside lib cameraId) :=
  inferInstanceAs (Decidable (∃ a ∈ pass.rows.assignments, a.cameraId = cameraId ∧
    ∃ s ∈ pass.rows.schedules,
      lib.inside pass.rows pass.now s = true ∧ pass.rows.applies s a = true))

/-- The latest pass finds the camera inside. -/
def Intake.Inside (lib : ZoneLibrary) (s : Intake) (cameraId : Uuid) : Prop :=
  ∃ pass ∈ s.passes.head?, pass.Inside lib cameraId

instance (lib : ZoneLibrary) (s : Intake) (cameraId : Uuid) : Decidable (s.Inside lib cameraId) :=
  inferInstanceAs (Decidable (∃ pass ∈ s.passes.head?, pass.Inside lib cameraId))

/-- A request is queued only while the latest pass finds its camera inside. -/
def QueuedInside (lib : ZoneLibrary) (s : Intake) (event : IntakeEvent) (s' : Intake) : Prop :=
  match event with
  | .pass _ => True
  | .request call _ => s'.stream ≠ s.stream → s.Inside lib call.request.cameraId

/-- The mode a pass has set for the camera, and when. -/
def SchedulerPass.activation (lib : ZoneLibrary) (pass : SchedulerPass) (cameraId : Uuid) :
    Option (Uuid × Int) :=
  ((lib.activated pass.rows pass.now).find? fun a => a.cameraId = cameraId).map fun a =>
    (a.contextModeId, pass.now)

/-- The last time a pass has activated the camera. -/
def Intake.lastActivation (lib : ZoneLibrary) (s : Intake) (cameraId : Uuid) :
    Option (Uuid × Int) :=
  s.passes.findSome? fun pass => pass.activation lib cameraId

/-- A mode whose window the latest pass has found over, set less than a day ago. -/
def Intake.Lingers (lib : ZoneLibrary) (s : Intake) (cameraId contextModeId : Uuid) (now : Int) :
    Prop :=
  ¬s.Inside lib cameraId ∧ ∃ last ∈ s.lastActivation lib cameraId,
    last.1 = contextModeId ∧ now < last.2 + seconds activeModeTtlSecs

/-- Nothing but the active mode can keep the request from the stream. -/
def Intake.Sound (s : Intake) (call : IngestCall) (replies : List Reply) : Prop :=
  validateClaims call = true ∧ s.keys.get call.now call.key = none ∧
    (uploadFrames call).isOk = true ∧ goesThrough 3 replies = true

/-- No request comes for a mode that lingers. -/
def NoneLingers (lib : ZoneLibrary) (s : Intake) : IntakeEvent → Prop
  | .pass _ => True
  | .request call replies => s.Sound call replies →
      ¬s.Lingers lib call.request.cameraId call.request.contextModeId call.now

/-- The active-mode keys are what the last activations have left. -/
def Followed (lib : ZoneLibrary) (s : Intake) : Prop :=
  ∀ cameraId later, s.now ≤ later → s.keys.get later (activeModeKey cameraId) =
    ((s.lastActivation lib cameraId).filter fun last =>
      later < last.2 + seconds activeModeTtlSecs).map fun last => last.1.str

variable {lib : ZoneLibrary} {s s' : Intake} {pass : SchedulerPass} {call : IngestCall}
  {replies : List Reply} {cameraId : Uuid} {event : IntakeEvent}

theorem SchedulerPass.passKeys_entry (pass : SchedulerPass) (lib : ZoneLibrary)
    (hrows : pass.rows.Constrained) (keys : ExpiringKeys String String) (cameraId : Uuid) :
    (passKeys lib pass.rows pass.now keys).entry (activeModeKey cameraId) =
      match pass.activation lib cameraId with
      | some (mode, setAt) => some (mode.str, setAt + seconds activeModeTtlSecs)
      | none => keys.entry (activeModeKey cameraId) := by
  unfold SchedulerPass.activation
  cases hfind : (lib.activated pass.rows pass.now).find? fun a => a.cameraId = cameraId with
  | some a =>
    have hid := List.find?_some hfind
    simp only [decide_eq_true_eq] at hid
    rw [← hid, passKeys_activated hrows (List.mem_of_find?_eq_some hfind)]
    rfl
  | none =>
    rw [passKeys_other hrows]
    · rfl
    · intro a ha hkey
      have hne := List.find?_eq_none.mp hfind a ha
      simp only [decide_eq_true_eq] at hne
      exact hne (activeModeKey_injective hkey)

theorem Followed.schedule (hs : Followed lib s) (hnow : s.now ≤ pass.now)
    (hrows : pass.rows.Constrained) : Followed lib (s.schedule lib pass) := by
  intro cameraId later hlater
  have hentry := pass.passKeys_entry lib hrows s.keys cameraId
  have hlast : (s.schedule lib pass).lastActivation lib cameraId =
      (pass.activation lib cameraId).or (s.lastActivation lib cameraId) := by
    simp only [Intake.lastActivation, Intake.schedule, List.findSome?_cons]
    cases pass.activation lib cameraId <;> rfl
  have hget : (s.schedule lib pass).keys.get later (activeModeKey cameraId) =
      (passKeys lib pass.rows pass.now s.keys).get later (activeModeKey cameraId) := rfl
  rw [hlast, hget]
  cases hactivation : pass.activation lib cameraId with
  | none =>
    simp only [hactivation] at hentry
    have hsame : (passKeys lib pass.rows pass.now s.keys).get later (activeModeKey cameraId) =
        s.keys.get later (activeModeKey cameraId) := by
      simp only [ExpiringKeys.get, hentry]
    rw [hsame]
    exact hs cameraId later (Int.le_trans hnow hlater)
  | some last =>
    obtain ⟨mode, setAt⟩ := last
    simp only [hactivation] at hentry
    simp only [ExpiringKeys.get, hentry, Option.some_or]
    by_cases hlive : later < setAt + seconds activeModeTtlSecs
    · simp [Option.filter_some, hlive]
    · simp [Option.filter_some, hlive]

theorem accept_keys (s : Intake) (replies : List Reply)
    (hne : activeModeKey cameraId ≠ call.key) :
    (call.run replies (s.store call.now, .begun)).1.keys (activeModeKey cameraId) =
      liveKeys s.keys call.now (activeModeKey cameraId) :=
  run_keys_of_ne hne _

theorem Followed.accept (hs : Followed lib s) (hnow : s.now ≤ call.now) :
    Followed lib (s.accept call replies) := by
  intro cameraId later hlater
  have hne : activeModeKey cameraId ≠ call.key := (idempotencyKey_ne_activeModeKey _ _ _).symm
  have hget := get_afterCall (accept_keys s replies hne) hlater
  have hlast : (s.accept call replies).lastActivation lib cameraId =
      s.lastActivation lib cameraId := rfl
  rw [hlast, ← hs cameraId later (Int.le_trans hnow hlater)]
  exact hget

theorem Followed.step (hs : Followed lib s) (h : Serving lib s event s') : Followed lib s' := by
  cases h with
  | pass hnow hrows => exact hs.schedule hnow hrows
  | request hnow => exact hs.accept hnow

/-- The mode check passes exactly for the mode last activated, for a day. -/
theorem Followed.validateActiveMode_isOk (hs : Followed lib s) (hnow : s.now ≤ call.now) :
    (validateActiveMode (s.store call.now) call.request).isOk = true ↔
      ∃ last ∈ s.lastActivation lib call.request.cameraId,
        last.1 = call.request.contextModeId ∧
          call.now < last.2 + seconds activeModeTtlSecs := by
  have hget := hs call.request.cameraId call.now hnow
  cases hlast : (s.lastActivation lib call.request.cameraId).filter fun last =>
      call.now < last.2 + seconds activeModeTtlSecs with
  | none =>
    rw [hlast] at hget
    have hnone : ¬∃ last ∈ s.lastActivation lib call.request.cameraId,
        last.1 = call.request.contextModeId ∧
          call.now < last.2 + seconds activeModeTtlSecs := by
      intro h
      obtain ⟨last, hmem, -, hlt⟩ := h
      have hkept := Option.filter_eq_none_iff.mp hlast last hmem
      simp only [decide_eq_true_eq] at hkept
      exact hkept hlt
    simp only [hnone, iff_false]
    simp [validateActiveMode, Intake.store, liveKeys, hget, truthy, Except.isOk, Except.toBool]
  | some last =>
    rw [hlast] at hget
    obtain ⟨hmem, hlt⟩ := Option.filter_eq_some_iff.mp hlast
    simp only [decide_eq_true_eq] at hlt
    have hchecked : validateActiveMode (s.store call.now) call.request =
        if last.1 ≠ call.request.contextModeId then
          .error (.httpException 400 "context_mode_id does not match active mode for camera")
        else .ok () := by
      simp [validateActiveMode, Intake.store, liveKeys, hget, truthy_some (Uuid.str_ne_empty _),
        Uuid.parse_str]
    rw [hchecked]
    by_cases hmode : last.1 = call.request.contextModeId
    · simp [hmode, Except.isOk, Except.toBool, hmem, hlt]
    · simp [hmode, Except.isOk, Except.toBool, hmem]

theorem Followed.queued_iff (hs : Followed lib s) (hnow : s.now ≤ call.now) :
    (s.accept call replies).stream ≠ s.stream ↔ s.Sound call replies ∧
      ∃ last ∈ s.lastActivation lib call.request.cameraId,
        last.1 = call.request.contextModeId ∧
          call.now < last.2 + seconds activeModeTtlSecs := by
  have hkey : (s.store call.now).keys call.key = none ↔ s.keys.get call.now call.key = none := by
    simp [Intake.store, liveKeys]
  have hrun := run_begun call (s.store call.now) replies
  rw [hs.validateActiveMode_isOk hnow, hkey] at hrun
  unfold Intake.Sound
  constructor
  · intro h
    obtain ⟨hreplies, hupload, hlast, hclaims, hfree⟩ := hrun.mp h
    exact ⟨⟨hclaims, hfree, hupload, hreplies⟩, hlast⟩
  · intro h
    obtain ⟨⟨hclaims, hfree, hupload, hreplies⟩, hlast⟩ := h
    exact hrun.mpr ⟨hreplies, hupload, hlast, hclaims, hfree⟩

theorem Followed.queuedInside_iff (hs : Followed lib s) (h : Serving lib s event s') :
    QueuedInside lib s event s' ↔ NoneLingers lib s event := by
  cases h with
  | pass => exact Iff.rfl
  | @request call replies hnow =>
    simp only [QueuedInside, NoneLingers, Intake.Lingers, hs.queued_iff hnow]
    constructor
    · intro h hsound hlingers
      exact hlingers.1 (h ⟨hsound, hlingers.2⟩)
    · intro h hqueued
      by_contra hinside
      exact h hqueued.1 ⟨hinside, hqueued.2⟩

/-- The runs in which requests are queued only inside a schedule are those in which no request
comes for a mode whose window is over while its key still lives. -/
theorem queuedInside_iff_noneLingers {events : List IntakeEvent} (hpasses : s.passes = [])
    (hkeys : ∀ cameraId, s.keys.entry (activeModeKey cameraId) = none) :
    Run (Such (QueuedInside lib) (Serving lib)) s events s' ↔
      Run (Where (NoneLingers lib) (Serving lib)) s events s' := by
  have hstart : Followed lib s := by
    intro cameraId later _
    simp [ExpiringKeys.get, hkeys, Intake.lastActivation, hpasses]
  refine Run.such_iff_where (I := Followed lib) ?_ ?_ hstart
  · intro s event s' hs h
    exact hs.step h
  · intro s event s' hs h
    exact hs.queuedInside_iff h

def sampleIntake : Intake :=
  ⟨.empty, [], [], 0⟩

/-- A pass over the sample rows at an hour of the first Thursday. -/
def passAt (hour : Int) : IntakeEvent :=
  .pass ⟨sampleRows, seconds (hour * 3600)⟩

def callAt (hour : Int) : IngestCall :=
  { sampleIngestCall with
    request := { sampleIngestCall.request with contextModeId := ⟨4⟩ }
    now := seconds (hour * 3600) }

def requestAt (hour : Int) : IntakeEvent :=
  .request (callAt hour) [.done, .done, .done, .done]

def Intake.after (s : Intake) : IntakeEvent → Intake
  | .pass pass => s.schedule sampleZones pass
  | .request call replies => s.accept call replies

/-- The sample schedule ends at eighteen hours. -/
def lateEvents : List IntakeEvent :=
  [passAt 10, passAt 20, requestAt 21]

theorem run_lateEvents :
    Run (Serving sampleZones) sampleIntake lateEvents (lateEvents.foldl Intake.after sampleIntake) :=
  .cons (.pass (by decide) (by decide)) (.cons (.pass (by decide) (by decide))
    (.single (.request (by decide))))

theorem serving_after {t : Intake} (h : Serving sampleZones s event t) : t = s.after event := by
  cases h with
  | pass => rfl
  | request => rfl

theorem not_queuedInside_late (t : Intake) :
    ¬Run (Such (QueuedInside sampleZones) (Serving sampleZones)) sampleIntake lateEvents t := by
  intro h
  unfold lateEvents at h
  cases h with
  | cons hfirst h =>
    obtain rfl := serving_after hfirst.1
    cases h with
    | cons hsecond h =>
      obtain rfl := serving_after hsecond.1
      cases h with
      | cons hrequest h =>
        obtain ⟨hstep, hinside⟩ := hrequest
        obtain rfl := serving_after hstep
        exact absurd (hinside (by decide +kernel)) (by decide +kernel)

theorem not_always_queuedInside : ¬∀ (lib : ZoneLibrary) (s s' : Intake) (events : List IntakeEvent),
    s.passes = [] → (∀ cameraId, s.keys.entry (activeModeKey cameraId) = none) →
    Run (Serving lib) s events s' →
      Run (Such (QueuedInside lib) (Serving lib)) s events s' := by
  intro h
  exact not_queuedInside_late _ (h sampleZones sampleIntake _ lateEvents rfl (fun _ => rfl)
    run_lateEvents)

/-- A request at eleven comes in time, one at 21 hours after a pass at 20 does not. -/
theorem queuedInside_iff_noneLingers_sample :
    Run (Such (QueuedInside sampleZones) (Serving sampleZones)) sampleIntake
        [passAt 10, requestAt 11] ([passAt 10, requestAt 11].foldl Intake.after sampleIntake) ∧
      ¬Run (Where (NoneLingers sampleZones) (Serving sampleZones)) sampleIntake lateEvents
        (lateEvents.foldl Intake.after sampleIntake) := by
  constructor
  · refine (queuedInside_iff_noneLingers rfl (fun _ => rfl)).mpr ?_
    refine .cons ⟨trivial, .pass (by decide) (by decide)⟩ (.single ⟨?_, .request (by decide)⟩)
    intro _ hlingers
    exact hlingers.1 (by decide)
  · intro h
    exact not_queuedInside_late _ ((queuedInside_iff_noneLingers rfl (fun _ => rfl)).mpr h)

end ArgusServices

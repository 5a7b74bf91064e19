import ArgusServices.Configuration
import ArgusServices.ExpiringKeys
import ArgusServices.Ingestion

namespace ArgusServices

open Effect

/-- The clock on the wall: the weekday, Monday first, and the time of the day. -/
structure LocalTime where
  weekday : Fin 7
  time : Int
  deriving DecidableEq, Repr

/-- `ZoneInfo(name)`, which raises for a name it has no data for, and the local time it gives. -/
structure ZoneLibrary where
  zoneInfo : String → Except Exn (Int → LocalTime)

def activeModeTtlSecs : Int := 86400

/-- `_DAY_MAP`. -/
def dayMap : Fin 7 → ScheduleDay
  | 0 => .mon
  | 1 => .tue
  | 2 => .wed
  | 3 => .thu
  | 4 => .fri
  | 5 => .sat
  | 6 => .sun

def isWithinSchedule (start stop current : Int) : Bool :=
  if start ≤ stop then start ≤ current && current ≤ stop
  else current ≥ start || current ≤ stop

def matchesMarket (scheduleMarketId : Option Uuid) (cameraMarketId : Uuid) : Bool :=
  scheduleMarketId = none || scheduleMarketId = some cameraMarketId

/-- The rows of the four queries of a pass, in the order they are returned. -/
structure SchedulerRows where
  schedules : List ContextModeSchedule
  markets : List Market
  assignments : List ContextModeCameraAssignment
  cameras : List Camera
  deriving DecidableEq, Repr

/-- `markets.get(id)`. -/
def SchedulerRows.market (rows : SchedulerRows) (id : Uuid) : Option Market :=
  rows.markets.find? fun m => m.id = id

def SchedulerRows.camera (rows : SchedulerRows) (id : Uuid) : Option Camera :=
  rows.cameras.find? fun c => c.id = id

def SchedulerRows.tzName (rows : SchedulerRows) (schedule : ContextModeSchedule) : String :=
  match schedule.marketId.bind rows.market with
  | some market => market.timezone
  | none => "UTC"

/-- A window over midnight belongs to the day it starts on. -/
def ContextModeSchedule.dayMatches (schedule : ContextModeSchedule) (now : LocalTime) : Bool :=
  let currentDay := dayMap now.weekday
  let previousDay := dayMap (now.weekday - 1)
  if schedule.startTime ≤ schedule.endTime then currentDay = schedule.dayOfWeek
  else (currentDay = schedule.dayOfWeek && now.time ≥ schedule.startTime) ||
    (previousDay = schedule.dayOfWeek && now.time ≤ schedule.endTime)

def LocalTime.previousWeekday (now : LocalTime) : Fin 7 :=
  now.weekday - 1

def ContextModeSchedule.includes (schedule : ContextModeSchedule) (now : LocalTime) : Bool :=
  schedule.dayMatches now && isWithinSchedule schedule.startTime schedule.endTime now.time

abbrev SchedulerProc (α : Type) := Proc (ExpiringKeys String String) Exn α

/-- `set_key` at an instant. -/
def setActiveMode (now : Int) (cameraId contextModeId : Uuid) : SchedulerProc Unit :=
  modify fun keys =>
    keys.set (activeModeKey cameraId) contextModeId.str (now + seconds activeModeTtlSecs)

/-- The body of the inner loop, with the number of activations. -/
def activateAssignment (rows : SchedulerRows) (now : Int) (schedule : ContextModeSchedule)
    (activated : Nat) (assignment : ContextModeCameraAssignment) : SchedulerProc Nat :=
  if assignment.contextModeId ≠ schedule.contextModeId then pure activated
  else
    match rows.camera assignment.cameraId with
    | none => throw (.keyError assignment.cameraId.str)
    | some camera =>
      if !matchesMarket schedule.marketId camera.marketId then pure activated
      else do
        setActiveMode now assignment.cameraId schedule.contextModeId
        pure (activated + 1)

/-- The body of the outer loop. -/
def activateSchedule (lib : ZoneLibrary) (rows : SchedulerRows) (now : Int) (activated : Nat)
    (schedule : ContextModeSchedule) : SchedulerProc Nat := do
  let zone ← ofExcept (lib.zoneInfo (rows.tzName schedule))
  if !schedule.includes (zone now) then pure activated
  else rows.assignments.foldlM (activateAssignment rows now schedule) activated

/-- `_activate_scheduled_modes` at one instant. -/
def activateScheduledModes (lib : ZoneLibrary) (rows : SchedulerRows) (now : Int) :
    SchedulerProc Nat :=
  rows.schedules.foldlM (activateSchedule lib rows now) 0

/-- The keys after a pass, whichever way it ends. -/
def passKeys (lib : ZoneLibrary) (rows : SchedulerRows) (now : Int)
    (keys : ExpiringKeys String String) : ExpiringKeys String String :=
  (exec (activateScheduledModes lib rows now) keys).2

/-- UTC; no other name is known. -/
def sampleZones : ZoneLibrary where
  zoneInfo := fun name =>
    if name = "UTC" then
      .ok fun now => ⟨Fin.ofNat 7 (now / seconds 86400 + 3).toNat, now % seconds 86400⟩
    else .error (.keyError ("No time zone found with key " ++ name))

/-- A camera of tenant 1 with its mode scheduled on Thursdays from eight to eighteen. -/
def sampleRows : SchedulerRows where
  schedules := [⟨⟨6⟩, ⟨1⟩, ⟨4⟩, .thu, seconds 28800, seconds 64800, some ⟨5⟩⟩]
  markets := [⟨⟨5⟩, ⟨1⟩, "Centre", "UTC"⟩]
  assignments := [⟨⟨7⟩, ⟨1⟩, ⟨4⟩, ⟨2⟩⟩]
  cameras := [⟨⟨2⟩, ⟨1⟩, ⟨5⟩, "Gate", "edge-1"⟩]

end ArgusServices

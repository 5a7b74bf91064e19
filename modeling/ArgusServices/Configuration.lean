import ArgusServices.Analyzer

namespace ArgusServices

inductive ScheduleDay
  | mon | tue | wed | thu | fri | sat | sun
  deriving DecidableEq, Repr

structure Market where
  id : Uuid
  tenantId : Uuid
  name : String
  timezone : String
  deriving DecidableEq, Repr

structure Camera where
  id : Uuid
  tenantId : Uuid
  marketId : Uuid
  name : String
  edgeDeviceId : String
  deriving DecidableEq, Repr

structure RegionOfInterest where
  id : Uuid
  tenantId : Uuid
  cameraId : Uuid
  name : String
  polygon : List (List (String × PyFloat))

structure ContextMode where
  id : Uuid
  tenantId : Uuid
  name : String
  description : Option String
  deriving DecidableEq, Repr

/-- Times of the day are counted in microseconds. -/
structure ContextModeSchedule where
  id : Uuid
  tenantId : Uuid
  contextModeId : Uuid
  dayOfWeek : ScheduleDay
  startTime : Int
  endTime : Int
  marketId : Option Uuid
  deriving DecidableEq, Repr

structure ContextModeCameraAssignment where
  id : Uuid
  tenantId : Uuid
  contextModeId : Uuid
  cameraId : Uuid
  deriving DecidableEq, Repr

/-- A lens with the columns that only its prompt is built from. -/
structure StoredLens extends Lens where
  id : Uuid
  name : String
  systemPrompt : String
  outputSchema : List (String × Json)

structure StoredRule extends Rule where
  id : Uuid
  name : String

structure RuleRegionMapping where
  tenantId : Uuid
  ruleId : Uuid
  regionId : Uuid
  deriving DecidableEq, Repr

end ArgusServices

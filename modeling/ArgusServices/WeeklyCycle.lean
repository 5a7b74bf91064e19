import ArgusServices.SchedulerSpec

namespace ArgusServices

/-- The position lies, modulo the period, in the closed interval. -/
def InCycle (period first last position : Int) : Prop :=
  ∃ k : Int, first ≤ position + k * period ∧ position + k * period ≤ last

/-- The time is one of the day. -/
def TimeOfDay (day time : Int) : Prop :=
  0 ≤ time ∧ time < day

def ScheduleDay.index : ScheduleDay → Int
  | .mon => 0
  | .tue => 1
  | .wed => 2
  | .thu => 3
  | .fri => 4
  | .sat => 5
  | .sun => 6

/-- The midnight the day of the schedule begins with, in the week that begins on Monday. -/
def ContextModeSchedule.midnight (day : Int) (schedule : ContextModeSchedule) : Int :=
  schedule.dayOfWeek.index * day

def ContextModeSchedule.opens (day : Int) (schedule : ContextModeSchedule) : Int :=
  schedule.midnight day + schedule.startTime

/-- The end on the day after, when it is before the start. -/
def ContextModeSchedule.closes (day : Int) (schedule : ContextModeSchedule) : Int :=
  schedule.midnight day + schedule.endTime +
    if schedule.endTime < schedule.startTime then day else 0

/-- How far into the week, which begins on Monday, the local time is. -/
def LocalTime.position (day : Int) (now : LocalTime) : Int :=
  now.weekday.val * day + now.time

variable {day : Int} {schedule : ContextModeSchedule} {now : LocalTime}

theorem day_order {i j s t : Int} (hs : TimeOfDay day s) (ht : TimeOfDay day t) :
    i * day + s ≤ j * day + t ↔ i < j ∨ i = j ∧ s ≤ t := by
  obtain ⟨hs0, hsd⟩ := hs
  obtain ⟨ht0, htd⟩ := ht
  constructor
  · intro h
    rcases Int.lt_trichotomy i j with hlt | rfl | hgt
    · exact Or.inl hlt
    · exact Or.inr ⟨rfl, by omega⟩
    · have hdays : (j + 1) * day ≤ i * day := Int.mul_le_mul_of_nonneg_right (by omega) (by omega)
      have hexpand : (j + 1) * day = j * day + day := by rw [Int.add_mul, Int.one_mul]
      omega
  · intro h
    rcases h with hlt | ⟨rfl, hle⟩
    · have hdays : (i + 1) * day ≤ j * day := Int.mul_le_mul_of_nonneg_right (by omega) (by omega)
      have hexpand : (i + 1) * day = i * day + day := by rw [Int.add_mul, Int.one_mul]
      omega
    · omega

/-- An interval that begins in the cycle of the position is met in it, or one cycle on. -/
theorem inCycle_iff {period first last position : Int} (hfirst : 0 ≤ first)
    (hlast : last < 2 * period) (hposition : 0 ≤ position ∧ position < period)
    (hnext : first ≤ period) :
    InCycle period first last position ↔
      first ≤ position ∧ position ≤ last ∨ position + period ≤ last := by
  obtain ⟨hpos, hlt⟩ := hposition
  constructor
  · intro h
    obtain ⟨k, hlow, hhigh⟩ := h
    rcases Int.lt_trichotomy k 0 with hk | rfl | hk
    · have hback : k * period ≤ -1 * period :=
        Int.mul_le_mul_of_nonneg_right (by omega) (by omega)
      omega
    · left
      omega
    · by_cases hone : k = 1
      · subst hone
        right
        omega
      · have hahead : 2 * period ≤ k * period :=
          Int.mul_le_mul_of_nonneg_right (by omega) (by omega)
        omega
  · intro h
    rcases h with ⟨hlow, hhigh⟩ | hhigh
    · exact ⟨0, by omega, by omega⟩
    · exact ⟨1, by omega, by omega⟩

theorem ScheduleDay.index_bounds (d : ScheduleDay) : 0 ≤ d.index ∧ d.index < 7 := by
  cases d <;> decide

theorem dayMap_eq_iff {weekday : Fin 7} {d : ScheduleDay} :
    dayMap weekday = d ↔ d.index = weekday.val := by
  revert weekday
  cases d <;> decide

theorem dayMap_previous_iff {d : ScheduleDay} : dayMap now.previousWeekday = d ↔
    now.weekday.val = d.index + 1 ∨ now.weekday.val + 7 = d.index + 1 := by
  unfold LocalTime.previousWeekday
  generalize now.weekday = weekday
  revert weekday
  cases d <;> decide

theorem LocalTime.position_bounds (htime : TimeOfDay day now.time) :
    0 ≤ now.position day ∧ now.position day < 7 * day := by
  have hzero : TimeOfDay day 0 := ⟨le_rfl, htime.1.trans_lt htime.2⟩
  have hlast : TimeOfDay day (day - 1) := ⟨by unfold TimeOfDay at hzero; omega, by omega⟩
  have hweekday : now.weekday.val < 7 := now.weekday.isLt
  have hlow : 0 * day + 0 ≤ now.weekday.val * day + now.time := (day_order hzero htime).mpr (by
    unfold TimeOfDay at htime
    omega)
  have hhigh : now.weekday.val * day + now.time ≤ 6 * day + (day - 1) :=
    (day_order htime hlast).mpr (by
      unfold TimeOfDay at htime
      omega)
  unfold LocalTime.position
  omega

theorem ContextModeSchedule.opens_bounds (hstart : TimeOfDay day schedule.startTime) :
    0 ≤ schedule.opens day ∧ schedule.opens day ≤ 7 * day := by
  obtain ⟨hlow, hhigh⟩ := schedule.dayOfWeek.index_bounds
  have hzero : TimeOfDay day 0 := ⟨le_rfl, hstart.1.trans_lt hstart.2⟩
  have hfirst : 0 * day + 0 ≤ schedule.dayOfWeek.index * day + schedule.startTime :=
    (day_order hzero hstart).mpr (by
      unfold TimeOfDay at hstart
      omega)
  have hnext : schedule.dayOfWeek.index * day + schedule.startTime ≤ 7 * day + 0 :=
    (day_order hstart hzero).mpr (Or.inl hhigh)
  unfold ContextModeSchedule.opens ContextModeSchedule.midnight
  omega

theorem ContextModeSchedule.closes_eq : schedule.closes day =
    (if schedule.endTime < schedule.startTime then schedule.dayOfWeek.index + 1
      else schedule.dayOfWeek.index) * day + schedule.endTime := by
  unfold ContextModeSchedule.closes ContextModeSchedule.midnight
  split
  · rw [Int.add_mul, Int.one_mul]
    omega
  · omega

theorem ContextModeSchedule.closes_lt (hend : TimeOfDay day schedule.endTime) :
    schedule.closes day < 2 * (7 * day) := by
  have hindex := schedule.dayOfWeek.index_bounds.2
  have hzero : TimeOfDay day 0 := ⟨le_rfl, hend.1.trans_lt hend.2⟩
  have hday : 0 < day := hend.1.trans_lt hend.2
  have hbound : schedule.closes day ≤ 8 * day + 0 := by
    rw [ContextModeSchedule.closes_eq]
    refine (day_order hend hzero).mpr (Or.inl ?_)
    split <;> omega
  omega

/-- A schedule is not skipped exactly when the position in the week is, modulo one week, between
the start of its window and the end of it, which may be on the next day or in the next week. -/
theorem includes_iff_inCycle (hnow : TimeOfDay day now.time)
    (hstart : TimeOfDay day schedule.startTime) (hend : TimeOfDay day schedule.endTime) :
    schedule.includes now = true ↔
      InCycle (7 * day) (schedule.opens day) (schedule.closes day) (now.position day) := by
  obtain ⟨hopens, hnext⟩ := ContextModeSchedule.opens_bounds hstart
  rw [includes_iff, inCycle_iff hopens (ContextModeSchedule.closes_lt hend)
    (LocalTime.position_bounds hnow) hnext]
  have hopened : schedule.opens day ≤ now.position day ↔
      schedule.dayOfWeek.index < now.weekday.val ∨
        schedule.dayOfWeek.index = now.weekday.val ∧ schedule.startTime ≤ now.time :=
    day_order hstart hnow
  have hweek : now.position day + 7 * day = (now.weekday.val + 7 : Int) * day + now.time := by
    unfold LocalTime.position
    rw [Int.add_mul]
    omega
  rw [hopened, hweek, ContextModeSchedule.closes_eq]
  unfold LocalTime.position
  rw [day_order hnow hend, day_order hnow hend]
  unfold ContextModeSchedule.Covers
  have hindex := schedule.dayOfWeek.index_bounds
  have hweekday : now.weekday.val < 7 := now.weekday.isLt
  by_cases hday : schedule.startTime ≤ schedule.endTime
  · rw [if_pos hday, if_neg (Int.not_lt.mpr hday), dayMap_eq_iff]
    constructor
    · intro h
      omega
    · intro h
      omega
  · rw [if_neg hday, if_pos (Int.not_le.mp hday), dayMap_eq_iff, dayMap_previous_iff]
    constructor
    · intro h
      omega
    · intro h
      omega

/-- On Monday at one the night from Sunday at 22 to Monday at six is not over; in hours. -/
theorem includes_iff_inCycle_sample :
    let sunday : ContextModeSchedule := ⟨⟨6⟩, ⟨1⟩, ⟨4⟩, .sun, 22, 6, none⟩
    sunday.includes ⟨0, 1⟩ = true ∧
      InCycle (7 * 24) (sunday.opens 24) (sunday.closes 24) (LocalTime.position 24 ⟨0, 1⟩) := by
  intro sunday
  have hiff := @includes_iff_inCycle 24 sunday ⟨0, 1⟩ ⟨by decide, by decide⟩
    ⟨by decide, by decide⟩ ⟨by decide, by decide⟩
  have hincludes : sunday.includes ⟨0, 1⟩ = true := by decide
  exact ⟨hincludes, hiff.mp hincludes⟩

end ArgusServices

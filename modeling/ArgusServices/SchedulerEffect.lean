import ArgusServices.Scheduler
import Mathlib.Data.List.Nodup

namespace ArgusServices

open Effect

/-- The constraints on the tables of a pass. -/
structure SchedulerRows.Constrained (rows : SchedulerRows) : Prop where
  market_ids : (rows.markets.map Market.id).Nodup
  camera_ids : (rows.cameras.map Camera.id).Nodup
  one_assignment : (rows.assignments.map ContextModeCameraAssignment.cameraId).Nodup
  camera_found : ∀ a ∈ rows.assignments, (rows.camera a.cameraId).isSome

instance (rows : SchedulerRows) : Decidable rows.Constrained :=
  decidable_of_iff ((rows.markets.map Market.id).Nodup ∧ (rows.cameras.map Camera.id).Nodup ∧
      (rows.assignments.map ContextModeCameraAssignment.cameraId).Nodup ∧
      ∀ a ∈ rows.assignments, (rows.camera a.cameraId).isSome)
    ⟨fun h => ⟨h.1, h.2.1, h.2.2.1, h.2.2.2⟩,
      fun h => ⟨h.market_ids, h.camera_ids, h.one_assignment, h.camera_found⟩⟩

/-- The time zone of the schedule can be built. -/
def ZoneLibrary.usable (lib : ZoneLibrary) (rows : SchedulerRows)
    (schedule : ContextModeSchedule) : Bool :=
  (lib.zoneInfo (rows.tzName schedule)).toOption.isSome

/-- The instant is in the window of the schedule. -/
def ZoneLibrary.inside (lib : ZoneLibrary) (rows : SchedulerRows) (now : Int)
    (schedule : ContextModeSchedule) : Bool :=
  (lib.zoneInfo (rows.tzName schedule)).toOption.any fun zone => schedule.includes (zone now)

/-- The schedule is one of the assigned mode, and for the market of the camera. -/
def SchedulerRows.applies (rows : SchedulerRows) (schedule : ContextModeSchedule)
    (assignment : ContextModeCameraAssignment) : Bool :=
  assignment.contextModeId = schedule.contextModeId &&
    (rows.camera assignment.cameraId).any fun camera =>
      matchesMarket schedule.marketId camera.marketId

/-- The schedules before the first one that has no usable time zone. -/
def ZoneLibrary.reached (lib : ZoneLibrary) (rows : SchedulerRows) : List ContextModeSchedule :=
  rows.schedules.takeWhile (lib.usable rows)

def ZoneLibrary.activatedBy (lib : ZoneLibrary) (rows : SchedulerRows) (now : Int)
    (schedule : ContextModeSchedule) : List ContextModeCameraAssignment :=
  if lib.inside rows now schedule then rows.assignments.filter (rows.applies schedule) else []

/-- The assignments a pass activates, one for each time it does. -/
def ZoneLibrary.activated (lib : ZoneLibrary) (rows : SchedulerRows) (now : Int) :
    List ContextModeCameraAssignment :=
  (lib.reached rows).flatMap (lib.activatedBy rows now)

def withActive (now : Int) (keys : ExpiringKeys String String)
    (assignment : ContextModeCameraAssignment) : ExpiringKeys String String :=
  keys.set (activeModeKey assignment.cameraId) assignment.contextModeId.str
    (now + seconds activeModeTtlSecs)

variable {lib : ZoneLibrary} {rows : SchedulerRows} {now : Int} {schedule : ContextModeSchedule}
  {assignment : ContextModeCameraAssignment} {n : Nat} {keys : ExpiringKeys String String}

theorem activeModeKey_injective : Function.Injective activeModeKey := by
  intro c c' h
  exact Uuid.str_injective ((String.append_right_inj _).mp h)

theorem ends_activateAssignment (hcamera : (rows.camera assignment.cameraId).isSome) :
    Ends (activateAssignment rows now schedule n assignment) keys
      (fun m t => m = n + (if rows.applies schedule assignment then 1 else 0) ∧
        t = if rows.applies schedule assignment then withActive now keys assignment else keys)
      fun _ _ => False := by
  obtain ⟨camera, hc⟩ := Option.isSome_iff_exists.mp hcamera
  unfold activateAssignment
  by_cases hmode : assignment.contextModeId = schedule.contextModeId
  · rw [if_neg (not_not.mpr hmode)]
    simp only [hc]
    cases hmarket : matchesMarket schedule.marketId camera.marketId with
    | false => simp [SchedulerRows.applies, hc, hmarket]
    | true => simp [SchedulerRows.applies, hc, hmarket, setActiveMode, withActive, hmode,
        -bind_pure_comp]
  · simp [hmode, SchedulerRows.applies]

theorem ends_activateAssignments (now : Int) (schedule : ContextModeSchedule)
    (assignments : List ContextModeCameraAssignment)
    (hcamera : ∀ a ∈ assignments, (rows.camera a.cameraId).isSome) (n : Nat)
    (keys : ExpiringKeys String String) :
    Ends (assignments.foldlM (activateAssignment rows now schedule) n) keys
      (fun m t => m = n + (assignments.filter (rows.applies schedule)).length ∧
        t = (assignments.filter (rows.applies schedule)).foldl (withActive now) keys)
      fun _ _ => False := by
  induction assignments generalizing n keys with
  | nil => simp
  | cons assignment assignments ih =>
    rw [List.foldlM_cons]
    refine (ends_activateAssignment (hcamera _ List.mem_cons_self)).bind ?_
    intro m t hpost
    obtain ⟨hm, ht⟩ := hpost
    refine (ih (fun a ha => hcamera a (List.mem_cons_of_mem _ ha)) m t).mono ?_ (fun _ _ h => h)
    intro k u hpost
    obtain ⟨hk, hu⟩ := hpost
    rw [hk, hu, hm, ht]
    by_cases happlies : rows.applies schedule assignment
    · simp only [happlies, if_true, List.filter_cons_of_pos, List.length_cons, List.foldl_cons,
        and_true]
      omega
    · simp [happlies]

theorem ends_activateSchedule (hrows : rows.Constrained) (n : Nat)
    (keys : ExpiringKeys String String) :
    Ends (activateSchedule lib rows now n schedule) keys
      (fun m t => lib.usable rows schedule = true ∧
        m = n + (lib.activatedBy rows now schedule).length ∧
        t = (lib.activatedBy rows now schedule).foldl (withActive now) keys)
      fun _ t => lib.usable rows schedule = false ∧ t = keys := by
  unfold activateSchedule ZoneLibrary.activatedBy ZoneLibrary.inside ZoneLibrary.usable
  cases hzone : lib.zoneInfo (rows.tzName schedule) with
  | error e => simp [Except.toOption]
  | ok zone =>
    cases hwindow : schedule.includes (zone now) with
    | false => simp [Except.toOption, hwindow]
    | true =>
      have hloop := ends_activateAssignments now schedule
        rows.assignments hrows.camera_found n keys
      simp only [ends_bind, ends_ofExcept, Except.toOption, Option.isSome_some, Option.any_some,
        hwindow, if_true, true_and]
      refine ⟨?_, ?_⟩
      · intro z hz
        obtain rfl := Except.ok.inj hz
        simp only [hwindow, Bool.not_true, Bool.false_eq_true, if_false]
        exact hloop.mono (fun _ _ h => h) (fun _ _ h => h.elim)
      · intro e he
        cases he

/-- The outer loop: it ends at the first schedule whose time zone cannot be built. -/
theorem ends_activateSchedules (hrows : rows.Constrained) (schedules : List ContextModeSchedule)
    (n : Nat) (keys : ExpiringKeys String String) :
    Ends (schedules.foldlM (activateSchedule lib rows now) n) keys
      (fun m t => (∀ s ∈ schedules, lib.usable rows s = true) ∧
        m = n + (schedules.flatMap (lib.activatedBy rows now)).length ∧
        t = ((schedules.takeWhile (lib.usable rows)).flatMap
          (lib.activatedBy rows now)).foldl (withActive now) keys)
      fun _ t => (∃ s ∈ schedules, lib.usable rows s = false) ∧
        t = ((schedules.takeWhile (lib.usable rows)).flatMap
          (lib.activatedBy rows now)).foldl (withActive now) keys := by
  induction schedules generalizing n keys with
  | nil => simp
  | cons schedule schedules ih =>
    rw [List.foldlM_cons, ends_bind]
    refine (ends_activateSchedule hrows n keys).mono ?_ ?_
    · intro m t hpost
      obtain ⟨husable, rfl, rfl⟩ := hpost
      refine (ih _ _).mono ?_ ?_
      · intro k u hpost
        obtain ⟨hall, rfl, rfl⟩ := hpost
        refine ⟨List.forall_mem_cons.mpr ⟨husable, hall⟩, ?_, by simp [husable]⟩
        simp only [List.flatMap_cons, List.length_append]
        omega
      · intro _ u hpost
        obtain ⟨⟨s, hs, hunusable⟩, rfl⟩ := hpost
        exact ⟨⟨s, List.mem_cons_of_mem _ hs, hunusable⟩, by simp [husable]⟩
    · intro _ t hpost
      obtain ⟨husable, rfl⟩ := hpost
      exact ⟨⟨schedule, List.mem_cons_self, husable⟩, by simp [husable]⟩

theorem passKeys_eq (hrows : rows.Constrained) (keys : ExpiringKeys String String) :
    passKeys lib rows now keys = keys.setAll (lib.activated rows now)
      (fun a => activeModeKey a.cameraId) (fun a => a.contextModeId.str)
      (now + seconds activeModeTtlSecs) :=
  (@ends_state_iff _ _ _ keys (activateScheduledModes lib rows now)
    fun t => t = (lib.activated rows now).foldl (withActive now) keys).mp
      ((ends_activateSchedules hrows rows.schedules 0 keys).mono (fun _ _ h => h.2.2)
        (fun _ _ h => h.2))

theorem mem_activated : assignment ∈ lib.activated rows now ↔ assignment ∈ rows.assignments ∧
    ∃ s ∈ lib.reached rows, lib.inside rows now s = true ∧ rows.applies s assignment = true := by
  simp only [ZoneLibrary.activated, ZoneLibrary.activatedBy, List.mem_flatMap]
  constructor
  · intro h
    obtain ⟨s, hs, hmem⟩ := h
    split at hmem
    next hinside =>
      obtain ⟨ha, happlies⟩ := List.mem_filter.mp hmem
      exact ⟨ha, s, hs, hinside, happlies⟩
    next => cases hmem
  · intro h
    obtain ⟨ha, s, hs, hinside, happlies⟩ := h
    refine ⟨s, hs, ?_⟩
    rw [if_pos hinside]
    exact List.mem_filter.mpr ⟨ha, happlies⟩

theorem SchedulerRows.Constrained.assignment_eq (hrows : rows.Constrained)
    {a a' : ContextModeCameraAssignment} (ha : a ∈ rows.assignments) (ha' : a' ∈ rows.assignments)
    (h : a.cameraId = a'.cameraId) : a = a' :=
  List.inj_on_of_nodup_map hrows.one_assignment ha ha' h

theorem passKeys_activated (hrows : rows.Constrained) (h : assignment ∈ lib.activated rows now) :
    (passKeys lib rows now keys).entry (activeModeKey assignment.cameraId) =
      some (assignment.contextModeId.str, now + seconds activeModeTtlSecs) := by
  have hvalue : ∀ a ∈ lib.activated rows now, activeModeKey a.cameraId =
      activeModeKey assignment.cameraId → a.contextModeId.str = assignment.contextModeId.str := by
    intro a ha hkey
    rw [hrows.assignment_eq (mem_activated.mp ha).1 (mem_activated.mp h).1
      (activeModeKey_injective hkey)]
  rw [passKeys_eq hrows]
  exact ExpiringKeys.entry_setAll_of_mem h hvalue

theorem passKeys_other (hrows : rows.Constrained) {key : String}
    (h : ∀ a ∈ lib.activated rows now, activeModeKey a.cameraId ≠ key) :
    (passKeys lib rows now keys).entry key = keys.entry key := by
  rw [passKeys_eq hrows]
  exact ExpiringKeys.entry_setAll_of_ne h

end ArgusServices

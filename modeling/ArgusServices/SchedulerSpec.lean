import ArgusServices.SchedulerIsolation
import Mathlib.Data.List.Perm.Basic
import Mathlib.Data.List.ProdSigma

namespace ArgusServices

open Effect

/-- The time is in the window of the schedule; one over midnight belongs to the day it starts on. -/
def ContextModeSchedule.Covers (schedule : ContextModeSchedule) (now : LocalTime) : Prop :=
  if schedule.startTime ≤ schedule.endTime then
    dayMap now.weekday = schedule.dayOfWeek ∧
      schedule.startTime ≤ now.time ∧ now.time ≤ schedule.endTime
  else
    (dayMap now.weekday = schedule.dayOfWeek ∧ schedule.startTime ≤ now.time) ∨
      (dayMap now.previousWeekday = schedule.dayOfWeek ∧ now.time ≤ schedule.endTime)

instance (schedule : ContextModeSchedule) (now : LocalTime) : Decidable (schedule.Covers now) :=
  inferInstanceAs (Decidable (if schedule.startTime ≤ schedule.endTime then _ ∧ _ else _ ∨ _))

/-- The schedule is to activate the assignment: it is of the assigned mode, for all markets or that
of the camera, and covers the local time. -/
def ZoneLibrary.Activates (lib : ZoneLibrary) (rows : SchedulerRows) (now : Int)
    (schedule : ContextModeSchedule) (assignment : ContextModeCameraAssignment) : Prop :=
  assignment.contextModeId = schedule.contextModeId ∧
    (∃ c ∈ rows.cameras, c.id = assignment.cameraId ∧
      (schedule.marketId = none ∨ schedule.marketId = some c.marketId)) ∧
    ∃ zone ∈ (lib.zoneInfo (rows.tzName schedule)).toOption, schedule.Covers (zone now)

instance (lib : ZoneLibrary) (rows : SchedulerRows) (now : Int) (schedule : ContextModeSchedule)
    (assignment : ContextModeCameraAssignment) :
    Decidable (lib.Activates rows now schedule assignment) :=
  inferInstanceAs (Decidable (_ ∧ (∃ c ∈ rows.cameras, _) ∧ ∃ zone ∈ Except.toOption _, _))

/-- The pairs of a schedule and an assignment that it is to activate. -/
def ZoneLibrary.activations (lib : ZoneLibrary) (rows : SchedulerRows) (now : Int) :
    List (ContextModeSchedule × ContextModeCameraAssignment) :=
  (rows.schedules ×ˢ rows.assignments).filter fun p => lib.Activates rows now p.1 p.2

/-- The time zones of all markets, and UTC, can be built. -/
def ZoneLibrary.KnowsZones (lib : ZoneLibrary) (rows : SchedulerRows) : Prop :=
  ∀ name ∈ "UTC" :: rows.markets.map Market.timezone, (lib.zoneInfo name).toOption.isSome

/-- The same rows, each query in an order of its own. -/
structure SchedulerRows.Reordered (rows rows' : SchedulerRows) : Prop where
  schedules : rows.schedules.Perm rows'.schedules
  markets : rows.markets.Perm rows'.markets
  assignments : rows.assignments.Perm rows'.assignments
  cameras : rows.cameras.Perm rows'.cameras

variable {lib : ZoneLibrary} {rows rows' : SchedulerRows} {now : Int}
  {schedule : ContextModeSchedule} {a : ContextModeCameraAssignment}
  {keys : ExpiringKeys String String}

/-- The two filters of the pass together: the window covers the time. -/
theorem includes_iff {local_now : LocalTime} :
    schedule.includes local_now = true ↔ schedule.Covers local_now := by
  unfold ContextModeSchedule.includes ContextModeSchedule.dayMatches isWithinSchedule
    ContextModeSchedule.Covers
  by_cases hday : schedule.startTime ≤ schedule.endTime
  · simp only [hday, if_true, Bool.and_eq_true, decide_eq_true_eq]
  · simp only [hday, if_false, Bool.and_eq_true, Bool.or_eq_true, decide_eq_true_eq]
    constructor
    · exact And.left
    · intro h
      refine ⟨h, ?_⟩
      rcases h with ⟨-, h⟩ | ⟨-, h⟩
      · exact Or.inl h
      · exact Or.inr h

theorem matchesMarket_iff {scheduleMarketId : Option Uuid} {cameraMarketId : Uuid} :
    matchesMarket scheduleMarketId cameraMarketId = true ↔
      scheduleMarketId = none ∨ scheduleMarketId = some cameraMarketId := by
  simp [matchesMarket]

theorem applies_iff (hrows : rows.Constrained) : rows.applies schedule a = true ↔
    a.contextModeId = schedule.contextModeId ∧ ∃ c ∈ rows.cameras, c.id = a.cameraId ∧
      (schedule.marketId = none ∨ schedule.marketId = some c.marketId) := by
  simp only [SchedulerRows.applies, Bool.and_eq_true, decide_eq_true_eq, Option.any_eq_true]
  constructor
  · intro h
    obtain ⟨hmode, c, hc, hmarket⟩ := h
    obtain ⟨hmem, hid⟩ := SchedulerRows.camera_spec hc
    exact ⟨hmode, c, hmem, hid, matchesMarket_iff.mp hmarket⟩
  · intro h
    obtain ⟨hmode, c, hmem, hid, hmarket⟩ := h
    exact ⟨hmode, c, hid ▸ hrows.camera_of_mem hmem, matchesMarket_iff.mpr hmarket⟩

theorem inside_iff : lib.inside rows now schedule = true ↔
    ∃ zone ∈ (lib.zoneInfo (rows.tzName schedule)).toOption, schedule.Covers (zone now) := by
  simp only [ZoneLibrary.inside, Option.any_eq_true, includes_iff]
  rfl

theorem activatedBy_eq (hrows : rows.Constrained) : lib.activatedBy rows now schedule =
    rows.assignments.filter fun a => lib.Activates rows now schedule a := by
  unfold ZoneLibrary.activatedBy
  split
  next hinside =>
    apply List.filter_congr
    intro a _
    rw [Bool.eq_iff_iff, applies_iff hrows, decide_eq_true_eq]
    have hcovers := inside_iff.mp hinside
    constructor
    · intro h
      exact ⟨h.1, h.2, hcovers⟩
    · intro h
      exact ⟨h.1, h.2.1⟩
  next hinside =>
    symm
    rw [List.filter_eq_nil_iff]
    intro a _ h
    exact hinside (inside_iff.mpr (of_decide_eq_true h).2.2)

theorem length_flatMap_filter {α β : Type} (xs : List α) (ys : List β) (p : α → β → Bool) :
    (xs.flatMap fun x => ys.filter (p x)).length =
      ((xs ×ˢ ys).filter fun q => p q.1 q.2).length := by
  induction xs with
  | nil => rfl
  | cons x xs ih =>
    rw [List.product_cons, List.filter_append, List.length_append, List.flatMap_cons,
      List.length_append, ih, List.filter_map, List.length_map]
    rfl

theorem usable_of_knowsZones (h : lib.KnowsZones rows) (schedule : ContextModeSchedule) :
    lib.usable rows schedule = true := by
  apply h
  unfold SchedulerRows.tzName
  split
  next market hmarket =>
    obtain ⟨id, -, hfind⟩ := Option.bind_eq_some_iff.mp hmarket
    exact List.mem_cons_of_mem _ (List.mem_map_of_mem (List.mem_of_find?_eq_some hfind))
  next => exact List.mem_cons_self

theorem mem_activated_iff (hrows : rows.Constrained) (hzones : lib.KnowsZones rows) :
    a ∈ lib.activated rows now ↔
      a ∈ rows.assignments ∧ ∃ s ∈ rows.schedules, lib.Activates rows now s a := by
  have hall : lib.reached rows = rows.schedules :=
    List.takeWhile_eq_self_iff.mpr fun s _ => usable_of_knowsZones hzones s
  rw [mem_activated, hall]
  refine and_congr_right fun _ => exists_congr fun s => and_congr_right fun _ => ?_
  rw [applies_iff hrows, inside_iff]
  exact ⟨fun h => ⟨h.2.1, h.2.2, h.1⟩, fun h => ⟨h.2.2, h.1, h.2.1⟩⟩

/-- A pass with valid time zones returns, with the number of the pairs it activates. -/
theorem activateScheduledModes_returns (hrows : rows.Constrained) (hzones : lib.KnowsZones rows) :
    (exec (activateScheduledModes lib rows now) keys).1 =
      .ok (lib.activations rows now).length := by
  have hends := @ends_activateSchedules lib rows now hrows rows.schedules 0 keys
  have hlength : (rows.schedules.flatMap (lib.activatedBy rows now)).length =
      (lib.activations rows now).length := by
    rw [List.flatMap_congr fun s _ => activatedBy_eq hrows]
    exact length_flatMap_filter _ _ _
  unfold activateScheduledModes
  rcases hx : exec (rows.schedules.foldlM (activateSchedule lib rows now) 0) keys with ⟨e | n, t⟩
  · have hraised := (hends.error hx).1
    obtain ⟨s, -, hunusable⟩ := hraised
    rw [usable_of_knowsZones hzones s] at hunusable
    cases hunusable
  · have hn := (hends.ok hx).2.1
    rw [hn, hlength, Nat.zero_add]

theorem find?_perm {α : Type} {key : α → Uuid} {xs ys : List α} (h : xs.Perm ys)
    (hkeys : (xs.map key).Nodup) (id : Uuid) :
    ys.find? (fun x => key x = id) = xs.find? (fun x => key x = id) := by
  have hkeys' : (ys.map key).Nodup := (h.map key).nodup_iff.mp hkeys
  cases hx : xs.find? (fun x => key x = id) with
  | none =>
    rw [List.find?_eq_none] at hx ⊢
    exact fun y hy => hx y (h.mem_iff.mpr hy)
  | some x =>
    have hid := List.find?_some hx
    simp only [decide_eq_true_eq] at hid
    subst hid
    exact find?_key hkeys' (h.mem_iff.mp (List.mem_of_find?_eq_some hx))

theorem SchedulerRows.Reordered.tzName (h : rows.Reordered rows') (hrows : rows.Constrained)
    (schedule : ContextModeSchedule) : rows'.tzName schedule = rows.tzName schedule := by
  have hmarket : rows'.market = rows.market :=
    funext fun id => find?_perm h.markets hrows.market_ids id
  unfold SchedulerRows.tzName
  rw [hmarket]

theorem SchedulerRows.Reordered.constrained (h : rows.Reordered rows') (hrows : rows.Constrained) :
    rows'.Constrained where
  market_ids := (h.markets.map _).nodup_iff.mp hrows.market_ids
  camera_ids := (h.cameras.map _).nodup_iff.mp hrows.camera_ids
  one_assignment := (h.assignments.map _).nodup_iff.mp hrows.one_assignment
  camera_found := by
    intro a ha
    have hcamera : rows'.camera a.cameraId = rows.camera a.cameraId :=
      find?_perm h.cameras hrows.camera_ids _
    rw [hcamera]
    exact hrows.camera_found a (h.assignments.mem_iff.mpr ha)

theorem SchedulerRows.Reordered.knowsZones (h : rows.Reordered rows')
    (hzones : lib.KnowsZones rows) : lib.KnowsZones rows' := by
  intro name hname
  apply hzones
  rw [List.mem_cons] at hname ⊢
  exact hname.imp_right ((h.markets.map _).mem_iff.mpr)

theorem SchedulerRows.Reordered.activates_iff (h : rows.Reordered rows')
    (hrows : rows.Constrained) :
    lib.Activates rows' now schedule a ↔ lib.Activates rows now schedule a := by
  unfold ZoneLibrary.Activates
  rw [h.tzName hrows]
  simp only [h.cameras.mem_iff]

theorem SchedulerRows.Reordered.activations (h : rows.Reordered rows')
    (hrows : rows.Constrained) :
    (lib.activations rows now).Perm (lib.activations rows' now) := by
  have hpairs : lib.activations rows' now =
      (rows'.schedules ×ˢ rows'.assignments).filter fun p => lib.Activates rows now p.1 p.2 := by
    unfold ZoneLibrary.activations
    apply List.filter_congr
    intro p _
    rw [decide_eq_decide]
    exact h.activates_iff hrows
  rw [hpairs]
  exact (h.schedules.product h.assignments).filter _

theorem passKeys_spec (hrows : rows.Constrained) (hzones : lib.KnowsZones rows) :
    (∀ a ∈ rows.assignments, (∃ s ∈ rows.schedules, lib.Activates rows now s a) →
      (passKeys lib rows now keys).entry (activeModeKey a.cameraId) =
        some (a.contextModeId.str, now + seconds activeModeTtlSecs)) ∧
    ∀ key, (∀ a ∈ rows.assignments, (∃ s ∈ rows.schedules, lib.Activates rows now s a) →
        activeModeKey a.cameraId ≠ key) →
      (passKeys lib rows now keys).entry key = keys.entry key := by
  constructor
  · intro a ha hactive
    exact passKeys_activated hrows ((mem_activated_iff hrows hzones).mpr ⟨ha, hactive⟩)
  · intro key hkey
    apply passKeys_other hrows
    intro a hmem
    obtain ⟨ha, hactive⟩ := (mem_activated_iff hrows hzones).mp hmem
    exact hkey a ha hactive

/-- With valid time zones a pass sets the key of each camera for which some schedule of its assigned
mode is active, leaves all other keys, and counts the pairs it activates; the order in which the
rows are returned does not matter. -/
theorem scheduler_pass_spec (hrows : rows.Constrained) (hzones : lib.KnowsZones rows) :
    (exec (activateScheduledModes lib rows now) keys).1 =
        .ok (lib.activations rows now).length ∧
      (∀ a ∈ rows.assignments, (∃ s ∈ rows.schedules, lib.Activates rows now s a) →
        (exec (activateScheduledModes lib rows now) keys).2.entry (activeModeKey a.cameraId) =
          some (a.contextModeId.str, now + seconds activeModeTtlSecs)) ∧
      (∀ key, (∀ a ∈ rows.assignments, (∃ s ∈ rows.schedules, lib.Activates rows now s a) →
          activeModeKey a.cameraId ≠ key) →
        (exec (activateScheduledModes lib rows now) keys).2.entry key = keys.entry key) ∧
      ∀ rows', rows.Reordered rows' →
        (exec (activateScheduledModes lib rows' now) keys).1 =
            (exec (activateScheduledModes lib rows now) keys).1 ∧
          ∀ key, (exec (activateScheduledModes lib rows' now) keys).2.entry key =
            (exec (activateScheduledModes lib rows now) keys).2.entry key := by
  obtain ⟨hset, hkept⟩ := @passKeys_spec lib rows now keys hrows hzones
  refine ⟨activateScheduledModes_returns hrows hzones, hset, hkept, ?_⟩
  intro rows' h
  have hrows' := h.constrained hrows
  have hzones' := h.knowsZones hzones
  have hactive : ∀ a, (∃ s ∈ rows'.schedules, lib.Activates rows' now s a) ↔
      ∃ s ∈ rows.schedules, lib.Activates rows now s a := by
    intro a
    simp only [h.schedules.mem_iff, h.activates_iff hrows]
  obtain ⟨hset', hkept'⟩ := @passKeys_spec lib rows' now keys hrows' hzones'
  constructor
  · rw [activateScheduledModes_returns hrows' hzones', activateScheduledModes_returns hrows hzones,
      (h.activations hrows).length_eq]
  · intro key
    by_cases hkey : ∃ a ∈ rows.assignments, (∃ s ∈ rows.schedules, lib.Activates rows now s a) ∧
        activeModeKey a.cameraId = key
    · obtain ⟨a, ha, hs, rfl⟩ := hkey
      exact (hset' a (h.assignments.mem_iff.mp ha) ((hactive a).mpr hs)).trans
        (hset a ha hs).symm
    · simp only [not_exists, not_and] at hkey
      refine (hkept' key ?_).trans (hkept key hkey).symm
      intro a ha hs
      exact hkey a (h.assignments.mem_iff.mpr ha) ((hactive a).mp hs)

/-- A Thursday at ten: the one schedule activates the camera. -/
theorem scheduler_pass_spec_sample :
    (exec (activateScheduledModes sampleZones sampleRows (seconds 36000)) .empty).1 = .ok 1 ∧
      (exec (activateScheduledModes sampleZones sampleRows (seconds 36000)) .empty).2.entry
        (activeModeKey ⟨2⟩) = some (Uuid.str ⟨4⟩, seconds 36000 + seconds 86400) := by
  have hzones : sampleZones.KnowsZones sampleRows := by
    intro name hname
    simp only [sampleRows, List.map_cons, List.map_nil, List.mem_cons, List.not_mem_nil,
      or_false, or_self] at hname
    subst hname
    rfl
  obtain ⟨hcount, hset, -⟩ := @scheduler_pass_spec sampleZones sampleRows (seconds 36000) .empty
    (by decide) hzones
  constructor
  · rw [hcount]
    decide +kernel
  · exact hset ⟨⟨7⟩, ⟨1⟩, ⟨4⟩, ⟨2⟩⟩ (by decide)
      ⟨⟨⟨6⟩, ⟨1⟩, ⟨4⟩, .thu, seconds 28800, seconds 64800, some ⟨5⟩⟩, by decide, by decide +kernel⟩

end ArgusServices

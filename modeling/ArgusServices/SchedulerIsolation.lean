import ArgusServices.SchedulerEffect
import Mathlib.Data.List.TakeWhile

namespace ArgusServices

/-- The rows as the create operations admit them: a schedule may name the market of any tenant,
all other references stay within one. -/
structure SchedulerRows.Admitted (rows : SchedulerRows) : Prop where
  constrained : rows.Constrained
  mode_tenant : ∀ s ∈ rows.schedules, ∀ a ∈ rows.assignments, a.contextModeId = s.contextModeId →
    a.tenantId = s.tenantId
  camera_tenant : ∀ a ∈ rows.assignments, ∀ c ∈ rows.camera a.cameraId, c.tenantId = a.tenantId
  market_tenant : ∀ c ∈ rows.cameras, ∃ m ∈ rows.market c.marketId, m.tenantId = c.tenantId

instance (rows : SchedulerRows) : Decidable rows.Admitted :=
  decidable_of_iff (rows.Constrained ∧
      (∀ s ∈ rows.schedules, ∀ a ∈ rows.assignments, a.contextModeId = s.contextModeId →
        a.tenantId = s.tenantId) ∧
      (∀ a ∈ rows.assignments, ∀ c ∈ rows.camera a.cameraId, c.tenantId = a.tenantId) ∧
      ∀ c ∈ rows.cameras, ∃ m ∈ rows.market c.marketId, m.tenantId = c.tenantId)
    ⟨fun h => ⟨h.1, h.2.1, h.2.2.1, h.2.2.2⟩,
      fun h => ⟨h.constrained, h.mode_tenant, h.camera_tenant, h.market_tenant⟩⟩

/-- The tenant has the same rows in both, in whatever order. -/
structure SchedulerRows.AgreeOn (tenantId : Uuid) (rows rows' : SchedulerRows) : Prop where
  schedules : ∀ s, s.tenantId = tenantId → (s ∈ rows.schedules ↔ s ∈ rows'.schedules)
  markets : ∀ m, m.tenantId = tenantId → (m ∈ rows.markets ↔ m ∈ rows'.markets)
  assignments : ∀ a, a.tenantId = tenantId → (a ∈ rows.assignments ↔ a ∈ rows'.assignments)
  cameras : ∀ c, c.tenantId = tenantId → (c ∈ rows.cameras ↔ c ∈ rows'.cameras)

/-- The keys that a pass sets for the cameras of the tenant. -/
def SameKeys (lib : ZoneLibrary) (now : Int) (tenantId : Uuid) (rows rows' : SchedulerRows) :
    Prop :=
  ∀ c ∈ rows.cameras, c.tenantId = tenantId →
    (passKeys lib rows now .empty).entry (activeModeKey c.id) =
      (passKeys lib rows' now .empty).entry (activeModeKey c.id)

/-- A schedule of the assigned mode whose window it is comes before the first unusable zone. -/
def ZoneLibrary.Reaches (lib : ZoneLibrary) (rows : SchedulerRows) (now : Int)
    (assignment : ContextModeCameraAssignment) : Prop :=
  ∃ s ∈ lib.reached rows, lib.inside rows now s = true ∧ rows.applies s assignment = true

instance (lib : ZoneLibrary) (rows : SchedulerRows) (now : Int)
    (assignment : ContextModeCameraAssignment) : Decidable (lib.Reaches rows now assignment) :=
  inferInstanceAs (Decidable (∃ s ∈ lib.reached rows, lib.inside rows now s = true ∧
    rows.applies s assignment = true))

variable {lib : ZoneLibrary} {rows rows' : SchedulerRows} {now : Int} {tenantId : Uuid}
  {keys : ExpiringKeys String String} {a : ContextModeCameraAssignment} {c : Camera}

theorem find?_key {α : Type} {key : α → Uuid} {xs : List α} (hkeys : (xs.map key).Nodup) {x : α}
    (hx : x ∈ xs) : xs.find? (fun y => key y = key x) = some x := by
  have hfound : (xs.find? fun y => key y = key x).isSome :=
    List.find?_isSome.mpr ⟨x, hx, decide_eq_true rfl⟩
  obtain ⟨y, hy⟩ := Option.isSome_iff_exists.mp hfound
  have hkey := List.find?_some hy
  simp only [decide_eq_true_eq] at hkey
  rw [hy, List.inj_on_of_nodup_map hkeys (List.mem_of_find?_eq_some hy) hx hkey]

theorem SchedulerRows.Constrained.camera_of_mem (hrows : rows.Constrained) (hc : c ∈ rows.cameras) :
    rows.camera c.id = some c :=
  find?_key hrows.camera_ids hc

theorem SchedulerRows.Constrained.market_of_mem (hrows : rows.Constrained) {m : Market}
    (hm : m ∈ rows.markets) : rows.market m.id = some m :=
  find?_key hrows.market_ids hm

theorem SchedulerRows.camera_spec (h : rows.camera a.cameraId = some c) :
    c ∈ rows.cameras ∧ c.id = a.cameraId := by
  have hid := List.find?_some h
  simp only [decide_eq_true_eq] at hid
  exact ⟨List.mem_of_find?_eq_some h, hid⟩

theorem passKeys_entry_iff (hrows : rows.Constrained) (ha : a ∈ rows.assignments) :
    (passKeys lib rows now .empty).entry (activeModeKey a.cameraId) =
      if lib.Reaches rows now a then some (a.contextModeId.str, now + seconds activeModeTtlSecs)
      else none := by
  split
  next hreaches => exact passKeys_activated hrows (mem_activated.mpr ⟨ha, hreaches⟩)
  next hreaches =>
    rw [passKeys_other hrows]
    · rfl
    · intro a' ha' hkey
      obtain ⟨hmem, hreaches'⟩ := mem_activated.mp ha'
      rw [hrows.assignment_eq hmem ha (activeModeKey_injective hkey)] at hreaches'
      exact hreaches hreaches'

theorem passKeys_unassigned (hrows : rows.Constrained) {cameraId : Uuid}
    (h : ∀ a ∈ rows.assignments, a.cameraId ≠ cameraId) :
    (passKeys lib rows now .empty).entry (activeModeKey cameraId) = none := by
  rw [passKeys_other hrows]
  · rfl
  · intro a ha hkey
    exact h a (mem_activated.mp ha).1 (activeModeKey_injective hkey)

theorem SchedulerRows.Admitted.tenant_of_camera (hrows : rows.Admitted)
    (ha : a ∈ rows.assignments) (hc : c ∈ rows.cameras) (h : a.cameraId = c.id) :
    c.tenantId = a.tenantId := by
  refine hrows.camera_tenant a ha c ?_
  rw [h]
  exact hrows.constrained.camera_of_mem hc

/-- Two passes set the same keys for the cameras of a tenant exactly if each of its assignments is
reached by an active schedule in both, or in neither. -/
theorem sameKeys_iff_reaches (hrows : rows.Admitted) (hrows' : rows'.Admitted)
    (hagree : rows.AgreeOn tenantId rows') :
    SameKeys lib now tenantId rows rows' ↔ ∀ a ∈ rows.assignments, a.tenantId = tenantId →
      (lib.Reaches rows now a ↔ lib.Reaches rows' now a) := by
  constructor
  · intro h a ha htenant
    obtain ⟨c, hc⟩ := Option.isSome_iff_exists.mp (hrows.constrained.camera_found a ha)
    obtain ⟨hmem, hid⟩ := SchedulerRows.camera_spec hc
    have hsame := h c hmem ((hrows.camera_tenant a ha c hc).trans htenant)
    rw [hid, passKeys_entry_iff hrows.constrained ha,
      passKeys_entry_iff hrows'.constrained ((hagree.assignments a htenant).mp ha)] at hsame
    by_cases hreaches : lib.Reaches rows now a
    · by_cases hreaches' : lib.Reaches rows' now a
      · exact iff_of_true hreaches hreaches'
      · simp [hreaches, hreaches'] at hsame
    · by_cases hreaches' : lib.Reaches rows' now a
      · simp [hreaches, hreaches'] at hsame
      · exact iff_of_false hreaches hreaches'
  · intro h c hc htenant
    by_cases hassigned : ∃ a ∈ rows.assignments, a.cameraId = c.id
    · obtain ⟨a, ha, hid⟩ := hassigned
      have hat : a.tenantId = tenantId := (hrows.tenant_of_camera ha hc hid).symm.trans htenant
      rw [← hid, passKeys_entry_iff hrows.constrained ha,
        passKeys_entry_iff hrows'.constrained ((hagree.assignments a hat).mp ha)]
      simp only [h a ha hat]
    · have hunassigned : ∀ a ∈ rows.assignments, a.cameraId ≠ c.id := by
        intro a ha hid
        exact hassigned ⟨a, ha, hid⟩
      rw [passKeys_unassigned hrows.constrained hunassigned, passKeys_unassigned hrows'.constrained]
      intro a ha hid
      have hc' := (hagree.cameras c htenant).mp hc
      have hat : a.tenantId = tenantId := (hrows'.tenant_of_camera ha hc' hid).symm.trans htenant
      exact hassigned ⟨a, (hagree.assignments a hat).mpr ha, hid⟩

/-- A schedule that applies to an assignment of the tenant does so with the same window in both. -/
theorem SchedulerRows.AgreeOn.congr (lib : ZoneLibrary) (now : Int)
    (hagree : rows.AgreeOn tenantId rows') (hrows : rows.Admitted) (hrows' : rows'.Admitted)
    (ha : a ∈ rows.assignments) (htenant : a.tenantId = tenantId)
    {s : ContextModeSchedule} (hs : s ∈ rows.schedules) (happlies : rows.applies s a = true) :
    s ∈ rows'.schedules ∧ rows'.applies s a = true ∧
      lib.inside rows' now s = lib.inside rows now s := by
  simp only [SchedulerRows.applies, Bool.and_eq_true, decide_eq_true_eq, Option.any_eq_true] at *
  obtain ⟨hmode, c, hc, hmarket⟩ := happlies
  obtain ⟨hmem, hid⟩ := SchedulerRows.camera_spec hc
  have hct : c.tenantId = tenantId := (hrows.camera_tenant a ha c hc).trans htenant
  have hst : s.tenantId = tenantId := (hrows.mode_tenant s hs a ha hmode).symm.trans htenant
  have hc' : rows'.camera a.cameraId = some c := by
    rw [← hid]
    exact hrows'.constrained.camera_of_mem ((hagree.cameras c hct).mp hmem)
  refine ⟨(hagree.schedules s hst).mp hs, ⟨hmode, c, hc', hmarket⟩, ?_⟩
  have hzone : rows'.tzName s = rows.tzName s := by
    unfold SchedulerRows.tzName
    unfold matchesMarket at hmarket
    cases hid : s.marketId with
    | none => rfl
    | some marketId =>
      obtain rfl : marketId = c.marketId := by simpa [hid] using hmarket
      obtain ⟨m, hm, hmt⟩ := hrows.market_tenant c hmem
      have hmid := List.find?_some hm
      simp only [decide_eq_true_eq] at hmid
      have hm' : rows'.market c.marketId = some m := by
        rw [← hmid]
        exact hrows'.constrained.market_of_mem
          ((hagree.markets m (hmt.trans hct)).mp (List.mem_of_find?_eq_some hm))
      simp only [Option.bind_some, hm', Option.mem_def.mp hm]
  unfold ZoneLibrary.inside
  rw [hzone]

theorem SchedulerRows.AgreeOn.symm (hagree : rows.AgreeOn tenantId rows') :
    rows'.AgreeOn tenantId rows where
  schedules := fun s hs => (hagree.schedules s hs).symm
  markets := fun m hm => (hagree.markets m hm).symm
  assignments := fun a ha => (hagree.assignments a ha).symm
  cameras := fun c hc => (hagree.cameras c hc).symm

theorem reached_of_usable (h : ∀ s ∈ rows.schedules, lib.usable rows s = true) :
    lib.reached rows = rows.schedules :=
  List.takeWhile_eq_self_iff.mpr h

theorem SchedulerRows.AgreeOn.reaches (hagree : rows.AgreeOn tenantId rows') (hrows : rows.Admitted)
    (hrows' : rows'.Admitted) (husable : ∀ s ∈ rows'.schedules, lib.usable rows' s = true)
    (ha : a ∈ rows.assignments) (htenant : a.tenantId = tenantId) (h : lib.Reaches rows now a) :
    lib.Reaches rows' now a := by
  obtain ⟨s, hs, hinside, happlies⟩ := h
  obtain ⟨hs', happlies', hsame⟩ := hagree.congr lib now hrows hrows' ha htenant
    (List.takeWhile_subset _ hs) happlies
  refine ⟨s, ?_, hsame.trans hinside, happlies'⟩
  rw [reached_of_usable husable]
  exact hs'

/-- Where every market has a usable time zone, no tenant's keys depend on the other tenants. -/
theorem sameKeys_of_usable (hrows : rows.Admitted) (hrows' : rows'.Admitted)
    (hagree : rows.AgreeOn tenantId rows') (husable : ∀ s ∈ rows.schedules, lib.usable rows s = true)
    (husable' : ∀ s ∈ rows'.schedules, lib.usable rows' s = true) :
    SameKeys lib now tenantId rows rows' := by
  refine (sameKeys_iff_reaches hrows hrows' hagree).mpr ?_
  intro a ha htenant
  constructor
  · exact hagree.reaches hrows hrows' husable' ha htenant
  · exact hagree.symm.reaches hrows' hrows husable ((hagree.assignments a htenant).mp ha) htenant

/-- Tenant 8 has added a market and a schedule that is returned first. -/
def shadowedRows (timezone : String) : SchedulerRows :=
  { sampleRows with
    schedules := ⟨⟨16⟩, ⟨8⟩, ⟨14⟩, .mon, 0, 0, some ⟨15⟩⟩ :: sampleRows.schedules
    markets := ⟨⟨15⟩, ⟨8⟩, "North", timezone⟩ :: sampleRows.markets }

theorem agreeOn_shadowedRows (timezone : String) :
    sampleRows.AgreeOn ⟨1⟩ (shadowedRows timezone) := by
  constructor
  · intro s hs
    have hne : s ≠ ⟨⟨16⟩, ⟨8⟩, ⟨14⟩, .mon, 0, 0, some ⟨15⟩⟩ := by
      intro h
      rw [h] at hs
      exact absurd hs (by decide)
    exact ⟨List.mem_cons_of_mem _, fun h => (List.mem_cons.mp h).resolve_left hne⟩
  · intro m hm
    have hne : m ≠ ⟨⟨15⟩, ⟨8⟩, "North", timezone⟩ := by
      intro h
      rw [h] at hm
      exact absurd hm (by simp)
    exact ⟨List.mem_cons_of_mem _, fun h => (List.mem_cons.mp h).resolve_left hne⟩
  · intro a _
    rfl
  · intro c _
    rfl

theorem sameKeys_iff_reaches_sample :
    SameKeys sampleZones (seconds 36000) ⟨1⟩ sampleRows (shadowedRows "UTC") ∧
      ¬SameKeys sampleZones (seconds 36000) ⟨1⟩ sampleRows (shadowedRows "Mars/Base") := by
  constructor
  · refine (sameKeys_iff_reaches (by decide) (by decide) (agreeOn_shadowedRows "UTC")).mpr ?_
    decide
  · intro h
    have hreaches := (sameKeys_iff_reaches (by decide) (by decide)
      (agreeOn_shadowedRows "Mars/Base")).mp h ⟨⟨7⟩, ⟨1⟩, ⟨4⟩, ⟨2⟩⟩ (by decide) rfl
    revert hreaches
    decide

theorem not_always_sameKeys : ¬∀ (lib : ZoneLibrary) (rows rows' : SchedulerRows) (now : Int)
    (tenantId : Uuid), rows.Admitted → rows'.Admitted → rows.AgreeOn tenantId rows' →
      SameKeys lib now tenantId rows rows' := by
  intro h
  have hsame := h sampleZones sampleRows (shadowedRows "Mars/Base") (seconds 36000) ⟨1⟩
    (by decide) (by decide) (agreeOn_shadowedRows "Mars/Base") ⟨⟨2⟩, ⟨1⟩, ⟨5⟩, "Gate", "edge-1"⟩
    (by decide) rfl
  revert hsame
  decide

end ArgusServices

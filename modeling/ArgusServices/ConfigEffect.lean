import ArgusServices.ConfigStore
import ArgusServices.References

namespace ArgusServices

open Effect

/-- The foreign keys from one tenant-scoped row to another. -/
inductive ReferenceKind
  | cameraMarket | regionCamera | scheduleMode | scheduleMarket | lensMode | ruleMode
  | mappingRule | mappingRegion | evidenceCamera | evidenceRegion | decisionCamera
  | decisionRegion
  deriving DecidableEq, Repr

/-- The tenant of the row that a reference of the kind leads to. -/
def ConfigDb.owner (db : ConfigDb) : ReferenceKind → Uuid → Option Uuid
  | .cameraMarket | .scheduleMarket => db.marketOwner
  | .regionCamera | .evidenceCamera | .decisionCamera => db.cameraOwner
  | .scheduleMode | .lensMode | .ruleMode => db.contextModeOwner
  | .mappingRule => db.ruleOwner
  | .mappingRegion | .evidenceRegion | .decisionRegion => db.regionOwner

def ConfigDb.refers (db : ConfigDb) : ReferenceKind → Uuid → Uuid → Prop
  | .cameraMarket, t, id => ∃ c ∈ db.cameras, c.tenantId = t ∧ c.marketId = id
  | .regionCamera, t, id => ∃ r ∈ db.regions, r.tenantId = t ∧ r.cameraId = id
  | .scheduleMode, t, id => ∃ s ∈ db.schedules, s.tenantId = t ∧ s.contextModeId = id
  | .scheduleMarket, t, id => ∃ s ∈ db.schedules, s.tenantId = t ∧ s.marketId = some id
  | .lensMode, t, id => ∃ l ∈ db.lenses, l.tenantId = t ∧ l.contextModeId = id
  | .ruleMode, t, id => ∃ r ∈ db.rules, r.tenantId = t ∧ r.contextModeId = id
  | .mappingRule, t, id => ∃ m ∈ db.regionMappings, m.tenantId = t ∧ m.ruleId = id
  | .mappingRegion, t, id => ∃ m ∈ db.regionMappings, m.tenantId = t ∧ m.regionId = id
  | .evidenceCamera, _, _ | .evidenceRegion, _, _ | .decisionCamera, _, _
  | .decisionRegion, _, _ => False

def ConfigDb.references (db : ConfigDb) : References ReferenceKind Uuid Uuid :=
  ⟨db.refers, db.owner⟩

/-- The rows of one are the first rows of the other. -/
structure ConfigDb.Prefix (db db' : ConfigDb) : Prop where
  markets : db.markets <+: db'.markets
  cameras : db.cameras <+: db'.cameras
  regions : db.regions <+: db'.regions
  contextModes : db.contextModes <+: db'.contextModes
  schedules : db.schedules <+: db'.schedules
  lenses : db.lenses <+: db'.lenses
  rules : db.rules <+: db'.rules
  regionMappings : db.regionMappings <+: db'.regionMappings

/-- The market a schedule names, if it is there, is one of the tenant. -/
def AdminCall.Own (call : AdminCall) (db : ConfigDb) : Prop :=
  match call.body with
  | .createSchedule _ body => ∀ marketId ∈ body.marketId, ∀ owner ∈ db.marketOwner marketId,
      owner = call.tenantId
  | _ => True

variable {α : Type} {call : AdminCall} {db db' : ConfigDb} {s : ConfigSession}

theorem find?_map_append {β : Type} {xs ys : List α} {p : α → Bool} {f : α → β} {b : β}
    (h : xs <+: ys) (hx : (xs.find? p).map f = some b) : (ys.find? p).map f = some b := by
  obtain ⟨zs, rfl⟩ := h
  obtain ⟨x, hfound, hb⟩ := Option.map_eq_some_iff.mp hx
  rw [List.find?_append, hfound, Option.some_or, Option.map_some, hb]

theorem ConfigDb.Prefix.refl (db : ConfigDb) : db.Prefix db :=
  ⟨List.prefix_rfl, List.prefix_rfl, List.prefix_rfl, List.prefix_rfl, List.prefix_rfl,
    List.prefix_rfl, List.prefix_rfl, List.prefix_rfl⟩

theorem ConfigDb.Prefix.extends_to (h : db.Prefix db') :
    db.references.Extends db'.references where
  refers := by
    intro k t id hr
    cases k with
    | cameraMarket =>
      obtain ⟨c, hc, hrow⟩ := hr
      exact ⟨c, h.cameras.subset hc, hrow⟩
    | regionCamera =>
      obtain ⟨r, hmem, hrow⟩ := hr
      exact ⟨r, h.regions.subset hmem, hrow⟩
    | scheduleMode | scheduleMarket =>
      obtain ⟨s, hs, hrow⟩ := hr
      exact ⟨s, h.schedules.subset hs, hrow⟩
    | lensMode =>
      obtain ⟨l, hl, hrow⟩ := hr
      exact ⟨l, h.lenses.subset hl, hrow⟩
    | ruleMode =>
      obtain ⟨r, hmem, hrow⟩ := hr
      exact ⟨r, h.rules.subset hmem, hrow⟩
    | mappingRule | mappingRegion =>
      obtain ⟨m, hm, hrow⟩ := hr
      exact ⟨m, h.regionMappings.subset hm, hrow⟩
    | evidenceCamera | evidenceRegion | decisionCamera | decisionRegion => exact hr.elim
  owner := by
    intro k id t ho
    cases k with
    | cameraMarket | scheduleMarket => exact find?_map_append h.markets ho
    | regionCamera | evidenceCamera | decisionCamera => exact find?_map_append h.cameras ho
    | scheduleMode | lensMode | ruleMode => exact find?_map_append h.contextModes ho
    | mappingRule => exact find?_map_append h.rules ho
    | mappingRegion | evidenceRegion | decisionRegion => exact find?_map_append h.regions ho

theorem ConfigDb.Prefix.grows (h : db.Prefix db')
    (hadded : ∀ k t id, db'.refers k t id → db.refers k t id ∨ db'.owner k id = some t) :
    db.references.Grows db'.references :=
  ⟨h.extends_to, hadded⟩

theorem grows_market (m : Market) :
    db.references.Grows { db with markets := db.markets ++ [m] }.references := by
  refine ConfigDb.Prefix.grows { ConfigDb.Prefix.refl db with
    markets := List.prefix_append _ _ } ?_
  intro k t id hr
  cases k <;> exact Or.inl hr

theorem exists_mem_concat {xs : List α} {x : α} {P : α → Prop}
    (h : ∃ y ∈ xs ++ [x], P y) : (∃ y ∈ xs, P y) ∨ P x := by
  obtain ⟨y, hy, hp⟩ := h
  rcases List.mem_append.mp hy with hy | hy
  · exact Or.inl ⟨y, hy, hp⟩
  · exact Or.inr (List.mem_singleton.mp hy ▸ hp)

theorem grows_camera {c : Camera} (h : db.marketOwner c.marketId = some c.tenantId) :
    db.references.Grows { db with cameras := db.cameras ++ [c] }.references := by
  refine ConfigDb.Prefix.grows { ConfigDb.Prefix.refl db with
    cameras := List.prefix_append _ _ } ?_
  intro k t id hr
  cases k with
  | cameraMarket =>
    rcases exists_mem_concat hr with hr | ⟨rfl, rfl⟩
    · exact Or.inl hr
    · exact Or.inr h
  | _ => exact Or.inl hr

theorem grows_region {r : RegionOfInterest} (h : db.cameraOwner r.cameraId = some r.tenantId) :
    db.references.Grows { db with regions := db.regions ++ [r] }.references := by
  refine ConfigDb.Prefix.grows { ConfigDb.Prefix.refl db with
    regions := List.prefix_append _ _ } ?_
  intro k t id hr
  cases k with
  | regionCamera =>
    rcases exists_mem_concat hr with hr | ⟨rfl, rfl⟩
    · exact Or.inl hr
    · exact Or.inr h
  | _ => exact Or.inl hr

theorem grows_contextMode (m : ContextMode) :
    db.references.Grows { db with contextModes := db.contextModes ++ [m] }.references := by
  refine ConfigDb.Prefix.grows { ConfigDb.Prefix.refl db with
    contextModes := List.prefix_append _ _ } ?_
  intro k t id hr
  cases k <;> exact Or.inl hr

theorem schedules_extended (x : ContextModeSchedule) :
    db.Prefix { db with schedules := db.schedules ++ [x] } :=
  { ConfigDb.Prefix.refl db with schedules := List.prefix_append _ _ }

theorem grows_schedule {x : ContextModeSchedule}
    (h : db.contextModeOwner x.contextModeId = some x.tenantId)
    (hmarket : ∀ marketId ∈ x.marketId, db.marketOwner marketId = some x.tenantId) :
    db.references.Grows { db with schedules := db.schedules ++ [x] }.references := by
  refine (schedules_extended x).grows ?_
  intro k t id hr
  cases k with
  | scheduleMode =>
    rcases exists_mem_concat hr with hr | ⟨rfl, rfl⟩
    · exact Or.inl hr
    · exact Or.inr h
  | scheduleMarket =>
    rcases exists_mem_concat hr with hr | ⟨rfl, hid⟩
    · exact Or.inl hr
    · exact Or.inr (hmarket id hid)
  | _ => exact Or.inl hr

theorem grows_lens {l : StoredLens} (h : db.contextModeOwner l.contextModeId = some l.tenantId) :
    db.references.Grows { db with lenses := db.lenses ++ [l] }.references := by
  refine ConfigDb.Prefix.grows { ConfigDb.Prefix.refl db with
    lenses := List.prefix_append _ _ } ?_
  intro k t id hr
  cases k with
  | lensMode =>
    rcases exists_mem_concat hr with hr | ⟨rfl, rfl⟩
    · exact Or.inl hr
    · exact Or.inr h
  | _ => exact Or.inl hr

theorem grows_rule {r : StoredRule} (h : db.contextModeOwner r.contextModeId = some r.tenantId) :
    db.references.Grows { db with rules := db.rules ++ [r] }.references := by
  refine ConfigDb.Prefix.grows { ConfigDb.Prefix.refl db with
    rules := List.prefix_append _ _ } ?_
  intro k t id hr
  cases k with
  | ruleMode =>
    rcases exists_mem_concat hr with hr | ⟨rfl, rfl⟩
    · exact Or.inl hr
    · exact Or.inr h
  | _ => exact Or.inl hr

theorem grows_mapping {m : RuleRegionMapping} (hrule : db.ruleOwner m.ruleId = some m.tenantId)
    (hregion : db.regionOwner m.regionId = some m.tenantId) :
    db.references.Grows { db with regionMappings := db.regionMappings ++ [m] }.references := by
  refine ConfigDb.Prefix.grows { ConfigDb.Prefix.refl db with
    regionMappings := List.prefix_append _ _ } ?_
  intro k t id hr
  cases k with
  | mappingRule =>
    rcases exists_mem_concat hr with hr | ⟨rfl, rfl⟩
    · exact Or.inl hr
    · exact Or.inr hrule
  | mappingRegion =>
    rcases exists_mem_concat hr with hr | ⟨rfl, rfl⟩
    · exact Or.inl hr
    · exact Or.inr hregion
  | _ => exact Or.inl hr

theorem grows_notificationConfig (c : NotificationConfig) :
    db.references.Grows
      { db with notificationConfigs := db.notificationConfigs ++ [c] }.references := by
  refine ConfigDb.Prefix.grows { ConfigDb.Prefix.refl db with } ?_
  intro k t id hr
  cases k <;> exact Or.inl hr

theorem ends_requireOwn {owner : ConfigDb → Option Uuid} {e : Exn} :
    Ends (call.requireOwn owner e) s (fun _ t => t = s ∧ owner s.tx = some call.tenantId)
      fun _ _ => True := by
  unfold AdminCall.requireOwn
  simp only [ends_bind, ends_get]
  split
  next => trivial
  next tenantId hfound =>
    obtain ⟨howner, -⟩ := Option.filter_eq_some_iff.mp hfound
    rw [ends_raiseWhen]
    refine ⟨fun _ => trivial, ?_⟩
    intro hsame
    simp only [ne_eq, decide_not, Bool.not_eq_false', decide_eq_true_eq] at hsame
    exact ⟨rfl, hsame ▸ howner⟩

theorem ends_insert {table : String} {ids : ConfigDb → List Uuid} {add : ConfigDb → ConfigDb} :
    Ends (call.insert table ids add) s
      (fun _ t => call.newId ∉ ids s.tx ∧ t = { s with tx := add s.tx }) fun _ _ => True := by
  unfold AdminCall.insert
  simp only [ends_bind, ends_raiseWhen, ends_get, implies_true, true_and]
  intro _ hfree _
  exact ⟨of_decide_eq_false hfree, rfl⟩

/-- What every handler does to the tables when it returns. -/
def Handled (x : ConfigProc α) (s : ConfigSession) : Prop :=
  Ends x s (fun _ t => s.tx.references.Grows t.tx.references) fun _ _ => True

theorem handled_insert {table : String} {ids : ConfigDb → List Uuid} {add : ConfigDb → ConfigDb}
    {row : α} (h : s.tx.references.Grows (add s.tx).references) :
    Handled (do call.insert table ids add; pure row) s := by
  unfold Handled
  refine ends_insert.bind ?_
  intro _ t ht
  obtain ⟨-, rfl⟩ := ht
  exact h

theorem handled_requireOwn {owner : ConfigDb → Option Uuid} {e : Exn} {f : Unit → ConfigProc α}
    (h : owner s.tx = some call.tenantId → Handled (f ()) s) :
    Handled (call.requireOwn owner e >>= f) s := by
  refine ends_requireOwn.bind ?_
  intro _ t ht
  obtain ⟨rfl, howner⟩ := ht
  exact h howner

theorem handled_createMarket (body : CreateMarketRequest) :
    Handled (createMarket call body) s :=
  handled_insert (grows_market _)

theorem handled_createCamera (marketId : Uuid) (body : CreateCameraRequest) :
    Handled (createCamera call marketId body) s := by
  apply handled_requireOwn
  intro howner
  simp only [Handled, ends_bind, ends_get, ends_raiseWhen, implies_true, true_and]
  intro _
  rw [← ends_bind]
  exact handled_insert (grows_camera howner)

theorem handled_createRegion (cameraId : Uuid) (body : CreateRegionRequest) :
    Handled (createRegion call cameraId body) s := by
  apply handled_requireOwn
  intro howner
  exact handled_insert (grows_region howner)

theorem handled_createContextMode (body : CreateContextModeRequest) :
    Handled (createContextMode call body) s :=
  handled_insert (grows_contextMode _)

theorem handled_createLens (modeId : Uuid) (body : CreateLensRequest) :
    Handled (createLens call modeId body) s := by
  apply handled_requireOwn
  intro howner
  exact handled_insert (grows_lens howner)

/-- The row of `create_schedule`, which may name the market of another tenant. -/
def AdminCall.schedule (call : AdminCall) (modeId : Uuid) (body : CreateScheduleRequest) :
    ContextModeSchedule where
  id := call.newId
  tenantId := call.tenantId
  contextModeId := modeId
  dayOfWeek := body.dayOfWeek
  startTime := body.startTime
  endTime := body.endTime
  marketId := body.marketId

theorem ends_createSchedule (modeId : Uuid) (body : CreateScheduleRequest) :
    Ends (createSchedule call modeId body) s
      (fun _ t => s.tx.contextModeOwner modeId = some call.tenantId ∧
        (∀ marketId ∈ body.marketId, (s.tx.marketOwner marketId).isSome) ∧
        t = { s with tx := { s.tx with
          schedules := s.tx.schedules ++ [call.schedule modeId body] } })
      fun _ _ => True := by
  unfold createSchedule
  refine ends_requireOwn.bind ?_
  intro _ t ht
  obtain ⟨rfl, howner⟩ := ht
  simp only [ends_bind, ends_get, ends_raiseWhen, implies_true, true_and]
  intro hmarket
  refine ends_insert.mono ?_ (fun _ _ h => h)
  intro _ u hu
  obtain ⟨-, rfl⟩ := hu
  refine ⟨howner, ?_, rfl⟩
  intro marketId hid
  simpa [Option.mem_def.mp hid, Option.isSome_iff_ne_none] using hmarket

theorem handled_createSchedule {modeId : Uuid} {body : CreateScheduleRequest}
    (hown : ∀ marketId ∈ body.marketId, ∀ owner ∈ s.tx.marketOwner marketId,
      owner = call.tenantId) : Handled (createSchedule call modeId body) s := by
  refine (ends_createSchedule modeId body).mono ?_ (fun _ _ h => h)
  intro _ t ht
  obtain ⟨hmode, hmarket, rfl⟩ := ht
  refine grows_schedule hmode ?_
  intro marketId hid
  obtain ⟨owner, howner⟩ := Option.isSome_iff_exists.mp (hmarket marketId hid)
  rw [howner, hown marketId hid owner howner]
  rfl

theorem ends_createMapping (regionId : Uuid) (hrule : s.tx.ruleOwner call.newId = some call.tenantId) :
    Ends (createMapping call regionId) s
      (fun _ t => t.tx.ruleOwner call.newId = some call.tenantId ∧
        s.tx.references.Grows t.tx.references)
      fun _ _ => True := by
  unfold createMapping
  refine ends_requireOwn.bind ?_
  intro _ t ht
  obtain ⟨rfl, hregion⟩ := ht
  simp only [ends_bind, ends_get, ends_raiseWhen, implies_true, true_and]
  intro _
  exact ⟨hrule, grows_mapping hrule hregion⟩

/-- The loop: the rule stays where it is, and each region is one of its tenant. -/
theorem ends_createMappings (regionIds : List Uuid)
    (hrule : s.tx.ruleOwner call.newId = some call.tenantId) :
    Ends (forM regionIds (createMapping call)) s
      (fun _ t => s.tx.references.Grows t.tx.references) fun _ _ => True := by
  induction regionIds generalizing s with
  | nil => exact References.Grows.refl _
  | cons regionId regionIds ih =>
    rw [List.forM_cons]
    refine (ends_createMapping regionId hrule).bind ?_
    intro _ t ht
    obtain ⟨hrule', hgrows⟩ := ht
    exact (ih hrule').mono (fun _ _ h => hgrows.trans h) (fun _ _ h => h)

theorem handled_createRule (body : CreateRuleRequest) : Handled (createRule call body) s := by
  apply handled_requireOwn
  intro howner
  refine ends_insert.bind ?_
  intro _ t ht
  obtain ⟨hfree, rfl⟩ := ht
  have hnone : (s.tx.rules.find? fun r => r.id = call.newId) = none := by
    rw [List.find?_eq_none]
    intro r hr hid
    exact hfree (List.mem_map.mpr ⟨r, hr, of_decide_eq_true hid⟩)
  refine (ends_createMappings body.regionIds ?_).bind ?_
  · simp [ConfigDb.ruleOwner, List.find?_append, hnone]
  · intro _ u hu
    exact (grows_rule howner).trans hu

theorem handled_createNotificationConfig (body : CreateNotificationConfigRequest) :
    Handled (createNotificationConfig call body) s :=
  handled_insert (grows_notificationConfig _)

theorem Handled.discard {x : ConfigProc α} (h : Handled x s) : Handled (discard x) s := by
  unfold Handled at h ⊢
  refine Ends.bind h ?_
  intro _ t ht
  exact ht

theorem handled_handle (hown : call.Own s.tx) : Handled call.handle s := by
  unfold AdminCall.handle
  unfold AdminCall.Own at hown
  cases hbody : call.body with
  | createMarket body => exact (handled_createMarket body).discard
  | createCamera marketId body => exact (handled_createCamera marketId body).discard
  | createRegion cameraId body => exact (handled_createRegion cameraId body).discard
  | createContextMode body => exact (handled_createContextMode body).discard
  | createSchedule modeId body =>
    rw [hbody] at hown
    exact (handled_createSchedule hown).discard
  | createLens modeId body => exact (handled_createLens modeId body).discard
  | createRule body => exact (handled_createRule body).discard
  | createNotificationConfig body => exact (handled_createNotificationConfig body).discard

/-- The tables after a request are those before it, or those its handler has left. -/
theorem serve_cases (call : AdminCall) (db : ConfigDb) :
    (call.serve db).2 = db ∨ ∃ tenant role s, exec call.handle ⟨db, tenant, role⟩ = (.ok (), s) ∧
      (call.serve db).2 = s.tx := by
  unfold AdminCall.serve
  split
  next => exact Or.inl rfl
  next tenant role _ =>
    split
    next => exact Or.inl rfl
    next s hexec =>
      cases call.commit.executed with
      | false => exact Or.inl rfl
      | true => exact Or.inr ⟨tenant, role, s, hexec, rfl⟩

/-- A request that names no market of another tenant keeps every reference within its tenant. -/
theorem serve_grows (hown : call.Own db) :
    db.references.Grows (call.serve db).2.references := by
  rcases serve_cases call db with hsame | ⟨tenant, role, s, hexec, hs⟩
  · rw [hsame]
    exact References.Grows.refl _
  · rw [hs]
    exact (@handled_handle call ⟨db, tenant, role⟩ hown).ok hexec

theorem serve_schedule {modeId : Uuid} {body : CreateScheduleRequest}
    (hbody : call.body = .createSchedule modeId body) (db : ConfigDb) :
    (call.serve db).2 = db ∨
      (call.serve db).2 = { db with schedules := db.schedules ++ [call.schedule modeId body] } := by
  rcases serve_cases call db with hsame | ⟨tenant, role, s, hexec, hs⟩
  · exact Or.inl hsame
  · have hends : Ends call.handle ⟨db, tenant, role⟩
        (fun _ t => t.tx = { db with schedules := db.schedules ++ [call.schedule modeId body] })
        fun _ _ => True := by
      unfold AdminCall.handle
      rw [hbody]
      refine Ends.bind (ends_createSchedule modeId body) ?_
      intro _ t ht
      obtain ⟨-, -, rfl⟩ := ht
      rfl
    exact Or.inr (hs.trans (hends.ok hexec))

end ArgusServices

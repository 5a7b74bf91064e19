import ArgusServices.Analyzer
import ArgusServices.TenantClosed

namespace ArgusServices

open Effect Transition

/-- The lenses of a mode, in the order they were created. -/
def ConfigDb.lensesOf (db : ConfigDb) (modeId : Uuid) : List StoredLens :=
  db.lenses.filter fun l => l.contextModeId = modeId

/-- The query for one lens of the highest version may return this one. -/
def ConfigDb.MaySelect (db : ConfigDb) (modeId tenantId : Uuid) (lens : StoredLens) : Prop :=
  (lens ∈ db.lensesOf modeId ∧ lens.tenantId = tenantId) ∧
    ∀ l ∈ db.lensesOf modeId, l.tenantId = tenantId → l.version ≤ lens.version

/-- Each lens of the mode has a higher version than those before it, and whichever lens the query
returns is the last one. -/
structure ConfigDb.NewestUsed (db : ConfigDb) (modeId : Uuid) : Prop where
  versions : ((db.lensesOf modeId).map fun l => l.version).Pairwise (· < ·)
  selected : ∀ tenantId lens, db.MaySelect modeId tenantId lens →
    (db.lensesOf modeId).getLast? = some lens

/-- Nothing refuses the row of the request, in a table whose ids are these. -/
structure AdminCall.Inserts (call : AdminCall) (db : ConfigDb) (ids : List Uuid) : Prop where
  flush : call.flushRaises = false
  fresh : call.newId ∉ ids
  tenant : (db.tenants.find call.tenantId).isSome = true

/-- The request creates a lens of the mode: it is let in, and nothing refuses its row. -/
structure AdminCall.CreatesLens (call : AdminCall) (db : ConfigDb) (modeId : Uuid) : Prop where
  body : ∃ body, call.body = .createLens modeId body
  context : call.context.isOk = true
  own : db.contextModeOwner modeId = some call.tenantId
  inserts : call.Inserts db (db.lenses.map StoredLens.id)
  commit : call.commit.executed = true

/-- Requests one after the other. -/
def Administers (db : ConfigDb) (call : AdminCall) (db' : ConfigDb) : Prop :=
  db' = (call.serve db).2

/-- No lens is created for a mode that has one. -/
def NoSecondLens (modeId : Uuid) (db : ConfigDb) (call : AdminCall) : Prop :=
  call.CreatesLens db modeId → db.lensesOf modeId = []

/-- Every lens of the mode has the version a new row gets. -/
def ConfigDb.AllFirst (db : ConfigDb) (modeId : Uuid) : Prop :=
  ∀ l ∈ db.lensesOf modeId, l.version = 1

variable {α : Type} {call : AdminCall} {db db' : ConfigDb} {modeId tenantId : Uuid}
  {s : ConfigSession}

/-- Going through the lenses keeps the best of those seen so far. -/
theorem foldl_newerLens (lenses : List Lens) (best : Lens) :
    ∃ l, lenses.foldl newerLens (some best) = some l ∧ l ∈ best :: lenses ∧
      ∀ x ∈ best :: lenses, x.version ≤ l.version := by
  induction lenses generalizing best with
  | nil => exact ⟨best, rfl, List.mem_cons_self, by simp⟩
  | cons lens lenses ih =>
    rw [List.foldl_cons]
    by_cases hnewer : best.version < lens.version
    · obtain ⟨l, hfold, hmem, hmax⟩ := ih lens
      refine ⟨l, ?_, List.mem_cons_of_mem _ hmem, ?_⟩
      · simpa [newerLens, hnewer] using hfold
      · intro x hx
        rcases List.mem_cons.mp hx with rfl | hx
        · exact hnewer.le.trans (hmax lens List.mem_cons_self)
        · exact hmax x hx
    · obtain ⟨l, hfold, hmem, hmax⟩ := ih best
      refine ⟨l, ?_, ?_, ?_⟩
      · simpa [newerLens, hnewer] using hfold
      · rcases List.mem_cons.mp hmem with rfl | hmem
        · exact List.mem_cons_self
        · exact List.mem_cons_of_mem _ (List.mem_cons_of_mem _ hmem)
      · intro x hx
        rcases List.mem_cons.mp hx with rfl | hx
        · exact hmax x List.mem_cons_self
        · rcases List.mem_cons.mp hx with rfl | hx
          · exact (Int.not_lt.mp hnewer).trans (hmax best List.mem_cons_self)
          · exact hmax x (List.mem_cons_of_mem _ hx)

/-- The lens an analysis picks is one that its query may return. -/
theorem selectLens_maySelect {lens : Lens}
    (h : selectLens (db.lenses.map StoredLens.toLens) modeId tenantId = some lens) :
    ∃ l, db.MaySelect modeId tenantId l ∧ l.toLens = lens := by
  unfold selectLens at h
  have hof : ∀ x : Lens, x ∈ ((db.lenses.map StoredLens.toLens).filter fun l =>
      l.contextModeId = modeId ∧ l.tenantId = tenantId) ↔
      ∃ l ∈ db.lensesOf modeId, l.tenantId = tenantId ∧ l.toLens = x := by
    intro x
    simp only [ConfigDb.lensesOf, List.mem_filter, List.mem_map, decide_eq_true_eq]
    constructor
    · intro hx
      obtain ⟨⟨l, hl, rfl⟩, hmode, htenant⟩ := hx
      exact ⟨l, ⟨hl, hmode⟩, htenant, rfl⟩
    · intro hx
      obtain ⟨l, ⟨hl, hmode⟩, htenant, rfl⟩ := hx
      exact ⟨⟨l, hl, rfl⟩, hmode, htenant⟩
  revert h hof
  generalize (db.lenses.map StoredLens.toLens).filter (fun l =>
    l.contextModeId = modeId ∧ l.tenantId = tenantId) = candidates
  intro h hof
  cases candidates with
  | nil => cases h
  | cons first rest =>
    obtain ⟨l, hfold, hmem, hmax⟩ := foldl_newerLens rest first
    have hlens : l = lens := Option.some.inj (hfold.symm.trans h)
    subst hlens
    obtain ⟨stored, hstored, htenant, rfl⟩ := (hof l).mp hmem
    refine ⟨stored, ⟨⟨hstored, htenant⟩, ?_⟩, rfl⟩
    intro x hx hxtenant
    exact hmax x.toLens ((hof _).mpr ⟨x, hx, hxtenant, rfl⟩)

theorem throwWhen_eq_ok {b : Bool} {e : Exn} {u : Unit} : throwWhen b e = .ok u ↔ b = false := by
  cases b with
  | false => exact ⟨fun _ => rfl, fun _ => rfl⟩
  | true =>
    constructor
    · intro h
      cases h
    · intro h
      cases h

theorem AdminCall.context_sees {tenant : Option Uuid} {role : UserRole}
    (h : call.context = .ok (tenant, role)) :
    (ConfigSession.mk db tenant role).sees call.tenantId = true := by
  unfold AdminCall.context at h
  simp only [bind_eq_ok, throwWhen_eq_ok, exists_const] at h
  obtain ⟨haccess, -, hsession⟩ := h
  unfold ConfigSession.sees
  simp only [Bool.or_eq_true, decide_eq_true_eq]
  left
  by_cases hrole : call.auth.role = .rootAdmin
  · rw [if_pos hrole] at hsession
    cases hsession
    rfl
  · rw [if_neg hrole] at hsession
    cases hsession
    simpa [hrole] using haccess

theorem ends_requireOwn_iff {owner : ConfigDb → Option Uuid} {e : Exn}
    (hsees : s.sees call.tenantId = true) :
    Ends (call.requireOwn owner e) s (fun _ t => t = s ∧ owner s.tx = some call.tenantId)
      fun _ _ => owner s.tx ≠ some call.tenantId := by
  unfold AdminCall.requireOwn
  simp only [ends_bind, ends_get]
  split
  next hnone =>
    intro howner
    rw [howner, Option.filter_some, if_pos hsees] at hnone
    cases hnone
  next tenantId hfound =>
    obtain ⟨howner, -⟩ := Option.filter_eq_some_iff.mp hfound
    rw [ends_raiseWhen, howner]
    simp

theorem ends_insert_iff {table : String} {ids : ConfigDb → List Uuid} {add : ConfigDb → ConfigDb} :
    Ends (call.insert table ids add) s
      (fun _ t => t = { s with tx := add s.tx } ∧ call.Inserts s.tx (ids s.tx))
      fun _ _ => ¬call.Inserts s.tx (ids s.tx) := by
  unfold AdminCall.insert
  simp only [ends_bind, ends_raiseWhen, ends_get]
  refine ⟨?_, ?_⟩
  · intro hflush hinserts
    rw [hinserts.flush] at hflush
    cases hflush
  · intro hflush
    refine ⟨?_, ?_⟩
    · intro htaken hinserts
      exact hinserts.fresh (of_decide_eq_true htaken)
    · intro hfresh
      refine ⟨?_, ?_⟩
      · intro hnone hinserts
        have htenant := hinserts.tenant
        rw [Option.isNone_iff_eq_none.mp hnone] at htenant
        cases htenant
      · intro hsome
        exact ⟨rfl, hflush, of_decide_eq_false hfresh, by simpa using hsome⟩

/-- A request for a lens adds one of version 1, unless it is refused. -/
theorem ends_createLens {body : CreateLensRequest} (hsees : s.sees call.tenantId = true) :
    Ends (createLens call modeId body) s
      (fun lens t => (lens.version = 1 ∧ lens.contextModeId = modeId ∧
          t = { s with tx := { s.tx with lenses := s.tx.lenses ++ [lens] } }) ∧
        s.tx.contextModeOwner modeId = some call.tenantId ∧
          call.Inserts s.tx (s.tx.lenses.map StoredLens.id))
      fun _ _ => ¬(s.tx.contextModeOwner modeId = some call.tenantId ∧
        call.Inserts s.tx (s.tx.lenses.map StoredLens.id)) := by
  unfold createLens
  refine ends_bind.mpr ((ends_requireOwn_iff hsees).mono ?_ ?_)
  · intro _ t ht
    obtain ⟨rfl, howner⟩ := ht
    refine ends_bind.mpr (ends_insert_iff.mono ?_ ?_)
    · intro _ u hu
      obtain ⟨rfl, hinserts⟩ := hu
      exact ⟨⟨rfl, rfl, rfl⟩, howner, hinserts⟩
    · intro _ _ hrefused hcreates
      exact hrefused hcreates.2
  · intro _ _ hother hcreates
    exact hother hcreates.1

theorem keeps_requireOwn {τ : Type} {f : ConfigSession → τ} {owner : ConfigDb → Option Uuid}
    {e : Exn} : Keeps f (call.requireOwn owner e) := by
  unfold AdminCall.requireOwn
  refine keeps_get.bind fun s => ?_
  split
  · exact keeps_throw _
  · exact keeps_raiseWhen _ _

theorem keeps_insert {table : String} {ids : ConfigDb → List Uuid} {add : ConfigDb → ConfigDb}
    (h : ∀ db, (add db).lenses = db.lenses) :
    Keeps (fun s => s.tx.lenses) (call.insert table ids add) := by
  intro s
  unfold AdminCall.insert
  simp only [ends_bind, ends_raiseWhen, ends_get, implies_true, true_and]
  intro _ _ _
  exact h s.tx

theorem keeps_discard {τ : Type} {f : ConfigSession → τ} {x : ConfigProc α} (h : Keeps f x) :
    Keeps f (discard x) :=
  h.bind fun _ => keeps_pure _

theorem keeps_createMapping (regionId : Uuid) :
    Keeps (fun s => s.tx.lenses) (createMapping call regionId) := by
  refine keeps_requireOwn.bind fun _ => ?_
  intro s
  simp only [ends_bind, ends_get, ends_raiseWhen, implies_true, true_and]
  intro _
  rfl

theorem keeps_createMappings (regionIds : List Uuid) :
    Keeps (fun s => s.tx.lenses) (forM regionIds (createMapping call)) := by
  induction regionIds with
  | nil => exact keeps_pure _
  | cons regionId regionIds ih =>
    rw [List.forM_cons]
    exact (keeps_createMapping regionId).bind fun _ => ih

theorem keeps_insert_row {row : α} {table : String} {ids : ConfigDb → List Uuid}
    {add : ConfigDb → ConfigDb} (h : ∀ db, (add db).lenses = db.lenses) :
    Keeps (fun s => s.tx.lenses) (do call.insert table ids add; pure row) :=
  (keeps_insert h).bind fun _ => keeps_pure row

theorem keeps_createCamera (marketId : Uuid) (body : CreateCameraRequest) :
    Keeps (fun s => s.tx.lenses) (createCamera call marketId body) := by
  refine keeps_requireOwn.bind fun _ => keeps_get.bind fun _ => ?_
  refine (keeps_raiseWhen _ _).bind fun _ => ?_
  exact keeps_insert_row fun _ => rfl

theorem keeps_createSchedule (modeId : Uuid) (body : CreateScheduleRequest) :
    Keeps (fun s => s.tx.lenses) (createSchedule call modeId body) := by
  refine keeps_requireOwn.bind fun _ => keeps_get.bind fun _ => ?_
  refine (keeps_raiseWhen _ _).bind fun _ => ?_
  exact keeps_insert_row fun _ => rfl

theorem keeps_createRule (body : CreateRuleRequest) :
    Keeps (fun s => s.tx.lenses) (createRule call body) := by
  refine keeps_requireOwn.bind fun _ => ?_
  refine Keeps.bind (keeps_insert ?_) fun _ => ?_
  · intro _
    rfl
  · exact (keeps_createMappings body.regionIds).bind fun _ => keeps_pure _

/-- A request for anything else leaves the lenses. -/
theorem keeps_lenses (hbody : ∀ modeId body, call.body ≠ .createLens modeId body) :
    Keeps (fun s => s.tx.lenses) call.handle := by
  unfold AdminCall.handle
  cases hcall : call.body with
  | createMarket body => exact keeps_discard (keeps_insert_row fun _ => rfl)
  | createCamera marketId body => exact keeps_discard (keeps_createCamera marketId body)
  | createRegion cameraId body =>
    exact keeps_discard (keeps_requireOwn.bind fun _ => keeps_insert_row fun _ => rfl)
  | createContextMode body => exact keeps_discard (keeps_insert_row fun _ => rfl)
  | createSchedule modeId body => exact keeps_discard (keeps_createSchedule modeId body)
  | createLens modeId body => exact absurd hcall (hbody modeId body)
  | createRule body => exact keeps_discard (keeps_createRule body)
  | createNotificationConfig body => exact keeps_discard (keeps_insert_row fun _ => rfl)

/-- A request that creates a lens of the mode adds one of version 1. -/
theorem AdminCall.CreatesLens.serve (h : call.CreatesLens db modeId) :
    ∃ lens : StoredLens, lens.version = 1 ∧
      (call.serve db).2.lensesOf modeId = db.lensesOf modeId ++ [lens] := by
  obtain ⟨⟨body, hbody⟩, hcontext, hown, hinserts, hcommit⟩ := h
  unfold AdminCall.serve
  split
  next e he =>
    rw [he] at hcontext
    cases hcontext
  next tenant role he =>
    have hends := @ends_createLens call modeId ⟨db, tenant, role⟩ body
      (AdminCall.context_sees he)
    have hhandle : call.handle = discard (createLens call modeId body) := by
      unfold AdminCall.handle
      rw [hbody]
    have hdone : Ends call.handle ⟨db, tenant, role⟩ (fun _ t => ∃ lens : StoredLens,
        lens.version = 1 ∧ t.tx.lensesOf modeId = db.lensesOf modeId ++ [lens])
        fun _ _ => False := by
      rw [hhandle]
      refine ends_bind.mpr (hends.mono ?_ ?_)
      · intro lens t ht
        obtain ⟨⟨hversion, hmode, rfl⟩, -⟩ := ht
        refine ⟨lens, hversion, ?_⟩
        simp [ConfigDb.lensesOf, List.filter_append, hmode]
      · intro _ _ hrefused
        exact hrefused ⟨hown, hinserts⟩
    split
    next hexec => exact (hdone.error hexec).elim
    next s hexec =>
      rw [hcommit, if_pos rfl]
      exact hdone.ok hexec

theorem serve_lensesOf (h : ¬call.CreatesLens db modeId) :
    (call.serve db).2.lensesOf modeId = db.lensesOf modeId := by
  by_cases hbody : ∃ mode body, call.body = .createLens mode body
  · obtain ⟨mode, body, hbody⟩ := hbody
    unfold AdminCall.serve
    split
    next => rfl
    next tenant role he =>
      have hends := @ends_createLens call mode ⟨db, tenant, role⟩ body
        (AdminCall.context_sees he)
      have hdone : Ends call.handle ⟨db, tenant, role⟩ (fun _ t => call.commit.executed = true →
          t.tx.lensesOf modeId = db.lensesOf modeId) fun _ _ => True := by
        unfold AdminCall.handle
        rw [hbody]
        refine ends_bind.mpr (hends.mono ?_ fun _ _ _ => trivial)
        intro lens t ht hcommit
        obtain ⟨⟨-, hmode, rfl⟩, howner, hinserts⟩ := ht
        have hother : mode ≠ modeId := by
          rintro rfl
          exact h ⟨⟨body, hbody⟩, by rw [he]; rfl, howner, hinserts, hcommit⟩
        simp [ConfigDb.lensesOf, List.filter_append, hmode, hother]
      split
      next => rfl
      next s hexec =>
        change (if call.commit.executed = true then s.tx else db).lensesOf modeId = _
        by_cases hcommit : call.commit.executed = true
        · rw [if_pos hcommit]
          exact hdone.ok hexec hcommit
        · rw [if_neg hcommit]
  · rcases serve_cases call db with hsame | ⟨tenant, role, s, hexec, hs⟩
    · rw [hsame]
    · have hkept : s.tx.lenses = db.lenses :=
        (keeps_lenses (fun mode body hcall => hbody ⟨mode, body, hcall⟩) ⟨db, tenant, role⟩).ok hexec
      rw [hs]
      unfold ConfigDb.lensesOf
      rw [hkept]

theorem not_newestUsed (hfirst : db.AllFirst modeId) (htwo : 2 ≤ (db.lensesOf modeId).length) :
    ¬db.NewestUsed modeId := by
  intro h
  have hsorted := h.versions
  revert hfirst htwo hsorted
  unfold ConfigDb.AllFirst
  generalize db.lensesOf modeId = lenses
  intro hfirst htwo hsorted
  match lenses, htwo with
  | a :: b :: rest, _ =>
    rw [List.map_cons, List.map_cons, List.pairwise_cons] at hsorted
    have hlt := hsorted.1 b.version List.mem_cons_self
    rw [hfirst a (by simp), hfirst b (by simp)] at hlt
    exact absurd hlt (Int.lt_irrefl 1)

theorem newestUsed_of_single (h : (db.lensesOf modeId).length ≤ 1) : db.NewestUsed modeId := by
  match hlenses : db.lensesOf modeId, h with
  | [], _ =>
    constructor
    · rw [hlenses]
      exact List.Pairwise.nil
    · intro tenantId lens hselect
      have hmem := hselect.1.1
      rw [hlenses] at hmem
      cases hmem
  | [l], _ =>
    constructor
    · rw [hlenses]
      exact List.pairwise_singleton _ _
    · intro tenantId lens hselect
      have hmem := hselect.1.1
      rw [hlenses] at hmem ⊢
      rw [List.mem_singleton.mp hmem]
      rfl

/-- A request adds one lens of version 1 to the mode, or none. -/
theorem Administers.lenses (hstep : Administers db call db') (hfirst : db.AllFirst modeId) :
    db'.AllFirst modeId ∧
      (call.CreatesLens db modeId ∧
          (db'.lensesOf modeId).length = (db.lensesOf modeId).length + 1 ∨
        ¬call.CreatesLens db modeId ∧
          (db'.lensesOf modeId).length = (db.lensesOf modeId).length) := by
  obtain rfl := hstep
  unfold ConfigDb.AllFirst at hfirst ⊢
  by_cases hcreates : call.CreatesLens db modeId
  · obtain ⟨lens, hversion, hadded⟩ := hcreates.serve
    rw [hadded]
    refine ⟨?_, Or.inl ⟨hcreates, List.length_append⟩⟩
    intro l hl
    rcases List.mem_append.mp hl with hl | hl
    · exact hfirst l hl
    · rw [List.mem_singleton.mp hl]
      exact hversion
  · rw [serve_lensesOf hcreates]
    exact ⟨hfirst, Or.inr ⟨hcreates, rfl⟩⟩

/-- In any run of requests on a mode without a lens, the newest lens is the one used exactly as
long as the mode does not get a second one: every lens has version 1. -/
theorem newestUsed_iff_noSecondLens {calls : List AdminCall} (hnone : db.lensesOf modeId = [])
    (h : Run Administers db calls db') :
    db'.NewestUsed modeId ↔ Run (Where (NoSecondLens modeId) Administers) db calls db' := by
  have hstart : db.AllFirst modeId ∧ (db.lensesOf modeId).length ≤ 1 := by
    unfold ConfigDb.AllFirst
    rw [hnone]
    exact ⟨by simp, by simp⟩
  refine Run.goal_iff_where (fun db => db.AllFirst modeId ∧ (db.lensesOf modeId).length ≤ 1)
    (fun db => db.NewestUsed modeId)
    (fun db => db.AllFirst modeId ∧ 2 ≤ (db.lensesOf modeId).length) ?_ ?_ ?_ h hstart
    (fun hi => newestUsed_of_single hi.2) (fun hl => not_newestUsed hl.1 hl.2)
  · intro db call db' hi hguard hstep
    obtain ⟨hfirst, ⟨hcreates, hlength⟩ | ⟨-, hlength⟩⟩ := hstep.lenses hi.1
    · rw [hguard hcreates] at hlength
      exact ⟨hfirst, hlength.le⟩
    · exact ⟨hfirst, hlength ▸ hi.2⟩
  · intro db call db' hi hguard hstep
    unfold NoSecondLens at hguard
    obtain ⟨hcreates, hsome⟩ := Classical.not_imp.mp hguard
    have hpos : 0 < (db.lensesOf modeId).length := List.length_pos_iff.mpr hsome
    obtain ⟨hfirst, ⟨-, hlength⟩ | ⟨hnot, -⟩⟩ := hstep.lenses hi.1
    · exact ⟨hfirst, by omega⟩
    · exact absurd hcreates hnot
  · intro db call db' hlost hstep
    obtain ⟨hfirst, ⟨-, hlength⟩ | ⟨-, hlength⟩⟩ := hstep.lenses hlost.1
    · exact ⟨hfirst, by omega⟩
    · exact ⟨hfirst, by omega⟩

/-- A mode of tenant 1, and lenses created for it. -/
def lensCalls (ids : List (BitVec 128)) : List AdminCall :=
  adminCall 1 4 (.createContextMode ⟨"Opening hours", none⟩) ::
    ids.map fun id => adminCall 1 id (.createLens ⟨4⟩ ⟨"Gate", "Look at the gate.", []⟩)

def afterLenses (ids : List (BitVec 128)) : ConfigDb :=
  (lensCalls ids).foldl (fun db call => (call.serve db).2) sampleSystem.config

theorem run_administers (db : ConfigDb) (calls : List AdminCall) :
    Run Administers db calls (calls.foldl (fun db call => (call.serve db).2) db) := by
  induction calls generalizing db with
  | nil => exact .nil db
  | cons call calls ih => exact .cons rfl (ih _)

theorem run_lensCalls (ids : List (BitVec 128)) :
    Run Administers sampleSystem.config (lensCalls ids) (afterLenses ids) :=
  run_administers _ _

theorem versions_afterLenses : ((afterLenses [6, 7]).lensesOf ⟨4⟩).map (fun l => l.version) =
    [1, 1] := by
  decide +kernel

theorem not_newestUsed_afterLenses : ¬(afterLenses [6, 7]).NewestUsed ⟨4⟩ := by
  intro hused
  have hsorted := hused.versions
  rw [versions_afterLenses] at hsorted
  revert hsorted
  decide

theorem not_always_newestUsed :
    ¬∀ (modeId : Uuid) (db db' : ConfigDb) (calls : List AdminCall), db.lensesOf modeId = [] →
      Run Administers db calls db' → db'.NewestUsed modeId := by
  intro h
  exact not_newestUsed_afterLenses (h ⟨4⟩ _ _ _ rfl (run_lensCalls [6, 7]))

/-- One lens is the one used; a second one ends that. -/
theorem newestUsed_iff_noSecondLens_sample :
    Run (Where (NoSecondLens ⟨4⟩) Administers) sampleSystem.config (lensCalls [6])
        (afterLenses [6]) ∧
      ¬Run (Where (NoSecondLens ⟨4⟩) Administers) sampleSystem.config (lensCalls [6, 7])
        (afterLenses [6, 7]) := by
  constructor
  · exact (newestUsed_iff_noSecondLens rfl (run_lensCalls [6])).mp
      (newestUsed_of_single (by decide +kernel))
  · intro h
    exact not_newestUsed_afterLenses
      ((newestUsed_iff_noSecondLens rfl (run_lensCalls [6, 7])).mpr h)

end ArgusServices

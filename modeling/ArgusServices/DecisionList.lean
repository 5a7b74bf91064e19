import ArgusServices.DetailView
import ArgusServices.Recency
import ArgusServices.StaleResolution
import ArgusServices.TenantView

namespace ArgusServices

open Effect Recency Transition

def DecisionState.ofValue (text : String) : Option DecisionState :=
  [.normal, .weird, .warning, .resolvedTruePositive, .resolvedFalsePositive,
    .resolvedFalseNegative].find? fun s => s.value = text

/-- The WHERE clause that `state` stands for; `repr` writes a text as Python does. -/
def stateFilter (repr : String → String) (state : Option String) :
    Except Exn (DecisionState → Bool) :=
  match truthy state with
  | none => .ok fun _ => true
  | some text =>
    if text = "resolved" then .ok DecisionState.resolved
    else
      match DecisionState.ofValue text with
      | some wanted => .ok fun s => s = wanted
      | none => .error (.valueError (repr text ++ " is not a valid DecisionState"))

/-- The rows of the table that the policies show, as a scan meets their ids. -/
def Session.visibleDecisions (s : Session) (scan : List Uuid) : List Decision :=
  (scan.filterMap s.tx.decisions.find).filter fun d => s.sees d.tenantId

def listDecisionsBody (repr : String → String) (scan : List Uuid) (tenantId : Uuid)
    (auth : AuthContext) (state : Option String) : SessionProc (List Decision) := do
  openTenantDb tenantId auth
  requireRole [.watcher, .tenantAdmin, .rootAdmin] auth
  let wanted ← ofExcept (stateFilter repr state)
  let s ← get
  commit
  pure (newestFirst Decision.updatedAt
    ((s.visibleDecisions scan).filter fun d => wanted d.state))

/-- `GET /tenants/{tenant_id}/decisions`. -/
def listDecisions (repr : String → String) (scan : List Uuid) (tenantId : Uuid)
    (auth : AuthContext) (state : Option String) (w : World) :
    Except Exn (List Decision) × World :=
  runSession (listDecisionsBody repr scan tenantId auth state) w

/-- A scan of the table meets every row once. -/
structure Scans (db : Db) (scan : List Uuid) : Prop where
  nodup : scan.Nodup
  mem : ∀ id, id ∈ scan ↔ (db.decisions.find id).isSome

/-- The ids of the decisions a request may write. -/
def Request.written (w : World) : Request → List Uuid
  | .aggregate call => call.newId ::
      ((w.db.evidences.find call.evidenceId).bind w.openDecision).toList.map Decision.id
  | .resolve call => [call.decisionId]
  | .expireKey _ | .insertEvidence _ => []

/-- The decision of the tenant whose row a request changes. -/
def Request.changed (tenantId : Uuid) (w : World) (r : Request) : Option Uuid :=
  (r.written w).find? fun id =>
    (serve w r).db.has tenantId id && (serve w r).db.decisions.find id ≠ w.db.decisions.find id

/-- The decisions of the tenant, the one that changed last first. -/
def recent (tenantId : Uuid) : World → List Request → List Uuid → List Uuid
  | _, [], ids => ids
  | w, r :: rs, ids => recent tenantId (serve w r) rs
    (match r.changed tenantId w with
    | some id => touch ids id
    | none => ids)

def Db.stamp (db : Db) (id : Uuid) : Int :=
  ((db.decisions.find id).map Decision.updatedAt).getD 0

/-- The decisions of the tenant in the order of their times, all taken from a list of times. -/
structure Recent (tenantId : Uuid) (db : Db) (ids : List Uuid) (ts : List Int) : Prop where
  nodup : ids.Nodup
  mem : ∀ id, id ∈ ids ↔ db.has tenantId id = true
  sorted : ids.Pairwise fun a b => db.stamp b < db.stamp a
  stamped : ∀ id ∈ ids, db.stamp id ∈ ts

variable {tenantId : Uuid} {w w' : World} {r : Request} {rs : List Request} {ids scan : List Uuid}
  {ts : List Int}

/-- A request writes one decision at most, and one of those it may write. -/
theorem serve_written (w : World) (r : Request) :
    (∀ id, (serve w r).db.decisions.find id = w.db.decisions.find id) ∨
      ∃ d ∈ r.written w, ∀ id ≠ d, (serve w r).db.decisions.find id = w.db.decisions.find id := by
  cases r with
  | aggregate call =>
    rcases aggregate_cases call w with hr | ⟨evidence, tenant, d, hc⟩
    · exact Or.inl fun id => congrArg (fun db : Db => db.decisions.find id) hr.db
    · refine Or.inr ⟨d.id, ?_, fun id hid => (hc.find id).trans (if_neg hid)⟩
      rcases hc.target.found with ⟨hopen, -, -⟩ | ⟨rfl, -, -⟩
      · apply List.mem_cons_of_mem
        rw [hc.evidence_found, Option.bind_some, hopen]
        exact List.mem_singleton.mpr rfl
      · exact List.mem_cons_self
  | resolve call =>
    rcases resolveDecision_cases call w with hr | ⟨d, hr⟩
    · exact Or.inl fun id => congrArg (fun db : Db => db.decisions.find id) hr.db
    · have hid := w.db.decisions.keyed _ _ hr.found
      refine Or.inr ⟨d.id, ?_, fun id hne => (hr.find id).trans (if_neg hne)⟩
      exact List.mem_singleton.mpr hid
  | expireKey key => exact Or.inl fun _ => rfl
  | insertEvidence evidence =>
    refine Or.inl fun id => ?_
    simp only [serve]
    split <;> rfl

/-- The tenant of a decision does not change. -/
theorem serve_has {t id : Uuid} (r : Request) (h : w.db.has t id = true) :
    (serve w r).db.has t id = true := by
  unfold Db.has at h ⊢
  cases r with
  | aggregate call =>
    rcases aggregate_cases call w with hr | ⟨evidence, tenant, d, hc⟩
    · rw [show (serve w (.aggregate call)).db = w.db from hr.db]
      exact h
    · rw [show (serve w (.aggregate call)).db.decisions.find id = _ from hc.find id]
      split
      next heq =>
        subst heq
        rcases hc.target.found with ⟨-, -, hfound⟩ | ⟨-, -, hnone⟩
        · rw [hfound] at h
          simpa using h
        · rw [hnone] at h
          cases h
      next => exact h
  | resolve call =>
    rcases resolveDecision_cases call w with hr | ⟨d, hr⟩
    · rw [show (serve w (.resolve call)).db = w.db from hr.db]
      exact h
    · rw [show (serve w (.resolve call)).db.decisions.find id = _ from hr.find id]
      split
      next heq =>
        rw [heq, w.db.decisions.keyed _ _ hr.found, hr.found] at h
        exact h
      next => exact h
  | expireKey key => exact h
  | insertEvidence evidence =>
    simp only [serve]
    split <;> exact h

theorem changed_eq_none (h : r.changed tenantId w = none) (id : Uuid)
    (hid : (serve w r).db.has tenantId id = true) :
    (serve w r).db.decisions.find id = w.db.decisions.find id := by
  rcases serve_written w r with hsame | ⟨d, hd, hsame⟩
  · exact hsame id
  · by_cases heq : id = d
    · subst heq
      have hnot := List.find?_eq_none.mp h id hd
      rw [hid, Bool.true_and, decide_eq_true_eq, not_not] at hnot
      exact hnot
    · exact hsame id heq

theorem changed_eq_some {d : Uuid} (h : r.changed tenantId w = some d) :
    (serve w r).db.has tenantId d = true ∧
      (serve w r).db.decisions.find d ≠ w.db.decisions.find d ∧
      ∀ id ≠ d, (serve w r).db.decisions.find id = w.db.decisions.find id := by
  have hd := List.find?_some h
  simp only [Bool.and_eq_true, decide_eq_true_eq] at hd
  refine ⟨hd.1, hd.2, ?_⟩
  rcases serve_written w r with hsame | ⟨d', -, hsame⟩
  · exact fun id _ => hsame id
  · have heq : d = d' := by
      by_contra hne
      exact hd.2 (hsame d hne)
    rw [heq]
    exact hsame

theorem Db.stamp_congr {db db' : Db} {id : Uuid}
    (h : db'.decisions.find id = db.decisions.find id) : db'.stamp id = db.stamp id := by
  unfold Db.stamp
  rw [h]

theorem Db.has_congr {db db' : Db} {id : Uuid} (h : db'.decisions.find id = db.decisions.find id)
    (t : Uuid) : db'.has t id = db.has t id := by
  unfold Db.has
  rw [h]

theorem Recent.serve (h : Recent tenantId w.db ids ts)
    (hlater : ∀ t ∈ ts, ∀ u ∈ times [r], t < u) :
    Recent tenantId (serve w r).db
      (match r.changed tenantId w with
      | some id => touch ids id
      | none => ids) (ts ++ times [r]) := by
  cases hchanged : r.changed tenantId w with
  | none =>
    have hsame := changed_eq_none hchanged
    have hrow : ∀ id ∈ ids, (ArgusServices.serve w r).db.decisions.find id =
        w.db.decisions.find id := fun id hid => hsame id (serve_has r ((h.mem id).mp hid))
    refine ⟨h.nodup, ?_, ?_, ?_⟩
    · intro id
      rw [h.mem]
      constructor
      · exact serve_has r
      · intro hid
        rw [← Db.has_congr (hsame id hid)]
        exact hid
    · refine h.sorted.imp_of_mem ?_
      intro a b ha hb hab
      rw [Db.stamp_congr (hrow a ha), Db.stamp_congr (hrow b hb)]
      exact hab
    · intro id hid
      rw [Db.stamp_congr (hrow id hid)]
      exact List.mem_append_left _ (h.stamped id hid)
  | some d =>
    obtain ⟨hhas, hdiff, hsame⟩ := changed_eq_some hchanged
    have hnow : (ArgusServices.serve w r).db.stamp d ∈ times [r] := by
      rcases serve_stamps w r d with huntouched | ⟨row, hrow, ht⟩
      · exact absurd huntouched.1 hdiff
      · unfold Db.stamp
        rw [hrow]
        exact ht
    have hkept : ∀ id ≠ d, (ArgusServices.serve w r).db.stamp id = w.db.stamp id :=
      fun id hne => Db.stamp_congr (hsame id hne)
    refine ⟨nodup_touch h.nodup, ?_, ?_, ?_⟩
    · intro id
      rw [mem_touch]
      by_cases heq : id = d
      · rw [heq]
        exact ⟨fun _ => hhas, fun _ => Or.inl rfl⟩
      · rw [Db.has_congr (hsame id heq), ← h.mem]
        exact or_iff_right heq
    · refine pairwise_touch h.sorted h.nodup ?_ ?_
      · intro b hb hne
        rw [hkept b hne]
        exact hlater _ (h.stamped b hb) _ hnow
      · intro b c _ _ hb hc hbc
        rw [hkept b hb, hkept c hc]
        exact hbc
    · intro id hid
      by_cases heq : id = d
      · rw [heq]
        exact List.mem_append_right _ hnow
      · rw [hkept id heq]
        exact List.mem_append_left _ (h.stamped id ((mem_touch.mp hid).resolve_left heq))

theorem Recent.run (h : Recent tenantId w.db ids ts)
    (htimes : (ts ++ times rs).Pairwise (· < ·)) :
    Recent tenantId (rs.foldl ArgusServices.serve w).db (recent tenantId w rs ids)
      (ts ++ times rs) := by
  induction rs generalizing w ids ts with
  | nil => simpa [times, recent] using h
  | cons r rs ih =>
    have hsplit : times (r :: rs) = times [r] ++ times rs := times_append [r] rs
    rw [hsplit, ← List.append_assoc] at htimes ⊢
    have hfirst := (List.pairwise_append.mp htimes).1
    exact ih (h.serve fun t ht u hu => (List.pairwise_append.mp hfirst).2.2 t ht u hu) htimes

theorem Recent.initial (h : w.Initial) : Recent tenantId w.db [] [] where
  nodup := .nil
  mem := fun id => by simp [Db.has, h.decisions]
  sorted := .nil
  stamped := nofun

theorem Db.find_of_has {db : Db} {id : Uuid} (h : db.has tenantId id = true) :
    ∃ d, db.decisions.find id = some d ∧ d.id = id ∧ d.tenantId = tenantId := by
  unfold Db.has at h
  cases hd : db.decisions.find id with
  | none =>
    rw [hd] at h
    cases h
  | some d =>
    rw [hd] at h
    exact ⟨d, rfl, db.decisions.keyed _ _ hd, of_decide_eq_true h⟩

/-- The rows of the tenant, in whatever order a scan meets them. -/
theorem Recent.rows_perm {db : Db} (h : Recent tenantId db ids ts) (hscan : Scans db scan) :
    (ids.filterMap db.decisions.find).Perm
      ((scan.filterMap db.decisions.find).filter fun d => d.tenantId = tenantId) := by
  have hids : ids.Perm (scan.filter fun id => db.has tenantId id) := by
    refine (List.perm_ext_iff_of_nodup h.nodup (hscan.nodup.filter _)).mpr fun id => ?_
    rw [h.mem, List.mem_filter, hscan.mem]
    constructor
    · intro hid
      obtain ⟨d, hd, -⟩ := Db.find_of_has hid
      exact ⟨by rw [hd]; rfl, hid⟩
    · exact And.right
  refine (hids.filterMap _).trans ?_
  rw [List.filter_filterMap, List.filterMap_filter]
  refine List.Perm.of_eq (List.filterMap_congr fun id _ => ?_)
  rw [Db.has_eq]
  cases (db.decisions.find id) with
  | none => rfl
  | some d =>
    by_cases htenant : d.tenantId = tenantId <;> simp [htenant, Option.filter_some]

theorem Recent.rows_sorted {db : Db} (h : Recent tenantId db ids ts) :
    (ids.filterMap db.decisions.find).Pairwise fun a b => b.updatedAt < a.updatedAt := by
  refine List.pairwise_filterMap.mpr (h.sorted.imp ?_)
  intro a b hab d hd d' hd'
  simpa [Db.stamp, hd, hd'] using hab

theorem openTenantDb_sees {auth : AuthContext}
    (haccess : auth.role = .rootAdmin ∨ auth.tenantId = some tenantId) (w : World) :
    Ends (openTenantDb tenantId auth) (Session.open w)
      (fun _ s => s.tx = w.db ∧ ∀ id, s.sees id = decide (id = tenantId))
      (fun _ _ => False) := by
  simp only [openTenantDb, requireTenantAccess, ends_bind, ends_raiseWhen]
  constructor
  · intro hdenied
    exact haccess.elim (of_decide_eq_true hdenied).1 (of_decide_eq_true hdenied).2
  intro _
  split
  next hroot =>
    simp only [setSessionContext, ends_modify]
    exact ⟨rfl, fun id => by simp [Session.sees, Session.open, eq_comm]⟩
  next hroot =>
    have hten := haccess.resolve_left hroot
    simp only [setSessionContext, ends_modify]
    refine ⟨rfl, fun id => ?_⟩
    have hrole : (some auth.role = some UserRole.rootAdmin) = False :=
      eq_false fun h => hroot (Option.some.inj h)
    simp [Session.sees, Session.open, hten, hrole, eq_comm (a := tenantId)]

/-- Who may list the decisions of a tenant gets those in the wanted states, in the order of their
times. -/
theorem listDecisions_eq {repr : String → String} {auth : AuthContext} {state : Option String}
    {wanted : DecisionState → Bool}
    (haccess : auth.role = .rootAdmin ∨ auth.tenantId = some tenantId)
    (hstate : stateFilter repr state = .ok wanted) (w : World) :
    (listDecisions repr scan tenantId auth state w).1 =
      .ok (newestFirst Decision.updatedAt (((scan.filterMap w.db.decisions.find).filter
        fun d => d.tenantId = tenantId).filter fun d => wanted d.state)) := by
  have hrole : auth.role ∈ [UserRole.watcher, .tenantAdmin, .rootAdmin] := by
    cases auth.role <;> simp
  have hbody : Ends (listDecisionsBody repr scan tenantId auth state) (Session.open w)
      (fun rows _ => rows = newestFirst Decision.updatedAt (((scan.filterMap
        w.db.decisions.find).filter fun d => d.tenantId = tenantId).filter fun d => wanted d.state))
      (fun _ _ => False) := by
    apply (openTenantDb_sees haccess w).bind
    intro _ s hpost
    obtain ⟨htx, hsees⟩ := hpost
    simp only [requireRole, hstate, commit, ends_bind, ends_raiseWhen, ends_ofExcept, ends_get,
      ends_modify, ends_pure]
    refine ⟨fun hdenied => of_decide_eq_true hdenied hrole, fun _ => ?_⟩
    constructor
    · intro wanted' hwanted
      obtain rfl := Except.ok.inj hwanted
      unfold Session.visibleDecisions
      simp only [htx, hsees]
    · intro exc hexc
      cases hexc
  unfold listDecisions runSession
  cases hx : exec (listDecisionsBody repr scan tenantId auth state) (Session.open w) with
  | mk result t =>
    cases result with
    | error e => exact (hbody.error hx).elim
    | ok rows => exact congrArg Except.ok (hbody.ok hx)

/-- In whatever order a scan meets them, the decisions come most recently changed first. -/
theorem Recent.listed (h : Recent tenantId w.db ids ts) (hscan : Scans w.db scan)
    (wanted : DecisionState → Bool) :
    newestFirst Decision.updatedAt (((scan.filterMap w.db.decisions.find).filter
        fun d => d.tenantId = tenantId).filter fun d => wanted d.state) =
      (ids.filterMap w.db.decisions.find).filter fun d => wanted d.state :=
  newestFirst_eq ((h.rows_perm hscan).filter _) (h.rows_sorted.sublist List.filter_sublist)

theorem Recent.of_run (h : w.Initial) (hrun : Run Served w rs w')
    (htimes : (times rs).Pairwise (· < ·)) :
    Recent tenantId w'.db (recent tenantId w rs []) (times rs) := by
  rw [run_served_eq hrun]
  exact (Recent.initial h).run htimes

/-- Who may list the decisions of a tenant gets those in the wanted states, most recently changed
first, in every state that requests at increasing times lead to. -/
theorem listDecisions_recent {repr : String → String} {auth : AuthContext} {state : Option String}
    {wanted : DecisionState → Bool} (h : w.Initial) (hrun : Run Served w rs w')
    (htimes : (times rs).Pairwise (· < ·)) (hscan : Scans w'.db scan)
    (haccess : auth.role = .rootAdmin ∨ auth.tenantId = some tenantId)
    (hstate : stateFilter repr state = .ok wanted) :
    (listDecisions repr scan tenantId auth state w').1 =
      .ok (((recent tenantId w rs []).filterMap w'.db.decisions.find).filter
        fun d => wanted d.state) := by
  have hrecent : Recent tenantId w'.db (recent tenantId w rs []) (times rs) :=
    .of_run h hrun htimes
  rw [listDecisions_eq haccess hstate, hrecent.listed hscan]

/-- The decisions a run has made, as a scan may meet them. -/
def scanned : World → List Request → List Uuid
  | _, [] => []
  | w, r :: rs => r.written w ++ scanned (serve w r) rs

theorem mem_scanned {id : Uuid} (hrun : Run Served w rs w')
    (hid : (w'.db.decisions.find id).isSome) :
    (w.db.decisions.find id).isSome ∨ id ∈ scanned w rs := by
  induction hrun with
  | nil w => exact Or.inl hid
  | @cons w v w' r rs hstep _ ih =>
    obtain rfl := hstep
    rcases ih hid with hv | hv
    · rcases serve_written w r with hsame | ⟨d, hd, hsame⟩
      · rw [hsame] at hv
        exact Or.inl hv
      · by_cases heq : id = d
        · rw [heq]
          exact Or.inr (List.mem_append_left _ hd)
        · rw [hsame id heq] at hv
          exact Or.inl hv
    · exact Or.inr (List.mem_append_right _ hv)

theorem scans_scanned (h : w.Initial) (hrun : Run Served w rs w') :
    Scans w'.db ((scanned w rs).dedup.filter fun id => (w'.db.decisions.find id).isSome) where
  nodup := (List.nodup_dedup _).filter _
  mem := by
    intro id
    rw [List.mem_filter, List.mem_dedup]
    refine and_iff_right_of_imp fun hid => (mem_scanned hrun hid).resolve_left ?_
    simp [h.decisions]

/-- Two decisions, of which the first one is resolved last. -/
def listRun : List Request :=
  [.aggregate { sampleAggregate 11 20 with now := 1 },
    .aggregate { sampleAggregate 12 21 with now := 2 },
    .resolve { sampleResolve 20 with body := ⟨.truePositive, "", 1⟩, now := 3 }]

def listWorld : World :=
  sampleWorld [sampleEvidence 11 none 1, sampleEvidence 12 (some ⟨3⟩) 1]

theorem listDecisions_recent_sample :
    (listDecisions id ((scanned listWorld listRun).dedup.filter fun id =>
        ((listRun.foldl serve listWorld).db.decisions.find id).isSome) ⟨1⟩
      ⟨"admin", none, .rootAdmin⟩ none (listRun.foldl serve listWorld)).1.map
        (fun rows => rows.map Decision.id) = .ok [⟨20⟩, ⟨21⟩] := by
  have hrun := run_serve listWorld listRun
  have hstart : listWorld.Initial := sampleWorld_initial _
  rw [listDecisions_recent hstart hrun (by decide) (scans_scanned hstart hrun) (Or.inl rfl) rfl]
  decide +kernel

end ArgusServices

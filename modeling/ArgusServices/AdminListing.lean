import ArgusServices.AdminApi

namespace ArgusServices

open Effect Transition Unordered

def AdminList.includes : AdminList → AdminRow → Bool
  | .markets, .market _ => true
  | .cameras, .camera _ => true
  | .contextModes, .contextMode _ => true
  | .rules, .rule _ => true
  | .notificationConfigs, .notificationConfig _ => true
  | _, _ => false

/-- The row of a request, if it is one of the list of the tenant. -/
def AdminCall.rowIn (call : AdminCall) (tenantId : Uuid) (list : AdminList) : List AdminRow :=
  if call.tenantId = tenantId ∧ list.includes call.row then [call.row] else []

/-- The rows of the list that the requests of a run commit. -/
def created (tenantId : Uuid) (list : AdminList) : ConfigDb → List AdminCall → List AdminRow
  | _, [] => []
  | db, call :: calls =>
    (if call.commits db then call.rowIn tenantId list else []) ++
      created tenantId list (call.serve db).2 calls

/-- The rows of the list that the requests of a run are answered. -/
def answered (sentFirst : Bool) (tenantId : Uuid) (list : AdminList) :
    ConfigDb → List AdminCall → List AdminRow
  | _, [] => []
  | db, call :: calls =>
    (match call.answer sentFirst db with
      | .ok row => if call.tenantId = tenantId ∧ list.includes row then [row] else []
      | .error _ => []) ++ answered sentFirst tenantId list (call.serve db).2 calls

variable {call : AdminCall} {calls : List AdminCall} {db db' : ConfigDb} {tenantId : Uuid}
  {tenant : Option Uuid} {role : UserRole} {query : AdminQuery} {list : AdminList}

/-- A request that is let in sees the tenant of its path and no other. -/
theorem listContext_sees {auth : AuthContext} (h : listContext auth tenantId = .ok (tenant, role))
    (db : ConfigDb) (id : Uuid) :
    (ConfigSession.mk db tenant role).sees id = decide (id = tenantId) := by
  unfold listContext at h
  simp only [bind_eq_ok, throwWhen_eq_ok, exists_const] at h
  obtain ⟨haccess, -, hsession⟩ := h
  unfold ConfigSession.sees
  by_cases hrole : auth.role = .rootAdmin
  · rw [if_pos hrole] at hsession
    cases hsession
    simp [eq_comm]
  · rw [if_neg hrole] at hsession
    cases hsession
    have htenant : auth.tenantId = some tenantId := by simpa [hrole] using haccess
    simp [htenant, hrole, eq_comm]

theorem map_append_nil {ε α : Type} (x : Except ε (List α)) :
    (fun rows => rows ++ []) <$> x = x := by
  simp

/-- A row shows in the part of its table that is of its tenant. -/
theorem filter_concat {ρ : Type} {owner : ρ → Uuid} {f : ρ → AdminRow} (xs : List ρ) (row : ρ) :
    ((xs ++ [row]).filter fun r => decide (owner r = tenantId)).map f =
      (xs.filter fun r => decide (owner r = tenantId)).map f ++
        if owner row = tenantId then [f row] else [] := by
  rw [List.filter_append, List.map_append]
  by_cases hrow : owner row = tenantId <;> simp [hrow]

theorem listed_add (hsees : ∀ db id, (ConfigSession.mk db tenant role).sees id =
      decide (id = tenantId))
    (hrefer : db.MappingsRefer) (hfresh : call.newId ∉ call.ids db) (list : AdminList) :
    (ConfigSession.mk (call.add db) tenant role).listed .asStored tenantId list =
      (· ++ call.rowIn tenantId list) <$>
        (ConfigSession.mk db tenant role).listed .asStored tenantId list := by
  unfold AdminCall.add AdminCall.rowIn AdminCall.row
  unfold AdminCall.ids at hfresh
  cases list with
  | markets =>
    cases call.body with
    | createMarket body =>
      simp only [ConfigSession.listed, ListOrder.asStored, RowOrder.asStored, id_eq, hsees,
        filter_concat]
      simp only [AdminList.includes, and_true]
      rfl
    | _ =>
      simp only [AdminList.includes, Bool.false_eq_true, and_false, if_false, map_append_nil]
      rfl
  | cameras =>
    cases call.body with
    | createCamera marketId body =>
      simp only [ConfigSession.listed, ListOrder.asStored, RowOrder.asStored, id_eq, hsees,
        filter_concat]
      simp only [AdminList.includes, and_true]
      rfl
    | _ =>
      simp only [AdminList.includes, Bool.false_eq_true, and_false, if_false, map_append_nil]
      rfl
  | contextModes =>
    cases call.body with
    | createContextMode body =>
      simp only [ConfigSession.listed, ListOrder.asStored, RowOrder.asStored, id_eq, hsees,
        filter_concat]
      simp only [AdminList.includes, and_true]
      rfl
    | _ =>
      simp only [AdminList.includes, Bool.false_eq_true, and_false, if_false, map_append_nil]
      rfl
  | notificationConfigs =>
    cases call.body with
    | createNotificationConfig body =>
      simp only [ConfigSession.listed, ListOrder.asStored, RowOrder.asStored, id_eq, hsees,
        filter_concat]
      simp only [AdminList.includes, and_true]
      rfl
    | _ =>
      simp only [AdminList.includes, Bool.false_eq_true, and_false, if_false, map_append_nil]
      rfl
  | rules =>
    cases hbody : call.body with
    | createRule body =>
      rw [hbody] at hfresh
      by_cases hown : call.tenantId = tenantId
      · subst hown
        have hrules := @listRules_withRule call body db hrefer hfresh tenant role (by simp [hsees])
        simp only [ConfigSession.listed, ListOrder.asStored, hrules]
        simp [AdminList.includes]
      · have hrules := @listRules_withRule_other call body db hfresh tenant role _ (Ne.symm hown)
        simp only [ConfigSession.listed, ListOrder.asStored, hrules]
        simp [AdminList.includes, hown]
    | _ =>
      simp only [AdminList.includes, Bool.false_eq_true, and_false, if_false, map_append_nil]
      rfl

theorem AdminCall.add_mappingsRefer (h : db.MappingsRefer) : (call.add db).MappingsRefer := by
  unfold AdminCall.add
  cases call.body with
  | createRule body =>
    intro m hm
    show m.ruleId ∈ (db.rules ++ [call.rule body]).map StoredRule.id
    rw [List.map_append, List.mem_append]
    rcases List.mem_append.mp hm with hm | hm
    · exact Or.inl (h m hm)
    · obtain ⟨regionId, -, rfl⟩ := List.mem_map.mp hm
      exact Or.inr (List.mem_singleton.mpr rfl)
  | _ => exact h

theorem commits_fresh (h : call.commits db = true) : call.newId ∉ call.ids db := by
  unfold AdminCall.commits at h
  cases hcontext : call.context with
  | error e =>
    rw [hcontext] at h
    cases h
  | ok context =>
    obtain ⟨tenant, role⟩ := context
    have hrow := @ends_respond call ⟨db, tenant, role⟩ (AdminCall.context_sees hcontext)
    obtain ⟨⟨result, t⟩, hexec⟩ : ∃ ended, exec call.respond ⟨db, tenant, role⟩ = ended := ⟨_, rfl⟩
    rw [hcontext] at h
    simp only [hexec] at h
    cases result with
    | error e => cases h
    | ok row => exact (hrow.ok hexec).2.1

theorem mappingsRefer_serve (h : db.MappingsRefer) : (call.serve db).2.MappingsRefer := by
  rw [serve_eq]
  split
  next => exact AdminCall.add_mappingsRefer h
  next => exact h

/-- One request: the list has the row it commits at its end. -/
theorem listed_serve (hsees : ∀ db id, (ConfigSession.mk db tenant role).sees id =
      decide (id = tenantId)) (hrefer : db.MappingsRefer) (call : AdminCall) (list : AdminList) :
    (ConfigSession.mk (call.serve db).2 tenant role).listed .asStored tenantId list =
      (· ++ if call.commits db then call.rowIn tenantId list else []) <$>
        (ConfigSession.mk db tenant role).listed .asStored tenantId list := by
  rw [serve_eq]
  by_cases hcommit : call.commits db = true
  · rw [if_pos hcommit, if_pos hcommit]
    exact listed_add hsees hrefer (commits_fresh hcommit) list
  · rw [if_neg hcommit, if_neg hcommit, map_append_nil]

theorem listed_run (hsees : ∀ db id, (ConfigSession.mk db tenant role).sees id =
      decide (id = tenantId)) (hrefer : db.MappingsRefer) (hrun : Run Administers db calls db')
    (list : AdminList) :
    (ConfigSession.mk db' tenant role).listed .asStored tenantId list =
      (· ++ created tenantId list db calls) <$>
        (ConfigSession.mk db tenant role).listed .asStored tenantId list := by
  induction hrun with
  | nil db => exact (map_append_nil _).symm
  | cons hstep _ ih =>
    obtain rfl := hstep
    rw [ih (mappingsRefer_serve hrefer), listed_serve hsees hrefer, created]
    simp only [Functor.map_map, List.append_assoc]

/-- The order of the queries does not matter to what is in a list. -/
theorem listed_order (s : ConfigSession) (order order' : ListOrder) (tenantId : Uuid)
    (list : AdminList) :
    bag AdminRow.unordered (s.listed order tenantId list) =
      bag AdminRow.unordered (s.listed order' tenantId list) := by
  have hrows : ∀ {ρ : Type} (arrange arrange' : RowOrder ρ) (f : ρ → AdminRow) (rows : List ρ),
      (((arrange.arrange rows).map f).map AdminRow.unordered).Perm
        (((arrange'.arrange rows).map f).map AdminRow.unordered) := by
    intro ρ arrange arrange' f rows
    exact (((arrange.perm rows).trans (arrange'.perm rows).symm).map f).map _
  cases list with
  | markets => exact bag_eq_of_perm (hrows _ _ _ _)
  | cameras => exact bag_eq_of_perm (hrows _ _ _ _)
  | contextModes => exact bag_eq_of_perm (hrows _ _ _ _)
  | rules =>
    have hrow : ∀ response : RuleResponse, (AdminRow.rule response).unordered =
        (AdminRow.rule response.unordered.1, response.unordered.2) := fun _ => rfl
    exact bag_map (j := fun rule => (AdminRow.rule rule.1, rule.2)) hrow
      (listRules_order s order.rules order'.rules tenantId)
  | notificationConfigs => exact bag_eq_of_perm (hrows _ _ _ _)

/-- A list is answered if the request is let in and the rules have conditions it can show. -/
theorem stored_returns (hcontext : (listContext query.auth query.tenantId).isOk = true)
    (hobjects : query.list = .rules → db.ObjectConditions query.tenantId) :
    ∃ rows, query.stored db = .ok rows := by
  unfold AdminQuery.stored
  cases hlet : listContext query.auth query.tenantId with
  | error e =>
    rw [hlet] at hcontext
    cases hcontext
  | ok context =>
    obtain ⟨tenant, role⟩ := context
    show ∃ rows, (ConfigSession.mk db tenant role).listed query.order query.tenantId query.list =
      .ok rows
    cases hlist : query.list with
    | rules =>
      obtain ⟨rules, hrules⟩ := @listRules_returns ⟨db, tenant, role⟩ _ (hobjects hlist)
        query.order.rules
      refine ⟨rules.map AdminRow.rule, ?_⟩
      simp only [ConfigSession.listed, hrules]
      rfl
    | _ => exact ⟨_, rfl⟩

theorem answered_sublist (tenantId : Uuid) (list : AdminList) (db : ConfigDb) {sentFirst : Bool}
    {calls : List AdminCall}
    (hsent : sentFirst = true → ∀ call ∈ calls, call.commit.executed = true) :
    (answered sentFirst tenantId list db calls).Sublist (created tenantId list db calls) := by
  induction calls generalizing db with
  | nil => exact .slnil
  | cons call calls ih =>
    rw [answered, created]
    have hrest := ih (call.serve db).2 fun hfirst other hother =>
      hsent hfirst other (List.mem_cons_of_mem call hother)
    refine List.Sublist.append ?_ hrest
    cases hanswer : call.answer sentFirst db with
    | error e => exact List.nil_sublist _
    | ok row =>
      obtain ⟨rfl, hcommits⟩ := answer_eq_ok hanswer
      rw [if_pos (hcommits fun hfirst => hsent hfirst call List.mem_cons_self)]
      exact List.Sublist.refl _

/-- What the query of a list finds after a run is what it found before and what the run commits. -/
theorem stored_run (query : AdminQuery) (order : ListOrder) (hrefer : db.MappingsRefer)
    (hrun : Run Administers db calls db') :
    bag AdminRow.unordered ({ query with order := order }.stored db') =
      bag AdminRow.unordered
        ((· ++ created query.tenantId query.list db calls) <$> query.stored db) := by
  unfold AdminQuery.stored
  cases hcontext : listContext query.auth query.tenantId with
  | error e => rfl
  | ok context =>
    obtain ⟨tenant, role⟩ := context
    show bag AdminRow.unordered ((ConfigSession.mk db' tenant role).listed order query.tenantId
      query.list) = bag AdminRow.unordered ((· ++ created query.tenantId query.list db calls) <$>
        (ConfigSession.mk db tenant role).listed query.order query.tenantId query.list)
    rw [listed_order _ order .asStored,
      listed_run (listContext_sees hcontext) hrefer hrun query.list, bag_append, bag_append,
      listed_order _ .asStored query.order]

/-- After any requests of any tenants, a list shows what it showed before and the rows that the
requests for its tenant have committed since, markets by name and the others in any order; among
these is every row a request was answered, if answers wait for the commit or no commit fails. -/
theorem listed_created (collate : String → String → Bool) (sentFirst : Bool) (query : AdminQuery)
    (order : ListOrder) (hrefer : db.MappingsRefer) (hrun : Run Administers db calls db') :
    (∀ e, query.stored db = .error e →
      { query with order := order }.answer collate db' = .error e) ∧
    (∀ before, query.stored db = .ok before → ∃ rows,
      { query with order := order }.answer collate db' = .ok (query.list.arrange collate rows) ∧
        (rows.map AdminRow.unordered).Perm
          ((before ++ created query.tenantId query.list db calls).map AdminRow.unordered)) ∧
    ((listContext query.auth query.tenantId).isOk = true →
      (query.list = .rules → db.ObjectConditions query.tenantId) →
        ∃ before, query.stored db = .ok before) ∧
    ((sentFirst = true → ∀ call ∈ calls, call.commit.executed = true) →
      (answered sentFirst query.tenantId query.list db calls).Sublist
        (created query.tenantId query.list db calls)) := by
  obtain ⟨hraised, hmore⟩ := more_of_bag (stored_run query order hrefer hrun)
  refine ⟨?_, ?_, stored_returns, fun hsent => answered_sublist _ _ _ hsent⟩
  · intro e hbefore
    unfold AdminQuery.answer
    rw [hraised e hbefore]
    rfl
  · intro before hbefore
    obtain ⟨rows, hrows, hsame⟩ := hmore before hbefore
    refine ⟨rows, ?_, hsame⟩
    unfold AdminQuery.answer
    rw [hrows]
    rfl

/-- Two modes of tenant 1 and one of tenant 8, whose second request names tenant 1. -/
def modeCalls : List AdminCall :=
  [adminCall 1 5 (.createContextMode ⟨"Day", none⟩),
    adminCall 8 6 (.createContextMode ⟨"Night", none⟩),
    { adminCall 8 7 (.createContextMode ⟨"Night", none⟩) with tenantId := ⟨1⟩ },
    adminCall 1 8 (.createContextMode ⟨"Weekend", some "Closed"⟩)]

/-- The modes of tenant 1, the newest first. -/
def newestModes : AdminQuery where
  auth := ⟨"root", none, .rootAdmin⟩
  tenantId := ⟨1⟩
  list := .contextModes
  order := { ListOrder.asStored with contextModes := ⟨List.reverse, List.reverse_perm⟩ }

theorem listed_created_sample :
    sampleSystem.config.MappingsRefer ∧ ∃ before rows,
      newestModes.stored sampleSystem.config = .ok before ∧
      newestModes.answer (fun a b => a ≤ b)
        (modeCalls.foldl (fun db call => (call.serve db).2) sampleSystem.config) = .ok rows ∧
      rows = [.contextMode ⟨⟨8⟩, ⟨1⟩, "Weekend", some "Closed"⟩,
        .contextMode ⟨⟨5⟩, ⟨1⟩, "Day", none⟩] ∧
      (rows.map AdminRow.unordered).Perm
        ((before ++ created ⟨1⟩ .contextModes sampleSystem.config modeCalls).map
          AdminRow.unordered) ∧
      (answered true ⟨1⟩ .contextModes sampleSystem.config modeCalls).Sublist
        (created ⟨1⟩ .contextModes sampleSystem.config modeCalls) := by
  have hrefer : sampleSystem.config.MappingsRefer := by
    intro m hm
    cases hm
  have hdone : ∀ call ∈ modeCalls, call.commit.executed = true := by
    decide +kernel
  obtain ⟨-, hmore, hreturns, hanswered⟩ := listed_created (fun a b => a ≤ b) true newestModes
    newestModes.order hrefer (run_administers _ modeCalls)
  obtain ⟨before, hbefore⟩ := hreturns rfl fun h => by cases h
  obtain ⟨rows, hrows, hsame⟩ := hmore before hbefore
  refine ⟨hrefer, before, rows, hbefore, hrows, ?_, hsame, hanswered fun _ => hdone⟩
  cases hrows
  rfl

end ArgusServices

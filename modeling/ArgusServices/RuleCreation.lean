import ArgusServices.RegionRules
import ArgusServices.Unordered

namespace ArgusServices

open Effect Unordered

/-- `RuleResponse(...)` of a row, whose condition has to be an object. -/
def StoredRule.response (rule : StoredRule) (regionIds : List Uuid) : Except Exn RuleResponse :=
  match rule.condition with
  | .obj condition => .ok
    { id := rule.id
      contextModeId := rule.contextModeId
      name := rule.name
      condition := condition
      severityWeight := rule.severityWeight
      regionIds := regionIds }
  | _ => .error (.valueError "Input should be a valid dictionary")

/-- The order in which `list_rules` meets the rules, and the mappings of each. -/
structure RuleOrder where
  rules : RowOrder StoredRule
  regionMappings : Uuid → RowOrder RuleRegionMapping

/-- The regions that `list_rules` finds for a rule. -/
def ConfigSession.regionIds (s : ConfigSession) (order : RowOrder RuleRegionMapping)
    (rule : StoredRule) : List Uuid :=
  (order.arrange (s.tx.regionMappings.filter fun m =>
    m.ruleId = rule.id && s.sees m.tenantId)).map RuleRegionMapping.regionId

def ConfigSession.listRules (s : ConfigSession) (order : RuleOrder) (tenantId : Uuid) :
    Except Exn (List RuleResponse) :=
  (order.rules.arrange (s.tx.rules.filter fun r =>
    r.tenantId = tenantId && s.sees r.tenantId)).mapM fun rule =>
      rule.response (s.regionIds (order.regionMappings rule.id) rule)

def RuleOrder.asStored : RuleOrder where
  rules := .asStored
  regionMappings := fun _ => .asStored

/-- A response without the order of its regions. -/
def RuleResponse.unordered (response : RuleResponse) : RuleResponse × Multiset Uuid :=
  ({ response with regionIds := [] }, response.regionIds)

/-- The lists consist of the same rules with the same regions, in some order. -/
def SameResponses (rows rows' : List RuleResponse) : Prop :=
  (rows.map RuleResponse.unordered).Perm (rows'.map RuleResponse.unordered)

/-- The conditions stored for the tenant are objects, as those of every request are. -/
def ConfigDb.ObjectConditions (db : ConfigDb) (tenantId : Uuid) : Prop :=
  ∀ rule ∈ db.rules, rule.tenantId = tenantId → ∃ condition, rule.condition = .obj condition

/-- What the handler of `create_rule` returns or raises, once the request is let in. -/
def AdminCall.createRuleResult (call : AdminCall) (body : CreateRuleRequest) (db : ConfigDb) :
    Except Exn RuleResponse :=
  match call.context with
  | .error e => .error e
  | .ok (tenant, role) => (exec (createRule call body) ⟨db, tenant, role⟩).1

def AdminCall.rule (call : AdminCall) (body : CreateRuleRequest) : StoredRule where
  id := call.newId
  tenantId := call.tenantId
  contextModeId := body.contextModeId
  name := body.name
  condition := .obj body.condition
  severityWeight := body.severityWeight

def AdminCall.mapping (call : AdminCall) (regionId : Uuid) : RuleRegionMapping where
  tenantId := call.tenantId
  ruleId := call.newId
  regionId := regionId

def AdminCall.ruleResponse (call : AdminCall) (body : CreateRuleRequest) : RuleResponse where
  id := call.newId
  contextModeId := body.contextModeId
  name := body.name
  condition := body.condition
  severityWeight := body.severityWeight
  regionIds := body.regionIds

def AdminCall.addMappings (call : AdminCall) (regionIds : List Uuid) (db : ConfigDb) : ConfigDb :=
  { db with regionMappings := db.regionMappings ++ regionIds.map call.mapping }

/-- The tables with the new rule and its mappings. -/
def AdminCall.withRule (call : AdminCall) (body : CreateRuleRequest) (db : ConfigDb) : ConfigDb :=
  call.addMappings body.regionIds { db with rules := db.rules ++ [call.rule body] }

/-- The regions are distinct ones of the tenant, and not mapped to the rule yet. -/
structure AdminCall.MapsRegions (call : AdminCall) (db : ConfigDb) (regionIds : List Uuid) :
    Prop where
  own : ∀ regionId ∈ regionIds, db.regionOwner regionId = some call.tenantId
  distinct : regionIds.Nodup
  free : ∀ m ∈ db.regionMappings, m.ruleId = call.newId → m.regionId ∉ regionIds

/-- Nothing refuses the rule: the request is let in, the mode is one of the tenant, and so are the
regions, which are distinct. -/
structure AdminCall.CreatesRule (call : AdminCall) (db : ConfigDb) (body : CreateRuleRequest) :
    Prop where
  context : call.context.isOk = true
  own : db.contextModeOwner body.contextModeId = some call.tenantId
  inserts : call.Inserts db (db.rules.map StoredRule.id)
  regions : ∀ regionId ∈ body.regionIds, db.regionOwner regionId = some call.tenantId
  distinct : body.regionIds.Nodup

/-- One rule and one mapping for each of its regions are added, all of the tenant of the path; the
tenant's rules are listed with the new one among them, those of other tenants as before, whatever
order the queries meet the rows in. A list that raises, over a stored condition that is no object,
raises the same before and after; the conditions of requests are objects. -/
structure AdminCall.AddsRule (call : AdminCall) (body : CreateRuleRequest)
    (response : RuleResponse) (db db' : ConfigDb) : Prop where
  tables : db' = { db with
    rules := db.rules ++ [call.rule body]
    regionMappings := db.regionMappings ++ body.regionIds.map call.mapping }
  distinct : body.regionIds.Nodup
  answered : response = call.ruleResponse body
  listed : ∀ tenant role order order', (ConfigSession.mk db' tenant role).sees call.tenantId →
    db.ObjectConditions call.tenantId → ∃ before rows,
      (ConfigSession.mk db tenant role).listRules order call.tenantId = .ok before ∧
      (ConfigSession.mk db' tenant role).listRules order' call.tenantId = .ok rows ∧
      SameResponses rows (before ++ [response])
  others : ∀ tenant role order order' tenantId, tenantId ≠ call.tenantId →
    db.ObjectConditions tenantId → ∃ before rows,
      (ConfigSession.mk db tenant role).listRules order tenantId = .ok before ∧
      (ConfigSession.mk db' tenant role).listRules order' tenantId = .ok rows ∧
      SameResponses rows before
  raised : ∀ tenant role order order' tenantId e,
    (ConfigSession.mk db tenant role).listRules order tenantId = .error e →
      (ConfigSession.mk db' tenant role).listRules order' tenantId = .error e
  conditions : ∀ tenantId, db.ObjectConditions tenantId → db'.ObjectConditions tenantId

/-- The foreign key of the mappings: each is of a rule that is there. -/
def ConfigDb.MappingsRefer (db : ConfigDb) : Prop :=
  ∀ m ∈ db.regionMappings, m.ruleId ∈ db.rules.map StoredRule.id

variable {call : AdminCall} {body : CreateRuleRequest} {db : ConfigDb} {s : ConfigSession}
  {regionId tenantId : Uuid} {regionIds : List Uuid}

theorem AdminCall.mapsRegions_nil : call.MapsRegions db [] :=
  ⟨by simp, List.nodup_nil, by simp⟩

/-- The regions after the first one meet the mapping of the first one. -/
theorem AdminCall.mapsRegions_cons : call.MapsRegions db (regionId :: regionIds) ↔
    call.MapsRegions db [regionId] ∧
      call.MapsRegions (call.addMappings [regionId] db) regionIds := by
  constructor
  · intro h
    obtain ⟨hnot, hdistinct⟩ := List.nodup_cons.mp h.distinct
    refine ⟨⟨?_, List.nodup_singleton _, ?_⟩, ⟨?_, hdistinct, ?_⟩⟩
    · intro other hother
      exact h.own other (List.mem_singleton.mp hother ▸ List.mem_cons_self)
    · intro m hm hrule hmem
      exact h.free m hm hrule (List.mem_singleton.mp hmem ▸ List.mem_cons_self)
    · intro other hother
      exact h.own other (List.mem_cons_of_mem _ hother)
    · intro m hm hrule hmem
      rcases List.mem_append.mp hm with hm | hm
      · exact h.free m hm hrule (List.mem_cons_of_mem _ hmem)
      · rw [List.map_singleton, List.mem_singleton] at hm
        rw [hm] at hmem
        exact hnot hmem
  · intro h
    obtain ⟨hfirst, hrest⟩ := h
    have hnot : regionId ∉ regionIds :=
      hrest.free (call.mapping regionId) (List.mem_append_right _ (by simp)) rfl
    refine ⟨?_, List.nodup_cons.mpr ⟨hnot, hrest.distinct⟩, ?_⟩
    · intro other hother
      rcases List.mem_cons.mp hother with rfl | hother
      · exact hfirst.own other (List.mem_singleton_self other)
      · exact hrest.own other hother
    · intro m hm hrule hmem
      rcases List.mem_cons.mp hmem with heq | hmem
      · exact hfirst.free m hm hrule (List.mem_singleton.mpr heq)
      · exact hrest.free m (List.mem_append_left _ hm) hrule hmem

theorem ends_createMapping_iff (hsees : s.sees call.tenantId = true) (regionId : Uuid) :
    Ends (createMapping call regionId) s
      (fun _ t => t = { s with tx := call.addMappings [regionId] s.tx } ∧
        call.MapsRegions s.tx [regionId])
      (fun _ _ => ¬call.MapsRegions s.tx [regionId]) := by
  unfold createMapping
  refine ends_bind.mpr ((ends_requireOwn_iff hsees).mono ?_ ?_)
  · intro _ t ht
    obtain ⟨rfl, howner⟩ := ht
    simp only [ends_bind, ends_get, ends_raiseWhen]
    constructor
    · intro htaken hmaps
      obtain ⟨m, hm, htaken⟩ := List.any_eq_true.mp htaken
      obtain ⟨hrule, hregion⟩ := of_decide_eq_true htaken
      exact hmaps.free m hm hrule (List.mem_singleton.mpr hregion)
    · intro hfree
      refine ⟨rfl, ?_, List.pairwise_singleton _ _, ?_⟩
      · intro other hother
        rw [List.mem_singleton.mp hother]
        exact howner
      · intro m hm hrule hmem
        have hnone := List.any_eq_false.mp hfree m hm
        exact hnone (decide_eq_true ⟨hrule, List.mem_singleton.mp hmem⟩)
  · intro _ _ hother hmaps
    exact hother (hmaps.own regionId (List.mem_singleton_self regionId))

/-- The loop stops at the first region that may not be mapped. -/
theorem ends_createMappings_iff (regionIds : List Uuid) (hsees : s.sees call.tenantId = true) :
    Ends (forM regionIds (createMapping call)) s
      (fun _ t => t = { s with tx := call.addMappings regionIds s.tx } ∧
        call.MapsRegions s.tx regionIds)
      (fun _ _ => ¬call.MapsRegions s.tx regionIds) := by
  induction regionIds generalizing s with
  | nil =>
    refine ⟨?_, AdminCall.mapsRegions_nil⟩
    simp [AdminCall.addMappings]
  | cons regionId regionIds ih =>
    rw [List.forM_cons]
    refine ends_bind.mpr ((ends_createMapping_iff hsees regionId).mono ?_ ?_)
    · intro _ t ht
      obtain ⟨rfl, hfirst⟩ := ht
      have hsees' : ({ s with tx := call.addMappings [regionId] s.tx } : ConfigSession).sees
          call.tenantId = true := hsees
      refine (ih hsees').mono ?_ ?_
      · intro _ u hu
        obtain ⟨rfl, hrest⟩ := hu
        refine ⟨?_, AdminCall.mapsRegions_cons.mpr ⟨hfirst, hrest⟩⟩
        simp [AdminCall.addMappings]
      · intro _ _ hrest hmaps
        exact hrest (AdminCall.mapsRegions_cons.mp hmaps).2
    · intro _ _ hfirst hmaps
      exact hfirst (AdminCall.mapsRegions_cons.mp hmaps).1

/-- The rule is new, so no mapping is of it yet. -/
theorem AdminCall.mapsRegions_new (hrefer : db.MappingsRefer)
    (hnew : call.newId ∉ db.rules.map StoredRule.id) :
    call.MapsRegions { db with rules := db.rules ++ [call.rule body] } regionIds ↔
      (∀ regionId ∈ regionIds, db.regionOwner regionId = some call.tenantId) ∧
        regionIds.Nodup := by
  constructor
  · intro h
    exact ⟨h.own, h.distinct⟩
  · intro h
    refine ⟨h.1, h.2, ?_⟩
    intro m hm hrule
    have hid := hrefer m hm
    rw [hrule] at hid
    exact absurd hid hnew

/-- The rule is created unless the mode, the row itself or a region is refused. -/
theorem ends_createRule_iff (hsees : s.sees call.tenantId = true) (hrefer : s.tx.MappingsRefer) :
    Ends (createRule call body) s
      (fun response t => (response = call.ruleResponse body ∧
          t = { s with tx := call.withRule body s.tx }) ∧
        s.tx.contextModeOwner body.contextModeId = some call.tenantId ∧
          call.Inserts s.tx (s.tx.rules.map StoredRule.id) ∧
          (∀ regionId ∈ body.regionIds, s.tx.regionOwner regionId = some call.tenantId) ∧
          body.regionIds.Nodup)
      (fun _ _ => ¬(s.tx.contextModeOwner body.contextModeId = some call.tenantId ∧
        call.Inserts s.tx (s.tx.rules.map StoredRule.id) ∧
        (∀ regionId ∈ body.regionIds, s.tx.regionOwner regionId = some call.tenantId) ∧
        body.regionIds.Nodup)) := by
  unfold createRule
  refine ends_bind.mpr ((ends_requireOwn_iff hsees).mono ?_ ?_)
  · intro _ t ht
    obtain ⟨rfl, hmode⟩ := ht
    refine ends_bind.mpr (ends_insert_iff.mono ?_ ?_)
    · intro _ u hu
      obtain ⟨rfl, hinserts⟩ := hu
      have hnew := @AdminCall.mapsRegions_new call body t.tx body.regionIds hrefer hinserts.fresh
      have hloop := @ends_createMappings_iff call
        { t with tx := { t.tx with rules := t.tx.rules ++ [call.rule body] } } body.regionIds hsees
      refine ends_bind.mpr (hloop.mono ?_ ?_)
      · intro _ v hv
        obtain ⟨rfl, hmaps⟩ := hv
        exact ⟨⟨rfl, rfl⟩, hmode, hinserts, hnew.mp hmaps⟩
      · intro _ _ hrefused hcreates
        exact hrefused (hnew.mpr hcreates.2.2)
    · intro _ _ hrefused hcreates
      exact hrefused hcreates.2.1
  · intro _ _ hother hcreates
    exact hother hcreates.1

theorem createRuleResult_cases (hrefer : db.MappingsRefer) :
    (call.CreatesRule db body ∧ call.createRuleResult body db = .ok (call.ruleResponse body) ∧
        ∃ tenant role, call.context = .ok (tenant, role) ∧
          exec (createRule call body) ⟨db, tenant, role⟩ =
            (.ok (call.ruleResponse body), ⟨call.withRule body db, tenant, role⟩)) ∨
      ¬call.CreatesRule db body ∧ ∃ e, call.createRuleResult body db = .error e := by
  unfold AdminCall.createRuleResult
  cases hcontext : call.context with
  | error e =>
    right
    refine ⟨?_, e, rfl⟩
    intro hcreates
    have hok := hcreates.context
    rw [hcontext] at hok
    cases hok
  | ok context =>
    obtain ⟨tenant, role⟩ := context
    have hends := @ends_createRule_iff call body ⟨db, tenant, role⟩
      (AdminCall.context_sees hcontext) hrefer
    rcases hexec : exec (createRule call body) ⟨db, tenant, role⟩ with ⟨r | response, t⟩
    · right
      refine ⟨?_, r, ?_⟩
      · intro hcreates
        exact hends.error hexec
          ⟨hcreates.own, hcreates.inserts, hcreates.regions, hcreates.distinct⟩
      · simp only [hexec]
    · left
      obtain ⟨⟨rfl, rfl⟩, hmode, hinserts, hregions, hdistinct⟩ := hends.ok hexec
      refine ⟨⟨?_, hmode, hinserts, hregions, hdistinct⟩, ?_, tenant, role, rfl, hexec⟩
      · rw [hcontext]
        rfl
      · simp only [hexec]

theorem response_cases (rule : StoredRule) (regionIds : List Uuid) :
    rule.response regionIds = .error (.valueError "Input should be a valid dictionary") ∨
      ∃ response, rule.response regionIds = .ok response := by
  unfold StoredRule.response
  cases rule.condition with
  | obj condition => exact Or.inr ⟨_, rfl⟩
  | _ => exact Or.inl rfl

/-- Whatever order the queries meet the rows in, the rules listed and their regions are the same. -/
theorem listRules_order (s : ConfigSession) (order order' : RuleOrder) (tenantId : Uuid) :
    bag RuleResponse.unordered (s.listRules order tenantId) =
      bag RuleResponse.unordered (s.listRules order' tenantId) := by
  have hregions : ∀ rule : StoredRule,
      RuleResponse.unordered <$> rule.response (s.regionIds (order.regionMappings rule.id) rule) =
        RuleResponse.unordered <$>
          rule.response (s.regionIds (order'.regionMappings rule.id) rule) := by
    intro rule
    have hperm : (s.regionIds (order.regionMappings rule.id) rule).Perm
        (s.regionIds (order'.regionMappings rule.id) rule) :=
      ((RowOrder.perm _ _).trans (RowOrder.perm _ _).symm).map _
    unfold StoredRule.response
    cases rule.condition with
    | obj condition =>
      exact congrArg (fun regions => Except.ok (_, regions)) (Multiset.coe_eq_coe.mpr hperm)
    | _ => rfl
  unfold ConfigSession.listRules
  rw [bag_mapM_congr hregions]
  exact bag_mapM_perm (fun rule => response_cases rule _)
    ((order.rules.perm _).trans (order'.rules.perm _).symm)

theorem listRules_returns (h : s.tx.ObjectConditions tenantId) (order : RuleOrder) :
    ∃ rows, s.listRules order tenantId = .ok rows := by
  refine mapM_returns ?_
  intro rule hrule
  obtain ⟨hmem, hshown⟩ := List.mem_filter.mp ((order.rules.perm _).mem_iff.mp hrule)
  simp only [Bool.and_eq_true, decide_eq_true_eq] at hshown
  obtain ⟨condition, hcondition⟩ := h rule hmem hshown.1
  unfold StoredRule.response
  rw [hcondition]
  exact ⟨_, rfl⟩

theorem listRules_unseen (h : s.sees tenantId = false) (order : RuleOrder) :
    s.listRules order tenantId = .ok [] := by
  have hnone : (s.tx.rules.filter fun r => r.tenantId = tenantId && s.sees r.tenantId) = [] := by
    rw [List.filter_eq_nil_iff]
    intro rule _ hshown
    simp only [Bool.and_eq_true, decide_eq_true_eq] at hshown
    rw [hshown.1, h] at hshown
    exact Bool.false_ne_true hshown.2
  unfold ConfigSession.listRules
  rw [hnone, List.perm_nil.mp (order.rules.perm [])]
  rfl

theorem listRules_asStored (s : ConfigSession) (tenantId : Uuid) :
    s.listRules .asStored tenantId =
      (s.tx.rules.filter fun r => r.tenantId = tenantId && s.sees r.tenantId).mapM fun rule =>
        rule.response (s.regionIds .asStored rule) :=
  rfl

theorem regionIds_withRule_of_ne {rule : StoredRule} (hne : rule.id ≠ call.newId)
    (tenant : Option Uuid) (role : UserRole) (order : RowOrder RuleRegionMapping) :
    (ConfigSession.mk (call.withRule body db) tenant role).regionIds order rule =
      (ConfigSession.mk db tenant role).regionIds order rule := by
  have hnone : ((body.regionIds.map call.mapping).filter fun m => m.ruleId = rule.id &&
      (ConfigSession.mk (call.withRule body db) tenant role).sees m.tenantId) = [] := by
    rw [List.filter_eq_nil_iff]
    intro m hm
    obtain ⟨regionId, -, rfl⟩ := List.mem_map.mp hm
    simp [AdminCall.mapping, Ne.symm hne]
  unfold ConfigSession.regionIds
  simp only [AdminCall.withRule, AdminCall.addMappings, List.filter_append] at hnone ⊢
  rw [hnone, List.append_nil]
  rfl

theorem regionIds_withRule (hrefer : db.MappingsRefer)
    (hnew : call.newId ∉ db.rules.map StoredRule.id) {tenant : Option Uuid} {role : UserRole}
    (hsees : (ConfigSession.mk (call.withRule body db) tenant role).sees call.tenantId = true) :
    (ConfigSession.mk (call.withRule body db) tenant role).regionIds .asStored (call.rule body) =
      body.regionIds := by
  have hold : (db.regionMappings.filter fun m => m.ruleId = (call.rule body).id &&
      (ConfigSession.mk (call.withRule body db) tenant role).sees m.tenantId) = [] := by
    rw [List.filter_eq_nil_iff]
    intro m hm
    have hne : m.ruleId ≠ call.newId := by
      intro heq
      exact hnew (heq ▸ hrefer m hm)
    simp [AdminCall.rule, hne]
  have hall : ((body.regionIds.map call.mapping).filter fun m => m.ruleId = (call.rule body).id &&
      (ConfigSession.mk (call.withRule body db) tenant role).sees m.tenantId) =
        body.regionIds.map call.mapping := by
    rw [List.filter_eq_self]
    intro m hm
    obtain ⟨regionId, -, rfl⟩ := List.mem_map.mp hm
    simp [AdminCall.mapping, AdminCall.rule, hsees]
  unfold ConfigSession.regionIds
  simp only [AdminCall.withRule, AdminCall.addMappings, List.filter_append, RowOrder.asStored,
    id_eq] at hold hall ⊢
  rw [hold, hall, List.nil_append, List.map_map]
  exact List.map_id _

/-- The rows of the rules that were there are shown as before. -/
theorem mapM_withRule (hnew : call.newId ∉ db.rules.map StoredRule.id) (tenant : Option Uuid)
    (role : UserRole) {rules : List StoredRule} (hrules : ∀ rule ∈ rules, rule ∈ db.rules) :
    (rules.mapM fun rule => rule.response
      ((ConfigSession.mk (call.withRule body db) tenant role).regionIds .asStored rule)) =
    rules.mapM fun rule =>
      rule.response ((ConfigSession.mk db tenant role).regionIds .asStored rule) := by
  induction rules with
  | nil => rfl
  | cons rule rules ih =>
    have hne : rule.id ≠ call.newId := by
      intro heq
      exact hnew (List.mem_map.mpr ⟨rule, hrules rule List.mem_cons_self, heq⟩)
    rw [List.mapM_cons, List.mapM_cons, regionIds_withRule_of_ne hne,
      ih fun other hother => hrules other (List.mem_cons_of_mem _ hother)]

theorem listRules_withRule (hrefer : db.MappingsRefer)
    (hnew : call.newId ∉ db.rules.map StoredRule.id) {tenant : Option Uuid} {role : UserRole}
    (hsees : (ConfigSession.mk (call.withRule body db) tenant role).sees call.tenantId = true) :
    (ConfigSession.mk (call.withRule body db) tenant role).listRules .asStored call.tenantId =
      (· ++ [call.ruleResponse body]) <$>
        (ConfigSession.mk db tenant role).listRules .asStored call.tenantId := by
  have hrules : (call.withRule body db).rules = db.rules ++ [call.rule body] := rfl
  have hshown : (call.rule body).response ((ConfigSession.mk (call.withRule body db) tenant
      role).regionIds .asStored (call.rule body)) = .ok (call.ruleResponse body) := by
    rw [regionIds_withRule hrefer hnew hsees]
    rfl
  have hkept : ([call.rule body].filter fun r => decide (r.tenantId = call.tenantId) &&
      (ConfigSession.mk (call.withRule body db) tenant role).sees r.tenantId) =
        [call.rule body] := by
    simp [AdminCall.rule, hsees]
  have hsame : (ConfigSession.mk (call.withRule body db) tenant role).sees =
      (ConfigSession.mk db tenant role).sees := rfl
  simp only [listRules_asStored]
  rw [hrules, List.filter_append, hkept, List.mapM_append, List.mapM_cons, hshown,
    mapM_withRule hnew tenant role fun _ h => List.mem_of_mem_filter h, hsame]
  generalize List.mapM (m := Except Exn) _ _ = listed
  cases listed <;> rfl

theorem listRules_withRule_other (hnew : call.newId ∉ db.rules.map StoredRule.id)
    (tenant : Option Uuid) (role : UserRole) {tenantId : Uuid} (hne : tenantId ≠ call.tenantId) :
    (ConfigSession.mk (call.withRule body db) tenant role).listRules .asStored tenantId =
      (· ++ []) <$> (ConfigSession.mk db tenant role).listRules .asStored tenantId := by
  have hrules : (call.withRule body db).rules = db.rules ++ [call.rule body] := rfl
  have hdropped : ([call.rule body].filter fun r => decide (r.tenantId = tenantId) &&
      (ConfigSession.mk (call.withRule body db) tenant role).sees r.tenantId) = [] := by
    simp [AdminCall.rule, Ne.symm hne]
  have hempty : (fun rows : List RuleResponse => rows ++ []) = id := by
    funext rows
    exact List.append_nil rows
  rw [hempty, id_map]
  simp only [listRules_asStored]
  rw [hrules, List.filter_append, hdropped, List.append_nil,
    mapM_withRule hnew tenant role fun _ h => List.mem_of_mem_filter h]
  rfl

/-- What holds of the lists as they are stored holds of them in any order. -/
theorem listRules_more {s s' : ConfigSession} {added : List RuleResponse}
    (h : s'.listRules .asStored tenantId = (· ++ added) <$> s.listRules .asStored tenantId)
    (order order' : RuleOrder) :
    bag RuleResponse.unordered (s'.listRules order' tenantId) =
      bag RuleResponse.unordered ((· ++ added) <$> s.listRules order tenantId) := by
  rw [listRules_order s' order' .asStored, h, bag_append, bag_append,
    listRules_order s .asStored order]

/-- A tenant whose conditions are objects has its rules listed, with those that were added. -/
theorem listRules_lists {s s' : ConfigSession} {added : List RuleResponse}
    (h : s'.listRules .asStored tenantId = (· ++ added) <$> s.listRules .asStored tenantId)
    (hobjects : s.tx.ObjectConditions tenantId) (order order' : RuleOrder) :
    ∃ before rows, s.listRules order tenantId = .ok before ∧
      s'.listRules order' tenantId = .ok rows ∧ SameResponses rows (before ++ added) := by
  obtain ⟨before, hbefore⟩ := listRules_returns hobjects order
  obtain ⟨rows, hrows, hsame⟩ := (more_of_bag (listRules_more h order order')).2 before hbefore
  exact ⟨before, rows, hbefore, hrows, hsame⟩

theorem addsRule (hrefer : db.MappingsRefer) (hcreates : call.CreatesRule db body) :
    call.AddsRule body (call.ruleResponse body) db (call.withRule body db) := by
  have hnew := hcreates.inserts.fresh
  refine ⟨rfl, hcreates.distinct, rfl, ?_, ?_, ?_, ?_⟩
  · intro tenant role order order' hsees hobjects
    have hadded := listRules_withRule hrefer hnew hsees
    exact listRules_lists hadded hobjects order order'
  · intro tenant role order order' tenantId hne hobjects
    have hkept := @listRules_withRule_other call body db hnew tenant role _ hne
    obtain ⟨before, rows, hbefore, hrows, hsame⟩ := listRules_lists hkept hobjects order order'
    rw [List.append_nil] at hsame
    exact ⟨before, rows, hbefore, hrows, hsame⟩
  · intro tenant role order order' tenantId e hraised
    by_cases hown : tenantId = call.tenantId
    · subst hown
      -- a session that does not see the tenant lists no rules of it, and does not raise
      by_cases hsees : (ConfigSession.mk (call.withRule body db) tenant role).sees call.tenantId
      · have hmore := listRules_more (listRules_withRule hrefer hnew hsees) order order'
        exact (more_of_bag hmore).1 e hraised
      · have hnone := @listRules_unseen ⟨db, tenant, role⟩ call.tenantId
          (Bool.eq_false_iff.mpr hsees) order
        rw [hnone] at hraised
        cases hraised
    · have hmore := listRules_more (@listRules_withRule_other call body db hnew tenant role _ hown)
        order order'
      exact (more_of_bag hmore).1 e hraised
  · intro tenantId hobjects rule hrule howner
    rcases List.mem_append.mp hrule with hrule | hrule
    · exact hobjects rule hrule howner
    · obtain rfl := List.mem_singleton.mp hrule
      exact ⟨body.condition, rfl⟩

theorem exec_discard {α : Type} (x : ConfigProc α) (s : ConfigSession) :
    exec (discard x) s = match exec x s with
      | (.ok _, t) => (.ok (), t)
      | (.error e, t) => (.error e, t) := by
  have hbind : discard x = x >>= fun _ => pure () := rfl
  rw [hbind, exec_bind]
  rcases exec x s with ⟨e | a, t⟩ <;> rfl

theorem handle_createRule (hbody : call.body = .createRule body) :
    call.handle = discard (createRule call body) := by
  unfold AdminCall.handle
  rw [hbody]

/-- A session whose handler raises is rolled back. -/
theorem serve_of_error (hbody : call.body = .createRule body) {e : Exn}
    (h : call.createRuleResult body db = .error e) : call.serve db = (.error e, db) := by
  unfold AdminCall.createRuleResult at h
  unfold AdminCall.serve
  cases hcontext : call.context with
  | error cause =>
    rw [hcontext] at h
    cases h
    rfl
  | ok context =>
    obtain ⟨tenant, role⟩ := context
    rw [hcontext] at h
    simp only [handle_createRule hbody, exec_discard]
    dsimp only at h
    rcases hexec : exec (createRule call body) ⟨db, tenant, role⟩ with ⟨r | r, t⟩
    · rw [hexec] at h
      cases h
      rfl
    · rw [hexec] at h
      cases h

/-- A request for a rule that raises leaves the tables as they are; one that returns adds the rule
and one mapping for each listed region, once it is committed, and nothing else. -/
theorem createRule_all_or_nothing (call : AdminCall) (body : CreateRuleRequest) (db : ConfigDb)
    (hbody : call.body = .createRule body) (hrefer : db.MappingsRefer) :
    (∀ e, call.createRuleResult body db = .error e →
      ¬call.CreatesRule db body ∧ call.serve db = (.error e, db)) ∧
    ∀ response, call.createRuleResult body db = .ok response →
      call.CreatesRule db body ∧ call.AddsRule body response db (call.withRule body db) ∧
        (call.serve db).2 = if call.commit.executed then call.withRule body db else db := by
  rcases createRuleResult_cases hrefer with ⟨hcreates, hok, tenant, role, hcontext, hexec⟩ |
    ⟨hrefused, e, herror⟩
  · constructor
    · intro e herror
      rw [hok] at herror
      cases herror
    · intro response hresponse
      rw [hok] at hresponse
      cases hresponse
      refine ⟨hcreates, addsRule hrefer hcreates, ?_⟩
      unfold AdminCall.serve
      rw [hcontext, handle_createRule hbody]
      simp only [exec_discard, hexec]
  · constructor
    · intro e' herror'
      exact ⟨hrefused, serve_of_error hbody herror'⟩
    · intro response hresponse
      rw [herror] at hresponse
      cases hresponse

/-- A rule for both of the regions. -/
def gateRule : CreateRuleRequest :=
  ⟨⟨3⟩, "Loitering", [("field", .str "loitering")], 5, [⟨30⟩, ⟨31⟩]⟩

/-- The newest rule and the last region of each first. -/
def RuleOrder.reversed : RuleOrder where
  rules := ⟨List.reverse, List.reverse_perm⟩
  regionMappings := fun _ => ⟨List.reverse, List.reverse_perm⟩

theorem createRule_all_or_nothing_sample :
    (afterRegions [40]).MappingsRefer ∧
    ((adminCall 1 41 (.createRule gateRule)).serve (afterRegions [40])).2 =
      (adminCall 1 41 (.createRule gateRule)).withRule gateRule (afterRegions [40]) ∧
    ∃ before rows,
      (ConfigSession.mk (afterRegions [40]) (some ⟨1⟩) .tenantAdmin).listRules .asStored ⟨1⟩ =
        .ok before ∧
      (ConfigSession.mk ((adminCall 1 41 (.createRule gateRule)).serve (afterRegions [40])).2
        (some ⟨1⟩) .tenantAdmin).listRules .reversed ⟨1⟩ = .ok rows ∧
      (rows.map fun r => (r.id, r.regionIds)) = [(⟨41⟩, [⟨31⟩, ⟨30⟩]), (⟨40⟩, [⟨31⟩])] ∧
      SameResponses rows
        (before ++ [(adminCall 1 41 (.createRule gateRule)).ruleResponse gateRule]) := by
  have hrefer : (afterRegions [40]).MappingsRefer := by
    unfold ConfigDb.MappingsRefer
    decide +kernel
  have hall := createRule_all_or_nothing (adminCall 1 41 (.createRule gateRule)) gateRule
    (afterRegions [40]) rfl hrefer
  obtain ⟨response, hresult⟩ : ∃ response, (adminCall 1 41 (.createRule gateRule)).createRuleResult
      gateRule (afterRegions [40]) = .ok response := ⟨_, rfl⟩
  obtain ⟨-, hadds, hserved⟩ := hall.2 response hresult
  obtain rfl := hadds.answered
  have hobjects : (afterRegions [40]).ObjectConditions ⟨1⟩ := by
    intro rule hrule _
    obtain rfl := List.mem_singleton.mp hrule
    exact ⟨_, rfl⟩
  obtain ⟨before, rows, hbefore, hrows, hsame⟩ :=
    hadds.listed (some ⟨1⟩) .tenantAdmin .asStored .reversed rfl hobjects
  refine ⟨hrefer, hserved, before, rows, hbefore, ?_, ?_, hsame⟩
  · rw [hserved]
    exact hrows
  · cases hrows
    rfl

end ArgusServices

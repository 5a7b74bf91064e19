import ArgusServices.SeverityScore

namespace ArgusServices

open Effect

/-- The members of a JSON object. -/
abbrev Members := List (String × Json)

/-- `members.get(key)`. -/
def Members.item (members : Members) (key : String) : Json :=
  (members.lookup key).getD .null

/-- The value can be a key of a dict. -/
def Json.hashable : Json → Bool
  | .arr _ | .obj _ => false
  | _ => true

def Json.isNull : Json → Bool
  | .null => true
  | _ => false

mutual

/-- The two values can be compared with `>=`. -/
def Json.comparable : Json → Json → Bool
  | .str _, .str _ => true
  | .arr xs, .arr ys => comparableItems xs ys
  | x, y => x.number.isSome && y.number.isSome

/-- Two lists can be if the first items that differ can. -/
def Json.comparableItems : List Json → List Json → Bool
  | x :: xs, y :: ys => if x.eq y then comparableItems xs ys else x.comparable y
  | _, _ => true

end

/-- The item of the result that a condition on this field is about. -/
def Members.subject (members : Members) (field : Json) : Json :=
  if field.eq (.str "suspicious") then members.item "is_suspicious"
  else
    match field with
    | .str key => members.item key
    | _ => .null

/-- The field of the condition can be looked up. -/
def Rule.keyed (rule : Rule) : Bool :=
  match rule.condition with
  | .obj condition => (Members.item condition "field").hashable
  | _ => false

/-- The comparison of the condition, if there is one, does not raise. -/
def Rule.compares (rule : Rule) (members : Members) : Bool :=
  match rule.condition with
  | .obj condition =>
    let actual := members.subject (Members.item condition "field")
    !(Members.item condition "op").eq (.str "gte") || actual.isNull ||
      actual.comparable (Members.item condition "value")
  | _ => false

/-- The condition of the rule holds of the result. -/
def Rule.matchesResult (rule : Rule) (members : Members) : Bool :=
  (matchesCondition rule.condition (.obj members)).toOption.getD false

/-- The weights of the matching rules together. -/
def matchingWeights (rules : List Rule) (members : Members) : Int :=
  ((rules.filter fun r => r.matchesResult members).map Rule.severityWeight).sum

def Members.suspicious (members : Members) : Bool :=
  (members.item "is_suspicious").truthy

/-- The hint that scores a suspicious result: a truthy `severity_hint`, or else the
`confidence_score`, which is one if there is none. -/
def Members.hint (members : Members) : Json :=
  if (members.item "severity_hint").truthy then members.item "severity_hint"
  else (members.lookup "confidence_score").getD (.int 1)

def PyFloat.isFinite : PyFloat → Bool
  | .finite _ => true
  | .infinite _ | .nan => false

/-- A score can be made of the hint. -/
def Json.scores (intOfStr : String → Except Exn Int) : Json → Bool
  | .bool _ | .int _ => true
  | .float x => x.triple.isFinite
  | .str s => (intOfStr s).isOk
  | _ => false

/-- Some rule matches. -/
def Members.matched (members : Members) (rules : List Rule) : Prop :=
  ∃ rule ∈ rules, rule.matchesResult members = true

/-- Each hint there is, is a number. -/
def Members.NumericHints (members : Members) : Prop :=
  ∀ key ∈ ["severity_hint", "confidence_score"], ∀ hint ∈ members.lookup key,
    (∃ k, hint = .int k) ∨ ∃ x, hint = .float x

/-- What a score is to be: the weights of the matching rules; if none matches, at least one for a
suspicious result with numeric hints, and zero for one that is not suspicious. -/
structure ScoredAsMeant (intOfStr : String → Except Exn Int) (members : Members)
    (rules : List Rule) : Prop where
  matched : members.matched rules →
    computeSeverityScore intOfStr (.obj members) rules = .ok (matchingWeights rules members)
  suspicious : ¬members.matched rules → members.lookup "is_suspicious" = some (.bool true) →
    members.NumericHints → ∃ n, 1 ≤ n ∧ computeSeverityScore intOfStr (.obj members) rules = .ok n
  clear : ¬members.matched rules →
    (members.lookup "is_suspicious" = none ∨
      members.lookup "is_suspicious" = some (.bool false)) →
    computeSeverityScore intOfStr (.obj members) rules = .ok 0

/-- There is something the score is to be. -/
def Members.Meant (members : Members) (rules : List Rule) : Prop :=
  members.matched rules ∨
    members.lookup "is_suspicious" = some (.bool true) ∧ members.NumericHints ∨
    members.lookup "is_suspicious" = none ∨ members.lookup "is_suspicious" = some (.bool false)

/-- The hint scores zero. -/
def Json.ScoresZero (intOfStr : String → Except Exn Int) : Json → Prop
  | .bool b => b = false
  | .int k => k = 0
  | .str s => intOfStr s = .ok 0
  | _ => False

/-- The hint scores at least one, of those that are numbers. -/
def Json.ScoresPositive : Json → Prop
  | .int k => 1 ≤ k
  | .float x => x.triple.isFinite = true
  | _ => False

/-- The fields can be looked up; weights that cancel out are not replaced by a hint; and the hint
of a suspicious result that no rule matches is positive. -/
structure ScoresSound (intOfStr : String → Except Exn Int) (members : Members)
    (rules : List Rule) : Prop where
  keyed : members.Meant rules → ∀ rule ∈ rules, rule.keyed = true
  cancelled : members.matched rules → matchingWeights rules members = 0 →
    members.suspicious = true → members.hint.ScoresZero intOfStr
  hint : ¬members.matched rules → members.lookup "is_suspicious" = some (.bool true) →
    members.NumericHints → members.hint.ScoresPositive

variable {intOfStr : String → Except Exn Int} {members : Members} {rules : List Rule}
  {rule : Rule} {n : Int}

mutual

theorem Json.isOk_ge : ∀ x y : Json, (x.ge y).isOk = x.comparable y := by
  intro x y
  cases x with
  | arr xs =>
    cases y with
    | arr ys => exact Json.isOk_geItems xs ys
    | _ => rfl
  | _ => cases y <;> rfl

theorem Json.isOk_geItems : ∀ xs ys : List Json,
    (Json.geItems xs ys).isOk = Json.comparableItems xs ys := by
  intro xs ys
  cases xs with
  | nil => cases ys <;> rfl
  | cons x xs =>
    cases ys with
    | nil => rfl
    | cons y ys =>
      unfold Json.geItems Json.comparableItems
      split
      · exact Json.isOk_geItems xs ys
      · exact Json.isOk_ge x y

end

theorem getField_of_hashable {field : Json} (hkeyed : field.hashable = true)
    (hfield : field.eq (.str "suspicious") = false) :
    (Json.obj members).getField field = .ok (members.subject field) := by
  unfold Members.subject
  rw [hfield]
  cases field with
  | arr items => cases hkeyed
  | obj ms => cases hkeyed
  | _ => rfl

/-- What a condition on a subject comes to. -/
def decideCondition (op actual expected : Json) : Except Exn Bool :=
  if op.eq (.str "eq") then .ok (actual.eq expected)
  else if op.eq (.str "gte") then
    match actual with
    | .null => .ok false
    | actual => actual.ge expected
  else .ok false

/-- A condition on a field that can be looked up is decided on its subject. -/
theorem matchesCondition_obj {condition : Members}
    (hkeyed : (condition.item "field").hashable = true) :
    matchesCondition (.obj condition) (.obj members) =
      decideCondition (condition.item "op") (members.subject (condition.item "field"))
        (condition.item "value") := by
  unfold matchesCondition
  simp only [Json.get, bind, Except.bind]
  cases hfield : (condition.item "field").eq (.str "suspicious") with
  | true =>
    have hsubject : members.subject (condition.item "field") = members.item "is_suspicious" :=
      if_pos hfield
    rw [hsubject]
    unfold Members.item at hfield ⊢
    rw [if_pos hfield]
    rfl
  | false =>
    have hget : (Json.obj members).getField _ = _ := getField_of_hashable hkeyed hfield
    unfold Members.item at hfield hget ⊢
    rw [if_neg (ne_true_of_eq_false hfield), hget]
    rfl

theorem isOk_decideCondition {op actual expected : Json} :
    (decideCondition op actual expected).isOk =
      (!op.eq (.str "gte") || actual.isNull || actual.comparable expected) := by
  unfold decideCondition
  cases hgte : op.eq (.str "gte") with
  | false =>
    split
    · rfl
    · rfl
  | true =>
    have hne : op.eq (.str "eq") = false := by
      cases op with
      | str s =>
        simp only [Json.eq, decide_eq_true_eq] at hgte
        subst hgte
        decide +kernel
      | _ => rfl
    rw [if_neg (ne_true_of_eq_false hne), if_pos rfl, ← Json.isOk_ge]
    cases actual <;> rfl

theorem not_isOk_of_unhashable {condition : Members}
    (hkeyed : (condition.item "field").hashable = false) :
    (matchesCondition (.obj condition) (.obj members)).isOk = false := by
  unfold Members.item at hkeyed
  unfold matchesCondition
  simp only [Json.get, bind, Except.bind]
  cases hfield : (condition.lookup "field").getD .null with
  | arr items => rfl
  | obj ms => rfl
  | _ =>
    rw [hfield] at hkeyed
    cases hkeyed

/-- A condition can be decided if its field can be looked up and its comparison does not raise. -/
theorem isOk_matchesCondition : (matchesCondition rule.condition (.obj members)).isOk =
    (rule.keyed && rule.compares members) := by
  unfold Rule.keyed Rule.compares
  cases rule.condition with
  | obj condition =>
    dsimp only
    cases hkeyed : (Members.item condition "field").hashable with
    | true => rw [matchesCondition_obj hkeyed, isOk_decideCondition, Bool.true_and]
    | false => rw [not_isOk_of_unhashable hkeyed, Bool.false_and]
  | _ => rfl

/-- The condition of the rule can be decided on the result. -/
def Rule.decides (rule : Rule) (members : Members) : Bool :=
  rule.keyed && rule.compares members

theorem matchesCondition_eq_ok_iff {b : Bool} :
    matchesCondition rule.condition (.obj members) = .ok b ↔
      rule.decides members = true ∧ rule.matchesResult members = b := by
  unfold Rule.decides Rule.matchesResult
  rw [← isOk_matchesCondition]
  cases matchesCondition rule.condition (.obj members) with
  | error e => simp [Except.isOk, Except.toBool]
  | ok c => simp [Except.isOk, Except.toBool, Except.toOption]

theorem matchingWeights_cons : matchingWeights (rule :: rules) members =
    (if rule.matchesResult members then rule.severityWeight else 0) +
      matchingWeights rules members := by
  unfold matchingWeights
  rw [List.filter_cons]
  split
  · rw [List.map_cons, List.sum_cons]
  · rw [Int.zero_add]

theorem foldlM_rules_eq_ok_iff {start : Int} :
    rules.foldlM (fun score rule => do
        if ← matchesCondition rule.condition (.obj members) then
          pure (score + rule.severityWeight)
        else pure score) start = Except.ok n ↔
      (∀ rule ∈ rules, rule.decides members = true) ∧
        n = start + matchingWeights rules members := by
  induction rules generalizing start with
  | nil =>
    simp only [List.foldlM_nil, matchingWeights]
    constructor
    · intro h
      obtain rfl := Except.ok.inj h
      simp
    · intro h
      rw [h.2]
      simp [pure, Except.pure]
  | cons rule rules ih =>
    rw [List.foldlM_cons, bind_eq_ok, List.forall_mem_cons, matchingWeights_cons]
    constructor
    · intro h
      obtain ⟨score, hscore, hrest⟩ := h
      obtain ⟨b, hb, hpure⟩ := bind_eq_ok.mp hscore
      obtain ⟨hdecides, hmatches⟩ := matchesCondition_eq_ok_iff.mp hb
      obtain ⟨hall, hn⟩ := ih.mp hrest
      refine ⟨⟨hdecides, hall⟩, ?_⟩
      rw [hmatches, hn]
      cases b with
      | true =>
        obtain rfl := Except.ok.inj hpure
        simp [Int.add_assoc]
      | false =>
        obtain rfl := Except.ok.inj hpure
        simp
    · intro h
      obtain ⟨⟨hdecides, hall⟩, hn⟩ := h
      have hb := matchesCondition_eq_ok_iff.mpr ⟨hdecides, rfl⟩
      refine ⟨start + if rule.matchesResult members then rule.severityWeight else 0, ?_,
        ih.mpr ⟨hall, by omega⟩⟩
      refine bind_eq_ok.mpr ⟨_, hb, ?_⟩
      cases rule.matchesResult members with
      | true => rfl
      | false => exact congrArg Except.ok (Int.add_zero start).symm

theorem ruleScore_eq_ok_iff : ruleScore (.obj members) rules = .ok n ↔
    (∀ rule ∈ rules, rule.decides members = true) ∧ n = matchingWeights rules members := by
  rw [ruleScore, foldlM_rules_eq_ok_iff, Int.zero_add]

theorem severityHint_obj : severityHint (.obj members) = .ok members.hint := by
  unfold severityHint Members.hint Members.item
  simp only [Json.get, bind, Except.bind]
  split <;> rfl

/-- What the score is: the weights of the matching rules, or what the hint of a suspicious result
scores when these come to nothing. -/
theorem computeSeverityScore_eq_ok_iff :
    computeSeverityScore intOfStr (.obj members) rules = .ok n ↔
      (∀ rule ∈ rules, rule.decides members = true) ∧
        if matchingWeights rules members = 0 ∧ members.suspicious = true then
          scoreOfHint intOfStr members.hint = .ok n
        else n = matchingWeights rules members := by
  have hrest : ∀ score : Int, (if score = 0 then do
        let suspicious ← (Json.obj members).get "is_suspicious" .null
        if suspicious.truthy then scoreOfHint intOfStr (← severityHint (.obj members))
        else pure score
      else pure score) =
      if score = 0 ∧ members.suspicious = true then scoreOfHint intOfStr members.hint
      else .ok score := by
    intro score
    rw [severityHint_obj]
    by_cases hzero : score = 0
    · rw [if_pos hzero]
      cases hsuspicious : members.suspicious with
      | true =>
        rw [if_pos ⟨hzero, rfl⟩]
        exact if_pos hsuspicious
      | false =>
        rw [if_neg (by simp)]
        exact if_neg (Bool.eq_false_iff.mp hsuspicious)
    · rw [if_neg hzero, if_neg (fun h => hzero h.1)]
      rfl
  unfold computeSeverityScore
  simp only [bind_eq_ok, hrest, ruleScore_eq_ok_iff]
  constructor
  · intro h
    obtain ⟨score, ⟨hdecides, rfl⟩, h⟩ := h
    refine ⟨hdecides, ?_⟩
    split at h
    next hhint => rwa [if_pos hhint]
    next hhint =>
      rw [if_neg hhint]
      exact (Except.ok.inj h).symm
  · intro h
    obtain ⟨hdecides, h⟩ := h
    refine ⟨_, ⟨hdecides, rfl⟩, ?_⟩
    split at h
    next hhint => rwa [if_pos hhint]
    next hhint => rw [if_neg hhint, h]

theorem scoreOfHint_float {x : PyFloat} :
    scoreOfHint intOfStr (.float x) = (x.triple.int).bind fun m => .ok (max 1 m) :=
  rfl

theorem exists_scoreOfHint_iff {hint : Json} :
    (∃ n, scoreOfHint intOfStr hint = .ok n) ↔ hint.scores intOfStr = true := by
  cases hint with
  | float x =>
    have hscores : (Json.float x).scores intOfStr = x.triple.isFinite := rfl
    rw [scoreOfHint_float, hscores]
    cases x.triple with
    | finite q => exact ⟨fun _ => rfl, fun _ => ⟨_, rfl⟩⟩
    | infinite negative => simp [PyFloat.int, PyFloat.isFinite, Except.bind]
    | nan => simp [PyFloat.int, PyFloat.isFinite, Except.bind]
  | str s =>
    change (∃ n, intOfStr s = .ok n) ↔ (intOfStr s).isOk = true
    cases intOfStr s <;> simp [Except.isOk, Except.toBool]
  | null => simp [scoreOfHint, Json.scores, Json.toInt]
  | bool b => simp [scoreOfHint, Json.scores, Json.toInt]
  | int k => simp [scoreOfHint, Json.scores, Json.toInt]
  | arr items => simp [scoreOfHint, Json.scores, Json.toInt]
  | obj ms => simp [scoreOfHint, Json.scores, Json.toInt]

/-- The scoring returns exactly if every condition can be decided (no field is a list or a dict,
and what is compared with `>=` can be) and, where the hint is to be used, it is a number whose
score is finite, a bool, or a text that reads as an int. -/
theorem computeSeverityScore_returns_iff :
    (∃ n, computeSeverityScore intOfStr (.obj members) rules = .ok n) ↔
      (∀ rule ∈ rules, rule.keyed = true ∧ rule.compares members = true) ∧
        (matchingWeights rules members = 0 → members.suspicious = true →
          members.hint.scores intOfStr = true) := by
  simp only [computeSeverityScore_eq_ok_iff, Rule.decides, Bool.and_eq_true]
  constructor
  · intro h
    obtain ⟨n, hdecides, h⟩ := h
    refine ⟨hdecides, fun hzero hsuspicious => ?_⟩
    rw [if_pos ⟨hzero, hsuspicious⟩] at h
    exact exists_scoreOfHint_iff.mp ⟨n, h⟩
  · intro h
    obtain ⟨hdecides, hscores⟩ := h
    by_cases hhint : matchingWeights rules members = 0 ∧ members.suspicious = true
    · obtain ⟨n, hn⟩ := exists_scoreOfHint_iff.mpr (hscores hhint.1 hhint.2)
      exact ⟨n, hdecides, by rw [if_pos hhint]; exact hn⟩
    · exact ⟨_, hdecides, by rw [if_neg hhint]⟩

/-- A suspicious result whose only hint is null. -/
theorem not_always_returns :
    ¬∀ (intOfStr : String → Except Exn Int) (members : Members) (rules : List Rule),
      (∀ rule ∈ rules, ∃ condition, rule.condition = .obj condition) →
        ∃ n, computeSeverityScore intOfStr (.obj members) rules = .ok n := by
  intro h
  obtain ⟨n, hn⟩ := h (fun _ => .ok 0)
    [("is_suspicious", .bool true), ("confidence_score", .null)] [] (by simp)
  cases hn

theorem matchingWeights_of_not_matched (h : ¬members.matched rules) :
    matchingWeights rules members = 0 := by
  unfold matchingWeights
  have hnone : (rules.filter fun r => r.matchesResult members) = [] := by
    rw [List.filter_eq_nil_iff]
    intro rule hrule hmatches
    exact h ⟨rule, hrule, hmatches⟩
  rw [hnone]
  rfl

theorem scoreOfHint_eq_zero_iff {hint : Json} :
    scoreOfHint intOfStr hint = .ok 0 ↔ hint.ScoresZero intOfStr := by
  cases hint with
  | float x =>
    rw [scoreOfHint_float]
    constructor
    · intro h
      obtain ⟨m, -, hm⟩ := bind_eq_ok.mp h
      have hmax := Except.ok.inj hm
      omega
    · intro h
      exact h.elim
  | str s => exact Iff.rfl
  | null => simp [scoreOfHint, Json.ScoresZero, Json.toInt]
  | bool b => cases b <;> simp [scoreOfHint, Json.ScoresZero, Json.toInt]
  | int k => simp [scoreOfHint, Json.ScoresZero, Json.toInt]
  | arr items => simp [scoreOfHint, Json.ScoresZero, Json.toInt]
  | obj ms => simp [scoreOfHint, Json.ScoresZero, Json.toInt]

theorem Members.NumericHints.hint (h : members.NumericHints) :
    (∃ k, members.hint = .int k) ∨ ∃ x, members.hint = .float x := by
  unfold Members.hint
  split
  next htruthy =>
    unfold Members.item at htruthy ⊢
    cases hl : members.lookup "severity_hint" with
    | none =>
      rw [hl] at htruthy
      cases htruthy
    | some v => exact h "severity_hint" (by simp) v hl
  next =>
    cases hl : members.lookup "confidence_score" with
    | none => exact Or.inl ⟨1, rfl⟩
    | some v => exact h "confidence_score" (by simp) v hl

theorem exists_positive_iff {hint : Json}
    (hnumeric : (∃ k, hint = .int k) ∨ ∃ x, hint = .float x) :
    (∃ n, 1 ≤ n ∧ scoreOfHint intOfStr hint = .ok n) ↔ hint.ScoresPositive := by
  rcases hnumeric with ⟨k, rfl⟩ | ⟨x, rfl⟩
  · constructor
    · intro h
      obtain ⟨n, hn, hk⟩ := h
      obtain rfl := Except.ok.inj hk
      exact hn
    · intro h
      exact ⟨k, h, rfl⟩
  · constructor
    · intro h
      obtain ⟨n, -, hn⟩ := h
      exact exists_scoreOfHint_iff.mp ⟨n, hn⟩
    · intro h
      have hscores : (Json.float x).scores intOfStr = true := h
      obtain ⟨n, hn⟩ := exists_scoreOfHint_iff.mpr hscores
      refine ⟨n, ?_, hn⟩
      obtain ⟨m, -, hm⟩ := bind_eq_ok.mp (scoreOfHint_float.symm.trans hn)
      have hmax := Except.ok.inj hm
      omega

theorem ScoredAsMeant.returns (h : ScoredAsMeant intOfStr members rules)
    (hmeant : members.Meant rules) :
    ∃ n, computeSeverityScore intOfStr (.obj members) rules = .ok n := by
  by_cases hmatched : members.matched rules
  · exact ⟨_, h.matched hmatched⟩
  · rcases hmeant with hmatches | ⟨htrue, hnumeric⟩ | hclear
    · exact absurd hmatches hmatched
    · obtain ⟨n, -, hn⟩ := h.suspicious hmatched htrue hnumeric
      exact ⟨n, hn⟩
    · exact ⟨0, h.clear hmatched hclear⟩

theorem Members.suspicious_of_true (h : members.lookup "is_suspicious" = some (.bool true)) :
    members.suspicious = true := by
  unfold Members.suspicious Members.item
  rw [h]
  rfl

theorem Members.not_suspicious (h : members.lookup "is_suspicious" = none ∨
    members.lookup "is_suspicious" = some (.bool false)) : members.suspicious = false := by
  unfold Members.suspicious Members.item
  rcases h with h | h
  · rw [h]
    rfl
  · rw [h]
    rfl

/-- Where no comparison raises, the score is what it is meant to be exactly if, wherever anything
is meant, the fields can be looked up, weights that cancel out are not replaced by a hint other
than zero, and the hint of a suspicious result that no rule matches is positive. -/
theorem scoredAsMeant_iff (hcompare : ∀ rule ∈ rules, rule.compares members = true) :
    ScoredAsMeant intOfStr members rules ↔ ScoresSound intOfStr members rules := by
  constructor
  · intro h
    refine ⟨?_, ?_, ?_⟩
    · intro hmeant rule hrule
      obtain ⟨hdecides, -⟩ := computeSeverityScore_returns_iff.mp (h.returns hmeant)
      exact (hdecides rule hrule).1
    · intro hmatched hzero hsuspicious
      obtain ⟨-, hscore⟩ := computeSeverityScore_eq_ok_iff.mp (h.matched hmatched)
      rw [if_pos ⟨hzero, hsuspicious⟩, hzero] at hscore
      exact scoreOfHint_eq_zero_iff.mp hscore
    · intro hmatched htrue hnumeric
      obtain ⟨n, hn, hscored⟩ := h.suspicious hmatched htrue hnumeric
      obtain ⟨-, hscore⟩ := computeSeverityScore_eq_ok_iff.mp hscored
      rw [if_pos ⟨matchingWeights_of_not_matched hmatched,
        Members.suspicious_of_true htrue⟩] at hscore
      exact (exists_positive_iff hnumeric.hint).mp ⟨n, hn, hscore⟩
  · intro h
    have hdecides : members.Meant rules → ∀ rule ∈ rules, rule.decides members = true := by
      intro hmeant rule hrule
      unfold Rule.decides
      rw [h.keyed hmeant rule hrule, hcompare rule hrule]
      rfl
    refine ⟨?_, ?_, ?_⟩
    · intro hmatched
      refine computeSeverityScore_eq_ok_iff.mpr ⟨hdecides (Or.inl hmatched), ?_⟩
      split
      next hhint =>
        obtain ⟨hzero, hsuspicious⟩ := hhint
        rw [hzero]
        exact scoreOfHint_eq_zero_iff.mpr (h.cancelled hmatched hzero hsuspicious)
      next => rfl
    · intro hmatched htrue hnumeric
      obtain ⟨n, hn, hscore⟩ := (exists_positive_iff hnumeric.hint).mpr
        (h.hint hmatched htrue hnumeric)
      refine ⟨n, hn, computeSeverityScore_eq_ok_iff.mpr
        ⟨hdecides (Or.inr (Or.inl ⟨htrue, hnumeric⟩)), ?_⟩⟩
      rw [if_pos ⟨matchingWeights_of_not_matched hmatched, Members.suspicious_of_true htrue⟩]
      exact hscore
    · intro hmatched hclear
      refine computeSeverityScore_eq_ok_iff.mpr ⟨hdecides (Or.inr (Or.inr hclear)), ?_⟩
      rw [if_neg (by rw [Members.not_suspicious hclear]; simp)]
      exact (matchingWeights_of_not_matched hmatched).symm

/-- A rule that every suspicious result matches. -/
def sampleRule (weight : Int) : Rule where
  tenantId := ⟨1⟩
  contextModeId := ⟨4⟩
  condition := .obj [("field", .str "suspicious"), ("op", .str "eq"), ("value", .bool true)]
  severityWeight := weight

/-- Two matching rules whose weights cancel out: the result is scored by its hint. -/
theorem not_always_scoredAsMeant :
    ¬∀ (intOfStr : String → Except Exn Int) (members : Members) (rules : List Rule),
      (∀ rule ∈ rules, rule.compares members = true) → ScoredAsMeant intOfStr members rules := by
  intro h
  have hmeant := h (fun _ => .ok 0) [("is_suspicious", .bool true)] [sampleRule 2, sampleRule (-2)]
    (by decide +kernel)
  have hscore := hmeant.matched ⟨sampleRule 2, by simp, by decide +kernel⟩
  have hweights : matchingWeights [sampleRule 2, sampleRule (-2)] [("is_suspicious", .bool true)] =
      0 := by decide +kernel
  obtain ⟨-, hhint⟩ := computeSeverityScore_eq_ok_iff.mp hscore
  rw [if_pos ⟨hweights, rfl⟩, hweights] at hhint
  exact absurd (Except.ok.inj hhint) (by decide : (1 : Int) ≠ 0)

/-- One matching rule of weight two. -/
theorem scoredAsMeant_iff_sample :
    ScoredAsMeant (fun _ => .ok 0) [("is_suspicious", .bool true)] [sampleRule 2] := by
  have hmatches : (sampleRule 2).matchesResult [("is_suspicious", .bool true)] = true := by
    decide +kernel
  have hmatched : Members.matched [("is_suspicious", .bool true)] [sampleRule 2] :=
    ⟨sampleRule 2, List.mem_singleton_self _, hmatches⟩
  refine (scoredAsMeant_iff (by decide +kernel)).mpr ⟨fun _ => by decide +kernel, ?_, ?_⟩
  · intro _ hzero
    exact absurd hzero (by decide +kernel)
  · intro hnone
    exact absurd hmatched hnone

end ArgusServices

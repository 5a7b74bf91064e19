import ArgusServices.ConfigStore

namespace ArgusServices

open Effect

/-- The integer nearest to `n / d`, the even one of two. -/
def nearestInt (n : Int) (d : Nat) : Int :=
  if 2 * (n % d) < d ∨ (2 * (n % d) = d ∧ n / d % 2 = 0) then n / d else n / d + 1

/-- The float nearest to a rational: 53 binary digits, the last at least at `2 ^ -1074`. -/
def PyFloat.nearest (q : Rat) : PyFloat :=
  let size := q.num.natAbs
  let e : Int := (Nat.log2 size : Int) - Nat.log2 q.den
  let top := if q.den * 2 ^ e.toNat ≤ size * 2 ^ (-e).toNat then e else e - 1
  let last := max (top - 52) (-1074)
  let m := nearestInt (q.num * 2 ^ (-last).toNat) (q.den * 2 ^ last.toNat)
  if 2 ^ 1024 * 2 ^ (-last).toNat ≤ m.natAbs * 2 ^ last.toNat then .infinite (decide (m < 0))
  else .finite (mkRat (m * 2 ^ last.toNat) (2 ^ (-last).toNat))

/-- `x * 3`. -/
def PyFloat.triple : PyFloat → PyFloat
  | .finite q => .nearest (mkRat (q.num * 3) q.den)
  | .infinite negative => .infinite negative
  | .nan => .nan

/-- `int(x)`, which cuts off the fraction. -/
def PyFloat.int : PyFloat → Except Exn Int
  | .finite q => .ok (q.num.tdiv q.den)
  | .infinite _ => .error (.overflowError "cannot convert float infinity to integer")
  | .nan => .error (.valueError "cannot convert float NaN to integer")

/-- The value of a bool, an int or a float among the numbers. -/
def Json.number : Json → Option PyFloat
  | .bool b => some (.finite (mkRat (if b then 1 else 0) 1))
  | .int n => some (.finite (mkRat n 1))
  | .float x => some x
  | _ => none

/-- `x == y`; a NaN is equal to nothing. -/
def PyFloat.eq : PyFloat → PyFloat → Bool
  | .finite p, .finite q => p = q
  | .infinite p, .infinite q => p = q
  | _, _ => false

/-- `x >= y`. -/
def PyFloat.ge : PyFloat → PyFloat → Bool
  | .finite p, .finite q => q.num * p.den ≤ p.num * q.den
  | .infinite p, .infinite q => !p || q
  | .infinite p, .finite _ => !p
  | .finite _, .infinite q => q
  | _, _ => false

mutual

/-- `x == y`. -/
def Json.eq : Json → Json → Bool
  | .null, .null => true
  | .str s, .str t => s = t
  | .arr xs, .arr ys => eqItems xs ys
  | .obj ms, .obj ns => ms.length = ns.length && eqMembers ms ns
  | x, y =>
    match x.number, y.number with
    | some p, some q => p.eq q
    | _, _ => false

def Json.eqItems : List Json → List Json → Bool
  | [], [] => true
  | x :: xs, y :: ys => x.eq y && eqItems xs ys
  | _, _ => false

def Json.eqMembers : List (String × Json) → List (String × Json) → Bool
  | [], _ => true
  | (key, x) :: ms, ns =>
    (match ns.lookup key with
      | some y => x.eq y
      | none => false) && eqMembers ms ns

end

mutual

/-- `x >= y`: lists compare at the first items that differ. -/
def Json.ge : Json → Json → Except Exn Bool
  | .str s, .str t => .ok (decide (t ≤ s))
  | .arr xs, .arr ys => geItems xs ys
  | x, y =>
    match x.number, y.number with
    | some p, some q => .ok (p.ge q)
    | _, _ => .error (.typeError ("'>=' not supported between instances of '" ++ x.typeName ++
        "' and '" ++ y.typeName ++ "'"))

def Json.geItems : List Json → List Json → Except Exn Bool
  | x :: xs, y :: ys => if x.eq y then geItems xs ys else x.ge y
  | [], _ :: _ => .ok false
  | _, [] => .ok true

end

/-- `value.get(field)`; only a text can be a key, and a list or a dict is no key at all. -/
def Json.getField (value field : Json) : Except Exn Json :=
  match value, field with
  | .obj members, .str key => .ok ((members.lookup key).getD .null)
  | .obj _, .arr _ | .obj _, .obj _ =>
    .error (.typeError ("unhashable type: '" ++ field.typeName ++ "'"))
  | .obj _, _ => .ok .null
  | _, _ => .error (.attributeError ("'" ++ value.typeName ++ "' object has no attribute 'get'"))

/-- `_matches_condition`. -/
def matchesCondition (condition vlmResult : Json) : Except Exn Bool := do
  let field ← condition.get "field" .null
  let op ← condition.get "op" .null
  let expected ← condition.get "value" .null
  let actual ←
    if field.eq (.str "suspicious") then vlmResult.get "is_suspicious" .null
    else vlmResult.getField field
  if op.eq (.str "eq") then pure (actual.eq expected)
  else if op.eq (.str "gte") then
    match actual with
    | .null => pure false
    | actual => actual.ge expected
  else pure false

/-- `int(hint)` for a hint that is no float; the reading of a text is given. -/
def Json.toInt (intOfStr : String → Except Exn Int) : Json → Except Exn Int
  | .bool b => .ok (if b then 1 else 0)
  | .int n => .ok n
  | .str s => intOfStr s
  | value => .error (.typeError ("int() argument must be a string, a bytes-like object or a real " ++
      "number, not '" ++ value.typeName ++ "'"))

/-- What the weights of the matching rules add up to. -/
def ruleScore (vlmResult : Json) (rules : List Rule) : Except Exn Int :=
  rules.foldlM (fun score rule => do
    if ← matchesCondition rule.condition vlmResult then pure (score + rule.severityWeight)
    else pure score) 0

/-- `vlm_result.get("severity_hint") or vlm_result.get("confidence_score", 1)`. -/
def severityHint (vlmResult : Json) : Except Exn Json := do
  let hint ← vlmResult.get "severity_hint" .null
  if hint.truthy then pure hint else vlmResult.get "confidence_score" (.int 1)

/-- The score of a float is at least one, that of any other hint is its number. -/
def scoreOfHint (intOfStr : String → Except Exn Int) : Json → Except Exn Int
  | .float x => do pure (max 1 (← x.triple.int))
  | hint => hint.toInt intOfStr

def computeSeverityScore (intOfStr : String → Except Exn Int) (vlmResult : Json)
    (rules : List Rule) : Except Exn Int := do
  let score ← ruleScore vlmResult rules
  if score = 0 then
    let suspicious ← vlmResult.get "is_suspicious" .null
    if suspicious.truthy then scoreOfHint intOfStr (← severityHint vlmResult) else pure score
  else pure score

/-- No hint of the result that `int` can read is negative. -/
def Json.NonnegativeHints (intOfStr : String → Except Exn Int) (vlmResult : Json) : Prop :=
  ∀ members, vlmResult = .obj members → ∀ key ∈ ["severity_hint", "confidence_score"],
    ∀ hint ∈ members.lookup key, ∀ n, hint.toInt intOfStr = .ok n → 0 ≤ n

variable {intOfStr : String → Except Exn Int} {vlmResult : Json} {rules : List Rule} {n : Int}

theorem ruleScore_nonneg (hweights : ∀ r ∈ rules, 0 ≤ r.severityWeight)
    (h : ruleScore vlmResult rules = .ok n) : 0 ≤ n := by
  have hfold : ∀ (rs : List Rule) (start : Int), (∀ r ∈ rs, 0 ≤ r.severityWeight) → 0 ≤ start →
      rs.foldlM (fun score rule => do
        if ← matchesCondition rule.condition vlmResult then pure (score + rule.severityWeight)
        else pure score) start = Except.ok n → 0 ≤ n := by
    intro rs
    induction rs with
    | nil =>
      intro start _ hstart heq
      exact Except.ok.inj heq ▸ hstart
    | cons r rs ih =>
      intro start hrs hstart heq
      rw [List.foldlM_cons] at heq
      obtain ⟨score, hscore, hrest⟩ := bind_eq_ok.mp heq
      obtain ⟨hit, -, hpure⟩ := bind_eq_ok.mp hscore
      refine ih score (fun r hr => hrs r (List.mem_cons_of_mem _ hr)) ?_ hrest
      have hr := hrs r List.mem_cons_self
      split at hpure
      · obtain rfl := Except.ok.inj hpure
        omega
      · exact Except.ok.inj hpure ▸ hstart
  exact hfold rules 0 hweights (Int.le_refl 0) h

theorem Json.get_eq_ok {value default found : Json} {key : String}
    (h : value.get key default = .ok found) :
    ∃ members, value = .obj members ∧ found = (members.lookup key).getD default := by
  cases value with
  | obj members => exact ⟨members, rfl, (Except.ok.inj h).symm⟩
  | null => cases h
  | bool b => cases h
  | int n => cases h
  | float x => cases h
  | str s => cases h
  | arr items => cases h

theorem severityHint_nonneg {hint : Json} (hhints : vlmResult.NonnegativeHints intOfStr)
    (h : severityHint vlmResult = .ok hint) (hn : hint.toInt intOfStr = .ok n) : 0 ≤ n := by
  obtain ⟨first, hget, h⟩ := bind_eq_ok.mp h
  obtain ⟨members, hobj, hfirst⟩ := Json.get_eq_ok hget
  split at h
  next htruthy =>
    obtain rfl := Except.ok.inj h
    cases hl : members.lookup "severity_hint" with
    | none =>
      rw [hfirst, hl] at htruthy
      cases htruthy
    | some v =>
      rw [hfirst, hl] at hn
      exact hhints members hobj _ (by simp) v hl n hn
  next =>
    obtain ⟨members', hobj', hsecond⟩ := Json.get_eq_ok h
    cases hl : members'.lookup "confidence_score" with
    | none =>
      rw [hsecond, hl] at hn
      obtain rfl := Except.ok.inj hn
      decide
    | some v =>
      rw [hsecond, hl] at hn
      exact hhints members' hobj' _ (by simp) v hl n hn

theorem scoreOfHint_nonneg {hint : Json} (hint_nonneg : ∀ m, hint.toInt intOfStr = .ok m → 0 ≤ m)
    (h : scoreOfHint intOfStr hint = .ok n) : 0 ≤ n := by
  cases hint with
  | float x =>
    obtain ⟨m, -, hm⟩ := bind_eq_ok.mp h
    obtain rfl := Except.ok.inj hm
    omega
  | null => exact hint_nonneg n h
  | bool b => exact hint_nonneg n h
  | int k => exact hint_nonneg n h
  | str s => exact hint_nonneg n h
  | arr items => exact hint_nonneg n h
  | obj members => exact hint_nonneg n h

/-- Weights and hints that are not negative give a score that is not. -/
theorem computeSeverityScore_nonneg (hweights : ∀ r ∈ rules, 0 ≤ r.severityWeight)
    (hhints : vlmResult.NonnegativeHints intOfStr)
    (h : computeSeverityScore intOfStr vlmResult rules = .ok n) : 0 ≤ n := by
  obtain ⟨score, hscore, h⟩ := bind_eq_ok.mp h
  have hrules := ruleScore_nonneg hweights hscore
  split at h
  · obtain ⟨suspicious, -, h⟩ := bind_eq_ok.mp h
    split at h
    · obtain ⟨hint, hhint, h⟩ := bind_eq_ok.mp h
      exact scoreOfHint_nonneg (fun m hm => severityHint_nonneg hhints hhint hm) h
    · exact Except.ok.inj h ▸ hrules
  · exact Except.ok.inj h ▸ hrules

/-- A hint that is an int is the score of a suspicious result that no rule has scored. -/
theorem computeSeverityScore_int_hint (h : n ≠ 0) :
    computeSeverityScore intOfStr
      (.obj [("is_suspicious", .bool true), ("severity_hint", .int n)]) [] = .ok n := by
  simp [computeSeverityScore, ruleScore, severityHint, scoreOfHint, Json.get, Json.truthy,
    Json.toInt, List.lookup_cons, h, pure, bind, Except.pure, Except.bind]

end ArgusServices

import ArgusServices.ScoringSpec

namespace ArgusServices

open Effect

/-- Two results that differ only in how an integer is spelled at a key. -/
structure Respelled (key : String) (n : Int) (members members' : Members) : Prop where
  int : members.lookup key = some (.int n)
  float : members'.lookup key = some (.float (.finite (mkRat n 1)))
  others : ∀ k, k ≠ key → members'.lookup k = members.lookup k

/-- The key the hint is taken from. -/
def Members.hintKey (members : Members) : String :=
  if (members.item "severity_hint").truthy then "severity_hint" else "confidence_score"

/-- The rules raise or score, the result is not suspicious, or the other hint is the one used. -/
def HintUnused (key : String) (members : Members) (rules : List Rule) : Prop :=
  (∃ rule ∈ rules, rule.decides members = false) ∨ matchingWeights rules members ≠ 0 ∨
    members.suspicious = false ∨ members.hintKey ≠ key

def SameScore (intOfStr : String → Except Exn Int) (members members' : Members)
    (rules : List Rule) : Prop :=
  ∀ n, computeSeverityScore intOfStr (.obj members) rules = .ok n ↔
    computeSeverityScore intOfStr (.obj members') rules = .ok n

variable {intOfStr : String → Except Exn Int} {key : String} {n m : Int}
  {members members' : Members} {rules : List Rule} {rule : Rule}

theorem nearestInt_ge (n : Int) (d : Nat) : n / d ≤ nearestInt n d := by
  unfold nearestInt
  split
  · exact Int.le_refl _
  · omega

theorem nearestInt_one (n : Int) : nearestInt n 1 = n := by
  unfold nearestInt
  rw [if_pos (Or.inl (by omega))]
  exact Int.ediv_one n

theorem int_finite_mkRat_one (m : Int) : (PyFloat.finite (mkRat m 1)).int = .ok m := by
  have hint : (PyFloat.finite (mkRat m 1)).int =
      .ok ((mkRat m 1).num.tdiv (mkRat m 1).den) := rfl
  rw [hint, Rat.mkRat_one, Rat.num_intCast, Rat.den_intCast]
  exact congrArg Except.ok (Int.tdiv_one m)

/-- An integer with up to 53 digits is its own nearest float. -/
theorem int_nearest_short {size j : Nat}
    (h : (PyFloat.finite (mkRat (nearestInt (size * 2 ^ j) 1) (2 ^ j))).int = .ok m) :
    m = size := by
  have hvalue : mkRat ((size : Int) * 2 ^ j) (2 ^ j) = mkRat size 1 := by
    have hcancel : mkRat ((size : Int) * (2 ^ j : Nat)) (1 * 2 ^ j) = mkRat size 1 :=
      Rat.mkRat_mul_right (Nat.two_pow_pos j).ne'
    rwa [Nat.one_mul, Int.natCast_pow] at hcancel
  rw [nearestInt_one, hvalue, int_finite_mkRat_one] at h
  exact (Except.ok.inj h).symm

/-- One with more is not moved by more than its last digit. -/
theorem int_nearest_long {size l : Nat} (hl : 2 ^ l * 2 ≤ size)
    (h : (PyFloat.finite (mkRat (nearestInt size (2 ^ l) * 2 ^ l) 1)).int = .ok m) :
    (size : Int) ≤ 2 * m := by
  rw [int_finite_mkRat_one] at h
  obtain rfl := Except.ok.inj h
  have hfloor := nearestInt_ge size (2 ^ l)
  have hpos : (0 : Int) < (2 ^ l : Nat) := by exact_mod_cast Nat.two_pow_pos l
  have hdiv := Int.mul_ediv_add_emod (size : Int) (2 ^ l : Nat)
  have hrest := Int.emod_lt_of_pos (size : Int) hpos
  have hscale := Int.mul_le_mul_of_nonneg_left hfloor hpos.le
  have hswap := Int.mul_comm (nearestInt size (2 ^ l)) (2 ^ l : Nat)
  have hl' : ((2 ^ l : Nat) : Int) * 2 ≤ size := by exact_mod_cast hl
  have hcast : (2 : Int) ^ l = (2 ^ l : Nat) := by rw [Int.natCast_pow]; rfl
  rw [hcast]
  omega

/-- An integer from one on is not rounded to less than half. -/
theorem nearest_int_ge {size : Nat} (hsize : size ≠ 0)
    (h : (PyFloat.nearest (mkRat size 1)).int = .ok m) : (size : Int) ≤ 2 * m := by
  have hnum : (mkRat (size : Int) 1).num = size := by rw [Rat.mkRat_one, Rat.num_intCast]
  have hden : (mkRat (size : Int) 1).den = 1 := by rw [Rat.mkRat_one, Rat.den_intCast]
  have hlow : 2 ^ Nat.log2 size ≤ size := Nat.log2_self_le hsize
  have hexponent : ((Nat.log2 size : Int) - (Nat.log2 1 : Nat)) = Nat.log2 size := by
    rw [(by decide : Nat.log2 1 = 0)]
    exact Int.sub_zero _
  unfold PyFloat.nearest at h
  simp only [hnum, hden, Int.natAbs_natCast, hexponent] at h
  have htop : (if 1 * 2 ^ (Nat.log2 size : Int).toNat ≤ size * 2 ^ (-(Nat.log2 size : Int)).toNat
      then (Nat.log2 size : Int) else Nat.log2 size - 1) = Nat.log2 size := by
    apply if_pos
    rw [(by omega : (-(Nat.log2 size : Int)).toNat = 0), Int.toNat_natCast]
    omega
  have hlast : max ((Nat.log2 size : Int) - 52) (-1074) = Nat.log2 size - 52 := by omega
  rw [htop, hlast] at h
  split at h
  · cases h
  · by_cases hshort : Nat.log2 size ≤ 52
    · have hzero : ((Nat.log2 size : Int) - 52).toNat = 0 := by omega
      rw [hzero, Nat.pow_zero, Nat.one_mul, Int.pow_zero, Int.mul_one] at h
      have hm := int_nearest_short h
      omega
    · have hzero : (-((Nat.log2 size : Int) - 52)).toNat = 0 := by omega
      rw [hzero, Nat.pow_zero, Nat.one_mul, Int.pow_zero, Int.mul_one] at h
      refine int_nearest_long ?_ h
      have hlast : ((Nat.log2 size : Int) - 52).toNat + 1 ≤ Nat.log2 size := by omega
      calc 2 ^ ((Nat.log2 size : Int) - 52).toNat * 2
          = 2 ^ (((Nat.log2 size : Int) - 52).toNat + 1) := (Nat.pow_succ ..).symm
        _ ≤ 2 ^ Nat.log2 size := Nat.pow_le_pow_right (by decide) hlast
        _ ≤ size := hlow

/-- No integer scores the same as its float, which scores three times its value and at least one. -/
theorem scoreOfHint_float_ne (intOfStr : String → Except Exn Int) (k : Int) :
    ¬∀ m, scoreOfHint intOfStr (.int k) = .ok m ↔
      scoreOfHint intOfStr (.float (.finite (mkRat k 1))) = .ok m := by
  intro h
  have hfloat := (h k).mp rfl
  obtain ⟨m, hm, hmax⟩ := bind_eq_ok.mp (scoreOfHint_float.symm.trans hfloat)
  have hk : max 1 m = k := Except.ok.inj hmax
  have htriple : (PyFloat.finite (mkRat k 1)).triple = .nearest (mkRat (k * 3) 1) := by
    have hdef : (PyFloat.finite (mkRat k 1)).triple =
        .nearest (mkRat ((mkRat k 1).num * 3) (mkRat k 1).den) := rfl
    rw [hdef, Rat.mkRat_one, Rat.num_intCast, Rat.den_intCast]
  rw [htriple] at hm
  obtain ⟨size, rfl⟩ := Int.eq_ofNat_of_zero_le (by omega : 0 ≤ k)
  have hcast : (size : Int) * 3 = (size * 3 : Nat) := by omega
  rw [hcast] at hm
  have hge := nearest_int_ge (by omega) hm
  omega

theorem eq_respelled (y : Json) : (Json.int n).eq y = (Json.float (.finite (mkRat n 1))).eq y := by
  cases y <;> rfl

/-- Only what the exception says tells the two spellings apart. -/
theorem ge_respelled (y : Json) :
    ((Json.int n).ge y).toOption = ((Json.float (.finite (mkRat n 1))).ge y).toOption := by
  cases y <;> rfl

theorem decideCondition_respelled {op expected : Json} :
    (decideCondition op (.int n) expected).toOption =
      (decideCondition op (.float (.finite (mkRat n 1))) expected).toOption := by
  unfold decideCondition
  rw [eq_respelled]
  split
  · rfl
  · split
    · exact ge_respelled expected
    · rfl

theorem Respelled.item (h : Respelled key n members members') {k : String} (hk : k ≠ key) :
    members'.item k = members.item k := by
  unfold Members.item
  rw [h.others k hk]

theorem Respelled.item_int (h : Respelled key n members members') : members.item key = .int n := by
  unfold Members.item
  rw [h.int]
  rfl

theorem Respelled.item_float (h : Respelled key n members members') :
    members'.item key = .float (.finite (mkRat n 1)) := by
  unfold Members.item
  rw [h.float]
  rfl

theorem Respelled.subject (h : Respelled key n members members') (hkey : key ≠ "is_suspicious")
    (field : Json) : members'.subject field = members.subject field ∨
      members.subject field = .int n ∧
        members'.subject field = .float (.finite (mkRat n 1)) := by
  unfold Members.subject
  split
  · exact Or.inl (h.item hkey.symm)
  · cases field with
    | str k =>
      by_cases hk : k = key
      · subst hk
        exact Or.inr ⟨h.item_int, h.item_float⟩
      · exact Or.inl (h.item hk)
    | _ => exact Or.inl rfl

theorem toOption_eq_none_of_isOk {x : Except Exn Bool} (h : x.isOk = false) :
    x.toOption = none := by
  cases x with
  | error e => rfl
  | ok b => cases h

/-- A condition comes to the same on both results. -/
theorem Respelled.toOption_matchesCondition (h : Respelled key n members members')
    (hkey : key ≠ "is_suspicious") {condition : Json} :
    (matchesCondition condition (.obj members)).toOption =
      (matchesCondition condition (.obj members')).toOption := by
  cases condition with
  | obj condition =>
    cases hkeyed : (Members.item condition "field").hashable with
    | false =>
      rw [toOption_eq_none_of_isOk (not_isOk_of_unhashable hkeyed),
        toOption_eq_none_of_isOk (not_isOk_of_unhashable hkeyed)]
    | true =>
      rw [matchesCondition_obj hkeyed, matchesCondition_obj hkeyed]
      rcases h.subject hkey (Members.item condition "field") with hsame | ⟨hint, hfloat⟩
      · rw [hsame]
      · rw [hint, hfloat]
        exact decideCondition_respelled
  | _ => rfl

theorem Respelled.matchesResult (h : Respelled key n members members')
    (hkey : key ≠ "is_suspicious") (rule : Rule) :
    rule.matchesResult members' = rule.matchesResult members := by
  unfold Rule.matchesResult
  rw [h.toOption_matchesCondition hkey]

theorem Respelled.decides (h : Respelled key n members members')
    (hkey : key ≠ "is_suspicious") (rule : Rule) :
    rule.decides members' = rule.decides members := by
  have hok : ∀ x : Except Exn Bool, x.isOk = x.toOption.isSome := by
    intro x
    cases x <;> rfl
  unfold Rule.decides
  rw [← isOk_matchesCondition, ← isOk_matchesCondition, hok, hok,
    h.toOption_matchesCondition hkey]

theorem Respelled.matchingWeights (h : Respelled key n members members')
    (hkey : key ≠ "is_suspicious") (rules : List Rule) :
    matchingWeights rules members' = matchingWeights rules members := by
  unfold ArgusServices.matchingWeights
  rw [List.filter_congr fun rule _ => h.matchesResult hkey rule]

theorem Respelled.suspicious (h : Respelled key n members members')
    (hkey : key ≠ "is_suspicious") : members'.suspicious = members.suspicious := by
  unfold Members.suspicious
  rw [h.item hkey.symm]

theorem truthy_respelled : (Json.float (.finite (mkRat n 1))).truthy = (Json.int n).truthy := by
  have hzero : PyFloat.finite (mkRat n 1) = .finite 0 ↔ n = 0 := by
    rw [PyFloat.finite.injEq]
    exact Rat.mkRat_eq_zero Nat.one_ne_zero
  unfold Json.truthy
  simp only [ne_eq, hzero]

theorem Respelled.truthy_item (h : Respelled key n members members') (k : String) :
    (members'.item k).truthy = (members.item k).truthy := by
  by_cases hk : k = key
  · subst hk
    rw [h.item_int, h.item_float]
    exact truthy_respelled
  · rw [h.item hk]

/-- The hint is the same, unless it is taken from the respelled key. -/
theorem Respelled.hint (h : Respelled key n members members')
    (hkey : key ∈ ["severity_hint", "confidence_score"]) :
    members.hintKey ≠ key ∧ members'.hint = members.hint ∨
      members.hintKey = key ∧ members.hint = .int n ∧
        members'.hint = .float (.finite (mkRat n 1)) := by
  unfold Members.hintKey Members.hint
  rw [h.truthy_item "severity_hint"]
  cases (members.item "severity_hint").truthy with
  | true =>
    simp only [if_true]
    by_cases hk : key = "severity_hint"
    · subst hk
      exact Or.inr ⟨rfl, h.item_int, h.item_float⟩
    · exact Or.inl ⟨Ne.symm hk, h.item (Ne.symm hk)⟩
  | false =>
    simp only [Bool.false_eq_true, if_false]
    by_cases hk : key = "confidence_score"
    · subst hk
      rw [h.int, h.float]
      exact Or.inr ⟨rfl, rfl, rfl⟩
    · rw [h.others _ (Ne.symm hk)]
      exact Or.inl ⟨Ne.symm hk, rfl⟩

/-- The two spellings of an integer score the same exactly where the hint is not used; what they
score as the hint is never the same. -/
theorem sameScore_iff_hintUnused (h : Respelled key n members members')
    (hkey : key ∈ ["severity_hint", "confidence_score"]) :
    SameScore intOfStr members members' rules ↔ HintUnused key members rules := by
  have hne : key ≠ "is_suspicious" := by
    rintro rfl
    revert hkey
    decide
  have hrest : SameScore intOfStr members members' rules ↔
      ∀ m, ((∀ rule ∈ rules, rule.decides members = true) ∧
          if matchingWeights rules members = 0 ∧ members.suspicious = true then
            scoreOfHint intOfStr members.hint = .ok m
          else m = matchingWeights rules members) ↔
        (∀ rule ∈ rules, rule.decides members = true) ∧
          if matchingWeights rules members = 0 ∧ members.suspicious = true then
            scoreOfHint intOfStr members'.hint = .ok m
          else m = matchingWeights rules members := by
    unfold SameScore
    simp only [computeSeverityScore_eq_ok_iff, h.decides hne, h.matchingWeights hne,
      h.suspicious hne]
  rw [hrest]
  constructor
  · intro hsame
    by_contra hused
    unfold HintUnused at hused
    simp only [not_or, not_exists, not_and, Bool.not_eq_false, ne_eq, not_not] at hused
    obtain ⟨hdecides, hzero, hsuspicious, hfrom⟩ := hused
    rcases h.hint hkey with ⟨hother, -⟩ | ⟨-, hint, hfloat⟩
    · exact hother hfrom
    · refine scoreOfHint_float_ne intOfStr n fun m => ?_
      have hm := hsame m
      rw [if_pos ⟨hzero, hsuspicious⟩, if_pos ⟨hzero, hsuspicious⟩, hint, hfloat] at hm
      exact ⟨fun hok => (hm.mp ⟨hdecides, hok⟩).2, fun hok => (hm.mpr ⟨hdecides, hok⟩).2⟩
  · intro hunused m
    refine and_congr_right fun hdecides => ?_
    rcases hunused with ⟨rule, hrule, hundecided⟩ | hweights | hclear | hother
    · rw [hdecides rule hrule] at hundecided
      cases hundecided
    · rw [if_neg (fun hboth => hweights hboth.1), if_neg (fun hboth => hweights hboth.1)]
    · rw [hclear, if_neg (by simp), if_neg (by simp)]
    · rcases h.hint hkey with ⟨-, hsame⟩ | ⟨hfrom, -⟩
      · rw [hsame]
      · exact absurd hfrom hother

/-- A hint of two: as an integer it scores two, as a float six. -/
def spelledInt : Members :=
  [("is_suspicious", .bool true), ("severity_hint", .int 2)]

def spelledFloat : Members :=
  [("is_suspicious", .bool true), ("severity_hint", .float (.finite (mkRat 2 1)))]

theorem respelled_spelled : Respelled "severity_hint" 2 spelledInt spelledFloat where
  int := rfl
  float := rfl
  others := by
    intro k hk
    unfold spelledInt spelledFloat
    rw [List.lookup_cons, List.lookup_cons, List.lookup_cons, List.lookup_cons]
    have hne : (k == "severity_hint") = false := by simpa using hk
    rw [hne]

theorem not_always_sameScore :
    ¬∀ (intOfStr : String → Except Exn Int) (key : String) (n : Int) (members members' : Members)
      (rules : List Rule), key ∈ ["severity_hint", "confidence_score"] →
        PyFloat.nearest (mkRat n 1) = .finite (mkRat n 1) → Respelled key n members members' →
          SameScore intOfStr members members' rules := by
  intro h
  have hsame := h (fun _ => .ok 0) "severity_hint" 2 spelledInt spelledFloat [] (by simp)
    (by decide +kernel) respelled_spelled
  have hfloat := (hsame 2).mp rfl
  obtain ⟨-, hscore⟩ := computeSeverityScore_eq_ok_iff.mp hfloat
  rw [if_pos ⟨rfl, rfl⟩] at hscore
  revert hscore
  decide +kernel

/-- With a rule that scores, the spelling of the hint does not matter. -/
theorem sameScore_iff_hintUnused_sample :
    SameScore (fun _ => .ok 0) spelledInt spelledFloat [sampleRule 3] := by
  refine (sameScore_iff_hintUnused respelled_spelled (by simp)).mpr (Or.inr (Or.inl ?_))
  decide +kernel

end ArgusServices

import ArgusServices.Effect
import Mathlib.Data.Multiset.AddSub
import Mathlib.Data.Multiset.MapFold

namespace Unordered

open Effect

variable {ε α β γ δ : Type} {f : α → β} {g g' : γ → Except ε α} {e : ε}

/-- An outcome without the order of its rows, each seen through `f`. -/
def bag (f : α → β) (outcome : Except ε (List α)) : Except ε (Multiset β) :=
  (fun rows => ((rows.map f : List β) : Multiset β)) <$> outcome

theorem ok_of_bag {outcome : Except ε (List α)} {rows : List α}
    (h : bag f outcome = bag f (.ok rows)) :
    ∃ rows', outcome = .ok rows' ∧ (rows'.map f).Perm (rows.map f) := by
  cases outcome with
  | error e => cases h
  | ok rows' =>
    refine ⟨rows', rfl, ?_⟩
    exact Multiset.coe_eq_coe.mp (Except.ok.inj h)

theorem error_of_bag {outcome : Except ε (List α)} (h : bag f outcome = bag f (.error e)) :
    outcome = .error e := by
  cases outcome with
  | error e' =>
    cases h
    rfl
  | ok rows => cases h

theorem bag_eq_of_perm {rows rows' : List α} (h : (rows.map f).Perm (rows'.map f)) :
    bag f (.ok rows : Except ε (List α)) = bag f (.ok rows') :=
  congrArg Except.ok (Multiset.coe_eq_coe.mpr h)

/-- Rows of another type that the same rows are turned into. -/
theorem bag_map {h : α → γ} {k : γ → δ} {j : β → δ} (hkj : ∀ a, k (h a) = j (f a))
    {outcome outcome' : Except ε (List α)} (hsame : bag f outcome = bag f outcome') :
    bag k ((fun rows => rows.map h) <$> outcome) =
      bag k ((fun rows => rows.map h) <$> outcome') := by
  have hbag : ∀ outcome : Except ε (List α), bag k ((fun rows => rows.map h) <$> outcome) =
      (fun rows => rows.map j) <$> bag f outcome := by
    intro outcome
    cases outcome with
    | error e => rfl
    | ok rows =>
      have hrows : (rows.map h).map k = (rows.map f).map j := by
        simp only [List.map_map, Function.comp_def, hkj]
      exact congrArg (fun rows : List δ => Except.ok (rows : Multiset δ)) hrows
  rw [hbag, hbag, hsame]

theorem bag_append (outcome : Except ε (List α)) (added : List α) :
    bag f ((· ++ added) <$> outcome) =
      (fun rows => rows + ((added.map f : List β) : Multiset β)) <$> bag f outcome := by
  cases outcome with
  | error e => rfl
  | ok rows =>
    have hrows : ((rows ++ added).map f : Multiset β) =
        (rows.map f : Multiset β) + (added.map f : Multiset β) := by
      rw [List.map_append, Multiset.coe_add]
    exact congrArg Except.ok hrows

/-- The second outcome is the first one with some more rows, or the same exception. -/
theorem more_of_bag {before after : Except ε (List α)} {added : List α}
    (h : bag f after = bag f ((· ++ added) <$> before)) :
    (∀ e, before = .error e → after = .error e) ∧
      ∀ rows, before = .ok rows →
        ∃ rows', after = .ok rows' ∧ (rows'.map f).Perm ((rows ++ added).map f) := by
  constructor
  · intro e hbefore
    rw [hbefore] at h
    exact error_of_bag h
  · intro rows hbefore
    rw [hbefore] at h
    exact ok_of_bag h

theorem bag_mapM_cons (f : α → β) (g : γ → Except ε α) (x : γ) (xs : List γ) :
    bag f ((x :: xs).mapM g) =
      (f <$> g x) >>= fun b => (b ::ₘ ·) <$> bag f (xs.mapM g) := by
  rw [List.mapM_cons]
  cases g x with
  | error e => rfl
  | ok a => cases xs.mapM g <;> rfl

/-- Each row may be read another way that looks the same through `f`. -/
theorem bag_mapM_congr (hsame : ∀ x, f <$> g x = f <$> g' x) (xs : List γ) :
    bag f (xs.mapM g) = bag f (xs.mapM g') := by
  induction xs with
  | nil => rfl
  | cons x xs ih => rw [bag_mapM_cons, bag_mapM_cons, hsame, ih]

/-- The order in which the rows are read does not matter, as all of them raise the same. -/
theorem bag_mapM_perm (hg : ∀ x, g x = .error e ∨ ∃ a, g x = .ok a) {xs ys : List γ}
    (h : xs.Perm ys) : bag f (xs.mapM g) = bag f (ys.mapM g) := by
  induction h with
  | nil => rfl
  | cons x _ ih => rw [bag_mapM_cons, bag_mapM_cons, ih]
  | swap x y xs =>
    simp only [bag_mapM_cons]
    rcases hg x with hx | ⟨a, hx⟩ <;> rcases hg y with hy | ⟨b, hy⟩ <;> rw [hx, hy]
    · rfl
    · rfl
    · cases bag f (xs.mapM g) with
      | error e => rfl
      | ok rows => exact congrArg Except.ok (Multiset.cons_swap ..)
  | trans _ _ ih ih' => exact ih.trans ih'

end Unordered

import Mathlib.Data.List.Basic
import Mathlib.Data.Option.Basic

namespace Scoped

variable {ρ κ τ : Type*} [DecidableEq κ] [DecidableEq τ]

/-- Two tables with the same rows of one owner, of which the second one has no key that the first
one has not. -/
structure Same (key : ρ → κ) (owner : ρ → τ) (t : τ) (xs ys : List ρ) : Prop where
  rows : (ys.filter fun r => owner r = t) = xs.filter fun r => owner r = t
  found : ∀ k, ((ys.find? fun r => key r = k).map owner).filter (fun o => o = t) =
    ((xs.find? fun r => key r = k).map owner).filter fun o => o = t
  fewer : ∀ k ∈ ys.map key, k ∈ xs.map key

/-- Rows with the key, if there are any, are of the owner. -/
def Free (key : ρ → κ) (owner : ρ → τ) (t : τ) (xs : List ρ) (k : κ) : Prop :=
  ∀ r ∈ xs, key r = k → owner r = t

instance (key : ρ → κ) (owner : ρ → τ) (t : τ) (xs : List ρ) (k : κ) :
    Decidable (Free key owner t xs k) :=
  inferInstanceAs (Decidable (∀ r ∈ xs, key r = k → owner r = t))

variable {key : ρ → κ} {owner : ρ → τ} {t : τ} {xs ys zs : List ρ} {r : ρ} {k : κ}

theorem Same.refl (key : ρ → κ) (owner : ρ → τ) (t : τ) (xs : List ρ) :
    Same key owner t xs xs :=
  ⟨rfl, fun _ => rfl, fun _ h => h⟩

theorem find?_eq_none_of_not_mem (h : k ∉ xs.map key) : (xs.find? fun r => key r = k) = none := by
  rw [List.find?_eq_none]
  intro x hx heq
  exact h (List.mem_map.mpr ⟨x, hx, of_decide_eq_true heq⟩)

/-- A new row in both tables. -/
theorem Same.both (h : Same key owner t xs ys) (hnew : key r ∉ xs.map key) :
    Same key owner t (xs ++ [r]) (ys ++ [r]) where
  rows := by rw [List.filter_append, List.filter_append, h.rows]
  found := by
    intro k
    have hfound := h.found k
    rw [List.find?_append, List.find?_append]
    by_cases hk : key r = k
    · have hx := find?_eq_none_of_not_mem hnew
      have hy := find?_eq_none_of_not_mem fun hmem => hnew (h.fewer _ hmem)
      rw [← hk, hx, hy]
    · rw [List.find?_cons_of_neg (by simpa using hk), List.find?_nil, Option.or_none,
        Option.or_none]
      exact hfound
  fewer := by
    intro k hk
    rw [List.map_append, List.mem_append] at hk ⊢
    exact hk.imp_left (h.fewer k)

/-- A new row of somebody else, in the first table only. -/
theorem Same.other (h : Same key owner t xs ys) (hr : owner r ≠ t) :
    Same key owner t (xs ++ [r]) ys where
  rows := by
    have hdropped : ([r].filter fun r => decide (owner r = t)) = [] := by simp [hr]
    rw [List.filter_append, hdropped, List.append_nil, h.rows]
  found := by
    intro k
    rw [h.found k, List.find?_append]
    cases hx : xs.find? fun r => key r = k with
    | some x => rfl
    | none =>
      rw [Option.none_or]
      by_cases hk : key r = k
      · rw [List.find?_cons_of_pos (by simpa using hk), Option.map_some, Option.filter_some,
          if_neg (by simpa using hr)]
        rfl
      · rw [List.find?_cons_of_neg (by simpa using hk), List.find?_nil]
  fewer := by
    intro k hk
    rw [List.map_append]
    exact List.mem_append_left _ (h.fewer k hk)

/-- Both tables have the key or neither has. -/
theorem Same.mem_iff (h : Same key owner t xs ys) (hfree : Free key owner t xs k) :
    k ∈ ys.map key ↔ k ∈ xs.map key := by
  constructor
  · exact h.fewer k
  · intro hk
    obtain ⟨x, hx, rfl⟩ := List.mem_map.mp hk
    have hrow : x ∈ ys.filter fun r => owner r = t := by
      rw [h.rows]
      exact List.mem_filter.mpr ⟨hx, decide_eq_true (hfree x hx rfl)⟩
    exact List.mem_map.mpr ⟨x, List.mem_of_mem_filter hrow, rfl⟩

/-- A row is there in both tables or in neither, if it is of the owner. -/
theorem Same.isNone_found (h : Same key owner t xs ys)
    (hown : ∀ o ∈ (xs.find? fun r => key r = k).map owner, o = t) :
    ((ys.find? fun r => key r = k).map owner).isNone =
      ((xs.find? fun r => key r = k).map owner).isNone := by
  have hfound := h.found k
  cases hx : (xs.find? fun r => key r = k).map owner with
  | none =>
    have hy : (ys.find? fun r => key r = k) = none := by
      apply find?_eq_none_of_not_mem
      intro hk
      obtain ⟨x, hmem, heq⟩ := List.mem_map.mp (h.fewer k hk)
      have hnone := List.find?_eq_none.mp (Option.map_eq_none_iff.mp hx) x hmem
      exact hnone (decide_eq_true heq)
    rw [hy]
    rfl
  | some o =>
    have ho : o = t := hown o hx
    rw [hx, Option.filter_some, if_pos (decide_eq_true ho)] at hfound
    rw [(Option.filter_eq_some_iff.mp hfound).1]

/-- A test that only rows of the owner pass. -/
theorem any_eq_of_rows {p : ρ → Bool}
    (hrows : (ys.filter fun r => owner r = t) = xs.filter fun r => owner r = t)
    (hx : ∀ r ∈ xs, p r = true → owner r = t) (hy : ∀ r ∈ ys, p r = true → owner r = t) :
    ys.any p = xs.any p := by
  have hany : ∀ {zs : List ρ}, (∀ r ∈ zs, p r = true → owner r = t) →
      zs.any p = (zs.filter fun r => owner r = t).any p := by
    intro zs hz
    rw [Bool.eq_iff_iff, List.any_eq_true, List.any_eq_true]
    constructor
    · intro h
      obtain ⟨r, hr, hp⟩ := h
      exact ⟨r, List.mem_filter.mpr ⟨hr, decide_eq_true (hz r hr hp)⟩, hp⟩
    · intro h
      obtain ⟨r, hr, hp⟩ := h
      exact ⟨r, List.mem_of_mem_filter hr, hp⟩
  rw [hany hx, hany hy, hrows]

end Scoped

import Mathlib.Logic.Function.Basic

/-- A table with a primary key: the row found under a key carries that key. -/
structure KeyedTable (κ ρ : Type) (key : ρ → κ) where
  find : κ → Option ρ
  keyed : ∀ k r, find k = some r → key r = k

namespace KeyedTable

variable {κ ρ : Type} {key : ρ → κ}

@[ext] theorem ext {t u : KeyedTable κ ρ key} (h : ∀ k, t.find k = u.find k) : t = u := by
  obtain ⟨f, _⟩ := t
  obtain ⟨g, _⟩ := u
  obtain rfl : f = g := funext h
  rfl

def empty : KeyedTable κ ρ key :=
  ⟨fun _ => none, fun _ _ h => by cases h⟩

variable [DecidableEq κ]

/-- The table of the rows of a list; of two rows with one key the first counts. -/
def ofList (rows : List ρ) : KeyedTable κ ρ key where
  find := fun k => rows.find? fun r => key r = k
  keyed := by
    intro k r h
    simpa using List.find?_some h

theorem mem_of_find_ofList {rows : List ρ} {k : κ} {r : ρ}
    (h : (ofList rows : KeyedTable κ ρ key).find k = some r) : r ∈ rows :=
  List.mem_of_find?_eq_some h

/-- Insert a row, or replace the one that has its key. -/
def put (t : KeyedTable κ ρ key) (r : ρ) : KeyedTable κ ρ key where
  find := Function.update t.find (key r) (some r)
  keyed := by
    intro k s h
    by_cases hk : k = key r
    · subst k
      rw [Function.update_self] at h
      cases h
      rfl
    · rw [Function.update_of_ne hk] at h
      exact t.keyed k s h

theorem find_put (t : KeyedTable κ ρ key) (r : ρ) (k : κ) :
    (t.put r).find k = if k = key r then some r else t.find k := by
  simp only [put, Function.update_apply]

@[simp] theorem find_put_self (t : KeyedTable κ ρ key) (r : ρ) :
    (t.put r).find (key r) = some r := by
  simp [find_put]

theorem find_put_of_ne (t : KeyedTable κ ρ key) {r : ρ} {k : κ} (h : k ≠ key r) :
    (t.put r).find k = t.find k := by
  simp [find_put, h]

theorem put_put {t : KeyedTable κ ρ key} {r s : ρ} (h : key s = key r) :
    (t.put r).put s = t.put s := by
  ext k : 1
  simp only [find_put, h]
  split <;> rfl

/-- Saving a row as it is found changes nothing. -/
theorem put_eq_self {t : KeyedTable κ ρ key} {r : ρ} (h : t.find (key r) = some r) :
    t.put r = t := by
  ext k : 1
  rw [find_put]
  split
  next hk => rw [hk, h]
  next => rfl

end KeyedTable

import Mathlib.Data.List.Induction
import Mathlib.Logic.Function.Basic

/-- A key-value store whose keys disappear at an instant that is set with the value. -/
structure ExpiringKeys (κ ν : Type) where
  entry : κ → Option (ν × Int)

namespace ExpiringKeys

variable {κ ν : Type}

def empty : ExpiringKeys κ ν :=
  ⟨fun _ => none⟩

/-- What a read at an instant finds. -/
def get (s : ExpiringKeys κ ν) (now : Int) (k : κ) : Option ν :=
  ((s.entry k).filter fun e => now < e.2).map Prod.fst

/-- A value that is there until an instant, in place of what the key had. -/
def set [DecidableEq κ] (s : ExpiringKeys κ ν) (k : κ) (v : ν) (expiresAt : Int) :
    ExpiringKeys κ ν :=
  ⟨Function.update s.entry k (some (v, expiresAt))⟩

theorem entry_set [DecidableEq κ] (s : ExpiringKeys κ ν) (k k' : κ) (v : ν) (expiresAt : Int) :
    (s.set k v expiresAt).entry k' = if k' = k then some (v, expiresAt) else s.entry k' := by
  simp only [set, Function.update_apply]

theorem get_eq_some {s : ExpiringKeys κ ν} {now : Int} {k : κ} {v : ν} :
    s.get now k = some v ↔ ∃ expiresAt, s.entry k = some (v, expiresAt) ∧ now < expiresAt := by
  simp only [get, Option.map_eq_some_iff, Option.filter_eq_some_iff, decide_eq_true_eq]
  constructor
  · intro h
    obtain ⟨⟨v', expiresAt⟩, ⟨he, hlt⟩, rfl⟩ := h
    exact ⟨expiresAt, he, hlt⟩
  · intro h
    obtain ⟨expiresAt, he, hlt⟩ := h
    exact ⟨(v, expiresAt), ⟨he, hlt⟩, rfl⟩

/-- Keys that are set one after the other, until one instant. -/
def setAll [DecidableEq κ] {ι : Type} (s : ExpiringKeys κ ν) (xs : List ι) (key : ι → κ)
    (value : ι → ν) (expiresAt : Int) : ExpiringKeys κ ν :=
  xs.foldl (fun t x => t.set (key x) (value x) expiresAt) s

section setAll

variable [DecidableEq κ] {ι : Type} {s : ExpiringKeys κ ν} {xs : List ι} {key : ι → κ}
  {value : ι → ν} {expiresAt : Int}

theorem entry_setAll_of_ne {k : κ} (h : ∀ x ∈ xs, key x ≠ k) :
    (s.setAll xs key value expiresAt).entry k = s.entry k := by
  unfold setAll
  induction xs using List.reverseRecOn with
  | nil => rfl
  | append_singleton xs x ih =>
    rw [List.foldl_append, List.foldl_cons, List.foldl_nil, entry_set, if_neg (h x (by simp)).symm]
    exact ih fun y hy => h y (List.mem_append_left _ hy)

/-- Where the key determines the value, it does not matter which of the writes is the last. -/
theorem entry_setAll_of_mem {x : ι} (hx : x ∈ xs)
    (h : ∀ y ∈ xs, key y = key x → value y = value x) :
    (s.setAll xs key value expiresAt).entry (key x) = some (value x, expiresAt) := by
  unfold setAll
  induction xs using List.reverseRecOn with
  | nil => cases hx
  | append_singleton xs y ih =>
    rw [List.foldl_append, List.foldl_cons, List.foldl_nil, entry_set]
    by_cases hkey : key x = key y
    · rw [if_pos hkey, h y (by simp) hkey.symm]
    · rw [if_neg hkey]
      rcases List.mem_append.mp hx with hx | hx
      · exact ih hx fun z hz => h z (List.mem_append_left _ hz)
      · exact absurd (congrArg key (List.mem_singleton.mp hx)) hkey

end setAll

end ExpiringKeys

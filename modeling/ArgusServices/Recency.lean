import Mathlib.Data.List.Nodup
import Mathlib.Data.List.Sort

namespace Recency

variable {α : Type*}

/-- Most recent first: what is touched moves to the front. -/
def touch [DecidableEq α] (xs : List α) (a : α) : List α :=
  a :: xs.erase a

/-- `ORDER BY stamp DESC`; rows with one stamp stay as the scan meets them. -/
def newestFirst (stamp : α → Int) (xs : List α) : List α :=
  xs.mergeSort fun a b => stamp b ≤ stamp a

theorem newestFirst_perm (stamp : α → Int) (xs : List α) : (newestFirst stamp xs).Perm xs :=
  List.mergeSort_perm _ _

theorem newestFirst_sorted (stamp : α → Int) (xs : List α) :
    (newestFirst stamp xs).Pairwise fun a b => stamp b ≤ stamp a := by
  have h := @List.pairwise_mergeSort _ (fun a b => decide (stamp b ≤ stamp a))
    (fun a b c hab hbc => decide_eq_true
      (Int.le_trans (of_decide_eq_true hbc) (of_decide_eq_true hab)))
    (fun a b => by simpa using Int.le_total (stamp b) (stamp a)) xs
  exact h.imp fun hab => of_decide_eq_true hab

/-- Rows with stamps of their own are sorted in one way. -/
theorem newestFirst_eq {stamp : α → Int} {xs ys : List α} (hperm : ys.Perm xs)
    (hsorted : ys.Pairwise fun a b => stamp b < stamp a) : newestFirst stamp xs = ys := by
  have hnodup : (ys.map stamp).Nodup :=
    List.pairwise_map.mpr (hsorted.imp fun h => (Int.ne_of_lt h).symm)
  have hperm' := (newestFirst_perm stamp xs).trans hperm.symm
  refine hperm'.eq_of_pairwise ?_ (newestFirst_sorted stamp xs) (hsorted.imp Int.le_of_lt)
  intro a b ha hb hab hba
  exact List.inj_on_of_nodup_map hnodup (hperm'.subset ha) hb (Int.le_antisymm hba hab)

section Touch

variable [DecidableEq α] {xs : List α} {a b : α}

theorem mem_touch : b ∈ touch xs a ↔ b = a ∨ b ∈ xs := by
  unfold touch
  rw [List.mem_cons]
  refine or_congr_right' fun hne => ?_
  exact List.mem_erase_of_ne hne

theorem nodup_touch (h : xs.Nodup) : (touch xs a).Nodup :=
  List.nodup_cons.mpr ⟨fun ha => (List.Nodup.mem_erase_iff h).mp ha |>.1 rfl, h.erase a⟩

/-- A touched element comes before the others, which stay in their order. -/
theorem pairwise_touch {R R' : α → α → Prop} (h : xs.Pairwise R) (hnodup : xs.Nodup)
    (hfirst : ∀ b ∈ xs, b ≠ a → R' a b)
    (hrest : ∀ b c, b ∈ xs → c ∈ xs → b ≠ a → c ≠ a → R b c → R' b c) :
    (touch xs a).Pairwise R' := by
  have hne : ∀ b ∈ xs.erase a, b ∈ xs ∧ b ≠ a := by
    intro b hb
    have := (List.Nodup.mem_erase_iff hnodup).mp hb
    exact ⟨this.2, this.1⟩
  refine List.pairwise_cons.mpr ⟨fun b hb => hfirst b (hne b hb).1 (hne b hb).2, ?_⟩
  refine (h.sublist List.erase_sublist).imp_of_mem ?_
  intro b c hb hc hbc
  exact hrest b c (hne b hb).1 (hne c hc).1 (hne b hb).2 (hne c hc).2 hbc

end Touch

end Recency

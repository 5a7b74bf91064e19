import Mathlib.Order.Lattice
import Mathlib.Data.List.Pairwise

/-- A segment of a sequence: the element that opened it and those it took after. -/
structure Segment (α : Type*) where
  first : α
  rest : List α
  deriving DecidableEq, Repr

namespace Segment

variable {α T : Type*} [LinearOrder T]

def items (s : Segment α) : List α :=
  s.first :: s.rest

def add (s : Segment α) (x : α) : Segment α :=
  ⟨s.first, s.rest ++ [x]⟩

@[simp] theorem add_first (s : Segment α) (x : α) : (s.add x).first = s.first := rfl

@[simp] theorem items_add (s : Segment α) (x : α) : (s.add x).items = s.items ++ [x] := rfl

/-- The segments after `s` has been opened: it takes what comes no later than the stop of its
first element, and what does not opens the next segment. -/
def scan (time stop : α → T) (s : Segment α) : List α → List (Segment α)
  | [] => [s]
  | x :: xs =>
    if time x ≤ stop s.first then scan time stop (s.add x) xs
    else s :: scan time stop ⟨x, []⟩ xs

/-- The greedy segmentation of a sequence. -/
def greedy (time stop : α → T) : List α → List (Segment α)
  | [] => []
  | x :: xs => scan time stop ⟨x, []⟩ xs

variable {time stop : α → T}

/-- One more element changes the last segment or opens one after it. -/
theorem scan_concat (s : Segment α) (xs : List α) (x : α) : ∃ before last,
    scan time stop s xs = before ++ [last] ∧
      scan time stop s (xs ++ [x]) =
        if time x ≤ stop last.first then before ++ [last.add x]
        else before ++ [last, ⟨x, []⟩] := by
  induction xs generalizing s with
  | nil => exact ⟨[], s, rfl, rfl⟩
  | cons y ys ih =>
    by_cases hy : time y ≤ stop s.first
    · simpa only [scan, List.cons_append, hy, ↓reduceIte] using ih (s.add y)
    · obtain ⟨before, last, hbefore, hlast⟩ := ih ⟨y, []⟩
      refine ⟨s :: before, last, ?_, ?_⟩
      · simp only [scan, hy, ↓reduceIte, hbefore, List.cons_append]
      · simp only [scan, List.cons_append, hy, ↓reduceIte, hlast]
        split <;> rfl

theorem greedy_eq_nil {xs : List α} : greedy time stop xs = [] ↔ xs = [] := by
  cases xs with
  | nil => simp [greedy]
  | cons x xs =>
    obtain ⟨before, last, hbefore, -⟩ :=
      @scan_concat α T _ time stop ⟨x, []⟩ xs x
    simp [greedy, hbefore]

theorem greedy_concat {xs : List α} {before : List (Segment α)} {last : Segment α} (x : α)
    (h : greedy time stop xs = before ++ [last]) :
    greedy time stop (xs ++ [x]) =
      if time x ≤ stop last.first then before ++ [last.add x]
      else before ++ [last, ⟨x, []⟩] := by
  cases xs with
  | nil => simp [greedy] at h
  | cons y ys =>
    obtain ⟨before', last', hbefore, hlast⟩ :=
      @scan_concat α T _ time stop ⟨y, []⟩ ys x
    obtain ⟨rfl, hl⟩ := List.append_inj' (h.symm.trans hbefore) rfl
    obtain rfl := List.singleton_inj.mp hl
    exact hlast

/-- Where an element lies within its own stop, a segment starts after all before it stop. -/
theorem scan_pairwise (s : Segment α) (xs : List α) (h : ∀ x, time x ≤ stop x) :
    (scan time stop s xs).Pairwise (fun a b => stop a.first < time b.first) ∧
      ∀ b ∈ scan time stop s xs, b.first = s.first ∨ stop s.first < time b.first := by
  induction xs generalizing s with
  | nil => simp [scan]
  | cons y ys ih =>
    by_cases hy : time y ≤ stop s.first
    · simpa only [scan, hy, ↓reduceIte, add_first] using ih (s.add y)
    · obtain ⟨hpairs, hlater⟩ := ih ⟨y, []⟩
      have hstop : stop s.first < time y := lt_of_not_ge hy
      have hafter : ∀ b ∈ scan time stop ⟨y, []⟩ ys, stop s.first < time b.first := by
        intro b hb
        rcases hlater b hb with heq | hlt
        · rw [heq]
          exact hstop
        · exact (hstop.trans_le (h y)).trans hlt
      simp only [scan, hy, ↓reduceIte, List.pairwise_cons, List.forall_mem_cons]
      exact ⟨⟨hafter, hpairs⟩, Or.inl trivial, fun b hb => Or.inr (hafter b hb)⟩

theorem greedy_pairwise (xs : List α) (h : ∀ x, time x ≤ stop x) :
    (greedy time stop xs).Pairwise fun a b => stop a.first < time b.first := by
  cases xs with
  | nil => exact .nil
  | cons x xs => exact (scan_pairwise ⟨x, []⟩ xs h).1

end Segment

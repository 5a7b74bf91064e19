import Mathlib.Logic.Function.Basic

/-- Threads that share a state and stand each at a point of its own code. -/
structure Threads (ι σ π : Type) where
  shared : σ
  phase : ι → π

namespace Threads

variable {ι σ π : Type} [DecidableEq ι]

/-- One thread moves on and may change the shared state. -/
def move (s : Threads ι σ π) (i : ι) (next : σ × π) : Threads ι σ π :=
  ⟨next.1, Function.update s.phase i next.2⟩

variable {s : Threads ι σ π} {i j : ι} {next : σ × π}

@[simp] theorem move_shared : (s.move i next).shared = next.1 := rfl

@[simp] theorem move_phase_self : (s.move i next).phase i = next.2 := by
  simp [move]

theorem move_phase_of_ne (h : j ≠ i) : (s.move i next).phase j = s.phase j := by
  simp [move, h]

theorem move_stay : s.move i (s.shared, s.phase i) = s := by
  simp [move]

@[simp] theorem move_move {next' : σ × π} : (s.move i next).move i next' = s.move i next' := by
  simp [move]

/-- What held of every thread holds of every thread again, if it holds of the one that moved. -/
theorem forall_move {P : ι → π → Prop} (h : ∀ j, P j (s.phase j)) (hi : P i next.2) :
    ∀ j, P j ((s.move i next).phase j) := by
  intro j
  by_cases hj : j = i
  · subst hj
    rw [move_phase_self]
    exact hi
  · rw [move_phase_of_ne hj]
    exact h j

theorem forall₂_move (R : ι → ι → π → π → Prop)
    (h : ∀ j k, j ≠ k → R j k (s.phase j) (s.phase k))
    (hl : ∀ k, k ≠ i → R i k next.2 (s.phase k)) (hr : ∀ j, j ≠ i → R j i (s.phase j) next.2) :
    ∀ j k, j ≠ k → R j k ((s.move i next).phase j) ((s.move i next).phase k) := by
  intro j k hjk
  by_cases hj : j = i
  · subst hj
    rw [move_phase_self, move_phase_of_ne hjk.symm]
    exact hl k hjk.symm
  · rw [move_phase_of_ne hj]
    by_cases hk : k = i
    · subst hk
      rw [move_phase_self]
      exact hr j hj
    · rw [move_phase_of_ne hk]
      exact h j k hjk

end Threads

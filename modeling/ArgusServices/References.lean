import Mathlib.Logic.Basic

/-- What the rows of a store refer to: by each kind of reference, the owners of the rows that refer
to an id, and the owner of the row that has the id. -/
structure References (κ ι ο : Type) where
  refers : κ → ο → ι → Prop
  owner : κ → ι → Option ο

namespace References

variable {κ ι ο : Type} {r r' r'' : References κ ι ο}

/-- Every row refers to rows of its own owner. -/
def Closed (r : References κ ι ο) : Prop :=
  ∀ k o i, r.refers k o i → r.owner k i = some o

/-- Rows are added, and none changes what it refers to or its owner. -/
structure Extends (r r' : References κ ι ο) : Prop where
  refers : ∀ k o i, r.refers k o i → r'.refers k o i
  owner : ∀ k i o, r.owner k i = some o → r'.owner k i = some o

/-- The rows that are added refer to rows of their own owner. -/
structure Grows (r r' : References κ ι ο) : Prop where
  extends_to : r.Extends r'
  added : ∀ k o i, r'.refers k o i → r.refers k o i ∨ r'.owner k i = some o

theorem Extends.refl (r : References κ ι ο) : r.Extends r :=
  ⟨fun _ _ _ h => h, fun _ _ _ h => h⟩

theorem Extends.trans (h : r.Extends r') (h' : r'.Extends r'') : r.Extends r'' :=
  ⟨fun k o i hr => h'.refers k o i (h.refers k o i hr),
    fun k i o hr => h'.owner k i o (h.owner k i o hr)⟩

theorem Grows.refl (r : References κ ι ο) : r.Grows r :=
  ⟨Extends.refl r, fun _ _ _ h => Or.inl h⟩

theorem Grows.trans (h : r.Grows r') (h' : r'.Grows r'') : r.Grows r'' := by
  refine ⟨h.extends_to.trans h'.extends_to, ?_⟩
  intro k o i hr
  rcases h'.added k o i hr with hr | ho
  · rcases h.added k o i hr with hr | ho
    · exact Or.inl hr
    · exact Or.inr (h'.extends_to.owner k i o ho)
  · exact Or.inr ho

theorem Closed.grows (hc : r.Closed) (h : r.Grows r') : r'.Closed := by
  intro k o i hr
  rcases h.added k o i hr with hr | ho
  · exact h.extends_to.owner k i o (hc k o i hr)
  · exact ho

theorem not_closed {k : κ} {o o' : ο} {i : ι} (hr : r.refers k o i) (ho : r.owner k i = some o')
    (hne : o' ≠ o) : ¬r.Closed := by
  intro hc
  exact hne (Option.some.inj (ho.symm.trans (hc k o i hr)))

end References

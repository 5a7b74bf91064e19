import ArgusServices.Effect

namespace Effect

variable {σ ε α β : Type}

/-- Two computations, each from a state of its own, return one value within `Q` or raise one
exception within `E`. -/
def Alike (x : Proc σ ε α) (s : σ) (y : Proc σ ε α) (t : σ) (Q : α → σ → σ → Prop)
    (E : σ → σ → Prop) : Prop :=
  match exec x s, exec y t with
  | (.ok a, s'), (.ok b, t') => b = a ∧ Q a s' t'
  | (.error e, s'), (.error e', t') => e' = e ∧ E s' t'
  | _, _ => False

variable {x y : Proc σ ε α} {s t : σ} {Q : α → σ → σ → Prop} {E : σ → σ → Prop}

@[simp] theorem alike_pure {a : α} : Alike (pure a : Proc σ ε α) s (pure a) t Q E ↔ Q a s t := by
  constructor
  · intro h
    exact h.2
  · intro h
    exact ⟨rfl, h⟩

@[simp] theorem alike_throw {e : ε} :
    Alike (throw e : Proc σ ε α) s (throw e) t Q E ↔ E s t := by
  constructor
  · intro h
    exact h.2
  · intro h
    exact ⟨rfl, h⟩

@[simp] theorem alike_modify {f g : σ → σ} {Q : PUnit → σ → σ → Prop} :
    Alike (modify f : Proc σ ε PUnit) s (modify g) t Q E ↔ Q ⟨⟩ (f s) (g t) := by
  constructor
  · intro h
    exact h.2
  · intro h
    exact ⟨rfl, h⟩

/-- The rule of consequence. -/
theorem Alike.mono {Q' : α → σ → σ → Prop} {E' : σ → σ → Prop} (h : Alike x s y t Q E)
    (hQ : ∀ a s' t', Q a s' t' → Q' a s' t') (hE : ∀ s' t', E s' t' → E' s' t') :
    Alike x s y t Q' E' := by
  revert h
  unfold Alike
  rcases exec x s with ⟨e | a, s'⟩ <;> rcases exec y t with ⟨e' | b, t'⟩
  · intro h
    exact ⟨h.1, hE _ _ h.2⟩
  · exact id
  · exact id
  · intro h
    exact ⟨h.1, hQ _ _ _ h.2⟩

/-- Sequencing through an intermediate relation. -/
theorem Alike.bind {f g : α → Proc σ ε β} {P : β → σ → σ → Prop} (h : Alike x s y t Q E)
    (hf : ∀ a s' t', Q a s' t' → Alike (f a) s' (g a) t' P E) :
    Alike (x >>= f) s (y >>= g) t P E := by
  revert h
  unfold Alike
  rw [exec_bind, exec_bind]
  rcases exec x s with ⟨e | a, s'⟩ <;> rcases exec y t with ⟨e' | b, t'⟩
  · exact id
  · exact False.elim
  · exact False.elim
  · intro h
    obtain ⟨rfl, hq⟩ := h
    exact hf b s' t' hq

/-- The two runs take the same branch, whatever each of them finds in its state. -/
theorem alike_get_bind {f g : σ → Proc σ ε α} :
    Alike (get >>= f) s (get >>= g) t Q E ↔ Alike (f s) s (g t) t Q E := by
  unfold Alike
  rw [exec_bind, exec_bind]
  rfl

theorem alike_modify_bind {f g : σ → σ} {k l : PUnit → Proc σ ε α} :
    Alike (modify f >>= k) s (modify g >>= l) t Q E ↔ Alike (k ⟨⟩) (f s) (l ⟨⟩) (g t) Q E := by
  unfold Alike
  rw [exec_bind, exec_bind]
  rfl

theorem alike_raiseWhen_bind {b : Bool} {e : ε} {k l : Unit → Proc σ ε α} (hE : E s t)
    (h : b = false → Alike (k ()) s (l ()) t Q E) :
    Alike (raiseWhen b e >>= k) s (raiseWhen b e >>= l) t Q E := by
  cases b with
  | true => exact ⟨rfl, hE⟩
  | false => exact h rfl

theorem Alike.snd {R : σ → σ → Prop} (h : Alike x s y t (fun _ s' t' => R s' t') R) :
    R (exec x s).2 (exec y t).2 := by
  revert h
  unfold Alike
  rcases exec x s with ⟨e | a, s'⟩ <;> rcases exec y t with ⟨e' | b, t'⟩
  · exact And.right
  · exact False.elim
  · exact False.elim
  · exact And.right

theorem Alike.fst (h : Alike x s y t Q E) : (exec y t).1 = (exec x s).1 := by
  revert h
  unfold Alike
  rcases exec x s with ⟨e | a, s'⟩ <;> rcases exec y t with ⟨e' | b, t'⟩
  · intro h
    rw [h.1]
  · exact False.elim
  · exact False.elim
  · intro h
    rw [h.1]

end Effect

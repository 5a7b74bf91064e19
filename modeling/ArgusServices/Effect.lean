import Mathlib.Logic.Basic

namespace Effect

variable {σ ε α β τ : Type}

/-- A computation over a state that may raise; what it did before it raised stays done. -/
abbrev Proc (σ ε α : Type) := ExceptT ε (StateM σ) α

def exec (x : Proc σ ε α) (s : σ) : Except ε α × σ :=
  StateT.run (ExceptT.run x) s

def raiseWhen (b : Bool) (e : ε) : Proc σ ε Unit :=
  if b then throw e else pure ()

/-- How a command to another process ends; one that is lost was executed, but raises. -/
inductive Reply
  | done | failed | lost
  deriving DecidableEq, Repr

def Reply.executed : Reply → Bool
  | .done | .lost => true
  | .failed => false

def Reply.raises : Reply → Bool
  | .done => false
  | .failed | .lost => true

def command (r : Reply) (f : σ → σ) (e : ε) : Proc σ ε Unit := do
  modify fun s => if r.executed then f s else s
  raiseWhen r.raises e

/-- A computation on a state of its own, opened from the outer one and closed into it. -/
def within (enter : σ → τ) (leave : τ → σ) (x : Proc τ ε α) : Proc σ ε α :=
  ExceptT.mk fun s => let r := exec x (enter s); pure (r.1, leave r.2)

/-- A task that is run again while it raises and retries are left; it knows which try it is. -/
def autoretry (task : Nat → Proc σ ε α) : Nat → Nat → Proc σ ε α
  | 0, retries => task retries
  | left + 1, retries => tryCatch (task retries) fun _ => autoretry task left (retries + 1)

/-- Started in `s`, the computation returns within `Q` or raises within `E`. -/
def Ends (x : Proc σ ε α) (s : σ) (Q : α → σ → Prop) (E : ε → σ → Prop) : Prop :=
  match exec x s with
  | (.ok a, t) => Q a t
  | (.error e, t) => E e t

theorem bind_eq_ok {x : Except ε α} {f : α → Except ε β} {b : β} :
    x >>= f = .ok b ↔ ∃ a, x = .ok a ∧ f a = .ok b := by
  cases x with
  | error e => simp [bind, Except.bind]
  | ok a => simp [bind, Except.bind]

theorem mapM_eq_map {f : α → Except ε β} {g : α → β} {xs : List α}
    (h : ∀ x ∈ xs, f x = .ok (g x)) : xs.mapM f = .ok (xs.map g) := by
  induction xs with
  | nil => rfl
  | cons x xs ih =>
    rw [List.mapM_cons, h x (List.mem_cons_self ..),
      ih fun y hy => h y (List.mem_cons_of_mem x hy)]
    rfl

theorem mapM_returns {f : α → Except ε β} {xs : List α} (h : ∀ x ∈ xs, ∃ y, f x = .ok y) :
    ∃ ys, xs.mapM f = .ok ys := by
  induction xs with
  | nil => exact ⟨[], rfl⟩
  | cons x xs ih =>
    obtain ⟨y, hy⟩ := h x List.mem_cons_self
    obtain ⟨ys, hys⟩ := ih fun z hz => h z (List.mem_cons_of_mem x hz)
    refine ⟨y :: ys, ?_⟩
    rw [List.mapM_cons, hy, hys]
    rfl

theorem exists_of_mem_mapM {f : α → Except ε β} {xs : List α} {ys : List β}
    (h : xs.mapM f = .ok ys) : ∀ y ∈ ys, ∃ x ∈ xs, f x = .ok y := by
  induction xs generalizing ys with
  | nil =>
    cases h
    intro y hy
    cases hy
  | cons x xs ih =>
    rw [List.mapM_cons] at h
    obtain ⟨z, hz, h⟩ := bind_eq_ok.mp h
    obtain ⟨zs, hzs, h⟩ := bind_eq_ok.mp h
    cases h
    intro y hy
    rcases List.mem_cons.mp hy with rfl | hy
    · exact ⟨x, List.mem_cons_self, hz⟩
    · obtain ⟨x', hx', hy'⟩ := ih hzs y hy
      exact ⟨x', List.mem_cons_of_mem _ hx', hy'⟩

theorem mapM_eq_error {f : α → Except ε β} {e : ε} {xs : List α}
    (hf : ∀ x, f x = .error e ∨ ∃ y, f x = .ok y) (h : ∃ x ∈ xs, f x = .error e) :
    xs.mapM f = .error e := by
  induction xs with
  | nil => simp at h
  | cons x xs ih =>
    rw [List.mapM_cons]
    rcases hf x with he | ⟨y, hy⟩
    · rw [he]
      rfl
    · rw [hy, ih (by simpa [hy] using h)]
      rfl

theorem exec_bind (x : Proc σ ε α) (f : α → Proc σ ε β) (s : σ) :
    exec (x >>= f) s = match exec x s with
      | (.ok a, t) => exec (f a) t
      | (.error e, t) => (.error e, t) := by
  simp only [exec, ExceptT.run_bind, StateT.run_bind]
  rcases h : StateT.run (ExceptT.run x) s with ⟨r | r, t⟩ <;> rfl

variable {s : σ} {Q : α → σ → Prop} {E : ε → σ → Prop}

@[simp] theorem ends_pure {a : α} : Ends (pure a : Proc σ ε α) s Q E ↔ Q a s :=
  Iff.rfl

@[simp] theorem ends_throw {e : ε} : Ends (throw e : Proc σ ε α) s Q E ↔ E e s :=
  Iff.rfl

@[simp] theorem ends_get {Q : σ → σ → Prop} : Ends (get : Proc σ ε σ) s Q E ↔ Q s s :=
  Iff.rfl

@[simp] theorem ends_modify {f : σ → σ} {Q : PUnit → σ → Prop} :
    Ends (modify f : Proc σ ε PUnit) s Q E ↔ Q ⟨⟩ (f s) :=
  Iff.rfl

@[simp] theorem ends_bind {x : Proc σ ε α} {f : α → Proc σ ε β} {Q : β → σ → Prop} :
    Ends (x >>= f) s Q E ↔ Ends x s (fun a t => Ends (f a) t Q E) E := by
  unfold Ends
  rw [exec_bind]
  rcases exec x s with ⟨r | r, t⟩ <;> rfl

@[simp] theorem ends_raiseWhen {b : Bool} {e : ε} {Q : Unit → σ → Prop} :
    Ends (raiseWhen b e : Proc σ ε Unit) s Q E ↔ (b = true → E e s) ∧ (b = false → Q () s) := by
  cases b <;> simp [raiseWhen]

@[simp] theorem ends_ofExcept {r : Except ε α} : Ends (ofExcept r : Proc σ ε α) s Q E ↔
    (∀ a, r = .ok a → Q a s) ∧ (∀ e, r = .error e → E e s) := by
  cases r <;> simp [MonadExcept.ofExcept]

theorem ends_tryCatch {x : Proc σ ε α} {h : ε → Proc σ ε α} :
    Ends (tryCatch x h) s Q E ↔ Ends x s Q fun e t => Ends (h e) t Q E := by
  have hexec : exec (tryCatch x h) s = match exec x s with
      | (.ok a, t) => (.ok a, t)
      | (.error e, t) => exec (h e) t := by
    simp only [exec, tryCatch, tryCatchThe, MonadExceptOf.tryCatch, ExceptT.tryCatch,
      ExceptT.run_mk, StateT.run_bind]
    have hrun : StateT.run (ExceptT.run x) s = StateT.run x s := rfl
    rw [hrun]
    rcases StateT.run x s with ⟨r | r, t⟩ <;> rfl
  unfold Ends
  rw [hexec]
  rcases exec x s with ⟨r | r, t⟩ <;> rfl

theorem ends_command {r : Reply} {f : σ → σ} {e : ε} {Q : Unit → σ → Prop} :
    Ends (command r f e : Proc σ ε Unit) s Q E ↔
      (r.raises = true → E e (if r.executed then f s else s)) ∧
        (r.raises = false → Q () (if r.executed then f s else s)) := by
  simp only [command, ends_bind, ends_modify, ends_raiseWhen]

theorem ends_within {enter : σ → τ} {leave : τ → σ} {x : Proc τ ε α} :
    Ends (within enter leave x) s Q E ↔
      Ends x (enter s) (fun a t => Q a (leave t)) fun e t => E e (leave t) := by
  have hexec : exec (within enter leave x) s = ((exec x (enter s)).1, leave (exec x (enter s)).2) :=
    rfl
  unfold Ends
  rw [hexec]
  rcases exec x (enter s) with ⟨r | r, t⟩ <;> rfl

theorem ends_autoretry_succ {task : Nat → Proc σ ε α} {left retries : Nat} :
    Ends (autoretry task (left + 1) retries) s Q E ↔
      Ends (task retries) s Q fun _ t => Ends (autoretry task left (retries + 1)) t Q E :=
  ends_tryCatch

/-- The rule of consequence. -/
theorem Ends.mono {x : Proc σ ε α} {Q' : α → σ → Prop} {E' : ε → σ → Prop} (h : Ends x s Q E)
    (hQ : ∀ a t, Q a t → Q' a t) (hE : ∀ e t, E e t → E' e t) : Ends x s Q' E' := by
  revert h
  unfold Ends
  rcases exec x s with ⟨r | r, t⟩
  · exact hE r t
  · exact hQ r t

theorem Ends.and {x : Proc σ ε α} {Q' : α → σ → Prop} {E' : ε → σ → Prop} (h : Ends x s Q E)
    (h' : Ends x s Q' E') :
    Ends x s (fun a t => Q a t ∧ Q' a t) (fun e t => E e t ∧ E' e t) := by
  revert h h'
  unfold Ends
  rcases exec x s with ⟨r | r, t⟩
  · exact And.intro
  · exact And.intro

/-- Sequencing through an intermediate assertion. -/
theorem Ends.bind {x : Proc σ ε α} {f : α → Proc σ ε β} {R : β → σ → Prop} (h : Ends x s Q E)
    (hf : ∀ a t, Q a t → Ends (f a) t R E) : Ends (x >>= f) s R E :=
  ends_bind.mpr (h.mono hf (fun _ _ he => he))

theorem Ends.ok {x : Proc σ ε α} {a : α} {t : σ} (h : Ends x s Q E) (hx : exec x s = (.ok a, t)) :
    Q a t := by
  simpa only [Ends, hx] using h

theorem Ends.error {x : Proc σ ε α} {e : ε} {t : σ} (h : Ends x s Q E)
    (hx : exec x s = (.error e, t)) : E e t := by
  simpa only [Ends, hx] using h

/-- An assertion about the state alone, whichever way the computation ends. -/
theorem ends_state_iff {x : Proc σ ε α} {P : σ → Prop} :
    Ends x s (fun _ t => P t) (fun _ t => P t) ↔ P (exec x s).2 := by
  unfold Ends
  rcases exec x s with ⟨r | r, t⟩ <;> rfl

theorem ends_any (x : Proc σ ε α) (s : σ) : Ends x s (fun _ _ => True) (fun _ _ => True) := by
  unfold Ends
  rcases exec x s with ⟨r | r, t⟩ <;> trivial

/-- The computation leaves a part of the state as it was, whichever way it ends. -/
def Keeps (f : σ → τ) (x : Proc σ ε α) : Prop :=
  ∀ s, Ends x s (fun _ t => f t = f s) (fun _ t => f t = f s)

variable {f : σ → τ}

theorem keeps_pure (a : α) : Keeps f (pure a : Proc σ ε α) :=
  fun _ => rfl

theorem keeps_throw (e : ε) : Keeps f (throw e : Proc σ ε α) :=
  fun _ => rfl

theorem keeps_get : Keeps f (get : Proc σ ε σ) :=
  fun _ => rfl

theorem keeps_raiseWhen (b : Bool) (e : ε) : Keeps f (raiseWhen b e : Proc σ ε Unit) := by
  intro s
  rw [ends_raiseWhen]
  exact ⟨fun _ => rfl, fun _ => rfl⟩

theorem keeps_modify {g : σ → σ} (h : ∀ s, f (g s) = f s) :
    Keeps f (modify g : Proc σ ε PUnit) :=
  fun s => h s

theorem Keeps.bind {x : Proc σ ε α} {k : α → Proc σ ε β} (hx : Keeps f x)
    (hk : ∀ a, Keeps f (k a)) : Keeps f (x >>= k) := by
  intro s
  refine ends_bind.mpr ((hx s).mono ?_ (fun _ _ he => he))
  intro a t ht
  have h := hk a t
  rwa [ht] at h

/-- The retry rule: every try before the last, if it raises, keeps what the next one starts
from, which holds at the start. -/
theorem ends_autoretry {task : Nat → Proc σ ε α} {I : Nat → σ → Prop} {left retries : Nat}
    (hI : I retries s)
    (again : ∀ r t, retries ≤ r → r < retries + left → I r t →
      Ends (task r) t Q fun _ u => I (r + 1) u)
    (final : ∀ t, I (retries + left) t → Ends (task (retries + left)) t Q E) :
    Ends (autoretry task left retries) s Q E := by
  induction left generalizing retries s with
  | zero => exact final s hI
  | succ left ih =>
    rw [ends_autoretry_succ]
    refine (again retries s (Nat.le_refl _) (by omega) hI).mono (fun a t ha => ha) ?_
    intro e t ht
    apply ih ht
    · intro r u hr hlt hu
      exact again r u (by omega) (by omega) hu
    · intro u hu
      have hend : retries + 1 + left = retries + (left + 1) := by omega
      rw [hend] at hu ⊢
      exact final u hu

end Effect

import Mathlib.Data.List.Basic

namespace Transition

variable {σ ι : Type*}

/-- Finite runs of a labelled step relation, with the labels in order. -/
inductive Run (step : σ → ι → σ → Prop) : σ → List ι → σ → Prop
  | nil (s : σ) : Run step s [] s
  | cons {s t u : σ} {l : ι} {ls : List ι} : step s l t → Run step t ls u → Run step s (l :: ls) u

/-- The steps taken only where the guard holds of the state before and the label. -/
def Where (guard : σ → ι → Prop) (step : σ → ι → σ → Prop) : σ → ι → σ → Prop :=
  fun s l t => guard s l ∧ step s l t

/-- The steps taken only into states that have a property. -/
def Into (P : σ → Prop) (step : σ → ι → σ → Prop) : σ → ι → σ → Prop :=
  fun s l t => step s l t ∧ P t

/-- The steps that have a property as a whole. -/
def Such (P : σ → ι → σ → Prop) (step : σ → ι → σ → Prop) : σ → ι → σ → Prop :=
  fun s l t => step s l t ∧ P s l t

/-- The steps together with a value that is folded along their labels. -/
def Tracked {τ : Type*} (f : τ → ι → τ) (step : σ → ι → σ → Prop) : σ × τ → ι → σ × τ → Prop :=
  fun p l q => step p.1 l q.1 ∧ q.2 = f p.2 l

variable {step : σ → ι → σ → Prop} {guard : σ → ι → Prop}

theorem Run.single {s t : σ} {l : ι} (h : step s l t) : Run step s [l] t :=
  .cons h (.nil t)

theorem Run.append {s t u : σ} {ls ms : List ι} (h : Run step s ls t) (h' : Run step t ms u) :
    Run step s (ls ++ ms) u := by
  induction h with
  | nil s => exact h'
  | cons hs _ ih => exact .cons hs (ih h')

/-- What every step keeps, every run keeps. -/
theorem Run.invariant {I : σ → Prop} (keep : ∀ s l t, I s → step s l t → I t)
    {s t : σ} {ls : List ι} (h : Run step s ls t) (hs : I s) : I t := by
  induction h with
  | nil s => exact hs
  | cons hst _ ih => exact ih (keep _ _ _ hs hst)

/-- The invariant rule for steps that are followed only under a guard. -/
theorem Run.invariant_where {I : σ → Prop} (keep : ∀ s l t, I s → guard s l → step s l t → I t)
    {s t : σ} {ls : List ι} (h : Run (Where guard step) s ls t) (hs : I s) : I t :=
  h.invariant (fun s l t hi hg => keep s l t hi hg.1 hg.2) hs

theorem Run.mono {step' : σ → ι → σ → Prop} (sub : ∀ s l t, step s l t → step' s l t)
    {s t : σ} {ls : List ι} (h : Run step s ls t) : Run step' s ls t := by
  induction h with
  | nil s => exact .nil s
  | cons hs _ ih => exact .cons (sub _ _ _ hs) ih

/-- Every move of a list is allowed in the state it is made in. -/
def allowed {κ : Type*} (next : σ → κ → σ) (ok : σ → κ → Bool) : σ → List κ → Bool
  | _, [] => true
  | s, k :: ks => ok s k && allowed next ok (next s k) ks

/-- Moves that are steps when allowed make a run. -/
theorem run_foldl {κ : Type*} {next : σ → κ → σ} {label : κ → ι} (ok : σ → κ → Bool)
    (hstep : ∀ s k, ok s k = true → step s (label k) (next s k)) {s : σ} {ks : List κ}
    (h : allowed next ok s ks = true) : Run step s (ks.map label) (ks.foldl next s) := by
  induction ks generalizing s with
  | nil => exact .nil s
  | cons k ks ih =>
    simp only [allowed, Bool.and_eq_true] at h
    exact .cons (hstep s k h.1) (ih h.2)

theorem Run.of_where {s t : σ} {ls : List ι} (h : Run (Where guard step) s ls t) :
    Run step s ls t :=
  h.mono fun _ _ _ hs => hs.2

/-- A run either meets the guard throughout or has a first step that does not. -/
theorem Run.where_or_first_violation (guard : σ → ι → Prop) {s u : σ} {ls : List ι}
    (h : Run step s ls u) :
    Run (Where guard step) s ls u ∨
      ∃ ls₁ l ls₂ t t', ls = ls₁ ++ l :: ls₂ ∧ Run (Where guard step) s ls₁ t ∧
        ¬guard t l ∧ step t l t' ∧ Run step t' ls₂ u := by
  induction h with
  | nil s => exact Or.inl (.nil s)
  | @cons s t u l ls hs ht ih =>
    by_cases hg : guard s l
    · rcases ih with ih | ⟨ls₁, m, ls₂, v, v', he, hr, hn, hv, hrest⟩
      · exact Or.inl (.cons ⟨hg, hs⟩ ih)
      · exact Or.inr ⟨l :: ls₁, m, ls₂, v, v', by simp [he], .cons ⟨hg, hs⟩ hr, hn, hv, hrest⟩
    · exact Or.inr ⟨[], l, ls, s, t, rfl, .nil s, hg, hs, ht⟩

/-- What holds at the end of a run and not at its start has come about at one of its steps. -/
theorem Run.arises {P : σ → Prop} {s u : σ} {ls : List ι} (h : Run step s ls u) (hu : P u) :
    P s ∨ ∃ ls₁ l ls₂ t t', ls = ls₁ ++ l :: ls₂ ∧ Run step s ls₁ t ∧ ¬P t ∧ step t l t' ∧
      P t' := by
  induction h with
  | nil s => exact Or.inl hu
  | @cons s t u l ls hs ht ih =>
    by_cases hp : P s
    · exact Or.inl hp
    · rcases ih hu with hpt | ⟨ls₁, m, ls₂, v, v', he, hr, hn, hv, hp'⟩
      · exact Or.inr ⟨[], l, ls, s, t, rfl, .nil s, hp, hs, hpt⟩
      · exact Or.inr ⟨l :: ls₁, m, ls₂, v, v', by simp [he], .cons hs hr, hn, hv, hp'⟩

/-- If every guarded step keeps the invariant and every step that breaks the guard leads to a
state from which no run restores the goal, then the goal is met exactly by the guarded runs. -/
theorem Run.goal_iff_where (I goal lost : σ → Prop)
    (keep : ∀ s l t, I s → guard s l → step s l t → I t)
    (lose : ∀ s l t, I s → ¬guard s l → step s l t → lost t)
    (stay : ∀ s l t, lost s → step s l t → lost t)
    {s t : σ} {ls : List ι} (h : Run step s ls t) (hs : I s)
    (goal_of : I t → goal t) (not_goal : lost t → ¬goal t) :
    goal t ↔ Run (Where guard step) s ls t := by
  constructor
  · intro hg
    rcases h.where_or_first_violation guard with hw | ⟨_, l, _, v, v', _, hr, hn, hv, hrest⟩
    · exact hw
    · have hlost := lose _ _ _ (hr.invariant_where keep hs) hn hv
      exact absurd hg (not_goal (hrest.invariant stay hlost))
  · intro hw
    exact goal_of (hw.invariant_where keep hs)

/-- If a step keeps the property exactly where the guard holds, the runs that keep it throughout
are the guarded ones. -/
theorem Run.into_iff_where {I P : σ → Prop} (keep : ∀ s l t, I s → step s l t → I t)
    (exact : ∀ s l t, I s → P s → step s l t → (P t ↔ guard s l))
    {s t : σ} {ls : List ι} (hi : I s) (hp : P s) :
    Run (Into P step) s ls t ↔ Run (Where guard step) s ls t := by
  constructor
  · intro h
    induction h with
    | nil s => exact .nil s
    | cons hs _ ih =>
      obtain ⟨hstep, hpt⟩ := hs
      exact .cons ⟨(exact _ _ _ hi hp hstep).mp hpt, hstep⟩ (ih (keep _ _ _ hi hstep) hpt)
  · intro h
    induction h with
    | nil s => exact .nil s
    | cons hs _ ih =>
      obtain ⟨hg, hstep⟩ := hs
      have hpt := (exact _ _ _ hi hp hstep).mpr hg
      exact .cons ⟨hstep, hpt⟩ (ih (keep _ _ _ hi hstep) hpt)

/-- A run whose steps keep the property under the guard has it in every state it reaches. -/
theorem Run.into_of_where {I : σ → Prop} {P : σ → Prop}
    (keep : ∀ s l t, I s → P s → guard s l → step s l t → I t ∧ P t) {s t : σ} {ls : List ι}
    (h : Run (Where guard step) s ls t) (hi : I s) (hp : P s) : Run (Into P step) s ls t := by
  induction h with
  | nil s => exact .nil s
  | cons hs _ ih =>
    obtain ⟨hg, hstep⟩ := hs
    obtain ⟨hi', hp'⟩ := keep _ _ _ hi hp hg hstep
    exact .cons ⟨hstep, hp'⟩ (ih hi' hp')

/-- What every step has in the states of an invariant, every step of a run has. -/
theorem Run.such {I : σ → Prop} {P : σ → ι → σ → Prop}
    (keep : ∀ s l t, I s → step s l t → I t ∧ P s l t) {s t : σ} {ls : List ι}
    (h : Run step s ls t) (hs : I s) : Run (Such P step) s ls t := by
  induction h with
  | nil s => exact .nil s
  | cons hst _ ih =>
    obtain ⟨hi, hp⟩ := keep _ _ _ hs hst
    exact .cons ⟨hst, hp⟩ (ih hi)

/-- If a step has the property exactly where the guard holds, the runs whose steps all have it are
the guarded ones. -/
theorem Run.such_iff_where {I : σ → Prop} {P : σ → ι → σ → Prop}
    (keep : ∀ s l t, I s → step s l t → I t)
    (exact : ∀ s l t, I s → step s l t → (P s l t ↔ guard s l))
    {s t : σ} {ls : List ι} (hi : I s) :
    Run (Such P step) s ls t ↔ Run (Where guard step) s ls t := by
  constructor
  · intro h
    induction h with
    | nil s => exact .nil s
    | cons hs _ ih =>
      obtain ⟨hstep, hp⟩ := hs
      exact .cons ⟨(exact _ _ _ hi hstep).mp hp, hstep⟩ (ih (keep _ _ _ hi hstep))
  · intro h
    induction h with
    | nil s => exact .nil s
    | cons hs _ ih =>
      obtain ⟨hg, hstep⟩ := hs
      exact .cons ⟨hstep, (exact _ _ _ hi hstep).mpr hg⟩ (ih (keep _ _ _ hi hstep))

theorem run_tracked {τ : Type*} {f : τ → ι → τ} {s t : σ} {ls : List ι} (h : Run step s ls t)
    (a : τ) : Run (Tracked f step) (s, a) ls (t, ls.foldl f a) := by
  induction h generalizing a with
  | nil s => exact .nil _
  | cons hs _ ih => exact .cons (t := (_, _)) ⟨hs, rfl⟩ (ih _)

theorem Run.of_tracked {τ : Type*} {f : τ → ι → τ} {p q : σ × τ} {ls : List ι}
    (h : Run (Tracked f step) p ls q) : Run step p.1 ls q.1 := by
  induction h with
  | nil p => exact .nil _
  | cons hs _ ih => exact .cons hs.1 ih

/-- A guard that does not look at the folded value guards the steps themselves. -/
theorem run_where_tracked (guard : σ → ι → Prop) {τ : Type*} {f : τ → ι → τ} {s t : σ}
    {ls : List ι} (a : τ) :
    Run (Where (fun p l => guard p.1 l) (Tracked f step)) (s, a) ls (t, ls.foldl f a) ↔
      Run (Where guard step) s ls t := by
  constructor
  · intro h
    have htracked : Run (Tracked f (Where guard step)) (s, a) ls (t, ls.foldl f a) :=
      h.mono fun _ _ _ hs => ⟨⟨hs.1, hs.2.1⟩, hs.2.2⟩
    exact htracked.of_tracked
  · intro h
    exact (run_tracked h a).mono fun _ _ _ hs => ⟨hs.1.1, hs.1.2, hs.2⟩

/-- If in the states of an invariant short of the goal some step keeps the invariant and lowers
the rank, then a run leads to the goal. -/
theorem exists_run_of_rank {I goal : σ → Prop} (rank : σ → Nat)
    (progress : ∀ s, I s → ¬goal s → ∃ l t, step s l t ∧ I t ∧ rank t < rank s) {s : σ}
    (hs : I s) : ∃ ls t, Run step s ls t ∧ goal t := by
  induction h : rank s using Nat.strongRecOn generalizing s with
  | ind n ih =>
    by_cases hg : goal s
    · exact ⟨[], s, .nil s, hg⟩
    · obtain ⟨l, t, hstep, ht, hlt⟩ := progress s hs hg
      obtain ⟨ls, u, hrun, hgoal⟩ := ih _ (h ▸ hlt) ht rfl
      exact ⟨l :: ls, u, .cons hstep hrun, hgoal⟩

end Transition

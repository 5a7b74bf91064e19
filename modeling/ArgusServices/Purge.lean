import ArgusServices.Transition

namespace Purge

open Transition

variable {σ ι ω : Type*}

/-- The steps of an observer, each judged in the state it is taken in. -/
def purge (next : σ → ι → σ) (own : σ → ι → Bool) : σ → List ι → List ι
  | _, [] => []
  | s, l :: ls =>
    if own s l then l :: purge next own (next s l) ls else purge next own (next s l) ls

/-- What the observer's own steps are answered, in order. -/
def heard (next : σ → ι → σ) (own : σ → ι → Bool) (ask : σ → ι → ω) : σ → List ι → List ω
  | _, [] => []
  | s, l :: ls =>
    if own s l then ask s l :: heard next own ask (next s l) ls
    else heard next own ask (next s l) ls

/-- What every step is answered. -/
def answers (next : σ → ι → σ) (ask : σ → ι → ω) (s : σ) (ls : List ι) : List ω :=
  heard next (fun _ _ => true) ask s ls

/-- The conditions on one step: what is not the observer's leaves what it sees alone, and its own
steps do and answer the same in two states that look the same to it. -/
structure Unwinds (next : σ → ι → σ) (own : σ → ι → Bool) (ask : σ → ι → ω)
    (guard : σ → ι → Prop) (same : σ → σ → Prop) : Prop where
  hidden : ∀ s t l, own s l = false → guard s l → same s t → same (next s l) t
  alike : ∀ s t l, own s l = true → guard s l → same s t →
    ask t l = ask s l ∧ same (next s l) (next t l)

variable {next : σ → ι → σ} {own : σ → ι → Bool} {ask : σ → ι → ω} {guard : σ → ι → Prop}
  {same : σ → σ → Prop} {s s' t : σ} {ls : List ι}

/-- A guarded run and the run of its own steps alone look the same to the observer, and are
answered the same. -/
theorem Unwinds.purge (h : Unwinds next own ask guard same)
    (hrun : Run (Where guard fun s l s' => s' = next s l) s ls s') (hsame : same s t) :
    same s' ((purge next own s ls).foldl next t) ∧
      answers next ask t (purge next own s ls) = heard next own ask s ls := by
  induction hrun generalizing t with
  | nil s => exact ⟨hsame, rfl⟩
  | @cons s _ u l ls hstep _ ih =>
    obtain ⟨hguard, rfl⟩ := hstep
    cases hown : own s l with
    | false =>
      have hkept := ih (h.hidden s t l hown hguard hsame)
      simp only [Purge.purge, heard, hown, Bool.false_eq_true, if_false]
      exact hkept
    | true =>
      obtain ⟨hask, hnext⟩ := h.alike s t l hown hguard hsame
      obtain ⟨hkept, hanswers⟩ := ih hnext
      simp only [Purge.purge, heard, hown, if_true, List.foldl_cons]
      refine ⟨hkept, ?_⟩
      rw [← hanswers, ← hask]
      rfl

end Purge

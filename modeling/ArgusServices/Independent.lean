import ArgusServices.Threads
import Mathlib.Logic.Relation

/-! Threads whose turns depend on a view of the shared state that the turns of the others leave:
any interleaving of them is as good as the threads one after the other. -/

open Relation

namespace Threads

variable {ι σ π : Type}

/-- A turn takes a thread from a shared state and a point of its code to the next ones. `sound`
is what a thread may rely on, `sees` when two shared states look the same to it. -/
structure Independent (turn : ι → σ × π → σ × π → Prop) (sees : ι → σ → σ → Prop)
    (sound : ι → σ × π → Prop) : Prop where
  refl : ∀ i w, sees i w w
  symm : ∀ i {w v}, sees i w v → sees i v w
  trans : ∀ i {w v u}, sees i w v → sees i v u → sees i w u
  sound_sees : ∀ i {w v p}, sound i (w, p) → sees i w v → sound i (v, p)
  sound_turn : ∀ i {a b}, sound i a → turn i a b → sound i b
  follows : ∀ i {w v p b}, sound i (w, p) → sees i w v → turn i (w, p) b →
    ∃ v', turn i (v, p) (v', b.2) ∧ sees i b.1 v'
  frame : ∀ i j {a b}, sound i a → turn i a b → j ≠ i → sees j a.1 b.1

/-- One of the threads takes a turn. -/
def Turns [DecidableEq ι] (turn : ι → σ × π → σ × π → Prop) (s t : Threads ι σ π) : Prop :=
  ∃ i next, turn i (s.shared, s.phase i) next ∧ t = s.move i next

/-- The threads of a list, one after the other, each from its point in `p` to that in `p'`. -/
inductive InSeries (turn : ι → σ × π → σ × π → Prop) (p p' : ι → π) : List ι → σ → σ → Prop
  | nil {w : σ} : InSeries turn p p' [] w w
  | cons {i : ι} {is : List ι} {w v u : σ} : ReflTransGen (turn i) (w, p i) (v, p' i) →
      InSeries turn p p' is v u → InSeries turn p p' (i :: is) w u

namespace Independent

variable {turn : ι → σ × π → σ × π → Prop} {sees : ι → σ → σ → Prop} {sound : ι → σ × π → Prop}
  {i j : ι} {a b : σ × π} {w v : σ} {p : π}

theorem sound_turns (h : Independent turn sees sound) (ha : sound i a)
    (hab : ReflTransGen (turn i) a b) : sound i b := by
  induction hab with
  | refl => exact ha
  | tail _ hturn ih => exact h.sound_turn i ih hturn

theorem frame_turns (h : Independent turn sees sound) (ha : sound i a)
    (hab : ReflTransGen (turn i) a b) (hj : j ≠ i) : sees j a.1 b.1 := by
  induction hab with
  | refl => exact h.refl j _
  | tail hac hturn ih =>
    exact h.trans j ih (h.frame i j (h.sound_turns ha hac) hturn hj)

/-- What a thread does alone, it does alone from any state that looks the same to it. -/
theorem follows_turns (h : Independent turn sees sound) (hs : sound i (w, p)) (hw : sees i w v)
    (hab : ReflTransGen (turn i) (w, p) b) :
    ∃ v', ReflTransGen (turn i) (v, p) (v', b.2) ∧ sees i b.1 v' := by
  induction hab with
  | refl => exact ⟨v, .refl, hw⟩
  | @tail c b hac hturn ih =>
    obtain ⟨u, hrun, hu⟩ := ih
    obtain ⟨v', hlast, hv'⟩ := h.follows i (h.sound_turns hs hac) hu hturn
    exact ⟨v', hrun.tail hlast, hv'⟩

/-- In an interleaved run every thread does what it could have done alone. -/
theorem alone [DecidableEq ι] (h : Independent turn sees sound) {s t : Threads ι σ π}
    (hs : ∀ i, sound i (s.shared, s.phase i)) (hrun : ReflTransGen (Turns turn) s t) :
    ∀ i, ∃ v, ReflTransGen (turn i) (s.shared, s.phase i) (v, t.phase i) ∧
      sees i t.shared v := by
  induction hrun with
  | refl => exact fun i => ⟨s.shared, .refl, h.refl i _⟩
  | @tail t u _ hturn ih =>
    obtain ⟨j, next, hj, rfl⟩ := hturn
    -- what a thread relies on still holds in the state the others have worked on
    have hsound : ∀ i, sound i (t.shared, t.phase i) := by
      intro i
      obtain ⟨v, hown, hv⟩ := ih i
      exact h.sound_sees i (h.sound_turns (hs i) hown) (h.symm i hv)
    intro i
    obtain ⟨v, hown, hv⟩ := ih i
    by_cases hij : i = j
    · subst hij
      obtain ⟨v', hlast, hv'⟩ := h.follows i (hsound i) hv hj
      rw [move_phase_self]
      exact ⟨v', hown.tail hlast, hv'⟩
    · have hkept := h.frame j i (hsound j) hj hij
      rw [move_phase_of_ne hij]
      exact ⟨v, hown, h.trans i (h.symm i hkept) hv⟩

/-- Threads that can each go alone to what looks to them like `x` can go there one after the
other. -/
theorem in_series (h : Independent turn sees sound) {p p' : ι → π} {x : σ} {is : List ι}
    (hs : ∀ i ∈ is, sound i (w, p i))
    (hown : ∀ i ∈ is, ∃ v, ReflTransGen (turn i) (w, p i) (v, p' i) ∧ sees i x v)
    (hnodup : is.Nodup) :
    ∃ u, InSeries turn p p' is w u ∧ (∀ i ∈ is, sees i x u) ∧ ∀ i ∉ is, sees i w u := by
  induction is generalizing w with
  | nil =>
    refine ⟨w, .nil, ?_, fun i _ => h.refl i w⟩
    intro i hi
    cases hi
  | cons j is ih =>
    obtain ⟨hj, hnodup⟩ := List.nodup_cons.mp hnodup
    obtain ⟨v, hfirst, hv⟩ := hown j List.mem_cons_self
    have hkept : ∀ i, i ≠ j → sees i w v :=
      fun i hi => h.frame_turns (hs j List.mem_cons_self) hfirst hi
    have hmem : ∀ i ∈ is, i ≠ j := fun i hi heq => hj (heq ▸ hi)
    -- the others go on from the state the first one leaves
    have hsound : ∀ i ∈ is, sound i (v, p i) := by
      intro i hi
      exact h.sound_sees i (hs i (List.mem_cons_of_mem j hi)) (hkept i (hmem i hi))
    have hrest : ∀ i ∈ is, ∃ v', ReflTransGen (turn i) (v, p i) (v', p' i) ∧ sees i x v' := by
      intro i hi
      obtain ⟨y, hy, hsees⟩ := hown i (List.mem_cons_of_mem j hi)
      obtain ⟨v', hrun, hv'⟩ :=
        h.follows_turns (hs i (List.mem_cons_of_mem j hi)) (hkept i (hmem i hi)) hy
      exact ⟨v', hrun, h.trans i hsees hv'⟩
    obtain ⟨u, hseries, hthere, hleft⟩ := ih hsound hrest hnodup
    refine ⟨u, .cons hfirst hseries, ?_, ?_⟩
    · intro i hi
      rcases List.mem_cons.mp hi with rfl | hi
      · exact h.trans i hv (hleft i hj)
      · exact hthere i hi
    · intro i hi
      have hne : i ≠ j := fun heq => hi (heq ▸ List.mem_cons_self)
      exact h.trans i (hkept i hne) (hleft i fun hmem => hi (List.mem_cons_of_mem j hmem))

/-- An interleaved run is as good to every thread as the threads one after the other. -/
theorem serial [DecidableEq ι] (h : Independent turn sees sound) {s t : Threads ι σ π}
    (hs : ∀ i, sound i (s.shared, s.phase i)) (hrun : ReflTransGen (Turns turn) s t)
    {is : List ι} (hnodup : is.Nodup) (hall : ∀ i, i ∈ is) :
    ∃ u, InSeries turn s.phase t.phase is s.shared u ∧ ∀ i, sees i t.shared u := by
  obtain ⟨u, hseries, hthere, -⟩ :=
    h.in_series (fun i _ => hs i) (fun i _ => h.alone hs hrun i) hnodup
  exact ⟨u, hseries, fun i => hthere i (hall i)⟩

end Independent

end Threads

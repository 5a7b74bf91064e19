import ArgusServices.Transition

/-! A viewer that asks a server again whenever it is told that something has happened. -/

namespace Refetch

open Transition

variable {σ ι κ α β ω : Type*}

/-- A request in flight: not read by the server yet, or answered with what the server held. -/
inductive Fetch (κ α : Type*)
  | sent (kind : κ)
  | answered (kind : κ) (value : α)

/-- The server, the requests in flight in the order they were begun, and what the viewer shows. -/
structure Viewer (σ κ α β : Type*) where
  server : σ
  pending : List (Fetch κ α)
  shown : β

inductive Turn (ι κ α ω : Type*)
  | serve (label : ι)
  | begin (kind : κ)
  | read (i : Nat) (value : α)
  | arrive (i : Nat)
  | lose (i : Nat)
  | own (label : ω)

/-- The parts a viewer is made of: the steps of its server, what the server may answer, which
requests the viewer begins, how it takes an answer, and what it does on its own. -/
structure Parts (σ ι κ α β ω : Type*) where
  serve : σ → ι → σ → Prop
  reads : σ → α → Prop
  begins : β → κ → Prop
  take : κ → α → β → β
  own : β → ω → β → Prop

inductive Step (parts : Parts σ ι κ α β ω) :
    Viewer σ κ α β → Turn ι κ α ω → Viewer σ κ α β → Prop
  | serve {s : Viewer σ κ α β} {label : ι} {server : σ} : parts.serve s.server label server →
      Step parts s (.serve label) { s with server := server }
  | begin {s : Viewer σ κ α β} {kind : κ} : parts.begins s.shown kind →
      Step parts s (.begin kind) { s with pending := s.pending ++ [.sent kind] }
  | read {s : Viewer σ κ α β} {i : Nat} {kind : κ} {value : α} :
      s.pending[i]? = some (.sent kind) → parts.reads s.server value →
      Step parts s (.read i value) { s with pending := s.pending.set i (.answered kind value) }
  | arrive {s : Viewer σ κ α β} {i : Nat} {kind : κ} {value : α} :
      s.pending[i]? = some (.answered kind value) →
      Step parts s (.arrive i)
        { s with pending := s.pending.eraseIdx i, shown := parts.take kind value s.shown }
  | lose {s : Viewer σ κ α β} {i : Nat} : i < s.pending.length →
      Step parts s (.lose i) { s with pending := s.pending.eraseIdx i }
  | own {s : Viewer σ κ α β} {label : ω} {shown : β} : parts.own s.shown label shown →
      Step parts s (.own label) { s with shown := shown }

/-- The newest request is answered, after the others are over. -/
def NewestLast (s : Viewer σ κ α β) : Turn ι κ α ω → Prop
  | .arrive i => i + 1 = s.pending.length → i = 0
  | .lose i => i + 1 < s.pending.length
  | .serve _ | .begin _ | .read .. | .own _ => True

def Turn.served : Turn ι κ α ω → Option ι
  | .serve label => some label
  | _ => none

/-- The steps of the server among the turns. -/
def served (ls : List (Turn ι κ α ω)) : List ι :=
  ls.filterMap Turn.served

def Turn.begun : Turn ι κ α ω → Bool
  | .begin _ => true
  | _ => false

/-- Whether the request that is in flight at `n` is answered in these turns. The requests begun
after one that is over move up. -/
def arrives : Nat → List (Turn ι κ α ω) → Bool
  | _, [] => false
  | n, .arrive i :: ls => i = n || arrives (if i < n then n - 1 else n) ls
  | n, .lose i :: ls => i ≠ n && arrives (if i < n then n - 1 else n) ls
  | n, .serve _ :: ls | n, .begin _ :: ls | n, .read .. :: ls | n, .own _ :: ls => arrives n ls

/-- The viewer has come to show something by turns of its own. -/
def Own (own : β → ω → β → Prop) (b c : β) : Prop :=
  ∃ ws, Run own b ws c

/-- What the server held at a moment of these steps is shown. -/
def Shows (parts : Parts σ ι κ α β ω) (kind : κ) (v : σ) (ls : List ι) (t : Viewer σ κ α β) :
    Prop :=
  ∃ before after w value b, ls = before ++ after ∧ Run parts.serve v before w ∧
    Run parts.serve w after t.server ∧ parts.reads w value ∧
    Own parts.own (parts.take kind value b) t.shown

variable {parts : Parts σ ι κ α β ω} {s t : Viewer σ κ α β} {l : Turn ι κ α ω}
  {ls : List (Turn ι κ α ω)} {p : List (Fetch κ α)} {x : Fetch κ α}

theorem served_cons (l : Turn ι κ α ω) (ls : List (Turn ι κ α ω)) :
    served (l :: ls) = l.served.toList ++ served ls := by
  unfold served
  rw [List.filterMap_cons]
  cases l.served <;> rfl

theorem served_append (ls ms : List (Turn ι κ α ω)) : served (ls ++ ms) = served ls ++ served ms :=
  List.filterMap_append

theorem Step.server (h : Step parts s l t) : Run parts.serve s.server l.served.toList t.server := by
  cases h with
  | serve hs => exact Run.single hs
  | _ => exact .nil _

theorem run_server (h : Run (Step parts) s ls t) :
    Run parts.serve s.server (served ls) t.server := by
  induction h with
  | nil s => exact .nil _
  | cons hs _ ih =>
    rw [served_cons]
    exact hs.server.append ih

/-- What a turn does about the newest request in flight. -/
theorem Step.newest (h : Where NewestLast (Step parts) s l t) (hp : s.pending = p ++ [x])
    (hold : l.begun = false) :
    (∃ q, t.pending = q ++ [x]) ∨
      (∃ kind value, x = .sent kind ∧ t.pending = p ++ [.answered kind value] ∧
        l.served = none ∧ parts.reads s.server value ∧ t.server = s.server) ∨
      (∃ kind value, x = .answered kind value ∧ t.pending = [] ∧ l.served = none ∧
        t.server = s.server ∧ t.shown = parts.take kind value s.shown) := by
  obtain ⟨hguard, hstep⟩ := h
  have hlen : s.pending.length = p.length + 1 := by rw [hp, List.length_append]; rfl
  have hlast : s.pending[p.length]? = some x := by
    rw [hp]
    exact List.getElem?_concat_length
  have hbound : ∀ {i : Nat} {y : Fetch κ α}, s.pending[i]? = some y → i < p.length + 1 := by
    intro i y hi
    rw [← hlen]
    exact (List.getElem?_eq_some_iff.mp hi).1
  have hearlier : ∀ {i : Nat}, i < p.length → s.pending.eraseIdx i = p.eraseIdx i ++ [x] := by
    intro i hi
    rw [hp]
    exact List.eraseIdx_append_of_lt_length hi _
  cases hstep with
  | serve _ => exact Or.inl ⟨p, hp⟩
  | begin _ => cases hold
  | @read i kind value hi hread =>
    rcases Nat.lt_succ_iff_lt_or_eq.mp (hbound hi) with hlt | heq
    · refine Or.inl ⟨p.set i (.answered kind value), ?_⟩
      show s.pending.set i _ = _
      rw [hp, List.set_append_left _ _ hlt]
    · subst heq
      obtain rfl := Option.some.inj (hlast.symm.trans hi)
      refine Or.inr (Or.inl ⟨kind, value, rfl, ?_, rfl, hread, rfl⟩)
      show s.pending.set p.length _ = _
      rw [hp, List.set_append_right _ _ (Nat.le_refl _), Nat.sub_self]
      rfl
  | @arrive i kind value hi =>
    rcases Nat.lt_succ_iff_lt_or_eq.mp (hbound hi) with hlt | heq
    · exact Or.inl ⟨_, hearlier hlt⟩
    · subst heq
      obtain rfl := Option.some.inj (hlast.symm.trans hi)
      have hzero : p.length = 0 := hguard hlen.symm
      refine Or.inr (Or.inr ⟨kind, value, rfl, ?_, rfl, rfl, rfl⟩)
      show s.pending.eraseIdx p.length = []
      rw [hp, List.length_eq_zero_iff.mp hzero]
      rfl
  | @lose i hi =>
    have hlt : i + 1 < s.pending.length := hguard
    exact Or.inl ⟨_, hearlier (by omega)⟩
  | own _ => exact Or.inl ⟨p, hp⟩

theorem Own.refl (b : β) (own : β → ω → β → Prop) : Own own b b :=
  ⟨[], .nil b⟩

/-- Without requests in flight the viewer changes only on its own. -/
theorem idle_own (h : Run (Step parts) s ls t) (hp : s.pending = [])
    (hold : ∀ l ∈ ls, l.begun = false) : t.pending = [] ∧ Own parts.own s.shown t.shown := by
  induction h with
  | nil s => exact ⟨hp, .refl _ _⟩
  | @cons s u t l ls hs _ ih =>
    have hrest : ∀ l ∈ ls, l.begun = false := fun l hl => hold l (List.mem_cons_of_mem _ hl)
    have hfirst := hold l List.mem_cons_self
    cases hs with
    | serve _ => exact ih hp hrest
    | begin _ => cases hfirst
    | read hi _ =>
      rw [hp] at hi
      cases hi
    | arrive hi =>
      rw [hp] at hi
      cases hi
    | lose hi =>
      rw [hp] at hi
      cases hi
    | own hown =>
      obtain ⟨hend, ws, hws⟩ := ih hp hrest
      exact ⟨hend, _, .cons hown hws⟩

/-- The answer to the newest request is shown in the end. -/
theorem answered_shown {kind : κ} {value : α} (h : Run (Where NewestLast (Step parts)) s ls t)
    (hp : s.pending = p ++ [.answered kind value]) (hold : ∀ l ∈ ls, l.begun = false)
    (hquiet : t.pending = []) : ∃ b, Own parts.own (parts.take kind value b) t.shown := by
  induction h generalizing p with
  | nil s =>
    rw [hquiet] at hp
    exact absurd hp.symm (by simp)
  | @cons s u t l ls hs hrun ih =>
    have hrest : ∀ l ∈ ls, l.begun = false := fun l hl => hold l (List.mem_cons_of_mem _ hl)
    rcases Step.newest hs hp (hold l List.mem_cons_self) with
      ⟨q, hq⟩ | ⟨kind', value', hx, -⟩ | ⟨kind', value', hx, hq, -, -, hshown⟩
    · exact ih hq hrest hquiet
    · cases hx
    · cases hx
      exact ⟨s.shown, hshown ▸ (idle_own hrun.of_where hq hrest).2⟩

/-- After the last request has begun, and once nothing is in flight, the viewer shows what the
server held at a moment since. -/
theorem caught_up {kind : κ} (h : Run (Where NewestLast (Step parts)) s ls t)
    (hp : s.pending = p ++ [.sent kind]) (hold : ∀ l ∈ ls, l.begun = false)
    (hquiet : t.pending = []) : Shows parts kind s.server (served ls) t := by
  induction h generalizing p with
  | nil s =>
    rw [hquiet] at hp
    exact absurd hp.symm (by simp)
  | @cons s u t l ls hs hrun ih =>
    have hrest : ∀ l ∈ ls, l.begun = false := fun l hl => hold l (List.mem_cons_of_mem _ hl)
    rw [served_cons]
    rcases Step.newest hs hp (hold l List.mem_cons_self) with
      ⟨q, hq⟩ | ⟨kind', value, hx, hq, hnone, hread, hserver⟩ | ⟨kind', value, hx, -⟩
    · obtain ⟨before, after, w, value, b, hsplit, hbefore, hafter, hread, hshown⟩ :=
        ih hq hrest hquiet
      refine ⟨l.served.toList ++ before, after, w, value, b, ?_, hs.2.server.append hbefore, hafter,
        hread, hshown⟩
      rw [hsplit, List.append_assoc]
    · cases hx
      obtain ⟨b, hshown⟩ := answered_shown hrun hq hrest hquiet
      have hlater : Run parts.serve s.server (served ls) t.server :=
        hserver ▸ run_server hrun.of_where
      rw [hnone]
      exact ⟨[], served ls, s.server, value, b, rfl, .nil _, hlater, hread, hshown⟩
    · cases hx

/-- The viewer shows something that is as it should be, and so will it with the answers that are on
their way. -/
structure Sound (parts : Parts σ ι κ α β ω) (Q : σ → Prop) (R : β → Prop)
    (s : Viewer σ κ α β) : Prop where
  server : Q s.server
  pending : ∀ kind value, .answered kind value ∈ s.pending → ∀ b, R b → R (parts.take kind value b)
  shown : R s.shown

section

variable {Q : σ → Prop} {R : β → Prop}

theorem Step.sound (h : Step parts s l t)
    (hserve : ∀ label ∈ l.served, ∀ v w, Q v → parts.serve v label w → Q w)
    (htake : ∀ v kind value b, Q v → parts.reads v value → R b → R (parts.take kind value b))
    (hown : ∀ b label c, R b → parts.own b label c → R c) (hs : Sound parts Q R s) :
    Sound parts Q R t := by
  obtain ⟨hserver, hpending, hshown⟩ := hs
  cases h with
  | serve hstep => exact ⟨hserve _ rfl _ _ hserver hstep, hpending, hshown⟩
  | begin _ =>
    refine ⟨hserver, ?_, hshown⟩
    intro kind value hmem
    rcases List.mem_append.mp hmem with hmem | hmem
    · exact hpending kind value hmem
    · cases List.mem_singleton.mp hmem
  | read _ hread =>
    refine ⟨hserver, ?_, hshown⟩
    intro kind value hmem
    rcases List.mem_or_eq_of_mem_set hmem with hmem | heq
    · exact hpending kind value hmem
    · cases heq
      exact fun b hb => htake _ _ _ b hserver hread hb
  | arrive hi =>
    refine ⟨hserver, ?_, hpending _ _ (List.mem_of_getElem? hi) _ hshown⟩
    intro kind value hmem
    exact hpending kind value (List.mem_of_mem_eraseIdx hmem)
  | lose _ =>
    refine ⟨hserver, ?_, hshown⟩
    intro kind value hmem
    exact hpending kind value (List.mem_of_mem_eraseIdx hmem)
  | own hstep => exact ⟨hserver, hpending, hown _ _ _ hshown hstep⟩

theorem run_sound (h : Run (Step parts) s ls t)
    (hserve : ∀ label ∈ served ls, ∀ v w, Q v → parts.serve v label w → Q w)
    (htake : ∀ v kind value b, Q v → parts.reads v value → R b → R (parts.take kind value b))
    (hown : ∀ b label c, R b → parts.own b label c → R c) (hs : Sound parts Q R s) :
    Sound parts Q R t := by
  induction h with
  | nil s => exact hs
  | @cons s u t l ls hstep _ ih =>
    rw [served_cons] at hserve
    have hfirst : ∀ label ∈ l.served, ∀ v w, Q v → parts.serve v label w → Q w :=
      fun label hl => hserve label (List.mem_append_left _ (Option.mem_toList.mpr hl))
    refine ih (fun label hl => hserve label (List.mem_append_right _ hl)) ?_
    exact hstep.sound hfirst htake hown hs

/-- The answer, if there is one, leads to `R`. -/
def Fetch.Leads (parts : Parts σ ι κ α β ω) (R : β → Prop) : Fetch κ α → Prop
  | .sent _ => True
  | .answered kind value => ∀ b, R (parts.take kind value b)

theorem getElem?_eraseIdx_of_ne {xs : List (Fetch κ α)} {i n : Nat} (hne : i ≠ n) :
    (xs.eraseIdx i)[if i < n then n - 1 else n]? = xs[n]? := by
  split
  next hlt =>
    rw [List.getElem?_eraseIdx_of_ge (by omega)]
    congr 1
    omega
  next hge => exact List.getElem?_eraseIdx_of_lt (by omega)

theorem run_absorbed (h : Run (Step parts) s ls t)
    (htake : ∀ kind value b, R b → R (parts.take kind value b))
    (hown : ∀ b label c, R b → parts.own b label c → R c) (hs : R s.shown) : R t.shown := by
  refine h.invariant (I := fun s => R s.shown) ?_ hs
  intro u l v hu hstep
  cases hstep with
  | serve _ | begin _ | read _ _ | lose _ => exact hu
  | arrive _ => exact htake _ _ _ hu
  | own hlabel => exact hown _ _ _ hu hlabel

/-- If whatever the server answers leads to `R`, and nothing leads out of it, the viewer is there
for good once a request that the server had not read is answered. -/
theorem answered_absorbed {n : Nat} {x : Fetch κ α} (h : Run (Step parts) s ls t)
    (hserve : ∀ label ∈ served ls, ∀ v w, Q v → parts.serve v label w → Q w)
    (hlands : ∀ v kind value b, Q v → parts.reads v value → R (parts.take kind value b))
    (htake : ∀ kind value b, R b → R (parts.take kind value b))
    (hown : ∀ b label c, R b → parts.own b label c → R c) (hs : Q s.server)
    (hx : s.pending[n]? = some x) (hleads : x.Leads parts R) (harrives : arrives n ls = true) :
    R t.shown := by
  induction h generalizing n x with
  | nil s => cases harrives
  | @cons s u t l ls hstep hrun ih =>
    rw [served_cons] at hserve
    have hlater : ∀ label ∈ served ls, ∀ v w, Q v → parts.serve v label w → Q w :=
      fun label hl => hserve label (List.mem_append_right _ hl)
    cases hstep with
    | serve hlabel =>
      exact ih hlater (hserve _ List.mem_cons_self _ _ hs hlabel) hx hleads harrives
    | begin _ =>
      refine ih hlater hs ?_ hleads harrives
      exact (List.getElem?_append_left (List.getElem?_eq_some_iff.mp hx).1).trans hx
    | @read i kind value hi hread =>
      by_cases heq : i = n
      · subst heq
        have hanswered : (s.pending.set i (.answered kind value))[i]? =
            some (.answered kind value) :=
          List.getElem?_set_self (List.getElem?_eq_some_iff.mp hx).1
        exact ih hlater hs hanswered (fun b => hlands _ kind value b hs hread) harrives
      · exact ih hlater hs ((List.getElem?_set_ne heq).trans hx) hleads harrives
    | @arrive i kind value hi =>
      by_cases heq : i = n
      · subst heq
        obtain rfl := Option.some.inj (hx.symm.trans hi)
        exact run_absorbed hrun htake hown (hleads s.shown)
      · simp only [arrives, heq, decide_false, Bool.false_or] at harrives
        exact ih hlater hs ((getElem?_eraseIdx_of_ne heq).trans hx) hleads harrives
    | @lose i hi =>
      simp only [arrives, Bool.and_eq_true, decide_eq_true_eq] at harrives
      exact ih hlater hs ((getElem?_eraseIdx_of_ne harrives.1).trans hx) hleads harrives.2
    | own _ => exact ih hlater hs hx hleads harrives

end

end Refetch

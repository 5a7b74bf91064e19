import ArgusServices.IngestEffect

namespace ArgusServices

open Transition

/-- XADD raises only when nothing was appended. -/
def AtomicXadd {ι : Type} (s : Threads ι IngestStore IngestPhase) : IngestTurn ι → Prop
  | .raise i executed => ∀ frameUris, s.phase i = .uploaded frameUris → executed = false
  | .advance _ | .cancel _ | .setActiveMode _ _ => True

/-- A call that owns the idempotency key of its sequence: it works, cleans up or has queued. -/
def IngestPhase.owns : IngestPhase → Bool
  | .cleaning _ => true
  | p => p.working || p.answered .queued

variable {ι : Type} {calls : ι → IngestCall} {tenantId ingestionId : Uuid}

/-- Two different calls for a sequence do not both own its key. -/
def NotBothOwn (calls : ι → IngestCall) (tenantId ingestionId : Uuid) (i j : ι)
    (p q : IngestPhase) : Prop :=
  (calls i).isFor tenantId ingestionId → (calls j).isFor tenantId ingestionId →
    p.owns = true → q.owns = false

structure Exclusive (calls : ι → IngestCall) (tenantId ingestionId : Uuid)
    (s : Threads ι IngestStore IngestPhase) : Prop where
  key : ∀ i, (calls i).isFor tenantId ingestionId → (s.phase i).owns = true →
    s.shared.keys (idempotencyKey tenantId ingestionId) ≠ none
  owner : ∀ i j, i ≠ j → NotBothOwn calls tenantId ingestionId i j (s.phase i) (s.phase j)
  events : s.shared.events tenantId ingestionId = [] ∨
    (s.shared.events tenantId ingestionId).length = 1 ∧
      ∃ i, (calls i).isFor tenantId ingestionId ∧ (s.phase i).answered .queued = true

theorem answered_owns {p : IngestPhase} (h : p.answered .queued = true) : p.owns = true := by
  cases p <;> simp_all [IngestPhase.owns, IngestPhase.answered]

variable {s t : Threads ι IngestStore IngestPhase} {i : ι} {w : IngestStore} {p : IngestPhase}

/-- While a call owns the key and has not queued, nothing is on the stream. -/
theorem Exclusive.no_events (h : Exclusive calls tenantId ingestionId s)
    (hfor : (calls i).isFor tenantId ingestionId) (hown : (s.phase i).owns = true)
    (hq : (s.phase i).answered .queued = false) : s.shared.events tenantId ingestionId = [] := by
  rcases h.events with he | ⟨_, j, hj, hqueued⟩
  · exact he
  · have hij : j ≠ i := by
      intro heq
      subst heq
      simp [hq] at hqueued
    have := h.owner j i hij hj hfor (answered_owns hqueued)
    simp [hown] at this

variable [DecidableEq ι]

/-- The queued call is another one than the one that moves, so it is still there. -/
theorem Exclusive.events_move (h : Exclusive calls tenantId ingestionId s)
    (hq : (calls i).isFor tenantId ingestionId → (s.phase i).answered .queued = false)
    (hw : w.events tenantId ingestionId = s.shared.events tenantId ingestionId) :
    w.events tenantId ingestionId = [] ∨ (w.events tenantId ingestionId).length = 1 ∧
      ∃ j, (calls j).isFor tenantId ingestionId ∧
        ((s.move i (w, p)).phase j).answered .queued = true := by
  rw [hw]
  refine h.events.imp_right ?_
  intro hboth
  obtain ⟨hlen, j, hj, hqueued⟩ := hboth
  refine ⟨hlen, j, hj, ?_⟩
  have hne : j ≠ i := by
    intro heq
    subst heq
    simp [hq hj] at hqueued
  rw [Threads.move_phase_of_ne hne]
  exact hqueued

/-- A move to a phase that does not own the key, or from one that did, leaves one owner. -/
theorem Exclusive.owner_move (h : Exclusive calls tenantId ingestionId s)
    (hp : (calls i).isFor tenantId ingestionId → p.owns = true → (s.phase i).owns = true ∨
      s.shared.keys (idempotencyKey tenantId ingestionId) = none) :
    ∀ j k, j ≠ k → NotBothOwn calls tenantId ingestionId j k ((s.move i (w, p)).phase j)
      ((s.move i (w, p)).phase k) := by
  have hother : ∀ j, j ≠ i → (calls i).isFor tenantId ingestionId →
      (calls j).isFor tenantId ingestionId → p.owns = true → (s.phase j).owns = false := by
    intro j hj hfor hforj hown
    rcases hp hfor hown with hold | hnone
    · exact h.owner i j hj.symm hfor hforj hold
    · by_contra hc
      exact h.key j hforj (by simpa using hc) hnone
  refine Threads.forall₂_move (NotBothOwn calls tenantId ingestionId) h.owner ?_ ?_
  · intro k hk hfor hfork hown
    exact hother k hk hfor hfork hown
  · intro j hj hforj hfor hown
    by_contra hc
    have := hother j hj hfor hforj (by simpa using hc)
    simp [hown] at this

/-- What the other calls need of the key: it is there, or as it was. -/
theorem Exclusive.key_move (h : Exclusive calls tenantId ingestionId s)
    (hw : w.keys (idempotencyKey tenantId ingestionId) ≠ none ∨
      w.keys (idempotencyKey tenantId ingestionId) =
        s.shared.keys (idempotencyKey tenantId ingestionId))
    (hp : (calls i).isFor tenantId ingestionId → p.owns = true →
      w.keys (idempotencyKey tenantId ingestionId) ≠ none) :
    ∀ j, (calls j).isFor tenantId ingestionId → ((s.move i (w, p)).phase j).owns = true →
      w.keys (idempotencyKey tenantId ingestionId) ≠ none := by
  refine Threads.forall_move (P := fun j (q : IngestPhase) =>
    (calls j).isFor tenantId ingestionId → q.owns = true →
      w.keys (idempotencyKey tenantId ingestionId) ≠ none) ?_ hp
  intro j hj hown
  rcases hw with hw | hw
  · exact hw
  · rw [hw]
    exact h.key j hj hown

theorem Exclusive.move_idle (h : Exclusive calls tenantId ingestionId s) (hp : p.owns = false)
    (hw : w.keys (idempotencyKey tenantId ingestionId) ≠ none ∨
      w.keys (idempotencyKey tenantId ingestionId) =
        s.shared.keys (idempotencyKey tenantId ingestionId))
    (hq : (s.phase i).answered .queued = false)
    (he : w.events tenantId ingestionId = s.shared.events tenantId ingestionId) :
    Exclusive calls tenantId ingestionId (s.move i (w, p)) := by
  refine ⟨h.key_move hw ?_, h.owner_move ?_, h.events_move (fun _ => hq) he⟩
  · intro _ hown
    simp [hp] at hown
  · intro _ hown
    simp [hp] at hown

theorem Exclusive.move_owner (h : Exclusive calls tenantId ingestionId s)
    (hold : (s.phase i).owns = true ∨
      s.shared.keys (idempotencyKey tenantId ingestionId) = none)
    (hw : w.keys (idempotencyKey tenantId ingestionId) ≠ none)
    (hq : (s.phase i).answered .queued = false)
    (he : w.events tenantId ingestionId = s.shared.events tenantId ingestionId) :
    Exclusive calls tenantId ingestionId (s.move i (w, p)) :=
  ⟨h.key_move (Or.inl hw) (fun _ _ => hw), h.owner_move (fun _ _ => hold),
    h.events_move (fun _ => hq) he⟩

theorem Exclusive.move_queued {frameUris : List String}
    (h : Exclusive calls tenantId ingestionId s) (hfor : (calls i).isFor tenantId ingestionId)
    (hown : (s.phase i).owns = true) (hq : (s.phase i).answered .queued = false) :
    Exclusive calls tenantId ingestionId
      (s.move i ((calls i).enqueue s.shared frameUris, (calls i).respond .queued)) := by
  have hnone := h.no_events hfor hown hq
  have hkey := h.key i hfor hown
  refine ⟨h.key_move (Or.inl hkey) (fun _ _ => hkey), h.owner_move (fun _ _ => Or.inl hown),
    Or.inr ⟨?_, i, hfor, ?_⟩⟩
  · rw [Threads.move_shared, enqueue_events hfor, hnone]
    rfl
  · rw [Threads.move_phase_self]
    rfl

theorem Exclusive.move_released {e : Exn} (h : Exclusive calls tenantId ingestionId s)
    (hfor : (calls i).isFor tenantId ingestionId) (hown : (s.phase i).owns = true)
    (hq : (s.phase i).answered .queued = false) :
    Exclusive calls tenantId ingestionId
      (s.move i ((calls i).release s.shared, .raised e)) := by
  refine ⟨fun j hj hjown => ?_, h.owner_move ?_, Or.inl (h.no_events hfor hown hq)⟩
  · by_cases hji : j = i
    · subst hji
      rw [Threads.move_phase_self] at hjown
      cases hjown
    · rw [Threads.move_phase_of_ne hji] at hjown
      have := h.owner i j (Ne.symm hji) hfor hj hown
      simp [hjown] at this
  · intro _ hraised
    cases hraised

theorem working_owns {p : IngestPhase} (h : p.working = true) :
    p.owns = true ∧ p.answered .queued = false := by
  cases p <;> simp_all [IngestPhase.owns, IngestPhase.working, IngestPhase.answered]

theorem Exclusive.ingests (h : Exclusive calls tenantId ingestionId s)
    (hs : Ingests (calls i) False s.shared (s.phase i) w p) :
    Exclusive calls tenantId ingestionId (s.move i (w, p)) := by
  by_cases hfor : (calls i).isFor tenantId ingestionId
  · have hkey := hfor.key
    have hset : ((calls i).claim s.shared).keys (idempotencyKey tenantId ingestionId) ≠ none :=
      hkey ▸ claim_keys_self
    generalize hphase : s.phase i = q at hs
    have hown : q.owns = true → (s.phase i).owns = true := fun hq => hphase ▸ hq
    have hnot : q.answered .queued = false → (s.phase i).answered .queued = false :=
      fun hq => hphase ▸ hq
    cases hs with
    | claim hnone => exact h.move_owner (Or.inr (hkey ▸ hnone)) hset (hnot rfl) claim_events
    | claimLost => exact h.move_idle rfl (Or.inl hset) (hnot rfl) claim_events
    | duplicate _ => exact h.move_idle rfl (Or.inr rfl) (hnot rfl) rfl
    | check => exact h.move_owner (Or.inl (hown rfl)) (h.key i hfor (hown rfl)) (hnot rfl) rfl
    | upload => exact h.move_owner (Or.inl (hown rfl)) (h.key i hfor (hown rfl)) (hnot rfl) rfl
    | stop hworking =>
      obtain ⟨ho, hq⟩ := working_owns hworking
      exact h.move_owner (Or.inl (hown ho)) (h.key i hfor (hown ho)) (hnot hq) rfl
    | enqueue => exact h.move_queued hfor (hown rfl) (hnot rfl)
    | enqueueLost hlost => exact hlost.elim
    | cleanup => exact h.move_released hfor (hown rfl) (hnot rfl)
    | drop hended =>
      refine h.move_idle rfl (Or.inr rfl) (hnot ?_) rfl
      cases q <;> simp_all [IngestPhase.ended, IngestPhase.answered]
  · obtain ⟨hk, he⟩ := hs.frame hfor
    exact ⟨h.key_move (Or.inr hk) (fun hf => absurd hf hfor),
      h.owner_move (fun hf => absurd hf hfor), h.events_move (fun hf => absurd hf hfor) he⟩

theorem Exclusive.step {l : IngestTurn ι} (h : Exclusive calls tenantId ingestionId s)
    (hg : AtomicXadd s l) (hs : Ingesting calls s l t) :
    Exclusive calls tenantId ingestionId t := by
  cases hs with
  | advance hrun => exact h.ingests (advance_ingests _ _ hrun)
  | @raise i executed hrun =>
    refine h.ingests ((fail_ingests (calls i) executed s.shared hrun).mono ?_)
    intro hboth
    obtain ⟨hex, frameUris, hp⟩ := hboth
    have := hg frameUris hp
    simp [hex] at this
  | cancel hrun => exact h.ingests (.drop hrun)
  | @setActiveMode cameraId mode =>
    refine ⟨?_, h.owner, h.events⟩
    intro i hfor hown
    simp only [Function.update_apply, idempotencyKey_ne_activeModeKey, ↓reduceIte]
    exact h.key i hfor hown

/-- At most one event of a sequence is on the stream and at most one call is answered that it has
queued it, in every interleaving that starts without an event for it. -/
theorem at_most_once_enqueued {ls : List (IngestTurn ι)} (hbegun : ∀ i, s.phase i = .begun)
    (hevents : s.shared.events tenantId ingestionId = [])
    (h : Run (Where AtomicXadd (Ingesting calls)) s ls t) :
    (t.shared.events tenantId ingestionId).length ≤ 1 ∧
      ∀ i j, (calls i).isFor tenantId ingestionId → (calls j).isFor tenantId ingestionId →
        (t.phase i).answered .queued = true → (t.phase j).answered .queued = true → i = j := by
  have hstart : Exclusive calls tenantId ingestionId s := by
    refine ⟨?_, ?_, Or.inl hevents⟩
    · intro i _ hown
      simp [hbegun i, IngestPhase.owns, IngestPhase.working, IngestPhase.answered] at hown
    · intro i j _ _ _ hown
      simp [hbegun i, IngestPhase.owns, IngestPhase.working, IngestPhase.answered] at hown
  have hend := h.invariant_where (fun _ _ _ he hg hs => he.step hg hs) hstart
  constructor
  · rcases hend.events with he | ⟨hlen, _⟩
    · simp [he]
    · omega
  · intro i j hi hj hqi hqj
    by_contra hij
    have := hend.owner i j hij hi hj (answered_owns hqi)
    simp [answered_owns hqj] at this

/-- Two requests for one sequence: one queues it, the other is told of the duplicate. -/
theorem at_most_once_enqueued_sample :
    let ls : List (IngestTurn Bool) :=
      [.advance true, .advance false, .advance true, .advance true, .advance true]
    let t := ls.foldl (takeIngestTurn fun _ => sampleIngestCall) sampleIngestStart
    (t.shared.events ⟨1⟩ ⟨11⟩).length ≤ 1 ∧
      (t.phase true).answered .queued = true ∧ (t.phase false).answered .duplicate = true := by
  intro ls t
  have hrun : Run (Where AtomicXadd (Ingesting fun _ => sampleIngestCall)) sampleIngestStart ls t :=
    .cons ⟨trivial, .advance rfl⟩ (.cons ⟨trivial, .advance rfl⟩ (.cons ⟨trivial, .advance rfl⟩
      (.cons ⟨trivial, .advance rfl⟩ (.cons ⟨trivial, .advance rfl⟩ (.nil _)))))
  exact ⟨(at_most_once_enqueued (fun _ => rfl) rfl hrun).1, by decide +kernel, by decide +kernel⟩

end ArgusServices

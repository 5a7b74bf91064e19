import ArgusServices.IngestEffect

namespace ArgusServices

open Transition

variable {ι : Type}

/-- A call for the sequence has been answered that it is a duplicate. -/
def Told (calls : ι → IngestCall) (tenantId ingestionId : Uuid)
    (s : Threads ι IngestStore IngestPhase) : Prop :=
  ∃ i, (calls i).isFor tenantId ingestionId ∧ (s.phase i).answered .duplicate = true

/-- The sequence is on the stream, or a call other than those left out is at work on it. -/
def Supported (calls : ι → IngestCall) (tenantId ingestionId : Uuid)
    (s : Threads ι IngestStore IngestPhase) (others : ι → Prop) : Prop :=
  s.shared.events tenantId ingestionId ≠ [] ∨
    ∃ j, others j ∧ (calls j).isFor tenantId ingestionId ∧ (s.phase j).working = true

/-- If a call was told of a duplicate, the sequence is on the stream or on its way. -/
def Backed (calls : ι → IngestCall) (tenantId ingestionId : Uuid)
    (s : Threads ι IngestStore IngestPhase) : Prop :=
  Told calls tenantId ingestionId s → Supported calls tenantId ingestionId s fun _ => True

def IngestCall.answersDuplicate (call : IngestCall) (w : IngestStore) (p : IngestPhase) : Bool :=
  p = .begun && validateClaims call && (w.keys call.key).isSome

/-- A check that the call comes to does not pass. -/
def IngestCall.stops (call : IngestCall) (w : IngestStore) : IngestPhase → Bool
  | .claimed => !(validateActiveMode w call.request).isOk
  | .modeChecked => !(uploadFrames call).isOk
  | _ => false

/-- A duplicate is answered only while the sequence is on the stream or a call works on it, and
once it is answered the last working call does not fail before it has appended its event. -/
def Answerable (calls : ι → IngestCall) (tenantId ingestionId : Uuid)
    (s : Threads ι IngestStore IngestPhase) : IngestTurn ι → Prop
  | .advance i => (calls i).isFor tenantId ingestionId →
      ((calls i).answersDuplicate s.shared (s.phase i) = true →
        Supported calls tenantId ingestionId s fun _ => True) ∧
      ((calls i).stops s.shared (s.phase i) = true → Told calls tenantId ingestionId s →
        Supported calls tenantId ingestionId s (· ≠ i))
  | .raise i executed => (calls i).isFor tenantId ingestionId → (s.phase i).working = true →
      (∀ frameUris, s.phase i = .uploaded frameUris → executed = false) →
      Told calls tenantId ingestionId s → Supported calls tenantId ingestionId s (· ≠ i)
  | .cancel i => (calls i).isFor tenantId ingestionId → (s.phase i).working = true →
      Told calls tenantId ingestionId s → Supported calls tenantId ingestionId s (· ≠ i)
  | .setActiveMode _ _ => True

theorem answerable_of_passes {calls : ι → IngestCall} {tenantId ingestionId : Uuid}
    {s : Threads ι IngestStore IngestPhase} {i : ι}
    (hdup : (calls i).answersDuplicate s.shared (s.phase i) = false)
    (hstop : (calls i).stops s.shared (s.phase i) = false) :
    Answerable calls tenantId ingestionId s (.advance i) := by
  intro _
  simp [hdup, hstop]

/-- A duplicate answer means that the sequence was queued, once all calls have ended. -/
def DuplicateMeansQueued : Prop :=
  ∀ (ι : Type) (_ : DecidableEq ι) (calls : ι → IngestCall) (tenantId ingestionId : Uuid)
    (s t : Threads ι IngestStore IngestPhase) (ls : List (IngestTurn ι)),
    (∀ i, s.phase i = .begun) → s.shared.keys (idempotencyKey tenantId ingestionId) = none →
    Run (Ingesting calls) s ls t → (∀ i, (t.phase i).ended = true) →
    Told calls tenantId ingestionId t → t.shared.events tenantId ingestionId ≠ []

/-- The second request comes while the first is at work, then the first fails. -/
def lostTurns : List (IngestTurn Bool) :=
  [.advance true, .advance false, .raise true false, .advance true]

theorem not_duplicateMeansQueued : ¬DuplicateMeansQueued := by
  intro h
  have hevents := h Bool _ (fun _ => sampleIngestCall) ⟨1⟩ ⟨11⟩ sampleIngestStart _ lostTurns
    (fun _ => rfl) (by decide) (run_takeIngestTurns (by decide +kernel)) (by decide +kernel)
    ⟨false, by decide, by decide +kernel⟩
  exact hevents (by decide +kernel)

variable [DecidableEq ι] {calls : ι → IngestCall} {tenantId ingestionId : Uuid}
  {s t : Threads ι IngestStore IngestPhase} {i : ι} {w : IngestStore} {p : IngestPhase}

theorem told_move : Told calls tenantId ingestionId (s.move i (w, p)) ↔
    (∃ j, j ≠ i ∧ (calls j).isFor tenantId ingestionId ∧
      (s.phase j).answered .duplicate = true) ∨
    (calls i).isFor tenantId ingestionId ∧ p.answered .duplicate = true := by
  constructor
  · intro hex
    obtain ⟨j, hfor, htold⟩ := hex
    by_cases hj : j = i
    · subst hj
      rw [Threads.move_phase_self] at htold
      exact Or.inr ⟨hfor, htold⟩
    · rw [Threads.move_phase_of_ne hj] at htold
      exact Or.inl ⟨j, hj, hfor, htold⟩
  · intro hcase
    rcases hcase with ⟨j, hj, hfor, htold⟩ | ⟨hfor, htold⟩
    · exact ⟨j, hfor, by rw [Threads.move_phase_of_ne hj]; exact htold⟩
    · exact ⟨i, hfor, by rw [Threads.move_phase_self]; exact htold⟩

theorem supported_move : Supported calls tenantId ingestionId (s.move i (w, p)) (fun _ => True) ↔
    w.events tenantId ingestionId ≠ [] ∨
      (∃ j, j ≠ i ∧ (calls j).isFor tenantId ingestionId ∧ (s.phase j).working = true) ∨
      (calls i).isFor tenantId ingestionId ∧ p.working = true := by
  refine or_congr Iff.rfl ?_
  constructor
  · intro hex
    obtain ⟨j, _, hfor, hwork⟩ := hex
    by_cases hj : j = i
    · subst hj
      rw [Threads.move_phase_self] at hwork
      exact Or.inr ⟨hfor, hwork⟩
    · rw [Threads.move_phase_of_ne hj] at hwork
      exact Or.inl ⟨j, hj, hfor, hwork⟩
  · intro hcase
    rcases hcase with ⟨j, hj, hfor, hwork⟩ | ⟨hfor, hwork⟩
    · exact ⟨j, trivial, hfor, by rw [Threads.move_phase_of_ne hj]; exact hwork⟩
    · exact ⟨i, trivial, hfor, by rw [Threads.move_phase_self]; exact hwork⟩

/-- For a call that moves, what holds of the state is what held before, as its own phase says. -/
theorem told_self : Told calls tenantId ingestionId s ↔
    (∃ j, j ≠ i ∧ (calls j).isFor tenantId ingestionId ∧
      (s.phase j).answered .duplicate = true) ∨
    (calls i).isFor tenantId ingestionId ∧ (s.phase i).answered .duplicate = true := by
  conv_lhs => rw [← Threads.move_stay (s := s) (i := i)]
  exact told_move

theorem supported_self : Supported calls tenantId ingestionId s (fun _ => True) ↔
    s.shared.events tenantId ingestionId ≠ [] ∨
      (∃ j, j ≠ i ∧ (calls j).isFor tenantId ingestionId ∧ (s.phase j).working = true) ∨
      (calls i).isFor tenantId ingestionId ∧ (s.phase i).working = true := by
  conv_lhs => rw [← Threads.move_stay (s := s) (i := i)]
  exact supported_move

theorem backed_of_support (h : w.events tenantId ingestionId ≠ [] ∨
    (calls i).isFor tenantId ingestionId ∧ p.working = true) :
    Backed calls tenantId ingestionId (s.move i (w, p)) := by
  intro _
  rw [supported_move]
  exact h.imp_right Or.inr

theorem backed_of_idle (h : Backed calls tenantId ingestionId s)
    (he : w.events tenantId ingestionId = s.shared.events tenantId ingestionId)
    (hi : (calls i).isFor tenantId ingestionId →
      (s.phase i).working = false ∧ p.answered .duplicate = false) :
    Backed calls tenantId ingestionId (s.move i (w, p)) := by
  intro htold
  have hbefore : Told calls tenantId ingestionId s := by
    rw [told_self (i := i)]
    rcases told_move.mp htold with hother | ⟨hfor, hdup⟩
    · exact Or.inl hother
    · simp [(hi hfor).2] at hdup
  rw [supported_move, he]
  rcases (supported_self (i := i)).mp (h hbefore) with hev | hother | ⟨hfor, hwork⟩
  · exact Or.inl hev
  · exact Or.inr (Or.inl hother)
  · simp [(hi hfor).1] at hwork

theorem backed_of_stop (hfor : (calls i).isFor tenantId ingestionId)
    (he : w.events tenantId ingestionId = s.shared.events tenantId ingestionId)
    (hwork : (s.phase i).working = true) (hp : p.working = false)
    (hdup : p.answered .duplicate = false) :
    Backed calls tenantId ingestionId (s.move i (w, p)) ↔
      (Told calls tenantId ingestionId s →
        Supported calls tenantId ingestionId s (· ≠ i)) := by
  have hnot : (s.phase i).answered .duplicate = false := by
    cases hphase : s.phase i <;> simp_all [IngestPhase.answered, IngestPhase.working]
  unfold Backed
  rw [told_move, told_self (i := i), supported_move, he]
  simp [hdup, hp, hnot, hfor, Supported]

theorem backed_of_cleaning {cause : Exn} (hfor : (calls i).isFor tenantId ingestionId)
    (hwork : (s.phase i).working = true) :
    Backed calls tenantId ingestionId (s.move i (s.shared, .cleaning cause)) ↔
      (Told calls tenantId ingestionId s →
        Supported calls tenantId ingestionId s (· ≠ i)) :=
  backed_of_stop hfor rfl hwork rfl rfl

theorem backed_of_duplicate (hfor : (calls i).isFor tenantId ingestionId)
    (he : w.events tenantId ingestionId = s.shared.events tenantId ingestionId)
    (hwork : (s.phase i).working = false) (hp : p.working = false)
    (hdup : p.answered .duplicate = true) :
    Backed calls tenantId ingestionId (s.move i (w, p)) ↔
      Supported calls tenantId ingestionId s fun _ => True := by
  unfold Backed
  rw [told_move, supported_move, supported_self (i := i), he]
  simp [hdup, hp, hwork, hfor]

theorem backed_of_other {lost : Prop} (h : Backed calls tenantId ingestionId s)
    (hfor : ¬(calls i).isFor tenantId ingestionId)
    (hs : Ingests (calls i) lost s.shared (s.phase i) w p) :
    Backed calls tenantId ingestionId (s.move i (w, p)) :=
  backed_of_idle h (hs.frame hfor).2 (fun hf => absurd hf hfor)

theorem backed_advance_iff (h : Backed calls tenantId ingestionId s)
    (hrun : (s.phase i).ended = false) :
    Backed calls tenantId ingestionId
        (s.move i ((calls i).advance s.shared (s.phase i))) ↔
      Answerable calls tenantId ingestionId s (.advance i) := by
  by_cases hfor : (calls i).isFor tenantId ingestionId
  swap
  · exact iff_of_true (backed_of_other h hfor (advance_ingests _ _ hrun))
      (fun hf => absurd hf hfor)
  simp only [Answerable, hfor, forall_const]
  generalize hphase : s.phase i = q at hrun
  cases q with
  | begun =>
    simp only [IngestCall.advance, IngestCall.answersDuplicate, IngestCall.stops]
    split
    next hclaims =>
      split
      next hnone =>
        refine iff_of_true (backed_of_support (Or.inr ⟨hfor, rfl⟩)) ?_
        simp [hnone]
      next entry hentry =>
        have hdup := backed_of_duplicate (p := (calls i).respond .duplicate) hfor
          (rfl : s.shared.events tenantId ingestionId = _) (by rw [hphase]; rfl) rfl rfl
        simp [hdup, hclaims, hentry]
    next hclaims =>
      refine iff_of_true (backed_of_idle h rfl fun _ => ⟨?_, rfl⟩) ?_
      · rw [hphase]
        rfl
      · simp [hclaims]
  | claimed =>
    simp only [IngestCall.advance, IngestCall.answersDuplicate, IngestCall.stops]
    cases hmode : validateActiveMode s.shared (calls i).request with
    | ok _ =>
      refine iff_of_true (backed_of_support (Or.inr ⟨hfor, rfl⟩)) ?_
      simp [Except.isOk, Except.toBool]
    | error e =>
      rw [backed_of_cleaning hfor (hphase ▸ rfl)]
      simp [Except.isOk, Except.toBool]
  | modeChecked =>
    simp only [IngestCall.advance, IngestCall.answersDuplicate, IngestCall.stops]
    cases hmode : uploadFrames (calls i) with
    | ok _ =>
      refine iff_of_true (backed_of_support (Or.inr ⟨hfor, rfl⟩)) ?_
      simp [Except.isOk, Except.toBool]
    | error e =>
      rw [backed_of_cleaning hfor (hphase ▸ rfl)]
      simp [Except.isOk, Except.toBool]
  | uploaded frameUris =>
    refine iff_of_true (backed_of_support (Or.inl ?_)) ?_
    · simp [enqueue_events hfor]
    · simp [IngestCall.answersDuplicate, IngestCall.stops]
  | cleaning cause =>
    refine iff_of_true (backed_of_idle h rfl fun _ => ⟨?_, rfl⟩) ?_
    · rw [hphase]
      rfl
    · simp [IngestCall.answersDuplicate, IngestCall.stops]
  | returned response => cases hrun
  | raised cause => cases hrun

theorem backed_fail_iff {executed : Bool} (h : Backed calls tenantId ingestionId s)
    (hrun : (s.phase i).ended = false) :
    Backed calls tenantId ingestionId
        (s.move i ((calls i).fail executed s.shared (s.phase i))) ↔
      Answerable calls tenantId ingestionId s (.raise i executed) := by
  by_cases hfor : (calls i).isFor tenantId ingestionId
  swap
  · exact iff_of_true (backed_of_other h hfor (fail_ingests _ _ _ hrun))
      (fun hf => absurd hf hfor)
  simp only [Answerable, hfor, forall_const]
  generalize hphase : s.phase i = q at hrun
  have idle : q.working = false → ∀ w, w.events tenantId ingestionId =
      s.shared.events tenantId ingestionId →
      (Backed calls tenantId ingestionId (s.move i (w, .raised .outage)) ↔
        (q.working = true → (∀ frameUris, q = .uploaded frameUris → executed = false) →
          Told calls tenantId ingestionId s →
            Supported calls tenantId ingestionId s (· ≠ i))) := by
    intro hq w he
    refine iff_of_true (backed_of_idle h he fun _ => ⟨hphase ▸ hq, rfl⟩) ?_
    simp [hq]
  cases q with
  | begun =>
    refine idle rfl _ ?_
    split
    · exact claim_events
    · rfl
  | claimed =>
    refine (backed_of_cleaning hfor (hphase ▸ rfl)).trans ?_
    simp [IngestPhase.working]
  | modeChecked =>
    refine (backed_of_cleaning hfor (hphase ▸ rfl)).trans ?_
    simp [IngestPhase.working]
  | uploaded frameUris =>
    cases executed with
    | true =>
      refine iff_of_true (backed_of_support (Or.inl ?_)) ?_
      · simp [enqueue_events hfor]
      · intro _ hnot
        cases hnot frameUris rfl
    | false =>
      refine (backed_of_cleaning hfor (hphase ▸ rfl)).trans ?_
      simp [IngestPhase.working]
  | cleaning cause =>
    refine idle rfl _ ?_
    split <;> rfl
  | returned response => cases hrun
  | raised cause => cases hrun

theorem backed_cancel_iff (h : Backed calls tenantId ingestionId s) :
    Backed calls tenantId ingestionId (s.move i (s.shared, .raised .outage)) ↔
      Answerable calls tenantId ingestionId s (.cancel i) := by
  by_cases hfor : (calls i).isFor tenantId ingestionId
  swap
  · exact iff_of_true (backed_of_idle h rfl fun hf => absurd hf hfor) (fun hf => absurd hf hfor)
  simp only [Answerable, hfor, forall_const]
  cases hwork : (s.phase i).working with
  | true =>
    refine (backed_of_stop hfor rfl hwork rfl rfl).trans ?_
    simp
  | false =>
    refine iff_of_true (backed_of_idle h rfl fun _ => ⟨hwork, rfl⟩) ?_
    simp

/-- One step keeps the answers backed exactly if it is answerable. -/
theorem backed_iff_answerable {l : IngestTurn ι} (h : Backed calls tenantId ingestionId s)
    (hs : Ingesting calls s l t) :
    Backed calls tenantId ingestionId t ↔ Answerable calls tenantId ingestionId s l := by
  cases hs with
  | advance hrun => exact backed_advance_iff h hrun
  | raise hrun => exact backed_fail_iff h hrun
  | cancel _ => exact backed_cancel_iff h
  | setActiveMode => exact iff_of_true h trivial

/-- In the runs whose steps are answerable a duplicate answer means that the sequence was queued;
a step that is not leaves a duplicate answered with nothing queued and no call at work on it. -/
theorem duplicate_means_queued (calls : ι → IngestCall) (tenantId ingestionId : Uuid) :
    (∀ (s t : Threads ι IngestStore IngestPhase) (ls : List (IngestTurn ι)),
      (∀ i, s.phase i = .begun) →
      Run (Where (Answerable calls tenantId ingestionId) (Ingesting calls)) s ls t →
      (∀ i, (t.phase i).ended = true) → Told calls tenantId ingestionId t →
      t.shared.events tenantId ingestionId ≠ []) ∧
    (∀ (s t : Threads ι IngestStore IngestPhase) (l : IngestTurn ι),
      Backed calls tenantId ingestionId s → Ingesting calls s l t →
      ¬Answerable calls tenantId ingestionId s l →
      Told calls tenantId ingestionId t ∧ t.shared.events tenantId ingestionId = [] ∧
        ∀ i, (calls i).isFor tenantId ingestionId → (t.phase i).working = false) := by
  constructor
  · intro s t ls hbegun hrun hended htold
    have hstart : Backed calls tenantId ingestionId s := by
      intro hex
      obtain ⟨i, _, hi⟩ := hex
      rw [hbegun i] at hi
      cases hi
    have hbacked : Backed calls tenantId ingestionId t := by
      refine hrun.invariant_where ?_ hstart
      intro u l v hb hg hs
      exact (backed_iff_answerable hb hs).mpr hg
    rcases hbacked htold with he | ⟨i, _, _, hwork⟩
    · exact he
    · have hi := hended i
      cases hp : t.phase i <;> simp_all [IngestPhase.working, IngestPhase.ended]
  · intro s t l hb hs hg
    have hnot : ¬Backed calls tenantId ingestionId t := by
      intro hb'
      exact hg ((backed_iff_answerable hb hs).mp hb')
    simp only [Backed, Supported, Classical.not_imp, not_or, not_not, not_exists, not_and,
      Bool.not_eq_true] at hnot
    obtain ⟨htold, he, hwork⟩ := hnot
    exact ⟨htold, he, fun i hfor => hwork i trivial hfor⟩

/-- The second request comes while the first is at work, and the first queues the sequence. -/
def queuedTurns : List (IngestTurn Bool) :=
  [.advance true, .advance false, .advance true, .advance true, .advance true]

/-- With the first request at work the second is told of a duplicate; failing then loses it. -/
def toldState : Threads Bool IngestStore IngestPhase :=
  [IngestTurn.advance true, .advance false].foldl (takeIngestTurn fun _ => sampleIngestCall)
    sampleIngestStart

theorem duplicate_means_queued_sample :
    (queuedTurns.foldl (takeIngestTurn fun _ => sampleIngestCall)
        sampleIngestStart).shared.events ⟨1⟩ ⟨11⟩ ≠ [] ∧
      Told (fun _ => sampleIngestCall) ⟨1⟩ ⟨11⟩
        (takeIngestTurn (fun _ => sampleIngestCall) toldState (.raise true false)) := by
  have hfor : sampleIngestCall.isFor ⟨1⟩ ⟨11⟩ := by decide
  have hwork : (toldState.phase true).working = true := by decide +kernel
  constructor
  · refine (duplicate_means_queued (fun _ => sampleIngestCall) _ _).1 sampleIngestStart _
      queuedTurns (fun _ => rfl) ?_ (by decide +kernel) ⟨false, hfor, by decide +kernel⟩
    refine .cons ⟨answerable_of_passes (by decide +kernel) (by decide +kernel), .advance rfl⟩
      (.cons ⟨fun _ => ⟨fun _ => Or.inr ⟨true, trivial, hfor, by decide +kernel⟩, fun h => ?_⟩,
        .advance rfl⟩ (.cons ⟨answerable_of_passes (by decide +kernel) (by decide +kernel),
        .advance rfl⟩ (.cons ⟨answerable_of_passes (by decide +kernel) (by decide +kernel),
        .advance rfl⟩ (.cons ⟨answerable_of_passes (by decide +kernel) (by decide +kernel),
        .advance rfl⟩ (.nil _)))))
    exact absurd h (by decide +kernel)
  · refine ((duplicate_means_queued _ _ _).2 toldState _ (.raise true false) ?_ (.raise ?_) ?_).1
    · exact fun _ => Or.inr ⟨true, trivial, hfor, hwork⟩
    · decide +kernel
    · intro hg
      have hsupport := hg hfor hwork (fun frameUris hp => rfl) ⟨false, hfor, by decide +kernel⟩
      rcases hsupport with he | ⟨j, hj, _, hwork'⟩
      · exact he (by decide +kernel)
      · cases j with
        | true => exact hj rfl
        | false => exact absurd hwork' (by decide +kernel)

end ArgusServices

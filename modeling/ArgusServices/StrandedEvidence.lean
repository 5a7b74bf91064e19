import ArgusServices.AnalyzeEffect

namespace ArgusServices

open Effect

/-- An acknowledged message has its evidence on the way to a decision, or is in the dead letter
stream and has none. -/
def NotStranded (messageId : String) (fields : StreamFields) (w : AnalyzerWorld) : Prop :=
  messageId ∈ w.acked →
    (∃ e ∈ w.evidences, fields.names e ∧ e.id.str ∈ w.aggregateEvidence) ∨
      ((∃ error, fields.set "error" error ∈ w.dlq) ∧ ∀ e ∈ w.evidences, ¬fields.names e)

/-- Before its task a message is unacknowledged, and the identifiers drawn for its evidence are
fresh. -/
structure Awaiting (attempts : Nat → AnalyzeAttempt) (messageId : String) (w : AnalyzerWorld) :
    Prop where
  unacked : messageId ∉ w.acked
  fresh : ∀ r, ∀ e ∈ w.evidences, e.id ≠ (attempts r).evidenceId
  unqueued : ∀ r, (attempts r).evidenceId.str ∉ w.aggregateEvidence

/-- No message is stranded, whatever its tries meet. -/
def NoneStranded : Prop :=
  ∀ lib attempts messageId fields w, Awaiting attempts messageId w →
    NotStranded messageId fields (runAnalyzeTask lib attempts messageId fields w)

/-- A try on which everything goes well. -/
def sampleAttempt : AnalyzeAttempt where
  lenses := [⟨⟨1⟩, ⟨3⟩, 1⟩]
  rules := []
  lensRaises := false
  rulesRaise := false
  vlmResult := .ok (.obj [("is_suspicious", .bool true), ("severity_hint", .int 3)])
  evidenceId := ⟨11⟩
  flushRaises := false
  commit := .done
  xack := .done
  enqueue := .done
  moveToDlq := .done
  dlqXack := .done

def sampleFields : StreamFields :=
  [("ingestion_id", Uuid.str ⟨5⟩), ("tenant_id", Uuid.str ⟨1⟩), ("camera_id", Uuid.str ⟨2⟩),
    ("captured_at", "1970-01-01T00:00:00+00:00"), ("context_mode_id", Uuid.str ⟨3⟩),
    ("region_id", ""), ("edge_trigger_metadata", "{}"), ("frame_uris", "[]")]

/-- The broker is down while the first try enqueues the aggregation. -/
def brokerOutage : Nat → AnalyzeAttempt
  | 0 => { sampleAttempt with enqueue := .failed }
  | _ => sampleAttempt

theorem awaiting_brokerOutage : Awaiting brokerOutage "7-0" ⟨[], [], [], []⟩ where
  unacked := by simp
  fresh := by simp
  unqueued := by simp

theorem brokerOutage_strands : ¬NotStranded "7-0" sampleFields
    (runAnalyzeTask sampleLibrary brokerOutage "7-0" sampleFields ⟨[], [], [], []⟩) := by
  intro h
  have hacked : "7-0" ∈ (runAnalyzeTask sampleLibrary brokerOutage "7-0" sampleFields
      ⟨[], [], [], []⟩).acked := by decide +kernel
  have hrow : ∃ e ∈ (runAnalyzeTask sampleLibrary brokerOutage "7-0" sampleFields
      ⟨[], [], [], []⟩).evidences, sampleFields.names e := by decide +kernel
  have hqueue : (runAnalyzeTask sampleLibrary brokerOutage "7-0" sampleFields
      ⟨[], [], [], []⟩).aggregateEvidence = [] := by decide +kernel
  rcases h hacked with ⟨e, -, -, hqueued⟩ | ⟨-, hnone⟩
  · simp [hqueue] at hqueued
  · obtain ⟨e, hmem, hnames⟩ := hrow
    exact hnone e hmem hnames

theorem not_noneStranded : ¬NoneStranded := by
  intro h
  exact brokerOutage_strands (h sampleLibrary brokerOutage "7-0" sampleFields _
    awaiting_brokerOutage)

variable {lib : AnalyzerLibrary} {attempts : Nat → AnalyzeAttempt} {messageId : String}
  {fields : StreamFields} {w t : AnalyzerWorld} {evidence : Evidence} {k r : Nat}

/-- The first try that commits the row. -/
structure FirstCommit (lib : AnalyzerLibrary) (attempts : Nat → AnalyzeAttempt)
    (fields : StreamFields) (k : Nat) (evidence : Evidence) : Prop where
  within : k ≤ maxRetries
  commits : (attempts k).commits lib fields = some evidence
  first : ∀ j < k, (attempts j).commits lib fields = none

/-- The failures that strand a message: the first try that commits its row does not enqueue the
aggregation, and this try or the last one acknowledges the message all the same; or its row was
there before, with no aggregation enqueued, and the last try acknowledges it. -/
inductive Strands (lib : AnalyzerLibrary) (attempts : Nat → AnalyzeAttempt) (messageId : String)
    (fields : StreamFields) (w : AnalyzerWorld) : Prop
  | committed {k : Nat} {evidence : Evidence} : (∀ e ∈ w.evidences, ¬fields.names e) →
      FirstCommit lib attempts fields k evidence → (attempts k).enqueues lib messageId = false →
      (attempts k).acks lib messageId = true ∨ (attempts maxRetries).dlqAcks = true →
      Strands lib attempts messageId fields w
  | found : (∃ e ∈ w.evidences, fields.names e) →
      (∀ e ∈ w.evidences, fields.names e → e.id.str ∉ w.aggregateEvidence) →
      (attempts maxRetries).dlqAcks = true → Strands lib attempts messageId fields w

/-- Where the tries stand before try `r`. -/
inductive Tried (lib : AnalyzerLibrary) (attempts : Nat → AnalyzeAttempt) (messageId : String)
    (fields : StreamFields) (w : AnalyzerWorld) (r : Nat) : AnalyzerWorld → Prop
  | found : (∃ e ∈ w.evidences, fields.names e) → Tried lib attempts messageId fields w r w
  | nothing : (∀ e ∈ w.evidences, ¬fields.names e) →
      (∀ j < r, (attempts j).commits lib fields = none) →
      Tried lib attempts messageId fields w r w
  | committed {k : Nat} {evidence : Evidence} : (∀ e ∈ w.evidences, ¬fields.names e) → k < r →
      FirstCommit lib attempts fields k evidence →
      Tried lib attempts messageId fields w r
        (w.analyzed evidence messageId ((attempts k).acks lib messageId)
          ((attempts k).enqueues lib messageId))

theorem FirstCommit.unique {k' : Nat} {evidence' : Evidence}
    (h : FirstCommit lib attempts fields k evidence)
    (h' : FirstCommit lib attempts fields k' evidence') : k = k' ∧ evidence = evidence' := by
  obtain rfl : k = k' := by
    by_contra hne
    rcases Nat.lt_or_gt_of_ne hne with hlt | hlt
    · have := h'.first k hlt
      simp [h.commits] at this
    · have := h.first k' hlt
      simp [h'.commits] at this
  exact ⟨rfl, Option.some.inj (h.commits.symm.trans h'.commits)⟩

theorem FirstCommit.strands_iff (h : FirstCommit lib attempts fields k evidence)
    (hw : ∀ e ∈ w.evidences, ¬fields.names e) :
    Strands lib attempts messageId fields w ↔ (attempts k).enqueues lib messageId = false ∧
      ((attempts k).acks lib messageId = true ∨ (attempts maxRetries).dlqAcks = true) := by
  constructor
  · intro hs
    cases hs with
    | committed _ h' hlost hacked =>
      obtain ⟨rfl, rfl⟩ := h.unique h'
      exact ⟨hlost, hacked⟩
    | found hrow _ _ =>
      obtain ⟨e, hmem, hnames⟩ := hrow
      exact absurd hnames (hw e hmem)
  · intro hboth
    obtain ⟨hlost, hacked⟩ := hboth
    exact .committed hw h hlost hacked

theorem strands_iff_of_found (hw : ∃ e ∈ w.evidences, fields.names e) :
    Strands lib attempts messageId fields w ↔
      (∀ e ∈ w.evidences, fields.names e → e.id.str ∉ w.aggregateEvidence) ∧
        (attempts maxRetries).dlqAcks = true := by
  constructor
  · intro hs
    cases hs with
    | committed hnone _ _ _ =>
      obtain ⟨e, hmem, hnames⟩ := hw
      exact absurd hnames (hnone e hmem)
    | found _ hlost hacked => exact ⟨hlost, hacked⟩
  · intro hboth
    obtain ⟨hlost, hacked⟩ := hboth
    exact .found hw hlost hacked

theorem not_strands_of_none (hw : ∀ e ∈ w.evidences, ¬fields.names e)
    (h : ∀ j < maxRetries + 1, (attempts j).commits lib fields = none) :
    ¬Strands lib attempts messageId fields w := by
  intro hs
  cases hs with
  | @committed k evidence _ hk _ _ =>
    have := h k (Nat.lt_succ_of_le hk.within)
    simp [hk.commits] at this
  | found hrow _ _ =>
    obtain ⟨e, hmem, hnames⟩ := hrow
    exact hw e hmem hnames

/-- One try: it commits the row or fails and leaves the world to the next. -/
theorem Tried.step (hw : Awaiting attempts messageId w) (hr : r ≤ maxRetries)
    (h : Tried lib attempts messageId fields w r t) :
    Ends (analyzeMessage lib (attempts r) messageId fields) t
      (fun _ u => (∀ e ∈ w.evidences, ¬fields.names e) ∧
        ∃ evidence, FirstCommit lib attempts fields r evidence ∧
          (attempts r).enqueues lib messageId = true ∧
          u = w.analyzed evidence messageId ((attempts r).acks lib messageId) true)
      fun _ u => Tried lib attempts messageId fields w (r + 1) u := by
  cases h with
  | found hrow =>
    refine (ends_analyzeMessage_unchanged (Or.inr hrow)).mono (fun _ _ hf => hf.elim) ?_
    intro exc u hu
    subst hu
    exact .found hrow
  | nothing hempty hnone =>
    cases hcommits : (attempts r).commits lib fields with
    | none =>
      refine (ends_analyzeMessage_unchanged (Or.inl hcommits)).mono (fun _ _ hf => hf.elim) ?_
      intro exc u hu
      subst hu
      apply Tried.nothing hempty
      intro j hj
      rcases Nat.lt_succ_iff_lt_or_eq.mp hj with hlt | rfl
      · exact hnone j hlt
      · exact hcommits
    | some evidence =>
      have hfirst : FirstCommit lib attempts fields r evidence := ⟨hr, hcommits, hnone⟩
      refine (ends_analyzeMessage_committed hcommits hempty (hw.fresh r)).mono ?_ ?_
      · intro id u hpost
        obtain ⟨henqueued, rfl⟩ := hpost
        exact ⟨hempty, evidence, hfirst, henqueued, by rw [henqueued]⟩
      · intro exc u hu
        subst hu
        exact .committed hempty (Nat.lt_succ_self r) hfirst
  | @committed k evidence hempty hk hfirst =>
    have hnames := (commits_names hfirst.commits).1
    have hrow : ∃ e ∈ (w.analyzed evidence messageId ((attempts k).acks lib messageId)
        ((attempts k).enqueues lib messageId)).evidences, fields.names e :=
      ⟨evidence, by simp [AnalyzerWorld.analyzed], hnames⟩
    refine (ends_analyzeMessage_unchanged (Or.inr hrow)).mono (fun _ _ hf => hf.elim) ?_
    intro exc u hu
    subst hu
    exact .committed hempty (Nat.lt_succ_of_lt hk) hfirst

theorem mem_deadLettered_acked {attempt : AnalyzeAttempt} {error : String} :
    messageId ∈ (w.deadLettered fields error messageId attempt).acked ↔
      messageId ∈ w.acked ∨ attempt.dlqAcks = true := by
  cases hd : attempt.dlqAcks <;> simp [AnalyzerWorld.deadLettered, hd]

theorem mem_analyzed_acked {acked enqueued : Bool} :
    messageId ∈ (w.analyzed evidence messageId acked enqueued).acked ↔
      messageId ∈ w.acked ∨ acked = true := by
  cases acked <;> simp [AnalyzerWorld.analyzed]

theorem notStranded_of_enqueued (h : FirstCommit lib attempts fields k evidence) (acked : Bool) :
    NotStranded messageId fields (w.analyzed evidence messageId acked true) := by
  intro _
  refine Or.inl ⟨evidence, ?_, (commits_names h.commits).1, ?_⟩
  · simp [AnalyzerWorld.analyzed]
  · simp [AnalyzerWorld.analyzed]

/-- The row is there before the task: the retry cannot add it, and only the last ack counts. -/
theorem failed_iff_of_found {error : String} (hw : Awaiting attempts messageId w)
    (hrow : ∃ e ∈ w.evidences, fields.names e) :
    NotStranded messageId fields
        (w.deadLettered fields error messageId (attempts maxRetries)) ↔
      ¬Strands lib attempts messageId fields w := by
  rw [strands_iff_of_found hrow]
  constructor
  · intro hnot hboth
    obtain ⟨hlost, hacked⟩ := hboth
    rcases hnot (mem_deadLettered_acked.mpr (Or.inr hacked)) with
      ⟨e, hmem, hnames, hqueued⟩ | ⟨-, hnone⟩
    · exact hlost e hmem hnames hqueued
    · obtain ⟨e, hmem, hnames⟩ := hrow
      exact hnone e hmem hnames
  · intro hsafe hacked
    have hdlq := (mem_deadLettered_acked.mp hacked).resolve_left hw.unacked
    by_contra hnone
    apply hsafe
    refine ⟨fun e hmem hnames hqueued => hnone (Or.inl ⟨e, hmem, hnames, hqueued⟩), hdlq⟩

theorem notStranded_of_nothing {error : String} (hw : Awaiting attempts messageId w)
    (hempty : ∀ e ∈ w.evidences, ¬fields.names e) :
    NotStranded messageId fields
      (w.deadLettered fields error messageId (attempts maxRetries)) := by
  intro hacked
  have hdlq := (mem_deadLettered_acked.mp hacked).resolve_left hw.unacked
  have hmoved : (attempts maxRetries).moveToDlq.executed = true := by
    unfold AnalyzeAttempt.dlqAcks at hdlq
    cases hm : (attempts maxRetries).moveToDlq <;>
      simp [hm, Reply.raises, Reply.executed] at hdlq ⊢
  refine Or.inr ⟨⟨error, ?_⟩, hempty⟩
  simp [AnalyzerWorld.deadLettered, hmoved]

theorem FirstCommit.failed_iff {error : String} (hw : Awaiting attempts messageId w)
    (hempty : ∀ e ∈ w.evidences, ¬fields.names e)
    (hfirst : FirstCommit lib attempts fields k evidence) :
    NotStranded messageId fields
        ((w.analyzed evidence messageId ((attempts k).acks lib messageId)
            ((attempts k).enqueues lib messageId)).deadLettered
          fields error messageId (attempts maxRetries)) ↔
      ¬Strands lib attempts messageId fields w := by
  rw [hfirst.strands_iff hempty]
  have hnames := (commits_names hfirst.commits).1
  have hid := (commits_names hfirst.commits).2
  cases henqueued : (attempts k).enqueues lib messageId with
  | true =>
    refine ⟨fun _ hlost => by simp at hlost, ?_⟩
    intro _ _
    refine Or.inl ⟨evidence, ?_, hnames, ?_⟩
    · simp [AnalyzerWorld.deadLettered, AnalyzerWorld.analyzed]
    · simp [AnalyzerWorld.deadLettered, AnalyzerWorld.analyzed]
  | false =>
    constructor
    · intro hnot hboth
      obtain ⟨-, hacked⟩ := hboth
      rcases hnot (mem_deadLettered_acked.mpr
          (hacked.imp_left fun h => mem_analyzed_acked.mpr (Or.inr h))) with
        ⟨e, he, hnamed, hqueued⟩ | ⟨-, hnone⟩
      · rcases List.mem_append.mp he with hold | hnew
        · exact hempty e hold hnamed
        · obtain rfl := List.mem_singleton.mp hnew
          apply hw.unqueued k
          simpa [AnalyzerWorld.deadLettered, AnalyzerWorld.analyzed, hid] using hqueued
      · apply hnone evidence ?_ hnames
        simp [AnalyzerWorld.deadLettered, AnalyzerWorld.analyzed]
    · intro hsafe hacked
      rcases mem_deadLettered_acked.mp hacked with hbefore | hlast
      · have hack := (mem_analyzed_acked.mp hbefore).resolve_left hw.unacked
        exact absurd ⟨rfl, Or.inl hack⟩ hsafe
      · exact absurd ⟨rfl, Or.inr hlast⟩ hsafe

theorem Tried.failed_iff {error : String} (hw : Awaiting attempts messageId w)
    (h : Tried lib attempts messageId fields w (maxRetries + 1) t) :
    NotStranded messageId fields
        (t.deadLettered fields error messageId (attempts maxRetries)) ↔
      ¬Strands lib attempts messageId fields w := by
  cases h with
  | found hrow => exact failed_iff_of_found hw hrow
  | nothing hempty hnone =>
    exact iff_of_true (notStranded_of_nothing hw hempty) (not_strands_of_none hempty hnone)
  | committed hempty _ hfirst => exact hfirst.failed_iff hw hempty

/-- The task strands its message exactly in these failures. -/
theorem notStranded_iff (lib : AnalyzerLibrary) (attempts : Nat → AnalyzeAttempt)
    (messageId : String) (fields : StreamFields) (w : AnalyzerWorld)
    (hw : Awaiting attempts messageId w) :
    NotStranded messageId fields (runAnalyzeTask lib attempts messageId fields w) ↔
      ¬Strands lib attempts messageId fields w := by
  have returned : ∀ r (u : AnalyzerWorld), ((∀ e ∈ w.evidences, ¬fields.names e) ∧
      ∃ evidence, FirstCommit lib attempts fields r evidence ∧
        (attempts r).enqueues lib messageId = true ∧
        u = w.analyzed evidence messageId ((attempts r).acks lib messageId) true) →
      (NotStranded messageId fields u ↔ ¬Strands lib attempts messageId fields w) := by
    intro r u hpost
    obtain ⟨hempty, evidence, hfirst, henqueued, rfl⟩ := hpost
    refine ⟨?_, fun _ => notStranded_of_enqueued hfirst _⟩
    intro _ hlost
    have := ((hfirst.strands_iff hempty).mp hlost).1
    simp [henqueued] at this
  apply ends_state_iff (P := fun u =>
    NotStranded messageId fields u ↔ ¬Strands lib attempts messageId fields w) |>.mp
  apply ends_autoretry (I := Tried lib attempts messageId fields w)
  · by_cases hrow : ∃ e ∈ w.evidences, fields.names e
    · exact .found hrow
    · refine .nothing ?_ (fun j hj => absurd hj (Nat.not_lt_zero j))
      intro e hmem hnames
      exact hrow ⟨e, hmem, hnames⟩
  · intro r t _ hlt ht
    rw [ends_analyzeIngestMessage_retry (by simpa using hlt)]
    exact (ht.step hw (by omega)).mono (fun _ u hu => returned r u hu) (fun _ _ hu => hu)
  · intro t ht
    rw [Nat.zero_add] at ht ⊢
    apply ends_analyzeIngestMessage_last
    refine (ht.step hw (Nat.le_refl _)).mono (fun _ u hu => returned _ u hu) ?_
    intro exc u hu
    exact hu.failed_iff hw

theorem notStranded_iff_brokerOutage :
    Strands sampleLibrary brokerOutage "7-0" sampleFields ⟨[], [], [], []⟩ := by
  have hiff := notStranded_iff sampleLibrary brokerOutage "7-0" sampleFields ⟨[], [], [], []⟩
    awaiting_brokerOutage
  exact Classical.not_not.mp (fun hnot => brokerOutage_strands (hiff.mpr hnot))

end ArgusServices

import ArgusServices.Analyzer

namespace ArgusServices

open Effect

variable {lib : AnalyzerLibrary} {attempt : AnalyzeAttempt} {messageId : String}
  {fields : StreamFields} {w : AnalyzerWorld} {evidence : Evidence}

/-- The row carries the tenant and the ingestion the fields name. -/
def StreamFields.names (fields : StreamFields) (e : Evidence) : Prop :=
  (fields.lookup "tenant_id").bind Uuid.parse = some e.tenantId ∧
    (fields.lookup "ingestion_id").bind Uuid.parse = some e.ingestionId

instance (fields : StreamFields) (e : Evidence) : Decidable (fields.names e) :=
  inferInstanceAs (Decidable (_ ∧ _))

/-- The row a try commits if none is in its way. -/
def AnalyzeAttempt.commits (lib : AnalyzerLibrary) (fields : StreamFields)
    (attempt : AnalyzeAttempt) : Option Evidence :=
  match lib.parseMessage fields >>= attempt.analyze lib with
  | .ok evidence =>
    if attempt.flushRaises = false ∧ attempt.commit.executed then some evidence else none
  | .error _ => none

/-- Whether a try that commits the row has the message acknowledged. -/
def AnalyzeAttempt.acks (lib : AnalyzerLibrary) (messageId : String) (attempt : AnalyzeAttempt) :
    Bool :=
  !attempt.commit.raises && (lib.validMessageId messageId && attempt.xack.executed)

/-- Whether a try that commits the row has its aggregation enqueued. -/
def AnalyzeAttempt.enqueues (lib : AnalyzerLibrary) (messageId : String)
    (attempt : AnalyzeAttempt) : Bool :=
  !attempt.commit.raises && (!(lib.validMessageId messageId && attempt.xack.raises) &&
    attempt.enqueue.executed)

/-- Whether the last try, when it fails, has the message acknowledged. -/
def AnalyzeAttempt.dlqAcks (attempt : AnalyzeAttempt) : Bool :=
  !attempt.moveToDlq.raises && attempt.dlqXack.executed

/-- The world after a try that committed the row. -/
def AnalyzerWorld.analyzed (w : AnalyzerWorld) (evidence : Evidence) (messageId : String)
    (acked enqueued : Bool) : AnalyzerWorld where
  evidences := w.evidences ++ [evidence]
  acked := if acked then w.acked ++ [messageId] else w.acked
  dlq := w.dlq
  aggregateEvidence :=
    if enqueued then w.aggregateEvidence ++ [evidence.id.str] else w.aggregateEvidence

theorem lookup_set_of_ne {key value k : String} (h : k ≠ key) :
    (fields.set key value).lookup k = fields.lookup k := by
  have hmap : (fields.map fun f => if f.1 = key then (key, value) else f).lookup k =
      fields.lookup k := by
    induction fields with
    | nil => rfl
    | cons f fields ih =>
      obtain ⟨name, text⟩ := f
      by_cases hname : name = key
      · have hk : (k == key) = false := by simpa using h
        simp [List.lookup_cons, hname, hk, ih]
      · simp [List.lookup_cons, hname, ih]
  unfold StreamFields.set
  split
  · exact hmap
  · have hk : (k == key) = false := by simpa using h
    simp [List.lookup_append, hk]

theorem parseStreamFields_lookup {parsed : ParsedFields} {k : String}
    (h : lib.parseStreamFields fields = .ok parsed) (hk : k ≠ "region_id") :
    parsed.fields.lookup k = fields.lookup k := by
  unfold AnalyzerLibrary.parseStreamFields at h
  obtain ⟨_, -, h⟩ := bind_eq_ok.mp h
  obtain ⟨_, -, h⟩ := bind_eq_ok.mp h
  cases h
  dsimp only
  split
  · rfl
  · exact lookup_set_of_ne hk

theorem item_eq_ok {key value : String} (h : fields.item key = .ok value) :
    fields.lookup key = some value := by
  unfold StreamFields.item at h
  split at h
  · next hv =>
    cases h
    exact hv
  · cases h

theorem parseUuid_eq_ok {text : String} {u : Uuid} (h : parseUuid text = .ok u) :
    Uuid.parse text = some u := by
  unfold parseUuid at h
  split at h
  · next hu =>
    cases h
    exact hu
  · cases h

theorem lookup_set_self (fields : StreamFields) (key value : String) :
    (fields.set key value).lookup key = some value := by
  unfold StreamFields.set
  split
  next hany =>
    induction fields with
    | nil => simp at hany
    | cons f fields ih =>
      by_cases hname : f.1 = key
      · simp [hname]
      · have hrest : (fields.any fun f => decide (f.1 = key)) = true := by simpa [hname] using hany
        have hk : (key == f.1) = false := by simpa using Ne.symm hname
        rw [List.map_cons, if_neg hname, List.lookup_cons, hk]
        exact ih hrest
  next hany =>
    have hnone : fields.lookup key = none := by
      rw [List.lookup_eq_none_iff]
      intro f hf
      have hname := List.any_eq_false.mp (Bool.not_eq_true _ ▸ hany) f hf
      simp only [decide_eq_true_eq] at hname
      simpa using Ne.symm hname
    simp [List.lookup_append, hnone]

theorem parseStreamFields_region {parsed : ParsedFields}
    (h : lib.parseStreamFields fields = .ok parsed) :
    truthy (parsed.fields.lookup "region_id") = truthy (fields.lookup "region_id") := by
  unfold AnalyzerLibrary.parseStreamFields at h
  obtain ⟨_, -, h⟩ := bind_eq_ok.mp h
  obtain ⟨_, -, h⟩ := bind_eq_ok.mp h
  cases h
  dsimp only
  split
  next hregion => rw [hregion]
  next hregion =>
    rw [lookup_set_self, hregion]
    rfl

theorem regionId_eq_ok {regionId : Option Uuid} (h : fields.regionId = .ok regionId) :
    (truthy (fields.lookup "region_id")).bind Uuid.parse = regionId := by
  unfold StreamFields.regionId at h
  split at h
  next text htext =>
    rw [htext, Option.bind_some]
    cases hparse : parseUuid text with
    | error e =>
      rw [hparse] at h
      cases h
    | ok id =>
      rw [hparse] at h
      cases h
      exact parseUuid_eq_ok hparse
  next hnone =>
    cases h
    rw [hnone, Option.bind_none]

theorem item_uuid {parsed : ParsedFields} {key text : String} {u : Uuid}
    (hparsed : lib.parseStreamFields fields = .ok parsed) (hkey : key ≠ "region_id")
    (hitem : parsed.fields.item key = .ok text) (hu : parseUuid text = .ok u) :
    (fields.lookup key).bind Uuid.parse = some u := by
  rw [← parseStreamFields_lookup hparsed hkey, item_eq_ok hitem, Option.bind_some]
  exact parseUuid_eq_ok hu

/-- A message carries what its fields name. -/
structure IngestMessage.ReadFrom (message : IngestMessage) (fields : StreamFields) : Prop where
  tenant : (fields.lookup "tenant_id").bind Uuid.parse = some message.tenantId
  camera : (fields.lookup "camera_id").bind Uuid.parse = some message.cameraId
  ingestion : (fields.lookup "ingestion_id").bind Uuid.parse = some message.ingestionId
  region : (truthy (fields.lookup "region_id")).bind Uuid.parse = message.regionId

theorem parseMessage_readFrom {message : IngestMessage}
    (h : lib.parseMessage fields = .ok message) : message.ReadFrom fields := by
  unfold AnalyzerLibrary.parseMessage at h
  obtain ⟨parsed, hparsed, h⟩ := bind_eq_ok.mp h
  obtain ⟨tenantText, htenantText, h⟩ := bind_eq_ok.mp h
  obtain ⟨tenantId, htenant, h⟩ := bind_eq_ok.mp h
  obtain ⟨cameraText, hcameraText, h⟩ := bind_eq_ok.mp h
  obtain ⟨cameraId, hcamera, h⟩ := bind_eq_ok.mp h
  obtain ⟨_, -, h⟩ := bind_eq_ok.mp h
  obtain ⟨_, -, h⟩ := bind_eq_ok.mp h
  obtain ⟨ingestionText, hingestionText, h⟩ := bind_eq_ok.mp h
  obtain ⟨ingestionId, hingestion, h⟩ := bind_eq_ok.mp h
  obtain ⟨regionId, hregion, h⟩ := bind_eq_ok.mp h
  obtain ⟨_, -, h⟩ := bind_eq_ok.mp h
  obtain ⟨_, -, h⟩ := bind_eq_ok.mp h
  cases h
  refine ⟨?_, ?_, ?_, ?_⟩
  · exact item_uuid hparsed (by decide) htenantText htenant
  · exact item_uuid hparsed (by decide) hcameraText hcamera
  · exact item_uuid hparsed (by decide) hingestionText hingestion
  · rw [← parseStreamFields_region hparsed]
    exact regionId_eq_ok hregion

/-- A row carries what its message does, with the score of its result. -/
structure Analyzed (lib : AnalyzerLibrary) (attempt : AnalyzeAttempt) (message : IngestMessage)
    (evidence : Evidence) : Prop where
  id : evidence.id = attempt.evidenceId
  tenant : evidence.tenantId = message.tenantId
  camera : evidence.cameraId = message.cameraId
  region : evidence.regionId = message.regionId
  ingestion : evidence.ingestionId = message.ingestionId
  scored : ∃ vlmResult, lib.computeSeverityScore vlmResult
    (selectRules attempt.rules message.contextModeId message.tenantId) = .ok evidence.severityScore

theorem analyze_analyzed {message : IngestMessage}
    (h : attempt.analyze lib message = .ok evidence) : Analyzed lib attempt message evidence := by
  unfold AnalyzeAttempt.analyze at h
  obtain ⟨_, -, h⟩ := bind_eq_ok.mp h
  obtain ⟨_, -, h⟩ := bind_eq_ok.mp h
  obtain ⟨_, -, h⟩ := bind_eq_ok.mp h
  obtain ⟨_, -, h⟩ := bind_eq_ok.mp h
  obtain ⟨vlmResult, -, h⟩ := bind_eq_ok.mp h
  obtain ⟨severityScore, hscore, h⟩ := bind_eq_ok.mp h
  obtain ⟨_, -, h⟩ := bind_eq_ok.mp h
  cases h
  exact ⟨rfl, rfl, rfl, rfl, rfl, vlmResult, hscore⟩

theorem analyze_names {message : IngestMessage} (hm : lib.parseMessage fields = .ok message)
    (h : attempt.analyze lib message = .ok evidence) :
    fields.names evidence ∧ evidence.id = attempt.evidenceId := by
  have hread := parseMessage_readFrom hm
  have hrow := analyze_analyzed h
  exact ⟨⟨hrow.tenant ▸ hread.tenant, hrow.ingestion ▸ hread.ingestion⟩, hrow.id⟩

theorem commits_names (h : attempt.commits lib fields = some evidence) :
    fields.names evidence ∧ evidence.id = attempt.evidenceId := by
  unfold AnalyzeAttempt.commits at h
  split at h
  · next e he =>
    obtain ⟨message, hm, ha⟩ := bind_eq_ok.mp he
    split at h
    · cases h
      exact analyze_names hm ha
    · cases h
  · cases h

/-- Until its commit a try changes nothing: it raises, or has a row that no other keeps out. -/
theorem ends_analyzeMessage_of_flushed {Q : String → AnalyzerWorld → Prop}
    {E : Exn → AnalyzerWorld → Prop} (hraise : ∀ exc, E exc w)
    (hrow : ∀ message evidence, lib.parseMessage fields = .ok message →
      attempt.analyze lib message = .ok evidence → attempt.flushRaises = false →
      (w.evidences.any fun e =>
        e.tenantId = evidence.tenantId ∧ e.ingestionId = evidence.ingestionId) = false →
      Ends (do
        command attempt.commit (fun w => w.addEvidence evidence) .outage
        maybeXack lib attempt messageId
        command attempt.enqueue (fun w => w.enqueueAggregate evidence.id.str) .outage
        pure evidence.id.str) w Q E) :
    Ends (analyzeMessage lib attempt messageId fields) w Q E := by
  unfold analyzeMessage
  rw [ends_bind, ends_ofExcept]
  refine ⟨?_, fun e _ => hraise e⟩
  intro message hm
  rw [ends_bind, ends_ofExcept]
  refine ⟨?_, fun e _ => hraise e⟩
  intro evidence he
  rw [ends_bind, ends_raiseWhen]
  refine ⟨fun _ => hraise _, ?_⟩
  intro hflush
  rw [ends_bind, ends_get, ends_bind, ends_raiseWhen]
  refine ⟨fun _ => hraise _, ?_⟩
  intro _
  rw [ends_bind, ends_raiseWhen]
  refine ⟨fun _ => hraise _, ?_⟩
  intro hfree
  exact hrow message evidence hm he hflush hfree

/-- A try that commits no row, or finds one in its way, raises and leaves all as it was. -/
theorem ends_analyzeMessage_unchanged
    (h : attempt.commits lib fields = none ∨ ∃ e ∈ w.evidences, fields.names e) :
    Ends (analyzeMessage lib attempt messageId fields) w (fun _ _ => False) fun _ t => t = w := by
  refine ends_analyzeMessage_of_flushed (fun _ => rfl) ?_
  intro message evidence hm he hflush hfree
  rcases h with hnone | ⟨e, hmem, hnames⟩
  · have hlost : attempt.commit = .failed := by
      have hbind : (lib.parseMessage fields >>= attempt.analyze lib) = .ok evidence :=
        bind_eq_ok.mpr ⟨message, hm, he⟩
      unfold AnalyzeAttempt.commits at hnone
      rw [hbind] at hnone
      cases hc : attempt.commit <;> simp [hflush, hc, Reply.executed] at hnone ⊢
    rw [ends_bind, ends_command, hlost]
    exact ⟨fun _ => rfl, fun hraise => by cases hraise⟩
  · exfalso
    obtain ⟨⟨htenant, hingestion⟩, -⟩ := analyze_names hm he
    have htaken := List.any_eq_false.mp hfree e hmem
    apply htaken
    have ht := Option.some.inj (hnames.1.symm.trans htenant)
    have hi := Option.some.inj (hnames.2.symm.trans hingestion)
    simp [ht, hi]

theorem ends_maybeXack {Q : Unit → AnalyzerWorld → Prop} {E : Exn → AnalyzerWorld → Prop} :
    Ends (maybeXack lib attempt messageId) w Q E ↔
      ((lib.validMessageId messageId && attempt.xack.raises) = true → E .outage
        (if lib.validMessageId messageId && attempt.xack.executed then w.acknowledge messageId
          else w)) ∧
      ((lib.validMessageId messageId && attempt.xack.raises) = false → Q ()
        (if lib.validMessageId messageId && attempt.xack.executed then w.acknowledge messageId
          else w)) := by
  unfold maybeXack
  by_cases hvalid : lib.validMessageId messageId = true
  · simp only [hvalid, ↓reduceIte, ends_command, Bool.true_and]
  · simp [hvalid]

theorem ends_command_evidences {r : Reply} {f : AnalyzerWorld → AnalyzerWorld} {e : Exn}
    (hf : ∀ t, (f t).evidences = t.evidences) :
    Ends (command r f e) w (fun _ t => t.evidences = w.evidences)
      fun _ t => t.evidences = w.evidences := by
  have hw : (if r.executed then f w else w).evidences = w.evidences := by
    split
    · exact hf w
    · rfl
  exact ends_command.mpr ⟨fun _ => hw, fun _ => hw⟩

theorem ends_maybeXack_evidences :
    Ends (maybeXack lib attempt messageId) w (fun _ t => t.evidences = w.evidences)
      fun _ t => t.evidences = w.evidences := by
  unfold maybeXack
  split
  · exact ends_command_evidences fun _ => rfl
  · rfl

/-- The evidences a try leaves: nothing new, or the row of the message. -/
def AnalyzeAttempt.Adds (lib : AnalyzerLibrary) (attempt : AnalyzeAttempt) (fields : StreamFields)
    (w w' : AnalyzerWorld) : Prop :=
  w'.evidences = w.evidences ∨ ∃ message evidence, lib.parseMessage fields = .ok message ∧
    attempt.analyze lib message = .ok evidence ∧ attempt.flushRaises = false ∧
    w'.evidences = w.evidences ++ [evidence]

theorem AnalyzeAttempt.Adds.congr {u v : AnalyzerWorld} (h : attempt.Adds lib fields w u)
    (hv : v.evidences = u.evidences) : attempt.Adds lib fields w v := by
  unfold AnalyzeAttempt.Adds at h ⊢
  rw [hv]
  exact h

theorem ends_analyzeMessage_adds :
    Ends (analyzeMessage lib attempt messageId fields) w
      (fun _ t => attempt.Adds lib fields w t) fun _ t => attempt.Adds lib fields w t := by
  have hsame : attempt.Adds lib fields w w := Or.inl rfl
  refine ends_analyzeMessage_of_flushed (fun _ => hsame) ?_
  intro message evidence hm he hflush _
  have hcommit : ∀ b : Bool, attempt.Adds lib fields w (if b then w.addEvidence evidence else w) := by
    intro b
    cases b with
    | false => exact hsame
    | true => exact Or.inr ⟨message, evidence, hm, he, hflush, rfl⟩
  rw [ends_bind, ends_command]
  refine ⟨fun _ => hcommit _, fun _ => ?_⟩
  -- the commands after the commit leave the evidences as they are
  rw [ends_bind]
  refine ends_maybeXack_evidences.mono ?_ (fun _ t ht => (hcommit _).congr ht)
  intro _ t ht
  rw [ends_bind]
  refine Ends.mono (ends_command_evidences ?_) ?_ ?_
  · exact fun _ => rfl
  · intro _ u hu
    exact (hcommit _).congr (hu.trans ht)
  · intro _ u hu
    exact (hcommit _).congr (hu.trans ht)

/-- A try that commits its row: what it has acknowledged and enqueued by the time it ends. -/
theorem ends_analyzeMessage_committed (h : attempt.commits lib fields = some evidence)
    (hrow : ∀ e ∈ w.evidences, ¬fields.names e)
    (hid : ∀ e ∈ w.evidences, e.id ≠ attempt.evidenceId) :
    Ends (analyzeMessage lib attempt messageId fields) w
      (fun _ t => attempt.enqueues lib messageId = true ∧
        t = w.analyzed evidence messageId (attempt.acks lib messageId)
          (attempt.enqueues lib messageId))
      fun _ t => t = w.analyzed evidence messageId (attempt.acks lib messageId)
        (attempt.enqueues lib messageId) := by
  unfold AnalyzeAttempt.commits at h
  split at h
  swap
  · cases h
  next e he =>
  obtain ⟨message, hm, ha⟩ := bind_eq_ok.mp he
  split at h
  swap
  · cases h
  next hcommit =>
  obtain ⟨hflush, hexecuted⟩ := hcommit
  cases h
  obtain ⟨hnames, hdrawn⟩ := analyze_names hm ha
  have hkey : (w.evidences.any fun e => e.id = evidence.id) = false := by
    rw [List.any_eq_false]
    intro e hmem
    simpa [hdrawn] using hid e hmem
  have hfree : (w.evidences.any fun e =>
      e.tenantId = evidence.tenantId ∧ e.ingestionId = evidence.ingestionId) = false := by
    rw [List.any_eq_false]
    intro e hmem htaken
    obtain ⟨ht, hi⟩ := of_decide_eq_true htaken
    apply hrow e hmem
    exact ⟨ht ▸ hnames.1, hi ▸ hnames.2⟩
  unfold analyzeMessage
  simp only [ends_bind, ends_ofExcept, hm, ha, Except.ok.injEq, forall_eq', reduceCtorEq,
    IsEmpty.forall_iff, implies_true, and_true, true_and, ends_raiseWhen, hflush, ends_get, hkey,
    hfree, Bool.false_eq_true, true_implies, ends_command, hexecuted, ↓reduceIte, ends_maybeXack,
    ends_pure]
  -- what is left are the ways the commit, the acknowledgement and the enqueueing can end
  unfold AnalyzeAttempt.acks AnalyzeAttempt.enqueues
  cases hvalid : lib.validMessageId messageId <;> cases hc : attempt.commit <;>
    cases hx : attempt.xack <;> cases hq : attempt.enqueue <;>
    simp [AnalyzerWorld.addEvidence, AnalyzerWorld.acknowledge, AnalyzerWorld.enqueueAggregate,
      AnalyzerWorld.analyzed, Reply.raises, Reply.executed]

/-- The world after the last try has failed. -/
def AnalyzerWorld.deadLettered (w : AnalyzerWorld) (fields : StreamFields)
    (error messageId : String) (attempt : AnalyzeAttempt) : AnalyzerWorld :=
  { w with
    acked := if attempt.dlqAcks then w.acked ++ [messageId] else w.acked
    dlq := if attempt.moveToDlq.executed then w.dlq ++ [fields.set "error" error] else w.dlq }

theorem ends_analyzeIngestMessage_retry {retries : Nat} (h : retries < maxRetries)
    {Q : Option String → AnalyzerWorld → Prop} {E : Exn → AnalyzerWorld → Prop} :
    Ends (analyzeIngestMessage lib attempt messageId fields retries) w Q E ↔
      Ends (analyzeMessage lib attempt messageId fields) w (fun id t => Q (some id) t) E := by
  have hnot : ¬retries ≥ maxRetries := by omega
  simp only [analyzeIngestMessage, ends_tryCatch, ends_bind, ends_pure, hnot, ↓reduceIte,
    ends_throw]

theorem ends_analyzeIngestMessage_last {P : AnalyzerWorld → Prop}
    (h : Ends (analyzeMessage lib attempt messageId fields) w (fun _ t => P t)
      fun exc t => P (t.deadLettered fields (lib.str exc) messageId attempt)) :
    Ends (analyzeIngestMessage lib attempt messageId fields maxRetries) w (fun _ t => P t)
      fun _ t => P t := by
  unfold analyzeIngestMessage
  rw [ends_tryCatch, ends_bind]
  refine h.mono (fun _ _ ht => ht) ?_
  intro exc t ht
  simp only [ge_iff_le, Nat.le_refl, ↓reduceIte, ends_bind, ends_command, ends_pure]
  unfold AnalyzerWorld.deadLettered AnalyzeAttempt.dlqAcks at ht
  cases hm : attempt.moveToDlq <;> cases hx : attempt.dlqXack <;>
    simpa [hm, hx, Reply.raises, Reply.executed, AnalyzerWorld.moveToDlq,
      AnalyzerWorld.acknowledge] using ht

def sampleLibrary : AnalyzerLibrary where
  loads text :=
    if text = "[]" then .ok (.arr [])
    else if text = "{}" then .ok (.obj [])
    else .error (.valueError "Expecting value: line 1 column 1 (char 0)")
  fromisoformat text :=
    if text = "1970-01-01T00:00:00+00:00" then .ok 0
    else .error (.valueError "Invalid isoformat string")
  isdigit text := text ≠ "" && text.toList.all Char.isDigit
  str
    | .integrityError constraint => constraint
    | _ => "outage"
  computeSeverityScore result _ :=
    match result with
    | .obj members =>
      match members.lookup "severity_hint" with
      | some (.int n) => .ok n
      | _ => .ok 0
    | _ => .ok 0

end ArgusServices

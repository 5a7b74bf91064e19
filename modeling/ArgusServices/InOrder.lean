import ArgusServices.AdminApi
import ArgusServices.Conservation
import ArgusServices.FrameDelivery
import ArgusServices.KeptWindows

namespace ArgusServices

open Effect Transition

section Accept

variable {call : IngestCall} {w : IngestStore} {r : Reply}

theorem uris_of_uploadFrames {uris : List String} (h : uploadFrames call = .ok uris) :
    uris = call.request.frames.map call.frameUri := by
  have hvalid : ∀ frame ∈ call.request.frames, base64Valid frame.content = true := by
    intro frame hframe
    by_contra hinvalid
    rw [uploadFrames_of_invalid hframe (by simpa using hinvalid)] at h
    cases h
  rw [uploadFrames_of_valid hvalid] at h
  exact (Except.ok.inj h).symm

/-- Started at `w`, a call is on its way to its event, or has put it on the stream, or has not. -/
def IngestCall.Puts (call : IngestCall) (w : IngestStore) : IngestStore × IngestPhase → Prop
  | (u, .uploaded uris) => u.stream = w.stream ∧ uris = call.request.frames.map call.frameUri
  | (u, p) => u.stream = w.stream ∨ p.past = true ∧ u.stream = w.stream ++ [call.event]

theorem IngestCall.Puts.step {s : IngestStore × IngestPhase} (h : call.Puts w s) (r : Reply) :
    call.Puts w (call.step s r) := by
  obtain ⟨u, p⟩ := s
  cases p with
  | uploaded uris =>
    obtain ⟨hstream, rfl⟩ := h
    have hput : (call.enqueue u (call.request.frames.map call.frameUri)).stream =
        w.stream ++ [call.event] := congrArg (· ++ [call.event]) hstream
    cases r with
    | done => exact Or.inr ⟨rfl, hput⟩
    | failed => exact Or.inl hstream
    | lost => exact Or.inr ⟨rfl, hput⟩
  | begun =>
    have hstream : u.stream = w.stream := h.resolve_right fun hpast => Bool.false_ne_true hpast.1
    cases r with
    | done =>
      simp only [IngestCall.step, IngestCall.advance]
      split
      · split
        · exact Or.inl (claim_stream.trans hstream)
        · exact Or.inl hstream
      · exact Or.inl hstream
    | failed => exact Or.inl hstream
    | lost =>
      simp only [IngestCall.step, IngestCall.fail]
      split
      · exact Or.inl (claim_stream.trans hstream)
      · exact Or.inl hstream
  | claimed =>
    have hstream : u.stream = w.stream := h.resolve_right fun hpast => Bool.false_ne_true hpast.1
    cases r with
    | done =>
      simp only [IngestCall.step, IngestCall.advance]
      split <;> exact Or.inl hstream
    | _ => exact Or.inl hstream
  | modeChecked =>
    have hstream : u.stream = w.stream := h.resolve_right fun hpast => Bool.false_ne_true hpast.1
    cases r with
    | done =>
      simp only [IngestCall.step, IngestCall.advance]
      split
      next uris huris => exact ⟨hstream, uris_of_uploadFrames huris⟩
      next => exact Or.inl hstream
    | _ => exact Or.inl hstream
  | cleaning cause => cases r <;> exact h
  | returned response => cases r <;> exact h
  | raised cause => cases r <;> exact h

/-- What a call leaves on the stream is its event. -/
theorem run_puts (call : IngestCall) (w : IngestStore) (rs : List Reply) :
    (call.run rs (w, .begun)).1.stream = w.stream ∨
      (call.run rs (w, .begun)).1.stream = w.stream ++ [call.event] := by
  have hrun : ∀ s, call.Puts w s → call.Puts w (call.run rs s) := by
    induction rs with
    | nil => exact fun s h => h
    | cons r rs ih => exact fun s h => ih _ (h.step r)
  have hputs : call.Puts w (call.run rs (w, .begun)) := hrun _ (Or.inl rfl)
  generalize call.run rs (w, .begun) = s at hputs
  obtain ⟨u, p⟩ := s
  cases p with
  | uploaded uris => exact Or.inl hputs.1
  | _ => exact hputs.imp_right And.right

end Accept

section Analyze

variable {lib : AnalyzerLibrary} {enc : EncoderLibrary} {attempt : AnalyzeAttempt}
  {messageId : String} {fields : StreamFields} {w w' : AnalyzerWorld} {retries : Nat}

/-- A try that is not a failing last one leaves the row of its message, or nothing if it is
retried. -/
theorem ends_analyzeIngestMessage_retried (h : attempt.FailsCleanly)
    (hlast : maxRetries ≤ retries →
      (exec (analyzeMessage lib attempt messageId fields) w).1.isOk = true) :
    Ends (analyzeIngestMessage lib attempt messageId fields retries) w
      (fun _ t => ∃ evidence, Enqueued fields w t evidence)
      fun _ t => retries < maxRetries ∧ t = w := by
  have hearly : Ends (analyzeMessage lib attempt messageId fields) w (fun _ _ => True)
      fun _ _ => retries < maxRetries := by
    by_cases hr : maxRetries ≤ retries
    · have hok := hlast hr
      unfold Ends
      rcases hx : exec (analyzeMessage lib attempt messageId fields) w with ⟨e | id, t⟩
      · rw [hx] at hok
        cases hok
      · trivial
    · exact (ends_analyzeMessage_cleanly h).mono (fun _ _ _ => trivial) fun _ _ _ => by omega
  unfold analyzeIngestMessage
  rw [ends_tryCatch, ends_bind]
  refine ((ends_analyzeMessage_cleanly h).and hearly).mono ?_ ?_
  · intro _ t ht
    exact ends_pure.mpr ht.1
  · intro exc t ht
    rw [if_neg (by omega)]
    exact ends_throw.mpr ⟨ht.2, ht.1⟩

/-- The row of a sequence, made while its tenant was there. -/
structure AnalyzedRow (db : ConfigDb) (call : IngestCall) (w w' : AnalyzerWorld)
    (evidence : Evidence) : Prop where
  made : evidence.MadeFrom call
  tenant : (db.tenants.find evidence.tenantId).isSome = true
  id : ∀ e ∈ w.evidences, e.id ≠ evidence.id
  evidences : w'.evidences = w.evidences ++ [evidence]
  aggregateEvidence : w'.aggregateEvidence = w.aggregateEvidence ++ [evidence.id.str]

theorem analyze_retried {s : System} {call : IngestCall} (hforms : RoundTrips lib enc call.event)
    (hclean : attempt.FailsCleanly)
    (hlast : maxRetries ≤ retries → (exec (analyzeMessage lib
      (s.meets lib attempt (enc.texts.payload call.event)) messageId
      (enc.texts.payload call.event)) s.analyzer).1.isOk = true)
    {result : Except Exn (Option String)}
    (hx : exec (analyzeIngestMessage lib
      (s.meets lib attempt (enc.texts.payload call.event)) messageId
      (enc.texts.payload call.event) retries) s.analyzer = (result, w')) :
    (result.isOk = false ∧ retries < maxRetries ∧ w' = s.analyzer) ∨
      (result.isOk = true ∧ ∃ evidence, AnalyzedRow s.config call s.analyzer w' evidence) := by
  have hmeets : (s.meets lib attempt (enc.texts.payload call.event)).FailsCleanly :=
    ⟨hclean.commit, hclean.committed, hclean.moved, hclean.buried⟩
  have hends := ends_analyzeIngestMessage_retried hmeets hlast
  cases result with
  | error e => exact Or.inl ⟨rfl, hends.error hx⟩
  | ok a =>
    obtain ⟨evidence, hdone⟩ := hends.ok hx
    have hadds := @ends_analyzeIngestMessage_adds lib
      (s.meets lib attempt (enc.texts.payload call.event)) messageId
      (enc.texts.payload call.event) retries s.analyzer
    rcases hadds.ok hx with hsame | ⟨message, evidence', hm, hrow, hflush, hnew⟩
    · rw [hdone.evidences] at hsame
      exact absurd hsame (by simp)
    · obtain rfl : evidence' = evidence := by
        have hboth := hnew.symm.trans hdone.evidences
        exact List.singleton_inj.mp (List.append_cancel_left hboth)
      have hmessage := hforms.parseMessage (readsLike_payload enc call.event)
      obtain rfl := Except.ok.inj (hm.symm.trans hmessage)
      have hmade := madeFrom_of_analyze hrow
      refine Or.inr ⟨rfl, evidence', hmade, ?_, hdone.id, hdone.evidences,
        hdone.aggregateEvidence⟩
      have hrefuses : s.config.refuses (call.message enc) = false := by
        simp only [System.meets, Bool.or_eq_false_iff] at hflush
        have hany := hflush.2
        rw [hm] at hany
        exact hany
      simp only [ConfigDb.refuses, Bool.or_eq_false_iff] at hrefuses
      have htenant : (s.config.tenants.find call.request.tenantId).isNone = false :=
        hrefuses.1.1.1
      rw [hmade.tenant]
      simpa using htenant

end Analyze

section Order

/-- A try fails before its row is committed, if it fails, and a last try does not fail. -/
def Pipeline.keepsMessage (lib : AnalyzerLibrary) (p : Pipeline) (entry : String × StreamFields)
    (attempt : AnalyzeAttempt) (retries : Nat) : Prop :=
  attempt.FailsCleanly ∧ (maxRetries ≤ retries → (exec (analyzeMessage lib
    (p.system.meets lib attempt entry.2) entry.1 entry.2) p.system.analyzer).1.isOk = true)

/-- The stages take their messages in the order of the queues, no message is given up, and no open
key expires. -/
def Pipeline.keepsOrder (lib : AnalyzerLibrary) (p : Pipeline) : PipelineMove → Prop
  | .poll call => HandsOver p.group (.poll call)
  | .analyze entry attempt retries =>
    p.group.tasks.head? = some entry ∧ p.keepsMessage lib entry attempt retries
  | .aggregate evidenceId call =>
    p.system.analyzer.aggregateEvidence.head? = some evidenceId ∧ call.raisesAt = none
  | .expireKey key => "decision:open:".toList.isPrefixOf key.toList = false
  | .accept .. | .resolve _ | .admin _ | .setActiveMode .. => True

def PipelineMove.ingest? : PipelineMove → Option IngestCall
  | .accept call _ _ => some call
  | _ => none

def PipelineMove.aggregation? : PipelineMove → Option AggregateCall
  | .aggregate _ call => some call
  | _ => none

/-- The sequences on the stream, those with an evidence before those without. -/
structure Pipeline.Flow (lib : AnalyzerLibrary) (enc : EncoderLibrary) (p : Pipeline)
    (analyzed waiting : List IngestCall) : Prop where
  stream : p.system.stream = (analyzed ++ waiting).map IngestCall.event
  entries : (p.group.tasks ++ p.unread).map Prod.snd =
    waiting.map fun call => enc.texts.payload call.event
  delivered : p.group.delivered ≤ p.group.entries.length
  evidences : List.Forall₂ Evidence.MadeFrom p.system.analyzer.evidences analyzed
  forms : ∀ call ∈ waiting, RoundTrips lib enc call.event

/-- The evidences, those that a call has linked before those that wait. -/
structure Pipeline.Grouped (p : Pipeline) (linked waiting : List Evidence)
    (calls : List AggregateCall) : Prop where
  evidences : p.system.analyzer.evidences = linked ++ waiting
  queue : p.system.analyzer.aggregateEvidence = waiting.map fun e => e.id.str
  ids : (p.system.analyzer.evidences.map Evidence.id).Nodup
  tenants : ∀ e ∈ waiting, (p.system.config.tenants.find e.tenantId).isSome = true
  called : calls.map AggregateCall.evidenceId = linked.map Evidence.id
  history : History p.system.toWorld p.system.toWorld calls

variable {lib : AnalyzerLibrary} {enc : EncoderLibrary} {p q : Pipeline} {m : PipelineMove}
  {analyzed pending : List IngestCall} {linked waiting : List Evidence}
  {calls : List AggregateCall}

theorem Pipeline.Flow.of_same (h : p.Flow lib enc analyzed pending)
    (hstream : q.system.stream = p.system.stream) (hgroup : q.group = p.group)
    (hevidences : q.system.analyzer.evidences = p.system.analyzer.evidences) :
    q.Flow lib enc analyzed pending := by
  refine ⟨hstream.trans h.stream, ?_, ?_, hevidences ▸ h.evidences, h.forms⟩
  · unfold Pipeline.unread
    rw [hgroup]
    exact h.entries
  · rw [hgroup]
    exact h.delivered

theorem Pipeline.Flow.accept (h : p.Flow lib enc analyzed pending) {call : IngestCall}
    (hforms : RoundTrips lib enc call.event) (replies : List Reply) (entryId : String) :
    (p.accept enc.texts call replies entryId).Flow lib enc analyzed pending ∨
      (p.accept enc.texts call replies entryId).Flow lib enc analyzed (pending ++ [call]) := by
  rcases run_puts call ⟨p.system.world.keys, p.system.stream⟩ replies with hsame | hput
  · have hstream : (p.system.accept call replies).stream = p.system.stream := hsame
    exact Or.inl (h.of_same hstream (Pipeline.accept_group hstream entryId) rfl)
  · have hstream : (p.system.accept call replies).stream = p.system.stream ++ [call.event] := hput
    have hunread : (p.accept enc.texts call replies entryId).unread =
        p.unread ++ [(entryId, enc.texts.payload call.event)] :=
      Pipeline.accept_unread hstream h.delivered entryId
    refine Or.inr ⟨?_, ?_, Pipeline.accept_delivered h.delivered call replies entryId,
      h.evidences, ?_⟩
    · rw [← List.append_assoc, List.map_append, ← h.stream]
      exact hstream
    · have htasks : (p.accept enc.texts call replies entryId).group.tasks = p.group.tasks := rfl
      rw [htasks, hunread, ← List.append_assoc, List.map_append, h.entries, List.map_append]
      rfl
    · intro c hc
      rcases List.mem_append.mp hc with hc | hc
      · exact h.forms c hc
      · obtain rfl := List.mem_singleton.mp hc
        exact hforms

theorem Pipeline.Flow.poll (h : p.Flow lib enc analyzed pending) {call : PollCall}
    (hover : HandsOver p.group (.poll call)) : (p.poll call).Flow lib enc analyzed pending := by
  obtain ⟨n, hunread, htasks, hdelivered⟩ := poll_moves hover h.delivered
  refine ⟨h.stream, ?_, hdelivered, h.evidences, h.forms⟩
  have hunread' : (p.poll call).unread = p.unread.drop n := hunread
  have htasks' : (p.poll call).group.tasks = p.group.tasks ++ p.unread.take n := htasks
  rw [hunread', htasks', List.append_assoc, List.take_append_drop]
  exact h.entries

theorem find_ofList_self {es : List Evidence} (hids : (es.map Evidence.id).Nodup) {e : Evidence}
    (he : e ∈ es) : (KeyedTable.ofList es : KeyedTable Uuid Evidence Evidence.id).find e.id =
      some e := by
  cases hfind : (KeyedTable.ofList es : KeyedTable Uuid Evidence Evidence.id).find e.id with
  | none =>
    have hnone := List.find?_eq_none.mp hfind e he
    simp at hnone
  | some r =>
    have hid : r.id = e.id := (KeyedTable.ofList es).keyed _ _ hfind
    rw [List.inj_on_of_nodup_map hids (KeyedTable.mem_of_find_ofList hfind) he hid]

theorem evidencesOf_called {s : System} (hevidences : s.analyzer.evidences = linked ++ waiting)
    (hids : (s.analyzer.evidences.map Evidence.id).Nodup)
    (hcalled : calls.map AggregateCall.evidenceId = linked.map Evidence.id) :
    s.toWorld.evidencesOf calls = linked := by
  have hfind : ∀ e ∈ linked, s.toWorld.db.evidences.find e.id = some e := by
    intro e he
    exact find_ofList_self hids (hevidences ▸ List.mem_append_left _ he)
  calc s.toWorld.evidencesOf calls
      = (calls.map AggregateCall.evidenceId).filterMap s.toWorld.db.evidences.find := by
        rw [List.filterMap_map]
        rfl
    _ = linked.filterMap fun e => s.toWorld.db.evidences.find e.id := by
        rw [hcalled, List.filterMap_map]
        rfl
    _ = linked.filterMap some := List.filterMap_congr hfind
    _ = linked := List.filterMap_some

theorem Pipeline.Grouped.rebase (h : p.Grouped linked waiting calls)
    (hanalyzer : q.system.analyzer = p.system.analyzer)
    (htenants : q.system.config.tenants = p.system.config.tenants)
    (hhistory : History q.system.toWorld q.system.toWorld calls) :
    q.Grouped linked waiting calls := by
  refine ⟨?_, ?_, ?_, ?_, h.called, hhistory⟩
  · rw [hanalyzer, h.evidences]
  · rw [hanalyzer, h.queue]
  · rw [hanalyzer]
    exact h.ids
  · rw [htenants]
    exact h.tenants

/-- Rows and open keys that stay keep the windows. -/
theorem Pipeline.Grouped.keys (h : p.Grouped linked waiting calls)
    (hanalyzer : q.system.analyzer = p.system.analyzer)
    (htenants : q.system.config.tenants = p.system.config.tenants)
    (hdb : q.system.world.db = p.system.world.db)
    (hkeys : ∀ e, q.system.world.keys (openDecisionKey e) =
      p.system.world.keys (openDecisionKey e)) : q.Grouped linked waiting calls := by
  have hevidences : q.system.toWorld.db.evidences = p.system.toWorld.db.evidences :=
    congrArg (fun a : AnalyzerWorld => KeyedTable.ofList a.evidences) hanalyzer
  refine h.rebase hanalyzer htenants (h.history.carry ?_ ?_ htenants hkeys ?_)
  · have hdecisions : q.system.world.db.decisions = p.system.world.db.decisions := by
      rw [hdb]
    exact hdecisions
  · have hlinks : q.system.world.db.decisionEvidences = p.system.world.db.decisionEvidences := by
      rw [hdb]
    exact hlinks
  · unfold World.evidencesOf
    rw [hevidences]

theorem Pipeline.Grouped.resolve (h : p.Grouped linked waiting calls) (call : ResolveCall) :
    (p.resolve call).Grouped linked waiting calls :=
  h.rebase rfl rfl (h.history.resolve call rfl rfl rfl rfl rfl)

theorem Pipeline.Grouped.analyze (h : p.Grouped linked waiting calls) {call : IngestCall}
    {evidence : Evidence} {w : AnalyzerWorld} {group : ConsumerGroup}
    (hrow : AnalyzedRow p.system.config call p.system.analyzer w evidence) :
    Pipeline.Grouped { p with system := { p.system with analyzer := w }, group := group } linked
      (waiting ++ [evidence]) calls := by
  have hevidences : w.evidences = linked ++ (waiting ++ [evidence]) := by
    rw [hrow.evidences, h.evidences, List.append_assoc]
  have hids : (w.evidences.map Evidence.id).Nodup := by
    rw [hrow.evidences, List.map_append]
    refine h.ids.append (List.nodup_singleton _) ?_
    rw [List.map_singleton, List.disjoint_singleton]
    intro hmem
    obtain ⟨e, he, hid⟩ := List.mem_map.mp hmem
    exact hrow.id e he hid
  have hcalled : ({ p.system with analyzer := w } : System).toWorld.evidencesOf calls =
      p.system.toWorld.evidencesOf calls :=
    (evidencesOf_called hevidences hids h.called).trans
      (evidencesOf_called h.evidences h.ids h.called).symm
  refine ⟨hevidences, ?_, hids, ?_, h.called, ?_⟩
  · rw [hrow.aggregateEvidence, h.queue, List.map_append]
    rfl
  · intro e he
    rcases List.mem_append.mp he with he | he
    · exact h.tenants e he
    · obtain rfl := List.mem_singleton.mp he
      exact hrow.tenant
  · exact h.history.carry rfl rfl rfl (fun _ => rfl) hcalled

/-- The first evidence that waits is linked to the decision of its window. -/
theorem Pipeline.Grouped.aggregate (h : p.Grouped linked waiting calls) {evidenceId : String}
    {call : AggregateCall} (hhead : p.system.analyzer.aggregateEvidence.head? = some evidenceId)
    (hparse : Uuid.parse evidenceId = some call.evidenceId) (hraises : call.raisesAt = none)
    (hwindow : ∀ id tenant, p.system.config.tenants.find id = some tenant →
      0 ≤ tenant.aggregationWindowSecs)
    (hfresh : call.newId ∉ calls.map AggregateCall.newId) :
    ∃ evidence rest, waiting = evidence :: rest ∧
      (p.aggregate evidenceId call).Grouped (linked ++ [evidence]) rest (calls ++ [call]) := by
  cases waiting with
  | nil =>
    rw [h.queue] at hhead
    cases hhead
  | cons evidence rest =>
    rw [h.queue] at hhead
    obtain rfl : evidence.id.str = evidenceId := Option.some.inj hhead
    have hid : evidence.id = call.evidenceId := by
      rw [Uuid.parse_str] at hparse
      exact Option.some.inj hparse
    have hids := h.ids
    rw [h.evidences, List.map_append, List.map_cons] at hids
    have hnew : call.evidenceId ∉ calls.map AggregateCall.evidenceId := by
      rw [h.called, ← hid]
      intro hmem
      exact List.disjoint_of_nodup_append hids hmem List.mem_cons_self
    obtain ⟨tenant, htenant⟩ :=
      Option.isSome_iff_exists.mp (h.tenants evidence List.mem_cons_self)
    have hfound : p.system.toWorld.db.evidences.find call.evidenceId = some evidence := by
      rw [← hid]
      refine find_ofList_self h.ids ?_
      rw [h.evidences]
      exact List.mem_append_right _ List.mem_cons_self
    have hstep := h.history.step ⟨hraises, hfound, htenant, hwindow _ _ htenant⟩ hnew hfresh
    refine ⟨evidence, rest, rfl, ?_, ?_, h.ids, ?_, ?_, ?_⟩
    · rw [List.append_assoc]
      exact h.evidences
    · simp only [Pipeline.aggregate, h.queue, List.map_cons, List.erase_cons_head]
    · intro e he
      exact h.tenants e (List.mem_cons_of_mem _ he)
    · rw [List.map_append, List.map_append, h.called, List.map_singleton, List.map_singleton, hid]
    · exact hstep.carry rfl rfl rfl (fun _ => rfl) rfl

/-- The order of the stream is kept up to the evidences, and theirs up to the decisions. -/
structure Pipeline.Ordered (lib : AnalyzerLibrary) (enc : EncoderLibrary) (p : Pipeline)
    (accepted : List IngestCall) (calls : List AggregateCall) : Prop where
  flow : ∃ analyzed pending, analyzed ++ pending = accepted ∧ p.Flow lib enc analyzed pending
  grouped : ∃ linked waiting, p.Grouped linked waiting calls
  window : ∀ id tenant, p.system.config.tenants.find id = some tenant →
    0 ≤ tenant.aggregationWindowSecs

variable {accepted : List IngestCall}

theorem idempotencyKey_ne_open (call : IngestCall) (e : Evidence) :
    openDecisionKey e ≠ call.key :=
  (idempotencyKey_ne_openDecisionKey _ _ e).symm

theorem activeModeKey_ne_open (cameraId : Uuid) (e : Evidence) :
    openDecisionKey e ≠ activeModeKey cameraId := by
  unfold openDecisionKey activeModeKey
  exact append_ne_of_head (c := 'd') (d := 'c') rfl rfl (by decide)

theorem openDecisionKey_isPrefix (e : Evidence) :
    "decision:open:".toList.isPrefixOf (openDecisionKey e).toList = true := by
  rw [openDecisionKey, String.toList_append, List.isPrefixOf_iff_prefix]
  exact List.prefix_append _ _

theorem admin_tenants (call : AdminCall) (db : ConfigDb) :
    (call.serve db).2.tenants = db.tenants := by
  rw [serve_eq]
  split
  · unfold AdminCall.add
    cases call.body <;> rfl
  · rfl

theorem Pipeline.Ordered.accept (h : p.Ordered lib enc accepted calls) {call : IngestCall}
    (hforms : RoundTrips lib enc call.event) (replies : List Reply) (entryId : String) :
    ∃ new, new.Sublist [call] ∧
      (p.accept enc.texts call replies entryId).Ordered lib enc (accepted ++ new) calls := by
  obtain ⟨⟨analyzed, pending, rfl, hflow⟩, ⟨linked, waiting, hgrouped⟩, hwindow⟩ := h
  have hgrouped' : (p.accept enc.texts call replies entryId).Grouped linked waiting calls :=
    hgrouped.keys rfl rfl rfl fun e =>
      run_keys_of_ne (idempotencyKey_ne_open call e)
        (⟨p.system.world.keys, p.system.stream⟩, .begun)
  rcases hflow.accept hforms replies entryId with hsame | hput
  · refine ⟨[], List.nil_sublist _, ⟨analyzed, pending, ?_, hsame⟩, ⟨_, _, hgrouped'⟩, hwindow⟩
    rw [List.append_nil]
  · refine ⟨[call], List.Sublist.refl _, ⟨analyzed, _, ?_, hput⟩, ⟨_, _, hgrouped'⟩, hwindow⟩
    rw [List.append_assoc]

theorem Pipeline.Ordered.analyze (h : p.Ordered lib enc accepted calls)
    {entry : String × StreamFields} {attempt : AnalyzeAttempt} {retries : Nat}
    (hhead : p.group.tasks.head? = some entry) (hkeeps : p.keepsMessage lib entry attempt retries) :
    (p.analyze lib entry attempt retries).Ordered lib enc accepted calls := by
  obtain ⟨⟨analyzed, pending, rfl, hflow⟩, ⟨linked, waiting, hgrouped⟩, hwindow⟩ := h
  obtain ⟨entryId, fields⟩ := entry
  obtain ⟨rest, htasks⟩ : ∃ rest, p.group.tasks = (entryId, fields) :: rest :=
    List.head?_eq_some_iff.mp hhead
  have hentries := hflow.entries
  rw [htasks, List.cons_append, List.map_cons] at hentries
  cases pending with
  | nil => cases hentries
  | cons call pending =>
    rw [List.map_cons] at hentries
    obtain ⟨rfl, hrest⟩ := List.cons.inj hentries
    have hforms := hflow.forms call List.mem_cons_self
    unfold Pipeline.analyze
    rcases hx : exec (analyzeIngestMessage lib
      (p.system.meets lib attempt (enc.texts.payload call.event)) entryId
      (enc.texts.payload call.event) retries) p.system.analyzer with ⟨result, w'⟩
    rcases analyze_retried hforms hkeeps.1 hkeeps.2 hx with
      ⟨herror, hearly, rfl⟩ | ⟨hok, evidence, hrow⟩
    · have hretried : ¬maxRetries ≤ retries := by omega
      simp only [herror, hretried, Bool.false_eq_true, or_self, and_false, if_false]
      refine ⟨⟨analyzed, call :: pending, rfl, ⟨hflow.stream, hflow.entries, hflow.delivered,
        hflow.evidences, hflow.forms⟩⟩, ⟨linked, waiting, ?_⟩, hwindow⟩
      exact hgrouped.rebase rfl rfl hgrouped.history
    · simp only [hok, true_or, if_true, htasks, List.erase_cons_head]
      refine ⟨⟨analyzed ++ [call], pending, by simp, ⟨?_, hrest, hflow.delivered, ?_, ?_⟩⟩,
        ⟨linked, waiting ++ [evidence], hgrouped.analyze hrow⟩, hwindow⟩
      · rw [List.append_assoc]
        exact hflow.stream
      · rw [hrow.evidences]
        exact List.rel_append hflow.evidences (.cons hrow.made .nil)
      · intro c hc
        exact hflow.forms c (List.mem_cons_of_mem _ hc)

theorem Pipeline.Ordered.setKey (h : p.Ordered lib enc accepted calls) {key : String}
    (hkey : ∀ e, openDecisionKey e ≠ key) (entry : Option RedisEntry) :
    (p.setKey key entry).Ordered lib enc accepted calls := by
  obtain ⟨⟨analyzed, pending, rfl, hflow⟩, ⟨linked, waiting, hgrouped⟩, hwindow⟩ := h
  exact ⟨⟨analyzed, pending, rfl, hflow.of_same rfl rfl rfl⟩, ⟨linked, waiting,
    hgrouped.keys rfl rfl rfl fun e => Function.update_of_ne (hkey e) _ _⟩, hwindow⟩

theorem Pipeline.Ordered.stays (h : q.Ordered lib enc accepted calls) :
    ∃ new : List IngestCall, new.Sublist [] ∧
      q.Ordered lib enc (accepted ++ new) (calls ++ []) := by
  refine ⟨[], List.Sublist.refl _, ?_⟩
  rw [List.append_nil, List.append_nil]
  exact h

/-- The step lemma: a move in order keeps the order. -/
theorem Pipeline.Ordered.step (h : p.Ordered lib enc accepted calls) (horder : p.keepsOrder lib m)
    (hstep : Working lib enc.texts p m q)
    (hforms : ∀ call ∈ m.ingest?, RoundTrips lib enc call.event)
    (hfresh : ∀ call ∈ m.aggregation?, call.newId ∉ calls.map AggregateCall.newId) :
    ∃ new, new.Sublist m.ingest?.toList ∧
      q.Ordered lib enc (accepted ++ new) (calls ++ m.aggregation?.toList) := by
  obtain ⟨henabled, rfl⟩ := hstep
  cases m with
  | accept call replies entryId =>
    obtain ⟨new, hnew, hnext⟩ := h.accept (hforms call rfl) replies entryId
    exact ⟨new, hnew, (List.append_nil calls).symm ▸ hnext⟩
  | poll call =>
    obtain ⟨⟨analyzed, pending, rfl, hflow⟩, ⟨linked, waiting, hgrouped⟩, hwindow⟩ := h
    exact Pipeline.Ordered.stays ⟨⟨analyzed, pending, rfl, hflow.poll horder⟩,
      ⟨linked, waiting, hgrouped.rebase rfl rfl hgrouped.history⟩, hwindow⟩
  | analyze entry attempt retries =>
    exact (h.analyze horder.1 horder.2).stays
  | aggregate evidenceId call =>
    obtain ⟨⟨analyzed, pending, rfl, hflow⟩, ⟨linked, waiting, hgrouped⟩, hwindow⟩ := h
    obtain ⟨evidence, rest, rfl, hnext⟩ :=
      hgrouped.aggregate horder.1 henabled.2 horder.2 hwindow (hfresh call rfl)
    refine ⟨[], List.Sublist.refl _, ⟨analyzed, pending, ?_, hflow.of_same rfl rfl rfl⟩,
      ⟨_, rest, hnext⟩, hwindow⟩
    rw [List.append_nil]
  | resolve call =>
    obtain ⟨⟨analyzed, pending, rfl, hflow⟩, ⟨linked, waiting, hgrouped⟩, hwindow⟩ := h
    exact Pipeline.Ordered.stays ⟨⟨analyzed, pending, rfl, hflow.of_same rfl rfl rfl⟩,
      ⟨linked, waiting, hgrouped.resolve call⟩, hwindow⟩
  | admin call =>
    obtain ⟨⟨analyzed, pending, rfl, hflow⟩, ⟨linked, waiting, hgrouped⟩, hwindow⟩ := h
    have htenants : (p.system.admin call).config.tenants = p.system.config.tenants :=
      admin_tenants call p.system.config
    have hworld : (p.system.admin call).toWorld = p.system.toWorld := by
      unfold System.toWorld
      rw [htenants]
      rfl
    refine Pipeline.Ordered.stays ⟨⟨analyzed, pending, rfl, hflow.of_same rfl rfl rfl⟩,
      ⟨linked, waiting, hgrouped.rebase rfl htenants ?_⟩, ?_⟩
    · exact hworld.symm ▸ hgrouped.history
    · intro id tenant hfind
      exact hwindow id tenant (htenants ▸ hfind)
  | setActiveMode cameraId mode => exact (h.setKey (activeModeKey_ne_open cameraId) mode).stays
  | expireKey key =>
    refine (h.setKey ?_ none).stays
    rintro e rfl
    rw [Pipeline.keepsOrder, openDecisionKey_isPrefix] at horder
    cases horder

theorem filterMap_cons_toList {α β : Type} (f : α → Option β) (x : α) (xs : List α) :
    (x :: xs).filterMap f = (f x).toList ++ xs.filterMap f := by
  cases hx : f x with
  | none => rw [List.filterMap_cons_none hx]; rfl
  | some y => rw [List.filterMap_cons_some hx]; rfl

theorem Pipeline.Ordered.run {ms : List PipelineMove} (h : p.Ordered lib enc accepted calls)
    (hforms : ∀ call ∈ ms.filterMap PipelineMove.ingest?, RoundTrips lib enc call.event)
    (hids : ((calls ++ ms.filterMap PipelineMove.aggregation?).map AggregateCall.newId).Nodup)
    (hrun : Run (Where (Pipeline.keepsOrder lib) (Working lib enc.texts)) p ms q) :
    ∃ new, new.Sublist (ms.filterMap PipelineMove.ingest?) ∧
      q.Ordered lib enc (accepted ++ new) (calls ++ ms.filterMap PipelineMove.aggregation?) := by
  induction hrun generalizing accepted calls with
  | nil p => exact h.stays
  | @cons p q r m ms hstep _ ih =>
    rw [filterMap_cons_toList] at hforms
    rw [filterMap_cons_toList, ← List.append_assoc] at hids
    have hfresh : ∀ call ∈ m.aggregation?, call.newId ∉ calls.map AggregateCall.newId := by
      intro call hcall hmem
      rw [List.append_assoc, List.map_append, List.map_append] at hids
      refine List.disjoint_of_nodup_append hids hmem (List.mem_append_left _ ?_)
      exact List.mem_map_of_mem (Option.mem_toList.mpr hcall)
    obtain ⟨new, hnew, hq⟩ := h.step hstep.1 hstep.2
      (fun call hcall => hforms call (List.mem_append_left _ (Option.mem_toList.mpr hcall))) hfresh
    obtain ⟨later, hlater, hr⟩ :=
      ih hq (fun call hcall => hforms call (List.mem_append_right _ hcall)) hids
    refine ⟨new ++ later, ?_, ?_⟩
    · rw [filterMap_cons_toList]
      exact hnew.append hlater
    · rw [filterMap_cons_toList, ← List.append_assoc, ← List.append_assoc]
      exact hr

/-- With nothing accepted and no decision made, all is in order. -/
theorem Pipeline.Initial.ordered (h : p.Initial)
    (hdecisions : ∀ id, p.system.world.db.decisions.find id = none)
    (hopen : ∀ e, p.system.world.keys (openDecisionKey e) = none)
    (hwindow : ∀ id tenant, p.system.config.tenants.find id = some tenant →
      0 ≤ tenant.aggregationWindowSecs) : p.Ordered lib enc [] [] := by
  have hhistory : History p.system.toWorld p.system.toWorld [] := .start hdecisions h.links hopen
  have hevidences : p.system.analyzer.evidences = [] := congrArg AnalyzerWorld.evidences h.analyzer
  have hqueue : p.system.analyzer.aggregateEvidence = [] :=
    congrArg AnalyzerWorld.aggregateEvidence h.analyzer
  refine ⟨⟨[], [], rfl, ⟨h.stream, ?_, ?_, ?_, nofun⟩⟩,
    ⟨[], [], ⟨hevidences, hqueue, ?_, nofun, rfl, hhistory⟩⟩, hwindow⟩
  · simp [Pipeline.unread, h.group]
  · simp [h.group]
  · rw [hevidences]
    exact .nil
  · rw [hevidences]
    exact .nil

/-- The evidences are those of the first sequences on the stream, in its order, and of these
evidences the first ones make the decisions: one for each greedy window of each place. -/
structure Pipeline.InStreamOrder (p : Pipeline) (analyzed pending : List IngestCall)
    (linked waiting : List Evidence) : Prop where
  stream : p.system.stream = (analyzed ++ pending).map IngestCall.event
  pending : pending.length = (p.group.tasks ++ p.unread).length
  analyzed : List.Forall₂ Evidence.MadeFrom p.system.analyzer.evidences analyzed
  evidences : p.system.analyzer.evidences = linked ++ waiting
  waiting : p.system.analyzer.aggregateEvidence = waiting.map fun e => e.id.str
  windows : ∀ place, ∃ ps, ps.map Prod.snd = p.system.toWorld.segmentsAt place linked ∧
    Windows p.system.toWorld.db place (p.system.toWorld.widthAt place) ps ∧
    (ps.map Prod.fst).Pairwise fun d d' => d.windowEnd < d'.windowStart

theorem widthAt_of_window {s : System} (hwindow : ∀ id tenant,
    s.config.tenants.find id = some tenant → 0 ≤ tenant.aggregationWindowSecs) (place : Place) :
    0 ≤ s.toWorld.widthAt place := by
  have htenants : s.toWorld.db.tenants = s.config.tenants := rfl
  unfold World.widthAt
  rw [htenants]
  cases hfind : s.config.tenants.find place.tenantId with
  | none => exact Int.le_refl 0
  | some tenant =>
    have hsecs := hwindow _ _ hfind
    simp only [seconds]
    omega

theorem Pipeline.Ordered.inStreamOrder (h : p.Ordered lib enc accepted calls) :
    ∃ analyzed pending linked waiting, analyzed ++ pending = accepted ∧
      p.InStreamOrder analyzed pending linked waiting := by
  obtain ⟨⟨analyzed, pending, rfl, hflow⟩, ⟨linked, waiting, hgrouped⟩, hwindow⟩ := h
  have hpending := congrArg List.length hflow.entries
  rw [List.length_map, List.length_map] at hpending
  refine ⟨analyzed, pending, linked, waiting, rfl, hflow.stream, hpending.symm, hflow.evidences,
    hgrouped.evidences, hgrouped.queue, ?_⟩
  intro place
  obtain ⟨ps, hsegments, hw, -⟩ := hgrouped.history.windows place
  rw [evidencesOf_called hgrouped.evidences hgrouped.ids hgrouped.called] at hsegments
  refine ⟨ps, hsegments, hw, hw.pairwise ?_⟩
  rw [hsegments]
  have hwidth := widthAt_of_window hwindow place
  have hstop : ∀ e : Evidence,
      e.capturedAt ≤ e.capturedAt + p.system.toWorld.widthAt place := by
    intro e
    omega
  exact Segment.greedy_pairwise _ hstop

/-- When every stage keeps the order of its queue, the decisions of a place are at any time the
greedy windows of its sequences in the order in which they were accepted, as far as they have come;
once nothing is on its way, of all of them. -/
theorem windows_in_stream_order {ms : List PipelineMove} (h : p.Initial)
    (hdecisions : ∀ id, p.system.world.db.decisions.find id = none)
    (hopen : ∀ e, p.system.world.keys (openDecisionKey e) = none)
    (hwindow : ∀ id tenant, p.system.config.tenants.find id = some tenant →
      0 ≤ tenant.aggregationWindowSecs)
    (hforms : ∀ call ∈ ms.filterMap PipelineMove.ingest?, RoundTrips lib enc call.event)
    (hids : ((ms.filterMap PipelineMove.aggregation?).map AggregateCall.newId).Nodup)
    (hrun : Run (Where (Pipeline.keepsOrder lib) (Working lib enc.texts)) p ms q) :
    ∃ analyzed pending linked waiting,
      (analyzed ++ pending).Sublist (ms.filterMap PipelineMove.ingest?) ∧
      q.InStreamOrder analyzed pending linked waiting ∧
      (q.Drained → pending = [] ∧ waiting = []) := by
  obtain ⟨accepted, hsublist, hordered⟩ :=
    (h.ordered hdecisions hopen hwindow).run hforms hids hrun
  obtain ⟨analyzed, pending, linked, waiting, haccepted, horder⟩ := hordered.inStreamOrder
  rw [List.nil_append] at haccepted
  refine ⟨analyzed, pending, linked, waiting, haccepted.symm ▸ hsublist, horder, ?_⟩
  intro hdrained
  have hpending := horder.pending
  rw [hdrained.tasks, hdrained.unread] at hpending
  have hwaiting := horder.waiting
  rw [hdrained.aggregateEvidence] at hwaiting
  exact ⟨List.eq_nil_of_length_eq_zero hpending, List.map_eq_nil_iff.mp hwaiting.symm⟩

instance (lib : AnalyzerLibrary) (p : Pipeline) : ∀ m, Decidable (p.keepsOrder lib m)
  | .poll call => inferInstanceAs (Decidable (call.xreadgroup.executed = true →
      p.group.unread 10 ≠ [] → call.xreadgroup = .done ∧
        ∀ k < (p.group.unread 10).length, (call.delay k).executed = true ∧
          (k + 1 < (p.group.unread 10).length → (call.delay k).raises = false)))
  | .analyze entry attempt retries => inferInstanceAs (Decidable
      (p.group.tasks.head? = some entry ∧ attempt.FailsCleanly ∧
        (maxRetries ≤ retries → (exec (analyzeMessage lib (p.system.meets lib attempt entry.2)
          entry.1 entry.2) p.system.analyzer).1.isOk = true)))
  | .aggregate evidenceId call => inferInstanceAs (Decidable
      (p.system.analyzer.aggregateEvidence.head? = some evidenceId ∧ call.raisesAt = none))
  | .expireKey key => inferInstanceAs (Decidable
      ("decision:open:".toList.isPrefixOf key.toList = false))
  | .accept .. | .resolve _ | .admin _ | .setActiveMode .. => instDecidableTrue

def secondCall : IngestCall :=
  { sampleTwoFrames 1 with request := { (sampleTwoFrames 1).request with ingestionId := ⟨12⟩ } }

def secondUris : Json :=
  .arr (secondCall.event.frameUris.map .str)

def orderLibrary : AnalyzerLibrary :=
  { sampleLibrary with loads := fun text =>
      if text = sampleEncoder.dumps secondUris then .ok secondUris else sampleLoads text }

theorem loads_order {text : String} (h : text ≠ sampleEncoder.dumps secondUris) :
    orderLibrary.loads text = sampleDecoder.loads text :=
  if_neg h

theorem roundTrips_order : ∀ call ∈ [sampleTwoFrames 1, secondCall],
    RoundTrips orderLibrary sampleEncoder call.event := by
  have hobject : "{}" ≠ sampleEncoder.dumps secondUris := by decide +kernel
  have hempty : "" ≠ sampleEncoder.dumps secondUris := by decide +kernel
  have hfirst : sampleEncoder.dumps sampleUris ≠ sampleEncoder.dumps secondUris := by
    decide +kernel
  have hsample := roundTrips_sample
  have huris : Json.arr (secondCall.event.frameUris.map .str) = secondUris := rfl
  intro call hcall
  rcases List.mem_cons.mp hcall with rfl | hcall
  · refine ⟨(loads_order hobject).trans hsample.metadata,
      (loads_order hfirst).trans hsample.frameUris, hsample.capturedAt, ?_⟩
    intro value
    rw [loads_order hempty]
    exact hsample.empty value
  · obtain rfl := List.mem_singleton.mp hcall
    refine ⟨(loads_order hobject).trans hsample.metadata, ?_, hsample.capturedAt, ?_⟩
    · rw [huris]
      dsimp only [orderLibrary]
      rw [if_pos rfl]
    · intro value
      rw [loads_order hempty]
      exact hsample.empty value

/-- Two sequences of the camera, accepted before the first one is analyzed. The first try of its
analysis fails; the second one is analyzed at the last try. -/
def orderMoves : List PipelineMove :=
  let entry (call : IngestCall) (entryId : String) :=
    (entryId, sampleEncoder.texts.payload call.event)
  sampleMoves.take 5 ++
    [.accept (sampleTwoFrames 1) [.done, .done, .done, .done] "7-0",
      .accept secondCall [.done, .done, .done, .done] "8-0",
      .poll ⟨"vlm-1", .done, fun _ => .done⟩,
      .analyze (entry (sampleTwoFrames 1) "7-0") { sampleAttempt with commit := .failed } 0,
      .analyze (entry (sampleTwoFrames 1) "7-0") sampleAttempt 1,
      .aggregate (Uuid.str ⟨11⟩) (sampleAggregate 11 20),
      .analyze (entry secondCall "8-0") { sampleAttempt with evidenceId := ⟨12⟩ } 3,
      .aggregate (Uuid.str ⟨12⟩) (sampleAggregate 12 21)]

def orderFlow : Pipeline :=
  orderMoves.foldl (Pipeline.next orderLibrary sampleEncoder.texts) samplePipeline

theorem run_orderMoves :
    Run (Where (Pipeline.keepsOrder orderLibrary) (Working orderLibrary sampleEncoder.texts))
      samplePipeline (orderMoves.map id) orderFlow := by
  refine run_foldl (fun p m => decide (p.enabled m) && decide (p.keepsOrder orderLibrary m)) ?_ ?_
  · intro p m hok
    simp only [Bool.and_eq_true, decide_eq_true_eq] at hok
    exact ⟨hok.2, hok.1, rfl⟩
  · decide +kernel

theorem windows_in_stream_order_sample : ∃ linked,
    orderFlow.InStreamOrder [sampleTwoFrames 1, secondCall] [] linked [] := by
  have hstart : samplePipeline.Initial := ⟨rfl, rfl, rfl, rfl, rfl, rfl⟩
  have hwindow : ∀ id tenant, samplePipeline.system.config.tenants.find id = some tenant →
      0 ≤ tenant.aggregationWindowSecs := by
    intro id tenant hfind
    have hsame : tenant.aggregationWindowSecs = sampleTenant.aggregationWindowSecs := by
      simp only [samplePipeline, sampleSystem, KeyedTable.put, KeyedTable.empty,
        Function.update_apply] at hfind
      split at hfind
      · cases hfind
        rfl
      · split at hfind
        · cases hfind
          rfl
        · cases hfind
    rw [hsame]
    decide
  have hforms : ∀ call ∈ (orderMoves.map id).filterMap PipelineMove.ingest?,
      RoundTrips orderLibrary sampleEncoder call.event := roundTrips_order
  obtain ⟨analyzed, pending, linked, waiting, hsublist, horder, hdrained⟩ :=
    windows_in_stream_order hstart (fun _ => rfl) (fun _ => rfl) hwindow hforms (by decide)
      run_orderMoves
  have hend : orderFlow.unread = [] ∧ orderFlow.group.tasks = [] ∧ orderFlow.givenUp = [] ∧
      orderFlow.system.analyzer.dlq = [] ∧ orderFlow.system.analyzer.aggregateEvidence = [] ∧
      orderFlow.dropped = [] ∧ orderFlow.system.stream.length = 2 := by decide +kernel
  obtain ⟨hunread, htasks, hgivenUp, hdlq, hqueue, hdropped, hlength⟩ := hend
  obtain ⟨rfl, rfl⟩ := hdrained ⟨hunread, htasks, hgivenUp, hdlq, hqueue, hdropped⟩
  rw [horder.stream, List.length_map] at hlength
  have hall : analyzed ++ [] = [sampleTwoFrames 1, secondCall] := hsublist.eq_of_length hlength
  rw [List.append_nil] at hall
  exact ⟨linked, hall ▸ horder⟩

end Order

end ArgusServices

import ArgusServices.Pipeline
import ArgusServices.StrandedEvidence

namespace ArgusServices

open Effect Transition

section Accept

variable {call : IngestCall} {w : IngestStore} {r : Reply} {rs : List Reply}

/-- A call started at `w` holds its claim until it has put its event on the stream and after. -/
def IngestCall.Claims (call : IngestCall) (w : IngestStore) : IngestStore × IngestPhase → Prop
  | (u, .claimed) | (u, .modeChecked) | (u, .uploaded _) =>
    u.stream = w.stream ∧ (u.keys call.key).isSome
  | (u, .returned _) => u.stream = w.stream ∨ (u.keys call.key).isSome
  | (u, _) => u.stream = w.stream

theorem IngestCall.Claims.step {s : IngestStore × IngestPhase} (h : call.Claims w s)
    (hr : r ≠ .lost) : call.Claims w (call.step s r) := by
  obtain ⟨u, p⟩ := s
  cases r with
  | lost => exact absurd rfl hr
  | failed =>
    cases p with
    | claimed | modeChecked | uploaded _ => exact h.1
    | _ => exact h
  | done =>
    cases p with
    | begun =>
      simp only [IngestCall.step, IngestCall.advance]
      split
      · cases hkey : u.keys call.key with
        | none =>
          refine ⟨claim_stream.trans h, ?_⟩
          simp [IngestCall.claim, hkey]
        | some entry => exact Or.inl h
      · exact h
    | claimed =>
      simp only [IngestCall.step, IngestCall.advance]
      split
      · exact h
      · exact h.1
    | modeChecked =>
      simp only [IngestCall.step, IngestCall.advance]
      split
      · exact h
      · exact h.1
    | uploaded frameUris => exact Or.inr h.2
    | _ => exact h

theorem run_claims (hlost : .lost ∉ rs) : call.Claims w (call.run rs (w, .begun)) := by
  have hrun : ∀ s, call.Claims w s → call.Claims w (call.run rs s) := by
    induction rs with
    | nil => exact fun s h => h
    | cons r rs ih =>
      intro s h
      rw [List.mem_cons, not_or] at hlost
      exact ih hlost.2 _ (h.step (Ne.symm hlost.1))
  exact hrun _ rfl

/-- A call whose claim is new leaves the claim behind with its event. -/
theorem run_accepts (call : IngestCall) (w : IngestStore) (hlost : .lost ∉ rs) :
    (call.run rs (w, .begun)).1.stream = w.stream ∨ w.keys call.key = none ∧
      ((call.run rs (w, .begun)).1.keys call.key).isSome ∧ ∃ frameUris,
        (call.run rs (w, .begun)).1.stream = w.stream ++ [ingestEvent call.request frameUris] := by
  rcases run_stream call w rs with hsame | ⟨-, frameUris, hput⟩
  · exact Or.inl hsame
  · have hnew : (call.run rs (w, .begun)).1.stream ≠ w.stream := by
      rw [hput]
      simp
    refine Or.inr ⟨((run_begun call w rs).mp hnew).2.2.2.2, ?_, frameUris, hput⟩
    have hclaims : call.Claims w (call.run rs (w, .begun)) := run_claims hlost
    generalize call.run rs (w, .begun) = s at hclaims hnew
    obtain ⟨u, p⟩ := s
    cases p with
    | claimed | modeChecked | uploaded _ => exact hclaims.2
    | returned _ => exact hclaims.resolve_left hnew
    | _ => exact absurd hclaims hnew

theorem run_ended {p : IngestPhase} (hp : p.ended = true) (rs : List Reply) :
    call.run rs (w, p) = (w, p) := by
  induction rs with
  | nil => rfl
  | cons r rs ih => rw [run_cons, step_ended hp, ih]

/-- A call that finds the claim of another one leaves all as it is. -/
theorem run_taken (hkey : (w.keys call.key).isSome) (hlost : .lost ∉ rs) :
    (call.run rs (w, .begun)).1 = w := by
  obtain ⟨entry, hentry⟩ := Option.isSome_iff_exists.mp hkey
  cases rs with
  | nil => rfl
  | cons r rs =>
    rw [List.mem_cons, not_or] at hlost
    rw [run_cons]
    cases r with
    | lost => exact absurd rfl hlost.1
    | failed => exact congrArg Prod.fst (run_ended rfl rs)
    | done =>
      simp only [IngestCall.step, IngestCall.advance, hentry]
      split <;> exact congrArg Prod.fst (run_ended rfl rs)

end Accept

section Poll

variable {g : ConsumerGroup} {call : PollCall}

theorem drop_length_take {α : Type} (xs : List α) (n : Nat) :
    xs.drop (xs.take n).length = xs.drop n := by
  rw [List.length_take]
  rcases Nat.le_total n xs.length with h | h
  · rw [Nat.min_eq_left h]
  · rw [Nat.min_eq_right h, List.drop_length, List.drop_eq_nil_of_le h]

/-- A poll that hands over what it reads moves the next entries to the tasks. -/
theorem poll_moves (h : HandsOver g (.poll call)) (hg : g.delivered ≤ g.entries.length) :
    ∃ n, (exec (processIngestStreamBatch call) g).2.entries.drop
          (exec (processIngestStreamBatch call) g).2.delivered =
        (g.entries.drop g.delivered).drop n ∧
      (exec (processIngestStreamBatch call) g).2.tasks =
        g.tasks ++ (g.entries.drop g.delivered).take n ∧
      (exec (processIngestStreamBatch call) g).2.delivered ≤
        (exec (processIngestStreamBatch call) g).2.entries.length := by
  rw [poll_state]
  by_cases hread : call.xreadgroup.executed = true
  · rw [if_pos hread]
    have hands : call.hands (g.unread 10) = g.unread 10 := by
      by_cases hempty : g.unread 10 = []
      · rw [hempty]
        unfold PollCall.hands
        split <;> rfl
      · obtain ⟨hdone, hdelays⟩ := h hread hempty
        unfold PollCall.hands
        rw [if_pos hdone, handed_eq_iff]
        simpa using hdelays
    refine ⟨10, ?_, ?_, ?_⟩
    · simp only [ConsumerGroup.read, ConsumerGroup.unread, ← List.drop_drop]
      exact drop_length_take _ _
    · exact congrArg (g.tasks ++ ·) hands
    · simp only [ConsumerGroup.read, ConsumerGroup.unread, List.length_take, List.length_drop]
      omega
  · rw [if_neg hread]
    exact ⟨0, rfl, by simp, hg⟩

end Poll

section Analyze

variable {lib : AnalyzerLibrary} {attempt : AnalyzeAttempt} {messageId : String}
  {fields : StreamFields} {w w' : AnalyzerWorld} {retries : Nat} {evidence : Evidence}

/-- The row of a message is added and its aggregation enqueued. -/
structure Enqueued (fields : StreamFields) (w w' : AnalyzerWorld) (evidence : Evidence) :
    Prop where
  names : fields.names evidence
  id : ∀ e ∈ w.evidences, e.id ≠ evidence.id
  evidences : w'.evidences = w.evidences ++ [evidence]
  dlq : w'.dlq = w.dlq
  aggregateEvidence : w'.aggregateEvidence = w.aggregateEvidence ++ [evidence.id.str]

/-- A message is moved to the dead letters. -/
structure Buried (fields : StreamFields) (w w' : AnalyzerWorld) (error : String) : Prop where
  evidences : w'.evidences = w.evidences
  dlq : w'.dlq = w.dlq ++ [fields.set "error" error]
  aggregateEvidence : w'.aggregateEvidence = w.aggregateEvidence

theorem ends_analyzeMessage_cleanly (h : attempt.FailsCleanly) :
    Ends (analyzeMessage lib attempt messageId fields) w
      (fun _ t => ∃ evidence, Enqueued fields w t evidence) fun _ t => t = w := by
  unfold analyzeMessage
  rw [ends_bind, ends_ofExcept]
  refine ⟨?_, fun _ _ => rfl⟩
  intro message hm
  rw [ends_bind, ends_ofExcept]
  refine ⟨?_, fun _ _ => rfl⟩
  intro evidence he
  rw [ends_bind, ends_raiseWhen]
  refine ⟨fun _ => rfl, fun _ => ?_⟩
  rw [ends_bind, ends_get, ends_bind, ends_raiseWhen]
  refine ⟨fun _ => rfl, fun hkey => ?_⟩
  rw [ends_bind, ends_raiseWhen]
  refine ⟨fun _ => rfl, fun _ => ?_⟩
  rw [ends_bind, ends_command]
  cases hc : attempt.commit with
  | lost => exact absurd hc h.commit
  | failed => exact ⟨fun _ => rfl, nofun⟩
  | done =>
    obtain ⟨hx, hq⟩ := h.committed hc
    refine ⟨nofun, fun _ => ?_⟩
    simp only [Reply.executed, if_true, ends_bind, ends_maybeXack, ends_command, ends_pure, hx, hq,
      Reply.raises, Bool.and_false, Bool.false_eq_true, false_implies, true_and, true_implies]
    have hnames := (analyze_names hm he).1
    have hid : ∀ e ∈ w.evidences, e.id ≠ evidence.id := by
      intro e hmem
      simpa using List.any_eq_false.mp hkey e hmem
    refine ⟨evidence, ?_⟩
    split <;> exact ⟨hnames, hid, rfl, rfl, rfl⟩

theorem ends_analyzeIngestMessage_cleanly (lib : AnalyzerLibrary) (messageId : String)
    (fields : StreamFields) (w : AnalyzerWorld) (retries : Nat) (h : attempt.FailsCleanly) :
    Ends (analyzeIngestMessage lib attempt messageId fields retries) w
      (fun _ t => (∃ evidence, Enqueued fields w t evidence) ∨ ∃ error, Buried fields w t error)
      fun _ t => t = w := by
  unfold analyzeIngestMessage
  rw [ends_tryCatch, ends_bind]
  refine (ends_analyzeMessage_cleanly h).mono ?_ ?_
  · intro _ t ht
    exact ends_pure.mpr (Or.inl ht)
  · intro exc t ht
    subst ht
    split
    · rw [ends_bind, ends_command]
      cases hm : attempt.moveToDlq with
      | lost => exact absurd hm h.moved
      | failed => exact ⟨fun _ => rfl, nofun⟩
      | done =>
        refine ⟨nofun, fun _ => ?_⟩
        rw [ends_bind, ends_command, h.buried hm]
        refine ⟨nofun, fun _ => ?_⟩
        exact ends_pure.mpr (Or.inr ⟨_, rfl, rfl, rfl⟩)
    · exact ends_throw.mpr rfl

/-- A try that fails cleanly: the task is done with the row or with a dead letter, or nothing has
happened. -/
theorem analyzeIngestMessage_cases (h : attempt.FailsCleanly) {result : Except Exn (Option String)}
    (hx : exec (analyzeIngestMessage lib attempt messageId fields retries) w = (result, w')) :
    (result.isOk = false ∧ w' = w) ∨ (result.isOk = true ∧
      ((∃ evidence, Enqueued fields w w' evidence) ∨ ∃ error, Buried fields w w' error)) := by
  have hends := ends_analyzeIngestMessage_cleanly lib messageId fields w retries h
  cases result with
  | error e => exact Or.inl ⟨rfl, hends.error hx⟩
  | ok a => exact Or.inr ⟨rfl, hends.ok hx⟩

theorem name_of_names (h : fields.names evidence) : fields.name = evidence.name := by
  unfold StreamFields.name
  rw [h.1, h.2]
  rfl

theorem name_set (fields : StreamFields) (error : String) :
    (fields.set "error" error).name = fields.name := by
  unfold StreamFields.name
  rw [lookup_set_of_ne (by decide), lookup_set_of_ne (by decide)]

end Analyze

section Aggregate

variable {call : AggregateCall} {w : World}

theorem aggregate_result (hclean : call.raisesAt ≠ some .closeSession) :
    ((ArgusServices.aggregate call w).1.isOk = false ∧
        (ArgusServices.aggregate call w).2.db = w.db) ∨
      (ArgusServices.aggregate call w).1.isOk = true ∧ ∃ evidence tenant d,
        Committed call w (ArgusServices.aggregate call w).2 evidence tenant d := by
  cases hresult : (ArgusServices.aggregate call w).1 with
  | error e => exact Or.inl ⟨rfl, (failed_left hresult hclean).1⟩
  | ok d =>
    refine Or.inr ⟨rfl, ?_⟩
    have hends := aggregateBody_ends call w
    unfold ArgusServices.aggregate runSession at hresult ⊢
    rcases hx : exec (aggregateBody call) (Session.open w) with ⟨r | r, t⟩
    · rw [hx] at hresult
      cases hresult
    · exact hends.ok hx

/-- A call changes open keys only. -/
theorem aggregate_keys {key : String} (h : ∀ e, key ≠ openDecisionKey e) :
    (ArgusServices.aggregate call w).2.keys key = w.keys key := by
  rcases aggregate_cases call w with hr | ⟨evidence, tenant, d, hc⟩
  · rcases hr.leftover with hsame | ⟨evidence, tenant, -, -, hleft⟩
    · rw [hsame]
    · generalize (ArgusServices.aggregate call w).2 = u at hleft
      have hne := h evidence
      cases hleft with
      | untouched => rfl
      | keyDeleted => simp only [Function.update_apply, if_neg hne]
      | decided htarget _ => exact htarget.keys_of_ne hne
  · exact hc.target.keys_of_ne (h evidence)

theorem idempotencyKey_ne_openDecisionKey (t i : Uuid) (e : Evidence) :
    idempotencyKey t i ≠ openDecisionKey e := by
  unfold idempotencyKey openDecisionKey
  exact append_ne_of_head (c := 'i') (d := 'd') rfl rfl (by decide)

end Aggregate

variable {lib : AnalyzerLibrary} {texts : FieldTexts} {p q : Pipeline} {m : PipelineMove}

/-- What keeps sequences apart: an accepted one has its claim in Redis. -/
structure Pipeline.Steady (p : Pipeline) : Prop extends p.Conserved where
  delivered : p.group.delivered ≤ p.group.entries.length
  claimed : ∀ event ∈ p.system.stream, ∃ t i, event.name = some (t, i) ∧
    (p.system.world.keys (idempotencyKey t i)).isSome

theorem Pipeline.Steady.keys (h : p.Steady) {keys : String → Option RedisEntry}
    (hkeys : ∀ t i, keys (idempotencyKey t i) = p.system.world.keys (idempotencyKey t i)) :
    Pipeline.Steady { p with system := { p.system with world := { p.system.world with
      keys := keys } } } := by
  refine ⟨⟨h.sequences, h.evidences, h.names, h.ids⟩, h.delivered, ?_⟩
  intro event hevent
  obtain ⟨t, i, hname, hkey⟩ := h.claimed event hevent
  refine ⟨t, i, hname, ?_⟩
  rw [← hkeys] at hkey
  exact hkey

theorem ingestEvent_name (request : IngestSequenceRequest) (frameUris : List String) :
    (ingestEvent request frameUris).name = some (request.tenantId, request.ingestionId) := by
  simp [IngestEvent.name, ingestEvent, Uuid.parse_str]

theorem payload_name (texts : FieldTexts) (event : IngestEvent) :
    (texts.payload event).name = event.name := by
  have htenant : (texts.payload event).lookup "tenant_id" = some event.tenantId := rfl
  have hingestion : (texts.payload event).lookup "ingestion_id" = some event.ingestionId := rfl
  simp only [StreamFields.name, IngestEvent.name, htenant, hingestion, Option.bind_some]

theorem Pipeline.accept_group {call : IngestCall} {replies : List Reply}
    (hsame : (p.system.accept call replies).stream = p.system.stream) (entryId : String) :
    (p.accept texts call replies entryId).group = p.group := by
  simp [Pipeline.accept, hsame]

theorem Pipeline.accept_unread {call : IngestCall} {replies : List Reply} {event : IngestEvent}
    (hput : (p.system.accept call replies).stream = p.system.stream ++ [event])
    (hdelivered : p.group.delivered ≤ p.group.entries.length) (entryId : String) :
    (p.accept texts call replies entryId).unread =
      p.unread ++ [(entryId, texts.payload event)] := by
  simp only [Pipeline.unread, Pipeline.accept, hput, List.drop_left, List.map_singleton]
  exact List.drop_append_of_le_length hdelivered

theorem Pipeline.accept_delivered (h : p.group.delivered ≤ p.group.entries.length)
    (call : IngestCall) (replies : List Reply) (entryId : String) :
    (p.accept texts call replies entryId).group.delivered ≤
      (p.accept texts call replies entryId).group.entries.length := by
  simpa [Pipeline.accept] using Nat.le_add_right_of_le h

theorem Pipeline.Steady.accept (h : p.Steady) {call : IngestCall} {replies : List Reply}
    (hlost : .lost ∉ replies) (entryId : String) :
    (p.accept texts call replies entryId).Steady := by
  have hkept : ∀ t i, (p.system.world.keys (idempotencyKey t i)).isSome →
      ((p.system.accept call replies).world.keys (idempotencyKey t i)).isSome := by
    intro t i hkey
    by_cases hcall : idempotencyKey t i = call.key
    · have hsame := run_taken (w := ⟨p.system.world.keys, p.system.stream⟩) (hcall ▸ hkey) hlost
      have hkeys : (p.system.accept call replies).world.keys = p.system.world.keys :=
        congrArg IngestStore.keys hsame
      rw [hkeys]
      exact hkey
    · have hsame : (p.system.accept call replies).world.keys (idempotencyKey t i) =
          p.system.world.keys (idempotencyKey t i) :=
        run_keys_of_ne hcall (⟨p.system.world.keys, p.system.stream⟩, .begun)
      rw [hsame]
      exact hkey
  rcases run_accepts call ⟨p.system.world.keys, p.system.stream⟩ hlost with
    hsame | ⟨hfree, hclaim, frameUris, hput⟩
  · have hstream : (p.system.accept call replies).stream = p.system.stream := hsame
    have hentries : (p.accept texts call replies entryId).group = p.group :=
      Pipeline.accept_group hstream entryId
    refine ⟨⟨?_, h.evidences, ?_, h.ids⟩, ?_, ?_⟩
    · simp only [Pipeline.sequences, Pipeline.unread, hentries]
      rw [show (p.accept texts call replies entryId).system.stream = _ from hstream]
      exact h.sequences
    · rw [show (p.accept texts call replies entryId).system.stream = _ from hstream]
      exact h.names
    · exact Pipeline.accept_delivered h.delivered call replies entryId
    · intro event hevent
      rw [show (p.accept texts call replies entryId).system.stream = _ from hstream] at hevent
      obtain ⟨t, i, hname, hkey⟩ := h.claimed event hevent
      exact ⟨t, i, hname, hkept t i hkey⟩
  · have hstream : (p.accept texts call replies entryId).system.stream =
        p.system.stream ++ [ingestEvent call.request frameUris] := hput
    have hentries : (p.accept texts call replies entryId).unread =
        p.unread ++ [(entryId, texts.payload (ingestEvent call.request frameUris))] :=
      Pipeline.accept_unread hput h.delivered entryId
    have hnew : some (call.request.tenantId, call.request.ingestionId) ∉
        p.system.stream.map IngestEvent.name := by
      intro hmem
      obtain ⟨event, hevent, hname⟩ := List.mem_map.mp hmem
      obtain ⟨t, i, hname', hkey⟩ := h.claimed event hevent
      obtain ⟨rfl, rfl⟩ := Prod.mk.inj (Option.some.inj (hname.symm.trans hname'))
      have hnone : p.system.world.keys (idempotencyKey call.request.tenantId
          call.request.ingestionId) = none := hfree
      rw [hnone] at hkey
      cases hkey
    refine ⟨⟨?_, h.evidences, ?_, h.ids⟩, ?_, ?_⟩
    · have hcons := (h.sequences.append_right
        [(ingestEvent call.request frameUris).name]).trans List.perm_append_comm
      rw [hstream, List.map_append, List.map_singleton, Pipeline.sequences, hentries,
        List.map_append, List.map_singleton, payload_name, List.append_assoc, List.append_assoc,
        List.append_assoc]
      refine hcons.trans ?_
      simp only [Pipeline.sequences, List.append_assoc]
      exact List.perm_append_comm_assoc _ _ _
    · rw [hstream, List.map_append, List.map_singleton, ingestEvent_name]
      exact h.names.append (List.nodup_singleton _) (by simpa using hnew)
    · exact Pipeline.accept_delivered h.delivered call replies entryId
    · intro event hevent
      rw [hstream] at hevent
      rcases List.mem_append.mp hevent with hevent | hevent
      · obtain ⟨t, i, hname, hkey⟩ := h.claimed event hevent
        exact ⟨t, i, hname, hkept t i hkey⟩
      · obtain rfl := List.mem_singleton.mp hevent
        exact ⟨_, _, ingestEvent_name _ _, hclaim⟩

theorem Pipeline.Steady.poll (h : p.Steady) {call : PollCall}
    (hover : HandsOver p.group (.poll call)) : (p.poll call).Steady := by
  obtain ⟨n, hunread, htasks, hdelivered⟩ := poll_moves hover h.delivered
  refine ⟨⟨?_, h.evidences, h.names, h.ids⟩, hdelivered, h.claimed⟩
  have hunread' : (p.poll call).unread = p.unread.drop n := hunread
  have htasks' : (p.poll call).group.tasks = p.group.tasks ++ p.unread.take n := htasks
  refine h.sequences.trans ?_
  simp only [Pipeline.sequences, hunread', htasks']
  refine .append_right _ (.append_right _ (.append_right _ ?_))
  rw [← List.map_append, ← List.map_append]
  refine .map _ ?_
  rw [← List.append_assoc]
  have hsplit : (p.unread ++ p.group.tasks).Perm
      (p.unread.take n ++ (p.unread.drop n ++ p.group.tasks)) :=
    .of_eq (by rw [← List.append_assoc, List.take_append_drop])
  exact hsplit.trans List.perm_append_comm

theorem erase_perm {α β : Type} [BEq α] [LawfulBEq α] (f : α → β) {xs : List α} {a : α}
    (ha : a ∈ xs) :
    (xs.map f).Perm ((xs.erase a).map f ++ [f a]) :=
  ((List.perm_cons_erase ha).map f).trans (List.perm_append_singleton _ _).symm

theorem Pipeline.Steady.analyze (h : p.Steady) {entry : String × StreamFields}
    {attempt : AnalyzeAttempt} {retries : Nat} (hentry : entry ∈ p.group.tasks)
    (hclean : attempt.FailsCleanly) : (p.analyze lib entry attempt retries).Steady := by
  have hmeets : (p.system.meets lib attempt entry.2).FailsCleanly :=
    ⟨hclean.commit, hclean.committed, hclean.moved, hclean.buried⟩
  have htask := erase_perm (fun entry : String × StreamFields => entry.2.name) hentry
  unfold Pipeline.analyze
  rcases hx : exec (analyzeIngestMessage lib (p.system.meets lib attempt entry.2) entry.1 entry.2
    retries) p.system.analyzer with ⟨result, w'⟩
  rcases analyzeIngestMessage_cases hmeets hx with
    ⟨herror, rfl⟩ | ⟨hok, ⟨evidence, hdone⟩ | ⟨error, hdone⟩⟩
  · refine ⟨⟨?_, h.evidences, h.names, h.ids⟩, h.delivered, h.claimed⟩
    by_cases hlast : maxRetries ≤ retries
    · simp only [Pipeline.sequences, Pipeline.unread, herror, hlast, or_true, and_self, if_true,
        List.map_append, List.map_singleton]
      refine h.sequences.trans (List.perm_iff_count.mpr fun name => ?_)
      have hcount := htask.count_eq name
      simp only [Pipeline.sequences, Pipeline.unread, List.count_append] at hcount ⊢
      omega
    · simp only [herror, hlast, Bool.false_eq_true, or_self, and_false, if_false]
      exact h.sequences
  · simp only [hok, true_or, if_true, Bool.true_eq_false, false_and, if_false]
    refine ⟨⟨?_, ?_, h.names, ?_⟩, h.delivered, h.claimed⟩
    · refine h.sequences.trans ?_
      simp only [Pipeline.sequences, Pipeline.unread, hdone.dlq, hdone.evidences, List.map_append,
        List.map_singleton, ← name_of_names hdone.names]
      refine List.perm_iff_count.mpr fun name => ?_
      have hcount := htask.count_eq name
      simp only [List.count_append] at hcount ⊢
      omega
    · simp only [Pipeline.aggregations, hdone.evidences, hdone.aggregateEvidence, List.map_append,
        List.map_singleton]
      refine List.perm_iff_count.mpr fun id => ?_
      have hcount := h.evidences.count_eq id
      simp only [Pipeline.aggregations, List.count_append] at hcount ⊢
      omega
    · simp only [hdone.evidences, List.map_append, List.map_singleton]
      refine h.ids.append (List.nodup_singleton _) ?_
      rw [List.disjoint_singleton]
      intro hmem
      obtain ⟨e, he, hid⟩ := List.mem_map.mp hmem
      exact hdone.id e he hid
  · simp only [hok, true_or, if_true, Bool.true_eq_false, false_and, if_false]
    refine ⟨⟨?_, ?_, h.names, ?_⟩, h.delivered, h.claimed⟩
    · refine h.sequences.trans ?_
      simp only [Pipeline.sequences, Pipeline.unread, hdone.dlq, hdone.evidences, List.map_append,
        List.map_singleton, name_set]
      refine List.perm_iff_count.mpr fun name => ?_
      have hcount := htask.count_eq name
      simp only [List.count_append] at hcount ⊢
      omega
    · simp only [Pipeline.aggregations, hdone.evidences, hdone.aggregateEvidence]
      exact h.evidences
    · simp only [hdone.evidences]
      exact h.ids

theorem Pipeline.Steady.links_once (h : p.Steady) :
    p.aggregations.Nodup := by
  refine (h.evidences.nodup_iff).mp ?_
  have hmap : p.system.analyzer.evidences.map (fun e => e.id.str) =
      (p.system.analyzer.evidences.map Evidence.id).map Uuid.str := by
    rw [List.map_map]
    rfl
  rw [hmap]
  exact h.ids.map fun _ _ heq => Uuid.str_injective heq

theorem toWorld_links (s : System) :
    s.toWorld.db.decisionEvidences = s.world.db.decisionEvidences := rfl

theorem Pipeline.Steady.aggregate (h : p.Steady) {evidenceId : String} {call : AggregateCall}
    (hmem : evidenceId ∈ p.system.analyzer.aggregateEvidence)
    (hparse : Uuid.parse evidenceId = some call.evidenceId)
    (hclean : call.raisesAt ≠ some .closeSession) : (p.aggregate evidenceId call).Steady := by
  have hkeys : ∀ t i, (ArgusServices.aggregate call p.system.toWorld).2.keys (idempotencyKey t i) =
      p.system.world.keys (idempotencyKey t i) :=
    fun t i => aggregate_keys (idempotencyKey_ne_openDecisionKey t i)
  have hclaimed : ∀ event ∈ p.system.stream, ∃ t i, event.name = some (t, i) ∧
      ((ArgusServices.aggregate call p.system.toWorld).2.keys (idempotencyKey t i)).isSome := by
    intro event hevent
    obtain ⟨t, i, hname, hkey⟩ := h.claimed event hevent
    rw [← hkeys] at hkey
    exact ⟨t, i, hname, hkey⟩
  have htask := erase_perm id hmem
  rw [List.map_id, List.map_id, id] at htask
  refine ⟨⟨h.sequences, h.evidences.trans ?_, h.names, h.ids⟩, h.delivered, hclaimed⟩
  rcases aggregate_result (w := p.system.toWorld) hclean with
    ⟨herror, hdb⟩ | ⟨hok, evidence, tenant, d, hc⟩
  · simp only [Pipeline.aggregations, Pipeline.aggregate, herror, hdb, Bool.false_eq_true,
      if_false, toWorld_links]
    refine List.perm_iff_count.mpr fun id => ?_
    have hcount := htask.count_eq id
    simp only [List.count_append] at hcount ⊢
    omega
  · have hid : evidence.id = call.evidenceId :=
      p.system.toWorld.db.evidences.keyed _ _ hc.evidence_found
    have hev : evidence ∈ p.system.analyzer.evidences :=
      KeyedTable.mem_of_find_ofList hc.evidence_found
    have htext : evidenceId = evidence.id.str := by
      have hall : evidenceId ∈ p.system.analyzer.evidences.map fun e => e.id.str :=
        h.evidences.symm.subset (List.mem_append_left _ (List.mem_append_left _ hmem))
      obtain ⟨e, -, rfl⟩ := List.mem_map.mp hall
      rw [Uuid.parse_str] at hparse
      rw [Option.some.inj hparse, hid]
    have hlinked : p.system.toWorld.db.linked d.id evidence.id = false := by
      by_contra hlinked
      obtain ⟨l, hl, hmatch⟩ := List.any_eq_true.mp (eq_true_of_ne_false hlinked)
      have hle : l.evidenceId = evidence.id := by
        simp only [Bool.and_eq_true, decide_eq_true_eq] at hmatch
        exact hmatch.2
      have hin : evidenceId ∈ p.system.world.db.decisionEvidences.map fun l => l.evidenceId.str :=
        List.mem_map.mpr ⟨l, hl, by rw [hle, htext]⟩
      exact List.disjoint_of_nodup_append h.links_once (List.mem_append_left _ hmem) hin
    simp only [Pipeline.aggregations, Pipeline.aggregate, hok, hc.links, newLinks_of_new hlinked,
      if_true, List.map_append, List.map_singleton, linkRow, ← htext, toWorld_links]
    refine List.perm_iff_count.mpr fun id => ?_
    have hcount := htask.count_eq id
    simp only [List.count_append] at hcount ⊢
    omega

theorem Pipeline.Steady.resolve (h : p.Steady) (call : ResolveCall) : (p.resolve call).Steady := by
  have hworld : (resolveDecision call p.system.toWorld).2.keys = p.system.world.keys ∧
      (resolveDecision call p.system.toWorld).2.db.decisionEvidences =
        p.system.world.db.decisionEvidences := by
    rcases resolveDecision_cases call p.system.toWorld with hr | ⟨d, hr⟩
    · generalize (resolveDecision call p.system.toWorld).2 = u at hr
      cases hr <;> exact ⟨rfl, rfl⟩
    · rw [hr.world]
      exact ⟨rfl, rfl⟩
  refine ⟨⟨h.sequences, ?_, h.names, h.ids⟩, h.delivered, ?_⟩
  · simp only [Pipeline.aggregations, Pipeline.resolve, hworld.2]
    exact h.evidences
  · intro event hevent
    obtain ⟨t, i, hname, hkey⟩ := h.claimed event hevent
    refine ⟨t, i, hname, ?_⟩
    simp only [Pipeline.resolve, hworld.1]
    exact hkey

theorem idempotencyKey_isPrefix (t i : Uuid) :
    "ingest:idem:".toList.isPrefixOf (idempotencyKey t i).toList = true := by
  rw [idempotencyKey, String.toList_append, List.isPrefixOf_iff_prefix]
  exact List.prefix_append _ _

/-- The step lemma: a move that fails cleanly, if it fails, moves sequences on and loses none. -/
theorem Pipeline.Steady.step (h : p.Steady) (hclean : p.failsCleanly m)
    (hstep : Working lib texts p m q) : q.Steady := by
  obtain ⟨henabled, rfl⟩ := hstep
  cases m with
  | accept call replies entryId => exact h.accept hclean entryId
  | poll call => exact h.poll hclean
  | analyze entry attempt retries => exact h.analyze henabled hclean
  | aggregate evidenceId call => exact h.aggregate henabled.1 henabled.2 hclean
  | resolve call => exact h.resolve call
  | admin call => exact ⟨⟨h.sequences, h.evidences, h.names, h.ids⟩, h.delivered, h.claimed⟩
  | setActiveMode cameraId mode =>
    exact h.keys fun t i => Function.update_of_ne (idempotencyKey_ne_activeModeKey t i cameraId) _ _
  | expireKey key =>
    refine h.keys fun t i => Function.update_of_ne ?_ _ _
    rintro rfl
    rw [Pipeline.failsCleanly, idempotencyKey_isPrefix] at hclean
    cases hclean

theorem Pipeline.Initial.steady (h : p.Initial) : p.Steady := by
  refine ⟨⟨?_, ?_, ?_, ?_⟩, ?_, ?_⟩
  · simp [Pipeline.sequences, Pipeline.unread, h.stream, h.group, h.givenUp, h.analyzer]
  · simp [Pipeline.aggregations, h.analyzer, h.links, h.dropped]
  · simp [h.stream]
  · simp [h.analyzer]
  · simp [h.group]
  · simp [h.stream]

/-- Nothing is on its way any more, and nothing has been given up. -/
structure Pipeline.Drained (p : Pipeline) : Prop where
  unread : p.unread = []
  tasks : p.group.tasks = []
  givenUp : p.givenUp = []
  dlq : p.system.analyzer.dlq = []
  aggregateEvidence : p.system.analyzer.aggregateEvidence = []
  dropped : p.dropped = []

/-- Every accepted sequence has one evidence, that one link, and there are no others. -/
structure Pipeline.Linked (p : Pipeline) : Prop where
  analyzed : (p.system.stream.map IngestEvent.name).Perm
    (p.system.analyzer.evidences.map Evidence.name)
  linked : (p.system.analyzer.evidences.map Evidence.id).Perm
    (p.system.world.db.decisionEvidences.map DecisionEvidence.evidenceId)
  once : (p.system.world.db.decisionEvidences.map DecisionEvidence.evidenceId).Nodup

theorem Pipeline.Drained.linked (h : p.Drained) (hc : p.Conserved) : p.Linked := by
  have hsequences := hc.sequences
  simp only [Pipeline.sequences, h.unread, h.tasks, h.givenUp, h.dlq, List.map_nil,
    List.nil_append]
    at hsequences
  have hevidences := hc.evidences
  simp only [Pipeline.aggregations, h.aggregateEvidence, h.dropped, List.nil_append]
    at hevidences
  have hids : (p.system.analyzer.evidences.map Evidence.id).Perm
      (p.system.world.db.decisionEvidences.map DecisionEvidence.evidenceId) := by
    refine (List.map_perm_map_iff Uuid.str_injective).mp ?_
    simpa only [List.map_map, Function.comp_def] using hevidences
  exact ⟨hsequences, hids, hids.nodup_iff.mp hc.ids⟩

/-- Whatever the order in which the stages work and whatever fails cleanly, every accepted sequence
is in one place, on its way or at its end, and no sequence is in two. Once nothing is on its way and
nothing has been given up, the links of the decisions are the accepted sequences. -/
theorem conserved_of_failsCleanly {ms : List PipelineMove} (h : p.Initial)
    (hrun : Run (Where Pipeline.failsCleanly (Working lib texts)) p ms q) :
    q.Conserved ∧ (q.Drained → q.Linked) := by
  have hend : q.Steady := hrun.invariant_where
    (fun _ _ _ hs hclean hstep => hs.step hclean hstep) h.steady
  exact ⟨hend.toConserved, fun hdrained => hdrained.linked hend.toConserved⟩

instance (attempt : AnalyzeAttempt) : Decidable attempt.FailsCleanly :=
  decidable_of_iff (attempt.commit ≠ .lost ∧
      (attempt.commit = .done → attempt.xack = .done ∧ attempt.enqueue = .done) ∧
      attempt.moveToDlq ≠ .lost ∧ (attempt.moveToDlq = .done → attempt.dlqXack = .done))
    ⟨fun h => ⟨h.1, h.2.1, h.2.2.1, h.2.2.2⟩, fun h => ⟨h.commit, h.committed, h.moved, h.buried⟩⟩

instance (p : Pipeline) : ∀ m, Decidable (p.enabled m)
  | .analyze entry _ _ => inferInstanceAs (Decidable (entry ∈ p.group.tasks))
  | .aggregate evidenceId call => inferInstanceAs (Decidable
      (evidenceId ∈ p.system.analyzer.aggregateEvidence ∧
        Uuid.parse evidenceId = some call.evidenceId))
  | .accept .. | .poll _ | .resolve _ | .admin _ | .setActiveMode .. | .expireKey _ =>
    instDecidableTrue

instance (p : Pipeline) : ∀ m, Decidable (p.failsCleanly m)
  | .accept _ replies _ => inferInstanceAs (Decidable (.lost ∉ replies))
  | .poll call => inferInstanceAs (Decidable (call.xreadgroup.executed = true →
      p.group.unread 10 ≠ [] → call.xreadgroup = .done ∧
        ∀ k < (p.group.unread 10).length, (call.delay k).executed = true ∧
          (k + 1 < (p.group.unread 10).length → (call.delay k).raises = false)))
  | .analyze _ attempt _ => inferInstanceAs (Decidable attempt.FailsCleanly)
  | .aggregate _ call => inferInstanceAs (Decidable (call.raisesAt ≠ some .closeSession))
  | .expireKey key => inferInstanceAs (Decidable
      ("ingest:idem:".toList.isPrefixOf key.toList = false))
  | .resolve _ | .admin _ | .setActiveMode .. => instDecidableTrue

def samplePipeline : Pipeline :=
  ⟨sampleSystem, ⟨[], 0, [], []⟩, [], []⟩

/-- A camera with a mode and a lens, and a sequence of it on its way through all stages. The first
poll fails, and so does the first try of the analysis. -/
def sampleMoves : List PipelineMove :=
  let event := ingestEvent sampleIngestCall.request ["s3://frames/" ++ Uuid.str ⟨1⟩ ++ "/" ++
    Uuid.str ⟨2⟩ ++ "/" ++ Uuid.str ⟨11⟩ ++ "/0.bin"]
  let entry := ("7-0", sampleTexts.payload event)
  [.admin (adminCall 1 3 (.createMarket ⟨"Centre", "UTC"⟩)),
    .admin (adminCall 1 2 (.createCamera ⟨3⟩ ⟨"Door", "edge-1"⟩)),
    .admin (adminCall 1 5 (.createContextMode ⟨"Opening hours", none⟩)),
    .admin (adminCall 1 6 (.createLens ⟨5⟩ ⟨"Door lens", "Watch the door.", []⟩)),
    .setActiveMode ⟨2⟩ (some ⟨Uuid.str ⟨5⟩, none⟩),
    .accept sampleIngestCall [.done, .done, .done, .done] "7-0",
    .poll ⟨"vlm-1", .failed, fun _ => .done⟩, .poll ⟨"vlm-1", .done, fun _ => .done⟩,
    .analyze entry { sampleAttempt with commit := .failed } 0, .analyze entry sampleAttempt 1,
    .aggregate (Uuid.str ⟨11⟩) (sampleAggregate 11 20)]

def sampleFlow : Pipeline :=
  sampleMoves.foldl (Pipeline.next sampleLibrary sampleTexts) samplePipeline

theorem run_sampleMoves : Run (Where Pipeline.failsCleanly (Working sampleLibrary sampleTexts))
    samplePipeline (sampleMoves.map id) sampleFlow := by
  refine run_foldl (fun p m => decide (p.enabled m) && decide (p.failsCleanly m)) ?_ ?_
  · intro p m hok
    simp only [Bool.and_eq_true, decide_eq_true_eq] at hok
    exact ⟨hok.2, hok.1, rfl⟩
  · decide +kernel

theorem conserved_of_failsCleanly_sample : sampleFlow.Conserved ∧ sampleFlow.Linked := by
  have hstart : samplePipeline.Initial := ⟨rfl, rfl, rfl, rfl, rfl, rfl⟩
  obtain ⟨hconserved, hlinked⟩ := conserved_of_failsCleanly hstart run_sampleMoves
  have hend : sampleFlow.unread = [] ∧ sampleFlow.group.tasks = [] ∧ sampleFlow.givenUp = [] ∧
      sampleFlow.system.analyzer.dlq = [] ∧ sampleFlow.system.analyzer.aggregateEvidence = [] ∧
      sampleFlow.dropped = [] := by decide +kernel
  obtain ⟨hunread, htasks, hgivenUp, hdlq, hqueue, hdropped⟩ := hend
  exact ⟨hconserved, hlinked ⟨hunread, htasks, hgivenUp, hdlq, hqueue, hdropped⟩⟩

end ArgusServices

import ArgusServices.Analyzer
import ArgusServices.Transition
import Mathlib.Data.List.Nodup
import Mathlib.Data.List.Perm.Subperm

namespace ArgusServices

open Effect Transition

/-- The entries of the ingest stream with their ids, how many of them the group has read, those it
waits for the acknowledgement of with the consumer that read them, and the tasks handed to
Celery. -/
structure ConsumerGroup where
  entries : List (String × StreamFields)
  delivered : Nat
  pending : List (String × String)
  tasks : List (String × StreamFields)
  deriving DecidableEq, Repr

/-- A call of `_process_ingest_stream_batch`, with the name of its consumer and the answers to its
read and to each `delay`. -/
structure PollCall where
  consumerName : String
  xreadgroup : Reply
  delay : Nat → Reply

/-- What a read with `>` returns: entries that were never delivered to the group. -/
def ConsumerGroup.unread (s : ConsumerGroup) (count : Nat) : List (String × StreamFields) :=
  (s.entries.drop s.delivered).take count

def ConsumerGroup.read (s : ConsumerGroup) (consumer : String) (count : Nat) : ConsumerGroup :=
  { s with
    delivered := s.delivered + (s.unread count).length
    pending := s.pending ++ (s.unread count).map fun entry => (entry.1, consumer) }

def ConsumerGroup.enqueue (s : ConsumerGroup) (entry : String × StreamFields) : ConsumerGroup :=
  { s with tasks := s.tasks ++ [entry] }

def processIngestStreamBatch (call : PollCall) : Proc ConsumerGroup Exn Nat := do
  let s ← get
  let entries := s.unread 10
  command call.xreadgroup (fun s => s.read call.consumerName 10) .outage
  forM entries.zipIdx fun entry =>
    command (call.delay entry.2) (fun s => s.enqueue entry.1) .outage
  pure entries.length

inductive StreamMove
  | xadd (entry : String × StreamFields)
  | poll (call : PollCall)
  | xack (messageId : String)

/-- New entries get ids of their own, consumers poll, and tasks acknowledge what they were handed. -/
inductive Streaming : ConsumerGroup → StreamMove → ConsumerGroup → Prop
  | xadd {s : ConsumerGroup} {entry : String × StreamFields} :
      entry.1 ∉ s.entries.map Prod.fst →
      Streaming s (.xadd entry) { s with entries := s.entries ++ [entry] }
  | poll {s : ConsumerGroup} {call : PollCall} :
      Streaming s (.poll call) (exec (processIngestStreamBatch call) s).2
  | xack {s : ConsumerGroup} {messageId : String} : messageId ∈ s.tasks.map Prod.fst →
      Streaming s (.xack messageId)
        { s with pending := s.pending.filter fun p => p.1 ≠ messageId }

/-- The group has read nothing yet. -/
structure ConsumerGroup.Initial (s : ConsumerGroup) : Prop where
  ids : (s.entries.map Prod.fst).Nodup
  delivered : s.delivered = 0
  tasks : s.tasks = []

/-- Every message that was delivered to the group has been handed over. -/
def ConsumerGroup.NothingLost (s : ConsumerGroup) : Prop :=
  ∀ entry ∈ s.entries.take s.delivered, entry ∈ s.tasks

/-- After a read that is executed, no poll fails before its last `delay` is executed. -/
def HandsOver (s : ConsumerGroup) : StreamMove → Prop
  | .poll call => call.xreadgroup.executed = true → s.unread 10 ≠ [] →
      call.xreadgroup = .done ∧ ∀ k < (s.unread 10).length, (call.delay k).executed = true ∧
        (k + 1 < (s.unread 10).length → (call.delay k).raises = false)
  | _ => True

/-- The entries a poll hands over, up to the first `delay` that raises. -/
def PollCall.handed (call : PollCall) : Nat → List (String × StreamFields) →
    List (String × StreamFields)
  | _, [] => []
  | n, entry :: entries =>
    match call.delay n with
    | .done => entry :: call.handed (n + 1) entries
    | .failed => []
    | .lost => [entry]

variable {s t : ConsumerGroup} {l : StreamMove} {call : PollCall}

theorem ends_delays (call : PollCall) (entries : List (String × StreamFields)) (n : Nat)
    (s : ConsumerGroup) :
    Ends (forM (entries.zipIdx n) fun entry =>
        (command (call.delay entry.2) (fun s => s.enqueue entry.1) .outage :
          Proc ConsumerGroup Exn Unit)) s
      (fun _ t => t = { s with tasks := s.tasks ++ call.handed n entries })
      (fun _ t => t = { s with tasks := s.tasks ++ call.handed n entries }) := by
  induction entries generalizing n s with
  | nil => simp [PollCall.handed]
  | cons entry entries ih =>
    rw [List.zipIdx_cons, List.forM_cons, ends_bind, ends_command]
    unfold PollCall.handed
    cases hdelay : call.delay n with
    | done =>
      constructor
      · intro h
        cases h
      · intro _
        have hrest := ih (n + 1) (s.enqueue entry)
        simpa [ConsumerGroup.enqueue, Reply.executed] using hrest
    | failed =>
      constructor
      · intro _
        simp [Reply.executed]
      · intro h
        cases h
    | lost =>
      constructor
      · intro _
        simp [Reply.executed, ConsumerGroup.enqueue]
      · intro h
        cases h

/-- What a poll hands over of the entries it reads. -/
def PollCall.hands (call : PollCall) (entries : List (String × StreamFields)) :
    List (String × StreamFields) :=
  if call.xreadgroup = .done then call.handed 0 entries else []

/-- A poll reads the next entries, unless the read fails, and hands over some of them. -/
theorem poll_state (call : PollCall) (s : ConsumerGroup) :
    (exec (processIngestStreamBatch call) s).2 =
      if call.xreadgroup.executed then
        { s.read call.consumerName 10 with tasks := s.tasks ++ call.hands (s.unread 10) }
      else s := by
  have hends : Ends (processIngestStreamBatch call) s
      (fun _ t => t = if call.xreadgroup.executed then
        { s.read call.consumerName 10 with tasks := s.tasks ++ call.hands (s.unread 10) } else s)
      (fun _ t => t = if call.xreadgroup.executed then
        { s.read call.consumerName 10 with tasks := s.tasks ++ call.hands (s.unread 10) } else s) := by
    unfold processIngestStreamBatch
    rw [ends_bind, ends_get, ends_bind, ends_command]
    unfold PollCall.hands
    cases hread : call.xreadgroup with
    | done =>
      constructor
      · intro h
        cases h
      · intro _
        exact (ends_delays call _ 0 _).bind fun _ t ht => ht
    | failed =>
      constructor
      · intro _
        rfl
      · intro h
        cases h
    | lost =>
      constructor
      · intro _
        simp [Reply.executed, ConsumerGroup.read]
      · intro h
        cases h
  exact ends_state_iff.mp hends

theorem handed_isPrefix (call : PollCall) (n : Nat) (entries : List (String × StreamFields)) :
    call.handed n entries <+: entries := by
  induction entries generalizing n with
  | nil => exact List.prefix_rfl
  | cons entry entries ih =>
    unfold PollCall.handed
    split
    · exact List.prefix_cons_inj entry |>.mpr (ih (n + 1))
    · exact List.nil_prefix
    · exact ⟨entries, rfl⟩

/-- All entries are handed over exactly if no `delay` fails before the last one is executed. -/
theorem handed_eq_iff (call : PollCall) (n : Nat) (entries : List (String × StreamFields)) :
    call.handed n entries = entries ↔
      ∀ k < entries.length, (call.delay (n + k)).executed = true ∧
        (k + 1 < entries.length → (call.delay (n + k)).raises = false) := by
  induction entries generalizing n with
  | nil => simp [PollCall.handed]
  | cons entry entries ih =>
    have hsucc : ∀ k, call.delay (n + (k + 1)) = call.delay (n + 1 + k) := by
      intro k
      rw [Nat.add_right_comm n 1 k, Nat.add_assoc]
    rw [List.length_cons, Nat.forall_lt_succ_left]
    unfold PollCall.handed
    cases hdelay : call.delay n with
    | done => simp [ih, hsucc, Reply.executed, Reply.raises]
    | failed => simp [Reply.executed]
    | lost =>
      cases entries with
      | nil => simp [Reply.executed]
      | cons other entries => simp [Reply.raises]

/-- The ids are those of one message each, and what is delivered or handed over is there. -/
structure ConsumerGroup.WellFormed (s : ConsumerGroup) : Prop where
  ids : (s.entries.map Prod.fst).Nodup
  delivered : s.delivered ≤ s.entries.length
  tasks : ∀ entry ∈ s.tasks, entry ∈ s.entries.take s.delivered

theorem ConsumerGroup.Initial.wellFormed (hs : s.Initial) : s.WellFormed where
  ids := hs.ids
  delivered := by simp [hs.delivered]
  tasks := by simp [hs.tasks]

/-- What is delivered after a read is what was, and the entries it returns. -/
theorem take_read (s : ConsumerGroup) (consumer : String) (count : Nat) :
    (s.read consumer count).entries.take (s.read consumer count).delivered =
      s.entries.take s.delivered ++ s.unread count := by
  simp [ConsumerGroup.read, ConsumerGroup.unread, List.take_add]

theorem ConsumerGroup.WellFormed.nodup (hs : s.WellFormed) :
    (s.entries.take s.delivered ++ s.unread 10).Nodup := by
  have hsub : (s.entries.take s.delivered ++ s.unread 10).Sublist s.entries := by
    rw [← take_read s "" 10]
    exact List.take_sublist _ _
  exact (List.Nodup.of_map _ hs.ids).sublist hsub

theorem hands_mem (call : PollCall) {entries : List (String × StreamFields)}
    {entry : String × StreamFields} (h : entry ∈ call.hands entries) : entry ∈ entries := by
  unfold PollCall.hands at h
  split at h
  · exact (handed_isPrefix call 0 entries).subset h
  · cases h

/-- A poll that reads hands over all that it has read exactly if no `delay` fails on the way. -/
theorem hands_all_iff (hs : s.WellFormed) (hread : call.xreadgroup.executed = true) :
    (∀ entry ∈ s.unread 10, entry ∈ call.hands (s.unread 10)) ↔ HandsOver s (.poll call) := by
  have hnodup : (s.unread 10).Nodup := (List.nodup_append.mp hs.nodup).2.1
  have hall : (∀ entry ∈ s.unread 10, entry ∈ call.handed 0 (s.unread 10)) ↔
      call.handed 0 (s.unread 10) = s.unread 10 := by
    constructor
    · intro h
      have hlength := (List.subperm_of_subset hnodup h).length_le
      exact (handed_isPrefix call 0 _).sublist.eq_of_length_le hlength
    · intro h
      rw [h]
      exact fun _ hentry => hentry
  unfold PollCall.hands HandsOver
  split
  next hdone =>
    rw [hall, handed_eq_iff]
    constructor
    · intro h _ _
      exact ⟨hdone, by simpa using h⟩
    · intro h
      by_cases hempty : s.unread 10 = []
      · simp [hempty]
      · simpa using (h hread hempty).2
  next hlost =>
    constructor
    · intro h _ hne
      obtain ⟨entry, hentry⟩ := List.exists_mem_of_ne_nil _ hne
      cases h entry hentry
    · intro h entry hentry
      exact absurd (h hread (List.ne_nil_of_mem hentry)).1 hlost

theorem ConsumerGroup.WellFormed.step (hs : s.WellFormed) (h : Streaming s l t) :
    t.WellFormed := by
  cases h with
  | @xadd entry hnew =>
    refine ⟨?_, ?_, ?_⟩
    · rw [List.map_append, List.nodup_append]
      refine ⟨hs.ids, List.pairwise_singleton _ _, ?_⟩
      intro id hid other hother
      rw [List.map_singleton, List.mem_singleton] at hother
      rintro rfl
      exact hnew (hother ▸ hid)
    · exact hs.delivered.trans (by simp)
    · intro task htask
      rw [List.take_append_of_le_length hs.delivered]
      exact hs.tasks task htask
  | @poll call =>
    rw [poll_state]
    split
    next =>
      refine ⟨hs.ids, ?_, ?_⟩
      · simp only [ConsumerGroup.read, ConsumerGroup.unread, List.length_take, List.length_drop]
        have hle := hs.delivered
        omega
      · intro task htask
        have htake := take_read s call.consumerName 10
        simp only [htake]
        rcases List.mem_append.mp htask with htask | htask
        · exact List.mem_append_left _ (hs.tasks task htask)
        · exact List.mem_append_right _ (hands_mem call htask)
    next => exact hs
  | xack hid => exact ⟨hs.ids, hs.delivered, hs.tasks⟩

/-- A message that was delivered and not handed over. -/
def ConsumerGroup.Lost (s : ConsumerGroup) : Prop :=
  ∃ entry ∈ s.entries.take s.delivered, entry ∉ s.tasks

theorem not_nothingLost_iff : ¬s.NothingLost ↔ s.Lost := by
  simp [ConsumerGroup.NothingLost, ConsumerGroup.Lost]

/-- The reads that follow return other messages. -/
theorem ConsumerGroup.Lost.step (hl : s.Lost) (hs : s.WellFormed) (h : Streaming s l t) :
    t.Lost := by
  obtain ⟨entry, hentry, hnot⟩ := hl
  cases h with
  | @xadd added hnew =>
    refine ⟨entry, ?_, hnot⟩
    rw [List.take_append_of_le_length hs.delivered]
    exact hentry
  | @poll call =>
    rw [poll_state]
    split
    next =>
      refine ⟨entry, ?_, ?_⟩
      · have htake := take_read s call.consumerName 10
        simp only [htake]
        exact List.mem_append_left _ hentry
      · intro htask
        rcases List.mem_append.mp htask with htask | htask
        · exact hnot htask
        · exact (List.nodup_append.mp hs.nodup).2.2 entry hentry entry (hands_mem call htask) rfl
    next => exact ⟨entry, hentry, hnot⟩
  | xack hid => exact ⟨entry, hentry, hnot⟩

/-- A step keeps every message exactly if the poll, if it is one, hands all over. -/
theorem ConsumerGroup.NothingLost.step_iff (hn : s.NothingLost) (hs : s.WellFormed)
    (h : Streaming s l t) : t.NothingLost ↔ HandsOver s l := by
  cases h with
  | @xadd added hnew =>
    refine ⟨fun _ => trivial, fun _ => ?_⟩
    intro entry hentry
    rw [List.take_append_of_le_length hs.delivered] at hentry
    exact hn entry hentry
  | @poll call =>
    rw [poll_state]
    split
    next hread =>
      rw [← hands_all_iff hs hread]
      have htake := take_read s call.consumerName 10
      simp only [ConsumerGroup.NothingLost, htake]
      constructor
      · intro hall entry hentry
        rcases List.mem_append.mp (hall entry (List.mem_append_right _ hentry)) with htask | htask
        · have hold := hs.tasks entry htask
          exact absurd rfl ((List.nodup_append.mp hs.nodup).2.2 entry hold entry hentry)
        · exact htask
      · intro hall entry hentry
        rcases List.mem_append.mp hentry with hold | hnew
        · exact List.mem_append_left _ (hn entry hold)
        · exact List.mem_append_right _ (hall entry hnew)
    next hread =>
      refine ⟨fun _ hexecuted => absurd hexecuted hread, fun _ => hn⟩
  | xack hid => exact ⟨fun _ => trivial, fun _ => hn⟩

/-- Every message that was delivered has been handed over exactly if no poll has failed between
its read and its last `delay`: a message left behind is never read again. -/
theorem nothingLost_iff_handsOver {ls : List StreamMove} (hs : s.Initial)
    (h : Run Streaming s ls t) :
    t.NothingLost ↔ Run (Where HandsOver Streaming) s ls t := by
  have hwell : s.WellFormed ∧ s.NothingLost := by
    refine ⟨hs.wellFormed, ?_⟩
    intro entry hentry
    simp [hs.delivered] at hentry
  refine h.goal_iff_where (fun s => s.WellFormed ∧ s.NothingLost) ConsumerGroup.NothingLost
    (fun s => s.WellFormed ∧ s.Lost) ?_ ?_ ?_ hwell (fun hi => hi.2) ?_
  · intro s l t hi hguard hstep
    exact ⟨hi.1.step hstep, (hi.2.step_iff hi.1 hstep).mpr hguard⟩
  · intro s l t hi hguard hstep
    exact ⟨hi.1.step hstep,
      not_nothingLost_iff.mp fun hn => hguard ((hi.2.step_iff hi.1 hstep).mp hn)⟩
  · intro s l t hl hstep
    exact ⟨hl.1.step hstep, hl.2.step hl.1 hstep⟩
  · intro hl
    exact not_nothingLost_iff.mpr hl.2

/-- The ids the group waits for, of what was delivered and not handed over among others. -/
def ConsumerGroup.KeepsPending (s : ConsumerGroup) : Prop :=
  ∀ entry ∈ s.entries.take s.delivered, entry ∉ s.tasks → entry.1 ∈ s.pending.map Prod.fst

theorem ConsumerGroup.KeepsPending.step (hk : s.KeepsPending) (hs : s.WellFormed)
    (h : Streaming s l t) : t.KeepsPending := by
  cases h with
  | @xadd added hnew =>
    intro entry hentry hnot
    rw [List.take_append_of_le_length hs.delivered] at hentry
    exact hk entry hentry hnot
  | @poll call =>
    rw [poll_state]
    split
    next =>
      intro entry hentry hnot
      have htake := take_read s call.consumerName 10
      simp only [htake] at hentry
      rw [List.mem_append, not_or] at hnot
      simp only [ConsumerGroup.read, List.map_append, List.map_map, List.mem_append]
      rcases List.mem_append.mp hentry with hold | hnew
      · exact Or.inl (hk entry hold hnot.1)
      · exact Or.inr (List.mem_map.mpr ⟨entry, hnew, rfl⟩)
    next => exact hk
  | @xack messageId hid =>
    intro entry hentry hnot
    have hne : entry.1 ≠ messageId := by
      intro heq
      obtain ⟨task, htask, hsame⟩ := List.mem_map.mp hid
      have hmem := List.take_subset _ _ (hs.tasks task htask)
      have hentry' := List.take_subset _ _ hentry
      have hone := List.inj_on_of_nodup_map hs.ids hentry' hmem (heq.trans hsame.symm)
      exact hnot (hone ▸ htask)
    obtain ⟨p, hp, hfst⟩ := List.mem_map.mp (hk entry hentry hnot)
    refine List.mem_map.mpr ⟨p, List.mem_filter.mpr ⟨hp, ?_⟩, hfst⟩
    simpa [hfst] using hne

/-- What a failed poll has left behind stays in the pending list, where no poll looks. -/
theorem keepsPending_of_run {ls : List StreamMove} (hs : s.Initial) (h : Run Streaming s ls t) :
    t.KeepsPending := by
  refine (h.invariant (I := fun s => s.WellFormed ∧ s.KeepsPending) ?_ ⟨hs.wellFormed, ?_⟩).2
  · intro s l t hi hstep
    exact ⟨hi.1.step hstep, hi.2.step hi.1 hstep⟩
  · intro entry hentry
    simp [hs.delivered] at hentry

/-- A stream with two messages, of which no consumer has read one. -/
def sampleGroup : ConsumerGroup where
  entries := [("1-0", []), ("2-0", [])]
  delivered := 0
  pending := []
  tasks := []

theorem sampleGroup_initial : sampleGroup.Initial :=
  ⟨by decide, rfl, rfl⟩

/-- A poll whose `delay` number `k` is answered so, and whose other ones are done. -/
def samplePoll (consumerName : String) (k : Nat) (r : Reply) : PollCall where
  consumerName := consumerName
  xreadgroup := .done
  delay := fun n => if n = k then r else .done

/-- After a first poll whose second `delay` is answered so, and a poll where nothing fails. -/
def samplePolled (r : Reply) : ConsumerGroup :=
  let s := (exec (processIngestStreamBatch (samplePoll "vlm-a-1" 1 r)) sampleGroup).2
  (exec (processIngestStreamBatch (samplePoll "vlm-a-2" 1 .done)) s).2

theorem run_samplePolled (r : Reply) : Run Streaming sampleGroup
    [.poll (samplePoll "vlm-a-1" 1 r), .poll (samplePoll "vlm-a-2" 1 .done)] (samplePolled r) :=
  .cons .poll (.single .poll)

/-- A poll whose second `delay` raises loses its message, whatever polls follow. -/
theorem not_always_nothingLost : ¬∀ (s : ConsumerGroup) (call : PollCall) (ls : List StreamMove)
    (t : ConsumerGroup), s.Initial →
      Run (Where HandsOver Streaming) (exec (processIngestStreamBatch call) s).2 ls t →
        t.NothingLost := by
  intro h
  have hsecond := h sampleGroup (samplePoll "vlm-a-1" 1 .failed)
    [.poll (samplePoll "vlm-a-2" 1 .done)] (samplePolled .failed) sampleGroup_initial
    (.single ⟨?_, .poll⟩) ("2-0", []) (by decide +kernel)
  · revert hsecond
    decide +kernel
  · intro _ hne
    exact absurd (by decide +kernel) hne

theorem nothingLost_iff_handsOver_sample :
    (samplePolled .done).NothingLost ∧ ¬Run (Where HandsOver Streaming) sampleGroup
      [.poll (samplePoll "vlm-a-1" 1 .failed), .poll (samplePoll "vlm-a-2" 1 .done)]
      (samplePolled .failed) := by
  constructor
  · refine (nothingLost_iff_handsOver sampleGroup_initial (run_samplePolled .done)).mpr ?_
    refine .cons ⟨?_, .poll⟩ (.single ⟨?_, .poll⟩)
    · intro _ _
      refine ⟨rfl, ?_⟩
      decide +kernel
    · intro _ hne
      exact absurd (by decide +kernel) hne
  · intro h
    have hlost := (nothingLost_iff_handsOver sampleGroup_initial (run_samplePolled .failed)).mpr h
      ("2-0", []) (by decide +kernel)
    revert hlost
    decide +kernel

end ArgusServices

import ArgusServices.AcceptSequence
import Mathlib.Data.Set.List

namespace ArgusServices

open Effect Transition

/-- What the moves of the others alone make of the world. -/
def othersAlone (w : IngestWorld) : SequenceMove → IngestWorld
  | .other m => m.apply w
  | _ => w

/-- The delete that cleans up is executed. -/
def CleanupExecuted (s : SequenceState) (l : SequenceMove) : Prop :=
  ∀ cause, s.phase = .cleaning cause → l ≠ .command .failed

/-- Neither the SET NX that sets the key nor the XADD raises although it was executed. -/
def ReplyKept (call : IngestCall) (s : SequenceState) (l : SequenceMove) : Prop :=
  l = .command .lost →
    (s.phase = .begun → validateClaims call = true → s.world.keys call.key ≠ none) ∧
      ∀ frameUris, s.phase ≠ .uploaded frameUris

/-- A call whose request passes all that `accept_sequence` checks of it. -/
structure IngestCall.Valid (call : IngestCall) (w : IngestStore) : Prop where
  claims : validateClaims call = true
  mode : validateActiveMode w call.request = .ok ()
  frames : ∀ frame ∈ call.request.frames, base64Valid frame.content = true

/-- Nothing fails, and the mode of the camera stays as it is. -/
def NothingFails (call : IngestCall) (_ : SequenceState) : SequenceMove → Prop
  | .command r | .upload _ r => r = .done
  | .gathered => True
  | .other m => ∀ entry, m ≠ .setKey (activeModeKey call.request.cameraId) entry

/-- Where nothing fails the call can always be carried on until it is queued, and ends so. -/
def IngestCall.Queues (call : IngestCall) (w : IngestWorld) : Prop :=
  ∀ ls s, Run (Where (NothingFails call) (Accepts call)) (.begin w) ls s →
    (s.phase.ended = true → s.phase = call.respond .queued) ∧
      ∃ ms t, Run (Where (NothingFails call) (Accepts call)) s ms t ∧ t.phase = call.respond .queued

/-- What a call that raised has left is what the others alone leave, so that a sequence whose key
was free is queued when it is sent again. -/
structure Retryable (call : IngestCall) (w alone : IngestStore) : Prop where
  keys : w.keys = alone.keys
  stream : w.stream = alone.stream
  retry : alone.keys call.key = none → ∀ next : IngestCall, next.key = call.key → next.Valid w →
    ∀ objects, next.Queues ⟨w, objects⟩

variable {call : IngestCall} {s t : SequenceState} {l : SequenceMove} {w : IngestWorld}
  {ls : List SequenceMove}

@[simp] theorem othersAlone_command (r : Reply) : othersAlone w (.command r) = w :=
  rfl

/-- How far a call that nothing fails has come. -/
def Going (call : IngestCall) (s : SequenceState) : Prop :=
  match s.phase with
  | .begun => validateClaims call = true ∧ s.world.keys call.key = none ∧
      validateActiveMode s.world.toIngestStore call.request = .ok ()
  | .claimed => validateActiveMode s.world.toIngestStore call.request = .ok ()
  | .modeChecked => s.uploads.length = call.request.frames.length ∧
      ∀ cause, UploadPhase.raised cause ∉ s.uploads
  | .uploaded _ => True
  | .returned response => .returned response = call.respond .queued
  | .cleaning _ | .raised _ => False

theorem step_begun_done {w : IngestStore} (hclaims : validateClaims call = true)
    (hkey : w.keys call.key = none) : call.step (w, .begun) .done = (call.claim w, .claimed) := by
  simp [IngestCall.step, IngestCall.advance, hclaims, hkey]

theorem step_claimed_done {w : IngestStore} (hmode : validateActiveMode w call.request = .ok ()) :
    call.step (w, .claimed) .done = (w, .modeChecked) := by
  simp [IngestCall.step, IngestCall.advance, hmode]

theorem claim_mode (call : IngestCall) (w : IngestStore) :
    validateActiveMode (call.claim w) call.request = validateActiveMode w call.request :=
  validateActiveMode_congr (claim_keys_of_ne (idempotencyKey_ne_activeModeKey _ _ _).symm)

/-- Apart from the time of the uploads it is the store and the phase that count. -/
theorem Going.congr (hg : Going call s) (hs : s.phase ≠ .modeChecked) (h : t.whole = s.whole) :
    Going call t := by
  obtain ⟨w, us, p⟩ := s
  obtain ⟨w', us', p'⟩ := t
  obtain ⟨hw, rfl⟩ : w'.toIngestStore = w.toIngestStore ∧ p' = p := Prod.mk.inj h
  cases p' with
  | begun =>
    obtain ⟨hclaims, hkey, hmode⟩ := hg
    exact ⟨hclaims, (congrFun (congrArg IngestStore.keys hw) _).trans hkey,
      (congrArg (validateActiveMode · call.request) hw).trans hmode⟩
  | claimed => exact (congrArg (validateActiveMode · call.request) hw).trans hg
  | modeChecked => exact absurd rfl hs
  | _ => exact hg

theorem Going.receive (hg : Going call s) (hs : s.phase ≠ .modeChecked)
    (hended : s.phase.ended = false) : Going call (call.receive .done s) := by
  obtain ⟨w, us, p⟩ := s
  cases p with
  | begun =>
    obtain ⟨hclaims, hkey, hmode⟩ := hg
    have hstep := step_begun_done hclaims hkey
    simp only [IngestCall.receive, SequenceState.whole, hstep]
    exact (claim_mode call _).trans hmode
  | claimed =>
    have hstep := step_claimed_done hg
    simp only [IngestCall.receive, SequenceState.whole, hstep, if_pos]
    refine ⟨by simp, ?_⟩
    intro cause hmem
    simp at hmem
  | modeChecked => exact absurd rfl hs
  | uploaded frameUris => rfl
  | cleaning cause => exact hg.elim
  | returned response => cases hended
  | raised cause => cases hended

/-- A free key of a sequence stays free while no other call for it runs. -/
theorem setKey_sparing {key : String} {entry : Option RedisEntry} {w : IngestWorld}
    (hm : (OtherMove.setKey key entry).Sparing call.key) (h : w.keys call.key = none) :
    ((OtherMove.setKey key entry).apply w).keys call.key = none := by
  simp only [OtherMove.apply]
  by_cases heq : key = call.key
  · rw [hm heq, heq, Function.update_self]
  · rw [Function.update_of_ne (Ne.symm heq), h]

theorem Going.other {m : OtherMove} (hg : Going call s) (hm : m.Sparing call.key)
    (hmode : ∀ entry, m ≠ .setKey (activeModeKey call.request.cameraId) entry) :
    Going call { s with world := m.apply s.world } := by
  cases m with
  | setKey key entry =>
    have hne : activeModeKey call.request.cameraId ≠ key := by
      intro heq
      exact hmode entry (by rw [heq])
    have hsame : validateActiveMode ((OtherMove.setKey key entry).apply s.world).toIngestStore
        call.request = validateActiveMode s.world.toIngestStore call.request :=
      validateActiveMode_congr (Function.update_of_ne hne _ _)
    obtain ⟨w, us, p⟩ := s
    cases p with
    | begun =>
      obtain ⟨hclaims, hkey, hok⟩ := hg
      exact ⟨hclaims, setKey_sparing hm hkey, hsame.trans hok⟩
    | claimed => exact hsame.trans hg
    | _ => exact hg
  | enqueue event => exact hg
  | putObject key data => exact hg

theorem Going.step (hg : Going call s) (hdone : NothingFails call s l)
    (hframes : ∀ frame ∈ call.request.frames, base64Valid frame.content = true)
    (h : Accepts call s l t) : Going call t := by
  cases h with
  | @command r hended hphase =>
    obtain rfl : r = .done := hdone
    exact hg.receive hphase hended
  | @upload k frame r hframe hpending =>
    obtain rfl : r = .done := hdone
    have hstored := uploadOne_of_valid call s.world
      (hframes frame (List.mem_of_getElem? hframe))
    have hwhole : (call.finish k frame .done s).whole = s.whole := by
      rw [finish_whole, hstored, gather_stored]
      rfl
    by_cases hphase : s.phase = .modeChecked
    · have hafter : (call.finish k frame .done s).phase = .modeChecked :=
        (congrArg Prod.snd hwhole).trans hphase
      simp only [Going, hphase] at hg
      simp only [Going, hafter]
      refine ⟨(List.length_set ..).trans hg.1, ?_⟩
      intro cause hmem
      rcases List.mem_or_eq_of_mem_set hmem with hold | hnew
      · exact hg.2 cause hold
      · rw [hstored] at hnew
        cases hnew
    · exact hg.congr hphase hwhole
  | gathered hphase huris => exact trivial
  | other hended hsparing => exact hg.other hsparing hdone

/-- The steps a call that nothing fails has still to take. -/
def SequenceState.ahead (call : IngestCall) (s : SequenceState) : Nat :=
  match s.phase with
  | .begun => call.request.frames.length + 4
  | .claimed => call.request.frames.length + 3
  | .modeChecked => s.uploads.count .pending + 2
  | .uploaded _ => 1
  | .cleaning _ | .returned _ | .raised _ => 0

theorem stored_or_pending {us : List UploadPhase} (h : ∀ cause, UploadPhase.raised cause ∉ us) :
    (∃ uris : List String, us = uris.map .stored) ∨ ∃ k : Nat, us[k]? = some .pending := by
  by_cases hpending : UploadPhase.pending ∈ us
  · exact Or.inr (List.mem_iff_getElem?.mp hpending)
  · left
    have hrange : us ∈ Set.range (List.map UploadPhase.stored) := by
      rw [Set.range_list_map]
      intro u hu
      cases u with
      | pending => exact absurd hu hpending
      | stored uri => exact ⟨uri, rfl⟩
      | raised cause => exact absurd hu (h cause)
    obtain ⟨uris, huris⟩ := hrange
    exact ⟨uris, huris.symm⟩

/-- Short of its end a call that nothing fails has a step that brings it nearer. -/
theorem Going.progress (hg : Going call s)
    (hframes : ∀ frame ∈ call.request.frames, base64Valid frame.content = true)
    (hs : s.phase ≠ call.respond .queued) :
    ∃ l t, Where (NothingFails call) (Accepts call) s l t ∧ t.ahead call < s.ahead call := by
  obtain ⟨w, us, p⟩ := s
  cases p with
  | begun =>
    refine ⟨.command .done, _, ⟨rfl, .command rfl (by simp)⟩, ?_⟩
    simp [IngestCall.receive, SequenceState.whole, step_begun_done hg.1 hg.2.1,
      SequenceState.ahead]
  | claimed =>
    refine ⟨.command .done, _, ⟨rfl, .command rfl (by simp)⟩, ?_⟩
    simp [IngestCall.receive, SequenceState.whole, step_claimed_done hg, SequenceState.ahead]
  | modeChecked =>
    obtain ⟨hlength, hraised⟩ := hg
    rcases stored_or_pending hraised with ⟨uris, huris⟩ | ⟨k, hk⟩
    · refine ⟨.gathered, _, ⟨trivial, .gathered rfl huris⟩, ?_⟩
      simp [SequenceState.ahead]
    · obtain ⟨hlt, hpending⟩ := List.getElem?_eq_some_iff.mp hk
      have hframe : call.request.frames[k]? = some call.request.frames[k] :=
        List.getElem?_eq_getElem (hlength ▸ hlt)
      refine ⟨.upload k .done, _, ⟨rfl, .upload hframe hk⟩, ?_⟩
      have hstored := uploadOne_of_valid call w
        (hframes _ (List.mem_of_getElem? hframe))
      have hmem : UploadPhase.pending ∈ us := List.mem_of_getElem? hk
      have hcount := List.count_pos_iff.mpr hmem
      simp only [SequenceState.ahead, IngestCall.finish, hstored, gather_stored,
        List.count_set hlt, hpending]
      simp
      omega
  | uploaded frameUris =>
    exact ⟨.command .done, _, ⟨rfl, .command rfl (by simp)⟩, Nat.zero_lt_one⟩
  | cleaning cause => exact hg.elim
  | returned response => exact absurd hg hs
  | raised cause => exact hg.elim

theorem IngestCall.Valid.queues {w : IngestWorld} (hv : call.Valid w.toIngestStore)
    (hkey : w.keys call.key = none) : call.Queues w := by
  intro ls s hrun
  have hg : Going call s := by
    refine hrun.invariant_where ?_ ⟨hv.claims, hkey, hv.mode⟩
    intro s l t hg hdone hstep
    exact hg.step hdone hv.frames hstep
  constructor
  · intro hended
    obtain ⟨w, us, p⟩ := s
    cases p with
    | returned response => exact hg
    | raised cause => exact hg.elim
    | _ => cases hended
  · refine exists_run_of_rank (I := Going call) (SequenceState.ahead call) ?_ hg
    intro s hg hs
    obtain ⟨l, t, hstep, hlt⟩ := hg.progress hv.frames hs
    exact ⟨l, t, hstep, hg.step hstep.1 hv.frames hstep.2, hlt⟩

/-- The store is as the others alone leave it, but for the key the call has set. -/
structure KeySet (call : IngestCall) (w alone : IngestStore) : Prop where
  free : alone.keys call.key = none
  keys : ∀ key, key ≠ call.key → w.keys key = alone.keys key
  stream : w.stream = alone.stream

/-- What there is for a call to undo, beside the store as the others alone leave it. -/
def Undoing (call : IngestCall) (s : IngestStore × IngestPhase) (alone : IngestStore) : Prop :=
  match s.2 with
  | .begun | .raised _ => s.1 = alone
  | .claimed | .modeChecked | .uploaded _ | .cleaning _ => KeySet call s.1 alone
  | .returned _ => True

theorem KeySet.of_claim {w alone : IngestStore} (h : w = alone) (hkey : w.keys call.key = none) :
    KeySet call (call.claim w) alone := by
  subst h
  refine ⟨hkey, ?_, claim_stream⟩
  intro key hne
  exact claim_keys_of_ne hne

/-- The clean-up gives back what the SET NX took. -/
theorem KeySet.release {w alone : IngestStore} (h : KeySet call w alone) :
    call.release w = alone := by
  obtain ⟨keys, stream⟩ := alone
  have hkeys : Function.update w.keys call.key none = keys := by
    funext key
    by_cases heq : key = call.key
    · rw [heq, Function.update_self]
      exact h.free.symm
    · rw [Function.update_of_ne heq, h.keys key heq]
  rw [IngestCall.release, hkeys, h.stream]

theorem apply_store (m : OtherMove) {w w' : IngestWorld}
    (h : w.toIngestStore = w'.toIngestStore) :
    (m.apply w).toIngestStore = (m.apply w').toIngestStore := by
  obtain ⟨⟨keys, stream⟩, objects⟩ := w
  obtain ⟨⟨keys', stream'⟩, objects'⟩ := w'
  cases h
  cases m <;> rfl

theorem KeySet.apply {m : OtherMove} {w alone : IngestWorld}
    (h : KeySet call w.toIngestStore alone.toIngestStore) (hm : m.Sparing call.key) :
    KeySet call (m.apply w).toIngestStore (m.apply alone).toIngestStore := by
  cases m with
  | setKey key entry =>
    refine ⟨?_, ?_, h.stream⟩
    · exact setKey_sparing hm h.free
    · intro other hother
      simp only [OtherMove.apply]
      by_cases heq : other = key
      · rw [heq, Function.update_self, Function.update_self]
      · rw [Function.update_of_ne heq, Function.update_of_ne heq, h.keys other hother]
  | enqueue event => exact ⟨h.free, h.keys, congrArg (· ++ [event]) h.stream⟩
  | putObject key data => exact ⟨h.free, h.keys, h.stream⟩

theorem claim_of_set {w : IngestStore} (h : w.keys call.key ≠ none) : call.claim w = w := by
  unfold IngestCall.claim
  split
  next hnone => exact absurd hnone h
  next => rfl

theorem Undoing.begin (call : IngestCall) (w : IngestWorld) :
    Undoing call (SequenceState.begin w).whole w.toIngestStore :=
  (rfl : w.toIngestStore = w.toIngestStore)

/-- The key that the SET NX sets is to be undone, unless its reply does not tell. -/
theorem Undoing.claim {w alone : IngestStore} {r : Reply} (hsame : w = alone)
    (hkept : r = .lost → validateClaims call = true → w.keys call.key ≠ none) :
    Undoing call (call.step (w, .begun) r) alone := by
  cases r with
  | done =>
    simp only [IngestCall.step, IngestCall.advance]
    split
    · split
      next hkey => exact .of_claim hsame hkey
      next => exact trivial
    · exact hsame
  | failed => exact hsame
  | lost =>
    simp only [IngestCall.step, IngestCall.fail, Bool.true_and]
    split
    next hclaims =>
      rw [claim_of_set (hkept rfl hclaims)]
      exact hsame
    next => exact hsame

/-- A command of the call leaves nothing to undo but the key, and in the end nothing. -/
theorem Undoing.receive {r : Reply} {alone : IngestStore} (h : Undoing call s.whole alone)
    (hkept : ReplyKept call s (.command r)) (hclean : CleanupExecuted s (.command r))
    (hs : s.phase ≠ .modeChecked) (hended : s.phase.ended = false) :
    Undoing call (call.step s.whole r) alone := by
  obtain ⟨w, us, p⟩ := s
  cases p with
  | begun =>
    refine Undoing.claim h ?_
    rintro rfl
    exact (hkept rfl).1 rfl
  | claimed =>
    cases r with
    | done =>
      simp only [IngestCall.step, IngestCall.advance, SequenceState.whole]
      split
      · exact h
      · exact h
    | failed => exact h
    | lost => exact h
  | modeChecked => exact absurd rfl hs
  | uploaded frameUris =>
    cases r with
    | done => exact trivial
    | failed => exact h
    | lost => exact absurd rfl ((hkept rfl).2 frameUris)
  | cleaning cause =>
    cases r with
    | done => exact KeySet.release h
    | failed => exact absurd rfl (hclean cause rfl)
    | lost => exact KeySet.release h
  | returned response => cases hended
  | raised cause => cases hended

theorem Undoing.gather {w alone : IngestStore} {p : IngestPhase} (h : Undoing call (w, p) alone)
    (u : UploadPhase) : Undoing call (w, p.gather u) alone := by
  by_cases hp : p = .modeChecked
  · subst hp
    cases u <;> exact h
  · rw [gather_of_ne hp]
    exact h

theorem Undoing.other {m : OtherMove} {w alone : IngestWorld} {p : IngestPhase}
    (h : Undoing call (w.toIngestStore, p) alone.toIngestStore) (hm : m.Sparing call.key) :
    Undoing call ((m.apply w).toIngestStore, p) (m.apply alone).toIngestStore := by
  cases p with
  | begun => exact apply_store m h
  | raised cause => exact apply_store m h
  | returned response => exact trivial
  | _ => exact KeySet.apply h hm

/-- While the replies are kept the call undoes what it did. -/
theorem Undoing.step {alone : IngestWorld} (h : Undoing call s.whole alone.toIngestStore)
    (hkept : ReplyKept call s l) (hclean : CleanupExecuted s l) (hstep : Accepts call s l t) :
    Undoing call t.whole (othersAlone alone l).toIngestStore := by
  cases hstep with
  | command hended hphase => exact h.receive hkept hclean hphase hended
  | @upload k frame r hframe hpending =>
    rw [finish_whole]
    exact h.gather _
  | @gathered uris hphase huris =>
    simp only [Undoing, SequenceState.whole, hphase] at h
    exact h
  | other hended hsparing => exact h.other hsparing

/-- What nothing undoes any more: the key after the end of the call, or an event. -/
def Stranded (call : IngestCall) (s : IngestStore × IngestPhase) (alone : IngestStore) : Prop :=
  s.2.ended = true ∧ s.1.keys call.key ≠ alone.keys call.key ∨
    s.2.past = true ∧ s.1.stream.length ≠ alone.stream.length

/-- A lost reply to the SET NX leaves the key, one to the XADD the event. -/
theorem Undoing.lose {alone : IngestWorld} (h : Undoing call s.whole alone.toIngestStore)
    (hlost : ¬ReplyKept call s l) (hstep : Accepts call s l t) :
    Stranded call t.whole (othersAlone alone l).toIngestStore := by
  simp only [ReplyKept, Classical.not_imp, not_and, Classical.not_forall, not_not] at hlost
  obtain ⟨rfl, hunseen⟩ := hlost
  cases hstep with
  | command hended hphase =>
    obtain ⟨w, us, p⟩ := s
    cases p with
    | begun =>
      have hsame : w.toIngestStore = alone.toIngestStore := h
      by_cases hclaims : validateClaims call = true
      · by_cases hkey : w.keys call.key = none
        · left
          refine ⟨rfl, ?_⟩
          rw [receive_whole, SequenceState.whole, othersAlone_command, ← hsame, hkey]
          simp only [IngestCall.step, IngestCall.fail, hclaims, Bool.and_self, if_pos]
          exact claim_keys_self
        · obtain ⟨_, hp⟩ := hunseen (fun _ _ => hkey)
          cases hp
      · obtain ⟨_, hp⟩ := hunseen (fun _ hc => absurd hc hclaims)
        cases hp
    | uploaded frameUris =>
      right
      refine ⟨rfl, ?_⟩
      have hstream : w.stream = alone.stream := KeySet.stream h
      rw [receive_whole, SequenceState.whole, othersAlone_command, ← hstream]
      simp [IngestCall.step, IngestCall.fail, IngestCall.enqueue]
    | _ =>
      obtain ⟨_, hp⟩ := hunseen (fun hp => by cases hp)
      cases hp

theorem apply_stream_length (m : OtherMove) {w w' : IngestWorld}
    (h : w.stream.length ≠ w'.stream.length) :
    (m.apply w).stream.length ≠ (m.apply w').stream.length := by
  cases m with
  | enqueue event => simpa [OtherMove.apply] using h
  | _ => exact h

theorem ended_ne_modeChecked {p : IngestPhase} (h : p.ended = true) : p ≠ .modeChecked := by
  rintro rfl
  cases h

theorem past_ne_modeChecked {p : IngestPhase} (h : p.past = true) : p ≠ .modeChecked := by
  rintro rfl
  cases h

theorem Stranded.step {alone : IngestWorld} (h : Stranded call s.whole alone.toIngestStore)
    (hstep : Accepts call s l t) :
    Stranded call t.whole (othersAlone alone l).toIngestStore := by
  rcases h with ⟨hended, hkey⟩ | ⟨hpast, hstream⟩
  · left
    cases hstep with
    | command hrunning hphase => exact absurd hended (by simp [SequenceState.whole, hrunning])
    | @upload k frame r hframe hpending =>
      rw [finish_whole_of_ne (ended_ne_modeChecked hended)]
      exact ⟨hended, hkey⟩
    | gathered hphase huris => exact absurd hphase (ended_ne_modeChecked hended)
    | other hrunning hsparing => exact absurd hended (by simp [SequenceState.whole, hrunning])
  · right
    cases hstep with
    | @command r hrunning hphase =>
      obtain ⟨hsame, hafter⟩ := step_past call hpast s.world.toIngestStore r
      refine ⟨hafter, ?_⟩
      rw [othersAlone_command, receive_whole]
      exact fun hlength => hstream ((congrArg List.length hsame).symm.trans hlength)
    | @upload k frame r hframe hpending =>
      rw [finish_whole_of_ne (past_ne_modeChecked hpast)]
      exact ⟨hpast, hstream⟩
    | gathered hphase huris => exact absurd hphase (past_ne_modeChecked hpast)
    | @other m hrunning hsparing => exact ⟨hpast, apply_stream_length m hstream⟩

theorem Retryable.of_undoing {alone : IngestWorld} {cause : Exn}
    (h : Undoing call s.whole alone.toIngestStore) (hraised : s.phase = .raised cause) :
    Retryable call s.world.toIngestStore alone.toIngestStore := by
  have hsame : s.world.toIngestStore = alone.toIngestStore := by
    simpa only [Undoing, SequenceState.whole, hraised] using h
  rw [hsame]
  refine ⟨rfl, rfl, ?_⟩
  intro hfree next hnext hvalid objects
  have hkey : alone.keys next.key = none := by
    rw [hnext]
    exact hfree
  exact hvalid.queues (w := ⟨alone.toIngestStore, objects⟩) hkey

theorem Stranded.not_retryable {alone : IngestStore} (h : Stranded call s.whole alone) :
    ¬Retryable call s.world.toIngestStore alone := by
  intro hr
  rcases h with ⟨-, hkey⟩ | ⟨-, hstream⟩
  · exact hkey (congrFun hr.keys call.key)
  · exact hstream (congrArg List.length hr.stream)

/-- A call that has not begun, or has found its key, has touched nothing. -/
def Uninvolved (s : SequenceState) (alone : IngestWorld) : Prop :=
  s.phase = .begun ∨ s.phase.answered .duplicate = true → s.world = alone ∧ s.uploads = []

/-- Only the SET NX that finds the key makes a duplicate. -/
theorem step_duplicate {w : IngestStore} {p : IngestPhase} {r : Reply} (hp : p.ended = false)
    (h : (call.step (w, p) r).2 = .begun ∨
      (call.step (w, p) r).2.answered .duplicate = true) :
    p = .begun ∧ (call.step (w, p) r).1 = w := by
  obtain ⟨lost, hstep⟩ := step_ingests call hp w r
  generalize call.step (w, p) r = s' at h hstep
  obtain ⟨w', p'⟩ := s'
  cases hstep with
  | duplicate => exact ⟨rfl, rfl⟩
  | _ => simp [IngestPhase.answered] at h

theorem Uninvolved.step {alone : IngestWorld} (h : Uninvolved s alone)
    (hstep : Accepts call s l t) : Uninvolved t (othersAlone alone l) := by
  intro ht
  cases hstep with
  | @command r hended hphase =>
    obtain ⟨hbegun, hsame⟩ := step_duplicate hended ht
    obtain ⟨hworld, huploads⟩ := h (Or.inl hbegun)
    have hmode : (call.step s.whole r).2 ≠ .modeChecked := by
      intro hmode
      simp [IngestCall.receive, hmode, IngestPhase.answered] at ht
    simp only [IngestCall.receive, if_neg hmode, othersAlone_command]
    exact ⟨by rw [← hworld]; exact congrArg (IngestWorld.mk · s.world.objects) hsame, huploads⟩
  | @upload k frame r hframe hpending =>
    have hphase : s.phase = .begun ∨ s.phase.answered .duplicate = true := by
      by_cases hmode : s.phase = .modeChecked
      · simp only [IngestCall.finish, hmode] at ht
        cases hup : (call.uploadOne frame r s.world).2 <;>
          simp [hup, IngestPhase.gather, IngestPhase.answered] at ht
      · rwa [IngestCall.finish, gather_of_ne hmode] at ht
    rw [(h hphase).2] at hpending
    cases hpending
  | gathered hphase huris => simp [IngestPhase.answered] at ht
  | @other m hended hsparing =>
    obtain ⟨hworld, huploads⟩ := h ht
    exact ⟨congrArg m.apply hworld, huploads⟩

/-- A call that raised with its clean-up done has left what the others alone leave, and can be
sent again, exactly if neither the SET NX nor the XADD was executed with its reply lost. A call
that answers duplicate leaves the store and the bucket alone. -/
theorem retryable_iff_replyKept (call : IngestCall) (w : IngestWorld) (ls : List SequenceMove)
    (t : SequenceState) :
    (∀ cause, t.phase = .raised cause →
      Run (Where CleanupExecuted (Accepts call)) (.begin w) ls t →
        (Retryable call t.world.toIngestStore (ls.foldl othersAlone w).toIngestStore ↔
          Run (Where (ReplyKept call) (Where CleanupExecuted (Accepts call))) (.begin w) ls t)) ∧
      (t.phase.answered .duplicate = true → Run (Accepts call) (.begin w) ls t →
        t.world = ls.foldl othersAlone w) := by
  constructor
  · intro cause hraised h
    rw [← run_where_tracked (ReplyKept call) w]
    refine (run_tracked h w).goal_iff_where
      (fun p : SequenceState × IngestWorld => Undoing call p.1.whole p.2.toIngestStore)
      (fun p => Retryable call p.1.world.toIngestStore p.2.toIngestStore)
      (fun p => Stranded call p.1.whole p.2.toIngestStore) ?_ ?_ ?_ (Undoing.begin call w) ?_ ?_
    · rintro ⟨s, a⟩ l ⟨t, b⟩ hundoing hkept ⟨⟨hclean, hstep⟩, rfl⟩
      exact hundoing.step hkept hclean hstep
    · rintro ⟨s, a⟩ l ⟨t, b⟩ hundoing hlost ⟨⟨-, hstep⟩, rfl⟩
      exact hundoing.lose hlost hstep
    · rintro ⟨s, a⟩ l ⟨t, b⟩ hstranded ⟨⟨-, hstep⟩, rfl⟩
      exact hstranded.step hstep
    · intro hundoing
      exact .of_undoing hundoing hraised
    · intro hstranded
      exact hstranded.not_retryable
  · intro hduplicate h
    refine ((run_tracked h w).invariant (I := fun p => Uninvolved p.1 p.2) ?_
      (fun _ => ⟨rfl, rfl⟩) (Or.inr hduplicate)).1
    rintro ⟨s, a⟩ l ⟨t, b⟩ huninvolved ⟨hstep, rfl⟩
    exact huninvolved.step hstep

/-- Nothing is stored yet, the mode of the camera is set. -/
def sampleIngestWorld : IngestWorld :=
  { sampleIngestStart.shared with objects := fun _ => none }

/-- The reply to the SET NX is lost: the key stays, though the call has raised. -/
def sampleUnclaimed : SequenceState :=
  sampleIngestCall.receive .lost (.begin sampleIngestWorld)

/-- The upload of the frame fails, and the call cleans up. -/
def sampleUploading : SequenceState :=
  sampleIngestCall.receive .done (sampleIngestCall.receive .done (.begin sampleIngestWorld))

def sampleUploadFailed : SequenceState :=
  sampleIngestCall.finish 0 ⟨0, "QUJD"⟩ .failed sampleUploading

def sampleCleanedUp : SequenceState :=
  sampleIngestCall.receive .done sampleUploadFailed

/-- With the reply to the SET NX lost the key stays, and the sequence is a duplicate ever after. -/
theorem not_always_retryable : ¬∀ (call : IngestCall) (w : IngestWorld) (ls : List SequenceMove)
    (t : SequenceState) (cause : Exn), t.phase = .raised cause →
      Run (Where CleanupExecuted (Accepts call)) (.begin w) ls t →
        Retryable call t.world.toIngestStore (ls.foldl othersAlone w).toIngestStore := by
  intro h
  have hrun : Run (Where CleanupExecuted (Accepts sampleIngestCall)) (.begin sampleIngestWorld)
      [.command .lost] sampleUnclaimed := by
    refine .single ⟨?_, .command rfl (by decide +kernel)⟩
    intro cause hcleaning
    cases hcleaning
  have hkeys := (h _ _ _ _ .outage (by decide +kernel) hrun).keys
  have hset : sampleUnclaimed.world.keys sampleIngestCall.key ≠
      sampleIngestWorld.keys sampleIngestCall.key := by decide +kernel
  exact hset (congrFun hkeys _)

theorem retryable_iff_replyKept_sample :
    Retryable sampleIngestCall sampleCleanedUp.world.toIngestStore
      sampleIngestWorld.toIngestStore := by
  have hkept : ∀ s l, l ≠ .command .lost → ReplyKept sampleIngestCall s l :=
    fun s l hl hlost => absurd hlost hl
  have hclean : ∀ s l, l ≠ .command .failed → CleanupExecuted s l := fun s l hl _ _ => hl
  have hrun : Run (Where (ReplyKept sampleIngestCall)
      (Where CleanupExecuted (Accepts sampleIngestCall))) (.begin sampleIngestWorld)
      [.command .done, .command .done, .upload 0 .failed, .command .done] sampleCleanedUp := by
    refine .cons ⟨hkept _ _ (by simp), hclean _ _ (by simp), .command rfl (by decide +kernel)⟩ ?_
    refine .cons ⟨hkept _ _ (by simp), hclean _ _ (by simp),
      .command (by decide +kernel) (by decide +kernel)⟩ ?_
    refine .cons ⟨hkept _ _ (by simp), hclean _ _ (by simp),
      .upload rfl (by decide +kernel)⟩ ?_
    exact .single ⟨hkept _ _ (by simp), hclean _ _ (by simp),
      .command (by decide +kernel) (by decide +kernel)⟩
  exact ((retryable_iff_replyKept _ _ _ sampleCleanedUp).1 .outage (by decide +kernel)
    hrun.of_where).mpr hrun

end ArgusServices

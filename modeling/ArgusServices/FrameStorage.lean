import ArgusServices.IngestRetry
import ArgusServices.PlaybackKeys

namespace ArgusServices

open Effect Transition

/-- The bounds that the schema puts on the frames of a request. -/
def IngestSequenceRequest.Admitted (request : IngestSequenceRequest) : Prop :=
  1 ≤ request.frames.length ∧ request.frames.length ≤ 30

/-- No other call runs for the sequence: what others store are frames of other ones. -/
def OtherSequences (call : IngestCall) (_ : SequenceState) : SequenceMove → Prop
  | .other (.putObject key _) => ∃ (other : IngestCall) (frame : FramePayload),
      other.request.ingestionId ≠ call.request.ingestionId ∧ key = other.frameKey frame
  | _ => True

/-- The event that a call puts on the stream. -/
def IngestCall.event (call : IngestCall) : IngestEvent :=
  ingestEvent call.request (call.request.frames.map call.frameUri)

/-- An event has one URI for each frame, in order, and the object there is the decoded frame. -/
structure IngestCall.Lossless (call : IngestCall) (event : IngestEvent) (w : IngestWorld) :
    Prop where
  length : event.frameUris.length = call.request.frames.length
  stored : ∀ (k : Nat) uri frame, event.frameUris[k]? = some uri →
    call.request.frames[k]? = some frame → ∃ key data,
      uri = "s3://" ++ call.bucket ++ "/" ++ key ∧ b64decode frame.content = some data ∧
        w.objects key = some data

/-- Frames of one index have one content. -/
def IngestSequenceRequest.FramesAgree (request : IngestSequenceRequest) : Prop :=
  ∀ frame ∈ request.frames, ∀ frame' ∈ request.frames, frame.index = frame'.index →
    b64decode frame.content = b64decode frame'.content

variable {call : IngestCall} {s t : SequenceState} {l : SequenceMove} {w : IngestWorld}
  {ls : List SequenceMove} {frame : FramePayload} {r : Reply}

theorem frameKey_eq_iff {frame' : FramePayload} :
    call.frameKey frame = call.frameKey frame' ↔ frame.index = frame'.index := by
  constructor
  · intro h
    obtain ⟨-, -, -, hindex⟩ := frameKey_inj h
    exact hindex
  · intro h
    rw [IngestCall.frameKey, IngestCall.frameKey, h]

/-- Two frames of one index share their object. -/
theorem IngestCall.Lossless.agree (h : call.Lossless call.event w) :
    call.request.FramesAgree := by
  have hobject : ∀ frame ∈ call.request.frames,
      w.objects (call.frameKey frame) = b64decode frame.content := by
    intro frame hframe
    obtain ⟨k, hk⟩ := List.mem_iff_getElem?.mp hframe
    have huri : call.event.frameUris[k]? = some (call.frameUri frame) := by
      simp [IngestCall.event, ingestEvent, hk]
    obtain ⟨key, data, hkey, hdata, hstored⟩ := h.stored k _ frame huri hk
    rw [IngestCall.frameUri, String.append_right_inj] at hkey
    rw [hkey, hstored, hdata]
  intro frame hframe frame' hframe' hindex
  rw [← hobject frame hframe, ← hobject frame' hframe', frameKey_eq_iff.mpr hindex]

/-- The uploads that are through have left the content of their frames. -/
def FramesHeld (call : IngestCall) (s : SequenceState) : Prop :=
  ∀ (k : Nat) uri frame, s.uploads[k]? = some (.stored uri) →
    call.request.frames[k]? = some frame →
      s.world.objects (call.frameKey frame) = b64decode frame.content

theorem uploadOne_objects (hagree : call.request.FramesAgree) (hframe : frame ∈ call.request.frames)
    {other : FramePayload} (hother : other ∈ call.request.frames)
    (h : w.objects (call.frameKey other) = b64decode other.content) :
    (call.uploadOne frame r w).1.objects (call.frameKey other) = b64decode other.content := by
  unfold IngestCall.uploadOne
  split
  next => exact h
  next data hdata =>
    dsimp only
    split
    next =>
      dsimp only
      by_cases hkey : call.frameKey other = call.frameKey frame
      · rw [hkey, Function.update_self, ← hdata]
        exact hagree frame hframe other hother (frameKey_eq_iff.mp hkey).symm
      · rw [Function.update_of_ne hkey]
        exact h
    next => exact h

theorem uploadOne_stores {uri : String} (h : (call.uploadOne frame r w).2 = .stored uri) :
    (call.uploadOne frame r w).1.objects (call.frameKey frame) = b64decode frame.content := by
  unfold IngestCall.uploadOne at h ⊢
  split at h
  next => cases h
  next data hdata =>
    cases r with
    | done =>
      simp only [Reply.executed, if_pos]
      rw [Function.update_self, hdata]
    | failed => cases h
    | lost => cases h

theorem FramesHeld.step (hh : FramesHeld call s) (hagree : call.request.FramesAgree)
    (hothers : OtherSequences call s l) (h : Accepts call s l t) : FramesHeld call t := by
  cases h with
  | @command r hended hphase =>
    intro k uri frame hk hframe
    simp only [IngestCall.receive] at hk ⊢
    split at hk
    next =>
      rw [List.getElem?_map, Option.map_eq_some_iff] at hk
      obtain ⟨_, -, huri⟩ := hk
      cases huri
    next => exact hh k uri frame hk hframe
  | @upload j frame r hframe hpending =>
    intro k uri other hk hother
    simp only [IngestCall.finish] at hk ⊢
    have hmem := List.mem_of_getElem? hframe
    by_cases hj : j = k
    · subst hj
      obtain rfl := Option.some.inj (hframe.symm.trans hother)
      obtain ⟨hlt, -⟩ := List.getElem?_eq_some_iff.mp hpending
      rw [List.getElem?_set_self hlt] at hk
      exact uploadOne_stores (Option.some.inj hk)
    · rw [List.getElem?_set_ne hj] at hk
      exact uploadOne_objects hagree hmem (List.mem_of_getElem? hother) (hh k uri other hk hother)
  | gathered hphase huris => exact hh
  | @other m hended hsparing =>
    intro k uri frame hk hframe
    have hold := hh k uri frame hk hframe
    cases m with
    | putObject key data =>
      obtain ⟨other, frame', hne, rfl⟩ := hothers
      have hkey : call.frameKey frame ≠ other.frameKey frame' := by
        intro heq
        obtain ⟨-, -, hingestion, -⟩ := frameKey_inj heq
        exact hne hingestion.symm
      simp only [OtherMove.apply]
      rw [Function.update_of_ne hkey]
      exact hold
    | setKey key entry => exact hold
    | enqueue event => exact hold

/-- From `gather` on the uploads are all through, and in the end the event is on the stream. -/
structure Gathered (call : IngestCall) (s : SequenceState) : Prop where
  uploaded : ∀ uris, s.phase = .uploaded uris →
    s.uploads = uris.map .stored ∧ uris = call.request.frames.map call.frameUri
  queued : s.phase = call.respond .queued →
    s.uploads = (call.request.frames.map call.frameUri).map .stored ∧
      s.world.stream.getLast? = some call.event

/-- Only the XADD that is done ends a call as queued. -/
theorem step_queued {w : IngestStore} {p : IngestPhase} (hp : p.ended = false)
    (h : (call.step (w, p) r).2 = call.respond .queued) :
    ∃ uris, p = .uploaded uris ∧ (call.step (w, p) r).1 = call.enqueue w uris := by
  obtain ⟨lost, hstep⟩ := step_ingests call hp w r
  generalize call.step (w, p) r = s' at h hstep
  obtain ⟨w', p'⟩ := s'
  cases hstep with
  | enqueue => exact ⟨_, rfl, rfl⟩
  | _ => simp [IngestCall.respond] at h

theorem step_ne_uploaded {w : IngestStore} {p : IngestPhase} (hp : p.ended = false)
    (hmode : p ≠ .modeChecked) (uris : List String) :
    (call.step (w, p) r).2 ≠ .uploaded uris := by
  intro h
  obtain ⟨lost, hstep⟩ := step_ingests call hp w r
  generalize call.step (w, p) r = s' at h hstep
  obtain ⟨w', p'⟩ := s'
  cases hstep with
  | upload => exact hmode rfl
  | duplicate => cases h
  | enqueue => cases h
  | _ => simp at h

theorem not_pending_of_stored {uris : List String} (h : s.uploads = uris.map .stored) (k : Nat) :
    s.uploads[k]? ≠ some .pending := by
  rw [h, List.getElem?_map]
  cases uris[k]? <;> simp

/-- The end of an upload leads on only while the call uploads, to the clean-up. -/
theorem phase_of_finish {k : Nat} {p : IngestPhase} (hp : (call.finish k frame r s).phase = p)
    (hmode : p ≠ .modeChecked) (hclean : ∀ cause, p ≠ .cleaning cause) : s.phase = p := by
  by_cases hs : s.phase = .modeChecked
  · simp only [IngestCall.finish, hs] at hp
    cases hup : (call.uploadOne frame r s.world).2 with
    | raised cause =>
      rw [hup] at hp
      exact absurd hp.symm (hclean cause)
    | _ =>
      rw [hup] at hp
      exact absurd hp.symm hmode
  · simp only [IngestCall.finish, gather_of_ne hs] at hp
    exact hp

/-- Uploads that are all through were of valid contents, so each has the URI of its frame. -/
theorem UploadsMatch.gathered_eq {uris : List String} (hm : UploadsMatch call s)
    (hphase : s.phase = .modeChecked) (huris : s.uploads = uris.map .stored) :
    uris = call.request.frames.map call.frameUri := by
  have hok := hm.gathered hphase huris
  have hvalid : ∀ frame ∈ call.request.frames, base64Valid frame.content = true := by
    intro frame hframe
    by_contra hinvalid
    rw [uploadFrames_of_invalid hframe (by simpa using hinvalid)] at hok
    cases hok
  rw [uploadFrames_of_valid hvalid] at hok
  exact (Except.ok.inj hok).symm

theorem Gathered.step (hg : Gathered call s) (hm : UploadsMatch call s)
    (h : Accepts call s l t) : Gathered call t := by
  cases h with
  | @command r hended hphase =>
    constructor
    · intro uris huris
      exact absurd huris (step_ne_uploaded hended hphase uris)
    · intro hqueued
      obtain ⟨uris, huploaded, hstore⟩ := step_queued hended hqueued
      obtain ⟨huploads, rfl⟩ := hg.uploaded uris huploaded
      have hne : (call.step s.whole r).2 ≠ .modeChecked := by
        intro hmode
        have heq : call.respond .queued = .modeChecked := hqueued.symm.trans hmode
        cases heq
      refine ⟨?_, ?_⟩
      · simp only [IngestCall.receive, if_neg hne]
        exact huploads
      · have hstream : (call.receive r s).world.stream = s.world.stream ++ [call.event] :=
          congrArg IngestStore.stream hstore
        rw [hstream]
        exact List.getLast?_concat
  | @upload k frame r hframe hpending =>
    have hrunning : ∀ uris : List String, s.uploads ≠ uris.map .stored := by
      intro uris huris
      exact not_pending_of_stored huris k hpending
    constructor
    · intro uris huris
      have hs := phase_of_finish huris (by simp) (by simp)
      exact absurd (hg.uploaded uris hs).1 (hrunning uris)
    · intro hqueued
      have hs := phase_of_finish hqueued (by simp [IngestCall.respond]) (by simp [IngestCall.respond])
      exact absurd (hg.queued hs).1 (hrunning _)
  | @gathered uris hphase huris =>
    constructor
    · intro uris' heq
      cases heq
      exact ⟨huris, hm.gathered_eq hphase huris⟩
    · intro heq
      cases heq
  | @other m hended hsparing =>
    constructor
    · exact hg.uploaded
    · intro hqueued
      have hs : s.phase = call.respond .queued := hqueued
      rw [hs] at hended
      cases hended

theorem run_gathered (h : Run (Accepts call) (.begin w) ls s) :
    UploadsMatch call s ∧ Gathered call s := by
  refine h.invariant (I := fun s => UploadsMatch call s ∧ Gathered call s) ?_ ⟨.begin call w, ?_⟩
  · intro s l t hi hstep
    exact ⟨hi.1.step hstep, hi.2.step hi.1 hstep⟩
  · constructor
    · intro uris huris
      cases huris
    · intro hqueued
      cases hqueued

/-- A call that is queued has put its event with one URI for each frame on the stream; the objects
there are the frames exactly if frames of one index have one content. -/
theorem lossless_iff_framesAgree (call : IngestCall) (w : IngestWorld) (ls : List SequenceMove)
    (s : SequenceState) (hqueued : s.phase = call.respond .queued)
    (h : Run (Where (OtherSequences call) (Accepts call)) (.begin w) ls s) :
    s.world.stream.getLast? = some call.event ∧
      call.event.frameUris = call.request.frames.map call.frameUri ∧
        (call.Lossless call.event s.world ↔ call.request.FramesAgree) := by
  obtain ⟨hm, hg⟩ := run_gathered h.of_where
  obtain ⟨huploads, hevent⟩ := hg.queued hqueued
  refine ⟨hevent, rfl, fun hlossless => hlossless.agree, ?_⟩
  intro hagree
  have hheld : FramesHeld call s := by
    refine h.invariant_where ?_ ?_
    · intro s l t hheld hothers hstep
      exact hheld.step hagree hothers hstep
    · intro k uri frame hk
      simp [SequenceState.begin] at hk
  refine ⟨List.length_map _, ?_⟩
  intro k uri frame hk hframe
  have huri : uri = call.frameUri frame := by
    simpa [IngestCall.event, ingestEvent, hframe, eq_comm] using hk
  have hstored : s.uploads[k]? = some (.stored uri) := by
    rw [huploads, List.getElem?_map]
    exact congrArg (Option.map UploadPhase.stored) hk
  obtain ⟨frame', hframe', hvalid, -⟩ := hm.uri k uri hstored
  obtain rfl := Option.some.inj (hframe.symm.trans hframe')
  have hobject := hheld k uri frame hstored hframe
  refine ⟨call.frameKey frame, _, huri, if_pos hvalid, ?_⟩
  rw [hobject]
  exact if_pos hvalid

/-- Two frames of different content, the first of index 0. -/
def sampleTwoFrames (index : Nat) : IngestCall :=
  { sampleIngestCall with
    request := { sampleIngestCall.request with frames := [⟨0, "QUJD"⟩, ⟨index, "QQ=="⟩] } }

def sampleTwoUploaded (index : Nat) : SequenceState :=
  let call := sampleTwoFrames index
  let uploading := call.receive .done (call.receive .done (.begin sampleIngestWorld))
  call.finish 1 ⟨index, "QQ=="⟩ .done (call.finish 0 ⟨0, "QUJD"⟩ .done uploading)

def sampleTwoQueued (index : Nat) : SequenceState :=
  (sampleTwoFrames index).receive .done { sampleTwoUploaded index with
    phase := .uploaded ((sampleTwoFrames index).request.frames.map (sampleTwoFrames index).frameUri) }

theorem run_sampleTwoQueued {index : Nat} (h : index = 0 ∨ index = 1) :
    Run (Where (OtherSequences (sampleTwoFrames index)) (Accepts (sampleTwoFrames index)))
      (.begin sampleIngestWorld) [.command .done, .command .done, .upload 0 .done, .upload 1 .done,
        .gathered, .command .done] (sampleTwoQueued index) := by
  have huris : (sampleTwoUploaded index).uploads =
      ((sampleTwoFrames index).request.frames.map (sampleTwoFrames index).frameUri).map .stored := by
    rcases h with rfl | rfl <;> decide +kernel
  rcases h with rfl | rfl <;>
  · refine .cons ⟨trivial, .command rfl (by decide +kernel)⟩ ?_
    refine .cons ⟨trivial, .command (by decide +kernel) (by decide +kernel)⟩ ?_
    refine .cons ⟨trivial, .upload rfl (by decide +kernel)⟩ ?_
    refine .cons ⟨trivial, .upload rfl (by decide +kernel)⟩ ?_
    refine .cons ⟨trivial, .gathered (by decide +kernel) huris⟩ ?_
    exact .single ⟨trivial, .command rfl (by decide +kernel)⟩

/-- Of two frames of one index the object is the one uploaded last. -/
theorem not_always_lossless : ¬∀ (call : IngestCall) (w : IngestWorld) (ls : List SequenceMove)
    (s : SequenceState), call.request.Admitted → s.phase = call.respond .queued →
      Run (Where (OtherSequences call) (Accepts call)) (.begin w) ls s →
        call.Lossless call.event s.world := by
  intro h
  have hlossless := h (sampleTwoFrames 0) _ _ (sampleTwoQueued 0) ⟨by decide, by decide⟩ rfl
    (run_sampleTwoQueued (Or.inl rfl))
  have hagree := hlossless.agree ⟨0, "QUJD"⟩ (by decide) ⟨0, "QQ=="⟩ (by decide) rfl
  revert hagree
  decide +kernel

theorem lossless_iff_framesAgree_sample :
    (sampleTwoFrames 1).Lossless (sampleTwoFrames 1).event (sampleTwoQueued 1).world := by
  refine (lossless_iff_framesAgree _ _ _ (sampleTwoQueued 1) rfl
    (run_sampleTwoQueued (Or.inr rfl))).2.2.mpr ?_
  unfold IngestSequenceRequest.FramesAgree
  decide +kernel

end ArgusServices

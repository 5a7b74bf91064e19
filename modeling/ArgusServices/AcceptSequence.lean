import ArgusServices.IngestRun

namespace ArgusServices

open Effect Transition

/-- The place of a character in the base64 alphabet. -/
def base64Value (c : Char) : Nat :=
  if c.isUpper then c.toNat - 65
  else if c.isLower then c.toNat - 71
  else if c.isDigit then c.toNat + 4
  else if c = '+' then 62
  else 63

def base64Bytes : List Nat → List UInt8
  | a :: b :: c :: d :: rest =>
    UInt8.ofNat (a * 4 + b / 16) :: UInt8.ofNat (b % 16 * 16 + c / 4) ::
      UInt8.ofNat (c % 4 * 64 + d) :: base64Bytes rest
  | [a, b, c] => [UInt8.ofNat (a * 4 + b / 16), UInt8.ofNat (b % 16 * 16 + c / 4)]
  | [a, b] => [UInt8.ofNat (a * 4 + b / 16)]
  | _ => []

/-- `b64decode(text, validate=True)`. -/
def b64decode (text : String) : Option (List UInt8) :=
  if base64Valid text then
    some (base64Bytes ((text.toList.takeWhile base64Char).map base64Value))
  else none

example : b64decode "QUJD" = some [65, 66, 67] := by decide +kernel

example : b64decode "QQ==" = some [65] := by decide +kernel

/-- What a call reads and writes: the Redis store, and the objects of the frame bucket by key. -/
structure IngestWorld extends IngestStore where
  objects : String → Option (List UInt8)

def IngestCall.frameKey (call : IngestCall) (frame : FramePayload) : String :=
  call.request.tenantId.str ++ "/" ++ call.request.cameraId.str ++ "/" ++
    call.request.ingestionId.str ++ "/" ++ toString frame.index ++ ".bin"

def IngestCall.frameUri (call : IngestCall) (frame : FramePayload) : String :=
  "s3://" ++ call.bucket ++ "/" ++ call.frameKey frame

/-- Where the upload of a frame stands. -/
inductive UploadPhase
  | pending
  | stored (uri : String)
  | raised (cause : Exn)
  deriving DecidableEq, Repr

/-- `_upload_one`, with the answer to its `put_object`. -/
def IngestCall.uploadOne (call : IngestCall) (frame : FramePayload) (r : Reply) (w : IngestWorld) :
    IngestWorld × UploadPhase :=
  match b64decode frame.content with
  | none => (w, .raised (.httpException 400 "Invalid base64 frame content"))
  | some data =>
    (if r.executed then
        { w with objects := Function.update w.objects (call.frameKey frame) (some data) }
      else w,
      if r.raises then .raised .outage else .stored (call.frameUri frame))

/-- `gather` hands the first exception on at once and lets the other uploads run. -/
def IngestPhase.gather : IngestPhase → UploadPhase → IngestPhase
  | .modeChecked, .raised cause => .cleaning cause
  | p, _ => p

/-- A call of `accept_sequence` with its uploads, one for each frame once they have started. -/
structure SequenceState where
  world : IngestWorld
  uploads : List UploadPhase
  phase : IngestPhase

def SequenceState.begin (w : IngestWorld) : SequenceState :=
  ⟨w, [], .begun⟩

/-- What the call itself is about, with the upload taken as one step. -/
def SequenceState.whole (s : SequenceState) : IngestStore × IngestPhase :=
  (s.world.toIngestStore, s.phase)

/-- The Redis command the call waits for is answered; with the mode checked the uploads start. -/
def IngestCall.receive (call : IngestCall) (r : Reply) (s : SequenceState) : SequenceState :=
  let next := call.step s.whole r
  { world := { s.world with toIngestStore := next.1 }
    uploads := if next.2 = .modeChecked then call.request.frames.map fun _ => .pending
      else s.uploads
    phase := next.2 }

/-- The upload of the frame at place `k` comes to its end. -/
def IngestCall.finish (call : IngestCall) (k : Nat) (frame : FramePayload) (r : Reply)
    (s : SequenceState) : SequenceState :=
  let next := call.uploadOne frame r s.world
  { world := next.1, uploads := s.uploads.set k next.2, phase := s.phase.gather next.2 }

/-- What others do to the store and the bucket meanwhile. -/
inductive OtherMove
  | setKey (key : String) (entry : Option RedisEntry)
  | enqueue (event : IngestEvent)
  | putObject (key : String) (data : List UInt8)

def OtherMove.apply (m : OtherMove) (w : IngestWorld) : IngestWorld :=
  match m with
  | .setKey key entry => { w with keys := Function.update w.keys key entry }
  | .enqueue event => { w with stream := w.stream ++ [event] }
  | .putObject key data => { w with objects := Function.update w.objects key (some data) }

/-- No other call for the sequence runs: nobody else sets its key, which may still expire. -/
def OtherMove.Sparing (key : String) : OtherMove → Prop
  | .setKey other entry => other = key → entry = none
  | .enqueue _ | .putObject _ _ => True

inductive SequenceMove
  | command (r : Reply)
  | upload (k : Nat) (r : Reply)
  | gathered
  | other (m : OtherMove)

/-- The steps while a call runs: a command or an upload of it ends, `gather` returns when all
uploads have, or others move. Uploads that still run when the call raises go on. -/
inductive Accepts (call : IngestCall) : SequenceState → SequenceMove → SequenceState → Prop
  | command {s : SequenceState} {r : Reply} : s.phase.ended = false → s.phase ≠ .modeChecked →
      Accepts call s (.command r) (call.receive r s)
  | upload {s : SequenceState} {k : Nat} {frame : FramePayload} {r : Reply} :
      call.request.frames[k]? = some frame → s.uploads[k]? = some .pending →
      Accepts call s (.upload k r) (call.finish k frame r s)
  | gathered {s : SequenceState} {uris : List String} : s.phase = .modeChecked →
      s.uploads = uris.map .stored → Accepts call s .gathered { s with phase := .uploaded uris }
  | other {s : SequenceState} {m : OtherMove} : s.phase.ended = false → m.Sparing call.key →
      Accepts call s (.other m) { s with world := m.apply s.world }

variable {call : IngestCall} {s t : SequenceState} {l : SequenceMove} {p : IngestPhase}
  {u : UploadPhase} {frame : FramePayload} {r : Reply} {w : IngestWorld}

@[simp] theorem receive_whole : (call.receive r s).whole = call.step s.whole r :=
  rfl

@[simp] theorem uploadOne_store :
    (call.uploadOne frame r w).1.toIngestStore = w.toIngestStore := by
  unfold IngestCall.uploadOne
  split
  · rfl
  · dsimp only
    split <;> rfl

theorem gather_of_ne (hp : p ≠ .modeChecked) (u : UploadPhase) : p.gather u = p := by
  unfold IngestPhase.gather
  split
  · exact absurd rfl hp
  · rfl

theorem gather_stored (p : IngestPhase) (uri : String) : p.gather (.stored uri) = p := by
  unfold IngestPhase.gather
  split
  next heq => cases heq
  next => rfl

theorem gather_eq_modeChecked (h : p.gather u = .modeChecked) : p = .modeChecked := by
  by_contra hp
  rw [gather_of_ne hp] at h
  exact hp h

theorem finish_whole (k : Nat) : (call.finish k frame r s).whole =
    (s.world.toIngestStore, s.phase.gather (call.uploadOne frame r s.world).2) :=
  Prod.ext uploadOne_store rfl

theorem finish_whole_of_ne (hs : s.phase ≠ .modeChecked) (k : Nat) :
    (call.finish k frame r s).whole = s.whole := by
  rw [finish_whole, gather_of_ne hs]
  rfl

theorem b64decode_eq_none {text : String} : b64decode text = none ↔ base64Valid text = false := by
  simp [b64decode]

theorem uploadOne_stored {uri : String} (h : (call.uploadOne frame r w).2 = .stored uri) :
    base64Valid frame.content = true ∧ uri = call.frameUri frame := by
  unfold IngestCall.uploadOne at h
  split at h
  next => cases h
  next data hdata =>
    dsimp only at h
    split at h
    next => cases h
    next =>
      cases h
      refine ⟨?_, rfl⟩
      by_contra hvalid
      rw [b64decode_eq_none.mpr (by simpa using hvalid)] at hdata
      cases hdata

theorem uploadOne_of_valid (call : IngestCall) (w : IngestWorld)
    (h : base64Valid frame.content = true) :
    (call.uploadOne frame .done w).2 = .stored (call.frameUri frame) := by
  unfold IngestCall.uploadOne b64decode
  rw [if_pos h]
  rfl

theorem uploadOne_raised {cause : Exn} (h : (call.uploadOne frame r w).2 = .raised cause) :
    base64Valid frame.content = false ∧ cause = .httpException 400 "Invalid base64 frame content" ∨
      cause = .outage := by
  unfold IngestCall.uploadOne at h
  split at h
  next hdata =>
    cases h
    exact Or.inl ⟨b64decode_eq_none.mp hdata, rfl⟩
  next data hdata =>
    dsimp only at h
    split at h
    next =>
      cases h
      exact Or.inr rfl
    next => cases h

theorem uploadFrames_of_valid
    (h : ∀ frame ∈ call.request.frames, base64Valid frame.content = true) :
    uploadFrames call = .ok (call.request.frames.map call.frameUri) := by
  refine mapM_eq_map ?_
  intro frame hframe
  rw [if_pos (h frame hframe)]
  simp [IngestCall.frameUri, IngestCall.frameKey, String.append_assoc]

theorem uploadFrames_of_invalid (hframe : frame ∈ call.request.frames)
    (h : base64Valid frame.content = false) :
    uploadFrames call = .error (.httpException 400 "Invalid base64 frame content") := by
  refine mapM_eq_error ?_ ⟨frame, hframe, if_neg (by simp [h])⟩
  intro x
  split
  · exact Or.inr ⟨_, rfl⟩
  · exact Or.inl rfl

/-- The uploads stand in the order of the frames; one that is stored has its frame's URI. -/
structure UploadsMatch (call : IngestCall) (s : SequenceState) : Prop where
  length : s.phase = .modeChecked → s.uploads.length = call.request.frames.length
  uri : ∀ (k : Nat) (uri : String), s.uploads[k]? = some (.stored uri) →
    ∃ frame, call.request.frames[k]? = some frame ∧ base64Valid frame.content = true ∧
      uri = call.frameUri frame

theorem UploadsMatch.begin (call : IngestCall) (w : IngestWorld) :
    UploadsMatch call (.begin w) := by
  constructor
  · intro h
    cases h
  · intro k uri h
    simp [SequenceState.begin] at h

theorem UploadsMatch.step (hm : UploadsMatch call s) (h : Accepts call s l t) :
    UploadsMatch call t := by
  cases h with
  | @command r hended hphase =>
    unfold IngestCall.receive
    dsimp only
    split
    next =>
      refine ⟨fun _ => by simp, ?_⟩
      intro k uri hk
      rw [List.getElem?_map, Option.map_eq_some_iff] at hk
      obtain ⟨_, -, huri⟩ := hk
      cases huri
    next hne => exact ⟨fun hmode => absurd hmode hne, hm.uri⟩
  | @upload k frame r hframe hpending =>
    refine ⟨?_, ?_⟩
    · intro hmode
      unfold IngestCall.finish
      rw [List.length_set]
      exact hm.length (gather_eq_modeChecked hmode)
    · intro j uri hj
      unfold IngestCall.finish at hj
      rw [List.getElem?_set] at hj
      split at hj
      next heq =>
        subst heq
        split at hj
        next =>
          obtain ⟨hvalid, huri⟩ := uploadOne_stored (Option.some.inj hj)
          exact ⟨frame, hframe, hvalid, huri⟩
        next => cases hj
      next => exact hm.uri j uri hj
  | gathered hphase huris =>
    refine ⟨?_, hm.uri⟩
    intro hmode
    cases hmode
  | other hended hsparing => exact ⟨hm.length, hm.uri⟩

/-- What `gather` returns is what the upload of all frames in one step returns. -/
theorem UploadsMatch.gathered {uris : List String} (hm : UploadsMatch call s)
    (hphase : s.phase = .modeChecked) (huris : s.uploads = uris.map .stored) :
    uploadFrames call = .ok uris := by
  have hlength := hm.length hphase
  rw [huris, List.length_map] at hlength
  have hframe : ∀ (k : Nat) frame, call.request.frames[k]? = some frame →
      base64Valid frame.content = true ∧ uris[k]? = some (call.frameUri frame) := by
    intro k frame hk
    obtain ⟨hlt, -⟩ := List.getElem?_eq_some_iff.mp hk
    have hstored : s.uploads[k]? = some (.stored uris[k]) := by
      rw [huris, List.getElem?_map, List.getElem?_eq_getElem (hlength ▸ hlt)]
      rfl
    obtain ⟨frame', hk', hvalid, huri⟩ := hm.uri k _ hstored
    obtain rfl := Option.some.inj (hk.symm.trans hk')
    exact ⟨hvalid, by rw [List.getElem?_eq_getElem (hlength ▸ hlt), huri]⟩
  have hvalid : ∀ frame ∈ call.request.frames, base64Valid frame.content = true := by
    intro frame hmem
    obtain ⟨k, hk⟩ := List.mem_iff_getElem?.mp hmem
    exact (hframe k frame hk).1
  have hsame : call.request.frames.map call.frameUri = uris := by
    refine List.ext_getElem? ?_
    intro k
    rw [List.getElem?_map]
    cases hk : call.request.frames[k]? with
    | none =>
      rw [Option.map_none]
      exact (List.getElem?_eq_none (hlength ▸ List.getElem?_eq_none_iff.mp hk)).symm
    | some frame => exact (hframe k frame hk).2.symm
  rw [uploadFrames_of_valid hvalid, hsame]

/-- Every step of the call's own leaves it where it was, or is a step of it with the upload taken
as one. -/
theorem Accepts.refines (hm : UploadsMatch call s) (h : Accepts call s l t)
    (hown : ∀ m, l ≠ .other m) : t.whole = s.whole ∨ ∃ r, t.whole = call.step s.whole r := by
  cases h with
  | @command r hended hphase => exact Or.inr ⟨r, rfl⟩
  | @upload k frame r hframe hpending =>
    have hmem : frame ∈ call.request.frames := List.mem_of_getElem? hframe
    by_cases hphase : s.phase = .modeChecked
    · rw [finish_whole]
      cases hup : (call.uploadOne frame r s.world).2 with
      | pending => exact Or.inl (by simp [SequenceState.whole, hphase, IngestPhase.gather])
      | stored uri => exact Or.inl (by rw [gather_stored]; rfl)
      | raised cause =>
        right
        rcases uploadOne_raised hup with ⟨hinvalid, rfl⟩ | rfl
        · refine ⟨.done, ?_⟩
          simp only [IngestCall.step, IngestCall.advance, SequenceState.whole, hphase,
            uploadFrames_of_invalid hmem hinvalid]
          rfl
        · refine ⟨.failed, ?_⟩
          simp only [IngestCall.step, IngestCall.fail, SequenceState.whole, hphase]
          rfl
    · exact Or.inl (finish_whole_of_ne hphase k)
  | @gathered uris hphase huris =>
    refine Or.inr ⟨.done, ?_⟩
    simp only [IngestCall.step, IngestCall.advance, SequenceState.whole, hphase,
      hm.gathered hphase huris]
  | @other m hended hsparing => exact absurd rfl (hown m)

/-- A call that nobody interferes with gets through what it gets through with the upload taken as
one step. -/
theorem run_refines {ls : List SequenceMove}
    (h : Run (Where (fun _ l => ∀ m, l ≠ .other m) (Accepts call)) (.begin w) ls t) :
    ∃ rs, t.whole = call.run rs (w.toIngestStore, .begun) := by
  refine (h.invariant_where (I := fun s => UploadsMatch call s ∧
    ∃ rs, s.whole = call.run rs (w.toIngestStore, .begun)) ?_ ⟨.begin call w, [], rfl⟩).2
  rintro s l t ⟨hm, rs, hrs⟩ hown hstep
  refine ⟨hm.step hstep, ?_⟩
  rcases hstep.refines hm hown with hsame | ⟨r, hr⟩
  · exact ⟨rs, hsame.trans hrs⟩
  · refine ⟨rs ++ [r], ?_⟩
    rw [hr, hrs]
    simp [IngestCall.run]

end ArgusServices

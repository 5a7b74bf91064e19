import ArgusServices.AcceptSequence
import ArgusServices.DetailView

namespace ArgusServices

open Effect

/-- The default bucket of the settings, and how the client signs a `get_object` of a bucket and a
key for so many seconds. -/
structure Storage where
  s3BucketName : String
  presign : String → String → Int → Except Exn String

/-- The objects by bucket and key. -/
abbrev Objects := String → String → Option (List UInt8)

/-- `bucket or settings.s3_bucket_name`. -/
def Storage.bucketName (storage : Storage) (bucket : Option String) : String :=
  (truthy bucket).getD storage.s3BucketName

def Storage.uploadBytes (storage : Storage) (key : String) (data : List UInt8)
    (bucket : Option String) (objects : Objects) : String × Objects :=
  let name := storage.bucketName bucket
  ("s3://" ++ name ++ "/" ++ key,
    Function.update objects name (Function.update (objects name) key (some data)))

def Storage.generatePresignedGetUrl (storage : Storage) (key : String) (expiresIn : Int)
    (bucket : Option String) : Except Exn String :=
  storage.presign (storage.bucketName bucket) key expiresIn

/-- The triage routes over this storage; they leave the bucket and the time to their defaults. -/
def Storage.serves (storage : Storage) (lib : TriageLibrary) : TriageLibrary :=
  { lib with presignedGetUrl := fun key => storage.generatePresignedGetUrl key 3600 none }

/-- The evidence that the join of `get_evidence_playback` finds. -/
def Session.linkedEvidence (s : Session) (decisionId evidenceId : Uuid) : Option Evidence :=
  if s.tx.decisionEvidences.any fun l =>
      l.decisionId = decisionId && l.evidenceId = evidenceId && s.sees l.tenantId then
    (s.tx.evidences.find evidenceId).filter fun e => s.sees e.tenantId
  else none

def getEvidencePlaybackBody (lib : TriageLibrary) (tenantId decisionId evidenceId : Uuid)
    (auth : AuthContext) : SessionProc Json := do
  openTenantDb tenantId auth
  requireRole [.watcher, .tenantAdmin, .rootAdmin] auth
  let s ← get
  match s.linkedEvidence decisionId evidenceId with
  | none => throw (.httpException 404 "Evidence not found")
  | some evidence =>
    let url ← ofExcept
      (lib.presignedGetUrl (String.ofList (lastPiece 3 evidence.frameStorageUri.toList)))
    commit
    pure (.obj [("playback_url", .str url)])

/-- `GET /tenants/{tenant_id}/decisions/{decision_id}/evidences/{evidence_id}/playback`. -/
def getEvidencePlayback (lib : TriageLibrary) (tenantId decisionId evidenceId : Uuid)
    (auth : AuthContext) (w : World) : Except Exn Json × World :=
  runSession (getEvidencePlaybackBody lib tenantId decisionId evidenceId auth) w

/-- The answer links to the object of the key in the default bucket. -/
def Storage.LinksTo (storage : Storage) (key : String) (answer : Json) : Prop :=
  ∃ url, storage.presign storage.s3BucketName key 3600 = .ok url ∧
    answer.member "playback_url" = some (.str url)

variable {storage : Storage} {lib : TriageLibrary} {w : World} {auth : AuthContext}
  {tenantId decisionId evidenceId : Uuid} {s : Session} {key : String}

theorem lastPiece_append {piece : List Char} (h : '/' ∉ piece) (n : Nat) (rest : List Char) :
    lastPiece (n + 1) (piece ++ '/' :: rest) = lastPiece n rest := by
  have hall : ∀ c ∈ piece, decide (c ≠ '/') = true := by
    intro c hc
    have hne : c ≠ '/' := by
      rintro rfl
      exact h hc
    simpa using hne
  rw [lastPiece, List.dropWhile_append_of_pos hall]
  simp

/-- The split at the third separator leaves the key, whatever is in it. -/
theorem lastPiece_uploadBytes (hbucket : '/' ∉ storage.s3BucketName.toList) (data : List UInt8)
    (objects : Objects) :
    lastPiece 3 (storage.uploadBytes key data none objects).1.toList = key.toList := by
  have huri : (storage.uploadBytes key data none objects).1.toList =
      "s3:".toList ++ '/' :: ([] ++ '/' :: (storage.s3BucketName.toList ++ '/' :: key.toList)) := by
    simp [Storage.uploadBytes, Storage.bucketName, truthy]
  rw [huri, lastPiece_append (by decide), lastPiece_append (by simp), lastPiece_append hbucket]
  rfl

theorem playbackUrl_uploadBytes (hbucket : '/' ∉ storage.s3BucketName.toList) (data : List UInt8)
    (objects : Objects) :
    (storage.serves lib).playbackUrl (storage.uploadBytes key data none objects).1 =
      Json.str <$> storage.presign storage.s3BucketName key 3600 := by
  have hprefix : "s3://".toList.isPrefixOf
      (storage.uploadBytes key data none objects).1.toList = true := by
    simp [Storage.uploadBytes]
  rw [TriageLibrary.playbackUrl, if_pos hprefix, lastPiece_uploadBytes hbucket,
    String.ofList_toList]
  rfl

theorem uploadBytes_stores (data : List UInt8) (objects : Objects) :
    (storage.uploadBytes key data none objects).2 storage.s3BucketName key = some data := by
  simp [Storage.uploadBytes, Storage.bucketName, truthy]

theorem keeps_openTenantDb : Keeps (fun s => s.tx) (openTenantDb tenantId auth) := by
  refine (keeps_raiseWhen _ _).bind fun _ => ?_
  split
  · exact keeps_modify fun _ => rfl
  · exact keeps_modify fun _ => rfl

theorem getDecisionBody_answers (lib : TriageLibrary) (tenantId decisionId : Uuid)
    (auth : AuthContext) (s : Session) :
    Ends (getDecisionBody lib tenantId decisionId auth) s
      (fun detail _ => ∃ (decision : Decision) (t : Session) (evidences : List Json), t.tx = s.tx ∧
        (t.evidencesOf decision).mapM lib.evidenceDetail = .ok evidences ∧
        detail = .obj (construct DecisionDetail.fields (lib.detailKwargs decision evidences)))
      (fun _ _ => True) := by
  unfold getDecisionBody
  refine ((keeps_openTenantDb s).mono (fun _ _ h => h) fun _ _ _ => trivial).bind ?_
  intro _ s₁ h₁
  refine ((keeps_raiseWhen _ _ s₁).mono (fun _ _ h => h.trans h₁) fun _ _ _ => trivial).bind ?_
  intro _ s₂ h₂
  simp only [getDecision, ends_bind, ends_get, ends_pure]
  split
  next => trivial
  next decision _ =>
    simp only [ends_bind, ends_get, ends_ofExcept]
    refine ⟨?_, fun _ _ => trivial⟩
    intro evidences hevidences
    exact ⟨decision, s₂, evidences, h₂, hevidences, rfl⟩

theorem find_of_mem_evidencesOf {decision : Decision} {evidence : Evidence}
    (h : evidence ∈ s.evidencesOf decision) :
    s.tx.evidences.find evidence.id = some evidence := by
  obtain ⟨hmem, -⟩ := List.mem_filter.mp h
  obtain ⟨l, -, hfind⟩ := List.mem_filterMap.mp hmem
  have hid : evidence.id = l.evidenceId := s.tx.evidences.keyed _ _ hfind
  rw [hid, hfind]

/-- The view of an evidence names it, and links to the frame that its URI addresses. -/
theorem evidenceDetail_links {evidence : Evidence} {answer : Json}
    (hbucket : '/' ∉ storage.s3BucketName.toList) {data : List UInt8} {objects : Objects}
    (huri : evidence.frameStorageUri = (storage.uploadBytes key data none objects).1)
    (h : (storage.serves lib).evidenceDetail evidence = .ok answer) :
    storage.LinksTo key answer := by
  obtain ⟨value, hvalue, h⟩ := bind_eq_ok.mp h
  rw [huri, playbackUrl_uploadBytes hbucket] at hvalue
  cases hpresign : storage.presign storage.s3BucketName key 3600 with
  | error e =>
    rw [hpresign] at hvalue
    cases hvalue
  | ok url =>
    rw [hpresign] at hvalue
    cases hvalue
    split at h
    next members hmembers =>
      cases h
      exact ⟨url, hpresign, rfl⟩
    next => cases h

theorem evidenceDetail_id {evidence : Evidence} {answer : Json}
    (h : lib.evidenceDetail evidence = .ok answer) :
    answer.member "id" = some (.str evidence.id.str) := by
  obtain ⟨value, -, h⟩ := bind_eq_ok.mp h
  split at h
  next members hmembers =>
    cases h
    rfl
  next => cases h

/-- What `get_decision` shows are evidences of the database, each with its own link. -/
theorem getDecisionDetail_links {detail : Json}
    (h : (getDecisionDetail lib tenantId decisionId auth w).1 = .ok detail) :
    ∃ details, detail.member "evidences" = some (.arr details) ∧ ∀ answer ∈ details,
      ∃ evidence, w.db.evidences.find evidence.id = some evidence ∧
        lib.evidenceDetail evidence = .ok answer := by
  unfold getDecisionDetail runSession at h
  rcases hx : exec (getDecisionBody lib tenantId decisionId auth) (Session.open w) with ⟨r | r, u⟩
  · rw [hx] at h
    cases h
  · rw [hx] at h
    obtain rfl : r = detail := Except.ok.inj h
    obtain ⟨decision, t, evidences, htx, hevidences, rfl⟩ :=
      (getDecisionBody_answers lib tenantId decisionId auth (Session.open w)).ok hx
    refine ⟨evidences, ?_, ?_⟩
    · rw [Json.member, construct_lookup]
      rfl
    · intro answer hanswer
      obtain ⟨evidence, hevidence, hdetail⟩ := exists_of_mem_mapM hevidences answer hanswer
      have hfind := find_of_mem_evidencesOf hevidence
      rw [htx] at hfind
      exact ⟨evidence, hfind, hdetail⟩

/-- What `get_evidence_playback` links to is the frame of the evidence of its path. -/
theorem getEvidencePlayback_links {answer : Json}
    (h : (getEvidencePlayback lib tenantId decisionId evidenceId auth w).1 = .ok answer) :
    ∃ evidence url, w.db.evidences.find evidenceId = some evidence ∧
      lib.presignedGetUrl (String.ofList (lastPiece 3 evidence.frameStorageUri.toList)) = .ok url ∧
      answer.member "playback_url" = some (.str url) := by
  have hends : Ends (getEvidencePlaybackBody lib tenantId decisionId evidenceId auth)
      (Session.open w) (fun answer _ => ∃ evidence url,
        w.db.evidences.find evidenceId = some evidence ∧
        lib.presignedGetUrl (String.ofList (lastPiece 3 evidence.frameStorageUri.toList)) = .ok url ∧
        answer.member "playback_url" = some (.str url)) (fun _ _ => True) := by
    unfold getEvidencePlaybackBody
    refine ((keeps_openTenantDb _).mono (fun _ _ h => h) fun _ _ _ => trivial).bind ?_
    intro _ s₁ h₁
    refine ((keeps_raiseWhen _ _ s₁).mono (fun _ _ h => h.trans h₁) fun _ _ _ => trivial).bind ?_
    intro _ s₂ h₂
    simp only [ends_bind, ends_get]
    split
    next => trivial
    next evidence hfound =>
      unfold Session.linkedEvidence at hfound
      split at hfound
      next =>
        obtain ⟨hfind, -⟩ := Option.filter_eq_some_iff.mp hfound
        rw [h₂] at hfind
        simp only [ends_bind, ends_ofExcept]
        refine ⟨?_, fun _ _ => trivial⟩
        intro url hurl
        exact ⟨evidence, url, hfind, hurl, rfl⟩
      next => cases hfound
  unfold getEvidencePlayback runSession at h
  rcases hx : exec (getEvidencePlaybackBody lib tenantId decisionId evidenceId auth)
    (Session.open w) with ⟨r | r, u⟩
  · rw [hx] at h
    cases h
  · rw [hx] at h
    obtain rfl : r = answer := Except.ok.inj h
    exact hends.ok hx

theorem toString_append_inj {m n : Nat} {t : String} (h : toString m ++ t = toString n ++ t) :
    m = n := by
  have hdigits := congrArg (fun text => Nat.ofDigitChars 10 text.toList 0)
    ((String.append_left_inj t).mp h)
  simpa [Nat.toString_eq_ofList_toDigits] using hdigits

/-- A key tells the tenant, the camera, the sequence and the index of its frame. -/
theorem frameKey_inj {call call' : IngestCall} {frame frame' : FramePayload}
    (h : call.frameKey frame = call'.frameKey frame') :
    call.request.tenantId = call'.request.tenantId ∧
      call.request.cameraId = call'.request.cameraId ∧
      call.request.ingestionId = call'.request.ingestionId ∧ frame.index = frame'.index := by
  simp only [IngestCall.frameKey, String.append_assoc] at h
  obtain ⟨htenant, h⟩ := Uuid.str_append_inj h
  obtain ⟨hcamera, h⟩ := Uuid.str_append_inj ((String.append_right_inj _).mp h)
  obtain ⟨hingestion, h⟩ := Uuid.str_append_inj ((String.append_right_inj _).mp h)
  exact ⟨htenant, hcamera, hingestion,
    toString_append_inj ((String.append_right_inj _).mp h)⟩

/-- The links of both routes for a URI that `upload_bytes` returned are for the object it stored,
and frames of different tenants, cameras, sequences or indexes are stored apart. -/
theorem playback_addresses_upload (storage : Storage) (lib : TriageLibrary) (key : String)
    (data : List UInt8) (objects : Objects) (hbucket : '/' ∉ storage.s3BucketName.toList) :
    (storage.uploadBytes key data none objects).2 storage.s3BucketName key = some data ∧
      (∀ tenantId decisionId auth w detail,
        (getDecisionDetail (storage.serves lib) tenantId decisionId auth w).1 = .ok detail →
          ∃ details, detail.member "evidences" = some (.arr details) ∧ ∀ answer ∈ details,
            ∃ evidence, w.db.evidences.find evidence.id = some evidence ∧
              answer.member "id" = some (.str evidence.id.str) ∧
              (evidence.frameStorageUri = (storage.uploadBytes key data none objects).1 →
                storage.LinksTo key answer)) ∧
      (∀ tenantId decisionId evidenceId auth w answer,
        (getEvidencePlayback (storage.serves lib) tenantId decisionId evidenceId auth w).1 =
            .ok answer →
          ∃ evidence, w.db.evidences.find evidenceId = some evidence ∧
            (evidence.frameStorageUri = (storage.uploadBytes key data none objects).1 →
              storage.LinksTo key answer)) ∧
      (∀ (call : IngestCall) (frame : FramePayload), call.bucket = storage.s3BucketName →
        call.frameUri frame = (storage.uploadBytes (call.frameKey frame) data none objects).1) ∧
      ∀ (call call' : IngestCall) (frame frame' : FramePayload),
        call.frameKey frame = call'.frameKey frame' →
          call.request.tenantId = call'.request.tenantId ∧
            call.request.cameraId = call'.request.cameraId ∧
            call.request.ingestionId = call'.request.ingestionId ∧
            frame.index = frame'.index := by
  refine ⟨uploadBytes_stores data objects, ?_, ?_, ?_, fun _ _ _ _ h => frameKey_inj h⟩
  · intro tenantId decisionId auth w detail h
    obtain ⟨details, hdetails, hall⟩ := getDecisionDetail_links h
    refine ⟨details, hdetails, ?_⟩
    intro answer hanswer
    obtain ⟨evidence, hfind, hdetail⟩ := hall answer hanswer
    exact ⟨evidence, hfind, evidenceDetail_id hdetail,
      fun huri => evidenceDetail_links hbucket huri hdetail⟩
  · intro tenantId decisionId evidenceId auth w answer h
    obtain ⟨evidence, url, hfind, hurl, hanswer⟩ := getEvidencePlayback_links h
    refine ⟨evidence, hfind, ?_⟩
    intro huri
    rw [huri, lastPiece_uploadBytes hbucket, String.ofList_toList] at hurl
    exact ⟨url, hurl, hanswer⟩
  · intro call frame hsame
    rw [IngestCall.frameUri, hsame]
    rfl

def sampleStorage : Storage where
  s3BucketName := "argus-frames"
  presign := fun bucket key _ => .ok ("http://minio:9000/" ++ bucket ++ "/" ++ key)

/-- An evidence whose frame was uploaded, and the decision it is aggregated to. -/
def playbackWorld : World :=
  let evidence := { sampleEvidence 4 none 5 with frameStorageUri := "s3://argus-frames/1/2/9/0.bin" }
  serve (sampleWorld [evidence]) (.aggregate (sampleAggregate 4 7))

theorem playback_addresses_upload_sample :
    (∃ answer, (getEvidencePlayback (sampleStorage.serves sampleTriage) ⟨1⟩ ⟨7⟩ ⟨4⟩
        ⟨"watcher", some ⟨1⟩, .watcher⟩ playbackWorld).1 = .ok answer ∧
      sampleStorage.LinksTo "1/2/9/0.bin" answer) ∧
    ∃ detail answer, (getDecisionDetail (sampleStorage.serves sampleTriage) ⟨1⟩ ⟨7⟩
        ⟨"watcher", some ⟨1⟩, .watcher⟩ playbackWorld).1 = .ok detail ∧
      detail.member "evidences" = some (.arr [answer]) ∧
      answer.member "id" = some (.str (Uuid.mk 4).str) ∧
      sampleStorage.LinksTo "1/2/9/0.bin" answer := by
  obtain ⟨-, hdetails, hplayback, -⟩ := playback_addresses_upload sampleStorage sampleTriage
    "1/2/9/0.bin" [65] (fun _ _ => none) (by decide)
  constructor
  · obtain ⟨answer, hanswer⟩ : ∃ answer, (getEvidencePlayback (sampleStorage.serves sampleTriage)
        ⟨1⟩ ⟨7⟩ ⟨4⟩ ⟨"watcher", some ⟨1⟩, .watcher⟩ playbackWorld).1 = .ok answer :=
      ⟨_, rfl⟩
    obtain ⟨evidence, hfind, hlinks⟩ := hplayback _ _ _ _ _ _ hanswer
    refine ⟨answer, hanswer, hlinks ?_⟩
    cases hfind
    decide +kernel
  · obtain ⟨detail, hdetail⟩ : ∃ detail, (getDecisionDetail (sampleStorage.serves sampleTriage)
        ⟨1⟩ ⟨7⟩ ⟨"watcher", some ⟨1⟩, .watcher⟩ playbackWorld).1 = .ok detail :=
      ⟨_, rfl⟩
    obtain ⟨details, hmember, hall⟩ := hdetails _ _ _ _ _ hdetail
    obtain ⟨answer, hsingle, hid⟩ : ∃ answer, details = [answer] ∧
        answer.member "id" = some (.str (Uuid.mk 4).str) := by
      cases hdetail
      cases hmember
      exact ⟨_, rfl, rfl⟩
    subst hsingle
    obtain ⟨evidence, hfind, hshown, hlinks⟩ := hall answer (List.mem_singleton_self answer)
    rw [hid] at hshown
    have heq : Uuid.mk 4 = evidence.id :=
      Uuid.str_injective (Json.str.inj (Option.some.inj hshown))
    rw [← heq] at hfind
    refine ⟨detail, answer, hdetail, hmember, hid, hlinks ?_⟩
    cases hfind
    decide +kernel

end ArgusServices

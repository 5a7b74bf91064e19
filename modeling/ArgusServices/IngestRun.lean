import ArgusServices.Effect
import ArgusServices.IngestEffect

namespace ArgusServices

open Effect

/-- A step of a call with how it ends. -/
def IngestCall.step (call : IngestCall) (s : IngestStore × IngestPhase) : Reply →
    IngestStore × IngestPhase
  | .done => call.advance s.1 s.2
  | .failed => call.fail false s.1 s.2
  | .lost => call.fail true s.1 s.2

/-- A call on its own, as far as it gets. -/
def IngestCall.run (call : IngestCall) (replies : List Reply) (s : IngestStore × IngestPhase) :
    IngestStore × IngestPhase :=
  replies.foldl call.step s

/-- So many steps are done and the next one is executed. -/
def goesThrough : Nat → List Reply → Bool
  | 0, r :: _ => r.executed
  | n + 1, r :: rs => !r.raises && goesThrough n rs
  | _, [] => false

/-- Nothing is put on the stream any more. -/
def IngestPhase.past : IngestPhase → Bool
  | .cleaning _ | .returned _ | .raised _ => true
  | _ => false

variable {call : IngestCall} {w : IngestStore} {p : IngestPhase} {r : Reply} {rs : List Reply}

@[simp] theorem run_nil (s : IngestStore × IngestPhase) : call.run [] s = s :=
  rfl

@[simp] theorem run_cons (s : IngestStore × IngestPhase) :
    call.run (r :: rs) s = call.run rs (call.step s r) :=
  rfl

theorem step_ingests (call : IngestCall) (hp : p.ended = false) (w : IngestStore) (r : Reply) :
    ∃ lost, Ingests call lost w p (call.step (w, p) r).1 (call.step (w, p) r).2 := by
  cases r with
  | done => exact ⟨_, advance_ingests call w hp⟩
  | failed => exact ⟨_, fail_ingests call false w hp⟩
  | lost => exact ⟨_, fail_ingests call true w hp⟩

theorem step_ended (hp : p.ended = true) (w : IngestStore) (r : Reply) :
    call.step (w, p) r = (w, p) := by
  cases p with
  | returned response => cases r <;> rfl
  | raised cause => cases r <;> rfl
  | _ => cases hp

theorem step_keys_of_ne {key : String} (h : key ≠ call.key) (s : IngestStore × IngestPhase) :
    (call.step s r).1.keys key = s.1.keys key := by
  obtain ⟨w, p⟩ := s
  cases hp : p.ended with
  | true => rw [step_ended hp]
  | false =>
    obtain ⟨lost, hstep⟩ := step_ingests call hp w r
    generalize call.step (w, p) r = s' at hstep
    obtain ⟨w', p'⟩ := s'
    cases hstep with
    | claim => exact claim_keys_of_ne h
    | claimLost => exact claim_keys_of_ne h
    | cleanup => exact Function.update_of_ne h _ _
    | _ => rfl

theorem run_keys_of_ne {key : String} (h : key ≠ call.key) (s : IngestStore × IngestPhase) :
    (call.run rs s).1.keys key = s.1.keys key := by
  induction rs generalizing s with
  | nil => rfl
  | cons r rs ih => rw [run_cons, ih, step_keys_of_ne h]

theorem step_past (call : IngestCall) (hp : p.past = true) (w : IngestStore) (r : Reply) :
    (call.step (w, p) r).1.stream = w.stream ∧ (call.step (w, p) r).2.past = true := by
  cases p with
  | cleaning cause => cases r <;> exact ⟨rfl, rfl⟩
  | returned response => cases r <;> exact ⟨rfl, rfl⟩
  | raised cause => cases r <;> exact ⟨rfl, rfl⟩
  | _ => cases hp

theorem run_past (hp : p.past = true) (w : IngestStore) (rs : List Reply) :
    (call.run rs (w, p)).1.stream = w.stream := by
  induction rs generalizing w p with
  | nil => rfl
  | cons r rs ih =>
    obtain ⟨hstream, hpast⟩ := step_past call hp w r
    rw [run_cons, ← hstream]
    exact ih hpast _

/-- Started at `w`, the call has put nothing on the stream so far, or its one event. -/
def IngestCall.PutAtMost (call : IngestCall) (w : IngestStore) (s : IngestStore × IngestPhase) :
    Prop :=
  s.1.stream = w.stream ∨ s.2.past = true ∧
    ∃ frameUris, s.1.stream = w.stream ++ [ingestEvent call.request frameUris]

theorem IngestCall.PutAtMost.step {s : IngestStore × IngestPhase} (h : call.PutAtMost w s)
    (r : Reply) : call.PutAtMost w (call.step s r) := by
  obtain ⟨u, p⟩ := s
  rcases h with hsame | ⟨hpast, frameUris, hput⟩
  · cases hp : p.ended with
    | true =>
      rw [step_ended hp]
      exact Or.inl hsame
    | false =>
      obtain ⟨lost, hstep⟩ := step_ingests call hp u r
      generalize call.step (u, p) r = s' at hstep
      obtain ⟨u', p'⟩ := s'
      have henqueue : ∀ frameUris, (call.enqueue u frameUris).stream =
          w.stream ++ [ingestEvent call.request frameUris] :=
        fun frameUris => congrArg (· ++ [ingestEvent call.request frameUris]) hsame
      cases hstep with
      | claim | claimLost => exact Or.inl (claim_stream.trans hsame)
      | enqueue => exact Or.inr ⟨rfl, _, henqueue _⟩
      | enqueueLost => exact Or.inr ⟨rfl, _, henqueue _⟩
      | _ => exact Or.inl hsame
  · obtain ⟨hstream, hpast'⟩ := step_past call hpast u r
    exact Or.inr ⟨hpast', frameUris, hstream.trans hput⟩

theorem run_putAtMost (call : IngestCall) (w : IngestStore) (rs : List Reply) :
    call.PutAtMost w (call.run rs (w, .begun)) := by
  have hrun : ∀ s, call.PutAtMost w s → call.PutAtMost w (call.run rs s) := by
    induction rs with
    | nil => exact fun s h => h
    | cons r rs ih => exact fun s h => ih _ (h.step r)
  exact hrun _ (Or.inl rfl)

@[simp] theorem run_cleaning (w : IngestStore) (cause : Exn) (rs : List Reply) :
    (call.run rs (w, .cleaning cause)).1.stream = w.stream :=
  run_past rfl w rs

@[simp] theorem run_returned (w : IngestStore) (response : IngestAcceptedResponse)
    (rs : List Reply) : (call.run rs (w, .returned response)).1.stream = w.stream :=
  run_past rfl w rs

@[simp] theorem run_raised (w : IngestStore) (cause : Exn) (rs : List Reply) :
    (call.run rs (w, .raised cause)).1.stream = w.stream :=
  run_past rfl w rs

theorem run_uploaded (w : IngestStore) (frameUris : List String) (rs : List Reply) :
    (call.run rs (w, .uploaded frameUris)).1.stream ≠ w.stream ↔ goesThrough 0 rs = true := by
  cases rs with
  | nil => simp [goesThrough]
  | cons r rs =>
    rw [run_cons]
    cases r with
    | done =>
      simp [IngestCall.step, IngestCall.advance, IngestCall.respond, IngestCall.enqueue,
        goesThrough, Reply.executed]
    | failed => simp [IngestCall.step, IngestCall.fail, goesThrough, Reply.executed]
    | lost =>
      simp [IngestCall.step, IngestCall.fail, goesThrough, Reply.executed,
        IngestCall.enqueue]

theorem run_modeChecked (w : IngestStore) (rs : List Reply) :
    (call.run rs (w, .modeChecked)).1.stream ≠ w.stream ↔
      goesThrough 1 rs = true ∧ (uploadFrames call).isOk = true := by
  cases rs with
  | nil => simp [goesThrough]
  | cons r rs =>
    rw [run_cons]
    cases r with
    | done =>
      simp only [IngestCall.step, IngestCall.advance, goesThrough, Reply.raises, Bool.not_false,
        Bool.true_and]
      cases huploaded : uploadFrames call with
      | ok frameUris => simp [run_uploaded, Except.isOk, Except.toBool]
      | error e => simp [Except.isOk, Except.toBool]
    | failed => simp [IngestCall.step, IngestCall.fail, goesThrough, Reply.raises]
    | lost => simp [IngestCall.step, IngestCall.fail, goesThrough, Reply.raises]

theorem run_claimed (call : IngestCall) (w : IngestStore) (rs : List Reply) :
    (call.run rs (w, .claimed)).1.stream ≠ w.stream ↔ goesThrough 2 rs = true ∧
      (uploadFrames call).isOk = true ∧ (validateActiveMode w call.request).isOk = true := by
  cases rs with
  | nil => simp [goesThrough]
  | cons r rs =>
    rw [run_cons]
    cases r with
    | done =>
      simp only [IngestCall.step, IngestCall.advance, goesThrough, Reply.raises, Bool.not_false,
        Bool.true_and]
      cases hmode : validateActiveMode w call.request with
      | ok _ => simp [run_modeChecked, Except.isOk, Except.toBool]
      | error e => simp [Except.isOk, Except.toBool]
    | failed => simp [IngestCall.step, IngestCall.fail, goesThrough, Reply.raises]
    | lost => simp [IngestCall.step, IngestCall.fail, goesThrough, Reply.raises]

theorem validateActiveMode_congr {w w' : IngestStore} {request : IngestSequenceRequest}
    (h : w'.keys (activeModeKey request.cameraId) = w.keys (activeModeKey request.cameraId)) :
    validateActiveMode w' request = validateActiveMode w request := by
  unfold validateActiveMode
  rw [h]

/-- A call puts an event on the stream exactly if all it checks is as it should be, the upload
goes through and the XADD is executed. -/
theorem run_begun (call : IngestCall) (w : IngestStore) (rs : List Reply) :
    (call.run rs (w, .begun)).1.stream ≠ w.stream ↔ goesThrough 3 rs = true ∧
      (uploadFrames call).isOk = true ∧ (validateActiveMode w call.request).isOk = true ∧
      validateClaims call = true ∧ w.keys call.key = none := by
  cases rs with
  | nil => simp [goesThrough]
  | cons r rs =>
    rw [run_cons]
    cases r with
    | done =>
      simp only [IngestCall.step, IngestCall.advance, goesThrough, Reply.raises, Bool.not_false,
        Bool.true_and]
      split
      next hclaims =>
        cases hkey : w.keys call.key with
        | none =>
          have hmode : validateActiveMode (call.claim w) call.request =
              validateActiveMode w call.request :=
            validateActiveMode_congr (claim_keys_of_ne (idempotencyKey_ne_activeModeKey _ _ _).symm)
          have hrun := run_claimed call (call.claim w) rs
          rw [claim_stream, hmode] at hrun
          simp [hrun, hclaims]
        | some entry => simp [IngestCall.respond]
      next hclaims => simp [hclaims]
    | failed => simp [IngestCall.step, IngestCall.fail, goesThrough, Reply.raises]
    | lost =>
      simp only [IngestCall.step, IngestCall.fail, run_raised, goesThrough, Reply.raises]
      split
      · simp [claim_stream]
      · simp

/-- What a call leaves on the stream: nothing new, or the event of a request whose claims match. -/
theorem run_stream (call : IngestCall) (w : IngestStore) (rs : List Reply) :
    (call.run rs (w, .begun)).1.stream = w.stream ∨ validateClaims call = true ∧
      ∃ frameUris, (call.run rs (w, .begun)).1.stream =
        w.stream ++ [ingestEvent call.request frameUris] := by
  rcases run_putAtMost call w rs with hsame | ⟨-, frameUris, hput⟩
  · exact Or.inl hsame
  · have hnew : (call.run rs (w, .begun)).1.stream ≠ w.stream := by
      rw [hput]
      simp
    obtain ⟨-, -, -, hclaims, -⟩ := (run_begun call w rs).mp hnew
    exact Or.inr ⟨hclaims, frameUris, hput⟩

end ArgusServices

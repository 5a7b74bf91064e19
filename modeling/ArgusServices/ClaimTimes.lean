import ArgusServices.Idempotency
import ArgusServices.RedisClock
import Mathlib.Data.List.Forall2
import Mathlib.Data.List.Nodup

namespace ArgusServices

open Transition

/-- The keys with the instants they disappear at, the stream and the time. -/
structure TimedStore where
  keys : ExpiringKeys String String
  stream : List IngestEvent
  now : Int

/-- Where a call stands, and when it asked for its key. -/
structure TimedPhase where
  phase : IngestPhase
  askedAt : Int

def TimedStore.seen (w : TimedStore) : IngestStore :=
  ⟨liveKeys w.keys w.now, w.stream⟩

def TimedStore.left (w : TimedStore) (u : IngestStore) : TimedStore :=
  { w with
    keys := afterCall w.keys u.keys w.now
    stream := u.stream }

def TimedPhase.next (c : TimedPhase) (now : Int) (p : IngestPhase) : TimedPhase :=
  ⟨p, if c.phase = .begun then now else c.askedAt⟩

inductive TimedTurn (ι : Type)
  | advance (i : ι)
  | raise (i : ι) (executed : Bool)
  | cancel (i : ι)
  | setActiveMode (cameraId : Uuid) (mode : Option (String × Int))
  | wait (later : Int)

/-- The interleaved calls on keys that expire: as before, and time goes on between the turns. -/
inductive TimedIngesting {ι : Type} [DecidableEq ι] (calls : ι → IngestCall) :
    Threads ι TimedStore TimedPhase → TimedTurn ι → Threads ι TimedStore TimedPhase → Prop
  | advance {s : Threads ι TimedStore TimedPhase} {i : ι} : (s.phase i).phase.ended = false →
      TimedIngesting calls s (.advance i)
        (s.move i (s.shared.left ((calls i).advance s.shared.seen (s.phase i).phase).1,
          (s.phase i).next s.shared.now ((calls i).advance s.shared.seen (s.phase i).phase).2))
  | raise {s : Threads ι TimedStore TimedPhase} {i : ι} {executed : Bool} :
      (s.phase i).phase.ended = false →
      TimedIngesting calls s (.raise i executed)
        (s.move i (s.shared.left ((calls i).fail executed s.shared.seen (s.phase i).phase).1,
          (s.phase i).next s.shared.now
            ((calls i).fail executed s.shared.seen (s.phase i).phase).2))
  | cancel {s : Threads ι TimedStore TimedPhase} {i : ι} : (s.phase i).phase.ended = false →
      TimedIngesting calls s (.cancel i)
        (s.move i (s.shared.left s.shared.seen,
          (s.phase i).next s.shared.now (.raised .outage)))
  | setActiveMode {s : Threads ι TimedStore TimedPhase} {cameraId : Uuid}
      {mode : Option (String × Int)} : TimedIngesting calls s (.setActiveMode cameraId mode)
      ⟨{ s.shared with
          keys := ⟨Function.update s.shared.keys.entry (activeModeKey cameraId) mode⟩ }, s.phase⟩
  | wait {s : Threads ι TimedStore TimedPhase} {later : Int} : s.shared.now ≤ later →
      TimedIngesting calls s (.wait later) ⟨{ s.shared with now := later }, s.phase⟩

/-- The instant the claim of a call is gone. -/
def TimedPhase.expiresAt (c : TimedPhase) : Int :=
  c.askedAt + seconds idempotencyTtlSecs

/-- A call that has the key takes its next step before the key expires. -/
def TimedPhase.InTime (c : TimedPhase) (now : Int) : Prop :=
  c.phase.owns = true → now < c.expiresAt

/-- No call takes longer than its claim lasts, and XADD raises only when nothing was appended. -/
def Prompt {ι : Type} (s : Threads ι TimedStore TimedPhase) : TimedTurn ι → Prop
  | .advance i => (s.phase i).InTime s.shared.now
  | .raise i executed => (s.phase i).InTime s.shared.now ∧
      ∀ frameUris, (s.phase i).phase = .uploaded frameUris → executed = false
  | .cancel _ | .setActiveMode .. | .wait _ => True

variable {ι : Type} {calls : ι → IngestCall} {tenantId ingestionId : Uuid}
  {s t : Threads ι TimedStore TimedPhase} {i j : ι}

/-- The calls that have queued the sequence, in the order of its events on the stream: each has
claimed the key when the claim of the one before was gone. -/
structure Queue (calls : ι → IngestCall) (tenantId ingestionId : Uuid)
    (s : Threads ι TimedStore TimedPhase) (queue : List ι) : Prop where
  mem : ∀ i, i ∈ queue ↔ (calls i).isFor tenantId ingestionId ∧
    (s.phase i).phase.answered .queued = true
  nodup : queue.Nodup
  events : List.Forall₂ (fun event i => ∃ frameUris,
    event = ingestEvent (calls i).request frameUris)
      (s.shared.seen.events tenantId ingestionId) queue
  apart : queue.Pairwise fun i j => (s.phase i).expiresAt ≤ (s.phase j).askedAt

/-- The claims of two calls do not overlap. -/
def ClaimsApart (c d : TimedPhase) : Prop :=
  c.expiresAt ≤ d.askedAt ∨ d.expiresAt ≤ c.askedAt

/-- A call that has or had the key has it until its claim expires. -/
structure Spaced (calls : ι → IngestCall) (tenantId ingestionId : Uuid)
    (s : Threads ι TimedStore TimedPhase) : Prop where
  past : ∀ i, (calls i).isFor tenantId ingestionId → (s.phase i).phase.owns = true →
    (s.phase i).askedAt ≤ s.shared.now
  key : ∀ i, (calls i).isFor tenantId ingestionId → (s.phase i).phase.owns = true →
    s.shared.now < (s.phase i).expiresAt →
      s.shared.keys.entry (idempotencyKey tenantId ingestionId) =
        some ("1", (s.phase i).expiresAt)
  apart : ∀ i j, i ≠ j → (calls i).isFor tenantId ingestionId →
    (calls j).isFor tenantId ingestionId → (s.phase i).phase.owns = true →
      (s.phase j).phase.owns = true → ClaimsApart (s.phase i) (s.phase j)
  queue : ∃ queue, Queue calls tenantId ingestionId s queue

section Keys

variable {w : TimedStore} {u : IngestStore} {key value : String} {expiresAt : Int}

theorem seen_of_entry (h : w.keys.entry key = some (value, expiresAt)) (hlive : w.now < expiresAt) :
    w.seen.keys key = some ⟨value, none⟩ := by
  have hget : w.keys.get w.now key = some value :=
    ExpiringKeys.get_eq_some.mpr ⟨expiresAt, h, hlive⟩
  show (w.keys.get w.now key).map _ = _
  rw [hget]
  rfl

/-- A key that a step leaves as it found it is there as long as before. -/
theorem left_entry (hkept : u.keys key = w.seen.keys key)
    (h : w.keys.entry key = some (value, expiresAt)) (hlive : w.now < expiresAt) :
    (w.left u).keys.entry key = some (value, expiresAt) := by
  have hfound : u.keys key = some ⟨value, none⟩ := hkept.trans (seen_of_entry h hlive)
  show (afterCall w.keys u.keys w.now).entry key = _
  simp only [afterCall, hfound]
  exact h

theorem claim_entry {call : IngestCall} (h : w.seen.keys call.key = none) :
    (w.left (call.claim w.seen)).keys.entry call.key =
      some ("1", w.now + seconds idempotencyTtlSecs) := by
  have hclaim : (call.claim w.seen).keys call.key = some ⟨"1", some idempotencyTtlSecs⟩ := by
    simp [IngestCall.claim, h]
  show (afterCall w.keys (call.claim w.seen).keys w.now).entry call.key = _
  simp only [afterCall, hclaim]

end Keys

theorem askedAt_of_owns {c : TimedPhase} (h : c.phase.owns = true) (now : Int) (p : IngestPhase) :
    (c.next now p).askedAt = c.askedAt := by
  have hbegun : c.phase ≠ .begun := by
    intro hbegun
    rw [hbegun] at h
    cases h
  exact if_neg hbegun

theorem askedAt_of_begun {c : TimedPhase} (h : c.phase = .begun) (now : Int) (p : IngestPhase) :
    (c.next now p).askedAt = now :=
  if_pos h

theorem ClaimsApart.symm {c d : TimedPhase} (h : ClaimsApart c d) : ClaimsApart d c :=
  h.elim Or.inr Or.inl

/-- While the key is free, all claims of it are gone. -/
theorem Spaced.gone (h : Spaced calls tenantId ingestionId s)
    (hfree : s.shared.seen.keys (idempotencyKey tenantId ingestionId) = none)
    (hfor : (calls j).isFor tenantId ingestionId) (hown : (s.phase j).phase.owns = true) :
    (s.phase j).expiresAt ≤ s.shared.now := by
  by_contra hlive
  have hlive : s.shared.now < (s.phase j).expiresAt := by omega
  have hentry := h.key j hfor hown hlive
  rw [seen_of_entry hentry hlive] at hfree
  cases hfree

/-- While the claim of a call is there, the claims of others are gone. -/
theorem Spaced.others_gone (h : Spaced calls tenantId ingestionId s) (hij : i ≠ j)
    (hfori : (calls i).isFor tenantId ingestionId) (hforj : (calls j).isFor tenantId ingestionId)
    (howni : (s.phase i).phase.owns = true) (hownj : (s.phase j).phase.owns = true)
    (hlive : s.shared.now < (s.phase i).expiresAt) :
    (s.phase j).expiresAt ≤ (s.phase i).askedAt := by
  have hpast := h.past j hforj hownj
  rcases h.apart i j hij hfori hforj howni hownj with hbefore | hafter
  · omega
  · exact hafter

variable [DecidableEq ι]

theorem Queue.move {queue : List ι} (h : Queue calls tenantId ingestionId s queue)
    {w : TimedStore} {c : TimedPhase}
    (hbefore : (calls i).isFor tenantId ingestionId → (s.phase i).phase.answered .queued = false)
    (hafter : (calls i).isFor tenantId ingestionId → c.phase.answered .queued = false)
    (hevents : w.seen.events tenantId ingestionId = s.shared.seen.events tenantId ingestionId) :
    Queue calls tenantId ingestionId (s.move i (w, c)) queue := by
  have hout : i ∉ queue := by
    intro hi
    obtain ⟨hfor, hqueued⟩ := (h.mem i).mp hi
    rw [hbefore hfor] at hqueued
    cases hqueued
  refine ⟨?_, h.nodup, ?_, ?_⟩
  · intro j
    by_cases hj : j = i
    · subst hj
      rw [Threads.move_phase_self]
      refine iff_of_false hout ?_
      intro hboth
      obtain ⟨hfor, hqueued⟩ := hboth
      rw [hafter hfor] at hqueued
      cases hqueued
    · rw [Threads.move_phase_of_ne hj]
      exact h.mem j
  · rw [Threads.move_shared, hevents]
    exact h.events
  · refine h.apart.imp_of_mem ?_
    intro j k hj hk hjk
    have hji : j ≠ i := fun heq => hout (heq ▸ hj)
    have hki : k ≠ i := fun heq => hout (heq ▸ hk)
    rw [Threads.move_phase_of_ne hji, Threads.move_phase_of_ne hki]
    exact hjk

/-- The event of a call that is in time comes after those whose claims were gone before its own. -/
theorem Queue.enqueue {queue : List ι} (h : Queue calls tenantId ingestionId s queue)
    (hs : Spaced calls tenantId ingestionId s) (hfor : (calls i).isFor tenantId ingestionId)
    {frameUris : List String} (hphase : (s.phase i).phase = .uploaded frameUris)
    (hlive : s.shared.now < (s.phase i).expiresAt) :
    Queue calls tenantId ingestionId
      (s.move i (s.shared.left ((calls i).enqueue s.shared.seen frameUris),
        (s.phase i).next s.shared.now ((calls i).respond .queued))) (queue ++ [i]) := by
  have hout : i ∉ queue := by
    intro hi
    obtain ⟨-, hqueued⟩ := (h.mem i).mp hi
    rw [hphase] at hqueued
    cases hqueued
  have hown : (s.phase i).phase.owns = true := by rw [hphase]; rfl
  have hne : ∀ j ∈ queue, j ≠ i := fun j hj heq => hout (heq ▸ hj)
  refine ⟨?_, ?_, ?_, ?_⟩
  · intro j
    rw [List.mem_append, List.mem_singleton]
    by_cases hj : j = i
    · subst hj
      rw [Threads.move_phase_self]
      exact iff_of_true (Or.inr rfl) ⟨hfor, rfl⟩
    · rw [Threads.move_phase_of_ne hj]
      exact ⟨fun hmem => (h.mem j).mp (hmem.resolve_right hj), fun hq => Or.inl ((h.mem j).mpr hq)⟩
  · rw [List.nodup_append]
    refine ⟨h.nodup, List.nodup_singleton i, ?_⟩
    intro j hj k hk
    rw [List.mem_singleton.mp hk]
    exact hne j hj
  · have hevents : (s.shared.left ((calls i).enqueue s.shared.seen frameUris)).seen.events tenantId
        ingestionId = s.shared.seen.events tenantId ingestionId ++
          [ingestEvent (calls i).request frameUris] := enqueue_events hfor frameUris
    rw [Threads.move_shared, hevents]
    exact List.rel_append h.events (.cons ⟨frameUris, rfl⟩ .nil)
  · rw [List.pairwise_append]
    refine ⟨?_, List.pairwise_singleton _ _, ?_⟩
    · refine h.apart.imp_of_mem ?_
      intro j k hj hk hjk
      rw [Threads.move_phase_of_ne (hne j hj), Threads.move_phase_of_ne (hne k hk)]
      exact hjk
    · intro j hj k hk
      rw [List.mem_singleton.mp hk, Threads.move_phase_of_ne (hne j hj), Threads.move_phase_self,
        askedAt_of_owns hown]
      obtain ⟨hforj, hqueued⟩ := (h.mem j).mp hj
      exact hs.others_gone (hne j hj).symm hfor hforj hown (answered_owns hqueued) hlive

/-- One call moves on. It comes to own the key only if the key was free, and what the others need
of the key is left. -/
theorem Spaced.move (h : Spaced calls tenantId ingestionId s) {u : IngestStore} {p : IngestPhase}
    (hown : (calls i).isFor tenantId ingestionId → p.owns = true →
      (s.phase i).phase.owns = true ∨ (s.phase i).phase = .begun ∧
        s.shared.seen.keys (idempotencyKey tenantId ingestionId) = none)
    (hself : (calls i).isFor tenantId ingestionId → p.owns = true →
      s.shared.now < ((s.phase i).next s.shared.now p).expiresAt →
        (s.shared.left u).keys.entry (idempotencyKey tenantId ingestionId) =
          some ("1", ((s.phase i).next s.shared.now p).expiresAt))
    (hother : ∀ j, j ≠ i → (calls j).isFor tenantId ingestionId →
      (s.phase j).phase.owns = true → s.shared.now < (s.phase j).expiresAt →
        (s.shared.left u).keys.entry (idempotencyKey tenantId ingestionId) =
          some ("1", (s.phase j).expiresAt))
    (hqueue : ∃ queue, Queue calls tenantId ingestionId
      (s.move i (s.shared.left u, (s.phase i).next s.shared.now p)) queue) :
    Spaced calls tenantId ingestionId
      (s.move i (s.shared.left u, (s.phase i).next s.shared.now p)) := by
  have hasked : (calls i).isFor tenantId ingestionId → p.owns = true →
      ((s.phase i).next s.shared.now p).askedAt ≤ s.shared.now := by
    intro hfor hp
    rcases hown hfor hp with hold | ⟨hbegun, -⟩
    · rw [askedAt_of_owns hold]
      exact h.past i hfor hold
    · rw [askedAt_of_begun hbegun]
  have hapart : ∀ j, j ≠ i → (calls i).isFor tenantId ingestionId →
      (calls j).isFor tenantId ingestionId → p.owns = true → (s.phase j).phase.owns = true →
        ClaimsApart ((s.phase i).next s.shared.now p) (s.phase j) := by
    intro j hj hfori hforj hp hownj
    rcases hown hfori hp with hold | ⟨hbegun, hfree⟩
    · have hsame := h.apart i j (Ne.symm hj) hfori hforj hold hownj
      unfold ClaimsApart TimedPhase.expiresAt at hsame ⊢
      rw [askedAt_of_owns hold]
      exact hsame
    · right
      rw [askedAt_of_begun hbegun]
      exact h.gone hfree hforj hownj
  refine ⟨?_, ?_, ?_, hqueue⟩
  · intro j hfor hownj
    by_cases hj : j = i
    · subst hj
      rw [Threads.move_phase_self] at hownj ⊢
      exact hasked hfor hownj
    · rw [Threads.move_phase_of_ne hj] at hownj ⊢
      exact h.past j hfor hownj
  · intro j hfor hownj hlive
    by_cases hj : j = i
    · subst hj
      rw [Threads.move_phase_self] at hownj hlive ⊢
      exact hself hfor hownj hlive
    · rw [Threads.move_phase_of_ne hj] at hownj hlive ⊢
      exact hother j hj hfor hownj hlive
  · refine Threads.forall₂_move (fun j k (c d : TimedPhase) =>
      (calls j).isFor tenantId ingestionId → (calls k).isFor tenantId ingestionId →
        c.phase.owns = true → d.phase.owns = true → ClaimsApart c d) h.apart ?_ ?_
    · intro k hk hfori hfork hp hownk
      exact hapart k hk hfori hfork hp hownk
    · intro j hj hforj hfori hownj hp
      exact (hapart j hj hfori hforj hp hownj).symm

/-- A step that leaves the key as it is, to a phase that has it only if the one before had. -/
theorem Spaced.keep (h : Spaced calls tenantId ingestionId s) {u : IngestStore} {p : IngestPhase}
    (hkept : u.keys (idempotencyKey tenantId ingestionId) =
      s.shared.seen.keys (idempotencyKey tenantId ingestionId))
    (hown : (calls i).isFor tenantId ingestionId → p.owns = true →
      (s.phase i).phase.owns = true)
    (hqueue : ∃ queue, Queue calls tenantId ingestionId
      (s.move i (s.shared.left u, (s.phase i).next s.shared.now p)) queue) :
    Spaced calls tenantId ingestionId
      (s.move i (s.shared.left u, (s.phase i).next s.shared.now p)) := by
  refine h.move (fun hfor hp => Or.inl (hown hfor hp)) ?_ ?_ hqueue
  · intro hfor hp hlive
    have hold := hown hfor hp
    have hsame : ((s.phase i).next s.shared.now p).expiresAt = (s.phase i).expiresAt :=
      congrArg (· + seconds idempotencyTtlSecs) (askedAt_of_owns hold s.shared.now p)
    rw [hsame] at hlive ⊢
    exact left_entry hkept (h.key i hfor hold hlive) hlive
  · intro j hj hfor hownj hlive
    exact left_entry hkept (h.key j hfor hownj hlive) hlive

/-- A step on the key of a call that does not come to own it, while the claims of others are
gone. -/
theorem Spaced.quit (h : Spaced calls tenantId ingestionId s) {u : IngestStore} {p : IngestPhase}
    (hp : p.owns = false)
    (hgone : ∀ j, j ≠ i → (calls j).isFor tenantId ingestionId →
      (s.phase j).phase.owns = true → (s.phase j).expiresAt ≤ s.shared.now)
    (hqueue : ∃ queue, Queue calls tenantId ingestionId
      (s.move i (s.shared.left u, (s.phase i).next s.shared.now p)) queue) :
    Spaced calls tenantId ingestionId
      (s.move i (s.shared.left u, (s.phase i).next s.shared.now p)) := by
  refine h.move ?_ ?_ ?_ hqueue
  · intro _ hown
    rw [hp] at hown
    cases hown
  · intro _ hown
    rw [hp] at hown
    cases hown
  · intro j hj hfor hown hlive
    have hexpired := hgone j hj hfor hown
    omega

theorem Spaced.ingests (h : Spaced calls tenantId ingestionId s) {u : IngestStore}
    {p : IngestPhase} (htime : (s.phase i).InTime s.shared.now)
    (hstep : Ingests (calls i) False s.shared.seen (s.phase i).phase u p) :
    Spaced calls tenantId ingestionId
      (s.move i (s.shared.left u, (s.phase i).next s.shared.now p)) := by
  obtain ⟨queue, hqueue⟩ := h.queue
  by_cases hfor : (calls i).isFor tenantId ingestionId
  · have hkey := hfor.key
    have hsame : ∀ {p : IngestPhase} {u : IngestStore},
        (s.phase i).phase.answered .queued = false → p.answered .queued = false →
        u.events tenantId ingestionId = s.shared.seen.events tenantId ingestionId →
        ∃ queue, Queue calls tenantId ingestionId
          (s.move i (s.shared.left u, (s.phase i).next s.shared.now p)) queue := by
      intro p u hbefore hafter hevents
      exact ⟨queue, hqueue.move (fun _ => hbefore) (fun _ => hafter) hevents⟩
    generalize hphase : (s.phase i).phase = q at hstep
    have hown : q.owns = true → (s.phase i).phase.owns = true := fun hq => hphase ▸ hq
    have hnot : q.answered .queued = false → (s.phase i).phase.answered .queued = false :=
      fun hq => hphase ▸ hq
    cases hstep with
    | claim hnone =>
      rw [hkey] at hnone
      refine h.move (fun _ _ => Or.inr ⟨hphase, hnone⟩) ?_ ?_ (hsame (hnot rfl) rfl claim_events)
      · intro _ _ _
        have hentry := claim_entry (hkey ▸ hnone)
        rw [hkey] at hentry
        unfold TimedPhase.expiresAt
        rw [askedAt_of_begun hphase]
        exact hentry
      · intro j _ hforj hownj hlive
        have hexpired := h.gone hnone hforj hownj
        omega
    | claimLost =>
      by_cases hnone : s.shared.seen.keys (idempotencyKey tenantId ingestionId) = none
      · refine h.quit rfl ?_ (hsame (hnot rfl) rfl claim_events)
        exact fun j _ hforj hownj => h.gone hnone hforj hownj
      · have hkept : (calls i).claim s.shared.seen = s.shared.seen := by
          obtain ⟨entry, hentry⟩ := Option.ne_none_iff_exists'.mp hnone
          unfold IngestCall.claim
          rw [hkey, hentry]
        rw [hkept]
        refine h.keep rfl ?_ (hsame (hnot rfl) rfl rfl)
        intro _ hraised
        cases hraised
    | duplicate _ =>
      refine h.keep rfl ?_ (hsame (hnot rfl) rfl rfl)
      intro _ hanswered
      cases hanswered
    | check => exact h.keep rfl (fun _ _ => hown rfl) (hsame (hnot rfl) rfl rfl)
    | upload => exact h.keep rfl (fun _ _ => hown rfl) (hsame (hnot rfl) rfl rfl)
    | stop hworking =>
      obtain ⟨hown', hq⟩ := working_owns hworking
      exact h.keep rfl (fun _ _ => hown hown') (hsame (hnot hq) rfl rfl)
    | enqueue =>
      refine h.keep rfl (fun _ _ => hown rfl) ⟨queue ++ [i], ?_⟩
      exact hqueue.enqueue h hfor hphase (htime (hown rfl))
    | enqueueLost hlost => exact hlost.elim
    | cleanup =>
      refine h.quit rfl ?_ (hsame (hnot rfl) rfl rfl)
      intro j hj hforj hownj
      have hbefore := h.others_gone (Ne.symm hj) hfor hforj (hown rfl) hownj (htime (hown rfl))
      have hpast := h.past i hfor (hown rfl)
      omega
    | drop hended =>
      refine h.keep rfl ?_ (hsame (hnot ?_) rfl rfl)
      · intro _ hraised
        cases hraised
      · cases q <;> simp_all [IngestPhase.ended, IngestPhase.answered]
  · obtain ⟨hkept, hevents⟩ := hstep.frame hfor
    refine h.keep hkept (fun hf => absurd hf hfor) ⟨queue, ?_⟩
    exact hqueue.move (fun hf => absurd hf hfor) (fun hf => absurd hf hfor) hevents

/-- The step lemma: time may pass and modes may change, and calls that are in time move on. -/
theorem Spaced.step {l : TimedTurn ι} (h : Spaced calls tenantId ingestionId s)
    (htime : Prompt s l) (hstep : TimedIngesting calls s l t) :
    Spaced calls tenantId ingestionId t := by
  cases hstep with
  | advance hrun => exact h.ingests htime (advance_ingests _ _ hrun)
  | @raise i executed hrun =>
    obtain ⟨hintime, hatomic⟩ := htime
    refine h.ingests hintime ((fail_ingests (calls i) executed s.shared.seen hrun).mono ?_)
    intro hlost
    obtain ⟨hexecuted, frameUris, hphase⟩ := hlost
    rw [hatomic frameUris hphase] at hexecuted
    cases hexecuted
  | @cancel i hrun =>
    obtain ⟨queue, hqueue⟩ := h.queue
    refine h.keep rfl ?_ ⟨queue, hqueue.move ?_ (fun _ => rfl) rfl⟩
    · intro _ hraised
      cases hraised
    · intro _
      cases hphase : (s.phase i).phase with
      | returned response =>
        rw [hphase] at hrun
        cases hrun
      | _ => rfl
  | @setActiveMode cameraId mode =>
    obtain ⟨queue, hqueue⟩ := h.queue
    refine ⟨h.past, ?_, h.apart, queue, hqueue.mem, hqueue.nodup, hqueue.events, hqueue.apart⟩
    intro i hfor hown hlive
    have hlive : s.shared.now < (s.phase i).expiresAt := hlive
    have hne := idempotencyKey_ne_activeModeKey tenantId ingestionId cameraId
    show Function.update s.shared.keys.entry (activeModeKey cameraId) mode
      (idempotencyKey tenantId ingestionId) = some ("1", (s.phase i).expiresAt)
    rw [Function.update_of_ne hne]
    exact h.key i hfor hown hlive
  | @wait later hle =>
    obtain ⟨queue, hqueue⟩ := h.queue
    refine ⟨?_, ?_, h.apart, queue, hqueue.mem, hqueue.nodup, hqueue.events, hqueue.apart⟩
    · intro i hfor hown
      have hpast := h.past i hfor hown
      show (s.phase i).askedAt ≤ later
      omega
    · intro i hfor hown hlive
      have hlive : later < (s.phase i).expiresAt := hlive
      exact h.key i hfor hown (by omega)

/-- However the calls interleave and however long all goes on: the events of a sequence on the
stream are those of the calls that were answered that they have queued it, and each of these has
claimed the sequence at least a day after the one before. -/
theorem queued_a_day_apart {ls : List (TimedTurn ι)} (hbegun : ∀ i, (s.phase i).phase = .begun)
    (hevents : s.shared.seen.events tenantId ingestionId = [])
    (hrun : Run (Where Prompt (TimedIngesting calls)) s ls t) :
    ∃ queue, Queue calls tenantId ingestionId t queue := by
  have hidle : ∀ i, (s.phase i).phase.owns = true → False := by
    intro i hown
    rw [hbegun i] at hown
    cases hown
  have hstart : Spaced calls tenantId ingestionId s := by
    refine ⟨fun i _ hown => (hidle i hown).elim, fun i _ hown => (hidle i hown).elim,
      fun i _ _ _ _ hown => (hidle i hown).elim, [], ?_, .nil, ?_, .nil⟩
    · intro i
      refine iff_of_false List.not_mem_nil ?_
      intro hboth
      rw [hbegun i] at hboth
      cases hboth.2
    · rw [hevents]
      exact .nil
  have hend := hrun.invariant_where (fun _ _ _ hs htime hstep => hs.step htime hstep) hstart
  exact hend.queue

/-- The state after a turn, were it possible. -/
def takeTimedTurn (calls : ι → IngestCall) (s : Threads ι TimedStore TimedPhase) :
    TimedTurn ι → Threads ι TimedStore TimedPhase
  | .advance i =>
    let (u, p) := (calls i).advance s.shared.seen (s.phase i).phase
    s.move i (s.shared.left u, (s.phase i).next s.shared.now p)
  | .raise i executed =>
    let (u, p) := (calls i).fail executed s.shared.seen (s.phase i).phase
    s.move i (s.shared.left u, (s.phase i).next s.shared.now p)
  | .cancel i =>
    s.move i (s.shared.left s.shared.seen, (s.phase i).next s.shared.now (.raised .outage))
  | .setActiveMode cameraId mode =>
    ⟨{ s.shared with keys := ⟨Function.update s.shared.keys.entry (activeModeKey cameraId) mode⟩ },
      s.phase⟩
  | .wait later => ⟨{ s.shared with now := later }, s.phase⟩

instance timedInTime (c : TimedPhase) (now : Int) : Decidable (c.InTime now) :=
  inferInstanceAs (Decidable (c.phase.owns = true → now < c.expiresAt))

def canTakeTimedTurn (s : Threads ι TimedStore TimedPhase) : TimedTurn ι → Bool
  | .advance i => !(s.phase i).phase.ended && decide ((s.phase i).InTime s.shared.now)
  | .raise i executed =>
    !(s.phase i).phase.ended && decide ((s.phase i).InTime s.shared.now) && !executed
  | .cancel i => !(s.phase i).phase.ended
  | .setActiveMode _ _ => true
  | .wait later => decide (s.shared.now ≤ later)

def canTakeTimedTurns (calls : ι → IngestCall) :
    Threads ι TimedStore TimedPhase → List (TimedTurn ι) → Bool
  | _, [] => true
  | s, l :: ls => canTakeTimedTurn s l && canTakeTimedTurns calls (takeTimedTurn calls s l) ls

theorem timed_takeTimedTurn {s : Threads ι TimedStore TimedPhase} {l : TimedTurn ι}
    (h : canTakeTimedTurn s l = true) :
    Where Prompt (TimedIngesting calls) s l (takeTimedTurn calls s l) := by
  cases l with
  | advance i =>
    simp only [canTakeTimedTurn, Bool.and_eq_true, Bool.not_eq_true', decide_eq_true_eq] at h
    exact ⟨h.2, .advance h.1⟩
  | raise i executed =>
    simp only [canTakeTimedTurn, Bool.and_eq_true, Bool.not_eq_true', decide_eq_true_eq] at h
    exact ⟨⟨h.1.2, fun _ _ => h.2⟩, .raise h.1.1⟩
  | cancel i =>
    simp only [canTakeTimedTurn, Bool.not_eq_true'] at h
    exact ⟨trivial, .cancel h⟩
  | setActiveMode cameraId mode => exact ⟨trivial, .setActiveMode⟩
  | wait later => exact ⟨trivial, .wait (of_decide_eq_true h)⟩

theorem run_takeTimedTurns {s : Threads ι TimedStore TimedPhase} {ls : List (TimedTurn ι)}
    (h : canTakeTimedTurns calls s ls = true) :
    Run (Where Prompt (TimedIngesting calls)) s ls (ls.foldl (takeTimedTurn calls) s) := by
  induction ls generalizing s with
  | nil => exact .nil s
  | cons l ls ih =>
    simp only [canTakeTimedTurns, Bool.and_eq_true] at h
    exact .cons (timed_takeTimedTurn h.1) (ih h.2)

/-- Keys with the active mode of a camera, which lasts for two days, and no call begun. -/
def sampleTimedStart : Threads (Fin 3) TimedStore TimedPhase :=
  ⟨⟨⟨Function.update (fun _ => none) (activeModeKey ⟨2⟩) (some (Uuid.str ⟨5⟩, seconds 172800))⟩,
    [], 0⟩, fun _ => ⟨.begun, 0⟩⟩

/-- A request queues its sequence and the next is a duplicate of it; a day later one queues it
again. -/
theorem queued_a_day_apart_sample :
    let ls : List (TimedTurn (Fin 3)) :=
      [.advance 0, .advance 1, .advance 0, .advance 0, .advance 0, .wait (seconds 86400),
        .advance 2, .advance 2, .advance 2, .advance 2]
    let t := ls.foldl (takeTimedTurn fun _ => sampleIngestCall) sampleTimedStart
    (∃ queue, Queue (fun _ => sampleIngestCall) ⟨1⟩ ⟨11⟩ t queue) ∧
      (t.phase 0).phase.answered .queued = true ∧ (t.phase 1).phase.answered .duplicate = true ∧
        (t.phase 2).phase.answered .queued = true := by
  intro ls t
  have hqueue : ∃ queue, Queue (fun _ => sampleIngestCall) ⟨1⟩ ⟨11⟩ t queue :=
    queued_a_day_apart (fun _ => rfl) rfl (run_takeTimedTurns (by decide +kernel))
  exact ⟨hqueue, by decide +kernel, by decide +kernel, by decide +kernel⟩

end ArgusServices

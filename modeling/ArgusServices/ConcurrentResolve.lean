import ArgusServices.SerialInterleaving
import ArgusServices.SerialRun

namespace ArgusServices

open Transition

/-- The points of a resolve request between its waits. -/
inductive ResolvePhase
  | begun
  | read (decision : Decision)
  | checked (decision : Decision)
  | updated (decision : Decision)
  | submitted (decision : Decision)
  | audited (decision : Decision)
  | published (decision : Decision)
  | committed (decision : Decision)
  | failed
  deriving DecidableEq, Repr

def ResolvePhase.ended : ResolvePhase → Bool
  | .committed _ | .failed => true
  | _ => false

/-- The dependencies of the request let it through and its body is valid. -/
def ResolveCall.admitted (call : ResolveCall) : Bool :=
  (call.auth.role = .rootAdmin || call.auth.tenantId = some call.tenantId) &&
    [UserRole.watcher, .tenantAdmin].contains call.auth.role &&
    call.body.requireReasoningForFpFn

/-- The row the commit leaves: the UPDATE goes over the row as it is by now. -/
def ResolveCall.written (call : ResolveCall) (decision : Decision) (db : Db) : Decision :=
  match db.decisions.find decision.id with
  | some current => decision.rebase (resolvedRow call decision) current
  | none => resolvedRow call decision

def ResolveCall.commit (call : ResolveCall) (decision : Decision) (db : Db) : Db :=
  { db with
    decisions := db.decisions.put (call.written decision db)
    feedback := db.feedback ++ [resolvedFeedback call decision]
    auditRecords := db.auditRecords ++ [resolvedAudit call decision] }

/-- What a request does when it is its turn, up to its next wait. Rows it reads are committed
ones; the unique constraint on the feedback of a decision refuses a second row. -/
def ResolveCall.advance (call : ResolveCall) (w : World) : ResolvePhase → World × ResolvePhase
  | .begun =>
    if call.admitted then
      match (w.db.decisions.find call.decisionId).filter fun d => d.tenantId = call.tenantId with
      | none => (w, .failed)
      | some decision => (w, .read decision)
    else (w, .failed)
  | .read decision =>
    if decision.tenantId ≠ call.tenantId then (w, .failed)
    else if decision.updatedAt ≠ call.body.updatedAt then (w, .failed)
    else if decision.state.resolved then (w, .failed)
    else (w, .checked decision)
  | .checked decision =>
    if (w.db.decisions.find decision.id).isSome then (w, .updated decision) else (w, .failed)
  | .updated decision =>
    if w.db.feedback.any fun f => f.decisionId = decision.id then (w, .failed)
    else (w, .submitted decision)
  | .submitted decision => (w, .audited decision)
  | .audited decision =>
    ({ w with published := w.published ++ [resolvedEvent call decision] }, .published decision)
  | .published decision => ({ w with db := call.commit decision w.db }, .committed decision)
  | .committed decision => (w, .committed decision)
  | .failed => (w, .failed)

/-- The decision whose row an open UPDATE of a request locks. -/
def ResolvePhase.lockedRow : ResolvePhase → Option Uuid
  | .updated decision | .submitted decision | .audited decision | .published decision =>
    some decision.id
  | _ => none

/-- The decision for which a request has inserted feedback it has not committed. -/
def ResolvePhase.feedbackRow : ResolvePhase → Option Uuid
  | .submitted decision | .audited decision | .published decision => some decision.id
  | _ => none

/-- A request waits for the row lock at its UPDATE, and at its INSERT for one of the same key. -/
def ResolvePhase.waitsFor (p q : ResolvePhase) : Bool :=
  match p with
  | .checked decision => q.lockedRow = some decision.id
  | .updated decision => q.feedbackRow = some decision.id
  | _ => false

def ResolveBlocked {ι : Type} (s : Threads ι World ResolvePhase) (i : ι) : Prop :=
  ∃ j, j ≠ i ∧ (s.phase i).waitsFor (s.phase j) = true

instance {ι : Type} [Fintype ι] [DecidableEq ι] (s : Threads ι World ResolvePhase) (i : ι) :
    Decidable (ResolveBlocked s i) :=
  inferInstanceAs (Decidable (∃ j, j ≠ i ∧ _ = true))

/-- The interleaved requests: one of them advances, one raises, or a key expires. -/
inductive ResolveInterleaved {ι : Type} [DecidableEq ι] (calls : ι → ResolveCall) :
    Threads ι World ResolvePhase → Turn ι → Threads ι World ResolvePhase → Prop
  | advance {s : Threads ι World ResolvePhase} {i : ι} : (s.phase i).ended = false →
      ¬ResolveBlocked s i → ResolveInterleaved calls s (.advance i)
        (s.move i ((calls i).advance s.shared (s.phase i)))
  | raise {s : Threads ι World ResolvePhase} {i : ι} : (s.phase i).ended = false →
      ResolveInterleaved calls s (.raise i) (s.move i (s.shared, .failed))
  | expireKey {s : Threads ι World ResolvePhase} {key : String} :
      ResolveInterleaved calls s (.expireKey key) ⟨s.shared.withKey key none, s.phase⟩

/-- All an unfinished request can do in its turn. -/
inductive Resolves (call : ResolveCall) (w : World) :
    ResolvePhase → World → ResolvePhase → Prop
  | read {d : Decision} : call.admitted = true → w.db.decisions.find d.id = some d →
      d.id = call.decisionId → d.tenantId = call.tenantId → Resolves call w .begun w (.read d)
  | check {d : Decision} : d.updatedAt = call.body.updatedAt → d.state.resolved = false →
      Resolves call w (.read d) w (.checked d)
  | update {d : Decision} : Resolves call w (.checked d) w (.updated d)
  | submit {d : Decision} : (∀ f ∈ w.db.feedback, f.decisionId ≠ d.id) →
      Resolves call w (.updated d) w (.submitted d)
  | audit {d : Decision} : Resolves call w (.submitted d) w (.audited d)
  | publish {d : Decision} : Resolves call w (.audited d)
      { w with published := w.published ++ [resolvedEvent call d] } (.published d)
  | commit {d : Decision} : Resolves call w (.published d)
      { w with db := call.commit d w.db } (.committed d)
  | fail {p : ResolvePhase} : Resolves call w p w .failed

theorem advance_resolves (call : ResolveCall) (w : World) {p : ResolvePhase}
    (hp : p.ended = false) :
    Resolves call w p (call.advance w p).1 (call.advance w p).2 := by
  cases p with
  | begun =>
    simp only [ResolveCall.advance]
    split
    next hadm =>
      split
      · exact .fail
      next d h =>
        obtain ⟨hd, hten⟩ := Option.filter_eq_some_iff.mp h
        have hkey := w.db.decisions.keyed _ _ hd
        exact .read hadm (hkey ▸ hd) hkey (of_decide_eq_true hten)
    · exact .fail
  | read d =>
    simp only [ResolveCall.advance]
    split
    · exact .fail
    · split
      · exact .fail
      next hcur =>
        split
        · exact .fail
        next hopen => exact .check (by simpa using hcur) (by simpa using hopen)
  | checked d =>
    simp only [ResolveCall.advance]
    split
    · exact .update
    · exact .fail
  | updated d =>
    simp only [ResolveCall.advance]
    split
    · exact .fail
    next h => exact .submit (by simpa using h)
  | submitted d => exact .audit
  | audited d => exact .publish
  | published d => exact .commit
  | committed d => cases hp
  | failed => cases hp

theorem admitted_iff {call : ResolveCall} : call.admitted = true ↔
    (call.auth.role = .watcher ∨ call.auth.role = .tenantAdmin) ∧
      call.auth.tenantId = some call.tenantId ∧ call.body.requireReasoningForFpFn = true := by
  cases h : call.auth.role <;> simp [ResolveCall.admitted, h]

/-- A request that nothing fails and that cannot commit leaves the state as it was. -/
theorem resolveDecision_refused {call : ResolveCall} {w : World} (hr : call.raisesAt = none)
    (hno : ∀ d, Accepted call w d → (w.db.feedback.any fun f => f.decisionId = d.id) = true) :
    (resolveDecision call w).2 = w := by
  rcases resolveDecision_cases call w with h | ⟨d, h⟩
  · generalize (resolveDecision call w).2 = w' at h
    cases h with
    | unchanged _ => rfl
    | published hraises _ =>
      rw [hr] at hraises
      cases hraises
  · have hfeedback := h.no_feedback
    rw [hno d h.toAccepted] at hfeedback
    cases hfeedback

theorem Accepted.advance_read {call : ResolveCall} {w : World} {d : Decision}
    (h : Accepted call w d) : call.advance w .begun = (w, .read d) := by
  have hrow : (w.db.decisions.find call.decisionId).filter
      (fun d => decide (d.tenantId = call.tenantId)) = some d :=
    Option.filter_eq_some_iff.mpr ⟨h.found, decide_eq_true h.tenant⟩
  have hadm := admitted_iff.mpr ⟨h.role, h.access, h.reasoning⟩
  simp only [ResolveCall.advance, hadm, hrow, ↓reduceIte]

theorem Accepted.advance_checked {call : ResolveCall} {w : World} {d : Decision}
    (h : Accepted call w d) : call.advance w (.read d) = (w, .checked d) := by
  simp [ResolveCall.advance, h.tenant, h.current, h.unresolved]

theorem Accepted.advance_updated {call : ResolveCall} {w : World} {d : Decision}
    (h : Accepted call w d) : call.advance w (.checked d) = (w, .updated d) := by
  have hkey := w.db.decisions.keyed _ _ h.found
  simp [ResolveCall.advance, hkey, h.found]

theorem Accepted.of_read {call : ResolveCall} {w : World} {d : Decision}
    (hbegun : call.advance w .begun = (w, .read d))
    (hread : call.advance w (.read d) ≠ (w, .failed)) : Accepted call w d := by
  have hresolves : Resolves call w .begun (call.advance w .begun).1 (call.advance w .begun).2 :=
    advance_resolves call w rfl
  rw [hbegun] at hresolves
  cases hresolves with
  | read hadm hfound hid hten =>
    obtain ⟨hrole, haccess, hreason⟩ := admitted_iff.mp hadm
    have hchecked : Resolves call w (.read d) (call.advance w (.read d)).1
        (call.advance w (.read d)).2 := advance_resolves call w rfl
    rcases hadvance : call.advance w (.read d) with ⟨w', p⟩
    rw [hadvance] at hchecked
    cases hchecked with
    | check hcur hopen => exact ⟨hrole, haccess, hreason, hid ▸ hfound, hten, hcur, hopen⟩
    | fail => exact absurd hadvance hread

/-- A request that nothing fails and no other disturbs leaves what the serial one leaves. -/
theorem resolve_alone {call : ResolveCall} (hr : call.raisesAt = none) (w : World) :
    ((fun x : World × ResolvePhase => call.advance x.1 x.2)^[7] (w, .begun)).1 =
      (resolveDecision call w).2 := by
  have failed : ∀ n, (fun x : World × ResolvePhase => call.advance x.1 x.2)^[n] (w, .failed) =
      (w, .failed) := fun n => Function.iterate_fixed rfl n
  by_cases hex : ∃ d, Accepted call w d
  · obtain ⟨d, hacc⟩ := hex
    rw [Function.iterate_succ_apply, hacc.advance_read, Function.iterate_succ_apply,
      hacc.advance_checked, Function.iterate_succ_apply, hacc.advance_updated,
      Function.iterate_succ_apply]
    cases hfeedback : w.db.feedback.any fun f => f.decisionId = d.id with
    | true =>
      have hrefused : (resolveDecision call w).2 = w := by
        refine resolveDecision_refused hr ?_
        intro d' hacc'
        obtain rfl := Option.some.inj (hacc.found.symm.trans hacc'.found)
        exact hfeedback
      have hinsert : call.advance w (.updated d) = (w, .failed) := by
        simp only [ResolveCall.advance, hfeedback, ↓reduceIte]
      rw [hinsert, failed, hrefused]
    | false =>
      have hkey := w.db.decisions.keyed _ _ hacc.found
      have hwritten : call.written d w.db = resolvedRow call d := by
        simp only [ResolveCall.written, hkey, hacc.found]
        exact rebase_self rfl
      rw [(resolveDecision_commits hr hacc hfeedback).world]
      simp only [ResolveCall.advance, hfeedback, Bool.false_eq_true, ↓reduceIte,
        Function.iterate_succ_apply, Function.iterate_zero, id_eq, ResolveCall.commit, hwritten,
        resolveTx]
  · have hrefused : (resolveDecision call w).2 = w :=
      resolveDecision_refused hr fun d hacc => absurd ⟨d, hacc⟩ hex
    rw [hrefused, Function.iterate_succ_apply]
    have hbegun : Resolves call w .begun (call.advance w .begun).1 (call.advance w .begun).2 :=
      advance_resolves call w rfl
    rcases hadvance : call.advance w .begun with ⟨w', p⟩
    rw [hadvance] at hbegun
    cases hbegun with
    | fail => rw [failed]
    | @read d =>
      have hread : call.advance w' (.read d) = (w', .failed) := by
        by_contra hgo
        exact hex ⟨d, Accepted.of_read hadvance hgo⟩
      rw [Function.iterate_succ_apply, hread, failed]

variable {ι : Type} [DecidableEq ι] {calls : ι → ResolveCall}
  {s t : Threads ι World ResolvePhase} {l : Turn ι} {D : Uuid}

/-- A step is one of an unfinished request, which waits for no other if it does not fail, or one
that touches no row. -/
theorem ResolveInterleaved.cases (h : ResolveInterleaved calls s l t) :
    (∃ i w p, t = s.move i (w, p) ∧ (s.phase i).ended = false ∧
      (p = .failed ∨ ¬ResolveBlocked s i) ∧ Resolves (calls i) s.shared (s.phase i) w p) ∨
    (t.shared.db = s.shared.db ∧ t.phase = s.phase) := by
  cases h with
  | advance hrun hfree =>
    exact Or.inl ⟨_, _, _, rfl, hrun, Or.inr hfree, advance_resolves _ _ hrun⟩
  | raise hrun => exact Or.inl ⟨_, _, _, rfl, hrun, Or.inl rfl, .fail⟩
  | expireKey => exact Or.inr ⟨rfl, rfl⟩

/-- The row of a decision a request has read. -/
def ResolvePhase.copy : ResolvePhase → Option Decision
  | .read d | .checked d | .updated d | .submitted d | .audited d | .published d
  | .committed d => some d
  | .begun | .failed => none

theorem lockedRow_of_feedbackRow {p : ResolvePhase} (h : p.feedbackRow = some D) :
    p.lockedRow = some D := by
  cases p <;> first | exact h | cases h

/-- No two requests hold the row lock of a decision. -/
def RowLocked (s : Threads ι World ResolvePhase) : Prop :=
  ∀ j k, j ≠ k → ∀ D, (s.phase j).lockedRow = some D → (s.phase k).lockedRow ≠ some D

theorem Resolves.lockedRow {call : ResolveCall} {w w' : World} {p p' : ResolvePhase}
    (h : Resolves call w p w' p') (hD : p'.lockedRow = some D) :
    p.lockedRow = some D ∨ ∃ d, p = .checked d ∧ p' = .updated d ∧ d.id = D := by
  cases h with
  | update => exact Or.inr ⟨_, rfl, rfl, Option.some.inj hD⟩
  | submit => exact Or.inl hD
  | audit => exact Or.inl hD
  | publish => exact Or.inl hD
  | _ => cases hD

theorem RowLocked.step (h : RowLocked s) (hs : ResolveInterleaved calls s l t) : RowLocked t := by
  rcases hs.cases with ⟨i, w, p, rfl, -, hfree, hstep⟩ | ⟨-, hphase⟩
  · have alone : ∀ k, k ≠ i → ∀ D, p.lockedRow = some D → (s.phase k).lockedRow ≠ some D := by
      intro k hk D hp hlock
      rcases hstep.lockedRow hp with hold | ⟨d, hd, rfl, rfl⟩
      · exact h i k hk.symm D hold hlock
      · rcases hfree with hfail | hfree
        · cases hfail
        · exact hfree ⟨k, hk, by simp [hd, ResolvePhase.waitsFor, hlock]⟩
    refine Threads.forall₂_move
      (fun _ _ (p q : ResolvePhase) => ∀ D, p.lockedRow = some D → q.lockedRow ≠ some D) h alone ?_
    intro j hj D hlock hp
    exact alone j hj D hp hlock
  · intro j k hjk
    rw [hphase]
    exact h j k hjk

/-- The 'resolved' records of a decision. -/
def Db.resolvedRecords (db : Db) (id : Uuid) : List AuditRecord :=
  db.auditRecords.filter fun r => r.decisionId = id && r.eventType = "resolved"

def Db.feedbackOf (db : Db) (id : Uuid) : List Feedback :=
  db.feedback.filter fun f => f.decisionId = id

section

variable {d b : Decision} {call : ResolveCall} {db : Db} {rs : List AuditRecord}

/-- What the rows of a decision are when no request has committed, as `d` and `rs`, and when one
has. -/
structure ResolveRows (d : Decision) (rs : List AuditRecord) (resolver : Option ResolveCall)
    (db : Db) : Prop where
  row : db.decisions.find d.id = some (resolver.elim d fun call => resolvedRow call d)
  feedback : db.feedbackOf d.id = (resolver.map fun call => resolvedFeedback call d).toList
  audit : db.resolvedRecords d.id =
    rs ++ (resolver.map fun call => resolvedAudit call d).toList

theorem ResolveRows.other {resolver : Option ResolveCall} (h : ResolveRows d rs resolver db)
    (hne : b.id ≠ d.id) : ResolveRows d rs resolver (call.commit b db) := by
  have hid : (call.written b db).id = b.id := by
    unfold ResolveCall.written
    split
    next current hfound => rw [rebase_id, db.decisions.keyed _ _ hfound]
    next => rfl
  constructor
  · rw [← h.row]
    exact KeyedTable.find_put_of_ne _ fun heq => hne (hid ▸ heq.symm)
  · rw [← h.feedback]
    simp [Db.feedbackOf, ResolveCall.commit, resolvedFeedback, hne]
  · rw [← h.audit]
    simp [Db.resolvedRecords, ResolveCall.commit, resolvedAudit, hne]

theorem ResolveRows.first (h : ResolveRows d rs none db) :
    ResolveRows d rs (some call) (call.commit d db) := by
  have hwritten : call.written d db = resolvedRow call d := by
    have hrow : db.decisions.find d.id = some d := h.row
    simp only [ResolveCall.written, hrow]
    exact rebase_self rfl
  constructor
  · simp only [ResolveCall.commit, hwritten]
    exact KeyedTable.find_put_self _ (resolvedRow call d)
  · have hold : db.feedbackOf d.id = [] := h.feedback
    simp only [Db.feedbackOf] at hold
    simp [Db.feedbackOf, ResolveCall.commit, hold, resolvedFeedback]
  · have hold : db.resolvedRecords d.id = rs ++ [] := h.audit
    simp only [Db.resolvedRecords, List.append_nil] at hold
    simp [Db.resolvedRecords, ResolveCall.commit, hold, resolvedAudit]

end

theorem Resolves.db {call : ResolveCall} {w w' : World} {p p' : ResolvePhase}
    (h : Resolves call w p w' p') : (w'.db = w.db ∧ ∀ b, p' ≠ .committed b) ∨
      ∃ b, p = .published b ∧ p' = .committed b ∧ w'.db = call.commit b w.db := by
  cases h with
  | commit => exact Or.inr ⟨_, rfl, rfl, rfl⟩
  | _ =>
    refine Or.inl ⟨rfl, ?_⟩
    intro b hb
    cases hb

theorem Resolves.copy {call : ResolveCall} {w w' : World} {p p' : ResolvePhase} {b : Decision}
    (h : Resolves call w p w' p') (hb : p'.copy = some b) :
    p.copy = some b ∨ w.db.decisions.find b.id = some b := by
  cases h with
  | read _ hfound _ _ =>
    obtain rfl := Option.some.inj hb
    exact Or.inr hfound
  | fail => cases hb
  | _ => exact Or.inl hb

theorem Resolves.feedbackRow {call : ResolveCall} {w w' : World} {p p' : ResolvePhase}
    (h : Resolves call w p w' p') (hD : p'.feedbackRow = some D) :
    p.feedbackRow = some D ∨ w.db.feedbackOf D = [] := by
  cases h with
  | submit hfree =>
    obtain rfl := Option.some.inj hD
    exact Or.inr (List.filter_eq_nil_iff.mpr fun f hf => by simpa using hfree f hf)
  | audit => exact Or.inl hD
  | publish => exact Or.inl hD
  | _ => cases hD

/-- The requests with a decision none of them has committed a resolution of, or the one has. -/
structure ResolvedOnce (calls : ι → ResolveCall) (d : Decision) (rs : List AuditRecord)
    (resolver : Option ι) (s : Threads ι World ResolvePhase) : Prop where
  locked : RowLocked s
  rows : ResolveRows d rs (resolver.map calls) s.shared.db
  copies : resolver = none → ∀ i b, (s.phase i).copy = some b → b.id = d.id → b = d
  submitted : resolver ≠ none → ∀ i, (s.phase i).feedbackRow ≠ some d.id
  winner : ∀ i, resolver = some i → s.phase i = .committed d
  committed : ∀ i b, s.phase i = .committed b → b.id = d.id → resolver = some i

variable {d : Decision} {rs : List AuditRecord} {resolver : Option ι}

theorem ResolvedOnce.stay {i : ι} {w : World} {p : ResolvePhase}
    (h : ResolvedOnce calls d rs resolver s) (hlocked : RowLocked (s.move i (w, p)))
    (hrun : (s.phase i).ended = false) (hstep : Resolves (calls i) s.shared (s.phase i) w p)
    (hrows : ResolveRows d rs (resolver.map calls) w.db)
    (hcommitted : ∀ b, p = .committed b → b.id ≠ d.id) :
    ResolvedOnce calls d rs resolver (s.move i (w, p)) where
  locked := hlocked
  rows := hrows
  copies := by
    intro hnone
    refine Threads.forall_move (P := fun _ (q : ResolvePhase) => ∀ b, q.copy = some b →
      b.id = d.id → b = d) (h.copies hnone) ?_
    intro b hb hid
    rcases hstep.copy hb with hold | hfound
    · exact h.copies hnone i b hold hid
    · have hrow : s.shared.db.decisions.find d.id = some d := by
        simpa [hnone] using h.rows.row
      rw [hid] at hfound
      exact Option.some.inj (hfound.symm.trans hrow)
  submitted := by
    intro hsome
    refine Threads.forall_move (P := fun _ (q : ResolvePhase) => q.feedbackRow ≠ some d.id)
      (h.submitted hsome) ?_
    intro hp
    rcases hstep.feedbackRow hp with hold | hfree
    · exact h.submitted hsome i hold
    · obtain ⟨k, rfl⟩ := Option.ne_none_iff_exists'.mp hsome
      have hfeedback := h.rows.feedback
      rw [hfree] at hfeedback
      cases hfeedback
  winner := by
    intro k hk
    have hdone := h.winner k hk
    have hne : k ≠ i := by
      intro heq
      rw [← heq, hdone] at hrun
      cases hrun
    rw [Threads.move_phase_of_ne hne, hdone]
  committed := by
    refine Threads.forall_move (P := fun j (q : ResolvePhase) => ∀ b, q = .committed b →
      b.id = d.id → resolver = some j) h.committed ?_
    intro b hb hid
    exact absurd hid (hcommitted b hb)

/-- The turn that commits the decision. The lock of its feedback row keeps the others out. -/
theorem ResolvedOnce.win {i : ι} {w : World} (h : ResolvedOnce calls d rs none s)
    (hlocked : RowLocked (s.move i (w, .committed d))) (hp : s.phase i = .published d)
    (hdb : w.db = (calls i).commit d s.shared.db) :
    ResolvedOnce calls d rs (some i) (s.move i (w, .committed d)) where
  locked := hlocked
  rows := by
    rw [Threads.move_shared, hdb]
    exact h.rows.first
  copies := by
    intro hnone
    cases hnone
  submitted := by
    intro _ k hk
    have hfeedback : (s.phase i).feedbackRow = some d.id := by
      rw [hp]
      rfl
    by_cases hki : k = i
    · rw [hki, Threads.move_phase_self] at hk
      cases hk
    · rw [Threads.move_phase_of_ne hki] at hk
      exact h.locked k i hki _ (lockedRow_of_feedbackRow hk)
        (lockedRow_of_feedbackRow hfeedback)
  winner := by
    intro k hk
    obtain rfl := Option.some.inj hk
    rw [Threads.move_phase_self]
  committed := by
    intro k c hk hcid
    by_cases hki : k = i
    · rw [hki]
    · rw [Threads.move_phase_of_ne hki] at hk
      cases h.committed k c hk hcid

theorem ResolvedOnce.step (h : ResolvedOnce calls d rs resolver s)
    (hs : ResolveInterleaved calls s l t) : ∃ resolver, ResolvedOnce calls d rs resolver t := by
  have hlocked := h.locked.step hs
  rcases hs.cases with ⟨i, w, p, rfl, hrun, -, hstep⟩ | ⟨hdb, hphase⟩
  · rcases hstep.db with ⟨hdb, hno⟩ | ⟨b, hp, rfl, hdb⟩
    · exact ⟨resolver, h.stay hlocked hrun hstep (hdb ▸ h.rows) fun b hb => absurd hb (hno b)⟩
    · by_cases hid : b.id = d.id
      · -- its feedback is not committed yet, so no other request has committed one
        have hnone : resolver = none := by
          by_contra hsome
          refine h.submitted hsome i ?_
          rw [hp, ← hid]
          rfl
        subst hnone
        obtain rfl : b = d := h.copies rfl i b (by rw [hp]; rfl) hid
        exact ⟨some i, h.win hlocked hp hdb⟩
      · refine ⟨resolver, h.stay hlocked hrun hstep (hdb ▸ h.rows.other hid) ?_⟩
        intro c hc
        cases hc
        exact hid
  · refine ⟨resolver, hlocked, hdb ▸ h.rows, ?_, ?_, ?_, ?_⟩
    · rw [hphase]
      exact h.copies
    · rw [hphase]
      exact h.submitted
    · rw [hphase]
      exact h.winner
    · rw [hphase]
      exact h.committed

omit [DecidableEq ι] in
theorem ResolvedOnce.begun {w : World} (hd : w.db.decisions.find d.id = some d)
    (hfree : w.db.feedbackOf d.id = []) :
    ResolvedOnce calls d (w.db.resolvedRecords d.id) none ⟨w, fun _ => .begun⟩ where
  locked := by
    intro j k hjk D hj
    cases hj
  rows := ⟨hd, hfree, (List.append_nil _).symm⟩
  copies := by
    intro _ i b hb
    cases hb
  submitted := fun hsome => absurd rfl hsome
  winner := by
    intro i hi
    cases hi
  committed := by
    intro i b hb
    cases hb

theorem ResolvedOnce.run {turns : List (Turn ι)}
    (h : ∃ resolver, ResolvedOnce calls d rs resolver s)
    (hrun : Run (ResolveInterleaved calls) s turns t) :
    ∃ resolver, ResolvedOnce calls d rs resolver t := by
  refine hrun.invariant (I := fun s => ∃ resolver, ResolvedOnce calls d rs resolver s) ?_ h
  intro s l t h hs
  obtain ⟨resolver, h⟩ := h
  exact h.step hs

/-- A 'resolved' record comes with the feedback of its decision. -/
def Db.ResolvedOnRecord (db : Db) : Prop :=
  ∀ r ∈ db.auditRecords, r.eventType = "resolved" → ∃ f ∈ db.feedback, f.decisionId = r.decisionId

theorem Db.ResolvedOnRecord.serve {w : World} (r : Request) (h : w.db.ResolvedOnRecord) :
    (serve w r).db.ResolvedOnRecord := by
  refine serve_keeps h ?_ ?_ (fun _ => h)
  · intro call w' evidence tenant d _ hc r hr htype
    have hfeedback : w'.db.feedback = w.db.feedback := by
      rw [hc.db]
      rfl
    have haudit : w'.db.auditRecords =
        w.db.auditRecords ++ newAudits tenant (afterLink w.db call d evidence) := by
      rw [hc.db]
      rfl
    rw [haudit, List.mem_append] at hr
    rw [hfeedback]
    rcases hr with hold | hnew
    · exact h r hold htype
    · unfold newAudits at hnew
      split at hnew
      · cases hnew
      · obtain rfl := List.mem_singleton.mp hnew
        simp at htype
  · intro call w' d _ hresolved r hr htype
    rw [hresolved.world] at hr ⊢
    simp only [resolveTx, List.mem_append, List.mem_singleton] at hr ⊢
    rcases hr with hold | rfl
    · obtain ⟨f, hf, hid⟩ := h r hold htype
      exact ⟨f, Or.inl hf, hid⟩
    · exact ⟨_, Or.inr rfl, rfl⟩

theorem Db.ResolvedOnRecord.resolvedRecords {db : Db} (h : db.ResolvedOnRecord)
    (hfree : db.feedbackOf D = []) : db.resolvedRecords D = [] := by
  refine List.filter_eq_nil_iff.mpr ?_
  intro r hr hres
  simp only [Bool.and_eq_true, decide_eq_true_eq] at hres
  obtain ⟨f, hf, hid⟩ := h r hr hres.2
  have := List.filter_eq_nil_iff.mp hfree f hf
  simp [hid, hres.1] at this

/-- A state that serial calls can bring about. -/
def World.Reached (w : World) : Prop :=
  ∃ (w₀ : World) (rs : List Request), w₀.Initial ∧ Run Served w₀ rs w

theorem World.Reached.resolvedRecords {w : World} (h : w.Reached)
    (hfree : w.db.feedbackOf D = []) : w.db.resolvedRecords D = [] := by
  obtain ⟨w₀, rs, hinit, hrun⟩ := h
  have hrecord : w.db.ResolvedOnRecord :=
    hrun.invariant (I := fun w => w.db.ResolvedOnRecord) (fun _ r _ h hw => hw ▸ h.serve r)
      (fun r hr => by simp [hinit.auditRecords] at hr)
  exact hrecord.resolvedRecords hfree

/-- The requests that have committed a resolution of a decision. -/
def Resolver (s : Threads ι World ResolvePhase) (D : Uuid) (i : ι) : Prop :=
  ∃ d, s.phase i = .committed d ∧ d.id = D

/-- Of any number of requests that are interleaved on a decision without feedback at most one
commits a resolution, and the row, the feedback and the audit trail are all of that one. -/
theorem concurrent_resolves_agree (calls : ι → ResolveCall) (w : World) (d : Decision)
    (hd : w.db.decisions.find d.id = some d) (hfree : w.db.feedbackOf d.id = [])
    (turns : List (Turn ι)) (s : Threads ι World ResolvePhase)
    (hrun : Run (ResolveInterleaved calls) ⟨w, fun _ => .begun⟩ turns s) :
    (∀ i j, Resolver s d.id i → Resolver s d.id j → i = j) ∧
    ((∃ i, Resolver s d.id i) → ∃ row f a, s.shared.db.decisions.find d.id = some row ∧
      s.shared.db.feedbackOf d.id = [f] ∧ row.state = dispositionToState f.disposition ∧
      row.resolvedBy = some f.submittedBy ∧ a.actor = some f.submittedBy ∧
      s.shared.db.resolvedRecords d.id = w.db.resolvedRecords d.id ++ [a] ∧
      (w.Reached → s.shared.db.resolvedRecords d.id = [a])) ∧
    ((∀ i, ¬Resolver s d.id i) → s.shared.db.decisions.find d.id = some d ∧
      s.shared.db.feedbackOf d.id = [] ∧
      s.shared.db.resolvedRecords d.id = w.db.resolvedRecords d.id) := by
  obtain ⟨resolver, h⟩ := ResolvedOnce.run ⟨none, ResolvedOnce.begun hd hfree⟩ hrun
  have known : ∀ i, Resolver s d.id i → resolver = some i := by
    intro i hi
    obtain ⟨b, hb, hid⟩ := hi
    exact h.committed i b hb hid
  refine ⟨?_, ?_, ?_⟩
  · intro i j hi hj
    exact Option.some.inj ((known i hi).symm.trans (known j hj))
  · intro hex
    obtain ⟨i, hi⟩ := hex
    obtain rfl := known i hi
    refine ⟨_, _, _, h.rows.row, h.rows.feedback, rfl, rfl, rfl, h.rows.audit, ?_⟩
    intro hreach
    have haudit := h.rows.audit
    rwa [hreach.resolvedRecords hfree, List.nil_append] at haudit
  · intro hno
    cases resolver with
    | none =>
      refine ⟨h.rows.row, h.rows.feedback, ?_⟩
      have haudit := h.rows.audit
      rwa [Option.map_none, Option.map_none, Option.toList_none, List.append_nil] at haudit
    | some i => exact absurd ⟨d, h.winner i rfl, rfl⟩ (hno i)

def takeResolveTurn (calls : ι → ResolveCall) (s : Threads ι World ResolvePhase) (i : ι) :
    Threads ι World ResolvePhase :=
  s.move i ((calls i).advance s.shared (s.phase i))

def canTakeResolveTurn [Fintype ι] (s : Threads ι World ResolvePhase) (i : ι) : Bool :=
  !(s.phase i).ended && !decide (ResolveBlocked s i)

theorem takeResolveTurn_step [Fintype ι] (s : Threads ι World ResolvePhase) (i : ι)
    (h : canTakeResolveTurn s i = true) :
    ResolveInterleaved calls s (.advance i) (takeResolveTurn calls s i) := by
  simp only [canTakeResolveTurn, Bool.and_eq_true, Bool.not_eq_true',
    decide_eq_false_iff_not] at h
  exact .advance h.1 h.2

def pendingWorld : World :=
  serve (sampleWorld [sampleEvidence 11 none 4]) (.aggregate (sampleAggregate 11 20))

def pendingRow : Decision :=
  { newDecision (sampleAggregate 11 20) (sampleEvidence 11 none 4) sampleTenant with
    cumulativeSeverity := 4
    evidenceCount := 1 }

/-- Two watchers of different minds. -/
def rivalResolves : Bool → ResolveCall
  | true => sampleResolve 20
  | false => { sampleResolve 20 with
      body := ⟨.falsePositive, "a shadow", 7⟩
      auth := ⟨"second watcher", some ⟨1⟩, .watcher⟩ }

/-- Both pass the checks before either writes. -/
def rivalTurns : List Bool :=
  [true, false, true, false, false, false, false, false, false, true, true]

def rivalEnd : Threads Bool World ResolvePhase :=
  rivalTurns.foldl (takeResolveTurn rivalResolves) ⟨pendingWorld, fun _ => .begun⟩

theorem concurrent_resolves_agree_sample :
    ∃ row f a, rivalEnd.shared.db.decisions.find ⟨20⟩ = some row ∧
      rivalEnd.shared.db.feedbackOf ⟨20⟩ = [f] ∧ row.state = dispositionToState f.disposition ∧
      row.resolvedBy = some f.submittedBy ∧ a.actor = some f.submittedBy ∧
      rivalEnd.shared.db.resolvedRecords ⟨20⟩ = [a] := by
  have hrun : Run (ResolveInterleaved rivalResolves) ⟨pendingWorld, fun _ => .begun⟩
      (rivalTurns.map .advance) rivalEnd :=
    run_foldl canTakeResolveTurn takeResolveTurn_step (by decide +kernel)
  obtain ⟨row, f, a, hrow, hf, hstate, hby, hactor, -, hrecords⟩ :=
    (concurrent_resolves_agree rivalResolves pendingWorld pendingRow (by decide +kernel)
      (by decide +kernel) _ _ hrun).2.1 ⟨false, pendingRow, by decide +kernel, rfl⟩
  have hreached : pendingWorld.Reached :=
    ⟨_, [.aggregate (sampleAggregate 11 20)], sampleWorld_initial _, run_serve _ _⟩
  exact ⟨row, f, a, hrow, hf, hstate, hby, hactor, hrecords hreached⟩

end ArgusServices

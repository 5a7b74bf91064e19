import ArgusServices.AdvanceEffect
import ArgusServices.LinkTable
import ArgusServices.SerialRun

namespace ArgusServices

open Transition

/-- The committed row of a decision agrees with its links. -/
def Settled (D : Uuid) (w : World) : Prop :=
  ∃ d, w.db.decisions.find D = some d ∧ Tally w.db d

instance (D : Uuid) (w : World) : Decidable (Settled D w) :=
  decidable_of_iff ((w.db.decisions.find D).any fun d : Decision => decide (Tally w.db d))
    (by simp only [Option.any_eq_true, decide_eq_true_eq, Settled])

/-- A call that has committed its evidence into a decision it found. -/
def AggregatePhase.mergedInto (D : Uuid) : AggregatePhase → Bool
  | .committed txn => !txn.created && txn.base.id = D
  | _ => false

/-- No interleaving of calls that merge different evidences into a decision loses an update. -/
def NoLostUpdate : Prop :=
  ∀ (ι : Type) (_ : DecidableEq ι) (calls : ι → AggregateCall) (D : Uuid)
    (s t : Threads ι World AggregatePhase) (ls : List (Turn ι)), (∀ i, s.phase i = .begun) →
    (∀ i j, (calls i).evidenceId = (calls j).evidenceId → i = j) → Settled D s.shared →
    Run (Interleaved calls) s ls t → (∀ i, (t.phase i).mergedInto D = true) → Settled D t.shared

def raceCalls : Bool → AggregateCall
  | true => sampleAggregate 12 21
  | false => sampleAggregate 13 22

/-- A decision of one evidence, and two calls about to merge one more each. -/
def raceStart : Threads Bool World AggregatePhase :=
  ⟨serve (sampleWorld [sampleEvidence 11 none 4, sampleEvidence 12 none 2,
    sampleEvidence 13 none 3]) (.aggregate (sampleAggregate 11 20)), fun _ => .begun⟩

/-- Both calls read the row before either commits. -/
def raceTurns : List Bool :=
  [true, false, true, false, true, false, true, false, true, true, false, false]

theorem not_noLostUpdate : ¬NoLostUpdate := by
  intro h
  have hrun : Run (Interleaved raceCalls) raceStart (raceTurns.map .advance)
      (takeTurns raceCalls raceStart raceTurns) := run_takeTurns (by decide +kernel)
  have hdistinct : ∀ i j, (raceCalls i).evidenceId = (raceCalls j).evidenceId → i = j := by decide
  have hsettled := h Bool _ raceCalls ⟨20⟩ _ _ _ (fun _ => rfl) hdistinct (by decide +kernel) hrun
    (by decide +kernel)
  exact absurd hsettled (by decide +kernel)

/-- A commit that links to the decision finds the counter the call has read. -/
def Fresh (D : Uuid) (s : Threads ι World AggregatePhase) : Turn ι → Prop
  | .advance i => ∀ txn d, s.phase i = .flushed txn [] → txn.newLink = true → txn.base.id = D →
      s.shared.db.decisions.find D = some d → d.evidenceCount = txn.base.evidenceCount
  | .raise _ | .expireKey _ => True

variable {ι : Type} [DecidableEq ι] {calls : ι → AggregateCall} {D : Uuid}
  {s t : Threads ι World AggregatePhase} {l : Turn ι}

/-- What holds of a decision that exists, in every run: no call inserts a row under its
identifier, and the evidences the calls work on are in the table. -/
structure Present (calls : ι → AggregateCall) (D : Uuid)
    (s : Threads ι World AggregatePhase) : Prop where
  row : ∃ d, s.shared.db.decisions.find D = some d
  inserted : ∀ i, (s.phase i).insertedRow (calls i) ≠ some D
  evidence : ∀ i e, (s.phase i).evidence = some e → s.shared.db.evidences.find e.id = some e

/-- The committed row, and rows of it that calls have read: none is ahead, and one with the
same counter has the same sum. -/
structure ReadsCurrent (D : Uuid) (s : Threads ι World AggregatePhase) (d : Decision) : Prop where
  found : s.shared.db.decisions.find D = some d
  tally : Tally s.shared.db d
  count : ∀ i b, (s.phase i).base = some b → b.id = D → b.evidenceCount ≤ d.evidenceCount
  severity : ∀ i b, (s.phase i).base = some b → b.id = D → b.evidenceCount = d.evidenceCount →
    b.cumulativeSeverity = d.cumulativeSeverity

/-- A counter that has fallen behind the links, in the row and in all copies of it. -/
structure FallenBehind (D : Uuid) (s : Threads ι World AggregatePhase) (d : Decision) : Prop where
  found : s.shared.db.decisions.find D = some d
  row : d.evidenceCount < (s.shared.db.linksOf D).length
  copies : ∀ i b, (s.phase i).base = some b → b.id = D →
    b.evidenceCount < (s.shared.db.linksOf D).length

/-- What a step does to the row and the links of a decision. -/
inductive RowStep (calls : ι → AggregateCall) (D : Uuid) (s t : Threads ι World AggregatePhase)
    (l : Turn ι) : Prop
  | kept : t.shared.db.decisions.find D = s.shared.db.decisions.find D →
      t.shared.db.linksOf D = s.shared.db.linksOf D → RowStep calls D s t l
  | updated {i : ι} {txn : Txn} {d : Decision} : l = .advance i → s.phase i = .flushed txn [] →
      (s.phase i).base = some txn.base → txn.base.id = D →
      s.shared.db.decisions.find D = some d →
      t.shared.db.decisions.find D = some (txn.base.rebase (txn.row (calls i)) d) →
      t.shared.db.decisionEvidences = s.shared.db.decisionEvidences ++ txn.links →
      RowStep calls D s t l

theorem Present.rowStep (h : Present calls D s) (hs : Interleaved calls s l t) :
    RowStep calls D s t l := by
  rcases hs.db with hdb | ⟨i, txn, hl, hp, _, hdb⟩
  · exact .kept (by rw [hdb]) (by rw [hdb])
  · by_cases hid : D = txn.base.id
    · have hcreated : txn.created = false := by
        have := h.inserted i
        by_contra hc
        simp [hp, AggregatePhase.insertedRow, hc, hid] at this
      obtain ⟨d, hd⟩ := h.row
      refine .updated hl hp ?_ hid.symm hd ?_ ?_
      · simp [hp, AggregatePhase.base, hcreated]
      · rw [hdb, Txn.commit_find, if_pos hid, Txn.written_of_found _ (hid ▸ hd)]
      · rw [hdb]
        rfl
    · refine .kept ?_ ?_
      · rw [hdb, Txn.commit_find, if_neg hid]
      · have hlinks : t.shared.db.decisionEvidences =
            s.shared.db.decisionEvidences ++ txn.links := by rw [hdb]; rfl
        unfold Txn.links at hlinks
        split at hlinks
        · exact linksOf_append_of_ne hlinks hid
        · rw [List.append_nil] at hlinks
          simp only [Db.linksOf, hlinks]

theorem Present.step (h : Present calls D s) (hs : Interleaved calls s l t) :
    Present calls D t := by
  refine ⟨?_, ?_, ?_⟩
  · cases h.rowStep hs with
    | kept hd _ => exact hd ▸ h.row
    | updated _ _ _ _ _ hd _ => exact ⟨_, hd⟩
  · intro i hi
    rcases hs.insertedRow hi with hold | hfree
    · exact h.inserted i hold
    · obtain ⟨d, hd⟩ := h.row
      simp [hfree] at hd
  · intro i e he
    rw [hs.evidences]
    rcases hs.evidence he with hold | hfound
    · exact h.evidence i e hold
    · exact hfound

/-- A copy of the row in a call is one it had before, or the row as it was committed. -/
theorem Interleaved.copy (h : Interleaved calls s l t) {i : ι} {b d : Decision}
    (hb : (t.phase i).base = some b) (hid : b.id = D)
    (hd : s.shared.db.decisions.find D = some d) :
    (s.phase i).base = some b ∨ b = d := by
  rcases h.base hb with hold | hrow
  · exact Or.inl hold
  · exact Or.inr (Option.some.inj (hrow.symm.trans (hid ▸ hd)))

theorem scoreOf_of_interleaved (h : Interleaved calls s l t) :
    t.shared.db.scoreOf = s.shared.db.scoreOf :=
  scoreOf_congr h.evidences

theorem ReadsCurrent.same {d d' : Decision} (h : ReadsCurrent D s d)
    (hs : Interleaved calls s l t) (hd' : t.shared.db.decisions.find D = some d')
    (hlinks : t.shared.db.linksOf D = s.shared.db.linksOf D) (hid : d'.id = d.id)
    (hc : d'.evidenceCount = d.evidenceCount)
    (hv : d'.cumulativeSeverity = d.cumulativeSeverity) : ReadsCurrent D t d' := by
  have hidD : d.id = D := s.shared.db.decisions.keyed _ _ h.found
  refine ⟨hd', ?_, ?_, ?_⟩
  · exact h.tally.congr (hidD ▸ hlinks) (fun l _ => by rw [scoreOf_of_interleaved hs]) hid hc hv
  · intro i b hb hbid
    rw [hc]
    rcases hs.copy hb hbid h.found with hold | rfl
    · exact h.count i b hold hbid
    · exact le_rfl
  · intro i b hb hbid hbc
    rw [hc] at hbc
    rw [hv]
    rcases hs.copy hb hbid h.found with hold | rfl
    · exact h.severity i b hold hbid hbc
    · rfl

/-- A step that counts a new link in: no copy has the counter that has just been written. -/
theorem ReadsCurrent.counted {d d' : Decision} {evidence : Evidence} (h : ReadsCurrent D s d)
    (hs : Interleaved calls s l t) (hd' : t.shared.db.decisions.find D = some d')
    (hlink : t.shared.db.decisionEvidences =
      s.shared.db.decisionEvidences ++ [linkRow d evidence])
    (hev : s.shared.db.evidences.find evidence.id = some evidence) (hid : d'.id = d.id)
    (hc : d'.evidenceCount = d.evidenceCount + 1)
    (hv : d'.cumulativeSeverity = d.cumulativeSeverity + evidence.severityScore) :
    ReadsCurrent D t d' := by
  have hbehind : ∀ j b, (t.phase j).base = some b → b.id = D →
      b.evidenceCount < d.evidenceCount + 1 := by
    intro j b hb hbid
    rcases hs.copy hb hbid h.found with hold | rfl
    · have := h.count j b hold hbid
      omega
    · omega
  refine ⟨hd', ?_, ?_, ?_⟩
  · exact h.tally.addLink hlink hs.evidences hev hid hc hv
  · intro j b hb hbid
    have := hbehind j b hb hbid
    omega
  · intro j b hb hbid hbc
    have := hbehind j b hb hbid
    omega

theorem linksOf_of_no_link {txn : Txn} {db db' : Db} (hn : txn.newLink = false)
    (hlinks : db'.decisionEvidences = db.decisionEvidences ++ txn.links) (id : Uuid) :
    db'.linksOf id = db.linksOf id := by
  simp only [Db.linksOf, hlinks, Txn.links, hn, Bool.false_eq_true, ↓reduceIte, List.append_nil]

/-- A step that commits no stale link keeps the row and its links in step. -/
theorem ReadsCurrent.step {d : Decision} (hp : Present calls D s) (h : ReadsCurrent D s d)
    (hf : Fresh D s l) (hs : Interleaved calls s l t) : ∃ d', ReadsCurrent D t d' := by
  have hidD : d.id = D := s.shared.db.decisions.keyed _ _ h.found
  cases hp.rowStep hs with
  | kept hd hl => exact ⟨d, h.same hs (hd.trans h.found) hl rfl rfl rfl⟩
  | @updated i txn d₀ hl hflushed hbase hid hd₀ hd' hlinks =>
    obtain rfl : d = d₀ := Option.some.inj (h.found.symm.trans hd₀)
    have hcount := h.count i _ hbase hid
    have hseverity := h.severity i _ hbase hid
    have hrow := txn.row_evidenceCount (calls i)
    have hrowSeverity := txn.row_cumulativeSeverity (calls i)
    cases hn : txn.newLink with
    | false =>
      -- no link: the counters were not touched, the UPDATE leaves them
      simp only [hn, Bool.false_eq_true, ↓reduceIte, add_zero] at hrow hrowSeverity
      refine ⟨_, h.same hs hd' (linksOf_of_no_link hn hlinks D) (rebase_id _ _ _) ?_ ?_⟩
      · rw [rebase_evidenceCount, hrow, keepColumn, if_pos rfl]
      · rw [rebase_cumulativeSeverity, hrowSeverity, keepColumn, if_pos rfl]
    | true =>
      have hsame : d.evidenceCount = txn.base.evidenceCount := by
        subst hl
        exact hf txn d hflushed hn hid h.found
      simp only [hn, ↓reduceIte] at hrow hrowSeverity
      have hc : (txn.base.rebase (txn.row (calls i)) d).evidenceCount = d.evidenceCount + 1 := by
        rw [rebase_evidenceCount, hrow, keepColumn, if_neg (by omega)]
        omega
      have hv : (txn.base.rebase (txn.row (calls i)) d).cumulativeSeverity =
          d.cumulativeSeverity + txn.evidence.severityScore := by
        rw [rebase_cumulativeSeverity, hrowSeverity, keepColumn]
        have := hseverity hsame.symm
        split <;> omega
      have hev := hp.evidence i txn.evidence (by simp [hflushed, AggregatePhase.evidence])
      have hlink : t.shared.db.decisionEvidences =
          s.shared.db.decisionEvidences ++ [linkRow d txn.evidence] := by
        rw [hlinks]
        simp [Txn.links, hn, linkRow, hid, hidD]
      exact ⟨_, h.counted hs hd' hlink hev (rebase_id _ _ _) hc hv⟩

/-- A commit that links with a counter behind the links leaves the row behind them. -/
theorem FallenBehind.of_link {i : ι} {txn : Txn} {d : Decision} (hs : Interleaved calls s l t)
    (hn : txn.newLink = true) (hid : txn.base.id = D)
    (hd : s.shared.db.decisions.find D = some d)
    (hd' : t.shared.db.decisions.find D = some (txn.base.rebase (txn.row (calls i)) d))
    (hlinks : t.shared.db.decisionEvidences = s.shared.db.decisionEvidences ++ txn.links)
    (hbase : txn.base.evidenceCount < (s.shared.db.linksOf D).length)
    (hrow : d.evidenceCount ≤ (s.shared.db.linksOf D).length)
    (hcopies : ∀ j b, (s.phase j).base = some b → b.id = D →
      b.evidenceCount ≤ (s.shared.db.linksOf D).length) :
    FallenBehind D t (txn.base.rebase (txn.row (calls i)) d) := by
  have hlen : (t.shared.db.linksOf D).length = (s.shared.db.linksOf D).length + 1 := by
    have happ := linksOf_append_self
      (by simpa [Txn.links, hn] using hlinks :
        t.shared.db.decisionEvidences = _ ++ [linkRow txn.base txn.evidence])
    rw [← hid, happ]
    simp
  have hcount := txn.row_evidenceCount (calls i)
  simp only [hn, ↓reduceIte] at hcount
  refine ⟨hd', ?_, ?_⟩
  · rw [rebase_evidenceCount, hcount, keepColumn, if_neg (by omega), hlen]
    omega
  · intro j b hb hbid
    rw [hlen]
    rcases hs.copy hb hbid hd with hold | rfl
    · have := hcopies j b hold hbid
      omega
    · omega

theorem FallenBehind.step {d : Decision} (hp : Present calls D s) (h : FallenBehind D s d)
    (hs : Interleaved calls s l t) : ∃ d', FallenBehind D t d' := by
  cases hp.rowStep hs with
  | kept hd hl =>
    refine ⟨d, hd.trans h.found, hl ▸ h.row, ?_⟩
    intro i b hb hid
    rw [hl]
    rcases hs.copy hb hid h.found with hold | rfl
    · exact h.copies i b hold hid
    · exact h.row
  | @updated i txn d₀ hl hflushed hbase hid hd₀ hd' hlinks =>
    obtain rfl : d = d₀ := Option.some.inj (h.found.symm.trans hd₀)
    cases hn : txn.newLink with
    | true =>
      exact ⟨_, .of_link hs hn hid h.found hd' hlinks (h.copies i _ hbase hid) h.row.le
        (fun j b hb hbid => (h.copies j b hb hbid).le)⟩
    | false =>
      have hsame := linksOf_of_no_link hn hlinks D
      have hrow := txn.row_evidenceCount (calls i)
      simp only [hn, Bool.false_eq_true, ↓reduceIte, add_zero] at hrow
      refine ⟨_, hd', ?_, ?_⟩
      · rw [rebase_evidenceCount, hrow, keepColumn, if_pos rfl, hsame]
        exact h.row
      · intro j b hb hbid
        rw [hsame]
        rcases hs.copy hb hbid h.found with hold | rfl
        · exact h.copies j b hold hbid
        · exact h.row

theorem ReadsCurrent.lose {d : Decision} (hp : Present calls D s) (h : ReadsCurrent D s d)
    (hf : ¬Fresh D s l) (hs : Interleaved calls s l t) : ∃ d', FallenBehind D t d' := by
  have hidD : d.id = D := s.shared.db.decisions.keyed _ _ h.found
  cases l with
  | raise i => exact absurd trivial hf
  | expireKey key => exact absurd trivial hf
  | advance i =>
    simp only [Fresh, not_forall] at hf
    obtain ⟨txn, d₀, hflushed, hn, hid, hd₀, hne⟩ := hf
    obtain rfl : d = d₀ := Option.some.inj (h.found.symm.trans hd₀)
    have htally := h.tally.count
    rw [hidD] at htally
    cases hp.rowStep hs with
    | kept hd hl =>
      have hcommit : t.shared.db.decisionEvidences =
          s.shared.db.decisionEvidences ++ txn.links := by
        cases hs with
        | advance _ _ => simp [hflushed, AggregateCall.advance, Txn.commit]
      have happ := linksOf_append_self
        (by simpa [Txn.links, hn] using hcommit :
          t.shared.db.decisionEvidences = _ ++ [linkRow txn.base txn.evidence])
      rw [hid, hl] at happ
      simp at happ
    | @updated j txn' d₁ hl hflushed' hbase hid' hd₁ hd' hlinks =>
      obtain rfl : i = j := by cases hl; rfl
      obtain rfl : txn = txn' := by
        rw [hflushed] at hflushed'
        cases hflushed'
        rfl
      obtain rfl : d = d₁ := Option.some.inj (h.found.symm.trans hd₁)
      have hcount := h.count i _ hbase hid
      exact ⟨_, .of_link hs hn hid h.found hd' hlinks (by omega) (by omega)
        (fun j b hb hbid => by have := h.count j b hb hbid; omega)⟩

/-- From a state in which no call has begun, the row of a decision agrees with its links at the
end of a run exactly if every commit that links to it found the counter its call had read. -/
theorem settled_iff_fresh {ls : List (Turn ι)} (hbegun : ∀ i, s.phase i = .begun)
    (hD : Settled D s.shared) (h : Run (Interleaved calls) s ls t) :
    Settled D t.shared ↔ Run (Where (Fresh D) (Interleaved calls)) s ls t := by
  obtain ⟨d, hd, htally⟩ := hD
  have hpresent : Present calls D s := by
    refine ⟨⟨d, hd⟩, ?_, ?_⟩
    · intro i hi
      simp [hbegun i, AggregatePhase.insertedRow] at hi
    · intro i e he
      simp [hbegun i, AggregatePhase.evidence] at he
  have hcurrent : ReadsCurrent D s d := by
    refine ⟨hd, htally, ?_, ?_⟩
    · intro i b hb
      simp [hbegun i, AggregatePhase.base] at hb
    · intro i b hb
      simp [hbegun i, AggregatePhase.base] at hb
  refine h.goal_iff_where (fun s => Present calls D s ∧ ∃ d, ReadsCurrent D s d)
    (fun s => Settled D s.shared) (fun s => Present calls D s ∧ ∃ d, FallenBehind D s d)
    ?_ ?_ ?_ ⟨hpresent, d, hcurrent⟩ ?_ ?_
  · intro s l t hinv hf hs
    obtain ⟨hp, d, hc⟩ := hinv
    exact ⟨hp.step hs, hc.step hp hf hs⟩
  · intro s l t hinv hf hs
    obtain ⟨hp, d, hc⟩ := hinv
    exact ⟨hp.step hs, hc.lose hp hf hs⟩
  · intro s l t hinv hs
    obtain ⟨hp, d, hb⟩ := hinv
    exact ⟨hp.step hs, hb.step hp hs⟩
  · intro hex
    obtain ⟨_, d, hc⟩ := hex
    exact ⟨d, hc.found, hc.tally⟩
  · intro hex hsome
    obtain ⟨_, d, hb⟩ := hex
    obtain ⟨d', hd', htally'⟩ := hsome
    obtain rfl : d = d' := Option.some.inj (hb.found.symm.trans hd')
    have hid : d.id = D := t.shared.db.decisions.keyed _ _ hb.found
    have hcount := htally'.count
    have hrow := hb.row
    rw [hid] at hcount
    omega

/-- One call after the other reads afresh, two at once do not. -/
theorem settled_iff_fresh_sample :
    Run (Where (Fresh ⟨20⟩) (Interleaved raceCalls)) raceStart
        ((List.replicate 6 true ++ List.replicate 6 false).map .advance)
        (takeTurns raceCalls raceStart (List.replicate 6 true ++ List.replicate 6 false)) ∧
      ¬Run (Where (Fresh ⟨20⟩) (Interleaved raceCalls)) raceStart (raceTurns.map .advance)
        (takeTurns raceCalls raceStart raceTurns) := by
  have hstart : Settled ⟨20⟩ raceStart.shared := by decide +kernel
  constructor
  · exact (settled_iff_fresh (fun _ => rfl) hstart (run_takeTurns (by decide +kernel))).mp
      (by decide +kernel)
  · intro hfresh
    have hsettled := (settled_iff_fresh (fun _ => rfl) hstart hfresh.of_where).mpr hfresh
    exact absurd hsettled (by decide +kernel)

end ArgusServices

import ArgusServices.PartialCalls

namespace ArgusServices

open Relation

/-- A key may have expired since. -/
def Expired (key : String) (w v : World) : Prop :=
  v = w ∨ v = w.withKey key none

/-- A call alone at a point of its code and in a state: `w` is the state in which the serial call
starts that does the same. -/
inductive Alone (call : AggregateCall) (w : World) : World → AggregatePhase → Prop
  | begun : Alone call w w .begun
  | loaded {evidence : Evidence} {tenant : Tenant} : Loads w call evidence tenant →
      Alone call w w (.loaded evidence tenant)
  | keyRead {evidence : Evidence} {tenant : Tenant} {raw : String} {v : World} :
      Loads w call evidence tenant →
      truthy ((w.keys (openDecisionKey evidence)).map RedisEntry.value) = some raw →
      Expired (openDecisionKey evidence) w v → Alone call w v (.keyRead evidence tenant raw)
  | rowRead {evidence : Evidence} {tenant : Tenant} {d : Decision} {v : World} :
      Loads w call evidence tenant → w.KeyParses evidence → w.openDecision evidence = some d →
      evidence.capturedAt ≤ d.windowEnd → Expired (openDecisionKey evidence) w v →
      Alone call w v (.rowRead evidence tenant d)
  | windowPassed {evidence : Evidence} {tenant : Tenant} {d : Decision} {v : World} :
      Loads w call evidence tenant → w.KeyParses evidence → w.openDecision evidence = some d →
      d.windowEnd < evidence.capturedAt → Expired (openDecisionKey evidence) w v →
      Alone call w v (.windowPassed evidence tenant)
  | creating {evidence : Evidence} {tenant : Tenant} {v : World} : Loads w call evidence tenant →
      w.KeyParses evidence → w.Unmerged evidence →
      Expired (openDecisionKey evidence) (w.pastOpen evidence) v →
      Alone call w v (.creating evidence tenant)
  | inserted {evidence : Evidence} {tenant : Tenant} {v : World} : Loads w call evidence tenant →
      w.KeyParses evidence → w.Unmerged evidence → w.db.decisions.find call.newId = none →
      Expired (openDecisionKey evidence) (w.pastOpen evidence) v →
      Alone call w v (.inserted evidence tenant)
  | keySet {evidence : Evidence} {tenant : Tenant} {v : World} : Loads w call evidence tenant →
      w.KeyParses evidence → w.Unmerged evidence → w.db.decisions.find call.newId = none →
      0 < tenant.aggregationWindowSecs + 300 →
      Expired (openDecisionKey evidence) (w.withKey (openDecisionKey evidence)
        (some ⟨call.newId.str, some (tenant.aggregationWindowSecs + 300)⟩)) v →
      Alone call w v (.keySet evidence tenant)
  | linked {evidence : Evidence} {tenant : Tenant} {d : Decision} {created : Bool}
      {keys : String → Option RedisEntry} {v : World} : Loads w call evidence tenant →
      w.KeyParses evidence → Target w call evidence tenant d keys →
      (∀ d', w.db.decisions.find d.id = some d' → d' = d) →
      Expired (openDecisionKey evidence) { w with keys := keys } v →
      Alone call w v (.linked (txnOf w.db evidence tenant d created))
  | flushed {evidence : Evidence} {tenant : Tenant} {d : Decision} {created : Bool}
      {keys : String → Option RedisEntry} {sent unsent : List Message} {v : World} :
      Loads w call evidence tenant → w.KeyParses evidence →
      Target w call evidence tenant d keys →
      (∀ d', w.db.decisions.find d.id = some d' → d' = d) →
      sent ++ unsent = (txnOf w.db evidence tenant d created).messages call →
      Expired (openDecisionKey evidence) (sent.foldl World.send { w with keys := keys }) v →
      Alone call w v (.flushed (txnOf w.db evidence tenant d created) unsent)
  | committed {evidence : Evidence} {txn : Txn} {w' v : World} :
      w.db.evidences.find call.evidenceId = some evidence →
      aggregate (call.raising none) w = (.ok (txn.row call), w') →
      Expired (openDecisionKey evidence) w' v → Alone call w v (.committed txn)
  | failed {step : AggregateStep} {e : Exn} {w' v : World} :
      aggregate (call.raising (some step)) w = (.error e, w') →
      (v = w' ∨ ∃ evidence, w.db.evidences.find call.evidenceId = some evidence ∧
        Expired (openDecisionKey evidence) w' v) →
      Alone call w v .failed

variable {call : AggregateCall} {w v : World} {p p' : AggregatePhase} {evidence : Evidence}
  {tenant : Tenant} {d : Decision} {key : String}

theorem Expired.refl (key : String) (w : World) : Expired key w w :=
  Or.inl rfl

theorem withKey_withKey (w : World) (key : String) (entry entry' : Option RedisEntry) :
    (w.withKey key entry).withKey key entry' = w.withKey key entry' := by
  simp [World.withKey]

theorem Expired.again (h : Expired key w v) : Expired key w (v.withKey key none) := by
  rcases h with rfl | rfl
  · exact Or.inr rfl
  · exact Or.inr (withKey_withKey w key none none)

theorem Expired.db (h : Expired key w v) : v.db = w.db := by
  rcases h with rfl | rfl <;> rfl

theorem Expired.set (h : Expired key w v) (entry : Option RedisEntry) :
    v.withKey key entry = w.withKey key entry := by
  rcases h with rfl | rfl
  · rfl
  · exact withKey_withKey w key none entry

theorem Expired.send (h : Expired key w v) (m : Message) : Expired key (w.send m) (v.send m) := by
  rcases h with rfl | rfl
  · exact Or.inl rfl
  · right
    cases m <;> rfl

theorem Alone.raised {w' : World} {step : AggregateStep} {e : Exn}
    (hload : Loads w call evidence tenant)
    (h : aggregate (call.raising (some step)) w = (.error e, w'))
    (hv : Expired (openDecisionKey evidence) w' v) : Alone call w v .failed :=
  .failed h (Or.inr ⟨evidence, hload.evidence_found, hv⟩)

/-- A call that fails at a point of its code leaves what some serial call leaves that fails. -/
theorem Alone.raise (h : Alone call w v p) (hp : p.ended = false) : Alone call w v .failed := by
  cases h with
  | begun => exact .failed (aggregate_raises w call) (Or.inl rfl)
  | loaded => exact .failed (aggregate_raises w call) (Or.inl rfl)
  | keyRead hload _ hv => exact .raised hload (aggregate_raises w call) hv
  | rowRead hload _ _ _ hv => exact .raised hload (aggregate_raises w call) hv
  | windowPassed hload _ _ _ hv => exact .raised hload (aggregate_raises w call) hv
  | creating hload hparses hopen hv =>
    obtain ⟨e, he⟩ := aggregate_raises_flushDecision hload hparses hopen
    exact .raised hload he hv
  | inserted hload hparses hopen _ hv =>
    obtain ⟨e, he⟩ := aggregate_raises_flushDecision hload hparses hopen
    exact .raised hload he hv
  | keySet hload hparses hopen hfree hex hv =>
    obtain ⟨e, he⟩ := aggregate_raises_selectLink hload hparses (.create hopen hfree hex)
    exact .raised hload he hv
  | linked hload hparses htarget _ hv =>
    obtain ⟨e, he⟩ := aggregate_raises_selectLink hload hparses htarget
    exact .raised hload he hv
  | flushed hload hparses htarget _ hsplit hv =>
    rw [Txn.messages, txnOf_held] at hsplit
    obtain ⟨step, e, he⟩ := aggregate_sent hload hparses htarget hsplit
    exact .raised hload he hv
  | committed => cases hp
  | failed => cases hp

/-- The open key of a call expires: before it has looked at the key the serial call starts
later, afterwards the key expires when the serial call is over. -/
theorem Alone.expire (h : Alone call w v p)
    (hev : w.db.evidences.find call.evidenceId = some evidence) :
    ∃ w', Expired (openDecisionKey evidence) w w' ∧
      Alone call w' (v.withKey (openDecisionKey evidence) none) p := by
  have hsame : ∀ {found : Evidence} {foundTenant : Tenant}, Loads w call found foundTenant →
      found = evidence := by
    intro found foundTenant hload
    exact Option.some.inj (hload.evidence_found.symm.trans hev)
  cases h with
  | begun => exact ⟨_, (Expired.refl _ w).again, .begun⟩
  | loaded hload =>
    exact ⟨_, (Expired.refl _ w).again, .loaded ⟨hload.evidence_found, hload.tenant_found⟩⟩
  | keyRead hload hraw hv =>
    obtain rfl := hsame hload
    exact ⟨w, .refl _ w, .keyRead hload hraw hv.again⟩
  | rowRead hload hparses hd hle hv =>
    obtain rfl := hsame hload
    exact ⟨w, .refl _ w, .rowRead hload hparses hd hle hv.again⟩
  | windowPassed hload hparses hd hlt hv =>
    obtain rfl := hsame hload
    exact ⟨w, .refl _ w, .windowPassed hload hparses hd hlt hv.again⟩
  | creating hload hparses hopen hv =>
    obtain rfl := hsame hload
    exact ⟨w, .refl _ w, .creating hload hparses hopen hv.again⟩
  | inserted hload hparses hopen hfree hv =>
    obtain rfl := hsame hload
    exact ⟨w, .refl _ w, .inserted hload hparses hopen hfree hv.again⟩
  | keySet hload hparses hopen hfree hex hv =>
    obtain rfl := hsame hload
    exact ⟨w, .refl _ w, .keySet hload hparses hopen hfree hex hv.again⟩
  | linked hload hparses htarget hrow hv =>
    obtain rfl := hsame hload
    exact ⟨w, .refl _ w, .linked hload hparses htarget hrow hv.again⟩
  | flushed hload hparses htarget hrow hsplit hv =>
    obtain rfl := hsame hload
    exact ⟨w, .refl _ w, .flushed hload hparses htarget hrow hsplit hv.again⟩
  | committed hfound haggregate hv =>
    obtain rfl := Option.some.inj (hfound.symm.trans hev)
    exact ⟨w, .refl _ w, .committed hev haggregate hv.again⟩
  | failed haggregate hv =>
    refine ⟨w, .refl _ w, .failed haggregate (Or.inr ⟨evidence, hev, ?_⟩)⟩
    rcases hv with rfl | ⟨found, hfound, hv⟩
    · exact (Expired.refl _ v).again
    · obtain rfl := Option.some.inj (hfound.symm.trans hev)
      exact hv.again

theorem pastOpen_of_none (h : w.openDecision evidence = none) : w.pastOpen evidence = w := by
  simp [World.pastOpen, h]

theorem pastOpen_of_some (h : w.openDecision evidence = some d) :
    w.pastOpen evidence = w.withKey (openDecisionKey evidence) none := by
  simp [World.pastOpen, h]

theorem pastOpen_set (w : World) (evidence : Evidence) (entry : Option RedisEntry) :
    (w.pastOpen evidence).withKey (openDecisionKey evidence) entry =
      w.withKey (openDecisionKey evidence) entry := by
  unfold World.pastOpen
  split
  · exact withKey_withKey w _ none entry
  · rfl

theorem pastOpen_db (w : World) (evidence : Evidence) : (w.pastOpen evidence).db = w.db := by
  unfold World.pastOpen
  split <;> rfl

theorem foldl_send_db (ms : List Message) (w : World) : (ms.foldl World.send w).db = w.db := by
  induction ms generalizing w with
  | nil => rfl
  | cons m ms ih => rw [List.foldl_cons, ih, send_db]

/-- A turn of a call alone. -/
theorem Alone.advance (h : Alone call w v p) (hp : p.ended = false) :
    Alone call w (call.advance v p).1 (call.advance v p).2 := by
  have hraise := h.raise hp
  cases h with
  | begun =>
    simp only [AggregateCall.advance]
    split
    · exact hraise
    next evidence hev =>
      split
      · exact hraise
      next tenant htn => exact .loaded ⟨hev, htn⟩
  | @loaded evidence tenant hload =>
    simp only [AggregateCall.advance]
    split
    next hraw =>
      have hnone : w.openDecision evidence = none := by simp [World.openDecision, hraw]
      refine .creating hload ?_ ?_ ?_
      · intro raw hsome
        simp [hraw] at hsome
      · intro d hd
        simp [hnone] at hd
      · rw [pastOpen_of_none hnone]
        exact .refl _ w
    next raw hraw => exact .keyRead hload hraw (.refl _ w)
  | @keyRead evidence tenant raw v hload hraw hv =>
    simp only [AggregateCall.advance, hv.db]
    split
    · exact hraise
    next id hid =>
      have hparses : w.KeyParses evidence := by
        intro raw' hraw'
        obtain rfl := Option.some.inj (hraw'.symm.trans hraw)
        simp [hid]
      have hopened : w.openDecision evidence =
          (w.db.decisions.find id).filter fun d => d.tenantId = evidence.tenantId := by
        simp [World.openDecision, hraw, hid]
      split
      next hnone =>
        have hclosed := hopened.trans hnone
        refine .creating hload hparses ?_ ?_
        · intro d hd
          simp [hclosed] at hd
        · rw [pastOpen_of_none hclosed]
          exact hv
      next d hsome =>
        have hd := hopened.trans hsome
        split
        next hle => exact .rowRead hload hparses hd hle hv
        next hlt => exact .windowPassed hload hparses hd (by omega) hv
  | @rowRead evidence tenant d v hload hparses hd hle hv =>
    have hrow := (World.openDecision_spec hd).1
    simp only [AggregateCall.advance, hv.db]
    exact @Alone.linked call w evidence tenant d false w.keys v hload hparses (.merge hd hle)
      (fun d' hd' => Option.some.inj (hd'.symm.trans hrow)) hv
  | @windowPassed evidence tenant d v hload hparses hd hlt hv =>
    refine .creating hload hparses ?_ ?_
    · intro d' hd'
      obtain rfl := Option.some.inj (hd'.symm.trans hd)
      exact hlt
    · rw [pastOpen_of_some hd, ← hv.set none]
      exact .refl _ _
  | @creating evidence tenant v hload hparses hopen hv =>
    have hdb : v.db = w.db := hv.db.trans (pastOpen_db w evidence)
    simp only [AggregateCall.advance, hdb]
    split
    · exact hraise
    next hfree => exact .inserted hload hparses hopen (by simpa using hfree) hv
  | @inserted evidence tenant v hload hparses hopen hfree hv =>
    simp only [AggregateCall.advance]
    split
    · exact hraise
    next hex =>
      refine .keySet hload hparses hopen hfree (by omega) ?_
      rw [hv.set, pastOpen_set]
      exact .refl _ _
  | @keySet evidence tenant v hload hparses hopen hfree hex hv =>
    have hdb : v.db = w.db := hv.db
    simp only [AggregateCall.advance, hdb]
    refine @Alone.linked call w evidence tenant (newDecision call evidence tenant) true _ v hload
      hparses (.create hopen hfree hex) ?_ hv
    intro d' hd'
    simp [hfree] at hd'
  | @linked evidence tenant d created keys v hload hparses htarget hrow hv =>
    have hdb : v.db = w.db := hv.db
    have hfree : ((txnOf w.db evidence tenant d created).newLink &&
        w.db.linked (txnOf w.db evidence tenant d created).base.id
          (txnOf w.db evidence tenant d created).evidence.id) = false := by
      simp [txnOf]
    simp only [AggregateCall.advance, hdb, hfree, Bool.false_eq_true, ↓reduceIte]
    exact @Alone.flushed call w evidence tenant d created keys [] _ v hload hparses htarget hrow
      rfl hv
  | @flushed evidence tenant d created keys sent unsent v hload hparses htarget hrow hsplit hv =>
    cases unsent with
    | cons m unsent =>
      refine @Alone.flushed call w evidence tenant d created keys (sent ++ [m]) _ _ hload hparses
        htarget hrow ?_ ?_
      · rw [List.append_assoc]
        exact hsplit
      · rw [List.foldl_append]
        exact hv.send m
    | nil =>
      rw [List.append_nil, Txn.messages, txnOf_held] at hsplit
      have hdb : v.db = w.db := hv.db.trans (foldl_send_db sent _)
      have hrow' : (txnOf w.db evidence tenant d created).row call =
          afterState call tenant (afterLink w.db call d evidence) := by
        rw [← txnOf_held tenant created]
        rfl
      have haggregate := aggregate_target hload hparses htarget
      rw [← hrow'] at haggregate
      refine .committed hload.evidence_found haggregate ?_
      show Expired _ _ { v with db := (txnOf w.db evidence tenant d created).commit call v.db }
      rw [hdb, txnOf_commit hrow]
      rw [hsplit, foldl_send] at hv
      rcases hv with rfl | rfl
      · exact Or.inl rfl
      · exact Or.inr rfl
  | committed => cases hp
  | failed => cases hp

end ArgusServices

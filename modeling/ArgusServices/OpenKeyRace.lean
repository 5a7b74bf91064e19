import ArgusServices.AdvanceEffect
import ArgusServices.LinkTable
import ArgusServices.SerialRun

namespace ArgusServices

open Transition

variable {ι : Type} {calls : ι → AggregateCall}

/-- A call that has looked at the open key. -/
def AggregatePhase.looked : AggregatePhase → Bool
  | .begun | .loaded _ _ | .failed => false
  | _ => true

/-- A call that has found no open decision for its evidence and creates one, or has. -/
def AggregatePhase.creates : AggregatePhase → Bool
  | .windowPassed _ _ | .creating _ _ | .inserted _ _ | .keySet _ _ => true
  | .linked txn | .flushed txn _ | .committed txn => txn.created
  | .begun | .loaded _ _ | .keyRead _ _ _ | .rowRead _ _ _ | .failed => false

/-- What a call is about to look for is there: the open key, or the row the key names. -/
def AggregatePhase.finds (w : World) : AggregatePhase → Bool
  | .loaded e _ => (truthy ((w.keys (openDecisionKey e)).map RedisEntry.value)).isSome
  | .keyRead _ _ raw => ((Uuid.parse raw).bind w.db.decisions.find).isSome
  | _ => true

/-- A call finds what it looks for, or no call has looked at the open key before. -/
def AfterFirst (s : Threads ι World AggregatePhase) : Turn ι → Prop
  | .advance i => (s.phase i).finds s.shared = true ∨ ∀ j, (s.phase j).looked = false
  | .raise _ | .expireKey _ => True

/-- Exactly one decision has been created, and it has all the evidences. -/
def OneDecision (calls : ι → AggregateCall) (w₀ w : World) : Prop :=
  ∃ id, w₀.db.decisions.find id = none ∧ (w.db.decisions.find id).isSome ∧
    (∀ id', w₀.db.decisions.find id' = none → (w.db.decisions.find id').isSome → id' = id) ∧
    ∀ i, w.db.linked id (calls i).evidenceId = true

/-- The evidences of the calls belong to one camera region and lie within one window. -/
structure SameWindow (calls : ι → AggregateCall) (w : World) (ev : ι → Evidence)
    (tenant : Tenant) : Prop where
  evidence : ∀ i, w.db.evidences.find (calls i).evidenceId = some (ev i)
  tenant_found : ∀ i, w.db.tenants.find (ev i).tenantId = some tenant
  tenantId : ∀ i j, (ev i).tenantId = (ev j).tenantId
  cameraId : ∀ i j, (ev i).cameraId = (ev j).cameraId
  regionId : ∀ i j, (ev i).regionId = (ev j).regionId
  window : ∀ i j, (ev i).capturedAt ≤ (ev j).capturedAt + seconds tenant.aggregationWindowSecs

/-- One decision per key and window, whatever the order of the steps of the calls. -/
def OneDecisionPerWindow : Prop :=
  ∀ (ι : Type) (_ : DecidableEq ι) (_ : Nonempty ι) (calls : ι → AggregateCall)
    (ev : ι → Evidence) (tenant : Tenant) (s t : Threads ι World AggregatePhase) (is : List ι),
    (∀ i, s.phase i = .begun) → SameWindow calls s.shared ev tenant →
    (∀ i, s.shared.keys (openDecisionKey (ev i)) = none) →
    (∀ i id d, s.shared.db.decisions.find id = some d →
      ¬(d.tenantId = (ev i).tenantId ∧ d.cameraId = (ev i).cameraId ∧
        d.regionId = (ev i).regionId)) →
    Run (Interleaved calls) s (is.map .advance) t → (∀ i, ∃ txn, t.phase i = .committed txn) →
    OneDecision calls s.shared t.shared

variable {ev : ι → Evidence} {tenant : Tenant} {w₀ : World}

theorem SameWindow.key (h : SameWindow calls w₀ ev tenant) (i j : ι) :
    openDecisionKey (ev i) = openDecisionKey (ev j) := by
  simp only [openDecisionKey, regionKey, h.tenantId i j, h.cameraId i j, h.regionId i j]

theorem SameWindow.id (h : SameWindow calls w₀ ev tenant) (i : ι) :
    (ev i).id = (calls i).evidenceId :=
  w₀.db.evidences.keyed _ _ (h.evidence i)

/-- The open key of an evidence is absent or names the decision, if there is one. -/
def KeyNames (id : Option Uuid) (e : Evidence) (w : World) : Prop :=
  ∀ entry, w.keys (openDecisionKey e) = some entry → id.map Uuid.str = some entry.value

/-- A call that has no row yet; the key, if it has read one, named the decision. -/
inductive Asks (id : Option Uuid) (e : Evidence) (tenant : Tenant) : AggregatePhase → Prop
  | begun : Asks id e tenant .begun
  | loaded : Asks id e tenant (.loaded e tenant)
  | keyRead {u : Uuid} : id = some u → Asks id e tenant (.keyRead e tenant u.str)

/-- The link a transaction will have left when it commits. -/
structure Links (id : Uuid) (e : Evidence) (db : Db) (txn : Txn) : Prop where
  base : txn.base.id = id
  evidence : txn.evidence = e
  linked : txn.newLink = false → db.linked id e.id = true

/-- A transaction that inserts the decision. -/
structure Inserts (call : AggregateCall) (e : Evidence) (tenant : Tenant) (db : Db)
    (txn : Txn) : Prop extends Links call.newId e db txn where
  free : db.decisions.find call.newId = none
  created : txn.created = true
  row : txn.base = newDecision call e tenant

/-- The call that creates the decision, before its commit. -/
inductive Leads (call : AggregateCall) (e : Evidence) (tenant : Tenant) (db : Db) :
    AggregatePhase → Prop
  | creating : Leads call e tenant db (.creating e tenant)
  | inserted : db.decisions.find call.newId = none → Leads call e tenant db (.inserted e tenant)
  | keySet : db.decisions.find call.newId = none → Leads call e tenant db (.keySet e tenant)
  | linked {txn : Txn} : Inserts call e tenant db txn → Leads call e tenant db (.linked txn)
  | flushed {txn : Txn} {unsent : List Message} : Inserts call e tenant db txn →
      Leads call e tenant db (.flushed txn unsent)

/-- A call that finds the decision, once it is committed, and merges into it. -/
inductive Follows (id : Uuid) (e : Evidence) (tenant : Tenant) (db : Db) : AggregatePhase → Prop
  | asks {p : AggregatePhase} : Asks (some id) e tenant p → Follows id e tenant db p
  | rowRead {d : Decision} : d.id = id → Follows id e tenant db (.rowRead e tenant d)
  | linked {txn : Txn} : txn.created = false → Links id e db txn →
      Follows id e tenant db (.linked txn)
  | flushed {txn : Txn} {unsent : List Message} : txn.created = false → Links id e db txn →
      Follows id e tenant db (.flushed txn unsent)
  | committed {txn : Txn} : txn.created = false → db.linked id e.id = true →
      Follows id e tenant db (.committed txn)

theorem Leads.looked {call : AggregateCall} {e : Evidence} {db : Db} {p : AggregatePhase}
    (h : Leads call e tenant db p) : p.looked = true := by
  cases h <;> rfl

theorem commit_linked_mono {txn : Txn} {call : AggregateCall} {db : Db}
    {decisionId evidenceId : Uuid} (h : db.linked decisionId evidenceId = true) :
    (txn.commit call db).linked decisionId evidenceId = true := by
  simp only [Db.linked, Txn.commit, List.any_append, Bool.or_eq_true] at h ⊢
  exact Or.inl h

theorem Links.commit {id : Uuid} {e : Evidence} {db : Db} {txn : Txn}
    (h : Links id e db txn) (call : AggregateCall) :
    (txn.commit call db).linked id e.id = true := by
  cases hn : txn.newLink with
  | false => exact commit_linked_mono (h.linked hn)
  | true =>
    simp [Db.linked, Txn.commit, Txn.links, hn, linkRow, h.base, h.evidence]

theorem Links.mono {id : Uuid} {e : Evidence} {db db' : Db} {txn : Txn} (h : Links id e db txn)
    (hmono : db.linked id e.id = true → db'.linked id e.id = true) : Links id e db' txn :=
  ⟨h.base, h.evidence, fun hn => hmono (h.linked hn)⟩

theorem Follows.mono {id : Uuid} {e : Evidence} {db db' : Db} {p : AggregatePhase}
    (h : Follows id e tenant db p)
    (hmono : db.linked id e.id = true → db'.linked id e.id = true) :
    Follows id e tenant db' p := by
  cases h with
  | asks h => exact .asks h
  | rowRead h => exact .rowRead h
  | linked hc hl => exact .linked hc (hl.mono hmono)
  | flushed hc hl => exact .flushed hc (hl.mono hmono)
  | committed hc hl => exact .committed hc (hmono hl)

theorem truthy_keyNames {id : Option Uuid} {e : Evidence} {w : World} {raw : String}
    (h : KeyNames id e w)
    (hraw : truthy ((w.keys (openDecisionKey e)).map RedisEntry.value) = some raw) :
    ∃ u, id = some u ∧ raw = u.str := by
  obtain ⟨hmap, _⟩ := Option.filter_eq_some_iff.mp hraw
  obtain ⟨entry, hentry, rfl⟩ := Option.map_eq_some_iff.mp hmap
  obtain ⟨u, hu, hstr⟩ := Option.map_eq_some_iff.mp (h entry hentry)
  exact ⟨u, hu, hstr.symm⟩

/-- What a call that has no row yet can do: it asks on, it finds no key, or it reads the row. -/
theorem Asks.step {id : Option Uuid} {e : Evidence} {call : AggregateCall} {w w' : World}
    {p p' : AggregatePhase} (h : Asks id e tenant p) (hk : KeyNames id e w)
    (he : w.db.evidences.find call.evidenceId = some e)
    (ht : w.db.tenants.find e.tenantId = some tenant) (ha : Advances call w p w' p') :
    w' = w ∧ (p' = .failed ∨ Asks id e tenant p' ∨
      (p = .loaded e tenant ∧ p' = .creating e tenant ∧
        truthy ((w.keys (openDecisionKey e)).map RedisEntry.value) = none) ∨
      ∃ u, id = some u ∧ p = .keyRead e tenant u.str ∧
        ((w.db.decisions.find u).filter (fun d => d.tenantId = e.tenantId) = none ∨
          ∃ d, w.db.decisions.find u = some d ∧
            ((p' = .rowRead e tenant d ∧ d.id = u) ∨ d.windowEnd < e.capturedAt))) := by
  cases h with
  | begun =>
    cases ha with
    | load he' ht' =>
      obtain rfl := Option.some.inj (he.symm.trans he')
      obtain rfl := Option.some.inj (ht.symm.trans ht')
      exact ⟨rfl, Or.inr (Or.inl .loaded)⟩
    | fail => exact ⟨rfl, Or.inl rfl⟩
  | loaded =>
    cases ha with
    | keyAbsent hraw => exact ⟨rfl, Or.inr (Or.inr (Or.inl ⟨rfl, rfl, hraw⟩))⟩
    | keyFound hraw =>
      obtain ⟨u, hu, rfl⟩ := truthy_keyNames hk hraw
      exact ⟨rfl, Or.inr (Or.inl (.keyRead hu))⟩
    | fail => exact ⟨rfl, Or.inl rfl⟩
  | @keyRead u hu =>
    cases ha with
    | rowAbsent hparse hnone =>
      obtain rfl := Option.some.inj ((Uuid.parse_str u).symm.trans hparse)
      exact ⟨rfl, Or.inr (Or.inr (Or.inr ⟨u, hu, rfl, Or.inl hnone⟩))⟩
    | rowOpen hparse hd _ =>
      obtain rfl := Option.some.inj ((Uuid.parse_str u).symm.trans hparse)
      exact ⟨rfl, Or.inr (Or.inr (Or.inr ⟨_, hu, rfl, Or.inr ⟨_, hd, Or.inl ⟨rfl, rfl⟩⟩⟩))⟩
    | rowPassed hparse hd hlt =>
      obtain rfl := Option.some.inj ((Uuid.parse_str u).symm.trans hparse)
      exact ⟨rfl, Or.inr (Or.inr (Or.inr ⟨_, hu, rfl, Or.inr ⟨_, hd, Or.inr hlt⟩⟩))⟩
    | fail => exact ⟨rfl, Or.inl rfl⟩

theorem send_keys (w : World) (m : Message) : (w.send m).keys = w.keys := by
  cases m <;> rfl

theorem Leads.step {e : Evidence} {call : AggregateCall} {w w' : World} {p p' : AggregatePhase}
    (h : Leads call e tenant w.db p) (ha : Advances call w p w' p') :
    p' = .failed ∨
      (w'.db = w.db ∧ w'.keys = w.keys ∧ Leads call e tenant w.db p') ∨
      (∃ ex, w.db.decisions.find call.newId = none ∧
        w' = w.withKey (openDecisionKey e) (some ⟨call.newId.str, ex⟩) ∧
        Leads call e tenant w.db p') ∨
      ∃ txn, p' = .committed txn ∧ Inserts call e tenant w.db txn ∧
        w' = { w with db := txn.commit call w.db } := by
  cases h with
  | creating =>
    cases ha with
    | insert hfree => exact Or.inr (Or.inl ⟨rfl, rfl, .inserted hfree⟩)
    | fail => exact Or.inl rfl
  | inserted hfree =>
    cases ha with
    | setKey _ => exact Or.inr (Or.inr (Or.inl ⟨_, hfree, rfl, .keySet hfree⟩))
    | fail => exact Or.inl rfl
  | keySet hfree =>
    cases ha with
    | lookUpCreated =>
      have hlinks : Links call.newId e w.db ⟨e, tenant, newDecision call e tenant, true,
          !w.db.linked call.newId e.id⟩ := ⟨rfl, rfl, fun hn => by simpa using hn⟩
      exact Or.inr (Or.inl ⟨rfl, rfl, .linked ⟨hlinks, hfree, rfl, rfl⟩⟩)
    | fail => exact Or.inl rfl
  | linked hins =>
    cases ha with
    | flush _ => exact Or.inr (Or.inl ⟨rfl, rfl, .flushed hins⟩)
    | fail => exact Or.inl rfl
  | flushed hins =>
    cases ha with
    | send => exact Or.inr (Or.inl ⟨send_db _ _, send_keys _ _, .flushed hins⟩)
    | commit => exact Or.inr (Or.inr (Or.inr ⟨_, rfl, hins, rfl⟩))
    | fail => exact Or.inl rfl

theorem Follows.step {id : Uuid} {e : Evidence} {call : AggregateCall} {w w' : World}
    {p p' : AggregatePhase} {d : Decision} (h : Follows id e tenant w.db p)
    (hk : KeyNames (some id) e w) (he : w.db.evidences.find call.evidenceId = some e)
    (ht : w.db.tenants.find e.tenantId = some tenant) (hd : w.db.decisions.find id = some d)
    (hten : d.tenantId = e.tenantId) (hwin : e.capturedAt ≤ d.windowEnd)
    (hkey : p = .loaded e tenant →
      truthy ((w.keys (openDecisionKey e)).map RedisEntry.value) ≠ none)
    (hrun : p.ended = false) (ha : Advances call w p w' p') :
    p' = .failed ∨ (w'.db = w.db ∧ w'.keys = w.keys ∧ Follows id e tenant w.db p') ∨
      ∃ txn, p' = .committed txn ∧ txn.created = false ∧ Links id e w.db txn ∧
        w' = { w with db := txn.commit call w.db } := by
  cases h with
  | asks h =>
    obtain ⟨rfl, hp | hp | ⟨hp, _, hnone⟩ | ⟨u, hu, _, hrow⟩⟩ := h.step hk he ht ha
    · exact Or.inl hp
    · exact Or.inr (Or.inl ⟨rfl, rfl, .asks hp⟩)
    · exact absurd hnone (hkey hp)
    · obtain rfl := Option.some.inj hu
      rcases hrow with hnone | ⟨d', hd', ⟨rfl, hid⟩ | hlt⟩
      · have := Option.filter_eq_none_iff.mp hnone d hd
        simp [hten] at this
      · exact Or.inr (Or.inl ⟨rfl, rfl, .rowRead hid⟩)
      · obtain rfl := Option.some.inj (hd.symm.trans hd')
        omega
  | rowRead hid =>
    subst hid
    cases ha with
    | lookUp =>
      refine Or.inr (Or.inl ⟨rfl, rfl, .linked rfl ⟨rfl, rfl, fun hn => ?_⟩⟩)
      simpa using hn
    | fail => exact Or.inl rfl
  | linked hc hl =>
    cases ha with
    | flush _ => exact Or.inr (Or.inl ⟨rfl, rfl, .flushed hc hl⟩)
    | fail => exact Or.inl rfl
  | flushed hc hl =>
    cases ha with
    | send => exact Or.inr (Or.inl ⟨send_db _ _, send_keys _ _, .flushed hc hl⟩)
    | commit => exact Or.inr (Or.inr ⟨_, rfl, hc, hl, rfl⟩)
    | fail => exact Or.inl rfl
  | committed _ _ => cases hrun

/-- The stages of a run in which the calls look after the first one. -/
inductive Stage (calls : ι → AggregateCall) (ev : ι → Evidence) (tenant : Tenant) (w₀ : World)
    (s : Threads ι World AggregatePhase) : Prop
  | failed {i : ι} : s.phase i = .failed → Stage calls ev tenant w₀ s
  | unopened : (∀ i, KeyNames none (ev i) s.shared) →
      s.shared.db.decisions = w₀.db.decisions → (∀ i, Asks none (ev i) tenant (s.phase i)) →
      Stage calls ev tenant w₀ s
  | creating {i : ι} {id : Option Uuid} : (∀ j, KeyNames id (ev j) s.shared) →
      (∀ u, id = some u → u = (calls i).newId ∧ w₀.db.decisions.find u = none) →
      s.shared.db.decisions = w₀.db.decisions →
      Leads (calls i) (ev i) tenant s.shared.db (s.phase i) →
      (∀ j, j ≠ i → Asks id (ev j) tenant (s.phase j)) → Stage calls ev tenant w₀ s
  | opened {i : ι} {txn : Txn} {d : Decision} :
      (∀ j, KeyNames (some (calls i).newId) (ev j) s.shared) →
      w₀.db.decisions.find (calls i).newId = none →
      s.shared.db.decisions.find (calls i).newId = some d → d.tenantId = (ev i).tenantId →
      d.windowEnd = (ev i).capturedAt + seconds tenant.aggregationWindowSecs →
      (∀ id, id ≠ (calls i).newId →
        s.shared.db.decisions.find id = w₀.db.decisions.find id) →
      s.phase i = .committed txn → s.shared.db.linked (calls i).newId (ev i).id = true →
      (∀ j, j ≠ i → Follows (calls i).newId (ev j) tenant s.shared.db (s.phase j)) →
      Stage calls ev tenant w₀ s

theorem KeyNames.weaken {id : Option Uuid} {v : Uuid} {e : Evidence} {w : World}
    (h : KeyNames id e w) (hid : ∀ u, id = some u → u = v) : KeyNames (some v) e w := by
  intro entry hentry
  obtain ⟨u, hu, hstr⟩ := Option.map_eq_some_iff.mp (h entry hentry)
  rw [Option.map_some, ← hid u hu, hstr]

theorem KeyNames.expire {id : Option Uuid} {e : Evidence} {w : World} (h : KeyNames id e w)
    (key : String) : KeyNames id e (w.withKey key none) := by
  intro entry hentry
  simp only [World.withKey, Function.update_apply] at hentry
  split at hentry
  · cases hentry
  · exact h entry hentry

theorem KeyNames.set {e e' : Evidence} (hkey : openDecisionKey e' = openDecisionKey e) (w : World)
    (v : Uuid) (ex : Option Int) :
    KeyNames (some v) e' (w.withKey (openDecisionKey e) (some ⟨v.str, ex⟩)) := by
  intro entry hentry
  simp only [World.withKey, hkey, Function.update_self, Option.some.injEq] at hentry
  simp [← hentry]

theorem KeyNames.of_keys {id : Option Uuid} {e : Evidence} {w w' : World} (h : KeyNames id e w)
    (hkeys : w'.keys = w.keys) : KeyNames id e w' := by
  intro entry hentry
  exact h entry (hkeys ▸ hentry)

theorem Asks.weaken {id : Option Uuid} {v : Uuid} {e : Evidence} {p : AggregatePhase}
    (h : Asks id e tenant p) (hid : ∀ u, id = some u → u = v) : Asks (some v) e tenant p := by
  cases h with
  | begun => exact .begun
  | loaded => exact .loaded
  | keyRead hu => exact .keyRead (congrArg some (hid _ hu).symm)

theorem Leads.congr {call : AggregateCall} {e : Evidence} {db db' : Db} {p : AggregatePhase}
    (h : Leads call e tenant db p) (hdb : db' = db) : Leads call e tenant db' p :=
  hdb ▸ h

theorem Inserts.commit_find {call : AggregateCall} {e : Evidence} {db : Db} {txn : Txn}
    (h : Inserts call e tenant db txn) (id : Uuid) :
    (txn.commit call db).decisions.find id =
      if id = call.newId then some (txn.row call) else db.decisions.find id := by
  have hbase : txn.base.id = call.newId := h.base
  rw [Txn.commit_find, hbase]
  simp only [Txn.written, hbase, h.free]

variable [DecidableEq ι] {s t : Threads ι World AggregatePhase} {l : Turn ι}

theorem Stage.of_failed {i : ι} {w : World} {p : AggregatePhase} (hp : p = .failed) :
    Stage calls ev tenant w₀ (s.move i (w, p)) :=
  .failed (Threads.move_phase_self.trans hp)

theorem Stage.lead {i : ι} {id : Option Uuid} {w : World} {p : AggregatePhase}
    (hwin : SameWindow calls w₀ ev tenant) (hk : ∀ j, KeyNames id (ev j) s.shared)
    (hid : ∀ u, id = some u → u = (calls i).newId ∧ w₀.db.decisions.find u = none)
    (hdb : s.shared.db.decisions = w₀.db.decisions)
    (hlead : Leads (calls i) (ev i) tenant s.shared.db (s.phase i))
    (hasks : ∀ j, j ≠ i → Asks id (ev j) tenant (s.phase j))
    (ha : Advances (calls i) s.shared (s.phase i) w p) :
    Stage calls ev tenant w₀ (s.move i (w, p)) := by
  have hweak : ∀ u, id = some u → u = (calls i).newId := fun u hu => (hid u hu).1
  rcases hlead.step ha with hp | ⟨hdb', hkeys, hlead'⟩ | ⟨ex, hfree, rfl, hlead'⟩ |
    ⟨txn, rfl, hins, rfl⟩
  · exact .of_failed hp
  · refine .creating (i := i) (fun j => (hk j).of_keys hkeys) hid ?_ ?_ fun j hj => ?_
    · simp only [Threads.move_shared, hdb', hdb]
    · rw [Threads.move_phase_self]
      exact hlead'.congr hdb'
    · rw [Threads.move_phase_of_ne hj]
      exact hasks j hj
  · refine .creating (i := i) (fun j => KeyNames.set (hwin.key j i) _ _ _) ?_ hdb ?_ fun j hj => ?_
    · intro u hu
      obtain rfl := Option.some.inj hu
      exact ⟨rfl, hdb ▸ hfree⟩
    · rw [Threads.move_phase_self]
      exact hlead'
    · rw [Threads.move_phase_of_ne hj]
      exact (hasks j hj).weaken hweak
  · have hrow := hins.row
    refine .opened (i := i) (fun j => ((hk j).weaken hweak).of_keys rfl) (hdb ▸ hins.free)
      ((hins.commit_find _).trans (if_pos rfl)) ?_ ?_ ?_ Threads.move_phase_self
      (hins.commit _) fun j hj => ?_
    · rw [Txn.row_tenantId, hrow]
      rfl
    · rw [Txn.row_windowEnd, hrow]
      rfl
    · intro id' hne
      rw [← hdb]
      exact (hins.commit_find id').trans (if_neg hne)
    · rw [Threads.move_phase_of_ne hj]
      exact .asks ((hasks j hj).weaken hweak)

theorem Stage.ask {i k : ι} {id : Option Uuid} {w : World} {p : AggregatePhase} (hik : k ≠ i)
    (hk : ∀ j, KeyNames id (ev j) s.shared)
    (hid : ∀ u, id = some u → u = (calls i).newId ∧ w₀.db.decisions.find u = none)
    (hdb : s.shared.db.decisions = w₀.db.decisions)
    (hlead : Leads (calls i) (ev i) tenant s.shared.db (s.phase i))
    (hasks : ∀ j, j ≠ i → Asks id (ev j) tenant (s.phase j))
    (he : s.shared.db.evidences.find (calls k).evidenceId = some (ev k))
    (ht : s.shared.db.tenants.find (ev k).tenantId = some tenant)
    (hg : AfterFirst s (.advance k)) (ha : Advances (calls k) s.shared (s.phase k) w p) :
    Stage calls ev tenant w₀ (s.move k (w, p)) := by
  obtain ⟨rfl, hp | hp | ⟨hphase, _, hnone⟩ | ⟨u, hu, hphase, _⟩⟩ :=
    (hasks k hik).step (hk k) he ht ha
  · exact .of_failed hp
  · refine .creating (i := i) hk hid hdb ?_ fun j hj => ?_
    · rw [Threads.move_phase_of_ne hik.symm]
      exact hlead
    · by_cases hjk : j = k
      · subst hjk
        rw [Threads.move_phase_self]
        exact hp
      · rw [Threads.move_phase_of_ne hjk]
        exact hasks j hj
  · -- the creating call has looked before
    rcases hg with hfinds | hlooked
    · simp [hphase, AggregatePhase.finds, hnone] at hfinds
    · have := hlooked i
      simp [hlead.looked] at this
  · -- the row the key names is not committed yet
    rcases hg with hfinds | hlooked
    · simp [hphase, AggregatePhase.finds, Uuid.parse_str, hdb, (hid u hu).2] at hfinds
    · have := hlooked i
      simp [hlead.looked] at this

theorem Stage.follow {i k : ι} {txn : Txn} {d : Decision} {w : World} {p : AggregatePhase}
    (hwin : SameWindow calls w₀ ev tenant) (hik : k ≠ i)
    (hk : ∀ j, KeyNames (some (calls i).newId) (ev j) s.shared)
    (hnew : w₀.db.decisions.find (calls i).newId = none)
    (hd : s.shared.db.decisions.find (calls i).newId = some d)
    (hten : d.tenantId = (ev i).tenantId)
    (hend : d.windowEnd = (ev i).capturedAt + seconds tenant.aggregationWindowSecs)
    (hrest : ∀ id, id ≠ (calls i).newId →
      s.shared.db.decisions.find id = w₀.db.decisions.find id)
    (hcommitted : s.phase i = .committed txn)
    (hlinked : s.shared.db.linked (calls i).newId (ev i).id = true)
    (hfollow : ∀ j, j ≠ i → Follows (calls i).newId (ev j) tenant s.shared.db (s.phase j))
    (he : s.shared.db.evidences.find (calls k).evidenceId = some (ev k))
    (ht : s.shared.db.tenants.find (ev k).tenantId = some tenant)
    (hg : AfterFirst s (.advance k)) (hrun : (s.phase k).ended = false)
    (ha : Advances (calls k) s.shared (s.phase k) w p) :
    Stage calls ev tenant w₀ (s.move k (w, p)) := by
  have hi : ∀ next, (s.move k next).phase i = .committed txn := fun next =>
    (Threads.move_phase_of_ne hik.symm).trans hcommitted
  have hkey : s.phase k = .loaded (ev k) tenant →
      truthy ((s.shared.keys (openDecisionKey (ev k))).map RedisEntry.value) ≠ none := by
    intro hphase hnone
    rcases hg with hfinds | hlooked
    · simp [hphase, AggregatePhase.finds, hnone] at hfinds
    · have := hlooked i
      simp [hcommitted, AggregatePhase.looked] at this
  rcases (hfollow k hik).step (hk k) he ht hd (hten.trans (hwin.tenantId i k))
    (hend ▸ hwin.window k i) hkey hrun ha with hp | ⟨hdb, hkeys, hp⟩ | ⟨txn', rfl, hc, hl, rfl⟩
  · exact .of_failed hp
  · refine .opened (i := i) (fun j => (hk j).of_keys hkeys) hnew (by simpa [hdb] using hd) hten
      hend (by simpa [hdb] using hrest) (hi _) (by simpa [hdb] using hlinked) fun j hj => ?_
    by_cases hjk : j = k
    · subst hjk
      rw [Threads.move_phase_self]
      exact hdb ▸ hp
    · rw [Threads.move_phase_of_ne hjk]
      exact hdb ▸ hfollow j hj
  · -- the row is rewritten, its tenant and its window stay
    have hwritten := Txn.written_of_found (calls k) (hl.base ▸ hd)
    refine .opened (i := i) (fun j => (hk j).of_keys rfl) hnew
      ((Txn.commit_find _ _ _ _).trans (if_pos hl.base.symm)) ?_ ?_ ?_ (hi _)
      (commit_linked_mono hlinked) fun j hj => ?_
    · rw [hwritten, rebase_tenantId, Txn.row_tenantId, keepColumn, if_pos rfl, hten]
    · rw [hwritten, rebase_windowEnd, Txn.row_windowEnd, keepColumn, if_pos rfl, hend]
    · intro id hne
      rw [← hrest id hne]
      exact (Txn.commit_find _ _ _ _).trans (if_neg (hl.base ▸ hne))
    · by_cases hjk : j = k
      · subst hjk
        rw [Threads.move_phase_self]
        exact .committed hc (hl.commit _)
      · rw [Threads.move_phase_of_ne hjk]
        exact (hfollow j hj).mono commit_linked_mono

/-- The tables no call writes are those of the start. -/
structure Fixed (w₀ w : World) : Prop where
  evidences : w.db.evidences = w₀.db.evidences
  tenants : w.db.tenants = w₀.db.tenants

theorem Fixed.step (h : Fixed w₀ s.shared) (hs : Interleaved calls s l t) : Fixed w₀ t.shared :=
  ⟨hs.evidences.trans h.evidences, hs.tenants.trans h.tenants⟩

theorem Stage.step (hwin : SameWindow calls w₀ ev tenant) (hfix : Fixed w₀ s.shared)
    (h : Stage calls ev tenant w₀ s) (hg : AfterFirst s l) (hs : Interleaved calls s l t) :
    Stage calls ev tenant w₀ t := by
  cases hs with
  | @advance k hrun _ =>
    have ha := advance_advances (calls k) s.shared hrun
    have he : s.shared.db.evidences.find (calls k).evidenceId = some (ev k) := by
      rw [hfix.evidences, hwin.evidence]
    have ht : s.shared.db.tenants.find (ev k).tenantId = some tenant := by
      rw [hfix.tenants, hwin.tenant_found]
    cases h with
    | @failed i hi =>
      have hne : i ≠ k := by
        intro heq
        subst heq
        simp [hi, AggregatePhase.ended] at hrun
      exact .failed ((Threads.move_phase_of_ne hne).trans hi)
    | unopened hk hdb hasks =>
      obtain ⟨hw, hp | hp | ⟨_, hp, _⟩ | ⟨u, hu, _⟩⟩ := (hasks k).step (hk k) he ht ha
      · exact .of_failed hp
      · exact .unopened (by simpa [hw] using hk) (by simpa [hw] using hdb)
          (Threads.forall_move hasks hp)
      · refine .creating (i := k) (by simpa [hw] using hk) (fun u hu => by cases hu)
          (by simpa [hw] using hdb) ?_ fun j hj => ?_
        · rw [Threads.move_phase_self, hp]
          exact .creating
        · rw [Threads.move_phase_of_ne hj]
          exact hasks j
      · cases hu
    | @creating i id hk hid hdb hlead hasks =>
      by_cases hki : k = i
      · subst hki
        exact .lead hwin hk hid hdb hlead hasks ha
      · exact .ask hki hk hid hdb hlead hasks he ht hg ha
    | @opened i txn d hk hnew hd hten hend hrest hcommitted hlinked hfollow =>
      have hki : k ≠ i := by
        intro heq
        subst heq
        simp [hcommitted, AggregatePhase.ended] at hrun
      exact .follow hwin hki hk hnew hd hten hend hrest hcommitted hlinked hfollow he ht hg hrun ha
  | raise _ => exact .of_failed rfl
  | expireKey =>
    cases h with
    | failed hi => exact .failed hi
    | unopened hk hdb hasks => exact .unopened (fun i => (hk i).expire _) hdb hasks
    | creating hk hid hdb hlead hasks =>
      exact .creating (fun i => (hk i).expire _) hid hdb hlead hasks
    | opened hk hnew hd hten hend hrest hcommitted hlinked hfollow =>
      exact .opened (fun i => (hk i).expire _) hnew hd hten hend hrest hcommitted hlinked hfollow

/-- Once all calls have committed, the one decision has all the evidences. -/
theorem Stage.oneDecision [Nonempty ι] (hwin : SameWindow calls w₀ ev tenant)
    (h : Stage calls ev tenant w₀ s) (hall : ∀ i, ∃ txn, s.phase i = .committed txn) :
    OneDecision calls w₀ s.shared := by
  cases h with
  | @failed i hi =>
    obtain ⟨txn, hc⟩ := hall i
    cases hi.symm.trans hc
  | unopened _ _ hasks =>
    obtain ⟨i⟩ := ‹Nonempty ι›
    obtain ⟨txn, hc⟩ := hall i
    have := hasks i
    rw [hc] at this
    cases this
  | @creating i id _ _ _ hlead _ =>
    obtain ⟨txn, hc⟩ := hall i
    rw [hc] at hlead
    cases hlead
  | @opened i txn d _ hnew hd _ _ hrest _ hlinked hfollow =>
    refine ⟨(calls i).newId, hnew, by simp [hd], ?_, ?_⟩
    · intro id hid hsome
      by_contra hne
      rw [hrest id hne, hid] at hsome
      cases hsome
    · intro j
      rw [← hwin.id j]
      by_cases hj : j = i
      · rw [hj]
        exact hlinked
      · obtain ⟨txn', hc⟩ := hall j
        have hf := hfollow j hj
        rw [hc] at hf
        cases hf with
        | asks h => cases h
        | committed _ h => exact h

end ArgusServices

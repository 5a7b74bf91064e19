import ArgusServices.AdvanceEffect
import ArgusServices.Independent
import ArgusServices.OwnPlace

namespace ArgusServices

open Relation Transition

def Event.decisionId : Event → Uuid
  | .wsStateChanged _ decisionId _ _ _ _ _ _ => decisionId
  | .busStateChanged _ decisionId _ _ => decisionId
  | .wsResolved _ decisionId _ _ _ => decisionId

def Message.decisionId : Message → Uuid
  | .event e => e.decisionId
  | .task decisionId => decisionId

/-- All rows and messages about one decision, in the order they were written and sent. -/
structure Dossier where
  row : Option Decision
  links : List DecisionEvidence
  audits : List AuditRecord
  events : List Event
  tasks : List Uuid
  deriving DecidableEq

def World.dossier (w : World) (id : Uuid) : Dossier where
  row := w.db.decisions.find id
  links := w.db.decisionEvidences.filter fun l => l.decisionId = id
  audits := w.db.auditRecords.filter fun a => a.decisionId = id
  events := w.published.filter fun e => e.decisionId = id
  tasks := w.notifyWarning.filter fun task => task = id

/-- Two states are the same on some open keys and some decisions. -/
structure SameOn (keys : Set String) (ids : Set Uuid) (w v : World) : Prop where
  evidences : w.db.evidences = v.db.evidences
  tenants : w.db.tenants = v.db.tenants
  feedback : w.db.feedback = v.db.feedback
  key : ∀ key ∈ keys, w.keys key = v.keys key
  dossier : ∀ id ∈ ids, w.dossier id = v.dossier id

variable {keys : Set String} {ids : Set Uuid} {w v u : World} {call : AggregateCall} {txn : Txn}

theorem SameOn.refl (w : World) : SameOn keys ids w w :=
  ⟨rfl, rfl, rfl, fun _ _ => rfl, fun _ _ => rfl⟩

theorem SameOn.symm (h : SameOn keys ids w v) : SameOn keys ids v w :=
  ⟨h.evidences.symm, h.tenants.symm, h.feedback.symm, fun key hk => (h.key key hk).symm,
    fun id hid => (h.dossier id hid).symm⟩

theorem SameOn.trans (h : SameOn keys ids w v) (h' : SameOn keys ids v u) : SameOn keys ids w u :=
  ⟨h.evidences.trans h'.evidences, h.tenants.trans h'.tenants, h.feedback.trans h'.feedback,
    fun key hk => (h.key key hk).trans (h'.key key hk),
    fun id hid => (h.dossier id hid).trans (h'.dossier id hid)⟩

theorem SameOn.row (h : SameOn keys ids w v) {id : Uuid} (hid : id ∈ ids) :
    w.db.decisions.find id = v.db.decisions.find id :=
  congrArg Dossier.row (h.dossier id hid)

theorem SameOn.linked (h : SameOn keys ids w v) {id : Uuid} (hid : id ∈ ids) (evidenceId : Uuid) :
    w.db.linked id evidenceId = v.db.linked id evidenceId := by
  have hlinks : w.db.decisionEvidences.filter (fun l => l.decisionId = id) =
      v.db.decisionEvidences.filter fun l => l.decisionId = id :=
    congrArg Dossier.links (h.dossier id hid)
  have hany : ∀ links : List DecisionEvidence,
      (links.any fun l => l.decisionId = id && l.evidenceId = evidenceId) =
        (links.filter fun l => l.decisionId = id).any fun l => l.evidenceId = evidenceId := by
    intro links
    rw [List.any_filter]
  simp only [Db.linked, hany, hlinks]

theorem SameOn.withKey (h : SameOn keys ids w v) (key : String) (entry : Option RedisEntry) :
    SameOn keys ids (w.withKey key entry) (v.withKey key entry) := by
  refine ⟨h.evidences, h.tenants, h.feedback, ?_, h.dossier⟩
  intro key' hkey'
  simp only [World.withKey, Function.update_apply, h.key key' hkey']

theorem sameOn_withKey {key : String} (hkey : key ∉ keys) (w : World)
    (entry : Option RedisEntry) : SameOn keys ids w (w.withKey key entry) := by
  refine ⟨rfl, rfl, rfl, ?_, fun _ _ => rfl⟩
  intro key' hkey'
  have hne : key' ≠ key := fun heq => hkey (heq ▸ hkey')
  simp only [World.withKey, Function.update_of_ne hne]

/-- A message put on file. -/
def Dossier.hear (x : Dossier) : Message → Dossier
  | .event e => { x with events := x.events ++ [e] }
  | .task id => { x with tasks := x.tasks ++ [id] }

/-- The rows a commit writes, put on file. -/
def Dossier.write (x : Dossier) (call : AggregateCall) (txn : Txn) : Dossier :=
  { x with
    row := some (match x.row with
      | some current => txn.base.rebase (txn.row call) current
      | none => txn.row call)
    links := x.links ++ txn.links
    audits := x.audits ++ newAudits txn.tenant (txn.held call) }

theorem dossier_send (w : World) (m : Message) (id : Uuid) :
    (w.send m).dossier id =
      if m.decisionId = id then (w.dossier id).hear m else w.dossier id := by
  cases m with
  | event e =>
    show World.dossier { w with published := w.published ++ [e] } id = _
    by_cases he : e.decisionId = id
    · simp [World.dossier, Message.decisionId, Dossier.hear, List.filter_append, he]
    · simp [World.dossier, Message.decisionId, List.filter_append, he]
  | task task =>
    show World.dossier { w with notifyWarning := w.notifyWarning ++ [task] } id = _
    by_cases ht : task = id
    · simp [World.dossier, Message.decisionId, Dossier.hear, List.filter_append, ht]
    · simp [World.dossier, Message.decisionId, List.filter_append, ht]

theorem mem_links_decisionId {l : DecisionEvidence} (h : l ∈ txn.links) :
    l.decisionId = txn.base.id := by
  unfold Txn.links at h
  split at h
  · obtain rfl := List.mem_singleton.mp h
    rfl
  · cases h

theorem mem_newAudits_decisionId {tenant : Tenant} {d : Decision} {a : AuditRecord}
    (h : a ∈ newAudits tenant d) : a.decisionId = d.id := by
  unfold newAudits at h
  split at h
  · cases h
  · obtain rfl := List.mem_singleton.mp h
    rfl

theorem dossier_commit (w : World) (call : AggregateCall) (txn : Txn) (id : Uuid) :
    World.dossier { w with db := txn.commit call w.db } id =
      if txn.base.id = id then (w.dossier id).write call txn else w.dossier id := by
  have hlinks : txn.links.filter (fun l => l.decisionId = id) =
      if txn.base.id = id then txn.links else [] := by
    split
    next hid =>
      rw [List.filter_eq_self]
      intro l hl
      simp [mem_links_decisionId hl, hid]
    next hid =>
      rw [List.filter_eq_nil_iff]
      intro l hl
      simp [mem_links_decisionId hl, hid]
  have haudits : (newAudits txn.tenant (txn.held call)).filter (fun a => a.decisionId = id) =
      if txn.base.id = id then newAudits txn.tenant (txn.held call) else [] := by
    split
    next hid =>
      rw [List.filter_eq_self]
      intro a ha
      simp [mem_newAudits_decisionId ha, hid]
    next hid =>
      rw [List.filter_eq_nil_iff]
      intro a ha
      simp [mem_newAudits_decisionId ha, hid]
  have hrow := txn.commit_find call w.db id
  by_cases hid : txn.base.id = id
  · subst hid
    simp only [↓reduceIte] at hlinks haudits hrow ⊢
    simp only [World.dossier, Dossier.write, hrow]
    simp only [Txn.commit, List.filter_append, hlinks, haudits]
    rfl
  · simp only [hid, Ne.symm hid, ↓reduceIte] at hlinks haudits hrow ⊢
    simp only [World.dossier, hrow]
    simp only [Txn.commit, List.filter_append, hlinks, haudits, List.append_nil]

theorem SameOn.send (h : SameOn keys ids w v) (m : Message) :
    SameOn keys ids (w.send m) (v.send m) := by
  have hkeys : ∀ w : World, (w.send m).keys = w.keys := fun w => by cases m <;> rfl
  refine ⟨?_, ?_, ?_, ?_, ?_⟩
  · simp only [send_db, h.evidences]
  · simp only [send_db, h.tenants]
  · simp only [send_db, h.feedback]
  · intro key hkey
    rw [hkeys, hkeys, h.key key hkey]
  · intro id hid
    rw [dossier_send, dossier_send, h.dossier id hid]

theorem sameOn_send {m : Message} (hm : m.decisionId ∉ ids) (w : World) :
    SameOn keys ids w (w.send m) := by
  have hkeys : (w.send m).keys = w.keys := by cases m <;> rfl
  refine ⟨?_, ?_, ?_, ?_, ?_⟩
  · rw [send_db]
  · rw [send_db]
  · rw [send_db]
  · intro key _
    rw [hkeys]
  · intro id hid
    have hne : m.decisionId ≠ id := fun heq => hm (heq ▸ hid)
    rw [dossier_send, if_neg hne]

theorem SameOn.commit (h : SameOn keys ids w v) (call : AggregateCall) (txn : Txn) :
    SameOn keys ids { w with db := txn.commit call w.db }
      { v with db := txn.commit call v.db } := by
  refine ⟨h.evidences, h.tenants, h.feedback, h.key, ?_⟩
  intro id hid
  rw [dossier_commit, dossier_commit, h.dossier id hid]

theorem sameOn_commit (hid : txn.base.id ∉ ids) (w : World) (call : AggregateCall) :
    SameOn keys ids w { w with db := txn.commit call w.db } := by
  refine ⟨rfl, rfl, rfl, fun _ _ => rfl, ?_⟩
  intro id hid'
  have hne : txn.base.id ≠ id := fun heq => hid (heq ▸ hid')
  rw [dossier_commit, if_neg hne]

/-- What a call may touch: open keys, decisions it may look at, decisions it may write. -/
structure Scope where
  keys : Set String
  ids : Set Uuid
  held : Set Uuid

/-- What a call has in hand at a point of its code is within its scope. -/
def AggregatePhase.Confined (call : AggregateCall) (scope : Scope) (db : Db) :
    AggregatePhase → Prop
  | .loaded evidence _ | .windowPassed evidence _ | .creating evidence _ | .inserted evidence _
  | .keySet evidence _ => db.evidences.find call.evidenceId = some evidence
  | .keyRead evidence _ raw => db.evidences.find call.evidenceId = some evidence ∧
      ∀ id, Uuid.parse raw = some id → id ∈ scope.ids
  | .rowRead evidence _ d => db.evidences.find call.evidenceId = some evidence ∧ d.id ∈ scope.held
  | .linked txn => txn.base.id ∈ scope.held
  | .flushed txn unsent => txn.base.id ∈ scope.held ∧ ∀ m ∈ unsent, m.decisionId = txn.base.id
  | .begun | .committed _ | .failed => True

structure Confined (call : AggregateCall) (scope : Scope) (w : World) (p : AggregatePhase) :
    Prop where
  new : call.newId ∈ scope.held
  key : ∀ evidence, w.db.evidences.find call.evidenceId = some evidence →
    openDecisionKey evidence ∈ scope.keys
  value : ∀ evidence id, w.db.evidences.find call.evidenceId = some evidence →
    w.keyId evidence = some id → id ∈ scope.ids
  rows : ∀ id ∈ scope.ids, w.db.decisions.find id ≠ none → id ∈ scope.held
  phase : p.Confined call scope w.db

variable {scope : Scope} {p p' : AggregatePhase} {evidence : Evidence}

theorem SameOn.keyId (h : SameOn scope.keys scope.ids w v)
    (hkey : openDecisionKey evidence ∈ scope.keys) : w.keyId evidence = v.keyId evidence := by
  simp only [World.keyId, h.key _ hkey]

theorem Confined.same (hc : Confined call scope w p) (h : SameOn scope.keys scope.ids w v) :
    Confined call scope v p where
  new := hc.new
  key := by
    rw [← h.evidences]
    exact hc.key
  value := by
    intro evidence id hev hid
    rw [← h.evidences] at hev
    rw [← h.keyId (hc.key evidence hev)] at hid
    exact hc.value evidence id hev hid
  rows := by
    intro id hid hrow
    rw [← h.row hid] at hrow
    exact hc.rows id hid hrow
  phase := by
    have hphase := hc.phase
    cases p with
    | begun | linked | flushed | committed | failed => exact hphase
    | _ =>
      simp only [AggregatePhase.Confined, ← h.evidences] at hphase ⊢
      exact hphase

theorem mem_messages_decisionId {m : Message} (h : m ∈ txn.messages call) :
    m.decisionId = txn.base.id := by
  rcases List.mem_append.mp h with h | h
  · obtain ⟨e, he, rfl⟩ := List.mem_map.mp h
    unfold newEvents at he
    split at he
    · cases he
    · rcases List.mem_cons.mp he with rfl | he
      · exact Txn.held_id txn call
      · obtain rfl := List.mem_singleton.mp he
        exact Txn.held_id txn call
  · obtain ⟨id, hid, rfl⟩ := List.mem_map.mp h
    unfold newTasks at hid
    split at hid
    · obtain rfl := List.mem_singleton.mp hid
      exact Txn.held_id txn call
    · cases hid

theorem Advances.evidences {w' : World} (h : Advances call w p w' p') :
    w'.db.evidences = w.db.evidences := by
  rcases h.db with hdb | ⟨txn, -, -, hdb⟩
  · rw [hdb]
  · rw [hdb]
    rfl

theorem Confined.advances_phase {w' : World} (hc : Confined call scope w p)
    (h : Advances call w p w' p') :
    p'.Confined call scope w.db := by
  have hphase := hc.phase
  cases h with
  | load hev _ => exact hev
  | keyAbsent => exact hphase
  | keyFound hraw =>
    refine ⟨hphase, ?_⟩
    intro id hid
    exact hc.value _ id hphase (by rw [World.keyId, hraw, Option.bind_some, hid])
  | rowAbsent => exact hphase.1
  | rowOpen hid hd _ =>
    refine ⟨hphase.1, hc.rows _ (hphase.2 _ hid) ?_⟩
    simp [hd]
  | rowPassed => exact hphase.1
  | deleteKey => exact hphase
  | insert => exact hphase
  | setKey => exact hphase
  | lookUp => exact hphase.2
  | lookUpCreated => exact hc.new
  | flush => exact ⟨hphase, fun m hm => mem_messages_decisionId hm⟩
  | send => exact ⟨hphase.1, fun m hm => hphase.2 m (List.mem_cons_of_mem _ hm)⟩
  | commit => trivial
  | fail => trivial

/-- A turn of a call stays within its scope. -/
theorem Confined.advances {w' : World} (hc : Confined call scope w p)
    (hheld : ∀ id ∈ scope.held, id ∈ scope.ids) (h : Advances call w p w' p') :
    Confined call scope w' p' where
  new := hc.new
  key := by
    rw [h.evidences]
    exact hc.key
  value := by
    intro evidence id hev hid
    rw [h.evidences] at hev
    rcases h.keyId hid with hid | ⟨_, _, _, _, rfl⟩
    · exact hc.value evidence id hev hid
    · exact hheld _ hc.new
  rows := by
    intro id hid hrow
    rcases h.db with hdb | ⟨txn, rfl, -, hdb⟩
    · rw [hdb] at hrow
      exact hc.rows id hid hrow
    · rw [hdb, Txn.commit_find] at hrow
      split at hrow
      next hbase =>
        rw [hbase]
        exact hc.phase.1
      next => exact hc.rows id hid hrow
  phase := by
    have hphase := hc.advances_phase h
    cases p' with
    | begun | linked | flushed | committed | failed => exact hphase
    | _ =>
      simp only [AggregatePhase.Confined, h.evidences] at hphase ⊢
      exact hphase

/-- A turn only changes what is in the scope of its call. -/
theorem Confined.frame {w' : World} (hc : Confined call scope w p) (h : Advances call w p w' p')
    (hkeys : ∀ key ∈ scope.keys, key ∉ keys) (hids : ∀ id ∈ scope.held, id ∉ ids) :
    SameOn keys ids w w' := by
  have hphase := hc.phase
  cases h with
  | deleteKey => exact sameOn_withKey (hkeys _ (hc.key _ hphase)) w none
  | setKey => exact sameOn_withKey (hkeys _ (hc.key _ hphase)) w _
  | @send txn m unsent =>
    obtain ⟨hbase, hmsgs⟩ := hphase
    have hm := hids _ hbase
    rw [← hmsgs m List.mem_cons_self] at hm
    exact sameOn_send hm w
  | commit => exact sameOn_commit (hids _ hphase.1) w call
  | _ => exact .refl w

/-- From two states that are the same on its scope a call takes the same turn. -/
theorem Confined.advance_same (hc : Confined call scope w p)
    (hheld : ∀ id ∈ scope.held, id ∈ scope.ids) (h : SameOn scope.keys scope.ids w v) :
    (call.advance w p).2 = (call.advance v p).2 ∧
      SameOn scope.keys scope.ids (call.advance w p).1 (call.advance v p).1 := by
  have hphase := hc.phase
  cases p with
  | begun =>
    simp only [AggregateCall.advance, ← h.evidences, ← h.tenants]
    split
    · exact ⟨rfl, h⟩
    · split
      · exact ⟨rfl, h⟩
      · exact ⟨rfl, h⟩
  | loaded evidence tenant =>
    simp only [AggregateCall.advance, ← h.key _ (hc.key _ hphase)]
    split
    · exact ⟨rfl, h⟩
    · exact ⟨rfl, h⟩
  | keyRead evidence tenant raw =>
    simp only [AggregateCall.advance]
    split
    · exact ⟨rfl, h⟩
    next id hid =>
      rw [← h.row (hphase.2 id hid)]
      split
      · exact ⟨rfl, h⟩
      · split
        · exact ⟨rfl, h⟩
        · exact ⟨rfl, h⟩
  | rowRead evidence tenant d =>
    simp only [AggregateCall.advance, h.linked (hheld _ hphase.2)]
    exact ⟨trivial, h⟩
  | windowPassed evidence tenant => exact ⟨rfl, h.withKey _ none⟩
  | creating evidence tenant =>
    simp only [AggregateCall.advance, ← h.row (hheld _ hc.new)]
    split
    · exact ⟨rfl, h⟩
    · exact ⟨rfl, h⟩
  | inserted evidence tenant =>
    simp only [AggregateCall.advance]
    split
    · exact ⟨rfl, h⟩
    · exact ⟨rfl, h.withKey _ _⟩
  | keySet evidence tenant =>
    simp only [AggregateCall.advance, h.linked (hheld _ hc.new)]
    exact ⟨trivial, h⟩
  | linked txn =>
    simp only [AggregateCall.advance, h.linked (hheld _ hphase)]
    split
    · exact ⟨rfl, h⟩
    · exact ⟨rfl, h⟩
  | flushed txn unsent =>
    cases unsent with
    | nil => exact ⟨rfl, h.commit call txn⟩
    | cons m unsent => exact ⟨rfl, h.send m⟩
  | committed txn => exact ⟨rfl, h⟩
  | failed => exact ⟨rfl, h⟩

/-- The scopes of the calls, and under `none` what is in the scope of no call: no two share a key,
and nothing one may write is looked at in another. -/
structure Apart {ι : Type} (scope : Option ι → Scope) : Prop where
  held : ∀ k, ∀ id ∈ (scope k).held, id ∈ (scope k).ids
  keys : ∀ k k', k' ≠ k → ∀ key ∈ (scope k).keys, key ∉ (scope k').keys
  ids : ∀ k k', k' ≠ k → ∀ id ∈ (scope k).held, id ∉ (scope k').ids

/-- The turns of a call, and of the keys that expire in its scope. -/
inductive CallTurn {ι : Type} (calls : ι → AggregateCall) (scope : Option ι → Scope) :
    Option ι → World × AggregatePhase → World × AggregatePhase → Prop
  | advance {i : ι} {w : World} {p : AggregatePhase} : p.ended = false →
      CallTurn calls scope (some i) (w, p) ((calls i).advance w p)
  | raise {i : ι} {w : World} {p : AggregatePhase} : p.ended = false →
      CallTurn calls scope (some i) (w, p) (w, .failed)
  | expireKey {k : Option ι} {w : World} {p : AggregatePhase} {key : String} :
      key ∈ (scope k).keys → CallTurn calls scope k (w, p) (w.withKey key none, p)

theorem keyId_withKey_none {key : String} {id : Uuid}
    (h : (w.withKey key none).keyId evidence = some id) : w.keyId evidence = some id := by
  simp only [World.keyId, World.withKey, Function.update_apply] at h ⊢
  split at h
  · cases h
  · exact h

/-- The calls of scopes apart are independent of each other. -/
theorem Apart.independent {ι : Type} {calls : ι → AggregateCall} {scope : Option ι → Scope}
    (h : Apart scope) :
    Threads.Independent (CallTurn calls scope) (fun k => SameOn (scope k).keys (scope k).ids)
      (fun k a => ∀ i, k = some i → Confined (calls i) (scope k) a.1 a.2) where
  refl := fun _ w => .refl w
  symm := fun _ _ _ hw => hw.symm
  trans := fun _ _ _ _ hw hv => hw.trans hv
  sound_sees := fun _ _ _ _ hc hw i hi => (hc i hi).same hw
  sound_turn := by
    intro k a b hc hturn i hi
    cases hturn with
    | @advance j w p hp =>
      cases hi
      exact (hc _ rfl).advances (h.held _) (advance_advances _ w hp)
    | @raise j w p hp =>
      cases hi
      exact (hc _ rfl).advances (h.held _) .fail
    | @expireKey k w p key hkey =>
      have hown := hc i hi
      exact ⟨hown.new, hown.key, fun e id hev hid => hown.value e id hev (keyId_withKey_none hid),
        hown.rows, hown.phase⟩
  follows := by
    intro k w v p b hc hw hturn
    cases hturn with
    | @advance i w p hp =>
      obtain ⟨hphase, hsame⟩ := (hc i rfl).advance_same (h.held _) hw
      refine ⟨((calls i).advance v p).1, ?_, hsame⟩
      rw [hphase]
      exact .advance hp
    | raise hp => exact ⟨v, .raise hp, hw⟩
    | @expireKey k w p key hkey => exact ⟨v.withKey key none, .expireKey hkey, hw.withKey key none⟩
  frame := by
    intro k k' a b hc hturn hk
    cases hturn with
    | @advance i w p hp =>
      exact (hc i rfl).frame (advance_advances _ w hp) (h.keys _ _ hk) (h.ids _ _ hk)
    | raise => exact .refl _
    | expireKey hkey => exact sameOn_withKey (h.keys _ _ hk _ hkey) _ none

end ArgusServices

import ArgusServices.NotifyEffect
import Mathlib.Data.Finset.Card

namespace ArgusServices

open Effect

/-- The messages the provider has accepted for a config. -/
def NotifierWorld.sentFor (w : NotifierWorld) (configId : Uuid) : Nat :=
  w.accepted.countP fun m => m.configId = configId

variable {attempts : Nat → NotifyAttempt} {decisionId : String} {w t : NotifierWorld}
  {decision : Decision} {config : NotificationConfig} {r m : Nat}

/-- In this try the provider refuses some recipient. -/
def SomeRefused (attempts : Nat → NotifyAttempt) (decisionId : String) (w : NotifierWorld)
    (r : Nat) : Prop :=
  ∃ c ∈ w.recipients decisionId, (attempts r).accepts c = false

/-- In this try the provider refuses the recipient the query returned first. -/
def FirstRefused (attempts : Nat → NotifyAttempt) (decisionId : String) (w : NotifierWorld)
    (r : Nat) : Prop :=
  ∃ c, ((attempts r).order.arrange (w.recipients decisionId)).head? = some c ∧
    (attempts r).accepts c = false

/-- A recipient gets one message at most, and exactly one if no try that was made refuses it. -/
def ExactlyOnce (attempts : Nat → NotifyAttempt) (decisionId : String) (w t : NotifierWorld) :
    Prop :=
  ∀ c ∈ w.recipients decisionId, t.sentFor c.id ≤ w.sentFor c.id + 1 ∧
    ((∀ r ≤ maxNotifyRetries, (∀ j < r, SomeRefused attempts decisionId w j) →
      (attempts r).accepts c = true) → t.sentFor c.id = w.sentFor c.id + 1)

def AllNotifiedOnce : Prop :=
  ∀ attempts decisionId w, ExactlyOnce attempts decisionId w (runNotifyTask attempts decisionId w)

def sampleConfig (id : Nat) : NotificationConfig :=
  ⟨⟨BitVec.ofNat 128 id⟩, ⟨1⟩, .sms, "+10000000000", true⟩

def sampleNotifierWorld : NotifierWorld where
  decisions := KeyedTable.empty.put
    { id := ⟨20⟩, tenantId := ⟨1⟩, cameraId := ⟨2⟩, regionId := none, state := .warning
      cumulativeSeverity := 10, evidenceCount := 1, windowStart := 0, windowEnd := 0
      firstEvidenceAt := none, lastEvidenceAt := none, resolvedAt := none, resolvedBy := none
      updatedAt := 0 }
  configs := ⟨[sampleConfig 31, sampleConfig 32], by decide⟩
  deliveries := []
  accepted := []
  refused := []

/-- The provider refuses the second config on the first try only. -/
def refusedOnce (retries : Nat) : NotifyAttempt where
  order := ⟨id, fun rows => .refl rows⟩
  answer config := if retries = 0 ∧ config.id = ⟨32⟩ then .error .outage else .ok "SM0"
  str _ := "outage"

theorem not_allNotifiedOnce : ¬AllNotifiedOnce := by
  intro h
  have hc : sampleConfig 31 ∈ sampleNotifierWorld.recipients (Uuid.str ⟨20⟩) := by decide +kernel
  have hlimit := (h refusedOnce (Uuid.str ⟨20⟩) sampleNotifierWorld (sampleConfig 31) hc).1
  have hsent : (runNotifyTask refusedOnce (Uuid.str ⟨20⟩) sampleNotifierWorld).sentFor
      (sampleConfig 31).id = 2 := by decide +kernel
  rw [hsent] at hlimit
  exact absurd hlimit (by decide)

/-- The patterns of refusals that are met once each: a try succeeds and all before it break off at
their first recipient; or every try breaks off, no recipient comes before the refused one twice,
and one that is never refused does so in some try. -/
inductive OnceEach (attempts : Nat → NotifyAttempt) (decisionId : String) (w : NotifierWorld) :
    Prop
  | succeeds {m : Nat} : m ≤ maxNotifyRetries → ¬SomeRefused attempts decisionId w m →
      (∀ r < m, FirstRefused attempts decisionId w r) → OnceEach attempts decisionId w
  | fails : (∀ r ≤ maxNotifyRetries, SomeRefused attempts decisionId w r) →
      (∀ r ≤ maxNotifyRetries, ∀ r' ≤ maxNotifyRetries, ∀ c,
        c ∈ (attempts r).reachedIn (w.recipients decisionId) →
        c ∈ (attempts r').reachedIn (w.recipients decisionId) → r = r') →
      (∀ c ∈ w.recipients decisionId, (∀ r ≤ maxNotifyRetries, (attempts r).accepts c = true) →
        ∃ r ≤ maxNotifyRetries, c ∈ (attempts r).reachedIn (w.recipients decisionId)) →
      OnceEach attempts decisionId w

/-- The tries, among the first `r`, in which a recipient is sent a message. -/
def triesReaching (attempts : Nat → NotifyAttempt) (decisionId : String) (w : NotifierWorld)
    (r : Nat) (c : NotificationConfig) : Finset Nat :=
  (Finset.range r).filter fun j => c ∈ (attempts j).reachedIn (w.recipients decisionId)

theorem mem_triesReaching {j : Nat} : j ∈ triesReaching attempts decisionId w r config ↔
    j < r ∧ config ∈ (attempts j).reachedIn (w.recipients decisionId) := by
  simp [triesReaching]

theorem card_triesReaching_succ : (triesReaching attempts decisionId w (r + 1) config).card =
    (triesReaching attempts decisionId w r config).card +
      if config ∈ (attempts r).reachedIn (w.recipients decisionId) then 1 else 0 := by
  unfold triesReaching
  rw [Finset.range_add_one, Finset.filter_insert]
  split
  · rw [Finset.card_insert_of_notMem (by simp)]
  · rfl

/-- What the tries before `r` leave: the tables as they were, and a message from every try that
reached the recipient. -/
structure Notified (attempts : Nat → NotifyAttempt) (decisionId : String) (w : NotifierWorld)
    (r : Nat) (t : NotifierWorld) : Prop where
  decisions : t.decisions = w.decisions
  configs : t.configs = w.configs
  sent : ∀ c ∈ w.recipients decisionId,
    t.sentFor c.id = w.sentFor c.id + (triesReaching attempts decisionId w r c).card

theorem recipients_sublist (w : NotifierWorld) (decisionId : String) :
    (w.recipients decisionId).Sublist w.configs.rows := by
  unfold NotifierWorld.recipients
  split
  · exact List.filter_sublist
  · exact List.nil_sublist _

/-- The ids of the configs are keys: a try sends a recipient one message if it reaches it. -/
theorem countP_messagesTo (attempt : NotifyAttempt)
    (hc : config ∈ w.recipients decisionId) :
    ((attempt.reachedIn (w.recipients decisionId)).map (attempt.messageTo decision)).countP
        (fun m => m.configId = config.id) =
      if config ∈ attempt.reachedIn (w.recipients decisionId) then 1 else 0 := by
  have hids := (recipients_sublist w decisionId).map NotificationConfig.id
    |>.nodup w.configs.keyed
  have hnodup : (attempt.reachedIn (w.recipients decisionId)).Nodup := by
    apply List.Nodup.sublist (List.takeWhile_sublist _)
    exact (attempt.order.perm _).nodup_iff.mpr hids.of_map
  rw [List.countP_map, ← hnodup.count]
  apply List.countP_congr
  intro c hmem
  have hin := mem_of_mem_reachedIn hmem
  have hinj : c.id = config.id ↔ c = config :=
    ⟨fun he => List.inj_on_of_nodup_map hids hin hc he, fun he => congrArg _ he⟩
  rw [beq_iff_eq, ← hinj]
  exact decide_eq_true_iff

/-- One try: the recipients it reaches get one more message, whichever way it ends. -/
theorem Notified.step (hd : w.namedDecision decisionId = some decision)
    (h : Notified attempts decisionId w r t) :
    Ends (notifyWarning (attempts r) decisionId) t
      (fun _ u => ¬SomeRefused attempts decisionId w r ∧ Notified attempts decisionId w (r + 1) u)
      fun _ u => SomeRefused attempts decisionId w r ∧
        Notified attempts decisionId w (r + 1) u := by
  obtain ⟨hrecipients, hnamed⟩ := recipients_congr h.decisions h.configs decisionId
  have sent : ∀ u : NotifierWorld, u.decisions = t.decisions → u.configs = t.configs →
      u.accepted = t.accepted ++ ((attempts r).reachedIn (w.recipients decisionId)).map
        ((attempts r).messageTo decision) → Notified attempts decisionId w (r + 1) u := by
    intro u hdecisions hconfigs haccepted
    refine ⟨hdecisions.trans h.decisions, hconfigs.trans h.configs, ?_⟩
    intro c hc
    have hbefore := h.sent c hc
    unfold NotifierWorld.sentFor at hbefore ⊢
    rw [haccepted, List.countP_append, countP_messagesTo _ hc, card_triesReaching_succ]
    omega
  refine (ends_notifyWarning (hnamed.trans hd)).mono ?_ ?_
  · intro _ u hpost
    obtain ⟨hall, rfl⟩ := hpost
    rw [hrecipients] at hall ⊢
    refine ⟨?_, sent _ rfl rfl rfl⟩
    intro hex
    obtain ⟨c, hc, hrefused⟩ := hex
    simp [hall c hc] at hrefused
  · intro _ u hpost
    obtain ⟨hrefused, rfl⟩ := hpost
    rw [hrecipients] at hrefused ⊢
    exact ⟨hrefused, sent _ rfl rfl rfl⟩

/-- The task ends with the first try that is not refused, or with the last one. -/
theorem runNotifyTask_ends (attempts : Nat → NotifyAttempt)
    (hd : w.namedDecision decisionId = some decision) :
    (∃ m ≤ maxNotifyRetries, (∀ j < m, SomeRefused attempts decisionId w j) ∧
        ¬SomeRefused attempts decisionId w m ∧
        Notified attempts decisionId w (m + 1) (runNotifyTask attempts decisionId w)) ∨
      (∀ j ≤ maxNotifyRetries, SomeRefused attempts decisionId w j) ∧
        Notified attempts decisionId w (maxNotifyRetries + 1)
          (runNotifyTask attempts decisionId w) := by
  apply ends_state_iff (P := fun u => (∃ m ≤ maxNotifyRetries,
      (∀ j < m, SomeRefused attempts decisionId w j) ∧ ¬SomeRefused attempts decisionId w m ∧
        Notified attempts decisionId w (m + 1) u) ∨
      (∀ j ≤ maxNotifyRetries, SomeRefused attempts decisionId w j) ∧
        Notified attempts decisionId w (maxNotifyRetries + 1) u) |>.mp
  apply ends_autoretry (I := fun r t => (∀ j < r, SomeRefused attempts decisionId w j) ∧
    Notified attempts decisionId w r t)
  · refine ⟨fun j hj => absurd hj (Nat.not_lt_zero j), rfl, rfl, ?_⟩
    intro c _
    simp [triesReaching]
  · intro r t _ hr hpost
    obtain ⟨hrefused, ht⟩ := hpost
    refine (ht.step hd).mono ?_ ?_
    · intro _ u hpost
      obtain ⟨haccepted, hu⟩ := hpost
      exact Or.inl ⟨r, by omega, hrefused, haccepted, hu⟩
    · intro _ u hpost
      obtain ⟨hnow, hu⟩ := hpost
      refine ⟨?_, hu⟩
      intro j hj
      rcases Nat.lt_succ_iff_lt_or_eq.mp hj with hlt | rfl
      · exact hrefused j hlt
      · exact hnow
  · rw [Nat.zero_add]
    intro t hboth
    obtain ⟨hrefused, ht⟩ := hboth
    refine (ht.step hd).mono ?_ ?_
    · intro _ u hpost
      obtain ⟨haccepted, hu⟩ := hpost
      exact Or.inl ⟨maxNotifyRetries, Nat.le_refl _, hrefused, haccepted, hu⟩
    · intro _ u hpost
      obtain ⟨hnow, hu⟩ := hpost
      refine Or.inr ⟨?_, hu⟩
      intro j hj
      rcases Nat.lt_or_eq_of_le hj with hlt | rfl
      · exact hrefused j hlt
      · exact hnow

/-- A try breaks off before it reaches anyone if its first recipient is the refused one. -/
theorem SomeRefused.reachedIn_eq_nil_iff (h : SomeRefused attempts decisionId w r) :
    (∀ c ∈ w.recipients decisionId, c ∉ (attempts r).reachedIn (w.recipients decisionId)) ↔
      FirstRefused attempts decisionId w r := by
  obtain ⟨c, hc, hrefused⟩ := h
  have hmem := ((attempts r).order.perm (w.recipients decisionId)).mem_iff (a := c) |>.mpr hc
  have hsub : ∀ x, x ∈ (attempts r).order.arrange (w.recipients decisionId) →
      x ∈ w.recipients decisionId := fun x => ((attempts r).order.perm _).mem_iff.mp
  unfold FirstRefused NotifyAttempt.reachedIn
  cases hrows : (attempts r).order.arrange (w.recipients decisionId) with
  | nil => simp [hrows] at hmem
  | cons first rest =>
    cases hfirst : (attempts r).accepts first with
    | true =>
      have hin := hsub first (by simp [hrows])
      rw [reached_cons_of_accepts hfirst]
      constructor
      · intro hnone
        exact absurd List.mem_cons_self (hnone first hin)
      · intro hex
        obtain ⟨x, hx, hxrefused⟩ := hex
        simp only [List.head?_cons, Option.some.injEq] at hx
        subst hx
        simp [hfirst] at hxrefused
    | false =>
      rw [reached_cons_of_refuses hfirst]
      refine ⟨fun _ => ⟨first, rfl, hfirst⟩, fun _ x _ => List.not_mem_nil⟩

theorem exactlyOnce_iff_of_succeeds (hbefore : ∀ j < m, SomeRefused attempts decisionId w j)
    (hnow : ¬SomeRefused attempts decisionId w m) (h : Notified attempts decisionId w (m + 1) t) :
    ExactlyOnce attempts decisionId w t ↔ ∀ r < m, FirstRefused attempts decisionId w r := by
  have hall : ∀ c ∈ w.recipients decisionId,
      c ∈ (attempts m).reachedIn (w.recipients decisionId) := by
    intro c hc
    unfold NotifyAttempt.reachedIn
    have hmem := ((attempts m).order.perm (w.recipients decisionId)).mem_iff (a := c) |>.mpr hc
    rw [reached_eq_self]
    · exact hmem
    · intro x hx
      by_contra hrefused
      apply hnow
      exact ⟨x, ((attempts m).order.perm _).mem_iff.mp hx, by simpa using hrefused⟩
  have hsent : ∀ c ∈ w.recipients decisionId, t.sentFor c.id =
      w.sentFor c.id + (triesReaching attempts decisionId w m c).card + 1 := by
    intro c hc
    rw [h.sent c hc, card_triesReaching_succ, if_pos (hall c hc)]
    omega
  have hnone : ExactlyOnce attempts decisionId w t ↔
      ∀ c ∈ w.recipients decisionId, (triesReaching attempts decisionId w m c).card = 0 := by
    constructor
    · intro honce c hc
      have hlimit := (honce c hc).1
      rw [hsent c hc] at hlimit
      omega
    · intro hzero c hc
      have hcount := hsent c hc
      rw [hzero c hc] at hcount
      exact ⟨by omega, fun _ => by omega⟩
  rw [hnone]
  constructor
  · intro hzero r hr
    apply (hbefore r hr).reachedIn_eq_nil_iff.mp
    intro c hc hreached
    have hempty := Finset.card_eq_zero.mp (hzero c hc)
    have hin := mem_triesReaching.mpr ⟨hr, hreached⟩
    simp [hempty] at hin
  · intro hfirst c hc
    rw [Finset.card_eq_zero, Finset.eq_empty_iff_forall_notMem]
    intro j hj
    obtain ⟨hlt, hreached⟩ := mem_triesReaching.mp hj
    exact (hbefore j hlt).reachedIn_eq_nil_iff.mpr (hfirst j hlt) c hc hreached

theorem exactlyOnce_iff_of_fails
    (hall : ∀ j ≤ maxNotifyRetries, SomeRefused attempts decisionId w j)
    (h : Notified attempts decisionId w (maxNotifyRetries + 1) t) :
    ExactlyOnce attempts decisionId w t ↔
      (∀ r ≤ maxNotifyRetries, ∀ r' ≤ maxNotifyRetries, ∀ c,
        c ∈ (attempts r).reachedIn (w.recipients decisionId) →
        c ∈ (attempts r').reachedIn (w.recipients decisionId) → r = r') ∧
      ∀ c ∈ w.recipients decisionId, (∀ r ≤ maxNotifyRetries, (attempts r).accepts c = true) →
        ∃ r ≤ maxNotifyRetries, c ∈ (attempts r).reachedIn (w.recipients decisionId) := by
  have hmade : ∀ r ≤ maxNotifyRetries, ∀ j < r, SomeRefused attempts decisionId w j :=
    fun r hr j hj => hall j (by omega)
  constructor
  · intro honce
    constructor
    · intro r hr r' hr' c hc hc'
      have hin := mem_of_mem_reachedIn hc
      have hlimit := (honce c hin).1
      rw [h.sent c hin] at hlimit
      have hcard : (triesReaching attempts decisionId w (maxNotifyRetries + 1) c).card ≤ 1 := by
        omega
      exact Finset.card_le_one.mp hcard r (mem_triesReaching.mpr ⟨by omega, hc⟩) r'
        (mem_triesReaching.mpr ⟨by omega, hc'⟩)
    · intro c hc haccepts
      have hcount := (honce c hc).2 (fun r hr _ => haccepts r hr)
      rw [h.sent c hc] at hcount
      have hpos : 0 < (triesReaching attempts decisionId w (maxNotifyRetries + 1) c).card := by
        omega
      obtain ⟨r, hr⟩ := Finset.card_pos.mp hpos
      obtain ⟨hlt, hreached⟩ := mem_triesReaching.mp hr
      exact ⟨r, by omega, hreached⟩
  · intro hpost c hc
    obtain ⟨hdisjoint, hcover⟩ := hpost
    have hcard : (triesReaching attempts decisionId w (maxNotifyRetries + 1) c).card ≤ 1 := by
      apply Finset.card_le_one.mpr
      intro r hr r' hr'
      obtain ⟨hlt, hreached⟩ := mem_triesReaching.mp hr
      obtain ⟨hlt', hreached'⟩ := mem_triesReaching.mp hr'
      exact hdisjoint r (by omega) r' (by omega) c hreached hreached'
    have hcount := h.sent c hc
    refine ⟨by omega, ?_⟩
    intro haccepts
    obtain ⟨r, hr, hreached⟩ := hcover c hc (fun r hr => haccepts r hr (hmade r hr))
    have hpos : 0 < (triesReaching attempts decisionId w (maxNotifyRetries + 1) c).card :=
      Finset.card_pos.mpr ⟨r, mem_triesReaching.mpr ⟨Nat.lt_succ_of_le hr, hreached⟩⟩
    omega

/-- The task notifies every recipient once exactly under these refusals. -/
theorem exactlyOnce_iff (attempts : Nat → NotifyAttempt) (decisionId : String)
    (w : NotifierWorld) :
    ExactlyOnce attempts decisionId w (runNotifyTask attempts decisionId w) ↔
      OnceEach attempts decisionId w := by
  cases hd : w.namedDecision decisionId with
  | none =>
    have hempty : w.recipients decisionId = [] := by simp [NotifierWorld.recipients, hd]
    constructor
    · intro _
      refine .succeeds (Nat.zero_le _) ?_ (fun r hr => absurd hr (Nat.not_lt_zero r))
      intro hex
      obtain ⟨c, hc, -⟩ := hex
      simp [hempty] at hc
    · intro _ c hc
      simp [hempty] at hc
  | some decision =>
    rcases runNotifyTask_ends attempts hd with ⟨m, hm, hbefore, hnow, h⟩ | ⟨hall, h⟩
    · rw [exactlyOnce_iff_of_succeeds hbefore hnow h]
      constructor
      · exact .succeeds hm hnow
      · intro honce
        cases honce with
        | @succeeds m' hm' hnow' hfirst =>
          have hle : m ≤ m' := by
            by_contra hlt
            exact hnow' (hbefore m' (by omega))
          intro r hr
          exact hfirst r (by omega)
        | fails hall _ _ => exact absurd (hall m hm) hnow
    · rw [exactlyOnce_iff_of_fails hall h]
      constructor
      · intro hboth
        obtain ⟨hdisjoint, hcover⟩ := hboth
        exact .fails hall hdisjoint hcover
      · intro honce
        cases honce with
        | succeeds hm hnow _ => exact absurd (hall _ hm) hnow
        | fails _ hdisjoint hcover => exact ⟨hdisjoint, hcover⟩

end ArgusServices

import ArgusServices.WarningDelivery

namespace ArgusServices

open Effect

/-- The row that tells of a message the provider took. -/
def ProviderMessage.delivery (decision : Decision) (message : ProviderMessage) :
    NotificationDelivery where
  tenantId := decision.tenantId
  decisionId := decision.id
  configId := message.configId
  channel := message.channel
  status := .sent
  providerMessageId := some message.sid
  errorDetail := none

/-- The row that tells of a call the provider refused. -/
def ProviderRefusal.delivery (decision : Decision) (refusal : ProviderRefusal) :
    NotificationDelivery where
  tenantId := decision.tenantId
  decisionId := decision.id
  configId := refusal.configId
  channel := refusal.channel
  status := .failed
  providerMessageId := none
  errorDetail := some refusal.error

/-- The rows added from `w` to `t` are those of the calls made on the way, and no others. -/
def DeliveryLogTrue (decisionId : String) (w t : NotifierWorld) : Prop :=
  ∀ decision, w.namedDecision decisionId = some decision → ∃ added accepted refused,
    t.deliveries = w.deliveries ++ added ∧ t.accepted = w.accepted ++ accepted ∧
      t.refused = w.refused ++ refused ∧
      added.Perm (accepted.map (ProviderMessage.delivery decision) ++
        refused.map (ProviderRefusal.delivery decision))

variable {attempts : Nat → NotifyAttempt} {decisionId : String} {w t : NotifierWorld}
  {decision : Decision}

/-- What a task has left when a try has failed: a call was refused and no row tells of it. -/
structure Unlogged (w t : NotifierWorld) : Prop where
  decisions : t.decisions = w.decisions
  configs : t.configs = w.configs
  deliveries : t.deliveries = w.deliveries
  refused : ∃ refusal rest, t.refused = w.refused ++ refusal :: rest

theorem brokenOffIn_ne_nil {attempt : NotifyAttempt} {configs : List NotificationConfig}
    (h : ∃ c ∈ configs, attempt.accepts c = false) :
    ∃ c rest, attempt.brokenOffIn configs = c :: rest := by
  obtain ⟨c, hc, hrefused⟩ := h
  have hmem := (attempt.order.perm configs).mem_iff.mpr hc
  unfold NotifyAttempt.brokenOffIn NotifyAttempt.brokenOffAt
  cases hdrop : (attempt.order.arrange configs).dropWhile attempt.accepts with
  | nil =>
    have hall := List.dropWhile_eq_nil_iff.mp hdrop c hmem
    simp [hrefused] at hall
  | cons d rest => exact ⟨d, [], by simp⟩

/-- Rows that were all sent do not tell of a refused call. -/
theorem not_deliveryLogTrue {u : NotifierWorld} (hd : w.namedDecision decisionId = some decision)
    (hsent : ∃ added, u.deliveries = w.deliveries ++ added ∧ ∀ d ∈ added, d.status = .sent)
    (hrefused : ∃ refusal rest, u.refused = w.refused ++ refusal :: rest) :
    ¬DeliveryLogTrue decisionId w u := by
  intro h
  obtain ⟨added, accepted, refused, hadded, -, hlog, hperm⟩ := h decision hd
  obtain ⟨added', hadded', hall⟩ := hsent
  obtain ⟨refusal, rest, hrest⟩ := hrefused
  obtain rfl := List.append_cancel_left (hadded.symm.trans hadded')
  obtain rfl := List.append_cancel_left (hlog.symm.trans hrest)
  have hmem : refusal.delivery decision ∈ added := by
    apply hperm.mem_iff.mpr
    simp
  cases hall _ hmem

theorem Unlogged.of_failed {attempt : NotifyAttempt} {configs : List NotificationConfig}
    {messages : List ProviderMessage} (h : t = w ∨ Unlogged w t)
    (hrefused : ∃ c ∈ configs, attempt.accepts c = false) :
    Unlogged w ((t.withAccepted messages).withRefused
      ((attempt.brokenOffIn configs).map attempt.refusal)) := by
  obtain ⟨c, rest, hbroken⟩ := brokenOffIn_ne_nil hrefused
  rw [hbroken]
  rcases h with rfl | h
  · exact ⟨rfl, rfl, rfl, attempt.refusal c, rest.map attempt.refusal, rfl⟩
  · obtain ⟨refusal, others, hlog⟩ := h.refused
    refine ⟨h.decisions, h.configs, h.deliveries, refusal,
      others ++ attempt.refusal c :: rest.map attempt.refusal, ?_⟩
    simp [NotifierWorld.withRefused, NotifierWorld.withAccepted, hlog]

theorem deliveryLogTrue_of_accepted {attempt : NotifyAttempt}
    (hall : ∀ c ∈ w.recipients decisionId, attempt.accepts c = true)
    (hd : w.namedDecision decisionId = some decision) :
    DeliveryLogTrue decisionId w
      { w.withAccepted ((attempt.reachedIn (w.recipients decisionId)).map
          (attempt.messageTo decision)) with
        deliveries := w.deliveries ++ (attempt.order.arrange (w.recipients decisionId)).map
          (attempt.sentDelivery decision) } := by
  intro decision' hd'
  obtain rfl := Option.some.inj (hd.symm.trans hd')
  refine ⟨_, _, [], rfl, rfl, by simp [NotifierWorld.withAccepted], ?_⟩
  have hreached : attempt.reachedIn (w.recipients decisionId) =
      attempt.order.arrange (w.recipients decisionId) := by
    apply reached_eq_self
    intro c hc
    exact hall c ((attempt.order.perm _).mem_iff.mp hc)
  rw [hreached, List.map_nil, List.append_nil, List.map_map]
  exact .refl _

/-- Before a retry the first try has met a refusal, and nothing it did is logged. -/
def Tries (attempts : Nat → NotifyAttempt) (decisionId : String) (w : NotifierWorld) (r : Nat)
    (t : NotifierWorld) : Prop :=
  (r = 0 ∧ t = w) ∨ (SomeRefused attempts decisionId w 0 ∧ Unlogged w t)

/-- One try: it decides whether the log is true, or leaves the next one what it found. -/
theorem Tries.step {r : Nat} (ht : Tries attempts decisionId w r t)
    (hd : w.namedDecision decisionId = some decision) :
    Ends (notifyWarning (attempts r) decisionId) t
      (fun _ u => DeliveryLogTrue decisionId w u ↔
        ∀ c ∈ w.recipients decisionId, (attempts 0).accepts c = true)
      fun _ u => SomeRefused attempts decisionId w 0 ∧ Unlogged w u := by
  have hsame : t.decisions = w.decisions ∧ t.configs = w.configs := by
    rcases ht with ⟨-, rfl⟩ | ⟨-, ht⟩
    · exact ⟨rfl, rfl⟩
    · exact ⟨ht.decisions, ht.configs⟩
  obtain ⟨hrecipients, hnamed⟩ := recipients_congr hsame.1 hsame.2 decisionId
  refine (ends_notifyWarning (hnamed.trans hd)).mono ?_ ?_
  · intro _ u hpost
    obtain ⟨hall, rfl⟩ := hpost
    rw [hrecipients] at hall
    rcases ht with ⟨rfl, rfl⟩ | ⟨⟨c, hc, hrefused⟩, ht⟩
    · exact iff_of_true (deliveryLogTrue_of_accepted hall hd) hall
    · refine iff_of_false (not_deliveryLogTrue hd ⟨_, by rw [ht.deliveries], ?_⟩ ht.refused) ?_
      · intro d hmem
        obtain ⟨c, -, rfl⟩ := List.mem_map.mp hmem
        rfl
      · intro haccepted
        simp [haccepted c hc] at hrefused
  · intro _ u hpost
    obtain ⟨hrefused, rfl⟩ := hpost
    rw [hrecipients] at hrefused ⊢
    rcases ht with ⟨rfl, rfl⟩ | ⟨hfirst, ht⟩
    · exact ⟨hrefused, .of_failed (Or.inl rfl) hrefused⟩
    · exact ⟨hfirst, .of_failed (Or.inr ht) hrefused⟩

/-- The log is true exactly for the tasks whose first try meets no refusal. -/
theorem deliveryLogTrue_iff (attempts : Nat → NotifyAttempt) (decisionId : String)
    (w : NotifierWorld) :
    DeliveryLogTrue decisionId w (runNotifyTask attempts decisionId w) ↔
      ∀ c ∈ w.recipients decisionId, (attempts 0).accepts c = true := by
  cases hd : w.namedDecision decisionId with
  | none =>
    have hempty : w.recipients decisionId = [] := by simp [NotifierWorld.recipients, hd]
    refine iff_of_true (fun decision h => ?_) (by simp [hempty])
    rw [hd] at h
    cases h
  | some decision =>
    apply ends_state_iff (P := fun u => DeliveryLogTrue decisionId w u ↔
      ∀ c ∈ w.recipients decisionId, (attempts 0).accepts c = true) |>.mp
    apply ends_autoretry (I := Tries attempts decisionId w)
    · exact Or.inl ⟨rfl, rfl⟩
    · intro r t _ _ ht
      exact (ht.step hd).mono (fun _ _ hu => hu) (fun _ _ hu => Or.inr hu)
    · intro t ht
      refine (ht.step hd).mono (fun _ _ hu => hu) ?_
      intro _ u hu
      obtain ⟨⟨c, hc, hrefused⟩, hu⟩ := hu
      refine iff_of_false (not_deliveryLogTrue hd ⟨[], by simp [hu.deliveries], by simp⟩
        hu.refused) ?_
      intro haccepted
      simp [haccepted c hc] at hrefused

/-- The provider refuses a call, the retry succeeds, and no row tells of the refusal. -/
theorem not_allDeliveryLogsTrue : ¬∀ attempts decisionId w,
    DeliveryLogTrue decisionId w (runNotifyTask attempts decisionId w) := by
  intro h
  have htrue := h refusedOnce (Uuid.str ⟨20⟩) sampleNotifierWorld
  obtain ⟨d, hd⟩ := Option.isSome_iff_exists.mp
    (by decide +kernel : (sampleNotifierWorld.namedDecision (Uuid.str ⟨20⟩)).isSome = true)
  have hsent : ∀ d ∈ (runNotifyTask refusedOnce (Uuid.str ⟨20⟩) sampleNotifierWorld).deliveries,
      d.status = .sent := by decide +kernel
  have hrefused : (runNotifyTask refusedOnce (Uuid.str ⟨20⟩) sampleNotifierWorld).refused =
      [⟨⟨32⟩, .sms, "outage"⟩] := by decide +kernel
  exact not_deliveryLogTrue hd ⟨_, rfl, hsent⟩ ⟨_, [], hrefused⟩ htrue

end ArgusServices

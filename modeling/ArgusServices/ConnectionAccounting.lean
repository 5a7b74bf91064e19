import ArgusServices.Gateway
import ArgusServices.Transition

namespace ArgusServices

open Transition

/-- The counter of every sub is the number of its registered websockets, within the limit. -/
def Accounted {ω : Type} [DecidableEq ω] (m : ConnectionManager ω) : Prop :=
  ∀ sub, m.subs sub = (m.registered sub).card ∧ (m.registered sub).card ≤ maxConnectionsPerSub

/-- Whatever handlers and broadcasts do, the counters stay right. -/
def ConnectionsAccounted : Prop :=
  ∀ (ω β : Type) (_ : DecidableEq ω) (_ : DecidableEq β) (ls : List (GatewayTurn ω β))
    (g : Gateway ω β), Run GatewayStep (Gateway.initial ω β) ls g →
    Accounted g.toConnectionManager

/-- Two websockets of one sub; a broadcast drops the first, whose handler then ends. -/
def droppedTurns : List (GatewayTurn Bool Unit) :=
  [.connect true ⟨1⟩ "sub" true, .connect false ⟨1⟩ "sub" true,
    .broadcast () (Uuid.str ⟨1⟩) [true, false], .send () false, .send () true, .sweep (),
    .finish true]

theorem run_droppedTurns : ∃ g, Run GatewayStep (Gateway.initial Bool Unit) droppedTurns g ∧
    g.subs "sub" = 0 ∧ g.registered "sub" = {false} := by
  refine ⟨_, .cons (.connect rfl) (.cons (.connect rfl) (.cons (.broadcast rfl (by decide) ?_)
    (.cons (.send rfl) (.cons (.send rfl) (.cons (.sweep rfl) (.cons (.finish ?_) (.nil _))))))),
    ?_, ?_⟩
  · decide +kernel
  · decide +kernel
  · decide +kernel
  · decide +kernel

theorem not_connectionsAccounted : ¬ConnectionsAccounted := by
  intro h
  obtain ⟨g, hrun, hsubs, hregistered⟩ := run_droppedTurns
  have hcount := (h Bool Unit _ _ _ g hrun "sub").1
  rw [hsubs, hregistered] at hcount
  simp at hcount

variable {ω β : Type} [DecidableEq ω] [DecidableEq β] {m : ConnectionManager ω}
  {g g' : Gateway ω β} {l : GatewayTurn ω β} {websocket : ω}

/-- A disconnect that counts: of a registered websocket with a sub, or of one no longer
registered that has no sub or whose counter is at zero. -/
def Accountable (m : ConnectionManager ω) (websocket : ω) : Prop :=
  ∀ st, m.state websocket = some st →
    ((st.tenantId, websocket) ∈ m.rooms → st.sub ≠ "") ∧
    ((st.tenantId, websocket) ∉ m.rooms → st.sub = "" ∨ m.subs st.sub = 0)

def CountedOnce (g : Gateway ω β) : GatewayTurn ω β → Prop
  | .sweep b => ∀ websocket dead, g.broadcasts b = some ⟨[], websocket :: dead⟩ →
      Accountable g.toConnectionManager websocket
  | .finish websocket => Accountable g.toConnectionManager websocket
  | .connect _ _ _ _ | .broadcast _ _ _ | .send _ _ => True

/-- A websocket is registered in the room of its own tenant only. -/
structure Roomed (m : ConnectionManager ω) : Prop where
  state : ∀ tenantId websocket, (tenantId, websocket) ∈ m.rooms →
    ∃ st, m.state websocket = some st ∧ st.tenantId = tenantId
  named : ∀ websocket st, m.state websocket = some st → st.tenantId ≠ ""

theorem Roomed.mem_registered (h : Roomed m) {sub : String} :
    websocket ∈ m.registered sub ↔ ∃ st, m.state websocket = some st ∧ st.sub = sub ∧
      (st.tenantId, websocket) ∈ m.rooms := by
  simp only [ConnectionManager.registered, Finset.mem_image, Finset.mem_filter, Prod.exists,
    exists_eq_right, Option.any_eq_true, decide_eq_true_eq]
  constructor
  · intro hex
    obtain ⟨tenantId, hroom, st, hst, hsub⟩ := hex
    obtain ⟨st', hst', rfl⟩ := h.state tenantId websocket hroom
    obtain rfl := Option.some.inj (hst.symm.trans hst')
    exact ⟨st, hst, hsub, hroom⟩
  · intro hex
    obtain ⟨st, hst, hsub, hroom⟩ := hex
    exact ⟨st.tenantId, hroom, st, hst, hsub⟩

@[simp] theorem disconnect_state : (m.disconnect websocket).state = m.state := by
  unfold ConnectionManager.disconnect
  split <;> rfl

theorem Roomed.mem_disconnect_rooms (h : Roomed m) {tenantId : String} {w : ω} :
    (tenantId, w) ∈ (m.disconnect websocket).rooms ↔
      (tenantId, w) ∈ m.rooms ∧ w ≠ websocket := by
  unfold ConnectionManager.disconnect
  split
  · next hnone =>
    refine ⟨fun hw => ⟨hw, ?_⟩, And.left⟩
    intro heq
    subst heq
    obtain ⟨st, hst, -⟩ := h.state tenantId w hw
    simp [hnone] at hst
  · next room sub hsome =>
    have own : ∀ tenantId, (tenantId, websocket) ∈ m.rooms → tenantId = room := by
      intro tenantId hw
      obtain ⟨st, hst, rfl⟩ := h.state tenantId websocket hw
      obtain rfl := Option.some.inj (hst.symm.trans hsome)
      rfl
    by_cases hroom : (room, websocket) ∈ m.rooms
    · rw [if_pos ⟨h.named websocket _ hsome, hroom⟩, Finset.mem_erase, ne_eq, Prod.mk.injEq]
      constructor
      · intro hboth
        obtain ⟨hne, hw⟩ := hboth
        refine ⟨hw, ?_⟩
        intro heq
        subst heq
        exact hne ⟨own tenantId hw, rfl⟩
      · intro hboth
        obtain ⟨hw, hne⟩ := hboth
        exact ⟨fun he => hne he.2, hw⟩
    · rw [if_neg (fun he => hroom he.2)]
      refine ⟨fun hw => ⟨hw, ?_⟩, And.left⟩
      intro heq
      subst heq
      exact hroom (own tenantId hw ▸ hw)

theorem Roomed.disconnect (h : Roomed m) : Roomed (m.disconnect websocket) := by
  constructor
  · intro tenantId w hw
    rw [disconnect_state]
    exact h.state tenantId w (h.mem_disconnect_rooms.mp hw).1
  · intro w st hst
    rw [disconnect_state] at hst
    exact h.named w st hst

theorem Roomed.registered_disconnect (h : Roomed m) (sub : String) :
    (m.disconnect websocket).registered sub = (m.registered sub).erase websocket := by
  ext w
  simp only [h.disconnect.mem_registered, h.mem_registered, disconnect_state, Finset.mem_erase,
    h.mem_disconnect_rooms]
  constructor
  · intro hex
    obtain ⟨st, hst, hsub, hroom, hne⟩ := hex
    exact ⟨hne, st, hst, hsub, hroom⟩
  · intro hboth
    obtain ⟨hne, st, hst, hsub, hroom⟩ := hboth
    exact ⟨st, hst, hsub, hroom, hne⟩

theorem disconnect_subs (sub : String) : (m.disconnect websocket).subs sub =
    m.subs sub - if sub ≠ "" ∧ (m.state websocket).map WebSocketState.sub = some sub
      then 1 else 0 := by
  unfold ConnectionManager.disconnect
  split
  · next hnone => simp [hnone]
  · next room own hsome =>
    simp only [hsome, Option.map_some, Option.some.injEq]
    by_cases heq : own = sub
    · subst heq
      by_cases hempty : own = ""
      · simp [hempty]
      · by_cases hpos : m.subs own > 0
        · simp [hempty, hpos]
        · simp only [ne_eq, hempty, not_false_eq_true, hpos, and_false, ↓reduceIte, true_and]
          omega
    · have hne : sub ≠ own := fun he => heq he.symm
      split <;> simp [heq, hne]

theorem Roomed.mem_own_registered (h : Roomed m) {st : WebSocketState}
    (hst : m.state websocket = some st) :
    websocket ∈ m.registered st.sub ↔ (st.tenantId, websocket) ∈ m.rooms := by
  rw [h.mem_registered]
  constructor
  · intro hex
    obtain ⟨st', hst', -, hroom⟩ := hex
    obtain rfl := Option.some.inj (hst.symm.trans hst')
    exact hroom
  · intro hroom
    exact ⟨st, hst, rfl, hroom⟩

theorem Roomed.not_mem_registered (h : Roomed m) {sub : String}
    (hne : (m.state websocket).map WebSocketState.sub ≠ some sub) :
    websocket ∉ m.registered sub := by
  intro hmem
  obtain ⟨st, hst, rfl, -⟩ := h.mem_registered.mp hmem
  simp [hst] at hne

theorem Accounted.own_counter_iff (h : Roomed m) (ha : Accounted m) {st : WebSocketState}
    (hst : m.state websocket = some st) :
    (m.disconnect websocket).subs st.sub = ((m.disconnect websocket).registered st.sub).card ↔
      ((st.tenantId, websocket) ∈ m.rooms → st.sub ≠ "") ∧
      ((st.tenantId, websocket) ∉ m.rooms → st.sub = "" ∨ m.subs st.sub = 0) := by
  have hcount := (ha st.sub).1
  have hmem := h.mem_own_registered hst
  rw [disconnect_subs, h.registered_disconnect, hst, Option.map_some]
  by_cases hroom : (st.tenantId, websocket) ∈ m.rooms
  · have hpos := Finset.card_pos.mpr ⟨websocket, hmem.mpr hroom⟩
    rw [Finset.card_erase_of_mem (hmem.mpr hroom)]
    by_cases hempty : st.sub = ""
    · simp only [hempty] at hcount hpos ⊢
      simp [hroom]
      omega
    · simp only [ne_eq, hempty, not_false_eq_true, true_and, hroom, not_true_eq_false,
        ↓reduceIte]
      simp
      omega
  · rw [Finset.erase_eq_of_notMem (fun hw => hroom (hmem.mp hw))]
    by_cases hempty : st.sub = ""
    · simp only [hempty] at hcount ⊢
      simp [hroom]
      exact hcount
    · simp only [ne_eq, hempty, not_false_eq_true, true_and, hroom, ↓reduceIte]
      simp
      omega

theorem Accounted.other_counter (h : Roomed m) (ha : Accounted m) {sub : String}
    (hne : (m.state websocket).map WebSocketState.sub ≠ some sub) :
    (m.disconnect websocket).subs sub = ((m.disconnect websocket).registered sub).card := by
  rw [disconnect_subs, if_neg (fun he => hne he.2), h.registered_disconnect,
    Finset.erase_eq_of_notMem (h.not_mem_registered hne), Nat.sub_zero]
  exact (ha sub).1

theorem Accounted.disconnect_iff (h : Roomed m) (ha : Accounted m) :
    Accounted (m.disconnect websocket) ↔ Accountable m websocket := by
  constructor
  · intro hd st hst
    exact (Accounted.own_counter_iff h ha hst).mp (hd st.sub).1
  · intro hacc sub
    have hlimit : ((m.disconnect websocket).registered sub).card ≤ maxConnectionsPerSub := by
      rw [h.registered_disconnect]
      exact Finset.card_erase_le.trans (ha sub).2
    refine ⟨?_, hlimit⟩
    by_cases hsub : (m.state websocket).map WebSocketState.sub = some sub
    · obtain ⟨st, hst, rfl⟩ := Option.map_eq_some_iff.mp hsub
      exact (Accounted.own_counter_iff h ha hst).mpr (hacc st hst)
    · exact Accounted.other_counter h ha hsub

theorem connect_cases (m : ConnectionManager ω) (websocket : ω) (tenantId sub : String)
    (accepts : Bool) :
    (m.connect websocket tenantId sub accepts).2 = m ∨
      m.subs sub < maxConnectionsPerSub ∧
        (m.connect websocket tenantId sub accepts).2 = m.register websocket tenantId sub := by
  unfold ConnectionManager.connect
  split
  · exact Or.inl rfl
  · next hfree =>
    split
    · exact Or.inr ⟨by omega, rfl⟩
    · exact Or.inl rfl

theorem register_state_self (tenantId sub : String) :
    (m.register websocket tenantId sub).state websocket = some ⟨tenantId, sub⟩ :=
  Function.update_self ..

theorem register_state_of_ne {w : ω} (hw : w ≠ websocket) (tenantId sub : String) :
    (m.register websocket tenantId sub).state w = m.state w :=
  Function.update_of_ne hw ..

theorem mem_register_rooms {w : ω} {t tenantId sub : String} :
    (t, w) ∈ (m.register websocket tenantId sub).rooms ↔
      t = tenantId ∧ w = websocket ∨ (t, w) ∈ m.rooms := by
  simp [ConnectionManager.register]

theorem Roomed.register (h : Roomed m) (hfresh : m.state websocket = none) {tenantId : String}
    (hname : tenantId ≠ "") (sub : String) : Roomed (m.register websocket tenantId sub) := by
  constructor
  · intro t w hw
    rcases mem_register_rooms.mp hw with ⟨rfl, rfl⟩ | hold
    · exact ⟨_, register_state_self .., rfl⟩
    · obtain ⟨st, hst, ht⟩ := h.state t w hold
      have hne : w ≠ websocket := by
        intro he
        rw [he, hfresh] at hst
        simp at hst
      exact ⟨st, (register_state_of_ne hne ..).trans hst, ht⟩
  · intro w st hst
    by_cases hw : w = websocket
    · rw [hw, register_state_self] at hst
      cases hst
      exact hname
    · rw [register_state_of_ne hw] at hst
      exact h.named w st hst

theorem Roomed.registered_register (h : Roomed m) (hfresh : m.state websocket = none)
    {tenantId sub : String} (hname : tenantId ≠ "") (s : String) :
    (m.register websocket tenantId sub).registered s =
      if s = sub then insert websocket (m.registered s) else m.registered s := by
  ext w
  rw [(h.register hfresh hname sub).mem_registered]
  by_cases hw : w = websocket
  · subst hw
    have hout : w ∉ m.registered s := h.not_mem_registered (by simp [hfresh])
    by_cases hs : s = sub
    · simp [register_state_self, mem_register_rooms, hs]
    · have hne : sub ≠ s := fun he => hs he.symm
      simp [register_state_self, hs, hne, hout]
  · have hold : w ∈ m.registered s ↔ ∃ st, m.state w = some st ∧ st.sub = s ∧
        (st.tenantId, w) ∈ (m.register websocket tenantId sub).rooms := by
      simp [h.mem_registered, mem_register_rooms, hw]
    rw [register_state_of_ne hw, ← hold]
    split <;> simp [hw]

theorem Roomed.connect (h : Roomed m) (hfresh : m.state websocket = none) {tenantId : String}
    (hname : tenantId ≠ "") (sub : String) (accepts : Bool) :
    Roomed (m.connect websocket tenantId sub accepts).2 := by
  rcases connect_cases m websocket tenantId sub accepts with hsame | ⟨-, hnew⟩
  · exact hsame.symm ▸ h
  · exact hnew.symm ▸ h.register hfresh hname sub

theorem Accounted.connect (h : Roomed m) (ha : Accounted m) (hfresh : m.state websocket = none)
    {tenantId : String} (hname : tenantId ≠ "") (sub : String) (accepts : Bool) :
    Accounted (m.connect websocket tenantId sub accepts).2 := by
  rcases connect_cases m websocket tenantId sub accepts with hsame | ⟨hfree, hnew⟩
  · exact hsame.symm ▸ ha
  · rw [hnew]
    intro s
    have hcount := ha s
    rw [h.registered_register hfresh hname]
    by_cases hs : s = sub
    · subst hs
      have hout : websocket ∉ m.registered s := h.not_mem_registered (by simp [hfresh])
      rw [if_pos rfl, Finset.card_insert_of_notMem hout]
      simp only [ConnectionManager.register, Function.update_self]
      omega
    · rw [if_neg hs]
      simp only [ConnectionManager.register, Function.update_of_ne hs]
      exact hcount

/-- What every run keeps: only a websocket `connect` was called for carries a state. -/
structure Tracked (g : Gateway ω β) : Prop where
  roomed : Roomed g.toConnectionManager
  called : ∀ websocket st, g.state websocket = some st → g.called websocket = true

omit [DecidableEq ω] [DecidableEq β] in
theorem Tracked.fresh (h : Tracked g) (hcall : g.called websocket = false) :
    g.state websocket = none := by
  cases hst : g.state websocket with
  | none => rfl
  | some st =>
    have := h.called websocket st hst
    simp [hcall] at this

omit [DecidableEq ω] [DecidableEq β] in
theorem Tracked.initial : Tracked (Gateway.initial ω β) where
  roomed := ⟨by simp [Gateway.initial], by simp [Gateway.initial]⟩
  called := by simp [Gateway.initial]

omit [DecidableEq β] in
theorem Accounted.initial : Accounted (Gateway.initial ω β).toConnectionManager := by
  intro sub
  simp [Gateway.initial, ConnectionManager.registered]

theorem Tracked.step (h : Tracked g) (hs : GatewayStep g l g') : Tracked g' := by
  cases hs with
  | @connect websocket tenantId sub accepts hcall =>
    have hfresh := h.fresh hcall
    refine ⟨h.roomed.connect hfresh (Uuid.str_ne_empty tenantId) sub accepts, ?_⟩
    intro w st hst
    dsimp only at hst ⊢
    by_cases hw : w = websocket
    · subst hw
      exact Function.update_self ..
    · rw [Function.update_of_ne hw]
      rcases connect_cases g.toConnectionManager websocket tenantId.str sub accepts with
        hsame | ⟨-, hnew⟩
      · exact h.called w st (hsame ▸ hst)
      · simp only [hnew, register_state_of_ne hw] at hst
        exact h.called w st hst
  | broadcast _ _ _ => exact ⟨h.roomed, h.called⟩
  | send _ => exact ⟨h.roomed, h.called⟩
  | sweep _ =>
    refine ⟨h.roomed.disconnect, ?_⟩
    intro w st hst
    exact h.called w st (disconnect_state (m := g.toConnectionManager) ▸ hst)
  | finish _ =>
    refine ⟨h.roomed.disconnect, ?_⟩
    intro w st hst
    exact h.called w st (disconnect_state (m := g.toConnectionManager) ▸ hst)

/-- One step: the account stays right exactly when a disconnect of the step counts. -/
theorem Accounted.step_iff (h : Tracked g) (ha : Accounted g.toConnectionManager)
    (hs : GatewayStep g l g') : Accounted g'.toConnectionManager ↔ CountedOnce g l := by
  cases hs with
  | connect hcall =>
    refine ⟨fun _ => trivial, ?_⟩
    intro _
    exact Accounted.connect h.roomed ha (h.fresh hcall) (Uuid.str_ne_empty _) _ _
  | broadcast _ _ _ => exact ⟨fun _ => trivial, fun _ => ha⟩
  | send _ => exact ⟨fun _ => trivial, fun _ => ha⟩
  | @sweep b websocket dead hb =>
    refine (Accounted.disconnect_iff h.roomed ha).trans ?_
    constructor
    · intro hacc w ws hw
      rw [hb] at hw
      simp only [Option.some.injEq, Broadcast.mk.injEq, List.cons.injEq] at hw
      obtain ⟨-, rfl, -⟩ := hw
      exact hacc
    · intro hacc
      exact hacc websocket dead hb
  | finish _ => exact Accounted.disconnect_iff h.roomed ha

/-- The counters are right at the start, and the runs that keep them right throughout are those
in which every disconnect counts. -/
theorem accounted_iff_countedOnce (ls : List (GatewayTurn ω β)) (g : Gateway ω β) :
    Accounted (Gateway.initial ω β).toConnectionManager ∧
      (Run (Into (fun g => Accounted g.toConnectionManager) GatewayStep) (Gateway.initial ω β) ls
          g ↔
        Run (Where CountedOnce GatewayStep) (Gateway.initial ω β) ls g) := by
  refine ⟨Accounted.initial, ?_⟩
  apply Run.into_iff_where (I := Tracked) _ _ Tracked.initial Accounted.initial
  · intro g l g' h hs
    exact h.step hs
  · intro g l g' h ha hs
    exact Accounted.step_iff h ha hs

end ArgusServices

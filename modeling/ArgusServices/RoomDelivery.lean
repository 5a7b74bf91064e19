import ArgusServices.ConnectionAccounting
import ArgusServices.Token

namespace ArgusServices

open Transition

/-- The arguments of a call of `publish_ws_event`, and the time it takes for its envelope. -/
structure WsEvent (π : Type) where
  tenantId : Uuid
  eventType : String
  payload : π
  timestamp : String
  deriving DecidableEq, Repr

structure Envelope (π : Type) where
  type : String
  tenantId : String
  timestamp : String
  payload : π
  deriving DecidableEq, Repr

structure PubSubMessage (π : Type) where
  channel : String
  data : Envelope π
  deriving DecidableEq, Repr

/-- `WS_ROOM_CHANNEL.format(...)`. -/
def wsRoomChannel (tenantId : Uuid) : String :=
  "ws:room:" ++ tenantId.str

def publishWsEvent {π : Type} (event : WsEvent π) : PubSubMessage π where
  channel := wsRoomChannel event.tenantId
  data := {
    type := event.eventType
    tenantId := event.tenantId.str
    timestamp := event.timestamp
    payload := event.payload }

/-- `text.rsplit(sep, 1)[-1]`. -/
def rsplitLast (sep : Char) (text : String) : String :=
  String.ofList (text.toList.reverse.takeWhile (· ≠ sep)).reverse

/-- The room `run_pubsub_listener` forwards a message to. -/
def PubSubMessage.room {π : Type} (message : PubSubMessage π) : String :=
  rsplitLast ':' message.channel

inductive SendOutcome
  | notConnected | raised | sent
  deriving DecidableEq, Repr

def sendOutcome (connected returns : Bool) : SendOutcome :=
  if connected then if returns then .sent else .raised else .notConnected

/-- What a broadcast did about one websocket of its snapshot: whether it found it in the state
CONNECTED, and whether its `send_text` would return. -/
structure Attempt (ω π : Type) where
  message : Nat
  websocket : ω
  envelope : Envelope π
  connected : Bool
  returns : Bool
  deriving DecidableEq, Repr

def Attempt.outcome {ω π : Type} (attempt : Attempt ω π) : SendOutcome :=
  sendOutcome attempt.connected attempt.returns

/-- The gateway with who has authenticated on a websocket and which are in the state CONNECTED, the
events that wait at the subscription, those the listener has taken (the number of an event is that
of its broadcast), and what the broadcasts have done. -/
structure PubSub (ω π : Type) extends Gateway ω Nat where
  auth : ω → Option AuthContext
  connected : ω → Bool
  waiting : List (WsEvent π)
  forwarded : List (WsEvent π)
  attempts : List (Attempt ω π)

def PubSub.initial (ω π : Type) : PubSub ω π where
  toGateway := Gateway.initial ω Nat
  auth := fun _ => none
  connected := fun _ => false
  waiting := []
  forwarded := []
  attempts := []

def PubSub.attemptsOf {ω π : Type} (s : PubSub ω π) (n : Nat) : List (Attempt ω π) :=
  s.attempts.filter fun a => a.message = n

def Broadcast.ended {ω : Type} (broadcast : Broadcast ω) : Bool :=
  broadcast.pending.isEmpty && broadcast.dead.isEmpty

inductive PubSubTurn (ω π : Type)
  | connect (websocket : ω) (token cookie : Option String) (accepts : Bool)
  | leave (websocket : ω)
  | publish (event : WsEvent π)
  | forward (snapshot : List ω)
  | send (n : Nat) (returns : Bool)
  | sweep (n : Nat)
  | finish (websocket : ω)

variable {ω π : Type} [DecidableEq ω]

/-- The turns of the handlers, the publishers and the listener. The listener takes a message when
its broadcast of the one before has ended. -/
inductive PubSubStep (validateJwt : String → Option Claims) :
    PubSub ω π → PubSubTurn ω π → PubSub ω π → Prop
  | connect {s : PubSub ω π} {websocket : ω} {token cookie : Option String} {accepts : Bool}
      {auth : AuthContext} {tenantId : Uuid} {g : Gateway ω Nat} :
      triageWebsocket validateJwt token cookie = .ok (.connect auth tenantId) →
      GatewayStep s.toGateway (.connect websocket tenantId auth.sub accepts) g →
      PubSubStep validateJwt s (.connect websocket token cookie accepts)
        { s with
          toGateway := g
          auth := Function.update s.auth websocket (some auth)
          connected := Function.update s.connected websocket (g.serving websocket) }
  | leave {s : PubSub ω π} {websocket : ω} :
      PubSubStep validateJwt s (.leave websocket)
        { s with connected := Function.update s.connected websocket false }
  | publish {s : PubSub ω π} {event : WsEvent π} :
      PubSubStep validateJwt s (.publish event) { s with waiting := s.waiting ++ [event] }
  | forward {s : PubSub ω π} {event : WsEvent π} {waiting : List (WsEvent π)}
      {snapshot : List ω} {g : Gateway ω Nat} : s.waiting = event :: waiting →
      (∀ n broadcast, s.broadcasts n = some broadcast → broadcast.ended = true) →
      GatewayStep s.toGateway
        (.broadcast s.forwarded.length (publishWsEvent event).room snapshot) g →
      PubSubStep validateJwt s (.forward snapshot)
        { s with
          toGateway := g
          waiting := waiting
          forwarded := s.forwarded ++ [event] }
  | send {s : PubSub ω π} {n : Nat} {returns : Bool} {event : WsEvent π} {websocket : ω}
      {pending dead : List ω} {g : Gateway ω Nat} : s.forwarded[n]? = some event →
      s.broadcasts n = some ⟨websocket :: pending, dead⟩ →
      GatewayStep s.toGateway (.send n (s.connected websocket && returns)) g →
      PubSubStep validateJwt s (.send n returns)
        { s with
          toGateway := g
          attempts := s.attempts ++ [⟨n, websocket, (publishWsEvent event).data,
            s.connected websocket, returns⟩] }
  | sweep {s : PubSub ω π} {n : Nat} {g : Gateway ω Nat} :
      GatewayStep s.toGateway (.sweep n) g →
      PubSubStep validateJwt s (.sweep n) { s with toGateway := g }
  | finish {s : PubSub ω π} {websocket : ω} {g : Gateway ω Nat} :
      GatewayStep s.toGateway (.finish websocket) g →
      PubSubStep validateJwt s (.finish websocket) { s with toGateway := g }

/-- The listener finds the tenant a message was published for. -/
theorem room_publishWsEvent (event : WsEvent π) :
    (publishWsEvent event).room = event.tenantId.str := by
  have hchars : ∀ c ∈ event.tenantId.chars.reverse, decide (c ≠ ':') = true := by
    intro c hc
    exact decide_eq_true (Uuid.ne_of_mem_chars (by decide) (by decide) (List.mem_reverse.mp hc))
  have htext : (wsRoomChannel event.tenantId).toList.reverse =
      event.tenantId.chars.reverse ++ ':' :: "ws:room".toList.reverse := by
    simp [wsRoomChannel, Uuid.str_toList]
  simp only [PubSubMessage.room, publishWsEvent, rsplitLast, htext]
  rw [List.takeWhile_append_of_pos hchars]
  simp [Uuid.str]

section

variable {β : Type} [DecidableEq β] {g g' : Gateway ω β} {turn : GatewayTurn ω β} {w : ω}
  {room : String}

theorem GatewayStep.called (hs : GatewayStep g turn g') (h : g.called w = true) :
    g'.called w = true := by
  cases hs with
  | @connect websocket _ _ _ hcall =>
    have hne : w ≠ websocket := by
      intro heq
      rw [heq, hcall] at h
      cases h
    exact (Function.update_of_ne hne _ _).trans h
  | _ => exact h

/-- A websocket that was connected once comes into no room again. -/
theorem GatewayStep.rooms (hs : GatewayStep g turn g') (ht : Tracked g)
    (hcalled : g.called w = true) (h : (room, w) ∈ g'.rooms) : (room, w) ∈ g.rooms := by
  cases hs with
  | @connect websocket tenantId sub accepts hcall =>
    rcases connect_cases g.toConnectionManager websocket tenantId.str sub accepts with
      hsame | ⟨-, hnew⟩
    · exact hsame ▸ h
    · dsimp only at h
      rw [hnew] at h
      rcases mem_register_rooms.mp h with ⟨-, rfl⟩ | hold
      · rw [hcall] at hcalled
        cases hcalled
      · exact hold
  | broadcast _ _ _ => exact h
  | send _ => exact h
  | sweep _ => exact (ht.roomed.mem_disconnect_rooms.mp h).1
  | finish _ => exact (ht.roomed.mem_disconnect_rooms.mp h).1

end

variable {validateJwt : String → Option Claims} {s t : PubSub ω π} {turn : PubSubTurn ω π}

theorem PubSubStep.gateway (h : PubSubStep validateJwt s turn t) :
    t.toGateway = s.toGateway ∨ ∃ l, GatewayStep s.toGateway l t.toGateway := by
  cases h with
  | leave => exact Or.inl rfl
  | publish => exact Or.inl rfl
  | connect _ hs => exact Or.inr ⟨_, hs⟩
  | forward _ _ hs => exact Or.inr ⟨_, hs⟩
  | send _ _ hs => exact Or.inr ⟨_, hs⟩
  | sweep hs => exact Or.inr ⟨_, hs⟩
  | finish hs => exact Or.inr ⟨_, hs⟩

theorem PubSubStep.called (h : PubSubStep validateJwt s turn t) {w : ω}
    (hw : s.called w = true) : t.called w = true := by
  rcases h.gateway with hsame | ⟨l, hs⟩
  · exact hsame ▸ hw
  · exact hs.called hw

/-- Who is on a websocket is settled when it connects. -/
theorem PubSubStep.auth (h : PubSubStep validateJwt s turn t) {w : ω}
    (hw : s.called w = true) : t.auth w = s.auth w := by
  cases h with
  | @connect websocket _ _ _ _ _ _ _ hs =>
    cases hs with
    | connect hcall =>
      refine Function.update_of_ne ?_ _ _
      intro heq
      rw [heq, hcall] at hw
      cases hw
  | _ => rfl

/-- What the runs keep: a websocket is in the room of the tenant it has authenticated for, and the
numbers of the events to come are free. -/
structure Roomy (s : PubSub ω π) : Prop where
  tracked : Tracked s.toGateway
  member : ∀ room w, (room, w) ∈ s.rooms → s.called w = true ∧
    ∃ auth tenantId, s.auth w = some auth ∧ auth.tenantId = some tenantId ∧ tenantId.str = room
  fresh : ∀ n, s.forwarded.length ≤ n → s.broadcasts n = none ∧ s.attemptsOf n = []

omit [DecidableEq ω] in
theorem Roomy.initial : Roomy (PubSub.initial ω π) where
  tracked := Tracked.initial
  member := by
    intro room w hw
    simp [PubSub.initial, Gateway.initial] at hw
  fresh := fun _ _ => ⟨rfl, rfl⟩

theorem PubSubStep.tracked (h : PubSubStep validateJwt s turn t) (ht : Tracked s.toGateway) :
    Tracked t.toGateway := by
  rcases h.gateway with hsame | ⟨l, hs⟩
  · exact hsame ▸ ht
  · exact ht.step hs

theorem PubSubStep.rooms (h : PubSubStep validateJwt s turn t) (ht : Tracked s.toGateway)
    {room : String} {w : ω} (hw : s.called w = true) (hroom : (room, w) ∈ t.rooms) :
    (room, w) ∈ s.rooms := by
  rcases h.gateway with hsame | ⟨l, hs⟩
  · exact hsame ▸ hroom
  · exact hs.rooms ht hw hroom

/-- A websocket in a room was there before, or its handler has just connected it. -/
theorem PubSubStep.joined (h : PubSubStep validateJwt s turn t) (ht : Tracked s.toGateway)
    {room : String} {w : ω} (hroom : (room, w) ∈ t.rooms) :
    (room, w) ∈ s.rooms ∨ t.called w = true ∧
      ∃ auth tenantId, t.auth w = some auth ∧ auth.tenantId = some tenantId ∧
        tenantId.str = room := by
  cases h with
  | leave => exact Or.inl hroom
  | publish => exact Or.inl hroom
  | @connect websocket _ _ accepts auth tenantId _ hauth hs =>
    cases hs with
    | connect hcall =>
      dsimp only at hroom ⊢
      rcases connect_cases s.toConnectionManager websocket tenantId.str auth.sub accepts with
        hsame | ⟨-, hnew⟩
      · exact Or.inl (hsame ▸ hroom)
      · rw [hnew] at hroom
        rcases mem_register_rooms.mp hroom with ⟨rfl, rfl⟩ | hold
        · exact Or.inr ⟨Function.update_self .., auth, tenantId, Function.update_self ..,
            triageWebsocket_connect hauth, rfl⟩
        · exact Or.inl hold
  | forward _ _ hs =>
    cases hs with
    | broadcast _ _ _ => exact Or.inl hroom
  | send _ _ hs =>
    cases hs with
    | send _ => exact Or.inl hroom
  | sweep hs =>
    cases hs with
    | sweep _ => exact Or.inl (ht.roomed.mem_disconnect_rooms.mp hroom).1
  | finish hs =>
    cases hs with
    | finish _ => exact Or.inl (ht.roomed.mem_disconnect_rooms.mp hroom).1

/-- What a turn does to the broadcast of one event. -/
inductive BroadcastTurn (n : Nat) (s t : PubSub ω π) : Prop
  | kept : t.broadcasts n = s.broadcasts n → t.attemptsOf n = s.attemptsOf n →
      (t.forwarded = s.forwarded ∨ ∃ event, t.forwarded = s.forwarded ++ [event] ∧
        n ≠ s.forwarded.length) → BroadcastTurn n s t
  | started {event : WsEvent π} {snapshot : List ω} : n = s.forwarded.length →
      t.forwarded = s.forwarded ++ [event] → snapshot.Nodup →
      (∀ w, w ∈ snapshot ↔ (event.tenantId.str, w) ∈ s.rooms) →
      t.broadcasts n = some ⟨snapshot, []⟩ → t.attemptsOf n = s.attemptsOf n →
      BroadcastTurn n s t
  | tried {event : WsEvent π} {w : ω} {pending dead : List ω} {connected returns : Bool} :
      t.forwarded = s.forwarded → s.forwarded[n]? = some event →
      s.broadcasts n = some ⟨w :: pending, dead⟩ →
      t.broadcasts n = some ⟨pending,
        if sendOutcome connected returns = .sent then dead else dead ++ [w]⟩ →
      t.attemptsOf n = s.attemptsOf n ++
        [⟨n, w, (publishWsEvent event).data, connected, returns⟩] →
      BroadcastTurn n s t
  | swept {w : ω} {dead : List ω} : t.forwarded = s.forwarded →
      s.broadcasts n = some ⟨[], w :: dead⟩ → t.broadcasts n = some ⟨[], dead⟩ →
      (∀ room, (room, w) ∉ t.rooms) → t.attemptsOf n = s.attemptsOf n → BroadcastTurn n s t

theorem sendOutcome_eq_sent {connected returns : Bool} :
    sendOutcome connected returns = .sent ↔ (connected && returns) = true := by
  cases connected <;> cases returns <;> decide

theorem PubSubStep.broadcastTurn (h : PubSubStep validateJwt s turn t)
    (ht : Tracked s.toGateway) (n : Nat) : BroadcastTurn n s t := by
  cases h with
  | leave => exact .kept rfl rfl (Or.inl rfl)
  | publish => exact .kept rfl rfl (Or.inl rfl)
  | connect _ hs =>
    cases hs with
    | connect _ => exact .kept rfl rfl (Or.inl rfl)
  | @forward event waiting snapshot _ _ _ hs =>
    cases hs with
    | broadcast _ hnodup hsnapshot =>
      rw [room_publishWsEvent] at hsnapshot
      by_cases hn : n = s.forwarded.length
      · subst hn
        exact .started rfl rfl hnodup hsnapshot (Function.update_self ..) rfl
      · exact .kept (Function.update_of_ne hn _ _) rfl (Or.inr ⟨event, rfl, hn⟩)
  | @send m returns event websocket pending dead _ hevent hb hs =>
    cases hs with
    | @send _ _ websocket' pending' dead' hb' =>
      rw [hb] at hb'
      cases hb'
      by_cases hn : n = m
      · subst hn
        let attempt : Attempt ω π := ⟨n, websocket, (publishWsEvent event).data,
          s.connected websocket, returns⟩
        have ha : (s.attempts ++ [attempt]).filter (fun a => a.message = n) =
            s.attemptsOf n ++ [attempt] := by simp [PubSub.attemptsOf, attempt]
        refine .tried rfl hevent hb ?_ ha
        simp only [sendOutcome_eq_sent]
        exact Function.update_self ..
      · refine .kept (Function.update_of_ne hn _ _) ?_ (Or.inl rfl)
        have hne : m ≠ n := fun heq => hn heq.symm
        simp [PubSub.attemptsOf, hne]
  | @sweep m _ hs =>
    cases hs with
    | @sweep _ websocket dead hb =>
      by_cases hn : n = m
      · subst hn
        refine .swept rfl hb (Function.update_self ..) ?_ rfl
        intro room hroom
        exact (ht.roomed.mem_disconnect_rooms.mp hroom).2 rfl
      · exact .kept (Function.update_of_ne hn _ _) rfl (Or.inl rfl)
  | finish hs =>
    cases hs with
    | finish _ => exact .kept rfl rfl (Or.inl rfl)

theorem Roomy.step (h : Roomy s) (hs : PubSubStep validateJwt s turn t) : Roomy t where
  tracked := hs.tracked h.tracked
  member := by
    intro room w hw
    rcases hs.joined h.tracked hw with hold | hnew
    · obtain ⟨hcalled, auth, tenantId, hauth, hrest⟩ := h.member room w hold
      exact ⟨hs.called hcalled, auth, tenantId, (hs.auth hcalled).trans hauth, hrest⟩
    · exact hnew
  fresh := by
    intro n hn
    cases hs.broadcastTurn h.tracked n with
    | kept hb ha hf =>
      have hle : s.forwarded.length ≤ n := by
        rcases hf with hf | ⟨event, hf, -⟩
        · exact hf ▸ hn
        · rw [hf, List.length_append] at hn
          omega
      rw [hb, ha]
      exact h.fresh n hle
    | started hlen hf =>
      rw [hf, List.length_append, List.length_singleton] at hn
      omega
    | tried hf hevent =>
      rw [hf] at hn
      rw [List.getElem?_eq_none hn] at hevent
      cases hevent
    | swept hf hb =>
      rw [hf] at hn
      rw [(h.fresh n hn).1] at hb
      cases hb

/-- The broadcast of an event, from its snapshot on: it has tried the first of the websockets, the
others are pending, and who did not get the message is dead or out of the room. -/
structure Forwarding (n : Nat) (event : WsEvent π) (snapshot : List ω) (s : PubSub ω π) : Prop where
  taken : s.forwarded[n]? = some event
  nodup : snapshot.Nodup
  members : ∀ w ∈ snapshot, s.called w = true ∧
    ∃ auth, s.auth w = some auth ∧ auth.tenantId = some event.tenantId
  progress : ∃ pending dead, s.broadcasts n = some ⟨pending, dead⟩ ∧
    (s.attemptsOf n).map Attempt.websocket ++ pending = snapshot ∧
    ∀ a ∈ s.attemptsOf n, a.envelope = (publishWsEvent event).data ∧
      (a.outcome = .sent ∨ a.websocket ∈ dead ∨ (event.tenantId.str, a.websocket) ∉ s.rooms)

theorem PubSubStep.taken (h : PubSubStep validateJwt s turn t) (ht : Tracked s.toGateway)
    {n : Nat} {event : WsEvent π} (hn : s.forwarded[n]? = some event) :
    t.forwarded[n]? = some event := by
  have hlt : n < s.forwarded.length := (List.getElem?_eq_some_iff.mp hn).1
  cases h.broadcastTurn ht n with
  | kept _ _ hf =>
    rcases hf with hf | ⟨_, hf, -⟩
    · rw [hf, hn]
    · rw [hf, List.getElem?_append_left hlt, hn]
  | started hlen => omega
  | tried hf => rw [hf, hn]
  | swept hf => rw [hf, hn]

theorem Forwarding.start {n : Nat} {event : WsEvent π} {snapshot : List ω} (hr : Roomy s)
    (hs : PubSubStep validateJwt s turn t) (hn : n = s.forwarded.length)
    (hf : t.forwarded = s.forwarded ++ [event]) (hnodup : snapshot.Nodup)
    (hsnapshot : ∀ w, w ∈ snapshot ↔ (event.tenantId.str, w) ∈ s.rooms)
    (hb : t.broadcasts n = some ⟨snapshot, []⟩) (ha : t.attemptsOf n = s.attemptsOf n) :
    Forwarding n event snapshot t where
  taken := by rw [hf, hn, List.getElem?_concat_length]
  nodup := hnodup
  members := by
    intro w hw
    obtain ⟨hcalled, auth, tenantId, hauth, hten, hstr⟩ := hr.member _ w ((hsnapshot w).mp hw)
    obtain rfl := Uuid.str_injective hstr
    exact ⟨hs.called hcalled, auth, (hs.auth hcalled).trans hauth, hten⟩
  progress := by
    have hnone : t.attemptsOf n = [] := ha.trans (hr.fresh n hn.ge).2
    refine ⟨snapshot, [], hb, by rw [hnone]; rfl, ?_⟩
    intro a ha
    rw [hnone] at ha
    cases ha

omit [DecidableEq ω] in
theorem Forwarding.tried {n : Nat} {event : WsEvent π} {snapshot : List ω}
    (h : Forwarding n event snapshot s) {a : Attempt ω π} (ha : a ∈ s.attemptsOf n) :
    a.websocket ∈ snapshot := by
  obtain ⟨pending, dead, -, hall, -⟩ := h.progress
  rw [← hall]
  exact List.mem_append_left _ (List.mem_map_of_mem ha)

/-- Who got no message stays dead or out of the room, as long as the dead do. -/
theorem Forwarding.fate {n : Nat} {event : WsEvent π} {snapshot : List ω}
    (h : Forwarding n event snapshot s) (hr : Roomy s) (hs : PubSubStep validateJwt s turn t)
    {pending dead dead' : List ω} (hb : s.broadcasts n = some ⟨pending, dead⟩)
    (hdead : ∀ w ∈ dead, w ∈ dead' ∨ (event.tenantId.str, w) ∉ t.rooms)
    {a : Attempt ω π} (ha : a ∈ s.attemptsOf n) : a.envelope = (publishWsEvent event).data ∧
      (a.outcome = .sent ∨ a.websocket ∈ dead' ∨ (event.tenantId.str, a.websocket) ∉ t.rooms) := by
  obtain ⟨pending', dead'', hb', -, htried⟩ := h.progress
  rw [hb] at hb'
  cases hb'
  obtain ⟨henvelope, hfate⟩ := htried a ha
  refine ⟨henvelope, hfate.imp_right ?_⟩
  intro hfate
  rcases hfate with hgone | hout
  · exact hdead _ hgone
  · refine Or.inr fun hroom => hout ?_
    exact hs.rooms hr.tracked (h.members _ (h.tried ha)).1 hroom

/-- A turn takes the broadcast on, or leaves it where it is. -/
theorem Forwarding.step {n : Nat} {event : WsEvent π} {snapshot : List ω}
    (h : Forwarding n event snapshot s) (hr : Roomy s) (hs : PubSubStep validateJwt s turn t) :
    Forwarding n event snapshot t where
  taken := hs.taken hr.tracked h.taken
  nodup := h.nodup
  members := by
    intro w hw
    obtain ⟨hcalled, auth, hauth, hten⟩ := h.members w hw
    exact ⟨hs.called hcalled, auth, (hs.auth hcalled).trans hauth, hten⟩
  progress := by
    obtain ⟨pending, dead, hb, hall, -⟩ := h.progress
    cases hs.broadcastTurn hr.tracked n with
    | kept hb' ha _ =>
      rw [ha]
      exact ⟨pending, dead, hb'.trans hb, hall,
        fun a ha => h.fate hr hs hb (fun w hw => Or.inl hw) ha⟩
    | started hlen =>
      have hlt : n < s.forwarded.length := (List.getElem?_eq_some_iff.mp h.taken).1
      omega
    | @tried event' w pending' dead' connected returns _ hevent hb' hb'' ha =>
      obtain rfl := Option.some.inj (h.taken.symm.trans hevent)
      rw [hb] at hb'
      cases hb'
      refine ⟨_, _, hb'', ?_, ?_⟩
      · rw [ha, List.map_append, List.append_assoc, ← hall]
        rfl
      · rw [ha]
        intro a ha
        rcases List.mem_append.mp ha with hold | hnew
        · refine h.fate hr hs hb (fun v hv => Or.inl ?_) hold
          split
          · exact hv
          · exact List.mem_append_left _ hv
        · obtain rfl := List.mem_singleton.mp hnew
          refine ⟨rfl, ?_⟩
          by_cases hsent : sendOutcome connected returns = .sent
          · exact Or.inl hsent
          · exact Or.inr (Or.inl (by simp [hsent]))
    | @swept w dead' _ hb' hb'' hout ha =>
      rw [hb] at hb'
      cases hb'
      rw [ha]
      refine ⟨[], dead', hb'', hall, fun a ha => h.fate hr hs hb ?_ ha⟩
      intro v hv
      rcases List.mem_cons.mp hv with rfl | hdead
      · exact Or.inr (hout _)
      · exact Or.inl hdead

/-- Every event the listener has taken has a broadcast of its own. -/
structure Delivers (s : PubSub ω π) : Prop where
  roomy : Roomy s
  forwarding : ∀ n event, s.forwarded[n]? = some event → ∃ snapshot, Forwarding n event snapshot s

theorem Delivers.step (h : Delivers s) (hs : PubSubStep validateJwt s turn t) : Delivers t where
  roomy := h.roomy.step hs
  forwarding := by
    intro n event hn
    have hold : s.forwarded[n]? = some event → ∃ snapshot, Forwarding n event snapshot t := by
      intro hn
      obtain ⟨snapshot, hf⟩ := h.forwarding n event hn
      exact ⟨snapshot, hf.step h.roomy hs⟩
    cases hs.broadcastTurn h.roomy.tracked n with
    | kept _ _ hf =>
      rcases hf with hf | ⟨event', hf, hne⟩
      · exact hold (hf ▸ hn)
      · rw [hf] at hn
        refine hold ?_
        by_cases hlt : n < s.forwarded.length
        · rwa [List.getElem?_append_left hlt] at hn
        · rw [List.getElem?_eq_none (by simp; omega)] at hn
          cases hn
    | @started event' snapshot hlen hf hnodup hsnapshot hb ha =>
      have hstart := Forwarding.start h.roomy hs hlen hf hnodup hsnapshot hb ha
      obtain rfl := Option.some.inj (hstart.taken.symm.trans hn)
      exact ⟨snapshot, hstart⟩
    | tried hf => exact hold (hf ▸ hn)
    | swept hf => exact hold (hf ▸ hn)

theorem Delivers.run {turns : List (PubSubTurn ω π)}
    (hrun : Run (PubSubStep validateJwt) (PubSub.initial ω π) turns s) : Delivers s := by
  refine hrun.invariant (I := Delivers) (fun _ _ _ h hs => h.step hs) ⟨Roomy.initial, ?_⟩
  intro n event hn
  cases hn

omit [DecidableEq ω] in
theorem Delivers.attempt (h : Delivers s) {a : Attempt ω π} (ha : a ∈ s.attempts) :
    ∃ event snapshot, Forwarding a.message event snapshot s ∧ a ∈ s.attemptsOf a.message := by
  have hof : a ∈ s.attemptsOf a.message :=
    List.mem_filter.mpr ⟨ha, decide_eq_true rfl⟩
  have hlt : a.message < s.forwarded.length := by
    by_contra hge
    rw [(h.roomy.fresh _ (by omega)).2] at hof
    cases hof
  obtain ⟨snapshot, hf⟩ := h.forwarding _ _ (List.getElem?_eq_getElem hlt)
  exact ⟨_, snapshot, hf, hof⟩

def publishedEvent : PubSubTurn ω π → Option (WsEvent π)
  | .publish event => some event
  | _ => none

theorem PubSubStep.published (h : PubSubStep validateJwt s turn t) :
    t.forwarded ++ t.waiting = s.forwarded ++ s.waiting ++ (publishedEvent turn).toList := by
  cases h with
  | publish => simp [publishedEvent]
  | forward hw _ _ => simp [publishedEvent, hw]
  | _ => exact (List.append_nil _).symm

/-- What was published waits at the subscription or was taken from it, once and in order. -/
theorem published_run {turns : List (PubSubTurn ω π)}
    (hrun : Run (PubSubStep validateJwt) s turns t) :
    t.forwarded ++ t.waiting = s.forwarded ++ s.waiting ++ turns.filterMap publishedEvent := by
  induction hrun with
  | nil s => simp
  | @cons s t u turn turns hs _ ih =>
    rw [ih, hs.published, List.append_assoc]
    cases hp : publishedEvent turn <;> simp [hp]

omit [DecidableEq ω] in
theorem Delivers.isolated (h : Delivers s) {a : Attempt ω π} (ha : a ∈ s.attempts) :
    ∃ event auth, s.forwarded[a.message]? = some event ∧
      a.envelope = (publishWsEvent event).data ∧ s.auth a.websocket = some auth ∧
      auth.tenantId = some event.tenantId := by
  obtain ⟨event, snapshot, hf, hof⟩ := h.attempt ha
  obtain ⟨_, _, -, -, htried⟩ := hf.progress
  obtain ⟨-, auth, hauth, hten⟩ := hf.members _ (hf.tried hof)
  exact ⟨event, auth, hf.taken, (htried a hof).1, hauth, hten⟩

omit [DecidableEq ω] in
theorem Delivers.once (h : Delivers s) (n : Nat) :
    ((s.attemptsOf n).map Attempt.websocket).Nodup := by
  by_cases hlt : n < s.forwarded.length
  · obtain ⟨snapshot, hf⟩ := h.forwarding n _ (List.getElem?_eq_getElem hlt)
    obtain ⟨pending, dead, -, hall, -⟩ := hf.progress
    have hnodup := hf.nodup
    rw [← hall] at hnodup
    exact (List.nodup_append.mp hnodup).1
  · rw [(h.roomy.fresh n (by omega)).2]
    exact List.nodup_nil

/-- The broadcast begins with the websockets of the room. -/
theorem PubSubStep.forwarding {event : WsEvent π} {waiting : List (WsEvent π)}
    {snapshot : List ω} (hs : PubSubStep validateJwt s (.forward snapshot) t) (hr : Roomy s)
    (hwaiting : s.waiting = event :: waiting) :
    Forwarding s.forwarded.length event snapshot t ∧
      ∀ w, w ∈ snapshot ↔ (event.tenantId.str, w) ∈ s.rooms := by
  have hstep := hs
  cases hs with
  | forward hwaiting' _ hg =>
    rw [hwaiting] at hwaiting'
    cases hwaiting'
    cases hg with
    | broadcast _ hnodup hsnapshot =>
      rw [room_publishWsEvent] at hsnapshot
      exact ⟨Forwarding.start hr hstep rfl rfl hnodup hsnapshot (Function.update_self ..) rfl,
        hsnapshot⟩

theorem Forwarding.run {n : Nat} {event : WsEvent π} {snapshot : List ω}
    {turns : List (PubSubTurn ω π)} (h : Forwarding n event snapshot s) (hr : Roomy s)
    (hrun : Run (PubSubStep validateJwt) s turns t) : Forwarding n event snapshot t := by
  have hboth := hrun.invariant (I := fun s => Roomy s ∧ Forwarding n event snapshot s)
    (fun _ _ _ h hs => ⟨h.1.step hs, h.2.step h.1 hs⟩) ⟨hr, h⟩
  exact hboth.2

omit [DecidableEq ω] in
/-- When the broadcast has ended it has tried its whole snapshot, and nobody is dead and in. -/
theorem Forwarding.served {n : Nat} {event : WsEvent π} {snapshot : List ω}
    (h : Forwarding n event snapshot s) (hended : (s.broadcasts n).any Broadcast.ended = true)
    {w : ω} (hw : w ∈ snapshot) : ∃ a ∈ s.attemptsOf n, a.websocket = w ∧
      a.envelope = (publishWsEvent event).data ∧
      (a.outcome ≠ .sent → (event.tenantId.str, w) ∉ s.rooms) := by
  obtain ⟨pending, dead, hb, hall, htried⟩ := h.progress
  simp only [hb, Option.any_some, Broadcast.ended, Bool.and_eq_true, List.isEmpty_iff] at hended
  obtain ⟨rfl, rfl⟩ := hended
  rw [← hall, List.append_nil] at hw
  obtain ⟨a, ha, rfl⟩ := List.mem_map.mp hw
  obtain ⟨henvelope, hfate⟩ := htried a ha
  refine ⟨a, ha, rfl, henvelope, ?_⟩
  intro hsent
  rcases hfate with hgot | hdead | hout
  · exact absurd hgot hsent
  · cases hdead
  · exact hout

/-- In every run: what a broadcast tries goes to a websocket of the tenant the event was published
for; it tries each websocket once; each published event is forwarded at most once; and when the
broadcast of an event ends, each websocket that was in the room when it began has been tried, and
those that did not get the event have left the room. -/
theorem rooms_isolated_and_served (validateJwt : String → Option Claims)
    (turns : List (PubSubTurn ω π)) (s : PubSub ω π)
    (hrun : Run (PubSubStep validateJwt) (PubSub.initial ω π) turns s) :
    (∀ a ∈ s.attempts, ∃ event auth, s.forwarded[a.message]? = some event ∧
      a.envelope = (publishWsEvent event).data ∧ s.auth a.websocket = some auth ∧
      auth.tenantId = some event.tenantId) ∧
    (∀ n, ((s.attemptsOf n).map Attempt.websocket).Nodup) ∧
    s.forwarded ++ s.waiting = turns.filterMap publishedEvent ∧
    ∀ turns₁ s₁ event waiting snapshot s₂ turns₂,
      Run (PubSubStep validateJwt) (PubSub.initial ω π) turns₁ s₁ →
      s₁.waiting = event :: waiting → PubSubStep validateJwt s₁ (.forward snapshot) s₂ →
      Run (PubSubStep validateJwt) s₂ turns₂ s →
      (s.broadcasts s₁.forwarded.length).any Broadcast.ended = true →
      ∀ w, (event.tenantId.str, w) ∈ s₁.rooms →
        ∃ a ∈ s.attemptsOf s₁.forwarded.length, a.websocket = w ∧
          a.envelope = (publishWsEvent event).data ∧
          (a.outcome ≠ .sent → (event.tenantId.str, w) ∉ s.rooms) := by
  have h := Delivers.run hrun
  refine ⟨fun a ha => h.isolated ha, h.once, published_run hrun, ?_⟩
  intro turns₁ s₁ event waiting snapshot s₂ turns₂ hrun₁ hwaiting hs hrun₂ hended w hw
  have h₁ := Delivers.run hrun₁
  obtain ⟨hstart, hsnapshot⟩ := hs.forwarding h₁.roomy hwaiting
  have hend := hstart.run (h₁.roomy.step hs) hrun₂
  exact hend.served hended ((hsnapshot w).mpr hw)

theorem exists_send {n : Nat} {event : WsEvent π} {w : ω} {pending dead : List ω}
    (hevent : s.forwarded[n]? = some event) (hb : s.broadcasts n = some ⟨w :: pending, dead⟩) :
    ∃ t, PubSubStep validateJwt s (.send n true) t ∧ t.forwarded = s.forwarded ∧
      ∃ dead', t.broadcasts n = some ⟨pending, dead'⟩ :=
  ⟨_, .send hevent hb (.send hb), rfl, _, Function.update_self ..⟩

theorem exists_sweep {n : Nat} {w : ω} {dead : List ω}
    (hb : s.broadcasts n = some ⟨[], w :: dead⟩) :
    ∃ t, PubSubStep validateJwt s (.sweep n) t ∧ t.broadcasts n = some ⟨[], dead⟩ :=
  ⟨_, .sweep (.sweep hb), Function.update_self ..⟩

theorem send_pending {n : Nat} {event : WsEvent π} {pending dead : List ω}
    (hevent : s.forwarded[n]? = some event) (hb : s.broadcasts n = some ⟨pending, dead⟩) :
    ∃ turns t dead', Run (PubSubStep validateJwt) s turns t ∧
      t.broadcasts n = some ⟨[], dead'⟩ := by
  induction pending generalizing s dead with
  | nil => exact ⟨[], s, dead, .nil s, hb⟩
  | cons w pending ih =>
    obtain ⟨t, hstep, hforwarded, dead', ht⟩ := exists_send hevent hb
    obtain ⟨turns, u, dead'', hrun, hu⟩ := ih (hforwarded ▸ hevent) ht
    exact ⟨_, u, dead'', .cons hstep hrun, hu⟩

theorem sweep_dead {n : Nat} {dead : List ω} (hb : s.broadcasts n = some ⟨[], dead⟩) :
    ∃ turns t, Run (PubSubStep validateJwt) s turns t ∧ t.broadcasts n = some ⟨[], []⟩ := by
  induction dead generalizing s with
  | nil => exact ⟨[], s, .nil s, hb⟩
  | cons w dead ih =>
    obtain ⟨t, hstep, ht⟩ := exists_sweep hb
    obtain ⟨turns, u, hrun, hu⟩ := ih ht
    exact ⟨_, u, .cons hstep hrun, hu⟩

/-- Every broadcast can be brought to its end. -/
theorem broadcast_can_end {n : Nat} {event : WsEvent π} {pending dead : List ω}
    (hevent : s.forwarded[n]? = some event) (hb : s.broadcasts n = some ⟨pending, dead⟩) :
    ∃ turns t, Run (PubSubStep validateJwt) s turns t ∧
      (t.broadcasts n).any Broadcast.ended = true := by
  obtain ⟨turns, t, dead', hrun, ht⟩ := send_pending hevent hb
  obtain ⟨turns', u, hrun', hu⟩ := sweep_dead ht
  exact ⟨_, u, hrun.append hrun', by rw [hu]; rfl⟩

/-- Tokens of two tenants. -/
def sampleJwt (token : String) : Option Claims :=
  if token = "north" then some ⟨"ana", some (Uuid.str ⟨1⟩), some "watcher", none⟩
  else if token = "south" then some ⟨"rui", some (Uuid.str ⟨2⟩), some "watcher", none⟩
  else none

def sampleWsEvent : WsEvent Unit :=
  ⟨⟨1⟩, "decision.resolved", (), "2026-09-01T00:00:00+00:00"⟩

/-- Two websockets of the first tenant, of which one has gone, and one of the second. -/
def arrivalTurns : List (PubSubTurn (Fin 3) Unit) :=
  [.connect 0 (some "north") none true, .connect 1 (some "north") none true,
    .connect 2 none (some "south") true, .leave 1, .publish sampleWsEvent]

theorem run_arrivalTurns : ∃ s, Run (PubSubStep sampleJwt) (PubSub.initial (Fin 3) Unit)
    arrivalTurns s ∧ s.waiting = [sampleWsEvent] ∧ s.forwarded = [] ∧
      (∀ n, s.broadcasts n = none) ∧
      s.rooms = {(Uuid.str ⟨1⟩, 0), (Uuid.str ⟨1⟩, 1), (Uuid.str ⟨2⟩, 2)} := by
  have north : triageWebsocket sampleJwt (some "north") none =
      .ok (.connect ⟨"ana", some ⟨1⟩, .watcher⟩ ⟨1⟩) := by decide +kernel
  have south : triageWebsocket sampleJwt none (some "south") =
      .ok (.connect ⟨"rui", some ⟨2⟩, .watcher⟩ ⟨2⟩) := by decide +kernel
  refine ⟨_, .cons (.connect north (.connect rfl)) (.cons (.connect north (.connect rfl))
    (.cons (.connect south (.connect rfl)) (.cons .leave (.cons .publish (.nil _))))), rfl, rfl,
    fun _ => rfl, by decide +kernel⟩

theorem rooms_isolated_and_served_sample : ∃ turns s,
    Run (PubSubStep sampleJwt) (PubSub.initial (Fin 3) Unit) turns s ∧
      ((s.attemptsOf 0).map Attempt.websocket).Nodup ∧
      ∃ a ∈ s.attemptsOf 0, a.websocket = 1 ∧ a.envelope = (publishWsEvent sampleWsEvent).data ∧
        (a.outcome ≠ .sent → (Uuid.str ⟨1⟩, 1) ∉ s.rooms) := by
  obtain ⟨s₁, hrun₁, hwaiting, hforwarded, hfree, hrooms⟩ := run_arrivalTurns
  have hsnapshot : ∀ w : Fin 3, w ∈ [0, 1] ↔
      ((publishWsEvent sampleWsEvent).room, w) ∈ s₁.rooms := by
    rw [hrooms]
    decide +kernel
  have hidle : ∀ n broadcast, s₁.broadcasts n = some broadcast → broadcast.ended = true := by
    intro n broadcast hb
    rw [hfree n] at hb
    cases hb
  obtain ⟨s₂, hstep, hb₂, hevent₂⟩ : ∃ s₂, PubSubStep sampleJwt s₁ (.forward [0, 1]) s₂ ∧
      s₂.broadcasts s₁.forwarded.length = some ⟨[0, 1], []⟩ ∧
      s₂.forwarded[s₁.forwarded.length]? = some sampleWsEvent :=
    ⟨_, .forward hwaiting hidle (.broadcast (hfree _) (by decide) hsnapshot),
      Function.update_self .., List.getElem?_concat_length ..⟩
  obtain ⟨turns, s, hrun, hended⟩ : ∃ turns s, Run (PubSubStep sampleJwt) s₂ turns s ∧
      (s.broadcasts s₁.forwarded.length).any Broadcast.ended = true :=
    broadcast_can_end hevent₂ hb₂
  have hwhole := hrun₁.append (.cons hstep hrun)
  obtain ⟨-, hnodup, -, hserved⟩ := rooms_isolated_and_served sampleJwt _ s hwhole
  have hroom : (sampleWsEvent.tenantId.str, (1 : Fin 3)) ∈ s₁.rooms := by
    rw [hrooms]
    decide +kernel
  obtain ⟨a, ha, hrest⟩ := hserved _ s₁ sampleWsEvent [] _ s₂ _ hrun₁ hwaiting hstep hrun hended 1
    hroom
  rw [hforwarded] at ha
  exact ⟨_, s, hwhole, hnodup 0, a, ha, hrest⟩

end ArgusServices

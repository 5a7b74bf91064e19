import ArgusServices.Store
import Mathlib.Data.Finset.Card
import Mathlib.Data.Finset.Image

namespace ArgusServices

def maxConnectionsPerSub : Nat := 5

/-- What `connect` leaves in `websocket.state`. -/
structure WebSocketState where
  tenantId : String
  sub : String
  deriving DecidableEq, Repr

/-- `ConnectionManager`: the websockets of each room, the counter of each sub, and the state
attributes of the websockets. -/
structure ConnectionManager (ω : Type) where
  rooms : Finset (String × ω)
  subs : String → Nat
  state : ω → Option WebSocketState

variable {ω β : Type} [DecidableEq ω] [DecidableEq β]

/-- The websocket joins the room and the counter of its sub. -/
def ConnectionManager.register (m : ConnectionManager ω) (websocket : ω) (tenantId sub : String) :
    ConnectionManager ω where
  rooms := insert (tenantId, websocket) m.rooms
  subs := Function.update m.subs sub (m.subs sub + 1)
  state := Function.update m.state websocket (some ⟨tenantId, sub⟩)

/-- All of it runs under the lock; `accepts` is whether `websocket.accept()` returns. -/
def ConnectionManager.connect (m : ConnectionManager ω) (websocket : ω) (tenantId sub : String)
    (accepts : Bool) : Except Exn Bool × ConnectionManager ω :=
  if m.subs sub ≥ maxConnectionsPerSub then (.ok false, m)
  else if accepts then (.ok true, m.register websocket tenantId sub)
  else (.error .outage, m)

def ConnectionManager.disconnect (m : ConnectionManager ω) (websocket : ω) :
    ConnectionManager ω :=
  match m.state websocket with
  | none => m
  | some ⟨tenantId, sub⟩ =>
    { m with
      rooms :=
        if tenantId ≠ "" ∧ (tenantId, websocket) ∈ m.rooms then m.rooms.erase (tenantId, websocket)
        else m.rooms
      subs :=
        if sub ≠ "" ∧ m.subs sub > 0 then Function.update m.subs sub (m.subs sub - 1)
        else m.subs }

/-- A broadcast under way: the websockets still to send to, and those found dead. -/
structure Broadcast (ω : Type) where
  pending : List ω
  dead : List ω
  deriving DecidableEq, Repr

/-- The manager, the websockets `connect` has been called for, those whose handler has not yet
come to its `finally`, and the broadcasts under way. -/
structure Gateway (ω β : Type) extends ConnectionManager ω where
  called : ω → Bool
  serving : ω → Bool
  broadcasts : β → Option (Broadcast ω)

def Gateway.initial (ω β : Type) : Gateway ω β where
  rooms := ∅
  subs := fun _ => 0
  state := fun _ => none
  called := fun _ => false
  serving := fun _ => false
  broadcasts := fun _ => none

def Gateway.withBroadcast (g : Gateway ω β) (b : β) (broadcast : Broadcast ω) : Gateway ω β :=
  { g with broadcasts := Function.update g.broadcasts b (some broadcast) }

inductive GatewayTurn (ω β : Type)
  | connect (websocket : ω) (tenantId : Uuid) (sub : String) (accepts : Bool)
  | broadcast (b : β) (tenantId : String) (snapshot : List ω)
  | send (b : β) (delivered : Bool)
  | sweep (b : β)
  | finish (websocket : ω)

/-- The handlers and the broadcasts take turns; a broadcast waits at every send and before every
disconnect of a websocket that was not connected or failed to take the message. -/
inductive GatewayStep : Gateway ω β → GatewayTurn ω β → Gateway ω β → Prop
  | connect {g : Gateway ω β} {websocket : ω} {tenantId : Uuid} {sub : String} {accepts : Bool} :
      g.called websocket = false →
      GatewayStep g (.connect websocket tenantId sub accepts)
        { toConnectionManager := (g.connect websocket tenantId.str sub accepts).2
          called := Function.update g.called websocket true
          serving := Function.update g.serving websocket
            (match (g.connect websocket tenantId.str sub accepts).1 with
              | .ok connected => connected
              | .error _ => false)
          broadcasts := g.broadcasts }
  | broadcast {g : Gateway ω β} {b : β} {tenantId : String} {snapshot : List ω} :
      g.broadcasts b = none → snapshot.Nodup →
      (∀ websocket, websocket ∈ snapshot ↔ (tenantId, websocket) ∈ g.rooms) →
      GatewayStep g (.broadcast b tenantId snapshot)
        (g.withBroadcast b ⟨snapshot, []⟩)
  | send {g : Gateway ω β} {b : β} {delivered : Bool} {websocket : ω} {pending dead : List ω} :
      g.broadcasts b = some ⟨websocket :: pending, dead⟩ →
      GatewayStep g (.send b delivered)
        (g.withBroadcast b ⟨pending, if delivered then dead else dead ++ [websocket]⟩)
  | sweep {g : Gateway ω β} {b : β} {websocket : ω} {dead : List ω} :
      g.broadcasts b = some ⟨[], websocket :: dead⟩ →
      GatewayStep g (.sweep b)
        ({ g with
            toConnectionManager := g.toConnectionManager.disconnect websocket }.withBroadcast b
          ⟨[], dead⟩)
  | finish {g : Gateway ω β} {websocket : ω} : g.serving websocket = true →
      GatewayStep g (.finish websocket)
        { g with
          toConnectionManager := g.toConnectionManager.disconnect websocket
          serving := Function.update g.serving websocket false }

/-- The websockets of a sub that are in some room. -/
def ConnectionManager.registered (m : ConnectionManager ω) (sub : String) : Finset ω :=
  (m.rooms.filter fun p => (m.state p.2).any fun st => st.sub = sub).image Prod.snd

end ArgusServices

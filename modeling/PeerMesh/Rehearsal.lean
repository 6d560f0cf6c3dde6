import PeerMesh.Messenger

namespace PeerMesh

/-- A route that stands in for a real one. Routes with different names are different routes. -/
structure StandIn where
  name : String
  peer : PeerId
  weight : Nat
  text : String
  broken : Bool
deriving DecidableEq

instance : Weighted StandIn where
  weight := StandIn.weight

structure StandInTransport where
  name : String
  broken : Bool
deriving DecidableEq

inductive SendKind where
  | reliable
  | unreliable
  | broadcast
deriving DecidableEq, Repr

structure RecordedSend where
  outlet : String
  kind : SendKind
  envelope : Envelope

structure Rehearsal where
  self : PeerId
  routes : RoutingTable StandIn := .empty
  transports : List StandInTransport := []

namespace Rehearsal

def outcome (name : String) (broken : Bool) : Except SendError Unit :=
  if broken then .error (.refused (name ++ " is broken")) else .ok ()

def send (r : Rehearsal) (receiver : PeerId) (body : Body) (reliable : Bool) :
    List RecordedSend × Except SendError Unit :=
  match r.routes.delivery r.self receiver body reliable with
  | .via s e =>
    ([⟨s.name, if reliable then .reliable else .unreliable, e⟩], outcome s.name s.broken)
  | .nothing result => ([], result)

def broadcast (r : Rehearsal) (body : Body) : List RecordedSend × Except SendError Unit :=
  let e := Envelope.toAll r.self body
  (r.transports.map fun t => ⟨t.name, .broadcast, e⟩,
   broadcastResult (r.transports.map fun t => (t.name, outcome t.name t.broken)))

end Rehearsal

end PeerMesh

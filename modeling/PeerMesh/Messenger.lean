import PeerMesh.Message.Payload
import PeerMesh.Routing
import PeerMesh.SendError

namespace PeerMesh

inductive Delivery (κ : Type) where
  | via (route : κ) (e : Envelope)
  | nothing (result : Except SendError Unit)

/-- Finds the route for a message. Without a route, a reliable send fails and any other does
nothing. -/
def RoutingTable.delivery {κ : Type} [DecidableEq κ] [Weighted κ] (t : RoutingTable κ)
    (self receiver : PeerId) (body : Body) (reliable : Bool) : Delivery κ :=
  match t.best receiver with
  | some route => .via route ⟨self, receiver, body⟩
  | none => .nothing (if reliable then .error (.noRoute receiver) else .ok ())

def Envelope.toAll (self : PeerId) (body : Body) : Envelope :=
  ⟨self, .nil, body⟩

def broadcastResult (results : List (String × Except SendError Unit)) : Except SendError Unit :=
  let failed := results.filterMap fun r =>
    match r.2 with
    | .ok () => none
    | .error _ => some r.1
  if failed = [] then .ok () else .error (.broadcastFailed failed)

end PeerMesh

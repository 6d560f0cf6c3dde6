import PeerMesh.Inbound.Admission
import PeerMesh.Routing
import PeerMesh.Udp.Endpoint

namespace PeerMesh

structure ConnectionId where
  transport : Nat
  number : Nat
deriving DecidableEq, Repr

inductive Route where
  | udp (peer : PeerId) (endpoint : EndpointId)
  | tcp (peer : PeerId) (connection : ConnectionId)
deriving DecidableEq, Repr

namespace Route

def peer : Route → PeerId
  | udp peer _ => peer
  | tcp peer _ => peer

/-- Connections are preferred to datagrams. -/
instance : Weighted Route where
  weight
    | udp _ _ => 100
    | tcp _ _ => 200

def describeUdp (peer : PeerId) (a : SocketAddress) : String :=
  "UDP(" ++ peer.describe ++ "@" ++ a.text ++ ")"

def describeTcp (peer : PeerId) (a : SocketAddress) : String :=
  "TCP(" ++ peer.describe ++ "@" ++ a.text ++ ")"

end Route

structure Directory where
  identity : Identity
  routes : RoutingTable Route := .empty
  peers : PeerTable Held := .empty

namespace Directory

/-- Registers a route to its peer. A route that is registered already stays where it is. -/
def addRoute (d : Directory) (r : Route) : Directory :=
  match d.routes.register r.peer r with
  | .ok routes => { d with routes }
  | .error _ => d

def removeRoute (d : Directory) (r : Route) : Directory :=
  { d with routes := (d.routes.unregister r.peer r).1 }

def learn (d : Directory) (i : Identity) : Directory × List Held :=
  let u := d.peers.update i
  ({ d with peers := u.table }, u.released)

end Directory

end PeerMesh

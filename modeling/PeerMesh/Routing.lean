import PeerMesh.KeyedList
import PeerMesh.Uuid

namespace PeerMesh

/-- Routes have a weight: of several routes to a peer, the heaviest is taken. -/
class Weighted (κ : Type) where
  weight : κ → Nat

structure RoutingTable (κ : Type) where
  routes : KeyedList PeerId (List κ)

structure AlreadyRegistered (κ : Type) where
  route : κ
  peer : PeerId

namespace AlreadyRegistered

variable {κ : Type}

def message (describe : κ → String) (e : AlreadyRegistered κ) : String :=
  "routing context " ++ describe e.route ++ " is already registered for peer " ++ e.peer.describe

end AlreadyRegistered

namespace RoutingTable

variable {κ : Type} [DecidableEq κ]

def empty : RoutingTable κ :=
  ⟨.empty⟩

instance : Inhabited (RoutingTable κ) := ⟨empty⟩

def routesTo (t : RoutingTable κ) (peer : PeerId) : List κ :=
  (t.routes.get? peer).getD []

def peers (t : RoutingTable κ) : List PeerId :=
  t.routes.keys

def register (t : RoutingTable κ) (peer : PeerId) (route : κ) :
    Except (AlreadyRegistered κ) (RoutingTable κ) :=
  if route ∈ t.routesTo peer then .error ⟨route, peer⟩
  else .ok ⟨t.routes.put peer (t.routesTo peer ++ [route])⟩

/-- The table without a route to a peer, and whether the route was registered. -/
def unregister (t : RoutingTable κ) (peer : PeerId) (route : κ) : RoutingTable κ × Bool :=
  if route ∈ t.routesTo peer then
    match (t.routesTo peer).erase route with
    | [] => (⟨t.routes.erase peer⟩, true)
    | rest => (⟨t.routes.put peer rest⟩, true)
  else (t, false)

def heaviest [Weighted κ] (routes : List κ) : Option κ :=
  routes.foldl
    (fun best r =>
      match best with
      | none => some r
      | some b => if Weighted.weight b < Weighted.weight r then some r else some b)
    none

def best [Weighted κ] (t : RoutingTable κ) (peer : PeerId) : Option κ :=
  heaviest (t.routesTo peer)

end RoutingTable

end PeerMesh

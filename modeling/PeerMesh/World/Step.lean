import PeerMesh.World.Basic

namespace PeerMesh

inductive Medium where
  | recorder (port : UInt16)
  | fabric (address : SocketAddress)
  | sockets
deriving DecidableEq

structure Arrival where
  identity : Identity
  udp : Option (UdpConfig × Medium) := none
  tcp : List (TcpConfig × Option String) := []
  handlers : List Handler := []
  inbound : InboundConfig := {}
  ids : IdSource

inductive Step where
  | start (node : String) (arrival : Arrival)
  | receive (node : String) (datagram : Bytes) (source : SocketAddress)
  | send (node : String) (receiver : PeerId) (body : Body) (reliable : Bool) (handle : String)
  | broadcast (node : String) (body : Body) (handle : String)
  | advance (ms : Nat)
  | setFailing (node : String) (on : Bool)
  | dropUnicasts (on : Bool)
  | detach (node : String)
  | announce (node : String)
  | updateIdentity (node : String) (change : Identity → Identity)
  | register (node : String) (handler : Handler)
  | deregister (node : String) (kind : MessageKind)
  | prune (node : String) (maxAge : Nat)
  | forgetPeers (node : String)
  | shutDown (node : String)
  | inspect (node : String) (peer : Option PeerId)
  | listen (listener : String)
  | unlisten (listener : String)
  | accept (listener : String)
  | connect
  /-- Anything with a connection or a socket that would have to be open. -/
  | useConnection
  | openSocket

structure RouteView where
  weight : Nat
  text : String

structure TcpView where
  connections : Nat
  listening : Bool

structure NodeView where
  identity : Identity
  routes : List (PeerId × List RouteView × Option Nat)
  peers : List (PeerId × Identity)
  statistics : Option UdpStatistics
  tcp : List TcpView
  peer : Option (Option (Bool × Option Identity))

inductive StepResult where
  | silent
  | started
  | ok
  | count (n : Nat)
  | view (v : NodeView)
  | refused
  | noConnection
  | notStarted (e : StartError)
  | identityChanged (e : IdentityChange)
  | io (fault : IoFault)
  | unknownNode (name : String)
  | unknownConnection

structure NodeReport where
  name : String
  unicasts : List (SocketAddress × Bytes)
  broadcasts : List Bytes
  calls : List HandlerCall
  lostEvents : Nat
  events : List PeerEvent
  statistics : Option UdpStatistics

structure StepReport where
  result : StepResult
  nodes : List NodeReport
  /-- The sends that are finished, in the order in which they were started. -/
  finished : List (String × Except SendError Unit)
  dropped : Option Nat

namespace Parcel

def unicast? : Parcel → Option (SocketAddress × Bytes)
  | .unicast destination datagram => some (destination, datagram)
  | .broadcast _ => none

def broadcast? : Parcel → Option Bytes
  | .unicast _ _ => none
  | .broadcast datagram => some datagram

end Parcel

namespace Node

def viewRoute (n : Node) (r : Route) : RouteView where
  weight := Weighted.weight r
  text :=
    match r with
    | .udp peer endpoint =>
      match n.udp with
      | some t => Route.describeUdp peer (t.endpoints.address endpoint)
      | none => "UDP"
    | .tcp _ _ => "TCP"

def view (n : Node) (peer : Option PeerId) : NodeView where
  identity := n.directory.identity
  routes :=
    let peers := n.directory.routes.peers.mergeSort fun a b => a.bits.toNat ≤ b.bits.toNat
    peers.map fun p =>
      (p, (n.directory.routes.routesTo p).map n.viewRoute,
        (n.directory.routes.best p).map Weighted.weight)
  peers := n.directory.peers.discovered
  statistics := n.udp.map UdpTransport.statistics
  tcp := n.tcp.map fun t => ⟨t.established.length, t.isListening⟩
  peer := peer.map fun p =>
    (n.directory.peers.get? p).map fun known => (known.isDiscovered, known.identity)

end Node

namespace Resident

def statistics (r : Resident) : UdpStatistics :=
  (r.node.udp.map UdpTransport.statistics).getD {}

def report (name : String) (r : Resident) : NodeReport :=
  let parcels := (r.node.udp.map fun t => t.link.accepted).getD []
  let (_, lost, events) := r.node.directory.peers.takeEvents r.feed
  { name
    unicasts := parcels.filterMap Parcel.unicast?
    broadcasts := parcels.filterMap Parcel.broadcast?
    calls := r.calls.reverse
    lostEvents := lost
    events
    statistics := if r.statistics = r.reported then none else some r.statistics }

def afterReport (r : Resident) : Resident :=
  let node := r.node.onUdp fun t => { t with link := t.link.cleared }
  { r with
    node := { node with directory.peers := (r.node.directory.peers.takeEvents r.feed).1 }
    calls := []
    reported := r.statistics }

end Resident

namespace World

def named? (w : World) (name : String) : Option (NodeNumber × Resident) := do
  let node ← w.names.get? name
  return (node, ← w.residents.get? node)

def change (w : World) (name : String)
    (f : NodeNumber → Resident → Resident × List Task × StepResult) : World × StepResult :=
  match w.named? name with
  | none => (w, .unknownNode name)
  | some (node, r) =>
    let (r, tasks, result) := f node r
    let (w, more) := w.put node r
    (w.settle (more ++ tasks), result)

def changeNode (w : World) (name : String) (f : Node → Node) : World × StepResult :=
  w.change name fun _ r => ({ r with node := f r.node }, [], .silent)

/-- Starts a node. It is on the fabric only once it has started. -/
def start (w : World) (name : String) (a : Arrival) : World × StepResult :=
  let fabricAddress :=
    match a.udp with
    | some (_, .fabric address) => some address
    | _ => none
  let network : Medium → Except IoFault Link
    | .recorder port => .ok { port, fault := fun _ _ => none }
    | .fabric address => .ok { port := address.port, fault := fun _ _ => none }
    | .sockets => .error .uncategorized
  let setup : NodeSetup :=
    { identity := a.identity
      udp := a.udp.map fun (config, medium) => ⟨config, network medium, a.ids⟩
      tcp := a.tcp.map Prod.fst
      inbound := a.inbound }
  match Node.start setup w.now with
  | .error e => (w, .notStarted e.error)
  | .ok node =>
    let (peers, feed) := node.directory.peers.subscribe
    let node :=
      { node with
        directory.peers := peers
        handlers := a.handlers.foldl Handlers.register node.handlers }
    let number := w.residents.size
    let fabric :=
      match fabricAddress with
      | none => w.fabric
      | some address => { w.fabric with attached := w.fabric.attached.put address number }
    let resident : Resident := { node, fabricAddress, bindings := a.tcp.map Prod.snd, feed }
    ({ w with
       fabric
       residents := w.residents.put number resident
       names := w.names.put name number },
     .started)

def note (w : World) (handle : String) (node : NodeNumber) (status : SendStatus) : World :=
  { w with sends := w.sends ++ [⟨handle, node, status⟩] }

def beginSend (w : World) (name handle : String) (f : Node → Node × SendStatus) :
    World × StepResult :=
  match w.named? name with
  | none => (w, .unknownNode name)
  | some (node, r) =>
    let (n, status) := f r.node
    let (w, tasks) := (w.note handle node status).put node { r with node := n }
    (w.settle tasks, .silent)

def setFailing (on : Bool) (t : UdpTransport) : UdpTransport :=
  { t with
    link.fault := fun _ _ => if on then some (.refused "simulated network failure") else none }

def doStep (w : World) : Step → World × StepResult
  | .start name a => w.start name a
  | .receive name datagram source =>
    w.change name fun node r =>
      let (n, reaction) := r.node.receiveDatagram w.now datagram source
      ({ r with node := n }, Resident.tasksOf node reaction, .silent)
  | .send name receiver body reliable handle =>
    w.beginSend name handle fun n => n.send w.now receiver body reliable
  | .broadcast name body handle =>
    w.beginSend name handle fun n =>
      let (n, result) := n.broadcast body
      (n, .finished result)
  | .advance ms => (w.advance ms, .silent)
  | .setFailing name on => w.changeNode name fun n => n.onUdp (setFailing on)
  | .dropUnicasts on => ({ w with fabric.dropping := on }, .silent)
  | .detach name =>
    let (w, result) := w.changeNode name id
    let address := (w.named? name).bind fun e => e.2.fabricAddress
    ({ w with
       fabric.attached := address.toList.foldl KeyedList.erase w.fabric.attached },
     result)
  | .announce name => w.changeNode name Node.announce
  | .updateIdentity name f =>
    w.change name fun _ r =>
      let (node, result) := r.node.updateIdentity f
      ({ r with node }, [],
       match result with
       | .ok () => .ok
       | .error e => .identityChanged e)
  | .register name handler =>
    w.changeNode name fun n => { n with handlers := n.handlers.register handler }
  | .deregister name kind =>
    w.change name fun _ r =>
      let (handlers, n) := r.node.handlers.deregister kind
      ({ r with node := { r.node with handlers } }, [], .count n)
  | .prune name maxAge => w.changeNode name fun n => n.onUdp (·.prune w.now maxAge)
  | .forgetPeers name =>
    w.changeNode name fun n =>
      match n.udp with
      | none => n
      | some t =>
        let (t, directory) := t.forgetPeers n.directory
        { n with udp := some t, directory }
  | .shutDown name => w.changeNode name fun n => n.shutDown w.now
  | .inspect name peer => w.change name fun _ r => (r, [], .view (r.node.view peer))
  | .listen l =>
    if w.isTaken l then (w, .io .addressInUse)
    else ({ w with listeners := w.listeners.put l true }, .silent)
  | .unlisten l => ({ w with listeners := w.listeners.put l false }, .silent)
  | .accept _ => (w, .noConnection)
  | .connect => (w, .refused)
  | .useConnection => (w, .unknownConnection)
  | .openSocket => (w, .io .addressNotAvailable)

def resultOf? (w : World) (s : OpenSend) : Option (Except SendError Unit) :=
  (w.residents.get? s.node).bind fun r => r.node.result? s.status

def report (w : World) (result : StepResult) : World × StepReport :=
  ({ w with
     residents := w.residents.mapValues fun _ r => r.afterReport
     sends := w.sends.filter fun s => (w.resultOf? s).isNone
     reportedDropped := w.fabric.dropped },
   { result
     nodes := w.names.entries.filterMap fun e => (w.residents.get? e.2).map (Resident.report e.1)
     finished := w.sends.filterMap fun s => (w.resultOf? s).map (s.handle, ·)
     dropped := if w.fabric.dropped = w.reportedDropped then none else some w.fabric.dropped })

/-- Does a step and everything that can happen after it without the passing of time. -/
def step (w : World) (s : Step) : World × StepReport :=
  let (w, result) := w.doStep s
  w.goOff.report result

end World

end PeerMesh

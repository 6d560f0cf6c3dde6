import PeerMesh.Messenger
import PeerMesh.Tcp.Transport
import PeerMesh.Udp.Inbound

/-!
Nodes: an identity with transports, routes, peers and handlers.

A node is driven from outside: it is given datagrams, the bytes of connections and the passing of
time, and hands what arrives for the application to its handlers.
-/

namespace PeerMesh

inductive StartError where
  | config (cause : ConfigError)
  | io (fault : IoFault)
deriving DecidableEq, Repr

structure UdpSetup where
  config : UdpConfig
  network : Except IoFault Link
  ids : IdSource

structure NodeSetup where
  identity : Identity
  udp : Option UdpSetup := none
  tcp : List TcpConfig := []
  inbound : InboundConfig := {}

structure Node where
  directory : Directory
  handlers : Handlers := .none
  discoveryTimeout : Nat
  udp : Option UdpTransport := none
  tcp : List TcpTransport := []
  nextTicket : Nat := 0

/-- A start that failed, and the node that it leaves behind, which is shut down. -/
structure FailedStart where
  error : StartError
  remains : Node

structure Reaction where
  arrivals : List Envelope := []
  released : List Held := []

/-- A reliable send that waits for acknowledgements, or the result of a send. -/
inductive SendStatus where
  | awaiting (tickets : List Ticket)
  | finished (result : Except SendError Unit)

namespace Node

def id (n : Node) : PeerId :=
  n.directory.identity.id

def shutDown (n : Node) (now : Nat) : Node :=
  let (udp, d) :=
    match n.udp with
    | none => (none, n.directory)
    | some t =>
      let (t, d) := t.shutDown n.directory
      (some t, d)
  let (tcp, d) := n.tcp.foldl
    (fun (ts, d) t =>
      let (t, d) := TcpTransport.shutDown t d now
      (t :: ts, d))
    ([], d)
  { n with udp, tcp := tcp.reverse, directory := d }

/-- Starts the datagram transport. The port of the network becomes part of the identity. -/
def startUdp (n : Node) (s : UdpSetup) (now : Nat) : Except StartError Node :=
  match s.config.check with
  | .error e => .error (.config e)
  | .ok () =>
    match s.network with
    | .error fault => .error (.io fault)
    | .ok link =>
      let port := PropertyValue.int (Int64.ofNat link.port.toNat)
      .ok {
        n with
        directory.identity := n.directory.identity.declare unicastPortKey port
        udp := some (.start s.config link s.ids now) }

def startTcp (n : Node) (c : TcpConfig) : Except StartError Node :=
  match c.check with
  | .error e => .error (.config e)
  | .ok () => .ok { n with tcp := n.tcp ++ [{ config := c, index := n.tcp.length }] }

/-- Starts connection transports until one does not start; all that were started before are shut
down then. -/
def startAllTcp (n : Node) (now : Nat) : List TcpConfig → Except FailedStart Node
  | [] => .ok n
  | c :: cs =>
    match n.startTcp c with
    | .error e => .error ⟨e, n.shutDown now⟩
    | .ok n => n.startAllTcp now cs

def start (s : NodeSetup) (now : Nat) : Except FailedStart Node :=
  let n : Node :=
    { directory := { identity := s.identity }, discoveryTimeout := s.inbound.discoveryTimeout }
  match s.udp with
  | none => n.startAllTcp now s.tcp
  | some u =>
    match n.startUdp u now with
    | .error e => .error ⟨e, n⟩
    | .ok n => n.startAllTcp now s.tcp

def onUdp (n : Node) (f : UdpTransport → UdpTransport) : Node :=
  { n with udp := n.udp.map f }

def announceDue (n : Node) (now : Nat) : Node :=
  n.onUdp (·.announceDue n.directory.identity now)

def resendDue (n : Node) (now : Nat) : Node :=
  n.onUdp (·.resendDue now)

def announce (n : Node) : Node :=
  let i := n.directory.identity
  { n with udp := n.udp.map (·.announce i), tcp := n.tcp.map (·.announce i) }

def updateIdentity (n : Node) (f : Identity → Identity) : Node × Except IdentityChange Unit :=
  match n.directory.identity.update (f n.directory.identity) with
  | .error e => (n, .error e)
  | .ok identity => ({ n with directory.identity := identity }.announce, .ok ())

def receiveDatagram (n : Node) (now : Nat) (datagram : Bytes) (source : SocketAddress) :
    Node × Reaction :=
  match n.udp with
  | none => (n, {})
  | some t =>
    let r := t.receive n.directory now datagram source
    ({ n with udp := some r.transport, directory := r.directory }, ⟨r.arrivals, r.released⟩)

def receiveBytes (n : Node) (now : Nat) (c : ConnectionId) (bs : Bytes) (ended : Bool) :
    Node × Reaction :=
  match n.tcp[c.transport]? with
  | none => (n, {})
  | some t =>
    let r := t.receive n.directory c.number now bs ended
    ({ n with tcp := n.tcp.set c.transport r.transport, directory := r.directory },
     ⟨r.arrivals, r.released⟩)

def connectionOpened (n : Node) (now transport : Nat) (a : SocketAddress) : Node :=
  { n with tcp := n.tcp.modify transport (·.opened n.directory.identity a now) }

def handshakesDue (n : Node) (now : Nat) : Node :=
  let (tcp, d) := n.tcp.foldl
    (fun (ts, d) t =>
      let (t, d) := TcpTransport.handshakesDue t d now
      (t :: ts, d))
    ([], n.directory)
  { n with tcp := tcp.reverse, directory := d }

def resume (n : Node) (h : Held) : Outcome :=
  n.handlers.deliver n.directory.peers h

/-- Dispatches a message: it goes to the handlers, is dropped, or is held back and has no outcome
yet. -/
def dispatch (n : Node) (now : Nat) (e : Envelope) : Node × Option Outcome :=
  let h : Held := ⟨n.nextTicket, e⟩
  let (peers, admission) :=
    h.arrive n.directory.identity n.directory.peers now n.discoveryTimeout
  let n := { n with directory.peers := peers, nextTicket := n.nextTicket + 1 }
  match admission with
  | .admitted => (n, some (n.resume h))
  | .refused => (n, some ⟨h.ticket, none⟩)
  | .held => (n, none)

def learn (n : Node) (i : Identity) : Node × List Held :=
  let (d, released) := n.directory.learn i
  ({ n with directory := d }, released)

def expireHeld (n : Node) (now : Nat) : Node × List Outcome :=
  let (peers, expired) := n.directory.peers.expire now
  ({ n with directory.peers := peers }, expired.map fun h => ⟨h.ticket, none⟩)

def sendBy (n : Node) (now : Nat) (reliable : Bool) (e : Envelope) : Route → Node × SendStatus
  | .udp _ endpoint =>
    match n.udp with
    | none => (n, .finished (.error (.noRoute e.receiver)))
    | some t =>
      if reliable then
        let (t, tickets) := t.sendReliable n.id endpoint e now
        ({ n with udp := some t }, .awaiting tickets)
      else
        let (t, result) := t.sendUnreliable n.id endpoint e
        ({ n with udp := some t }, .finished result)
  | .tcp _ c =>
    match n.tcp[c.transport]? with
    | none => (n, .finished (.error (.noRoute e.receiver)))
    | some t =>
      let (t, result) := t.write c.number (.message e)
      ({ n with tcp := n.tcp.set c.transport t }, .finished result)

def send (n : Node) (now : Nat) (receiver : PeerId) (body : Body) (reliable : Bool) :
    Node × SendStatus :=
  match n.directory.routes.delivery n.id receiver body reliable with
  | .via route e => n.sendBy now reliable e route
  | .nothing result => (n, .finished result)

def result? (n : Node) : SendStatus → Option (Except SendError Unit)
  | .finished result => some result
  | .awaiting tickets =>
    match n.udp with
    | none => some (.error .shutDown)
    | some t => UdpTransport.resultOf t.outbox tickets

def broadcast (n : Node) (body : Body) : Node × Except SendError Unit :=
  let e := Envelope.toAll n.id body
  let udp := n.udp.map (·.broadcast n.id e)
  let tcp := n.tcp.map (·.broadcast e)
  ({ n with udp := udp.map Prod.fst, tcp := tcp.map Prod.fst },
   broadcastResult (udp.toList.map (("udp", ·.2)) ++ tcp.map (("tcp", ·.2))))

end Node

end PeerMesh

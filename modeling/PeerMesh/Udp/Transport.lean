import PeerMesh.Directory
import PeerMesh.MultiPart.Reassembly
import PeerMesh.Udp.DuplicateFilter
import PeerMesh.Udp.Link
import PeerMesh.Udp.Outbox
import PeerMesh.Udp.Packets

namespace PeerMesh

structure UdpStatistics where
  datagrams : Nat := 0
  malformed : Nat := 0
  tossed : Nat := 0
  duplicates : Nat := 0
  dispatched : Nat := 0
deriving DecidableEq, Repr

structure Schedule where
  announcement : Nat
  resend : Nat
deriving DecidableEq, Repr

structure UdpTransport where
  config : UdpConfig
  link : Link
  ids : IdSource
  outbox : Outbox
  endpoints : AddressBook := .empty
  contexts : KeyedList PeerId EndpointId := .empty
  filter : DuplicateFilter := .empty
  reassembler : Reassembler := .empty
  statistics : UdpStatistics := {}
  /-- Not given once the transport is shut down. -/
  schedule : Option Schedule

namespace UdpTransport

def isStopped (t : UdpTransport) : Bool :=
  t.schedule.isNone

def start (config : UdpConfig) (link : Link) (ids : IdSource) (now : Nat) : UdpTransport where
  config := config
  link := link
  ids := ids
  outbox := { maxResends := config.maxResends }
  schedule := some ⟨now, now⟩

def offer (t : UdpTransport) (p : Parcel) : UdpTransport × Except SendError Unit :=
  let (link, result) := t.link.offer p
  ({ t with link }, result)

def announce (t : UdpTransport) (i : Identity) : UdpTransport :=
  (t.offer (.broadcast (Payload.announcement i).encode)).1

def announceDue (t : UdpTransport) (i : Identity) (now : Nat) : UdpTransport :=
  match t.schedule with
  | none => t
  | some s =>
    if s.announcement ≤ now then
      let s := { s with announcement := now + t.config.announceInterval }
      { t with schedule := some s }.announce i
    else t

def prune (t : UdpTransport) (now maxAge : Nat) : UdpTransport :=
  { t with reassembler := t.reassembler.prune now maxAge }

def resend (t : UdpTransport) (now : Nat) : UdpTransport :=
  let (outbox, resends) := t.outbox.due now t.config.resendInterval
  { t with
    outbox
    link := t.link.offerAll
      (resends.map fun r => .unicast (t.endpoints.address r.endpoint) r.datagram) }

def resendDue (t : UdpTransport) (now : Nat) : UdpTransport :=
  match t.schedule with
  | none => t
  | some s =>
    if s.resend ≤ now then
      let s := { s with resend := now + t.config.resendInterval }
      ({ t with schedule := some s }.resend now).prune now t.config.multiPartTimeout
    else t

def packetsFor (t : UdpTransport) (sender : PeerId) (e : Envelope) (reliable : Bool) :
    UdpTransport × List Packet :=
  let (packets, ids) := e.packets sender reliable t.config.maxDatagram t.ids
  ({ t with ids }, packets)

/-- Registers a reliable packet and sends it to an address. The packet counts as sent even if the
network refuses it, since it is sent again later. -/
def sendFirst (endpoint : EndpointId) (destination : SocketAddress) (now : Nat) (t : UdpTransport)
    (p : Packet) : UdpTransport × Ticket :=
  let (outbox, ticket) := t.outbox.expect now p.id endpoint p.datagram
  (({ t with outbox }.offer (.unicast destination p.datagram)).1, ticket)

def sendPackets (t : UdpTransport) (endpoint : EndpointId) (now : Nat) (ps : List Packet) :
    UdpTransport × List Ticket :=
  let destination := t.endpoints.address endpoint
  let (t, tickets) := ps.foldl
    (fun (t, tickets) p =>
      let (t, ticket) := sendFirst endpoint destination now t p
      (t, ticket :: tickets))
    (t, [])
  (t, tickets.reverse)

def sendReliable (t : UdpTransport) (sender : PeerId) (endpoint : EndpointId) (e : Envelope)
    (now : Nat) : UdpTransport × List Ticket :=
  let (t, packets) := t.packetsFor sender e true
  t.sendPackets endpoint now packets

/-- The result of a reliable send, as far as it is known: that of the first packet that was not
acknowledged. It is not known while that may still be a packet whose fate is undecided. -/
def resultOf (o : Outbox) : List Ticket → Option (Except SendError Unit)
  | [] => some (.ok ())
  | ticket :: tickets =>
    match (o.fate? ticket).map Fate.result with
    | none => none
    | some (.ok ()) => resultOf o tickets
    | some (.error e) => some (.error e)

def sendUnreliable (t : UdpTransport) (sender : PeerId) (endpoint : EndpointId) (e : Envelope) :
    UdpTransport × Except SendError Unit :=
  let destination := t.endpoints.address endpoint
  let (t, packets) := t.packetsFor sender e false
  let (link, result) :=
    t.link.offerWhileAccepted (packets.map fun p => .unicast destination p.datagram)
  ({ t with link }, result)

def broadcast (t : UdpTransport) (sender : PeerId) (e : Envelope) :
    UdpTransport × Except SendError Unit :=
  if t.isStopped then (t, .error .shutDown)
  else
    let (t, packets) := t.packetsFor sender e false
    let (link, result) := t.link.offerWhileAccepted (packets.map fun p => .broadcast p.datagram)
    ({ t with link }, result)

def forgetPeers (t : UdpTransport) (d : Directory) : UdpTransport × Directory :=
  ({ t with contexts := .empty },
   t.contexts.entries.foldl (fun d e => d.removeRoute (.udp e.1 e.2)) d)

/-- Stops the periodic work, unregisters all routes and gives up all pending packets. -/
def shutDown (t : UdpTransport) (d : Directory) : UdpTransport × Directory :=
  let (t, d) := t.forgetPeers d
  ({ t with schedule := none, outbox := t.outbox.failAll }, d)

end UdpTransport

end PeerMesh

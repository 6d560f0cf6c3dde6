import PeerMesh.Udp.Transport

namespace PeerMesh

structure Sorted where
  acknowledgements : List PacketId
  announcements : List Identity
  reliable : List Packet
  unreliable : List Packet
  tossed : List Packet

namespace Sorted

def packet? : Payload → Option Packet
  | .packet p => some p
  | _ => none

def acknowledgement? : Payload → Option PacketId
  | .acknowledgement id => some id
  | _ => none

def announcement? : Payload → Option Identity
  | .announcement i => some i
  | _ => none

def ofPayloads (self : Identity) (ps : List Payload) : Sorted :=
  let packets := ps.filterMap packet?
  let (own, tossed) := packets.partition fun p => self.isReceiver p.receiver
  let (reliable, unreliable) := own.partition Packet.reliable
  { acknowledgements := ps.filterMap acknowledgement?
    announcements := ps.filterMap announcement?
    reliable
    unreliable
    tossed }

end Sorted

structure Reception where
  transport : UdpTransport
  directory : Directory
  arrivals : List Envelope := []
  released : List Held := []

namespace UdpTransport

def place (t : UdpTransport) (d : Directory) (peer : PeerId) (a : SocketAddress) :
    UdpTransport × Directory :=
  match t.contexts.get? peer with
  | some endpoint => ({ t with endpoints := (t.endpoints.move endpoint a).1 }, d)
  | none =>
    let (endpoints, endpoint) := t.endpoints.add a
    ({ t with endpoints, contexts := t.contexts.put peer endpoint },
      d.addRoute (.udp peer endpoint))

/-- Sends the acknowledgement of a packet to its sender, or to all nodes if it is not known where
the sender is. That it fails does not matter. -/
def acknowledge (t : UdpTransport) (p : Packet) : UdpTransport :=
  let datagram := (Payload.acknowledgement p.id).encode
  match t.contexts.get? p.sender with
  | some endpoint => (t.offer (.unicast (t.endpoints.address endpoint) datagram)).1
  | none => (t.offer (.broadcast datagram)).1

def countDispatched (t : UdpTransport) : UdpTransport :=
  { t with statistics.dispatched := t.statistics.dispatched + 1 }

def unpack (t : UdpTransport) (now : Nat) (p : Packet) : UdpTransport × Option Envelope :=
  if p.message.body.Holds Chunk then
    match p.message.body.read Chunk with
    | .error _ => (t, none)
    | .ok c =>
      match t.reassembler.accept now p.message c with
      | (r, .ok (some e)) => ({ t with reassembler := r }.countDispatched, some e)
      | (r, _) => ({ t with reassembler := r }, none)
  else (t.countDispatched, some p.message)

end UdpTransport

namespace Reception

/-- Takes the announcement of a peer that came from an address. The route goes first, so that
handlers of released messages can answer. -/
def announced (source : IpAddress) (r : Reception) (i : Identity) : Reception :=
  if i.id = r.directory.identity.id ∨ i.id.isNil then r
  else
    let (t, d) :=
      match i.declaredPort unicastPortKey with
      | some port => r.transport.place r.directory i.id { ip := source, port }
      | none => (r.transport, r.directory)
    let (d, released) := d.learn i
    { r with transport := t, directory := d, released := r.released ++ released }

def unpacked (now : Nat) (r : Reception) (p : Packet) : Reception :=
  let (t, e) := r.transport.unpack now p
  { r with transport := t, arrivals := r.arrivals ++ e.toList }

def handle (r : Reception) (now : Nat) (source : IpAddress) (s : Sorted) : Reception :=
  let t := r.transport
  let t :=
    { t with
      statistics.tossed := t.statistics.tossed + s.tossed.length
      outbox := s.acknowledgements.foldl (fun o id => (o.acknowledge id).1) t.outbox }
  let r := s.announcements.foldl (announced source) { r with transport := t }
  let t := s.reliable.foldl UdpTransport.acknowledge r.transport
  let (filter, fresh) := t.filter.sift s.reliable
  let t :=
    { t with
      filter
      statistics.duplicates := t.statistics.duplicates + (s.reliable.length - fresh.length) }
  (fresh ++ s.unreliable).foldl (unpacked now) { r with transport := t }

end Reception

def UdpTransport.receive (t : UdpTransport) (d : Directory) (now : Nat) (datagram : Bytes)
    (source : SocketAddress) : Reception :=
  let t := { t with statistics.datagrams := t.statistics.datagrams + 1 }
  match Datagram.decode datagram with
  | .error _ =>
    { transport := { t with statistics.malformed := t.statistics.malformed + 1 }, directory := d }
  | .ok ps =>
    { transport := t, directory := d : Reception }.handle now source.ip
      (Sorted.ofPayloads d.identity ps)

end PeerMesh

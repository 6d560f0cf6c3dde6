import PeerMesh.Proofs.Sends

namespace PeerMesh

def Datagram.acknowledged (self : PeerId) (ps : List Payload) : List Packet :=
  (ps.filterMap Sorted.packet?).filter fun p =>
    p.reliable ∧ (p.receiver = self ∨ p.receiver.isNil)

theorem Sorted.reliable_ofPayloads (self : Identity) (ps : List Payload) :
    (ofPayloads self ps).reliable = Datagram.acknowledged self.id ps := by
  simp only [ofPayloads, List.partition_eq_filter_filter, List.filter_filter,
    Datagram.acknowledged]
  apply List.filter_congr
  intro p _
  simp [Identity.isReceiver, beq_eq_decide]

namespace UdpTransport

/-- The acknowledgement of a packet, to where its sender is if that is known, and else to all. -/
def acknowledgement (t : UdpTransport) (p : Packet) : Parcel :=
  let datagram := (Payload.acknowledgement p.id).encode
  match t.contexts.get? p.sender with
  | some endpoint => .unicast (t.endpoints.address endpoint) datagram
  | none => .broadcast datagram

theorem datagram_acknowledgement (t : UdpTransport) (p : Packet) :
    (t.acknowledgement p).datagram = (Payload.acknowledgement p.id).encode := by
  unfold acknowledgement
  cases t.contexts.get? p.sender with
  | some endpoint => rfl
  | none => rfl

/-- The transport on another network, or on the same one at another time. -/
def onLink (t : UdpTransport) (link : Link) : UdpTransport :=
  { t with link }

theorem acknowledge_eq_offer (t : UdpTransport) (p : Packet) :
    t.acknowledge p = (t.offer (t.acknowledgement p)).1 := by
  unfold acknowledge acknowledgement
  cases t.contexts.get? p.sender with
  | some endpoint => rfl
  | none => rfl

theorem acknowledgeAll_eq_offerAll (t : UdpTransport) (ps : List Packet) :
    ps.foldl acknowledge t = t.onLink (t.link.offerAll (ps.map t.acknowledgement)) := by
  induction ps generalizing t with
  | nil => rfl
  | cons p ps ih =>
    rw [List.foldl_cons, ih, acknowledge_eq_offer]
    rfl

def aside (t : UdpTransport) (link : Link → Link) (tossed : Nat → Nat) : UdpTransport :=
  { t with link := link t.link, statistics.tossed := tossed t.statistics.tossed }

variable (link : Link → Link) (tossed : Nat → Nat)

theorem place_aside (t : UdpTransport) (d : Directory) (peer : PeerId) (a : SocketAddress) :
    (t.aside link tossed).place d peer a =
      ((t.place d peer a).1.aside link tossed, (t.place d peer a).2) := by
  have hc : (t.aside link tossed).contexts = t.contexts := rfl
  unfold place
  rw [hc]
  cases t.contexts.get? peer with
  | some endpoint => rfl
  | none => rfl

theorem unpack_aside (t : UdpTransport) (now : Nat) (p : Packet) :
    (t.aside link tossed).unpack now p =
      ((t.unpack now p).1.aside link tossed, (t.unpack now p).2) := by
  have hr : (t.aside link tossed).reassembler = t.reassembler := rfl
  unfold unpack
  rw [hr]
  by_cases hc : p.message.body.Holds Chunk
  · rw [if_pos hc, if_pos hc]
    cases p.message.body.read Chunk with
    | error e => rfl
    | ok c =>
      dsimp only
      split
      · rfl
      · rfl
  · rw [if_neg hc, if_neg hc]
    rfl

end UdpTransport

namespace Reception

def onLink (r : Reception) (link : Link) : Reception :=
  { r with transport := r.transport.onLink link }

def aside (r : Reception) (link : Link → Link) (tossed : Nat → Nat) : Reception :=
  { r with transport := r.transport.aside link tossed }

variable (link : Link → Link) (tossed : Nat → Nat)

theorem announced_aside (source : IpAddress) (r : Reception) (i : Identity) :
    announced source (r.aside link tossed) i = (announced source r i).aside link tossed := by
  have hd : (r.aside link tossed).directory = r.directory := rfl
  unfold announced
  rw [hd]
  by_cases hi : i.id = r.directory.identity.id ∨ i.id.isNil
  · rw [if_pos hi, if_pos hi]
  · rw [if_neg hi, if_neg hi]
    cases i.declaredPort unicastPortKey with
    | none => rfl
    | some port =>
      dsimp only
      rw [show (r.aside link tossed).transport = r.transport.aside link tossed from rfl,
        UdpTransport.place_aside]
      rfl

theorem unpacked_aside (now : Nat) (r : Reception) (p : Packet) :
    unpacked now (r.aside link tossed) p = (unpacked now r p).aside link tossed := by
  unfold unpacked
  rw [show (r.aside link tossed).transport = r.transport.aside link tossed from rfl,
    UdpTransport.unpack_aside]
  rfl

theorem announcedAll_aside (source : IpAddress) (r : Reception) (is : List Identity) :
    is.foldl (announced source) (r.aside link tossed) =
      (is.foldl (announced source) r).aside link tossed :=
  List.foldl_hom (aside · link tossed) fun r i => announced_aside link tossed source r i

theorem unpackedAll_aside (now : Nat) (r : Reception) (ps : List Packet) :
    ps.foldl (unpacked now) (r.aside link tossed) =
      (ps.foldl (unpacked now) r).aside link tossed :=
  List.foldl_hom (aside · link tossed) fun r p => unpacked_aside link tossed now r p

end Reception

/-- Two receptions know of the same peers at the same places. -/
structure Reception.SamePlaces (r r' : Reception) : Prop where
  contexts : r'.transport.contexts = r.transport.contexts
  endpoints : r'.transport.endpoints = r.transport.endpoints
  directory : r'.directory = r.directory

namespace Reception.SamePlaces

variable {r r' : Reception}

theorem announced (h : r.SamePlaces r') (source : IpAddress) (i : Identity) :
    (announced source r i).SamePlaces (announced source r' i) := by
  unfold Reception.announced
  rw [h.directory]
  by_cases hi : i.id = r.directory.identity.id ∨ i.id.isNil
  · rw [if_pos hi, if_pos hi]
    exact h
  · rw [if_neg hi, if_neg hi]
    cases i.declaredPort unicastPortKey with
    | none => exact ⟨h.contexts, h.endpoints, rfl⟩
    | some port =>
      unfold UdpTransport.place
      rw [h.contexts, h.endpoints]
      cases r.transport.contexts.get? i.id with
      | some endpoint => exact ⟨rfl, rfl, rfl⟩
      | none => exact ⟨rfl, rfl, rfl⟩

theorem announcedAll (h : r.SamePlaces r') (source : IpAddress) (is : List Identity) :
    (is.foldl (Reception.announced source) r).SamePlaces
      (is.foldl (Reception.announced source) r') := by
  induction is generalizing r r' with
  | nil => exact h
  | cons i is ih => exact ih (h.announced source i)

theorem acknowledgement (h : r.SamePlaces r') :
    r'.transport.acknowledgement = r.transport.acknowledgement := by
  funext p
  unfold UdpTransport.acknowledgement
  rw [h.contexts, h.endpoints]

end Reception.SamePlaces

namespace Reception

theorem announcedAll_onLink (source : IpAddress) (link : Link) (r : Reception)
    (is : List Identity) :
    is.foldl (announced source) (r.onLink link) = (is.foldl (announced source) r).onLink link :=
  announcedAll_aside (fun _ => link) id source r is

theorem unpackedAll_onLink (now : Nat) (link : Link) (r : Reception) (ps : List Packet) :
    ps.foldl (unpacked now) (r.onLink link) = (ps.foldl (unpacked now) r).onLink link :=
  unpackedAll_aside (fun _ => link) id now r ps

def noted (r : Reception) (s : Sorted) : Reception :=
  { r with
    transport :=
      { r.transport with
        statistics.tossed := r.transport.statistics.tossed + s.tossed.length
        outbox := s.acknowledgements.foldl (fun o id => (o.acknowledge id).1)
          r.transport.outbox } }

def concluded (r : Reception) (now : Nat) (s : Sorted) : Reception :=
  let t := s.reliable.foldl UdpTransport.acknowledge r.transport
  let (filter, fresh) := t.filter.sift s.reliable
  let t :=
    { t with
      filter
      statistics.duplicates := t.statistics.duplicates + (s.reliable.length - fresh.length) }
  (fresh ++ s.unreliable).foldl (unpacked now) { r with transport := t }

theorem handle_eq (r : Reception) (now : Nat) (source : IpAddress) (s : Sorted) :
    r.handle now source s =
      (s.announcements.foldl (announced source) (r.noted s)).concluded now s :=
  rfl

theorem concluded_onLink (r : Reception) (link : Link) (now : Nat) (s : Sorted) :
    (r.onLink link).concluded now s = (r.concluded now s).onLink
      (link.offerAll (s.reliable.map r.transport.acknowledgement)) := by
  unfold concluded
  dsimp only
  rw [UdpTransport.acknowledgeAll_eq_offerAll, UdpTransport.acknowledgeAll_eq_offerAll,
    ← unpackedAll_onLink]
  rfl

theorem handle_onLink (r : Reception) (link : Link) (now : Nat) (source : IpAddress) (s : Sorted) :
    (r.onLink link).handle now source s =
      (r.handle now source s).onLink (link.offerAll
        (s.reliable.map
          (s.announcements.foldl (announced source) r).transport.acknowledgement)) := by
  have hsame : r.SamePlaces (r.noted s) := ⟨rfl, rfl, rfl⟩
  have hnoted : (r.onLink link).noted s = (r.noted s).onLink link := rfl
  rw [handle_eq, handle_eq, hnoted, announcedAll_onLink, concluded_onLink,
    (hsame.announcedAll source s.announcements).acknowledgement]

end Reception

namespace UdpTransport

def afterAnnouncements (t : UdpTransport) (d : Directory) (datagram : Bytes)
    (source : SocketAddress) : UdpTransport :=
  (((Datagram.payloads datagram).filterMap Sorted.announcement?).foldl
    (Reception.announced source.ip) { transport := t, directory := d }).transport

def answers (t : UdpTransport) (d : Directory) (datagram : Bytes) (source : SocketAddress) :
    List Parcel :=
  (Datagram.acknowledged d.identity.id (Datagram.payloads datagram)).map
    (t.afterAnnouncements d datagram source).acknowledgement

/-- Receiving a datagram offers the answers to the network, and does everything else as on any other
network. -/
theorem receive_onLink (t : UdpTransport) (link : Link) (d : Directory) (now : Nat)
    (datagram : Bytes) (source : SocketAddress) :
    (t.onLink link).receive d now datagram source =
      (t.receive d now datagram source).onLink
        (link.offerAll (t.answers d datagram source)) := by
  unfold receive answers afterAnnouncements Datagram.payloads
  cases Datagram.decode datagram with
  | error e => rfl
  | ok ps =>
    dsimp only
    rw [← Sorted.reliable_ofPayloads]
    let counted : UdpTransport :=
      { t with statistics.datagrams := t.statistics.datagrams + 1 }
    have hsame : ({ transport := t, directory := d : Reception }).SamePlaces
        { transport := counted, directory := d } := ⟨rfl, rfl, rfl⟩
    rw [← (hsame.announcedAll source.ip _).acknowledgement]
    exact Reception.handle_onLink { transport := counted, directory := d } link now source.ip
      (Sorted.ofPayloads d.identity ps)

/-- A datagram is answered by one acknowledgement for each reliable packet for the node itself. What
becomes of these on the network has no influence on anything else that the datagram leads to. -/
theorem acknowledges_reliable (t : UdpTransport) (d : Directory) (now : Nat) (datagram : Bytes)
    (source : SocketAddress) :
    let packets := Datagram.acknowledged d.identity.id (Datagram.payloads datagram)
    let parcels := packets.map (t.afterAnnouncements d datagram source).acknowledgement
    let r := t.receive d now datagram source
    r.transport.link.offered = t.link.offered ++ parcels ∧
      (∀ p, Datagram.decode
        ((t.afterAnnouncements d datagram source).acknowledgement p).datagram =
          .ok [.acknowledgement p.id]) ∧
      ∀ link, (t.onLink link).receive d now datagram source = r.onLink (link.offerAll parcels) := by
  intro packets parcels r
  have hreceive (link : Link) : (t.onLink link).receive d now datagram source =
      r.onLink (link.offerAll parcels) := t.receive_onLink link d now datagram source
  refine ⟨?_, fun p => ?_, hreceive⟩
  · have hlink : r.transport.link = t.link.offerAll parcels :=
      congrArg (fun r => r.transport.link) (hreceive t.link)
    rw [hlink, Link.offered_offerAll]
  · rw [datagram_acknowledgement]
    have hdecode := Datagram.decode_encode [.acknowledgement p.id] (by simp [Payload.Sized])
    rwa [Datagram.encode, List.flatMap_singleton] at hdecode

def mixedPayloads : List Payload :=
  let packet (id : Nat) (receiver : PeerId) (reliable : Bool) : Payload :=
    .packet ⟨⟨BitVec.ofNat 128 id⟩, ⟨2⟩, receiver, reliable, ⟨⟨2⟩, receiver, ⟨⟨7⟩, []⟩⟩⟩
  [packet 5 ⟨1⟩ true, packet 6 ⟨3⟩ true, packet 7 ⟨1⟩ false, packet 5 ⟨1⟩ true,
    .announcement (({ id := ⟨2⟩, name := "second" } : Identity).declare unicastPortKey (.int 4000))]

theorem acknowledges_reliable_mixedPayloads :
    let d : Directory := { identity := { id := ⟨1⟩, name := "first" } }
    let link : Link := { port := 4000, fault := fun _ _ => some .shutDown }
    let answer : Parcel := .unicast ⟨.v4 0x0a000002, 4000, 0⟩ (Payload.acknowledgement ⟨5⟩).encode
    ((start {} link (.numbered 0 100) 0).receive d 9 (Datagram.encode mixedPayloads)
      ⟨.v4 0x0a000002, 21337, 0⟩).transport.link.offered = [answer, answer] := by
  intro d link answer
  refine (acknowledges_reliable _ d 9 (Datagram.encode mixedPayloads) _).1.trans ?_
  decide +kernel

end UdpTransport

end PeerMesh

import PeerMesh.Proofs.Statistics

namespace PeerMesh

/-- Lists of payloads in which a node finds the same acknowledgements, announcements, and reliable
and unreliable packets for itself. -/
structure Datagram.Alike (node : PeerId) (ps qs : List Payload) : Prop where
  acknowledgements :
    qs.filterMap Sorted.acknowledgement? = ps.filterMap Sorted.acknowledgement?
  announcements : qs.filterMap Sorted.announcement? = ps.filterMap Sorted.announcement?
  own : ∀ reliable, Packet.own node reliable (packets qs) = Packet.own node reliable (packets ps)

theorem Datagram.Alike.ofPayloads {self : Identity} {ps qs : List Payload}
    (h : Alike self.id ps qs) : Sorted.ofPayloads self qs =
      { Sorted.ofPayloads self ps with tossed := Packet.foreign self.id (packets qs) } := by
  simp only [Sorted.ofPayloads_eq, h.acknowledgements, h.announcements, h.own]

namespace Reception

theorem concluded_aside (r : Reception) (tossed : Nat → Nat) (now : Nat) (s : Sorted) :
    (r.aside id tossed).concluded now s = (r.concluded now s).aside id tossed := by
  unfold concluded
  dsimp only
  rw [UdpTransport.acknowledgeAll_eq_offerAll, UdpTransport.acknowledgeAll_eq_offerAll,
    ← unpackedAll_aside]
  rfl

theorem handle_tossed (r : Reception) (now : Nat) (source : IpAddress) (s : Sorted) :
    r.handle now source s =
      (r.handle now source { s with tossed := [] }).aside id (· + s.tossed.length) := by
  have hnoted : r.noted s = (r.noted { s with tossed := [] }).aside id (· + s.tossed.length) := rfl
  have hconcluded (r : Reception) :
      r.concluded now s = r.concluded now { s with tossed := [] } := rfl
  rw [handle_eq, handle_eq, hnoted, announcedAll_aside, hconcluded, concluded_aside]

theorem handle_alike (r : Reception) (now : Nat) (source : IpAddress) (s : Sorted)
    (tossed : List Packet) : r.handle now source { s with tossed } =
      { r.handle now source s with
        transport.statistics.tossed := r.transport.statistics.tossed + tossed.length } := by
  have hbase : (r.handle now source { s with tossed := [] }).transport.statistics.tossed =
      r.transport.statistics.tossed := by
    rw [statistics_handle]
    rfl
  rw [handle_tossed r now source s, handle_tossed, ← hbase]
  rfl

end Reception

namespace UdpTransport

variable {a b : Bytes} {ps qs : List Payload}

theorem receive_of_alike (ha : Datagram.decode a = .ok ps) (hb : Datagram.decode b = .ok qs)
    {d : Directory} (h : Datagram.Alike d.identity.id ps qs) (t : UdpTransport) (now : Nat)
    (source : SocketAddress) : t.receive d now b source =
      { t.receive d now a source with
        transport.statistics.tossed :=
          t.statistics.tossed + (Packet.foreign d.identity.id (Datagram.packets qs)).length } := by
  rw [receive_of_decode hb, h.ofPayloads, Reception.handle_alike, receive_of_decode ha]

theorem receive_of_alike_nil (ha : Datagram.decode a = .ok ps) {d : Directory}
    (h : Datagram.Alike d.identity.id [] ps) (t : UdpTransport) (now : Nat)
    (source : SocketAddress) : t.receive d now a source =
      { transport :=
          { t with
            statistics.datagrams := t.statistics.datagrams + 1
            statistics.tossed :=
              t.statistics.tossed + (Packet.foreign d.identity.id (Datagram.packets ps)).length }
        directory := d } := by
  rw [receive_of_decode ha, h.ofPayloads, Reception.handle_alike]
  rfl

/-- Datagrams in which a node finds the same lead to the same, but for the count of packets for
others; and those in which it finds nothing lead to nothing but counts. -/
theorem receive_alike (t : UdpTransport) (d : Directory) (now : Nat) (source : SocketAddress)
    (ha : Datagram.decode a = .ok ps) :
    let r := t.receive d now a source
    let tossed := fun ps : List Payload =>
      t.statistics.tossed + (Packet.foreign d.identity.id (Datagram.packets ps)).length
    r.transport.statistics.tossed = tossed ps ∧
      (∀ b qs, Datagram.decode b = .ok qs → Datagram.Alike d.identity.id ps qs →
        t.receive d now b source = { r with transport.statistics.tossed := tossed qs }) ∧
      (Datagram.Alike d.identity.id [] ps → r =
        { transport :=
            { t with
              statistics.datagrams := t.statistics.datagrams + 1
              statistics.tossed := tossed ps }
          directory := d }) := by
  refine ⟨?_, fun b qs hb h => ?_, fun h => ?_⟩
  · rw [statistics_receive, Datagram.payloads_of_decode ha]
  · exact receive_of_alike ha hb h t now source
  · exact receive_of_alike_nil ha h t now source

def reordered : List Payload :=
  .acknowledgement ⟨9⟩ :: .handshake { id := ⟨2⟩, name := "second" } ::
    .packet ⟨⟨8⟩, ⟨2⟩, ⟨3⟩, true, ⟨⟨2⟩, ⟨3⟩, ⟨⟨7⟩, []⟩⟩⟩ :: mixedPayloads.reverse

theorem receive_alike_reordered :
    let d : Directory := { identity := { id := ⟨1⟩, name := "first" } }
    let t := start {} { port := 4000, fault := fun _ _ => none } (.numbered 0 100) 0
    let source : SocketAddress := ⟨.v4 0x0a000002, 21337, 0⟩
    let r := t.receive d 9 (Datagram.encode (mixedPayloads ++ [.acknowledgement ⟨9⟩])) source
    r.transport.statistics.tossed = 1 ∧
      t.receive d 9 (Datagram.encode reordered) source =
        { r with transport.statistics.tossed := 2 } := by
  intro d t source r
  have ha := Datagram.decode_encode (mixedPayloads ++ [.acknowledgement ⟨9⟩]) (by decide)
  have hb := Datagram.decode_encode reordered (by decide)
  have halike : Datagram.Alike ⟨1⟩ (mixedPayloads ++ [.acknowledgement ⟨9⟩]) reordered :=
    ⟨by decide, by decide, by decide⟩
  obtain ⟨htossed, hreceive, -⟩ := receive_alike t d 9 source ha
  exact ⟨htossed, hreceive (Datagram.encode reordered) reordered hb halike⟩

end UdpTransport

end PeerMesh

import PeerMesh.Proofs.Gathering
import PeerMesh.Udp.Inbound

namespace PeerMesh

def Datagram.payloads (bs : Bytes) : List Payload :=
  match Datagram.decode bs with
  | .ok ps => ps
  | .error _ => []

theorem Datagram.payloads_encode {p : Payload} (h : p.Sized) : payloads p.encode = [p] := by
  have hd := decode_encode [p] (by simpa using h)
  rw [encode, List.flatMap_cons, List.flatMap_nil, List.append_nil] at hd
  rw [payloads, hd]

def Parcel.datagram : Parcel → Bytes
  | .unicast _ datagram => datagram
  | .broadcast datagram => datagram

def Link.datagrams (l : Link) : List Bytes :=
  l.offered.map Parcel.datagram

theorem Link.datagrams_offer (l : Link) (p : Parcel) :
    (l.offer p).1.datagrams = l.datagrams ++ [p.datagram] := by
  rw [datagrams, offered_offer, List.map_append]
  rfl

theorem Link.datagrams_offerAll (l : Link) (ps : List Parcel) :
    (l.offerAll ps).datagrams = l.datagrams ++ ps.map Parcel.datagram := by
  rw [datagrams, offered_offerAll, List.map_append]
  rfl

namespace DuplicateFilter

theorem sift_singleton (f : DuplicateFilter) (p : Packet) :
    f.sift [p] = if p.id ∈ f.seen then (f, []) else (⟨p.id :: f.seen⟩, [p]) := by
  by_cases h : p.id ∈ f.seen
  · simp [sift, test, retain, List.eraseDups_cons, h]
  · simp [sift, test, retain, List.eraseDups_cons, h]

theorem mem_seen_sift (f : DuplicateFilter) (ps : List Packet) (id : PacketId) :
    id ∈ (f.sift ps).1.seen ↔ id ∈ f.seen ∨ id ∈ ps.map Packet.id := by
  simp only [sift, test, List.mem_append, List.mem_reverse, List.mem_filter, List.mem_eraseDups,
    decide_eq_true_eq]
  by_cases h : id ∈ f.seen
  · simp [h]
  · simp [h]

theorem retain_subset (verdicts : List (PacketId × Bool)) (ps : List Packet) :
    retain verdicts ps ⊆ ps := by
  induction ps generalizing verdicts with
  | nil => exact List.Subset.refl _
  | cons p ps ih =>
    have h := ih (verdicts.filter (·.1 ≠ p.id))
    rw [retain]
    split
    · exact List.cons_subset_cons p h
    · exact List.subset_cons_of_subset p h

theorem sift_subset (f : DuplicateFilter) (ps : List Packet) : (f.sift ps).2 ⊆ ps :=
  retain_subset _ ps

end DuplicateFilter

namespace Sorted

theorem packet?_eq_some {a : Payload} {p : Packet} : packet? a = some p ↔ a = .packet p := by
  cases a <;> simp [packet?]

theorem acknowledgement?_eq_some {a : Payload} {id : PacketId} :
    acknowledgement? a = some id ↔ a = .acknowledgement id := by
  cases a <;> simp [acknowledgement?]

theorem mem_reliable {self : Identity} {ps : List Payload} {p : Packet} :
    p ∈ (ofPayloads self ps).reliable ↔
      .packet p ∈ ps ∧ p.reliable ∧ self.isReceiver p.receiver := by
  simp [ofPayloads, List.partition_eq_filter_filter, packet?_eq_some]

theorem mem_unreliable {self : Identity} {ps : List Payload} {p : Packet} :
    p ∈ (ofPayloads self ps).unreliable ↔
      .packet p ∈ ps ∧ p.reliable = false ∧ self.isReceiver p.receiver := by
  simp [ofPayloads, List.partition_eq_filter_filter, packet?_eq_some]

theorem mem_acknowledgements {self : Identity} {ps : List Payload} {id : PacketId} :
    id ∈ (ofPayloads self ps).acknowledgements ↔ .acknowledgement id ∈ ps := by
  simp only [ofPayloads, List.mem_filterMap, acknowledgement?_eq_some, exists_eq_right]

theorem ofPayloads_packet {self : Identity} {p : Packet} (h : self.isReceiver p.receiver)
    (hr : p.reliable) : ofPayloads self [.packet p] = ⟨[], [], [p], [], []⟩ := by
  simp [ofPayloads, packet?, acknowledgement?, announcement?, h, hr]

end Sorted

namespace Reassembler

/-- Takes the message of a packet, which may be a chunk, and gives the messages that it brings to an
end. -/
def take (r : Reassembler) (now : Nat) (e : Envelope) : Reassembler × List Envelope :=
  if e.body.Holds Chunk then
    match e.body.read Chunk with
    | .error _ => (r, [])
    | .ok c => ((r.accept now e c).1, (givenOut (r.accept now e c).2).toList)
  else (r, [e])

def takeAll (r : Reassembler) (now : Nat) : List Packet → Reassembler × List Envelope
  | [] => (r, [])
  | p :: ps =>
    let next := (r.take now p.message).1.takeAll now ps
    (next.1, (r.take now p.message).2 ++ next.2)

theorem takeAll_nil (r : Reassembler) (now : Nat) : r.takeAll now [] = (r, []) :=
  rfl

theorem takeAll_singleton (r : Reassembler) (now : Nat) (p : Packet) :
    r.takeAll now [p] = r.take now p.message := by
  simp [takeAll]

theorem take_of_read {e : Envelope} {c : Chunk} (h : e.body.read Chunk = .ok c) (r : Reassembler)
    (now : Nat) :
    r.take now e = ((r.accept now e c).1, (givenOut (r.accept now e c).2).toList) := by
  have hc : e.body.Holds Chunk := by
    by_contra hn
    rw [Body.read, if_neg hn] at h
    cases h
  rw [take, if_pos hc]
  simp only [h]

theorem take_frame (r : Reassembler) (now : Nat) {e : Envelope} {id : MultiPartId}
    (he : ∀ c, e.body.read Chunk = .ok c → c.id ≠ id) :
    (r.take now e).1.inProgress.get? id = r.inProgress.get? id ∧
      (id ∈ (r.take now e).1.completed ↔ id ∈ r.completed) := by
  rw [take]
  split
  · split
    · exact ⟨rfl, Iff.rfl⟩
    · rename_i c hc
      exact r.accept_frame now e (Ne.symm (he c hc))
  · exact ⟨rfl, Iff.rfl⟩

theorem takeAll_frame (r : Reassembler) (now : Nat) {ps : List Packet} {id : MultiPartId}
    (hps : ∀ p ∈ ps, ∀ c, p.message.body.read Chunk = .ok c → c.id ≠ id) :
    (r.takeAll now ps).1.inProgress.get? id = r.inProgress.get? id ∧
      (id ∈ (r.takeAll now ps).1.completed ↔ id ∈ r.completed) := by
  induction ps generalizing r with
  | nil => exact ⟨rfl, Iff.rfl⟩
  | cons p ps ih =>
    obtain ⟨hp, hc⟩ := r.take_frame now (hps p List.mem_cons_self)
    obtain ⟨hp', hc'⟩ := ih (r.take now p.message).1 fun q hq => hps q (List.mem_cons_of_mem p hq)
    exact ⟨hp'.trans hp, hc'.trans hc⟩

end Reassembler

namespace UdpTransport

theorem unpack_eq (t : UdpTransport) (now : Nat) (p : Packet) :
    ∃ statistics, (t.unpack now p).1 =
        { t with reassembler := (t.reassembler.take now p.message).1, statistics } ∧
      (t.unpack now p).2.toList = (t.reassembler.take now p.message).2 := by
  unfold unpack Reassembler.take
  by_cases hc : p.message.body.Holds Chunk
  · simp only [if_pos hc]
    cases hr : p.message.body.read Chunk with
    | error e => exact ⟨t.statistics, rfl, rfl⟩
    | ok c =>
      obtain ⟨⟨r, result⟩, ha⟩ : ∃ a, t.reassembler.accept now p.message c = a := ⟨_, rfl⟩
      simp only [ha]
      cases result with
      | error e => exact ⟨t.statistics, rfl, rfl⟩
      | ok given =>
        cases given with
        | none => exact ⟨t.statistics, rfl, rfl⟩
        | some e => exact ⟨_, rfl, rfl⟩
  · simp only [if_neg hc]
    exact ⟨_, rfl, rfl⟩

theorem acknowledge_eq (t : UdpTransport) (p : Packet) :
    ∃ link : Link, t.acknowledge p = { t with link } ∧
      link.datagrams = t.link.datagrams ++ [(Payload.acknowledgement p.id).encode] := by
  unfold acknowledge
  split
  · exact ⟨_, rfl, t.link.datagrams_offer _⟩
  · exact ⟨_, rfl, t.link.datagrams_offer _⟩

theorem acknowledgeAll_eq (t : UdpTransport) (ps : List Packet) :
    ∃ link : Link, ps.foldl acknowledge t = { t with link } ∧
      link.datagrams = t.link.datagrams ++
        ps.map fun p => (Payload.acknowledgement p.id).encode := by
  induction ps generalizing t with
  | nil => exact ⟨t.link, rfl, by simp⟩
  | cons p ps ih =>
    obtain ⟨link, ha, hl⟩ := t.acknowledge_eq p
    obtain ⟨link', hb, hl'⟩ := ih (t.acknowledge p)
    refine ⟨link', ?_, ?_⟩
    · rw [List.foldl_cons, hb, ha]
    · rw [hl', ha, hl, List.append_assoc]
      rfl

end UdpTransport

theorem Directory.identity_addRoute (d : Directory) (r : Route) :
    (d.addRoute r).identity = d.identity := by
  unfold addRoute
  split
  · rfl
  · rfl

theorem UdpTransport.place_eq (t : UdpTransport) (d : Directory) (peer : PeerId)
    (a : SocketAddress) :
    ∃ endpoints contexts, (t.place d peer a).1 = { t with endpoints, contexts } ∧
      (t.place d peer a).2.identity = d.identity := by
  unfold place
  split
  · exact ⟨_, _, rfl, rfl⟩
  · exact ⟨_, _, rfl, d.identity_addRoute _⟩

namespace Reception

theorem announced_eq (source : IpAddress) (r : Reception) (i : Identity) :
    ∃ endpoints contexts directory released, announced source r i =
        { r with
          transport := { r.transport with endpoints, contexts }
          directory
          released } ∧ directory.identity = r.directory.identity := by
  unfold announced
  by_cases hi : i.id = r.directory.identity.id ∨ i.id.isNil
  · rw [if_pos hi]
    exact ⟨_, _, _, _, rfl, rfl⟩
  · rw [if_neg hi]
    cases i.declaredPort unicastPortKey with
    | none => exact ⟨_, _, _, _, rfl, rfl⟩
    | some port =>
      obtain ⟨endpoints, contexts, ht, hd⟩ :=
        r.transport.place_eq r.directory i.id { ip := source, port }
      obtain ⟨⟨t, d⟩, hp⟩ : ∃ placed, r.transport.place r.directory i.id { ip := source, port } =
        placed := ⟨_, rfl⟩
      rw [hp] at ht hd
      refine ⟨endpoints, contexts, (d.learn i).1, r.released ++ (d.learn i).2, ?_, hd⟩
      simp only [hp, ht]

theorem announcedAll_eq (source : IpAddress) (r : Reception) (is : List Identity) :
    ∃ endpoints contexts directory released, is.foldl (announced source) r =
        { r with
          transport := { r.transport with endpoints, contexts }
          directory
          released } ∧ directory.identity = r.directory.identity := by
  induction is generalizing r with
  | nil => exact ⟨_, _, _, _, rfl, rfl⟩
  | cons i is ih =>
    obtain ⟨_, _, directory, _, he, hd⟩ := announced_eq source r i
    obtain ⟨endpoints, contexts, directory', released, he', hd'⟩ := ih (announced source r i)
    refine ⟨endpoints, contexts, directory', released, ?_, ?_⟩
    · rw [List.foldl_cons, he', he]
    · rw [hd', he, hd]

theorem unpackedAll_eq (now : Nat) (r : Reception) (ps : List Packet) :
    ∃ statistics, ps.foldl (unpacked now) r =
      { r with
        transport :=
          { r.transport with
            reassembler := (r.transport.reassembler.takeAll now ps).1
            statistics }
        arrivals := r.arrivals ++ (r.transport.reassembler.takeAll now ps).2 } := by
  induction ps generalizing r with
  | nil => exact ⟨r.transport.statistics, by simp [Reassembler.takeAll]⟩
  | cons p ps ih =>
    obtain ⟨_, ht, he⟩ := r.transport.unpack_eq now p
    obtain ⟨statistics, hr⟩ := ih (unpacked now r p)
    refine ⟨statistics, ?_⟩
    rw [List.foldl_cons, hr]
    simp only [unpacked, ht, he, Reassembler.takeAll, List.append_assoc]

end Reception

/-- Of a transport with the directory `d`, the reception handles the sorted payloads `s`. Where
peers are reached and the statistics are left open. -/
structure Reception.Handles (r : Reception) (t : UdpTransport) (d : Directory) (now : Nat)
    (s : Sorted) : Prop where
  transport : ∃ endpoints contexts statistics link, r.transport =
    { t with
      outbox := s.acknowledgements.foldl (fun o id => (o.acknowledge id).1) t.outbox
      filter := (t.filter.sift s.reliable).1
      reassembler := (t.reassembler.takeAll now ((t.filter.sift s.reliable).2 ++ s.unreliable)).1
      endpoints, contexts, statistics, link }
  identity : r.directory.identity = d.identity
  arrivals : r.arrivals =
    (t.reassembler.takeAll now ((t.filter.sift s.reliable).2 ++ s.unreliable)).2
  datagrams : r.transport.link.datagrams =
    t.link.datagrams ++ s.reliable.map fun p => (Payload.acknowledgement p.id).encode

theorem UdpTransport.handle_handles (t : UdpTransport) (d : Directory) (now : Nat)
    (source : IpAddress) (s : Sorted) :
    ({ transport := t, directory := d : Reception }.handle now source s).Handles t d now s := by
  unfold Reception.handle
  dsimp only
  obtain ⟨endpoints, contexts, directory, released, ha, hd⟩ := Reception.announcedAll_eq source
    { transport :=
        { t with
          statistics.tossed := t.statistics.tossed + s.tossed.length
          outbox := s.acknowledgements.foldl (fun o id => (o.acknowledge id).1) t.outbox }
      directory := d : Reception } s.announcements
  rw [ha]
  obtain ⟨link, hb, hl⟩ := UdpTransport.acknowledgeAll_eq
    { t with
      outbox := s.acknowledgements.foldl (fun o id => (o.acknowledge id).1) t.outbox
      statistics.tossed := t.statistics.tossed + s.tossed.length
      endpoints
      contexts } s.reliable
  rw [hb]
  obtain ⟨statistics, hc⟩ := Reception.unpackedAll_eq now _ _
  rw [hc]
  exact ⟨⟨_, _, _, _, rfl⟩, hd, List.nil_append _, hl⟩

/-- What receiving a datagram does: a malformed one is handled as one without payloads. -/
theorem UdpTransport.receive_handles (t : UdpTransport) (d : Directory) (now : Nat)
    (datagram : Bytes) (source : SocketAddress) :
    (t.receive d now datagram source).Handles t d now
      (Sorted.ofPayloads d.identity (Datagram.payloads datagram)) := by
  unfold receive
  cases hd : Datagram.decode datagram with
  | error e =>
    have hp : Datagram.payloads datagram = [] := by rw [Datagram.payloads, hd]
    rw [hp]
    exact ⟨⟨_, _, _, _, rfl⟩, rfl, rfl, (List.append_nil _).symm⟩
  | ok ps =>
    have hp : Datagram.payloads datagram = ps := by rw [Datagram.payloads, hd]
    rw [hp]
    obtain ⟨⟨endpoints, contexts, statistics, link, ht⟩, hi, ha, hl⟩ :=
      UdpTransport.handle_handles
        { t with statistics := { t.statistics with datagrams := t.statistics.datagrams + 1 } }
        d now source.ip (Sorted.ofPayloads d.identity ps)
    exact ⟨⟨endpoints, contexts, statistics, link, ht⟩, hi, ha, hl⟩

end PeerMesh

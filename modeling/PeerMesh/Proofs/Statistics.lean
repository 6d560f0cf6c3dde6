import PeerMesh.Proofs.Acknowledgements

namespace PeerMesh

def Packet.IsFor (self : PeerId) (p : Packet) : Prop :=
  p.receiver = self ∨ p.receiver.isNil

instance (self : PeerId) (p : Packet) : Decidable (p.IsFor self) :=
  inferInstanceAs (Decidable (_ ∨ _))

def Packet.own (self : PeerId) (reliable : Bool) (ps : List Packet) : List Packet :=
  ps.filter fun p => p.IsFor self ∧ p.reliable = reliable

def Packet.foreign (self : PeerId) (ps : List Packet) : List Packet :=
  ps.filter fun p => ¬ p.IsFor self

namespace Datagram

def IsMalformed (bs : Bytes) : Prop :=
  (decode bs).isOk = false

instance (bs : Bytes) : Decidable (IsMalformed bs) :=
  inferInstanceAs (Decidable (_ = false))

def packets (ps : List Payload) : List Packet :=
  ps.filterMap Sorted.packet?

variable {bs : Bytes} {ps : List Payload}

theorem isMalformed_iff : IsMalformed bs ↔ ∃ e, decode bs = .error e := by
  unfold IsMalformed
  cases decode bs with
  | ok ps => exact iff_of_false nofun nofun
  | error e => exact iff_of_true rfl ⟨e, rfl⟩

theorem payloads_of_decode (h : decode bs = .ok ps) : payloads bs = ps := by
  rw [payloads, h]

theorem payloads_of_isMalformed (h : IsMalformed bs) : payloads bs = [] := by
  obtain ⟨e, he⟩ := isMalformed_iff.mp h
  rw [payloads, he]

end Datagram

theorem Sorted.ofPayloads_eq (self : Identity) (ps : List Payload) : ofPayloads self ps =
    { acknowledgements := ps.filterMap acknowledgement?
      announcements := ps.filterMap announcement?
      reliable := Packet.own self.id true (Datagram.packets ps)
      unreliable := Packet.own self.id false (Datagram.packets ps)
      tossed := Packet.foreign self.id (Datagram.packets ps) } := by
  have hfor (p : Packet) : self.isReceiver p.receiver = decide (p.IsFor self.id) := by
    rw [Identity.isReceiver, beq_eq_decide, Bool.eq_iff_iff, Bool.or_eq_true, decide_eq_true_iff,
      decide_eq_true_iff]
    rfl
  simp only [ofPayloads, List.partition_eq_filter_filter, List.filter_filter, Packet.own,
    Packet.foreign, Datagram.packets, hfor, Sorted.mk.injEq, true_and]
  refine ⟨List.filter_congr fun p _ => ?_, List.filter_congr fun p _ => ?_,
    List.filter_congr fun p _ => ?_⟩
  · simp [and_comm]
  · simp [and_comm]
  · simp

namespace DuplicateFilter

/-- The first packet of each id that is none of `seen`. -/
def firsts (seen : List PacketId) : List Packet → List Packet
  | [] => []
  | p :: ps => if p.id ∈ seen then firsts seen ps else p :: firsts (p.id :: seen) ps

/-- The verdicts are used up while the packets are looked through, so that a second packet with an
id finds none. -/
theorem retain_eq_firsts {verdicts : List (PacketId × Bool)} {seen : List PacketId}
    {ps : List Packet} (h : ∀ p ∈ ps, verdicts.lookup p.id = some true ↔ p.id ∉ seen) :
    retain verdicts ps = firsts seen ps := by
  induction ps generalizing verdicts seen with
  | nil => rfl
  | cons p ps ih =>
    obtain ⟨hp, hps⟩ := List.forall_mem_cons.mp h
    rw [retain, firsts]
    have hrest (id : PacketId) : (verdicts.filter (·.1 ≠ p.id)).lookup id =
        if id ≠ p.id then verdicts.lookup id else none := by
      simpa using KeyedList.lookup_filter_key (decide <| · ≠ p.id) id verdicts
    by_cases hs : p.id ∈ seen
    · rw [if_pos hs, if_neg (by rw [hp]; exact not_not.mpr hs)]
      refine ih fun q hq => ?_
      rw [hrest]
      split
      · exact hps q hq
      · rename_i he
        exact iff_of_false (by simp) (not_not.mpr (not_not.mp he ▸ hs))
    · rw [if_neg hs, if_pos (hp.mpr hs)]
      refine congrArg _ (ih fun q hq => ?_)
      rw [hrest, List.mem_cons, not_or]
      split
      · rename_i he
        exact (hps q hq).trans (iff_and_self.mpr fun _ => he)
      · rename_i he
        exact iff_of_false (by simp) fun hn => he hn.1

theorem sift_eq_firsts (f : DuplicateFilter) (ps : List Packet) :
    (f.sift ps).2 = firsts f.seen ps := by
  refine retain_eq_firsts fun p hp => ?_
  have hm : p.id ∈ (ps.map Packet.id).eraseDups :=
    List.mem_eraseDups.mpr (List.mem_map_of_mem hp)
  rw [List.lookup_graph _ hm]
  simp

end DuplicateFilter

theorem UdpTransport.statistics_unpack (t : UdpTransport) (now : Nat) (p : Packet) :
    (t.unpack now p).1.statistics =
      { t.statistics with
        dispatched := t.statistics.dispatched + (t.unpack now p).2.toList.length } := by
  unfold unpack
  split
  · split
    · rfl
    · split
      · rfl
      · rfl
  · rfl

namespace Reception

theorem statistics_unpackedAll (now : Nat) (r : Reception) (ps : List Packet) :
    (ps.foldl (unpacked now) r).transport.statistics =
      { r.transport.statistics with
        dispatched := r.transport.statistics.dispatched +
          (r.transport.reassembler.takeAll now ps).2.length } := by
  induction ps generalizing r with
  | nil => rfl
  | cons p ps ih =>
    obtain ⟨_, ht, he⟩ := r.transport.unpack_eq now p
    have hs := r.transport.statistics_unpack now p
    rw [he] at hs
    have hunpacked : (unpacked now r p).transport = (r.transport.unpack now p).1 := rfl
    rw [List.foldl_cons, ih, hunpacked, hs, ht, Reassembler.takeAll, List.length_append,
      ← Nat.add_assoc]

theorem statistics_handle (r : Reception) (now : Nat) (source : IpAddress) (s : Sorted) :
    (r.handle now source s).transport.statistics =
      { r.transport.statistics with
        tossed := r.transport.statistics.tossed + s.tossed.length
        duplicates := r.transport.statistics.duplicates +
          (s.reliable.length - (r.transport.filter.sift s.reliable).2.length)
        dispatched := r.transport.statistics.dispatched +
          (r.transport.reassembler.takeAll now
            ((r.transport.filter.sift s.reliable).2 ++ s.unreliable)).2.length } := by
  rw [handle_eq]
  obtain ⟨_, _, _, _, ha, -⟩ := announcedAll_eq source (r.noted s) s.announcements
  rw [ha, concluded]
  dsimp only
  rw [UdpTransport.acknowledgeAll_eq_offerAll, statistics_unpackedAll]
  rfl

end Reception

namespace UdpTransport

variable {datagram : Bytes}

theorem receive_of_isMalformed (h : Datagram.IsMalformed datagram) (t : UdpTransport)
    (d : Directory) (now : Nat) (source : SocketAddress) : t.receive d now datagram source =
      { transport :=
          { t with
            statistics.datagrams := t.statistics.datagrams + 1
            statistics.malformed := t.statistics.malformed + 1 }
        directory := d } := by
  obtain ⟨e, he⟩ := Datagram.isMalformed_iff.mp h
  rw [receive, he]

theorem receive_of_decode {ps : List Payload} (h : Datagram.decode datagram = .ok ps)
    (t : UdpTransport) (d : Directory) (now : Nat) (source : SocketAddress) :
    t.receive d now datagram source =
      ({ transport := { t with statistics.datagrams := t.statistics.datagrams + 1 }
         directory := d } : Reception).handle now source.ip (Sorted.ofPayloads d.identity ps) := by
  rw [receive, h]

/-- What a datagram adds to the counters. -/
theorem statistics_receive (t : UdpTransport) (d : Directory) (now : Nat) (datagram : Bytes)
    (source : SocketAddress) :
    let packets := Datagram.packets (Datagram.payloads datagram)
    let reliable := Packet.own d.identity.id true packets
    (t.receive d now datagram source).transport.statistics =
      { datagrams := t.statistics.datagrams + 1
        malformed := t.statistics.malformed + if Datagram.IsMalformed datagram then 1 else 0
        tossed := t.statistics.tossed + (Packet.foreign d.identity.id packets).length
        duplicates := t.statistics.duplicates +
          (reliable.length - (DuplicateFilter.firsts t.filter.seen reliable).length)
        dispatched := t.statistics.dispatched +
          (t.receive d now datagram source).arrivals.length } := by
  intro packets reliable
  by_cases hm : Datagram.IsMalformed datagram
  · have hp : packets = [] := congrArg Datagram.packets (Datagram.payloads_of_isMalformed hm)
    have hr : reliable = [] := congrArg (Packet.own d.identity.id true) hp
    rw [if_pos hm, receive_of_isMalformed hm, hp, hr]
    rfl
  · have harrivals := (t.receive_handles d now datagram source).arrivals
    obtain ⟨ps, hd⟩ : ∃ ps, Datagram.decode datagram = .ok ps := by
      cases hd : Datagram.decode datagram with
      | ok ps => exact ⟨ps, rfl⟩
      | error e => exact absurd (Datagram.isMalformed_iff.mpr ⟨e, hd⟩) hm
    have hp : packets = Datagram.packets ps :=
      congrArg Datagram.packets (Datagram.payloads_of_decode hd)
    have hr : reliable = Packet.own d.identity.id true (Datagram.packets ps) :=
      congrArg (Packet.own d.identity.id true) hp
    rw [harrivals, if_neg hm, receive_of_decode hd, Reception.statistics_handle,
      Datagram.payloads_of_decode hd, hp, hr, Sorted.ofPayloads_eq,
      DuplicateFilter.sift_eq_firsts]
    rfl

end UdpTransport

end PeerMesh

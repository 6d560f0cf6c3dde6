import PeerMesh.Proofs.Reception

namespace PeerMesh

def Body.FitsMemory (b : Body) : Prop :=
  2 * b.payload.length < UInt64.size

instance (b : Body) : Decidable b.FitsMemory :=
  inferInstanceAs (Decidable (_ < _))

theorem Body.FitsMemory.sized {b : Body} (h : b.FitsMemory) : b.Sized := by
  have hl : 2 * b.payload.length < UInt64.size := h
  rw [Body.Sized]
  omega

theorem Body.FitsMemory.length_encode_lt {b : Body} (h : b.FitsMemory) :
    b.encode.length < UInt64.size := by
  have hl : 2 * b.payload.length < UInt64.size := h
  have hv := @Varint.length_encode_le 9 _ h.sized
  have hs : UInt64.size = 18446744073709551616 := rfl
  rw [b.length_encode]
  omega

theorem Chunk.length_encode_le {c : Chunk} (h : c.data.length < UInt64.size) :
    (Message.encode c).length ≤ 38 + c.data.length := by
  have hv := @Varint.length_encode_le 9 _ h
  simp only [Message.encode, Field.encodeBytes, List.length_append, length_bigEndian,
    MultiPartId.encode, Uuid.length_encode]
  omega

/-- Consecutive numbers as ids. -/
def IdSource.numbered (packets multiParts : Nat) : IdSource where
  packets := { draw := fun k => ⟨BitVec.ofNat 128 (packets + k)⟩ }
  multiParts := { draw := fun k => ⟨BitVec.ofNat 128 (multiParts + k)⟩ }

/-- A message that is sent reliably, with everything that its packets depend on. -/
structure ReliableSend where
  message : Envelope
  sender : PeerId
  max : Nat
  ids : IdSource

namespace ReliableSend

def packets (s : ReliableSend) : List Packet :=
  (s.message.packets s.sender true s.max s.ids).1

def datagrams (s : ReliableSend) : List Bytes :=
  s.packets.map Packet.datagram

def packetIds (s : ReliableSend) : List PacketId :=
  s.packets.map Packet.id

def IsSplit (s : ReliableSend) : Prop :=
  ¬ s.message.Fits s.max

instance (s : ReliableSend) : Decidable s.IsSplit :=
  inferInstanceAs (Decidable (¬ _))

def transfer (s : ReliableSend) : Transfer :=
  ⟨s.message, s.max, s.ids.multiParts.next⟩

def count (s : ReliableSend) : Nat :=
  s.transfer.carriers.length

def part (s : ReliableSend) (k : Nat) : Envelope :=
  if s.IsSplit then s.transfer.carrier k else s.message

def packet (s : ReliableSend) (k : Nat) : Packet where
  id := s.ids.packets.draw (s.ids.packets.used + k)
  sender := s.sender
  receiver := s.message.receiver
  reliable := true
  message := s.part k

/-- The message is split, but too long for its chunks to tell its length. -/
def IsTooLong (s : ReliableSend) : Prop :=
  s.IsSplit ∧ UInt32.size ≤ s.message.body.encode.length

instance (s : ReliableSend) : Decidable s.IsTooLong :=
  inferInstanceAs (Decidable (_ ∧ _))

/-- What the network is trusted with can be received: the message is no chunk itself, and if it is
split then into chunks that a receiver accepts. -/
structure Deliverable (s : ReliableSend) : Prop where
  overhead : chunkOverhead < s.max
  memory : s.message.body.FitsMemory
  whole : ¬ s.message.body.Holds Chunk
  le_max : s.packets.length ≤ maxChunkCount
  length_lt : s.IsSplit → s.message.body.encode.length < UInt32.size

variable {s : ReliableSend}

theorem not_fits (h : s.IsSplit) : ¬ s.transfer.message.Fits s.transfer.max := h

theorem carriers_eq (s : ReliableSend) : s.transfer.carriers = (List.range s.count).map s.part := by
  by_cases h : s.IsSplit
  · have hp : s.part = s.transfer.carrier := funext fun k => if_pos h
    rw [count, hp, Transfer.length_carriers_of_not_fits (not_fits h)]
    exact Transfer.carriers_of_not_fits (not_fits h)
  · have hc : s.transfer.carriers = [s.message] := if_pos (not_not.mp h)
    have hp : s.part 0 = s.message := if_neg h
    rw [count, hc]
    simp [hp]

theorem receiver_part (s : ReliableSend) (k : Nat) : (s.part k).receiver = s.message.receiver := by
  rw [part]
  split
  · rfl
  · rfl

theorem packets_eq (s : ReliableSend) : s.packets = (List.range s.count).map s.packet := by
  have hp : s.packets = s.transfer.carriers.mapIdx fun i part =>
    { id := s.ids.packets.draw (s.ids.packets.used + i)
      sender := s.sender
      receiver := part.receiver
      reliable := true
      message := part } := rfl
  rw [hp, carriers_eq]
  apply List.ext_getElem
  · simp
  · intro k _ _
    simp [packet, receiver_part]

theorem count_of_not_split (h : ¬ s.IsSplit) : s.count = 1 := by
  have hc : s.transfer.carriers = [s.message] := if_pos (not_not.mp h)
  rw [count, hc]
  rfl

theorem count_of_isSplit (h : s.IsSplit) : s.count = s.transfer.count :=
  Transfer.length_carriers_of_not_fits (not_fits h)

theorem sized_part (ho : chunkOverhead < s.max) (hm : s.message.body.FitsMemory) (k : Nat) :
    (s.part k).body.Sized := by
  by_cases h : s.IsSplit
  · have hl := s.transfer.length_part_le ho k
    have hb : s.transfer.body.length = _ := s.message.body.length_encode
    have hv := @Varint.length_encode_le 9 _ hm.sized
    have hs : UInt64.size = 18446744073709551616 := rfl
    have hd : 2 * (s.transfer.chunk k).data.length < UInt64.size + 36 := by
      have hm : 2 * s.message.body.payload.length < UInt64.size := hm
      show 2 * (s.transfer.parts.getD k []).length < _
      omega
    have hc := Chunk.length_encode_le (c := s.transfer.chunk k) (by omega)
    rw [part, if_pos h]
    show (Message.encode (s.transfer.chunk k)).length < _
    omega
  · rw [part, if_neg h]
    exact hm.sized

theorem read_part (ho : chunkOverhead < s.max) (hm : s.message.body.FitsMemory) (hs : s.IsSplit)
    (k : Nat) : (s.part k).body.read Chunk = .ok (s.transfer.chunk k) := by
  have hl : s.transfer.body.length < UInt64.size := hm.length_encode_lt
  rw [part, if_pos hs]
  exact Transfer.read_carrier ho hl k

theorem length_packets (s : ReliableSend) : s.packets.length = s.count := by
  rw [packets_eq, List.length_map, List.length_range]

theorem mem_packets {p : Packet} : p ∈ s.packets ↔ ∃ k < s.count, s.packet k = p := by
  rw [packets_eq, List.mem_map]
  simp only [List.mem_range]

theorem mem_datagrams {d : Bytes} : d ∈ s.datagrams ↔ ∃ k < s.count, (s.packet k).datagram = d := by
  simp [datagrams, mem_packets]

theorem mem_packetIds {id : PacketId} : id ∈ s.packetIds ↔ ∃ k < s.count, (s.packet k).id = id := by
  simp [packetIds, mem_packets]

theorem payloads_datagram (ho : chunkOverhead < s.max) (hm : s.message.body.FitsMemory) (k : Nat) :
    Datagram.payloads (s.packet k).datagram = [.packet (s.packet k)] :=
  Datagram.payloads_encode (p := .packet (s.packet k)) (sized_part ho hm k)

theorem eq_of_packet_id (h : s.packetIds.Nodup) {j k : Nat} (hj : j < s.count) (hk : k < s.count)
    (he : (s.packet j).id = (s.packet k).id) : j = k := by
  rw [packetIds, packets_eq, List.map_map] at h
  exact List.inj_on_of_nodup_map h (List.mem_range.mpr hj) (List.mem_range.mpr hk) he

theorem Deliverable.valid (h : s.Deliverable) (hs : s.IsSplit) : s.transfer.Valid := by
  have hc := Transfer.length_carriers_of_not_fits (not_fits hs)
  refine ⟨h.overhead, ?_, ?_, h.length_lt hs⟩
  · rw [hc]
    exact Transfer.two_le_count h.overhead (not_fits hs)
  · have hm := h.le_max
    rwa [length_packets] at hm

theorem Deliverable.isSplit_of_read (h : s.Deliverable) {k : Nat} {c : Chunk}
    (hc : (s.part k).body.read Chunk = .ok c) : s.IsSplit ∧ c.id = s.transfer.id := by
  by_cases hs : s.IsSplit
  · rw [s.read_part h.overhead h.memory hs k] at hc
    cases hc
    exact ⟨hs, rfl⟩
  · rw [part, if_neg hs, Body.read, if_neg h.whole] at hc
    cases hc

theorem Deliverable.count_pos (h : s.Deliverable) : 0 < s.count := by
  by_cases hs : s.IsSplit
  · have h2 := (h.valid hs).two_le
    rw [count]
    omega
  · rw [count_of_not_split hs]
    exact Nat.one_pos

theorem Deliverable.datagram_eq_iff (h : s.Deliverable) (hn : s.packetIds.Nodup) {j k : Nat}
    (hj : j < s.count) (hk : k < s.count) :
    (s.packet j).datagram = (s.packet k).datagram ↔ j = k := by
  constructor
  · intro he
    have hp := s.payloads_datagram h.overhead h.memory j
    rw [he, s.payloads_datagram h.overhead h.memory k] at hp
    have hi : s.packet k = s.packet j := by simpa using hp
    exact eq_of_packet_id hn hj hk (congrArg Packet.id hi.symm)
  · rintro rfl
    rfl

/-- Neither a packet of the send nor a chunk of its message. -/
def Foreign (s : ReliableSend) : Payload → Prop
  | .packet p => p.id ∉ s.packetIds ∧
      (s.IsSplit → ∀ c, p.message.body.read Chunk = .ok c → c.id ≠ s.transfer.id)
  | _ => True

end ReliableSend

end PeerMesh

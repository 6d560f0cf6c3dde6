import PeerMesh.Proofs.Limits

namespace PeerMesh

theorem lt_pieceCount_iff {size : Nat} (hs : 0 < size) (length k : Nat) :
    k < pieceCount size length ↔ k * size < length := by
  have hk : (k + 1) * size = k * size + size := Nat.succ_mul k size
  rw [pieceCount, Nat.lt_iff_add_one_le, Nat.le_div_iff_mul_le hs, hk]
  omega

theorem getElem?_piecesAfter (size : Nat) {n k : Nat} (hk : k < n) (bs : Bytes) :
    (piecesAfter size [] n bs)[k]? = some ((bs.drop (k * size)).take size) := by
  induction n generalizing k bs with
  | zero => cases hk
  | succ n ih =>
    rw [piecesAfter_succ]
    cases k with
    | zero => simp
    | succ k =>
      rw [List.getElem?_cons_succ, ih (Nat.lt_of_succ_lt_succ hk), List.drop_drop, Nat.succ_mul,
        Nat.add_comm size]

theorem Envelope.length_encode (e : Envelope) :
    e.encode.length = 32 + e.body.encode.length := by
  simp only [encode, PeerId.encode, List.length_append, Uuid.length_encode]

/-- What a packet adds to the body of its message. -/
theorem Packet.length_datagram (p : Packet) :
    p.datagram.length = 82 + p.message.body.encode.length := by
  simp only [datagram, Payload.encode, encode, PacketId.encode, PeerId.encode, List.length_append,
    List.length_cons, Uuid.length_encode, Envelope.length_encode]
  omega

theorem Chunk.length_encode_of_le {c : Chunk} (h : c.data.length + 38 < UInt64.size) :
    (Body.of c).encode.length ≤ 56 + c.data.length := by
  have hc : (Body.of c).payload.length ≤ 38 + c.data.length :=
    Chunk.length_encode_le (by omega)
  have hv := @Varint.length_encode_le 9 (Body.of c).payload.length
    (show _ < UInt64.size by omega)
  rw [Body.length_encode]
  omega

namespace Transfer

variable {t : Transfer}

theorem data_chunk {k : Nat} (hk : k < t.count) :
    (t.chunk k).data =
      (t.body.drop (k * (t.max - chunkOverhead))).take (t.max - chunkOverhead) := by
  have hp : t.parts[k]? = _ := getElem?_piecesAfter (t.max - chunkOverhead) hk t.body
  show t.parts.getD k [] = _
  rw [List.getD_eq_getElem?_getD, hp, Option.getD_some]

theorem length_data_chunk_le {k : Nat} (hk : k < t.count) :
    (t.chunk k).data.length ≤ t.max - chunkOverhead := by
  rw [data_chunk hk]
  exact List.length_take_le _ _

theorem data_chunk_ne_nil (ho : chunkOverhead < t.max) {k : Nat} (hk : k < t.count) :
    (t.chunk k).data ≠ [] := by
  have hs := Nat.sub_pos_of_lt ho
  have hl := (lt_pieceCount_iff hs t.body.length k).mp hk
  rw [data_chunk hk, ← List.length_pos_iff, List.length_take, List.length_drop]
  omega

theorem length_data_chunk (ho : chunkOverhead < t.max) {k : Nat} (hk : k + 1 < t.count) :
    (t.chunk k).data.length = t.max - chunkOverhead := by
  have hs := Nat.sub_pos_of_lt ho
  have hl := (lt_pieceCount_iff hs t.body.length (k + 1)).mp hk
  rw [Nat.succ_mul] at hl
  rw [data_chunk (Nat.lt_of_succ_lt hk), List.length_take, List.length_drop]
  omega

theorem length_data_of_mem_dropLast (ho : chunkOverhead < t.max) {c : Chunk}
    (hc : c ∈ ((List.range t.count).map t.chunk).dropLast) :
    c.data.length = t.max - chunkOverhead := by
  obtain ⟨k, hk, rfl⟩ := List.mem_iff_getElem.mp hc
  have hk : k < t.count - 1 := by
    simpa only [List.length_dropLast, List.length_map, List.length_range] using hk
  rw [List.getElem_dropLast, List.getElem_map, List.getElem_range]
  exact length_data_chunk ho (by omega)

theorem flatMap_data_chunk (ho : chunkOverhead < t.max) :
    ((List.range t.count).map t.chunk).flatMap Chunk.data = t.body := by
  have hp : (List.range t.count).map (fun k => (t.chunk k).data) = t.parts := by
    apply List.ext_getElem
    · simp
    · intro k _ hk
      rw [List.getElem_map, List.getElem_range]
      show t.parts.getD k [] = t.parts[k]
      rw [List.getD_eq_getElem?_getD, List.getElem?_eq_getElem hk, Option.getD_some]
  rw [List.flatMap_map, List.flatMap_def, hp, flatten_parts ho]

theorem map_read_carriers (ho : chunkOverhead < t.max) (hl : t.body.length < UInt64.size)
    (hf : ¬ t.message.Fits t.max) :
    t.carriers.map (fun part => part.body.read Chunk) =
      ((List.range t.count).map t.chunk).map .ok := by
  rw [carriers_of_not_fits hf, List.map_map, List.map_map]
  exact List.map_congr_left fun k _ => read_carrier ho hl k

theorem carriers_ne_nil (ho : chunkOverhead < t.max) : t.carriers ≠ [] := by
  by_cases hf : t.message.Fits t.max
  · rw [carriers_of_fits hf]
    exact List.cons_ne_nil _ _
  · have h2 := two_le_count ho hf
    rw [← List.length_pos_iff, length_carriers_of_not_fits hf]
    omega

theorem receiver_of_mem_carriers {part : Envelope} (h : part ∈ t.carriers) :
    part.receiver = t.message.receiver := by
  by_cases hf : t.message.Fits t.max
  · rw [carriers_of_fits hf, List.mem_singleton] at h
    rw [h]
  · obtain ⟨k, -, rfl⟩ := (mem_carriers_iff hf).mp h
    rfl

/-- Whatever packet carries it, no part of the transfer is too long for a datagram. -/
theorem length_carrier_le (ho : chunkOverhead < t.max) (hm : t.message.body.FitsMemory)
    {part : Envelope} (hpart : part ∈ t.carriers) :
    82 + part.body.encode.length ≤ t.max ∧ part.body.Sized := by
  have h192 : chunkOverhead = 192 := rfl
  by_cases hf : t.message.Fits t.max
  · have hl : t.message.body.encode.length + chunkOverhead ≤ t.max := hf
    rw [carriers_of_fits hf, List.mem_singleton] at hpart
    subst hpart
    exact ⟨by omega, hm.sized⟩
  · obtain ⟨k, hk, rfl⟩ := (mem_carriers_iff hf).mp hpart
    have hd := length_data_chunk_le hk
    have hle : (t.chunk k).data.length ≤ t.body.length := t.length_part_le ho k
    have hb : t.body.length = _ := t.message.body.length_encode
    have hv := @Varint.length_encode_le 9 _ hm.sized
    have hm : 2 * t.message.body.payload.length < UInt64.size := hm
    have hs : UInt64.size = 18446744073709551616 := rfl
    have hc := Chunk.length_encode_of_le (c := t.chunk k) (by omega)
    have hp := Chunk.length_encode_le (c := t.chunk k) (by omega)
    refine ⟨?_, ?_⟩
    · show 82 + (Body.of (t.chunk k)).encode.length ≤ t.max
      omega
    · show (Message.encode (t.chunk k)).length < UInt64.size
      omega

end Transfer

theorem Packet.decode_datagram {p : Packet} (h : p.message.body.Sized) :
    Datagram.decode p.datagram = .ok [.packet p] := by
  have hd := Datagram.decode_encode [.packet p] fun q hq => List.mem_singleton.mp hq ▸ h
  rwa [Datagram.encode, List.flatMap_cons, List.flatMap_nil, List.append_nil] at hd

namespace Envelope

theorem packets_eq (e : Envelope) (sender : PeerId) (reliable : Bool) (max : Nat)
    (ids : IdSource) : (e.packets sender reliable max ids).1 =
      (Transfer.carriers ⟨e, max, ids.multiParts.next⟩).mapIdx fun k part =>
        ⟨ids.packets.draw (ids.packets.used + k), sender, part.receiver, reliable, part⟩ :=
  rfl

theorem map_message_packets (e : Envelope) (sender : PeerId) (reliable : Bool) (max : Nat)
    (ids : IdSource) : (e.packets sender reliable max ids).1.map Packet.message =
      Transfer.carriers ⟨e, max, ids.multiParts.next⟩ := by
  rw [packets_eq]
  apply List.ext_getElem
  · simp
  · simp

theorem mem_packets {e : Envelope} {sender : PeerId} {reliable : Bool} {max : Nat} {ids : IdSource}
    {p : Packet} (hp : p ∈ (e.packets sender reliable max ids).1) :
    p.message ∈ Transfer.carriers ⟨e, max, ids.multiParts.next⟩ ∧ p.sender = sender ∧
      p.receiver = p.message.receiver ∧ p.reliable = reliable := by
  refine ⟨?_, ?_⟩
  · rw [← map_message_packets e sender reliable max ids]
    exact List.mem_map_of_mem hp
  · rw [packets_eq, List.mem_mapIdx] at hp
    obtain ⟨k, hk, rfl⟩ := hp
    exact ⟨rfl, rfl, rfl⟩

/-- A message that is sent as it is takes one packet, any other at least two. Every packet fits its
datagram, and is all that is read back from it. The data of the chunks of a message are its body in
pieces of the one positive size that there is room for, of which only the last may be shorter. -/
theorem packets_fit (config : UdpConfig) (hc : config.check = .ok ()) (e : Envelope)
    (hm : e.body.FitsMemory) (sender : PeerId) (reliable : Bool) (ids : IdSource)
    (ps : List Packet) (hps : ps = (e.packets sender reliable config.maxDatagram ids).1) :
    chunkOverhead < config.maxDatagram ∧ ps ≠ [] ∧
      (∀ p ∈ ps, p.datagram.length ≤ config.maxDatagram ∧
        Datagram.decode p.datagram = .ok [.packet p] ∧
        p.sender = sender ∧ p.receiver = e.receiver ∧ p.reliable = reliable) ∧
      (e.Fits config.maxDatagram → ps.map Packet.message = [e]) ∧
      (¬ e.Fits config.maxDatagram → 2 ≤ ps.length ∧ ∃ cs : List Chunk,
        ps.map (fun p => p.message.body.read Chunk) = cs.map .ok ∧
        (∀ c ∈ cs, c.data ≠ []) ∧
        (∀ c ∈ cs.dropLast, c.data.length = config.maxDatagram - chunkOverhead) ∧
        cs.flatMap Chunk.data = e.body.encode) := by
  have ho := UdpConfig.overhead_lt_of_check hc
  obtain ⟨t, ht⟩ : ∃ t : Transfer, t = ⟨e, config.maxDatagram, ids.multiParts.next⟩ :=
    ⟨_, rfl⟩
  have hmessages : ps.map Packet.message = t.carriers := by
    rw [hps, map_message_packets, ht]
  have hlength : ps.length = t.carriers.length := by rw [← hmessages, List.length_map]
  have hto : chunkOverhead < t.max := by rwa [ht]
  have htm : t.message.body.FitsMemory := by rwa [ht]
  have hfits : e.Fits config.maxDatagram ↔ t.message.Fits t.max := by rw [ht]
  refine ⟨ho, ?_, fun p hp => ?_, fun hf => ?_, fun hf => ?_⟩
  · rw [← List.length_pos_iff, hlength, List.length_pos_iff]
    exact Transfer.carriers_ne_nil hto
  · obtain ⟨hpart, hs, hr, hrel⟩ := mem_packets (hps ▸ hp)
    obtain ⟨hl, hsized⟩ := Transfer.length_carrier_le hto htm (ht ▸ hpart)
    refine ⟨?_, Packet.decode_datagram hsized, hs, hr.trans ?_, hrel⟩
    · rw [Packet.length_datagram]
      rwa [ht] at hl
    · exact Transfer.receiver_of_mem_carriers hpart
  · rw [hmessages, Transfer.carriers_of_fits (hfits.mp hf), ht]
  · have hf := mt hfits.mpr hf
    have hl : t.body.length < UInt64.size := htm.length_encode_lt
    refine ⟨?_, (List.range t.count).map t.chunk, ?_, fun c hc => ?_, fun c hc => ?_, ?_⟩
    · rw [hlength, Transfer.length_carriers_of_not_fits hf]
      exact Transfer.two_le_count hto hf
    · rw [← Transfer.map_read_carriers hto hl hf, ← hmessages, List.map_map]
      rfl
    · obtain ⟨k, hk, rfl⟩ := List.mem_map.mp hc
      exact Transfer.data_chunk_ne_nil hto (List.mem_range.mp hk)
    · rw [Transfer.length_data_of_mem_dropLast hto hc, ht]
    · rw [Transfer.flatMap_data_chunk hto, ht]
      rfl

theorem packets_fit_zeros : UdpConfig.narrow.check = .ok () ∧ (zeros 300).body.FitsMemory ∧
    ¬ (zeros 300).Fits UdpConfig.narrow.maxDatagram ∧
    ((zeros 300).packets ⟨1⟩ true UdpConfig.narrow.maxDatagram (.numbered 10 0)).1.length = 2 ∧
    ∀ p ∈ ((zeros 300).packets ⟨1⟩ true UdpConfig.narrow.maxDatagram (.numbered 10 0)).1,
      p.datagram.length ≤ UdpConfig.narrow.maxDatagram ∧
      Datagram.decode p.datagram = .ok [.packet p] := by
  have hc : UdpConfig.narrow.check = .ok () := by decide
  have hm : (zeros 300).body.FitsMemory := by decide +kernel
  refine ⟨hc, hm, by decide +kernel, by decide +kernel, fun p hp => ?_⟩
  obtain ⟨hl, hd, -⟩ :=
    (packets_fit UdpConfig.narrow hc (zeros 300) hm ⟨1⟩ true (.numbered 10 0) _ rfl).2.2.1 p hp
  exact ⟨hl, hd⟩

end Envelope

end PeerMesh

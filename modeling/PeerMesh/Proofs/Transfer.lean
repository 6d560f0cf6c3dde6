import Mathlib.Data.Finset.Card
import Mathlib.Data.Finset.Range
import PeerMesh.MultiPart.Reassembly
import PeerMesh.MultiPart.Split
import PeerMesh.Proofs.RoundTrip

namespace PeerMesh

theorem Varint.length_encode_le {groups n : Nat} (h : n < limit groups) :
    (encode n).length ≤ groups + 1 := by
  induction groups generalizing n with
  | zero =>
    have hn : n < 2 := h
    rw [encode_of_lt (by omega)]
    simp
  | succ groups ih =>
    by_cases hlt : n < 128
    · rw [encode_of_lt hlt]
      simp
    · rw [encode_of_ge (by omega), List.length_cons]
      have := ih (n := n / 128) (by rw [limit] at h; omega)
      omega

theorem Body.length_encode (b : Body) :
    b.encode.length = 8 + ((Varint.encode b.payload.length).length + b.payload.length) := by
  simp [encode, MessageTypeId.encode, Field.encodeBytes]

theorem pieceCount_le {size length : Nat} (hs : 0 < size) : pieceCount size length ≤ length := by
  rw [pieceCount]
  cases length with
  | zero => exact Nat.le_of_eq (Nat.div_eq_of_lt (by omega))
  | succ n =>
    have hl : n + 1 + size - 1 = n + size := by omega
    have hd : n / size ≤ n := Nat.div_le_self n size
    rw [hl, Nat.add_div_right n hs]
    omega

theorem two_le_pieceCount {size length : Nat} (hs : 0 < size) (h : size < length) :
    2 ≤ pieceCount size length := by
  rw [pieceCount, Nat.le_div_iff_mul_le hs]
  omega

theorem UdpConfig.overhead_lt_of_check {c : UdpConfig} (h : c.check = .ok ()) :
    chunkOverhead < c.maxDatagram := by
  by_contra hn
  have hlt : c.maxDatagram < 2 * chunkOverhead := by
    have h0 : 0 < chunkOverhead := by decide
    omega
  rw [check] at h
  split at h
  · cases h
  · cases h

/-- A message that is to be sent in datagrams of at most `max` bytes, under an id in case that it
needs several. -/
structure Transfer where
  message : Envelope
  max : Nat
  id : MultiPartId

namespace Transfer

def body (t : Transfer) : Bytes :=
  t.message.body.encode

def parts (t : Transfer) : List Bytes :=
  pieces (t.max - chunkOverhead) t.body

def count (t : Transfer) : Nat :=
  pieceCount (t.max - chunkOverhead) t.body.length

def carriers (t : Transfer) : List Envelope :=
  t.message.split t.max t.id

/-- The message is cut into chunks, and into no more than a receiver accepts. -/
structure Valid (t : Transfer) : Prop where
  overhead : chunkOverhead < t.max
  two_le : 2 ≤ t.carriers.length
  le_max : t.carriers.length ≤ maxChunkCount
  length_lt : t.body.length < UInt32.size

def chunk (t : Transfer) (k : Nat) : Chunk where
  id := t.id
  index := UInt32.ofNat k
  count := UInt32.ofNat t.count
  bodyLength := UInt32.ofNat t.body.length
  data := t.parts.getD k []

def carrier (t : Transfer) (k : Nat) : Envelope :=
  { t.message with body := .of (t.chunk k) }

@[simp] theorem length_parts (t : Transfer) : t.parts.length = t.count :=
  length_pieces _ _

theorem carriers_of_fits {t : Transfer} (h : t.message.Fits t.max) : t.carriers = [t.message] :=
  if_pos h

theorem carriers_of_not_fits {t : Transfer} (h : ¬ t.message.Fits t.max) :
    t.carriers = (List.range t.count).map t.carrier := by
  have hl : t.parts.length = t.count := t.length_parts
  rw [carriers, Envelope.split, if_neg h]
  apply List.ext_getElem?
  intro k
  by_cases hk : k < t.count
  · have hp : t.parts[k]? = some (t.parts.getD k []) := by
      rw [List.getD_eq_getElem?_getD, List.getElem?_eq_getElem (by omega), Option.getD_some]
    have hr : (List.range t.count)[k]? = some k := by simp [hk]
    simp only [List.getElem?_map, List.getElem?_mapIdx, hr, Option.map_some]
    exact congrArg (Option.map _) hp
  · have hr : (List.range t.count)[k]? = none := by simpa using hk
    have hp : t.parts[k]? = none := by simpa using hk
    simp only [List.getElem?_map, List.getElem?_mapIdx, hr, Option.map_none]
    exact congrArg (Option.map _) hp

theorem length_carriers_of_not_fits {t : Transfer} (h : ¬ t.message.Fits t.max) :
    t.carriers.length = t.count := by
  rw [carriers_of_not_fits h]
  simp

theorem mem_carriers_iff {t : Transfer} (hs : ¬ t.message.Fits t.max) {part : Envelope} :
    part ∈ t.carriers ↔ ∃ k < t.count, t.carrier k = part := by
  rw [carriers_of_not_fits hs, List.mem_map]
  simp only [List.mem_range]

theorem two_le_count {t : Transfer} (ho : chunkOverhead < t.max)
    (hs : ¬ t.message.Fits t.max) : 2 ≤ t.count := by
  have hl : t.max < t.body.length + chunkOverhead := Nat.lt_of_not_le hs
  apply two_le_pieceCount
  · omega
  · omega

theorem flatten_parts {t : Transfer} (h : chunkOverhead < t.max) : t.parts.flatten = t.body :=
  flatten_pieces (Nat.sub_pos_of_lt h) t.body

theorem length_part_le (t : Transfer) (h : chunkOverhead < t.max) (k : Nat) :
    (t.parts.getD k []).length ≤ t.body.length := by
  have hf := flatten_parts h
  rw [List.getD_eq_getElem?_getD]
  cases hk : t.parts[k]? with
  | none => exact Nat.zero_le _
  | some part =>
    have hs := List.sublist_flatten_of_mem (List.mem_of_getElem? hk)
    rw [hf] at hs
    exact hs.length_le

theorem toNat_count {t : Transfer} (h : t.count < UInt32.size) (k : Nat) :
    (t.chunk k).count.toNat = t.count :=
  UInt32.toNat_ofNat_of_lt' h

theorem toNat_index {t : Transfer} (h : t.count < UInt32.size) {k : Nat} (hk : k < t.count) :
    (t.chunk k).index.toNat = k :=
  UInt32.toNat_ofNat_of_lt' (hk.trans h)

namespace Valid

variable {t : Transfer}

theorem not_fits (h : t.Valid) : ¬ t.message.Fits t.max := by
  intro hf
  have h2 := h.two_le
  rw [carriers_of_fits hf] at h2
  simp at h2

theorem two_le_count (h : t.Valid) : 2 ≤ t.count :=
  length_carriers_of_not_fits h.not_fits ▸ h.two_le

theorem count_le_max (h : t.Valid) : t.count ≤ maxChunkCount :=
  length_carriers_of_not_fits h.not_fits ▸ h.le_max

theorem count_lt (h : t.Valid) : t.count < UInt32.size :=
  Nat.lt_of_le_of_lt h.count_le_max (by decide)

theorem count_le_length (h : t.Valid) : t.count ≤ t.body.length :=
  pieceCount_le (Nat.sub_pos_of_lt h.overhead)

theorem toNat_bodyLength (h : t.Valid) (k : Nat) :
    (t.chunk k).bodyLength.toNat = t.body.length :=
  UInt32.toNat_ofNat_of_lt' h.length_lt

theorem body_sized (h : t.Valid) : t.message.body.Sized := by
  have hl : t.message.body.encode.length < UInt32.size := h.length_lt
  rw [Body.length_encode] at hl
  have hs : UInt32.size < UInt64.size := by decide
  rw [Body.Sized]
  omega

end Valid

end Transfer

theorem Chunk.decode_reads {c : Chunk} (h : c.data.length < UInt64.size) :
    Decoder.Reads (Message.decode (α := Chunk)) (Message.encode c) c := by
  obtain ⟨id, index, count, bodyLength, data⟩ := c
  have hn (x : UInt32) : Decoder.Reads (Decoder.number 4) (bigEndian 4 x.toNat) x.toNat :=
    Decoder.Reads.number x.toNat_lt
  simp only [Message.encode, List.append_assoc]
  refine (MultiPartId.decode_reads id).bind ((hn index).bind ((hn count).bind
    ((hn bodyLength).bind ((Decoder.Reads.bytesField h).bind_nil ?_))))
  simp only [UInt32.ofNat_toNat]
  exact Decoder.Reads.pure _

theorem Chunk.read_of {c : Chunk} (h : c.data.length < UInt64.size) :
    (Body.of c).read Chunk = .ok c :=
  Body.read_of (Chunk.decode_reads h)

namespace Transfer

theorem read_carrier {t : Transfer} (ho : chunkOverhead < t.max)
    (hl : t.body.length < UInt64.size) (k : Nat) :
    (t.carrier k).body.read Chunk = .ok (t.chunk k) :=
  Chunk.read_of (Nat.lt_of_le_of_lt (t.length_part_le ho k) hl)

theorem Valid.read_carrier {t : Transfer} (h : t.Valid) (k : Nat) :
    (t.carrier k).body.read Chunk = .ok (t.chunk k) :=
  Transfer.read_carrier h.overhead (h.length_lt.trans (by decide)) k

/-- What a receiver holds of the message that has the chunks with the given indices. -/
def slots (t : Transfer) (held : Finset Nat) : List (Option Bytes) :=
  t.parts.mapIdx fun k part => if k ∈ held then some part else none

def gathered (t : Transfer) (held : Finset Nat) (started : Nat) : PartialMessage where
  sender := t.message.sender
  receiver := t.message.receiver
  count := UInt32.ofNat t.count
  bodyLength := UInt32.ofNat t.body.length
  slots := t.slots held
  received := held.card
  started := started

@[simp] theorem length_slots (t : Transfer) (held : Finset Nat) :
    (t.slots held).length = t.count := by
  rw [slots, List.length_mapIdx, length_parts]

theorem getElem?_slots (t : Transfer) (held : Finset Nat) {k : Nat} (hk : k < t.count) :
    (t.slots held)[k]? = some (if k ∈ held then some (t.parts.getD k []) else none) := by
  have hp : k < t.parts.length := by rwa [length_parts]
  rw [slots, List.getElem?_mapIdx, List.getElem?_eq_getElem hp, Option.map_some,
    List.getD_eq_getElem?_getD, List.getElem?_eq_getElem hp, Option.getD_some]

theorem slots_empty (t : Transfer) : t.slots ∅ = List.replicate t.count none := by
  apply List.ext_getElem?
  intro k
  by_cases hk : k < t.count
  · rw [getElem?_slots t ∅ hk, List.getElem?_replicate, if_pos hk, if_neg (Finset.notMem_empty k)]
  · rw [List.getElem?_eq_none (by simpa using hk), List.getElem?_eq_none (by simpa using hk)]

theorem set_slots (t : Transfer) (held : Finset Nat) {k : Nat} (hk : k < t.count) :
    (t.slots held).set k (some (t.parts.getD k [])) = t.slots (insert k held) := by
  apply List.ext_getElem?
  intro j
  by_cases hj : j < t.count
  · rw [List.getElem?_set, getElem?_slots t _ hj, getElem?_slots t _ hj, length_slots]
    by_cases he : k = j
    · subst he
      simp [hk]
    · have hm : (j ∈ insert k held) = (j ∈ held) := by simp [Ne.symm he]
      simp only [if_neg he, hm]
  · rw [List.getElem?_eq_none (by simpa using hj), List.getElem?_eq_none (by simpa using hj)]

theorem isComplete_iff {t : Transfer} (h : t.count < UInt32.size) {held : Finset Nat}
    (started : Nat) (hs : held ⊆ Finset.range t.count) :
    (t.gathered held started).isComplete ↔ held = Finset.range t.count := by
  have hc : (t.gathered held started).isComplete ↔ held.card = t.count := by
    rw [PartialMessage.isComplete, decide_eq_true_iff, gathered, UInt32.toNat_ofNat_of_lt' h]
  rw [hc]
  constructor
  · intro he
    exact Finset.eq_of_subset_of_card_le hs (by rw [Finset.card_range, he])
  · rintro rfl
    exact Finset.card_range _

theorem flatMap_slots_range {t : Transfer} (h : chunkOverhead < t.max) :
    (t.slots (Finset.range t.count)).flatMap (·.getD []) = t.body := by
  have hs : t.slots (Finset.range t.count) = t.parts.map some := by
    apply List.ext_getElem?
    intro k
    by_cases hk : k < t.count
    · have hp : k < t.parts.length := by rwa [length_parts]
      rw [getElem?_slots t _ hk, if_pos (Finset.mem_range.mpr hk), List.getElem?_map,
        List.getD_eq_getElem?_getD, List.getElem?_eq_getElem hp, Option.getD_some, Option.map_some]
    · rw [List.getElem?_eq_none (by simpa using hk), List.getElem?_eq_none (by simpa using hk)]
  rw [hs, List.flatMap_map, ← flatten_parts h]
  simp [List.flatMap_id']

/-- From all of its chunks the message is put together as it was. -/
theorem Valid.assemble {t : Transfer} (h : t.Valid) (started : Nat) :
    (t.gathered (Finset.range t.count) started).assemble = .ok t.message := by
  have hb : (t.gathered (Finset.range t.count) started).slots.flatMap (·.getD []) = t.body :=
    flatMap_slots_range h.overhead
  have hl : (t.gathered (Finset.range t.count) started).bodyLength.toNat = t.body.length :=
    h.toNat_bodyLength 0
  have hd : Body.decode.run t.body = .ok (t.message.body, []) := by
    have := Body.decode_reads h.body_sized []
    rwa [List.append_nil] at this
  rw [PartialMessage.assemble]
  simp only [hb, hl, hd]
  simp only [ne_eq, not_true_eq_false, if_false]
  rfl

theorem assemble_of_long {t : Transfer} (ho : chunkOverhead < t.max)
    (hl : UInt32.size ≤ t.body.length) (started : Nat) :
    (t.gathered (Finset.range t.count) started).assemble =
      .error (.wrongLength t.body.length (t.body.length % UInt32.size)) := by
  have hb : (t.gathered (Finset.range t.count) started).slots.flatMap (·.getD []) = t.body :=
    flatMap_slots_range ho
  have hm := Nat.mod_lt t.body.length (show 0 < UInt32.size by decide)
  have hn : (t.gathered (Finset.range t.count) started).bodyLength.toNat =
      t.body.length % UInt32.size := UInt32.toNat_ofNat
  have hne : t.body.length ≠ t.body.length % UInt32.size := by omega
  rw [PartialMessage.assemble]
  simp only [hb, hn, if_pos hne]

end Transfer

end PeerMesh

import PeerMesh.Proofs.Acceptance
import PeerMesh.Proofs.Sends

namespace PeerMesh

open Reassembler

theorem Reassembler.accept_of_not_plausible {c : Chunk} (h : ¬ c.Plausible) (r : Reassembler)
    (now : Nat) (carrier : Envelope) : ∃ e, r.accept now carrier c = (r, .error e) := by
  cases hp : checkPlausible c with
  | ok u => exact absurd ((checkPlausible_eq_ok_iff c).mp hp) h
  | error e => exact ⟨e, by rw [accept, hp]⟩

theorem Reassembler.accept_empty {c : Chunk} (h : c.Plausible) (h2 : 2 ≤ c.count.toNat) (now : Nat)
    (carrier : Envelope) : (empty.accept now carrier c).2 = .ok none := by
  have he : empty.entry now carrier c = .ofFirst carrier c now := rfl
  have ha : empty.Admits now carrier c := ⟨h, List.not_mem_nil, rfl, rfl, rfl⟩
  have hs : (empty.entry now carrier c).slots[c.index.toNat]? = some none := by
    have hl : (PartialMessage.ofFirst carrier c now).slots =
      List.replicate c.count.toNat none := rfl
    rw [he, hl, List.getElem?_replicate, if_pos h.1]
  -- one chunk is there, and that is not all
  have hn : ¬ ((PartialMessage.ofFirst carrier c now).add c).isComplete := by
    rw [PartialMessage.isComplete, decide_eq_true_iff]
    show ¬ 0 + 1 = c.count.toNat
    omega
  rw [accept_of_vacant ha hs, he, fill, if_neg hn]

namespace Transfer

variable {t : Transfer}

theorem plausible_iff (t : Transfer) {k : Nat} : (t.chunk k).Plausible ↔
    k % UInt32.size < t.count % UInt32.size ∧ t.count % UInt32.size ≤ maxChunkCount ∧
      t.count % UInt32.size ≤ t.body.length % UInt32.size := by
  have hn (n : Nat) : (UInt32.ofNat n).toNat = n % UInt32.size := UInt32.toNat_ofNat
  simp only [Chunk.Plausible, chunk, hn]

theorem forall_plausible_iff (h : 0 < t.count) : (∀ k < t.count, (t.chunk k).Plausible) ↔
    t.count ≤ maxChunkCount ∧ t.count ≤ t.body.length % UInt32.size := by
  have hm : maxChunkCount < UInt32.size := by decide
  simp only [plausible_iff]
  constructor
  · intro hall
    have hlt : t.count < UInt32.size := by
      by_contra hn
      have hr := Nat.mod_lt t.count (show 0 < UInt32.size by decide)
      have hk := (hall (t.count % UInt32.size) (by omega)).1
      rw [Nat.mod_mod] at hk
      omega
    have h0 := (hall 0 h).2
    rwa [Nat.mod_eq_of_lt hlt] at h0
  · intro hc k hk
    rw [Nat.mod_eq_of_lt (by omega : t.count < UInt32.size),
      Nat.mod_eq_of_lt (by omega : k < UInt32.size)]
    exact ⟨hk, hc⟩

theorem accept_of_max_lt (ho : chunkOverhead < t.max) (hl : t.body.length < UInt32.size)
    (hm : maxChunkCount < t.count) {k : Nat} (hk : k < t.count) (r : Reassembler) (now : Nat) :
    r.accept now (t.carrier k) (t.chunk k) =
      (r, .error (.implausibleCount t.count t.id t.body.length)) := by
  have hc : t.count < UInt32.size :=
    Nat.lt_of_le_of_lt (pieceCount_le (Nat.sub_pos_of_lt ho)) hl
  have hb : (t.chunk k).bodyLength.toNat = t.body.length := UInt32.toNat_ofNat_of_lt' hl
  have hp : checkPlausible (t.chunk k) =
      .error (.implausibleCount t.count t.id t.body.length) := by
    rw [checkPlausible, toNat_index hc hk, toNat_count hc, hb, if_neg (Nat.not_le.mpr hk),
      if_pos (Or.inl hm)]
    rfl
  rw [accept, hp]

end Transfer

/-- The message carries a chunk that a receiver takes, even if it is the first one. -/
def Envelope.IsTaken (part : Envelope) : Prop :=
  ∃ c, part.body.read Chunk = .ok c ∧ ∀ now, ∃ o, (empty.accept now part c).2 = .ok o

namespace Transfer

variable {t : Transfer}

theorem isTaken_carrier (ho : chunkOverhead < t.max) (hl : t.body.length < UInt64.size) {k : Nat}
    (hp : (t.chunk k).Plausible) (h2 : 2 ≤ (t.chunk k).count.toNat) : (t.carrier k).IsTaken :=
  ⟨t.chunk k, t.read_carrier ho hl k, fun now => ⟨none, accept_empty hp h2 now _⟩⟩

theorem plausible_of_isTaken (ho : chunkOverhead < t.max) (hl : t.body.length < UInt64.size)
    {k : Nat} (h : (t.carrier k).IsTaken) : (t.chunk k).Plausible := by
  obtain ⟨c, hc, ha⟩ := h
  obtain rfl : t.chunk k = c := Except.ok.inj ((t.read_carrier ho hl k).symm.trans hc)
  by_contra hn
  obtain ⟨e, he⟩ := accept_of_not_plausible hn empty 0 (t.carrier k)
  obtain ⟨o, ho⟩ := ha 0
  rw [he] at ho
  cases ho

theorem forall_isTaken_iff (ho : chunkOverhead < t.max) (hl : t.body.length < UInt64.size)
    (hs : ¬ t.message.Fits t.max) : (∀ part ∈ t.carriers, part.IsTaken) ↔
      t.count ≤ maxChunkCount ∧ t.count ≤ t.body.length % UInt32.size := by
  have h2 := two_le_count ho hs
  rw [← forall_plausible_iff (by omega)]
  constructor
  · intro h k hk
    exact plausible_of_isTaken ho hl (h _ ((mem_carriers_iff hs).mpr ⟨k, hk, rfl⟩))
  · intro h part hpart
    obtain ⟨k, hk, rfl⟩ := (mem_carriers_iff hs).mp hpart
    have hc : t.count < UInt32.size :=
      Nat.lt_of_le_of_lt ((forall_plausible_iff (by omega)).mp h).1 (by decide)
    apply isTaken_carrier ho hl (h k hk)
    rw [toNat_count hc]
    exact h2

end Transfer

/-- The messages that a message is cut into tell its id, and up to a multiple of 2³² their index,
their number and the length of the whole. A receiver takes all of them, though it may hold nothing
of the message yet, if and only if they are not more than it puts up with, nor than the length that
they tell. If they are more than it puts up with, every receiver refuses every one of them. -/
theorem Envelope.isTaken_split_iff (config : UdpConfig) (hc : config.check = .ok ()) (e : Envelope)
    (hm : e.body.FitsMemory) (hs : ¬ e.Fits config.maxDatagram) (id : MultiPartId) :
    (∀ k part, (e.split config.maxDatagram id)[k]? = some part → ∃ c,
      part.body.read Chunk = .ok c ∧ c.id = id ∧ c.index = UInt32.ofNat k ∧
        c.count = UInt32.ofNat (e.split config.maxDatagram id).length ∧
        c.bodyLength = UInt32.ofNat e.body.encode.length) ∧
    ((∀ part ∈ e.split config.maxDatagram id, part.IsTaken) ↔
      (e.split config.maxDatagram id).length ≤ maxChunkCount ∧
        (e.split config.maxDatagram id).length ≤ e.body.encode.length % UInt32.size) ∧
    (e.body.encode.length < UInt32.size →
      maxChunkCount < (e.split config.maxDatagram id).length →
      ∀ part ∈ e.split config.maxDatagram id, ∃ c, part.body.read Chunk = .ok c ∧
        ∀ r now, Reassembler.accept r now part c = (r, .error (.implausibleCount
          (e.split config.maxDatagram id).length id e.body.encode.length))) := by
  obtain ⟨t, ht⟩ : ∃ t : Transfer, t = ⟨e, config.maxDatagram, id⟩ := ⟨_, rfl⟩
  have hsplit : e.split config.maxDatagram id = t.carriers := by rw [ht]; rfl
  have hbody : e.body.encode = t.body := by rw [ht]; rfl
  have hid : t.id = id := by rw [ht]
  have ho : chunkOverhead < t.max := by
    rw [ht]
    exact UdpConfig.overhead_lt_of_check hc
  have hs : ¬ t.message.Fits t.max := by rwa [ht]
  have hl : t.body.length < UInt64.size := hbody ▸ hm.length_encode_lt
  rw [hsplit, hbody, Transfer.length_carriers_of_not_fits hs]
  refine ⟨fun k part hpart => ?_, Transfer.forall_isTaken_iff ho hl hs, fun hlen hmax part hp => ?_⟩
  · have hk : k < t.count := by
      have := (List.getElem?_eq_some_iff.mp hpart).1
      rwa [Transfer.length_carriers_of_not_fits hs] at this
    have he : t.carrier k = part := by
      rw [Transfer.carriers_of_not_fits hs] at hpart
      simpa [hk] using hpart
    exact ⟨t.chunk k, he ▸ t.read_carrier ho hl k, hid, rfl, rfl, rfl⟩
  · obtain ⟨k, hk, rfl⟩ := (Transfer.mem_carriers_iff hs).mp hp
    refine ⟨t.chunk k, t.read_carrier ho hl k, fun r now => ?_⟩
    rw [Transfer.accept_of_max_lt ho hlen hmax hk, hid]

def UdpConfig.narrow : UdpConfig := { maxDatagram := 384 }

def Envelope.zeros (n : Nat) : Envelope :=
  ⟨⟨1⟩, ⟨2⟩, ⟨⟨7⟩, List.replicate n 0⟩⟩

theorem Envelope.isTaken_split_zeros : UdpConfig.narrow.check = .ok () ∧
    (zeros 300).body.FitsMemory ∧ ¬ (zeros 300).Fits UdpConfig.narrow.maxDatagram ∧
    ((zeros 300).split UdpConfig.narrow.maxDatagram ⟨4⟩).length = 2 ∧
    ∀ part ∈ (zeros 300).split UdpConfig.narrow.maxDatagram ⟨4⟩, part.IsTaken := by
  have hc : UdpConfig.narrow.check = .ok () := by decide
  have hm : (zeros 300).body.FitsMemory := by decide +kernel
  have hs : ¬ (zeros 300).Fits UdpConfig.narrow.maxDatagram := by decide +kernel
  have hn : ((zeros 300).split UdpConfig.narrow.maxDatagram ⟨4⟩).length = 2 := by decide +kernel
  have hb : 2 ≤ (zeros 300).body.encode.length % UInt32.size := by decide +kernel
  refine ⟨hc, hm, hs, hn, (isTaken_split_iff UdpConfig.narrow hc (zeros 300) hm hs ⟨4⟩).2.1.mpr ?_⟩
  rw [hn]
  exact ⟨by decide, hb⟩

theorem Envelope.length_payload_zeros (n : Nat) : (zeros n).body.payload.length = n :=
  List.length_replicate

theorem Envelope.length_encode_zeros : (zeros 12582901).body.encode.length = 12582913 := by
  have hv : (Varint.encode 12582901).length = 4 := by
    rw [Varint.encode_of_ge (by decide), Varint.encode_of_ge (by decide),
      Varint.encode_of_ge (by decide), Varint.encode_of_lt (by decide)]
    rfl
  rw [Body.length_encode, length_payload_zeros, hv]

/-- Twelve megabytes in small datagrams are sent for nothing: they are cut into one chunk too many,
so that every receiver refuses every chunk. -/
theorem Envelope.split_zeros_refused : UdpConfig.narrow.check = .ok () ∧
    ((zeros 12582901).split UdpConfig.narrow.maxDatagram ⟨4⟩).length = 65537 ∧
    ∀ part ∈ (zeros 12582901).split UdpConfig.narrow.maxDatagram ⟨4⟩, ¬ part.IsTaken ∧
      ∃ c, part.body.read Chunk = .ok c ∧ ∀ r now, Reassembler.accept r now part c =
        (r, .error (.implausibleCount 65537 ⟨4⟩ 12582913)) := by
  have hlen := length_encode_zeros
  -- only the length of the message matters
  generalize zeros 12582901 = e at hlen ⊢
  obtain ⟨t, ht⟩ : ∃ t : Transfer, t = ⟨e, UdpConfig.narrow.maxDatagram, ⟨4⟩⟩ := ⟨_, rfl⟩
  have hsplit : e.split UdpConfig.narrow.maxDatagram ⟨4⟩ = t.carriers := by rw [ht]; rfl
  have hl : t.body.length = 12582913 := by rw [ht]; exact hlen
  have hid : t.id = ⟨4⟩ := by rw [ht]
  have hmx : t.max = 384 := by rw [ht]; rfl
  have ho : chunkOverhead < t.max := by rw [hmx]; decide
  have hn : t.count = 65537 := by rw [Transfer.count, hl, hmx]; decide
  have hs : ¬ t.message.Fits t.max := by
    rw [hmx, ht, Fits, hlen]
    decide
  have h32 : t.body.length < UInt32.size := by rw [hl]; decide
  have h64 : t.body.length < UInt64.size := h32.trans (by decide)
  have hmax : maxChunkCount < t.count := by rw [hn]; decide
  rw [hsplit, Transfer.length_carriers_of_not_fits hs, hn]
  refine ⟨by decide, rfl, fun part hp => ?_⟩
  obtain ⟨k, hk, rfl⟩ := (Transfer.mem_carriers_iff hs).mp hp
  constructor
  · intro hw
    have hc := (Transfer.plausible_of_isTaken ho h64 hw).2.1
    rw [Transfer.toNat_count (by rw [hn]; decide)] at hc
    omega
  · refine ⟨t.chunk k, t.read_carrier ho h64 k, fun r now => ?_⟩
    rw [Transfer.accept_of_max_lt ho h32 hmax hk, hn, hl, hid]

end PeerMesh

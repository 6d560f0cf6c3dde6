import PeerMesh.Message.Datagram

namespace PeerMesh

namespace Decoder

variable {α β : Type}

/-- On the bytes `bs`, whatever follows them, the decoder reads `a` and leaves what follows. -/
def Reads (d : Decoder α) (bs : Bytes) (a : α) : Prop :=
  ∀ rest, d (bs ++ rest) = .ok (a, rest)

namespace Reads

theorem pure (a : α) : Reads (Pure.pure a : Decoder α) [] a :=
  fun _ => rfl

theorem bind {d : Decoder α} {f : α → Decoder β} {bs cs : Bytes} {a : α} {b : β}
    (hd : Reads d bs a) (hf : Reads (f a) cs b) : Reads (d >>= f) (bs ++ cs) b := by
  intro rest
  rw [List.append_assoc, bind_of_ok (hd (cs ++ rest))]
  exact hf rest

theorem bind_nil {d : Decoder α} {f : α → Decoder β} {bs : Bytes} {a : α} {b : β}
    (hd : Reads d bs a) (hf : Reads (f a) [] b) : Reads (d >>= f) bs b := by
  have h := hd.bind hf
  rwa [List.append_nil] at h

theorem map {d : Decoder α} {bs : Bytes} {a : α} (f : α → β) (hd : Reads d bs a) :
    Reads (f <$> d) bs (f a) := by
  rw [← bind_pure_comp]
  exact hd.bind_nil (pure (f a))

theorem number {n x : Nat} (h : x < byteRange n) : Reads (Decoder.number n) (bigEndian n x) x := by
  intro rest
  rw [Decoder.number_append, Nat.mod_eq_of_lt h]

theorem byte (b : UInt8) : Reads Decoder.byte [b] b := by
  have hb : bigEndian 1 b.toNat = [b] := by simp [bigEndian, byteRange]
  have h := (number (n := 1) (x := b.toNat) b.toNat_lt).map UInt8.ofNat
  rwa [hb, UInt8.ofNat_toNat] at h

theorem varint {n : Nat} (h : n < UInt64.size) : Reads Varint.decode (Varint.encode n) n :=
  Varint.decode_encode h

theorem bytesField {bs : Bytes} (h : bs.length < UInt64.size) :
    Reads Field.decodeBytes (Field.encodeBytes bs) bs := by
  intro rest
  rw [Field.decodeBytes_eq_ok_iff, Field.encodeBytes, List.append_assoc]
  exact varint h (bs ++ rest)

theorem textField {s : String} (h : (utf8 s).length < UInt64.size) :
    Reads Field.decodeText (Field.encodeText s) s := by
  refine (bytesField h).bind_nil ?_
  rw [Utf8.decode_utf8]
  exact pure s

end Reads

end Decoder

open Decoder

theorem PeerId.decode_reads (p : PeerId) : Reads PeerId.decode p.encode p :=
  PeerId.decode_encode p

theorem PacketId.decode_reads (p : PacketId) : Reads PacketId.decode p.encode p :=
  PacketId.decode_encode p

theorem MultiPartId.decode_reads (m : MultiPartId) : Reads MultiPartId.decode m.encode m :=
  MultiPartId.decode_encode m

namespace PropertyValue

def Sized : PropertyValue → Prop
  | int _ => True
  | text s => (utf8 s).length < UInt64.size
  | bytes bs => bs.length < UInt64.size

instance (v : PropertyValue) : Decidable v.Sized :=
  match v with
  | int _ => .isTrue trivial
  | text s => inferInstanceAs (Decidable ((utf8 s).length < UInt64.size))
  | bytes bs => inferInstanceAs (Decidable (bs.length < UInt64.size))

theorem decode_reads {v : PropertyValue} (h : v.Sized) : Reads PropertyValue.decode v.encode v := by
  cases v with
  | int v =>
    have hn := Reads.number (n := 8) (x := v.toBitVec.toNat) v.toBitVec.isLt
    refine (Reads.byte 1).bind (hn.bind_nil ?_)
    rw [BitVec.ofNat_toNat, BitVec.setWidth_eq, Int64.ofBitVec_toBitVec]
    exact Reads.pure _
  | text s => exact (Reads.byte 2).bind ((Reads.textField h).bind_nil (Reads.pure _))
  | bytes bs => exact (Reads.byte 3).bind ((Reads.bytesField h).bind_nil (Reads.pure _))

end PropertyValue

namespace Properties

def Sized (ps : Properties) : Prop :=
  ps.entries.length < UInt64.size ∧
    ∀ e ∈ ps.entries, (utf8 e.1).length < UInt64.size ∧ e.2.Sized

instance (ps : Properties) : Decidable ps.Sized :=
  inferInstanceAs (Decidable (_ ∧ ∀ e ∈ ps.entries, _ ∧ e.2.Sized))

theorem insertEntry_of_before {key : String} {value : PropertyValue}
    {es : List (String × PropertyValue)} (h : ∀ e ∈ es, KeyBefore e.1 key) :
    insertEntry key value es = es ++ [(key, value)] := by
  induction es with
  | nil => rfl
  | cons e es ih =>
    have he : KeyBefore e.1 key := h e (by simp)
    have hne : key ≠ e.1 := fun hk => KeyBefore.irrefl _ (hk ▸ he)
    have hnb : ¬ KeyBefore key e.1 := fun hk => KeyBefore.irrefl _ (he.trans hk)
    rw [insertEntry, if_neg hne, if_neg hnb, ih fun d hd => h d (by simp [hd])]
    rfl

theorem lookup_of_before {key : String} {es : List (String × PropertyValue)}
    (h : ∀ e ∈ es, KeyBefore e.1 key) : es.lookup key = none := by
  rw [List.lookup_eq_none_iff]
  intro e he
  have hne : key ≠ e.1 := fun hk => KeyBefore.irrefl _ (hk ▸ h e he)
  simpa using hne

/-- Entries in their order are added at the end, one after the other. -/
theorem decodeEntries_reads (es : List (String × PropertyValue)) (ps qs : Properties)
    (hq : qs.entries = ps.entries ++ es)
    (hs : ∀ e ∈ es, (utf8 e.1).length < UInt64.size ∧ e.2.Sized) :
    Reads (decodeEntries es.length ps) (es.flatMap fun e => Field.encodeText e.1 ++ e.2.encode)
      qs := by
  induction es generalizing ps with
  | nil =>
    obtain ⟨entries, ordered⟩ := ps
    have he : qs = ⟨entries, ordered⟩ := by
      obtain ⟨qe, qo⟩ := qs
      simpa using hq
    rw [he]
    exact Reads.pure _
  | cons e es ih =>
    have hb : ∀ d ∈ ps.entries, KeyBefore d.1 e.1 := by
      have ho := qs.ordered
      rw [hq] at ho
      exact fun d hd => (List.pairwise_append.mp ho).2.2 d hd e (by simp)
    have hi : (ps.insert e.1 e.2).entries = ps.entries ++ [e] := insertEntry_of_before hb
    have hr := ih (ps.insert e.1 e.2) (by rw [hi, hq, List.append_assoc]; rfl)
      fun d hd => hs d (by simp [hd])
    have hk := hs e (by simp)
    rw [List.length_cons, decodeEntries, List.flatMap_cons, List.append_assoc]
    refine (Reads.textField hk.1).bind ((PropertyValue.decode_reads hk.2).bind ?_)
    rw [get?, lookup_of_before hb]
    exact hr

theorem decode_reads {ps : Properties} (h : ps.Sized) : Reads Properties.decode ps.encode ps :=
  (Reads.varint h.1).bind (decodeEntries_reads ps.entries empty ps rfl h.2)

end Properties

namespace Identity

def Sized (i : Identity) : Prop :=
  (utf8 i.name).length < UInt64.size ∧ i.properties.Sized

instance (i : Identity) : Decidable i.Sized :=
  inferInstanceAs (Decidable (_ ∧ i.properties.Sized))

theorem decode_reads {i : Identity} (h : i.Sized) : Reads Identity.decode i.encode i := by
  rw [encode, List.append_assoc]
  exact (PeerId.decode_reads i.id).bind ((Reads.textField h.1).bind
    ((Properties.decode_reads h.2).bind_nil (Reads.pure _)))

end Identity

theorem MessageTypeId.decode_reads (t : MessageTypeId) : Reads MessageTypeId.decode t.encode t := by
  have h := (Reads.number (n := 8) (x := t.value.toNat) t.value.toNat_lt).map
    fun n => (⟨UInt64.ofNat n⟩ : MessageTypeId)
  rwa [UInt64.ofNat_toNat] at h

namespace Body

def Sized (b : Body) : Prop :=
  b.payload.length < UInt64.size

instance (b : Body) : Decidable b.Sized :=
  inferInstanceAs (Decidable (b.payload.length < UInt64.size))

theorem decode_reads {b : Body} (h : b.Sized) : Reads Body.decode b.encode b :=
  (MessageTypeId.decode_reads b.typeId).bind ((Reads.bytesField h).bind_nil (Reads.pure _))

theorem read_of {α : Type} [Message α] {m : α}
    (h : Reads (Message.decode (α := α)) (Message.encode m) m) : (of m).read α = .ok m := by
  have hr := h []
  rw [List.append_nil] at hr
  have hm : (of m).Holds α := rfl
  rw [read, if_pos hm]
  simp only [StateT.run, of, hr]

end Body

theorem Envelope.decode_reads {e : Envelope} (h : e.body.Sized) :
    Reads Envelope.decode e.encode e := by
  rw [encode, List.append_assoc]
  exact (PeerId.decode_reads e.sender).bind ((PeerId.decode_reads e.receiver).bind
    ((Body.decode_reads h).bind_nil (Reads.pure _)))

theorem Packet.decode_reads {p : Packet} (h : p.message.body.Sized) :
    Reads Packet.decode p.encode p := by
  obtain ⟨id, sender, receiver, reliable, message⟩ := p
  simp only [encode, List.append_assoc]
  refine (PacketId.decode_reads id).bind ((PeerId.decode_reads sender).bind
    ((PeerId.decode_reads receiver).bind ((Reads.byte _).bind ?_)))
  cases reliable with
  | false => exact (Envelope.decode_reads h).bind_nil (Reads.pure _)
  | true => exact (Envelope.decode_reads h).bind_nil (Reads.pure _)

namespace Payload

def Sized : Payload → Prop
  | packet p => p.message.body.Sized
  | acknowledgement _ => True
  | announcement i => i.Sized
  | handshake i => i.Sized
  | message e => e.body.Sized

instance (p : Payload) : Decidable p.Sized :=
  match p with
  | packet p => inferInstanceAs (Decidable p.message.body.Sized)
  | acknowledgement _ => .isTrue trivial
  | announcement i => inferInstanceAs (Decidable i.Sized)
  | handshake i => inferInstanceAs (Decidable i.Sized)
  | message e => inferInstanceAs (Decidable e.body.Sized)

/-- A payload shows its own end: it is read back whatever follows. -/
theorem decode_reads {p : Payload} (h : p.Sized) : Reads Payload.decode p.encode p := by
  cases p with
  | packet p => exact (Reads.byte 1).bind ((Packet.decode_reads h).map packet)
  | acknowledgement id =>
    exact (Reads.byte 2).bind ((PacketId.decode_reads id).map acknowledgement)
  | announcement i => exact (Reads.byte 3).bind ((Identity.decode_reads h).map announcement)
  | handshake i => exact (Reads.byte 4).bind ((Identity.decode_reads h).map handshake)
  | message e => exact (Reads.byte 5).bind ((Envelope.decode_reads h).map message)

theorem encode_ne_nil (p : Payload) : p.encode ≠ [] := by
  cases p <;> exact List.cons_ne_nil _ _

end Payload

namespace Datagram

theorem decode_cons {p : Payload} (h : p.Sized) (rest : Bytes) :
    decode (p.encode ++ rest) = (p :: ·) <$> decode rest := by
  have hn : p.encode ++ rest ≠ [] := fun he => p.encode_ne_nil (List.append_eq_nil_iff.mp he).1
  rw [decode, if_neg hn]
  split
  · rename_i q r hd
    rw [Payload.decode_reads h rest] at hd
    cases hd
    rfl
  · rename_i e hd
    rw [Payload.decode_reads h rest] at hd
    cases hd

theorem decode_encode (ps : List Payload) (h : ∀ p ∈ ps, p.Sized) :
    decode (encode ps) = .ok ps := by
  induction ps with
  | nil => rw [encode, List.flatMap_nil, decode, if_pos rfl]
  | cons p ps ih =>
    rw [encode, List.flatMap_cons, decode_cons (h p (by simp)), ← encode,
      ih fun q hq => h q (by simp [hq])]
    rfl

/-- Every list of payloads is read back from its datagram, each payload from its own bytes whatever
follows them, and no other list has the same bytes. -/
theorem round_trip (ps : List Payload) (h : ∀ p ∈ ps, p.Sized) :
    (∀ p ∈ ps, ∀ rest, Payload.decode (p.encode ++ rest) = .ok (p, rest)) ∧
      decode (encode ps) = .ok ps ∧
      ∀ qs : List Payload, (∀ q ∈ qs, q.Sized) → encode qs = encode ps → qs = ps := by
  refine ⟨fun p hp => Payload.decode_reads (h p hp), decode_encode ps h, fun qs hq he => ?_⟩
  have hd := decode_encode qs hq
  rw [he, decode_encode ps h] at hd
  exact (Except.ok.inj hd).symm

def everyKind : List Payload :=
  let e : Envelope := ⟨⟨1⟩, ⟨2⟩, ⟨⟨9⟩, [0, 128, 255]⟩⟩
  let i : Identity := ((Identity.mk ⟨3⟩ "näme" .empty).declare "text" (.text "❤")).declare "bytes"
    (.bytes [1, 0])
  [.packet ⟨⟨7⟩, ⟨1⟩, ⟨2⟩, true, e⟩, .acknowledgement ⟨7⟩,
    .announcement (i.declare unicastPortKey (.int (-4000))), .handshake i, .message e]

theorem round_trip_everyKind :
    (∀ p ∈ everyKind, p.Sized) ∧
      (∀ p ∈ everyKind, ∀ rest, Payload.decode (p.encode ++ rest) = .ok (p, rest)) ∧
      decode (encode everyKind) = .ok everyKind ∧
      ∀ qs : List Payload, (∀ q ∈ qs, q.Sized) → encode qs = encode everyKind → qs = everyKind := by
  have h : ∀ p ∈ everyKind, p.Sized := by decide
  exact ⟨h, round_trip everyKind h⟩

end Datagram

end PeerMesh

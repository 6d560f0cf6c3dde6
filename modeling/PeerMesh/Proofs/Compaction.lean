import PeerMesh.Proofs.Canonical
import PeerMesh.Proofs.SelfDelimiting

namespace PeerMesh

namespace Decoder

/-- Whatever the decoder reads, `write` needs no more bytes for it than it was read from, and `P`
holds of it. -/
def Compacts {α : Type} (d : Decoder α) (write : α → Bytes) (P : α → Prop) : Prop :=
  ∀ bs a rest, d bs = .ok (a, rest) → rest.length + (write a).length ≤ bs.length ∧ P a

namespace Compacts

variable {α : Type}

theorem of_consumes {d : Decoder α} {write : α → Bytes} {k : Nat} (h : Consumes d k)
    (hw : ∀ a, (write a).length ≤ k) : Compacts d write fun _ => True := by
  intro bs a rest hd
  have hrest := h bs a rest hd
  have ha := hw a
  exact ⟨by omega, trivial⟩

theorem varintGroups (groups : Nat) :
    Compacts (Varint.decodeGroups groups) Varint.encode (· < Varint.limit groups) := by
  refine fun bs n rest h => ⟨?_, Varint.lt_of_decodeGroups h⟩
  induction groups generalizing n bs with
  | zero =>
    have hn : n < 2 := Varint.lt_of_decodeGroups h
    have hrest := Consumes.varintGroups 0 bs n rest h
    rw [Varint.encode_of_lt (by omega)]
    exact hrest
  | succ groups ih =>
    have hrest := Consumes.varintGroups (groups + 1) bs n rest h
    by_cases hn : n < 128
    · rw [Varint.encode_of_lt hn]
      exact hrest
    -- more than one group is needed, and so more than one was there
    · cases bs with
      | nil => cases h
      | cons b bs =>
        have hb := b.toNat_lt
        rw [Varint.decodeGroups] at h
        split at h
        · rename_i hlt
          cases h
          exact (hn (UInt8.lt_iff_toNat_lt.mp hlt)).elim
        · cases hr : Varint.decodeGroups groups bs with
          | error e => rw [hr] at h; cases h
          | ok v =>
            rw [hr] at h
            cases h
            have hhigh := ih bs v.1 hr
            have hdiv : (b.toNat - 128 + 128 * v.1) / 128 = v.1 := by omega
            rw [Varint.encode_of_ge (Nat.le_of_not_lt hn), hdiv, List.length_cons, List.length_cons]
            omega

theorem varint : Compacts Varint.decode Varint.encode (· < UInt64.size) :=
  varintGroups 9

theorem bytesField :
    Compacts Field.decodeBytes Field.encodeBytes fun bs => bs.length < UInt64.size := by
  intro bs front rest h
  obtain ⟨hlength, hsize⟩ := varint bs _ _ (Field.decodeBytes_eq_ok_iff.mp h)
  rw [List.length_append] at hlength
  rw [Field.encodeBytes, List.length_append]
  exact ⟨by omega, hsize⟩

theorem textField :
    Compacts Field.decodeText Field.encodeText fun s => (utf8 s).length < UInt64.size := by
  intro bs s rest h
  obtain ⟨front, mid, hfront, h⟩ := bind_eq_ok.mp h
  cases ht : Utf8.decode front with
  | error fault =>
    rw [ht] at h
    cases h
  | ok t =>
    rw [ht] at h
    cases h
    obtain rfl := Utf8.eq_utf8_of_decode ht
    exact bytesField bs _ rest hfront

end Compacts

end Decoder

open Decoder

theorem PeerId.decode_compacts : Compacts PeerId.decode PeerId.encode fun _ => True :=
  .of_consumes PeerId.decode_consumes fun p => Nat.le_of_eq (Uuid.length_encode p.bits)

theorem PacketId.decode_compacts : Compacts PacketId.decode PacketId.encode fun _ => True :=
  .of_consumes PacketId.decode_consumes fun p => Nat.le_of_eq (Uuid.length_encode p.bits)

theorem PropertyValue.decode_compacts :
    Compacts PropertyValue.decode PropertyValue.encode Sized := by
  intro bs v rest h
  obtain ⟨kind, mid, hkind, h⟩ := bind_eq_ok.mp h
  have hmid := Consumes.byte bs kind mid hkind
  split at h
  · obtain ⟨n, mid', hn, h⟩ := bind_eq_ok.mp h
    cases h
    have hrest := Consumes.number 8 mid n _ hn
    rw [encode, List.length_cons, length_bigEndian]
    exact ⟨by omega, trivial⟩
  · split at h
    · obtain ⟨s, mid', hs, h⟩ := bind_eq_ok.mp h
      cases h
      obtain ⟨hrest, hsize⟩ := Compacts.textField mid s _ hs
      rw [encode, List.length_cons]
      exact ⟨by omega, hsize⟩
    · split at h
      · obtain ⟨front, mid', hfront, h⟩ := bind_eq_ok.mp h
        cases h
        obtain ⟨hrest, hsize⟩ := Compacts.bytesField mid front _ hfront
        rw [encode, List.length_cons]
        exact ⟨by omega, hsize⟩
      · cases h

namespace Properties

def encodeEntry (e : String × PropertyValue) : Bytes :=
  Field.encodeText e.1 ++ e.2.encode

theorem readEntry_compacts : Compacts readEntry encodeEntry
    fun e => (utf8 e.1).length < UInt64.size ∧ e.2.Sized := by
  intro bs e rest h
  obtain ⟨key, mid, hkey, h⟩ := bind_eq_ok.mp h
  obtain ⟨value, mid', hvalue, h⟩ := bind_eq_ok.mp h
  cases h
  obtain ⟨hmid, hkey⟩ := Compacts.textField bs key mid hkey
  obtain ⟨hrest, hvalue⟩ := PropertyValue.decode_compacts mid value _ hvalue
  rw [encodeEntry, List.length_append]
  dsimp only
  exact ⟨by omega, hkey, hvalue⟩

theorem readEntries_compacts (n : Nat) : Compacts (readEntries n) (List.flatMap encodeEntry)
    fun es => ∀ e ∈ es, (utf8 e.1).length < UInt64.size ∧ e.2.Sized := by
  induction n with
  | zero =>
    intro bs es rest h
    cases h
    exact ⟨Nat.le_refl _, nofun⟩
  | succ n ih =>
    intro bs es rest h
    obtain ⟨e, mid, es', he, hes, rfl⟩ := readEntries_succ_eq_ok.mp h
    obtain ⟨hmid, he⟩ := readEntry_compacts bs e mid he
    obtain ⟨hrest, hes⟩ := ih mid es' rest hes
    rw [List.flatMap_cons, List.length_append]
    exact ⟨by omega, List.forall_mem_cons.mpr ⟨he, hes⟩⟩

theorem decode_compacts : Compacts Properties.decode encode Sized := by
  intro bs ps rest h
  obtain ⟨count, mid, hcount, h⟩ := bind_eq_ok.mp h
  obtain ⟨hmid, hsize⟩ := Compacts.varint bs count mid hcount
  -- the entries were read in some other order, which takes the same number of bytes
  obtain ⟨es, hes, hperm⟩ := decodeEntries_eq_ok_iff.mp h
  obtain ⟨hrest, hentries⟩ := readEntries_compacts count mid es rest hes
  have hlength : ps.entries.length = count := hperm.length_eq ▸ length_of_readEntries hes
  have hbytes := (hperm.flatMap_right encodeEntry).length_eq
  rw [encode, List.length_append, hlength, Sized, hlength]
  refine ⟨?_, hsize, fun e he => hentries e (hperm.mem_iff.mpr he)⟩
  show rest.length + (_ + (ps.entries.flatMap encodeEntry).length) ≤ bs.length
  omega

end Properties

theorem Identity.decode_compacts : Compacts Identity.decode encode Sized := by
  intro bs i rest h
  obtain ⟨id, afterId, hid, h⟩ := bind_eq_ok.mp h
  obtain ⟨name, afterName, hname, h⟩ := bind_eq_ok.mp h
  obtain ⟨ps, rest', hps, h⟩ := bind_eq_ok.mp h
  cases h
  have hid := (PeerId.decode_compacts bs id afterId hid).1
  obtain ⟨hname, hsize⟩ := Compacts.textField afterId name afterName hname
  obtain ⟨hps, hsized⟩ := Properties.decode_compacts afterName ps _ hps
  rw [encode, List.length_append, List.length_append]
  dsimp only
  exact ⟨by omega, hsize, hsized⟩

theorem Body.decode_compacts : Compacts Body.decode encode Sized := by
  intro bs b rest h
  obtain ⟨typeId, mid, htype, h⟩ := bind_eq_ok.mp h
  obtain ⟨payload, rest', hpayload, h⟩ := bind_eq_ok.mp h
  cases h
  have hmid := MessageTypeId.decode_consumes bs typeId mid htype
  obtain ⟨hrest, hsize⟩ := Compacts.bytesField mid payload _ hpayload
  rw [encode, List.length_append, MessageTypeId.encode, length_bigEndian]
  dsimp only
  exact ⟨by omega, hsize⟩

theorem Envelope.decode_compacts :
    Compacts Envelope.decode encode fun e => e.body.Sized := by
  intro bs e rest h
  obtain ⟨sender, afterSender, hsender, h⟩ := bind_eq_ok.mp h
  obtain ⟨receiver, afterReceiver, hreceiver, h⟩ := bind_eq_ok.mp h
  obtain ⟨body, rest', hbody, h⟩ := bind_eq_ok.mp h
  cases h
  have hsender := (PeerId.decode_compacts bs sender afterSender hsender).1
  have hreceiver := (PeerId.decode_compacts afterSender receiver afterReceiver hreceiver).1
  obtain ⟨hbody, hsize⟩ := Body.decode_compacts afterReceiver body _ hbody
  rw [encode, List.length_append, List.length_append]
  dsimp only
  exact ⟨by omega, hsize⟩

theorem Packet.decode_compacts :
    Compacts Packet.decode encode fun p => p.message.body.Sized := by
  intro bs p rest h
  obtain ⟨id, afterId, hid, h⟩ := bind_eq_ok.mp h
  obtain ⟨sender, afterSender, hsender, h⟩ := bind_eq_ok.mp h
  obtain ⟨receiver, afterReceiver, hreceiver, h⟩ := bind_eq_ok.mp h
  obtain ⟨flag, afterFlag, hflag, h⟩ := bind_eq_ok.mp h
  split at h
  · cases h
  · obtain ⟨message, rest', hmessage, h⟩ := bind_eq_ok.mp h
    cases h
    have hid := (PacketId.decode_compacts bs id afterId hid).1
    have hsender := (PeerId.decode_compacts afterId sender afterSender hsender).1
    have hreceiver := (PeerId.decode_compacts afterSender receiver afterReceiver hreceiver).1
    have hflag := Consumes.byte afterReceiver flag afterFlag hflag
    obtain ⟨hmessage, hsize⟩ := Envelope.decode_compacts afterFlag message _ hmessage
    rw [encode, List.length_append, List.length_append, List.length_append, List.length_cons]
    dsimp only
    exact ⟨by omega, hsize⟩

theorem Payload.decode_compacts : Compacts Payload.decode encode Sized := by
  intro bs p rest h
  obtain ⟨kind, mid, hkind, h⟩ := bind_eq_ok.mp h
  have hmid := Consumes.byte bs kind mid hkind
  have hwhole {α : Type} {d : Decoder α} {write : α → Bytes} {P : α → Prop} (f : α → Payload)
      (hd : Compacts d write P) (hf : ∀ a, (f a).encode.length = (write a).length + 1)
      (hP : ∀ a, P a → (f a).Sized) (h : (f <$> d) mid = .ok (p, rest)) :
      rest.length + p.encode.length ≤ bs.length ∧ p.Sized := by
    obtain ⟨a, ha, rfl⟩ := map_eq_ok.mp h
    obtain ⟨hrest, ha⟩ := hd mid a rest ha
    rw [hf]
    exact ⟨by omega, hP a ha⟩
  split at h
  · exact hwhole packet Packet.decode_compacts (fun _ => rfl) (fun _ h => h) h
  · split at h
    · exact hwhole acknowledgement PacketId.decode_compacts (fun _ => rfl) (fun _ h => h) h
    · split at h
      · exact hwhole announcement Identity.decode_compacts (fun _ => rfl) (fun _ h => h) h
      · split at h
        · exact hwhole handshake Identity.decode_compacts (fun _ => rfl) (fun _ h => h) h
        · split at h
          · exact hwhole message Envelope.decode_compacts (fun _ => rfl) (fun _ h => h) h
          · cases h

namespace Datagram

theorem Leaves.compacts {bs rest : Bytes} {ps : List Payload} (h : Leaves bs ps rest) :
    rest.length + (encode ps).length ≤ bs.length ∧ ∀ p ∈ ps, p.Sized := by
  induction h with
  | start bs => exact ⟨Nat.le_refl _, nofun⟩
  | @next bs mid rest p ps head tail ih =>
    obtain ⟨hmid, hp⟩ := Payload.decode_compacts bs p mid head
    obtain ⟨hrest, hps⟩ := ih
    have hcons : encode (p :: ps) = p.encode ++ encode ps := rfl
    rw [hcons, List.length_append]
    exact ⟨by omega, List.forall_mem_cons.mpr ⟨hp, hps⟩⟩

/-- The payloads of a datagram are written in at most as many bytes as the datagram has, and read
back from them. -/
theorem encode_of_decode {bs : Bytes} {ps : List Payload} (h : decode bs = .ok ps) :
    (encode ps).length ≤ bs.length ∧ decode (encode ps) = .ok ps := by
  obtain ⟨hlength, hsized⟩ := (leaves_of_decode h).compacts
  exact ⟨Nat.le_trans (Nat.le_add_left _ _) hlength, decode_encode ps hsized⟩

end Datagram

end PeerMesh

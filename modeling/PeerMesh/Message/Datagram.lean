import PeerMesh.Codec.Consumption
import PeerMesh.Message.Payload

namespace PeerMesh

open Decoder

theorem Uuid.decode_consumes : Consumes Uuid.decode 16 :=
  (Consumes.number 16).map _

theorem PeerId.decode_consumes : Consumes PeerId.decode 16 :=
  Uuid.decode_consumes.map _

theorem PacketId.decode_consumes : Consumes PacketId.decode 16 :=
  Uuid.decode_consumes.map _

theorem PropertyValue.decode_consumes : Consumes PropertyValue.decode 2 := by
  refine (Consumes.byte.bind (k := 1) fun kind => ?_).mono (Nat.le_refl _)
  split
  · exact ((Consumes.number 8).bind fun _ => Consumes.pure _).mono (by omega)
  · split
    · exact (Consumes.textField.bind fun _ => Consumes.pure _).mono (by omega)
    · split
      · exact (Consumes.bytesField.bind fun _ => Consumes.pure _).mono (by omega)
      · exact Consumes.throw _ _

theorem Properties.decodeEntries_consumes (n : Nat) (ps : Properties) :
    Consumes (Properties.decodeEntries n ps) (3 * n) := by
  induction n generalizing ps with
  | zero => exact Consumes.pure ps
  | succ n ih =>
    rw [Properties.decodeEntries]
    refine (Consumes.textField.bind fun key =>
      PropertyValue.decode_consumes.bind (k := 3 * n) fun value => ?_).mono (by omega)
    split
    · exact Consumes.throw _ _
    · exact ih _

theorem Properties.decode_consumes : Consumes Properties.decode 1 :=
  (Consumes.varint.bind fun n => (decodeEntries_consumes n .empty).mono (Nat.zero_le _)).mono
    (Nat.le_refl _)

theorem Identity.decode_consumes : Consumes Identity.decode 18 :=
  (PeerId.decode_consumes.bind fun _ => Consumes.textField.bind fun _ =>
    Properties.decode_consumes.bind fun _ => Consumes.pure _).mono (Nat.le_refl _)

theorem MessageTypeId.decode_consumes : Consumes MessageTypeId.decode 8 :=
  (Consumes.number 8).map _

theorem Body.decode_consumes : Consumes Body.decode 9 :=
  (MessageTypeId.decode_consumes.bind fun _ => Consumes.bytesField.bind fun _ =>
    Consumes.pure _).mono (Nat.le_refl _)

theorem Envelope.decode_consumes : Consumes Envelope.decode 41 :=
  (PeerId.decode_consumes.bind fun _ => PeerId.decode_consumes.bind fun _ =>
    Body.decode_consumes.bind fun _ => Consumes.pure _).mono (Nat.le_refl _)

theorem Packet.decode_consumes : Consumes Packet.decode 90 := by
  refine (PacketId.decode_consumes.bind fun _ => PeerId.decode_consumes.bind fun _ =>
    PeerId.decode_consumes.bind fun _ => Consumes.byte.bind (k := 41) fun flag => ?_).mono
    (Nat.le_refl _)
  split
  · exact Consumes.throw _ _
  · exact (Envelope.decode_consumes.bind fun _ => Consumes.pure _).mono (Nat.le_refl _)

theorem Payload.decode_consumes : Consumes Payload.decode 17 := by
  refine (Consumes.byte.bind (k := 16) fun kind => ?_).mono (Nat.le_refl _)
  repeat' split
  · exact (Packet.decode_consumes.map _).mono (by omega)
  · exact (PacketId.decode_consumes.map _).mono (by omega)
  · exact (Identity.decode_consumes.map _).mono (by omega)
  · exact (Identity.decode_consumes.map _).mono (by omega)
  · exact (Envelope.decode_consumes.map _).mono (by omega)
  · exact Consumes.throw _ _

namespace Datagram

def encode (ps : List Payload) : Bytes :=
  ps.flatMap Payload.encode

/-- All payloads of a datagram. An empty datagram has none. -/
def decode (bs : Bytes) : Except DecodeError (List Payload) :=
  if bs = [] then .ok []
  else
    match _h : Payload.decode bs with
    | .ok (p, rest) => (p :: ·) <$> decode rest
    | .error e => .error e
termination_by bs.length
decreasing_by
  have := Payload.decode_consumes bs p rest _h
  omega

end Datagram

end PeerMesh

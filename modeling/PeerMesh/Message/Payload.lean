import PeerMesh.Identity
import PeerMesh.Message.Body

namespace PeerMesh

structure Envelope where
  sender : PeerId
  receiver : PeerId
  body : Body
deriving DecidableEq, Inhabited

namespace Envelope

def isBroadcast (e : Envelope) : Bool :=
  e.receiver.isNil

def encode (e : Envelope) : Bytes :=
  e.sender.encode ++ e.receiver.encode ++ e.body.encode

def decode : Decoder Envelope := do
  let sender ← PeerId.decode
  let receiver ← PeerId.decode
  let body ← Body.decode
  return { sender, receiver, body }

end Envelope

/-- An envelope on its way in a datagram. The id of a packet connects it with its acknowledgement
and tells whether it was seen before. -/
structure Packet where
  id : PacketId
  sender : PeerId
  receiver : PeerId
  reliable : Bool
  message : Envelope
deriving DecidableEq, Inhabited

namespace Packet

def encode (p : Packet) : Bytes :=
  p.id.encode ++ p.sender.encode ++ p.receiver.encode ++ (if p.reliable then 1 else 0) ::
    p.message.encode

def decode : Decoder Packet := do
  let id ← PacketId.decode
  let sender ← PeerId.decode
  let receiver ← PeerId.decode
  let flag ← Decoder.byte
  if 1 < flag then throw (.invalidReliability flag)
  let message ← Envelope.decode
  return { id, sender, receiver, reliable := flag = 1, message }

end Packet

inductive Payload where
  | packet (packet : Packet)
  | acknowledgement (id : PacketId)
  | announcement (identity : Identity)
  | handshake (identity : Identity)
  | message (envelope : Envelope)
deriving DecidableEq, Inhabited

namespace Payload

def encode : Payload → Bytes
  | packet p => 1 :: p.encode
  | acknowledgement id => 2 :: id.encode
  | announcement i => 3 :: i.encode
  | handshake i => 4 :: i.encode
  | message e => 5 :: e.encode

def decode : Decoder Payload := do
  let kind ← Decoder.byte
  if kind = 1 then packet <$> Packet.decode
  else if kind = 2 then acknowledgement <$> PacketId.decode
  else if kind = 3 then announcement <$> Identity.decode
  else if kind = 4 then handshake <$> Identity.decode
  else if kind = 5 then message <$> Envelope.decode
  else throw (.unknownPayloadKind kind)

end Payload

end PeerMesh

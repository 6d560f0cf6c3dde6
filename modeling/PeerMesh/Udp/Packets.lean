import PeerMesh.FreshId
import PeerMesh.Message.Datagram
import PeerMesh.MultiPart.Split

namespace PeerMesh

def Packet.datagram (p : Packet) : Bytes :=
  (Payload.packet p).encode

/-- The packets for a message, with fresh ids, and the source of ids after that. -/
def Envelope.packets (e : Envelope) (sender : PeerId) (reliable : Bool) (max : Nat)
    (ids : IdSource) : List Packet × IdSource :=
  let parts := e.split max ids.multiParts.next
  (parts.mapIdx fun i part =>
    { id := ids.packets.draw (ids.packets.used + i)
      sender
      receiver := part.receiver
      reliable
      message := part },
   { packets := ids.packets.advance parts.length
     multiParts := ids.multiParts.advance (if e.Fits max then 0 else 1) })

end PeerMesh

import PeerMesh.Identity

namespace PeerMesh

/-- What an operating system reports about a socket or a stream. -/
inductive IoFault where
  | unexpectedEof
  | brokenPipe
  | addressInUse
  | addressNotAvailable
  | uncategorized
deriving DecidableEq, Repr

namespace IoFault

def name : IoFault → String
  | unexpectedEof => "UnexpectedEof"
  | brokenPipe => "BrokenPipe"
  | addressInUse => "AddrInUse"
  | addressNotAvailable => "AddrNotAvailable"
  | uncategorized => "Uncategorized"

end IoFault

inductive SendError where
  | noRoute (peer : PeerId)
  | shutDown
  | acknowledgementTimeout (packet : PacketId) (attempts : Nat)
  | frameTooLarge (length max : Nat)
  | refused (reason : String)
  | io (fault : IoFault)
  | broadcastFailed (transports : List String)
deriving DecidableEq, Repr

namespace SendError

def message : SendError → String
  | noRoute peer => "no route to peer " ++ peer.describe
  | shutDown => "transport is shut down"
  | acknowledgementTimeout packet attempts =>
    s!"packet {packet.describe} was not acknowledged after {attempts} resend attempts"
  | frameTooLarge length max =>
    s!"frame of {length} bytes exceeds the maximum frame length of {max} bytes"
  | refused reason => reason
  | io fault => fault.name
  | broadcastFailed transports =>
    "broadcast failed for transport(s) " ++ Text.quotedList transports

end SendError

def IdentityChange.message (c : IdentityChange) : String :=
  "an identity update must preserve the id: was " ++ c.expected.describe ++ ", update has " ++
    c.actual.describe

end PeerMesh

import PeerMesh.Address

namespace PeerMesh

/-- The bytes of a datagram that are kept free for everything around the data of a chunk. -/
def chunkOverhead : Nat := 192

inductive ConfigError where
  | groupNotMulticast (ip : IpAddress)
  | datagramTooSmall
  | receiveBufferTooSmall
  | intervalZero
  | frameLimitOutOfRange
  | handshakeTimeoutZero
deriving DecidableEq, Repr

def ConfigError.message : ConfigError → String
  | groupNotMulticast ip => ip.text ++ " is not a multicast address"
  | datagramTooSmall => s!"max datagram payload must be at least {2 * chunkOverhead} bytes"
  | receiveBufferTooSmall => "receive buffer size must be at least the max datagram payload"
  | intervalZero => "announce and resend intervals must be positive"
  | frameLimitOutOfRange => s!"max frame length must be between 1 and {UInt32.size - 1}"
  | handshakeTimeoutZero => "handshake timeout must be positive"

structure UdpConfig where
  group : SocketAddress := ⟨.v4 0xeb0d2501, 21337, 0⟩
  interface : IpAddress := .v4 0
  timeToLive : Nat := 1
  bindAddress : SocketAddress := ⟨.v4 0, 0, 0⟩
  announceInterval : Nat := 5000
  resendInterval : Nat := 1000
  /-- How often an unacknowledged packet is sent again; forever if not given. -/
  maxResends : Option Nat := none
  maxDatagram : Nat := 1472
  multiPartTimeout : Nat := 60000
  receiveBuffer : Nat := 65536
  poolSize : Nat := 64
deriving Repr

def UdpConfig.check (c : UdpConfig) : Except ConfigError Unit :=
  if ¬ c.group.ip.isMulticast then .error (.groupNotMulticast c.group.ip)
  else if c.maxDatagram < 2 * chunkOverhead then .error .datagramTooSmall
  else if c.receiveBuffer < c.maxDatagram then .error .receiveBufferTooSmall
  else if c.announceInterval = 0 ∨ c.resendInterval = 0 then .error .intervalZero
  else .ok ()

inductive TcpRole where
  | server (bindAddress : SocketAddress)
  | client (remote : SocketAddress)
deriving DecidableEq, Repr

structure TcpConfig where
  role : TcpRole
  backoff : Nat := 5000
  maxFrame : Nat := 16777216
  handshakeTimeout : Nat := 10000
deriving Repr

def TcpConfig.check (c : TcpConfig) : Except ConfigError Unit :=
  if c.maxFrame = 0 ∨ UInt32.size ≤ c.maxFrame then .error .frameLimitOutOfRange
  else if c.handshakeTimeout = 0 then .error .handshakeTimeoutZero
  else .ok ()

structure InboundConfig where
  discoveryTimeout : Nat := 30000
deriving Repr

end PeerMesh

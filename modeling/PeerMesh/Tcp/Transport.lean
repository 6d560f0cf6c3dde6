import PeerMesh.Config
import PeerMesh.Directory
import PeerMesh.Tcp.Frame

namespace PeerMesh

inductive ConnectionStage where
  | opened (deadline : Nat)
  | established (peer : PeerId)
deriving DecidableEq

structure Connection where
  address : SocketAddress
  stage : ConnectionStage
  writer : FrameWriter
  unread : Bytes := []

namespace Connection

def peer? (c : Connection) : Option PeerId :=
  match c.stage with
  | .opened _ => none
  | .established peer => some peer

end Connection

inductive TcpActivity where
  | trying
  | listening
  | connected (number : Nat)
  | pausing (time : Nat)
  | stopped
deriving DecidableEq, Repr

structure TcpTransport where
  config : TcpConfig
  index : Nat
  activity : TcpActivity := .trying
  connections : KeyedList Nat Connection := .empty
  nextConnection : Nat := 0

structure TcpReception where
  transport : TcpTransport
  directory : Directory
  arrivals : List Envelope := []
  released : List Held := []

namespace TcpTransport

def isStopped (t : TcpTransport) : Bool :=
  t.activity == .stopped

def isListening (t : TcpTransport) : Bool :=
  t.activity == .listening

def established (t : TcpTransport) : List (Nat × PeerId) :=
  t.connections.entries.filterMap fun e => e.2.peer?.map (e.1, ·)

def bound (t : TcpTransport) : TcpTransport :=
  if t.isStopped then t else { t with activity := .listening }

def pause (t : TcpTransport) (now : Nat) : TcpTransport :=
  if t.isStopped then t else { t with activity := .pausing (now + t.config.backoff) }

def retryDue (t : TcpTransport) (now : Nat) : TcpTransport :=
  match t.activity with
  | .pausing time => if time ≤ now then { t with activity := .trying } else t
  | _ => t

/-- A connection is there, and the own handshake is written on it. If that cannot be done the
connection is given up. -/
def opened (t : TcpTransport) (self : Identity) (a : SocketAddress) (now : Nat) : TcpTransport :=
  if t.isStopped then t
  else
    let (writer, result) :=
      FrameWriter.write { maxFrame := t.config.maxFrame } (.handshake self)
    let isClient :=
      match t.config.role with
      | .client _ => true
      | .server _ => false
    match result with
    | .error _ => if isClient then t.pause now else t
    | .ok () =>
      let number := t.nextConnection
      { t with
        nextConnection := number + 1
        connections :=
          t.connections.put number ⟨a, .opened (now + t.config.handshakeTimeout), writer, []⟩
        activity := if isClient then .connected number else t.activity }

/-- Gives up a connection and the route that it is. A client connects again after a pause. -/
def close (t : TcpTransport) (d : Directory) (number now : Nat) : TcpTransport × Directory :=
  match t.connections.get? number with
  | none => (t, d)
  | some c =>
    let d :=
      match c.stage with
      | .opened _ => d
      | .established peer => d.removeRoute (.tcp peer ⟨t.index, number⟩)
    let t := { t with connections := t.connections.erase number }
    (if t.activity = .connected number then t.pause now else t, d)

def handshakesDue (t : TcpTransport) (d : Directory) (now : Nat) : TcpTransport × Directory :=
  t.connections.entries.foldl
    (fun (t, d) e =>
      match e.2.stage with
      | .opened deadline => if deadline ≤ now then t.close d e.1 now else (t, d)
      | .established _ => (t, d))
    (t, d)

def write (t : TcpTransport) (number : Nat) (p : Payload) : TcpTransport × Except SendError Unit :=
  match t.connections.get? number with
  | none => (t, .error (.io .brokenPipe))
  | some c =>
    let (writer, result) := c.writer.write p
    ({ t with connections := t.connections.put number { c with writer } }, result)

/-- Writes a payload on every connection whose handshake is over. That it fails on some does not
matter. -/
def writeAll (t : TcpTransport) (p : Payload) : TcpTransport :=
  t.established.foldl (fun t e => (t.write e.1 p).1) t

def announce (t : TcpTransport) (i : Identity) : TcpTransport :=
  t.writeAll (.handshake i)

def broadcast (t : TcpTransport) (e : Envelope) : TcpTransport × Except SendError Unit :=
  if t.isStopped then (t, .error .shutDown) else (t.writeAll (.message e), .ok ())

def shutDown (t : TcpTransport) (d : Directory) (now : Nat) : TcpTransport × Directory :=
  let (t, d) := t.connections.keys.foldl (fun (t, d) number => t.close d number now) (t, d)
  ({ t with activity := .stopped }, d)

end TcpTransport

namespace TcpReception

def close (number now : Nat) (r : TcpReception) : TcpReception :=
  let (t, d) := r.transport.close r.directory number now
  { r with transport := t, directory := d }

/-- Takes the handshake of the other end, which makes the connection a route to it. -/
def establish (number : Nat) (c : Connection) (i : Identity) (r : TcpReception) : TcpReception :=
  let t := r.transport
  let d := r.directory.addRoute (.tcp i.id ⟨t.index, number⟩)
  let (d, released) := d.learn i
  { r with
    transport :=
      { t with connections := t.connections.put number { c with stage := .established i.id } }
    directory := d
    released := r.released ++ released }

def frame (number now : Nat) (r : TcpReception) (f : Frame) : TcpReception :=
  match r.transport.connections.get? number with
  | none => r
  | some c =>
    match c.stage, f with
    | .opened _, .payload (.handshake i) =>
      if i.id = r.directory.identity.id ∨ i.id.isNil then r.close number now
      else r.establish number c i
    | .opened _, _ => r.close number now
    | .established peer, .payload (.message e) =>
      if e.sender = peer then { r with arrivals := r.arrivals ++ [e] } else r
    | .established peer, .payload (.handshake i) =>
      if i.id = peer then
        let (d, released) := r.directory.learn i
        { r with directory := d, released := r.released ++ released }
      else r.close number now
    | .established _, _ => r

end TcpReception

def TcpTransport.receive (t : TcpTransport) (d : Directory) (number now : Nat) (bs : Bytes)
    (ended : Bool) : TcpReception :=
  match t.connections.get? number with
  | none => { transport := t, directory := d }
  | some c =>
    let (frames, tail) := readFrames t.config.maxFrame ended (c.unread ++ bs)
    let r : TcpReception :=
      frames.foldl (TcpReception.frame number now) { transport := t, directory := d }
    match tail with
    | .incomplete unread =>
      { r with
        transport :=
          { r.transport with
            connections := r.transport.connections.modify number fun c => { c with unread } } }
    | .finished => r.close number now
    | .failed _ _ => r.close number now

end PeerMesh

import PeerMesh.KeyedList
import PeerMesh.Message.Content
import PeerMesh.Message.Payload

namespace PeerMesh

def maxChunkCount : Nat := 65536

inductive ChunkError where
  | indexOutOfRange (index count : Nat) (id : MultiPartId)
  | implausibleCount (count : Nat) (id : MultiPartId) (bodyLength : Nat)
  | otherSender (id : MultiPartId) (sender expected : PeerId)
  | mismatch (index count bodyLength expectedCount expectedLength : Nat)
  | wrongLength (length expected : Nat)
  | malformedBody (cause : DecodeError)
  | trailingBytes (count : Nat)
deriving DecidableEq, Repr

def ChunkError.message : ChunkError → String
  | indexOutOfRange index count id =>
    s!"invalid chunk index {index} of {count} for multi-part message {id.text}"
  | implausibleCount count id bodyLength =>
    s!"implausible chunk count {count} for multi-part message {id.text} with {bodyLength} bytes"
  | otherSender id sender expected =>
    s!"chunk for multi-part message {id.text} from {sender.describe}, " ++
      s!"but the message is from {expected.describe}"
  | mismatch index count bodyLength expectedCount expectedLength =>
    s!"chunk {index}/{count} with body length {bodyLength} does not match previous chunks " ++
      s!"({expectedCount} chunks, body length {expectedLength})"
  | wrongLength length expected => s!"reassembled body has {length} bytes, expected {expected}"
  | malformedBody cause => cause.message
  | trailingBytes count => s!"{count} trailing bytes after reassembled body"

structure PartialMessage where
  sender : PeerId
  receiver : PeerId
  count : UInt32
  bodyLength : UInt32
  slots : List (Option Bytes)
  received : Nat
  started : Nat
deriving DecidableEq

namespace PartialMessage

def ofFirst (carrier : Envelope) (c : Chunk) (now : Nat) : PartialMessage where
  sender := carrier.sender
  receiver := carrier.receiver
  count := c.count
  bodyLength := c.bodyLength
  slots := List.replicate c.count.toNat none
  received := 0
  started := now

def add (m : PartialMessage) (c : Chunk) : PartialMessage :=
  { m with
    slots := m.slots.set c.index.toNat (some c.data)
    received := m.received + 1 }

def isComplete (m : PartialMessage) : Bool :=
  m.received = m.count.toNat

def assemble (m : PartialMessage) : Except ChunkError Envelope :=
  let body := m.slots.flatMap (·.getD [])
  if body.length ≠ m.bodyLength.toNat then
    .error (.wrongLength body.length m.bodyLength.toNat)
  else
    match Body.decode.run body with
    | .error cause => .error (.malformedBody cause)
    | .ok (b, []) => .ok ⟨m.sender, m.receiver, b⟩
    | .ok (_, rest) => .error (.trailingBytes rest.length)

end PartialMessage

structure Reassembler where
  inProgress : KeyedList MultiPartId PartialMessage
  completed : List MultiPartId

namespace Reassembler

def empty : Reassembler :=
  ⟨.empty, []⟩

instance : Inhabited Reassembler := ⟨empty⟩

def checkPlausible (c : Chunk) : Except ChunkError Unit :=
  if c.count.toNat ≤ c.index.toNat then
    .error (.indexOutOfRange c.index.toNat c.count.toNat c.id)
  else if maxChunkCount < c.count.toNat ∨ c.bodyLength < c.count then
    .error (.implausibleCount c.count.toNat c.id c.bodyLength.toNat)
  else .ok ()

def checkMatch (m : PartialMessage) (carrier : Envelope) (c : Chunk) : Except ChunkError Unit :=
  if carrier.sender ≠ m.sender then .error (.otherSender c.id carrier.sender m.sender)
  else if c.count ≠ m.count ∨ c.bodyLength ≠ m.bodyLength then
    .error (.mismatch c.index.toNat c.count.toNat c.bodyLength.toNat m.count.toNat
      m.bodyLength.toNat)
  else .ok ()

/-- Takes a chunk whose data is missing in an incomplete message. -/
def fill (r : Reassembler) (m : PartialMessage) (c : Chunk) :
    Reassembler × Except ChunkError (Option Envelope) :=
  let m := m.add c
  if m.isComplete then
    (⟨r.inProgress.erase c.id, c.id :: r.completed⟩, some <$> m.assemble)
  else (⟨r.inProgress.put c.id m, r.completed⟩, .ok none)

/-- Takes a chunk that came in the message `carrier`, and gives out the message that it
completes. -/
def accept (r : Reassembler) (now : Nat) (carrier : Envelope) (c : Chunk) :
    Reassembler × Except ChunkError (Option Envelope) :=
  match checkPlausible c with
  | .error e => (r, .error e)
  | .ok () =>
    if c.id ∈ r.completed then (r, .ok none)
    else
      let m := (r.inProgress.get? c.id).getD (.ofFirst carrier c now)
      match checkMatch m carrier c with
      | .error e => (r, .error e)
      | .ok () =>
        match m.slots[c.index.toNat]? with
        | some none => r.fill m c
        | _ => (r, .ok none)

/-- Discards the incomplete messages that are at least `maxAge` old. -/
def prune (r : Reassembler) (now maxAge : Nat) : Reassembler :=
  { r with inProgress := r.inProgress.filter fun _ m => now - m.started < maxAge }

end Reassembler

end PeerMesh

import PeerMesh.KeyedList
import PeerMesh.SendError
import PeerMesh.Udp.Endpoint

namespace PeerMesh

abbrev Ticket := Nat

inductive Fate where
  | acknowledged
  | timedOut (packet : PacketId) (attempts : Nat)
  | shutDown
  /-- Another packet with the same id took its place. -/
  | dropped
deriving DecidableEq, Repr

def Fate.result : Fate → Except SendError Unit
  | acknowledged => .ok ()
  | timedOut packet attempts => .error (.acknowledgementTimeout packet attempts)
  | shutDown => .error .shutDown
  | dropped => .error .shutDown

structure PendingPacket where
  datagram : Bytes
  endpoint : EndpointId
  lastSent : Nat
  attempts : Nat
  ticket : Ticket

structure Resend where
  packet : PacketId
  endpoint : EndpointId
  datagram : Bytes

structure Outbox where
  maxResends : Option Nat
  pending : KeyedList PacketId PendingPacket := .empty
  fates : KeyedList Ticket Fate := .empty
  nextTicket : Ticket := 0

namespace Outbox

def isPending (o : Outbox) (id : PacketId) : Bool :=
  o.pending.contains id

def fate? (o : Outbox) (t : Ticket) : Option Fate :=
  o.fates.get? t

/-- Decides the fate of a packet, if it is pending, which it is no longer then. -/
def settle (o : Outbox) (id : PacketId) (fate : Fate) : Outbox :=
  match o.pending.get? id with
  | none => o
  | some p => { o with pending := o.pending.erase id, fates := o.fates.put p.ticket fate }

def expect (o : Outbox) (now : Nat) (id : PacketId) (endpoint : EndpointId) (datagram : Bytes) :
    Outbox × Ticket :=
  let o := o.settle id .dropped
  ({ o with
     pending := o.pending.put id ⟨datagram, endpoint, now, 0, o.nextTicket⟩
     nextTicket := o.nextTicket + 1 },
   o.nextTicket)

def acknowledge (o : Outbox) (id : PacketId) : Outbox × Bool :=
  (o.settle id .acknowledged, o.isPending id)

def IsDue (now interval : Nat) (p : PendingPacket) : Prop :=
  interval ≤ now - p.lastSent

instance (now interval : Nat) (p : PendingPacket) : Decidable (IsDue now interval p) :=
  inferInstanceAs (Decidable (_ ≤ _))

def IsSpent (o : Outbox) (p : PendingPacket) : Prop :=
  o.maxResends.any (· ≤ p.attempts)

instance (o : Outbox) (p : PendingPacket) : Decidable (o.IsSpent p) :=
  inferInstanceAs (Decidable (_ = true))

/-- The packets that are due to be sent again. Those that were sent again as often as they may be
have timed out instead. -/
def due (o : Outbox) (now interval : Nat) : Outbox × List Resend :=
  let overdue := o.pending.entries.filter fun e => IsDue now interval e.2
  let (spent, again) := overdue.partition fun e => o.IsSpent e.2
  let o := spent.foldl (fun o e => o.settle e.1 (.timedOut e.1 e.2.attempts)) o
  ({ o with
     pending := o.pending.mapValues fun _ p =>
       if IsDue now interval p then { p with lastSent := now, attempts := p.attempts + 1 } else p },
   again.map fun e => ⟨e.1, e.2.endpoint, e.2.datagram⟩)

def failAll (o : Outbox) : Outbox :=
  o.pending.keys.foldl (fun o id => o.settle id .shutDown) o

end Outbox

end PeerMesh

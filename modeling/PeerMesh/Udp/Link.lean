import PeerMesh.Address
import PeerMesh.SendError

/-!
The network below a transport. It may refuse any datagram that it is offered; whether a datagram
that it accepts arrives anywhere is not its business to know.
-/

namespace PeerMesh

inductive Parcel where
  | unicast (destination : SocketAddress) (datagram : Bytes)
  | broadcast (datagram : Bytes)
deriving DecidableEq

structure Link where
  port : UInt16
  /-- The reason for which the network refuses what it is offered as the `n`th. -/
  fault : Nat → Parcel → Option SendError
  count : Nat := 0
  /-- What was offered and whether it was accepted, the latest first. -/
  log : List (Parcel × Bool) := []

namespace Link

def offer (l : Link) (p : Parcel) : Link × Except SendError Unit :=
  match l.fault l.count p with
  | some e => ({ l with count := l.count + 1, log := (p, false) :: l.log }, .error e)
  | none => ({ l with count := l.count + 1, log := (p, true) :: l.log }, .ok ())

def offered (l : Link) : List Parcel :=
  l.log.reverse.map Prod.fst

def accepted (l : Link) : List Parcel :=
  (l.log.reverse.filter Prod.snd).map Prod.fst

def cleared (l : Link) : Link :=
  { l with log := [] }

/-- Offers parcels one after the other until one is refused. -/
def offerWhileAccepted (l : Link) : List Parcel → Link × Except SendError Unit
  | [] => (l, .ok ())
  | p :: ps =>
    match l.offer p with
    | (l, .ok ()) => l.offerWhileAccepted ps
    | (l, .error e) => (l, .error e)

def offerAll (l : Link) (ps : List Parcel) : Link :=
  ps.foldl (fun l p => (l.offer p).1) l

theorem offered_offer (l : Link) (p : Parcel) : (l.offer p).1.offered = l.offered ++ [p] := by
  unfold offer
  split <;> simp [offered]

theorem offered_offerAll (l : Link) (ps : List Parcel) :
    (l.offerAll ps).offered = l.offered ++ ps := by
  induction ps generalizing l with
  | nil => simp [offerAll]
  | cons p ps ih =>
    have h := ih (l.offer p).1
    rw [offered_offer, List.append_assoc] at h
    exact h

end Link

end PeerMesh

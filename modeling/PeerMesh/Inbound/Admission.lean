import PeerMesh.Inbound.Handlers
import PeerMesh.Peer.Table

namespace PeerMesh

structure Held where
  ticket : Nat
  message : Envelope
deriving DecidableEq

inductive Admission where
  | refused
  | admitted
  | held
deriving DecidableEq, Repr

namespace Held

def arrive (h : Held) (self : Identity) (peers : PeerTable Held) (now timeout : Nat) :
    PeerTable Held × Admission :=
  if h.message.sender = self.id then (peers, .refused)
  else if ¬ self.isReceiver h.message.receiver then (peers, .refused)
  else if h.message.sender.isNil then (peers, .admitted)
  else
    match peers.wait now h.message.sender ⟨h, some (now + timeout)⟩ with
    | (peers, some true) => (peers, .admitted)
    | (peers, some false) => (peers, .refused)
    | (peers, none) => (peers, .held)

end Held

/-- A message that is done with: the calls that it led to, unless it was dropped or there was no
handler for it. -/
structure Outcome where
  ticket : Nat
  calls : Option (List HandlerCall)

def PeerTable.viewOf {τ : Type} (peers : PeerTable τ) (sender : PeerId) : Option SenderView :=
  if sender.isNil then none else some ⟨sender, peers.identity? sender⟩

def Handlers.deliver {τ : Type} (hs : Handlers) (peers : PeerTable τ) (h : Held) : Outcome :=
  ⟨h.ticket, hs.route h.message (peers.viewOf h.message.sender)⟩

end PeerMesh

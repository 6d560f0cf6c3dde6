import PeerMesh.Identity
import PeerMesh.KeyedList
import PeerMesh.Latch
import PeerMesh.Peer.Feed

namespace PeerMesh

inductive PeerEvent where
  | discovered (peer : PeerId)
  | updated (peer : PeerId)
deriving DecidableEq, Repr

structure Peer (τ : Type) where
  identity : Option Identity := none
  discovery : Latch τ := .unset
  isSet_eq : discovery.isSet = identity.isSome := by rfl

namespace Peer

variable {τ : Type}

def unknown : Peer τ := {}

instance : Inhabited (Peer τ) := ⟨unknown⟩

def isDiscovered (p : Peer τ) : Bool :=
  p.identity.isSome

end Peer

structure PeerTable (τ : Type) where
  peers : KeyedList PeerId (Peer τ) := .empty
  feeds : List (Feed PeerEvent) := []

structure PeerUpdate (τ : Type) where
  table : PeerTable τ
  event : Option PeerEvent
  released : List τ

namespace PeerTable

variable {τ : Type}

def empty : PeerTable τ := {}

instance : Inhabited (PeerTable τ) := ⟨empty⟩

def get? (t : PeerTable τ) (id : PeerId) : Option (Peer τ) :=
  t.peers.get? id

def getOrNew (t : PeerTable τ) (id : PeerId) : Peer τ :=
  (t.get? id).getD .unknown

def putPeer (t : PeerTable τ) (id : PeerId) (p : Peer τ) : PeerTable τ :=
  { t with peers := t.peers.put id p }

def add (t : PeerTable τ) (id : PeerId) : PeerTable τ :=
  t.putPeer id (t.getOrNew id)

def identity? (t : PeerTable τ) (id : PeerId) : Option Identity :=
  (t.get? id).bind Peer.identity

def isDiscovered (t : PeerTable τ) (id : PeerId) : Bool :=
  (t.identity? id).isSome

/-- The discovered peers and their identities, in the order of their ids. -/
def discovered (t : PeerTable τ) : List (PeerId × Identity) :=
  (t.peers.entries.filterMap fun e => e.2.identity.map (e.1, ·)).mergeSort
    fun a b => a.1.bits.toNat ≤ b.1.bits.toNat

def publish (t : PeerTable τ) (e : PeerEvent) : PeerTable τ :=
  { t with feeds := t.feeds.map (·.push e) }

/-- Takes the identity of a peer. The first one discovers the peer; one that is equal to the last
changes nothing. -/
def update (t : PeerTable τ) (i : Identity) : PeerUpdate τ :=
  let p := t.getOrNew i.id
  let known : Peer τ := { identity := some i, discovery := p.discovery.set.1 }
  match p.identity with
  | none =>
    let e := PeerEvent.discovered i.id
    ⟨(t.putPeer i.id known).publish e, some e, p.discovery.set.2⟩
  | some old =>
    if old = i then ⟨t, none, []⟩
    else
      let e := PeerEvent.updated i.id
      ⟨(t.putPeer i.id known).publish e, some e, p.discovery.set.2⟩

/-- Begins a wait for the discovery of a peer; the answer is as for a latch. -/
def wait (t : PeerTable τ) (now : Nat) (id : PeerId) (w : Waiter τ) :
    PeerTable τ × Option Bool :=
  let p := t.getOrNew id
  match h : p.discovery.wait now w with
  | (latch, result) =>
    (t.putPeer id
      { identity := p.identity
        discovery := latch
        isSet_eq := by
          rw [← p.isSet_eq]
          unfold Latch.wait at h
          split at h
          · cases h; rfl
          · split at h
            · cases h; rfl
            · cases h; simp_all },
     result)

def expire (t : PeerTable τ) (now : Nat) : PeerTable τ × List τ :=
  ({ t with
     peers := t.peers.mapValues fun _ p =>
       { identity := p.identity
         discovery := (p.discovery.expire now).1
         isSet_eq := p.isSet_eq } },
   t.peers.values.flatMap fun p => (p.discovery.expire now).2)

def nextDeadline (t : PeerTable τ) : Option Nat :=
  (t.peers.values.filterMap fun p => p.discovery.nextDeadline).min?

def subscribe (t : PeerTable τ) : PeerTable τ × Nat :=
  ({ t with feeds := t.feeds ++ [{}] }, t.feeds.length)

def takeEvents (t : PeerTable τ) (feed : Nat) : PeerTable τ × Nat × List PeerEvent :=
  match t.feeds[feed]? with
  | none => (t, 0, [])
  | some f => ({ t with feeds := t.feeds.set feed {} }, f.take)

end PeerTable

end PeerMesh

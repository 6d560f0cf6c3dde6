import PeerMesh.Uuid

namespace PeerMesh

structure Supply (α : Type) where
  draw : Nat → α
  used : Nat := 0

namespace Supply

variable {α : Type}

def next (s : Supply α) : α :=
  s.draw s.used

/-- The supply after `n` more draws. -/
def advance (s : Supply α) (n : Nat) : Supply α :=
  { s with used := s.used + n }

end Supply

structure IdSource where
  packets : Supply PacketId
  multiParts : Supply MultiPartId

end PeerMesh

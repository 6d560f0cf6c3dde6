import PeerMesh.Message.Payload

namespace PeerMesh

structure DuplicateFilter where
  seen : List PacketId := []

namespace DuplicateFilter

def empty : DuplicateFilter := {}

instance : Inhabited DuplicateFilter := ⟨empty⟩

def size (f : DuplicateFilter) : Nat :=
  f.seen.length

def test (f : DuplicateFilter) (ids : List PacketId) : DuplicateFilter × List (PacketId × Bool) :=
  let ids := ids.eraseDups
  let fresh := ids.filter (· ∉ f.seen)
  (⟨fresh.reverse ++ f.seen⟩, ids.map fun id => (id, id ∉ f.seen))

/-- The packets of a batch that the verdicts on its ids let through: the first one of each new
id. -/
def retain (verdicts : List (PacketId × Bool)) : List Packet → List Packet
  | [] => []
  | p :: ps =>
    let rest := retain (verdicts.filter (·.1 ≠ p.id)) ps
    if verdicts.lookup p.id = some true then p :: rest else rest

def sift (f : DuplicateFilter) (ps : List Packet) : DuplicateFilter × List Packet :=
  let (f, verdicts) := f.test (ps.map Packet.id)
  (f, retain verdicts ps)

end DuplicateFilter

end PeerMesh

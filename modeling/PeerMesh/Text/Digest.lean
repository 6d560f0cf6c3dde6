import PeerMesh.Text.Hex

namespace PeerMesh

/-- The 64 bit digest that takes up one byte after the other, by an exclusive or and a
multiplication. -/
def digest (bs : Bytes) : UInt64 :=
  bs.foldl (fun h b => (h ^^^ b.toUInt64) * 0x100000001b3) 0xcbf29ce484222325

def digestText (bs : Bytes) : String :=
  String.ofList (Hex.digits 16 (digest bs).toNat)

def shortText (bs : Bytes) : String :=
  if bs.length ≤ 32 then Hex.ofBytes bs else toString bs.length ++ "#" ++ digestText bs

end PeerMesh

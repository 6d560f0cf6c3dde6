import PeerMesh.Bytes

namespace PeerMesh.Hex

def digit (n : Nat) : Char :=
  if n < 10 then Char.ofNat ('0'.toNat + n) else Char.ofNat ('a'.toNat + (n - 10))

def value? (c : Char) : Option Nat :=
  if '0' ≤ c ∧ c ≤ '9' then some (c.toNat - '0'.toNat)
  else if 'a' ≤ c ∧ c ≤ 'f' then some (c.toNat - 'a'.toNat + 10)
  else if 'A' ≤ c ∧ c ≤ 'F' then some (c.toNat - 'A'.toNat + 10)
  else none

/-- The low `width` digits of `x`, the most significant first. -/
def digits : Nat → Nat → List Char
  | 0, _ => []
  | width + 1, x => digit ((x >>> (4 * width)) % 16) :: digits width x

def ofNat (x : Nat) : String :=
  String.ofList (Nat.toDigits 16 x)

def ofBytes (bs : Bytes) : String :=
  String.ofList (bs.flatMap fun b => digits 2 b.toNat)

def toNat? (cs : List Char) : Option Nat :=
  cs.foldlM (fun acc c => (value? c).map (16 * acc + ·)) 0

def toBytes? : List Char → Option Bytes
  | [] => some []
  | [_] => none
  | a :: b :: cs => do
    let high ← value? a
    let low ← value? b
    let rest ← toBytes? cs
    return UInt8.ofNat (16 * high + low) :: rest

end PeerMesh.Hex

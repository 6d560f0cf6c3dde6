import PeerMesh.Text.Hex

namespace PeerMesh

inductive IpAddress where
  | v4 (bits : BitVec 32)
  | v6 (bits : BitVec 128)
deriving DecidableEq, Repr

/-- The end of a datagram path: an address, a port and, for version 6, the interface it is valid
on. -/
structure SocketAddress where
  ip : IpAddress
  port : UInt16
  scope : UInt32 := 0
deriving DecidableEq, Repr

namespace IpAddress

def isMulticast : IpAddress → Bool
  | v4 bits => bits.toNat >>> 28 == 0xe
  | v6 bits => bits.toNat >>> 120 == 0xff

def dotted (bits : BitVec 32) : String :=
  ".".intercalate ((bigEndian 4 bits.toNat).map fun b => toString b.toNat)

def groups (bits : BitVec 128) : List Nat :=
  (List.range 8).map fun i => bits.toNat >>> (16 * (7 - i)) % 65536

def leadingZeros (gs : List Nat) : Nat :=
  (gs.takeWhile (· == 0)).length

def longestZeros (gs : List Nat) : Nat × Nat :=
  (List.range gs.length).foldl
    (fun best i =>
      let n := leadingZeros (gs.drop i)
      if best.2 < n then (i, n) else best)
    (0, 0)

private def colons (gs : List Nat) : String :=
  ":".intercalate (gs.map Hex.ofNat)

/-- Version 6 addresses leave out their longest run of two or more zero groups; those that stand
for a version 4 address end in its dotted form. -/
def text : IpAddress → String
  | v4 bits => dotted bits
  | v6 bits =>
    let gs := groups bits
    if gs.take 6 = [0, 0, 0, 0, 0, 0xffff] then
      "::ffff:" ++ dotted (BitVec.ofNat 32 bits.toNat)
    else
      let (start, n) := longestZeros gs
      if 1 < n then colons (gs.take start) ++ "::" ++ colons (gs.drop (start + n)) else colons gs

def decimal? (limit : Nat) (cs : List Char) : Option Nat :=
  if cs.isEmpty ∨ ¬ cs.all Char.isDigit then none
  else
    let n := cs.foldl (fun acc c => 10 * acc + (c.toNat - '0'.toNat)) 0
    if n < limit then some n else none

private def octet? (cs : List Char) : Option UInt8 :=
  if cs.head? = some '0' ∧ 1 < cs.length then none else (decimal? 256 cs).map UInt8.ofNat

private def splitChars (sep : Char) (cs : List Char) : List (List Char) :=
  cs.splitBy (fun a b => a ≠ sep ∧ b ≠ sep) |>.filter (· ≠ [sep])

private def dotted? (cs : List Char) : Option (BitVec 32) := do
  if cs.count '.' ≠ 3 then none
  else
    let octets ← (splitChars '.' cs).mapM octet?
    if octets.length = 4 then some (BitVec.ofNat 32 (ofBigEndian octets)) else none

private def group? (cs : List Char) : Option Nat :=
  if cs.isEmpty ∨ 4 < cs.length then none else Hex.toNat? cs

/-- The groups between colons, of which the last two may be written as a dotted address. -/
private def groups? (cs : List Char) (dottedEnd : Bool) : Option (List Nat) :=
  if cs.isEmpty then some []
  else
    let parts := splitChars ':' cs
    if parts.length ≠ cs.count ':' + 1 then none
    else
      match parts.getLast?.bind dotted?, dottedEnd with
      | some bits, true => do
        let front ← parts.dropLast.mapM group?
        return front ++ [bits.toNat / 65536, bits.toNat % 65536]
      | _, _ => parts.mapM group?

private def splitGap : List Char → Option (List Char × List Char)
  | ':' :: ':' :: rest => some ([], rest)
  | c :: rest => (splitGap rest).map fun (a, b) => (c :: a, b)
  | [] => none

private def ofGroups (gs : List Nat) : BitVec 128 :=
  BitVec.ofNat 128 (gs.foldl (fun acc g => 65536 * acc + g) 0)

private def v6? (cs : List Char) : Option (BitVec 128) :=
  match splitGap cs with
  | some (front, back) => do
    let a ← groups? front false
    let b ← groups? back true
    if a.length + b.length ≤ 7 then
      some (ofGroups (a ++ List.replicate (8 - a.length - b.length) 0 ++ b))
    else none
  | none => do
    let gs ← groups? cs true
    if gs.length = 8 then some (ofGroups gs) else none

def ofChars? (cs : List Char) : Option IpAddress :=
  match dotted? cs with
  | some bits => some (v4 bits)
  | none => (v6? cs).map v6

end IpAddress

namespace SocketAddress

/-- A version 6 address stands in brackets, together with its interface if that is given. -/
def text (a : SocketAddress) : String :=
  match a.ip with
  | .v4 _ => a.ip.text ++ ":" ++ toString a.port.toNat
  | .v6 _ =>
    let scope := if a.scope = 0 then "" else "%" ++ toString a.scope.toNat
    "[" ++ a.ip.text ++ scope ++ "]:" ++ toString a.port.toNat

private def port? (cs : List Char) : Option UInt16 :=
  (IpAddress.decimal? UInt16.size cs).map UInt16.ofNat

private def scoped? (cs : List Char) : Option (IpAddress × UInt32) := do
  let host := cs.takeWhile (· ≠ '%')
  let ip ← IpAddress.ofChars? host
  match cs.drop host.length with
  | [] => return (ip, 0)
  | _ :: digits => return (ip, UInt32.ofNat (← IpAddress.decimal? UInt32.size digits))

def ofText? (s : String) : Option SocketAddress :=
  match s.toList with
  | '[' :: cs => do
    let host := cs.takeWhile (· ≠ ']')
    let (ip, scope) ← scoped? host
    match ip, cs.drop host.length with
    | .v6 _, ']' :: ':' :: digits => return ⟨ip, ← port? digits, scope⟩
    | _, _ => none
  | cs => do
    let host := cs.takeWhile (· ≠ ':')
    match ← IpAddress.ofChars? host, cs.drop host.length with
    | .v4 bits, ':' :: digits => return ⟨.v4 bits, ← port? digits, 0⟩
    | _, _ => none

end SocketAddress

end PeerMesh

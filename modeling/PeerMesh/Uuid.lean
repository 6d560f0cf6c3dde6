import PeerMesh.Codec.Decoder

namespace PeerMesh

abbrev Uuid := BitVec 128

namespace Uuid

def encode (u : Uuid) : Bytes :=
  bigEndian 16 u.toNat

def decode : Decoder Uuid :=
  BitVec.ofNat 128 <$> Decoder.number 16

@[simp] theorem length_encode (u : Uuid) : (encode u).length = 16 := by
  simp [encode]

theorem decode_encode (u : Uuid) (rest : Bytes) : decode (encode u ++ rest) = .ok (u, rest) := by
  have h := Decoder.number_append 16 u.toNat rest
  simp only [decode, encode, Functor.map, StateT.map, h]
  simp only [Bind.bind, Except.bind, pure, Except.pure]
  rw [Nat.mod_eq_of_lt (show u.toNat < byteRange 16 from u.isLt)]
  simp

/-- The random identifier (version 4) with the given random bits: six of them are overwritten by
the version and the variant. -/
def ofRandom (random : BitVec 128) : Uuid :=
  (random &&& 0xffffffffffff0fff3fffffffffffffff) ||| 0x00000000000040008000000000000000

def groupSizes : List Nat :=
  [8, 4, 4, 4, 12]

def hyphenate : List Nat → List Char → List Char
  | [], _ => []
  | [n], cs => cs.take n
  | n :: sizes, cs => cs.take n ++ '-' :: hyphenate sizes (cs.drop n)

def unhyphenate? : List Nat → List Char → Option (List Char)
  | [], cs => if cs.isEmpty then some [] else none
  | [n], cs => if cs.length = n then some cs else none
  | n :: sizes, cs =>
    match cs.drop n with
    | '-' :: rest => (unhyphenate? sizes rest).map (cs.take n ++ ·)
    | _ => none

def text (u : Uuid) : String :=
  String.ofList (hyphenate groupSizes (Hex.digits 32 u.toNat))

private def ofDigits? (cs : List Char) : Option Uuid :=
  if cs.length = 32 then (Hex.toNat? cs).map (BitVec.ofNat 128) else none

private def ofHyphenated? (cs : List Char) : Option Uuid :=
  (unhyphenate? groupSizes cs).bind ofDigits?

def urnScheme : List Char :=
  "urn:uuid:".toList

/-- Reads 32 digits, the hyphenated form, or the hyphenated form in braces or after `urn:uuid:`;
the case of the letters does not matter. -/
def ofText? (s : String) : Option Uuid :=
  let cs := s.toList
  match ofDigits? cs, ofHyphenated? cs with
  | some u, _ => some u
  | none, some u => some u
  | none, none =>
    if cs.head? = some '\x7b' ∧ cs.getLast? = some '\x7d' then ofHyphenated? cs.tail.dropLast
    else if (cs.take urnScheme.length).map Char.toLower = urnScheme then
      ofHyphenated? (cs.drop urnScheme.length)
    else none

end Uuid

/-- Identifies a node. The nil id stands for all nodes as a receiver, and for no one in particular
as a sender. -/
structure PeerId where
  bits : Uuid
deriving DecidableEq, Repr, Inhabited

namespace PeerId

def nil : PeerId := ⟨0⟩

def isNil (p : PeerId) : Bool :=
  p == nil

def text (p : PeerId) : String :=
  p.bits.text

def describe (p : PeerId) : String :=
  if p.isNil then "[broadcast]" else "[" ++ p.text ++ "]"

def encode (p : PeerId) : Bytes :=
  p.bits.encode

def decode : Decoder PeerId :=
  PeerId.mk <$> Uuid.decode

theorem decode_encode (p : PeerId) (rest : Bytes) : decode (p.encode ++ rest) = .ok (p, rest) := by
  simp only [decode, encode, Functor.map, StateT.map, Uuid.decode_encode]
  rfl

end PeerId

structure PacketId where
  bits : Uuid
deriving DecidableEq, Repr, Inhabited

namespace PacketId

def describe (p : PacketId) : String :=
  "P[" ++ p.bits.text ++ "]"

def encode (p : PacketId) : Bytes :=
  p.bits.encode

def decode : Decoder PacketId :=
  PacketId.mk <$> Uuid.decode

theorem decode_encode (p : PacketId) (rest : Bytes) :
    decode (p.encode ++ rest) = .ok (p, rest) := by
  simp only [decode, encode, Functor.map, StateT.map, Uuid.decode_encode]
  rfl

end PacketId

structure MultiPartId where
  bits : Uuid
deriving DecidableEq, Repr, Inhabited

namespace MultiPartId

def text (m : MultiPartId) : String :=
  m.bits.text

def encode (m : MultiPartId) : Bytes :=
  m.bits.encode

def decode : Decoder MultiPartId :=
  MultiPartId.mk <$> Uuid.decode

theorem decode_encode (m : MultiPartId) (rest : Bytes) :
    decode (m.encode ++ rest) = .ok (m, rest) := by
  simp only [decode, encode, Functor.map, StateT.map, Uuid.decode_encode]
  rfl

end MultiPartId

end PeerMesh

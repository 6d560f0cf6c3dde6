import PeerMesh.Codec.Field
import PeerMesh.Uuid

namespace PeerMesh

/-- Tells the types of messages apart. Type ids are usually eight letters, filled up with zeros. -/
structure MessageTypeId where
  value : UInt64
deriving DecidableEq, Repr, Inhabited

namespace MessageTypeId

def ofText (s : String) : MessageTypeId :=
  ⟨UInt64.ofNat (ofBigEndian (utf8 s))⟩

def encode (t : MessageTypeId) : Bytes :=
  bigEndian 8 t.value.toNat

def decode : Decoder MessageTypeId :=
  (fun n => ⟨UInt64.ofNat n⟩) <$> Decoder.number 8

def label (t : MessageTypeId) : String :=
  match Utf8.decode (t.encode.takeWhile (· ≠ 0)) with
  | .ok s => s
  | .error _ => "???"

def describe (t : MessageTypeId) : String :=
  "0x" ++ String.ofList ((Hex.digits 16 t.value.toNat).map Char.toUpper) ++
    "(" ++ Text.quoted t.label ++ ")"

end MessageTypeId

structure Body where
  typeId : MessageTypeId
  payload : Bytes
deriving DecidableEq, Inhabited

class Message (α : Type) where
  typeId : MessageTypeId
  encode : α → Bytes
  decode : Decoder α

inductive BodyError where
  | wrongType (expected actual : MessageTypeId)
  | malformed (cause : DecodeError)
deriving DecidableEq, Repr

def BodyError.message : BodyError → String
  | wrongType expected actual =>
    "expected message type " ++ expected.describe ++ ", was " ++ actual.describe
  | malformed cause => cause.message

namespace Body

def of {α : Type} [Message α] (m : α) : Body :=
  ⟨Message.typeId α, Message.encode m⟩

def Holds (α : Type) [Message α] (b : Body) : Prop :=
  b.typeId = Message.typeId α

instance (α : Type) [Message α] (b : Body) : Decidable (Holds α b) :=
  inferInstanceAs (Decidable (b.typeId = Message.typeId α))

/-- The message in a body. Bytes after it are ignored. -/
def read (α : Type) [Message α] (b : Body) : Except BodyError α :=
  if Holds α b then
    match (Message.decode (α := α)).run b.payload with
    | .ok (m, _) => .ok m
    | .error e => .error (.malformed e)
  else .error (.wrongType (Message.typeId α) b.typeId)

def encode (b : Body) : Bytes :=
  b.typeId.encode ++ Field.encodeBytes b.payload

def decode : Decoder Body := do
  let typeId ← MessageTypeId.decode
  let payload ← Field.decodeBytes
  return { typeId, payload }

end Body

end PeerMesh

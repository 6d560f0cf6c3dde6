import PeerMesh.Message.Body

namespace PeerMesh

structure NumberedText where
  value : UInt64
  text : String
deriving DecidableEq

instance : Message NumberedText where
  typeId := .ofText "TestMsg\x00"
  encode m := bigEndian 8 m.value.toNat ++ Field.encodeText m.text
  decode := do
    let value ← Decoder.number 8
    let text ← Field.decodeText
    return { value := UInt64.ofNat value, text }

structure Blob where
  data : Bytes
deriving DecidableEq

instance : Message Blob where
  typeId := .ofText "TestBlob"
  encode m := Field.encodeBytes m.data
  decode := Blob.mk <$> Field.decodeBytes

/-- A piece of an encoded body that does not fit a datagram: the `index`th of `count` pieces of
`bodyLength` bytes altogether. -/
structure Chunk where
  id : MultiPartId
  index : UInt32
  count : UInt32
  bodyLength : UInt32
  data : Bytes
deriving DecidableEq

instance : Message Chunk where
  typeId := .ofText "MultPart"
  encode c :=
    c.id.encode ++ bigEndian 4 c.index.toNat ++ bigEndian 4 c.count.toNat ++
      bigEndian 4 c.bodyLength.toNat ++ Field.encodeBytes c.data
  decode := do
    let id ← MultiPartId.decode
    let index ← Decoder.number 4
    let count ← Decoder.number 4
    let bodyLength ← Decoder.number 4
    let data ← Field.decodeBytes
    return {
      id
      index := UInt32.ofNat index
      count := UInt32.ofNat count
      bodyLength := UInt32.ofNat bodyLength
      data }

inductive MessageKind where
  | numberedText
  | blob
  | chunk
deriving DecidableEq, Repr

inductive Content where
  | numberedText (message : NumberedText)
  | blob (message : Blob)
  | chunk (message : Chunk)
deriving DecidableEq

namespace MessageKind

def typeId : MessageKind → MessageTypeId
  | numberedText => Message.typeId NumberedText
  | blob => Message.typeId Blob
  | chunk => Message.typeId Chunk

def read (k : MessageKind) (b : Body) : Except BodyError Content :=
  match k with
  | numberedText => .numberedText <$> b.read NumberedText
  | blob => .blob <$> b.read Blob
  | chunk => .chunk <$> b.read Chunk

end MessageKind

namespace Content

def body : Content → Body
  | numberedText m => .of m
  | blob m => .of m
  | chunk m => .of m

end Content

end PeerMesh

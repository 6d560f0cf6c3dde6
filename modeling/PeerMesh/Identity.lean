import PeerMesh.Codec.Field
import PeerMesh.Uuid

namespace PeerMesh

inductive PropertyValue where
  | int (value : Int64)
  | text (value : String)
  | bytes (value : Bytes)
deriving DecidableEq

namespace PropertyValue

def encode : PropertyValue → Bytes
  | int v => 1 :: bigEndian 8 v.toBitVec.toNat
  | text s => 2 :: Field.encodeText s
  | bytes bs => 3 :: Field.encodeBytes bs

def decode : Decoder PropertyValue := do
  let kind ← Decoder.byte
  if kind = 1 then
    return int (Int64.ofBitVec (BitVec.ofNat 64 (← Decoder.number 8)))
  else if kind = 2 then
    return text (← Field.decodeText)
  else if kind = 3 then
    return bytes (← Field.decodeBytes)
  else throw (.unknownPropertyKind kind)

end PropertyValue

/-- The order of property keys: that of their UTF-8 bytes. -/
def KeyBefore (a b : String) : Prop :=
  utf8 a < utf8 b

instance (a b : String) : Decidable (KeyBefore a b) :=
  inferInstanceAs (Decidable (utf8 a < utf8 b))

theorem utf8_injective {a b : String} (h : utf8 a = utf8 b) : a = b := by
  have := Utf8.decode_utf8 a
  rw [h, Utf8.decode_utf8] at this
  exact (Except.ok.inj this).symm

namespace KeyBefore

theorem irrefl (a : String) : ¬ KeyBefore a a :=
  List.lt_irrefl _

theorem trans {a b c : String} (hab : KeyBefore a b) (hbc : KeyBefore b c) : KeyBefore a c :=
  List.lt_trans hab hbc

theorem of_not {a b : String} (hne : a ≠ b) (h : ¬ KeyBefore a b) : KeyBefore b a := by
  have hle : utf8 b ≤ utf8 a := h
  rcases List.le_iff_lt_or_eq.mp hle with hlt | heq
  · exact hlt
  · exact absurd (utf8_injective heq.symm) hne

end KeyBefore

/-- Declared properties, ordered by their keys. -/
structure Properties where
  entries : List (String × PropertyValue)
  ordered : entries.Pairwise fun a b => KeyBefore a.1 b.1
deriving DecidableEq

namespace Properties

def empty : Properties :=
  ⟨[], .nil⟩

instance : Inhabited Properties := ⟨empty⟩

def get? (ps : Properties) (key : String) : Option PropertyValue :=
  ps.entries.lookup key

def insertEntry (key : String) (value : PropertyValue) :
    List (String × PropertyValue) → List (String × PropertyValue)
  | [] => [(key, value)]
  | e :: es =>
    if key = e.1 then (key, value) :: es
    else if KeyBefore key e.1 then (key, value) :: e :: es
    else e :: insertEntry key value es

theorem mem_insertEntry {key : String} {value : PropertyValue} {es : List (String × PropertyValue)}
    {e : String × PropertyValue} (h : e ∈ insertEntry key value es) :
    e = (key, value) ∨ e ∈ es := by
  induction es with
  | nil => simpa [insertEntry] using h
  | cons d ds ih =>
    rw [insertEntry] at h
    split at h
    · exact (List.mem_cons.mp h).imp_right (List.mem_cons_of_mem d)
    · split at h
      · exact List.mem_cons.mp h
      · rcases List.mem_cons.mp h with h | h
        · exact .inr (h ▸ List.mem_cons_self)
        · exact (ih h).imp_right (List.mem_cons_of_mem d)

theorem insertEntry_ordered (key : String) (value : PropertyValue)
    {es : List (String × PropertyValue)} (h : es.Pairwise fun a b => KeyBefore a.1 b.1) :
    (insertEntry key value es).Pairwise fun a b => KeyBefore a.1 b.1 := by
  induction es with
  | nil => simp [insertEntry]
  | cons e es ih =>
    have he := List.pairwise_cons.mp h
    rw [insertEntry]
    split
    · rename_i hk
      exact List.pairwise_cons.mpr ⟨fun b hb => hk ▸ he.1 b hb, he.2⟩
    · rename_i hk
      split
      · rename_i hb
        refine List.pairwise_cons.mpr ⟨fun b hm => ?_, h⟩
        rcases List.mem_cons.mp hm with rfl | hm
        · exact hb
        · exact hb.trans (he.1 b hm)
      · rename_i hb
        refine List.pairwise_cons.mpr ⟨fun b hm => ?_, ih he.2⟩
        rcases mem_insertEntry hm with rfl | hm
        · exact KeyBefore.of_not hk hb
        · exact he.1 b hm

def insert (ps : Properties) (key : String) (value : PropertyValue) : Properties :=
  ⟨insertEntry key value ps.entries, insertEntry_ordered key value ps.ordered⟩

def ofList (es : List (String × PropertyValue)) : Properties :=
  es.foldl (fun ps e => ps.insert e.1 e.2) empty

def encode (ps : Properties) : Bytes :=
  Varint.encode ps.entries.length ++
    ps.entries.flatMap fun e => Field.encodeText e.1 ++ e.2.encode

/-- Adds the given number of entries to properties read before. -/
def decodeEntries : Nat → Properties → Decoder Properties
  | 0, ps => return ps
  | n + 1, ps => do
    let key ← Field.decodeText
    let value ← PropertyValue.decode
    match ps.get? key with
    | some _ => throw (.duplicateProperty key)
    | none => decodeEntries n (ps.insert key value)

def decode : Decoder Properties := do
  decodeEntries (← Varint.decode) empty

end Properties

structure Identity where
  id : PeerId
  name : String
  properties : Properties := .empty
deriving DecidableEq, Inhabited

def unicastPortKey : String :=
  "udp.unicast_port"

structure IdentityChange where
  expected : PeerId
  actual : PeerId
deriving DecidableEq, Repr

namespace Identity

def declare (i : Identity) (key : String) (value : PropertyValue) : Identity :=
  { i with properties := i.properties.insert key value }

def declaredPort (i : Identity) (key : String) : Option UInt16 :=
  match i.properties.get? key with
  | some (.int v) =>
    if 0 ≤ v.toInt ∧ v.toInt < 65536 then some (UInt16.ofNat v.toInt.toNat) else none
  | _ => none

def encode (i : Identity) : Bytes :=
  i.id.encode ++ Field.encodeText i.name ++ i.properties.encode

def decode : Decoder Identity := do
  let id ← PeerId.decode
  let name ← Field.decodeText
  let properties ← Properties.decode
  return { id, name, properties }

/-- Replaces a node's own identity; the id has to stay. -/
def update (current next : Identity) : Except IdentityChange Identity :=
  if next.id = current.id then .ok next else .error ⟨current.id, next.id⟩

/-- Whether something for `receiver` is meant for this node. -/
def isReceiver (i : Identity) (receiver : PeerId) : Bool :=
  receiver == i.id || receiver.isNil

end Identity

end PeerMesh

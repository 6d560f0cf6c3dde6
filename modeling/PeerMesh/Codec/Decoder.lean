import PeerMesh.Text.Quoted
import PeerMesh.Text.Utf8

namespace PeerMesh

inductive DecodeError where
  /-- A value of fixed size begins less than its size before the end. -/
  | underflow (requested available : Nat)
  | varintOverflow
  | varintUnderflow
  | lengthBeyondEnd (announced remaining : Nat)
  | invalidText (fault : Utf8.Fault)
  | unknownPayloadKind (kind : UInt8)
  | unknownPropertyKind (kind : UInt8)
  | duplicateProperty (key : String)
  | invalidReliability (flag : UInt8)
deriving DecidableEq, Repr

namespace DecodeError

private def noDiscriminant (kind : String) (n : UInt8) : String :=
  "No discriminant in enum `" ++ kind ++ "` matches the value `" ++ toString n.toNat ++ "`"

def message : DecodeError → String
  | underflow requested available =>
    "Not enough bytes remaining in buffer to read value (requested " ++ toString requested ++
      " but only " ++ toString available ++ " available)"
  | varintOverflow => "NumericOverflow"
  | varintUnderflow => "BufferUnderflow"
  | lengthBeyondEnd announced remaining =>
    s!"buffer underflow: announced length {announced} exceeds remaining {remaining} bytes"
  | invalidText fault => fault.message
  | unknownPayloadKind kind => noDiscriminant "PayloadKind" kind
  | unknownPropertyKind kind => noDiscriminant "PropertyKind" kind
  | duplicateProperty key => "duplicate declared property " ++ Text.quoted key
  | invalidReliability flag => "invalid reliability flag " ++ toString flag.toNat

end DecodeError

/-- Reads a value off the front of a byte string. -/
abbrev Decoder := StateT Bytes (Except DecodeError)

namespace Decoder

def take (n : Nat) : Decoder Bytes := fun bs =>
  let (front, rest) := bs.splitAt n
  if front.length = n then .ok (front, rest) else .error (.underflow n front.length)

def number (n : Nat) : Decoder Nat :=
  ofBigEndian <$> take n

def byte : Decoder UInt8 :=
  UInt8.ofNat <$> number 1

theorem take_append {n : Nat} {front : Bytes} (h : front.length = n) (rest : Bytes) :
    take n (front ++ rest) = .ok (front, rest) := by
  subst h
  simp [take, List.splitAt_eq]

theorem number_append (n x : Nat) (rest : Bytes) :
    number n (bigEndian n x ++ rest) = .ok (x % byteRange n, rest) := by
  have h := take_append (length_bigEndian n x) rest
  simp only [number, StateT.map, Functor.map, h]
  simp [Bind.bind, Except.bind, pure, Except.pure]

theorem bind_of_ok {α β : Type} {d : Decoder α} {bs mid : Bytes} {a : α}
    (h : d bs = .ok (a, mid)) (f : α → Decoder β) : (d >>= f) bs = f a mid := by
  simp only [Bind.bind, StateT.bind, h, Except.bind]

theorem bind_of_error {α β : Type} {d : Decoder α} {bs : Bytes} {e : DecodeError}
    (h : d bs = .error e) (f : α → Decoder β) : (d >>= f) bs = .error e := by
  simp only [Bind.bind, StateT.bind, h, Except.bind]

theorem bind_eq_ok {α β : Type} {d : Decoder α} {f : α → Decoder β} {bs rest : Bytes} {b : β} :
    (d >>= f) bs = .ok (b, rest) ↔ ∃ a mid, d bs = .ok (a, mid) ∧ f a mid = .ok (b, rest) := by
  constructor
  · intro h
    cases hd : d bs with
    | error e =>
      rw [bind_of_error hd f] at h
      cases h
    | ok v =>
      rw [bind_of_ok hd f] at h
      exact ⟨v.1, v.2, rfl, h⟩
  · rintro ⟨a, mid, hd, hf⟩
    rw [bind_of_ok hd f]
    exact hf

theorem map_eq_ok {α β : Type} {d : Decoder α} {f : α → β} {bs rest : Bytes} {b : β} :
    (f <$> d) bs = .ok (b, rest) ↔ ∃ a, d bs = .ok (a, rest) ∧ f a = b := by
  rw [← bind_pure_comp, bind_eq_ok]
  constructor
  · rintro ⟨a, mid, hd, hf⟩
    cases hf
    exact ⟨a, hd, rfl⟩
  · rintro ⟨a, hd, rfl⟩
    exact ⟨a, rest, hd, rfl⟩

end Decoder

end PeerMesh

import PeerMesh.Bytes

namespace PeerMesh

def utf8 (s : String) : Bytes :=
  s.toByteArray.data.toList

namespace Utf8

/-- The first sequence that is not UTF-8: where it starts, and how many of its bytes are refused,
or `none` if the bytes end before the sequence does. -/
structure Fault where
  index : Nat
  length : Option Nat
deriving DecidableEq, Repr

def Fault.message (f : Fault) : String :=
  match f.length with
  | some n => s!"invalid utf-8 sequence of {n} bytes from index {f.index}"
  | none => s!"incomplete utf-8 byte sequence from index {f.index}"

def continuations (lead : UInt8) : Option (List (UInt8 × UInt8)) :=
  let tail := (0x80, 0xbf)
  if lead < 0x80 then some []
  else if lead < 0xc2 then none
  else if lead < 0xe0 then some [tail]
  else if lead = 0xe0 then some [(0xa0, 0xbf), tail]
  else if lead = 0xed then some [(0x80, 0x9f), tail]
  else if lead < 0xf0 then some [tail, tail]
  else if lead = 0xf0 then some [(0x90, 0xbf), tail, tail]
  else if lead < 0xf4 then some [tail, tail, tail]
  else if lead = 0xf4 then some [(0x80, 0x8f), tail, tail]
  else none

/-- Looks for a fault, `seen` bytes into the sequence at `start`, of which the bytes in the ranges
`due` are still to come. -/
def faultFrom (start seen : Nat) : List (UInt8 × UInt8) → Bytes → Option Fault
  | [], [] => none
  | _ :: _, [] => some ⟨start, none⟩
  | [], b :: bs =>
    match continuations b with
    | none => some ⟨start + seen, some 1⟩
    | some due => faultFrom (start + seen) 1 due bs
  | (lo, hi) :: due, b :: bs =>
    if lo ≤ b ∧ b ≤ hi then faultFrom start (seen + 1) due bs else some ⟨start, some seen⟩

def fault? (bs : Bytes) : Option Fault :=
  faultFrom 0 0 [] bs

def decode (bs : Bytes) : Except Fault String :=
  match String.fromUTF8? ⟨bs.toArray⟩ with
  | some s => .ok s
  | none => .error ((fault? bs).getD ⟨0, none⟩)

theorem decode_utf8 (s : String) : decode (utf8 s) = .ok s := by
  have h : (⟨(utf8 s).toArray⟩ : ByteArray) = s.toByteArray := by
    simp [utf8]
  rw [decode, h, String.fromUTF8?]
  simp [s.isValidUTF8, String.fromUTF8]

theorem eq_utf8_of_decode {bs : Bytes} {s : String} (h : decode bs = .ok s) : bs = utf8 s := by
  unfold decode at h
  split at h
  · rename_i t ht
    unfold String.fromUTF8? at ht
    split at ht
    · simp only [Option.some.injEq] at ht
      cases h
      subst ht
      simp [utf8, String.fromUTF8]
    · cases ht
  · cases h

end Utf8

end PeerMesh

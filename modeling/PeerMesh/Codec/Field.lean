import PeerMesh.Codec.Varint

namespace PeerMesh.Field

def encodeBytes (bs : Bytes) : Bytes :=
  Varint.encode bs.length ++ bs

/-- A length and as many bytes. -/
def decodeBytes : Decoder Bytes := do
  let length ← Varint.decode
  let bs ← get
  let (front, rest) := bs.splitAt length
  if front.length = length then
    set rest
    return front
  else throw (.lengthBeyondEnd length front.length)

def encodeText (s : String) : Bytes :=
  encodeBytes (utf8 s)

def decodeText : Decoder String := do
  match Utf8.decode (← decodeBytes) with
  | .ok s => return s
  | .error fault => throw (.invalidText fault)

variable {bs mid rest front : Bytes} {n : Nat}

theorem decodeBytes_of_length (h : Varint.decode bs = .ok (n, mid)) : decodeBytes bs =
    if n ≤ mid.length then .ok (mid.take n, mid.drop n)
    else .error (.lengthBeyondEnd n mid.length) := by
  rw [decodeBytes, Decoder.bind_of_ok h]
  simp only [Bind.bind, StateT.bind, Except.bind, get, getThe, MonadStateOf.get, StateT.get,
    Pure.pure, Except.pure, List.splitAt_eq, List.length_take]
  by_cases hn : n ≤ mid.length
  · rw [Nat.min_eq_left hn, if_pos rfl, if_pos hn]
    rfl
  · have hlt := Nat.lt_of_not_le hn
    rw [Nat.min_eq_right (Nat.le_of_lt hlt), if_neg (Nat.ne_of_lt hlt), if_neg hn]
    rfl

theorem decodeBytes_eq_ok_iff : decodeBytes bs = .ok (front, rest) ↔
    Varint.decode bs = .ok (front.length, front ++ rest) := by
  constructor
  · intro h
    obtain ⟨n, mid, hlength, -⟩ := Decoder.bind_eq_ok.mp h
    rw [decodeBytes_of_length hlength] at h
    split at h
    · rename_i hn
      cases h
      rw [List.take_append_drop, List.length_take_of_le hn, hlength]
    · cases h
  · intro h
    have hn : front.length ≤ (front ++ rest).length := by
      rw [List.length_append]
      exact Nat.le_add_right _ _
    rw [decodeBytes_of_length h, if_pos hn, List.take_left' rfl, List.drop_left' rfl]

end PeerMesh.Field

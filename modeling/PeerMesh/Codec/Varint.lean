import PeerMesh.Codec.Decoder

namespace PeerMesh.Varint

def encode (n : Nat) : Bytes :=
  if n < 128 then [UInt8.ofNat n] else UInt8.ofNat (n % 128 + 128) :: encode (n / 128)
termination_by n
decreasing_by omega

/-- Reads a number of which `groups` more bytes may bring seven bits each; the one after these may
only bring the last bit of 64. -/
def decodeGroups : Nat → Bytes → Except DecodeError (Nat × Bytes)
  | _, [] => .error .varintUnderflow
  | 0, b :: rest => if b ≤ 1 then .ok (b.toNat, rest) else .error .varintOverflow
  | groups + 1, b :: rest =>
    if b < 128 then .ok (b.toNat, rest)
    else do
      let (high, rest) ← decodeGroups groups rest
      return (b.toNat - 128 + 128 * high, rest)

/-- Above every number that `decodeGroups groups` reads. -/
def limit : Nat → Nat
  | 0 => 2
  | groups + 1 => 128 * limit groups

def decode : Decoder Nat :=
  decodeGroups 9

theorem two_le_limit (groups : Nat) : 2 ≤ limit groups := by
  induction groups with
  | zero => exact Nat.le_refl 2
  | succ groups ih => rw [limit]; omega

theorem encode_of_lt {n : Nat} (h : n < 128) : encode n = [UInt8.ofNat n] := by
  rw [encode, if_pos h]

theorem encode_of_ge {n : Nat} (h : 128 ≤ n) :
    encode n = UInt8.ofNat (n % 128 + 128) :: encode (n / 128) := by
  rw [encode, if_neg (by omega)]

theorem decodeGroups_encode (groups n : Nat) (rest : Bytes) (h : n < limit groups) :
    decodeGroups groups (encode n ++ rest) = .ok (n, rest) := by
  induction groups generalizing n with
  | zero =>
    have hn : n < 2 := h
    rw [encode_of_lt (by omega)]
    have : n = 0 ∨ n = 1 := by omega
    rcases this with rfl | rfl <;> rfl
  | succ groups ih =>
    by_cases hlt : n < 128
    · rw [encode_of_lt hlt]
      have hb : (UInt8.ofNat n).toNat = n := by simp [UInt8.toNat_ofNat']; omega
      have hc : UInt8.ofNat n < 128 := by rw [UInt8.lt_iff_toNat_lt, hb]; exact hlt
      simp [decodeGroups, hc]
      omega
    · rw [encode_of_ge (by omega)]
      have hb : (UInt8.ofNat (n % 128 + 128)).toNat = n % 128 + 128 := by
        simp [UInt8.toNat_ofNat']; omega
      have hc : ¬ UInt8.ofNat (n % 128 + 128) < 128 := by
        rw [UInt8.lt_iff_toNat_lt, hb]
        simp
      rw [List.cons_append, decodeGroups, if_neg hc,
        ih (n / 128) (by rw [limit] at h; omega)]
      simp only [Bind.bind, Except.bind, pure, Except.pure, hb]
      congr 2
      omega

theorem decode_encode {n : Nat} (h : n < UInt64.size) (rest : Bytes) :
    decode (encode n ++ rest) = .ok (n, rest) :=
  decodeGroups_encode 9 n rest h

theorem lt_of_decodeGroups {groups n : Nat} {bs rest : Bytes}
    (h : decodeGroups groups bs = .ok (n, rest)) : n < limit groups := by
  induction groups generalizing n bs with
  | zero =>
    cases bs with
    | nil => cases h
    | cons b bs =>
      rw [decodeGroups] at h
      split at h
      · rename_i hb
        cases h
        exact Nat.lt_succ_of_le (UInt8.le_iff_toNat_le.mp hb)
      · cases h
  | succ groups ih =>
    cases bs with
    | nil => cases h
    | cons b bs =>
      rw [decodeGroups] at h
      split at h
      · rename_i hb
        cases h
        have hb : b.toNat < 128 := UInt8.lt_iff_toNat_lt.mp hb
        have := two_le_limit groups
        rw [limit]
        omega
      · cases hr : decodeGroups groups bs with
        | error e => rw [hr] at h; cases h
        | ok v =>
          rw [hr] at h
          cases h
          have := ih hr
          have := b.toNat_lt
          rw [limit]
          omega

end PeerMesh.Varint

namespace PeerMesh

abbrev Bytes := List UInt8

def byteRange : Nat → Nat
  | 0 => 1
  | n + 1 => 256 * byteRange n

/-- The low `n` bytes of `x`, the most significant first. -/
def bigEndian : Nat → Nat → Bytes
  | 0, _ => []
  | n + 1, x => UInt8.ofNat (x / byteRange n) :: bigEndian n x

def ofBigEndian (bs : Bytes) : Nat :=
  bs.foldl (fun acc b => 256 * acc + b.toNat) 0

def littleEndian (n x : Nat) : Bytes :=
  (bigEndian n x).reverse

def ofLittleEndian (bs : Bytes) : Nat :=
  ofBigEndian bs.reverse

theorem byteRange_pos (n : Nat) : 0 < byteRange n := by
  induction n with
  | zero => exact Nat.one_pos
  | succ n ih => exact Nat.mul_pos (by omega) ih

@[simp] theorem length_bigEndian (n x : Nat) : (bigEndian n x).length = n := by
  induction n with
  | zero => rfl
  | succ n ih => rw [bigEndian, List.length_cons, ih]

@[simp] theorem length_littleEndian (n x : Nat) : (littleEndian n x).length = n := by
  simp [littleEndian]

theorem foldl_bigEndian (n x acc : Nat) :
    (bigEndian n x).foldl (fun acc b => 256 * acc + b.toNat) acc
      = acc * byteRange n + x % byteRange n := by
  induction n generalizing acc with
  | zero => simp [bigEndian, byteRange, Nat.mod_one]
  | succ n ih =>
    have hb : (UInt8.ofNat (x / byteRange n)).toNat = x / byteRange n % 256 := by
      simp [UInt8.toNat_ofNat']
    have hm :
        x % (256 * byteRange n) = byteRange n * (x / byteRange n % 256) + x % byteRange n := by
      rw [Nat.mul_comm, Nat.mod_mul, Nat.add_comm]
    rw [bigEndian, List.foldl_cons, ih, hb, byteRange, hm, Nat.add_mul, Nat.mul_comm 256 acc,
      Nat.mul_assoc, Nat.mul_comm (x / byteRange n % 256), Nat.add_assoc]

@[simp] theorem ofBigEndian_bigEndian (n x : Nat) :
    ofBigEndian (bigEndian n x) = x % byteRange n := by
  rw [ofBigEndian, foldl_bigEndian, Nat.zero_mul, Nat.zero_add]

@[simp] theorem ofLittleEndian_littleEndian (n x : Nat) :
    ofLittleEndian (littleEndian n x) = x % byteRange n := by
  rw [ofLittleEndian, littleEndian, List.reverse_reverse, ofBigEndian_bigEndian]

theorem foldl_base_eq (bs : Bytes) (acc : Nat) :
    bs.foldl (fun acc b => 256 * acc + b.toNat) acc
      = acc * byteRange bs.length + ofBigEndian bs := by
  induction bs generalizing acc with
  | nil => simp [ofBigEndian, byteRange]
  | cons b bs ih =>
    rw [ofBigEndian, List.foldl_cons, List.foldl_cons, ih, ih, List.length_cons, byteRange,
      Nat.add_mul, Nat.add_mul, Nat.mul_zero, Nat.zero_mul, Nat.zero_add, Nat.mul_comm 256 acc,
      Nat.mul_assoc, Nat.add_assoc]

theorem ofBigEndian_cons (b : UInt8) (bs : Bytes) :
    ofBigEndian (b :: bs) = b.toNat * byteRange bs.length + ofBigEndian bs := by
  rw [ofBigEndian, List.foldl_cons, foldl_base_eq, Nat.mul_zero, Nat.zero_add]

theorem ofBigEndian_lt (bs : Bytes) : ofBigEndian bs < byteRange bs.length := by
  induction bs with
  | nil => exact Nat.one_pos
  | cons b bs ih =>
    have hb : b.toNat + 1 ≤ 256 := b.toNat_lt
    rw [ofBigEndian_cons, List.length_cons, byteRange]
    calc b.toNat * byteRange bs.length + ofBigEndian bs
        < b.toNat * byteRange bs.length + byteRange bs.length := by omega
      _ = (b.toNat + 1) * byteRange bs.length := by rw [Nat.add_mul, Nat.one_mul]
      _ ≤ 256 * byteRange bs.length := Nat.mul_le_mul_right _ hb

theorem bigEndian_add_mul (n x k : Nat) :
    bigEndian n (x + byteRange n * k) = bigEndian n x := by
  induction n generalizing k with
  | zero => rfl
  | succ n ih =>
    have hr : x + byteRange (n + 1) * k = x + byteRange n * (256 * k) := by
      rw [byteRange, Nat.mul_comm 256, Nat.mul_assoc]
    rw [bigEndian, bigEndian, hr, ih, Nat.add_mul_div_left _ _ (byteRange_pos n)]
    congr 1
    apply UInt8.toNat_inj.mp
    simp [UInt8.toNat_ofNat']

theorem bigEndian_ofBigEndian (bs : Bytes) : bigEndian bs.length (ofBigEndian bs) = bs := by
  induction bs with
  | nil => rfl
  | cons b bs ih =>
    have hd : (ofBigEndian bs + byteRange bs.length * b.toNat) / byteRange bs.length = b.toNat := by
      rw [Nat.add_mul_div_left _ _ (byteRange_pos _), Nat.div_eq_of_lt (ofBigEndian_lt bs),
        Nat.zero_add]
    rw [List.length_cons, bigEndian, ofBigEndian_cons, Nat.add_comm, Nat.mul_comm, hd,
      bigEndian_add_mul, ih, UInt8.ofNat_toNat]

end PeerMesh

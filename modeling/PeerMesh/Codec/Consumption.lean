import PeerMesh.Codec.Field

namespace PeerMesh.Decoder

/-- Whenever the decoder succeeds, it has read at least `k` bytes. -/
def Consumes {α : Type} (d : Decoder α) (k : Nat) : Prop :=
  ∀ (bs : Bytes) (a : α) (rest : Bytes), d bs = .ok (a, rest) → rest.length + k ≤ bs.length

namespace Consumes

variable {α β : Type}

theorem mono {d : Decoder α} {j k : Nat} (h : Consumes d k) (hjk : j ≤ k) : Consumes d j := by
  intro bs a rest hd
  have := h bs a rest hd
  omega

theorem pure (a : α) : Consumes (Pure.pure a : Decoder α) 0 := by
  intro bs b rest h
  cases h
  exact Nat.le_refl _

theorem throw (e : DecodeError) (k : Nat) : Consumes (MonadExcept.throw e : Decoder α) k := by
  intro bs a rest h
  cases h

theorem bind {d : Decoder α} {f : α → Decoder β} {j k : Nat} (hd : Consumes d j)
    (hf : ∀ a, Consumes (f a) k) : Consumes (d >>= f) (j + k) := by
  intro bs b rest h
  obtain ⟨a, mid, hmid, hrest⟩ := bind_eq_ok.mp h
  have h1 := hd bs a mid hmid
  have h2 := hf a mid b rest hrest
  omega

theorem map {d : Decoder α} {k : Nat} (f : α → β) (h : Consumes d k) : Consumes (f <$> d) k := by
  rw [← bind_pure_comp]
  exact (h.bind fun a => pure (f a)).mono (Nat.le_refl _)

theorem take (n : Nat) : Consumes (Decoder.take n) n := by
  intro bs front rest h
  simp only [Decoder.take, List.splitAt_eq] at h
  split at h
  · rename_i hn
    cases h
    rw [List.length_take] at hn
    rw [List.length_drop]
    omega
  · cases h

theorem number (n : Nat) : Consumes (Decoder.number n) n :=
  (take n).map _

theorem byte : Consumes Decoder.byte 1 :=
  (number 1).map _

theorem varintGroups (groups : Nat) : Consumes (Varint.decodeGroups groups) 1 := by
  induction groups with
  | zero =>
    intro bs n rest h
    cases bs with
    | nil => cases h
    | cons b bs =>
      rw [Varint.decodeGroups] at h
      split at h
      · cases h
        simp
      · cases h
  | succ groups ih =>
    intro bs n rest h
    cases bs with
    | nil => cases h
    | cons b bs =>
      rw [Varint.decodeGroups] at h
      split at h
      · cases h
        simp
      · cases hr : Varint.decodeGroups groups bs with
        | error e => rw [hr] at h; cases h
        | ok v =>
          rw [hr] at h
          cases h
          have := ih bs v.1 v.2 hr
          rw [List.length_cons]
          omega

theorem varint : Consumes Varint.decode 1 :=
  varintGroups 9

theorem bytesField : Consumes Field.decodeBytes 1 := by
  intro bs front rest h
  have hlength := varint bs _ _ (Field.decodeBytes_eq_ok_iff.mp h)
  rw [List.length_append] at hlength
  omega

theorem textField : Consumes Field.decodeText 1 := by
  refine (bytesField.bind (k := 0) fun bs => ?_).mono (Nat.le_refl _)
  split
  · exact pure _
  · exact throw _ _

end Consumes

end PeerMesh.Decoder

import PeerMesh.Proofs.Gathering

namespace PeerMesh

namespace Chunk

def Plausible (c : Chunk) : Prop :=
  c.index.toNat < c.count.toNat ∧ c.count.toNat ≤ maxChunkCount ∧
    c.count.toNat ≤ c.bodyLength.toNat

instance (c : Chunk) : Decidable c.Plausible :=
  inferInstanceAs (Decidable (_ ∧ _ ∧ _))

/-- The chunk in the message `carrier` does not contradict what is known of its message. -/
def Fits (c : Chunk) (carrier : Envelope) (m : PartialMessage) : Prop :=
  carrier.sender = m.sender ∧ c.count = m.count ∧ c.bodyLength = m.bodyLength

instance (c : Chunk) (carrier : Envelope) (m : PartialMessage) : Decidable (c.Fits carrier m) :=
  inferInstanceAs (Decidable (_ ∧ _ ∧ _))

end Chunk

namespace Reassembler

theorem checkPlausible_eq_ok_iff (c : Chunk) : checkPlausible c = .ok () ↔ c.Plausible := by
  unfold checkPlausible Chunk.Plausible
  split
  · exact iff_of_false nofun (by omega)
  · split
    · rename_i h
      rw [UInt32.lt_iff_toNat_lt] at h
      exact iff_of_false nofun (by omega)
    · rename_i h
      rw [UInt32.lt_iff_toNat_lt] at h
      exact iff_of_true rfl (by omega)

theorem checkMatch_eq_ok_iff (m : PartialMessage) (carrier : Envelope) (c : Chunk) :
    checkMatch m carrier c = .ok () ↔ c.Fits carrier m := by
  unfold checkMatch Chunk.Fits
  split
  · rename_i h
    exact iff_of_false nofun fun hf => h hf.1
  · rename_i hs
    split
    · rename_i h
      exact iff_of_false nofun fun hf => h.elim (fun h => h hf.2.1) fun h => h hf.2.2
    · rename_i h
      rw [not_or, not_ne_iff, not_ne_iff] at h
      exact iff_of_true rfl ⟨not_ne_iff.mp hs, h⟩

def entry (r : Reassembler) (now : Nat) (carrier : Envelope) (c : Chunk) : PartialMessage :=
  (r.inProgress.get? c.id).getD (.ofFirst carrier c now)

/-- The chunk passes all checks, and its message is not complete. -/
def Admits (r : Reassembler) (now : Nat) (carrier : Envelope) (c : Chunk) : Prop :=
  c.Plausible ∧ c.id ∉ r.completed ∧ c.Fits carrier (r.entry now carrier c)

instance (r : Reassembler) (now : Nat) (carrier : Envelope) (c : Chunk) :
    Decidable (r.Admits now carrier c) :=
  inferInstanceAs (Decidable (_ ∧ _ ∧ _))

variable {r : Reassembler} {now : Nat} {carrier : Envelope} {c : Chunk}

theorem accept_of_vacant (h : r.Admits now carrier c)
    (hs : (r.entry now carrier c).slots[c.index.toNat]? = some none) :
    r.accept now carrier c = r.fill (r.entry now carrier c) c := by
  have hm := (checkMatch_eq_ok_iff _ _ _).mpr h.2.2
  unfold entry at hm hs
  rw [accept, (checkPlausible_eq_ok_iff c).mpr h.1]
  simp only [if_neg h.2.1, hm, hs]
  rfl

theorem accept_of_not_vacant (h : ¬ (r.Admits now carrier c ∧
      (r.entry now carrier c).slots[c.index.toNat]? = some none)) :
    (r.accept now carrier c).1 = r ∧ givenOut (r.accept now carrier c).2 = none := by
  unfold accept
  split
  · exact ⟨rfl, rfl⟩
  · rename_i hp
    split
    · exact ⟨rfl, rfl⟩
    · rename_i hu
      dsimp only
      split
      · exact ⟨rfl, rfl⟩
      · rename_i hm
        split
        · rename_i hs
          have ha : r.Admits now carrier c :=
            ⟨(checkPlausible_eq_ok_iff c).mp hp, hu, (checkMatch_eq_ok_iff _ _ _).mp hm⟩
          exact absurd ⟨ha, hs⟩ h
        · exact ⟨rfl, rfl⟩

end Reassembler

end PeerMesh

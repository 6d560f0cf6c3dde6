import Mathlib.Data.Finset.Insert
import PeerMesh.Proofs.KeyedList
import PeerMesh.Proofs.Transfer

namespace PeerMesh

open Reassembler

variable {r : Reassembler} {t : Transfer} {held : Finset Nat}

def Reassembler.givenOut : Except ChunkError (Option Envelope) → Option Envelope
  | .ok e => e
  | .error _ => none

/-- The chunks of the message that the reassembler holds, or has held if the message is complete. -/
inductive Reassembler.Stage (r : Reassembler) (t : Transfer) : Finset Nat → Prop
  | untouched (unfinished : t.id ∉ r.completed) (absent : r.inProgress.get? t.id = none) :
      Stage r t ∅
  | gathering {held : Finset Nat} {started : Nat} (unfinished : t.id ∉ r.completed)
      (nonempty : held.Nonempty) (proper : held ⊂ Finset.range t.count)
      (found : r.inProgress.get? t.id = some (t.gathered held started)) : Stage r t held
  | complete (done : t.id ∈ r.completed) (absent : r.inProgress.get? t.id = none) :
      Stage r t (Finset.range t.count)

namespace Transfer

theorem ofFirst (h : t.count < UInt32.size) (k now : Nat) :
    PartialMessage.ofFirst (t.carrier k) (t.chunk k) now = t.gathered ∅ now := by
  rw [PartialMessage.ofFirst, gathered, t.slots_empty, toNat_count h]
  rfl

theorem fill (h : t.count < UInt32.size) (r : Reassembler) (hs : held ⊆ Finset.range t.count)
    (started : Nat) {k : Nat} (hk : k < t.count) (hn : k ∉ held) :
    r.fill (t.gathered held started) (t.chunk k) =
      if insert k held = Finset.range t.count then
        (⟨r.inProgress.erase t.id, t.id :: r.completed⟩,
          some <$> (t.gathered (Finset.range t.count) started).assemble)
      else (⟨r.inProgress.put t.id (t.gathered (insert k held) started), r.completed⟩,
        .ok none) := by
  have hi : insert k held ⊆ Finset.range t.count :=
    Finset.insert_subset (Finset.mem_range.mpr hk) hs
  have hm : (t.gathered held started).add (t.chunk k) = t.gathered (insert k held) started := by
    have hslots : (t.gathered held started).slots.set k (some (t.chunk k).data) =
        t.slots (insert k held) := t.set_slots held hk
    rw [PartialMessage.add, toNat_index h hk, hslots, gathered, gathered,
      Finset.card_insert_of_notMem hn]
  rw [Reassembler.fill]
  simp only [hm, isComplete_iff h started hi]
  by_cases he : insert k held = Finset.range t.count
  · rw [if_pos he, if_pos he, he]
    rfl
  · rw [if_neg he, if_neg he]
    rfl

theorem checkMatch (t : Transfer) (held : Finset Nat) (started k : Nat) :
    Reassembler.checkMatch (t.gathered held started) (t.carrier k) (t.chunk k) = .ok () := by
  have hc : ¬ ((t.chunk k).count ≠ (t.gathered held started).count ∨
      (t.chunk k).bodyLength ≠ (t.gathered held started).bodyLength) :=
    fun hne => hne.elim (fun hne => hne rfl) (fun hne => hne rfl)
  rw [Reassembler.checkMatch, if_neg (fun hne => hne rfl), if_neg hc]

end Transfer

namespace Transfer.Valid

theorem checkPlausible (h : t.Valid) {k : Nat} (hk : k < t.count) :
    Reassembler.checkPlausible (t.chunk k) = .ok () := by
  have hl : ¬ (t.chunk k).bodyLength < (t.chunk k).count := by
    rw [UInt32.lt_iff_toNat_lt, h.toNat_bodyLength, toNat_count h.count_lt]
    exact Nat.not_lt.mpr h.count_le_length
  have hm : ¬ maxChunkCount < t.count := Nat.not_lt.mpr h.count_le_max
  rw [Reassembler.checkPlausible, toNat_index h.count_lt hk, toNat_count h.count_lt,
    if_neg (by omega), if_neg (by simp only [hm, hl, or_self, not_false_eq_true])]

theorem accept (h : t.Valid) (r : Reassembler) (hs : held ⊆ Finset.range t.count)
    {started now k : Nat} (hk : k < t.count) (hu : t.id ∉ r.completed)
    (hm : (r.inProgress.get? t.id).getD (.ofFirst (t.carrier k) (t.chunk k) now) =
      t.gathered held started) :
    r.accept now (t.carrier k) (t.chunk k) =
      if k ∈ held then (r, .ok none)
      else if insert k held = Finset.range t.count then
        (⟨r.inProgress.erase t.id, t.id :: r.completed⟩, .ok (some t.message))
      else (⟨r.inProgress.put t.id (t.gathered (insert k held) started), r.completed⟩,
        .ok none) := by
  have hid : (t.chunk k).id = t.id := rfl
  have hslot : (t.gathered held started).slots[k]? =
      some (if k ∈ held then some (t.parts.getD k []) else none) := t.getElem?_slots held hk
  rw [Reassembler.accept]
  simp only [h.checkPlausible hk, hid, if_neg hu, hm, t.checkMatch, toNat_index h.count_lt hk,
    hslot]
  by_cases hki : k ∈ held
  · simp only [if_pos hki]
  · simp only [if_neg hki]
    rw [fill h.count_lt r hs started hk hki, h.assemble]
    rfl

theorem singleton_ne_range (h : t.Valid) (k : Nat) : {k} ≠ Finset.range t.count := by
  intro he
  have h2 := h.two_le_count
  have h0 : 0 ∈ ({k} : Finset Nat) := he ▸ Finset.mem_range.mpr (by omega)
  have h1 : 1 ∈ ({k} : Finset Nat) := he ▸ Finset.mem_range.mpr (by omega)
  rw [Finset.mem_singleton] at h0 h1
  omega

end Transfer.Valid

namespace Reassembler.Stage

theorem subset_range (hs : r.Stage t held) : held ⊆ Finset.range t.count := by
  cases hs with
  | untouched => exact Finset.empty_subset _
  | gathering _ _ proper => exact proper.subset
  | complete => exact Finset.Subset.refl _

theorem awaited_of_get? (hs : r.Stage t held) {m : PartialMessage}
    (hm : r.inProgress.get? t.id = some m) : held.Nonempty ∧ held ≠ Finset.range t.count := by
  cases hs with
  | untouched _ absent =>
    rw [absent] at hm
    cases hm
  | gathering _ nonempty proper _ => exact ⟨nonempty, proper.ne⟩
  | complete _ absent =>
    rw [absent] at hm
    cases hm

theorem get?_of_awaited (hs : r.Stage t held) (ha : held.Nonempty ∧ held ≠ Finset.range t.count) :
    ∃ m, r.inProgress.get? t.id = some m := by
  cases hs with
  | untouched => exact absurd ha.1 Finset.not_nonempty_empty
  | gathering _ _ _ found => exact ⟨_, found⟩
  | complete => exact absurd rfl ha.2

theorem accept_own (h : t.Valid) (hs : r.Stage t held) (now : Nat) {k : Nat} (hk : k < t.count) :
    (r.accept now (t.carrier k) (t.chunk k)).1.Stage t (insert k held) ∧
      (r.accept now (t.carrier k) (t.chunk k)).2 =
        .ok (if k ∉ held ∧ insert k held = Finset.range t.count then some t.message else none) := by
  have hi : insert k held ⊆ Finset.range t.count :=
    Finset.insert_subset (Finset.mem_range.mpr hk) hs.subset_range
  cases hs with
  | untouched unfinished absent =>
    have hm : (r.inProgress.get? t.id).getD (.ofFirst (t.carrier k) (t.chunk k) now) =
        t.gathered ∅ now := by
      rw [absent, Option.getD_none, t.ofFirst h.count_lt]
    -- One chunk is never all of the message.
    have hn : insert k ∅ ≠ Finset.range t.count := h.singleton_ne_range k
    have hg : (r.inProgress.put t.id (t.gathered (insert k ∅) now)).get? t.id =
        some (t.gathered (insert k ∅) now) := by
      rw [KeyedList.get?_put, if_pos rfl]
    rw [h.accept r (Finset.empty_subset _) hk unfinished hm, if_neg (Finset.notMem_empty k),
      if_neg hn, if_neg fun hc => hn hc.2]
    exact ⟨.gathering unfinished (Finset.insert_nonempty k ∅)
      (Finset.ssubset_iff_subset_ne.mpr ⟨hi, hn⟩) hg, rfl⟩
  | gathering unfinished nonempty proper found =>
    rename_i started
    have hm : (r.inProgress.get? t.id).getD (.ofFirst (t.carrier k) (t.chunk k) now) =
        t.gathered held started := by
      rw [found, Option.getD_some]
    rw [h.accept r proper.subset hk unfinished hm]
    by_cases hki : k ∈ held
    · rw [if_pos hki, Finset.insert_eq_of_mem hki, if_neg fun hc => hc.1 hki]
      exact ⟨.gathering unfinished nonempty proper found, rfl⟩
    · rw [if_neg hki]
      by_cases hf : insert k held = Finset.range t.count
      · have hg : (r.inProgress.erase t.id).get? t.id = none := by
          rw [KeyedList.get?_erase, if_pos rfl]
        rw [if_pos hf, if_pos ⟨hki, hf⟩, hf]
        exact ⟨.complete List.mem_cons_self hg, rfl⟩
      · have hg : (r.inProgress.put t.id (t.gathered (insert k held) started)).get? t.id =
            some (t.gathered (insert k held) started) := by
          rw [KeyedList.get?_put, if_pos rfl]
        rw [if_neg hf, if_neg fun hc => hf hc.2]
        exact ⟨.gathering unfinished (Finset.insert_nonempty k held)
          (Finset.ssubset_iff_subset_ne.mpr ⟨hi, hf⟩) hg, rfl⟩
  | complete done absent =>
    have hki := Finset.mem_range.mpr hk
    have ha : r.accept now (t.carrier k) (t.chunk k) = (r, .ok none) := by
      have hid : (t.chunk k).id ∈ r.completed := done
      rw [Reassembler.accept, h.checkPlausible hk]
      simp only [if_pos hid]
    rw [ha, Finset.insert_eq_of_mem hki, if_neg fun hc => hc.1 hki]
    exact ⟨.complete done absent, rfl⟩

theorem congr {r' : Reassembler} (hs : r.Stage t held)
    (hp : r'.inProgress.get? t.id = r.inProgress.get? t.id)
    (hc : t.id ∈ r'.completed ↔ t.id ∈ r.completed) : r'.Stage t held := by
  cases hs with
  | untouched unfinished absent =>
    exact .untouched (fun h => unfinished (hc.mp h)) (hp.trans absent)
  | gathering unfinished nonempty proper found =>
    exact .gathering (fun h => unfinished (hc.mp h)) nonempty proper (hp.trans found)
  | complete done absent => exact .complete (hc.mpr done) (hp.trans absent)

end Reassembler.Stage

theorem Reassembler.accept_frame (r : Reassembler) (now : Nat) (carrier : Envelope) {c : Chunk}
    {id : MultiPartId} (hid : id ≠ c.id) :
    (r.accept now carrier c).1.inProgress.get? id = r.inProgress.get? id ∧
      (id ∈ (r.accept now carrier c).1.completed ↔ id ∈ r.completed) := by
  rw [Reassembler.accept]
  split
  · exact ⟨rfl, Iff.rfl⟩
  · split
    · exact ⟨rfl, Iff.rfl⟩
    · dsimp only
      split
      · exact ⟨rfl, Iff.rfl⟩
      · split
        · rw [Reassembler.fill]
          split
          · simp only [KeyedList.get?_erase, List.mem_cons, hid, if_false, false_or, and_self]
          · simp only [KeyedList.get?_put, hid, if_false, and_self]
        · exact ⟨rfl, Iff.rfl⟩

namespace Reassembler.Stage

theorem accept_other (hs : r.Stage t held) (now : Nat) (carrier : Envelope) {c : Chunk}
    (hc : t.id ≠ c.id) : (r.accept now carrier c).1.Stage t held :=
  hs.congr (r.accept_frame now carrier hc).1 (r.accept_frame now carrier hc).2

end Reassembler.Stage

/-- What the reassembler holds of the message are chunks as they were sent. -/
def Reassembler.Gathers (r : Reassembler) (t : Transfer) : Prop :=
  ∀ m, r.inProgress.get? t.id = some m →
    ∃ held ⊆ Finset.range t.count, ∃ started, m = t.gathered held started

namespace Reassembler.Gathers

theorem congr {r' : Reassembler} (h : r.Gathers t)
    (hp : r'.inProgress.get? t.id = r.inProgress.get? t.id) : r'.Gathers t :=
  fun m hm => h m (hp.symm.trans hm)

/-- A message whose length a chunk cannot tell is not given out, as what its chunks make up is not
of the length that they tell. -/
theorem accept_long (h : r.Gathers t) (ho : chunkOverhead < t.max) (hc : t.count < UInt32.size)
    (hl : UInt32.size ≤ t.body.length) (now : Nat) {k : Nat} (hk : k < t.count) :
    (r.accept now (t.carrier k) (t.chunk k)).1.Gathers t ∧
      givenOut (r.accept now (t.carrier k) (t.chunk k)).2 = none := by
  obtain ⟨held, hs, started, hm⟩ : ∃ held ⊆ Finset.range t.count, ∃ started,
      (r.inProgress.get? t.id).getD (.ofFirst (t.carrier k) (t.chunk k) now) =
        t.gathered held started := by
    cases hg : r.inProgress.get? t.id with
    | none => exact ⟨∅, Finset.empty_subset _, now, t.ofFirst hc k now⟩
    | some m => exact h m hg
  have hid : (t.chunk k).id = t.id := rfl
  rw [Reassembler.accept]
  simp only [hid, hm]
  split
  · exact ⟨h, rfl⟩
  · split
    · exact ⟨h, rfl⟩
    · split
      · exact ⟨h, rfl⟩
      · split
        · rename_i hvacant
          have hn : k ∉ held := by
            intro hki
            rw [Transfer.toNat_index hc hk] at hvacant
            have hslot : (t.gathered held started).slots[k]? = _ := t.getElem?_slots held hk
            rw [hslot, if_pos hki] at hvacant
            cases hvacant
          rw [Transfer.fill hc r hs started hk hn]
          split
          · rw [Transfer.assemble_of_long ho hl]
            refine ⟨fun m hg => ?_, rfl⟩
            rw [KeyedList.get?_erase, if_pos rfl] at hg
            cases hg
          · refine ⟨fun m hg => ?_, rfl⟩
            rw [KeyedList.get?_put, if_pos rfl] at hg
            cases hg
            exact ⟨_, Finset.insert_subset (Finset.mem_range.mpr hk) hs, started, rfl⟩
        · exact ⟨h, rfl⟩

theorem prune (h : r.Gathers t) (now maxAge : Nat) : (r.prune now maxAge).Gathers t := by
  intro m hm
  have hg := r.inProgress.get?_filter (fun _ m => decide (now - m.started < maxAge)) t.id
  rw [Reassembler.prune, hg] at hm
  exact h m (Option.filter_eq_some_iff.mp hm).1

end Reassembler.Gathers

def Reassembler.lost (r r' : Reassembler) : List MultiPartId :=
  r.inProgress.keys.filter fun id => ¬ r'.inProgress.contains id

theorem Reassembler.lost_self (r : Reassembler) : r.lost r = [] := by
  rw [lost, List.filter_eq_nil_iff]
  intro id hid
  obtain ⟨m, hm⟩ := (r.inProgress.mem_keys_iff id).mp hid
  simp [KeyedList.contains, hm]

theorem Reassembler.Stage.prune (hs : r.Stage t held) (now maxAge : Nat) :
    t.id ∉ r.lost (r.prune now maxAge) ∧ (r.prune now maxAge).Stage t held ∨
      t.id ∈ r.lost (r.prune now maxAge) ∧ (r.prune now maxAge).Stage t ∅ ∧ held.Nonempty ∧
        held ≠ Finset.range t.count := by
  have hg := r.inProgress.get?_filter (fun _ m => decide (now - m.started < maxAge)) t.id
  have hl : t.id ∈ r.lost (r.prune now maxAge) ↔
      (∃ m, r.inProgress.get? t.id = some m) ∧
        (r.prune now maxAge).inProgress.get? t.id = none := by
    simp [Reassembler.lost, KeyedList.mem_keys_iff, KeyedList.contains]
  rw [hl]
  cases hs with
  | untouched unfinished absent =>
    refine .inl ⟨by simp [absent], .untouched unfinished ?_⟩
    exact hg.trans (by rw [absent]; rfl)
  | gathering unfinished nonempty proper found =>
    rename_i started
    rw [found, Option.filter_some] at hg
    by_cases hk : now - (t.gathered held started).started < maxAge
    · rw [if_pos (by simpa using hk)] at hg
      refine .inl ⟨?_, .gathering unfinished nonempty proper hg⟩
      rintro ⟨_, hn⟩
      exact Option.some_ne_none _ (hg.symm.trans hn)
    · rw [if_neg (by simpa using hk)] at hg
      exact .inr ⟨⟨⟨_, found⟩, hg⟩, .untouched unfinished hg, nonempty, proper.ne⟩
  | complete done absent =>
    refine .inl ⟨by simp [absent], .complete done ?_⟩
    exact hg.trans (by rw [absent]; rfl)

end PeerMesh

import Mathlib.Data.Finset.Card
import PeerMesh.Proofs.Statistics

namespace PeerMesh

theorem nodup_eraseDups {α : Type} [DecidableEq α] : (l : List α) → l.eraseDups.Nodup
  | [] => List.nodup_nil
  | a :: l => by
    rw [List.eraseDups_cons, List.nodup_cons]
    refine ⟨fun ha => ?_, nodup_eraseDups _⟩
    simpa using (List.mem_filter.mp (List.mem_eraseDups.mp ha)).2
termination_by l => l.length
decreasing_by exact Nat.lt_succ_of_le (List.length_filter_le _ l)

namespace Packet

/-- The packet at the place `k` is the first one with its id. -/
def IsFirst (ps : List Packet) (k : Nat) : Prop :=
  ∃ p ∈ ps[k]?, p.id ∉ (ps.take k).map id

instance (ps : List Packet) (k : Nat) : Decidable (IsFirst ps k) :=
  inferInstanceAs (Decidable (∃ p ∈ ps[k]?, _))

/-- Of the part of the sequence `ps` that begins at the place `start`, the packets that are the
first ones with their ids in the whole sequence. -/
def newIn (ps : List Packet) (start : Nat) (part : List Packet) : List Packet :=
  ((part.zipIdx start).filter fun x => IsFirst ps x.2).map Prod.fst

theorem newIn_cons (ps : List Packet) (start : Nat) (p : Packet) (part : List Packet) :
    newIn ps start (p :: part) =
      if IsFirst ps start then p :: newIn ps (start + 1) part else newIn ps (start + 1) part := by
  rw [newIn, List.zipIdx_cons, List.filter_cons]
  by_cases h : IsFirst ps start
  · rw [if_pos (decide_eq_true h), if_pos h]
    rfl
  · rw [if_neg (by simpa using h), if_neg h]
    rfl

theorem newIn_append (ps : List Packet) (start : Nat) (part part' : List Packet) :
    newIn ps start (part ++ part') =
      newIn ps start part ++ newIn ps (start + part.length) part' := by
  rw [newIn, List.zipIdx_append, List.filter_append, List.map_append]
  rfl

end Packet

namespace DuplicateFilter

open Packet

def siftAll (f : DuplicateFilter) : List (List Packet) → DuplicateFilter × List (List Packet)
  | [] => (f, [])
  | batch :: batches =>
    let (f, kept) := f.sift batch
    let (f, rest) := f.siftAll batches
    (f, kept :: rest)

/-- The ids that were received are those of the packets `ps`. -/
structure Recalls (f : DuplicateFilter) (ps : List Packet) : Prop where
  nodup : f.seen.Nodup
  mem_seen : ∀ id, id ∈ f.seen ↔ id ∈ ps.map Packet.id

variable {f : DuplicateFilter} {ps front : List Packet}

namespace Recalls

theorem empty : empty.Recalls [] :=
  ⟨List.nodup_nil, fun _ => Iff.rfl⟩

theorem sift (h : f.Recalls ps) (batch : List Packet) :
    (f.sift batch).1.Recalls (ps ++ batch) := by
  refine ⟨?_, fun id => ?_⟩
  · have hfresh : (((batch.map Packet.id).eraseDups).filter (· ∉ f.seen)).Nodup :=
      (nodup_eraseDups _).filter _
    refine (List.nodup_reverse.mpr hfresh).append h.nodup fun id hid => ?_
    simpa using (List.mem_filter.mp (List.mem_reverse.mp hid)).2
  · rw [mem_seen_sift, h.mem_seen, List.map_append, List.mem_append]

theorem siftAll (h : f.Recalls ps) (batches : List (List Packet)) :
    (f.siftAll batches).1.Recalls (ps ++ batches.flatten) := by
  induction batches generalizing f ps with
  | nil => rwa [List.flatten_nil, List.append_nil]
  | cons batch batches ih =>
    rw [List.flatten_cons, ← List.append_assoc]
    exact ih (h.sift batch)

theorem size_eq (h : f.Recalls ps) : f.size = (ps.map Packet.id).toFinset.card := by
  rw [size, ← List.toFinset_card_of_nodup h.nodup]
  congr 1
  ext id
  rw [List.mem_toFinset, List.mem_toFinset, h.mem_seen]

end Recalls

theorem firsts_eq_newIn {seen : List PacketId} (hseen : ∀ id, id ∈ seen ↔ id ∈ front.map Packet.id)
    (batch back : List Packet) :
    firsts seen batch = newIn (front ++ (batch ++ back)) front.length batch := by
  induction batch generalizing front seen with
  | nil => rfl
  | cons p batch ih =>
    have hfirst : IsFirst (front ++ (p :: batch ++ back)) front.length ↔ p.id ∉ seen := by
      simp [IsFirst, hseen]
    have hrest (seen' : List PacketId) (h : ∀ id, id ∈ seen' ↔ id ∈ p.id :: seen) :
        firsts seen' batch =
          newIn (front ++ (p :: batch ++ back)) (front.length + 1) batch := by
      have hseen' (id : PacketId) : id ∈ seen' ↔ id ∈ (front ++ [p]).map Packet.id := by
        simp [h, hseen, or_comm]
      rw [ih hseen', List.length_append, List.append_assoc]
      rfl
    rw [firsts, newIn_cons]
    simp only [hfirst, ite_not]
    split
    · rename_i hp
      exact hrest seen fun id => by simp +contextual [hp]
    · rw [hrest _ fun _ => Iff.rfl]

theorem Recalls.sift_eq_newIn (h : f.Recalls front) (batch back : List Packet) :
    (f.sift batch).2 = newIn (front ++ (batch ++ back)) front.length batch := by
  rw [sift_eq_firsts]
  exact firsts_eq_newIn h.mem_seen batch back

theorem Recalls.siftAll_eq_newIn (h : f.Recalls front) (batches : List (List Packet)) :
    (f.siftAll batches).2.flatten =
      newIn (front ++ batches.flatten) front.length batches.flatten := by
  induction batches generalizing f front with
  | nil => rfl
  | cons batch batches ih =>
    have hsift := h.sift_eq_newIn batch batches.flatten
    have hrest := ih (h.sift batch)
    rw [List.length_append, List.append_assoc] at hrest
    rw [List.flatten_cons, newIn_append, ← hsift, ← hrest]
    rfl

theorem Recalls.mem_test (h : f.Recalls ps) (ids : List PacketId) (id : PacketId) (new : Bool) :
    (id, new) ∈ (f.test ids).2 ↔ id ∈ ids ∧ (new ↔ id ∉ ps.map Packet.id) := by
  have hverdicts : (f.test ids).2 = ids.eraseDups.map fun id => (id, decide (id ∉ f.seen)) := rfl
  rw [hverdicts, List.mem_map]
  simp only [Prod.mk.injEq, List.mem_eraseDups, h.mem_seen]
  constructor
  · rintro ⟨id, hid, rfl, rfl⟩
    exact ⟨hid, decide_eq_true_iff⟩
  · rintro ⟨hid, hnew⟩
    exact ⟨id, hid, rfl, Bool.eq_iff_iff.mpr (decide_eq_true_iff.trans hnew.symm)⟩

theorem nodup_test (f : DuplicateFilter) (ids : List PacketId) :
    ((f.test ids).2.map Prod.fst).Nodup := by
  have hkeys : (f.test ids).2.map Prod.fst = ids.eraseDups := by
    rw [test, List.map_map]
    exact List.map_id _
  rw [hkeys]
  exact nodup_eraseDups ids

/-- Wherever a sequence of packets is cut into batches, the packets that are left of it are the
first ones with their ids, in their order. The verdicts on a batch are on its ids, each of which
is new just if no packet of a batch before has it; and the filter remembers as many ids as the
packets so far have. -/
theorem first_occurrences (ps : List Packet) (batches : List (List Packet))
    (hcut : batches.flatten = ps) :
    (empty.siftAll batches).2.flatten = newIn ps 0 ps ∧
      (empty.siftAll batches).1.size = (ps.map Packet.id).toFinset.card ∧
      ∀ front batch back, batches = front ++ batch :: back →
        let f := (empty.siftAll front).1
        let verdicts := (f.test (batch.map Packet.id)).2
        f.size = (front.flatten.map Packet.id).toFinset.card ∧
          (verdicts.map Prod.fst).Nodup ∧
          (∀ id new, (id, new) ∈ verdicts ↔
            id ∈ batch.map Packet.id ∧ (new ↔ id ∉ front.flatten.map Packet.id)) ∧
          (f.sift batch).2 = newIn ps front.flatten.length batch := by
  subst hcut
  have hrecalls (batches : List (List Packet)) :
      (empty.siftAll batches).1.Recalls batches.flatten := Recalls.empty.siftAll batches
  refine ⟨Recalls.empty.siftAll_eq_newIn batches, (hrecalls batches).size_eq, ?_⟩
  rintro front batch back rfl
  intro f verdicts
  have h := hrecalls front
  refine ⟨h.size_eq, nodup_test f _, h.mem_test _, ?_⟩
  rw [List.flatten_append, List.flatten_cons]
  exact h.sift_eq_newIn batch back.flatten

def repeatedIds : List Packet :=
  [1, 2, 1, 1, 3, 2].mapIdx fun k id =>
    ⟨⟨id⟩, ⟨5⟩, ⟨6⟩, true, ⟨⟨5⟩, ⟨6⟩, ⟨⟨7⟩, [UInt8.ofNat k]⟩⟩⟩

theorem first_occurrences_repeatedIds :
    [repeatedIds.take 3, [], repeatedIds.drop 3].flatten = repeatedIds ∧
      (empty.siftAll [repeatedIds.take 3, [], repeatedIds.drop 3]).2.flatten =
        [0, 1, 4].filterMap (repeatedIds[·]?) ∧
      (empty.siftAll [repeatedIds.take 3, [], repeatedIds.drop 3]).1.size = 3 := by
  have hcut : [repeatedIds.take 3, [], repeatedIds.drop 3].flatten = repeatedIds := rfl
  obtain ⟨hkept, hsize, -⟩ := first_occurrences repeatedIds _ hcut
  exact ⟨hcut, hkept.trans (by decide), hsize.trans (by decide)⟩

end DuplicateFilter

end PeerMesh

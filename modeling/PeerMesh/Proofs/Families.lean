import Mathlib.Data.Finset.Filter
import Mathlib.Data.List.Induction
import Mathlib.Data.List.Nodup
import PeerMesh.Proofs.Gathering

namespace PeerMesh

open Reassembler

/-- A call of the reassembler: the chunk, the message that carries it, and the time. -/
structure ChunkCall where
  now : Nat
  carrier : Envelope
  chunk : Chunk

namespace Reassembler

def call (r : Reassembler) (c : ChunkCall) : Reassembler × Except ChunkError (Option Envelope) :=
  r.accept c.now c.carrier c.chunk

def after (r : Reassembler) (calls : List ChunkCall) : Reassembler :=
  calls.foldl (fun r c => (r.call c).1) r

def results (r : Reassembler) :
    List ChunkCall → List (ChunkCall × Except ChunkError (Option Envelope))
  | [] => []
  | c :: calls => (c, (r.call c).2) :: (r.call c).1.results calls

theorem after_concat (r : Reassembler) (calls : List ChunkCall) (c : ChunkCall) :
    r.after (calls ++ [c]) = ((r.after calls).call c).1 := by
  rw [after, List.foldl_append]
  rfl

theorem results_concat (r : Reassembler) (calls : List ChunkCall) (c : ChunkCall) :
    r.results (calls ++ [c]) = r.results calls ++ [(c, ((r.after calls).call c).2)] := by
  induction calls generalizing r with
  | nil => rfl
  | cons d calls ih => exact congrArg ((d, (r.call d).2) :: ·) (ih (r.call d).1)

end Reassembler

namespace Transfer

/-- The call brings a chunk of the transfer. -/
def Brings (t : Transfer) (c : ChunkCall) : Prop :=
  c.carrier ∈ t.carriers ∧ c.carrier.body.read Chunk = .ok c.chunk

instance (t : Transfer) (c : ChunkCall) : Decidable (t.Brings c) :=
  inferInstanceAs (Decidable (_ ∧ _))

/-- All chunks of the message have arrived. -/
def HasArrived (t : Transfer) (calls : List ChunkCall) : Prop :=
  ∀ e ∈ t.carriers, e ∈ calls.map ChunkCall.carrier

instance (t : Transfer) (calls : List ChunkCall) : Decidable (t.HasArrived calls) :=
  inferInstanceAs (Decidable (∀ e ∈ _, _))

/-- Some chunks of the message have arrived, but not all. -/
def IsAwaited (t : Transfer) (calls : List ChunkCall) : Prop :=
  (∃ e ∈ t.carriers, e ∈ calls.map ChunkCall.carrier) ∧ ¬ t.HasArrived calls

instance (t : Transfer) (calls : List ChunkCall) : Decidable (t.IsAwaited calls) :=
  inferInstanceAs (Decidable ((∃ e ∈ _, _) ∧ _))

def arrived (t : Transfer) (calls : List ChunkCall) : Finset Nat :=
  (Finset.range t.count).filter fun k => t.carrier k ∈ calls.map ChunkCall.carrier

theorem mem_arrived {t : Transfer} {calls : List ChunkCall} {k : Nat} :
    k ∈ t.arrived calls ↔ k < t.count ∧ t.carrier k ∈ calls.map ChunkCall.carrier := by
  rw [arrived, Finset.mem_filter, Finset.mem_range]

theorem Valid.mem_carriers {t : Transfer} (h : t.Valid) {e : Envelope} :
    e ∈ t.carriers ↔ ∃ k < t.count, t.carrier k = e :=
  mem_carriers_iff h.not_fits

theorem Valid.carrier_injective {t : Transfer} (h : t.Valid) {j k : Nat} (hj : j < t.count)
    (hk : k < t.count) (he : t.carrier j = t.carrier k) : j = k := by
  have hc := h.read_carrier j
  rw [he, h.read_carrier k] at hc
  rw [← toNat_index h.count_lt hj, ← toNat_index h.count_lt hk, Except.ok.inj hc]

theorem Valid.brings_iff {t : Transfer} (h : t.Valid) {c : ChunkCall} :
    t.Brings c ↔ ∃ k < t.count, c.carrier = t.carrier k ∧ c.chunk = t.chunk k := by
  constructor
  · rintro ⟨hm, hr⟩
    obtain ⟨k, hk, he⟩ := h.mem_carriers.mp hm
    rw [← he, h.read_carrier k] at hr
    exact ⟨k, hk, he.symm, (Except.ok.inj hr).symm⟩
  · rintro ⟨k, hk, he, hc⟩
    exact ⟨h.mem_carriers.mpr ⟨k, hk, he.symm⟩, by rw [he, h.read_carrier k, hc]⟩

theorem Valid.hasArrived_iff {t : Transfer} (h : t.Valid) {calls : List ChunkCall} :
    t.HasArrived calls ↔ t.arrived calls = Finset.range t.count := by
  constructor
  · intro ha
    refine Finset.Subset.antisymm (Finset.filter_subset _ _) fun k hk => ?_
    have hk' := Finset.mem_range.mp hk
    exact mem_arrived.mpr ⟨hk', ha _ (h.mem_carriers.mpr ⟨k, hk', rfl⟩)⟩
  · intro ha e he
    obtain ⟨k, hk, rfl⟩ := h.mem_carriers.mp he
    exact (mem_arrived.mp (ha ▸ Finset.mem_range.mpr hk)).2

theorem Valid.isAwaited_iff {t : Transfer} (h : t.Valid) {calls : List ChunkCall} :
    t.IsAwaited calls ↔ (t.arrived calls).Nonempty ∧ t.arrived calls ≠ Finset.range t.count := by
  rw [IsAwaited, h.hasArrived_iff]
  refine and_congr_left fun _ => ⟨?_, ?_⟩
  · rintro ⟨e, he, ha⟩
    obtain ⟨k, hk, rfl⟩ := h.mem_carriers.mp he
    exact ⟨k, mem_arrived.mpr ⟨hk, ha⟩⟩
  · rintro ⟨k, hk⟩
    have hm := mem_arrived.mp hk
    exact ⟨t.carrier k, h.mem_carriers.mpr ⟨k, hm.1, rfl⟩, hm.2⟩

theorem Valid.arrived_concat_own {t : Transfer} (h : t.Valid) (calls : List ChunkCall)
    {c : ChunkCall} {k : Nat} (hk : k < t.count) (hc : c.carrier = t.carrier k) :
    t.arrived (calls ++ [c]) = insert k (t.arrived calls) := by
  ext j
  simp only [mem_arrived, Finset.mem_insert, List.map_append, List.map_cons, List.map_nil,
    List.mem_append, List.mem_singleton, hc]
  constructor
  · rintro ⟨hj, hm | hm⟩
    · exact .inr ⟨hj, hm⟩
    · exact .inl (h.carrier_injective hj hk hm)
  · rintro (rfl | ⟨hj, hm⟩)
    · exact ⟨hk, .inr rfl⟩
    · exact ⟨hj, .inl hm⟩

theorem Valid.arrived_concat_other {t : Transfer} (h : t.Valid) (calls : List ChunkCall)
    {c : ChunkCall} (hc : c.carrier ∉ t.carriers) :
    t.arrived (calls ++ [c]) = t.arrived calls := by
  ext j
  simp only [mem_arrived, List.map_append, List.map_cons, List.map_nil, List.mem_append,
    List.mem_singleton]
  refine and_congr_right fun hj => or_iff_left fun he => hc ?_
  exact h.mem_carriers.mpr ⟨j, hj, he⟩

end Transfer

section Family

variable {F : List Transfer} (hF : ∀ t ∈ F, t.Valid) (hids : (F.map Transfer.id).Nodup)

include hF hids in
theorem Transfer.eq_of_brings {t u : Transfer} (ht : t ∈ F) (hu : u ∈ F) {c : ChunkCall}
    (hc : c.carrier ∈ t.carriers) (hb : u.Brings c) : t = u := by
  obtain ⟨k, _, he⟩ := (hF t ht).mem_carriers.mp hc
  obtain ⟨j, _, hj, hcj⟩ := (hF u hu).brings_iff.mp hb
  have hr := hb.2
  rw [← he, (hF t ht).read_carrier k] at hr
  have hid : t.id = c.chunk.id := congrArg Chunk.id (Except.ok.inj hr)
  rw [hcj] at hid
  exact List.inj_on_of_nodup_map hids ht hu hid

include hF hids in
/-- Of each message the reassembler holds the chunks that have arrived. -/
theorem Reassembler.stage_after (calls : List ChunkCall)
    (hcalls : ∀ c ∈ calls, ∃ t ∈ F, t.Brings c) {t : Transfer} (ht : t ∈ F) :
    (empty.after calls).Stage t (t.arrived calls) := by
  induction calls using List.reverseRecOn with
  | nil =>
    have he : t.arrived [] = ∅ := by
      ext k
      simp [Transfer.mem_arrived]
    rw [he]
    exact .untouched List.not_mem_nil rfl
  | append_singleton calls c ih =>
    have ih := ih fun d hd => hcalls d (by simp [hd])
    obtain ⟨u, hu, hb⟩ := hcalls c (by simp)
    rw [after_concat]
    obtain ⟨k, hk, he, hck⟩ := (hF u hu).brings_iff.mp hb
    by_cases hm : c.carrier ∈ t.carriers
    · obtain rfl := Transfer.eq_of_brings hF hids ht hu hm hb
      rw [(hF t ht).arrived_concat_own calls hk he, call, he, hck]
      exact (ih.accept_own (hF t ht) c.now hk).1
    · rw [(hF t ht).arrived_concat_other calls hm]
      refine ih.accept_other c.now c.carrier fun hid => hm ?_
      rw [hck] at hid
      rw [List.inj_on_of_nodup_map hids ht hu hid]
      exact hb.1

include hF in
theorem Reassembler.get?_after_of_notMem (calls : List ChunkCall)
    (hcalls : ∀ c ∈ calls, ∃ t ∈ F, t.Brings c) {id : MultiPartId} (hid : id ∉ F.map Transfer.id) :
    (empty.after calls).inProgress.get? id = none := by
  induction calls using List.reverseRecOn with
  | nil => rfl
  | append_singleton calls c ih =>
    obtain ⟨u, hu, hb⟩ := hcalls c (by simp)
    obtain ⟨k, _, _, hck⟩ := (hF u hu).brings_iff.mp hb
    have hne : id ≠ c.chunk.id := by
      rw [hck]
      exact fun he => hid (List.mem_map.mpr ⟨u, hu, he.symm⟩)
    rw [after_concat, call, (accept_frame _ _ _ hne).1]
    exact ih fun d hd => hcalls d (by simp [hd])

include hF hids in
theorem Reassembler.call_after (calls : List ChunkCall) {c : ChunkCall}
    (hcalls : ∀ d ∈ calls, ∃ t ∈ F, t.Brings d) {t : Transfer} (ht : t ∈ F) (hb : t.Brings c) :
    ((empty.after calls).call c).2 = .ok
      (if t.HasArrived (calls ++ [c]) ∧ ¬ t.HasArrived calls then some t.message else none) := by
  have h := hF t ht
  obtain ⟨k, hk, he, hck⟩ := h.brings_iff.mp hb
  have hs := stage_after hF hids calls hcalls ht
  have hr := (hs.accept_own h c.now hk).2
  have hiff : (k ∉ t.arrived calls ∧ insert k (t.arrived calls) = Finset.range t.count) ↔
      (insert k (t.arrived calls) = Finset.range t.count ∧
        t.arrived calls ≠ Finset.range t.count) := by
    constructor
    · rintro ⟨hn, hi⟩
      exact ⟨hi, fun ha => hn (ha ▸ Finset.mem_range.mpr hk)⟩
    · rintro ⟨hi, hn⟩
      exact ⟨fun hm => hn (Finset.insert_eq_of_mem hm ▸ hi), hi⟩
  rw [call, he, hck, hr]
  simp only [h.hasArrived_iff, h.arrived_concat_own calls hk he, hiff, ne_eq]

include hF hids in
theorem Reassembler.givenOut_after (calls : List ChunkCall)
    (hcalls : ∀ c ∈ calls, ∃ t ∈ F, t.Brings c) {t : Transfer} (ht : t ∈ F) :
    ((empty.results calls).filter fun o => t.Brings o.1).filterMap (fun o => givenOut o.2) =
      if t.HasArrived calls then [t.message] else [] := by
  induction calls using List.reverseRecOn with
  | nil =>
    have hn : ¬ t.HasArrived [] := by
      intro ha
      have h2 := (hF t ht).two_le
      obtain ⟨e, he⟩ := List.exists_mem_of_length_pos (by omega : 0 < t.carriers.length)
      simpa using ha e he
    rw [if_neg hn]
    rfl
  | append_singleton calls c ih =>
    have hprev : ∀ d ∈ calls, ∃ t ∈ F, t.Brings d := fun d hd => hcalls d (by simp [hd])
    have hmono : t.HasArrived calls → t.HasArrived (calls ++ [c]) := by
      intro ha e he
      rw [List.map_append]
      exact List.mem_append_left _ (ha e he)
    rw [results_concat, List.filter_append, List.filterMap_append, ih hprev]
    by_cases hb : t.Brings c
    · have hr := call_after hF hids calls hprev ht hb
      rw [List.filter_cons_of_pos (by simpa using hb), List.filter_nil, List.filterMap_cons, hr]
      by_cases ha : t.HasArrived calls
      · simp [ha, hmono ha, givenOut]
      · by_cases hn : t.HasArrived (calls ++ [c])
        · simp [ha, hn, givenOut]
        · simp [ha, hn, givenOut]
    · rw [List.filter_cons_of_neg (by simpa using hb)]
      -- The chunk belongs to another message of the family, and so not to this one.
      have hm : c.carrier ∉ t.carriers := by
        intro hm
        obtain ⟨u, hu, hub⟩ := hcalls c (by simp)
        exact hb (Transfer.eq_of_brings hF hids ht hu hm hub ▸ hub)
      have hiff : t.HasArrived (calls ++ [c]) ↔ t.HasArrived calls := by
        rw [(hF t ht).hasArrived_iff, (hF t ht).hasArrived_iff,
          (hF t ht).arrived_concat_other calls hm]
      simp [hiff]

include hF hids in
theorem Reassembler.size_after (calls : List ChunkCall)
    (hcalls : ∀ c ∈ calls, ∃ t ∈ F, t.Brings c) :
    (empty.after calls).inProgress.size = (F.filter fun t => t.IsAwaited calls).length := by
  have hk : (empty.after calls).inProgress.keys.Perm
      ((F.filter fun t => t.IsAwaited calls).map Transfer.id) := by
    have hn : (empty.after calls).inProgress.keys.Nodup := (empty.after calls).inProgress.nodup
    refine (List.perm_ext_iff_of_nodup hn
      (hids.sublist (List.filter_sublist.map _))).mpr fun id => ?_
    rw [KeyedList.mem_keys_iff, List.mem_map]
    constructor
    · rintro ⟨m, hm⟩
      have hid : id ∈ F.map Transfer.id := by
        by_contra hn
        rw [get?_after_of_notMem hF calls hcalls hn] at hm
        cases hm
      obtain ⟨t, ht, rfl⟩ := List.mem_map.mp hid
      refine ⟨t, List.mem_filter.mpr ⟨ht, ?_⟩, rfl⟩
      have hs := (stage_after hF hids calls hcalls ht).awaited_of_get? hm
      simpa using (hF t ht).isAwaited_iff.mpr hs
    · rintro ⟨t, ht, rfl⟩
      obtain ⟨ht, ha⟩ := List.mem_filter.mp ht
      have ha := (hF t ht).isAwaited_iff.mp (by simpa using ha)
      exact (stage_after hF hids calls hcalls ht).get?_of_awaited ha
  rw [← KeyedList.length_keys, hk.length_eq, List.length_map]

end Family

/-- Whatever the order in which chunks of a family arrive, and whichever are repeated or missing, no
call fails. A message is given out, as it was, by the call that brings the last of its chunks for
the first time and by no other, hence once if all of its chunks arrive and never otherwise; and
at every moment the messages in progress are as many as have arrived in part. -/
theorem Reassembler.family_round_trip (F : List Transfer) (hF : ∀ t ∈ F, t.Valid)
    (hids : (F.map Transfer.id).Nodup) (calls : List ChunkCall)
    (hcalls : ∀ c ∈ calls, ∃ t ∈ F, t.Brings c) :
    (∀ front c back, calls = front ++ c :: back → ∀ t ∈ F, t.Brings c →
        ((empty.after front).call c).2 = .ok
          (if t.HasArrived (front ++ [c]) ∧ ¬ t.HasArrived front then some t.message else none)) ∧
      (∀ t ∈ F,
        ((empty.results calls).filter fun o => t.Brings o.1).filterMap (fun o => givenOut o.2) =
          if t.HasArrived calls then [t.message] else []) ∧
      ∀ front, front <+: calls →
        (empty.after front).inProgress.size = (F.filter fun t => t.IsAwaited front).length := by
  refine ⟨?_, fun t ht => givenOut_after hF hids calls hcalls ht, ?_⟩
  · rintro front c back rfl t ht hb
    exact call_after hF hids front (fun d hd => hcalls d (by simp [hd])) ht hb
  · rintro front ⟨back, rfl⟩
    exact size_after hF hids front fun d hd => hcalls d (by simp [hd])

def Transfer.pair : List Transfer :=
  [⟨⟨⟨1⟩, ⟨2⟩, ⟨⟨7⟩, [1, 2, 3]⟩⟩, 198, ⟨4⟩⟩, ⟨⟨⟨3⟩, ⟨2⟩, ⟨⟨8⟩, [4, 5, 6, 7]⟩⟩, 196, ⟨5⟩⟩]

def ChunkCall.mixed : List ChunkCall :=
  Transfer.pair.flatMap fun t => [3, 1, 1, 0, 1].filterMap fun k =>
    if k < t.count then some ⟨k, t.carrier k, t.chunk k⟩ else none

theorem Reassembler.family_round_trip_pair :
    (∀ t ∈ Transfer.pair, t.Valid) ∧ (Transfer.pair.map Transfer.id).Nodup ∧
      (∀ c ∈ ChunkCall.mixed, ∃ t ∈ Transfer.pair, t.Brings c) ∧
      (Transfer.pair.map fun t => (t.HasArrived ChunkCall.mixed : Bool)) = [true, false] ∧
      (∀ front c back, ChunkCall.mixed = front ++ c :: back → ∀ t ∈ Transfer.pair, t.Brings c →
        ((empty.after front).call c).2 = .ok
          (if t.HasArrived (front ++ [c]) ∧ ¬ t.HasArrived front then some t.message else none)) ∧
      (∀ t ∈ Transfer.pair, ((empty.results ChunkCall.mixed).filter fun o => t.Brings o.1).filterMap
          (fun o => givenOut o.2) =
        if t.HasArrived ChunkCall.mixed then [t.message] else []) ∧
      ∀ front, front <+: ChunkCall.mixed → (empty.after front).inProgress.size =
        (Transfer.pair.filter fun t => t.IsAwaited front).length := by
  have hF : ∀ t ∈ Transfer.pair, t.Valid := by
    intro t ht
    have hd : ∀ t ∈ Transfer.pair, chunkOverhead < t.max ∧ 2 ≤ t.carriers.length ∧
        t.carriers.length ≤ maxChunkCount ∧ t.body.length < UInt32.size := by decide +kernel
    obtain ⟨overhead, two_le, le_max, length_lt⟩ := hd t ht
    exact ⟨overhead, two_le, le_max, length_lt⟩
  have hids : (Transfer.pair.map Transfer.id).Nodup := by decide
  have hcalls : ∀ c ∈ ChunkCall.mixed, ∃ t ∈ Transfer.pair, t.Brings c := by decide +kernel
  exact ⟨hF, hids, hcalls, by decide +kernel,
    family_round_trip Transfer.pair hF hids ChunkCall.mixed hcalls⟩

end PeerMesh

import Mathlib.Data.List.Induction
import PeerMesh.Identity
import PeerMesh.Proofs.KeyedList

namespace PeerMesh.Properties

theorem lookup_insertEntry (key : String) (value : PropertyValue)
    (es : List (String × PropertyValue)) (k : String) :
    (insertEntry key value es).lookup k = if k = key then some value else es.lookup k := by
  induction es with
  | nil => exact KeyedList.lookup_cons_ite k key value []
  | cons e es ih =>
    obtain ⟨l, v⟩ := e
    rw [insertEntry]
    split
    · rename_i hkey
      have hkey : key = l := hkey
      subst hkey
      rw [KeyedList.lookup_cons_ite, KeyedList.lookup_cons_ite]
      by_cases hk : k = key
      · rw [if_pos hk, if_pos hk]
      · rw [if_neg hk, if_neg hk, if_neg hk]
    · rename_i hkey
      split
      · exact KeyedList.lookup_cons_ite k key value _
      · rw [KeyedList.lookup_cons_ite, KeyedList.lookup_cons_ite, ih]
        by_cases hk : k = l
        · have hne : ¬ k = key := fun he => hkey (he ▸ hk)
          rw [if_pos hk, if_neg hne, if_pos hk]
        · rw [if_neg hk, if_neg hk]

theorem get?_insert (ps : Properties) (key : String) (value : PropertyValue) (k : String) :
    (ps.insert key value).get? k = if k = key then some value else ps.get? k :=
  lookup_insertEntry key value ps.entries k

theorem nodup_keys (ps : Properties) : (ps.entries.map Prod.fst).Nodup := by
  rw [List.Nodup, List.pairwise_map]
  refine ps.ordered.imp fun {a b} (hb : KeyBefore a.1 b.1) (he : a.1 = b.1) => ?_
  rw [he] at hb
  exact KeyBefore.irrefl b.1 hb

theorem mem_entries_iff (ps : Properties) (key : String) (value : PropertyValue) :
    (key, value) ∈ ps.entries ↔ ps.get? key = some value := by
  constructor
  · exact KeyedList.lookup_of_mem ps.nodup_keys
  · intro h
    obtain ⟨front, back, he, -⟩ := List.lookup_eq_some_iff.mp h
    rw [he]
    exact List.mem_append_right front List.mem_cons_self

theorem insertEntry_perm {key : String} {es : List (String × PropertyValue)}
    (h : es.lookup key = none) (value : PropertyValue) :
    (insertEntry key value es).Perm ((key, value) :: es) := by
  induction es with
  | nil => exact .refl _
  | cons e es ih =>
    obtain ⟨l, v⟩ := e
    rw [KeyedList.lookup_cons_ite] at h
    split at h
    · cases h
    · rename_i hkey
      rw [insertEntry, if_neg hkey]
      split
      · exact .refl _
      · exact ((ih h).cons (l, v)).trans (.swap _ _ es)

/-- Properties with the same entries, in whatever order, are the same. -/
theorem eq_of_perm {ps qs : Properties} (h : ps.entries.Perm qs.entries) : ps = qs := by
  obtain ⟨es, hes⟩ := ps
  obtain ⟨ds, hds⟩ := qs
  have he : es = ds := by
    refine List.Perm.eq_of_pairwise (fun a b _ _ hab hba => ?_) hes hds h
    exact (KeyBefore.irrefl a.1 (hab.trans hba)).elim
  subst he
  rfl

theorem eq_of_get? {ps qs : Properties} (h : ∀ key, ps.get? key = qs.get? key) : ps = qs := by
  have hnodup (ps : Properties) : ps.entries.Nodup :=
    (List.pairwise_map.mp ps.nodup_keys).imp fun hne he => hne (congrArg Prod.fst he)
  refine eq_of_perm ((List.perm_ext_iff_of_nodup (hnodup ps) (hnodup qs)).mpr fun e => ?_)
  rw [mem_entries_iff, mem_entries_iff, h]

def insertAll (ps : Properties) (es : List (String × PropertyValue)) : Properties :=
  es.foldl (fun ps e => ps.insert e.1 e.2) ps

/-- The last value that the entries give to a key. -/
def lastValue (es : List (String × PropertyValue)) (key : String) : Option PropertyValue :=
  es.reverse.lookup key

theorem get?_insertAll (ps : Properties) (es : List (String × PropertyValue)) (key : String) :
    (ps.insertAll es).get? key = (lastValue es key).or (ps.get? key) := by
  induction es using List.reverseRecOn with
  | nil => rfl
  | append_singleton es e ih =>
    obtain ⟨k, v⟩ := e
    rw [insertAll, List.foldl_append, lastValue, List.reverse_append]
    have hinsert : ((ps.insertAll es).insert k v).get? key = _ := get?_insert _ k v key
    refine hinsert.trans ?_
    show _ = (((k, v) :: es.reverse).lookup key).or (ps.get? key)
    rw [KeyedList.lookup_cons_ite, ih]
    split
    · rfl
    · rfl

end PeerMesh.Properties

import PeerMesh.KeyedList

namespace PeerMesh.KeyedList

variable {κ α : Type} [DecidableEq κ]

theorem lookup_of_mem {es : List (κ × α)} (hn : (es.map Prod.fst).Nodup) {k : κ} {a : α}
    (h : (k, a) ∈ es) : es.lookup k = some a := by
  induction es with
  | nil => cases h
  | cons e es ih =>
    obtain ⟨l, b⟩ := e
    have hd := List.nodup_cons.mp hn
    rw [lookup_cons_ite]
    obtain he | he := List.mem_cons.mp h
    · cases he
      rw [if_pos rfl]
    · have hm : k ∈ es.map Prod.fst := List.mem_map.mpr ⟨(k, a), he, rfl⟩
      have hne : k ≠ l := fun hk => hd.1 (hk ▸ hm)
      rw [if_neg hne, ih hd.2 he]

theorem get?_eq_some_iff (m : KeyedList κ α) (k : κ) (a : α) :
    m.get? k = some a ↔ (k, a) ∈ m.entries := by
  constructor
  · intro h
    obtain ⟨front, back, he, _⟩ := List.lookup_eq_some_iff.mp h
    rw [he]
    simp
  · exact lookup_of_mem m.nodup

theorem mem_keys_iff (m : KeyedList κ α) (k : κ) : k ∈ m.keys ↔ ∃ a, m.get? k = some a := by
  simp only [get?_eq_some_iff, keys, List.mem_map]
  constructor
  · rintro ⟨e, he, rfl⟩
    exact ⟨e.2, he⟩
  · rintro ⟨a, ha⟩
    exact ⟨(k, a), ha, rfl⟩

theorem mem_values_iff (m : KeyedList κ α) (a : α) : a ∈ m.values ↔ ∃ k, m.get? k = some a := by
  simp only [values, get?_eq_some_iff, List.mem_map, Prod.exists, exists_eq_right]

theorem eq_empty {m : KeyedList κ α} (h : ∀ k, m.get? k = none) : m = .empty := by
  obtain ⟨es, hn⟩ := m
  have hes : es = [] := by
    refine List.eq_nil_iff_forall_not_mem.mpr fun e he => ?_
    exact Option.some_ne_none e.2 ((lookup_of_mem hn he).symm.trans (h e.1))
  subst hes
  rfl

theorem put_of_get? {m : KeyedList κ α} {k : κ} {a : α} (h : m.get? k = some a) :
    m.put k a = m := by
  have hentries (es : List (κ × α)) (h : es.lookup k = some a) : putEntry k a es = es := by
    induction es with
    | nil => cases h
    | cons e es ih =>
      obtain ⟨l, b⟩ := e
      rw [lookup_cons_ite] at h
      rw [putEntry]
      split at h
      · rename_i hk
        cases h
        rw [if_pos hk.symm, hk]
      · rename_i hk
        rw [if_neg (Ne.symm hk), ih h]
  simp only [put, hentries m.entries h]

theorem put_put (m : KeyedList κ α) (k : κ) (a b : α) : (m.put k a).put k b = m.put k b := by
  have hentries (es : List (κ × α)) : putEntry k b (putEntry k a es) = putEntry k b es := by
    induction es with
    | nil => simp [putEntry]
    | cons e es ih =>
      by_cases hk : e.1 = k
      · simp [putEntry, hk]
      · simp [putEntry, hk, ih]
  simp only [put, hentries]

theorem erase_put (m : KeyedList κ α) (k : κ) (a : α) : (m.put k a).erase k = m.erase k := by
  have hentries (es : List (κ × α)) :
      (putEntry k a es).filter (fun e => e.1 != k) = es.filter fun e => e.1 != k := by
    induction es with
    | nil => simp [putEntry]
    | cons e es ih =>
      by_cases hk : e.1 = k
      · simp [putEntry, hk]
      · simp [putEntry, hk, ih]
  simp only [erase, filter, put, hentries]

theorem keys_put (m : KeyedList κ α) (k : κ) (a : α) :
    (m.put k a).keys = if k ∈ m.keys then m.keys else m.keys ++ [k] :=
  map_fst_putEntry k a m.entries

omit [DecidableEq κ] in
theorem length_keys (m : KeyedList κ α) : m.keys.length = m.size :=
  List.length_map _

theorem get?_filter (m : KeyedList κ α) (p : κ → α → Bool) (k : κ) :
    (m.filter p).get? k = (m.get? k).filter (p k) := by
  apply Option.ext
  intro a
  rw [get?_eq_some_iff, Option.filter_eq_some_iff, get?_eq_some_iff]
  exact List.mem_filter

theorem get?_mapValues (m : KeyedList κ α) (f : κ → α → α) (k : κ) :
    (m.mapValues f).get? k = (m.get? k).map (f k) := by
  apply Option.ext
  intro a
  rw [get?_eq_some_iff, Option.map_eq_some_iff]
  simp only [get?_eq_some_iff, mapValues, List.mem_map, Prod.mk.injEq]
  constructor
  · rintro ⟨e, he, rfl, rfl⟩
    exact ⟨e.2, he, rfl⟩
  · rintro ⟨b, hb, rfl⟩
    exact ⟨(k, b), hb, rfl, rfl⟩

theorem get?_modify (m : KeyedList κ α) (k k' : κ) (f : α → α) :
    (m.modify k f).get? k' = if k' = k then (m.get? k').map f else m.get? k' := by
  rw [modify, get?_mapValues]
  split
  · rfl
  · exact Option.map_id'

/-- A function of the values that gives something for one key only. -/
theorem flatMap_values {β : Type} (m : KeyedList κ α) (f : α → List β) (k : κ)
    (h : ∀ k' a, m.get? k' = some a → k' ≠ k → f a = []) :
    m.values.flatMap f = ((m.get? k).map f).getD [] := by
  have hlookup (es : List (κ × α)) (hn : (es.map Prod.fst).Nodup)
      (hf : ∀ e ∈ es, e.1 ≠ k → f e.2 = []) :
      (es.map Prod.snd).flatMap f = ((es.lookup k).map f).getD [] := by
    induction es with
    | nil => rfl
    | cons e es ih =>
      obtain ⟨l, a⟩ := e
      have hd := List.nodup_cons.mp hn
      rw [List.map_cons, List.flatMap_cons, lookup_cons_ite]
      by_cases hl : k = l
      · have hrest : (es.map Prod.snd).flatMap f = [] := by
          rw [List.flatMap_eq_nil_iff]
          intro b hb
          obtain ⟨e, he, rfl⟩ := List.mem_map.mp hb
          refine hf e (List.mem_cons_of_mem _ he) fun hk => hd.1 ?_
          rw [← hl, ← hk]
          exact List.mem_map.mpr ⟨e, he, rfl⟩
        rw [if_pos hl, hrest, List.append_nil]
        rfl
      · rw [if_neg hl, hf (l, a) List.mem_cons_self (Ne.symm hl), List.nil_append]
        exact ih hd.2 fun e he => hf e (List.mem_cons_of_mem _ he)
  exact hlookup m.entries m.nodup fun e he => h e.1 e.2 ((m.get?_eq_some_iff e.1 e.2).mpr he)

end PeerMesh.KeyedList

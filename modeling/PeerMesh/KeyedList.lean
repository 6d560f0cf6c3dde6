namespace PeerMesh

structure KeyedList (κ α : Type) where
  entries : List (κ × α)
  nodup : (entries.map Prod.fst).Nodup

namespace KeyedList

variable {κ α : Type} [DecidableEq κ]

def empty : KeyedList κ α :=
  ⟨[], .nil⟩

instance : Inhabited (KeyedList κ α) := ⟨empty⟩

def keys (m : KeyedList κ α) : List κ :=
  m.entries.map Prod.fst

def values (m : KeyedList κ α) : List α :=
  m.entries.map Prod.snd

def size (m : KeyedList κ α) : Nat :=
  m.entries.length

def get? (m : KeyedList κ α) (k : κ) : Option α :=
  m.entries.lookup k

def contains (m : KeyedList κ α) (k : κ) : Bool :=
  (m.get? k).isSome

/-- Replaces the value of a key in its place, or adds the key at the end. -/
def putEntry (k : κ) (a : α) : List (κ × α) → List (κ × α)
  | [] => [(k, a)]
  | e :: es => if e.1 = k then (k, a) :: es else e :: putEntry k a es

theorem map_fst_putEntry (k : κ) (a : α) (es : List (κ × α)) :
    (putEntry k a es).map Prod.fst =
      if k ∈ es.map Prod.fst then es.map Prod.fst else es.map Prod.fst ++ [k] := by
  induction es with
  | nil => simp [putEntry]
  | cons e es ih =>
    by_cases h : e.1 = k
    · simp [putEntry, h]
    · have hk : ¬ k = e.1 := fun hk => h hk.symm
      simp only [putEntry, if_neg h, List.map_cons, ih, List.mem_cons, hk, false_or]
      split <;> rfl

def put (m : KeyedList κ α) (k : κ) (a : α) : KeyedList κ α where
  entries := putEntry k a m.entries
  nodup := by
    rw [map_fst_putEntry]
    split
    · exact m.nodup
    · rename_i h
      exact List.nodup_append.mpr ⟨m.nodup, by simp, by
        intro x hx y hy
        rw [List.mem_singleton.mp hy]
        exact fun he => h (he ▸ hx)⟩

def filter (m : KeyedList κ α) (p : κ → α → Bool) : KeyedList κ α where
  entries := m.entries.filter fun e => p e.1 e.2
  nodup := m.nodup.sublist ((List.filter_sublist).map Prod.fst)

def erase (m : KeyedList κ α) (k : κ) : KeyedList κ α :=
  m.filter fun k' _ => k' != k

def mapValues (m : KeyedList κ α) (f : κ → α → α) : KeyedList κ α where
  entries := m.entries.map fun e => (e.1, f e.1 e.2)
  nodup := by
    rw [List.map_map]
    exact m.nodup

def modify (m : KeyedList κ α) (k : κ) (f : α → α) : KeyedList κ α :=
  m.mapValues fun k' a => if k' = k then f a else a

theorem lookup_cons_ite (k l : κ) (a : α) (es : List (κ × α)) :
    ((l, a) :: es).lookup k = if k = l then some a else es.lookup k := by
  rw [List.lookup_cons]
  by_cases h : k = l
  · rw [if_pos h, beq_iff_eq.mpr h]
  · rw [if_neg h, beq_eq_false_iff_ne.mpr h]

theorem lookup_putEntry (k k' : κ) (a : α) (es : List (κ × α)) :
    (putEntry k a es).lookup k' = if k' = k then some a else es.lookup k' := by
  induction es with
  | nil => exact lookup_cons_ite k' k a []
  | cons e es ih =>
    obtain ⟨l, b⟩ := e
    by_cases hl : l = k
    · subst hl
      rw [putEntry, if_pos rfl, lookup_cons_ite, lookup_cons_ite]
      by_cases h : k' = l <;> simp [h]
    · rw [putEntry, if_neg hl, lookup_cons_ite, lookup_cons_ite, ih]
      by_cases h : k' = l
      · subst h
        simp [hl]
      · simp [h]

@[simp] theorem get?_empty (k : κ) : (empty : KeyedList κ α).get? k = none := rfl

theorem get?_put (m : KeyedList κ α) (k k' : κ) (a : α) :
    (m.put k a).get? k' = if k' = k then some a else m.get? k' :=
  lookup_putEntry k k' a m.entries

theorem lookup_filter_key (p : κ → Bool) (k : κ) (es : List (κ × α)) :
    (es.filter fun e => p e.1).lookup k = if p k then es.lookup k else none := by
  induction es with
  | nil => simp
  | cons e es ih =>
    obtain ⟨l, b⟩ := e
    by_cases hk : k = l
    · subst hk
      by_cases hp : p k
      · simp [hp]
      · simpa [hp] using ih
    · by_cases hp : p l
      · simpa [hp, hk, lookup_cons_ite] using ih
      · simpa [hp, hk, lookup_cons_ite] using ih

theorem get?_erase (m : KeyedList κ α) (k k' : κ) :
    (m.erase k).get? k' = if k' = k then none else m.get? k' := by
  have h := lookup_filter_key (fun k'' => k'' != k) k' m.entries
  rw [get?, erase, filter, h]
  by_cases hk : k' = k
  · simp [hk]
  · have hb : (k' != k) = true := bne_iff_ne.mpr hk
    rw [if_pos hb, if_neg hk, get?]

end KeyedList

end PeerMesh

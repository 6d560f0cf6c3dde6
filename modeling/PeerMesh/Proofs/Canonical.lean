import Mathlib.Data.List.Nodup
import PeerMesh.Proofs.Properties
import PeerMesh.Proofs.RoundTrip

namespace PeerMesh

open Decoder

namespace Properties

def encodeAll (es : List (String × PropertyValue)) : Bytes :=
  Varint.encode es.length ++ es.flatMap fun e => Field.encodeText e.1 ++ e.2.encode

def readEntry : Decoder (String × PropertyValue) := do
  let key ← Field.decodeText
  let value ← PropertyValue.decode
  return (key, value)

def readEntries : Nat → Decoder (List (String × PropertyValue))
  | 0 => return []
  | n + 1 => do
    let e ← readEntry
    let es ← readEntries n
    return e :: es

theorem decodeEntries_succ (n : Nat) (ps : Properties) :
    decodeEntries (n + 1) ps = readEntry >>= fun e =>
      match ps.get? e.1 with
      | some _ => throw (.duplicateProperty e.1)
      | none => decodeEntries n (ps.insert e.1 e.2) := by
  rw [decodeEntries, readEntry, bind_assoc]
  refine congrArg (Field.decodeText >>= ·) (funext fun key => ?_)
  rw [bind_assoc]
  rfl

variable {m n : Nat} {ps qs : Properties} {bs mid rest : Bytes} {e : String × PropertyValue}
  {es : List (String × PropertyValue)}

theorem decodeEntries_of_new (he : readEntry bs = .ok (e, mid)) (h : ps.get? e.1 = none) :
    decodeEntries (n + 1) ps bs = decodeEntries n (ps.insert e.1 e.2) mid := by
  rw [decodeEntries_succ, bind_of_ok he, h]

theorem decodeEntries_of_known (he : readEntry bs = .ok (e, mid)) {v : PropertyValue}
    (h : ps.get? e.1 = some v) :
    decodeEntries (n + 1) ps bs = .error (.duplicateProperty e.1) := by
  rw [decodeEntries_succ, bind_of_ok he, h]
  rfl

theorem exists_readEntries_of_decodeEntries (h : decodeEntries n ps bs = .ok (qs, rest)) :
    ∃ es, readEntries n bs = .ok (es, rest) := by
  induction n generalizing ps bs with
  | zero =>
    cases h
    exact ⟨[], rfl⟩
  | succ n ih =>
    have hstep := h
    rw [decodeEntries_succ] at hstep
    obtain ⟨e, mid, he, -⟩ := bind_eq_ok.mp hstep
    cases hkey : ps.get? e.1 with
    | some v => cases (decodeEntries_of_known he hkey).symm.trans h
    | none =>
      obtain ⟨es, hes⟩ := ih ((decodeEntries_of_new he hkey).symm.trans h)
      exact ⟨e :: es, bind_eq_ok.mpr ⟨e, mid, he, bind_of_ok hes _⟩⟩

theorem readEntries_succ_eq_ok : readEntries (n + 1) bs = .ok (es, rest) ↔
    ∃ e mid es', readEntry bs = .ok (e, mid) ∧ readEntries n mid = .ok (es', rest) ∧
      es = e :: es' := by
  rw [readEntries, bind_eq_ok]
  constructor
  · rintro ⟨e, mid, he, hrest⟩
    obtain ⟨es', rest', hes, hpure⟩ := bind_eq_ok.mp hrest
    cases hpure
    exact ⟨e, mid, es', he, hes, rfl⟩
  · rintro ⟨e, mid, es', he, hes, rfl⟩
    exact ⟨e, mid, he, bind_of_ok hes _⟩

theorem length_of_readEntries (h : readEntries n bs = .ok (es, rest)) : es.length = n := by
  induction n generalizing bs es with
  | zero =>
    cases h
    rfl
  | succ n ih =>
    obtain ⟨e, mid, es', -, hes, rfl⟩ := readEntries_succ_eq_ok.mp h
    rw [List.length_cons, ih hes]

theorem insert_append_perm (h : ps.get? e.1 = none) (es : List (String × PropertyValue)) :
    ((ps.insert e.1 e.2).entries ++ es).Perm (ps.entries ++ e :: es) :=
  ((insertEntry_perm h e.2).append_right es).trans List.perm_middle.symm

theorem decodeEntries_of_readEntries (ps : Properties) (hm : m ≤ n)
    (h : readEntries m bs = .ok (es, rest)) :
    (∃ qs : Properties, qs.entries.Perm (ps.entries ++ es) ∧
      decodeEntries n ps bs = decodeEntries (n - m) qs rest) ∨
    ∃ key, 2 ≤ ((ps.entries ++ es).map Prod.fst).count key ∧
      decodeEntries n ps bs = .error (.duplicateProperty key) := by
  induction m generalizing n ps bs es with
  | zero =>
    cases h
    rw [List.append_nil]
    exact .inl ⟨ps, .refl _, rfl⟩
  | succ m ih =>
    obtain ⟨n, rfl⟩ := Nat.exists_eq_add_of_le' (Nat.le_of_add_left_le hm)
    obtain ⟨e, mid, es', he, hes, rfl⟩ := readEntries_succ_eq_ok.mp h
    cases hkey : ps.get? e.1 with
    | some v =>
      have hold : e.1 ∈ ps.entries.map Prod.fst :=
        List.mem_map.mpr ⟨(e.1, v), (ps.mem_entries_iff e.1 v).mpr hkey, rfl⟩
      have hone := List.one_le_count_iff.mpr hold
      refine .inr ⟨e.1, ?_, decodeEntries_of_known he hkey⟩
      rw [List.map_append, List.count_append, List.map_cons, List.count_cons_self]
      omega
    | none =>
      have hperm := insert_append_perm hkey es'
      rw [decodeEntries_of_new he hkey, Nat.add_sub_add_right]
      obtain ⟨qs, hqs, hd⟩ | ⟨key, hcount, hd⟩ :=
        ih (ps.insert e.1 e.2) (Nat.le_of_succ_le_succ hm) hes
      · exact .inl ⟨qs, hqs.trans hperm, hd⟩
      · exact .inr ⟨key, (hperm.map Prod.fst).count_eq key ▸ hcount, hd⟩

theorem decodeEntries_eq_ok_iff : decodeEntries n empty bs = .ok (qs, rest) ↔
    ∃ es, readEntries n bs = .ok (es, rest) ∧ es.Perm qs.entries := by
  constructor
  · intro h
    obtain ⟨es, hes⟩ := exists_readEntries_of_decodeEntries h
    obtain ⟨qs', hperm, hd⟩ | ⟨key, -, hd⟩ :=
      decodeEntries_of_readEntries empty (Nat.le_refl n) hes
    · rw [h, Nat.sub_self] at hd
      cases hd
      exact ⟨es, hes, hperm.symm⟩
    · cases h.symm.trans hd
  · rintro ⟨es, hes, hperm⟩
    obtain ⟨qs', hqs', hd⟩ | ⟨key, hcount, -⟩ :=
      decodeEntries_of_readEntries empty (Nat.le_refl n) hes
    · rw [eq_of_perm (hperm.symm.trans hqs'.symm), hd, Nat.sub_self]
      rfl
    · have hnodup := (hperm.map Prod.fst).nodup_iff.mpr qs.nodup_keys
      exact (Nat.not_le_of_lt hcount (List.nodup_iff_count_le_one.mp hnodup key)).elim

theorem readEntry_reads (hk : (utf8 e.1).length < UInt64.size) (hv : e.2.Sized) :
    Reads readEntry (Field.encodeText e.1 ++ e.2.encode) e :=
  (Reads.textField hk).bind ((PropertyValue.decode_reads hv).bind_nil (Reads.pure e))

theorem readEntries_reads
    (h : ∀ e ∈ es, (utf8 e.1).length < UInt64.size ∧ e.2.Sized) :
    Reads (readEntries es.length) (es.flatMap fun e => Field.encodeText e.1 ++ e.2.encode) es := by
  induction es with
  | nil => exact Reads.pure []
  | cons e es ih =>
    have he := h e List.mem_cons_self
    have hes := ih fun d hd => h d (List.mem_cons_of_mem e hd)
    exact (readEntry_reads he.1 he.2).bind (hes.bind_nil (Reads.pure (e :: es)))

end Properties

namespace Identity

def declareAll (i : Identity) (es : List (String × PropertyValue)) : Identity :=
  es.foldl (fun i e => i.declare e.1 e.2) i

theorem declareAll_eq (i : Identity) (es : List (String × PropertyValue)) :
    i.declareAll es = { i with properties := i.properties.insertAll es } := by
  induction es generalizing i with
  | nil => rfl
  | cons e es ih => exact ih (i.declare e.1 e.2)

/-- Reads what stands in front of the properties of an identity, with the number of these, and the
first `m` of them, whatever their keys are. -/
def readFront (m : Nat) :
    Decoder (PeerId × String × Nat × List (String × PropertyValue)) := do
  let id ← PeerId.decode
  let name ← Field.decodeText
  let count ← Varint.decode
  let es ← Properties.readEntries m
  return (id, name, count, es)

variable {i : Identity} {id : PeerId} {name : String} {m count : Nat} {bs rest : Bytes}
  {es : List (String × PropertyValue)}

theorem readFront_eq_ok : readFront m bs = .ok ((id, name, count, es), rest) ↔
    ∃ afterId afterName afterCount, PeerId.decode bs = .ok (id, afterId) ∧
      Field.decodeText afterId = .ok (name, afterName) ∧
      Varint.decode afterName = .ok (count, afterCount) ∧
      Properties.readEntries m afterCount = .ok (es, rest) := by
  rw [readFront, bind_eq_ok]
  constructor
  · rintro ⟨id', afterId, hid, h⟩
    obtain ⟨name', afterName, hname, h⟩ := bind_eq_ok.mp h
    obtain ⟨count', afterCount, hcount, h⟩ := bind_eq_ok.mp h
    obtain ⟨es', rest', hes, h⟩ := bind_eq_ok.mp h
    cases h
    exact ⟨afterId, afterName, afterCount, hid, hname, hcount, hes⟩
  · rintro ⟨afterId, afterName, afterCount, hid, hname, hcount, hes⟩
    refine ⟨id, afterId, hid, ?_⟩
    rw [bind_of_ok hname, bind_of_ok hcount, bind_of_ok hes]
    rfl

theorem decode_of_front {afterId afterName afterCount : Bytes}
    (hid : PeerId.decode bs = .ok (id, afterId))
    (hname : Field.decodeText afterId = .ok (name, afterName))
    (hcount : Varint.decode afterName = .ok (count, afterCount)) :
    decode bs = (Properties.decodeEntries count .empty >>= fun properties =>
      pure (⟨id, name, properties⟩ : Identity)) afterCount := by
  rw [decode, bind_of_ok hid, bind_of_ok hname, Properties.decode, bind_assoc, bind_of_ok hcount]

/-- An identity is decoded where its front and its entries can be read, with as many entries as the
front announces and no two of the same key. -/
theorem decode_eq_ok_iff : decode bs = .ok (i, rest) ↔
    ∃ es, readFront es.length bs = .ok ((i.id, i.name, es.length, es), rest) ∧
      es.Perm i.properties.entries := by
  constructor
  · intro h
    obtain ⟨id, afterId, hid, h⟩ := bind_eq_ok.mp h
    obtain ⟨name, afterName, hname, h⟩ := bind_eq_ok.mp h
    obtain ⟨ps, rest', h, hpure⟩ := bind_eq_ok.mp h
    cases hpure
    obtain ⟨count, afterCount, hcount, h⟩ := bind_eq_ok.mp h
    obtain ⟨es, hes, hperm⟩ := Properties.decodeEntries_eq_ok_iff.mp h
    obtain rfl := Properties.length_of_readEntries hes
    exact ⟨es, readFront_eq_ok.mpr ⟨afterId, afterName, afterCount, hid, hname, hcount, hes⟩, hperm⟩
  · rintro ⟨es, hfront, hperm⟩
    obtain ⟨afterId, afterName, afterCount, hid, hname, hcount, hes⟩ := readFront_eq_ok.mp hfront
    have h := Properties.decodeEntries_eq_ok_iff.mpr ⟨es, hes, hperm⟩
    rw [decode_of_front hid hname hcount, bind_of_ok h]
    rfl

theorem decode_of_repeated (hfront : readFront m bs = .ok ((id, name, count, es), rest))
    (hm : m ≤ count) (hkeys : ¬ (es.map Prod.fst).Nodup) :
    ∃ key, 2 ≤ (es.map Prod.fst).count key ∧ decode bs = .error (.duplicateProperty key) := by
  obtain ⟨afterId, afterName, afterCount, hid, hname, hcount, hes⟩ := readFront_eq_ok.mp hfront
  rw [decode_of_front hid hname hcount]
  obtain ⟨qs, hperm, -⟩ | ⟨key, htwice, hd⟩ :=
    Properties.decodeEntries_of_readEntries .empty hm hes
  · exact (hkeys ((hperm.map Prod.fst).nodup_iff.mp qs.nodup_keys)).elim
  · exact ⟨key, htwice, bind_of_error hd _⟩

def encodeWith (i : Identity) (es : List (String × PropertyValue)) : Bytes :=
  i.id.encode ++ Field.encodeText i.name ++ Properties.encodeAll es

theorem encode_eq (i : Identity) : i.encode = i.encodeWith i.properties.entries :=
  rfl

theorem readFront_reads (i : Identity) (hname : (utf8 i.name).length < UInt64.size)
    (hlength : es.length < UInt64.size)
    (hes : ∀ e ∈ es, (utf8 e.1).length < UInt64.size ∧ e.2.Sized) :
    Reads (readFront es.length) (i.encodeWith es) (i.id, i.name, es.length, es) := by
  rw [encodeWith, List.append_assoc]
  exact (PeerId.decode_reads i.id).bind ((Reads.textField hname).bind
    ((Reads.varint hlength).bind ((Properties.readEntries_reads hes).bind_nil (Reads.pure _))))

theorem decode_encodeWith (hi : i.Sized) (hperm : es.Perm i.properties.entries) :
    Reads decode (i.encodeWith es) i := by
  intro rest
  have hlength : es.length < UInt64.size := hperm.length_eq ▸ hi.2.1
  have hsized : ∀ e ∈ es, (utf8 e.1).length < UInt64.size ∧ e.2.Sized :=
    fun e he => hi.2.2 e (hperm.mem_iff.mp he)
  exact decode_eq_ok_iff.mpr ⟨es, readFront_reads i hi.1 hlength hsized rest, hperm⟩

def declaring (id : PeerId) (name : String) (es : List (String × PropertyValue)) : Identity :=
  declareAll ⟨id, name, .empty⟩ es

theorem declaring_eq (id : PeerId) (name : String) (es : List (String × PropertyValue)) :
    declaring id name es = ⟨id, name, Properties.empty.insertAll es⟩ :=
  declareAll_eq _ es

theorem get?_declaring (id : PeerId) (name : String) (es : List (String × PropertyValue))
    (key : String) : (declaring id name es).properties.get? key = Properties.lastValue es key := by
  rw [declaring_eq, Properties.get?_insertAll]
  exact Option.or_none

theorem declaring_eq_iff (id : PeerId) (name : String) (es ds : List (String × PropertyValue)) :
    declaring id name es = declaring id name ds ↔
      ∀ key, Properties.lastValue es key = Properties.lastValue ds key := by
  constructor
  · intro h key
    rw [← get?_declaring id name es, h, get?_declaring]
  · intro h
    have he : (declaring id name es).properties = (declaring id name ds).properties := by
      refine Properties.eq_of_get? fun key => ?_
      rw [get?_declaring, get?_declaring, h]
    rw [declaring_eq, declaring_eq] at he ⊢
    exact congrArg (Identity.mk id name) he

/-- The last value of each key decides the identity that is declared, and its bytes: the entries
stand in the ascending order of the bytes of their keys. In whatever order they stand, the identity
is read; it is so exactly where its entries can be read, and a key that occurs twice is refused,
also if it is not yet the last of the entries that are announced. -/
theorem canonical_encoding :
    (∀ (id : PeerId) (name : String) (es ds : List (String × PropertyValue)),
      (∀ key, Properties.lastValue es key = Properties.lastValue ds key) →
        declaring id name es = declaring id name ds ∧
        (declaring id name es).encode = (declaring id name ds).encode) ∧
    (∀ (id : PeerId) (name : String) (es : List (String × PropertyValue)),
      ∃ entries, (declaring id name es).encode = encodeWith ⟨id, name, .empty⟩ entries ∧
        entries.Pairwise (fun a b => utf8 a.1 < utf8 b.1) ∧
        ∀ key value, (key, value) ∈ entries ↔ Properties.lastValue es key = some value) ∧
    (∀ i : Identity, i.encode = i.encodeWith i.properties.entries ∧
      (i.Sized → ∀ es : List (String × PropertyValue), es.Perm i.properties.entries →
        ∀ rest, decode (i.encodeWith es ++ rest) = .ok (i, rest))) ∧
    (∀ (bs : Bytes) (i : Identity) (rest : Bytes), decode bs = .ok (i, rest) ↔
      ∃ es, readFront es.length bs = .ok ((i.id, i.name, es.length, es), rest) ∧
        es.Perm i.properties.entries) ∧
    ∀ (m : Nat) (bs : Bytes) (id : PeerId) (name : String) (count : Nat)
      (es : List (String × PropertyValue)) (rest : Bytes),
      readFront m bs = .ok ((id, name, count, es), rest) → m ≤ count →
        ¬ (es.map Prod.fst).Nodup →
          ∃ key, 2 ≤ (es.map Prod.fst).count key ∧
            decode bs = .error (.duplicateProperty key) := by
  refine ⟨fun id name es ds h => ?_, fun id name es => ?_,
    fun i => ⟨i.encode_eq, fun hi es hperm => decode_encodeWith hi hperm⟩,
    fun bs i rest => decode_eq_ok_iff, fun m bs id name count es rest => decode_of_repeated⟩
  · have he := (declaring_eq_iff id name es ds).mpr h
    exact ⟨he, congrArg encode he⟩
  · refine ⟨(declaring id name es).properties.entries, ?_,
      (declaring id name es).properties.ordered, fun key value => ?_⟩
    · rw [declaring_eq]
      rfl
    · rw [Properties.mem_entries_iff, get?_declaring]

def repeated : List (String × PropertyValue) :=
  [("b", .int 1), ("a", .bytes []), ("b", .int 9)]

def descending : List (String × PropertyValue) :=
  [("b", .int 9), ("a", .bytes [])]

theorem canonical_encoding_repeated :
    (declaring ⟨5⟩ "n" repeated = declaring ⟨5⟩ "n" descending ∧
      (declaring ⟨5⟩ "n" repeated).encode = (declaring ⟨5⟩ "n" descending).encode) ∧
    (∃ entries, (declaring ⟨5⟩ "n" repeated).encode = encodeWith ⟨⟨5⟩, "n", .empty⟩ entries ∧
      entries.Pairwise (fun a b => utf8 a.1 < utf8 b.1) ∧
      ∀ key value, (key, value) ∈ entries ↔ Properties.lastValue repeated key = some value) ∧
    (declaring ⟨5⟩ "n" repeated).Sized ∧
    descending.Perm (declaring ⟨5⟩ "n" repeated).properties.entries ∧
    (∀ rest, decode ((declaring ⟨5⟩ "n" repeated).encodeWith descending ++ rest) =
      .ok (declaring ⟨5⟩ "n" repeated, rest)) ∧
    readFront 3 (encodeWith ⟨⟨5⟩, "n", .empty⟩ repeated) = .ok ((⟨5⟩, "n", 3, repeated), []) ∧
    ¬ (repeated.map Prod.fst).Nodup ∧
    ∃ key, 2 ≤ (repeated.map Prod.fst).count key ∧
      decode (encodeWith ⟨⟨5⟩, "n", .empty⟩ repeated) = .error (.duplicateProperty key) := by
  have hlast (key : String) :
      Properties.lastValue repeated key = Properties.lastValue descending key := by
    simp only [Properties.lastValue, repeated, descending, List.reverse_cons, List.reverse_nil,
      List.nil_append, List.cons_append, KeyedList.lookup_cons_ite]
    grind
  obtain ⟨hsame, hascending, hany, -, hrepeated⟩ := canonical_encoding
  have hsized : (declaring ⟨5⟩ "n" repeated).Sized := by decide
  have hperm : descending.Perm (declaring ⟨5⟩ "n" repeated).properties.entries := .swap _ _ []
  have hfront :
      readFront 3 (encodeWith ⟨⟨5⟩, "n", .empty⟩ repeated) = .ok ((⟨5⟩, "n", 3, repeated), []) := by
    have hreads : Reads (readFront 3) (encodeWith ⟨⟨5⟩, "n", .empty⟩ repeated) _ :=
      readFront_reads ⟨⟨5⟩, "n", .empty⟩ (by decide) (by decide) (by decide)
    have h := hreads []
    rwa [List.append_nil] at h
  have htwice : ¬ (repeated.map Prod.fst).Nodup := by decide
  exact ⟨hsame ⟨5⟩ "n" repeated descending hlast, hascending ⟨5⟩ "n" repeated, hsized, hperm,
    (hany _).2 hsized descending hperm, hfront, htwice, hrepeated 3 _ _ _ 3 repeated [] hfront
      (Nat.le_refl 3) htwice⟩

end Identity

end PeerMesh

import PeerMesh.Proofs.Acceptance
import PeerMesh.Proofs.Families

namespace PeerMesh

open Reassembler

namespace ChunkCall

def first (calls : List ChunkCall) (k : Nat) : Option ChunkCall :=
  calls.find? fun c => c.chunk.index.toNat = k

/-- The first calls that bring each of `n` chunks, in the order of the indices. -/
def inOrder (n : Nat) (calls : List ChunkCall) : List ChunkCall :=
  (List.range n).filterMap (first calls)

def bytes (n : Nat) (calls : List ChunkCall) : Bytes :=
  (inOrder n calls).flatMap fun c => c.chunk.data

def slots (n : Nat) (calls : List ChunkCall) : List (Option Bytes) :=
  (List.range n).map fun k => (first calls k).map fun c => c.chunk.data

variable {calls : List ChunkCall} {c : ChunkCall} {k n : Nat}

theorem index_of_first (h : first calls k = some c) : c.chunk.index.toNat = k := by
  simpa using List.find?_some h

theorem first_concat (calls : List ChunkCall) (c : ChunkCall) (k : Nat) :
    first (calls ++ [c]) k =
      (first calls k).or (if c.chunk.index.toNat = k then some c else none) := by
  rw [first, List.find?_append, List.find?_singleton]
  simp only [decide_eq_true_eq]
  rfl

@[simp] theorem length_slots (n : Nat) (calls : List ChunkCall) : (slots n calls).length = n := by
  simp [slots]

theorem getElem?_slots (hk : k < n) :
    (slots n calls)[k]? = some ((first calls k).map fun c => c.chunk.data) := by
  simp [slots, hk]

theorem slots_nil (n : Nat) : slots n [] = List.replicate n none := by
  simp [slots, first]

theorem slots_concat_of_vacant (hc : c.chunk.index.toNat < n)
    (h : first calls c.chunk.index.toNat = none) :
    slots n (calls ++ [c]) = (slots n calls).set c.chunk.index.toNat (some c.chunk.data) := by
  apply List.ext_getElem?
  intro k
  by_cases hk : k < n
  · rw [getElem?_slots hk, List.getElem?_set, first_concat]
    by_cases he : c.chunk.index.toNat = k
    · subst he
      simp [h, hc]
    · rw [if_neg he, if_neg he, Option.or_none, getElem?_slots hk]
  · rw [List.getElem?_eq_none (by simpa using hk), List.getElem?_eq_none (by simpa using hk)]

theorem slots_concat_of_filled (h : first calls c.chunk.index.toNat ≠ none) :
    slots n (calls ++ [c]) = slots n calls := by
  apply List.map_congr_left
  intro k _
  rw [first_concat]
  by_cases he : c.chunk.index.toNat = k
  · subst he
    obtain ⟨d, hd⟩ := Option.ne_none_iff_exists'.mp h
    rw [hd, Option.some_or]
  · rw [if_neg he, Option.or_none]

theorem flatMap_slots (n : Nat) (calls : List ChunkCall) :
    (slots n calls).flatMap (·.getD []) = bytes n calls := by
  rw [slots, bytes, inOrder]
  induction List.range n with
  | nil => rfl
  | cons k ks ih =>
    rw [List.map_cons, List.flatMap_cons, ih, List.filterMap_cons]
    cases first calls k with
    | none => rfl
    | some c => rfl

theorem map_index_inOrder (h : (slots n calls).countP Option.isSome = n) :
    (inOrder n calls).map (fun c => c.chunk.index.toNat) = List.range n := by
  have hall : ∀ k ∈ List.range n, ∃ c, first calls k = some c := by
    intro k hk
    have hl : (slots n calls).countP Option.isSome = (slots n calls).length := by simpa using h
    have hs : (slots n calls)[k]? = some ((first calls k).map fun c => c.chunk.data) :=
      getElem?_slots (List.mem_range.mp hk)
    have hm := List.countP_eq_length.mp hl _ (List.mem_of_getElem? hs)
    rw [Option.isSome_map] at hm
    exact Option.isSome_iff_exists.mp hm
  rw [inOrder]
  generalize List.range n = ks at hall
  induction ks with
  | nil => rfl
  | cons k ks ih =>
    obtain ⟨c, hc⟩ := hall k List.mem_cons_self
    rw [List.filterMap_cons, hc, List.map_cons, index_of_first hc,
      ih fun j hj => hall j (List.mem_cons_of_mem k hj)]

end ChunkCall

namespace PartialMessage

/-- What is known of the message is what the accepted chunks tell, and what is held of it are the
first of them of each index. -/
structure Collects (m : PartialMessage) (calls : List ChunkCall) : Prop where
  sender : ∀ c ∈ calls, c.carrier.sender = m.sender
  receiver : ∀ c, calls.head? = some c → c.carrier.receiver = m.receiver
  agree : ∀ c ∈ calls, c.chunk.count = m.count ∧ c.chunk.bodyLength = m.bodyLength
  slots : m.slots = ChunkCall.slots m.count.toNat calls
  received : m.received = m.slots.countP Option.isSome

/-- Some chunks are held, but not all, and no more are expected than a receiver puts up with. -/
structure Sound (m : PartialMessage) : Prop where
  length_slots : m.slots.length = m.count.toNat
  received_pos : 1 ≤ m.received
  received_lt : m.received < m.count.toNat
  received_eq : m.received = m.slots.countP Option.isSome
  count_le : m.count.toNat ≤ min maxChunkCount m.bodyLength.toNat

variable {m : PartialMessage} {calls : List ChunkCall} {c : ChunkCall}

theorem Collects.ofFirst (carrier : Envelope) (c : Chunk) (now : Nat) :
    (PartialMessage.ofFirst carrier c now).Collects [] := by
  refine ⟨nofun, nofun, nofun, (ChunkCall.slots_nil _).symm, ?_⟩
  simp [PartialMessage.ofFirst, List.countP_replicate]

theorem Collects.vacant_iff (h : m.Collects calls) (hi : c.chunk.index.toNat < m.count.toNat) :
    m.slots[c.chunk.index.toNat]? = some none ↔
      ChunkCall.first calls c.chunk.index.toNat = none := by
  rw [h.slots, ChunkCall.getElem?_slots hi, Option.some.injEq, Option.map_eq_none_iff]

theorem Collects.again (h : m.Collects calls) (hc : c.chunk.Fits c.carrier m)
    (hf : ChunkCall.first calls c.chunk.index.toNat ≠ none) : m.Collects (calls ++ [c]) := by
  have hne : calls ≠ [] := by
    rintro rfl
    exact hf rfl
  refine ⟨fun d hd => ?_, fun d hd => ?_, fun d hd => ?_, ?_, h.received⟩
  · obtain hd | hd := List.mem_append.mp hd
    · exact h.sender d hd
    · exact List.mem_singleton.mp hd ▸ hc.1
  · rw [List.head?_append_of_ne_nil _ hne] at hd
    exact h.receiver d hd
  · obtain hd | hd := List.mem_append.mp hd
    · exact h.agree d hd
    · exact List.mem_singleton.mp hd ▸ hc.2
  · rw [h.slots, ChunkCall.slots_concat_of_filled hf]

theorem Collects.add (h : m.Collects calls) (hc : c.chunk.Fits c.carrier m)
    (hi : c.chunk.index.toNat < m.count.toNat)
    (hf : ChunkCall.first calls c.chunk.index.toNat = none)
    (hr : calls = [] → c.carrier.receiver = m.receiver) :
    (m.add c.chunk).Collects (calls ++ [c]) := by
  refine ⟨fun d hd => ?_, fun d hd => ?_, fun d hd => ?_, ?_, ?_⟩
  · obtain hd | hd := List.mem_append.mp hd
    · exact h.sender d hd
    · exact List.mem_singleton.mp hd ▸ hc.1
  · cases calls with
    | nil =>
      obtain rfl : c = d := by simpa using hd
      exact hr rfl
    | cons _ _ => exact h.receiver d hd
  · obtain hd | hd := List.mem_append.mp hd
    · exact h.agree d hd
    · exact List.mem_singleton.mp hd ▸ hc.2
  · show m.slots.set _ _ = _
    rw [h.slots]
    exact (ChunkCall.slots_concat_of_vacant hi hf).symm
  · have hl : c.chunk.index.toNat < m.slots.length := by
      rw [h.slots]
      simpa using hi
    have hv : m.slots[c.chunk.index.toNat] = none := by
      have := (h.vacant_iff hi).mpr hf
      rwa [List.getElem?_eq_getElem hl, Option.some.injEq] at this
    show m.received + 1 = (m.slots.set _ _).countP Option.isSome
    rw [List.countP_set hl, hv, ← h.received]
    rfl

theorem Collects.sound_add {x : Chunk} (h : (m.add x).Collects calls) (hc : ¬ (m.add x).isComplete)
    (hmax : m.count.toNat ≤ min maxChunkCount m.bodyLength.toNat) : (m.add x).Sound := by
  have hl : (m.add x).slots.length = (m.add x).count.toNat := by
    rw [h.slots, ChunkCall.length_slots]
  have hle := List.countP_le_length (p := Option.isSome) (l := (m.add x).slots)
  rw [← h.received, hl] at hle
  have hne : (m.add x).received ≠ (m.add x).count.toNat := by simpa [isComplete] using hc
  exact ⟨hl, Nat.le_add_left 1 m.received, by omega, h.received, hmax⟩

/-- A message that is put together has the sender and the receiver that are known of it, and its
body is all that its chunks make up. -/
theorem of_assemble {e : Envelope} (h : m.assemble = .ok e) :
    e.sender = m.sender ∧ e.receiver = m.receiver ∧
      (m.slots.flatMap (·.getD [])).length = m.bodyLength.toNat ∧
      Body.decode.run (m.slots.flatMap (·.getD [])) = .ok (e.body, []) := by
  unfold assemble at h
  dsimp only at h
  split at h
  · cases h
  · rename_i hl
    split at h
    · cases h
    · rename_i b hd
      cases h
      exact ⟨rfl, rfl, not_ne_iff.mp hl, hd⟩
    · cases h

end PartialMessage

structure Reassembled where
  id : MultiPartId
  message : Envelope
  accepted : List ChunkCall

/-- The message goes back to its chunks: all of them agree, and the first ones of each index make up
its body. -/
structure Reassembled.Justified (d : Reassembled) (count bodyLength : UInt32) : Prop where
  own : ∀ c ∈ d.accepted, c.chunk.id = d.id
  sender : ∀ c ∈ d.accepted, c.carrier.sender = d.message.sender
  agree : ∀ c ∈ d.accepted, c.chunk.count = count ∧ c.chunk.bodyLength = bodyLength
  receiver : ∃ c, d.accepted.head? = some c ∧ c.carrier.receiver = d.message.receiver
  indices : (ChunkCall.inOrder count.toNat d.accepted).map (fun c => c.chunk.index.toNat) =
    List.range count.toNat
  length : (ChunkCall.bytes count.toNat d.accepted).length = bodyLength.toNat
  body : Body.decode.run (ChunkCall.bytes count.toNat d.accepted) = .ok (d.message.body, [])

theorem PartialMessage.Collects.justified {m : PartialMessage} {calls : List ChunkCall}
    (h : m.Collects calls) (hc : m.isComplete) (hne : calls ≠ []) {id : MultiPartId}
    (hid : ∀ c ∈ calls, c.chunk.id = id) {e : Envelope} (he : m.assemble = .ok e) :
    Reassembled.Justified ⟨id, e, calls⟩ m.count m.bodyLength := by
  obtain ⟨hs, hr, hl, hb⟩ := PartialMessage.of_assemble he
  rw [h.slots, ChunkCall.flatMap_slots] at hl hb
  have hn : (ChunkCall.slots m.count.toNat calls).countP Option.isSome = m.count.toNat := by
    rw [← h.slots, ← h.received]
    simpa [isComplete] using hc
  refine ⟨hid, fun c hm => (h.sender c hm).trans hs.symm, h.agree, ?_,
    ChunkCall.map_index_inOrder hn, hl, hb⟩
  have hh := List.head?_eq_some_head hne
  exact ⟨calls.head hne, hh, (h.receiver _ hh).trans hr.symm⟩

inductive Reassembler.Event where
  | chunk (c : ChunkCall)
  | prune (now maxAge : Nat)

def Reassembler.step (r : Reassembler) : Event → Reassembler
  | .chunk c => (r.call c).1
  | .prune now maxAge => r.prune now maxAge

/-- A reassembler with the accepted chunks of each message in progress, in the order in which they
came, and with all that it has given out. -/
structure Ledger where
  reassembler : Reassembler
  accepted : MultiPartId → List ChunkCall
  given : List Reassembled

namespace Ledger

def start : Ledger :=
  ⟨.empty, fun _ => [], []⟩

def retain (r : Reassembler) (accepted : MultiPartId → List ChunkCall) (id : MultiPartId) :
    List ChunkCall :=
  if r.inProgress.contains id then accepted id else []

def acceptedWith (l : Ledger) (c : ChunkCall) (id : MultiPartId) : List ChunkCall :=
  if id = c.chunk.id ∧ l.reassembler.Admits c.now c.carrier c.chunk then l.accepted id ++ [c]
  else l.accepted id

def step (l : Ledger) : Event → Ledger
  | .chunk c =>
    let (r, result) := l.reassembler.call c
    let given := (givenOut result).map fun e => ⟨c.chunk.id, e, l.acceptedWith c c.chunk.id⟩
    ⟨r, retain r (l.acceptedWith c), l.given ++ given.toList⟩
  | .prune now maxAge =>
    let r := l.reassembler.prune now maxAge
    ⟨r, retain r l.accepted, l.given⟩

def run (events : List Event) : Ledger :=
  events.foldl step start

theorem run_concat (events : List Event) (e : Event) :
    run (events ++ [e]) = (run events).step e := by
  rw [run, List.foldl_append]
  rfl

theorem reassembler_step (l : Ledger) (e : Event) :
    (l.step e).reassembler = l.reassembler.step e := by
  cases e with
  | chunk c => rfl
  | prune now maxAge => rfl

theorem reassembler_run (events : List Event) :
    (run events).reassembler = events.foldl Reassembler.step .empty := by
  induction events using List.reverseRecOn with
  | nil => rfl
  | append_singleton events e ih =>
    rw [run_concat, reassembler_step, ih, List.foldl_append]
    rfl

theorem retain_of_get? {r : Reassembler} {id : MultiPartId} {m : PartialMessage}
    (h : r.inProgress.get? id = some m) (accepted : MultiPartId → List ChunkCall) :
    retain r accepted id = accepted id := by
  rw [retain, KeyedList.contains, h, Option.isSome_some, if_pos rfl]

/-- What is recorded of the messages in progress is what is known of them, and what was given out is
justified and will not be given out again. -/
structure Sound (l : Ledger) : Prop where
  held : ∀ id m, l.reassembler.inProgress.get? id = some m →
    m.Sound ∧ m.Collects (l.accepted id) ∧ id ∉ l.reassembler.completed
  own : ∀ id, ∀ c ∈ l.accepted id, c.chunk.id = id
  absent : ∀ id, l.reassembler.inProgress.get? id = none → l.accepted id = []
  given : ∀ d ∈ l.given, d.id ∈ l.reassembler.completed ∧
    ∃ count bodyLength, d.Justified count bodyLength
  nodup : (l.given.map Reassembled.id).Nodup

namespace Sound

variable {l : Ledger}

theorem start : start.Sound :=
  ⟨nofun, nofun, fun _ _ => rfl, nofun, List.nodup_nil⟩

theorem retain {r : Reassembler} {accepted : MultiPartId → List ChunkCall}
    {given : List Reassembled} (held : ∀ id m, r.inProgress.get? id = some m →
      m.Sound ∧ m.Collects (accepted id) ∧ id ∉ r.completed)
    (own : ∀ id, ∀ c ∈ accepted id, c.chunk.id = id)
    (justified : ∀ d ∈ given, d.id ∈ r.completed ∧ ∃ count bodyLength, d.Justified count bodyLength)
    (nodup : (given.map Reassembled.id).Nodup) : Sound ⟨r, Ledger.retain r accepted, given⟩ := by
  refine ⟨fun id m hm => ?_, fun id c hc => ?_, fun id hn => ?_, justified, nodup⟩
  · have hm : r.inProgress.get? id = some m := hm
    dsimp only
    rw [retain_of_get? hm]
    exact held id m hm
  · dsimp only [Ledger.retain] at hc
    split at hc
    · exact own id c hc
    · cases hc
  · have hc : r.inProgress.contains id = false := by
      rw [KeyedList.contains, show r.inProgress.get? id = none from hn]
      rfl
    dsimp only [Ledger.retain]
    rw [hc]
    rfl

theorem own_acceptedWith (h : l.Sound) (c : ChunkCall) (id : MultiPartId) :
    ∀ d ∈ l.acceptedWith c id, d.chunk.id = id := by
  intro d hd
  rw [acceptedWith] at hd
  split at hd
  · rename_i hc
    obtain hd | hd := List.mem_append.mp hd
    · exact h.own id d hd
    · rw [List.mem_singleton.mp hd, hc.1]
  · exact h.own id d hd

theorem collects_entry (h : l.Sound) (c : ChunkCall) :
    (l.reassembler.entry c.now c.carrier c.chunk).Collects (l.accepted c.chunk.id) ∧
      (l.accepted c.chunk.id = [] →
        c.carrier.receiver = (l.reassembler.entry c.now c.carrier c.chunk).receiver) := by
  rw [entry]
  cases hg : l.reassembler.inProgress.get? c.chunk.id with
  | none =>
    rw [h.absent _ hg, Option.getD_none]
    exact ⟨.ofFirst _ _ _, fun _ => rfl⟩
  | some m =>
    obtain ⟨hs, hm, -⟩ := h.held _ _ hg
    refine ⟨hm, fun hn => ?_⟩
    -- something is held, so something was accepted
    have hp := hs.received_pos
    rw [hm.received, hm.slots, hn, ChunkCall.slots_nil] at hp
    simp [List.countP_replicate] at hp

theorem ignore (h : l.Sound) {c : ChunkCall}
    (hv : ¬ (l.reassembler.Admits c.now c.carrier c.chunk ∧
      (l.reassembler.entry c.now c.carrier c.chunk).slots[c.chunk.index.toNat]? = some none)) :
    (l.step (.chunk c)).Sound := by
  obtain ⟨hr, hg⟩ := accept_of_not_vacant hv
  have hs : l.step (.chunk c) =
      ⟨l.reassembler, Ledger.retain l.reassembler (l.acceptedWith c), l.given⟩ := by
    simp [Ledger.step, call, hr, hg]
  rw [hs]
  refine .retain (fun id m hm => ?_) (h.own_acceptedWith c) h.given h.nodup
  obtain ⟨hsound, hcollects, hopen⟩ := h.held id m hm
  refine ⟨hsound, ?_, hopen⟩
  rw [acceptedWith]
  split
  · rename_i hc
    obtain ⟨rfl, ha⟩ := hc
    have he : l.reassembler.entry c.now c.carrier c.chunk = m := by
      rw [entry, hm, Option.getD_some]
    have hfits : c.chunk.Fits c.carrier m := he ▸ ha.2.2
    have hi : c.chunk.index.toNat < m.count.toNat := hfits.2.1 ▸ ha.1.1
    -- an accepted chunk that is not filled in came before
    refine hcollects.again hfits fun hf => hv ⟨ha, ?_⟩
    rw [he]
    exact (hcollects.vacant_iff hi).mpr hf
  · exact hcollects

section Filled

variable {accepted : MultiPartId → List ChunkCall} {id : MultiPartId}
  (other : ∀ id', id' ≠ id → accepted id' = l.accepted id')
  (own : ∀ id, ∀ c ∈ accepted id, c.chunk.id = id)

include other own in
theorem put (h : l.Sound) {m : PartialMessage} (hs : m.Sound) (hc : m.Collects (accepted id))
    (hopen : id ∉ l.reassembler.completed) :
    Sound ⟨⟨l.reassembler.inProgress.put id m, l.reassembler.completed⟩,
      Ledger.retain ⟨l.reassembler.inProgress.put id m, l.reassembler.completed⟩ accepted,
      l.given⟩ := by
  refine .retain (fun id' m' hm => ?_) own h.given h.nodup
  rw [KeyedList.get?_put] at hm
  split at hm
  · rename_i hid
    cases hm
    subst hid
    exact ⟨hs, hc, hopen⟩
  · rename_i hid
    rw [other id' hid]
    exact h.held id' m' hm

include other own in
theorem finish (h : l.Sound) {given : Option Reassembled} (hopen : id ∉ l.reassembler.completed)
    (hd : ∀ d, given = some d → d.id = id ∧ ∃ count bodyLength, d.Justified count bodyLength) :
    Sound ⟨⟨l.reassembler.inProgress.erase id, id :: l.reassembler.completed⟩,
      Ledger.retain ⟨l.reassembler.inProgress.erase id, id :: l.reassembler.completed⟩ accepted,
      l.given ++ given.toList⟩ := by
  refine .retain (fun id' m' hm => ?_) own (fun d hmem => ?_) ?_
  · rw [KeyedList.get?_erase] at hm
    split at hm
    · cases hm
    · rename_i hid
      obtain ⟨hs, hc, hopen'⟩ := h.held id' m' hm
      rw [other id' hid]
      exact ⟨hs, hc, by simp [hid, hopen']⟩
  · obtain hmem | hmem := List.mem_append.mp hmem
    · exact ⟨List.mem_cons_of_mem _ (h.given d hmem).1, (h.given d hmem).2⟩
    · obtain ⟨rfl, hj⟩ := hd d (Option.mem_toList.mp hmem)
      exact ⟨List.mem_cons_self, hj⟩
  · cases given with
    | none => simpa using h.nodup
    | some d =>
      -- what was given out under the id before would have completed it
      have hnew : d.id ∉ l.given.map Reassembled.id := by
        intro hm
        obtain ⟨d', hd', he⟩ := List.mem_map.mp hm
        have hdone := (h.given d' hd').1
        rw [he, (hd d rfl).1] at hdone
        exact hopen hdone
      rw [List.map_append]
      exact h.nodup.append (List.nodup_singleton _) (List.disjoint_singleton.mpr hnew)

end Filled

section Vacant

variable {c : ChunkCall} (ha : l.reassembler.Admits c.now c.carrier c.chunk)
  (hv : (l.reassembler.entry c.now c.carrier c.chunk).slots[c.chunk.index.toNat]? = some none)

include ha hv

/-- With a chunk in a vacant slot, what is held goes back to the chunks accepted before and to this
one. -/
theorem collects_add (h : l.Sound) :
    ((l.reassembler.entry c.now c.carrier c.chunk).add c.chunk).Collects
      (l.acceptedWith c c.chunk.id) := by
  have hown : l.acceptedWith c c.chunk.id = l.accepted c.chunk.id ++ [c] := if_pos ⟨rfl, ha⟩
  obtain ⟨hcollects, hreceiver⟩ := h.collects_entry c
  have hfits := ha.2.2
  have hi : c.chunk.index.toNat < (l.reassembler.entry c.now c.carrier c.chunk).count.toNat :=
    hfits.2.1 ▸ ha.1.1
  rw [hown]
  exact hcollects.add hfits hi ((hcollects.vacant_iff hi).mp hv) hreceiver

theorem fill (h : l.Sound) : (l.step (.chunk c)).Sound := by
  have hown : l.acceptedWith c c.chunk.id = l.accepted c.chunk.id ++ [c] := if_pos ⟨rfl, ha⟩
  have hother : ∀ id, id ≠ c.chunk.id → l.acceptedWith c id = l.accepted id :=
    fun id hid => if_neg fun hc => hid hc.1
  have hcall := accept_of_vacant ha hv
  have hadd := h.collects_add ha hv
  have hfits := ha.2.2
  generalize l.reassembler.entry c.now c.carrier c.chunk = m at hcall hadd hfits
  rw [Ledger.step, call, hcall, Reassembler.fill]
  by_cases hc : (m.add c.chunk).isComplete
  · rw [if_pos hc]
    refine h.finish hother (h.own_acceptedWith c) ha.2.1 fun d hd => ?_
    cases he : (m.add c.chunk).assemble with
    | error e =>
      rw [he] at hd
      cases hd
    | ok e =>
      rw [he] at hd
      cases hd
      exact ⟨rfl, _, _, hadd.justified hc (by simp [hown]) (h.own_acceptedWith c _) he⟩
  · rw [if_neg hc]
    have hmax : m.count.toNat ≤ min maxChunkCount m.bodyLength.toNat :=
      hfits.2.1 ▸ hfits.2.2 ▸ le_min ha.1.2.1 ha.1.2.2
    have hp := h.put hother (h.own_acceptedWith c) (hadd.sound_add hc hmax) hadd ha.2.1
    simpa [givenOut] using hp

end Vacant

theorem chunk (h : l.Sound) (c : ChunkCall) : (l.step (.chunk c)).Sound := by
  by_cases hv : l.reassembler.Admits c.now c.carrier c.chunk ∧
      (l.reassembler.entry c.now c.carrier c.chunk).slots[c.chunk.index.toNat]? = some none
  · exact h.fill hv.1 hv.2
  · exact h.ignore hv

theorem prune (h : l.Sound) (now maxAge : Nat) : (l.step (.prune now maxAge)).Sound := by
  refine .retain (fun id m hm => ?_) h.own h.given h.nodup
  have hg := l.reassembler.inProgress.get?_filter (fun _ m => decide (now - m.started < maxAge)) id
  rw [Reassembler.prune, hg] at hm
  exact h.held id m (Option.filter_eq_some_iff.mp hm).1

theorem step (h : l.Sound) (e : Event) : (l.step e).Sound := by
  cases e with
  | chunk c => exact h.chunk c
  | prune now maxAge => exact h.prune now maxAge

theorem run (events : List Event) : (run events).Sound := by
  induction events using List.reverseRecOn with
  | nil => exact .start
  | append_singleton events e ih =>
    rw [run_concat]
    exact ih.step e

theorem index_lt (h : l.Sound) (c : ChunkCall)
    (ha : l.reassembler.Admits c.now c.carrier c.chunk) : c.chunk.index.toNat <
      (l.reassembler.entry c.now c.carrier c.chunk).slots.length := by
  rw [(h.collects_entry c).1.slots, ChunkCall.length_slots, ← ha.2.2.2.1]
  exact ha.1.1

end Sound

/-- Whatever chunks arrive, in whatever messages, and whenever incomplete messages are discarded: a
message in progress has as many slots as chunks, of which some are filled and counted, but not all,
and was not given out; no chunk is put where there is no slot; no message is given out twice under
one id; and a message that is given out is made up of the first accepted chunks of each index, which
agree with each other and with the message. -/
theorem sound_run (events : List Event) :
    (run events).reassembler = events.foldl Reassembler.step .empty ∧
      (∀ id m, (run events).reassembler.inProgress.get? id = some m →
        m.Sound ∧ id ∉ (run events).reassembler.completed) ∧
      (∀ c : ChunkCall, (run events).reassembler.Admits c.now c.carrier c.chunk →
        c.chunk.index.toNat <
          ((run events).reassembler.entry c.now c.carrier c.chunk).slots.length) ∧
      ((run events).given.map Reassembled.id).Nodup ∧
      ∀ d ∈ (run events).given, ∃ count bodyLength, d.Justified count bodyLength := by
  have h := Sound.run events
  refine ⟨reassembler_run events, fun id m hm => ?_, h.index_lt, h.nodup, fun d hd => ?_⟩
  · obtain ⟨hs, -, hopen⟩ := h.held id m hm
    exact ⟨hs, hopen⟩
  · exact (h.given d hd).2

def foreignChunks (t : Transfer) : List Event :=
  [.chunk ⟨0, t.carrier 1, t.chunk 1⟩, .chunk ⟨1, { t.carrier 0 with sender := ⟨3⟩ }, t.chunk 0⟩,
    .chunk ⟨2, t.carrier 0, { t.chunk 0 with index := 2 }⟩,
    .chunk ⟨3, t.carrier 1, { t.chunk 1 with data := [] }⟩, .prune 4 9,
    .chunk ⟨5, t.carrier 0, t.chunk 0⟩, .chunk ⟨6, t.carrier 0, t.chunk 0⟩]

theorem sound_run_foreignChunks :
    ((run (foreignChunks ⟨⟨⟨1⟩, ⟨2⟩, ⟨⟨7⟩, [1, 2, 3]⟩⟩, 198, ⟨4⟩⟩)).given.map Reassembled.message) =
        [⟨⟨1⟩, ⟨2⟩, ⟨⟨7⟩, [1, 2, 3]⟩⟩] ∧
      ∀ d ∈ (run (foreignChunks ⟨⟨⟨1⟩, ⟨2⟩, ⟨⟨7⟩, [1, 2, 3]⟩⟩, 198, ⟨4⟩⟩)).given,
        ∃ count bodyLength, d.Justified count bodyLength := by
  refine ⟨by decide +kernel, ?_⟩
  exact (sound_run (foreignChunks ⟨⟨⟨1⟩, ⟨2⟩, ⟨⟨7⟩, [1, 2, 3]⟩⟩, 198, ⟨4⟩⟩)).2.2.2.2

end Ledger

end PeerMesh

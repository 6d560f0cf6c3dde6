import PeerMesh.BufferPool

namespace PeerMesh

structure Buffer.IsReady (size : Nat) (b : Buffer) : Prop where
  empty : b.data = []
  roomy : size ≤ b.capacity

theorem Buffer.isReady_clear {size : Nat} {b : Buffer} (h : size ≤ b.capacity) :
    b.clear.IsReady size :=
  ⟨rfl, h⟩

theorem Allocation.isReady_create (a : Allocation) (n : Nat) : (a.create n).IsReady n :=
  ⟨a.data_create n, a.le_capacity_create n⟩

namespace BufferPool

inductive Call where
  | handed (b : Buffer)
  | given (b : Buffer)

structure Return where
  number : Nat
  buffer : Buffer

/-- The returns among calls. Here and below the latest call comes first. -/
def returns : List Call → List Return
  | [] => []
  | .handed _ :: calls => returns calls
  | .given b :: calls => ⟨calls.length, b⟩ :: returns calls

variable {size limit : Nat} {calls : List Call} {r : Return}

theorem number_lt_length (h : r ∈ returns calls) : r.number < calls.length := by
  induction calls with
  | nil => cases h
  | cons c calls ih =>
    cases c with
    | handed b => exact Nat.lt_succ_of_lt (ih h)
    | given b =>
      obtain rfl | h := List.mem_cons.mp h
      · exact Nat.lt_succ_self calls.length
      · exact Nat.lt_succ_of_lt (ih h)

theorem nodup_returns (calls : List Call) : ((returns calls).map Return.number).Nodup := by
  induction calls with
  | nil => exact List.nodup_nil
  | cons c calls ih =>
    cases c with
    | handed b => exact ih
    | given b =>
      refine List.nodup_cons.mpr ⟨fun h => ?_, ih⟩
      obtain ⟨r, hr, hnumber⟩ := List.mem_map.mp h
      exact Nat.ne_of_lt (number_lt_length hr) hnumber

/-- What became of the buffers that were given to a pool. -/
structure Book where
  /-- Those in the pool, the one to be taken next first. -/
  held : List Return := []
  reissued : List Return := []
  discarded : List Return := []

namespace Book

variable {k : Book}

def entries (k : Book) : List Return :=
  k.held ++ k.reissued ++ k.discarded

def reissue (k : Book) : Book :=
  match k.held with
  | [] => k
  | r :: held => { k with held, reissued := r :: k.reissued }

def enter (size limit : Nat) (k : Book) (r : Return) : Book :=
  if size ≤ r.buffer.capacity ∧ k.held.length < limit then { k with held := r :: k.held }
  else { k with discarded := r :: k.discarded }

theorem entries_reissue (k : Book) : k.reissue.entries.Perm k.entries := by
  obtain ⟨held, reissued, discarded⟩ := k
  cases held with
  | nil => exact .refl _
  | cons r held => exact List.perm_middle.append_right discarded

theorem entries_enter (k : Book) (r : Return) :
    (k.enter size limit r).entries.Perm (r :: k.entries) := by
  unfold enter
  split
  · exact .refl _
  · exact List.perm_middle

structure IsSound (size limit : Nat) (k : Book) : Prop where
  roomy : ∀ r ∈ k.held, size ≤ r.buffer.capacity
  length_le : k.held.length ≤ limit

namespace IsSound

theorem empty (size limit : Nat) : IsSound size limit {} :=
  ⟨fun _ hr => (List.not_mem_nil hr).elim, Nat.zero_le limit⟩

theorem reissue (h : k.IsSound size limit) : k.reissue.IsSound size limit := by
  obtain ⟨held, reissued, discarded⟩ := k
  cases held with
  | nil => exact h
  | cons r held =>
    exact ⟨fun r' hr' => h.roomy r' (List.mem_cons_of_mem r hr'), Nat.le_of_succ_le h.length_le⟩

theorem enter (h : k.IsSound size limit) (r : Return) :
    (k.enter size limit r).IsSound size limit := by
  unfold Book.enter
  split
  · rename_i hr
    exact ⟨List.forall_mem_cons.mpr ⟨hr.1, h.roomy⟩, hr.2⟩
  · exact ⟨h.roomy, h.length_le⟩

end IsSound

/-- The buffer is one to be handed out: that of the latest return that is held, without what was in
it, or a new one if none is held. -/
def Issues (size : Nat) (k : Book) (b : Buffer) : Prop :=
  match k.held with
  | [] => b.IsReady size
  | r :: _ => b = r.buffer.clear

theorem IsSound.isReady (h : k.IsSound size limit) {b : Buffer} (hb : k.Issues size b) :
    b.IsReady size := by
  obtain ⟨held, reissued, discarded⟩ := k
  cases held with
  | nil => exact hb
  | cons r held =>
    obtain rfl : b = r.buffer.clear := hb
    exact Buffer.isReady_clear (h.roomy r List.mem_cons_self)

end Book

def book (size limit : Nat) : List Call → Book
  | [] => {}
  | .handed _ :: calls => (book size limit calls).reissue
  | .given b :: calls => (book size limit calls).enter size limit ⟨calls.length, b⟩

theorem entries_book (size limit : Nat) (calls : List Call) :
    (book size limit calls).entries.Perm (returns calls) := by
  induction calls with
  | nil => exact .refl _
  | cons c calls ih =>
    cases c with
    | handed b => exact (Book.entries_reissue _).trans ih
    | given b => exact (Book.entries_enter _ _).trans (ih.cons _)

theorem isSound_book (size limit : Nat) (calls : List Call) :
    (book size limit calls).IsSound size limit := by
  induction calls with
  | nil => exact .empty size limit
  | cons c calls ih =>
    cases c with
    | handed b => exact ih.reissue
    | given b => exact ih.enter _

structure Keeps (size limit : Nat) (p : BufferPool) (k : Book) : Prop where
  bufferSize : p.bufferSize = size
  maxBuffers : p.maxBuffers = limit
  buffers : p.buffers = k.held.map fun r => r.buffer.clear

namespace Keeps

variable {p : BufferPool} {k : Book}

theorem take (h : p.Keeps size limit k) (a : Allocation) :
    (p.take a).1.Keeps size limit k.reissue ∧ k.Issues size (p.take a).2 := by
  obtain ⟨held, reissued, discarded⟩ := k
  unfold BufferPool.take
  rw [h.buffers]
  cases held with
  | nil => exact ⟨h, h.bufferSize ▸ a.isReady_create p.bufferSize⟩
  | cons r held => exact ⟨⟨h.bufferSize, h.maxBuffers, rfl⟩, rfl⟩

theorem give (h : p.Keeps size limit k) (r : Return) :
    (p.give r.buffer).Keeps size limit (k.enter size limit r) := by
  have hlength : p.buffers.length = k.held.length := by rw [h.buffers, List.length_map]
  have hdiscarded : p.Keeps size limit { k with discarded := r :: k.discarded } :=
    ⟨h.bufferSize, h.maxBuffers, h.buffers⟩
  unfold BufferPool.give Book.enter
  rw [hlength, h.bufferSize, h.maxBuffers]
  -- The pool asks for the size first, and the book for both at once.
  by_cases hsize : r.buffer.capacity < size
  · rw [if_pos hsize, if_neg fun hr => Nat.not_le_of_lt hsize hr.1]
    exact hdiscarded
  rw [if_neg hsize]
  by_cases hroom : k.held.length < limit
  · rw [if_pos hroom, if_pos ⟨Nat.le_of_not_lt hsize, hroom⟩]
    exact ⟨rfl, rfl, congrArg (r.buffer.clear :: ·) h.buffers⟩
  · rw [if_neg hroom, if_neg fun hr => hroom hr.2]
    exact hdiscarded

end Keeps

/-- What the users of a pool do. -/
inductive Act where
  | take (a : Allocation)
  | change (i : Nat) (f : Buffer → Buffer)
  | giveBack (i : Nat)
  | giveForeign (b : Buffer)

/-- A pool with its users. -/
structure Lending where
  pool : BufferPool
  /-- The buffers that users have, the one that was taken last first. -/
  out : List Buffer := []
  calls : List Call := []

namespace Lending

def start (size limit : Nat) : Lending :=
  { pool := { bufferSize := size, maxBuffers := limit } }

def take (l : Lending) (a : Allocation) : Lending :=
  let (pool, b) := l.pool.take a
  { pool, out := b :: l.out, calls := .handed b :: l.calls }

def give (l : Lending) (b : Buffer) : Lending :=
  { l with pool := l.pool.give b, calls := .given b :: l.calls }

def step (l : Lending) : Act → Lending
  | .take a => l.take a
  | .change i f => { l with out := l.out.modify i f }
  | .giveBack i =>
    match l.out[i]? with
    | none => l
    | some b => { l with out := l.out.eraseIdx i }.give b
  | .giveForeign b => l.give b

def after (size limit : Nat) (acts : List Act) : Lending :=
  acts.foldl step (start size limit)

/-- The pool keeps to the book, and all that it has handed out so far was to be handed out. -/
structure Follows (size limit : Nat) (l : Lending) : Prop where
  keeps : l.pool.Keeps size limit (book size limit l.calls)
  issues : ∀ b before, .handed b :: before <:+ l.calls → (book size limit before).Issues size b

namespace Follows

variable {l : Lending}

theorem start (size limit : Nat) : (Lending.start size limit).Follows size limit :=
  ⟨⟨rfl, rfl, rfl⟩, fun _ _ h => (List.cons_ne_nil _ _ (List.suffix_nil.mp h)).elim⟩

theorem take (h : l.Follows size limit) (a : Allocation) : (l.take a).Follows size limit := by
  obtain ⟨hkeeps, hissues⟩ := h.keeps.take a
  refine ⟨hkeeps, fun b before hb => ?_⟩
  obtain heq | hb := List.suffix_cons_iff.mp hb
  · cases heq
    exact hissues
  · exact h.issues b before hb

theorem give (h : l.Follows size limit) (b : Buffer) : (l.give b).Follows size limit := by
  refine ⟨h.keeps.give ⟨l.calls.length, b⟩, fun b' before hb' => ?_⟩
  obtain heq | hb' := List.suffix_cons_iff.mp hb'
  · cases heq
  · exact h.issues b' before hb'

theorem step (h : l.Follows size limit) (e : Act) : (l.step e).Follows size limit := by
  cases e with
  | take a => exact h.take a
  | change i f => exact ⟨h.keeps, h.issues⟩
  | giveBack i =>
    rw [Lending.step]
    cases l.out[i]? with
    | none => exact h
    | some b =>
      have hout : { l with out := l.out.eraseIdx i }.Follows size limit := ⟨h.keeps, h.issues⟩
      exact hout.give b
  | giveForeign b => exact h.give b

theorem foldl (h : l.Follows size limit) (acts : List Act) :
    (acts.foldl Lending.step l).Follows size limit := by
  induction acts generalizing l with
  | nil => exact h
  | cons e acts ih => exact ih (h.step e)

end Follows

end Lending

open Lending

/-- Whatever the users of a pool do, with it and with the buffers that they have: there are never
more buffers in the pool than it may have, and those and all that it hands out are empty and large
enough. It hands out the buffer of the latest return that it holds, without what was in it, and
makes a new one only if it holds none. Every return is in the book once: its buffer is held still,
or was handed out again, once for this return, or was discarded. -/
theorem lends_ready_buffers (size limit : Nat) (acts : List Act) :
    let l := after size limit acts
    let k := book size limit l.calls
    (∀ b ∈ l.pool.buffers, b.IsReady size) ∧
      l.pool.buffers.length ≤ limit ∧
      (∀ b, .handed b ∈ l.calls → b.IsReady size) ∧
      l.pool.buffers = k.held.map (fun r => r.buffer.clear) ∧
      (∀ b before, .handed b :: before <:+ l.calls → (book size limit before).Issues size b) ∧
      (k.held ++ k.reissued ++ k.discarded).Perm (returns l.calls) ∧
      ((k.held ++ k.reissued ++ k.discarded).map Return.number).Nodup := by
  intro l k
  have h : l.Follows size limit := (Follows.start size limit).foldl acts
  have hk : k.IsSound size limit := isSound_book size limit l.calls
  have hentries : k.entries.Perm (returns l.calls) := entries_book size limit l.calls
  refine ⟨fun b hb => ?_, ?_, fun b hb => ?_, h.keeps.buffers, h.issues, hentries,
    (hentries.map Return.number).nodup_iff.mpr (nodup_returns l.calls)⟩
  · rw [h.keeps.buffers] at hb
    obtain ⟨r, hr, rfl⟩ := List.mem_map.mp hb
    exact Buffer.isReady_clear (hk.roomy r hr)
  · rw [h.keeps.buffers, List.length_map]
    exact hk.length_le
  · obtain ⟨later, before, hcalls⟩ := List.append_of_mem hb
    exact (isSound_book size limit before).isReady (h.issues b before ⟨later, hcalls.symm⟩)

def takesAndReturns : List Act :=
  [.take .exact, .change 0 (·.append [1, 2, 3, 4, 5, 6]), .giveBack 0, .giveForeign ⟨[7], 3⟩,
    .giveForeign ⟨[8], 9⟩, .giveForeign ⟨[], 5⟩, .take .exact, .take .exact,
    .take ⟨fun n => ⟨[], n + 3⟩, fun _ => rfl, fun n => Nat.le_add_right n 3⟩, .giveBack 1]

theorem lends_ready_buffers_takesAndReturns :
    let l := after 4 2 takesAndReturns
    let k := book 4 2 l.calls
    l.pool.buffers = [⟨[], 6⟩] ∧ l.out = [⟨[], 7⟩, ⟨[], 9⟩] ∧
      (∀ b ∈ l.pool.buffers, b.IsReady 4) ∧
      k.held.map Return.number = [8] ∧ k.reissued.map Return.number = [1, 3] ∧
      k.discarded.map Return.number = [4, 2] ∧
      (k.held ++ k.reissued ++ k.discarded).Perm (returns l.calls) := by
  intro l k
  obtain ⟨hready, -, -, -, -, hplaces, -⟩ := lends_ready_buffers 4 2 takesAndReturns
  exact ⟨by decide, by decide, hready, by decide, by decide, by decide, hplaces⟩

end BufferPool

end PeerMesh

import PeerMesh.Proofs.Ledger

namespace PeerMesh

namespace Reassembler

/-- Two reassemblers know the same of the message with an id. -/
structure AgreeOn (id : MultiPartId) (r r' : Reassembler) : Prop where
  inProgress : r'.inProgress.get? id = r.inProgress.get? id
  completed : id ∈ r'.completed ↔ id ∈ r.completed

def Event.Concerns (id : MultiPartId) : Event → Prop
  | .chunk c => c.chunk.id = id
  | .prune _ _ => True

instance (id : MultiPartId) : (e : Event) → Decidable (e.Concerns id)
  | .chunk c => inferInstanceAs (Decidable (c.chunk.id = id))
  | .prune _ _ => inferInstanceAs (Decidable True)

def answers (id : MultiPartId) (r : Reassembler) :
    List Event → List (Except ChunkError (Option Envelope))
  | [] => []
  | .chunk c :: events =>
    if c.chunk.id = id then (r.call c).2 :: answers id (r.call c).1 events
    else answers id (r.call c).1 events
  | .prune now maxAge :: events => answers id (r.prune now maxAge) events

variable {r r' : Reassembler} {id : MultiPartId} {c : ChunkCall}

namespace AgreeOn

theorem refl (id : MultiPartId) (r : Reassembler) : AgreeOn id r r :=
  ⟨rfl, Iff.rfl⟩

theorem fill (h : AgreeOn c.chunk.id r r') (m : PartialMessage) :
    (r'.fill m c.chunk).2 = (r.fill m c.chunk).2 ∧
      AgreeOn c.chunk.id (r.fill m c.chunk).1 (r'.fill m c.chunk).1 := by
  rw [Reassembler.fill, Reassembler.fill]
  split
  · refine ⟨rfl, ?_, ?_⟩
    · rw [KeyedList.get?_erase, KeyedList.get?_erase, if_pos rfl, if_pos rfl]
    · exact iff_of_true List.mem_cons_self List.mem_cons_self
  · refine ⟨rfl, ?_, h.completed⟩
    rw [KeyedList.get?_put, KeyedList.get?_put, if_pos rfl, if_pos rfl]

theorem call_own (h : AgreeOn c.chunk.id r r') :
    (r'.call c).2 = (r.call c).2 ∧ AgreeOn c.chunk.id (r.call c).1 (r'.call c).1 := by
  simp only [call, accept, h.inProgress, h.completed]
  split
  · exact ⟨rfl, h⟩
  · split
    · exact ⟨rfl, h⟩
    · split
      · exact ⟨rfl, h⟩
      · split
        · exact h.fill _
        · exact ⟨rfl, h⟩

theorem call_other (h : AgreeOn id r r') (hc : c.chunk.id ≠ id) :
    AgreeOn id (r.call c).1 r' := by
  obtain ⟨hp, hd⟩ := r.accept_frame c.now c.carrier (Ne.symm hc)
  exact ⟨h.inProgress.trans hp.symm, h.completed.trans hd.symm⟩

theorem prune (h : AgreeOn id r r') (now maxAge : Nat) :
    AgreeOn id (r.prune now maxAge) (r'.prune now maxAge) := by
  refine ⟨?_, h.completed⟩
  rw [Reassembler.prune, Reassembler.prune, KeyedList.get?_filter, KeyedList.get?_filter,
    h.inProgress]

/-- Chunks of other messages make no difference. -/
theorem run (h : AgreeOn id r r') (events : List Event) :
    answers id r' (events.filter (·.Concerns id)) = answers id r events ∧
      AgreeOn id (events.foldl step r) ((events.filter (·.Concerns id)).foldl step r') := by
  induction events generalizing r r' with
  | nil => exact ⟨rfl, h⟩
  | cons e events ih =>
    cases e with
    | prune now maxAge => exact ih (h.prune now maxAge)
    | chunk c =>
      by_cases hc : c.chunk.id = id
      · subst hc
        have hconcerns : (Event.chunk c).Concerns c.chunk.id := rfl
        obtain ⟨hresult, hagree⟩ := h.call_own
        obtain ⟨hanswers, hrest⟩ := ih hagree
        rw [List.filter_cons_of_pos (by simpa using hconcerns)]
        refine ⟨?_, hrest⟩
        rw [answers, answers, if_pos rfl, if_pos rfl, hresult, hanswers]
      · have hconcerns : ¬ (Event.chunk c).Concerns id := hc
        rw [List.filter_cons_of_neg (by simpa using hconcerns), answers, if_neg hc]
        exact ih (h.call_other hc)

end AgreeOn

/-- Whatever arrives, with whatever ids, and whenever old messages are discarded: the results of the
calls with chunks with one id, what is there of its message in the end and whether that is complete
are the same as if no chunks with other ids had come. -/
theorem isolated (r : Reassembler) (id : MultiPartId) (events : List Event) :
    let all := events.foldl step r
    let own := (events.filter (·.Concerns id)).foldl step r
    answers id r (events.filter (·.Concerns id)) = answers id r events ∧
      own.inProgress.get? id = all.inProgress.get? id ∧
      (id ∈ own.completed ↔ id ∈ all.completed) := by
  obtain ⟨hanswers, hagree⟩ := (AgreeOn.refl id r).run events
  exact ⟨hanswers, hagree.inProgress, hagree.completed⟩

def interleaved : List Event :=
  let t : Transfer := ⟨⟨⟨1⟩, ⟨2⟩, ⟨⟨7⟩, [1, 2, 3]⟩⟩, 198, ⟨4⟩⟩
  let u : Transfer := ⟨⟨⟨3⟩, ⟨2⟩, ⟨⟨8⟩, [4, 5, 6, 7]⟩⟩, 196, ⟨5⟩⟩
  [.chunk ⟨0, u.carrier 3, u.chunk 3⟩, .chunk ⟨1, t.carrier 1, t.chunk 1⟩,
    .chunk ⟨2, t.carrier 0, u.chunk 0⟩, .prune 5 4, .chunk ⟨5, u.carrier 0, u.chunk 0⟩,
    .prune 6 5, .chunk ⟨7, t.carrier 1, t.chunk 1⟩, .chunk ⟨8, u.carrier 1, u.chunk 1⟩,
    .chunk ⟨9, t.carrier 0, t.chunk 0⟩]

theorem isolated_interleaved :
    answers ⟨4⟩ empty (interleaved.filter (·.Concerns ⟨4⟩)) =
        [.ok none, .ok none, .ok (some ⟨⟨1⟩, ⟨2⟩, ⟨⟨7⟩, [1, 2, 3]⟩⟩)] ∧
      ⟨4⟩ ∈ ((interleaved.filter (·.Concerns ⟨4⟩)).foldl step empty).completed := by
  obtain ⟨hanswers, -, hcompleted⟩ := isolated empty ⟨4⟩ interleaved
  exact ⟨hanswers.trans (by decide +kernel), hcompleted.mpr (by decide +kernel)⟩

def enter (r : Reassembler) (c : ChunkCall) : Reassembler :=
  { r with inProgress := r.inProgress.put c.chunk.id (r.entry c.now c.carrier c.chunk) }

/-- Takes a chunk as `call` does, but enters its message first and compares the chunk with it
then. -/
def callEntered (r : Reassembler) (c : ChunkCall) :
    Reassembler × Except ChunkError (Option Envelope) :=
  match checkPlausible c.chunk with
  | .error e => (r, .error e)
  | .ok () =>
    if c.chunk.id ∈ r.completed then (r, .ok none)
    else
      let m := r.entry c.now c.carrier c.chunk
      match checkMatch m c.carrier c.chunk with
      | .error e => (r.enter c, .error e)
      | .ok () =>
        match m.slots[c.chunk.index.toNat]? with
        | some none => (r.enter c).fill m c.chunk
        | _ => (r.enter c, .ok none)

theorem enter_of_get? {m : PartialMessage} (h : r.inProgress.get? c.chunk.id = some m) :
    r.enter c = r := by
  rw [enter, entry, h, Option.getD_some, KeyedList.put_of_get? h]

theorem fill_enter (r : Reassembler) (c : ChunkCall) (m : PartialMessage) :
    (r.enter c).fill m c.chunk = r.fill m c.chunk := by
  rw [fill, fill, enter]
  simp only [KeyedList.erase_put, KeyedList.put_put]

/-- No chunk is rejected after its message was entered for it, as it agrees with what it says
itself. -/
theorem callEntered_eq (r : Reassembler) (c : ChunkCall) : r.callEntered c = r.call c := by
  rw [callEntered, call, accept]
  cases hp : checkPlausible c.chunk with
  | error e => rfl
  | ok u =>
    have hlt : c.chunk.index.toNat < c.chunk.count.toNat :=
      ((checkPlausible_eq_ok_iff _).mp hp).1
    dsimp only
    split
    · rfl
    · cases hg : r.inProgress.get? c.chunk.id with
      | some m =>
        have hentry : r.entry c.now c.carrier c.chunk = m := by
          simp only [entry, hg, Option.getD_some]
        simp only [enter_of_get? hg, hentry]
        rfl
      | none =>
        have hmatch : checkMatch (.ofFirst c.carrier c.chunk c.now) c.carrier c.chunk = .ok () :=
          (checkMatch_eq_ok_iff _ _ _).mpr ⟨rfl, rfl, rfl⟩
        have hslot : (PartialMessage.ofFirst c.carrier c.chunk c.now).slots[c.chunk.index.toNat]? =
            some none := List.getElem?_replicate_of_lt hlt
        simp only [entry, hg, Option.getD_none, hmatch, hslot, fill_enter]

def IsLastMissing (r : Reassembler) (c : ChunkCall) : Prop :=
  let m := r.entry c.now c.carrier c.chunk
  m.slots[c.chunk.index.toNat]? = some none ∧
    ∀ k < m.count.toNat, k ≠ c.chunk.index.toNat → ∃ data, m.slots[k]? = some (some data)

theorem isLastMissing_of_complete {calls : List ChunkCall}
    (hv : (r.entry c.now c.carrier c.chunk).slots[c.chunk.index.toNat]? = some none)
    (hcollects : ((r.entry c.now c.carrier c.chunk).add c.chunk).Collects calls)
    (hcomplete : ((r.entry c.now c.carrier c.chunk).add c.chunk).isComplete) :
    r.IsLastMissing c := by
  refine ⟨hv, fun k hk hne => ?_⟩
  generalize r.entry c.now c.carrier c.chunk = m at hcollects hcomplete hk
  have hreceived : (m.add c.chunk).received = m.count.toNat := of_decide_eq_true hcomplete
  have hlength : (m.add c.chunk).slots.length = m.count.toNat := by
    rw [hcollects.slots, ChunkCall.length_slots]
    rfl
  -- as many slots are filled as there are
  have hall := List.countP_eq_length.mp
    (hcollects.received.symm.trans (hreceived.trans hlength.symm))
  have hlt : k < (m.add c.chunk).slots.length := hlength ▸ hk
  obtain ⟨data, hdata⟩ := Option.isSome_iff_exists.mp (hall _ (List.getElem_mem hlt))
  refine ⟨data, ?_⟩
  have hslot : (m.slots.set c.chunk.index.toNat (some c.chunk.data))[k]? = some (some data) :=
    (List.getElem?_eq_getElem hlt).trans (congrArg some hdata)
  rwa [List.getElem?_set_ne (Ne.symm hne)] at hslot

theorem mem_completed_step (h : id ∈ r.completed) (e : Event) : id ∈ (r.step e).completed := by
  cases e with
  | prune now maxAge => exact h
  | chunk c =>
    rw [step, call]
    by_cases hv : r.Admits c.now c.carrier c.chunk ∧
        (r.entry c.now c.carrier c.chunk).slots[c.chunk.index.toNat]? = some none
    · rw [accept_of_vacant hv.1 hv.2, fill]
      split
      · exact List.mem_cons_of_mem _ h
      · exact h
    · rwa [(accept_of_not_vacant hv).1]

theorem mem_completed_run (h : id ∈ r.completed) (events : List Event) :
    id ∈ (events.foldl step r).completed := by
  induction events generalizing r with
  | nil => exact h
  | cons e events ih => exact ih (mem_completed_step h e)

theorem call_of_completed (hp : c.chunk.Plausible) (h : c.chunk.id ∈ r.completed) :
    r.call c = (r, .ok none) := by
  rw [call, accept, (checkPlausible_eq_ok_iff _).mpr hp]
  exact if_pos h

/-- The message of a chunk is over without having been given out: its entry is gone and no other,
its id is complete and no other has become so, and whatever happens later, further chunks of it that
do not contradict themselves are ignored. -/
structure IsOver (r r' : Reassembler) (id : MultiPartId) : Prop where
  pending : id ∉ r.completed
  inProgress : ∀ id', r'.inProgress.get? id' = if id' = id then none else r.inProgress.get? id'
  completed : ∀ id', id' ∈ r'.completed ↔ id' = id ∨ id' ∈ r.completed
  ignored : ∀ (later : List Event) (d : ChunkCall), d.chunk.id = id → d.chunk.Plausible →
    (later.foldl step r').call d = (later.foldl step r', .ok none)

theorem isOver_complete (h : id ∉ r.completed) :
    IsOver r ⟨r.inProgress.erase id, id :: r.completed⟩ id := by
  refine ⟨h, r.inProgress.get?_erase id, fun id' => List.mem_cons, fun later d hid hp => ?_⟩
  exact call_of_completed hp (mem_completed_run (hid ▸ List.mem_cons_self) later)

/-- Whatever has arrived and was discarded before, and also if the message of a chunk is entered
before the chunk is compared with it: a chunk that is rejected leaves all as it was, unless it is
the last missing one of its message and what the chunks make up is rejected; then that message is
over. -/
theorem rejected_without_trace (events : List Event) (c : ChunkCall) (e : ChunkError)
    (he : ((events.foldl step empty).callEntered c).2 = .error e) :
    let r := events.foldl step empty
    let r' := (r.callEntered c).1
    r.callEntered c = r.call c ∧
      (r' = r ∨
        r.IsLastMissing c ∧ ((r.entry c.now c.carrier c.chunk).add c.chunk).assemble = .error e ∧
          r.IsOver r' c.chunk.id) := by
  have hsound := Ledger.Sound.run events
  rw [← Ledger.reassembler_run events] at he ⊢
  generalize Ledger.run events = l at he hsound
  intro r r'
  have hcall := r.callEntered_eq c
  refine ⟨hcall, ?_⟩
  by_cases hv : r.Admits c.now c.carrier c.chunk ∧
      (r.entry c.now c.carrier c.chunk).slots[c.chunk.index.toNat]? = some none
  · right
    obtain ⟨hadmits, hvacant⟩ := hv
    have hfill : r.callEntered c = r.fill (r.entry c.now c.carrier c.chunk) c.chunk :=
      hcall.trans (accept_of_vacant hadmits hvacant)
    have hcollects := hsound.collects_add hadmits hvacant
    rw [hfill, fill] at he
    -- only the message that it completes can be rejected for an admitted chunk
    by_cases hc : ((r.entry c.now c.carrier c.chunk).add c.chunk).isComplete
    · have hr' : r' = ⟨r.inProgress.erase c.chunk.id, c.chunk.id :: r.completed⟩ := by
        show (r.callEntered c).1 = _
        rw [hfill, fill, if_pos hc]
      rw [if_pos hc] at he
      refine ⟨isLastMissing_of_complete hvacant hcollects hc, ?_, ?_⟩
      · cases ha : ((r.entry c.now c.carrier c.chunk).add c.chunk).assemble with
        | ok m => rw [ha] at he; cases he
        | error e' => rw [ha] at he; cases he; rfl
      · rw [hr']
        exact isOver_complete hadmits.2.1
    · rw [if_neg hc] at he
      cases he
  · left
    show (r.callEntered c).1 = r
    rw [hcall]
    exact (accept_of_not_vacant hv).1

def halfway : List Event :=
  let t : Transfer := ⟨⟨⟨1⟩, ⟨2⟩, ⟨⟨7⟩, [1, 2, 3]⟩⟩, 198, ⟨4⟩⟩
  [.chunk ⟨0, t.carrier 1, t.chunk 1⟩]

def withoutData : ChunkCall :=
  let t : Transfer := ⟨⟨⟨1⟩, ⟨2⟩, ⟨⟨7⟩, [1, 2, 3]⟩⟩, 198, ⟨4⟩⟩
  ⟨1, t.carrier 0, { t.chunk 0 with data := [] }⟩

theorem rejected_without_trace_withoutData :
    let r := halfway.foldl step empty
    (r.callEntered withoutData).2 = .error (.wrongLength 6 12) ∧ r.IsLastMissing withoutData ∧
      r.IsOver (r.callEntered withoutData).1 ⟨4⟩ := by
  intro r
  have he : (r.callEntered withoutData).2 = .error (.wrongLength 6 12) := by decide +kernel
  obtain ⟨-, h | ⟨hlast, -, hover⟩⟩ := rejected_without_trace halfway withoutData _ he
  · exact absurd (congrArg Reassembler.completed h) (by decide +kernel)
  · exact ⟨he, hlast, hover⟩

end Reassembler

end PeerMesh

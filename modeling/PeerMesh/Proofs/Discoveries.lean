import Mathlib.Data.List.Induction
import PeerMesh.Proofs.Peers

namespace PeerMesh

def PeerEvent.peer : PeerEvent → PeerId
  | discovered p => p
  | updated p => p

section Learning

variable {τ : Type}

def Peer.learn (p : Peer τ) (i : Identity) : Peer τ × Option PeerEvent × List τ :=
  if p.identity = some i then (p, none, [])
  else ({ identity := some i, discovery := p.discovery.set.1 },
    some (if p.discovery.isSet then .updated i.id else .discovered i.id), p.discovery.set.2)

namespace PeerTable

variable {t : PeerTable τ}

def publishAll (t : PeerTable τ) (es : List PeerEvent) : PeerTable τ :=
  es.foldl publish t

theorem putPeer_getOrNew {p : PeerId} (h : (t.identity? p).isSome) :
    t.putPeer p (t.getOrNew p) = t := by
  cases ha : t.get? p with
  | none =>
    rw [identity?, ha] at h
    cases h
  | some a => rw [putPeer, getOrNew, ha, Option.getD_some, KeyedList.put_of_get? ha]

/-- The table takes an identity to the context of the peer. -/
theorem update_eq (t : PeerTable τ) (i : Identity) :
    t.update i =
      ⟨(t.putPeer i.id ((t.getOrNew i.id).learn i).1).publishAll
          ((t.getOrNew i.id).learn i).2.1.toList,
        ((t.getOrNew i.id).learn i).2.1, ((t.getOrNew i.id).learn i).2.2⟩ := by
  have hset := (t.getOrNew i.id).isSet_eq
  rw [Peer.learn]
  unfold update
  dsimp only
  split
  · rename_i hnone
    rw [hnone] at hset
    rw [hnone, if_neg (Option.some_ne_none i).symm, hset]
    rfl
  · rename_i old hold
    rw [hold] at hset
    split
    · rename_i he
      have hsome : (t.identity? i.id).isSome := by rw [identity?_eq, hold]; rfl
      rw [hold, if_pos (congrArg some he)]
      dsimp only
      rw [putPeer_getOrNew hsome]
      rfl
    · rename_i hne
      rw [hold, if_neg fun he => hne (Option.some.inj he), hset]
      rfl

def eventOf (known : Option Identity) (i : Identity) : Option PeerEvent :=
  match known with
  | none => some (.discovered i.id)
  | some old => if i = old then none else some (.updated i.id)

theorem event_update (t : PeerTable τ) (i : Identity) :
    (t.update i).event = eventOf (t.identity? i.id) i := by
  have hset := (t.getOrNew i.id).isSet_eq
  rw [update_eq, Peer.learn, identity?_eq]
  cases hknown : (t.getOrNew i.id).identity with
  | none =>
    rw [hknown] at hset
    rw [if_neg (Option.some_ne_none i).symm, hset]
    rfl
  | some old =>
    rw [hknown] at hset
    rw [eventOf, hset]
    by_cases he : i = old
    · rw [if_pos (congrArg some he.symm), if_pos he]
    · rw [if_neg fun h => he (Option.some.inj h).symm, if_neg he]
      rfl

theorem feeds_update (t : PeerTable τ) (i : Identity) : (t.update i).table.feeds =
    t.feeds.map fun f => (t.update i).event.toList.foldl Feed.push f := by
  rw [update_eq]
  cases ((t.getOrNew i.id).learn i).2.1 with
  | none => exact (List.map_id' t.feeds).symm
  | some e => rfl

theorem keys_update (t : PeerTable τ) (i : Identity) : (t.update i).table.peers.keys =
    (t.peers.put i.id ((t.getOrNew i.id).learn i).1).keys := by
  rw [update_eq]
  cases ((t.getOrNew i.id).learn i).2.1 with
  | none => rfl
  | some e => rfl

end PeerTable

end Learning

namespace PeerTable

/-- A call of a table of peers, or time that passes. -/
inductive Call where
  | add (peer : PeerId)
  | update (identity : Identity)
  | wait (peer : PeerId) (timeout : Option Nat)
  | pass (time : Nat)
  | subscribe

namespace Call

def peer? : Call → Option PeerId
  | add p => some p
  | update i => some i.id
  | wait p _ => some p
  | pass _ => none
  | subscribe => none

def identity? : Call → Option Identity
  | update i => some i
  | _ => none

def duration : Call → Nat
  | pass time => time
  | _ => 0

def isWait : Call → Bool
  | wait _ _ => true
  | _ => false

def isSubscribe : Call → Bool
  | subscribe => true
  | _ => false

end Call

/-- A table of peers at a time, and what has come of the calls so far. Waits are numbered in the
order in which they begin. -/
structure Course where
  table : PeerTable Nat := .empty
  now : Nat := 0
  begun : Nat := 0
  events : List PeerEvent := []
  ended : List (Nat × Bool) := []

namespace Course

def step (c : Course) : Call → Course
  | .add p => { c with table := c.table.add p }
  | .update i =>
    let u := c.table.update i
    { c with
      table := u.table
      events := c.events ++ u.event.toList
      ended := c.ended ++ u.released.map (·, true) }
  | .wait p timeout =>
    let w := c.table.wait c.now p ⟨c.begun, timeout.map (c.now + ·)⟩
    { c with
      table := w.1
      begun := c.begun + 1
      ended := c.ended ++ w.2.toList.map (c.begun, ·) }
  | .pass time =>
    let e := c.table.expire (c.now + time)
    { c with table := e.1, now := c.now + time, ended := c.ended ++ e.2.map (·, false) }
  | .subscribe => { c with table := c.table.subscribe.1 }

def later (c : Course) (calls : List Call) : Course :=
  calls.foldl step c

end Course

def course (calls : List Call) : Course :=
  Course.later {} calls

def identities (calls : List Call) : List Identity :=
  calls.filterMap Call.identity?

/-- The context of the peer is the one with the number `k`. -/
def IsContext (t : PeerTable Nat) (p : PeerId) (k : Nat) : Prop :=
  t.peers.keys[k]? = some p

theorem course_concat (calls : List Call) (c : Call) :
    course (calls ++ [c]) = (course calls).step c := by
  rw [course, Course.later, List.foldl_append]
  rfl

theorem course_append (front back : List Call) :
    course (front ++ back) = (course front).later back :=
  List.foldl_append

theorem later_concat (x : Course) (calls : List Call) (c : Call) :
    x.later (calls ++ [c]) = (x.later calls).step c := by
  rw [Course.later, List.foldl_append]
  rfl

theorem identities_append (front back : List Call) :
    identities (front ++ back) = identities front ++ identities back :=
  List.filterMap_append

section Knowledge

theorem keys_step (x : Course) (c : Call) : (x.step c).table.peers.keys =
    match c.peer? with
    | some p => if p ∈ x.table.peers.keys then x.table.peers.keys else x.table.peers.keys ++ [p]
    | none => x.table.peers.keys := by
  cases c with
  | add p => exact x.table.peers.keys_put p _
  | update i => exact (x.table.keys_update i).trans (x.table.peers.keys_put i.id _)
  | wait p timeout => exact x.table.peers.keys_put p _
  | pass time =>
    show (x.table.peers.entries.map _).map Prod.fst = _
    rw [List.map_map]
    rfl
  | subscribe => rfl

theorem keys_isPrefix_step (x : Course) (c : Call) :
    x.table.peers.keys <+: (x.step c).table.peers.keys := by
  rw [keys_step]
  split
  · split
    · exact List.prefix_rfl
    · exact List.prefix_append _ _
  · exact List.prefix_rfl

theorem keys_isPrefix_later (x : Course) (calls : List Call) :
    x.table.peers.keys <+: (x.later calls).table.peers.keys := by
  induction calls using List.reverseRecOn with
  | nil => exact List.prefix_rfl
  | append_singleton calls c ih =>
    rw [later_concat]
    exact ih.trans (keys_isPrefix_step _ c)

theorem mem_keys_course (calls : List Call) (p : PeerId) :
    p ∈ (course calls).table.peers.keys ↔ ∃ c ∈ calls, c.peer? = some p := by
  induction calls using List.reverseRecOn with
  | nil => exact iff_of_false List.not_mem_nil (by simp)
  | append_singleton calls c ih =>
    have hconcat : (∃ d ∈ calls ++ [c], d.peer? = some p) ↔
        p ∈ (course calls).table.peers.keys ∨ c.peer? = some p := by
      simp only [List.mem_append, List.mem_singleton, or_and_right, exists_or, exists_eq_left, ih]
    rw [hconcat, course_concat, keys_step]
    cases hc : c.peer? with
    | none => simp
    | some q =>
      dsimp only
      rw [Option.some_inj]
      split
      · rename_i hq
        exact ⟨.inl, fun h => h.elim id fun he => he ▸ hq⟩
      · rw [List.mem_append, List.mem_singleton, eq_comm (a := p)]

theorem IsContext.later {front : List Call} {p : PeerId} {k : Nat}
    (h : (course front).table.IsContext p k) (back : List Call) :
    (course (front ++ back)).table.IsContext p k := by
  obtain ⟨more, hmore⟩ := keys_isPrefix_later (course front) back
  rw [IsContext, course_append, ← hmore, List.getElem?_append_left, h]
  exact (List.getElem?_eq_some_iff.mp h).1

theorem exists_isContext_iff (calls : List Call) (p : PeerId) :
    (∃ k, (course calls).table.IsContext p k) ↔ ∃ c ∈ calls, c.peer? = some p := by
  rw [← mem_keys_course, List.mem_iff_getElem?]
  rfl

theorem IsContext.unique {t : PeerTable Nat} {p : PeerId} {k l : Nat} (hk : t.IsContext p k)
    (hl : t.IsContext p l) : k = l := by
  have hlt := (List.getElem?_eq_some_iff.mp hk).1
  exact (List.getElem?_inj hlt t.peers.nodup).mp (hk.trans hl.symm)

theorem IsContext.get? {t : PeerTable Nat} {p : PeerId} {k : Nat} (h : t.IsContext p k) :
    ∃ a, t.peers.entries[k]? = some (p, a) ∧ t.get? p = some a ∧
      a.discovery.isSet = t.isDiscovered p := by
  rw [IsContext, KeyedList.keys, List.getElem?_map, Option.map_eq_some_iff] at h
  obtain ⟨⟨q, a⟩, ha, rfl⟩ := h
  have hget : t.get? q = some a :=
    (t.peers.get?_eq_some_iff q a).mpr (List.mem_of_getElem? ha)
  refine ⟨a, ha, hget, ?_⟩
  rw [a.isSet_eq, isDiscovered, identity?, hget]
  rfl

theorem identity?_course (calls : List Call) (p : PeerId) :
    (course calls).table.identity? p = latest (identities calls) p := by
  induction calls using List.reverseRecOn with
  | nil => rfl
  | append_singleton calls c ih =>
    rw [course_concat, identities_append, latest_append, ← ih]
    cases c with
    | add q => exact (course calls).table.identity?_add q p
    | update i =>
      have hone : latest (identities [.update i]) p = if p = i.id then some i else none :=
        latest_cons i [] p
      rw [hone]
      refine (identity?_update _ i p).trans ?_
      split
      · rfl
      · rfl
    | wait q timeout => exact identity?_wait _ _ q _ p
    | pass time => exact identity?_expire _ _ p
    | subscribe => rfl

theorem latest_isSome_iff (calls : List Call) (p : PeerId) :
    (latest (identities calls) p).isSome ↔ ∃ i, .update i ∈ calls ∧ i.id = p := by
  rw [latest, List.getLast?_isSome]
  constructor
  · intro h
    obtain ⟨i, hi⟩ := List.exists_mem_of_ne_nil _ h
    obtain ⟨hi, hp⟩ := List.mem_filter.mp hi
    obtain ⟨c, hc, hi⟩ := List.mem_filterMap.mp hi
    cases c with
    | update j =>
      cases hi
      exact ⟨i, hc, of_decide_eq_true hp⟩
    | add _ | wait _ _ | pass _ | subscribe => cases hi
  · rintro ⟨i, hc, hp⟩
    exact List.ne_nil_of_mem (List.mem_filter.mpr
      ⟨List.mem_filterMap.mpr ⟨.update i, hc, rfl⟩, decide_eq_true hp⟩)

theorem isDiscovered_course (calls : List Call) (p : PeerId) :
    (course calls).table.isDiscovered p ↔ ∃ i, .update i ∈ calls ∧ i.id = p := by
  rw [isDiscovered, identity?_course, latest_isSome_iff]

theorem mem_discovered_iff (t : PeerTable Nat) (p : PeerId) (i : Identity) :
    (p, i) ∈ t.discovered ↔ t.identity? p = some i := by
  rw [discovered, List.mem_mergeSort, List.mem_filterMap, identity?, Option.bind_eq_some_iff]
  simp only [Option.map_eq_some_iff, Prod.mk.injEq, get?, KeyedList.get?_eq_some_iff]
  constructor
  · rintro ⟨e, he, j, hj, rfl, rfl⟩
    exact ⟨e.2, he, hj⟩
  · rintro ⟨a, ha, hi⟩
    exact ⟨(p, a), ha, i, hi, rfl, rfl⟩

theorem nodup_discovered (t : PeerTable Nat) : (t.discovered.map Prod.fst).Nodup := by
  have hkeys (es : List (PeerId × Peer Nat)) :
      ((es.filterMap fun e => e.2.identity.map (e.1, ·)).map Prod.fst).Sublist
        (es.map Prod.fst) := by
    induction es with
    | nil => exact List.Sublist.slnil
    | cons e es ih =>
      rw [List.filterMap_cons, List.map_cons]
      cases e.2.identity with
      | none => exact ih.cons e.1
      | some i => exact ih.cons_cons e.1
  have hperm : t.discovered.Perm _ := List.mergeSort_perm _ _
  rw [(hperm.map Prod.fst).nodup_iff]
  exact t.peers.nodup.sublist (hkeys t.peers.entries)

end Knowledge

section Events

/-- The events of a peer that had the identity `old` and then has others. -/
def changes (p : PeerId) : Identity → List Identity → List PeerEvent
  | _, [] => []
  | old, i :: is => if i = old then changes p old is else .updated p :: changes p i is

/-- The events of a peer that has the identities one after the other. -/
def announced (p : PeerId) : List Identity → List PeerEvent
  | [] => []
  | i :: is => .discovered p :: changes p i is

theorem changes_concat (p : PeerId) (old : Identity) (is : List Identity) (i : Identity) :
    changes p old (is ++ [i]) =
      changes p old is ++ if i = is.getLast?.getD old then [] else [.updated p] := by
  induction is generalizing old with
  | nil => rfl
  | cons j is ih =>
    rw [List.cons_append, changes, changes, List.getLast?_cons, Option.getD_some]
    split
    · rename_i he
      rw [ih, he]
    · rw [ih, List.cons_append]

theorem announced_concat {p : PeerId} {i : Identity} (hi : i.id = p) (is : List Identity) :
    announced p (is ++ [i]) = announced p is ++ (eventOf is.getLast? i).toList := by
  cases is with
  | nil => exact hi ▸ rfl
  | cons j is =>
    rw [List.cons_append, announced, announced, changes_concat, List.getLast?_cons, eventOf, hi]
    split
    · rfl
    · rfl

theorem events_step (x : Course) (c : Call) : (x.step c).events = x.events ++
    (c.identity?.bind fun i => eventOf (x.table.identity? i.id) i).toList := by
  cases c with
  | update i =>
    show x.events ++ (x.table.update i).event.toList = _
    rw [event_update]
    rfl
  | add _ | wait _ _ | pass _ | subscribe => exact (List.append_nil x.events).symm

theorem peer_of_eventOf {known : Option Identity} {i : Identity} {e : PeerEvent}
    (h : eventOf known i = some e) : e.peer = i.id := by
  unfold eventOf at h
  split at h
  · cases h
    rfl
  · split at h
    · cases h
    · cases h
      rfl

theorem events_course (calls : List Call) (p : PeerId) :
    (course calls).events.filter (fun e => e.peer = p) =
      announced p ((identities calls).filter fun i => i.id = p) := by
  induction calls using List.reverseRecOn with
  | nil => rfl
  | append_singleton calls c ih =>
    rw [course_concat, events_step, List.filter_append, ih, identities_append, List.filter_append]
    cases hc : c.identity? with
    | none =>
      have hnone : identities [c] = [] := List.filterMap_cons_none hc
      rw [hnone, List.filter_nil, List.append_nil]
      exact List.append_nil _
    | some i =>
      have hone : identities [c] = [i] := List.filterMap_cons_some hc
      rw [hone, Option.bind_some]
      by_cases hi : i.id = p
      · have hall : (eventOf ((course calls).table.identity? i.id) i).toList.filter
            (fun e => e.peer = p) = (eventOf ((course calls).table.identity? i.id) i).toList := by
          refine List.filter_eq_self.mpr fun e he => decide_eq_true ?_
          rw [peer_of_eventOf (Option.mem_toList.mp he), hi]
        have hfilter : [i].filter (fun i => decide (i.id = p)) = [i] :=
          List.filter_cons_of_pos (decide_eq_true hi)
        rw [hall, hfilter, announced_concat hi, identity?_course, hi]
        rfl
      · have hnone : (eventOf ((course calls).table.identity? i.id) i).toList.filter
            (fun e => e.peer = p) = [] := by
          refine List.filter_eq_nil_iff.mpr fun e he => ?_
          rw [peer_of_eventOf (Option.mem_toList.mp he), decide_eq_true_iff]
          exact hi
        have hfilter : [i].filter (fun i => decide (i.id = p)) = [] :=
          List.filter_cons_of_neg (fun h => hi (of_decide_eq_true h))
        rw [hnone, hfilter, List.append_nil, List.append_nil]

/-- A feed keeps the last events and counts the others. -/
theorem foldl_push {α : Type} (es : List α) : es.foldl Feed.push ({} : Feed α) =
    ⟨es.length - Feed.capacity, (es.drop (es.length - Feed.capacity)).reverse⟩ := by
  induction es using List.reverseRecOn with
  | nil => rw [List.length_nil, Nat.zero_sub, List.drop_nil, List.reverse_nil, List.foldl_nil]
  | append_singleton es e ih =>
    rw [List.foldl_append, ih, List.foldl_cons, List.foldl_nil, Feed.push, List.length_reverse,
      List.length_drop, List.length_append, List.length_singleton]
    split
    · rename_i hlt
      have hzero : es.length - Feed.capacity = 0 := by omega
      have hnext : es.length + 1 - Feed.capacity = 0 := by omega
      rw [hzero, hnext, List.drop_zero, List.drop_zero, List.reverse_append]
      rfl
    · rename_i hge
      have hnext : es.length + 1 - Feed.capacity = es.length - Feed.capacity + 1 := by omega
      have hpos : 0 < Feed.capacity := by decide
      have hdrop : (es ++ [e]).drop (es.length - Feed.capacity + 1) =
          es.drop (es.length - Feed.capacity + 1) ++ [e] :=
        List.drop_append_of_le_length (by omega)
      rw [hnext, hdrop, List.reverse_append, List.dropLast_reverse, List.tail_drop]
      rfl

theorem feeds_step (x : Course) (c : Call) : ∃ es, (x.step c).events = x.events ++ es ∧
    (x.step c).table.feeds = (x.table.feeds.map fun f => es.foldl Feed.push f) ++
      if c.isSubscribe then [({} : Feed PeerEvent)] else [] := by
  have hsame : x.table.feeds = x.table.feeds.map fun f => [].foldl Feed.push f :=
    (List.map_id' x.table.feeds).symm
  cases c with
  | update i => exact ⟨_, rfl, (x.table.feeds_update i).trans (List.append_nil _).symm⟩
  | add _ | wait _ _ | pass _ =>
    exact ⟨[], (List.append_nil x.events).symm, hsame.trans (List.append_nil _).symm⟩
  | subscribe => exact ⟨[], (List.append_nil x.events).symm, congrArg (· ++ _) hsame⟩

theorem length_feeds_course (calls : List Call) :
    (course calls).table.feeds.length = calls.countP Call.isSubscribe := by
  induction calls using List.reverseRecOn with
  | nil => rfl
  | append_singleton calls c ih =>
    obtain ⟨es, -, hfeeds⟩ := feeds_step (course calls) c
    rw [course_concat, hfeeds, List.length_append, List.length_map, ih, List.countP_append,
      List.countP_singleton]
    cases c.isSubscribe with
    | true => rfl
    | false => rfl

/-- A subscriber gets the events from then on. -/
theorem feeds_later (front back : List Call) :
    ∃ es, (course (front ++ .subscribe :: back)).events = (course front).events ++ es ∧
      (course (front ++ .subscribe :: back)).table.feeds[front.countP Call.isSubscribe]? =
        some (es.foldl Feed.push {}) := by
  induction back using List.reverseRecOn with
  | nil =>
    refine ⟨[], ?_, ?_⟩
    · rw [course_concat, List.append_nil]
      rfl
    · rw [course_concat]
      show ((course front).table.feeds ++ [({} : Feed PeerEvent)])[_]? = _
      rw [← length_feeds_course, List.getElem?_concat_length]
      rfl
  | append_singleton back c ih =>
    obtain ⟨es, hevents, hfeed⟩ := ih
    obtain ⟨ds, hstep, hfeeds⟩ := feeds_step (course (front ++ .subscribe :: back)) c
    have hcourse : course (front ++ .subscribe :: (back ++ [c])) =
        (course (front ++ .subscribe :: back)).step c := by
      rw [← course_concat, List.append_assoc]
      rfl
    refine ⟨es ++ ds, ?_, ?_⟩
    · rw [hcourse, hstep, hevents, List.append_assoc]
    · have hold : ((course (front ++ .subscribe :: back)).table.feeds.map fun f =>
          ds.foldl Feed.push f)[front.countP Call.isSubscribe]? = _ := List.getElem?_map
      rw [hfeed] at hold
      rw [hcourse, hfeeds, List.getElem?_append_left, hold, Option.map_some, List.foldl_append]
      exact (List.getElem?_eq_some_iff.mp hold).1

end Events

end PeerTable

end PeerMesh

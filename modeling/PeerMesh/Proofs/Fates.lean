import Mathlib.Data.List.Induction
import PeerMesh.Proofs.KeyedList
import PeerMesh.Proofs.Sending

namespace PeerMesh

structure Registration where
  now : Nat
  id : PacketId
  endpoint : EndpointId
  datagram : Bytes

namespace Outbox

/-- What happens to an outbox. -/
inductive Event where
  | expect (x : Registration)
  | acknowledge (id : PacketId)
  | sweep (now interval : Nat)
  | failAll

def register (o : Outbox) (x : Registration) : Outbox × Ticket :=
  o.expect x.now x.id x.endpoint x.datagram

def step (o : Outbox) : Event → Outbox
  | .expect x => (o.register x).1
  | .acknowledge id => (o.acknowledge id).1
  | .sweep now interval => (o.due now interval).1
  | .failAll => o.failAll

def after (limit : Option Nat) (events : List Event) : Outbox :=
  events.foldl step { maxResends := limit }

end Outbox

/-- How a registration stands: it waits, and was sent again some number of times, or its fate is
decided. -/
inductive Standing where
  | waiting (lastSent resends : Nat)
  | decided (fate : Fate)

namespace Standing

def fate? : Standing → Option Fate
  | waiting _ _ => none
  | decided fate => some fate

def settle (fate : Fate) : Standing → Standing
  | waiting _ _ => decided fate
  | decided fate => decided fate

theorem settle_settle (fate fate' : Fate) (s : Standing) :
    (s.settle fate).settle fate' = s.settle fate := by
  cases s with
  | waiting lastSent resends => rfl
  | decided fate => rfl

def resend (now interval : Nat) : Standing → Standing
  | waiting lastSent resends =>
    if interval ≤ now - lastSent then waiting now (resends + 1) else waiting lastSent resends
  | decided fate => decided fate

def next (limit : Option Nat) (id : PacketId) (s : Standing) : Outbox.Event → Standing
  | .expect x => if id = x.id then s.settle .dropped else s
  | .acknowledge i => if id = i then s.settle .acknowledged else s
  | .failAll => s.settle .shutDown
  | .sweep now interval =>
    match s with
    | waiting lastSent resends =>
      if now - lastSent < interval then waiting lastSent resends
      else if limit = some resends then decided (.timedOut id resends)
      else waiting now (resends + 1)
    | decided fate => decided fate

def Bounded (limit : Option Nat) : Standing → Prop
  | waiting _ resends => ∀ n, limit = some n → resends ≤ n
  | decided _ => True

theorem Bounded.settle {limit : Option Nat} (s : Standing) (fate : Fate) :
    (s.settle fate).Bounded limit := by
  cases s with
  | waiting lastSent resends => trivial
  | decided fate => trivial

theorem Bounded.next {limit : Option Nat} {s : Standing} (h : s.Bounded limit) (id : PacketId)
    (e : Outbox.Event) : (s.next limit id e).Bounded limit := by
  cases e with
  | expect x =>
    rw [Standing.next]
    split
    · exact .settle s _
    · exact h
  | acknowledge i =>
    rw [Standing.next]
    split
    · exact .settle s _
    · exact h
  | failAll => exact .settle s _
  | sweep now interval =>
    cases s with
    | decided fate => trivial
    | waiting lastSent resends =>
      rw [Standing.next]
      split
      · exact h
      · split
        · trivial
        · rename_i hne
          intro n hn
          exact Nat.lt_of_le_of_ne (h n hn) fun he => hne (he ▸ hn)

theorem next_decided (limit : Option Nat) (id : PacketId) (fate : Fate) (e : Outbox.Event) :
    (decided fate).next limit id e = decided fate := by
  cases e with
  | expect x => exact ite_self (decided fate)
  | acknowledge i => exact ite_self (decided fate)
  | failAll => rfl
  | sweep now interval => rfl

theorem foldl_next_decided (limit : Option Nat) (id : PacketId) (fate : Fate)
    (events : List Outbox.Event) :
    events.foldl (next limit id) (decided fate) = decided fate := by
  induction events with
  | nil => rfl
  | cons e events ih => rw [List.foldl_cons, next_decided, ih]

end Standing

def Registration.standing (x : Registration) (limit : Option Nat) (later : List Outbox.Event) :
    Standing :=
  later.foldl (Standing.next limit x.id) (.waiting x.now 0)

theorem getElem?_concat_eq_some {α : Type} {l : List α} {k : Nat} {a b : α} :
    (l ++ [a])[k]? = some b ↔ l[k]? = some b ∨ k = l.length ∧ a = b := by
  rw [List.getElem?_append]
  split
  · rename_i hlt
    exact (or_iff_left fun h => Nat.ne_of_lt hlt h.1).symm
  · rename_i hge
    have hge : l.length ≤ k := Nat.le_of_not_lt hge
    have hiff : k - l.length = 0 ↔ k = l.length :=
      ⟨fun h => Nat.le_antisymm (Nat.sub_eq_zero_iff_le.mp h) hge, fun h => h ▸ Nat.sub_self _⟩
    rw [List.getElem?_eq_none hge, List.getElem?_singleton]
    simp [hiff]

namespace Outbox

/-- The registrations in the order of their tickets, each with how it stands. -/
abbrev Book := List (Registration × Standing)

namespace Book

def change (b : Book) (g : Registration → Standing → Standing) : Book :=
  b.map fun r => (r.1, g r.1 r.2)

def step (limit : Option Nat) (b : Book) (e : Event) : Book :=
  let b := b.change fun x s => s.next limit x.id e
  match e with
  | .expect x => b ++ [(x, .waiting x.now 0)]
  | _ => b

def after (limit : Option Nat) (events : List Event) : Book :=
  events.foldl (step limit) []

variable {b : Book} {g : Registration → Standing → Standing}

@[simp] theorem length_change (b : Book) (g : Registration → Standing → Standing) :
    (b.change g).length = b.length :=
  List.length_map _

theorem getElem?_change (b : Book) (g : Registration → Standing → Standing) (ticket : Ticket) :
    (b.change g)[ticket]? = b[ticket]?.map fun r => (r.1, g r.1 r.2) :=
  List.getElem?_map

theorem getElem?_change_eq_some {ticket : Ticket} {x : Registration} {s : Standing} :
    (b.change g)[ticket]? = some (x, s) ↔ ∃ s', b[ticket]? = some (x, s') ∧ g x s' = s := by
  rw [getElem?_change, Option.map_eq_some_iff]
  constructor
  · rintro ⟨⟨x, s'⟩, hr, he⟩
    cases he
    exact ⟨s', hr, rfl⟩
  · rintro ⟨s', hr, rfl⟩
    exact ⟨(x, s'), hr, rfl⟩

theorem change_congr {g' : Registration → Standing → Standing}
    (h : ∀ (ticket : Ticket) x s, b[ticket]? = some (x, s) → g x s = g' x s) :
    b.change g = b.change g' := by
  apply List.map_congr_left
  intro r hr
  obtain ⟨ticket, hticket⟩ := List.mem_iff_getElem?.mp hr
  rw [h ticket r.1 r.2 hticket]

theorem change_change (b : Book) (g g' : Registration → Standing → Standing) :
    (b.change g).change g' = b.change fun x s => g' x (g x s) :=
  List.map_map

theorem change_id (b : Book) : (b.change fun _ s => s) = b :=
  List.map_id b

end Book

theorem get?_settle_self (o : Outbox) (id : PacketId) (fate : Fate) :
    (o.settle id fate).pending.get? id = none := by
  unfold settle
  cases hg : o.pending.get? id with
  | none => exact hg
  | some p => rw [KeyedList.get?_erase, if_pos rfl]

def timeouts (o : Outbox) (now interval : Nat) : List (PacketId × Fate) :=
  (o.pending.entries.filter fun e => IsDue now interval e.2 ∧ o.IsSpent e.2).map fun e =>
    (e.1, .timedOut e.1 e.2.attempts)

theorem mem_timeouts {o : Outbox} {now interval : Nat} {e : PacketId × Fate} :
    e ∈ o.timeouts now interval ↔ ∃ p, o.pending.get? e.1 = some p ∧ IsDue now interval p ∧
      o.IsSpent p ∧ e.2 = .timedOut e.1 p.attempts := by
  rw [timeouts, List.mem_map]
  simp only [List.mem_filter, decide_eq_true_eq, KeyedList.get?_eq_some_iff]
  constructor
  · rintro ⟨q, ⟨hq, hd, hs⟩, rfl⟩
    exact ⟨q.2, hq, hd, hs, rfl⟩
  · rintro ⟨p, hp, hd, hs, he⟩
    exact ⟨(e.1, p), ⟨hp, hd, hs⟩, Prod.ext rfl he.symm⟩

theorem due_eq (o : Outbox) (now interval : Nat) : (o.due now interval).1 =
    let settled := (o.timeouts now interval).foldl (fun o e => o.settle e.1 e.2) o
    { settled with
      pending := settled.pending.mapValues fun _ p =>
        if IsDue now interval p then { p with lastSent := now, attempts := p.attempts + 1 }
        else p } := by
  have hs : ((o.pending.entries.filter fun e => IsDue now interval e.2).partition fun e =>
        o.IsSpent e.2).1 =
      o.pending.entries.filter fun e => IsDue now interval e.2 ∧ o.IsSpent e.2 := by
    rw [List.partition_eq_filter_filter, List.filter_filter]
    apply List.filter_congr
    intro e _
    simp [Bool.and_comm]
  rw [due, timeouts, List.foldl_map]
  simp only [hs]

/-- What a decision about the packets under an id makes of a registration. -/
def settling (id : PacketId) (fate : Fate) (x : Registration) (s : Standing) : Standing :=
  if x.id = id then s.settle fate else s

/-- The outbox has the registrations that wait, under their ids, and the fates of the others. -/
structure Reflects (o : Outbox) (limit : Option Nat) (b : Book) : Prop where
  limit : o.maxResends = limit
  next : o.nextTicket = b.length
  waiting : ∀ ticket x lastSent resends, b[ticket]? = some (x, .waiting lastSent resends) →
    o.pending.get? x.id = some ⟨x.datagram, x.endpoint, lastSent, resends, ticket⟩
  pending : ∀ id p, o.pending.get? id = some p →
    ∃ x, x.id = id ∧ b[p.ticket]? = some (x, .waiting p.lastSent p.attempts)
  fates : ∀ ticket, o.fate? ticket = b[ticket]?.bind fun r => r.2.fate?

namespace Reflects

variable {o : Outbox} {limit : Option Nat} {b : Book}

theorem empty (limit : Option Nat) : Reflects { maxResends := limit } limit [] :=
  ⟨rfl, rfl, nofun, nofun, fun _ => rfl⟩

theorem settle_eq_self (h : o.Reflects limit b) {ticket : Ticket} {x : Registration} {s : Standing}
    (hx : b[ticket]? = some (x, s)) (hn : ∀ p, o.pending.get? x.id = some p → p.ticket ≠ ticket)
    (fate : Fate) : s.settle fate = s := by
  cases s with
  | decided fate' => rfl
  | waiting lastSent resends => exact absurd rfl (hn _ (h.waiting ticket x lastSent resends hx))

theorem settling_eq_self (h : o.Reflects limit b) {id : PacketId} {ticket : Ticket}
    {x : Registration} {s : Standing} (hx : b[ticket]? = some (x, s))
    (hn : ∀ p, o.pending.get? id = some p → p.ticket ≠ ticket) (fate : Fate) :
    settling id fate x s = s := by
  rw [settling]
  split
  · rename_i hid
    subst hid
    exact h.settle_eq_self hx hn fate
  · rfl

theorem fate?_settle (h : o.Reflects limit b) {id : PacketId} {p : PendingPacket}
    (hg : o.pending.get? id = some p) (fate : Fate) (ticket : Ticket) :
    (o.fates.put p.ticket fate).get? ticket =
      (b.change (settling id fate))[ticket]?.bind fun r => r.2.fate? := by
  obtain ⟨y, hy, hp⟩ := h.pending id p hg
  rw [KeyedList.get?_put, Book.getElem?_change]
  split
  · rename_i ht
    rw [ht, hp, Option.map_some, Option.bind_some, settling, if_pos hy]
    rfl
  · rename_i ht
    rw [show o.fates.get? ticket = _ from h.fates ticket]
    cases hr : b[ticket]? with
    | none => rfl
    | some r =>
      obtain ⟨x, s⟩ := r
      have hself : settling id fate x s = s := by
        apply h.settling_eq_self hr
        intro q hq
        rw [hg] at hq
        rw [← Option.some.inj hq]
        exact Ne.symm ht
      rw [Option.map_some, Option.bind_some, Option.bind_some, hself]

theorem settle (h : o.Reflects limit b) (id : PacketId) (fate : Fate) :
    (o.settle id fate).Reflects limit (b.change (settling id fate)) := by
  unfold Outbox.settle
  cases hg : o.pending.get? id with
  | none =>
    have hb : b.change (settling id fate) = b.change fun _ s => s := by
      apply Book.change_congr
      intro ticket x s hx
      apply h.settling_eq_self hx
      intro p hp
      rw [hg] at hp
      cases hp
    rw [hb, b.change_id]
    exact h
  | some p =>
    refine ⟨h.limit, ?_, fun ticket x lastSent resends hx => ?_, fun id' q hq => ?_,
      h.fate?_settle hg fate⟩
    · rw [Book.length_change]
      exact h.next
    · obtain ⟨s, hs, he⟩ := Book.getElem?_change_eq_some.mp hx
      rw [settling] at he
      split at he
      · cases s with
        | decided fate => cases he
        | waiting lastSent resends => cases he
      · rename_i hid
        subst he
        rw [KeyedList.get?_erase, if_neg hid]
        exact h.waiting ticket x lastSent resends hs
    · rw [KeyedList.get?_erase] at hq
      split at hq
      · cases hq
      · rename_i hid
        obtain ⟨x, hx, hs⟩ := h.pending id' q hq
        refine ⟨x, hx, Book.getElem?_change_eq_some.mpr ⟨_, hs, ?_⟩⟩
        rw [settling, if_neg fun he => hid (hx.symm.trans he)]

theorem settleAll (h : o.Reflects limit b) (es : List (PacketId × Fate)) :
    (es.foldl (fun o e => o.settle e.1 e.2) o).Reflects limit
      (b.change fun x s => es.foldl (fun s e => settling e.1 e.2 x s) s) := by
  induction es generalizing o b with
  | nil =>
    rw [List.foldl_nil]
    simp only [List.foldl_nil]
    rw [b.change_id]
    exact h
  | cons e es ih =>
    have hr := ih (h.settle e.1 e.2)
    rw [Book.change_change] at hr
    exact hr

theorem register (h : o.Reflects limit b) (x : Registration) : (o.register x).1.Reflects limit
    (b.change (settling x.id .dropped) ++ [(x, .waiting x.now 0)]) := by
  have hs := h.settle x.id .dropped
  have hlast := o.get?_settle_self x.id .dropped
  generalize b.change (settling x.id .dropped) = b at hs
  rw [Outbox.register, expect]
  generalize o.settle x.id .dropped = o at hs hlast
  refine ⟨hs.limit, ?_, fun ticket y lastSent resends hy => ?_, fun id p hp => ?_, fun ticket => ?_⟩
  · rw [List.length_append]
    exact congrArg (· + 1) hs.next
  · dsimp only
    rw [KeyedList.get?_put]
    obtain hy | ⟨rfl, he⟩ := getElem?_concat_eq_some.mp hy
    · have hw := hs.waiting ticket y lastSent resends hy
      have hne : y.id ≠ x.id := by
        intro he
        rw [he, hlast] at hw
        cases hw
      rw [if_neg hne]
      exact hw
    · cases he
      rw [if_pos rfl, hs.next]
  · dsimp only at hp
    rw [KeyedList.get?_put] at hp
    split at hp
    · cases hp
      exact ⟨x, ‹id = x.id›.symm, getElem?_concat_eq_some.mpr (.inr ⟨hs.next, rfl⟩)⟩
    · obtain ⟨y, hy, hb⟩ := hs.pending id p hp
      exact ⟨y, hy, getElem?_concat_eq_some.mpr (.inl hb)⟩
  · have hf := hs.fates ticket
    rw [List.getElem?_append]
    split
    · exact hf
    · rename_i hlen
      rw [List.getElem?_eq_none (Nat.le_of_not_lt hlen)] at hf
      rw [List.getElem?_singleton]
      split
      · exact hf
      · exact hf

theorem foldl_settling_of_notMem {es : List (PacketId × Fate)} {x : Registration}
    (hn : ∀ e ∈ es, e.1 ≠ x.id) (s : Standing) :
    es.foldl (fun s e => settling e.1 e.2 x s) s = s := by
  induction es with
  | nil => rfl
  | cons e es ih =>
    rw [List.foldl_cons, settling, if_neg fun he => hn e List.mem_cons_self he.symm]
    exact ih fun e' he' => hn e' (List.mem_cons_of_mem e he')

theorem foldl_settling_decided (es : List (PacketId × Fate)) (x : Registration) (fate : Fate) :
    es.foldl (fun s e => settling e.1 e.2 x s) (.decided fate) = .decided fate := by
  induction es with
  | nil => rfl
  | cons e es ih =>
    have hs : settling e.1 e.2 x (.decided fate) = .decided fate := ite_self (Standing.decided fate)
    rw [List.foldl_cons, hs, ih]

/-- The decisions about an id agree, so that the first one of them is as good as all. -/
theorem foldl_settling_of_mem {es : List (PacketId × Fate)} {x : Registration} {fate : Fate}
    (hm : (x.id, fate) ∈ es) (hf : ∀ e ∈ es, e.1 = x.id → e.2 = fate) (s : Standing) :
    es.foldl (fun s e => settling e.1 e.2 x s) s = s.settle fate := by
  induction es generalizing s with
  | nil => cases hm
  | cons e es ih =>
    have hf' : ∀ e' ∈ es, e'.1 = x.id → e'.2 = fate := fun e' he' =>
      hf e' (List.mem_cons_of_mem e he')
    rw [List.foldl_cons]
    by_cases he : x.id = e.1
    · have hs : settling e.1 e.2 x s = s.settle fate := by
        rw [settling, if_pos he, hf e List.mem_cons_self he.symm]
      by_cases hmem : (x.id, fate) ∈ es
      · rw [hs, ih hmem hf', Standing.settle_settle]
      · rw [hs]
        apply foldl_settling_of_notMem
        intro e' he' hid
        refine hmem ?_
        rw [← hid, ← hf' e' he' hid]
        exact he'
    · have hne : (x.id, fate) ≠ e := fun heq => he (congrArg Prod.fst heq)
      rw [settling, if_neg he]
      exact ih (List.mem_of_ne_of_mem hne hm) hf' s

theorem failAll (h : o.Reflects limit b) :
    o.failAll.Reflects limit (b.change fun _ s => s.settle .shutDown) := by
  have hs := h.settleAll (o.pending.keys.map fun id => (id, .shutDown))
  rw [List.foldl_map] at hs
  have hb : (b.change fun x s => (o.pending.keys.map fun id => (id, Fate.shutDown)).foldl
      (fun s e => settling e.1 e.2 x s) s) = b.change fun _ s => s.settle .shutDown := by
    apply Book.change_congr
    intro ticket x s hx
    have hf : ∀ e ∈ o.pending.keys.map fun id => (id, Fate.shutDown), e.1 = x.id →
        e.2 = .shutDown := by
      intro e he _
      obtain ⟨id, -, rfl⟩ := List.mem_map.mp he
      rfl
    by_cases hk : x.id ∈ o.pending.keys
    · exact foldl_settling_of_mem (List.mem_map.mpr ⟨x.id, hk, rfl⟩) hf s
    · rw [foldl_settling_of_notMem]
      · refine (h.settle_eq_self hx (fun p hp => ?_) _).symm
        exact absurd ((o.pending.mem_keys_iff _).mpr ⟨p, hp⟩) hk
      · intro e he hid
        obtain ⟨id, hid', rfl⟩ := List.mem_map.mp he
        exact hk (hid ▸ hid')
  rw [← hb]
  exact hs

theorem resend (h : o.Reflects limit b) (now interval : Nat) :
    Reflects { o with
      pending := o.pending.mapValues fun _ p =>
        if IsDue now interval p then { p with lastSent := now, attempts := p.attempts + 1 } else p }
      limit (b.change fun _ s => s.resend now interval) := by
  refine ⟨h.limit, ?_, fun ticket x lastSent resends hx => ?_, fun id p hp => ?_, fun ticket => ?_⟩
  · rw [Book.length_change]
    exact h.next
  · obtain ⟨s, hs, he⟩ := Book.getElem?_change_eq_some.mp hx
    cases s with
    | decided fate => cases he
    | waiting lastSent' resends' =>
      have hw := h.waiting ticket x lastSent' resends' hs
      rw [KeyedList.get?_mapValues, hw, Option.map_some]
      rw [Standing.resend] at he
      split at he
      · cases he
        exact congrArg some (if_pos ‹_›)
      · cases he
        exact congrArg some (if_neg ‹_›)
  · rw [KeyedList.get?_mapValues, Option.map_eq_some_iff] at hp
    obtain ⟨q, hq, rfl⟩ := hp
    obtain ⟨x, hx, hs⟩ := h.pending id q hq
    refine ⟨x, hx, ?_⟩
    split
    · rename_i hd
      exact Book.getElem?_change_eq_some.mpr ⟨_, hs, if_pos hd⟩
    · rename_i hd
      exact Book.getElem?_change_eq_some.mpr ⟨_, hs, if_neg hd⟩
  · refine (h.fates ticket).trans ?_
    rw [Book.getElem?_change]
    cases b[ticket]? with
    | none => rfl
    | some r =>
      rw [Option.map_some, Option.bind_some, Option.bind_some]
      cases r.2 with
      | decided fate => rfl
      | waiting lastSent resends =>
        rw [Standing.resend]
        split
        · rfl
        · rfl

theorem isSpent_iff (h : o.Reflects limit b) {p : PendingPacket}
    (hp : (Standing.waiting p.lastSent p.attempts).Bounded limit) :
    o.IsSpent p ↔ limit = some p.attempts := by
  rw [IsSpent, h.limit, Option.any_eq_true]
  simp only [decide_eq_true_eq]
  constructor
  · rintro ⟨n, hn, hle⟩
    rw [hn, Nat.le_antisymm hle (hp n hn)]
  · intro hl
    exact ⟨p.attempts, hl, Nat.le_refl _⟩

theorem foldl_timeouts (h : o.Reflects limit b) {ticket : Ticket} {x : Registration}
    {lastSent resends : Nat} (hx : b[ticket]? = some (x, .waiting lastSent resends))
    (hb : (Standing.waiting lastSent resends).Bounded limit) (now interval : Nat) :
    (o.timeouts now interval).foldl (fun s e => settling e.1 e.2 x s) (.waiting lastSent resends) =
      if interval ≤ now - lastSent ∧ limit = some resends then .decided (.timedOut x.id resends)
      else .waiting lastSent resends := by
  have hw := h.waiting ticket x lastSent resends hx
  have hs := h.isSpent_iff (p := ⟨x.datagram, x.endpoint, lastSent, resends, ticket⟩) hb
  have hown : ∀ e ∈ o.timeouts now interval, e.1 = x.id →
      (interval ≤ now - lastSent ∧ limit = some resends) ∧ e.2 = .timedOut x.id resends := by
    intro e he hid
    obtain ⟨p, hp, hd, hsp, hf⟩ := mem_timeouts.mp he
    rw [hid, hw] at hp
    cases hp
    exact ⟨⟨hd, hs.mp hsp⟩, hid ▸ hf⟩
  split
  · rename_i hd
    refine foldl_settling_of_mem ?_ (fun e he hid => (hown e he hid).2) _
    exact mem_timeouts.mpr ⟨_, hw, hd.1, hs.mpr hd.2, rfl⟩
  · rename_i hd
    exact foldl_settling_of_notMem (fun e he hid => hd (hown e he hid).1) _

theorem sweep (h : o.Reflects limit b)
    (hb : ∀ (ticket : Ticket) x s, b[ticket]? = some (x, s) → s.Bounded limit)
    (now interval : Nat) : (o.due now interval).1.Reflects limit
      (b.change fun x s => s.next limit x.id (.sweep now interval)) := by
  have hs := (h.settleAll (o.timeouts now interval)).resend now interval
  rw [Book.change_change] at hs
  have hc : (b.change fun x s => Standing.resend now interval
      ((o.timeouts now interval).foldl (fun s e => settling e.1 e.2 x s) s)) =
      b.change fun x s => s.next limit x.id (.sweep now interval) := by
    apply Book.change_congr
    intro ticket x s hx
    cases s with
    | decided fate => exact congrArg _ (foldl_settling_decided _ x fate)
    | waiting lastSent resends =>
      rw [h.foldl_timeouts hx (hb ticket x _ hx), Standing.next]
      by_cases hd : interval ≤ now - lastSent
      · rw [if_neg (Nat.not_lt.mpr hd)]
        by_cases hl : limit = some resends
        · rw [if_pos ⟨hd, hl⟩, if_pos hl]
          rfl
        · rw [if_neg fun hc => hl hc.2, if_neg hl, Standing.resend, if_pos hd]
      · rw [if_neg fun hc => hd hc.1, if_pos (Nat.lt_of_not_le hd), Standing.resend, if_neg hd]
  rw [← hc, due_eq]
  exact hs

theorem step (h : o.Reflects limit b)
    (hb : ∀ (ticket : Ticket) x s, b[ticket]? = some (x, s) → s.Bounded limit) (e : Event) :
    (o.step e).Reflects limit (b.step limit e) := by
  cases e with
  | expect x => exact h.register x
  | acknowledge id => exact h.settle id .acknowledged
  | sweep now interval => exact h.sweep hb now interval
  | failAll => exact h.failAll

end Reflects

def Event.registration? : Event → Option Registration
  | .expect x => some x
  | _ => none

def registrations (events : List Event) : List Registration :=
  events.filterMap Event.registration?

namespace Book

variable {limit : Option Nat}

theorem after_concat (events : List Event) (e : Event) :
    after limit (events ++ [e]) = (after limit events).step limit e := by
  rw [after, List.foldl_append]
  rfl

theorem getElem?_step {b : Book} {e : Event} {ticket : Ticket} {x : Registration} {s : Standing} :
    (b.step limit e)[ticket]? = some (x, s) ↔
      (∃ s', b[ticket]? = some (x, s') ∧ s'.next limit x.id e = s) ∨
        e = .expect x ∧ ticket = b.length ∧ s = .waiting x.now 0 := by
  rw [← getElem?_change_eq_some (g := fun x s => s.next limit x.id e)]
  cases e with
  | expect y =>
    rw [step, getElem?_concat_eq_some, length_change, Prod.mk.injEq]
    constructor
    · rintro (h | ⟨ht, rfl, rfl⟩)
      · exact .inl h
      · exact .inr ⟨rfl, ht, rfl⟩
    · rintro (h | ⟨he, ht, rfl⟩)
      · exact .inl h
      · cases he
        exact .inr ⟨ht, rfl, rfl⟩
  | acknowledge id => exact (or_iff_left fun h => nomatch h.1).symm
  | sweep now interval => exact (or_iff_left fun h => nomatch h.1).symm
  | failAll => exact (or_iff_left fun h => nomatch h.1).symm

theorem length_after (events : List Event) :
    (after limit events).length = (registrations events).length := by
  induction events using List.reverseRecOn with
  | nil => rfl
  | append_singleton events e ih =>
    rw [after_concat, registrations, List.filterMap_append, List.length_append, ← registrations,
      ← ih]
    cases e with
    | expect x =>
      rw [step, List.length_append, length_change]
      rfl
    | acknowledge id => simp [step, Event.registration?]
    | sweep now interval => simp [step, Event.registration?]
    | failAll => simp [step, Event.registration?]

theorem getElem?_after {events : List Event} {ticket : Ticket} {x : Registration} {s : Standing} :
    (after limit events)[ticket]? = some (x, s) ↔ ∃ front back,
      events = front ++ .expect x :: back ∧ ticket = (registrations front).length ∧
        s = x.standing limit back := by
  induction events using List.reverseRecOn generalizing s with
  | nil => simp [after]
  | append_singleton events e ih =>
    rw [after_concat, getElem?_step]
    constructor
    · rintro (⟨s', hs, rfl⟩ | ⟨rfl, rfl, rfl⟩)
      · obtain ⟨front, back, rfl, ht, rfl⟩ := ih.mp hs
        refine ⟨front, back ++ [e], by simp, ht, ?_⟩
        rw [Registration.standing, Registration.standing, List.foldl_append]
        rfl
      · exact ⟨events, [], rfl, length_after events, rfl⟩
    · rintro ⟨front, back, he, rfl, rfl⟩
      obtain rfl | ⟨back, e', rfl⟩ := List.eq_nil_or_concat back
      · obtain ⟨rfl, hlast⟩ := List.append_inj' he rfl
        cases hlast
        exact .inr ⟨rfl, (length_after _).symm, rfl⟩
      · rw [List.concat_eq_append, ← List.cons_append, ← List.append_assoc] at he
        obtain ⟨rfl, hlast⟩ := List.append_inj' he rfl
        cases hlast
        refine .inl ⟨_, ih.mpr ⟨front, back, rfl, rfl, rfl⟩, ?_⟩
        rw [Registration.standing, Registration.standing, List.concat_eq_append, List.foldl_append]
        rfl

theorem bounded_after {events : List Event} {ticket : Ticket} {x : Registration} {s : Standing}
    (h : (after limit events)[ticket]? = some (x, s)) : s.Bounded limit := by
  induction events using List.reverseRecOn generalizing s with
  | nil => cases h
  | append_singleton events e ih =>
    rw [after_concat, getElem?_step] at h
    obtain ⟨s', hs, rfl⟩ | ⟨-, -, rfl⟩ := h
    · exact (ih hs).next x.id e
    · exact fun n _ => Nat.zero_le n

end Book

theorem reflects_after (limit : Option Nat) (events : List Event) :
    (after limit events).Reflects limit (Book.after limit events) := by
  induction events using List.reverseRecOn with
  | nil => exact .empty limit
  | append_singleton events e ih =>
    rw [Book.after_concat, after, List.foldl_append]
    exact ih.step (fun _ _ _ => Book.bounded_after) e

/-- The latest registration under the id is not completed. -/
def IsOpen (limit : Option Nat) (events : List Event) (id : PacketId) : Prop :=
  ∃ front x back, events = front ++ .expect x :: back ∧ x.id = id ∧
    (∀ y, .expect y ∈ back → y.id ≠ id) ∧ (x.standing limit back).fate? = none

end Outbox

namespace Registration

variable {x : Registration} {limit : Option Nat} {later : List Outbox.Event}

theorem standing_append (more : List Outbox.Event) {fate : Fate}
    (h : (x.standing limit later).fate? = some fate) :
    (x.standing limit (later ++ more)).fate? = some fate := by
  rw [standing, List.foldl_append]
  cases hs : x.standing limit later with
  | waiting lastSent resends =>
    rw [hs] at h
    cases h
  | decided fate' =>
    rw [hs] at h
    rw [show later.foldl (Standing.next limit x.id) (.waiting x.now 0) = _ from hs,
      Standing.foldl_next_decided]
    exact h

/-- Another registration under the same id completes the registration. -/
theorem ne_id_of_waiting (h : (x.standing limit later).fate? = none) {y : Registration}
    (hy : .expect y ∈ later) : y.id ≠ x.id := by
  intro hid
  obtain ⟨front, back, rfl⟩ := List.append_of_mem hy
  have hd : ∃ fate, (x.standing limit (front ++ [.expect y])).fate? = some fate := by
    rw [standing, List.foldl_append, List.foldl_cons, List.foldl_nil, Standing.next,
      if_pos hid.symm]
    cases front.foldl (Standing.next limit x.id) (.waiting x.now 0) with
    | waiting lastSent resends => exact ⟨.dropped, rfl⟩
    | decided fate => exact ⟨fate, rfl⟩
  obtain ⟨fate, hf⟩ := hd
  have ha := standing_append back hf
  rw [List.append_assoc] at ha
  rw [show x.standing limit (front ++ .expect y :: back) = _ from rfl] at h
  exact Option.some_ne_none fate (ha.symm.trans h)

end Registration

namespace Outbox

theorem ticket_register (limit : Option Nat) (events : List Event) (x : Registration) :
    ((after limit events).register x).2 = (registrations events).length := by
  rw [register, expect_ticket, (reflects_after limit events).next, Book.length_after]

theorem fate?_after (limit : Option Nat) (front back : List Event) (x : Registration) :
    (after limit (front ++ .expect x :: back)).fate? (registrations front).length =
      (x.standing limit back).fate? := by
  have hb : (Book.after limit (front ++ .expect x :: back))[(registrations front).length]? =
      some (x, x.standing limit back) := Book.getElem?_after.mpr ⟨front, back, rfl, rfl, rfl⟩
  rw [(reflects_after limit _).fates, hb]
  rfl

theorem fate?_after_append {limit : Option Nat} {events : List Event} {ticket : Ticket}
    {fate : Fate} (h : (after limit events).fate? ticket = some fate) (more : List Event) :
    (after limit (events ++ more)).fate? ticket = some fate := by
  rw [(reflects_after limit events).fates] at h
  obtain ⟨⟨x, s⟩, hr, hs⟩ := Option.bind_eq_some_iff.mp h
  obtain ⟨front, back, rfl, rfl, rfl⟩ := Book.getElem?_after.mp hr
  rw [List.append_assoc, List.cons_append, fate?_after]
  exact Registration.standing_append more hs

theorem pending_after {limit : Option Nat} {events : List Event} {id : PacketId}
    {p : PendingPacket} :
    (after limit events).pending.get? id = some p ↔ ∃ front x back,
      events = front ++ .expect x :: back ∧ x.id = id ∧
        x.standing limit back = .waiting p.lastSent p.attempts ∧
        p = ⟨x.datagram, x.endpoint, p.lastSent, p.attempts, (registrations front).length⟩ := by
  have h := reflects_after limit events
  constructor
  · intro hp
    obtain ⟨x, hx, hb⟩ := h.pending id p hp
    have hw := h.waiting p.ticket x _ _ hb
    obtain ⟨front, back, he, ht, hs⟩ := Book.getElem?_after.mp hb
    rw [hx, hp] at hw
    exact ⟨front, x, back, he, hx, hs.symm, ht ▸ Option.some.inj hw⟩
  · rintro ⟨front, x, back, he, rfl, hs, hp⟩
    have hb := Book.getElem?_after.mpr ⟨front, back, he, rfl, hs.symm⟩
    rw [hp]
    exact h.waiting _ x _ _ hb

theorem isPending_after (limit : Option Nat) (events : List Event) (id : PacketId) :
    (after limit events).isPending id ↔ IsOpen limit events id := by
  rw [isPending, KeyedList.contains, Option.isSome_iff_exists]
  constructor
  · rintro ⟨p, hp⟩
    obtain ⟨front, x, back, he, rfl, hs, -⟩ := pending_after.mp hp
    have hw : (x.standing limit back).fate? = none := by
      rw [hs]
      rfl
    exact ⟨front, x, back, he, rfl, fun y hy => Registration.ne_id_of_waiting hw hy, hw⟩
  · rintro ⟨front, x, back, he, hx, -, hw⟩
    cases hs : x.standing limit back with
    | decided fate =>
      rw [hs] at hw
      cases hw
    | waiting lastSent resends =>
      exact ⟨⟨x.datagram, x.endpoint, lastSent, resends, (registrations front).length⟩,
        pending_after.mpr ⟨front, x, back, he, hx, hs, rfl⟩⟩

theorem mem_due (o : Outbox) (now interval : Nat) (r : Resend) :
    r ∈ (o.due now interval).2 ↔ ∃ id p, o.pending.get? id = some p ∧ IsDue now interval p ∧
      ¬ o.IsSpent p ∧ r = ⟨id, p.endpoint, p.datagram⟩ := by
  rw [due]
  dsimp only
  rw [List.partition_eq_filter_filter, List.mem_map]
  simp only [List.mem_filter, decide_eq_true_eq, Function.comp_apply, Bool.not_eq_true',
    decide_eq_false_iff_not, KeyedList.get?_eq_some_iff, and_assoc]
  constructor
  · rintro ⟨e, hg, hd, hn, rfl⟩
    exact ⟨e.1, e.2, hg, hd, hn, rfl⟩
  · rintro ⟨id, p, hg, hd, hn, rfl⟩
    exact ⟨(id, p), hg, hd, hn, rfl⟩

/-- A sweep sends again what waits and is due, as long as that may be. -/
theorem mem_due_after (limit : Option Nat) (events : List Event) (now interval : Nat) (r : Resend) :
    r ∈ ((after limit events).due now interval).2 ↔ ∃ front x back lastSent resends,
      events = front ++ .expect x :: back ∧ x.standing limit back = .waiting lastSent resends ∧
        interval ≤ now - lastSent ∧ limit ≠ some resends ∧ r = ⟨x.id, x.endpoint, x.datagram⟩ := by
  have h := reflects_after limit events
  rw [mem_due]
  constructor
  · rintro ⟨id, p, hg, hd, hn, rfl⟩
    obtain ⟨front, x, back, he, rfl, hs, hp⟩ := pending_after.mp hg
    have hb := Book.getElem?_after.mpr ⟨front, back, he, rfl, hs.symm⟩
    refine ⟨front, x, back, p.lastSent, p.attempts, he, hs, hd, ?_, ?_⟩
    · exact fun hl => hn ((h.isSpent_iff (Book.bounded_after hb)).mpr hl)
    · rw [hp]
  · rintro ⟨front, x, back, lastSent, resends, he, hs, hd, hn, rfl⟩
    have hb := Book.getElem?_after.mpr ⟨front, back, he, rfl, hs.symm⟩
    refine ⟨x.id, _, h.waiting _ x _ _ hb, hd, ?_, rfl⟩
    exact fun hsp => hn ((h.isSpent_iff (Book.bounded_after hb)).mp hsp)

theorem acknowledge_of_not_pending {o : Outbox} {id : PacketId} (h : ¬ o.isPending id) :
    o.acknowledge id = (o, false) := by
  have hp : o.isPending id = false := by simpa using h
  have hg : o.pending.get? id = none := by
    simpa [isPending, KeyedList.contains] using h
  rw [acknowledge, hp, settle, hg]

/-- Whatever becomes of the other packets: the fate of a registration is decided by the first event
after it that decides it, and never again. As long as none does, the packet is pending, and every
sweep for which it is due sends it again. Pending are just the packets the latest registrations of
which are not completed, and all acknowledgements but theirs are ignored. -/
theorem fates_decided (limit : Option Nat) (events : List Event) :
    (∀ front x back, events = front ++ .expect x :: back →
      ((after limit front).register x).2 = (registrations front).length ∧
        (after limit events).fate? (registrations front).length = (x.standing limit back).fate? ∧
        ((x.standing limit back).fate? = none → (after limit events).isPending x.id)) ∧
    (∀ ticket fate more, (after limit events).fate? ticket = some fate →
      (after limit (events ++ more)).fate? ticket = some fate) ∧
    (∀ now interval r, r ∈ ((after limit events).due now interval).2 ↔
      ∃ front x back lastSent resends, events = front ++ .expect x :: back ∧
        x.standing limit back = .waiting lastSent resends ∧ interval ≤ now - lastSent ∧
        limit ≠ some resends ∧ r = ⟨x.id, x.endpoint, x.datagram⟩) ∧
    (∀ id, (after limit events).isPending id ↔ IsOpen limit events id) ∧
    (∃ ids : List PacketId, ids.Nodup ∧ (∀ id, id ∈ ids ↔ IsOpen limit events id) ∧
      (after limit events).pending.size = ids.length) ∧
    (∀ id, IsOpen limit events id → ((after limit events).acknowledge id).2 = true) ∧
    ∀ id, ¬ IsOpen limit events id →
      (after limit events).acknowledge id = (after limit events, false) := by
  refine ⟨?_, fun ticket fate more h => fate?_after_append h more, mem_due_after limit events,
    isPending_after limit events, ?_, fun id h => (isPending_after limit events id).mpr h,
    fun id h => ?_⟩
  · rintro front x back rfl
    refine ⟨ticket_register limit front x, fate?_after limit front back x, fun hw => ?_⟩
    exact (isPending_after limit _ x.id).mpr
      ⟨front, x, back, rfl, rfl, fun y hy => Registration.ne_id_of_waiting hw hy, hw⟩
  · refine ⟨(after limit events).pending.keys, (after limit events).pending.nodup, fun id => ?_,
      (KeyedList.length_keys _).symm⟩
    rw [← isPending_after, KeyedList.mem_keys_iff, isPending, KeyedList.contains,
      Option.isSome_iff_exists]
  · exact acknowledge_of_not_pending fun hp => h ((isPending_after limit events id).mp hp)

def fourEnds : List Event :=
  [.expect ⟨0, ⟨1⟩, 0, [1]⟩, .expect ⟨0, ⟨2⟩, 0, [2]⟩, .expect ⟨3, ⟨1⟩, 0, [3]⟩, .sweep 9 5,
    .acknowledge ⟨1⟩, .sweep 12 5, .sweep 14 5, .expect ⟨15, ⟨3⟩, 0, [4]⟩, .acknowledge ⟨2⟩,
    .failAll]

theorem fates_decided_fourEnds :
    (List.range 4).map (after (some 1) fourEnds).fate? =
        [some .dropped, some (.timedOut ⟨2⟩ 1), some .acknowledged, some .shutDown] ∧
      ∀ id, ¬ IsOpen (some 1) fourEnds id →
        (after (some 1) fourEnds).acknowledge id = (after (some 1) fourEnds, false) := by
  refine ⟨by decide, ?_⟩
  exact (fates_decided (some 1) fourEnds).2.2.2.2.2.2

end Outbox

end PeerMesh

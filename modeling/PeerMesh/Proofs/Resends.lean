import PeerMesh.Proofs.Steps

namespace PeerMesh

def dueTicks (start interval since count : Nat) : List Nat :=
  ((List.range count).map fun j => start + j * interval).filter fun tick => since + interval ≤ tick

/-- The ticks at which the packet is sent again, of those for which it is due. -/
def resendTicks (limit : Option Nat) (due : List Nat) : List Nat :=
  match limit with
  | none => due
  | some n => due.take n

variable {start interval since count : Nat} {limit : Option Nat} {id : PacketId}

theorem dueTicks_succ (start interval since count : Nat) :
    dueTicks start interval since (count + 1) = dueTicks start interval since count ++
      if since + interval ≤ start + count * interval then [start + count * interval] else [] := by
  rw [dueTicks, List.range_succ, List.map_append, List.filter_append, ← dueTicks]
  congr 1
  rw [List.map_singleton, List.filter_singleton, Bool.cond_decide]

theorem resendTicks_nil (limit : Option Nat) : resendTicks limit [] = [] := by
  cases limit with
  | none => rfl
  | some n => exact List.take_nil

theorem dueTicks_eq_nil (hi : 0 < interval) (h : ∀ j < count, start + j * interval ≤ since) :
    dueTicks start interval since count = [] := by
  rw [dueTicks, List.filter_eq_nil_iff]
  intro tick ht
  obtain ⟨j, hj, rfl⟩ := List.mem_map.mp ht
  have hle := h j (List.mem_range.mp hj)
  rw [decide_eq_true_eq]
  omega

namespace Standing

def IsResent (limit : Option Nat) (now interval : Nat) : Standing → Prop
  | waiting lastSent resends => interval ≤ now - lastSent ∧ limit ≠ some resends
  | decided _ => False

instance (limit : Option Nat) (now interval : Nat) (s : Standing) :
    Decidable (s.IsResent limit now interval) :=
  match s with
  | waiting _ _ => inferInstanceAs (Decidable (_ ∧ _))
  | decided _ => inferInstanceAs (Decidable False)

/-- The packet has taken part in all ticks for which it is due, of the first `count`. -/
def IsOnSchedule (limit : Option Nat) (id : PacketId) (start interval since count : Nat) :
    Standing → Prop
  | waiting lastSent resends =>
    resends = (dueTicks start interval since count).length ∧ (∀ n, limit = some n → resends ≤ n) ∧
      (dueTicks start interval since count = [] ∧ lastSent = since ∨
        lastSent + interval = start + count * interval ∧ since + interval ≤ lastSent)
  | decided fate => ∃ n, limit = some n ∧ n < (dueTicks start interval since count).length ∧
      fate = .timedOut id n

variable {s : Standing}

theorem due_iff {lastSent resends : Nat} (hi : 0 < interval)
    (h : (waiting lastSent resends).IsOnSchedule limit id start interval since count) :
    interval ≤ start + count * interval - lastSent ↔
      since + interval ≤ start + count * interval := by
  obtain ⟨-, -, ⟨-, rfl⟩ | ⟨hl, hs⟩⟩ := h
  · omega
  · omega

/-- At the next tick, the packet is sent again, times out, or is not due yet. -/
theorem IsOnSchedule.sweep (hi : 0 < interval)
    (h : s.IsOnSchedule limit id start interval since count) :
    (s.next limit id (.sweep (start + count * interval) interval)).IsOnSchedule limit id start
      interval since (count + 1) := by
  cases s with
  | decided fate =>
    obtain ⟨n, hl, hn, hf⟩ := h
    refine ⟨n, hl, ?_, hf⟩
    rw [dueTicks_succ, List.length_append]
    exact Nat.lt_add_right _ hn
  | waiting lastSent resends =>
    have hdue := due_iff hi h
    obtain ⟨hr, hb, hlast⟩ := h
    rw [next]
    by_cases hd : since + interval ≤ start + count * interval
    · have hlength : (dueTicks start interval since (count + 1)).length = resends + 1 := by
        rw [dueTicks_succ, if_pos hd, List.length_append, ← hr, List.length_singleton]
      rw [if_neg (Nat.not_lt.mpr (hdue.mpr hd))]
      by_cases hl : limit = some resends
      · rw [if_pos hl]
        exact ⟨resends, hl, hlength ▸ Nat.lt_succ_self _, rfl⟩
      · rw [if_neg hl]
        refine ⟨hlength.symm, fun n hn => ?_, .inr ⟨?_, hd⟩⟩
        · exact Nat.lt_of_le_of_ne (hb n hn) fun he => hl (he ▸ hn)
        · rw [Nat.succ_mul, Nat.add_assoc]
    · have hsame : dueTicks start interval since (count + 1) =
          dueTicks start interval since count := by
        rw [dueTicks_succ, if_neg hd, List.append_nil]
      rw [if_pos (Nat.lt_of_not_le (mt hdue.mp hd))]
      obtain hlast | ⟨hlast, hs⟩ := hlast
      · refine ⟨?_, hb, .inl ?_⟩
        · rw [hsame]
          exact hr
        · rw [hsame]
          exact hlast
      · exact absurd (Nat.le_trans hs (hlast ▸ Nat.le_add_right _ _)) hd

theorem IsOnSchedule.resendTicks_succ (hi : 0 < interval)
    (h : s.IsOnSchedule limit id start interval since count) :
    resendTicks limit (dueTicks start interval since (count + 1)) =
      resendTicks limit (dueTicks start interval since count) ++
        if s.IsResent limit (start + count * interval) interval then [start + count * interval]
        else [] := by
  rw [dueTicks_succ]
  cases s with
  | decided fate =>
    obtain ⟨n, rfl, hn, -⟩ := h
    rw [resendTicks, resendTicks, List.take_append_of_le_length (Nat.le_of_lt hn)]
    exact (List.append_nil _).symm
  | waiting lastSent resends =>
    have hdue := due_iff hi h
    obtain ⟨hr, hb, -⟩ := h
    simp only [IsResent, hdue]
    by_cases hd : since + interval ≤ start + count * interval
    swap
    · rw [if_neg hd, if_neg fun hs => hd hs.1, List.append_nil, List.append_nil]
    rw [if_pos hd]
    by_cases hl : limit = some resends
    · rw [if_neg fun hs => hs.2 hl, hl, List.append_nil, resendTicks, resendTicks,
        List.take_append_of_le_length (Nat.le_of_eq hr)]
    · rw [if_pos ⟨hd, hl⟩]
      cases limit with
      | none => rfl
      | some n =>
        have hlt : resends < n := Nat.lt_of_le_of_ne (hb n rfl) fun he => hl (he ▸ rfl)
        rw [resendTicks, resendTicks, List.take_of_length_le, List.take_of_length_le]
        · exact hr ▸ Nat.le_of_lt hlt
        · rw [List.length_append, ← hr]
          exact hlt

/-- What becomes of the packet: it times out at the first tick at which it would be sent again once
too often. -/
theorem IsOnSchedule.fate? (h : s.IsOnSchedule limit id start interval since count) :
    s.fate? = (limit.filter (· < (dueTicks start interval since count).length)).map
      (.timedOut id) := by
  cases s with
  | decided fate =>
    obtain ⟨n, rfl, hn, rfl⟩ := h
    rw [Option.filter_some, if_pos (decide_eq_true hn)]
    rfl
  | waiting lastSent resends =>
    obtain ⟨hr, hb, -⟩ := h
    cases limit with
    | none => rfl
    | some n =>
      rw [Option.filter_some, if_neg]
      · rfl
      · rw [decide_eq_true_eq, ← hr, Nat.not_lt]
        exact hb n rfl

end Standing

theorem KeyedList.filter_entries {κ α : Type} [DecidableEq κ] (m : KeyedList κ α) (k : κ) :
    m.entries.filter (fun e => e.1 = k) = (m.get? k).toList.map (k, ·) := by
  have hlookup (es : List (κ × α)) (hn : (es.map Prod.fst).Nodup) :
      es.filter (fun e => e.1 = k) = (es.lookup k).toList.map (k, ·) := by
    induction es with
    | nil => rfl
    | cons e es ih =>
      obtain ⟨l, a⟩ := e
      have hd := List.nodup_cons.mp hn
      rw [List.filter_cons, lookup_cons_ite]
      by_cases hl : k = l
      · subst hl
        have hrest : es.filter (fun e => e.1 = k) = [] := by
          rw [List.filter_eq_nil_iff]
          intro e he hk
          exact hd.1 (List.mem_map.mpr ⟨e, he, of_decide_eq_true hk⟩)
        rw [if_pos (decide_eq_true rfl), if_pos rfl, hrest]
        rfl
      · have hne : ¬ decide (l = k) = true := fun hk => hl (of_decide_eq_true hk).symm
        rw [if_neg hne, if_neg hl, ih hd.2]
  exact hlookup m.entries m.nodup

theorem UdpConfig.resendInterval_pos_of_check {c : UdpConfig} (h : c.check = .ok ()) :
    0 < c.resendInterval := by
  by_contra hz
  have hzero : c.announceInterval = 0 ∨ c.resendInterval = 0 := .inr (Nat.eq_zero_of_not_pos hz)
  rw [check, if_pos hzero] at h
  split at h
  · cases h
  · split at h
    · cases h
    · split at h
      · cases h
      · cases h

namespace Outbox

def Event.Spares (id : PacketId) : Event → Prop
  | expect x => x.id ≠ id
  | acknowledge i => i ≠ id
  | sweep _ _ => False
  | failAll => False

end Outbox

namespace Standing

theorem next_of_spares {e : Outbox.Event} (h : e.Spares id) (s : Standing) :
    s.next limit id e = s := by
  cases e with
  | expect y => exact if_neg (Ne.symm h)
  | acknowledge i => exact if_neg (Ne.symm h)
  | sweep now interval => exact h.elim
  | failAll => exact h.elim

theorem foldl_next_of_spares {events : List Outbox.Event} (h : ∀ e ∈ events, e.Spares id)
    (s : Standing) : events.foldl (next limit id) s = s := by
  induction events with
  | nil => rfl
  | cons e events ih =>
    obtain ⟨hfirst, hevents⟩ := List.forall_mem_cons.mp h
    rw [List.foldl_cons, next_of_spares hfirst, ih hevents]

end Standing

namespace Outbox

theorem filter_due (o : Outbox) (now interval : Nat) (id : PacketId) :
    (o.due now interval).2.filter (fun r => r.packet = id) =
      ((o.pending.get? id).filter fun p => IsDue now interval p ∧ ¬ o.IsSpent p).toList.map
        fun p => ⟨id, p.endpoint, p.datagram⟩ := by
  have hdue : (o.due now interval).2 =
      (o.pending.entries.filter fun e => IsDue now interval e.2 ∧ ¬ o.IsSpent e.2).map
        fun e => ⟨e.1, e.2.endpoint, e.2.datagram⟩ := by
    rw [due]
    dsimp only
    rw [List.partition_eq_filter_filter]
    dsimp only
    rw [List.filter_filter]
    congr 1
    apply List.filter_congr
    intro e _
    simp [Bool.and_comm]
  have hcomm : (o.pending.entries.filter fun e =>
      IsDue now interval e.2 ∧ ¬ o.IsSpent e.2).filter (fun e => e.1 = id) =
        (o.pending.entries.filter fun e => e.1 = id).filter fun e =>
          IsDue now interval e.2 ∧ ¬ o.IsSpent e.2 := List.filter_comm _ _ _
  rw [hdue, List.filter_map]
  show List.map _ ((o.pending.entries.filter _).filter fun e => e.1 = id) = _
  rw [hcomm, KeyedList.filter_entries]
  cases o.pending.get? id with
  | none => rfl
  | some p =>
    rw [Option.toList_some, List.map_singleton, List.filter_singleton, Option.filter_some]
    by_cases h : IsDue now interval p ∧ ¬ o.IsSpent p
    · simp [h]
    · simp [h]

theorem eq_of_expect {front back front' back' : List Event} {x y : Registration}
    (hfront : ∀ z, .expect z ∈ front → z.id ≠ x.id) (hback : ∀ z, .expect z ∈ back → z.id ≠ x.id)
    (hy : y.id = x.id) (h : front ++ .expect x :: back = front' ++ .expect y :: back') :
    x = y ∧ back = back' := by
  obtain ⟨mid, rfl, hm⟩ | ⟨mid, rfl, hm⟩ := List.append_eq_append_iff.mp h
  · cases mid with
    | nil =>
      cases hm
      exact ⟨rfl, rfl⟩
    | cons e mid =>
      cases hm
      exact absurd hy (hback y (List.mem_append_right mid List.mem_cons_self))
  · cases mid with
    | nil =>
      cases hm
      exact ⟨rfl, rfl⟩
    | cons e mid =>
      cases hm
      exact absurd hy (hfront y (List.mem_append_right front' List.mem_cons_self))

theorem filter_due_after (limit : Option Nat) {front back : List Event} {x : Registration}
    (hfront : ∀ z, .expect z ∈ front → z.id ≠ x.id) (hback : ∀ z, .expect z ∈ back → z.id ≠ x.id)
    (now interval : Nat) :
    ((after limit (front ++ .expect x :: back)).due now interval).2.filter
        (fun r => r.packet = x.id) =
      if (x.standing limit back).IsResent limit now interval then
        [⟨x.id, x.endpoint, x.datagram⟩]
      else [] := by
  rw [filter_due]
  cases hs : x.standing limit back with
  | decided fate =>
    have hnone : (after limit (front ++ .expect x :: back)).pending.get? x.id = none := by
      by_contra hp
      obtain ⟨p, hp⟩ := Option.ne_none_iff_exists'.mp hp
      obtain ⟨front', y, back', he, hy, hw, -⟩ := pending_after.mp hp
      obtain ⟨rfl, rfl⟩ := eq_of_expect hfront hback hy he
      cases hs.symm.trans hw
    rw [hnone]
    rfl
  | waiting lastSent resends =>
    have hb : (Book.after limit (front ++ .expect x :: back))[(registrations front).length]? =
        some (x, .waiting lastSent resends) :=
      Book.getElem?_after.mpr ⟨front, back, rfl, rfl, hs.symm⟩
    have hr := reflects_after limit (front ++ .expect x :: back)
    let p : PendingPacket :=
      ⟨x.datagram, x.endpoint, lastSent, resends, (registrations front).length⟩
    have hp : (after limit (front ++ .expect x :: back)).pending.get? x.id = some p :=
      hr.waiting _ _ _ _ hb
    have hspent := hr.isSpent_iff (p := p) (Book.bounded_after hb)
    have hresent : (IsDue now interval p ∧ ¬ (after limit (front ++ .expect x :: back)).IsSpent p) ↔
        (Standing.waiting lastSent resends).IsResent limit now interval :=
      and_congr_right fun _ => not_congr hspent
    rw [hp, Option.filter_some]
    by_cases h : (Standing.waiting lastSent resends).IsResent limit now interval
    · rw [if_pos (decide_eq_true (hresent.mpr h)), if_pos h]
      rfl
    · rw [if_neg fun hd => h (hresent.mp (of_decide_eq_true hd)), if_neg h]
      rfl

end Outbox

namespace Registration

variable {x : Registration} {back : List Outbox.Event}

theorem standing_append_of_spares (limit : Option Nat) (back : List Outbox.Event)
    {events : List Outbox.Event} (h : ∀ e ∈ events, e.Spares x.id) :
    x.standing limit (back ++ events) = x.standing limit back := by
  rw [standing, List.foldl_append, ← standing, Standing.foldl_next_of_spares h]

theorem standing_append_decided {fate : Fate} (h : x.standing limit back = .decided fate)
    (events : List Outbox.Event) : x.standing limit (back ++ events) = .decided fate := by
  rw [standing, List.foldl_append, ← standing, h, Standing.foldl_next_decided]

theorem decided_of_acknowledge {events : List Outbox.Event} (h : .acknowledge x.id ∈ events) :
    ∃ fate, x.standing limit (back ++ events) = .decided fate := by
  obtain ⟨before, later, rfl⟩ := List.append_of_mem h
  have hack : ∃ fate, x.standing limit (back ++ before ++ [.acknowledge x.id]) = .decided fate := by
    rw [standing, List.foldl_append, ← standing]
    cases x.standing limit (back ++ before) with
    | waiting lastSent resends => exact ⟨.acknowledged, if_pos rfl⟩
    | decided fate => exact ⟨fate, if_pos rfl⟩
  obtain ⟨fate, hfate⟩ := hack
  refine ⟨fate, ?_⟩
  have happ := standing_append_decided hfate later
  rwa [List.append_assoc, List.append_assoc] at happ

theorem standing_concat (e : Outbox.Event) :
    x.standing limit (back ++ [e]) = (x.standing limit back).next limit x.id e := by
  rw [standing, List.foldl_append]
  rfl

end Registration

/-- The parcel is the packet with an id. -/
def Parcel.Carries (id : PacketId) (p : Parcel) : Prop :=
  Datagram.packetId? p.datagram = some id

instance (id : PacketId) (p : Parcel) : Decidable (p.Carries id) :=
  inferInstanceAs (Decidable (_ = _))

/-- A parcel that the datagram transport offers to the network, with the time and with where peers
are reached then. -/
structure Transmission where
  now : Nat
  parcel : Parcel
  endpoints : AddressBook

/-- The transport `t₀`, started at the time `start`, has become `t` at the time `clock`: of its
ticks `count` have been, and its outbox is what the events `history` have made of it. -/
structure UdpTransport.Ticks (t₀ : UdpTransport) (start count clock : Nat)
    (history : List Outbox.Event) (t : UdpTransport) : Prop where
  config : t.config = t₀.config
  draw : t.ids.packets.draw = t₀.ids.packets.draw
  resendAt : t.resendAt? = some (start + count * t₀.config.resendInterval)
  past : ∀ j < count, start + j * t₀.config.resendInterval ≤ clock
  outbox : t.outbox = .after t₀.config.maxResends history
  labelled : ∀ x, .expect x ∈ history → Datagram.packetId? x.datagram = some x.id ∧
    ∃ k < t.ids.packets.used, t₀.ids.packets.draw k = x.id

namespace UdpTransport

variable {t₀ t t' : UdpTransport} {clock now : Nat} {history events : List Outbox.Event}

theorem Ticks.after (h : t₀.Ticks start count clock history t)
    (ho : t'.outbox = events.foldl Outbox.step t.outbox) :
    t'.outbox = .after t₀.config.maxResends (history ++ events) := by
  rw [ho, h.outbox, Outbox.after, Outbox.after, List.foldl_append]

theorem Ticks.sends {parcels : List Parcel} (h : t₀.Ticks start count clock history t)
    (hs : t.Sends parcels t') (hnow : clock ≤ now)
    (ho : t'.outbox = events.foldl Outbox.step t.outbox)
    (hnew : ∀ x, .expect x ∈ events → Datagram.packetId? x.datagram = some x.id ∧
      ∃ k < t'.ids.packets.used, t₀.ids.packets.draw k = x.id) :
    t₀.Ticks start count now (history ++ events) t' := by
  refine ⟨hs.config.trans h.config, hs.ids.draw.trans h.draw, hs.resendAt.trans h.resendAt,
    fun j hj => Nat.le_trans (h.past j hj) hnow, h.after ho, fun x hx => ?_⟩
  obtain hx | hx := List.mem_append.mp hx
  · obtain ⟨hd, k, hk, he⟩ := h.labelled x hx
    exact ⟨hd, k, Nat.lt_of_lt_of_le hk hs.ids.used, he⟩
  · exact hnew x hx

theorem resendDue_of_lt {due : Nat} (h : t.resendAt? = some due) (hlt : now < due) :
    t.resendDue now = t ∧ t.sweeps now = [] := by
  obtain ⟨s, hs, rfl⟩ := Option.map_eq_some_iff.mp h
  rw [resendDue, sweeps, hs]
  exact ⟨if_neg (Nat.not_le.mpr hlt), if_neg (Nat.not_le.mpr hlt)⟩

def resent (t : UdpTransport) (now : Nat) : List Parcel :=
  (t.outbox.due now t.config.resendInterval).2.map fun r =>
    .unicast (t.endpoints.address r.endpoint) r.datagram

theorem Ticks.tick (h : t₀.Ticks start count clock history t)
    (hnow : now = start + count * t₀.config.resendInterval) :
    t.sweeps now = [.sweep now t₀.config.resendInterval] ∧
      t₀.Ticks start (count + 1) now (history ++ t.sweeps now) (t.resendDue now) ∧
      (t.resendDue now).ids = t.ids ∧
      (t.resendDue now).link.offered = t.link.offered ++ t.resent now := by
  obtain ⟨s, hs, hdue⟩ := Option.map_eq_some_iff.mp h.resendAt
  have hle : s.resend ≤ now := Nat.le_of_eq (hdue.trans hnow.symm)
  have hsweeps : t.sweeps now = [.sweep now t₀.config.resendInterval] := by
    rw [sweeps, hs]
    dsimp only
    rw [if_pos hle, h.config]
  have hresend : t.resendDue now = (({ t with schedule := some { s with
      resend := now + t.config.resendInterval } } : UdpTransport).resend now).prune now
        t.config.multiPartTimeout := by
    rw [resendDue, hs]
    exact if_pos hle
  refine ⟨hsweeps, ⟨?_, ?_, ?_, fun j hj => ?_, h.after (t.resendDue_works now).outbox,
    fun x hx => ?_⟩, by rw [hresend]; rfl, ?_⟩
  · rw [hresend]
    exact h.config
  · rw [hresend]
    exact h.draw
  · rw [hresend]
    show some (now + t.config.resendInterval) = _
    rw [h.config, hnow, Nat.succ_mul, Nat.add_assoc]
  · rw [hnow]
    exact Nat.add_le_add_left (Nat.mul_le_mul_right _ (Nat.le_of_lt_succ hj)) _
  · rw [hsweeps, List.mem_append, List.mem_singleton] at hx
    obtain hx | hx := hx
    · rw [hresend]
      exact h.labelled x hx
    · cases hx
  · rw [hresend]
    exact t.link.offered_offerAll _

/-- Of the transport, the registration `x` is tracked, which the events `later` have followed: its
id is not that of another packet. -/
structure Tracks (t₀ : UdpTransport) (start count clock : Nat) (front : List Outbox.Event)
    (x : Registration) (later : List Outbox.Event) (t : UdpTransport) : Prop
    extends Ticks t₀ start count clock (front ++ .expect x :: later) t where
  front_ne : ∀ y, .expect y ∈ front → y.id ≠ x.id
  later_ne : ∀ y, .expect y ∈ later → y.id ≠ x.id
  drawn : ∃ k < t.ids.packets.used, t₀.ids.packets.draw k = x.id

theorem Tracks.append {front later : List Outbox.Event} {x : Registration} {count' : Nat}
    (h : t₀.Tracks start count clock front x later t)
    (ht : t₀.Ticks start count' now (front ++ .expect x :: later ++ events) t')
    (hused : t.ids.packets.used ≤ t'.ids.packets.used)
    (hnew : ∀ y, .expect y ∈ events → y.id ≠ x.id) :
    t₀.Tracks start count' now front x (later ++ events) t' := by
  rw [List.append_assoc, List.cons_append] at ht
  refine ⟨ht, h.front_ne, fun y hy => ?_, ?_⟩
  · exact (List.mem_append.mp hy).elim (h.later_ne y) (hnew y)
  · obtain ⟨k, hk, hid⟩ := h.drawn
    exact ⟨k, Nat.lt_of_lt_of_le hk hused, hid⟩

theorem Tracks.filter_resent {front later : List Outbox.Event} {x : Registration}
    (h : t₀.Tracks start count clock front x later t) (now : Nat) :
    (t.resent now).filter (·.Carries x.id) =
      if (x.standing t₀.config.maxResends later).IsResent t₀.config.maxResends now
          t₀.config.resendInterval then
        [.unicast (t.endpoints.address x.endpoint) x.datagram]
      else [] := by
  have hlabel : ∀ r ∈ (t.outbox.due now t.config.resendInterval).2,
      decide (Datagram.packetId? r.datagram = some x.id) = decide (r.packet = x.id) := by
    intro r hr
    rw [h.outbox] at hr
    obtain ⟨front', y, back', _, _, he, -, -, -, rfl⟩ := (Outbox.mem_due_after ..).mp hr
    have hy : .expect y ∈ front ++ .expect x :: later :=
      he ▸ List.mem_append_right front' List.mem_cons_self
    apply decide_eq_decide.mpr
    rw [(h.labelled y hy).1, Option.some.injEq]
  rw [resent, List.filter_map]
  refine (congrArg (List.map _) (List.filter_congr hlabel)).trans ?_
  rw [h.outbox, h.config, Outbox.filter_due_after _ h.front_ne h.later_ne]
  split
  · rfl
  · rfl

end UdpTransport

namespace Node

def resendAt? (n : Node) : Option Nat :=
  n.udp.bind UdpTransport.resendAt?

/-- Time does not go back, and no event is later than resends that are due. -/
def Timely (n : Node) (clock : Nat) : List (Nat × Event) → Prop
  | [] => True
  | e :: events => clock ≤ e.1 ∧ (∀ due ∈ n.resendAt?, e.1 ≤ due) ∧
      (n.step e.1 e.2).1.Timely e.1 events

instance decidableTimely : (events : List (Nat × Event)) → (n : Node) → (clock : Nat) →
    Decidable (n.Timely clock events)
  | [], _, _ => inferInstanceAs (Decidable True)
  | e :: events, n, _ =>
    have := decidableTimely events (n.step e.1 e.2).1 e.1
    inferInstanceAs (Decidable (_ ∧ _ ∧ _))

def transmitted (n : Node) (now : Nat) (e : Event) : List Transmission :=
  match n.udp, (n.step now e).1.udp with
  | some t, some t' =>
    (t'.link.offered.drop t.link.offered.length).map fun parcel => ⟨now, parcel, t.endpoints⟩
  | _, _ => []

def transmissions (n : Node) : List (Nat × Event) → List Transmission
  | [] => []
  | e :: events => n.transmitted e.1 e.2 ++ (n.step e.1 e.2).1.transmissions events

theorem transmitted_eq {n : Node} {t t' : UdpTransport} {now : Nat} {e : Event}
    (hu : n.udp = some t) (hu' : (n.step now e).1.udp = some t') {parcels : List Parcel}
    (h : t'.link.offered = t.link.offered ++ parcels) :
    n.transmitted now e = parcels.map fun parcel => ⟨now, parcel, t.endpoints⟩ := by
  rw [transmitted, hu, hu']
  dsimp only
  rw [h, List.drop_left]

theorem mem_outboxEvents {n : Node} {now : Nat} {e : Event} (he : ¬ e.Stops)
    (hr : e ≠ .resendDue) {ev : Outbox.Event} (h : ev ∈ n.outboxEvents now e) :
    (∃ id, ev = .acknowledge id ∧ e.Acknowledges id) ∨
      ∃ endpoint message, ∃ p ∈ n.reliablePackets e, n.reliable? e = some (endpoint, message) ∧
        ev = .expect ⟨now, p.id, endpoint, p.datagram⟩ := by
  have hsends (hev : n.outboxEvents now e = n.sendEvents now e) :
      ∃ endpoint message, ∃ p ∈ n.reliablePackets e, n.reliable? e = some (endpoint, message) ∧
        ev = .expect ⟨now, p.id, endpoint, p.datagram⟩ := by
    rw [hev, sendEvents] at h
    cases hs : n.reliable? e with
    | none =>
      rw [hs] at h
      cases h
    | some x =>
      rw [hs] at h
      obtain ⟨p, hp, rfl⟩ := List.mem_map.mp h
      exact ⟨x.1, x.2, p, hp, rfl, rfl⟩
  cases e with
  | datagram bs source =>
    obtain ⟨id, hid, rfl⟩ := List.mem_map.mp h
    obtain ⟨a, ha, hid⟩ := List.mem_filterMap.mp hid
    obtain rfl := Sorted.acknowledgement?_eq_some.mp hid
    exact .inl ⟨id, rfl, ha⟩
  | resendDue => exact absurd rfl hr
  | stopUdp => exact absurd trivial he
  | shutDown => exact absurd trivial he
  | _ => exact .inr (hsends rfl)

variable {n : Node} {t₀ t : UdpTransport} {clock now : Nat} {history : List Outbox.Event}
  {e : Event}

theorem expect_outboxEvents (hu : n.udp = some t) (he : ¬ e.Stops) (hr : e ≠ .resendDue)
    {x : Registration} (h : .expect x ∈ n.outboxEvents now e) :
    Datagram.packetId? x.datagram = some x.id ∧ ∃ k, t.ids.packets.draw k = x.id ∧
      t.ids.packets.used ≤ k ∧ k < (t.act now (n.act e)).ids.packets.used := by
  obtain ⟨id, hid, -⟩ | ⟨endpoint, message, p, hp, hrel, hev⟩ := mem_outboxEvents he hr h
  · cases hid
  · cases hev
    rw [reliablePackets, hu, hrel] at hp
    obtain ⟨i, hi⟩ := List.mem_iff_getElem?.mp hp
    obtain ⟨hid, hlt⟩ := Envelope.id_packets hi
    refine ⟨Datagram.packetId?_packet p, _, hid.symm, Nat.le_add_right _ i, ?_⟩
    rw [act_of_reliable? hrel, UdpTransport.act, UdpTransport.ids_sendReliable]
    exact hlt

/-- An event is a tick, or it sends packets with new ids only. -/
theorem step_ticks (hu : n.udp = some t) (h : t₀.Ticks start count clock history t)
    (hclock : clock ≤ now) (hdue : ∀ due ∈ n.resendAt?, now ≤ due) (he : ¬ e.Stops) :
    ∃ t', (n.step now e).1.udp = some t' ∧
      (t₀.Ticks start (count + 1) now (history ++ n.outboxEvents now e) t' ∧
          now = start + count * t₀.config.resendInterval ∧
          n.outboxEvents now e = [.sweep now t₀.config.resendInterval] ∧
          t'.ids = t.ids ∧ t'.link.offered = t.link.offered ++ t.resent now ∨
        t₀.Ticks start count now (history ++ n.outboxEvents now e) t' ∧
          (∃ parcels, t.Sends parcels t') ∧
          ∀ ev ∈ n.outboxEvents now e, (∃ id, ev = .acknowledge id ∧ e.Acknowledges id) ∨
            ∃ x, ev = .expect x ∧ ∃ k, t.ids.packets.draw k = x.id ∧ t.ids.packets.used ≤ k ∧
              k < t'.ids.packets.used) := by
  have hstep := n.udp_step now e
  rw [hu, Option.map_some] at hstep
  have hle : now ≤ start + count * t₀.config.resendInterval := by
    apply hdue
    rw [resendAt?, hu]
    exact h.resendAt
  refine ⟨_, hstep, ?_⟩
  by_cases hr : e = .resendDue
  · subst hr
    have hev : n.outboxEvents now .resendDue = t.sweeps now := by rw [outboxEvents, hu]
    rw [hev]
    obtain hlt | heq := Nat.lt_or_eq_of_le hle
    · obtain ⟨ht, hs⟩ := UdpTransport.resendDue_of_lt h.resendAt hlt
      have hnothing : t.Sends [] t := .nothing rfl rfl rfl rfl
      have ha : t.act now (n.act .resendDue) = t := ht
      rw [hs, ha]
      refine .inr ⟨h.sends hnothing hclock rfl fun x hx => ?_, ⟨[], hnothing⟩,
        List.forall_mem_nil _⟩
      cases hx
    · obtain ⟨hs, ht, ho⟩ := h.tick heq
      exact .inl ⟨ht, heq, hs, ho⟩
  · obtain ⟨parcels, hs⟩ := t.act_sends now (n.act_isFresh he hr)
    have ho : (t.act now (n.act e)).outbox = (n.outboxEvents now e).foldl Outbox.step t.outbox := by
      cases n.step_advances now e with
      | absent hn => cases hu.symm.trans hn
      | present hu₀ hu' ht =>
        cases hu.symm.trans hu₀
        cases hstep.symm.trans hu'
        exact ht.outbox
    refine .inr ⟨h.sends hs hclock ho fun x hx => ?_, ⟨parcels, hs⟩, fun ev hev => ?_⟩
    · obtain ⟨hd, k, hk, -, hlt⟩ := expect_outboxEvents hu he hr hx
      exact ⟨hd, k, hlt, h.draw ▸ hk⟩
    · obtain hack | ⟨endpoint, message, p, hp, hrel, rfl⟩ := mem_outboxEvents he hr hev
      · exact .inl hack
      · obtain ⟨-, hdrawn⟩ := expect_outboxEvents hu he hr hev
        exact .inr ⟨_, rfl, hdrawn⟩

theorem acknowledge_mem_outboxEvents (n : Node) (now : Nat) {e : Event} {id : PacketId}
    (h : e.Acknowledges id) : .acknowledge id ∈ n.outboxEvents now e := by
  cases e with
  | datagram bs source =>
    exact List.mem_map.mpr ⟨id, List.mem_filterMap.mpr ⟨_, h, rfl⟩, rfl⟩
  | _ => exact h.elim

variable {front later : List Outbox.Event} {x : Registration}

def again (t₀ t : UdpTransport) (x : Registration) (later : List Outbox.Event) (now : Nat) :
    List Transmission :=
  if (x.standing t₀.config.maxResends later).IsResent t₀.config.maxResends now
      t₀.config.resendInterval then
    [⟨now, .unicast (t.endpoints.address x.endpoint) x.datagram, t.endpoints⟩]
  else []

theorem again_of_decided {fate : Fate}
    (h : x.standing t₀.config.maxResends later = .decided fate) (now : Nat) :
    again t₀ t x later now = [] := by
  rw [again, h]
  rfl

/-- At a tick, the packet is sent again if that is due; all other events leave it alone, but for its
acknowledgement. -/
theorem step_tracks {t' : UdpTransport} (hu : n.udp = some t)
    (hu' : (n.step now e).1.udp = some t') (hids : t'.ids.packets.IsFresh)
    (h : t₀.Tracks start count clock front x later t) (hclock : clock ≤ now)
    (hdue : ∀ due ∈ n.resendAt?, now ≤ due) (he : ¬ e.Stops) :
    t₀.Tracks start (count + 1) now front x
          (later ++ [.sweep now t₀.config.resendInterval]) t' ∧
        now = start + count * t₀.config.resendInterval ∧ ¬ e.Acknowledges x.id ∧
        (n.transmitted now e).filter (·.parcel.Carries x.id) = again t₀ t x later now ∨
      ∃ events, t₀.Tracks start count now front x (later ++ events) t' ∧
        (n.transmitted now e).filter (·.parcel.Carries x.id) = [] ∧
        (¬ e.Acknowledges x.id → ∀ ev ∈ events, ev.Spares x.id) ∧
        (e.Acknowledges x.id → .acknowledge x.id ∈ events) := by
  obtain ⟨t'', hu'', hstep⟩ := step_ticks hu h.toTicks hclock hdue he
  cases hu'.symm.trans hu''
  obtain ⟨ht, hnow, hev, hids, ho⟩ | ⟨ht, ⟨parcels, hs⟩, hev⟩ := hstep
  · have hle : t.ids.packets.used ≤ t'.ids.packets.used := by rw [hids]
    rw [hev] at ht
    refine .inl ⟨h.append ht hle fun y hy => ?_, hnow, fun hack => ?_, ?_⟩
    · cases List.mem_singleton.mp hy
    · have hmem := acknowledge_mem_outboxEvents n now hack
      rw [hev] at hmem
      cases List.mem_singleton.mp hmem
    · rw [transmitted_eq hu hu' ho, List.filter_map]
      refine (congrArg (List.map _) (h.filter_resent now)).trans ?_
      rw [again]
      split
      · rfl
      · rfl
  · obtain ⟨k₀, hk₀, hid⟩ := h.drawn
    have hne {k : Nat} {id : PacketId} (hdraw : t.ids.packets.draw k = id)
        (hk : t.ids.packets.used ≤ k) (hk' : k < t'.ids.packets.used) : id ≠ x.id := by
      rintro rfl
      rw [← hid, ← h.draw, ← hs.ids.draw] at hdraw
      have heq := hids k hk' k₀ (Nat.lt_of_lt_of_le hk₀ hs.ids.used) hdraw
      exact absurd hk₀ (Nat.not_lt.mpr (heq ▸ hk))
    have hnew : ∀ y, .expect y ∈ n.outboxEvents now e → y.id ≠ x.id := by
      intro y hy
      obtain ⟨id, hack, -⟩ | ⟨z, hz, k, hdraw, hk, hk'⟩ := hev _ hy
      · cases hack
      · cases hz
        exact hne hdraw hk hk'
    refine .inr ⟨_, h.append ht hs.ids.used hnew, ?_, fun hack ev hmem => ?_,
      acknowledge_mem_outboxEvents n now⟩
    · rw [transmitted_eq hu hu' hs.offered, List.filter_eq_nil_iff]
      intro y hy hcarries
      obtain ⟨parcel, hp, rfl⟩ := List.mem_map.mp hy
      obtain ⟨k, hdraw, hk, hk'⟩ := hs.fresh parcel hp x.id (of_decide_eq_true hcarries)
      exact hne hdraw hk hk' rfl
    · obtain ⟨id, rfl, hacks⟩ | ⟨y, rfl, -⟩ := hev ev hmem
      · rintro rfl
        exact hack hacks
      · exact hnew y hmem

variable {events more : List (Nat × Event)} {t₁ : UdpTransport}

theorem step_udp (hu : n.udp = some t) (now : Nat) (e : Event) :
    ∃ t', (n.step now e).1.udp = some t' := by
  have hstep := n.udp_step now e
  rw [hu, Option.map_some] at hstep
  exact ⟨_, hstep⟩

theorem after_ticks (hu : n.udp = some t) (h : t₀.Ticks start count clock history t)
    (htimely : n.Timely clock (events ++ more)) (he : ∀ e ∈ events, ¬ e.2.Stops) :
    ∃ t' count' clock' history', (n.after events).udp = some t' ∧
      t₀.Ticks start count' clock' history' t' ∧ (n.after events).Timely clock' more := by
  induction events generalizing n t count clock history with
  | nil => exact ⟨t, count, clock, history, hu, h, htimely⟩
  | cons e events ih =>
    obtain ⟨hclock, hdue, hrest⟩ := htimely
    obtain ⟨hfirst, he⟩ := List.forall_mem_cons.mp he
    obtain ⟨t', hu', ⟨ht, -⟩ | ⟨ht, -⟩⟩ := step_ticks hu h hclock hdue hfirst
    · exact ih hu' ht hrest he
    · exact ih hu' ht hrest he

/-- The packet is sent again whenever that is due, as long as it is not acknowledged. -/
theorem after_unacknowledged (hi : 0 < t₀.config.resendInterval) (hu : n.udp = some t)
    (hend : (n.after (events ++ more)).udp = some t₁) (hids : t₁.ids.packets.IsFresh)
    (h : t₀.Tracks start count clock front x later t)
    (hs : (x.standing t₀.config.maxResends later).IsOnSchedule t₀.config.maxResends x.id start
      t₀.config.resendInterval x.now count)
    (htimely : n.Timely clock (events ++ more)) (he : ∀ e ∈ events, ¬ e.2.Stops)
    (hack : ∀ e ∈ events, ¬ e.2.Acknowledges x.id) :
    ∃ t' count' clock' later', (n.after events).udp = some t' ∧
      t₀.Tracks start count' clock' front x later' t' ∧
      (x.standing t₀.config.maxResends later').IsOnSchedule t₀.config.maxResends x.id start
        t₀.config.resendInterval x.now count' ∧
      (n.after events).Timely clock' more ∧
      resendTicks t₀.config.maxResends (dueTicks start t₀.config.resendInterval x.now count') =
        resendTicks t₀.config.maxResends (dueTicks start t₀.config.resendInterval x.now count) ++
          ((n.transmissions events).filter (·.parcel.Carries x.id)).map Transmission.now ∧
      ∀ y ∈ (n.transmissions events).filter (·.parcel.Carries x.id),
        y.parcel = .unicast (y.endpoints.address x.endpoint) x.datagram := by
  induction events generalizing n t count clock later with
  | nil => exact ⟨t, count, clock, later, hu, h, hs, htimely, (List.append_nil _).symm, nofun⟩
  | cons e events ih =>
    obtain ⟨hclock, hdue, hrest⟩ := htimely
    obtain ⟨hfirst, he⟩ := List.forall_mem_cons.mp he
    obtain ⟨hnot, hack⟩ := List.forall_mem_cons.mp hack
    rw [transmissions, List.filter_append, List.map_append]
    obtain ⟨t', hu'⟩ := step_udp hu e.1 e.2
    obtain ⟨ht, hnow, -, hsent⟩ | ⟨evs, ht, hsent, hspares, -⟩ :=
      step_tracks hu hu' (isFresh_of_after hu' hend hids) h hclock hdue hfirst
    · have hs' := hs.sweep hi
      have hticks := hs.resendTicks_succ hi
      rw [← hnow, ← Registration.standing_concat] at hs'
      rw [← hnow] at hticks
      obtain ⟨t'', count', clock', later', hu'', ht', hs'', htimely', hr, hy⟩ :=
        ih hu' hend ht hs' hrest he hack
      refine ⟨t'', count', clock', later', hu'', ht', hs'', htimely', ?_, ?_⟩
      · rw [hr, hticks, hsent, again, List.append_assoc]
        split
        · rfl
        · rfl
      · rw [hsent, again]
        intro y hmem
        obtain hmem | hmem := List.mem_append.mp hmem
        · split at hmem
          · rw [List.mem_singleton.mp hmem]
          · cases hmem
        · exact hy y hmem
    · have hs' := hs
      rw [← Registration.standing_append_of_spares _ later (hspares hnot)] at hs'
      rw [hsent]
      exact ih hu' hend ht hs' hrest he hack

theorem transmissions_of_decided (hu : n.udp = some t)
    (hend : (n.after events).udp = some t₁) (hids : t₁.ids.packets.IsFresh)
    (h : t₀.Tracks start count clock front x later t) {fate : Fate}
    (hs : x.standing t₀.config.maxResends later = .decided fate)
    (htimely : n.Timely clock events) (he : ∀ e ∈ events, ¬ e.2.Stops) :
    (n.transmissions events).filter (·.parcel.Carries x.id) = [] := by
  induction events generalizing n t count clock later with
  | nil => rfl
  | cons e events ih =>
    obtain ⟨hclock, hdue, hrest⟩ := htimely
    obtain ⟨hfirst, he⟩ := List.forall_mem_cons.mp he
    have hdecided := Registration.standing_append_decided hs
    rw [transmissions, List.filter_append]
    obtain ⟨t', hu'⟩ := step_udp hu e.1 e.2
    obtain ⟨ht, -, -, hsent⟩ | ⟨evs, ht, hsent, -⟩ :=
      step_tracks hu hu' (isFresh_of_after hu' hend hids) h hclock hdue hfirst
    · rw [hsent, again_of_decided hs, List.nil_append]
      exact ih hu' hend ht (hdecided _) hrest he
    · rw [hsent, List.nil_append]
      exact ih hu' hend ht (hdecided _) hrest he

theorem after_tracks (hu : n.udp = some t)
    (hend : (n.after (events ++ more)).udp = some t₁) (hids : t₁.ids.packets.IsFresh)
    (h : t₀.Tracks start count clock front x later t)
    (htimely : n.Timely clock (events ++ more)) (he : ∀ e ∈ events, ¬ e.2.Stops) :
    ∃ t' count' clock' later', (n.after events).udp = some t' ∧
      t₀.Tracks start count' clock' front x later' t' ∧ (n.after events).Timely clock' more := by
  induction events generalizing n t count clock later with
  | nil => exact ⟨t, count, clock, later, hu, h, htimely⟩
  | cons e events ih =>
    obtain ⟨hclock, hdue, hrest⟩ := htimely
    obtain ⟨hfirst, he⟩ := List.forall_mem_cons.mp he
    obtain ⟨t', hu'⟩ := step_udp hu e.1 e.2
    obtain ⟨ht, -⟩ | ⟨evs, ht, -⟩ :=
      step_tracks hu hu' (isFresh_of_after hu' hend hids) h hclock hdue hfirst
    · exact ih hu' hend ht hrest he
    · exact ih hu' hend ht hrest he

theorem outboxEvents_of_reliable? {endpoint : EndpointId} {message : Envelope}
    (h : n.reliable? e = some (endpoint, message)) :
    n.outboxEvents now e = UdpTransport.registers now endpoint (n.reliablePackets e) := by
  obtain ⟨peer, ⟨receiver, body, rfl, -⟩ | rfl⟩ := reliable?_cases h
  · simp only [outboxEvents, h]
  · simp only [outboxEvents, h]

theorem status_sendBy (hu : n.udp = some t) (now : Nat) (peer : PeerId) (endpoint : EndpointId)
    (message : Envelope) : (n.sendBy now true message (.udp peer endpoint)).2 =
      .awaiting (List.range' t.outbox.nextTicket
        (message.packets n.id true t.config.maxDatagram t.ids).1.length) := by
  obtain ⟨ids, link, hs, -⟩ := t.sendReliable_eq n.id endpoint message now _ rfl
  unfold sendBy
  rw [hu]
  dsimp only
  rw [if_pos rfl, hs]

theorem status_of_reliable? (hu : n.udp = some t) {endpoint : EndpointId} {message : Envelope}
    (h : n.reliable? e = some (endpoint, message)) : (n.step now e).2.status =
      some (.awaiting (List.range' t.outbox.nextTicket (n.reliablePackets e).length)) := by
  rw [reliablePackets, hu, h]
  obtain ⟨peer, ⟨receiver, body, rfl, hd⟩ | rfl⟩ := reliable?_cases h
  · show some (n.send now receiver body true).2 = _
    unfold send
    rw [hd]
    exact congrArg some (status_sendBy hu now peer _ _)
  · exact congrArg some (status_sendBy hu now peer _ _)

theorem draw_reliablePackets {t' : UdpTransport} (hu : n.udp = some t)
    (hu' : (n.step now e).1.udp = some t') {endpoint : EndpointId} {message : Envelope}
    (hrel : n.reliable? e = some (endpoint, message)) {i : Nat} {p : Packet}
    (hp : (n.reliablePackets e)[i]? = some p) :
    t'.ids.packets.draw (t.ids.packets.used + i) = p.id ∧
      t.ids.packets.used + i < t'.ids.packets.used := by
  rw [reliablePackets, hu, hrel] at hp
  obtain ⟨hdraw, hused⟩ := Envelope.id_packets hp
  have hstep := n.udp_step now e
  rw [hu, hu', Option.map_some, act_of_reliable? hrel] at hstep
  rw [Option.some.inj hstep, UdpTransport.act, UdpTransport.ids_sendReliable]
  exact ⟨hdraw.symm, hused⟩

theorem reliablePackets_inj {t' : UdpTransport} (hu : n.udp = some t)
    (hu' : (n.step now e).1.udp = some t') (hids : t'.ids.packets.IsFresh) {endpoint : EndpointId}
    {message : Envelope} (hrel : n.reliable? e = some (endpoint, message)) {i j : Nat}
    {p q : Packet} (hp : (n.reliablePackets e)[i]? = some p)
    (hq : (n.reliablePackets e)[j]? = some q) (hid : q.id = p.id) : j = i := by
  obtain ⟨hpid, hplt⟩ := draw_reliablePackets hu hu' hrel hp
  obtain ⟨hqid, hqlt⟩ := draw_reliablePackets hu hu' hrel hq
  exact Nat.add_left_cancel (hids _ hqlt _ hplt (hqid.trans (hid.trans hpid.symm)))

theorem registers_split (now : Nat) (endpoint : EndpointId) {ps : List Packet} {i : Nat}
    {p : Packet} (hp : ps[i]? = some p) :
    UdpTransport.registers now endpoint ps = UdpTransport.registers now endpoint (ps.take i) ++
      .expect ⟨now, p.id, endpoint, p.datagram⟩ ::
        UdpTransport.registers now endpoint (ps.drop (i + 1)) := by
  obtain ⟨hlt, hget⟩ := List.getElem?_eq_some_iff.mp hp
  conv_lhs => rw [← List.take_append_drop i ps, List.drop_eq_getElem_cons hlt, hget]
  rw [UdpTransport.registers, List.map_append, List.map_cons]
  rfl

theorem outboxEvents_split {endpoint : EndpointId} {message : Envelope}
    (hrel : n.reliable? e = some (endpoint, message)) {i : Nat} {p : Packet}
    (hp : (n.reliablePackets e)[i]? = some p) :
    n.outboxEvents now e =
      UdpTransport.registers now endpoint ((n.reliablePackets e).take i) ++
        .expect ⟨now, p.id, endpoint, p.datagram⟩ ::
          UdpTransport.registers now endpoint ((n.reliablePackets e).drop (i + 1)) := by
  rw [outboxEvents_of_reliable? hrel]
  exact registers_split now endpoint hp

theorem registrations_registers (now : Nat) (endpoint : EndpointId) (ps : List Packet) :
    Outbox.registrations (UdpTransport.registers now endpoint ps) =
      ps.map fun p => ⟨now, p.id, endpoint, p.datagram⟩ := by
  rw [Outbox.registrations, UdpTransport.registers, List.filterMap_map, ← List.filterMap_eq_map]
  rfl

theorem id_ne_of_registers {t' : UdpTransport} (hu : n.udp = some t)
    (hu' : (n.step now e).1.udp = some t') (hids : t'.ids.packets.IsFresh) {endpoint : EndpointId}
    {message : Envelope} (hrel : n.reliable? e = some (endpoint, message)) {i : Nat} {p : Packet}
    (hp : (n.reliablePackets e)[i]? = some p) {qs : List Packet}
    (hqs : ∀ q ∈ qs, ∃ j, j ≠ i ∧ (n.reliablePackets e)[j]? = some q) (y : Registration)
    (hy : .expect y ∈ UdpTransport.registers now endpoint qs) : y.id ≠ p.id := by
  intro hid
  obtain ⟨q, hq, hqy⟩ := List.mem_map.mp hy
  obtain ⟨j, hji, hj⟩ := hqs q hq
  cases hqy
  exact hji (reliablePackets_inj hu hu' hids hrel hp hj hid)

theorem id_ne_of_history {t' : UdpTransport} (hu : n.udp = some t)
    (hu' : (n.step now e).1.udp = some t') (hids : t'.ids.packets.IsFresh)
    (h : t₀.Ticks start count clock history t)
    (hdraw : t'.ids.packets.draw = t₀.ids.packets.draw)
    (hused : t.ids.packets.used ≤ t'.ids.packets.used) {endpoint : EndpointId}
    {message : Envelope} (hrel : n.reliable? e = some (endpoint, message)) {i : Nat} {p : Packet}
    (hp : (n.reliablePackets e)[i]? = some p) (y : Registration) (hy : .expect y ∈ history) :
    y.id ≠ p.id := by
  intro hid
  obtain ⟨-, k, hk, hy⟩ := h.labelled y hy
  obtain ⟨hpid, hplt⟩ := draw_reliablePackets hu hu' hrel hp
  rw [← hdraw] at hy
  have heq := hids k (Nat.lt_of_lt_of_le hk hused) _ hplt (hy.trans (hid.trans hpid.symm))
  omega

theorem registered_tracks {t' : UdpTransport} (hi : 0 < t₀.config.resendInterval)
    (hu : n.udp = some t) (hu' : (n.step now e).1.udp = some t') (hids : t'.ids.packets.IsFresh)
    (h : t₀.Ticks start count clock history t) (hclock : clock ≤ now)
    (hdue : ∀ due ∈ n.resendAt?, now ≤ due) (he : ¬ e.Stops) {endpoint : EndpointId}
    {message : Envelope} (hrel : n.reliable? e = some (endpoint, message)) {i : Nat} {p : Packet}
    (hp : (n.reliablePackets e)[i]? = some p) :
    let x : Registration := ⟨now, p.id, endpoint, p.datagram⟩
    ∃ front later, t₀.Tracks start count now front x later t' ∧
      (x.standing t₀.config.maxResends later).IsOnSchedule t₀.config.maxResends x.id start
        t₀.config.resendInterval now count ∧
      dueTicks start t₀.config.resendInterval now count = [] ∧
      (Outbox.registrations front).length = t.outbox.nextTicket + i := by
  intro x
  let ps := n.reliablePackets e
  have hev : n.outboxEvents now e = _ := outboxEvents_split hrel hp
  obtain ⟨t'', hu'', hstep⟩ := step_ticks hu h hclock hdue he
  cases hu'.symm.trans hu''
  obtain ⟨-, -, hsweep, -⟩ | ⟨ht, ⟨parcels, hs⟩, -⟩ := hstep
  -- A tick registers no packet.
  · have hmem : Outbox.Event.expect x ∈ n.outboxEvents now e := by
      rw [hev]
      exact List.mem_append_right _ List.mem_cons_self
    rw [hsweep] at hmem
    cases List.mem_singleton.mp hmem
  rw [hev, ← List.append_assoc] at ht
  have hfront : ∀ y, .expect y ∈ history → y.id ≠ x.id :=
    id_ne_of_history hu hu' hids h ht.draw hs.ids.used hrel hp
  have hbefore : ∀ y, .expect y ∈ UdpTransport.registers now endpoint (ps.take i) →
      y.id ≠ x.id := by
    refine id_ne_of_registers hu hu' hids hrel hp fun q hq => ?_
    obtain ⟨j, hj, rfl⟩ := List.mem_take_iff_getElem.mp hq
    exact ⟨j, by omega, List.getElem?_eq_getElem _⟩
  have hlater : ∀ y, .expect y ∈ UdpTransport.registers now endpoint (ps.drop (i + 1)) →
      y.id ≠ x.id := by
    refine id_ne_of_registers hu hu' hids hrel hp fun q hq => ?_
    obtain ⟨j, hj, rfl⟩ := List.mem_drop_iff_getElem.mp hq
    exact ⟨i + 1 + j, by omega, List.getElem?_eq_getElem _⟩
  have hspares : ∀ ev ∈ UdpTransport.registers now endpoint (ps.drop (i + 1)), ev.Spares x.id := by
    intro ev hmem
    obtain ⟨q, hq, rfl⟩ := List.mem_map.mp hmem
    exact hlater _ hmem
  have hnil : dueTicks start t₀.config.resendInterval now count = [] :=
    dueTicks_eq_nil hi fun j hj => Nat.le_trans (h.past j hj) hclock
  refine ⟨history ++ UdpTransport.registers now endpoint (ps.take i), _,
    ⟨ht, fun y hy => (List.mem_append.mp hy).elim (hfront y) (hbefore y), hlater, ?_⟩, ?_, hnil, ?_⟩
  · exact (ht.labelled x (List.mem_append_right _ List.mem_cons_self)).2
  · have hstanding := Registration.standing_append_of_spares t₀.config.maxResends [] hspares
    rw [List.nil_append] at hstanding
    rw [hstanding]
    exact ⟨by rw [hnil]; rfl, fun n _ => Nat.zero_le n, .inl ⟨hnil, rfl⟩⟩
  · obtain ⟨hlt, -⟩ := List.getElem?_eq_some_iff.mp hp
    have hnext : t.outbox.nextTicket = (Outbox.registrations history).length := by
      rw [h.outbox, (Outbox.reflects_after _ history).next, Outbox.Book.length_after]
    rw [Outbox.registrations, List.filterMap_append, List.length_append, ← Outbox.registrations,
      ← Outbox.registrations, registrations_registers, List.length_map, List.length_take,
      hnext, Nat.min_eq_left (Nat.le_of_lt hlt)]

theorem ticks_of_start {setup : NodeSetup} {n₀ : Node} (h : Node.start setup start = .ok n₀)
    (hu : n₀.udp = some t₀) :
    0 < t₀.config.resendInterval ∧ t₀.Ticks start 0 start [] t₀ := by
  have hudp : ∃ config link ids, config.check = .ok () ∧ t₀ = .start config link ids start := by
    unfold Node.start at h
    dsimp only at h
    split at h
    · obtain ⟨tcp, rfl⟩ := startAllTcp_eq h
      cases hu
    · split at h
      · cases h
      · rename_i u n hn
        unfold startUdp at hn
        split at hn
        · cases hn
        · split at hn
          · cases hn
          · cases hn
            obtain ⟨tcp, rfl⟩ := startAllTcp_eq h
            cases hu
            exact ⟨_, _, _, ‹_›, rfl⟩
  obtain ⟨config, link, ids, hc, rfl⟩ := hudp
  refine ⟨UdpConfig.resendInterval_pos_of_check hc, rfl, rfl, ?_, nofun, rfl, nofun⟩
  rw [Nat.zero_mul]
  rfl

/-- A packet that is not acknowledged is sent again at every tick from one interval after it was
sent first, as often as that may be, to where its peer is then; at the next tick it times out. After
an acknowledgement it is not sent again. All that holds whatever else the node does, and whether or
not the network takes what it is offered. -/
theorem resend_schedule {setup : NodeSetup} {n₀ : Node}
    (hstart : Node.start setup start = .ok n₀) (hu : n₀.udp = some t₀)
    {front back : List (Nat × Event)} {since : Nat}
    (hend : (n₀.after (front ++ (since, e) :: back)).udp = some t₁)
    (hids : t₁.ids.packets.IsFresh)
    (htimely : n₀.Timely start (front ++ (since, e) :: back))
    (hstops : ∀ x ∈ front ++ (since, e) :: back, ¬ x.2.Stops)
    {endpoint : EndpointId} {message : Envelope}
    (he : (n₀.after front).reliable? e = some (endpoint, message))
    {i : Nat} {p : Packet} (hp : ((n₀.after front).reliablePackets e)[i]? = some p) :
    let interval := t₀.config.resendInterval
    let limit := t₀.config.maxResends
    let n := n₀.after (front ++ [(since, e)])
    0 < interval ∧
    ∃ tickets ticket, ((n₀.after front).step since e).2.status = some (.awaiting tickets) ∧
      tickets[i]? = some ticket ∧
      (∀ mid rest, back = mid ++ rest → (∀ x ∈ mid, ¬ x.2.Acknowledges p.id) →
        ∃ t count, (n.after mid).udp = some t ∧
          t.resendAt? = some (start + count * interval) ∧
          let due := dueTicks start interval since count
          let sent := (n.transmissions mid).filter (·.parcel.Carries p.id)
          sent.map Transmission.now = resendTicks limit due ∧
          (∀ x ∈ sent, x.parcel = .unicast (x.endpoints.address endpoint) p.datagram) ∧
          (t.outbox.fate? ticket).map Fate.result =
            (limit.filter (· < due.length)).map
              fun attempts => .error (.acknowledgementTimeout p.id attempts)) ∧
      ∀ mid x rest, back = mid ++ x :: rest → x.2.Acknowledges p.id →
        ((n.after (mid ++ [x])).transmissions rest).filter (·.parcel.Carries p.id) = [] := by
  intro interval limit n
  obtain ⟨hi, hticks⟩ := ticks_of_start hstart hu
  obtain ⟨hfront, hrest⟩ := List.forall_mem_append.mp hstops
  obtain ⟨hfirst, hback⟩ := List.forall_mem_cons.mp hrest
  obtain ⟨t, count, clock, history, ht, hticks, hclock, hdue, htimely⟩ :=
    after_ticks hu hticks htimely hfront
  have hafter : n = ((n₀.after front).step since e).1 := n₀.after_concat front (since, e)
  obtain ⟨t', ht'⟩ := step_udp ht since e
  rw [after_append] at hend
  obtain ⟨before, later, htracks, hschedule, hnil, hticket⟩ :=
    registered_tracks hi ht ht' (isFresh_of_after ht' hend hids) hticks hclock hdue hfirst he hp
  replace hend : (n.after back).udp = some t₁ := hafter ▸ hend
  rw [← hafter] at ht' htimely
  obtain ⟨hlt, -⟩ := List.getElem?_eq_some_iff.mp hp
  refine ⟨hi, _, t.outbox.nextTicket + i, status_of_reliable? ht he, ?_, ?_, ?_⟩
  · rw [List.getElem?_range' hlt, Nat.one_mul]
  · rintro mid rest rfl hack
    obtain ⟨hmid, -⟩ := List.forall_mem_append.mp hback
    obtain ⟨t'', count', clock', later', ht'', htracks, hschedule, -, hsent, hparcels⟩ :=
      after_unacknowledged hi ht' hend hids htracks hschedule htimely hmid hack
    refine ⟨t'', count', ht'', htracks.resendAt, ?_, hparcels, ?_⟩
    · rw [hnil, resendTicks_nil, List.nil_append] at hsent
      exact hsent.symm
    · rw [htracks.outbox, ← hticket, Outbox.fate?_after, hschedule.fate?, Option.map_map]
      rfl
  · rintro mid x rest rfl hack
    obtain ⟨hmid, hx⟩ := List.forall_mem_append.mp hback
    obtain ⟨hx, hrest⟩ := List.forall_mem_cons.mp hx
    obtain ⟨t'', count', clock', later', ht'', htracks, hclock, hdue, htimely⟩ :=
      after_tracks ht' hend hids htracks htimely hmid
    obtain ⟨t₂, ht₂⟩ := step_udp ht'' x.1 x.2
    rw [after_append] at hend
    -- The acknowledgement decides the fate of the packet, if that is not decided yet.
    obtain ⟨-, -, hnot, -⟩ | ⟨events, htracks, -, -, hmem⟩ :=
      step_tracks ht'' ht₂ (isFresh_of_after ht₂ hend hids) htracks hclock hdue hx
    · exact absurd hack hnot
    · obtain ⟨fate, hfate⟩ := Registration.decided_of_acknowledge (hmem hack)
      rw [after_concat]
      exact transmissions_of_decided ht₂ hend hids htracks hfate htimely hrest

end Node

def NodeSetup.twoResends : NodeSetup where
  identity := ⟨⟨1⟩, "first", .empty⟩
  udp := some ⟨{ maxResends := some 2 },
    .ok { port := 4000, fault := fun k _ => if k % 2 = 0 then some .shutDown else none },
    .numbered 0 100⟩

namespace Node

def twoResends : Node where
  directory := {
    identity := NodeSetup.twoResends.identity.declare unicastPortKey (.int 4000) }
  discoveryTimeout := 30000
  udp := some (.start { maxResends := some 2 }
    { port := 4000, fault := fun k _ => if k % 2 = 0 then some .shutDown else none }
    (.numbered 0 100) 100)

def movingPeer : List (Nat × Event) :=
  let announced (ip : BitVec 32) : Event :=
    .datagram (Payload.announcement .second).encode ⟨.v4 ip, 4000, 0⟩
  [(1100, .resendDue), (1500, announced 0x0a000003), (2100, .resendDue),
    (2500, announced 0x0a000004), (3100, .resendDue), (4100, .resendDue),
    (4200, .datagram (Payload.acknowledgement ⟨0⟩).encode ⟨.v4 0x0a000004, 4000, 0⟩),
    (5100, .resendDue)]

theorem resend_schedule_movingPeer :
    let front : List (Nat × Event) := [(100, .resendDue), (150, .secondAnnounced)]
    let e : Event := .send ⟨2⟩ (.of (⟨7, "hello"⟩ : NumberedText)) true
    let n := twoResends.after (front ++ [(300, e)])
    let sent (events : List (Nat × Event)) (n : Node) : List Transmission :=
      (n.transmissions events).filter (·.parcel.Carries ⟨0⟩)
    twoResends.Timely 100 (front ++ (300, e) :: movingPeer) ∧
    (sent (movingPeer.take 6) n).map Transmission.now = [2100, 3100] ∧
    (∃ t, (n.after (movingPeer.take 6)).udp = some t ∧
      (t.outbox.fate? 0).map Fate.result = some (.error (.acknowledgementTimeout ⟨0⟩ 2))) ∧
    sent (movingPeer.drop 7) (n.after (movingPeer.take 7)) = [] := by
  intro front e n sent
  have hstart : Node.start .twoResends 100 = .ok twoResends := rfl
  have htimely : twoResends.Timely 100 (front ++ (300, e) :: movingPeer) := by decide +kernel
  have hstops : ∀ x ∈ front ++ (300, e) :: movingPeer, ¬ x.2.Stops := by
    simp [front, e, movingPeer, Event.Stops, Event.secondAnnounced]
  have hused : (twoResends.after (front ++ (300, e) :: movingPeer)).udp.map
      (fun t => t.ids.packets.used) = some 1 := by decide +kernel
  obtain ⟨t₁, hend, hone⟩ := Option.map_eq_some_iff.mp hused
  have hids : t₁.ids.packets.IsFresh := by
    intro j hj k hk _
    omega
  let message : Envelope := ⟨⟨1⟩, ⟨2⟩, .of (⟨7, "hello"⟩ : NumberedText)⟩
  have he : (twoResends.after front).reliable? e = some (0, message) := by decide +kernel
  have hp : ((twoResends.after front).reliablePackets e)[0]? =
      some ⟨⟨0⟩, ⟨1⟩, ⟨2⟩, true, message⟩ := by decide +kernel
  obtain ⟨-, tickets, ticket, hstatus, hticket, hopen, hacked⟩ :=
    resend_schedule hstart rfl hend hids htimely hstops he hp
  obtain rfl : ticket = 0 := by
    have htickets : ((twoResends.after front).step 300 e).2.tickets? = some [0] := by
      decide +kernel
    rw [Response.tickets?, hstatus] at htickets
    cases htickets
    exact (Option.some.inj hticket).symm
  have hquiet : ∀ x ∈ movingPeer.take 6, ¬ x.2.Acknowledges ⟨0⟩ := by
    have hsecond : .acknowledgement ⟨0⟩ ∉
        Datagram.payloads (Payload.announcement .second).encode := by decide +kernel
    intro x hx
    simp only [movingPeer, List.take_succ_cons, List.take_zero, List.mem_cons, List.not_mem_nil,
      or_false] at hx
    obtain rfl | rfl | rfl | rfl | rfl | rfl := hx
    · exact not_false
    · exact hsecond
    · exact not_false
    · exact hsecond
    · exact not_false
    · exact not_false
  obtain ⟨t, count, ht, hdue, htimes, -, hfate⟩ :=
    hopen (movingPeer.take 6) (movingPeer.drop 6) rfl hquiet
  have hcount : count = 5 := by
    have hat : (n.after (movingPeer.take 6)).resendAt? = some 5100 := by decide +kernel
    rw [resendAt?, ht, Option.bind_some, hdue] at hat
    have hat : 100 + count * 1000 = 5100 := Option.some.inj hat
    omega
  subst hcount
  refine ⟨htimely, htimes.trans (by decide +kernel), ⟨t, ht, hfate.trans (by decide +kernel)⟩,
    hacked (movingPeer.take 6) _ (movingPeer.drop 7) rfl ?_⟩
  show Payload.acknowledgement ⟨0⟩ ∈ Datagram.payloads _
  decide +kernel

end Node

end PeerMesh

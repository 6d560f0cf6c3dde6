import PeerMesh.Proofs.Turns

namespace PeerMesh

namespace OngoingSend

variable {s s' : OngoingSend} {limit : Option Nat} {now i : Nat} {m : Move} {p : Packet}
  {r : Except SendError Unit} {moves : List (Nat × Move)}

/-- What `count` packets come to together, if this becomes of each of them: the first failure. -/
def Total (count : Nat) (ends : Nat → Except SendError Unit → Prop) :
    Except SendError Unit → Prop
  | .ok () => ∀ i < count, ends i (.ok ())
  | .error err => ∃ i < count, ends i (.error err) ∧ ∀ j < i, ends j (.ok ())

namespace Total

variable {n : Nat} {o : Nat → Option (Except SendError Unit)} {r' : Except SendError Unit}

theorem unique (h : Total n (fun i r => o i = some r) r)
    (h' : Total n (fun i r => o i = some r) r') : r = r' := by
  -- the packets before a failure did not fail
  have herror {i j : Nat} {err err' : SendError} (hi : o i = some (.error err))
      (hj : o j = some (.error err')) (hbefore : ∀ k < j, o k = some (.ok ())) : j ≤ i := by
    by_contra hlt
    cases hi.symm.trans (hbefore i (Nat.lt_of_not_le hlt))
  cases r with
  | ok u =>
    cases r' with
    | ok u' => rfl
    | error err' =>
      obtain ⟨i, hi, he, -⟩ := h'
      cases (h i hi).symm.trans he
  | error err =>
    obtain ⟨i, hi, he, hbefore⟩ := h
    cases r' with
    | ok u' => cases (h' i hi).symm.trans he
    | error err' =>
      obtain ⟨j, -, he', hbefore'⟩ := h'
      obtain rfl := Nat.le_antisymm (herror he' he hbefore) (herror he he' hbefore')
      cases he.symm.trans he'
      rfl

theorem congr {ends ends' : Nat → Except SendError Unit → Prop} (h : ∀ i r, ends i r ↔ ends' i r) :
    Total n ends r ↔ Total n ends' r := by
  rw [show ends = ends' from funext fun i => funext fun r => propext (h i r)]

theorem succ_iff {ends : Nat → Except SendError Unit → Prop} :
    Total (n + 1) ends r ↔ ends 0 (.ok ()) ∧ Total n (fun i => ends (i + 1)) r ∨
      ∃ err, r = .error err ∧ ends 0 r := by
  cases r with
  | ok u =>
    simp only [Total, reduceCtorEq, false_and, exists_false, or_false]
    exact Nat.forall_lt_succ_left
  | error err =>
    simp only [Total, Except.error.injEq, exists_eq_left']
    constructor
    · rintro ⟨i, hi, he, hbefore⟩
      cases i with
      | zero => exact .inr he
      | succ i =>
        exact .inl ⟨hbefore 0 (Nat.succ_pos i), i, Nat.lt_of_succ_lt_succ hi, he,
          fun j hj => hbefore (j + 1) (Nat.succ_lt_succ hj)⟩
    · rintro (⟨hfirst, i, hi, he, hbefore⟩ | he)
      · exact ⟨i + 1, Nat.succ_lt_succ hi, he, Nat.forall_lt_succ_left.mpr ⟨hfirst, hbefore⟩⟩
      · exact ⟨0, Nat.succ_pos n, he, nofun⟩

end Total

/-- The result of a reliable send is the first failure of its packets. -/
theorem resultOf_eq_some_iff {o : Outbox} {tickets : List Ticket} :
    UdpTransport.resultOf o tickets = some r ↔
      Total tickets.length
        (fun i r => (tickets[i]?.bind fun ticket => (o.fate? ticket).map Fate.result) = some r)
        r := by
  induction tickets with
  | nil =>
    rw [UdpTransport.resultOf]
    cases r with
    | ok u => simp [Total]
    | error err => simp [Total]
  | cons ticket tickets ih =>
    rw [List.length_cons, Total.succ_iff, UdpTransport.resultOf]
    simp only [List.getElem?_cons_zero, List.getElem?_cons_succ, Option.bind_some]
    cases hf : (o.fate? ticket).map Fate.result with
    | none => simp
    | some f =>
      cases f with
      | ok u =>
        have hno : ¬ ∃ err, r = .error err ∧ some (Except.ok u) = some r := by
          rintro ⟨err, rfl, h⟩
          cases h
        rw [or_iff_left hno, and_iff_right rfl]
        exact ih
      | error err =>
        constructor
        · exact fun h => .inr ⟨err, (Option.some.inj h).symm, h⟩
        · rintro (⟨h, -⟩ | ⟨-, -, h⟩)
          · cases h
          · exact h

def IsSettled (s : OngoingSend) (r : Except SendError Unit) : Prop :=
  Total (s.tickets.length + s.ahead.length) (fun i r => s.outcome? i = some r) r

/-- The sender waits only when all is offered, what it takes for acknowledged is, and so is its
result what the packets come to. -/
structure IsSound (s : OngoingSend) : Prop where
  waits : s.acknowledged ≠ 0 ∨ s.result ≠ none → s.ready = none ∧ s.ahead = []
  acknowledged : ∀ j < s.acknowledged, s.outcome? j = some (.ok ())
  result : ∀ r, s.result = some r → s.IsSettled r

theorem lt_length_of_outcome? (h : s.outcome? i = some r) : i < s.tickets.length := by
  obtain ⟨ticket, ht, -⟩ := Option.bind_eq_some_iff.mp h
  exact (List.getElem?_eq_some_iff.mp ht).1

theorem IsSound.acknowledged_le (hs : s.IsSound) : s.acknowledged ≤ s.tickets.length := by
  by_contra hlt
  have h := lt_length_of_outcome? (hs.acknowledged _ (Nat.lt_of_not_le hlt))
  exact Nat.lt_irrefl _ h

theorem isSound_of_open (hzero : s.acknowledged = 0) (hopen : s.result = none) : s.IsSound := by
  refine ⟨fun h => h.elim (absurd hzero) (absurd hopen), fun j hj => ?_, fun r hr => ?_⟩
  · rw [hzero] at hj
    cases hj
  · rw [hopen] at hr
    cases hr

theorem IsNew.isSound (hs : s.IsNew limit) : s.IsSound :=
  isSound_of_open hs.acknowledged hs.result

theorem IsSound.not_waiting (hs : s.IsSound) (h : s.ready ≠ none ∨ s.ahead ≠ []) :
    s.acknowledged = 0 ∧ s.result = none := by
  by_contra hn
  have hw := hs.waits (by tauto)
  exact h.elim (absurd hw.1) (absurd hw.2)

theorem Step.isSettled (h : s.Step now m s') (ho : s.transport.outbox.Arises limit)
    (hr : s.IsSettled r) : s'.IsSettled r := by
  rw [IsSettled, h.length_tickets]
  cases r with
  | ok u => exact fun i hi => h.outcome? ho (hr i hi)
  | error err =>
    obtain ⟨i, hi, he, hbefore⟩ := hr
    exact ⟨i, hi, h.outcome? ho he, fun j hj => h.outcome? ho (hbefore j hj)⟩

theorem Step.isSound (h : s.Step now m s') (ho : s.transport.outbox.Arises limit)
    (hs : s.IsSound) : s'.IsSound := by
  have hkept {j : Nat} (hj : s.outcome? j = some (.ok ())) : s'.outcome? j = some (.ok ()) :=
    h.outcome? ho hj
  cases h with
  | act a =>
    exact ⟨hs.waits, fun j hj => hkept (hs.acknowledged j hj),
      fun r hr => (Step.act a).isSettled ho (hs.result r hr)⟩
  | offer hr =>
    obtain ⟨hzero, hopen⟩ := hs.not_waiting (.inl (by rw [hr]; nofun))
    exact isSound_of_open hzero hopen
  | register hr ha =>
    obtain ⟨hzero, hopen⟩ := hs.not_waiting (.inr (by rw [ha]; nofun))
    exact isSound_of_open hzero hopen
  | acknowledge hr ha hopen ho =>
    refine ⟨fun _ => ⟨hr, ha⟩, fun j hj => ?_, fun r hr => nomatch hopen.symm.trans hr⟩
    obtain hj | rfl := Nat.lt_succ_iff_lt_or_eq.mp hj
    · exact hs.acknowledged j hj
    · exact ho
  | fail hr ha hopen ho =>
    refine ⟨fun _ => ⟨hr, ha⟩, hs.acknowledged, fun r hr => ?_⟩
    cases hr
    exact ⟨s.acknowledged, Nat.lt_add_right _ (lt_length_of_outcome? ho), ho, hs.acknowledged⟩
  | succeed hr ha hopen hall =>
    refine ⟨fun _ => ⟨hr, ha⟩, hs.acknowledged, fun r hr => ?_⟩
    cases hr
    intro i hi
    rw [ha] at hi
    exact hs.acknowledged i (Nat.lt_of_lt_of_le hi hall)
  | rest => exact hs

theorem IsSound.run (hs : s.IsSound) (ho : s.transport.outbox.Arises limit)
    (moves : List (Nat × Move)) : (s.run moves).IsSound := by
  induction moves generalizing s with
  | nil => exact hs
  | cons m moves ih =>
    have hstep := s.move_step m.1 m.2
    exact ih (hstep.isSound ho hs) (hstep.arises ho)

theorem turns_cons (m : Nat × Move) (moves : List (Nat × Move)) :
    turns (m :: moves) = turns moves + m.2.isTurn.toNat := by
  rw [turns, List.countP_cons]
  cases m.2.isTurn with
  | true => rfl
  | false => rfl

def turnsToOffer (s : OngoingSend) : Nat :=
  2 * s.ahead.length + s.ready.toList.length

def turnsToReturn (s : OngoingSend) : Nat :=
  s.turnsToOffer + if s.result.isSome then 0 else
    s.tickets.length + s.ahead.length + 1 - s.acknowledged

theorem turnsToOffer_eq_zero_iff : s.turnsToOffer = 0 ↔ s.ready = none ∧ s.ahead = [] := by
  rw [turnsToOffer, Nat.add_eq_zero_iff, List.length_eq_zero_iff, Option.toList_eq_nil_iff,
    Nat.mul_eq_zero, or_iff_right (by decide), List.length_eq_zero_iff, and_comm]

theorem Step.turnsToOffer (h : s.Step now m s') :
    s'.turnsToOffer ≤ s.turnsToOffer - m.isTurn.toNat := by
  have hdone (hr : s.ready = none) (ha : s.ahead = []) (n : Nat) : s.turnsToOffer ≤ n := by
    rw [turnsToOffer_eq_zero_iff.mpr ⟨hr, ha⟩]
    exact Nat.zero_le n
  cases h with
  | act a => exact Nat.le_refl _
  | offer hr =>
    show 2 * s.ahead.length + 0 ≤ 2 * s.ahead.length + s.ready.toList.length - 1
    rw [hr]
    exact Nat.le_refl _
  | @register p ps hr ha =>
    show 2 * ps.length + 1 ≤ 2 * s.ahead.length + s.ready.toList.length - 1
    rw [hr, ha]
    exact Nat.le_refl _
  | acknowledge hr ha => exact hdone hr ha _
  | fail hr ha => exact hdone hr ha _
  | succeed hr ha => exact hdone hr ha _
  | rest hr ha => exact hdone hr ha _

theorem turnsToOffer_run (s : OngoingSend) (moves : List (Nat × Move)) :
    (s.run moves).turnsToOffer ≤ s.turnsToOffer - turns moves := by
  induction moves generalizing s with
  | nil => exact Nat.le_refl _
  | cons m moves ih =>
    have hstep := (s.move_step m.1 m.2).turnsToOffer
    have hrest : (s.run (m :: moves)).turnsToOffer ≤ _ := ih (s.move m.1 m.2)
    rw [turns_cons]
    omega

theorem turnsToReturn_of_open (h : s.result = none) : s.turnsToReturn =
    s.turnsToOffer + (s.tickets.length + s.ahead.length + 1 - s.acknowledged) := by
  rw [turnsToReturn, h]
  rfl

theorem turnsToReturn_of_result (h : s.result ≠ none) : s.turnsToReturn = s.turnsToOffer := by
  rw [turnsToReturn, if_pos (Option.isSome_iff_ne_none.mpr h), Nat.add_zero]

/-- If the result is settled, then so is what becomes of the packet that the sender waits for. -/
theorem IsSound.not_stuck (hs : s.IsSound) (hlt : s.acknowledged < s.tickets.length)
    (hr : s.IsSettled r) : s.outcome? s.acknowledged ≠ none := by
  intro hnone
  cases r with
  | ok u => exact nomatch hnone.symm.trans (hr _ (Nat.lt_add_right _ hlt))
  | error err =>
    obtain ⟨i, -, he, hbefore⟩ := hr
    obtain hi | rfl | hi := Nat.lt_trichotomy s.acknowledged i
    · exact nomatch hnone.symm.trans (hbefore _ hi)
    · exact nomatch hnone.symm.trans he
    · exact nomatch he.symm.trans (hs.acknowledged i hi)

theorem Step.turnsToReturn (h : s.Step now m s') (hs : s.IsSound) (hr : s.IsSettled r) :
    s'.turnsToReturn ≤ s.turnsToReturn - m.isTurn.toNat := by
  have hoffer := h.turnsToOffer
  have hlength := h.length_tickets
  -- while packets are offered, nothing else changes
  have hturn (hopen : s.result = none) (hopen' : s'.result = none)
      (hzero : s'.acknowledged = s.acknowledged) (hpos : s.turnsToOffer ≠ 0)
      (hoffer : s'.turnsToOffer ≤ s.turnsToOffer - 1) :
      s'.turnsToReturn ≤ s.turnsToReturn - 1 := by
    rw [turnsToReturn_of_open hopen, turnsToReturn_of_open hopen', hlength, hzero]
    omega
  have hdone (hr : s.ready = none) (ha : s.ahead = []) : s.turnsToOffer = 0 :=
    turnsToOffer_eq_zero_iff.mpr ⟨hr, ha⟩
  cases h with
  | act a => exact Nat.le_refl _
  | offer hready =>
    have hopen := (hs.not_waiting (.inl (by rw [hready]; nofun))).2
    refine hturn hopen hopen rfl (fun hz => ?_) hoffer
    exact nomatch hready.symm.trans (turnsToOffer_eq_zero_iff.mp hz).1
  | register hready ha =>
    have hopen := (hs.not_waiting (.inr (by rw [ha]; nofun))).2
    refine hturn hopen hopen rfl (fun hz => ?_) hoffer
    exact nomatch ha.symm.trans (turnsToOffer_eq_zero_iff.mp hz).2
  | acknowledge hready ha hopen ho =>
    have hlt := lt_length_of_outcome? ho
    rw [turnsToReturn_of_open hopen,
      turnsToReturn_of_open (s := { s with acknowledged := s.acknowledged + 1 }) hopen]
    show s.turnsToOffer + (s.tickets.length + s.ahead.length + 1 - (s.acknowledged + 1)) ≤ _ - 1
    omega
  | fail hready ha =>
    rw [turnsToReturn_of_result (Option.some_ne_none _)]
    exact Nat.le_trans (Nat.le_of_eq (hdone hready ha)) (Nat.zero_le _)
  | succeed hready ha =>
    rw [turnsToReturn_of_result (Option.some_ne_none _)]
    exact Nat.le_trans (Nat.le_of_eq (hdone hready ha)) (Nat.zero_le _)
  | rest hready ha h =>
    obtain hresult | ⟨hlt, hnone⟩ := h
    · rw [turnsToReturn_of_result hresult, hdone hready ha]
      exact Nat.zero_le _
    · exact absurd hnone (hs.not_stuck hlt hr)

/-- The sender comes to its result as soon as that is settled and it has had its turns. -/
theorem result_run (hs : s.IsSound) (ho : s.transport.outbox.Arises limit) (hr : s.IsSettled r)
    (hturns : s.turnsToReturn ≤ turns moves) : (s.run moves).result = some r := by
  induction moves generalizing s with
  | nil =>
    have hzero := Nat.le_zero.mp hturns
    have hle := hs.acknowledged_le
    cases hresult : s.result with
    | none =>
      rw [turnsToReturn_of_open hresult] at hzero
      omega
    | some r' => exact hresult.trans (congrArg some ((hs.result r' hresult).unique hr))
  | cons m moves ih =>
    have hstep := s.move_step m.1 m.2
    have hturn := hstep.turnsToReturn hs hr
    rw [turns_cons] at hturns
    have hrest : (s.move m.1 m.2).turnsToReturn ≤ turns moves := by omega
    exact ih (hstep.isSound ho hs) (hstep.arises ho) (hstep.isSettled ho hr) hrest

def unsent (s : OngoingSend) : List Packet :=
  s.ready.toList ++ s.ahead

theorem Step.offered (h : s.Step now .turn s') : ∃ parcels,
    s'.transport.link.offered = s.transport.link.offered ++ parcels ∧
      parcels ++ s'.unsent.map (fun p => .unicast s.destination p.datagram) =
        s.unsent.map fun p => .unicast s.destination p.datagram := by
  cases h with
  | @offer p hr =>
    refine ⟨_, s.transport.link.offered_offer (.unicast s.destination p.datagram), ?_⟩
    rw [unsent, unsent, hr]
    rfl
  | register hr ha =>
    refine ⟨[], (List.append_nil _).symm, ?_⟩
    rw [unsent, unsent, hr, ha]
    rfl
  | acknowledge => exact ⟨[], (List.append_nil _).symm, rfl⟩
  | fail => exact ⟨[], (List.append_nil _).symm, rfl⟩
  | succeed => exact ⟨[], (List.append_nil _).symm, rfl⟩
  | rest => exact ⟨[], (List.append_nil _).symm, rfl⟩

theorem offers_append (s : OngoingSend) (moves : List (Nat × Move)) :
    s.offers moves ++ (s.run moves).unsent.map (fun p => .unicast s.destination p.datagram) =
      s.unsent.map fun p => .unicast s.destination p.datagram := by
  induction moves generalizing s with
  | nil => rfl
  | cons m moves ih =>
    obtain ⟨now, m⟩ := m
    have hstep := s.move_step now m
    have hrest := ih (s.move now m)
    rw [hstep.destination] at hrest
    cases m with
    | act a => exact hrest
    | turn =>
      obtain ⟨parcels, ho, hp⟩ := hstep.offered
      have hfirst : (s.turn now).transport.link.offered.drop s.transport.link.offered.length =
          parcels := by
        rw [show (s.turn now).transport.link.offered = _ from ho, List.drop_left]
      rw [offers, hfirst, List.append_assoc]
      exact (congrArg (parcels ++ ·) hrest).trans hp

/-- Without anything in between, the sender offers all packets like `sendPackets`. -/
theorem run_replicate {ps : List Packet} (hr : s.ready = none) (ha : s.ahead = ps) (now : Nat) :
    let s' := s.run (List.replicate (2 * ps.length) (now, .turn))
    (s'.transport, s'.tickets.reverse) =
      ps.foldl (fun (t, tickets) p =>
        let (t, ticket) := UdpTransport.sendFirst s.endpoint s.destination now t p
        (t, ticket :: tickets)) (s.transport, s.tickets.reverse) := by
  induction ps generalizing s with
  | nil => rfl
  | cons p ps ih =>
    have hfirst : s.turn now = s.register now p ps := by
      rw [turn, hr, ha]
    have hsecond : s.run (List.replicate (2 * (p :: ps).length) (now, .turn)) =
        ((s.register now p ps).offer p).run (List.replicate (2 * ps.length) (now, .turn)) := by
      rw [List.length_cons, Nat.mul_succ, List.replicate_succ, List.replicate_succ, run,
        List.foldl_cons, List.foldl_cons]
      show List.foldl _ ((s.turn now).turn now) _ = _
      rw [hfirst]
      rfl
    have hrest := ih (s := (s.register now p ps).offer p) rfl rfl
    have htickets : ((s.register now p ps).offer p).tickets.reverse =
        (UdpTransport.sendFirst s.endpoint s.destination now s.transport p).2 ::
          s.tickets.reverse := List.reverse_append
    rw [htickets] at hrest
    rw [hsecond]
    exact hrest

theorem start_isNew {t : UdpTransport} (ho : t.outbox.Arises limit) (sender : PeerId)
    (endpoint : EndpointId) (e : Envelope) : (start t sender endpoint e).IsNew limit :=
  ⟨ho, rfl, rfl, rfl, rfl⟩

theorem run_start (t : UdpTransport) (sender : PeerId) (endpoint : EndpointId) (e : Envelope)
    (now : Nat) :
    let s := start t sender endpoint e
    let s' := s.run (List.replicate (2 * s.ahead.length) (now, .turn))
    (s'.transport, s'.tickets) = t.sendReliable sender endpoint e now := by
  have h := run_replicate (s := start t sender endpoint e) rfl rfl now
  intro s s'
  have hfst := congrArg Prod.fst h
  have hsnd := congrArg (List.reverse ∘ Prod.snd) h
  rw [Function.comp_apply, List.reverse_reverse] at hsnd
  exact Prod.ext hfst hsnd

theorem IsNew.turnsToOffer (hs : s.IsNew limit) : s.turnsToOffer = 2 * s.ahead.length := by
  rw [OngoingSend.turnsToOffer, hs.ready]
  rfl

theorem IsNew.offers (hs : s.IsNew limit) (moves : List (Nat × Move)) :
    let parcels := s.ahead.map fun p => Parcel.unicast s.destination p.datagram
    let s' := s.run moves
    s.offers moves <+: parcels ∧ (s.offers moves).length ≤ s'.tickets.length ∧
      s'.tickets.length ≤ s.ahead.length ∧
      (2 * s.ahead.length ≤ turns moves ∨ s'.acknowledged ≠ 0 ∨ s'.result ≠ none →
        s.offers moves = parcels) := by
  intro parcels s'
  have hunsent : s.unsent = s.ahead := by
    rw [unsent, hs.ready]
    rfl
  have hoffers := s.offers_append moves
  rw [hunsent] at hoffers
  have hlength : s'.tickets.length + s'.ahead.length = s.ahead.length :=
    length_ahead_run hs.tickets moves
  have hcount := congrArg List.length hoffers
  rw [List.length_append, List.length_map, List.length_map, unsent, List.length_append,
    show (s.run moves).ahead = s'.ahead from rfl] at hcount
  refine ⟨⟨_, hoffers⟩, by omega, by omega, fun h => ?_⟩
  have hdone : s'.ready = none ∧ s'.ahead = [] := by
    obtain hturns | hwaits := h
    · have hleft := s.turnsToOffer_run moves
      rw [hs.turnsToOffer, Nat.sub_eq_zero_of_le hturns] at hleft
      exact turnsToOffer_eq_zero_iff.mp (Nat.le_zero.mp hleft)
    · exact (hs.isSound.run hs.arises moves).waits hwaits
  have hnone : s'.unsent = [] := by
    rw [unsent, hdone.1, hdone.2]
    rfl
  rw [hnone] at hoffers
  exact (List.append_nil _).symm.trans hoffers

theorem IsNew.isSettled_iff (hs : s.IsNew limit) :
    (s.run moves).IsSettled r ↔ Total s.ahead.length (s.PacketEnds moves) r := by
  rw [IsSettled, length_ahead_run hs.tickets]
  exact Total.congr fun i r => (packetEnds_iff hs).symm

theorem IsNew.resultOf_iff (hs : s.IsNew limit)
    (hall : (s.run moves).tickets.length = s.ahead.length) :
    UdpTransport.resultOf (s.run moves).transport.outbox (s.run moves).tickets = some r ↔
      Total s.ahead.length (s.PacketEnds moves) r := by
  rw [← hs.isSettled_iff, IsSettled, length_ahead_run hs.tickets, ← hall]
  exact resultOf_eq_some_iff

theorem IsNew.result_iff (hs : s.IsNew limit) (hr : (s.run moves).result = some r)
    (r' : Except SendError Unit) : Total s.ahead.length (s.PacketEnds moves) r' ↔ r' = r := by
  have htotal := (hs.isSound.run hs.arises moves).result r hr
  rw [← hs.isSettled_iff]
  constructor
  · exact fun h => h.unique htotal
  · rintro rfl
    exact htotal

/-- A packet fails by a timeout of its own or by the end of the transport. -/
theorem Ends.of_error {err : SendError} (h : s.Ends now p m (.error err)) :
    err = .shutDown ∨
      ∃ n, s.transport.outbox.maxResends = some n ∧ err = .acknowledgementTimeout p.id n := by
  cases h with
  | timedOut hq htick hdue hspent => exact .inr ⟨_, hspent, rfl⟩
  | shutDown => exact .inl rfl
  | replaced h hid => exact .inl rfl

theorem IsNew.error_cases (hs : s.IsNew limit) {err : SendError}
    (h : Total s.ahead.length (s.PacketEnds moves) (.error err)) :
    err = .shutDown ∨
      ∃ p ∈ s.ahead, ∃ n, limit = some n ∧ err = .acknowledgementTimeout p.id n := by
  obtain ⟨i, -, ⟨p, ticket, before, now, m, later, hp, -, -, -, hends⟩, -⟩ := h
  obtain herr | ⟨n, hn, herr⟩ := hends.of_error
  · exact .inl herr
  · rw [(arises_run hs.arises before).maxResends_eq] at hn
    exact .inr ⟨p, List.mem_of_getElem? hp, n, hn, herr⟩

theorem IsNew.result_run (hs : s.IsNew limit) (h : Total s.ahead.length (s.PacketEnds moves) r)
    {more : List (Nat × Move)} (hmore : 3 * s.ahead.length < turns more) :
    ((s.run moves).run more).result = some r := by
  refine OngoingSend.result_run (hs.isSound.run hs.arises moves) (arises_run hs.arises moves)
    (hs.isSettled_iff.mpr h) ?_
  have hleft := s.turnsToOffer_run moves
  rw [hs.turnsToOffer] at hleft
  have hlength := length_ahead_run hs.tickets moves
  rw [turnsToReturn]
  split
  · omega
  · omega

/-- Whatever the network refuses, and however acknowledgements, ticks, the end of the transport and
all else that it does come in between the turns of the sender: undisturbed, it sends a message as
`sendReliable` does; each packet is registered before it is offered, and offered once, in order and
before the sender waits; a packet that is registered stays pending, and is sent again when that is
due, until its own fate is decided; the result, as `resultOf` tells it and as the sender finds it
packet by packet, is that of the first packet that was not acknowledged while it was pending, and
the sender finds it as soon as it is settled and the sender has had its turns. -/
theorem returns_first_failure (config : UdpConfig) (link : Link) (ids : IdSource) (began : Nat)
    (past : List (Nat × UdpTransport.Act)) (sender : PeerId) (endpoint : EndpointId)
    (e : Envelope) (moves : List (Nat × Move)) :
    let t := (UdpTransport.start config link ids began).after past
    let ps := (t.packetsFor sender e true).2
    let parcels := ps.map fun p => Parcel.unicast (t.endpoints.address endpoint) p.datagram
    let s₀ := start t sender endpoint e
    let s := s₀.run moves
    (∀ now, let s' := s₀.run (List.replicate (2 * ps.length) (now, .turn))
      (s'.transport, s'.tickets) = t.sendReliable sender endpoint e now) ∧
    (s₀.offers moves <+: parcels ∧ (s₀.offers moves).length ≤ s.tickets.length ∧
      s.tickets.length ≤ ps.length ∧
      (2 * ps.length ≤ turns moves ∨ s.acknowledged ≠ 0 ∨ s.result ≠ none →
        s₀.offers moves = parcels)) ∧
    (s.endpoint = endpoint ∧ ∀ i p ticket, ps[i]? = some p → s.tickets[i]? = some ticket →
      (∃ r, s₀.PacketEnds moves i r) ∨ s.Awaits p ticket ∧ s.IsSentAgain p) ∧
    (s.tickets.length = ps.length → ∀ r,
      UdpTransport.resultOf s.transport.outbox s.tickets = some r ↔
        Total ps.length (s₀.PacketEnds moves) r) ∧
    (∀ r, s.result = some r → ∀ r', Total ps.length (s₀.PacketEnds moves) r' ↔ r' = r) ∧
    (∀ err, s.result = some (.error err) → err = .shutDown ∨
      ∃ p ∈ ps, ∃ n, config.maxResends = some n ∧ err = .acknowledgementTimeout p.id n) ∧
    ∀ r, Total ps.length (s₀.PacketEnds moves) r →
      ∀ more, 3 * ps.length < turns more → (s.run more).result = some r := by
  intro t ps parcels s₀ s
  have ho : t.outbox.Arises config.maxResends := UdpTransport.arises_after ⟨[], rfl⟩ past
  have hs : s₀.IsNew config.maxResends := start_isNew ho sender endpoint e
  refine ⟨run_start t sender endpoint e, hs.offers moves,
    ⟨s₀.endpoint_run moves, fun i p ticket hp ht => ?_⟩,
    fun hall r => hs.resultOf_iff hall, fun r hr => hs.result_iff hr, fun err hr => ?_,
    fun r h more hmore => hs.result_run h hmore⟩
  · exact (ends_or_awaits hs hp ht).imp_right fun h =>
      ⟨h, h.isSentAgain (arises_run hs.arises moves)⟩
  · exact hs.error_cases ((hs.result_iff hr _).mpr rfl)

def refused : UdpTransport :=
  .start { maxDatagram := 196, maxResends := some 1 }
    { port := 4000, fault := fun _ _ => some .shutDown } (.numbered 0 100) 0

def secondTimesOut : List (Nat × Move) :=
  let acknowledgement : UdpTransport.Act :=
    .receive { identity := ⟨⟨1⟩, "first", .empty⟩ } (Payload.acknowledgement ⟨0⟩).encode
      ⟨.v4 0x0a000002, 4000, 0⟩
  [(10, .turn), (10, .turn), (20, .act acknowledgement), (30, .turn), (30, .turn),
    (1100, .act .resendDue), (1500, .turn), (2200, .act .resendDue), (2200, .turn), (2210, .turn),
    (2220, .turn)]

theorem returns_first_failure_secondTimesOut :
    let e : Envelope := ⟨⟨1⟩, ⟨2⟩, ⟨⟨7⟩, [1, 2, 3]⟩⟩
    let s₀ := start (refused.after []) ⟨1⟩ 0 e
    let s := s₀.run secondTimesOut
    s.result = some (.error (.acknowledgementTimeout ⟨1⟩ 1)) ∧
      Total 3 (s₀.PacketEnds secondTimesOut) (.error (.acknowledgementTimeout ⟨1⟩ 1)) ∧
      ∃ p, s₀.ahead[2]? = some p ∧ s.Awaits p 2 ∧ s.IsSentAgain p := by
  intro e s₀ s
  have hs : s₀.IsNew (some 1) := start_isNew ⟨[], rfl⟩ ⟨1⟩ 0 e
  have hr : s.result = some (.error (.acknowledgementTimeout ⟨1⟩ 1)) := by decide +kernel
  have hlength : s₀.ahead.length = 3 := by decide +kernel
  obtain ⟨p, hp⟩ : ∃ p, s₀.ahead[2]? = some p :=
    ⟨_, List.getElem?_eq_getElem (hlength ▸ Nat.lt_succ_self 2)⟩
  obtain ⟨-, -, ⟨-, hpackets⟩, -, hresult, -⟩ :=
    returns_first_failure { maxDatagram := 196, maxResends := some 1 }
      { port := 4000, fault := fun _ _ => some .shutDown } (.numbered 0 100) 0 [] ⟨1⟩ 0 e
      secondTimesOut
  refine ⟨hr, hlength ▸ (hresult _ hr _).mpr rfl, p, hp, ?_⟩
  obtain ⟨r, hends⟩ | hopen := hpackets 2 p 2 hp (by decide +kernel)
  · have hnone : s.outcome? 2 = none := by decide +kernel
    cases hnone.symm.trans ((packetEnds_iff hs).mp hends)
  · exact hopen

end OngoingSend

end PeerMesh

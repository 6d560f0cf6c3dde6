import PeerMesh.Proofs.Resends

namespace PeerMesh

namespace Standing

variable {limit : Option Nat} {id : PacketId} {fate : Fate}

theorem foldl_next_of_settles {events : List Outbox.Event}
    (hall : ∀ e ∈ events, e.Spares id ∨ ∀ s : Standing, s.next limit id e = s.settle fate)
    (hsome : ∃ e ∈ events, ∀ s : Standing, s.next limit id e = s.settle fate)
    (lastSent resends : Nat) :
    events.foldl (next limit id) (waiting lastSent resends) = decided fate := by
  induction events with
  | nil =>
    obtain ⟨e, he, -⟩ := hsome
    cases he
  | cons e events ih =>
    obtain ⟨hfirst, hall⟩ := List.forall_mem_cons.mp hall
    rw [List.foldl_cons]
    obtain hspares | hsettles := hfirst
    · rw [next_of_spares hspares]
      obtain ⟨e', hmem, hsettles⟩ := hsome
      obtain rfl | hmem := List.mem_cons.mp hmem
      · have hsame := hsettles (waiting lastSent resends)
        rw [next_of_spares hspares] at hsame
        cases hsame
      · exact ih hall ⟨e', hmem, hsettles⟩
    · rw [hsettles, settle, foldl_next_decided]

theorem next_acknowledge (limit : Option Nat) (i id : PacketId) :
    (Outbox.Event.acknowledge i).Spares id ∨
      ∀ s : Standing, s.next limit id (.acknowledge i) = s.settle .acknowledged := by
  by_cases h : id = i
  · exact .inr fun s => if_pos h
  · exact .inl (Ne.symm h)

theorem next_expect (limit : Option Nat) (x : Registration) (id : PacketId) :
    (Outbox.Event.expect x).Spares id ∨
      ∀ s : Standing, s.next limit id (.expect x) = s.settle .dropped := by
  by_cases h : id = x.id
  · exact .inr fun s => if_pos h
  · exact .inl (Ne.symm h)

theorem foldl_next_acknowledgements {ps : List Payload} (h : .acknowledgement id ∈ ps)
    (lastSent resends : Nat) :
    (UdpTransport.acknowledgements ps).foldl (next limit id) (waiting lastSent resends) =
      decided .acknowledged := by
  refine foldl_next_of_settles (fun e he => ?_) ⟨.acknowledge id, ?_, fun s => if_pos rfl⟩ _ _
  · obtain ⟨i, -, rfl⟩ := List.mem_map.mp he
    exact next_acknowledge limit i id
  · exact List.mem_map.mpr ⟨id, List.mem_filterMap.mpr ⟨_, h, rfl⟩, rfl⟩

theorem spares_acknowledgements {ps : List Payload} (h : .acknowledgement id ∉ ps) :
    ∀ e ∈ UdpTransport.acknowledgements ps, e.Spares id := by
  intro e he
  obtain ⟨i, hi, rfl⟩ := List.mem_map.mp he
  obtain ⟨a, ha, hi⟩ := List.mem_filterMap.mp hi
  obtain rfl := Sorted.acknowledgement?_eq_some.mp hi
  rintro rfl
  exact h ha

theorem foldl_next_registers {ps : List Packet} {p : Packet} (h : p ∈ ps) (hid : p.id = id)
    (now : Nat) (endpoint : EndpointId) (lastSent resends : Nat) :
    (UdpTransport.registers now endpoint ps).foldl (next limit id) (waiting lastSent resends) =
      decided .dropped := by
  refine foldl_next_of_settles (fun e he => ?_)
    ⟨.expect ⟨now, p.id, endpoint, p.datagram⟩, List.mem_map.mpr ⟨p, h, rfl⟩,
      fun s => if_pos hid.symm⟩ _ _
  obtain ⟨p', -, rfl⟩ := List.mem_map.mp he
  exact next_expect limit _ id

theorem spares_registers {ps : List Packet} (h : ∀ p ∈ ps, p.id ≠ id) (now : Nat)
    (endpoint : EndpointId) : ∀ e ∈ UdpTransport.registers now endpoint ps, e.Spares id := by
  intro e he
  obtain ⟨p, hp, rfl⟩ := List.mem_map.mp he
  exact h p hp

end Standing

namespace Outbox

/-- The outbox is what some events have made of an empty one. -/
def Arises (limit : Option Nat) (o : Outbox) : Prop :=
  ∃ events, o = after limit events

variable {limit : Option Nat} {o : Outbox} {id : PacketId} {q : PendingPacket}

theorem Arises.foldl (h : o.Arises limit) (events : List Event) :
    (events.foldl step o).Arises limit := by
  obtain ⟨past, rfl⟩ := h
  exact ⟨past ++ events, List.foldl_append.symm⟩

theorem Arises.maxResends_eq (h : o.Arises limit) : o.maxResends = limit := by
  obtain ⟨past, rfl⟩ := h
  exact (reflects_after limit past).limit

theorem Arises.fate?_foldl {ticket : Ticket} {fate : Fate} (h : o.Arises limit)
    (hf : o.fate? ticket = some fate) (events : List Event) :
    (events.foldl step o).fate? ticket = some fate := by
  obtain ⟨past, rfl⟩ := h
  rw [after, ← List.foldl_append]
  exact fate?_after_append hf events

theorem Arises.after_pending (h : o.Arises limit) (hq : o.pending.get? id = some q)
    (events : List Event) :
    let s := events.foldl (Standing.next limit id) (.waiting q.lastSent q.attempts)
    (events.foldl step o).fate? q.ticket = s.fate? ∧
      ∀ lastSent attempts, s = .waiting lastSent attempts →
        (events.foldl step o).pending.get? id = some { q with lastSent, attempts } := by
  obtain ⟨past, rfl⟩ := h
  obtain ⟨front, x, back, rfl, rfl, hs, hp⟩ := pending_after.mp hq
  have hfoldl : events.foldl step (after limit (front ++ .expect x :: back)) =
      after limit (front ++ .expect x :: (back ++ events)) := by
    rw [after, ← List.foldl_append, List.append_assoc, List.cons_append, after]
  have hlater : x.standing limit (back ++ events) =
      events.foldl (Standing.next limit x.id) (.waiting q.lastSent q.attempts) := by
    rw [Registration.standing, List.foldl_append, ← Registration.standing, hs]
  intro s
  refine ⟨?_, fun lastSent attempts hw => ?_⟩
  · rw [hfoldl, hp, fate?_after, hlater]
  · rw [hfoldl, pending_after]
    refine ⟨front, x, back ++ events, rfl, rfl, hlater.trans hw, ?_⟩
    rw [hp]

theorem Arises.isSpent_iff (h : o.Arises limit) (hq : o.pending.get? id = some q) :
    o.IsSpent q ↔ o.maxResends = some q.attempts := by
  rw [h.maxResends_eq]
  obtain ⟨past, rfl⟩ := h
  obtain ⟨x, -, hb⟩ := (reflects_after limit past).pending id q hq
  exact (reflects_after limit past).isSpent_iff (Book.bounded_after hb)

end Outbox

namespace UdpTransport

def after (t : UdpTransport) (acts : List (Nat × Act)) : UdpTransport :=
  acts.foldl (fun t a => t.act a.1 a.2) t

def outboxEvents (t : UdpTransport) (now : Nat) : Act → List Outbox.Event
  | .receive _ datagram _ => acknowledgements (Datagram.payloads datagram)
  | .sendReliable sender endpoint e => registers now endpoint (t.packetsFor sender e true).2
  | .resendDue => t.sweeps now
  | .shutDown _ => [.failAll]
  | _ => []

theorem outbox_act (t : UdpTransport) (now : Nat) (a : Act) :
    (t.act now a).outbox = (t.outboxEvents now a).foldl Outbox.step t.outbox := by
  cases a with
  | receive d datagram source => exact (t.receive_advances d now datagram source).outbox
  | sendReliable sender endpoint e => exact (t.sendReliable_works sender endpoint e now).outbox
  | resendDue => exact (t.resendDue_works now).outbox
  | broadcast sender e => exact (t.broadcast_works sender e).outbox
  | announceDue i => exact (t.announceDue_works i now).outbox
  | _ => rfl

theorem arises_after {t : UdpTransport} {limit : Option Nat} (h : t.outbox.Arises limit)
    (acts : List (Nat × Act)) : (t.after acts).outbox.Arises limit := by
  induction acts generalizing t with
  | nil => exact h
  | cons a acts ih =>
    refine ih (t := t.act a.1 a.2) ?_
    rw [outbox_act]
    exact h.foldl _

/-- The time has come to send again what was not acknowledged. -/
def TickIsDue (t : UdpTransport) (now : Nat) : Prop :=
  ∃ due, t.resendAt? = some due ∧ due ≤ now

theorem sweeps_of_due {t : UdpTransport} {now : Nat} (h : t.TickIsDue now) :
    t.sweeps now = [.sweep now t.config.resendInterval] := by
  obtain ⟨due, hdue, hle⟩ := h
  obtain ⟨s, hs, rfl⟩ := Option.map_eq_some_iff.mp hdue
  rw [sweeps, hs]
  exact if_pos hle

theorem sweeps_of_not_due {t : UdpTransport} {now : Nat} (h : ¬ t.TickIsDue now) :
    t.sweeps now = [] := by
  rw [sweeps]
  cases hs : t.schedule with
  | none => rfl
  | some s => exact if_neg fun hle => h ⟨s.resend, by rw [resendAt?, hs]; rfl, hle⟩

theorem offered_of_due {t : UdpTransport} {now : Nat} (h : t.TickIsDue now) :
    (t.resendDue now).link.offered = t.link.offered ++ t.resent now := by
  obtain ⟨due, hdue, hle⟩ := h
  obtain ⟨s, hs, rfl⟩ := Option.map_eq_some_iff.mp hdue
  rw [resendDue, hs]
  dsimp only
  rw [if_pos hle]
  exact t.link.offered_offerAll _

end UdpTransport

/-- A reliable send that is under way. -/
structure OngoingSend where
  transport : UdpTransport
  endpoint : EndpointId
  destination : SocketAddress
  ahead : List Packet
  ready : Option Packet := none
  tickets : List Ticket := []
  /-- How many packets, from the first, are known to be acknowledged. -/
  acknowledged : Nat := 0
  result : Option (Except SendError Unit) := none

namespace OngoingSend

def start (t : UdpTransport) (sender : PeerId) (endpoint : EndpointId) (e : Envelope) :
    OngoingSend :=
  let destination := t.endpoints.address endpoint
  let (transport, ahead) := t.packetsFor sender e true
  { transport, endpoint, destination, ahead }

def register (s : OngoingSend) (now : Nat) (p : Packet) (ahead : List Packet) : OngoingSend :=
  let (outbox, ticket) := s.transport.outbox.expect now p.id s.endpoint p.datagram
  { s with
    transport := { s.transport with outbox }
    ahead
    ready := some p
    tickets := s.tickets ++ [ticket] }

def offer (s : OngoingSend) (p : Packet) : OngoingSend :=
  { s with
    transport := (s.transport.offer (.unicast s.destination p.datagram)).1
    ready := none }

/-- Looks after the first packet that is not known to be acknowledged. -/
def wait (s : OngoingSend) : OngoingSend :=
  match s.tickets[s.acknowledged]? with
  | none => { s with result := some (.ok ()) }
  | some ticket =>
    match (s.transport.outbox.fate? ticket).map Fate.result with
    | none => s
    | some (.ok ()) => { s with acknowledged := s.acknowledged + 1 }
    | some (.error e) => { s with result := some (.error e) }

/-- A turn of the sender. -/
def turn (s : OngoingSend) (now : Nat) : OngoingSend :=
  match s.ready with
  | some p => s.offer p
  | none =>
    match s.ahead with
    | p :: ps => s.register now p ps
    | [] => if s.result.isNone then s.wait else s

/-- What happens next: a turn of the sender, or an act of the transport that is not part of the
send. -/
inductive Move where
  | turn
  | act (a : UdpTransport.Act)

def Move.isTurn : Move → Bool
  | turn => true
  | act _ => false

def move (s : OngoingSend) (now : Nat) : Move → OngoingSend
  | .turn => s.turn now
  | .act a => { s with transport := s.transport.act now a }

def run (s : OngoingSend) (moves : List (Nat × Move)) : OngoingSend :=
  moves.foldl (fun s m => s.move m.1 m.2) s

def turns (moves : List (Nat × Move)) : Nat :=
  moves.countP (·.2.isTurn)

def offers (s : OngoingSend) : List (Nat × Move) → List Parcel
  | [] => []
  | (now, .turn) :: moves =>
    let s' := s.turn now
    s'.transport.link.offered.drop s.transport.link.offered.length ++ s'.offers moves
  | (now, .act a) :: moves => (s.move now (.act a)).offers moves

def registers (s : OngoingSend) : Move → List Packet
  | .turn => if s.ready.isSome then [] else s.ahead.take 1
  | .act (.sendReliable sender _ e) => (s.transport.packetsFor sender e true).2
  | .act _ => []

/-- The packet is pending under the ticket. -/
def Awaits (s : OngoingSend) (p : Packet) (ticket : Ticket) : Prop :=
  ∃ lastSent attempts, s.transport.outbox.pending.get? p.id =
    some ⟨p.datagram, s.endpoint, lastSent, attempts, ticket⟩

/-- The move decides what becomes of a packet that is pending. -/
inductive Ends (s : OngoingSend) (now : Nat) (p : Packet) : Move → Except SendError Unit → Prop
  | acknowledged {d : Directory} {datagram : Bytes} {source : SocketAddress}
      (h : .acknowledgement p.id ∈ Datagram.payloads datagram) :
      Ends s now p (.act (.receive d datagram source)) (.ok ())
  | timedOut {q : PendingPacket} (hq : s.transport.outbox.pending.get? p.id = some q)
      (htick : s.transport.TickIsDue now)
      (hdue : Outbox.IsDue now s.transport.config.resendInterval q)
      (hspent : s.transport.outbox.maxResends = some q.attempts) :
      Ends s now p (.act .resendDue) (.error (.acknowledgementTimeout p.id q.attempts))
  | shutDown {d : Directory} : Ends s now p (.act (.shutDown d)) (.error .shutDown)
  | replaced {m : Move} {p' : Packet} (h : p' ∈ s.registers m) (hid : p'.id = p.id) :
      Ends s now p m (.error .shutDown)

/-- In the course of the moves, the packet with an index is registered, and what becomes of it is
decided. -/
def PacketEnds (s : OngoingSend) (moves : List (Nat × Move)) (i : Nat)
    (r : Except SendError Unit) : Prop :=
  ∃ p ticket before now m later, s.ahead[i]? = some p ∧ moves = before ++ (now, m) :: later ∧
    (s.run before).tickets[i]? = some ticket ∧ (s.run before).Awaits p ticket ∧
    (s.run before).Ends now p m r

/-- At every tick for which the packet is due, it is sent again to where its peer is then, if it was
not sent again as often as it may be. -/
def IsSentAgain (s : OngoingSend) (p : Packet) : Prop :=
  ∀ now q, s.transport.outbox.pending.get? p.id = some q → s.transport.TickIsDue now →
    Outbox.IsDue now s.transport.config.resendInterval q →
    s.transport.outbox.maxResends ≠ some q.attempts →
    .unicast (s.transport.endpoints.address s.endpoint) p.datagram ∈
      (s.transport.act now .resendDue).link.offered.drop s.transport.link.offered.length

def outcome? (s : OngoingSend) (i : Nat) : Option (Except SendError Unit) :=
  s.tickets[i]?.bind fun ticket => (s.transport.outbox.fate? ticket).map Fate.result

def outboxEvents (s : OngoingSend) (now : Nat) : Move → List Outbox.Event
  | .turn => UdpTransport.registers now s.endpoint (s.registers .turn)
  | .act a => s.transport.outboxEvents now a

/-- What a move does. A sender first offers what is ready, then registers what is ahead, then
waits. -/
inductive Step (s : OngoingSend) (now : Nat) : Move → OngoingSend → Prop
  | act (a : UdpTransport.Act) : Step s now (.act a) { s with transport := s.transport.act now a }
  | offer {p : Packet} (hr : s.ready = some p) : Step s now .turn (s.offer p)
  | register {p : Packet} {ps : List Packet} (hr : s.ready = none) (ha : s.ahead = p :: ps) :
      Step s now .turn (s.register now p ps)
  | acknowledge (hr : s.ready = none) (ha : s.ahead = []) (hopen : s.result = none)
      (ho : s.outcome? s.acknowledged = some (.ok ())) :
      Step s now .turn { s with acknowledged := s.acknowledged + 1 }
  | fail {err : SendError} (hr : s.ready = none) (ha : s.ahead = []) (hopen : s.result = none)
      (ho : s.outcome? s.acknowledged = some (.error err)) :
      Step s now .turn { s with result := some (.error err) }
  | succeed (hr : s.ready = none) (ha : s.ahead = []) (hopen : s.result = none)
      (hall : s.tickets.length ≤ s.acknowledged) :
      Step s now .turn { s with result := some (.ok ()) }
  | rest (hr : s.ready = none) (ha : s.ahead = [])
      (h : s.result ≠ none ∨
        s.acknowledged < s.tickets.length ∧ s.outcome? s.acknowledged = none) :
      Step s now .turn s

variable {s s' : OngoingSend} {limit : Option Nat} {now i : Nat} {m : Move} {p : Packet}
  {ticket : Ticket} {r : Except SendError Unit}

theorem wait_step (hr : s.ready = none) (ha : s.ahead = []) (hopen : s.result = none) :
    s.Step now .turn s.wait := by
  have ho : s.outcome? s.acknowledged = s.tickets[s.acknowledged]?.bind fun ticket =>
      (s.transport.outbox.fate? ticket).map Fate.result := rfl
  unfold wait
  cases ht : s.tickets[s.acknowledged]? with
  | none => exact .succeed hr ha hopen (List.getElem?_eq_none_iff.mp ht)
  | some ticket =>
    rw [ht, Option.bind_some] at ho
    dsimp only
    split
    · exact .rest hr ha (.inr ⟨(List.getElem?_eq_some_iff.mp ht).1, ho.trans ‹_›⟩)
    · exact .acknowledge hr ha hopen (ho.trans ‹_›)
    · exact .fail hr ha hopen (ho.trans ‹_›)

theorem move_step (s : OngoingSend) (now : Nat) (m : Move) : s.Step now m (s.move now m) := by
  cases m with
  | act a => exact .act a
  | turn =>
    show s.Step now .turn (s.turn now)
    unfold turn
    cases hr : s.ready with
    | some p => exact .offer hr
    | none =>
      cases ha : s.ahead with
      | cons p ps => exact .register hr ha
      | nil =>
        dsimp only
        split
        · exact wait_step hr ha (Option.isNone_iff_eq_none.mp ‹_›)
        · exact .rest hr ha (.inl fun hn => ‹¬ _› (Option.isNone_iff_eq_none.mpr hn))

namespace Step

theorem endpoint (h : s.Step now m s') : s'.endpoint = s.endpoint := by
  cases h <;> rfl

theorem destination (h : s.Step now m s') : s'.destination = s.destination := by
  cases h <;> rfl

theorem outbox (h : s.Step now m s') :
    s'.transport.outbox = (s.outboxEvents now m).foldl Outbox.step s.transport.outbox := by
  have hnone (hr : s.ready = none) (ha : s.ahead = []) : s.outboxEvents now .turn = [] := by
    rw [outboxEvents, registers, hr, ha]
    rfl
  cases h with
  | act a => exact s.transport.outbox_act now a
  | offer hr =>
    rw [outboxEvents, registers, hr]
    rfl
  | register hr ha =>
    rw [outboxEvents, registers, hr, ha]
    rfl
  | acknowledge hr ha => rw [hnone hr ha, List.foldl_nil]
  | fail hr ha => rw [hnone hr ha, List.foldl_nil]
  | succeed hr ha => rw [hnone hr ha, List.foldl_nil]
  | rest hr ha => rw [hnone hr ha, List.foldl_nil]

theorem tickets (h : s.Step now m s') :
    s'.tickets = s.tickets ∧ s'.ahead = s.ahead ∨
      ∃ p ps, s.ready = none ∧ s.ahead = p :: ps ∧ s' = s.register now p ps := by
  cases h with
  | register hr ha => exact .inr ⟨_, _, hr, ha, rfl⟩
  | _ => exact .inl ⟨rfl, rfl⟩

theorem getElem?_tickets (h : s.Step now m s') (ht : s.tickets[i]? = some ticket) :
    s'.tickets[i]? = some ticket := by
  obtain ⟨hsame, -⟩ | ⟨p, ps, -, -, rfl⟩ := h.tickets
  · rw [hsame]
    exact ht
  · exact (List.getElem?_append_left (List.getElem?_eq_some_iff.mp ht).1).trans ht

theorem length_tickets (h : s.Step now m s') :
    s'.tickets.length + s'.ahead.length = s.tickets.length + s.ahead.length := by
  obtain ⟨hsame, hahead⟩ | ⟨p, ps, -, ha, rfl⟩ := h.tickets
  · rw [hsame, hahead]
  · rw [ha]
    show (s.tickets ++ [_]).length + ps.length = _
    rw [List.length_append, List.length_singleton, List.length_cons, Nat.add_right_comm,
      Nat.add_assoc]

theorem arises (h : s.Step now m s') (ho : s.transport.outbox.Arises limit) :
    s'.transport.outbox.Arises limit := by
  rw [h.outbox]
  exact ho.foldl _

theorem outcome? (h : s.Step now m s') (ho : s.transport.outbox.Arises limit)
    (hr : s.outcome? i = some r) : s'.outcome? i = some r := by
  obtain ⟨ticket, ht, hf⟩ := Option.bind_eq_some_iff.mp hr
  obtain ⟨fate, hf, hr⟩ := Option.map_eq_some_iff.mp hf
  rw [OngoingSend.outcome?, h.getElem?_tickets ht, Option.bind_some, h.outbox,
    ho.fate?_foldl hf, Option.map_some, hr]

end Step

theorem Ends.foldl_next (h : s.Ends now p m r) (ho : s.transport.outbox.Arises limit)
    {q : PendingPacket} (hq : s.transport.outbox.pending.get? p.id = some q) :
    ∃ fate, fate.result = r ∧ (s.outboxEvents now m).foldl (Standing.next limit p.id)
      (.waiting q.lastSent q.attempts) = .decided fate := by
  cases h with
  | acknowledged h => exact ⟨.acknowledged, rfl, Standing.foldl_next_acknowledgements h _ _⟩
  | shutDown => exact ⟨.shutDown, rfl, rfl⟩
  | timedOut hq' htick hdue hspent =>
    cases hq.symm.trans hq'
    refine ⟨.timedOut p.id q.attempts, rfl, ?_⟩
    rw [outboxEvents, UdpTransport.outboxEvents, UdpTransport.sweeps_of_due htick, List.foldl_cons,
      List.foldl_nil, Standing.next, if_neg (Nat.not_lt.mpr hdue),
      if_pos (ho.maxResends_eq.symm.trans hspent)]
  | replaced h hid =>
    refine ⟨.dropped, rfl, ?_⟩
    cases m with
    | turn => exact Standing.foldl_next_registers h hid now s.endpoint _ _
    | act a =>
      cases a with
      | sendReliable sender endpoint e =>
        exact Standing.foldl_next_registers h hid now endpoint _ _
      | _ => cases h

theorem foldl_next_of_not_ends (h : ∀ r, ¬ s.Ends now p m r)
    (ho : s.transport.outbox.Arises limit) {q : PendingPacket}
    (hq : s.transport.outbox.pending.get? p.id = some q) :
    ∃ lastSent attempts, (s.outboxEvents now m).foldl (Standing.next limit p.id)
      (.waiting q.lastSent q.attempts) = .waiting lastSent attempts := by
  have hregisters (endpoint : EndpointId)
      (hm : s.outboxEvents now m = UdpTransport.registers now endpoint (s.registers m)) :
      (s.outboxEvents now m).foldl (Standing.next limit p.id) (.waiting q.lastSent q.attempts) =
        .waiting q.lastSent q.attempts := by
    rw [hm]
    exact Standing.foldl_next_of_spares (Standing.spares_registers
      (fun p' hp' hid => h _ (.replaced hp' hid)) now endpoint) _
  cases m with
  | turn => exact ⟨_, _, hregisters s.endpoint rfl⟩
  | act a =>
    cases a with
    | sendReliable sender endpoint e => exact ⟨_, _, hregisters endpoint rfl⟩
    | receive d datagram source =>
      refine ⟨_, _, Standing.foldl_next_of_spares ?_ _⟩
      exact Standing.spares_acknowledgements fun hack => h _ (.acknowledged hack)
    | shutDown d => exact absurd .shutDown (h _)
    | resendDue =>
      by_cases htick : s.transport.TickIsDue now
      · rw [outboxEvents, UdpTransport.outboxEvents, UdpTransport.sweeps_of_due htick,
          List.foldl_cons, List.foldl_nil, Standing.next]
        split
        · exact ⟨_, _, rfl⟩
        · rename_i hdue
          split
          · rename_i hspent
            exact absurd (.timedOut hq htick (Nat.le_of_not_lt hdue)
              (ho.maxResends_eq.trans hspent)) (h _)
          · exact ⟨_, _, rfl⟩
      · rw [outboxEvents, UdpTransport.outboxEvents, UdpTransport.sweeps_of_not_due htick]
        exact ⟨_, _, rfl⟩
    | _ => exact ⟨_, _, rfl⟩

theorem Awaits.fate?_eq_none (h : s.Awaits p ticket) (ho : s.transport.outbox.Arises limit) :
    s.transport.outbox.fate? ticket = none := by
  obtain ⟨lastSent, attempts, hq⟩ := h
  exact (ho.after_pending hq []).1

theorem Awaits.result_of_ends (h : s.Awaits p ticket) (he : s.Ends now p m r)
    (ho : s.transport.outbox.Arises limit) :
    ((s.move now m).transport.outbox.fate? ticket).map Fate.result = some r := by
  obtain ⟨lastSent, attempts, hq⟩ := h
  obtain ⟨fate, hr, hf⟩ := he.foldl_next ho hq
  have hfate := (ho.after_pending hq (s.outboxEvents now m)).1
  rw [(s.move_step now m).outbox, hfate, hf]
  exact congrArg some hr

theorem Awaits.of_not_ends (h : s.Awaits p ticket) (hn : ∀ r, ¬ s.Ends now p m r)
    (ho : s.transport.outbox.Arises limit) : (s.move now m).Awaits p ticket := by
  obtain ⟨lastSent, attempts, hq⟩ := h
  obtain ⟨lastSent', attempts', hw⟩ := foldl_next_of_not_ends hn ho hq
  have hpending := (ho.after_pending hq (s.outboxEvents now m)).2 _ _ hw
  have hstep := s.move_step now m
  refine ⟨lastSent', attempts', ?_⟩
  rw [hstep.outbox, hstep.endpoint]
  exact hpending

theorem awaits_register (s : OngoingSend) (now : Nat) (p : Packet) (ps : List Packet) :
    (s.register now p ps).tickets = s.tickets ++ [s.transport.outbox.nextTicket] ∧
      (s.register now p ps).Awaits p s.transport.outbox.nextTicket := by
  have hticket := s.transport.outbox.expect_ticket now p.id s.endpoint p.datagram
  refine ⟨congrArg (s.tickets ++ [·]) hticket, now, 0, ?_⟩
  rw [← hticket]
  exact (KeyedList.get?_put _ _ _ _).trans (if_pos rfl)

theorem run_concat (s : OngoingSend) (moves : List (Nat × Move)) (m : Nat × Move) :
    s.run (moves ++ [m]) = (s.run moves).move m.1 m.2 := by
  rw [run, List.foldl_append]
  rfl

theorem run_append (s : OngoingSend) (moves more : List (Nat × Move)) :
    s.run (moves ++ more) = (s.run moves).run more :=
  List.foldl_append

structure IsNew (limit : Option Nat) (s : OngoingSend) : Prop where
  arises : s.transport.outbox.Arises limit
  ready : s.ready = none
  tickets : s.tickets = []
  acknowledged : s.acknowledged = 0
  result : s.result = none

variable {moves : List (Nat × Move)}

theorem arises_run (ho : s.transport.outbox.Arises limit) (moves : List (Nat × Move)) :
    (s.run moves).transport.outbox.Arises limit := by
  induction moves generalizing s with
  | nil => exact ho
  | cons m moves ih => exact ih ((s.move_step m.1 m.2).arises ho)

theorem outcome?_run (ho : s.transport.outbox.Arises limit) (hr : s.outcome? i = some r)
    (moves : List (Nat × Move)) : (s.run moves).outcome? i = some r := by
  induction moves generalizing s with
  | nil => exact hr
  | cons m moves ih =>
    have hstep := s.move_step m.1 m.2
    exact ih (hstep.arises ho) (hstep.outcome? ho hr)

theorem endpoint_run (s : OngoingSend) (moves : List (Nat × Move)) :
    (s.run moves).endpoint = s.endpoint := by
  induction moves generalizing s with
  | nil => rfl
  | cons m moves ih => exact (ih _).trans (s.move_step m.1 m.2).endpoint

theorem length_tickets_run (s : OngoingSend) (moves : List (Nat × Move)) :
    (s.run moves).tickets.length + (s.run moves).ahead.length =
      s.tickets.length + s.ahead.length := by
  induction moves generalizing s with
  | nil => rfl
  | cons m moves ih => exact (ih _).trans (s.move_step m.1 m.2).length_tickets

theorem length_ahead_run (hs : s.tickets = []) (moves : List (Nat × Move)) :
    (s.run moves).tickets.length + (s.run moves).ahead.length = s.ahead.length := by
  rw [length_tickets_run, hs, List.length_nil, Nat.zero_add]

theorem ahead_run (hs : s.tickets = []) (moves : List (Nat × Move)) :
    (s.run moves).ahead = s.ahead.drop (s.run moves).tickets.length := by
  induction moves using List.reverseRecOn with
  | nil => rw [run, List.foldl_nil, hs, List.length_nil, List.drop_zero]
  | append_singleton moves m ih =>
    rw [run_concat]
    obtain ⟨ht, ha⟩ | ⟨p, ps, -, ha, hs'⟩ := ((s.run moves).move_step m.1 m.2).tickets
    · rw [ht, ha, ih]
    · rw [hs', (awaits_register _ m.1 p ps).1, List.length_append, List.length_singleton,
        ← List.drop_drop, ← ih, ha]
      rfl

theorem PacketEnds.append (h : s.PacketEnds moves i r) (more : List (Nat × Move)) :
    s.PacketEnds (moves ++ more) i r := by
  obtain ⟨p, ticket, before, now, m, later, hp, rfl, h⟩ := h
  exact ⟨p, ticket, before, now, m, later ++ more, hp, by simp, h⟩

/-- A packet that is registered waits until something decides what becomes of it. -/
theorem ends_or_awaits (hs : s.IsNew limit) (hp : s.ahead[i]? = some p)
    (ht : (s.run moves).tickets[i]? = some ticket) :
    (∃ r, s.PacketEnds moves i r) ∨ (s.run moves).Awaits p ticket := by
  induction moves using List.reverseRecOn with
  | nil =>
    rw [run, List.foldl_nil, hs.tickets] at ht
    cases ht
  | append_singleton moves m ih =>
    rw [run_concat] at ht ⊢
    have hstep := (s.run moves).move_step m.1 m.2
    have ho := arises_run hs.arises moves
    cases hold : (s.run moves).tickets[i]? with
    | some ticket' =>
      obtain rfl : ticket' = ticket :=
        Option.some.inj ((hstep.getElem?_tickets hold).symm.trans ht)
      obtain ⟨r, hr⟩ | hawaits := ih hold
      · exact .inl ⟨r, hr.append [m]⟩
      -- It was registered before this move.
      · by_cases hends : ∃ r, (s.run moves).Ends m.1 p m.2 r
        · obtain ⟨r, hr⟩ := hends
          exact .inl ⟨r, p, ticket', moves, m.1, m.2, [], hp, rfl, hold, hawaits, hr⟩
        · exact .inr (hawaits.of_not_ends (fun r hr => hends ⟨r, hr⟩) ho)
    | none =>
      obtain ⟨hsame, -⟩ | ⟨p', ps, -, ha, hs'⟩ := hstep.tickets
      · rw [hsame, hold] at ht
        cases ht
      · obtain ⟨htickets, hawaits⟩ := awaits_register (s.run moves) m.1 p' ps
        rw [hs', htickets] at ht
        obtain ht | ⟨rfl, rfl⟩ := getElem?_concat_eq_some.mp ht
        · cases hold.symm.trans ht
        -- It is registered by this move, as the next of those that were ahead.
        · have hnext : (s.ahead.drop (s.run moves).tickets.length)[0]? = some p' := by
            rw [← ahead_run hs.tickets, ha]
            rfl
          rw [List.getElem?_drop, Nat.add_zero, hp] at hnext
          cases hnext
          rw [hs']
          exact .inr hawaits

/-- What becomes of a packet is what is found under its ticket. -/
theorem packetEnds_iff (hs : s.IsNew limit) :
    s.PacketEnds moves i r ↔ (s.run moves).outcome? i = some r := by
  have hends {r : Except SendError Unit} (h : s.PacketEnds moves i r) :
      (s.run moves).outcome? i = some r := by
    obtain ⟨p, ticket, before, now, m, later, -, rfl, ht, hawaits, hends⟩ := h
    have ho := arises_run hs.arises before
    have hstep := (s.run before).move_step now m
    rw [run_append]
    refine outcome?_run (s := (s.run before).move now m) (hstep.arises ho) ?_ later
    rw [outcome?, hstep.getElem?_tickets ht]
    exact hawaits.result_of_ends hends ho
  refine ⟨hends, fun h => ?_⟩
  obtain ⟨ticket, ht, hf⟩ := Option.bind_eq_some_iff.mp h
  have hlt : i < s.ahead.length := by
    rw [← length_ahead_run hs.tickets moves]
    exact Nat.lt_add_right _ (List.getElem?_eq_some_iff.mp ht).1
  obtain ⟨r', hr'⟩ | hawaits := ends_or_awaits hs (List.getElem?_eq_getElem hlt) ht
  · cases (hends hr').symm.trans h
    exact hr'
  · rw [hawaits.fate?_eq_none (arises_run hs.arises moves)] at hf
    cases hf

theorem Awaits.isSentAgain (h : s.Awaits p ticket) (ho : s.transport.outbox.Arises limit) :
    s.IsSentAgain p := by
  obtain ⟨lastSent, attempts, hq'⟩ := h
  intro now q hq htick hdue hspent
  cases hq'.symm.trans hq
  rw [UdpTransport.act, UdpTransport.offered_of_due htick, List.drop_left]
  refine List.mem_map.mpr ⟨⟨p.id, s.endpoint, p.datagram⟩, ?_, rfl⟩
  rw [Outbox.mem_due]
  exact ⟨p.id, _, hq, hdue, mt (ho.isSpent_iff hq).mp hspent, rfl⟩

end OngoingSend

end PeerMesh

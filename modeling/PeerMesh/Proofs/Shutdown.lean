import PeerMesh.Proofs.Life

namespace PeerMesh

namespace Outbox

theorem isPending_settle (o : Outbox) (id : PacketId) (fate : Fate) (id' : PacketId) :
    (o.settle id fate).isPending id' ↔ o.isPending id' ∧ id' ≠ id := by
  unfold settle
  cases hg : o.pending.get? id with
  | none =>
    refine (and_iff_left_of_imp ?_).symm
    rintro h rfl
    rw [isPending, KeyedList.contains, hg] at h
    cases h
  | some p =>
    unfold isPending KeyedList.contains
    dsimp only
    rw [KeyedList.get?_erase]
    by_cases h : id' = id
    · simp [h]
    · simp [h]

theorem isPending_settleAll (o : Outbox) (ids : List PacketId) (fate : Fate) (id : PacketId) :
    (ids.foldl (fun o id => o.settle id fate) o).isPending id ↔ o.isPending id ∧ id ∉ ids := by
  induction ids generalizing o with
  | nil => simp
  | cons i ids ih =>
    rw [List.foldl_cons, ih, isPending_settle, List.mem_cons, not_or, and_assoc]

theorem isPending_expect (o : Outbox) (x : Registration) (id : PacketId) :
    (o.register x).1.isPending id ↔ o.isPending id ∨ x.id = id := by
  have hs := o.isPending_settle x.id .dropped id
  unfold register expect
  generalize o.settle x.id .dropped = s at hs
  unfold isPending KeyedList.contains
  dsimp only
  rw [KeyedList.get?_put]
  by_cases h : id = x.id
  · simp [h]
  · rw [if_neg h, or_iff_left (Ne.symm h)]
    exact hs.trans (and_iff_left h)

theorem not_isPending_failAll (o : Outbox) (id : PacketId) : ¬ o.failAll.isPending id := by
  intro h
  obtain ⟨hp, hn⟩ := (o.isPending_settleAll _ _ id).mp h
  exact hn ((o.pending.mem_keys_iff id).mpr (Option.isSome_iff_exists.mp hp))

theorem failAll_failAll (o : Outbox) : o.failAll.failAll = o.failAll := by
  have hk : o.failAll.pending.keys = [] := by
    rw [List.eq_nil_iff_forall_not_mem]
    intro id hid
    obtain ⟨p, hp⟩ := (KeyedList.mem_keys_iff _ id).mp hid
    exact o.not_isPending_failAll id (Option.isSome_iff_exists.mpr ⟨p, hp⟩)
  show o.failAll.pending.keys.foldl _ _ = _
  rw [hk]
  rfl

theorem nextTicket_settleAll (o : Outbox) (es : List (PacketId × Fate)) :
    (es.foldl (fun o e => o.settle e.1 e.2) o).nextTicket = o.nextTicket := by
  induction es generalizing o with
  | nil => rfl
  | cons e es ih => rw [List.foldl_cons, ih, nextTicket_settle]

theorem nextTicket_le_step (o : Outbox) (e : Event) : o.nextTicket ≤ (o.step e).nextTicket := by
  cases e with
  | expect x =>
    rw [step, register, nextTicket_expect]
    exact Nat.le_succ _
  | acknowledge id => exact Nat.le_of_eq (o.nextTicket_settle id _).symm
  | sweep now interval =>
    rw [step, due_eq]
    exact Nat.le_of_eq (o.nextTicket_settleAll _).symm
  | failAll =>
    have h := o.nextTicket_settleAll (o.pending.keys.map fun id => (id, .shutDown))
    rw [List.foldl_map] at h
    exact Nat.le_of_eq h.symm

theorem nextTicket_le_foldl_step (o : Outbox) (events : List Event) :
    o.nextTicket ≤ (events.foldl step o).nextTicket := by
  induction events generalizing o with
  | nil => exact Nat.le_refl _
  | cons e events ih => exact Nat.le_trans (o.nextTicket_le_step e) (ih (o.step e))

theorem nextTicket_expectAll (o : Outbox) (now : Nat) (endpoint : EndpointId)
    (ps : List Packet) : (o.expectAll now endpoint ps).nextTicket = o.nextTicket + ps.length := by
  induction ps generalizing o with
  | nil => rfl
  | cons p ps ih =>
    rw [expectAll, List.foldl_cons, ← expectAll, ih, nextTicket_expect, List.length_cons,
      Nat.add_assoc, Nat.add_comm 1]

variable {o : Outbox} {limit : Option Nat} {b : Book}

theorem Reflects.fate?_failAll (h : o.Reflects limit b) {ticket : Ticket}
    (ht : ticket < o.nextTicket) :
    o.failAll.fate? ticket = some ((o.fate? ticket).getD .shutDown) := by
  rw [h.next] at ht
  rw [h.failAll.fates, h.fates, Book.getElem?_change, List.getElem?_eq_getElem ht]
  cases hs : b[ticket].2 with
  | waiting lastSent resends => simp [hs, Standing.settle, Standing.fate?]
  | decided fate => simp [hs, Standing.settle, Standing.fate?]

theorem Reflects.resultOf_failAll (h : o.Reflects limit b) {tickets : List Ticket}
    (ht : ∀ ticket ∈ tickets, ticket < o.nextTicket) :
    UdpTransport.resultOf o.failAll tickets =
      some ((UdpTransport.resultOf o tickets).getD (.error .shutDown)) := by
  induction tickets with
  | nil => rfl
  | cons ticket tickets ih =>
    obtain ⟨hticket, hrest⟩ := List.forall_mem_cons.mp ht
    rw [UdpTransport.resultOf, UdpTransport.resultOf, h.fate?_failAll hticket]
    cases o.fate? ticket with
    | none => rfl
    | some fate =>
      cases fate with
      | acknowledged => exact ih hrest
      | timedOut packet attempts => rfl
      | shutDown => rfl
      | dropped => rfl

end Outbox

namespace UdpTransport

variable {t : UdpTransport}

theorem isPending_registers (o : Outbox) (now : Nat) (endpoint : EndpointId) (ps : List Packet)
    (id : PacketId) : ((registers now endpoint ps).foldl Outbox.step o).isPending id ↔
      o.isPending id ∨ ∃ p ∈ ps, p.id = id := by
  induction ps generalizing o with
  | nil => simp [registers]
  | cons p ps ih =>
    rw [registers, List.map_cons, List.foldl_cons, ← registers, ih, Outbox.step,
      Outbox.isPending_expect, List.exists_mem_cons_iff, or_assoc]

theorem isPending_acknowledgements (o : Outbox) (ps : List Payload) (id : PacketId) :
    ((acknowledgements ps).foldl Outbox.step o).isPending id ↔
      o.isPending id ∧ .acknowledgement id ∉ ps := by
  have ha (a : Payload) : Sorted.acknowledgement? a = some id ↔ a = .acknowledgement id := by
    cases a <;> simp [Sorted.acknowledgement?]
  have hs := o.isPending_settleAll (ps.filterMap Sorted.acknowledgement?) .acknowledged id
  rw [acknowledgements, List.foldl_map]
  simp only [List.mem_filterMap, ha, exists_eq_right] at hs
  exact hs

theorem announceDue_of_isStopped (h : t.isStopped) (i : Identity) (now : Nat) :
    t.announceDue i now = t := by
  rw [announceDue, Option.isNone_iff_eq_none.mp h]

theorem resendDue_of_isStopped (h : t.isStopped) (now : Nat) : t.resendDue now = t := by
  rw [resendDue, Option.isNone_iff_eq_none.mp h]

theorem sweeps_of_isStopped (h : t.isStopped) (now : Nat) : t.sweeps now = [] := by
  rw [sweeps, Option.isNone_iff_eq_none.mp h]

theorem broadcast_of_isStopped (h : t.isStopped) (sender : PeerId) (e : Envelope) :
    t.broadcast sender e = (t, .error .shutDown) :=
  if_pos h

theorem shutDown_shutDown (t : UdpTransport) (d : Directory) :
    (t.shutDown d).1.shutDown (t.shutDown d).2 = t.shutDown d := by
  have ho := t.outbox.failAll_failAll
  unfold shutDown forgetPeers
  dsimp only
  rw [ho]
  rfl

end UdpTransport

namespace Node

/-- The tickets that a reliable send by datagrams waits for. -/
def Response.tickets? (r : Response) : Option (List Ticket) :=
  match r.status with
  | some (.awaiting tickets) => some tickets
  | _ => none

theorem Response.tickets?_eq_some {r : Response} {tickets : List Ticket}
    (h : r.tickets? = some tickets) : r.status = some (.awaiting tickets) := by
  unfold tickets? at h
  split at h
  · cases h
    assumption
  · cases h

def sends (n : Node) : List (Nat × Event) → List (List Ticket)
  | [] => []
  | e :: events => (n.step e.1 e.2).2.tickets?.toList ++ (n.step e.1 e.2).1.sends events

theorem sends_concat (n : Node) (events : List (Nat × Event)) (e : Nat × Event) :
    n.sends (events ++ [e]) =
      n.sends events ++ ((n.after events).step e.1 e.2).2.tickets?.toList := by
  induction events generalizing n with
  | nil => exact List.append_nil _
  | cons e' events ih =>
    rw [List.cons_append, sends, ih, sends, List.append_assoc]
    rfl

theorem sendBy_tickets {n : Node} {now : Nat} {reliable : Bool} {e : Envelope} {route : Route}
    {tickets : List Ticket} (h : (n.sendBy now reliable e route).2 = .awaiting tickets) :
    ∃ t, (n.sendBy now reliable e route).1.udp = some t ∧
      ∀ ticket ∈ tickets, ticket < t.outbox.nextTicket := by
  unfold sendBy at h ⊢
  cases route with
  | tcp peer c =>
    dsimp only at h
    split at h
    · cases h
    · cases h
  | udp peer endpoint =>
    cases hu : n.udp with
    | none =>
      rw [hu] at h
      cases h
    | some t =>
      rw [hu] at h
      cases reliable with
      | false => cases h
      | true =>
        obtain ⟨ids, link, hs, -⟩ := t.sendReliable_eq n.id endpoint e now _ rfl
        dsimp only at h ⊢
        rw [if_pos rfl, hs] at h ⊢
        cases h
        refine ⟨_, rfl, fun ticket hticket => ?_⟩
        dsimp only
        rw [Outbox.nextTicket_expectAll]
        exact (List.mem_range'_1.mp hticket).2

/-- The tickets that a sender is given have been issued. -/
theorem step_tickets {n : Node} {now : Nat} {e : Event} {tickets : List Ticket}
    (h : (n.step now e).2.status = some (.awaiting tickets)) :
    ∃ t, (n.step now e).1.udp = some t ∧ ∀ ticket ∈ tickets, ticket < t.outbox.nextTicket := by
  cases e with
  | send receiver body reliable =>
    have hs : (n.send now receiver body reliable).2 = .awaiting tickets := Option.some.inj h
    show ∃ t, (n.send now receiver body reliable).1.udp = some t ∧ _
    unfold send at hs ⊢
    cases hd : n.directory.routes.delivery n.id receiver body reliable with
    | via route e =>
      rw [hd] at hs
      exact sendBy_tickets hs
    | nothing result =>
      rw [hd] at hs
      cases hs
  | sendBy route e reliable => exact sendBy_tickets (Option.some.inj h)
  | _ => cases h

theorem after_tickets (n : Node) (events : List (Nat × Event)) {t : UdpTransport}
    (hu : (n.after events).udp = some t) {tickets : List Ticket}
    (h : tickets ∈ n.sends events) : ∀ ticket ∈ tickets, ticket < t.outbox.nextTicket := by
  induction events using List.reverseRecOn generalizing t with
  | nil => cases h
  | append_singleton events e ih =>
    rw [after_concat] at hu
    rw [sends_concat, List.mem_append] at h
    obtain h | h := h
    · cases step_advances (n.after events) e.1 e.2 with
      | absent _ hu' => cases hu.symm.trans hu'
      | present hs hu' ht =>
        cases hu.symm.trans hu'
        intro ticket hticket
        rw [ht.outbox]
        exact Nat.lt_of_lt_of_le (ih hs h ticket hticket) (Outbox.nextTicket_le_foldl_step _ _)
    · obtain ⟨t', hu', ht⟩ := step_tickets (Response.tickets?_eq_some (Option.mem_toList.mp h))
      cases hu.symm.trans hu'
      exact ht

theorem IsNew.outbox {n : Node} (h : n.IsNew) {events : List (Nat × Event)} {t : UdpTransport}
    (hu : (n.after events).udp = some t) : ∃ limit history, t.outbox = .after limit history := by
  obtain ⟨history, ha⟩ := n.after_advances events
  cases ha with
  | absent _ hu' => cases hu.symm.trans hu'
  | present hs hu' ht =>
    cases hu.symm.trans hu'
    obtain ⟨config, link, ids, now, rfl⟩ := h.udp _ hs
    exact ⟨config.maxResends, history, ht.outbox⟩

theorem stopUdp_eq {n : Node} {t : UdpTransport} (hu : n.udp = some t) :
    n.stopUdp = { n with
      udp := some (t.shutDown n.directory).1, directory := (t.shutDown n.directory).2 } := by
  unfold stopUdp
  rw [hu]

theorem stopped_after {n : Node} {t : UdpTransport} (hu : n.udp = some t) (hs : t.isStopped)
    (events : List (Nat × Event)) : ∃ t', (n.after events).udp = some t' ∧ t'.isStopped := by
  obtain ⟨history, ha⟩ := n.after_advances events
  cases ha with
  | absent hn => cases hu.symm.trans hn
  | present hu₀ hu' ht =>
    cases hu.symm.trans hu₀
    exact ⟨_, hu', ht.stopped hs⟩

/-- Stopping completes everything: sends without a result fail, nothing is pending, and just the
routes by datagrams are gone. After that the transport does nothing of its own accord, all
broadcasts fail, and to stop it once more changes nothing. -/
theorem shutDown_completes {s : NodeSetup} {now : Nat} {n₀ : Node}
    (hstart : Node.start s now = .ok n₀) (events : List (Nat × Event)) {t : UdpTransport}
    (hu : (n₀.after events).udp = some t) :
    let n := n₀.after events
    let x := t.shutDown n.directory
    n.stopUdp = { n with udp := some x.1, directory := x.2 } ∧
    (∀ tickets ∈ n₀.sends events, UdpTransport.resultOf x.1.outbox tickets =
      some ((UdpTransport.resultOf t.outbox tickets).getD (.error .shutDown))) ∧
    (∀ id, ¬ x.1.outbox.isPending id) ∧
    x.1.contexts = .empty ∧
    (∀ q p e, .udp p e ∈ n.directory.routes.routesTo q ↔ q = p ∧ t.contexts.get? p = some e) ∧
    (∀ q, x.2.routes.routesTo q = (n.directory.routes.routesTo q).filter fun r => ¬ r.isUdp) ∧
    x.2.identity = n.directory.identity ∧ x.2.peers = n.directory.peers ∧
    x.1.shutDown x.2 = x ∧
    ∀ more, ∃ t', (n.stopUdp.after more).udp = some t' ∧
      (∀ i now, t'.announceDue i now = t' ∧ t'.resendDue now = t') ∧
      ∀ sender e, t'.broadcast sender e = (t', .error .shutDown) := by
  intro n x
  have hnew := isNew_of_start hstart
  have hlists : n.directory.Lists t.contexts := by
    have hl := (n₀.after_keeps events).lists hnew.lists
    rwa [contexts, hu] at hl
  obtain ⟨limit, history, ho⟩ := hnew.outbox hu
  have hreflects : t.outbox.Reflects limit (Outbox.Book.after limit history) :=
    ho ▸ Outbox.reflects_after limit history
  obtain ⟨hidentity, hpeers⟩ := t.forgetPeers_frame n.directory
  have hstop := stopUdp_eq hu
  refine ⟨hstop, fun tickets h => ?_, t.outbox.not_isPending_failAll, rfl, hlists.udp,
    UdpTransport.routesTo_forgetPeers hlists, hidentity, hpeers, t.shutDown_shutDown n.directory,
    fun more => ?_⟩
  · exact hreflects.resultOf_failAll (n₀.after_tickets events hu h)
  · have hx : n.stopUdp.udp = some x.1 := congrArg Node.udp hstop
    obtain ⟨t', hu', ht'⟩ := stopped_after hx rfl more
    refine ⟨t', hu', fun i now => ⟨?_, ?_⟩, fun sender e => ?_⟩
    · exact UdpTransport.announceDue_of_isStopped ht' i now
    · exact UdpTransport.resendDue_of_isStopped ht' now
    · exact UdpTransport.broadcast_of_isStopped ht' sender e

def pendingSend : List (Nat × Event) :=
  [(1, .secondAnnounced), (2, .send ⟨2⟩ (.of (⟨7, "hello"⟩ : NumberedText)) true)]

theorem shutDown_completes_pendingSend : Node.start .first 0 = .ok .first ∧
    ∃ t, (Node.first.after pendingSend).udp = some t ∧
      let x := t.shutDown (Node.first.after pendingSend).directory
      Node.first.sends pendingSend = [[0]] ∧ UdpTransport.resultOf t.outbox [0] = none ∧
      UdpTransport.resultOf x.1.outbox [0] = some (.error .shutDown) ∧
      (Node.first.after pendingSend).directory.routes.routesTo ⟨2⟩ = [.udp ⟨2⟩ 0] ∧
      x.2.routes.routesTo ⟨2⟩ = [] := by
  have hsome : (Node.first.after pendingSend).udp.isSome := by decide +kernel
  obtain ⟨t, hu⟩ := Option.isSome_iff_exists.mp hsome
  have hsends : Node.first.sends pendingSend = [[0]] := by decide +kernel
  have hwaits : ((Node.first.after pendingSend).result? (.awaiting [0])).isNone := by decide +kernel
  have hbefore : (Node.first.after pendingSend).directory.routes.routesTo ⟨2⟩ = [.udp ⟨2⟩ 0] := by
    decide +kernel
  obtain ⟨-, hresults, -, -, -, hroutes, -⟩ := shutDown_completes start_first pendingSend hu
  have hnone : UdpTransport.resultOf t.outbox [0] = none := by
    rw [result?, hu] at hwaits
    exact Option.isNone_iff_eq_none.mp hwaits
  have hmem : [0] ∈ Node.first.sends pendingSend := hsends ▸ List.mem_singleton_self [0]
  refine ⟨start_first, t, hu, hsends, hnone, ?_, hbefore, ?_⟩
  · rw [hresults [0] hmem, hnone]
    rfl
  · rw [hroutes, hbefore]
    rfl

def isPending (n : Node) (id : PacketId) : Bool :=
  n.udp.any (·.outbox.isPending id)

def Event.Acknowledges (id : PacketId) : Event → Prop
  | datagram bs _ => .acknowledgement id ∈ Datagram.payloads bs
  | _ => False

theorem step_isPending {n : Node} {t : UdpTransport} (hu : n.udp = some t) (hs : t.isStopped)
    (now : Nat) {e : Event} (he : ¬ e.Forgets) (id : PacketId) :
    (n.step now e).1.isPending id ↔
      n.isPending id ∧ ¬ e.Acknowledges id ∨ ∃ p ∈ n.reliablePackets e, p.id = id := by
  have hn : n.isPending id = t.outbox.isPending id := by
    rw [isPending, hu, Option.any_some]
  have ho : (n.step now e).1.isPending id =
      ((n.outboxEvents now e).foldl Outbox.step t.outbox).isPending id := by
    cases n.step_advances now e with
    | absent hn => cases hu.symm.trans hn
    | present hu₀ hu' ht =>
      cases hu.symm.trans hu₀
      rw [isPending, hu', Option.any_some, ht.outbox]
  have hsend (hev : n.outboxEvents now e = n.sendEvents now e)
      (ha : ¬ e.Acknowledges id) : (n.step now e).1.isPending id ↔
        n.isPending id ∧ ¬ e.Acknowledges id ∨ ∃ p ∈ n.reliablePackets e, p.id = id := by
    rw [ho, hn, hev, sendEvents, and_iff_left ha]
    cases hr : n.reliable? e with
    | none => simp [reliablePackets, hr]
    | some x => exact UdpTransport.isPending_registers _ _ _ _ _
  have hquiet (hp : n.reliablePackets e = []) (h : (n.step now e).1.isPending id ↔
      n.isPending id ∧ ¬ e.Acknowledges id) : (n.step now e).1.isPending id ↔
        n.isPending id ∧ ¬ e.Acknowledges id ∨ ∃ p ∈ n.reliablePackets e, p.id = id := by
    simpa [hp] using h
  cases e with
  | datagram bs source =>
    refine hquiet (by simp [reliablePackets, reliable?]) ?_
    rw [ho, hn]
    exact UdpTransport.isPending_acknowledgements _ _ _
  | resendDue =>
    refine hquiet (by simp [reliablePackets, reliable?]) ?_
    have hw : n.outboxEvents now .resendDue = [] := by
      rw [outboxEvents, hu]
      exact UdpTransport.sweeps_of_isStopped hs now
    rw [ho, hn, hw]
    exact (and_iff_left not_false).symm
  | forgetPeers => exact (he trivial).elim
  | stopUdp => exact (he trivial).elim
  | shutDown => exact (he trivial).elim
  | _ => exact hsend rfl not_false

theorem exists_split_concat {α : Type} {back : List α} {y : α} {P : List α → α → List α → Prop} :
    (∃ mid x rest, back ++ [y] = mid ++ x :: rest ∧ P mid x rest) ↔
      (∃ mid x rest, back = mid ++ x :: rest ∧ P mid x (rest ++ [y])) ∨ P back y [] := by
  constructor
  · rintro ⟨mid, x, rest, he, h⟩
    obtain rfl | ⟨rest, z, rfl⟩ := List.eq_nil_or_concat rest
    · obtain ⟨rfl, hlast⟩ := List.append_inj' he rfl
      cases hlast
      exact .inr h
    · rw [List.concat_eq_append, ← List.cons_append, ← List.append_assoc] at he
      obtain ⟨rfl, hlast⟩ := List.append_inj' he rfl
      cases hlast
      exact .inl ⟨mid, x, rest, rfl, List.concat_eq_append ▸ h⟩
  · rintro (⟨mid, x, rest, rfl, h⟩ | h)
    · exact ⟨mid, x, rest ++ [y], by simp, h⟩
    · exact ⟨back, y, [], rfl, h⟩

/-- Pending at a stopped transport is what was sent since then and not acknowledged. -/
theorem after_isPending {n : Node} {t : UdpTransport} (hu : n.udp = some t) (hs : t.isStopped)
    (hnone : ∀ id, ¬ n.isPending id) {back : List (Nat × Event)}
    (hback : ∀ x ∈ back, ¬ x.2.Forgets) (id : PacketId) :
    (n.after back).isPending id ↔ ∃ mid x rest, back = mid ++ x :: rest ∧
      (∃ p ∈ (n.after mid).reliablePackets x.2, p.id = id) ∧
        ∀ y ∈ rest, ¬ y.2.Acknowledges id := by
  induction back using List.reverseRecOn with
  | nil => simpa [after] using hnone id
  | append_singleton back y ih =>
    obtain ⟨hback, hy⟩ := List.forall_mem_append.mp hback
    obtain ⟨t', hu', hs'⟩ := stopped_after hu hs back
    rw [after_concat, step_isPending hu' hs' y.1 (hy y List.mem_cons_self), ih hback,
      exists_split_concat]
    simp only [List.forall_mem_append, List.forall_mem_singleton, List.not_mem_nil,
      false_implies, implies_true, and_true]
    refine or_congr_left ⟨?_, ?_⟩
    · rintro ⟨⟨mid, x, rest, he, hp, hr⟩, ha⟩
      exact ⟨mid, x, rest, he, hp, hr, ha⟩
    · rintro ⟨mid, x, rest, he, hp, hr, ha⟩
      exact ⟨⟨mid, x, rest, he, hp, hr⟩, ha⟩

theorem after_contexts {n : Node} {t : UdpTransport} (hu : n.udp = some t)
    (hs : t.isStopped) (hnone : n.contexts = .empty) {back : List (Nat × Event)}
    (hback : ∀ x ∈ back, ¬ x.2.Forgets) (p : PeerId) :
    ((n.after back).contexts.get? p).isSome ↔ ∃ x ∈ back, ∃ bs source,
      x.2 = .datagram bs source ∧ ∃ i ∈ Datagram.heard n.id (Datagram.payloads bs), i.id = p ∧
        (i.declaredPort unicastPortKey).isSome := by
  induction back using List.reverseRecOn with
  | nil =>
    rw [after, List.foldl_nil, hnone]
    simp
  | append_singleton back y ih =>
    obtain ⟨hback, hy⟩ := List.forall_mem_append.mp hback
    obtain ⟨t', hu', hs'⟩ := stopped_after hu hs back
    have htold (bs : Bytes) (source : SocketAddress) :
        (n.after back).told (.datagram bs source) = Datagram.heard n.id (Datagram.payloads bs) := by
      rw [told, hu', (n.after_keeps back).id]
    rw [after_concat, step_contexts _ y.1 (hy y List.mem_cons_self), ih hback]
    simp only [List.mem_append, List.mem_singleton, or_and_right, exists_or, exists_eq_left]
    refine or_congr_right (exists_congr fun bs => exists_congr fun source => ?_)
    refine and_congr_right fun he => ?_
    rw [he, htold]

/-- A stopped transport takes what it is given. The peers with routes by datagrams are those that
have announced themselves since then, and the packets that are pending are those that were sent
reliably since then and not acknowledged. -/
theorem stopped_takes {s : NodeSetup} {now : Nat} {n₀ : Node} (hstart : Node.start s now = .ok n₀)
    (front : List (Nat × Event)) {t : UdpTransport} (hu : (n₀.after front).udp = some t)
    {back : List (Nat × Event)} (hback : ∀ x ∈ back, ¬ x.2.Forgets) :
    let n := (n₀.after front).stopUdp
    let n' := n.after back
    (∀ p, (∃ endpoint, .udp p endpoint ∈ n'.directory.routes.routesTo p) ↔
      ∃ x ∈ back, ∃ bs source, x.2 = .datagram bs source ∧
        ∃ i ∈ Datagram.heard n₀.id (Datagram.payloads bs), i.id = p ∧
          (i.declaredPort unicastPortKey).isSome) ∧
    ∀ id, n'.isPending id ↔ ∃ mid x rest, back = mid ++ x :: rest ∧
      (∃ p ∈ (n.after mid).reliablePackets x.2, p.id = id) ∧
        ∀ y ∈ rest, ¬ y.2.Acknowledges id := by
  intro n n'
  have hstop : n.udp = some (t.shutDown (n₀.after front).directory).1 :=
    congrArg Node.udp (stopUdp_eq hu)
  have hlists := (n.after_keeps back).lists <| (n₀.after front).stopUdp_learns.lists <|
    (n₀.after_keeps front).lists (isNew_of_start hstart).lists
  have hid : n.id = n₀.id := (n₀.after front).stopUdp_learns.id.trans (n₀.after_keeps front).id
  refine ⟨fun p => ?_, after_isPending hstop rfl (fun id => ?_) hback⟩
  · have hnone : n.contexts = .empty := by
      rw [contexts, hstop]
      rfl
    rw [← hid, ← after_contexts hstop rfl hnone hback, Option.isSome_iff_exists]
    exact exists_congr fun endpoint => (hlists.udp p p endpoint).trans (and_iff_right rfl)
  · rw [isPending, hstop]
    exact t.outbox.not_isPending_failAll id

theorem stopped_takes_pendingSend : Node.start .first 0 = .ok .first ∧
    (∃ endpoint, .udp ⟨2⟩ endpoint ∈
      (Node.first.stopUdp.after pendingSend).directory.routes.routesTo ⟨2⟩) ∧
    (Node.first.stopUdp.after pendingSend).isPending ⟨0⟩ := by
  have hquiet : ∀ x ∈ pendingSend, ¬ x.2.Forgets := by
    rintro x (_ | ⟨_, _ | ⟨_, hx⟩⟩)
    · exact not_false
    · exact not_false
    · cases hx
  obtain ⟨hroutes, hpending⟩ := stopped_takes start_first [] rfl hquiet
  have hheard : Identity.second ∈ Datagram.heard Node.first.id
      (Datagram.payloads (Payload.announcement .second).encode) := by
    decide +kernel
  have hport : (Identity.second.declaredPort unicastPortKey).isSome := by decide +kernel
  have hsent : ∃ p ∈ (Node.first.stopUdp.after [(1, .secondAnnounced)]).reliablePackets
      (.send ⟨2⟩ (.of (⟨7, "hello"⟩ : NumberedText)) true), p.id = ⟨0⟩ := by
    decide +kernel
  refine ⟨start_first, (hroutes ⟨2⟩).mpr ?_, (hpending ⟨0⟩).mpr ?_⟩
  · exact ⟨_, List.mem_cons_self, _, _, rfl, _, hheard, rfl, hport⟩
  · exact ⟨[(1, .secondAnnounced)], _, [], rfl, hsent, nofun⟩

/-- A route comes back with the next announcement, and a packet that is sent by a route of before is
pending and never sent again. -/
theorem route_and_pending_of_stopped :
    let n := (Node.first.after [(1, .secondAnnounced)]).stopUdp
    let hello : Envelope := ⟨⟨1⟩, ⟨2⟩, .of (⟨7, "hello"⟩ : NumberedText)⟩
    let n' := n.after
      [(2, .secondAnnounced), (3, .sendBy (.udp ⟨2⟩ 0) hello true), (90000, .resendDue)]
    Node.start .first 0 = .ok .first ∧ n.directory.routes.routesTo ⟨2⟩ = [] ∧
      n'.directory.routes.routesTo ⟨2⟩ = [.udp ⟨2⟩ 1] ∧ n'.isPending ⟨0⟩ := by
  intro n hello n'
  exact ⟨start_first, by decide +kernel, by decide +kernel, by decide +kernel⟩

end Node

end PeerMesh

import PeerMesh.Proofs.KeyedList
import PeerMesh.Proofs.Station

namespace PeerMesh

/-- The outbox accounts for the packets that were sent, of which those with certain ids have been
acknowledged. -/
structure Outbox.Accounts (o : Outbox) (sent : List Packet) (acked : PacketId → Prop) : Prop where
  next : o.nextTicket = sent.length
  pending : ∀ id q, o.pending.get? id = some q →
    ∃ p, sent[q.ticket]? = some p ∧ p.id = id ∧ p.datagram = q.datagram
  acknowledged : ∀ ticket, o.fate? ticket = some .acknowledged →
    ∃ p, sent[ticket]? = some p ∧ acked p.id

namespace Outbox.Accounts

variable {o : Outbox} {sent : List Packet} {acked : PacketId → Prop}

theorem mono {acked' : PacketId → Prop} (h : o.Accounts sent acked)
    (ha : ∀ id, acked id → acked' id) : o.Accounts sent acked' := by
  refine ⟨h.next, h.pending, fun ticket hf => ?_⟩
  obtain ⟨p, hp, hid⟩ := h.acknowledged ticket hf
  exact ⟨p, hp, ha _ hid⟩

theorem settle (h : o.Accounts sent acked) {id : PacketId} {fate : Fate}
    (hf : fate = .acknowledged → acked id) : (o.settle id fate).Accounts sent acked := by
  unfold Outbox.settle
  cases hq : o.pending.get? id with
  | none => exact h
  | some q =>
    refine ⟨h.next, fun id' q' hq' => ?_, fun ticket ht => ?_⟩
    · rw [KeyedList.get?_erase] at hq'
      split at hq'
      · cases hq'
      · exact h.pending id' q' hq'
    · rw [fate?, KeyedList.get?_put] at ht
      split at ht
      · obtain ⟨p, hp, hid, -⟩ := h.pending id q hq
        refine ⟨p, ‹ticket = q.ticket› ▸ hp, ?_⟩
        rw [hid]
        exact hf (Option.some.inj ht)
      · exact h.acknowledged ticket ht

theorem expect (h : o.Accounts sent acked) (now : Nat) (p : Packet) (endpoint : EndpointId) :
    (o.expect now p.id endpoint p.datagram).1.Accounts (sent ++ [p]) acked := by
  have hs : (o.settle p.id .dropped).Accounts sent acked := h.settle nofun
  have hold {ticket : Ticket} {q : Packet} (hq : sent[ticket]? = some q) :
      (sent ++ [p])[ticket]? = some q :=
    (List.getElem?_append_left (List.getElem?_eq_some_iff.mp hq).1).trans hq
  refine ⟨?_, fun id q hq => ?_, fun ticket ht => ?_⟩
  · rw [nextTicket_expect, h.next, List.length_append]
    rfl
  · rw [Outbox.expect] at hq
    dsimp only at hq
    rw [KeyedList.get?_put] at hq
    split at hq
    · cases hq
      refine ⟨p, ?_, ‹id = p.id›.symm, rfl⟩
      rw [hs.next, List.getElem?_append_right (Nat.le_refl _), Nat.sub_self]
      rfl
    · obtain ⟨r, hr, hid⟩ := hs.pending id q hq
      exact ⟨r, hold hr, hid⟩
  · obtain ⟨r, hr, ha⟩ := hs.acknowledged ticket ht
    exact ⟨r, hold hr, ha⟩

theorem expectAll (h : o.Accounts sent acked) (now : Nat) (endpoint : EndpointId)
    (ps : List Packet) : (o.expectAll now endpoint ps).Accounts (sent ++ ps) acked := by
  induction ps generalizing o sent with
  | nil =>
    rw [List.append_nil]
    exact h
  | cons p ps ih =>
    have hr := ih (h.expect now p endpoint)
    rw [List.append_assoc] at hr
    exact hr

theorem acknowledgeAll (h : o.Accounts sent acked) {ids : List PacketId}
    (hids : ∀ id ∈ ids, acked id) :
    (ids.foldl (fun o id => (o.acknowledge id).1) o).Accounts sent acked := by
  induction ids generalizing o with
  | nil => exact h
  | cons id ids ih =>
    refine ih (h.settle fun _ => hids id (by simp)) fun id' hid' => hids id' (by simp [hid'])

theorem due (h : o.Accounts sent acked) (now interval : Nat) :
    (o.due now interval).1.Accounts sent acked := by
  have hspent (es : List (PacketId × PendingPacket)) :
      (es.foldl (fun o e => o.settle e.1 (.timedOut e.1 e.2.attempts)) o).Accounts sent acked := by
    clear * - h
    induction es generalizing o with
    | nil => exact h
    | cons e es ih => exact ih (h.settle nofun)
  unfold Outbox.due
  dsimp only
  obtain ⟨hn, hp, ha⟩ := hspent
    ((o.pending.entries.filter fun e => IsDue now interval e.2).partition fun e => o.IsSpent e.2).1
  refine ⟨hn, fun id q hq => ?_, ha⟩
  rw [KeyedList.get?_mapValues, Option.map_eq_some_iff] at hq
  obtain ⟨q', hq', rfl⟩ := hq
  obtain ⟨p, hp, hid, hd⟩ := hp id q' hq'
  refine ⟨p, ?_, hid, ?_⟩
  · split
    · exact hp
    · exact hp
  · split
    · exact hd
    · exact hd

theorem mem_due (h : o.Accounts sent acked) {now interval : Nat} {r : Resend}
    (hr : r ∈ (o.due now interval).2) : ∃ p ∈ sent, p.datagram = r.datagram := by
  unfold Outbox.due at hr
  dsimp only at hr
  obtain ⟨e, he, rfl⟩ := List.mem_map.mp hr
  rw [List.partition_eq_filter_filter] at he
  have hm := (List.mem_filter.mp (List.mem_filter.mp he).1).1
  obtain ⟨p, hp, -, hd⟩ := h.pending e.1 e.2 ((o.pending.get?_eq_some_iff e.1 e.2).mpr hm)
  exact ⟨p, List.mem_of_getElem? hp, hd⟩

end Outbox.Accounts

namespace Station

def packets (x : Station) : List Packet :=
  x.sent.flatMap fun y => y.1.packets

def Acknowledged (x : Station) (id : PacketId) : Prop :=
  ∃ y ∈ x.received, .acknowledgement id ∈ Datagram.payloads y.1

/-- What a station has reason to offer to the network. -/
inductive Emits (x : Station) : Payload → Prop
  | announcement : Emits x (.announcement x.directory.identity)
  | acknowledgement {y : Bytes × List Envelope} {p : Packet} (received : y ∈ x.received)
      (mem : .packet p ∈ Datagram.payloads y.1)
      (own : x.directory.identity.isReceiver p.receiver) : Emits x (.acknowledgement p.id)
  | packet {p : Packet} (mem : p ∈ x.packets) : Emits x (.packet p)

theorem Extends.packets {later x : Station} (h : later.Extends x) :
    x.packets <+: later.packets := by
  obtain ⟨more, hm⟩ := h.sent
  rw [Station.packets, Station.packets, ← hm, List.flatMap_append]
  exact List.prefix_append _ _

theorem Emits.mono {later x : Station} {a : Payload} (ha : x.Emits a) (h : later.Extends x) :
    later.Emits a := by
  cases ha with
  | announcement =>
    rw [← h.identity]
    exact .announcement
  | acknowledgement received mem own =>
    exact .acknowledgement (h.received.subset received) mem (h.identity ▸ own)
  | packet mem => exact .packet (h.packets.subset mem)

/-- A station offers what it has reason to, and its outbox accounts for its packets, which are found
under their tickets. -/
structure Sound (x : Station) : Prop where
  accounts : x.transport.outbox.Accounts x.packets x.Acknowledged
  offered : ∀ d ∈ x.transport.link.datagrams, ∃ a, x.Emits a ∧ d = a.encode
  tickets : ∀ y ∈ x.sent, y.2.map (x.packets[·]?) = y.1.packets.map some

theorem Sound.start (config : UdpConfig) (link : Link) (ids : IdSource) (d : Directory)
    (now : Nat) : (Station.start config link ids d now).Sound :=
  ⟨⟨rfl, nofun, nofun⟩, nofun, nofun⟩

namespace Sound

variable {x : Station}

theorem extend (h : x.Sound) {later : Station} (hext : later.Extends x)
    (accounts : later.transport.outbox.Accounts later.packets later.Acknowledged)
    (offered : ∀ d ∈ later.transport.link.datagrams,
      d ∈ x.transport.link.datagrams ∨ ∃ a, later.Emits a ∧ d = a.encode)
    (tickets : ∀ y ∈ later.sent,
      y ∈ x.sent ∨ y.2.map (later.packets[·]?) = y.1.packets.map some) : later.Sound := by
  refine ⟨accounts, fun d hd => ?_, fun y hy => ?_⟩
  · obtain hd | hd := offered d hd
    · obtain ⟨a, ha, he⟩ := h.offered d hd
      exact ⟨a, ha.mono hext, he⟩
    · exact hd
  · obtain hy | hy := tickets y hy
    · obtain ⟨more, hm⟩ := hext.packets
      rw [← h.tickets y hy, ← hm]
      refine List.map_congr_left fun ticket ht => ?_
      have hs := List.mem_map_of_mem (f := (x.packets[·]?)) ht
      rw [h.tickets y hy] at hs
      obtain ⟨p, -, hp⟩ := List.mem_map.mp hs
      exact List.getElem?_append_left (List.getElem?_eq_some_iff.mp hp.symm).1
    · exact hy

theorem send (h : x.Sound) (message : Envelope) (endpoint : EndpointId) (now : Nat) :
    (x.step (.send message endpoint now)).Sound := by
  have hext := x.step_extends (.send message endpoint now)
  obtain ⟨s, hs⟩ : ∃ s : ReliableSend, s = ⟨message, x.directory.identity.id,
    x.transport.config.maxDatagram, x.transport.ids⟩ := ⟨_, rfl⟩
  obtain ⟨ids, link, hx, hl⟩ := x.step_send message endpoint now s hs
  rw [hx] at hext ⊢
  have hpackets : (x.sent ++ [(s, List.range' x.transport.outbox.nextTicket
      s.packets.length)]).flatMap (fun y => y.1.packets) = x.packets ++ s.packets := by
    simp [packets]
  refine h.extend hext ?_ (fun d hd => ?_) fun y hy => ?_
  · rw [packets, hpackets]
    exact h.accounts.expectAll now endpoint s.packets
  · dsimp only at hd
    rw [hl] at hd
    obtain hd | hd := List.mem_append.mp hd
    · exact .inl hd
    · obtain ⟨p, hp, rfl⟩ := List.mem_map.mp hd
      have hm : p ∈ x.packets ++ s.packets := List.mem_append_right _ hp
      rw [← hpackets] at hm
      exact .inr ⟨.packet p, .packet hm, rfl⟩
  · obtain hy | hy := List.mem_append.mp hy
    · exact .inl hy
    · rw [List.mem_singleton.mp hy, packets, hpackets, h.accounts.next]
      refine .inr (List.ext_getElem? fun k => ?_)
      by_cases hk : k < s.packets.length
      · simp [hk]
      · simp [hk]

theorem receive (h : x.Sound) (d : Bytes) (source : SocketAddress) (now : Nat) :
    (x.step (.receive d source now)).Sound := by
  have hext := x.step_extends (.receive d source now)
  obtain ⟨⟨_, _, _, link, ht⟩, -, -, hl⟩ := x.transport.receive_handles x.directory now d source
  have htransport : (x.step (.receive d source now)).transport =
    (x.transport.receive x.directory now d source).transport := rfl
  have hmem : (d, (x.transport.receive x.directory now d source).arrivals) ∈
    (x.step (.receive d source now)).received := List.mem_append_right _ List.mem_cons_self
  refine h.extend hext ?_ (fun d' hd' => ?_) fun y hy => .inl hy
  · rw [htransport, ht]
    refine (h.accounts.mono ?_).acknowledgeAll fun id hid => ?_
    · rintro id ⟨y, hy, hid⟩
      exact ⟨y, hext.received.subset hy, hid⟩
    · exact ⟨_, hmem, Sorted.mem_acknowledgements.mp hid⟩
  · rw [htransport, hl] at hd'
    obtain hd' | hd' := List.mem_append.mp hd'
    · exact .inl hd'
    · obtain ⟨p, hp, rfl⟩ := List.mem_map.mp hd'
      have hp := Sorted.mem_reliable.mp hp
      exact .inr ⟨_, .acknowledgement hmem hp.1 (hext.identity ▸ hp.2.2), rfl⟩

theorem step (h : x.Sound) (a : Act) : (x.step a).Sound := by
  have hext := x.step_extends a
  cases a with
  | send message endpoint now => exact h.send message endpoint now
  | receive d source now => exact h.receive d source now
  | announce now =>
    obtain ⟨_, link, hx, hl⟩ := x.step_announce now
    rw [hx] at hext ⊢
    exact h.extend hext h.accounts
      (fun d hd => (hl d hd).imp_right fun he => ⟨_, .announcement, he⟩) fun y hy => .inl hy
  | tick now =>
    obtain hx | ⟨_, link, hx, hl⟩ := x.step_tick now
    · rw [hx]
      exact h
    · rw [hx] at hext ⊢
      refine h.extend hext (h.accounts.due now _) (fun d hd => ?_) fun y hy => .inl hy
      have hd : d ∈ link.datagrams := hd
      rw [hl] at hd
      obtain hd | hd := List.mem_append.mp hd
      · exact .inl hd
      · obtain ⟨r, hr, rfl⟩ := List.mem_map.mp hd
        obtain ⟨p, hp, he⟩ := h.accounts.mem_due hr
        exact .inr ⟨.packet p, .packet hp, he.symm⟩
  | prune now maxAge =>
    exact h.extend hext h.accounts (fun d hd => .inl hd) fun y hy => .inl hy

end Sound

end Station

end PeerMesh

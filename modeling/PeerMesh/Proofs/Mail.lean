import PeerMesh.Proofs.Resends
import PeerMesh.Proofs.Roster

namespace PeerMesh

def Task.message? (node : NodeNumber) : Task → Option Envelope
  | .dispatch k e => if k = node then some e else none
  | _ => none

theorem Task.filterMap_message?_dispatch (j k : NodeNumber) (es : List Envelope) :
    (es.map (Task.dispatch k)).filterMap (message? j) = if j = k then es else [] := by
  by_cases hj : j = k
  · simp [message?, List.filterMap_map, Function.comp_def, hj]
  · simp [message?, List.filterMap_map, Function.comp_def, hj, Ne.symm hj]

namespace Posting

def datagram (p : Posting) (i : Nat) : Bytes :=
  (p.send.packet i).datagram

def answer (p : Posting) (i : Nat) : Bytes :=
  (Payload.acknowledgement (p.send.packet i).id).encode

def IsOn (p : Posting) (cs : Roster) : Prop :=
  p.node ≠ p.receiver ∧ ∃ c c' ids, cs[p.node]? = some c ∧ cs[p.receiver]? = some c' ∧
    p.send = ⟨⟨c.id, c'.id, p.message.body⟩, c.id, c.config.maxDatagram, ids⟩

end Posting

/-- A task that has to do with an announcement of a node or with one of the sends. -/
inductive Mail (cs : Roster) (sent : List Posting) : Task → Prop
  | announcement {j k : NodeNumber} {c : Newcomer} (hk : k < cs.length) (hc : cs[j]? = some c) :
    Mail cs sent (.receive k (Payload.announcement c.declared).encode c.address)
  | packet {p : Posting} {i : Nat} (hp : p ∈ sent) (hi : i < p.send.count)
    (source : SocketAddress) : Mail cs sent (.receive p.receiver (p.datagram i) source)
  | answer {p : Posting} {i : Nat} (hp : p ∈ sent) (hi : i < p.send.count)
    (source : SocketAddress) : Mail cs sent (.receive p.node (p.answer i) source)
  | message {p : Posting} (hp : p ∈ sent) : Mail cs sent (.dispatch p.receiver p.send.message)

theorem Mail.mono {cs cs' : Roster} {sent sent' : List Posting} {t : Task} (h : Mail cs sent t)
    (hc : cs <+: cs') (hs : sent ⊆ sent') : Mail cs' sent' t := by
  cases h with
  | announcement hk hget =>
    exact .announcement (Nat.lt_of_lt_of_le hk hc.length_le) (Roster.getElem?_of_prefix hc hget)
  | packet hp hi source => exact .packet (hs hp) hi source
  | answer hp hi source => exact .answer (hs hp) hi source
  | message hp => exact .message (hs hp)

def IsUnderWay (tasks : List Task) (node : NodeNumber) (d : Bytes) : Prop :=
  ∃ source, .receive node d source ∈ tasks

/-- Under the tickets of the send are its packets, each of which is under way or answered, or its
answer is under way. -/
def Posting.IsAwaited (p : Posting) (tasks : List Task) (events : List Outbox.Event) : Prop :=
  ∃ first, p.status = .awaiting (List.range' first p.send.count) ∧
    ∀ i < p.send.count, ∃ front x back, events = front ++ .expect x :: back ∧
      (Outbox.registrations front).length = first + i ∧ x.id = (p.send.packet i).id ∧
      (.acknowledge x.id ∈ back ∨ IsUnderWay tasks p.node (p.answer i) ∨
        IsUnderWay tasks p.receiver (p.datagram i))

/-- What the diaries of the nodes say agrees with what was sent and what is still to be done. -/
structure Books (cs : Roster) (sent : List Posting) (tasks : List Task)
    (log : NodeNumber → Diary) : Prop where
  postings : ∀ p ∈ sent, p.IsOn cs
  mail : ∀ t ∈ tasks, Mail cs sent t
  heard : ∀ k, ∀ a ∈ (log k).heard, ∃ j c, j ≠ k ∧ cs[j]? = some c ∧ a = c.announcement
  acts : ∀ k, ∀ a ∈ (log k).acts, ∃ d source now,
    a = .receive d source now ∧ Mail cs sent (.receive k d source)
  kinds : ∀ k, ∀ e ∈ (log k).events, (∃ x, e = .expect x) ∨ ∃ id, e = .acknowledge id
  ids : ∀ k, (Outbox.registrations (log k).events).map Registration.id =
    (sent.filter fun p => p.node = k).flatMap fun p => p.send.packetIds
  awaited : ∀ p ∈ sent, p.IsAwaited tasks (log p.node).events
  arrived : ∀ p ∈ sent, ∀ c, cs[p.receiver]? = some c → ∀ i < p.send.count,
    IsUnderWay tasks p.receiver (p.datagram i) ∨
      p.datagram i ∈ ((log p.receiver).station c).received.map Prod.fst
  received : ∀ k c, cs[k]? = some c → ∀ y ∈ ((log k).station c).received, y.2 = [] ∨
    ∃ p ∈ sent, p.receiver = k ∧ y.1 ∈ p.send.datagrams
  handled : ∀ k c, cs[k]? = some c → ((log k).handled ++ tasks.filterMap (Task.message? k)).Perm
    (((log k).station c).received.flatMap Prod.snd)

section

variable {tasks rest more : List Task} {t : Task} {k : NodeNumber} {d : Bytes}

theorem IsUnderWay.mono (h : IsUnderWay tasks k d) (hs : tasks ⊆ more) : IsUnderWay more k d :=
  h.imp fun _ hm => hs hm

theorem IsUnderWay.of_perm (h : IsUnderWay tasks k d) (hp : tasks.Perm (t :: rest)) :
    (∃ source, t = .receive k d source) ∨ IsUnderWay rest k d := by
  obtain ⟨source, hm⟩ := h
  obtain he | hr := List.mem_cons.mp (hp.mem_iff.mp hm)
  · exact .inl ⟨source, he.symm⟩
  · exact .inr ⟨source, hr⟩

/-- The books of a send go on when more happens at its node and every item under way stays under way
or is accounted for. -/
theorem Posting.IsAwaited.next {p : Posting} {events later : List Outbox.Event}
    (h : p.IsAwaited tasks events)
    (hanswer : ∀ i < p.send.count, IsUnderWay tasks p.node (p.answer i) →
      .acknowledge (p.send.packet i).id ∈ later ∨ IsUnderWay more p.node (p.answer i))
    (hpacket : ∀ i < p.send.count, IsUnderWay tasks p.receiver (p.datagram i) →
      IsUnderWay more p.node (p.answer i) ∨ IsUnderWay more p.receiver (p.datagram i)) :
    p.IsAwaited more (events ++ later) := by
  obtain ⟨first, hs, hall⟩ := h
  refine ⟨first, hs, fun i hi => ?_⟩
  obtain ⟨front, x, back, rfl, hn, hx, hcases⟩ := hall i hi
  refine ⟨front, x, back ++ later, by simp, hn, hx, ?_⟩
  obtain hack | ha | hp := hcases
  · exact .inl (List.mem_append_left _ hack)
  · rw [hx]
    exact (hanswer i hi ha).imp (List.mem_append_right _) .inl
  · exact .inr (hpacket i hi hp)

theorem Posting.IsAwaited.mono {p : Posting} {events : List Outbox.Event}
    (h : p.IsAwaited tasks events) (hw : ∀ k d, IsUnderWay tasks k d → IsUnderWay more k d) :
    p.IsAwaited more events := by
  have hnext : p.IsAwaited more (events ++ []) :=
    h.next (fun _ _ ha => .inr (hw _ _ ha)) fun _ _ ha => .inr (hw _ _ ha)
  rwa [List.append_nil] at hnext

end

theorem Outbox.registrations_acknowledgements (ps : List Payload) :
    registrations (UdpTransport.acknowledgements ps) = [] := by
  simp [registrations, UdpTransport.acknowledgements, Event.registration?]

theorem Posting.payloads_answer (p : Posting) (i : Nat) :
    Datagram.payloads (p.answer i) = [.acknowledgement (p.send.packet i).id] :=
  Datagram.payloads_encode trivial

namespace Books

variable {cs : Roster} {sent : List Posting} {tasks rest more : List Task}
  {log : NodeNumber → Diary} {k : NodeNumber} {c : Newcomer}

section Receive

variable {d : Bytes} {source : SocketAddress} {now : Nat}

theorem received_update (hc : cs[k]? = some c) {j : NodeNumber} {c' : Newcomer}
    (hc' : cs[j]? = some c') :
    ((Function.update log k ((log k).receive c.id d source now) j).station c').received =
      ((log j).station c').received ++
        if j = k then [(d, (log k).arrivals c d source now)] else [] := by
  by_cases hj : j = k
  · subst hj
    cases hc.symm.trans hc'
    rw [Function.update_self, if_pos rfl, Diary.received_receive]
  · rw [Function.update_of_ne hj, if_neg hj, List.append_nil]

theorem heard_receive (h : Books cs sent tasks log)
    (hheard : ∀ i ∈ Datagram.heard c.id (Datagram.payloads d), ∃ j c',
      j ≠ k ∧ cs[j]? = some c' ∧ ⟨source.ip, i⟩ = c'.announcement) (j : NodeNumber) :
    ∀ a ∈ (Function.update log k ((log k).receive c.id d source now) j).heard,
      ∃ i c', i ≠ j ∧ cs[i]? = some c' ∧ a = c'.announcement := by
  refine (Function.forall_update_iff log fun j x => ∀ a ∈ x.heard, ∃ i c', i ≠ j ∧
    cs[i]? = some c' ∧ a = c'.announcement).mpr ⟨fun a ha => ?_, fun j _ => h.heard j⟩ j
  obtain ha | ha := List.mem_append.mp ha
  · exact h.heard k a ha
  · obtain ⟨i, hi, rfl⟩ := List.mem_map.mp ha
    exact hheard i hi

theorem acts_receive (h : Books cs sent tasks log) (hm : .receive k d source ∈ tasks)
    (j : NodeNumber) :
    ∀ a ∈ (Function.update log k ((log k).receive c.id d source now) j).acts, ∃ d source now,
      a = .receive d source now ∧ Mail cs sent (.receive j d source) := by
  refine (Function.forall_update_iff log fun j x => ∀ a ∈ x.acts, ∃ d source now,
    a = .receive d source now ∧ Mail cs sent (.receive j d source)).mpr
    ⟨fun a ha => ?_, fun j _ => h.acts j⟩ j
  obtain ha | ha := List.mem_append.mp ha
  · exact h.acts k a ha
  · exact ⟨d, source, now, List.mem_singleton.mp ha, h.mail _ hm⟩

theorem kinds_receive (h : Books cs sent tasks log) (j : NodeNumber) :
    ∀ e ∈ (Function.update log k ((log k).receive c.id d source now) j).events,
      (∃ y, e = .expect y) ∨ ∃ id, e = .acknowledge id := by
  refine (Function.forall_update_iff log fun _ x => ∀ e ∈ x.events, (∃ y, e = .expect y) ∨
    ∃ id, e = .acknowledge id).mpr ⟨fun e he => ?_, fun j _ => h.kinds j⟩ j
  obtain he | he := List.mem_append.mp he
  · exact h.kinds k e he
  · obtain ⟨id, -, rfl⟩ := List.mem_map.mp he
    exact .inr ⟨id, rfl⟩

theorem ids_receive (h : Books cs sent tasks log) (j : NodeNumber) :
    (Outbox.registrations (Function.update log k
        ((log k).receive c.id d source now) j).events).map Registration.id =
      (sent.filter fun p => p.node = j).flatMap fun p => p.send.packetIds := by
  refine (Function.forall_update_iff log fun j x =>
    (Outbox.registrations x.events).map Registration.id =
      (sent.filter fun p => p.node = j).flatMap fun p => p.send.packetIds).mpr
    ⟨?_, fun j _ => h.ids j⟩ j
  rw [← h.ids k]
  unfold Diary.receive Outbox.registrations
  dsimp only
  rw [List.filterMap_append, ← Outbox.registrations, ← Outbox.registrations,
    Outbox.registrations_acknowledgements, List.append_nil]

theorem awaited_receive (h : Books cs sent tasks log)
    (hp : tasks.Perm (.receive k d source :: rest)) {p : Posting} (hs : p ∈ sent)
    (hanswered : ∀ i < p.send.count, k = p.receiver → d = p.datagram i →
      IsUnderWay more p.node (p.answer i)) :
    p.IsAwaited (rest ++ more)
      (Function.update log k ((log k).receive c.id d source now) p.node).events := by
  have hevents : (Function.update log k ((log k).receive c.id d source now) p.node).events =
      (log p.node).events ++ if p.node = k then
        UdpTransport.acknowledgements (Datagram.payloads d) else [] := by
    by_cases hn : p.node = k
    · rw [hn, Function.update_self, if_pos rfl]
      rfl
    · rw [Function.update_of_ne hn, if_neg hn, List.append_nil]
  rw [hevents]
  refine (h.awaited p hs).next (fun i hi ha => ?_) fun i hi ha => ?_
  · obtain ⟨_, he⟩ | ha := ha.of_perm hp
    · cases he
      rw [if_pos rfl, p.payloads_answer]
      exact .inl List.mem_cons_self
    · exact .inr (ha.mono (List.subset_append_left _ _))
  · obtain ⟨_, he⟩ | ha := ha.of_perm hp
    · cases he
      exact .inl ((hanswered i hi rfl rfl).mono (List.subset_append_right _ _))
    · exact .inr (ha.mono (List.subset_append_left _ _))

theorem arrived_receive (h : Books cs sent tasks log) (hc : cs[k]? = some c)
    (hp : tasks.Perm (.receive k d source :: rest)) {p : Posting} (hs : p ∈ sent)
    {c' : Newcomer} (hc' : cs[p.receiver]? = some c') {i : Nat} (hi : i < p.send.count) :
    IsUnderWay (rest ++ more) p.receiver (p.datagram i) ∨ p.datagram i ∈
      ((Function.update log k ((log k).receive c.id d source now)
        p.receiver).station c').received.map Prod.fst := by
  rw [received_update hc hc']
  obtain ha | ha := h.arrived p hs c' hc' i hi
  · obtain ⟨_, he⟩ | ha := ha.of_perm hp
    · cases he
      rw [if_pos rfl]
      exact .inr (by simp)
    · exact .inl (ha.mono (List.subset_append_left _ _))
  · rw [List.map_append]
    exact .inr (List.mem_append_left _ ha)

theorem received_receive (h : Books cs sent tasks log) (hc : cs[k]? = some c)
    (hreceived : (log k).arrivals c d source now = [] ∨
      ∃ p ∈ sent, p.receiver = k ∧ d ∈ p.send.datagrams)
    {j : NodeNumber} {c' : Newcomer} (hc' : cs[j]? = some c') :
    ∀ y ∈ ((Function.update log k ((log k).receive c.id d source now) j).station c').received,
      y.2 = [] ∨ ∃ p ∈ sent, p.receiver = j ∧ y.1 ∈ p.send.datagrams := by
  intro y hy
  rw [received_update hc hc'] at hy
  obtain hy | hy := List.mem_append.mp hy
  · exact h.received j c' hc' y hy
  · split at hy
    · rename_i hj
      rw [List.mem_singleton.mp hy, hj]
      exact hreceived
    · cases hy

theorem handled_receive (h : Books cs sent tasks log) (hc : cs[k]? = some c)
    (hp : tasks.Perm (.receive k d source :: rest))
    (hmessages : ∀ j, more.filterMap (Task.message? j) =
      if j = k then (log k).arrivals c d source now else [])
    {j : NodeNumber} {c' : Newcomer} (hc' : cs[j]? = some c') :
    let log' := Function.update log k ((log k).receive c.id d source now)
    ((log' j).handled ++ (rest ++ more).filterMap (Task.message? j)).Perm
      (((log' j).station c').received.flatMap Prod.snd) := by
  intro log'
  have hhandled : (log' j).handled = (log j).handled := by
    unfold log'
    by_cases hj : j = k
    · rw [hj, Function.update_self]
      rfl
    · rw [Function.update_of_ne hj]
  have htasks : (tasks.filterMap (Task.message? j)).Perm (rest.filterMap (Task.message? j)) :=
    hp.filterMap _
  have hbefore := h.handled j c' hc'
  rw [received_update hc hc', hhandled, List.filterMap_append, hmessages, List.flatMap_append,
    ← List.append_assoc]
  refine ((htasks.append_left _).symm.trans hbefore).append (.of_eq ?_)
  split
  · exact (List.append_nil _).symm
  · rfl

/-- A datagram is received: what it brings to an end is to be dispatched, and if it is a packet, its
acknowledgement is under way. -/
theorem receive (h : Books cs sent tasks log) (hc : cs[k]? = some c)
    (hp : tasks.Perm (.receive k d source :: rest)) (hmail : ∀ t ∈ more, Mail cs sent t)
    (hmessages : ∀ j, more.filterMap (Task.message? j) =
      if j = k then (log k).arrivals c d source now else [])
    (hanswered : ∀ p ∈ sent, ∀ i < p.send.count, k = p.receiver → d = p.datagram i →
      IsUnderWay more p.node (p.answer i))
    (hheard : ∀ i ∈ Datagram.heard c.id (Datagram.payloads d), ∃ j c',
      j ≠ k ∧ cs[j]? = some c' ∧ ⟨source.ip, i⟩ = c'.announcement)
    (hreceived : (log k).arrivals c d source now = [] ∨
      ∃ p ∈ sent, p.receiver = k ∧ d ∈ p.send.datagrams) :
    Books cs sent (rest ++ more)
      (Function.update log k ((log k).receive c.id d source now)) where
  postings := h.postings
  mail t ht := (List.mem_append.mp ht).elim
    (fun ht => h.mail t (hp.mem_iff.mpr (List.mem_cons_of_mem _ ht))) (hmail t)
  heard := h.heard_receive hheard
  acts := h.acts_receive (hp.mem_iff.mpr List.mem_cons_self)
  kinds := h.kinds_receive
  ids := h.ids_receive
  awaited p hs := h.awaited_receive hp hs (hanswered p hs)
  arrived _ hs _ hc' _ hi := h.arrived_receive hc hp hs hc' hi
  received _ _ hc' := h.received_receive hc hreceived hc'
  handled _ _ hc' := h.handled_receive hc hp hmessages hc'

end Receive

theorem grow (h : Books cs sent tasks log) (hmail : ∀ t ∈ more, Mail cs sent t)
    (hmessages : ∀ j, more.filterMap (Task.message? j) = []) :
    Books cs sent (tasks ++ more) log := by
  refine ⟨h.postings, fun t ht => ?_, h.heard, h.acts, h.kinds, h.ids, fun p hp => ?_,
    fun p hp c hc i hi => ?_, h.received, fun k c hc => ?_⟩
  · exact (List.mem_append.mp ht).elim (h.mail t) (hmail t)
  · exact (h.awaited p hp).mono fun _ _ ha => ha.mono (List.subset_append_left _ _)
  · exact (h.arrived p hp c hc i hi).imp_left (·.mono (List.subset_append_left _ _))
  · rw [List.filterMap_append, hmessages, List.append_nil]
    exact h.handled k c hc

theorem handle_update (log : NodeNumber → Diary) (k : NodeNumber) (e : Envelope)
    (j : NodeNumber) : Function.update log k ((log k).handle e) j =
      { log j with handled := (log j).handled ++ if j = k then [e] else [] } := by
  by_cases hj : j = k
  · rw [hj, Function.update_self, if_pos rfl]
    rfl
  · rw [Function.update_of_ne hj, if_neg hj, List.append_nil]

theorem handled_dispatch (h : Books cs sent tasks log) {e : Envelope}
    (hp : tasks.Perm (.dispatch k e :: rest)) {j : NodeNumber} (hc : cs[j]? = some c) :
    ((log j).handled ++ (if j = k then [e] else []) ++ rest.filterMap (Task.message? j)).Perm
      (((log j).station c).received.flatMap Prod.snd) := by
  refine .trans ?_ (h.handled j c hc)
  have htasks : (tasks.filterMap (Task.message? j)).Perm
      ((if j = k then [e] else []) ++ rest.filterMap (Task.message? j)) := by
    have hsingle := Task.filterMap_message?_dispatch j k [e]
    rw [← hsingle, ← List.filterMap_append]
    exact hp.filterMap _
  rw [List.append_assoc]
  exact (htasks.append_left _).symm

theorem dispatch (h : Books cs sent tasks log) {e : Envelope}
    (hp : tasks.Perm (.dispatch k e :: rest)) :
    Books cs sent rest (Function.update log k ((log k).handle e)) := by
  have hlog := handle_update log k e
  have hrest : rest ⊆ tasks := fun t ht => hp.mem_iff.mpr (List.mem_cons_of_mem _ ht)
  have hway {j : NodeNumber} {d : Bytes} (hw : IsUnderWay tasks j d) : IsUnderWay rest j d :=
    (hw.of_perm hp).resolve_left fun ⟨_, he⟩ => nomatch he
  refine ⟨h.postings, fun t ht => h.mail t (hrest ht), fun j => ?_, fun j => ?_, fun j => ?_,
    fun j => ?_, fun p hs => ?_, fun p hs c' hc i hi => ?_, fun j c' hc => ?_, fun j c' hc => ?_⟩
  all_goals rw [hlog]
  · exact h.heard j
  · exact h.acts j
  · exact h.kinds j
  · exact h.ids j
  · exact (h.awaited p hs).mono fun _ _ => hway
  · exact (h.arrived p hs c' hc i hi).imp_left hway
  · exact h.received j c' hc
  · exact h.handled_dispatch hp hc

section Send

variable {p : Posting} {now : Nat} {endpoint : EndpointId}

theorem post_update (log : NodeNumber → Diary) (p : Posting) (now : Nat) (endpoint : EndpointId)
    (j : NodeNumber) : Function.update log p.node ((log p.node).post now endpoint p.send) j =
      { log j with events := (log j).events ++
          if j = p.node then UdpTransport.registers now endpoint p.send.packets else [] } := by
  by_cases hj : j = p.node
  · rw [hj, Function.update_self, if_pos rfl]
    rfl
  · rw [Function.update_of_ne hj, if_neg hj, List.append_nil]

theorem mail_send (h : Books cs sent tasks log) (source : SocketAddress) :
    ∀ t ∈ tasks ++ p.send.packets.map fun q => .receive p.receiver q.datagram source,
      Mail cs (sent ++ [p]) t := by
  intro t ht
  obtain ht | ht := List.mem_append.mp ht
  · exact (h.mail t ht).mono List.prefix_rfl (List.subset_append_left _ _)
  · obtain ⟨q, hq, rfl⟩ := List.mem_map.mp ht
    obtain ⟨i, hi, rfl⟩ := ReliableSend.mem_packets.mp hq
    exact .packet (List.mem_append_right _ List.mem_cons_self) hi source

theorem kinds_send (h : Books cs sent tasks log) (j : NodeNumber) :
    ∀ e ∈ (Function.update log p.node ((log p.node).post now endpoint p.send) j).events,
      (∃ x, e = .expect x) ∨ ∃ id, e = .acknowledge id := by
  intro e he
  rw [post_update] at he
  obtain he | he := List.mem_append.mp he
  · exact h.kinds j e he
  · split at he
    · obtain ⟨q, -, rfl⟩ := List.mem_map.mp he
      exact .inl ⟨_, rfl⟩
    · cases he

theorem ids_send (h : Books cs sent tasks log) (j : NodeNumber) :
    (Outbox.registrations (Function.update log p.node
        ((log p.node).post now endpoint p.send) j).events).map Registration.id =
      ((sent ++ [p]).filter fun q => q.node = j).flatMap fun q => q.send.packetIds := by
  rw [post_update, List.filter_append, List.flatMap_append, ← h.ids j]
  unfold Outbox.registrations
  dsimp only
  rw [List.filterMap_append, ← Outbox.registrations, ← Outbox.registrations, List.map_append]
  congr 1
  by_cases hj : j = p.node
  · rw [if_pos hj, Node.registrations_registers]
    simp [hj, ReliableSend.packetIds]
  · simp [if_neg hj, Ne.symm hj, Outbox.registrations]

theorem isAwaited_post (events : List Outbox.Event)
    (hs : p.status = .awaiting (List.range' (Outbox.registrations events).length p.send.count))
    (hway : ∀ i < p.send.count, IsUnderWay more p.receiver (p.datagram i)) :
    p.IsAwaited more (events ++ UdpTransport.registers now endpoint p.send.packets) := by
  refine ⟨_, hs, fun i hi => ?_⟩
  have hget : p.send.packets[i]? = some (p.send.packet i) := by
    rw [p.send.packets_eq, List.getElem?_map, List.getElem?_range hi]
    rfl
  refine ⟨events ++ UdpTransport.registers now endpoint (p.send.packets.take i),
    ⟨now, (p.send.packet i).id, endpoint, p.datagram i⟩,
    UdpTransport.registers now endpoint (p.send.packets.drop (i + 1)), ?_, ?_, rfl,
    .inr (.inr (hway i hi))⟩
  · rw [List.append_assoc]
    exact congrArg (events ++ ·) (Node.registers_split now endpoint hget)
  · rw [Outbox.registrations, List.filterMap_append, List.length_append, ← Outbox.registrations,
      ← Outbox.registrations, Node.registrations_registers, List.length_map, List.length_take,
      p.send.length_packets, Nat.min_eq_left (Nat.le_of_lt hi)]

theorem awaited_send (h : Books cs sent tasks log) (hmore : tasks ⊆ more)
    (hs : p.status = .awaiting (List.range'
      (Outbox.registrations (log p.node).events).length p.send.count))
    (hway : ∀ i < p.send.count, IsUnderWay more p.receiver (p.datagram i)) {q : Posting}
    (hq : q ∈ sent ++ [p]) : q.IsAwaited more
      (Function.update log p.node ((log p.node).post now endpoint p.send) q.node).events := by
  rw [post_update]
  obtain hq | hq := List.mem_append.mp hq
  · exact (h.awaited q hq).next (fun i _ ha => .inr (ha.mono hmore))
      fun i _ ha => .inr (ha.mono hmore)
  · rw [List.mem_singleton.mp hq, if_pos rfl]
    exact isAwaited_post (log p.node).events hs hway

theorem handled_send (h : Books cs sent tasks log) (source : SocketAddress) {j : NodeNumber}
    (hc : cs[j]? = some c) : ((log j).handled ++ (tasks ++ p.send.packets.map fun q =>
      Task.receive p.receiver q.datagram source).filterMap (Task.message? j)).Perm
        (((log j).station c).received.flatMap Prod.snd) := by
  have hnone : (p.send.packets.map fun q =>
      Task.receive p.receiver q.datagram source).filterMap (Task.message? j) = [] := by
    simp [List.filterMap_map, Function.comp_def, Task.message?]
  rw [List.filterMap_append, hnone, List.append_nil]
  exact h.handled j c hc

/-- A message is sent: its packets are under way to one and the same place. -/
theorem send (h : Books cs sent tasks log) (hon : p.IsOn cs)
    (hs : p.status = .awaiting (List.range'
      (Outbox.registrations (log p.node).events).length p.send.count)) (source : SocketAddress) :
    Books cs (sent ++ [p])
      (tasks ++ p.send.packets.map fun q => .receive p.receiver q.datagram source)
      (Function.update log p.node ((log p.node).post now endpoint p.send)) := by
  have hlog := post_update log p now endpoint
  have hsent : sent ⊆ sent ++ [p] := List.subset_append_left _ _
  have htasks : tasks ⊆ tasks ++ p.send.packets.map fun q =>
      .receive p.receiver q.datagram source := List.subset_append_left _ _
  have hway (i : Nat) (hi : i < p.send.count) : IsUnderWay (tasks ++ p.send.packets.map fun q =>
      .receive p.receiver q.datagram source) p.receiver (p.datagram i) :=
    ⟨source, List.mem_append_right _
      (List.mem_map.mpr ⟨_, ReliableSend.mem_packets.mpr ⟨i, hi, rfl⟩, rfl⟩)⟩
  refine ⟨fun q hq => ?postings, h.mail_send source, fun j => ?heard, fun j a ha => ?acts,
    h.kinds_send, h.ids_send, fun q hq => h.awaited_send htasks hs hway hq,
    fun q hq c' hc i hi => ?arrived, fun j c' hc y hy => ?received, fun j c' hc => ?handled⟩
  case postings =>
    obtain hq | hq := List.mem_append.mp hq
    · exact h.postings q hq
    · exact List.mem_singleton.mp hq ▸ hon
  case heard =>
    rw [hlog]
    exact h.heard j
  case acts =>
    rw [hlog] at ha
    obtain ⟨d, source, now, he, hm⟩ := h.acts j a ha
    exact ⟨d, source, now, he, hm.mono List.prefix_rfl hsent⟩
  case arrived =>
    rw [hlog]
    obtain hq | hq := List.mem_append.mp hq
    · exact (h.arrived q hq c' hc i hi).imp_left (·.mono htasks)
    · obtain rfl := List.mem_singleton.mp hq
      exact .inl (hway i hi)
  case received =>
    rw [hlog] at hy
    exact (h.received j c' hc y hy).imp_right (Exists.imp fun q => And.imp_left (@hsent q))
  case handled =>
    rw [hlog]
    exact h.handled_send source hc

end Send

theorem join (h : Books cs [] tasks log) (hnew : log cs.length = {}) (c : Newcomer) :
    Books (cs ++ [c]) [] tasks log := by
  have hprefix : cs <+: cs ++ [c] := List.prefix_append _ _
  refine ⟨List.forall_mem_nil _, fun t ht => (h.mail t ht).mono hprefix (List.Subset.refl _),
    fun k a ha => ?_, fun k a ha => ?_, h.kinds, h.ids, List.forall_mem_nil _,
    List.forall_mem_nil _, fun k c' hc' => ?_, fun k c' hc' => ?_⟩
  · obtain ⟨j, c', hj, hc', rfl⟩ := h.heard k a ha
    exact ⟨j, c', hj, Roster.getElem?_of_prefix hprefix hc', rfl⟩
  · obtain ⟨d, source, now, rfl, hm⟩ := h.acts k a ha
    exact ⟨d, source, now, rfl, hm.mono hprefix (List.Subset.refl _)⟩
  · obtain hc' | ⟨rfl, rfl⟩ := getElem?_concat_eq_some.mp hc'
    · exact h.received k c' hc'
    · rw [hnew]
      nofun
  · obtain hc' | ⟨rfl, rfl⟩ := getElem?_concat_eq_some.mp hc'
    · exact h.handled k c' hc'
    · have hnone : tasks.filterMap (Task.message? cs.length) = [] := by
        refine List.filterMap_eq_nil_iff.mpr fun t ht => ?_
        cases h.mail t ht with
        | announcement hk hc => rfl
        | packet hp hi source => cases hp
        | answer hp hi source => cases hp
        | message hp => cases hp
      rw [hnew, hnone]
      exact .nil

end Books

end PeerMesh

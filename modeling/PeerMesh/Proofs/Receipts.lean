import Mathlib.Data.List.Flatten
import Mathlib.Data.List.Nodup
import Mathlib.Data.List.Pairwise
import Mathlib.Data.List.Perm.Basic
import PeerMesh.Proofs.Mail

namespace PeerMesh

/-- The sends have ids of their own, and messages that their receivers can put together. -/
structure Orderly (sent : List Posting) : Prop where
  whole : ∀ p ∈ sent, ¬ p.message.body.Holds Chunk
  length_lt : ∀ p ∈ sent, p.message.body.encode.length < UInt32.size
  le_max : ∀ p ∈ sent, p.send.packets.length ≤ maxChunkCount
  packets : (sent.flatMap fun p => p.send.packetIds).Nodup
  transfers : ((sent.filter fun p => p.send.IsSplit).map fun p => p.send.transfer.id).Nodup

theorem Station.discarded_run {acts : List Act} (x : Station)
    (h : ∀ a ∈ acts, ∃ d source now, a = .receive d source now) :
    (x.run acts).discarded = x.discarded := by
  induction acts using List.reverseRecOn with
  | nil => rfl
  | append_singleton acts a ih =>
    obtain ⟨d, source, now, rfl⟩ := h a (by simp)
    rw [run_concat]
    exact ih fun b hb => h b (by simp [hb])

theorem Station.inProgress_run {acts : List Act} (x : Station) {id : MultiPartId}
    (h : ∀ a ∈ acts, ∃ d source now, a = .receive d source now ∧
      ∀ p, .packet p ∈ Datagram.payloads d → ∀ c, p.message.body.read Chunk = .ok c → c.id ≠ id) :
    (x.run acts).transport.reassembler.inProgress.get? id =
      x.transport.reassembler.inProgress.get? id := by
  induction acts using List.reverseRecOn with
  | nil => rfl
  | append_singleton acts a ih =>
    obtain ⟨d, source, now, rfl, hd⟩ := h a (by simp)
    rw [run_concat, (receive_frame hd source now).1]
    exact ih fun b hb => h b (by simp [hb])

theorem Registration.standing_of_acknowledged {x : Registration} {back : List Outbox.Event}
    (hevents : ∀ e ∈ back, (∃ y, e = .expect y ∧ y.id ≠ x.id) ∨ ∃ id, e = .acknowledge id)
    (hack : .acknowledge x.id ∈ back) (limit : Option Nat) :
    x.standing limit back = .decided .acknowledged := by
  obtain ⟨front, rest, rfl, hfirst⟩ := List.eq_append_cons_of_mem hack
  have hspares : ∀ e ∈ front, e.Spares x.id := by
    intro e he
    obtain ⟨y, rfl, hy⟩ | ⟨id, rfl⟩ := hevents e (List.mem_append_left _ he)
    · exact hy
    · rintro rfl
      exact hfirst he
  have hwaiting := standing_append_of_spares limit [] hspares
  have hnext : (x.standing limit []).next limit x.id (.acknowledge x.id) =
      .decided .acknowledged := if_pos rfl
  rw [List.nil_append] at hwaiting
  rw [standing, List.foldl_append, ← standing, hwaiting, List.foldl_cons, hnext,
    Standing.foldl_next_decided]

theorem Outbox.registration_unique {front front' back back' : List Event} {x x' : Registration}
    (he : front ++ .expect x :: back = front' ++ .expect x' :: back') (hid : x'.id = x.id)
    (hback : ∀ y, .expect y ∈ back → y.id ≠ x.id)
    (hback' : ∀ y, .expect y ∈ back' → y.id ≠ x'.id) : x = x' ∧ back = back' := by
  obtain ⟨as, -, hs⟩ | ⟨as, -, hs⟩ := List.append_eq_append_iff.mp he
  · cases as with
    | nil =>
      cases hs
      exact ⟨rfl, rfl⟩
    | cons a as =>
      obtain ⟨-, rfl⟩ := List.cons.inj hs
      exact absurd hid (hback x' (by simp))
  · cases as with
    | nil =>
      cases hs
      exact ⟨rfl, rfl⟩
    | cons a as =>
      obtain ⟨-, rfl⟩ := List.cons.inj hs
      exact absurd hid.symm (hback' x (by simp))

theorem flatMap_perm_of_apart {α β γ : Type} (R : γ → α → Prop) [∀ p y, Decidable (R p y)]
    (f : α → List β) {ys : List α} {ps : List γ}
    (hapart : ps.Pairwise fun p q => ∀ y, R p y → ¬ R q y)
    (hcover : ∀ y ∈ ys, f y = [] ∨ ∃ p ∈ ps, R p y) :
    (ys.flatMap f).Perm (ps.flatMap fun p => (ys.filter (R p)).flatMap f) := by
  induction ps generalizing ys with
  | nil =>
    have hnil : ys.flatMap f = [] :=
      List.flatMap_eq_nil_iff.mpr fun y hy => (hcover y hy).resolve_right (by simp)
    rw [hnil]
    rfl
  | cons p ps ih =>
    obtain ⟨hp, hps⟩ := List.pairwise_cons.mp hapart
    have hrest : ∀ y ∈ ys.filter fun y => ¬ R p y, f y = [] ∨ ∃ q ∈ ps, R q y := by
      intro y hy
      obtain ⟨hmem, hne⟩ := List.mem_filter.mp hy
      refine (hcover y hmem).imp_right fun ⟨q, hq, hr⟩ => ?_
      obtain rfl | hq := List.mem_cons.mp hq
      · simp [hr] at hne
      · exact ⟨q, hq, hr⟩
    have hsplit : (ys.flatMap f).Perm
        ((ys.filter (R p)).flatMap f ++ (ys.filter fun y => ¬ R p y).flatMap f) := by
      rw [← List.flatMap_append]
      have hperm := List.filter_append_perm (fun y => decide (R p y)) ys
      simp only [← decide_not] at hperm
      exact (hperm.flatMap_right f).symm
    refine hsplit.trans ?_
    rw [List.flatMap_cons]
    refine List.Perm.append_left _ ((ih hps hrest).trans (.of_eq ?_))
    refine List.flatMap_congr fun q hq => congrArg (List.flatMap f) ?_
    rw [List.filter_filter]
    refine List.filter_congr fun y _ => ?_
    have := hp q hq y
    by_cases hr : R q y
    · have hn : ¬ R p y := fun h => this h hr
      simp [hr, hn]
    · simp [hr]

variable {cs : Roster} {sent : List Posting} {tasks : List Task} {log : NodeNumber → Diary}
  {k : NodeNumber} {c : Newcomer} {p q : Posting}

namespace Orderly

theorem of_prefix {more : List Posting} (h : Orderly more) (hs : sent <+: more) :
    Orderly sent := by
  have hsub := hs.subset
  exact ⟨fun p hp => h.whole p (hsub hp), fun p hp => h.length_lt p (hsub hp),
    fun p hp => h.le_max p (hsub hp), h.packets.sublist (hs.sublist.flatMap _),
    h.transfers.sublist ((hs.sublist.filter _).map _)⟩

theorem nodup (h : Orderly sent) (hp : p ∈ sent) : p.send.packetIds.Nodup :=
  (List.nodup_flatMap.mp h.packets).1 p hp

theorem eq_of_mem_packetIds (h : Orderly sent) (hp : p ∈ sent) (hq : q ∈ sent) {id : PacketId}
    (hip : id ∈ p.send.packetIds) (hiq : id ∈ q.send.packetIds) : p = q := by
  by_contra hne
  have hsymm : Std.Symm (Function.onFun List.Disjoint fun p : Posting => p.send.packetIds) :=
    ⟨fun _ _ h => h.symm⟩
  exact (List.nodup_flatMap.mp h.packets).2.forall hp hq hne hip hiq

theorem eq_of_transfer (h : Orderly sent) (hp : p ∈ sent) (hq : q ∈ sent) (hps : p.send.IsSplit)
    (hqs : q.send.IsSplit) (he : p.send.transfer.id = q.send.transfer.id) : p = q := by
  refine List.inj_on_of_nodup_map h.transfers ?_ ?_ he
  · exact List.mem_filter.mpr ⟨hp, by simpa using hps⟩
  · exact List.mem_filter.mpr ⟨hq, by simpa using hqs⟩

theorem deliverable (h : Orderly sent) (hcs : cs.Proper) (hp : p ∈ sent) (hon : p.IsOn cs) :
    p.send.Deliverable := by
  obtain ⟨-, c, c', ids, hc, -, hs⟩ := hon
  have hbody : p.send.message.body = p.message.body := by rw [hs]
  have hlt := h.length_lt p hp
  refine ⟨?_, ?_, ?_, h.le_max p hp, fun _ => hbody ▸ hlt⟩
  · rw [hs]
    exact UdpConfig.overhead_lt_of_check (hcs.starts c (List.mem_of_getElem? hc)).check
  · have hlength := p.message.body.length_encode
    have h32 : UInt32.size = 4294967296 := rfl
    have h64 : UInt64.size = 18446744073709551616 := rfl
    rw [hbody, Body.FitsMemory]
    omega
  · rw [hbody]
    exact h.whole p hp

end Orderly

/-- The books are those of sends that can be told apart. -/
structure Audit (cs : Roster) (sent : List Posting) (tasks : List Task)
    (log : NodeNumber → Diary) : Prop where
  proper : cs.Proper
  orderly : Orderly sent
  books : Books cs sent tasks log

namespace Audit

theorem deliverable (h : Audit cs sent tasks log) (hp : p ∈ sent) : p.send.Deliverable :=
  h.orderly.deliverable h.proper hp (h.books.postings p hp)

theorem payloads_datagram (h : Audit cs sent tasks log) (hp : p ∈ sent) (i : Nat) :
    Datagram.payloads (p.datagram i) = [.packet (p.send.packet i)] :=
  p.send.payloads_datagram (h.deliverable hp).overhead (h.deliverable hp).memory i

theorem payloads_announcement (h : Audit cs sent tasks log) (hc : c ∈ cs) :
    Datagram.payloads (Payload.announcement c.declared).encode = [.announcement c.declared] :=
  Datagram.payloads_encode (p := .announcement c.declared) (h.proper.sized c hc)

theorem faithful (h : Audit cs sent tasks log) (hp : p ∈ sent) {d : Bytes} {source : SocketAddress}
    (hm : Mail cs sent (.receive k d source)) (now : Nat) :
    (Act.receive d source now).Faithful p.send := by
  cases hm with
  | announcement hk hc =>
    refine .inr fun a ha => ?_
    rw [h.payloads_announcement (List.mem_of_getElem? hc), List.mem_singleton] at ha
    rw [ha]
    trivial
  | @packet q i hq hi source =>
    by_cases he : q = p
    · exact .inl (he ▸ ReliableSend.mem_datagrams.mpr ⟨i, hi, rfl⟩)
    · refine .inr fun a ha => ?_
      rw [h.payloads_datagram hq, List.mem_singleton] at ha
      subst ha
      refine ⟨fun hm => he ?_, fun hsplit c hc hid => he ?_⟩
      · exact h.orderly.eq_of_mem_packetIds hq hp (ReliableSend.mem_packetIds.mpr ⟨i, hi, rfl⟩) hm
      · obtain ⟨hqs, hqc⟩ := (h.deliverable hq).isSplit_of_read hc
        exact h.orderly.eq_of_transfer hq hp hqs hsplit (hqc.symm.trans hid)
  | @answer q i hq hi source =>
    refine .inr fun a ha => ?_
    rw [q.payloads_answer, List.mem_singleton] at ha
    rw [ha]
    trivial

theorem isReceiver (h : Audit cs sent tasks log) (hp : p ∈ sent) (hc : cs[p.receiver]? = some c) :
    c.declared.isReceiver p.send.message.receiver := by
  obtain ⟨-, c', c'', ids, -, hc'', hs⟩ := h.books.postings p hp
  cases hc.symm.trans hc''
  rw [hs]
  simp [Identity.isReceiver, Newcomer.id, Newcomer.declared, Identity.declare]

theorem tracks (h : Audit cs sent tasks log) (hp : p ∈ sent) (hc : cs[p.receiver]? = some c) :
    ((log p.receiver).station c).Tracks p.send := by
  have hstart : c.station.Tracks p.send := .start (h.deliverable hp) _ _ _ _ _
  refine hstart.run (h.deliverable hp) (h.orderly.nodup hp) (h.isReceiver hp hc) fun a ha => ?_
  obtain ⟨d, source, now, rfl, hm⟩ := h.books.acts p.receiver a ha
  exact h.faithful hp hm now

theorem not_discarded (h : Audit cs sent tasks log) (k : NodeNumber) (c : Newcomer)
    (s : ReliableSend) : ¬ ((log k).station c).HasDiscarded s := by
  intro hd
  have hnone : ((log k).station c).discarded = [] := by
    refine c.station.discarded_run fun a ha => ?_
    obtain ⟨d, source, now, he, -⟩ := h.books.acts k a ha
    exact ⟨d, source, now, he⟩
  rw [Station.HasDiscarded, hnone] at hd
  exact List.not_mem_nil hd.2

/-- A packet brings its message to an end, or nothing. -/
theorem arrivals_packet (h : Audit cs sent tasks log) (hp : p ∈ sent)
    (hc : cs[p.receiver]? = some c) {i : Nat} (hi : i < p.send.count) (source : SocketAddress)
    (now : Nat) : (log p.receiver).arrivals c (p.datagram i) source now = [] ∨
      (log p.receiver).arrivals c (p.datagram i) source now = [p.send.message] := by
  have hx := h.tracks hp hc
  have hreceiver : ((log p.receiver).station c).directory.identity.isReceiver
      p.send.message.receiver := by
    rw [Diary.identity_station]
    exact h.isReceiver hp hc
  have hnext := (hx.receive_own (h.deliverable hp) (h.orderly.nodup hp) hreceiver hi source
    now).handed_cases
  have hmem : (p.send.packet i).datagram ∈ p.send.datagrams :=
    ReliableSend.mem_datagrams.mpr ⟨i, hi, rfl⟩
  rw [Station.handed_receive, if_pos hmem] at hnext
  obtain hnext | hnext := hnext
  · exact .inl (List.append_eq_nil_iff.mp hnext).2
  · obtain hx | hx := hx.handed_cases
    · rw [hx] at hnext
      exact .inr hnext
    · rw [hx] at hnext
      exact .inl (List.append_right_eq_self.mp hnext)

theorem nodup_ids (h : Audit cs sent tasks log) (k : NodeNumber) :
    ((Outbox.registrations (log k).events).map Registration.id).Nodup := by
  rw [h.books.ids k]
  exact h.orderly.packets.sublist (List.filter_sublist.flatMap _)

theorem later (h : Audit cs sent tasks log) {front back : List Outbox.Event} {x : Registration}
    (he : (log k).events = front ++ .expect x :: back) :
    ∀ e ∈ back, (∃ y, e = .expect y ∧ y.id ≠ x.id) ∨ ∃ id, e = .acknowledge id := by
  intro e hmem
  obtain ⟨y, rfl⟩ | hack := h.books.kinds k e (by rw [he]; simp [hmem])
  · refine .inl ⟨y, rfl, fun hid => ?_⟩
    have hn := h.nodup_ids k
    have hsplit : Outbox.registrations (log k).events =
        Outbox.registrations front ++ x :: Outbox.registrations back := by
      rw [he, Outbox.registrations, List.filterMap_append]
      rfl
    rw [hsplit, List.map_append, List.map_cons] at hn
    refine (List.nodup_cons.mp (List.nodup_append.mp hn).2.1).1 (List.mem_map.mpr ⟨y, ?_, hid⟩)
    exact List.mem_filterMap.mpr ⟨_, hmem, rfl⟩
  · exact .inr hack

theorem apart (h : Audit cs sent tasks log) : sent.Pairwise fun p q =>
    ∀ y : Bytes × List Envelope, y.1 ∈ p.send.datagrams → ¬ y.1 ∈ q.send.datagrams := by
  refine (List.nodup_flatMap.mp h.orderly.packets).2.imp_of_mem ?_
  intro p q hp hq hdisjoint y hy hy'
  obtain ⟨i, hi, he⟩ := ReliableSend.mem_datagrams.mp hy
  obtain ⟨j, hj, he'⟩ := ReliableSend.mem_datagrams.mp hy'
  have hpayloads := h.payloads_datagram hp i
  rw [show p.datagram i = q.datagram j from he.trans he'.symm, h.payloads_datagram hq] at hpayloads
  have hpacket : q.send.packet j = p.send.packet i := by simpa using hpayloads
  refine hdisjoint (ReliableSend.mem_packetIds.mpr ⟨i, hi, rfl⟩) ?_
  exact ReliableSend.mem_packetIds.mpr ⟨j, hj, congrArg Packet.id hpacket⟩

section Quiet

variable (h : Audit cs sent tasks log) (hquiet : ∀ t ∈ tasks, ¬ t.IsTraffic)

include h hquiet

theorem not_underWay_datagram (hp : p ∈ sent) (i : Nat) :
    ¬ IsUnderWay tasks k (p.datagram i) := by
  rintro ⟨source, hm⟩
  refine hquiet _ hm ⟨.packet (p.send.packet i), ?_, rfl⟩
  rw [h.payloads_datagram hp]
  exact List.mem_cons_self

omit h in
theorem not_underWay_answer (p : Posting) (i : Nat) : ¬ IsUnderWay tasks k (p.answer i) := by
  rintro ⟨source, hm⟩
  refine hquiet _ hm ⟨.acknowledgement (p.send.packet i).id, ?_, rfl⟩
  rw [p.payloads_answer]
  exact List.mem_cons_self

theorem received (hp : p ∈ sent) (hc : cs[p.receiver]? = some c) :
    ∀ d ∈ p.send.datagrams, d ∈ ((log p.receiver).station c).received.map Prod.fst := by
  intro d hd
  obtain ⟨i, hi, rfl⟩ := ReliableSend.mem_datagrams.mp hd
  exact (h.books.arrived p hp c hc i hi).resolve_left (h.not_underWay_datagram hquiet hp i)

theorem handed (hp : p ∈ sent) (hc : cs[p.receiver]? = some c) :
    ((log p.receiver).station c).handed p.send = [p.send.message] :=
  (h.tracks hp hc).handed_iff.mpr ⟨h.not_discarded _ c _, h.received hquiet hp hc⟩

theorem acknowledged (hp : p ∈ sent) : ∃ first,
    p.status = .awaiting (List.range' first p.send.count) ∧
      ∀ i < p.send.count, ∃ front x back, (log p.node).events = front ++ .expect x :: back ∧
        (Outbox.registrations front).length = first + i ∧ x.id = (p.send.packet i).id ∧
        ∀ limit, x.standing limit back = .decided .acknowledged := by
  obtain ⟨first, hs, hall⟩ := h.books.awaited p hp
  refine ⟨first, hs, fun i hi => ?_⟩
  obtain ⟨front, x, back, he, hn, hx, hcases⟩ := hall i hi
  refine ⟨front, x, back, he, hn, hx, Registration.standing_of_acknowledged (h.later he) ?_⟩
  refine hcases.resolve_right (not_or.mpr ⟨?_, ?_⟩)
  · exact not_underWay_answer hquiet p i
  · exact h.not_underWay_datagram hquiet hp i

theorem fates (hp : p ∈ sent) (limit : Option Nat) : ∃ first,
    p.status = .awaiting (List.range' first p.send.count) ∧
      ∀ i < p.send.count, (Outbox.after limit (log p.node).events).fate? (first + i) =
        some .acknowledged := by
  obtain ⟨first, hs, hall⟩ := h.acknowledged hquiet hp
  refine ⟨first, hs, fun i hi => ?_⟩
  obtain ⟨front, x, back, he, hn, -, hstanding⟩ := hall i hi
  rw [he, ← hn, Outbox.fate?_after, hstanding]
  rfl

theorem outbox_idle (k : NodeNumber) (limit : Option Nat) (id : PacketId) :
    (Outbox.after limit (log k).events).pending.get? id = none := by
  by_contra hne
  obtain ⟨y, hy⟩ := Option.ne_none_iff_exists'.mp hne
  obtain ⟨front, x, back, he, rfl, hwaiting, -⟩ := Outbox.pending_after.mp hy
  have hx : x.id ∈ (Outbox.registrations (log k).events).map Registration.id := by
    refine List.mem_map.mpr ⟨x, List.mem_filterMap.mpr ⟨.expect x, ?_, rfl⟩, rfl⟩
    rw [he]
    simp
  rw [h.books.ids k] at hx
  obtain ⟨p, hpk, hid⟩ := List.mem_flatMap.mp hx
  obtain ⟨hp, hk⟩ := List.mem_filter.mp hpk
  obtain rfl : p.node = k := by simpa using hk
  obtain ⟨i, hi, hid⟩ := ReliableSend.mem_packetIds.mp hid
  obtain ⟨first, -, hall⟩ := h.acknowledged hquiet hp
  obtain ⟨front', x', back', he', -, hx', hstanding⟩ := hall i hi
  have hlater {front back : List Outbox.Event} {x : Registration}
      (he : (log p.node).events = front ++ .expect x :: back) (y : Registration)
      (hy : .expect y ∈ back) : y.id ≠ x.id := by
    obtain ⟨_, hey, hne⟩ | ⟨_, hey⟩ := h.later he _ hy
    · cases hey
      exact hne
    · cases hey
  have hid' : x'.id = x.id := hx'.trans hid
  obtain ⟨rfl, rfl⟩ :=
    Outbox.registration_unique (he.symm.trans he') hid' (hlater he) (hlater he')
  exact nomatch hwaiting.symm.trans (hstanding limit)

theorem reassembler_idle (hc : cs[k]? = some c) (id : MultiPartId) :
    ((log k).station c).transport.reassembler.inProgress.get? id = none := by
  -- Either all chunks with this id have arrived, or none has.
  by_cases hown : ∃ p ∈ sent, p.receiver = k ∧ p.send.IsSplit ∧ p.send.transfer.id = id
  · obtain ⟨p, hp, rfl, hsplit, rfl⟩ := hown
    obtain ⟨kept, -, hstage, -, hiff⟩ := (h.tracks hp hc).kept
    have hkept : kept = Finset.range p.send.count :=
      (hiff.mpr (h.not_discarded _ c _)).trans
        (Station.arrived_eq_range_iff.mpr (h.received hquiet hp hc))
    by_contra hne
    obtain ⟨m, hm⟩ := Option.ne_none_iff_exists'.mp hne
    rw [ReliableSend.count_of_isSplit hsplit] at hkept
    exact ((hstage hsplit).awaited_of_get? hm).2 hkept
  · refine c.station.inProgress_run fun a ha => ?_
    obtain ⟨d, source, now, rfl, hm⟩ := h.books.acts k a ha
    refine ⟨d, source, now, rfl, fun a hpacket ch hch hid => hown ?_⟩
    cases hm with
    | announcement hk hc =>
      rw [h.payloads_announcement (List.mem_of_getElem? hc)] at hpacket
      cases List.mem_singleton.mp hpacket
    | @packet p i hp hi source =>
      rw [h.payloads_datagram hp] at hpacket
      cases List.mem_singleton.mp hpacket
      obtain ⟨hsplit, he⟩ := (h.deliverable hp).isSplit_of_read hch
      exact ⟨p, hp, rfl, hsplit, he.symm.trans hid⟩
    | @answer p i hp hi source =>
      rw [p.payloads_answer] at hpacket
      cases List.mem_singleton.mp hpacket

/-- Each message that was sent to a node goes to its handlers once. -/
theorem handled (hc : cs[k]? = some c) : ((log k).handled ++ tasks.filterMap (Task.message? k)).Perm
    ((sent.filter fun p => p.receiver = k).map fun p => p.send.message) := by
  refine (h.books.handled k c hc).trans ?_
  have hapart : (sent.filter fun p => p.receiver = k).Pairwise fun p q =>
      ∀ y : Bytes × List Envelope, y.1 ∈ p.send.datagrams → ¬ y.1 ∈ q.send.datagrams :=
    h.apart.filter _
  refine (flatMap_perm_of_apart (fun (p : Posting) (y : Bytes × List Envelope) =>
    y.1 ∈ p.send.datagrams) Prod.snd hapart fun y hy => ?_).trans (.of_eq ?_)
  · refine (h.books.received k c hc y hy).imp_right fun ⟨p, hp, hk, hd⟩ => ⟨p, ?_, hd⟩
    exact List.mem_filter.mpr ⟨hp, by simpa using hk⟩
  · rw [← List.flatMap_pure_eq_map]
    refine List.flatMap_congr fun p hpk => ?_
    obtain ⟨hp, hk⟩ := List.mem_filter.mp hpk
    obtain rfl : p.receiver = k := by simpa using hk
    exact h.handed hquiet hp hc

end Quiet

end Audit

end PeerMesh

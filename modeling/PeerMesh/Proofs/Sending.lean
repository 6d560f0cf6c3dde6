import PeerMesh.Proofs.Reception

namespace PeerMesh

def Outbox.expectAll (o : Outbox) (now : Nat) (endpoint : EndpointId) (ps : List Packet) : Outbox :=
  ps.foldl (fun o p => (o.expect now p.id endpoint p.datagram).1) o

theorem Outbox.nextTicket_settle (o : Outbox) (id : PacketId) (fate : Fate) :
    (o.settle id fate).nextTicket = o.nextTicket := by
  unfold settle
  split
  · rfl
  · rfl

theorem Outbox.expect_ticket (o : Outbox) (now : Nat) (id : PacketId) (endpoint : EndpointId)
    (datagram : Bytes) : (o.expect now id endpoint datagram).2 = o.nextTicket :=
  o.nextTicket_settle id .dropped

theorem Outbox.nextTicket_expect (o : Outbox) (now : Nat) (id : PacketId) (endpoint : EndpointId)
    (datagram : Bytes) :
    (o.expect now id endpoint datagram).1.nextTicket = o.nextTicket + 1 :=
  congrArg (· + 1) (o.nextTicket_settle id .dropped)

namespace UdpTransport

theorem sendFirst_eq (endpoint : EndpointId) (destination : SocketAddress) (now : Nat)
    (t : UdpTransport) (p : Packet) :
    ∃ link : Link, sendFirst endpoint destination now t p =
        ({ t with outbox := (t.outbox.expect now p.id endpoint p.datagram).1, link },
          t.outbox.nextTicket) ∧
      link.datagrams = t.link.datagrams ++ [p.datagram] := by
  refine ⟨(t.link.offer (.unicast destination p.datagram)).1, ?_, t.link.datagrams_offer _⟩
  rw [← t.outbox.expect_ticket now p.id endpoint p.datagram]
  rfl

theorem sendPackets_eq (t : UdpTransport) (endpoint : EndpointId) (now : Nat) (ps : List Packet) :
    ∃ link : Link, t.sendPackets endpoint now ps =
        ({ t with outbox := t.outbox.expectAll now endpoint ps, link },
          List.range' t.outbox.nextTicket ps.length) ∧
      link.datagrams = t.link.datagrams ++ ps.map Packet.datagram := by
  have hfold (destination : SocketAddress) (acc : List Ticket) : ∃ link : Link,
      ps.foldl (fun (x : UdpTransport × List Ticket) p =>
          ((sendFirst endpoint destination now x.1 p).1,
            (sendFirst endpoint destination now x.1 p).2 :: x.2)) (t, acc) =
        ({ t with outbox := t.outbox.expectAll now endpoint ps, link },
          (List.range' t.outbox.nextTicket ps.length).reverse ++ acc) ∧
      link.datagrams = t.link.datagrams ++ ps.map Packet.datagram := by
    induction ps generalizing t acc with
    | nil => exact ⟨t.link, rfl, (List.append_nil _).symm⟩
    | cons p ps ih =>
      obtain ⟨link, hs, hl⟩ := sendFirst_eq endpoint destination now t p
      obtain ⟨link', hf, hl'⟩ := ih (sendFirst endpoint destination now t p).1
        (t.outbox.nextTicket :: acc)
      refine ⟨link', ?_, ?_⟩
      · rw [List.foldl_cons, hs]
        rw [hs] at hf
        rw [hf]
        simp only [Outbox.nextTicket_expect, Outbox.expectAll, List.foldl_cons, List.length_cons,
          List.range'_succ, List.reverse_cons, List.append_assoc, List.cons_append, List.nil_append]
      · rw [hl', hs, hl, List.append_assoc]
        rfl
  obtain ⟨link, hf, hl⟩ := hfold (t.endpoints.address endpoint) []
  refine ⟨link, ?_, hl⟩
  unfold sendPackets
  dsimp only
  rw [List.append_nil] at hf
  rw [hf, List.reverse_reverse]

theorem sendReliable_eq (t : UdpTransport) (sender : PeerId) (endpoint : EndpointId)
    (e : Envelope) (now : Nat) (ps : List Packet)
    (hps : ps = (e.packets sender true t.config.maxDatagram t.ids).1) :
    ∃ ids, ∃ link : Link, t.sendReliable sender endpoint e now =
        ({ t with outbox := t.outbox.expectAll now endpoint ps, ids, link },
          List.range' t.outbox.nextTicket ps.length) ∧
      link.datagrams = t.link.datagrams ++ ps.map Packet.datagram := by
  subst hps
  obtain ⟨link, hs, hl⟩ := (t.packetsFor sender e true).1.sendPackets_eq endpoint now
    (e.packets sender true t.config.maxDatagram t.ids).1
  exact ⟨_, link, hs, hl⟩

theorem announceDue_eq (t : UdpTransport) (i : Identity) (now : Nat) :
    ∃ schedule, ∃ link : Link, t.announceDue i now = { t with link, schedule } ∧
      ∀ d ∈ link.datagrams, d ∈ t.link.datagrams ∨ d = (Payload.announcement i).encode := by
  unfold announceDue
  cases t.schedule with
  | none => exact ⟨_, _, rfl, fun d hd => .inl hd⟩
  | some s =>
    dsimp only
    split
    · refine ⟨_, (t.link.offer (.broadcast (Payload.announcement i).encode)).1, rfl, fun d hd => ?_⟩
      rw [Link.datagrams_offer] at hd
      simpa [Parcel.datagram] using hd
    · exact ⟨_, _, rfl, fun d hd => .inl hd⟩

/-- Whenever resends are due, so is the discarding of old chunks. -/
theorem resendDue_eq (t : UdpTransport) (now : Nat) :
    t.resendDue now = t ∨ ∃ schedule, ∃ link : Link,
      t.resendDue now =
        { t with
          outbox := (t.outbox.due now t.config.resendInterval).1
          reassembler := t.reassembler.prune now t.config.multiPartTimeout
          schedule, link } ∧
      link.datagrams = t.link.datagrams ++
        (t.outbox.due now t.config.resendInterval).2.map Resend.datagram := by
  unfold resendDue
  cases t.schedule with
  | none => exact .inl rfl
  | some s =>
    dsimp only
    split
    · refine .inr ⟨_, t.link.offerAll ((t.outbox.due now t.config.resendInterval).2.map fun r =>
        .unicast (t.endpoints.address r.endpoint) r.datagram), rfl, ?_⟩
      rw [Link.datagrams_offerAll, List.map_map]
      rfl
    · exact .inl rfl

end UdpTransport

end PeerMesh

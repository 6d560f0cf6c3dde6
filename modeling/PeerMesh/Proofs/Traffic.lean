import PeerMesh.Proofs.Acknowledgements
import PeerMesh.Proofs.Shutdown

namespace PeerMesh

def Supply.IsFresh {α : Type} (s : Supply α) : Prop :=
  ∀ j < s.used, ∀ k < s.used, s.draw j = s.draw k → j = k

/-- The supply after more draws. -/
structure Supply.Extends {α : Type} (s s' : Supply α) : Prop where
  draw : s'.draw = s.draw
  used : s.used ≤ s'.used

theorem Supply.Extends.isFresh {α : Type} {s s' : Supply α} (h : s.Extends s')
    (hf : s'.IsFresh) : s.IsFresh := by
  intro j hj k hk he
  refine hf j (Nat.lt_of_lt_of_le hj h.used) k (Nat.lt_of_lt_of_le hk h.used) ?_
  rw [h.draw]
  exact he

def Datagram.packetId? : Bytes → Option PacketId
  | [] => none
  | kind :: bs => if kind = 1 then (PacketId.decode bs).toOption.map Prod.fst else none

theorem Datagram.packetId?_packet (p : Packet) : packetId? p.datagram = some p.id := by
  have hd : p.datagram = 1 :: (p.id.encode ++ (p.sender.encode ++ p.receiver.encode ++
      (if p.reliable then 1 else 0) :: p.message.encode)) := by
    simp [Packet.datagram, Payload.encode, Packet.encode]
  rw [hd, packetId?, if_pos rfl, PacketId.decode_encode]
  rfl

theorem Datagram.packetId?_acknowledgement (id : PacketId) :
    packetId? (Payload.acknowledgement id).encode = none :=
  rfl

theorem Datagram.packetId?_announcement (i : Identity) :
    packetId? (Payload.announcement i).encode = none :=
  rfl

theorem Envelope.id_packets {e : Envelope} {sender : PeerId} {reliable : Bool} {max : Nat}
    {ids : IdSource} {i : Nat} {p : Packet}
    (h : (e.packets sender reliable max ids).1[i]? = some p) :
    p.id = ids.packets.draw (ids.packets.used + i) ∧
      ids.packets.used + i < (e.packets sender reliable max ids).2.packets.used := by
  unfold packets at h ⊢
  dsimp only at h
  rw [List.getElem?_mapIdx, Option.map_eq_some_iff] at h
  obtain ⟨part, hpart, rfl⟩ := h
  obtain ⟨hi, -⟩ := List.getElem?_eq_some_iff.mp hpart
  exact ⟨rfl, Nat.add_lt_add_left hi _⟩

theorem Link.offered_offerWhileAccepted (l : Link) (ps : List Parcel) :
    ∃ count, (l.offerWhileAccepted ps).1.offered = l.offered ++ ps.take count := by
  induction ps generalizing l with
  | nil => exact ⟨0, (List.append_nil _).symm⟩
  | cons p ps ih =>
    have ho := l.offered_offer p
    unfold offerWhileAccepted
    obtain ⟨l', result, hp⟩ : ∃ l' result, l.offer p = (l', result) := ⟨_, _, rfl⟩
    rw [hp] at ho ⊢
    cases result with
    | error e => exact ⟨1, ho⟩
    | ok u =>
      obtain ⟨count, hcount⟩ := ih l'
      refine ⟨count + 1, hcount.trans ?_⟩
      rw [ho, List.append_assoc]
      rfl

namespace UdpTransport

/-- What a node has its datagram transport do. -/
inductive Act where
  | rest
  | receive (d : Directory) (datagram : Bytes) (source : SocketAddress)
  | sendReliable (sender : PeerId) (endpoint : EndpointId) (e : Envelope)
  | sendUnreliable (sender : PeerId) (endpoint : EndpointId) (e : Envelope)
  | broadcast (sender : PeerId) (e : Envelope)
  | announce (i : Identity)
  | announceDue (i : Identity)
  | resendDue
  | prune (maxAge : Nat)
  | forgetPeers (d : Directory)
  | shutDown (d : Directory)

def act (t : UdpTransport) (now : Nat) : Act → UdpTransport
  | .rest => t
  | .receive d datagram source => (t.receive d now datagram source).transport
  | .sendReliable sender endpoint e => (t.sendReliable sender endpoint e now).1
  | .sendUnreliable sender endpoint e => (t.sendUnreliable sender endpoint e).1
  | .broadcast sender e => (t.broadcast sender e).1
  | .announce i => t.announce i
  | .announceDue i => t.announceDue i now
  | .resendDue => t.resendDue now
  | .prune maxAge => t.prune now maxAge
  | .forgetPeers d => (t.forgetPeers d).1
  | .shutDown d => (t.shutDown d).1

/-- The act has nothing to do with where peers are reached. -/
def Act.IsSettled : Act → Prop
  | .receive _ _ _ | .forgetPeers _ | .shutDown _ => False
  | _ => True

theorem act_eq (t : UdpTransport) (now : Nat) {a : Act} (ha : a.IsSettled) :
    ∃ link ids outbox reassembler schedule,
      t.act now a = { t with link, ids, outbox, reassembler, schedule } := by
  cases a with
  | receive d datagram source => exact ha.elim
  | forgetPeers d => exact ha.elim
  | shutDown d => exact ha.elim
  | sendReliable sender endpoint e =>
    obtain ⟨ids, link, hs, -⟩ := t.sendReliable_eq sender endpoint e now _ rfl
    exact ⟨_, _, _, _, _, congrArg Prod.fst hs⟩
  | broadcast sender e =>
    rw [act, broadcast]
    split
    · exact ⟨_, _, _, _, _, rfl⟩
    · exact ⟨_, _, _, _, _, rfl⟩
  | announceDue i =>
    obtain ⟨schedule, link, hs, -⟩ := t.announceDue_eq i now
    exact ⟨_, _, _, _, _, hs⟩
  | resendDue =>
    obtain hs | ⟨schedule, link, hs, -⟩ := t.resendDue_eq now
    · exact ⟨_, _, _, _, _, hs⟩
    · exact ⟨_, _, _, _, _, hs⟩
  | _ => exact ⟨_, _, _, _, _, rfl⟩

theorem act_settled (t : UdpTransport) (now : Nat) {a : Act} (ha : a.IsSettled) :
    (t.act now a).contexts = t.contexts ∧ (t.act now a).endpoints = t.endpoints := by
  obtain ⟨_, _, _, _, _, h⟩ := t.act_eq now ha
  rw [h]
  exact ⟨rfl, rfl⟩

def resendAt? (t : UdpTransport) : Option Nat :=
  t.schedule.map Schedule.resend

/-- The transport has sent parcels; those that are packets have ids that it has drawn for them. -/
structure Sends (t : UdpTransport) (parcels : List Parcel) (t' : UdpTransport) : Prop where
  config : t'.config = t.config
  resendAt : t'.resendAt? = t.resendAt?
  offered : t'.link.offered = t.link.offered ++ parcels
  ids : t.ids.packets.Extends t'.ids.packets
  fresh : ∀ parcel ∈ parcels, ∀ id, Datagram.packetId? parcel.datagram = some id →
    ∃ k, t.ids.packets.draw k = id ∧ t.ids.packets.used ≤ k ∧ k < t'.ids.packets.used

theorem Sends.nothing {t t' : UdpTransport} (hc : t'.config = t.config)
    (hs : t'.resendAt? = t.resendAt?) (hl : t'.link = t.link) (hi : t'.ids = t.ids) :
    t.Sends [] t' := by
  refine ⟨hc, hs, ?_, ?_, nofun⟩
  · rw [hl, List.append_nil]
  · rw [hi]
    exact ⟨rfl, Nat.le_refl _⟩

theorem announce_sends (t : UdpTransport) (i : Identity) :
    t.Sends [.broadcast (Payload.announcement i).encode] (t.announce i) := by
  refine ⟨rfl, rfl, t.link.offered_offer _, ⟨rfl, Nat.le_refl _⟩, fun parcel hp id hid => ?_⟩
  rw [List.mem_singleton.mp hp] at hid
  cases (Datagram.packetId?_announcement i).symm.trans hid

theorem receive_sends (t : UdpTransport) (d : Directory) (now : Nat) (datagram : Bytes)
    (source : SocketAddress) :
    t.Sends (t.answers d datagram source) (t.receive d now datagram source).transport := by
  obtain ⟨_, _, _, link, hr⟩ := (t.receive_handles d now datagram source).transport
  have hl : (t.receive d now datagram source).transport.link = _ :=
    congrArg (fun r => r.transport.link) (t.receive_onLink t.link d now datagram source)
  rw [hr] at hl ⊢
  refine ⟨rfl, rfl, ?_, ⟨rfl, Nat.le_refl _⟩, fun parcel hp id hid => ?_⟩
  · dsimp only at hl ⊢
    rw [hl]
    exact t.link.offered_offerAll _
  · obtain ⟨p, -, rfl⟩ := List.mem_map.mp hp
    rw [datagram_acknowledgement] at hid
    cases (Datagram.packetId?_acknowledgement p.id).symm.trans hid

theorem link_sendPackets (t : UdpTransport) (endpoint : EndpointId) (now : Nat)
    (ps : List Packet) : (t.sendPackets endpoint now ps).1.link =
      t.link.offerAll (ps.map fun p => .unicast (t.endpoints.address endpoint) p.datagram) := by
  have hfold (destination : SocketAddress) (acc : List Ticket) :
      (ps.foldl (fun (x : UdpTransport × List Ticket) p =>
        ((sendFirst endpoint destination now x.1 p).1,
          (sendFirst endpoint destination now x.1 p).2 :: x.2)) (t, acc)).1.link =
      t.link.offerAll (ps.map fun p => .unicast destination p.datagram) := by
    induction ps generalizing t acc with
    | nil => rfl
    | cons p ps ih => exact ih (sendFirst endpoint destination now t p).1 _
  exact hfold (t.endpoints.address endpoint) []

/-- Of the packets of a message some are sent, in one way or another. -/
theorem Sends.packets {t t' : UdpTransport} (e : Envelope) (sender : PeerId) (reliable : Bool)
    {parcels : List Parcel} (hc : t'.config = t.config) (hs : t'.schedule = t.schedule)
    (hi : t'.ids = (e.packets sender reliable t.config.maxDatagram t.ids).2)
    (ho : t'.link.offered = t.link.offered ++ parcels)
    (hp : ∀ parcel ∈ parcels, ∃ p ∈ (e.packets sender reliable t.config.maxDatagram t.ids).1,
      parcel.datagram = p.datagram) : t.Sends parcels t' := by
  refine ⟨hc, by rw [resendAt?, hs, resendAt?], ho, ?_, fun parcel hparcel id hid => ?_⟩
  · rw [hi]
    exact ⟨rfl, Nat.le_add_right _ _⟩
  · obtain ⟨p, hmem, hd⟩ := hp parcel hparcel
    obtain ⟨i, hget⟩ := List.mem_iff_getElem?.mp hmem
    obtain ⟨hpid, hlt⟩ := Envelope.id_packets hget
    rw [hd, Datagram.packetId?_packet] at hid
    refine ⟨_, hpid.symm.trans (Option.some.inj hid), Nat.le_add_right _ _, ?_⟩
    rw [hi]
    exact hlt

theorem sendReliable_sends (t : UdpTransport) (sender : PeerId) (endpoint : EndpointId)
    (e : Envelope) (now : Nat) :
    ∃ parcels, t.Sends parcels (t.sendReliable sender endpoint e now).1 := by
  let ps := (e.packets sender true t.config.maxDatagram t.ids).1
  have hlink : (t.sendReliable sender endpoint e now).1.link = _ :=
    (t.packetsFor sender e true).1.link_sendPackets endpoint now ps
  obtain ⟨link, hs, -⟩ := (t.packetsFor sender e true).1.sendPackets_eq endpoint now ps
  have hfst : (t.sendReliable sender endpoint e now).1 = _ := congrArg Prod.fst hs
  rw [hfst] at hlink ⊢
  refine ⟨ps.map fun p => .unicast (t.endpoints.address endpoint) p.datagram,
    .packets e sender true rfl rfl rfl ?_ fun parcel hp => ?_⟩
  · exact (congrArg Link.offered hlink).trans (t.link.offered_offerAll _)
  · obtain ⟨p, hmem, rfl⟩ := List.mem_map.mp hp
    exact ⟨p, hmem, rfl⟩

theorem ids_sendReliable (t : UdpTransport) (sender : PeerId) (endpoint : EndpointId)
    (e : Envelope) (now : Nat) : (t.sendReliable sender endpoint e now).1.ids =
      (e.packets sender true t.config.maxDatagram t.ids).2 := by
  obtain ⟨link, hs, -⟩ := (t.packetsFor sender e true).1.sendPackets_eq endpoint now
    (e.packets sender true t.config.maxDatagram t.ids).1
  have hfst : (t.sendReliable sender endpoint e now).1 = _ := congrArg Prod.fst hs
  rw [hfst]
  rfl

theorem sendsWhileAccepted (t : UdpTransport) (sender : PeerId) (e : Envelope)
    {parcel : Packet → Parcel} (hp : ∀ p, (parcel p).datagram = p.datagram) :
    let x := t.packetsFor sender e false
    ∃ parcels, t.Sends parcels
      { x.1 with link := (x.1.link.offerWhileAccepted (x.2.map parcel)).1 } := by
  obtain ⟨count, ho⟩ := t.link.offered_offerWhileAccepted
    ((e.packets sender false t.config.maxDatagram t.ids).1.map parcel)
  refine ⟨_, .packets e sender false rfl rfl rfl ho fun q hq => ?_⟩
  obtain ⟨p, hmem, rfl⟩ := List.mem_map.mp (List.mem_of_mem_take hq)
  exact ⟨p, hmem, hp p⟩

theorem announceDue_sends (t : UdpTransport) (i : Identity) (now : Nat) :
    ∃ parcels, t.Sends parcels (t.announceDue i now) := by
  unfold announceDue
  cases hs : t.schedule with
  | none => exact ⟨[], .nothing rfl rfl rfl rfl⟩
  | some s =>
    dsimp only
    split
    · have h := UdpTransport.announce_sends
        { t with schedule := some { s with announcement := now + t.config.announceInterval } } i
      refine ⟨_, h.config, ?_, h.offered, h.ids, h.fresh⟩
      rw [h.resendAt, resendAt?, resendAt?, hs]
      rfl
    · exact ⟨[], .nothing rfl rfl rfl rfl⟩

def Act.IsFresh : Act → Prop
  | .resendDue | .shutDown _ => False
  | _ => True

theorem act_sends (t : UdpTransport) (now : Nat) {a : Act} (ha : a.IsFresh) :
    ∃ parcels, t.Sends parcels (t.act now a) := by
  cases a with
  | resendDue => exact ha.elim
  | shutDown d => exact ha.elim
  | receive d datagram source => exact ⟨_, t.receive_sends d now datagram source⟩
  | sendReliable sender endpoint e => exact t.sendReliable_sends sender endpoint e now
  | sendUnreliable sender endpoint e => exact t.sendsWhileAccepted sender e fun _ => rfl
  | broadcast sender e =>
    rw [act, broadcast]
    split
    · exact ⟨[], .nothing rfl rfl rfl rfl⟩
    · exact t.sendsWhileAccepted sender e fun _ => rfl
  | announce i => exact ⟨_, t.announce_sends i⟩
  | announceDue i => exact t.announceDue_sends i now
  | _ => exact ⟨[], .nothing rfl rfl rfl rfl⟩

theorem act_extends (t : UdpTransport) (now : Nat) (a : Act) :
    t.ids.packets.Extends (t.act now a).ids.packets := by
  by_cases ha : a.IsFresh
  · obtain ⟨parcels, hs⟩ := t.act_sends now ha
    exact hs.ids
  · cases a with
    | resendDue =>
      rw [act]
      obtain he | ⟨schedule, link, he, -⟩ := t.resendDue_eq now
      · rw [he]
        exact ⟨rfl, Nat.le_refl _⟩
      · rw [he]
        exact ⟨rfl, Nat.le_refl _⟩
    | shutDown d => exact ⟨rfl, Nat.le_refl _⟩
    | _ => exact absurd trivial ha

end UdpTransport

end PeerMesh

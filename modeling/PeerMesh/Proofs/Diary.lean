import PeerMesh.Proofs.Gate
import PeerMesh.Proofs.Hub
import PeerMesh.Proofs.Station
import PeerMesh.Proofs.Steps
import PeerMesh.Proofs.Whereabouts

namespace PeerMesh

/-- What has happened at a node of a hub. -/
structure Diary where
  acts : List Act := []
  heard : List Announcement := []
  events : List Outbox.Event := []
  handled : List Envelope := []

namespace Newcomer

/-- The settings of the node are such that it starts. -/
structure Starts (c : Newcomer) : Prop where
  check : c.config.check = .ok ()
  tcp : ∀ e ∈ c.tcp, e.1.check = .ok ()

def station (c : Newcomer) : Station :=
  .start c.config { port := c.address.port, fault := fun _ _ => none } c.ids
    { identity := c.declared } 0

def hello (c : Newcomer) : Parcel :=
  .broadcast (Payload.announcement c.declared).encode

/-- The calls of handlers that a message leads to at the node, given what it knows of others. -/
def callsFor (c : Newcomer) (who : PeerId → Option Identity) (e : Envelope) : List HandlerCall :=
  ((c.handlers.foldl Handlers.register .none).route e (some ⟨e.sender, who e.sender⟩)).getD []

end Newcomer

namespace Diary

def station (x : Diary) (c : Newcomer) : Station :=
  c.station.run x.acts

def receive (x : Diary) (self : PeerId) (bs : Bytes) (source : SocketAddress) (now : Nat) : Diary :=
  { x with
    acts := x.acts ++ [.receive bs source now]
    heard := x.heard ++ (Datagram.heard self (Datagram.payloads bs)).map (⟨source.ip, ·⟩)
    events := x.events ++ UdpTransport.acknowledgements (Datagram.payloads bs) }

/-- The messages that a datagram brings to an end. -/
def arrivals (x : Diary) (c : Newcomer) (bs : Bytes) (source : SocketAddress) (now : Nat) :
    List Envelope :=
  ((x.station c).transport.receive (x.station c).directory now bs source).arrivals

def handle (x : Diary) (e : Envelope) : Diary :=
  { x with handled := x.handled ++ [e] }

def post (x : Diary) (now : Nat) (endpoint : EndpointId) (s : ReliableSend) : Diary :=
  { x with events := x.events ++ UdpTransport.registers now endpoint s.packets }

theorem station_receive (x : Diary) (c : Newcomer) (self : PeerId) (bs : Bytes)
    (source : SocketAddress) (now : Nat) :
    (x.receive self bs source now).station c = (x.station c).step (.receive bs source now) :=
  c.station.run_concat x.acts (.receive bs source now)

theorem received_receive (x : Diary) (c : Newcomer) (self : PeerId) (bs : Bytes)
    (source : SocketAddress) (now : Nat) :
    ((x.receive self bs source now).station c).received =
      (x.station c).received ++ [(bs, x.arrivals c bs source now)] := by
  rw [station_receive]
  rfl

theorem identity_station (x : Diary) (c : Newcomer) :
    (x.station c).directory.identity = c.declared :=
  c.station.identity_run x.acts

end Diary

namespace Link

def IsOpen (l : Link) : Prop :=
  ∀ n p, l.fault n p = none

theorem IsOpen.offer {l : Link} (h : l.IsOpen) (p : Parcel) :
    (l.offer p).1.IsOpen ∧ (l.offer p).1.accepted = l.accepted ++ [p] := by
  unfold Link.offer
  rw [h]
  exact ⟨h, by simp [accepted]⟩

theorem IsOpen.offerAll {l : Link} (h : l.IsOpen) (ps : List Parcel) :
    (l.offerAll ps).IsOpen ∧ (l.offerAll ps).accepted = l.accepted ++ ps := by
  induction ps generalizing l with
  | nil => exact ⟨h, (List.append_nil _).symm⟩
  | cons p ps ih =>
    obtain ⟨ho, ha⟩ := h.offer p
    obtain ⟨hos, has⟩ := ih ho
    refine ⟨hos, has.trans ?_⟩
    rw [ha, List.append_assoc]
    rfl

end Link

namespace UdpTransport

/-- The transport has taken what its node's diary says, and sends `ps` now. -/
structure Matches (t : UdpTransport) (d : Directory) (c : Newcomer) (x : Diary)
    (ps : List Parcel) : Prop where
  isOpen : t.link.IsOpen
  accepted : t.link.accepted = ps
  config : t.config = c.config
  outbox : t.outbox = .after c.config.maxResends x.events
  follows : t.Follows d x.heard
  filter : t.filter = (x.station c).transport.filter
  reassembler : t.reassembler = (x.station c).transport.reassembler

namespace Matches

variable {t t' : UdpTransport} {d d' : Directory} {c : Newcomer} {x : Diary} {ps : List Parcel}

theorem offers (h : t.Matches d c x []) (ps : List Parcel) (schedule : Option Schedule) :
    { t with link := t.link.offerAll ps, schedule }.Matches d c x ps := by
  obtain ⟨ho, ha⟩ := h.isOpen.offerAll ps
  refine ⟨ho, ha.trans ?_, h.config, h.outbox, h.follows.congr rfl rfl rfl, h.filter,
    h.reassembler⟩
  rw [h.accepted, List.nil_append]

theorem sameRoutes (h : t.Matches d c x ps) (hr : d'.routes = d.routes) : t.Matches d' c x ps :=
  ⟨h.isOpen, h.accepted, h.config, h.outbox, h.follows.congr rfl rfl hr, h.filter, h.reassembler⟩

theorem handle (h : t.Matches d c x ps) (e : Envelope) : t.Matches d c (x.handle e) ps :=
  ⟨h.isOpen, h.accepted, h.config, h.outbox, h.follows, h.filter, h.reassembler⟩

theorem cleared (h : t.Matches d c x ps) : { t with link := t.link.cleared }.Matches d c x [] :=
  ⟨h.isOpen, rfl, h.config, h.outbox, h.follows.congr rfl rfl rfl, h.filter, h.reassembler⟩

theorem receive (h : t.Matches d c x []) (hd : d.identity = c.declared) (bs : Bytes)
    (source : SocketAddress) (now : Nat) :
    let r := t.receive d now bs source
    r.transport.Matches r.directory c (x.receive c.id bs source now) (t.answers d bs source) ∧
      r.arrivals = x.arrivals c bs source now := by
  intro r
  obtain ⟨⟨_, _, _, link, ht⟩, -, ha, -⟩ := t.receive_handles d now bs source
  have hs := (x.station c).transport.receive_handles (x.station c).directory now bs source
  obtain ⟨⟨_, _, _, _, hst⟩, -, hsa, -⟩ := hs
  have hlink : r.transport.link = t.link.offerAll (t.answers d bs source) :=
    congrArg (fun r => r.transport.link) (t.receive_onLink t.link d now bs source)
  have houtbox := (t.receive_advances d now bs source).outbox
  have hfollows := (t.receive_locates d now bs source).follows x.heard h.follows
  rw [x.identity_station] at hst hsa
  rw [hd] at ht ha hfollows
  obtain ⟨ho, hacc⟩ := h.isOpen.offerAll (t.answers d bs source)
  refine ⟨⟨hlink ▸ ho, ?_, ?_, ?_, hfollows, ?_, ?_⟩, ?_⟩
  · rw [hlink, hacc, h.accepted, List.nil_append]
  · exact (congrArg UdpTransport.config ht).trans h.config
  · rw [houtbox, h.outbox]
    exact List.foldl_append.symm
  · rw [Diary.station_receive]
    refine (congrArg UdpTransport.filter ht).trans
      (.trans ?_ (congrArg UdpTransport.filter hst).symm)
    dsimp only
    rw [h.filter]
  · rw [Diary.station_receive]
    refine (congrArg UdpTransport.reassembler ht).trans
      (.trans ?_ (congrArg UdpTransport.reassembler hst).symm)
    dsimp only
    rw [h.filter, h.reassembler]
  · refine ha.trans (.trans ?_ hsa.symm)
    rw [h.filter, h.reassembler]

theorem route (h : t.Matches d c x ps) {p : PeerId} {a : SocketAddress}
    (ha : Announcement.lastPlace x.heard p = some a) :
    ∃ e, t.contexts.get? p = some e ∧ t.endpoints.address e = a ∧
      d.routes.routesTo p = [.udp p e] := by
  have hp := h.follows.places p
  rw [ha, Option.map_eq_some_iff] at hp
  obtain ⟨e, he, hea⟩ := hp
  refine ⟨e, he, hea, ?_⟩
  rw [h.follows.routes, he]
  rfl

theorem acknowledgement (h : t.Matches d c x ps) {p : Packet} {a : SocketAddress}
    (ha : Announcement.lastPlace x.heard p.sender = some a) :
    t.acknowledgement p = .unicast a (Payload.acknowledgement p.id).encode := by
  obtain ⟨e, he, rfl, -⟩ := h.route ha
  rw [UdpTransport.acknowledgement, he]

theorem sendReliable (h : t.Matches d c x []) (sender : PeerId) (endpoint : EndpointId)
    (e : Envelope) (now : Nat) {s : ReliableSend}
    (hs : s = ⟨e, sender, t.config.maxDatagram, t.ids⟩) :
    let sent := t.sendReliable sender endpoint e now
    sent.2 = List.range' (Outbox.registrations x.events).length s.count ∧
      sent.1.Matches d c (x.post now endpoint s)
        (s.packets.map fun p => .unicast (t.endpoints.address endpoint) p.datagram) := by
  intro sent
  have hpackets : s.packets = (e.packets sender true t.config.maxDatagram t.ids).1 := by
    rw [hs]
    rfl
  obtain ⟨ids, link, he, -⟩ := t.sendReliable_eq sender endpoint e now s.packets hpackets
  have hlink : sent.1.link = t.link.offerAll
      (s.packets.map fun p => .unicast (t.endpoints.address endpoint) p.datagram) := by
    rw [hpackets]
    exact (t.packetsFor sender e true).1.link_sendPackets endpoint now _
  have houtbox : sent.1.outbox = _ := (t.sendReliable_works sender endpoint e now).outbox
  have hnext : t.outbox.nextTicket = (Outbox.registrations x.events).length := by
    rw [h.outbox, (Outbox.reflects_after _ x.events).next, Outbox.Book.length_after]
  obtain ⟨ho, hacc⟩ := h.isOpen.offerAll
    (s.packets.map fun p => .unicast (t.endpoints.address endpoint) p.datagram)
  have hfst : sent.1 = _ := congrArg Prod.fst he
  refine ⟨?_, ?_, ?_, ?_, ?_, ?_, ?_, ?_⟩
  · refine (congrArg Prod.snd he).trans ?_
    rw [hnext, s.length_packets]
  · rw [hlink]
    exact ho
  · rw [hlink, hacc, h.accepted, List.nil_append]
  · rw [hfst]
    exact h.config
  · rw [houtbox, h.outbox, ← hpackets]
    exact List.foldl_append.symm
  · rw [hfst]
    exact h.follows.congr rfl rfl rfl
  · rw [hfst]
    exact h.filter
  · rw [hfst]
    exact h.reassembler

end Matches

end UdpTransport

theorem Outbox.due_of_idle {o : Outbox} (h : ∀ id, o.pending.get? id = none) (now interval : Nat) :
    o.due now interval = (o, []) := by
  obtain ⟨maxResends, pending, fates, nextTicket⟩ := o
  obtain rfl : pending = .empty := KeyedList.eq_empty h
  rfl

theorem Reassembler.prune_of_idle {r : Reassembler} (h : ∀ id, r.inProgress.get? id = none)
    (now maxAge : Nat) : r.prune now maxAge = r := by
  obtain ⟨inProgress, completed⟩ := r
  obtain rfl : inProgress = .empty := KeyedList.eq_empty h
  rfl

theorem PeerTable.released_updateAll {τ : Type} {t : PeerTable τ} (h : ∀ p, t.waiting p = [])
    (is : List Identity) : (t.updateAll is).2 = [] := by
  induction is generalizing t with
  | nil => rfl
  | cons i is ih =>
    have hnext : ∀ p, (t.update i).table.waiting p = [] := by
      intro p
      rw [waiting_update, h, ite_self]
    rw [updateAll, released_update, h]
    exact ih hnext

namespace Resident

/-- The resident is the newcomer after all that its diary says, and sends `ps` now. It knows of
others what they announced last, and none of their messages waits for an announcement. -/
structure Matches (r : Resident) (who : PeerId → Option Identity) (c : Newcomer) (x : Diary)
    (ps : List Parcel) : Prop where
  address : r.fabricAddress = some c.address
  identity : r.node.directory.identity = c.declared
  handlers : r.node.handlers = c.handlers.foldl Handlers.register .none
  known : ∀ p, r.node.directory.peers.identity? p =
    PeerTable.latest (x.heard.map Announcement.identity) p
  idle : ∀ p, r.node.directory.peers.waiting p = []
  calls : r.calls = (x.handled.flatMap (c.callsFor who)).reverse
  transport : ∃ t, r.node.udp = some t ∧ t.Matches r.node.directory c x ps

namespace Matches

variable {r : Resident} {who : PeerId → Option Identity} {c : Newcomer} {x x' : Diary}
  {ps ps' : List Parcel} {t t' : UdpTransport} {n : Node}

theorem onTransport (h : r.Matches who c x ps) (hd : n.directory = r.node.directory)
    (hs : n.handlers = r.node.handlers) (hu : n.udp = some t')
    (ht : t'.Matches r.node.directory c x' ps') (hheard : x'.heard = x.heard)
    (hhandled : x'.handled = x.handled) : { r with node := n }.Matches who c x' ps' := by
  refine ⟨h.address, ?_, hs.trans h.handlers, ?_, ?_, ?_, t', hu, hd ▸ ht⟩
  · rw [hd]
    exact h.identity
  · rw [hd, hheard]
    exact h.known
  · rw [hd]
    exact h.idle
  · rw [hhandled]
    exact h.calls

theorem cleared (h : r.Matches who c x ps) (hu : r.node.udp = some t) :
    { r with node := { r.node with udp := some { t with link := t.link.cleared } } }.Matches who c
      x [] := by
  obtain ⟨t', hu', ht⟩ := h.transport
  cases hu.symm.trans hu'
  exact h.onTransport rfl rfl rfl ht.cleared rfl rfl

theorem announce (h : r.Matches who c x []) :
    { r with node := r.node.announce }.Matches who c x [c.hello] := by
  obtain ⟨t, hu, ht⟩ := h.transport
  have hudp : r.node.announce.udp = some (t.announce r.node.directory.identity) := by
    rw [Node.announce, hu]
    rfl
  refine h.onTransport rfl rfl hudp ?_ rfl rfl
  rw [h.identity]
  exact ht.offers [c.hello] t.schedule

theorem announceDue (h : r.Matches who c x []) (now : Nat) :
    ∃ ps, { r with node := r.node.announceDue now }.Matches who c x ps ∧
      (∀ p ∈ ps, p = c.hello) ∧
      ∀ t s, r.node.udp = some t → t.schedule = some s → s.announcement ≤ now → ps = [c.hello] := by
  obtain ⟨t, hu, ht⟩ := h.transport
  have hudp : (r.node.announceDue now).udp =
      some (t.announceDue r.node.directory.identity now) := by
    rw [Node.announceDue, Node.onUdp, hu]
    rfl
  have hsilent (ht' : t.announceDue r.node.directory.identity now = t) :
      { r with node := r.node.announceDue now }.Matches who c x [] :=
    h.onTransport rfl rfl (ht' ▸ hudp) ht rfl rfl
  cases hs : t.schedule with
  | none =>
    refine ⟨[], hsilent ?_, nofun, fun t' s hu' hs' => ?_⟩
    · rw [UdpTransport.announceDue, hs]
    · cases hu.symm.trans hu'
      cases hs.symm.trans hs'
  | some s =>
    by_cases hdue : s.announcement ≤ now
    · refine ⟨[c.hello], h.onTransport rfl rfl hudp ?_ rfl rfl, fun p => List.mem_singleton.mp,
        fun _ _ _ _ _ => rfl⟩
      rw [h.identity, UdpTransport.announceDue, hs]
      dsimp only
      rw [if_pos hdue]
      exact ht.offers [c.hello] _
    · refine ⟨[], hsilent ?_, nofun, fun t' s' hu' hs' hdue' => ?_⟩
      · rw [UdpTransport.announceDue, hs]
        exact if_neg hdue
      · cases hu.symm.trans hu'
        cases hs.symm.trans hs'
        exact absurd hdue' hdue

theorem resendDue (h : r.Matches who c x [])
    (ho : ∀ id, (Outbox.after c.config.maxResends x.events).pending.get? id = none)
    (hr : ∀ id, (x.station c).transport.reassembler.inProgress.get? id = none) (now : Nat) :
    { r with node := r.node.resendDue now }.Matches who c x [] := by
  obtain ⟨t, hu, ht⟩ := h.transport
  have hudp : (r.node.resendDue now).udp = some (t.resendDue now) := by
    rw [Node.resendDue, Node.onUdp, hu]
    rfl
  rw [← ht.outbox] at ho
  rw [← ht.reassembler] at hr
  refine h.onTransport rfl rfl hudp ?_ rfl rfl
  unfold UdpTransport.resendDue UdpTransport.resend UdpTransport.prune
  cases t.schedule with
  | none => exact ht
  | some s =>
    dsimp only
    split
    · rw [Outbox.due_of_idle ho, Reassembler.prune_of_idle hr]
      exact ⟨ht.isOpen, ht.accepted, ht.config, ht.outbox, ht.follows.congr rfl rfl rfl,
        ht.filter, ht.reassembler⟩
    · exact ht

theorem expire (h : r.Matches who c x []) (now : Nat) :
    { r with node := (r.node.expireHeld now).1 }.Matches who c x [] := by
  obtain ⟨t, hu, ht⟩ := h.transport
  refine ⟨h.address, h.identity, h.handlers, fun p => ?_, fun p => ?_, h.calls, t, hu,
    ht.sameRoutes rfl⟩
  · exact (PeerTable.identity?_expire _ now p).trans (h.known p)
  · refine (PeerTable.waiting_expire _ now p).trans ?_
    rw [h.idle]
    rfl

/-- What is known of others makes no difference before anything was handled. -/
theorem congrWho (h : r.Matches who c x ps) (hn : x.handled = [])
    (who' : PeerId → Option Identity) : r.Matches who' c x ps := by
  refine ⟨h.address, h.identity, h.handlers, h.known, h.idle, ?_, h.transport⟩
  rw [h.calls, hn]
  rfl

theorem retry (h : r.Matches who c x []) (isTaken : String → Bool) (now transport : Nat) :
    (r.retry isTaken now transport).Matches who c x [] := by
  obtain ⟨t, hu, ht⟩ := h.transport
  exact h.onTransport rfl rfl hu ht rfl rfl

theorem receive (h : r.Matches who c x []) (hu : r.node.udp = some t) (bs : Bytes)
    (source : SocketAddress) (now : Nat) :
    let out := r.node.receiveDatagram now bs source
    { r with node := out.1 }.Matches who c (x.receive c.id bs source now)
        (t.answers r.node.directory bs source) ∧
      out.2 = ⟨x.arrivals c bs source now, []⟩ := by
  intro out
  obtain ⟨t', hu', ht⟩ := h.transport
  cases hu.symm.trans hu'
  have hl := r.node.receiveDatagram_learns now bs source
  have htold : r.node.told (.datagram bs source) =
      Datagram.heard c.id (Datagram.payloads bs) := by
    have hid : r.node.directory.identity.id = c.id := by rw [h.identity]; rfl
    rw [Node.told, hu, ← hid]
    rfl
  have hout : out = ({ r.node with
      udp := some (t.receive r.node.directory now bs source).transport
      directory := (t.receive r.node.directory now bs source).directory },
      ⟨(t.receive r.node.directory now bs source).arrivals,
        (t.receive r.node.directory now bs source).released⟩) := by
    unfold out Node.receiveDatagram
    rw [hu]
  rw [htold] at hl
  obtain ⟨hm, ha⟩ := ht.receive h.identity bs source now
  have hreleased : out.2.released = [] := by
    have hp := PeerTable.released_updateAll h.idle (Datagram.heard c.id (Datagram.payloads bs))
    rw [hl.peers] at hp
    exact hp
  refine ⟨⟨h.address, ?_, ?_, fun p => ?_, fun p => ?_, h.calls, ?_⟩, ?_⟩
  · rw [hout]
    exact ((t.receive_handles r.node.directory now bs source).identity).trans h.identity
  · rw [hout]
    exact h.handlers
  · have hnew : ((Datagram.heard c.id (Datagram.payloads bs)).map
        (⟨source.ip, ·⟩ : Identity → Announcement)).map Announcement.identity =
        Datagram.heard c.id (Datagram.payloads bs) := by
      rw [List.map_map]
      exact List.map_id _
    rw [hl.identity?, h.known, Diary.receive, List.map_append, PeerTable.latest_append, hnew]
  · rw [hl.waiting, h.idle, ite_self]
  · rw [hout]
    exact ⟨_, rfl, hm⟩
  · rw [hout] at hreleased ⊢
    exact congrArg₂ Reaction.mk ha hreleased

theorem dispatch (h : r.Matches who c x []) {e : Envelope} {i : Identity} (hs : e.sender ≠ c.id)
    (hn : ¬ e.sender.isNil) (hr : e.receiver = c.id) (hw : who e.sender = some i)
    (hi : PeerTable.latest (x.heard.map Announcement.identity) e.sender = some i) (now : Nat) :
    let out := r.node.dispatch now e
    ({ r with node := out.1 }.record out.2.toList).Matches who c (x.handle e) [] := by
  intro out
  obtain ⟨t, hu, ht⟩ := h.transport
  have hid : r.node.id = c.id := by
    rw [Node.id, h.identity]
    rfl
  have hadmits : r.node.Admits e := by
    rw [Node.Admits, hid]
    exact ⟨hs, .inl hr⟩
  have hd := r.node.dispatch_dispatches now e
  have hknown : r.node.directory.peers.identity? e.sender = some i := (h.known e.sender).trans hi
  have hdecision : r.node.decision (r.node.directory.peers.identity? e.sender) e =
      some (r.node.handlers.route e (some ⟨e.sender, some i⟩)) := by
    rw [hknown, Node.decision_some hadmits hn]
  have hfst : out.1 = _ := r.node.dispatch_fst now e
  have hsnd : out.2 = some ⟨r.node.nextTicket,
      r.node.handlers.route e (some ⟨e.sender, some i⟩)⟩ :=
    hd.outcome.trans (congrArg (Option.map _) hdecision)
  have hwaiting := hd.waiting
  rw [hdecision] at hwaiting
  refine ⟨h.address, ?_, ?_, fun p => (hd.identity p).trans (h.known p), fun p => ?_, ?_, t, ?_, ?_⟩
  · refine (congrArg (·.directory.identity) hfst).trans h.identity
  · refine (congrArg Node.handlers hfst).trans h.handlers
  · refine (hwaiting p).trans ?_
    rw [h.idle, if_neg fun hp => Option.some_ne_none _ hp.1]
    rfl
  · rw [Resident.record, hsnd, h.handlers, h.calls, Diary.handle, List.flatMap_append,
      List.reverse_append, ← hw]
    simp [Newcomer.callsFor]
  · exact (congrArg Node.udp hfst).trans hu
  · exact (ht.sameRoutes (congrArg (·.directory.routes) hfst)).handle e

theorem send (h : r.Matches who c x []) (hu : r.node.udp = some t) {p : PeerId}
    {a : SocketAddress} (ha : Announcement.lastPlace x.heard p = some a) (body : Body) (now : Nat)
    {s : ReliableSend}
    (hs : s = ⟨⟨r.node.id, p, body⟩, r.node.id, t.config.maxDatagram, t.ids⟩) :
    let out := r.node.send now p body true
    out.2 = .awaiting (List.range' (Outbox.registrations x.events).length s.count) ∧
      ∃ endpoint, { r with node := out.1 }.Matches who c (x.post now endpoint s)
        (s.packets.map fun q : Packet => .unicast a q.datagram) := by
  intro out
  obtain ⟨t', hu', ht⟩ := h.transport
  cases hu.symm.trans hu'
  obtain ⟨endpoint, -, hea, hroutes⟩ := ht.route ha
  obtain ⟨htickets, hm⟩ := ht.sendReliable r.node.id endpoint ⟨r.node.id, p, body⟩ now hs
  have hbest : r.node.directory.routes.best p = some (.udp p endpoint) := by
    rw [RoutingTable.best, hroutes]
    rfl
  have hout : out = ({ r.node with
      udp := some (t.sendReliable r.node.id endpoint ⟨r.node.id, p, body⟩ now).1 },
      .awaiting (t.sendReliable r.node.id endpoint ⟨r.node.id, p, body⟩ now).2) := by
    unfold out Node.send
    rw [RoutingTable.delivery, hbest]
    dsimp only
    rw [Node.sendBy, hu]
    rfl
  rw [hea] at hm
  rw [hout, htickets]
  exact ⟨rfl, endpoint, h.onTransport rfl rfl rfl hm rfl rfl⟩

end Matches

end Resident

theorem Node.startAllTcp_of_check (n : Node) (now : Nat) {configs : List TcpConfig}
    (h : ∀ c ∈ configs, c.check = .ok ()) :
    ∃ tcp, n.startAllTcp now configs = .ok { n with tcp } := by
  induction configs generalizing n with
  | nil => exact ⟨n.tcp, rfl⟩
  | cons c configs ih =>
    obtain ⟨hc, hcs⟩ := List.forall_mem_cons.mp h
    rw [startAllTcp, startTcp, hc]
    obtain ⟨tcp, ht⟩ := ih { n with tcp := n.tcp ++ [{ config := c, index := n.tcp.length }] } hcs
    exact ⟨tcp, ht⟩

theorem World.start_newcomer (w : World) {c : Newcomer} (hc : c.Starts)
    (who : PeerId → Option Identity) :
    ∃ r : Resident, r.Matches who c {} [] ∧ (w.start c.name c.arrival).1 =
      { w with
        fabric.attached := w.fabric.attached.put c.address w.residents.size
        residents := w.residents.put w.residents.size r
        names := w.names.put c.name w.residents.size } := by
  have htcp : ∀ config ∈ c.tcp.map Prod.fst, config.check = .ok () := by
    intro config hm
    obtain ⟨e, he, rfl⟩ := List.mem_map.mp hm
    exact hc.tcp e he
  let link : Link := { port := c.address.port, fault := fun _ _ => none }
  let n : Node :=
    { directory := { identity := c.declared }
      discoveryTimeout := c.inbound.discoveryTimeout
      udp := some (.start c.config link c.ids w.now) }
  obtain ⟨tcp, htcp⟩ := n.startAllTcp_of_check w.now htcp
  have hstart : Node.start ⟨c.identity, some ⟨c.config, .ok link, c.ids⟩, c.tcp.map Prod.fst,
      c.inbound⟩ w.now = .ok { n with tcp } := by
    unfold Node.start Node.startUdp
    dsimp only
    rw [hc.check]
    exact htcp
  refine ⟨⟨{ n with
      tcp
      directory.peers := (PeerTable.subscribe .empty).1
      handlers := c.handlers.foldl Handlers.register .none },
    some c.address, c.tcp.map Prod.snd, 0, [], {}⟩, ?_, ?_⟩
  · exact ⟨rfl, rfl, rfl, fun p => rfl, fun p => rfl, rfl, _, rfl, fun _ _ => rfl, rfl, rfl, rfl,
      UdpTransport.start_follows _ _ _ _ rfl, rfl, rfl⟩
  · unfold World.start Newcomer.arrival
    dsimp only [Option.map]
    rw [hstart]
    rfl

end PeerMesh

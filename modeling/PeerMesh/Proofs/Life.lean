import PeerMesh.Node
import PeerMesh.Proofs.Announcements
import PeerMesh.Proofs.Connections
import PeerMesh.Proofs.Fates
import PeerMesh.Proofs.Sends

namespace PeerMesh

namespace UdpTransport

/-- The events of the outbox while the transport works; a stopped transport stays stopped. -/
structure Advances (t : UdpTransport) (events : List Outbox.Event) (t' : UdpTransport) : Prop where
  stopped : t.isStopped → t'.isStopped
  outbox : t'.outbox = events.foldl Outbox.step t.outbox

structure Works (t : UdpTransport) (events : List Outbox.Event) (t' : UdpTransport) : Prop
    extends Advances t events t' where
  contexts : t'.contexts = t.contexts

theorem Works.refl (t : UdpTransport) : t.Works [] t :=
  ⟨⟨id, rfl⟩, rfl⟩

theorem announce_works (t : UdpTransport) (i : Identity) : t.Works [] (t.announce i) :=
  ⟨⟨id, rfl⟩, rfl⟩

theorem prune_works (t : UdpTransport) (now maxAge : Nat) : t.Works [] (t.prune now maxAge) :=
  ⟨⟨id, rfl⟩, rfl⟩

theorem announceDue_works (t : UdpTransport) (i : Identity) (now : Nat) :
    t.Works [] (t.announceDue i now) := by
  unfold announceDue
  cases hs : t.schedule with
  | none => exact .refl t
  | some s =>
    dsimp only
    split
    · refine ⟨⟨fun h => ?_, rfl⟩, rfl⟩
      rw [isStopped, hs] at h
      cases h
    · exact .refl t

def sweeps (t : UdpTransport) (now : Nat) : List Outbox.Event :=
  match t.schedule with
  | none => []
  | some s => if s.resend ≤ now then [.sweep now t.config.resendInterval] else []

theorem resendDue_works (t : UdpTransport) (now : Nat) :
    t.Works (t.sweeps now) (t.resendDue now) := by
  unfold resendDue sweeps
  cases hs : t.schedule with
  | none => exact .refl t
  | some s =>
    dsimp only
    split
    · refine ⟨⟨fun h => ?_, rfl⟩, rfl⟩
      rw [isStopped, hs] at h
      cases h
    · exact .refl t

def registers (now : Nat) (endpoint : EndpointId) (ps : List Packet) : List Outbox.Event :=
  ps.map fun p => .expect ⟨now, p.id, endpoint, p.datagram⟩

theorem sendReliable_works (t : UdpTransport) (sender : PeerId) (endpoint : EndpointId)
    (e : Envelope) (now : Nat) :
    t.Works (registers now endpoint (e.packets sender true t.config.maxDatagram t.ids).1)
      (t.sendReliable sender endpoint e now).1 := by
  obtain ⟨ids, link, hs, -⟩ := t.sendReliable_eq sender endpoint e now _ rfl
  rw [hs]
  refine ⟨⟨id, ?_⟩, rfl⟩
  rw [registers, List.foldl_map]
  rfl

theorem sendUnreliable_works (t : UdpTransport) (sender : PeerId) (endpoint : EndpointId)
    (e : Envelope) : t.Works [] (t.sendUnreliable sender endpoint e).1 :=
  ⟨⟨id, rfl⟩, rfl⟩

theorem broadcast_works (t : UdpTransport) (sender : PeerId) (e : Envelope) :
    t.Works [] (t.broadcast sender e).1 := by
  unfold broadcast
  split
  · exact .refl t
  · exact ⟨⟨id, rfl⟩, rfl⟩

def acknowledgements (ps : List Payload) : List Outbox.Event :=
  (ps.filterMap Sorted.acknowledgement?).map .acknowledge

theorem receive_advances (t : UdpTransport) (d : Directory) (now : Nat) (datagram : Bytes)
    (source : SocketAddress) : t.Advances (acknowledgements (Datagram.payloads datagram))
      (t.receive d now datagram source).transport := by
  obtain ⟨_, _, _, _, hr⟩ := (t.receive_handles d now datagram source).transport
  rw [hr]
  refine ⟨id, ?_⟩
  rw [acknowledgements, List.foldl_map]
  rfl

end UdpTransport

namespace Node

/-- What a node is given to do. -/
inductive Event where
  | datagram (bs : Bytes) (source : SocketAddress)
  | opened (transport : Nat) (a : SocketAddress)
  | bytes (c : ConnectionId) (bs : Bytes) (ended : Bool)
  | handshakesDue
  | bound (transport : Nat)
  | pause (transport : Nat)
  | retryDue (transport : Nat)
  | send (receiver : PeerId) (body : Body) (reliable : Bool)
  | sendBy (route : Route) (e : Envelope) (reliable : Bool)
  | broadcast (body : Body)
  | announce
  | updateIdentity (change : Identity → Identity)
  | announceDue
  | resendDue
  | prune (maxAge : Nat)
  | forgetPeers
  | stopUdp
  | stopTcp (transport : Nat)
  | shutDown
  | register (h : Handler)
  | deregister (kind : MessageKind)
  | dispatch (e : Envelope)
  | learn (i : Identity)
  | expireHeld

/-- What comes of an event. -/
structure Response where
  outcomes : List Outcome := []
  status : Option SendStatus := none

def onTcp (n : Node) (transport : Nat) (f : TcpTransport → TcpTransport) : Node :=
  { n with tcp := n.tcp.modify transport f }

def forgetPeers (n : Node) : Node :=
  match n.udp with
  | none => n
  | some t =>
    let (t, directory) := t.forgetPeers n.directory
    { n with udp := some t, directory }

def stopUdp (n : Node) : Node :=
  match n.udp with
  | none => n
  | some t =>
    let (t, directory) := t.shutDown n.directory
    { n with udp := some t, directory }

def stopTcp (n : Node) (now transport : Nat) : Node :=
  match n.tcp[transport]? with
  | none => n
  | some t =>
    let (t, directory) := t.shutDown n.directory now
    { n with tcp := n.tcp.set transport t, directory }

def resumeAll (n : Node) (released : List Held) : Response :=
  { outcomes := released.map n.resume }

def step (n : Node) (now : Nat) : Event → Node × Response
  | .datagram bs source =>
    let (n, reaction) := n.receiveDatagram now bs source
    (n, n.resumeAll reaction.released)
  | .opened transport a => (n.connectionOpened now transport a, {})
  | .bytes c bs ended =>
    let (n, reaction) := n.receiveBytes now c bs ended
    (n, n.resumeAll reaction.released)
  | .handshakesDue => (n.handshakesDue now, {})
  | .bound transport => (n.onTcp transport TcpTransport.bound, {})
  | .pause transport => (n.onTcp transport (·.pause now), {})
  | .retryDue transport => (n.onTcp transport (·.retryDue now), {})
  | .send receiver body reliable =>
    let (n, status) := n.send now receiver body reliable
    (n, { status })
  | .sendBy route e reliable =>
    let (n, status) := n.sendBy now reliable e route
    (n, { status })
  | .broadcast body =>
    let (n, result) := n.broadcast body
    (n, { status := some (.finished result) })
  | .announce => (n.announce, {})
  | .updateIdentity change => ((n.updateIdentity change).1, {})
  | .announceDue => (n.announceDue now, {})
  | .resendDue => (n.resendDue now, {})
  | .prune maxAge => (n.onUdp (·.prune now maxAge), {})
  | .forgetPeers => (n.forgetPeers, {})
  | .stopUdp => (n.stopUdp, {})
  | .stopTcp transport => (n.stopTcp now transport, {})
  | .shutDown => (n.shutDown now, {})
  | .register h => ({ n with handlers := n.handlers.register h }, {})
  | .deregister kind => ({ n with handlers := (n.handlers.deregister kind).1 }, {})
  | .dispatch e =>
    let (n, outcome) := n.dispatch now e
    (n, { outcomes := outcome.toList })
  | .learn i =>
    let (n, released) := n.learn i
    (n, n.resumeAll released)
  | .expireHeld =>
    let (n, outcomes) := n.expireHeld now
    (n, { outcomes })

/-- The node after events, each with its time. -/
def after (n : Node) (events : List (Nat × Event)) : Node :=
  events.foldl (fun n e => (n.step e.1 e.2).1) n

theorem after_concat (n : Node) (events : List (Nat × Event)) (e : Nat × Event) :
    n.after (events ++ [e]) = ((n.after events).step e.1 e.2).1 := by
  rw [after, List.foldl_append]
  rfl

def told (n : Node) : Event → List Identity
  | .datagram bs _ =>
    match n.udp with
    | none => []
    | some _ => Datagram.heard n.id (Datagram.payloads bs)
  | .bytes c bs ended =>
    match n.tcp[c.transport]? with
    | none => []
    | some t => t.told n.id c.number bs ended
  | .learn i => [i]
  | _ => []

def reliable? (n : Node) : Event → Option (EndpointId × Envelope)
  | .send receiver body true =>
    match n.directory.routes.delivery n.id receiver body true with
    | .via (.udp _ endpoint) e => some (endpoint, e)
    | _ => none
  | .sendBy (.udp _ endpoint) e true => some (endpoint, e)
  | _ => none

def reliablePackets (n : Node) (e : Event) : List Packet :=
  match n.udp, n.reliable? e with
  | some t, some (_, message) => (message.packets n.id true t.config.maxDatagram t.ids).1
  | _, _ => []

/-- What an event is for the outbox of the datagram transport. -/
def outboxEvents (n : Node) (now : Nat) (e : Event) : List Outbox.Event :=
  match e with
  | .datagram bs _ => UdpTransport.acknowledgements (Datagram.payloads bs)
  | .resendDue =>
    match n.udp with
    | none => []
    | some t => t.sweeps now
  | .stopUdp => [.failAll]
  | .shutDown => [.failAll]
  | e =>
    match n.reliable? e with
    | none => []
    | some (endpoint, _) => UdpTransport.registers now endpoint (n.reliablePackets e)

def sendEvents (n : Node) (now : Nat) (e : Event) : List Outbox.Event :=
  match n.reliable? e with
  | none => []
  | some (endpoint, _) => UdpTransport.registers now endpoint (n.reliablePackets e)

def contexts (n : Node) : KeyedList PeerId EndpointId :=
  match n.udp with
  | none => .empty
  | some t => t.contexts

inductive Advances (n : Node) (events : List Outbox.Event) (n' : Node) : Prop
  | absent (hu : n.udp = none) (hu' : n'.udp = none)
  | present {t t' : UdpTransport} (hu : n.udp = some t) (hu' : n'.udp = some t')
    (ht : t.Advances events t')

theorem Advances.same {n n' : Node} (h : n'.udp = n.udp) : n.Advances [] n' := by
  cases hu : n.udp with
  | none => exact .absent hu (h.trans hu)
  | some t => exact .present hu (h.trans hu) ⟨fun h => h, rfl⟩

theorem Advances.trans {n n' n'' : Node} {events more : List Outbox.Event}
    (h : n.Advances events n') (h' : n'.Advances more n'') : n.Advances (events ++ more) n'' := by
  cases h with
  | absent hu hu' =>
    cases h' with
    | absent _ hu'' => exact .absent hu hu''
    | present ht => cases hu'.symm.trans ht
  | present hu hu' ht =>
    cases h' with
    | absent hn => cases hu'.symm.trans hn
    | present hs hu'' ht' =>
      cases hu'.symm.trans hs
      refine .present hu hu'' ⟨fun h => ht'.stopped (ht.stopped h), ?_⟩
      rw [ht'.outbox, ht.outbox, List.foldl_append]

/-- What every event keeps. -/
structure Keeps (n : Node) (n' : Node) : Prop where
  id : n'.id = n.id
  timeout : n'.discoveryTimeout = n.discoveryTimeout
  lists : n.directory.Lists n.contexts → n'.directory.Lists n'.contexts

/-- The identities `is` have been told, which has released `hs`. -/
structure Learns (n : Node) (is : List Identity) (n' : Node) (hs : List Held) : Prop
    extends Keeps n n' where
  ticket : n'.nextTicket = n.nextTicket
  peers : n.directory.peers.updateAll is = (n'.directory.peers, hs)

/-- The datagram transport has worked, and all else may have, but for the peers and the routes. -/
structure Quiet (n : Node) (events : List Outbox.Event) (n' : Node) : Prop where
  id : n'.id = n.id
  timeout : n'.discoveryTimeout = n.discoveryTimeout
  ticket : n'.nextTicket = n.nextTicket
  peers : n'.directory.peers = n.directory.peers
  routes : n'.directory.routes = n.directory.routes
  contexts : n'.contexts = n.contexts
  advances : n.Advances events n'

namespace Event

def Tells : Event → Prop
  | dispatch _ | expireHeld => False
  | _ => True

def Forgets : Event → Prop
  | forgetPeers | stopUdp | shutDown => True
  | _ => False

theorem tells_or (e : Event) : e.Tells ∨ (∃ m, e = dispatch m) ∨ e = expireHeld := by
  cases e with
  | dispatch m => exact .inr (.inl ⟨m, rfl⟩)
  | expireHeld => exact .inr (.inr rfl)
  | _ => exact .inl trivial

def IsQuiet : Event → Prop
  | datagram _ _ | bytes _ _ _ | handshakesDue | forgetPeers | stopUdp | stopTcp _ | shutDown
  | dispatch _ | learn _ | expireHeld => False
  | _ => True

end Event

theorem Quiet.learns {n n' : Node} {events : List Outbox.Event} (h : n.Quiet events n') :
    n.Learns [] n' [] := by
  refine ⟨⟨h.id, h.timeout, fun hl => ?_⟩, h.ticket, congrArg (Prod.mk · []) h.peers.symm⟩
  rw [h.contexts]
  exact ⟨fun q => h.routes ▸ hl.nodup q, fun q p e => h.routes ▸ hl.udp q p e⟩

theorem Quiet.apart (n : Node) (tcp : List TcpTransport) (handlers : Handlers) :
    n.Quiet [] { n with tcp, handlers } := by
  refine ⟨rfl, rfl, rfl, rfl, rfl, rfl, ?_⟩
  cases hu : n.udp with
  | none => exact .absent hu rfl
  | some t => exact .present hu rfl ⟨fun h => h, rfl⟩

theorem Quiet.refl (n : Node) : n.Quiet [] n :=
  .apart n n.tcp n.handlers

theorem Quiet.udp {n : Node} {t t' : UdpTransport} {events : List Outbox.Event}
    (hu : n.udp = some t) (ht : t.Works events t') (tcp : List TcpTransport) :
    n.Quiet events { n with udp := some t', tcp } := by
  refine ⟨rfl, rfl, rfl, rfl, rfl, ?_, .present hu rfl ht.toAdvances⟩
  rw [Node.contexts, Node.contexts, hu]
  exact ht.contexts

theorem Quiet.onUdp (n : Node) {f : UdpTransport → UdpTransport}
    {events : List Outbox.Event} (hf : ∀ t, n.udp = some t → t.Works events (f t))
    (hn : n.udp = none → events = []) (tcp : List TcpTransport) :
    n.Quiet events { n with udp := n.udp.map f, tcp } := by
  cases hu : n.udp with
  | none =>
    have he : { n with udp := none, tcp } = { n with tcp } := by rw [hu]
    rw [Option.map_none, he, hn hu]
    exact .apart n tcp n.handlers
  | some t => exact .udp hu (hf t hu) tcp

theorem sendBy_quiet (n : Node) (now : Nat) (route : Route) (e : Envelope) (reliable : Bool) :
    n.Quiet (n.outboxEvents now (.sendBy route e reliable)) (n.sendBy now reliable e route).1 := by
  cases route with
  | tcp peer c =>
    show n.Quiet [] _
    unfold sendBy
    dsimp only
    split
    · exact .refl n
    · exact .apart n _ n.handlers
  | udp peer endpoint =>
    unfold sendBy outboxEvents reliablePackets
    cases hu : n.udp with
    | none =>
      cases reliable with
      | false => exact .refl n
      | true => exact .refl n
    | some t =>
      cases reliable with
      | false => exact .udp hu (t.sendUnreliable_works n.id endpoint e) n.tcp
      | true => exact .udp hu (t.sendReliable_works n.id endpoint e now) n.tcp

theorem outboxEvents_send {n : Node} {receiver : PeerId} {body : Body} {reliable : Bool}
    {route : Route} {e : Envelope}
    (h : n.directory.routes.delivery n.id receiver body reliable = .via route e) (now : Nat) :
    n.outboxEvents now (.send receiver body reliable) =
      n.outboxEvents now (.sendBy route e reliable) := by
  have hr : n.reliable? (.send receiver body reliable) =
      n.reliable? (.sendBy route e reliable) := by
    cases reliable with
    | false =>
      cases route with
      | tcp peer c => rfl
      | udp peer endpoint => rfl
    | true =>
      rw [reliable?, h]
      cases route with
      | tcp peer c => rfl
      | udp peer endpoint => rfl
  simp only [outboxEvents, reliablePackets, hr]

theorem send_quiet (n : Node) (now : Nat) (receiver : PeerId) (body : Body) (reliable : Bool) :
    n.Quiet (n.outboxEvents now (.send receiver body reliable))
      (n.send now receiver body reliable).1 := by
  unfold send
  cases h : n.directory.routes.delivery n.id receiver body reliable with
  | via route e =>
    rw [outboxEvents_send h]
    exact n.sendBy_quiet now route e reliable
  | nothing result =>
    have hr : n.reliable? (.send receiver body reliable) = none := by
      cases reliable with
      | false => rfl
      | true => rw [reliable?, h]
    simp only [outboxEvents, hr]
    exact .refl n

theorem updateIdentity_quiet (n : Node) (change : Identity → Identity) :
    n.Quiet [] (n.updateIdentity change).1 := by
  unfold updateIdentity
  cases h : n.directory.identity.update (change n.directory.identity) with
  | error e => exact .refl n
  | ok identity =>
    have hid : identity.id = n.id := by
      unfold Identity.update at h
      split at h
      · rename_i heq
        cases h
        exact heq
      · cases h
    have hq : ({ n with directory.identity := identity }).Quiet [] _ :=
      .onUdp _ (fun t _ => t.announce_works identity) (fun _ => rfl)
        (n.tcp.map (·.announce identity))
    have ha : n.Advances [] { n with directory.identity := identity } := .same rfl
    exact ⟨hid, hq.timeout, hq.ticket, hq.peers, hq.routes, hq.contexts, ha.trans hq.advances⟩

theorem broadcast_quiet (n : Node) (body : Body) : n.Quiet [] (n.broadcast body).1 := by
  unfold broadcast
  dsimp only
  rw [Option.map_map]
  exact .onUdp n (fun t _ => t.broadcast_works n.id _) (fun _ => rfl) _

theorem step_quiet (n : Node) (now : Nat) {e : Event} (he : e.IsQuiet) :
    n.Quiet (n.outboxEvents now e) (n.step now e).1 ∧ (n.step now e).2.outcomes = [] := by
  cases e with
  | opened transport a => exact ⟨.apart n _ n.handlers, rfl⟩
  | bound transport => exact ⟨.apart n _ n.handlers, rfl⟩
  | pause transport => exact ⟨.apart n _ n.handlers, rfl⟩
  | retryDue transport => exact ⟨.apart n _ n.handlers, rfl⟩
  | send receiver body reliable => exact ⟨n.send_quiet now receiver body reliable, rfl⟩
  | sendBy route e reliable => exact ⟨n.sendBy_quiet now route e reliable, rfl⟩
  | broadcast body => exact ⟨n.broadcast_quiet body, rfl⟩
  | announce => exact ⟨.onUdp n (fun t _ => t.announce_works _) (fun _ => rfl) _, rfl⟩
  | updateIdentity change => exact ⟨n.updateIdentity_quiet change, rfl⟩
  | announceDue => exact ⟨.onUdp n (fun t _ => t.announceDue_works _ now) (fun _ => rfl) n.tcp, rfl⟩
  | resendDue =>
    refine ⟨.onUdp n (fun t hu => ?_) (fun hu => ?_) n.tcp, rfl⟩
    · rw [outboxEvents, hu]
      exact t.resendDue_works now
    · rw [outboxEvents, hu]
  | prune maxAge => exact ⟨.onUdp n (fun t _ => t.prune_works now maxAge) (fun _ => rfl) n.tcp, rfl⟩
  | register h => exact ⟨.apart n n.tcp _, rfl⟩
  | deregister kind => exact ⟨.apart n n.tcp _, rfl⟩
  | _ => exact he.elim

theorem Learns.refl (n : Node) : n.Learns [] n [] :=
  ⟨⟨rfl, rfl, fun h => h⟩, rfl, rfl⟩

theorem Learns.trans {n n' n'' : Node} {is js : List Identity} {hs hs' : List Held}
    (h : n.Learns is n' hs) (h' : n'.Learns js n'' hs') :
    n.Learns (is ++ js) n'' (hs ++ hs') := by
  refine ⟨⟨h'.id.trans h.id, h'.timeout.trans h.timeout, fun hl => h'.lists (h.lists hl)⟩,
    h'.ticket.trans h.ticket, ?_⟩
  rw [PeerTable.updateAll_append, h.peers, h'.peers]

theorem Learns.ofConnects {n : Node} {is : List Identity} {d : Directory} {hs : List Held}
    (h : n.directory.Connects is d hs) (tcp : List TcpTransport) :
    n.Learns is { n with tcp, directory := d } hs :=
  ⟨⟨congrArg Identity.id h.identity, rfl, fun hl => h.lists n.contexts hl⟩, rfl, h.peers⟩

theorem handshakesDue_learns (n : Node) (now : Nat) : n.Learns [] (n.handshakesDue now) [] :=
  .ofConnects (.foldl (fun _ t => t.handshakesDue_connects _ now) n.tcp ([], n.directory)) _

theorem stopTcp_learns (n : Node) (now transport : Nat) :
    n.Learns [] (n.stopTcp now transport) [] := by
  unfold stopTcp
  split
  · exact .refl n
  · exact .ofConnects (TcpTransport.shutDown_connects _ n.directory now) _

theorem receiveBytes_learns (n : Node) (now : Nat) (c : ConnectionId) (bs : Bytes)
    (ended : Bool) : n.Learns (n.told (.bytes c bs ended)) (n.receiveBytes now c bs ended).1
      (n.receiveBytes now c bs ended).2.released := by
  unfold receiveBytes told
  dsimp only
  cases n.tcp[c.transport]? with
  | none => exact .refl n
  | some t => exact .ofConnects (t.receive_connects n.directory c.number now bs ended) _

theorem receiveDatagram_learns (n : Node) (now : Nat) (bs : Bytes) (source : SocketAddress) :
    n.Learns (n.told (.datagram bs source)) (n.receiveDatagram now bs source).1
      (n.receiveDatagram now bs source).2.released := by
  unfold receiveDatagram told
  cases hu : n.udp with
  | none => exact .refl n
  | some t =>
    have ha := t.receive_announces n.directory now bs source
    obtain ⟨hs, hr, hp⟩ := ha.peers
    refine ⟨⟨congrArg Identity.id ha.identity, rfl, fun hl => ha.lists ?_⟩, rfl, ?_⟩
    · rwa [contexts, hu] at hl
    · rw [List.nil_append] at hr
      rw [← hr] at hp
      exact hp

theorem forgetPeers_learns (n : Node) : n.Learns [] n.forgetPeers [] := by
  unfold forgetPeers
  cases hu : n.udp with
  | none => exact .refl n
  | some t =>
    obtain ⟨hi, hp⟩ := t.forgetPeers_frame n.directory
    refine ⟨⟨congrArg Identity.id hi, rfl, fun hl => ?_⟩, rfl, congrArg (Prod.mk · []) hp.symm⟩
    rw [contexts, hu] at hl
    exact UdpTransport.forgetPeers_lists hl

theorem stopUdp_learns (n : Node) : n.Learns [] n.stopUdp [] := by
  have h := n.forgetPeers_learns
  unfold forgetPeers at h
  unfold stopUdp
  cases hu : n.udp with
  | none => exact .refl n
  | some t =>
    rw [hu] at h
    exact ⟨⟨h.id, h.timeout, h.lists⟩, h.ticket, h.peers⟩

theorem shutDown_eq (n : Node) (now : Nat) : ∃ tcp d,
    n.shutDown now = { n.stopUdp with tcp, directory := d } ∧
      n.stopUdp.directory.Connects [] d [] := by
  obtain ⟨directory, handlers, timeout, udp, tcp, ticket⟩ := n
  cases udp with
  | none =>
    refine ⟨_, _, rfl, ?_⟩
    exact .foldl (fun _ t => t.shutDown_connects _ now) tcp ([], directory)
  | some t =>
    refine ⟨_, _, rfl, ?_⟩
    exact .foldl (fun _ t => t.shutDown_connects _ now) tcp ([], (t.shutDown directory).2)

theorem shutDown_learns (n : Node) (now : Nat) : n.Learns [] (n.shutDown now) [] := by
  obtain ⟨tcp, d, he, hd⟩ := n.shutDown_eq now
  rw [he]
  exact n.stopUdp_learns.trans (.ofConnects hd tcp)

/-- What an event tells, and that the handlers get what it releases. -/
theorem step_learns (n : Node) (now : Nat) {e : Event} (he : e.Tells) :
    ∃ hs, n.Learns (n.told e) (n.step now e).1 hs ∧
      (n.step now e).2.outcomes = hs.map (n.step now e).1.resume := by
  have hquiet (hq : e.IsQuiet) (ht : n.told e = []) :
      ∃ hs, n.Learns (n.told e) (n.step now e).1 hs ∧
        (n.step now e).2.outcomes = hs.map (n.step now e).1.resume := by
    obtain ⟨h, ho⟩ := n.step_quiet now hq
    exact ⟨[], ht ▸ h.learns, ho⟩
  cases e with
  | datagram bs source => exact ⟨_, n.receiveDatagram_learns now bs source, rfl⟩
  | bytes c bs ended => exact ⟨_, n.receiveBytes_learns now c bs ended, rfl⟩
  | handshakesDue => exact ⟨[], n.handshakesDue_learns now, rfl⟩
  | forgetPeers => exact ⟨[], n.forgetPeers_learns, rfl⟩
  | stopUdp => exact ⟨[], n.stopUdp_learns, rfl⟩
  | stopTcp transport => exact ⟨[], n.stopTcp_learns now transport, rfl⟩
  | shutDown => exact ⟨[], n.shutDown_learns now, rfl⟩
  | learn i => exact ⟨_, .ofConnects (.learn n.directory i) n.tcp, rfl⟩
  | dispatch e => exact he.elim
  | expireHeld => exact he.elim
  | _ => exact hquiet trivial rfl

theorem dispatch_fst (n : Node) (now : Nat) (e : Envelope) : (n.dispatch now e).1 =
    { n with
      directory.peers := ((⟨n.nextTicket, e⟩ : Held).arrive n.directory.identity n.directory.peers
        now n.discoveryTimeout).1
      nextTicket := n.nextTicket + 1 } := by
  unfold dispatch
  dsimp only
  split
  · rfl
  · rfl
  · rfl

theorem step_keeps (n : Node) (now : Nat) (e : Event) : n.Keeps (n.step now e).1 := by
  obtain he | ⟨m, rfl⟩ | rfl := e.tells_or
  · obtain ⟨hs, h, -⟩ := n.step_learns now he
    exact h.toKeeps
  · show n.Keeps (n.dispatch now m).1
    rw [dispatch_fst]
    exact ⟨rfl, rfl, fun h => ⟨h.nodup, h.udp⟩⟩
  · exact ⟨rfl, rfl, fun h => ⟨h.nodup, h.udp⟩⟩

theorem Keeps.refl (n : Node) : n.Keeps n :=
  ⟨rfl, rfl, fun h => h⟩

theorem Keeps.trans {n n' n'' : Node} (h : n.Keeps n') (h' : n'.Keeps n'') : n.Keeps n'' :=
  ⟨h'.id.trans h.id, h'.timeout.trans h.timeout, fun hl => h'.lists (h.lists hl)⟩

theorem after_keeps (n : Node) (events : List (Nat × Event)) : n.Keeps (n.after events) := by
  induction events using List.reverseRecOn with
  | nil => exact .refl n
  | append_singleton events e ih =>
    rw [after_concat]
    exact ih.trans (step_keeps _ e.1 e.2)

theorem udp_receiveBytes (n : Node) (now : Nat) (c : ConnectionId) (bs : Bytes) (ended : Bool) :
    (n.receiveBytes now c bs ended).1.udp = n.udp := by
  unfold receiveBytes
  split
  · rfl
  · rfl

theorem udp_stopTcp (n : Node) (now transport : Nat) : (n.stopTcp now transport).udp = n.udp := by
  unfold stopTcp
  split
  · rfl
  · rfl

theorem udp_dispatch (n : Node) (now : Nat) (e : Envelope) : (n.dispatch now e).1.udp = n.udp := by
  rw [dispatch_fst]

theorem stopUdp_advances (n : Node) : n.Advances [.failAll] n.stopUdp := by
  unfold stopUdp
  cases hu : n.udp with
  | none => exact .absent hu hu
  | some t => exact .present hu rfl ⟨fun _ => rfl, rfl⟩

theorem forgetPeers_advances (n : Node) : n.Advances [] n.forgetPeers := by
  unfold forgetPeers
  cases hu : n.udp with
  | none => exact .absent hu hu
  | some t => exact .present hu rfl ⟨fun h => h, rfl⟩

theorem receiveDatagram_advances (n : Node) (now : Nat) (bs : Bytes) (source : SocketAddress) :
    n.Advances (UdpTransport.acknowledgements (Datagram.payloads bs))
      (n.receiveDatagram now bs source).1 := by
  unfold receiveDatagram
  cases hu : n.udp with
  | none => exact .absent hu hu
  | some t => exact .present hu rfl (t.receive_advances n.directory now bs source)

/-- What an event is for the datagram transport. -/
theorem step_advances (n : Node) (now : Nat) (e : Event) :
    n.Advances (n.outboxEvents now e) (n.step now e).1 := by
  have hquiet (hq : e.IsQuiet) : n.Advances (n.outboxEvents now e) (n.step now e).1 :=
    (n.step_quiet now hq).1.advances
  cases e with
  | datagram bs source => exact n.receiveDatagram_advances now bs source
  | bytes c bs ended => exact .same (n.udp_receiveBytes now c bs ended)
  | handshakesDue => exact .same rfl
  | forgetPeers => exact n.forgetPeers_advances
  | stopUdp => exact n.stopUdp_advances
  | stopTcp transport => exact .same (n.udp_stopTcp now transport)
  | shutDown =>
    obtain ⟨tcp, d, he, -⟩ := n.shutDown_eq now
    show n.Advances [.failAll] (n.shutDown now)
    rw [he]
    exact n.stopUdp_advances.trans (.same rfl)
  | dispatch m => exact .same (n.udp_dispatch now m)
  | learn i => exact .same rfl
  | expireHeld => exact .same rfl
  | _ => exact hquiet trivial

theorem contexts_receiveDatagram (n : Node) (now : Nat) (bs : Bytes) (source : SocketAddress)
    (p : PeerId) : ((n.receiveDatagram now bs source).1.contexts.get? p).isSome ↔
      (n.contexts.get? p).isSome ∨ ∃ i ∈ n.told (.datagram bs source), i.id = p ∧
        (i.declaredPort unicastPortKey).isSome := by
  unfold receiveDatagram told
  dsimp only
  cases hu : n.udp with
  | none => simp
  | some t =>
    have ha := (t.receive_announces n.directory now bs source).contexts p
    unfold contexts
    rw [hu]
    exact ha

theorem contexts_step (n : Node) (now : Nat) {e : Event} (he : ¬ e.Forgets)
    (hd : ∀ bs source, e ≠ .datagram bs source) : (n.step now e).1.contexts = n.contexts := by
  have hudp (hu : (n.step now e).1.udp = n.udp) : (n.step now e).1.contexts = n.contexts := by
    rw [contexts, contexts, hu]
  by_cases hq : e.IsQuiet
  · exact (n.step_quiet now hq).1.contexts
  cases e with
  | datagram bs source => exact absurd rfl (hd bs source)
  | bytes c bs ended => exact hudp (n.udp_receiveBytes now c bs ended)
  | handshakesDue => exact hudp rfl
  | forgetPeers => exact (he trivial).elim
  | stopUdp => exact (he trivial).elim
  | stopTcp transport => exact hudp (n.udp_stopTcp now transport)
  | shutDown => exact (he trivial).elim
  | dispatch m => exact hudp (n.udp_dispatch now m)
  | learn i => exact hudp rfl
  | expireHeld => exact hudp rfl
  | _ => exact (hq trivial).elim

theorem step_contexts (n : Node) (now : Nat) {e : Event} (he : ¬ e.Forgets) (p : PeerId) :
    ((n.step now e).1.contexts.get? p).isSome ↔ (n.contexts.get? p).isSome ∨
      ∃ bs source, e = .datagram bs source ∧ ∃ i ∈ n.told e, i.id = p ∧
        (i.declaredPort unicastPortKey).isSome := by
  by_cases hd : ∃ bs source, e = .datagram bs source
  · obtain ⟨bs, source, rfl⟩ := hd
    rw [show (n.step now (.datagram bs source)).1 = (n.receiveDatagram now bs source).1 from rfl,
      contexts_receiveDatagram]
    exact or_congr_right ⟨fun h => ⟨bs, source, rfl, h⟩, fun ⟨_, _, _, h⟩ => h⟩
  · rw [n.contexts_step now he fun bs source hs => hd ⟨bs, source, hs⟩]
    exact (or_iff_left fun ⟨bs, source, hs, _⟩ => hd ⟨bs, source, hs⟩).symm

/-- A run is a sequence of events for the outbox. -/
theorem after_advances (n : Node) (events : List (Nat × Event)) :
    ∃ history, n.Advances history (n.after events) := by
  induction events using List.reverseRecOn with
  | nil => exact ⟨[], .same rfl⟩
  | append_singleton events e ih =>
    obtain ⟨history, h⟩ := ih
    rw [after_concat]
    exact ⟨_, h.trans (step_advances _ e.1 e.2)⟩

/-- A node that has just started: it knows of no one. -/
structure IsNew (n : Node) : Prop where
  routes : n.directory.routes = .empty
  peers : n.directory.peers = .empty
  ticket : n.nextTicket = 0
  udp : ∀ t, n.udp = some t → ∃ config link ids now, t = .start config link ids now

theorem startAllTcp_eq {n n' : Node} {now : Nat} {configs : List TcpConfig}
    (h : n.startAllTcp now configs = .ok n') : ∃ tcp, n' = { n with tcp } := by
  induction configs generalizing n with
  | nil =>
    cases h
    exact ⟨_, rfl⟩
  | cons c configs ih =>
    unfold startAllTcp startTcp at h
    cases hc : c.check with
    | error e =>
      rw [hc] at h
      cases h
    | ok u =>
      rw [hc] at h
      obtain ⟨tcp, rfl⟩ := ih h
      exact ⟨tcp, rfl⟩

theorem startUdp_eq {n n' : Node} {s : UdpSetup} {now : Nat} (h : n.startUdp s now = .ok n') :
    ∃ link, s.network = .ok link ∧ n' =
      { n with
        directory.identity :=
          n.directory.identity.declare unicastPortKey (.int (Int64.ofNat link.port.toNat))
        udp := some (.start s.config link s.ids now) } := by
  unfold startUdp at h
  split at h
  · cases h
  · split at h
    · cases h
    · rename_i link hlink
      cases h
      exact ⟨link, hlink, rfl⟩

theorem isNew_of_start {s : NodeSetup} {now : Nat} {n : Node} (h : start s now = .ok n) :
    n.IsNew := by
  unfold start at h
  dsimp only at h
  split at h
  · obtain ⟨tcp, rfl⟩ := startAllTcp_eq h
    exact ⟨rfl, rfl, rfl, nofun⟩
  · split at h
    · cases h
    · rename_i hu
      obtain ⟨link, -, rfl⟩ := startUdp_eq hu
      obtain ⟨tcp, rfl⟩ := startAllTcp_eq h
      refine ⟨rfl, rfl, rfl, fun t ht => ?_⟩
      cases ht
      exact ⟨_, _, _, _, rfl⟩

theorem IsNew.lists {n : Node} (h : n.IsNew) : n.directory.Lists n.contexts := by
  have hc : n.contexts = .empty := by
    unfold contexts
    cases hu : n.udp with
    | none => rfl
    | some t =>
      obtain ⟨config, link, ids, now, rfl⟩ := h.udp t hu
      rfl
  rw [hc]
  refine ⟨fun q => ?_, fun q p e => ?_⟩
  · rw [h.routes]
    exact List.nodup_nil
  · rw [h.routes]
    exact ⟨fun hm => (List.not_mem_nil hm).elim, fun hc => nomatch hc.2⟩

end Node

def NodeSetup.first : NodeSetup where
  identity := ⟨⟨1⟩, "first", .empty⟩
  udp := some ⟨{}, .ok { port := 4000, fault := fun _ _ => none }, .numbered 0 100⟩

def Node.first : Node where
  directory := {
    identity := NodeSetup.first.identity.declare unicastPortKey (.int 4000) }
  discoveryTimeout := 30000
  udp := some (.start {} { port := 4000, fault := fun _ _ => none } (.numbered 0 100) 0)

theorem Node.start_first : Node.start .first 0 = .ok .first := rfl

def Identity.second : Identity :=
  ({ id := ⟨2⟩, name := "second" } : Identity).declare unicastPortKey (.int 4000)

def Node.Event.secondAnnounced : Node.Event :=
  .datagram (Payload.announcement .second).encode ⟨.v4 0x0a000002, 4000, 0⟩

end PeerMesh

import PeerMesh.Proofs.Traffic

namespace PeerMesh

namespace TcpTransport

/-- What a node has one of its connection transports do. -/
inductive Act where
  | rest
  | opened (a : SocketAddress)
  | receive (number : Nat) (bs : Bytes) (ended : Bool)
  | handshakesDue
  | bound
  | pause
  | retryDue
  | write (number : Nat) (p : Payload)
  | announce
  | broadcast (e : Envelope)
  | shutDown

def act (t : TcpTransport) (d : Directory) (now : Nat) : Act → TcpTransport × Directory
  | .rest => (t, d)
  | .opened a => (t.opened d.identity a now, d)
  | .receive number bs ended =>
    let r := t.receive d number now bs ended
    (r.transport, r.directory)
  | .handshakesDue => t.handshakesDue d now
  | .bound => (t.bound, d)
  | .pause => (t.pause now, d)
  | .retryDue => (t.retryDue now, d)
  | .write number p => ((t.write number p).1, d)
  | .announce => (t.announce d.identity, d)
  | .broadcast e => ((t.broadcast e).1, d)
  | .shutDown => t.shutDown d now

def actAll (now : Nat) (acts : Nat → Act) :
    List TcpTransport → Directory → List TcpTransport × Directory
  | [], d => ([], d)
  | t :: ts, d =>
    let rest := actAll now (fun k => acts (k + 1)) ts (t.act d now (acts 0)).2
    ((t.act d now (acts 0)).1 :: rest.1, rest.2)

def Act.only (k : Nat) (a : Act) : Nat → Act :=
  fun j => if j = k then a else .rest

def Act.IsPlain : Act → Prop
  | .opened _ | .receive _ _ _ | .handshakesDue | .write _ _ | .shutDown => False
  | _ => True

variable {now : Nat} {acts : Nat → Act} {ts : List TcpTransport}

theorem identity_act (t : TcpTransport) (d : Directory) (now : Nat) (a : Act) :
    (t.act d now a).2.identity = d.identity := by
  cases a with
  | receive number bs ended => exact (t.receive_connects d number now bs ended).identity
  | handshakesDue => exact (t.handshakesDue_connects d now).identity
  | shutDown => exact (t.shutDown_connects d now).identity
  | _ => rfl

theorem actAll_rest (now : Nat) (ts : List TcpTransport) (d : Directory) :
    actAll now (fun _ => .rest) ts d = (ts, d) := by
  induction ts with
  | nil => rfl
  | cons t ts ih => exact congrArg (fun s => (t :: s.1, s.2)) ih

theorem Act.only_succ (k : Nat) (a : Act) : (fun j => Act.only (k + 1) a (j + 1)) = .only k a :=
  funext fun _ => if_congr Nat.succ_inj rfl rfl

theorem actAll_only {k : Nat} {t : TcpTransport} (ht : ts[k]? = some t) (now : Nat) (a : Act)
    (d : Directory) : actAll now (.only k a) ts d =
      (ts.set k (t.act d now a).1, (t.act d now a).2) := by
  induction ts generalizing k with
  | nil => cases ht
  | cons u ts ih =>
    cases k with
    | zero =>
      cases ht
      exact congrArg (fun s => (_ :: s.1, s.2)) (actAll_rest now ts (t.act d now a).2)
    | succ k =>
      have h := ih ht
      rw [← Act.only_succ] at h
      exact congrArg (fun s => (u :: s.1, s.2)) h

theorem actAll_only_of_none {k : Nat} (hk : ts[k]? = none) (now : Nat) (a : Act)
    (d : Directory) : actAll now (.only k a) ts d = (ts, d) := by
  induction ts generalizing k with
  | nil => rfl
  | cons u ts ih =>
    cases k with
    | zero => cases hk
    | succ k =>
      have h := ih hk
      rw [← Act.only_succ] at h
      exact congrArg (fun s => (u :: s.1, s.2)) h

theorem actAll_modify {f : TcpTransport → TcpTransport} {a : Act} {d : Directory}
    (ha : ∀ t, TcpTransport.act t d now a = (f t, d)) (ts : List TcpTransport) (k : Nat) :
    actAll now (.only k a) ts d = (ts.modify k f, d) := by
  rw [List.modify_eq_set_getElem?]
  cases hk : ts[k]? with
  | none => exact actAll_only_of_none hk now a d
  | some t =>
    rw [actAll_only hk, ha]
    rfl

theorem actAll_map {f : TcpTransport → TcpTransport} {a : Act} {d : Directory}
    (ha : ∀ t, TcpTransport.act t d now a = (f t, d)) (ts : List TcpTransport) :
    actAll now (fun _ => a) ts d = (ts.map f, d) := by
  induction ts with
  | nil => rfl
  | cons t ts ih =>
    rw [actAll, ha, ih]
    rfl

theorem foldl_eq_actAll (now : Nat) {a : Act}
    {f : TcpTransport → Directory → TcpTransport × Directory}
    (ha : ∀ t d, TcpTransport.act t d now a = f t d) (ts done : List TcpTransport)
    (d : Directory) : ts.foldl (fun s t => ((f t s.2).1 :: s.1, (f t s.2).2)) (done, d) =
      ((actAll now (fun _ => a) ts d).1.reverse ++ done, (actAll now (fun _ => a) ts d).2) := by
  induction ts generalizing done d with
  | nil => rfl
  | cons t ts ih =>
    rw [List.foldl_cons, ih, actAll, ha, List.reverse_cons, List.append_assoc]
    rfl

theorem length_actAll (now : Nat) (acts : Nat → Act) (ts : List TcpTransport) (d : Directory) :
    (actAll now acts ts d).1.length = ts.length := by
  induction ts generalizing acts d with
  | nil => rfl
  | cons t ts ih => exact congrArg (· + 1) (ih _ _)

/-- What each act keeps of the directory holds when the turn of a transport comes, and in the end.
-/
theorem actAll_keeps {P : Directory → Prop}
    (hP : ∀ (k : Nat) t, ts[k]? = some t → ∀ d, P d → P (t.act d now (acts k)).2) {d : Directory}
    (hd : P d) : P (actAll now acts ts d).2 ∧ ∀ k : Nat, ∃ d', P d' ∧
      (actAll now acts ts d).1[k]? = ts[k]?.map fun t => (t.act d' now (acts k)).1 := by
  induction ts generalizing acts d with
  | nil => exact ⟨hd, fun k => ⟨d, hd, rfl⟩⟩
  | cons t ts ih =>
    obtain ⟨hend, hturn⟩ := ih (fun k u hu => hP (k + 1) u hu) (hP 0 t rfl d hd)
    refine ⟨hend, fun k => ?_⟩
    cases k with
    | zero => exact ⟨d, hd, rfl⟩
    | succ k => exact hturn k

theorem identity_actAll (now : Nat) (acts : Nat → Act) (ts : List TcpTransport) (d : Directory) :
    (actAll now acts ts d).2.identity = d.identity :=
  (actAll_keeps (P := fun d' => d'.identity = d.identity)
    (fun k t _ d' hd' => (t.identity_act d' now (acts k)).trans hd') rfl).1

end TcpTransport

namespace Node

def sendAct (n : Node) (e : Envelope) (reliable : Bool) : Route → UdpTransport.Act
  | .udp _ endpoint =>
    if reliable then .sendReliable n.id endpoint e else .sendUnreliable n.id endpoint e
  | .tcp _ _ => .rest

def act (n : Node) : Event → UdpTransport.Act
  | .datagram bs source => .receive n.directory bs source
  | .send receiver body reliable =>
    match n.directory.routes.delivery n.id receiver body reliable with
    | .via route e => n.sendAct e reliable route
    | .nothing _ => .rest
  | .sendBy route e reliable => n.sendAct e reliable route
  | .broadcast body => .broadcast n.id (Envelope.toAll n.id body)
  | .announce => .announce n.directory.identity
  | .updateIdentity change =>
    match n.directory.identity.update (change n.directory.identity) with
    | .ok i => .announce i
    | .error _ => .rest
  | .announceDue => .announceDue n.directory.identity
  | .resendDue => .resendDue
  | .prune maxAge => .prune maxAge
  | .forgetPeers => .forgetPeers n.directory
  | .stopUdp => .shutDown n.directory
  | .shutDown => .shutDown n.directory
  | _ => .rest

/-- What sending an envelope by a route has the connection transports do. -/
def tcpSendActs (e : Envelope) : Route → Nat → TcpTransport.Act
  | .udp _ _ => fun _ => .rest
  | .tcp _ c => .only c.transport (.write c.number (.message e))

def tcpActs (n : Node) : Event → Nat → TcpTransport.Act
  | .opened transport a => .only transport (.opened a)
  | .bytes c bs ended => .only c.transport (.receive c.number bs ended)
  | .handshakesDue => fun _ => .handshakesDue
  | .bound transport => .only transport .bound
  | .pause transport => .only transport .pause
  | .retryDue transport => .only transport .retryDue
  | .send receiver body reliable =>
    match n.directory.routes.delivery n.id receiver body reliable with
    | .via route e => tcpSendActs e route
    | .nothing _ => fun _ => .rest
  | .sendBy route e _ => tcpSendActs e route
  | .broadcast body => fun _ => .broadcast (Envelope.toAll n.id body)
  | .announce => fun _ => .announce
  | .updateIdentity change =>
    match n.directory.identity.update (change n.directory.identity) with
    | .ok _ => fun _ => .announce
    | .error _ => fun _ => .rest
  | .stopTcp transport => .only transport .shutDown
  | .shutDown => fun _ => .shutDown
  | _ => fun _ => .rest

/-- The directory that the connection transports find at an event. -/
def found (n : Node) (now : Nat) : Event → Directory
  | .datagram bs source => (n.receiveDatagram now bs source).1.directory
  | .updateIdentity change => (n.updateIdentity change).1.directory
  | .forgetPeers => n.forgetPeers.directory
  | .stopUdp => n.stopUdp.directory
  | .shutDown => n.stopUdp.directory
  | .dispatch m =>
    { n.directory with
      peers := ((⟨n.nextTicket, m⟩ : Held).arrive n.directory.identity n.directory.peers now
        n.discoveryTimeout).1 }
  | .learn i => (n.learn i).1.directory
  | .expireHeld => (n.expireHeld now).1.directory
  | _ => n.directory

def Event.handlers (hs : Handlers) : Event → Handlers
  | register h => hs.register h
  | deregister kind => (hs.deregister kind).1
  | _ => hs

def perform (n : Node) (now : Nat) (a : UdpTransport.Act) (acts : Nat → TcpTransport.Act)
    (d : Directory) : Node :=
  let s := TcpTransport.actAll now acts n.tcp d
  { n with udp := n.udp.map (·.act now a), tcp := s.1, directory := s.2 }

theorem map_act_rest (u : Option UdpTransport) (now : Nat) : u.map (·.act now .rest) = u :=
  Option.map_id'

theorem perform_udp (n : Node) (now : Nat) (a : UdpTransport.Act) (d : Directory) :
    n.perform now a (fun _ => .rest) d =
      { n with udp := n.udp.map (·.act now a), directory := d } := by
  rw [perform, TcpTransport.actAll_rest]

theorem perform_tcp (n : Node) (now : Nat) (acts : Nat → TcpTransport.Act) (d : Directory) :
    n.perform now .rest acts d =
      { n with
        tcp := (TcpTransport.actAll now acts n.tcp d).1
        directory := (TcpTransport.actAll now acts n.tcp d).2 } := by
  rw [perform, map_act_rest]

theorem perform_rest (n : Node) (now : Nat) (d : Directory) :
    n.perform now .rest (fun _ => .rest) d = { n with directory := d } := by
  rw [perform_udp, map_act_rest]

theorem perform_modify {f : TcpTransport → TcpTransport} {a : TcpTransport.Act} {now : Nat}
    {d : Directory} (ha : ∀ t, TcpTransport.act t d now a = (f t, d)) (n : Node) (k : Nat) :
    n.perform now .rest (.only k a) d = { n with tcp := n.tcp.modify k f, directory := d } := by
  rw [perform_tcp, TcpTransport.actAll_modify ha]

theorem perform_only {n : Node} {k : Nat} {t : TcpTransport} (ht : n.tcp[k]? = some t)
    (now : Nat) (a : TcpTransport.Act) (d : Directory) :
    n.perform now .rest (.only k a) d =
      { n with tcp := n.tcp.set k (t.act d now a).1, directory := (t.act d now a).2 } := by
  rw [perform_tcp, TcpTransport.actAll_only ht]

theorem perform_only_of_none {n : Node} {k : Nat} (hk : n.tcp[k]? = none) (now : Nat)
    (a : TcpTransport.Act) (d : Directory) :
    n.perform now .rest (.only k a) d = { n with directory := d } := by
  rw [perform_tcp, TcpTransport.actAll_only_of_none hk]

theorem perform_map {f : TcpTransport → TcpTransport} {a : TcpTransport.Act} {now : Nat}
    {d : Directory} (ha : ∀ t, TcpTransport.act t d now a = (f t, d)) (n : Node)
    (b : UdpTransport.Act) : n.perform now b (fun _ => a) d =
      { n with udp := n.udp.map (·.act now b), tcp := n.tcp.map f, directory := d } := by
  rw [perform, TcpTransport.actAll_map ha]

theorem receiveDatagram_eq_perform (n : Node) (now : Nat) (bs : Bytes) (source : SocketAddress) :
    let n' := (n.receiveDatagram now bs source).1
    n' = n.perform now (.receive n.directory bs source) (fun _ => .rest) n'.directory := by
  intro n'
  rw [perform_udp]
  unfold n' receiveDatagram
  obtain ⟨directory, handlers, timeout, udp, tcp, ticket⟩ := n
  cases udp with
  | none => rfl
  | some t => rfl

theorem receiveBytes_eq_perform (n : Node) (now : Nat) (c : ConnectionId) (bs : Bytes)
    (ended : Bool) : (n.receiveBytes now c bs ended).1 =
      n.perform now .rest (.only c.transport (.receive c.number bs ended)) n.directory := by
  unfold receiveBytes
  cases ht : n.tcp[c.transport]? with
  | none => rw [perform_only_of_none ht]
  | some t => rw [perform_only ht]; rfl

theorem sendBy_eq_perform (n : Node) (now : Nat) (reliable : Bool) (e : Envelope) (route : Route) :
    (n.sendBy now reliable e route).1 =
      n.perform now (n.sendAct e reliable route) (tcpSendActs e route) n.directory := by
  cases route with
  | udp peer endpoint =>
    rw [tcpSendActs, perform_udp]
    unfold sendBy sendAct
    obtain ⟨directory, handlers, timeout, udp, tcp, ticket⟩ := n
    cases udp with
    | none => rfl
    | some t =>
      cases reliable with
      | false => rfl
      | true => rfl
  | tcp peer c =>
    rw [tcpSendActs, sendAct]
    unfold sendBy
    dsimp only
    cases ht : n.tcp[c.transport]? with
    | none => rw [perform_only_of_none ht]
    | some t => rw [perform_only ht]; rfl

theorem announce_eq_perform (n : Node) (now : Nat) : n.announce =
    n.perform now (.announce n.directory.identity) (fun _ => .announce) n.directory := by
  rw [perform_map fun _ => rfl]
  rfl

theorem broadcast_eq_perform (n : Node) (now : Nat) (body : Body) : (n.broadcast body).1 =
    n.perform now (.broadcast n.id (.toAll n.id body))
      (fun _ => .broadcast (.toAll n.id body)) n.directory := by
  rw [perform_map fun _ => rfl]
  unfold broadcast
  dsimp only
  rw [Option.map_map, List.map_map]
  rfl

theorem forgetPeers_eq_perform (n : Node) (now : Nat) : n.forgetPeers =
    n.perform now (.forgetPeers n.directory) (fun _ => .rest) n.forgetPeers.directory := by
  rw [perform_udp]
  unfold forgetPeers
  obtain ⟨directory, handlers, timeout, udp, tcp, ticket⟩ := n
  cases udp with
  | none => rfl
  | some t => rfl

theorem stopUdp_eq_perform (n : Node) (now : Nat) : n.stopUdp =
    n.perform now (.shutDown n.directory) (fun _ => .rest) n.stopUdp.directory := by
  rw [perform_udp]
  unfold stopUdp
  obtain ⟨directory, handlers, timeout, udp, tcp, ticket⟩ := n
  cases udp with
  | none => rfl
  | some t => rfl

theorem stopTcp_eq_perform (n : Node) (now transport : Nat) : n.stopTcp now transport =
    n.perform now .rest (.only transport .shutDown) n.directory := by
  unfold stopTcp
  cases ht : n.tcp[transport]? with
  | none => rw [perform_only_of_none ht]
  | some t => rw [perform_only ht]; rfl

theorem handshakesDue_eq_perform (n : Node) (now : Nat) :
    n.handshakesDue now = n.perform now .rest (fun _ => .handshakesDue) n.directory := by
  have h := TcpTransport.foldl_eq_actAll now (a := .handshakesDue)
    (f := (·.handshakesDue · now)) (fun _ _ => rfl) n.tcp [] n.directory
  rw [List.append_nil] at h
  show { n with tcp := List.reverse (Prod.fst _), directory := Prod.snd _ } = _
  rw [h, perform_tcp]
  dsimp only
  rw [List.reverse_reverse]

theorem shutDown_eq_perform (n : Node) (now : Nat) : n.shutDown now =
    n.perform now (.shutDown n.directory) (fun _ => .shutDown) n.stopUdp.directory := by
  have h (ts : List TcpTransport) (d : Directory) :=
    TcpTransport.foldl_eq_actAll now (a := .shutDown) (f := (·.shutDown · now)) (fun _ _ => rfl)
      ts [] d
  simp only [List.append_nil] at h
  obtain ⟨directory, handlers, timeout, udp, tcp, ticket⟩ := n
  cases udp with
  | none =>
    show Node.mk (Prod.snd _) handlers timeout none (List.reverse (Prod.fst _)) ticket = _
    rw [h, List.reverse_reverse]
    rfl
  | some t =>
    show Node.mk (Prod.snd _) handlers timeout (some _) (List.reverse (Prod.fst _)) ticket = _
    rw [h, List.reverse_reverse]
    rfl

/-- Every event has each transport act, and may change what else there is of the directory. -/
theorem step_eq (n : Node) (now : Nat) (e : Event) :
    ∃ ticket, (n.step now e).1 =
      { n.perform now (n.act e) (n.tcpActs e) (n.found now e) with
        handlers := e.handlers n.handlers, nextTicket := ticket } := by
  -- Some events ask no transport for anything, and others ask just one of them.
  have hrest {n' : Node} (h : n' = { n with
        directory := n'.directory, handlers := n'.handlers, nextTicket := n'.nextTicket }) :
      ∃ ticket, n' = { n.perform now .rest (fun _ => .rest) n'.directory with
        handlers := n'.handlers, nextTicket := ticket } := by
    rw [perform_rest]
    exact ⟨_, h⟩
  have hone {f : TcpTransport → TcpTransport} {a : TcpTransport.Act}
      (ha : ∀ t, TcpTransport.act t n.directory now a = (f t, n.directory)) (k : Nat) :
      ∃ ticket, n.onTcp k f =
        { n.perform now .rest (.only k a) n.directory with nextTicket := ticket } :=
    ⟨n.nextTicket, (perform_modify ha n k).symm⟩
  cases e with
  | datagram bs source => exact ⟨_, n.receiveDatagram_eq_perform now bs source⟩
  | opened transport a => exact hone (fun _ => rfl) transport
  | bytes c bs ended => exact ⟨_, n.receiveBytes_eq_perform now c bs ended⟩
  | handshakesDue => exact ⟨_, n.handshakesDue_eq_perform now⟩
  | bound transport => exact hone (fun _ => rfl) transport
  | pause transport => exact hone (fun _ => rfl) transport
  | retryDue transport => exact hone (fun _ => rfl) transport
  | send receiver body reliable =>
    show ∃ ticket, (n.send now receiver body reliable).1 = _
    rw [send, act, tcpActs]
    cases n.directory.routes.delivery n.id receiver body reliable with
    | via route e => exact ⟨_, n.sendBy_eq_perform now reliable e route⟩
    | nothing result => exact hrest rfl
  | sendBy route e reliable => exact ⟨_, n.sendBy_eq_perform now reliable e route⟩
  | broadcast body => exact ⟨_, n.broadcast_eq_perform now body⟩
  | announce => exact ⟨_, n.announce_eq_perform now⟩
  | updateIdentity change =>
    show ∃ ticket, (n.updateIdentity change).1 =
      { n.perform now _ _ (n.updateIdentity change).1.directory with nextTicket := ticket }
    rw [updateIdentity, act, tcpActs]
    cases n.directory.identity.update (change n.directory.identity) with
    | error e => exact hrest rfl
    | ok i => exact ⟨_, announce_eq_perform _ now⟩
  | announceDue => exact ⟨_, (n.perform_udp now (n.act .announceDue) n.directory).symm⟩
  | resendDue => exact ⟨_, (n.perform_udp now (n.act .resendDue) n.directory).symm⟩
  | prune maxAge => exact ⟨_, (n.perform_udp now (n.act (.prune maxAge)) n.directory).symm⟩
  | forgetPeers => exact ⟨_, n.forgetPeers_eq_perform now⟩
  | stopUdp => exact ⟨_, n.stopUdp_eq_perform now⟩
  | stopTcp transport => exact ⟨_, n.stopTcp_eq_perform now transport⟩
  | shutDown => exact ⟨_, n.shutDown_eq_perform now⟩
  | register h => exact hrest rfl
  | deregister kind => exact hrest rfl
  | dispatch m =>
    show ∃ ticket, (n.dispatch now m).1 = _
    rw [dispatch_fst]
    exact hrest rfl
  | learn i => exact hrest rfl
  | expireHeld => exact hrest rfl

inductive Asks (k : Nat) : Event → TcpTransport.Act → Prop
  | opened (a : SocketAddress) : Asks k (.opened k a) (.opened a)
  | receive (number : Nat) (bs : Bytes) (ended : Bool) :
    Asks k (.bytes ⟨k, number⟩ bs ended) (.receive number bs ended)
  | handshakesDue : Asks k .handshakesDue .handshakesDue
  | stopTcp : Asks k (.stopTcp k) .shutDown
  | shutDown : Asks k .shutDown .shutDown
  | message (e : Event) (number : Nat) (m : Envelope) : Asks k e (.write number (.message m))
  | plain (e : Event) {a : TcpTransport.Act} (ha : a.IsPlain) : Asks k e a

theorem asks_tcpActs (n : Node) (e : Event) (k : Nat) : Asks k e (n.tcpActs e k) := by
  have honly {j : Nat} {e : Event} {a : TcpTransport.Act} (h : j = k → Asks k e a) :
      Asks k e (TcpTransport.Act.only j a k) := by
    unfold TcpTransport.Act.only
    split
    · exact h (Eq.symm ‹_›)
    · exact .plain e trivial
  have hsend (e : Event) (m : Envelope) (route : Route) : Asks k e (tcpSendActs m route k) := by
    cases route with
    | udp peer endpoint => exact .plain e trivial
    | tcp peer c => exact honly fun _ => .message e c.number m
  cases e with
  | opened transport a => exact honly fun h => h ▸ .opened a
  | bytes c bs ended => exact honly fun h => h ▸ .receive c.number bs ended
  | handshakesDue => exact .handshakesDue
  | bound transport => exact honly fun _ => .plain _ trivial
  | pause transport => exact honly fun _ => .plain _ trivial
  | retryDue transport => exact honly fun _ => .plain _ trivial
  | send receiver body reliable =>
    rw [tcpActs]
    cases n.directory.routes.delivery n.id receiver body reliable with
    | via route m => exact hsend _ m route
    | nothing result => exact .plain _ trivial
  | sendBy route m reliable => exact hsend _ m route
  | updateIdentity change =>
    rw [tcpActs]
    cases n.directory.identity.update (change n.directory.identity) with
    | error e => exact .plain _ trivial
    | ok i => exact .plain _ trivial
  | stopTcp transport => exact honly fun h => h ▸ .stopTcp
  | shutDown => exact .shutDown
  | _ => exact .plain _ trivial

inductive Finds (n : Node) (now : Nat) : Event → Directory → Prop
  | datagram {t : UdpTransport} (hu : n.udp = some t) (bs : Bytes) (source : SocketAddress) :
    Finds n now (.datagram bs source) (t.receive n.directory now bs source).directory
  | forgotten {t : UdpTransport} (hu : n.udp = some t) (e : Event) :
    Finds n now e (t.forgetPeers n.directory).2
  | same (e : Event) {d : Directory} (h : d.routes = n.directory.routes) : Finds n now e d

theorem finds_stopUdp (n : Node) (now : Nat) (e : Event) :
    n.Finds now e n.stopUdp.directory := by
  unfold stopUdp
  cases hu : n.udp with
  | none => exact .same e rfl
  | some t => exact .forgotten hu e

theorem finds_found (n : Node) (now : Nat) (e : Event) : n.Finds now e (n.found now e) := by
  cases e with
  | datagram bs source =>
    show n.Finds now _ (n.receiveDatagram now bs source).1.directory
    unfold receiveDatagram
    cases hu : n.udp with
    | none => exact .same _ rfl
    | some t => exact .datagram hu bs source
  | updateIdentity change =>
    show n.Finds now _ (n.updateIdentity change).1.directory
    unfold updateIdentity
    split
    · exact .same _ rfl
    · exact .same _ rfl
  | forgetPeers =>
    show n.Finds now _ n.forgetPeers.directory
    unfold forgetPeers
    cases hu : n.udp with
    | none => exact .same _ rfl
    | some t => exact .forgotten hu _
  | stopUdp => exact n.finds_stopUdp now _
  | shutDown => exact n.finds_stopUdp now _
  | _ => exact .same _ rfl

/-- Every event is one act of the datagram transport. -/
theorem udp_step (n : Node) (now : Nat) (e : Event) :
    (n.step now e).1.udp = n.udp.map (·.act now (n.act e)) := by
  obtain ⟨ticket, h⟩ := n.step_eq now e
  rw [h]
  rfl

/-- Every event is one act of each connection transport. -/
theorem tcp_step (n : Node) (now : Nat) (e : Event) :
    ((n.step now e).1.tcp, (n.step now e).1.directory) =
      TcpTransport.actAll now (n.tcpActs e) n.tcp (n.found now e) := by
  obtain ⟨ticket, h⟩ := n.step_eq now e
  rw [h]
  rfl

theorem identity_step (n : Node) (now : Nat) (e : Event) :
    (n.step now e).1.directory.identity = (n.found now e).identity := by
  have hd := congrArg (fun s => s.2.identity) (n.tcp_step now e)
  exact hd.trans (TcpTransport.identity_actAll now _ n.tcp _)

theorem handlers_step (n : Node) (now : Nat) (e : Event) :
    (n.step now e).1.handlers = e.handlers n.handlers := by
  obtain ⟨ticket, h⟩ := n.step_eq now e
  rw [h]

theorem sendAct_sends (n : Node) (e : Envelope) (reliable : Bool) (route : Route) :
    (n.sendAct e reliable route).IsSettled ∧ (n.sendAct e reliable route).IsFresh := by
  cases route with
  | tcp peer c => exact ⟨trivial, trivial⟩
  | udp peer endpoint =>
    cases reliable with
    | false => exact ⟨trivial, trivial⟩
    | true => exact ⟨trivial, trivial⟩

theorem act_of_isQuiet (n : Node) {e : Event} (he : e.IsQuiet) :
    (n.act e).IsSettled ∧ (e ≠ .resendDue → (n.act e).IsFresh) := by
  have hboth {a : UdpTransport.Act} (h : a.IsSettled ∧ a.IsFresh) :
      a.IsSettled ∧ (e ≠ .resendDue → a.IsFresh) := ⟨h.1, fun _ => h.2⟩
  cases e with
  | send receiver body reliable =>
    rw [act]
    split
    · exact hboth (n.sendAct_sends _ reliable _)
    · exact hboth ⟨trivial, trivial⟩
  | sendBy route e reliable => exact hboth (n.sendAct_sends e reliable route)
  | updateIdentity change =>
    rw [act]
    split
    · exact hboth ⟨trivial, trivial⟩
    · exact hboth ⟨trivial, trivial⟩
  | resendDue => exact ⟨trivial, fun h => absurd rfl h⟩
  | datagram bs source => exact he.elim
  | forgetPeers => exact he.elim
  | stopUdp => exact he.elim
  | shutDown => exact he.elim
  | _ => exact hboth ⟨trivial, trivial⟩

def Event.Stops : Event → Prop
  | stopUdp | shutDown => True
  | _ => False

theorem act_isFresh (n : Node) {e : Event} (he : ¬ e.Stops) (hr : e ≠ .resendDue) :
    (n.act e).IsFresh := by
  have hquiet (hq : e.IsQuiet) : (n.act e).IsFresh := (n.act_of_isQuiet hq).2 hr
  cases e with
  | datagram bs source => trivial
  | bytes c bs ended => trivial
  | handshakesDue => trivial
  | forgetPeers => trivial
  | stopUdp => exact absurd trivial he
  | stopTcp transport => trivial
  | shutDown => exact absurd trivial he
  | dispatch m => trivial
  | learn i => trivial
  | expireHeld => trivial
  | _ => exact hquiet trivial

theorem reliable?_cases {n : Node} {e : Event} {endpoint : EndpointId} {message : Envelope}
    (h : n.reliable? e = some (endpoint, message)) : ∃ peer,
      (∃ receiver body, e = .send receiver body true ∧
        n.directory.routes.delivery n.id receiver body true = .via (.udp peer endpoint) message) ∨
      e = .sendBy (.udp peer endpoint) message true := by
  unfold reliable? at h
  split at h
  · rename_i receiver body
    split at h
    · rename_i peer _ _ hd
      cases h
      exact ⟨peer, .inl ⟨receiver, body, rfl, hd⟩⟩
    · cases h
  · rename_i peer _ _
    cases h
    exact ⟨peer, .inr rfl⟩
  · cases h

theorem act_of_reliable? {n : Node} {e : Event} {endpoint : EndpointId} {message : Envelope}
    (h : n.reliable? e = some (endpoint, message)) :
    n.act e = .sendReliable n.id endpoint message := by
  obtain ⟨peer, ⟨receiver, body, rfl, hd⟩ | rfl⟩ := reliable?_cases h
  · rw [act, hd]
    rfl
  · rfl

theorem after_append (n : Node) (events more : List (Nat × Event)) :
    n.after (events ++ more) = (n.after events).after more :=
  List.foldl_append

theorem after_extends {n : Node} {t : UdpTransport} (hu : n.udp = some t)
    (events : List (Nat × Event)) :
    ∃ t', (n.after events).udp = some t' ∧ t.ids.packets.Extends t'.ids.packets := by
  induction events generalizing n t with
  | nil => exact ⟨t, hu, rfl, Nat.le_refl _⟩
  | cons e events ih =>
    have hstep := n.udp_step e.1 e.2
    rw [hu, Option.map_some] at hstep
    have ha := t.act_extends e.1 (n.act e.2)
    obtain ⟨t', ht', h⟩ := ih hstep
    exact ⟨t', ht', h.draw.trans ha.draw, Nat.le_trans ha.used h.used⟩

theorem isFresh_of_after {n : Node} {t t' : UdpTransport} (hu : n.udp = some t)
    {events : List (Nat × Event)} (hu' : (n.after events).udp = some t')
    (h : t'.ids.packets.IsFresh) : t.ids.packets.IsFresh := by
  obtain ⟨t'', ht'', he⟩ := after_extends hu events
  cases hu'.symm.trans ht''
  exact he.isFresh h

end Node

end PeerMesh

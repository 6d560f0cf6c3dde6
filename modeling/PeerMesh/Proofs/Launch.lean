import PeerMesh.Proofs.Consistency
import PeerMesh.Proofs.OwnIdentity
import PeerMesh.Proofs.Steps

namespace PeerMesh

namespace TcpTransport

/-- The transport is shut down and holds no connection. -/
structure IsClosed (t : TcpTransport) : Prop where
  activity : t.activity = .stopped
  connections : t.connections = .empty

namespace IsClosed

variable {t : TcpTransport} (h : t.IsClosed)
include h

theorem isStopped : t.isStopped := by
  rw [TcpTransport.isStopped, h.activity]
  rfl

theorem get? (number : Nat) : t.connections.get? number = none := by
  rw [h.connections]
  rfl

theorem bound : t.bound = t :=
  if_pos h.isStopped

theorem pause (now : Nat) : t.pause now = t :=
  if_pos h.isStopped

theorem retryDue (now : Nat) : t.retryDue now = t := by
  rw [TcpTransport.retryDue, h.activity]

theorem opened (self : Identity) (a : SocketAddress) (now : Nat) : t.opened self a now = t :=
  if_pos h.isStopped

theorem write (number : Nat) (p : Payload) : (t.write number p).1 = t := by
  rw [TcpTransport.write, h.get?]

theorem writeAll (p : Payload) : t.writeAll p = t := by
  rw [TcpTransport.writeAll, established, h.connections]
  rfl

theorem broadcast (e : Envelope) : (t.broadcast e).1 = t := by
  rw [TcpTransport.broadcast, if_pos h.isStopped]

theorem receive (d : Directory) (number now : Nat) (bs : Bytes) (ended : Bool) :
    (t.receive d number now bs ended).transport = t := by
  rw [TcpTransport.receive, h.get?]

theorem handshakesDue (d : Directory) (now : Nat) : t.handshakesDue d now = (t, d) := by
  rw [TcpTransport.handshakesDue, h.connections]
  rfl

theorem shutDown (d : Directory) (now : Nat) : t.shutDown d now = (t, d) := by
  obtain ⟨config, index, activity, connections, next⟩ := t
  obtain ⟨rfl, rfl⟩ := h
  rfl

theorem act (d : Directory) (now : Nat) (a : Act) : (t.act d now a).1 = t := by
  cases a with
  | rest => rfl
  | opened a => exact h.opened d.identity a now
  | receive number bs ended => exact h.receive d number now bs ended
  | handshakesDue => exact congrArg Prod.fst (h.handshakesDue d now)
  | bound => exact h.bound
  | pause => exact h.pause now
  | retryDue => exact h.retryDue now
  | write number p => exact h.write number p
  | announce => exact h.writeAll _
  | broadcast e => exact h.broadcast e
  | shutDown => exact congrArg Prod.fst (h.shutDown d now)

end IsClosed

theorem get?_foldl_close {numbers : List Nat} {m : Nat} {s : TcpTransport × Directory} (now : Nat)
    (h : s.1.connections.get? m = none ∨ m ∈ numbers) :
    (numbers.foldl (fun s number => s.1.close s.2 number now) s).1.connections.get? m = none := by
  induction numbers generalizing s with
  | nil => exact h.resolve_right List.not_mem_nil
  | cons number numbers ih =>
    refine ih ?_
    by_cases hm : m = number
    · subst hm
      exact .inl (s.1.get?_close s.2 m now)
    · rw [(s.1.close_changes s.2 number now).others m hm]
      exact h.imp_right fun hmem => (List.mem_cons.mp hmem).resolve_left hm

theorem shutDown_isClosed (t : TcpTransport) (d : Directory) (now : Nat) :
    (t.shutDown d now).1.IsClosed := by
  refine ⟨rfl, KeyedList.eq_empty fun m => get?_foldl_close now ?_⟩
  cases hc : t.connections.get? m with
  | none => exact .inl rfl
  | some c => exact .inr ((t.connections.mem_keys_iff m).mpr ⟨c, hc⟩)

end TcpTransport

namespace UdpTransport

/-- The transport is shut down and has no route. -/
structure IsClosed (t : UdpTransport) : Prop where
  stopped : t.isStopped
  contexts : t.contexts = .empty

def Act.IsMute : Act → Prop
  | receive _ _ _ | sendReliable _ _ _ | sendUnreliable _ _ _ | broadcast _ _ | announce _ => False
  | _ => True

theorem IsClosed.act {t : UdpTransport} (h : t.IsClosed) (now : Nat) {a : Act} (ha : a.IsMute) :
    (t.act now a).IsClosed ∧ (t.act now a).link = t.link := by
  cases a with
  | announceDue i =>
    rw [UdpTransport.act, announceDue_of_isStopped h.stopped]
    exact ⟨h, rfl⟩
  | resendDue =>
    rw [UdpTransport.act, resendDue_of_isStopped h.stopped]
    exact ⟨h, rfl⟩
  | rest => exact ⟨h, rfl⟩
  | prune maxAge => exact ⟨⟨h.stopped, h.contexts⟩, rfl⟩
  | forgetPeers d => exact ⟨⟨h.stopped, rfl⟩, rfl⟩
  | shutDown d => exact ⟨⟨rfl, rfl⟩, rfl⟩
  | _ => exact ha.elim

end UdpTransport

namespace Node

/-- The event may happen to a node that no one has got yet: no one asks it for anything to be sent,
and datagrams come only as long as the datagram transport runs. -/
def Event.IsUnasked (n : Node) : Event → Prop
  | datagram _ _ => ¬ n.udp.any UdpTransport.isStopped
  | send _ _ _ | sendBy _ _ _ | broadcast _ | announce | updateIdentity _ => False
  | _ => True

/-- What belongs together in a node does so. -/
structure IsCoherent (n : Node) : Prop where
  consistent : n.IsConsistent
  wired : n.IsWired
  lists : n.directory.Lists n.contexts

def configs (n : Node) : List TcpConfig :=
  n.tcp.map TcpTransport.config

variable {n : Node}

theorem IsCoherent.step (h : n.IsCoherent) (now : Nat) (e : Event) :
    (n.step now e).1.IsCoherent :=
  ⟨h.consistent.step h.wired h.lists now e, h.wired.moves (step_moves h.wired h.lists now e),
    (n.step_keeps now e).lists h.lists⟩

theorem IsCoherent.configs_step (h : n.IsCoherent) (now : Nat) (e : Event) :
    (n.step now e).1.configs = n.configs := by
  have hmoves := step_moves h.wired h.lists now e
  refine List.ext_getElem? fun k => ?_
  rw [configs, configs, List.getElem?_map, List.getElem?_map]
  cases ht : n.tcp[k]? with
  | none =>
    have hk := List.getElem?_eq_none_iff.mp ht
    rw [List.getElem?_eq_none_iff.mpr (hmoves.length ▸ hk)]
  | some t =>
    obtain ⟨t', ht', hm⟩ := hmoves.transport k t ht
    rw [ht']
    exact congrArg some hm.config

theorem isSome_udp_step (n : Node) (now : Nat) (e : Event) :
    (n.step now e).1.udp.isSome = n.udp.isSome := by
  rw [udp_step, Option.isSome_map]

theorem IsCoherent.startTcp (h : n.IsCoherent) (config : TcpConfig) :
    IsCoherent { n with tcp := n.tcp ++ [{ config, index := n.tcp.length }] } := by
  have hlast {k : Nat} {t : TcpTransport}
      (ht : (n.tcp ++ [({ config, index := n.tcp.length } : TcpTransport)])[k]? = some t) :
      n.tcp[k]? = some t ∨ k = n.tcp.length ∧ t = { config, index := n.tcp.length } := by
    obtain hk | hk := Nat.lt_or_ge k n.tcp.length
    · exact .inl (List.getElem?_append_left hk ▸ ht)
    · rw [List.getElem?_append_right hk, List.getElem?_singleton] at ht
      split at ht
      · cases ht
        exact .inr ⟨by omega, rfl⟩
      · cases ht
  refine ⟨⟨h.consistent.tidy, h.consistent.filed, fun q p c hr => ?_⟩,
    ⟨fun k t ht => ?_, fun k t ht => ?_⟩, h.lists⟩
  · have hlt := h.consistent.held q p c hr
    rw [List.length_append]
    exact Nat.lt_add_right _ hlt
  · obtain ht | ⟨rfl, rfl⟩ := hlast ht
    · exact h.wired.index k t ht
    · rfl
  · obtain ht | ⟨rfl, rfl⟩ := hlast ht
    · exact h.wired.serves k t ht
    · refine ⟨h.lists.nodup, fun _ _ => rfl,
        fun number q p => ⟨fun hr => ?_, fun hp => nomatch hp.2⟩⟩
      exact absurd (h.consistent.held q p _ hr) (Nat.lt_irrefl _)

theorem getElem?_tcp_step {k : Nat} {t : TcpTransport} (ht : n.tcp[k]? = some t)
    (h : t.IsClosed) (now : Nat) (e : Event) : (n.step now e).1.tcp[k]? = some t := by
  have htcp : (n.step now e).1.tcp = _ := congrArg Prod.fst (n.tcp_step now e)
  obtain ⟨-, hturn⟩ := @TcpTransport.actAll_keeps now (n.tcpActs e) n.tcp (fun _ => True)
    (fun _ _ _ _ _ => trivial) (n.found now e) trivial
  obtain ⟨d, -, hk⟩ := hturn k
  rw [htcp, hk, ht, Option.map_some, h.act]

/-- A transport of a node. -/
inductive Part where
  | udp
  | tcp (transport : Nat)
deriving DecidableEq

def Part.stop : Part → Event
  | udp => .stopUdp
  | tcp transport => .stopTcp transport

def parts (n : Node) : List Part :=
  (n.udp.toList.map fun _ => .udp) ++ (List.range n.tcp.length).map .tcp

def HasClosed (n : Node) : Part → Prop
  | .udp => ∃ t, n.udp = some t ∧ t.IsClosed
  | .tcp transport => ∃ t, n.tcp[transport]? = some t ∧ t.IsClosed

theorem udp_mem_parts : .udp ∈ n.parts ↔ n.udp.isSome := by
  unfold parts
  cases n.udp with
  | none => simp
  | some t => simp

theorem tcp_mem_parts {transport : Nat} :
    .tcp transport ∈ n.parts ↔ transport < n.tcp.length := by
  unfold parts
  cases n.udp with
  | none => simp
  | some t => simp

theorem parts_eq_nil_iff : n.parts = [] ↔ n.udp = none ∧ n.tcp = [] := by
  unfold parts
  cases n.udp with
  | none => simp
  | some t => simp

theorem length_parts_le (n : Node) : n.parts.length ≤ n.tcp.length + 1 := by
  unfold parts
  cases n.udp with
  | none => simp
  | some t => simp

theorem IsCoherent.parts_step (h : n.IsCoherent) (now : Nat) (e : Event) :
    (n.step now e).1.parts = n.parts := by
  have hudp := n.udp_step now e
  unfold parts
  rw [(step_moves h.wired h.lists now e).length, hudp]
  cases n.udp with
  | none => rfl
  | some t => rfl

theorem isMute_of_isUnasked {e : Event} (he : e.IsUnasked n) {t : UdpTransport}
    (hu : n.udp = some t) (ht : t.isStopped) : (n.act e).IsMute := by
  cases e with
  | datagram bs source =>
    refine absurd ?_ he
    rw [hu, Option.any_some]
    exact ht
  | send receiver body reliable => exact he.elim
  | sendBy route e reliable => exact he.elim
  | broadcast body => exact he.elim
  | announce => exact he.elim
  | updateIdentity change => exact he.elim
  | _ => exact trivial

theorem HasClosed.step {p : Part} (h : n.HasClosed p) (now : Nat) {e : Event}
    (he : e.IsUnasked n) : (n.step now e).1.HasClosed p := by
  cases p with
  | udp =>
    obtain ⟨t, hu, ht⟩ := h
    refine ⟨t.act now (n.act e), ?_, (ht.act now (isMute_of_isUnasked he hu ht.stopped)).1⟩
    rw [udp_step, hu, Option.map_some]
  | tcp transport =>
    obtain ⟨t, hk, ht⟩ := h
    exact ⟨t, getElem?_tcp_step hk ht now e, ht⟩

theorem hasClosed_stop {p : Part} (h : p ∈ n.parts) (now : Nat) :
    (n.step now p.stop).1.HasClosed p := by
  cases p with
  | udp =>
    obtain ⟨t, hu⟩ := Option.isSome_iff_exists.mp (udp_mem_parts.mp h)
    refine ⟨(t.shutDown n.directory).1, ?_, ⟨rfl, rfl⟩⟩
    show n.stopUdp.udp = _
    rw [stopUdp_eq hu]
  | tcp transport =>
    have hk := tcp_mem_parts.mp h
    refine ⟨(n.tcp[transport].shutDown n.directory now).1, ?_,
      n.tcp[transport].shutDown_isClosed n.directory now⟩
    show (n.stopTcp now transport).tcp[transport]? = _
    rw [stopTcp, List.getElem?_eq_getElem hk]
    exact List.getElem?_set_self hk

/-- All transports of the node are closed. -/
def IsDown (n : Node) : Prop :=
  ∀ p ∈ n.parts, n.HasClosed p

theorem IsDown.udp (h : n.IsDown) {t : UdpTransport} (hu : n.udp = some t) : t.IsClosed := by
  obtain ⟨t', hu', ht'⟩ := h .udp (udp_mem_parts.mpr (Option.isSome_iff_exists.mpr ⟨t, hu⟩))
  cases hu.symm.trans hu'
  exact ht'

theorem IsDown.tcp (h : n.IsDown) {k : Nat} {t : TcpTransport} (hk : n.tcp[k]? = some t) :
    t.IsClosed := by
  obtain ⟨t', hk', ht'⟩ := h (.tcp k) (tcp_mem_parts.mpr (List.getElem?_eq_some_iff.mp hk).1)
  cases hk.symm.trans hk'
  exact ht'

theorem IsDown.step (h : n.IsDown) (hc : n.IsCoherent) (now : Nat) {e : Event}
    (he : e.IsUnasked n) : (n.step now e).1.IsDown := by
  intro p hp
  rw [hc.parts_step now e] at hp
  exact (h p hp).step now he

theorem IsDown.frame (h : n.IsDown) (hc : n.IsCoherent) (now : Nat) {e : Event}
    (he : e.IsUnasked n) :
    (n.step now e).1.udp.map UdpTransport.link = n.udp.map UdpTransport.link ∧
      (n.step now e).1.tcp = n.tcp := by
  constructor
  · rw [udp_step]
    cases hu : n.udp with
    | none => rfl
    | some t =>
      have ht := h.udp hu
      exact congrArg some (ht.act now (isMute_of_isUnasked he hu ht.stopped)).2
  · refine List.ext_getElem? fun k => ?_
    cases hk : n.tcp[k]? with
    | none =>
      have hlength := (step_moves hc.wired hc.lists now e).length
      exact List.getElem?_eq_none_iff.mpr (hlength ▸ List.getElem?_eq_none_iff.mp hk)
    | some t => exact getElem?_tcp_step hk (h.tcp hk) now e

theorem IsDown.routesTo (h : n.IsDown) (hc : n.IsCoherent) (q : PeerId) :
    n.directory.routes.routesTo q = [] := by
  refine List.eq_nil_iff_forall_not_mem.mpr fun r hr => ?_
  cases r with
  | udp p endpoint =>
    have hp := ((hc.lists.udp q p endpoint).mp hr).2
    unfold contexts at hp
    cases hu : n.udp with
    | none =>
      rw [hu] at hp
      cases hp
    | some t =>
      rw [hu] at hp
      dsimp only at hp
      rw [(h.udp hu).contexts] at hp
      cases hp
  | tcp p c =>
    obtain ⟨-, t, ht, hp⟩ := (hc.consistent.tcp_mem_routesTo hc.wired).mp hr
    rw [TcpTransport.mem_established, TcpTransport.peer?, (h.tcp ht).get?] at hp
    cases hp

end Node

/-- Why the datagram transport of a node does not start, if there is to be one. -/
def NodeSetup.udpFault (s : NodeSetup) : Option StartError :=
  s.udp.bind fun u =>
    match u.config.check, u.network with
    | .error cause, _ => some (.config cause)
    | .ok (), .error fault => some (.io fault)
    | .ok (), .ok _ => none

/-- The first configuration that is refused is the `k`th, for this reason. -/
structure TcpConfig.FirstInvalid (cs : List TcpConfig) (k : Nat) (cause : ConfigError) : Prop where
  valid : ∀ c ∈ cs.take k, c.check = .ok ()
  invalid : ∃ c, cs[k]? = some c ∧ c.check = .error cause

namespace TcpConfig.FirstInvalid

variable {cs : List TcpConfig} {k k' : Nat} {cause cause' : ConfigError}

theorem le (h : FirstInvalid cs k cause) (h' : FirstInvalid cs k' cause') : k ≤ k' := by
  obtain ⟨c, hc, he⟩ := h'.invalid
  refine Nat.le_of_not_lt fun hlt => ?_
  have hmem : c ∈ cs.take k :=
    List.mem_of_getElem? ((List.getElem?_take_of_lt hlt).trans hc)
  cases (h.valid c hmem).symm.trans he

theorem unique (h : FirstInvalid cs k cause) (h' : FirstInvalid cs k' cause') :
    k = k' ∧ cause = cause' := by
  obtain rfl := Nat.le_antisymm (h.le h') (h'.le h)
  obtain ⟨c, hc, he⟩ := h.invalid
  obtain ⟨c', hc', he'⟩ := h'.invalid
  cases hc.symm.trans hc'
  cases he.symm.trans he'
  exact ⟨rfl, rfl⟩

theorem not_all_valid (h : FirstInvalid cs k cause) : ¬ ∀ c ∈ cs, c.check = .ok () := by
  obtain ⟨c, hc, he⟩ := h.invalid
  intro hall
  cases (hall c (List.mem_of_getElem? hc)).symm.trans he

end TcpConfig.FirstInvalid

/-- How far a start is. -/
inductive Launch.Stage where
  | starting (configs : List TcpConfig)
  | stopping (error : StartError) (parts : List Node.Part)
  | started
  | failed (error : StartError)

/-- A node that is being started. -/
structure Launch where
  node : Node
  stage : Launch.Stage

namespace Launch

/-- The start goes on, or something happens meanwhile. -/
inductive Move where
  | proceed (now : Nat)
  | meanwhile (now : Nat) (e : Node.Event)

def initial (s : NodeSetup) (now : Nat) : Launch :=
  let n : Node :=
    { directory := { identity := s.identity }, discoveryTimeout := s.inbound.discoveryTimeout }
  match s.udp with
  | none => ⟨n, .starting s.tcp⟩
  | some u =>
    match n.startUdp u now with
    | .error e => ⟨n, .failed e⟩
    | .ok n => ⟨n, .starting s.tcp⟩

def proceed (l : Launch) (now : Nat) : Launch :=
  match l.stage with
  | .starting [] => { l with stage := .started }
  | .starting (c :: cs) =>
    match l.node.startTcp c with
    | .ok n => ⟨n, .starting cs⟩
    | .error e => { l with stage := .stopping e l.node.parts }
  | .stopping e [] => { l with stage := .failed e }
  | .stopping e (p :: ps) => ⟨(l.node.step now p.stop).1, .stopping e ps⟩
  | .started => l
  | .failed _ => l

def step (l : Launch) : Move → Launch
  | .proceed now => l.proceed now
  | .meanwhile now e => { l with node := (l.node.step now e).1 }

def run (l : Launch) (moves : List Move) : Launch :=
  moves.foldl step l

def proceeds : List Move → Nat
  | [] => 0
  | .proceed _ :: moves => proceeds moves + 1
  | .meanwhile _ _ :: moves => proceeds moves

/-- The move may be made while no one has got the node. -/
def Move.IsOrderly (n : Node) : Move → Prop
  | .proceed _ => True
  | .meanwhile _ e => e.IsUnasked n

def IsOrderly (l : Launch) : List Move → Prop
  | [] => True
  | m :: moves => m.IsOrderly l.node ∧ (l.step m).IsOrderly moves

structure Has (s : NodeSetup) (k : Nat) (n : Node) : Prop where
  coherent : n.IsCoherent
  fault : s.udpFault = none
  udp : n.udp.isSome = s.udp.isSome
  configs : n.configs = s.tcp.take k
  valid : ∀ c ∈ s.tcp.take k, c.check = .ok ()

inductive Launches (s : NodeSetup) : Launch → Prop
  | starting {n : Node} {k : Nat} {cs : List TcpConfig} (h : Has s k n)
    (hs : s.tcp.drop k = cs) : Launches s ⟨n, .starting cs⟩
  | stopping {n : Node} {k : Nat} {cause : ConfigError} {parts : List Node.Part} (h : Has s k n)
    (hk : TcpConfig.FirstInvalid s.tcp k cause)
    (hp : ∀ p ∈ n.parts, p ∈ parts ∨ n.HasClosed p) :
    Launches s ⟨n, .stopping (.config cause) parts⟩
  | started {n : Node} (h : Has s s.tcp.length n) : Launches s ⟨n, .started⟩
  | failed {n : Node} {k : Nat} {cause : ConfigError} (h : Has s k n)
    (hk : TcpConfig.FirstInvalid s.tcp k cause) (hd : n.IsDown) :
    Launches s ⟨n, .failed (.config cause)⟩
  | refused {n : Node} {e : StartError} (hc : n.IsCoherent) (hf : s.udpFault = some e)
    (hn : n.parts = []) : Launches s ⟨n, .failed e⟩

variable {s : NodeSetup} {k : Nat} {n : Node}

theorem Has.step (h : Has s k n) (now : Nat) (e : Node.Event) : Has s k (n.step now e).1 :=
  ⟨h.coherent.step now e, h.fault, (n.isSome_udp_step now e).trans h.udp,
    (h.coherent.configs_step now e).trans h.configs, h.valid⟩

theorem Has.startTcp (h : Has s k n) {c : TcpConfig} (hk : s.tcp[k]? = some c)
    (hc : c.check = .ok ()) :
    Has s (k + 1) { n with tcp := n.tcp ++ [{ config := c, index := n.tcp.length }] } := by
  have htake : s.tcp.take (k + 1) = s.tcp.take k ++ [c] := by
    rw [List.take_add_one, hk]
    rfl
  refine ⟨h.coherent.startTcp c, h.fault, h.udp, ?_, ?_⟩
  · rw [htake, ← h.configs]
    exact List.map_append
  · rw [htake]
    exact List.forall_mem_append.mpr ⟨h.valid, List.forall_mem_singleton.mpr hc⟩

theorem udpFault_of_udp_none (h : s.udp = none) : s.udpFault = none := by
  rw [NodeSetup.udpFault, h]
  rfl

/-- The datagram transport starts unless there is a fault. -/
theorem startUdp_udpFault {u : UdpSetup} (h : s.udp = some u) (n : Node) (now : Nat) :
    match n.startUdp u now with
    | .error e => s.udpFault = some e
    | .ok _ => s.udpFault = none := by
  rw [NodeSetup.udpFault, h, Option.bind_some, Node.startUdp]
  cases u.config.check with
  | error cause => rfl
  | ok _ =>
    cases u.network with
    | error fault => rfl
    | ok link => rfl

theorem isCoherent_of_start {now : Nat} (h : Node.start s now = .ok n) : n.IsCoherent :=
  ⟨Node.isConsistent_of_start h, Node.isWired_of_start h, (Node.isNew_of_start h).lists⟩

theorem launches_initial (s : NodeSetup) (now : Nat) : Launches s (initial s now) := by
  unfold initial
  dsimp only
  split
  · rename_i hu
    have hstart : Node.start { s with udp := none, tcp := [] } now = .ok _ := rfl
    exact .starting (k := 0) ⟨isCoherent_of_start hstart, udpFault_of_udp_none hu,
      (congrArg Option.isSome hu).symm, rfl, nofun⟩ rfl
  · rename_i u hu
    have hfault := startUdp_udpFault hu {
      directory := { identity := s.identity }
      discoveryTimeout := s.inbound.discoveryTimeout } now
    split
    · rename_i e he
      rw [he] at hfault
      have hstart : Node.start { s with udp := none, tcp := [] } now = .ok _ := rfl
      exact .refused (isCoherent_of_start hstart) hfault rfl
    · rename_i n hn
      rw [hn] at hfault
      have hstart : Node.start { s with udp := some u, tcp := [] } now = .ok n := by
        rw [Node.start]
        dsimp only
        rw [hn]
        rfl
      obtain ⟨link, -, rfl⟩ := Node.startUdp_eq hn
      exact .starting (k := 0) ⟨isCoherent_of_start hstart, hfault,
        (congrArg Option.isSome hu).symm, rfl, nofun⟩ rfl

theorem Launches.proceed {l : Launch} (h : Launches s l) (now : Nat) :
    Launches s (l.proceed now) := by
  cases h with
  | starting h hs =>
    rename_i n k cs
    cases cs with
    | nil =>
      have hle := List.drop_eq_nil_iff.mp hs
      have htake : s.tcp.take k = s.tcp.take s.tcp.length := by
        rw [List.take_of_length_le hle, List.take_length]
      exact .started ⟨h.coherent, h.fault, h.udp, h.configs.trans htake, htake ▸ h.valid⟩
    | cons c cs =>
      have hk : s.tcp[k]? = some c := by
        rw [← Nat.add_zero k, ← List.getElem?_drop, hs]
        rfl
      unfold Launch.proceed Node.startTcp
      dsimp only
      cases hc : c.check with
      | ok _ =>
        refine .starting (h.startTcp hk hc) ?_
        rw [← List.drop_drop, hs]
        rfl
      | error cause =>
        exact .stopping h ⟨h.valid, c, hk, hc⟩ fun p hp => .inl hp
  | stopping h hk hp =>
    rename_i n k cause parts
    cases parts with
    | nil => exact .failed h hk fun p hmem => (hp p hmem).resolve_left List.not_mem_nil
    | cons p ps =>
      refine .stopping (h.step now p.stop) hk fun q hq => ?_
      rw [h.coherent.parts_step] at hq
      -- Either it is still to be stopped, the first part right now, or it was stopped before.
      obtain hmem | hclosed := hp q hq
      · obtain rfl | hmem := List.mem_cons.mp hmem
        · exact .inr (Node.hasClosed_stop hq now)
        · exact .inl hmem
      · refine .inr (hclosed.step now ?_)
        cases p with
        | udp => trivial
        | tcp transport => trivial
  | started h => exact .started h
  | failed h hk hd => exact .failed h hk hd
  | refused hc hf hn => exact .refused hc hf hn

theorem Launches.meanwhile {l : Launch} (h : Launches s l) (now : Nat) {e : Node.Event}
    (he : e.IsUnasked l.node) : Launches s (l.step (.meanwhile now e)) := by
  cases h with
  | starting h hs => exact .starting (h.step now e) hs
  | stopping h hk hp =>
    refine .stopping (h.step now e) hk fun p hmem => ?_
    rw [h.coherent.parts_step] at hmem
    exact (hp p hmem).imp_right fun hclosed => hclosed.step now he
  | started h => exact .started (h.step now e)
  | failed h hk hd => exact .failed (h.step now e) hk (hd.step h.coherent now he)
  | refused hc hf hn => exact .refused (hc.step now e) hf ((hc.parts_step now e).trans hn)

theorem Launches.step {l : Launch} (h : Launches s l) {m : Move} (hm : m.IsOrderly l.node) :
    Launches s (l.step m) := by
  cases m with
  | proceed now => exact h.proceed now
  | meanwhile now e => exact h.meanwhile now hm

theorem Launches.run {l : Launch} (h : Launches s l) {moves : List Move}
    (hm : l.IsOrderly moves) : Launches s (l.run moves) := by
  induction moves generalizing l with
  | nil => exact h
  | cons m moves ih => exact ih (h.step hm.1) hm.2

def left (l : Launch) : Nat :=
  match l.stage with
  | .starting cs => 2 * cs.length + l.node.tcp.length + 2
  | .stopping _ ps => ps.length + 1
  | .started => 0
  | .failed _ => 0

theorem left_proceed_le (l : Launch) (now : Nat) : (l.proceed now).left ≤ l.left - 1 := by
  obtain ⟨n, stage⟩ := l
  cases stage with
  | starting cs =>
    cases cs with
    | nil => exact Nat.zero_le _
    | cons c cs =>
      have hparts := n.length_parts_le
      unfold proceed Node.startTcp
      dsimp only
      cases c.check with
      | ok _ =>
        show 2 * cs.length + (n.tcp ++ [_]).length + 2 ≤
          2 * (cs.length + 1) + n.tcp.length + 2 - 1
        rw [List.length_append, List.length_singleton]
        omega
      | error cause =>
        show n.parts.length + 1 ≤ 2 * (cs.length + 1) + n.tcp.length + 2 - 1
        omega
  | stopping e ps =>
    cases ps with
    | nil => exact Nat.zero_le _
    | cons p ps => exact Nat.le_refl _
  | started => exact Nat.le_refl _
  | failed e => exact Nat.le_refl _

theorem Launches.coherent {l : Launch} (h : Launches s l) : l.node.IsCoherent := by
  cases h with
  | starting h => exact h.coherent
  | stopping h => exact h.coherent
  | started h => exact h.coherent
  | failed h => exact h.coherent
  | refused hc => exact hc

theorem Launches.left_step_le {l : Launch} (h : Launches s l) (m : Move) :
    (l.step m).left ≤ l.left - proceeds [m] := by
  cases m with
  | proceed now => exact l.left_proceed_le now
  | meanwhile now e =>
    have hlength := (Node.step_moves h.coherent.wired h.coherent.lists now e).length
    refine Nat.le_of_eq ?_
    unfold left
    rw [show (l.step (.meanwhile now e)).node.tcp.length = l.node.tcp.length from hlength]
    rfl

theorem proceeds_cons (m : Move) (moves : List Move) :
    proceeds (m :: moves) = proceeds [m] + proceeds moves := by
  cases m with
  | proceed now => exact Nat.add_comm _ _
  | meanwhile now e => exact (Nat.zero_add _).symm

/-- Whatever happens meanwhile, the start comes to its end. -/
theorem Launches.left_run_le {l : Launch} (h : Launches s l) {moves : List Move}
    (hm : l.IsOrderly moves) : (l.run moves).left ≤ l.left - proceeds moves := by
  induction moves generalizing l with
  | nil => exact Nat.le_refl _
  | cons m moves ih =>
    have hstep := h.left_step_le m
    have hrest := ih (h.step hm.1) hm.2
    rw [proceeds_cons]
    exact Nat.le_trans hrest (by omega)

theorem left_initial_le (s : NodeSetup) (now : Nat) :
    (initial s now).left ≤ 2 * s.tcp.length + 2 := by
  unfold initial
  dsimp only
  split
  · exact Nat.le_refl _
  · split
    · exact Nat.zero_le _
    · rename_i hn
      obtain ⟨link, -, rfl⟩ := Node.startUdp_eq hn
      exact Nat.le_refl _

theorem Launches.outcome {l : Launch} (h : Launches s l) (hl : l.left = 0) :
    (l.stage = .started ↔ s.udpFault = none ∧ ∀ c ∈ s.tcp, c.check = .ok ()) ∧
      (l.stage = .started → l.node.udp.isSome = s.udp.isSome ∧ l.node.configs = s.tcp) ∧
      (∀ e, s.udpFault = some e → l.stage = .failed e ∧ l.node.udp = none ∧ l.node.tcp = []) ∧
      ∀ k cause, s.udpFault = none → TcpConfig.FirstInvalid s.tcp k cause →
        l.stage = .failed (.config cause) ∧ l.node.udp.isSome = s.udp.isSome ∧
          l.node.configs = s.tcp.take k := by
  cases h with
  | starting h hs => cases hl
  | stopping h hk hp => cases hl
  | started h =>
    have hvalid := h.valid
    have hconfigs := h.configs
    rw [List.take_length] at hvalid hconfigs
    refine ⟨iff_of_true rfl ⟨h.fault, hvalid⟩, fun _ => ⟨h.udp, hconfigs⟩, fun e he => ?_,
      fun k cause _ hk => absurd hvalid hk.not_all_valid⟩
    cases h.fault.symm.trans he
  | failed h hk hd =>
    refine ⟨iff_of_false nofun fun hall => hk.not_all_valid hall.2, nofun, fun e he => ?_,
      fun k' cause' _ hk' => ?_⟩
    · cases h.fault.symm.trans he
    · obtain ⟨rfl, rfl⟩ := hk.unique hk'
      exact ⟨rfl, h.udp, h.configs⟩
  | refused hc hf hn =>
    rename_i n e
    have hnone {P : Prop} (h : s.udpFault = none) : P := by
      cases hf.symm.trans h
    refine ⟨iff_of_false nofun fun hall => hnone hall.1, nofun, fun e' he => ?_,
      fun k cause h _ => hnone h⟩
    cases hf.symm.trans he
    exact ⟨rfl, Node.parts_eq_nil_iff.mp hn⟩

theorem Launches.isDown {l : Launch} (h : Launches s l) {e : StartError}
    (he : l.stage = .failed e) : l.node.IsDown := by
  cases h with
  | starting h hs => cases he
  | stopping h hk hp => cases he
  | started h => cases he
  | failed h hk hd => exact hd
  | refused hc hf hn =>
    intro p hp
    rw [hn] at hp
    cases hp

/-- What a failed start has left behind stays as it is. -/
theorem Launches.at_rest {l : Launch} (h : Launches s l) {e : StartError}
    (he : l.stage = .failed e) {more : List Move} (hm : l.IsOrderly more) :
    (l.run more).stage = .failed e ∧
      (l.run more).node.udp.map UdpTransport.link = l.node.udp.map UdpTransport.link ∧
      (l.run more).node.tcp = l.node.tcp := by
  induction more generalizing l with
  | nil => exact ⟨he, rfl, rfl⟩
  | cons m more ih =>
    have hstep : (l.step m).stage = .failed e ∧
        (l.step m).node.udp.map UdpTransport.link = l.node.udp.map UdpTransport.link ∧
        (l.step m).node.tcp = l.node.tcp := by
      cases m with
      | proceed now =>
        have hl : l.step (.proceed now) = l := by
          show l.proceed now = l
          rw [Launch.proceed, he]
        rw [hl]
        exact ⟨he, rfl, rfl⟩
      | meanwhile now x => exact ⟨he, (h.isDown he).frame h.coherent now hm.1⟩
    obtain ⟨hstage, hlink, htcp⟩ :=
      ih (h.step hm.1) hstep.1 hm.2
    exact ⟨hstage, hlink.trans hstep.2.1, htcp.trans hstep.2.2⟩

theorem foldl_stopTcp {n : Node} (done ts : List TcpTransport) (h : n.tcp = done ++ ts)
    (now : Nat) :
    let s := TcpTransport.actAll now (fun _ => .shutDown) ts n.directory
    ((List.range' done.length ts.length).map Node.Part.tcp).foldl
        (fun n p => (n.step now p.stop).1) n = { n with tcp := done ++ s.1, directory := s.2 } := by
  induction ts generalizing n done with
  | nil =>
    show n = { n with tcp := done ++ [] }
    rw [← h]
  | cons t ts ih =>
    let s := t.shutDown n.directory now
    let rest := TcpTransport.actAll now (fun _ => .shutDown) ts s.2
    have hstop : n.stopTcp now done.length =
        { n with tcp := done ++ [s.1] ++ ts, directory := s.2 } := by
      simp [Node.stopTcp, h, s]
    have hrest := ih (n := { n with tcp := done ++ [s.1] ++ ts, directory := s.2 }) _ rfl
    have hassoc : done ++ [s.1] ++ rest.1 = done ++ s.1 :: rest.1 := by simp
    rw [List.length_append, List.length_singleton] at hrest
    rw [List.length_cons, List.range'_succ, List.map_cons, List.foldl_cons]
    refine (congrArg (List.foldl _ · _) hstop).trans (hrest.trans ?_)
    exact congrArg (fun tcp => { n with tcp, directory := rest.2 }) hassoc

theorem foldl_stop (n : Node) (now : Nat) :
    n.parts.foldl (fun n p => (n.step now p.stop).1) n = n.shutDown now := by
  have hudp : (n.udp.toList.map fun _ => Node.Part.udp).foldl
      (fun n p => (n.step now p.stop).1) n = n.stopUdp := by
    cases hu : n.udp with
    | none =>
      rw [Node.stopUdp, hu]
      rfl
    | some t => rfl
  have hstop := n.stopUdp_eq_perform now
  rw [Node.perform_udp] at hstop
  have htcp : n.stopUdp.tcp = n.tcp := by rw [hstop]
  rw [Node.shutDown_eq_perform, Node.parts, List.foldl_append, hudp, List.range_eq_range']
  refine (foldl_stopTcp [] n.tcp htcp now).trans ?_
  rw [hstop]
  rfl

theorem run_of_failed (n : Node) (e : StartError) (now k : Nat) :
    run ⟨n, .failed e⟩ (List.replicate k (.proceed now)) = ⟨n, .failed e⟩ := by
  induction k with
  | zero => rfl
  | succ k ih => exact ih

theorem run_of_started (n : Node) (now k : Nat) :
    run ⟨n, .started⟩ (List.replicate k (.proceed now)) = ⟨n, .started⟩ := by
  induction k with
  | zero => rfl
  | succ k ih => exact ih

theorem run_of_stopping (n : Node) (e : StartError) (now : Nat) {parts : List Node.Part} {k : Nat}
    (hk : parts.length + 1 ≤ k) :
    run ⟨n, .stopping e parts⟩ (List.replicate k (.proceed now)) =
      ⟨parts.foldl (fun n p => (n.step now p.stop).1) n, .failed e⟩ := by
  obtain ⟨k, rfl⟩ : ∃ j, k = j + 1 := ⟨k - 1, by omega⟩
  induction parts generalizing n k with
  | nil => exact run_of_failed n e now k
  | cons p ps ih =>
    obtain ⟨k, rfl⟩ : ∃ j, k = j + 1 := ⟨k - 1, by rw [List.length_cons] at hk; omega⟩
    exact ih _ k (Nat.le_of_succ_le_succ hk)

theorem run_of_starting (n : Node) (now : Nat) {cs : List TcpConfig} {k : Nat}
    (hk : 2 * cs.length + n.tcp.length + 2 ≤ k) :
    let l := run ⟨n, .starting cs⟩ (List.replicate k (.proceed now))
    (l.stage = .started ∧ n.startAllTcp now cs = .ok l.node) ∨
      ∃ e, l.stage = .failed e ∧ n.startAllTcp now cs = .error ⟨e, l.node⟩ := by
  obtain ⟨k, rfl⟩ : ∃ j, k = j + 1 := ⟨k - 1, by omega⟩
  induction cs generalizing n k with
  | nil =>
    intro l
    have hl : l = ⟨n, .started⟩ := run_of_started n now k
    rw [hl]
    exact .inl ⟨rfl, rfl⟩
  | cons c cs ih =>
    intro l
    rw [Node.startAllTcp]
    have hl : l = run ((Launch.mk n (.starting (c :: cs))).proceed now)
      (List.replicate k (.proceed now)) := rfl
    rw [List.length_cons] at hk
    unfold proceed at hl
    dsimp only at hl
    cases hc : n.startTcp c with
    | ok n' =>
      have hn : n'.tcp.length = n.tcp.length + 1 := by
        unfold Node.startTcp at hc
        split at hc
        · cases hc
        · cases hc
          exact List.length_append
      obtain ⟨k, rfl⟩ : ∃ j, k = j + 1 := ⟨k - 1, by omega⟩
      rw [hc] at hl
      rw [hl]
      exact ih n' k (by omega)
    | error e =>
      have hparts := n.length_parts_le
      rw [hc] at hl
      dsimp only at hl
      rw [run_of_stopping n e now (by omega), foldl_stop] at hl
      rw [hl]
      exact .inr ⟨e, rfl, rfl⟩

theorem run_initial (s : NodeSetup) (now : Nat) :
    let l := (initial s now).run (List.replicate (2 * s.tcp.length + 2) (.proceed now))
    (l.stage = .started ∧ Node.start s now = .ok l.node) ∨
      ∃ e, l.stage = .failed e ∧ Node.start s now = .error ⟨e, l.node⟩ := by
  unfold initial Node.start
  dsimp only
  cases s.udp with
  | none => exact run_of_starting _ now (Nat.le_refl _)
  | some u =>
    dsimp only
    cases hn : Node.startUdp _ u now with
    | error e =>
      dsimp only
      rw [run_of_failed]
      exact .inr ⟨e, rfl, rfl⟩
    | ok n =>
      obtain ⟨link, -, rfl⟩ := Node.startUdp_eq hn
      exact run_of_starting _ now (Nat.le_refl _)

theorem isOrderly_replicate (l : Launch) (now k : Nat) :
    l.IsOrderly (List.replicate k (.proceed now)) := by
  induction k generalizing l with
  | zero => trivial
  | succ k ih => exact ⟨trivial, ih (l.proceed now)⟩

theorem proceeds_replicate (now k : Nat) : proceeds (List.replicate k (.proceed now)) = k := by
  induction k with
  | zero => rfl
  | succ k ih => exact congrArg (· + 1) ih

theorem start_eq_ok_iff (s : NodeSetup) (now : Nat) :
    (∃ n, Node.start s now = .ok n) ↔ s.udpFault = none ∧ ∀ c ∈ s.tcp, c.check = .ok () := by
  have hleft := (launches_initial s now).left_run_le
    ((initial s now).isOrderly_replicate now (2 * s.tcp.length + 2))
  have hinitial := left_initial_le s now
  rw [proceeds_replicate] at hleft
  have houtcome := ((launches_initial s now).run
    ((initial s now).isOrderly_replicate now (2 * s.tcp.length + 2))).outcome (by omega)
  rw [← houtcome.1]
  obtain ⟨hstage, hstart⟩ | ⟨e, hstage, hstart⟩ := run_initial s now
  · exact iff_of_true ⟨_, hstart⟩ hstage
  · rw [hstart, hstage]
    exact iff_of_false nofun nofun

/-- A node starts just if its datagram transport does and no configuration is refused. Otherwise it
is the first fault that is told, nothing is started after that, and what was started before is shut
down: it sends nothing, takes no connection and has no route, whatever happens and however much time
passes. -/
theorem all_or_nothing (s : NodeSetup) (now : Nat) {moves : List Move}
    (hm : (initial s now).IsOrderly moves) (hp : 2 * s.tcp.length + 2 ≤ proceeds moves) :
    let alone := (initial s now).run (List.replicate (2 * s.tcp.length + 2) (.proceed now))
    let l := (initial s now).run moves
    ((alone.stage = .started ∧ Node.start s now = .ok alone.node) ∨
      ∃ e, alone.stage = .failed e ∧ Node.start s now = .error ⟨e, alone.node⟩) ∧
    ((∃ n, Node.start s now = .ok n) ↔ s.udpFault = none ∧ ∀ c ∈ s.tcp, c.check = .ok ()) ∧
    (l.stage = .started ↔ s.udpFault = none ∧ ∀ c ∈ s.tcp, c.check = .ok ()) ∧
    (l.stage = .started → l.node.udp.isSome = s.udp.isSome ∧ l.node.configs = s.tcp) ∧
    (∀ e, s.udpFault = some e → l.stage = .failed e ∧ l.node.udp = none ∧ l.node.tcp = []) ∧
    (∀ k cause, s.udpFault = none → TcpConfig.FirstInvalid s.tcp k cause →
      l.stage = .failed (.config cause) ∧ l.node.udp.isSome = s.udp.isSome ∧
        l.node.configs = s.tcp.take k) ∧
    ∀ e, l.stage = .failed e → ∀ more, l.IsOrderly more →
      let l' := l.run more
      l'.stage = .failed e ∧
      (∀ t, l'.node.udp = some t → t.isStopped) ∧
      l'.node.udp.map UdpTransport.link = l.node.udp.map UdpTransport.link ∧
      (∀ t ∈ l'.node.tcp, t.isStopped ∧ t.connections = .empty) ∧
      l'.node.tcp = l.node.tcp ∧
      ∀ q, l'.node.directory.routes.routesTo q = [] := by
  intro alone l
  have hl : Launches s l := (launches_initial s now).run hm
  have hleft : l.left = 0 := by
    have hrun := (launches_initial s now).left_run_le hm
    have hinitial := left_initial_le s now
    show ((initial s now).run moves).left = 0
    omega
  obtain ⟨hstarted, hall, hrefused, hinvalid⟩ := hl.outcome hleft
  refine ⟨run_initial s now, start_eq_ok_iff s now, hstarted, hall, hrefused, hinvalid,
    fun e he more hmore => ?_⟩
  obtain ⟨hstage, hlink, htcp⟩ := hl.at_rest he hmore
  have hl' := hl.run hmore
  have hdown := hl'.isDown hstage
  refine ⟨hstage, fun t hu => (hdown.udp hu).stopped, hlink, fun t ht => ?_, htcp,
    hdown.routesTo hl'.coherent⟩
  obtain ⟨k, hk⟩ := List.mem_iff_getElem?.mp ht
  exact ⟨(hdown.tcp hk).isStopped, (hdown.tcp hk).connections⟩

def invalidTcp : NodeSetup :=
  { NodeSetup.first with
    tcp :=
      [{ role := .server ⟨.v4 0, 4001, 0⟩ }, { role := .server ⟨.v4 0, 4002, 0⟩, maxFrame := 0 },
        { role := .client ⟨.v4 0x0a000002, 4001, 0⟩ }] }

def earlyConnections : List Move :=
  let handshake := Frame.encode (Payload.handshake .second).encode
  [.meanwhile 5 .secondAnnounced, .proceed 10, .meanwhile 20 (.bound 0),
    .meanwhile 30 (.opened 0 ⟨.v4 0x0a000002, 5000, 0⟩),
    .meanwhile 40 (.bytes ⟨0, 0⟩ handshake false), .proceed 50, .proceed 60,
    .meanwhile 65 (.opened 0 ⟨.v4 0x0a000002, 5001, 0⟩),
    .meanwhile 67 (.bytes ⟨0, 1⟩ handshake false)] ++ List.replicate 5 (.proceed 70)

theorem all_or_nothing_invalidTcp :
    let l := (initial invalidTcp 0).run earlyConnections
    let more : List Move := [.meanwhile 80 (.opened 0 ⟨.v4 0x0a000002, 5002, 0⟩),
      .meanwhile 90000 .announceDue, .meanwhile 90000 .resendDue]
    (initial invalidTcp 0).IsOrderly earlyConnections ∧
    2 * invalidTcp.tcp.length + 2 ≤ proceeds earlyConnections ∧
    ((initial invalidTcp 0).run (earlyConnections.take 5)).node.directory.routes.routesTo ⟨2⟩ =
      [.udp ⟨2⟩ 0, .tcp ⟨2⟩ ⟨0, 0⟩] ∧
    ((initial invalidTcp 0).run (earlyConnections.take 9)).node.directory.routes.routesTo ⟨2⟩ =
      [.tcp ⟨2⟩ ⟨0, 0⟩, .tcp ⟨2⟩ ⟨0, 1⟩] ∧
    l.stage = .failed (.config .frameLimitOutOfRange) ∧ l.node.tcp.length = 1 ∧
    l.IsOrderly more ∧ (l.run more).node.directory.routes.routesTo ⟨2⟩ = [] := by
  intro l more
  have horderly : (initial invalidTcp 0).IsOrderly earlyConnections := by
    refine ⟨?_, trivial, trivial, trivial, trivial, trivial, trivial, trivial, trivial, trivial,
      trivial, trivial, trivial, trivial, trivial⟩
    show ¬ (initial invalidTcp 0).node.udp.any UdpTransport.isStopped
    decide +kernel
  have hproceeds : 2 * invalidTcp.tcp.length + 2 ≤ proceeds earlyConnections := by decide
  have hinvalid : TcpConfig.FirstInvalid invalidTcp.tcp 1 .frameLimitOutOfRange :=
    ⟨List.forall_mem_singleton.mpr rfl, _, rfl, rfl⟩
  obtain ⟨-, -, -, -, -, hfirst, hrest⟩ := all_or_nothing invalidTcp 0 horderly hproceeds
  obtain ⟨hstage, -, hconfigs⟩ := hfirst 1 .frameLimitOutOfRange rfl hinvalid
  have hmore : l.IsOrderly more := ⟨trivial, trivial, trivial, trivial⟩
  obtain ⟨-, -, -, -, -, hroutes⟩ := hrest _ hstage more hmore
  refine ⟨horderly, hproceeds, by decide +kernel, by decide +kernel, hstage, ?_, hmore,
    hroutes ⟨2⟩⟩
  have hlength := congrArg List.length hconfigs
  rwa [Node.configs, List.length_map] at hlength

end Launch

end PeerMesh

import PeerMesh.Proofs.Introductions

namespace PeerMesh

namespace TcpTransport

def AllIntroduce (i : Identity) (ts ts' : List TcpTransport) : Prop :=
  ∀ (k : Nat) t', ts'[k]? = some t' → ∃ t, ts[k]? = some t ∧ t.Introduces i t'

namespace AllIntroduce

variable {i : Identity} {ts : List TcpTransport}

theorem refl (i : Identity) (ts : List TcpTransport) : AllIntroduce i ts ts :=
  fun _ t ht => ⟨t, ht, (IsSilent.ofEq rfl).introduces⟩

theorem ofActs {d : Directory} (hd : d.identity = i) (now : Nat) {acts : Nat → Act}
    (hacts : ∀ k, (acts k).IsAnonymous) : AllIntroduce i ts (actAll now acts ts d).1 := by
  have hturn (k : Nat) : ∃ d', d'.identity = i ∧
      (actAll now acts ts d).1[k]? = ts[k]?.map fun t => (t.act d' now (acts k)).1 :=
    (actAll_keeps (P := fun d' => d'.identity = i)
      (fun k t _ d' hd' => (t.identity_act d' now (acts k)).trans hd') hd).2 k
  intro k t' ht'
  obtain ⟨d', hd', hk⟩ := hturn k
  rw [hk, Option.map_eq_some_iff] at ht'
  obtain ⟨t, ht, rfl⟩ := ht'
  exact ⟨t, ht, hd' ▸ t.act_introduces d' now (hacts k)⟩

end AllIntroduce

end TcpTransport

namespace Node

variable {n : Node}

theorem step_introduces (n : Node) (now : Nat) (e : Event) :
    TcpTransport.AllIntroduce (n.step now e).1.directory.identity n.tcp (n.step now e).1.tcp := by
  have htcp : (n.step now e).1.tcp = _ := congrArg Prod.fst (n.tcp_step now e)
  rw [htcp, identity_step]
  exact .ofActs rfl now (n.isAnonymous_tcpActs e)

theorem packet_of_mem_outboxEvents {now : Nat} {e : Event} {x : Registration}
    (h : .expect x ∈ n.outboxEvents now e) : ∃ p : Packet, x.datagram = p.datagram := by
  unfold outboxEvents at h
  split at h
  · obtain ⟨id, -, hid⟩ := List.mem_map.mp h
    cases hid
  · split at h
    · cases h
    · unfold UdpTransport.sweeps at h
      split at h
      · cases h
      · split at h
        · cases List.mem_singleton.mp h
        · cases h
  · cases List.mem_singleton.mp h
  · cases List.mem_singleton.mp h
  · split at h
    · cases h
    · obtain ⟨p, -, hp⟩ := List.mem_map.mp h
      cases hp
      exact ⟨p, rfl⟩

theorem sendAct_tells (n : Node) (e : Envelope) (reliable : Bool) (route : Route) (i : Identity) :
    (n.sendAct e reliable route).Tells i := by
  cases route with
  | udp peer endpoint => cases reliable <;> exact trivial
  | tcp peer c => exact trivial

theorem act_tells (n : Node) (now : Nat) (e : Event) :
    (n.act e).Tells (n.step now e).1.directory.identity := by
  cases e with
  | send receiver body reliable =>
    unfold act
    dsimp only
    split
    · exact n.sendAct_tells _ reliable _ _
    · exact trivial
  | sendBy route e reliable => exact n.sendAct_tells e reliable route _
  | announce => exact rfl
  | announceDue => exact rfl
  | updateIdentity change =>
    show (n.act (.updateIdentity change)).Tells (n.updateIdentity change).1.directory.identity
    unfold act updateIdentity
    dsimp only
    cases n.directory.identity.update (change n.directory.identity) with
    | error e => exact trivial
    | ok i => exact rfl
  | _ => exact trivial

def replaceIdentity (n : Node) (change : Identity → Identity) :
    Node × Except IdentityChange Unit :=
  match n.directory.identity.update (change n.directory.identity) with
  | .error e => (n, .error e)
  | .ok identity => ({ n with directory.identity := identity }, .ok ())

/-- What happens in the life of a node whose transports are started one by one. -/
inductive LifeEvent where
  | replaceIdentity (change : Identity → Identity)
  | startUdp (setup : UdpSetup)
  | startTcp (config : TcpConfig)
  | event (e : Event)

/-- A node has no second datagram transport, and a transport that does not start leaves the node as
it is. -/
def live (n : Node) (now : Nat) : LifeEvent → Node
  | .replaceIdentity change => (n.replaceIdentity change).1
  | .startUdp setup => if n.udp.isSome then n else (n.startUdp setup now).toOption.getD n
  | .startTcp config => (n.startTcp config).toOption.getD n
  | .event e => (n.step now e).1

def link? (n : Node) : LifeEvent → Option Link
  | .startUdp setup => (n.udp.map UdpTransport.link).or setup.network.toOption
  | _ => n.udp.map UdpTransport.link

/-- All announcements and handshakes that are sent meanwhile tell the identity. The network is that
of the datagram transport. -/
structure Introduces (i : Identity) (n : Node) (link : Option Link) (n' : Node) : Prop where
  udp : ∀ t', n'.udp = some t' → ∃ l, link = some l ∧
    ∃ parcels, t'.link.offered = l.offered ++ parcels ∧ ∀ p ∈ parcels, p.Presents i
  tcp : ∀ (k : Nat) t', n'.tcp[k]? = some t' →
    (∃ t, n.tcp[k]? = some t ∧ t.Introduces i t') ∨
      n.tcp[k]? = none ∧ t'.connections = .empty

theorem Introduces.same (i : Identity) (n : Node) :
    n.Introduces i (n.udp.map UdpTransport.link) n := by
  refine ⟨fun t hu => ⟨t.link, ?_, [], (List.append_nil _).symm, nofun⟩,
    fun k t ht => .inl (TcpTransport.AllIntroduce.refl i n.tcp k t ht)⟩
  rw [hu]
  rfl

def HoldsPackets (n : Node) : Prop :=
  ∀ t, n.udp = some t → t.outbox.HoldsPackets

theorem HoldsPackets.step (h : n.HoldsPackets) (now : Nat) (e : Event) :
    (n.step now e).1.HoldsPackets := by
  intro t' hu'
  cases n.step_advances now e with
  | absent _ hnone => cases hnone.symm.trans hu'
  | present hu hu'' ht =>
    cases hu''.symm.trans hu'
    rw [ht.outbox]
    exact (h _ hu).advance fun x hx => packet_of_mem_outboxEvents hx

/-- What an event in the life of a node makes of the node. -/
inductive Lives (n : Node) (now : Nat) : LifeEvent → Node → Prop
  | event (e : Event) : Lives n now (.event e) (n.step now e).1
  | keep (x : LifeEvent) (i : Identity) (hid : i.id = n.id) :
    Lives n now x { n with directory.identity := i }
  | startUdp (setup : UdpSetup) (link : Link) (hu : n.udp = none)
    (hlink : setup.network = .ok link) : Lives n now (.startUdp setup)
      { n with
        directory.identity :=
          n.directory.identity.declare unicastPortKey (.int (Int64.ofNat link.port.toNat))
        udp := some (.start setup.config link setup.ids now) }
  | startTcp (config : TcpConfig) : Lives n now (.startTcp config)
      { n with tcp := n.tcp ++ [{ config, index := n.tcp.length }] }

theorem replaceIdentity_of_eq {change : Identity → Identity}
    (h : (change n.directory.identity).id = n.id) :
    n.replaceIdentity change =
      ({ n with directory.identity := change n.directory.identity }, .ok ()) := by
  have hu : n.directory.identity.update (change n.directory.identity) = .ok _ := if_pos h
  rw [replaceIdentity, hu]

theorem replaceIdentity_of_ne {change : Identity → Identity}
    (h : (change n.directory.identity).id ≠ n.id) :
    n.replaceIdentity change = (n, .error ⟨n.id, (change n.directory.identity).id⟩) := by
  have hu : n.directory.identity.update (change n.directory.identity) = .error _ := if_neg h
  rw [replaceIdentity, hu]
  rfl

theorem live_lives (n : Node) (now : Nat) (x : LifeEvent) : n.Lives now x (n.live now x) := by
  cases x with
  | replaceIdentity change =>
    show n.Lives now _ (n.replaceIdentity change).1
    by_cases h : (change n.directory.identity).id = n.id
    · rw [replaceIdentity_of_eq h]
      exact .keep _ _ h
    · rw [replaceIdentity_of_ne h]
      exact .keep _ n.directory.identity rfl
  | startUdp setup =>
    unfold live
    dsimp only
    split
    · exact .keep _ n.directory.identity rfl
    · cases hstart : n.startUdp setup now with
      | error e => exact .keep _ n.directory.identity rfl
      | ok n' =>
        obtain ⟨link, hlink, rfl⟩ := startUdp_eq hstart
        exact .startUdp setup link (Option.not_isSome_iff_eq_none.mp ‹_›) hlink
  | startTcp config =>
    unfold live startTcp
    dsimp only
    cases config.check with
    | error e => exact .keep _ n.directory.identity rfl
    | ok _ => exact .startTcp config
  | event e => exact .event e

variable {now : Nat} {x : LifeEvent} {n' : Node}

theorem Lives.id_eq (h : n.Lives now x n') : n'.id = n.id := by
  cases h with
  | event e => exact (n.step_keeps now e).id
  | keep _ i hid => exact hid
  | startUdp setup link hu hlink => rfl
  | startTcp config => rfl

theorem HoldsPackets.lives (hp : n.HoldsPackets) (h : n.Lives now x n') : n'.HoldsPackets := by
  cases h with
  | event e => exact hp.step now e
  | keep _ i hid => exact hp
  | startUdp setup link hu hlink =>
    rintro t ⟨⟩
    exact ⟨setup.config.maxResends, [], rfl, nofun⟩
  | startTcp config => exact hp

theorem link?_of_some {t : UdpTransport} (hu : n.udp = some t) (x : LifeEvent) :
    n.link? x = some t.link := by
  unfold link?
  rw [hu]
  cases x with
  | _ => rfl

/-- What is told at an event in the life of a node is the identity that the node has after it. -/
theorem HoldsPackets.introduces (hp : n.HoldsPackets) (h : n.Lives now x n') :
    n.Introduces n'.directory.identity (n.link? x) n' := by
  have hnothing (link : Link) (i : Identity) : ∃ parcels, link.offered = link.offered ++ parcels ∧
      ∀ p ∈ parcels, p.Presents i := ⟨[], (List.append_nil _).symm, nofun⟩
  cases h with
  | event e =>
    refine ⟨fun t' ht' => ?_, fun k t' ht' => .inl (n.step_introduces now e k t' ht')⟩
    rw [udp_step, Option.map_eq_some_iff] at ht'
    obtain ⟨t, hu, rfl⟩ := ht'
    exact ⟨t.link, link?_of_some hu _, UdpTransport.act_presents (hp t hu) now (n.act_tells now e)⟩
  | keep x i hid =>
    refine ⟨fun t hu => ⟨t.link, link?_of_some hu x, hnothing _ _⟩, fun k t ht => .inl ?_⟩
    exact TcpTransport.AllIntroduce.refl _ n.tcp k t ht
  | startUdp setup link hu hlink =>
    refine ⟨?_, fun k t ht => .inl (TcpTransport.AllIntroduce.refl _ n.tcp k t ht)⟩
    rintro t ⟨⟩
    refine ⟨link, ?_, hnothing _ _⟩
    rw [link?, hu, hlink]
    rfl
  | startTcp config =>
    refine ⟨fun t hu => ⟨t.link, link?_of_some (n := n) hu _, hnothing _ _⟩, fun k t' ht' => ?_⟩
    dsimp only at ht'
    obtain hlt | hge := Nat.lt_or_ge k n.tcp.length
    · rw [List.getElem?_append_left hlt] at ht'
      exact .inl (TcpTransport.AllIntroduce.refl _ n.tcp k t' ht')
    · rw [List.getElem?_append_right hge] at ht'
      refine .inr ⟨List.getElem?_eq_none hge, ?_⟩
      obtain rfl := List.mem_singleton.mp (List.mem_of_getElem? ht')
      rfl

end Node

end PeerMesh

import PeerMesh.Proofs.Conversations
import PeerMesh.Proofs.Gate
import PeerMesh.Proofs.Registrations

namespace PeerMesh

namespace PeerTable

variable {τ : Type} {t : PeerTable τ} {q : PeerId}

theorem isSome_get?_update {i : Identity} (h : ((t.update i).table.get? q).isSome) :
    (t.get? q).isSome ∨ q = i.id := by
  obtain ⟨-, ht, -⟩ | ⟨p, e, -, ht, -⟩ := t.update_cases i
  · rw [ht] at h
    exact .inl h
  · have hp : ((t.putPeer i.id p).publish e).get? q = if q = i.id then some p else t.get? q :=
      t.get?_putPeer i.id q p
    rw [ht, hp] at h
    split at h
    · exact .inr ‹_›
    · exact .inl h

theorem isSome_get?_updateAll {is : List Identity} (h : ((t.updateAll is).1.get? q).isSome) :
    (t.get? q).isSome ∨ ∃ i ∈ is, q = i.id := by
  induction is generalizing t with
  | nil => exact .inl h
  | cons i is ih =>
    obtain h | ⟨j, hj, hq⟩ := ih h
    · obtain h | hq := isSome_get?_update h
      · exact .inl h
      · exact .inr ⟨i, List.mem_cons_self, hq⟩
    · exact .inr ⟨j, List.mem_cons_of_mem i hj, hq⟩

theorem isSome_get?_wait {now : Nat} {p : PeerId} {w : Waiter τ}
    (h : ((t.wait now p w).1.get? q).isSome) : (t.get? q).isSome ∨ q = p := by
  have hp : (t.wait now p w).1.get? q = if q = p then _ else t.get? q := t.get?_putPeer p q _
  rw [hp] at h
  split at h
  · exact .inr ‹_›
  · exact .inl h

theorem isSome_get?_expire (now : Nat) :
    ((t.expire now).1.get? q).isSome = (t.get? q).isSome := by
  have hm := t.peers.get?_mapValues (fun _ p =>
    { identity := p.identity
      discovery := (p.discovery.expire now).1
      isSet_eq := p.isSet_eq }) q
  exact (congrArg Option.isSome hm).trans Option.isSome_map

end PeerTable

theorem Frame.isOther_of_introduced {self p : PeerId} {fs : List Frame}
    (h : introduced self fs = some p) : p.IsOther self := by
  unfold introduced at h
  split at h
  · split at h
    · cases h
    · cases h
      exact PeerId.isOther_iff.mpr ‹_›
  · cases h

theorem ConnectionStage.told_isOther {self : PeerId} {stage : ConnectionStage} {fs : List Frame}
    (h : ∀ p, stage = .established p → p.IsOther self) :
    ∀ i ∈ stage.told self fs, i.id.IsOther self := by
  intro i hi
  cases stage with
  | opened deadline => exact Frame.isOther_of_introduced (told_opened hi)
  | established p => exact told_established hi ▸ h p rfl

namespace Node

/-- The routes of a node are filed under the peers that they lead to, which are other nodes, and
those by connections belong to its transports. -/
structure IsConsistent (n : Node) : Prop where
  tidy : n.directory.routes.IsTidy
  filed : ∀ q, ∀ r ∈ n.directory.routes.routesTo q, r.peer = q ∧ q.IsOther n.id
  held : ∀ q p c, .tcp p c ∈ n.directory.routes.routesTo q → c.transport < n.tcp.length

/-- The node is connected with a peer: the handshake of the connection is over. -/
def IsConnected (n : Node) (q : PeerId) (c : ConnectionId) : Prop :=
  ∃ t, n.tcp[c.transport]? = some t ∧ (c.number, q) ∈ t.established

def KnowsOthers (n : Node) : Prop :=
  ∀ q, (n.directory.peers.get? q).isSome → q.IsOther n.id

variable {n : Node}

theorem mayRegister_isOther {e : Event} {r : Route} (h : n.MayRegister e r) :
    r.peer.IsOther n.id := by
  cases e with
  | datagram bs source => exact h.2
  | bytes c bs ended =>
    obtain ⟨-, -, -, -, -, p, hp, rfl⟩ := h
    exact hp
  | _ => exact h.elim

theorem mayRegister_tcp {e : Event} {p : PeerId} {c : ConnectionId}
    (h : n.MayRegister e (.tcp p c)) : c.transport < n.tcp.length := by
  cases e with
  | datagram bs source => cases h.1
  | bytes c' bs ended =>
    obtain ⟨t, -, ht, -, -, p', -, he⟩ := h
    cases he
    exact (List.getElem?_eq_some_iff.mp ht).1
  | _ => exact h.elim

theorem IsConsistent.tcp_mem_routesTo (h : n.IsConsistent) (hw : n.IsWired) {q p : PeerId}
    {c : ConnectionId} :
    .tcp p c ∈ n.directory.routes.routesTo q ↔ q = p ∧ n.IsConnected p c := by
  have hserves (t : TcpTransport) (ht : n.tcp[c.transport]? = some t) :
      .tcp p c ∈ n.directory.routes.routesTo q ↔ q = p ∧ (c.number, p) ∈ t.established := by
    have hroutes := (hw.serves _ t ht).routes c.number q p
    rwa [hw.index _ t ht, ← TcpTransport.mem_established] at hroutes
  constructor
  · intro hr
    obtain ⟨t, ht⟩ : ∃ t, n.tcp[c.transport]? = some t :=
      ⟨_, List.getElem?_eq_getElem (h.held q p c hr)⟩
    obtain ⟨hq, hp⟩ := (hserves t ht).mp hr
    exact ⟨hq, t, ht, hp⟩
  · rintro ⟨hq, t, ht, hp⟩
    exact (hserves t ht).mpr ⟨hq, hp⟩

theorem IsConsistent.step (h : n.IsConsistent) (hw : n.IsWired)
    (hl : n.directory.Lists n.contexts) (now : Nat) (e : Event) :
    (n.step now e).1.IsConsistent := by
  have hedits := step_edits hw now e
  have hid : (n.step now e).1.id = n.id := (n.step_keeps now e).id
  refine ⟨hedits.isTidy h.tidy, fun q r hr => ?_, fun q p c hr => ?_⟩
  · rw [hid]
    obtain hr | ⟨rfl, hmay⟩ := hedits.mem_routesTo hr
    · exact h.filed q r hr
    · exact ⟨rfl, mayRegister_isOther hmay⟩
  · rw [(step_moves hw hl now e).length]
    obtain hr | ⟨-, hr⟩ := hedits.mem_routesTo hr
    · exact h.held q p c hr
    · exact mayRegister_tcp hr

theorem isConsistent_of_start {setup : NodeSetup} {now : Nat} (h : start setup now = .ok n) :
    n.IsConsistent := by
  have hroutes := (isNew_of_start h).routes
  refine ⟨?_, fun q r hr => ?_, fun q p c hr => ?_⟩
  · rw [hroutes]
    exact RoutingTable.isTidy_empty
  · rw [hroutes] at hr
    cases hr
  · rw [hroutes] at hr
    cases hr

theorem told_isOther (h : n.IsConsistent) (hw : n.IsWired) {e : Event}
    (he : ∀ i, e = .learn i → i.id.IsOther n.id) : ∀ i ∈ n.told e, i.id.IsOther n.id := by
  intro i hi
  cases e with
  | datagram bs source =>
    unfold told at hi
    dsimp only at hi
    cases hu : n.udp with
    | none =>
      rw [hu] at hi
      cases hi
    | some t =>
      rw [hu] at hi
      exact PeerId.isOther_iff.mpr (of_decide_eq_true (List.mem_filter.mp hi).2)
  | bytes c bs ended =>
    unfold told at hi
    dsimp only at hi
    split at hi
    · cases hi
    · rename_i t ht
      unfold TcpTransport.told at hi
      split at hi
      · cases hi
      · rename_i connection hc
        refine ConnectionStage.told_isOther (fun p hp => ?_) i hi
        have hpeer : t.peer? c.number = some p := by
          rw [TcpTransport.peer?, hc, Option.bind_some, Connection.peer?, hp]
        exact (h.filed p _ (((hw.serves _ t ht).routes c.number p p).mpr ⟨rfl, hpeer⟩)).2
  | learn j =>
    obtain rfl := List.mem_singleton.mp hi
    exact he i rfl
  | _ => cases hi

theorem KnowsOthers.isOther_of_dispatch (h : n.KnowsOthers) {now : Nat} {m : Envelope} {q : PeerId}
    (hq : ((n.dispatch now m).1.directory.peers.get? q).isSome) : q.IsOther n.id := by
  by_cases ha : n.Admits m
  swap
  · rw [dispatch_of_not_admits ha] at hq
    exact h q hq
  by_cases hn : m.sender.isNil
  · rw [dispatch_of_isNil ha hn] at hq
    exact h q hq
  rw [dispatch_of_wait ha hn rfl] at hq
  obtain hq | rfl := PeerTable.isSome_get?_wait hq
  · exact h q hq
  · exact ⟨(admits_iff.mp ha).1, hn⟩

theorem KnowsOthers.step (h : n.KnowsOthers) (hc : n.IsConsistent) (hw : n.IsWired) (now : Nat)
    {e : Event} (he : ∀ i, e = .learn i → i.id.IsOther n.id) : (n.step now e).1.KnowsOthers := by
  intro q hq
  have hid : (n.step now e).1.id = n.id := (n.step_keeps now e).id
  rw [hid]
  obtain htells | ⟨m, rfl⟩ | rfl := e.tells_or
  · obtain ⟨hs, hl, -⟩ := n.step_learns now htells
    have hpeers := congrArg Prod.fst hl.peers
    dsimp only at hpeers
    rw [← hpeers] at hq
    obtain hq | ⟨i, hi, rfl⟩ := PeerTable.isSome_get?_updateAll hq
    · exact h q hq
    · exact told_isOther hc hw he i hi
  · exact h.isOther_of_dispatch hq
  · exact h q ((PeerTable.isSome_get?_expire now).symm.trans hq)

section Run

variable {n₀ : Node} {setup : NodeSetup} {start : Nat}

theorem after_isConsistent (h : Node.start setup start = .ok n₀) (events : List (Nat × Event)) :
    (n₀.after events).IsConsistent := by
  induction events using List.reverseRecOn with
  | nil => exact isConsistent_of_start h
  | append_singleton events e ih =>
    have hl := (n₀.after_keeps events).lists (isNew_of_start h).lists
    rw [after_concat]
    exact ih.step (after_isWired (isWired_of_start h) (isNew_of_start h).lists events) hl e.1 e.2

theorem after_knowsOthers (h : Node.start setup start = .ok n₀) (events : List (Nat × Event))
    (he : ∀ e ∈ events, ∀ i, e.2 = .learn i → i.id.IsOther n₀.id) :
    (n₀.after events).KnowsOthers := by
  induction events using List.reverseRecOn with
  | nil =>
    intro q hq
    have hnone : n₀.directory.peers.get? q = none := by
      rw [(isNew_of_start h).peers]
      rfl
    rw [after, List.foldl_nil, hnone] at hq
    cases hq
  | append_singleton events e ih =>
    have hw := after_isWired (isWired_of_start h) (isNew_of_start h).lists events
    have hid : (n₀.after events).id = n₀.id := (n₀.after_keeps events).id
    rw [after_concat]
    refine (ih fun x hx => he x (List.mem_append_left _ hx)).step (after_isConsistent h events) hw
      e.1 fun i hi => ?_
    rw [hid]
    exact he e (List.mem_append_right _ List.mem_cons_self) i hi

/-- At any time, the routes are those of the datagram transport and the connections whose handshake
is over. They are filed under other nodes, and only other nodes are known, unless the application
has itself said otherwise. -/
theorem routing_consistent (h : Node.start setup start = .ok n₀) (events : List (Nat × Event)) :
    let n := n₀.after events
    (∀ q ∈ n.directory.routes.peers, n.directory.routes.routesTo q ≠ []) ∧
    (∀ q, (n.directory.routes.routesTo q).Nodup) ∧
    (∀ q, ∀ r ∈ n.directory.routes.routesTo q, r.peer = q) ∧
    (∀ q ∈ n.directory.routes.peers, q ≠ n₀.id ∧ ¬ q.isNil) ∧
    ((∀ e ∈ events, ∀ i, e.2 = .learn i → i.id ≠ n₀.id ∧ ¬ i.id.isNil) →
      ∀ q ∈ n.directory.peers.peers.keys, q ≠ n₀.id ∧ ¬ q.isNil) ∧
    ∀ q r, r ∈ n.directory.routes.routesTo q ↔
      (∃ endpoint, n.contexts.get? q = some endpoint ∧ r = .udp q endpoint) ∨
      ∃ c, n.IsConnected q c ∧ r = .tcp q c := by
  intro n
  have hc : n.IsConsistent := after_isConsistent h events
  have hw : n.IsWired := after_isWired (isWired_of_start h) (isNew_of_start h).lists events
  have hl : n.directory.Lists n.contexts := (n₀.after_keeps events).lists (isNew_of_start h).lists
  have hid : n.id = n₀.id := (n₀.after_keeps events).id
  refine ⟨fun q hq => hc.tidy.mem_peers.mp hq, hl.nodup, fun q r hr => (hc.filed q r hr).1,
    fun q hq => ?_, fun he q hq => ?_, fun q r => ⟨fun hr => ?_, ?_⟩⟩
  · obtain ⟨r, hr⟩ := List.exists_mem_of_ne_nil _ (hc.tidy.mem_peers.mp hq)
    exact hid ▸ (hc.filed q r hr).2
  · obtain ⟨p, hp⟩ := (KeyedList.mem_keys_iff _ q).mp hq
    exact hid ▸ after_knowsOthers h events he q (Option.isSome_iff_exists.mpr ⟨p, hp⟩)
  · cases r with
    | udp p endpoint =>
      obtain ⟨rfl, hp⟩ := (hl.udp q p endpoint).mp hr
      exact .inl ⟨endpoint, hp, rfl⟩
    | tcp p c =>
      obtain ⟨rfl, hp⟩ := (hc.tcp_mem_routesTo hw).mp hr
      exact .inr ⟨c, hp, rfl⟩
  · rintro (⟨endpoint, hq, rfl⟩ | ⟨c, hq, rfl⟩)
    · exact (hl.udp q q endpoint).mpr ⟨rfl, hq⟩
    · exact (hc.tcp_mem_routesTo hw).mpr ⟨rfl, hq⟩

end Run

end Node

def NodeSetup.reachable : NodeSetup :=
  { NodeSetup.first with tcp := [{ role := .server ⟨.v4 0, 4001, 0⟩ }] }

namespace Node

def reachable : Node :=
  { first with tcp := [{ config := { role := .server ⟨.v4 0, 4001, 0⟩ }, index := 0 }] }

def twoConnections : List (Nat × Event) :=
  let handshake := Frame.encode (Payload.handshake .second).encode
  [(10, .secondAnnounced), (100, .bound 0),
    (200, .opened 0 ⟨.v4 0x0a000002, 5000, 0⟩), (210, .bytes ⟨0, 0⟩ handshake false),
    (300, .opened 0 ⟨.v4 0x0a000002, 5001, 0⟩), (310, .bytes ⟨0, 1⟩ handshake false),
    (400, .updateIdentity ({ · with name := "renamed" })), (500, .bytes ⟨0, 0⟩ [] true)]

theorem routing_consistent_twoConnections :
    let n := reachable.after twoConnections
    Node.start .reachable 0 = .ok reachable ∧
    n.directory.routes.routesTo ⟨2⟩ = [.udp ⟨2⟩ 0, .tcp ⟨2⟩ ⟨0, 1⟩] ∧
    n.directory.peers.peers.keys = [⟨2⟩] ∧
    (∀ q ∈ n.directory.peers.peers.keys, q ≠ ⟨1⟩ ∧ ¬ q.isNil) ∧
    n.IsConnected ⟨2⟩ ⟨0, 1⟩ ∧ n.contexts.get? ⟨2⟩ = some 0 := by
  intro n
  have hstart : Node.start .reachable 0 = .ok reachable := rfl
  have hroutes : n.directory.routes.routesTo ⟨2⟩ = [.udp ⟨2⟩ 0, .tcp ⟨2⟩ ⟨0, 1⟩] := by
    decide +kernel
  have hkeys : n.directory.peers.peers.keys = [⟨2⟩] := by decide +kernel
  obtain ⟨-, -, -, -, hothers, hexact⟩ := routing_consistent hstart twoConnections
  have hlearn : ∀ e ∈ twoConnections, ∀ i, e.2 = .learn i → i.id ≠ ⟨1⟩ ∧ ¬ i.id.isNil := by
    simp [twoConnections, Event.secondAnnounced]
  refine ⟨hstart, hroutes, hkeys, hothers hlearn, ?_, ?_⟩
  · have hmem : .tcp ⟨2⟩ ⟨0, 1⟩ ∈ n.directory.routes.routesTo ⟨2⟩ :=
      hroutes ▸ List.mem_cons_of_mem _ List.mem_cons_self
    obtain ⟨_, -, he⟩ | ⟨c, hq, he⟩ := (hexact ⟨2⟩ _).mp hmem
    · cases he
    · cases he
      exact hq
  · have hmem : .udp ⟨2⟩ 0 ∈ n.directory.routes.routesTo ⟨2⟩ := hroutes ▸ List.mem_cons_self
    obtain ⟨_, hq, he⟩ | ⟨_, -, he⟩ := (hexact ⟨2⟩ _).mp hmem
    · cases he
      exact hq
    · cases he

end Node

end PeerMesh

import PeerMesh.Proofs.Consistency
import PeerMesh.Proofs.Whereabouts

namespace PeerMesh

theorem sublist_pair_append {α : Type} {a b : α} {old : List α} {next : Option α}
    (h : [a, b].Sublist (old ++ next.toList)) : [a, b].Sublist old ∨ a ∈ old ∧ next = some b := by
  cases next with
  | none =>
    rw [Option.toList_none, List.append_nil] at h
    exact .inl h
  | some c =>
    obtain ⟨front, back, he, hold, hlast⟩ := List.sublist_append_iff.mp h
    obtain rfl | rfl := List.sublist_singleton.mp hlast
    · rw [List.append_nil] at he
      exact .inl (he ▸ hold)
    · have he : [a] ++ [b] = front ++ [c] := he
      obtain ⟨rfl, hb⟩ := List.append_inj' he rfl
      obtain rfl := List.singleton_inj.mp hb
      exact .inr ⟨List.singleton_sublist.mp hold, rfl⟩

namespace RoutingTable

theorem heaviest_cons (r : Route) (rs : List Route) :
    heaviest (r :: rs) = if r.isUdp then (rs.find? (!·.isUdp)).or (some r) else some r := by
  induction rs generalizing r with
  | nil => cases r <;> rfl
  | cons r' rs ih =>
    cases r with
    | udp p e =>
      cases r' with
      | udp p' e' => exact ih (.udp p e)
      | tcp p' c' => exact ih (.tcp p' c')
    | tcp p c =>
      cases r' with
      | udp p' e' => exact ih (.tcp p c)
      | tcp p' c' => exact ih (.tcp p c)

theorem heaviest_eq (routes : List Route) :
    heaviest routes = (routes.filter (!·.isUdp)).head?.or routes.head? := by
  rw [List.head?_filter]
  cases routes with
  | nil => rfl
  | cons r rs =>
    rw [heaviest_cons]
    cases r with
    | udp p e => rfl
    | tcp p c => rfl

end RoutingTable

namespace Node

/-- The first of two connections with a peer has lasted since a time when the second was not there
yet. -/
def ConnectedBefore (n : Node) (events : List (Nat × Event)) (q : PeerId) (c c' : ConnectionId) :
    Prop :=
  ∃ front back, events = front ++ back ∧ ¬ (n.after front).IsConnected q c' ∧
    ∀ mid, mid <+: back → (n.after (front ++ mid)).IsConnected q c

def connectionsTo (n : Node) (q : PeerId) : List Route :=
  (n.directory.routes.routesTo q).filter (!·.isUdp)

variable {n n₀ : Node} {q : PeerId}

theorem IsConsistent.mem_connectionsTo (h : n.IsConsistent) (hw : n.IsWired) {r : Route} :
    r ∈ n.connectionsTo q ↔ ∃ c, r = .tcp q c ∧ n.IsConnected q c := by
  rw [connectionsTo, List.mem_filter]
  constructor
  · rintro ⟨hr, hk⟩
    cases r with
    | udp p e => cases hk
    | tcp p c =>
      obtain ⟨rfl, hc⟩ := (h.tcp_mem_routesTo hw).mp hr
      exact ⟨c, rfl, hc⟩
  · rintro ⟨c, rfl, hc⟩
    exact ⟨(h.tcp_mem_routesTo hw).mpr ⟨rfl, hc⟩, rfl⟩

theorem IsConsistent.connectionsTo_eq_nil (h : n.IsConsistent) (hw : n.IsWired) :
    n.connectionsTo q = [] ↔ ∀ c, ¬ n.IsConnected q c := by
  rw [List.eq_nil_iff_forall_not_mem]
  constructor
  · exact fun hno c hc => hno _ ((h.mem_connectionsTo hw).mpr ⟨c, rfl, hc⟩)
  · intro hno r hr
    obtain ⟨c, -, hc⟩ := (h.mem_connectionsTo hw).mp hr
    exact hno c hc

theorem IsConsistent.connectionsTo_step (h : n.IsConsistent) (hw : n.IsWired) (now : Nat)
    (e : Event) (q : PeerId) : ∃ next : Option Route,
      ((n.step now e).1.connectionsTo q).Sublist (n.connectionsTo q ++ next.toList) ∧
      ∀ r ∈ next, r ∉ n.connectionsTo q := by
  have hnone (hno : ∀ r, n.MayRegister e r → r.peer = q → !r.isUdp → False) :
      ((n.step now e).1.connectionsTo q).Sublist
        (n.connectionsTo q ++ (none : Option Route).toList) :=
    (step_edits hw now e).sublist_routesTo fun r hr hq hk => (hno r hr hq hk).elim
  cases e with
  | bytes c bs ended =>
    by_cases hc : .tcp q c ∈ n.connectionsTo q
    · refine ⟨none, hnone ?_, nofun⟩
      rintro r ⟨t, connection, ht, hget, hopen, p, -, rfl⟩ hq -
      obtain rfl : p = q := hq
      obtain ⟨c', he, t', ht', hp⟩ := (h.mem_connectionsTo hw).mp hc
      cases he
      cases ht.symm.trans ht'
      rw [TcpTransport.mem_established, TcpTransport.peer?, hget, Option.bind_some, hopen] at hp
      cases hp
    · refine ⟨some (.tcp q c), (step_edits hw now _).sublist_routesTo ?_, ?_⟩
      · rintro r ⟨-, -, -, -, -, p, -, rfl⟩ hq -
        obtain rfl : p = q := hq
        rfl
      · rintro r ⟨⟩
        exact hc
  | datagram bs source =>
    refine ⟨none, hnone fun r hr _ hk => ?_, nofun⟩
    rw [hr.1] at hk
    cases hk
  | _ => exact ⟨none, hnone fun r hr _ _ => hr, nofun⟩

variable {setup : NodeSetup} {start : Nat}

/-- The connections with a peer are listed in the order in which their handshakes were over. -/
theorem after_connectedBefore (h : Node.start setup start = .ok n₀)
    (events : List (Nat × Event)) (q : PeerId) :
    ((n₀.after events).connectionsTo q).Pairwise fun r r' =>
      ∀ c c', r = .tcp q c → r' = .tcp q c' → n₀.ConnectedBefore events q c c' := by
  induction events using List.reverseRecOn with
  | nil =>
    have hnil : n₀.connectionsTo q = [] := by
      rw [connectionsTo, (isNew_of_start h).routes]
      rfl
    rw [after, List.foldl_nil, hnil]
    exact .nil
  | append_singleton events e ih =>
    have hc := after_isConsistent h events
    have hw := after_isWired (isWired_of_start h) (isNew_of_start h).lists events
    have hc' := after_isConsistent h (events ++ [e])
    have hw' := after_isWired (isWired_of_start h) (isNew_of_start h).lists (events ++ [e])
    obtain ⟨next, hsub, hnew⟩ := hc.connectionsTo_step hw e.1 e.2 q
    rw [← after_concat] at hsub
    rw [List.pairwise_iff_forall_sublist] at ih ⊢
    rintro r r' hpair c c' rfl rfl
    have hlive : (n₀.after (events ++ [e])).IsConnected q c := by
      obtain ⟨_, he, hlive⟩ := (hc'.mem_connectionsTo hw').mp (hpair.subset List.mem_cons_self)
      cases he
      exact hlive
    obtain hold | ⟨hold, hnext⟩ := sublist_pair_append (hpair.trans hsub)
    · obtain ⟨front, back, rfl, hnot, hlasts⟩ := ih hold c c' rfl rfl
      refine ⟨front, back ++ [e], List.append_assoc .., hnot, fun mid hmid => ?_⟩
      obtain rfl | hmid := List.prefix_concat_iff.mp hmid
      · rwa [← List.append_assoc]
      · exact hlasts mid hmid
    · have hnot : ¬ (n₀.after events).IsConnected q c' := fun hc'' =>
        hnew _ hnext ((hc.mem_connectionsTo hw).mpr ⟨c', rfl, hc''⟩)
      refine ⟨events, [e], rfl, hnot, fun mid hmid => ?_⟩
      have hmid : mid <+: [] ++ [e] := hmid
      obtain rfl | hmid := List.prefix_concat_iff.mp hmid
      · exact hlive
      · obtain ⟨_, hs, hlive⟩ := (hc.mem_connectionsTo hw).mp hold
        cases hs
        rwa [List.prefix_nil.mp hmid, List.append_nil]

theorem first_connection (h : Node.start setup start = .ok n₀) (events : List (Nat × Event))
    {r : Route} {rs : List Route} (hr : (n₀.after events).connectionsTo q = r :: rs) :
    ∃ c, r = .tcp q c ∧ (n₀.after events).IsConnected q c ∧
      ∀ c', (n₀.after events).IsConnected q c' → c' ≠ c → n₀.ConnectedBefore events q c c' := by
  have hc := after_isConsistent h events
  have hw := after_isWired (isWired_of_start h) (isNew_of_start h).lists events
  have hbefore := after_connectedBefore h events q
  obtain ⟨c, rfl, hconnected⟩ := (hc.mem_connectionsTo hw).mp (hr ▸ List.mem_cons_self)
  refine ⟨c, rfl, hconnected, fun c' hc' hne => ?_⟩
  have hmem := (hc.mem_connectionsTo hw).mpr ⟨c', rfl, hc'⟩
  rw [hr] at hmem hbefore
  obtain he | hmem := List.mem_cons.mp hmem
  · cases he
    exact (hne rfl).elim
  · exact (List.pairwise_cons.mp hbefore).1 _ hmem c c' rfl rfl

theorem best_eq (hl : n.directory.Lists n.contexts) (q : PeerId) :
    n.directory.routes.best q =
      (n.connectionsTo q).head?.or ((n.contexts.get? q).map (.udp q)) := by
  rw [RoutingTable.best, RoutingTable.heaviest_eq]
  show (n.connectionsTo q).head?.or (n.directory.routes.routesTo q).head? = _
  cases hconnections : n.connectionsTo q with
  | cons r rs => rfl
  | nil =>
    show (n.directory.routes.routesTo q).head? = (n.contexts.get? q).map (.udp q)
    cases hroutes : n.directory.routes.routesTo q with
    | nil =>
      cases hq : n.contexts.get? q with
      | none => rfl
      | some endpoint =>
        have hmem := (hl.udp q q endpoint).mpr ⟨rfl, hq⟩
        rw [hroutes] at hmem
        cases hmem
    | cons r rs =>
      have hmem : r ∈ n.directory.routes.routesTo q := hroutes ▸ List.mem_cons_self
      cases r with
      | udp p endpoint =>
        obtain ⟨rfl, hq⟩ := (hl.udp q p endpoint).mp hmem
        rw [hq]
        rfl
      | tcp p c =>
        have hc : .tcp p c ∈ n.connectionsTo q := List.mem_filter.mpr ⟨hmem, rfl⟩
        rw [hconnections] at hc
        cases hc

theorem send_eq (n : Node) (now : Nat) (d : PeerId) (body : Body) (reliable : Bool) :
    n.send now d body reliable =
      match n.directory.routes.best d with
      | some r => n.sendBy now reliable ⟨n.id, d, body⟩ r
      | none => (n, .finished (if reliable then .error (.noRoute d) else .ok ())) := by
  rw [send, RoutingTable.delivery]
  cases n.directory.routes.best d with
  | some r => rfl
  | none => rfl

theorem contexts_eq_some {endpoint : EndpointId} (h : n.contexts.get? q = some endpoint) :
    ∃ t, n.udp = some t := by
  unfold contexts at h
  cases hu : n.udp with
  | none =>
    rw [hu] at h
    cases h
  | some t => exact ⟨t, rfl⟩

theorem contexts_kept (now : Nat) {e : Event} (he : ¬ e.Forgets) {endpoint : EndpointId}
    (h : n.contexts.get? q = some endpoint) : (n.step now e).1.contexts.get? q = some endpoint := by
  by_cases hd : ∃ bs source, e = .datagram bs source
  · obtain ⟨bs, source, rfl⟩ := hd
    obtain ⟨t, hu⟩ := contexts_eq_some h
    rw [contexts, hu] at h
    show (n.receiveDatagram now bs source).1.contexts.get? q = some endpoint
    rw [receiveDatagram, hu]
    exact (t.receive_locates n.directory now bs source).kept q endpoint h
  · rwa [n.contexts_step now he fun bs source hs => hd ⟨bs, source, hs⟩]

/-- At any time, a message for a peer goes out by the connection with it that has lasted longest;
without connections by datagrams, if the datagram transport knows the peer; and else nothing
happens. What the datagram transport knows is there when the last connection is lost. -/
theorem choice_of_route (h : Node.start setup start = .ok n₀) (events : List (Nat × Event))
    (now : Nat) (d : PeerId) (body : Body) (reliable : Bool) :
    let n := n₀.after events
    let e : Envelope := ⟨n₀.id, d, body⟩
    ((∃ c t, n.IsConnected d c ∧
      (∀ c', n.IsConnected d c' → c' ≠ c → n₀.ConnectedBefore events d c c') ∧
      n.tcp[c.transport]? = some t ∧
      n.send now d body reliable =
        ({ n with tcp := n.tcp.set c.transport (t.write c.number (.message e)).1 },
          .finished (t.write c.number (.message e)).2)) ∨
    (∃ endpoint t, (∀ c, ¬ n.IsConnected d c) ∧ n.contexts.get? d = some endpoint ∧
      n.udp = some t ∧
      n.send now d body reliable =
        if reliable then
          ({ n with udp := some (t.sendReliable n₀.id endpoint e now).1 },
            .awaiting (t.sendReliable n₀.id endpoint e now).2)
        else
          ({ n with udp := some (t.sendUnreliable n₀.id endpoint e).1 },
            .finished (t.sendUnreliable n₀.id endpoint e).2)) ∨
    (∀ c, ¬ n.IsConnected d c) ∧ n.contexts.get? d = none ∧
      n.send now d body reliable =
        (n, .finished (if reliable then .error (.noRoute d) else .ok ()))) ∧
    ∀ later x, ¬ Event.Forgets x → (∀ c, ¬ (n.step later x).1.IsConnected d c) →
      ∀ endpoint, n.contexts.get? d = some endpoint →
        (n.step later x).1.directory.routes.delivery n₀.id d body reliable =
          .via (.udp d endpoint) e := by
  intro n e
  have hc : n.IsConsistent := after_isConsistent h events
  have hw : n.IsWired := after_isWired (isWired_of_start h) (isNew_of_start h).lists events
  have hl : n.directory.Lists n.contexts := (n₀.after_keeps events).lists (isNew_of_start h).lists
  have hid : n.id = n₀.id := (n₀.after_keeps events).id
  have hsend := n.send_eq now d body reliable
  rw [best_eq hl, hid] at hsend
  refine ⟨?_, fun later x hx hlost endpoint hendpoint => ?_⟩
  · cases hconnections : n.connectionsTo d with
    | cons r rs =>
      obtain ⟨c, rfl, ⟨t, ht, hp⟩, hbefore⟩ := first_connection h events hconnections
      refine .inl ⟨c, t, ⟨t, ht, hp⟩, hbefore, ht, ?_⟩
      rw [hsend, hconnections]
      show n.sendBy now reliable e (.tcp d c) = _
      rw [sendBy, ht]
    | nil =>
      have hno := (hc.connectionsTo_eq_nil hw).mp hconnections
      rw [hconnections] at hsend
      cases hcontext : n.contexts.get? d with
      | none =>
        rw [hcontext] at hsend
        exact .inr (.inr ⟨hno, rfl, hsend⟩)
      | some endpoint =>
        obtain ⟨t, hu⟩ := contexts_eq_some hcontext
        refine .inr (.inl ⟨endpoint, t, hno, rfl, hu, ?_⟩)
        rw [hsend, hcontext]
        show n.sendBy now reliable e (.udp d endpoint) = _
        rw [sendBy, hu, hid]
  · have hc' : (n.step later x).1.IsConsistent := hc.step hw hl later x
    have hw' : (n.step later x).1.IsWired := hw.moves (step_moves hw hl later x)
    have hl' : (n.step later x).1.directory.Lists (n.step later x).1.contexts :=
      (n.step_keeps later x).lists hl
    -- The route by datagrams was there before, and is the first one without connections.
    rw [RoutingTable.delivery, best_eq hl', (hc'.connectionsTo_eq_nil hw').mpr hlost,
      contexts_kept later hx hendpoint]
    rfl

theorem choice_of_route_twoConnections :
    let n := reachable.after twoConnections
    let body : Body := .of (⟨7, "hello"⟩ : NumberedText)
    let e : Envelope := ⟨⟨1⟩, ⟨2⟩, body⟩
    let lost := (n.step 600 (.bytes ⟨0, 1⟩ [] true)).1
    Node.start .reachable 0 = .ok reachable ∧
    (∃ t, n.tcp[0]? = some t ∧ n.send 550 ⟨2⟩ body true =
      ({ n with tcp := n.tcp.set 0 (t.write 1 (.message e)).1 },
        .finished (t.write 1 (.message e)).2)) ∧
    (∀ c, ¬ lost.IsConnected ⟨2⟩ c) ∧
    lost.directory.routes.delivery ⟨1⟩ ⟨2⟩ body true = .via (.udp ⟨2⟩ 0) e := by
  intro n body e lost
  have hstart : Node.start .reachable 0 = .ok reachable := rfl
  have hisWired (events : List (Nat × Event)) : (reachable.after events).IsWired :=
    after_isWired (isWired_of_start hstart) (isNew_of_start hstart).lists events
  have hconnections : n.connectionsTo ⟨2⟩ = [.tcp ⟨2⟩ ⟨0, 1⟩] := by decide +kernel
  have hlost : ∀ c, ¬ lost.IsConnected ⟨2⟩ c := by
    have hevents : lost = reachable.after (twoConnections ++ [(600, .bytes ⟨0, 1⟩ [] true)]) := rfl
    rw [hevents, ← (after_isConsistent hstart _).connectionsTo_eq_nil (hisWired _)]
    decide +kernel
  obtain ⟨htaken, hfallback⟩ := choice_of_route hstart twoConnections 550 ⟨2⟩ body true
  have hmem (r : Route) : r ∈ n.connectionsTo ⟨2⟩ ↔ ∃ c, r = .tcp ⟨2⟩ c ∧ n.IsConnected ⟨2⟩ c :=
    (after_isConsistent hstart twoConnections).mem_connectionsTo (hisWired twoConnections)
  have hone : n.IsConnected ⟨2⟩ ⟨0, 1⟩ := by
    obtain ⟨c, he, hc⟩ := (hmem (.tcp ⟨2⟩ ⟨0, 1⟩)).mp (hconnections ▸ List.mem_cons_self)
    cases he
    exact hc
  refine ⟨hstart, ?_, hlost, ?_⟩
  · obtain ⟨c, t, hc, -, ht, hsend⟩ | ⟨_, _, hno, -⟩ | ⟨hno, -⟩ := htaken
    · have hmem := (hmem (.tcp ⟨2⟩ c)).mpr ⟨c, rfl, hc⟩
      rw [hconnections, List.mem_singleton] at hmem
      cases hmem
      exact ⟨t, ht, hsend⟩
    · exact (hno _ hone).elim
    · exact (hno _ hone).elim
  · exact hfallback 600 (.bytes ⟨0, 1⟩ [] true) not_false hlost 0 (by decide +kernel)

end Node

end PeerMesh

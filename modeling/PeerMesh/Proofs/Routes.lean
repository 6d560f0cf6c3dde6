import PeerMesh.Proofs.Reception

namespace PeerMesh

namespace RoutingTable

variable {κ : Type} [DecidableEq κ]

theorem routesTo_register {t t' : RoutingTable κ} {peer : PeerId} {route : κ}
    (h : t.register peer route = .ok t') (q : PeerId) :
    t'.routesTo q = if q = peer then t.routesTo q ++ [route] else t.routesTo q := by
  unfold register at h
  split at h
  · cases h
  · cases h
    rw [routesTo, KeyedList.get?_put]
    split
    · rename_i hq
      rw [hq]
      rfl
    · rfl

theorem routesTo_unregister (t : RoutingTable κ) (peer : PeerId) (route : κ) (q : PeerId) :
    (t.unregister peer route).1.routesTo q =
      if q = peer then (t.routesTo q).erase route else t.routesTo q := by
  unfold unregister
  by_cases hm : route ∈ t.routesTo peer
  · rw [if_pos hm]
    cases he : (t.routesTo peer).erase route with
    | nil =>
      dsimp only
      rw [routesTo, KeyedList.get?_erase]
      split
      · rename_i hq
        rw [hq, he]
        rfl
      · rfl
    | cons r rest =>
      dsimp only
      rw [routesTo, KeyedList.get?_put]
      split
      · rename_i hq
        rw [hq, he]
        rfl
      · rfl
  · rw [if_neg hm]
    split
    · rename_i hq
      rw [hq, List.erase_of_not_mem hm]
    · rfl

/-- No peer is listed without a route. -/
def IsTidy (t : RoutingTable κ) : Prop :=
  ∀ q, t.routes.get? q ≠ some []

variable {t t' : RoutingTable κ}

omit [DecidableEq κ] in
theorem isTidy_empty : IsTidy (empty : RoutingTable κ) :=
  fun _ h => nomatch h

omit [DecidableEq κ] in
theorem IsTidy.mem_peers (h : t.IsTidy) {q : PeerId} : q ∈ t.peers ↔ t.routesTo q ≠ [] := by
  rw [peers, KeyedList.mem_keys_iff, routesTo]
  cases hq : t.routes.get? q with
  | none => simp
  | some rs =>
    have hne : rs ≠ [] := fun he => h q (he ▸ hq)
    simp [hne]

theorem IsTidy.register (h : t.IsTidy) {peer : PeerId} {r : κ}
    (ht : t.register peer r = .ok t') : t'.IsTidy := by
  unfold RoutingTable.register at ht
  split at ht
  · cases ht
  · cases ht
    intro q
    rw [KeyedList.get?_put]
    split
    · simp
    · exact h q

theorem IsTidy.unregister (h : t.IsTidy) (peer : PeerId) (r : κ) :
    (t.unregister peer r).1.IsTidy := by
  unfold RoutingTable.unregister
  split
  · cases he : (t.routesTo peer).erase r with
    | nil =>
      intro q
      dsimp only
      rw [KeyedList.get?_erase]
      split
      · rintro ⟨⟩
      · exact h q
    | cons r' rest =>
      intro q
      dsimp only
      rw [KeyedList.get?_put]
      split
      · rintro ⟨⟩
      · exact h q
  · exact h

end RoutingTable

namespace Route

def isUdp : Route → Bool
  | udp _ _ => true
  | tcp _ _ => false

end Route

namespace Directory

theorem routesTo_addRoute (d : Directory) (r : Route) (q : PeerId) :
    (d.addRoute r).routes.routesTo q =
      if q = r.peer ∧ r ∉ d.routes.routesTo q then d.routes.routesTo q ++ [r]
      else d.routes.routesTo q := by
  unfold addRoute
  cases h : d.routes.register r.peer r with
  | error e =>
    have hm : r ∈ d.routes.routesTo r.peer := by
      by_contra hm
      rw [RoutingTable.register, if_neg hm] at h
      cases h
    rw [if_neg]
    rintro ⟨rfl, hn⟩
    exact hn hm
  | ok routes =>
    have hm : r ∉ d.routes.routesTo r.peer := by
      intro hm
      rw [RoutingTable.register, if_pos hm] at h
      cases h
    dsimp only
    rw [RoutingTable.routesTo_register h]
    by_cases hq : q = r.peer
    · subst hq
      rw [if_pos rfl, if_pos ⟨rfl, hm⟩]
    · rw [if_neg hq, if_neg fun hc => hq hc.1]

theorem mem_routesTo_addRoute {d : Directory} {r r' : Route} {q : PeerId} :
    r' ∈ (d.addRoute r).routes.routesTo q ↔ r' ∈ d.routes.routesTo q ∨ q = r.peer ∧ r' = r := by
  rw [routesTo_addRoute]
  split
  · rename_i h
    rw [List.mem_append, List.mem_singleton]
    exact or_congr_right (and_iff_right h.1).symm
  · rename_i h
    refine (or_iff_left_of_imp ?_).symm
    rintro ⟨hq, rfl⟩
    exact not_not.mp fun hn => h ⟨hq, hn⟩

theorem routesTo_removeRoute (d : Directory) (r : Route) (q : PeerId) :
    (d.removeRoute r).routes.routesTo q =
      if q = r.peer then (d.routes.routesTo q).erase r else d.routes.routesTo q :=
  d.routes.routesTo_unregister r.peer r q

theorem peers_addRoute (d : Directory) (r : Route) : (d.addRoute r).peers = d.peers := by
  unfold addRoute
  split
  · rfl
  · rfl

theorem nodup_addRoute {d : Directory} {q : PeerId} (h : (d.routes.routesTo q).Nodup) (r : Route) :
    ((d.addRoute r).routes.routesTo q).Nodup := by
  rw [routesTo_addRoute]
  split
  · rename_i hr
    exact List.concat_eq_append ▸ h.concat hr.2
  · exact h

theorem routesTo_removeRoute_of_nodup {d : Directory} {q : PeerId}
    (h : (d.routes.routesTo q).Nodup) (r : Route) :
    (d.removeRoute r).routes.routesTo q =
      (d.routes.routesTo q).filter fun r' => ¬ (q = r.peer ∧ r' = r) := by
  rw [routesTo_removeRoute]
  split
  · rename_i hq
    rw [h.erase_eq_filter]
    apply List.filter_congr
    intro r' _
    simp [hq, bne, beq_eq_decide]
  · rename_i hq
    simp [hq]

theorem routesTo_removeAll {d : Directory} {q : PeerId} (h : (d.routes.routesTo q).Nodup)
    (rs : List Route) : (rs.foldl removeRoute d).routes.routesTo q =
      (d.routes.routesTo q).filter fun r => ¬ (q = r.peer ∧ r ∈ rs) := by
  induction rs generalizing d with
  | nil => simp
  | cons r rs ih =>
    have hr := routesTo_removeRoute_of_nodup h r
    rw [List.foldl_cons, ih (hr ▸ h.filter _), hr, List.filter_filter]
    apply List.filter_congr
    intro r' _
    by_cases hr' : r' = r
    · subst hr'
      simpa using Or.inl
    · simp [hr']

theorem removeAll_frame (d : Directory) (rs : List Route) :
    (rs.foldl removeRoute d).identity = d.identity ∧ (rs.foldl removeRoute d).peers = d.peers := by
  induction rs generalizing d with
  | nil => exact ⟨rfl, rfl⟩
  | cons r rs ih => exact ih (d.removeRoute r)

/-- The routes by datagrams are those to the peers of a datagram transport, and no route is listed
twice. -/
structure Lists (d : Directory) (contexts : KeyedList PeerId EndpointId) : Prop where
  nodup : ∀ q, (d.routes.routesTo q).Nodup
  udp : ∀ q p e, .udp p e ∈ d.routes.routesTo q ↔ q = p ∧ contexts.get? p = some e

namespace Lists

variable {d : Directory} {contexts : KeyedList PeerId EndpointId}

theorem learn (h : d.Lists contexts) (i : Identity) : (d.learn i).1.Lists contexts :=
  ⟨h.nodup, h.udp⟩

theorem addTcp (h : d.Lists contexts) (peer : PeerId) (c : ConnectionId) :
    (d.addRoute (.tcp peer c)).Lists contexts := by
  refine ⟨fun q => nodup_addRoute (h.nodup q) _, fun q p e => ?_⟩
  rw [mem_routesTo_addRoute, h.udp]
  exact or_iff_left fun hc => nomatch hc.2

theorem removeTcp (h : d.Lists contexts) (peer : PeerId) (c : ConnectionId) :
    (d.removeRoute (.tcp peer c)).Lists contexts := by
  have hr (q : PeerId) := routesTo_removeRoute_of_nodup (h.nodup q) (.tcp peer c)
  refine ⟨fun q => hr q ▸ (h.nodup q).filter _, fun q p e => ?_⟩
  rw [hr, List.mem_filter, h.udp]
  simp

theorem addUdp (h : d.Lists contexts) {peer : PeerId} (hn : contexts.get? peer = none)
    (endpoint : EndpointId) :
    (d.addRoute (.udp peer endpoint)).Lists (contexts.put peer endpoint) := by
  refine ⟨fun q => nodup_addRoute (h.nodup q) _, fun q p e => ?_⟩
  rw [mem_routesTo_addRoute, h.udp, KeyedList.get?_put]
  by_cases hp : p = peer
  · subst hp
    simp [Route.peer, hn, eq_comm]
  · simp [hp]

theorem removeAll (h : d.Lists contexts) (q : PeerId) :
    ((contexts.entries.map fun e => Route.udp e.1 e.2).foldl removeRoute d).routes.routesTo q =
      (d.routes.routesTo q).filter fun r => ¬ r.isUdp := by
  rw [routesTo_removeAll (h.nodup q)]
  apply List.filter_congr
  intro r hr
  cases r with
  | tcp p c => simp [Route.isUdp]
  | udp p e =>
    obtain ⟨rfl, he⟩ := (h.udp q p e).mp hr
    have hm := (contexts.get?_eq_some_iff q e).mp he
    simp [Route.isUdp, Route.peer, hm]

end Lists

end Directory

theorem UdpTransport.routesTo_forgetPeers {t : UdpTransport} {d : Directory}
    (h : d.Lists t.contexts) (q : PeerId) : (t.forgetPeers d).2.routes.routesTo q =
      (d.routes.routesTo q).filter fun r => ¬ r.isUdp := by
  rw [← h.removeAll q, List.foldl_map]
  rfl

theorem UdpTransport.forgetPeers_frame (t : UdpTransport) (d : Directory) :
    (t.forgetPeers d).2.identity = d.identity ∧ (t.forgetPeers d).2.peers = d.peers := by
  have hf := d.removeAll_frame (t.contexts.entries.map fun e => .udp e.1 e.2)
  rw [List.foldl_map] at hf
  exact hf

theorem UdpTransport.forgetPeers_lists {t : UdpTransport} {d : Directory}
    (h : d.Lists t.contexts) : (t.forgetPeers d).2.Lists .empty := by
  refine ⟨fun q => ?_, fun q p e => ?_⟩
  · rw [routesTo_forgetPeers h]
    exact (h.nodup q).filter _
  · rw [routesTo_forgetPeers h, List.mem_filter]
    simp [Route.isUdp]

end PeerMesh

import PeerMesh.Proofs.Wiring

namespace PeerMesh

def PeerId.IsOther (p self : PeerId) : Prop :=
  p ≠ self ∧ ¬ p.isNil

theorem PeerId.isOther_iff {p self : PeerId} : p.IsOther self ↔ ¬ (p = self ∨ p.isNil) :=
  not_or.symm

namespace RoutingTable

/-- A table that has come from another one by registering routes that are allowed, and unregistering
any. -/
inductive Edits (allowed : Route → Prop) (t : RoutingTable Route) : RoutingTable Route → Prop
  | refl : Edits allowed t t
  | register {t' t'' : RoutingTable Route} {r : Route} (h : Edits allowed t t') (hr : allowed r)
    (ht : t'.register r.peer r = .ok t'') : Edits allowed t t''
  | unregister {t' : RoutingTable Route} (h : Edits allowed t t') (r : Route) :
    Edits allowed t (t'.unregister r.peer r).1

variable {t t' t'' : RoutingTable Route} {allowed allowed' : Route → Prop}

namespace Edits

theorem trans (h : Edits allowed t t') (h' : Edits allowed t' t'') : Edits allowed t t'' := by
  induction h' with
  | refl => exact h
  | register _ hr ht ih => exact ih.register hr ht
  | unregister _ r ih => exact ih.unregister r

theorem mono (h : Edits allowed t t') (ha : ∀ r, allowed r → allowed' r) : Edits allowed' t t' := by
  induction h with
  | refl => exact .refl
  | register _ hr ht ih => exact ih.register (ha _ hr) ht
  | unregister _ r ih => exact ih.unregister r

theorem ofEq (h : t' = t) : Edits allowed t t' :=
  h ▸ .refl

theorem isTidy (h : Edits allowed t t') (ht : t.IsTidy) : t'.IsTidy := by
  induction h with
  | refl => exact ht
  | register _ _ hreg ih => exact ih.register hreg
  | unregister _ r ih => exact ih.unregister r.peer r

theorem mem_routesTo (h : Edits allowed t t') {q : PeerId} {r : Route}
    (hr : r ∈ t'.routesTo q) : r ∈ t.routesTo q ∨ q = r.peer ∧ allowed r := by
  induction h with
  | refl => exact .inl hr
  | @register t₁ t₂ r₁ _ hallowed hreg ih =>
    rw [routesTo_register hreg] at hr
    split at hr
    · rename_i hq
      obtain hr | hr := List.mem_append.mp hr
      · exact ih hr
      · obtain rfl := List.mem_singleton.mp hr
        exact .inr ⟨hq, hallowed⟩
    · exact ih hr
  | unregister _ r₁ ih =>
    rw [routesTo_unregister] at hr
    split at hr
    · exact ih (List.mem_of_mem_erase hr)
    · exact ih hr

/-- Where at most one of the routes of a kind that lead to a peer may be registered, it comes after
those that were there, of which some may be gone. -/
theorem sublist_routesTo (h : Edits allowed t t') {kind : Route → Bool} {q : PeerId}
    {next : Option Route} (hnext : ∀ r, allowed r → r.peer = q → kind r → next = some r) :
    ((t'.routesTo q).filter kind).Sublist ((t.routesTo q).filter kind ++ next.toList) := by
  induction h with
  | refl => exact List.sublist_append_left _ _
  | @register t₁ t₂ r _ hr hreg ih =>
    rw [routesTo_register hreg]
    split
    · rename_i hq
      rw [List.filter_append]
      by_cases hk : kind r
      · have hnew : r ∉ (t₁.routesTo q).filter kind := by
          intro hm
          rw [RoutingTable.register, if_pos (hq ▸ List.mem_of_mem_filter hm)] at hreg
          cases hreg
        have hn := hnext r hr hq.symm hk
        rw [hn, Option.toList_some] at ih ⊢
        obtain ⟨old, last, he, hold, hlast⟩ := List.sublist_append_iff.mp ih
        have hnil : last = [] := by
          obtain hnil | rfl := List.sublist_singleton.mp hlast
          · exact hnil
          · exact (hnew (he ▸ List.mem_append_right old (List.mem_singleton_self r))).elim
        rw [he, hnil, List.append_nil, List.filter_cons_of_pos hk, List.filter_nil]
        exact hold.append (.refl _)
      · rw [List.filter_cons_of_neg hk, List.filter_nil, List.append_nil]
        exact ih
    · exact ih
  | unregister _ r ih =>
    rw [routesTo_unregister]
    split
    · exact ((List.erase_sublist).filter kind).trans ih
    · exact ih

end Edits

end RoutingTable

namespace Directory

variable {allowed : Route → Prop}

theorem addRoute_edits (d : Directory) {r : Route} (hr : allowed r) :
    d.routes.Edits allowed (d.addRoute r).routes := by
  unfold addRoute
  cases ht : d.routes.register r.peer r with
  | error e => exact .refl
  | ok routes => exact .register .refl hr ht

theorem removeRoute_edits (d : Directory) (r : Route) :
    d.routes.Edits allowed (d.removeRoute r).routes :=
  .unregister .refl r

theorem removeAll_edits (d : Directory) (rs : List Route) :
    d.routes.Edits allowed (rs.foldl removeRoute d).routes := by
  induction rs generalizing d with
  | nil => exact .refl
  | cons r rs ih => exact (d.removeRoute_edits r).trans (ih (d.removeRoute r))

theorem foldl_edits {σ α : Type} {f : σ × Directory → α → σ × Directory}
    (hf : ∀ (s : σ × Directory) a, s.2.routes.Edits allowed (f s a).2.routes) (as : List α)
    (s : σ × Directory) : s.2.routes.Edits allowed (as.foldl f s).2.routes := by
  induction as generalizing s with
  | nil => exact .refl
  | cons a as ih => exact (hf s a).trans (ih (f s a))

end Directory

namespace UdpTransport

theorem place_edits (t : UdpTransport) (d : Directory) (peer : PeerId) (a : SocketAddress) :
    d.routes.Edits (fun r => r.isUdp ∧ r.peer = peer) (t.place d peer a).2.routes := by
  unfold place
  split
  · exact .refl
  · exact d.addRoute_edits ⟨rfl, rfl⟩

theorem receive_edits (t : UdpTransport) (d : Directory) (now : Nat) (datagram : Bytes)
    (source : SocketAddress) :
    d.routes.Edits (fun r => r.isUdp ∧ r.peer.IsOther d.identity.id)
      (t.receive d now datagram source).directory.routes := by
  have hannounced (r : Reception) (i : Identity) (hr : r.directory.identity = d.identity) :
      r.directory.routes.Edits (fun r => r.isUdp ∧ r.peer.IsOther d.identity.id)
        (r.announced source.ip i).directory.routes := by
    unfold Reception.announced
    split
    · exact .refl
    · rename_i hi
      rw [hr, ← PeerId.isOther_iff] at hi
      cases i.declaredPort unicastPortKey with
      | none => exact .refl
      | some port =>
        refine (r.transport.place_edits r.directory i.id _).mono fun r hr => ⟨hr.1, ?_⟩
        rw [hr.2]
        exact hi
  have hall (r : Reception) (is : List Identity) (hr : r.directory.identity = d.identity) :
      r.directory.routes.Edits (fun r => r.isUdp ∧ r.peer.IsOther d.identity.id)
        (is.foldl (Reception.announced source.ip) r).directory.routes := by
    induction is generalizing r with
    | nil => exact .refl
    | cons i is ih =>
      obtain ⟨_, _, directory, _, he, hd⟩ := Reception.announced_eq source.ip r i
      refine (hannounced r i hr).trans (ih (r.announced source.ip i) ?_)
      rw [he]
      exact hd.trans hr
  unfold receive
  cases Datagram.decode datagram with
  | error e => exact .refl
  | ok ps =>
    dsimp only
    unfold Reception.handle
    dsimp only
    obtain ⟨statistics, hu⟩ := Reception.unpackedAll_eq now _ _
    rw [hu]
    exact hall { transport := _, directory := d } _ rfl

theorem forgetPeers_edits (t : UdpTransport) (d : Directory) {allowed : Route → Prop} :
    d.routes.Edits allowed (t.forgetPeers d).2.routes := by
  have h : d.routes.Edits allowed
      ((t.contexts.entries.map fun e => .udp e.1 e.2).foldl Directory.removeRoute d).routes :=
    d.removeAll_edits _
  rwa [List.foldl_map] at h

end UdpTransport

namespace TcpTransport

variable {allowed : Route → Prop}

theorem close_edits (t : TcpTransport) (d : Directory) (number now : Nat) :
    d.routes.Edits allowed (t.close d number now).2.routes := by
  unfold close
  cases t.connections.get? number with
  | none => exact .refl
  | some c =>
    dsimp only
    cases c.stage with
    | opened deadline => exact .refl
    | established peer => exact d.removeRoute_edits _

theorem handshakesDue_edits (t : TcpTransport) (d : Directory) (now : Nat) :
    d.routes.Edits allowed (t.handshakesDue d now).2.routes := by
  refine Directory.foldl_edits (fun s e => ?_) t.connections.entries (t, d)
  dsimp only
  split
  · split
    · exact s.1.close_edits s.2 e.1 now
    · exact .refl
  · exact .refl

theorem shutDown_edits (t : TcpTransport) (d : Directory) (now : Nat) :
    d.routes.Edits allowed (t.shutDown d now).2.routes :=
  Directory.foldl_edits (fun s number => s.1.close_edits s.2 number now) _ (t, d)

end TcpTransport

/-- The route that a connection becomes when the handshake of another node comes. -/
def Connection.Becomes (self : PeerId) (id : ConnectionId) (c : Connection) (r : Route) : Prop :=
  c.peer? = none ∧ ∃ p, p.IsOther self ∧ r = .tcp p id

namespace TcpReception

variable {number : Nat} {r : TcpReception} {c : Connection}

theorem frame_edits (h : r.transport.connections.get? number = some c) (now : Nat) (f : Frame) :
    r.directory.routes.Edits
        (c.Becomes r.directory.identity.id ⟨r.transport.index, number⟩)
        (frame number now r f).directory.routes ∧
      ∀ c', (frame number now r f).transport.connections.get? number = some c' →
        c'.peer?.isSome := by
  -- Neither the end of the connection nor what leaves its stage alone registers anything.
  have hclose (r : TcpReception) {allowed : Route → Prop} :
      r.directory.routes.Edits allowed (r.close number now).directory.routes ∧
        ∀ c', (r.close number now).transport.connections.get? number = some c' →
          c'.peer?.isSome := by
    refine ⟨r.transport.close_edits r.directory number now, fun c' hc' => ?_⟩
    cases (r.transport.get?_close r.directory number now).symm.trans hc'
  have hstay (d : Directory) (arrivals : List Envelope) (released : List Held) {peer : PeerId}
      (hs : c.stage = .established peer) (hd : d.routes = r.directory.routes)
      {allowed : Route → Prop} :
      let r' : TcpReception := { r with directory := d, arrivals, released }
      r.directory.routes.Edits allowed r'.directory.routes ∧
        ∀ c', r'.transport.connections.get? number = some c' → c'.peer?.isSome := by
    refine ⟨.ofEq hd, fun c' hc' => ?_⟩
    cases h.symm.trans hc'
    rw [Connection.peer?, hs]
    rfl
  unfold frame
  rw [h]
  dsimp only
  split
  · rename_i deadline i hs
    split
    · exact hclose r
    · rename_i hi
      refine ⟨Directory.addRoute_edits _ ⟨?_, i.id, PeerId.isOther_iff.mpr hi, rfl⟩,
        fun c' hc' => ?_⟩
      · rw [Connection.peer?, hs]
      · have hput := hc'.symm.trans (KeyedList.get?_put _ _ _ _)
        rw [if_pos rfl] at hput
        cases hput
        rfl
  · exact hclose r
  · split
    · exact hstay _ _ _ ‹_› rfl
    · exact hstay _ _ _ ‹_› rfl
  · split
    · exact hstay _ _ _ ‹_› rfl
    · exact hclose r
  · exact hstay _ _ _ ‹_› rfl

theorem foldl_frame_edits (h : r.transport.connections.get? number = some c) (now : Nat)
    (fs : List Frame) :
    r.directory.routes.Edits
      (c.Becomes r.directory.identity.id ⟨r.transport.index, number⟩)
      (fs.foldl (frame number now) r).directory.routes := by
  induction fs generalizing r c with
  | nil => exact .refl
  | cons f fs ih =>
    obtain ⟨hedits, hpeer⟩ := frame_edits h now f
    rw [List.foldl_cons]
    refine hedits.trans ?_
    cases hc : (frame number now r f).transport.connections.get? number with
    | none =>
      rw [foldl_frame_of_closed hc]
      exact .refl
    | some c' =>
      -- The handshake is over after the first frame, and nothing is registered any more.
      refine (ih hc).mono fun route hroute => ?_
      have hsome := hpeer c' hc
      rw [hroute.1] at hsome
      cases hsome

end TcpReception

namespace TcpTransport

theorem receive_edits {t : TcpTransport} {number : Nat} {c : Connection}
    (h : t.connections.get? number = some c) (d : Directory) (now : Nat) (bs : Bytes)
    (ended : Bool) :
    d.routes.Edits (c.Becomes d.identity.id ⟨t.index, number⟩)
      (t.receive d number now bs ended).directory.routes := by
  unfold receive
  rw [h]
  dsimp only
  have hframes := TcpReception.foldl_frame_edits (r := { transport := t, directory := d }) h now
    (readFrames t.config.maxFrame ended (c.unread ++ bs)).1
  split
  · exact hframes
  · exact hframes.trans (TcpTransport.close_edits _ _ number now)
  · exact hframes.trans (TcpTransport.close_edits _ _ number now)

def Act.MayRegister (self : PeerId) (t : TcpTransport) : Act → Route → Prop
  | .receive number _ _, r =>
    ∃ c, t.connections.get? number = some c ∧ c.Becomes self ⟨t.index, number⟩ r
  | _, _ => False

theorem act_edits (t : TcpTransport) (d : Directory) (now : Nat) (a : Act) :
    d.routes.Edits (a.MayRegister d.identity.id t) (t.act d now a).2.routes := by
  cases a with
  | receive number bs ended =>
    rw [act]
    cases hc : t.connections.get? number with
    | none =>
      rw [receive, hc]
      exact .refl
    | some c => exact (receive_edits hc d now bs ended).mono fun r hr => ⟨c, hc, hr⟩
  | handshakesDue => exact t.handshakesDue_edits d now
  | shutDown => exact t.shutDown_edits d now
  | _ => exact .refl

end TcpTransport

namespace Node

def MayRegister (n : Node) : Event → Route → Prop
  | .datagram _ _, r => r.isUdp ∧ r.peer.IsOther n.id
  | .bytes c _ _, r => ∃ t connection, n.tcp[c.transport]? = some t ∧
      t.connections.get? c.number = some connection ∧ connection.Becomes n.id c r
  | _, _ => False

theorem found_edits (n : Node) (now : Nat) (e : Event) :
    n.directory.routes.Edits (n.MayRegister e) (n.found now e).routes := by
  have hd := n.finds_found now e
  generalize n.found now e = d at hd ⊢
  cases hd with
  | datagram hu bs source => exact UdpTransport.receive_edits _ n.directory now bs source
  | forgotten hu e => exact UdpTransport.forgetPeers_edits _ n.directory
  | same e h => exact .ofEq h

theorem mayRegister_of_tcpActs {n : Node} (hw : n.IsWired) {k : Nat} {t : TcpTransport}
    (ht : n.tcp[k]? = some t) {e : Event} {r : Route}
    (h : (n.tcpActs e k).MayRegister n.id t r) : n.MayRegister e r := by
  have ha := n.asks_tcpActs e k
  generalize n.tcpActs e k = a at h ha
  cases ha with
  | receive number bs ended =>
    obtain ⟨connection, hc, hr⟩ := h
    rw [hw.index _ t ht] at hr
    exact ⟨t, connection, ht, hc, hr⟩
  | plain e ha =>
    cases a with
    | receive number bs ended => exact ha.elim
    | _ => exact h.elim
  | _ => exact h.elim

/-- An event registers the routes that it may, and unregisters others. -/
theorem step_edits {n : Node} (hw : n.IsWired) (now : Nat) (e : Event) :
    n.directory.routes.Edits (n.MayRegister e) (n.step now e).1.directory.routes := by
  have hstep := congrArg Prod.snd (n.tcp_step now e)
  have hid : (n.found now e).identity.id = n.id :=
    (congrArg Identity.id (n.identity_step now e)).symm.trans (n.step_keeps now e).id
  let P (d : Directory) : Prop :=
    n.directory.routes.Edits (n.MayRegister e) d.routes ∧ d.identity.id = n.id
  have hP : P (TcpTransport.actAll now (n.tcpActs e) n.tcp (n.found now e)).2 := by
    refine (TcpTransport.actAll_keeps (fun k t ht d hd => ?_) ⟨n.found_edits now e, hid⟩).1
    refine ⟨hd.1.trans ((t.act_edits d now (n.tcpActs e k)).mono fun r hr => ?_),
      (congrArg Identity.id (t.identity_act d now _)).trans hd.2⟩
    rw [hd.2] at hr
    exact mayRegister_of_tcpActs hw ht hr
  rw [← hstep] at hP
  exact hP.1

end Node

end PeerMesh

import PeerMesh.Proofs.Steps

namespace PeerMesh

namespace Route

def isBy (c : ConnectionId) : Route → Bool
  | udp _ _ => false
  | tcp _ c' => c' = c

end Route

/-- Of the routes by connections, those by connections in the set `S` are as they were. -/
structure Directory.Retains (S : ConnectionId → Prop) (d d' : Directory) : Prop where
  nodup : (∀ q, (d.routes.routesTo q).Nodup) → ∀ q, (d'.routes.routesTo q).Nodup
  routes : ∀ c, S c → ∀ q p, .tcp p c ∈ d'.routes.routesTo q ↔ .tcp p c ∈ d.routes.routesTo q

namespace Directory

variable {d d' d'' : Directory} {S : ConnectionId → Prop}

theorem Retains.refl (S : ConnectionId → Prop) (d : Directory) : d.Retains S d :=
  ⟨id, fun _ _ _ _ => .rfl⟩

theorem Retains.trans (h : d.Retains S d') (h' : d'.Retains S d'') : d.Retains S d'' :=
  ⟨fun hn => h'.nodup (h.nodup hn),
    fun c hc q p => (h'.routes c hc q p).trans (h.routes c hc q p)⟩

theorem Retains.ofRoutes (S : ConnectionId → Prop) (h : d'.routes = d.routes) :
    d.Retains S d' :=
  ⟨fun hn => h ▸ hn, fun _ _ _ _ => h ▸ .rfl⟩

theorem Retains.addUdp (d : Directory) (peer : PeerId) (endpoint : EndpointId) :
    d.Retains S (d.addRoute (.udp peer endpoint)) := by
  refine ⟨fun hn q => nodup_addRoute (hn q) _, fun c _ q p => ?_⟩
  rw [mem_routesTo_addRoute]
  exact or_iff_left fun h => nomatch h.2

theorem filter_addRoute {r : Route} {p : Route → Bool} (hr : p r = false) (d : Directory)
    (q : PeerId) :
    ((d.addRoute r).routes.routesTo q).filter p = (d.routes.routesTo q).filter p := by
  rw [routesTo_addRoute]
  split
  · rw [List.filter_append, List.filter_singleton, hr]
    exact List.append_nil _
  · rfl

theorem filter_removeRoute {r : Route} {p : Route → Bool} (hr : p r = false) (d : Directory)
    (q : PeerId) :
    ((d.removeRoute r).routes.routesTo q).filter p = (d.routes.routesTo q).filter p := by
  rw [routesTo_removeRoute]
  split
  · rw [← List.erase_filter, List.erase_of_not_mem]
    intro hm
    rw [(List.mem_filter.mp hm).2] at hr
    cases hr
  · rfl

theorem mem_routesTo_of_filter {c c' : ConnectionId}
    (h : ∀ q, (d'.routes.routesTo q).filter (fun r => ¬ r.isBy c) =
      (d.routes.routesTo q).filter fun r => ¬ r.isBy c) (hc : c' ≠ c) (q p : PeerId) :
    .tcp p c' ∈ d'.routes.routesTo q ↔ .tcp p c' ∈ d.routes.routesTo q := by
  have hby : decide (¬ (Route.tcp p c').isBy c) = true := by simp [Route.isBy, hc]
  have hq := congrArg (Route.tcp p c' ∈ ·) (h q)
  simpa only [List.mem_filter, hby, and_true, eq_iff_iff] using hq

end Directory

namespace TcpTransport

def state? (t : TcpTransport) (number : Nat) : Option (ConnectionStage × Bytes) :=
  (t.connections.get? number).map fun c => (c.stage, c.unread)

def peer? (t : TcpTransport) (number : Nat) : Option PeerId :=
  (t.connections.get? number).bind Connection.peer?

variable {t t' : TcpTransport} {d d' : Directory} {number : Nat}

theorem state?_eq_none : t.state? number = none ↔ t.connections.get? number = none :=
  Option.map_eq_none_iff

theorem peer?_congr (h : t'.state? number = t.state? number) :
    t'.peer? number = t.peer? number := by
  rw [state?, state?] at h
  rw [peer?, peer?]
  cases hc : t.connections.get? number with
  | none =>
    rw [hc] at h
    rw [Option.map_eq_none_iff.mp h]
  | some c =>
    rw [hc] at h
    obtain ⟨c', hc', hs⟩ := Option.map_eq_some_iff.mp h
    have hstage : c'.stage = c.stage := congrArg Prod.fst hs
    rw [hc', Option.bind_some, Option.bind_some, Connection.peer?, Connection.peer?, hstage]

theorem mem_established {p : PeerId} :
    (number, p) ∈ t.established ↔ t.peer? number = some p := by
  rw [established, List.mem_filterMap, peer?, Option.bind_eq_some_iff]
  constructor
  · rintro ⟨⟨m, c⟩, hm, hp⟩
    obtain ⟨p', hp', he⟩ := Option.map_eq_some_iff.mp hp
    cases he
    exact ⟨c, (t.connections.get?_eq_some_iff _ c).mpr hm, hp'⟩
  · rintro ⟨c, hc, hp⟩
    refine ⟨(number, c), (t.connections.get?_eq_some_iff _ c).mp hc, ?_⟩
    rw [hp]
    rfl

/-- The routes by connections of the transport are those whose handshake is over. -/
structure Serves (t : TcpTransport) (d : Directory) : Prop where
  nodup : ∀ q, (d.routes.routesTo q).Nodup
  unused : ∀ number, t.nextConnection ≤ number → t.connections.get? number = none
  routes : ∀ number q p, .tcp p ⟨t.index, number⟩ ∈ d.routes.routesTo q ↔
    q = p ∧ t.peer? number = some p

theorem Serves.retains {S : ConnectionId → Prop} (h : t.Serves d) (hd : d.Retains S d')
    (hS : ∀ number, S ⟨t.index, number⟩) : t.Serves d' :=
  ⟨hd.nodup h.nodup, h.unused,
    fun number q p => (hd.routes _ (hS number) q p).trans (h.routes number q p)⟩

/-- At most the connections in a set have changed, and the routes that they are. -/
structure Moves (S : Nat → Prop) (s s' : TcpTransport × Directory) : Prop where
  config : s'.1.config = s.1.config
  index : s'.1.index = s.1.index
  next : s.1.nextConnection ≤ s'.1.nextConnection
  others : ∀ m, ¬ S m → s'.1.state? m = s.1.state? m
  serves : s.1.Serves s.2 → s'.1.Serves s'.2

/-- What moves is of the transport itself, not of others. -/
structure Acts (S : Nat → Prop) (s s' : TcpTransport × Directory) : Prop
    extends Moves S s s' where
  routes : s.2.Retains (·.transport ≠ s.1.index) s'.2

section Moves

variable {S S' : Nat → Prop} {s s' s'' : TcpTransport × Directory}

theorem Moves.refl (S : Nat → Prop) (s : TcpTransport × Directory) : Moves S s s :=
  ⟨rfl, rfl, Nat.le_refl _, fun _ _ => rfl, id⟩

theorem Moves.trans (h : Moves S s s') (h' : Moves S s' s'') : Moves S s s'' :=
  ⟨h'.config.trans h.config, h'.index.trans h.index, Nat.le_trans h.next h'.next,
    fun m hm => (h'.others m hm).trans (h.others m hm), fun hs => h'.serves (h.serves hs)⟩

theorem Moves.mono (h : Moves S s s') (hS : ∀ m, S m → S' m) : Moves S' s s' :=
  ⟨h.config, h.index, h.next, fun m hm => h.others m fun hs => hm (hS m hs), h.serves⟩

theorem Moves.elsewhere {C : ConnectionId → Prop} (S : Nat → Prop) (hd : d.Retains C d')
    (hC : ∀ m, C ⟨t.index, m⟩) : Moves S (t, d) (t, d') :=
  ⟨rfl, rfl, Nat.le_refl _, fun _ _ => rfl, fun h => h.retains hd hC⟩

theorem Acts.refl (S : Nat → Prop) (s : TcpTransport × Directory) : Acts S s s :=
  ⟨.refl S s, .refl _ _⟩

theorem Acts.trans (h : Acts S s s') (h' : Acts S s' s'') : Acts S s s'' :=
  ⟨h.toMoves.trans h'.toMoves, h.routes.trans (h.index ▸ h'.routes)⟩

/-- One thing is done after the other. -/
theorem Acts.foldl {α : Type} {f : TcpTransport × Directory → α → TcpTransport × Directory}
    (as : List α) (hf : ∀ s, ∀ a ∈ as, Acts S s (f s a)) (s : TcpTransport × Directory) :
    Acts S s (as.foldl f s) := by
  induction as generalizing s with
  | nil => exact .refl S s
  | cons a as ih =>
    obtain ⟨ha, has⟩ := List.forall_mem_cons.mp (fun a ha s => hf s a ha)
    exact (ha s).trans (ih (fun s a ha => has a ha s) (f s a))

end Moves

structure Stays (t t' : TcpTransport) : Prop where
  config : t'.config = t.config
  index : t'.index = t.index
  next : t'.nextConnection = t.nextConnection
  state : ∀ m, t'.state? m = t.state? m

namespace Stays

theorem refl (t : TcpTransport) : t.Stays t :=
  ⟨rfl, rfl, rfl, fun _ => rfl⟩

theorem trans {t'' : TcpTransport} (h : t.Stays t') (h' : t'.Stays t'') : t.Stays t'' :=
  ⟨h'.config.trans h.config, h'.index.trans h.index, h'.next.trans h.next,
    fun m => (h'.state m).trans (h.state m)⟩

theorem ofActivity (t : TcpTransport) (activity : TcpActivity) : t.Stays { t with activity } :=
  ⟨rfl, rfl, rfl, fun _ => rfl⟩

theorem moves (h : t.Stays t') (S : Nat → Prop) (hd : d.Retains (fun _ => True) d') :
    Moves S (t, d) (t', d') := by
  refine ⟨h.config, h.index, Nat.le_of_eq h.next.symm, fun m _ => h.state m, fun hs => ?_⟩
  refine ⟨hd.nodup hs.nodup, fun m hm => ?_, fun m q p => ?_⟩
  · rw [← state?_eq_none, h.state m, state?_eq_none]
    exact hs.unused m (h.next ▸ hm)
  · rw [h.index, peer?_congr (h.state m)]
    exact (hd.routes _ trivial q p).trans (hs.routes m q p)

theorem acts (h : t.Stays t') (S : Nat → Prop) (d : Directory) : Acts S (t, d) (t', d) :=
  ⟨h.moves S (.refl _ d), .refl _ d⟩

end Stays

/-- At most one connection of the transport has changed, and the route that it is. -/
structure Changes (number : Nat) (s s' : TcpTransport × Directory) : Prop where
  config : s'.1.config = s.1.config
  index : s'.1.index = s.1.index
  next : s'.1.nextConnection = s.1.nextConnection
  others : ∀ m ≠ number, s'.1.connections.get? m = s.1.connections.get? m
  routes : ∀ q, (s'.2.routes.routesTo q).filter (fun r => ¬ r.isBy ⟨s.1.index, number⟩) =
    (s.2.routes.routesTo q).filter fun r => ¬ r.isBy ⟨s.1.index, number⟩
  nodup : (∀ q, (s.2.routes.routesTo q).Nodup) → ∀ q, (s'.2.routes.routesTo q).Nodup
  serves : s.1.Serves s.2 → s'.1.Serves s'.2

namespace Changes

variable {s s' s'' : TcpTransport × Directory}

theorem refl (number : Nat) (s : TcpTransport × Directory) : Changes number s s :=
  ⟨rfl, rfl, rfl, fun _ _ => rfl, fun _ => rfl, id, id⟩

theorem trans (h : Changes number s s') (h' : Changes number s' s'') : Changes number s s'' := by
  refine ⟨h'.config.trans h.config, h'.index.trans h.index, h'.next.trans h.next,
    fun m hm => (h'.others m hm).trans (h.others m hm), fun q => ?_,
    fun hn => h'.nodup (h.nodup hn), fun hs => h'.serves (h.serves hs)⟩
  rw [← h.routes q, ← h.index]
  exact h'.routes q

theorem ofOwn (hc : t'.config = t.config) (hi : t'.index = t.index)
    (hn : t'.nextConnection = t.nextConnection)
    (ho : ∀ m ≠ number, t'.connections.get? m = t.connections.get? m)
    (hr : ∀ q, (d'.routes.routesTo q).filter (fun r => ¬ r.isBy ⟨t.index, number⟩) =
      (d.routes.routesTo q).filter fun r => ¬ r.isBy ⟨t.index, number⟩)
    (hd : (∀ q, (d.routes.routesTo q).Nodup) → ∀ q, (d'.routes.routesTo q).Nodup)
    (hu : t.connections.get? number = none → t'.connections.get? number = none)
    (hown : t.Serves d → ∀ q p, .tcp p ⟨t.index, number⟩ ∈ d'.routes.routesTo q ↔
      q = p ∧ t'.peer? number = some p) :
    Changes number (t, d) (t', d') := by
  refine ⟨hc, hi, hn, ho, hr, hd, fun hs => ⟨hd hs.nodup, fun m hm => ?_, fun m q p => ?_⟩⟩
  · have hnone := hs.unused m (hn ▸ hm)
    by_cases hm : m = number
    · subst hm
      exact hu hnone
    · exact (ho m hm).trans hnone
  · dsimp only at hi ⊢
    rw [hi]
    by_cases hm : m = number
    · subst hm
      exact hown hs q p
    · have hne : (⟨t.index, m⟩ : ConnectionId) ≠ ⟨t.index, number⟩ :=
        fun h => hm (congrArg ConnectionId.number h)
      rw [Directory.mem_routesTo_of_filter hr hne, hs.routes m q p, peer?, peer?,
        ho m hm]

theorem ofPeer (hc : t'.config = t.config) (hi : t'.index = t.index)
    (hn : t'.nextConnection = t.nextConnection)
    (ho : ∀ m ≠ number, t'.connections.get? m = t.connections.get? m)
    (hd : d'.routes = d.routes)
    (hu : t.connections.get? number = none → t'.connections.get? number = none)
    (hp : t'.peer? number = t.peer? number) : Changes number (t, d) (t', d') := by
  refine ofOwn hc hi hn ho (fun q => by rw [hd]) (fun hn => hd ▸ hn) hu fun hs q p => ?_
  rw [hd, hp]
  exact hs.routes number q p

theorem acts (h : Changes number s s') {S : Nat → Prop} (hS : S number) : Acts S s s' := by
  refine ⟨⟨h.config, h.index, Nat.le_of_eq h.next.symm, fun m hm => ?_, h.serves⟩, h.nodup,
    fun c hc => Directory.mem_routesTo_of_filter h.routes ?_⟩
  · rw [state?, state?, h.others m]
    rintro rfl
    exact hm hS
  · exact fun he => hc (congrArg ConnectionId.transport he)

end Changes

theorem pause_eq (t : TcpTransport) (now : Nat) :
    ∃ activity, t.pause now = { t with activity } := by
  unfold pause
  split
  · exact ⟨_, rfl⟩
  · exact ⟨_, rfl⟩

theorem close_eq {c : Connection} (h : t.connections.get? number = some c) (d : Directory)
    (now : Nat) : ∃ activity, t.close d number now =
      ({ t with activity, connections := t.connections.erase number },
        match c.stage with
        | .opened _ => d
        | .established peer => d.removeRoute (.tcp peer ⟨t.index, number⟩)) := by
  unfold close
  rw [h]
  dsimp only
  split
  · obtain ⟨activity, hp⟩ := pause_eq { t with connections := t.connections.erase number } now
    exact ⟨activity, congrArg (·, _) hp⟩
  · exact ⟨_, rfl⟩

theorem close_changes (t : TcpTransport) (d : Directory) (number now : Nat) :
    Changes number (t, d) (t.close d number now) := by
  cases h : t.connections.get? number with
  | none =>
    have hclose : t.close d number now = (t, d) := by rw [close, h]
    rw [hclose]
    exact .refl number (t, d)
  | some c =>
    obtain ⟨activity, hclose⟩ := close_eq h d now
    have hgone : (t.connections.erase number).get? number = none := by
      rw [KeyedList.get?_erase, if_pos rfl]
    have hothers : ∀ m ≠ number,
        (t.connections.erase number).get? m = t.connections.get? m := by
      intro m hm
      rw [KeyedList.get?_erase, if_neg hm]
    rw [hclose]
    cases hs : c.stage with
    | opened deadline =>
      have hpeer : t.peer? number = none := by rw [peer?, h, Option.bind_some, Connection.peer?, hs]
      -- A connection whose handshake is not over has no route that could be left.
      refine .ofOwn rfl rfl rfl hothers (fun _ => rfl) id (fun _ => hgone) fun hserves q p => ?_
      rw [hserves.routes, hpeer, peer?, hgone]
      rfl
    | established peer =>
      have hpeer : t.peer? number = some peer := by
        rw [peer?, h, Option.bind_some, Connection.peer?, hs]
      refine .ofOwn rfl rfl rfl hothers (fun q => ?_) (fun hn q => ?_) (fun _ => hgone)
        fun hserves q p => ?_
      · exact Directory.filter_removeRoute (by simp [Route.isBy]) d q
      · rw [Directory.routesTo_removeRoute_of_nodup (hn q)]
        exact (hn q).filter _
      · rw [Directory.routesTo_removeRoute_of_nodup (hserves.nodup q), List.mem_filter,
          hserves.routes, hpeer, peer?, hgone]
        refine ⟨?_, fun h => nomatch h.2⟩
        rintro ⟨⟨rfl, hp⟩, hne⟩
        cases hp
        simp [Route.peer] at hne

theorem handshakesDue_acts (t : TcpTransport) (d : Directory) (now : Nat) :
    Acts (fun number => ∃ c deadline, t.connections.get? number = some c ∧
      c.stage = .opened deadline ∧ deadline ≤ now) (t, d) (t.handshakesDue d now) := by
  refine Acts.foldl t.connections.entries (fun s e he => ?_) (t, d)
  dsimp only
  split
  · split
    · refine (s.1.close_changes s.2 e.1 now).acts ?_
      exact ⟨e.2, _, (t.connections.get?_eq_some_iff _ _).mpr he, ‹_›, ‹_›⟩
    · exact .refl _ s
  · exact .refl _ s

theorem shutDown_acts (t : TcpTransport) (d : Directory) (now : Nat) :
    Acts (fun _ => True) (t, d) (t.shutDown d now) := by
  have hclose := Acts.foldl (S := fun _ => True)
    (f := fun (s : TcpTransport × Directory) number => s.1.close s.2 number now)
    t.connections.keys (fun s number _ => (s.1.close_changes s.2 number now).acts trivial) (t, d)
  exact hclose.trans ⟨(Stays.ofActivity _ _).moves _ (.refl _ _), .refl _ _⟩

theorem pause_stays (t : TcpTransport) (now : Nat) : t.Stays (t.pause now) := by
  obtain ⟨activity, h⟩ := t.pause_eq now
  rw [h]
  exact .ofActivity t activity

theorem bound_stays (t : TcpTransport) : t.Stays t.bound := by
  unfold bound
  split
  · exact .refl t
  · exact .ofActivity t _

theorem retryDue_stays (t : TcpTransport) (now : Nat) : t.Stays (t.retryDue now) := by
  unfold retryDue
  split
  · split
    · exact .ofActivity t _
    · exact .refl t
  · exact .refl t

theorem write_stays (t : TcpTransport) (number : Nat) (p : Payload) :
    t.Stays (t.write number p).1 := by
  unfold write
  cases h : t.connections.get? number with
  | none => exact .refl t
  | some c =>
    refine ⟨rfl, rfl, rfl, fun m => ?_⟩
    dsimp only
    rw [state?, state?, KeyedList.get?_put]
    split
    · rename_i hm
      rw [hm, h]
      rfl
    · rfl

theorem writeAll_stays (t : TcpTransport) (p : Payload) : t.Stays (t.writeAll p) := by
  unfold writeAll
  generalize t.established = es
  induction es generalizing t with
  | nil => exact .refl t
  | cons e es ih => exact (t.write_stays e.1 p).trans (ih (t.write e.1 p).1)

theorem broadcast_stays (t : TcpTransport) (e : Envelope) : t.Stays (t.broadcast e).1 := by
  unfold broadcast
  split
  · exact .refl t
  · exact t.writeAll_stays _

/-- A connection that is opened gets a number of its own. -/
theorem opened_moves (t : TcpTransport) (d : Directory) (self : Identity) (a : SocketAddress)
    (now : Nat) : Moves (· = t.nextConnection) (t, d) (t.opened self a now, d) := by
  have hstays (t' : TcpTransport) (h : t.Stays t') :
      Moves (· = t.nextConnection) (t, d) (t', d) :=
    h.moves _ (.refl _ d)
  unfold opened
  split
  · exact .refl _ _
  · dsimp only
    split
    · split
      · exact hstays _ (t.pause_stays now)
      · exact .refl _ _
    · have hothers (c : Connection) : ∀ m ≠ t.nextConnection,
          (t.connections.put t.nextConnection c).get? m = t.connections.get? m := by
        intro m hm
        rw [KeyedList.get?_put, if_neg hm]
      refine ⟨rfl, rfl, Nat.le_succ _, fun m hm => congrArg _ (hothers _ m hm), fun hs => ?_⟩
      refine ⟨hs.nodup, fun m hm => ?_, fun m q p => (hs.routes m q p).trans ?_⟩
      · exact (hothers _ m (Nat.ne_of_gt hm)).trans (hs.unused m (Nat.le_of_succ_le hm))
      · rw [peer?, peer?]
        by_cases hm : m = t.nextConnection
        · rw [hm, hs.unused _ (Nat.le_refl _), KeyedList.get?_put, if_pos rfl]
          rfl
        · rw [hothers _ m hm]

end TcpTransport

namespace TcpReception

variable {number : Nat}

theorem establish_changes {r : TcpReception} {c : Connection} {deadline : Nat}
    (h : r.transport.connections.get? number = some c) (hs : c.stage = .opened deadline)
    (i : Identity) : TcpTransport.Changes number (r.transport, r.directory)
      ((r.establish number c i).transport, (r.establish number c i).directory) := by
  refine .ofOwn rfl rfl rfl (fun m hm => ?_) (fun q => ?_) (fun hn q => ?_) (fun hn => ?_)
    fun hserves q p => ?_
  · exact (r.transport.connections.get?_put number m _).trans (if_neg hm)
  · exact Directory.filter_addRoute (by simp [Route.isBy]) r.directory q
  · exact Directory.nodup_addRoute (hn q) _
  · cases h.symm.trans hn
  · have hbefore : r.transport.peer? number = none := by
      rw [TcpTransport.peer?, h, Option.bind_some, Connection.peer?, hs]
    have hafter : (r.establish number c i).transport.peer? number = some i.id := by
      have hput := r.transport.connections.get?_put number number
        { c with stage := .established i.id }
      rw [if_pos rfl] at hput
      exact congrArg (·.bind Connection.peer?) hput
    refine Directory.mem_routesTo_addRoute.trans ?_
    rw [hserves.routes, hbefore, hafter]
    constructor
    · rintro (⟨-, hp⟩ | ⟨rfl, hp⟩)
      · cases hp
      · cases hp
        exact ⟨rfl, rfl⟩
    · rintro ⟨rfl, hp⟩
      cases hp
      exact .inr ⟨rfl, rfl⟩

theorem frame_changes (number now : Nat) (r : TcpReception) (f : Frame) :
    TcpTransport.Changes number (r.transport, r.directory)
      ((frame number now r f).transport, (frame number now r f).directory) := by
  unfold frame
  cases h : r.transport.connections.get? number with
  | none => exact .refl number _
  | some c =>
    dsimp only
    split
    · split
      · exact r.transport.close_changes r.directory number now
      · exact establish_changes h ‹_› _
    · exact r.transport.close_changes r.directory number now
    · split
      · exact .refl number _
      · exact .refl number _
    · split
      · exact .ofPeer rfl rfl rfl (fun _ _ => rfl) rfl id rfl
      · exact r.transport.close_changes r.directory number now
    · exact .refl number _

theorem foldl_frame_changes (number now : Nat) (r : TcpReception) (fs : List Frame) :
    TcpTransport.Changes number (r.transport, r.directory)
      ((fs.foldl (frame number now) r).transport, (fs.foldl (frame number now) r).directory) := by
  induction fs generalizing r with
  | nil => exact .refl number _
  | cons f fs ih => exact (frame_changes number now r f).trans (ih (frame number now r f))

end TcpReception

namespace TcpTransport

theorem receive_changes (t : TcpTransport) (d : Directory) (number now : Nat) (bs : Bytes)
    (ended : Bool) :
    let r := t.receive d number now bs ended
    Changes number (t, d) (r.transport, r.directory) := by
  unfold receive
  cases h : t.connections.get? number with
  | none => exact .refl number (t, d)
  | some c =>
    dsimp only
    have hframes := TcpReception.foldl_frame_changes number now { transport := t, directory := d }
      (readFrames t.config.maxFrame ended (c.unread ++ bs)).1
    generalize (readFrames t.config.maxFrame ended (c.unread ++ bs)).1.foldl
      (TcpReception.frame number now) { transport := t, directory := d } = r at hframes
    split
    · rename_i unread _
      have hmodify (m : Nat) :=
        r.transport.connections.get?_modify number m fun c => { c with unread }
      refine hframes.trans (.ofPeer rfl rfl rfl (fun m hm => ?_) rfl (fun hn => ?_) ?_)
      · exact (hmodify m).trans (if_neg hm)
      · refine (hmodify number).trans ?_
        rw [if_pos rfl, hn]
        rfl
      · refine (congrArg (·.bind Connection.peer?) (hmodify number)).trans ?_
        rw [if_pos rfl, peer?, Option.bind_map]
        rfl
    · exact hframes.trans (close_changes _ _ number now)
    · exact hframes.trans (close_changes _ _ number now)

def Act.Concerns (now : Nat) (t : TcpTransport) : Act → Nat → Prop
  | .opened _, number => number = t.nextConnection
  | .receive number' _ _, number => number = number'
  | .handshakesDue, number => ∃ c deadline, t.connections.get? number = some c ∧
      c.stage = .opened deadline ∧ deadline ≤ now
  | .shutDown, _ => True
  | _, _ => False

theorem Act.IsPlain.not_concerns {a : Act} (ha : a.IsPlain) {now : Nat} {t : TcpTransport}
    {number : Nat} : ¬ a.Concerns now t number := by
  intro h
  cases a with
  | opened a => exact ha
  | receive number bs ended => exact ha
  | handshakesDue => exact ha
  | write number p => exact ha
  | shutDown => exact ha
  | _ => exact h

theorem act_acts (t : TcpTransport) (d : Directory) (now : Nat) (a : Act) :
    Acts (a.Concerns now t) (t, d) (t.act d now a) := by
  cases a with
  | rest => exact .refl _ _
  | opened a => exact ⟨t.opened_moves d d.identity a now, .refl _ _⟩
  | receive number bs ended => exact (t.receive_changes d number now bs ended).acts rfl
  | handshakesDue => exact t.handshakesDue_acts d now
  | bound => exact t.bound_stays.acts _ d
  | pause => exact (t.pause_stays now).acts _ d
  | retryDue => exact (t.retryDue_stays now).acts _ d
  | write number p => exact (t.write_stays number p).acts _ d
  | announce => exact (t.writeAll_stays _).acts _ d
  | broadcast e => exact (t.broadcast_stays e).acts _ d
  | shutDown => exact t.shutDown_acts d now

variable {now : Nat} {acts : Nat → Act} {ts : List TcpTransport}

theorem actAll_retains {k : Nat} (hk : ∀ t ∈ ts, t.index ≠ k) (d : Directory) :
    d.Retains (·.transport = k) (actAll now acts ts d).2 := by
  refine (actAll_keeps (fun j t ht d' hd' => hd'.trans ?_) (.refl _ d)).1
  have hr := (t.act_acts d' now (acts j)).routes
  exact ⟨hr.nodup, fun c hc => hr.routes c fun he =>
    hk t (List.mem_of_getElem? ht) (he.symm.trans hc)⟩

theorem actAll_moves {b : Nat} (hi : ∀ j t, ts[j]? = some t → t.index = b + j) (now : Nat)
    (acts : Nat → Act) (d : Directory) {j : Nat} {t : TcpTransport} (ht : ts[j]? = some t) :
    ∃ t', (actAll now acts ts d).1[j]? = some t' ∧
      Moves ((acts j).Concerns now t) (t, d) (t', (actAll now acts ts d).2) := by
  induction ts generalizing acts d b j with
  | nil => cases ht
  | cons t₀ ts ih =>
    have hrest : ∀ i t, ts[i]? = some t → t.index = b + 1 + i := by
      intro i t hit
      rw [hi (i + 1) t hit]
      omega
    have hfirst := t₀.act_acts d now (acts 0)
    cases j with
    | zero =>
      cases ht
      have hothers : ∀ t' ∈ ts, t'.index ≠ t.index := by
        intro t' hm
        obtain ⟨i, hi'⟩ := List.mem_iff_getElem?.mp hm
        rw [hrest i t' hi', hi 0 t rfl]
        omega
      refine ⟨_, rfl, hfirst.toMoves.trans ?_⟩
      exact .elsewhere _ (actAll_retains hothers (t.act d now (acts 0)).2) fun m => hfirst.index
    | succ j =>
      obtain ⟨t', ht', hm⟩ := ih hrest (fun i => acts (i + 1)) (t₀.act d now (acts 0)).2 ht
      refine ⟨t', ht', .trans ?_ hm⟩
      refine .elsewhere _ hfirst.routes fun m => ?_
      show t.index ≠ t₀.index
      rw [hi 0 t₀ rfl, hrest j t ht]
      omega

end TcpTransport

namespace UdpTransport

theorem place_retains (t : UdpTransport) (d : Directory) (peer : PeerId) (a : SocketAddress)
    (S : ConnectionId → Prop) : d.Retains S (t.place d peer a).2 := by
  unfold place
  split
  · exact .refl S d
  · exact .addUdp d _ _

theorem receive_retains (t : UdpTransport) (d : Directory) (now : Nat) (datagram : Bytes)
    (source : SocketAddress) (S : ConnectionId → Prop) :
    d.Retains S (t.receive d now datagram source).directory := by
  have hannounced (r : Reception) (i : Identity) :
      r.directory.Retains S (r.announced source.ip i).directory := by
    unfold Reception.announced
    split
    · exact .refl S _
    · cases i.declaredPort unicastPortKey with
      | none => exact .ofRoutes S rfl
      | some port => exact (r.transport.place_retains r.directory i.id _ S).trans (.ofRoutes S rfl)
  have hall (r : Reception) (is : List Identity) :
      r.directory.Retains S (is.foldl (Reception.announced source.ip) r).directory := by
    induction is generalizing r with
    | nil => exact .refl S _
    | cons i is ih => exact (hannounced r i).trans (ih (r.announced source.ip i))
  unfold receive
  cases Datagram.decode datagram with
  | error e => exact .refl S d
  | ok ps =>
    dsimp only
    unfold Reception.handle
    dsimp only
    obtain ⟨statistics, hu⟩ := Reception.unpackedAll_eq now _ _
    rw [hu]
    exact hall { transport := _, directory := d } _

theorem forgetPeers_retains {t : UdpTransport} {d : Directory} (h : d.Lists t.contexts)
    (S : ConnectionId → Prop) : d.Retains S (t.forgetPeers d).2 := by
  have hroutes := routesTo_forgetPeers h
  refine ⟨fun hn q => hroutes q ▸ (hn q).filter _, fun c _ q p => ?_⟩
  rw [hroutes, List.mem_filter]
  exact and_iff_left rfl

end UdpTransport

namespace Node

def connection? (n : Node) (c : ConnectionId) : Option Connection :=
  n.tcp[c.transport]?.bind (·.connections.get? c.number)

/-- The routes by connections are the connections whose handshake is over. -/
structure IsWired (n : Node) : Prop where
  index : ∀ (k : Nat) t, n.tcp[k]? = some t → t.index = k
  serves : ∀ (k : Nat) t, n.tcp[k]? = some t → t.Serves n.directory

structure Moves (S : ConnectionId → Prop) (n n' : Node) : Prop where
  length : n'.tcp.length = n.tcp.length
  transport : ∀ (k : Nat) t, n.tcp[k]? = some t → ∃ t', n'.tcp[k]? = some t' ∧
    TcpTransport.Moves (fun m => S ⟨k, m⟩) (t, n.directory) (t', n'.directory)

variable {n n' : Node} {S : ConnectionId → Prop}

theorem IsWired.moves (h : n.IsWired) (hm : n.Moves S n') : n'.IsWired := by
  have hold (k : Nat) (t' : TcpTransport) (ht' : n'.tcp[k]? = some t') :
      ∃ t, n.tcp[k]? = some t ∧
        TcpTransport.Moves (fun m => S ⟨k, m⟩) (t, n.directory) (t', n'.directory) := by
    obtain ⟨hlt, -⟩ := List.getElem?_eq_some_iff.mp ht'
    have ht := List.getElem?_eq_getElem (hm.length ▸ hlt)
    obtain ⟨t'', ht'', hmoves⟩ := hm.transport k _ ht
    cases ht'.symm.trans ht''
    exact ⟨_, ht, hmoves⟩
  refine ⟨fun k t' ht' => ?_, fun k t' ht' => ?_⟩
  · obtain ⟨t, ht, hmoves⟩ := hold k t' ht'
    exact hmoves.index.trans (h.index k t ht)
  · obtain ⟨t, ht, hmoves⟩ := hold k t' ht'
    exact hmoves.serves (h.serves k t ht)

/-- The connection transports act one after the other, on a directory that has the same routes by
connections. -/
theorem Moves.ofActs (hw : n.IsWired) {now : Nat} {acts : Nat → TcpTransport.Act} {d : Directory}
    (hd : n.directory.Retains (fun _ => True) d)
    (h : (n'.tcp, n'.directory) = TcpTransport.actAll now acts n.tcp d)
    (hS : ∀ (k : Nat) t, n.tcp[k]? = some t → ∀ m, (acts k).Concerns now t m → S ⟨k, m⟩) :
    n.Moves S n' := by
  have htcp : n'.tcp = (TcpTransport.actAll now acts n.tcp d).1 := congrArg Prod.fst h
  have hdirectory : n'.directory = (TcpTransport.actAll now acts n.tcp d).2 := congrArg Prod.snd h
  refine ⟨htcp ▸ TcpTransport.length_actAll now acts n.tcp d, fun k t hk => ?_⟩
  have hi : ∀ (j : Nat) t, n.tcp[j]? = some t → t.index = 0 + j := by
    intro j t hj
    rw [hw.index j t hj, Nat.zero_add]
  obtain ⟨t', ht', hm⟩ := TcpTransport.actAll_moves hi now acts d hk
  rw [htcp, hdirectory]
  have hfound : TcpTransport.Moves (fun m => S ⟨k, m⟩) (t, n.directory) (t, d) :=
    .elsewhere _ hd fun _ => trivial
  exact ⟨t', ht', hfound.trans (hm.mono (hS k t hk))⟩

def Concerns (n : Node) (now : Nat) (c : ConnectionId) : Event → Prop
  | .opened transport _ =>
    transport = c.transport ∧ ∀ t, n.tcp[transport]? = some t → c.number = t.nextConnection
  | .bytes c' _ _ => c' = c
  | .handshakesDue => ∃ t connection deadline, n.tcp[c.transport]? = some t ∧
    t.connections.get? c.number = some connection ∧ connection.stage = .opened deadline ∧
      deadline ≤ now
  | .stopTcp transport => transport = c.transport
  | .shutDown => True
  | _ => False

theorem concerns_of_tcpActs {now k m : Nat} {t : TcpTransport} (ht : n.tcp[k]? = some t)
    {e : Event} (h : (n.tcpActs e k).Concerns now t m) : n.Concerns now ⟨k, m⟩ e := by
  have ha := n.asks_tcpActs e k
  generalize n.tcpActs e k = a at h ha
  cases ha with
  | opened a =>
    refine ⟨rfl, fun t' ht' => ?_⟩
    cases ht.symm.trans ht'
    exact h
  | receive number bs ended => exact congrArg (ConnectionId.mk k) h.symm
  | handshakesDue =>
    obtain ⟨c, deadline, hc⟩ := h
    exact ⟨t, c, deadline, ht, hc⟩
  | stopTcp => rfl
  | shutDown => trivial
  | message e number m => exact h.elim
  | plain e ha => exact (ha.not_concerns h).elim

theorem found_retains (hl : n.directory.Lists n.contexts) (now : Nat) (e : Event)
    (S : ConnectionId → Prop) : n.directory.Retains S (n.found now e) := by
  have hd := n.finds_found now e
  generalize n.found now e = d at hd ⊢
  cases hd with
  | datagram hu bs source => exact UdpTransport.receive_retains _ _ _ _ _ S
  | forgotten hu e =>
    rw [contexts, hu] at hl
    exact UdpTransport.forgetPeers_retains hl S
  | same e h => exact .ofRoutes S h

/-- An event leaves alone the connections that it is not about. -/
theorem step_moves (hw : n.IsWired) (hl : n.directory.Lists n.contexts) (now : Nat) (e : Event) :
    n.Moves (fun c => n.Concerns now c e) (n.step now e).1 :=
  .ofActs hw (found_retains hl now e _) (n.tcp_step now e) fun _ _ ht _ => concerns_of_tcpActs ht

theorem after_isWired (hw : n.IsWired) (hl : n.directory.Lists n.contexts)
    (events : List (Nat × Event)) : (n.after events).IsWired := by
  induction events using List.reverseRecOn with
  | nil => exact hw
  | append_singleton events e ih =>
    rw [after_concat]
    exact ih.moves (step_moves ih ((n.after_keeps events).lists hl) e.1 e.2)

theorem new_of_startAllTcp {now : Nat} {configs : List TcpConfig}
    (hn : ∀ (k : Nat) t, n.tcp[k]? = some t → ∃ config, t = { config, index := k })
    (h : n.startAllTcp now configs = .ok n') (k : Nat) (t : TcpTransport)
    (ht : n'.tcp[k]? = some t) : ∃ config, t = { config, index := k } := by
  induction configs generalizing n with
  | nil =>
    cases h
    exact hn k t ht
  | cons c configs ih =>
    unfold startAllTcp startTcp at h
    cases hc : c.check with
    | error e =>
      rw [hc] at h
      cases h
    | ok u =>
      rw [hc] at h
      refine ih (fun j t' ht' => ?_) h
      obtain hlt | hge := Nat.lt_or_ge j n.tcp.length
      · exact hn j t' ((List.getElem?_append_left hlt).symm.trans ht')
      · have hlast := (List.getElem?_append_right hge).symm.trans ht'
        obtain ⟨hj, -⟩ := List.getElem?_eq_some_iff.mp hlast
        obtain rfl : j = n.tcp.length := by
          rw [List.length_singleton] at hj
          omega
        rw [Nat.sub_self] at hlast
        cases hlast
        exact ⟨c, rfl⟩

theorem isWired_of_start {setup : NodeSetup} {now : Nat} (h : start setup now = .ok n) :
    n.IsWired := by
  have hnil (k : Nat) (t : TcpTransport) (ht : ([] : List TcpTransport)[k]? = some t) :
      ∃ config, t = { config, index := k } := by
    rw [List.getElem?_nil] at ht
    cases ht
  have hnew : ∀ (k : Nat) t, n.tcp[k]? = some t → ∃ config, t = { config, index := k } := by
    unfold start at h
    dsimp only at h
    split at h
    · exact new_of_startAllTcp hnil h
    · split at h
      · cases h
      · rename_i hu
        obtain ⟨link, -, rfl⟩ := startUdp_eq hu
        exact new_of_startAllTcp hnil h
  refine ⟨fun k t ht => ?_, fun k t ht => ?_⟩
  · obtain ⟨config, rfl⟩ := hnew k t ht
    rfl
  · obtain ⟨config, rfl⟩ := hnew k t ht
    have hroutes (q : PeerId) : n.directory.routes.routesTo q = [] := by
      rw [(isNew_of_start h).routes]
      rfl
    refine ⟨fun q => ?_, fun _ _ => rfl, fun number q p => ?_⟩
    · rw [hroutes]
      exact List.nodup_nil
    · rw [hroutes]
      exact ⟨fun hm => (List.not_mem_nil hm).elim, fun hp => nomatch hp.2⟩

end Node

end PeerMesh

import PeerMesh.Proofs.Conversations

namespace PeerMesh

/-- What has come of a stream, and whether that is all of it. -/
structure Arrived where
  bytes : Bytes := []
  ended : Bool := false

def Arrived.extend (s : Arrived) (bs : Bytes) (ended : Bool) : Arrived :=
  if s.ended then s else ⟨s.bytes ++ bs, ended⟩

namespace Node

def Event.piece? (c : ConnectionId) : Event → Option (Bytes × Bool)
  | .bytes c' bs ended => if c' = c then some (bs, ended) else none
  | _ => none

theorem Event.piece?_eq_some {c : ConnectionId} {e : Event} {bs : Bytes} {ended : Bool} :
    e.piece? c = some (bs, ended) ↔ e = .bytes c bs ended := by
  constructor
  · intro h
    unfold piece? at h
    split at h
    · split at h
      · rename_i hc
        cases h
        rw [hc]
      · cases h
    · cases h
  · rintro rfl
    exact if_pos rfl

section

variable {α : Type}

def collect (bring : Node → Nat → Event → List α) (n : Node) : List (Nat × Event) → List α
  | [] => []
  | e :: events => bring n e.1 e.2 ++ (n.step e.1 e.2).1.collect bring events

theorem collect_append (bring : Node → Nat → Event → List α) (n : Node)
    (events more : List (Nat × Event)) :
    n.collect bring (events ++ more) =
      n.collect bring events ++ (n.after events).collect bring more := by
  induction events generalizing n with
  | nil => rfl
  | cons e events ih =>
    rw [List.cons_append, collect, ih, collect, List.append_assoc]
    rfl

theorem collect_concat (bring : Node → Nat → Event → List α) (n : Node)
    (events : List (Nat × Event)) (e : Nat × Event) :
    n.collect bring (events ++ [e]) =
      n.collect bring events ++ bring (n.after events) e.1 e.2 := by
  rw [collect_append, collect, collect, List.append_nil]

end

/-- The stream that arrives on a connection. -/
def stream (c : ConnectionId) (events : List (Nat × Event)) : Arrived :=
  (events.filterMap fun e => e.2.piece? c).foldl (fun s piece => s.extend piece.1 piece.2) {}

def handedAt (c : ConnectionId) (n : Node) (now : Nat) (e : Event) : List Envelope :=
  match e.piece? c with
  | none => []
  | some (bs, ended) => (n.receiveBytes now c bs ended).2.arrivals

def handed (n : Node) (c : ConnectionId) (events : List (Nat × Event)) : List Envelope :=
  n.collect (handedAt c) events

def toldAt (c : ConnectionId) (n : Node) (_ : Nat) (e : Event) : List Identity :=
  match e.piece? c with
  | none => []
  | some _ => n.told e

/-- While bytes are taken that arrive on the connection, it is a route to the peer. -/
def RegistersAt (c : ConnectionId) (peer : PeerId) (n : Node) (now : Nat) (e : Event) : Prop :=
  match e.piece? c with
  | none => False
  | some (bs, ended) => ∃ t fs, n.tcp[c.transport]? = some t ∧ fs <+: t.frames c.number bs ended ∧
    .tcp peer c ∈ (fs.foldl (TcpReception.frame c.number now)
      { transport := t, directory := n.directory }).directory.routes.routesTo peer

def Registers (n : Node) (c : ConnectionId) (peer : PeerId) : List (Nat × Event) → Prop
  | [] => False
  | e :: events => n.RegistersAt c peer e.1 e.2 ∨ (n.step e.1 e.2).1.Registers c peer events

theorem registers_concat (n : Node) (c : ConnectionId) (peer : PeerId)
    (events : List (Nat × Event)) (e : Nat × Event) :
    n.Registers c peer (events ++ [e]) ↔
      n.Registers c peer events ∨ (n.after events).RegistersAt c peer e.1 e.2 := by
  induction events generalizing n with
  | nil => exact or_comm
  | cons e' events ih =>
    rw [List.cons_append, Registers, ih, Registers, or_assoc]
    rfl

variable {n : Node} {c : ConnectionId} {events : List (Nat × Event)} {e : Nat × Event}

theorem stream_concat_of_none (events : List (Nat × Event)) (he : e.2.piece? c = none) :
    stream c (events ++ [e]) = stream c events := by
  rw [stream, List.filterMap_append,
    List.filterMap_cons_none (f := fun e : Nat × Event => e.2.piece? c) he, List.filterMap_nil,
    List.append_nil, ← stream]

theorem stream_concat (events : List (Nat × Event)) {bs : Bytes} {ended : Bool}
    (he : e.2.piece? c = some (bs, ended)) :
    stream c (events ++ [e]) = (stream c events).extend bs ended := by
  rw [stream, List.filterMap_append, List.foldl_append, ← stream,
    List.filterMap_cons_some (f := fun e : Nat × Event => e.2.piece? c) he]
  rfl

variable {t : TcpTransport} {bs : Bytes} {ended : Bool}

theorem step_of_ended (hw : n.IsWired) (ht : n.tcp[c.transport]? = some t)
    (hs : t.state? c.number = none) (he : e.2 = .bytes c bs ended) :
    (n.step e.1 e.2).1.tcp[c.transport]? = some t ∧ n.handedAt c e.1 e.2 = [] ∧
      n.toldAt c e.1 e.2 = [] ∧ ∀ peer, ¬ n.RegistersAt c peer e.1 e.2 := by
  have hpiece := Event.piece?_eq_some.mpr he
  have hnone := TcpTransport.state?_eq_none.mp hs
  have hreceive (now : Nat) : t.receive n.directory c.number now bs ended =
      { transport := t, directory := n.directory } := by
    rw [TcpTransport.receive, hnone]
  obtain ⟨hlt, -⟩ := List.getElem?_eq_some_iff.mp ht
  refine ⟨?_, ?_, ?_, fun peer hr => ?_⟩
  · rw [he]
    show (n.receiveBytes e.1 c bs ended).1.tcp[c.transport]? = some t
    rw [receiveBytes, ht]
    dsimp only
    rw [hreceive]
    exact List.getElem?_set_self hlt
  · rw [handedAt, hpiece]
    dsimp only
    rw [receiveBytes, ht]
    dsimp only
    rw [hreceive]
  · rw [toldAt, hpiece, he]
    dsimp only
    rw [told, ht]
    dsimp only
    rw [TcpTransport.told, hnone]
  · rw [RegistersAt, hpiece] at hr
    obtain ⟨t', fs, ht', hfs, hr⟩ := hr
    cases ht.symm.trans ht'
    rw [TcpTransport.frames, hnone, List.prefix_nil] at hfs
    subst hfs
    have hroutes := ((hw.serves _ t ht).routes c.number peer peer).mp
    rw [hw.index _ t ht, TcpTransport.peer?, hnone] at hroutes
    cases (hroutes hr).2

theorem mem_routesTo_foldl_frame {s : ConnectionStage} {u : Bytes} (hw : n.IsWired)
    (ht : n.tcp[c.transport]? = some t) (hs : t.state? c.number = some (s, u)) (now : Nat)
    (fs : List Frame) (peer : PeerId) :
    .tcp peer c ∈ (fs.foldl (TcpReception.frame c.number now)
        { transport := t, directory := n.directory }).directory.routes.routesTo peer ↔
      s.after? n.id fs = some (.established peer) := by
  have hstate := (TcpReception.foldl_frame_goes
    (r := { transport := t, directory := n.directory }) hs now fs).state
  have hchanges := TcpReception.foldl_frame_changes c.number now
    { transport := t, directory := n.directory } fs
  have hroutes := (hchanges.serves (hw.serves _ t ht)).routes c.number peer peer
  dsimp only at hroutes
  rw [hchanges.index, hw.index _ t ht, TcpTransport.peer?_eq_some, hstate] at hroutes
  refine hroutes.trans ⟨?_, fun ha => ⟨rfl, u, ?_⟩⟩
  · rintro ⟨-, u, hu⟩
    obtain ⟨s, hs, he⟩ := Option.map_eq_some_iff.mp hu
    cases he
    exact hs
  · show Option.map _ (s.after? n.id fs) = _
    rw [ha]
    rfl

theorem step_of_stage {s : ConnectionStage} {u : Bytes} (hw : n.IsWired)
    (ht : n.tcp[c.transport]? = some t) (hs : t.state? c.number = some (s, u))
    (he : e.2 = .bytes c bs ended) :
    ∃ contents rest t', Splits t.config.maxFrame (u ++ bs) contents rest ∧
      (n.step e.1 e.2).1.tcp[c.transport]? = some t' ∧ t'.config = t.config ∧
      t'.nextConnection = t.nextConnection ∧
      let fs := contents.map Frame.ofContent
      (t'.state? c.number =
        if ended ∨ Frame.IsOversized t.config.maxFrame rest then none
        else (s.after? n.id fs).map (·, rest)) ∧
      n.handedAt c e.1 e.2 = s.brought n.id fs ∧ n.toldAt c e.1 e.2 = s.told n.id fs ∧
      ∀ peer, n.RegistersAt c peer e.1 e.2 ↔
        ∃ fs', fs' <+: fs ∧ s.after? n.id fs' = some (.established peer) := by
  have hpiece := Event.piece?_eq_some.mpr he
  obtain ⟨conn, hconn, rfl, rfl⟩ := TcpTransport.state?_eq_some.mp hs
  obtain ⟨contents, rest, hsplits, hframes, harrivals, hstate⟩ :=
    TcpTransport.receive_goes hs n.directory e.1 bs ended
  have hchanges := t.receive_changes n.directory c.number e.1 bs ended
  obtain ⟨hlt, -⟩ := List.getElem?_eq_some_iff.mp ht
  refine ⟨contents, rest, (t.receive n.directory c.number e.1 bs ended).transport, hsplits, ?_,
    hchanges.config, hchanges.next, hstate, ?_, ?_, fun peer => ?_⟩
  · rw [he]
    show (n.receiveBytes e.1 c bs ended).1.tcp[c.transport]? = _
    rw [receiveBytes, ht]
    exact List.getElem?_set_self hlt
  · rw [handedAt, hpiece]
    dsimp only
    rw [receiveBytes, ht]
    exact harrivals
  · rw [toldAt, hpiece, he]
    dsimp only
    rw [told, ht]
    dsimp only
    rw [TcpTransport.told, hconn]
    dsimp only
    rw [hframes]
  · rw [RegistersAt, hpiece]
    constructor
    · rintro ⟨t', fs, ht', hfs, hr⟩
      cases ht.symm.trans ht'
      rw [TcpTransport.frames, hconn] at hfs
      dsimp only at hfs
      exact ⟨fs, hframes ▸ hfs, (mem_routesTo_foldl_frame hw ht hs e.1 fs peer).mp hr⟩
    · rintro ⟨fs, hfs, ha⟩
      refine ⟨t, fs, ht, ?_, (mem_routesTo_foldl_frame hw ht hs e.1 fs peer).mpr ha⟩
      rw [TcpTransport.frames, hconn]
      dsimp only
      rw [hframes]
      exact hfs

/-- What a connection waits for after a stream of whole frames and a rest, unless it has ended. -/
def expected (self : PeerId) (max deadline : Nat) (ended : Bool) (contents : List Bytes)
    (rest : Bytes) : Option (ConnectionStage × Bytes) :=
  if ended ∨ Frame.IsOversized max rest then none
  else ((ConnectionStage.opened deadline).after? self (contents.map Frame.ofContent)).map (·, rest)

theorem expected_eq_none {self : PeerId} {max deadline : Nat} {contents : List Bytes}
    {rest : Bytes} :
    expected self max deadline ended contents rest = none ↔
      ended ∨ Frame.IsOversized max rest ∨
        (ConnectionStage.opened deadline).after? self (contents.map Frame.ofContent) = none := by
  rw [expected, ← or_assoc]
  split
  · simp [*]
  · simp [*]

/-- After some events, a connection is as the frames say that have arrived since it was opened. -/
structure Converses (n : Node) (c : ConnectionId) (t₀ : TcpTransport) (deadline : Nat)
    (events : List (Nat × Event)) (contents : List Bytes) (rest : Bytes) : Prop where
  splits : Splits t₀.config.maxFrame (stream c events).bytes contents rest
  state : ∃ t, (n.after events).tcp[c.transport]? = some t ∧ t.config = t₀.config ∧
    c.number < t.nextConnection ∧ t.state? c.number =
      expected n.id t₀.config.maxFrame deadline (stream c events).ended contents rest
  handed : n.handed c events =
    (ConnectionStage.opened deadline).brought n.id (contents.map Frame.ofContent)
  told : n.collect (toldAt c) events =
    (ConnectionStage.opened deadline).told n.id (contents.map Frame.ofContent)
  registers : ∀ peer, n.Registers c peer events ↔ ∃ fs, fs <+: contents.map Frame.ofContent ∧
    (ConnectionStage.opened deadline).after? n.id fs = some (.established peer)

namespace Converses

variable {t₀ : TcpTransport} {deadline : Nat} {contents : List Bytes} {rest : Bytes}

theorem apart (h : n.Converses c t₀ deadline events contents rest) (hw : (n.after events).IsWired)
    (hl : (n.after events).directory.Lists (n.after events).contexts) (he : e.2.piece? c = none)
    (hc : ¬ (n.after events).Concerns e.1 c e.2) :
    n.Converses c t₀ deadline (events ++ [e]) contents rest := by
  obtain ⟨t, ht, hconfig, hnext, hstate⟩ := h.state
  obtain ⟨t', ht', hm⟩ := (step_moves hw hl e.1 e.2).transport c.transport t ht
  have hstream := stream_concat_of_none events he
  have hnext' := Nat.lt_of_lt_of_le hnext hm.next
  refine ⟨hstream ▸ h.splits, ⟨t', ?_, hm.config.trans hconfig, hnext', ?_⟩, ?_, ?_, fun peer => ?_⟩
  · rw [after_concat]
    exact ht'
  · rw [hstream, ← hstate]
    exact hm.others c.number hc
  · rw [Node.handed, collect_concat, handedAt, he, List.append_nil]
    exact h.handed
  · rw [collect_concat, toldAt, he, List.append_nil]
    exact h.told
  · rw [registers_concat, RegistersAt, he, or_false]
    exact h.registers peer

theorem silent (h : n.Converses c t₀ deadline events contents rest)
    (hw : (n.after events).IsWired) (he : e.2 = .bytes c bs ended) {contents' : List Bytes}
    {rest' : Bytes} (hsplits : Splits t₀.config.maxFrame (stream c (events ++ [e])).bytes
      (contents ++ contents') rest')
    (hover : expected n.id t₀.config.maxFrame deadline (stream c events).ended contents rest = none)
    (hover' : expected n.id t₀.config.maxFrame deadline (stream c (events ++ [e])).ended
      (contents ++ contents') rest' = none)
    (hnone : contents' = [] ∨
      (ConnectionStage.opened deadline).after? n.id (contents.map Frame.ofContent) = none) :
    n.Converses c t₀ deadline (events ++ [e]) (contents ++ contents') rest' := by
  obtain ⟨t, ht, hconfig, hnext, hstate⟩ := h.state
  obtain ⟨ht', hhanded, htold, hreg⟩ := step_of_ended hw ht (hstate.trans hover) he
  obtain ⟨-, hbrought, htells, hprefix⟩ :=
    ConnectionStage.append_of_over (contents'.map Frame.ofContent)
      (hnone.imp_left fun h => List.map_eq_nil_iff.mpr h)
  rw [← List.map_append] at hbrought htells hprefix
  refine ⟨hsplits, ⟨t, after_concat n events e ▸ ht', hconfig, hnext, ?_⟩, ?_, ?_, fun peer => ?_⟩
  · exact (hstate.trans hover).trans hover'.symm
  · rw [Node.handed, collect_concat, ← Node.handed, hhanded, List.append_nil, h.handed, hbrought]
  · rw [collect_concat, htold, List.append_nil, h.told, htells]
  · rw [registers_concat, or_iff_left (hreg peer), h.registers, hprefix]

theorem more (h : n.Converses c t₀ deadline events contents rest)
    (hw : (n.after events).IsWired) (he : e.2 = .bytes c bs ended)
    {s : ConnectionStage} (hend : ¬ (stream c events).ended)
    (hs : (ConnectionStage.opened deadline).after? n.id (contents.map Frame.ofContent) = some s)
    (ho : ¬ Frame.IsOversized t₀.config.maxFrame rest) :
    ∃ contents' rest', n.Converses c t₀ deadline (events ++ [e]) contents' rest' := by
  obtain ⟨t, ht, hconfig, hnext, hstate⟩ := h.state
  rw [expected, if_neg fun hend' => hend'.elim hend ho, hs] at hstate
  obtain ⟨contents', rest', t', hsplits, ht', hconfig', hnext', hstate', hhanded, htold, hreg⟩ :=
    step_of_stage hw ht hstate he
  have hid : (n.after events).id = n.id := (n.after_keeps events).id
  have hstream := stream_concat events (Event.piece?_eq_some.mpr he)
  rw [Arrived.extend, if_neg hend] at hstream
  rw [hid] at hstate' hhanded htold hreg
  rw [hconfig] at hstate' hsplits
  refine ⟨contents ++ contents', rest', ?_, ⟨t', ?_, hconfig'.trans hconfig, hnext' ▸ hnext, ?_⟩,
    ?_, ?_, fun peer => ?_⟩
  · rw [hstream]
    exact h.splits.append hsplits
  · rw [after_concat]
    exact ht'
  · rw [hstate', hstream, expected, List.map_append, ConnectionStage.after?_append, hs]
    rfl
  · rw [Node.handed, collect_concat, ← Node.handed, h.handed, hhanded, List.map_append,
      ConnectionStage.brought_append, hs]
    rfl
  · rw [collect_concat, h.told, htold, List.map_append, ConnectionStage.told_append, hs]
    rfl
  · rw [registers_concat, h.registers, hreg, List.map_append,
      ConnectionStage.exists_prefix_append]
    simp only [ConnectionStage.after?_append, hs, Option.bind_some]

theorem bytes (h : n.Converses c t₀ deadline events contents rest)
    (hw : (n.after events).IsWired) (he : e.2 = .bytes c bs ended) :
    ∃ contents' rest', n.Converses c t₀ deadline (events ++ [e]) contents' rest' := by
  have hstream := stream_concat events (Event.piece?_eq_some.mpr he)
  rw [Arrived.extend] at hstream
  by_cases hend : (stream c events).ended
  · rw [if_pos hend] at hstream
    have hs := h.splits
    rw [← List.append_nil contents] at hs
    exact ⟨_, _, h.silent hw he (hstream ▸ hs) (expected_eq_none.mpr (.inl hend))
      (expected_eq_none.mpr (.inl (hstream ▸ hend))) (.inl rfl)⟩
  rw [if_neg hend] at hstream
  have hbytes : (stream c (events ++ [e])).bytes = (stream c events).bytes ++ bs := by rw [hstream]
  by_cases ho : Frame.IsOversized t₀.config.maxFrame rest
  · have hrest := ho.append bs
    have hs := h.splits.append (.nil (.inr hrest))
    exact ⟨_, _, h.silent hw he (hbytes ▸ hs) (expected_eq_none.mpr (.inr (.inl ho)))
      (expected_eq_none.mpr (.inr (.inl hrest))) (.inl rfl)⟩
  cases ha : (ConnectionStage.opened deadline).after? n.id (contents.map Frame.ofContent) with
  | none =>
    obtain ⟨contents', rest', hs, -⟩ := readFrames_splits t₀.config.maxFrame false (rest ++ bs)
    have hnone := (ConnectionStage.append_of_over (contents'.map Frame.ofContent)
      (.inr ha)).1.trans ha
    rw [← List.map_append] at hnone
    exact ⟨_, _, h.silent hw he (hbytes ▸ h.splits.append hs)
      (expected_eq_none.mpr (.inr (.inr ha))) (expected_eq_none.mpr (.inr (.inr hnone))) (.inr ha)⟩
  | some s => exact h.more hw he hend ha ho

/-- What ends a connection: the end of its stream, a frame that is too long, or what frames say. -/
theorem isOver_iff (h : n.Converses c t₀ deadline events contents rest) :
    ∃ t, (n.after events).tcp[c.transport]? = some t ∧
      let isOver := (stream c events).ended ∨ Frame.IsOversized t₀.config.maxFrame rest ∨
        Frame.IsBroken n.id (contents.map Frame.ofContent)
      (t.state? c.number = none ↔ isOver) ∧
      ∀ peer, t.peer? c.number = some peer ↔
        Frame.introduced n.id (contents.map Frame.ofContent) = some peer ∧ ¬ isOver := by
  obtain ⟨t, ht, -, -, hstate⟩ := h.state
  refine ⟨t, ht, ?_, fun peer => ?_⟩
  · rw [hstate, expected_eq_none, ConnectionStage.after?_opened_eq_none]
  · rw [TcpTransport.peer?_eq_some, hstate, expected, ← or_assoc, not_or, and_left_comm,
      ← ConnectionStage.after?_opened_eq_some _ _ deadline]
    split
    · simp [*]
    · simp [*]

end Converses

theorem opened_converses (since : Nat) (a : SocketAddress) {k : Nat} (ht : n.tcp[k]? = some t)
    (hrun : ¬ t.isStopped)
    (hown : (Payload.handshake n.directory.identity).encode.length ≤ t.config.maxFrame) :
    (n.step since (.opened k a)).1.Converses ⟨k, t.nextConnection⟩ t
      (since + t.config.handshakeTimeout) [] [] [] := by
  obtain ⟨writer, activity, hopened⟩ := TcpTransport.opened_eq hrun hown a since
  let t' := t.opened n.directory.identity a since
  have ht' : ((n.step since (.opened k a)).1.after []).tcp[k]? = some t' := by
    show (n.tcp.modify k (·.opened n.directory.identity a since))[k]? = some t'
    rw [List.getElem?_modify, ht]
    exact congrArg some (if_pos rfl)
  have hstate : t'.state? t.nextConnection =
      some (.opened (since + t.config.handshakeTimeout), []) := by
    show (t.opened _ a since).state? t.nextConnection = _
    rw [hopened, TcpTransport.state?, KeyedList.get?_put, if_pos rfl]
    rfl
  have hopen : ¬ ((stream ⟨k, t.nextConnection⟩ []).ended ∨
      Frame.IsOversized t.config.maxFrame []) := by
    rintro (he | ho)
    · cases he
    · exact ho.not_isPartial (Frame.isPartial_nil _)
  refine ⟨.nil (.inl (Frame.isPartial_nil _)), ⟨t', ht', ?_, ?_, ?_⟩, rfl, rfl, fun peer => ?_⟩
  · show (t.opened _ a since).config = _
    rw [hopened]
  · show _ < (t.opened _ a since).nextConnection
    rw [hopened]
    exact Nat.lt_succ_self _
  · rw [expected, if_neg hopen]
    exact hstate
  · refine ⟨False.elim, ?_⟩
    rintro ⟨fs, hfs, ha⟩
    cases List.prefix_nil.mp hfs
    cases ha

def Event.StopsTcp (transport : Nat) : Event → Prop
  | stopTcp transport' => transport' = transport
  | shutDown => True
  | _ => False

theorem after_converses (hw : n.IsWired) (hl : n.directory.Lists n.contexts) {t₀ : TcpTransport}
    {deadline : Nat} (h : n.Converses c t₀ deadline [] [] [])
    (hstops : ∀ e ∈ events, ¬ e.2.StopsTcp c.transport)
    (hfirst : ∀ mid now rest, events = mid ++ (now, .handshakesDue) :: rest → deadline ≤ now →
      (stream c mid).ended ∨ ¬ Frame.IsPartial t₀.config.maxFrame (stream c mid).bytes) :
    ∃ contents rest, n.Converses c t₀ deadline events contents rest := by
  induction events using List.reverseRecOn with
  | nil => exact ⟨[], [], h⟩
  | append_singleton events e ih =>
    obtain ⟨hbefore, hlast⟩ := List.forall_mem_append.mp hstops
    obtain ⟨contents, rest, hconv⟩ := ih hbefore fun mid now rest he hd =>
      hfirst mid now (rest ++ [e]) (by rw [he, List.append_assoc, List.cons_append]) hd
    have hwired := after_isWired hw hl events
    cases hpiece : e.2.piece? c with
    | some piece => exact hconv.bytes hwired (Event.piece?_eq_some.mp hpiece)
    | none =>
      refine ⟨contents, rest, hconv.apart hwired ((n.after_keeps events).lists hl) hpiece ?_⟩
      intro hc
      obtain ⟨t, ht, -, hnext, hstate⟩ := hconv.state
      obtain ⟨now, e⟩ := e
      have hlast := hlast _ (List.mem_singleton_self _)
      cases e with
      | opened transport a =>
        obtain ⟨rfl, hnumber⟩ := hc
        exact Nat.ne_of_lt hnext (hnumber t ht)
      | bytes c' bs ended =>
        cases hpiece.symm.trans (if_pos hc)
      | handshakesDue =>
        obtain ⟨t', connection, due, ht', hconnection, hstage, hdue⟩ := hc
        cases ht.symm.trans ht'
        have hopened := TcpTransport.state?_eq_some.mpr ⟨connection, hconnection, hstage, rfl⟩
        rw [hstate, expected] at hopened
        split at hopened
        · cases hopened
        · rename_i hopen
          obtain ⟨s, ha, hs⟩ := Option.map_eq_some_iff.mp hopened
          cases hs
          obtain ⟨hnil, rfl⟩ := ConnectionStage.after?_opened_eq_opened ha
          rw [List.map_eq_nil_iff] at hnil
          subst hnil
          have hrest : (stream c events).bytes = connection.unread := hconv.splits.bytes
          obtain hend | hpartial := hfirst events now [] rfl hdue
          · exact hopen (.inl hend)
          · refine hconv.splits.rest.elim (fun hp => hpartial ?_) fun ho => hopen (.inr ho)
            rw [hrest]
            exact hp
      | stopTcp transport => exact hlast hc
      | shutDown => exact hlast trivial
      | _ => exact hc

/-- Of the routes, the connections and the peers, at most those have changed that a connection and
a peer are. -/
structure ConfinedTo (c : ConnectionId) (peer? : Option PeerId) (n n' : Node) : Prop where
  routes : ∀ q, (n'.directory.routes.routesTo q).filter (fun r => ¬ r.isBy c) =
    (n.directory.routes.routesTo q).filter fun r => ¬ r.isBy c
  connections : ∀ c' ≠ c, n'.connection? c' = n.connection? c'
  peers : ∃ is, (∀ i ∈ is, peer? = some i.id) ∧
    n'.directory.peers = (n.directory.peers.updateAll is).1

theorem bytes_confined (hw : n.IsWired) {now : Nat} {e : Event} {peer? : Option PeerId}
    (he : e = .bytes c bs ended) (htold : ∀ i ∈ n.toldAt c now e, peer? = some i.id) :
    n.ConfinedTo c peer? (n.step now e).1 := by
  subst he
  have hlearns := n.receiveBytes_learns now c bs ended
  have hpeers : ∃ is, (∀ i ∈ is, peer? = some i.id) ∧
      (n.receiveBytes now c bs ended).1.directory.peers = (n.directory.peers.updateAll is).1 := by
    refine ⟨_, ?_, congrArg Prod.fst hlearns.peers.symm⟩
    rwa [toldAt, Event.piece?_eq_some.mpr rfl] at htold
  show n.ConfinedTo c peer? (n.receiveBytes now c bs ended).1
  unfold receiveBytes at hpeers ⊢
  cases ht : n.tcp[c.transport]? with
  | none =>
    rw [ht] at hpeers
    exact ⟨fun _ => rfl, fun _ _ => rfl, hpeers⟩
  | some t =>
    rw [ht] at hpeers
    have hchanges := t.receive_changes n.directory c.number now bs ended
    refine ⟨fun q => ?_, fun c' hc => ?_, hpeers⟩
    · have hroutes := hchanges.routes q
      dsimp only at hroutes
      rwa [hw.index _ t ht] at hroutes
    · obtain ⟨hlt, -⟩ := List.getElem?_eq_some_iff.mp ht
      rw [connection?, connection?]
      dsimp only
      by_cases hk : c.transport = c'.transport
      · have hnumber : c'.number ≠ c.number := by
          intro hnumber
          exact hc (by cases c; cases c'; cases hk; cases hnumber; rfl)
        rw [← hk, List.getElem?_set_self hlt, ht]
        exact hchanges.others _ hnumber
      · rw [List.getElem?_set_ne hk]

theorem get?_dispatch (n : Node) (now : Nat) (e : Envelope) {q : PeerId} (hq : q ≠ e.sender) :
    (n.dispatch now e).1.directory.peers.get? q = n.directory.peers.get? q := by
  have hwait (w : Waiter Held) :
      (n.directory.peers.wait now e.sender w).1.get? q = n.directory.peers.get? q :=
    (n.directory.peers.get?_putPeer e.sender q _).trans (if_neg hq)
  rw [dispatch_fst]
  show (Held.arrive _ _ _ _ _).1.get? q = _
  unfold Held.arrive
  dsimp only
  split
  · rfl
  · split
    · rfl
    · split
      · rfl
      · have hw := hwait ⟨⟨n.nextTicket, e⟩, some (now + n.discoveryTimeout)⟩
        split
        · rename_i h
          rwa [h] at hw
        · rename_i h
          rwa [h] at hw
        · rename_i h
          rwa [h] at hw

/-- A connection speaks for its peer only, and leaves nothing behind. -/
theorem connection_speaks_for_peer {setup : NodeSetup} {start since : Nat} {n₀ : Node}
    (hstart : Node.start setup start = .ok n₀) {front back : List (Nat × Event)} {k : Nat}
    (ht : (n₀.after front).tcp[k]? = some t) (hrun : ¬ t.isStopped)
    (hown : (Payload.handshake (n₀.after front).directory.identity).encode.length ≤
      t.config.maxFrame)
    (a : SocketAddress) (hstops : ∀ e ∈ back, ¬ e.2.StopsTcp k)
    (hfirst : ∀ mid now rest, back = mid ++ (now, .handshakesDue) :: rest →
      since + t.config.handshakeTimeout ≤ now →
        (stream ⟨k, t.nextConnection⟩ mid).ended ∨
          ¬ Frame.IsPartial t.config.maxFrame (stream ⟨k, t.nextConnection⟩ mid).bytes) :
    let c : ConnectionId := ⟨k, t.nextConnection⟩
    let n := n₀.after (front ++ [(since, .opened k a)])
    let n' := n.after back
    let max := t.config.maxFrame
    ∃ contents rest, Splits max (stream c back).bytes contents rest ∧
      let frames := contents.map Frame.ofContent
      let peer? := Frame.introduced n₀.id frames
      let isOver := (stream c back).ended ∨ Frame.IsOversized max rest ∨
        Frame.IsBroken n₀.id frames
      (∀ p, n.Registers c p back ↔ peer? = some p) ∧
      (∀ p q, .tcp p c ∈ n'.directory.routes.routesTo q ↔ q = p ∧ peer? = some p ∧ ¬ isOver) ∧
      (∃ t', n'.tcp[k]? = some t' ∧ (t'.connections.contains c.number ↔ ¬ isOver) ∧
        ∀ p, (c.number, p) ∈ t'.established ↔ peer? = some p ∧ ¬ isOver) ∧
      n.handed c back = Frame.messages n₀.id frames ∧
      (∀ mid e rest', back = mid ++ e :: rest' → (e.2.piece? c).isSome →
        (n.after mid).ConfinedTo c peer? (n.after (mid ++ [e]))) ∧
      ∀ message ∈ n.handed c back, ∀ (m : Node) (now : Nat) (q : PeerId), peer? ≠ some q →
        (m.dispatch now message).1.directory.peers.get? q = m.directory.peers.get? q := by
  intro c n n' max
  have hm := after_isWired (isWired_of_start hstart) (isNew_of_start hstart).lists front
  have hl := (n₀.after_keeps front).lists (isNew_of_start hstart).lists
  have hn : n = ((n₀.after front).step since (.opened k a)).1 := n₀.after_concat front _
  have hw : n.IsWired := hn ▸ hm.moves (step_moves hm hl since _)
  have hopened := opened_converses since a ht hrun hown
  rw [← hn] at hopened
  have hlists : n.directory.Lists n.contexts :=
    (n₀.after_keeps _).lists (isNew_of_start hstart).lists
  obtain ⟨contents, rest, hconv⟩ := after_converses hw hlists hopened hstops hfirst
  have hid : n.id = n₀.id := (n₀.after_keeps _).id
  obtain ⟨t', ht', hclosed, hpeer⟩ := hconv.isOver_iff
  rw [hid] at hclosed hpeer
  have hw' : n'.IsWired := after_isWired hw hlists back
  refine ⟨contents, rest, hconv.splits, ?_⟩
  intro frames peer? isOver
  refine ⟨fun p => ?_, fun p q => ?_, ⟨t', ht', ?_, fun p => ?_⟩, ?_, ?_, ?_⟩
  · rw [hconv.registers, hid, ConnectionStage.exists_after?_opened]
  · have hserves := (hw'.serves _ t' ht').routes c.number q p
    rwa [hw'.index _ t' ht', hpeer] at hserves
  · refine Iff.trans ?_ (not_congr hclosed)
    rw [TcpTransport.state?_eq_none, KeyedList.contains, Option.isSome_iff_ne_none]
  · exact TcpTransport.mem_established.trans (hpeer p)
  · rw [hconv.handed, hid, ConnectionStage.brought_opened]
  · rintro mid e rest' rfl he
    obtain ⟨⟨bs, ended⟩, hpiece⟩ := Option.isSome_iff_exists.mp he
    have hmid : (n.after mid).IsWired := after_isWired hw hlists mid
    rw [after_concat]
    refine bytes_confined hmid (Event.piece?_eq_some.mp hpiece) fun i hi => ?_
    have hcollect : i ∈ n.collect (toldAt c) (mid ++ e :: rest') := by
      rw [collect_append, collect]
      exact List.mem_append_right _ (List.mem_append_left _ hi)
    rw [hconv.told] at hcollect
    have hintroduced := ConnectionStage.told_opened hcollect
    rwa [hid] at hintroduced
  · intro message hmessage m now q hq
    rw [hconv.handed, hid, ConnectionStage.brought_opened] at hmessage
    refine get?_dispatch m now message fun hsender => hq ?_
    rw [hsender]
    exact Frame.introduced_of_mem_messages hmessage

end Node

def NodeSetup.listening : NodeSetup where
  identity := ⟨⟨1⟩, "listening", .empty⟩
  tcp := [{ role := .server ⟨.v4 0, 4001, 0⟩ }]

namespace Node

def listening : Node where
  directory := { identity := NodeSetup.listening.identity }
  discoveryTimeout := 30000
  tcp := [{ config := { role := .server ⟨.v4 0, 4001, 0⟩ }, index := 0 }]

def saying (sender : PeerId) (text : String) : Envelope :=
  ⟨sender, ⟨1⟩, .of (⟨7, text⟩ : NumberedText)⟩

def peerFrames : List Bytes :=
  [(Payload.handshake .second).encode, (Payload.message (saying ⟨2⟩ "hello")).encode, [9],
    (Payload.message (saying ⟨3⟩ "hello")).encode,
    (Payload.message (saying ⟨2⟩ "again")).encode,
    (Payload.handshake ⟨⟨3⟩, "third", .empty⟩).encode,
    (Payload.message (saying ⟨2⟩ "never")).encode]

def peerFramesInPieces : List (Nat × Event) :=
  let bytes := (peerFrames.map Frame.encode).flatten
  [(210, .bytes ⟨0, 0⟩ (bytes.take 30) false), (220, .handshakesDue),
    (230, .bytes ⟨0, 0⟩ ((bytes.drop 30).take 200) false), (20000, .handshakesDue),
    (20010, .bytes ⟨0, 0⟩ (bytes.drop 230) true)]

theorem connection_speaks_for_peer_peerFrames :
    let n := listening.after [(100, .bound 0), (200, .opened 0 ⟨.v4 0x0a000002, 5000, 0⟩)]
    n.Registers ⟨0, 0⟩ ⟨2⟩ peerFramesInPieces ∧
    n.handed ⟨0, 0⟩ peerFramesInPieces = [saying ⟨2⟩ "hello", saying ⟨2⟩ "again"] ∧
    ∀ p q, .tcp p ⟨0, 0⟩ ∉ (n.after peerFramesInPieces).directory.routes.routesTo q := by
  intro n
  have hstart : Node.start .listening 0 = .ok listening := rfl
  let t : TcpTransport :=
    { config := { role := .server ⟨.v4 0, 4001, 0⟩ }, index := 0, activity := .listening }
  have ht : (listening.after [(100, .bound 0)]).tcp[0]? = some t := rfl
  have hown :
      (Payload.handshake NodeSetup.listening.identity).encode.length ≤ t.config.maxFrame := by
    decide +kernel
  have hstops : ∀ e ∈ peerFramesInPieces, ¬ e.2.StopsTcp 0 := by
    simp [peerFramesInPieces, Event.StopsTcp]
  have hfirst : ∀ mid now rest, peerFramesInPieces = mid ++ (now, .handshakesDue) :: rest →
      200 + t.config.handshakeTimeout ≤ now → (stream ⟨0, 0⟩ mid).ended ∨
        ¬ Frame.IsPartial t.config.maxFrame (stream ⟨0, 0⟩ mid).bytes := by
    intro mid now rest he hdue
    have hmid : mid = peerFramesInPieces.take mid.length := by rw [he, List.take_left]
    have hget : peerFramesInPieces[mid.length]? = some (now, .handshakesDue) := by
      rw [he, List.getElem?_append_right (Nat.le_refl _), Nat.sub_self]
      rfl
    rw [hmid]
    generalize mid.length = i at hget
    match i, hget with
    | 1, hget =>
      cases hget
      exact absurd hdue (by decide)
    | 3, hget => exact .inr (by decide +kernel)
    | 0, hget => cases hget
    | 2, hget => cases hget
    | 4, hget => cases hget
    | i + 5, hget => cases hget
  obtain ⟨contents, rest, hsplits, hregisters, hroutes, -, hhanded, -⟩ :=
    connection_speaks_for_peer hstart ht (by decide) hown ⟨.v4 0x0a000002, 5000, 0⟩ hstops hfirst
  have hpeerFrames :
      Splits t.config.maxFrame (stream ⟨0, 0⟩ peerFramesInPieces).bytes peerFrames [] :=
    ⟨by decide +kernel, by decide +kernel, by decide +kernel⟩
  obtain ⟨rfl, rfl⟩ := hsplits.unique hpeerFrames
  have hpeer : Frame.introduced ⟨1⟩ (peerFrames.map Frame.ofContent) = some ⟨2⟩ := by decide +kernel
  refine ⟨(hregisters ⟨2⟩).mpr hpeer, hhanded.trans (by decide +kernel), fun p q hr => ?_⟩
  exact ((hroutes p q).mp hr).2.2 (.inl (by decide +kernel))

end Node

end PeerMesh

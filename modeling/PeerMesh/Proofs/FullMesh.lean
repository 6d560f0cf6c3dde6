import PeerMesh.Proofs.Calls
import PeerMesh.Proofs.Moves

namespace PeerMesh

theorem UdpTransport.resultOf_acknowledged {o : Outbox} {tickets : List Ticket}
    (h : ∀ t ∈ tickets, o.fate? t = some .acknowledged) : resultOf o tickets = some (.ok ()) := by
  induction tickets with
  | nil => rfl
  | cons t tickets ih =>
    obtain ⟨ht, hts⟩ := List.forall_mem_cons.mp h
    rw [resultOf, ht]
    exact ih hts

/-- The node with the number `k` knows exactly the other nodes, and routes to exactly these, to each
at its address. -/
structure Resident.IsMeshed (r : Resident) (cs : Roster) (k : NodeNumber) : Prop where
  discovered : ∀ p i, r.node.directory.peers.identity? p = some i ↔
    ∃ j c, j ≠ k ∧ cs[j]? = some c ∧ c.id = p ∧ c.declared = i
  routed : ∀ p, r.node.directory.routes.routesTo p ≠ [] ↔
    ∃ j c, j ≠ k ∧ cs[j]? = some c ∧ c.id = p
  places : ∀ j c, j ≠ k → cs[j]? = some c → ∃ t e, r.node.udp = some t ∧
    r.node.directory.routes.routesTo c.id = [.udp c.id e] ∧ t.endpoints.address e = c.address
  notItself : ∀ c, cs[k]? = some c → r.node.directory.routes.routesTo c.id = []

def World.IsFullMesh (w : World) (cs : Roster) : Prop :=
  ∀ k < cs.length, ∃ r, w.residents.get? k = some r ∧ r.IsMeshed cs k

def Newcomer.callsOf (c sender : Newcomer) (message : Content) : List HandlerCall :=
  (c.handlers.filter fun h => h.kind = message.kind).map fun h =>
    ⟨h, message, sender.id, c.id, some ⟨sender.id, some sender.declared⟩⟩

/-- Every message went once to each handler for its kind at its receiver, and no handler was called
otherwise. -/
def World.HasCalled (w : World) (cs : Roster) (sent : List Posting) : Prop :=
  ∀ k c, cs[k]? = some c → ∃ r, w.residents.get? k = some r ∧
    r.calls.reverse.Perm ((sent.filter fun p => p.receiver = k).flatMap fun p =>
      (cs[p.node]?).toList.flatMap fun sender => c.callsOf sender p.message)

namespace Hub

/-- In whichever order the tasks are done, and those that follow, this comes to an end. -/
inductive Settles : Hub → Prop
  | intro {h : Hub} (next : ∀ i < h.tasks.length, (h.step (.perform i)).Settles) : h.Settles

def AnnouncesIn (h : Hub) (node : NodeNumber) (moves : List Move) : Prop :=
  ∃ front m back, moves = front ++ m :: back ∧ (h.run front).Announces node m

/-- The moves are those of `n` nodes that talk to each other. -/
def Talks (n : Nat) (h : Hub) : List Move → Prop
  | [] => True
  | m :: moves => h.Permits n m ∧ (h.step m).Talks n moves

instance decidableTalks (n : Nat) : (h : Hub) → (moves : List Move) → Decidable (h.Talks n moves)
  | _, [] => .isTrue trivial
  | h, m :: moves =>
    have := decidableTalks n (h.step m) moves
    inferInstanceAs (Decidable (h.Permits n m ∧ (h.step m).Talks n moves))

variable {h h' : Hub} {cs : Roster} {log : NodeNumber → Diary} {k : NodeNumber} {c : Newcomer}

theorem sent_prefix_step (h : Hub) (m : Move) : h.sent <+: (h.step m).sent := by
  cases m with
  | start c => exact List.prefix_rfl
  | announce node =>
    rw [step]
    split
    · exact List.prefix_rfl
    · exact List.prefix_rfl
  | goOff timer =>
    rw [step]
    split
    · exact List.prefix_rfl
    · split
      · exact List.prefix_rfl
      · exact List.prefix_rfl
  | send handle node receiver message =>
    rw [step]
    split
    · exact List.prefix_rfl
    · exact List.prefix_append _ _
  | perform task =>
    rw [step]
    split
    · exact List.prefix_rfl
    · exact List.prefix_rfl
  | wait ms => exact List.prefix_rfl
  | dropUnicasts on => exact List.prefix_rfl

theorem sent_prefix_run (h : Hub) (moves : List Move) : h.sent <+: (h.run moves).sent := by
  induction moves generalizing h with
  | nil => exact List.prefix_rfl
  | cons m moves ih => exact (h.sent_prefix_step m).trans (ih (h.step m))

theorem Recalls.refl (h : Hub) (log : NodeNumber → Diary) (cs : Roster) : h.Recalls log h log cs :=
  ⟨fun _ => List.Subset.refl _, fun _ _ _ _ _ ht => ht⟩

theorem Recalls.trans {h'' : Hub} {log' log'' : NodeNumber → Diary}
    (hr : h''.Recalls log'' h' log' cs) (hr' : h'.Recalls log' h log cs) :
    h''.Recalls log'' h log cs :=
  ⟨fun k _ ha => hr.heard k (hr'.heard k ha),
    fun j k c hne hc ht => hr.told j k c hne hc (hr'.told j k c hne hc ht)⟩

namespace Sound

theorem settles (s : h.Sound cs log) : h.Settles := by
  -- Every task that is done leaves less to be done, whatever else it leads to.
  generalize hn : (h.tasks.map Task.load).sum = n
  induction n using Nat.strongRecOn generalizing h log with
  | ind n ih =>
    refine .intro fun i hi => ?_
    have hperm : (h.tasks[i] :: h.tasks.eraseIdx i).Perm h.tasks :=
      List.getElem_cons_eraseIdx_perm hi
    have hstep : h.step (.perform i) =
        { h with tasks := h.tasks.eraseIdx i }.perform h.tasks[i] := by
      rw [Hub.step, List.getElem?_eq_getElem hi]
    have hp := s.perform hperm.symm
    rw [← hstep] at hp
    obtain ⟨more, htasks, hless⟩ := hp.less
    obtain ⟨log', s', -⟩ := hp.sound
    refine ih _ ?_ s' rfl
    have hsum := (hperm.map Task.load).sum_nat
    rw [List.map_cons, List.sum_cons] at hsum
    rw [htasks, List.map_append, List.sum_append]
    omega

theorem empty : Sound {} [] fun _ => {} := by
  have hnone (k : NodeNumber) : ([] : Roster)[k]? = none := rfl
  have hproper : Roster.Proper [] :=
    ⟨List.forall_mem_nil _, List.forall_mem_nil _, List.forall_mem_nil _, .nil, .nil⟩
  have horderly : Orderly [] :=
    ⟨List.forall_mem_nil _, List.forall_mem_nil _, List.forall_mem_nil _, .nil, .nil⟩
  have hbooks : Books [] [] [] fun _ => {} := by
    refine ⟨List.forall_mem_nil _, List.forall_mem_nil _, fun _ => List.forall_mem_nil _,
      fun _ => List.forall_mem_nil _, fun _ => List.forall_mem_nil _, fun _ => rfl,
      List.forall_mem_nil _, List.forall_mem_nil _, fun k c hc => ?_, fun k c hc => ?_⟩
    · cases (hnone k).symm.trans hc
    · cases (hnone k).symm.trans hc
  refine ⟨⟨hproper, horderly, hbooks⟩, List.forall_mem_nil _,
    ⟨rfl, fun a k => ?_, fun k c hc => ?_⟩, fun _ _ => rfl, fun hne => absurd rfl hne⟩
  · refine iff_of_false (Option.some_ne_none k).symm ?_
    rintro ⟨c, hc, -⟩
    cases (hnone k).symm.trans hc
  · cases (hnone k).symm.trans hc

theorem prelude (s : h.Sound cs log) (hsent : h.sent = []) {m : Move} (hn : m.newcomer? = none)
    (hm : m.sending? = none) :
    (h.step m).sent = [] ∧ ∃ log', (h.step m).Sound cs log' ∧ (h.step m).Recalls log' h log cs := by
  have hstep (hpermits : h.Permits cs.length m) := s.step hpermits hm
  have hcontinues (hc : (h.step m).Continues h cs log) : (h.step m).sent = [] ∧
      ∃ log', (h.step m).Sound cs log' ∧ (h.step m).Recalls log' h log cs :=
    ⟨hc.sent.trans hsent, hc.sound⟩
  cases m with
  | start c => cases hn
  | send handle node receiver message => cases hm
  | dropUnicasts on =>
    exact ⟨hsent, log, s.dropUnicasts hsent on, fun _ => List.Subset.refl _, fun _ _ _ _ _ ht => ht⟩
  | announce node => exact hcontinues (hstep trivial)
  | goOff timer => exact hcontinues (hstep (s.quiet_of_nil hsent))
  | perform task => exact hcontinues (hstep trivial)
  | wait ms => exact hcontinues (hstep (s.quiet_of_nil hsent))

theorem preludes (s : h.Sound cs log) (hsent : h.sent = []) {moves : List Move}
    (hm : ∀ m ∈ moves, m.newcomer? = none ∧ m.sending? = none) :
    (h.run moves).sent = [] ∧ ∃ log', (h.run moves).Sound cs log' ∧
      (h.run moves).Recalls log' h log cs ∧
      ∀ j k (c : Newcomer), j ≠ k → k < cs.length → cs[j]? = some c → h.AnnouncesIn j moves →
        c.IsTold (h.run moves).tasks k (log' k) := by
  induction moves generalizing h log with
  | nil =>
    refine ⟨hsent, log, s, .refl h log cs, ?_⟩
    rintro j k c - - - ⟨front, m, back, hnil, -⟩
    exact absurd hnil.symm (by simp)
  | cons m moves ih =>
    obtain ⟨⟨hn, hs⟩, hms⟩ := List.forall_mem_cons.mp hm
    obtain ⟨hsent', log', s', hr⟩ := s.prelude hsent hn hs
    obtain ⟨hsent'', log'', s'', hr', htold⟩ := ih s' hsent' hms
    refine ⟨hsent'', log'', s'', hr'.trans hr, fun j k c hne hk hc ha => ?_⟩
    obtain ⟨front, m', back, he, ha⟩ := ha
    cases front with
    | nil =>
      obtain ⟨rfl, rfl⟩ := List.cons.inj he
      exact hr'.told j k c hne hc (s.tells (s.quiet_of_nil hsent) hc ha hk (log' k))
    | cons m'' front =>
      obtain ⟨rfl, rfl⟩ := List.cons.inj he
      exact htold j k c hne hk hc ⟨front, m', back, rfl, ha⟩

theorem joined {moves : List Move} (hcs : Roster.Proper (moves.filterMap Move.newcomer?))
    (hscope : ∀ c ∈ moves.filterMap Move.newcomer?, c.address.scope = 0)
    (hm : ∀ m ∈ moves, m.sending? = none) : (Hub.run {} moves).sent = [] ∧
      ∃ log, (Hub.run {} moves).Sound (moves.filterMap Move.newcomer?) log := by
  induction moves using List.reverseRecOn with
  | nil => exact ⟨rfl, _, empty⟩
  | append_singleton moves m ih =>
    obtain ⟨hms, hm⟩ := List.forall_mem_append.mp hm
    rw [List.filterMap_append] at hcs hscope
    obtain ⟨hsent, log, s⟩ := ih (hcs.of_prefix (List.prefix_append _ _))
      (fun c hc => hscope c (List.mem_append_left _ hc)) hms
    rw [run_concat, List.filterMap_append]
    cases hn : m.newcomer? with
    | none =>
      obtain ⟨hsent, log', s', -⟩ := s.prelude hsent hn (hm m (List.mem_singleton_self m))
      rw [List.filterMap_cons_none hn, List.filterMap_nil, List.append_nil]
      exact ⟨hsent, log', s'⟩
    | some c =>
      cases m with
      | start c' =>
        cases hn
        exact ⟨hsent, log, s.start hsent hcs (hscope c (by simp [Move.newcomer?]))⟩
      | _ => cases hn

/-- Once all have announced themselves and everything has arrived, everyone has heard of everyone.
-/
theorem introduced (s : h.Sound cs log) (hsent : h.sent = []) {moves : List Move}
    (hm : ∀ m ∈ moves, m.newcomer? = none ∧ m.sending? = none)
    (hall : ∀ k < cs.length, h.AnnouncesIn k moves) (hdone : (h.run moves).tasks = []) :
    ∃ log', (h.run moves).Sound cs log' ∧ cs.IsIntroduced log' := by
  obtain ⟨-, log', s', -, htold⟩ := s.preludes hsent hm
  refine ⟨log', s', fun j k c hne hk hc => ?_⟩
  refine (htold j k c hne hk hc (hall j (Roster.lt_length hc))).resolve_right ?_
  rw [hdone]
  exact List.not_mem_nil

theorem talk (s : h.Sound cs log) (hd : h.world.fabric.dropping = false)
    (hi : cs.IsIntroduced log) {moves : List Move} (ht : h.Talks cs.length moves)
    (ho : Orderly (h.run moves).sent) :
    (h.run moves).sent.map Posting.sending =
        h.sent.map Posting.sending ++ moves.filterMap Move.sending? ∧
      ∃ log', (h.run moves).Sound cs log' ∧ cs.IsIntroduced log' := by
  induction moves generalizing h log with
  | nil => exact ⟨(List.append_nil _).symm, log, s, hi⟩
  | cons m moves ih =>
    obtain ⟨hm, hms⟩ := ht
    have hprefix : (h.step m).sent <+: (h.run (m :: moves)).sent :=
      (h.step m).sent_prefix_run moves
    cases hsend : m.sending? with
    | none =>
      have hc := s.step hm hsend
      obtain ⟨log', s', hr⟩ := hc.sound
      obtain ⟨hsent, hlog⟩ := ih s' (hc.dropping.trans hd) (hr.introduced hi) hms ho
      rw [hc.sent] at hsent
      rw [List.filterMap_cons_none hsend]
      exact ⟨hsent, hlog⟩
    | some sending =>
      -- The ids of the new send are its own because those of all sends of the whole run are.
      cases m with
      | send handle node receiver message =>
        obtain ⟨hn, hr, hne⟩ := hm
        obtain ⟨p, hp, hsent, hd', hnext⟩ := s.post hd hi hn hr hne handle message rfl
        obtain ⟨log', s', hi'⟩ := hnext (ho.of_prefix hprefix)
        obtain ⟨hall, hlog⟩ := ih s' hd' hi' hms ho
        rw [hsent] at hall
        refine ⟨hall.trans ?_, hlog⟩
        rw [List.map_append, List.append_assoc, List.map_singleton, hp]
        rfl
      | _ => cases hsend

theorem isFullMesh (s : h.Sound cs log) (hi : cs.IsIntroduced log) : h.world.IsFullMesh cs := by
  intro k hk
  have hc : cs[k]? = some cs[k] := List.getElem?_eq_getElem hk
  obtain ⟨r, hr, hm⟩ := s.houses.members k _ hc
  obtain ⟨t, hu, ht⟩ := hm.transport
  have hroute {j : NodeNumber} {c : Newcomer} (hne : j ≠ k) (hc : cs[j]? = some c) :
      ∃ e, t.contexts.get? c.id = some e ∧ t.endpoints.address e = c.address ∧
        r.node.directory.routes.routesTo c.id = [.udp c.id e] :=
    ht.route (s.lastPlace hc (hi j k c hne hk hc))
  have hrouted (p : PeerId) : r.node.directory.routes.routesTo p ≠ [] ↔
      ∃ j c, j ≠ k ∧ cs[j]? = some c ∧ c.id = p := by
    constructor
    · intro hne
      have hplaces := ht.follows.places p
      have hroutes := ht.follows.routes p
      cases he : t.contexts.get? p with
      | none =>
        rw [he] at hroutes
        exact absurd hroutes hne
      | some e =>
        have hsome : (Announcement.lastPlace (log k).heard p).isSome := by
          rw [← hplaces, he]
          rfl
        obtain ⟨a, ha, rfl, -⟩ := Announcement.isSome_lastPlace.mp hsome
        obtain ⟨j, c, hj, hc, rfl⟩ := s.books.heard k a ha
        exact ⟨j, c, hj, hc, rfl⟩
    · rintro ⟨j, c, hj, hc, rfl⟩
      obtain ⟨e, -, -, he⟩ := hroute hj hc
      rw [he]
      exact List.cons_ne_nil _ _
  refine ⟨r, hr, fun p i => ?_, hrouted, fun j c hj hc => ?_, fun c hck => ?_⟩
  · rw [hm.known]
    constructor
    · intro hlatest
      obtain ⟨hmem, hp⟩ := List.mem_filter.mp (List.mem_of_getLast? hlatest)
      obtain ⟨a, ha, rfl⟩ := List.mem_map.mp hmem
      obtain ⟨j, c, hj, hc, rfl⟩ := s.books.heard k a ha
      exact ⟨j, c, hj, hc, of_decide_eq_true hp, rfl⟩
    · rintro ⟨j, c, hj, hc, rfl, rfl⟩
      exact s.latest hc (hi j k c hj hk hc)
  · obtain ⟨e, -, ha, he⟩ := hroute hj hc
    exact ⟨t, e, hu, he, ha⟩
  · by_contra hne
    obtain ⟨j, c', hj, hc', hid⟩ := (hrouted c.id).mp hne
    exact hj (s.proper.eq_of_id hc' hck hid)

theorem finished (s : h.Sound cs log) (hquiet : h.IsQuiet) {p : Posting} (hp : p ∈ h.sent) :
    h.world.resultOf? p.toOpenSend = some (.ok ()) := by
  obtain ⟨-, c, c', ids, hc, -⟩ := s.books.postings p hp
  obtain ⟨r, hr, hm⟩ := s.houses.members p.node c hc
  obtain ⟨t, hu, ht⟩ := hm.transport
  obtain ⟨first, hstatus, hfates⟩ := s.fates hquiet hp c.config.maxResends
  have hresult : r.node.result? p.status = some (.ok ()) := by
    rw [hstatus, Node.result?, hu]
    refine UdpTransport.resultOf_acknowledged fun ticket hticket => ?_
    obtain ⟨i, hi, rfl⟩ := List.mem_range'.mp hticket
    rw [ht.outbox, Nat.one_mul]
    exact hfates i hi
  rw [World.resultOf?, hr]
  exact hresult

theorem callsFor_message (s : h.Sound cs log) {p : Posting} (hp : p ∈ h.sent)
    (hc : cs[p.receiver]? = some c) : c.callsFor cs.who p.send.message =
      (cs[p.node]?).toList.flatMap fun sender => c.callsOf sender p.message := by
  obtain ⟨-, sender, c', ids, hs, hc', hsend⟩ := s.books.postings p hp
  cases hc.symm.trans hc'
  have hsized : p.message.body.Sized := by
    have hl := s.orderly.length_lt p hp
    have hlength := p.message.body.length_encode
    have h32 : UInt32.size = 4294967296 := rfl
    have h64 : UInt64.size = 18446744073709551616 := rfl
    rw [Body.Sized]
    omega
  have hkind : p.message.kind ≠ .chunk := by
    intro hk
    refine s.orderly.whole p hp ?_
    rw [Body.Holds, ← p.message.typeId_kind, hk]
    rfl
  rw [Newcomer.callsFor, hsend,
    Handlers.route_registerAll c.handlers rfl hsized hkind, s.proper.who_eq hs, hs]
  exact (List.append_nil _).symm

/-- All messages have gone to their handlers once there is nothing left to be done. -/
theorem called (s : h.Sound cs log) (hdone : h.tasks = []) : h.world.HasCalled cs h.sent := by
  intro k c hc
  obtain ⟨r, hr, hm⟩ := s.houses.members k c hc
  have hquiet : h.IsQuiet := by
    rw [IsQuiet, hdone]
    exact List.forall_mem_nil _
  have hhandled := s.handled hquiet hc
  rw [hdone, List.filterMap_nil, List.append_nil] at hhandled
  refine ⟨r, hr, ?_⟩
  rw [hm.calls, List.reverse_reverse]
  refine (hhandled.flatMap_right _).trans (.of_eq ?_)
  rw [List.flatMap_map]
  refine List.flatMap_congr fun p hpk => ?_
  obtain ⟨hp, hk⟩ := List.mem_filter.mp hpk
  obtain rfl : p.receiver = k := by simpa using hk
  exact s.callsFor_message hp hc

end Sound

/-- Nodes join a fabric at addresses of their own, and announce themselves while all of them are
there. In whichever order what they sent arrives, this comes to an end, and then each knows exactly
the others and reaches them at their addresses. After that, as long as unicasts are not lost, all
that they send to each other comes to an end as well. Before time passes, each send has succeeded,
and in the end each message went to the handlers of its receiver for its kind once, and no other
handler was called. -/
theorem full_mesh {cs : Roster} (hcs : cs.Proper) (hscope : ∀ c ∈ cs, c.address.scope = 0)
    {joining : List Move} (hjoining : joining.filterMap Move.newcomer? = cs)
    (hsilent : ∀ m ∈ joining, m.sending? = none) {intro : List Move}
    (hintro : ∀ m ∈ intro, m.newcomer? = none ∧ m.sending? = none)
    (hall : ∀ k < cs.length, (Hub.run {} joining).AnnouncesIn k intro)
    {h : Hub} (hh : h = (Hub.run {} joining).run intro) :
    h.Settles ∧ (h.tasks = [] → h.world.IsFullMesh cs ∧
      (h.world.fabric.dropping = false → ∀ talk, h.Talks cs.length talk →
        ∀ h', h' = h.run talk → Orderly h'.sent →
          h'.Settles ∧ h'.world.IsFullMesh cs ∧
            h'.sent.map Posting.sending = talk.filterMap Move.sending? ∧
            (h'.IsQuiet → ∀ p ∈ h'.sent, h'.world.resultOf? p.toOpenSend = some (.ok ())) ∧
            (h'.tasks = [] → h'.world.HasCalled cs h'.sent))) := by
  subst hjoining hh
  obtain ⟨hsent, log, s⟩ := Sound.joined hcs hscope hsilent
  obtain ⟨hsent', log', s', -⟩ := s.preludes hsent hintro
  refine ⟨s'.settles, fun hdone => ?_⟩
  obtain ⟨log', s', hi⟩ := s.introduced hsent hintro hall hdone
  refine ⟨s'.isFullMesh hi, fun hd talk ht h' hh' ho => ?_⟩
  subst hh'
  obtain ⟨hsendings, log'', s'', hi'⟩ := s'.talk hd hi ht ho
  rw [hsent'] at hsendings
  exact ⟨s''.settles, s''.isFullMesh hi', hsendings, fun hquiet p hp => s''.finished hquiet hp,
    s''.called⟩

def threeNodes : Roster :=
  [{ name := "a", identity := { id := ⟨1⟩, name := "a" }, address := ⟨.v4 0x0a000001, 5001, 0⟩
     ids := .numbered 10 100, handlers := [⟨"first", .numberedText⟩, ⟨"blobs", .blob⟩] },
   { name := "b", identity := { id := ⟨2⟩, name := "b" }, address := ⟨.v4 0x0a000002, 5001, 0⟩
     ids := .numbered 20 200, handlers := [⟨"second", .numberedText⟩] },
   { name := "c", identity := { id := ⟨3⟩, name := "c" }
     address := ⟨.v6 0xfe800000000000000000000000000003, 5003, 0⟩, config := { maxDatagram := 384 }
     ids := .numbered 30 300, handlers := [⟨"third", .numberedText⟩] }]

def announceAll : List Move :=
  [.announce 2, .announce 0, .perform 1, .announce 1, .perform 7, .perform 3, .perform 0,
   .perform 4, .perform 0, .perform 0, .perform 0, .perform 0, .perform 0]

def threeSends : List Move :=
  [.send "x" 0 1 (.numberedText ⟨7, "hello"⟩), .send "y" 2 0 (.blob ⟨List.replicate 300 7⟩),
   .perform 2, .announce 1, .perform 0, .perform 0, .perform 3, .perform 1, .perform 0, .perform 0,
   .perform 0, .perform 0, .perform 0, .perform 0, .wait 250,
   .send "z" 1 2 (.numberedText ⟨8, "later"⟩), .perform 0, .perform 1, .perform 0]

def threeNodesAnnounced : Hub :=
  (Hub.run {} (threeNodes.map .start)).run announceAll

theorem threeNodes_proper : threeNodes.Proper where
  starts := by
    intro c hc
    simp only [threeNodes, List.mem_cons, List.not_mem_nil, or_false] at hc
    obtain rfl | rfl | rfl := hc <;> exact ⟨rfl, List.forall_mem_nil _⟩
  sized := by decide +kernel
  named := by decide +kernel
  ids := by decide +kernel
  addresses := by decide +kernel

theorem threeSends_orderly : Orderly (threeNodesAnnounced.run threeSends).sent where
  whole := by decide +kernel
  length_lt := by decide +kernel
  le_max := by decide +kernel
  packets := by decide +kernel
  transfers := by decide +kernel

theorem full_mesh_threeNodes :
    let h' := threeNodesAnnounced.run threeSends
    threeNodesAnnounced.tasks = [] ∧ threeNodesAnnounced.world.IsFullMesh threeNodes ∧
      threeNodesAnnounced.Talks 3 threeSends ∧ h'.tasks = [] ∧
      h'.sent.map Posting.sending = threeSends.filterMap Move.sending? ∧
      (∀ p ∈ h'.sent, h'.world.resultOf? p.toOpenSend = some (.ok ())) ∧
      h'.world.HasCalled threeNodes h'.sent := by
  have hdone : threeNodesAnnounced.tasks = [] := by decide +kernel
  have htalks : threeNodesAnnounced.Talks 3 threeSends := by decide +kernel
  have hdone' : (threeNodesAnnounced.run threeSends).tasks = [] := by decide +kernel
  have hall : ∀ k < 3, (Hub.run {} (threeNodes.map .start)).AnnouncesIn k announceAll := by
    intro k hk
    match k with
    | 0 => exact ⟨[.announce 2], .announce 0, _, rfl, rfl⟩
    | 1 => exact ⟨[.announce 2, .announce 0, .perform 1], .announce 1, _, rfl, rfl⟩
    | 2 => exact ⟨[], .announce 2, _, rfl, rfl⟩
  obtain ⟨-, hmesh⟩ := full_mesh threeNodes_proper (by decide +kernel) (by rfl) (by decide +kernel)
    (by decide +kernel) hall (rfl : threeNodesAnnounced = _)
  obtain ⟨hfull, htalk⟩ := hmesh hdone
  obtain ⟨-, -, hsent, hresults, hcalled⟩ :=
    htalk (by decide +kernel) threeSends htalks _ rfl threeSends_orderly
  exact ⟨hdone, hfull, htalks, hdone', hsent, hresults (by decide +kernel), hcalled hdone'⟩

def linkLocal : Roster :=
  [{ name := "a", identity := { id := ⟨1⟩, name := "a" }
     address := ⟨.v6 0xfe800000000000000000000000000001, 5001, 3⟩, ids := .numbered 10 100
     handlers := [⟨"first", .numberedText⟩] },
   { name := "b", identity := { id := ⟨2⟩, name := "b" }
     address := ⟨.v6 0xfe800000000000000000000000000002, 5002, 0⟩, ids := .numbered 20 200
     handlers := [⟨"second", .numberedText⟩] }]

def linkLocalMoves : List Move :=
  [.announce 0, .announce 1, .perform 0, .perform 0, .perform 0, .perform 0]

theorem linkLocal_proper : linkLocal.Proper where
  starts := by
    intro c hc
    simp only [linkLocal, List.mem_cons, List.not_mem_nil, or_false] at hc
    obtain rfl | rfl := hc <;> exact ⟨rfl, List.forall_mem_nil _⟩
  sized := by decide +kernel
  named := by decide +kernel
  ids := by decide +kernel
  addresses := by decide +kernel

/-- An announcement does not tell on which interface the address of its source is valid, so that
what is sent to a node at such an address is not delivered. -/
theorem no_full_mesh_linkLocal :
    let h := (Hub.run {} (linkLocal.map .start)).run linkLocalMoves
    let h' := h.run [.send "x" 1 0 (.numberedText ⟨7, "hello"⟩)]
    linkLocal.Proper ∧
      (∀ k < 2, (Hub.run {} (linkLocal.map .start)).AnnouncesIn k linkLocalMoves) ∧
      h.tasks = [] ∧ h.world.fabric.dropping = false ∧ ¬ h.world.IsFullMesh linkLocal ∧
      h.Talks 2 [.send "x" 1 0 (.numberedText ⟨7, "hello"⟩)] ∧ Orderly h'.sent ∧ h'.tasks = [] ∧
      h'.sent.length = 1 ∧ ∀ p ∈ h'.sent, (h'.world.resultOf? p.toOpenSend).isNone := by
  have hroute : let h := (Hub.run {} (linkLocal.map .start)).run linkLocalMoves
      ((h.world.residents.get? 1).bind fun r => r.node.udp.map fun t =>
        (r.node.directory.routes.routesTo ⟨1⟩, t.endpoints.address 0)) =
      some ([.udp ⟨1⟩ 0], ⟨.v6 0xfe800000000000000000000000000001, 5001, 0⟩) := by decide +kernel
  refine ⟨linkLocal_proper, fun k hk => ?_, by decide +kernel, by decide +kernel, fun hmesh => ?_,
    by decide +kernel, ?_, by decide +kernel, by decide +kernel, by decide +kernel⟩
  · match k with
    | 0 => exact ⟨[], .announce 0, _, rfl, rfl⟩
    | 1 => exact ⟨[.announce 0], .announce 1, _, rfl, rfl⟩
  · obtain ⟨r, hr, hmeshed⟩ := hmesh 1 (by decide)
    obtain ⟨t, e, hu, hroutes, ha⟩ := hmeshed.places 0 linkLocal[0] (by decide) rfl
    dsimp only at hroute
    rw [hr, Option.bind_some, hu, Option.map_some, Option.some.injEq, Prod.mk.injEq] at hroute
    rw [show linkLocal[0].id = ⟨1⟩ from rfl, hroute.1] at hroutes
    obtain rfl : 0 = e := by simpa using hroutes
    rw [hroute.2] at ha
    exact absurd ha (by decide)
  · exact ⟨by decide +kernel, by decide +kernel, by decide +kernel, by decide +kernel,
      by decide +kernel⟩

end Hub

end PeerMesh

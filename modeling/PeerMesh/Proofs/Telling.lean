import PeerMesh.Proofs.OwnIdentity

namespace PeerMesh

namespace Node

/-- What is left to be done when the own identity has changed: a connection transport is asked to
tell it, and then writes one handshake after the other. -/
inductive Duty where
  | ask (transport : Nat)
  | write (transport number : Nat) (i : Identity)

/-- What a connection transport owes if it is asked now. -/
def owed (n : Node) (transport : Nat) : List Duty :=
  match n.tcp[transport]? with
  | none => []
  | some t => t.established.map fun e => .write transport e.1 n.directory.identity

def fulfil (n : Node) : Duty → Node × List Duty
  | .ask transport => (n, n.owed transport)
  | .write transport number i =>
    (n.onTcp transport fun t => (t.write number (.handshake i)).1, [])

/-- An update of the own identity that is under way, with a record of what was done and of the node
at that time. -/
structure Telling where
  transports : Nat
  left : List Duty
  done : List (Node × Duty) := []

namespace Telling

def goOn (u : Telling) (n : Node) : Node × Telling :=
  match u.left with
  | [] => (n, u)
  | duty :: rest =>
    let (n', more) := n.fulfil duty
    (n', { u with left := more ++ rest, done := u.done ++ [(n, duty)] })

def askedOf : Node × Duty → Option Node
  | (n, .ask _) => some n
  | (_, .write _ _ _) => none

def writtenOf : Node × Duty → Option Duty
  | (_, .ask _) => none
  | (_, .write transport number i) => some (.write transport number i)

/-- The node at the times at which its connection transports were asked. -/
def asked (u : Telling) : List Node :=
  u.done.filterMap askedOf

def written (u : Telling) : List Duty :=
  u.done.filterMap writtenOf

end Telling

def Telling.begun (transports : Nat) : Telling :=
  ⟨transports, (List.range transports).map .ask, []⟩

def beginUpdate (n : Node) (change : Identity → Identity) :
    Except IdentityChange (Node × Telling) :=
  match n.directory.identity.update (change n.directory.identity) with
  | .error e => .error e
  | .ok i => .ok ({ n with directory.identity := i, udp := n.udp.map (·.announce i) },
      .begun n.tcp.length)

structure Teller where
  node : Node
  tellings : List Telling := []

inductive Turn where
  | life (x : LifeEvent)
  | update (change : Identity → Identity)
  | goOn (telling : Nat)

namespace Teller

def turn (s : Teller) (now : Nat) : Turn → Teller
  | .life x => { s with node := s.node.live now x }
  | .update change =>
    match s.node.beginUpdate change with
    | .error _ => s
    | .ok (n, u) => { node := n, tellings := s.tellings ++ [u] }
  | .goOn k =>
    match s.tellings[k]? with
    | none => s
    | some u =>
      let (n, u) := u.goOn s.node
      { node := n, tellings := s.tellings.set k u }

def run (s : Teller) (turns : List (Nat × Turn)) : Teller :=
  turns.foldl (fun s x => s.turn x.1 x.2) s

/-- The identity that is told in a turn. -/
def tells (s : Teller) (now : Nat) : Turn → Identity
  | .goOn k =>
    match s.tellings[k]?.bind (·.left.head?) with
    | some (.write _ _ i) => i
    | _ => s.node.directory.identity
  | x => (s.turn now x).node.directory.identity

def link? (s : Teller) : Turn → Option Link
  | .life x => s.node.link? x
  | _ => s.node.udp.map UdpTransport.link

end Teller

variable {n : Node}

theorem mem_owed {k : Nat} {duty : Duty} : duty ∈ n.owed k ↔ ∃ number c,
    n.connection? ⟨k, number⟩ = some c ∧ c.peer?.isSome ∧
      duty = .write k number n.directory.identity := by
  unfold owed connection?
  dsimp only
  cases n.tcp[k]? with
  | none =>
    refine iff_of_false List.not_mem_nil ?_
    rintro ⟨number, c, hc, -⟩
    cases hc
  | some t =>
    rw [List.mem_map]
    constructor
    · rintro ⟨⟨number, peer⟩, he, rfl⟩
      obtain ⟨c, hc, hp⟩ := Option.bind_eq_some_iff.mp (TcpTransport.mem_established.mp he)
      exact ⟨number, c, hc, Option.isSome_iff_exists.mpr ⟨peer, hp⟩, rfl⟩
    · rintro ⟨number, c, hc, hs, rfl⟩
      obtain ⟨peer, hp⟩ := Option.isSome_iff_exists.mp hs
      refine ⟨(number, peer), TcpTransport.mem_established.mpr ?_, rfl⟩
      exact Option.bind_eq_some_iff.mpr ⟨c, hc, hp⟩

/-- The transports are asked one after the other, each one when the one before it owes nothing any
more. -/
structure Telling.Keeps (u : Telling) (pending : List Duty) : Prop where
  count : u.asked.length ≤ u.transports
  left : u.left = pending ++
    (List.range' u.asked.length (u.transports - u.asked.length)).map .ask
  written : u.written ++ pending = (u.asked.mapIdx fun k n => n.owed k).flatten

namespace Telling

variable {u : Telling} {pending : List Duty}

theorem Keeps.owed (h : u.Keeps pending) {duty : Duty} (hd : duty ∈ pending) :
    ∃ n ∈ u.asked, ∃ k, duty ∈ n.owed k := by
  have hmem : duty ∈ (u.asked.mapIdx fun k n => n.owed k).flatten := by
    rw [← h.written]
    exact List.mem_append_right _ hd
  obtain ⟨ds, hds, hduty⟩ := List.mem_flatten.mp hmem
  obtain ⟨k, hk, rfl⟩ := List.mem_mapIdx.mp hds
  exact ⟨_, List.getElem_mem hk, k, hduty⟩

theorem goOn_cons {duty : Duty} {rest : List Duty} (h : u.left = duty :: rest) (n : Node) :
    u.goOn n = ((n.fulfil duty).1,
      { u with left := (n.fulfil duty).2 ++ rest, done := u.done ++ [(n, duty)] }) := by
  rw [goOn, h]

theorem asked_goOn {duty : Duty} {rest : List Duty} (h : u.left = duty :: rest) (n : Node) :
    (u.goOn n).2.asked = u.asked ++ (askedOf (n, duty)).toList := by
  rw [goOn_cons h]
  unfold asked
  rw [List.filterMap_append]
  cases duty with
  | ask k => rfl
  | write k number i => rfl

theorem written_goOn {duty : Duty} {rest : List Duty} (h : u.left = duty :: rest) (n : Node) :
    (u.goOn n).2.written = u.written ++ (writtenOf (n, duty)).toList := by
  rw [goOn_cons h]
  unfold written
  rw [List.filterMap_append]
  cases duty with
  | ask k => rfl
  | write k number i => rfl

theorem Keeps.ask (h : u.Keeps []) (n : Node) : ∃ pending, (u.goOn n).2.Keeps pending := by
  obtain ⟨hcount, hleft, hwritten⟩ := h
  rw [List.nil_append] at hleft
  cases hd : u.transports - u.asked.length with
  | zero =>
    rw [hd, List.range'_zero, List.map_nil] at hleft
    have hsame : u.goOn n = (n, u) := by rw [Telling.goOn, hleft]
    rw [hsame]
    refine ⟨[], hcount, ?_, hwritten⟩
    rw [hd]
    exact hleft
  | succ d =>
    rw [hd, List.range'_succ, List.map_cons] at hleft
    have hasked : (u.goOn n).2.asked = u.asked ++ [n] := asked_goOn hleft n
    have hwritten' : (u.goOn n).2.written = u.written ++ [] := written_goOn hleft n
    have hstep := congrArg Prod.snd (goOn_cons hleft n)
    have hlength : (u.asked ++ [n]).length = u.asked.length + 1 := List.length_append
    refine ⟨n.owed u.asked.length, ?_, ?_, ?_⟩
    · rw [hasked, hlength, hstep]
      dsimp only
      omega
    · rw [hasked, hlength, hstep]
      dsimp only
      rw [show u.transports - (u.asked.length + 1) = d by omega]
      rfl
    · rw [hasked, hwritten', List.mapIdx_concat, List.flatten_append, List.flatten_singleton,
        ← hwritten]

theorem Keeps.write {duty : Duty} (h : u.Keeps (duty :: pending)) (n : Node) :
    (u.goOn n).2.Keeps pending := by
  obtain ⟨m, -, k, hd⟩ := h.owed List.mem_cons_self
  obtain ⟨number, c, -, -, rfl⟩ := mem_owed.mp hd
  obtain ⟨hcount, hleft, hwritten⟩ := h
  rw [List.cons_append] at hleft
  have hasked : (u.goOn n).2.asked = u.asked ++ [] := asked_goOn hleft n
  have hwritten' := written_goOn hleft n
  rw [List.append_nil] at hasked
  have hstep := congrArg Prod.snd (goOn_cons hleft n)
  refine ⟨?_, ?_, ?_⟩
  · rw [hasked, hstep]
    exact hcount
  · rw [hasked, hstep]
    rfl
  · rw [hasked, hwritten', ← hwritten, List.append_assoc]
    rfl

theorem Keeps.goOn (h : u.Keeps pending) (n : Node) : ∃ pending, (u.goOn n).2.Keeps pending := by
  cases pending with
  | nil => exact h.ask n
  | cons duty pending => exact ⟨pending, h.write n⟩

theorem keeps_begun (transports : Nat) : (begun transports).Keeps [] :=
  ⟨Nat.zero_le _, congrArg (List.map _) List.range_eq_range', rfl⟩

/-- In the end each transport was asked once, and each handshake that is owed was written once. -/
theorem Keeps.over (h : u.Keeps pending) (hu : u.left = []) :
    u.asked.length = u.transports ∧ u.written = (u.asked.mapIdx fun k n => n.owed k).flatten := by
  obtain ⟨hpending, hasks⟩ := List.append_eq_nil_iff.mp (h.left.symm.trans hu)
  have hcount := h.count
  have hwritten := h.written
  rw [hpending, List.append_nil] at hwritten
  rw [List.map_eq_nil_iff, List.range'_eq_nil_iff] at hasks
  exact ⟨by omega, hwritten⟩

theorem fst_goOn (u : Telling) (n : Node) :
    (u.goOn n).1.directory = n.directory ∧ (u.goOn n).1.udp = n.udp := by
  unfold Telling.goOn
  split
  · exact ⟨rfl, rfl⟩
  · rename_i duty rest hleft
    cases duty with
    | ask k => exact ⟨rfl, rfl⟩
    | write k number i => exact ⟨rfl, rfl⟩

theorem forall_asked_goOn {P : Node → Prop} (h : ∀ m ∈ u.asked, P m) (hn : P n) :
    ∀ m ∈ (u.goOn n).2.asked, P m := by
  cases hleft : u.left with
  | nil =>
    rw [Telling.goOn, hleft]
    exact h
  | cons duty rest =>
    rw [asked_goOn hleft]
    intro m hm
    obtain hm | hm := List.mem_append.mp hm
    · exact h m hm
    · cases duty with
      | ask k => exact List.mem_singleton.mp hm ▸ hn
      | write k number i => cases hm

theorem Keeps.head (h : u.Keeps pending) {k number : Nat} {i : Identity}
    (hd : u.left.head? = some (.write k number i)) :
    ∃ n ∈ u.asked, i = n.directory.identity := by
  rw [h.left] at hd
  cases pending with
  | nil =>
    obtain ⟨rest, hr⟩ := List.head?_eq_some_iff.mp hd
    obtain ⟨j, -, hj⟩ := List.mem_map.mp (hr ▸ List.mem_cons_self)
    cases hj
  | cons duty pending =>
    cases hd
    obtain ⟨n, hn, k', hk⟩ := h.owed List.mem_cons_self
    obtain ⟨number', c, -, -, he⟩ := mem_owed.mp hk
    cases he
    exact ⟨n, hn, rfl⟩

end Telling

theorem beginUpdate_of_eq {change : Identity → Identity}
    (h : (change n.directory.identity).id = n.id) : n.beginUpdate change =
      .ok ({ n with
        directory.identity := change n.directory.identity
        udp := n.udp.map (·.announce (change n.directory.identity)) }, .begun n.tcp.length) := by
  have hu : n.directory.identity.update (change n.directory.identity) = .ok _ := if_pos h
  rw [beginUpdate, hu]

theorem beginUpdate_of_ne {change : Identity → Identity}
    (h : (change n.directory.identity).id ≠ n.id) :
    n.beginUpdate change = .error ⟨n.id, (change n.directory.identity).id⟩ := by
  have hu : n.directory.identity.update (change n.directory.identity) = .error _ := if_neg h
  rw [beginUpdate, hu]
  rfl

/-- The node has the identity, and it is announced once to all nodes. -/
structure IsAnnounced (i : Identity) (n n' : Node) : Prop where
  identity : n'.directory.identity = i
  udp : n'.udp = n.udp.map fun t =>
    { t with link := (t.link.offer (.broadcast (Payload.announcement i).encode)).1 }
  offered : n'.udp.map (·.link.offered) =
    n.udp.map (·.link.offered ++ [.broadcast (Payload.announcement i).encode])

/-- Besides, each connection whose own handshake is over has one more frame, unless its writer takes
none. -/
structure IsTold (i : Identity) (n n' : Node) : Prop extends n.IsAnnounced i n' where
  transports : n'.tcp.length = n.tcp.length
  frames (c : ConnectionId) : n'.connection? c = (n.connection? c).map fun x =>
    if x.peer?.isSome ∧ x.writer.Admits (.handshake i)
    then x.withFrame (Payload.handshake i).encode else x

inductive Leads : Node → List Duty → Node → List Duty → Prop
  | refl (n : Node) (left : List Duty) : Leads n left n left
  | step {n n' : Node} {duty : Duty} {rest left : List Duty}
    (h : Leads (n.fulfil duty).1 ((n.fulfil duty).2 ++ rest) n' left) :
    Leads n (duty :: rest) n' left

theorem Leads.trans {n n' n'' : Node} {left left' left'' : List Duty}
    (h : Leads n left n' left') (h' : Leads n' left' n'' left'') : Leads n left n'' left'' := by
  induction h with
  | refl => exact h'
  | step _ ih => exact .step (ih h')

namespace Teller

variable {own : PeerId} {s : Teller}

structure IsSound (own : PeerId) (s : Teller) : Prop where
  id : s.node.id = own
  packets : s.node.HoldsPackets
  tellings : ∀ u ∈ s.tellings, (∃ pending, u.Keeps pending) ∧ ∀ m ∈ u.asked, m.id = own

theorem turn_goOn {k : Nat} {u : Telling} (hk : s.tellings[k]? = some u) (now : Nat) :
    s.turn now (.goOn k) = ⟨(u.goOn s.node).1, s.tellings.set k (u.goOn s.node).2⟩ := by
  rw [turn]
  dsimp only
  rw [hk]

theorem turn_update {n' : Node} {change : Identity → Identity} {u : Telling}
    (h : s.node.beginUpdate change = .ok (n', u)) (now : Nat) :
    s.turn now (.update change) = ⟨n', s.tellings ++ [u]⟩ := by
  rw [turn, h]

theorem turn_update_of_ne {change : Identity → Identity}
    (h : (change s.node.directory.identity).id ≠ s.node.id) (now : Nat) :
    s.turn now (.update change) = s := by
  rw [turn, beginUpdate_of_ne h]

theorem run_append (s : Teller) (turns more : List (Nat × Turn)) :
    s.run (turns ++ more) = (s.run turns).run more :=
  List.foldl_append

theorem IsSound.turn (h : s.IsSound own) (now : Nat) (x : Turn) :
    (s.turn now x).IsSound own := by
  cases x with
  | life x =>
    have hlives := live_lives s.node now x
    exact ⟨hlives.id_eq.trans h.id, h.packets.lives hlives, h.tellings⟩
  | update change =>
    by_cases hid : (change s.node.directory.identity).id = s.node.id
    · rw [turn_update (beginUpdate_of_eq hid)]
      refine ⟨hid.trans h.id, fun t ht => ?_, fun u hu => ?_⟩
      · obtain ⟨t₀, hu, rfl⟩ := Option.map_eq_some_iff.mp ht
        exact h.packets t₀ hu
      · obtain hu | hu := List.mem_append.mp hu
        · exact h.tellings u hu
        · obtain rfl := List.mem_singleton.mp hu
          exact ⟨⟨[], Telling.keeps_begun _⟩, nofun⟩
    · rw [turn_update_of_ne hid]
      exact h
  | goOn k =>
    cases hk : s.tellings[k]? with
    | none =>
      rw [Teller.turn, hk]
      exact h
    | some u =>
      rw [turn_goOn hk]
      obtain ⟨hd, hudp⟩ := u.fst_goOn s.node
      obtain ⟨⟨pending, hkeeps⟩, hasked⟩ := h.tellings u (List.mem_of_getElem? hk)
      refine ⟨(congrArg (fun d => d.identity.id) hd).trans h.id,
        fun t ht => h.packets t (hudp ▸ ht), fun v hv => ?_⟩
      obtain hv | rfl := List.mem_or_eq_of_mem_set hv
      · exact h.tellings v hv
      · exact ⟨hkeeps.goOn s.node, Telling.forall_asked_goOn hasked h.id⟩

theorem IsSound.run (h : s.IsSound own) (turns : List (Nat × Turn)) :
    (s.run turns).IsSound own := by
  induction turns generalizing s with
  | nil => exact h
  | cons x turns ih => exact ih (h.turn x.1 x.2)

theorem IsSound.tells (h : s.IsSound own) (now : Nat) (x : Turn) :
    (s.tells now x).id = own := by
  cases x with
  | life x => exact (h.turn now (.life x)).id
  | update change => exact (h.turn now (.update change)).id
  | goOn k =>
    unfold Teller.tells
    dsimp only
    split
    · rename_i transport number i hi
      obtain ⟨u, hk, hhead⟩ := Option.bind_eq_some_iff.mp hi
      obtain ⟨⟨pending, hkeeps⟩, hasked⟩ := h.tellings u (List.mem_of_getElem? hk)
      obtain ⟨m, hm, rfl⟩ := hkeeps.head hhead
      exact hasked m hm
    · exact h.id

end Teller

end Node

end PeerMesh

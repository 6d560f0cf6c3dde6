import PeerMesh.Proofs.Sends
import PeerMesh.World.Step

namespace PeerMesh

/-- A node that is to be put on the fabric. -/
structure Newcomer where
  name : String
  identity : Identity
  address : SocketAddress
  config : UdpConfig := {}
  ids : IdSource
  handlers : List Handler := []
  inbound : InboundConfig := {}
  tcp : List (TcpConfig × Option String) := []

namespace Newcomer

def arrival (c : Newcomer) : Arrival where
  identity := c.identity
  udp := some (c.config, .fabric c.address)
  tcp := c.tcp
  handlers := c.handlers
  inbound := c.inbound
  ids := c.ids

def id (c : Newcomer) : PeerId :=
  c.identity.id

def declared (c : Newcomer) : Identity :=
  c.identity.declare unicastPortKey (.int (Int64.ofNat c.address.port.toNat))

end Newcomer

def Task.IsTraffic : Task → Prop
  | .receive _ datagram _ => ∃ p ∈ Datagram.payloads datagram, (Sorted.announcement? p).isNone
  | _ => False

instance (t : Task) : Decidable t.IsTraffic :=
  match t with
  | .receive _ datagram _ =>
    inferInstanceAs (Decidable (∃ p ∈ Datagram.payloads datagram, (Sorted.announcement? p).isNone))
  | .announce _ => .isFalse id
  | .resend _ => .isFalse id
  | .expire _ => .isFalse id
  | .retry _ _ => .isFalse id
  | .dispatch _ _ => .isFalse id
  | .resume _ _ => .isFalse id

/-- A reliable send from one node of the hub to another. -/
structure Posting extends OpenSend where
  receiver : NodeNumber
  message : Content
  send : ReliableSend

structure Hub where
  world : World := {}
  tasks : List Task := []
  /-- In the order in which they were started. -/
  sent : List Posting := []

inductive Move where
  | start (c : Newcomer)
  | announce (node : NodeNumber)
  | goOff (timer : Nat)
  | send (handle : String) (node receiver : NodeNumber) (message : Content)
  | perform (task : Nat)
  | wait (ms : Nat)
  | dropUnicasts (on : Bool)

namespace Move

def newcomer? : Move → Option Newcomer
  | start c => some c
  | _ => none

def sending? : Move → Option (String × NodeNumber × NodeNumber × Content)
  | send handle node receiver message => some (handle, node, receiver, message)
  | _ => none

end Move

def Posting.sending (p : Posting) : String × NodeNumber × NodeNumber × Content :=
  (p.handle, p.node, p.receiver, p.message)

namespace Hub

def put (h : Hub) (node : NodeNumber) (r : Resident) : Hub :=
  let (world, more) := h.world.put node r
  { h with world, tasks := h.tasks ++ more }

def perform (h : Hub) (t : Task) : Hub :=
  let (world, more) := h.world.perform t
  { h with world, tasks := h.tasks ++ more }

def posting (h : Hub) (handle : String) (node receiver : NodeNumber) (message : Content) :
    Option (Posting × Resident) := do
  let r ← h.world.residents.get? node
  let t ← r.node.udp
  let peer ← h.world.residents.get? receiver
  let (n, status) := r.node.send h.world.now peer.node.id message.body true
  return (
    { handle, node, status, receiver, message
      send := ⟨⟨r.node.id, peer.node.id, message.body⟩, r.node.id, t.config.maxDatagram, t.ids⟩ },
    { r with node := n })

def step (h : Hub) : Move → Hub
  | .start c => { h with world := (h.world.start c.name c.arrival).1 }
  | .announce node =>
    match h.world.residents.get? node with
    | none => h
    | some r => h.put node { r with node := r.node.announce }
  | .goOff timer =>
    match h.world.timers[timer]? with
    | none => h
    | some t => if t.due ≤ h.world.now then h.perform t.task else h
  | .send handle node receiver message =>
    match h.posting handle node receiver message with
    | none => h
    | some (p, r) =>
      { h with
        world := h.world.note handle node p.status
        sent := h.sent ++ [p] : Hub }.put node r
  | .perform task =>
    match h.tasks[task]? with
    | none => h
    | some t => { h with tasks := h.tasks.eraseIdx task : Hub }.perform t
  | .wait ms => { h with world.now := h.world.now + ms }
  | .dropUnicasts on => { h with world.fabric.dropping := on }

/-- Nothing is on its way but announcements. -/
def IsQuiet (h : Hub) : Prop :=
  ∀ t ∈ h.tasks, ¬ t.IsTraffic

instance (h : Hub) : Decidable h.IsQuiet :=
  inferInstanceAs (Decidable (∀ t ∈ h.tasks, ¬ t.IsTraffic))

def Announces (h : Hub) (node : NodeNumber) : Move → Prop
  | .announce k => k = node
  | .goOff timer => ∃ t, h.world.timers[timer]? = some t ∧ t.due ≤ h.world.now ∧
      t.task = .announce node
  | _ => False

/-- The move is one of `n` nodes that talk to each other: no other joins, and time passes only while
nothing but announcements is under way. -/
def Permits (h : Hub) (n : Nat) : Move → Prop
  | .start _ => False
  | .announce _ => True
  | .goOff _ => h.IsQuiet
  | .send _ node receiver _ => node < n ∧ receiver < n ∧ node ≠ receiver
  | .perform _ => True
  | .wait _ => h.IsQuiet
  | .dropUnicasts _ => False

instance (h : Hub) (n : Nat) (m : Move) : Decidable (h.Permits n m) :=
  match m with
  | .start _ => .isFalse id
  | .announce _ => .isTrue trivial
  | .goOff _ => inferInstanceAs (Decidable h.IsQuiet)
  | .send _ node receiver _ =>
    inferInstanceAs (Decidable (node < n ∧ receiver < n ∧ node ≠ receiver))
  | .perform _ => .isTrue trivial
  | .wait _ => inferInstanceAs (Decidable h.IsQuiet)
  | .dropUnicasts _ => .isFalse id

def run (h : Hub) (moves : List Move) : Hub :=
  moves.foldl step h

theorem run_append (h : Hub) (front back : List Move) :
    h.run (front ++ back) = (h.run front).run back :=
  List.foldl_append

theorem run_concat (h : Hub) (moves : List Move) (m : Move) :
    h.run (moves ++ [m]) = (h.run moves).step m := by
  rw [run_append]
  rfl

theorem run_performAll (w : World) (tasks : List Task) (sent : List Posting) :
    Hub.run ⟨w, tasks, sent⟩ (List.replicate tasks.length (.perform 0)) =
      ⟨(w.performAll tasks).1, (w.performAll tasks).2, sent⟩ := by
  -- The tasks that follow are done after those that were there before.
  have hfold (next : List Task) :
      Hub.run ⟨w, tasks ++ next, sent⟩ (List.replicate tasks.length (.perform 0)) =
        ⟨(tasks.foldl (fun (s : World × List Task) t =>
            ((s.1.perform t).1, s.2 ++ (s.1.perform t).2)) (w, next)).1,
          (tasks.foldl (fun (s : World × List Task) t =>
            ((s.1.perform t).1, s.2 ++ (s.1.perform t).2)) (w, next)).2, sent⟩ := by
    induction tasks generalizing w next with
    | nil => rfl
    | cons t tasks ih =>
      have hstep : Hub.step ⟨w, t :: tasks ++ next, sent⟩ (.perform 0) =
          ⟨(w.perform t).1, tasks ++ (next ++ (w.perform t).2), sent⟩ := by
        simp [step, perform]
      rw [List.length_cons, List.replicate_succ, run, List.foldl_cons, ← run, hstep, ih]
      rfl
  have hall := hfold []
  rwa [List.append_nil] at hall

/-- A world that settles does its tasks in one of the orders in which they can be done. -/
theorem exists_run_settle (h : Hub) :
    ∃ n, (h.run (List.replicate n (.perform 0))).world = h.world.settle h.tasks := by
  obtain ⟨w, tasks, sent⟩ := h
  have hrounds (rounds : Nat) : ∃ n, (Hub.run ⟨w, tasks, sent⟩
      (List.replicate n (.perform 0))).world = w.performRounds tasks rounds := by
    induction rounds generalizing w tasks with
    | zero => exact ⟨0, rfl⟩
    | succ rounds ih =>
      have hfirst := run_performAll w tasks sent
      rw [World.performRounds]
      dsimp only
      split
      · exact ⟨tasks.length, congrArg world hfirst⟩
      · obtain ⟨n, hn⟩ := ih (w.performAll tasks).1 (w.performAll tasks).2
        refine ⟨tasks.length + n, ?_⟩
        rw [List.replicate_add, run_append, hfirst, hn]
  exact hrounds 4

end Hub

end PeerMesh

import PeerMesh.Node

/-!
Several nodes together, and the passing of time.

Nodes send their datagrams to a fabric, which carries them to each other, or to a recorder, which
keeps them. What a node does at some moment may give others something to do; all of this is done,
in the order in which it came up, before time passes. Nodes are numbered in the order in which they
were started. A name goes over to another node when one is started with it; the node that had it
before goes on without a name, and nothing is reported on it.

Servers bind the addresses of listeners, of which each is bound by one at a time. Connections and
sockets for datagrams do not come about in a world: its hosts refuse them.
-/

namespace PeerMesh

abbrev NodeNumber := Nat

structure Resident where
  node : Node
  fabricAddress : Option SocketAddress := none
  /-- For each connection transport, the listener whose address it binds if it is not an address of
  its own. -/
  bindings : List (Option String) := []
  feed : Nat := 0
  /-- The calls of handlers that are not reported yet, the latest first. -/
  calls : List HandlerCall := []
  reported : UdpStatistics := {}

structure Fabric where
  attached : KeyedList SocketAddress NodeNumber := .empty
  dropping : Bool := false
  dropped : Nat := 0

inductive Task where
  | announce (node : NodeNumber)
  | resend (node : NodeNumber)
  | expire (node : NodeNumber)
  | retry (node : NodeNumber) (transport : Nat)
  | receive (node : NodeNumber) (datagram : Bytes) (source : SocketAddress)
  | dispatch (node : NodeNumber) (e : Envelope)
  | resume (node : NodeNumber) (h : Held)

structure OpenSend where
  handle : String
  node : NodeNumber
  status : SendStatus

structure World where
  now : Nat := 0
  residents : KeyedList NodeNumber Resident := .empty
  names : KeyedList String NodeNumber := .empty
  fabric : Fabric := {}
  /-- The listeners that are not nodes, and whether they are open. Each has an address of its own,
  whether or not it is open. -/
  listeners : KeyedList String Bool := .empty
  /-- In the order in which they were started. -/
  sends : List OpenSend := []
  reportedDropped : Nat := 0

namespace Fabric

def carry (f : Fabric) (source : SocketAddress) : Parcel → Fabric × List Task
  | .broadcast datagram => (f, f.attached.values.map fun node => .receive node datagram source)
  | .unicast destination datagram =>
    if f.dropping then ({ f with dropped := f.dropped + 1 }, [])
    else (f, (f.attached.get? destination).toList.map fun node => .receive node datagram source)

def carryAll (f : Fabric) (source : SocketAddress) (ps : List Parcel) : Fabric × List Task :=
  ps.foldl
    (fun (f, tasks) p =>
      let (f, more) := f.carry source p
      (f, tasks ++ more))
    (f, [])

end Fabric

namespace Resident

def tasksOf (node : NodeNumber) (r : Reaction) : List Task :=
  r.arrivals.map (.dispatch node) ++ r.released.map (.resume node)

def HasBound (r : Resident) (listener : String) : Prop :=
  ∃ e ∈ r.node.tcp.zip r.bindings, e.2 = some listener ∧ e.1.isListening

instance (r : Resident) (listener : String) : Decidable (r.HasBound listener) :=
  inferInstanceAs (Decidable (∃ e ∈ _, _))

def retry (r : Resident) (isTaken : String → Bool) (now transport : Nat) : Resident :=
  { r with
    node.tcp := r.node.tcp.modify transport fun t =>
      let t := t.retryDue now
      if t.activity = .trying then
        match t.config.role with
        | .client _ => t.pause now
        | .server _ =>
          if ((r.bindings.getD transport none).map isTaken).getD false then t.pause now
          else t.bound
      else t }

def record (r : Resident) (outcomes : List Outcome) : Resident :=
  let calls := outcomes.flatMap fun o => o.calls.getD []
  { r with calls := calls.reverse ++ r.calls }

end Resident

def Task.node : Task → NodeNumber
  | announce node => node
  | resend node => node
  | expire node => node
  | retry node _ => node
  | receive node _ _ => node
  | dispatch node _ => node
  | resume node _ => node

namespace World

def isTaken (w : World) (listener : String) : Bool :=
  w.listeners.get? listener = some true ∨ ∃ r ∈ w.residents.values, r.HasBound listener

def react (w : World) (r : Resident) : Task → Resident × List Task
  | .announce _ => ({ r with node := r.node.announceDue w.now }, [])
  | .resend _ => ({ r with node := r.node.resendDue w.now }, [])
  | .expire _ => ({ r with node := (r.node.expireHeld w.now).1 }, [])
  | .retry _ transport => (r.retry w.isTaken w.now transport, [])
  | .receive node datagram source =>
    let (n, reaction) := r.node.receiveDatagram w.now datagram source
    ({ r with node := n }, Resident.tasksOf node reaction)
  | .dispatch _ e =>
    let (n, outcome) := r.node.dispatch w.now e
    ({ r with node := n }.record outcome.toList, [])
  | .resume _ h => (r.record [r.node.resume h], [])

def put (w : World) (node : NodeNumber) (r : Resident) : World × List Task :=
  match r.fabricAddress, r.node.udp with
  | some a, some t =>
    let (fabric, tasks) := w.fabric.carryAll a t.link.accepted
    let n := { r.node with udp := some { t with link := t.link.cleared } }
    ({ w with fabric, residents := w.residents.put node { r with node := n } }, tasks)
  | _, _ => ({ w with residents := w.residents.put node r }, [])

def perform (w : World) (t : Task) : World × List Task :=
  match w.residents.get? t.node with
  | none => (w, [])
  | some r =>
    let (r, tasks) := w.react r t
    let (w, more) := w.put t.node r
    (w, more ++ tasks)

def performAll (w : World) (tasks : List Task) : World × List Task :=
  tasks.foldl
    (fun (w, next) t =>
      let (w, more) := w.perform t
      (w, next ++ more))
    (w, [])

def performRounds (w : World) (tasks : List Task) : Nat → World
  | 0 => w
  | n + 1 =>
    let (w, next) := w.performAll tasks
    if next.isEmpty then w else w.performRounds next n

/-- Does tasks and all that follow. What a node sends on its own account reaches others in the next
round; these send nothing but acknowledgements, which make no one send anything. -/
def settle (w : World) (tasks : List Task) : World :=
  w.performRounds tasks 4

structure Timer where
  due : Nat
  armed : Nat
  task : Task

/-- The timers of a node, of which those that were set at the same time go off in this order. -/
def timersOf (node : NodeNumber) (n : Node) : List Timer :=
  let udp :=
    match n.udp with
    | none => []
    | some t =>
      match t.schedule with
      | none => []
      | some s =>
        [⟨s.announcement, s.announcement - t.config.announceInterval, .announce node⟩,
         ⟨s.resend, s.resend - t.config.resendInterval, .resend node⟩]
  let held := n.directory.peers.nextDeadline.toList.map fun time =>
    ⟨time, time - n.discoveryTimeout, .expire node⟩
  let tcp := n.tcp.filterMap fun t =>
    match t.activity with
    | .pausing time => some ⟨time, time - t.config.backoff, .retry node t.index⟩
    | .trying => some ⟨0, 0, .retry node t.index⟩
    | _ => none
  udp ++ tcp ++ held

def timers (w : World) : List Timer :=
  w.residents.entries.flatMap fun e => timersOf e.1 e.2.node

/-- Lets all timers go off that are due: those that were set first go first. -/
def goOff (w : World) : World :=
  let due := w.timers.filter (·.due ≤ w.now)
  w.settle ((due.mergeSort fun a b => a.armed ≤ b.armed).map Timer.task)

def nextDue (w : World) : Option Nat :=
  ((w.timers.map Timer.due).filter (w.now < ·)).min?

/-- Lets time pass from `now` to `limit`; at each moment at which timers are due they go off. -/
def pass (w : World) (now limit : Nat) : World :=
  match { w with now }.nextDue with
  | none => w
  | some time =>
    if _h : now < time ∧ time ≤ limit then ({ w with now := time }.goOff).pass time limit else w
termination_by limit - now
decreasing_by omega

def advance (w : World) (ms : Nat) : World :=
  { w.pass w.now (w.now + ms) with now := w.now + ms }

end World

end PeerMesh

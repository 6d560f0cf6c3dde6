import Mathlib.Algebra.GroupWithZero.Nat
import PeerMesh.Proofs.Life

namespace PeerMesh

namespace Node

/-- The message is for this node, and from another one. -/
def Admits (n : Node) (e : Envelope) : Prop :=
  e.sender ≠ n.id ∧ (e.receiver = n.id ∨ e.receiver.isNil)

instance (n : Node) (e : Envelope) : Decidable (n.Admits e) :=
  inferInstanceAs (Decidable (_ ∧ _))

/-- What is decided on a message when it is dispatched, by what is known of its sender. Nothing is
decided yet on a message that has to wait. -/
def decision (n : Node) (known : Option Identity) (e : Envelope) :
    Option (Option (List HandlerCall)) :=
  if ¬ n.Admits e then some none
  else if e.sender.isNil then some (n.handlers.route e none)
  else
    match known with
    | some i => some (n.handlers.route e (some ⟨e.sender, some i⟩))
    | none => if n.discoveryTimeout = 0 then some none else none

theorem decision_of_not_admits {n : Node} {e : Envelope} (h : ¬ n.Admits e)
    (known : Option Identity) : n.decision known e = some none :=
  if_pos h

theorem decision_of_isNil {n : Node} {e : Envelope} (h : n.Admits e) (hn : e.sender.isNil)
    (known : Option Identity) : n.decision known e = some (n.handlers.route e none) := by
  unfold decision
  rw [if_neg (not_not.mpr h), if_pos hn]

theorem decision_some {n : Node} {e : Envelope} (h : n.Admits e) (hn : ¬ e.sender.isNil)
    (i : Identity) :
    n.decision (some i) e = some (n.handlers.route e (some ⟨e.sender, some i⟩)) := by
  rw [decision, if_neg (not_not.mpr h), if_neg hn]

theorem decision_none {n : Node} {e : Envelope} (h : n.Admits e) (hn : ¬ e.sender.isNil) :
    n.decision none e = if n.discoveryTimeout = 0 then some none else none := by
  rw [decision, if_neg (not_not.mpr h), if_neg hn]

theorem decision_eq_none_iff {n : Node} {known : Option Identity} {e : Envelope} :
    n.decision known e = none ↔
      n.Admits e ∧ ¬ e.sender.isNil ∧ known = none ∧ 0 < n.discoveryTimeout := by
  by_cases ha : n.Admits e
  · by_cases hn : e.sender.isNil
    · simp [decision_of_isNil ha hn, hn]
    · cases known with
      | none => simp [decision_none ha hn, ha, hn, Nat.pos_iff_ne_zero]
      | some i => simp [decision_some ha hn]
  · simp [decision_of_not_admits ha, ha]

def entry (n : Node) (now : Nat) (e : Envelope) : Waiter Held :=
  ⟨⟨n.nextTicket, e⟩, some (now + n.discoveryTimeout)⟩

theorem isExpired_entry (n : Node) (now : Nat) (e : Envelope) (later : Nat) :
    (n.entry now e).isExpired later ↔ now + n.discoveryTimeout ≤ later := by
  simp [entry, Waiter.isExpired]

/-- What a dispatch does: it decides on the message, or the message is one more that waits. -/
structure Dispatches (n : Node) (now : Nat) (e : Envelope) (x : Node × Option Outcome) : Prop where
  outcome : x.2 = (n.decision (n.directory.peers.identity? e.sender) e).map (⟨n.nextTicket, ·⟩)
  identity : ∀ p, x.1.directory.peers.identity? p = n.directory.peers.identity? p
  waiting : ∀ p, x.1.directory.peers.waiting p = n.directory.peers.waiting p ++
    if n.decision (n.directory.peers.identity? e.sender) e = none ∧ p = e.sender then
      [n.entry now e]
    else []

theorem Dispatches.decided {n : Node} {now : Nat} {e : Envelope} {x : Node × Option Outcome}
    {calls : Option (List HandlerCall)}
    (hd : n.decision (n.directory.peers.identity? e.sender) e = some calls)
    (ho : x.2 = some ⟨n.nextTicket, calls⟩)
    (hid : ∀ p, x.1.directory.peers.identity? p = n.directory.peers.identity? p)
    (hw : ∀ p, x.1.directory.peers.waiting p = n.directory.peers.waiting p) :
    n.Dispatches now e x := by
  refine ⟨?_, hid, fun p => ?_⟩
  · rw [ho, hd]
    rfl
  · rw [hw, hd, if_neg (fun h => nomatch h.1), List.append_nil]

theorem resume_of_isNil {n : Node} {k : Nat} {e : Envelope} (hn : e.sender.isNil) :
    n.resume ⟨k, e⟩ = ⟨k, n.handlers.route e none⟩ := by
  unfold resume Handlers.deliver PeerTable.viewOf
  rw [if_pos hn]

theorem resume_of_known {n : Node} {k : Nat} {e : Envelope} {i : Identity}
    (hn : ¬ e.sender.isNil) (hi : n.directory.peers.identity? e.sender = some i) :
    n.resume ⟨k, e⟩ = ⟨k, n.handlers.route e (some ⟨e.sender, some i⟩)⟩ := by
  unfold resume Handlers.deliver PeerTable.viewOf
  rw [if_neg hn, hi]

theorem admits_iff {n : Node} {e : Envelope} : n.Admits e ↔
    e.sender ≠ n.directory.identity.id ∧ n.directory.identity.isReceiver e.receiver := by
  simp [Admits, Identity.isReceiver, Node.id]

theorem dispatch_of_not_admits {n : Node} {e : Envelope} (h : ¬ n.Admits e) (now : Nat) :
    n.dispatch now e =
      ({ n with nextTicket := n.nextTicket + 1 }, some ⟨n.nextTicket, none⟩) := by
  unfold dispatch Held.arrive
  by_cases hs : e.sender = n.directory.identity.id
  · simp only [if_pos hs]
  · have hr : ¬ n.directory.identity.isReceiver e.receiver := fun hr => h (admits_iff.mpr ⟨hs, hr⟩)
    simp only [if_neg hs, if_pos hr]

theorem dispatch_of_isNil {n : Node} {e : Envelope} (h : n.Admits e) (hn : e.sender.isNil)
    (now : Nat) : n.dispatch now e = ({ n with nextTicket := n.nextTicket + 1 },
      some ⟨n.nextTicket, n.handlers.route e none⟩) := by
  obtain ⟨hs, hr⟩ := admits_iff.mp h
  unfold dispatch Held.arrive
  simp only [if_neg hs, if_neg (not_not.mpr hr), if_pos hn]
  rw [resume_of_isNil hn]

theorem dispatch_of_wait {n : Node} {e : Envelope} (h : n.Admits e) (hn : ¬ e.sender.isNil)
    {now : Nat} {peers : PeerTable Held} {result : Option Bool}
    (hw : n.directory.peers.wait now e.sender (n.entry now e) = (peers, result)) :
    let n' : Node := { n with directory.peers := peers, nextTicket := n.nextTicket + 1 }
    n.dispatch now e = (n', match result with
      | some true => some (n'.resume ⟨n.nextTicket, e⟩)
      | some false => some ⟨n.nextTicket, none⟩
      | none => none) := by
  obtain ⟨hs, hr⟩ := admits_iff.mp h
  unfold entry at hw
  unfold dispatch Held.arrive
  simp only [if_neg hs, if_neg (not_not.mpr hr), if_neg hn, hw]
  cases result with
  | none => rfl
  | some known =>
    cases known with
    | false => rfl
    | true => rfl

theorem dispatch_dispatches (n : Node) (now : Nat) (e : Envelope) :
    n.Dispatches now e (n.dispatch now e) := by
  by_cases ha : n.Admits e
  swap
  · rw [dispatch_of_not_admits ha]
    exact .decided (decision_of_not_admits ha _) rfl (fun p => rfl) fun p => rfl
  by_cases hn : e.sender.isNil
  · rw [dispatch_of_isNil ha hn]
    exact .decided (decision_of_isNil ha hn _) rfl (fun p => rfl) fun p => rfl
  obtain ⟨peers, result, hx⟩ : ∃ peers result,
      n.directory.peers.wait now e.sender (n.entry now e) = (peers, result) := ⟨_, _, rfl⟩
  have hid := n.directory.peers.identity?_wait now e.sender (n.entry now e)
  have hw := n.directory.peers.wait_cases now e.sender (n.entry now e)
  rw [hx] at hid hw
  rw [dispatch_of_wait ha hn hx]
  cases hi : n.directory.peers.identity? e.sender with
  | some i =>
    have hd : n.decision (n.directory.peers.identity? e.sender) e =
        some (n.handlers.route e (some ⟨e.sender, some i⟩)) := by
      rw [hi, decision_some ha hn]
    rw [hi, Option.isSome_some, if_pos rfl] at hw
    obtain ⟨rfl, hw⟩ := hw
    exact .decided hd (congrArg some (resume_of_known hn ((hid _).trans hi))) hid hw
  | none =>
    have hexp : (n.entry now e).isExpired now ↔ n.discoveryTimeout = 0 := by
      rw [isExpired_entry]
      omega
    rw [hi, Option.isSome_none, if_neg Bool.false_ne_true] at hw
    by_cases ht : n.discoveryTimeout = 0
    · have hd : n.decision (n.directory.peers.identity? e.sender) e = some none := by
        rw [hi, decision_none ha hn, if_pos ht]
      rw [if_pos (hexp.mpr ht)] at hw
      obtain ⟨rfl, hw⟩ := hw
      exact .decided hd rfl hid hw
    · have hd : n.decision (n.directory.peers.identity? e.sender) e = none := by
        rw [hi, decision_none ha hn, if_neg ht]
      rw [if_neg (mt hexp.mp ht)] at hw
      obtain ⟨rfl, hw⟩ := hw
      refine ⟨?_, hid, fun p => (hw p).trans ?_⟩
      · rw [hd]
        rfl
      · by_cases hp : p = e.sender
        · rw [if_pos hp, if_pos ⟨hd, hp⟩]
        · rw [if_neg hp, if_neg fun h => hp h.2, List.append_nil]

/-- Of the messages with the number `k`, those in `ws` wait, and they wait for the peer `p`. -/
structure Parks (n : Node) (k : Nat) (p : PeerId) (ws : List (Waiter Held)) : Prop where
  own : ((n.directory.peers.waiting p).filter fun w => w.label.ticket = k) = ws
  other : ∀ q ≠ p, ∀ w ∈ n.directory.peers.waiting q, w.label.ticket ≠ k

/-- What was told is known, and those who wait have numbers below `k`, the next one. -/
structure Knows (n : Node) (is : List Identity) (k : Nat) : Prop where
  identity : ∀ p, n.directory.peers.identity? p = PeerTable.latest is p
  ticket : n.nextTicket = k
  numbered : ∀ p, ∀ w ∈ n.directory.peers.waiting p, w.label.ticket < k

theorem IsNew.knows {n : Node} (h : n.IsNew) : n.Knows [] 0 := by
  refine ⟨fun p => ?_, h.ticket, fun p w hw => ?_⟩
  · rw [h.peers]
    rfl
  · rw [h.peers] at hw
    cases hw

variable {n n' : Node} {is told : List Identity} {hs : List Held} {k : Nat} {p : PeerId}
  {ws : List (Waiter Held)}

theorem Learns.identity? (h : n.Learns is n' hs) (q : PeerId) :
    n'.directory.peers.identity? q =
      (PeerTable.latest is q).or (n.directory.peers.identity? q) := by
  rw [← PeerTable.identity?_updateAll, h.peers]

theorem Learns.waiting (h : n.Learns is n' hs) (q : PeerId) : n'.directory.peers.waiting q =
    if (PeerTable.latest is q).isSome then [] else n.directory.peers.waiting q := by
  rw [← PeerTable.waiting_updateAll, h.peers]

theorem Knows.learns (h : n.Knows told k) (hl : n.Learns is n' hs) : n'.Knows (told ++ is) k := by
  refine ⟨fun q => ?_, hl.ticket.trans h.ticket, fun q w hw => ?_⟩
  · rw [hl.identity?, h.identity, PeerTable.latest_append]
  · rw [hl.waiting] at hw
    split at hw
    · cases hw
    · exact h.numbered q w hw

theorem Knows.expireHeld (h : n.Knows told k) (now : Nat) : (n.expireHeld now).1.Knows told k := by
  refine ⟨fun q => ?_, h.ticket, fun q w hw => ?_⟩
  · exact (n.directory.peers.identity?_expire now q).trans (h.identity q)
  · have hm : w ∈ (n.directory.peers.expire now).1.waiting q := hw
    rw [PeerTable.waiting_expire] at hm
    exact h.numbered q w (List.mem_filter.mp hm).1

theorem Knows.dispatch (h : n.Knows told k) (now : Nat) (e : Envelope) :
    (n.dispatch now e).1.Knows told (k + 1) := by
  have hd := n.dispatch_dispatches now e
  refine ⟨fun q => (hd.identity q).trans (h.identity q), ?_, fun q w hw => ?_⟩
  · rw [dispatch_fst, ← h.ticket]
  · rw [hd.waiting, List.mem_append] at hw
    obtain hw | hw := hw
    · exact Nat.lt_succ_of_lt (h.numbered q w hw)
    · split at hw
      · rw [List.mem_singleton.mp hw, ← h.ticket]
        exact Nat.lt_succ_self _
      · cases hw

/-- No message that is still to come waits. -/
theorem Knows.parks (h : n.Knows told k) {k' : Nat} (hk : k ≤ k') (p : PeerId) :
    n.Parks k' p [] := by
  refine ⟨List.filter_eq_nil_iff.mpr fun w hw => ?_, fun q _ w hw => ?_⟩
  · exact fun ht => Nat.ne_of_lt (Nat.lt_of_lt_of_le (h.numbered p w hw) hk) (of_decide_eq_true ht)
  · exact Nat.ne_of_lt (Nat.lt_of_lt_of_le (h.numbered q w hw) hk)

theorem Parks.learns (h : n.Parks k p ws) (hl : n.Learns is n' hs) :
    (hs.filter fun held => held.ticket = k) =
        (if (PeerTable.latest is p).isSome then ws.map Waiter.label else []) ∧
      n'.Parks k p (if (PeerTable.latest is p).isSome then [] else ws) := by
  have hr := n.directory.peers.filter_released is (fun held => held.ticket = k)
    fun q hq w hw ht => h.other q hq w hw (of_decide_eq_true ht)
  rw [hl.peers, List.filter_map] at hr
  refine ⟨hr.trans ?_, ?_, fun q hq w hw => ?_⟩
  · rw [← h.own]
    rfl
  · rw [hl.waiting, ← h.own]
    split
    · rfl
    · rfl
  · rw [hl.waiting] at hw
    split at hw
    · cases hw
    · exact h.other q hq w hw

theorem Parks.expireHeld (h : n.Parks k p ws) (now : Nat) :
    ((n.expireHeld now).2.filter fun o => o.ticket = k) =
        (ws.filter fun w => w.isExpired now).map (fun w => ⟨w.label.ticket, none⟩) ∧
      (n.expireHeld now).1.Parks k p (ws.filter fun w => ¬ w.isExpired now) := by
  have hr := n.directory.peers.filter_expired now (fun held => held.ticket = k)
    fun q hq w hw ht => h.other q hq w hw (of_decide_eq_true ht)
  rw [List.filter_map] at hr
  have hw (q : PeerId) : (n.expireHeld now).1.directory.peers.waiting q = _ :=
    n.directory.peers.waiting_expire now q
  refine ⟨?_, ?_, fun q hq w hm => ?_⟩
  · have ho : ((n.expireHeld now).2.filter fun o => o.ticket = k) =
        ((n.directory.peers.expire now).2.filter fun held => held.ticket = k).map
          fun held => ⟨held.ticket, none⟩ :=
      List.filter_map
    rw [ho, hr, List.map_map, ← h.own, List.filter_comm]
    rfl
  · rw [hw, List.filter_comm, h.own]
  · rw [hw] at hm
    exact h.other q hq w (List.mem_filter.mp hm).1

theorem Parks.dispatch (h : n.Parks k p ws) (hk : n.nextTicket ≠ k) (now : Nat) (e : Envelope) :
    ((n.dispatch now e).2.toList.filter fun o => o.ticket = k) = [] ∧
      (n.dispatch now e).1.Parks k p ws := by
  have hd := n.dispatch_dispatches now e
  refine ⟨?_, ?_, fun q hq w hw => ?_⟩
  · rw [hd.outcome, List.filter_eq_nil_iff]
    intro o ho
    obtain ⟨calls, -, rfl⟩ := Option.map_eq_some_iff.mp (Option.mem_toList.mp ho)
    exact fun ht => hk (of_decide_eq_true ht)
  · rw [hd.waiting, List.filter_append, h.own]
    split
    · simp [entry, hk]
    · simp
  · rw [hd.waiting, List.mem_append] at hw
    obtain hw | hw := hw
    · exact h.other q hq w hw
    · split at hw
      · rw [List.mem_singleton.mp hw]
        exact hk
      · cases hw

end Node

/-- A node and its time. -/
structure ClockedNode where
  node : Node
  now : Nat

namespace ClockedNode

inductive Event where
  | pass (ms : Nat)
  | act (e : Node.Event)

namespace Event

def duration : Event → Nat
  | pass ms => ms
  | act _ => 0

def isDispatch : Event → Bool
  | act (.dispatch _) => true
  | _ => false

end Event

def elapsed (events : List Event) : Nat :=
  (events.map Event.duration).sum

def dispatched (events : List Event) : Nat :=
  events.countP Event.isDispatch

theorem Event.dispatched_of_tells {e : Node.Event} (h : e.Tells) : dispatched [act e] = 0 := by
  cases e with
  | dispatch m => exact h.elim
  | _ => rfl

def step (c : ClockedNode) : Event → ClockedNode × List Outcome
  | .pass ms =>
    let (node, response) := c.node.step (c.now + ms) .expireHeld
    (⟨node, c.now + ms⟩, response.outcomes)
  | .act e =>
    let (node, response) := c.node.step c.now e
    (⟨node, c.now⟩, response.outcomes)

def after (c : ClockedNode) (events : List Event) : ClockedNode :=
  events.foldl (fun c e => (c.step e).1) c

def toldBy (c : ClockedNode) : Event → List Identity
  | .pass _ => []
  | .act e => c.node.told e

def told (c : ClockedNode) : List Event → List Identity
  | [] => []
  | e :: events => c.toldBy e ++ (c.step e).1.told events

theorem after_append (c : ClockedNode) (front back : List Event) :
    c.after (front ++ back) = (c.after front).after back :=
  List.foldl_append

theorem told_append (c : ClockedNode) (front back : List Event) :
    c.told (front ++ back) = c.told front ++ (c.after front).told back := by
  induction front generalizing c with
  | nil => rfl
  | cons e front ih =>
    rw [List.cons_append, told, ih, told, List.append_assoc]
    rfl

theorem told_singleton (c : ClockedNode) (e : Event) : c.told [e] = c.toldBy e :=
  List.append_nil _

theorem elapsed_cons (e : Event) (events : List Event) :
    elapsed (e :: events) = e.duration + elapsed events :=
  List.sum_cons

theorem elapsed_append (front back : List Event) :
    elapsed (front ++ back) = elapsed front + elapsed back := by
  rw [elapsed, List.map_append, List.sum_append]
  rfl

theorem now_step (c : ClockedNode) (e : Event) : (c.step e).1.now = c.now + e.duration := by
  cases e with
  | pass ms => rfl
  | act e => rfl

theorem step_keeps (c : ClockedNode) (e : Event) : c.node.Keeps (c.step e).1.node := by
  cases e with
  | pass ms => exact c.node.step_keeps (c.now + ms) .expireHeld
  | act e => exact c.node.step_keeps c.now e

/-- What becomes of messages in the course of events. -/
def outcomes (c : ClockedNode) : List Event → List Outcome
  | [] => []
  | e :: events => (c.step e).2 ++ (c.step e).1.outcomes events

theorem outcomes_append (c : ClockedNode) (front back : List Event) :
    c.outcomes (front ++ back) = c.outcomes front ++ (c.after front).outcomes back := by
  induction front generalizing c with
  | nil => rfl
  | cons e front ih =>
    rw [List.cons_append, outcomes, ih, outcomes, List.append_assoc]
    rfl

theorem now_after (c : ClockedNode) (events : List Event) :
    (c.after events).now = c.now + elapsed events := by
  induction events using List.reverseRecOn with
  | nil => rfl
  | append_singleton events e ih =>
    rw [after_append, elapsed_append, ← Nat.add_assoc, ← ih]
    exact now_step _ e

theorem after_keeps (c : ClockedNode) (events : List Event) :
    c.node.Keeps (c.after events).node := by
  induction events using List.reverseRecOn with
  | nil => exact .refl c.node
  | append_singleton events e ih =>
    rw [after_append]
    exact ih.trans (step_keeps _ e)

theorem step_knows {c : ClockedNode} {told : List Identity} {k : Nat} (h : c.node.Knows told k)
    (x : Event) :
    (c.step x).1.node.Knows (told ++ c.toldBy x) (k + dispatched [x]) := by
  have hexpire (now : Nat) : (c.node.expireHeld now).1.Knows (told ++ []) (k + 0) := by
    rw [List.append_nil]
    exact h.expireHeld now
  cases x with
  | pass ms => exact hexpire (c.now + ms)
  | act e =>
    obtain he | ⟨m, rfl⟩ | rfl := e.tells_or
    · obtain ⟨hs, hl, -⟩ := c.node.step_learns c.now he
      rw [Event.dispatched_of_tells he]
      exact h.learns hl
    · show (c.node.dispatch c.now m).1.Knows (told ++ []) (k + 1)
      rw [List.append_nil]
      exact h.dispatch c.now m
    · exact hexpire c.now

theorem after_knows {c : ClockedNode} (h : c.node.IsNew) (events : List Event) :
    (c.after events).node.Knows (c.told events) (dispatched events) := by
  induction events using List.reverseRecOn with
  | nil => exact h.knows
  | append_singleton events x ih =>
    have hx := step_knows ih x
    rw [after_append, told_append, told_singleton, dispatched, List.countP_append]
    exact hx

/-- Of the messages with the number `k`, which was dispatched before, those in `ws` wait for the
peer `p`, and their time is not over. -/
structure Awaits (c : ClockedNode) (k : Nat) (p : PeerId) (ws : List (Waiter Held)) : Prop where
  parks : c.node.Parks k p ws
  live : ∀ w ∈ ws, ¬ w.isExpired c.now
  past : k < c.node.nextTicket

section Awaits

variable {c : ClockedNode} {k : Nat} {p : PeerId} {ws : List (Waiter Held)}

theorem Awaits.expireHeld (h : c.Awaits k p ws) (now : Nat) :
    ((c.node.expireHeld now).2.filter fun o => o.ticket = k) =
        ((ws.filter fun w => w.isExpired now).map fun w => ⟨w.label.ticket, none⟩) ∧
      (⟨(c.node.expireHeld now).1, now⟩ : ClockedNode).Awaits k p
        (ws.filter fun w => ¬ w.isExpired now) := by
  obtain ⟨ho, hp⟩ := h.parks.expireHeld now
  exact ⟨ho, hp, fun w hw => of_decide_eq_true (List.mem_filter.mp hw).2, h.past⟩

theorem Awaits.learns (h : c.Awaits k p ws) {is : List Identity} {n : Node} {hs : List Held}
    (hl : c.node.Learns is n hs) :
    ((hs.map n.resume).filter fun o => o.ticket = k) =
        (if (PeerTable.latest is p).isSome then ws.map fun w => n.resume w.label else []) ∧
      (⟨n, c.now⟩ : ClockedNode).Awaits k p
        (if (PeerTable.latest is p).isSome then [] else ws) := by
  obtain ⟨hr, hp⟩ := h.parks.learns hl
  refine ⟨?_, hp, fun w hw => ?_, hl.ticket ▸ h.past⟩
  · have hf : ((hs.map n.resume).filter fun o => o.ticket = k) =
        (hs.filter fun held => held.ticket = k).map n.resume :=
      List.filter_map
    rw [hf, hr]
    split
    · exact List.map_map
    · rfl
  · split at hw
    · cases hw
    · exact h.live w hw

theorem Awaits.dispatch (h : c.Awaits k p ws) (m : Envelope) :
    ((c.node.dispatch c.now m).2.toList.filter fun o => o.ticket = k) = [] ∧
      (⟨(c.node.dispatch c.now m).1, c.now⟩ : ClockedNode).Awaits k p ws := by
  obtain ⟨ho, hp⟩ := h.parks.dispatch (Nat.ne_of_gt h.past) c.now m
  refine ⟨ho, hp, h.live, ?_⟩
  rw [Node.dispatch_fst]
  exact Nat.lt_succ_of_lt h.past

theorem Awaits.step (h : c.Awaits k p ws) (x : Event) :
    let c' := (c.step x).1
    ((c.step x).2.filter fun o => o.ticket = k) =
        (if (PeerTable.latest (c.toldBy x) p).isSome then ws.map fun w => c'.node.resume w.label
        else (ws.filter fun w => w.isExpired c'.now).map fun w => ⟨w.label.ticket, none⟩) ∧
      c'.Awaits k p
        (if (PeerTable.latest (c.toldBy x) p).isSome then []
        else ws.filter fun w => ¬ w.isExpired c'.now) := by
  -- without a deadline in between, no one's wait is over for want of time
  have hnone : (ws.filter fun w => w.isExpired c.now) = [] :=
    List.filter_eq_nil_iff.mpr h.live
  have hall : (ws.filter fun w => ¬ w.isExpired c.now) = ws :=
    List.filter_eq_self.mpr fun w hw => decide_eq_true (h.live w hw)
  cases x with
  | pass ms => exact h.expireHeld (c.now + ms)
  | act e =>
    dsimp only
    rw [now_step, Event.duration, Nat.add_zero, hnone, hall, List.map_nil]
    obtain he | ⟨m, rfl⟩ | rfl := e.tells_or
    · obtain ⟨hs, hl, ho⟩ := c.node.step_learns c.now he
      obtain ⟨hr, hp⟩ := h.learns hl
      rw [← ho] at hr
      exact ⟨hr, hp⟩
    · exact h.dispatch m
    · have he := h.expireHeld c.now
      rw [hnone, hall] at he
      exact he

end Awaits

theorem Awaits.length_outcomes_le {c : ClockedNode} {k : Nat} {p : PeerId}
    {ws : List (Waiter Held)} (h : c.Awaits k p ws) (events : List Event) :
    ((c.outcomes events).filter fun o => o.ticket = k).length ≤ ws.length := by
  induction events generalizing c ws with
  | nil => exact Nat.zero_le _
  | cons x events ih =>
    obtain ⟨ho, hw⟩ := h.step x
    have hrest := ih hw
    rw [outcomes, List.filter_append, List.length_append, ho]
    split at hrest
    · rename_i hi
      rw [if_pos hi, List.length_map]
      exact Nat.add_le_add_left hrest ws.length
    · rename_i hi
      have hl := List.length_eq_length_filter_add (l := ws) fun w => w.isExpired (c.step x).1.now
      rw [if_neg hi, List.length_map, hl]
      apply Nat.add_le_add_left
      simpa only [decide_not, Bool.decide_eq_true] using hrest

/-- A message that was dispatched to the node when it was `c` still waits, if that time has passed
since then, and this is what is known of its sender. -/
def Waits (c : ClockedNode) (e : Envelope) (known : Option Identity) (time : Nat) : Prop :=
  c.node.Admits e ∧ ¬ e.sender.isNil ∧ known = none ∧ time < c.node.discoveryTimeout

instance (c : ClockedNode) (e : Envelope) (known : Option Identity) (time : Nat) :
    Decidable (c.Waits e known time) :=
  inferInstanceAs (Decidable (_ ∧ _))

def waiter (c : ClockedNode) (e : Envelope) : Waiter Held :=
  c.node.entry c.now e

theorem isExpired_waiter (c : ClockedNode) (e : Envelope) (now : Nat) :
    (c.waiter e).isExpired now ↔ c.now + c.node.discoveryTimeout ≤ now :=
  c.node.isExpired_entry c.now e now

theorem awaits_dispatch {c : ClockedNode} {told : List Identity} {k : Nat}
    (h : c.node.Knows told k) (e : Envelope) :
    (c.step (.act (.dispatch e))).1.Awaits k e.sender
      (if c.Waits e (PeerTable.latest told e.sender) 0 then [c.waiter e] else []) := by
  have hd := c.node.dispatch_dispatches c.now e
  have hp := h.parks (Nat.le_refl k) e.sender
  have hwaits : c.node.decision (c.node.directory.peers.identity? e.sender) e = none ↔
      c.Waits e (PeerTable.latest told e.sender) 0 := by
    rw [h.identity]
    exact Node.decision_eq_none_iff
  refine ⟨⟨?_, fun q hq w hw => ?_⟩, fun w hw => ?_, ?_⟩
  · show ((c.node.dispatch c.now e).1.directory.peers.waiting e.sender).filter _ = _
    rw [hd.waiting, List.filter_append, hp.own, List.nil_append]
    by_cases hc : c.Waits e (PeerTable.latest told e.sender) 0
    · rw [if_pos ⟨hwaits.mpr hc, rfl⟩, if_pos hc]
      exact List.filter_cons_of_pos (decide_eq_true h.ticket)
    · rw [if_neg fun hn => hc (hwaits.mp hn.1), if_neg hc]
      rfl
  · have hm : w ∈ (c.node.dispatch c.now e).1.directory.peers.waiting q := hw
    rw [hd.waiting, if_neg fun hn => hq hn.2, List.append_nil] at hm
    exact hp.other q hq w hm
  · split at hw
    · rename_i hc
      rw [List.mem_singleton.mp hw, isExpired_waiter]
      have ht : 0 < c.node.discoveryTimeout := hc.2.2.2
      show ¬ c.now + c.node.discoveryTimeout ≤ c.now
      omega
    · cases hw
  · show k < (c.node.dispatch c.now e).1.nextTicket
    rw [Node.dispatch_fst, ← h.ticket]
    exact Nat.lt_succ_self _

theorem waiting_next (c : ClockedNode) (e : Envelope) (news known : Option Identity)
    (time ms : Nat) :
    (if news.isSome then []
      else (if c.Waits e known time then [c.waiter e] else []).filter fun w =>
        ¬ w.isExpired (c.now + time + ms)) =
      if c.Waits e (news.or known) (time + ms) then [c.waiter e] else [] := by
  cases news with
  | some i => exact (if_neg fun hw => nomatch hw.2.2.1).symm
  | none =>
    rw [Option.none_or, Option.isSome_none, if_neg Bool.false_ne_true]
    by_cases hw : c.Waits e known time
    · have hexp : ¬ (c.waiter e).isExpired (c.now + time + ms) ↔ c.Waits e known (time + ms) := by
        rw [isExpired_waiter]
        refine ⟨fun hn => ⟨hw.1, hw.2.1, hw.2.2.1, by omega⟩, fun hn => ?_⟩
        have ht : time + ms < c.node.discoveryTimeout := hn.2.2.2
        omega
      rw [if_pos hw, List.filter_cons, List.filter_nil]
      simp only [decide_eq_true_eq, hexp]
    · have hn : ¬ c.Waits e known (time + ms) := fun hn =>
        hw ⟨hn.1, hn.2.1, hn.2.2.1, Nat.lt_of_le_of_lt (Nat.le_add_right time ms) hn.2.2.2⟩
      rw [if_neg hw, if_neg hn]
      rfl

theorem outcomes_next (c : ClockedNode) (e : Envelope) (n : Node) (news known : Option Identity)
    (time ms : Nat) :
    (if news.isSome then
        (if c.Waits e known time then [c.waiter e] else []).map fun w => n.resume w.label
      else ((if c.Waits e known time then [c.waiter e] else []).filter fun w =>
        w.isExpired (c.now + time + ms)).map fun w => ⟨w.label.ticket, none⟩) =
      if c.Waits e known time then
        match news with
        | some _ => [n.resume ⟨c.node.nextTicket, e⟩]
        | none =>
          if time + ms < c.node.discoveryTimeout then [] else [⟨c.node.nextTicket, none⟩]
      else [] := by
  by_cases hw : c.Waits e known time
  · rw [if_pos hw, if_pos hw]
    cases news with
    | some i => rfl
    | none =>
      have hexp : (c.waiter e).isExpired (c.now + time + ms) ↔
          ¬ time + ms < c.node.discoveryTimeout := by
        rw [isExpired_waiter]
        omega
      rw [Option.isSome_none, if_neg Bool.false_ne_true, List.filter_cons, List.filter_nil]
      by_cases hlate : time + ms < c.node.discoveryTimeout
      · rw [if_neg (mt hexp.mp (not_not.mpr hlate)), List.map_nil]
        exact (if_pos hlate).symm
      · rw [if_pos (hexp.mpr hlate), List.map_singleton]
        exact (if_neg hlate).symm
  · rw [if_neg hw, if_neg hw]
    exact ite_self []

theorem now_after_dispatch (c₀ : ClockedNode) (front : List Event) (e : Envelope)
    (later : List Event) : (c₀.after (front ++ .act (.dispatch e) :: later)).now =
      (c₀.after front).now + elapsed later := by
  rw [now_after, now_after, elapsed_append, elapsed_cons, Nat.add_assoc]
  exact congrArg _ (congrArg _ (Nat.zero_add _))

theorem awaits_after {c₀ : ClockedNode} (h : c₀.node.IsNew) (front : List Event) (e : Envelope)
    (later : List Event) :
    (c₀.after (front ++ .act (.dispatch e) :: later)).Awaits (dispatched front) e.sender
      (if (c₀.after front).Waits e
          (PeerTable.latest (c₀.told (front ++ .act (.dispatch e) :: later)) e.sender)
          (elapsed later) then
        [(c₀.after front).waiter e]
      else []) := by
  induction later using List.reverseRecOn with
  | nil =>
    have hd := awaits_dispatch (after_knows h front) e
    rw [after_append, told_append]
    have ht : c₀.told front ++ (c₀.after front).told [.act (.dispatch e)] = c₀.told front :=
      List.append_nil _
    rw [ht]
    exact hd
  | append_singleton later x ih =>
    obtain ⟨-, hx⟩ := ih.step x
    rw [now_step, now_after_dispatch, waiting_next, ← PeerTable.latest_append] at hx
    rw [← List.cons_append, ← List.append_assoc, after_append, told_append, elapsed_append,
      told_singleton]
    exact hx

theorem outcomes_singleton (c : ClockedNode) (e : Event) : c.outcomes [e] = (c.step e).2 :=
  List.append_nil _

theorem ticket_lt_of_step {c : ClockedNode} {told : List Identity} {k : Nat}
    (h : c.node.Knows told k) {x : Event} {o : Outcome} (ho : o ∈ (c.step x).2) :
    o.ticket < k + dispatched [x] := by
  by_contra hlt
  have hk : k ≤ o.ticket := Nat.le_of_add_right_le (Nat.le_of_not_lt hlt)
  have hparks := h.parks hk .nil
  have hexpire (now : Nat) : o ∉ (c.node.expireHeld now).2 := fun hm => by
    have he := (hparks.expireHeld now).1
    exact List.filter_eq_nil_iff.mp he o hm (decide_eq_true rfl)
  cases x with
  | pass ms => exact hexpire (c.now + ms) ho
  | act e =>
    obtain he | ⟨m, rfl⟩ | rfl := e.tells_or
    · obtain ⟨hs, hl, hout⟩ := c.node.step_learns c.now he
      have ho : o ∈ (c.node.step c.now e).2.outcomes := ho
      rw [hout] at ho
      obtain ⟨held, hm, rfl⟩ := List.mem_map.mp ho
      have hr := (hparks.learns hl).1
      rw [List.map_nil, ite_self] at hr
      exact List.filter_eq_nil_iff.mp hr held hm (decide_eq_true rfl)
    · have ho : o ∈ (c.node.dispatch c.now m).2.toList := ho
      rw [(c.node.dispatch_dispatches c.now m).outcome] at ho
      obtain ⟨calls, -, rfl⟩ := Option.map_eq_some_iff.mp (Option.mem_toList.mp ho)
      rw [h.ticket] at hlt
      exact hlt (Nat.lt_succ_self k)
    · exact hexpire c.now ho

theorem ticket_lt_of_outcomes {c : ClockedNode} (h : c.node.IsNew) {events : List Event}
    {o : Outcome} (ho : o ∈ c.outcomes events) : o.ticket < dispatched events := by
  induction events using List.reverseRecOn with
  | nil => cases ho
  | append_singleton events x ih =>
    rw [outcomes_append, outcomes_singleton, List.mem_append] at ho
    rw [dispatched, List.countP_append]
    obtain ho | ho := ho
    · exact Nat.lt_of_lt_of_le (ih ho) (Nat.le_add_right _ _)
    · exact ticket_lt_of_step (after_knows h events) ho

theorem outcome_after {c₀ : ClockedNode} (h : c₀.node.IsNew) (front : List Event) (e : Envelope)
    (later : List Event) (x : Event) :
    let c := c₀.after front
    let known (events : List Event) := PeerTable.latest (c₀.told events) e.sender
    let before := front ++ .act (.dispatch e) :: later
    let next := (c₀.after before).step x
    (next.2.filter fun o => o.ticket = dispatched front) =
      if c.Waits e (known before) (elapsed later) then
        match known (before ++ [x]) with
        | some i =>
          [⟨dispatched front, next.1.node.handlers.route e (some ⟨e.sender, some i⟩)⟩]
        | none =>
          if elapsed later + x.duration < c.node.discoveryTimeout then []
          else [⟨dispatched front, none⟩]
      else [] := by
  intro c known before next
  have hk := after_knows h front
  have hnext := after_knows h (before ++ [x])
  rw [after_append] at hnext
  have hknown : known (before ++ [x]) =
      (PeerTable.latest ((c₀.after before).toldBy x) e.sender).or (known before) := by
    show PeerTable.latest (c₀.told (before ++ [x])) e.sender = _
    rw [told_append, told_singleton, PeerTable.latest_append]
  -- What becomes of the message is what becomes of its waiter, if there is still one.
  obtain ⟨ho, -⟩ := (awaits_after h front e later).step x
  rw [now_step, now_after_dispatch, outcomes_next, hk.ticket] at ho
  refine ho.trans ?_
  by_cases hw : c.Waits e (known before) (elapsed later)
  · rw [if_pos hw, if_pos hw]
    rw [hw.2.2.1, Option.or_none] at hknown
    rw [hknown]
    cases hi : PeerTable.latest ((c₀.after before).toldBy x) e.sender with
    | some i =>
      rw [hi] at hknown
      exact congrArg (fun o => [o])
        (Node.resume_of_known hw.2.1 ((hnext.identity e.sender).trans hknown))
    | none => rfl
  · rw [if_neg hw, if_neg hw]

theorem length_outcomes_le {c₀ : ClockedNode} (h : c₀.node.IsNew) (front : List Event)
    (e : Envelope) (back : List Event) :
    ((c₀.outcomes (front ++ .act (.dispatch e) :: back)).filter fun o =>
      o.ticket = dispatched front).length ≤ 1 := by
  have hk := after_knows h front
  have hfront : ((c₀.outcomes front).filter fun o => o.ticket = dispatched front) = [] :=
    List.filter_eq_nil_iff.mpr fun o ho ht =>
      Nat.ne_of_lt (ticket_lt_of_outcomes h ho) (of_decide_eq_true ht)
  have hback := (awaits_dispatch hk e).length_outcomes_le back
  have ho := ((c₀.after front).node.dispatch_dispatches (c₀.after front).now e).outcome
  rw [hk.identity] at ho
  rw [outcomes_append, List.filter_append, hfront, List.nil_append, outcomes, List.filter_append,
    List.length_append]
  have hstep : (((c₀.after front).step (.act (.dispatch e))).2.filter fun o =>
      o.ticket = dispatched front).length +
        (if (c₀.after front).Waits e (PeerTable.latest (c₀.told front) e.sender) 0 then
          [(c₀.after front).waiter e] else []).length ≤ 1 := by
    show (((c₀.after front).node.dispatch (c₀.after front).now e).2.toList.filter _).length + _ ≤ 1
    rw [ho]
    cases hd : (c₀.after front).node.decision (PeerTable.latest (c₀.told front) e.sender) e with
    | none =>
      have hw : (c₀.after front).Waits e (PeerTable.latest (c₀.told front) e.sender) 0 :=
        Node.decision_eq_none_iff.mp hd
      rw [if_pos hw]
      exact Nat.le_refl 1
    | some calls =>
      have hw : ¬ (c₀.after front).Waits e (PeerTable.latest (c₀.told front) e.sender) 0 :=
        fun hw => nomatch hd.symm.trans (Node.decision_eq_none_iff.mpr hw)
      rw [if_neg hw]
      exact List.length_filter_le _ _
  exact Nat.le_trans (Nat.add_le_add_left hback _) hstep

theorem route_of_announcement {c : ClockedNode}
    (h : c.node.directory.Lists c.node.contexts) {bs : Bytes} {source : SocketAddress}
    {i : Identity} (hi : i ∈ c.toldBy (.act (.datagram bs source)))
    (hport : (i.declaredPort unicastPortKey).isSome) : ∃ endpoint, .udp i.id endpoint ∈
      (c.step (.act (.datagram bs source))).1.node.directory.routes.routesTo i.id := by
  have hl := (c.step_keeps (.act (.datagram bs source))).lists h
  have hc : ((c.step (.act (.datagram bs source))).1.node.contexts.get? i.id).isSome :=
    (c.node.contexts_receiveDatagram c.now bs source i.id).mpr (.inr ⟨i, hi, rfl, hport⟩)
  obtain ⟨endpoint, he⟩ := Option.isSome_iff_exists.mp hc
  exact ⟨endpoint, (hl.udp i.id i.id endpoint).mpr ⟨rfl, he⟩⟩

/-- What becomes of a message is decided when it is dispatched, unless it has to wait. If it waits,
the first identity of its sender lets it through, if that arrives before the time is over; otherwise
it is dropped when the time is over. It is done with once. -/
theorem discovery_gate {s : NodeSetup} {now : Nat} {n : Node} (hstart : Node.start s now = .ok n)
    (front : List Event) (e : Envelope) (back : List Event) :
    let c₀ : ClockedNode := ⟨n, now⟩
    let c := c₀.after front
    let k := dispatched front
    let known (events : List Event) := PeerTable.latest (c₀.told events) e.sender
    c.node.id = n.id ∧ c.node.discoveryTimeout = n.discoveryTimeout ∧
    (c.step (.act (.dispatch e))).2 = ((c.node.decision (known front) e).map (⟨k, ·⟩)).toList ∧
    (∀ later x rest, back = later ++ x :: rest →
      let before := front ++ .act (.dispatch e) :: later
      let next := (c₀.after before).step x
      (next.2.filter fun o => o.ticket = k) =
          (if c.Waits e (known before) (elapsed later) then
            match known (before ++ [x]) with
            | some i => [⟨k, next.1.node.handlers.route e (some ⟨e.sender, some i⟩)⟩]
            | none =>
              if elapsed later + x.duration < c.node.discoveryTimeout then [] else [⟨k, none⟩]
          else []) ∧
        ∀ bs source i, x = .act (.datagram bs source) → i ∈ (c₀.after before).toldBy x →
          i.id = e.sender → (i.declaredPort unicastPortKey).isSome →
            ∃ endpoint, .udp e.sender endpoint ∈
              next.1.node.directory.routes.routesTo e.sender) ∧
    ((c₀.outcomes (front ++ .act (.dispatch e) :: back)).filter fun o => o.ticket = k).length ≤
      1 := by
  have hnew : (⟨n, now⟩ : ClockedNode).node.IsNew := Node.isNew_of_start hstart
  have hk := after_knows hnew front
  have hkeeps := after_keeps ⟨n, now⟩ front
  refine ⟨hkeeps.id, hkeeps.timeout, ?_, fun later x rest _ => ⟨?_, ?_⟩, ?_⟩
  · have ho := (((⟨n, now⟩ : ClockedNode).after front).node.dispatch_dispatches
      ((⟨n, now⟩ : ClockedNode).after front).now e).outcome
    rw [hk.identity, hk.ticket] at ho
    exact congrArg Option.toList ho
  · exact outcome_after hnew front e later x
  · rintro bs source i rfl hi hid hport
    rw [← hid]
    exact route_of_announcement ((after_keeps ⟨n, now⟩ _).lists hnew.lists) hi hport
  · exact length_outcomes_le hnew front e back

theorem discovery_gate_second :
    let front : List Event := [.act (.register ⟨"texts", .numberedText⟩)]
    let e : Envelope := ⟨⟨2⟩, ⟨1⟩, .of (⟨7, "hello"⟩ : NumberedText)⟩
    let before := front ++ .act (.dispatch e) :: [.pass 20000]
    let next := (after ⟨.first, 0⟩ before).step (.act .secondAnnounced)
    Node.start .first 0 = .ok .first ∧
    ((after ⟨.first, 0⟩ front).step (.act (.dispatch e))).2 = [] ∧
    (next.2.filter fun o => o.ticket = 0) = [⟨0, some [⟨⟨"texts", .numberedText⟩,
      .numberedText ⟨7, "hello"⟩, ⟨2⟩, ⟨1⟩, some ⟨⟨2⟩, some .second⟩⟩]⟩] ∧
    ∃ endpoint, .udp ⟨2⟩ endpoint ∈ next.1.node.directory.routes.routesTo ⟨2⟩ := by
  intro front e before next
  obtain ⟨-, -, hfirst, hlater, -⟩ := discovery_gate Node.start_first front e
    [.pass 20000, .act .secondAnnounced]
  obtain ⟨ho, hr⟩ := hlater [.pass 20000] (.act .secondAnnounced) [] rfl
  have htold : Identity.second ∈ (after ⟨.first, 0⟩ before).toldBy (.act .secondAnnounced) := by
    decide +kernel
  have hwaits : (after ⟨.first, 0⟩ front).Waits e
      (PeerTable.latest (told ⟨.first, 0⟩ before) e.sender) (elapsed [.pass 20000]) := by
    decide +kernel
  have hknown : PeerTable.latest (told ⟨.first, 0⟩ (front ++ .act (.dispatch e) ::
      [.pass 20000] ++ [.act .secondAnnounced])) e.sender = some .second := by
    decide +kernel
  have hcalls : next.1.node.handlers.route e (some ⟨⟨2⟩, some .second⟩) =
      some [⟨⟨"texts", .numberedText⟩, .numberedText ⟨7, "hello"⟩, ⟨2⟩, ⟨1⟩,
        some ⟨⟨2⟩, some .second⟩⟩] := by
    decide +kernel
  refine ⟨Node.start_first, hfirst, ?_, hr _ _ _ rfl htold rfl (by decide +kernel)⟩
  have ho := ho.trans (if_pos hwaits)
  dsimp only at ho
  rw [hknown] at ho
  exact ho.trans (congrArg (fun calls => [Outcome.mk 0 calls]) hcalls)

end ClockedNode

end PeerMesh

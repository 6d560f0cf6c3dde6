import Mathlib.Data.List.DropRight
import PeerMesh.Proofs.Calls
import PeerMesh.Proofs.Gate
import PeerMesh.Proofs.Steps

namespace PeerMesh

/-- What a handler is given of a message. What is known of the sender it may look up at any time. -/
structure Handed where
  handler : Handler
  content : Content
  sender : PeerId
  receiver : PeerId
deriving DecidableEq

def HandlerCall.handed (c : HandlerCall) : Handed :=
  ⟨c.handler, c.content, c.sender, c.receiver⟩

def Handler.read (h : Handler) : Body → Except BodyError Content :=
  h.kind.read

section Reading

variable (reads : Handler → Body → Except BodyError Content)

def Handed.of (e : Envelope) (h : Handler) : Option Handed :=
  match reads h e.body with
  | .ok content => some ⟨h, content, e.sender, e.receiver⟩
  | .error _ => none

def Handed.all (e : Envelope) (hs : List Handler) : List Handed :=
  hs.filterMap (Handed.of reads e)

theorem Handed.all_concat (e : Envelope) (hs : List Handler) (h : Handler) :
    Handed.all reads e (hs ++ [h]) = Handed.all reads e hs ++ (Handed.of reads e h).toList := by
  rw [all, all, List.filterMap_append]
  cases ho : Handed.of reads e h with
  | none => rw [List.filterMap_cons_none ho, List.filterMap_nil, Option.toList_none]
  | some made => rw [List.filterMap_cons_some ho, List.filterMap_nil, Option.toList_some]

end Reading

theorem Handlers.map_handed_call (h : Handler) (e : Envelope) (peer : Option SenderView) :
    (call h e peer).map HandlerCall.handed = Handed.of Handler.read e h := by
  unfold call Handed.of Handler.read
  cases h.kind.read e.body with
  | ok content => rfl
  | error err => rfl

/-- The handlers for a type are those in a list; there is an entry for them if there are any. -/
def Handlers.HasFor (hs : Handlers) (id : MessageTypeId) (l : List Handler) : Prop :=
  hs.byType.get? id = if l = [] then Option.none else some l

namespace Handlers

variable {hs : Handlers} {id : MessageTypeId} {l : List Handler}

theorem HasFor.getD (h : hs.HasFor id l) : (hs.byType.get? id).getD [] = l := by
  rw [h]
  split
  · rename_i hl
    exact hl.symm
  · rfl

theorem HasFor.register (h : hs.HasFor id l) (new : Handler) :
    (hs.register new).HasFor id
      (l ++ (if new.kind.typeId = id then some new else .none).toList) := by
  rw [HasFor, Handlers.register, KeyedList.get?_put]
  by_cases hid : new.kind.typeId = id
  · subst hid
    rw [if_pos rfl, if_pos rfl, h.getD, Option.toList_some,
      if_neg (List.append_ne_nil_of_right_ne_nil l (List.cons_ne_nil _ _))]
  · rw [if_neg (Ne.symm hid), if_neg hid, Option.toList_none, List.append_nil]
    exact h

theorem HasFor.deregister (h : hs.HasFor id l) (kind : MessageKind) :
    (hs.deregister kind).1.HasFor id (if kind.typeId = id then [] else l) := by
  rw [HasFor, Handlers.deregister, KeyedList.get?_erase]
  by_cases hid : kind.typeId = id
  · rw [if_pos hid.symm, if_pos hid, if_pos rfl]
  · rw [if_neg (Ne.symm hid), if_neg hid]
    exact h

/-- A message goes to all handlers for its type. -/
theorem HasFor.route {e : Envelope} (h : hs.HasFor e.body.typeId l) (peer : Option SenderView) :
    (hs.route e peer).map (List.map HandlerCall.handed) =
      if l = [] then .none else some (Handed.all Handler.read e l) := by
  rw [Handlers.route, h]
  split
  · rfl
  · rw [Option.map_some, Option.map_some, List.map_filterMap]
    exact congrArg some (List.filterMap_congr fun x _ => map_handed_call x e peer)

end Handlers

namespace Node

theorem handlers_of_start {s : NodeSetup} {now : Nat} {n : Node} (h : Node.start s now = .ok n) :
    n.handlers = .none := by
  unfold start at h
  dsimp only at h
  split at h
  · obtain ⟨tcp, rfl⟩ := startAllTcp_eq h
    rfl
  · split at h
    · cases h
    · rename_i hu
      obtain ⟨link, -, rfl⟩ := startUdp_eq hu
      obtain ⟨tcp, rfl⟩ := startAllTcp_eq h
      rfl

def admission (n : Node) (now : Nat) (e : Envelope) : Admission :=
  ((⟨n.nextTicket, e⟩ : Held).arrive n.directory.identity n.directory.peers now
    n.discoveryTimeout).2

theorem dispatch_snd (n : Node) (now : Nat) (e : Envelope) : (n.dispatch now e).2 =
    match n.admission now e with
    | .admitted => some ((n.dispatch now e).1.resume ⟨n.nextTicket, e⟩)
    | .refused => some ⟨n.nextTicket, none⟩
    | .held => none := by
  obtain ⟨peers, a, hx⟩ : ∃ peers a, (⟨n.nextTicket, e⟩ : Held).arrive n.directory.identity
      n.directory.peers now n.discoveryTimeout = (peers, a) := ⟨_, _, rfl⟩
  unfold admission dispatch
  simp only [hx]
  cases a with
  | _ => rfl

theorem admission_eq_held_iff {n : Node} {now : Nat} {e : Envelope} :
    n.admission now e = .held ↔
      n.decision (n.directory.peers.identity? e.sender) e = none := by
  have ho := (n.dispatch_dispatches now e).outcome
  rw [n.dispatch_snd now e] at ho
  rw [← Option.map_eq_none_iff, ← ho]
  cases n.admission now e with
  | admitted => exact iff_of_false (by simp) (by simp)
  | refused => exact iff_of_false (by simp) (by simp)
  | held => exact iff_of_true rfl rfl

end Node

namespace ClockedNode

namespace Event

def registers? (id : MessageTypeId) : Event → Option Handler
  | act (.register h) => if h.kind.typeId = id then some h else none
  | _ => none

def deregisters (id : MessageTypeId) : Event → Bool
  | act (.deregister kind) => kind.typeId = id
  | _ => false

def message? : Event → Option Envelope
  | act (.dispatch e) => some e
  | _ => none

def expires : Event → Bool
  | pass _ | act .expireHeld => true
  | _ => false

theorem isSome_message? (x : Event) : x.message?.isSome = x.isDispatch := by
  cases x with
  | pass ms => rfl
  | act e =>
    cases e with
    | _ => rfl

end Event

/-- The handlers for a type that have been registered since those for it were last removed. -/
def registeredFor (events : List Event) (id : MessageTypeId) : List Handler :=
  (events.rtakeWhile fun x => ¬ x.deregisters id).filterMap (Event.registers? id)

def messages (events : List Event) : List Envelope :=
  events.filterMap Event.message?

theorem registeredFor_concat (events : List Event) (x : Event) (id : MessageTypeId) :
    registeredFor (events ++ [x]) id =
      if x.deregisters id then [] else registeredFor events id ++ (x.registers? id).toList := by
  unfold registeredFor
  by_cases hx : x.deregisters id
  · rw [if_pos hx, List.rtakeWhile_concat_neg _ _ _ (by simpa using hx)]
    rfl
  · rw [if_neg hx, List.rtakeWhile_concat_pos _ _ _ (by simpa using hx), List.filterMap_append]
    rfl

theorem length_messages (events : List Event) : (messages events).length = dispatched events := by
  rw [messages, List.length_filterMap_eq_countP]
  exact List.countP_congr fun x _ => by rw [Event.isSome_message?]

theorem calls_of_expires {c : ClockedNode} {x : Event} (hx : x.expires) {o : Outcome}
    (ho : o ∈ (c.step x).2) : o.calls = none := by
  have hexpire {now : Nat} (h : o ∈ (c.node.expireHeld now).2) : o.calls = none := by
    obtain ⟨held, -, rfl⟩ := List.mem_map.mp h
    rfl
  cases x with
  | pass ms => exact hexpire ho
  | act e =>
    cases e with
    | expireHeld => exact hexpire ho
    | _ => cases hx

/-- The handlers for a type after an event. -/
theorem hasFor_step {c : ClockedNode} {id : MessageTypeId} {l : List Handler}
    (h : c.node.handlers.HasFor id l) (x : Event) :
    (c.step x).1.node.handlers.HasFor id
      (if x.deregisters id then [] else l ++ (x.registers? id).toList) := by
  have hsame {hs : Handlers} (he : hs = c.node.handlers) : hs.HasFor id (l ++ []) := by
    rw [List.append_nil, he]
    exact h
  cases x with
  | pass ms => exact hsame (c.node.handlers_step (c.now + ms) .expireHeld)
  | act e =>
    have he := c.node.handlers_step c.now e
    cases e with
    | register new => exact h.register new
    | deregister kind =>
      have hgone := h.deregister kind
      have hiff : Event.deregisters id (.act (.deregister kind)) ↔ kind.typeId = id :=
        decide_eq_true_iff
      by_cases hid : kind.typeId = id
      · rw [if_pos hid] at hgone
        rw [if_pos (hiff.mpr hid)]
        exact hgone
      · rw [if_neg hid] at hgone
        have hnone : Event.registers? id (.act (.deregister kind)) = none := rfl
        rw [if_neg (mt hiff.mp hid), hnone, Option.toList_none, List.append_nil]
        exact hgone
    | _ => exact hsame he

theorem hasFor_after {c : ClockedNode} (h : c.node.handlers = .none) (events : List Event)
    (id : MessageTypeId) : (c.after events).node.handlers.HasFor id (registeredFor events id) := by
  induction events using List.reverseRecOn with
  | nil =>
    show c.node.handlers.HasFor id []
    rw [h]
    rfl
  | append_singleton events x ih =>
    rw [after_append, registeredFor_concat]
    exact hasFor_step ih x

end ClockedNode

/-- How far a message has come that was dispatched. -/
inductive Stage where
  | waiting
  | ready
  | dropped
  /-- The handlers for it have been looked up. Those in `left` have not had their turn, and `made`
  are the calls of the others. -/
  | calling (left : List Handler) (made : List Handed)
  | finished (answer : Bool) (made : List Handed)
deriving DecidableEq

namespace Stage

def ofAdmission : Admission → Stage
  | .refused => dropped
  | .admitted => ready
  | .held => waiting

def IsRouted : Stage → Prop
  | calling _ _ | finished _ _ => True
  | _ => False

end Stage

/-- A message that was dispatched, on its way to the handlers. -/
structure Handover where
  message : Envelope
  stage : Stage
deriving DecidableEq

namespace Handover

def settle (x : ClockedNode.Event) (outcomes : List Outcome) (k : Nat) (t : Handover) : Handover :=
  if t.stage = .waiting ∧ ∃ o ∈ outcomes, o.ticket = k then
    { t with stage := if x.expires then .dropped else .ready }
  else t

def route (hs : Handlers) (t : Handover) : Handover :=
  match t.stage with
  | .ready =>
    match hs.byType.get? t.message.body.typeId with
    | none => { t with stage := .finished false [] }
    | some l => { t with stage := .calling l [] }
  | _ => t

def call (reads : Handler → Body → Except BodyError Content) (t : Handover) : Handover :=
  match t.stage with
  | .calling [] made => { t with stage := .finished true made }
  | .calling (h :: hs) made =>
    { t with stage := .calling hs (made ++ (Handed.of reads t.message h).toList) }
  | _ => t

end Handover

/-- A node whose messages are handed over in turns. The messages have numbers in the order in which
they were dispatched. -/
structure Desk extends ClockedNode where
  handovers : List Handover := []

namespace Desk

open ClockedNode (registeredFor messages)

inductive Move where
  | event (x : ClockedNode.Event)
  | route (ticket : Nat)
  | call (ticket : Nat)

namespace Move

def event? : Move → Option ClockedNode.Event
  | event x => some x
  | _ => none

def calls (ticket : Nat) : Move → Bool
  | call k => k = ticket
  | _ => false

end Move

def events (moves : List Move) : List ClockedNode.Event :=
  moves.filterMap Move.event?

def begun (d : Desk) : ClockedNode.Event → List Handover
  | .act (.dispatch e) => [⟨e, .ofAdmission (d.node.admission d.now e)⟩]
  | _ => []

section Run

variable (reads : Handler → Body → Except BodyError Content)

def step (d : Desk) : Move → Desk
  | .event x =>
    let (c, outcomes) := d.toClockedNode.step x
    { toClockedNode := c
      handovers := d.handovers.mapIdx (Handover.settle x outcomes) ++ d.begun x }
  | .route k => { d with handovers := d.handovers.modify k (·.route d.node.handlers) }
  | .call k => { d with handovers := d.handovers.modify k (·.call reads) }

def run (d : Desk) (moves : List Move) : Desk :=
  moves.foldl (step reads) d

/-- The stage of a message for which the handlers `hs` were looked up, so many turns later. -/
def stageAfter (e : Envelope) (hs : List Handler) (turns : Nat) : Stage :=
  if hs = [] then .finished false []
  else if turns ≤ hs.length then
    .calling (hs.drop turns) (Handed.all reads e (hs.take turns))
  else .finished true (Handed.all reads e hs)

end Run

variable {reads : Handler → Body → Except BodyError Content}

theorem run_append (d : Desk) (front back : List Move) :
    d.run reads (front ++ back) = (d.run reads front).run reads back :=
  List.foldl_append

theorem run_concat (d : Desk) (moves : List Move) (m : Move) :
    d.run reads (moves ++ [m]) = (d.run reads moves).step reads m :=
  d.run_append moves [m]

theorem events_append (front back : List Move) :
    events (front ++ back) = events front ++ events back :=
  List.filterMap_append

theorem toClockedNode_run (reads : Handler → Body → Except BodyError Content) (d : Desk)
    (moves : List Move) :
    (d.run reads moves).toClockedNode = d.toClockedNode.after (events moves) := by
  induction moves using List.reverseRecOn with
  | nil => rfl
  | append_singleton moves m ih =>
    rw [run_concat, events_append, ClockedNode.after_append, ← ih]
    cases m with
    | event x => rfl
    | route k => rfl
    | call k => rfl

theorem getElem?_event {d : Desk} {k : Nat} {t : Handover} (h : d.handovers[k]? = some t)
    (x : ClockedNode.Event) : (d.step reads (.event x)).handovers[k]? =
      some (t.settle x (d.toClockedNode.step x).2 k) := by
  obtain ⟨hlt, -⟩ := List.getElem?_eq_some_iff.mp h
  show (_ ++ d.begun x)[k]? = _
  rw [List.getElem?_append_left (by rwa [List.length_mapIdx]), List.getElem?_mapIdx, h]
  rfl

theorem getElem?_modify_self {d : Desk} {k : Nat} {t : Handover}
    (h : d.handovers[k]? = some t) (f : Handover → Handover) :
    (d.handovers.modify k f)[k]? = some (f t) := by
  rw [List.getElem?_modify_eq, h]
  rfl

theorem message_settle (t : Handover) (x : ClockedNode.Event) (outcomes : List Outcome) (k : Nat) :
    (t.settle x outcomes k).message = t.message := by
  unfold Handover.settle
  split
  · rfl
  · rfl

theorem message_route (t : Handover) (hs : Handlers) : (t.route hs).message = t.message := by
  unfold Handover.route
  split
  · split
    · rfl
    · rfl
  · rfl

theorem message_call (t : Handover) : (t.call reads).message = t.message := by
  unfold Handover.call
  split
  · rfl
  · rfl
  · rfl

theorem messages_step (d : Desk) (m : Move) :
    (d.step reads m).handovers.map Handover.message =
      d.handovers.map Handover.message ++ messages (events [m]) := by
  have hmodify (k : Nat) {f : Handover → Handover} (hf : ∀ t, (f t).message = t.message) :
      (d.handovers.modify k f).map Handover.message = d.handovers.map Handover.message := by
    refine List.ext_getElem? fun j => ?_
    rw [List.getElem?_map, List.getElem?_map, List.getElem?_modify]
    cases d.handovers[j]? with
    | none => rfl
    | some t => exact congrArg some (by by_cases hk : k = j <;> simp [hk, hf])
  cases m with
  | event x =>
    have hbegun : (d.begun x).map Handover.message = messages (events [.event x]) := by
      cases x with
      | pass ms => rfl
      | act e => cases e <;> rfl
    refine List.map_append.trans (congrArg₂ (· ++ ·) (List.ext_getElem? fun j => ?_) hbegun)
    rw [List.getElem?_map, List.getElem?_map, List.getElem?_mapIdx]
    cases d.handovers[j]? with
    | none => rfl
    | some t => exact congrArg some (message_settle t x _ j)
  | route k => exact (hmodify k (message_route · _)).trans (List.append_nil _).symm
  | call k => exact (hmodify k message_call).trans (List.append_nil _).symm

theorem messages_run (reads : Handler → Body → Except BodyError Content) (d : Desk)
    (moves : List Move) :
    (d.run reads moves).handovers.map Handover.message =
      d.handovers.map Handover.message ++ messages (events moves) := by
  induction moves using List.reverseRecOn with
  | nil => exact (List.append_nil _).symm
  | append_singleton moves m ih =>
    rw [run_concat, events_append, ClockedNode.messages, List.filterMap_append, ← List.append_assoc]
    exact (messages_step _ m).trans (congrArg (· ++ _) ih)

theorem settle_of_isRouted {t : Handover} (h : t.stage.IsRouted) (x : ClockedNode.Event)
    (outcomes : List Outcome) (k : Nat) : t.settle x outcomes k = t := by
  refine if_neg fun hw => ?_
  rw [hw.1] at h
  exact h

theorem route_of_isRouted {t : Handover} (h : t.stage.IsRouted) (hs : Handlers) :
    t.route hs = t := by
  obtain ⟨e, st⟩ := t
  cases st with
  | ready => exact h.elim
  | _ => rfl

theorem isRouted_stageAfter (reads : Handler → Body → Except BodyError Content)
    (e : Envelope) (hs : List Handler) (turns : Nat) :
    (stageAfter reads e hs turns).IsRouted := by
  unfold stageAfter
  split
  · trivial
  · split
    · trivial
    · trivial

theorem route_ready {hs : Handlers} {e : Envelope} {l : List Handler}
    (h : hs.HasFor e.body.typeId l) :
    Handover.route hs ⟨e, .ready⟩ = ⟨e, stageAfter reads e l 0⟩ := by
  unfold Handover.route stageAfter
  dsimp only
  rw [h]
  by_cases hl : l = []
  · rw [if_pos hl, if_pos hl]
  · rw [if_neg hl, if_neg hl, if_pos (Nat.zero_le _)]
    rfl

theorem call_stageAfter (e : Envelope) (hs : List Handler) (turns : Nat) :
    Handover.call reads ⟨e, stageAfter reads e hs turns⟩ =
      ⟨e, stageAfter reads e hs (turns + 1)⟩ := by
  unfold stageAfter
  by_cases hnil : hs = []
  · rw [if_pos hnil, if_pos hnil]
    rfl
  rw [if_neg hnil, if_neg hnil]
  by_cases hlt : turns < hs.length
  · rw [if_pos (Nat.le_of_lt hlt), if_pos (Nat.succ_le_of_lt hlt), List.drop_eq_getElem_cons hlt,
      List.take_succ_eq_append_getElem hlt, Handed.all_concat]
    rfl
  · rw [if_neg (show ¬ turns + 1 ≤ hs.length from hlt)]
    by_cases heq : turns ≤ hs.length
    · have hlength : turns = hs.length := Nat.le_antisymm heq (Nat.le_of_not_lt hlt)
      rw [if_pos heq, hlength, List.drop_length, List.take_length]
      rfl
    · rw [if_neg heq]
      rfl

/-- Once the handlers for a message were looked up, only its own turns matter to it. -/
theorem step_stageAfter {d : Desk} {k : Nat} {e : Envelope} {hs : List Handler} {turns : Nat}
    (h : d.handovers[k]? = some ⟨e, stageAfter reads e hs turns⟩) (m : Move) :
    (d.step reads m).handovers[k]? =
      some ⟨e, stageAfter reads e hs (turns + [m].countP (Move.calls k))⟩ := by
  have hrouted := isRouted_stageAfter reads e hs turns
  cases m with
  | event x =>
    rw [getElem?_event h x, settle_of_isRouted hrouted]
    rfl
  | route k' =>
    show (d.handovers.modify k' _)[k]? = _
    by_cases hk : k' = k
    · subst hk
      rw [getElem?_modify_self h, route_of_isRouted hrouted]
      rfl
    · rw [List.getElem?_modify_ne _ _ hk]
      exact h
  | call k' =>
    show (d.handovers.modify k' _)[k]? = _
    by_cases hk : k' = k
    · subst hk
      rw [getElem?_modify_self h, call_stageAfter, List.countP_singleton,
        if_pos (by simp [Move.calls])]
    · rw [List.getElem?_modify_ne _ _ hk, List.countP_singleton, if_neg (by simp [Move.calls, hk])]
      exact h

theorem run_stageAfter {d : Desk} {k : Nat} {e : Envelope} {hs : List Handler} {turns : Nat}
    (h : d.handovers[k]? = some ⟨e, stageAfter reads e hs turns⟩) (moves : List Move) :
    (d.run reads moves).handovers[k]? =
      some ⟨e, stageAfter reads e hs (turns + moves.countP (Move.calls k))⟩ := by
  induction moves generalizing d turns with
  | nil => exact h
  | cons m moves ih =>
    have hcount : (m :: moves).countP (Move.calls k) =
        [m].countP (Move.calls k) + moves.countP (Move.calls k) := by
      rw [← List.countP_append, List.singleton_append]
    rw [hcount, ← Nat.add_assoc]
    exact ih (step_stageAfter h m)

theorem begun_of_new {d : Desk} {x : ClockedNode.Event} {k : Nat} {t : Handover}
    (h : (d.step reads (.event x)).handovers[k]? = some t) (hnew : d.handovers[k]? = none) :
    k = d.handovers.length ∧ ∃ e, x = .act (.dispatch e) ∧
      t = ⟨e, .ofAdmission (d.node.admission d.now e)⟩ := by
  have hle := List.getElem?_eq_none_iff.mp hnew
  have hb : (d.handovers.mapIdx (Handover.settle x (d.toClockedNode.step x).2) ++
      d.begun x)[k]? = some t := h
  rw [List.getElem?_append_right (by rwa [List.length_mapIdx]), List.length_mapIdx] at hb
  unfold begun at hb
  split at hb
  · rename_i e
    obtain ⟨hlt, he⟩ := List.getElem?_eq_some_iff.mp hb
    rw [List.length_singleton] at hlt
    exact ⟨by omega, e, rfl, (List.mem_singleton.mp (List.mem_of_getElem? hb))⟩
  · cases hb

theorem isRouted_of_settle {t : Handover} {x : ClockedNode.Event} {outcomes : List Outcome}
    {k : Nat} (h : (t.settle x outcomes k).stage.IsRouted) : t.stage.IsRouted := by
  unfold Handover.settle at h
  split at h
  · dsimp only at h
    split at h
    · exact h.elim
    · exact h.elim
  · exact h

theorem isRouted_of_route {t : Handover} {hs : Handlers} (h : (t.route hs).stage.IsRouted) :
    t.stage.IsRouted ∨ t = ⟨t.message, .ready⟩ := by
  obtain ⟨e, st⟩ := t
  cases st with
  | waiting => exact h.elim
  | ready => exact .inr rfl
  | dropped => exact h.elim
  | calling left made => exact .inl trivial
  | finished answer made => exact .inl trivial

theorem isRouted_of_call {t : Handover} (h : (t.call reads).stage.IsRouted) :
    t.stage.IsRouted := by
  obtain ⟨e, st⟩ := t
  cases st with
  | calling left made => trivial
  | finished answer made => trivial
  | _ => exact h.elim

theorem step_isRouted {d : Desk} {m : Move} {k : Nat} {t : Handover}
    (h : (d.step reads m).handovers[k]? = some t) (hr : t.stage.IsRouted) :
    (∃ t', d.handovers[k]? = some t' ∧ t'.stage.IsRouted ∧ t'.message = t.message) ∨
      m = .route k ∧ d.handovers[k]? = some ⟨t.message, .ready⟩ := by
  cases m with
  | event x =>
    cases ht' : d.handovers[k]? with
    | some t' =>
      rw [getElem?_event ht' x] at h
      obtain rfl := Option.some.inj h
      exact .inl ⟨t', rfl, isRouted_of_settle hr, (message_settle t' x _ k).symm⟩
    | none =>
      obtain ⟨-, e, -, rfl⟩ := begun_of_new h ht'
      cases hs : d.node.admission d.now e with
      | _ =>
        rw [hs] at hr
        exact hr.elim
  | route k' =>
    have h : (d.handovers.modify k' (·.route d.node.handlers))[k]? = some t := h
    rw [List.getElem?_modify] at h
    obtain ⟨t', ht', rfl⟩ := Option.map_eq_some_iff.mp h
    by_cases hk : k' = k
    · rw [if_pos hk] at hr ⊢
      rw [message_route]
      obtain hr' | hready := isRouted_of_route hr
      · exact .inl ⟨t', ht', hr', rfl⟩
      · exact .inr ⟨congrArg Move.route hk, hready ▸ ht'⟩
    · rw [if_neg hk] at hr ⊢
      exact .inl ⟨t', ht', hr, rfl⟩
  | call k' =>
    have h : (d.handovers.modify k' (·.call reads))[k]? = some t := h
    rw [List.getElem?_modify] at h
    obtain ⟨t', ht', rfl⟩ := Option.map_eq_some_iff.mp h
    refine .inl ⟨t', ht', ?_⟩
    by_cases hk : k' = k
    · rw [if_pos hk] at hr ⊢
      exact ⟨isRouted_of_call hr, (message_call t').symm⟩
    · rw [if_neg hk] at hr ⊢
      exact ⟨hr, rfl⟩

theorem exists_route {d : Desk} {moves : List Move} {k : Nat} {t : Handover}
    (hd : d.handovers = []) (ht : (d.run reads moves).handovers[k]? = some t)
    (hr : t.stage.IsRouted) :
    ∃ front back, moves = front ++ .route k :: back ∧
      (d.run reads front).handovers[k]? = some ⟨t.message, .ready⟩ := by
  induction moves using List.reverseRecOn generalizing t with
  | nil =>
    rw [run, List.foldl_nil, hd] at ht
    cases ht
  | append_singleton moves m ih =>
    rw [run_concat] at ht
    obtain ⟨t', ht', hr', hm⟩ | ⟨rfl, hready⟩ := step_isRouted ht hr
    · obtain ⟨front, back, rfl, hready⟩ := ih ht' hr'
      exact ⟨front, back ++ [m], by simp, hm ▸ hready⟩
    · exact ⟨moves, [], rfl, hready⟩

/-- The message waits at the gate as `ws` tells, which is the case only if its stage says so. -/
structure Tallies (c : ClockedNode) (k : Nat) (t : Handover) (ws : List (Waiter Held)) : Prop
    extends c.Awaits k t.message.sender ws where
  single : ws = [] ∨ ∃ deadline, ws = [⟨⟨k, t.message⟩, deadline⟩]
  idle : t.stage ≠ .waiting → ws = []

section Tallies

variable {c : ClockedNode} {k : Nat} {t : Handover} {ws : List (Waiter Held)}

theorem Tallies.change (h : Tallies c k t ws) {t' : Handover} (hm : t'.message = t.message)
    (hw : t.stage = .waiting → t'.stage = .waiting) : Tallies c k t' ws := by
  refine ⟨hm ▸ h.toAwaits, hm ▸ h.single, fun hs => h.idle (mt hw hs)⟩

/-- What comes of a message that waits: an identity of its sender lets it through, or its time is
over. -/
theorem Tallies.outcome (h : Tallies c k t ws) {x : ClockedNode.Event} {o : Outcome}
    (ho : o ∈ (c.step x).2) (hk : o.ticket = k) : ∃ deadline,
      ws = [⟨⟨k, t.message⟩, deadline⟩] ∧
        if (PeerTable.latest (c.toldBy x) t.message.sender).isSome then
          o = (c.step x).1.node.resume ⟨k, t.message⟩
        else
          (⟨⟨k, t.message⟩, deadline⟩ : Waiter Held).isExpired (c.step x).1.now := by
  obtain ⟨hf, -⟩ := h.toAwaits.step x
  have hmem : o ∈ (c.step x).2.filter fun o => o.ticket = k :=
    List.mem_filter.mpr ⟨ho, decide_eq_true hk⟩
  rw [hf] at hmem
  obtain rfl | ⟨deadline, rfl⟩ := h.single
  · simp at hmem
  · refine ⟨deadline, rfl, ?_⟩
    split at hmem
    · rename_i hnews
      rw [if_pos hnews]
      exact List.mem_singleton.mp hmem
    · rename_i hnews
      obtain ⟨w, hw, -⟩ := List.mem_map.mp hmem
      obtain ⟨hw, hexpired⟩ := List.mem_filter.mp hw
      rw [if_neg hnews, ← List.mem_singleton.mp hw]
      exact hexpired

theorem Tallies.outcome_eq (h : Tallies c k t ws) {x : ClockedNode.Event} (hx : ¬ x.expires)
    {o : Outcome} (ho : o ∈ (c.step x).2) (hk : o.ticket = k) :
    o = (c.step x).1.node.resume ⟨k, t.message⟩ := by
  obtain ⟨deadline, rfl, hcause⟩ := h.outcome ho hk
  split at hcause
  · exact hcause
  · have hnow : (c.step x).1.now = c.now := by
      rw [ClockedNode.now_step]
      cases x with
      | pass ms => exact absurd rfl hx
      | act e => rfl
    rw [hnow] at hcause
    exact absurd hcause (h.live _ List.mem_cons_self)

theorem Tallies.step (h : Tallies c k t ws) (x : ClockedNode.Event) :
    ∃ ws', Tallies (c.step x).1 k (t.settle x (c.step x).2 k) ws' := by
  have hm := message_settle t x (c.step x).2 k
  obtain ⟨-, hw⟩ := h.toAwaits.step x
  refine ⟨if (PeerTable.latest (c.toldBy x) t.message.sender).isSome then []
    else ws.filter fun w => ¬ w.isExpired (c.step x).1.now, hm.symm ▸ hw, ?_, fun hs => ?_⟩
  · rw [hm]
    obtain rfl | ⟨deadline, rfl⟩ := h.single
    · exact .inl (ite_self [])
    · split
      · exact .inl rfl
      · rw [List.filter_cons, List.filter_nil]
        split
        · exact .inr ⟨deadline, rfl⟩
        · exact .inl rfl
  · by_cases hnews : (PeerTable.latest (c.toldBy x) t.message.sender).isSome
    · exact if_pos hnews
    by_cases hcome : t.stage = .waiting ∧ ∃ o ∈ (c.step x).2, o.ticket = k
    · obtain ⟨-, o, ho, hk⟩ := hcome
      obtain ⟨deadline, rfl, hexpired⟩ := h.outcome ho hk
      rw [if_neg hnews] at hexpired ⊢
      exact List.filter_cons_of_neg (by simpa using hexpired)
    · have hsame : t.settle x (c.step x).2 k = t := if_neg hcome
      rw [h.idle (hsame ▸ hs)]
      exact ite_self []

theorem tallies_begun {told : List Identity} (h : c.node.Knows told k) (e : Envelope) :
    ∃ ws, Tallies (c.step (.act (.dispatch e))).1 k
      ⟨e, .ofAdmission (c.node.admission c.now e)⟩ ws := by
  have hwaiter : c.waiter e = ⟨⟨k, e⟩, some (c.now + c.node.discoveryTimeout)⟩ := by
    rw [← h.ticket]
    rfl
  refine ⟨_, ClockedNode.awaits_dispatch h e, ?_, fun hs => ?_⟩
  · split
    · exact .inr ⟨_, congrArg (fun w => [w]) hwaiter⟩
    · exact .inl rfl
  · refine if_neg fun hwaits => hs ?_
    have hheld : c.node.admission c.now e = .held := by
      rw [Node.admission_eq_held_iff, h.identity]
      exact Node.decision_eq_none_iff.mpr hwaits
    rw [hheld]
    rfl

end Tallies

section Course

variable {d : Desk} {moves : List Move} {k : Nat} {t : Handover} {e : Envelope}

theorem knows_run (hn : d.node.IsNew) (moves : List Move) :
    (d.run reads moves).node.Knows (d.toClockedNode.told (events moves))
      (ClockedNode.dispatched (events moves)) := by
  have h := ClockedNode.after_knows (c := d.toClockedNode) hn (events moves)
  rwa [← toClockedNode_run reads] at h

theorem length_handovers_run (hd : d.handovers = []) (moves : List Move) :
    (d.run reads moves).handovers.length = ClockedNode.dispatched (events moves) := by
  have h := congrArg List.length (messages_run reads d moves)
  rw [hd, List.map_nil, List.nil_append, List.length_map] at h
  exact h.trans (ClockedNode.length_messages _)

theorem tallies_run (hn : d.node.IsNew) (hd : d.handovers = [])
    (ht : (d.run reads moves).handovers[k]? = some t) :
    ∃ ws, Tallies (d.run reads moves).toClockedNode k t ws := by
  induction moves using List.reverseRecOn generalizing t with
  | nil =>
    rw [run, List.foldl_nil, hd] at ht
    cases ht
  | append_singleton moves m ih =>
    rw [run_concat] at ht ⊢
    -- Turns of handovers do nothing to those who wait at the gate.
    have hmodify {k' : Nat} {f : Handover → Handover}
        (h : ((d.run reads moves).handovers.modify k' f)[k]? = some t)
        (hm : ∀ t, (f t).message = t.message)
        (hw : ∀ t : Handover, t.stage = .waiting → (f t).stage = .waiting) :
        ∃ ws, Tallies (d.run reads moves).toClockedNode k t ws := by
      rw [List.getElem?_modify] at h
      obtain ⟨t', ht', rfl⟩ := Option.map_eq_some_iff.mp h
      obtain ⟨ws, hws⟩ := ih ht'
      refine ⟨ws, ?_⟩
      by_cases hk : k' = k
      · rw [if_pos hk]
        exact hws.change (hm t') (hw t')
      · rw [if_neg hk]
        exact hws
    cases m with
    | event x =>
      cases ht' : (d.run reads moves).handovers[k]? with
      | some t' =>
        obtain rfl := Option.some.inj ((getElem?_event ht' x).symm.trans ht)
        obtain ⟨ws, hws⟩ := ih ht'
        exact hws.step x
      | none =>
        obtain ⟨hk, e, rfl, rfl⟩ := begun_of_new ht ht'
        rw [length_handovers_run hd] at hk
        subst hk
        exact tallies_begun (knows_run hn moves) e
    | route k' =>
      refine hmodify ht (message_route · _) fun t hs => ?_
      unfold Handover.route
      rw [hs]
      exact hs
    | call k' =>
      refine hmodify ht message_call fun t hs => ?_
      unfold Handover.call
      rw [hs]
      exact hs

theorem outcome_of_ready (hn : d.node.IsNew) (hd : d.handovers = []) {x : ClockedNode.Event}
    (hbefore : (d.run reads moves).handovers[k]? ≠ some ⟨e, .ready⟩)
    (hafter : ((d.run reads moves).step reads (.event x)).handovers[k]? = some ⟨e, .ready⟩) :
    ∃ o ∈ ((d.run reads moves).toClockedNode.step x).2, o.ticket = k := by
  cases ht : (d.run reads moves).handovers[k]? with
  | some t =>
    have hsettle := Option.some.inj ((getElem?_event ht x).symm.trans hafter)
    by_contra hnone
    have hsame : t.settle x ((d.run reads moves).toClockedNode.step x).2 k = t :=
      if_neg fun h => hnone h.2
    exact hbefore (ht.trans (congrArg some (hsame.symm.trans hsettle)))
  | none =>
    obtain ⟨hk, e', rfl, heq⟩ := begun_of_new hafter ht
    obtain ⟨rfl, hstage⟩ := Handover.mk.inj heq
    have hadmitted : (d.run reads moves).node.admission (d.run reads moves).now e = .admitted := by
      cases hs : (d.run reads moves).node.admission (d.run reads moves).now e with
      | admitted => rfl
      | refused => cases hstage.trans (congrArg Stage.ofAdmission hs)
      | held => cases hstage.trans (congrArg Stage.ofAdmission hs)
    rw [hk, length_handovers_run hd, ← (knows_run hn moves).ticket]
    refine ⟨((d.run reads moves).node.dispatch (d.run reads moves).now e).1.resume
      ⟨(d.run reads moves).node.nextTicket, e⟩, ?_, rfl⟩
    show _ ∈ ((d.run reads moves).node.dispatch (d.run reads moves).now e).2.toList
    rw [Node.dispatch_snd, hadmitted]
    exact List.mem_singleton.mpr rfl

theorem getElem?_begun (d : Desk) (e : Envelope) :
    (d.step reads (.event (.act (.dispatch e)))).handovers[d.handovers.length]? =
      some ⟨e, .ofAdmission (d.node.admission d.now e)⟩ := by
  show (_ ++ [_])[d.handovers.length]? = _
  rw [List.getElem?_append_right (by rw [List.length_mapIdx]), List.length_mapIdx, Nat.sub_self]
  rfl

theorem dispatch_of_new (hn : d.node.IsNew) (hd : d.handovers = []) {x : ClockedNode.Event}
    {o : Outcome} (ho : o ∈ ((d.run reads moves).toClockedNode.step x).2)
    (hnew : (d.run reads moves).handovers[o.ticket]? = none) :
    ∃ e, x = .act (.dispatch e) ∧ o.ticket = (d.run reads moves).handovers.length := by
  have hlt := ClockedNode.ticket_lt_of_step (knows_run hn moves) ho
  have hle := List.getElem?_eq_none_iff.mp hnew
  rw [length_handovers_run hd] at hle ⊢
  have hnone (h : ClockedNode.dispatched [x] = 0) : False := by
    rw [h] at hlt
    exact Nat.not_lt.mpr hle hlt
  cases x with
  | pass ms => exact (hnone rfl).elim
  | act e =>
    obtain he | ⟨m, rfl⟩ | rfl := e.tells_or
    · exact (hnone (ClockedNode.Event.dispatched_of_tells he)).elim
    · exact ⟨m, rfl, Nat.le_antisymm (Nat.le_of_lt_succ hlt) hle⟩
    · exact (hnone rfl).elim

theorem stage_of_outcome (hn : d.node.IsNew) (hd : d.handovers = []) {x : ClockedNode.Event}
    {o : Outcome} (ho : o ∈ ((d.run reads moves).toClockedNode.step x).2) :
    let d' := (d.run reads moves).step reads (.event x)
    ∃ e, d'.handovers[o.ticket]? = some ⟨e, .ready⟩ ∧ o = d'.node.resume ⟨o.ticket, e⟩ ∨
      d'.handovers[o.ticket]? = some ⟨e, .dropped⟩ ∧ o.calls = none := by
  intro d'
  cases ht : (d.run reads moves).handovers[o.ticket]? with
  | some t =>
    obtain ⟨ws, hws⟩ := tallies_run hn hd ht
    obtain ⟨deadline, hone, -⟩ := hws.outcome ho rfl
    have hwaiting : t.stage = .waiting := by
      by_contra hs
      cases hone.symm.trans (hws.idle hs)
    have hset : d'.handovers[o.ticket]? =
        some ⟨t.message, if x.expires then .dropped else .ready⟩ :=
      (getElem?_event ht x).trans (congrArg some (if_pos ⟨hwaiting, o, ho, rfl⟩))
    refine ⟨t.message, ?_⟩
    by_cases hx : x.expires
    · rw [if_pos hx] at hset
      exact .inr ⟨hset, ClockedNode.calls_of_expires hx ho⟩
    · rw [if_neg hx] at hset
      exact .inl ⟨hset, hws.outcome_eq hx ho rfl⟩
  | none =>
    -- The message is dispatched by this event, and admitted or refused at once.
    obtain ⟨e, rfl, hticket⟩ := dispatch_of_new hn hd ho ht
    have hnew : d'.handovers[o.ticket]? =
        some ⟨e, .ofAdmission ((d.run reads moves).node.admission (d.run reads moves).now e)⟩ := by
      rw [hticket]
      exact getElem?_begun (d.run reads moves) e
    have ho : o ∈ ((d.run reads moves).node.dispatch (d.run reads moves).now e).2.toList := ho
    have hnext : (d.run reads moves).node.nextTicket = o.ticket := by
      rw [hticket, length_handovers_run hd]
      exact (knows_run hn moves).ticket
    rw [Node.dispatch_snd, hnext] at ho
    refine ⟨e, ?_⟩
    cases hs : (d.run reads moves).node.admission (d.run reads moves).now e with
    | admitted =>
      rw [hs] at ho hnew
      exact .inl ⟨hnew, List.mem_singleton.mp ho⟩
    | refused =>
      rw [hs] at ho hnew
      exact .inr ⟨hnew, congrArg Outcome.calls (List.mem_singleton.mp ho)⟩
    | held =>
      rw [hs] at ho
      cases ho

theorem hasFor_run (hh : d.node.handlers = .none) (moves : List Move) (id : MessageTypeId) :
    (d.run reads moves).node.handlers.HasFor id (registeredFor (events moves) id) := by
  rw [toClockedNode_run]
  exact ClockedNode.hasFor_after hh (events moves) id

/-- A message that looks up its handlers, and has its turns after that. -/
theorem handed_run (hh : d.node.handlers = .none)
    (hready : (d.run reads moves).handovers[k]? = some ⟨e, .ready⟩) (later : List Move) :
    (d.run reads (moves ++ .route k :: later)).handovers[k]? =
      some ⟨e, stageAfter reads e (registeredFor (events moves) e.body.typeId)
        (later.countP (Move.calls k))⟩ := by
  have hroute : ((d.run reads moves).step reads (.route k)).handovers[k]? =
      some ⟨e, stageAfter reads e (registeredFor (events moves) e.body.typeId) 0⟩ := by
    rw [← route_ready (hasFor_run hh moves e.body.typeId)]
    exact getElem?_modify_self hready _
  have hrun := run_stageAfter hroute later
  rw [Nat.zero_add] at hrun
  rw [run_append]
  exact hrun

theorem message_run (hd : d.handovers = [])
    (ht : (d.run reads moves).handovers[k]? = some t) :
    (messages (events moves))[k]? = some t.message := by
  have hmessages := messages_run reads d moves
  rw [hd, List.map_nil, List.nil_append] at hmessages
  rw [← hmessages, List.getElem?_map, ht]
  rfl

theorem handlers_deregister (d : Desk) (kind : MessageKind) :
    (d.step reads (.event (.act (.deregister kind)))).node.handlers =
      (d.node.handlers.deregister kind).1 :=
  d.node.handlers_step d.now (.deregister kind)

end Course

/-- A message is handed to those that are registered for its type when it looks them up, in the
order of their registrations, whoever comes or goes after that; one that cannot read it is skipped.
This is what the node does with a message in the moment in which it passes the gate. Nothing is
handed over otherwise, and to remove the handlers for a type changes nothing for others. -/
theorem handed_to_registered {s : NodeSetup} {start : Nat} {n : Node}
    (hstart : Node.start s start = .ok n) (reads : Handler → Body → Except BodyError Content)
    (moves : List Move) :
    let d₀ : Desk := { node := n, now := start }
    (∀ front k back, moves = front ++ .route k :: back → ∀ e,
      (d₀.run reads front).handovers[k]? = some ⟨e, .ready⟩ →
      let hs := registeredFor (events front) e.body.typeId
      let turns := back.countP (Move.calls k)
      (messages (events front))[k]? = some e ∧
      (d₀.run reads moves).handovers[k]? = some ⟨e,
        if hs = [] then .finished false []
        else if turns ≤ hs.length then
          .calling (hs.drop turns) (Handed.all reads e (hs.take turns))
        else .finished true (Handed.all reads e hs)⟩) ∧
    (∀ k t, (d₀.run reads moves).handovers[k]? = some t → t.stage.IsRouted →
      ∃ front back, moves = front ++ .route k :: back ∧
        (d₀.run reads front).handovers[k]? = some ⟨t.message, .ready⟩) ∧
    (∀ front x back, moves = front ++ .event x :: back →
      let outcomes := ((d₀.run reads front).toClockedNode.step x).2
      let handovers := (d₀.run reads (front ++ [.event x])).handovers
      (∀ k e, (d₀.run reads front).handovers[k]? ≠ some ⟨e, .ready⟩ →
        handovers[k]? = some ⟨e, .ready⟩ → ∃ o ∈ outcomes, o.ticket = k) ∧
      ∀ o ∈ outcomes, ∃ e,
        let hs := registeredFor (events (front ++ [.event x])) e.body.typeId
        (handovers[o.ticket]? = some ⟨e, .ready⟩ ∧
          o.calls.map (List.map HandlerCall.handed) =
            if hs = [] then none else some (Handed.all Handler.read e hs)) ∨
        handovers[o.ticket]? = some ⟨e, .dropped⟩ ∧ o.calls = none) ∧
    ∀ front kind back, moves = front ++ .event (.act (.deregister kind)) :: back →
      let hs := (d₀.run reads front).node.handlers
      let hs' := (d₀.run reads (front ++ [.event (.act (.deregister kind))])).node.handlers
      (hs.deregister kind).2 = (registeredFor (events front) kind.typeId).length ∧
      hs'.byType.get? kind.typeId = none ∧
      ∀ id ≠ kind.typeId, hs'.byType.get? id = hs.byType.get? id := by
  intro d₀
  have hn : d₀.node.IsNew := Node.isNew_of_start hstart
  have hh : d₀.node.handlers = .none := Node.handlers_of_start hstart
  refine ⟨?_, fun k t ht hr => exists_route rfl ht hr, ?_, ?_⟩
  · rintro front k back rfl e hready hs turns
    exact ⟨message_run rfl hready, handed_run hh hready back⟩
  · rintro front x back rfl outcomes handovers
    have hconcat : d₀.run reads (front ++ [.event x]) =
        (d₀.run reads front).step reads (.event x) := run_concat d₀ front _
    refine ⟨fun k e hbefore hafter => ?_, fun o ho => ?_⟩
    · exact outcome_of_ready hn rfl hbefore (hconcat ▸ hafter)
    · obtain ⟨e, ⟨hready, hresume⟩ | hdropped⟩ := stage_of_outcome hn rfl ho
      · rw [← hconcat] at hready hresume
        refine ⟨e, .inl ⟨hready, ?_⟩⟩
        rw [hresume]
        exact (hasFor_run hh (front ++ [.event x]) e.body.typeId).route _
      · rw [← hconcat] at hdropped
        exact ⟨e, .inr hdropped⟩
  · rintro front kind back rfl hs hs'
    have hgone : hs' = (hs.deregister kind).1 := by
      show (d₀.run reads (front ++ [_])).node.handlers = _
      rw [run_concat, handlers_deregister]
    have hget (id : MessageTypeId) := hs.byType.get?_erase kind.typeId id
    rw [hgone]
    exact ⟨congrArg List.length (hasFor_run hh front kind.typeId).getD,
      (hget kind.typeId).trans (if_pos rfl), fun id hid => (hget id).trans (if_neg hid)⟩

def readsUnlessBroken (h : Handler) (b : Body) : Except BodyError Content :=
  if h.name = "broken" then .error (.malformed .varintUnderflow) else h.read b

theorem handed_to_registered_laterHandlers :
    let d₀ : Desk := { node := .first, now := 0 }
    let text (name : String) : Move := .event (.act (.register ⟨name, .numberedText⟩))
    let clear : Move := .event (.act (.deregister .numberedText))
    let e : Envelope := ⟨⟨2⟩, ⟨1⟩, .of (⟨7, "hello"⟩ : NumberedText)⟩
    let early := [text "early", .event (.act (.dispatch e))]
    let before := early ++ [clear, text "broken", text "keen"]
    let front := before ++ [.event (.act .secondAnnounced)]
    let moves := front ++ .route 0 :: [.call 0, clear, text "late", .call 0, .call 0]
    let d := d₀.run readsUnlessBroken
    Node.start .first 0 = .ok .first ∧
    (d front).handovers[0]? = some ⟨e, .ready⟩ ∧
    (d moves).handovers[0]? =
      some ⟨e, .finished true [⟨⟨"keen", .numberedText⟩, .numberedText ⟨7, "hello"⟩, ⟨2⟩, ⟨1⟩⟩]⟩ ∧
    (∃ calls, ⟨0, some calls⟩ ∈ ((d before).toClockedNode.step (.act .secondAnnounced)).2 ∧
      calls.map HandlerCall.handler = [⟨"broken", .numberedText⟩, ⟨"keen", .numberedText⟩]) ∧
    ((d early).node.handlers.deregister .numberedText).2 = 1 := by
  intro d₀ text clear e early before front moves d
  obtain ⟨hroute, -, hevent, hclear⟩ :=
    handed_to_registered Node.start_first readsUnlessBroken moves
  have hready : (d front).handovers[0]? = some ⟨e, .ready⟩ := by decide +kernel
  obtain ⟨-, hover⟩ := hroute front 0 _ rfl e hready
  obtain ⟨hremoved, -⟩ := hclear early .numberedText _ rfl
  have hbefore : (d before).handovers[0]? ≠ some ⟨e, .ready⟩ := by decide +kernel
  obtain ⟨hsome, houtcomes⟩ := hevent before (.act .secondAnnounced) _ rfl
  obtain ⟨⟨_, calls⟩, hcalls, rfl⟩ := hsome 0 e hbefore hready
  obtain ⟨e', ⟨hready', hhanded⟩ | ⟨hdropped, -⟩⟩ := houtcomes _ hcalls
  swap
  · cases hdropped.symm.trans hready
  obtain rfl : e' = e := congrArg Handover.message (Option.some.inj (hready'.symm.trans hready))
  have hregistered : registeredFor (events front) e.body.typeId =
      [⟨"broken", .numberedText⟩, ⟨"keen", .numberedText⟩] := by decide +kernel
  rw [hregistered, if_neg (List.cons_ne_nil _ _)] at hhanded
  obtain ⟨cs, rfl, hcs⟩ := Option.map_eq_some_iff.mp hhanded
  have hhandlers : cs.map HandlerCall.handler = (cs.map HandlerCall.handed).map Handed.handler := by
    rw [List.map_map]
    rfl
  refine ⟨Node.start_first, hready, hover.trans (by decide +kernel), ⟨cs, hcalls, ?_⟩,
    hremoved.trans (by decide +kernel)⟩
  rw [hhandlers, hcs]
  decide +kernel

end Desk

end PeerMesh

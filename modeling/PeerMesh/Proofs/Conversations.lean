import PeerMesh.Proofs.Streams
import PeerMesh.Proofs.Wiring

namespace PeerMesh

namespace Frame

/-- The peer that frames introduce to the node `self`: the first frame is its handshake. -/
def introduced (self : PeerId) : List Frame → Option PeerId
  | .payload (.handshake i) :: _ => if i.id = self ∨ i.id.isNil then none else some i.id
  | _ => none

theorem introduced_eq_none {f : Frame} (h : ∀ i, f ≠ .payload (.handshake i)) (self : PeerId)
    (fs : List Frame) : introduced self (f :: fs) = none := by
  unfold introduced
  split
  · rename_i heq
    cases heq
    exact absurd rfl (h _)
  · rfl

def Contradicts (peer : PeerId) : Frame → Prop
  | .payload (.handshake i) => i.id ≠ peer
  | _ => False

instance (peer : PeerId) (f : Frame) : Decidable (f.Contradicts peer) :=
  match f with
  | .payload (.handshake _) => inferInstanceAs (Decidable (_ ≠ _))
  | .payload (.announcement _) | .payload (.message _) | .payload (.packet _)
  | .payload (.acknowledgement _) | .malformed _ => inferInstanceAs (Decidable False)

theorem not_contradicts {f : Frame} (h : ∀ i, f ≠ .payload (.handshake i)) (peer : PeerId) :
    ¬ f.Contradicts peer := by
  unfold Contradicts
  split
  · exact absurd rfl (h _)
  · exact id

def messageOf? (peer : PeerId) : Frame → Option Envelope
  | .payload (.message e) => if e.sender = peer then some e else none
  | _ => none

theorem messageOf?_of_contradicts {peer : PeerId} {f : Frame} (h : f.Contradicts peer) :
    f.messageOf? peer = none := by
  unfold Contradicts at h
  split at h
  · rfl
  · exact h.elim

def messages (self : PeerId) (fs : List Frame) : List Envelope :=
  match introduced self fs with
  | none => []
  | some peer => (fs.takeWhile fun f => ¬ f.Contradicts peer).filterMap (messageOf? peer)

theorem sender_of_messageOf? {peer : PeerId} {f : Frame} {e : Envelope}
    (h : f.messageOf? peer = some e) : e.sender = peer := by
  unfold messageOf? at h
  split at h
  · split at h
    · cases h
      assumption
    · cases h
  · cases h

theorem introduced_of_mem_messages {self : PeerId} {fs : List Frame} {e : Envelope}
    (h : e ∈ messages self fs) : introduced self fs = some e.sender := by
  unfold messages at h
  cases hp : introduced self fs with
  | none =>
    rw [hp] at h
    cases h
  | some peer =>
    rw [hp] at h
    obtain ⟨f, -, hf⟩ := List.mem_filterMap.mp h
    rw [sender_of_messageOf? hf]

theorem introduced_append {self peer : PeerId} {fs : List Frame}
    (h : introduced self fs = some peer) (fs' : List Frame) :
    introduced self (fs ++ fs') = some peer := by
  unfold introduced at h
  split at h
  · exact h
  · cases h

/-- There are frames, and they introduce no peer or one that a later frame contradicts. -/
def IsBroken (self : PeerId) (fs : List Frame) : Prop :=
  fs ≠ [] ∧ ∀ peer, introduced self fs = some peer → ∃ f ∈ fs, f.Contradicts peer

end Frame

namespace ConnectionStage

variable {self : PeerId}

/-- The stage after a frame, unless the connection ends with the frame. -/
def next? (self : PeerId) : ConnectionStage → Frame → Option ConnectionStage
  | .opened _, .payload (.handshake i) =>
    if i.id = self ∨ i.id.isNil then none else some (.established i.id)
  | .opened _, _ => none
  | .established peer, f => if f.Contradicts peer then none else some (.established peer)

theorem next?_opened {f : Frame} (h : ∀ i, f ≠ .payload (.handshake i)) (self : PeerId)
    (deadline : Nat) : next? self (.opened deadline) f = none := by
  unfold next?
  split
  · exact absurd rfl (h _)
  · rfl
  · rename_i hs
    cases hs

def after? (self : PeerId) (s : ConnectionStage) : List Frame → Option ConnectionStage
  | [] => some s
  | f :: fs => (s.next? self f).bind (after? self · fs)

def message? : ConnectionStage → Frame → Option Envelope
  | .opened _, _ => none
  | .established peer, f => f.messageOf? peer

/-- The messages that frames bring, until the connection ends. -/
def brought (self : PeerId) (s : ConnectionStage) : List Frame → List Envelope
  | [] => []
  | f :: fs => (s.message? f).toList ++ ((s.next? self f).map (brought self · fs)).getD []

theorem after?_append (self : PeerId) (s : ConnectionStage) (fs fs' : List Frame) :
    s.after? self (fs ++ fs') = (s.after? self fs).bind (after? self · fs') := by
  induction fs generalizing s with
  | nil => rfl
  | cons f fs ih =>
    rw [List.cons_append, after?, after?]
    cases s.next? self f with
    | none => rfl
    | some s' => exact ih s'

theorem brought_append (self : PeerId) (s : ConnectionStage) (fs fs' : List Frame) :
    s.brought self (fs ++ fs') =
      s.brought self fs ++ ((s.after? self fs).map (brought self · fs')).getD [] := by
  induction fs generalizing s with
  | nil => rfl
  | cons f fs ih =>
    rw [List.cons_append, brought, brought, after?, List.append_assoc]
    cases s.next? self f with
    | none => rfl
    | some s' => exact congrArg _ (ih s')

theorem after?_singleton (self : PeerId) (s : ConnectionStage) (f : Frame) :
    s.after? self [f] = s.next? self f := by
  rw [after?]
  cases s.next? self f with
  | none => rfl
  | some s' => rfl

theorem brought_singleton (self : PeerId) (s : ConnectionStage) (f : Frame) :
    s.brought self [f] = (s.message? f).toList := by
  rw [brought]
  cases s.next? self f with
  | none => exact List.append_nil _
  | some s' => exact List.append_nil _

theorem told_append (self : PeerId) (s : ConnectionStage) (fs fs' : List Frame) :
    s.told self (fs ++ fs') =
      s.told self fs ++ ((s.after? self fs).map (told self · fs')).getD [] := by
  fun_induction told self s fs with
  | case1 s => rfl
  | case2 deadline i fs h =>
    rw [List.cons_append, told, if_pos h, after?, next?, if_pos h]
    rfl
  | case3 deadline i fs h ih =>
    rw [List.cons_append, told, if_neg h, after?, next?, if_neg h, ih]
    rfl
  | case4 deadline f fs h =>
    rw [List.cons_append, told, after?, next?_opened h]
    · rfl
    · exact h
  | case5 i fs ih =>
    have hc : ¬ Frame.Contradicts i.id (.payload (.handshake i)) := fun hc => hc rfl
    rw [List.cons_append, told, if_pos rfl, after?, next?, if_neg hc, ih]
    rfl
  | case6 peer i fs h =>
    have hc : Frame.Contradicts peer (.payload (.handshake i)) := h
    rw [List.cons_append, told, if_neg h, after?, next?, if_pos hc]
    rfl
  | case7 peer f fs h ih =>
    rw [List.cons_append, told, after?, next?, if_neg (Frame.not_contradicts h peer), ih]
    · rfl
    · exact h

theorem exists_prefix_append {fs fs' : List Frame} {P : List Frame → Prop} :
    (∃ l, l <+: fs ++ fs' ∧ P l) ↔ (∃ l, l <+: fs ∧ P l) ∨ ∃ l, l <+: fs' ∧ P (fs ++ l) := by
  constructor
  · rintro ⟨l, ⟨r, hl⟩, hP⟩
    obtain ⟨m, rfl, -⟩ | ⟨m, rfl, hm⟩ := List.append_eq_append_iff.mp hl
    · exact .inl ⟨l, List.prefix_append l m, hP⟩
    · exact .inr ⟨m, ⟨r, hm.symm⟩, hP⟩
  · rintro (⟨l, hl, hP⟩ | ⟨l, hl, hP⟩)
    · exact ⟨l, hl.trans (List.prefix_append fs fs'), hP⟩
    · exact ⟨fs ++ l, (List.prefix_append_right_inj fs).mpr hl, hP⟩

theorem append_of_over {s : ConnectionStage} {fs : List Frame} (fs' : List Frame)
    (h : fs' = [] ∨ s.after? self fs = none) :
    s.after? self (fs ++ fs') = s.after? self fs ∧ s.brought self (fs ++ fs') = s.brought self fs ∧
      s.told self (fs ++ fs') = s.told self fs ∧
      ∀ s', (∃ l, l <+: fs ++ fs' ∧ s.after? self l = some s') ↔
        ∃ l, l <+: fs ∧ s.after? self l = some s' := by
  obtain rfl | h := h
  · rw [List.append_nil]
    exact ⟨rfl, rfl, rfl, fun _ => .rfl⟩
  · rw [after?_append, brought_append, told_append, h]
    refine ⟨rfl, List.append_nil _, List.append_nil _, fun s' => ?_⟩
    simp only [exists_prefix_append, after?_append, h, Option.bind_none, reduceCtorEq, and_false,
      exists_false, or_false]

theorem after?_established (self peer : PeerId) (fs : List Frame) :
    (established peer).after? self fs =
      if ∃ f ∈ fs, f.Contradicts peer then none else some (.established peer) := by
  induction fs with
  | nil => exact (if_neg fun ⟨_, hf, _⟩ => nomatch hf).symm
  | cons f fs ih =>
    rw [after?, next?]
    simp only [List.mem_cons, exists_eq_or_imp]
    by_cases hf : f.Contradicts peer
    · rw [if_pos hf, if_pos (.inl hf)]
      rfl
    · rw [if_neg hf, Option.bind_some, ih]
      simp only [hf, false_or]

theorem brought_established (self peer : PeerId) (fs : List Frame) :
    (established peer).brought self fs =
      (fs.takeWhile fun f => ¬ f.Contradicts peer).filterMap (Frame.messageOf? peer) := by
  induction fs with
  | nil => rfl
  | cons f fs ih =>
    rw [brought, next?, List.takeWhile_cons]
    by_cases hf : f.Contradicts peer
    · rw [if_pos hf, message?, Frame.messageOf?_of_contradicts hf, decide_eq_false (not_not.mpr hf)]
      rfl
    · rw [if_neg hf, message?, Option.map_some, ih]
      simp only [hf, not_false_eq_true, decide_true, if_true, List.filterMap_cons]
      cases f.messageOf? peer with
      | none => rfl
      | some e => rfl

theorem told_established {self peer : PeerId} {fs : List Frame} {i : Identity}
    (h : i ∈ (established peer).told self fs) : i.id = peer := by
  induction fs with
  | nil => cases h
  | cons f fs ih =>
    by_cases hf : ∃ j, f = .payload (.handshake j)
    · obtain ⟨j, rfl⟩ := hf
      rw [told] at h
      split at h
      · obtain rfl | h := List.mem_cons.mp h
        · assumption
        · exact ih h
      · cases h
    · rw [told] at h
      · exact ih h
      · exact fun j hj => hf ⟨j, hj⟩

theorem next?_opened_eq (self : PeerId) (deadline : Nat) (f : Frame) (fs : List Frame) :
    next? self (.opened deadline) f = (Frame.introduced self (f :: fs)).map .established := by
  by_cases hf : ∃ i, f = .payload (.handshake i)
  · obtain ⟨i, rfl⟩ := hf
    rw [next?, Frame.introduced]
    split
    · rfl
    · rfl
  · have hno (i : Identity) (hi : f = .payload (.handshake i)) : False := hf ⟨i, hi⟩
    rw [next?_opened hno, Frame.introduced_eq_none hno]
    rfl

theorem opened_cons {f : Frame} {fs : List Frame} {peer : PeerId}
    (h : Frame.introduced self (f :: fs) = some peer) :
    ¬ f.Contradicts peer ∧ f.messageOf? peer = none := by
  by_cases hf : ∃ i, f = .payload (.handshake i)
  · obtain ⟨i, rfl⟩ := hf
    rw [Frame.introduced] at h
    split at h
    · cases h
    · cases h
      exact ⟨fun hc => hc rfl, rfl⟩
  · rw [Frame.introduced_eq_none fun i hi => hf ⟨i, hi⟩] at h
    cases h

theorem after?_opened {fs : List Frame} {peer : PeerId} (h : Frame.introduced self fs = some peer)
    (deadline : Nat) :
    (opened deadline).after? self fs = (established peer).after? self fs ∧
      (opened deadline).brought self fs = (established peer).brought self fs := by
  cases fs with
  | nil => cases h
  | cons f fs =>
    obtain ⟨hc, hm⟩ := opened_cons h
    have hnext : next? self (.opened deadline) f = next? self (.established peer) f := by
      rw [next?_opened_eq self deadline f fs, h, next?, if_neg hc]
      rfl
    rw [after?, after?, brought, brought, hnext, message?, message?, hm]
    exact ⟨rfl, rfl⟩

theorem after?_opened_eq_none (self : PeerId) (deadline : Nat) (fs : List Frame) :
    (opened deadline).after? self fs = none ↔ Frame.IsBroken self fs := by
  cases fs with
  | nil => exact ⟨nofun, fun h => absurd rfl h.1⟩
  | cons f fs =>
    cases h : Frame.introduced self (f :: fs) with
    | none =>
      rw [after?, next?_opened_eq self deadline f fs, h]
      refine ⟨fun _ => ⟨nofun, fun peer hp => ?_⟩, fun _ => rfl⟩
      cases h.symm.trans hp
    | some peer =>
      rw [(after?_opened h deadline).1, after?_established]
      constructor
      · intro hnone
        refine ⟨nofun, fun peer' hp => ?_⟩
        cases h.symm.trans hp
        by_contra hf
        rw [if_neg hf] at hnone
        cases hnone
      · exact fun hb => if_pos (hb.2 peer h)

theorem after?_opened_eq_some (self peer : PeerId) (deadline : Nat) (fs : List Frame) :
    (opened deadline).after? self fs = some (.established peer) ↔
      Frame.introduced self fs = some peer ∧ ¬ Frame.IsBroken self fs := by
  rw [← after?_opened_eq_none self deadline]
  cases h : Frame.introduced self fs with
  | none =>
    refine ⟨fun hs => ?_, fun hs => nomatch hs.1⟩
    cases fs with
    | nil => cases hs
    | cons f fs =>
      rw [after?, next?_opened_eq self deadline f fs, h] at hs
      cases hs
  | some peer' =>
    rw [(after?_opened h deadline).1, after?_established]
    split
    · simp
    · simp

theorem after?_opened_eq_opened {deadline due : Nat} {fs : List Frame}
    (h : (opened deadline).after? self fs = some (.opened due)) : fs = [] ∧ due = deadline := by
  cases fs with
  | nil =>
    cases h
    exact ⟨rfl, rfl⟩
  | cons f fs =>
    rw [after?, next?_opened_eq self deadline f fs] at h
    cases hp : Frame.introduced self (f :: fs) with
    | none =>
      rw [hp] at h
      cases h
    | some peer =>
      rw [hp, Option.map_some, Option.bind_some, after?_established] at h
      split at h
      · cases h
      · cases h

theorem exists_after?_opened {deadline : Nat} {fs : List Frame} {peer : PeerId} :
    (∃ fs', fs' <+: fs ∧ (opened deadline).after? self fs' = some (.established peer)) ↔
      Frame.introduced self fs = some peer := by
  constructor
  · rintro ⟨fs', ⟨l, rfl⟩, ha⟩
    exact Frame.introduced_append ((after?_opened_eq_some _ _ _ _).mp ha).1 l
  · intro h
    cases fs with
    | nil => cases h
    | cons f fs =>
      refine ⟨[f], ⟨fs, rfl⟩, ?_⟩
      rw [after?_singleton, next?_opened_eq self deadline f fs, h]
      rfl

theorem brought_opened (self : PeerId) (deadline : Nat) (fs : List Frame) :
    (opened deadline).brought self fs = Frame.messages self fs := by
  unfold Frame.messages
  cases h : Frame.introduced self fs with
  | none =>
    cases fs with
    | nil => rfl
    | cons f fs =>
      rw [brought, next?_opened_eq self deadline f fs, h]
      rfl
  | some peer => rw [(after?_opened h deadline).2, brought_established]

theorem told_opened {deadline : Nat} {fs : List Frame} {i : Identity}
    (h : i ∈ (opened deadline).told self fs) : Frame.introduced self fs = some i.id := by
  cases fs with
  | nil => cases h
  | cons f fs =>
    by_cases hf : ∃ j, f = .payload (.handshake j)
    · obtain ⟨j, rfl⟩ := hf
      rw [told] at h
      rw [Frame.introduced]
      split at h
      · cases h
      · rename_i hj
        rw [if_neg hj]
        obtain rfl | h := List.mem_cons.mp h
        · rfl
        · rw [told_established h]
    · rw [told] at h
      · cases h
      · exact fun j hj => hf ⟨j, hj⟩

end ConnectionStage

namespace TcpTransport

theorem state?_eq_some {t : TcpTransport} {number : Nat} {s : ConnectionStage} {u : Bytes} :
    t.state? number = some (s, u) ↔
      ∃ c, t.connections.get? number = some c ∧ c.stage = s ∧ c.unread = u := by
  rw [state?, Option.map_eq_some_iff]
  simp only [Prod.mk.injEq]

theorem peer?_eq_some {t : TcpTransport} {number : Nat} {p : PeerId} :
    t.peer? number = some p ↔ ∃ u, t.state? number = some (.established p, u) := by
  rw [peer?, Option.bind_eq_some_iff]
  simp only [state?_eq_some]
  constructor
  · rintro ⟨c, hc, hp⟩
    unfold Connection.peer? at hp
    split at hp
    · cases hp
    · rename_i hs
      cases hp
      exact ⟨c.unread, c, hc, hs, rfl⟩
  · rintro ⟨u, c, hc, hs, -⟩
    refine ⟨c, hc, ?_⟩
    rw [Connection.peer?, hs]

theorem state?_close (t : TcpTransport) (d : Directory) (number now : Nat) :
    (t.close d number now).1.state? number = none :=
  state?_eq_none.mpr (t.get?_close d number now)

end TcpTransport

namespace TcpReception

/-- The frames `fs` have been taken on a connection in the stage `s`: it is in the stage after them
or has ended, and the messages that they bring have arrived. -/
structure Goes (number : Nat) (own : PeerId) (s : ConnectionStage) (u : Bytes) (fs : List Frame)
    (r r' : TcpReception) : Prop where
  identity : r'.directory.identity = r.directory.identity
  state : r'.transport.state? number = (s.after? own fs).map (·, u)
  arrivals : r'.arrivals = r.arrivals ++ s.brought own fs

variable {number : Nat} {self : PeerId} {r : TcpReception} {s : ConnectionStage} {u : Bytes}

theorem Goes.close {f : Frame} (hn : s.next? self f = none) (hm : s.message? f = none)
    (r : TcpReception) (now : Nat) : Goes number self s u [f] r (r.close number now) := by
  refine ⟨(r.close_connects number now).identity, ?_, ?_⟩
  · rw [ConnectionStage.after?_singleton, hn]
    exact r.transport.state?_close r.directory number now
  · rw [ConnectionStage.brought_singleton, hm]
    exact (List.append_nil _).symm

theorem Goes.stay {f : Frame} (h : r.transport.state? number = some (s, u))
    (hn : s.next? self f = some s) {arrivals : List Envelope}
    (ha : arrivals = r.arrivals ++ (s.message? f).toList) (peers : PeerTable Held)
    (released : List Held) :
    Goes number self s u [f] r { r with directory.peers := peers, arrivals, released } := by
  refine ⟨rfl, ?_, ?_⟩
  · rw [ConnectionStage.after?_singleton, hn]
    exact h
  · rw [ConnectionStage.brought_singleton]
    exact ha

theorem Goes.establish {c : Connection} {i : Identity}
    (hn : s.next? self (.payload (.handshake i)) = some (.established i.id))
    (hm : s.message? (.payload (.handshake i)) = none) (r : TcpReception) :
    Goes number self s c.unread [.payload (.handshake i)] r (r.establish number c i) := by
  refine ⟨r.directory.identity_addRoute _, ?_, ?_⟩
  · have hput := r.transport.connections.get?_put number number
      { c with stage := .established i.id }
    rw [if_pos rfl] at hput
    rw [ConnectionStage.after?_singleton, hn]
    exact congrArg (Option.map fun c => (c.stage, c.unread)) hput
  · rw [ConnectionStage.brought_singleton, hm]
    exact (List.append_nil _).symm

theorem frame_goes (h : r.transport.state? number = some (s, u)) (now : Nat) (f : Frame) :
    Goes number r.directory.identity.id s u [f] r (frame number now r f) := by
  obtain ⟨c, hc, rfl, rfl⟩ := TcpTransport.state?_eq_some.mp h
  unfold frame
  rw [hc]
  dsimp only
  cases hs : c.stage with
  | opened deadline =>
    cases f with
    | malformed fault => exact .close rfl rfl r now
    | payload p =>
      cases p with
      | handshake i =>
        dsimp only
        split
        · refine .close ?_ rfl r now
          exact if_pos ‹_›
        · refine .establish ?_ rfl r
          exact if_neg ‹_›
      | _ => exact .close rfl rfl r now
  | established peer =>
    rw [hs] at h
    have hnext {f : Frame} (hf : ∀ i, f ≠ .payload (.handshake i)) :
        (ConnectionStage.established peer).next? r.directory.identity.id f =
          some (.established peer) :=
      if_neg (Frame.not_contradicts hf peer)
    have hnil := (List.append_nil r.arrivals).symm
    cases f with
    | malformed fault => exact .stay h (hnext fun _ hf => by cases hf) hnil _ _
    | payload p =>
      cases p with
      | message e =>
        have hm : (ConnectionStage.established peer).message? (.payload (.message e)) =
            if e.sender = peer then some e else none := rfl
        dsimp only
        split
        · rw [if_pos ‹_›] at hm
          exact .stay h (hnext fun _ hf => by cases hf) (hm ▸ rfl) _ _
        · rw [if_neg ‹_›] at hm
          exact .stay h (hnext fun _ hf => by cases hf) (hm ▸ hnil) _ _
      | handshake i =>
        dsimp only
        split
        · refine .stay h (if_neg fun hc => ?_) hnil _ _
          exact hc ‹_›
        · refine .close ?_ rfl r now
          exact if_pos ‹_›
      | _ => exact .stay h (hnext fun _ hf => by cases hf) hnil _ _

theorem foldl_frame_goes (h : r.transport.state? number = some (s, u)) (now : Nat)
    (fs : List Frame) :
    Goes number r.directory.identity.id s u fs r (fs.foldl (frame number now) r) := by
  induction fs generalizing r s with
  | nil => exact ⟨rfl, h, (List.append_nil _).symm⟩
  | cons f fs ih =>
    obtain ⟨hid, hstate, harrivals⟩ := frame_goes h now f
    rw [ConnectionStage.after?_singleton] at hstate
    rw [ConnectionStage.brought_singleton] at harrivals
    rw [List.foldl_cons]
    cases hn : s.next? r.directory.identity.id f with
    | none =>
      rw [hn] at hstate
      rw [foldl_frame_of_closed (TcpTransport.state?_eq_none.mp hstate)]
      refine ⟨hid, ?_, ?_⟩
      · rw [hstate, ConnectionStage.after?, hn]
        rfl
      · rw [harrivals, ConnectionStage.brought, hn]
        simp
    | some s' =>
      rw [hn] at hstate
      have hrest := ih hstate
      rw [hid] at hrest
      refine ⟨hrest.identity.trans hid, ?_, ?_⟩
      · rw [hrest.state, ConnectionStage.after?, hn]
        rfl
      · rw [hrest.arrivals, harrivals, ConnectionStage.brought, hn, List.append_assoc]
        rfl

end TcpReception

namespace TcpTransport

variable {t : TcpTransport} {number : Nat}

/-- The frames are taken one after the other, and what is left waits, or the connection ends. -/
theorem receive_eq {c : Connection} (hc : t.connections.get? number = some c) (d : Directory)
    (now : Nat) (bs : Bytes) (ended : Bool) :
    let read := readFrames t.config.maxFrame ended (c.unread ++ bs)
    let r := read.1.foldl (TcpReception.frame number now) { transport := t, directory := d }
    t.receive d number now bs ended =
      match read.2.unread? with
      | some unread =>
        { r with
          transport.connections :=
            r.transport.connections.modify number fun c => { c with unread } }
      | none => r.close number now := by
  intro read r
  rw [receive, hc]
  dsimp only
  cases read.2 with
  | incomplete unread => rfl
  | finished => rfl
  | failed e rest => rfl

/-- The bytes that arrive complete some frames of the stream, which are taken. -/
theorem receive_goes {s : ConnectionStage} {u : Bytes} (h : t.state? number = some (s, u))
    (d : Directory) (now : Nat) (bs : Bytes) (ended : Bool) : ∃ contents rest,
    Splits t.config.maxFrame (u ++ bs) contents rest ∧
      let fs := contents.map Frame.ofContent
      (readFrames t.config.maxFrame ended (u ++ bs)).1 = fs ∧
      (t.receive d number now bs ended).arrivals = s.brought d.identity.id fs ∧
      (t.receive d number now bs ended).transport.state? number =
        if ended ∨ Frame.IsOversized t.config.maxFrame rest then none
        else (s.after? d.identity.id fs).map (·, rest) := by
  obtain ⟨contents, rest, hs, hframes, htail⟩ := readFrames_splits t.config.maxFrame ended (u ++ bs)
  refine ⟨contents, rest, hs, hframes, ?_⟩
  have hgoes := TcpReception.foldl_frame_goes (r := { transport := t, directory := d }) h now
    (contents.map Frame.ofContent)
  obtain ⟨c, hc, -, rfl⟩ := state?_eq_some.mp h
  rw [receive_eq hc, hframes, htail]
  generalize List.foldl (TcpReception.frame number now) _ _ = r at hgoes
  obtain ⟨-, hstate, harrivals⟩ := hgoes
  rw [List.nil_append] at harrivals
  by_cases hend : ended ∨ Frame.IsOversized t.config.maxFrame rest
  · rw [if_pos hend, if_pos hend]
    exact ⟨harrivals, r.transport.state?_close r.directory number now⟩
  · rw [if_neg hend, if_neg hend]
    refine ⟨harrivals, ?_⟩
    have hmodify := r.transport.connections.get?_modify number number
      fun c => { c with unread := rest }
    rw [if_pos rfl] at hmodify
    have hstage := congrArg (Option.map fun x => (x.1, rest)) hstate
    rw [state?, Option.map_map, Option.map_map] at hstage
    rw [state?, hmodify, Option.map_map]
    exact hstage

theorem opened_eq {t : TcpTransport} (hrun : ¬ t.isStopped) {self : Identity}
    (hown : (Payload.handshake self).encode.length ≤ t.config.maxFrame) (a : SocketAddress)
    (now : Nat) : ∃ writer activity, t.opened self a now =
      { t with
        nextConnection := t.nextConnection + 1
        connections := t.connections.put t.nextConnection
          ⟨a, .opened (now + t.config.handshakeTimeout), writer, []⟩
        activity } := by
  unfold opened FrameWriter.write
  rw [if_neg hrun]
  dsimp only
  rw [if_neg (Nat.not_lt.mpr hown)]
  exact ⟨_, _, rfl⟩

def frames (t : TcpTransport) (number : Nat) (bs : Bytes) (ended : Bool) : List Frame :=
  match t.connections.get? number with
  | none => []
  | some c => (readFrames t.config.maxFrame ended (c.unread ++ bs)).1

end TcpTransport

end PeerMesh

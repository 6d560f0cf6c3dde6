import PeerMesh.Proofs.Introductions
import PeerMesh.Proofs.Packing
import PeerMesh.Rehearsal

namespace PeerMesh

/-- A transport as a messenger sees it: its name, what it does with a message for all, and what
comes of that. -/
structure Outlet (σ : Type) where
  name : String
  broadcast : Envelope → σ → σ × Except SendError Unit

namespace Outlet

variable {σ : Type}

def broadcastFrom (e : Envelope) (failed : List String) :
    List (Outlet σ) → σ → σ × Except SendError Unit
  | [], s => (s, if failed = [] then .ok () else .error (.broadcastFailed failed))
  | o :: os, s =>
    match o.broadcast e s with
    | (s, .ok ()) => broadcastFrom e failed os s
    | (s, .error _) => broadcastFrom e (failed ++ [o.name]) os s

def broadcastAll (e : Envelope) (os : List (Outlet σ)) (s : σ) : σ × Except SendError Unit :=
  broadcastFrom e [] os s

def results (e : Envelope) : List (Outlet σ) → σ → List (String × Except SendError Unit)
  | [], _ => []
  | o :: os, s => (o.name, (o.broadcast e s).2) :: results e os (o.broadcast e s).1

def failures (rs : List (String × Except SendError Unit)) : List String :=
  (rs.filter fun r => r.2 ≠ .ok ()).map Prod.fst

theorem failures_cons_ok (name : String) (rs : List (String × Except SendError Unit)) :
    failures ((name, .ok ()) :: rs) = failures rs := by
  rw [failures, List.filter_cons_of_neg (by simp), ← failures]

theorem failures_cons_error (name : String) (err : SendError)
    (rs : List (String × Except SendError Unit)) :
    failures ((name, .error err) :: rs) = name :: failures rs := by
  rw [failures, List.filter_cons_of_pos (by simp), List.map_cons, ← failures]

theorem failures_eq_nil_iff {rs : List (String × Except SendError Unit)} :
    failures rs = [] ↔ ∀ r ∈ rs, r.2 = .ok () := by
  rw [failures, List.map_eq_nil_iff, List.filter_eq_nil_iff]
  simp

theorem filterMap_eq_failures {f : String × Except SendError Unit → Option String}
    (hok : ∀ name, f (name, .ok ()) = none) (herror : ∀ name err, f (name, .error err) = some name)
    (rs : List (String × Except SendError Unit)) : rs.filterMap f = failures rs := by
  induction rs with
  | nil => rfl
  | cons r rs ih =>
    obtain ⟨name, result⟩ := r
    cases result with
    | ok u => rw [List.filterMap_cons_none (hok name), ih, failures_cons_ok]
    | error err => rw [List.filterMap_cons_some (herror name err), ih, failures_cons_error]

theorem broadcastResult_eq (rs : List (String × Except SendError Unit)) :
    broadcastResult rs =
      if failures rs = [] then .ok () else .error (.broadcastFailed (failures rs)) :=
  congrArg
    (fun names => if names = [] then Except.ok () else .error (SendError.broadcastFailed names))
    (filterMap_eq_failures (fun _ => rfl) (fun _ _ => rfl) rs)

theorem broadcastResult_eq_ok_iff {rs : List (String × Except SendError Unit)} :
    broadcastResult rs = .ok () ↔ ∀ r ∈ rs, r.2 = .ok () := by
  rw [broadcastResult_eq, ← failures_eq_nil_iff]
  split
  · simp [*]
  · simp [*]

theorem broadcastFrom_eq (e : Envelope) (failed : List String) (os : List (Outlet σ)) (s : σ) :
    broadcastFrom e failed os s = (os.foldl (fun s o => (o.broadcast e s).1) s,
      if failed ++ failures (results e os s) = [] then .ok ()
      else .error (.broadcastFailed (failed ++ failures (results e os s)))) := by
  induction os generalizing failed s with
  | nil =>
    rw [results, failures, List.filter_nil, List.map_nil, List.append_nil]
    rfl
  | cons o os ih =>
    obtain ⟨s', result, ho⟩ : ∃ s' result, o.broadcast e s = (s', result) := ⟨_, _, rfl⟩
    rw [broadcastFrom, results, List.foldl_cons, ho]
    dsimp only
    cases result with
    | ok u =>
      rw [failures_cons_ok]
      exact ih failed s'
    | error err =>
      rw [failures_cons_error]
      dsimp only
      rw [ih, List.append_assoc, List.singleton_append]

/-- The outlets are asked one after the other, and what comes of that is the result of a
broadcast. -/
theorem broadcastAll_eq (e : Envelope) (os : List (Outlet σ)) (s : σ) :
    broadcastAll e os s =
      (os.foldl (fun s o => (o.broadcast e s).1) s, broadcastResult (results e os s)) := by
  rw [broadcastAll, broadcastFrom_eq, broadcastResult_eq, List.nil_append]

def recorded (o : Outlet σ) : Outlet (σ × List RecordedSend) where
  name := o.name
  broadcast e s :=
    (((o.broadcast e s.1).1, s.2 ++ [⟨o.name, .broadcast, e⟩]), (o.broadcast e s.1).2)

theorem foldl_recorded (e : Envelope) (os : List (Outlet σ)) (s : σ) (record : List RecordedSend) :
    (os.map recorded).foldl (fun s o => (o.broadcast e s).1) (s, record) =
        (os.foldl (fun s o => (o.broadcast e s).1) s,
          record ++ os.map fun o => ⟨o.name, .broadcast, e⟩) ∧
      results e (os.map recorded) (s, record) = results e os s := by
  induction os generalizing s record with
  | nil => exact ⟨congrArg (Prod.mk s) (List.append_nil record).symm, rfl⟩
  | cons o os ih =>
    obtain ⟨hstate, hresults⟩ := ih (o.broadcast e s).1 (record ++ [⟨o.name, .broadcast, e⟩])
    rw [List.append_assoc] at hstate
    exact ⟨hstate, congrArg (List.cons _) hresults⟩

/-- Every outlet is asked once, in order and for the same message, and does not notice what came of
the others. -/
theorem broadcastAll_recorded (e : Envelope) (os : List (Outlet σ)) (s : σ) :
    broadcastAll e (os.map recorded) (s, []) =
      ((os.foldl (fun s o => (o.broadcast e s).1) s, os.map fun o => ⟨o.name, .broadcast, e⟩),
        (broadcastAll e os s).2) := by
  obtain ⟨hstate, hresults⟩ := foldl_recorded e os s []
  rw [broadcastAll_eq, broadcastAll_eq, hstate, hresults, List.nil_append]

end Outlet

def StandInTransport.outlet (t : StandInTransport) : Outlet Unit where
  name := t.name
  broadcast _ s := (s, Rehearsal.outcome t.name t.broken)

theorem Rehearsal.broadcast_eq_broadcastAll (r : Rehearsal) (body : Body) :
    Outlet.broadcastAll ⟨r.self, .nil, body⟩
      (r.transports.map fun t => t.outlet.recorded) ((), []) =
        (((), (r.broadcast body).1), (r.broadcast body).2) := by
  have hresults (ts : List StandInTransport) (s : Unit) :
      Outlet.results ⟨r.self, .nil, body⟩ (ts.map StandInTransport.outlet) s =
        ts.map fun t => (t.name, outcome t.name t.broken) := by
    induction ts generalizing s with
    | nil => rfl
    | cons t ts ih => exact congrArg (List.cons _) (ih s)
  have hrecorded := Outlet.broadcastAll_recorded ⟨r.self, .nil, body⟩
    (r.transports.map StandInTransport.outlet) ()
  rw [Outlet.broadcastAll_eq _ (r.transports.map _), hresults, List.map_map, List.map_map]
    at hrecorded
  exact hrecorded

namespace Node

def udpOutlet : Outlet Node where
  name := "udp"
  broadcast e n :=
    match n.udp with
    | none => (n, .error .shutDown)
    | some t => ({ n with udp := some (t.broadcast n.id e).1 }, (t.broadcast n.id e).2)

def tcpOutlet (transport : Nat) : Outlet Node where
  name := "tcp"
  broadcast e n :=
    match n.tcp[transport]? with
    | none => (n, .error .shutDown)
    | some t => ({ n with tcp := n.tcp.set transport (t.broadcast e).1 }, (t.broadcast e).2)

def outlets (n : Node) : List (Outlet Node) :=
  (n.udp.toList.map fun _ => udpOutlet) ++ (List.range n.tcp.length).map tcpOutlet

theorem foldl_tcpOutlets (e : Envelope) (n : Node) (done ts : List TcpTransport) :
    let os := (List.range' done.length ts.length).map tcpOutlet
    os.foldl (fun n o => (o.broadcast e n).1) { n with tcp := done ++ ts } =
        { n with tcp := done ++ ts.map fun t => (t.broadcast e).1 } ∧
      Outlet.results e os { n with tcp := done ++ ts } =
        ts.map fun t => ("tcp", (t.broadcast e).2) := by
  induction ts generalizing done with
  | nil => exact ⟨rfl, rfl⟩
  | cons t ts ih =>
    have hcall : (tcpOutlet done.length).broadcast e { n with tcp := done ++ t :: ts } =
        ({ n with tcp := done ++ [(t.broadcast e).1] ++ ts }, (t.broadcast e).2) := by
      simp [tcpOutlet]
    obtain ⟨hstate, hresults⟩ := ih (done ++ [(t.broadcast e).1])
    rw [List.length_append, List.length_singleton] at hstate hresults
    dsimp only
    rw [List.length_cons, List.range'_succ, List.map_cons, List.foldl_cons, Outlet.results, hcall]
    refine ⟨hstate.trans ?_, ?_⟩
    · rw [List.append_assoc]
      rfl
    · rw [hresults]
      rfl

/-- What a node sends to all is up to its transports, each of which is left as its own broadcast
leaves it. -/
theorem broadcast_eq (n : Node) (body : Body) :
    let e : Envelope := ⟨n.id, .nil, body⟩
    n.broadcast body =
      ({ n with
         udp := n.udp.map fun u => (u.broadcast n.id e).1
         tcp := n.tcp.map fun t => (t.broadcast e).1 },
       broadcastResult ((n.udp.toList.map fun u => ("udp", (u.broadcast n.id e).2)) ++
         n.tcp.map fun t => ("tcp", (t.broadcast e).2))) := by
  intro e
  rw [broadcast, Option.map_map, List.map_map, List.map_map]
  cases n.udp with
  | none => rfl
  | some u => rfl

theorem broadcast_eq_broadcastAll (n : Node) (body : Body) :
    n.broadcast body = Outlet.broadcastAll ⟨n.id, .nil, body⟩ n.outlets n := by
  rw [broadcast_eq, Outlet.broadcastAll_eq, outlets, List.range_eq_range']
  obtain ⟨d, handlers, discoveryTimeout, udp, tcp, nextTicket⟩ := n
  let e : Envelope := ⟨d.identity.id, .nil, body⟩
  cases udp with
  | none =>
    obtain ⟨hstate, hresults⟩ :=
      foldl_tcpOutlets e ⟨d, handlers, discoveryTimeout, none, tcp, nextTicket⟩ [] tcp
    exact Prod.ext hstate.symm (congrArg broadcastResult hresults.symm)
  | some u =>
    obtain ⟨hstate, hresults⟩ := foldl_tcpOutlets e
      ⟨d, handlers, discoveryTimeout, some (u.broadcast d.identity.id e).1, tcp, nextTicket⟩ [] tcp
    exact Prod.ext hstate.symm
      (congrArg (fun rs => broadcastResult (("udp", (u.broadcast d.identity.id e).2) :: rs))
        hresults.symm)

end Node

namespace TcpTransport

def outlet (number : Nat) : Outlet TcpTransport where
  name := toString number
  broadcast e t := t.write number (.message e)

/-- The transport offers a message once to each connection whose handshake is over, and to no other
one, and succeeds whatever comes of that. -/
structure FansOut (t : TcpTransport) (e : Envelope) : Prop where
  distinct : (t.established.map Prod.fst).Nodup
  established (number : Nat) (peer : PeerId) : (number, peer) ∈ t.established ↔
    ∃ c, t.connections.get? number = some c ∧ c.stage = .established peer
  calls : t.broadcast e =
    ((Outlet.broadcastAll e (t.established.map fun x => outlet x.1) t).1, .ok ())
  writes (number : Nat) : (t.broadcast e).1.connections.get? number =
    (t.connections.get? number).map fun c =>
      if c.peer?.isSome ∧ c.writer.Admits (.message e)
      then c.withFrame (Payload.message e).encode else c
  rest : { (t.broadcast e).1 with connections := t.connections } = t

theorem writeAll_eq (t : TcpTransport) (p : Payload) :
    { t.writeAll p with connections := t.connections } = t := by
  have hwrite (t : TcpTransport) (number : Nat) (connections : KeyedList Nat Connection) :
      { (t.write number p).1 with connections } = { t with connections } := by
    unfold write
    split
    · rfl
    · rfl
  unfold writeAll
  generalize t.established = es
  have hall : ∀ t : TcpTransport, ∀ connections,
      { es.foldl (fun t e => (t.write e.1 p).1) t with connections } = { t with connections } := by
    induction es with
    | nil => exact fun t connections => rfl
    | cons e es ih =>
      exact fun t connections => (ih (t.write e.1 p).1 connections).trans (hwrite t e.1 connections)
  exact hall t t.connections

theorem fansOut_of_running {t : TcpTransport} (h : ¬ t.isStopped) (e : Envelope) :
    t.FansOut e := by
  have hbroadcast : t.broadcast e = (t.writeAll (.message e), .ok ()) := by
    rw [broadcast, if_neg h]
  refine ⟨t.nodup_established, fun number peer => ?_, ?_, fun number => ?_, ?_⟩
  · rw [mem_established, peer?, Option.bind_eq_some_iff]
    refine exists_congr fun c => and_congr_right fun _ => ?_
    cases hc : c.stage with
    | opened deadline => simp [Connection.peer?, hc]
    | established q => simp [Connection.peer?, hc]
  · rw [hbroadcast, Outlet.broadcastAll_eq, List.foldl_map]
    rfl
  · rw [hbroadcast]
    exact t.get?_writeAll (.message e) number
  · rw [hbroadcast]
    exact t.writeAll_eq (.message e)

end TcpTransport

namespace Link

/-- The network accepts all of these if they are what it is offered next. -/
def Accepts (l : Link) (ps : List Parcel) : Prop :=
  ∀ i, ∀ h : i < ps.length, l.fault (l.count + i) ps[i] = none

def accepting (l : Link) (ps : List Parcel) : Link :=
  { l with count := l.count + ps.length, log := (ps.map (·, true)).reverse ++ l.log }

def refusing (l : Link) (p : Parcel) : Link :=
  { l with count := l.count + 1, log := (p, false) :: l.log }

theorem accepting_cons (l : Link) (p : Parcel) (ps : List Parcel) :
    (l.accepting [p]).accepting ps = l.accepting (p :: ps) := by
  have hcount : l.count + 1 + ps.length = l.count + (ps.length + 1) := by omega
  have hlog : (ps.map (·, true)).reverse ++ (p, true) :: l.log =
      ((p :: ps).map (·, true)).reverse ++ l.log := by simp
  exact congrArg₂ (fun count log => { l with count, log }) hcount hlog

theorem accepts_cons {l : Link} {p : Parcel} {ps : List Parcel} :
    l.Accepts (p :: ps) ↔ l.fault l.count p = none ∧ (l.accepting [p]).Accepts ps := by
  constructor
  · intro h
    refine ⟨h 0 (Nat.zero_lt_succ _), fun i hi => ?_⟩
    have hnext := h (i + 1) (Nat.succ_lt_succ hi)
    rwa [List.getElem_cons_succ, ← Nat.add_assoc, Nat.add_right_comm] at hnext
  · rintro ⟨hp, hps⟩ i hi
    cases i with
    | zero => exact hp
    | succ i =>
      have hnext := hps i (Nat.lt_of_succ_lt_succ hi)
      rw [List.getElem_cons_succ, ← Nat.add_assoc, Nat.add_right_comm]
      exact hnext

theorem offerWhileAccepted_append {l : Link} {front : List Parcel} (h : l.Accepts front)
    (back : List Parcel) :
    l.offerWhileAccepted (front ++ back) = (l.accepting front).offerWhileAccepted back := by
  induction front generalizing l with
  | nil => rfl
  | cons p front ih =>
    obtain ⟨hp, hfront⟩ := accepts_cons.mp h
    have hoffer : l.offer p = (l.accepting [p], .ok ()) := by
      rw [offer, hp]
      rfl
    rw [List.cons_append, offerWhileAccepted, hoffer]
    dsimp only
    rw [ih hfront, accepting_cons]

theorem offerWhileAccepted_of_accepts {l : Link} {ps : List Parcel} (h : l.Accepts ps) :
    l.offerWhileAccepted ps = (l.accepting ps, .ok ()) := by
  have := offerWhileAccepted_append h []
  rwa [List.append_nil] at this

theorem offerWhileAccepted_of_fault {l : Link} {front : List Parcel} {p : Parcel}
    {cause : SendError} (h : l.Accepts front) (hp : l.fault (l.count + front.length) p = some cause)
    (back : List Parcel) :
    l.offerWhileAccepted (front ++ p :: back) =
      ((l.accepting front).refusing p, .error cause) := by
  have hoffer : (l.accepting front).offer p = ((l.accepting front).refusing p, .error cause) := by
    rw [offer, show (l.accepting front).fault (l.accepting front).count p = some cause from hp]
    rfl
  rw [offerWhileAccepted_append h, offerWhileAccepted, hoffer]

theorem accepts_or_fault (l : Link) (ps : List Parcel) :
    l.Accepts ps ∨ ∃ front p back cause, ps = front ++ p :: back ∧ l.Accepts front ∧
      l.fault (l.count + front.length) p = some cause := by
  induction ps generalizing l with
  | nil => exact .inl nofun
  | cons p ps ih =>
    cases hp : l.fault l.count p with
    | some cause => exact .inr ⟨[], p, ps, cause, rfl, nofun, hp⟩
    | none =>
      obtain hps | ⟨front, q, back, cause, rfl, hfront, hq⟩ := ih (l.accepting [p])
      · exact .inl (accepts_cons.mpr ⟨hp, hps⟩)
      · refine .inr ⟨p :: front, q, back, cause, rfl, accepts_cons.mpr ⟨hp, hfront⟩, ?_⟩
        rw [List.length_cons, Nat.add_comm front.length, ← Nat.add_assoc]
        exact hq

end Link

namespace UdpTransport

def parcels (u : UdpTransport) (sender : PeerId) (e : Envelope) : List Parcel :=
  (e.packets sender false u.config.maxDatagram u.ids).1.map fun p => .broadcast p.datagram

/-- The transport broadcasts the packets of a message in order up to the first one that the network
refuses, and fails just if there is such a one. -/
structure FansOut (u : UdpTransport) (sender : PeerId) (e : Envelope) : Prop where
  messages : (e.packets sender false u.config.maxDatagram u.ids).1.map Packet.message =
    e.split u.config.maxDatagram u.ids.multiParts.next
  unreliable : ∀ p ∈ (e.packets sender false u.config.maxDatagram u.ids).1,
    p.sender = sender ∧ p.receiver = p.message.receiver ∧ p.reliable = false
  succeeds : u.link.Accepts (u.parcels sender e) → u.broadcast sender e =
    ({ u with
       ids := (e.packets sender false u.config.maxDatagram u.ids).2
       link := u.link.accepting (u.parcels sender e) }, .ok ())
  stops : ¬ u.link.Accepts (u.parcels sender e) → ∃ front p back cause,
    u.parcels sender e = front ++ p :: back ∧ u.link.Accepts front ∧
      u.link.fault (u.link.count + front.length) p = some cause ∧
      u.broadcast sender e =
        ({ u with
           ids := (e.packets sender false u.config.maxDatagram u.ids).2
           link := (u.link.accepting front).refusing p }, .error cause)

theorem fansOut_of_running {u : UdpTransport} (h : ¬ u.isStopped) (sender : PeerId)
    (e : Envelope) : u.FansOut sender e := by
  have hbroadcast : u.broadcast sender e =
      ({ u with
         ids := (e.packets sender false u.config.maxDatagram u.ids).2
         link := (u.link.offerWhileAccepted (u.parcels sender e)).1 },
       (u.link.offerWhileAccepted (u.parcels sender e)).2) := by
    rw [broadcast, if_neg h]
    rfl
  refine ⟨e.map_message_packets .., fun p hp => (Envelope.mem_packets hp).2, fun haccepts => ?_,
    fun hrefuses => ?_⟩
  · rw [hbroadcast, Link.offerWhileAccepted_of_accepts haccepts]
  · obtain haccepts | ⟨front, p, back, cause, hps, hfront, hp⟩ :=
      u.link.accepts_or_fault (u.parcels sender e)
    · exact absurd haccepts hrefuses
    · refine ⟨front, p, back, cause, hps, hfront, hp, ?_⟩
      rw [hbroadcast, hps, Link.offerWhileAccepted_of_fault hfront hp]

theorem broadcast_eq_ok_iff {u : UdpTransport} {sender : PeerId} {e : Envelope} :
    (u.broadcast sender e).2 = .ok () ↔ ¬ u.isStopped ∧ u.link.Accepts (u.parcels sender e) := by
  by_cases h : u.isStopped
  · rw [broadcast, if_pos h]
    simp [h]
  · have hf := fansOut_of_running h sender e
    by_cases haccepts : u.link.Accepts (u.parcels sender e)
    · rw [hf.succeeds haccepts]
      simp [h, haccepts]
    · obtain ⟨front, p, back, cause, -, -, -, hb⟩ := hf.stops haccepts
      rw [hb]
      simp [haccepts]

end UdpTransport

namespace Node

theorem broadcast_eq_ok_iff (n : Node) (body : Body) :
    (n.broadcast body).2 = .ok () ↔
      (∀ u ∈ n.udp, ¬ u.isStopped ∧ u.link.Accepts (u.parcels n.id ⟨n.id, .nil, body⟩)) ∧
        ∀ t ∈ n.tcp, ¬ t.isStopped := by
  have htcp (t : TcpTransport) (e : Envelope) : (t.broadcast e).2 = .ok () ↔ ¬ t.isStopped := by
    by_cases h : t.isStopped
    · rw [TcpTransport.broadcast, if_pos h]
      simp [h]
    · rw [TcpTransport.broadcast, if_neg h]
      simp [h]
  rw [broadcast_eq, Outlet.broadcastResult_eq_ok_iff, List.forall_mem_append]
  refine and_congr ?_ ?_
  · rw [List.forall_mem_map]
    exact forall_congr' fun u => imp_congr Option.mem_toList UdpTransport.broadcast_eq_ok_iff
  · rw [List.forall_mem_map]
    exact forall₂_congr fun t _ => htcp t _

/-- Whatever transports there are and whatever fails, a message for all is taken to each of them
once, in order, and those that fail are told by name. So it is for the transports of a node, of
which those that run go on by themselves: from one connection to the next, whatever comes of it, and
from one packet to the next as long as the network takes them. -/
theorem broadcast_asks_every_transport {σ : Type} (os : List (Outlet σ)) (s : σ) (e : Envelope)
    (r : Rehearsal) (n : Node) (body : Body) :
    Outlet.broadcastAll e (os.map Outlet.recorded) (s, []) =
        ((os.foldl (fun s o => (o.broadcast e s).1) s, os.map fun o => ⟨o.name, .broadcast, e⟩),
          (Outlet.broadcastAll e os s).2) ∧
      ((Outlet.broadcastAll e os s).2 = .ok () ↔ ∀ x ∈ Outlet.results e os s, x.2 = .ok ()) ∧
      ((Outlet.broadcastAll e os s).2 ≠ .ok () → (Outlet.broadcastAll e os s).2 =
        .error (.broadcastFailed
          (((Outlet.results e os s).filter fun x => x.2 ≠ .ok ()).map Prod.fst))) ∧
      Outlet.broadcastAll ⟨r.self, .nil, body⟩
          (r.transports.map fun t => t.outlet.recorded) ((), []) =
        (((), (r.broadcast body).1), (r.broadcast body).2) ∧
      n.broadcast body = Outlet.broadcastAll ⟨n.id, .nil, body⟩ n.outlets n ∧
      (n.broadcast body).1 =
        { n with
          udp := n.udp.map fun u => (u.broadcast n.id ⟨n.id, .nil, body⟩).1
          tcp := n.tcp.map fun t => (t.broadcast ⟨n.id, .nil, body⟩).1 } ∧
      ((n.broadcast body).2 = .ok () ↔
        (∀ u ∈ n.udp, ¬ u.isStopped ∧ u.link.Accepts (u.parcels n.id ⟨n.id, .nil, body⟩)) ∧
          ∀ t ∈ n.tcp, ¬ t.isStopped) ∧
      (∀ t : TcpTransport, ¬ t.isStopped → t.FansOut e) ∧
      ∀ u : UdpTransport, ∀ sender, ¬ u.isStopped → u.FansOut sender e := by
  refine ⟨Outlet.broadcastAll_recorded e os s, ?_, fun h => ?_, r.broadcast_eq_broadcastAll body,
    n.broadcast_eq_broadcastAll body, congrArg Prod.fst (n.broadcast_eq body),
    n.broadcast_eq_ok_iff body, fun t ht => TcpTransport.fansOut_of_running ht e,
    fun u sender hu => UdpTransport.fansOut_of_running hu sender e⟩
  · rw [Outlet.broadcastAll_eq, Outlet.broadcastResult_eq_ok_iff]
  · rw [Outlet.broadcastAll_eq, Outlet.broadcastResult_eq] at h ⊢
    dsimp only at h ⊢
    by_cases hf : Outlet.failures (Outlet.results e os s) = []
    · exact absurd (if_pos hf) h
    · exact if_neg hf

def partlyFailing : Node where
  directory := { identity := { id := ⟨1⟩, name := "a" } }
  discoveryTimeout := 30000
  udp := some (.start .narrow
    { port := 4000, fault := fun k _ => if k % 2 = 1 then some (.refused "full") else none }
    (.numbered 0 100) 0)
  tcp :=
    [{ config := { role := .client ⟨.v4 0, 4001, 0⟩ }, index := 0, activity := .stopped },
     { config := { role := .server ⟨.v4 0, 4002, 0⟩ }
       index := 1
       activity := .listening
       connections := ((KeyedList.empty.put 0 ⟨⟨.v4 0, 1, 0⟩, .established ⟨2⟩,
           { maxFrame := 1000, isOpen := false }, []⟩).put 1
         ⟨⟨.v4 0, 2, 0⟩, .opened 50, { maxFrame := 1000 }, []⟩).put 2
         ⟨⟨.v4 0, 3, 0⟩, .established ⟨3⟩, { maxFrame := 1000 }, []⟩
       nextConnection := 3 }]

theorem broadcast_asks_every_transport_partlyFailing :
    let body := (Envelope.zeros 300).body
    let e : Envelope := ⟨⟨1⟩, .nil, body⟩
    (partlyFailing.broadcast body).2 = .error (.broadcastFailed ["udp", "tcp"]) ∧
      (∃ u, partlyFailing.udp = some u ∧ ¬ u.isStopped ∧ u.FansOut ⟨1⟩ e) ∧
      (∃ t, partlyFailing.tcp[1]? = some t ∧ ¬ t.isStopped ∧ t.FansOut e) ∧
      ((partlyFailing.broadcast body).1.udp.map fun u => u.link.log.map Prod.snd) =
        some [false, true] ∧
      ((partlyFailing.broadcast body).1.tcp.map fun t =>
        t.connections.entries.map fun x => x.2.writer.frames) =
          [[], [[], [], [(Payload.message e).encode]]] := by
  intro body e
  obtain ⟨-, -, -, -, -, -, -, htcp, hudp⟩ := broadcast_asks_every_transport
    partlyFailing.outlets partlyFailing e ⟨⟨1⟩, .empty, [⟨"a", true⟩, ⟨"b", false⟩]⟩
    partlyFailing body
  refine ⟨by decide +kernel, ⟨_, rfl, ?_, hudp _ ⟨1⟩ ?_⟩, ⟨_, rfl, ?_, htcp _ ?_⟩,
    by decide +kernel, by decide +kernel⟩
  all_goals decide +kernel

end Node

end PeerMesh

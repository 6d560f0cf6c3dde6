import PeerMesh.Proofs.Statistics
import PeerMesh.Proofs.Steps

namespace PeerMesh

/-- What becomes of a packet that a node receives. -/
inductive PacketFate where
  | tossed
  | duplicate
  | dispatched
  | chunk
deriving DecidableEq

namespace Packet

/-- What becomes of the packet if it is unpacked. -/
def admission (p : Packet) : PacketFate :=
  if p.message.body.Holds Chunk then .chunk else .dispatched

@[simp] theorem admission_ne_tossed (p : Packet) : p.admission ≠ .tossed := by
  unfold admission
  split <;> nofun

@[simp] theorem admission_ne_duplicate (p : Packet) : p.admission ≠ .duplicate := by
  unfold admission
  split <;> nofun

@[simp] theorem admission_eq_dispatched_iff {p : Packet} :
    p.admission = .dispatched ↔ ¬ p.message.body.Holds Chunk := by
  simp [admission]

@[simp] theorem admission_eq_chunk_iff {p : Packet} :
    p.admission = .chunk ↔ p.message.body.Holds Chunk := by
  simp [admission]

def reliableIds (self : PeerId) (ps : List Packet) : List PacketId :=
  (own self true ps).map Packet.id

/-- What becomes of the packet at the node `self` after others. -/
def fate (self : PeerId) (before : List Packet) (p : Packet) : PacketFate :=
  if p.IsFor self then
    if p.reliable ∧ p.id ∈ reliableIds self before then .duplicate else p.admission
  else .tossed

def fates (self : PeerId) (before : List Packet) : List Packet → List (Packet × PacketFate)
  | [] => []
  | p :: ps => (p, p.fate self before) :: fates self (before ++ [p]) ps

variable {self : PeerId} {before : List Packet}

theorem map_fst_fates (ps : List Packet) : (fates self before ps).map Prod.fst = ps := by
  induction ps generalizing before with
  | nil => rfl
  | cons p ps ih => rw [fates, List.map_cons, ih]

theorem fates_append (ps qs : List Packet) :
    fates self before (ps ++ qs) = fates self before ps ++ fates self (before ++ ps) qs := by
  induction ps generalizing before with
  | nil => rw [List.append_nil]; rfl
  | cons p ps ih => simp [fates, ih]

end Packet

def PacketFate.group (f : PacketFate) (ps : List (Packet × PacketFate)) : List Packet :=
  (ps.filter (·.2 = f)).map Prod.fst

theorem PacketFate.group_cons (f : PacketFate) (x : Packet × PacketFate)
    (ps : List (Packet × PacketFate)) :
    f.group (x :: ps) = if x.2 = f then x.1 :: f.group ps else f.group ps := by
  unfold group
  by_cases h : x.2 = f <;> simp [h]

theorem PacketFate.group_append (f : PacketFate) (ps qs : List (Packet × PacketFate)) :
    f.group (ps ++ qs) = f.group ps ++ f.group qs := by
  simp [group]

theorem PacketFate.groups_perm (ps : List (Packet × PacketFate)) :
    (group .tossed ps ++ group .duplicate ps ++ group .dispatched ps ++ group .chunk ps).Perm
      (ps.map Prod.fst) := by
  induction ps with
  | nil => exact .nil
  | cons x ps ih =>
    obtain ⟨p, f⟩ := x
    simp only [group_cons, List.map_cons]
    refine .trans ?_ (ih.cons p)
    cases f <;> grind [List.perm_middle]

namespace DuplicateFilter

def repeats (seen : List PacketId) : List Packet → List Packet
  | [] => []
  | p :: ps => if p.id ∈ seen then p :: repeats seen ps else repeats (p.id :: seen) ps

theorem length_repeats (seen : List PacketId) (ps : List Packet) :
    (repeats seen ps).length = ps.length - (firsts seen ps).length := by
  have h : (repeats seen ps).length + (firsts seen ps).length = ps.length := by
    induction ps generalizing seen with
    | nil => rfl
    | cons p ps ih => grind [repeats, firsts]
  omega

end DuplicateFilter

namespace Packet

open DuplicateFilter

theorem own_cons (self : PeerId) (reliable : Bool) (p : Packet) (ps : List Packet) :
    own self reliable (p :: ps) =
      if p.IsFor self ∧ p.reliable = reliable then p :: own self reliable ps
      else own self reliable ps := by
  simp [own, List.filter_cons]

theorem foreign_cons (self : PeerId) (p : Packet) (ps : List Packet) :
    foreign self (p :: ps) =
      if p.IsFor self then foreign self ps else p :: foreign self ps := by
  by_cases hp : p.IsFor self <;> simp [foreign, hp]

theorem mem_reliableIds_append {self : PeerId} {ps qs : List Packet} {id : PacketId} :
    id ∈ reliableIds self (ps ++ qs) ↔ id ∈ reliableIds self ps ∨ id ∈ reliableIds self qs := by
  simp [reliableIds, own]

theorem mem_reliableIds_singleton {self : PeerId} {p : Packet} {id : PacketId} :
    id ∈ reliableIds self [p] ↔ p.IsFor self ∧ p.reliable ∧ p.id = id := by
  simp [reliableIds, own, and_assoc]

/-- The packets of a datagram in the order in which a transport treats them, after it has seen the
ids `seen`. -/
def treated (self : PeerId) (seen : List PacketId) (ps : List Packet) :
    List (Packet × PacketFate) :=
  (foreign self ps).map (·, .tossed) ++
    (repeats seen (own self true ps)).map (·, .duplicate) ++
      (firsts seen (own self true ps)).map (fun p => (p, p.admission)) ++
        (own self false ps).map fun p => (p, p.admission)

/-- The order in which packets are treated does not change what becomes of them. -/
theorem fates_perm {self : PeerId} {before : List Packet} {seen : List PacketId}
    (h : ∀ id, id ∈ seen ↔ id ∈ reliableIds self before) (ps : List Packet) :
    (fates self before ps).Perm (treated self seen ps) := by
  induction ps generalizing before seen with
  | nil => exact .nil
  | cons p ps ih =>
    -- By cases on the fate of the first packet, which goes to the front of its group.
    have hconcat (id : PacketId) : id ∈ reliableIds self (before ++ [p]) ↔
        id ∈ seen ∨ p.IsFor self ∧ p.reliable ∧ p.id = id := by
      rw [mem_reliableIds_append, mem_reliableIds_singleton, h]
    rw [fates]
    by_cases hp : p.IsFor self
    · cases hr : p.reliable with
      | false =>
        have hfate : p.fate self before = p.admission := by simp [fate, hp, hr]
        have hseen : ∀ id, id ∈ seen ↔ id ∈ reliableIds self (before ++ [p]) := by
          simp [hconcat, hr]
        refine ((ih hseen).cons _).trans ?_
        rw [treated, treated, foreign_cons, own_cons, own_cons, if_pos hp, if_neg (by simp [hr]),
          if_pos ⟨hp, hr⟩, hfate]
        exact List.perm_middle.symm
      | true =>
        by_cases hs : p.id ∈ seen
        · have hfate : p.fate self before = .duplicate := by simp [fate, hp, hr, ← h, hs]
          have hseen : ∀ id, id ∈ seen ↔ id ∈ reliableIds self (before ++ [p]) := by
            grind
          refine ((ih hseen).cons _).trans ?_
          rw [treated, treated, foreign_cons, own_cons, own_cons, if_pos hp, if_pos ⟨hp, hr⟩,
            if_neg (by simp [hr]), repeats, if_pos hs, firsts, if_pos hs, hfate]
          exact (List.perm_middle.symm.append_right _).append_right _
        · have hfate : p.fate self before = p.admission := by simp [fate, hp, hr, ← h, hs]
          have hseen : ∀ id, id ∈ p.id :: seen ↔ id ∈ reliableIds self (before ++ [p]) := by
            grind
          refine ((ih hseen).cons _).trans ?_
          rw [treated, treated, foreign_cons, own_cons, own_cons, if_pos hp, if_pos ⟨hp, hr⟩,
            if_neg (by simp [hr]), repeats, if_neg hs, firsts, if_neg hs, hfate]
          exact List.perm_middle.symm.append_right _
    · have hfate : p.fate self before = .tossed := if_neg hp
      have hseen : ∀ id, id ∈ seen ↔ id ∈ reliableIds self (before ++ [p]) := by
        simp [hconcat, hp]
      refine ((ih hseen).cons _).trans ?_
      simp [treated, foreign_cons, own_cons, hp, hfate]

end Packet

namespace PacketFate

open DuplicateFilter Packet

theorem group_map (f : PacketFate) (g : Packet → PacketFate) (ps : List Packet) :
    f.group (ps.map fun p => (p, g p)) = ps.filter (g · = f) := by
  simp [group, List.filter_map, Function.comp_def]

theorem group_treated (f : PacketFate) (self : PeerId) (seen : List PacketId) (ps : List Packet) :
    f.group (treated self seen ps) =
      match f with
      | .tossed => foreign self ps
      | .duplicate => repeats seen (own self true ps)
      | .dispatched => (firsts seen (own self true ps) ++ own self false ps).filter
          fun p => ¬ p.message.body.Holds Chunk
      | .chunk => (firsts seen (own self true ps) ++ own self false ps).filter
          fun p => p.message.body.Holds Chunk := by
  simp only [treated, group_append, group_map]
  cases f <;> simp

theorem group_perm {self : PeerId} {before : List Packet} {seen : List PacketId}
    (h : ∀ id, id ∈ seen ↔ id ∈ reliableIds self before) (ps : List Packet) (f : PacketFate) :
    (f.group (fates self before ps)).Perm (f.group (treated self seen ps)) :=
  ((fates_perm h ps).filter _).map _

end PacketFate

/-- Chunks are taken as if nothing came between them, and what comes between them is given out. -/
theorem Reassembler.takeAll_filter (r : Reassembler) (now : Nat) (ps : List Packet) :
    (r.takeAll now ps).1 =
        (r.takeAll now (ps.filter fun p => p.message.body.Holds Chunk)).1 ∧
      (r.takeAll now ps).2.Perm
        ((ps.filter fun p => ¬ p.message.body.Holds Chunk).map Packet.message ++
          (r.takeAll now (ps.filter fun p => p.message.body.Holds Chunk)).2) := by
  induction ps generalizing r with
  | nil => exact ⟨rfl, .nil⟩
  | cons p ps ih =>
    by_cases hp : p.message.body.Holds Chunk
    · obtain ⟨hr, ho⟩ := ih (r.take now p.message).1
      simp only [takeAll, hp, List.filter_cons, decide_true, if_true, not_true, decide_false,
        Bool.false_eq_true, if_false]
      exact ⟨hr, (ho.append_left _).trans (List.perm_append_comm_assoc _ _ _)⟩
    · have htake : r.take now p.message = (r, [p.message]) := if_neg hp
      obtain ⟨hr, ho⟩ := ih r
      simp only [takeAll, hp, htake, List.filter_cons, decide_true, if_true, not_false_eq_true,
        decide_false, Bool.false_eq_true, if_false]
      exact ⟨hr, ho.cons _⟩

namespace UdpTransport

def admitted (t : UdpTransport) (d : Directory) (datagram : Bytes) : List Packet :=
  let s := Sorted.ofPayloads d.identity (Datagram.payloads datagram)
  (t.filter.sift s.reliable).2 ++ s.unreliable

def chunks (t : UdpTransport) (d : Directory) (datagram : Bytes) : List Packet :=
  (t.admitted d datagram).filter fun p => p.message.body.Holds Chunk

def completions (t : UdpTransport) (d : Directory) (now : Nat) (datagram : Bytes) :
    List Envelope :=
  (t.reassembler.takeAll now (t.chunks d datagram)).2

variable {self : PeerId} {before : List Packet} {t : UdpTransport} {d : Directory}

theorem chunks_perm (h : ∀ id, id ∈ t.filter.seen ↔ id ∈ Packet.reliableIds self before)
    (hd : d.identity.id = self) (datagram : Bytes) :
    (t.chunks d datagram).Perm (PacketFate.group .chunk
      (Packet.fates self before (Datagram.packets (Datagram.payloads datagram)))) := by
  have hperm := PacketFate.group_perm h (Datagram.packets (Datagram.payloads datagram)) .chunk
  rw [PacketFate.group_treated] at hperm
  rw [chunks, admitted, Sorted.ofPayloads_eq, hd, DuplicateFilter.sift_eq_firsts]
  exact hperm.symm

theorem arrivals_perm (h : ∀ id, id ∈ t.filter.seen ↔ id ∈ Packet.reliableIds self before)
    (hd : d.identity.id = self) (now : Nat) (datagram : Bytes) (source : SocketAddress) :
    (t.receive d now datagram source).arrivals.Perm
      ((PacketFate.group .dispatched (Packet.fates self before
        (Datagram.packets (Datagram.payloads datagram)))).map Packet.message ++
          t.completions d now datagram) := by
  have hperm := PacketFate.group_perm h (Datagram.packets (Datagram.payloads datagram)) .dispatched
  rw [PacketFate.group_treated] at hperm
  rw [(t.receive_handles d now datagram source).arrivals]
  refine (t.reassembler.takeAll_filter now _).2.trans (.append_right _ ?_)
  rw [Sorted.ofPayloads_eq, hd, DuplicateFilter.sift_eq_firsts]
  exact (hperm.map _).symm

theorem mem_seen_receive (t : UdpTransport) (d : Directory) (now : Nat) (datagram : Bytes)
    (source : SocketAddress) (id : PacketId) :
    id ∈ (t.receive d now datagram source).transport.filter.seen ↔ id ∈ t.filter.seen ∨
      id ∈ Packet.reliableIds d.identity.id (Datagram.packets (Datagram.payloads datagram)) := by
  obtain ⟨_, _, _, _, hr⟩ := (t.receive_handles d now datagram source).transport
  rw [hr]
  simp only [DuplicateFilter.mem_seen_sift, Sorted.ofPayloads_eq, Packet.reliableIds]

def Act.IsOf (self : PeerId) : Act → Prop
  | .receive d _ _ => d.identity.id = self
  | _ => True

def Act.datagram? : Act → Option Bytes
  | .receive _ datagram _ => some datagram
  | _ => none

theorem act_counts (t : UdpTransport) (now : Nat) {a : Act}
    (ha : ∀ d datagram source, a ≠ .receive d datagram source) :
    (t.act now a).filter = t.filter ∧ (t.act now a).statistics = t.statistics := by
  have hsettled (hs : a.IsSettled) :
      (t.act now a).filter = t.filter ∧ (t.act now a).statistics = t.statistics := by
    obtain ⟨_, _, _, _, _, h⟩ := t.act_eq now hs
    rw [h]
    exact ⟨rfl, rfl⟩
  cases a with
  | receive d datagram source => exact absurd rfl (ha d datagram source)
  | forgetPeers d => exact ⟨rfl, rfl⟩
  | shutDown d => exact ⟨rfl, rfl⟩
  | _ => exact hsettled trivial

end UdpTransport

/-- A transport with what it has received and handed on so far. -/
structure Tally where
  transport : UdpTransport
  received : List Bytes := []
  chunks : List Packet := []
  completed : List Envelope := []
  arrivals : List Envelope := []

namespace Tally

def step (x : Tally) (now : Nat) : UdpTransport.Act → Tally
  | .receive d datagram source =>
    { transport := x.transport.act now (.receive d datagram source)
      received := x.received ++ [datagram]
      chunks := x.chunks ++ x.transport.chunks d datagram
      completed := x.completed ++ x.transport.completions d now datagram
      arrivals := x.arrivals ++ (x.transport.receive d now datagram source).arrivals }
  | a => { x with transport := x.transport.act now a }

def run (t : UdpTransport) (acts : List (Nat × UdpTransport.Act)) : Tally :=
  acts.foldl (fun x a => x.step a.1 a.2) { transport := t }

theorem transport_step (x : Tally) (now : Nat) (a : UdpTransport.Act) :
    (x.step now a).transport = x.transport.act now a := by
  cases a <;> rfl

theorem received_step (x : Tally) (now : Nat) (a : UdpTransport.Act) :
    (x.step now a).received = x.received ++ a.datagram?.toList := by
  cases a with
  | receive d datagram source => rfl
  | _ => exact (List.append_nil _).symm

theorem transport_run (t : UdpTransport) (acts : List (Nat × UdpTransport.Act)) :
    (run t acts).transport = acts.foldl (fun t a => t.act a.1 a.2) t :=
  (List.foldl_hom Tally.transport fun x a => (x.transport_step a.1 a.2).symm).symm

theorem received_run (t : UdpTransport) (acts : List (Nat × UdpTransport.Act)) :
    (run t acts).received = acts.filterMap (·.2.datagram?) := by
  have hsteps (x : Tally) : (acts.foldl (fun x a => x.step a.1 a.2) x).received =
      x.received ++ acts.filterMap (·.2.datagram?) := by
    induction acts generalizing x with
    | nil => exact (List.append_nil _).symm
    | cons a acts ih =>
      rw [List.foldl_cons, ih, received_step, List.append_assoc, List.filterMap_cons]
      cases a.2.datagram? <;> rfl
  exact hsteps { transport := t }

def packets (x : Tally) : List Packet :=
  x.received.flatMap fun datagram => Datagram.packets (Datagram.payloads datagram)

def group (self : PeerId) (f : PacketFate) (x : Tally) : List Packet :=
  f.group (Packet.fates self [] x.packets)

/-- The transport has counted what became of the packets, and has handed on what it should. -/
structure Balances (node : PeerId) (x : Tally) : Prop where
  seen : ∀ id, id ∈ x.transport.filter.seen ↔ id ∈ Packet.reliableIds node x.packets
  statistics : x.transport.statistics =
    { datagrams := x.received.length
      malformed := x.received.countP (Datagram.IsMalformed ·)
      tossed := (x.group node .tossed).length
      duplicates := (x.group node .duplicate).length
      dispatched := x.arrivals.length }
  chunks : x.chunks.Perm (x.group node .chunk)
  arrivals :
    x.arrivals.Perm ((x.group node .dispatched).map Packet.message ++ x.completed)

variable {self : PeerId} {x : Tally}

theorem balances_start (config : UdpConfig) (link : Link) (ids : IdSource) (now : Nat) :
    Balances self { transport := .start config link ids now } :=
  ⟨fun _ => iff_of_false List.not_mem_nil List.not_mem_nil, rfl, .nil, .nil⟩

theorem packets_step_receive (x : Tally) (now : Nat) (d : Directory) (datagram : Bytes)
    (source : SocketAddress) : (x.step now (.receive d datagram source)).packets =
      x.packets ++ Datagram.packets (Datagram.payloads datagram) := by
  simp [packets, step]

theorem group_step_receive (x : Tally) (f : PacketFate) (now : Nat) (d : Directory)
    (datagram : Bytes) (source : SocketAddress) :
    (x.step now (.receive d datagram source)).group self f = x.group self f ++
      f.group (Packet.fates self x.packets (Datagram.packets (Datagram.payloads datagram))) := by
  rw [group, packets_step_receive, Packet.fates_append, PacketFate.group_append, List.nil_append]
  rfl

theorem Balances.receive (h : x.Balances self) {d : Directory} (hd : d.identity.id = self)
    (now : Nat) (datagram : Bytes) (source : SocketAddress) :
    (x.step now (.receive d datagram source)).Balances self where
  seen id := by
    rw [packets_step_receive, Packet.mem_reliableIds_append, ← h.seen, ← hd]
    exact x.transport.mem_seen_receive d now datagram source id
  statistics := by
    have hperm := PacketFate.group_perm h.seen (Datagram.packets (Datagram.payloads datagram))
    refine (x.transport.statistics_receive d now datagram source).trans ?_
    rw [h.statistics, hd]
    simp only [UdpStatistics.mk.injEq]
    refine ⟨?_, ?_, ?_, ?_, ?_⟩
    · simp [step]
    · simp [step, List.countP_append, List.countP_singleton]
    · rw [group_step_receive, List.length_append, (hperm .tossed).length_eq,
        PacketFate.group_treated]
    · rw [group_step_receive, List.length_append, (hperm .duplicate).length_eq,
        PacketFate.group_treated, DuplicateFilter.length_repeats]
    · simp [step]
  chunks := by
    rw [group_step_receive]
    exact h.chunks.append (UdpTransport.chunks_perm h.seen hd datagram)
  arrivals := by
    have hswap (as bs cs ds : List Envelope) :
        (as ++ bs ++ (cs ++ ds)).Perm (as ++ cs ++ (bs ++ ds)) := by
      simp only [List.append_assoc]
      exact (List.perm_append_comm_assoc bs cs ds).append_left as
    rw [group_step_receive, List.map_append]
    exact (h.arrivals.append (UdpTransport.arrivals_perm h.seen hd now datagram source)).trans
      (hswap _ _ _ _)

theorem Balances.rest (h : x.Balances self) (now : Nat) {a : UdpTransport.Act}
    (ha : ∀ d datagram source, a ≠ .receive d datagram source) : (x.step now a).Balances self := by
  obtain ⟨hfilter, hstatistics⟩ := x.transport.act_counts now ha
  have hstep : x.step now a = { x with transport := x.transport.act now a } := by
    cases a with
    | receive d datagram source => exact absurd rfl (ha d datagram source)
    | _ => rfl
  rw [hstep]
  exact ⟨fun id => by rw [hfilter]; exact h.seen id, hstatistics.trans h.statistics, h.chunks,
    h.arrivals⟩

theorem Balances.step (h : x.Balances self) (now : Nat) {a : UdpTransport.Act}
    (ha : a.IsOf self) : (x.step now a).Balances self := by
  cases a with
  | receive d datagram source => exact h.receive ha now datagram source
  | _ => exact h.rest now nofun

theorem Balances.steps (h : x.Balances self) {acts : List (Nat × UdpTransport.Act)}
    (ha : ∀ a ∈ acts, a.2.IsOf self) :
    (acts.foldl (fun x a => x.step a.1 a.2) x).Balances self := by
  induction acts generalizing x with
  | nil => exact h
  | cons a acts ih =>
    obtain ⟨ha, hacts⟩ := List.forall_mem_cons.mp ha
    exact ih (h.step a.1 ha) hacts

/-- Whatever a transport of the node `self` does, no datagram and no packet is lost or counted
twice. -/
theorem balance (config : UdpConfig) (link : Link) (ids : IdSource) (now : Nat)
    {acts : List (Nat × UdpTransport.Act)} (ha : ∀ a ∈ acts, a.2.IsOf self) :
    let x := run (.start config link ids now) acts
    let s := x.transport.statistics
    x.transport = acts.foldl (fun t a => t.act a.1 a.2) (.start config link ids now) ∧
      x.received = acts.filterMap (·.2.datagram?) ∧
      s =
        { datagrams := x.received.length
          malformed := x.received.countP (Datagram.IsMalformed ·)
          tossed := (x.group self .tossed).length
          duplicates := (x.group self .duplicate).length
          dispatched := (x.group self .dispatched).length + x.completed.length } ∧
      x.chunks.Perm (x.group self .chunk) ∧
      x.arrivals.Perm ((x.group self .dispatched).map Packet.message ++ x.completed) ∧
      (x.group self .tossed ++ x.group self .duplicate ++ x.group self .dispatched ++
        x.group self .chunk).Perm x.packets ∧
      x.packets.length =
        s.tossed + s.duplicates + (x.group self .dispatched).length + x.chunks.length ∧
      ∀ datagram, Datagram.IsMalformed datagram → ∀ d now source,
        x.transport.receive d now datagram source =
          { transport :=
              { x.transport with
                statistics.datagrams := s.datagrams + 1
                statistics.malformed := s.malformed + 1 }
            directory := d } := by
  intro x s
  have hx : x.Balances self := (balances_start config link ids now).steps ha
  have hdispatched := hx.arrivals.length_eq
  rw [List.length_append, List.length_map] at hdispatched
  have hs : s = _ := hx.statistics
  rw [hdispatched] at hs
  have hgroups := PacketFate.groups_perm (Packet.fates self [] x.packets)
  rw [Packet.map_fst_fates] at hgroups
  refine ⟨transport_run _ acts, received_run _ acts, hs, hx.chunks, hx.arrivals, hgroups, ?_,
    fun datagram hm d now source => UdpTransport.receive_of_isMalformed hm x.transport d now source⟩
  have hpackets := hgroups.length_eq
  simp only [List.length_append] at hpackets
  rw [hs, hx.chunks.length_eq, ← hpackets]
  rfl

def repeatedDatagrams : List (Nat × UdpTransport.Act) :=
  let d : Directory := { identity := { id := ⟨1⟩, name := "first" } }
  let source : SocketAddress := ⟨.v4 0x0a000002, 21337, 0⟩
  let chunk : Chunk := ⟨⟨4⟩, 0, 1, 9, Body.encode ⟨⟨7⟩, []⟩⟩
  let packet : Payload := .packet ⟨⟨8⟩, ⟨2⟩, ⟨1⟩, false, ⟨⟨2⟩, ⟨1⟩, .of chunk⟩⟩
  let mixed := UdpTransport.mixedPayloads
  [(9, .receive d (Datagram.encode mixed) source), (10, .receive d [255] source), (11, .prune 0),
    (12, .receive d (Datagram.encode (packet :: mixed)) source)]

theorem balance_repeatedDatagrams :
    let x := run (.start {} { port := 4000, fault := fun _ _ => none } (.numbered 0 100) 0)
      repeatedDatagrams
    (∀ a ∈ repeatedDatagrams, a.2.IsOf ⟨1⟩) ∧ x.transport.statistics =
      { datagrams := 3, malformed := 1, tossed := 2, duplicates := 3, dispatched := 4 } ∧
      x.packets.length = 2 + 3 + 3 + 1 := by
  intro x
  have ha : ∀ a ∈ repeatedDatagrams, a.2.IsOf ⟨1⟩ := by
    simp [repeatedDatagrams, UdpTransport.Act.IsOf]
  obtain ⟨-, -, hs, -⟩ :=
    balance {} { port := 4000, fault := fun _ _ => none } (.numbered 0 100) 0 ha
  refine ⟨ha, hs.trans ?_, ?_⟩
  · decide +kernel
  · decide +kernel

end Tally

end PeerMesh

import Mathlib.Data.Finset.Basic
import Mathlib.Data.List.Induction
import PeerMesh.Proofs.Sending
import PeerMesh.Proofs.Sends

namespace PeerMesh

structure Station where
  transport : UdpTransport
  directory : Directory
  sent : List (ReliableSend × List Ticket) := []
  /-- The datagrams that were received, each with the messages that it brought to an end. -/
  received : List (Bytes × List Envelope) := []
  /-- The ids of the messages of which some chunks were discarded. -/
  discarded : List MultiPartId := []

inductive Act where
  | send (message : Envelope) (endpoint : EndpointId) (now : Nat)
  | receive (datagram : Bytes) (source : SocketAddress) (now : Nat)
  | announce (now : Nat)
  | tick (now : Nat)
  | prune (now maxAge : Nat)

namespace Station

def start (config : UdpConfig) (link : Link) (ids : IdSource) (directory : Directory) (now : Nat) :
    Station where
  transport := .start config link.cleared ids now
  directory := directory

/-- Keeps track of the incomplete messages that are gone after a change of the transport. -/
def discarding (x : Station) (t : UdpTransport) : Station :=
  { x with
    transport := t
    discarded := x.discarded ++ x.transport.reassembler.lost t.reassembler }

def step (x : Station) : Act → Station
  | .send message endpoint now =>
    let sender := x.directory.identity.id
    let s : ReliableSend := ⟨message, sender, x.transport.config.maxDatagram, x.transport.ids⟩
    let (transport, tickets) := x.transport.sendReliable sender endpoint message now
    { x with transport, sent := x.sent ++ [(s, tickets)] }
  | .receive datagram source now =>
    let r := x.transport.receive x.directory now datagram source
    { x with
      transport := r.transport
      directory := r.directory
      received := x.received ++ [(datagram, r.arrivals)] }
  | .announce now => { x with transport := x.transport.announceDue x.directory.identity now }
  | .tick now => x.discarding (x.transport.resendDue now)
  | .prune now maxAge => x.discarding (x.transport.prune now maxAge)

def run (x : Station) (acts : List Act) : Station :=
  acts.foldl step x

theorem discarding_self (x : Station) : x.discarding x.transport = x := by
  rw [discarding, Reassembler.lost_self, List.append_nil]

theorem step_send (x : Station) (message : Envelope) (endpoint : EndpointId) (now : Nat)
    (s : ReliableSend) (hs : s = ⟨message, x.directory.identity.id,
      x.transport.config.maxDatagram, x.transport.ids⟩) :
    ∃ ids, ∃ link : Link, x.step (.send message endpoint now) =
        { x with
          transport :=
            { x.transport with
              outbox := x.transport.outbox.expectAll now endpoint s.packets, ids, link }
          sent := x.sent ++
            [(s, List.range' x.transport.outbox.nextTicket s.packets.length)] } ∧
      link.datagrams = x.transport.link.datagrams ++ s.datagrams := by
  obtain ⟨ids, link, he, hl⟩ := x.transport.sendReliable_eq x.directory.identity.id endpoint
    message now s.packets (by rw [hs]; rfl)
  refine ⟨ids, link, ?_, hl⟩
  rw [step]
  simp only [he, hs]

theorem step_announce (x : Station) (now : Nat) : ∃ schedule, ∃ link : Link,
    x.step (.announce now) = { x with transport := { x.transport with schedule, link } } ∧
      ∀ d ∈ link.datagrams, d ∈ x.transport.link.datagrams ∨
        d = (Payload.announcement x.directory.identity).encode := by
  obtain ⟨schedule, link, he, hl⟩ := x.transport.announceDue_eq x.directory.identity now
  refine ⟨schedule, link, ?_, hl⟩
  rw [step, he]

theorem step_tick (x : Station) (now : Nat) : x.step (.tick now) = x ∨
    ∃ schedule, ∃ link : Link,
      x.step (.tick now) = x.discarding
        { x.transport with
          outbox := (x.transport.outbox.due now x.transport.config.resendInterval).1
          reassembler := x.transport.reassembler.prune now x.transport.config.multiPartTimeout
          schedule, link } ∧
      link.datagrams = x.transport.link.datagrams ++
        (x.transport.outbox.due now x.transport.config.resendInterval).2.map Resend.datagram := by
  obtain he | ⟨schedule, link, he, hl⟩ := x.transport.resendDue_eq now
  · rw [step, he, discarding_self]
    exact .inl rfl
  · refine .inr ⟨schedule, link, ?_, hl⟩
    rw [step, he]

structure Extends (later x : Station) : Prop where
  sent : x.sent <+: later.sent
  received : x.received <+: later.received
  identity : later.directory.identity = x.directory.identity
  config : later.transport.config = x.transport.config

theorem Extends.trans {x y z : Station} (hz : z.Extends y) (hy : y.Extends x) : z.Extends x :=
  ⟨hy.sent.trans hz.sent, hy.received.trans hz.received, hz.identity.trans hy.identity,
    hz.config.trans hy.config⟩

theorem step_extends (x : Station) (a : Act) : (x.step a).Extends x := by
  cases a with
  | send message endpoint now =>
    obtain ⟨_, _, hx, -⟩ := x.step_send message endpoint now _ rfl
    rw [hx]
    exact ⟨List.prefix_append _ _, List.prefix_rfl, rfl, rfl⟩
  | receive d source now =>
    obtain ⟨⟨_, _, _, _, ht⟩, hi, -, -⟩ := x.transport.receive_handles x.directory now d source
    exact ⟨List.prefix_rfl, List.prefix_append _ _, hi,
      (congrArg UdpTransport.config ht).trans rfl⟩
  | announce now =>
    obtain ⟨_, _, hx, -⟩ := x.step_announce now
    rw [hx]
    exact ⟨List.prefix_rfl, List.prefix_rfl, rfl, rfl⟩
  | tick now =>
    obtain hx | ⟨_, _, hx, -⟩ := x.step_tick now
    all_goals rw [hx]
    all_goals exact ⟨List.prefix_rfl, List.prefix_rfl, rfl, rfl⟩
  | prune now maxAge => exact ⟨List.prefix_rfl, List.prefix_rfl, rfl, rfl⟩

def arrived (x : Station) (s : ReliableSend) : Finset Nat :=
  (Finset.range s.count).filter fun k => (s.packet k).datagram ∈ x.received.map Prod.fst

def handed (x : Station) (s : ReliableSend) : List Envelope :=
  (x.received.filter fun y => y.1 ∈ s.datagrams).flatMap Prod.snd

/-- The station discarded chunks of the message of a send while others were missing. -/
def HasDiscarded (x : Station) (s : ReliableSend) : Prop :=
  s.IsSplit ∧ s.transfer.id ∈ x.discarded

instance (x : Station) (s : ReliableSend) : Decidable (x.HasDiscarded s) :=
  inferInstanceAs (Decidable (_ ∧ _))

variable {x : Station} {s : ReliableSend}

theorem mem_arrived {k : Nat} :
    k ∈ x.arrived s ↔ k < s.count ∧ (s.packet k).datagram ∈ x.received.map Prod.fst := by
  rw [arrived, Finset.mem_filter, Finset.mem_range]

theorem arrived_subset : x.arrived s ⊆ Finset.range s.count :=
  Finset.filter_subset _ _

theorem arrived_eq_range_iff :
    x.arrived s = Finset.range s.count ↔ ∀ d ∈ s.datagrams, d ∈ x.received.map Prod.fst := by
  rw [arrived, Finset.filter_eq_self]
  simp only [Finset.mem_range, ReliableSend.mem_datagrams]
  constructor
  · rintro h _ ⟨k, hk, rfl⟩
    exact h k hk
  · exact fun h k hk => h _ ⟨k, hk, rfl⟩

/-- What a station knows of a send. The packet ids that it has seen are those of the packets that
it received, and of the chunks among them it keeps all unless it has discarded some, which it then
never makes up for. -/
structure Tracks (x : Station) (s : ReliableSend) : Prop where
  seen : ∀ k < s.count, (s.packet k).id ∈ x.transport.filter.seen ↔ k ∈ x.arrived s
  kept : ∃ kept ⊆ x.arrived s,
    (s.IsSplit → x.transport.reassembler.Stage s.transfer kept) ∧
      x.handed s = (if kept = Finset.range s.count then [s.message] else []) ∧
      (kept = x.arrived s ↔ ¬ x.HasDiscarded s)

namespace Tracks

theorem handed_eq (h : x.Tracks s) : x.handed s =
    if x.arrived s = Finset.range s.count ∧ ¬ x.HasDiscarded s then [s.message] else [] := by
  obtain ⟨kept, hsub, _, hh, hiff⟩ := h.kept
  have hk : kept = Finset.range s.count ↔
      x.arrived s = Finset.range s.count ∧ ¬ x.HasDiscarded s := by
    rw [← hiff]
    constructor
    · rintro rfl
      have ha := Finset.Subset.antisymm hsub arrived_subset
      exact ⟨ha.symm, ha⟩
    · rintro ⟨ha, he⟩
      exact he.trans ha
  simp only [hh, hk]

theorem handed_iff (h : x.Tracks s) : x.handed s = [s.message] ↔
    ¬ x.HasDiscarded s ∧ ∀ d ∈ s.datagrams, d ∈ x.received.map Prod.fst := by
  rw [h.handed_eq]
  by_cases hc : x.arrived s = Finset.range s.count ∧ ¬ x.HasDiscarded s
  · rw [if_pos hc]
    exact iff_of_true rfl ⟨hc.2, arrived_eq_range_iff.mp hc.1⟩
  · rw [if_neg hc]
    exact iff_of_false (List.cons_ne_nil _ _).symm
      fun h => hc ⟨arrived_eq_range_iff.mpr h.2, h.1⟩

theorem handed_cases (h : x.Tracks s) : x.handed s = [] ∨ x.handed s = [s.message] := by
  rw [h.handed_eq]
  split
  · exact .inr rfl
  · exact .inl rfl

theorem congr {x' : Station} (h : x.Tracks s) (hf : x'.transport.filter = x.transport.filter)
    (hr : x'.transport.reassembler = x.transport.reassembler) (hv : x'.received = x.received)
    (hd : x'.discarded = x.discarded) : x'.Tracks s := by
  have ha : x'.arrived s = x.arrived s := by rw [arrived, hv, arrived]
  have hh : x'.handed s = x.handed s := by rw [handed, hv, handed]
  have hg : x'.HasDiscarded s ↔ x.HasDiscarded s := by rw [HasDiscarded, hd, HasDiscarded]
  obtain ⟨kept, hk⟩ := h.kept
  refine ⟨?_, kept, ?_⟩
  · rw [hf, ha]
    exact h.seen
  · rwa [hr, ha, hh, hg]

end Tracks

theorem Tracks.discarding (h : x.Tracks s) (hd : s.Deliverable) {t : UdpTransport}
    (hf : t.filter = x.transport.filter) {now maxAge : Nat}
    (hr : t.reassembler = x.transport.reassembler.prune now maxAge) :
    (x.discarding t).Tracks s := by
  obtain ⟨kept, hsub, hstage, hh, hiff⟩ := h.kept
  refine ⟨?_, ?_⟩
  · show ∀ k < s.count, (s.packet k).id ∈ t.filter.seen ↔ k ∈ x.arrived s
    rw [hf]
    exact h.seen
  · by_cases hs : s.IsSplit
    · have hg : (x.discarding t).HasDiscarded s ↔ x.HasDiscarded s ∨ s.transfer.id ∈
          x.transport.reassembler.lost (x.transport.reassembler.prune now maxAge) := by
        rw [← hr]
        simp [HasDiscarded, Station.discarding, hs]
      obtain ⟨hl, hp⟩ | ⟨hl, hp, hne, hnr⟩ := (hstage hs).prune now maxAge
      · refine ⟨kept, hsub, fun _ => ?_, hh, ?_⟩
        · show t.reassembler.Stage s.transfer kept
          rwa [hr]
        · rw [hg, or_iff_left hl]
          exact hiff
      · have hc := ReliableSend.count_of_isSplit hs
        have he : ∅ ≠ Finset.range s.count :=
          (Finset.nonempty_range_iff.mpr hd.count_pos.ne').ne_empty.symm
        have ha : ∅ ≠ x.arrived s := (hne.mono hsub).ne_empty.symm
        refine ⟨∅, Finset.empty_subset _, fun _ => ?_, ?_, ?_⟩
        · show t.reassembler.Stage s.transfer ∅
          rwa [hr]
        · rw [if_neg he]
          rw [hc, if_neg hnr] at hh
          exact hh
        · rw [hg]
          exact iff_of_false ha fun hn => hn (.inr hl)
    · refine ⟨kept, hsub, fun hs' => absurd hs' hs, hh, hiff.trans (not_congr ?_)⟩
      exact iff_of_false (fun h => hs h.1) fun h => hs h.1

theorem arrived_receive_own (hd : s.Deliverable) (hn : s.packetIds.Nodup) {k : Nat}
    (hk : k < s.count) (source : SocketAddress) (now : Nat) :
    (x.step (.receive (s.packet k).datagram source now)).arrived s = insert k (x.arrived s) := by
  ext j
  simp only [mem_arrived, step, List.map_append, List.map_cons, List.map_nil, List.mem_append,
    List.mem_singleton, Finset.mem_insert]
  constructor
  · rintro ⟨hj, hm | hm⟩
    · exact .inr ⟨hj, hm⟩
    · exact .inl ((hd.datagram_eq_iff hn hj hk).mp hm)
  · rintro (rfl | ⟨hj, hm⟩)
    · exact ⟨hk, .inr rfl⟩
    · exact ⟨hj, .inl hm⟩

theorem handed_receive (d : Bytes) (source : SocketAddress) (now : Nat) :
    (x.step (.receive d source now)).handed s =
      x.handed s ++ if d ∈ s.datagrams then
        (x.transport.receive x.directory now d source).arrivals else [] := by
  simp only [handed, step, List.filter_append, List.flatMap_append]
  by_cases h : d ∈ s.datagrams
  · simp [h]
  · simp [h]

/-- A packet of the send that was not received before makes up for its chunk, and it brings the
message to an end if no other is missing. -/
theorem take_part (hd : s.Deliverable) {r : Reassembler} {kept : Finset Nat} (now : Nat) {k : Nat}
    (hk : k < s.count) (hkept : kept ⊆ Finset.range s.count) (hnew : k ∉ kept)
    (hs : s.IsSplit → r.Stage s.transfer kept) :
    (s.IsSplit → (r.take now (s.part k)).1.Stage s.transfer (insert k kept)) ∧
      (r.take now (s.part k)).2 =
        if insert k kept = Finset.range s.count then [s.message] else [] := by
  by_cases hsplit : s.IsSplit
  · have hv := hd.valid hsplit
    have hc := ReliableSend.count_of_isSplit hsplit
    obtain ⟨hstage, hgiven⟩ := (hs hsplit).accept_own hv now (hc ▸ hk)
    have hp : s.part k = s.transfer.carrier k := if_pos hsplit
    rw [hp, Reassembler.take_of_read (hv.read_carrier k)]
    refine ⟨fun _ => hstage, ?_⟩
    rw [hc, hgiven]
    by_cases hr : insert k kept = Finset.range s.transfer.count
    · rw [if_pos ⟨hnew, hr⟩, if_pos hr]
      rfl
    · rw [if_neg fun h => hr h.2, if_neg hr]
      rfl
  · have hp : s.part k = s.message := if_neg hsplit
    have hc := ReliableSend.count_of_not_split hsplit
    have hr : insert k kept = Finset.range s.count := by
      refine Finset.Subset.antisymm
        (Finset.insert_subset (Finset.mem_range.mpr hk) hkept) fun j hj => ?_
      rw [hc] at hk hj
      have hj := Finset.mem_range.mp hj
      obtain rfl : j = k := by omega
      exact Finset.mem_insert_self j kept
    rw [hp, Reassembler.take, if_neg hd.whole, if_pos hr]
    exact ⟨fun h => absurd h hsplit, rfl⟩

theorem step_receive_own (ho : chunkOverhead < s.max) (hm : s.message.body.FitsMemory)
    (hr : x.directory.identity.isReceiver s.message.receiver) {k : Nat} (hk : k < s.count)
    (source : SocketAddress) (now : Nat) (y : Station)
    (hy : y = x.step (.receive (s.packet k).datagram source now)) :
    (s.packet k).id ∈ x.transport.filter.seen ∧
        y.transport.filter = x.transport.filter ∧
        y.transport.reassembler = x.transport.reassembler ∧ y.handed s = x.handed s ∨
      (s.packet k).id ∉ x.transport.filter.seen ∧
        y.transport.filter.seen = (s.packet k).id :: x.transport.filter.seen ∧
        y.transport.reassembler = (x.transport.reassembler.take now (s.part k)).1 ∧
        y.handed s = x.handed s ++ (x.transport.reassembler.take now (s.part k)).2 := by
  obtain ⟨⟨_, _, _, _, ht⟩, -, ha, -⟩ :=
    x.transport.receive_handles x.directory now (s.packet k).datagram source
  rw [s.payloads_datagram ho hm k, Sorted.ofPayloads_packet hr rfl] at ht ha
  dsimp only at ht ha
  rw [List.append_nil, DuplicateFilter.sift_singleton] at ht ha
  have hhand := handed_receive (x := x) (s := s) (s.packet k).datagram source now
  rw [if_pos (ReliableSend.mem_datagrams.mpr ⟨k, hk, rfl⟩), ha] at hhand
  have hstep : y.transport =
      (x.transport.receive x.directory now (s.packet k).datagram source).transport := by
    rw [hy]
    rfl
  rw [hstep, ht, hy, hhand]
  by_cases hseen : (s.packet k).id ∈ x.transport.filter.seen
  · rw [if_pos hseen, Reassembler.takeAll_nil, List.append_nil]
    exact .inl ⟨hseen, rfl, rfl, rfl⟩
  · rw [if_neg hseen, Reassembler.takeAll_singleton]
    exact .inr ⟨hseen, rfl, rfl, rfl⟩

theorem receive_frame {d : Bytes} {id : MultiPartId}
    (hd : ∀ p, .packet p ∈ Datagram.payloads d → ∀ c, p.message.body.read Chunk = .ok c → c.id ≠ id)
    (source : SocketAddress) (now : Nat) :
    (x.step (.receive d source now)).transport.reassembler.inProgress.get? id =
        x.transport.reassembler.inProgress.get? id ∧
      (id ∈ (x.step (.receive d source now)).transport.reassembler.completed ↔
        id ∈ x.transport.reassembler.completed) := by
  obtain ⟨⟨_, _, _, _, ht⟩, -, -, -⟩ := x.transport.receive_handles x.directory now d source
  show _ ∧ (id ∈ (x.transport.receive x.directory now d source).transport.reassembler.completed ↔ _)
  rw [step, ht]
  refine x.transport.reassembler.takeAll_frame now fun p hp => ?_
  obtain hp | hp := List.mem_append.mp hp
  · exact hd p (Sorted.mem_reliable.mp (DuplicateFilter.sift_subset _ _ hp)).1
  · exact hd p (Sorted.mem_unreliable.mp hp).1

theorem step_receive_foreign (ho : chunkOverhead < s.max) (hm : s.message.body.FitsMemory)
    {d : Bytes} (hf : ∀ p ∈ Datagram.payloads d, s.Foreign p) (source : SocketAddress) (now : Nat)
    (y : Station) (hy : y = x.step (.receive d source now)) :
    y.arrived s = x.arrived s ∧ y.handed s = x.handed s ∧
      (∀ k < s.count, (s.packet k).id ∈ y.transport.filter.seen ↔
        (s.packet k).id ∈ x.transport.filter.seen) ∧
      (s.IsSplit →
        y.transport.reassembler.inProgress.get? s.transfer.id =
            x.transport.reassembler.inProgress.get? s.transfer.id ∧
          (s.transfer.id ∈ y.transport.reassembler.completed ↔
            s.transfer.id ∈ x.transport.reassembler.completed)) := by
  obtain ⟨⟨_, _, _, _, ht⟩, -, -, -⟩ := x.transport.receive_handles x.directory now d source
  have hd : d ∉ s.datagrams := by
    intro hmem
    obtain ⟨k, hk, rfl⟩ := ReliableSend.mem_datagrams.mp hmem
    rw [s.payloads_datagram ho hm k] at hf
    exact (hf _ List.mem_cons_self).1 (ReliableSend.mem_packetIds.mpr ⟨k, hk, rfl⟩)
  have hstep : y.transport = (x.transport.receive x.directory now d source).transport := by
    rw [hy]
    rfl
  refine ⟨?_, ?_, fun k hk => ?_, fun hs => ?_⟩
  · rw [hy]
    ext k
    simp only [mem_arrived, step, List.map_append, List.map_cons, List.map_nil, List.mem_append,
      List.mem_singleton]
    refine and_congr_right fun hk => or_iff_left fun he => hd ?_
    exact ReliableSend.mem_datagrams.mpr ⟨k, hk, he⟩
  · rw [hy, handed_receive, if_neg hd, List.append_nil]
  · rw [hstep, ht, DuplicateFilter.mem_seen_sift]
    refine or_iff_left fun hmem => ?_
    obtain ⟨p, hp, he⟩ := List.mem_map.mp hmem
    have hp := hf _ (Sorted.mem_reliable.mp hp).1
    exact hp.1 (he ▸ ReliableSend.mem_packetIds.mpr ⟨k, hk, rfl⟩)
  · rw [hy]
    exact receive_frame (fun p hp => (hf _ hp).2 hs) source now

theorem Tracks.receive_own (h : x.Tracks s) (hd : s.Deliverable) (hn : s.packetIds.Nodup)
    (hr : x.directory.identity.isReceiver s.message.receiver) {k : Nat} (hk : k < s.count)
    (source : SocketAddress) (now : Nat) :
    (x.step (.receive (s.packet k).datagram source now)).Tracks s := by
  obtain ⟨kept, hsub, hstage, hh, hiff⟩ := h.kept
  have harr := arrived_receive_own (x := x) hd hn hk source now
  obtain ⟨hseen, hf, hra, hhand⟩ | ⟨hseen, hf, hra, hhand⟩ :=
    step_receive_own (x := x) hd.overhead hd.memory hr hk source now _ rfl
  -- The filter drops a packet that was received before, even if its chunk is discarded by now.
  · rw [Finset.insert_eq_of_mem ((h.seen k hk).mp hseen)] at harr
    refine ⟨?_, kept, harr ▸ hsub, fun hs => ?_, hhand.trans hh, ?_⟩
    · rw [harr, hf]
      exact h.seen
    · rw [hra]
      exact hstage hs
    · rw [harr]
      exact hiff
  -- A new packet is kept and counts as received, so that what is missing stays the same.
  · have hm : k ∉ x.arrived s := fun hm => hseen ((h.seen k hk).mpr hm)
    have hnew : k ∉ kept := fun hk => hm (hsub hk)
    have hne : kept ≠ Finset.range s.count := fun he => hnew (he ▸ Finset.mem_range.mpr hk)
    obtain ⟨htake, hgiven⟩ := take_part hd now hk (hsub.trans arrived_subset) hnew hstage
    rw [hh, if_neg hne, List.nil_append] at hhand
    refine ⟨fun j hj => ?_, insert k kept, ?_, fun hs => ?_, hhand.trans hgiven, ?_⟩
    · rw [harr, hf, Finset.mem_insert, ← h.seen j hj]
      refine List.mem_cons.trans (or_congr_left ⟨ReliableSend.eq_of_packet_id hn hj hk, ?_⟩)
      rintro rfl
      rfl
    · rw [harr]
      exact Finset.insert_subset_insert k hsub
    · rw [hra]
      exact htake hs
    · rw [harr]
      refine Iff.trans ⟨fun he => ?_, congrArg (insert k)⟩ hiff
      rw [← Finset.erase_insert hnew, he, Finset.erase_insert hm]

theorem Tracks.receive_foreign (h : x.Tracks s) (hd : s.Deliverable) {d : Bytes}
    (hf : ∀ p ∈ Datagram.payloads d, s.Foreign p) (source : SocketAddress) (now : Nat) :
    (x.step (.receive d source now)).Tracks s := by
  obtain ⟨kept, hsub, hstage, hh, hiff⟩ := h.kept
  obtain ⟨harr, hhand, hseen, hframe⟩ :=
    step_receive_foreign (x := x) hd.overhead hd.memory hf source now _ rfl
  refine ⟨fun k hk => ?_, kept, harr ▸ hsub, fun hs => ?_, hhand.trans hh, ?_⟩
  · rw [harr, hseen k hk]
    exact h.seen k hk
  · exact (hstage hs).congr (hframe hs).1 (hframe hs).2
  · rw [harr]
    exact hiff

/-- A station that has handed over nothing of a send, and holds its chunks as they were sent. -/
structure Withholds (x : Station) (s : ReliableSend) : Prop where
  gathers : x.transport.reassembler.Gathers s.transfer
  handed : x.handed s = []

end Station

/-- If a datagram is received, then it is one of the send as it was sent, or it has nothing of the
send. -/
def Act.Faithful (s : ReliableSend) : Act → Prop
  | .receive d _ _ => d ∈ s.datagrams ∨ ∀ p ∈ Datagram.payloads d, s.Foreign p
  | _ => True

namespace Station

variable {x : Station} {s : ReliableSend}

theorem Tracks.start (hd : s.Deliverable) (config : UdpConfig) (link : Link) (ids : IdSource)
    (d : Directory) (now : Nat) : (Station.start config link ids d now).Tracks s := by
  have ha : (Station.start config link ids d now).arrived s = ∅ := by
    ext k
    simp [mem_arrived, Station.start]
  have he : ∅ ≠ Finset.range s.count :=
    (Finset.nonempty_range_iff.mpr hd.count_pos.ne').ne_empty.symm
  refine ⟨fun k _ => ?_, ∅, Finset.empty_subset _, fun _ => ?_, ?_, ?_⟩
  · rw [ha]
    exact iff_of_false List.not_mem_nil (Finset.notMem_empty k)
  · exact .untouched List.not_mem_nil rfl
  · rw [if_neg he]
    rfl
  · rw [ha]
    exact iff_of_true rfl fun h => List.not_mem_nil h.2

theorem Tracks.step (h : x.Tracks s) (hd : s.Deliverable) (hn : s.packetIds.Nodup)
    (hr : x.directory.identity.isReceiver s.message.receiver) {a : Act} (ha : a.Faithful s) :
    (x.step a).Tracks s := by
  cases a with
  | send message endpoint now =>
    obtain ⟨_, _, hx, -⟩ := x.step_send message endpoint now _ rfl
    rw [hx]
    exact h.congr rfl rfl rfl rfl
  | receive d source now =>
    obtain hm | hf := ha
    · obtain ⟨k, hk, rfl⟩ := ReliableSend.mem_datagrams.mp hm
      exact h.receive_own hd hn hr hk source now
    · exact h.receive_foreign hd hf source now
  | announce now =>
    obtain ⟨_, _, hx, -⟩ := x.step_announce now
    rw [hx]
    exact h.congr rfl rfl rfl rfl
  | tick now =>
    obtain hx | ⟨_, _, hx, -⟩ := x.step_tick now
    · rw [hx]
      exact h
    · rw [hx]
      exact h.discarding hd rfl rfl
  | prune now maxAge => exact h.discarding hd rfl rfl

theorem Withholds.start (config : UdpConfig) (link : Link) (ids : IdSource) (d : Directory)
    (now : Nat) : (Station.start config link ids d now).Withholds s :=
  ⟨nofun, rfl⟩

theorem Withholds.step (h : x.Withholds s) (ho : chunkOverhead < s.max)
    (hm : s.message.body.FitsMemory) (hc : s.packets.length ≤ maxChunkCount) (hs : s.IsTooLong)
    (hr : x.directory.identity.isReceiver s.message.receiver) {a : Act} (ha : a.Faithful s) :
    (x.step a).Withholds s := by
  cases a with
  | send message endpoint now =>
    obtain ⟨_, _, hx, -⟩ := x.step_send message endpoint now _ rfl
    rw [hx]
    exact ⟨h.gathers, h.handed⟩
  | receive d source now =>
    obtain hd | hf := ha
    · obtain ⟨k, hk, rfl⟩ := ReliableSend.mem_datagrams.mp hd
      obtain ⟨-, -, hra, hhand⟩ | ⟨-, -, hra, hhand⟩ :=
        step_receive_own (x := x) ho hm hr hk source now _ rfl
      · exact ⟨h.gathers.congr (by rw [hra]), hhand.trans h.handed⟩
      · rw [ReliableSend.length_packets, ReliableSend.count_of_isSplit hs.1] at hc
        rw [ReliableSend.count_of_isSplit hs.1] at hk
        obtain ⟨hgathers, hgiven⟩ := h.gathers.accept_long ho
          (Nat.lt_of_le_of_lt hc (by decide)) hs.2 now hk
        have hp : s.part k = s.transfer.carrier k := if_pos hs.1
        rw [Reassembler.take_of_read (s.read_part ho hm hs.1 k), hp] at hra hhand
        refine ⟨hgathers.congr (by rw [hra]), ?_⟩
        rw [hhand, hgiven, h.handed]
        rfl
    · obtain ⟨-, hhand, -, hframe⟩ :=
        step_receive_foreign (x := x) ho hm hf source now _ rfl
      exact ⟨h.gathers.congr (hframe hs.1).1, hhand.trans h.handed⟩
  | announce now =>
    obtain ⟨_, _, hx, -⟩ := x.step_announce now
    rw [hx]
    exact ⟨h.gathers, h.handed⟩
  | tick now =>
    obtain hx | ⟨_, _, hx, -⟩ := x.step_tick now
    · rw [hx]
      exact h
    · rw [hx]
      exact ⟨h.gathers.prune now _, h.handed⟩
  | prune now maxAge => exact ⟨h.gathers.prune now maxAge, h.handed⟩

theorem run_concat (x : Station) (acts : List Act) (a : Act) :
    x.run (acts ++ [a]) = (x.run acts).step a := by
  rw [run, List.foldl_append]
  rfl

theorem identity_run (x : Station) (acts : List Act) :
    (x.run acts).directory.identity = x.directory.identity := by
  induction acts using List.reverseRecOn with
  | nil => rfl
  | append_singleton acts a ih => rw [run_concat, (step_extends _ a).identity, ih]

theorem Tracks.run (h : x.Tracks s) (hd : s.Deliverable) (hn : s.packetIds.Nodup)
    (hr : x.directory.identity.isReceiver s.message.receiver) {acts : List Act}
    (ha : ∀ a ∈ acts, a.Faithful s) : (x.run acts).Tracks s := by
  induction acts using List.reverseRecOn with
  | nil => exact h
  | append_singleton acts a ih =>
    rw [run_concat]
    exact (ih fun b hb => ha b (by simp [hb])).step hd hn (by rwa [identity_run]) (ha a (by simp))

theorem received_run (x : Station) (acts : List Act) (d : Bytes) :
    d ∈ (x.run acts).received.map Prod.fst ↔
      d ∈ x.received.map Prod.fst ∨ ∃ source now, .receive d source now ∈ acts := by
  induction acts using List.reverseRecOn with
  | nil => simp [Station.run]
  | append_singleton acts a ih =>
    rw [run_concat]
    cases a with
    | receive e source now =>
      have hs : ((x.run acts).step (.receive e source now)).received.map Prod.fst =
        (x.run acts).received.map Prod.fst ++ [e] := List.map_append
      rw [hs, List.mem_append, ih, or_assoc]
      refine or_congr_right ?_
      simp only [List.mem_append, List.mem_singleton, Act.receive.injEq]
      constructor
      · rintro (⟨source', now', hm⟩ | rfl)
        · exact ⟨source', now', .inl hm⟩
        · exact ⟨source, now, .inr ⟨rfl, rfl, rfl⟩⟩
      · rintro ⟨source', now', hm | ⟨rfl, -, -⟩⟩
        · exact .inl ⟨source', now', hm⟩
        · exact .inr rfl
    | _ => exact ih.trans (by simp)

end Station

end PeerMesh

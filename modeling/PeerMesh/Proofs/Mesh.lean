import Mathlib.Data.Fintype.Defs
import Mathlib.Logic.Function.Basic
import PeerMesh.Proofs.Accounts

namespace PeerMesh

abbrev Mesh (ι : Type) := ι → Station

namespace Mesh

section

variable {ι : Type} [DecidableEq ι]

def step (w : Mesh ι) (k : ι) (a : Act) : Mesh ι :=
  Function.update w k ((w k).step a)

def run (w : Mesh ι) (acts : List (ι × Act)) : Mesh ι :=
  acts.foldl (fun w a => w.step a.1 a.2) w

omit [DecidableEq ι] in
/-- Only what was offered to the network is received, and only what fits the memory is sent. -/
def Possible (w : Mesh ι) : Act → Prop
  | .send message _ _ => message.body.FitsMemory
  | .receive d _ _ => ∃ k, d ∈ (w k).transport.link.datagrams
  | _ => True

instance [Fintype ι] (w : Mesh ι) (a : Act) : Decidable (w.Possible a) :=
  match a with
  | .send message _ _ => inferInstanceAs (Decidable message.body.FitsMemory)
  | .receive d _ _ => inferInstanceAs (Decidable (∃ k, d ∈ (w k).transport.link.datagrams))
  | .announce _ => .isTrue trivial
  | .tick _ => .isTrue trivial
  | .prune _ _ => .isTrue trivial

def Feasible (w : Mesh ι) : List (ι × Act) → Prop
  | [] => True
  | a :: acts => w.Possible a.2 ∧ (w.step a.1 a.2).Feasible acts

def decidableFeasible [Fintype ι] (w : Mesh ι) :
    (acts : List (ι × Act)) → Decidable (w.Feasible acts)
  | [] => .isTrue trivial
  | a :: acts =>
    have := (w.step a.1 a.2).decidableFeasible acts
    inferInstanceAs (Decidable (_ ∧ _))

instance [Fintype ι] (w : Mesh ι) (acts : List (ι × Act)) : Decidable (w.Feasible acts) :=
  w.decidableFeasible acts

structure Proper (w : Mesh ι) : Prop where
  check : ∀ k, (w k).transport.config.check = .ok ()
  sized : ∀ k, (w k).directory.identity.Sized
  named : ∀ k, ¬ (w k).directory.identity.id.isNil
  distinct : ∀ j k, (w j).directory.identity.id = (w k).directory.identity.id → j = k

structure IsNew (w : Mesh ι) : Prop where
  start : ∀ k, ∃ config link ids directory now, w k = .start config link ids directory now
  proper : w.Proper

/-- Neither the packet ids of the send nor the id of its chunks, if there are any, are used by
another send. -/
structure HasFreshIds (w : Mesh ι) (s : ReliableSend) : Prop where
  nodup : s.packetIds.Nodup
  foreign : ∀ k, ∀ y ∈ (w k).sent, y.1 ≠ s → ∀ p ∈ y.1.packets, s.Foreign (.packet p)

/-- Every station is sound, and every datagram that was received is one that a station had reason to
offer. -/
structure Sound (w : Mesh ι) : Prop where
  stations : ∀ k, (w k).Sound
  received : ∀ k, ∀ y ∈ (w k).received, ∃ i a, (w i).Emits a ∧ y.1 = a.encode
  sent : ∀ k, ∀ y ∈ (w k).sent, chunkOverhead < y.1.max ∧ y.1.message.body.FitsMemory
  proper : w.Proper

omit [DecidableEq ι]

variable {w : Mesh ι} {s : ReliableSend}

theorem IsNew.sound (h : w.IsNew) : w.Sound := by
  have hk (k : ι) : (w k).Sound ∧ (w k).received = [] ∧ (w k).sent = [] := by
    obtain ⟨config, link, ids, directory, now, he⟩ := h.start k
    rw [he]
    exact ⟨.start config link ids directory now, rfl, rfl⟩
  refine ⟨fun k => (hk k).1, fun k y hy => ?_, fun k y hy => ?_, h.proper⟩
  · rw [(hk k).2.1] at hy
    cases hy
  · rw [(hk k).2.2] at hy
    cases hy

theorem Proper.extend {later : Mesh ι} (h : w.Proper) (hext : ∀ k, (later k).Extends (w k)) :
    later.Proper := by
  refine ⟨fun k => ?_, fun k => ?_, fun k => ?_, fun j k he => ?_⟩
  · rw [(hext k).config]
    exact h.check k
  · rw [(hext k).identity]
    exact h.sized k
  · rw [(hext k).identity]
    exact h.named k
  · rw [(hext j).identity, (hext k).identity] at he
    exact h.distinct j k he

theorem Sound.payloads (h : w.Sound) {k : ι} {a : Payload} (ha : (w k).Emits a) :
    Datagram.payloads a.encode = [a] := by
  apply Datagram.payloads_encode
  cases ha with
  | announcement => exact h.proper.sized k
  | acknowledgement => trivial
  | packet mem =>
    obtain ⟨y, hy, hp⟩ := List.mem_flatMap.mp mem
    obtain ⟨n, -, rfl⟩ := ReliableSend.mem_packets.mp hp
    obtain ⟨ho, hm⟩ := h.sent k y hy
    exact ReliableSend.sized_part ho hm n

theorem Sound.emits_of_received (h : w.Sound) {k : ι} {y : Bytes × List Envelope}
    (hy : y ∈ (w k).received) {a : Payload} (ha : a ∈ Datagram.payloads y.1) :
    (∃ i, (w i).Emits a) ∧ y.1 = a.encode := by
  obtain ⟨i, b, hb, he⟩ := h.received k y hy
  rw [he, h.payloads hb, List.mem_singleton] at ha
  exact ⟨⟨i, ha ▸ hb⟩, ha ▸ he⟩

/-- What any station emits is a packet of the send or has nothing of it. -/
theorem HasFreshIds.own_or_foreign (hfresh : w.HasFreshIds s) {k : ι} {a : Payload}
    (ha : (w k).Emits a) : (∃ p ∈ s.packets, a = .packet p) ∨ s.Foreign a := by
  cases ha with
  | announcement => exact .inr trivial
  | acknowledgement => exact .inr trivial
  | @packet p mem =>
    obtain ⟨y, hy, hp⟩ := List.mem_flatMap.mp mem
    by_cases he : y.1 = s
    · exact .inl ⟨p, he ▸ hp, rfl⟩
    · exact .inr (hfresh.foreign k y hy he p hp)

theorem Sound.received_of_acknowledged (h : w.Sound) (hfresh : w.HasFreshIds s) {i j : ι}
    (hreceiver : s.message.receiver = (w j).directory.identity.id) {p : Packet} (hp : p ∈ s.packets)
    (ha : (w i).Acknowledged p.id) : p.datagram ∈ (w j).received.map Prod.fst := by
  -- Some station `m` has sent the acknowledgement for a packet with the id, which it has received.
  obtain ⟨y, hy, hid⟩ := ha
  obtain ⟨⟨m, hm⟩, -⟩ := h.emits_of_received hy hid
  generalize he : p.id = id at hm
  cases hm with
  | @acknowledgement z q received mem own =>
    obtain ⟨⟨n, hn⟩, hz⟩ := h.emits_of_received received mem
    obtain ⟨q', hq', hqq⟩ | hf := hfresh.own_or_foreign hn
    · cases hqq
      obtain ⟨k, hk, rfl⟩ := ReliableSend.mem_packets.mp hp
      obtain ⟨k', hk', rfl⟩ := ReliableSend.mem_packets.mp hq'
      obtain rfl := ReliableSend.eq_of_packet_id hfresh.nodup hk hk' he
      have hown : (w m).directory.identity.isReceiver (w j).directory.identity.id := hreceiver ▸ own
      have hmj : j = m := by
        apply h.proper.distinct
        simpa [Identity.isReceiver, h.proper.named j] using hown
      subst hmj
      exact List.mem_map.mpr ⟨z, received, hz⟩
    · exact absurd (List.mem_map.mpr ⟨p, hp, he⟩) hf.1

theorem acknowledged_of_resultOf {o : Outbox} {tickets : List Ticket}
    (h : UdpTransport.resultOf o tickets = some (.ok ())) {ticket : Ticket}
    (ht : ticket ∈ tickets) : o.fate? ticket = some .acknowledged := by
  induction tickets with
  | nil => cases ht
  | cons t tickets ih =>
    rw [UdpTransport.resultOf] at h
    split at h
    · cases h
    · rename_i hf
      obtain rfl | ht := List.mem_cons.mp ht
      · obtain ⟨fate, hfate, hr⟩ := Option.map_eq_some_iff.mp hf
        cases fate with
        | acknowledged => exact hfate
        | _ => cases hr
      · exact ih h ht
    · cases h

/-- All packets of a send that has succeeded have been received. -/
theorem Sound.received_of_resultOf (h : w.Sound) (hfresh : w.HasFreshIds s) {i j : ι}
    (hreceiver : s.message.receiver = (w j).directory.identity.id) {tickets : List Ticket}
    (hsent : (s, tickets) ∈ (w i).sent)
    (hok : UdpTransport.resultOf (w i).transport.outbox tickets = some (.ok ())) :
    ∀ d ∈ s.datagrams, d ∈ (w j).received.map Prod.fst := by
  intro d hd
  obtain ⟨p, hp, rfl⟩ := List.mem_map.mp hd
  have hticket : some p ∈ tickets.map ((w i).packets[·]?) := by
    rw [(h.stations i).tickets _ hsent]
    exact List.mem_map_of_mem hp
  obtain ⟨ticket, ht, hpacket⟩ := List.mem_map.mp hticket
  obtain ⟨q, hq, ha⟩ :=
    (h.stations i).accounts.acknowledged ticket (acknowledged_of_resultOf hok ht)
  obtain rfl : p = q := Option.some.inj (hpacket.symm.trans hq)
  exact h.received_of_acknowledged hfresh hreceiver hp ha

variable [DecidableEq ι]

theorem step_self (w : Mesh ι) (k : ι) (a : Act) : w.step k a k = (w k).step a :=
  Function.update_self _ _ _

theorem step_of_ne {j k : ι} (h : j ≠ k) (a : Act) : w.step k a j = w j :=
  Function.update_of_ne h _ _

theorem step_extends (w : Mesh ι) (k : ι) (a : Act) (j : ι) : (w.step k a j).Extends (w j) := by
  by_cases h : j = k
  · subst h
    rw [step_self]
    exact (w j).step_extends a
  · rw [step_of_ne h]
    exact ⟨List.prefix_rfl, List.prefix_rfl, rfl, rfl⟩

theorem Sound.step (h : w.Sound) (k : ι) {a : Act} (ha : w.Possible a) : (w.step k a).Sound := by
  have hext := w.step_extends k a
  refine ⟨fun j => ?_, fun j y hy => ?_, fun j y hy => ?_, h.proper.extend hext⟩
  · by_cases hj : j = k
    · subst hj
      rw [step_self]
      exact (h.stations j).step a
    · rw [step_of_ne hj]
      exact h.stations j
  · have hy : y ∈ (w j).received ∨ ∃ i, y.1 ∈ (w i).transport.link.datagrams := by
      by_cases hj : j = k
      · subst hj
        rw [step_self] at hy
        cases a with
        | receive d source now =>
          obtain hy | hy := List.mem_append.mp hy
          · exact .inl hy
          · rw [List.mem_singleton.mp hy]
            exact .inr ha
        | _ => exact .inl hy
      · rw [step_of_ne hj] at hy
        exact .inl hy
    -- What was received before had a reason, and what was offered has the reason of its sender.
    obtain hy | ⟨i, hd⟩ := hy
    · obtain ⟨i, b, hb, he⟩ := h.received j y hy
      exact ⟨i, b, hb.mono (hext i), he⟩
    · obtain ⟨b, hb, he⟩ := (h.stations i).offered _ hd
      exact ⟨i, b, hb.mono (hext i), he⟩
  · by_cases hj : j = k
    · subst hj
      rw [step_self] at hy
      cases a with
      | send message endpoint now =>
        obtain hy | hy := List.mem_append.mp hy
        · exact h.sent j y hy
        · rw [List.mem_singleton.mp hy]
          exact ⟨UdpConfig.overhead_lt_of_check (h.proper.check j), ha⟩
      | _ => exact h.sent j y hy
    · rw [step_of_ne hj] at hy
      exact h.sent j y hy

theorem Sound.run (h : w.Sound) {acts : List (ι × Act)} (ha : w.Feasible acts) :
    (w.run acts).Sound := by
  induction acts generalizing w with
  | nil => exact h
  | cons a acts ih => exact ih (h.step a.1 ha.1) ha.2

theorem run_extends (w : Mesh ι) (acts : List (ι × Act)) (j : ι) :
    (w.run acts j).Extends (w j) := by
  induction acts generalizing w with
  | nil => exact ⟨List.prefix_rfl, List.prefix_rfl, rfl, rfl⟩
  | cons a acts ih => exact (ih (w.step a.1 a.2)).trans (w.step_extends a.1 a.2 j)

theorem HasFreshIds.of_run {acts : List (ι × Act)} (h : (w.run acts).HasFreshIds s) :
    w.HasFreshIds s :=
  ⟨h.nodup, fun k y hy => h.foreign k y ((w.run_extends acts k).sent.subset hy)⟩

omit [DecidableEq ι] in
theorem Sound.faithful (h : w.Sound) (hfresh : w.HasFreshIds s) {a : Act} (ha : w.Possible a) :
    a.Faithful s := by
  cases a with
  | receive d source now =>
    obtain ⟨k, hd⟩ := ha
    obtain ⟨b, hb, rfl⟩ := (h.stations k).offered d hd
    obtain ⟨p, hp, rfl⟩ | hf := hfresh.own_or_foreign hb
    · exact .inl (List.mem_map_of_mem hp)
    · refine .inr fun p hp => ?_
      rw [h.payloads hb, List.mem_singleton] at hp
      exact hp ▸ hf
  | _ => trivial

theorem Sound.keeps_run (h : w.Sound) {j : ι} (P : Station → Prop)
    (hstep : ∀ (x : Station) (a : Act), x.directory.identity.isReceiver s.message.receiver →
      a.Faithful s → P x → P (x.step a))
    (hp : P (w j)) (hreceiver : s.message.receiver = (w j).directory.identity.id)
    {acts : List (ι × Act)} (ha : w.Feasible acts) (hfresh : (w.run acts).HasFreshIds s) :
    P (w.run acts j) := by
  induction acts generalizing w with
  | nil => exact hp
  | cons a acts ih =>
    have hext := w.step_extends a.1 a.2 j
    have hnext : P (w.step a.1 a.2 j) := by
      by_cases hj : j = a.1
      · subst hj
        rw [step_self]
        have hnow : w.HasFreshIds s := HasFreshIds.of_run (show (w.run (a :: acts)).HasFreshIds s
          from hfresh)
        refine hstep _ _ ?_ (h.faithful hnow ha.1) hp
        simp [Identity.isReceiver, hreceiver]
      · rw [step_of_ne hj]
        exact hp
    exact ih (h.step a.1 ha.1) hnext (by rw [hext.identity, hreceiver]) ha.2 hfresh

/-- Whatever the stations do and whatever the network does to their datagrams: as soon as a reliable
send has succeeded, its message has been handed over once and as it was by the station that it is
addressed to. There are two exceptions, in which it is not handed over at all: that station
discarded some of its chunks while others were missing, or the chunks cannot tell its length. -/
theorem handed_of_success (start : Mesh ι) (hstart : start.IsNew) (acts : List (ι × Act))
    (hacts : start.Feasible acts) (w : Mesh ι) (hw : w = start.run acts) (i j : ι)
    (s : ReliableSend) (tickets : List Ticket) (hsent : (s, tickets) ∈ (w i).sent)
    (hfresh : w.HasFreshIds s) (hreceiver : s.message.receiver = (w j).directory.identity.id)
    (hwhole : ¬ s.message.body.Holds Chunk) (hcount : s.packets.length ≤ maxChunkCount)
    (hok : UdpTransport.resultOf (w i).transport.outbox tickets = some (.ok ())) :
    (w j).handed s = if (w j).HasDiscarded s ∨ s.IsTooLong then [] else [s.message] := by
  subst hw
  have hsound := hstart.sound.run hacts
  obtain ⟨ho, hm⟩ := hsound.sent i _ hsent
  have hreceived := hsound.received_of_resultOf hfresh hreceiver hsent hok
  rw [(start.run_extends acts j).identity] at hreceiver
  obtain ⟨config, link, ids, directory, now, he⟩ := hstart.start j
  by_cases hl : s.IsTooLong
  · have hw : (start.run acts j).Withholds s := by
      refine hstart.sound.keeps_run (Station.Withholds · s)
        (fun x a hr ha h => h.step ho hm hcount hl hr ha) ?_ hreceiver hacts hfresh
      rw [he]
      exact .start config link ids directory now
    rw [if_pos (.inr hl)]
    exact hw.handed
  · have hd : s.Deliverable :=
      ⟨ho, hm, hwhole, hcount, fun hs => Nat.lt_of_not_le fun hle => hl ⟨hs, hle⟩⟩
    have ht : (start.run acts j).Tracks s := by
      refine hstart.sound.keeps_run (Station.Tracks · s)
        (fun x a hr ha h => h.step hd hfresh.nodup hr ha) ?_ hreceiver hacts hfresh
      rw [he]
      exact .start hd config link ids directory now
    by_cases hg : (start.run acts j).HasDiscarded s
    · rw [if_pos (.inl hg)]
      exact ht.handed_cases.resolve_right fun h => (ht.handed_iff.mp h).1 hg
    · rw [if_neg fun h => h.elim hg hl]
      exact ht.handed_iff.mpr ⟨hg, hreceived⟩

end

def pair : Mesh Bool := fun k =>
  let port : UInt16 := if k then 7002 else 7001
  let identity : Identity := ⟨⟨if k then 2 else 1⟩, "", .empty⟩
  .start { maxDatagram := 384 } ⟨port, fun _ _ => none, 0, []⟩ (.numbered (if k then 40 else 10) 5)
    ⟨identity.declare unicastPortKey (.int (if k then 7002 else 7001)), .empty, .empty⟩ 0

def twoChunks : ReliableSend :=
  ⟨⟨⟨1⟩, ⟨2⟩, ⟨⟨7⟩, List.replicate 200 3⟩⟩, ⟨1⟩, 384, .numbered 10 5⟩

theorem pair_isNew : pair.IsNew := by
  refine ⟨fun k => ⟨_, _, _, _, _, rfl⟩, ?_⟩
  have hp : (∀ k, (pair k).transport.config.check = .ok ()) ∧
      (∀ k, (pair k).directory.identity.Sized) ∧
      (∀ k, ¬ (pair k).directory.identity.id.isNil) ∧
      ∀ j k, (pair j).directory.identity.id = (pair k).directory.identity.id → j = k := by
    decide +kernel
  exact ⟨hp.1, hp.2.1, hp.2.2.1, hp.2.2.2⟩

def host : SocketAddress :=
  ⟨.v4 1, 7000, 0⟩

def learnAndSend : List (Bool × Act) :=
  [(true, .announce 0),
    (false, .receive (Payload.announcement (pair true).directory.identity).encode host 1),
    (false, .send twoChunks.message 0 2)]

def packetArrives (k now : Nat) : Bool × Act :=
  (true, .receive (twoChunks.packet k).datagram host now)

def acknowledgementArrives (k now : Nat) : Bool × Act :=
  (false, .receive (Payload.acknowledgement (twoChunks.packet k).id).encode host now)

theorem exists_only_sent {w : Mesh Bool} (h : (w false).sent.length = 1)
    (h' : (w true).sent.length = 0) :
    ∃ y, (w false).sent = [y] ∧ ∀ k, ∀ z ∈ (w k).sent, z = y := by
  obtain ⟨y, hy⟩ := List.length_eq_one_iff.mp h
  refine ⟨y, hy, fun k z hz => ?_⟩
  cases k with
  | false =>
    rw [hy] at hz
    exact List.mem_singleton.mp hz
  | true =>
    rw [List.length_eq_zero_iff.mp h'] at hz
    cases hz

def reordered : List (Bool × Act) :=
  learnAndSend ++
    [packetArrives 1 3, packetArrives 1 4, (false, .tick 1002), (true, .tick 1003),
      packetArrives 0 1004, packetArrives 0 1005, acknowledgementArrives 1 1006,
      acknowledgementArrives 1 1007, acknowledgementArrives 0 1008]

theorem handed_of_success_reordered : pair.IsNew ∧ pair.Feasible reordered ∧
    ∃ y ∈ (pair.run reordered false).sent, (pair.run reordered).HasFreshIds y.1 ∧
      y.1.message = twoChunks.message ∧
      UdpTransport.resultOf (pair.run reordered false).transport.outbox y.2 = some (.ok ()) ∧
      ¬ (pair.run reordered true).HasDiscarded y.1 ∧ ¬ y.1.IsTooLong ∧
      (pair.run reordered true).handed y.1 =
        if (pair.run reordered true).HasDiscarded y.1 ∨ y.1.IsTooLong
        then [] else [y.1.message] := by
  have hacts : pair.Feasible reordered := by decide +kernel
  obtain ⟨y, hy, honly⟩ := exists_only_sent (w := pair.run reordered) (by decide +kernel)
    (by decide +kernel)
  have hmem : (y.1, y.2) ∈ (pair.run reordered false).sent := hy ▸ List.mem_cons_self
  have hfacts : ∀ y ∈ (pair.run reordered false).sent, y.1.packetIds.Nodup ∧
      y.1.message = twoChunks.message ∧ y.1.packets.length ≤ maxChunkCount ∧
      UdpTransport.resultOf (pair.run reordered false).transport.outbox y.2 = some (.ok ()) ∧
      ¬ (pair.run reordered true).HasDiscarded y.1 ∧ ¬ y.1.IsTooLong := by
    decide +kernel
  obtain ⟨hn, hm, hc, hok, hg, hl⟩ := hfacts y hmem
  have hfresh : (pair.run reordered).HasFreshIds y.1 :=
    ⟨hn, fun k z hz hne => absurd (congrArg Prod.fst (honly k z hz)) hne⟩
  refine ⟨pair_isNew, hacts, y, hmem, hfresh, hm, hok, hg, hl, ?_⟩
  exact handed_of_success pair pair_isNew reordered hacts _ rfl false true y.1 y.2 hmem hfresh
    (by rw [hm]; decide +kernel) (by rw [hm]; decide +kernel) hc hok

def pruned : List (Bool × Act) :=
  learnAndSend ++
    [packetArrives 0 3, acknowledgementArrives 0 4, (true, .tick 70000), packetArrives 1 70001,
      acknowledgementArrives 1 70002]

/-- A send that succeeds although its message is not handed over. -/
theorem success_without_handing : pair.IsNew ∧ pair.Feasible pruned ∧
    ∃ y ∈ (pair.run pruned false).sent, (pair.run pruned).HasFreshIds y.1 ∧
      y.1.message.receiver = (pair.run pruned true).directory.identity.id ∧
      ¬ y.1.message.body.Holds Chunk ∧ y.1.packets.length ≤ maxChunkCount ∧
      y.1.message.body.encode.length < UInt32.size ∧
      UdpTransport.resultOf (pair.run pruned false).transport.outbox y.2 = some (.ok ()) ∧
      (pair.run pruned true).handed y.1 = [] := by
  obtain ⟨y, hy, honly⟩ := exists_only_sent (w := pair.run pruned) (by decide +kernel)
    (by decide +kernel)
  have hmem : y ∈ (pair.run pruned false).sent := hy ▸ List.mem_cons_self
  have hfacts : ∀ y ∈ (pair.run pruned false).sent, y.1.packetIds.Nodup ∧
      y.1.message.receiver = (pair.run pruned true).directory.identity.id ∧
      ¬ y.1.message.body.Holds Chunk ∧ y.1.packets.length ≤ maxChunkCount ∧
      y.1.message.body.encode.length < UInt32.size ∧
      UdpTransport.resultOf (pair.run pruned false).transport.outbox y.2 = some (.ok ()) ∧
      (pair.run pruned true).handed y.1 = [] := by
    decide +kernel
  obtain ⟨hn, hrest⟩ := hfacts y hmem
  exact ⟨pair_isNew, by decide +kernel, y, hmem,
    ⟨hn, fun k z hz hne => absurd (congrArg Prod.fst (honly k z hz)) hne⟩, hrest⟩

end Mesh

end PeerMesh

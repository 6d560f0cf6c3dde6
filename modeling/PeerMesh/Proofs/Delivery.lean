import Mathlib.Data.List.Nodup
import Mathlib.Data.List.Pairwise
import PeerMesh.Proofs.Station

namespace PeerMesh

def Act.Within (F : List ReliableSend) : Act → Prop
  | .receive d _ _ => ∃ s ∈ F, d ∈ s.datagrams
  | .prune _ _ => True
  | _ => False

instance (F : List ReliableSend) (a : Act) : Decidable (a.Within F) :=
  match a with
  | .receive d _ _ => inferInstanceAs (Decidable (∃ s ∈ F, d ∈ s.datagrams))
  | .prune _ _ => .isTrue trivial
  | .send _ _ _ => .isFalse id
  | .announce _ => .isFalse id
  | .tick _ => .isFalse id

section Family

variable {F : List ReliableSend} (hF : ∀ s ∈ F, s.Deliverable)
  (hpackets : (F.flatMap ReliableSend.packetIds).Nodup)
  (hids : ((F.filter fun s => s.IsSplit).map fun s => s.transfer.id).Nodup)

include hpackets in
theorem ReliableSend.eq_of_mem_packetIds {r s : ReliableSend} (hr : r ∈ F) (hs : s ∈ F)
    {id : PacketId} (hir : id ∈ r.packetIds) (his : id ∈ s.packetIds) : r = s := by
  by_contra hne
  have hsymm : Std.Symm (Function.onFun List.Disjoint packetIds) := ⟨fun _ _ h => h.symm⟩
  exact (List.nodup_flatMap.mp hpackets).2.forall hr hs hne hir his

include hF hpackets hids in
theorem Act.faithful_of_within {s : ReliableSend} (hs : s ∈ F) {a : Act} (ha : a.Within F) :
    a.Faithful s := by
  cases a with
  | receive d source now =>
    obtain ⟨r, hr, hd⟩ := ha
    by_cases he : r = s
    · exact .inl (he ▸ hd)
    · refine .inr fun p hp => ?_
      obtain ⟨k, hk, rfl⟩ := ReliableSend.mem_datagrams.mp hd
      rw [r.payloads_datagram (hF r hr).overhead (hF r hr).memory k, List.mem_singleton] at hp
      subst hp
      refine ⟨fun hm => he ?_, fun hsplit c hc hid => he ?_⟩
      · exact ReliableSend.eq_of_mem_packetIds hpackets hr hs
          (ReliableSend.mem_packetIds.mpr ⟨k, hk, rfl⟩) hm
      · obtain ⟨hrs, hrc⟩ := (hF r hr).isSplit_of_read hc
        refine List.inj_on_of_nodup_map hids ?_ ?_ (hrc.symm.trans hid)
        · exact List.mem_filter.mpr ⟨hr, by simpa using hrs⟩
        · exact List.mem_filter.mpr ⟨hs, by simpa using hsplit⟩
  | _ => trivial

end Family

theorem Station.within_received {F : List ReliableSend} {x : Station} {acts : List Act}
    (hacts : ∀ a ∈ acts, a.Within F) (hx : x.received = []) :
    ∀ y ∈ (x.run acts).received, ∃ s ∈ F, y.1 ∈ s.datagrams := by
  intro y hy
  have hm := (x.received_run acts y.1).mp (List.mem_map_of_mem hy)
  rw [hx] at hm
  obtain ⟨source, now, ha⟩ := hm.resolve_left List.not_mem_nil
  exact hacts _ ha

/-- Whatever the order in which the datagrams of a family of reliable sends arrive at a station, how
often they do, and when it discards old chunks: of each message it hands over what was sent or
nothing, nothing besides, and a message is handed over if and only if all of its packets arrived
and no chunks of it were discarded while others were missing. -/
theorem Station.at_most_once (F : List ReliableSend) (hF : ∀ s ∈ F, s.Deliverable)
    (hpackets : (F.flatMap ReliableSend.packetIds).Nodup)
    (hids : ((F.filter fun s => s.IsSplit).map fun s => s.transfer.id).Nodup)
    (config : UdpConfig) (link : Link) (ids : IdSource) (d : Directory) (now : Nat)
    (hreceiver : ∀ s ∈ F, d.identity.isReceiver s.message.receiver)
    (acts : List Act) (hacts : ∀ a ∈ acts, a.Within F) (x : Station)
    (hx : x = (start config link ids d now).run acts) :
    (∀ s ∈ F, x.handed s = [] ∨ x.handed s = [s.message]) ∧
      (∀ y ∈ x.received, y.2 = [] ∨ ∃ s ∈ F, y.1 ∈ s.datagrams ∧ y.2 = [s.message]) ∧
      ∀ s ∈ F, x.handed s = [s.message] ↔
        ¬ x.HasDiscarded s ∧ ∀ d ∈ s.datagrams, ∃ source now, .receive d source now ∈ acts := by
  have htracks : ∀ s ∈ F, x.Tracks s := by
    intro s hs
    have hn := (List.nodup_flatMap.mp hpackets).1 s hs
    rw [hx]
    exact (Tracks.start (hF s hs) config link ids d now).run (hF s hs) hn (hreceiver s hs)
      fun a ha => Act.faithful_of_within hF hpackets hids hs (hacts a ha)
  refine ⟨fun s hs => (htracks s hs).handed_cases, fun y hy => ?_, fun s hs => ?_⟩
  · obtain ⟨s, hs, hd⟩ := within_received hacts rfl y (hx ▸ hy)
    have hsub : y.2.Sublist (x.handed s) :=
      List.sublist_flatten_of_mem
        (List.mem_map_of_mem (List.mem_filter.mpr ⟨hy, by simpa using hd⟩))
    obtain h | h := (htracks s hs).handed_cases
    · rw [h] at hsub
      exact .inl (List.sublist_nil.mp hsub)
    · rw [h] at hsub
      obtain he | he := List.sublist_singleton.mp hsub
      · exact .inl he
      · exact .inr ⟨s, hs, hd, he⟩
  · rw [(htracks s hs).handed_iff]
    refine and_congr_right fun _ => forall₂_congr fun d _ => ?_
    rw [hx, received_run]
    exact or_iff_right List.not_mem_nil

def ReliableSend.several : List ReliableSend :=
  [⟨⟨⟨1⟩, ⟨2⟩, ⟨⟨7⟩, [1, 2, 3]⟩⟩, ⟨1⟩, 197, .numbered 10 0⟩,
    ⟨⟨⟨3⟩, ⟨2⟩, ⟨⟨8⟩, [4, 5, 6, 7]⟩⟩, ⟨3⟩, 199, .numbered 20 1⟩,
    ⟨⟨⟨3⟩, ⟨2⟩, ⟨⟨7⟩, [8, 9]⟩⟩, ⟨3⟩, 256, .numbered 30 1⟩]

def Act.several : List Act :=
  let bring (now : Nat) (s : ReliableSend) (k : Nat) : Act :=
    .receive (s.packet k).datagram ⟨.v4 1, 2, 0⟩ now
  ReliableSend.several.flatMap fun s =>
    [bring 5 s (s.count - 1), bring 6 s (s.count - 1), .prune 7 s.count, bring 8 s 0] ++
      (List.range s.count).map (bring 9 s)

def Station.severalReceived : Station :=
  (start {} ⟨9, fun _ _ => none, 0, []⟩ (.numbered 40 2) ⟨⟨⟨2⟩, "b", .empty⟩, .empty, .empty⟩ 0).run
    Act.several

theorem Station.at_most_once_several :
    (∀ s ∈ ReliableSend.several, s.Deliverable) ∧
      (∀ a ∈ Act.several, a.Within ReliableSend.several) ∧
      (ReliableSend.several.map fun s => severalReceived.handed s) =
        [[⟨⟨1⟩, ⟨2⟩, ⟨⟨7⟩, [1, 2, 3]⟩⟩], [], [⟨⟨3⟩, ⟨2⟩, ⟨⟨7⟩, [8, 9]⟩⟩]] ∧
      (ReliableSend.several.map fun s => (severalReceived.HasDiscarded s : Bool)) =
        [false, true, false] ∧
      (∀ s ∈ ReliableSend.several,
        severalReceived.handed s = [] ∨ severalReceived.handed s = [s.message]) ∧
      (∀ y ∈ severalReceived.received,
        y.2 = [] ∨ ∃ s ∈ ReliableSend.several, y.1 ∈ s.datagrams ∧ y.2 = [s.message]) ∧
      ∀ s ∈ ReliableSend.several, severalReceived.handed s = [s.message] ↔
        ¬ severalReceived.HasDiscarded s ∧
          ∀ d ∈ s.datagrams, ∃ source now, .receive d source now ∈ Act.several := by
  have hF : ∀ s ∈ ReliableSend.several, s.Deliverable := by
    intro s hs
    have hd : ∀ s ∈ ReliableSend.several, chunkOverhead < s.max ∧ s.message.body.FitsMemory ∧
        ¬ s.message.body.Holds Chunk ∧ s.packets.length ≤ maxChunkCount ∧
        s.message.body.encode.length < UInt32.size := by decide +kernel
    obtain ⟨overhead, memory, whole, le_max, length_lt⟩ := hd s hs
    exact ⟨overhead, memory, whole, le_max, fun _ => length_lt⟩
  have hacts : ∀ a ∈ Act.several, a.Within ReliableSend.several := by decide +kernel
  exact ⟨hF, hacts, by decide +kernel, by decide +kernel,
    at_most_once ReliableSend.several hF (by decide +kernel) (by decide +kernel) _ _ _ _ _
      (by decide +kernel) Act.several hacts severalReceived rfl⟩

end PeerMesh

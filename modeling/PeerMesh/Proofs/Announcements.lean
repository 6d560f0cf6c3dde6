import PeerMesh.Proofs.Peers
import PeerMesh.Proofs.Routes

namespace PeerMesh

def Datagram.heard (self : PeerId) (ps : List Payload) : List Identity :=
  (ps.filterMap Sorted.announcement?).filter fun i => ¬ (i.id = self ∨ i.id.isNil)

/-- A peer has a route once it is noted where it is reached. -/
structure UdpTransport.Places (t : UdpTransport) (d : Directory) (peer : PeerId)
    (x : UdpTransport × Directory) : Prop where
  identity : x.2.identity = d.identity
  peers : x.2.peers = d.peers
  lists : d.Lists t.contexts → x.2.Lists x.1.contexts
  contexts : ∀ p, (x.1.contexts.get? p).isSome ↔ (t.contexts.get? p).isSome ∨ p = peer

theorem UdpTransport.place_places (t : UdpTransport) (d : Directory) (peer : PeerId)
    (a : SocketAddress) : t.Places d peer (t.place d peer a) := by
  unfold place
  cases h : t.contexts.get? peer with
  | some endpoint =>
    refine ⟨rfl, rfl, id, fun p => (or_iff_left_of_imp ?_).symm⟩
    rintro rfl
    rw [h]
    rfl
  | none =>
    refine ⟨d.identity_addRoute _, d.peers_addRoute _, fun hl => hl.addUdp h _, fun p => ?_⟩
    dsimp only
    rw [KeyedList.get?_put]
    split
    · simp [*]
    · simp [*]

namespace Reception

/-- The identities `is` have been announced, one after the other. -/
structure Announces (r : Reception) (is : List Identity) (r' : Reception) : Prop where
  identity : r'.directory.identity = r.directory.identity
  peers : ∃ hs, r'.released = r.released ++ hs ∧
    r.directory.peers.updateAll is = (r'.directory.peers, hs)
  lists : r.directory.Lists r.transport.contexts → r'.directory.Lists r'.transport.contexts
  contexts : ∀ p, (r'.transport.contexts.get? p).isSome ↔
    (r.transport.contexts.get? p).isSome ∨
      ∃ i ∈ is, i.id = p ∧ (i.declaredPort unicastPortKey).isSome

namespace Announces

variable {r r' r'' : Reception} {is js : List Identity}

theorem refl (r : Reception) : r.Announces [] r :=
  ⟨rfl, ⟨[], (List.append_nil _).symm, rfl⟩, id, fun p => by simp⟩

theorem trans (h : r.Announces is r') (h' : r'.Announces js r'') : r.Announces (is ++ js) r'' := by
  obtain ⟨hs, hr, hp⟩ := h.peers
  obtain ⟨hs', hr', hp'⟩ := h'.peers
  refine ⟨h'.identity.trans h.identity, ⟨hs ++ hs', ?_, ?_⟩, fun hl => h'.lists (h.lists hl),
    fun p => ?_⟩
  · rw [hr', hr, List.append_assoc]
  · rw [PeerTable.updateAll_append, hp, hp']
  · rw [h'.contexts, h.contexts, or_assoc]
    simp only [List.mem_append, or_and_right, exists_or]

end Announces

theorem announced_announces (source : IpAddress) (r : Reception) {i : Identity}
    (hi : ¬ (i.id = r.directory.identity.id ∨ i.id.isNil)) :
    r.Announces [i] (announced source r i) := by
  unfold announced
  rw [if_neg hi]
  cases hport : i.declaredPort unicastPortKey with
  | none =>
    refine ⟨rfl, ⟨_, rfl, congrArg (Prod.mk _) (List.append_nil _)⟩, fun hl => hl.learn i,
      fun p => ?_⟩
    simp [hport]
  | some port =>
    have hp := r.transport.place_places r.directory i.id { ip := source, port }
    dsimp only
    generalize r.transport.place r.directory i.id { ip := source, port } = x at hp
    obtain ⟨t, d⟩ := x
    refine ⟨hp.identity, ⟨_, rfl, ?_⟩, fun hl => (hp.lists hl).learn i, fun p => ?_⟩
    · rw [← hp.peers]
      exact congrArg (Prod.mk _) (List.append_nil _)
    · refine (hp.contexts p).trans (or_congr_right ?_)
      simp only [List.mem_singleton, exists_eq_left, hport, Option.isSome_some, and_true]
      exact eq_comm

theorem announcedAll_announces (source : IpAddress) (r : Reception) (is : List Identity) :
    r.Announces (is.filter fun i => ¬ (i.id = r.directory.identity.id ∨ i.id.isNil))
      (is.foldl (announced source) r) := by
  induction is generalizing r with
  | nil => exact .refl r
  | cons i is ih =>
    rw [List.foldl_cons, List.filter_cons]
    by_cases hi : i.id = r.directory.identity.id ∨ i.id.isNil
    · have hr : announced source r i = r := if_pos hi
      have hd : ¬ decide (¬ (i.id = r.directory.identity.id ∨ i.id.isNil)) = true := by
        simpa only [decide_eq_true_eq, not_not] using hi
      rw [hr, if_neg hd]
      exact ih r
    · have ha := announced_announces source r hi
      have hs := ih (announced source r i)
      rw [ha.identity] at hs
      rw [if_pos (decide_eq_true hi)]
      exact ha.trans hs

end Reception

theorem UdpTransport.receive_announces (t : UdpTransport) (d : Directory) (now : Nat)
    (datagram : Bytes) (source : SocketAddress) :
    ({ transport := t, directory := d : Reception }).Announces
      (Datagram.heard d.identity.id (Datagram.payloads datagram))
      (t.receive d now datagram source) := by
  unfold receive Datagram.payloads
  cases Datagram.decode datagram with
  | error e => exact ⟨rfl, ⟨[], rfl, rfl⟩, id, fun p => by simp [Datagram.heard]⟩
  | ok ps =>
    dsimp only
    unfold Reception.handle
    dsimp only
    have ha := Reception.announcedAll_announces source.ip
      { transport :=
          { t with
            statistics.datagrams := t.statistics.datagrams + 1
            statistics.tossed :=
              t.statistics.tossed + (Sorted.ofPayloads d.identity ps).tossed.length
            outbox := (Sorted.ofPayloads d.identity ps).acknowledgements.foldl
              (fun o id => (o.acknowledge id).1) t.outbox }
        directory := d } (Sorted.ofPayloads d.identity ps).announcements
    obtain ⟨link, hl, -⟩ := UdpTransport.acknowledgeAll_eq _
      (Sorted.ofPayloads d.identity ps).reliable
    rw [hl]
    obtain ⟨statistics, hu⟩ := Reception.unpackedAll_eq now _ _
    rw [hu]
    exact ⟨ha.identity, ha.peers, ha.lists, ha.contexts⟩

end PeerMesh

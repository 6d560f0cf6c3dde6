import PeerMesh.Proofs.Receipts

namespace PeerMesh

namespace Roster

variable {cs : Roster} {j k : NodeNumber} {c c' : Newcomer}

/-- Every node has heard of every other one. -/
def IsIntroduced (cs : Roster) (log : NodeNumber → Diary) : Prop :=
  ∀ j k c, j ≠ k → k < cs.length → cs[j]? = some c → c.announcement ∈ (log k).heard

theorem Proper.of_prefix {cs' : Roster} (h : cs'.Proper) (hs : cs <+: cs') : cs.Proper :=
  ⟨fun c hc => h.starts c (hs.subset hc), fun c hc => h.sized c (hs.subset hc),
    fun c hc => h.named c (hs.subset hc), h.ids.sublist (hs.sublist.map _),
    h.addresses.sublist (hs.sublist.map _)⟩

theorem Proper.eq_of_id (h : cs.Proper) (hc : cs[j]? = some c) (hc' : cs[k]? = some c')
    (he : c.id = c'.id) : j = k := by
  have hj : (cs.map Newcomer.id)[j]? = some c.id := by
    rw [List.getElem?_map, hc]
    rfl
  have hk : (cs.map Newcomer.id)[k]? = some c.id := by
    rw [List.getElem?_map, hc', he]
    rfl
  exact (List.getElem?_inj (List.getElem?_eq_some_iff.mp hj).1 h.ids).mp (hj.trans hk.symm)

theorem Proper.who_eq (h : cs.Proper) (hc : cs[j]? = some c) : cs.who c.id = some c.declared := by
  have hm := List.mem_of_getElem? hc
  have hfind : (cs.find? (·.id = c.id)).isSome := List.find?_isSome.mpr ⟨c, hm, by simp⟩
  obtain ⟨c', hc'⟩ := Option.isSome_iff_exists.mp hfind
  have hid : c'.id = c.id := by simpa using List.find?_some hc'
  rw [who, hc', List.inj_on_of_nodup_map h.ids (List.mem_of_find?_eq_some hc') hm hid]
  rfl

end Roster

namespace Newcomer

variable {c : Newcomer}

theorem place?_announcement (h : c.address.scope = 0) :
    c.announcement.place? = some c.address := by
  rw [Announcement.place?, show c.announcement.identity = c.declared from rfl, declared,
    Identity.declaredPort_declare, ← h]
  rfl

theorem mem_heard_receive (hsized : c.declared.Sized) (hnamed : ¬ c.id.isNil) {self : PeerId}
    (hself : c.id ≠ self) (x : Diary) (now : Nat) : c.announcement ∈
      (x.receive self (Payload.announcement c.declared).encode c.address now).heard := by
  have hpayloads : Datagram.payloads (Payload.announcement c.declared).encode =
    [.announcement c.declared] := Datagram.payloads_encode (p := .announcement c.declared) hsized
  refine List.mem_append_right _ (List.mem_map.mpr ⟨c.declared, ?_, rfl⟩)
  rw [hpayloads]
  refine List.mem_filter.mpr ⟨List.mem_singleton_self _, ?_⟩
  have hid : c.declared.id = c.id := rfl
  simp [hid, hself, hnamed]

end Newcomer

/-- Whoever has the diary heard of a node, or is about to. -/
def Newcomer.IsTold (c : Newcomer) (tasks : List Task) (k : NodeNumber) (x : Diary) : Prop :=
  c.announcement ∈ x.heard ∨
    .receive k (Payload.announcement c.declared).encode c.address ∈ tasks

/-- How much a task can still lead to: a packet to its acknowledgement and a message. -/
def Task.load : Task → Nat
  | .receive _ datagram _ =>
    1 + 2 * ((Datagram.payloads datagram).filterMap Sorted.packet?).length
  | _ => 1

namespace Hub

variable {h h' : Hub} {cs : Roster} {log log' : NodeNumber → Diary} {j k : NodeNumber}
  {c : Newcomer} {rest : List Task}

/-- The nodes are those of the roster, each as its diary says, and the diaries account for what was
sent and for what is still to be done. Whoever sends a message knows all others. -/
structure Sound (h : Hub) (cs : Roster) (log : NodeNumber → Diary) : Prop
    extends Audit cs h.sent h.tasks log where
  unscoped : ∀ c ∈ cs, c.address.scope = 0
  houses : h.world.Houses cs log
  blank : ∀ k, cs.length ≤ k → log k = {}
  ready : h.sent ≠ [] → h.world.fabric.dropping = false ∧ cs.IsIntroduced log

/-- Nobody forgets whom they heard of, and what was announced is heard or still under way. -/
structure Recalls (h' : Hub) (log' : NodeNumber → Diary) (h : Hub) (log : NodeNumber → Diary)
    (cs : Roster) : Prop where
  heard : ∀ k, (log k).heard ⊆ (log' k).heard
  told : ∀ j k (c : Newcomer), j ≠ k → cs[j]? = some c → c.IsTold h.tasks k (log k) →
    c.IsTold h'.tasks k (log' k)

theorem Recalls.introduced (hr : h'.Recalls log' h log cs) (hi : cs.IsIntroduced log) :
    cs.IsIntroduced log' :=
  fun j k c hne hk hc => hr.heard k (hi j k c hne hk hc)

namespace Sound

theorem same (s : h.Sound cs log) (hc : cs[j]? = some c) :
    ∀ a ∈ (log k).heard, a.identity.id = c.announcement.identity.id → a = c.announcement := by
  intro a ha hid
  obtain ⟨i, c', -, hc', rfl⟩ := s.books.heard k a ha
  obtain rfl := s.proper.eq_of_id hc' hc hid
  cases hc.symm.trans hc'
  rfl

theorem lastPlace (s : h.Sound cs log) (hc : cs[j]? = some c)
    (ha : c.announcement ∈ (log k).heard) :
    Announcement.lastPlace (log k).heard c.id = some c.address :=
  Announcement.lastPlace_of_same
    (Newcomer.place?_announcement (s.unscoped c (List.mem_of_getElem? hc))) ha (s.same hc)

theorem latest (s : h.Sound cs log) (hc : cs[j]? = some c)
    (ha : c.announcement ∈ (log k).heard) :
    PeerTable.latest ((log k).heard.map Announcement.identity) c.id = some c.declared :=
  Announcement.latest_of_same ha (s.same hc)

theorem goOn (s : h.Sound cs log) (hk : k < cs.length) {out : World × List Task}
    {more : List Task} {x : Diary} (hx : (log k).heard ⊆ x.heard)
    (hy : h.world.Yields cs out more (Function.update log k x))
    (hb : Books cs h.sent (rest ++ more) (Function.update log k x)) :
    Sound ⟨out.1, rest ++ out.2, h.sent⟩ cs (Function.update log k x) := by
  have hblank : ∀ i, cs.length ≤ i → Function.update log k x i = {} := by
    intro i hi
    rw [Function.update_of_ne (Nat.ne_of_gt (Nat.lt_of_lt_of_le hk hi))]
    exact s.blank i hi
  rw [← hy.tasks] at hb
  refine ⟨⟨s.proper, s.orderly, hb⟩, s.unscoped, hy.houses, hblank, fun hsent => ?_⟩
  obtain ⟨hd, hi⟩ := s.ready hsent
  refine ⟨(congrArg Fabric.dropping hy.fabric).trans hd, fun i j c hne hj hc => ?_⟩
  have ha := hi i j c hne hj hc
  by_cases hjk : j = k
  · rw [hjk, Function.update_self]
    exact hx (hjk ▸ ha)
  · rw [Function.update_of_ne hjk]
    exact ha

theorem perform_recalls (s : h.Sound cs log) {t : Task} {more : List Task}
    (hp : h.tasks.Perm (t :: rest)) {x : Diary} (hx : (log t.node).heard ⊆ x.heard)
    (hnew : ∀ c ∈ cs, ∀ k, t = .receive k (Payload.announcement c.declared).encode c.address →
      (∀ c', cs[k]? = some c' → c.id ≠ c'.id) → c.announcement ∈ x.heard) {w : World} :
    Recalls ⟨w, rest ++ more, h.sent⟩ (Function.update log t.node x) h log cs := by
  have hheard (k : NodeNumber) : (log k).heard ⊆ (Function.update log t.node x k).heard := by
    by_cases hk : k = t.node
    · subst hk
      rw [Function.update_self]
      exact hx
    · rw [Function.update_of_ne hk]
      exact List.Subset.refl _
  refine ⟨hheard, fun j k c hne hc ht => ?_⟩
  obtain ha | ht := ht
  · exact .inl (hheard k ha)
  · obtain rfl | ht := List.mem_cons.mp (hp.mem_iff.mp ht)
    · refine .inl ?_
      rw [show Task.node _ = k from rfl, Function.update_self]
      refine hnew c (List.mem_of_getElem? hc) k rfl fun c' hc' he => hne ?_
      exact s.proper.eq_of_id hc hc' he
    · exact .inr (List.mem_append_left _ ht)

end Sound

structure Continues (h' : Hub) (h : Hub) (cs : Roster) (log : NodeNumber → Diary) : Prop where
  sent : h'.sent = h.sent
  dropping : h'.world.fabric.dropping = h.world.fabric.dropping
  sound : ∃ log', h'.Sound cs log' ∧ h'.Recalls log' h log cs

structure Progresses (h' : Hub) (h : Hub) (cs : Roster) (log : NodeNumber → Diary) (t : Task)
    (rest : List Task) : Prop extends Continues h' h cs log where
  less : ∃ more, h'.tasks = rest ++ more ∧ (more.map Task.load).sum < t.load

namespace Sound

theorem progresses (s : h.Sound cs log) {t : Task} {more : List Task}
    (hp : h.tasks.Perm (t :: rest)) (hk : t.node < cs.length) {x : Diary}
    (hx : (log t.node).heard ⊆ x.heard)
    (hnew : ∀ c ∈ cs, ∀ k, t = .receive k (Payload.announcement c.declared).encode c.address →
      (∀ c', cs[k]? = some c' → c.id ≠ c'.id) → c.announcement ∈ x.heard)
    (hy : h.world.Yields cs (h.world.perform t) more (Function.update log t.node x))
    (hb : Books cs h.sent (rest ++ more) (Function.update log t.node x))
    (hload : (more.map Task.load).sum < t.load) :
    ({ h with tasks := rest }.perform t).Progresses h cs log t rest := by
  have htasks : ({ h with tasks := rest }.perform t).tasks = rest ++ more :=
    congrArg (rest ++ ·) hy.tasks
  exact ⟨⟨rfl, congrArg Fabric.dropping hy.fabric, _, s.goOn hk hx hy hb,
    s.perform_recalls hp hx hnew⟩, more, htasks, hload⟩

theorem receive_progresses (s : h.Sound cs log) {d : Bytes} {source : SocketAddress}
    {more : List Task} (hp : h.tasks.Perm (.receive k d source :: rest)) (hc : cs[k]? = some c)
    (hy : h.world.Yields cs (h.world.perform (.receive k d source)) more
      (Function.update log k ((log k).receive c.id d source h.world.now)))
    (hb : Books cs h.sent (rest ++ more)
      (Function.update log k ((log k).receive c.id d source h.world.now)))
    (hload : (more.map Task.load).sum < (Task.receive k d source).load) :
    ({ h with tasks := rest }.perform (.receive k d source)).Progresses h cs log
      (.receive k d source) rest := by
  refine s.progresses hp (Roster.lt_length hc) (List.subset_append_left _ _) ?_ hy hb hload
  intro c' hc' j he hid
  cases he
  exact Newcomer.mem_heard_receive (s.proper.sized c' hc') (s.proper.named c' hc') (hid c hc) _ _

theorem perform_other (s : h.Sound cs log) {d : Bytes} {source : SocketAddress}
    (hp : h.tasks.Perm (.receive k d source :: rest)) (hc : cs[k]? = some c)
    (hn : (Datagram.payloads d).filterMap Sorted.packet? = [])
    (hheard : ∀ i ∈ Datagram.heard c.id (Datagram.payloads d), ∃ j c',
      j ≠ k ∧ cs[j]? = some c' ∧ ⟨source.ip, i⟩ = c'.announcement) :
    ({ h with tasks := rest }.perform (.receive k d source)).Progresses h cs log
      (.receive k d source) rest := by
  have harrivals : (log k).arrivals c d source h.world.now = [] := Diary.arrivals_of_no_packet hn
  refine s.receive_progresses hp hc (s.houses.receive_other hc hn source)
    (s.books.receive hc hp nofun (fun j => ?_) (fun p hp i hi hk hd => ?_) hheard
      (.inl harrivals)) (Nat.lt_add_right _ Nat.one_pos)
  · rw [harrivals, ite_self]
    rfl
  · rw [hd, s.payloads_datagram hp] at hn
    cases hn

theorem perform_packet (s : h.Sound cs log) {p : Posting} (hsent : p ∈ h.sent) {i : Nat}
    (hi : i < p.send.count) {source : SocketAddress}
    (hp : h.tasks.Perm (.receive p.receiver (p.datagram i) source :: rest)) :
    ({ h with tasks := rest }.perform (.receive p.receiver (p.datagram i) source)).Progresses h cs
      log (.receive p.receiver (p.datagram i) source) rest := by
  obtain ⟨hd, hintroduced⟩ := s.ready (List.ne_nil_of_mem hsent)
  obtain ⟨hne, c, c', ids, hc, hc', hs⟩ := s.books.postings p hsent
  have hpayloads := s.payloads_datagram hsent i
  have hreceiver : (p.send.packet i).receiver = c'.id := by
    rw [ReliableSend.packet, hs]
  have hsender : (p.send.packet i).sender = c.id := by
    rw [ReliableSend.packet, hs]
  have hplace := s.lastPlace hc (hintroduced p.node p.receiver c hne (Roster.lt_length hc') hc)
  rw [← hsender] at hplace
  have hy := s.houses.receive_packet hd hc' hpayloads rfl hreceiver hc hplace source
  have harrivals := s.arrivals_packet hsent hc' hi source h.world.now
  have hload : (Task.receive p.receiver (p.datagram i) source).load = 3 := by
    rw [Task.load, hpayloads]
    rfl
  have hanswer : (Task.receive p.node (p.answer i) c'.address).load = 1 := by
    rw [Task.load, p.payloads_answer]
    rfl
  refine s.receive_progresses hp hc' hy (s.books.receive hc' hp ?_ (fun j => ?_)
    (fun q hq j hj hk hd => ?_) ?_
    (.inr ⟨p, hsent, rfl, ReliableSend.mem_datagrams.mpr ⟨i, hi, rfl⟩⟩)) ?_
  · refine List.forall_mem_cons.mpr ⟨.answer hsent hi c'.address, fun t ht => ?_⟩
    obtain ⟨e, he, rfl⟩ := List.mem_map.mp ht
    obtain ha | ha := harrivals
    · rw [ha] at he
      cases he
    · rw [ha] at he
      rw [List.mem_singleton.mp he]
      exact .message hsent
  · rw [List.filterMap_cons_none rfl, Task.filterMap_message?_dispatch]
  · rw [hd, s.payloads_datagram hq] at hpayloads
    have hpacket : q.send.packet j = p.send.packet i := by simpa using hpayloads
    -- The ids tell whose packet it is, so that the answer is on its way to the right node.
    obtain rfl : q = p := by
      refine s.orderly.eq_of_mem_packetIds hq hsent (ReliableSend.mem_packetIds.mpr ⟨j, hj, rfl⟩) ?_
      exact ReliableSend.mem_packetIds.mpr ⟨i, hi, congrArg Packet.id hpacket.symm⟩
    refine ⟨c'.address, ?_⟩
    rw [Posting.answer, hpacket]
    exact List.mem_cons_self
  · rw [hpayloads]
    exact List.forall_mem_nil _
  · rw [hload, List.map_cons, List.sum_cons]
    have ha : (((log p.receiver).arrivals c' (p.datagram i) source h.world.now).map fun e =>
        (Task.dispatch p.receiver e).load).sum ≤ 1 := by
      obtain ha | ha := harrivals
      · rw [ha]
        exact Nat.zero_le 1
      · rw [ha]
        exact Nat.le_refl 1
    rw [List.map_map]
    exact Nat.lt_of_le_of_lt (Nat.add_le_add hanswer.le ha) (by decide)

theorem perform_message (s : h.Sound cs log) {p : Posting} (hsent : p ∈ h.sent)
    (hp : h.tasks.Perm (.dispatch p.receiver p.send.message :: rest)) :
    ({ h with tasks := rest }.perform (.dispatch p.receiver p.send.message)).Progresses h cs
      log (.dispatch p.receiver p.send.message) rest := by
  obtain ⟨-, hintroduced⟩ := s.ready (List.ne_nil_of_mem hsent)
  obtain ⟨hne, c, c', ids, hc, hc', hs⟩ := s.books.postings p hsent
  have hsender : p.send.message.sender = c.id := by rw [hs]
  have hreceiver : p.send.message.receiver = c'.id := by rw [hs]
  have hself : c.id ≠ c'.id := fun hid => hne (s.proper.eq_of_id hc hc' hid)
  have hlatest := s.latest hc (hintroduced p.node p.receiver c hne (Roster.lt_length hc') hc)
  have hy := s.houses.dispatch hc' (hsender ▸ hself)
    (hsender ▸ s.proper.named c (List.mem_of_getElem? hc)) hreceiver (hsender ▸ s.proper.who_eq hc)
    (hsender ▸ hlatest)
  have hbooks := s.books.dispatch hp
  have hload : (([] : List Task).map Task.load).sum <
      (Task.dispatch p.receiver p.send.message).load := Nat.one_pos
  rw [← List.append_nil rest] at hbooks
  exact s.progresses (x := (log p.receiver).handle p.send.message) hp (Roster.lt_length hc')
    (List.Subset.refl _) (fun _ _ _ he => nomatch he) hy hbooks hload

/-- Whatever is done next, it leaves less to be done. -/
theorem perform (s : h.Sound cs log) {t : Task} (hp : h.tasks.Perm (t :: rest)) :
    ({ h with tasks := rest }.perform t).Progresses h cs log t rest := by
  have hmail := s.books.mail t (hp.mem_iff.mpr List.mem_cons_self)
  cases hmail with
  | @announcement j k c hk hc =>
    have hpayloads := s.payloads_announcement (List.mem_of_getElem? hc)
    refine s.perform_other hp (List.getElem?_eq_getElem hk) (by rw [hpayloads]; rfl) fun i hi => ?_
    rw [hpayloads] at hi
    obtain ⟨hi, hself⟩ := List.mem_filter.mp hi
    obtain rfl : i = c.declared := by simpa [Sorted.announcement?] using hi
    refine ⟨j, c, ?_, hc, rfl⟩
    -- A node hears its own announcement too, and takes no notice of it.
    rintro rfl
    rw [(List.getElem?_eq_some_iff.mp hc).2] at hself
    simp [Newcomer.id, Newcomer.declared, Identity.declare] at hself
  | packet hsent hi source => exact s.perform_packet hsent hi hp
  | @answer p i hsent hi source =>
    obtain ⟨-, c, c', ids, hc, -⟩ := s.books.postings p hsent
    refine s.perform_other hp hc (by rw [p.payloads_answer]; rfl) fun i hi => ?_
    rw [p.payloads_answer] at hi
    cases hi
  | message hsent => exact s.perform_message hsent hp

theorem continues_self (s : h.Sound cs log) : h.Continues h cs log :=
  ⟨rfl, rfl, log, s, fun _ => List.Subset.refl _, fun _ _ _ _ _ ht => ht⟩

theorem spread (s : h.Sound cs log) (hc : cs[k]? = some c) {out : World × List Task}
    {ps : List Parcel} (hps : ∀ p ∈ ps, p = c.hello)
    (hy : h.world.Yields cs out (ps.flatMap (h.world.fabric.deliveries c.address)) log) :
    Continues ⟨out.1, h.tasks ++ out.2, h.sent⟩ h cs log := by
  have hdeliveries : ∀ t ∈ ps.flatMap (h.world.fabric.deliveries c.address), ∃ j < cs.length,
      t = .receive j (Payload.announcement c.declared).encode c.address := by
    intro t ht
    obtain ⟨p, hp, ht⟩ := List.mem_flatMap.mp ht
    rw [hps p hp] at ht
    exact s.houses.mem_deliveries_broadcast.mp ht
  have hbooks : Books cs h.sent
      (h.tasks ++ ps.flatMap (h.world.fabric.deliveries c.address)) log := by
    refine s.books.grow (fun t ht => ?_) fun j => List.filterMap_eq_nil_iff.mpr fun t ht => ?_
    · obtain ⟨j, hj, rfl⟩ := hdeliveries t ht
      exact .announcement hj hc
    · obtain ⟨j, -, rfl⟩ := hdeliveries t ht
      rfl
  rw [← Function.update_eq_self k log] at hy hbooks
  have hsound := s.goOn (Roster.lt_length hc) (List.Subset.refl _) hy hbooks
  rw [Function.update_eq_self] at hsound
  refine ⟨rfl, congrArg Fabric.dropping hy.fabric, log, hsound, fun _ => List.Subset.refl _, ?_⟩
  exact fun j k c hne hc ht => ht.imp_right (List.mem_append_left _)

theorem isTold_of_deliveries (s : h.Sound cs log) (hk : k < cs.length) {tasks : List Task}
    (ht : h.world.fabric.deliveries c.address c.hello ⊆ tasks) (x : Diary) :
    c.IsTold tasks k x :=
  .inr (ht (s.houses.mem_deliveries_broadcast.mpr ⟨k, hk, rfl⟩))

theorem quiet_of_nil (s : h.Sound cs log) (hsent : h.sent = []) : h.IsQuiet := by
  intro t ht
  have hmail := s.books.mail t ht
  rw [hsent] at hmail
  cases hmail with
  | announcement hk hc =>
    rintro ⟨p, hp, hn⟩
    rw [s.payloads_announcement (List.mem_of_getElem? hc)] at hp
    cases List.mem_singleton.mp hp
    cases hn
  | packet hp => cases hp
  | answer hp => cases hp
  | message hp => cases hp

end Sound

end Hub

end PeerMesh

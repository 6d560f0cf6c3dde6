import PeerMesh.Proofs.Progress

namespace PeerMesh.Hub.Sound

variable {h : Hub} {cs : Roster} {log : NodeNumber → Diary} {k : NodeNumber} {c : Newcomer}

theorem announce (s : h.Sound cs log) (hc : cs[k]? = some c) : ∃ out : World × List Task,
    h.step (.announce k) = ⟨out.1, h.tasks ++ out.2, h.sent⟩ ∧
      h.world.Yields cs out (h.world.fabric.deliveries c.address c.hello) log := by
  obtain ⟨r, hr, -⟩ := s.houses.members k c hc
  refine ⟨_, ?_, s.houses.announce hc hr⟩
  rw [step, hr]
  rfl

theorem goOff (s : h.Sound cs log) (hquiet : h.IsQuiet) {i : Nat} {t : World.Timer}
    (ht : h.world.timers[i]? = some t) (hdue : t.due ≤ h.world.now) :
    ∃ out : World × List Task, ∃ c ps, h.step (.goOff i) = ⟨out.1, h.tasks ++ out.2, h.sent⟩ ∧
      cs[t.task.node]? = some c ∧
      h.world.Yields cs out (ps.flatMap (h.world.fabric.deliveries c.address)) log ∧
      (∀ p ∈ ps, p = c.hello) ∧ ∀ k, t.task = .announce k → ps = [c.hello] := by
  obtain ⟨c, ps, hc, hy, hps, hall⟩ := s.houses.goOff (List.mem_of_getElem? ht) hdue
    fun k c hc => ⟨s.outbox_idle hquiet k _, s.reassembler_idle hquiet hc⟩
  refine ⟨_, c, ps, ?_, hc, hy, hps, hall⟩
  rw [step, ht]
  exact if_pos hdue

/-- A move with which no one joins or sends a message. -/
theorem step (s : h.Sound cs log) {m : Move} (hm : h.Permits cs.length m)
    (hsend : m.sending? = none) : (h.step m).Continues h cs log := by
  cases m with
  | start c => exact hm.elim
  | dropUnicasts on => exact hm.elim
  | send handle node receiver message => cases hsend
  | announce k =>
    cases hc : cs[k]? with
    | some c =>
      obtain ⟨out, hstep, hy⟩ := s.announce hc
      rw [← List.flatMap_singleton (h.world.fabric.deliveries c.address) c.hello] at hy
      rw [hstep]
      exact s.spread hc (fun p => List.mem_singleton.mp) hy
    | none =>
      have hr : h.world.residents.get? k = none := by
        have hk : k ∉ h.world.residents.keys := by
          rw [s.houses.keys, List.mem_range]
          exact Nat.not_lt.mpr (List.getElem?_eq_none_iff.mp hc)
        rw [KeyedList.mem_keys_iff] at hk
        exact Option.eq_none_iff_forall_ne_some.mpr fun r hr => hk ⟨r, hr⟩
      have hstep : h.step (.announce k) = h := by
        rw [Hub.step, hr]
      rw [hstep]
      exact s.continues_self
  | goOff i =>
    cases ht : h.world.timers[i]? with
    | none =>
      have hstep : h.step (.goOff i) = h := by
        rw [Hub.step, ht]
      rw [hstep]
      exact s.continues_self
    | some t =>
      by_cases hdue : t.due ≤ h.world.now
      · obtain ⟨out, c, ps, hstep, hc, hy, hps, -⟩ := s.goOff hm ht hdue
        rw [hstep]
        exact s.spread hc hps hy
      · have hstep : h.step (.goOff i) = h := by
          rw [Hub.step, ht]
          exact if_neg hdue
        rw [hstep]
        exact s.continues_self
  | perform i =>
    cases ht : h.tasks[i]? with
    | none =>
      have hstep : h.step (.perform i) = h := by
        rw [Hub.step, ht]
      rw [hstep]
      exact s.continues_self
    | some t =>
      obtain ⟨hlt, rfl⟩ := List.getElem?_eq_some_iff.mp ht
      have hstep : h.step (.perform i) =
          { h with tasks := h.tasks.eraseIdx i }.perform h.tasks[i] := by
        rw [Hub.step, ht]
      rw [hstep]
      exact (s.perform (List.getElem_cons_eraseIdx_perm hlt).symm).toContinues
  | wait ms =>
    refine ⟨rfl, rfl, log, ⟨s.toAudit, s.unscoped, ?_, s.blank, s.ready⟩,
      fun _ => List.Subset.refl _, fun _ _ _ _ _ ht => ht⟩
    exact ⟨s.houses.keys, s.houses.attached, s.houses.members⟩

theorem tells (s : h.Sound cs log) (hquiet : h.IsQuiet) (hc : cs[k]? = some c) {m : Move}
    (hm : h.Announces k m) {j : NodeNumber} (hj : j < cs.length) (x : Diary) :
    c.IsTold (h.step m).tasks j x := by
  cases m with
  | announce node =>
    obtain rfl : node = k := hm
    obtain ⟨out, hstep, hy⟩ := s.announce hc
    rw [hstep]
    refine s.isTold_of_deliveries hj ?_ x
    rw [← hy.tasks]
    exact List.subset_append_right _ _
  | goOff i =>
    obtain ⟨t, ht, hdue, htask⟩ := hm
    obtain ⟨out, c', ps, hstep, hc', hy, -, hall⟩ := s.goOff hquiet ht hdue
    rw [htask] at hc'
    cases hc.symm.trans hc'
    rw [hstep]
    refine s.isTold_of_deliveries hj ?_ x
    rw [hall k htask, List.flatMap_singleton] at hy
    rw [← hy.tasks]
    exact List.subset_append_right _ _
  | _ => exact hm.elim

theorem dropUnicasts (s : h.Sound cs log) (hsent : h.sent = []) (on : Bool) :
    (h.step (.dropUnicasts on)).Sound cs log := by
  refine ⟨s.toAudit, s.unscoped, ?_, s.blank, fun hne => absurd hsent hne⟩
  exact ⟨s.houses.keys, s.houses.attached, s.houses.members⟩

theorem start (s : h.Sound cs log) (hsent : h.sent = []) (hcs : Roster.Proper (cs ++ [c]))
    (hscope : c.address.scope = 0) : (h.step (.start c)).Sound (cs ++ [c]) log := by
  have hnew : log cs.length = {} := s.blank _ (Nat.le_refl _)
  have hidle (k : NodeNumber) : (log k).handled = [] := by
    cases hk : cs[k]? with
    | none => rw [s.blank k (List.getElem?_eq_none_iff.mp hk)]
    | some c =>
      have hnil : ((log k).station c).received.flatMap Prod.snd = [] := by
        refine List.flatMap_eq_nil_iff.mpr fun y hy => ?_
        refine (s.books.received k c hk y hy).resolve_right ?_
        rintro ⟨p, hp, -⟩
        rw [hsent] at hp
        cases hp
      have hhandled := s.books.handled k c hk
      rw [hnil] at hhandled
      exact (List.append_eq_nil_iff.mp hhandled.eq_nil).1
  have hapart : ∀ c' ∈ cs, c'.address ≠ c.address := by
    have hn := hcs.addresses
    rw [List.map_append, List.nodup_append] at hn
    exact fun c' hc' => hn.2.2 _ (List.mem_map_of_mem hc') _ (by simp)
  obtain ⟨hhouses, -⟩ := s.houses.start (hcs.starts c (by simp)) hapart hnew hidle
  have hbooks := s.books
  rw [hsent] at hbooks
  refine ⟨⟨hcs, s.orderly, ?_⟩, fun c' hc' => ?_, hhouses, fun k hk => ?_,
    fun hne => absurd hsent hne⟩
  · show Books (cs ++ [c]) h.sent h.tasks log
    rw [hsent]
    exact hbooks.join hnew c
  · obtain hc' | hc' := List.mem_append.mp hc'
    · exact s.unscoped c' hc'
    · rw [List.mem_singleton.mp hc']
      exact hscope
  · rw [List.length_append] at hk
    exact s.blank k (Nat.le_of_succ_le hk)

/-- A node that knows another one sends to where that is. -/
theorem posting (s : h.Sound cs log) (hi : cs.IsIntroduced log) {node receiver : NodeNumber}
    {c c' : Newcomer} (hc : cs[node]? = some c) (hc' : cs[receiver]? = some c')
    (hne : node ≠ receiver) (handle : String) (message : Content) :
    ∃ p r endpoint, h.posting handle node receiver message = some (p, r) ∧ p.IsOn cs ∧
      p.sending = (handle, node, receiver, message) ∧
      p.status = .awaiting (List.range' (Outbox.registrations (log node).events).length
        p.send.count) ∧
      r.Matches cs.who c ((log node).post h.world.now endpoint p.send)
        (p.send.packets.map fun q => .unicast c'.address q.datagram) := by
  obtain ⟨r, hr, hm⟩ := s.houses.members node c hc
  obtain ⟨peer, hpeer, hm'⟩ := s.houses.members receiver c' hc'
  obtain ⟨t, hu, ht⟩ := hm.transport
  have hid : r.node.id = c.id := by
    rw [Node.id, hm.identity]
    rfl
  have hid' : peer.node.id = c'.id := by
    rw [Node.id, hm'.identity]
    rfl
  have hplace := s.lastPlace hc' (hi receiver node c' hne.symm (Roster.lt_length hc) hc')
  rw [← hid'] at hplace
  obtain ⟨hstatus, endpoint, hsent⟩ := hm.send hu hplace message.body h.world.now rfl
  let p : Posting :=
    { handle, node, receiver, message
      status := (r.node.send h.world.now peer.node.id message.body true).2
      send := ⟨⟨r.node.id, peer.node.id, message.body⟩, r.node.id, t.config.maxDatagram, t.ids⟩ }
  refine ⟨p, _, endpoint, ?_, ⟨hne, c, c', t.ids, hc, hc', ?_⟩, rfl, hstatus, hsent⟩
  · simp [Hub.posting, hr, hpeer, hu, p]
  · rw [← hid, ← hid', ← ht.config]

theorem post (s : h.Sound cs log) (hd : h.world.fabric.dropping = false)
    (hi : cs.IsIntroduced log) {node receiver : NodeNumber} (hn : node < cs.length)
    (hr : receiver < cs.length) (hne : node ≠ receiver) (handle : String) (message : Content)
    {h' : Hub} (hh : h' = h.step (.send handle node receiver message)) :
    ∃ p : Posting, p.sending = (handle, node, receiver, message) ∧ h'.sent = h.sent ++ [p] ∧
      h'.world.fabric.dropping = false ∧
      (Orderly h'.sent → ∃ log', h'.Sound cs log' ∧ cs.IsIntroduced log') := by
  have hc : cs[node]? = some cs[node] := List.getElem?_eq_getElem hn
  have hc' : cs[receiver]? = some cs[receiver] := List.getElem?_eq_getElem hr
  obtain ⟨p, r, endpoint, hposting, hon, hsending, hstatus, hm⟩ :=
    s.posting hi hc hc' hne handle message
  obtain ⟨rfl, rfl, rfl, rfl⟩ : p.handle = handle ∧ p.node = node ∧ p.receiver = receiver ∧
      p.message = message := by simpa [Posting.sending] using hsending
  have hnote : (h.world.note p.handle p.node p.status).Houses cs log :=
    ⟨s.houses.keys, s.houses.attached, s.houses.members⟩
  have hy := hnote.put hc hm (.inl hd)
  have hdeliveries : (p.send.packets.map fun q =>
      Parcel.unicast cs[p.receiver].address q.datagram).flatMap
        ((h.world.note p.handle p.node p.status).fabric.deliveries cs[p.node].address) =
      p.send.packets.map fun q => .receive p.receiver q.datagram cs[p.node].address := by
    rw [List.flatMap_map, ← List.flatMap_pure_eq_map]
    exact List.flatMap_congr fun q _ => hnote.deliveries_unicast hd hc' _ _
  have hstep : h' = ⟨((h.world.note p.handle p.node p.status).put p.node r).1,
      h.tasks ++ ((h.world.note p.handle p.node p.status).put p.node r).2, h.sent ++ [p]⟩ := by
    rw [hh, Hub.step, hposting]
    rfl
  have hbooks : Books cs (h.sent ++ [p]) _
      (Function.update log p.node ((log p.node).post h.world.now endpoint p.send)) :=
    s.books.send hon hstatus cs[p.node].address
  rw [hdeliveries] at hy
  rw [← hy.tasks] at hbooks
  have hdropping : h'.world.fabric.dropping = false := by
    rw [hstep]
    exact (congrArg Fabric.dropping hy.fabric).trans hd
  have hintroduced : cs.IsIntroduced
      (Function.update log p.node ((log p.node).post h.world.now endpoint p.send)) := by
    intro i j c hij hj hc
    have ha := hi i j c hij hj hc
    by_cases hjn : j = p.node
    · rw [hjn, Function.update_self]
      exact hjn ▸ ha
    · rw [Function.update_of_ne hjn]
      exact ha
  refine ⟨p, hsending, by rw [hstep], hdropping, fun ho => ⟨_, ?_, hintroduced⟩⟩
  rw [hstep] at ho hdropping ⊢
  refine ⟨⟨s.proper, ho, hbooks⟩, s.unscoped, hy.houses, fun k hk => ?_,
    fun _ => ⟨hdropping, hintroduced⟩⟩
  rw [Function.update_of_ne (Nat.ne_of_gt (Nat.lt_of_lt_of_le hn hk))]
  exact s.blank k hk

end PeerMesh.Hub.Sound

import Mathlib.Logic.Function.Basic
import PeerMesh.Proofs.Diary
import PeerMesh.Proofs.Properties

namespace PeerMesh

namespace Newcomer

def announcement (c : Newcomer) : Announcement :=
  ⟨c.address.ip, c.declared⟩

end Newcomer

abbrev Roster := List Newcomer

namespace Roster

/-- The nodes start, and have ids and addresses of their own. -/
structure Proper (cs : Roster) : Prop where
  starts : ∀ c ∈ cs, c.Starts
  sized : ∀ c ∈ cs, c.declared.Sized
  named : ∀ c ∈ cs, ¬ c.id.isNil
  ids : (cs.map Newcomer.id).Nodup
  addresses : (cs.map Newcomer.address).Nodup

def who (cs : Roster) (p : PeerId) : Option Identity :=
  (cs.find? (·.id = p)).map Newcomer.declared

variable {cs cs' : Roster} {k : NodeNumber} {c : Newcomer}

theorem lt_length (hc : cs[k]? = some c) : k < cs.length :=
  (List.getElem?_eq_some_iff.mp hc).1

theorem getElem?_of_prefix (h : cs <+: cs') (hc : cs[k]? = some c) : cs'[k]? = some c := by
  obtain ⟨more, rfl⟩ := h
  rw [List.getElem?_append_left (lt_length hc)]
  exact hc

end Roster

theorem Identity.declaredPort_declare (i : Identity) (key : String) (port : UInt16) :
    (i.declare key (.int (Int64.ofNat port.toNat))).declaredPort key = some port := by
  have hlt := port.toNat_lt
  have hint : (Int64.ofNat port.toNat).toInt = port.toNat := by
    rw [Int64.toInt_ofNat_of_lt (by omega)]
  have hget : (i.declare key (.int (Int64.ofNat port.toNat))).properties.get? key =
      some (.int (Int64.ofNat port.toNat)) :=
    (i.properties.get?_insert key _ key).trans (if_pos rfl)
  rw [declaredPort, hget]
  dsimp only
  rw [hint, if_pos ⟨by omega, by omega⟩, Int.toNat_natCast, UInt16.ofNat_toNat]

namespace Announcement

open PeerTable

theorem lastPlace_of_same {as : List Announcement} {a : Announcement} {place : SocketAddress}
    (hp : a.place? = some place) (ha : a ∈ as)
    (hsame : ∀ b ∈ as, b.identity.id = a.identity.id → b = a) :
    lastPlace as a.identity.id = some place := by
  have hall : ∀ b ∈ (as.filter fun b => b.identity.id = a.identity.id).filterMap place?,
      b = place := by
    intro b hb
    obtain ⟨b', hb', hplace⟩ := List.mem_filterMap.mp hb
    obtain ⟨hmem, hid⟩ := List.mem_filter.mp hb'
    rw [hsame b' hmem (by simpa using hid), hp] at hplace
    exact (Option.some.inj hplace).symm
  obtain ⟨b, hb⟩ := Option.isSome_iff_exists.mp
    (isSome_lastPlace.mpr ⟨a, ha, rfl, by rw [hp]; rfl⟩)
  rw [hb, hall b (List.mem_of_getLast? hb)]

theorem latest_of_same {as : List Announcement} {a : Announcement} (ha : a ∈ as)
    (hsame : ∀ b ∈ as, b.identity.id = a.identity.id → b = a) :
    latest (as.map Announcement.identity) a.identity.id = some a.identity := by
  have hall : ∀ i ∈ (as.map Announcement.identity).filter fun i => i.id = a.identity.id,
      i = a.identity := by
    intro i hi
    obtain ⟨hm, hid⟩ := List.mem_filter.mp hi
    obtain ⟨b, hb, rfl⟩ := List.mem_map.mp hm
    rw [hsame b hb (by simpa using hid)]
  have hmem : a.identity ∈ (as.map Announcement.identity).filter fun i => i.id = a.identity.id :=
    List.mem_filter.mpr ⟨List.mem_map_of_mem ha, by simp⟩
  unfold latest
  cases hl : ((as.map Announcement.identity).filter fun i => i.id = a.identity.id).getLast? with
  | none =>
    rw [List.getLast?_eq_none_iff.mp hl] at hmem
    cases hmem
  | some i => rw [hall i (List.mem_of_getLast? hl)]

end Announcement

theorem Diary.arrivals_of_no_packet {bs : Bytes}
    (h : (Datagram.payloads bs).filterMap Sorted.packet? = []) {x : Diary} {c : Newcomer}
    {source : SocketAddress} {now : Nat} : x.arrivals c bs source now = [] := by
  obtain ⟨-, -, ha, -⟩ :=
    (x.station c).transport.receive_handles (x.station c).directory now bs source
  rw [arrivals, ha, Sorted.ofPayloads, h]
  rfl

def Fabric.deliveries (f : Fabric) (source : SocketAddress) (p : Parcel) : List Task :=
  (f.carry source p).2

theorem Fabric.carryAll_eq (f : Fabric) (source : SocketAddress) {ps : List Parcel}
    (h : f.dropping = false ∨ ∀ p ∈ ps, ∃ d, p = .broadcast d) :
    f.carryAll source ps = (f, ps.flatMap (f.deliveries source)) := by
  have hcarry : ∀ p ∈ ps, (f.carry source p).1 = f := by
    intro p hp
    cases p with
    | broadcast d => rfl
    | unicast a d =>
      obtain hd | hb := h
      · rw [carry, hd]
        rfl
      · obtain ⟨d', hd'⟩ := hb _ hp
        cases hd'
  have hfold (done : List Task) : ps.foldl (fun (s : Fabric × List Task) p =>
      ((s.1.carry source p).1, s.2 ++ (s.1.carry source p).2)) (f, done) =
      (f, done ++ ps.flatMap (f.deliveries source)) := by
    clear h
    induction ps generalizing done with
    | nil => exact Prod.ext rfl (List.append_nil done).symm
    | cons p ps ih =>
      obtain ⟨hp, hps⟩ := List.forall_mem_cons.mp hcarry
      rw [List.foldl_cons, hp, ih hps, List.flatMap_cons, ← List.append_assoc]
      rfl
  exact hfold []

namespace World

theorem mem_timersOf {k : NodeNumber} {n : Node} {t : Timer} (h : t ∈ timersOf k n) :
    (∃ u s, n.udp = some u ∧ u.schedule = some s ∧ t.task = .announce k ∧
      t.due = s.announcement) ∨
    t.task = .resend k ∨ t.task = .expire k ∨ ∃ i, t.task = .retry k i := by
  unfold timersOf at h
  simp only [List.mem_append] at h
  obtain (h | h) | h := h
  · split at h
    · cases h
    · split at h
      · cases h
      · rename_i u hu _ s hs
        obtain rfl | h := List.mem_cons.mp h
        · exact .inl ⟨u, s, hu, hs, rfl, rfl⟩
        · rw [List.mem_singleton.mp h]
          exact .inr (.inl rfl)
  · obtain ⟨tcp, -, ht⟩ := List.mem_filterMap.mp h
    refine .inr (.inr (.inr ⟨tcp.index, ?_⟩))
    split at ht
    · cases ht
      rfl
    · cases ht
      rfl
    · cases ht
  · obtain ⟨time, -, rfl⟩ := List.mem_map.mp h
    exact .inr (.inr (.inl rfl))

/-- The residents are the nodes of the roster, all of them attached, each as its diary says. -/
structure Houses (w : World) (cs : Roster) (log : NodeNumber → Diary) : Prop where
  keys : w.residents.keys = List.range cs.length
  attached : ∀ a k, w.fabric.attached.get? a = some k ↔ ∃ c, cs[k]? = some c ∧ c.address = a
  members : ∀ k c, cs[k]? = some c →
    ∃ r, w.residents.get? k = some r ∧ r.Matches cs.who c (log k) []

/-- A world after a node has done something: which tasks follow, and what the diaries say now. -/
structure Yields (w : World) (cs : Roster) (out : World × List Task) (tasks : List Task)
    (log : NodeNumber → Diary) : Prop where
  tasks : out.2 = tasks
  houses : out.1.Houses cs log
  fabric : out.1.fabric = w.fabric

namespace Houses

variable {w : World} {cs : Roster} {log : NodeNumber → Diary} {k : NodeNumber} {c : Newcomer}
  {r r' : Resident} {x : Diary} {ps : List Parcel}

theorem deliveries_unicast (h : w.Houses cs log) (hd : w.fabric.dropping = false)
    (hc : cs[k]? = some c) (source : SocketAddress) (d : Bytes) :
    w.fabric.deliveries source (.unicast c.address d) = [.receive k d source] := by
  rw [Fabric.deliveries, Fabric.carry, hd, (h.attached c.address k).mpr ⟨c, hc, rfl⟩]
  rfl

theorem mem_deliveries_broadcast (h : w.Houses cs log) {source : SocketAddress} {d : Bytes}
    {t : Task} : t ∈ w.fabric.deliveries source (.broadcast d) ↔
      ∃ k < cs.length, t = .receive k d source := by
  have hv (k : NodeNumber) : k ∈ w.fabric.attached.values ↔ k < cs.length := by
    rw [KeyedList.mem_values_iff]
    simp only [h.attached]
    constructor
    · rintro ⟨a, c, hc, -⟩
      exact Roster.lt_length hc
    · intro hk
      exact ⟨_, _, List.getElem?_eq_getElem hk, rfl⟩
  rw [Fabric.deliveries, Fabric.carry, List.mem_map]
  simp only [hv]
  exact exists_congr fun k => and_congr_right fun _ => eq_comm

theorem put (h : w.Houses cs log) (hc : cs[k]? = some c) (hr : r.Matches cs.who c x ps)
    (hp : w.fabric.dropping = false ∨ ∀ p ∈ ps, p = c.hello) :
    w.Yields cs (w.put k r) (ps.flatMap (w.fabric.deliveries c.address))
      (Function.update log k x) := by
  obtain ⟨t, hu, ht⟩ := hr.transport
  have hcarry : w.fabric.carryAll c.address t.link.accepted = _ :=
    w.fabric.carryAll_eq c.address (ht.accepted.symm ▸ hp.imp_right fun hall p hm => ⟨_, hall p hm⟩)
  have hput : w.put k r =
      ({ w with
         residents := w.residents.put k
           { r with node := { r.node with udp := some { t with link := t.link.cleared } } } },
        ps.flatMap (w.fabric.deliveries c.address)) := by
    rw [World.put, hr.address, hu]
    dsimp only
    rw [hcarry, ht.accepted]
  rw [hput]
  refine ⟨rfl, ⟨?_, h.attached, fun j c' hc' => ?_⟩, rfl⟩
  · have hk : k ∈ w.residents.keys := by
      rw [h.keys]
      exact List.mem_range.mpr (Roster.lt_length hc)
    rw [KeyedList.keys_put, if_pos hk, h.keys]
  · dsimp only
    rw [KeyedList.get?_put]
    by_cases hj : j = k
    · subst hj
      cases hc.symm.trans hc'
      rw [if_pos rfl, Function.update_self]
      exact ⟨_, rfl, hr.cleared hu⟩
    · rw [if_neg hj, Function.update_of_ne hj]
      exact h.members j c' hc'

theorem perform (h : w.Houses cs log) {t : Task} (hc : cs[t.node]? = some c)
    (hr : w.residents.get? t.node = some r) {more : List Task} (hreact : w.react r t = (r', more))
    (hr' : r'.Matches cs.who c x ps) (hp : w.fabric.dropping = false ∨ ∀ p ∈ ps, p = c.hello) :
    w.Yields cs (w.perform t) (ps.flatMap (w.fabric.deliveries c.address) ++ more)
      (Function.update log t.node x) := by
  have hput := h.put hc hr' hp
  have hperform : w.perform t = ((w.put t.node r').1, (w.put t.node r').2 ++ more) := by
    rw [World.perform, hr]
    dsimp only
    rw [hreact]
  rw [hperform]
  exact ⟨congrArg (· ++ more) hput.tasks, hput.houses, hput.fabric⟩

theorem announce (h : w.Houses cs log) (hc : cs[k]? = some c)
    (hr : w.residents.get? k = some r) :
    w.Yields cs (w.put k { r with node := r.node.announce })
      (w.fabric.deliveries c.address c.hello) log := by
  obtain ⟨r', hr', hm⟩ := h.members k c hc
  cases hr.symm.trans hr'
  have hput := h.put hc hm.announce (.inr fun p => List.mem_singleton.mp)
  rwa [Function.update_eq_self, List.flatMap_singleton] at hput

theorem receive (h : w.Houses cs log) (hc : cs[k]? = some c) (hr : w.residents.get? k = some r)
    {t : UdpTransport} (hu : r.node.udp = some t) (bs : Bytes) (source : SocketAddress)
    (hp : w.fabric.dropping = false ∨ t.answers r.node.directory bs source = []) :
    w.Yields cs (w.perform (.receive k bs source))
      ((t.answers r.node.directory bs source).flatMap (w.fabric.deliveries c.address) ++
        ((log k).arrivals c bs source w.now).map (.dispatch k))
      (Function.update log k ((log k).receive c.id bs source w.now)) := by
  obtain ⟨r', hr', hm⟩ := h.members k c hc
  cases hr.symm.trans hr'
  obtain ⟨hm, hout⟩ := hm.receive hu bs source w.now
  have htasks : (w.react r (.receive k bs source)).2 =
      ((log k).arrivals c bs source w.now).map (.dispatch k) := by
    show Resident.tasksOf k (r.node.receiveDatagram w.now bs source).2 = _
    rw [hout]
    exact List.append_nil _
  have hp' : w.fabric.dropping = false ∨
      ∀ p ∈ t.answers r.node.directory bs source, p = c.hello := by
    refine hp.imp_right fun hnil p hmem => ?_
    rw [hnil] at hmem
    cases hmem
  exact h.perform (t := .receive k bs source) hc hr (Prod.ext rfl htasks) hm hp'

theorem receive_other (h : w.Houses cs log) (hc : cs[k]? = some c) {bs : Bytes}
    (hn : (Datagram.payloads bs).filterMap Sorted.packet? = []) (source : SocketAddress) :
    w.Yields cs (w.perform (.receive k bs source)) []
      (Function.update log k ((log k).receive c.id bs source w.now)) := by
  obtain ⟨r, hr, hm⟩ := h.members k c hc
  obtain ⟨t, hu, -⟩ := hm.transport
  have hanswers : t.answers r.node.directory bs source = [] := by
    rw [UdpTransport.answers, Datagram.acknowledged, hn]
    rfl
  have hyields := h.receive hc hr hu bs source (.inr hanswers)
  rw [hanswers, Diary.arrivals_of_no_packet hn] at hyields
  exact hyields

theorem receive_packet (h : w.Houses cs log) (hd : w.fabric.dropping = false)
    (hc : cs[k]? = some c) {bs : Bytes} {p : Packet} (hp : Datagram.payloads bs = [.packet p])
    (hrel : p.reliable) (hrec : p.receiver = c.id) {j : NodeNumber} {c' : Newcomer}
    (hc' : cs[j]? = some c')
    (hplace : Announcement.lastPlace (log k).heard p.sender = some c'.address)
    (source : SocketAddress) :
    w.Yields cs (w.perform (.receive k bs source))
      (.receive j (Payload.acknowledgement p.id).encode c.address ::
        ((log k).arrivals c bs source w.now).map (.dispatch k))
      (Function.update log k ((log k).receive c.id bs source w.now)) := by
  obtain ⟨r, hr, hm⟩ := h.members k c hc
  obtain ⟨t, hu, ht⟩ := hm.transport
  have hanswers : t.answers r.node.directory bs source =
      [.unicast c'.address (Payload.acknowledgement p.id).encode] := by
    have hid : r.node.directory.identity.id = c.id := by
      rw [hm.identity]
      rfl
    have hafter : t.afterAnnouncements r.node.directory bs source = t := by
      rw [UdpTransport.afterAnnouncements, hp]
      rfl
    rw [UdpTransport.answers, hafter, hp, ← ht.acknowledgement hplace, hid]
    simp [Datagram.acknowledged, Sorted.packet?, hrel, hrec]
  have hyields := h.receive hc hr hu bs source (.inl hd)
  rw [hanswers, List.flatMap_singleton, h.deliveries_unicast hd hc'] at hyields
  exact hyields

theorem dispatch (h : w.Houses cs log) (hc : cs[k]? = some c) {e : Envelope} {i : Identity}
    (hs : e.sender ≠ c.id) (hn : ¬ e.sender.isNil) (hr : e.receiver = c.id)
    (hw : cs.who e.sender = some i)
    (hi : PeerTable.latest ((log k).heard.map Announcement.identity) e.sender = some i) :
    w.Yields cs (w.perform (.dispatch k e)) [] (Function.update log k ((log k).handle e)) := by
  obtain ⟨r, hres, hm⟩ := h.members k c hc
  exact h.perform (t := .dispatch k e) hc hres rfl (hm.dispatch hs hn hr hw hi w.now) (.inr nofun)

/-- A timer that goes off makes its node announce itself, if it makes it send anything. Nothing is
sent again or discarded where no packet waits for its acknowledgement and no chunk for another. -/
theorem goOff (h : w.Houses cs log) {t : Timer} (ht : t ∈ w.timers) (hdue : t.due ≤ w.now)
    (hs : ∀ k c, cs[k]? = some c →
      (∀ id, (Outbox.after c.config.maxResends (log k).events).pending.get? id = none) ∧
        ∀ id, ((log k).station c).transport.reassembler.inProgress.get? id = none) :
    ∃ c ps, cs[t.task.node]? = some c ∧
      w.Yields cs (w.perform t.task) (ps.flatMap (w.fabric.deliveries c.address)) log ∧
      (∀ p ∈ ps, p = c.hello) ∧ ∀ k, t.task = .announce k → ps = [c.hello] := by
  obtain ⟨⟨k, r⟩, he, ht⟩ := List.mem_flatMap.mp ht
  have hr : w.residents.get? k = some r := (w.residents.get?_eq_some_iff k r).mpr he
  have hk : k < cs.length := by
    rw [← List.mem_range, ← h.keys, KeyedList.mem_keys_iff]
    exact ⟨r, hr⟩
  have hc : cs[k]? = some cs[k] := List.getElem?_eq_getElem hk
  obtain ⟨r', hr', hm⟩ := h.members k _ hc
  cases hr.symm.trans hr'
  have hyields {task : Task} (hnode : task.node = k) {r' : Resident} {ps : List Parcel}
      (hreact : w.react r task = (r', [])) (hr' : r'.Matches cs.who cs[k] (log k) ps)
      (hp : ∀ p ∈ ps, p = cs[k].hello) :
      w.Yields cs (w.perform task) (ps.flatMap (w.fabric.deliveries cs[k].address)) log := by
    subst hnode
    have hperform := h.perform hc hr hreact hr' (.inr hp)
    rwa [Function.update_eq_self, List.append_nil] at hperform
  obtain ⟨u, s, hu, hsched, htask, htime⟩ | htask | htask | ⟨i, htask⟩ := mem_timersOf ht
  · obtain ⟨ps, hm', hp, hall⟩ := hm.announceDue w.now
    rw [htask]
    exact ⟨_, ps, hc, hyields rfl rfl hm' hp, hp, fun _ _ => hall u s hu hsched (htime ▸ hdue)⟩
  · rw [htask]
    exact ⟨_, [], hc, hyields rfl rfl (hm.resendDue (hs k _ hc).1 (hs k _ hc).2 w.now) nofun, nofun,
      nofun⟩
  · rw [htask]
    exact ⟨_, [], hc, hyields rfl rfl (hm.expire w.now) nofun, nofun, nofun⟩
  · rw [htask]
    exact ⟨_, [], hc, hyields rfl rfl (hm.retry _ w.now i) nofun, nofun, nofun⟩

theorem start (h : w.Houses cs log) (hc : c.Starts) (ha : ∀ c' ∈ cs, c'.address ≠ c.address)
    (hnew : log cs.length = {}) (hidle : ∀ k, (log k).handled = []) :
    (w.start c.name c.arrival).1.Houses (cs ++ [c]) log ∧
      (w.start c.name c.arrival).1.fabric.dropping = w.fabric.dropping := by
  obtain ⟨r, hr, hstart⟩ := w.start_newcomer hc (Roster.who (cs ++ [c]))
  have hsize : w.residents.size = cs.length := by
    rw [← KeyedList.length_keys, h.keys, List.length_range]
  rw [hstart, hsize]
  refine ⟨⟨?_, fun a k => ?_, fun k c' hc' => ?_⟩, rfl⟩
  · have hk : cs.length ∉ w.residents.keys := by
      rw [h.keys]
      exact List.not_mem_range_self
    dsimp only
    rw [KeyedList.keys_put, if_neg hk, h.keys, List.length_append]
    exact List.range_succ.symm
  · dsimp only
    rw [KeyedList.get?_put]
    by_cases hac : a = c.address
    · rw [if_pos hac]
      constructor
      · rintro he
        cases he
        exact ⟨c, List.getElem?_concat_length, hac.symm⟩
      · rintro ⟨c', hc', rfl⟩
        obtain hc' | ⟨rfl, -⟩ := getElem?_concat_eq_some.mp hc'
        · exact absurd hac (ha c' (List.mem_of_getElem? hc'))
        · rfl
    · rw [if_neg hac, h.attached]
      refine exists_congr fun c' => and_congr_left fun ha' => ?_
      rw [getElem?_concat_eq_some]
      refine (or_iff_left fun hc' => hac ?_).symm
      exact ha'.symm.trans (congrArg Newcomer.address hc'.2.symm)
  · dsimp only
    rw [KeyedList.get?_put]
    obtain hc' | ⟨rfl, rfl⟩ := getElem?_concat_eq_some.mp hc'
    · rw [if_neg (Nat.ne_of_lt (Roster.lt_length hc'))]
      -- There is more to know now, but those who were there have not asked for it.
      obtain ⟨r', hr', hm⟩ := h.members k c' hc'
      exact ⟨r', hr', hm.congrWho (hidle k) _⟩
    · rw [if_pos rfl, hnew]
      exact ⟨r, rfl, hr⟩

end Houses

end World

end PeerMesh

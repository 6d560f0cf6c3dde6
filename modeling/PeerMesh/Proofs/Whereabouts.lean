import PeerMesh.Proofs.Gate
import PeerMesh.Proofs.Steps

namespace PeerMesh

/-- An announcement of another node, and where it came from. -/
structure Announcement where
  source : IpAddress
  identity : Identity

namespace Announcement

def place? (a : Announcement) : Option SocketAddress :=
  (a.identity.declaredPort unicastPortKey).map fun port => { ip := a.source, port }

/-- The last address that was announced for a peer. -/
def lastPlace (as : List Announcement) (p : PeerId) : Option SocketAddress :=
  ((as.filter fun a => a.identity.id = p).filterMap place?).getLast?

theorem lastPlace_concat (as : List Announcement) (a : Announcement) (p : PeerId) :
    lastPlace (as ++ [a]) p =
      if p = a.identity.id then a.place?.or (lastPlace as p) else lastPlace as p := by
  have happ : lastPlace (as ++ [a]) p = (lastPlace [a] p).or (lastPlace as p) := by
    rw [lastPlace, List.filter_append, List.filterMap_append, List.getLast?_append]
    rfl
  rw [happ, lastPlace, List.filter_singleton]
  split
  · rename_i hp
    rw [decide_eq_true hp.symm]
    cases ha : a.place? with
    | none => simp [ha]
    | some address => simp [ha]
  · rename_i hp
    rw [decide_eq_false (Ne.symm hp)]
    rfl

theorem isSome_lastPlace {as : List Announcement} {p : PeerId} :
    (lastPlace as p).isSome ↔ ∃ a ∈ as, a.identity.id = p ∧ a.place?.isSome := by
  rw [lastPlace, List.getLast?_isSome, Ne, List.filterMap_eq_nil_iff]
  simp [Option.ne_none_iff_isSome]

end Announcement

theorem Sorted.announcement?_eq_some {a : Payload} {i : Identity} :
    announcement? a = some i ↔ a = .announcement i := by
  cases a <;> simp [announcement?]

theorem Identity.isSome_declaredPort {i : Identity} {key : String} :
    (i.declaredPort key).isSome ↔
      ∃ v, i.properties.get? key = some (.int v) ∧ 0 ≤ v.toInt ∧ v.toInt ≤ 65535 := by
  unfold declaredPort
  split
  · rename_i v hv
    have hlast : v.toInt ≤ 65535 ↔ v.toInt < 65536 := by omega
    simp only [hv, Option.some.injEq, PropertyValue.int.injEq, exists_eq_left', hlast]
    split
    · rename_i hport
      exact iff_of_true rfl hport
    · rename_i hport
      exact iff_of_false nofun hport
  · rename_i hn
    simp only [Option.isSome_none, Bool.false_eq_true, false_iff]
    rintro ⟨v, hv, -⟩
    exact hn v hv

namespace AddressBook

variable {b : AddressBook} {e : EndpointId}

theorem address_move (h : e < b.addresses.length) (a : SocketAddress) (e' : EndpointId) :
    (b.move e a).1.address e' = if e' = e then a else b.address e' := by
  simp only [move, address, List.getD_eq_getElem?_getD, List.getElem?_set]
  split
  · rename_i he
    rw [if_pos he.symm]
    rfl
  · rename_i he
    rw [if_neg (Ne.symm he)]

theorem address_add (b : AddressBook) (a : SocketAddress) :
    (b.add a).1.address b.addresses.length = a := by
  simp [add, address]

theorem address_add_of_lt (h : e < b.addresses.length) (a : SocketAddress) :
    (b.add a).1.address e = b.address e := by
  simp [add, address, List.getElem?_append_left h]

end AddressBook

open Announcement

/-- The peers that announcements have placed have a route each, to an endpoint of their own, which
is at the last place announced. -/
structure UdpTransport.Follows (t : UdpTransport) (d : Directory) (as : List Announcement) :
    Prop where
  places : ∀ p, (t.contexts.get? p).map t.endpoints.address = lastPlace as p
  issued : ∀ p e, t.contexts.get? p = some e → e < t.endpoints.addresses.length
  apart : ∀ p q e, t.contexts.get? p = some e → t.contexts.get? q = some e → p = q
  routes : ∀ p, d.routes.routesTo p = (t.contexts.get? p).toList.map (.udp p)

namespace UdpTransport

variable {t : UdpTransport} {d : Directory} {as : List Announcement} {a : Announcement}

theorem start_follows (config : UdpConfig) (link : Link) (ids : IdSource) (now : Nat)
    (h : d.routes = .empty) : (start config link ids now).Follows d [] := by
  refine ⟨fun _ => rfl, nofun, nofun, fun p => ?_⟩
  rw [h]
  rfl

theorem Follows.congr {t' : UdpTransport} {d' : Directory} (h : t.Follows d as)
    (hc : t'.contexts = t.contexts) (he : t'.endpoints = t.endpoints)
    (hr : d'.routes = d.routes) : t'.Follows d' as := by
  refine ⟨?_, ?_, ?_, ?_⟩
  · rw [hc, he]
    exact h.places
  · rw [hc, he]
    exact h.issued
  · rw [hc]
    exact h.apart
  · rw [hc, hr]
    exact h.routes

theorem Follows.portless (h : t.Follows d as) (ha : a.place? = none) :
    t.Follows d (as ++ [a]) := by
  refine ⟨fun p => ?_, h.issued, h.apart, h.routes⟩
  rw [lastPlace_concat, ha, Option.none_or, ite_self]
  exact h.places p

variable {address : SocketAddress}

theorem Follows.move {endpoint : EndpointId} (h : t.Follows d as) (ha : a.place? = some address)
    (hc : t.contexts.get? a.identity.id = some endpoint) :
    ({ t with endpoints := (t.endpoints.move endpoint address).1 } : UdpTransport).Follows d
      (as ++ [a]) := by
  have hlt := h.issued _ _ hc
  refine ⟨fun p => ?_, fun p e he => ?_, h.apart, h.routes⟩
  · dsimp only
    rw [lastPlace_concat, ha]
    by_cases hp : p = a.identity.id
    · rw [if_pos hp, hp, hc, Option.map_some, AddressBook.address_move hlt, if_pos rfl]
      rfl
    · -- The endpoints of other peers stay where they are.
      rw [if_neg hp, ← h.places]
      refine Option.map_congr fun e he => ?_
      rw [AddressBook.address_move hlt, if_neg]
      rintro rfl
      exact hp (h.apart _ _ _ he hc)
  · dsimp only [AddressBook.move]
    rw [List.length_set]
    exact h.issued p e he

theorem Follows.add (h : t.Follows d as) (ha : a.place? = some address)
    (hc : t.contexts.get? a.identity.id = none) :
    let added := t.endpoints.add address
    ({ t with
        endpoints := added.1
        contexts := t.contexts.put a.identity.id added.2 } : UdpTransport).Follows
      (d.addRoute (.udp a.identity.id added.2)) (as ++ [a]) := by
  refine ⟨fun p => ?_, fun p e he => ?_, fun p q e hp hq => ?_, fun p => ?_⟩
  · dsimp only
    rw [lastPlace_concat, ha, KeyedList.get?_put]
    by_cases hp : p = a.identity.id
    · rw [if_pos hp, if_pos hp]
      exact congrArg some (t.endpoints.address_add address)
    · rw [if_neg hp, if_neg hp, ← h.places]
      exact Option.map_congr fun e he => AddressBook.address_add_of_lt (h.issued p e he) address
  · dsimp only at he ⊢
    rw [KeyedList.get?_put] at he
    have hlength : (t.endpoints.add address).1.addresses.length =
      t.endpoints.addresses.length + 1 := List.length_append
    rw [hlength]
    split at he
    · cases he
      exact Nat.lt_succ_self _
    · exact Nat.lt_succ_of_lt (h.issued p e he)
  · dsimp only at hp hq
    rw [KeyedList.get?_put] at hp hq
    split at hp
    · split at hq
      · simp [*]
      · cases hp
        exact absurd (h.issued q _ hq) (Nat.lt_irrefl _)
    · split at hq
      · cases hq
        exact absurd (h.issued p _ hp) (Nat.lt_irrefl _)
      · exact h.apart p q e hp hq
  · dsimp only
    rw [Directory.routesTo_addRoute, KeyedList.get?_put, h.routes]
    by_cases hp : p = a.identity.id
    · subst hp
      simp [hc, Route.peer]
    · rw [if_neg fun hr => hp hr.1, if_neg hp]

theorem Follows.place (h : t.Follows d as) (ha : a.place? = some address) :
    (t.place d a.identity.id address).1.Follows (t.place d a.identity.id address).2
      (as ++ [a]) := by
  unfold UdpTransport.place
  cases hc : t.contexts.get? a.identity.id with
  | some endpoint => exact h.move ha hc
  | none => exact h.add ha hc

theorem contexts_place (t : UdpTransport) (d : Directory) (peer : PeerId) (address : SocketAddress)
    {p : PeerId} {e : EndpointId} (h : t.contexts.get? p = some e) :
    (t.place d peer address).1.contexts.get? p = some e := by
  unfold UdpTransport.place
  cases hc : t.contexts.get? peer with
  | some endpoint => exact h
  | none =>
    have hp : p ≠ peer := by
      rintro rfl
      cases h.symm.trans hc
    dsimp only
    rw [KeyedList.get?_put, if_neg hp]
    exact h

end UdpTransport

/-- The announcements `as` have been taken, one after the other. -/
structure Reception.Locates (r : Reception) (as : List Announcement) (r' : Reception) : Prop where
  follows : ∀ before, r.transport.Follows r.directory before →
    r'.transport.Follows r'.directory (before ++ as)
  kept : ∀ p e, r.transport.contexts.get? p = some e → r'.transport.contexts.get? p = some e

namespace Reception

variable {r r' r'' : Reception} {as more : List Announcement}

theorem Locates.refl (r : Reception) : r.Locates [] r :=
  ⟨fun before h => (List.append_nil before).symm ▸ h, fun _ _ h => h⟩

theorem Locates.trans (h : r.Locates as r') (h' : r'.Locates more r'') :
    r.Locates (as ++ more) r'' := by
  refine ⟨fun before hr => ?_, fun p e hp => h'.kept p e (h.kept p e hp)⟩
  rw [← List.append_assoc]
  exact h'.follows _ (h.follows before hr)

theorem Locates.ofSamePlaces (h : r.Locates as r') (hs : r'.SamePlaces r'') : r.Locates as r'' := by
  refine ⟨fun before hr => ?_, fun p e hp => ?_⟩
  · exact (h.follows before hr).congr hs.contexts hs.endpoints
      (congrArg Directory.routes hs.directory)
  · rw [hs.contexts]
    exact h.kept p e hp

theorem announced_locates (source : IpAddress) (r : Reception) {i : Identity}
    (hi : ¬ (i.id = r.directory.identity.id ∨ i.id.isNil)) :
    r.Locates [⟨source, i⟩] (announced source r i) := by
  unfold announced
  rw [if_neg hi]
  cases hport : i.declaredPort unicastPortKey with
  | none =>
    have ha : place? ⟨source, i⟩ = none := by rw [place?, hport, Option.map_none]
    refine ⟨fun before h => ?_, fun _ _ h => h⟩
    exact (h.portless ha).congr rfl rfl rfl
  | some port =>
    have ha : place? ⟨source, i⟩ = some { ip := source, port } := by
      rw [place?, hport, Option.map_some]
    refine ⟨fun before h => ?_, fun p e h => r.transport.contexts_place _ _ _ h⟩
    exact (h.place ha).congr rfl rfl rfl

theorem announcedAll_locates (source : IpAddress) (r : Reception) (is : List Identity) :
    r.Locates
      ((is.filter fun i => ¬ (i.id = r.directory.identity.id ∨ i.id.isNil)).map (⟨source, ·⟩))
      (is.foldl (announced source) r) := by
  induction is generalizing r with
  | nil => exact .refl r
  | cons i is ih =>
    rw [List.foldl_cons, List.filter_cons]
    by_cases hi : i.id = r.directory.identity.id ∨ i.id.isNil
    · have hr : announced source r i = r := if_pos hi
      have hd : ¬ decide (¬ (i.id = r.directory.identity.id ∨ i.id.isNil)) = true := by
        simpa only [decide_eq_true_eq, not_not] using hi
      rw [hr, if_neg hd]
      exact ih r
    · have hs := ih (announced source r i)
      rw [(announced_announces source r hi).identity] at hs
      rw [if_pos (decide_eq_true hi)]
      exact (announced_locates source r hi).trans hs

theorem SamePlaces.concluded (h : r.SamePlaces r') (now : Nat) (s : Sorted) :
    r.SamePlaces (r'.concluded now s) := by
  obtain ⟨link, hl, -⟩ := r'.transport.acknowledgeAll_eq s.reliable
  unfold Reception.concluded
  dsimp only
  rw [hl]
  obtain ⟨statistics, hu⟩ := unpackedAll_eq now _ _
  rw [hu]
  exact ⟨h.contexts, h.endpoints, h.directory⟩

end Reception

theorem UdpTransport.receive_locates (t : UdpTransport) (d : Directory) (now : Nat)
    (datagram : Bytes) (source : SocketAddress) :
    ({ transport := t, directory := d : Reception }).Locates
      ((Datagram.heard d.identity.id (Datagram.payloads datagram)).map (⟨source.ip, ·⟩))
      (t.receive d now datagram source) := by
  have hall := Reception.announcedAll_locates source.ip { transport := t, directory := d }
    ((Datagram.payloads datagram).filterMap Sorted.announcement?)
  refine hall.ofSamePlaces ?_
  unfold receive Datagram.payloads
  cases Datagram.decode datagram with
  | error e => exact ⟨rfl, rfl, rfl⟩
  | ok ps =>
    have hsame : ({ transport := t, directory := d : Reception }).SamePlaces
        (Reception.noted
          { transport :=
              { t with statistics.datagrams := t.statistics.datagrams + 1 }, directory := d }
          (Sorted.ofPayloads d.identity ps)) := ⟨rfl, rfl, rfl⟩
    exact (hsame.announcedAll source.ip _).concluded now _

namespace Node

namespace Event

def Spares : Event → Prop
  | bytes _ _ _ | handshakesDue | forgetPeers | stopUdp | stopTcp _ | shutDown | learn _ => False
  | _ => True

def announcements (self : PeerId) : Event → List Announcement
  | datagram bs source => (Datagram.heard self (Datagram.payloads bs)).map (⟨source.ip, ·⟩)
  | _ => []

end Event

def announcements (self : PeerId) (events : List (Nat × Event)) : List Announcement :=
  events.flatMap fun e => e.2.announcements self

theorem announcements_append (self : PeerId) (events more : List (Nat × Event)) :
    announcements self (events ++ more) = announcements self events ++ announcements self more :=
  List.flatMap_append

theorem mem_announcements {self : PeerId} {events : List (Nat × Event)} {a : Announcement} :
    a ∈ announcements self events ↔ ∃ now bs source ps, (now, .datagram bs source) ∈ events ∧
      Datagram.decode bs = .ok ps ∧ .announcement a.identity ∈ ps ∧ a.source = source.ip ∧
      a.identity.id ≠ self ∧ ¬ a.identity.id.isNil := by
  have hheard (ps : List Payload) (i : Identity) : i ∈ Datagram.heard self ps ↔
      .announcement i ∈ ps ∧ i.id ≠ self ∧ ¬ i.id.isNil := by
    simp [Datagram.heard, Sorted.announcement?_eq_some]
  rw [announcements, List.mem_flatMap]
  constructor
  · rintro ⟨⟨now, e⟩, he, ha⟩
    cases e with
    | datagram bs source =>
      obtain ⟨i, hi, rfl⟩ := List.mem_map.mp ha
      cases hd : Datagram.decode bs with
      | error e =>
        rw [Datagram.payloads, hd] at hi
        cases hi
      | ok ps =>
        rw [Datagram.payloads, hd] at hi
        obtain ⟨hi, hother⟩ := (hheard ps i).mp hi
        exact ⟨now, bs, source, ps, he, hd, hi, rfl, hother⟩
    | _ => cases ha
  · rintro ⟨now, bs, source, ps, he, hd, hi, hs, hother⟩
    refine ⟨_, he, List.mem_map.mpr ⟨a.identity, ?_, by rw [← hs]⟩⟩
    rw [Datagram.payloads, hd]
    exact (hheard ps a.identity).mpr ⟨hi, hother⟩

variable {n : Node} {t : UdpTransport} {as : List Announcement}

/-- Only datagrams say where peers are. -/
theorem step_follows (hu : n.udp = some t) (now : Nat) {e : Event} (he : e.Spares)
    (h : t.Follows n.directory as) :
    ∃ t', (n.step now e).1.udp = some t' ∧
      t'.Follows (n.step now e).1.directory (as ++ e.announcements n.id) ∧
      ∀ p i, t.contexts.get? p = some i → t'.contexts.get? p = some i := by
  have hstep := n.udp_step now e
  rw [hu, Option.map_some] at hstep
  refine ⟨_, hstep, ?_⟩
  have hsettled (hact : (n.act e).IsSettled) (ha : e.announcements n.id = [])
      (hr : (n.step now e).1.directory.routes = n.directory.routes) :
      (t.act now (n.act e)).Follows (n.step now e).1.directory (as ++ e.announcements n.id) ∧
        ∀ p i, t.contexts.get? p = some i → (t.act now (n.act e)).contexts.get? p = some i := by
    obtain ⟨hc, he⟩ := t.act_settled now hact
    rw [ha, List.append_nil, hc]
    exact ⟨h.congr hc he hr, fun _ _ hp => hp⟩
  have hquiet (hq : e.IsQuiet) (ha : e.announcements n.id = []) :=
    hsettled (n.act_of_isQuiet hq).1 ha (n.step_quiet now hq).1.routes
  cases e with
  | datagram bs source =>
    have hl := t.receive_locates n.directory now bs source
    have hd : (n.step now (.datagram bs source)).1.directory =
        (t.receive n.directory now bs source).directory := by
      show (n.receiveDatagram now bs source).1.directory = _
      rw [receiveDatagram, hu]
    rw [hd]
    exact ⟨hl.follows as h, hl.kept⟩
  | dispatch m =>
    refine hsettled trivial rfl ?_
    show (n.dispatch now m).1.directory.routes = _
    rw [dispatch_fst]
  | expireHeld => exact hsettled trivial rfl rfl
  | bytes c bs ended => exact he.elim
  | handshakesDue => exact he.elim
  | forgetPeers => exact he.elim
  | stopUdp => exact he.elim
  | stopTcp transport => exact he.elim
  | shutDown => exact he.elim
  | learn i => exact he.elim
  | _ => exact hquiet trivial rfl

theorem told_of_spares (hu : n.udp = some t) {e : Event} (he : e.Spares) :
    n.told e = (e.announcements n.id).map Announcement.identity := by
  cases e with
  | datagram bs source =>
    rw [told, hu, Event.announcements, List.map_map]
    exact (List.map_id _).symm
  | bytes c bs ended => exact he.elim
  | learn i => exact he.elim
  | _ => rfl

theorem Knows.step {is : List Identity} {k : Nat} (h : n.Knows is k) (now : Nat) (e : Event) :
    ∃ k', (n.step now e).1.Knows (is ++ n.told e) k' := by
  obtain he | ⟨m, rfl⟩ | rfl := e.tells_or
  · obtain ⟨hs, hl, -⟩ := n.step_learns now he
    exact ⟨k, h.learns hl⟩
  · have ht : n.told (.dispatch m) = [] := rfl
    rw [ht, List.append_nil]
    exact ⟨k + 1, h.dispatch now m⟩
  · have ht : n.told .expireHeld = [] := rfl
    rw [ht, List.append_nil]
    exact ⟨k, h.expireHeld now⟩

theorem id_after (n : Node) (events : List (Nat × Event)) : (n.after events).id = n.id :=
  (n.after_keeps events).id

/-- What announcements make of a node in the course of events. -/
theorem after_follows (hu : n.udp = some t) (h : t.Follows n.directory as) {k : Nat}
    (hk : n.Knows (as.map Announcement.identity) k) {events : List (Nat × Event)}
    (he : ∀ x ∈ events, x.2.Spares) :
    ∃ t', (n.after events).udp = some t' ∧
      t'.Follows (n.after events).directory (as ++ announcements n.id events) ∧
      (∃ k', (n.after events).Knows ((as ++ announcements n.id events).map Announcement.identity)
        k') ∧
      ∀ p i, t.contexts.get? p = some i → t'.contexts.get? p = some i := by
  induction events using List.reverseRecOn with
  | nil =>
    rw [announcements, List.flatMap_nil, List.append_nil]
    exact ⟨t, hu, h, ⟨k, hk⟩, fun _ _ hp => hp⟩
  | append_singleton events e ih =>
    obtain ⟨hevents, hlast⟩ := List.forall_mem_append.mp he
    obtain ⟨t', hu', hf, ⟨k', hk'⟩, hkept⟩ := ih hevents
    have hspares := hlast e (List.mem_singleton_self e)
    obtain ⟨t'', hu'', hf', hkept'⟩ := step_follows hu' e.1 hspares hf
    obtain ⟨k'', hk''⟩ := hk'.step e.1 e.2
    rw [told_of_spares hu' hspares, ← List.map_append] at hk''
    rw [id_after, List.append_assoc] at hf' hk''
    have happ : announcements n.id (events ++ [e]) =
        announcements n.id events ++ e.2.announcements n.id := by
      rw [announcements_append, announcements, announcements, List.flatMap_singleton]
    rw [after_concat, happ]
    exact ⟨t'', hu'', hf', ⟨k'', hk''⟩, fun p i hp => hkept' p i (hkept p i hp)⟩

/-- The routes by datagrams and the identities of peers are what the announcements so far have made
of them. A peer has a route since the first announcement with a port, which is one and the same ever
since and follows the peer to where the last such announcement says; and of the identities that were
announced for a peer, the last is known. -/
theorem routes_follow_announcements {setup : NodeSetup} {now : Nat} {n₀ : Node}
    (hstart : Node.start setup now = .ok n₀) {t₀ : UdpTransport} (hu : n₀.udp = some t₀)
    {events : List (Nat × Event)} (he : ∀ x ∈ events, x.2.Spares) :
    let as := announcements n₀.id events
    (∀ a, a ∈ as ↔ ∃ now bs source ps, (now, .datagram bs source) ∈ events ∧
      Datagram.decode bs = .ok ps ∧ .announcement a.identity ∈ ps ∧ a.source = source.ip ∧
      a.identity.id ≠ n₀.id ∧ ¬ a.identity.id.isNil) ∧
    ∃ t, (n₀.after events).udp = some t ∧ ∀ p,
      ((t.contexts.get? p).isSome ↔ ∃ a ∈ as, a.identity.id = p ∧
        ∃ v, a.identity.properties.get? unicastPortKey = some (.int v) ∧
          0 ≤ v.toInt ∧ v.toInt ≤ 65535) ∧
      (t.contexts.get? p).map t.endpoints.address = lastPlace as p ∧
      (n₀.after events).directory.routes.routesTo p =
        (t.contexts.get? p).toList.map (.udp p) ∧
      (∀ q e, t.contexts.get? p = some e → t.contexts.get? q = some e → q = p) ∧
      (∀ front back e, events = front ++ back → (n₀.after front).contexts.get? p = some e →
        t.contexts.get? p = some e) ∧
      (n₀.after events).directory.peers.identity? p =
        PeerTable.latest (as.map Announcement.identity) p := by
  intro as
  have hnew := isNew_of_start hstart
  have hfollows : t₀.Follows n₀.directory [] := by
    obtain ⟨config, link, ids, now, rfl⟩ := hnew.udp t₀ hu
    exact UdpTransport.start_follows config link ids now hnew.routes
  obtain ⟨t, ht, hf, ⟨k, hk⟩, -⟩ := after_follows hu hfollows hnew.knows he
  rw [List.nil_append] at hf hk
  refine ⟨fun a => mem_announcements, t, ht, fun p => ⟨?_, hf.places p, hf.routes p,
    fun q e hp hq => hf.apart q p e hq hp, ?_, hk.identity p⟩⟩
  · rw [← Option.isSome_map, hf.places, isSome_lastPlace]
    simp only [place?, Option.isSome_map, Identity.isSome_declaredPort]
    rfl
  · rintro front back e rfl hp
    obtain ⟨hfront, hback⟩ := List.forall_mem_append.mp he
    obtain ⟨t', ht', hf', ⟨k', hk'⟩, -⟩ := after_follows hu hfollows hnew.knows hfront
    obtain ⟨t'', ht'', -, -, hkept⟩ := after_follows ht' hf' hk' hback
    rw [after_append, ht''] at ht
    cases ht
    rw [contexts, ht'] at hp
    exact hkept p e hp

def moves : List (Nat × Event) :=
  let announced (ip : BitVec 32) (is : List Identity) : Event :=
    .datagram (Datagram.encode (is.map .announcement)) ⟨.v4 ip, 4000, 0⟩
  let third : Identity := { id := ⟨3⟩, name := "third" }
  let declared := third.declare unicastPortKey (.int 4000)
  [(1, announced 0x0a000002 [.second, { id := ⟨1⟩, name := "" }, { id := ⟨0⟩, name := "" }]),
    (2, .datagram ((Payload.announcement declared).encode ++ [9]) ⟨.v4 0x0a000003, 4000, 0⟩),
    (3, announced 0x0a000003 [third]),
    (4, announced 0x0a000004 [({ declared with id := ⟨4⟩ }).declare unicastPortKey (.int 65536)]),
    (5, .send ⟨2⟩ (.of (⟨7, "hello"⟩ : NumberedText)) true),
    (6, announced 0x0a000009 [Identity.second.declare unicastPortKey (.int 5000)]),
    (7, announced 0x0a000009 [{ id := ⟨2⟩, name := "moved" }])]

theorem routes_follow_announcements_moves :
    (∀ x ∈ moves, x.2.Spares) ∧
    ∃ t, (Node.first.after moves).udp = some t ∧
      (t.contexts.get? ⟨2⟩).map t.endpoints.address = some ⟨.v4 0x0a000009, 5000, 0⟩ ∧
      t.contexts.get? ⟨2⟩ = some 0 ∧
      (Node.first.after moves).directory.routes.routesTo ⟨2⟩ = [.udp ⟨2⟩ 0] ∧
      (Node.first.after moves).directory.peers.identity? ⟨2⟩ =
        some { id := ⟨2⟩, name := "moved" } ∧
      (t.contexts.get? ⟨3⟩).map t.endpoints.address = none ∧
      (t.contexts.get? ⟨4⟩).map t.endpoints.address = none := by
  have he : ∀ x ∈ moves, x.2.Spares := by simp [moves, Event.Spares]
  obtain ⟨-, t, ht, hall⟩ := routes_follow_announcements start_first rfl he
  obtain ⟨-, hplace, hroutes, -, hkept, hidentity⟩ := hall ⟨2⟩
  obtain ⟨-, hthird, -⟩ := hall ⟨3⟩
  obtain ⟨-, hfourth, -⟩ := hall ⟨4⟩
  have hget : t.contexts.get? ⟨2⟩ = some 0 :=
    hkept (moves.take 1) (moves.drop 1) 0 rfl (by decide +kernel)
  refine ⟨he, t, ht, hplace.trans (by decide +kernel), hget, ?_,
    hidentity.trans (by decide +kernel), hthird.trans (by decide +kernel),
    hfourth.trans (by decide +kernel)⟩
  rw [hroutes, hget]
  rfl

end Node

end PeerMesh

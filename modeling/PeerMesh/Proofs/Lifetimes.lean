import PeerMesh.Proofs.Acceptance
import PeerMesh.Proofs.Resends

namespace PeerMesh

namespace Reassembler

/-- Chunks were taken at the time `now`: of the message with an id the first one may have come, and
its last one. -/
structure Advances (now : Nat) (id : MultiPartId) (r r' : Reassembler) : Prop where
  started : ∀ m', r'.inProgress.get? id = some m' →
    (∃ m, r.inProgress.get? id = some m ∧ m.started = m'.started) ∨
      r.inProgress.get? id = none ∧ m'.started = now
  ended : ∀ m, r.inProgress.get? id = some m → r'.inProgress.get? id = none → id ∈ r'.completed
  shut : id ∈ r.completed → id ∈ r'.completed ∧ r'.inProgress.get? id = r.inProgress.get? id

variable {now : Nat} {id : MultiPartId} {r r' r'' : Reassembler}

theorem Advances.same (hp : r'.inProgress.get? id = r.inProgress.get? id)
    (hc : id ∈ r.completed → id ∈ r'.completed) : Advances now id r r' := by
  refine ⟨fun m' hm' => .inl ⟨m', hp ▸ hm', rfl⟩, fun m hm hm' => ?_, fun h => ⟨hc h, hp⟩⟩
  cases hm.symm.trans (hp.symm.trans hm')

theorem Advances.refl (now : Nat) (id : MultiPartId) (r : Reassembler) : Advances now id r r :=
  .same rfl fun h => h

theorem Advances.trans (h : Advances now id r r') (h' : Advances now id r' r'') :
    Advances now id r r'' := by
  refine ⟨fun m'' hm'' => ?_, fun m hm hm'' => ?_, fun hc => ?_⟩
  · obtain ⟨m', hm', hs⟩ | ⟨hnone, hs⟩ := h'.started m'' hm''
    · rw [← hs]
      exact h.started m' hm'
    · refine .inr ⟨?_, hs⟩
      -- A message that is over does not begin again.
      by_contra hsome
      obtain ⟨m, hm⟩ := Option.ne_none_iff_exists'.mp hsome
      have hsame := (h'.shut (h.ended m hm hnone)).2
      cases hm''.symm.trans (hsame.trans hnone)
  · cases hr' : r'.inProgress.get? id with
    | none => exact (h'.shut (h.ended m hm hr')).1
    | some m' => exact h'.ended m' hr' hm''
  · obtain ⟨hc', hp⟩ := h.shut hc
    obtain ⟨hc'', hp'⟩ := h'.shut hc'
    exact ⟨hc'', hp'.trans hp⟩

theorem accept_advances (r : Reassembler) (now : Nat) (carrier : Envelope) (c : Chunk)
    (id : MultiPartId) : Advances now id r (r.accept now carrier c).1 := by
  by_cases hid : id = c.id
  swap
  · obtain ⟨hp, hc⟩ := r.accept_frame now carrier hid
    exact .same hp hc.mpr
  subst hid
  by_cases h : r.Admits now carrier c ∧
      (r.entry now carrier c).slots[c.index.toNat]? = some none
  swap
  · rw [(accept_of_not_vacant h).1]
    exact .refl now _ r
  have hopen : c.id ∉ r.completed := h.1.2.1
  rw [accept_of_vacant h.1 h.2, fill]
  split
  · have hgone : (r.inProgress.erase c.id).get? c.id = none :=
      (r.inProgress.get?_erase c.id c.id).trans (if_pos rfl)
    refine ⟨fun m' hm' => ?_, fun _ _ _ => List.mem_cons_self, fun hc => absurd hc hopen⟩
    cases hgone.symm.trans hm'
  · have hput := r.inProgress.get?_put c.id c.id ((r.entry now carrier c).add c)
    rw [if_pos rfl] at hput
    refine ⟨fun m' hm' => ?_, fun m hm hm' => ?_, fun hc => absurd hc hopen⟩
    · cases hput.symm.trans hm'
      unfold entry
      cases hm : r.inProgress.get? c.id with
      | none => exact .inr ⟨rfl, rfl⟩
      | some m => exact .inl ⟨m, rfl, rfl⟩
    · cases hput.symm.trans hm'

theorem take_advances (r : Reassembler) (now : Nat) (e : Envelope) (id : MultiPartId) :
    Advances now id r (r.take now e).1 := by
  rw [take]
  split
  · split
    · exact .refl now id r
    · exact r.accept_advances now e _ id
  · exact .refl now id r

theorem takeAll_advances (r : Reassembler) (now : Nat) (ps : List Packet) (id : MultiPartId) :
    Advances now id r (r.takeAll now ps).1 := by
  induction ps generalizing r with
  | nil => exact .refl now id r
  | cons p ps ih => exact (r.take_advances now p.message id).trans (ih (r.take now p.message).1)

theorem get?_prune (r : Reassembler) (now maxAge : Nat) (id : MultiPartId) :
    (r.prune now maxAge).inProgress.get? id =
      (r.inProgress.get? id).filter fun m => now - m.started < maxAge :=
  r.inProgress.get?_filter (fun _ m => decide (now - m.started < maxAge)) id

end Reassembler

def Datagram.Brings (id : MultiPartId) (bs : Bytes) : Prop :=
  ∃ p c, .packet p ∈ payloads bs ∧ p.message.body.read Chunk = .ok c ∧ c.id = id

namespace UdpTransport

def Act.IsAside : Act → Prop
  | receive _ _ _ | resendDue | prune _ => False
  | _ => True

theorem act_aside (t : UdpTransport) (now : Nat) {a : Act} (ha : a.IsAside) :
    (t.act now a).reassembler = t.reassembler := by
  cases a with
  | receive d datagram source => exact ha.elim
  | resendDue => exact ha.elim
  | prune maxAge => exact ha.elim
  | sendReliable sender endpoint e =>
    obtain ⟨ids, link, hs, -⟩ := t.sendReliable_eq sender endpoint e now _ rfl
    exact congrArg (fun x => x.1.reassembler) hs
  | broadcast sender e =>
    rw [act, broadcast]
    split
    · rfl
    · rfl
  | announceDue i =>
    obtain ⟨schedule, link, hs, -⟩ := t.announceDue_eq i now
    rw [act, hs]
  | _ => rfl

theorem receive_reassembler (t : UdpTransport) (d : Directory) (now : Nat) (datagram : Bytes)
    (source : SocketAddress) (id : MultiPartId) :
    let t' := (t.receive d now datagram source).transport
    Reassembler.Advances now id t.reassembler t'.reassembler ∧
      (¬ Datagram.Brings id datagram →
        t'.reassembler.inProgress.get? id = t.reassembler.inProgress.get? id) := by
  intro t'
  obtain ⟨_, _, _, _, ht⟩ := (t.receive_handles d now datagram source).transport
  have hr := congrArg UdpTransport.reassembler ht
  dsimp only at hr
  refine ⟨hr ▸ t.reassembler.takeAll_advances now _ id, fun hnone => ?_⟩
  refine (congrArg (fun r => r.inProgress.get? id) hr).trans
    (t.reassembler.takeAll_frame now fun p hp c hc hid => hnone ⟨p, c, ?_, hc, hid⟩).1
  obtain hp | hp := List.mem_append.mp hp
  · exact (Sorted.mem_reliable.mp (DuplicateFilter.sift_subset _ _ hp)).1
  · exact (Sorted.mem_unreliable.mp hp).1

/-- Without a tick that is due nothing happens. A tick prunes the reassembler, and the next one
comes one interval later. -/
theorem resendDue_cases (t : UdpTransport) (now : Nat) :
    t.resendDue now = t ∧ (∀ due, t.resendAt? = some due → now < due) ∨
      (∃ due, t.resendAt? = some due ∧ due ≤ now) ∧ (t.resendDue now).config = t.config ∧
        (t.resendDue now).resendAt? = some (now + t.config.resendInterval) ∧
        (t.resendDue now).reassembler = t.reassembler.prune now t.config.multiPartTimeout := by
  cases hdue : t.resendAt? with
  | none =>
    have hstopped : t.isStopped :=
      Option.isNone_iff_eq_none.mpr (Option.map_eq_none_iff.mp hdue)
    exact .inl ⟨resendDue_of_isStopped hstopped now, fun due h => by cases h⟩
  | some due =>
    by_cases hle : due ≤ now
    · obtain ⟨s, hs, rfl⟩ := Option.map_eq_some_iff.mp hdue
      have htick : t.resendDue now = (({ t with schedule := some { s with
          resend := now + t.config.resendInterval } } : UdpTransport).resend now).prune now
            t.config.multiPartTimeout := by
        rw [resendDue, hs]
        exact if_pos hle
      rw [htick]
      exact .inr ⟨⟨_, rfl, hle⟩, rfl, rfl, rfl⟩
    · refine .inl ⟨(resendDue_of_lt hdue (Nat.lt_of_not_le hle)).1, fun due' h => ?_⟩
      rw [← Option.some.inj h]
      exact Nat.lt_of_not_le hle

end UdpTransport

namespace Node

def inProgress? (n : Node) (id : MultiPartId) : Option PartialMessage :=
  n.udp.bind fun t => t.reassembler.inProgress.get? id

/-- The message with an id has been complete. -/
def HasCompleted (n : Node) (id : MultiPartId) : Prop :=
  ∃ t, n.udp = some t ∧ id ∈ t.reassembler.completed

def Event.Brings (id : MultiPartId) : Event → Prop
  | datagram bs _ => Datagram.Brings id bs
  | _ => False

variable {n : Node} {now : Nat} {e : Event} {id : MultiPartId}

theorem not_hasCompleted_of_nil (h : n.udp.map (fun t => t.reassembler.completed) = some []) :
    ¬ n.HasCompleted id := by
  rintro ⟨t, ht, hc⟩
  rw [ht, Option.map_some, Option.some.injEq] at h
  exact List.not_mem_nil (h ▸ hc)

theorem act_isAside (n : Node) {e : Event} (hd : ∀ bs source, e ≠ .datagram bs source)
    (hr : e ≠ .resendDue) (hp : ∀ maxAge, e ≠ .prune maxAge) : (n.act e).IsAside := by
  have hsendAct (m : Envelope) (reliable : Bool) (route : Route) :
      (n.sendAct m reliable route).IsAside := by
    cases route with
    | tcp peer c => trivial
    | udp peer endpoint =>
      cases reliable with
      | false => trivial
      | true => trivial
  cases e with
  | datagram bs source => exact absurd rfl (hd bs source)
  | resendDue => exact absurd rfl hr
  | prune maxAge => exact absurd rfl (hp maxAge)
  | send receiver body reliable =>
    rw [act]
    split
    · exact hsendAct _ _ _
    · trivial
  | sendBy route m reliable => exact hsendAct m reliable route
  | updateIdentity change =>
    rw [act]
    split
    · trivial
    · trivial
  | _ => trivial

/-- What an event may do to the message with an id. -/
inductive Touches (n : Node) (now : Nat) (id : MultiPartId) : Event → Node → Prop
  | brought {bs : Bytes} {source : SocketAddress} {n' : Node} {t t' : UdpTransport}
    (hu : n.udp = some t) (hu' : n'.udp = some t') (hb : Datagram.Brings id bs)
    (ha : Reassembler.Advances now id t.reassembler t'.reassembler) :
    Touches n now id (.datagram bs source) n'
  | ticked {n' : Node} {t : UdpTransport} {due : Nat} (hu : n.udp = some t)
    (hd : n.resendAt? = some due) (hle : due ≤ now)
    (hp : n'.inProgress? id =
      (n.inProgress? id).filter fun m => now - m.started < t.config.multiPartTimeout) :
    Touches n now id .resendDue n'
  | pruned {n' : Node} {maxAge : Nat}
    (hp : n'.inProgress? id = (n.inProgress? id).filter fun m => now - m.started < maxAge) :
    Touches n now id (.prune maxAge) n'
  | untouched {e : Event} {n' : Node} (hp : n'.inProgress? id = n.inProgress? id)
    (he : e = .resendDue → ∀ due, n.resendAt? = some due → now < due) : Touches n now id e n'

theorem step_touches (n : Node) (now : Nat) (e : Event) (id : MultiPartId) :
    n.Touches now id e (n.step now e).1 := by
  have hstep := n.udp_step now e
  cases hu : n.udp with
  | none =>
    rw [hu, Option.map_none] at hstep
    refine .untouched ?_ fun _ due hd => ?_
    · rw [inProgress?, inProgress?, hu, hstep]
    · rw [resendAt?, hu] at hd
      cases hd
  | some t =>
    rw [hu, Option.map_some] at hstep
    have hbefore : n.inProgress? id = t.reassembler.inProgress.get? id := by
      rw [inProgress?, hu, Option.bind_some]
    have hafter : (n.step now e).1.inProgress? id =
        (t.act now (n.act e)).reassembler.inProgress.get? id := by
      rw [inProgress?, hstep, Option.bind_some]
    by_cases hd : ∃ bs source, e = .datagram bs source
    · obtain ⟨bs, source, rfl⟩ := hd
      obtain ⟨ha, hsame⟩ := t.receive_reassembler n.directory now bs source id
      by_cases hb : Datagram.Brings id bs
      · exact .brought hu hstep hb ha
      · exact .untouched (hafter.trans ((hsame hb).trans hbefore.symm)) (by simp)
    by_cases hr : e = .resendDue
    · subst hr
      have hat : n.resendAt? = t.resendAt? := by rw [resendAt?, hu, Option.bind_some]
      obtain ⟨hsame, hlt⟩ | ⟨⟨due, hdue, hle⟩, -, -, hpruned⟩ := t.resendDue_cases now
      · refine .untouched ?_ fun _ due h => hlt due (hat.symm.trans h)
        rw [hafter, hbefore]
        exact congrArg (fun t => t.reassembler.inProgress.get? id) hsame
      · refine .ticked hu (hat.trans hdue) hle ?_
        rw [hafter, hbefore, ← t.reassembler.get?_prune]
        exact congrArg (fun r => r.inProgress.get? id) hpruned
    by_cases hp : ∃ maxAge, e = .prune maxAge
    · obtain ⟨maxAge, rfl⟩ := hp
      refine .pruned (hafter.trans ?_)
      rw [hbefore]
      exact t.reassembler.get?_prune now maxAge id
    · have haside := n.act_isAside (fun bs source h => hd ⟨bs, source, h⟩) hr
        fun maxAge h => hp ⟨maxAge, h⟩
      rw [t.act_aside now haside] at hafter
      exact .untouched (hafter.trans hbefore.symm) fun h => absurd h hr

theorem Touches.started {n' : Node} {m' : PartialMessage} (h : n.Touches now id e n')
    (hm' : n'.inProgress? id = some m') :
    (∃ m, n.inProgress? id = some m ∧ m.started = m'.started) ∨
      n.inProgress? id = none ∧ m'.started = now ∧ e.Brings id := by
  cases h with
  | brought hu hu' hb ha =>
    rw [inProgress?, hu', Option.bind_some] at hm'
    rw [inProgress?, hu, Option.bind_some]
    exact (ha.started m' hm').imp_right fun h => ⟨h.1, h.2, hb⟩
  | ticked hu hd hle hp =>
    rw [hp] at hm'
    exact .inl ⟨m', (Option.filter_eq_some_iff.mp hm').1, rfl⟩
  | pruned hp =>
    rw [hp] at hm'
    exact .inl ⟨m', (Option.filter_eq_some_iff.mp hm').1, rfl⟩
  | untouched hp he => exact .inl ⟨m', hp ▸ hm', rfl⟩

theorem Touches.ended {n' : Node} {m : PartialMessage} (h : n.Touches now id e n')
    (hm : n.inProgress? id = some m) (hm' : n'.inProgress? id = none) :
    (e.Brings id ∧ ¬ n.HasCompleted id ∧ n'.HasCompleted id) ∨
      (∃ t, n.udp = some t ∧ e = .resendDue ∧ t.config.multiPartTimeout ≤ now - m.started) ∨
      ∃ maxAge, e = .prune maxAge ∧ maxAge ≤ now - m.started := by
  have hold {maxAge : Nat} (hp : n'.inProgress? id =
      (n.inProgress? id).filter fun m => now - m.started < maxAge) :
      maxAge ≤ now - m.started := by
    rw [hm', hm, Option.filter_some] at hp
    refine Nat.le_of_not_lt fun hlt => ?_
    rw [if_pos (decide_eq_true hlt)] at hp
    cases hp
  cases h with
  | brought hu hu' hb ha =>
    rw [inProgress?, hu, Option.bind_some] at hm
    rw [inProgress?, hu', Option.bind_some] at hm'
    refine .inl ⟨hb, ?_, _, hu', ha.ended m hm hm'⟩
    rintro ⟨t, ht, hc⟩
    cases hu.symm.trans ht
    cases hm.symm.trans ((ha.shut hc).2.symm.trans hm')
  | ticked hu hd hle hp => exact .inr (.inl ⟨_, hu, rfl, hold hp⟩)
  | pruned hp => exact .inr (.inr ⟨_, rfl, hold hp⟩)
  | untouched hp he => cases hm.symm.trans (hp.symm.trans hm')

/-- The settings of the datagram transport stay as they are. At a tick the next one is due one
interval later, and no other event puts it off. -/
theorem step_schedule {t : UdpTransport} (hu : n.udp = some t) (now : Nat) (e : Event) :
    ∃ t', (n.step now e).1.udp = some t' ∧ t'.config = t.config ∧
      ((∀ due, t'.resendAt? = some due → t.resendAt? = some due) ∨
        e = .resendDue ∧ (∃ due, t.resendAt? = some due ∧ due ≤ now) ∧
          t'.resendAt? = some (now + t.config.resendInterval)) := by
  have hstep := n.udp_step now e
  rw [hu, Option.map_some] at hstep
  refine ⟨_, hstep, ?_⟩
  by_cases hr : e = .resendDue
  · subst hr
    show (t.resendDue now).config = t.config ∧ _
    obtain ⟨hsame, -⟩ | ⟨hdue, hconfig, hnext, -⟩ := t.resendDue_cases now
    · refine ⟨congrArg UdpTransport.config hsame, .inl fun due h => ?_⟩
      rw [← hsame]
      exact h
    · exact ⟨hconfig, .inr ⟨rfl, hdue, hnext⟩⟩
  by_cases he : e.Stops
  · have hact : n.act e = .shutDown n.directory := by
      cases e with
      | stopUdp => rfl
      | shutDown => rfl
      | _ => exact he.elim
    rw [hact]
    exact ⟨rfl, .inl fun due h => by cases h⟩
  · obtain ⟨parcels, hs⟩ := t.act_sends now (n.act_isFresh he hr)
    exact ⟨hs.config, .inl fun due h => hs.resendAt ▸ h⟩

/-- No message is older than the ticks allow: when the next one is due, it will be younger than the
timeout and one interval, or no older than an interval. -/
structure IsYoung (timeout interval clock : Nat) (n : Node) : Prop where
  settings : ∀ t, n.udp = some t →
    t.config.multiPartTimeout = timeout ∧ t.config.resendInterval = interval
  past : ∀ id m, n.inProgress? id = some m → m.started ≤ clock
  next : ∀ due, n.resendAt? = some due → due ≤ clock + interval
  young : ∀ due, n.resendAt? = some due → ∀ id m, n.inProgress? id = some m →
    due < m.started + timeout + interval ∨ due ≤ m.started + interval

variable {timeout interval clock : Nat}

theorem IsYoung.tick (h : n.IsYoung timeout interval clock) {due : Nat}
    (hd : n.resendAt? = some due) (hle : due ≤ now) {m : PartialMessage}
    (hm : (n.step now .resendDue).1.inProgress? id = some m) : now - m.started < timeout := by
  cases n.step_touches now .resendDue id with
  | ticked hu hd' hle' hp =>
    rw [hp] at hm
    have hlt := of_decide_eq_true (Option.filter_eq_some_iff.mp hm).2
    rwa [(h.settings _ hu).1] at hlt
  | untouched hp he => exact absurd hle (Nat.not_le.mpr (he rfl due hd))

theorem IsYoung.step (h : n.IsYoung timeout interval clock) (hclock : clock ≤ now) (e : Event) :
    (n.step now e).1.IsYoung timeout interval now := by
  have hpast : ∀ id m, (n.step now e).1.inProgress? id = some m → m.started ≤ now := by
    intro id m hm
    obtain ⟨m₀, hm₀, hs⟩ | ⟨-, hs, -⟩ := (n.step_touches now e id).started hm
    · exact hs ▸ Nat.le_trans (h.past id m₀ hm₀) hclock
    · exact Nat.le_of_eq hs
  cases hu : n.udp with
  | none =>
    have hstep := n.udp_step now e
    rw [hu, Option.map_none] at hstep
    have hat : (n.step now e).1.resendAt? = none := by rw [resendAt?, hstep, Option.bind_none]
    refine ⟨fun t ht => ?_, hpast, fun due hd => ?_, fun due hd => ?_⟩
    · cases hstep.symm.trans ht
    · cases hat.symm.trans hd
    · cases hat.symm.trans hd
  | some t =>
    obtain ⟨t', hu', hconfig, hschedule⟩ := step_schedule hu now e
    have hat : n.resendAt? = t.resendAt? := by rw [resendAt?, hu, Option.bind_some]
    have hat' : (n.step now e).1.resendAt? = t'.resendAt? := by
      rw [resendAt?, hu', Option.bind_some]
    obtain ⟨htimeout, hinterval⟩ := h.settings t hu
    refine ⟨fun x hx => ?_, hpast, ?_, ?_⟩
    · cases hu'.symm.trans hx
      rw [hconfig]
      exact ⟨htimeout, hinterval⟩
    · rw [hat']
      intro due hd
      obtain hsame | ⟨-, -, hnext⟩ := hschedule
      · have hle := h.next due (hat.trans (hsame due hd))
        omega
      · cases hnext.symm.trans hd
        rw [hinterval]
    · rw [hat']
      intro due hd id m hm
      obtain hsame | ⟨rfl, ⟨due', hd', hle⟩, hnext⟩ := hschedule
      · have hbefore := hat.trans (hsame due hd)
        obtain ⟨m₀, hm₀, hs⟩ | ⟨-, hs, -⟩ := (n.step_touches now e id).started hm
        · exact hs ▸ h.young due hbefore id m₀ hm₀
        · have hle := h.next due hbefore
          exact .inr (by omega)
      · cases hnext.symm.trans hd
        have hlt := h.tick (hat.trans hd') hle hm
        have hs := hpast id m hm
        exact .inl (by omega)

theorem after_isYoung {events more : List (Nat × Event)} (h : n.IsYoung timeout interval clock)
    (ht : n.Timely clock (events ++ more)) :
    ∃ clock', (n.after events).IsYoung timeout interval clock' ∧
      (n.after events).Timely clock' more := by
  induction events generalizing n clock with
  | nil => exact ⟨clock, h, ht⟩
  | cons e events ih =>
    obtain ⟨hclock, -, hrest⟩ := ht
    exact ih (h.step hclock e.2) hrest

theorem after_started {events : List (Nat × Event)} {m : PartialMessage}
    (hn : n.inProgress? id = none) (hm : (n.after events).inProgress? id = some m) :
    ∃ front e back, events = front ++ (m.started, e) :: back ∧ e.Brings id ∧
      (n.after front).inProgress? id = none ∧
      ∀ mid rest, back = mid ++ rest →
        ∃ m', (n.after (front ++ (m.started, e) :: mid)).inProgress? id = some m' ∧
          m'.started = m.started := by
  induction events using List.reverseRecOn generalizing m with
  | nil => cases hn.symm.trans hm
  | append_singleton events e ih =>
    have hconcat := n.after_concat events e
    obtain ⟨m₀, hm₀, hs⟩ | ⟨hnone, hs, hb⟩ :=
      ((n.after events).step_touches e.1 e.2 id).started (hconcat ▸ hm)
    · obtain ⟨front, x, back, rfl, hb, hfront, hback⟩ := ih hm₀
      rw [hs] at hback hm ⊢
      refine ⟨front, x, back ++ [e], by simp, hb, hfront, fun mid rest hmid => ?_⟩
      obtain rfl | ⟨rest, y, rfl⟩ := List.eq_nil_or_concat rest
      · rw [List.append_nil] at hmid
        subst hmid
        exact ⟨m, by simpa using hm, rfl⟩
      · rw [List.concat_eq_append, ← List.append_assoc] at hmid
        exact hback mid rest (List.append_inj' hmid rfl).1
    · rw [hs]
      refine ⟨events, e.2, [], rfl, hb, hnone, fun mid rest hmid => ?_⟩
      obtain ⟨rfl, rfl⟩ := List.append_eq_nil_iff.mp hmid.symm
      exact ⟨m, hm, hs⟩

theorem inProgress?_of_start {s : NodeSetup} {start : Nat} (h : Node.start s start = .ok n)
    (id : MultiPartId) : n.inProgress? id = none := by
  unfold inProgress?
  cases hu : n.udp with
  | none => rfl
  | some t =>
    obtain ⟨config, link, ids, now, rfl⟩ := (isNew_of_start h).udp t hu
    rfl

theorem after_resendAt? {t₀ : UdpTransport} {start : Nat} {events more : List (Nat × Event)}
    (hu : n.udp = some t₀) (ht : t₀.Ticks start 0 start [] t₀)
    (htimely : n.Timely start (events ++ more)) (hstops : ∀ x ∈ events, ¬ x.2.Stops) :
    ∃ count, (n.after events).resendAt? = some (start + count * t₀.config.resendInterval) := by
  obtain ⟨t, count, clock, history, hut, hticks, -⟩ := after_ticks hu ht htimely hstops
  refine ⟨count, ?_⟩
  rw [resendAt?, hut, Option.bind_some]
  exact hticks.resendAt

/-- A message counts from its first chunk, however many come after that. Right after a tick all
messages in progress are younger than the timeout, and as long as the transport is not stopped they
are younger than the timeout and one interval; with a timeout of zero, this is so up to the moment
of the tick. A message is given up only at a tick that finds it as old as the timeout, or when the
application asks for that, with an age of its own. -/
theorem partial_messages_age {s : NodeSetup} {start : Nat} {n₀ : Node} {t₀ : UdpTransport}
    (hstart : Node.start s start = .ok n₀) (hu : n₀.udp = some t₀) {events : List (Nat × Event)}
    {now : Nat} {e : Event} (ht : n₀.Timely start (events ++ [(now, e)])) :
    let timeout := t₀.config.multiPartTimeout
    let interval := t₀.config.resendInterval
    let n := n₀.after events
    let n' := (n.step now e).1
    (∀ id m, n.inProgress? id = some m → ∃ front x back,
      events = front ++ (m.started, x) :: back ∧ x.Brings id ∧
        (n₀.after front).inProgress? id = none ∧
        ∀ mid rest, back = mid ++ rest →
          ∃ m', (n₀.after (front ++ (m.started, x) :: mid)).inProgress? id = some m' ∧
            m'.started = m.started) ∧
    (e = .resendDue → n.resendAt? = some now →
      ∀ id m, n'.inProgress? id = some m → now < m.started + timeout) ∧
    ((∀ x ∈ events, ¬ x.2.Stops) → ∃ count, n.resendAt? = some (start + count * interval) ∧
      now ≤ start + count * interval ∧
      (0 < timeout ∨ now < start + count * interval →
        ∀ id m, n.inProgress? id = some m → now < m.started + timeout + interval)) ∧
    ∀ id m, n.inProgress? id = some m → n'.inProgress? id = none →
      (e.Brings id ∧ ¬ n.HasCompleted id ∧ n'.HasCompleted id) ∨
      (e = .resendDue ∧ m.started + timeout ≤ now) ∨
      ∃ maxAge, e = .prune maxAge ∧ m.started + maxAge ≤ now := by
  intro timeout interval n n'
  obtain ⟨-, hticks⟩ := ticks_of_start hstart hu
  have hnew : n₀.IsYoung timeout interval start := by
    refine ⟨fun t h => ?_, fun id m hm => ?_, fun due hd => ?_, fun due _ id m hm => ?_⟩
    · cases hu.symm.trans h
      exact ⟨rfl, rfl⟩
    · cases (inProgress?_of_start hstart id).symm.trans hm
    · rw [resendAt?, hu, Option.bind_some, hticks.resendAt, Nat.zero_mul] at hd
      cases hd
      exact Nat.le_add_right start interval
    · cases (inProgress?_of_start hstart id).symm.trans hm
  obtain ⟨clock, hyoung, hclock, hdue, -⟩ := after_isYoung hnew ht
  have hpast (id : MultiPartId) (m : PartialMessage) (hm : n.inProgress? id = some m) :
      m.started ≤ now :=
    Nat.le_trans (hyoung.past id m hm) hclock
  refine ⟨fun id m hm => after_started (inProgress?_of_start hstart id) hm,
    fun he hd id m hm => ?_, fun hstops => ?_, fun id m hm hm' => ?_⟩
  · subst he
    have hlt := hyoung.tick hd (Nat.le_refl now) hm
    have hle := (hyoung.step hclock .resendDue).past id m hm
    omega
  · obtain ⟨count, hd⟩ := after_resendAt? hu hticks ht hstops
    have hle := hdue _ hd
    refine ⟨count, hd, hle, fun (hwhen : 0 < timeout ∨
      now < start + count * t₀.config.resendInterval) id m hm => ?_⟩
    have hy := hyoung.young _ hd id m hm
    omega
  · have hs := hpast id m hm
    obtain hb | ⟨t, hut, he, hold⟩ | ⟨maxAge, he, hold⟩ :=
      (n.step_touches now e id).ended hm hm'
    · exact .inl hb
    · rw [(hyoung.settings t hut).1] at hold
      exact .inr (.inl ⟨he, by omega⟩)
    · exact .inr (.inr ⟨maxAge, he, by omega⟩)

end Node

def NodeSetup.waiting (timeout : Nat) : NodeSetup where
  identity := ⟨⟨1⟩, "waiting", .empty⟩
  udp := some ⟨{ multiPartTimeout := timeout },
    .ok { port := 4000, fault := fun _ _ => none }, .numbered 0 100⟩

namespace Node

def waiting (timeout : Nat) : Node where
  directory := {
    identity := (NodeSetup.waiting timeout).identity.declare unicastPortKey (.int 4000) }
  discoveryTimeout := 30000
  udp := some (.start { multiPartTimeout := timeout } { port := 4000, fault := fun _ _ => none }
    (.numbered 0 100) 0)

def Event.piece (index : UInt32) : Event :=
  .datagram (Payload.packet ⟨⟨9⟩, ⟨2⟩, ⟨1⟩, false, ⟨⟨2⟩, ⟨1⟩, .of
    (⟨⟨5⟩, index, 3, 30, List.replicate 10 0⟩ : Chunk)⟩⟩).encode ⟨.v4 0x0a000002, 4000, 0⟩

def pieces : List (Nat × Event) :=
  [(0, .resendDue), (500, .piece 0), (1000, .resendDue), (1500, .piece 1), (1600, .piece 0),
    (2000, .resendDue)]

theorem partial_messages_age_pieces :
    let n := (waiting 2000).after pieces
    let n' := (n.step 3000 .resendDue).1
    Node.start (.waiting 2000) 0 = .ok (.waiting 2000) ∧
    (waiting 2000).Timely 0 (pieces ++ [(3000, .resendDue)]) ∧
    ∃ m, n.inProgress? ⟨5⟩ = some m ∧ m.started = 500 ∧
      (∃ front x back, pieces = front ++ (500, x) :: back ∧ x.Brings ⟨5⟩) ∧
      3000 < m.started + 2000 + 1000 ∧
      n'.inProgress? ⟨5⟩ = none ∧ ¬ n'.HasCompleted ⟨5⟩ ∧ m.started + 2000 ≤ 3000 := by
  intro n n'
  have hstart : Node.start (.waiting 2000) 0 = .ok (waiting 2000) := rfl
  have htimely : (waiting 2000).Timely 0 (pieces ++ [(3000, .resendDue)]) := by decide +kernel
  have hstops : ∀ x ∈ pieces, ¬ x.2.Stops := by
    simp [pieces, Event.Stops, Event.piece]
  obtain ⟨hfirst, -, hbound, hended⟩ := partial_messages_age hstart rfl htimely
  have hstarted : (n.inProgress? ⟨5⟩).map PartialMessage.started = some 500 := by decide +kernel
  obtain ⟨m, hm, hs⟩ := Option.map_eq_some_iff.mp hstarted
  have hgone : n'.inProgress? ⟨5⟩ = none :=
    Option.map_eq_none_iff.mp
      (by decide +kernel : (n'.inProgress? ⟨5⟩).map PartialMessage.started = none)
  have hopen : ¬ n'.HasCompleted ⟨5⟩ := not_hasCompleted_of_nil (by decide +kernel)
  obtain ⟨front, x, back, hsplit, hx, -⟩ := hfirst ⟨5⟩ m hm
  rw [hs] at hsplit
  obtain ⟨count, -, -, hyoung⟩ := hbound hstops
  refine ⟨hstart, htimely, m, hm, hs, ⟨front, x, back, hsplit, hx⟩,
    hyoung (.inl (by decide)) ⟨5⟩ m hm, hgone, hopen, ?_⟩
  obtain ⟨-, -, hc⟩ | ⟨-, hold⟩ | ⟨_, h, -⟩ := hended ⟨5⟩ m hm hgone
  · exact absurd hc hopen
  · exact hold
  · cases h

/-- Once a transport is stopped, messages stay for any time; without a timeout, they may be as old
as an interval when the tick comes; and the application may have them given up before. -/
theorem partial_messages_outlive_timeout :
    let stopped := (waiting 2000).after [(0, .resendDue), (500, .piece 0), (600, .shutDown)]
    let timeoutZero := (waiting 0).after [(0, .resendDue), (0, .piece 0)]
    let kept := (waiting 2000).after [(0, .resendDue), (500, .piece 0)]
    let pruned := (kept.step 600 (.prune 0)).1
    Node.start (.waiting 2000) 0 = .ok (.waiting 2000) ∧
    Node.start (.waiting 0) 0 = .ok (.waiting 0) ∧
    ((waiting 2000).Timely 0
        [(0, .resendDue), (500, .piece 0), (600, .shutDown), (10000, .piece 1)] ∧
      ∃ m, stopped.inProgress? ⟨5⟩ = some m ∧ ¬ 10000 < m.started + 2000 + 1000) ∧
    ((waiting 0).Timely 0 [(0, .resendDue), (0, .piece 0), (1000, .resendDue)] ∧
      ∃ m, timeoutZero.inProgress? ⟨5⟩ = some m ∧ ¬ 1000 < m.started + 0 + 1000) ∧
    (waiting 2000).Timely 0 [(0, .resendDue), (500, .piece 0), (600, .prune 0)] ∧
      ∃ m, kept.inProgress? ⟨5⟩ = some m ∧ pruned.inProgress? ⟨5⟩ = none ∧
        ¬ pruned.HasCompleted ⟨5⟩ ∧ ¬ m.started + 2000 ≤ 600 := by
  intro stopped timeoutZero kept pruned
  have hstopped : (stopped.inProgress? ⟨5⟩).map PartialMessage.started = some 500 := by
    decide +kernel
  have htimeoutZero : (timeoutZero.inProgress? ⟨5⟩).map PartialMessage.started = some 0 := by
    decide +kernel
  have hkept : (kept.inProgress? ⟨5⟩).map PartialMessage.started = some 500 := by decide +kernel
  have hgone : (pruned.inProgress? ⟨5⟩).map PartialMessage.started = none := by decide +kernel
  have hnone : pruned.udp.map (fun t => t.reassembler.completed) = some [] := by decide +kernel
  obtain ⟨m, hm, hs⟩ := Option.map_eq_some_iff.mp hstopped
  obtain ⟨m₀, hm₀, hs₀⟩ := Option.map_eq_some_iff.mp htimeoutZero
  obtain ⟨m₁, hm₁, hs₁⟩ := Option.map_eq_some_iff.mp hkept
  refine ⟨rfl, rfl, ⟨by decide +kernel, m, hm, by omega⟩, ⟨by decide +kernel, m₀, hm₀, by omega⟩,
    by decide +kernel, m₁, hm₁, Option.map_eq_none_iff.mp hgone, ?_, by omega⟩
  exact not_hasCompleted_of_nil hnone

end Node

end PeerMesh

import PeerMesh.Proofs.Whereabouts
import PeerMesh.Proofs.Wiring

namespace PeerMesh

namespace Payload

/-- The bytes begin neither with an announcement nor with a handshake. -/
def IsAnonymous (bs : Bytes) : Prop :=
  ∀ i, ¬ (announcement i).encode <+: bs ∧ ¬ (handshake i).encode <+: bs

theorem isAnonymous_cons {kind : UInt8} (h : kind ≠ 3 ∧ kind ≠ 4) (bs : Bytes) :
    IsAnonymous (kind :: bs) :=
  fun _ => ⟨fun hp => h.1 (List.cons_prefix_cons.mp hp).1.symm,
    fun hp => h.2 (List.cons_prefix_cons.mp hp).1.symm⟩

theorem isAnonymous_datagram (p : Packet) : IsAnonymous p.datagram :=
  isAnonymous_cons (by decide) p.encode

theorem isAnonymous_acknowledgement (id : PacketId) : IsAnonymous (acknowledgement id).encode :=
  isAnonymous_cons (by decide) id.encode

theorem isAnonymous_message (e : Envelope) : IsAnonymous (message e).encode :=
  isAnonymous_cons (by decide) e.encode

end Payload

/-- The parcel is the announcement of an identity to all nodes, or else announces nothing. -/
def Parcel.Presents (i : Identity) (p : Parcel) : Prop :=
  p = .broadcast (Payload.announcement i).encode ∨ Payload.IsAnonymous p.datagram

def Outbox.HoldsPackets (o : Outbox) : Prop :=
  ∃ limit history, o = after limit history ∧
    ∀ x, .expect x ∈ history → ∃ p : Packet, x.datagram = p.datagram

theorem Outbox.HoldsPackets.advance {o : Outbox} (h : o.HoldsPackets) {events : List Event}
    (he : ∀ x, .expect x ∈ events → ∃ p : Packet, x.datagram = p.datagram) :
    (events.foldl step o).HoldsPackets := by
  obtain ⟨limit, history, rfl, hold⟩ := h
  refine ⟨limit, history ++ events, (List.foldl_append ..).symm, fun x hx => ?_⟩
  obtain hx | hx := List.mem_append.mp hx
  · exact hold x hx
  · exact he x hx

theorem Outbox.HoldsPackets.due {o : Outbox} (h : o.HoldsPackets) {now interval : Nat}
    {r : Resend} (hr : r ∈ (o.due now interval).2) : ∃ p : Packet, r.datagram = p.datagram := by
  obtain ⟨limit, history, rfl, hold⟩ := h
  obtain ⟨front, x, back, _, _, rfl, -, -, -, rfl⟩ :=
    (mem_due_after limit history now interval r).mp hr
  exact hold x (List.mem_append_right front List.mem_cons_self)

namespace UdpTransport

/-- Of what is offered to the network meanwhile, all announcements are of one identity. -/
def Presents (i : Identity) (t t' : UdpTransport) : Prop :=
  ∃ parcels, t'.link.offered = t.link.offered ++ parcels ∧ ∀ p ∈ parcels, p.Presents i

variable {i : Identity} {t t' : UdpTransport}

theorem Presents.nothing (h : t'.link = t.link) : t.Presents i t' :=
  ⟨[], by rw [h, List.append_nil], nofun⟩

theorem Presents.packets {parcels : List Parcel}
    (h : t'.link.offered = t.link.offered ++ parcels)
    (hp : ∀ parcel ∈ parcels, ∃ p : Packet, parcel.datagram = p.datagram) : t.Presents i t' := by
  refine ⟨parcels, h, fun parcel hparcel => .inr ?_⟩
  obtain ⟨p, hd⟩ := hp parcel hparcel
  rw [hd]
  exact Payload.isAnonymous_datagram p

theorem announce_presents (t : UdpTransport) (i : Identity) : t.Presents i (t.announce i) :=
  ⟨_, (t.announce_sends i).offered, by
    rintro parcel hp
    exact .inl (List.mem_singleton.mp hp)⟩

theorem resendDue_presents (h : t.outbox.HoldsPackets) (now : Nat) :
    t.Presents i (t.resendDue now) := by
  unfold resendDue
  split
  · exact .nothing rfl
  · split
    · refine .packets (t.link.offered_offerAll _) fun parcel hp => ?_
      obtain ⟨r, hr, rfl⟩ := List.mem_map.mp hp
      exact h.due hr
    · exact .nothing rfl

def Act.Tells (i : Identity) : Act → Prop
  | .announce j | .announceDue j => j = i
  | _ => True

theorem act_presents (h : t.outbox.HoldsPackets) (now : Nat) {a : Act} (ha : a.Tells i) :
    t.Presents i (t.act now a) := by
  have haccepted (e : Envelope) (sender : PeerId) {parcel : Packet → Parcel}
      (hp : ∀ p, (parcel p).datagram = p.datagram) :
      let x := t.packetsFor sender e false
      t.Presents i { x.1 with link := (x.1.link.offerWhileAccepted (x.2.map parcel)).1 } := by
    intro x
    obtain ⟨count, ho⟩ := x.1.link.offered_offerWhileAccepted (x.2.map parcel)
    refine .packets ho fun q hq => ?_
    obtain ⟨p, -, rfl⟩ := List.mem_map.mp (List.mem_of_mem_take hq)
    exact ⟨p, hp p⟩
  cases a with
  | receive d datagram source =>
    refine ⟨_, (t.receive_sends d now datagram source).offered, fun parcel hp => .inr ?_⟩
    obtain ⟨p, -, rfl⟩ := List.mem_map.mp hp
    rw [datagram_acknowledgement]
    exact Payload.isAnonymous_acknowledgement p.id
  | sendReliable sender endpoint e =>
    have hlink := (t.packetsFor sender e true).1.link_sendPackets endpoint now
      (t.packetsFor sender e true).2
    refine .packets ((congrArg Link.offered hlink).trans (Link.offered_offerAll _ _))
      fun parcel hp => ?_
    obtain ⟨p, -, rfl⟩ := List.mem_map.mp hp
    exact ⟨p, rfl⟩
  | sendUnreliable sender endpoint e => exact haccepted e sender fun _ => rfl
  | broadcast sender e =>
    show t.Presents i (t.broadcast sender e).1
    unfold broadcast
    split
    · exact .nothing rfl
    · exact haccepted e sender fun _ => rfl
  | announce j =>
    obtain rfl : j = i := ha
    exact t.announce_presents j
  | announceDue j =>
    obtain rfl : j = i := ha
    show t.Presents j (t.announceDue j now)
    unfold announceDue
    split
    · exact .nothing rfl
    · split
      · exact announce_presents _ j
      · exact .nothing rfl
  | resendDue => exact resendDue_presents h now
  | _ => exact .nothing rfl

end UdpTransport

/-- The content of a frame is the handshake of an identity, or else it introduces no one. -/
def Payload.Introduces (i : Identity) (content : Bytes) : Prop :=
  content = (handshake i).encode ∨ IsAnonymous content

namespace FrameWriter

def Admits (w : FrameWriter) (p : Payload) : Prop :=
  p.encode.length ≤ w.maxFrame ∧ w.isOpen

instance (w : FrameWriter) (p : Payload) : Decidable (w.Admits p) :=
  inferInstanceAs (Decidable (_ ∧ _))

theorem write_eq (w : FrameWriter) (p : Payload) : (w.write p).1 =
    if w.Admits p then { w with frames := p.encode :: w.frames } else w := by
  unfold write
  dsimp only
  by_cases hp : p.encode.length ≤ w.maxFrame
  · rw [if_neg (Nat.not_lt.mpr hp)]
    by_cases ho : w.isOpen
    · rw [if_pos ho, if_pos ⟨hp, ho⟩]
    · rw [if_neg ho, if_neg fun h => ho h.2]
  · rw [if_pos (Nat.not_le.mp hp), if_neg fun h => hp h.1]

theorem write_eq_ok_iff {w : FrameWriter} {p : Payload} : (w.write p).2 = .ok () ↔ w.Admits p := by
  unfold write Admits
  dsimp only
  split
  · rename_i hp
    exact iff_of_false nofun fun h => absurd h.1 (Nat.not_le.mpr hp)
  · rename_i hp
    split
    · rename_i ho
      exact iff_of_true rfl ⟨Nat.not_lt.mp hp, ho⟩
    · rename_i ho
      exact iff_of_false nofun fun h => ho h.2

end FrameWriter

/-- One more frame is on the connection. -/
def Connection.withFrame (c : Connection) (content : Bytes) : Connection :=
  { c with writer.frames := content :: c.writer.frames }

namespace TcpTransport

/-- On a connection that was there meanwhile, all handshakes are of one identity; on a new one, its
handshake is all there is. -/
def Introduces (i : Identity) (t t' : TcpTransport) : Prop :=
  ∀ number c', t'.connections.get? number = some c' →
    c'.writer.frames = [(Payload.handshake i).encode] ∨
      ∃ c, t.connections.get? number = some c ∧ ∃ new,
        c'.writer.frames = new ++ c.writer.frames ∧
          ∀ content ∈ new, Payload.Introduces i content

def IsSilent (t t' : TcpTransport) : Prop :=
  ∀ number c', t'.connections.get? number = some c' →
    ∃ c, t.connections.get? number = some c ∧ c.writer = c'.writer

variable {i : Identity} {t t' t'' : TcpTransport} {number : Nat}

theorem IsSilent.introduces (h : t.IsSilent t') : t.Introduces i t' := by
  intro number c' hc'
  obtain ⟨c, hc, hw⟩ := h number c' hc'
  exact .inr ⟨c, hc, [], congrArg _ hw.symm, nofun⟩

theorem IsSilent.ofEq (h : t'.connections = t.connections) : t.IsSilent t' :=
  fun _ c' hc' => ⟨c', h ▸ hc', rfl⟩

theorem IsSilent.trans (h : t.IsSilent t') (h' : t'.IsSilent t'') : t.IsSilent t'' := by
  intro number c'' hc''
  obtain ⟨c', hc', hw'⟩ := h' number c'' hc''
  obtain ⟨c, hc, hw⟩ := h number c' hc'
  exact ⟨c, hc, hw.trans hw'⟩

theorem IsSilent.foldl {α : Type} {f : TcpTransport × Directory → α → TcpTransport × Directory}
    (hf : ∀ (s : TcpTransport × Directory) a, s.1.IsSilent (f s a).1) (as : List α)
    (s : TcpTransport × Directory) : s.1.IsSilent (as.foldl f s).1 := by
  induction as generalizing s with
  | nil => exact .ofEq rfl
  | cons a as ih => exact (hf s a).trans (ih (f s a))

theorem IsSilent.put {c c' : Connection} (hc : t.connections.get? number = some c)
    (hw : c.writer = c'.writer) :
    t.IsSilent { t with connections := t.connections.put number c' } := by
  intro m d hd
  dsimp only at hd
  rw [KeyedList.get?_put] at hd
  split at hd
  · rename_i hm
    cases hd
    exact ⟨c, hm ▸ hc, hw⟩
  · exact ⟨d, hd, rfl⟩

theorem close_isSilent (t : TcpTransport) (d : Directory) (number now : Nat) :
    t.IsSilent (t.close d number now).1 := by
  cases h : t.connections.get? number with
  | none =>
    rw [close, h]
    exact .ofEq rfl
  | some c =>
    obtain ⟨activity, hclose⟩ := close_eq h d now
    rw [hclose]
    intro m c' hc'
    dsimp only at hc'
    rw [KeyedList.get?_erase] at hc'
    split at hc'
    · cases hc'
    · exact ⟨c', hc', rfl⟩

theorem handshakesDue_isSilent (t : TcpTransport) (d : Directory) (now : Nat) :
    t.IsSilent (t.handshakesDue d now).1 := by
  refine .foldl (fun s e => ?_) t.connections.entries (t, d)
  dsimp only
  split
  · split
    · exact s.1.close_isSilent s.2 e.1 now
    · exact .ofEq rfl
  · exact .ofEq rfl

theorem shutDown_isSilent (t : TcpTransport) (d : Directory) (now : Nat) :
    t.IsSilent (t.shutDown d now).1 :=
  IsSilent.foldl (fun s number => s.1.close_isSilent s.2 number now) t.connections.keys (t, d)

theorem pause_isSilent (t : TcpTransport) (now : Nat) : t.IsSilent (t.pause now) := by
  obtain ⟨activity, hp⟩ := t.pause_eq now
  exact .ofEq (by rw [hp])

theorem bound_isSilent (t : TcpTransport) : t.IsSilent t.bound := by
  unfold bound
  split
  · exact .ofEq rfl
  · exact .ofEq rfl

theorem retryDue_isSilent (t : TcpTransport) (now : Nat) : t.IsSilent (t.retryDue now) := by
  unfold retryDue
  split
  · split
    · exact .ofEq rfl
    · exact .ofEq rfl
  · exact .ofEq rfl

theorem get?_write (t : TcpTransport) (number : Nat) (p : Payload) (m : Nat) :
    (t.write number p).1.connections.get? m = (t.connections.get? m).map fun c =>
      if m = number ∧ c.writer.Admits p then c.withFrame p.encode else c := by
  unfold write
  cases hc : t.connections.get? number with
  | none =>
    cases hm : t.connections.get? m with
    | none => rfl
    | some c =>
      have hne : m ≠ number := by
        rintro rfl
        cases hc.symm.trans hm
      rw [Option.map_some, if_neg fun h => hne h.1]
  | some c =>
    show (t.connections.put number { c with writer := (c.writer.write p).1 }).get? m = _
    rw [KeyedList.get?_put, FrameWriter.write_eq]
    by_cases hm : m = number
    · rw [if_pos hm, hm, hc, Option.map_some]
      refine congrArg some ?_
      by_cases hp : c.writer.Admits p
      · rw [if_pos hp, if_pos ⟨rfl, hp⟩]
        rfl
      · rw [if_neg hp, if_neg fun h => hp h.2]
    · simp only [if_neg hm, if_neg fun h : _ ∧ _ => hm h.1]
      exact Option.map_id'.symm

theorem get?_foldl_write (t : TcpTransport) (p : Payload) {es : List (Nat × PeerId)}
    (hn : (es.map Prod.fst).Nodup) (m : Nat) :
    (es.foldl (fun t e => (t.write e.1 p).1) t).connections.get? m =
      (t.connections.get? m).map fun c =>
        if m ∈ es.map Prod.fst ∧ c.writer.Admits p then c.withFrame p.encode else c := by
  induction es generalizing t with
  | nil =>
    simp only [List.map_nil, List.not_mem_nil, false_and, if_false]
    exact Option.map_id'.symm
  | cons e es ih =>
    obtain ⟨he, hn⟩ := List.nodup_cons.mp hn
    rw [List.foldl_cons, ih (t.write e.1 p).1 hn, get?_write, Option.map_map]
    refine congrArg (Option.map · _) (funext fun c => ?_)
    rw [Function.comp_apply, List.map_cons]
    by_cases hm : m = e.1
    · have hfirst : m = e.1 ↔ m ∈ e.1 :: es.map Prod.fst :=
        iff_of_true hm (List.mem_cons.mpr (.inl hm))
      rw [if_neg fun h => he (hm ▸ h.1), if_congr (and_congr_left' hfirst) rfl rfl]
    · have hlater : m ∈ es.map Prod.fst ↔ m ∈ e.1 :: es.map Prod.fst :=
        (List.mem_cons.trans (or_iff_right hm)).symm
      rw [if_neg fun h : _ ∧ _ => hm h.1, if_congr (and_congr_left' hlater) rfl rfl]

theorem nodup_established (t : TcpTransport) : (t.established.map Prod.fst).Nodup := by
  refine t.connections.nodup.sublist ?_
  unfold established
  induction t.connections.entries with
  | nil => exact .slnil
  | cons e es ih =>
    rw [List.filterMap_cons]
    cases e.2.peer? with
    | none => exact ih.cons e.1
    | some p => exact ih.cons_cons e.1

theorem get?_writeAll (t : TcpTransport) (p : Payload) (m : Nat) :
    (t.writeAll p).connections.get? m = (t.connections.get? m).map fun c =>
      if c.peer?.isSome ∧ c.writer.Admits p then c.withFrame p.encode else c := by
  rw [writeAll, t.get?_foldl_write p t.nodup_established]
  cases hm : t.connections.get? m with
  | none => rfl
  | some c =>
    have hmem : m ∈ t.established.map Prod.fst ↔ c.peer?.isSome := by
      rw [Option.isSome_iff_exists, List.mem_map]
      have hpeer (q : PeerId) : (m, q) ∈ t.established ↔ c.peer? = some q := by
        rw [mem_established, peer?, hm, Option.bind_some]
      constructor
      · rintro ⟨⟨_, q⟩, hq, rfl⟩
        exact ⟨q, (hpeer q).mp hq⟩
      · rintro ⟨q, hq⟩
        exact ⟨(m, q), (hpeer q).mpr hq, rfl⟩
    rw [Option.map_some, Option.map_some]
    exact congrArg some (if_congr (and_congr_left' hmem) rfl rfl)

/-- On some connections a payload is written. -/
theorem Introduces.write {p : Payload} (hp : Payload.Introduces i p.encode)
    {written : Nat → Connection → Prop} [∀ m c, Decidable (written m c)]
    (h : ∀ m, t'.connections.get? m = (t.connections.get? m).map fun c =>
      if written m c then c.withFrame p.encode else c) : t.Introduces i t' := by
  intro m c' hc'
  rw [h, Option.map_eq_some_iff] at hc'
  obtain ⟨c, hc, rfl⟩ := hc'
  refine .inr ⟨c, hc, ?_⟩
  split
  · exact ⟨[p.encode], rfl, fun content hcontent => List.mem_singleton.mp hcontent ▸ hp⟩
  · exact ⟨[], rfl, nofun⟩

theorem write_introduces (t : TcpTransport) (number : Nat) {p : Payload}
    (hp : Payload.Introduces i p.encode) : t.Introduces i (t.write number p).1 :=
  .write hp (t.get?_write number p)

theorem writeAll_introduces (t : TcpTransport) {p : Payload}
    (hp : Payload.Introduces i p.encode) : t.Introduces i (t.writeAll p) :=
  .write hp (t.get?_writeAll p)

theorem broadcast_introduces (t : TcpTransport) (e : Envelope) (i : Identity) :
    t.Introduces i (t.broadcast e).1 := by
  unfold broadcast
  split
  · exact (IsSilent.ofEq rfl).introduces
  · exact t.writeAll_introduces (.inr (Payload.isAnonymous_message e))

theorem announce_introduces (t : TcpTransport) (i : Identity) : t.Introduces i (t.announce i) :=
  t.writeAll_introduces (.inl rfl)

theorem opened_introduces (t : TcpTransport) (i : Identity) (a : SocketAddress) (now : Nat) :
    t.Introduces i (t.opened i a now) := by
  unfold opened
  split
  · exact (IsSilent.ofEq rfl).introduces
  · dsimp only
    split
    · split
      · exact (pause_isSilent t now).introduces
      · exact (IsSilent.ofEq rfl).introduces
    · rename_i hresult
      have hadmits := FrameWriter.write_eq_ok_iff.mp hresult
      intro m c' hc'
      dsimp only at hc'
      rw [KeyedList.get?_put] at hc'
      split at hc'
      · cases hc'
        rw [FrameWriter.write_eq, if_pos hadmits]
        exact .inl rfl
      · exact .inr ⟨c', hc', [], rfl, List.forall_mem_nil _⟩

end TcpTransport

namespace TcpReception

theorem close_isSilent (r : TcpReception) (number now : Nat) :
    r.transport.IsSilent (r.close number now).transport :=
  r.transport.close_isSilent r.directory number now

theorem frame_isSilent (number now : Nat) (r : TcpReception) (f : Frame) :
    r.transport.IsSilent (frame number now r f).transport := by
  unfold frame
  split
  · exact .ofEq rfl
  · rename_i c hc
    split
    · split
      · exact r.close_isSilent number now
      · exact .put hc rfl
    · exact r.close_isSilent number now
    · split
      · exact .ofEq rfl
      · exact .ofEq rfl
    · split
      · exact .ofEq rfl
      · exact r.close_isSilent number now
    · exact .ofEq rfl

theorem foldl_frame_isSilent (number now : Nat) (r : TcpReception) (fs : List Frame) :
    r.transport.IsSilent (fs.foldl (frame number now) r).transport := by
  induction fs generalizing r with
  | nil => exact .ofEq rfl
  | cons f fs ih => exact (frame_isSilent number now r f).trans (ih (frame number now r f))

end TcpReception

namespace TcpTransport

theorem receive_isSilent (t : TcpTransport) (d : Directory) (number now : Nat) (bs : Bytes)
    (ended : Bool) : t.IsSilent (t.receive d number now bs ended).transport := by
  unfold receive
  split
  · exact .ofEq rfl
  · rename_i c hc
    have hframes := TcpReception.foldl_frame_isSilent number now
      { transport := t, directory := d } (readFrames t.config.maxFrame ended (c.unread ++ bs)).1
    dsimp only
    split
    · refine hframes.trans fun m c' hc' => ?_
      dsimp only at hc'
      rw [KeyedList.get?_modify] at hc'
      split at hc'
      · obtain ⟨c₀, hc₀, rfl⟩ := Option.map_eq_some_iff.mp hc'
        exact ⟨c₀, hc₀, rfl⟩
      · exact ⟨c', hc', rfl⟩
    · exact hframes.trans (TcpReception.close_isSilent _ number now)
    · exact hframes.trans (TcpReception.close_isSilent _ number now)

def Act.IsAnonymous : Act → Prop
  | .write _ p => Payload.IsAnonymous p.encode
  | _ => True

/-- All handshakes that a transport writes are of the identity that it finds. -/
theorem act_introduces (t : TcpTransport) (d : Directory) (now : Nat) {a : Act}
    (ha : a.IsAnonymous) : t.Introduces d.identity (t.act d now a).1 := by
  cases a with
  | rest => exact (IsSilent.ofEq rfl).introduces
  | opened a => exact t.opened_introduces d.identity a now
  | receive number bs ended => exact (t.receive_isSilent d number now bs ended).introduces
  | handshakesDue => exact (t.handshakesDue_isSilent d now).introduces
  | bound => exact t.bound_isSilent.introduces
  | pause => exact (t.pause_isSilent now).introduces
  | retryDue => exact (t.retryDue_isSilent now).introduces
  | write number p => exact t.write_introduces number (.inr ha)
  | announce => exact t.announce_introduces d.identity
  | broadcast e => exact t.broadcast_introduces e d.identity
  | shutDown => exact (t.shutDown_isSilent d now).introduces

end TcpTransport

namespace Node

theorem isAnonymous_tcpActs (n : Node) (e : Event) (k : Nat) : (n.tcpActs e k).IsAnonymous := by
  have ha := n.asks_tcpActs e k
  generalize n.tcpActs e k = a at ha ⊢
  cases ha with
  | message e number m => exact Payload.isAnonymous_message m
  | plain e ha =>
    cases a with
    | write number p => exact ha.elim
    | _ => exact trivial
  | _ => exact trivial

end Node

end PeerMesh

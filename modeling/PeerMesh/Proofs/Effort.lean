import PeerMesh.Proofs.Compaction

namespace PeerMesh

inductive Loop where
  | payloads
  | properties
deriving DecidableEq, Repr

/-- One round of a loop: what was unread at its start and, unless it failed, at its end. -/
structure Round where
  loop : Loop
  start : Bytes
  finish : Option Bytes
deriving DecidableEq, Repr

/-- A decoder that notes the rounds of its loops. -/
def Watched (α : Type) : Type :=
  Bytes → Except DecodeError (α × Bytes) × List Round

namespace Watched

variable {α β : Type}

def plain (d : Decoder α) : Watched α :=
  fun bs => (d bs, [])

def bind (w : Watched α) (f : α → Watched β) : Watched β := fun bs =>
  match w bs with
  | (.ok (a, rest), rounds) => ((f a rest).1, rounds ++ (f a rest).2)
  | (.error e, rounds) => (.error e, rounds)

instance : Monad Watched where
  pure a := plain (pure a)
  bind := bind

def round (loop : Loop) (w : Watched α) : Watched α := fun bs =>
  ((w bs).1, ⟨loop, bs, (w bs).1.toOption.map Prod.snd⟩ :: (w bs).2)

variable {w : Watched α} {f : α → Watched β} {bs mid : Bytes} {a : α}

theorem bind_of_ok (h : (w bs).1 = .ok (a, mid)) :
    (w >>= f) bs = ((f a mid).1, (w bs).2 ++ (f a mid).2) := by
  have hw : w bs = (.ok (a, mid), (w bs).2) := Prod.ext h rfl
  show bind w f bs = _
  rw [bind, hw]

theorem bind_of_error {e : DecodeError} (h : (w bs).1 = .error e) :
    (w >>= f) bs = (.error e, (w bs).2) := by
  have hw : w bs = (.error e, (w bs).2) := Prod.ext h rfl
  show bind w f bs = _
  rw [bind, hw]

theorem plain_bind_of_ok {d : Decoder α} (h : d bs = .ok (a, mid)) :
    (plain d >>= f) bs = f a mid :=
  bind_of_ok h

end Watched

open Decoder Watched

namespace Properties

def addEntry (ps : Properties) : Decoder Properties := do
  let e ← readEntry
  match ps.get? e.1 with
  | some _ => throw (.duplicateProperty e.1)
  | none => return ps.insert e.1 e.2

def watchEntries : Nat → Properties → Watched Properties
  | 0, ps => return ps
  | n + 1, ps => do
    let ps ← round .properties (plain (addEntry ps))
    watchEntries n ps

end Properties

def Identity.watch : Watched Identity := do
  let id ← plain PeerId.decode
  let name ← plain Field.decodeText
  let count ← plain Varint.decode
  let properties ← Properties.watchEntries count .empty
  return { id, name, properties }

namespace Payload

def watchContent (kind : UInt8) : Watched Payload :=
  if kind = 1 then plain (packet <$> Packet.decode)
  else if kind = 2 then plain (acknowledgement <$> PacketId.decode)
  else if kind = 3 then do return announcement (← Identity.watch)
  else if kind = 4 then do return handshake (← Identity.watch)
  else if kind = 5 then plain (message <$> Envelope.decode)
  else plain (throw (.unknownPayloadKind kind))

def watch : Watched Payload := do
  let kind ← plain Decoder.byte
  watchContent kind

end Payload

namespace Round

/-- The round took no less than its loop takes: one of the payloads reads the kind of a payload in
any case and all of the payload if it completes, one of the properties reads three bytes if it
completes. -/
def Takes (r : Round) : Prop :=
  match r.loop with
  | .payloads => (∃ kind more, byte r.start = .ok (kind, more) ∧ more.length + 1 ≤ r.start.length) ∧
    ∀ rest, r.finish = some rest → rest.length + 17 ≤ r.start.length
  | .properties => ∀ rest, r.finish = some rest → rest.length + 3 ≤ r.start.length

end Round

/-- The watched decoder does what the decoder does. Its rounds take what they have to; whenever it
succeeds, it has read a byte for each of them and `gain` more, and when it fails, there are at most
`debt` more of them than bytes. -/
structure Watches {α : Type} (w : Watched α) (d : Decoder α) (gain debt : Nat) : Prop where
  result : ∀ bs, (w bs).1 = d bs
  takes : ∀ bs, ∀ r ∈ (w bs).2, r.Takes
  paid : ∀ bs a rest, d bs = .ok (a, rest) → rest.length + (w bs).2.length + gain ≤ bs.length
  bounded : ∀ bs, (w bs).2.length ≤ bs.length + debt

namespace Watches

variable {α β : Type} {w : Watched α} {d : Decoder α} {gain debt : Nat}

theorem plain (h : Consumes d gain) : Watches (.plain d) d gain 0 where
  result _ := rfl
  takes _ := nofun
  paid := h
  bounded _ := Nat.zero_le _

theorem pure (a : α) : Watches (Pure.pure a) (Pure.pure a) 0 0 :=
  .plain (.pure a)

theorem mono {gain' debt' : Nat} (h : Watches w d gain debt) (hg : gain' ≤ gain)
    (hd : debt ≤ debt') : Watches w d gain' debt' where
  result := h.result
  takes := h.takes
  paid bs a rest hok := by
    have := h.paid bs a rest hok
    omega
  bounded bs := by
    have := h.bounded bs
    omega

theorem bind {f : α → Watched β} {g : α → Decoder β} {gain' debt' : Nat}
    (h : Watches w d gain debt) (hf : ∀ a, Watches (f a) (g a) gain' debt') :
    Watches (w >>= f) (d >>= g) (gain + gain') (max debt (debt' - gain)) := by
  have hok {bs mid : Bytes} {a : α} (ha : d bs = .ok (a, mid)) :
      (w >>= f) bs = ((f a mid).1, (w bs).2 ++ (f a mid).2) :=
    Watched.bind_of_ok ((h.result bs).trans ha)
  have herror {bs : Bytes} {e : DecodeError} (he : d bs = .error e) :
      (w >>= f) bs = (.error e, (w bs).2) :=
    Watched.bind_of_error ((h.result bs).trans he)
  constructor
  · intro bs
    cases hd : d bs with
    | error e => rw [herror hd, Decoder.bind_of_error hd]
    | ok v => rw [hok hd, Decoder.bind_of_ok hd, (hf v.1).result]
  · intro bs r hr
    cases hd : d bs with
    | error e =>
      rw [herror hd] at hr
      exact h.takes bs r hr
    | ok v =>
      rw [hok hd] at hr
      exact (List.mem_append.mp hr).elim (h.takes bs r) ((hf v.1).takes v.2 r)
  · intro bs b rest hb
    obtain ⟨a, mid, hd, hg⟩ := bind_eq_ok.mp hb
    have hmid := h.paid bs a mid hd
    have hrest := (hf a).paid mid b rest hg
    rw [hok hd, List.length_append]
    omega
  · intro bs
    have hbs := h.bounded bs
    cases hd : d bs with
    | error e =>
      rw [herror hd]
      exact Nat.le_trans hbs (Nat.add_le_add_left (Nat.le_max_left _ _) _)
    | ok v =>
      have hmid := h.paid bs v.1 v.2 hd
      have hrest := (hf v.1).bounded v.2
      rw [hok hd, List.length_append]
      omega

theorem property (h : Consumes d 3) : Watches (round .properties (.plain d)) d 2 1 where
  result _ := rfl
  takes bs r hr := by
    obtain rfl := List.mem_singleton.mp hr
    intro rest hrest
    cases hd : d bs with
    | error e =>
      rw [Watched.plain, hd] at hrest
      cases hrest
    | ok v =>
      rw [Watched.plain, hd] at hrest
      cases hrest
      exact h bs v.1 v.2 hd
  paid := h
  bounded bs := Nat.le_add_left 1 bs.length

end Watches

namespace Properties

theorem addEntry_consumes (ps : Properties) : Consumes (addEntry ps) 3 := by
  have hentry : Consumes readEntry 3 :=
    Consumes.textField.bind fun _ => PropertyValue.decode_consumes.bind fun _ => Consumes.pure _
  refine (hentry.bind (k := 0) fun e => ?_).mono (Nat.le_refl _)
  split
  · exact Consumes.throw _ _
  · exact Consumes.pure _

theorem decodeEntries_eq_addEntry (n : Nat) (ps : Properties) :
    decodeEntries (n + 1) ps = addEntry ps >>= decodeEntries n := by
  rw [decodeEntries_succ, addEntry, bind_assoc]
  congr 1
  funext e
  cases ps.get? e.1 with
  | none => rfl
  | some v => rfl

theorem watchEntries_watches (n : Nat) (ps : Properties) :
    Watches (watchEntries n ps) (decodeEntries n ps) 0 1 := by
  induction n generalizing ps with
  | zero => exact (Watches.pure ps).mono (Nat.le_refl 0) (Nat.zero_le 1)
  | succ n ih =>
    rw [decodeEntries_eq_addEntry]
    exact ((Watches.property (addEntry_consumes ps)).bind ih).mono (Nat.zero_le 2) (Nat.le_refl 1)

theorem length_watchEntries {n : Nat} {ps qs : Properties} {bs rest : Bytes}
    (h : decodeEntries n ps bs = .ok (qs, rest)) : (watchEntries n ps bs).2.length = n := by
  induction n generalizing ps bs with
  | zero => rfl
  | succ n ih =>
    rw [decodeEntries_eq_addEntry] at h
    obtain ⟨ps', mid, hadd, hrest⟩ := bind_eq_ok.mp h
    have hround : (round .properties (plain (addEntry ps)) bs).1 = .ok (ps', mid) := hadd
    rw [watchEntries, Watched.bind_of_ok hround, List.length_append, ih hrest, Nat.add_comm]
    rfl

end Properties

theorem Identity.watch_watches : Watches Identity.watch Identity.decode 18 0 := by
  have hcount : Identity.decode = PeerId.decode >>= fun id => Field.decodeText >>= fun name =>
      Varint.decode >>= fun count => Properties.decodeEntries count .empty >>= fun ps =>
        Pure.pure { id, name, properties := ps } := by
    simp only [Identity.decode, Properties.decode, bind_assoc]
  rw [hcount]
  exact (Watches.plain PeerId.decode_consumes).bind fun _ =>
    (Watches.plain .textField).bind fun _ => (Watches.plain .varint).bind fun count =>
      (Properties.watchEntries_watches count .empty).bind fun _ => Watches.pure _

theorem Identity.length_watch {i : Identity} {bs rest : Bytes}
    (h : Identity.decode bs = .ok (i, rest)) :
    (Identity.watch bs).2.length = i.properties.entries.length := by
  obtain ⟨id, afterId, hid, h⟩ := bind_eq_ok.mp h
  obtain ⟨name, afterName, hname, h⟩ := bind_eq_ok.mp h
  obtain ⟨ps, rest', hps, h⟩ := bind_eq_ok.mp h
  cases h
  obtain ⟨count, afterCount, hcount, hps⟩ := bind_eq_ok.mp hps
  obtain ⟨es, hes, hperm⟩ := Properties.decodeEntries_eq_ok_iff.mp hps
  have hresult : (Properties.watchEntries count .empty afterCount).1 = .ok (ps, rest) :=
    ((Properties.watchEntries_watches count .empty).result afterCount).trans hps
  rw [Identity.watch, plain_bind_of_ok hid, plain_bind_of_ok hname, plain_bind_of_ok hcount,
    Watched.bind_of_ok hresult, List.length_append, Properties.length_watchEntries hps,
    ← hperm.length_eq, Properties.length_of_readEntries hes]
  rfl

namespace Payload

def decodeContent (kind : UInt8) : Decoder Payload :=
  if kind = 1 then packet <$> Packet.decode
  else if kind = 2 then acknowledgement <$> PacketId.decode
  else if kind = 3 then announcement <$> Identity.decode
  else if kind = 4 then handshake <$> Identity.decode
  else if kind = 5 then message <$> Envelope.decode
  else throw (.unknownPayloadKind kind)

theorem decode_eq : decode = byte >>= decodeContent :=
  rfl

def properties : Payload → List (String × PropertyValue)
  | announcement i => i.properties.entries
  | handshake i => i.properties.entries
  | _ => []

theorem content_cases (kind : UInt8) :
    (watchContent kind = plain (decodeContent kind) ∧ Consumes (decodeContent kind) 16 ∧
      ∀ bs p rest, decodeContent kind bs = .ok (p, rest) → p.properties = []) ∨
    ∃ f : Identity → Payload, (∀ i, (f i).properties = i.properties.entries) ∧
      (watchContent kind = do return f (← Identity.watch)) ∧
      decodeContent kind = f <$> Identity.decode := by
  have hplain {α : Type} {d : Decoder α} {f : α → Payload} (hf : ∀ a, (f a).properties = [])
      (bs : Bytes) (p : Payload) (rest : Bytes) (h : (f <$> d) bs = .ok (p, rest)) :
      p.properties = [] := by
    obtain ⟨a, -, rfl⟩ := map_eq_ok.mp h
    exact hf a
  rw [watchContent, decodeContent]
  split
  · exact .inl ⟨rfl, (Packet.decode_consumes.map _).mono (by decide), hplain fun _ => rfl⟩
  · split
    · exact .inl ⟨rfl, PacketId.decode_consumes.map _, hplain fun _ => rfl⟩
    · split
      · exact .inr ⟨announcement, fun _ => rfl, rfl, rfl⟩
      · split
        · exact .inr ⟨handshake, fun _ => rfl, rfl, rfl⟩
        · split
          · exact .inl ⟨rfl, (Envelope.decode_consumes.map _).mono (by decide),
              hplain fun _ => rfl⟩
          · exact .inl ⟨rfl, Consumes.throw _ 16, fun _ _ _ h => by cases h⟩

theorem watchContent_watches (kind : UInt8) :
    Watches (watchContent kind) (decodeContent kind) 16 0 := by
  obtain ⟨hwatch, hconsumes, -⟩ | ⟨f, -, hwatch, hdecode⟩ := content_cases kind
  · rw [hwatch]
    exact .plain hconsumes
  · rw [hwatch, hdecode, ← bind_pure_comp]
    exact (Identity.watch_watches.bind fun i => Watches.pure (f i)).mono (by decide) (by decide)

theorem watch_watches : Watches watch decode 17 0 := by
  rw [decode_eq]
  exact (Watches.plain .byte).bind watchContent_watches

theorem length_watch {p : Payload} {bs rest : Bytes} (h : decode bs = .ok (p, rest)) :
    (watch bs).2.length = p.properties.length := by
  rw [decode_eq] at h
  obtain ⟨kind, mid, hkind, h⟩ := bind_eq_ok.mp h
  rw [watch, plain_bind_of_ok hkind]
  obtain ⟨hwatch, -, hnone⟩ | ⟨f, hf, hwatch, hdecode⟩ := content_cases kind
  · rw [hwatch, hnone mid p rest h]
    rfl
  · rw [hdecode] at h
    obtain ⟨i, hi, rfl⟩ := map_eq_ok.mp h
    rw [hwatch, Watched.bind_of_ok ((Identity.watch_watches.result mid).trans hi),
      List.length_append, Identity.length_watch hi, hf]
    rfl

/-- A round of the loop over payloads pays for itself, also if it fails. -/
theorem round_watch {bs : Bytes} (hbs : bs ≠ []) :
    (∀ r ∈ (round .payloads watch bs).2, r.Takes) ∧
      (round .payloads watch bs).2.length ≤ bs.length ∧
      ∀ p rest, decode bs = .ok (p, rest) →
        rest.length + (round .payloads watch bs).2.length ≤ bs.length := by
  obtain ⟨kind, more, hkind, hmore⟩ :
      ∃ kind more, byte bs = .ok (kind, more) ∧ more.length + 1 = bs.length := by
    cases bs with
    | nil => exact (hbs rfl).elim
    | cons b bs => exact ⟨b, bs, Reads.byte b bs, rfl⟩
  have hwatch : watch bs = watchContent kind more := by
    show Watched.bind (plain byte) watchContent bs = _
    rw [Watched.bind, plain, hkind]
    rfl
  refine ⟨List.forall_mem_cons.mpr ⟨⟨⟨kind, more, hkind, Nat.le_of_eq hmore⟩, fun rest hrest => ?_⟩,
    watch_watches.takes bs⟩, ?_, fun p rest hp => ?_⟩
  · cases hd : decode bs with
    | error e =>
      rw [watch_watches.result, hd] at hrest
      cases hrest
    | ok v =>
      rw [watch_watches.result, hd] at hrest
      cases hrest
      exact decode_consumes bs v.1 v.2 hd
  · have hcontent := (watchContent_watches kind).bounded more
    show (watch bs).2.length + 1 ≤ bs.length
    rw [hwatch]
    omega
  · have hpaid := watch_watches.paid bs p rest hp
    show rest.length + ((watch bs).2.length + 1) ≤ bs.length
    omega

end Payload

namespace Datagram

def watch (bs : Bytes) : Except DecodeError (List Payload) × List Round :=
  if bs = [] then (.ok [], [])
  else
    match _h : round .payloads Payload.watch bs with
    | (.ok (p, rest), rounds) => ((p :: ·) <$> (watch rest).1, rounds ++ (watch rest).2)
    | (.error e, rounds) => (.error e, rounds)
termination_by bs.length
decreasing_by
  all_goals
    have hp : Payload.decode bs = .ok (p, rest) :=
      (Payload.watch_watches.result bs).symm.trans (congrArg Prod.fst _h)
    have hrest := Payload.decode_consumes bs p rest hp
    omega

variable {bs rest : Bytes}

theorem watch_of_head {p : Payload} (h : Payload.decode bs = .ok (p, rest)) :
    watch bs = ((p :: ·) <$> (watch rest).1,
      (round .payloads Payload.watch bs).2 ++ (watch rest).2) := by
  have hn : bs ≠ [] := by
    rintro rfl
    cases h
  have hw : round .payloads Payload.watch bs = (.ok (p, rest), _) :=
    Prod.ext ((Payload.watch_watches.result bs).trans h) rfl
  rw [watch, if_neg hn]
  split
  · rename_i q r rounds hd
    cases hw.symm.trans hd
    rfl
  · rename_i e rounds hd
    cases hw.symm.trans hd

theorem watch_of_error {e : DecodeError} (hn : bs ≠ []) (h : Payload.decode bs = .error e) :
    watch bs = (.error e, (round .payloads Payload.watch bs).2) := by
  have hw : round .payloads Payload.watch bs = (.error e, _) :=
    Prod.ext ((Payload.watch_watches.result bs).trans h) rfl
  rw [watch, if_neg hn]
  split
  · rename_i q r rounds hd
    cases hw.symm.trans hd
  · rename_i e' rounds hd
    cases hw.symm.trans hd
    rfl

/-- The watched decoder of datagrams does what the decoder does, in no more rounds than bytes. -/
theorem watch_spec (bs : Bytes) : (watch bs).1 = decode bs ∧ (∀ r ∈ (watch bs).2, r.Takes) ∧
    (watch bs).2.length ≤ bs.length := by
  induction bs using decode.induct with
  | case1 =>
    rw [watch, if_pos rfl, decode, if_pos rfl]
    exact ⟨rfl, fun r hr => (List.not_mem_nil hr).elim, Nat.le_refl 0⟩
  | case2 bs hn p rest head ih =>
    obtain ⟨hresult, htakes, hlength⟩ := ih
    obtain ⟨hround, -, hpaid⟩ := Payload.round_watch hn
    have hrest := hpaid p rest head
    rw [watch_of_head head, decode_of_head head, hresult, List.length_append]
    exact ⟨rfl, fun r hr => (List.mem_append.mp hr).elim (hround r) (htakes r), by omega⟩
  | case3 bs hn e head =>
    obtain ⟨hround, hlength, -⟩ := Payload.round_watch hn
    rw [watch_of_error hn head, decode_of_error hn head]
    exact ⟨rfl, hround, hlength⟩

theorem length_watch {ps : List Payload} (h : decode bs = .ok ps) :
    (watch bs).2.length = ps.length + (ps.flatMap Payload.properties).length := by
  induction bs using decode.induct generalizing ps with
  | case1 =>
    rw [decode, if_pos rfl] at h
    cases h
    rw [watch, if_pos rfl]
    rfl
  | case2 bs hn p rest head ih =>
    rw [decode_of_head head] at h
    cases hr : decode rest with
    | error e =>
      rw [hr] at h
      cases h
    | ok qs =>
      rw [hr] at h
      cases h
      have hround : (round .payloads Payload.watch bs).2.length = p.properties.length + 1 :=
        congrArg (· + 1) (Payload.length_watch head)
      rw [watch_of_head head, List.length_append, hround, ih hr, List.flatMap_cons,
        List.length_append, List.length_cons]
      omega
  | case3 bs hn e head =>
    rw [decode_of_error hn head] at h
    cases h

/-- Whatever lengths and counts a datagram announces, it is decoded in at most as many rounds as it
has bytes: a round of the loop over payloads takes at least the byte that tells their kind, and a
round of the loop over properties that completes takes at least three. If it is accepted, there was
a round for each payload and for each property, and what it is decoded to is written in no more
bytes and read back from these. -/
theorem effort_within_input (bs : Bytes) :
    (watch bs).1 = decode bs ∧
    (∀ r ∈ (watch bs).2, r.loop = .payloads →
      (∃ kind more, byte r.start = .ok (kind, more) ∧ more.length + 1 ≤ r.start.length) ∧
        ∀ rest, r.finish = some rest → rest.length + 1 ≤ r.start.length) ∧
    (∀ r ∈ (watch bs).2, r.loop = .properties →
      ∀ rest, r.finish = some rest → rest.length + 3 ≤ r.start.length) ∧
    (watch bs).2.length ≤ bs.length ∧
    ∀ ps, decode bs = .ok ps →
      (watch bs).2.length = ps.length + (ps.flatMap Payload.properties).length ∧
      (encode ps).length ≤ bs.length ∧ decode (encode ps) = .ok ps := by
  obtain ⟨hresult, htakes, hlength⟩ := watch_spec bs
  refine ⟨hresult, fun r hr hloop => ?_, fun r hr hloop => ?_, hlength,
    fun ps h => ⟨length_watch h, encode_of_decode h⟩⟩
  · have ht := htakes r hr
    rw [Round.Takes, hloop] at ht
    refine ⟨ht.1, fun rest hrest => ?_⟩
    have hrest := ht.2 rest hrest
    omega
  · have ht := htakes r hr
    rwa [Round.Takes, hloop] at ht

def hugeCount : Bytes :=
  3 :: (bigEndian 16 5 ++
    [0, 255, 255, 255, 255, 255, 255, 255, 255, 255, 1, 1, 97, 3, 0, 1, 98, 3, 5])

theorem effort_within_input_hugeCount :
    (watch hugeCount).1 = .error (.lengthBeyondEnd 5 0) ∧
    (watch hugeCount).2.map (fun r => (r.loop, r.finish)) =
      [(.payloads, none), (.properties, some [1, 98, 3, 5]), (.properties, none)] ∧
    (watch hugeCount).2.length ≤ hugeCount.length ∧
    decode overlong = .ok [.announcement overlongIdentity] ∧
    (watch overlong).2.length = 3 ∧
    (encode [.announcement overlongIdentity]).length ≤ overlong.length ∧
    decode (encode [.announcement overlongIdentity]) = .ok [.announcement overlongIdentity] := by
  have hhuge : Payload.decode hugeCount = .error (.lengthBeyondEnd 5 0) := by decide +kernel
  have hn : hugeCount ≠ [] := List.cons_ne_nil _ _
  have hwatch := watch_of_error hn hhuge
  have hoverlong : decode overlong = .ok [.announcement overlongIdentity] := by
    have hhead : Payload.decode overlong = .ok (.announcement overlongIdentity, []) := rfl
    rw [decode_of_head hhead, decode, if_pos rfl]
    rfl
  obtain ⟨-, -, -, hlength, -⟩ := effort_within_input hugeCount
  obtain ⟨-, -, -, -, hagain⟩ := effort_within_input overlong
  refine ⟨by rw [hwatch], ?_, hlength, hoverlong, hagain _ hoverlong⟩
  rw [hwatch]
  decide +kernel

end Datagram

end PeerMesh

import PeerMesh.Proofs.RoundTrip

namespace PeerMesh

namespace Decoder

variable {α β : Type}

/-- The bytes that the decoder reads as `a`, neither more nor less. -/
structure Spans (d : Decoder α) (bs : Bytes) (a : α) : Prop where
  reads : Reads d bs a
  fails : ∀ cut, cut <+: bs → cut.length < bs.length → ∃ e, d cut = .error e

/-- Whatever the decoder accepts, it accepts for the bytes that it consumes. -/
def SelfDelimiting (d : Decoder α) : Prop :=
  ∀ bs a rest, d bs = .ok (a, rest) → ∃ front, bs = front ++ rest ∧ Spans d front a

namespace Spans

theorem pure (a : α) : Spans (Pure.pure a : Decoder α) [] a :=
  ⟨Reads.pure a, fun _ _ hl => absurd hl (Nat.not_lt_zero _)⟩

theorem bind {d : Decoder α} {f : α → Decoder β} {bs cs : Bytes} {a : α} {b : β}
    (hd : Spans d bs a) (hf : Spans (f a) cs b) : Spans (d >>= f) (bs ++ cs) b := by
  refine ⟨hd.reads.bind hf.reads, fun cut hc hl => ?_⟩
  by_cases hb : bs.length ≤ cut.length
  · obtain ⟨more, rfl⟩ := List.prefix_of_prefix_length_le (List.prefix_append bs cs) hc hb
    have hm : more <+: cs := (List.prefix_append_right_inj bs).mp hc
    obtain ⟨e, he⟩ := hf.fails more hm (by simpa using hl)
    exact ⟨e, (bind_of_ok (hd.reads more) f).trans he⟩
  · have hb : cut.length < bs.length := Nat.lt_of_not_le hb
    have hp := List.prefix_of_prefix_length_le hc (List.prefix_append bs cs) (Nat.le_of_lt hb)
    obtain ⟨e, he⟩ := hd.fails cut hp hb
    exact ⟨e, bind_of_error he f⟩

end Spans

namespace SelfDelimiting

theorem pure (a : α) : SelfDelimiting (Pure.pure a : Decoder α) := by
  intro bs b rest h
  cases h
  exact ⟨[], rfl, Spans.pure _⟩

theorem throw (e : DecodeError) : SelfDelimiting (MonadExcept.throw e : Decoder α) := by
  intro bs a rest h
  cases h

theorem bind {d : Decoder α} {f : α → Decoder β} (hd : SelfDelimiting d)
    (hf : ∀ a, SelfDelimiting (f a)) : SelfDelimiting (d >>= f) := by
  intro bs b rest h
  obtain ⟨a, mid, ha, hb⟩ := bind_eq_ok.mp h
  obtain ⟨front, hbs, hs⟩ := hd bs a mid ha
  obtain ⟨more, hmid, ht⟩ := hf a mid b rest hb
  exact ⟨front ++ more, by rw [hbs, hmid, List.append_assoc], hs.bind ht⟩

theorem map {d : Decoder α} (f : α → β) (h : SelfDelimiting d) : SelfDelimiting (f <$> d) := by
  rw [← bind_pure_comp]
  exact h.bind fun a => pure (f a)

theorem take (n : Nat) : SelfDelimiting (Decoder.take n) := by
  intro bs front rest h
  simp only [Decoder.take, List.splitAt_eq] at h
  split at h
  · rename_i hn
    cases h
    refine ⟨bs.take n, (List.take_append_drop n bs).symm, take_append hn, fun cut _ hl => ?_⟩
    rw [hn] at hl
    refine ⟨.underflow n cut.length, ?_⟩
    simp only [Decoder.take, List.splitAt_eq, List.take_of_length_le (Nat.le_of_lt hl),
      if_neg (Nat.ne_of_lt hl)]
  · cases h

theorem number (n : Nat) : SelfDelimiting (Decoder.number n) :=
  (take n).map _

theorem byte : SelfDelimiting Decoder.byte :=
  (number 1).map _

theorem varintGroups (groups : Nat) : SelfDelimiting (Varint.decodeGroups groups) := by
  have hend (groups : Nat) {b : UInt8} {n : Nat}
      (h : ∀ rest, Varint.decodeGroups groups (b :: rest) = .ok (n, rest)) :
      Spans (Varint.decodeGroups groups) [b] n := by
    refine ⟨h, fun cut _ hl => ?_⟩
    obtain rfl : cut = [] := List.length_eq_zero_iff.mp (Nat.lt_one_iff.mp hl)
    cases groups <;> exact ⟨_, rfl⟩
  induction groups with
  | zero =>
    intro bs n rest h
    cases bs with
    | nil => cases h
    | cons b bs =>
      rw [Varint.decodeGroups] at h
      split at h
      · rename_i hb
        cases h
        exact ⟨[b], rfl, hend 0 fun rest => by rw [Varint.decodeGroups, if_pos hb]⟩
      · cases h
  | succ groups ih =>
    intro bs n rest h
    cases bs with
    | nil => cases h
    | cons b bs =>
      rw [Varint.decodeGroups] at h
      split at h
      · rename_i hb
        cases h
        exact ⟨[b], rfl, hend (groups + 1) fun rest => by rw [Varint.decodeGroups, if_pos hb]⟩
      · rename_i hb
        cases hr : Varint.decodeGroups groups bs with
        | error e => rw [hr] at h; cases h
        | ok v =>
          rw [hr] at h
          cases h
          obtain ⟨front, hbs, hs⟩ := ih bs v.1 v.2 hr
          refine ⟨b :: front, by rw [hbs]; rfl, fun rest => ?_, fun cut hc hl => ?_⟩
          · rw [List.cons_append, Varint.decodeGroups, if_neg hb, hs.reads rest]
            rfl
          · cases cut with
            | nil => exact ⟨_, rfl⟩
            | cons c cut =>
              obtain ⟨rfl, hcut⟩ := List.cons_prefix_cons.mp hc
              obtain ⟨e, he⟩ := hs.fails cut hcut (Nat.lt_of_succ_lt_succ hl)
              exact ⟨e, by rw [Varint.decodeGroups, if_neg hb, he]; rfl⟩

theorem varint : SelfDelimiting Varint.decode :=
  varintGroups 9

theorem bytesField : SelfDelimiting Field.decodeBytes := by
  intro bs front rest h
  obtain ⟨length, hbs, hs⟩ := varint bs _ _ (Field.decodeBytes_eq_ok_iff.mp h)
  refine ⟨length ++ front, by rw [hbs, List.append_assoc], fun more => ?_, fun cut hc hl => ?_⟩
  · rw [Field.decodeBytes_eq_ok_iff, List.append_assoc]
    exact hs.reads (front ++ more)
  · rw [List.length_append] at hl
    by_cases hle : length.length ≤ cut.length
    -- the length can be read, but less than it says is there
    · obtain ⟨part, rfl⟩ :=
        List.prefix_of_prefix_length_le (List.prefix_append length front) hc hle
      rw [List.length_append] at hl
      refine ⟨_, (Field.decodeBytes_of_length (hs.reads part)).trans (if_neg ?_)⟩
      omega
    · have hlt := Nat.lt_of_not_le hle
      have hp := List.prefix_of_prefix_length_le hc (List.prefix_append length front)
        (Nat.le_of_lt hlt)
      obtain ⟨e, he⟩ := hs.fails cut hp hlt
      exact ⟨e, bind_of_error he _⟩

theorem textField : SelfDelimiting Field.decodeText := by
  refine bytesField.bind fun bs => ?_
  split
  · exact pure _
  · exact throw _

end SelfDelimiting

end Decoder

open Decoder

theorem Uuid.decode_selfDelimiting : SelfDelimiting Uuid.decode :=
  (SelfDelimiting.number 16).map _

theorem PeerId.decode_selfDelimiting : SelfDelimiting PeerId.decode :=
  Uuid.decode_selfDelimiting.map _

theorem PacketId.decode_selfDelimiting : SelfDelimiting PacketId.decode :=
  Uuid.decode_selfDelimiting.map _

theorem PropertyValue.decode_selfDelimiting : SelfDelimiting PropertyValue.decode := by
  refine SelfDelimiting.byte.bind fun kind => ?_
  split
  · exact (SelfDelimiting.number 8).bind fun _ => SelfDelimiting.pure _
  · split
    · exact SelfDelimiting.textField.bind fun _ => SelfDelimiting.pure _
    · split
      · exact SelfDelimiting.bytesField.bind fun _ => SelfDelimiting.pure _
      · exact SelfDelimiting.throw _

theorem Properties.decodeEntries_selfDelimiting (n : Nat) (ps : Properties) :
    SelfDelimiting (Properties.decodeEntries n ps) := by
  induction n generalizing ps with
  | zero => exact SelfDelimiting.pure ps
  | succ n ih =>
    rw [Properties.decodeEntries]
    refine SelfDelimiting.textField.bind fun key =>
      PropertyValue.decode_selfDelimiting.bind fun value => ?_
    split
    · exact SelfDelimiting.throw _
    · exact ih _

theorem Identity.decode_selfDelimiting : SelfDelimiting Identity.decode :=
  PeerId.decode_selfDelimiting.bind fun _ => SelfDelimiting.textField.bind fun _ =>
    (SelfDelimiting.varint.bind fun n => Properties.decodeEntries_selfDelimiting n .empty).bind
      fun _ => SelfDelimiting.pure _

theorem Body.decode_selfDelimiting : SelfDelimiting Body.decode :=
  ((SelfDelimiting.number 8).map _).bind fun _ => SelfDelimiting.bytesField.bind fun _ =>
    SelfDelimiting.pure _

theorem Envelope.decode_selfDelimiting : SelfDelimiting Envelope.decode :=
  PeerId.decode_selfDelimiting.bind fun _ => PeerId.decode_selfDelimiting.bind fun _ =>
    Body.decode_selfDelimiting.bind fun _ => SelfDelimiting.pure _

theorem Packet.decode_selfDelimiting : SelfDelimiting Packet.decode := by
  refine PacketId.decode_selfDelimiting.bind fun _ => PeerId.decode_selfDelimiting.bind fun _ =>
    PeerId.decode_selfDelimiting.bind fun _ => SelfDelimiting.byte.bind fun flag => ?_
  split
  · exact SelfDelimiting.throw _
  · exact Envelope.decode_selfDelimiting.bind fun _ => SelfDelimiting.pure _

theorem Payload.decode_selfDelimiting : SelfDelimiting Payload.decode := by
  refine SelfDelimiting.byte.bind fun kind => ?_
  split
  · exact Packet.decode_selfDelimiting.map _
  · split
    · exact PacketId.decode_selfDelimiting.map _
    · split
      · exact Identity.decode_selfDelimiting.map _
      · split
        · exact Identity.decode_selfDelimiting.map _
        · split
          · exact Envelope.decode_selfDelimiting.map _
          · exact SelfDelimiting.throw _

namespace Datagram

/-- The payloads `ps` are read off the front of the datagram one after the other, which leaves
`rest`. -/
inductive Leaves : Bytes → List Payload → Bytes → Prop
  | start (bs : Bytes) : Leaves bs [] bs
  | next {bs mid rest : Bytes} {p : Payload} {ps : List Payload}
      (head : Payload.decode bs = .ok (p, mid)) (tail : Leaves mid ps rest) :
      Leaves bs (p :: ps) rest

theorem decode_of_head {bs rest : Bytes} {p : Payload} (h : Payload.decode bs = .ok (p, rest)) :
    decode bs = (p :: ·) <$> decode rest := by
  have hn : bs ≠ [] := by
    rintro rfl
    cases h
  rw [decode, if_neg hn]
  split
  · rename_i q r hd
    rw [h] at hd
    cases hd
    rfl
  · rename_i e hd
    rw [h] at hd
    cases hd

theorem decode_of_error {bs : Bytes} {e : DecodeError} (hn : bs ≠ [])
    (h : Payload.decode bs = .error e) : decode bs = .error e := by
  rw [decode, if_neg hn]
  split
  · rename_i q r hd
    rw [h] at hd
    cases hd
  · rename_i e' hd
    rw [h] at hd
    cases hd
    rfl

theorem Leaves.decode_eq {bs rest : Bytes} {ps : List Payload} (h : Leaves bs ps rest) :
    decode bs = (ps ++ ·) <$> decode rest := by
  induction h with
  | start bs =>
    cases decode bs <;> rfl
  | @next bs mid rest p ps head tail ih =>
    rw [decode_of_head head, ih]
    cases decode rest <;> rfl

theorem leaves_of_decode {bs : Bytes} {ps : List Payload} (h : decode bs = .ok ps) :
    Leaves bs ps [] := by
  induction bs using decode.induct generalizing ps with
  | case1 =>
    rw [decode, if_pos rfl] at h
    cases h
    exact .start []
  | case2 bs hn p rest head ih =>
    rw [decode_of_head head] at h
    cases hr : decode rest with
    | error e => rw [hr] at h; cases h
    | ok qs =>
      rw [hr] at h
      cases h
      exact .next head (ih hr)
  | case3 bs hn e head =>
    rw [decode_of_error hn head] at h
    cases h

theorem decode_eq_ok_iff (bs : Bytes) (ps : List Payload) :
    decode bs = .ok ps ↔ Leaves bs ps [] := by
  refine ⟨leaves_of_decode, fun h => ?_⟩
  have he : decode [] = .ok [] := by rw [decode, if_pos rfl]
  rw [h.decode_eq, he]
  simp [Functor.map, Except.map]

/-- What is read off the front of a datagram does not depend on what follows it. -/
theorem Leaves.exists_front {bs rest : Bytes} {ps : List Payload} (h : Leaves bs ps rest) :
    ∃ front, bs = front ++ rest ∧ ∀ more, Leaves (front ++ more) ps more := by
  induction h with
  | start bs => exact ⟨[], rfl, .start⟩
  | next head tail ih =>
    obtain ⟨front, rfl, hs⟩ := Payload.decode_selfDelimiting _ _ _ head
    obtain ⟨more, rfl, ht⟩ := ih
    refine ⟨front ++ more, (List.append_assoc ..).symm, fun rest => ?_⟩
    rw [List.append_assoc]
    exact .next (hs.reads _) (ht rest)

theorem leaves_append_iff (front back : Bytes) (qs : List Payload) :
    Leaves (front ++ back) qs back ↔ Leaves front qs [] := by
  constructor
  · intro h
    obtain ⟨front', he, hl⟩ := h.exists_front
    obtain rfl : front = front' := List.append_cancel_right he
    simpa using hl []
  · intro h
    obtain ⟨front', he, hl⟩ := h.exists_front
    obtain rfl : front = front' := by simpa using he
    exact hl back

/-- What decodes a payload is a front of the input, which decodes to it whatever follows and no
shorter part of which decodes to anything. Hence datagrams that are accepted or refused are so after
an accepted one, and a part of a datagram is accepted if and only if it is cut off between two
payloads, for the payloads in front of the cut. -/
theorem decode_self_delimiting :
    (∀ bs p rest, Payload.decode bs = .ok (p, rest) → ∃ front, bs = front ++ rest ∧
      (∀ more, Payload.decode (front ++ more) = .ok (p, more)) ∧
      ∀ cut, cut <+: front → cut.length < front.length → ∃ e, Payload.decode cut = .error e) ∧
    ∀ bs ps, decode bs = .ok ps →
      (∀ more qs, decode more = .ok qs → decode (bs ++ more) = .ok (ps ++ qs)) ∧
      (∀ more e, decode more = .error e → decode (bs ++ more) = .error e) ∧
      ∀ front back, bs = front ++ back →
        (∀ qs, decode front = .ok qs ↔ Leaves bs qs back) ∧
          ∀ qs, Leaves bs qs back → qs <+: ps := by
  refine ⟨fun bs p rest h => ?_, fun bs ps h => ⟨fun more qs hm => ?_, fun more e hm => ?_, ?_⟩⟩
  · obtain ⟨front, hbs, hs⟩ := Payload.decode_selfDelimiting bs p rest h
    exact ⟨front, hbs, hs.reads, hs.fails⟩
  · have hl : Leaves (bs ++ more) ps more :=
      (leaves_append_iff bs more ps).mpr (leaves_of_decode h)
    rw [hl.decode_eq, hm]
    rfl
  · have hl : Leaves (bs ++ more) ps more :=
      (leaves_append_iff bs more ps).mpr (leaves_of_decode h)
    rw [hl.decode_eq, hm]
    rfl
  · rintro front back rfl
    refine ⟨fun qs => ?_, fun qs hl => ?_⟩
    · rw [decode_eq_ok_iff, leaves_append_iff]
    · rw [hl.decode_eq] at h
      cases hb : decode back with
      | error e => rw [hb] at h; cases h
      | ok rs =>
        rw [hb] at h
        cases h
        exact List.prefix_append qs rs

def overlong : Bytes :=
  3 :: (bigEndian 16 5 ++ [129, 0, 97, 2, 1, 98, 1, 0, 0, 0, 0, 0, 0, 0, 9, 129, 0, 97, 3, 0])

def overlongIdentity : Identity :=
  ⟨⟨5⟩, "a", (Properties.empty.insert "b" (.int 9)).insert "a" (.bytes [])⟩

theorem decode_self_delimiting_overlong :
    Payload.decode overlong = .ok (.announcement overlongIdentity, []) ∧
      overlong ≠ (Payload.announcement overlongIdentity).encode ∧
      (∃ front, overlong = front ++ [] ∧
        (∀ more, Payload.decode (front ++ more) = .ok (.announcement overlongIdentity, more)) ∧
        ∀ cut, cut <+: front → cut.length < front.length → ∃ e, Payload.decode cut = .error e) ∧
      decode overlong = .ok [.announcement overlongIdentity] ∧
      decode (overlong ++ overlong) =
        .ok [.announcement overlongIdentity, .announcement overlongIdentity] ∧
      decode (overlong ++ [17]) = .error (.unknownPayloadKind 17) ∧
      (∀ qs, decode (overlong.take 30) = .ok qs ↔ Leaves overlong qs (overlong.drop 30)) ∧
      ∀ qs, Leaves overlong qs (overlong.drop 30) → qs <+: [.announcement overlongIdentity] := by
  have hp : Payload.decode overlong = .ok (.announcement overlongIdentity, []) := rfl
  have hd : decode overlong = .ok [.announcement overlongIdentity] := by
    rw [decode_of_head hp, decode, if_pos rfl]
    rfl
  have he : decode [17] = .error (.unknownPayloadKind 17) := decode_of_error (by simp) rfl
  obtain ⟨hfront, hjoin⟩ := decode_self_delimiting
  obtain ⟨hok, herror, hcut⟩ := hjoin overlong _ hd
  obtain ⟨hiff, hprefix⟩ := hcut (overlong.take 30) (overlong.drop 30) (by simp)
  exact ⟨hp, by decide +kernel, hfront overlong _ _ hp, hd, hok overlong _ hd, herror [17] _ he,
    hiff, hprefix⟩

end Datagram

end PeerMesh

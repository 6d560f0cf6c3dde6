import Mathlib.Data.List.Forall2
import PeerMesh.Proofs.RoundTrip
import PeerMesh.Proofs.Streams

namespace PeerMesh

theorem Field.length_le_encodeBytes (bs : Bytes) : bs.length ≤ (encodeBytes bs).length := by
  rw [encodeBytes, List.length_append]
  exact Nat.le_add_left _ _

theorem PropertyValue.length_encode_pos (v : PropertyValue) : 1 ≤ v.encode.length := by
  cases v <;> exact Nat.le_add_left _ _

theorem PropertyValue.sized_of_length {v : PropertyValue} (h : v.encode.length < UInt64.size) :
    v.Sized := by
  cases v with
  | int v => trivial
  | text s => exact Nat.lt_of_le_of_lt (Nat.le_succ_of_le (Field.length_le_encodeBytes (utf8 s))) h
  | bytes bs => exact Nat.lt_of_le_of_lt (Nat.le_succ_of_le (Field.length_le_encodeBytes bs)) h

theorem Properties.length_entries_le (es : List (String × PropertyValue)) :
    es.length ≤ (es.flatMap fun e => Field.encodeText e.1 ++ e.2.encode).length ∧
      ∀ e ∈ es, (utf8 e.1).length + e.2.encode.length ≤
        (es.flatMap fun e => Field.encodeText e.1 ++ e.2.encode).length := by
  induction es with
  | nil => exact ⟨Nat.le_refl 0, nofun⟩
  | cons e es ih =>
    have hk := Field.length_le_encodeBytes (utf8 e.1)
    have hv := e.2.length_encode_pos
    rw [List.flatMap_cons, List.length_append, List.length_append, Field.encodeText,
      List.length_cons]
    refine ⟨by omega, List.forall_mem_cons.mpr ⟨by omega, fun d hd => ?_⟩⟩
    have hd := ih.2 d hd
    omega

theorem Properties.sized_of_length {ps : Properties} (h : ps.encode.length < UInt64.size) :
    ps.Sized := by
  rw [encode, List.length_append] at h
  obtain ⟨hcount, hentry⟩ := Properties.length_entries_le ps.entries
  refine ⟨by omega, fun e he => ?_⟩
  have hl := hentry e he
  exact ⟨by omega, PropertyValue.sized_of_length (by omega)⟩

theorem Identity.sized_of_length {i : Identity} (h : i.encode.length < UInt64.size) : i.Sized := by
  rw [encode, List.length_append, List.length_append, Field.encodeText] at h
  have hn := Field.length_le_encodeBytes (utf8 i.name)
  exact ⟨by omega, Properties.sized_of_length (by omega)⟩

theorem Body.sized_of_length {b : Body} (h : b.encode.length < UInt64.size) : b.Sized := by
  rw [encode, List.length_append] at h
  have hp := Field.length_le_encodeBytes b.payload
  rw [Sized]
  omega

theorem Envelope.sized_of_length {e : Envelope} (h : e.encode.length < UInt64.size) :
    e.body.Sized := by
  rw [encode, List.length_append] at h
  exact Body.sized_of_length (by omega)

theorem Payload.sized_of_length {p : Payload} (h : p.encode.length < UInt64.size) : p.Sized := by
  cases p with
  | packet p =>
    rw [encode, List.length_cons, Packet.encode, List.length_append, List.length_cons] at h
    exact Envelope.sized_of_length (by omega)
  | acknowledgement id => trivial
  | announcement i => exact Identity.sized_of_length (Nat.lt_of_succ_lt h)
  | handshake i => exact Identity.sized_of_length (Nat.lt_of_succ_lt h)
  | message e => exact Envelope.sized_of_length (Nat.lt_of_succ_lt h)

namespace Frame

def stream (contents : List Bytes) : Bytes :=
  (contents.map encode).flatten

variable {max : Nat} {content : Bytes} {contents : List Bytes}

theorem stream_cons (content : Bytes) (contents : List Bytes) :
    stream (content :: contents) = encode content ++ stream contents :=
  rfl

theorem stream_append (contents contents' : List Bytes) :
    stream (contents ++ contents') = stream contents ++ stream contents' := by
  rw [stream, List.map_append, List.flatten_append]
  rfl

theorem length_encode (content : Bytes) :
    (encode content).length = lengthSize + content.length := by
  rw [encode, List.length_append, length_littleEndian]

theorem ofContent_eq_payload_iff {p : Payload} :
    ofContent content = .payload p ↔ Payload.decode content = .ok (p, []) := by
  unfold ofContent
  cases Payload.decode content with
  | error cause => exact iff_of_false nofun nofun
  | ok x =>
    obtain ⟨q, rest⟩ := x
    cases rest with
    | nil => simp
    | cons b rest => exact iff_of_false nofun nofun

theorem ofContent_encode {p : Payload} (h : p.Sized) : ofContent p.encode = .payload p := by
  have hd := Payload.decode_reads h []
  rw [List.append_nil] at hd
  exact ofContent_eq_payload_iff.mpr hd

/-- The frame at the front of a stream is read, whatever follows it. -/
theorem read_encode (h : Fits max content) (ended : Bool) (rest : Bytes) :
    read max ended (encode content ++ rest) = .frame (ofContent content) rest := by
  have hread := read_sound max ended (encode content ++ rest)
  have hno := not_of_encode h rest
  cases hr : read max ended (encode content ++ rest) with
  | frame f rest' =>
    rw [hr] at hread
    obtain ⟨content', hc', he, rfl⟩ := hread
    obtain ⟨rfl, rfl⟩ := encode_inj h.2 hc'.2 he
    rfl
  | incomplete =>
    rw [hr] at hread
    exact absurd (.inl hread.2) hno
  | finished =>
    rw [hr] at hread
    exact absurd (.inl hread.2) hno
  | failed e rest' =>
    rw [hr] at hread
    exact absurd (hread.imp_left And.right) hno

end Frame

open PeerMesh.Frame

variable {max : Nat} {contents : List Bytes}

theorem readFrames_of_finished {ended : Bool} {bs : Bytes}
    (h : Frame.read max ended bs = .finished) : readFrames max ended bs = ([], .finished) := by
  rw [readFrames]
  split
  all_goals
    rename_i hr
    cases h.symm.trans hr
  rfl

theorem readFrames_of_failed {ended : Bool} {bs rest : Bytes} {e : StreamError}
    (h : Frame.read max ended bs = .failed e rest) :
    readFrames max ended bs = ([], .failed e rest) := by
  rw [readFrames]
  split
  all_goals
    rename_i hr
    cases h.symm.trans hr
  rfl

theorem readFrames_append (h : ∀ content ∈ contents, Fits max content) (ended : Bool)
    (rest : Bytes) : readFrames max ended (stream contents ++ rest) =
      (contents.map ofContent ++ (readFrames max ended rest).1, (readFrames max ended rest).2) := by
  induction contents with
  | nil => rfl
  | cons content contents ih =>
    obtain ⟨hc, hcs⟩ := List.forall_mem_cons.mp h
    have hread := read_encode hc ended (stream contents ++ rest)
    rw [stream_cons, List.append_assoc, readFrames]
    split
    all_goals
      rename_i hr
      cases hread.symm.trans hr
    rw [ih hcs]
    rfl

/-- The end of a stream within a frame goes unnoticed within the length of the frame. -/
theorem readFrames_of_part {content part more : Bytes} (h : Fits max content)
    (he : encode content = part ++ more) (hm : more ≠ []) : readFrames max true part =
      ([], if part.length < lengthSize then .finished else .failed .truncated []) := by
  have hpos := List.length_pos_iff.mpr hm
  have hlength : part.length + more.length = lengthSize + content.length := by
    rw [← List.length_append, ← he, length_encode]
  have hread : Frame.read max true part =
      if part.length < lengthSize then .finished else .failed .truncated [] := by
    rw [Frame.read, if_pos rfl, if_pos rfl]
    by_cases hl : part.length < lengthSize
    · rw [if_pos hl, if_pos hl]
    · have htake : part.take lengthSize = littleEndian lengthSize content.length := by
        rw [← List.take_append_of_le_length (Nat.not_lt.mp hl), ← he]
        have ht := take_encode content []
        rwa [List.append_nil] at ht
      rw [if_neg hl, if_neg hl]
      dsimp only
      rw [htake, ofLittleEndian_littleEndian, Nat.mod_eq_of_lt h.2, if_neg (Nat.not_lt.mpr h.1),
        List.length_drop, if_pos (by omega)]
  by_cases hl : part.length < lengthSize
  · rw [if_pos hl] at hread ⊢
    exact readFrames_of_finished hread
  · rw [if_neg hl] at hread ⊢
    exact readFrames_of_failed hread

/-- Where a stream of frames is cut off: after all of its frames, or within one after the frames of
`whole`, of which `part` is left. -/
inductive Cut (contents whole : List Bytes) (part : Bytes) : Prop
  | between (hw : contents = whole) (hp : part = [])
  | within {content more : Bytes} {after : List Bytes} (hw : contents = whole ++ content :: after)
    (hp : encode content = part ++ more) (hm : more ≠ [])

theorem exists_cut (contents : List Bytes) (n : Nat) : ∃ whole part, Cut contents whole part ∧
    (stream contents).take n = stream whole ++ part := by
  induction contents generalizing n with
  | nil => exact ⟨[], [], .between rfl rfl, List.take_nil⟩
  | cons content contents ih =>
    rw [stream_cons]
    by_cases hn : n < (encode content).length
    · refine ⟨[], (encode content).take n,
        .within rfl (List.take_append_drop n _).symm fun hm => ?_,
        List.take_append_of_le_length (Nat.le_of_lt hn)⟩
      exact absurd (List.drop_eq_nil_iff.mp hm) (Nat.not_le.mpr hn)
    · obtain ⟨m, rfl⟩ := Nat.exists_eq_add_of_le (Nat.not_lt.mp hn)
      obtain ⟨whole, part, hcut, ht⟩ := ih m
      refine ⟨content :: whole, part, ?_, ?_⟩
      · cases hcut with
        | between hw hp => exact .between (congrArg _ hw) hp
        | within hw hp hm => exact .within (congrArg _ hw) hp hm
      · rw [List.take_length_add_append, ht, stream_cons, List.append_assoc]

namespace Cut

variable {whole : List Bytes} {part : Bytes}

theorem isPrefix (h : Cut contents whole part) : whole <+: contents := by
  cases h with
  | between hw hp => exact hw ▸ List.prefix_rfl
  | within hw hp hm => exact hw ▸ List.prefix_append _ _

theorem isPrefix_of_length_le (h : Cut contents whole part) {longer : List Bytes}
    (hl : longer <+: contents) (hlength : (stream longer).length ≤ (stream whole ++ part).length) :
    longer <+: whole := by
  cases h with
  | between hw hp => exact hw ▸ hl
  | @within content more after hw hp hm =>
    obtain hle | ⟨beyond, rfl⟩ := List.prefix_or_prefix_of_prefix hl (hw ▸ List.prefix_append _ _)
    · exact hle
    · cases beyond with
      | nil => exact (List.append_nil whole).symm ▸ List.prefix_rfl
      | cons content' beyond =>
        rw [hw, List.prefix_append_right_inj] at hl
        obtain ⟨rfl, -⟩ := List.cons_prefix_cons.mp hl
        have hpos := List.length_pos_iff.mpr hm
        rw [stream_append, stream_cons, hp] at hlength
        simp only [List.length_append] at hlength
        omega

theorem readFrames (hc : Cut contents whole part) (h : ∀ content ∈ contents, Fits max content) :
    readFrames max true (stream whole ++ part) = (whole.map ofContent,
      if part.length < lengthSize then .finished else .failed .truncated []) := by
  have hwhole : ∀ content ∈ whole, Fits max content :=
    fun content hm => h content (hc.isPrefix.subset hm)
  have hpart : PeerMesh.readFrames max true part =
      ([], if part.length < lengthSize then .finished else .failed .truncated []) := by
    cases hc with
    | between hw hp =>
      subst hp
      exact readFrames_of_finished rfl
    | @within content more after hw hp hm =>
      exact readFrames_of_part (h content (hw ▸ List.mem_append_right _ List.mem_cons_self)) hp hm
  rw [readFrames_append hwhole, hpart, List.append_nil]

end Cut

/-- A stream that is cut off after `n` bytes brings the frames before the cut. It counts as ended if
less than the length of the next frame is left of that, and as truncated otherwise. -/
theorem readFrames_take (h : ∀ content ∈ contents, Fits max content) {n : Nat}
    (hn : n ≤ (stream contents).length) :
    ∃ whole, whole <+: contents ∧ (stream whole).length ≤ n ∧
      (∀ longer, longer <+: contents → (stream longer).length ≤ n → longer <+: whole) ∧
      readFrames max true ((stream contents).take n) = (whole.map ofContent,
        if n < (stream whole).length + lengthSize then .finished else .failed .truncated []) := by
  obtain ⟨whole, part, hcut, ht⟩ := exists_cut contents n
  have hlength : n = (stream whole).length + part.length := by
    rw [← List.length_append, ← ht, List.length_take_of_le hn]
  refine ⟨whole, hcut.isPrefix, by omega, fun longer hl hle => ?_, ?_⟩
  · refine hcut.isPrefix_of_length_le hl ?_
    rwa [List.length_append, ← hlength]
  · rw [ht, hcut.readFrames h, hlength]
    simp only [Nat.add_lt_add_iff_left]

theorem readFrames_take_pair :
    (∀ content ∈ [[5], [6, 7, 8]], Fits 3 content) ∧ 10 ≤ (stream [[5], [6, 7, 8]]).length ∧
      ∃ whole, whole <+: [[5], [6, 7, 8]] ∧ (stream whole).length ≤ 10 ∧
        (∀ longer, longer <+: [[5], [6, 7, 8]] → (stream longer).length ≤ 10 → longer <+: whole) ∧
        readFrames 3 true ((stream [[5], [6, 7, 8]]).take 10) =
          (whole.map ofContent, if 10 < (stream whole).length + lengthSize then .finished
            else .failed .truncated []) := by
  have h : ∀ content ∈ [[5], [6, 7, 8]], Fits 3 content := by decide
  have hn : 10 ≤ (stream [[5], [6, 7, 8]]).length := by decide
  exact ⟨h, hn, readFrames_take h hn⟩

/-- A stream that ends within the length of its first frame counts as ended, not as truncated. -/
theorem readFrames_take_within_length :
    (∀ content ∈ [[5, 0, 0]], Fits 100 content) ∧
      (∀ whole, whole <+: [[5, 0, 0]] → (stream whole).length ≠ 2) ∧
      (stream [[5, 0, 0]]).take 2 = [3, 0] ∧ readFrames 100 true [3, 0] = ([], .finished) := by
  refine ⟨by decide, fun whole hw => ?_, by decide, readFrames_of_finished rfl⟩
  rw [List.prefix_iff_eq_take.mp hw]
  match whole.length with
  | 0 => decide
  | k + 1 => simp [stream, length_encode, lengthSize]

/-- Reads the frames of a stream that arrives in pieces and then ends. What is no whole frame yet
waits for the next piece. -/
def readPieces (max : Nat) (unread : Bytes) : List Bytes → List Frame × StreamTail
  | [] => readFrames max true unread
  | piece :: pieces =>
    match readFrames max false (unread ++ piece) with
    | (frames, .incomplete unread) =>
      let (later, tail) := readPieces max unread pieces
      (frames ++ later, tail)
    | stopped => stopped

theorem splits_stream (h : ∀ content ∈ contents, Fits max content) :
    Splits max (stream contents) contents [] :=
  ⟨(List.append_nil _).symm, h, .inl (isPartial_nil max)⟩

theorem readFrames_stream (h : ∀ content ∈ contents, Fits max content) :
    readFrames max true (stream contents) = (contents.map ofContent, .finished) := by
  have hr := readFrames_append h true []
  have hend : readFrames max true [] = ([], .finished) := readFrames_of_finished rfl
  rwa [hend, List.append_nil, List.append_nil] at hr

theorem Splits.of_stream (h : ∀ content ∈ contents, Fits max content) {bs rest more : Bytes}
    {contents' : List Bytes} (hs : Splits max bs contents' rest)
    (hb : bs ++ more = stream contents) :
    ∃ later, contents = contents' ++ later ∧ rest ++ more = stream later ∧
      ¬ IsOversized max rest := by
  obtain ⟨later, rest', hl, -⟩ := readFrames_splits max true (rest ++ more)
  have hboth := hs.append hl
  rw [hb] at hboth
  obtain ⟨rfl, rfl⟩ := (splits_stream h).unique hboth
  refine ⟨later, rfl, hl.bytes.trans (List.append_nil _), fun ho => ?_⟩
  -- a frame that is too long would be left over in the whole stream as well
  obtain ⟨-, hnil⟩ := hl.unique (.nil (.inr (ho.append more)))
  have hlong := (ho.append more).1
  rw [← hnil] at hlong
  exact absurd hlong (by decide)

theorem readPieces_eq {unread : Bytes} {pieces : List Bytes}
    (h : ∀ content ∈ contents, Fits max content) (hb : unread ++ pieces.flatten = stream contents) :
    readPieces max unread pieces = (contents.map ofContent, .finished) := by
  induction pieces generalizing unread contents with
  | nil =>
    rw [List.flatten_nil, List.append_nil] at hb
    rw [readPieces, hb, readFrames_stream h]
  | cons piece pieces ih =>
    rw [List.flatten_cons, ← List.append_assoc] at hb
    obtain ⟨contents', rest, hs, hframes, htail⟩ := readFrames_splits max false (unread ++ piece)
    obtain ⟨later, rfl, hrest, ho⟩ := hs.of_stream h hb
    have hlater := ih (List.forall_mem_append.mp h).2 hrest
    rw [if_neg (by simpa using ho)] at htail
    rw [readPieces]
    generalize readFrames max false (unread ++ piece) = read at hframes htail ⊢
    obtain ⟨frames, tail⟩ := read
    cases tail with
    | incomplete waiting =>
      cases htail
      cases hframes
      simp only [hlater, List.map_append]
    | finished => cases htail
    | failed e left => cases htail

/-- What is put on a stream as a frame: a payload by its writer, or any content behind its
length. -/
inductive Outgoing where
  | payload (p : Payload)
  | content (bs : Bytes)
deriving DecidableEq

namespace Outgoing

def bytes : Outgoing → Bytes
  | payload p => p.encode
  | content bs => bs

/-- What has to be read in place of it: the payload that was written, or the one that the content
decodes to as a whole. -/
def ReadAs : Outgoing → Frame → Prop
  | payload p, f => f = .payload p
  | content bs, f => ∀ p, f = .payload p ↔ Payload.decode bs = .ok (p, [])

theorem readAs_ofContent {o : Outgoing} (h : o.bytes.length < UInt64.size) :
    o.ReadAs (ofContent o.bytes) := by
  cases o with
  | payload p => exact ofContent_encode (Payload.sized_of_length h)
  | content bs => exact fun p => ofContent_eq_payload_iff

end Outgoing

namespace FrameWriter

variable {w : FrameWriter}

def put (w : FrameWriter) : Outgoing → FrameWriter
  | .payload p => (w.write p).1
  | .content bs => { w with frames := bs :: w.frames }

def putAll (w : FrameWriter) (os : List Outgoing) : FrameWriter :=
  os.foldl put w

theorem write_of_le {p : Payload} (h : p.encode.length ≤ w.maxFrame) (ho : w.isOpen) :
    w.write p = ({ w with frames := p.encode :: w.frames }, .ok ()) := by
  rw [write, if_neg (Nat.not_lt.mpr h), if_pos ho]

theorem write_of_lt {p : Payload} (h : w.maxFrame < p.encode.length) :
    w.write p = (w, .error (.frameTooLarge p.encode.length w.maxFrame)) := by
  rw [write, if_pos h]

theorem put_eq (ho : w.isOpen) {o : Outgoing}
    (h : ∀ bs, o = .content bs → bs.length ≤ w.maxFrame) :
    w.put o = if o.bytes.length ≤ w.maxFrame then { w with frames := o.bytes :: w.frames }
      else w := by
  cases o with
  | payload p =>
    rw [put, Outgoing.bytes]
    by_cases hp : p.encode.length ≤ w.maxFrame
    · rw [if_pos hp, write_of_le hp ho]
    · rw [if_neg hp, write_of_lt (Nat.not_le.mp hp)]
  | content bs => exact (if_pos (h bs rfl)).symm

theorem putAll_eq (ho : w.isOpen) {os : List Outgoing}
    (h : ∀ bs, .content bs ∈ os → bs.length ≤ w.maxFrame) :
    w.putAll os = { w with
      frames := ((os.filter (·.bytes.length ≤ w.maxFrame)).map Outgoing.bytes).reverse ++
        w.frames } := by
  induction os generalizing w with
  | nil => rfl
  | cons o os ih =>
    have hput := put_eq (o := o) ho fun bs hb => h bs (hb ▸ List.mem_cons_self)
    have hos : ∀ bs, .content bs ∈ os → bs.length ≤ w.maxFrame :=
      fun bs hb => h bs (List.mem_cons_of_mem o hb)
    rw [putAll, List.foldl_cons, hput, List.filter_cons]
    by_cases hl : o.bytes.length ≤ w.maxFrame
    · rw [if_pos hl, if_pos (decide_eq_true hl), List.map_cons, List.reverse_cons,
        List.append_assoc]
      exact ih (w := { w with frames := o.bytes :: w.frames }) ho hos
    · rw [if_neg hl, if_neg (by simpa using hl)]
      exact ih ho hos

/-- A writer puts payloads on its stream, among frames with any content that is not too long. What
it cannot write as a frame within the limit it refuses, and writes nothing of it. In whatever pieces
the stream arrives, every frame on it is read for itself, in order: a payload that was written as it
was, any other content as the payload that the whole of it decodes to, or as malformed. -/
theorem frames_round_trip {max : Nat} (hmax : max < UInt32.size) {os : List Outgoing}
    (h : ∀ bs, .content bs ∈ os → bs.length ≤ max) :
    let w := ({ maxFrame := max } : FrameWriter).putAll os
    (∀ pieces, pieces.flatten = w.written → ∃ frames,
      readPieces max [] pieces = (frames, .finished) ∧
        List.Forall₂ Outgoing.ReadAs (os.filter (·.bytes.length ≤ max)) frames) ∧
      (∀ p, p.encode.length ≤ max →
        (w.write p).2 = .ok () ∧ (w.write p).1.written = w.written ++ encode p.encode) ∧
      ∀ p, max < p.encode.length →
        (w.write p).2 = .error (.frameTooLarge p.encode.length max) ∧
          (w.write p).1.written = w.written := by
  intro w
  have hw : w = { maxFrame := max, frames :=
      ((os.filter (·.bytes.length ≤ max)).map Outgoing.bytes).reverse } := by
    have hputAll := putAll_eq (w := { maxFrame := max }) rfl h
    rwa [List.append_nil] at hputAll
  have hwritten : w.written = stream ((os.filter (·.bytes.length ≤ max)).map Outgoing.bytes) := by
    rw [hw, written, List.reverse_reverse]
    rfl
  have hlength : ∀ o ∈ os.filter (·.bytes.length ≤ max), o.bytes.length ≤ max :=
    fun o ho => of_decide_eq_true (List.mem_filter.mp ho).2
  have hlimit : w.maxFrame = max := by rw [hw]
  have hopen : w.isOpen := by rw [hw]
  refine ⟨fun pieces hp => ⟨_, readPieces_eq ?_ (hp.trans hwritten), ?_⟩, fun p hp => ?_,
    fun p hp => ?_⟩
  · intro content hc
    obtain ⟨o, ho, rfl⟩ := List.mem_map.mp hc
    have hl := hlength o ho
    exact ⟨hl, Nat.lt_of_le_of_lt hl hmax⟩
  · rw [List.map_map, List.forall₂_map_right_iff, List.forall₂_same]
    intro o ho
    have hl := hlength o ho
    have hsize : UInt32.size < UInt64.size := by decide
    exact Outgoing.readAs_ofContent (by omega)
  · rw [write_of_le (hlimit ▸ hp) hopen]
    exact ⟨rfl, by simp [written]⟩
  · rw [write_of_lt (hlimit ▸ hp), hlimit]
    exact ⟨rfl, rfl⟩

def withFaults (long : Payload) : List Outgoing :=
  [.content [99, 0, 0], .payload (.acknowledgement ⟨7⟩),
    .content ((Payload.acknowledgement ⟨7⟩).encode ++ [0]), .payload long,
    .payload (.acknowledgement ⟨8⟩)]

theorem frames_round_trip_withFaults :
    let long := Payload.handshake ⟨⟨1⟩, "a", .empty⟩
    let w := ({ maxFrame := 18 } : FrameWriter).putAll (withFaults long)
    18 < UInt32.size ∧ (∀ bs, .content bs ∈ withFaults long → bs.length ≤ 18) ∧
      (∃ a b, readPieces 18 [] (w.written.map ([·])) =
          ([a, .payload (.acknowledgement ⟨7⟩), b, .payload (.acknowledgement ⟨8⟩)], .finished) ∧
        ∀ p, a ≠ .payload p ∧ b ≠ .payload p) ∧
      (w.write long).2 = .error (.frameTooLarge 20 18) := by
  intro long w
  have hmax : 18 < UInt32.size := by decide
  have h : ∀ bs, .content bs ∈ withFaults long → bs.length ≤ 18 := by
    intro bs hb
    simp only [withFaults, List.mem_cons, Outgoing.content.injEq, reduceCtorEq, List.not_mem_nil,
      or_false, false_or] at hb
    obtain rfl | rfl := hb
    · decide
    · decide
  have hlong : long.encode.length = 20 := by decide +kernel
  have hfilter : (withFaults long).filter (·.bytes.length ≤ 18) =
      [.content [99, 0, 0], .payload (.acknowledgement ⟨7⟩),
        .content ((Payload.acknowledgement ⟨7⟩).encode ++ [0]),
        .payload (.acknowledgement ⟨8⟩)] := by decide +kernel
  obtain ⟨hread, -, hrefuse⟩ := frames_round_trip hmax h
  refine ⟨hmax, h, ?_, ?_⟩
  · obtain ⟨frames, hframes, hall⟩ := hread (w.written.map ([·]))
      (by rw [← List.flatMap_def, List.flatMap_singleton'])
    rw [hfilter] at hall
    rcases hall with - | ⟨ha, - | ⟨rfl, - | ⟨hb, - | ⟨rfl, - | -⟩⟩⟩⟩
    refine ⟨_, _, hframes, fun p => ⟨fun hp => ?_, fun hp => ?_⟩⟩
    · cases (ha p).mp hp
    · cases (hb p).mp hp
  · rw [← hlong]
    exact (hrefuse long (by rw [hlong]; decide)).1

end FrameWriter

end PeerMesh

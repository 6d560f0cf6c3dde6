import PeerMesh.Tcp.Frame

namespace PeerMesh

theorem littleEndian_ofLittleEndian (bs : Bytes) :
    littleEndian bs.length (ofLittleEndian bs) = bs := by
  rw [littleEndian, ofLittleEndian, ← List.length_reverse, bigEndian_ofBigEndian,
    List.reverse_reverse]

theorem ofLittleEndian_lt (bs : Bytes) : ofLittleEndian bs < byteRange bs.length := by
  rw [ofLittleEndian, ← List.length_reverse]
  exact ofBigEndian_lt bs.reverse

namespace Frame

/-- There are too few bytes for a frame, which they may begin. -/
def IsPartial (max : Nat) (bs : Bytes) : Prop :=
  bs.length < lengthSize ∨ ofLittleEndian (bs.take lengthSize) ≤ max ∧
    (bs.drop lengthSize).length < ofLittleEndian (bs.take lengthSize)

def IsOversized (max : Nat) (bs : Bytes) : Prop :=
  lengthSize ≤ bs.length ∧ max < ofLittleEndian (bs.take lengthSize)

/-- The content of a frame is within the limit, and its length can be told. -/
def Fits (max : Nat) (content : Bytes) : Prop :=
  content.length ≤ max ∧ content.length < byteRange lengthSize

instance (max : Nat) (bs : Bytes) : Decidable (IsPartial max bs) :=
  inferInstanceAs (Decidable (_ ∨ _ ∧ _))

instance (max : Nat) (bs : Bytes) : Decidable (IsOversized max bs) :=
  inferInstanceAs (Decidable (_ ∧ _))

instance (max : Nat) (content : Bytes) : Decidable (Fits max content) :=
  inferInstanceAs (Decidable (_ ∧ _))

variable {max : Nat} {content content' bs bs' rest rest' : Bytes}

theorem IsOversized.append (h : IsOversized max bs) (more : Bytes) :
    IsOversized max (bs ++ more) := by
  refine ⟨?_, ?_⟩
  · rw [List.length_append]
    exact Nat.le_add_right_of_le h.1
  · rw [List.take_append_of_le_length h.1]
    exact h.2

theorem IsOversized.not_isPartial (h : IsOversized max bs) : ¬ IsPartial max bs
  | .inl hl => Nat.not_lt.mpr h.1 hl
  | .inr hl => Nat.not_lt.mpr hl.1 h.2

theorem isPartial_nil (max : Nat) : IsPartial max [] :=
  .inl (Nat.zero_lt_succ 3)

theorem take_encode (content rest : Bytes) :
    (encode content ++ rest).take lengthSize = littleEndian lengthSize content.length := by
  rw [encode, List.append_assoc, List.take_left' (length_littleEndian _ _)]

theorem drop_encode (content rest : Bytes) :
    (encode content ++ rest).drop lengthSize = content ++ rest := by
  rw [encode, List.append_assoc, List.drop_left' (length_littleEndian _ _)]

theorem length_of_encode (h : content.length < byteRange lengthSize) (rest : Bytes) :
    ofLittleEndian ((encode content ++ rest).take lengthSize) = content.length := by
  rw [take_encode, ofLittleEndian_littleEndian, Nat.mod_eq_of_lt h]

theorem encode_inj (h : content.length < byteRange lengthSize)
    (h' : content'.length < byteRange lengthSize)
    (he : encode content ++ rest = encode content' ++ rest') :
    content = content' ∧ rest = rest' := by
  have hlength : content.length = content'.length := by
    rw [← length_of_encode h rest, he, length_of_encode h' rest']
  have hdrop : content ++ rest = content' ++ rest' := by
    rw [← drop_encode content rest, he, drop_encode]
  exact List.append_inj hdrop hlength

theorem not_of_encode (h : Fits max content) (rest : Bytes) :
    ¬ (IsPartial max (encode content ++ rest) ∨ IsOversized max (encode content ++ rest)) := by
  obtain ⟨hmax, hlt⟩ := h
  have hlength := length_of_encode hlt rest
  rintro ((hl | ⟨-, hl⟩) | ⟨-, hl⟩)
  · rw [List.length_append, encode, List.length_append, length_littleEndian] at hl
    omega
  · rw [hlength, drop_encode, List.length_append] at hl
    omega
  · rw [hlength] at hl
    omega

theorem read_sound (max : Nat) (ended : Bool) (bs : Bytes) :
    match read max ended bs with
    | .frame f rest =>
      ∃ content, Fits max content ∧ bs = encode content ++ rest ∧ f = ofContent content
    | .incomplete => ended = false ∧ IsPartial max bs
    | .finished => ended = true ∧ IsPartial max bs
    | .failed _ _ => ended = true ∧ IsPartial max bs ∨ IsOversized max bs := by
  unfold read
  by_cases hsize : bs.length < lengthSize
  · rw [if_pos hsize]
    cases ended with
    | false => exact ⟨rfl, .inl hsize⟩
    | true => exact ⟨rfl, .inl hsize⟩
  rw [if_neg hsize]
  dsimp only
  by_cases hmax : max < ofLittleEndian (bs.take lengthSize)
  · rw [if_pos hmax]
    exact .inr ⟨Nat.not_lt.mp hsize, hmax⟩
  rw [if_neg hmax]
  by_cases hrest : (bs.drop lengthSize).length < ofLittleEndian (bs.take lengthSize)
  · rw [if_pos hrest]
    cases ended with
    | false => exact ⟨rfl, .inr ⟨Nat.not_lt.mp hmax, hrest⟩⟩
    | true => exact .inl ⟨rfl, .inr ⟨Nat.not_lt.mp hmax, hrest⟩⟩
  · rw [if_neg hrest]
    have hcontent := List.length_take_of_le (Nat.not_lt.mp hrest)
    have hprefix := littleEndian_ofLittleEndian (bs.take lengthSize)
    have hlt := ofLittleEndian_lt (bs.take lengthSize)
    rw [List.length_take_of_le (Nat.not_lt.mp hsize)] at hprefix hlt
    rw [← hcontent] at hmax hlt
    refine ⟨_, ⟨Nat.not_lt.mp hmax, hlt⟩, ?_, rfl⟩
    rw [encode, hcontent, hprefix, List.append_assoc, List.take_append_drop,
      List.take_append_drop]

end Frame

/-- The stream `bs` is frames with the contents `contents`, and `rest`, which no frame is at the
front of. -/
structure Splits (max : Nat) (bs : Bytes) (contents : List Bytes) (rest : Bytes) : Prop where
  bytes : bs = (contents.map Frame.encode).flatten ++ rest
  fits : ∀ content ∈ contents, Frame.Fits max content
  rest : Frame.IsPartial max rest ∨ Frame.IsOversized max rest

namespace Splits

variable {max : Nat} {bs rest rest' : Bytes} {contents contents' : List Bytes}

theorem nil (h : Frame.IsPartial max rest ∨ Frame.IsOversized max rest) :
    Splits max rest [] rest :=
  ⟨rfl, nofun, h⟩

theorem cons {content : Bytes} (hc : Frame.Fits max content) (h : Splits max bs contents rest) :
    Splits max (Frame.encode content ++ bs) (content :: contents) rest := by
  refine ⟨?_, List.forall_mem_cons.mpr ⟨hc, h.fits⟩, h.rest⟩
  rw [h.bytes, List.map_cons, List.flatten_cons, List.append_assoc]

theorem append {more : Bytes} (h : Splits max bs contents rest)
    (h' : Splits max (rest ++ more) contents' rest') :
    Splits max (bs ++ more) (contents ++ contents') rest' := by
  refine ⟨?_, List.forall_mem_append.mpr ⟨h.fits, h'.fits⟩, h'.rest⟩
  rw [h.bytes, List.append_assoc, h'.bytes, List.map_append, List.flatten_append,
    List.append_assoc]

/-- There is one way only to split a stream. -/
theorem unique (h : Splits max bs contents rest) (h' : Splits max bs contents' rest') :
    contents = contents' ∧ rest = rest' := by
  obtain ⟨hb, hf, hr⟩ := h
  obtain ⟨hb', hf', hr'⟩ := h'
  replace hb' := hb.symm.trans hb'
  clear hb
  induction contents generalizing contents' with
  | nil =>
    cases contents' with
    | nil => exact ⟨rfl, hb'⟩
    | cons content' contents' =>
      rw [List.map_nil, List.flatten_nil, List.nil_append, List.map_cons, List.flatten_cons,
        List.append_assoc] at hb'
      rw [hb'] at hr
      exact absurd hr (Frame.not_of_encode (hf' _ List.mem_cons_self) _)
  | cons content contents ih =>
    obtain ⟨hc, hf⟩ := List.forall_mem_cons.mp hf
    rw [List.map_cons, List.flatten_cons, List.append_assoc] at hb'
    cases contents' with
    | nil =>
      rw [List.map_nil, List.flatten_nil, List.nil_append] at hb'
      rw [← hb'] at hr'
      exact absurd hr' (Frame.not_of_encode hc _)
    | cons content' contents' =>
      obtain ⟨hc', hfits⟩ := List.forall_mem_cons.mp hf'
      rw [List.map_cons, List.flatten_cons, List.append_assoc] at hb'
      obtain ⟨rfl, hbytes⟩ := Frame.encode_inj hc.2 hc'.2 hb'
      obtain ⟨rfl, rfl⟩ := ih hf hfits hbytes
      exact ⟨rfl, rfl⟩

end Splits

def StreamTail.unread? : StreamTail → Option Bytes
  | incomplete unread => some unread
  | finished => none
  | failed _ _ => none

/-- The reader splits the stream; it goes on unless the stream has ended or a frame is too long. -/
theorem readFrames_splits (max : Nat) (ended : Bool) (bs : Bytes) : ∃ contents rest,
    Splits max bs contents rest ∧ (readFrames max ended bs).1 = contents.map Frame.ofContent ∧
      (readFrames max ended bs).2.unread? =
        if ended ∨ Frame.IsOversized max rest then none else some rest := by
  fun_induction readFrames max ended bs with
  | case1 bs f rest h fs tail hrec ih =>
    obtain ⟨contents, unread, hs, hframes, htail⟩ := ih
    rw [hrec] at hframes htail
    have hread := Frame.read_sound max ended bs
    rw [h] at hread
    obtain ⟨content, hc, rfl, rfl⟩ := hread
    exact ⟨content :: contents, unread, hs.cons hc, congrArg _ hframes, htail⟩
  | case2 bs h =>
    have hread := Frame.read_sound max ended bs
    rw [h] at hread
    obtain ⟨rfl, hp⟩ := hread
    have ho : ¬ (false = true ∨ Frame.IsOversized max bs) := by
      rintro (hf | ho)
      · cases hf
      · exact ho.not_isPartial hp
    exact ⟨[], bs, .nil (.inl hp), rfl, (if_neg ho).symm⟩
  | case3 bs h =>
    have hread := Frame.read_sound max ended bs
    rw [h] at hread
    exact ⟨[], bs, .nil (.inl hread.2), rfl, (if_pos (.inl hread.1)).symm⟩
  | case4 bs e rest h =>
    have hread := Frame.read_sound max ended bs
    rw [h] at hread
    obtain ⟨he, hp⟩ | ho := hread
    · exact ⟨[], bs, .nil (.inl hp), rfl, (if_pos (.inl he)).symm⟩
    · exact ⟨[], bs, .nil (.inr ho), rfl, (if_pos (.inr ho)).symm⟩

end PeerMesh

import Mathlib.Data.List.Basic
import PeerMesh.Inbound.Handlers
import PeerMesh.Proofs.RoundTrip

namespace PeerMesh

open Decoder

theorem MessageKind.typeId_injective : Function.Injective MessageKind.typeId := by
  intro j k h
  cases j <;> cases k <;> first | rfl | exact absurd h (by decide)

namespace Content

def kind : Content → MessageKind
  | numberedText _ => .numberedText
  | blob _ => .blob
  | chunk _ => .chunk

theorem typeId_kind (m : Content) : m.kind.typeId = m.body.typeId := by
  cases m with
  | numberedText m => rfl
  | blob m => rfl
  | chunk m => rfl

end Content

theorem NumberedText.decode_reads {m : NumberedText} (h : (utf8 m.text).length < UInt64.size) :
    Reads (Message.decode (α := NumberedText)) (Message.encode m) m := by
  refine (Reads.number m.value.toNat_lt).bind ((Reads.textField h).bind_nil ?_)
  rw [UInt64.ofNat_toNat]
  exact Reads.pure _

theorem Blob.decode_reads {m : Blob} (h : m.data.length < UInt64.size) :
    Reads (Message.decode (α := Blob)) (Message.encode m) m :=
  (Reads.bytesField h).map Blob.mk

theorem Content.read_body {m : Content} (hs : m.body.Sized) (hc : m.kind ≠ .chunk) :
    m.kind.read m.body = .ok m := by
  cases m with
  | numberedText m =>
    have hl : (utf8 m.text).length < UInt64.size := by
      refine Nat.lt_of_le_of_lt ?_ hs
      simp [Content.body, Body.of, Message.encode, Field.encodeText, Field.encodeBytes]
      omega
    rw [kind, body, MessageKind.read, Body.read_of (NumberedText.decode_reads hl)]
    rfl
  | blob m =>
    have hl : m.data.length < UInt64.size := by
      refine Nat.lt_of_le_of_lt ?_ hs
      simp [Content.body, Body.of, Message.encode, Field.encodeBytes]
    rw [kind, body, MessageKind.read, Body.read_of (Blob.decode_reads hl)]
    rfl
  | chunk m => exact absurd rfl hc

namespace Handlers

theorem get?_register (hs : Handlers) (h : Handler) (id : MessageTypeId) :
    ((hs.register h).byType.get? id).getD [] =
      (hs.byType.get? id).getD [] ++ if h.kind.typeId = id then [h] else [] := by
  rw [register, KeyedList.get?_put]
  by_cases hid : id = h.kind.typeId
  · rw [if_pos hid, if_pos hid.symm, hid]
    rfl
  · rw [if_neg hid, if_neg (Ne.symm hid), List.append_nil]

theorem get?_registerAll (hs : Handlers) (handlers : List Handler) (id : MessageTypeId) :
    ((handlers.foldl register hs).byType.get? id).getD [] =
      (hs.byType.get? id).getD [] ++ handlers.filter fun h => h.kind.typeId = id := by
  induction handlers generalizing hs with
  | nil => exact (List.append_nil _).symm
  | cons h handlers ih =>
    rw [List.foldl_cons, ih, get?_register, List.append_assoc, List.filter_cons]
    by_cases hid : h.kind.typeId = id
    · simp [hid]
    · simp [hid]

/-- A message that can be read goes to all handlers for its kind. -/
theorem route_registerAll (handlers : List Handler) {e : Envelope} {m : Content}
    (hm : e.body = m.body) (hs : m.body.Sized) (hc : m.kind ≠ .chunk)
    (peer : Option SenderView) :
    ((handlers.foldl register .none).route e peer).getD [] =
      (handlers.filter fun h => h.kind = m.kind).map fun h =>
        ⟨h, m, e.sender, e.receiver, peer⟩ := by
  have hkind (h : Handler) : h.kind.typeId = e.body.typeId ↔ h.kind = m.kind := by
    rw [hm, ← m.typeId_kind]
    exact MessageKind.typeId_injective.eq_iff
  have hroute : ((handlers.foldl register .none).route e peer).getD [] =
      (((handlers.foldl register .none).byType.get? e.body.typeId).getD []).filterMap
        fun h => call h e peer := by
    rw [route]
    cases (handlers.foldl register .none).byType.get? e.body.typeId with
    | none => rfl
    | some hs => rfl
  rw [hroute, get?_registerAll, show (Handlers.none.byType.get? e.body.typeId) = .none from rfl,
    Option.getD_none, List.nil_append]
  simp only [hkind]
  refine List.filterMap_eq_map_iff_forall_eq_some.mpr fun h hh => ?_
  have hk : h.kind = m.kind := by simpa using (List.mem_filter.mp hh).2
  rw [call, hk, hm, Content.read_body hs hc]

end Handlers

end PeerMesh

import PeerMesh.Config
import PeerMesh.Message.Content
import PeerMesh.Message.Payload

namespace PeerMesh

/-- Cuts off `n` pieces of the given size, in front of which come the pieces `done`, the latest
first. -/
def piecesAfter (size : Nat) (done : List Bytes) : Nat → Bytes → List Bytes
  | 0, _ => done.reverse
  | n + 1, bs => piecesAfter size (bs.take size :: done) n (bs.drop size)

def pieceCount (size length : Nat) : Nat :=
  (length + size - 1) / size

def pieces (size : Nat) (bs : Bytes) : List Bytes :=
  piecesAfter size [] (pieceCount size bs.length) bs

theorem piecesAfter_eq (size : Nat) (done : List Bytes) (n : Nat) (bs : Bytes) :
    piecesAfter size done n bs = done.reverse ++ piecesAfter size [] n bs := by
  induction n generalizing done bs with
  | zero => simp [piecesAfter]
  | succ n ih =>
    rw [piecesAfter, ih, piecesAfter, ih [bs.take size]]
    simp

theorem piecesAfter_succ (size n : Nat) (bs : Bytes) :
    piecesAfter size [] (n + 1) bs = bs.take size :: piecesAfter size [] n (bs.drop size) := by
  rw [piecesAfter, piecesAfter_eq]
  rfl

@[simp] theorem length_piecesAfter (size n : Nat) (bs : Bytes) :
    (piecesAfter size [] n bs).length = n := by
  induction n generalizing bs with
  | zero => rfl
  | succ n ih => rw [piecesAfter_succ, List.length_cons, ih]

theorem flatten_piecesAfter (size n : Nat) (bs : Bytes) :
    (piecesAfter size [] n bs).flatten = bs.take (n * size) := by
  induction n generalizing bs with
  | zero => simp [piecesAfter]
  | succ n ih =>
    rw [piecesAfter_succ, List.flatten_cons, ih, Nat.succ_mul, Nat.add_comm (n * size),
      List.take_add]

@[simp] theorem length_pieces (size : Nat) (bs : Bytes) :
    (pieces size bs).length = pieceCount size bs.length :=
  length_piecesAfter _ _ _

theorem le_pieceCount_mul {size : Nat} (h : 0 < size) (length : Nat) :
    length ≤ pieceCount size length * size := by
  have hd := Nat.div_add_mod (length + size - 1) size
  have hm := Nat.mod_lt (length + size - 1) h
  rw [pieceCount, Nat.mul_comm]
  omega

theorem flatten_pieces {size : Nat} (h : 0 < size) (bs : Bytes) :
    (pieces size bs).flatten = bs := by
  rw [pieces, flatten_piecesAfter]
  exact List.take_of_length_le (le_pieceCount_mul h _)

namespace Envelope

def Fits (e : Envelope) (max : Nat) : Prop :=
  e.body.encode.length + chunkOverhead ≤ max

instance (e : Envelope) (max : Nat) : Decidable (e.Fits max) :=
  inferInstanceAs (Decidable (_ ≤ _))

def chunk (e : Envelope) (id : MultiPartId) (count bodyLength : Nat) (piece : Bytes)
    (index : Nat) : Envelope :=
  { e with
    body := .of {
      id
      index := UInt32.ofNat index
      count := UInt32.ofNat count
      bodyLength := UInt32.ofNat bodyLength
      data := piece : Chunk } }

/-- The messages that a message is sent as in datagrams of at most `max` bytes: itself if it fits,
otherwise one for each chunk. -/
def split (e : Envelope) (max : Nat) (id : MultiPartId) : List Envelope :=
  if e.Fits max then [e]
  else
    let body := e.body.encode
    let length := body.length
    let size := max - chunkOverhead
    let count := pieceCount size length
    (pieces size body).mapIdx fun index piece => e.chunk id count length piece index

end Envelope

end PeerMesh

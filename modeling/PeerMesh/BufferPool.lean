import PeerMesh.Bytes

namespace PeerMesh

structure Buffer where
  data : Bytes := []
  capacity : Nat
deriving DecidableEq

namespace Buffer

def append (b : Buffer) (bs : Bytes) : Buffer :=
  let data := b.data ++ bs
  { data, capacity := max b.capacity data.length }

def clear (b : Buffer) : Buffer :=
  { b with data := [] }

end Buffer

/-- How new buffers are made: empty, and with at least the capacity that is asked for. -/
structure Allocation where
  create : Nat → Buffer
  data_create : ∀ n, (create n).data = []
  le_capacity_create : ∀ n, n ≤ (create n).capacity

def Allocation.exact : Allocation where
  create n := { capacity := n }
  data_create _ := rfl
  le_capacity_create n := Nat.le_refl n

structure BufferPool where
  bufferSize : Nat
  maxBuffers : Nat
  /-- The buffers in the pool, the one to be taken next first. -/
  buffers : List Buffer := []

namespace BufferPool

def take (p : BufferPool) (a : Allocation := .exact) : BufferPool × Buffer :=
  match p.buffers with
  | b :: bs => ({ p with buffers := bs }, b)
  | [] => (p, a.create p.bufferSize)

/-- Gives a buffer to the pool. It is discarded if it is too small or if the pool is full. -/
def give (p : BufferPool) (b : Buffer) : BufferPool :=
  if b.capacity < p.bufferSize then p
  else if p.buffers.length < p.maxBuffers then
    { p with buffers := b.clear :: p.buffers }
  else p

end BufferPool

end PeerMesh

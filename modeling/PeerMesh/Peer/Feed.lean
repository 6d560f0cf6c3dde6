namespace PeerMesh

structure Feed (α : Type) where
  lost : Nat := 0
  /-- The events that are left, the newest first. -/
  recent : List α := []

namespace Feed

variable {α : Type}

def capacity : Nat := 128

def push (f : Feed α) (a : α) : Feed α :=
  if f.recent.length < capacity then { f with recent := a :: f.recent }
  else { lost := f.lost + 1, recent := a :: f.recent.dropLast }

def take (f : Feed α) : Nat × List α :=
  (f.lost, f.recent.reverse)

end Feed

end PeerMesh

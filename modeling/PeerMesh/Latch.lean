import PeerMesh.Bytes

namespace PeerMesh

structure Waiter (τ : Type) where
  label : τ
  deadline : Option Nat
deriving DecidableEq

namespace Waiter

variable {τ : Type}

def isExpired (w : Waiter τ) (now : Nat) : Bool :=
  w.deadline.any (· ≤ now)

end Waiter

structure Latch (τ : Type) where
  isSet : Bool := false
  /-- Who waits, the longest wait first. -/
  waiting : List (Waiter τ) := []
  idle : isSet = true → waiting = [] := by simp

namespace Latch

variable {τ : Type}

def unset : Latch τ := {}

instance : Inhabited (Latch τ) := ⟨unset⟩

def set (l : Latch τ) : Latch τ × List τ :=
  ({ isSet := true }, l.waiting.map Waiter.label)

/-- Begins a wait. It is over at once if the latch is set (`some true`), or if the deadline has come
(`some false`). -/
def wait (l : Latch τ) (now : Nat) (w : Waiter τ) : Latch τ × Option Bool :=
  if l.isSet then (l, some true)
  else if w.isExpired now then (l, some false)
  else ({ isSet := false, waiting := l.waiting ++ [w] }, none)

def expire (l : Latch τ) (now : Nat) : Latch τ × List τ :=
  ({ isSet := l.isSet
     waiting := l.waiting.filter fun w => ¬ w.isExpired now
     idle := fun h => by simp [l.idle h] },
   (l.waiting.filter fun w => w.isExpired now).map Waiter.label)

def nextDeadline (l : Latch τ) : Option Nat :=
  (l.waiting.filterMap Waiter.deadline).min?

end Latch

end PeerMesh

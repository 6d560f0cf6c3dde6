import PeerMesh.Message.Datagram
import PeerMesh.SendError

namespace PeerMesh

def lengthSize : Nat := 4

inductive FrameFault where
  | undecodable (cause : DecodeError)
  | trailingBytes (count : Nat)
deriving DecidableEq, Repr

def FrameFault.message : FrameFault → String
  | undecodable cause => cause.message
  | trailingBytes count => s!"{count} trailing bytes in frame"

inductive Frame where
  | payload (p : Payload)
  | malformed (fault : FrameFault)
deriving DecidableEq

inductive StreamError where
  | frameTooLarge (length max : Nat)
  | truncated
deriving DecidableEq, Repr

inductive FrameRead where
  | frame (f : Frame) (rest : Bytes)
  | incomplete
  | finished
  | failed (e : StreamError) (rest : Bytes)
deriving DecidableEq

namespace Frame

def ofContent (content : Bytes) : Frame :=
  match Payload.decode content with
  | .ok (p, []) => .payload p
  | .ok (_, rest) => .malformed (.trailingBytes rest.length)
  | .error cause => .malformed (.undecodable cause)

def encode (content : Bytes) : Bytes :=
  littleEndian lengthSize content.length ++ content

/-- Reads a frame of at most `max` bytes off the front of a stream. The flag tells whether the
stream ends after these bytes. A stream that ends within the length of a frame counts as ended
before it. -/
def read (max : Nat) (ended : Bool) (bs : Bytes) : FrameRead :=
  if bs.length < lengthSize then if ended then .finished else .incomplete
  else
    let length := ofLittleEndian (bs.take lengthSize)
    let rest := bs.drop lengthSize
    if max < length then .failed (.frameTooLarge length max) rest
    else if rest.length < length then if ended then .failed .truncated [] else .incomplete
    else .frame (ofContent (rest.take length)) (rest.drop length)

theorem length_lt_of_read {max : Nat} {ended : Bool} {bs rest : Bytes} {f : Frame}
    (h : read max ended bs = .frame f rest) : rest.length < bs.length := by
  unfold read at h
  split at h
  · split at h <;> cases h
  · rename_i hl
    simp only at h
    split at h
    · cases h
    · split at h
      · split at h <;> cases h
      · cases h
        simp only [List.length_drop, lengthSize] at hl ⊢
        omega

end Frame

inductive StreamTail where
  | incomplete (unread : Bytes)
  | finished
  | failed (e : StreamError) (unread : Bytes)
deriving DecidableEq

def readFrames (max : Nat) (ended : Bool) (bs : Bytes) : List Frame × StreamTail :=
  match _h : Frame.read max ended bs with
  | .frame f rest =>
    let (fs, tail) := readFrames max ended rest
    (f :: fs, tail)
  | .incomplete => ([], .incomplete bs)
  | .finished => ([], .finished)
  | .failed e rest => ([], .failed e rest)
termination_by bs.length
decreasing_by exact Frame.length_lt_of_read _h

structure FrameWriter where
  maxFrame : Nat
  isOpen : Bool := true
  /-- The frames that were written, the latest first. -/
  frames : List Bytes := []

namespace FrameWriter

def written (w : FrameWriter) : Bytes :=
  (w.frames.reverse.map Frame.encode).flatten

/-- Writes a payload as one frame, or nothing at all. -/
def write (w : FrameWriter) (p : Payload) : FrameWriter × Except SendError Unit :=
  let content := p.encode
  if w.maxFrame < content.length then (w, .error (.frameTooLarge content.length w.maxFrame))
  else if w.isOpen then ({ w with frames := content :: w.frames }, .ok ())
  else (w, .error (.io .brokenPipe))

def close (w : FrameWriter) : FrameWriter :=
  { w with isOpen := false }

end FrameWriter

end PeerMesh

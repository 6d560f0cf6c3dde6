import PeerMesh.KeyedList
import PeerMesh.Message.Content
import PeerMesh.Message.Payload

namespace PeerMesh

structure Handler where
  name : String
  kind : MessageKind
deriving DecidableEq

structure SenderView where
  id : PeerId
  identity : Option Identity
deriving DecidableEq

structure HandlerCall where
  handler : Handler
  content : Content
  sender : PeerId
  receiver : PeerId
  /-- Not given for messages of no one in particular. -/
  peer : Option SenderView
deriving DecidableEq

structure Handlers where
  byType : KeyedList MessageTypeId (List Handler)

namespace Handlers

def none : Handlers :=
  ⟨.empty⟩

instance : Inhabited Handlers := ⟨none⟩

def register (hs : Handlers) (h : Handler) : Handlers :=
  ⟨hs.byType.put h.kind.typeId (((hs.byType.get? h.kind.typeId).getD []) ++ [h])⟩

def deregister (hs : Handlers) (kind : MessageKind) : Handlers × Nat :=
  (⟨hs.byType.erase kind.typeId⟩, ((hs.byType.get? kind.typeId).getD []).length)

def call (h : Handler) (e : Envelope) (peer : Option SenderView) : Option HandlerCall :=
  match h.kind.read e.body with
  | .ok content => some ⟨h, content, e.sender, e.receiver, peer⟩
  | .error _ => Option.none

/-- The calls that a message leads to, unless there is no handler for its type. -/
def route (hs : Handlers) (e : Envelope) (peer : Option SenderView) : Option (List HandlerCall) :=
  (hs.byType.get? e.body.typeId).map fun l => l.filterMap fun h => call h e peer

end Handlers

end PeerMesh

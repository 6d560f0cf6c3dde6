import PeerMesh.Inbound.Handlers
import PeerMesh.Text.Digest
import PeerMesh.Text.Utf8

namespace PeerMesh

namespace Content

def line : Content → String
  | numberedText m =>
    let text := if (utf8 m.text).length ≤ 64 then m.text else shortText (utf8 m.text)
    ":".intercalate ["test", toString m.value.toNat, text]
  | blob m => "blob:" ++ shortText m.data
  | chunk c =>
    ":".intercalate ["chunk", c.id.text, toString c.index.toNat, toString c.count.toNat,
      toString c.bodyLength.toNat, shortText c.data]

end Content

def SenderView.line (v : SenderView) : String :=
  v.id.text ++ "/" ++ (v.identity.map Identity.name).getD "?"

namespace HandlerCall

def arguments (c : HandlerCall) : String :=
  "|".intercalate
    [c.sender.text, c.receiver.text, (c.peer.map SenderView.line).getD "-", c.content.line]

/-- The lines of calls in the order of their arguments. Calls with equal arguments stay in their
order. -/
def transcript (cs : List HandlerCall) : List String :=
  let entries := cs.map fun c => (c.handler.name, c.arguments)
  (entries.mergeSort fun a b => a.2 ≤ b.2).map fun e => e.1 ++ "|" ++ e.2

end HandlerCall

end PeerMesh

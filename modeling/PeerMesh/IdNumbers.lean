import PeerMesh.FreshId
import PeerMesh.Udp.Link

namespace PeerMesh

inductive IdKind where
  | packet
  | multiPart
deriving DecidableEq

namespace IdKind

def shown (kind : IdKind) (k : Nat) : Bytes :=
  let letter : UInt8 :=
    match kind with
    | packet => 0xaa
    | multiPart => 0xbb
  List.replicate 4 letter ++ List.replicate 8 0 ++ bigEndian 4 k

end IdKind

abbrev IdMark := UInt64

namespace IdMark

def front (mark : IdMark) : IdKind → Bytes
  | .packet => bigEndian 8 mark.toNat
  | .multiPart => bigEndian 8 (~~~ mark).toNat

def kind? (mark : IdMark) (bs : Bytes) : Option IdKind :=
  let lead := (mark >>> 56).toUInt8
  match bs with
  | [] => none
  | b :: _ =>
    if b = lead then
      if bs.take 8 = mark.front .packet ∧ 16 ≤ bs.length then some .packet else none
    else if b = ~~~ lead then
      if bs.take 8 = mark.front .multiPart ∧ 16 ≤ bs.length then some .multiPart else none
    else none

def draw (mark : IdMark) (kind : IdKind) (source k : Nat) : Uuid :=
  BitVec.ofNat 128 (ofBigEndian (mark.front kind ++ bigEndian 4 source ++ bigEndian 4 k))

def source (mark : IdMark) (number : Nat) : IdSource where
  packets := { draw := fun k => ⟨mark.draw .packet number k⟩ }
  multiParts := { draw := fun k => ⟨mark.draw .multiPart number k⟩ }

end IdMark

structure IdNumbers where
  mark : IdMark
  packets : List Bytes := []
  multiParts : List Bytes := []

namespace IdNumbers

def known (ns : IdNumbers) : IdKind → List Bytes
  | .packet => ns.packets
  | .multiPart => ns.multiParts

def add (ns : IdNumbers) (kind : IdKind) (id : Bytes) : IdNumbers :=
  match kind with
  | .packet => { ns with packets := ns.packets ++ [id] }
  | .multiPart => { ns with multiParts := ns.multiParts ++ [id] }

def packet (ns : IdNumbers) (k : Nat) : PacketId :=
  ⟨BitVec.ofNat 128 (ofBigEndian (ns.packets.getD k (IdKind.packet.shown k)))⟩

/-- Replaces the generated ids in a byte string, after the reversed bytes `before`. New ids get
numbers. -/
def showAfter (ns : IdNumbers) (before bs : Bytes) : IdNumbers × Bytes :=
  match bs with
  | [] => (ns, before.reverse)
  | b :: rest =>
    match ns.mark.kind? (b :: rest) with
    | none => ns.showAfter (b :: before) rest
    | some kind =>
      let id := b :: rest.take 15
      match (ns.known kind).idxOf? id with
      | some k => ns.showAfter ((kind.shown k).reverse ++ before) (rest.drop 15)
      | none =>
        let k := (ns.known kind).length
        (ns.add kind id).showAfter ((kind.shown k).reverse ++ before) (rest.drop 15)
termination_by bs.length
decreasing_by all_goals simp only [List.length_cons, List.length_drop]; omega

def display (ns : IdNumbers) (bs : Bytes) : IdNumbers × Bytes :=
  ns.showAfter [] bs

/-- Replaces the generated ids that have numbers by these, and all others by zeros. -/
def maskAfter (ns : IdNumbers) (before bs : Bytes) : Bytes :=
  match bs with
  | [] => before.reverse
  | b :: rest =>
    match ns.mark.kind? (b :: rest) with
    | none => ns.maskAfter (b :: before) rest
    | some kind =>
      let shown :=
        match (ns.known kind).idxOf? (b :: rest.take 15) with
        | some k => kind.shown k
        | none => List.replicate 16 0
      ns.maskAfter (shown.reverse ++ before) (rest.drop 15)
termination_by bs.length
decreasing_by all_goals simp only [List.length_cons, List.length_drop]; omega

/-- Datagrams in the order of their addresses and their contents, as far as these can be shown
before new ids are numbered. -/
def sortUnicasts (ns : IdNumbers) (us : List (SocketAddress × Bytes)) :
    List (SocketAddress × Bytes) :=
  let keyed := us.map fun u => ((u.1.text, Hex.ofBytes (ns.maskAfter [] u.2)), u)
  (keyed.mergeSort fun a b => a.1.1 < b.1.1 ∨ a.1.1 = b.1.1 ∧ a.1.2 ≤ b.1.2).map Prod.snd

end IdNumbers

end PeerMesh

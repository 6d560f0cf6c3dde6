import PeerMesh.Address

namespace PeerMesh

abbrev EndpointId := Nat

structure AddressBook where
  addresses : List SocketAddress := []

namespace AddressBook

def empty : AddressBook := {}

instance : Inhabited AddressBook := ⟨empty⟩

def address (b : AddressBook) (e : EndpointId) : SocketAddress :=
  b.addresses.getD e ⟨.v4 0, 0, 0⟩

def add (b : AddressBook) (a : SocketAddress) : AddressBook × EndpointId :=
  (⟨b.addresses ++ [a]⟩, b.addresses.length)

/-- Moves an endpoint, and gives its previous address if that was another one. -/
def move (b : AddressBook) (e : EndpointId) (a : SocketAddress) :
    AddressBook × Option SocketAddress :=
  (⟨b.addresses.set e a⟩, if b.address e = a then none else some (b.address e))

end AddressBook

end PeerMesh

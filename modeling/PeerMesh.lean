import PeerMesh.BufferPool
import PeerMesh.IdNumbers
import PeerMesh.Inbound.Transcript
import PeerMesh.Proofs.Acceptance
import PeerMesh.Proofs.Accounts
import PeerMesh.Proofs.Acknowledgements
import PeerMesh.Proofs.Announcements
import PeerMesh.Proofs.Calls
import PeerMesh.Proofs.Canonical
import PeerMesh.Proofs.Choice
import PeerMesh.Proofs.Compaction
import PeerMesh.Proofs.Connections
import PeerMesh.Proofs.Consistency
import PeerMesh.Proofs.Conversations
import PeerMesh.Proofs.Delivery
import PeerMesh.Proofs.Diary
import PeerMesh.Proofs.Discoveries
import PeerMesh.Proofs.Duplicates
import PeerMesh.Proofs.Effort
import PeerMesh.Proofs.Families
import PeerMesh.Proofs.FanOut
import PeerMesh.Proofs.Fates
import PeerMesh.Proofs.Framing
import PeerMesh.Proofs.FullMesh
import PeerMesh.Proofs.Gate
import PeerMesh.Proofs.Gathering
import PeerMesh.Proofs.Handovers
import PeerMesh.Proofs.Hub
import PeerMesh.Proofs.Introductions
import PeerMesh.Proofs.Isolation
import PeerMesh.Proofs.KeyedList
import PeerMesh.Proofs.Launch
import PeerMesh.Proofs.Ledger
import PeerMesh.Proofs.Lending
import PeerMesh.Proofs.Life
import PeerMesh.Proofs.Lifetimes
import PeerMesh.Proofs.Limits
import PeerMesh.Proofs.Listings
import PeerMesh.Proofs.Mail
import PeerMesh.Proofs.Mesh
import PeerMesh.Proofs.Moves
import PeerMesh.Proofs.OwnIdentity
import PeerMesh.Proofs.Packing
import PeerMesh.Proofs.Peers
import PeerMesh.Proofs.Progress
import PeerMesh.Proofs.Properties
import PeerMesh.Proofs.Receipts
import PeerMesh.Proofs.Reception
import PeerMesh.Proofs.Registrations
import PeerMesh.Proofs.Resends
import PeerMesh.Proofs.Results
import PeerMesh.Proofs.Roster
import PeerMesh.Proofs.RoundTrip
import PeerMesh.Proofs.Routes
import PeerMesh.Proofs.SelfDelimiting
import PeerMesh.Proofs.Sending
import PeerMesh.Proofs.Sends
import PeerMesh.Proofs.Shutdown
import PeerMesh.Proofs.Sorting
import PeerMesh.Proofs.Speaking
import PeerMesh.Proofs.Station
import PeerMesh.Proofs.Statistics
import PeerMesh.Proofs.Steps
import PeerMesh.Proofs.Streams
import PeerMesh.Proofs.Tally
import PeerMesh.Proofs.Telling
import PeerMesh.Proofs.Traffic
import PeerMesh.Proofs.Transfer
import PeerMesh.Proofs.Turns
import PeerMesh.Proofs.Vigils
import PeerMesh.Proofs.Whereabouts
import PeerMesh.Proofs.Wiring
import PeerMesh.Rehearsal
import PeerMesh.World.Step

import PeerMesh.Proofs.Peers
import PeerMesh.Proofs.Routes
import PeerMesh.Tcp.Transport

namespace PeerMesh

/-- Routes by connections have come and gone, and the identities `is` have arrived, which has
released `hs`. -/
structure Directory.Connects (d : Directory) (is : List Identity) (d' : Directory)
    (hs : List Held) : Prop where
  identity : d'.identity = d.identity
  peers : d.peers.updateAll is = (d'.peers, hs)
  lists : ∀ contexts, d.Lists contexts → d'.Lists contexts

namespace Directory.Connects

variable {d d' d'' : Directory} {is js : List Identity} {hs hs' : List Held}

theorem refl (d : Directory) : d.Connects [] d [] :=
  ⟨rfl, rfl, fun _ h => h⟩

theorem trans (h : d.Connects is d' hs) (h' : d'.Connects js d'' hs') :
    d.Connects (is ++ js) d'' (hs ++ hs') := by
  refine ⟨h'.identity.trans h.identity, ?_, fun contexts hl => h'.lists contexts (h.lists _ hl)⟩
  rw [PeerTable.updateAll_append, h.peers, h'.peers]

theorem addRoute (d : Directory) (peer : PeerId) (c : ConnectionId) :
    d.Connects [] (d.addRoute (.tcp peer c)) [] := by
  refine ⟨d.identity_addRoute _, ?_, fun _ h => h.addTcp peer c⟩
  rw [d.peers_addRoute]
  rfl

theorem removeRoute (d : Directory) (peer : PeerId) (c : ConnectionId) :
    d.Connects [] (d.removeRoute (.tcp peer c)) [] :=
  ⟨rfl, rfl, fun _ h => h.removeTcp peer c⟩

theorem learn (d : Directory) (i : Identity) : d.Connects [i] (d.learn i).1 (d.learn i).2 :=
  ⟨rfl, congrArg (Prod.mk _) (List.append_nil _), fun _ h => h.learn i⟩

theorem foldl {σ α : Type} {f : σ × Directory → α → σ × Directory}
    (hf : ∀ (s : σ × Directory) a, s.2.Connects [] (f s a).2 []) (as : List α) (s : σ × Directory) :
    s.2.Connects [] (as.foldl f s).2 [] := by
  induction as generalizing s with
  | nil => exact refl s.2
  | cons a as ih => exact (hf s a).trans (ih (f s a))

end Directory.Connects

def ConnectionStage.told (self : PeerId) : ConnectionStage → List Frame → List Identity
  | _, [] => []
  | .opened _, .payload (.handshake i) :: fs =>
    if i.id = self ∨ i.id.isNil then [] else i :: told self (.established i.id) fs
  | .opened _, _ :: _ => []
  | .established peer, .payload (.handshake i) :: fs =>
    if i.id = peer then i :: told self (.established peer) fs else []
  | .established peer, _ :: fs => told self (.established peer) fs

namespace TcpTransport

theorem connections_pause (t : TcpTransport) (now : Nat) :
    (t.pause now).connections = t.connections := by
  unfold pause
  split
  · rfl
  · rfl

theorem close_connects (t : TcpTransport) (d : Directory) (number now : Nat) :
    d.Connects [] (t.close d number now).2 [] := by
  unfold close
  cases t.connections.get? number with
  | none => exact .refl d
  | some c =>
    dsimp only
    cases c.stage with
    | opened deadline => exact .refl d
    | established peer => exact .removeRoute d peer _

theorem get?_close (t : TcpTransport) (d : Directory) (number now : Nat) :
    (t.close d number now).1.connections.get? number = none := by
  unfold close
  cases h : t.connections.get? number with
  | none => exact h
  | some c =>
    have he : (t.connections.erase number).get? number = none := by
      rw [KeyedList.get?_erase, if_pos rfl]
    dsimp only
    split
    · rw [connections_pause]
      exact he
    · exact he

theorem handshakesDue_connects (t : TcpTransport) (d : Directory) (now : Nat) :
    d.Connects [] (t.handshakesDue d now).2 [] := by
  refine Directory.Connects.foldl (fun s e => ?_) t.connections.entries (t, d)
  dsimp only
  split
  · split
    · exact s.1.close_connects s.2 e.1 now
    · exact .refl s.2
  · exact .refl s.2

theorem shutDown_connects (t : TcpTransport) (d : Directory) (now : Nat) :
    d.Connects [] (t.shutDown d now).2 [] :=
  Directory.Connects.foldl (fun s number => s.1.close_connects s.2 number now) _ (t, d)

end TcpTransport

namespace TcpReception

theorem close_connects (r : TcpReception) (number now : Nat) :
    r.directory.Connects [] (r.close number now).directory [] :=
  r.transport.close_connects r.directory number now

theorem foldl_frame_of_closed {number : Nat} {r : TcpReception}
    (h : r.transport.connections.get? number = none) (now : Nat) (fs : List Frame) :
    fs.foldl (frame number now) r = r := by
  induction fs with
  | nil => rfl
  | cons f fs ih =>
    have hf : frame number now r f = r := by
      unfold frame
      rw [h]
    rw [List.foldl_cons, hf, ih]

/-- The frame `f` of a connection in some stage has led from `r` to `r'`: the connection is closed,
or goes on in a stage in which the later frames are taken. -/
def Takes (number : Nat) (stage : ConnectionStage) (f : Frame) (r r' : TcpReception) : Prop :=
  let self := r.directory.identity.id
  ∃ is hs, r'.released = r.released ++ hs ∧ r.directory.Connects is r'.directory hs ∧
    (r'.transport.connections.get? number = none ∧ (∀ fs, stage.told self (f :: fs) = is) ∨
      ∃ c, r'.transport.connections.get? number = some c ∧
        ∀ fs, stage.told self (f :: fs) = is ++ c.stage.told self fs)

theorem Takes.close {number : Nat} {stage : ConnectionStage} {f : Frame} {r : TcpReception}
    (ht : ∀ fs, stage.told r.directory.identity.id (f :: fs) = []) (now : Nat) :
    Takes number stage f r (r.close number now) :=
  ⟨[], [], (List.append_nil _).symm, r.close_connects number now,
    .inl ⟨r.transport.get?_close r.directory number now, ht⟩⟩

theorem Takes.stay {number : Nat} {stage : ConnectionStage} {f : Frame} {r : TcpReception}
    {c : Connection} (h : r.transport.connections.get? number = some c) (hs : c.stage = stage)
    (ht : ∀ fs, stage.told r.directory.identity.id (f :: fs) =
      stage.told r.directory.identity.id fs) (arrivals : List Envelope) :
    Takes number stage f r { r with arrivals } :=
  ⟨[], [], (List.append_nil _).symm, .refl _, .inr ⟨c, h, fun fs => hs ▸ ht fs⟩⟩

theorem frame_takes {number : Nat} {r : TcpReception} {c : Connection}
    (h : r.transport.connections.get? number = some c) (now : Nat) (f : Frame) :
    Takes number c.stage f r (frame number now r f) := by
  unfold frame
  rw [h]
  dsimp only
  cases hs : c.stage with
  | opened deadline =>
    cases f with
    | malformed fault => exact .close (fun _ => rfl) now
    | payload p =>
      cases p with
      | handshake i =>
        dsimp only
        split
        · refine .close (fun fs => ?_) now
          exact if_pos ‹_›
        · refine ⟨[i], _, rfl, (Directory.Connects.addRoute _ _ _).trans (.learn _ i), .inr ?_⟩
          refine ⟨_, (KeyedList.get?_put _ _ _ _).trans (if_pos rfl), fun fs => ?_⟩
          exact if_neg ‹_›
      | _ => exact .close (fun _ => rfl) now
  | established peer =>
    cases f with
    | malformed fault =>
      refine .stay h hs (fun fs => ?_) r.arrivals
      rfl
    | payload p =>
      cases p with
      | message e =>
        dsimp only
        split
        · refine .stay h hs (fun fs => ?_) _
          rfl
        · refine .stay h hs (fun fs => ?_) r.arrivals
          rfl
      | handshake i =>
        dsimp only
        split
        · refine ⟨[i], _, rfl, .learn _ i, .inr ⟨c, h, fun fs => ?_⟩⟩
          rw [hs]
          exact if_pos ‹_›
        · refine .close (fun fs => ?_) now
          exact if_neg ‹_›
      | _ =>
        refine .stay h hs (fun fs => ?_) r.arrivals
        rfl

/-- Frames tell their identities, and release those who waited for them. -/
theorem foldl_frame_connects {number : Nat} {r : TcpReception} {c : Connection}
    (h : r.transport.connections.get? number = some c) (now : Nat) (fs : List Frame) :
    ∃ hs, (fs.foldl (frame number now) r).released = r.released ++ hs ∧
      r.directory.Connects (c.stage.told r.directory.identity.id fs)
        (fs.foldl (frame number now) r).directory hs := by
  induction fs generalizing r c with
  | nil =>
    have ht : c.stage.told r.directory.identity.id [] = [] := by
      cases c.stage with
      | opened deadline => rfl
      | established peer => rfl
    rw [ht]
    exact ⟨[], (List.append_nil _).symm, .refl _⟩
  | cons f fs ih =>
    obtain ⟨is, hs, hr, hd, ⟨hn, ht⟩ | ⟨c', hc, ht⟩⟩ := frame_takes h now f
    · rw [List.foldl_cons, foldl_frame_of_closed hn, ht]
      exact ⟨hs, hr, hd⟩
    · obtain ⟨hs', hr', hd'⟩ := ih hc
      rw [hd.identity] at hd'
      rw [List.foldl_cons, ht]
      exact ⟨hs ++ hs', by rw [hr', hr, List.append_assoc], hd.trans hd'⟩

end TcpReception

namespace TcpTransport

def told (t : TcpTransport) (self : PeerId) (number : Nat) (bs : Bytes) (ended : Bool) :
    List Identity :=
  match t.connections.get? number with
  | none => []
  | some c => c.stage.told self (readFrames t.config.maxFrame ended (c.unread ++ bs)).1

theorem receive_connects (t : TcpTransport) (d : Directory) (number now : Nat) (bs : Bytes)
    (ended : Bool) : d.Connects (t.told d.identity.id number bs ended)
      (t.receive d number now bs ended).directory (t.receive d number now bs ended).released := by
  unfold receive told
  cases h : t.connections.get? number with
  | none => exact .refl d
  | some c =>
    dsimp only
    obtain ⟨hs, hr, hd⟩ := TcpReception.foldl_frame_connects
      (r := { transport := t, directory := d }) h now
      (readFrames t.config.maxFrame ended (c.unread ++ bs)).1
    rw [List.nil_append] at hr
    rw [← hr] at hd
    have hclose := hd.trans (TcpReception.close_connects _ number now)
    rw [List.append_nil, List.append_nil] at hclose
    split
    · exact hd
    · exact hclose
    · exact hclose

end TcpTransport

end PeerMesh

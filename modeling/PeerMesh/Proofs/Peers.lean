import PeerMesh.Peer.Table
import PeerMesh.Proofs.KeyedList

namespace PeerMesh

namespace PeerTable

variable {τ : Type}

def waiting (t : PeerTable τ) (p : PeerId) : List (Waiter τ) :=
  (t.getOrNew p).discovery.waiting

theorem get?_putPeer (t : PeerTable τ) (p q : PeerId) (a : Peer τ) :
    (t.putPeer p a).get? q = if q = p then some a else t.get? q :=
  t.peers.get?_put p q a

theorem identity?_eq (t : PeerTable τ) (p : PeerId) : t.identity? p = (t.getOrNew p).identity := by
  rw [identity?, getOrNew]
  cases t.get? p with
  | none => rfl
  | some a => rfl

theorem getOrNew_putPeer (t : PeerTable τ) (p q : PeerId) (a : Peer τ) :
    (t.putPeer p a).getOrNew q = if q = p then a else t.getOrNew q := by
  rw [getOrNew, get?_putPeer]
  split
  · rfl
  · rfl

theorem getOrNew_add (t : PeerTable τ) (p q : PeerId) : (t.add p).getOrNew q = t.getOrNew q := by
  rw [add, getOrNew_putPeer]
  split
  · rename_i hq
    rw [hq]
  · rfl

theorem identity?_add (t : PeerTable τ) (p q : PeerId) :
    (t.add p).identity? q = t.identity? q := by
  rw [identity?_eq, getOrNew_add, identity?_eq]

theorem waiting_add (t : PeerTable τ) (p q : PeerId) : (t.add p).waiting q = t.waiting q := by
  rw [waiting, getOrNew_add, waiting]

theorem waiting_eq_nil {t : PeerTable τ} {p : PeerId} (h : (t.identity? p).isSome) :
    t.waiting p = [] := by
  apply (t.getOrNew p).discovery.idle
  rw [Peer.isSet_eq, ← identity?_eq]
  exact h

/-- What the arrival of an identity does: nothing if it is known already, and else it is put down,
and everyone who waits for the peer is released. -/
theorem update_cases (t : PeerTable τ) (i : Identity) :
    t.identity? i.id = some i ∧ (t.update i).table = t ∧ (t.update i).released = [] ∨
      ∃ p : Peer τ, ∃ e, p.identity = some i ∧ (t.update i).table = (t.putPeer i.id p).publish e ∧
        (t.update i).released = (t.waiting i.id).map Waiter.label := by
  unfold update
  dsimp only
  split
  · exact .inr ⟨_, _, rfl, rfl, rfl⟩
  · rename_i old hold
    split
    · rename_i he
      exact .inl ⟨by rw [identity?_eq, hold, he], rfl, rfl⟩
    · exact .inr ⟨_, _, rfl, rfl, rfl⟩

theorem identity?_update (t : PeerTable τ) (i : Identity) (q : PeerId) :
    (t.update i).table.identity? q = if q = i.id then some i else t.identity? q := by
  obtain ⟨hi, ht, -⟩ | ⟨p, e, hp, ht, -⟩ := t.update_cases i
  · rw [ht]
    split
    · rename_i hq
      rw [hq, hi]
    · rfl
  · rw [ht, identity?_eq, identity?_eq]
    have hq : ((t.putPeer i.id p).publish e).getOrNew q = _ := t.getOrNew_putPeer i.id q p
    rw [hq]
    split
    · exact hp
    · rfl

theorem waiting_update (t : PeerTable τ) (i : Identity) (q : PeerId) :
    (t.update i).table.waiting q = if q = i.id then [] else t.waiting q := by
  split
  · rename_i hq
    apply waiting_eq_nil
    rw [identity?_update, if_pos hq]
    rfl
  · rename_i hq
    obtain ⟨-, ht, -⟩ | ⟨p, e, -, ht, -⟩ := t.update_cases i
    · rw [ht]
    · have hp : ((t.putPeer i.id p).publish e).getOrNew q = _ := t.getOrNew_putPeer i.id q p
      rw [ht, waiting, hp, if_neg hq]
      rfl

theorem released_update (t : PeerTable τ) (i : Identity) :
    (t.update i).released = (t.waiting i.id).map Waiter.label := by
  obtain ⟨hi, -, hr⟩ | ⟨_, _, -, -, hr⟩ := t.update_cases i
  · rw [hr, waiting_eq_nil (by rw [hi]; rfl)]
    rfl
  · exact hr

def updateAll (t : PeerTable τ) : List Identity → PeerTable τ × List τ
  | [] => (t, [])
  | i :: is =>
    let u := t.update i
    ((u.table.updateAll is).1, u.released ++ (u.table.updateAll is).2)

theorem updateAll_append (t : PeerTable τ) (is js : List Identity) :
    t.updateAll (is ++ js) =
      (((t.updateAll is).1.updateAll js).1,
        (t.updateAll is).2 ++ ((t.updateAll is).1.updateAll js).2) := by
  induction is generalizing t with
  | nil => rfl
  | cons i is ih => simp [updateAll, ih]

/-- The last identity of a peer among some. -/
def latest (is : List Identity) (p : PeerId) : Option Identity :=
  (is.filter fun i => i.id = p).getLast?

theorem latest_cons (i : Identity) (is : List Identity) (p : PeerId) :
    latest (i :: is) p = if p = i.id then some ((latest is p).getD i) else latest is p := by
  rw [latest, List.filter_cons]
  by_cases h : p = i.id
  · rw [if_pos h, if_pos (decide_eq_true h.symm), List.getLast?_cons]
    rfl
  · have hn : ¬ decide (i.id = p) = true := fun hd => h (of_decide_eq_true hd).symm
    rw [if_neg h, if_neg hn]
    rfl

theorem latest_append (is js : List Identity) (p : PeerId) :
    latest (is ++ js) p = (latest js p).or (latest is p) := by
  rw [latest, List.filter_append, List.getLast?_append]
  rfl

theorem identity?_updateAll (t : PeerTable τ) (is : List Identity) (q : PeerId) :
    (t.updateAll is).1.identity? q = (latest is q).or (t.identity? q) := by
  induction is generalizing t with
  | nil => rfl
  | cons i is ih =>
    rw [updateAll, ih, identity?_update, latest_cons]
    split
    · cases latest is q with
      | none => rfl
      | some j => rfl
    · rfl

theorem waiting_updateAll (t : PeerTable τ) (is : List Identity) (q : PeerId) :
    (t.updateAll is).1.waiting q = if (latest is q).isSome then [] else t.waiting q := by
  induction is generalizing t with
  | nil => rfl
  | cons i is ih =>
    rw [updateAll, ih, waiting_update, latest_cons]
    by_cases hq : q = i.id
    · rw [if_pos hq, if_pos hq, ite_self]
      rfl
    · rw [if_neg hq, if_neg hq]

theorem filter_released (t : PeerTable τ) (is : List Identity) (own : τ → Bool) {p : PeerId}
    (h : ∀ q ≠ p, ∀ w ∈ t.waiting q, ¬ own w.label) : (t.updateAll is).2.filter own =
      if (latest is p).isSome then ((t.waiting p).map Waiter.label).filter own else [] := by
  induction is generalizing t with
  | nil => rfl
  | cons i is ih =>
    have hu : ∀ q ≠ p, ∀ w ∈ (t.update i).table.waiting q, ¬ own w.label := by
      intro q hq w hw
      rw [waiting_update] at hw
      split at hw
      · cases hw
      · exact h q hq w hw
    rw [updateAll, List.filter_append, ih _ hu, released_update, waiting_update, latest_cons]
    by_cases hi : p = i.id
    · rw [if_pos hi, if_pos hi, hi]
      simp
    · have hr : ((t.waiting i.id).map Waiter.label).filter own = [] := by
        rw [List.filter_eq_nil_iff]
        intro a ha
        obtain ⟨w, hw, rfl⟩ := List.mem_map.mp ha
        exact h i.id (Ne.symm hi) w hw
      rw [if_neg hi, if_neg hi, hr, List.nil_append]

theorem identity?_wait (t : PeerTable τ) (now : Nat) (p : PeerId) (w : Waiter τ) (q : PeerId) :
    (t.wait now p w).1.identity? q = t.identity? q := by
  have hq : (t.wait now p w).1.getOrNew q = _ := t.getOrNew_putPeer p q _
  rw [identity?_eq, hq, identity?_eq]
  split
  · rename_i hp
    rw [hp]
  · rfl

theorem waiting_wait (t : PeerTable τ) (now : Nat) (p : PeerId) (w : Waiter τ) (q : PeerId) :
    (t.wait now p w).1.waiting q =
      if q = p then ((t.getOrNew p).discovery.wait now w).1.waiting else t.waiting q := by
  have hq : (t.wait now p w).1.getOrNew q = _ := t.getOrNew_putPeer p q _
  rw [waiting, hq]
  split
  · rfl
  · rfl

theorem wait_cases (t : PeerTable τ) (now : Nat) (p : PeerId) (w : Waiter τ) :
    if (t.identity? p).isSome then (t.wait now p w).2 = some true ∧
      ∀ q, (t.wait now p w).1.waiting q = t.waiting q
    else if w.isExpired now then (t.wait now p w).2 = some false ∧
      ∀ q, (t.wait now p w).1.waiting q = t.waiting q
    else (t.wait now p w).2 = none ∧ ∀ q, (t.wait now p w).1.waiting q =
      if q = p then t.waiting q ++ [w] else t.waiting q := by
  have hset : (t.getOrNew p).discovery.isSet = (t.identity? p).isSome := by
    rw [Peer.isSet_eq, identity?_eq]
  have hsame (q : PeerId) : (if q = p then t.waiting p else t.waiting q) = t.waiting q := by
    split
    · rename_i hq
      rw [hq]
    · rfl
  have hresult : (t.wait now p w).2 = ((t.getOrNew p).discovery.wait now w).2 := rfl
  simp only [hresult, waiting_wait]
  unfold Latch.wait
  rw [hset]
  by_cases hs : (t.identity? p).isSome
  · rw [if_pos hs, if_pos hs]
    exact ⟨rfl, hsame⟩
  · rw [if_neg hs, if_neg hs]
    by_cases hw : w.isExpired now
    · rw [if_pos hw, if_pos hw]
      exact ⟨rfl, hsame⟩
    · rw [if_neg hw, if_neg hw]
      refine ⟨rfl, fun q => ?_⟩
      split
      · rename_i hq
        rw [hq]
        rfl
      · rfl

theorem getOrNew_expire (t : PeerTable τ) (now : Nat) (q : PeerId) :
    ∃ h, (t.expire now).1.getOrNew q =
      ⟨(t.getOrNew q).identity, ((t.getOrNew q).discovery.expire now).1, h⟩ := by
  have hg : (t.expire now).1.get? q = _ := t.peers.get?_mapValues _ q
  have he : (t.expire now).1.getOrNew q = ((t.expire now).1.get? q).getD .unknown := rfl
  have hq : t.getOrNew q = (t.peers.get? q).getD .unknown := rfl
  rw [he, hg, hq]
  cases t.peers.get? q with
  | none => exact ⟨rfl, rfl⟩
  | some p => exact ⟨p.isSet_eq, rfl⟩

theorem identity?_expire (t : PeerTable τ) (now : Nat) (q : PeerId) :
    (t.expire now).1.identity? q = t.identity? q := by
  obtain ⟨_, h⟩ := t.getOrNew_expire now q
  rw [identity?_eq, h, identity?_eq]

theorem waiting_expire (t : PeerTable τ) (now : Nat) (q : PeerId) :
    (t.expire now).1.waiting q = (t.waiting q).filter fun w => ¬ w.isExpired now := by
  obtain ⟨_, h⟩ := t.getOrNew_expire now q
  rw [waiting, h]
  rfl

/-- Of those that all wait for one peer, those are expired the deadlines of which have come. -/
theorem filter_expired (t : PeerTable τ) (now : Nat) (own : τ → Bool) {p : PeerId}
    (h : ∀ q ≠ p, ∀ w ∈ t.waiting q, ¬ own w.label) : (t.expire now).2.filter own =
      (((t.waiting p).filter fun w => w.isExpired now).map Waiter.label).filter own := by
  have hf (q : PeerId) (a : Peer τ) (ha : t.peers.get? q = some a) (hq : q ≠ p) :
      ((a.discovery.expire now).2).filter own = [] := by
    rw [List.filter_eq_nil_iff]
    intro b hb
    obtain ⟨w, hw, rfl⟩ := List.mem_map.mp hb
    have hwait : t.waiting q = a.discovery.waiting := by
      rw [waiting, getOrNew, get?, ha, Option.getD_some]
    exact h q hq w (hwait ▸ (List.mem_filter.mp hw).1)
  rw [expire, List.filter_flatMap, t.peers.flatMap_values _ p hf]
  have hp : t.waiting p = ((t.peers.get? p).getD .unknown).discovery.waiting := rfl
  rw [hp]
  cases t.peers.get? p with
  | none => rfl
  | some a => rfl

end PeerTable

end PeerMesh

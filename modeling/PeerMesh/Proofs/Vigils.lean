import Mathlib.Algebra.GroupWithZero.Nat
import Mathlib.Data.List.Basic
import PeerMesh.Proofs.Discoveries

namespace PeerMesh.PeerTable

def elapsed (calls : List Call) : Nat :=
  (calls.map Call.duration).sum

theorem now_step (x : Course) (c : Call) : (x.step c).now = x.now + c.duration := by
  cases c <;> rfl

theorem begun_step (x : Course) (c : Call) :
    (x.step c).begun = x.begun + if c.isWait then 1 else 0 := by
  cases c <;> rfl

theorem elapsed_concat (calls : List Call) (c : Call) :
    elapsed (calls ++ [c]) = elapsed calls + c.duration := by
  rw [elapsed, List.map_append, List.sum_append]
  rfl

theorem now_later (x : Course) (calls : List Call) :
    (x.later calls).now = x.now + elapsed calls := by
  induction calls using List.reverseRecOn with
  | nil => rfl
  | append_singleton calls c ih => rw [later_concat, now_step, ih, elapsed_concat, Nat.add_assoc]

theorem begun_course (calls : List Call) : (course calls).begun = calls.countP Call.isWait := by
  induction calls using List.reverseRecOn with
  | nil => rfl
  | append_singleton calls c ih =>
    rw [course_concat, begun_step, ih, List.countP_append, List.countP_singleton]

/-- Of those with the number `k`, those in `ws` wait, all of them for the peer `p`, and those in
`es` are over. -/
structure Stands (x : Course) (k : Nat) (p : PeerId) (ws : List (Waiter Nat))
    (es : List (Nat × Bool)) : Prop where
  waiting : ∀ q, (x.table.waiting q).filter (fun w => w.label = k) = if q = p then ws else []
  ended : x.ended.filter (fun e => e.1 = k) = es

section Stands

variable {x : Course} {k : Nat} {p : PeerId} {ws : List (Waiter Nat)} {es : List (Nat × Bool)}

theorem Stands.add (h : Stands x k p ws es) (q : PeerId) : Stands (x.step (.add q)) k p ws es :=
  ⟨fun r => (congrArg (List.filter _) (x.table.waiting_add q r)).trans (h.waiting r), h.ended⟩

theorem Stands.update (h : Stands x k p ws es) (i : Identity) :
    Stands (x.step (.update i)) k p (if i.id = p then [] else ws)
      (es ++ if i.id = p then ws.map fun w => (w.label, true) else []) := by
  have hreleased : ((x.table.update i).released.map (·, true)).filter (fun e => e.1 = k) =
      (if i.id = p then ws else []).map fun w => (w.label, true) := by
    rw [released_update, List.map_map, List.filter_map, ← h.waiting]
    rfl
  constructor
  · intro q
    refine (congrArg (List.filter _) (x.table.waiting_update i q)).trans ?_
    by_cases hq : q = i.id
    · rw [if_pos hq, hq, List.filter_nil]
      split
      · rfl
      · rfl
    · rw [if_neg hq, h.waiting]
      by_cases hp : q = p
      · rw [if_pos hp, if_pos hp, if_neg fun hi => hq (hp.trans hi.symm)]
      · rw [if_neg hp, if_neg hp]
  · show (x.ended ++ _).filter _ = _
    rw [List.filter_append, h.ended, hreleased]
    split
    · rfl
    · rfl

theorem Stands.pass (h : Stands x k p ws es) (time : Nat) :
    Stands (x.step (.pass time)) k p (ws.filter fun w => ¬ w.isExpired (x.now + time))
      (es ++ (ws.filter fun w => w.isExpired (x.now + time)).map fun w => (w.label, false)) := by
  have hothers : ∀ q ≠ p, ∀ w ∈ x.table.waiting q, ¬ decide (w.label = k) := by
    intro q hq
    have hnone := h.waiting q
    rw [if_neg hq] at hnone
    exact List.filter_eq_nil_iff.mp hnone
  have hp := h.waiting p
  rw [if_pos rfl] at hp
  have hexpired : ((x.table.expire (x.now + time)).2.map (·, false)).filter (fun e => e.1 = k) =
      (ws.filter fun w => w.isExpired (x.now + time)).map fun w => (w.label, false) := by
    rw [List.filter_map]
    have hown := filter_expired x.table (x.now + time) (fun a => decide (a = k)) hothers
    refine (congrArg (List.map (·, false)) hown).trans ?_
    rw [List.filter_map, List.map_map, ← hp, List.filter_comm]
    rfl
  constructor
  · intro q
    refine (congrArg (List.filter _) (x.table.waiting_expire (x.now + time) q)).trans ?_
    rw [List.filter_comm, h.waiting]
    split
    · rfl
    · rfl
  · show (x.ended ++ _).filter _ = _
    rw [List.filter_append, h.ended, hexpired]

theorem Stands.pass_singleton {w : Waiter Nat} (h : Stands x k p [w] []) (time : Nat) :
    if w.isExpired (x.now + time) then Stands (x.step (.pass time)) k p [] [(w.label, false)]
    else Stands (x.step (.pass time)) k p [w] [] := by
  have ht := h.pass time
  split
  · rename_i he
    simpa [he] using ht
  · rename_i he
    simpa [he] using ht

theorem Stands.wait (h : Stands x k p ws es) (hk : x.begun ≠ k) (q : PeerId)
    (timeout : Option Nat) : Stands (x.step (.wait q timeout)) k p ws es := by
  have hcases := x.table.wait_cases x.now q ⟨x.begun, timeout.map (x.now + ·)⟩
  constructor
  · intro r
    refine Eq.trans ?_ (h.waiting r)
    show ((x.table.wait x.now q _).1.waiting r).filter _ = _
    split at hcases
    · rw [hcases.2]
    · split at hcases
      · rw [hcases.2]
      · rw [hcases.2]
        split
        · rename_i hr
          have hnew : [(⟨x.begun, timeout.map (x.now + ·)⟩ : Waiter Nat)].filter
              (fun w => w.label = k) = [] :=
            List.filter_cons_of_neg fun hd => hk (of_decide_eq_true hd)
          rw [hr, List.filter_append, hnew, List.append_nil]
        · rfl
  · show (x.ended ++ _).filter _ = _
    have hnone : ((x.table.wait x.now q ⟨x.begun, timeout.map (x.now + ·)⟩).2.toList.map
        (x.begun, ·)).filter (fun e => e.1 = k) = [] := by
      refine List.filter_eq_nil_iff.mpr fun e he hd => hk ?_
      obtain ⟨b, -, rfl⟩ := List.mem_map.mp he
      exact of_decide_eq_true hd
    rw [List.filter_append, h.ended, hnone, List.append_nil]

/-- If none waits, that is how it stays. -/
theorem Stands.step (h : Stands x k p [] es) {c : Call} (hk : c.isWait → x.begun ≠ k) :
    Stands (x.step c) k p [] es := by
  cases c with
  | add q => exact h.add q
  | update i =>
    have hi := h.update i
    rwa [List.map_nil, ite_self, ite_self, List.append_nil] at hi
  | wait q timeout => exact h.wait (hk rfl) q timeout
  | pass time =>
    have ht := h.pass time
    rwa [List.filter_nil, List.filter_nil, List.map_nil, List.append_nil] at ht
  | subscribe => exact ⟨h.waiting, h.ended⟩

theorem isExpired_add (k now time : Nat) (timeout : Option Nat) :
    (⟨k, timeout.map (now + ·)⟩ : Waiter Nat).isExpired (now + time) = timeout.any (· ≤ time) := by
  cases timeout with
  | none => rfl
  | some d =>
    show decide (now + d ≤ now + time) = decide (d ≤ time)
    rw [decide_eq_decide]
    omega

/-- How a wait stands when it has just begun. -/
theorem Stands.begin (h : Stands x x.begun p [] []) (timeout : Option Nat) :
    if (x.table.identity? p).isSome then
      Stands (x.step (.wait p timeout)) x.begun p [] [(x.begun, true)]
    else if timeout.any (· ≤ 0) then
      Stands (x.step (.wait p timeout)) x.begun p [] [(x.begun, false)]
    else Stands (x.step (.wait p timeout)) x.begun p [⟨x.begun, timeout.map (x.now + ·)⟩] [] := by
  have hexpired := isExpired_add x.begun x.now 0 timeout
  have hcases := x.table.wait_cases x.now p ⟨x.begun, timeout.map (x.now + ·)⟩
  rw [Nat.add_zero] at hexpired
  rw [hexpired] at hcases
  have hended (r : Option Bool) (hr : (x.table.wait x.now p
      ⟨x.begun, timeout.map (x.now + ·)⟩).2 = r) :
      (x.step (.wait p timeout)).ended.filter (fun e => e.1 = x.begun) =
        (r.map (x.begun, ·)).toList := by
    show (x.ended ++ _).filter _ = _
    rw [List.filter_append, h.ended, hr, List.nil_append]
    cases r with
    | none => rfl
    | some b => exact List.filter_cons_of_pos (a := (x.begun, b)) (decide_eq_true rfl)
  split
  · rename_i hknown
    rw [if_pos hknown] at hcases
    exact ⟨fun q => (congrArg (List.filter _) (hcases.2 q)).trans (h.waiting q), hended _ hcases.1⟩
  · rename_i hunknown
    rw [if_neg hunknown] at hcases
    split
    · rename_i hover
      rw [if_pos hover] at hcases
      exact ⟨fun q => (congrArg (List.filter _) (hcases.2 q)).trans (h.waiting q),
        hended _ hcases.1⟩
    · rename_i hopen
      rw [if_neg hopen] at hcases
      refine ⟨fun q => (congrArg (List.filter _) (hcases.2 q)).trans ?_, hended _ hcases.1⟩
      have hq := h.waiting q
      split
      · rename_i he
        rw [if_pos he] at hq
        rw [List.filter_append, hq]
        exact List.filter_cons_of_pos (p := fun w : Waiter Nat => decide (w.label = x.begun))
          (decide_eq_true rfl)
      · rename_i he
        rwa [if_neg he] at hq

theorem Stands.later (h : Stands x k p [] es) (hk : k < x.begun) (calls : List Call) :
    Stands (x.later calls) k p [] es ∧ k < (x.later calls).begun := by
  induction calls using List.reverseRecOn with
  | nil => exact ⟨h, hk⟩
  | append_singleton calls c ih =>
    rw [later_concat, begun_step]
    exact ⟨ih.1.step fun _ => Nat.ne_of_gt ih.2, Nat.lt_add_right _ ih.2⟩

/-- The wait for a peer that is not known goes on until as much time as the timeout has passed since
it began, and is over then. -/
def Lingers (x : Course) (k : Nat) (p : PeerId) (start : Nat) (timeout : Option Nat)
    (time : Nat) : Prop :=
  if timeout.any (· ≤ time) then Stands x k p [] [(k, false)]
  else Stands x k p [⟨k, timeout.map (start + ·)⟩] []

theorem Lingers.step {start time : Nat} {timeout : Option Nat}
    (h : Lingers x k p start timeout time) (hk : k < x.begun) (hnow : x.now = start + time)
    {c : Call} (hc : ∀ i, c = .update i → i.id ≠ p) :
    Lingers (x.step c) k p start timeout (time + c.duration) := by
  by_cases hover : timeout.any (· ≤ time)
  · have hstill : timeout.any (· ≤ time + c.duration) := by
      cases timeout with
      | none => cases hover
      | some d => exact decide_eq_true (Nat.le_add_right_of_le (of_decide_eq_true hover))
    rw [Lingers, if_pos hover] at h
    rw [Lingers, if_pos hstill]
    exact h.step fun _ => Nat.ne_of_gt hk
  · rw [Lingers, if_neg hover] at h
    have hkeep (hd : c.duration = 0)
        (hs : Stands (x.step c) k p [⟨k, timeout.map (start + ·)⟩] []) :
        Lingers (x.step c) k p start timeout (time + c.duration) := by
      rw [hd, Nat.add_zero, Lingers, if_neg hover]
      exact hs
    cases c with
    | add q => exact hkeep rfl (h.add q)
    | update i =>
      have hi := h.update i
      rw [if_neg (hc i rfl), if_neg (hc i rfl), List.append_nil] at hi
      exact hkeep rfl hi
    | wait q timeout' => exact hkeep rfl (h.wait (Nat.ne_of_gt hk) q timeout')
    | subscribe => exact hkeep rfl ⟨h.waiting, h.ended⟩
    | pass ms =>
      have ht := h.pass_singleton ms
      rw [hnow, Nat.add_assoc, isExpired_add] at ht
      exact ht

end Stands

theorem stands_of_begun_le (p : PeerId) {k : Nat} {calls : List Call}
    (hk : (course calls).begun ≤ k) : Stands (course calls) k p [] [] := by
  induction calls using List.reverseRecOn with
  | nil => exact ⟨fun q => (ite_self _).symm, rfl⟩
  | append_singleton calls c ih =>
    rw [course_concat, begun_step] at hk
    rw [course_concat]
    refine (ih (by omega)).step fun hc => ?_
    rw [if_pos hc] at hk
    omega

section Wait

variable {front back : List Call} {p : PeerId} {timeout : Option Nat}

theorem course_cons (front back : List Call) (c : Call) :
    course (front ++ c :: back) = ((course front).step c).later back :=
  course_append front (c :: back)

theorem course_cons_concat (front back : List Call) (c d : Call) :
    course (front ++ c :: (back ++ [d])) = (course (front ++ c :: back)).step d := by
  rw [course_cons, course_cons, later_concat]

theorem lt_begun (front back : List Call) (p : PeerId) (timeout : Option Nat) :
    (course front).begun < (course (front ++ .wait p timeout :: back)).begun := by
  rw [begun_course, begun_course, List.countP_append, List.countP_cons_of_pos rfl]
  omega

theorem stands_of_known (back : List Call) (timeout : Option Nat)
    (hknown : ((course front).table.identity? p).isSome) :
    Stands (course (front ++ .wait p timeout :: back)) (course front).begun p []
      [((course front).begun, true)] := by
  have h := (stands_of_begun_le p (Nat.le_refl (course front).begun)).begin timeout
  rw [if_pos hknown] at h
  rw [course_cons]
  exact (h.later (Nat.lt_succ_self _) back).1

theorem lingers_of_unknown (timeout : Option Nat)
    (hunknown : ¬ ((course front).table.identity? p).isSome)
    (hback : ∀ i, .update i ∈ back → i.id ≠ p) :
    Lingers (course (front ++ .wait p timeout :: back)) (course front).begun p (course front).now
      timeout (elapsed back) := by
  induction back using List.reverseRecOn with
  | nil =>
    have h := (stands_of_begun_le p (Nat.le_refl (course front).begun)).begin timeout
    rw [if_neg hunknown] at h
    rw [course_concat]
    exact h
  | append_singleton back c ih =>
    have ih := ih fun i hi => hback i (List.mem_append_left [c] hi)
    have hnow : (course (front ++ .wait p timeout :: back)).now =
        (course front).now + elapsed back := by
      rw [course_cons, now_later]
      rfl
    rw [course_cons_concat, elapsed_concat]
    exact ih.step (lt_begun front back p timeout) hnow fun i hi =>
      hback i (hi ▸ List.mem_append_right back List.mem_cons_self)

theorem not_any_le_iff {time : Nat} :
    ¬ timeout.any (· ≤ time) ↔ ∀ d, timeout = some d → time < d := by
  cases timeout with
  | none => exact iff_of_true Bool.false_ne_true nofun
  | some d =>
    show ¬ decide (d ≤ time) = true ↔ _
    rw [decide_eq_true_iff, Nat.not_le]
    exact ⟨fun h d' hd => Option.some.inj hd ▸ h, fun h => h d rfl⟩

/-- The first identity of the peer ends a wait, unless its deadline has come before. -/
theorem stands_of_update (hunknown : ¬ ((course front).table.identity? p).isSome)
    (hback : ∀ i, .update i ∈ back → i.id ≠ p) (hopen : ¬ timeout.any (· ≤ elapsed back))
    {i : Identity} (hi : i.id = p) (rest : List Call) :
    Stands (course (front ++ .wait p timeout :: (back ++ .update i :: rest))) (course front).begun p
      [] [((course front).begun, true)] := by
  have h := lingers_of_unknown timeout hunknown hback
  rw [Lingers, if_neg hopen] at h
  have hu := h.update i
  rw [if_pos hi, if_pos hi, ← course_cons_concat] at hu
  have hr := (hu.later (lt_begun front (back ++ [.update i]) p timeout) rest).1
  rw [← course_append, List.append_assoc, List.cons_append, List.append_assoc] at hr
  exact hr

theorem stands_of_timeout (hunknown : ¬ ((course front).table.identity? p).isSome)
    (hback : ∀ i, .update i ∈ back → i.id ≠ p) (hover : timeout.any (· ≤ elapsed back))
    (rest : List Call) :
    Stands (course (front ++ .wait p timeout :: (back ++ rest))) (course front).begun p
      [] [((course front).begun, false)] := by
  have h := lingers_of_unknown timeout hunknown hback
  rw [Lingers, if_pos hover] at h
  have hr := (h.later (lt_begun front back p timeout) rest).1
  rw [← course_append, List.append_assoc, List.cons_append] at hr
  exact hr

end Wait

def Course.outcomes (x : Course) (k : Nat) : List Bool :=
  (x.ended.filter fun e => e.1 = k).map Prod.snd

/-- After any calls: the context of a peer is the one that the first call for the peer has created.
The peer is discovered if and only if an identity of it has arrived, and its identity is then the
last one; those that are discovered are all of these. Of its events, the first one discovers it and
the others are its changes. A subscriber finds the last of the events since it has subscribed. A
wait is over at once if its peer is known, and else when an identity of the peer arrives or its
deadline comes, whichever is first; and it is over once. -/
theorem discoveries_of_calls :
    (∀ (front back : List Call) (p : PeerId) (k : Nat),
      (course front).table.IsContext p k → (course (front ++ back)).table.IsContext p k) ∧
    (∀ (calls : List Call) (p : PeerId),
      ((∃ k, (course calls).table.IsContext p k) ↔ ∃ c ∈ calls, c.peer? = some p) ∧
      (∀ k l, (course calls).table.IsContext p k → (course calls).table.IsContext p l → k = l) ∧
      ∀ k, (course calls).table.IsContext p k → ∃ a,
        (course calls).table.peers.entries[k]? = some (p, a) ∧
          (course calls).table.get? p = some a ∧
          a.discovery.isSet = (course calls).table.isDiscovered p) ∧
    (∀ (calls : List Call) (p : PeerId),
      ((course calls).table.isDiscovered p ↔ ∃ i, .update i ∈ calls ∧ i.id = p) ∧
      (course calls).table.identity? p = latest (identities calls) p) ∧
    (∀ calls : List Call, ((course calls).table.discovered.map Prod.fst).Nodup ∧
      ∀ p i, (p, i) ∈ (course calls).table.discovered ↔ latest (identities calls) p = some i) ∧
    (∀ (calls : List Call) (p : PeerId), (course calls).events.filter (fun e => e.peer = p) =
      announced p ((identities calls).filter fun i => i.id = p)) ∧
    (∀ (calls : List Call) (c : Call), (course (calls ++ [c])).events = (course calls).events ++
      (c.identity?.bind fun i => eventOf (latest (identities calls) i.id) i).toList) ∧
    (∀ front back : List Call, ∃ es f,
      (course (front ++ .subscribe :: back)).events = (course front).events ++ es ∧
      (course (front ++ .subscribe :: back)).table.feeds[front.countP Call.isSubscribe]? = some f ∧
      f.take = (es.length - Feed.capacity, es.drop (es.length - Feed.capacity))) ∧
    ∀ (front back : List Call) (p : PeerId) (timeout : Option Nat),
      ((∃ i, .update i ∈ front ∧ i.id = p) →
        (course (front ++ .wait p timeout :: back)).outcomes (front.countP Call.isWait) = [true]) ∧
      ((∀ i, .update i ∈ front ++ back → i.id ≠ p) →
        ((∀ d, timeout = some d → elapsed back < d) →
          (course (front ++ .wait p timeout :: back)).outcomes (front.countP Call.isWait) = [] ∧
          ∀ i rest, i.id = p →
            (course (front ++ .wait p timeout :: (back ++ .update i :: rest))).outcomes
              (front.countP Call.isWait) = [true]) ∧
        ∀ d rest, timeout = some d → d ≤ elapsed back →
          (course (front ++ .wait p timeout :: (back ++ rest))).outcomes
            (front.countP Call.isWait) = [false]) := by
  refine ⟨fun front back p k h => h.later back, fun calls p => ⟨exists_isContext_iff calls p,
    fun k l hk hl => hk.unique hl, fun k h => h.get?⟩, fun calls p => ⟨isDiscovered_course calls p,
    identity?_course calls p⟩, fun calls => ⟨nodup_discovered _, fun p i => ?discovered⟩,
    events_course, fun calls c => ?event, fun front back => ?feed,
    fun front back p timeout => ⟨fun hknown => ?known, fun hunknown => ?unknown⟩⟩
  case discovered => rw [mem_discovered_iff, identity?_course]
  case event =>
    rw [course_concat, events_step]
    simp only [identity?_course]
  case feed =>
    obtain ⟨es, hevents, hfeed⟩ := feeds_later front back
    refine ⟨es, _, hevents, hfeed, ?_⟩
    rw [foldl_push, Feed.take, List.reverse_reverse]
  case known =>
    have h := stands_of_known back timeout ((isDiscovered_course front p).mpr hknown)
    rw [Course.outcomes, ← begun_course, h.ended]
    rfl
  case unknown =>
    have hfront : ¬ ((course front).table.identity? p).isSome := by
      intro h
      obtain ⟨i, hi, hp⟩ := (isDiscovered_course front p).mp h
      exact hunknown i (List.mem_append_left back hi) hp
    have hback : ∀ i, .update i ∈ back → i.id ≠ p :=
      fun i hi => hunknown i (List.mem_append_right front hi)
    rw [← begun_course]
    refine ⟨fun hopen => ?_, fun d rest hd hover => ?_⟩
    · have hopen := not_any_le_iff.mpr hopen
      have h := lingers_of_unknown timeout hfront hback
      rw [Lingers, if_neg hopen] at h
      refine ⟨?_, fun i rest hi => ?_⟩
      · rw [Course.outcomes, h.ended]
        rfl
      · rw [Course.outcomes, (stands_of_update hfront hback hopen hi rest).ended]
        rfl
    · have hover : timeout.any (· ≤ elapsed back) := hd ▸ decide_eq_true hover
      rw [Course.outcomes, (stands_of_timeout hfront hback hover rest).ended]
      rfl

def identityChanges : List Call :=
  let i : Identity := ⟨⟨1⟩, "one", .empty⟩
  [.subscribe, .wait ⟨1⟩ (some 5), .pass 3, .update i, .update i,
    .update (i.declare "x" (.int 1)), .update i, .wait ⟨1⟩ none, .wait ⟨2⟩ (some 2), .pass 2]

theorem discoveries_of_calls_identityChanges :
    (course (identityChanges.take 2)).table.IsContext ⟨1⟩ 0 ∧
    (course identityChanges).table.IsContext ⟨1⟩ 0 ∧
    (course identityChanges).events.filter (fun e => e.peer = ⟨1⟩) =
      [.discovered ⟨1⟩, .updated ⟨1⟩, .updated ⟨1⟩] ∧
    (course (identityChanges.take 3)).outcomes 0 = [] ∧
    (course identityChanges).outcomes 0 = [true] ∧
    (course identityChanges).outcomes 1 = [true] ∧
    (course identityChanges).outcomes 2 = [false] := by
  obtain ⟨hstays, -, -, -, hevents, -, -, hwait⟩ := discoveries_of_calls
  have hcontext : (course (identityChanges.take 2)).table.IsContext ⟨1⟩ 0 := rfl
  have hfirst := (hwait [.subscribe] [.pass 3] ⟨1⟩ (some 5)).2 (by simp)
  have hopen : ∀ d, some 5 = some d → elapsed [.pass 3] < d := by
    intro d hd
    cases hd
    decide
  have hknown := (hwait (identityChanges.take 7) (identityChanges.drop 8) ⟨1⟩ none).1
    ⟨⟨⟨1⟩, "one", .empty⟩, by simp [identityChanges], rfl⟩
  have hlast := (hwait (identityChanges.take 8) [.pass 2] ⟨2⟩ (some 2)).2 (by
    intro i hi
    simp only [identityChanges, List.take, List.cons_append, List.nil_append, List.mem_cons,
      List.not_mem_nil, reduceCtorEq, Call.update.injEq, or_false, false_or] at hi
    rcases hi with rfl | rfl | rfl | rfl <;> decide)
  exact ⟨hcontext, hstays (identityChanges.take 2) (identityChanges.drop 2) ⟨1⟩ 0 hcontext,
    (hevents identityChanges ⟨1⟩).trans (by decide +kernel), (hfirst.1 hopen).1,
    (hfirst.1 hopen).2 _ (identityChanges.drop 4) rfl, hknown, hlast.2 2 [] rfl (by decide)⟩

end PeerMesh.PeerTable

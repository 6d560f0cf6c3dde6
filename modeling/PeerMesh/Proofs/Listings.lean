import PeerMesh.Proofs.Routes

namespace PeerMesh.RoutingTable

variable {κ : Type}

inductive Call (κ : Type) where
  | register (peer : PeerId) (route : κ)
  | unregister (peer : PeerId) (route : κ)

/-- The route has been registered for the peer, and not been unregistered since. -/
def IsListed (calls : List (Call κ)) (peer : PeerId) (route : κ) : Prop :=
  ∃ front back, calls = front ++ .register peer route :: back ∧ .unregister peer route ∉ back

/-- The route has been listed for the peer since the call with the number `i`: it was not listed
before this call, which registered it, and it has not been unregistered since. -/
def IsListedSince (calls : List (Call κ)) (peer : PeerId) (route : κ) (i : Nat) : Prop :=
  ∃ front back, calls = front ++ .register peer route :: back ∧ front.length = i ∧
    ¬ IsListed front peer route ∧ .unregister peer route ∉ back

/-- The route is the first one of the heaviest ones in a list. -/
def IsFirstHeaviest [Weighted κ] (routes : List κ) (r : κ) : Prop :=
  ∃ front back, routes = front ++ r :: back ∧
    (∀ x ∈ front, Weighted.weight x < Weighted.weight r) ∧
    ∀ x ∈ back, Weighted.weight x ≤ Weighted.weight r

theorem concat_eq_append_cons_iff {α : Type} {l front back : List α} {a b : α} :
    l ++ [a] = front ++ b :: back ↔
      (back = [] ∧ front = l ∧ b = a) ∨ ∃ mid, back = mid ++ [a] ∧ l = front ++ b :: mid := by
  constructor
  · intro h
    obtain rfl | ⟨mid, c, rfl⟩ := List.eq_nil_or_concat' back
    · obtain ⟨rfl, hb⟩ := List.append_inj' h rfl
      exact .inl ⟨rfl, rfl, (List.singleton_inj.mp hb).symm⟩
    · rw [← List.cons_append, ← List.append_assoc] at h
      obtain ⟨rfl, hb⟩ := List.append_inj' h rfl
      obtain rfl := List.singleton_inj.mp hb
      exact .inr ⟨mid, rfl, rfl⟩
  · rintro (⟨rfl, rfl, rfl⟩ | ⟨mid, rfl, rfl⟩)
    · rfl
    · rw [List.append_assoc, List.cons_append]

section Calls

variable {calls : List (Call κ)} {c : Call κ} {p : PeerId} {r : κ} {i : Nat}

theorem isListed_concat : IsListed (calls ++ [c]) p r ↔
    c = .register p r ∨ IsListed calls p r ∧ c ≠ .unregister p r := by
  constructor
  · rintro ⟨front, back, he, hback⟩
    obtain ⟨rfl, rfl, hc⟩ | ⟨mid, rfl, rfl⟩ := concat_eq_append_cons_iff.mp he
    · exact .inl hc.symm
    · rw [List.mem_append, List.mem_singleton] at hback
      exact .inr ⟨⟨front, mid, rfl, fun hm => hback (.inl hm)⟩, fun hc => hback (.inr hc.symm)⟩
  · rintro (rfl | ⟨⟨front, back, rfl, hback⟩, hc⟩)
    · exact ⟨calls, [], rfl, List.not_mem_nil⟩
    · refine ⟨front, back ++ [c], by rw [List.append_assoc]; rfl, ?_⟩
      rw [List.mem_append, List.mem_singleton]
      exact fun hm => hm.elim hback fun he => hc he.symm

theorem isListedSince_concat : IsListedSince (calls ++ [c]) p r i ↔
    (c = .register p r ∧ ¬ IsListed calls p r ∧ i = calls.length) ∨
      IsListedSince calls p r i ∧ c ≠ .unregister p r := by
  constructor
  · rintro ⟨front, back, he, hi, hnew, hback⟩
    obtain ⟨rfl, rfl, hc⟩ | ⟨mid, rfl, rfl⟩ := concat_eq_append_cons_iff.mp he
    · exact .inl ⟨hc.symm, hnew, hi.symm⟩
    · rw [List.mem_append, List.mem_singleton] at hback
      exact .inr ⟨⟨front, mid, rfl, hi, hnew, fun hm => hback (.inl hm)⟩,
        fun hc => hback (.inr hc.symm)⟩
  · rintro (⟨rfl, hnew, rfl⟩ | ⟨⟨front, back, rfl, hi, hnew, hback⟩, hc⟩)
    · exact ⟨calls, [], rfl, rfl, hnew, List.not_mem_nil⟩
    · refine ⟨front, back ++ [c], by rw [List.append_assoc]; rfl, hi, hnew, ?_⟩
      rw [List.mem_append, List.mem_singleton]
      exact fun hm => hm.elim hback fun he => hc he.symm

theorem IsListedSince.lt_length (h : IsListedSince calls p r i) : i < calls.length := by
  obtain ⟨front, back, rfl, rfl, -, -⟩ := h
  rw [List.length_append, List.length_cons]
  omega

theorem IsListedSince.isListed (h : IsListedSince calls p r i) : IsListed calls p r := by
  obtain ⟨front, back, he, -, -, hback⟩ := h
  exact ⟨front, back, he, hback⟩

theorem IsListed.exists_since (h : IsListed calls p r) : ∃ i, IsListedSince calls p r i := by
  induction calls using List.reverseRecOn with
  | nil =>
    obtain ⟨front, back, he, -⟩ := h
    exact (List.append_ne_nil_of_right_ne_nil front (List.cons_ne_nil _ back) he.symm).elim
  | append_singleton calls c ih =>
    simp only [isListedSince_concat]
    by_cases hold : IsListed calls p r
    · obtain ⟨i, hi⟩ := ih hold
      refine ⟨i, .inr ⟨hi, ?_⟩⟩
      obtain rfl | ⟨-, hc⟩ := isListed_concat.mp h
      · exact fun hc => nomatch hc
      · exact hc
    · obtain hc | ⟨hold', -⟩ := isListed_concat.mp h
      · exact ⟨calls.length, .inl ⟨hc, hold, rfl⟩⟩
      · exact (hold hold').elim

end Calls

section Heaviest

variable [Weighted κ]

theorem heaviest_concat (routes : List κ) (r : κ) : heaviest (routes ++ [r]) =
    match heaviest routes with
    | none => some r
    | some b => if Weighted.weight b < Weighted.weight r then some r else some b := by
  rw [heaviest, List.foldl_append]
  rfl

theorem heaviest_eq_none_iff {routes : List κ} : heaviest routes = none ↔ routes = [] := by
  cases routes using List.reverseRecOn with
  | nil => exact iff_of_true rfl rfl
  | append_singleton routes r =>
    refine iff_of_false ?_ (List.append_ne_nil_of_right_ne_nil routes (List.cons_ne_nil r []))
    rw [heaviest_concat]
    split
    · exact Option.some_ne_none _
    · split
      · exact Option.some_ne_none _
      · exact Option.some_ne_none _

theorem isFirstHeaviest_of_heaviest {routes : List κ} {b : κ} (h : heaviest routes = some b) :
    IsFirstHeaviest routes b := by
  induction routes using List.reverseRecOn generalizing b with
  | nil => cases h
  | append_singleton routes r ih =>
    rw [heaviest_concat] at h
    split at h
    · rename_i hnone
      cases h
      rw [heaviest_eq_none_iff.mp hnone]
      exact ⟨[], [], rfl, nofun, nofun⟩
    · rename_i b' hb'
      obtain ⟨front, back, rfl, hfront, hback⟩ := ih hb'
      split at h
      · rename_i hlt
        cases h
        refine ⟨front ++ b' :: back, [], rfl, fun x hx => ?_, nofun⟩
        obtain hx | hx := List.mem_append.mp hx
        · exact Nat.lt_trans (hfront x hx) hlt
        · obtain rfl | hx := List.mem_cons.mp hx
          · exact hlt
          · exact Nat.lt_of_le_of_lt (hback x hx) hlt
      · rename_i hle
        cases h
        refine ⟨front, back ++ [r], by rw [List.append_assoc]; rfl, hfront, fun x hx => ?_⟩
        obtain hx | hx := List.mem_append.mp hx
        · exact hback x hx
        · rw [List.mem_singleton.mp hx]
          exact Nat.le_of_not_lt hle

theorem IsFirstHeaviest.unique {routes : List κ} {b b' : κ} (h : IsFirstHeaviest routes b)
    (h' : IsFirstHeaviest routes b') : b = b' := by
  -- whichever of the two came first, the other one would have to be both heavier and not heavier
  have hbefore {front front' back back' mid : List κ} {b b' : κ} (hm : front' = front ++ mid)
      (he : b :: back = mid ++ b' :: back')
      (hback : ∀ x ∈ back, Weighted.weight x ≤ Weighted.weight b)
      (hfront' : ∀ x ∈ front', Weighted.weight x < Weighted.weight b') : b = b' := by
    cases mid with
    | nil => exact (List.cons.inj he).1
    | cons x mid =>
      obtain ⟨rfl, rfl⟩ := List.cons.inj he
      have hlt := hfront' b (hm ▸ List.mem_append_right front List.mem_cons_self)
      have hle := hback b' (List.mem_append_right mid List.mem_cons_self)
      exact (Nat.not_le_of_lt hlt hle).elim
  obtain ⟨front, back, rfl, hfront, hback⟩ := h
  obtain ⟨front', back', he, hfront', hback'⟩ := h'
  obtain ⟨mid, hm, he⟩ | ⟨mid, hm, he⟩ := List.append_eq_append_iff.mp he
  · exact hbefore hm he hback hfront'
  · exact (hbefore hm he hback' hfront).symm

theorem heaviest_eq_some_iff {routes : List κ} {b : κ} :
    heaviest routes = some b ↔ IsFirstHeaviest routes b := by
  refine ⟨isFirstHeaviest_of_heaviest, fun h => ?_⟩
  cases hb : heaviest routes with
  | none =>
    obtain ⟨front, back, he, -, -⟩ := h
    rw [heaviest_eq_none_iff.mp hb] at he
    exact (List.append_ne_nil_of_right_ne_nil front (List.cons_ne_nil b back) he.symm).elim
  | some b' => rw [(isFirstHeaviest_of_heaviest hb).unique h]

end Heaviest

variable [DecidableEq κ]

def perform (t : RoutingTable κ) : Call κ → RoutingTable κ
  | .register peer route =>
    match t.register peer route with
    | .ok t' => t'
    | .error _ => t
  | .unregister peer route => (t.unregister peer route).1

def after (t : RoutingTable κ) (calls : List (Call κ)) : RoutingTable κ :=
  calls.foldl perform t

theorem after_concat (t : RoutingTable κ) (calls : List (Call κ)) (c : Call κ) :
    t.after (calls ++ [c]) = (t.after calls).perform c := by
  rw [after, List.foldl_append]
  rfl

/-- Registers a route with the entry of its peer made before the routes in it are looked through. -/
def registerEntered (t : RoutingTable κ) (peer : PeerId) (route : κ) :
    RoutingTable κ × Option (AlreadyRegistered κ) :=
  let entered :=
    match t.routes.get? peer with
    | some _ => t.routes
    | none => t.routes.put peer []
  let routes := (entered.get? peer).getD []
  if route ∈ routes then (⟨entered⟩, some ⟨route, peer⟩)
  else (⟨entered.put peer (routes ++ [route])⟩, none)

/-- Unregisters a route wherever it is listed for a peer; the entry of the peer goes with the last
route that is taken out of it. -/
def unregisterAll (t : RoutingTable κ) (peer : PeerId) (route : κ) : RoutingTable κ × Bool :=
  match t.routes.get? peer with
  | none => (t, false)
  | some routes =>
    let kept := routes.filter (· ≠ route)
    let retained := t.routes.put peer kept
    if kept.length = routes.length then (⟨retained⟩, false)
    else if kept = [] then (⟨retained.erase peer⟩, true)
    else (⟨retained⟩, true)

variable {t : RoutingTable κ} {peer : PeerId} {route : κ}

theorem register_of_mem (h : route ∈ t.routesTo peer) :
    t.register peer route = .error ⟨route, peer⟩ :=
  if_pos h

theorem register_of_not_mem (h : route ∉ t.routesTo peer) :
    t.register peer route = .ok ⟨t.routes.put peer (t.routesTo peer ++ [route])⟩ :=
  if_neg h

theorem registerEntered_of_mem (h : route ∈ t.routesTo peer) :
    t.registerEntered peer route = (t, some ⟨route, peer⟩) := by
  unfold routesTo at h
  unfold registerEntered
  cases hp : t.routes.get? peer with
  | none =>
    rw [hp] at h
    cases h
  | some routes =>
    rw [hp] at h
    simp only [hp, Option.getD_some]
    exact if_pos h

theorem registerEntered_of_not_mem (h : route ∉ t.routesTo peer) :
    t.registerEntered peer route =
      (⟨t.routes.put peer (t.routesTo peer ++ [route])⟩, none) := by
  unfold routesTo at h
  unfold registerEntered routesTo
  cases hp : t.routes.get? peer with
  | none =>
    simp only [KeyedList.get?_put, if_pos, Option.getD_some, Option.getD_none, KeyedList.put_put]
    exact if_neg List.not_mem_nil
  | some routes =>
    rw [hp] at h
    simp only [hp, Option.getD_some]
    exact if_neg h

theorem unregisterAll_eq (h : (t.routesTo peer).Nodup) (route : κ) :
    t.unregisterAll peer route = t.unregister peer route := by
  unfold unregisterAll unregister
  unfold routesTo at h ⊢
  cases hp : t.routes.get? peer with
  | none => rfl
  | some routes =>
    rw [hp, Option.getD_some] at h
    rw [Option.getD_some, h.erase_eq_filter]
    by_cases hm : route ∈ routes
    · have hshort : (routes.filter (· ≠ route)).length ≠ routes.length := by
        rw [Ne, List.length_filter_eq_length_iff]
        intro hall
        simpa using hall route hm
      have hkept : routes.filter (· != route) = routes.filter (· ≠ route) :=
        List.filter_congr fun x _ => by simp [bne, beq_eq_decide]
      simp only [if_neg hshort, if_pos hm, hkept, KeyedList.erase_put]
      cases routes.filter (· ≠ route) with
      | nil => rfl
      | cons r rest => rfl
    · have hkept : routes.filter (· ≠ route) = routes := by
        rw [List.filter_eq_self]
        intro x hx
        have hne : x ≠ route := fun he => hm (he ▸ hx)
        exact decide_eq_true hne
      simp only [hkept, KeyedList.put_of_get? hp, if_pos, if_neg hm]

theorem routesTo_unregister_of_nodup (h : (t.routesTo peer).Nodup) (route : κ) (q : PeerId) :
    (t.unregister peer route).1.routesTo q =
      if q = peer then (t.routesTo q).filter (· ≠ route) else t.routesTo q := by
  rw [routesTo_unregister]
  split
  · rename_i hq
    rw [hq, h.erase_eq_filter]
    exact List.filter_congr fun r _ => by simp [bne, beq_eq_decide]
  · rfl

theorem snd_unregister (t : RoutingTable κ) (peer : PeerId) (route : κ) :
    (t.unregister peer route).2 ↔ route ∈ t.routesTo peer := by
  unfold unregister
  split
  · rename_i hm
    refine iff_of_true ?_ hm
    split
    · rfl
    · rfl
  · rename_i hm
    exact iff_of_false Bool.false_ne_true hm

theorem routesTo_perform_register (t : RoutingTable κ) (peer : PeerId) (route : κ) (q : PeerId) :
    (t.perform (.register peer route)).routesTo q =
      if q = peer ∧ route ∉ t.routesTo q then t.routesTo q ++ [route] else t.routesTo q := by
  by_cases hm : route ∈ t.routesTo peer
  · rw [perform, register_of_mem hm, if_neg]
    rintro ⟨rfl, hn⟩
    exact hn hm
  · have hok := register_of_not_mem hm
    rw [perform, hok]
    dsimp only
    rw [routesTo_register hok]
    by_cases hq : q = peer
    · subst hq
      rw [if_pos rfl, if_pos ⟨rfl, hm⟩]
    · rw [if_neg hq, if_neg fun h => hq h.1]

theorem IsTidy.perform (h : t.IsTidy) (c : Call κ) : (t.perform c).IsTidy := by
  cases c with
  | register peer route =>
    rw [RoutingTable.perform]
    split
    · rename_i t' ht
      exact h.register ht
    · exact h
  | unregister peer route => exact h.unregister peer route

/-- The table lists what the calls say, in the order in which they say it. -/
structure Lists (t : RoutingTable κ) (calls : List (Call κ)) : Prop where
  tidy : t.IsTidy
  nodup : ∀ p, (t.routesTo p).Nodup
  mem : ∀ p r, r ∈ t.routesTo p ↔ IsListed calls p r
  order : ∀ p, (t.routesTo p).Pairwise fun r r' =>
    ∀ i j, IsListedSince calls p r i → IsListedSince calls p r' j → i < j

namespace Lists

variable {calls : List (Call κ)}

omit [DecidableEq κ] in
theorem start : Lists (empty : RoutingTable κ) [] := by
  refine ⟨isTidy_empty, fun p => .nil, fun p r => iff_of_false List.not_mem_nil ?_, fun p => .nil⟩
  rintro ⟨front, back, he, -⟩
  exact List.append_ne_nil_of_right_ne_nil front (List.cons_ne_nil _ back) he.symm

theorem register (h : t.Lists calls) (peer : PeerId) (route : κ) :
    (t.perform (.register peer route)).Lists (calls ++ [.register peer route]) := by
  -- To register what is listed already does not change since when it is listed.
  have hsame {p : PeerId} {r : κ} {i : Nat} (hr : r ∈ t.routesTo p) :
      IsListedSince (calls ++ [.register peer route]) p r i ↔ IsListedSince calls p r i := by
    rw [isListedSince_concat]
    constructor
    · rintro (⟨-, hnew, -⟩ | ⟨hi, -⟩)
      · exact (hnew ((h.mem p r).mp hr)).elim
      · exact hi
    · exact fun hi => .inr ⟨hi, fun hc => nomatch hc⟩
  have horder (p : PeerId) : (t.routesTo p).Pairwise fun r r' =>
      ∀ i j, IsListedSince (calls ++ [.register peer route]) p r i →
        IsListedSince (calls ++ [.register peer route]) p r' j → i < j := by
    refine (h.order p).imp_of_mem fun {r r'} hr hr' hlt i j hi hj => ?_
    exact hlt i j ((hsame hr).mp hi) ((hsame hr').mp hj)
  refine ⟨h.tidy.perform _, fun p => ?_, fun p r => ?_, fun p => ?_⟩
  · rw [routesTo_perform_register]
    split
    · rename_i hnew
      exact List.concat_eq_append ▸ (h.nodup p).concat hnew.2
    · exact h.nodup p
  · rw [routesTo_perform_register, isListed_concat, ← h.mem]
    by_cases hc : p = peer ∧ r = route
    · obtain ⟨rfl, rfl⟩ := hc
      refine iff_of_true ?_ (.inl rfl)
      split
      · exact List.mem_append_right _ (List.mem_singleton_self r)
      · rename_i hold
        exact not_not.mp fun hn => hold ⟨rfl, hn⟩
    · have hother : Call.register peer route ≠ .register p r := fun he => by
        cases he
        exact hc ⟨rfl, rfl⟩
      have hkind : Call.register peer route ≠ .unregister p r := fun he => nomatch he
      rw [or_iff_right hother, and_iff_left hkind]
      split
      · rename_i hnew
        rw [List.mem_append, List.mem_singleton]
        exact or_iff_left fun hr => hc ⟨hnew.1, hr⟩
      · exact Iff.rfl
  · rw [routesTo_perform_register]
    split
    · rename_i hnew
      obtain ⟨rfl, hnew⟩ := hnew
      refine List.pairwise_append.mpr ⟨horder p, List.pairwise_singleton _ _, fun r hr r' hr' => ?_⟩
      obtain rfl := List.mem_singleton.mp hr'
      intro i j hi hj
      obtain ⟨-, -, rfl⟩ | ⟨hj, -⟩ := isListedSince_concat.mp hj
      · exact ((hsame hr).mp hi).lt_length
      -- Otherwise the route would be listed already.
      · exact (hnew ((h.mem p _).mpr hj.isListed)).elim
    · exact horder p

theorem unregister (h : t.Lists calls) (peer : PeerId) (route : κ) :
    (t.perform (.unregister peer route)).Lists (calls ++ [.unregister peer route]) := by
  have hother {p : PeerId} {r : κ} : Call.unregister peer route ≠ .register p r :=
    fun he => nomatch he
  have hsince {p : PeerId} {r : κ} {i : Nat}
      (hi : IsListedSince (calls ++ [.unregister peer route]) p r i) :
      IsListedSince calls p r i := by
    obtain ⟨hc, -⟩ | ⟨hi, -⟩ := isListedSince_concat.mp hi
    · exact (hother hc).elim
    · exact hi
  have horder (p : PeerId) : (t.routesTo p).Pairwise fun r r' =>
      ∀ i j, IsListedSince (calls ++ [.unregister peer route]) p r i →
        IsListedSince (calls ++ [.unregister peer route]) p r' j → i < j :=
    (h.order p).imp fun hlt i j hi hj => hlt i j (hsince hi) (hsince hj)
  have hroutes (p : PeerId) : (t.perform (.unregister peer route)).routesTo p = _ :=
    routesTo_unregister_of_nodup (h.nodup peer) route p
  refine ⟨h.tidy.perform _, fun p => ?_, fun p r => ?_, fun p => ?_⟩
  · rw [hroutes]
    split
    · exact (h.nodup p).filter _
    · exact h.nodup p
  · rw [hroutes, isListed_concat, or_iff_right hother, ← h.mem]
    split
    · rename_i hp
      subst hp
      rw [List.mem_filter, decide_eq_true_eq]
      refine and_congr_right fun _ => not_congr ⟨?_, ?_⟩
      · rintro rfl
        rfl
      · rintro ⟨⟩
        rfl
    · rename_i hp
      refine (and_iff_left ?_).symm
      rintro ⟨⟩
      exact hp rfl
  · rw [hroutes]
    split
    · exact (horder p).filter _
    · exact horder p

theorem perform (h : t.Lists calls) (c : Call κ) : (t.perform c).Lists (calls ++ [c]) := by
  cases c with
  | register peer route => exact h.register peer route
  | unregister peer route => exact h.unregister peer route

theorem run (calls : List (Call κ)) : ((empty : RoutingTable κ).after calls).Lists calls := by
  induction calls using List.reverseRecOn with
  | nil => exact start
  | append_singleton calls c ih =>
    rw [after_concat]
    exact ih.perform c

end Lists

/-- What is listed for a peer are the routes that have been registered for it and not unregistered
since, each once, in the order of the calls since which they are listed; the peers are those for
which something is listed. A route is refused if it is listed, and then the table stays as it is,
although an entry is made for the peer before its routes are looked through; any other one goes to
the end. A route that is unregistered is taken out, if it is listed, and nothing else is. The best
route is the first one of the heaviest. -/
theorem listed_by_calls [Weighted κ] (calls : List (Call κ)) :
    let t := (empty : RoutingTable κ).after calls
    (∀ p, (t.routesTo p).Nodup ∧ (∀ r, r ∈ t.routesTo p ↔ IsListed calls p r) ∧
      (∀ r ∈ t.routesTo p, ∃ i, IsListedSince calls p r i) ∧
      (t.routesTo p).Pairwise fun r r' =>
        ∀ i j, IsListedSince calls p r i → IsListedSince calls p r' j → i < j) ∧
    (t.peers.Nodup ∧ ∀ p, p ∈ t.peers ↔ t.routesTo p ≠ []) ∧
    (∀ p r, (IsListed calls p r →
        t.register p r = .error ⟨r, p⟩ ∧ t.registerEntered p r = (t, some ⟨r, p⟩)) ∧
      (¬ IsListed calls p r → ∃ t',
        t.register p r = .ok t' ∧ t.registerEntered p r = (t', none) ∧
        ∀ q, t'.routesTo q = if q = p then t.routesTo q ++ [r] else t.routesTo q)) ∧
    (∀ p r, t.unregisterAll p r = t.unregister p r ∧
      ((t.unregister p r).2 ↔ IsListed calls p r) ∧
      ∀ q, (t.unregister p r).1.routesTo q =
        if q = p then (t.routesTo q).filter (· ≠ r) else t.routesTo q) ∧
    ∀ p, (t.best p = none ↔ t.routesTo p = []) ∧
      ∀ r, t.best p = some r ↔ IsFirstHeaviest (t.routesTo p) r := by
  intro t
  have h : t.Lists calls := Lists.run calls
  refine ⟨fun p => ⟨h.nodup p, h.mem p, fun r hr => ((h.mem p r).mp hr).exists_since, h.order p⟩,
    ⟨t.routes.nodup, fun p => h.tidy.mem_peers⟩, fun p r => ⟨fun hr => ?_, fun hr => ?_⟩,
    fun p r => ⟨unregisterAll_eq (h.nodup p) r, ?_, ?_⟩,
    fun p => ⟨heaviest_eq_none_iff, fun r => heaviest_eq_some_iff⟩⟩
  · have hmem := (h.mem p r).mpr hr
    exact ⟨register_of_mem hmem, registerEntered_of_mem hmem⟩
  · have hmem := mt (h.mem p r).mp hr
    have hok := register_of_not_mem hmem
    exact ⟨_, hok, registerEntered_of_not_mem hmem, routesTo_register hok⟩
  · rw [← h.mem, snd_unregister]
  · exact routesTo_unregister_of_nodup (h.nodup p) r

def reregistered : List (Call Route) :=
  [.register ⟨2⟩ (.udp ⟨2⟩ 0), .register ⟨2⟩ (.tcp ⟨2⟩ ⟨0, 7⟩), .register ⟨2⟩ (.udp ⟨2⟩ 0),
    .unregister ⟨2⟩ (.udp ⟨2⟩ 0), .register ⟨2⟩ (.udp ⟨2⟩ 0)]

theorem listed_by_calls_reregistered :
    let t := (empty : RoutingTable Route).after reregistered
    t.routesTo ⟨2⟩ = [.tcp ⟨2⟩ ⟨0, 7⟩, .udp ⟨2⟩ 0] ∧
    IsListed reregistered ⟨2⟩ (.udp ⟨2⟩ 0) ∧
    t.registerEntered ⟨2⟩ (.udp ⟨2⟩ 0) = (t, some ⟨.udp ⟨2⟩ 0, ⟨2⟩⟩) ∧
    IsFirstHeaviest (t.routesTo ⟨2⟩) (.tcp ⟨2⟩ ⟨0, 7⟩) := by
  intro t
  obtain ⟨hlisted, -, hregister, -, hbest⟩ := listed_by_calls reregistered
  have hroutes : t.routesTo ⟨2⟩ = [.tcp ⟨2⟩ ⟨0, 7⟩, .udp ⟨2⟩ 0] := by decide +kernel
  have hmem : IsListed reregistered ⟨2⟩ (.udp ⟨2⟩ 0) :=
    ((hlisted ⟨2⟩).2.1 _).mp (hroutes ▸ List.mem_cons_of_mem _ List.mem_cons_self)
  exact ⟨hroutes, hmem, ((hregister ⟨2⟩ _).1 hmem).2, ((hbest ⟨2⟩).2 _).mp (by decide +kernel)⟩

end PeerMesh.RoutingTable

/-
Ranks in a skip list (`zslGetRank`, `zslGetElementByRank`, `t_zset.c`).

Both functions walk down the levels from the highest and look at the place where
each level was left.  `zslGetRank` compares only the member there: a node with
the member and a lower score than the one asked for is taken for the pair if no
node behind it, up to the place of the pair, is as high.

* `zslGetRank_exact_iff` — the pairs whose rank is reported;
* `zslGetElementByRank_spec` — the node of a rank;
* `run_ranks` — both, in every skip list that a run leads to.
-/
import RedisModel.SkiplistQuery

open ByteBuffer SkipChain

namespace Zskiplist

section
variable {S : Type}

/-- The levels from the highest down: after the walk on a level `found` sees where
it has ended and what was counted there, and may end the search. -/
def zslScan {ρ β : Type} (z : Zskiplist S) (cond : ZskiplistNode S → ρ → Bool)
    (add : ρ → BitVec 32 → ρ) (found : Ref → ρ → Option (Option β)) :
    ℕ → Ref → ρ → Option (Option β)
  | 0, _, _ => some none
  | i + 1, x, acc => do
    let place ← walk (z.lev i) (fun y acc => (z.node y).map (cond · acc)) add (z.length + 1) x acc
    let r ← found place.1 place.2
    match r with
    | some r => some (some r)
    | none => zslScan z cond add found i place.1 place.2

/-- The test of `zslGetRank` at the end of a level; the header has no object. -/
def rankFound (z : Zskiplist S) (o : Bytes) (x : Ref) (rank : ℕ) : Option (Option ℕ) :=
  if x = header then some none
  else (z.node x).map fun n => if equalStringObjects n.obj o then some rank else none

/-- `zslGetRank`, with the whole `unsigned long`. -/
def zslGetRankLong [LinearOrder S] (z : Zskiplist S) (score : S) (o : Bytes) : Option ℕ :=
  (zslScan z (fun n _ => decide (n.score < score) ||
      (decide (n.score = score) && compareStringObjects n.obj o != .gt))
    (fun rank span => rank + span.toNat) (rankFound z o) z.level header 0).map (·.getD 0)

/-- `zslGetElementByRank`: the node, or `none` inside for `NULL`. -/
def zslGetElementByRank (z : Zskiplist S) (rank : ℕ) : Option (Option Ref) :=
  zslScan z (fun _ traversed => decide (traversed ≤ rank))
    (fun traversed span => traversed + span.toNat)
    (fun x traversed => some (if traversed = rank then some x else none)) z.level header 0

/-! ### The places where the levels are left -/

/-- The first of some places at which the search ends. -/
def firstFound {ρ β : Type} (found : Ref → ρ → Option (Option β)) :
    List (Ref × ρ) → Option (Option β)
  | [] => some none
  | place :: places => do
    let r ← found place.1 place.2
    match r with
    | some r => some (some r)
    | none => firstFound found places

theorem zslScan_eq {ρ β : Type} {z : Zskiplist S} {cond : ZskiplistNode S → ρ → Bool}
    {add : ρ → BitVec 32 → ρ} (found : Ref → ρ → Option (Option β)) {n : ℕ} :
    ∀ {x : Ref} {acc : ρ} {ends places : List (Ref × ρ)},
    descend z.lev (fun y acc => (z.node y).map (cond · acc)) add (z.length + 1) n x acc ends
      = some places →
    ∃ new, places = new ++ ends ∧ zslScan z cond add found n x acc
      = firstFound found new.reverse := by
  induction n with
  | zero =>
    intro x acc ends places h
    obtain rfl := Option.some_inj.mp h
    exact ⟨[], rfl, rfl⟩
  | succ n ih =>
    intro x acc ends places h
    rw [descend] at h
    obtain ⟨place, hwalk, h⟩ := Option.bind_eq_some_iff.mp h
    obtain ⟨new, rfl, hscan⟩ := ih h
    refine ⟨new ++ [place], by simp, ?_⟩
    rw [zslScan, hwalk, List.reverse_append, List.reverse_singleton, List.singleton_append,
      firstFound, Option.bind_eq_bind, Option.bind_some, hscan]

theorem firstFound_spec {ρ β : Type} (found : Ref → ρ → Option (Option β))
    (places : List (Ref × ρ)) (h : ∀ place ∈ places, ∃ r, found place.1 place.2 = some r) :
    (firstFound found places = some none ∧
      ∀ place ∈ places, found place.1 place.2 = some none) ∨
    ∃ before place behind r, places = before ++ place :: behind ∧
      found place.1 place.2 = some (some r) ∧ firstFound found places = some (some r) ∧
      ∀ q ∈ before, found q.1 q.2 = some none := by
  induction places with
  | nil => exact .inl ⟨rfl, by simp⟩
  | cons place places ih =>
    obtain ⟨r, hr⟩ := h place (by simp)
    cases r with
    | some r =>
      refine .inr ⟨[], place, places, r, rfl, hr, ?_, by simp⟩
      rw [firstFound, hr]
      rfl
    | none =>
      have hstep : firstFound found (place :: places) = firstFound found places := by
        rw [firstFound, hr]
        rfl
      rw [hstep]
      rcases ih (fun q hq => h q (List.mem_cons_of_mem _ hq)) with
        ⟨hnone, hall⟩ | ⟨before, q, behind, r, rfl, hq, hfirst, hbefore⟩
      · refine .inl ⟨hnone, ?_⟩
        intro q hq
        rcases List.mem_cons.mp hq with rfl | hq
        · exact hr
        · exact hall q hq
      · refine .inr ⟨place :: before, q, behind, r, rfl, hq, hfirst, ?_⟩
        intro w hw
        rcases List.mem_cons.mp hw with rfl | hw
        · exact hr
        · exact hbefore w hw

end

section
variable {S : Type} [Zero S] [LinearOrder S] {z : Zskiplist S} {L : List (Tower (S × Bytes))}

omit [Zero S] [LinearOrder S] in
theorem span_add (hbound : L.length < 2 ^ 32) (m n : ℕ) (h : m + n ≤ L.length) :
    m + ((n : BitVec 32)).toNat = m + n := by
  rw [BitVec.natCast_eq_ofNat, BitVec.toNat_ofNat, Nat.mod_eq_of_lt (by omega)]

omit [LinearOrder S] in
/-- The place where level `j` was left: a node of `p`, or the header, that is higher
than `j`, with lower ones behind it. -/
theorem EndsAt.place {p : List (Tower (S × Bytes))} {update : List (Ref × ℕ)}
    (h : EndsAt id 0 (headerTower :: p) update) {j : ℕ} {place : Ref × ℕ}
    (hj : update[j]? = some place) : ∃ a u b, headerTower :: p = a ++ u :: b ∧ j < u.height ∧
      Flat j b ∧ place = (u.ref, a.length) := by
  obtain ⟨k, hk, a, u, b, hsplit, hu, hb, hr, ha⟩ := h j place hj
  rw [Nat.zero_add] at hu hb
  refine ⟨a, u, b, hsplit, hu, hb, ?_⟩
  rw [hr, ha]
  exact Prod.ext rfl hk

omit [LinearOrder S] in
theorem zslSearch_rank (rank : ℕ) (h : Holds z L) (hbound : L.length < 2 ^ 32) :
    ∃ p s update, zslSearch z (fun _ traversed => decide (traversed ≤ rank))
        (fun traversed span => traversed + span.toNat) 0 = some update ∧ L = p ++ s ∧
      update.length = z.level ∧ EndsAt id 0 (headerTower :: p) update ∧
      p.length = min rank L.length := by
  obtain ⟨p, s, update, hsearch, rfl, hlen, hends, hlast, hhead⟩ :=
    zslSearch_spec (fun _ traversed => decide (traversed ≤ rank))
      (fun traversed span => traversed + span.toNat) id (fun _ k => decide (k ≤ rank)) h
      (fun _ _ _ _ => rfl) (fun m n hmn => span_add hbound m n hmn)
  refine ⟨p, s, update, hsearch, rfl, hlen, hends, ?_⟩
  have hle : p.length ≤ rank := by
    rcases List.eq_nil_or_concat p with rfl | ⟨a, u, rfl⟩
    · exact Nat.zero_le _
    · rw [List.concat_eq_append] at hlast ⊢
      exact of_decide_eq_true (hlast a u rfl)
  rw [List.length_append]
  rcases s with _ | ⟨y, t⟩
  · rw [List.length_nil]
    omega
  · have hgt := of_decide_eq_false (hhead y t rfl)
    rw [List.length_cons]
    omega

omit [LinearOrder S] in
theorem zslGetElementByRank_spec {rank : ℕ} (hrank : 1 ≤ rank) (h : Holds z L)
    (hbound : L.length < 2 ^ 32) :
    zslGetElementByRank z rank = some (L[rank - 1]?.map Tower.ref) := by
  obtain ⟨p, s, update, hsearch, rfl, hlen, hends, hp⟩ := zslSearch_rank rank h hbound
  obtain ⟨new, hnew, hscan⟩ := zslScan_eq
    (fun x traversed => some (if traversed = rank then some x else none)) hsearch
  rw [List.append_nil] at hnew
  subst hnew
  rw [zslGetElementByRank, hscan]
  rcases firstFound_spec
      (fun x traversed => some (if traversed = rank then some x else none)) update.reverse
      (fun place _ => ⟨_, rfl⟩) with ⟨hnone, hall⟩ | ⟨before, place, behind, r, hsplit, hr, hfirst, -⟩
  · -- the last place counts all nodes up to the rank
    obtain ⟨a, u, hau, hu⟩ := EndsAt.zero h hends hlen
    have hcount := congrArg List.length hau
    simp only [List.length_cons, List.length_append, List.length_nil] at hcount
    have hlast := hall (u.ref, a.length) (by
      rw [List.mem_reverse]
      exact List.mem_of_getElem? hu)
    have hne : a.length ≠ rank := by
      intro heq
      simp [heq] at hlast
    have hbeyond : (p ++ s).length ≤ rank - 1 := by omega
    rw [hnone, List.getElem?_eq_none hbeyond]
    rfl
  · have hmem : place ∈ update := by
      rw [← List.mem_reverse, hsplit]
      simp
    obtain ⟨j, hj⟩ := List.mem_iff_getElem?.mp hmem
    obtain ⟨a, u, b, hau, -, -, rfl⟩ := EndsAt.place hends hj
    have hcount := congrArg List.length hau
    simp only [List.length_cons, List.length_append] at hcount
    by_cases heq : a.length = rank
    · rw [if_pos heq] at hr
      obtain rfl : u.ref = r := by simpa using hr
      -- the place is in the last node of `p`
      obtain rfl : b = [] := List.eq_nil_of_length_eq_zero (by omega)
      rcases a with _ | ⟨hd, a⟩
      · simp at heq
        omega
      · have hpa : p = a ++ [u] := (List.cons.inj hau).2
        rw [hfirst, hpa]
        rw [List.length_cons] at heq
        rw [← heq]
        simp
    · rw [if_neg heq] at hr
      cases hr

/-! ### Pairs -/

/-- The place of a pair has a node in front of it with the same member and a lower
score, higher than every node from there up to the place. -/
def Shadowed (L : List (Tower (S × Bytes))) (score : S) (o : Bytes) : Prop :=
  ∃ y ∈ L, y.data.2 = o ∧ y.data.1 < score ∧
    ∀ w ∈ L, Precedes y.data w.data →
      Precedes w.data (score, o) ∨ w.data = (score, o) → w.height < y.height

/-- `zslGetRank` returns the position of the pair in the sorted list `D`, counted from
1, and 0 if the pair is not there. -/
def RankExact (z : Zskiplist S) (D : List (S × Bytes)) (score : S) (o : Bytes) : Prop :=
  ∃ k, zslGetRankLong z score o = some k ∧ (∀ i, k = i + 1 ↔ D[i]? = some (score, o)) ∧
    (k = 0 ↔ (score, o) ∉ D)

omit [Zero S] [LinearOrder S] in
theorem last_unique {i : ℕ} {a b a' b' : List (Tower (S × Bytes))} {u u' : Tower (S × Bytes)}
    (h : a ++ u :: b = a' ++ u' :: b') (hu : i < u.height) (hb : Flat i b)
    (hu' : i < u'.height) (hb' : Flat i b') : a = a' ∧ u = u' ∧ b = b' := by
  rcases List.append_eq_append_iff.mp h with ⟨c, rfl, hc⟩ | ⟨c, rfl, hc⟩
  · rcases c with _ | ⟨w, c⟩
    · simp_all
    · obtain ⟨rfl, rfl⟩ := List.cons.inj hc
      exact absurd (hb u' (by simp)) (not_le.mpr hu')
  · rcases c with _ | ⟨w, c⟩
    · simp_all
    · obtain ⟨rfl, rfl⟩ := List.cons.inj hc
      exact absurd (hb' u (by simp)) (not_le.mpr hu)

omit [LinearOrder S] in
theorem rankFound_node (h : Holds z L) {y : Tower (S × Bytes)} (hy : y ∈ L) (o : Bytes) (k : ℕ) :
    rankFound z o y.ref k = some (if y.data.2 = o then some k else none) := by
  obtain ⟨b, hb⟩ := h.node_of_mem hy
  rw [rankFound, if_neg (h.ref_ne_header hy), hb, Option.map_some]
  simp only [equalStringObjects_iff]

omit [LinearOrder S] in
theorem not_mem_of_places [LinearOrder S] {p s : List (Tower (S × Bytes))} {score : S} {o : Bytes}
    {update : List (Ref × ℕ)} (h : Holds z (p ++ s)) (hsort : Ascending (p ++ s))
    (hp : ∀ y ∈ p, Precedes y.data (score, o) ∨ y.data = (score, o))
    (hs : ∀ y ∈ s, ¬(Precedes y.data (score, o) ∨ y.data = (score, o)))
    (hends : EndsAt id 0 (headerTower :: p) update) (hlen : update.length = z.level)
    (hall : ∀ place ∈ update.reverse, rankFound z o place.1 place.2 = some none) :
    (score, o) ∉ (p ++ s).map Tower.data := by
  intro hmem
  obtain ⟨x, hx, hxdata⟩ := List.mem_map.mp hmem
  have hxp : x ∈ p := by
    rcases List.mem_append.mp hx with hx | hx
    · exact hx
    · exact absurd (.inr hxdata) (hs x hx)
  obtain ⟨a, u, hau, hu⟩ := EndsAt.zero h hends hlen
  have hfound := hall (u.ref, a.length) (List.mem_reverse.mpr (List.mem_of_getElem? hu))
  rcases a with _ | ⟨hd, a⟩
  · obtain ⟨-, rfl⟩ := List.cons.inj hau
    cases hxp
  obtain rfl : p = a ++ [u] := (List.cons.inj hau).2
  -- the last node up to the place of the pair is the pair's own
  have hux : u.data = (score, o) := by
    rcases List.mem_append.mp hxp with hxa | hxu
    · have hxu := (List.pairwise_append.mp (List.pairwise_append.mp hsort).1).2.2 x hxa u (by simp)
      rw [hxdata] at hxu
      rcases hp u (by simp) with hlt | heq
      · exact absurd (hxu.trans hlt) (Precedes.irrefl _)
      · exact heq
    · rw [← hxdata, List.mem_singleton.mp hxu]
  rw [rankFound_node h (by simp), if_pos (by rw [hux])] at hfound
  cases hfound

/-- The rank is reported unless the pair is shadowed. -/
theorem zslGetRank_exact_iff (score : S) (o : Bytes) (h : HoldsSorted z L)
    (hbound : L.length < 2 ^ 32) :
    RankExact z (L.map Tower.data) score o ↔ ¬Shadowed L score o := by
  obtain ⟨p, s, update, hsearch, rfl, hlen, hends, hp, hs⟩ :=
    zslSearch_cut (fun n => decide (n.score < score) ||
        (decide (n.score = score) && compareStringObjects n.obj o != .gt))
      (fun rank span => rank + span.toNat) id
      (fun q => decide (q.1 < score) ||
        (decide (q.1 = score) && compareStringObjects q.2 o != .gt)) h (fun _ _ => rfl)
      (fun q q' hqq' hq' => by
        rw [rankBefore_iff] at hq' ⊢
        rcases hq' with hq' | rfl
        · exact Or.inl (hqq'.trans hq')
        · exact Or.inl hqq')
      (fun m n hmn => span_add hbound m n hmn)
  simp only [rankBefore_iff] at hp
  have hs' : ∀ y ∈ s, ¬(Precedes y.data (score, o) ∨ y.data = (score, o)) := by
    intro y hy
    rw [← rankBefore_iff, hs y hy]
    exact Bool.false_ne_true
  obtain ⟨new, hnew, hscan⟩ := zslScan_eq (rankFound z o) hsearch
  rw [List.append_nil] at hnew
  subst hnew
  have hrun : zslGetRankLong z score o
      = (firstFound (rankFound z o) update.reverse).map (·.getD 0) := by
    rw [zslGetRankLong, ← hscan]
    rfl
  -- a shadowing node is the place of its highest level
  have hshadow : ∀ y ∈ p ++ s, y.data.2 = o → y.data.1 < score →
      (∀ w ∈ p ++ s, Precedes y.data w.data →
        Precedes w.data (score, o) ∨ w.data = (score, o) → w.height < y.height) →
      ∃ k, update[y.height - 1]? = some (y.ref, k) := by
    intro y hy hyo hlt hhigh
    have hyp : y ∈ p := by
      rcases List.mem_append.mp hy with hy | hy
      · exact hy
      · exact absurd (.inl (.inl hlt)) (hs' y hy)
    obtain ⟨p₁, p₂, rfl⟩ := List.append_of_mem hyp
    have hheight := h.holds.height y hy
    obtain ⟨a, u, b, hu, hsplit, htall, hflat⟩ :=
      hends.get (j := y.height - 1) (by rw [hlen]; omega)
    have hflat' : Flat (y.height - 1) p₂ := by
      intro w hw
      have hsorted := (List.pairwise_append.mp (List.pairwise_append.mp h.sorted).1).2.1
      have := hhigh w (by simp [hw]) ((List.pairwise_cons.mp hsorted).1 w hw)
        (hp w (by simp [hw]))
      omega
    rw [← List.cons_append] at hsplit
    obtain ⟨-, rfl, -⟩ := last_unique hsplit (by omega) hflat' htall hflat
    exact ⟨_, hu⟩
  have hplace : ∀ place ∈ update, ∃ r, rankFound z o place.1 place.2 = some r := by
    intro place hmem
    obtain ⟨j, hj⟩ := List.mem_iff_getElem?.mp hmem
    obtain ⟨a, u, b, hsplit, -, -, rfl⟩ := EndsAt.place hends hj
    rcases a with _ | ⟨hd, a⟩
    · obtain ⟨rfl, -⟩ := List.cons.inj hsplit
      exact ⟨none, if_pos rfl⟩
    · have hu : u ∈ p ++ s := by simp [(List.cons.inj hsplit).2]
      exact ⟨_, rankFound_node h.holds hu o _⟩
  rcases firstFound_spec (rankFound z o) update.reverse
      (fun place hmem => hplace place (List.mem_reverse.mp hmem)) with
    ⟨hnone, hall⟩ | ⟨before, place, behind, r, hsplit, hr, hfirst, hbefore⟩
  · -- no level ends in a node with the member
    refine iff_of_true ⟨0, by rw [hrun, hnone]; rfl, ?_, ?_⟩ ?_
    · intro i
      refine iff_of_false (by omega) ?_
      intro hi
      exact not_mem_of_places h.holds h.sorted hp hs' hends hlen hall (List.mem_of_getElem? hi)
    · exact iff_of_true rfl (not_mem_of_places h.holds h.sorted hp hs' hends hlen hall)
    · rintro ⟨y, hy, hyo, hlt, hhigh⟩
      obtain ⟨k, hk⟩ := hshadow y hy hyo hlt hhigh
      have hfound := hall (y.ref, k) (List.mem_reverse.mpr (List.mem_of_getElem? hk))
      rw [rankFound_node h.holds hy, if_pos hyo] at hfound
      cases hfound
  · have hupdate : update = behind.reverse ++ place :: before.reverse := by
      have hrev := congrArg List.reverse hsplit
      simpa using hrev
    have hindex : update[behind.length]? = some place := by
      rw [hupdate, List.getElem?_append_right (by rw [List.length_reverse]), List.length_reverse]
      simp
    obtain ⟨a, u, b, hau, htall, hflat, rfl⟩ := EndsAt.place hends hindex
    rcases a with _ | ⟨hd, a⟩
    · obtain ⟨rfl, -⟩ := List.cons.inj hau
      have hheader : rankFound z o header 0 = some none := if_pos rfl
      exact absurd (hheader.symm.trans hr) (by simp)
    obtain rfl : p = a ++ u :: b := (List.cons.inj hau).2
    have hu : u ∈ a ++ u :: b ++ s := by simp
    rw [rankFound_node h.holds hu] at hr
    by_cases huo : u.data.2 = o
    case neg =>
      rw [if_neg huo] at hr
      cases hr
    rw [if_pos huo] at hr
    obtain rfl : a.length + 1 = r := by simpa using hr
    have hget : ((a ++ u :: b ++ s).map Tower.data)[a.length]? = some u.data := by simp
    have hrank : zslGetRankLong z score o = some (a.length + 1) := by
      rw [hrun, hfirst]
      rfl
    have hnodup : ((a ++ u :: b ++ s).map Tower.data).Nodup := by
      refine (ascending_iff.mp h.sorted).imp ?_
      rintro q q' hqq' rfl
      exact Precedes.irrefl _ hqq'
    have hlt : a.length < ((a ++ u :: b ++ s).map Tower.data).length := by simp
    by_cases hdata : u.data = (score, o)
    · -- the pair's own node was found first, so no higher node has the member
      refine iff_of_true ⟨_, hrank, ?_, ?_⟩ ?_
      · intro i
        rw [hdata] at hget
        constructor
        · intro hi
          obtain rfl : a.length = i := by omega
          exact hget
        · intro hi
          rw [(List.getElem?_inj hlt hnodup).mp (hget.trans hi.symm)]
      · refine iff_of_false (by omega) ?_
        rw [not_not, ← hdata]
        exact List.mem_map_of_mem hu
      · rintro ⟨y, hy, hyo, hylt, hhigh⟩
        obtain ⟨k, hk⟩ := hshadow y hy hyo hylt hhigh
        have hyu : Precedes y.data u.data := by
          rw [hdata]
          exact .inl hylt
        have hlow := hhigh u hu hyu (.inr hdata)
        have hbefore' : (y.ref, k) ∈ before := by
          rw [hupdate, List.getElem?_append_right (by rw [List.length_reverse]; omega),
            List.length_reverse] at hk
          obtain ⟨m, hm⟩ : ∃ m, y.height - 1 - behind.length = m + 1 :=
            ⟨y.height - 1 - behind.length - 1, by omega⟩
          rw [hm, List.getElem?_cons_succ] at hk
          exact List.mem_reverse.mp (List.mem_of_getElem? hk)
        have hfound := hbefore _ hbefore'
        rw [rankFound_node h.holds hy, if_pos hyo] at hfound
        cases hfound
    · -- a node of the member with another score was found
      have hulow : u.data.1 < score := by
        rcases hp u (by simp) with (hlt | ⟨heq, -⟩) | heq
        · exact hlt
        · exact absurd (Prod.ext heq huo) hdata
        · exact absurd heq hdata
      refine iff_of_false ?_ ?_
      · rintro ⟨k, hk, hpos, -⟩
        obtain rfl : a.length + 1 = k := Option.some_inj.mp (hrank.symm.trans hk)
        have hpair := (hpos a.length).mp rfl
        rw [hget] at hpair
        exact hdata (Option.some_inj.mp hpair)
      · rw [not_not]
        refine ⟨u, hu, huo, hulow, ?_⟩
        intro w hw huw hwp
        obtain ⟨hsorted, -, -⟩ := List.pairwise_append.mp h.sorted
        rcases List.mem_append.mp hw with hw | hw
        · rcases List.mem_append.mp hw with hwa | hwb
          · have hwu := (List.pairwise_append.mp hsorted).2.2 w hwa u (by simp)
            exact absurd (hwu.trans huw) (Precedes.irrefl _)
          · rcases List.mem_cons.mp hwb with rfl | hwb
            · exact absurd huw (Precedes.irrefl _)
            · exact lt_of_le_of_lt (hflat w hwb) htall
        · exact absurd hwp (hs' w hw)

omit [Zero S] in
theorem not_shadowed_of_unique {x : Tower (S × Bytes)}
    (hunique : ∀ y ∈ L, y.data.2 = x.data.2 → y = x) : ¬Shadowed L x.data.1 x.data.2 := by
  rintro ⟨y, hy, hyo, hlt, -⟩
  obtain rfl := hunique y hy hyo
  exact lt_irrefl _ hlt

theorem rank_inverse {rank : ℕ} {x : Tower (S × Bytes)} (hrank : 1 ≤ rank)
    (hx : L[rank - 1]? = some x) (hunique : ∀ y ∈ L, y.data.2 = x.data.2 → y = x)
    (h : HoldsSorted z L) (hbound : L.length < 2 ^ 32) :
    zslGetElementByRank z rank = some (some x.ref) ∧
      zslGetRankLong z x.data.1 x.data.2 = some rank := by
  constructor
  · rw [zslGetElementByRank_spec hrank h.holds hbound, hx]
    rfl
  · obtain ⟨k, hk, hpos, -⟩ := (zslGetRank_exact_iff x.data.1 x.data.2 h hbound).mpr
      (not_shadowed_of_unique hunique)
    have hindex := (hpos (rank - 1)).mpr (by rw [List.getElem?_map, hx]; rfl)
    rw [hk, hindex, Nat.sub_add_cancel hrank]

/-- In every skip list that a run leads to: the node of each rank is found; the rank of a
pair is reported unless the pair is shadowed; and both undo each other on a node whose
member no other node has. -/
theorem run_ranks (ops : List (Op S))
    (hok : AllSteps (fun z op => Valid z op ∧ Fits z op) (zslCreate : Zskiplist S) ops) :
    ∃ z L, run zslCreate ops = some z ∧ SpecRun [] ops (L.map Tower.data) ∧
      IsSkiplist z (L.map Tower.data) L ∧
      (∀ score o, RankExact z (L.map Tower.data) score o ↔ ¬Shadowed L score o) ∧
      (∀ rank, 1 ≤ rank → zslGetElementByRank z rank = some (L[rank - 1]?.map Tower.ref)) ∧
      ∀ rank x, 1 ≤ rank → L[rank - 1]? = some x → (∀ y ∈ L, y.data.2 = x.data.2 → y = x) →
        zslGetElementByRank z rank = some (some x.ref) ∧
          zslGetRankLong z x.data.1 x.data.2 = some rank := by
  obtain ⟨z, L, hrun, hspec, h, hlength⟩ :=
    run_holds_bounded holdsSorted_zslCreate (Nat.two_pow_pos 32) hok
  have hbound : L.length < 2 ^ 32 := by
    rw [← h.holds.length]
    exact hlength
  refine ⟨z, L, hrun, hspec, h.isSkiplist hlength, ?_, ?_, ?_⟩
  · intro score o
    exact zslGetRank_exact_iff score o h hbound
  · intro rank hrank
    exact zslGetElementByRank_spec hrank h.holds hbound
  · intro rank x hrank hx hunique
    exact rank_inverse hrank hx hunique h hbound

/-- One insertion. -/
theorem run_ranks_insert : ∃ z : Zskiplist ℤ, ∃ L, run zslCreate [.insert 1 1 1 []] = some z ∧
    ∀ score o, RankExact z (L.map Tower.data) score o ↔ ¬Shadowed L score o := by
  obtain ⟨hvalid, -⟩ := step_insert_front (z := zslCreate) (L := []) 1 1
    (1 : ℤ) holdsSorted_zslCreate Nat.one_pos (by decide) (by simp) (by decide) (by simp)
  obtain ⟨z, L, hrun, -, -, hrank, -⟩ := run_ranks [.insert 1 1 (1 : ℤ) []]
    ⟨⟨hvalid, show 0 + 1 < 2 ^ 32 by omega⟩, fun _ _ => trivial⟩
  exact ⟨z, L, hrun, hrank⟩

/-- In the list of the one pair (1, ""), the rank of the pair (5, ""), which is not there, is
reported as 1. -/
theorem run_wrong_rank : ∃ z : Zskiplist ℤ, run zslCreate [.insert 1 1 1 []] = some z ∧
    SpecRun [] [.insert 1 1 1 []] [((1 : ℤ), [])] ∧ zslGetRankLong z 5 [] = some 1 ∧
    ¬RankExact z [(1, [])] 5 [] := by
  refine ⟨_, rfl, ⟨_, ⟨by simp, by simp⟩, rfl⟩, rfl, ?_⟩
  rintro ⟨k, hk, -, habsent⟩
  have hzero := habsent.mpr (by decide)
  subst hzero
  cases hk

end

end Zskiplist

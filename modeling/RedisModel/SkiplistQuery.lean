/-
Ranges of scores and ranks in a skip list.

* `zslFirstInRange_spec`, `zslLastInRange_spec` — the first and the last node in a range;
* `zslGetRank_spec` — the rank of a member, as far as an `unsigned int` counts.
-/
import RedisModel.SkiplistRun

open ByteBuffer SkipChain

namespace Zskiplist

section
variable {S : Type} [LinearOrder S]

/-- The loop of `zslGetRank` where it has left a level: `x->obj` is compared there.  The
header has no object. -/
def rankAt (z : Zskiplist S) (o : Bytes) : List (Ref × BitVec 32) → Option (BitVec 32)
  | [] => some 0
  | (x, rank) :: rest =>
    if x = header then rankAt z o rest
    else do
      let n ← z.node x
      if equalStringObjects n.obj o then some rank else rankAt z o rest

/-- `zslGetRank`, the low half of the `unsigned long`.  The levels below the one where the
member is found are searched too here; the search stays there. -/
def zslGetRank (z : Zskiplist S) (score : S) (o : Bytes) : Option (BitVec 32) := do
  let update ← zslSearch z (fun n _ => decide (n.score < score) ||
    (decide (n.score = score) && compareStringObjects n.obj o != .gt)) (· + ·) 0
  rankAt z o update.reverse

end

section
variable {S : Type} [Zero S] [LinearOrder S] {z : Zskiplist S} {L p s : List (Tower (S × Bytes))}

theorem zslSearch_cut {ρ : Type} (before : ZskiplistNode S → Bool) (add : ρ → BitVec 32 → ρ)
    (f : ℕ → ρ) (C : S × Bytes → Bool) (h : HoldsSorted z L)
    (hcond : ∀ q b, before ⟨q.2, q.1, b⟩ = C q)
    (hdown : ∀ q q', Precedes q q' → C q' = true → C q = true)
    (hadd : ∀ m n, m + n ≤ L.length → add (f m) (n : BitVec 32) = f (m + n)) :
    ∃ p s update, zslSearch z (fun n _ => before n) add (f 0) = some update ∧ L = p ++ s ∧
      update.length = z.level ∧ EndsAt f 0 (headerTower :: p) update ∧
      (∀ y ∈ p, C y.data = true) ∧ ∀ y ∈ s, C y.data = false := by
  obtain ⟨p, s, update, hsearch, rfl, hlen, hends, hlast, hhead⟩ :=
    zslSearch_spec (fun n _ => before n) add f (fun y _ => C y.data) h.holds
      (fun y _ b _ => hcond y.data b) hadd
  obtain ⟨hp, hs⟩ := cut_of_pairwise (P := fun y => C y.data = true) h.sorted
    (fun x y hxy hy => hdown x.data y.data hxy hy) hlast
    (fun y t hyt hy => by
      have := hhead y t hyt
      rw [hy] at this
      exact absurd this (by simp))
  exact ⟨p, s, update, hsearch, rfl, hlen, hends, hp, fun y hy => by simpa using hs y hy⟩

/-! ### The ends of the list -/

omit [LinearOrder S] in
theorem Holds.first (h : Holds z L) :
    ∃ l, z.lev 0 header = some l ∧ l.forward = L.head?.map Tower.ref := by
  have hlinked := h.linked 0 h.level_pos
  refine ⟨_, hlinked.1 (Nat.zero_lt_succ _), ?_⟩
  cases L with
  | nil => rfl
  | cons y t =>
    have hy : 0 < y.height := (h.height y List.mem_cons_self).1
    exact nextRef_cons_tall hy

omit [LinearOrder S] in
theorem Holds.forward {a t : List (Tower (S × Bytes))} {x : Tower (S × Bytes)}
    (h : Holds z (a ++ x :: t)) :
    ∃ l, z.lev 0 x.ref = some l ∧ l.forward = t.head?.map Tower.ref := by
  have hx : 0 < x.height := (h.height x (by simp)).1
  have hlinked := h.linked 0 h.level_pos
  rw [← List.cons_append] at hlinked
  refine ⟨_, hlinked.get hx, ?_⟩
  cases t with
  | nil => rfl
  | cons y t =>
    have hy : 0 < y.height := (h.height y (by simp)).1
    exact nextRef_cons_tall hy

theorem lastRef_eq {α : Type} (s : List (Tower α)) : lastRef none s = s.getLast?.map Tower.ref := by
  rcases List.eq_nil_or_concat s with rfl | ⟨a, u, rfl⟩
  · rfl
  · rw [List.concat_eq_append, lastRef_append, List.getLast?_concat]
    rfl

omit [LinearOrder S] in
theorem Holds.node_head {y : Tower (S × Bytes)} {t : List (Tower (S × Bytes))}
    (h : Holds z (y :: t)) : z.node y.ref = some ⟨y.data.2, y.data.1, none⟩ :=
  h.nodes.1

/-! ### Ranges -/

/-- No node is in a range if `zslIsInRange` says so; otherwise the last one is not below and
the first one not above. -/
theorem zslIsInRange_spec (range : Zrangespec S) (h : HoldsSorted z L) :
    ∃ b, zslIsInRange z range = some b ∧
      (b = false → ∀ y ∈ L, inRange range y.data = false) ∧
      (b = true → (∃ y ∈ L, zslValueGteMin y.data.1 range = true) ∧
        ∃ y ∈ L, zslValueLteMax y.data.1 range = true) := by
  unfold zslIsInRange
  split
  · rename_i hempty
    refine ⟨false, rfl, fun _ y _ => ?_, fun hb => absurd hb Bool.false_ne_true⟩
    rw [Bool.eq_false_iff]
    intro hin
    obtain ⟨hmin, hmax⟩ := Bool.and_eq_true_iff.mp hin
    unfold zslValueGteMin at hmin
    unfold zslValueLteMax at hmax
    rcases hempty with hgt | ⟨heq, hex⟩
    · split_ifs at hmin hmax <;> simp only [decide_eq_true_eq] at hmin hmax
      · exact absurd (hmin.trans hmax) hgt.not_gt
      · exact absurd (hmin.trans_le hmax) hgt.not_gt
      · exact absurd (hmin.trans_lt hmax) hgt.not_gt
      · exact absurd (hmin.trans hmax) hgt.not_ge
    · rw [← heq] at hmax
      split_ifs at hmin hmax with h₁ h₂ h₂ <;> simp only [decide_eq_true_eq] at hmin hmax
      · exact absurd hmin hmax.not_gt
      · exact absurd hmin hmax.not_gt
      · exact absurd hmax hmin.not_gt
      · rcases hex with hex | hex
        · exact h₁ hex
        · exact h₂ hex
  · rw [h.holds.tail, lastRef_eq]
    rcases List.eq_nil_or_concat L with rfl | ⟨a, u, rfl⟩
    · exact ⟨false, rfl, fun _ y hy => absurd hy List.not_mem_nil, fun hb => absurd hb Bool.false_ne_true⟩
    · rw [List.concat_eq_append] at h ⊢
      have hu : u ∈ a ++ [u] := by simp
      rw [List.getLast?_concat]
      obtain ⟨b, hb⟩ := h.holds.node_of_mem hu
      simp only [Option.map_some, hb, Option.bind_eq_bind, Option.bind_some]
      split
      · rename_i hlow
        refine ⟨false, rfl, fun _ y hy => ?_, fun hb => absurd hb Bool.false_ne_true⟩
        -- the last node is below the range, and so are the others
        have hy' : zslValueGteMin y.data.1 range = false := by
          rw [Bool.eq_false_iff]
          intro hmin
          have hle : y.data.1 ≤ u.data.1 := by
            rcases List.mem_append.mp hy with hy | hy
            · exact ((List.pairwise_append.mp h.sorted).2.2 y hy u (by simp)).score_le
            · rw [List.mem_singleton.mp hy]
          rw [zslValueGteMin_mono hle hmin] at hlow
          exact absurd hlow (by simp)
        simp [inRange, hy']
      · rename_i hhigh
        obtain ⟨l, hl, hforward⟩ := h.holds.first
        rw [hl]
        simp only [Option.bind_some, hforward]
        cases hL : a ++ [u] with
        | nil => simp at hL
        | cons y t =>
          rw [hL] at h
          simp only [List.head?_cons, Option.map_some, h.holds.node_head, Option.bind_some]
          refine ⟨_, rfl, fun hfalse w hw => ?_, fun htrue => ⟨⟨u, hL ▸ hu, ?_⟩, y, by simp, htrue⟩⟩
          · have hw' : zslValueLteMax w.data.1 range = false := by
              rw [Bool.eq_false_iff]
              intro hmax
              have hle : y.data.1 ≤ w.data.1 := by
                rcases List.mem_cons.mp hw with rfl | hw
                · exact le_rfl
                · exact ((List.pairwise_cons.mp h.sorted).1 w hw).score_le
              rw [zslValueLteMax_mono hle hmax] at hfalse
              exact absurd hfalse (by simp)
            simp [inRange, hw']
          · simpa using hhigh

omit [Zero S] in
theorem filter_inRange_cut (range : Zrangespec S) (hp : ∀ y ∈ p, zslValueGteMin y.data.1 range = false)
    (hs : ∀ y ∈ s, zslValueGteMin y.data.1 range = true) :
    (p ++ s).filter (fun y => inRange range y.data)
      = s.filter fun y => zslValueLteMax y.data.1 range := by
  rw [List.filter_append, List.filter_eq_nil_iff.mpr fun y hy => by simp [inRange, hp y hy],
    List.nil_append]
  exact List.filter_congr fun y hy => by simp [inRange, hs y hy]

theorem zslFirstInRange_spec (range : Zrangespec S) (h : HoldsSorted z L) :
    zslFirstInRange z range
      = some ((L.filter fun y => inRange range y.data).head?.map Tower.ref) := by
  obtain ⟨b, hb, hnone, hsome⟩ := zslIsInRange_spec range h
  unfold zslFirstInRange
  simp only [hb, Option.bind_eq_bind, Option.bind_some]
  cases b with
  | false =>
    rw [List.filter_eq_nil_iff.mpr fun y hy => by simp [hnone rfl y hy]]
    rfl
  | true =>
    obtain ⟨⟨w, hw, hmin⟩, -⟩ := hsome rfl
    obtain ⟨p, s, update, hsearch, rfl, hlen, hends, hp, hs⟩ :=
      zslSearch_cut (fun n => !zslValueGteMin n.score range) (fun u _ => u) (fun _ => ())
        (fun q => !zslValueGteMin q.1 range) h (fun _ _ => rfl)
        (fun q q' hqq' hq' => by
          rw [Bool.not_eq_true'] at hq' ⊢
          rw [Bool.eq_false_iff] at hq' ⊢
          exact fun hq => hq' (zslValueGteMin_mono hqq'.score_le hq))
        (fun _ _ _ => rfl)
    obtain ⟨hnext, -⟩ := nextNode_spec h.holds hends hlen
    have hp' : ∀ y ∈ p, zslValueGteMin y.data.1 range = false := fun y hy => by simpa using hp y hy
    have hs' : ∀ y ∈ s, zslValueGteMin y.data.1 range = true := fun y hy => by simpa using hs y hy
    rw [filter_inRange_cut range hp' hs']
    cases s with
    | nil =>
      rw [List.append_nil] at hw
      rw [hp' w hw] at hmin
      exact absurd hmin (by simp)
    | cons y t =>
      have hy : 0 < y.height := (h.holds.height y (by simp)).1
      rw [nextRef_cons_tall hy] at hnext
      simp only [if_true, hsearch, hnext, h.holds.nodes.get, Option.bind_some]
      cases hmax : zslValueLteMax y.data.1 range with
      | true =>
        rw [List.filter_cons, if_pos hmax]
        rfl
      | false =>
        have hnil : (y :: t).filter (fun y => zslValueLteMax y.data.1 range) = [] := by
          rw [List.filter_eq_nil_iff]
          intro w hw hwmax
          have hle : y.data.1 ≤ w.data.1 := by
            rcases List.mem_cons.mp hw with rfl | hw
            · exact le_rfl
            · have hsorted := (List.pairwise_append.mp h.sorted).2.1
              exact ((List.pairwise_cons.mp hsorted).1 w hw).score_le
          rw [zslValueLteMax_mono hle hwmax] at hmax
          exact absurd hmax (by simp)
        rw [hnil]
        rfl

omit [LinearOrder S] in
theorem EndsAt.zero {ρ : Type} {f : ℕ → ρ} {update : List (Ref × ρ)} (h : Holds z (p ++ s))
    (hends : EndsAt f 0 (headerTower :: p) update) (hlen : update.length = z.level) :
    ∃ a u, headerTower :: p = a ++ [u] ∧ update[0]? = some (u.ref, f a.length) := by
  obtain ⟨a, u, b, hu, hsplit, htall, hflat⟩ := hends.get (j := 0) (by rw [hlen]; exact h.level_pos)
  have hpos : ∀ y ∈ headerTower :: p, 0 < y.height := by
    intro y hy
    rcases List.mem_cons.mp hy with rfl | hy
    · exact Nat.zero_lt_succ _
    · exact (h.height y (by simp [hy])).1
  obtain ⟨a', u', hsplit', hr, hk⟩ :=
    IsLast.zero (r := u.ref) (k := a.length) ⟨a, u, b, hsplit, htall, hflat, rfl, rfl⟩ hpos
  exact ⟨a', u', hsplit', by rw [hr, hk]; exact hu⟩

theorem zslLastInRange_spec (range : Zrangespec S) (h : HoldsSorted z L) :
    zslLastInRange z range
      = some ((L.filter fun y => inRange range y.data).getLast?.map Tower.ref) := by
  obtain ⟨b, hb, hnone, hsome⟩ := zslIsInRange_spec range h
  unfold zslLastInRange
  simp only [hb, Option.bind_eq_bind, Option.bind_some]
  cases b with
  | false =>
    rw [List.filter_eq_nil_iff.mpr fun y hy => by simp [hnone rfl y hy]]
    rfl
  | true =>
    obtain ⟨-, w, hw, hmax⟩ := hsome rfl
    obtain ⟨p, s, update, hsearch, rfl, hlen, hends, hp, hs⟩ :=
      zslSearch_cut (fun n => zslValueLteMax n.score range) (fun u _ => u) (fun _ => ())
        (fun q => zslValueLteMax q.1 range) h (fun _ _ => rfl)
        (fun q q' hqq' hq' => zslValueLteMax_mono hqq'.score_le hq') (fun _ _ _ => rfl)
    have hfilter : (p ++ s).filter (fun y => inRange range y.data)
        = p.filter fun y => zslValueGteMin y.data.1 range := by
      rw [List.filter_append, List.filter_eq_nil_iff (l := s) |>.mpr
        fun y hy => by simp [inRange, hs y hy], List.append_nil]
      exact List.filter_congr fun y hy => by simp [inRange, hp y hy]
    obtain ⟨a, u, hsplit, hu⟩ := EndsAt.zero h.holds hends hlen
    rw [hfilter]
    cases a with
    | nil =>
      -- no node is up to the upper end
      obtain ⟨-, rfl⟩ := List.cons.inj hsplit
      rw [List.nil_append] at hw
      rw [hs w hw] at hmax
      exact absurd hmax (by simp)
    | cons hd a =>
      obtain rfl : p = a ++ [u] := (List.cons.inj hsplit).2
      have hmem : u ∈ a ++ [u] ++ s := by simp
      obtain ⟨b, hb⟩ := h.holds.node_of_mem hmem
      simp only [if_true, hsearch, hu, hb, Option.bind_some]
      cases hmin : zslValueGteMin u.data.1 range with
      | true =>
        rw [List.filter_append, List.filter_cons, if_pos hmin, List.filter_nil,
          List.getLast?_concat]
        rfl
      | false =>
        have hnil : (a ++ [u]).filter (fun y => zslValueGteMin y.data.1 range) = [] := by
          rw [List.filter_eq_nil_iff]
          intro y hy hymin
          have hle : y.data.1 ≤ u.data.1 := by
            have hsorted := (List.pairwise_append.mp h.sorted).1
            rcases List.mem_append.mp hy with hy | hy
            · exact ((List.pairwise_append.mp hsorted).2.2 y hy u (by simp)).score_le
            · rw [List.mem_singleton.mp hy]
          rw [zslValueGteMin_mono hle hymin] at hmin
          exact absurd hmin (by simp)
        rw [hnil]
        rfl

/-! ### Ranks -/

omit [LinearOrder S] in
theorem rankAt_spec [LinearOrder S] {x : Tower (S × Bytes)} {k : ℕ} {places : List (Ref × BitVec 32)}
    (h : Holds z L) (hunique : ∀ y ∈ L, y.data.2 = x.data.2 → y = x)
    (hplaces : ∀ place ∈ places, place.1 = header ∨
      ∃ y ∈ L, place.1 = y.ref ∧ (y = x → place.2 = rank32 k))
    (hx : ∃ place ∈ places, place.1 = x.ref) (hmem : x ∈ L) :
    rankAt z x.data.2 places = some (rank32 k) := by
  induction places with
  | nil => simp at hx
  | cons place places ih =>
    obtain ⟨r, rank⟩ := place
    have hrest := ih fun place hp => hplaces place (List.mem_cons_of_mem _ hp)
    obtain ⟨place, hplace, hat⟩ := hx
    have hxheader := h.ref_ne_header hmem
    simp only [rankAt]
    split
    · rename_i hheader
      rcases List.mem_cons.mp hplace with rfl | hplace
      · exact absurd (hat.symm.trans hheader) hxheader
      · exact hrest ⟨place, hplace, hat⟩
    · rename_i hne
      obtain ⟨y, hy, hyr, hrank⟩ := (hplaces (r, rank) List.mem_cons_self).resolve_left hne
      obtain ⟨b, hb⟩ := h.node_of_mem hy
      simp only at hyr
      rw [hyr, hb]
      simp only [Option.bind_eq_bind, Option.bind_some]
      split
      · rename_i heq
        rw [← hrank (hunique y hy (equalStringObjects_iff.mp heq))]
      · rename_i hdiff
        rcases List.mem_cons.mp hplace with rfl | hplace
        · -- the address of `x` is that of `y`
          have hxy : x = y := by
            have hnd := (List.nodup_cons.mp h.nodup).2
            exact List.inj_on_of_nodup_map hnd hmem hy (hat.symm.trans hyr)
          exact absurd (equalStringObjects_iff.mpr (by rw [hxy])) hdiff
        · exact hrest ⟨place, hplace, hat⟩

omit [Zero S] in
theorem rankBefore_iff {score : S} {o : Bytes} {q : S × Bytes} :
    (decide (q.1 < score) || (decide (q.1 = score) && compareStringObjects q.2 o != .gt)) = true ↔
      Precedes q (score, o) ∨ q = (score, o) := by
  rw [Bool.or_eq_true, Bool.and_eq_true, decide_eq_true_eq, decide_eq_true_eq, bne_iff_ne]
  constructor
  · rintro (hlt | ⟨heq, hcmp⟩)
    · exact Or.inl (Or.inl hlt)
    · cases h : compareStringObjects q.2 o with
      | lt => exact Or.inl (Or.inr ⟨heq, compareStringObjects_eq_lt.mp h⟩)
      | eq => exact Or.inr (Prod.ext heq (compareStringObjects_eq_eq.mp h))
      | gt => exact absurd h hcmp
  · rintro ((hlt | ⟨heq, hlt⟩) | rfl)
    · exact Or.inl hlt
    · exact Or.inr ⟨heq, by rw [compareStringObjects_eq_lt.mpr hlt]; simp⟩
    · exact Or.inr ⟨rfl, by rw [compareStringObjects_eq_eq.mpr rfl]; simp⟩

theorem zslGetRank_spec {a t : List (Tower (S × Bytes))} {x : Tower (S × Bytes)}
    (h : HoldsSorted z (a ++ x :: t))
    (hunique : ∀ y ∈ a ++ x :: t, y.data.2 = x.data.2 → y = x) :
    zslGetRank z x.data.1 x.data.2 = some (rank32 (a.length + 1)) := by
  obtain ⟨p, s, update, hsearch, hL, hlen, hends, hp, hs⟩ :=
    zslSearch_cut (fun n => decide (n.score < x.data.1) ||
        (decide (n.score = x.data.1) && compareStringObjects n.obj x.data.2 != .gt)) (· + ·) rank32
      (fun q => decide (q.1 < x.data.1) ||
        (decide (q.1 = x.data.1) && compareStringObjects q.2 x.data.2 != .gt)) h (fun _ _ => rfl)
      (fun q q' hqq' hq' => by
        rw [rankBefore_iff] at hq' ⊢
        rcases hq' with hq' | rfl
        · exact Or.inl (hqq'.trans hq')
        · exact Or.inl hqq')
      (fun m n _ => (Nat.cast_add m n).symm)
  -- the search ends behind `x`
  have hpa : p = a ++ [x] := by
    obtain ⟨-, hxt, hax⟩ := List.pairwise_append.mp h.sorted
    have hcut := congrArg (List.filter fun y => decide (y.data.1 < x.data.1) ||
      (decide (y.data.1 = x.data.1) && compareStringObjects y.data.2 x.data.2 != .gt)) hL
    have ha : ∀ y ∈ a ++ [x], (decide (y.data.1 < x.data.1) ||
        (decide (y.data.1 = x.data.1) && compareStringObjects y.data.2 x.data.2 != .gt)) = true := by
      intro y hy
      rw [rankBefore_iff]
      rcases List.mem_append.mp hy with hy | hy
      · exact Or.inl (hax y hy x List.mem_cons_self)
      · rw [List.mem_singleton.mp hy]
        exact Or.inr rfl
    have ht : ∀ y ∈ t, ¬ (decide (y.data.1 < x.data.1) ||
        (decide (y.data.1 = x.data.1) && compareStringObjects y.data.2 x.data.2 != .gt)) = true := by
      intro y hy
      rw [rankBefore_iff]
      have hxy := (List.pairwise_cons.mp hxt).1 y hy
      rintro (hyx | heq)
      · exact Precedes.irrefl _ (hxy.trans hyx)
      · exact Precedes.irrefl _ (heq ▸ hxy)
    have hcons : a ++ x :: t = (a ++ [x]) ++ t := by simp
    rw [hcons, List.filter_append (a ++ [x]), List.filter_append p, List.filter_eq_self.mpr ha,
      List.filter_eq_nil_iff.mpr ht, List.filter_eq_self.mpr hp,
      List.filter_eq_nil_iff.mpr fun y hy => by simp [hs y hy], List.append_nil,
      List.append_nil] at hcut
    exact hcut.symm
  subst hpa
  have hplaces : ∀ place ∈ update, place.1 = header ∨
      ∃ y ∈ a ++ x :: t, place.1 = y.ref ∧ (y = x → place.2 = rank32 (a.length + 1)) := by
    intro place hplace
    obtain ⟨j, hj⟩ := List.mem_iff_getElem?.mp hplace
    obtain ⟨k, hk, b, u, c, hsplit, -, -, hr, hbk⟩ := hends j place hj
    cases b with
    | nil =>
      obtain ⟨hu, -⟩ := List.cons.inj hsplit
      exact Or.inl (by rw [← hr, ← hu]; rfl)
    | cons hd b =>
      have hax : a ++ [x] = b ++ u :: c := (List.cons.inj hsplit).2
      have hu : u ∈ a ++ [x] := by simp [hax]
      refine Or.inr ⟨u, ?_, hr.symm, ?_⟩
      · rcases List.mem_append.mp hu with hu | hu
        · exact List.mem_append_left _ hu
        · rw [List.mem_singleton.mp hu]
          simp
      · rintro rfl
        -- `x` is only at the end of the list
        have hnd : (b ++ u :: c).Nodup := by
          rw [← hax]
          have hnodup := (List.nodup_cons.mp h.holds.nodup).2
          rw [show a ++ u :: t = a ++ [u] ++ t by simp, List.map_append] at hnodup
          exact (List.nodup_append.mp hnodup).1.of_map _
        rcases List.eq_nil_or_concat c with rfl | ⟨c, w, rfl⟩
        · obtain ⟨rfl, -⟩ := List.append_inj' hax rfl
          rw [hk, ← hbk, List.length_cons]
        · rw [List.concat_eq_append, ← List.cons_append, ← List.append_assoc] at hax
          have hw : u = w := by simpa using (List.append_inj' hax rfl).2
          rw [hw, List.concat_eq_append] at hnd
          have hcons := (List.nodup_append.mp hnd).2.1
          exact absurd (by simp) (List.nodup_cons.mp hcons).1
  have hL' : a ++ x :: t = a ++ [x] ++ t := by simp
  have hx : ∃ place ∈ update, place.1 = x.ref := by
    obtain ⟨b, u, hsplit, hu⟩ := EndsAt.zero (s := t) (hL' ▸ h.holds) hends hlen
    have hux : x = u := by
      rw [← List.cons_append] at hsplit
      simpa using (List.append_inj' hsplit rfl).2
    exact ⟨(u.ref, _), List.mem_of_getElem? hu, by rw [hux]⟩
  have hstart : (rank32 0 : BitVec 32) = 0 := by simp [rank32]
  rw [hstart] at hsearch
  simp only [zslGetRank, hsearch, Option.bind_eq_bind, Option.bind_some]
  exact rankAt_spec h.holds hunique (fun place hp => hplaces place (List.mem_reverse.mp hp))
    (by simpa using hx) (by simp)

end

end Zskiplist

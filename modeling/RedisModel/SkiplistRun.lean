/-
Runs of operations on a skip list.

* `zslInsert_spec`, `zslDelete_spec`, `zslDeleteRange_spec` — one operation;
* `step_holds` — one operation on the sorted list of live pairs;
* `run_refines_sorted_list` — after any sequence of insertions of absent pairs and
  of deletions, the skip list holds the sorted list of live pairs: forward
  pointers, spans, backward pointers, tail, length and level;
* `run_spans` — the spans of the header are not kept in the levels that are not in
  use, and no span counts `2 ^ 32` steps.
-/
import RedisModel.SkiplistRefine

open ByteBuffer SkipChain

namespace Zskiplist

/-! ### The order of the pairs -/

section
variable {S : Type} [LinearOrder S]

/-- The order of the nodes: by score, then by member. -/
def Precedes (a b : S × Bytes) : Prop := a.1 < b.1 ∨ a.1 = b.1 ∧ a.2 < b.2

theorem zslBefore_iff {score : S} {obj : Bytes} {n : ZskiplistNode S} :
    zslBefore score obj n = true ↔ Precedes (n.score, n.obj) (score, obj) := by
  simp only [zslBefore, Precedes, Bool.or_eq_true, Bool.and_eq_true, decide_eq_true_eq,
    beq_iff_eq, compareStringObjects_eq_lt]

theorem bytes_lt_irrefl (a : Bytes) : ¬ a < a := by
  rw [← compareStringObjects_eq_lt, compareStringObjects_eq_eq.mpr rfl]
  simp

theorem bytes_lt_trans {a b c : Bytes} (hab : a < b) (hbc : b < c) : a < c :=
  List.lt_trans hab hbc

theorem bytes_lt_trichotomy (a b : Bytes) : a < b ∨ a = b ∨ b < a := by
  have hswap := compareStringObjects_swap a b
  cases h : compareStringObjects a b with
  | lt => exact Or.inl (compareStringObjects_eq_lt.mp h)
  | eq => exact Or.inr (Or.inl (compareStringObjects_eq_eq.mp h))
  | gt =>
    rw [h] at hswap
    exact Or.inr (Or.inr (compareStringObjects_eq_lt.mp hswap))

theorem Precedes.irrefl (a : S × Bytes) : ¬ Precedes a a := by
  rintro (h | ⟨-, h⟩)
  · exact lt_irrefl _ h
  · exact bytes_lt_irrefl _ h

theorem Precedes.trans {a b c : S × Bytes} (hab : Precedes a b) (hbc : Precedes b c) :
    Precedes a c := by
  rcases hab with hab | ⟨hab, hab'⟩ <;> rcases hbc with hbc | ⟨hbc, hbc'⟩
  · exact Or.inl (hab.trans hbc)
  · exact Or.inl (hbc ▸ hab)
  · exact Or.inl (hab ▸ hbc)
  · exact Or.inr ⟨hab.trans hbc, bytes_lt_trans hab' hbc'⟩

theorem Precedes.trichotomy (a b : S × Bytes) : Precedes a b ∨ a = b ∨ Precedes b a := by
  rcases lt_trichotomy a.1 b.1 with h | h | h
  · exact Or.inl (Or.inl h)
  · rcases bytes_lt_trichotomy a.2 b.2 with h' | h' | h'
    · exact Or.inl (Or.inr ⟨h, h'⟩)
    · exact Or.inr (Or.inl (Prod.ext h h'))
    · exact Or.inr (Or.inr (Or.inr ⟨h.symm, h'⟩))
  · exact Or.inr (Or.inr (Or.inl h))

theorem Precedes.score_le {a b : S × Bytes} (h : Precedes a b) : a.1 ≤ b.1 := by
  rcases h with h | ⟨h, -⟩
  · exact h.le
  · exact h.le

end

/-- In an ordered list cut where a condition stops to hold, the condition holds before
the cut and not behind it. -/
theorem cut_of_pairwise {α : Type} {r : α → α → Prop} {P : α → Prop} {p s : List α}
    (hr : (p ++ s).Pairwise r) (hdown : ∀ x y, r x y → P y → P x)
    (hlast : ∀ a u, p = a ++ [u] → P u) (hhead : ∀ y t, s = y :: t → ¬ P y) :
    (∀ x ∈ p, P x) ∧ ∀ y ∈ s, ¬ P y := by
  obtain ⟨hp, hs, -⟩ := List.pairwise_append.mp hr
  constructor
  · intro x hx
    rcases List.eq_nil_or_concat p with rfl | ⟨a, u, rfl⟩
    · simp at hx
    · rw [List.concat_eq_append] at hp hx hlast
      rcases List.mem_append.mp hx with ha | hu
      · exact hdown x u ((List.pairwise_append.mp hp).2.2 x ha u (by simp)) (hlast a u rfl)
      · obtain rfl := List.mem_singleton.mp hu
        exact hlast a x rfl
  · intro y hy hPy
    rcases s with _ | ⟨y₀, t⟩
    · simp at hy
    · rcases List.mem_cons.mp hy with rfl | ht
      · exact hhead y t rfl hPy
      · exact hhead y₀ t rfl (hdown y₀ y ((List.pairwise_cons.mp hs).1 y ht) hPy)

/-! ### The operations -/

section
variable {S : Type} [Zero S] [LinearOrder S] {z : Zskiplist S} {L : List (Tower (S × Bytes))}

/-- The pairs of the nodes are in increasing order. -/
def Ascending (L : List (Tower (S × Bytes))) : Prop := L.Pairwise fun x y => Precedes x.data y.data

theorem zslInsert_spec {x level : ℕ} {score : S} {obj : Bytes} (h : Holds z L)
    (htop : TopLevel z L) (hsort : Ascending L) (hnew : ∀ y ∈ L, y.data ≠ (score, obj))
    (hlevel : 0 < level) (hmax : level ≤ zskiplistMaxlevel)
    (hfresh : x ∉ (headerTower :: L).map Tower.ref) :
    ∃ z' p s, zslInsert z x level score obj = some z' ∧ L = p ++ s ∧
      Holds z' (p ++ ⟨x, level, (score, obj)⟩ :: s) ∧
      TopLevel z' (p ++ ⟨x, level, (score, obj)⟩ :: s) ∧
      (∀ y ∈ p, Precedes y.data (score, obj)) ∧ ∀ y ∈ s, Precedes (score, obj) y.data := by
  obtain ⟨p, s, update, hsearch, rfl, hlen, hends, hlast, hhead⟩ :=
    zslSearch_spec (fun n _ => zslBefore score obj n) (· + ·) rank32
      (fun y _ => zslBefore score obj ⟨y.data.2, y.data.1, none⟩) h (fun _ _ _ _ => rfl)
      (fun m n _ => (Nat.cast_add m n).symm)
  obtain ⟨z₁, update₁, hopen, h₁, hends₁, hlen₁, hlevel₁, -⟩ :=
    zslOpenLevels_spec h hends hlen hmax
  obtain ⟨z', hlink, h', hlevel'⟩ := zslLinkNode_spec (x := ⟨x, level, (score, obj)⟩) h₁ hends₁
    hlen₁ hlevel (by rw [hlevel₁]; exact le_max_right _ _) hfresh
  obtain ⟨hp, hs⟩ := cut_of_pairwise (P := fun y => Precedes y.data (score, obj)) hsort
    (fun _ _ hxy hy => hxy.trans hy)
    (fun a u hau => zslBefore_iff.mp (hlast a u hau))
    (fun y t hyt hy => by
      have := hhead y t hyt
      rw [zslBefore_iff.mpr hy] at this
      exact absurd this (by simp))
  refine ⟨z', p, s, ?_, rfl, h', ?_, hp, fun y hy => ?_⟩
  · have hstart : (rank32 0 : BitVec 32) = 0 := by simp [rank32]
    rw [hstart] at hsearch
    simp only [zslInsert, hsearch, hopen, Option.bind_eq_bind, Option.bind_some]
    exact hlink
  · rcases le_total z.level level with hle | hle
    · exact Or.inr ⟨⟨x, level, (score, obj)⟩, by simp, by rw [hlevel', hlevel₁, max_eq_right hle]⟩
    · rcases htop with htop | ⟨y, hy, htop⟩
      · exact Or.inl (by rw [hlevel', hlevel₁, max_eq_left hle, htop])
      · refine Or.inr ⟨y, ?_, by rw [hlevel', hlevel₁, max_eq_left hle, htop]⟩
        rw [List.mem_append] at hy
        rw [List.mem_append, List.mem_cons]
        tauto
  · rcases Precedes.trichotomy y.data (score, obj) with hlt | heq | hgt
    · exact absurd hlt (hs y hy)
    · exact absurd heq (hnew y (by simp [hy]))
    · exact hgt

omit [LinearOrder S] in
theorem nextNode_spec {ρ : Type} {f : ℕ → ρ} {update : List (Ref × ρ)}
    {p s : List (Tower (S × Bytes))} (h : Holds z (p ++ s))
    (hends : EndsAt f 0 (headerTower :: p) update) (hlen : update.length = z.level) :
    nextNode z update = some (nextRef 0 s) ∧ ∃ r, update[0]? = some (r, f p.length) := by
  obtain ⟨a, u, b, hu_at, hsplit, hu, hb⟩ := hends.get (j := 0) (by rw [hlen]; exact h.level_pos)
  have hlinked : Linked (z.lev 0) 0 (headerTower :: p ++ s) [] := h.linked 0 h.level_pos
  have hpos : ∀ y ∈ headerTower :: p, 0 < y.height := by
    intro y hy
    rcases List.mem_cons.mp hy with rfl | hy
    · exact Nat.zero_lt_succ _
    · exact (h.height y (by simp [hy])).1
  obtain ⟨a', u', hsplit', -, hk⟩ :=
    IsLast.zero (r := u.ref) (k := a.length) ⟨a, u, b, hsplit, hu, hb, rfl, rfl⟩ hpos
  have hlen' : a.length = p.length := by
    have := congrArg List.length hsplit'
    simp only [List.length_append, List.length_cons, List.length_nil] at this
    omega
  rw [hsplit] at hlinked
  have hget := (linked_append.mp hlinked).1.get_last hu hb
  rw [List.append_nil] at hget
  refine ⟨?_, u.ref, hlen' ▸ hu_at⟩
  simp only [nextNode, hu_at, hget, Option.bind_eq_bind, Option.bind_some]

theorem zslDelete_spec (score : S) (obj : Bytes) (h : Holds z L) (htop : TopLevel z L)
    (hsort : Ascending L) :
    ∃ z' L', zslDelete z score obj = some (z', decide ((score, obj) ∈ L.map Tower.data)) ∧
      Holds z' L' ∧ TopLevel z' L' ∧ L'.Sublist L ∧
      L'.map Tower.data = (L.map Tower.data).filter (· ≠ (score, obj)) := by
  obtain ⟨p, s, update, hsearch, rfl, hlen, hends, hlast, hhead⟩ :=
    zslSearch_spec (fun n _ => zslBefore score obj n) (fun u _ => u) (fun _ => ())
      (fun y _ => zslBefore score obj ⟨y.data.2, y.data.1, none⟩) h
      (fun _ _ _ _ => rfl) (fun _ _ _ => rfl)
  obtain ⟨hnext, -⟩ := nextNode_spec h hends hlen
  obtain ⟨hp, hs⟩ := cut_of_pairwise (P := fun y => Precedes y.data (score, obj)) hsort
    (fun _ _ hxy hy => hxy.trans hy)
    (fun a u hau => zslBefore_iff.mp (hlast a u hau))
    (fun y t hyt hy => by
      have := hhead y t hyt
      rw [zslBefore_iff.mpr hy] at this
      exact absurd this (by simp))
  have hp_ne : ∀ y ∈ p, y.data ≠ (score, obj) := by
    intro y hy heq
    exact Precedes.irrefl _ (heq ▸ hp y hy)
  rcases s with _ | ⟨x, t⟩
  · -- all nodes are before the pair
    have hnot : (score, obj) ∉ (p ++ []).map Tower.data := by
      simpa using fun y hy => hp_ne y hy
    refine ⟨z, p ++ [], ?_, h, htop, List.Sublist.refl _, ?_⟩
    · simp only [zslDelete, hsearch, hnext, nextRef, Option.bind_eq_bind, Option.bind_some,
        decide_eq_false hnot]
    · rw [List.filter_eq_self.mpr]
      intro q hq
      have hne : q ≠ (score, obj) := fun heq => hnot (heq ▸ hq)
      simpa using hne
  · have hx : 0 < x.height := (h.height x (by simp)).1
    have ht_ne : ∀ y ∈ t, y.data ≠ (score, obj) := by
      intro y hy heq
      have hxy := (List.pairwise_cons.mp (List.pairwise_append.mp hsort).2.1).1 y hy
      exact hs x (by simp) (heq ▸ hxy)
    rw [nextRef_cons_tall hx] at hnext
    by_cases heq : x.data = (score, obj)
    · obtain ⟨z', hdel, h', htop', -⟩ := zslDeleteNode_spec h hends hlen.ge
      refine ⟨zslFreeNode z' x.ref, p ++ t, ?_, h', htop',
        (List.Sublist.refl p).append (List.sublist_cons_self x t), ?_⟩
      · have hmem : (score, obj) ∈ (p ++ x :: t).map Tower.data := by simp [heq]
        have htest : score = x.data.1 ∧ equalStringObjects x.data.2 obj = true := by
          rw [equalStringObjects_iff, heq]
          exact ⟨rfl, rfl⟩
        simp only [zslDelete, hsearch, hnext, h.nodes.get, Option.bind_eq_bind, Option.bind_some,
          decide_eq_true hmem]
        rw [if_pos htest, hdel]
        rfl
      · have hfilter : ∀ q : List (Tower (S × Bytes)), (∀ y ∈ q, y.data ≠ (score, obj)) →
            (q.map Tower.data).filter (· ≠ (score, obj)) = q.map Tower.data := by
          intro q hq
          rw [List.filter_eq_self]
          simpa using hq
        rw [List.map_append, List.map_append, List.map_cons, List.filter_append, List.filter_cons,
          hfilter p hp_ne, hfilter t ht_ne, heq]
        simp
    · have hnot : (score, obj) ∉ (p ++ x :: t).map Tower.data := by
        rw [List.map_append, List.map_cons, List.mem_append, List.mem_cons, List.mem_map,
          List.mem_map]
        rintro (⟨y, hy, hyd⟩ | hxd | ⟨y, hy, hyd⟩)
        · exact hp_ne y hy hyd
        · exact heq hxd.symm
        · exact ht_ne y hy hyd
      refine ⟨z, p ++ x :: t, ?_, h, htop, List.Sublist.refl _, ?_⟩
      · have htest : ¬ (score = x.data.1 ∧ equalStringObjects x.data.2 obj = true) := by
          rw [equalStringObjects_iff]
          rintro ⟨h₁, h₂⟩
          exact heq (Prod.ext h₁.symm h₂)
        simp only [zslDelete, hsearch, hnext, h.nodes.get, Option.bind_eq_bind, Option.bind_some,
          decide_eq_false hnot]
        exact if_neg htest
      · rw [List.filter_eq_self.mpr]
        intro q hq
        have hne : q ≠ (score, obj) := fun hq' => hnot (hq' ▸ hq)
        simpa using hne

omit [LinearOrder S] in
/-- A range deletion takes out a run of nodes: it begins where the search ends, and
ends at the first node that is not within the range. -/
theorem zslDeleteRange_spec {ρ : Type} (before : ZskiplistNode S → ρ → Bool)
    (add : ρ → BitVec 32 → ρ) (within : ρ → ZskiplistNode S → ℕ → Bool) (f : ℕ → ρ)
    (C : Tower (S × Bytes) → ℕ → Bool) (W : ℕ → Tower (S × Bytes) → ℕ → Bool)
    (dict : Bytes → Option S) (h : Holds z L) (htop : TopLevel z L)
    (hbefore : ∀ y k b, y ∈ L → before ⟨y.data.2, y.data.1, b⟩ (f k) = C y k)
    (hadd : ∀ m n, m + n ≤ L.length → add (f m) (n : BitVec 32) = f (m + n))
    (hwithin : ∀ k y j b, y ∈ L → within (f k) ⟨y.data.2, y.data.1, b⟩ j = W k y j) :
    ∃ z' p R s, zslDeleteRange z before add (f 0) within dict
        = some (z', dictDeletes dict R, R.length) ∧
      L = p ++ (R ++ s) ∧ Holds z' (p ++ s) ∧ TopLevel z' (p ++ s) ∧
      (∀ a u, p = a ++ [u] → C u p.length = true) ∧
      (∀ y t, R ++ s = y :: t → C y (p.length + 1) = false) ∧
      (∀ a y t, R = a ++ y :: t → W p.length y a.length = true) ∧
      ∀ y t, s = y :: t → W p.length y R.length = false := by
  obtain ⟨p, s, update, hsearch, rfl, hlen, hends, hlast, hhead⟩ :=
    zslSearch_spec before add f C h hbefore hadd
  obtain ⟨hnext, r, hr⟩ := nextNode_spec h hends hlen
  obtain ⟨z', R, s', hloop, rfl, h', htop', hR, hs'⟩ :=
    zslDeleteWhile_spec (within (f p.length)) (W p.length) (z.length + 1) dict 0 h htop hends
      hlen.ge
      (by rw [h.length, List.length_append]; omega)
      (fun y hy k b => hwithin p.length y k b (by simp [hy]))
  refine ⟨z', p, R, s', ?_, rfl, h', htop', hlast, hhead, ?_, ?_⟩
  · rw [Nat.zero_add] at hloop
    simp only [zslDeleteRange, hsearch, hr, hnext, hloop, Option.bind_eq_bind, Option.bind_some]
  · intro a y t hay
    simpa using hR a y t hay
  · intro y t hyt
    simpa using hs' y t hyt

/-! ### The ranges -/

theorem filter_run {α : Type} {P : α → Bool} {p R s : List α} (hp : ∀ x ∈ p, P x = false)
    (hR : ∀ x ∈ R, P x = true) (hs : ∀ x ∈ s, P x = false) :
    (p ++ (R ++ s)).filter P = R ∧ (p ++ (R ++ s)).filter (fun x => !P x) = p ++ s := by
  rw [List.filter_append, List.filter_append, List.filter_append, List.filter_append]
  have h₁ : p.filter P = [] := List.filter_eq_nil_iff.mpr fun x hx => by simp [hp x hx]
  have h₂ : R.filter P = R := List.filter_eq_self.mpr hR
  have h₃ : s.filter P = [] := List.filter_eq_nil_iff.mpr fun x hx => by simp [hs x hx]
  have h₄ : p.filter (fun x => !P x) = p := List.filter_eq_self.mpr fun x hx => by simp [hp x hx]
  have h₅ : R.filter (fun x => !P x) = [] :=
    List.filter_eq_nil_iff.mpr fun x hx => by simp [hR x hx]
  have h₆ : s.filter (fun x => !P x) = s := List.filter_eq_self.mpr fun x hx => by simp [hs x hx]
  rw [h₁, h₂, h₃, h₄, h₅, h₆]
  simp

omit [Zero S] [LinearOrder S] in
theorem filter_range {r : Tower (S × Bytes) → Tower (S × Bytes) → Prop}
    (above below : Tower (S × Bytes) → Bool) {p R s : List (Tower (S × Bytes))}
    (hr : (p ++ (R ++ s)).Pairwise r) (habove : ∀ x y, r x y → above x = true → above y = true)
    (hbelow : ∀ x y, r x y → below y = true → below x = true)
    (hlast : ∀ a u, p = a ++ [u] → above u = false)
    (hhead : ∀ y t, R ++ s = y :: t → above y = true)
    (hR : ∀ a y t, R = a ++ y :: t → below y = true)
    (hs : ∀ y t, s = y :: t → below y = false) :
    (p ++ (R ++ s)).filter (fun y => above y && below y) = R ∧
      (p ++ (R ++ s)).filter (fun y => !(above y && below y)) = p ++ s := by
  obtain ⟨hp, hRs⟩ := cut_of_pairwise (P := fun y => above y = false) hr
    (fun x y hxy hy => by
      cases hx : above x with
      | false => rfl
      | true => rw [habove x y hxy hx] at hy; exact hy)
    hlast (fun y t hyt hy => by rw [hhead y t hyt] at hy; exact absurd hy (by simp))
  obtain ⟨-, hs'⟩ := cut_of_pairwise (P := fun y => below y = true) (List.pairwise_append.mp hr).2.1
    hbelow (fun a u hau => hR a u [] hau)
    (fun y t hyt hy => by rw [hs y t hyt] at hy; exact absurd hy (by simp))
  refine filter_run (fun x hx => ?_) (fun x hx => ?_) fun x hx => ?_
  · simp [hp x hx]
  · obtain ⟨a, t, rfl⟩ := List.append_of_mem hx
    have h := hRs x (by simp)
    simp only [Bool.not_eq_false] at h
    simp [h, hR a x t rfl]
  · have h := hs' x hx
    simp only [Bool.not_eq_true] at h
    simp [h]

omit [Zero S] in
theorem zslValueGteMin_mono {range : Zrangespec S} {a b : S} (hab : a ≤ b)
    (h : zslValueGteMin a range = true) : zslValueGteMin b range = true := by
  unfold zslValueGteMin at h ⊢
  split_ifs at h ⊢ with hex
  · exact decide_eq_true ((of_decide_eq_true h).trans_le hab)
  · exact decide_eq_true ((of_decide_eq_true h).trans hab)

omit [Zero S] in
theorem zslValueLteMax_mono {range : Zrangespec S} {a b : S} (hab : a ≤ b)
    (h : zslValueLteMax b range = true) : zslValueLteMax a range = true := by
  unfold zslValueLteMax at h ⊢
  split_ifs at h ⊢ with hex
  · exact decide_eq_true (hab.trans_lt (of_decide_eq_true h))
  · exact decide_eq_true (hab.trans (of_decide_eq_true h))

/-- Whether a pair is in a range of scores. -/
def inRange (range : Zrangespec S) (q : S × Bytes) : Bool :=
  zslValueGteMin q.1 range && zslValueLteMax q.1 range

theorem zslDeleteRangeByScore_spec (range : Zrangespec S) (dict : Bytes → Option S)
    (h : Holds z L) (htop : TopLevel z L) (hsort : Ascending L) :
    ∃ z', zslDeleteRangeByScore z range dict
        = some (z', dictDeletes dict (L.filter fun y => inRange range y.data),
          (L.filter fun y => inRange range y.data).length) ∧
      Holds z' (L.filter fun y => !inRange range y.data) ∧
      TopLevel z' (L.filter fun y => !inRange range y.data) := by
  obtain ⟨z', p, R, s, hdel, rfl, h', htop', hlast, hhead, hR, hs⟩ :=
    zslDeleteRange_spec
      (fun n _ => if range.minex then decide (n.score ≤ range.min)
        else decide (n.score < range.min))
      (fun u _ => u)
      (fun _ n _ => if range.maxex then decide (n.score < range.max)
        else decide (n.score ≤ range.max))
      (fun _ => ()) (fun y _ => !zslValueGteMin y.data.1 range)
      (fun _ y _ => zslValueLteMax y.data.1 range) dict h htop
      (fun y _ _ _ => by
        simp only [zslValueGteMin]
        split_ifs <;> simp [← decide_not])
      (fun _ _ _ => rfl) (fun _ _ _ _ _ => rfl)
  obtain ⟨hin, hout⟩ := filter_range (fun y => zslValueGteMin y.data.1 range)
    (fun y => zslValueLteMax y.data.1 range) hsort
    (fun x y hxy => zslValueGteMin_mono hxy.score_le)
    (fun x y hxy => zslValueLteMax_mono hxy.score_le)
    (fun a u hau => by simpa using hlast a u hau) (fun y t hyt => by simpa using hhead y t hyt)
    (fun a y t hay => hR a y t hay) (fun y t hyt => hs y t hyt)
  refine ⟨z', ?_, ?_, ?_⟩
  · rw [show (fun y : Tower (S × Bytes) => inRange range y.data)
      = fun y => zslValueGteMin y.data.1 range && zslValueLteMax y.data.1 range from rfl, hin]
    exact hdel
  · exact hout ▸ h'
  · exact hout ▸ htop'

omit [LinearOrder S] in
theorem zslDeleteRangeByRank_spec (start last : BitVec 32) (dict : Bytes → Option S)
    (h : Holds z L) (htop : TopLevel z L) (hbound : L.length < 2 ^ 32) :
    ∃ z' p R s, zslDeleteRangeByRank z start last dict
        = some (z', dictDeletes dict R, R.length) ∧ L = p ++ (R ++ s) ∧
      Holds z' (p ++ s) ∧ TopLevel z' (p ++ s) ∧ p = L.take (start.toNat - 1) ∧
      s = L.drop (max (start.toNat - 1) last.toNat) := by
  obtain ⟨z', p, R, s, hdel, rfl, h', htop', hlast, hhead, hR, hs⟩ :=
    zslDeleteRange_spec (fun _ traversed => decide (traversed < start.toNat))
      (fun traversed span => traversed + span.toNat)
      (fun traversed _ removed => decide (traversed + 1 + removed ≤ last.toNat)) id
      (fun _ k => decide (k < start.toNat)) (fun k _ j => decide (k + 1 + j ≤ last.toNat))
      dict h htop
      (fun _ _ _ _ => rfl)
      (fun m n hmn => by
        have : ((n : BitVec 32)).toNat = n := by
          rw [BitVec.natCast_eq_ofNat, BitVec.toNat_ofNat]
          exact Nat.mod_eq_of_lt (by omega)
        simp only [id, this])
      (fun _ _ _ _ _ => rfl)
  -- how many nodes are before the range, and how many in it
  have hp : p = [] ∨ p.length < start.toNat := by
    rcases List.eq_nil_or_concat p with rfl | ⟨a, u, rfl⟩
    · exact Or.inl rfl
    · exact Or.inr (of_decide_eq_true (hlast a u List.concat_eq_append))
  have hRs : R ++ s = [] ∨ start.toNat ≤ p.length + 1 := by
    rcases hc : R ++ s with _ | ⟨y, t⟩
    · exact Or.inl rfl
    · exact Or.inr (not_lt.mp (of_decide_eq_false (hhead y t hc)))
  have hRlast : R = [] ∨ p.length + R.length ≤ last.toNat := by
    rcases List.eq_nil_or_concat R with rfl | ⟨a, u, rfl⟩
    · exact Or.inl rfl
    · have := of_decide_eq_true (hR a u [] List.concat_eq_append)
      refine Or.inr ?_
      rw [List.length_concat]
      omega
  have hsfirst : s = [] ∨ last.toNat < p.length + 1 + R.length := by
    rcases hc : s with _ | ⟨y, t⟩
    · exact Or.inl rfl
    · exact Or.inr (not_le.mp (of_decide_eq_false (hs y t hc)))
  refine ⟨z', p, R, s, hdel, rfl, h', htop', ?_, ?_⟩
  · rcases hRs with hnil | hle
    · rw [hnil, List.append_nil, List.take_of_length_le]
      rcases hp with rfl | hp
      · exact Nat.zero_le _
      · omega
    · have hlen : p.length = start.toNat - 1 := by
        rcases hp with rfl | hp
        · simp only [List.length_nil] at hle ⊢
          omega
        · omega
      rw [← hlen, List.take_left]
  · rcases hsfirst with rfl | hlt
    · rw [List.append_nil, List.drop_of_length_le]
      rw [List.length_append]
      rcases hRlast with rfl | hRlast
      · rcases hp with rfl | hp
        · exact Nat.zero_le _
        · simp only [List.length_nil]
          omega
      · omega
    · rcases hRs with hnil | hle
      · obtain ⟨rfl, rfl⟩ := List.append_eq_nil_iff.mp hnil
        rw [List.append_nil, List.append_nil, List.drop_of_length_le]
        rcases hp with rfl | hp
        · exact Nat.zero_le _
        · omega
      · have hlen : p.length = start.toNat - 1 := by
          rcases hp with rfl | hp
          · simp only [List.length_nil] at hle ⊢
            omega
          · omega
        have hcut : max (start.toNat - 1) last.toNat = (p ++ R).length := by
          rw [List.length_append]
          rcases hRlast with rfl | hRlast
          · simp only [List.length_nil] at hlt ⊢
            omega
          · omega
        rw [hcut, ← List.append_assoc, List.drop_left]

omit [Zero S] [LinearOrder S] in
theorem zslLexValueGteMin_mono {range : Zlexrangespec} {a b : Bytes} (hab : a < b)
    (h : zslLexValueGteMin a range = true) : zslLexValueGteMin b range = true := by
  obtain ⟨min, max, minex, maxex⟩ := range
  cases min with
  | minstring => cases minex <;> rfl
  | maxstring => cases minex <;> exact absurd h Bool.false_ne_true
  | item s =>
    have hlt : s < b ∧ compareStringObjects b s = .gt := by
      have hsb : s < b := by
        rcases bytes_lt_trichotomy s a with hs | rfl | hs
        · exact bytes_lt_trans hs hab
        · exact hab
        · cases minex <;> simp [zslLexValueGteMin, compareStringObjectsForLexRange,
            compareStringObjects_eq_lt.mpr hs] at h
      refine ⟨hsb, ?_⟩
      rw [compareStringObjects_swap s b, compareStringObjects_eq_lt.mpr hsb]
      rfl
    cases minex <;> simp [zslLexValueGteMin, compareStringObjectsForLexRange, hlt.2]

omit [Zero S] [LinearOrder S] in
theorem zslLexValueLteMax_mono {range : Zlexrangespec} {a b : Bytes} (hab : a < b)
    (h : zslLexValueLteMax b range = true) : zslLexValueLteMax a range = true := by
  obtain ⟨min, max, minex, maxex⟩ := range
  cases max with
  | minstring => cases maxex <;> exact absurd h Bool.false_ne_true
  | maxstring => cases maxex <;> rfl
  | item s =>
    have hlt : compareStringObjects a s = .lt := by
      rw [compareStringObjects_eq_lt]
      rcases bytes_lt_trichotomy b s with hs | rfl | hs
      · exact bytes_lt_trans hab hs
      · exact hab
      · have hgt : compareStringObjects b s = .gt := by
          rw [compareStringObjects_swap s b, compareStringObjects_eq_lt.mpr hs]
          rfl
        cases maxex <;> simp [zslLexValueLteMax, compareStringObjectsForLexRange, hgt] at h
    cases maxex <;> simp [zslLexValueLteMax, compareStringObjectsForLexRange, hlt]

/-- Whether a pair is in a lexicographic range. -/
def inLexRange (range : Zlexrangespec) (q : S × Bytes) : Bool :=
  zslLexValueGteMin q.2 range && zslLexValueLteMax q.2 range

theorem zslDeleteRangeByLex_spec (range : Zlexrangespec) (dict : Bytes → Option S)
    (h : Holds z L) (htop : TopLevel z L) (hsort : Ascending L) :
    ∃ z' p R s, zslDeleteRangeByLex z range dict
        = some (z', dictDeletes dict R, R.length) ∧ L = p ++ (R ++ s) ∧
      Holds z' (p ++ s) ∧ TopLevel z' (p ++ s) ∧
      ((∀ x ∈ L, ∀ y ∈ L, x.data.1 = y.data.1) →
        L.filter (fun y => inLexRange range y.data) = R ∧
        L.filter (fun y => !inLexRange range y.data) = p ++ s) := by
  obtain ⟨z', p, R, s, hdel, rfl, h', htop', hlast, hhead, hR, hs⟩ :=
    zslDeleteRange_spec (fun n _ => !zslLexValueGteMin n.obj range) (fun u _ => u)
      (fun _ n _ => zslLexValueLteMax n.obj range) (fun _ => ())
      (fun y _ => !zslLexValueGteMin y.data.2 range)
      (fun _ y _ => zslLexValueLteMax y.data.2 range) dict h htop
      (fun _ _ _ _ => rfl) (fun _ _ _ => rfl) (fun _ _ _ _ _ => rfl)
  refine ⟨z', p, R, s, hdel, rfl, h', htop', fun hscores => ?_⟩
  have hmember : (p ++ (R ++ s)).Pairwise fun x y => x.data.2 < y.data.2 := by
    refine hsort.imp_of_mem fun {x y} hx hy hxy => ?_
    rcases hxy with hlt | ⟨-, hlt⟩
    · exact absurd (hscores x hx y hy) hlt.ne
    · exact hlt
  exact filter_range (fun y => zslLexValueGteMin y.data.2 range)
    (fun y => zslLexValueLteMax y.data.2 range) hmember
    (fun x y hxy => zslLexValueGteMin_mono hxy)
    (fun x y hxy => zslLexValueLteMax_mono hxy)
    (fun a u hau => by simpa using hlast a u hau) (fun y t hyt => by simpa using hhead y t hyt)
    (fun a y t hay => hR a y t hay) (fun y t hyt => hs y t hyt)

end

/-! ### Runs -/

/-- The operations; the range deletions get the dict of the sorted set. -/
inductive Op (S : Type)
  | insert (x : Ref) (level : ℕ) (score : S) (obj : Bytes)
  | delete (score : S) (obj : Bytes)
  | deleteRangeByScore (range : Zrangespec S) (dict : Bytes → Option S)
  | deleteRangeByRank (start last : BitVec 32) (dict : Bytes → Option S)
  | deleteRangeByLex (range : Zlexrangespec) (dict : Bytes → Option S)

section
variable {S : Type} [LinearOrder S]

def step (z : Zskiplist S) : Op S → Option (Zskiplist S)
  | .insert x level score obj => zslInsert z x level score obj
  | .delete score obj => (zslDelete z score obj).map (·.1)
  | .deleteRangeByScore range dict => (zslDeleteRangeByScore z range dict).map (·.1)
  | .deleteRangeByRank start last dict => (zslDeleteRangeByRank z start last dict).map (·.1)
  | .deleteRangeByLex range dict => (zslDeleteRangeByLex z range dict).map (·.1)

def run : Zskiplist S → List (Op S) → Option (Zskiplist S)
  | z, [] => some z
  | z, op :: ops => do
    let z ← step z op
    run z ops

/-- Every step of a run meets a condition on the state before it. -/
def AllSteps (P : Zskiplist S → Op S → Prop) : Zskiplist S → List (Op S) → Prop
  | _, [] => True
  | z, op :: ops => P z op ∧ ∀ z', step z op = some z' → AllSteps P z' ops

/-- What the callers ensure: a pair to insert is not there yet, the level is one that
`zslRandomLevel` returns, and `zmalloc` returns free memory. -/
def Valid (z : Zskiplist S) : Op S → Prop
  | .insert x level score obj =>
    (∀ r n, z.node r = some n → ¬ (n.score = score ∧ n.obj = obj)) ∧
      0 < level ∧ level ≤ zskiplistMaxlevel ∧ z.node x = none ∧ x ≠ header
  | _ => True

/-- How many nodes an operation adds at most. -/
def Op.growth : Op S → ℕ
  | .insert .. => 1
  | _ => 0

/-- The number of nodes fits an `unsigned int`, also after the operation. -/
def Fits (z : Zskiplist S) (op : Op S) : Prop := z.length + op.growth < 2 ^ 32

/-- The sorted list `D'` of the pairs that are live after an operation on the sorted
list `D`.  A lexicographic range is meant for pairs of one score; among pairs of
several scores some run of pairs is removed. -/
def SpecStep (D : List (S × Bytes)) : Op S → List (S × Bytes) → Prop
  | .insert _ _ score obj, D' =>
    D'.Pairwise Precedes ∧ ∀ q, q ∈ D' ↔ q = (score, obj) ∨ q ∈ D
  | .delete score obj, D' => D' = D.filter (· ≠ (score, obj))
  | .deleteRangeByScore range _, D' => D' = D.filter fun q => !inRange range q
  | .deleteRangeByRank start last _, D' =>
    D' = D.take (start.toNat - 1) ++ D.drop (max (start.toNat - 1) last.toNat)
  | .deleteRangeByLex range _, D' =>
    (∃ A R B, D = A ++ (R ++ B) ∧ D' = A ++ B) ∧
      ((∀ q ∈ D, ∀ q' ∈ D, q.1 = q'.1) → D' = D.filter fun q => !inLexRange range q)

/-- The sorted lists of live pairs that a sequence of operations leads to. -/
def SpecRun : List (S × Bytes) → List (Op S) → List (S × Bytes) → Prop
  | D, [], D' => D' = D
  | D, op :: ops, D' => ∃ D₁, SpecStep D op D₁ ∧ SpecRun D₁ ops D'

end

section
variable {S : Type} [Zero S] [LinearOrder S] {z : Zskiplist S} {L : List (Tower (S × Bytes))}

/-- `Holds`, with the nodes in order and no empty level on top. -/
structure HoldsSorted (z : Zskiplist S) (L : List (Tower (S × Bytes))) : Prop where
  holds : Holds z L
  top : TopLevel z L
  sorted : Ascending L

theorem holdsSorted_zslCreate : HoldsSorted (zslCreate : Zskiplist S) [] :=
  ⟨holds_zslCreate, Or.inl rfl, List.Pairwise.nil⟩

omit [Zero S] in
theorem ascending_iff : Ascending L ↔ (L.map Tower.data).Pairwise Precedes :=
  List.pairwise_map.symm

omit [LinearOrder S] in
theorem Holds.node_of_mem (h : Holds z L) {y : Tower (S × Bytes)} (hy : y ∈ L) :
    ∃ b, z.node y.ref = some ⟨y.data.2, y.data.1, b⟩ := by
  obtain ⟨p, s, rfl⟩ := List.append_of_mem hy
  exact ⟨_, h.nodes.get⟩

theorem step_holds (op : Op S) (h : HoldsSorted z L) (hvalid : Valid z op)
    (hfits : ∀ start last dict, op = .deleteRangeByRank start last dict → Fits z op) :
    ∃ z' L', step z op = some z' ∧ HoldsSorted z' L' ∧
      SpecStep (L.map Tower.data) op (L'.map Tower.data) ∧ L'.length ≤ L.length + op.growth := by
  obtain ⟨h, htop, hsort⟩ := h
  cases op with
  | insert x level score obj =>
    obtain ⟨hnew, hlevel, hmax, hfree, hheader⟩ := hvalid
    have hnew' : ∀ y ∈ L, y.data ≠ (score, obj) := by
      intro y hy heq
      obtain ⟨b, hb⟩ := h.node_of_mem hy
      exact hnew y.ref _ hb ⟨by rw [heq], by rw [heq]⟩
    have hfresh : x ∉ (headerTower :: L).map Tower.ref := by
      rw [List.map_cons, List.mem_cons, List.mem_map]
      rintro (heq | ⟨y, hy, rfl⟩)
      · exact hheader heq
      · obtain ⟨b, hb⟩ := h.node_of_mem hy
        rw [hfree] at hb
        exact absurd hb (by simp)
    obtain ⟨z', p, s, hins, rfl, h', htop', hp, hs⟩ :=
      zslInsert_spec h htop hsort hnew' hlevel hmax hfresh
    have hsort' : Ascending (p ++ ⟨x, level, (score, obj)⟩ :: s) := by
      obtain ⟨h₁, h₂, h₃⟩ := List.pairwise_append.mp hsort
      refine List.pairwise_append.mpr ⟨h₁, List.pairwise_cons.mpr ⟨hs, h₂⟩, fun y hy w hw => ?_⟩
      rcases List.mem_cons.mp hw with rfl | hw
      · exact hp y hy
      · exact h₃ y hy w hw
    refine ⟨z', _, hins, ⟨h', htop', hsort'⟩, ⟨ascending_iff.mp hsort', fun q => ?_⟩, ?_⟩
    · simp only [List.map_append, List.map_cons, List.mem_append, List.mem_cons]
      tauto
    · simp only [List.length_append, List.length_cons, Op.growth]
      omega
  | delete score obj =>
    obtain ⟨z', L', hdel, h', htop', hsub, hdata⟩ := zslDelete_spec score obj
      h htop hsort
    refine ⟨z', L', ?_, ⟨h', htop', hsort.sublist hsub⟩, hdata, hsub.length_le⟩
    rw [step, hdel]
    rfl
  | deleteRangeByScore range dict =>
    obtain ⟨z', hdel, h', htop'⟩ := zslDeleteRangeByScore_spec range dict h htop hsort
    refine ⟨z', _, ?_, ⟨h', htop', hsort.sublist List.filter_sublist⟩, ?_,
      List.filter_sublist.length_le⟩
    · rw [step, hdel]
      rfl
    · show _ = (L.map Tower.data).filter fun q => !inRange range q
      rw [List.filter_map]
      rfl
  | deleteRangeByRank start last dict =>
    have hbound : L.length < 2 ^ 32 := h.length ▸ hfits start last dict rfl
    obtain ⟨z', p, R, s, hdel, hL, h', htop', hp, hs⟩ :=
      zslDeleteRangeByRank_spec start last dict h htop hbound
    have hsub : (p ++ s).Sublist L := by
      rw [hL]
      exact (List.Sublist.refl p).append (List.sublist_append_right R s)
    refine ⟨z', p ++ s, ?_, ⟨h', htop', hsort.sublist hsub⟩, ?_, hsub.length_le⟩
    · rw [step, hdel]
      rfl
    · show (p ++ s).map Tower.data = _
      rw [hp, hs, List.map_append, List.map_take, List.map_drop]
  | deleteRangeByLex range dict =>
    obtain ⟨z', p, R, s, hdel, rfl, h', htop', hscores⟩ :=
      zslDeleteRangeByLex_spec range dict h htop hsort
    have hsub : (p ++ s).Sublist (p ++ (R ++ s)) :=
      (List.Sublist.refl p).append (List.sublist_append_right R s)
    refine ⟨z', p ++ s, ?_, ⟨h', htop', hsort.sublist hsub⟩, ⟨⟨p.map Tower.data, R.map Tower.data,
      s.map Tower.data, by simp, by simp⟩, fun heq => ?_⟩, hsub.length_le⟩
    · rw [step, hdel]
      rfl
    · have h := (hscores fun x hx y hy => heq _ (List.mem_map_of_mem hx) _
        (List.mem_map_of_mem hy)).2
      rw [← h, List.filter_map]
      rfl

/-- In the levels below `n`, each link leads to the next node that reaches the level,
and its span is the number of steps to it, or to the end. -/
def LinksExact (z : Zskiplist S) (L : List (Tower (S × Bytes))) (n : ℕ) : Prop :=
  ∀ i < n, ∀ a y s, headerTower :: L = a ++ y :: s → i < y.height →
    ∃ l, z.lev i y.ref = some l ∧ l.forward = nextRef i s ∧ l.span.toNat = nextSpan i s

/-- The skip list `z` with the nodes `L` refines the sorted list `D`. -/
structure IsSkiplist (z : Zskiplist S) (D : List (S × Bytes)) (L : List (Tower (S × Bytes))) :
    Prop where
  data : L.map Tower.data = D
  sorted : D.Pairwise Precedes
  chain : ∀ i < z.level, ∃ l, z.lev i header = some l ∧
    follow (z.lev i) (z.length + 1) l.forward = some ((reaching i L).map Tower.ref)
  level_zero : reaching 0 L = L
  sublist : ∀ i, (reaching (i + 1) L).Sublist (reaching i L)
  links : LinksExact z L z.level
  nodes : ∀ a y s, L = a ++ y :: s →
    z.node y.ref = some ⟨y.data.2, y.data.1, lastRef none a⟩
  tail : z.tail = lastRef none L
  length : z.length = L.length
  level : 1 ≤ z.level ∧ (∀ y ∈ L, y.height ≤ z.level) ∧
    (z.level = 1 ∨ ∃ y ∈ L, y.height = z.level)
  unused : ∀ i, z.level ≤ i → i < zskiplistMaxlevel →
    ∃ l, z.lev i header = some l ∧ l.forward = none

omit [Zero S] [LinearOrder S] in
theorem nextSpan_le (i : ℕ) (s : List (Tower (S × Bytes))) : nextSpan i s ≤ s.length := by
  induction s with
  | nil => exact le_rfl
  | cons y s ih =>
    simp only [nextSpan, List.length_cons]
    split_ifs <;> omega

theorem HoldsSorted.isSkiplist (h : HoldsSorted z L) (hbound : z.length < 2 ^ 32) :
    IsSkiplist z (L.map Tower.data) L where
  data := rfl
  sorted := ascending_iff.mp h.sorted
  chain := by
    intro i hi
    have hlinked := h.holds.linked i hi
    refine ⟨_, linked_header hlinked (hi.trans_le h.holds.level_le), ?_⟩
    exact follow_linked hlinked.2 (by rw [h.holds.length]; omega)
  level_zero := List.filter_eq_self.mpr fun y hy => decide_eq_true (h.holds.height y hy).1
  sublist := fun i => reaching_sublist i L
  links := by
    intro i hi a y s hsplit hy
    have hlinked := h.holds.linked i hi
    rw [hsplit] at hlinked
    refine ⟨_, hlinked.get hy, rfl, ?_⟩
    have hlen := congrArg List.length hsplit
    simp only [List.length_append, List.length_cons, ← h.holds.length] at hlen
    have hle := nextSpan_le i s
    show ((nextSpan i s : ℕ) : BitVec 32).toNat = nextSpan i s
    rw [BitVec.natCast_eq_ofNat, BitVec.toNat_ofNat]
    exact Nat.mod_eq_of_lt (by omega)
  nodes := by
    rintro a y s rfl
    exact h.holds.nodes.get
  tail := h.holds.tail
  length := h.holds.length
  level := ⟨h.holds.level_pos, fun y hy => (h.holds.height y hy).2, h.top⟩
  unused := h.holds.unused

theorem run_holds_bounded {ops : List (Op S)} (h : HoldsSorted z L) (hbound : z.length < 2 ^ 32)
    (hok : AllSteps (fun z op => Valid z op ∧ Fits z op) z ops) :
    ∃ z' L', run z ops = some z' ∧ SpecRun (L.map Tower.data) ops (L'.map Tower.data) ∧
      HoldsSorted z' L' ∧ z'.length < 2 ^ 32 := by
  induction ops generalizing z L with
  | nil => exact ⟨z, L, rfl, rfl, h, hbound⟩
  | cons op ops ih =>
    obtain ⟨⟨hvalid, hfits⟩, hrest⟩ := hok
    obtain ⟨z₁, L₁, hstep, h₁, hspec₁, hlen⟩ := step_holds op h hvalid fun _ _ _ _ => hfits
    have hbound₁ : z₁.length < 2 ^ 32 := by
      rw [h₁.holds.length]
      have hfits' : z.length + op.growth < 2 ^ 32 := hfits
      rw [h.holds.length] at hfits'
      omega
    obtain ⟨z', L', hrun, hspec', h', hbound'⟩ := ih h₁ hbound₁ (hrest z₁ hstep)
    refine ⟨z', L', ?_, ⟨_, hspec₁, hspec'⟩, h', hbound'⟩
    rw [run, hstep]
    exact hrun

theorem run_isSkiplist {ops : List (Op S)} (h : HoldsSorted z L) (hbound : z.length < 2 ^ 32)
    (hok : AllSteps (fun z op => Valid z op ∧ Fits z op) z ops) :
    ∃ z' L', run z ops = some z' ∧ SpecRun (L.map Tower.data) ops (L'.map Tower.data) ∧
      IsSkiplist z' (L'.map Tower.data) L' := by
  obtain ⟨z', L', hrun, hspec, h', hbound'⟩ := run_holds_bounded h hbound hok
  exact ⟨z', L', hrun, hspec, h'.isSkiplist hbound'⟩

/-- Skip lists refine sorted lists: any sequence of operations from `zslCreate` on
with fewer than `2 ^ 32` nodes at all times. -/
theorem run_refines_sorted_list (ops : List (Op S))
    (hok : AllSteps (fun z op => Valid z op ∧ Fits z op) (zslCreate : Zskiplist S) ops) :
    ∃ z D L, run zslCreate ops = some z ∧ SpecRun [] ops D ∧ IsSkiplist z D L := by
  obtain ⟨z, L, hrun, hspec, his⟩ := run_isSkiplist holdsSorted_zslCreate
    (Nat.two_pow_pos 32) hok
  exact ⟨z, _, L, hrun, hspec, his⟩

omit [LinearOrder S] in
/-- An insertion is valid if neither the pair nor the address occurs. -/
theorem Holds.valid_insert [LinearOrder S] (h : Holds z L) {x level : ℕ} {score : S} {obj : Bytes}
    (hnew : ∀ y ∈ L, y.data ≠ (score, obj)) (hlevel : 0 < level) (hmax : level ≤ zskiplistMaxlevel)
    (hx : ∀ y ∈ L, y.ref ≠ x) (hheader : x ≠ header) : Valid z (.insert x level score obj) := by
  have hmem : ∀ r, z.node r ≠ none → ∃ y ∈ L, y.ref = r := fun r hr =>
    List.mem_map.mp (h.alloc r hr)
  refine ⟨fun r n hn => ?_, hlevel, hmax, ?_, hheader⟩
  · rintro ⟨rfl, rfl⟩
    obtain ⟨y, hy, rfl⟩ := hmem r (by rw [hn]; simp)
    obtain ⟨b, hb⟩ := h.node_of_mem hy
    rw [hb] at hn
    obtain rfl := Option.some_inj.mp hn
    exact hnew y hy rfl
  · by_contra hne
    obtain ⟨y, hy, hyx⟩ := hmem x hne
    exact hx y hy hyx

theorem step_insert_front (x level : ℕ) (score : S) (h : HoldsSorted z L) (hlevel : 0 < level)
    (hmax : level ≤ zskiplistMaxlevel) (hx : ∀ y ∈ L, y.ref ≠ x) (hheader : x ≠ header)
    (hscore : ∀ y ∈ L, score < y.data.1) :
    Valid z (.insert x level score []) ∧ ∃ z', step z (.insert x level score []) = some z' ∧
      HoldsSorted z' (⟨x, level, (score, [])⟩ :: L) := by
  have hnew : ∀ y ∈ L, y.data ≠ (score, []) := fun y hy heq =>
    lt_irrefl score (by simpa [heq] using hscore y hy)
  refine ⟨h.holds.valid_insert hnew hlevel hmax hx hheader, ?_⟩
  have hfresh : x ∉ (headerTower :: L).map Tower.ref := by
    rw [List.map_cons, List.mem_cons, List.mem_map]
    rintro (heq | ⟨y, hy, hyx⟩)
    · exact hheader heq
    · exact hx y hy hyx
  obtain ⟨z', p, s, hins, rfl, h', htop', hp, hs⟩ :=
    zslInsert_spec h.holds h.top h.sorted hnew hlevel hmax hfresh
  rcases p with _ | ⟨y, p⟩
  · exact ⟨z', hins, h', htop', List.pairwise_cons.mpr ⟨hs, h.sorted⟩⟩
  · exact absurd (hscore y (by simp)) (not_lt.mpr (hp y (by simp)).score_le)

end

/-- Two insertions, a deletion and a deletion by rank. -/
def sampleSteps : List (Op ℤ) :=
  [.insert 1 1 5 [], .insert 2 3 4 [], .delete 5 [], .deleteRangeByRank 1 1 fun _ => none]

theorem run_refines_sorted_list_sampleSteps : ∃ z D L, run zslCreate sampleSteps = some z ∧
    SpecRun [] sampleSteps D ∧ IsSkiplist z D L := by
  obtain ⟨hvalid₁, z₁, hstep₁, h₁⟩ := step_insert_front (z := zslCreate) (L := []) 1 1
    (5 : ℤ) holdsSorted_zslCreate Nat.one_pos (by decide) (by simp) (by decide) (by simp)
  obtain ⟨hvalid₂, z₂, hstep₂, h₂⟩ := step_insert_front 2 3 (4 : ℤ) h₁
    (by decide) (by decide) (by simp) (by decide) (by simp)
  obtain ⟨z₃, L₃, hstep₃, h₃, -, hlen₃⟩ := step_holds (.delete 5 []) h₂ trivial
    (fun _ _ _ heq => by simp at heq)
  refine run_refines_sorted_list sampleSteps ⟨⟨hvalid₁, ?_⟩, fun z hz => ?_⟩
  · show 0 + 1 < 2 ^ 32
    omega
  obtain rfl := Option.some_inj.mp (hstep₁.symm.trans hz)
  refine ⟨⟨hvalid₂, ?_⟩, fun z hz => ?_⟩
  · show z₁.length + 1 < 2 ^ 32
    rw [h₁.holds.length]
    decide
  obtain rfl := Option.some_inj.mp (hstep₂.symm.trans hz)
  refine ⟨⟨trivial, ?_⟩, fun z hz => ?_⟩
  · show z₂.length + 0 < 2 ^ 32
    rw [h₂.holds.length]
    decide
  obtain rfl := Option.some_inj.mp (hstep₃.symm.trans hz)
  refine ⟨⟨trivial, ?_⟩, fun _ _ => trivial⟩
  show z₃.length + 0 < 2 ^ 32
  rw [h₃.holds.length]
  simp only [Op.growth, List.length_cons, List.length_nil] at hlen₃
  omega

/-- Insertions of `n` low nodes, each in front of the others. -/
def lowInserts (m : ℕ) : ℕ → List (Op ℤ)
  | 0 => []
  | n + 1 => .insert (m + 2) 1 (-((m + 1 : ℕ) : ℤ)) [] :: lowInserts (m + 1) n

/-- A node of height 2 behind `n` nodes of height 1. -/
def overflowSteps (n : ℕ) : List (Op ℤ) := .insert 1 2 0 [] :: lowInserts 0 n

theorem run_lowInserts {m n : ℕ} {z : Zskiplist ℤ} {s : List (Tower (ℤ × Bytes))}
    (h : HoldsSorted z (s ++ [⟨1, 2, (0, [])⟩])) (hs : Flat 1 s) (hlen : s.length = m)
    (href : ∀ y ∈ s, y.ref < m + 2) (hscore : ∀ y ∈ s, -((m + 1 : ℕ) : ℤ) < y.data.1) :
    AllSteps Valid z (lowInserts m n) ∧ ∃ z' s', run z (lowInserts m n) = some z' ∧
      HoldsSorted z' (s' ++ [⟨1, 2, (0, [])⟩]) ∧ Flat 1 s' ∧ s'.length = m + n := by
  induction n generalizing m z s with
  | zero => exact ⟨trivial, z, s, rfl, h, hs, hlen⟩
  | succ n ih =>
    obtain ⟨hvalid, z₁, hstep, h₁⟩ := step_insert_front (m + 2) 1
      (-((m + 1 : ℕ) : ℤ)) h Nat.one_pos (by decide)
      (by
        intro y hy
        rcases List.mem_append.mp hy with hy | hy
        · exact (href y hy).ne
        · obtain rfl := List.mem_singleton.mp hy
          show 1 ≠ m + 2
          omega)
      (by show m + 2 ≠ 0; omega)
      (by
        intro y hy
        rcases List.mem_append.mp hy with hy | hy
        · exact hscore y hy
        · obtain rfl := List.mem_singleton.mp hy
          show -((m + 1 : ℕ) : ℤ) < 0
          omega)
    obtain ⟨hall, z', s', hrun, h', hs', hlen'⟩ := ih (m := m + 1) (z := z₁)
      (s := ⟨m + 2, 1, (-((m + 1 : ℕ) : ℤ), [])⟩ :: s) h₁ (flat_cons.mpr ⟨le_rfl, hs⟩)
      (by rw [List.length_cons, hlen])
      (by
        intro y hy
        rcases List.mem_cons.mp hy with rfl | hy
        · exact Nat.lt_succ_self _
        · exact (href y hy).trans (Nat.lt_succ_self _))
      (by
        intro y hy
        rcases List.mem_cons.mp hy with rfl | hy
        · show -((m + 1 + 1 : ℕ) : ℤ) < -((m + 1 : ℕ) : ℤ)
          omega
        · have := hscore y hy
          omega)
    refine ⟨⟨hvalid, fun z₂ hz₂ => ?_⟩, z', s', ?_, h', hs', by omega⟩
    · obtain rfl : z₁ = z₂ := Option.some_inj.mp (hstep.symm.trans hz₂)
      exact hall
    · rw [lowInserts, run, hstep]
      exact hrun

theorem run_overflowSteps (n : ℕ) : ∃ z s, AllSteps Valid zslCreate (overflowSteps n) ∧
    run zslCreate (overflowSteps n) = some z ∧ HoldsSorted z (s ++ [⟨1, 2, (0, [])⟩]) ∧
    Flat 1 s ∧ s.length = n := by
  obtain ⟨hvalid, z₁, hstep, h₁⟩ := step_insert_front (z := zslCreate) (L := []) 1 2
    (0 : ℤ) holdsSorted_zslCreate Nat.two_pos (by decide) (by simp) (by decide) (by simp)
  obtain ⟨hall, z, s, hrun, h, hs, hlen⟩ := run_lowInserts (m := 0) (n := n) (s := [])
    h₁ flat_nil rfl (by simp) (by simp)
  refine ⟨z, s, ⟨hvalid, fun z₂ hz₂ => ?_⟩, ?_, h, hs, by omega⟩
  · obtain rfl : z₁ = z₂ := Option.some_inj.mp (hstep.symm.trans hz₂)
    exact hall
  · rw [overflowSteps, run, hstep]
    exact hrun

/-- The spans of the header are not kept in the levels that are not in use: after one
insertion at level 1, the header has no next node in level 2, and its span there is
still 0, not 1.  And a span does not count `2 ^ 32` steps. -/
theorem run_spans :
    (∃ z, AllSteps Valid zslCreate [Op.insert 1 1 (0 : ℤ) []] ∧
      run zslCreate [Op.insert 1 1 (0 : ℤ) []] = some z ∧
      IsSkiplist z [(0, [])] [⟨1, 1, (0, [])⟩] ∧
      ¬ LinksExact z [⟨1, 1, (0, [])⟩] zskiplistMaxlevel) ∧
    ∃ z L, AllSteps Valid zslCreate (overflowSteps (2 ^ 32)) ∧
      run zslCreate (overflowSteps (2 ^ 32)) = some z ∧
      HoldsSorted z L ∧ ¬ LinksExact z L z.level := by
  constructor
  · obtain ⟨hvalid, z, hstep, h⟩ := step_insert_front (z := zslCreate) (L := []) 1 1
      (0 : ℤ) holdsSorted_zslCreate Nat.one_pos (by decide) (by simp) (by decide) (by simp)
    refine ⟨z, ⟨hvalid, fun _ _ => trivial⟩, ?_, h.isSkiplist ?_, fun hexact => ?_⟩
    · rw [run, hstep]
      rfl
    · rw [h.holds.length]
      decide
    · have hlev : (step zslCreate (Op.insert 1 1 (0 : ℤ) [])).map (fun z => z.lev 1 header)
          = some (some ⟨none, 0⟩) := by decide
      rw [hstep, Option.map_some, Option.some_inj] at hlev
      obtain ⟨l, hl, -, hspan⟩ := hexact 1 (by decide) [] headerTower _ rfl (by decide)
      obtain rfl := Option.some_inj.mp (hlev.symm.trans hl)
      exact absurd hspan (by decide)
  · obtain ⟨z, s, hall, hrun, h, hs, hlen⟩ := run_overflowSteps (2 ^ 32)
    refine ⟨z, s ++ [⟨1, 2, (0, [])⟩], hall, hrun, h, fun hexact => ?_⟩
    have hlevel : 1 < z.level := (h.holds.height ⟨1, 2, (0, [])⟩ (by simp)).2
    obtain ⟨l, -, -, hspan⟩ := hexact 1 hlevel [] headerTower _ rfl (by decide)
    rw [nextSpan_append_flat hs, hlen] at hspan
    have := l.span.isLt
    omega

end Zskiplist

/-
What a skip list contains.

`Holds z L` relates a skip list to its list of nodes with their addresses and
heights: scores, members and backward pointers, and the forward pointers and
spans of all levels in use.  No other node is allocated.

* `zslSearch_spec` — where a search ends;
* `zslInsert_spec` — a node is put where the search ends;
* `zslDeleteNode_spec`, `zslDeleteWhile_spec` — one node, or a run of nodes, is
  taken out; the `update` array stays valid;
* `TopLevel` — the highest level in use is not empty.
-/
import RedisModel.Skiplist

open ByteBuffer SkipChain

/-! ### The order of the pairs -/

theorem memcmp_nil (b : Bytes) : memcmp [] b = .eq := rfl

theorem memcmp_cons_nil (x : UInt8) (a : Bytes) : memcmp (x :: a) [] = .eq := rfl

theorem memcmp_cons (x y : UInt8) (a b : Bytes) :
    memcmp (x :: a) (y :: b) = if x < y then .lt else if y < x then .gt else memcmp a b := rfl

theorem memcmp_swap (a b : Bytes) : memcmp b a = (memcmp a b).swap := by
  induction a generalizing b with
  | nil => cases b <;> rfl
  | cons x a ih =>
    cases b with
    | nil => rfl
    | cons y b =>
      rcases lt_trichotomy x.toNat y.toNat with h | h | h
      · have hxy : x < y := h
        have hyx : ¬ y < x := not_lt.mpr h.le
        simp [memcmp_cons, hxy, hyx]
      · obtain rfl := UInt8.toNat_inj.mp h
        simp [memcmp_cons, ih]
      · have hyx : y < x := h
        have hxy : ¬ x < y := not_lt.mpr h.le
        simp [memcmp_cons, hxy, hyx]

theorem compareStringObjects_swap (a b : Bytes) :
    compareStringObjects b a = (compareStringObjects a b).swap := by
  rw [compareStringObjects, compareStringObjects, memcmp_swap a b, Ordering.swap_then]
  congr 1
  exact (Nat.compare_swap _ _).symm

theorem compareStringObjects_cons (x y : UInt8) (a b : Bytes) :
    compareStringObjects (x :: a) (y :: b)
      = if x < y then .lt else if y < x then .gt else compareStringObjects a b := by
  simp only [compareStringObjects, memcmp_cons, List.length_cons]
  have hlen : compare (a.length + 1) (b.length + 1) = compare a.length b.length := by
    simp only [Nat.compare_eq_ite_lt, Nat.add_lt_add_iff_right]
  split_ifs <;> simp [hlen]

theorem compareStringObjects_eq_lt {a b : Bytes} : compareStringObjects a b = .lt ↔ a < b := by
  induction a generalizing b with
  | nil =>
    cases b with
    | nil => simp [compareStringObjects, memcmp_nil]
    | cons y b => simp [compareStringObjects, memcmp_nil, Nat.compare_eq_lt]
  | cons x a ih =>
    cases b with
    | nil => simp [compareStringObjects, memcmp_cons_nil, Nat.compare_eq_lt]
    | cons y b =>
      rw [compareStringObjects_cons, List.cons_lt_cons_iff]
      rcases lt_trichotomy x.toNat y.toNat with h | h | h
      · have hxy : x < y := h
        simp [hxy]
      · obtain rfl := UInt8.toNat_inj.mp h
        simp [ih]
      · have hyx : y < x := h
        have hxy : ¬ x < y := not_lt.mpr h.le
        have hne : x ≠ y := by
          rintro rfl
          exact hxy hyx
        simp [hxy, hyx, hne]

theorem compareStringObjects_eq_eq {a b : Bytes} : compareStringObjects a b = .eq ↔ a = b := by
  induction a generalizing b with
  | nil =>
    cases b with
    | nil => simp [compareStringObjects, memcmp_nil]
    | cons y b => simp [compareStringObjects, memcmp_nil]
  | cons x a ih =>
    cases b with
    | nil => simp [compareStringObjects, memcmp_cons_nil]
    | cons y b =>
      rw [compareStringObjects_cons, List.cons_eq_cons]
      rcases lt_trichotomy x.toNat y.toNat with h | h | h
      · have hxy : x < y := h
        have hne : x ≠ y := fun heq => absurd (congrArg UInt8.toNat heq) h.ne
        simp [hxy, hne]
      · obtain rfl := UInt8.toNat_inj.mp h
        simp [ih]
      · have hyx : y < x := h
        have hxy : ¬ x < y := not_lt.mpr h.le
        have hne : x ≠ y := fun heq => absurd (congrArg UInt8.toNat heq) h.ne'
        simp [hxy, hyx, hne]

theorem equalStringObjects_iff {a b : Bytes} : equalStringObjects a b = true ↔ a = b := by
  rw [equalStringObjects, beq_iff_eq, compareStringObjects_eq_eq]

namespace Zskiplist

variable {S : Type}

/-! ### The loops over the levels -/

theorem setLevel_some (lev : Ref → Option ZskiplistLevel) (r : Ref) {l₀ : ZskiplistLevel}
    (h : lev r = some l₀) (l : ZskiplistLevel) :
    setLevel lev r l = some (Function.update lev r (some l)) := by
  simp [setLevel, h]

theorem forLevels_spec
    (body : ℕ → (Ref → Option ZskiplistLevel) → Option (Ref → Option ZskiplistLevel))
    (P : ℕ → (Ref → Option ZskiplistLevel) → Prop) (first count : ℕ)
    (lev : ℕ → Ref → Option ZskiplistLevel)
    (h : ∀ i, first ≤ i → i < first + count → ∃ l, body i (lev i) = some l ∧ P i l) :
    ∃ lev', forLevels body first count lev = some lev' ∧
      (∀ i, first ≤ i → i < first + count → P i (lev' i)) ∧
      ∀ i, i < first ∨ first + count ≤ i → lev' i = lev i := by
  induction count generalizing first lev with
  | zero => exact ⟨lev, rfl, fun i h₁ h₂ => absurd h₂ (by omega), fun _ _ => rfl⟩
  | succ count ih =>
    obtain ⟨l, hl, hP⟩ := h first le_rfl (by omega)
    obtain ⟨lev', hloop, hin, hout⟩ := ih (first + 1)
      (Function.update lev first l) (by
        intro i h₁ h₂
        rw [Function.update_of_ne (by omega)]
        exact h i (by omega) (by omega))
    refine ⟨lev', ?_, fun i h₁ h₂ => ?_, fun i hi => ?_⟩
    · simp only [forLevels, hl, Option.bind_eq_bind, Option.bind_some, hloop]
    · rcases h₁.eq_or_lt with rfl | hlt
      · rw [hout first (by omega), Function.update_self]
        exact hP
      · exact hin i (by omega) (by omega)
    · rw [hout i (by omega), Function.update_of_ne (by omega)]

/-! ### The contents of a skip list -/

/-- The header; its score is never used. -/
def headerTower [Zero S] : Tower (S × Bytes) := ⟨header, zskiplistMaxlevel, (0, [])⟩

/-- Scores, members and backward pointers of the nodes, from left to right. -/
def Nodes (node : Ref → Option (ZskiplistNode S)) : Option Ref → List (Tower (S × Bytes)) → Prop
  | _, [] => True
  | prev, y :: s => node y.ref = some ⟨y.data.2, y.data.1, prev⟩ ∧ Nodes node (some y.ref) s

/-- The nodes of a skip list are `L`, in this order. -/
structure Holds [Zero S] (z : Zskiplist S) (L : List (Tower (S × Bytes))) : Prop where
  nodes : Nodes z.node none L
  alloc : ∀ r, z.node r ≠ none → r ∈ L.map Tower.ref
  tail : z.tail = lastRef none L
  length : z.length = L.length
  linked : ∀ i < z.level, Linked (z.lev i) i (headerTower :: L) []
  unused : ∀ i, z.level ≤ i → i < zskiplistMaxlevel →
    ∃ l, z.lev i header = some l ∧ l.forward = none
  nodup : ((headerTower :: L).map Tower.ref).Nodup
  height : ∀ y ∈ L, 0 < y.height ∧ y.height ≤ z.level
  level_pos : 0 < z.level
  level_le : z.level ≤ zskiplistMaxlevel

/-- The highest level in use is not empty. -/
def TopLevel (z : Zskiplist S) (L : List (Tower (S × Bytes))) : Prop :=
  z.level = 1 ∨ ∃ y ∈ L, y.height = z.level

theorem nodes_append {node : Ref → Option (ZskiplistNode S)} {prev : Option Ref}
    {p s : List (Tower (S × Bytes))} :
    Nodes node prev (p ++ s) ↔ Nodes node prev p ∧ Nodes node (lastRef prev p) s := by
  induction p generalizing prev with
  | nil => simp [Nodes, lastRef]
  | cons y p ih => simp only [List.cons_append, Nodes, lastRef, ih, and_assoc]

theorem Nodes.congr {node node' : Ref → Option (ZskiplistNode S)} {prev : Option Ref}
    {p : List (Tower (S × Bytes))} (h : Nodes node prev p)
    (heq : ∀ r ∈ p.map Tower.ref, node' r = node r) : Nodes node' prev p := by
  induction p generalizing prev with
  | nil => trivial
  | cons y p ih =>
    refine ⟨by rw [heq y.ref (by simp), h.1], ih h.2 fun r hr => heq r ?_⟩
    exact List.mem_cons_of_mem _ hr

theorem Nodes.get {node : Ref → Option (ZskiplistNode S)} {prev : Option Ref}
    {p s : List (Tower (S × Bytes))} {y : Tower (S × Bytes)} (h : Nodes node prev (p ++ y :: s)) :
    node y.ref = some ⟨y.data.2, y.data.1, lastRef prev p⟩ :=
  (nodes_append.mp h).2.1

section
variable [Zero S] {z : Zskiplist S} {L p s : List (Tower (S × Bytes))} {x : Tower (S × Bytes)}

theorem Holds.flat (h : Holds z L) : Flat z.level L := fun y hy => (h.height y hy).2

theorem Holds.ref_ne_header (h : Holds z L) {y : Tower (S × Bytes)} (hy : y ∈ L) :
    y.ref ≠ header := by
  have hnd := h.nodup
  rw [List.map_cons, List.nodup_cons] at hnd
  rintro heq
  exact hnd.1 (List.mem_map.mpr ⟨y, hy, heq⟩)

theorem holds_zslCreate : Holds (zslCreate : Zskiplist S) [] where
  nodes := trivial
  alloc := fun _ hr => absurd rfl hr
  tail := rfl
  length := rfl
  linked := by
    intro i hi
    obtain rfl : i = 0 := by
      simp only [zslCreate] at hi
      omega
    exact ⟨fun _ => rfl, trivial⟩
  unused := by
    intro i _ hi
    exact ⟨⟨none, 0⟩, by simp [zslCreate, hi], rfl⟩
  nodup := by simp
  height := by simp
  level_pos := Nat.one_pos
  level_le := show 1 ≤ 32 by omega

/-! ### Searching -/

/-- A search ends before the first node that does not meet the condition; `update`
has the last node of each level before that place. -/
theorem zslSearch_spec {ρ : Type} (cond : ZskiplistNode S → ρ → Bool) (add : ρ → BitVec 32 → ρ)
    (f : ℕ → ρ) (C : Tower (S × Bytes) → ℕ → Bool) (h : Holds z L)
    (hcond : ∀ y k b, y ∈ L → cond ⟨y.data.2, y.data.1, b⟩ (f k) = C y k)
    (hadd : ∀ m n, m + n ≤ L.length → add (f m) (n : BitVec 32) = f (m + n)) :
    ∃ p s update, zslSearch z cond add (f 0) = some update ∧ L = p ++ s ∧
      update.length = z.level ∧ EndsAt f 0 (headerTower :: p) update ∧
      (∀ a u, p = a ++ [u] → C u p.length = true) ∧
      ∀ y t, s = y :: t → C y (p.length + 1) = false := by
  have hsees : Sees (fun y acc => (z.node y).map (cond · acc)) add f C (headerTower :: L) := by
    constructor
    · intro a y s hsplit ha
      obtain ⟨hd, a, rfl⟩ := List.exists_cons_of_ne_nil ha
      obtain ⟨-, hL⟩ := List.cons.inj hsplit
      have hnodes := h.nodes
      rw [hL] at hnodes
      rw [hnodes.get, Option.map_some, hcond y _ _ (by simp [hL])]
    · intro m n hmn
      exact hadd m n (by simpa [Nat.lt_succ_iff] using hmn)
  obtain ⟨a, u, s, update, hd, hsplit, hlen, hends, hblock, hlast⟩ :=
    descend_spec z.lev (z.length + 1) hsees h.linked (a := []) (s := L) (u := headerTower) rfl
      h.level_le (blocked_flat h.flat) (by rw [h.length]; omega) (endsAt_nil f z.level _)
  have hcut : ∀ y t, s = y :: t → C y (a.length + 1) = false := by
    rintro y t rfl
    refine (blocked_cons_tall ?_).mp hblock
    rcases a with _ | ⟨hd, a⟩
    · exact (h.height y (by simp [(List.cons.inj hsplit).2])).1
    · exact (h.height y (by simp [(List.cons.inj hsplit).2])).1
  rcases a with _ | ⟨hd', a⟩
  · obtain ⟨rfl, rfl⟩ := List.cons.inj hsplit
    exact ⟨[], L, update, hd, rfl, by simpa using hlen, hends, by simp, hcut⟩
  · obtain ⟨rfl, hL⟩ := List.cons.inj hsplit
    refine ⟨a ++ [u], s, update, hd, by simp [hL], by simpa using hlen, hends, ?_, ?_⟩
    · intro a' u' heq
      obtain ⟨rfl, hu⟩ := List.append_inj' heq rfl
      obtain rfl : u = u' := by simpa using hu
      rcases hlast with hcontra | hC
      · simp at hcontra
      · simpa using hC
    · simpa using hcut

/-! ### Insertion -/

/-- The value of a position in an `unsigned int`. -/
def rank32 (k : ℕ) : BitVec 32 := (k : BitVec 32)

theorem zslOpenLevels_spec {level : ℕ} {update : List (Ref × BitVec 32)} (h : Holds z (p ++ s))
    (hends : EndsAt rank32 0 (headerTower :: p) update) (hlen : update.length = z.level)
    (hlevel : level ≤ zskiplistMaxlevel) :
    ∃ z' update', zslOpenLevels z level update = some (z', update') ∧ Holds z' (p ++ s) ∧
      EndsAt rank32 0 (headerTower :: p) update' ∧ update'.length = z'.level ∧
      z'.level = max z.level level ∧ z'.node = z.node := by
  by_cases hgt : level > z.level
  · obtain ⟨lev, hloop, hin, hout⟩ := forLevels_spec
      (fun _ lev => do
        let l ← lev header
        setLevel lev header { l with span := (z.length : BitVec 32) })
      (fun _ lev => lev header = some ⟨none, (z.length : BitVec 32)⟩)
      z.level (level - z.level) z.lev (by
        intro i h₁ h₂
        obtain ⟨l, hl, hnone⟩ := h.unused i h₁ (by omega)
        refine ⟨Function.update (z.lev i) header (some ⟨none, (z.length : BitVec 32)⟩), ?_,
          Function.update_self _ _ _⟩
        simp only [hl, Option.bind_eq_bind, Option.bind_some, setLevel_some _ _ hl, hnone])
    have hopen : zslOpenLevels z level update = some ({ z with lev, level },
        update ++ List.replicate (level - z.level) (header, 0)) := by
      rw [zslOpenLevels, if_pos hgt, hloop]
      rfl
    refine ⟨_, _, hopen, ⟨h.nodes, h.alloc, h.tail, h.length, ?_, ?_, h.nodup, ?_, ?_, hlevel⟩, ?_, ?_, ?_,
      rfl⟩
    · intro i hi
      by_cases hold : i < z.level
      · rw [show ({ z with lev, level } : Zskiplist S).lev i = z.lev i from hout i (Or.inl hold)]
        exact h.linked i hold
      · -- a new level: no node reaches it
        have hflat : Flat i (p ++ s) := h.flat.mono (not_lt.mp hold)
        refine ⟨fun _ => ?_, linked_flat hflat⟩
        rw [List.append_nil, nextRef_flat hflat, nextSpan_flat hflat, ← h.length]
        exact hin i (not_lt.mp hold) (by have : i < level := hi; omega)
    · intro i hi hmax
      have hi' : level ≤ i := hi
      rw [show ({ z with lev, level } : Zskiplist S).lev i = z.lev i from hout i (by omega)]
      exact h.unused i (by omega) hmax
    · intro y hy
      exact ⟨(h.height y hy).1, (h.height y hy).2.trans hgt.le⟩
    · exact h.level_pos.trans hgt
    · intro j place hj
      by_cases hjlt : j < update.length
      · rw [List.getElem?_append_left hjlt] at hj
        exact hends j place hj
      · rw [List.getElem?_append_right (not_lt.mp hjlt), List.getElem?_replicate] at hj
        split_ifs at hj with hj'
        obtain rfl := Option.some_inj.mp hj
        have hflat : Flat (0 + j) p := (flat_append.mp h.flat).1.mono (by omega)
        refine ⟨0, by simp [rank32], [], headerTower, p, rfl, ?_, hflat, rfl, rfl⟩
        have hmax : (headerTower (S := S)).height = zskiplistMaxlevel := rfl
        omega
    · rw [List.length_append, List.length_replicate, hlen]
      exact Nat.add_sub_cancel' hgt.le
    · exact (max_eq_right (le_of_lt hgt)).symm
  · refine ⟨z, update, by rw [zslOpenLevels, if_neg hgt], h, hends, hlen, ?_, rfl⟩
    exact (max_eq_left (not_lt.mp hgt)).symm

omit [Zero S] in
theorem rank_sub {update : List (Ref × BitVec 32)} {a b : List (Tower (S × Bytes))}
    {u : Tower (S × Bytes)} (hends : EndsAt rank32 0 (a ++ u :: b) update)
    (hpos : ∀ y ∈ a ++ u :: b, 0 < y.height) (hlen : 0 < update.length) :
    ∃ u₀, update[0]? = some u₀ ∧ u₀.2 - rank32 a.length = (b.length : BitVec 32) := by
  obtain ⟨a₀, t, b₀, h₀, hsplit, ht, hb₀⟩ := hends.get hlen
  obtain ⟨a₁, t₁, hsplit₁, -, hk⟩ :=
    IsLast.zero (r := t.ref) (k := a₀.length) ⟨a₀, t, b₀, hsplit, ht, hb₀, rfl, rfl⟩ hpos
  refine ⟨_, h₀, ?_⟩
  have hcount := congrArg List.length hsplit₁
  simp only [List.length_append, List.length_cons, List.length_nil, hk] at hcount
  rw [show a₀.length = a.length + b.length by omega, rank32, rank32, Nat.cast_add]
  ring

omit [Zero S] in
theorem ref_ne_of_nodup {a b : List (Tower (S × Bytes))} {u : Tower (S × Bytes)}
    (hnd : ((a ++ u :: b ++ x :: s).map Tower.ref).Nodup) : u.ref ≠ x.ref := by
  simp only [List.map_append, List.map_cons, List.nodup_append, List.mem_append,
    List.mem_cons] at hnd
  exact hnd.2.2 u.ref (Or.inr (Or.inl rfl)) x.ref (Or.inl rfl)

theorem linkLevel_spec {update : List (Ref × BitVec 32)} {lev : Ref → Option ZskiplistLevel}
    {l₀ : ZskiplistLevel} {i : ℕ} (hends : EndsAt rank32 0 (headerTower :: p) update)
    (hi : i < update.length) (hpos : ∀ y ∈ headerTower :: p, 0 < y.height)
    (hlink : Linked lev i (headerTower :: p ++ s) [])
    (hnd : ((headerTower :: p ++ x :: s).map Tower.ref).Nodup) (hx : i < x.height) :
    ∃ lev', linkLevel update x.ref i (Function.update lev x.ref (some l₀)) = some lev' ∧
      Linked lev' i (headerTower :: p ++ x :: s) [] := by
  obtain ⟨a, u, b, hu_at, hsplit, hu, hb⟩ := hends.get hi
  rw [hsplit] at hends hpos hlink hnd ⊢
  obtain ⟨u₀, hu₀, hrank⟩ := rank_sub hends hpos (by omega)
  have hne : u.ref ≠ x.ref := ref_ne_of_nodup hnd
  have hlu := (linked_append.mp hlink).1.get_last hu hb
  rw [List.append_nil] at hlu
  set lu : ZskiplistLevel := ⟨nextRef i s, (b.length + nextSpan i s : ℕ)⟩ with hlu_def
  refine ⟨Function.update (Function.update lev x.ref
    (some ⟨nextRef i s, lu.span - b.length⟩)) u.ref (some ⟨some x.ref, (b.length : BitVec 32) + 1⟩),
    ?_, hlink.insert hnd hu hb (fun r hru hrx => ?_) ?_ fun _ => ?_⟩
  · have hget : Function.update lev x.ref (some l₀) u.ref = some lu := by
      rw [Function.update_of_ne hne, hlu]
    have hset := setLevel_some (Function.update lev x.ref (some l₀)) x.ref
      (Function.update_self _ _ _) ⟨lu.forward, lu.span - b.length⟩
    rw [Function.update_idem] at hset
    have hset' := setLevel_some (Function.update lev x.ref
      (some ⟨nextRef i s, lu.span - b.length⟩)) u.ref
      (show _ = some lu by rw [Function.update_of_ne hne, hlu]) ⟨some x.ref, (b.length : BitVec 32) + 1⟩
    simp only [linkLevel, hu_at, hu₀, hget, hrank, Option.bind_eq_bind, Option.bind_some, hset]
    exact hset'
  · rw [Function.update_of_ne hru, Function.update_of_ne hrx]
  · rw [Function.update_self, nextRef_cons_tall hx, nextSpan_cons_tall hx, Nat.cast_succ]
  · rw [Function.update_of_ne hne.symm, Function.update_self, hlu_def, Nat.cast_add]
    simp only [add_sub_cancel_left]

theorem bumpLevel_spec {update : List (Ref × BitVec 32)} {lev : Ref → Option ZskiplistLevel}
    {i : ℕ} (hends : EndsAt rank32 0 (headerTower :: p) update) (hi : i < update.length)
    (hlink : Linked lev i (headerTower :: p ++ s) [])
    (hnd : ((headerTower :: p ++ x :: s).map Tower.ref).Nodup) (hx : x.height ≤ i) :
    ∃ lev', bumpLevel update i (Function.update lev x.ref none) = some lev' ∧
      Linked lev' i (headerTower :: p ++ x :: s) [] := by
  obtain ⟨a, u, b, hu_at, hsplit, hu, hb⟩ := hends.get hi
  rw [hsplit] at hlink hnd ⊢
  have hne : u.ref ≠ x.ref := ref_ne_of_nodup hnd
  have hlu := (linked_append.mp hlink).1.get_last hu hb
  rw [List.append_nil] at hlu
  have hget : Function.update lev x.ref none u.ref
      = some ⟨nextRef i s, (b.length + nextSpan i s : ℕ)⟩ := by
    rw [Function.update_of_ne hne, hlu]
  refine ⟨Function.update (Function.update lev x.ref none) u.ref
    (some ⟨nextRef i s, ((b.length + nextSpan i s : ℕ) : BitVec 32) + 1⟩),
    ?_, hlink.insert hnd hu hb (fun r hru hrx => ?_) ?_ fun h => absurd h (not_lt.mpr hx)⟩
  · simp only [bumpLevel, hu_at, hget, Option.bind_eq_bind, Option.bind_some]
    exact setLevel_some _ _ hget _
  · rw [Function.update_of_ne hru, Function.update_of_ne hrx]
  · rw [Function.update_self, nextRef_cons_flat hx, nextSpan_cons_flat hx, ← add_assoc,
      Nat.cast_succ]

omit [Zero S] in
theorem setNextBackward_spec {prev : Option Ref} (backward : Option Ref) (hnodes : Nodes z.node prev s)
    (hpos : ∀ y ∈ s, 0 < y.height) (hnd : (s.map Tower.ref).Nodup)
    (htail : z.tail = lastRef prev s) :
    ∃ node, setNextBackward z (nextRef 0 s) backward
        = some { z with node, tail := lastRef backward s } ∧
      Nodes node backward s ∧ ∀ r ∉ s.map Tower.ref, node r = z.node r := by
  rcases s with _ | ⟨y, t⟩
  · exact ⟨z.node, rfl, trivial, fun _ _ => rfl⟩
  · rw [List.map_cons, List.nodup_cons] at hnd
    have htail' : z.tail = lastRef backward (y :: t) := htail
    refine ⟨Function.update z.node y.ref (some ⟨y.data.2, y.data.1, backward⟩), ?_, ⟨?_, ?_⟩, ?_⟩
    · rw [nextRef_cons_tall (hpos y (by simp)), ← htail']
      simp only [setNextBackward, setBackward, hnodes.1, Option.bind_eq_bind, Option.bind_some]
    · rw [Function.update_self]
    · refine hnodes.2.congr fun r hr => Function.update_of_ne ?_ _ _
      rintro rfl
      exact hnd.1 hr
    · intro r hr
      refine Function.update_of_ne ?_ _ _
      rintro rfl
      exact hr (by simp)

theorem backward_eq {a : List (Tower (S × Bytes))} {u : Tower (S × Bytes)}
    (hsplit : headerTower :: p = a ++ [u]) (hne : ∀ y ∈ p, y.ref ≠ header) :
    (if u.ref = header then none else some u.ref) = lastRef none p := by
  rcases a with _ | ⟨hd, a⟩
  · obtain ⟨rfl, rfl⟩ := List.cons.inj hsplit
    rfl
  · have hp : p = a ++ [u] := (List.cons.inj hsplit).2
    rw [if_neg (hne u (by simp [hp])), hp, lastRef_append]
    rfl

omit [Zero S] in
theorem zslCreateNode_lev (z : Zskiplist S) (r : Ref) (level : ℕ) (score : S) (obj : Bytes)
    (i : ℕ) : (zslCreateNode z r level score obj).lev i
      = Function.update (z.lev i) r (if i < level then some ⟨none, 0⟩ else none) := rfl

theorem zslLinkNode_spec {update : List (Ref × BitVec 32)} (h : Holds z (p ++ s))
    (hends : EndsAt rank32 0 (headerTower :: p) update) (hlen : update.length = z.level)
    (hx₀ : 0 < x.height) (hx : x.height ≤ z.level)
    (hfresh : x.ref ∉ (headerTower :: (p ++ s)).map Tower.ref) :
    ∃ z', zslLinkNode z update x.ref x.height x.data.1 x.data.2 = some z' ∧
      Holds z' (p ++ x :: s) ∧ z'.level = z.level := by
  have hperm : (headerTower :: p ++ x :: s).Perm (x :: headerTower :: (p ++ s)) :=
    List.perm_middle
  have hnd : ((headerTower :: p ++ x :: s).map Tower.ref).Nodup :=
    ((hperm.map _).nodup_iff).mpr (List.nodup_cons.mpr ⟨hfresh, h.nodup⟩)
  have hpos : ∀ y ∈ headerTower :: p, 0 < y.height := by
    intro y hy
    rcases List.mem_cons.mp hy with rfl | hy
    · exact Nat.zero_lt_succ _
    · exact (h.height y (by simp [hy])).1
  -- the levels of the new node, and those above it
  obtain ⟨lev₁, hloop₁, hin₁, hout₁⟩ := forLevels_spec (linkLevel update x.ref)
    (fun i l => Linked l i (headerTower :: p ++ x :: s) []) 0 x.height
    (zslCreateNode z x.ref x.height x.data.1 x.data.2).lev (by
      intro i _ hi
      rw [zslCreateNode_lev, if_pos (by omega)]
      exact linkLevel_spec hends (by omega) hpos (h.linked i (by omega)) hnd (by omega))
  obtain ⟨lev₂, hloop₂, hin₂, hout₂⟩ := forLevels_spec (bumpLevel update)
    (fun i l => Linked l i (headerTower :: p ++ x :: s) []) x.height (z.level - x.height) lev₁ (by
      intro i h₁ h₂
      rw [hout₁ i (by omega), zslCreateNode_lev, if_neg (by omega)]
      exact bumpLevel_spec hends (by omega) (h.linked i (by omega)) hnd h₁)
  have hlinked : ∀ i < z.level, Linked (lev₂ i) i (headerTower :: p ++ x :: s) [] := by
    intro i hi
    by_cases hlow : i < x.height
    · rw [hout₂ i (Or.inl hlow)]
      exact hin₁ i (Nat.zero_le _) (by omega)
    · exact hin₂ i (not_lt.mp hlow) (by omega)
  -- the nodes
  obtain ⟨a, u, b, hu_at, hsplit, hu, hb⟩ := hends.get (j := 0) (by rw [hlen]; exact h.level_pos)
  obtain ⟨a', u', hsplit', hr', -⟩ :=
    IsLast.zero (r := u.ref) (k := a.length) ⟨a, u, b, hsplit, hu, hb, rfl, rfl⟩ hpos
  have hback : (if u.ref = header then none else some u.ref) = lastRef none p := by
    rw [← hr']
    exact backward_eq hsplit' fun y hy => h.ref_ne_header (by simp [hy])
  have hforward := (hlinked 0 h.level_pos).get hx₀
  set node₁ : Ref → Option (ZskiplistNode S) := Function.update z.node x.ref
    (some ⟨x.data.2, x.data.1, lastRef none p⟩) with hnode₁
  have hnode_of_ne : ∀ r, r ≠ x.ref → node₁ r = z.node r := fun r hr =>
    Function.update_of_ne hr _ _
  have hfresh' : ∀ r ∈ (p ++ s).map Tower.ref, r ≠ x.ref := by
    rintro r hr rfl
    exact hfresh (List.mem_cons_of_mem _ hr)
  obtain ⟨hnodes_p, hnodes_s⟩ := nodes_append.mp
    (h.nodes.congr fun r hr => hnode_of_ne r (hfresh' r hr))
  have hnd_s : (s.map Tower.ref).Nodup := by
    have hnd' := h.nodup
    rw [List.map_cons, List.nodup_cons, List.map_append, List.nodup_append] at hnd'
    exact hnd'.2.2.1
  obtain ⟨node, hnext, hnodes, hframe⟩ := setNextBackward_spec
    (z := { z with node := node₁, lev := lev₂ }) (some x.ref) hnodes_s
    (fun y hy => (h.height y (by simp [hy])).1) hnd_s (by rw [h.tail, lastRef_append])
  refine ⟨{ z with node, lev := lev₂, tail := lastRef (some x.ref) s, length := z.length + 1 },
    ?_, ⟨?_, ?_, ?_, ?_, hlinked, ?_, hnd, ?_, h.level_pos, h.level_le⟩, rfl⟩
  · have hset : setBackward (zslCreateNode z x.ref x.height x.data.1 x.data.2).node x.ref
        (lastRef none p) = some node₁ := by
      simp only [setBackward, zslCreateNode, Function.update_self, Option.bind_eq_bind,
        Option.bind_some, Function.update_idem, hnode₁]
    have hlevel : (zslCreateNode z x.ref x.height x.data.1 x.data.2).level = z.level := rfl
    simp only [zslLinkNode, hloop₁, hlevel, hloop₂, hu_at, hback, hset, hforward,
      Option.bind_eq_bind, Option.bind_some]
    show Option.bind (setNextBackward { z with node := node₁, lev := lev₂ } (nextRef 0 s)
      (some x.ref)) _ = _
    rw [hnext]
    rfl
  · refine nodes_append.mpr ⟨hnodes_p.congr fun r hr => hframe r fun hrs => ?_, ?_, hnodes⟩
    · have hnd' := h.nodup
      rw [List.map_cons, List.nodup_cons, List.map_append] at hnd'
      exact List.disjoint_of_nodup_append hnd'.2 hr hrs
    · exact (hframe x.ref fun hrs => hfresh' x.ref (by simp [hrs]) rfl).trans
        (Function.update_self _ _ _)
  · intro r hr
    simp only [List.map_append, List.map_cons, List.mem_append, List.mem_cons]
    by_cases hrs : r ∈ s.map Tower.ref
    · exact Or.inr (Or.inr hrs)
    · by_cases hrx : r = x.ref
      · exact Or.inr (Or.inl hrx)
      · have hold : node r = z.node r := (hframe r hrs).trans (hnode_of_ne r hrx)
        have hmem := h.alloc r (hold ▸ hr)
        rw [List.map_append, List.mem_append] at hmem
        exact Or.inl (hmem.resolve_right hrs)
  · rw [lastRef_append]
    rfl
  · rw [h.length]
    simp only [List.length_append, List.length_cons]
    omega
  · intro i hi hmax
    obtain ⟨l, hl, hnone⟩ := h.unused i hi hmax
    refine ⟨l, ?_, hnone⟩
    have hne : header ≠ x.ref := fun heq => hfresh (by simp [headerTower, heq])
    show lev₂ i header = some l
    rw [hout₂ i (Or.inr (by have : z.level ≤ i := hi; omega)),
      hout₁ i (Or.inr (by have : z.level ≤ i := hi; omega)), zslCreateNode_lev,
      Function.update_of_ne hne, hl]
  · intro y hy
    rw [List.mem_append, List.mem_cons] at hy
    rcases hy with hy | rfl | hy
    · exact h.height y (by simp [hy])
    · exact ⟨hx₀, hx⟩
    · exact h.height y (by simp [hy])

/-! ### Deletion -/

omit [Zero S] in
theorem ref_notMem_of_nodup (hnd : ((p ++ x :: s).map Tower.ref).Nodup) :
    x.ref ∉ (p ++ s).map Tower.ref := by
  have hperm : (p ++ x :: s).Perm (x :: (p ++ s)) := List.perm_middle
  exact (List.nodup_cons.mp (((hperm.map _).nodup_iff).mp hnd)).1

theorem unlinkLevel_spec {ρ : Type} {f : ℕ → ρ} {update : List (Ref × ρ)}
    {lev : Ref → Option ZskiplistLevel} {i : ℕ} (hends : EndsAt f 0 (headerTower :: p) update)
    (hi : i < update.length) (hlink : Linked lev i (headerTower :: p ++ x :: s) [])
    (hnd : ((headerTower :: p ++ x :: s).map Tower.ref).Nodup) :
    ∃ lev', unlinkLevel update x.ref i lev = some lev' ∧
      Linked lev' i (headerTower :: p ++ s) [] ∧ lev' x.ref = lev x.ref := by
  obtain ⟨a, u, b, hu_at, hsplit, hu, hb⟩ := hends.get hi
  have hmem := ref_notMem_of_nodup hnd
  rw [hsplit] at hlink hnd ⊢
  have hne : u.ref ≠ x.ref := ref_ne_of_nodup hnd
  have hlu := (linked_append.mp hlink).1.get_last hu hb
  rw [List.append_nil] at hlu
  -- the link of `u` after the deletion
  refine ⟨Function.update lev u.ref (some ⟨nextRef i s, (b.length + nextSpan i s : ℕ)⟩), ?_,
    hlink.remove hnd hu hb (fun r hru _ => Function.update_of_ne hru _ _)
      (Function.update_self _ _ _), Function.update_of_ne hne.symm _ _⟩
  by_cases hx : i < x.height
  · have hlx := (linked_append.mp hlink).2.1 hx
    rw [List.append_nil] at hlx
    rw [nextRef_cons_tall hx, nextSpan_cons_tall hx] at hlu
    have hspan : ((b.length + 1 : ℕ) : BitVec 32) + ((nextSpan i s : BitVec 32) - 1)
        = (b.length + nextSpan i s : ℕ) := by
      rw [Nat.cast_succ, Nat.cast_add]
      ring
    simp only [unlinkLevel, hu_at, hlu, hlx, Option.bind_eq_bind, Option.bind_some, if_true, hspan]
    exact setLevel_some _ _ hlu _
  · have hne' : nextRef i s ≠ some x.ref := fun heq =>
      hmem (by rw [List.map_append]; exact List.mem_append_right _ (nextRef_mem heq))
    rw [nextRef_cons_flat (not_lt.mp hx), nextSpan_cons_flat (not_lt.mp hx)] at hlu
    simp only [unlinkLevel, hu_at, hlu, Option.bind_eq_bind, Option.bind_some, if_neg hne']
    rw [setLevel_some _ _ hlu, ← add_assoc, Nat.cast_succ, add_sub_cancel_right]

theorem linked_header {lev : Ref → Option ZskiplistLevel} {i : ℕ}
    (h : Linked lev i (headerTower :: L) []) (hi : i < zskiplistMaxlevel) :
    lev header = some ⟨nextRef i L, (nextSpan i L : BitVec 32)⟩ := by
  have h' := h.1 hi
  rwa [List.append_nil] at h'

theorem dropLevels_spec (lev : ℕ → Ref → Option ZskiplistLevel) {n : ℕ} (hn : 0 < n)
    (hlink : ∀ i < n, Linked (lev i) i (headerTower :: L) []) (hmax : n ≤ zskiplistMaxlevel)
    (hflat : Flat n L) : ∃ m, dropLevels lev n = some m ∧ 0 < m ∧ m ≤ n ∧ Flat m L ∧
      (m = 1 ∨ ∃ y ∈ L, y.height = m) := by
  induction n with
  | zero => exact absurd hn (Nat.lt_irrefl 0)
  | succ n ih =>
    rcases n with _ | n
    · exact ⟨1, rfl, Nat.one_pos, le_rfl, hflat, Or.inl rfl⟩
    · have hhead := linked_header (hlink (n + 1) (Nat.lt_succ_self _)) hmax
      by_cases hempty : Flat (n + 1) L
      · obtain ⟨m, hm, hpos, hle, hflat', htop⟩ :=
          ih (Nat.succ_pos n) (fun i hi => hlink i (by omega)) (by omega) hempty
        refine ⟨m, ?_, hpos, by omega, hflat', htop⟩
        rw [nextRef_flat hempty] at hhead
        simp only [dropLevels, hhead, Option.bind_eq_bind, Option.bind_some, if_true, hm]
      · refine ⟨n + 2, ?_, by omega, le_rfl, hflat, Or.inr ?_⟩
        · have hne : nextRef (n + 1) L ≠ none := fun hnone => hempty (nextRef_eq_none.mp hnone)
          simp only [dropLevels, hhead, Option.bind_eq_bind, Option.bind_some, if_neg hne]
        · simp only [Flat, not_forall] at hempty
          obtain ⟨y, hy, hlt⟩ := hempty
          exact ⟨y, hy, le_antisymm (hflat y hy) (not_le.mp hlt)⟩

theorem zslDeleteNode_spec {ρ : Type} {f : ℕ → ρ} {update : List (Ref × ρ)}
    (h : Holds z (p ++ x :: s)) (hends : EndsAt f 0 (headerTower :: p) update)
    (hlen : z.level ≤ update.length) :
    ∃ z', zslDeleteNode z x.ref update = some z' ∧ Holds (zslFreeNode z' x.ref) (p ++ s) ∧
      TopLevel (zslFreeNode z' x.ref) (p ++ s) ∧ z'.level ≤ z.level := by
  have hx : 0 < x.height := (h.height x (by simp)).1
  have hnd : ((headerTower :: p ++ x :: s).map Tower.ref).Nodup := h.nodup
  have hmem : x.ref ∉ (headerTower :: p ++ s).map Tower.ref := ref_notMem_of_nodup hnd
  have hperm : (headerTower :: p ++ x :: s).Perm (x :: (headerTower :: p ++ s)) :=
    List.perm_middle
  have hnd' : ((headerTower :: p ++ s).map Tower.ref).Nodup :=
    (List.nodup_cons.mp (((hperm.map _).nodup_iff).mp hnd)).2
  have hheader : header ≠ x.ref := fun heq => hmem (by simp [headerTower, heq])
  obtain ⟨lev, hloop, hin, hout⟩ := forLevels_spec (unlinkLevel update x.ref)
    (fun i l => Linked l i (headerTower :: p ++ s) [] ∧ l x.ref = z.lev i x.ref) 0 z.level z.lev (by
      intro i _ hi
      exact unlinkLevel_spec hends (by omega) (h.linked i (by omega)) hnd)
  have hforward : lev 0 x.ref = some ⟨nextRef 0 s, (nextSpan 0 s : BitVec 32)⟩ := by
    rw [(hin 0 le_rfl (by rw [Nat.zero_add]; exact h.level_pos)).2]
    exact Linked.get (a := headerTower :: p) (h.linked 0 h.level_pos) hx
  obtain ⟨hnodes_p, hnode_x, hnodes_s⟩ := nodes_append.mp h.nodes
  have hnd_ps : (p.map Tower.ref).Disjoint (s.map Tower.ref) ∧ (s.map Tower.ref).Nodup := by
    rw [List.cons_append, List.map_cons, List.nodup_cons, List.map_append] at hnd'
    exact ⟨List.disjoint_of_nodup_append hnd'.2, (List.nodup_append.mp hnd'.2).2.1⟩
  obtain ⟨node, hnext, hnodes, hframe⟩ := setNextBackward_spec
    (z := { z with lev }) (lastRef none p) hnodes_s
    (fun y hy => (h.height y (by simp [hy])).1) hnd_ps.2 (by rw [h.tail, lastRef_append]; rfl)
  have hflat : Flat z.level (p ++ s) := by
    obtain ⟨hp, hxs⟩ := flat_append.mp h.flat
    exact flat_append.mpr ⟨hp, (flat_cons.mp hxs).2⟩
  obtain ⟨m, hdrop, hm, hle, hflat_m, htop⟩ := dropLevels_spec lev h.level_pos
    (fun i hi => (hin i (Nat.zero_le _) (by omega)).1) h.level_le hflat
  refine ⟨⟨node, lev, lastRef (lastRef none p) s, z.length - 1, m⟩, ?_,
    ⟨?_, ?_, ?_, ?_, ?_, ?_, hnd', ?_, hm, hle.trans h.level_le⟩, htop, hle⟩
  · simp only [zslDeleteNode, hloop, hforward, hnode_x, Option.bind_eq_bind, Option.bind_some]
    rw [hnext]
    simp only [Option.bind_some, hdrop]
  · -- `x` is freed
    have hfree : ∀ r ∈ (p ++ s).map Tower.ref, Function.update node x.ref none r = node r := by
      intro r hr
      refine Function.update_of_ne ?_ _ _
      rintro rfl
      exact hmem (List.mem_cons_of_mem _ hr)
    refine Nodes.congr ?_ hfree
    refine nodes_append.mpr ⟨hnodes_p.congr fun r hr => hframe r fun hrs => ?_, hnodes⟩
    exact hnd_ps.1 hr hrs
  · intro r hr
    have hr' : Function.update node x.ref none r ≠ none := hr
    have hrx : r ≠ x.ref := by
      rintro rfl
      exact hr' (Function.update_self _ _ _)
    rw [Function.update_of_ne hrx] at hr'
    rw [List.map_append, List.mem_append]
    by_cases hrs : r ∈ s.map Tower.ref
    · exact Or.inr hrs
    · have hmem := h.alloc r ((hframe r hrs).symm.trans_ne hr')
      rw [List.map_append, List.map_cons, List.mem_append, List.mem_cons] at hmem
      exact Or.inl (hmem.resolve_right fun hor => hor.elim hrx hrs)
  · rw [lastRef_append]
    rfl
  · show z.length - 1 = _
    rw [h.length]
    simp only [List.length_append, List.length_cons]
    omega
  · intro i hi
    refine (hin i (Nat.zero_le _) (by have : i < m := hi; omega)).1.congr_link fun r hr => ?_
    refine Function.update_of_ne ?_ _ _
    rintro rfl
    exact hmem hr
  · intro i hi hmax
    have hi' : m ≤ i := hi
    have hupdate : Function.update (lev i) x.ref none header = lev i header :=
      Function.update_of_ne hheader _ _
    by_cases hold : i < z.level
    · refine ⟨_, hupdate.trans ((hin i (Nat.zero_le _) (by omega)).1.1 hmax), ?_⟩
      rw [List.append_nil]
      exact nextRef_flat (hflat_m.mono hi')
    · obtain ⟨l, hl, hnone⟩ := h.unused i (not_lt.mp hold) hmax
      exact ⟨l, hupdate.trans (by rw [hout i (Or.inr (by omega)), hl]), hnone⟩
  · intro y hy
    refine ⟨?_, hflat_m y hy⟩
    rw [List.mem_append] at hy
    rcases hy with hy | hy
    · exact (h.height y (by simp [hy])).1
    · exact (h.height y (by simp [hy])).1

/-- The dict entries of nodes are removed with them. -/
def dictDeletes (dict : Bytes → Option S) (R : List (Tower (S × Bytes))) : Bytes → Option S :=
  R.foldl (fun d y => dictDelete d y.data.2) dict

/-- Nodes are taken out as long as a condition `W` on the node and the number of
nodes removed before holds. -/
theorem zslDeleteWhile_spec {ρ : Type} {f : ℕ → ρ} {update : List (Ref × ρ)}
    (cond : ZskiplistNode S → ℕ → Bool) (W : Tower (S × Bytes) → ℕ → Bool) (fuel : ℕ) :
    ∀ {z : Zskiplist S} {s : List (Tower (S × Bytes))} (dict : Bytes → Option S) (removed : ℕ),
    Holds z (p ++ s) → TopLevel z (p ++ s) → EndsAt f 0 (headerTower :: p) update →
    z.level ≤ update.length → s.length < fuel →
    (∀ y ∈ s, ∀ k b, cond ⟨y.data.2, y.data.1, b⟩ k = W y k) →
    ∃ z' R s', zslDeleteWhile update cond fuel z dict (nextRef 0 s) removed
        = some (z', dictDeletes dict R, removed + R.length) ∧
      s = R ++ s' ∧ Holds z' (p ++ s') ∧ TopLevel z' (p ++ s') ∧
      (∀ a y t, R = a ++ y :: t → W y (removed + a.length) = true) ∧
      ∀ y t, s' = y :: t → W y (removed + R.length) = false := by
  induction fuel with
  | zero => exact fun _ _ _ _ _ _ h => absurd h (Nat.not_lt_zero _)
  | succ fuel ih =>
    intro z s dict removed h htop hends hlen hfuel hcond
    rcases s with _ | ⟨x, s⟩
    · exact ⟨z, [], [], rfl, rfl, h, htop, by simp, by simp⟩
    · have hx : 0 < x.height := (h.height x (by simp)).1
      have hnode : z.node x.ref = some ⟨x.data.2, x.data.1, lastRef none p⟩ := h.nodes.get
      have hforward : z.lev 0 x.ref = some ⟨nextRef 0 s, (nextSpan 0 s : BitVec 32)⟩ :=
        Linked.get (a := headerTower :: p) (h.linked 0 h.level_pos) hx
      have hC := hcond x (by simp) removed (lastRef none p)
      rw [nextRef_cons_tall hx]
      cases hW : W x removed with
      | false =>
        refine ⟨z, [], x :: s, ?_, rfl, h, htop, by simp, ?_⟩
        · simp only [zslDeleteWhile, hnode, hC, hW, Option.bind_eq_bind, Option.bind_some,
            Bool.false_eq_true, if_false]
          rfl
        · intro y t heq
          obtain ⟨rfl, -⟩ := List.cons.inj heq
          exact hW
      | true =>
        obtain ⟨z₁, hdel, h₁, htop₁, hle⟩ := zslDeleteNode_spec h hends hlen
        obtain ⟨z', R, s', hloop, rfl, h', htop', hR, hs'⟩ := ih (dictDelete dict x.data.2)
          (removed + 1) h₁ htop₁ hends (hle.trans hlen) (by simpa using hfuel)
          (fun y hy => hcond y (by simp [hy]))
        refine ⟨z', x :: R, s', ?_, rfl, h', htop', ?_, ?_⟩
        · simp only [zslDeleteWhile, hnode, hC, hW, Option.bind_eq_bind, Option.bind_some, if_true,
            hforward, hdel, hloop, dictDeletes, List.foldl_cons, List.length_cons]
          rw [Nat.add_right_comm, Nat.add_assoc]
        · intro a y t heq
          rcases a with _ | ⟨x', a⟩
          · obtain ⟨rfl, -⟩ := List.cons.inj heq
            exact hW
          · obtain ⟨-, hR'⟩ := List.cons.inj heq
            have := hR a y t hR'
            rwa [Nat.add_assoc, Nat.add_comm 1] at this
        · intro y t heq
          have := hs' y t heq
          rwa [Nat.add_assoc, Nat.add_comm 1] at this

end

end Zskiplist

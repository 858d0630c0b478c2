/-
The eviction pool over whole runs.

* `Sorted`, `Inserted` — the pool, and what one insertion does to it;
* `pick_spec` — the entry that is chosen, and the ghosts above it;
* `dictGetRandomKeys_spec`, `search_spec` — when the search ends with a key of the dictionary;
* `eviction_pool` — so it is after every run.
-/
import RedisModel.EvictionPool
import RedisModel.DictScan
import RedisModel.DictKeys
import RedisModel.Ensures
import RedisModel.Runs
import Mathlib.Data.Nat.ModEq
import Mathlib.Data.List.Induction
import Mathlib.Data.List.TakeWhile

open Dict

namespace EvictionPool

/-! ### Insertion -/

section
variable {K : Type}

/-- The pool with the entries `es`. -/
def ofEntries (es : List (K × ℕ)) : List (PoolEntry K) :=
  es.map (fun e => ⟨some e.1, e.2⟩) ++ List.replicate (poolSize - es.length) emptyEntry

/-- The pool holds the entries `es`, in the order of their idle times, and after them it is
empty. -/
structure Sorted (pool : List (PoolEntry K)) (es : List (K × ℕ)) : Prop where
  pool : pool = ofEntries es
  length : es.length ≤ poolSize
  sorted : (es.map Prod.snd).Pairwise (· ≤ ·)

/-- What an insertion does to the entries of the pool: a full pool stays as it is, or its first
entry, whose idle time is smaller, makes room. -/
structure Inserted (es : List (K × ℕ)) (e : K × ℕ) (es' : List (K × ℕ)) : Prop where
  free : es.length < poolSize → es'.Perm (e :: es)
  full : es.length = poolSize → (es' = es ∧ ∀ x ∈ es, e.2 ≤ x.2) ∨
    ∃ x t, es = x :: t ∧ x.2 < e.2 ∧ es'.Perm (e :: t)

theorem getElem?_ofEntries (es : List (K × ℕ)) (k : ℕ) : (ofEntries es)[k]? =
    if h : k < es.length then some ⟨some es[k].1, es[k].2⟩
    else if k < poolSize then some emptyEntry else none := by
  rw [ofEntries]
  split
  · rename_i h
    rw [List.getElem?_append_left (by rwa [List.length_map]), List.getElem?_map,
      List.getElem?_eq_getElem h]
    rfl
  · rename_i h
    rw [List.getElem?_append_right (by rw [List.length_map]; omega), List.length_map,
      List.getElem?_replicate]
    split
    · rw [if_pos (by omega)]
    · rw [if_neg (by omega)]

theorem keyAt_ofEntries (es : List (K × ℕ)) (k : ℕ) :
    keyAt (ofEntries es) k = es[k]?.map Prod.fst := by
  rw [keyAt, getElem?_ofEntries]
  split
  · rename_i h
    rw [List.getElem?_eq_getElem h]
    rfl
  · rename_i h
    rw [List.getElem?_eq_none (by omega)]
    split <;> rfl

theorem findPlace_ofEntries (es : List (K × ℕ)) (idle : ℕ) :
    findPlace idle (ofEntries es) = (es.takeWhile fun e => e.2 < idle).length := by
  have hempty : ∀ n, findPlace idle (List.replicate n (emptyEntry : PoolEntry K)) = 0 := by
    intro n
    cases n with
    | zero => rfl
    | succ n => rw [List.replicate_succ, findPlace, if_neg (fun h => by cases h.1)]
  unfold ofEntries
  generalize poolSize - es.length = n
  induction es with
  | nil => exact hempty n
  | cons e es ih =>
    rw [List.map_cons, List.cons_append, findPlace, List.takeWhile_cons]
    split
    · rename_i h
      rw [if_pos (decide_eq_true h.2), List.length_cons, ih]
    · rename_i h
      rw [if_neg (fun hlt => h ⟨rfl, of_decide_eq_true hlt⟩)]
      rfl

theorem ofEntries_full {es : List (K × ℕ)} (h : es.length = poolSize) :
    ofEntries es = es.map fun e => ⟨some e.1, e.2⟩ := by
  rw [ofEntries, h, Nat.sub_self, List.replicate_zero, List.append_nil]

theorem set_ofEntries {es : List (K × ℕ)} (h : es.length < poolSize) (e : K × ℕ) :
    (ofEntries es).set es.length ⟨some e.1, e.2⟩ = ofEntries (es ++ [e]) := by
  obtain ⟨n, hn⟩ : ∃ n, poolSize - es.length = n + 1 := ⟨poolSize - es.length - 1, by omega⟩
  have hn' : poolSize - (es ++ [e]).length = n := by
    rw [List.length_append, List.length_singleton]
    omega
  rw [ofEntries, ofEntries, hn, hn', List.set_append_right _ _ (by rw [List.length_map]),
    List.length_map, Nat.sub_self, List.replicate_succ, List.set_cons_zero, List.map_append,
    List.append_assoc]
  rfl

theorem memmove_right (l m : List (PoolEntry K)) (a z : PoolEntry K) :
    memmove (l ++ a :: (m ++ [z])) (l.length + 1) l.length (m.length + 1) = l ++ a :: a :: m := by
  have htake : (l ++ a :: (m ++ [z])).take (l.length + 1) = l ++ [a] := by
    rw [List.take_append, List.take_of_length_le (by omega), Nat.add_sub_cancel_left,
      List.take_succ_cons, List.take_zero]
  have hdrop : (l ++ a :: (m ++ [z])).drop (l.length + 1 + (m.length + 1)) = [] := by
    refine List.drop_of_length_le ?_
    simp only [List.length_append, List.length_cons, List.length_nil]
    omega
  rw [memmove, htake, hdrop, List.drop_left, List.take_succ_cons, List.take_left, List.append_nil,
    List.append_assoc]
  rfl

theorem memmove_left (l r : List (PoolEntry K)) (a : PoolEntry K) :
    ∃ y, memmove (a :: l ++ r) 0 1 l.length = l ++ y :: r := by
  obtain ⟨y, hy⟩ : ∃ y, (a :: l).drop l.length = [y] :=
    List.length_eq_one_iff.mp (by rw [List.length_drop, List.length_cons]; omega)
  refine ⟨y, ?_⟩
  rw [memmove, List.take_zero, List.nil_append, List.cons_append, List.drop_one, List.tail_cons,
    List.take_left, Nat.zero_add, ← List.cons_append,
    List.drop_append_of_le_length (by rw [List.length_cons]; omega), hy]
  rfl

theorem shift_right {lo hi : List (K × ℕ)} {x : K × ℕ}
    (h : (lo ++ x :: hi).length < poolSize) (e : K × ℕ) :
    (memmove (ofEntries (lo ++ x :: hi)) (lo.length + 1) lo.length (poolSize - lo.length - 1)).set
      lo.length ⟨some e.1, e.2⟩ = ofEntries (lo ++ e :: x :: hi) := by
  rw [List.length_append, List.length_cons] at h
  obtain ⟨n, hn⟩ : ∃ n, poolSize - (lo ++ x :: hi).length = n + 1 := by
    refine ⟨poolSize - (lo ++ x :: hi).length - 1, ?_⟩
    rw [List.length_append, List.length_cons]
    omega
  have hn' : poolSize - (lo ++ e :: x :: hi).length = n := by
    rw [List.length_append, List.length_cons] at hn
    rw [List.length_append, List.length_cons, List.length_cons]
    omega
  have hmoved := memmove_right (lo.map fun e => (⟨some e.1, e.2⟩ : PoolEntry K))
    (hi.map (fun e => ⟨some e.1, e.2⟩) ++ List.replicate n emptyEntry) ⟨some x.1, x.2⟩ emptyEntry
  rw [List.length_append, List.length_cons] at hn
  rw [List.length_map, List.length_append, List.length_map, List.length_replicate,
    show hi.length + n + 1 = poolSize - lo.length - 1 by omega, List.append_assoc,
    ← List.replicate_succ'] at hmoved
  rw [ofEntries, ofEntries, hn', List.length_append, List.length_cons, hn, List.map_append,
    List.map_cons, List.append_assoc, List.cons_append, hmoved,
    List.set_append_right _ _ (by rw [List.length_map]), List.length_map, Nat.sub_self,
    List.set_cons_zero, List.map_append, List.append_assoc]
  rfl

/-- The entries before `k` move to the left, and the first one is lost. -/
theorem shift_left {lo hi : List (K × ℕ)} {x : K × ℕ}
    (h : (x :: lo ++ hi).length = poolSize) (e : K × ℕ) :
    (memmove (ofEntries (x :: lo ++ hi)) 0 1 lo.length).set lo.length ⟨some e.1, e.2⟩ =
      ofEntries (lo ++ e :: hi) := by
  obtain ⟨y, hmoved⟩ := memmove_left (lo.map fun e => (⟨some e.1, e.2⟩ : PoolEntry K))
    (hi.map fun e => ⟨some e.1, e.2⟩) ⟨some x.1, x.2⟩
  have h' : (lo ++ e :: hi).length = poolSize := by
    rw [← h]
    simp only [List.length_append, List.length_cons]
    omega
  rw [List.length_map] at hmoved
  rw [ofEntries_full h, ofEntries_full h', List.map_append, List.map_cons, hmoved,
    List.set_append_right _ _ (by rw [List.length_map]), List.length_map, Nat.sub_self,
    List.set_cons_zero, List.map_append]
  rfl

theorem removeEntry_ofEntries {es : List (K × ℕ)} {e : K × ℕ}
    (h : (es ++ [e]).length ≤ poolSize) :
    removeEntry (ofEntries (es ++ [e])) es.length = ofEntries es := by
  rw [List.length_append, List.length_singleton] at h
  obtain ⟨n, hn⟩ : ∃ n, poolSize = es.length + n + 1 := ⟨poolSize - (es.length + 1), by omega⟩
  have hpool : ofEntries (es ++ [e]) = es.map (fun e => (⟨some e.1, e.2⟩ : PoolEntry K)) ++
      ⟨some e.1, e.2⟩ :: List.replicate n emptyEntry := by
    rw [ofEntries, List.length_append, List.length_singleton,
      show poolSize - (es.length + 1) = n by omega, List.map_append, List.append_assoc]
    rfl
  obtain ⟨y, hy⟩ : ∃ y, ((⟨some e.1, e.2⟩ : PoolEntry K) :: List.replicate n emptyEntry).drop n =
      [y] := List.length_eq_one_iff.mp (by
    rw [List.length_drop, List.length_cons, List.length_replicate]
    omega)
  have hmoved : memmove (ofEntries (es ++ [e])) es.length (es.length + 1) n =
      es.map (fun e => (⟨some e.1, e.2⟩ : PoolEntry K)) ++ List.replicate n emptyEntry ++ [y] := by
    have hlength : es.length =
        (es.map fun e : K × ℕ => (⟨some e.1, e.2⟩ : PoolEntry K)).length := by
      rw [List.length_map]
    rw [memmove, hpool, hlength, List.take_left, List.drop_length_add_append,
      List.drop_length_add_append, hy, List.drop_succ_cons, List.drop_zero,
      List.take_of_length_le (by rw [List.length_replicate])]
  have hlast : poolSize - 1 = (es.map (fun e : K × ℕ => (⟨some e.1, e.2⟩ : PoolEntry K)) ++
      List.replicate n emptyEntry).length := by
    rw [List.length_append, List.length_map, List.length_replicate]
    omega
  rw [removeEntry, show poolSize - es.length - 1 = n by omega, hmoved, hlast,
    List.set_append_right _ _ le_rfl, Nat.sub_self, List.set_cons_zero, ofEntries,
    show poolSize - es.length = n + 1 by omega, List.replicate_succ', List.append_assoc]

theorem split_place (es : List (K × ℕ)) (idle : ℕ) (h : (es.map Prod.snd).Pairwise (· ≤ ·)) :
    ∃ lo hi, es = lo ++ hi ∧ findPlace idle (ofEntries es) = lo.length ∧
      (∀ e ∈ lo, e.2 < idle) ∧ ∀ e ∈ hi, idle ≤ e.2 := by
  refine ⟨es.takeWhile fun e => e.2 < idle, es.dropWhile fun e => e.2 < idle,
    (List.takeWhile_append_dropWhile).symm, findPlace_ofEntries es idle,
    fun e he => ?_, fun e he => ?_⟩
  · have hlt := List.mem_takeWhile_imp he
    exact of_decide_eq_true hlt
  · have hhead := List.head?_dropWhile_not (fun e : K × ℕ => e.2 < idle) es
    have hdrop : ((es.dropWhile fun e => e.2 < idle).map Prod.snd).Pairwise (· ≤ ·) :=
      h.sublist ((List.dropWhile_sublist _).map _)
    cases hrest : es.dropWhile fun e => e.2 < idle with
    | nil =>
      rw [hrest] at he
      cases he
    | cons x t =>
      rw [hrest] at he hhead hdrop
      have hx : idle ≤ x.2 := by
        have := of_decide_eq_false hhead
        omega
      obtain rfl | he := List.mem_cons.mp he
      · exact hx
      · exact hx.trans ((List.pairwise_cons.mp hdrop).1 e.2 (List.mem_map_of_mem he))

theorem sorted_middle {lo hi : List (K × ℕ)} {e : K × ℕ}
    (h : ((lo ++ hi).map Prod.snd).Pairwise (· ≤ ·)) (hlo : ∀ x ∈ lo, x.2 < e.2)
    (hhi : ∀ x ∈ hi, e.2 ≤ x.2) : ((lo ++ e :: hi).map Prod.snd).Pairwise (· ≤ ·) := by
  rw [List.pairwise_map, List.pairwise_append] at h ⊢
  refine ⟨h.1, List.pairwise_cons.mpr ⟨hhi, h.2.1⟩, fun x hx y hy => ?_⟩
  obtain rfl | hy := List.mem_cons.mp hy
  · exact (hlo x hx).le
  · exact h.2.2 x hx y hy

theorem insertEntry_spec {pool : List (PoolEntry K)} {es : List (K × ℕ)} (h : Sorted pool es)
    (e : K × ℕ) : ∃ es', Sorted (insertEntry pool e.1 e.2) es' ∧ Inserted es e es' := by
  obtain ⟨rfl, hlength, hsorted⟩ := h
  obtain ⟨lo, hi, rfl, hplace, hlo, hhi⟩ := split_place es e.2 hsorted
  have hnew := sorted_middle hsorted hlo hhi
  unfold insertEntry
  dsimp only
  rw [hplace, keyAt_ofEntries, keyAt_ofEntries]
  have hlen : (lo ++ hi).length = lo.length + hi.length := List.length_append
  have hlen' : (lo ++ e :: hi).length = lo.length + hi.length + 1 := by
    rw [List.length_append, List.length_cons]
    omega
  have hlast : ((lo ++ hi)[poolSize - 1]?.map Prod.fst).isSome ↔ (lo ++ hi).length = poolSize := by
    rw [Option.isSome_map, isSome_getElem?]
    unfold poolSize at *
    omega
  by_cases hfull : (lo ++ hi).length = poolSize
  · cases lo with
    | nil =>
      rw [if_pos ⟨rfl, hlast.mpr hfull⟩]
      exact ⟨_, ⟨rfl, hlength, hsorted⟩, ⟨fun hlt => absurd hfull hlt.ne,
        fun _ => .inl ⟨rfl, hhi⟩⟩⟩
    | cons x lo =>
      have hx : ¬ ((x :: lo).length < poolSize ∧
          (((x :: lo) ++ hi)[(x :: lo).length]?.map Prod.fst) = none) := by
        rintro ⟨hlt, hnone⟩
        rw [Option.map_eq_none_iff, List.getElem?_eq_none_iff] at hnone
        omega
      have hsome : ¬ (((x :: lo) ++ hi)[poolSize - 1]?.map Prod.fst) = none := by
        intro hnone
        have := hlast.mpr hfull
        rw [hnone] at this
        cases this
      rw [if_neg (fun h => nomatch h.1), if_neg hx, if_neg hsome, List.length_cons,
        Nat.add_sub_cancel, shift_left hfull]
      refine ⟨lo ++ e :: hi, ⟨rfl, ?_, ?_⟩, ⟨fun hlt => absurd hfull hlt.ne, fun _ => .inr ?_⟩⟩
      · rw [← hfull]
        simp only [List.length_append, List.length_cons]
        omega
      · exact hnew.sublist (((List.sublist_cons_self x lo).append_right _).map _)
      · exact ⟨x, lo ++ hi, rfl, hlo x List.mem_cons_self, List.perm_middle⟩
  · have hnone : (((lo ++ hi)[poolSize - 1]?.map Prod.fst)) = none := by
      rw [← Option.not_isSome_iff_eq_none, hlast]
      exact hfull
    have hinserted : Inserted (lo ++ hi) e (lo ++ e :: hi) :=
      ⟨fun _ => List.perm_middle, fun h => absurd h hfull⟩
    rw [if_neg (fun h => by rw [hnone] at h; cases h.2)]
    cases hi with
    | nil =>
      rw [if_pos]
      · rw [List.append_nil] at *
        rw [set_ofEntries (by omega)]
        exact ⟨_, ⟨rfl, by omega, hnew⟩, hinserted⟩
      · rw [List.append_nil, List.getElem?_eq_none le_rfl]
        exact ⟨by omega, rfl⟩
    | cons x hi =>
      rw [if_neg, if_pos hnone, shift_right (by omega)]
      · exact ⟨_, ⟨rfl, by omega, hnew⟩, hinserted⟩
      · rintro ⟨-, h⟩
        rw [List.getElem?_append_right le_rfl, Nat.sub_self] at h
        cases h

theorem Inserted.mem {es es' : List (K × ℕ)} {e : K × ℕ} (h : Inserted es e es')
    (hlength : es.length ≤ poolSize) {x : K × ℕ} (hx : x ∈ es') : x = e ∨ x ∈ es := by
  obtain hfull | hfree := hlength.eq_or_lt
  · obtain ⟨rfl, -⟩ | ⟨y, t, rfl, -, hperm⟩ := h.full hfull
    · exact .inr hx
    · exact (List.mem_cons.mp (hperm.mem_iff.mp hx)).imp_right (List.mem_cons_of_mem y)
  · exact List.mem_cons.mp ((h.free hfree).mem_iff.mp hx)

theorem Inserted.ne_nil {es es' : List (K × ℕ)} {e : K × ℕ} (h : Inserted es e es')
    (hlength : es.length ≤ poolSize) : es' ≠ [] := by
  obtain hfull | hfree := hlength.eq_or_lt
  · obtain ⟨rfl, -⟩ | ⟨y, t, rfl, -, hperm⟩ := h.full hfull
    · rintro rfl
      cases hfull
    · rintro rfl
      exact List.cons_ne_nil _ _ hperm.nil_eq.symm
  · rintro rfl
    exact List.cons_ne_nil _ _ (h.free hfree).nil_eq.symm

theorem insertAll_spec {pool : List (PoolEntry K)} {es : List (K × ℕ)} (h : Sorted pool es)
    (samples : List (K × ℕ)) : ∃ es', Sorted (insertAll pool samples) es' ∧
      (∀ x ∈ es', x ∈ samples ∨ x ∈ es) ∧ (samples ≠ [] ∨ es ≠ [] → es' ≠ []) := by
  induction samples generalizing pool es with
  | nil => exact ⟨es, h, fun x hx => .inr hx, fun hne => hne.resolve_left fun h => h rfl⟩
  | cons e samples ih =>
    obtain ⟨es₁, hsorted, hinserted⟩ := insertEntry_spec h e
    obtain ⟨es', hsorted', hmem, hne⟩ := ih hsorted
    refine ⟨es', hsorted', fun x hx => ?_, fun _ => ?_⟩
    · obtain hx | hx := hmem x hx
      · exact .inl (List.mem_cons_of_mem e hx)
      · obtain rfl | hx := hinserted.mem h.length hx
        · exact .inl List.mem_cons_self
        · exact .inr hx
    · exact hne (.inr (hinserted.ne_nil h.length))

/-! ### The choice -/

theorem sorted_alloc : Sorted (evictionPoolAlloc : List (PoolEntry K)) [] :=
  ⟨rfl, Nat.zero_le _, List.Pairwise.nil⟩

theorem pickLoop_spec (present : K → Bool) (es : List (K × ℕ)) (h : es.length ≤ poolSize) :
    (∃ lo e, lo ++ [e] <+: es ∧ present e.1 = true ∧
      pickLoop present es.length (ofEntries es) = (ofEntries lo, some e.1)) ∨
    ((∀ e ∈ es, present e.1 = false) ∧
      pickLoop present es.length (ofEntries es) = (ofEntries [], none)) := by
  induction es using List.reverseRecOn with
  | nil => exact .inr ⟨nofun, rfl⟩
  | append_singleton es e ih =>
    have hlength : es.length ≤ poolSize := by
      rw [List.length_append] at h
      omega
    have hkey : keyAt (ofEntries (es ++ [e])) es.length = some e.1 := by
      rw [keyAt_ofEntries, List.getElem?_append_right le_rfl, Nat.sub_self]
      rfl
    rw [List.length_append, List.length_singleton, pickLoop, hkey]
    dsimp only
    rw [removeEntry_ofEntries h]
    split
    · rename_i hpresent
      exact .inl ⟨es, e, List.prefix_rfl, hpresent, rfl⟩
    · rename_i hghost
      obtain ⟨lo, x, hprefix, hpresent, heq⟩ | ⟨hnone, heq⟩ := ih hlength
      · exact .inl ⟨lo, x, hprefix.trans (List.prefix_append es [e]), hpresent, heq⟩
      · refine .inr ⟨fun x hx => ?_, heq⟩
        obtain hx | hx := List.mem_append.mp hx
        · exact hnone x hx
        · obtain rfl := List.mem_singleton.mp hx
          exact Bool.eq_false_of_not_eq_true hghost

theorem pickLoop_skip (present : K → Bool) (es : List (K × ℕ)) {k : ℕ} (h : es.length ≤ k) :
    pickLoop present k (ofEntries es) = pickLoop present es.length (ofEntries es) := by
  induction k, h using Nat.le_induction with
  | base => rfl
  | succ k hk ih =>
    rw [pickLoop, keyAt_ofEntries, List.getElem?_eq_none hk]
    exact ih

theorem pick_spec (present : K → Bool) {pool : List (PoolEntry K)} {es : List (K × ℕ)}
    (h : Sorted pool es) :
    (∃ lo e, lo ++ [e] <+: es ∧ present e.1 = true ∧ Sorted (pick present pool).1 lo ∧
      (pick present pool).2 = some e.1) ∨
    ((∀ e ∈ es, present e.1 = false) ∧ Sorted (pick present pool).1 [] ∧
      (pick present pool).2 = none) := by
  obtain ⟨rfl, hlength, hsorted⟩ := h
  rw [pick, pickLoop_skip present es hlength]
  obtain ⟨lo, e, hprefix, hpresent, heq⟩ | ⟨hnone, heq⟩ := pickLoop_spec present es hlength
  · rw [heq]
    have hlo : lo <+: es := (List.prefix_append lo [e]).trans hprefix
    exact .inl ⟨lo, e, hprefix, hpresent, ⟨rfl, hlo.length_le.trans hlength,
      hsorted.sublist (hlo.sublist.map _)⟩, rfl⟩
  · rw [heq]
    exact .inr ⟨hnone, sorted_alloc, rfl⟩

end

/-! ### Sampling -/

section
variable {K V : Type}

theorem sampleTable_spec {h : Dictht K V} (hs : h.Shaped) {k : ℕ} (hk : h.size = 2 ^ k)
    {count i : ℕ} (n : ℕ) (des : List (DictEntry K V)) (hi : i < h.size)
    (hdes : des.length < count) : ∃ des', sampleTable h count n i des = .ok des' ∧ des'.length ≤ count ∧
      (∀ e ∈ des', e ∈ des ∨ e ∈ h.entries) ∧ (des'.length < count →
        des' = des ++ (List.range n).flatMap fun j => bucket h ((i + j) % h.size)) := by
  induction n generalizing i des with
  | zero =>
    refine ⟨des, rfl, hdes.le, fun e he => .inl he, fun _ => ?_⟩
    rw [List.range_zero, List.flatMap_nil, List.append_nil]
  | succ n ih =>
    have hmem : ∀ e ∈ (des ++ bucket h i).take count, e ∈ des ∨ e ∈ h.entries := fun e he =>
      (List.mem_append.mp (List.mem_of_mem_take he)).imp_right fun he =>
        mem_table_entries.mpr ⟨i, he⟩
    rw [sampleTable, getElem?_bucket hs hi]
    dsimp only
    split
    · rename_i hfull
      exact ⟨_, rfl, hfull.le, hmem, fun hlt => absurd hfull hlt.ne⟩
    · rename_i hnot
      rw [List.length_take] at hnot
      have htake : (des ++ bucket h i).take count = des ++ bucket h i :=
        List.take_of_length_le (by omega)
      rw [htake] at hmem ⊢
      have hnext : (i + 1) &&& h.sizemask = (i + 1) % h.size := by
        rw [hs.mask, hk, Nat.and_two_pow_sub_one_eq_mod]
      rw [hnext]
      obtain ⟨des', heq, hle, hmem', hall⟩ :=
        ih (des ++ bucket h i) (Nat.mod_lt (i + 1) (by omega)) (by omega)
      refine ⟨des', heq, hle, fun e he => ?_, fun hlt => ?_⟩
      · obtain he | he := hmem' e he
        · exact hmem e he
        · exact .inr he
      · have hzero : (i + 0) % h.size = i := Nat.mod_eq_of_lt hi
        have hsucc : ∀ j, ((i + 1) % h.size + j) % h.size = (i + j.succ) % h.size := fun j => by
          rw [Nat.mod_add_mod, Nat.succ_eq_add_one, Nat.add_assoc, Nat.add_comm 1 j]
        rw [hall hlt, List.append_assoc, List.range_succ_eq_map, List.flatMap_cons,
          List.flatMap_map, hzero]
        simp only [hsucc]

theorem perm_rotated {h : Dictht K V} (hs : h.Shaped) {i : ℕ} :
    ((List.range h.size).flatMap fun j => bucket h ((i + j) % h.size)).Perm h.entries := by
  have hinj : ∀ a ∈ List.range h.size, ∀ b ∈ List.range h.size,
      (i + a) % h.size = (i + b) % h.size → a = b := by
    intro a ha b hb heq
    have hmod : a % h.size = b % h.size := Nat.ModEq.add_left_cancel' i heq
    rwa [Nat.mod_eq_of_lt (List.mem_range.mp ha), Nat.mod_eq_of_lt (List.mem_range.mp hb)] at hmod
  have hperm : ((List.range h.size).map fun j => (i + j) % h.size).Perm (List.range h.size) := by
    refine (List.subperm_of_subset (List.Nodup.map_on hinj List.nodup_range) ?_).perm_of_length_le
      (by rw [List.length_map])
    intro x hx
    obtain ⟨j, hj, rfl⟩ := List.mem_map.mp hx
    have hpos : 0 < h.size := (Nat.zero_le j).trans_lt (List.mem_range.mp hj)
    exact List.mem_range.mpr (Nat.mod_lt _ hpos)
  rw [← flatMap_bucket hs, ← List.flatMap_map (fun j => (i + j) % h.size) (bucket h)]
  exact hperm.flatMap_right _

/-- The entries of the buckets that a round over the table visits: `size` is an `int`. -/
def visible (h : Dictht K V) : List (DictEntry K V) := if h.size < 2 ^ 32 then h.entries else []

theorem sampleFrom_spec {h : Dictht K V} (hs : h.Shaped) {count : ℕ} (random : ℕ)
    {des : List (DictEntry K V)} (hdes : des.length < count) :
    ∃ des', sampleFrom h count random des = .ok des' ∧ des'.length ≤ count ∧
      (∀ e ∈ des', e ∈ des ∨ e ∈ h.entries) ∧
      (des'.length < count → des'.length = des.length + (visible h).length) := by
  unfold sampleFrom visible
  obtain hzero | ⟨k, hk, hsize⟩ := hs.power
  · have hnil : h.entries = [] := by
      rw [Dictht.entries, List.length_eq_zero_iff.mp (hs.length.trans hzero)]
      rfl
    rw [hzero, if_pos (by decide), hnil]
    exact ⟨des, rfl, hdes.le, fun e he => .inl he, fun _ => rfl⟩
  · have hstart : random &&& h.sizemask < h.size := by
      have hle : random &&& h.sizemask ≤ h.sizemask := Nat.and_le_right
      have hpos : 0 < h.size := hsize ▸ Nat.two_pow_pos k
      rw [hs.mask] at hle
      rw [hs.mask]
      omega
    obtain ⟨des', heq, hle, hmem, hall⟩ :=
      sampleTable_spec hs hsize (h.size % 2 ^ 32) des hstart hdes
    refine ⟨des', heq, hle, hmem, fun hlt => ?_⟩
    rw [hall hlt, List.length_append]
    congr 1
    split
    · rename_i hsmall
      rw [Nat.mod_eq_of_lt hsmall, (perm_rotated hs).length_eq]
    · rename_i hlarge
      have hdvd : 2 ^ 32 ∣ h.size := by
        rw [hsize] at hlarge ⊢
        exact pow_dvd_pow 2 (by
          by_contra hk
          exact hlarge (Nat.pow_lt_pow_right (by decide) (by omega)))
      rw [Nat.mod_eq_zero_of_dvd hdvd]
      rfl

theorem sampleTables_spec {d : Dict K V} (hd : d.Shaped) {count fuel : ℕ} (random : ℕ → ℕ)
    (des : List (DictEntry K V)) (hdes : des.length < count)
    (hvisible : visible d.ht0 ++ visible d.ht1 ≠ [])
    (hsettled : d.dictIsRehashing = false → count ≤ (visible d.ht0).length)
    (hfuel : count ≤ des.length + fuel) :
    ∃ des', sampleTables d count fuel random des = .ok des' ∧ des'.length = count ∧
      ∀ e ∈ des', e ∈ des ∨ e ∈ d.entries := by
  induction fuel generalizing random des with
  | zero => omega
  | succ fuel ih =>
    obtain ⟨des₀, heq₀, hle₀, hmem₀, hall₀⟩ := sampleFrom_spec hd.ht0 (random 0) hdes
    have hmem : ∀ e ∈ des₀, e ∈ des ∨ e ∈ d.entries := fun e he =>
      (hmem₀ e he).imp_right fun he => List.mem_append_left _ he
    rw [sampleTables, heq₀]
    dsimp only [bind, Except.bind]
    by_cases hfull : des₀.length = count
    · rw [if_pos hfull]
      exact ⟨des₀, rfl, hfull, hmem⟩
    · have hlt₀ := lt_of_le_of_ne hle₀ hfull
      have hlength₀ := hall₀ hlt₀
      rw [if_neg hfull, if_neg fun h => by have := hsettled h; omega]
      obtain ⟨des₁, heq₁, hle₁, hmem₁, hall₁⟩ := sampleFrom_spec hd.ht1 (random 1) hlt₀
      have hmem' : ∀ e ∈ des₁, e ∈ des ∨ e ∈ d.entries := fun e he => by
        obtain he | he := hmem₁ e he
        · exact hmem e he
        · exact .inr (List.mem_append_right _ he)
      rw [heq₁]
      dsimp only
      by_cases hfull' : des₁.length = count
      · rw [if_pos hfull']
        exact ⟨des₁, rfl, hfull', hmem'⟩
      · have hlt₁ := lt_of_le_of_ne hle₁ hfull'
        have hlength₁ := hall₁ hlt₁
        have hpos : 0 < (visible d.ht0).length + (visible d.ht1).length := by
          rw [← List.length_append]
          exact List.length_pos_iff.mpr hvisible
        rw [if_neg hfull']
        obtain ⟨des', heq', hlength', hmem''⟩ :=
          ih (fun n => random (n + 2)) des₁ hlt₁ (by omega)
        refine ⟨des', heq', hlength', fun e he => ?_⟩
        obtain he | he := hmem'' e he
        · exact hmem' e he
        · exact .inr he

/-- What a round of the search needs: `maxmemory-samples` asks for samples, no more than there is
room for, and the tables with less than 2^32 buckets have entries. -/
structure Samples (d : Dict K V) (maxmemorySamples : BitVec 32) : Prop where
  positive : 0 < sampleCount d maxmemorySamples.toInt
  room : sampleCount d maxmemorySamples.toInt ≤ max (samplesArraySize : ℤ) maxmemorySamples.toInt
  visible : visible d.ht0 ++ visible d.ht1 ≠ []

theorem toInt_le (n : ℕ) : toInt n ≤ n := by
  unfold toInt Int.bmod
  dsimp only
  split <;> omega

theorem sampleCount_le (d : Dict K V) (count : BitVec 32) (h : 0 < sampleCount d count.toInt) :
    sampleCount d count.toInt ≤ dictSize d := by
  have hlt : count.toInt < 2 ^ 31 := count.toInt_lt
  unfold sampleCount at *
  split
  · exact toInt_le _
  · rename_i hle
    rw [if_neg hle] at h
    rw [Int.emod_eq_of_lt h.le (by omega)] at hle
    omega

theorem dictGetRandomKeys_spec {d : Dict K V} (hd : d.Shaped) {maxmemorySamples : BitVec 32}
    (h : Samples d maxmemorySamples) {fuel : ℕ} (hfuel : 2 ^ 31 ≤ fuel) (random : ℕ → ℕ) :
    ∃ des, dictGetRandomKeys d maxmemorySamples.toInt fuel random = .ok des ∧
      (des.length : ℤ) = sampleCount d maxmemorySamples.toInt ∧ ∀ e ∈ des, e ∈ d.entries := by
  have hpos := h.positive
  have hle := sampleCount_le d maxmemorySamples hpos
  have hint : sampleCount d maxmemorySamples.toInt < 2 ^ 31 := by
    unfold sampleCount
    split
    · unfold toInt
      have := Int.bmod_lt (x := (dictSize d : ℤ)) (m := 2 ^ 32) (by decide)
      omega
    · exact maxmemorySamples.toInt_lt
  obtain ⟨n, hn⟩ := Int.eq_ofNat_of_zero_le hpos.le
  rw [hn] at hpos hle hint
  have hsettled : d.dictIsRehashing = false → n ≤ (visible d.ht0).length := by
    intro hsettled
    have hht1 : visible d.ht1 = [] := by
      unfold visible
      rw [hd.settled hsettled, ite_self]
    have hne := h.visible
    rw [hht1, List.append_nil] at hne
    have hht0 : visible d.ht0 = d.ht0.entries := by
      unfold visible at hne ⊢
      split
      · rfl
      · rename_i hlarge
        rw [if_neg hlarge] at hne
        exact absurd rfl hne
    have hsize : dictSize d ≤ d.ht0.entries.length := by
      unfold dictSize
      rw [hd.ht0.used, hd.ht1.used, hd.settled hsettled]
      exact Nat.mod_le _ _
    rw [hht0]
    omega
  obtain ⟨des, heq, hlength, hmem⟩ := sampleTables_spec hd random [] (show 0 < n by omega)
    h.visible hsettled (show n ≤ 0 + fuel by omega)
  rw [dictGetRandomKeys, hn, if_neg (by omega), Int.toNat_natCast]
  exact ⟨des, heq, by rw [hlength], fun e he => (hmem e he).resolve_left nofun⟩

variable [DecidableEq K]

theorem present_iff (r : Round K V) (key : K) :
    r.present key = true ↔ ∃ e ∈ r.dict.entries, e.key = key := by
  unfold Round.present
  rw [List.any_eq_true]
  simp only [decide_eq_true_eq]

theorem evictionPoolPopulate_spec {r : Round K V} (hd : r.dict.Shaped)
    {maxmemorySamples : BitVec 32} (h : Samples r.dict maxmemorySamples) {fuel : ℕ}
    (hfuel : 2 ^ 31 ≤ fuel) {pool : List (PoolEntry K)} {es : List (K × ℕ)} (hs : Sorted pool es) :
    ∃ pool' es', evictionPoolPopulate r maxmemorySamples fuel pool = .ok pool' ∧
      Sorted pool' es' ∧ es' ≠ [] ∧ ∀ e ∈ es', r.present e.1 = true ∨ e ∈ es := by
  obtain ⟨des, heq, hlength, hmem⟩ := dictGetRandomKeys_spec hd h hfuel r.random
  obtain ⟨es', hsorted, hmem', hne⟩ :=
    insertAll_spec hs (des.map fun e => (e.key, r.idle e.key))
  rw [evictionPoolPopulate, heq]
  dsimp only [bind, Except.bind]
  rw [if_pos (hlength ▸ h.room)]
  have hdes : des ≠ [] := by
    rintro rfl
    have hpos := h.positive
    rw [← hlength] at hpos
    cases hpos
  refine ⟨_, es', rfl, hsorted, hne (.inl (mt List.map_eq_nil_iff.mp hdes)), fun x hx => ?_⟩
  obtain hx | hx := hmem' x hx
  · obtain ⟨e, he, rfl⟩ := List.mem_map.mp hx
    exact .inl ((present_iff r _).mpr ⟨e, hmem e he, rfl⟩)
  · exact .inr hx

theorem search_spec {rounds : ℕ → Round K V} {maxmemorySamples : BitVec 32}
    (hd : ∀ n, (rounds n).dict.Shaped) (h : ∀ n, Samples (rounds n).dict maxmemorySamples)
    {pool : List (PoolEntry K)} {es : List (K × ℕ)} (hs : Sorted pool es) :
    ∃ fuel pool' es' key n, search rounds maxmemorySamples fuel pool = .ok (pool', key) ∧
      Sorted pool' es' ∧ n < 2 ∧ (rounds n).present key = true := by
  obtain ⟨fuel, hfuel⟩ : ∃ fuel, 2 ^ 31 ≤ fuel := ⟨_, le_rfl⟩
  refine ⟨fuel + 2, ?_⟩
  obtain ⟨pool₁, es₁, heq₁, hsorted₁, -, -⟩ :=
    evictionPoolPopulate_spec (hd 0) (h 0) (show 2 ^ 31 ≤ fuel + 1 + 1 by omega) hs
  rw [search, heq₁]
  dsimp only [bind, Except.bind]
  obtain ⟨lo, e, -, hpresent, hsorted, hpick⟩ | ⟨-, hsorted, hpick⟩ :=
    pick_spec (rounds 0).present hsorted₁
  · refine ⟨(pick (rounds 0).present pool₁).1, lo, e.1, 0, ?_, hsorted, by decide, hpresent⟩
    rw [← Prod.eta (pick (rounds 0).present pool₁), hpick]
  · -- all entries were ghosts, and every entry of the second round was sampled
    obtain ⟨pool₂, es₂, heq₂, hsorted₂, hne, hmem⟩ :=
      evictionPoolPopulate_spec (hd 1) (h 1) (show 2 ^ 31 ≤ fuel + 1 by omega) hsorted
    have hall : ∀ e ∈ es₂, (rounds 1).present e.1 = true :=
      fun e he => (hmem e he).resolve_right nofun
    obtain ⟨lo, e, -, hpresent, hsorted', hpick'⟩ | ⟨hghosts, -, -⟩ :=
      pick_spec (rounds 1).present hsorted₂
    · refine ⟨(pick (rounds 1).present pool₂).1, lo, e.1, 1, ?_, hsorted', by decide, hpresent⟩
      rw [← Prod.eta (pick (rounds 0).present pool₁), hpick]
      dsimp only
      rw [search, heq₂]
      dsimp only [bind, Except.bind]
      rw [← Prod.eta (pick (rounds 1).present pool₂), hpick']
    · obtain ⟨e, he⟩ := List.exists_mem_of_ne_nil es₂ hne
      have hghost := hghosts e he
      rw [hall e he] at hghost
      cases hghost

theorem search_sorted {rounds : ℕ → Round K V} {maxmemorySamples : BitVec 32} {fuel : ℕ}
    {pool pool' : List (PoolEntry K)} {es : List (K × ℕ)} {key : K} (hs : Sorted pool es)
    (h : search rounds maxmemorySamples fuel pool = .ok (pool', key)) :
    ∃ es', Sorted pool' es' := by
  induction fuel generalizing rounds pool es with
  | zero => cases h
  | succ fuel ih =>
    rw [search] at h
    obtain ⟨pool₁, hpopulate, h⟩ := Except.bind_eq_ok.mp h
    rw [evictionPoolPopulate] at hpopulate
    obtain ⟨samples, -, hpopulate⟩ := Except.bind_eq_ok.mp hpopulate
    split at hpopulate
    · obtain rfl := Except.ok.inj hpopulate
      obtain ⟨es₁, hsorted, -, -⟩ :=
        insertAll_spec hs (samples.map fun e => (e.key, (rounds 0).idle e.key))
      have hpick : ∃ es₂, Sorted (pick (rounds 0).present
          (insertAll pool (samples.map fun e => (e.key, (rounds 0).idle e.key)))).1 es₂ := by
        obtain ⟨lo, -, -, -, hlo, -⟩ | ⟨-, hnil, -⟩ := pick_spec (rounds 0).present hsorted
        · exact ⟨lo, hlo⟩
        · exact ⟨[], hnil⟩
      obtain ⟨es₂, hsorted₂⟩ := hpick
      split at h
      · rename_i heq
        rw [heq] at hsorted₂
        obtain ⟨rfl, -⟩ := Prod.mk.inj (Except.ok.inj h)
        exact ⟨es₂, hsorted₂⟩
      · rename_i heq
        rw [heq] at hsorted₂
        exact ih hsorted₂ h
    · cases hpopulate

/-! ### Runs -/

theorem poolStep_sorted {pool pool' : List (PoolEntry K)} {event : PoolEvent K V}
    (hs : ∃ es, Sorted pool es) (hstep : poolStep pool event = some pool') :
    ∃ es, Sorted pool' es := by
  obtain ⟨es, hs⟩ := hs
  cases event with
  | populate samples =>
    obtain rfl := Option.some_inj.mp hstep
    obtain ⟨es', hsorted, -, -⟩ := insertAll_spec hs samples
    exact ⟨es', hsorted⟩
  | pick present =>
    obtain rfl := Option.some_inj.mp hstep
    obtain ⟨lo, -, -, -, hlo, -⟩ | ⟨-, hnil, -⟩ := pick_spec present hs
    · exact ⟨lo, hlo⟩
    · exact ⟨[], hnil⟩
  | search input maxmemorySamples fuel =>
    obtain ⟨⟨pool₁, key⟩, hsearch, rfl⟩ := Option.map_eq_some_iff.mp hstep
    cases heq : search input.rounds maxmemorySamples fuel pool with
    | error e =>
      rw [heq] at hsearch
      cases hsearch
    | ok r =>
      rw [heq] at hsearch
      obtain rfl := Option.some_inj.mp hsearch
      exact search_sorted hs heq

/-- In the pool of every run the entries form a prefix in the order of their idle times; a full pool
drops an entry only for one with a larger idle time; and the search ends with a key of the
dictionary if every round can sample it. -/
theorem eviction_pool {events : List (PoolEvent K V)} {pool : List (PoolEntry K)}
    (hrun : Runs.run poolStep evictionPoolAlloc events = some pool) :
    ∃ es, Sorted pool es ∧
      (∀ e : K × ℕ, ∃ es', Sorted (insertEntry pool e.1 e.2) es' ∧ Inserted es e es') ∧
      ∀ (input : SearchInput K V) (maxmemorySamples : BitVec 32),
        (∀ n, Samples (input.rounds n).dict maxmemorySamples) →
        ∃ fuel pool' key, search input.rounds maxmemorySamples fuel pool = .ok (pool', key) ∧
          (input.rounds 0).present key = true := by
  have hsorted : ∃ es, Sorted pool es :=
    Runs.run_invariant (fun _ _ _ => poolStep_sorted) ⟨[], sorted_alloc⟩ hrun
  obtain ⟨es, hs⟩ := hsorted
  refine ⟨es, hs, insertEntry_spec hs, fun input maxmemorySamples hsamples => ?_⟩
  obtain ⟨fuel, pool', -, key, n, hsearch, -, -, hpresent⟩ :=
    search_spec input.shaped hsamples hs
  exact ⟨fuel, pool', key, hsearch, input.same n key ▸ hpresent⟩

theorem search_nothing (rounds : ℕ → Round K V) {maxmemorySamples : BitVec 32}
    (h : ∀ n, sampleCount (rounds n).dict maxmemorySamples.toInt ≤ 0) (fuel : ℕ) :
    search rounds maxmemorySamples fuel evictionPoolAlloc = .error .running := by
  induction fuel generalizing rounds with
  | zero => rfl
  | succ fuel ih =>
    have hpopulate : evictionPoolPopulate (rounds 0) maxmemorySamples (fuel + 1)
        evictionPoolAlloc = .ok evictionPoolAlloc := by
      rw [evictionPoolPopulate, dictGetRandomKeys, if_pos (h 0)]
      dsimp only [bind, Except.bind]
      rw [if_pos]
      · rfl
      · exact le_max_of_le_left (show ((0 : ℕ) : ℤ) ≤ samplesArraySize by decide)
    rw [search, hpopulate]
    exact ih (fun n => rounds (n + 1)) fun n => h (n + 1)

end

/-- A round with a dictionary that is rehashed. -/
def halfRound : Round ℕ ℕ := ⟨halfRehashed, fun _ => 0, fun _ => 7⟩

def halfSearch : SearchInput ℕ ℕ :=
  ⟨fun _ => halfRound, fun _ => shaped_halfRehashed, fun _ _ => rfl⟩

theorem samples_halfRehashed : Samples halfRehashed 5 := ⟨by decide, by decide, by decide⟩

/-- Two samples, and a search. -/
theorem eviction_pool_halfRehashed : ∃ pool : List (PoolEntry ℕ),
    Runs.run poolStep evictionPoolAlloc
      [(.populate [(8, 5), (9, 3)] : PoolEvent ℕ ℕ)] = some pool ∧
    ∃ fuel pool' key, search halfSearch.rounds 5 fuel pool = .ok (pool', key) ∧
      halfRound.present key = true := by
  refine ⟨_, rfl, ?_⟩
  obtain ⟨-, -, -, hsearch⟩ := eviction_pool (show Runs.run poolStep evictionPoolAlloc
    [(.populate [(8, 5), (9, 3)] : PoolEvent ℕ ℕ)] = some _ from rfl)
  exact hsearch halfSearch 5 fun _ => samples_halfRehashed

/-- `CONFIG SET maxmemory-samples 4294967296` stores 0, which the configuration file may not; then
the search of a dictionary with entries does not end. -/
theorem eviction_search_stuck : configSetMaxmemorySamples 4294967296 = some 0 ∧
    loadMaxmemorySamples 0 = none ∧ halfRound.dict.entries ≠ [] ∧
    ∀ fuel, search (fun _ => halfRound) 0 fuel evictionPoolAlloc = .error .running :=
  ⟨by decide, by decide, by decide, search_nothing _ fun _ => by decide⟩

end EvictionPool

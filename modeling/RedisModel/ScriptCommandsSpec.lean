/-
What a call from a script does with its objects.

* `decrRefCount_spec`, `createStringObject_spec`, `overwrite_spec` — the counts stay right;
* `buildArgs_spec`, `buildArgs_sound` — the vector is filled with the strings, if there is room;
* `cleanup_spec` — every argument is cached or released.
-/
import RedisModel.Ensures
import RedisModel.ScriptCommands

open ByteBuffer StringNumber
open DynamicString (Sdshdr Represents toInt toSize sdslen)

namespace ScriptCommands

attribute [local irreducible] DynamicString.toInt

/-! ### The heap -/

theorem lt_of_get {h : Heap} {r : ℕ} {o : Robj} (hr : h.get r = some o) : r < h.objects.length := by
  by_contra hlt
  rw [Heap.get, List.getElem?_eq_none (not_lt.mp hlt)] at hr
  cases hr

theorem get_put_self {h : Heap} {r : ℕ} {o : Robj} (hr : h.get r = some o) (o' : Option Robj) :
    (h.put r o').get r = o' := by
  rw [Heap.get, Heap.put, List.getElem?_set_self (lt_of_get hr)]
  rfl

theorem get_put_of_ne (h : Heap) {r r' : ℕ} (hne : r' ≠ r) (o : Option Robj) :
    (h.put r o).get r' = h.get r' := by
  rw [Heap.get, Heap.get, Heap.put, List.getElem?_set_ne hne.symm]

@[simp] theorem held_put (h : Heap) (r : ℕ) (o : Option Robj) : (h.put r o).held = h.held := rfl

theorem Accounted.put {h : Heap} {mine mine' : ℕ → ℕ} (hacc : Accounted h mine) {r : ℕ} {o : Robj}
    (hr : h.get r = some o) {o' : Option Robj} (hcount : Counts o' (h.held r + mine' r))
    (hmine : ∀ x, x ≠ r → mine' x = mine x) : Accounted (h.put r o') mine' := fun x => by
  by_cases hx : x = r
  · subst hx
    rwa [get_put_self hr]
  · rw [get_put_of_ne h hx, held_put, hmine x hx]
    exact hacc x

theorem Accounted.congr {h : Heap} {mine mine' : ℕ → ℕ} (hacc : Accounted h mine)
    (hmine : ∀ x, mine' x = mine x) : Accounted h mine' := fun x => by
  rw [hmine x]
  exact hacc x

theorem Accounted.get {h : Heap} {mine : ℕ → ℕ} (hacc : Accounted h mine) {r : ℕ}
    (hpos : 0 < mine r) : ∃ o, h.get r = some o ∧ o.refcount = h.held r + mine r ∧
      (o.isSds = true → HeaderOk o.ptr) := by
  have hr := hacc r
  cases hget : h.get r with
  | none =>
    rw [hget] at hr
    have hzero : h.held r + mine r = 0 := hr
    omega
  | some o =>
    rw [hget] at hr
    exact ⟨o, rfl, hr.1, hr.2.2⟩

theorem decrRefCount_spec {h : Heap} {mine : ℕ → ℕ} (hacc : Accounted h mine) (mine' : ℕ → ℕ)
    {r : ℕ} (hself : mine r = mine' r + 1) (hmine : ∀ x, x ≠ r → mine' x = mine x) :
    ∃ h', decrRefCount h r = .ok h' ∧ Accounted h' mine' ∧ h'.held = h.held ∧
      ∀ x, x ≠ r → h'.get x = h.get x := by
  obtain ⟨o, hget, hcount, hheader⟩ := hacc.get (by omega : 0 < mine r)
  rw [decrRefCount, hget]
  dsimp only
  rw [if_neg (by omega)]
  by_cases hone : o.refcount = 1
  · rw [if_pos hone]
    refine ⟨_, rfl, hacc.put hget ?_ hmine, rfl, fun x hx => get_put_of_ne h hx _⟩
    show _ + _ = 0
    omega
  · rw [if_neg hone]
    refine ⟨_, rfl, hacc.put hget ⟨?_, by omega, hheader⟩ hmine, rfl,
      fun x hx => get_put_of_ne h hx _⟩
    show o.refcount - 1 = _
    omega

theorem toInt_le_length (s : Bytes) : toInt s.length ≤ s.length := by
  have hrange := DynamicString.toInt_range (s.length : ℤ)
  by_cases hs : s.length < 2 ^ 31
  · rw [DynamicString.toInt_eq (by omega) (by omega)]
  · omega

/-- The object has one reference, and the string `s` is what is in it, unless `s` is too long for
the header. -/
def Holds (h : Heap) (r : ℕ) (s : Bytes) : Prop :=
  ∃ o, h.get r = some o ∧ o.refcount = 1 ∧ o.isSds = true ∧
    (s.length < 2 ^ 31 → Represents o.ptr s)

theorem Holds.congr {h h' : Heap} {r : ℕ} {s : Bytes} (hr : Holds h r s)
    (hget : h'.get r = h.get r) : Holds h' r s := by
  rwa [Holds, hget]

theorem Accounted.fresh {h : Heap} {mine : ℕ → ℕ} (hacc : Accounted h mine) :
    h.held h.objects.length + mine h.objects.length = 0 := by
  have hr := hacc h.objects.length
  rwa [Heap.get, List.getElem?_eq_none le_rfl] at hr

theorem createStringObject_spec {h : Heap} {mine : ℕ → ℕ} (hacc : Accounted h mine)
    (mine' : ℕ → ℕ) (s : Bytes) (hself : mine' h.objects.length = mine h.objects.length + 1)
    (hmine : ∀ x, x ≠ h.objects.length → mine' x = mine x) :
    Accounted (createStringObject h s).1 mine' ∧
      Holds (createStringObject h s).1 h.objects.length s ∧
      ∀ x, x ≠ h.objects.length → (createStringObject h s).1.get x = h.get x := by
  have hfresh := hacc.fresh
  have hnew : (createStringObject h s).1.get h.objects.length = some ⟨1,
      if s.length ≤ 39 then .embstr else .raw, ⟨toInt s.length, 0, s ++ [0]⟩⟩ := by
    rw [Heap.get, createStringObject, List.getElem?_append_right le_rfl, Nat.sub_self]
    rfl
  have hold : ∀ x, x ≠ h.objects.length → (createStringObject h s).1.get x = h.get x := by
    intro x hx
    rw [Heap.get, Heap.get, createStringObject]
    dsimp only
    obtain hlt | hgt := Nat.lt_or_gt_of_ne hx
    · rw [List.getElem?_append_left hlt]
    · rw [List.getElem?_eq_none (by omega : h.objects.length ≤ x), List.getElem?_eq_none]
      rw [List.length_append, List.length_singleton]
      omega
  have hrange := DynamicString.toInt_range (s.length : ℤ)
  have hle := toInt_le_length s
  refine ⟨fun x => ?_, ⟨_, hnew, rfl, ?_, fun hs => ?_⟩, hold⟩
  · by_cases hx : x = h.objects.length
    · subst hx
      rw [hnew]
      refine ⟨?_, ?_, fun _ => ⟨hrange, fun _ => ⟨le_rfl, ?_, ?_⟩⟩⟩
      · show 1 = h.held _ + _
        omega
      · show 0 < h.held _ + _
        omega
      · exact (add_zero _).trans_lt hrange.2
      · show toInt s.length + 0 + 1 ≤ ((s ++ [0]).length : ℤ)
        rw [List.length_append, List.length_singleton]
        push_cast
        omega
    · rw [hold x hx, hmine x hx]
      exact hacc x
  · show (_ || _) = true
    dsimp only
    split <;> rfl
  · rw [DynamicString.toInt_eq (by omega) (by omega)]
    exact ⟨[], rfl, hs, show (-2 : ℤ) ^ 31 ≤ 0 ∧ (0 : ℤ) < 2 ^ 31 by decide, rfl,
      show (0 : ℤ) % 2 ^ 32 + 1 ≤ 1 by decide⟩

theorem overwrite_spec {h : Heap} {mine : ℕ → ℕ} (hacc : Accounted h mine) {r : ℕ} {o : Robj}
    (hget : h.get r = some o) (hone : o.refcount = 1) (hsds : o.isSds = true)
    (hlen : 0 ≤ o.ptr.len) {s : Bytes} (hfits : s.length ≤ o.ptr.len + o.ptr.free) :
    ∃ h', overwrite h 0 r s = .ok h' ∧ Accounted h' mine ∧ Holds h' r s ∧
      ∀ x, x ≠ r → h'.get x = h.get x := by
  have hcount := hacc r
  rw [hget] at hcount
  obtain ⟨hrefs, hpos, hheader⟩ := hcount
  obtain ⟨hrange, hroom⟩ := hheader hsds
  obtain ⟨hfree, hmax, halloc⟩ := hroom hlen
  obtain ⟨rest, hsplit⟩ : ∃ rest, store o.ptr.buf 0 (s ++ [0]) = some (s ++ 0 :: rest) ∧
      s.length + 1 + rest.length = o.ptr.buf.length := by
    refine ⟨o.ptr.buf.drop (s.length + 1), ?_, ?_⟩
    · rw [store, if_pos]
      · simp
      · rw [List.length_append, List.length_singleton]
        omega
    · rw [List.length_drop]
      omega
  have hnewlen : toInt (s.length : ℤ) = s.length := DynamicString.toInt_eq (by omega) (by omega)
  have hnewfree : toInt (o.ptr.free + (o.ptr.len - s.length)) =
      o.ptr.free + (o.ptr.len - s.length) := DynamicString.toInt_eq (by omega) (by omega)
  have hbuf : (s ++ 0 :: rest).length = o.ptr.buf.length := by
    rw [List.length_append, List.length_cons]
    omega
  rw [overwrite, hget]
  dsimp only
  rw [if_neg (by rw [hsds]; decide), if_neg (not_not.mpr rfl), hsplit.1]
  dsimp only
  rw [hnewlen, hnewfree]
  refine ⟨_, rfl, hacc.put hget ⟨hrefs, hpos, fun _ => ⟨⟨?_, ?_⟩, fun _ => ⟨?_, ?_, ?_⟩⟩⟩
    fun _ _ => rfl, ⟨_, get_put_self hget _, hone, hsds,
      fun hs => ⟨rest, rfl, hs, ⟨?_, ?_⟩, rfl, ?_⟩⟩, fun x hx => get_put_of_ne h hx _⟩
  all_goals dsimp only
  · omega
  · omega
  · omega
  · omega
  · rw [hbuf]
    omega
  · omega
  · omega
  · rw [List.length_cons]
    omega

/-! ### The cache -/

section
variable {c : ObjectCache} {j : ℕ} {e : Option ℕ × ℤ}

theorem ObjectCache.get_eq_none : c.get j = none ↔ objcacheSize ≤ j := by
  rw [ObjectCache.get, List.getElem?_eq_none_iff, c.size]

theorem ObjectCache.exists_get (hj : j < objcacheSize) : ∃ e, c.get j = some e :=
  ⟨_, List.getElem?_eq_getElem (c.size.symm ▸ hj)⟩

theorem ObjectCache.get_put_self (h : c.get j = some e) (e' : Option ℕ × ℤ) :
    (c.put j e').get j = some e' :=
  List.getElem?_set_self (List.getElem?_eq_some_iff.mp h).1

theorem ObjectCache.get_put_of_ne (c : ObjectCache) {k : ℕ} (hne : k ≠ j) (e' : Option ℕ × ℤ) :
    (c.put j e').get k = c.get k := List.getElem?_set_ne hne.symm

theorem ObjectCache.count_put (h : c.get j = some e) (e' : Option ℕ × ℤ) (r : ℕ) :
    (c.put j e').count r + (if e.1 = some r then 1 else 0) =
      c.count r + if e'.1 = some r then 1 else 0 := by
  obtain ⟨hj, he⟩ := List.getElem?_eq_some_iff.mp h
  have hset := List.countP_set (p := fun e => decide (e.1 = some r)) (a := e') hj
  have hpos : (if e.1 = some r then 1 else 0) ≤ c.count r := by
    split
    · rename_i hr
      exact List.countP_pos_iff.mpr ⟨e, List.mem_of_getElem? h, decide_eq_true hr⟩
    · exact Nat.zero_le _
  rw [he] at hset
  simp only [decide_eq_true_eq] at hset
  simp only [ObjectCache.count, ObjectCache.put] at hpos ⊢
  rw [hset]
  omega

theorem ObjectCache.count_pos {r : ℕ} {len : ℤ} (h : c.get j = some (some r, len)) :
    0 < c.count r :=
  List.countP_pos_iff.mpr ⟨_, List.mem_of_getElem? h, decide_eq_true rfl⟩

end

/-- The cached objects are strings with one reference, and their lengths are recorded. -/
def CacheOk (h : Heap) (cache : ObjectCache) : Prop :=
  ∀ j r len, cache.get j = some (some r, len) → ∃ o, h.get r = some o ∧ o.refcount = 1 ∧
    o.isSds = true ∧ 0 ≤ o.ptr.len ∧ len = o.ptr.free + o.ptr.len

theorem CacheOk.congr {h h' : Heap} {cache : ObjectCache} (hcache : CacheOk h cache)
    (hget : ∀ j r len, cache.get j = some (some r, len) → h'.get r = h.get r) :
    CacheOk h' cache := fun j r len hj => by
  rw [hget j r len hj]
  exact hcache j r len hj

theorem CacheOk.put {h : Heap} {cache : ObjectCache} (hcache : CacheOk h cache) {j : ℕ}
    {e e' : Option ℕ × ℤ} (hj : cache.get j = some e)
    (he : ∀ r, e'.1 = some r → ∃ o, h.get r = some o ∧ o.refcount = 1 ∧ o.isSds = true ∧
      0 ≤ o.ptr.len ∧ e'.2 = o.ptr.free + o.ptr.len) : CacheOk h (cache.put j e') :=
  fun k r len hk => by
    by_cases hkj : k = j
    · subst hkj
      obtain rfl := Option.some_inj.mp ((ObjectCache.get_put_self hj e').symm.trans hk)
      exact he r rfl
    · exact hcache k r len ((cache.get_put_of_ne hkj e').symm.trans hk)

theorem CacheOk.alone {h : Heap} {cache : ObjectCache} (hcache : CacheOk h cache)
    {mine : ℕ → ℕ} (hacc : Accounted h fun x => mine x + cache.count x) {j r : ℕ} {len : ℤ}
    (hj : cache.get j = some (some r, len)) : h.held r = 0 ∧ mine r = 0 ∧ cache.count r = 1 := by
  obtain ⟨o, hget, hone, -⟩ := hcache j r len hj
  have hr := hacc r
  rw [hget] at hr
  have hcount := hr.1
  dsimp only at hcount
  have hpos := ObjectCache.count_pos hj
  omega

/-! ### The vector -/

/-- While the vector is filled: the counts are right, and its elements are the strings. -/
structure BuildOk (b : Building) (strs : List Bytes) : Prop where
  accounted : Accounted b.heap fun r => b.argv.count r + b.cache.count r
  cache : CacheOk b.heap b.cache
  built : List.Forall₂ (Holds b.heap) b.argv strs

theorem forall₂_holds_congr {h h' : Heap} {argv : List ℕ} {strs : List Bytes}
    (hbuilt : List.Forall₂ (Holds h) argv strs) (hget : ∀ r ∈ argv, h'.get r = h.get r) :
    List.Forall₂ (Holds h') argv strs := by
  induction hbuilt with
  | nil => exact .nil
  | cons hr _ ih =>
    obtain ⟨hself, hrest⟩ := List.forall_mem_cons.mp hget
    exact .cons (hr.congr hself) (ih hrest)

theorem count_concat (argv : List ℕ) (r x : ℕ) :
    (argv ++ [r]).count x = argv.count x + if r = x then 1 else 0 := by
  rw [List.count_append, List.count_singleton]
  simp

theorem BuildOk.concat {b : Building} {strs : List Bytes} (hb : BuildOk b strs) {h' : Heap}
    {cache' : ObjectCache} {r : ℕ} {s : Bytes}
    (hacc : Accounted h' fun x => (b.argv ++ [r]).count x + cache'.count x)
    (hcache : CacheOk h' cache') (hr : Holds h' r s)
    (hget : ∀ x ∈ b.argv, h'.get x = b.heap.get x) :
    BuildOk ⟨h', cache', b.argv ++ [r]⟩ (strs ++ [s]) :=
  ⟨hacc, hcache, List.rel_append (forall₂_holds_congr hb.built hget) (.cons hr .nil)⟩

theorem buildArg_spec {b : Building} {strs : List Bytes} (hb : BuildOk b strs) {size : ℕ}
    (hcache : b.argv.length < objcacheSize) (hsize : b.argv.length < size) (s : Bytes) :
    ∃ h' cache' r, buildArg size b s = .ok ⟨h', cache', b.argv ++ [r]⟩ ∧
      BuildOk ⟨h', cache', b.argv ++ [r]⟩ (strs ++ [s]) := by
  obtain ⟨⟨cached, len⟩, he⟩ := ObjectCache.exists_get (c := b.cache) hcache
  rw [buildArg, he]
  dsimp only
  rw [if_neg (not_le.mpr hsize)]
  split
  · rename_i r hfilter
    obtain ⟨rfl, hlen⟩ := Option.filter_eq_some_iff.mp hfilter
    obtain ⟨o, hget, hone, hsds, hpos, rfl⟩ := hb.cache _ _ _ he
    obtain ⟨hheld, hargv, hcount⟩ := hb.cache.alone hb.accounted he
    have hput := ObjectCache.count_put he (none, o.ptr.free + o.ptr.len)
    have hothers : b.heap.held r + b.argv.count r +
        (b.cache.put b.argv.length (none, o.ptr.free + o.ptr.len)).count r = 0 := by
      have hr := hput r
      rw [if_pos rfl, if_neg (by intro h; cases h)] at hr
      omega
    have hheader := (hb.accounted r)
    rw [hget] at hheader
    obtain ⟨hfree, hmax, -⟩ := (hheader.2.2 hsds).room hpos
    have hfits : s.length ≤ o.ptr.len + o.ptr.free := by
      have hsize := of_decide_eq_true hlen
      rw [show o.ptr.free + o.ptr.len = ((o.ptr.free + o.ptr.len).toNat : ℤ) by omega,
        DynamicString.toSize_natCast (by omega)] at hsize
      omega
    have hacc : Accounted b.heap fun x => (b.argv ++ [r]).count x +
        (b.cache.put b.argv.length (none, o.ptr.free + o.ptr.len)).count x :=
      hb.accounted.congr fun x => by
        have hx := hput x
        rw [count_concat]
        dsimp only at hx
        simp only [Option.some.injEq, reduceCtorEq, if_false] at hx
        omega
    obtain ⟨h', hwrite, hacc', hholds, hsame⟩ := overwrite_spec hacc hget hone hsds hpos hfits
    rw [hothers, hwrite]
    refine ⟨h', _, r, rfl, hb.concat hacc' ?_ hholds fun x hx => hsame x ?_⟩
    · refine (hb.cache.put he fun x hx => by cases hx).congr fun k x l hk => hsame x ?_
      rintro rfl
      have := ObjectCache.count_pos hk
      omega
    · rintro rfl
      have := List.count_pos_iff.mpr hx
      omega
  · have hfresh := hb.accounted.fresh
    obtain ⟨hacc, hholds, hsame⟩ := createStringObject_spec hb.accounted
      (fun x => (b.argv ++ [b.heap.objects.length]).count x + b.cache.count x) s
      (by rw [count_concat, if_pos rfl]; omega)
      (fun x hx => by rw [count_concat, if_neg hx.symm, add_zero])
    refine ⟨_, _, _, rfl, hb.concat hacc ?_ hholds fun x hx => hsame x ?_⟩
    · refine hb.cache.congr fun k x l hk => hsame x ?_
      rintro rfl
      have := ObjectCache.count_pos hk
      omega
    · rintro rfl
      have := List.count_pos_iff.mpr hx
      omega

theorem buildArg_sound {b b' : Building} {size : ℕ} {s : Bytes}
    (h : buildArg size b s = .ok b') : b.argv.length < objcacheSize ∧ b.argv.length < size ∧
      b'.argv.length = b.argv.length + 1 := by
  unfold buildArg at h
  split at h
  · cases h
  · rename_i cached len he
    have hj : b.argv.length < objcacheSize := by
      by_contra hj
      rw [ObjectCache.get_eq_none.mpr (not_lt.mp hj)] at he
      cases he
    split at h
    · cases h
    · rename_i hsize
      refine ⟨hj, not_le.mp hsize, ?_⟩
      split at h
      · obtain ⟨heap, -, h⟩ := Except.bind_eq_ok.mp h
        cases h
        exact List.length_append
      · cases h
        exact List.length_append

/-- The arguments in front of the first one that is not a string. -/
def leading : List (Option Bytes) → List Bytes
  | some s :: args => s :: leading args
  | _ => []

theorem buildArgs_spec {args : List (Option Bytes)} {b : Building} {strs : List Bytes} {size : ℕ}
    (hb : BuildOk b strs) (hcache : b.argv.length + (leading args).length ≤ objcacheSize)
    (hsize : b.argv.length + (leading args).length ≤ size) :
    ∃ b', buildArgs size b args = .ok b' ∧ BuildOk b' (strs ++ leading args) := by
  induction args generalizing b strs with
  | nil =>
    rw [leading, List.append_nil]
    · exact ⟨b, rfl, hb⟩
    · intro s args h
      cases h
  | cons arg args ih =>
    cases arg with
    | none =>
      rw [leading, List.append_nil]
      · exact ⟨b, rfl, hb⟩
      · intro s args h
        cases h
    | some s =>
      rw [leading, List.length_cons] at hcache hsize
      have hroom : b.argv.length < objcacheSize ∧ b.argv.length < size := ⟨by omega, by omega⟩
      obtain ⟨h', cache', r, hstep, hb'⟩ := buildArg_spec hb hroom.1 hroom.2 s
      have hlength : (b.argv ++ [r]).length = b.argv.length + 1 := List.length_append
      obtain ⟨b', hrest, hb''⟩ := ih hb' (by dsimp only; omega) (by dsimp only; omega)
      rw [List.append_assoc] at hb''
      rw [buildArgs, hstep]
      exact ⟨b', hrest, hb''⟩

theorem buildArgs_sound {args : List (Option Bytes)} {b b' : Building} {size : ℕ}
    (h : buildArgs size b args = .ok b') :
    (leading args = [] ∨ b.argv.length + (leading args).length ≤ objcacheSize ∧
      b.argv.length + (leading args).length ≤ size) := by
  induction args generalizing b with
  | nil => exact .inl rfl
  | cons arg args ih =>
    cases arg with
    | none => exact .inl rfl
    | some s =>
      rw [buildArgs] at h
      obtain ⟨b₁, hstep, hrest⟩ := Except.bind_eq_ok.mp h
      obtain ⟨hcache, hsize, hlength⟩ := buildArg_sound hstep
      rw [leading, List.length_cons]
      obtain hnil | hle := ih hrest
      · rw [hnil, List.length_nil]
        exact .inr ⟨by omega, by omega⟩
      · exact .inr ⟨by omega, by omega⟩

/-! ### Cleaning up -/

theorem count_cons (r : ℕ) (argv : List ℕ) (x : ℕ) :
    (r :: argv).count x = argv.count x + if r = x then 1 else 0 := by
  rw [List.count_cons]
  simp

theorem release_spec {argv : List ℕ} {h : Heap} {mine : ℕ → ℕ}
    (hacc : Accounted h fun x => argv.count x + mine x) :
    ∃ h', argv.foldlM decrRefCount h = .ok h' ∧ Accounted h' mine ∧
      ∀ x, x ∉ argv → h'.get x = h.get x := by
  induction argv generalizing h with
  | nil => exact ⟨h, rfl, hacc.congr fun x => by rw [List.count_nil, zero_add], fun _ _ => rfl⟩
  | cons r argv ih =>
    obtain ⟨h₁, hstep, hacc₁, -, hsame₁⟩ := decrRefCount_spec hacc (r := r)
      (fun x => argv.count x + mine x) (by rw [count_cons, if_pos rfl]; omega)
      (fun x hx => by rw [count_cons, if_neg hx.symm, add_zero])
    obtain ⟨h', hrest, hacc', hsame⟩ := ih hacc₁
    refine ⟨h', ?_, hacc', fun x hx => ?_⟩
    · rw [List.foldlM_cons, hstep]
      exact hrest
    · obtain ⟨hne, hx⟩ := not_or.mp (mt List.mem_cons.mpr hx)
      rw [hsame x hx, hsame₁ x hne]

theorem CacheOk.not_mem {h : Heap} {cache : ObjectCache} (hcache : CacheOk h cache) {argv : List ℕ}
    (hacc : Accounted h fun x => argv.count x + cache.count x) {j r : ℕ} {len : ℤ}
    (hj : cache.get j = some (some r, len)) : r ∉ argv := by
  obtain ⟨-, hnone, -⟩ := hcache.alone hacc hj
  exact List.count_eq_zero.mp hnone

theorem releaseCached_spec {h : Heap} {cache : ObjectCache} {argv : List ℕ}
    (hacc : Accounted h fun x => argv.count x + cache.count x) (hcache : CacheOk h cache)
    {j : ℕ} {cached : Option ℕ} {len : ℤ} (he : cache.get j = some (cached, len)) :
    ∃ h', releaseCached h cached = .ok h' ∧
      Accounted h' (fun x => argv.count x + (cache.put j (none, len)).count x) ∧
      CacheOk h' (cache.put j (none, len)) ∧ ∀ x ∈ argv, h'.get x = h.get x := by
  have hput := ObjectCache.count_put he (none, len)
  have hempty : CacheOk h (cache.put j (none, len)) := hcache.put he fun x hx => by cases hx
  cases cached with
  | none =>
    refine ⟨h, rfl, hacc.congr fun x => ?_, hempty, fun _ _ => rfl⟩
    have hx := hput x
    simp only [reduceCtorEq, if_false] at hx
    omega
  | some old =>
    obtain ⟨-, -, hone⟩ := hcache.alone hacc he
    have hself := hput old
    rw [if_pos rfl, if_neg (by intro h; cases h)] at hself
    have hothers : ∀ x, x ≠ old → (cache.put j (none, len)).count x = cache.count x :=
      fun x hne => by
        have hx := hput x
        rw [if_neg fun h => hne (Option.some_inj.mp h).symm, if_neg (by intro h; cases h)] at hx
        omega
    obtain ⟨h', hstep, hacc', -, hsame⟩ := decrRefCount_spec hacc (r := old)
      (fun x => argv.count x + (cache.put j (none, len)).count x) (by omega)
      (fun x hx => by rw [hothers x hx])
    refine ⟨h', hstep, hacc', hempty.congr fun k x l hk => hsame x ?_, fun x hx => hsame x ?_⟩
    · rintro rfl
      have := ObjectCache.count_pos hk
      omega
    · rintro rfl
      exact hcache.not_mem hacc he hx

theorem cache_spec {h : Heap} {cache : ObjectCache} {r : ℕ} {argv : List ℕ} {o : Robj}
    (hacc : Accounted h fun x => (r :: argv).count x + cache.count x) (hcache : CacheOk h cache)
    (hget : h.get r = some o) (hone : o.refcount = 1) (hsds : o.isSds = true)
    (hlen : sdslen o.ptr ≤ objcacheMaxLen) {j : ℕ} {len : ℤ}
    (he : cache.get j = some (none, len)) :
    Accounted h (fun x => argv.count x +
      (cache.put j (some r, toInt (o.ptr.free + o.ptr.len))).count x) ∧
      CacheOk h (cache.put j (some r, toInt (o.ptr.free + o.ptr.len))) := by
  have hheader := hacc r
  rw [hget] at hheader
  obtain ⟨hrange, hroom⟩ := hheader.2.2 hsds
  have hpos : 0 ≤ o.ptr.len := by
    obtain ⟨hpos, -⟩ | ⟨-, hbig⟩ := DynamicString.toSize_cases hrange.1 hrange.2
    · exact hpos
    · have hsize : toSize o.ptr.len ≤ 64 := hlen
      omega
  obtain ⟨hfree, hmax, -⟩ := hroom hpos
  have hsum : toInt (o.ptr.free + o.ptr.len) = o.ptr.free + o.ptr.len :=
    DynamicString.toInt_eq (by omega) (by omega)
  rw [hsum]
  refine ⟨hacc.congr fun x => ?_, hcache.put he fun x hx => ?_⟩
  · have hput := ObjectCache.count_put he (some r, o.ptr.free + o.ptr.len) x
    rw [if_neg (by intro h; cases h)] at hput
    simp only [Option.some.injEq] at hput
    rw [count_cons]
    omega
  · obtain rfl := Option.some_inj.mp hx
    exact ⟨o, hget, hone, hsds, hpos, rfl⟩

theorem cleanupArg_spec {h : Heap} {cache : ObjectCache} {r : ℕ} {argv : List ℕ}
    (hacc : Accounted h fun x => (r :: argv).count x + cache.count x) (hcache : CacheOk h cache)
    (j : ℕ) : ∃ h' cache', cleanupArg h cache j r = .ok (h', cache') ∧
      Accounted h' (fun x => argv.count x + cache'.count x) ∧ CacheOk h' cache' := by
  obtain ⟨o, hget, -, -⟩ := hacc.get (r := r) (by rw [count_cons, if_pos rfl]; omega)
  rw [cleanupArg, hget]
  dsimp only
  split
  · rename_i hsmall
    obtain ⟨hj, hone, hsds, hlen⟩ := hsmall
    obtain ⟨⟨cached, len⟩, he⟩ := ObjectCache.exists_get (c := cache) hj
    obtain ⟨h', hrelease, hacc', hcache', hsame⟩ := releaseCached_spec hacc hcache he
    rw [he, Option.bind_some, hrelease]
    have hput : ∀ e, (cache.put j (none, len)).put j e = cache.put j e := fun e => by
      simp only [ObjectCache.put, List.set_set]
    obtain ⟨hacc'', hcache''⟩ := cache_spec hacc' hcache'
      ((hsame r List.mem_cons_self).trans hget) hone hsds hlen (ObjectCache.get_put_self he _)
    rw [hput] at hacc'' hcache''
    exact ⟨h', _, rfl, hacc'', hcache''⟩
  · obtain ⟨h', hstep, hacc', -, hsame⟩ := decrRefCount_spec hacc (r := r)
      (fun x => argv.count x + cache.count x) (by rw [count_cons, if_pos rfl]; omega)
      (fun x hx => by rw [count_cons, if_neg hx.symm, add_zero])
    rw [hstep]
    refine ⟨h', cache, rfl, hacc', hcache.congr fun k x l hk => hsame x ?_⟩
    rintro rfl
    exact hcache.not_mem hacc hk List.mem_cons_self

theorem cleanup_spec {argv : List ℕ} {h : Heap} {cache : ObjectCache}
    (hacc : Accounted h fun x => argv.count x + cache.count x) (hcache : CacheOk h cache) (j : ℕ) :
    ∃ h' cache', cleanup h cache j argv = .ok (h', cache') ∧ Accounted h' cache'.count ∧
      CacheOk h' cache' := by
  induction argv generalizing h cache j with
  | nil => exact ⟨h, cache, rfl, hacc.congr fun x => by rw [List.count_nil, zero_add], hcache⟩
  | cons r argv ih =>
    obtain ⟨h₁, cache₁, hstep, hacc₁, hcache₁⟩ := cleanupArg_spec hacc hcache j
    obtain ⟨h', cache', hrest, hacc', hcache'⟩ := ih hacc₁ hcache₁ (j + 1)
    refine ⟨h', cache', ?_, hacc', hcache'⟩
    rw [cleanup, hstep]
    exact hrest

end ScriptCommands

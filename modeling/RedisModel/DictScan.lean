/-
Scanning a dictionary.

* `rev`, `dictScan` — the code;
* `rev_eq_reverse` — the loop of masks and shifts reverses the bits;
* `scanExpansion_spec`, `dictScan_spec` — what one call emits, and the cursor it returns;
* `scan_permutation` — the calls until the cursor is 0 again emit every entry once.
-/
import RedisModel.BitReversal
import RedisModel.Dict

open BitReversal

namespace Dict

variable {K V : Type}

/-! ### The code -/

/-- The loop of `rev`, in which `s` is `2 ^ j`. -/
def revLoop : ℕ → BitVec 64 → BitVec 64 → BitVec 64
  | 0, _, v => v
  | j + 1, mask, v =>
    let s := 2 ^ j
    let mask := mask ^^^ (mask <<< s)
    revLoop j mask (((v >>> s) &&& mask) ||| ((v <<< s) &&& ~~~mask))

def rev (v : BitVec 64) : BitVec 64 := revLoop 6 (~~~0) v

/-- The loop over the expansions of the cursor in the larger table, with the entries that are
emitted. -/
def scanExpansion (t1 : Dictht K V) (m0 m1 : BitVec 64) :
    ℕ → BitVec 64 → Option (List (DictEntry K V) × BitVec 64)
  | 0, _ => none
  | fuel + 1, v => do
    let chain ← t1.table[(v &&& m1).toNat]?
    let v := (((v ||| m0) + 1) &&& ~~~m0) ||| (v &&& m0)
    if v &&& (m0 ^^^ m1) ≠ 0 then do
      let (rest, v) ← scanExpansion t1 m0 m1 fuel v
      some (chain ++ rest, v)
    else some (chain, v)

/-- The end of `dictScan`: the unmasked bits are set and the reversed cursor is incremented. -/
def nextCursor (m0 v : BitVec 64) : BitVec 64 := rev (rev (v ||| ~~~m0) + 1)

/-- `dictScan`, with the entries it emits. -/
def dictScan (d : Dict K V) (v : BitVec 64) : Option (List (DictEntry K V) × BitVec 64) :=
  if dictSize d = 0 then some ([], 0)
  else if ¬ d.dictIsRehashing then do
    let m0 := BitVec.ofNat 64 d.ht0.sizemask
    let chain ← d.ht0.table[(v &&& m0).toNat]?
    some (chain, nextCursor m0 v)
  else do
    let (t0, t1) := if d.ht0.size > d.ht1.size then (d.ht1, d.ht0) else (d.ht0, d.ht1)
    let m0 := BitVec.ofNat 64 t0.sizemask
    let m1 := BitVec.ofNat 64 t1.sizemask
    let chain ← t0.table[(v &&& m0).toNat]?
    let (rest, v) ← scanExpansion t1 m0 m1 t1.size v
    some (chain ++ rest, nextCursor m0 v)

/-- Calls of `dictScan`, each with the cursor that the one before returned. -/
def scanCalls (d : Dict K V) : ℕ → BitVec 64 → Option (List (DictEntry K V) × BitVec 64)
  | 0, v => some ([], v)
  | n + 1, v => do
    let (es, v) ← dictScan d v
    let (rest, v) ← scanCalls d n v
    some (es ++ rest, v)

/-- The size of the table, or of the smaller one of the two. -/
def scanLength (d : Dict K V) : ℕ :=
  if d.dictIsRehashing then min d.ht0.size d.ht1.size else d.ht0.size

/-! ### Reversing a word -/

/-- The bits that a round takes from the left are those whose position has a bit clear. -/
def swapMask (j : ℕ) (mask : BitVec 64) : Prop :=
  ∀ i, i < 64 → mask.getLsbD i = !i.testBit j

theorem getLsbD_swap {j : ℕ} (hj : j < 6) {mask : BitVec 64} (hmask : swapMask j mask)
    (v : BitVec 64) {i : ℕ} (hi : i < 64) :
    (((v >>> 2 ^ j) &&& mask) ||| ((v <<< 2 ^ j) &&& ~~~mask)).getLsbD i
      = v.getLsbD (i ^^^ 2 ^ j) := by
  have hbits : ∀ j : Fin 6, ∀ i : Fin 64,
      if i.val.testBit j.val then 2 ^ j.val ≤ i.val ∧ i.val ^^^ 2 ^ j.val = i.val - 2 ^ j.val
      else i.val ^^^ 2 ^ j.val = 2 ^ j.val + i.val := by
    decide
  have hbit := hbits ⟨j, hj⟩ ⟨i, hi⟩
  dsimp only at hbit
  rw [BitVec.getLsbD_or, BitVec.getLsbD_and, BitVec.getLsbD_and, BitVec.getLsbD_not, hmask i hi,
    BitVec.getLsbD_ushiftRight, BitVec.getLsbD_shiftLeft]
  split at hbit
  · rename_i htrue
    have hge : ¬ i < 2 ^ j := Nat.not_lt.mpr hbit.1
    simp [htrue, hi, hge, hbit.2]
  · rename_i hfalse
    simp [hfalse, hi, hbit]

theorem swapMask_step {j : ℕ} (hj : j < 6) {mask : BitVec 64} (hmask : swapMask (j + 1) mask) :
    swapMask j (mask ^^^ (mask <<< 2 ^ j)) := by
  have hbits : ∀ j : Fin 6, ∀ i : Fin 64,
      ((!i.val.testBit (j.val + 1)) ^^
        (!decide (i.val < 2 ^ j.val) && !(i.val - 2 ^ j.val).testBit (j.val + 1)))
      = !i.val.testBit j.val := by
    decide
  intro i hi
  have hbit := hbits ⟨j, hj⟩ ⟨i, hi⟩
  dsimp only at hbit
  rw [BitVec.getLsbD_xor, BitVec.getLsbD_shiftLeft, hmask i hi,
    hmask (i - 2 ^ j) (Nat.lt_of_le_of_lt (Nat.sub_le i _) hi), ← hbit, decide_eq_true hi]
  simp only [Bool.true_and]

theorem getLsbD_revLoop {j : ℕ} (hj : j ≤ 6) {mask : BitVec 64} (hmask : swapMask j mask)
    (v : BitVec 64) {i : ℕ} (hi : i < 64) :
    (revLoop j mask v).getLsbD i = v.getLsbD (i ^^^ (2 ^ j - 1)) := by
  induction j generalizing mask v with
  | zero => rw [revLoop, Nat.pow_zero, Nat.sub_self, Nat.xor_zero]
  | succ j ih =>
    have hones : ∀ j : Fin 6, (2 ^ j.val - 1) ^^^ 2 ^ j.val = 2 ^ (j.val + 1) - 1 := by decide
    have hlow : 2 ^ j - 1 < 2 ^ 6 :=
      (Nat.sub_lt (Nat.two_pow_pos j) Nat.one_pos).trans_le
        (Nat.pow_le_pow_right Nat.two_pos (by omega))
    have hxor : i ^^^ (2 ^ j - 1) < 64 := Nat.xor_lt_two_pow (n := 6) hi hlow
    have hmask' := swapMask_step hj hmask
    rw [revLoop]
    rw [ih (by omega) hmask', getLsbD_swap hj hmask' v hxor, Nat.xor_assoc, hones ⟨j, hj⟩]

theorem rev_eq_reverse (v : BitVec 64) : rev v = v.reverse := by
  have hfull : swapMask 6 (~~~0) := by
    rw [swapMask]
    decide
  have hpos : ∀ i : Fin 64, i.val ^^^ (2 ^ 6 - 1) = 63 - i.val := by decide
  apply BitVec.eq_of_getLsbD_eq
  intro i hi
  rw [rev, getLsbD_revLoop le_rfl hfull v hi, hpos ⟨i, hi⟩, BitVec.getLsbD_reverse,
    BitVec.getMsbD_eq_getLsbD, decide_eq_true hi, Bool.true_and]

/-! ### One call -/

theorem flatMap_bucket {h : Dictht K V} (hs : h.Shaped) :
    (List.range h.size).flatMap (bucket h) = h.entries := by
  have htable : (List.range h.size).map (bucket h) = h.table := by
    apply List.ext_getElem?
    intro i
    rw [List.getElem?_map]
    by_cases hi : i < h.size
    · rw [List.getElem?_range hi, getElem?_bucket hs hi]
      rfl
    · rw [List.getElem?_eq_none (by rw [List.length_range]; omega),
        List.getElem?_eq_none (by rw [hs.length]; omega)]
      rfl
  rw [List.flatMap_def, htable, Dictht.entries]

theorem ofNat_sizemask {h : Dictht K V} (hs : h.Shaped) {k : ℕ} (hk : h.size = 2 ^ k) :
    BitVec.ofNat 64 h.sizemask = lowMask 64 k := by
  rw [hs.mask, hk, lowMask]

theorem nextCursor_cursor {k : ℕ} (hk : k ≤ 64) (j : ℕ) :
    nextCursor (lowMask 64 k) (cursor 64 k j) = cursor 64 k (j + 1) := by
  rw [nextCursor, rev_eq_reverse, rev_eq_reverse, cursor_step hk]

theorem scanExpansion_round {t1 : Dictht K V} (hs : t1.Shaped) {a b v i : ℕ}
    (ht1 : t1.size = 2 ^ b) (hb : b ≤ 64) (hab : a ≤ b) (hv : v < 2 ^ a) (hi : i < 2 ^ (b - a))
    (fuel : ℕ) :
    scanExpansion t1 (lowMask 64 a) (lowMask 64 b) (fuel + 1) (BitVec.ofNat 64 (i * 2 ^ a + v))
      = if BitVec.ofNat 64 ((i + 1) * 2 ^ a + v) &&& (lowMask 64 a ^^^ lowMask 64 b) ≠ 0 then
          (scanExpansion t1 (lowMask 64 a) (lowMask 64 b) fuel
            (BitVec.ofNat 64 ((i + 1) * 2 ^ a + v))).map fun p =>
              (bucket t1 (i * 2 ^ a + v) ++ p.1, p.2)
        else some (bucket t1 (i * 2 ^ a + v), BitVec.ofNat 64 ((i + 1) * 2 ^ a + v)) := by
  have hlt := expansion_lt hab hv hi
  have hbucket := getElem?_bucket hs (ht1 ▸ hlt)
  rw [scanExpansion, toNat_and_lowMask hb, Nat.mod_eq_of_lt hlt, hbucket, expansion_step hv i]
  dsimp only [Option.bind_eq_bind, Option.bind_some]
  split
  · cases scanExpansion t1 (lowMask 64 a) (lowMask 64 b) fuel
      (BitVec.ofNat 64 ((i + 1) * 2 ^ a + v)) with
    | none => rfl
    | some p => rfl
  · rfl

theorem scanExpansion_spec {t1 : Dictht K V} (hs : t1.Shaped) {a b v : ℕ} (ht1 : t1.size = 2 ^ b)
    (hb : b ≤ 64) (hab : a ≤ b) (hv : v < 2 ^ a) (n i fuel : ℕ) (hn : i + (n + 1) = 2 ^ (b - a))
    (hfuel : n < fuel) :
    scanExpansion t1 (lowMask 64 a) (lowMask 64 b) fuel (BitVec.ofNat 64 (i * 2 ^ a + v))
      = some ((List.range' i (n + 1)).flatMap fun i => bucket t1 (i * 2 ^ a + v),
          BitVec.ofNat 64 (2 ^ (b - a) * 2 ^ a + v)) := by
  induction n generalizing i fuel with
  | zero =>
    obtain ⟨fuel, rfl⟩ := Nat.exists_eq_add_one_of_ne_zero (Nat.ne_zero_of_lt hfuel)
    rw [Nat.zero_add] at hn
    rw [scanExpansion_round hs ht1 hb hab hv (by omega), hn,
      if_neg fun hne => hne (expansion_eq_zero hv hb hab)]
    simp
  | succ n ih =>
    obtain ⟨fuel, rfl⟩ := Nat.exists_eq_add_one_of_ne_zero (Nat.ne_zero_of_lt hfuel)
    rw [scanExpansion_round hs ht1 hb hab hv (by omega),
      if_pos (expansion_ne_zero hv hb i.succ_pos (by omega)), ih _ _ (by omega) (by omega),
      List.range'_succ (s := i), List.flatMap_cons]
    rfl

theorem scanExpansion_all {t1 : Dictht K V} (hs : t1.Shaped) {a b v : ℕ} (ht1 : t1.size = 2 ^ b)
    (hb : b ≤ 64) (hab : a ≤ b) (hv : v < 2 ^ a) :
    scanExpansion t1 (lowMask 64 a) (lowMask 64 b) t1.size (BitVec.ofNat 64 v)
      = some ((List.range (2 ^ (b - a))).flatMap fun i => bucket t1 (i * 2 ^ a + v),
          BitVec.ofNat 64 (2 ^ (b - a) * 2 ^ a + v)) := by
  have hpos := Nat.two_pow_pos (b - a)
  have hle : 2 ^ (b - a) ≤ t1.size := by
    rw [ht1]
    exact Nat.pow_le_pow_right Nat.two_pos (Nat.sub_le b a)
  have hn : 2 ^ (b - a) - 1 + 1 = 2 ^ (b - a) := Nat.sub_add_cancel hpos
  have h := scanExpansion_spec hs ht1 hb hab hv (2 ^ (b - a) - 1) 0 t1.size (by omega) (by omega)
  rw [Nat.zero_mul, Nat.zero_add, hn, ← List.range_eq_range'] at h
  exact h

theorem dictSize_eq {d : Dict K V} (hd : d.Shaped) (htotal : d.entries.length < 2 ^ 64) :
    dictSize d = d.entries.length := by
  have hlength : d.ht0.used + d.ht1.used = d.entries.length := by
    rw [hd.ht0.used, hd.ht1.used, entries, List.length_append]
  rw [dictSize, hlength, Nat.mod_eq_of_lt htotal]

theorem toNat_cursor_and {k : ℕ} (hk : k ≤ 64) (j : ℕ) :
    (cursor 64 k j &&& lowMask 64 k).toNat = (cursor 64 k j).toNat := by
  rw [cursor_and_lowMask hk]

theorem dictScan_one {d : Dict K V} (hd : d.Shaped) (hne : dictSize d ≠ 0)
    (hone : d.dictIsRehashing = false) {k : ℕ} (hk : k ≤ 64) (hsize : d.ht0.size = 2 ^ k) (j : ℕ) :
    dictScan d (cursor 64 k j)
      = some (bucket d.ht0 (cursor 64 k j).toNat, cursor 64 k (j + 1)) := by
  have hlt := cursor_toNat_lt hk j
  rw [dictScan, if_neg hne, hone, if_pos Bool.false_ne_true,
    ofNat_sizemask hd.ht0 hsize]
  dsimp only
  rw [toNat_cursor_and hk, getElem?_bucket hd.ht0 (hsize ▸ hlt), nextCursor_cursor hk]
  rfl

/-- The smaller and the larger table of a dictionary that is rehashed. -/
def ordered (d : Dict K V) : Dictht K V × Dictht K V :=
  if d.ht0.size > d.ht1.size then (d.ht1, d.ht0) else (d.ht0, d.ht1)

theorem dictScan_two {d : Dict K V} (hne : dictSize d ≠ 0)
    (htwo : d.dictIsRehashing = true) (hs0 : d.ordered.1.Shaped) (hs1 : d.ordered.2.Shaped)
    {a b : ℕ} (hb : b ≤ 64) (hab : a ≤ b) (h0 : d.ordered.1.size = 2 ^ a)
    (h1 : d.ordered.2.size = 2 ^ b) (j : ℕ) :
    dictScan d (cursor 64 a j)
      = some (bucket d.ordered.1 (cursor 64 a j).toNat ++ (List.range (2 ^ (b - a))).flatMap
          fun i => bucket d.ordered.2 (i * 2 ^ a + (cursor 64 a j).toNat),
          cursor 64 a (j + 1)) := by
  have ha : a ≤ 64 := hab.trans hb
  have hlt := cursor_toNat_lt ha j
  have hrest := scanExpansion_all hs1 h1 hb hab hlt
  rw [BitVec.ofNat_toNat, BitVec.setWidth_eq] at hrest
  have hnext : nextCursor (lowMask 64 a)
      (BitVec.ofNat 64 (2 ^ (b - a) * 2 ^ a + (cursor 64 a j).toNat)) = cursor 64 a (j + 1) := by
    rw [nextCursor, expansion_or hlt, BitVec.ofNat_toNat, BitVec.setWidth_eq]
    exact nextCursor_cursor ha j
  have hnot : ¬ ¬ d.dictIsRehashing = true := fun hn => hn htwo
  rw [dictScan, if_neg hne, if_neg hnot]
  show (do
    let chain ← d.ordered.1.table[(cursor 64 a j &&& BitVec.ofNat 64 d.ordered.1.sizemask).toNat]?
    let (rest, v) ← scanExpansion d.ordered.2 (BitVec.ofNat 64 d.ordered.1.sizemask)
      (BitVec.ofNat 64 d.ordered.2.sizemask) d.ordered.2.size (cursor 64 a j)
    some (chain ++ rest, nextCursor (BitVec.ofNat 64 d.ordered.1.sizemask) v)) = _
  rw [ofNat_sizemask hs0 h0, ofNat_sizemask hs1 h1, toNat_cursor_and ha,
    getElem?_bucket hs0 (h0 ▸ hlt), hrest]
  dsimp only [Option.bind_eq_bind, Option.bind_some]
  rw [hnext]

/-! ### All calls -/

theorem scanCalls_spec {d : Dict K V} {k : ℕ} {emit : ℕ → List (DictEntry K V)}
    (hcall : ∀ j, dictScan d (cursor 64 k j) = some (emit j, cursor 64 k (j + 1))) (n j : ℕ) :
    scanCalls d n (cursor 64 k j) = some ((List.range' j n).flatMap emit, cursor 64 k (j + n)) := by
  induction n generalizing j with
  | zero => rfl
  | succ n ih =>
    rw [scanCalls, hcall]
    dsimp only [Option.bind_eq_bind, Option.bind_some]
    rw [ih (j + 1)]
    dsimp only [Option.bind_some]
    rw [List.range'_succ, List.flatMap_cons, Nat.add_assoc, Nat.add_comm 1 n]

theorem scanCalls_walk {d : Dict K V} {k : ℕ} (hk : k ≤ 64) {emit : ℕ → List (DictEntry K V)}
    (hcall : ∀ j, dictScan d (cursor 64 k j) = some (emit j, cursor 64 k (j + 1)))
    (hperm : ((List.range (2 ^ k)).flatMap emit).Perm d.entries) :
    (∃ es, scanCalls d (2 ^ k) 0 = some (es, 0) ∧ es.Perm d.entries) ∧
      ∀ n, 0 < n → n < 2 ^ k → ∃ es v, scanCalls d n 0 = some (es, v) ∧ v ≠ 0 := by
  have hrun : ∀ n, scanCalls d n 0 = some ((List.range n).flatMap emit, cursor 64 k n) := by
    intro n
    have h := scanCalls_spec hcall n 0
    rwa [cursor_zero, Nat.zero_add, ← List.range_eq_range'] at h
  refine ⟨⟨_, ?_, hperm⟩, fun n hpos hn => ⟨_, _, hrun n, cursor_ne_zero hk hpos hn⟩⟩
  rw [hrun, cursor_end hk]

theorem flatMap_cursor_perm {β : Type} {k : ℕ} (hk : k ≤ 64) (f : ℕ → List β) :
    ((List.range (2 ^ k)).flatMap fun j => f (cursor 64 k j).toNat).Perm
      ((List.range (2 ^ k)).flatMap f) := by
  have h := (cursors_perm hk).flatMap (f := f) (g := f) fun _ _ => List.Perm.refl _
  rwa [List.flatMap_map] at h

theorem perm_one {h : Dictht K V} (hs : h.Shaped) {k : ℕ} (hk : k ≤ 64) (hsize : h.size = 2 ^ k) :
    ((List.range (2 ^ k)).flatMap fun j => bucket h (cursor 64 k j).toNat).Perm h.entries := by
  have hall := flatMap_bucket hs
  rw [hsize] at hall
  exact hall ▸ flatMap_cursor_perm hk (bucket h)

theorem perm_expansions {h : Dictht K V} (hs : h.Shaped) {a b : ℕ} (hab : a ≤ b) (hb : b ≤ 64)
    (hsize : h.size = 2 ^ b) :
    ((List.range (2 ^ a)).flatMap fun j => (List.range (2 ^ (b - a))).flatMap
      fun i => bucket h (i * 2 ^ a + (cursor 64 a j).toNat)).Perm h.entries := by
  have hcursors := flatMap_cursor_perm (hab.trans hb) fun v =>
    (List.range (2 ^ (b - a))).flatMap fun i => bucket h (i * 2 ^ a + v)
  refine hcursors.trans ?_
  have hall := (expansions_perm hab).flatMap (f := bucket h) (g := bucket h)
    fun _ _ => List.Perm.refl _
  rw [← hsize, flatMap_bucket hs, List.flatMap_assoc] at hall
  simpa only [List.flatMap_map] using hall

theorem ordered_cases (d : Dict K V) :
    (d.ordered = (d.ht1, d.ht0) ∧ d.ht1.size < d.ht0.size) ∨
      (d.ordered = (d.ht0, d.ht1) ∧ d.ht0.size ≤ d.ht1.size) := by
  by_cases h : d.ht0.size > d.ht1.size
  · exact .inl ⟨if_pos h, h⟩
  · exact .inr ⟨if_neg h, Nat.le_of_not_lt h⟩

theorem ordered_spec {d : Dict K V} (hd : d.Shaped) (htwo : d.dictIsRehashing = true) :
    d.ordered.1.Shaped ∧ d.ordered.2.Shaped ∧
      (d.ordered.1.entries ++ d.ordered.2.entries).Perm d.entries ∧
      ∃ a b, a ≤ b ∧ b ≤ 64 ∧ d.ordered.1.size = 2 ^ a ∧ d.ordered.2.size = 2 ^ b ∧
        min d.ht0.size d.ht1.size = 2 ^ a := by
  obtain ⟨hpos0, hpos1⟩ := hd.rehashing htwo
  obtain ⟨k0, hk0, h0⟩ := hd.ht0.power.resolve_left hpos0.ne'
  obtain ⟨k1, hk1, h1⟩ := hd.ht1.power.resolve_left hpos1.ne'
  rcases ordered_cases d with ⟨heq, hlt⟩ | ⟨heq, hle⟩
  · rw [heq]
    refine ⟨hd.ht1, hd.ht0, List.perm_append_comm, k1, k0, ?_, hk0.le, h1, h0, ?_⟩
    · rw [h0, h1] at hlt
      exact ((Nat.pow_lt_pow_iff_right Nat.one_lt_two).mp hlt).le
    · rw [Nat.min_eq_right hlt.le, h1]
  · rw [heq]
    refine ⟨hd.ht0, hd.ht1, List.Perm.refl _, k0, k1, ?_, hk1.le, h0, h1, ?_⟩
    · rw [h0, h1] at hle
      exact (Nat.pow_le_pow_iff_right Nat.one_lt_two).mp hle
    · rw [Nat.min_eq_left hle, h0]

/-- Scanning a dictionary that does not change: the first call ends the scan of an empty one.
Otherwise the cursor is 0 again after as many calls as the table, or the smaller one of two
tables, has buckets, and not before, and every entry is emitted once. -/
theorem scan_permutation {d : Dict K V} (hd : d.Shaped) (htotal : d.entries.length < 2 ^ 64) :
    (d.entries = [] → scanCalls d 1 0 = some ([], 0)) ∧
    (d.entries ≠ [] →
      (∃ es, scanCalls d d.scanLength 0 = some (es, 0) ∧ es.Perm d.entries) ∧
        ∀ n, 0 < n → n < d.scanLength → ∃ es v, scanCalls d n 0 = some (es, v) ∧ v ≠ 0) := by
  refine ⟨fun hempty => ?_, fun hne => ?_⟩
  · have hzero : dictSize d = 0 := by rw [dictSize_eq hd htotal, hempty, List.length_nil]
    simp [scanCalls, dictScan, hzero]
  · have hsize : dictSize d ≠ 0 := by
      rw [dictSize_eq hd htotal]
      exact fun h => hne (List.length_eq_zero_iff.mp h)
    cases hrehashing : d.dictIsRehashing with
    | true =>
      obtain ⟨hs0, hs1, hperm, a, b, hab, hb, h0, h1, hmin⟩ := ordered_spec hd hrehashing
      have hlength : d.scanLength = 2 ^ a := by rw [scanLength, if_pos hrehashing, hmin]
      rw [hlength]
      refine scanCalls_walk (hab.trans hb)
        (dictScan_two hsize hrehashing hs0 hs1 hb hab h0 h1) ?_
      refine (List.flatMap_append_perm _ _ _).symm.trans (List.Perm.trans ?_ hperm)
      exact (perm_one hs0 (hab.trans hb) h0).append (perm_expansions hs1 hab hb h1)
    | false =>
      have hentries : d.entries = d.ht0.entries := by
        rw [entries, hd.settled hrehashing, List.append_nil]
      have hpos : d.ht0.size ≠ 0 := fun hzero => hne (by
        rw [hentries, Dictht.entries, List.length_eq_zero_iff.mp (hd.ht0.length.trans hzero)]
        rfl)
      obtain ⟨k, hk, hpower⟩ := hd.ht0.power.resolve_left hpos
      have hlength : d.scanLength = 2 ^ k := by
        rw [scanLength, hrehashing, if_neg Bool.false_ne_true, hpower]
      rw [hlength]
      refine scanCalls_walk hk.le (dictScan_one hd hsize hrehashing hk.le hpower) ?_
      rw [hentries]
      exact perm_one hd.ht0 hk.le hpower

/-- A dictionary that is rehashed from four to eight buckets. -/
def halfRehashed : Dict ℕ ℕ where
  ht0 := ⟨[[], [], [⟨0, 2, 20⟩], []], 4, 3, 1⟩
  ht1 := ⟨[[⟨2, 8, 80⟩], [⟨1, 1, 10⟩], [], [], [], [], [], []], 8, 7, 2⟩
  rehashidx := 2
  iterators := 0
  allocated := 3

theorem shaped_halfRehashed : halfRehashed.Shaped where
  ht0 := ⟨rfl, rfl, rfl, .inr ⟨2, by decide, rfl⟩⟩
  ht1 := ⟨rfl, rfl, rfl, .inr ⟨3, by decide, rfl⟩⟩
  rehashing := fun _ => ⟨by decide, by decide⟩
  settled := fun h => absurd h (by decide)

theorem scan_permutation_halfRehashed :
    (∃ es, scanCalls halfRehashed 4 0 = some (es, 0) ∧ es.Perm halfRehashed.entries) ∧
      ∀ n, 0 < n → n < 4 → ∃ es v, scanCalls halfRehashed n 0 = some (es, v) ∧ v ≠ 0 :=
  (scan_permutation shaped_halfRehashed (by decide)).2 (List.cons_ne_nil _ _)

/-- A dictionary whose table of four buckets was just made is scanned in one call. -/
theorem scan_empty_one_call : ∃ d : Dict ℕ ℕ, d = (dictExpand dictCreate 4).1 ∧ d.Shaped ∧
    d.dictIsRehashing = false ∧ d.ht0.size = 4 ∧ scanCalls d 1 0 = some ([], 0) := by
  refine ⟨_, rfl, ?_, rfl, rfl, rfl⟩
  constructor
  · exact ⟨rfl, rfl, rfl, .inr ⟨2, by decide, rfl⟩⟩
  · exact ⟨rfl, rfl, rfl, .inl rfl⟩
  · exact fun h => absurd h (by decide)
  · exact fun _ => rfl

end Dict

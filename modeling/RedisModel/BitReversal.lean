/-
Counting with reversed bits.

A cursor of `w` bits walks through the numbers of `k` bits: the bits above are set, and the
cursor is incremented from its highest bit on.  `cursor w k j` is the cursor after `j` steps.

* `cursor_step` — one step of the walk;
* `cursors_perm` — `2 ^ k` steps walk through all numbers of `k` bits;
* `expansion_step`, `expansions_perm` — the numbers of `b` bits with given low bits.
-/
import Mathlib.Data.List.Nodup
import Mathlib.Data.List.Perm.Basic
import Mathlib.Data.Nat.Bitwise
import Mathlib.Algebra.Order.Ring.Nat

namespace BitReversal

variable {w : ℕ}

/-- The low `k` bits. -/
def lowMask (w k : ℕ) : BitVec w := BitVec.ofNat w (2 ^ k - 1)

/-- The cursor after `j` steps. -/
def cursor (w k j : ℕ) : BitVec w := (BitVec.ofNat w (j * 2 ^ (w - k))).reverse

theorem getLsbD_lowMask (k i : ℕ) :
    (lowMask w k).getLsbD i = (decide (i < w) && decide (i < k)) := by
  rw [lowMask, BitVec.getLsbD_ofNat, Nat.testBit_two_pow_sub_one]

theorem getLsbD_parts {a r : ℕ} (i : ℕ) (hr : r < 2 ^ a) (n : ℕ) :
    (BitVec.ofNat w (i * 2 ^ a + r)).getLsbD n
      = (decide (n < w) && if n < a then r.testBit n else i.testBit (n - a)) := by
  rw [BitVec.getLsbD_ofNat, Nat.mul_comm, Nat.testBit_two_pow_mul_add _ hr]

/-! ### The walk -/

theorem getLsbD_cursor {k : ℕ} (hk : k ≤ w) (j i : ℕ) :
    (cursor w k j).getLsbD i = (decide (i < k) && j.testBit (k - 1 - i)) := by
  rw [cursor, BitVec.getLsbD_reverse, BitVec.getMsbD_eq_getLsbD, BitVec.getLsbD_ofNat,
    Nat.testBit_mul_two_pow]
  by_cases hi : i < k
  · have hpos : w - 1 - i - (w - k) = k - 1 - i := by omega
    rw [hpos, decide_eq_true (by omega : i < w), decide_eq_true (by omega : w - 1 - i < w),
      decide_eq_true (by omega : w - k ≤ w - 1 - i), decide_eq_true hi]
    simp only [Bool.true_and]
  · by_cases hw : i < w
    · rw [decide_eq_false (by omega : ¬ w - k ≤ w - 1 - i), decide_eq_false hi]
      simp only [Bool.false_and, Bool.and_false]
    · rw [decide_eq_false hw, decide_eq_false hi]
      simp only [Bool.false_and]

theorem cursor_zero (k : ℕ) : cursor w k 0 = 0 := by
  rw [cursor, Nat.zero_mul]
  exact BitVec.reverse_eq_zero_iff.mpr rfl

theorem cursor_step {k : ℕ} (hk : k ≤ w) (j : ℕ) :
    ((cursor w k j ||| ~~~lowMask w k).reverse + 1).reverse = cursor w k (j + 1) := by
  have hor : (cursor w k j ||| ~~~lowMask w k).reverse
      = BitVec.ofNat w (j * 2 ^ (w - k) + (2 ^ (w - k) - 1)) := by
    apply BitVec.eq_of_getLsbD_eq
    intro i hi
    have hlt : 2 ^ (w - k) - 1 < 2 ^ (w - k) := Nat.sub_lt (Nat.two_pow_pos _) Nat.one_pos
    rw [getLsbD_parts j hlt, Nat.testBit_two_pow_sub_one, BitVec.getLsbD_reverse,
      BitVec.getMsbD_eq_getLsbD, BitVec.getLsbD_or, BitVec.getLsbD_not, getLsbD_lowMask,
      getLsbD_cursor hk]
    by_cases hlow : i < w - k
    · have hhigh : ¬ w - 1 - i < k := by omega
      have hw : w - 1 - i < w := by omega
      simp [hi, hlow, hhigh, hw]
    · have hhigh : w - 1 - i < k := by omega
      have hw : w - 1 - i < w := by omega
      have hpos : k - 1 - (w - 1 - i) = i - (w - k) := by omega
      simp [hi, hlow, hhigh, hw, hpos]
  have hsum : j * 2 ^ (w - k) + (2 ^ (w - k) - 1) + 1 = (j + 1) * 2 ^ (w - k) := by
    have hpos := Nat.two_pow_pos (w - k)
    rw [Nat.succ_mul]
    omega
  rw [hor, cursor, ← hsum, BitVec.ofNat_add (j * 2 ^ (w - k) + (2 ^ (w - k) - 1)) 1]
  rfl

theorem cursor_toNat_lt {k : ℕ} (hk : k ≤ w) (j : ℕ) : (cursor w k j).toNat < 2 ^ k := by
  refine Nat.lt_pow_two_of_testBit _ fun i hi => ?_
  rw [BitVec.testBit_toNat, getLsbD_cursor hk, decide_eq_false (by omega), Bool.false_and]

theorem cursor_and_lowMask {k : ℕ} (hk : k ≤ w) (j : ℕ) :
    cursor w k j &&& lowMask w k = cursor w k j := by
  apply BitVec.eq_of_getLsbD_eq
  intro i hi
  rw [BitVec.getLsbD_and, getLsbD_lowMask, getLsbD_cursor hk]
  by_cases hik : i < k
  · simp [hi, hik]
  · simp [hik]

theorem shift_lt {k j : ℕ} (hk : k ≤ w) (hj : j < 2 ^ k) : j * 2 ^ (w - k) < 2 ^ w := by
  have hpow : 2 ^ w = 2 ^ k * 2 ^ (w - k) := by rw [← Nat.pow_add, Nat.add_sub_cancel' hk]
  rw [hpow]
  exact Nat.mul_lt_mul_of_pos_right hj (Nat.two_pow_pos _)

theorem cursor_injOn {k i j : ℕ} (hk : k ≤ w) (hi : i < 2 ^ k) (hj : j < 2 ^ k)
    (heq : cursor w k i = cursor w k j) : i = j := by
  have hrev := congrArg BitVec.reverse heq
  rw [cursor, cursor, BitVec.reverse_reverse_eq, BitVec.reverse_reverse_eq] at hrev
  have hnat := congrArg BitVec.toNat hrev
  rw [BitVec.toNat_ofNat, BitVec.toNat_ofNat, Nat.mod_eq_of_lt (shift_lt hk hi),
    Nat.mod_eq_of_lt (shift_lt hk hj)] at hnat
  exact Nat.eq_of_mul_eq_mul_right (Nat.two_pow_pos _) hnat

theorem cursor_end {k : ℕ} (hk : k ≤ w) : cursor w k (2 ^ k) = 0 := by
  rw [cursor, ← Nat.pow_add, Nat.add_sub_cancel' hk]
  refine BitVec.reverse_eq_zero_iff.mpr (BitVec.eq_of_toNat_eq ?_)
  rw [BitVec.toNat_ofNat, Nat.mod_self]
  rfl

theorem cursor_ne_zero {k j : ℕ} (hk : k ≤ w) (hpos : 0 < j) (hj : j < 2 ^ k) :
    cursor w k j ≠ 0 := fun hzero =>
  hpos.ne' (cursor_injOn hk hj (Nat.two_pow_pos k) (hzero.trans (cursor_zero k).symm))

theorem perm_range_of_nodup {l : List ℕ} {n : ℕ} (hnodup : l.Nodup) (hlt : ∀ x ∈ l, x < n)
    (hlength : l.length = n) : l.Perm (List.range n) := by
  refine (List.subperm_of_subset hnodup fun x hx => List.mem_range.mpr (hlt x hx)).perm_of_length_le ?_
  rw [List.length_range, hlength]

theorem cursors_perm {k : ℕ} (hk : k ≤ w) :
    ((List.range (2 ^ k)).map fun j => (cursor w k j).toNat).Perm (List.range (2 ^ k)) := by
  refine perm_range_of_nodup ?_ (fun x hx => ?_) (by rw [List.length_map, List.length_range])
  · refine List.Nodup.map_on (fun i hi j hj heq => ?_) List.nodup_range
    exact cursor_injOn hk (List.mem_range.mp hi) (List.mem_range.mp hj) (BitVec.eq_of_toNat_eq heq)
  · obtain ⟨j, -, rfl⟩ := List.mem_map.mp hx
    exact cursor_toNat_lt hk j

/-! ### Expansions -/

theorem toNat_and_lowMask {b : ℕ} (hb : b ≤ w) (x : ℕ) :
    (BitVec.ofNat w x &&& lowMask w b).toNat = x % 2 ^ b := by
  apply Nat.eq_of_testBit_eq
  intro n
  rw [BitVec.testBit_toNat, BitVec.getLsbD_and, getLsbD_lowMask, BitVec.getLsbD_ofNat,
    Nat.testBit_mod_two_pow]
  by_cases hn : n < b
  · have hw : n < w := by omega
    simp [hn, hw]
  · simp [hn]

theorem expansion_lt {a b v i : ℕ} (hab : a ≤ b) (hv : v < 2 ^ a) (hi : i < 2 ^ (b - a)) :
    i * 2 ^ a + v < 2 ^ b := by
  have hpow : 2 ^ b = 2 ^ (b - a) * 2 ^ a := by rw [← Nat.pow_add, Nat.sub_add_cancel hab]
  have hle : (i + 1) * 2 ^ a ≤ 2 ^ (b - a) * 2 ^ a := Nat.mul_le_mul_right _ hi
  rw [Nat.succ_mul] at hle
  omega

theorem expansion_step {a v : ℕ} (hv : v < 2 ^ a) (i : ℕ) :
    (((BitVec.ofNat w (i * 2 ^ a + v) ||| lowMask w a) + 1) &&& ~~~lowMask w a) |||
        (BitVec.ofNat w (i * 2 ^ a + v) &&& lowMask w a)
      = BitVec.ofNat w ((i + 1) * 2 ^ a + v) := by
  have hpos := Nat.two_pow_pos a
  have hor : BitVec.ofNat w (i * 2 ^ a + v) ||| lowMask w a
      = BitVec.ofNat w (i * 2 ^ a + (2 ^ a - 1)) := by
    apply BitVec.eq_of_getLsbD_eq
    intro n hn
    rw [BitVec.getLsbD_or, getLsbD_lowMask, getLsbD_parts i hv,
      getLsbD_parts i (Nat.sub_lt hpos Nat.one_pos), Nat.testBit_two_pow_sub_one]
    by_cases hna : n < a
    · simp [hn, hna]
    · simp [hn, hna]
  have hsum : i * 2 ^ a + (2 ^ a - 1) + 1 = (i + 1) * 2 ^ a + 0 := by
    rw [Nat.succ_mul]
    omega
  have hnext : BitVec.ofNat w (i * 2 ^ a + (2 ^ a - 1)) + 1
      = BitVec.ofNat w ((i + 1) * 2 ^ a + 0) := by
    rw [← hsum, BitVec.ofNat_add (i * 2 ^ a + (2 ^ a - 1)) 1]
    rfl
  rw [hor, hnext]
  apply BitVec.eq_of_getLsbD_eq
  intro n hn
  rw [BitVec.getLsbD_or, BitVec.getLsbD_and, BitVec.getLsbD_and, BitVec.getLsbD_not,
    getLsbD_lowMask, getLsbD_parts (i + 1) hpos, getLsbD_parts i hv, getLsbD_parts (i + 1) hv]
  by_cases hna : n < a
  · simp [hn, hna]
  · simp [hn, hna]

theorem expansion_or {a v : ℕ} (hv : v < 2 ^ a) (i : ℕ) :
    BitVec.ofNat w (i * 2 ^ a + v) ||| ~~~lowMask w a = BitVec.ofNat w v ||| ~~~lowMask w a := by
  apply BitVec.eq_of_getLsbD_eq
  intro n hn
  rw [BitVec.getLsbD_or, BitVec.getLsbD_or, BitVec.getLsbD_not, getLsbD_lowMask,
    getLsbD_parts i hv, BitVec.getLsbD_ofNat]
  by_cases hna : n < a
  · simp [hn, hna]
  · simp [hn, hna]

theorem getLsbD_expansion {a b v : ℕ} (hv : v < 2 ^ a) (hb : b ≤ w) (i n : ℕ) :
    (BitVec.ofNat w (i * 2 ^ a + v) &&& (lowMask w a ^^^ lowMask w b)).getLsbD n
      = (decide (n < w) && (if n < a then v.testBit n else i.testBit (n - a)) &&
        (decide (n < a) ^^ decide (n < b))) := by
  rw [BitVec.getLsbD_and, BitVec.getLsbD_xor, getLsbD_lowMask, getLsbD_lowMask, getLsbD_parts i hv]
  by_cases hn : n < w
  · simp [hn]
  · have hnb : ¬ n < b := by omega
    simp [hn, hnb]

theorem expansion_ne_zero {a b v i : ℕ} (hv : v < 2 ^ a) (hb : b ≤ w) (hpos : 0 < i)
    (hi : i < 2 ^ (b - a)) :
    BitVec.ofNat w (i * 2 ^ a + v) &&& (lowMask w a ^^^ lowMask w b) ≠ 0 := by
  intro hzero
  obtain ⟨n, hn⟩ := Nat.exists_testBit_of_ne_zero hpos.ne'
  have hlt : n < b - a := by
    by_contra hge
    have hfalse := Nat.testBit_lt_two_pow (hi.trans_le (Nat.pow_le_pow_right Nat.two_pos
      (Nat.le_of_not_lt hge)))
    rw [hn] at hfalse
    cases hfalse
  have hbit := congrArg (fun x => BitVec.getLsbD x (a + n)) hzero
  rw [getLsbD_expansion hv hb] at hbit
  have hw : a + n < w := by omega
  have hna : ¬ a + n < a := by omega
  have hnb : a + n < b := by omega
  simp [hw, hnb, hn] at hbit

theorem expansion_eq_zero {a b v : ℕ} (hv : v < 2 ^ a) (hb : b ≤ w) (hab : a ≤ b) :
    BitVec.ofNat w (2 ^ (b - a) * 2 ^ a + v) &&& (lowMask w a ^^^ lowMask w b) = 0 := by
  apply BitVec.eq_of_getLsbD_eq
  intro n hn
  rw [getLsbD_expansion hv hb, Nat.testBit_two_pow]
  by_cases hna : n < a
  · have hnb : n < b := by omega
    simp [hna, hnb]
  · by_cases hnb : n < b
    · have hne : ¬ b - a = n - a := by omega
      simp [hna, hne]
    · simp [hna, hnb]

theorem expansions_perm {a b : ℕ} (hab : a ≤ b) :
    ((List.range (2 ^ a)).flatMap fun v =>
      (List.range (2 ^ (b - a))).map fun i => i * 2 ^ a + v).Perm (List.range (2 ^ b)) := by
  have hpow : 2 ^ b = 2 ^ (b - a) * 2 ^ a := by rw [← Nat.pow_add, Nat.sub_add_cancel hab]
  refine perm_range_of_nodup ?_ (fun x hx => ?_) ?_
  · rw [List.nodup_flatMap]
    refine ⟨fun v _ => List.Nodup.map_on (fun i _ j _ heq => ?_) List.nodup_range, ?_⟩
    · exact Nat.eq_of_mul_eq_mul_right (Nat.two_pow_pos a) (Nat.add_right_cancel heq)
    · refine List.nodup_range.imp_of_mem fun {v v'} hv hv' hne x hx hx' => ?_
      obtain ⟨i, -, rfl⟩ := List.mem_map.mp hx
      obtain ⟨j, -, heq⟩ := List.mem_map.mp hx'
      have hmod : (j * 2 ^ a + v') % 2 ^ a = (i * 2 ^ a + v) % 2 ^ a := by rw [heq]
      rw [Nat.mul_add_mod_self_right, Nat.mul_add_mod_self_right,
        Nat.mod_eq_of_lt (List.mem_range.mp hv), Nat.mod_eq_of_lt (List.mem_range.mp hv')] at hmod
      exact hne hmod.symm
  · obtain ⟨v, hv, hx⟩ := List.mem_flatMap.mp hx
    obtain ⟨i, hi, rfl⟩ := List.mem_map.mp hx
    exact expansion_lt hab (List.mem_range.mp hv) (List.mem_range.mp hi)
  · simp [List.length_flatMap, hpow, Nat.mul_comm]

end BitReversal

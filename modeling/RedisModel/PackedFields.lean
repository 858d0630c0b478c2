/-
Fields of a few bits, packed into bytes.

Field `i` of width `w` takes the bits from `i * w` on, starting with the least significant bit of
the first byte.  With at most eight bits a field lies in two neighbouring bytes, which are both
read, and both written.

* `getField`, `setField` — the accesses;
* `bitAt` — the bytes as a string of bits;
* `getField_setField_self`, `getField_setField_ne` — what is read after a field was written.
-/
import RedisModel.ByteBuffer

namespace PackedFields

/-- Field `i` of the bytes from `base` on. -/
def getField (w base : ℕ) (m : Bytes) (i : ℕ) : Option ℕ := do
  let b0 ← m[base + i * w / 8]?
  let b1 ← m[base + i * w / 8 + 1]?
  some ((b0.toNat >>> (i * w % 8) ||| b1.toNat <<< (8 - i * w % 8)) &&& (2 ^ w - 1))

/-- The first of the two bytes that a field is written to. -/
def setLow (w fb v : ℕ) (b : UInt8) : UInt8 :=
  (b &&& ~~~ (UInt8.ofNat ((2 ^ w - 1) <<< fb))) ||| UInt8.ofNat (v <<< fb)

/-- The second one. -/
def setHigh (w fb v : ℕ) (b : UInt8) : UInt8 :=
  (b &&& ~~~ (UInt8.ofNat ((2 ^ w - 1) >>> (8 - fb)))) ||| UInt8.ofNat (v >>> (8 - fb))

/-- Field `i` of the bytes from `base` on is set to `v`. -/
def setField (w base : ℕ) (m : Bytes) (i v : ℕ) : Option Bytes := do
  let b0 ← m[base + i * w / 8]?
  let m := m.set (base + i * w / 8) (setLow w (i * w % 8) v b0)
  let b1 ← m[base + i * w / 8 + 1]?
  some (m.set (base + i * w / 8 + 1) (setHigh w (i * w % 8) v b1))

/-! ### Bits -/

/-- Bit `k` of the bytes from `base` on. -/
def bitAt (base : ℕ) (m : Bytes) (k : ℕ) : Bool :=
  (m[base + k / 8]?).any fun b => b.toBitVec.getLsbD (k % 8)

theorem bitAt_eq {base : ℕ} {m : Bytes} {q : ℕ} {b : UInt8} (hb : m[base + q]? = some b) {r : ℕ}
    (hr : r < 8) : bitAt base m (8 * q + r) = b.toBitVec.getLsbD r := by
  have hq : (8 * q + r) / 8 = q := by omega
  have hr' : (8 * q + r) % 8 = r := by omega
  rw [bitAt, hq, hr', hb, Option.any_some]

theorem getElem?_eq_of_bitAt {base : ℕ} {m m' : Bytes} (hlen : m'.length = m.length) {q : ℕ}
    (hbits : ∀ r < 8, bitAt base m' (8 * q + r) = bitAt base m (8 * q + r)) :
    m'[base + q]? = m[base + q]? := by
  by_cases hq : base + q < m.length
  · have hq' : base + q < m'.length := by omega
    have hm := List.getElem?_eq_getElem hq
    have hm' := List.getElem?_eq_getElem hq'
    rw [hm, hm']
    congr 1
    refine UInt8.toBitVec_inj.mp (BitVec.eq_of_getLsbD_eq fun r hr => ?_)
    rw [← bitAt_eq hm hr, ← bitAt_eq hm' hr]
    exact hbits r hr
  · rw [List.getElem?_eq_none (by omega), List.getElem?_eq_none (by omega)]

theorem testBit_toNat (b : UInt8) (k : ℕ) : b.toNat.testBit k = b.toBitVec.getLsbD k := by
  rw [← UInt8.toNat_toBitVec, BitVec.testBit_toNat]

theorem getLsbD_of_ge (b : UInt8) {k : ℕ} (hk : 8 ≤ k) : b.toBitVec.getLsbD k = false :=
  BitVec.getLsbD_of_ge _ _ hk

theorem testBit_getField {w base : ℕ} (hw : w ≤ 8) {m : Bytes} {i v : ℕ}
    (hget : getField w base m i = some v) (k : ℕ) :
    v.testBit k = (decide (k < w) && bitAt base m (i * w + k)) := by
  rw [getField] at hget
  generalize i * w = x at hget ⊢
  obtain ⟨b0, h0, hget⟩ := Option.bind_eq_some_iff.mp hget
  obtain ⟨b1, h1, hget⟩ := Option.bind_eq_some_iff.mp hget
  obtain rfl := Option.some_inj.mp hget
  rw [Nat.testBit_and, Nat.testBit_or, Nat.testBit_shiftRight, Nat.testBit_shiftLeft,
    Nat.testBit_two_pow_sub_one, testBit_toNat, testBit_toNat, Bool.and_comm]
  by_cases hk : k < w
  · rw [decide_eq_true hk, Bool.true_and, Bool.true_and]
    by_cases hlow : x % 8 + k < 8
    · have hx : x + k = 8 * (x / 8) + (x % 8 + k) := by omega
      rw [hx, bitAt_eq h0 hlow, decide_eq_false (by omega), Bool.false_and, Bool.or_false]
    · have hx : x + k = 8 * (x / 8 + 1) + (k - (8 - x % 8)) := by omega
      rw [hx, bitAt_eq (Nat.add_assoc .. ▸ h1) (by omega), decide_eq_true (by omega),
        Bool.true_and, getLsbD_of_ge b0 (by omega), Bool.false_or]
  · rw [decide_eq_false hk, Bool.false_and, Bool.false_and]

theorem getLsbD_setLow {w fb v : ℕ} (hv : v < 2 ^ w) (b : UInt8) {r : ℕ} (hr : r < 8) :
    (setLow w fb v b).toBitVec.getLsbD r =
      if fb ≤ r ∧ r < fb + w then v.testBit (r - fb) else b.toBitVec.getLsbD r := by
  rw [setLow]
  simp only [UInt8.toBitVec_or, UInt8.toBitVec_and, UInt8.toBitVec_not, UInt8.toBitVec_ofNat',
    BitVec.getLsbD_or, BitVec.getLsbD_and, BitVec.getLsbD_not, BitVec.getLsbD_ofNat,
    Nat.testBit_shiftLeft, Nat.testBit_two_pow_sub_one, hr, decide_true, Bool.true_and]
  by_cases hfb : fb ≤ r
  · by_cases hw : r - fb < w
    · have hin : r < fb + w := by omega
      simp [hfb, hw, hin]
    · have hout : ¬ r < fb + w := by omega
      have hzero : v.testBit (r - fb) = false :=
        Nat.testBit_lt_two_pow (hv.trans_le (Nat.pow_le_pow_right (by omega) (by omega)))
      simp [hfb, hw, hout, hzero]
  · simp [hfb]

theorem getLsbD_setHigh {w fb v : ℕ} (hv : v < 2 ^ w) (b : UInt8) {r : ℕ} (hr : r < 8) :
    (setHigh w fb v b).toBitVec.getLsbD r =
      if 8 - fb + r < w then v.testBit (8 - fb + r) else b.toBitVec.getLsbD r := by
  rw [setHigh]
  simp only [UInt8.toBitVec_or, UInt8.toBitVec_and, UInt8.toBitVec_not, UInt8.toBitVec_ofNat',
    BitVec.getLsbD_or, BitVec.getLsbD_and, BitVec.getLsbD_not, BitVec.getLsbD_ofNat,
    Nat.testBit_shiftRight, Nat.testBit_two_pow_sub_one, hr, decide_true, Bool.true_and]
  by_cases hw : 8 - fb + r < w
  · simp [hw]
  · have hzero : v.testBit (8 - fb + r) = false :=
      Nat.testBit_lt_two_pow (hv.trans_le (Nat.pow_le_pow_right (by omega) (by omega)))
    simp [hw, hzero]

/-! ### What a write changes -/

theorem setField_spec {w base : ℕ} (hw : w ≤ 8) {m : Bytes} {i v : ℕ} (hv : v < 2 ^ w)
    (hin : base + i * w / 8 + 1 < m.length) :
    ∃ m', setField w base m i v = some m' ∧ m'.length = m.length ∧ m'.take base = m.take base ∧
      ∀ k, bitAt base m' k =
        if i * w ≤ k ∧ k < i * w + w then v.testBit (k - i * w) else bitAt base m k := by
  rw [setField]
  generalize i * w = x at hin ⊢
  have h0 := List.getElem?_eq_getElem (show base + x / 8 < m.length by omega)
  have h1 := List.getElem?_eq_getElem hin
  generalize m[base + x / 8] = b0 at h0
  generalize m[base + x / 8 + 1] = b1 at h1
  set m₁ := m.set (base + x / 8) (setLow w (x % 8) v b0) with hm₁
  have h1' : m₁[base + x / 8 + 1]? = some b1 := by
    rw [hm₁, List.getElem?_set_ne (by omega), h1]
  refine ⟨m₁.set (base + x / 8 + 1) (setHigh w (x % 8) v b1), ?_, ?_, ?_, fun k => ?_⟩
  · rw [h0]
    dsimp only [Option.bind_eq_bind, Option.bind_some]
    rw [← hm₁, h1']
    rfl
  · rw [List.length_set, hm₁, List.length_set]
  · rw [List.take_set_of_le (by omega), hm₁, List.take_set_of_le (by omega)]
  · rw [bitAt]
    by_cases hlow : k / 8 = x / 8
    · rw [hlow, List.getElem?_set_ne (by omega), hm₁, List.getElem?_set_self (by omega),
        Option.any_some, getLsbD_setLow hv b0 (Nat.mod_lt _ (by omega))]
      have hk : k = 8 * (x / 8) + k % 8 := by omega
      have hbit : bitAt base m k = b0.toBitVec.getLsbD (k % 8) := by
        rw [hk, bitAt_eq h0 (Nat.mod_lt _ (by omega)), ← hk]
      by_cases hfield : x ≤ k ∧ k < x + w
      · rw [if_pos hfield, if_pos (by omega)]
        congr 1
        omega
      · rw [if_neg hfield, if_neg (by omega), hbit]
    · by_cases hhigh : k / 8 = x / 8 + 1
      · rw [hhigh, ← Nat.add_assoc, List.getElem?_set_self (by rw [hm₁, List.length_set]; omega),
          Option.any_some, getLsbD_setHigh hv b1 (Nat.mod_lt _ (by omega))]
        have hk : k = 8 * (x / 8 + 1) + k % 8 := by omega
        have hbit : bitAt base m k = b1.toBitVec.getLsbD (k % 8) := by
          rw [hk, bitAt_eq (Nat.add_assoc .. ▸ h1) (Nat.mod_lt _ (by omega)), ← hk]
        by_cases hfield : x ≤ k ∧ k < x + w
        · rw [if_pos hfield, if_pos (by omega)]
          congr 1
          omega
        · rw [if_neg hfield, if_neg (by omega), hbit]
      · rw [List.getElem?_set_ne (by omega), hm₁, List.getElem?_set_ne (by omega), if_neg (by omega),
          bitAt]

theorem getField_isSome {w base : ℕ} {m : Bytes} {i : ℕ}
    (hin : base + i * w / 8 + 1 < m.length) : ∃ v, getField w base m i = some v := by
  rw [getField, List.getElem?_eq_getElem (show base + i * w / 8 < m.length by omega),
    List.getElem?_eq_getElem hin]
  exact ⟨_, rfl⟩

theorem getField_congr {w base : ℕ} (hw : w ≤ 8) {m m' : Bytes} (hlen : m'.length = m.length)
    {i : ℕ} (hbits : ∀ k < w, bitAt base m' (i * w + k) = bitAt base m (i * w + k)) :
    getField w base m' i = getField w base m i := by
  by_cases hin : base + i * w / 8 + 1 < m.length
  · obtain ⟨v, hv⟩ := getField_isSome hin
    obtain ⟨v', hv'⟩ := getField_isSome (show base + i * w / 8 + 1 < m'.length by omega)
    rw [hv, hv']
    congr 1
    refine Nat.eq_of_testBit_eq fun k => ?_
    rw [testBit_getField hw hv, testBit_getField hw hv']
    by_cases hk : k < w
    · rw [hbits k hk]
    · rw [decide_eq_false hk, Bool.false_and, Bool.false_and]
  · have hnone : ∀ n : Bytes, n.length = m.length → getField w base n i = none := fun n hn => by
      rw [getField, List.getElem?_eq_none (show n.length ≤ base + i * w / 8 + 1 by omega)]
      cases n[base + i * w / 8]? <;> rfl
    rw [hnone m rfl, hnone m' hlen]

theorem getField_setField_self {w base : ℕ} (hw : w ≤ 8) {m m' : Bytes} {i v : ℕ}
    (hv : v < 2 ^ w) (hin : base + i * w / 8 + 1 < m.length)
    (hset : setField w base m i v = some m') : getField w base m' i = some v := by
  obtain ⟨n, hn, hlen, -, hbits⟩ := setField_spec hw hv hin
  obtain rfl := Option.some_inj.mp (hset.symm.trans hn)
  obtain ⟨u, hu⟩ := getField_isSome (show base + i * w / 8 + 1 < m'.length by omega)
  rw [hu]
  congr 1
  refine Nat.eq_of_testBit_eq fun k => ?_
  rw [testBit_getField hw hu, hbits]
  by_cases hk : k < w
  · rw [if_pos ⟨Nat.le_add_right _ _, Nat.add_lt_add_left hk _⟩, decide_eq_true hk, Bool.true_and,
      Nat.add_sub_cancel_left]
  · rw [decide_eq_false hk, Bool.false_and]
    exact (Nat.testBit_lt_two_pow (hv.trans_le (Nat.pow_le_pow_right (by omega) (by omega)))).symm

theorem getField_setField_ne {w base : ℕ} (hw : w ≤ 8) {m m' : Bytes} {i j v : ℕ}
    (hv : v < 2 ^ w) (hin : base + i * w / 8 + 1 < m.length) (hne : j ≠ i)
    (hset : setField w base m i v = some m') : getField w base m' j = getField w base m j := by
  obtain ⟨n, hn, hlen, -, hbits⟩ := setField_spec hw hv hin
  obtain rfl := Option.some_inj.mp (hset.symm.trans hn)
  refine getField_congr hw hlen fun k hk => ?_
  rw [hbits, if_neg fun hfield => ?_]
  rcases Nat.lt_or_gt_of_ne hne with hlt | hgt
  · have hstep := Nat.mul_le_mul_right w (Nat.succ_le_of_lt hlt)
    rw [Nat.succ_mul] at hstep
    omega
  · have hstep := Nat.mul_le_mul_right w (Nat.succ_le_of_lt hgt)
    rw [Nat.succ_mul] at hstep
    omega

end PackedFields

/-
Integers as decimal strings, in the machine's words (`util.c`).

`StringNumber` follows `ll2string` and `string2ll` on unbounded numbers.  Here
are the same functions on `unsigned long long` and `long long`, where a product
or a sum could wrap and a negation could change nothing.

* `string2llWord_toInt` — nothing wraps: the 64-bit `string2ll` is the one on
  unbounded numbers, on every string;
* `ll2stringWord_eq` — a buffer of 21 bytes holds every printed `long long`;
* `isDecimal_iff` — the printed form is the canonical decimal form;
* `string2ll_exact` — `string2ll` accepts the canonical form of a `long long`
  and no other string.
-/
import RedisModel.StringNumber

namespace StringNumber

/-! ### `string2ll` on 64-bit words -/

/-- The digit loop of `string2ll`, with `v` an `unsigned long long`. -/
def string2llDigitsWord : Bytes → UInt64 → Option UInt64
  | [], v => some v
  | c :: p, v =>
    if 48 ≤ c ∧ c ≤ 57 then
      if v > 18446744073709551615 / 10 then none
      else if v * 10 > 18446744073709551615 - (c.toUInt64 - 48) then none
      else string2llDigitsWord p (v * 10 + (c.toUInt64 - 48))
    else none

/-- The part of `string2ll` after the sign; `slen` is the length of the whole
string. -/
def string2llMagnitudeWord (slen : ℕ) : Bytes → Option UInt64
  | [] => none
  | c :: p =>
    if 49 ≤ c ∧ c ≤ 57 then string2llDigitsWord p (c.toUInt64 - 48)
    else if c = 48 ∧ slen = 1 then some 0
    else none

/-- `string2ll`, storing its result in a `long long`. -/
def string2llWord (s : Bytes) : Option Int64 :=
  match s with
  | [] => none
  | c :: p =>
    if s.length = 1 ∧ c = 48 then some 0
    else if c = 45 then do
      let v ← string2llMagnitudeWord s.length p
      if v > 9223372036854775808 then none else some (-v).toInt64
    else do
      let v ← string2llMagnitudeWord s.length (c :: p)
      if v > 9223372036854775807 then none else some v.toInt64

/-- The `do … while(v)` loop of `ll2string` on an `unsigned long long`. -/
def ll2stringDigitsWord : ℕ → UInt64 → Bytes
  | 0, _ => []
  | room + 1, v =>
    if v / 10 = 0 then [48 + (v % 10).toUInt8]
    else ll2stringDigitsWord room (v / 10) ++ [48 + (v % 10).toUInt8]

/-- `ll2string`: the bytes written before the terminating NUL into a
destination of `len` bytes. -/
def ll2stringWord (len : ℕ) (value : Int64) : Bytes :=
  if len = 0 then []
  else
    let v : UInt64 := if value < 0 then (-value).toUInt64 else value.toUInt64
    let buf := ll2stringDigitsWord 31 v
    let p := if value < 0 then 45 :: buf else buf
    let l := if p.length + 1 > len then len - 1 else p.length
    p.take l

/-! ### No word wraps -/

theorem digit_toNat {c : UInt8} (hc : IsDigit c) :
    (c.toUInt64 - 48).toNat = c.toNat - 48 := by
  rw [isDigit_iff] at hc
  have hle : (48 : UInt64) ≤ c.toUInt64 := by
    rw [UInt64.le_iff_toNat_le, UInt8.toNat_toUInt64]
    exact hc.1
  rw [UInt64.toNat_sub_of_le _ _ hle, UInt8.toNat_toUInt64]
  rfl

/-- The two guards of the digit loop leave no room for a wrap, so that the
loop on words is the loop on unbounded numbers. -/
theorem string2llDigitsWord_toNat (p : Bytes) (v : UInt64) :
    (string2llDigitsWord p v).map UInt64.toNat = string2llDigits p v.toNat := by
  induction p generalizing v with
  | nil => rfl
  | cons c p ih =>
    rw [string2llDigitsWord, string2llDigits]
    by_cases hc : 48 ≤ c ∧ c ≤ 57
    · rw [if_pos hc, if_pos hc]
      have hd := digit_toNat hc
      have hc' := (isDigit_iff c).mp hc
      have hfirst : v > 18446744073709551615 / 10 ↔ v.toNat > ullongMax / 10 := by
        rw [gt_iff_lt, UInt64.lt_iff_toNat_lt]
        rfl
      by_cases h1 : v.toNat > ullongMax / 10
      · rw [if_pos h1, if_pos (hfirst.mpr h1)]
        rfl
      rw [if_neg h1, if_neg (mt hfirst.mp h1)]
      have hmul : (v * 10).toNat = v.toNat * 10 := by
        rw [UInt64.toNat_mul]
        show v.toNat * 10 % 18446744073709551616 = v.toNat * 10
        unfold ullongMax at h1
        omega
      have hroom : (18446744073709551615 - (c.toUInt64 - 48)).toNat
          = ullongMax - (c.toNat - 48) := by
        rw [UInt64.toNat_sub_of_le _ _ ?_, hd]
        · rfl
        · rw [UInt64.le_iff_toNat_le, hd]
          show c.toNat - 48 ≤ 18446744073709551615
          omega
      have hsecond : v * 10 > 18446744073709551615 - (c.toUInt64 - 48) ↔
          v.toNat * 10 > ullongMax - (c.toNat - 48) := by
        rw [gt_iff_lt, UInt64.lt_iff_toNat_lt, hroom, hmul]
      by_cases h2 : v.toNat * 10 > ullongMax - (c.toNat - 48)
      · rw [if_pos h2, if_pos (hsecond.mpr h2)]
        rfl
      rw [if_neg h2, if_neg (mt hsecond.mp h2), ih]
      have hadd : (v * 10 + (c.toUInt64 - 48)).toNat = v.toNat * 10 + (c.toNat - 48) := by
        rw [UInt64.toNat_add, hmul, hd]
        show (v.toNat * 10 + (c.toNat - 48)) % 18446744073709551616 = _
        unfold ullongMax at h2
        omega
      rw [hadd]
    · rw [if_neg hc, if_neg hc]
      rfl

/-- The magnitude on words.  The branch for a lone `0` is never taken here:
such a string has already been accepted. -/
theorem string2llMagnitudeWord_toNat (slen : ℕ) (p : Bytes)
    (h : ¬(slen = 1 ∧ p.head? = some 48)) :
    (string2llMagnitudeWord slen p).map UInt64.toNat = string2llMagnitude p := by
  rcases p with _ | ⟨c, p⟩
  · rfl
  rw [string2llMagnitudeWord, string2llMagnitude]
  by_cases hc : 49 ≤ c ∧ c ≤ 57
  · have hd : IsDigit c := ⟨UInt8.le_trans (by decide) hc.1, hc.2⟩
    rw [if_pos hc, if_pos hc, string2llDigitsWord_toNat, digit_toNat hd]
  · rw [if_neg hc, if_neg hc, if_neg]
    · rfl
    · rintro ⟨rfl, hslen⟩
      exact h ⟨hslen, rfl⟩

theorem toInt_toInt64 (v : UInt64) : v.toInt64.toInt = (v.toNat : ℤ).bmod 18446744073709551616 := by
  rw [← Int64.toInt_toBitVec, UInt64.toBitVec_toInt64, BitVec.toInt_eq_toNat_bmod]
  rfl

theorem toInt_of_le {v : UInt64} (h : v.toNat ≤ llongMax) : v.toInt64.toInt = v.toNat := by
  rw [toInt_toInt64, Int.bmod_def]
  unfold llongMax at h
  omega

theorem toInt_neg_of_le {v : UInt64} (h : v.toNat ≤ llongMax + 1) :
    (-v).toInt64.toInt = -(v.toNat : ℤ) := by
  rw [toInt_toInt64, UInt64.toNat_neg, Int.bmod_def]
  unfold llongMax at h
  simp only [UInt64.size]
  omega

theorem string2llWord_toInt (s : Bytes) :
    (string2llWord s).map Int64.toInt = string2ll s := by
  rcases s with _ | ⟨c, p⟩
  · rfl
  simp only [string2llWord, string2ll]
  have hone : (c :: p).length = 1 ↔ p = [] := by simp
  by_cases hz : p = [] ∧ c = 48
  · rw [if_pos hz, if_pos ⟨hone.mpr hz.1, hz.2⟩]
    rfl
  rw [if_neg hz, if_neg (by rw [hone]; exact hz)]
  by_cases hminus : c = 45
  · rw [if_pos hminus, if_pos hminus]
    have hmag := string2llMagnitudeWord_toNat (c :: p).length p (by
      rintro ⟨h1, h2⟩
      rw [hone.mp h1] at h2
      simp at h2)
    rw [← hmag]
    rcases string2llMagnitudeWord (c :: p).length p with _ | v
    · rfl
    · have hiff : v > 9223372036854775808 ↔ v.toNat > llongMax + 1 := by
        rw [gt_iff_lt, UInt64.lt_iff_toNat_lt]
        rfl
      simp only [Option.bind_eq_bind, Option.bind_some, Option.map_some]
      by_cases hv : v.toNat > llongMax + 1
      · rw [if_pos hv, if_pos (hiff.mpr hv)]
        rfl
      · rw [if_neg hv, if_neg (mt hiff.mp hv), Option.map_some, toInt_neg_of_le (by omega)]
  · rw [if_neg hminus, if_neg hminus]
    have hmag := string2llMagnitudeWord_toNat (c :: p).length (c :: p) (by
      rintro ⟨h1, h2⟩
      exact hz ⟨hone.mp h1, by simpa using h2⟩)
    rw [← hmag]
    rcases string2llMagnitudeWord (c :: p).length (c :: p) with _ | v
    · rfl
    · have hiff : v > 9223372036854775807 ↔ v.toNat > llongMax := by
        rw [gt_iff_lt, UInt64.lt_iff_toNat_lt]
        rfl
      simp only [Option.bind_eq_bind, Option.bind_some, Option.map_some]
      by_cases hv : v.toNat > llongMax
      · rw [if_pos hv, if_pos (hiff.mpr hv)]
        rfl
      · rw [if_neg hv, if_neg (mt hiff.mp hv), Option.map_some, toInt_of_le (by omega)]

/-! ### The printed form -/

theorem ll2stringDigitsWord_eq (room : ℕ) (v : UInt64) :
    ll2stringDigitsWord room v = ll2stringDigits room v.toNat := by
  induction room generalizing v with
  | zero => rfl
  | succ room ih =>
    have hdiv : (v / 10).toNat = v.toNat / 10 := UInt64.toNat_div v 10
    have hzero : v / 10 = 0 ↔ v.toNat / 10 = 0 := by
      rw [← UInt64.toNat_inj, hdiv]
      rfl
    have hchar : 48 + (v % 10).toUInt8 = digitChar (v.toNat % 10) := by
      rw [← UInt8.toNat_inj, digitChar_toNat (by omega), UInt8.toNat_add,
        UInt64.toNat_toUInt8, UInt64.toNat_mod]
      show (48 + v.toNat % 10 % 256) % 256 = 48 + v.toNat % 10
      omega
    rw [ll2stringDigitsWord, ll2stringDigits, hchar, ih, hdiv]
    simp only [hzero]

theorem ll2stringDigits_length {room k v : ℕ} (hv : v < 10 ^ (k + 1)) :
    (ll2stringDigits room v).length ≤ k + 1 := by
  induction room generalizing k v with
  | zero => exact Nat.zero_le _
  | succ room ih =>
    rw [ll2stringDigits]
    split
    · exact Nat.le_add_left 1 k
    · rename_i h
      rcases k with _ | k
      · simp only [Nat.zero_add, Nat.pow_one] at hv
        omega
      · have hlt : v / 10 < 10 ^ (k + 1) := by
          rw [Nat.div_lt_iff_lt_mul (by omega), ← Nat.pow_succ]
          exact hv
        have hlen := ih hlt
        rw [List.length_append, List.length_singleton]
        omega

theorem ll2string_length {v : ℤ} (hmin : llongMin ≤ v) (hmax : v ≤ llongMax) :
    (ll2string v).length ≤ 20 := by
  unfold llongMin llongMax at *
  have hlen : (ll2stringDigits 31 v.natAbs).length ≤ 19 :=
    ll2stringDigits_length (k := 18) (by omega)
  rw [ll2string]
  split
  · rw [List.length_cons]
    omega
  · omega

theorem int64_range (v : Int64) : llongMin ≤ v.toInt ∧ v.toInt ≤ llongMax := by
  have hlow := v.le_toInt
  have hhigh := v.toInt_lt
  unfold llongMin llongMax
  omega

/-- The magnitude that `ll2string` prints.  Negating `LLONG_MIN` gives back
the same word, which read as unsigned is its magnitude. -/
theorem magnitude_toNat (v : Int64) :
    (if v < 0 then (-v).toUInt64 else v.toUInt64).toNat = v.toInt.natAbs := by
  have hneg : v < 0 ↔ v.toInt < 0 := Int64.lt_iff_toInt_lt
  have hval := toInt_toInt64 v.toUInt64
  rw [Int64.toInt64_toUInt64, Int.bmod_def] at hval
  have hlt := v.toUInt64.toNat_lt
  by_cases hv : v < 0
  · rw [if_pos hv, Int64.toUInt64_neg, UInt64.toNat_neg]
    rw [hneg] at hv
    simp only [UInt64.size]
    omega
  · rw [if_neg hv]
    rw [hneg] at hv
    omega

theorem ll2stringWord_eq {len : ℕ} (hlen : 21 ≤ len) (v : Int64) :
    ll2stringWord len v = ll2string v.toInt := by
  have hlength := ll2string_length (int64_range v).1 (int64_range v).2
  have hneg : v < 0 ↔ v.toInt < 0 := Int64.lt_iff_toInt_lt
  have hprint : (if v < 0 then
        45 :: ll2stringDigitsWord 31 (if v < 0 then (-v).toUInt64 else v.toUInt64)
      else ll2stringDigitsWord 31 (if v < 0 then (-v).toUInt64 else v.toUInt64))
      = ll2string v.toInt := by
    rw [ll2stringDigitsWord_eq, magnitude_toNat, ll2string]
    simp only [hneg]
  rw [ll2stringWord, if_neg (by omega)]
  simp only [hprint]
  rw [if_neg (by omega), List.take_length]

/-! ### Canonical decimal strings -/

/-- The canonical decimal form of a number: an optional minus sign and the
digits of the magnitude, without a leading zero, a plus sign, a space or a
negated zero. -/
inductive IsDecimal : Bytes → ℤ → Prop
  | zero : IsDecimal [48] 0
  | pos {ds : Bytes} (hne : ds ≠ []) (hdigits : ∀ c ∈ ds, IsDigit c)
      (hlead : NoLeadingZero ds) : IsDecimal ds (digitsVal ds 0)
  | neg {ds : Bytes} (hne : ds ≠ []) (hdigits : ∀ c ∈ ds, IsDigit c)
      (hlead : NoLeadingZero ds) : IsDecimal (45 :: ds) (-(digitsVal ds 0))

theorem ll2stringDigits_digitsVal {ds : Bytes} (hne : ds ≠ [])
    (hdigits : ∀ c ∈ ds, IsDigit c) (hlead : NoLeadingZero ds)
    (hroom : digitsVal ds 0 < 10 ^ 31) : ll2stringDigits 31 (digitsVal ds 0) = ds :=
  digitsVal_injective (ll2stringDigits_isDigit _ _) hdigits
    (ll2stringDigits_noLeadingZero (digitsVal_pos hne hlead) hroom) hlead
    (digitsVal_ll2stringDigits hroom)

theorem isDecimal_iff {s : Bytes} {v : ℤ} (hmin : llongMin ≤ v) (hmax : v ≤ llongMax) :
    IsDecimal s v ↔ s = ll2string v := by
  unfold llongMin llongMax at *
  constructor
  · intro h
    cases h with
    | zero => rfl
    | @pos ds hne hdigits hlead =>
      rw [ll2string, if_neg (by omega), Int.natAbs_natCast,
        ll2stringDigits_digitsVal hne hdigits hlead (by omega)]
    | @neg ds hne hdigits hlead =>
      have hpos := digitsVal_pos hne hlead
      rw [ll2string, if_pos (by omega), Int.natAbs_neg, Int.natAbs_natCast,
        ll2stringDigits_digitsVal hne hdigits hlead (by omega)]
  · rintro rfl
    have hroom : v.natAbs < 10 ^ 31 := by omega
    have hval := digitsVal_ll2stringDigits hroom
    have hdigits := ll2stringDigits_isDigit 31 v.natAbs
    have hne : v ≠ 0 → ll2stringDigits 31 v.natAbs ≠ [] := by
      intro hv hnil
      rw [hnil, digitsVal] at hval
      omega
    rcases lt_trichotomy v 0 with hv | rfl | hv
    · have h := IsDecimal.neg (hne (by omega)) hdigits
        (ll2stringDigits_noLeadingZero (by omega) hroom)
      rw [hval] at h
      rw [ll2string, if_pos hv]
      rwa [show -((v.natAbs : ℕ) : ℤ) = v by omega] at h
    · exact IsDecimal.zero
    · have h := IsDecimal.pos (hne (by omega)) hdigits
        (ll2stringDigits_noLeadingZero (by omega) hroom)
      rw [hval] at h
      rw [ll2string, if_neg (by omega)]
      rwa [show ((v.natAbs : ℕ) : ℤ) = v by omega] at h

/-! ### A bijection -/

theorem string2llWord_eq_some {s : Bytes} {v : Int64} :
    string2llWord s = some v ↔ string2ll s = some v.toInt := by
  rw [← string2llWord_toInt]
  constructor
  · intro h
    rw [h, Option.map_some]
  · intro h
    obtain ⟨w, hw, hwv⟩ := Option.map_eq_some_iff.mp h
    rw [hw, Int64.toInt_inj.mp hwv]

/-- `string2ll` succeeds on the canonical decimal form of a `long long`, which
is what `ll2string` writes into a large enough buffer, and on no other string;
its 64-bit words hold what the same computation gives on unbounded numbers. -/
theorem string2ll_exact (s : Bytes) (v : Int64) (len : ℕ) (hlen : 21 ≤ len) :
    (string2llWord s = some v ↔ s = ll2stringWord len v) ∧
    (s = ll2stringWord len v ↔ IsDecimal s v.toInt) ∧
    (string2llWord s).map Int64.toInt = string2ll s := by
  have hrange := int64_range v
  rw [ll2stringWord_eq hlen]
  refine ⟨?_, (isDecimal_iff hrange.1 hrange.2).symm, string2llWord_toInt s⟩
  rw [string2llWord_eq_some]
  constructor
  · intro h
    exact (ll2string_string2ll h).symm
  · rintro rfl
    exact string2ll_ll2string hrange.1 hrange.2

/-- The smallest `long long`, whose magnitude is not a `long long`. -/
theorem string2ll_exact_llongMin :
    21 ≤ 21 ∧ string2llWord (ll2stringWord 21 (-9223372036854775808))
      = some (-9223372036854775808) :=
  ⟨le_rfl, (string2ll_exact _ _ 21 le_rfl).1.mpr rfl⟩

end StringNumber

/-
Integers as decimal strings (`util.c`).

`ll2string` prints a `long long`; `string2ll` is its strict inverse: it accepts
exactly the printed form of a `long long` and nothing else, so that a string
stored as an integer can be given back byte for byte.

* `ll2string_string2ll` — an accepted string is the printed form of its value;
* `string2ll_range` — an accepted value is a `long long`;
* `string2ll_ll2string` — every `long long` is accepted in its printed form.
-/
import RedisModel.ByteBuffer
import Mathlib.Data.List.Induction

namespace StringNumber

def llongMax : ℕ := 9223372036854775807
def llongMin : ℤ := -9223372036854775808
def ullongMax : ℕ := 18446744073709551615

/-- The character of a decimal digit. -/
def digitChar (d : ℕ) : UInt8 := UInt8.ofNat (48 + d)

/-- The `do … while(v)` loop of `ll2string`, which fills `buf[32]` from the
end; `room` is what is left of the buffer. -/
def ll2stringDigits : ℕ → ℕ → Bytes
  | 0, _ => []
  | room + 1, v =>
    if v / 10 = 0 then [digitChar (v % 10)]
    else ll2stringDigits room (v / 10) ++ [digitChar (v % 10)]

/-- `ll2string`, with a destination large enough for every `long long`. -/
def ll2string (value : ℤ) : Bytes :=
  if value < 0 then 45 :: ll2stringDigits 31 value.natAbs
  else ll2stringDigits 31 value.natAbs

/-- The digit loop of `string2ll`: `v` is the value of the digits read so far.
A character that is not a digit ends the loop before the end of the string,
which rejects the string. -/
def string2llDigits : Bytes → ℕ → Option ℕ
  | [], v => some v
  | c :: p, v =>
    if 48 ≤ c ∧ c ≤ 57 then
      if v > ullongMax / 10 then none
      else if v * 10 > ullongMax - (c.toNat - 48) then none
      else string2llDigits p (v * 10 + (c.toNat - 48))
    else none

/-- The part of `string2ll` after the sign: the magnitude at `p`. -/
def string2llMagnitude : Bytes → Option ℕ
  | [] => none
  | c :: p => if 49 ≤ c ∧ c ≤ 57 then string2llDigits p (c.toNat - 48) else none

def string2ll (s : Bytes) : Option ℤ :=
  match s with
  | [] => none
  | c :: p =>
    if p = [] ∧ c = 48 then some 0
    else if c = 45 then do
      let v ← string2llMagnitude p
      if v > llongMax + 1 then none else some (-(v : ℤ))
    else do
      let v ← string2llMagnitude (c :: p)
      if v > llongMax then none else some (v : ℤ)

/-! ### Digits -/

/-- The value of a string of decimal digits, read after the value `v`. -/
def digitsVal : Bytes → ℕ → ℕ
  | [], v => v
  | c :: p, v => digitsVal p (v * 10 + (c.toNat - 48))

abbrev IsDigit (c : UInt8) : Prop := 48 ≤ c ∧ c ≤ 57

theorem digitsVal_append (a b : Bytes) (v : ℕ) :
    digitsVal (a ++ b) v = digitsVal b (digitsVal a v) := by
  induction a generalizing v with
  | nil => rfl
  | cons c a ih => exact ih _

theorem le_digitsVal (p : Bytes) (v : ℕ) : v ≤ digitsVal p v := by
  induction p generalizing v with
  | nil => exact le_rfl
  | cons c p ih =>
    have h := ih (v * 10 + (c.toNat - 48))
    rw [digitsVal]
    omega

theorem digitChar_toNat {d : ℕ} (h : d < 10) : (digitChar d).toNat = 48 + d := by
  rw [digitChar, UInt8.toNat_ofNat']
  omega

theorem isDigit_iff (c : UInt8) : IsDigit c ↔ 48 ≤ c.toNat ∧ c.toNat ≤ 57 := by
  rw [IsDigit, UInt8.le_iff_toNat_le, UInt8.le_iff_toNat_le]
  rfl

theorem string2llDigits_eq_some {p : Bytes} {v w : ℕ} (hv : v ≤ ullongMax) :
    string2llDigits p v = some w ↔
      (∀ c ∈ p, IsDigit c) ∧ w = digitsVal p v ∧ w ≤ ullongMax := by
  induction p generalizing v with
  | nil =>
    simp only [string2llDigits, digitsVal, Option.some_inj]
    constructor
    · rintro rfl
      exact ⟨by simp, rfl, hv⟩
    · rintro ⟨-, rfl, -⟩
      rfl
  | cons c p ih =>
    rw [string2llDigits]
    by_cases hc : IsDigit c
    · rw [if_pos hc]
      rw [isDigit_iff] at hc
      have hge := le_digitsVal p (v * 10 + (c.toNat - 48))
      by_cases h1 : v > ullongMax / 10
      · rw [if_pos h1]
        refine iff_of_false (by simp) ?_
        rintro ⟨-, rfl, hw⟩
        rw [digitsVal] at hw
        unfold ullongMax at h1 hw
        omega
      rw [if_neg h1]
      by_cases h2 : v * 10 > ullongMax - (c.toNat - 48)
      · rw [if_pos h2]
        refine iff_of_false (by simp) ?_
        rintro ⟨-, rfl, hw⟩
        rw [digitsVal] at hw
        unfold ullongMax at h2 hw
        omega
      rw [if_neg h2, ih (by unfold ullongMax at h2 ⊢; omega)]
      simp only [List.mem_cons, forall_eq_or_imp, digitsVal, isDigit_iff c, hc,
        and_self, true_and]
    · rw [if_neg hc]
      refine iff_of_false (by simp) ?_
      rintro ⟨hp, -, -⟩
      exact hc (hp c (by simp))

/-- A digit string without a leading zero. -/
def NoLeadingZero : Bytes → Prop
  | [] => True
  | c :: _ => 49 ≤ c.toNat

theorem digitsVal_pos {a : Bytes} (ha : a ≠ []) (h : NoLeadingZero a) :
    0 < digitsVal a 0 := by
  rcases a with _ | ⟨c, p⟩
  · exact absurd rfl ha
  · have hc : 49 ≤ c.toNat := h
    exact lt_of_lt_of_le (by omega) (le_digitsVal p _)

theorem NoLeadingZero.of_append {a b : Bytes} (h : NoLeadingZero (a ++ b)) :
    NoLeadingZero a := by
  rcases a with _ | ⟨c, p⟩
  · trivial
  · exact h

/-- Digit strings without leading zeros are determined by their value.  The
induction is on the last digit, which is the value modulo 10. -/
theorem digitsVal_injective : ∀ {a b : Bytes}, (∀ c ∈ a, IsDigit c) →
    (∀ c ∈ b, IsDigit c) → NoLeadingZero a → NoLeadingZero b →
    digitsVal a 0 = digitsVal b 0 → a = b := by
  intro a
  induction a using List.reverseRecOn with
  | nil =>
    intro b _ _ _ hb hval
    by_contra hne
    have := digitsVal_pos (Ne.symm hne) hb
    simp only [digitsVal] at hval
    omega
  | append_singleton a c ih =>
    intro b hda hdb ha hb hval
    rcases List.eq_nil_or_concat b with rfl | ⟨b, d, rfl⟩
    · have := digitsVal_pos (by simp) ha
      simp only [digitsVal] at hval
      omega
    · rw [List.concat_eq_append] at *
      have hc := (isDigit_iff c).mp (hda c (by simp))
      have hd := (isDigit_iff d).mp (hdb d (by simp))
      simp only [digitsVal_append, digitsVal] at hval
      have hcd : c = d := by
        rw [← UInt8.toNat_inj]
        omega
      have hab : a = b := by
        refine ih (fun e he => hda e (by simp [he])) (fun e he => hdb e (by simp [he]))
          ha.of_append hb.of_append ?_
        omega
      rw [hab, hcd]

theorem ll2stringDigits_isDigit (room v : ℕ) :
    ∀ c ∈ ll2stringDigits room v, IsDigit c := by
  induction room generalizing v with
  | zero => simp [ll2stringDigits]
  | succ room ih =>
    have hd : IsDigit (digitChar (v % 10)) := by
      rw [isDigit_iff, digitChar_toNat (by omega)]
      omega
    intro c hc
    rw [ll2stringDigits] at hc
    split at hc
    · obtain rfl : c = digitChar (v % 10) := by simpa using hc
      exact hd
    · rcases List.mem_append.mp hc with h | h
      · exact ih _ c h
      · obtain rfl : c = digitChar (v % 10) := by simpa using h
        exact hd

theorem digitsVal_ll2stringDigits {room : ℕ} : ∀ {v : ℕ}, v < 10 ^ room →
    digitsVal (ll2stringDigits room v) 0 = v := by
  induction room with
  | zero =>
    intro v hv
    simp only [Nat.pow_zero, Nat.lt_one_iff] at hv
    simp [ll2stringDigits, digitsVal, hv]
  | succ room ih =>
    intro v hv
    have hd : (digitChar (v % 10)).toNat - 48 = v % 10 := by
      rw [digitChar_toNat (by omega)]
      omega
    rw [ll2stringDigits]
    split
    · rw [digitsVal, digitsVal, hd]
      omega
    · have hlt : v / 10 < 10 ^ room := by
        rw [Nat.div_lt_iff_lt_mul (by omega), ← Nat.pow_succ]
        exact hv
      rw [digitsVal_append, ih hlt, digitsVal, digitsVal, hd]
      omega

theorem ll2stringDigits_noLeadingZero {room : ℕ} : ∀ {v : ℕ}, 0 < v →
    v < 10 ^ room → NoLeadingZero (ll2stringDigits room v) := by
  induction room with
  | zero =>
    intro v _ _
    trivial
  | succ room ih =>
    intro v h0 hv
    rw [ll2stringDigits]
    split
    · show 49 ≤ (digitChar (v % 10)).toNat
      rw [digitChar_toNat (by omega)]
      omega
    · have hlt : v / 10 < 10 ^ room := by
        rw [Nat.div_lt_iff_lt_mul (by omega), ← Nat.pow_succ]
        exact hv
      have h := ih (v := v / 10) (by omega) hlt
      have hval := digitsVal_ll2stringDigits hlt
      rcases hd : ll2stringDigits room (v / 10) with _ | ⟨c, p⟩
      · rw [hd] at hval
        simp only [digitsVal] at hval
        omega
      · rw [hd] at h
        exact h

/-! ### The magnitude -/

theorem string2llMagnitude_print {s : Bytes} {v : ℕ}
    (h : string2llMagnitude s = some v) :
    0 < v ∧ v ≤ ullongMax ∧ ll2stringDigits 31 v = s := by
  rcases s with _ | ⟨c, p⟩
  · simp [string2llMagnitude] at h
  rw [string2llMagnitude] at h
  split at h
  case isFalse => simp at h
  case isTrue hc =>
    have hcn : 49 ≤ c.toNat ∧ c.toNat ≤ 57 := by
      simpa [UInt8.le_iff_toNat_le] using hc
    have hcd : IsDigit c := (isDigit_iff c).mpr (by omega)
    obtain ⟨hp, hv, hle⟩ :=
      (string2llDigits_eq_some (by unfold ullongMax; omega)).mp h
    have hval : digitsVal (c :: p) 0 = v := by
      rw [hv, digitsVal, Nat.zero_mul, Nat.zero_add]
    have hnz : NoLeadingZero (c :: p) := hcn.1
    have hpos : 0 < v := hval ▸ digitsVal_pos (by simp) hnz
    have hroom : v < 10 ^ 31 := by
      unfold ullongMax at hle
      omega
    refine ⟨hpos, hle, digitsVal_injective (ll2stringDigits_isDigit _ _) ?_
      (ll2stringDigits_noLeadingZero hpos hroom) hnz ?_⟩
    · simpa using ⟨hcd, hp⟩
    · rw [digitsVal_ll2stringDigits hroom, hval]

theorem string2llMagnitude_ll2stringDigits {v : ℕ} (h0 : 0 < v)
    (hv : v ≤ ullongMax) : string2llMagnitude (ll2stringDigits 31 v) = some v := by
  have hroom : v < 10 ^ 31 := by
    unfold ullongMax at hv
    omega
  have hval := digitsVal_ll2stringDigits hroom
  have hnz := ll2stringDigits_noLeadingZero h0 hroom
  have hdig := ll2stringDigits_isDigit 31 v
  rcases hs : ll2stringDigits 31 v with _ | ⟨c, p⟩
  · rw [hs] at hval
    simp only [digitsVal] at hval
    omega
  · rw [hs] at hval hnz hdig
    have hc := (isDigit_iff c).mp (hdig c (by simp))
    have hc49 : 49 ≤ c.toNat := hnz
    have hcc : 49 ≤ c ∧ c ≤ 57 := by
      rw [UInt8.le_iff_toNat_le, UInt8.le_iff_toNat_le]
      exact ⟨hc49, hc.2⟩
    rw [string2llMagnitude, if_pos hcc,
      string2llDigits_eq_some (by unfold ullongMax; omega)]
    refine ⟨fun d hd => hdig d (by simp [hd]), ?_, hv⟩
    rw [digitsVal, Nat.zero_mul, Nat.zero_add] at hval
    exact hval.symm

/-! ### `string2ll` and `ll2string` -/

theorem string2ll_range {s : Bytes} {v : ℤ} (h : string2ll s = some v) :
    llongMin ≤ v ∧ v ≤ llongMax := by
  rcases s with _ | ⟨c, p⟩
  · simp [string2ll] at h
  simp only [string2ll] at h
  split at h
  · obtain rfl : 0 = v := by simpa using h
    simp [llongMin]
  split at h
  · obtain ⟨w, -, hw⟩ := Option.bind_eq_some_iff.mp h
    split at hw
    · simp at hw
    · obtain rfl : -(w : ℤ) = v := by simpa using hw
      unfold llongMin llongMax at *
      omega
  · obtain ⟨w, -, hw⟩ := Option.bind_eq_some_iff.mp h
    split at hw
    · simp at hw
    · obtain rfl : (w : ℤ) = v := by simpa using hw
      unfold llongMin llongMax at *
      omega

theorem ll2string_string2ll {s : Bytes} {v : ℤ} (h : string2ll s = some v) :
    ll2string v = s := by
  rcases s with _ | ⟨c, p⟩
  · simp [string2ll] at h
  simp only [string2ll] at h
  split at h
  case isTrue hz =>
    obtain rfl : 0 = v := by simpa using h
    obtain ⟨rfl, rfl⟩ := hz
    decide
  case isFalse hz =>
    split at h
    case isTrue hminus =>
      obtain ⟨w, hw, h⟩ := Option.bind_eq_some_iff.mp h
      split at h
      · simp at h
      · obtain rfl : -(w : ℤ) = v := by simpa using h
        obtain ⟨hpos, -, hprint⟩ := string2llMagnitude_print hw
        rw [ll2string, if_pos (by omega), Int.natAbs_neg, Int.natAbs_natCast, hprint,
          hminus]
    case isFalse hplus =>
      obtain ⟨w, hw, h⟩ := Option.bind_eq_some_iff.mp h
      split at h
      · simp at h
      · obtain rfl : (w : ℤ) = v := by simpa using h
        obtain ⟨-, -, hprint⟩ := string2llMagnitude_print hw
        rw [ll2string, if_neg (by omega), Int.natAbs_natCast, hprint]

theorem string2ll_ll2string {v : ℤ} (hmin : llongMin ≤ v) (hmax : v ≤ llongMax) :
    string2ll (ll2string v) = some v := by
  unfold llongMin llongMax at *
  rcases lt_trichotomy v 0 with hv | rfl | hv
  · have hmag := string2llMagnitude_ll2stringDigits (v := v.natAbs) (by omega)
      (by unfold ullongMax; omega)
    rw [ll2string, if_pos hv]
    simp only [string2ll, show ¬(ll2stringDigits 31 v.natAbs = [] ∧ (45 : UInt8) = 48) by
      simp, if_false, if_true, hmag, Option.bind_eq_bind, Option.bind_some]
    rw [if_neg (by unfold llongMax; omega)]
    congr 1
    omega
  · decide
  · have hmag := string2llMagnitude_ll2stringDigits (v := v.natAbs) (by omega)
      (by unfold ullongMax; omega)
    have hroom : v.natAbs < 10 ^ 31 := by omega
    have hnz := ll2stringDigits_noLeadingZero (v := v.natAbs) (by omega) hroom
    have hdig := ll2stringDigits_isDigit 31 v.natAbs
    rw [ll2string, if_neg (by omega)]
    rcases hs : ll2stringDigits 31 v.natAbs with _ | ⟨c, p⟩
    · rw [hs] at hmag
      simp [string2llMagnitude] at hmag
    · rw [hs] at hmag hnz
      have hc : 49 ≤ c.toNat := hnz
      have h48 : c ≠ 48 := by
        rintro rfl
        exact absurd hc (by decide)
      have h45 : c ≠ 45 := by
        rintro rfl
        exact absurd hc (by decide)
      simp only [string2ll, h48, h45, and_false, if_false, hmag, Option.bind_eq_bind,
        Option.bind_some]
      rw [if_neg (by unfold llongMax; omega)]
      congr 1
      omega

end StringNumber

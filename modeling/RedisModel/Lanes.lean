/-
Numbers as lists of lanes.

A word is the list of its lanes of `w` bits, the least significant one first.  Bit operations work
on each lane by itself, and so do additions that do not overflow a lane.

* `pack` — the number with given lanes;
* `pack_bitwise` — bit operations, lane by lane;
* `pack_and_mask` — a mask that keeps every other lane;
* `pack_adjacentSums` — a shifted word added to itself;
* `sum_pairSums` — adding neighbouring lanes keeps their sum.
-/
import Mathlib.Data.Nat.Bitwise
import Mathlib.Data.List.Basic
import Mathlib.Algebra.BigOperators.Group.List.Basic
import Mathlib.Tactic.Ring

namespace Lanes

/-- The number with the lanes `l` of `w` bits. -/
def pack (w : ℕ) : List ℕ → ℕ
  | [] => 0
  | a :: l => a + 2 ^ w * pack w l

/-! ### Bit operations -/

theorem bitwise_add {f : Bool → Bool → Bool} (hf : f false false = false) {n p p' : ℕ}
    (hp : p < 2 ^ n) (hp' : p' < 2 ^ n) (q q' : ℕ) :
    Nat.bitwise f (p + 2 ^ n * q) (p' + 2 ^ n * q')
      = Nat.bitwise f p p' + 2 ^ n * Nat.bitwise f q q' := by
  have hlt : Nat.bitwise f p p' < 2 ^ n := Nat.bitwise_lt_two_pow hp hp'
  refine Nat.eq_of_testBit_eq fun i => ?_
  rw [Nat.testBit_bitwise hf, Nat.add_comm p, Nat.add_comm p', Nat.add_comm (Nat.bitwise f p p'),
    Nat.testBit_two_pow_mul_add _ hp, Nat.testBit_two_pow_mul_add _ hp',
    Nat.testBit_two_pow_mul_add _ hlt, Nat.testBit_bitwise hf, Nat.testBit_bitwise hf]
  split <;> rfl

theorem pack_bitwise {f : Bool → Bool → Bool} (hf : f false false = false) {w : ℕ} {l l' : List ℕ}
    (hlen : l.length = l'.length) (hl : ∀ a ∈ l, a < 2 ^ w) (hl' : ∀ a ∈ l', a < 2 ^ w) :
    Nat.bitwise f (pack w l) (pack w l') = pack w (List.zipWith (Nat.bitwise f) l l') := by
  induction l generalizing l' with
  | nil =>
    obtain rfl := List.length_eq_zero_iff.mp hlen.symm
    rw [pack, Nat.bitwise_zero_left, ite_self]
    rfl
  | cons a l ih =>
    cases l' with
    | nil => exact absurd hlen (Nat.succ_ne_zero _)
    | cons a' l' =>
      rw [pack, pack, bitwise_add hf (hl a List.mem_cons_self) (hl' a' List.mem_cons_self),
        ih (Nat.succ.inj hlen) (fun b hb => hl b (List.mem_cons_of_mem a hb))
          fun b hb => hl' b (List.mem_cons_of_mem a' hb)]
      rfl

/-! ### Every other lane -/

/-- The lanes at even positions. -/
def evens : List ℕ → List ℕ
  | [] => []
  | [a] => [a]
  | a :: _ :: l => a :: evens l

/-- The lanes at odd positions. -/
def odds (l : List ℕ) : List ℕ := evens l.tail

/-- The sums of a lane at an even position and the next one. -/
def pairSums : List ℕ → List ℕ
  | [] => []
  | [a] => [a]
  | a :: b :: l => (a + b) :: pairSums l

section
variable {w : ℕ}

theorem pack_cons_cons (a b : ℕ) (l : List ℕ) :
    pack w (a :: b :: l) = (a + 2 ^ w * b) + 2 ^ (2 * w) * pack w l := by
  rw [pack, pack, Nat.two_mul, Nat.pow_add]
  ring

theorem pack_lt {l : List ℕ} (hl : ∀ a ∈ l, a < 2 ^ w) : pack w l < 2 ^ (w * l.length) := by
  induction l with
  | nil => simp [pack]
  | cons a l ih =>
    have ha := hl a List.mem_cons_self
    have hlt := ih fun b hb => hl b (List.mem_cons_of_mem a hb)
    have hmul : 2 ^ w * (pack w l + 1) ≤ 2 ^ w * 2 ^ (w * l.length) := Nat.mul_le_mul_left _ hlt
    rw [Nat.mul_add, Nat.mul_one] at hmul
    rw [pack, List.length_cons, Nat.mul_succ, Nat.add_comm (w * _), Nat.pow_add]
    omega

theorem pack_and_mask (l : List ℕ) (hl : ∀ a ∈ l, a < 2 ^ w) {n : ℕ} (hn : l.length ≤ 2 * n) :
    pack w l &&& pack (2 * w) (List.replicate n (2 ^ w - 1)) = pack (2 * w) (evens l) := by
  have hmask : 2 ^ w - 1 < 2 ^ (2 * w) := by
    have hle : 2 ^ w ≤ 2 ^ (2 * w) := Nat.pow_le_pow_right (by decide) (by omega)
    have hpos := Nat.two_pow_pos w
    omega
  induction n generalizing l with
  | zero =>
    obtain rfl := List.length_eq_zero_iff.mp (Nat.le_zero.mp hn)
    exact Nat.zero_and _
  | succ n ih =>
    rw [List.replicate_succ, pack]
    match l, hl, hn with
    | [], _, _ => exact Nat.zero_and _
    | [a], hl, _ =>
      have ha := hl a List.mem_cons_self
      have ha' : a < 2 ^ (2 * w) := ha.trans_le (Nat.pow_le_pow_right (by decide) (by omega))
      have hand := bitwise_add (f := and) rfl ha' hmask 0
        (pack (2 * w) (List.replicate n (2 ^ w - 1)))
      rw [Nat.mul_zero, Nat.add_zero] at hand
      rw [show pack w [a] = a from rfl, show pack (2 * w) (evens [a]) = a from rfl]
      refine hand.trans ?_
      rw [Nat.bitwise_zero_left, show Nat.bitwise and a (2 ^ w - 1) = a &&& (2 ^ w - 1) from rfl,
        Nat.and_two_pow_sub_one_eq_mod, Nat.mod_eq_of_lt ha]
      rfl
    | a :: b :: l, hl, hn =>
      have ha := hl a List.mem_cons_self
      have hb := hl b (List.mem_cons_of_mem a List.mem_cons_self)
      have hlow : a + 2 ^ w * b < 2 ^ (2 * w) := by
        have hmul : 2 ^ w * (b + 1) ≤ 2 ^ w * 2 ^ w := Nat.mul_le_mul_left _ hb
        rw [Nat.two_mul, Nat.pow_add]
        rw [Nat.mul_add, Nat.mul_one] at hmul
        omega
      have hl' : ∀ c ∈ l, c < 2 ^ w := fun c hc =>
        hl c (List.mem_cons_of_mem a (List.mem_cons_of_mem b hc))
      have hlen : l.length ≤ 2 * n := by
        rw [List.length_cons, List.length_cons] at hn
        omega
      have hand := bitwise_add (f := and) rfl hlow hmask (pack w l)
        (pack (2 * w) (List.replicate n (2 ^ w - 1)))
      rw [pack_cons_cons]
      refine hand.trans ?_
      rw [show Nat.bitwise and (a + 2 ^ w * b) (2 ^ w - 1) = (a + 2 ^ w * b) &&& (2 ^ w - 1) from rfl,
        Nat.and_two_pow_sub_one_eq_mod, Nat.add_mul_mod_self_left, Nat.mod_eq_of_lt ha]
      rw [show Nat.bitwise and (pack w l) (pack (2 * w) (List.replicate n (2 ^ w - 1))) = _ from
        ih l hl' hlen]
      rfl

theorem pack_shiftRight {a : ℕ} (ha : a < 2 ^ w) (l : List ℕ) : pack w (a :: l) >>> w = pack w l := by
  rw [pack, Nat.shiftRight_eq_div_pow, Nat.add_mul_div_left _ _ (Nat.two_pow_pos w),
    Nat.div_eq_of_lt ha, Nat.zero_add]

/-- A word is its lanes at even positions and those at odd ones. -/
theorem pack_evens_odds : ∀ l : List ℕ,
    pack w l = pack (2 * w) (evens l) + 2 ^ w * pack (2 * w) (odds l)
  | [] => rfl
  | [a] => by
    show a + 2 ^ w * 0 = (a + 2 ^ (2 * w) * 0) + 2 ^ w * 0
    omega
  | a :: b :: l => by
    have hodds : odds (a :: b :: l) = b :: odds l := by
      cases l with
      | nil => rfl
      | cons c l => rfl
    rw [pack_cons_cons, pack_evens_odds l, hodds, evens, pack, pack]
    ring

theorem pack_pairSums : ∀ l : List ℕ,
    pack w (evens l) + pack w (odds l) = pack w (pairSums l)
  | [] => rfl
  | [_] => rfl
  | a :: b :: l => by
    have hodds : odds (a :: b :: l) = b :: odds l := by
      cases l with
      | nil => rfl
      | cons c l => rfl
    rw [hodds, evens, pairSums, pack, pack, pack, ← pack_pairSums l]
    ring

end

/-- The sums of every lane and the next one. -/
def adjacentSums : List ℕ → List ℕ
  | [] => []
  | [a] => [a]
  | a :: b :: l => (a + b) :: adjacentSums (b :: l)

theorem pack_adjacentSums {w : ℕ} : ∀ l : List ℕ,
    pack w l + pack w l.tail = pack w (adjacentSums l)
  | [] => rfl
  | [_] => rfl
  | a :: b :: l => by
    have h := pack_adjacentSums (w := w) (b :: l)
    rw [List.tail_cons] at h
    have hpack : pack w ((a + b) :: adjacentSums (b :: l))
        = (a + b) + 2 ^ w * (pack w (b :: l) + pack w l) := by rw [pack, h]
    rw [adjacentSums, List.tail_cons, hpack, pack, pack]
    ring

theorem evens_adjacentSums : ∀ l : List ℕ, evens (adjacentSums l) = pairSums l
  | [] => rfl
  | [_] => rfl
  | [_, _] => rfl
  | a :: b :: c :: l => by
    rw [adjacentSums, adjacentSums, evens, pairSums, evens_adjacentSums (c :: l)]

theorem adjacentSums_le {m : ℕ} : ∀ {l : List ℕ}, (∀ a ∈ l, a ≤ m) →
    ∀ a ∈ adjacentSums l, a ≤ 2 * m
  | [], _ => fun a ha => absurd ha List.not_mem_nil
  | [b], hl => fun a ha => by
    obtain rfl := List.mem_singleton.mp ha
    have := hl a List.mem_cons_self
    omega
  | b :: c :: l, hl => fun a ha => by
    have hb := hl b List.mem_cons_self
    have hc := hl c (List.mem_cons_of_mem b List.mem_cons_self)
    rcases List.mem_cons.mp ha with rfl | ha
    · omega
    · exact adjacentSums_le (fun d hd => hl d (List.mem_cons_of_mem b hd)) a ha

theorem length_adjacentSums : ∀ l : List ℕ, (adjacentSums l).length = l.length
  | [] => rfl
  | [_] => rfl
  | a :: b :: l => by
    rw [adjacentSums, List.length_cons, length_adjacentSums (b :: l)]
    rfl

theorem sum_pairSums : ∀ l : List ℕ, (pairSums l).sum = l.sum
  | [] => rfl
  | [_] => rfl
  | a :: b :: l => by
    rw [pairSums, List.sum_cons, List.sum_cons, List.sum_cons, sum_pairSums l, Nat.add_assoc]

theorem length_pairSums : ∀ l : List ℕ, (pairSums l).length = (l.length + 1) / 2
  | [] => rfl
  | [_] => (Nat.div_self (Nat.succ_pos 1)).symm
  | a :: b :: l => by
    rw [pairSums, List.length_cons, length_pairSums l, List.length_cons, List.length_cons]
    omega

theorem pairSums_le {l : List ℕ} {m : ℕ} (hl : ∀ a ∈ l, a ≤ m) : ∀ a ∈ pairSums l, a ≤ 2 * m := by
  match l, hl with
  | [], _ => exact fun a ha => absurd ha List.not_mem_nil
  | [b], hl =>
    intro a ha
    obtain rfl := List.mem_singleton.mp ha
    have := hl a List.mem_cons_self
    omega
  | b :: c :: l, hl =>
    intro a ha
    have hb := hl b List.mem_cons_self
    have hc := hl c (List.mem_cons_of_mem b List.mem_cons_self)
    rcases List.mem_cons.mp ha with rfl | ha
    · omega
    · exact pairSums_le (fun d hd => hl d (List.mem_cons_of_mem b (List.mem_cons_of_mem c hd))) a ha

end Lanes

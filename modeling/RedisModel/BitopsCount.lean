/-
Counting bits, and the first bit of a string.

* `bitList` — the bits of a string, the most significant one of a byte first;
* `swar_toNat` — the sum of the bits of a word by arithmetic on lanes;
* `bits_popcount_bitpos` — `redisPopcount` and `redisBitpos` are what they are for a list of bits.
-/
import RedisModel.Bitops
import RedisModel.Lanes

open ByteBuffer Lanes

namespace Bitops

/-- The bits of a byte. -/
def byteBits (b : UInt8) : List Bool := (List.range 8).map fun j => b.toNat.testBit (7 - j)

/-- The bits of a string. -/
def bitList (s : Bytes) : List Bool := s.flatMap byteBits

@[simp] theorem bitList_nil : bitList [] = [] := rfl

theorem bitList_cons (b : UInt8) (s : Bytes) : bitList (b :: s) = byteBits b ++ bitList s := rfl

theorem bitList_append (a b : Bytes) : bitList (a ++ b) = bitList a ++ bitList b :=
  List.flatMap_append

theorem length_byteBits (b : UInt8) : (byteBits b).length = 8 := by
  rw [byteBits, List.length_map, List.length_range]

theorem length_bitList (s : Bytes) : (bitList s).length = 8 * s.length := by
  induction s with
  | nil => rfl
  | cons b s ih =>
    rw [bitList_cons, List.length_append, length_byteBits, ih, List.length_cons]
    omega

/-! ### The sum of the bits of a word -/

/-- The bits of a byte as lanes of one bit. -/
def byteLanes (b : UInt8) : List ℕ := (List.range 8).map fun j => (b.toNat.testBit j).toNat

theorem byteLanes_table : ∀ n < 256, pack 1 (byteLanes (UInt8.ofNat n)) = n ∧
    (byteLanes (UInt8.ofNat n)).sum = bitsinbyte.getD n 0 ∧
    bitsinbyte.getD n 0 = (byteBits (UInt8.ofNat n)).count true := by
  decide +kernel

theorem byteLanes_spec (b : UInt8) : pack 1 (byteLanes b) = b.toNat ∧
    (byteLanes b).sum = bitsOf b ∧ bitsOf b = (byteBits b).count true := by
  have h := byteLanes_table b.toNat b.toNat_lt
  rw [UInt8.ofNat_toNat] at h
  exact h

theorem length_byteLanes (b : UInt8) : (byteLanes b).length = 8 := by
  rw [byteLanes, List.length_map, List.length_range]

theorem byteLanes_lt (b : UInt8) : ∀ a ∈ byteLanes b, a < 2 ^ 1 := by
  intro a ha
  obtain ⟨j, -, rfl⟩ := List.mem_map.mp ha
  exact Bool.toNat_lt _

theorem pack_append (w : ℕ) (l l' : List ℕ) :
    pack w (l ++ l') = pack w l + 2 ^ (w * l.length) * pack w l' := by
  induction l with
  | nil => rw [List.nil_append, pack, List.length_nil, Nat.mul_zero, Nat.pow_zero, Nat.one_mul,
      Nat.zero_add]
  | cons a l ih =>
    rw [List.cons_append, pack, ih, pack, List.length_cons, Nat.mul_succ, Nat.pow_add]
    ring

theorem leVal_eq_pack (s : Bytes) : leVal s = pack 1 (s.flatMap byteLanes) := by
  induction s with
  | nil => rfl
  | cons b s ih =>
    rw [List.flatMap_cons, pack_append, length_byteLanes, (byteLanes_spec b).1, leVal, ih]
    rfl

theorem length_lanes (s : Bytes) : (s.flatMap byteLanes).length = 8 * s.length := by
  induction s with
  | nil => rfl
  | cons b s ih =>
    rw [List.flatMap_cons, List.length_append, length_byteLanes, ih, List.length_cons]
    omega

theorem lanes_lt (s : Bytes) : ∀ a ∈ s.flatMap byteLanes, a < 2 ^ 1 := by
  intro a ha
  obtain ⟨b, -, hb⟩ := List.mem_flatMap.mp ha
  exact byteLanes_lt b a hb

theorem sum_lanes (s : Bytes) : (s.flatMap byteLanes).sum = (s.map bitsOf).sum := by
  induction s with
  | nil => rfl
  | cons b s ih =>
    rw [List.flatMap_cons, List.sum_append, ih, (byteLanes_spec b).2.1, List.map_cons, List.sum_cons]

theorem masked_pairs {w n : ℕ} {l : List ℕ} (hl : ∀ a ∈ l, a < 2 ^ w) (hlen : l.length = 2 * n)
    {mask : ℕ} (hmask : mask = pack (2 * w) (List.replicate n (2 ^ w - 1))) :
    pack w l &&& mask = pack (2 * w) (evens l) ∧
      (pack w l >>> w) &&& mask = pack (2 * w) (odds l) := by
  subst hmask
  refine ⟨pack_and_mask l hl (by omega), ?_⟩
  cases l with
  | nil =>
    rw [show n = 0 by simpa using hlen.symm, pack, Nat.zero_shiftRight]
    exact Nat.zero_and _
  | cons a l =>
    rw [pack_shiftRight (hl a List.mem_cons_self)]
    refine pack_and_mask l (fun b hb => hl b (List.mem_cons_of_mem a hb)) ?_
    rw [List.length_cons] at hlen
    omega

theorem toNat_ofNat_pack {w : ℕ} {l : List ℕ} (hl : ∀ a ∈ l, a < 2 ^ w) (hlen : w * l.length = 32) :
    (BitVec.ofNat 32 (pack w l)).toNat = pack w l := by
  have hlt := pack_lt hl
  rw [hlen] at hlt
  rw [BitVec.toNat_ofNat, Nat.mod_eq_of_lt hlt]

theorem swar_pairs {l : List ℕ} (hl : ∀ a ∈ l, a < 2 ^ 1) (hlen : l.length = 32) :
    BitVec.ofNat 32 (pack 1 l) - ((BitVec.ofNat 32 (pack 1 l) >>> 1) &&& 0x55555555)
      = BitVec.ofNat 32 (pack 2 (pairSums l)) := by
  have hodds : (pack 1 l >>> 1) &&& 0x55555555 = pack 2 (odds l) :=
    (masked_pairs hl (n := 16) hlen (by decide)).2
  have hsplit : pack 1 l = pack 2 (evens l) + 2 ^ 1 * pack 2 (odds l) := pack_evens_odds l
  have hsum : pack 2 (evens l) + pack 2 (odds l) = pack 2 (pairSums l) := pack_pairSums l
  have hpairs : ∀ a ∈ pairSums l, a < 2 ^ 2 := fun a ha => by
    have := pairSums_le (m := 1) (fun b hb => Nat.le_of_lt_succ (hl b hb)) a ha
    omega
  have hlt := pack_lt hpairs
  rw [length_pairSums, hlen] at hlt
  have hmask : ((BitVec.ofNat 32 (pack 1 l) >>> 1) &&& 0x55555555).toNat = pack 2 (odds l) := by
    rw [BitVec.toNat_and, BitVec.toNat_ushiftRight, toNat_ofNat_pack hl (by omega)]
    exact hodds
  refine BitVec.eq_of_toNat_eq ?_
  rw [BitVec.toNat_sub_of_le, hmask, toNat_ofNat_pack hl (by omega), BitVec.toNat_ofNat,
    Nat.mod_eq_of_lt (by omega)]
  · omega
  · rw [BitVec.le_def, hmask, toNat_ofNat_pack hl (by omega)]
    omega

theorem swar_nibbles {l : List ℕ} (hl : ∀ a ∈ l, a ≤ 2) (hlen : l.length = 16) :
    (BitVec.ofNat 32 (pack 2 l) &&& 0x33333333) + ((BitVec.ofNat 32 (pack 2 l) >>> 2) &&& 0x33333333)
      = BitVec.ofNat 32 (pack 4 (pairSums l)) := by
  have hl' : ∀ a ∈ l, a < 2 ^ 2 := fun a ha => by have := hl a ha; omega
  obtain ⟨hevens, hodds⟩ : pack 2 l &&& 0x33333333 = pack 4 (evens l) ∧
      (pack 2 l >>> 2) &&& 0x33333333 = pack 4 (odds l) :=
    masked_pairs hl' (n := 8) hlen (by decide)
  have hsum : pack 4 (evens l) + pack 4 (odds l) = pack 4 (pairSums l) := pack_pairSums l
  refine BitVec.eq_of_toNat_eq ?_
  rw [BitVec.toNat_add, BitVec.toNat_and, BitVec.toNat_and, BitVec.toNat_ushiftRight,
    toNat_ofNat_pack hl' (by omega), BitVec.toNat_ofNat, ← hsum]
  exact congrArg (· % 2 ^ 32) (congrArg₂ (· + ·) hevens hodds)

theorem swar_bytes {l : List ℕ} (hl : ∀ a ∈ l, a ≤ 4) (hlen : l.length = 8) :
    ((((BitVec.ofNat 32 (pack 4 l) + (BitVec.ofNat 32 (pack 4 l) >>> 4)) &&& 0x0F0F0F0F)
      * 0x01010101) >>> 24).toNat = l.sum := by
  have hl' : ∀ a ∈ l, a < 2 ^ 4 := fun a ha => by have := hl a ha; omega
  have hadj : ∀ a ∈ adjacentSums l, a < 2 ^ 4 := fun a ha => by
    have := adjacentSums_le hl a ha
    omega
  have hadd : BitVec.ofNat 32 (pack 4 l) + (BitVec.ofNat 32 (pack 4 l) >>> 4)
      = BitVec.ofNat 32 (pack 4 (adjacentSums l)) := by
    refine BitVec.eq_of_toNat_eq ?_
    rw [BitVec.toNat_add, BitVec.toNat_ushiftRight, toNat_ofNat_pack hl' (by omega),
      BitVec.toNat_ofNat, ← pack_adjacentSums]
    cases l with
    | nil => rfl
    | cons a l => rw [pack_shiftRight (hl' a List.mem_cons_self), List.tail_cons]
  have hand : (BitVec.ofNat 32 (pack 4 (adjacentSums l)) &&& 0x0F0F0F0F).toNat
      = pack 8 (pairSums l) := by
    rw [BitVec.toNat_and, toNat_ofNat_pack hadj (by rw [length_adjacentSums]; omega),
      ← evens_adjacentSums]
    refine (masked_pairs hadj (n := 4) ?_ (by decide)).1
    rw [length_adjacentSums, hlen]
  have hpairs := pairSums_le hl
  have hsum := sum_pairSums l
  have hplen := length_pairSums l
  rw [hadd, BitVec.toNat_ushiftRight, BitVec.toNat_mul, hand, Nat.shiftRight_eq_div_pow]
  rw [hlen] at hplen
  generalize pairSums l = p at hpairs hsum hplen
  match p, hplen with
  | [a, b, c, d], _ =>
    simp only [List.mem_cons, List.not_mem_nil, or_false, forall_eq_or_imp, forall_eq] at hpairs
    simp only [pack, List.sum_cons, List.sum_nil] at hsum ⊢
    -- What is above the highest byte is lost, and what is below it does not reach it.
    have hmul : (a + 2 ^ 8 * (b + 2 ^ 8 * (c + 2 ^ 8 * (d + 2 ^ 8 * 0)))) * 16843009
        = 2 ^ 32 * ((b + c + d) + 2 ^ 8 * (c + d) + 2 ^ 16 * d) + (2 ^ 24 * (a + b + c + d)
          + (a + 2 ^ 8 * (a + b) + 2 ^ 16 * (a + b + c))) := by ring
    rw [show (0x01010101 : BitVec 32).toNat = 16843009 from rfl, hmul, Nat.mul_add_mod,
      Nat.mod_eq_of_lt (by omega)]
    omega

theorem swar_toNat {l : List ℕ} (hl : ∀ a ∈ l, a < 2 ^ 1) (hlen : l.length = 32) :
    (swar (BitVec.ofNat 32 (pack 1 l))).toNat = l.sum := by
  have h₁ := pairSums_le (m := 1) fun a ha => Nat.le_of_lt_succ (hl a ha)
  have hlen₁ : (pairSums l).length = 16 := by rw [length_pairSums, hlen]
  have h₂ := pairSums_le h₁
  have hlen₂ : (pairSums (pairSums l)).length = 8 := by rw [length_pairSums, hlen₁]
  rw [swar, swar_pairs hl hlen, swar_nibbles h₁ hlen₁, swar_bytes h₂ hlen₂, sum_pairSums, sum_pairSums]

/-! ### `redisPopcount` -/

theorem sum_bitsOf (s : Bytes) : (s.map bitsOf).sum = (bitList s).count true := by
  induction s with
  | nil => rfl
  | cons b s ih =>
    rw [List.map_cons, List.sum_cons, ih, bitList_cons, List.count_append, (byteLanes_spec b).2.2]

theorem foldl_bitsOf (p : Bytes) (bits : ℕ) :
    p.foldl (fun bits b => bits + bitsOf b) bits = bits + (p.map bitsOf).sum := by
  induction p generalizing bits with
  | nil => rfl
  | cons b p ih => rw [List.foldl_cons, ih, List.map_cons, List.sum_cons, Nat.add_assoc]

theorem countUnaligned_spec (addr : ℕ) (p : Bytes) (bits : ℕ) :
    (countUnaligned addr p bits).2 + ((countUnaligned addr p bits).1.map bitsOf).sum
      = bits + (p.map bitsOf).sum := by
  induction p generalizing addr bits with
  | nil => rfl
  | cons b p ih =>
    rw [countUnaligned]
    split
    · rw [ih, List.map_cons, List.sum_cons, Nat.add_assoc]
    · rfl

theorem swar_word32 {p : Bytes} {i : ℕ} (h : i + 4 ≤ p.length) :
    (swar (word32 p i)).toNat = (((p.drop i).take 4).map bitsOf).sum ∧
      (swar (word32 p i)).toNat ≤ 32 := by
  have hlen : ((p.drop i).take 4).length = 4 := by
    rw [List.length_take, List.length_drop]
    omega
  have hlanes : (((p.drop i).take 4).flatMap byteLanes).length = 32 := by
    rw [length_lanes, hlen]
  have hsum : (swar (word32 p i)).toNat = (((p.drop i).take 4).flatMap byteLanes).sum := by
    rw [word32, leVal_eq_pack]
    exact swar_toNat (lanes_lt _) hlanes
  refine ⟨hsum.trans (sum_lanes _), ?_⟩
  rw [hsum]
  have hle := List.sum_le_card_nsmul (((p.drop i).take 4).flatMap byteLanes) 1
    fun a ha => Nat.le_of_lt_succ (lanes_lt _ a ha)
  rwa [hlanes] at hle

theorem countWords_spec (p : Bytes) (bits : ℕ) :
    (countWords p bits).2 + ((countWords p bits).1.map bitsOf).sum = bits + (p.map bitsOf).sum := by
  induction p, bits using countWords.induct with
  | case1 p bits hle ih =>
    rw [countWords, if_pos hle, ih]
    obtain ⟨h₀, hle₀⟩ := swar_word32 (p := p) (i := 0) (by omega)
    obtain ⟨h₁, hle₁⟩ := swar_word32 (p := p) (i := 4) (by omega)
    obtain ⟨h₂, hle₂⟩ := swar_word32 (p := p) (i := 8) (by omega)
    obtain ⟨h₃, hle₃⟩ := swar_word32 (p := p) (i := 12) (by omega)
    have hsplit : p = p.take 4 ++ ((p.drop 4).take 4 ++ ((p.drop 8).take 4 ++
        ((p.drop 12).take 4 ++ p.drop 16))) := by
      have hnext : ∀ i, (p.drop i).take 4 ++ p.drop (i + 4) = p.drop i := fun i => by
        rw [← List.drop_drop, List.take_append_drop]
      rw [hnext 12, hnext 8, hnext 4, List.take_append_drop]
    have hsum : (p.map bitsOf).sum = (swar (word32 p 0)).toNat + ((swar (word32 p 4)).toNat
        + ((swar (word32 p 8)).toNat + ((swar (word32 p 12)).toNat
          + ((p.drop 16).map bitsOf).sum))) := by
      rw [h₀, h₁, h₂, h₃, List.drop_zero, ← List.sum_append, ← List.sum_append, ← List.sum_append,
        ← List.sum_append, ← List.map_append, ← List.map_append, ← List.map_append,
        ← List.map_append, ← hsplit]
    have hadd : (swar (word32 p 0) + swar (word32 p 4) + swar (word32 p 8)
        + swar (word32 p 12)).toNat = (swar (word32 p 0)).toNat + (swar (word32 p 4)).toNat
          + (swar (word32 p 8)).toNat + (swar (word32 p 12)).toNat := by
      rw [BitVec.toNat_add, BitVec.toNat_add, BitVec.toNat_add]
      omega
    rw [hadd, hsum]
    omega
  | case2 p bits hlt => rw [countWords, if_neg hlt]

theorem redisPopcount_eq (addr : ℕ) (s : Bytes) :
    redisPopcount addr s = (bitList s).count true % 2 ^ 64 := by
  have h₁ := countUnaligned_spec addr s 0
  have h₂ := countWords_spec (countUnaligned addr s 0).1 (countUnaligned addr s 0).2
  rw [redisPopcount]
  dsimp only
  rw [foldl_bitsOf, h₂, h₁, Nat.zero_add, sum_bitsOf]

/-! ### Skipping bytes -/

/-- The byte without the bit. -/
def skipByte (bit : Bool) : UInt8 := if bit then 0 else 255

theorem byteBits_skipByte (bit : Bool) : byteBits (skipByte bit) = List.replicate 8 (!bit) := by
  cases bit <;> decide

theorem mem_byteBits_table : ∀ n < 256, (n ≠ 0 → true ∈ byteBits (UInt8.ofNat n)) ∧
    (n ≠ 255 → false ∈ byteBits (UInt8.ofNat n)) := by
  decide +kernel

theorem mem_byteBits {bit : Bool} {b : UInt8} (hb : b ≠ skipByte bit) : bit ∈ byteBits b := by
  have h := mem_byteBits_table b.toNat b.toNat_lt
  rw [UInt8.ofNat_toNat] at h
  cases bit with
  | true => exact h.1 fun h0 => hb (UInt8.toNat_inj.mp h0)
  | false => exact h.2 fun h255 => hb (UInt8.toNat_inj.mp h255)

theorem bitList_replicate (bit : Bool) (k : ℕ) :
    bitList (List.replicate k (skipByte bit)) = List.replicate (8 * k) (!bit) := by
  induction k with
  | zero => rfl
  | succ k ih =>
    rw [List.replicate_succ, bitList_cons, ih, byteBits_skipByte, List.replicate_append_replicate]
    congr 1
    omega

theorem skipBytes_spec (skipval : UInt8) (addr : ℕ) (c : Bytes) (pos : ℤ) :
    ∃ k, c = List.replicate k skipval ++ (skipBytes skipval addr c pos).1 ∧
      (skipBytes skipval addr c pos).2 = pos + 8 * k := by
  induction c generalizing addr pos with
  | nil => exact ⟨0, rfl, (add_zero pos).symm⟩
  | cons b c ih =>
    rw [skipBytes]
    split
    · split
      · exact ⟨0, rfl, (add_zero pos).symm⟩
      · rename_i hb
        obtain ⟨k, hc, hpos⟩ := ih (addr + 1) (pos + 8)
        refine ⟨k + 1, ?_, ?_⟩
        · rw [not_not.mp hb, List.replicate_succ, List.cons_append, ← hc]
        · rw [hpos]
          push_cast
          ring
    · exact ⟨0, rfl, (add_zero pos).symm⟩

theorem word64_eq_iff {bit : Bool} {c : Bytes} (hlen : 8 ≤ c.length) :
    word64 c = (if bit then 0 else BitVec.allOnes 64) ↔
      c.take 8 = List.replicate 8 (skipByte bit) := by
  have hskip : (if bit then 0 else BitVec.allOnes 64)
      = BitVec.ofNat 64 (leVal (List.replicate 8 (skipByte bit))) := by
    cases bit <;> decide
  have htake : (c.take 8).length = 8 := by
    rw [List.length_take]
    omega
  have hlt : leVal (c.take 8) < 2 ^ 64 := by
    have h := leVal_lt (c.take 8)
    rw [htake] at h
    exact h.trans_eq (by norm_num)
  have hlt' : leVal (List.replicate 8 (skipByte bit)) < 2 ^ 64 := by
    have h := leVal_lt (List.replicate 8 (skipByte bit))
    rw [List.length_replicate] at h
    exact h.trans_eq (by norm_num)
  rw [hskip, word64]
  refine ⟨fun h => ?_, fun h => by rw [h]⟩
  have hval := congrArg BitVec.toNat h
  rw [BitVec.toNat_ofNat, BitVec.toNat_ofNat, Nat.mod_eq_of_lt hlt, Nat.mod_eq_of_lt hlt'] at hval
  have hleft := leBytes_leVal (c.take 8)
  have hright := leBytes_leVal (List.replicate 8 (skipByte bit))
  rw [htake] at hleft
  rw [List.length_replicate] at hright
  rw [← hleft, hval, hright]

theorem skipWords_spec (bit : Bool) (c : Bytes) (pos : ℤ) :
    ∃ k, c = List.replicate k (skipByte bit)
        ++ (skipWords (if bit then 0 else BitVec.allOnes 64) c pos).1 ∧
      (skipWords (if bit then 0 else BitVec.allOnes 64) c pos).2 = pos + 8 * k ∧
      (8 ≤ (skipWords (if bit then 0 else BitVec.allOnes 64) c pos).1.length →
        ∃ b ∈ (skipWords (if bit then 0 else BitVec.allOnes 64) c pos).1.take 8,
          b ≠ skipByte bit) := by
  induction c, pos using skipWords.induct (if bit then 0 else BitVec.allOnes 64) with
  | case1 c pos hle hne =>
    have hstop : skipWords (if bit then 0 else BitVec.allOnes 64) c pos = (c, pos) := by
      rw [skipWords, if_pos hle, if_pos hne]
    rw [hstop]
    refine ⟨0, rfl, (add_zero pos).symm, fun _ => ?_⟩
    by_contra hall
    refine hne ((word64_eq_iff hle).mpr (List.eq_replicate_iff.mpr ⟨?_, fun b hb => ?_⟩))
    · rw [List.length_take]
      omega
    · exact by_contra fun hb' => hall ⟨b, hb, hb'⟩
  | case2 c pos hle heq ih =>
    have hskip : skipWords (if bit then 0 else BitVec.allOnes 64) c pos
        = skipWords (if bit then 0 else BitVec.allOnes 64) (c.drop 8) (pos + 64) := by
      rw [skipWords, if_pos hle, if_neg heq]
    obtain ⟨k, hc, hpos, hlast⟩ := ih
    rw [hskip]
    refine ⟨k + 8, ?_, ?_, hlast⟩
    · rw [Nat.add_comm k 8, ← List.replicate_append_replicate, List.append_assoc, ← hc,
        ← (word64_eq_iff hle).mp (not_not.mp heq), List.take_append_drop]
    · rw [hpos]
      push_cast
      ring
  | case3 c pos hlt =>
    have hstop : skipWords (if bit then 0 else BitVec.allOnes 64) c pos = (c, pos) := by
      rw [skipWords, if_neg hlt]
    rw [hstop]
    exact ⟨0, rfl, (add_zero pos).symm, fun h => absurd h hlt⟩

/-! ### The last word -/

theorem loadWord_high (n : ℕ) (c : Bytes) (w : BitVec 64) {t : ℕ} (ht : 8 * n + t < 64) :
    (loadWord n c w).getLsbD (8 * n + t) = w.getLsbD t := by
  induction n generalizing c w t with
  | zero =>
    rw [loadWord]
    congr 1
    omega
  | succ n ih =>
    have hpos : 8 * (n + 1) + t = 8 * n + (8 + t) := by omega
    have hshift : (w <<< 8).getLsbD (8 + t) = w.getLsbD t := by
      rw [BitVec.getLsbD_shiftLeft, decide_eq_true (by omega), decide_eq_false (by omega),
        Nat.add_sub_cancel_left]
      rfl
    cases c with
    | nil => rw [loadWord, hpos, ih _ _ (by omega), hshift]
    | cons b c =>
      have hb : (b.toBitVec.setWidth 64).getLsbD (8 + t) = false := by
        rw [BitVec.getLsbD_setWidth, BitVec.getLsbD_of_ge b.toBitVec (8 + t) (by omega),
          Bool.and_false]
      rw [loadWord, hpos, ih _ _ (by omega), BitVec.getLsbD_or, hshift, hb, Bool.or_false]

theorem loadWord_low {n : ℕ} (hn : n ≤ 8) (c : Bytes) (w : BitVec 64) {i : ℕ} (hi : i < 8 * n) :
    (loadWord n c w).getLsbD (8 * n - 1 - i) = (bitList c).getD i false := by
  induction n generalizing c w i with
  | zero => exact absurd hi (Nat.not_lt_zero i)
  | succ n ih =>
    cases c with
    | nil =>
      rw [loadWord, bitList_nil, List.getD_nil]
      by_cases hi8 : i < 8
      · have hpos : 8 * (n + 1) - 1 - i = 8 * n + (7 - i) := by omega
        rw [hpos, loadWord_high _ _ _ (by omega), BitVec.getLsbD_shiftLeft,
          decide_eq_true (show 7 - i < 8 by omega)]
        simp
      · have hpos : 8 * (n + 1) - 1 - i = 8 * n - 1 - (i - 8) := by omega
        rw [hpos, ih (by omega) [] _ (by omega), bitList_nil, List.getD_nil]
    | cons b c =>
      rw [loadWord, bitList_cons]
      by_cases hi8 : i < 8
      · have hpos : 8 * (n + 1) - 1 - i = 8 * n + (7 - i) := by omega
        have hb : (byteBits b ++ bitList c).getD i false = b.toNat.testBit (7 - i) := by
          rw [List.getD_append _ _ _ _ (by rw [length_byteBits]; exact hi8), byteBits,
            List.getD_eq_getElem?_getD, List.getElem?_map, List.getElem?_range hi8]
          rfl
        rw [hpos, loadWord_high _ _ _ (by omega), BitVec.getLsbD_or, BitVec.getLsbD_shiftLeft,
          decide_eq_true (show 7 - i < 8 by omega), BitVec.getLsbD_setWidth,
          decide_eq_true (show 7 - i < 64 by omega), hb, ← UInt8.toNat_toBitVec,
          BitVec.testBit_toNat]
        simp
      · have hpos : 8 * (n + 1) - 1 - i = 8 * n - 1 - (i - 8) := by omega
        rw [hpos, ih (by omega) c _ (by omega), List.getD_append_right _ _ _ _
          (by rw [length_byteBits]; omega), length_byteBits]

theorem twoPow_shiftRight {p : ℕ} (hp : p + 1 < 64) :
    BitVec.twoPow 64 (p + 1) >>> 1 = BitVec.twoPow 64 p := by
  refine BitVec.eq_of_toNat_eq ?_
  rw [BitVec.toNat_ushiftRight, BitVec.toNat_twoPow_of_lt hp, BitVec.toNat_twoPow_of_lt (by omega),
    Nat.shiftRight_eq_div_pow, Nat.pow_succ, Nat.pow_one, Nat.mul_div_cancel _ (by decide)]

theorem twoPow_ne_zero {p : ℕ} (hp : p < 64) : BitVec.twoPow 64 p ≠ 0 := by
  intro h
  have hval := congrArg BitVec.toNat h
  rw [BitVec.toNat_twoPow_of_lt hp] at hval
  exact (Nat.two_pow_pos p).ne' hval

theorem scanWord_spec (bit : Bool) (word : BitVec 64) {p fuel : ℕ} (hp : p < 64)
    (hfuel : p + 2 ≤ fuel) (pos : ℤ) :
    scanWord bit word fuel (BitVec.twoPow 64 p) pos
      = (((List.range (p + 1)).map fun i => word.getLsbD (p - i)).findIdx? (· == bit)).map
          fun i : ℕ => pos + (i : ℤ) := by
  induction p generalizing fuel pos with
  | zero =>
    obtain ⟨fuel, rfl⟩ : ∃ f, fuel = f + 2 := ⟨fuel - 2, by omega⟩
    have hlast : scanWord bit word (fuel + 1) (BitVec.twoPow 64 0 >>> 1) (pos + 1) = none := by
      rw [scanWord, if_pos (by decide)]
    have htest : decide (BitVec.twoPow 64 0 &&& word ≠ 0) = word.getLsbD 0 := by
      rw [BitVec.twoPow_and]
      cases word.getLsbD 0 <;> decide
    rw [scanWord, if_neg (twoPow_ne_zero hp), htest, hlast]
    show _ = ([word.getLsbD 0].findIdx? (· == bit)).map _
    rw [List.findIdx?_cons]
    cases word.getLsbD 0 <;> cases bit <;> simp
  | succ p ih =>
    obtain ⟨fuel, rfl⟩ : ∃ f, fuel = f + 1 := ⟨fuel - 1, by omega⟩
    have htest : decide (BitVec.twoPow 64 (p + 1) &&& word ≠ 0) = word.getLsbD (p + 1) := by
      rw [BitVec.twoPow_and]
      cases word.getLsbD (p + 1) with
      | true => exact decide_eq_true (twoPow_ne_zero hp)
      | false => exact decide_eq_false fun h => h rfl
    have hlist : (List.range (p + 1 + 1)).map (fun i => word.getLsbD (p + 1 - i))
        = word.getLsbD (p + 1) :: (List.range (p + 1)).map fun i => word.getLsbD (p - i) := by
      rw [List.range_succ_eq_map, List.map_cons, List.map_map]
      refine congrArg₂ _ rfl (List.map_congr_left fun i _ => ?_)
      show word.getLsbD (p + 1 - (i + 1)) = _
      rw [Nat.add_sub_add_right]
    rw [scanWord, if_neg (twoPow_ne_zero hp), htest, twoPow_shiftRight hp, hlist,
      List.findIdx?_cons, ih (by omega) (by omega)]
    by_cases hbit : word.getLsbD (p + 1) = bit
    · rw [if_pos hbit, if_pos (beq_iff_eq.mpr hbit)]
      exact congrArg some (add_zero pos).symm
    · rw [if_neg hbit, if_neg (fun h => hbit (beq_iff_eq.mp h)), Option.map_map]
      congr 1
      funext i
      show pos + 1 + (i : ℤ) = pos + ((i + 1 : ℕ) : ℤ)
      push_cast
      ring

theorem loadWord_bits (c : Bytes) :
    (List.range (63 + 1)).map (fun i => (loadWord 8 c 0).getLsbD (63 - i))
      = (bitList c ++ List.replicate 64 false).take 64 := by
  refine List.ext_getElem? fun i => ?_
  by_cases hi : i < 64
  · rw [List.getElem?_map, List.getElem?_range hi, List.getElem?_take_of_lt hi, Option.map_some,
      show 63 - i = 8 * 8 - 1 - i from rfl, loadWord_low (Nat.le_refl 8) c 0 hi]
    by_cases hc : i < (bitList c).length
    · rw [List.getElem?_append_left hc, List.getElem?_eq_getElem hc, List.getD_eq_getElem _ _ hc]
    · rw [List.getElem?_append_right (by omega), List.getElem?_replicate, if_pos (by omega),
        List.getD_eq_default _ _ (by omega)]
  · rw [List.getElem?_eq_none, List.getElem?_eq_none]
    · rw [List.length_take]
      omega
    · rw [List.length_map, List.length_range]
      omega

/-! ### `redisBitpos` -/

/-- The first bit that is equal. -/
def firstIdx (bit : Bool) (l : List Bool) : Option ℕ := l.findIdx? (· == bit)

theorem firstIdx_append (bit : Bool) (a b : List Bool) :
    firstIdx bit (a ++ b) = (firstIdx bit a).or ((firstIdx bit b).map fun i => i + a.length) :=
  List.findIdx?_append

theorem firstIdx_eq_none {bit : Bool} {l : List Bool} : firstIdx bit l = none ↔ bit ∉ l := by
  rw [firstIdx, List.findIdx?_eq_none_iff]
  constructor
  · intro h hmem
    have := h bit hmem
    rw [beq_self_eq_true] at this
    cases this
  · intro h x hx
    rw [beq_eq_false_iff_ne]
    exact fun heq => h (heq ▸ hx)

theorem firstIdx_replicate_not (bit : Bool) (n : ℕ) :
    firstIdx bit (List.replicate n (!bit)) = none := by
  rw [firstIdx_eq_none]
  intro h
  have := List.eq_of_mem_replicate h
  cases bit <;> cases this

/-- What `redisBitpos` is for. -/
def firstBit (bit : Bool) (s : Bytes) : ℤ :=
  match firstIdx bit (bitList s) with
  | some i => i
  | none => if bit then -1 else 8 * s.length

/-- The first bit of the word is the first bit of the string, and if there is none, the word is
filled up with clear bits. -/
theorem firstIdx_word {bit : Bool} {c : Bytes}
    (hc : 8 ≤ c.length → ∃ b ∈ c.take 8, b ≠ skipByte bit) :
    firstIdx bit ((bitList c ++ List.replicate 64 false).take 64)
      = (firstIdx bit (bitList c)).or (if bit then none else some (8 * c.length)) := by
  by_cases hlen : 8 ≤ c.length
  · obtain ⟨b, hb, hne⟩ := hc hlen
    have htake : (bitList c ++ List.replicate 64 false).take 64 = bitList (c.take 8) := by
      have h64 : (bitList (c.take 8)).length = 64 := by
        rw [length_bitList, List.length_take]
        omega
      conv_lhs => rw [← List.take_append_drop 8 c, bitList_append, List.append_assoc,
        List.take_append_of_le_length (by omega), List.take_of_length_le (by omega)]
    have hsome : firstIdx bit (bitList (c.take 8)) ≠ none := by
      rw [Ne, firstIdx_eq_none, not_not]
      exact List.mem_flatMap.mpr ⟨b, hb, mem_byteBits hne⟩
    have hwhole : firstIdx bit (bitList c) = firstIdx bit (bitList (c.take 8)) := by
      conv_lhs => rw [← List.take_append_drop 8 c, bitList_append, firstIdx_append]
      cases hfirst : firstIdx bit (bitList (c.take 8)) with
      | none => exact absurd hfirst hsome
      | some i => rfl
    rw [htake, hwhole]
    cases hfirst : firstIdx bit (bitList (c.take 8)) with
    | none => exact absurd hfirst hsome
    | some i => rfl
  · have htake : (bitList c ++ List.replicate 64 false).take 64
        = bitList c ++ List.replicate (63 - 8 * c.length + 1) false := by
      rw [List.take_append, List.take_of_length_le (by rw [length_bitList]; omega), length_bitList,
        List.take_replicate]
      congr 2
      omega
    rw [htake, firstIdx_append, length_bitList]
    congr 1
    cases bit with
    | true =>
      have hnone : firstIdx true (List.replicate (63 - 8 * c.length + 1) false) = none :=
        firstIdx_replicate_not true _
      rw [hnone]
      rfl
    | false =>
      rw [List.replicate_succ, firstIdx, List.findIdx?_cons]
      simp

theorem redisBitpos_eq (addr : ℕ) (s : Bytes) (bit : Bool) :
    redisBitpos addr s bit = some (firstBit bit s) := by
  obtain ⟨k₁, hs, hpos₁⟩ := skipBytes_spec (skipByte bit) addr s 0
  obtain ⟨c₁, pos₁, h₁⟩ : ∃ c pos, skipBytes (skipByte bit) addr s 0 = (c, pos) := ⟨_, _, rfl⟩
  obtain ⟨k₂, hc, hpos₂, hlast⟩ := skipWords_spec bit c₁ pos₁
  obtain ⟨c, pos, h₂⟩ : ∃ c pos, skipWords (if bit then 0 else BitVec.allOnes 64) c₁ pos₁ = (c, pos) :=
    ⟨_, _, rfl⟩
  rw [h₁] at hs hpos₁
  rw [h₂] at hc hpos₂ hlast
  dsimp only at hs hpos₁ hc hpos₂ hlast
  rw [redisBitpos, show skipBytes (if bit then 0 else 255) addr s 0 = (c₁, pos₁) from h₁]
  dsimp only
  rw [h₂]
  dsimp only
  have hwhole : s = List.replicate (k₁ + k₂) (skipByte bit) ++ c := by
    rw [hs, hc, ← List.append_assoc, List.replicate_append_replicate]
  have hpos : pos = ((8 * (k₁ + k₂) : ℕ) : ℤ) := by
    rw [hpos₂, hpos₁]
    push_cast
    ring
  -- The first bit of the whole string is that of the bytes that are left.
  have hfirst : firstBit bit s = match firstIdx bit (bitList c) with
      | some i => pos + i
      | none => if bit then -1 else pos + 8 * c.length := by
    rw [firstBit, hwhole, bitList_append, bitList_replicate, firstIdx_append, firstIdx_replicate_not,
      Option.none_or, hpos]
    cases firstIdx bit (bitList c) with
    | none =>
      cases bit
      · show (8 : ℤ) * ((List.replicate (k₁ + k₂) (skipByte false) ++ c).length : ℕ)
          = ((8 * (k₁ + k₂) : ℕ) : ℤ) + 8 * c.length
        rw [List.length_append, List.length_replicate]
        push_cast
        ring
      · rfl
    | some i =>
      rw [Option.map_some, List.length_replicate]
      dsimp only
      push_cast
      ring
  have hword := firstIdx_word hlast
  rw [← loadWord_bits] at hword
  have hone : ~~~ (BitVec.allOnes 64 >>> 1) = BitVec.twoPow 64 63 := by decide
  by_cases hzero : bit = true ∧ loadWord 8 c 0 = 0
  · obtain ⟨rfl, hload⟩ := hzero
    rw [if_pos ⟨rfl, hload⟩, hfirst]
    have hnone : firstIdx true (bitList c) = none := by
      rw [hload, if_pos rfl, Option.or_none] at hword
      rw [← hword, firstIdx_eq_none]
      intro hmem
      obtain ⟨i, -, hi⟩ := List.mem_map.mp hmem
      exact Bool.false_ne_true (BitVec.getLsbD_zero.symm.trans hi)
    rw [hnone]
    rfl
  · rw [if_neg hzero, hone, scanWord_spec bit _ (by decide) (by decide), hfirst]
    show (firstIdx bit _).map _ = _
    rw [hword]
    cases hidx : firstIdx bit (bitList c) with
    | some i => rfl
    | none =>
      cases bit with
      | false =>
        rw [Option.none_or, if_neg Bool.false_ne_true, Option.map_some, if_neg Bool.false_ne_true]
        push_cast
        rfl
      | true =>
        -- The word is not zero, so it has a bit.
        exfalso
        rw [hidx, Option.none_or, if_pos rfl, firstIdx_eq_none] at hword
        refine hzero ⟨rfl, BitVec.eq_of_getLsbD_eq fun i hi => ?_⟩
        rw [show (0 : BitVec 64).getLsbD i = false from BitVec.getLsbD_zero]
        refine Bool.eq_false_of_not_eq_true fun hbit => hword (List.mem_map.mpr ⟨63 - i, ?_, ?_⟩)
        · exact List.mem_range.mpr (by omega)
        · rw [← hbit]
          congr 1
          omega

/-! ### Results -/

/-- `redisPopcount` counts the bits that are set, and `redisBitpos` returns the index of the first bit equal to `bit`, -1 if it looks for a set bit and
there is none, and the length in bits if it looks for a clear bit and there is none. -/
theorem bits_popcount_bitpos (addr : ℕ) (s : Bytes) (hs : s.length < 512 * 1024 * 1024) :
    redisPopcount addr s = (bitList s).count true ∧
    ∀ bit, redisBitpos addr s bit = some (match (bitList s).findIdx? (· == bit) with
      | some i => (i : ℤ)
      | none => if bit then -1 else 8 * s.length) := by
  refine ⟨?_, redisBitpos_eq addr s⟩
  have hle : (bitList s).count true ≤ (bitList s).length := List.count_le_length
  rw [length_bitList] at hle
  rw [redisPopcount_eq, Nat.mod_eq_of_lt (by omega)]

theorem bits_popcount_bitpos_foobar : redisPopcount 3 [102, 111, 111, 98, 97, 114] = 26 ∧
    redisBitpos 3 [102, 111, 111, 98, 97, 114] true = some 1 := by
  obtain ⟨hcount, hpos⟩ := bits_popcount_bitpos 3 [102, 111, 111, 98, 97, 114] (by decide)
  exact ⟨hcount, hpos true⟩

end Bitops

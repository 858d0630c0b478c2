/-
The ranges of BITCOUNT and BITPOS.

* `bitsBetween` — the positions of the bits of some bytes;
* `countRange_between`, `posRange_between` — what the commands reply for a range that was moved
  into the string;
* `bit_ranges` — when this is right for the range that was given.
-/
import RedisModel.BitopsCount

open ByteBuffer

namespace Bitops

/-! ### Positions -/

/-- The positions of `bit` in a list. -/
def positions (bit : Bool) (l : List Bool) : List ℕ :=
  (List.range l.length).filter fun k => l[k]? = some bit

theorem positions_append (bit : Bool) (a b : List Bool) :
    positions bit (a ++ b) = positions bit a ++ (positions bit b).map (a.length + ·) := by
  rw [positions, List.length_append, List.range_add, List.filter_append, List.filter_map]
  congr 1
  · refine List.filter_congr fun k hk => ?_
    rw [List.getElem?_append_left (List.mem_range.mp hk)]
  · congr 1
    refine List.filter_congr fun k _ => ?_
    show decide ((a ++ b)[a.length + k]? = some bit) = _
    rw [List.getElem?_append_right (Nat.le_add_right _ _), Nat.add_sub_cancel_left]

theorem positions_cons (bit x : Bool) (l : List Bool) :
    positions bit (x :: l) = (if x = bit then [0] else []) ++ (positions bit l).map (1 + ·) := by
  have h := positions_append bit [x] l
  have hone : positions bit [x] = if x = bit then [0] else [] := by
    cases x <;> cases bit <;> rfl
  rw [hone] at h
  exact h

theorem length_positions (bit : Bool) (l : List Bool) : (positions bit l).length = l.count bit := by
  induction l with
  | nil => rfl
  | cons x l ih =>
    rw [positions_cons, List.length_append, List.length_map, ih, List.count_cons]
    by_cases hx : x = bit
    · rw [if_pos hx, if_pos (beq_iff_eq.mpr hx), List.length_singleton, Nat.add_comm]
    · rw [if_neg hx, if_neg fun h => hx (beq_iff_eq.mp h), List.length_nil, Nat.zero_add,
        Nat.add_zero]

theorem head?_positions (bit : Bool) (l : List Bool) :
    (positions bit l).head? = firstIdx bit l := by
  induction l with
  | nil => rfl
  | cons x l ih =>
    rw [positions_cons, firstIdx, List.findIdx?_cons]
    by_cases hx : x = bit
    · rw [if_pos hx, if_pos (beq_iff_eq.mpr hx)]
      rfl
    · rw [if_neg hx, if_neg fun h => hx (beq_iff_eq.mp h), List.nil_append, List.head?_map, ih]
      exact congrArg (Option.map · _) (funext fun k => Nat.add_comm 1 k)

theorem mem_positions {bit : Bool} {l : List Bool} {k : ℕ} :
    k ∈ positions bit l ↔ l[k]? = some bit := by
  rw [positions, List.mem_filter, List.mem_range, decide_eq_true_eq]
  exact and_iff_right_of_imp fun h => (List.getElem?_eq_some_iff.mp h).1

/-- The positions of `bit` in the bytes from `first` to `last`. -/
def bitsBetween (s : Bytes) (first last : ℤ) (bit : Bool) : List ℕ :=
  (positions bit (bitList s)).filter fun k => first ≤ ((k / 8 : ℕ) : ℤ) ∧ ((k / 8 : ℕ) : ℤ) ≤ last

/-- The position of the first of them, or -1. -/
def firstBetween (s : Bytes) (first last : ℤ) (bit : Bool) : ℤ :=
  match (bitsBetween s first last bit).head? with
  | some k => k
  | none => -1

theorem bitsBetween_eq_nil {s : Bytes} {first last : ℤ}
    (h : last < 0 ∨ (s.length : ℤ) ≤ first ∨ last < first) (bit : Bool) :
    bitsBetween s first last bit = [] := by
  refine List.filter_eq_nil_iff.mpr fun k hk => ?_
  have hlt := (List.getElem?_eq_some_iff.mp (mem_positions.mp hk)).1
  rw [length_bitList] at hlt
  rw [decide_eq_true_eq]
  rintro ⟨h₁, h₂⟩
  omega

theorem bitsBetween_middle {a b c : Bytes} {first last : ℤ} (bit : Bool)
    (hfirst : first ≤ a.length) (hfirst' : a.length = 0 ∨ first = a.length)
    (hlast : last + 1 = a.length + b.length ∨ c = [] ∧ (a.length + b.length : ℤ) ≤ last + 1) :
    bitsBetween (a ++ (b ++ c)) first last bit
      = (positions bit (bitList b)).map (8 * a.length + ·) := by
  rw [bitsBetween, bitList_append, bitList_append, positions_append, positions_append,
    List.filter_append, List.map_append, List.filter_append, length_bitList, length_bitList]
  have hbound : ∀ {l : Bytes} {k : ℕ}, k ∈ positions bit (bitList l) → k < 8 * l.length :=
    fun hk => by
      have hlt := (List.getElem?_eq_some_iff.mp (mem_positions.mp hk)).1
      rwa [length_bitList] at hlt
  have hleft : (positions bit (bitList a)).filter
      (fun k => decide (first ≤ ((k / 8 : ℕ) : ℤ) ∧ ((k / 8 : ℕ) : ℤ) ≤ last)) = [] := by
    refine List.filter_eq_nil_iff.mpr fun k hk => ?_
    have := hbound hk
    rw [decide_eq_true_eq]
    rintro ⟨h₁, -⟩
    omega
  have hmiddle : ((positions bit (bitList b)).map (8 * a.length + ·)).filter
      (fun k => decide (first ≤ ((k / 8 : ℕ) : ℤ) ∧ ((k / 8 : ℕ) : ℤ) ≤ last))
      = (positions bit (bitList b)).map (8 * a.length + ·) := by
    refine List.filter_eq_self.mpr fun k hk => ?_
    obtain ⟨j, hj, rfl⟩ := List.mem_map.mp hk
    have := hbound hj
    rw [decide_eq_true_eq]
    constructor <;> omega
  have hright : (((positions bit (bitList c)).map (8 * b.length + ·)).map (8 * a.length + ·)).filter
      (fun k => decide (first ≤ ((k / 8 : ℕ) : ℤ) ∧ ((k / 8 : ℕ) : ℤ) ≤ last)) = [] := by
    refine List.filter_eq_nil_iff.mpr fun k hk => ?_
    obtain ⟨i, hi, rfl⟩ := List.mem_map.mp hk
    obtain ⟨j, hj, rfl⟩ := List.mem_map.mp hi
    have := hbound hj
    rw [decide_eq_true_eq]
    rintro ⟨-, h₂⟩
    rcases hlast with hlast | ⟨rfl, -⟩
    · omega
    · exact absurd hj List.not_mem_nil
  rw [hleft, hmiddle, hright, List.nil_append, List.append_nil]

/-! ### A range that was moved into the string -/

section
variable {s : Bytes} {x y : ℤ}

theorem rangeBytes_eq (hs : s.length < 2 ^ 31) (hx : 0 ≤ x) (hxy : x ≤ y) (hy : y < s.length) :
    ∃ a b c, s = a ++ (b ++ c) ∧ rangeBytes s x y = some b ∧ (a.length : ℤ) = x ∧
      (b.length : ℤ) = y - x + 1 := by
  have hlen : (toLong (toLong (y - x) + 1)).toNat = (y - x + 1).toNat := by
    rw [toLong_of_range (v := y - x) (by omega) (by omega), toLong_of_range (by omega) (by omega)]
  refine ⟨s.take x.toNat, (s.drop x.toNat).take (y - x + 1).toNat,
    (s.drop x.toNat).drop (y - x + 1).toNat, ?_, ?_, ?_, ?_⟩
  · rw [List.take_append_drop, List.take_append_drop]
  · rw [rangeBytes, hlen, slice, if_pos (by omega)]
  · rw [List.length_take]
    omega
  · rw [List.length_take, List.length_drop]
    omega

theorem countRange_between (hs : s.length < 2 ^ 31) (hx : 0 ≤ x) (hy : y < s.length) (addr : ℕ) :
    countRange addr s (x, y) = some (.integer (bitsBetween s x y true).length) := by
  rw [countRange]
  by_cases hxy : x > y
  · rw [if_pos hxy, bitsBetween_eq_nil (by omega)]
    rfl
  · obtain ⟨a, b, c, hsplit, hbytes, ha, hb⟩ := rangeBytes_eq hs hx (by omega) hy
    have hcount : (bitsBetween s x y true).length = (bitList b).count true := by
      rw [hsplit, bitsBetween_middle true (by omega) (by omega) (.inl (by omega)), List.length_map,
        length_positions]
    have hle : (bitList b).count true ≤ (bitList b).length := List.count_le_length
    rw [length_bitList] at hle
    rw [if_neg hxy]
    dsimp only
    rw [hbytes]
    dsimp only [Option.bind_eq_bind, Option.bind_some]
    rw [redisPopcount_eq, Nat.mod_eq_of_lt (by omega), toLong_of_range (by omega) (by omega), hcount]

theorem posRange_between (hs : s.length < 2 ^ 31) (hx : 0 ≤ x) (hy : y < s.length) (addr : ℕ)
    (bit : Bool) :
    posRange addr s (if bit then 1 else 0) (x, y) true = some (.integer (firstBetween s x y bit)) := by
  rw [posRange]
  by_cases hxy : x > y
  · rw [if_pos hxy, firstBetween, bitsBetween_eq_nil (by omega)]
    rfl
  · obtain ⟨a, b, c, hsplit, hbytes, ha, hb⟩ := rangeBytes_eq hs hx (by omega) hy
    have hfirst : firstBetween s x y bit = match firstIdx bit (bitList b) with
        | some i => 8 * x + i
        | none => -1 := by
      rw [firstBetween, hsplit, bitsBetween_middle bit (by omega) (by omega) (.inl (by omega)),
        List.head?_map, head?_positions]
      cases firstIdx bit (bitList b) with
      | none => rfl
      | some i =>
        show ((8 * a.length + i : ℕ) : ℤ) = 8 * x + i
        omega
    have hbound : ∀ {i : ℕ}, firstIdx bit (bitList b) = some i → i < 8 * b.length := fun hi => by
      rw [← length_bitList]
      exact (List.findIdx?_eq_some_iff_getElem.mp hi).1
    have hbit : decide ((if bit then 1 else 0 : ℤ) = 1) = bit := by cases bit <;> rfl
    have hbytes8 : toLong (toLong (toLong (y - x) + 1) * 8) = 8 * b.length := by
      rw [toLong_of_range (v := y - x) (by omega) (by omega),
        toLong_of_range (v := y - x + 1) (by omega) (by omega), toLong_of_range (by omega) (by omega)]
      omega
    rw [if_neg hxy, hfirst]
    dsimp only
    rw [hbytes]
    dsimp only [Option.bind_eq_bind, Option.bind_some]
    rw [redisBitpos_eq, Option.bind_some, hbit, hbytes8, firstBit]
    cases hidx : firstIdx bit (bitList b) with
    | some i =>
      have hi := hbound hidx
      dsimp only
      rw [if_neg (by omega), if_pos (by omega), toLong_of_range (v := x * 8) (by omega) (by omega),
        toLong_of_range (by omega) (by omega)]
      congr 2
      ring
    | none =>
      dsimp only
      cases bit with
      | true => rfl
      | false => rw [if_pos ⟨rfl, rfl, rfl⟩]

/-! ### The range that was given -/

/-- An end of a range, if negative ones count from the end of the string. -/
def fromEnd (n v : ℤ) : ℤ := if v < 0 then n + v else v

theorem fromEnd_eq {n v : ℤ} (hn : 0 ≤ n) (hn' : n < 2 ^ 31) (hv : IsLong v) :
    (if v < 0 then toLong (n + v) else v) = fromEnd n v := by
  obtain ⟨hv₁, hv₂⟩ := hv
  rw [fromEnd]
  split
  · rw [toLong_of_range (by omega) (by omega)]
  · rfl

theorem clampZero_eq (v : ℤ) : (if v < 0 then 0 else v) = max v 0 := by
  split
  · rw [max_eq_right (by omega)]
  · rw [max_eq_left (by omega)]

/-- The range that the commands use: when it ends before the string and does not begin after the
first byte, it is the first byte. -/
theorem clampRange_eq {n start stop : ℤ} (hn : 0 ≤ n) (hn' : n < 2 ^ 31) (hstart : IsLong start)
    (hstop : IsLong stop) :
    clampRange n start stop = (max (fromEnd n start) 0, min (max (fromEnd n stop) 0) (n - 1)) := by
  rw [clampRange, fromEnd_eq hn hn' hstart, fromEnd_eq hn hn' hstop, clampZero_eq, clampZero_eq]
  congr 1
  split
  · rw [min_eq_right (by omega)]
  · rw [min_eq_left (by omega)]

/-- The bits between the ends that were given and between the ends that are used are the same,
unless the range is before the string and the first byte is used. -/
theorem bitsBetween_clamp (s : Bytes) (first last : ℤ) (bit : Bool) :
    bitsBetween s (max first 0) (min (max last 0) (s.length - 1)) bit
      = if last < 0 ∧ first ≤ 0 then positions bit (bitList (s.take 1))
        else bitsBetween s first last bit := by
  by_cases hbefore : last < 0 ∧ first ≤ 0
  · rw [if_pos hbefore, max_eq_right hbefore.2, max_eq_right hbefore.1.le]
    cases s with
    | nil => rw [bitsBetween_eq_nil (.inl (by simp))]; rfl
    | cons b s =>
      have hmin : min (0 : ℤ) ((b :: s).length - 1) = 0 := by
        rw [List.length_cons]
        omega
      have h : bitsBetween ([] ++ ([b] ++ s)) 0 0 bit = _ :=
        bitsBetween_middle bit (by simp) (by simp) (.inl (by simp))
      have hmap : ∀ l : List ℕ, l.map (8 * ([] : Bytes).length + ·) = l := fun l => by
        simp
      rw [hmap] at h
      rw [hmin]
      exact h
  · rw [if_neg hbefore]
    refine List.filter_congr fun k hk => ?_
    have hlt := (List.getElem?_eq_some_iff.mp (mem_positions.mp hk)).1
    rw [length_bitList] at hlt
    rw [decide_eq_decide]
    omega

end

theorem bitcountCommand_range {addr : ℕ} {o : Robj} {s a b : Bytes} {start stop : ℤ}
    (ho : o.text = some s) (ha : getLongFromObjectOrReply a = .ok start)
    (hb : getLongFromObjectOrReply b = .ok stop) :
    bitcountCommand addr (some o) [a, b] = countRange addr s (clampRange s.length start stop) := by
  rw [bitcountCommand]
  dsimp only
  rw [ho]
  dsimp only
  rw [ha, hb]

theorem bitposCommand_range {addr : ℕ} {o : Robj} {s arg a b : Bytes} {bit : Bool} {start stop : ℤ}
    (ho : o.text = some s) (hbit : getLongFromObjectOrReply arg = .ok (if bit then 1 else 0))
    (ha : getLongFromObjectOrReply a = .ok start) (hb : getLongFromObjectOrReply b = .ok stop) :
    bitposCommand addr (some o) [arg, a, b]
      = posRange addr s (if bit then 1 else 0) (clampRange s.length start stop) true := by
  have hvalid : ¬((if bit then 1 else 0 : ℤ) ≠ 0 ∧ (if bit then 1 else 0 : ℤ) ≠ 1) := by
    cases bit <;> simp
  rw [bitposCommand, List.headD_cons, hbit]
  dsimp only
  rw [if_neg hvalid, ho]
  dsimp only [List.tail_cons]
  rw [ha, hb]

theorem positions_eq_nil {bit : Bool} {l : List Bool} : positions bit l = [] ↔ bit ∉ l := by
  rw [← List.head?_eq_none_iff, head?_positions, firstIdx_eq_none]

/-! ### Results -/

/-- BITCOUNT replies with the number of the set bits between the ends that were given, and BITPOS
with the position of the first bit there, exactly if the range does not end before the string
while it begins at the first byte or before, or the first byte is without the bit. -/
theorem bit_ranges (addr : ℕ) {o : Robj} {s a b : Bytes} {start stop : ℤ} (ho : o.text = some s)
    (hs : s.length < 2 ^ 31) (ha : getLongFromObjectOrReply a = .ok start)
    (hb : getLongFromObjectOrReply b = .ok stop) :
    (bitcountCommand addr (some o) [a, b] = some (.integer (bitsBetween s (fromEnd s.length start)
        (fromEnd s.length stop) true).length) ↔
      (fromEnd s.length stop < 0 → fromEnd s.length start ≤ 0 → true ∉ bitList (s.take 1))) ∧
    ∀ bit arg, getLongFromObjectOrReply arg = .ok (if bit then 1 else 0) →
      (bitposCommand addr (some o) [arg, a, b] = some (.integer (firstBetween s
          (fromEnd s.length start) (fromEnd s.length stop) bit)) ↔
        (fromEnd s.length stop < 0 → fromEnd s.length start ≤ 0 → bit ∉ bitList (s.take 1))) := by
  have hclamp := clampRange_eq (n := s.length) (by omega) (by omega) (isLong_getLong ha)
    (isLong_getLong hb)
  set first := fromEnd s.length start
  set last := fromEnd s.length stop
  have hx : 0 ≤ max first 0 := le_max_right _ _
  have hy : min (max last 0) ((s.length : ℤ) - 1) < s.length := by omega
  refine ⟨?_, fun bit arg harg => ?_⟩
  · rw [bitcountCommand_range ho ha hb, hclamp, countRange_between hs hx hy, bitsBetween_clamp]
    by_cases hbefore : last < 0 ∧ first ≤ 0
    · rw [if_pos hbefore, bitsBetween_eq_nil (.inl hbefore.1), Option.some_inj,
        StringReply.integer.injEq, Int.natCast_inj, List.length_nil, List.length_eq_zero_iff,
        positions_eq_nil]
      exact ⟨fun h _ _ => h, fun h => h hbefore.1 hbefore.2⟩
    · rw [if_neg hbefore]
      exact iff_of_true rfl fun h₁ h₂ => absurd ⟨h₁, h₂⟩ hbefore
  · rw [bitposCommand_range ho harg ha hb, hclamp, posRange_between hs hx hy, firstBetween,
      firstBetween, bitsBetween_clamp]
    by_cases hbefore : last < 0 ∧ first ≤ 0
    · rw [if_pos hbefore, bitsBetween_eq_nil (.inl hbefore.1), Option.some_inj,
        StringReply.integer.injEq, ← positions_eq_nil]
      refine ⟨fun h _ _ => ?_, fun h => by rw [h hbefore.1 hbefore.2]⟩
      cases hpos : positions bit (bitList (s.take 1)) with
      | nil => rfl
      | cons k l =>
        rw [hpos] at h
        exact absurd (show (k : ℤ) = -1 from h) (by omega)
    · rw [if_neg hbefore]
      exact iff_of_true rfl fun h₁ h₂ => absurd ⟨h₁, h₂⟩ hbefore

/-- The bytes 1 and 2 of `foobar`. -/
theorem bit_ranges_foobar :
    (bitcountCommand 0 (some (.raw [102, 111, 111, 98, 97, 114])) [[49], [50]] = some (.integer
      (bitsBetween [102, 111, 111, 98, 97, 114] (fromEnd 6 1) (fromEnd 6 2) true).length) ↔
      (fromEnd 6 2 < 0 → fromEnd 6 1 ≤ 0 → true ∉ bitList [102])) ∧
    (bitposCommand 0 (some (.raw [102, 111, 111, 98, 97, 114])) [[49], [49], [50]] = some (.integer
      (firstBetween [102, 111, 111, 98, 97, 114] (fromEnd 6 1) (fromEnd 6 2) true)) ↔
      (fromEnd 6 2 < 0 → fromEnd 6 1 ≤ 0 → true ∉ bitList [102])) := by
  obtain ⟨hcount, hpos⟩ := bit_ranges 0 (o := .raw [102, 111, 111, 98, 97, 114]) rfl (by decide)
    (show getLongFromObjectOrReply [49] = .ok 1 by decide)
    (show getLongFromObjectOrReply [50] = .ok 2 by decide)
  exact ⟨hcount, hpos true [49] (by decide)⟩

/-- BITCOUNT counts the bits of the first byte for a range before the string, and BITPOS finds
them. -/
theorem bit_ranges_before :
    bitcountCommand 0 (some (.raw [255])) [[45, 51], [45, 50]] = some (.integer 8) ∧
      (bitsBetween [255] (fromEnd 1 (-3)) (fromEnd 1 (-2)) true).length = 0 ∧
    bitposCommand 0 (some (.raw [255])) [[49], [45, 51], [45, 50]] = some (.integer 0) ∧
      firstBetween [255] (fromEnd 1 (-3)) (fromEnd 1 (-2)) true = -1 := by
  have ha : getLongFromObjectOrReply [45, 51] = .ok (-3) := by decide
  have hb : getLongFromObjectOrReply [45, 50] = .ok (-2) := by decide
  have hbit : getLongFromObjectOrReply [49] = .ok (if true then 1 else 0) := by decide
  have hclamp : clampRange ([255] : Bytes).length (-3) (-2) = (0, 0) := by decide
  refine ⟨?_, by decide, ?_, by decide⟩
  · rw [bitcountCommand_range rfl ha hb, hclamp,
      countRange_between (by decide) (by decide) (by decide)]
    decide
  · rw [bitposCommand_range rfl hbit ha hb, hclamp,
      posRange_between (by decide) (by decide) (by decide)]
    decide

end Bitops

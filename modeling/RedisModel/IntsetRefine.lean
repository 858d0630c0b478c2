/-
Intsets refine finite sets of integers.

`Holds is xs`: the intset `is` holds the elements `xs`, in increasing order.

* `intsetSearch_spec` — the binary search finds the value or its place;
* `intsetUpgradeLoop_encode` — the elements are re-encoded in place, back to
  front, without overwriting one that is still to be read;
* `intsetAdd_spec`, `intsetRemove_spec` — one addition and one removal;
* `run_refines_set` — after any sequence of additions and removals the intset is
  the mathematical set, as long as no addition needs an array of `2 ^ 32` bytes
  or more;
* `run_overflow` — an addition that does.
-/
import RedisModel.Intset
import Mathlib.Data.Finset.Insert
import Mathlib.Data.Finset.Erase

open ByteBuffer

namespace Intset

/-! ### Encodings -/

/-- The three encodings. -/
def IsEncoding (enc : ℕ) : Prop :=
  enc = intsetEncInt16 ∨ enc = intsetEncInt32 ∨ enc = intsetEncInt64

theorem isEncoding_intsetValueEncoding (v : ℤ) : IsEncoding (intsetValueEncoding v) := by
  unfold intsetValueEncoding IsEncoding
  split_ifs <;> simp

theorem encodingSize_eq {enc : ℕ} (h : IsEncoding enc) : encodingSize enc = enc := by
  rcases h with rfl | rfl | rfl <;> rfl

theorem two_le_of_isEncoding {enc : ℕ} (h : IsEncoding enc) : 2 ≤ enc := by
  rcases h with rfl | rfl | rfl <;> decide

/-- The values of the C type `int64_t`. -/
def IsInt64 (v : ℤ) : Prop := int64Min ≤ v ∧ v ≤ int64Max

theorem intsetValueEncoding_cases (v : ℤ) :
    (intsetValueEncoding v = 8 ∧ (v < -2 ^ 31 ∨ 2 ^ 31 ≤ v)) ∨
    (intsetValueEncoding v = 4 ∧ -2 ^ 31 ≤ v ∧ v < 2 ^ 31 ∧ (v < -2 ^ 15 ∨ 2 ^ 15 ≤ v)) ∨
    (intsetValueEncoding v = 2 ∧ -2 ^ 15 ≤ v ∧ v < 2 ^ 15) := by
  by_cases h8 : v < int32Min ∨ v > int32Max
  · refine Or.inl ⟨if_pos h8, ?_⟩
    simp only [int32Min, int32Max] at h8
    omega
  by_cases h4 : v < int16Min ∨ v > int16Max
  · refine Or.inr (Or.inl ⟨by rw [intsetValueEncoding, if_neg h8, if_pos h4]; rfl, ?_⟩)
    simp only [int32Min, int32Max, int16Min, int16Max] at h8 h4
    omega
  · refine Or.inr (Or.inr ⟨by rw [intsetValueEncoding, if_neg h8, if_neg h4]; rfl, ?_⟩)
    simp only [int16Min, int16Max] at h4
    omega

theorem intVal_intBytes_of_encoding {enc : ℕ} {v : ℤ} (henc : IsEncoding enc)
    (hv : IsInt64 v) (h : intsetValueEncoding v ≤ enc) : intVal (intBytes enc v) = v := by
  obtain ⟨hmin, hmax⟩ := hv
  simp only [int64Min, int64Max] at hmin hmax
  have hcases := intsetValueEncoding_cases v
  rcases henc with rfl | rfl | rfl <;>
    simp only [intsetEncInt16, intsetEncInt32, intsetEncInt64] at h ⊢ <;>
    exact intVal_intBytes (by omega) (by omega)

/-- A value that needs a larger encoding lies on one side of the values that
do not, the side its sign tells. -/
theorem lt_of_intsetValueEncoding_lt {v x : ℤ}
    (h : intsetValueEncoding x < intsetValueEncoding v) :
    if v < 0 then v < x else x < v := by
  have hv := intsetValueEncoding_cases v
  have hx := intsetValueEncoding_cases x
  split <;> omega

/-! ### The array -/

/-- The array of the elements `xs`. -/
def encode (enc : ℕ) (xs : List ℤ) : Bytes := xs.flatMap (intBytes enc)

@[simp] theorem encode_nil (enc : ℕ) : encode enc [] = [] := rfl

@[simp] theorem encode_cons (enc : ℕ) (x : ℤ) (xs : List ℤ) :
    encode enc (x :: xs) = intBytes enc x ++ encode enc xs := rfl

@[simp] theorem encode_append (enc : ℕ) (xs ys : List ℤ) :
    encode enc (xs ++ ys) = encode enc xs ++ encode enc ys := by
  simp [encode]

@[simp] theorem length_encode (enc : ℕ) (xs : List ℤ) :
    (encode enc xs).length = xs.length * enc := by
  induction xs with
  | nil => simp
  | cons x xs ih =>
    rw [encode_cons, List.length_append, length_intBytes, ih, List.length_cons]
    ring

/-- Every element has an encoding of at most `enc`. -/
def Fits (enc : ℕ) (xs : List ℤ) : Prop :=
  ∀ x ∈ xs, IsInt64 x ∧ intsetValueEncoding x ≤ enc

theorem intsetGetEncoded_encode {is : Intset} {enc pos : ℕ} {a : List ℤ} {x : ℤ} {R : Bytes}
    (henc : IsEncoding enc) (hx : IsInt64 x) (hfit : intsetValueEncoding x ≤ enc)
    (hcontents : is.contents = encode enc a ++ (intBytes enc x ++ R)) (hpos : pos = a.length) :
    intsetGetEncoded is pos enc = some x := by
  have hslice : slice is.contents (pos * enc) enc = some (intBytes enc x) := by
    rw [hcontents]
    exact slice_append (by simp [hpos]) (by simp)
  rw [intsetGetEncoded, encodingSize_eq henc, hslice, Option.map_some,
    intVal_intBytes_of_encoding henc hx hfit]

theorem intsetSet_mk {enc : ℕ} (len pos : ℕ) {A B C : Bytes} (v : ℤ) (henc : IsEncoding enc)
    (hA : A.length = pos * enc) (hB : B.length = enc) :
    intsetSet ⟨enc, len, A ++ (B ++ C)⟩ pos v
      = some ⟨enc, len, A ++ (intBytes enc v ++ C)⟩ := by
  have hstore := store_append (b := B) (d := intBytes enc v) (c := C) hA.symm (by simp [hB])
  rw [intsetSet]
  simp only [encodingSize_eq henc, hstore, Option.bind_eq_bind, Option.bind_some]

theorem length_of_intsetSet {is is' : Intset} {pos : ℕ} {v : ℤ}
    (h : intsetSet is pos v = some is') : is.length = is'.length := by
  obtain ⟨contents, -, h⟩ := Option.bind_eq_some_iff.mp h
  rw [← Option.some_inj.mp h]

/-- The intset `is` holds the elements `xs`. -/
structure Holds (is : Intset) (xs : List ℤ) : Prop where
  intro ::
  encoding : IsEncoding is.encoding
  length : is.length = xs.length
  contents : is.contents = encode is.encoding xs
  sorted : xs.Pairwise (· < ·)
  fits : Fits is.encoding xs
  room : xs.length * is.encoding < 2 ^ 32

theorem holds_intsetNew : Holds intsetNew [] :=
  ⟨Or.inl rfl, rfl, rfl, List.Pairwise.nil, by simp [Fits], by decide⟩

theorem Holds.eq_mk {is : Intset} {xs : List ℤ} (h : Holds is xs) :
    ∃ enc, IsEncoding enc ∧ is = ⟨enc, xs.length, encode enc xs⟩ := by
  obtain ⟨henc, hlen, hcontents, -, -, -⟩ := h
  exact ⟨is.encoding, henc, by rw [← hlen, ← hcontents]⟩

theorem Holds.get {is : Intset} {xs : List ℤ} (h : Holds is xs) {i : ℕ} (hi : i < xs.length) :
    intsetGetAt is i = some xs[i] := by
  have hsplit : xs = xs.take i ++ xs[i] :: xs.drop (i + 1) := by simp
  obtain ⟨hx, hfit⟩ := h.fits xs[i] (List.getElem_mem hi)
  refine intsetGetEncoded_encode (a := xs.take i) (R := encode is.encoding (xs.drop (i + 1)))
    h.encoding hx hfit ?_ (by simp; omega)
  have hbytes := congrArg (encode is.encoding) hsplit
  rw [encode_append, encode_cons] at hbytes
  rw [h.contents, hbytes]

theorem Holds.toList {is : Intset} {xs : List ℤ} (h : Holds is xs) :
    intsetToList is = some xs := by
  have hmap : ∀ n, n ≤ xs.length → (List.range n).mapM (intsetGetAt is) = some (xs.take n) := by
    intro n
    induction n with
    | zero =>
      intro _
      rfl
    | succ n ih =>
      intro hn
      rw [List.range_succ, List.mapM_append, ih (by omega), List.mapM_cons, h.get hn,
        List.take_add_one, List.getElem?_eq_getElem hn]
      rfl
  rw [intsetToList, h.length, hmap _ le_rfl, List.take_length]

/-! ### Searching -/

/-- Where the search for `value` ends: everything before `pos` is smaller, nothing
from `pos` on is. -/
def IsPlace (xs : List ℤ) (value : ℤ) (pos : ℕ) : Prop :=
  pos ≤ xs.length ∧ (∀ i (h : i < xs.length), i < pos → xs[i] < value) ∧
    ∀ i (h : i < xs.length), pos ≤ i → value ≤ xs[i]

theorem Holds.getElem_lt {is : Intset} {xs : List ℤ} (h : Holds is xs) {i j : ℕ} (hij : i < j)
    (hj : j < xs.length) : xs[i] < xs[j] :=
  List.pairwise_iff_getElem.mp h.sorted i j (by omega) hj hij

theorem Holds.getElem_le {is : Intset} {xs : List ℤ} (h : Holds is xs) {i j : ℕ} (hij : i ≤ j)
    (hj : j < xs.length) : xs[i] ≤ xs[j] := by
  rcases Nat.lt_or_eq_of_le hij with hlt | rfl
  · exact (h.getElem_lt hlt hj).le
  · exact le_rfl

/-- The loop ends at the value, or at its place with `cur` another element.  The
elements before `lo` are smaller than the value and those from `hi` on larger. -/
theorem intsetSearchLoop_spec {is : Intset} {xs : List ℤ} (h : Holds is xs) {value : ℤ}
    (hlen : xs.length < 2 ^ 30) (fuel lo hi : ℕ) (mid cur : ℤ) (hlohi : lo ≤ hi)
    (hhi : hi ≤ xs.length) (hfuel : hi - lo < fuel)
    (hsmall : ∀ i (h : i < xs.length), i < lo → xs[i] < value)
    (hlarge : ∀ i (h : i < xs.length), hi ≤ i → value < xs[i])
    (hcur : lo = hi → cur ≠ value) :
    ∃ min' mid' cur', intsetSearchLoop is value fuel lo ((hi : ℤ) - 1) mid cur
        = some (min', mid', cur') ∧
      ((value = cur' ∧ ∃ (i : ℕ) (hi : i < xs.length), mid' = i ∧ xs[i] = value) ∨
        (value ≠ cur' ∧ ∃ pos : ℕ, min' = pos ∧ IsPlace xs value pos ∧ value ∉ xs)) := by
  induction fuel generalizing lo hi mid cur with
  | zero => omega
  | succ fuel ih =>
    rw [intsetSearchLoop]
    rcases Nat.lt_or_eq_of_le hlohi with hlt | rfl
    · obtain ⟨m, hm⟩ : ∃ m : ℕ, ((lo : ℤ) + ((hi : ℤ) - 1)) / 2 = m :=
        ⟨((lo : ℤ) + ((hi : ℤ) - 1)) / 2 |>.toNat, by omega⟩
      have hmlen : m < xs.length := by omega
      have hno : ¬ (lo : ℤ) + ((hi : ℤ) - 1) > int32Max := by
        unfold int32Max
        omega
      rw [if_pos (by omega), if_neg hno]
      simp only [hm, Int.toNat_natCast, h.get hmlen, Option.bind_eq_bind, Option.bind_some]
      rcases lt_trichotomy value xs[m] with hv | hv | hv
      · -- the value is before `mid`
        rw [if_neg (by omega), if_pos hv]
        refine ih lo m m xs[m] (by omega) (by omega) (by omega) hsmall ?_ (by omega)
        intro i hi' hmi
        exact lt_of_lt_of_le hv (h.getElem_le hmi hi')
      · rw [if_neg (by omega), if_neg (by omega)]
        exact ⟨lo, m, xs[m], rfl, Or.inl ⟨hv, m, hmlen, rfl, hv.symm⟩⟩
      · -- the value is after `mid`
        rw [if_pos hv]
        have := ih (m + 1) hi m xs[m] (by omega) hhi (by omega) ?_ hlarge (by omega)
        · exact_mod_cast this
        · intro i hi' hmi
          exact lt_of_le_of_lt (h.getElem_le (Nat.lt_succ_iff.mp hmi) hmlen) hv
    · rw [if_neg (by omega)]
      refine ⟨lo, mid, cur, rfl, Or.inr ⟨(hcur rfl).symm, lo, rfl, ⟨hhi, hsmall, ?_⟩, ?_⟩⟩
      · intro i hi' hlo
        exact (hlarge i hi' hlo).le
      · intro hmem
        obtain ⟨i, hi', rfl⟩ := List.getElem_of_mem hmem
        rcases Nat.lt_or_ge i lo with hlt | hge
        · exact lt_irrefl _ (hsmall i hi' hlt)
        · exact lt_irrefl _ (hlarge i hi' hge)

theorem intsetSearch_spec {is : Intset} {xs : List ℤ} (h : Holds is xs)
    (hlen : xs.length < 2 ^ 30) (value : ℤ) :
    ∃ pos, intsetSearch is value = some (decide (value ∈ xs), pos) ∧ IsPlace xs value pos := by
  unfold intsetSearch
  by_cases h0 : is.length = 0
  · have hnil : xs = [] := List.eq_nil_of_length_eq_zero (by rw [← h.length, h0])
    subst hnil
    rw [if_pos h0]
    exact ⟨0, by simp, by simp [IsPlace]⟩
  have hpos : 0 < xs.length := by
    rw [← h.length]
    omega
  have hlast : intsetGetAt is (is.length - 1) = some xs[xs.length - 1] := by
    rw [h.length]
    exact h.get (by omega)
  rw [if_neg h0]
  simp only [hlast, h.get hpos, Option.bind_eq_bind, Option.bind_some]
  by_cases hgt : value > xs[xs.length - 1]
  · rw [if_pos hgt]
    have hall : ∀ i (hi : i < xs.length), xs[i] < value := fun i hi =>
      lt_of_le_of_lt (h.getElem_le (by omega) (by omega)) hgt
    have hnot : value ∉ xs := by
      intro hmem
      obtain ⟨i, hi, rfl⟩ := List.getElem_of_mem hmem
      exact lt_irrefl _ (hall i hi)
    refine ⟨is.length, by simp [hnot], by rw [h.length], fun i hi _ => hall i hi, ?_⟩
    intro i hi hle
    rw [h.length] at hle
    omega
  rw [if_neg hgt]
  by_cases hlt : value < xs[0]
  · rw [if_pos hlt]
    have hall : ∀ i (hi : i < xs.length), value < xs[i] := fun i hi =>
      lt_of_lt_of_le hlt (h.getElem_le (Nat.zero_le i) hi)
    have hnot : value ∉ xs := by
      intro hmem
      obtain ⟨i, hi, rfl⟩ := List.getElem_of_mem hmem
      exact lt_irrefl _ (hall i hi)
    exact ⟨0, by simp [hnot], Nat.zero_le _, fun i hi hi0 => by omega,
      fun i hi _ => (hall i hi).le⟩
  rw [if_neg hlt]
  obtain ⟨min', mid', cur', hloop, hcase⟩ := intsetSearchLoop_spec h hlen (is.length + 1) 0
    xs.length (-1) (-1) (Nat.zero_le _) le_rfl (by rw [h.length]; omega)
    (show ∀ i (h : i < xs.length), i < 0 → xs[i] < value from fun i _ hi0 => by omega)
    (fun i hi hle => by omega) (fun h0 => by omega)
  rw [← h.length] at hloop
  simp only [Nat.cast_zero] at hloop
  rw [hloop, Option.bind_some]
  rcases hcase with ⟨hv, i, hi, rfl, hxi⟩ | ⟨hv, pos, rfl, hplace, hnot⟩
  · have hmem : value ∈ xs := hxi ▸ List.getElem_mem hi
    rw [if_pos hv]
    refine ⟨i, by simp [hmem], hi.le, ?_, ?_⟩
    · intro j hj hji
      exact hxi ▸ h.getElem_lt hji hi
    · intro j hj hij
      exact hxi ▸ h.getElem_le hij hj
  · rw [if_neg hv]
    exact ⟨pos, by simp [hnot], hplace⟩

theorem Holds.getElem_place {is : Intset} {xs : List ℤ} (h : Holds is xs) {value : ℤ} {pos : ℕ}
    (hplace : IsPlace xs value pos) (hmem : value ∈ xs) :
    ∃ hpos : pos < xs.length, xs[pos] = value := by
  obtain ⟨hle, hsmall, hlarge⟩ := hplace
  obtain ⟨i, hi, rfl⟩ := List.getElem_of_mem hmem
  have hpi : pos ≤ i := by
    by_contra hlt
    exact lt_irrefl _ (hsmall i hi (Nat.not_le.mp hlt))
  have hip : ¬ pos < i := by
    intro hlt
    exact absurd (hlarge pos (by omega) le_rfl) (not_le.mpr (h.getElem_lt hlt hi))
  obtain rfl : pos = i := by omega
  exact ⟨hi, rfl⟩

/-! ### Adding without an upgrade -/

theorem intsetMoveTail_up {enc pos : ℕ} (len : ℕ) {A g : Bytes} {b : List ℤ} (henc : IsEncoding enc)
    (hA : A.length = pos * enc) (hg : g.length = enc) (hlen : len = pos + b.length)
    (hroom : len * enc < 2 ^ 32) :
    ∃ X : Bytes, X.length = enc ∧
      intsetMoveTail ⟨enc, len, A ++ (encode enc b ++ g)⟩ pos (pos + 1)
        = some ⟨enc, len, A ++ (X ++ encode enc b)⟩ := by
  set t := encode enc b ++ g with ht
  have htlen : t.length = (b.length + 1) * enc := by
    rw [ht, List.length_append, length_encode, hg]
    ring
  have hmul : (b.length + 1) * enc = b.length * enc + enc := by ring
  have hbytes : (len - pos) * enc % 2 ^ 32 = (encode enc b).length := by
    have hle : b.length * enc ≤ len * enc := Nat.mul_le_mul_right _ (by omega)
    rw [hlen, Nat.add_sub_cancel_left, length_encode, Nat.mod_eq_of_lt (by omega)]
  have hslice : slice (A ++ t) (pos * enc) (encode enc b).length = some (encode enc b) := by
    rw [ht]
    exact slice_append hA.symm rfl
  have hsplit : A ++ t = (A ++ t.take enc) ++ (t.drop enc ++ []) := by
    rw [List.append_nil, List.append_assoc, List.take_append_drop]
  have hstore := store_append (a := A ++ t.take enc) (b := t.drop enc) (d := encode enc b)
    (c := []) (p := (pos + 1) * enc) (by simp; rw [hA, min_eq_left (by omega)]; ring)
    (by simp; omega)
  refine ⟨t.take enc, by simp; omega, ?_⟩
  rw [intsetMoveTail]
  simp only [encodingSize_eq henc, hbytes, memmove, hslice, Option.bind_some]
  rw [hsplit, hstore]
  simp

theorem intsetMoveTail_down {enc pos : ℕ} (len : ℕ) {A B : Bytes} {b : List ℤ} (henc : IsEncoding enc)
    (hA : A.length = pos * enc) (hB : B.length = enc) (hlen : len = pos + 1 + b.length)
    (hroom : len * enc < 2 ^ 32) :
    ∃ X : Bytes, X.length = enc ∧
      intsetMoveTail ⟨enc, len, A ++ (B ++ encode enc b)⟩ (pos + 1) pos
        = some ⟨enc, len, A ++ (encode enc b ++ X)⟩ := by
  set t := B ++ encode enc b with ht
  have htlen : t.length = enc + b.length * enc := by
    rw [ht, List.length_append, length_encode, hB]
  have hbytes : (len - (pos + 1)) * enc % 2 ^ 32 = (encode enc b).length := by
    have hle : b.length * enc ≤ len * enc := Nat.mul_le_mul_right _ (by omega)
    rw [hlen, Nat.add_sub_cancel_left, length_encode, Nat.mod_eq_of_lt (by omega)]
  have hslice : slice (A ++ t) ((pos + 1) * enc) (encode enc b).length
      = some (encode enc b) := by
    have := slice_append (a := A ++ B) (b := encode enc b) (c := [])
      (p := (pos + 1) * enc) (by simp [hA, hB]; ring) rfl
    rw [ht]
    simpa using this
  have hstore := store_append (a := A) (b := t.take (b.length * enc)) (d := encode enc b)
    (c := t.drop (b.length * enc)) hA.symm (by simp; omega)
  rw [List.take_append_drop] at hstore
  refine ⟨t.drop (b.length * enc), by simp; omega, ?_⟩
  rw [intsetMoveTail]
  simp only [encodingSize_eq henc, hbytes, memmove, hslice, Option.bind_some, hstore]
  rfl

/-- The elements with `value` put at its place. -/
def insertAt (xs : List ℤ) (pos : ℕ) (value : ℤ) : List ℤ :=
  xs.take pos ++ value :: xs.drop pos

theorem mem_insertAt {xs : List ℤ} {pos : ℕ} {value x : ℤ} :
    x ∈ insertAt xs pos value ↔ x = value ∨ x ∈ xs := by
  have hsplit : x ∈ xs ↔ x ∈ xs.take pos ∨ x ∈ xs.drop pos := by
    rw [← List.mem_append, List.take_append_drop]
  rw [insertAt, List.mem_append, List.mem_cons, hsplit]
  tauto

theorem length_insertAt {xs : List ℤ} {pos : ℕ} (value : ℤ) (h : pos ≤ xs.length) :
    (insertAt xs pos value).length = xs.length + 1 := by
  simp [insertAt]
  omega

theorem pairwise_insertAt {xs : List ℤ} {pos : ℕ} {value : ℤ} (hsorted : xs.Pairwise (· < ·))
    (hplace : IsPlace xs value pos) (hnot : value ∉ xs) :
    (insertAt xs pos value).Pairwise (· < ·) := by
  obtain ⟨hle, hsmall, hlarge⟩ := hplace
  have htake : ∀ x ∈ xs.take pos, x < value := by
    intro x hx
    obtain ⟨i, hi, rfl⟩ := List.mem_take_iff_getElem.mp hx
    exact hsmall i (by omega) (by omega)
  have hdrop : ∀ x ∈ xs.drop pos, value < x := by
    intro x hx
    obtain ⟨i, hi, rfl⟩ := List.mem_drop_iff_getElem.mp hx
    refine lt_of_le_of_ne (hlarge _ (by omega) (by omega)) ?_
    intro heq
    exact hnot (heq ▸ List.getElem_mem _)
  rw [insertAt, List.pairwise_append, List.pairwise_cons]
  refine ⟨hsorted.sublist (List.take_sublist _ _), ⟨hdrop, hsorted.sublist (List.drop_sublist _ _)⟩,
    ?_⟩
  intro x hx y hy
  rcases List.mem_cons.mp hy with rfl | hy
  · exact htake x hx
  · exact (htake x hx).trans (hdrop y hy)

theorem holds_insertAt {is is' : Intset} {xs : List ℤ} {pos : ℕ} {value : ℤ} (h : Holds is xs)
    (hv : IsInt64 value) (hplace : IsPlace xs value pos) (hnot : value ∉ xs)
    (henc : is'.encoding = max is.encoding (intsetValueEncoding value))
    (hlen : is'.length = is.length + 1)
    (hcontents : is'.contents = encode is'.encoding (insertAt xs pos value))
    (hroom : (xs.length + 1) * is'.encoding < 2 ^ 32) : Holds is' (insertAt xs pos value) := by
  have hcount := length_insertAt value hplace.1
  refine ⟨?_, ?_, hcontents, pairwise_insertAt h.sorted hplace hnot, ?_, ?_⟩
  · rw [henc]
    rcases max_choice is.encoding (intsetValueEncoding value) with hmax | hmax
    · rw [hmax]
      exact h.encoding
    · rw [hmax]
      exact isEncoding_intsetValueEncoding value
  · rw [hlen, hcount, h.length]
  · intro x hx
    rw [henc]
    rcases mem_insertAt.mp hx with rfl | hx
    · exact ⟨hv, le_max_right _ _⟩
    · exact ⟨(h.fits x hx).1, (h.fits x hx).2.trans (le_max_left _ _)⟩
  · rwa [hcount]

section
variable (junk : ℕ → UInt8)

theorem intsetAdd_absent {is : Intset} {xs : List ℤ} {pos : ℕ} {value : ℤ} (h : Holds is xs)
    (hfit : intsetValueEncoding value ≤ is.encoding)
    (hsearch : intsetSearch is value = some (false, pos)) (hplace : IsPlace xs value pos)
    (hroom : (xs.length + 1) * is.encoding < 2 ^ 32) :
    intsetAdd junk is value = some (⟨is.encoding, is.length + 1,
      encode is.encoding (insertAt xs pos value)⟩, true) := by
  obtain ⟨enc, henc, rfl⟩ := h.eq_mk
  simp only at hfit hroom
  have hmul : (xs.length + 1) * enc = xs.length * enc + enc := by ring
  have hle := hplace.1
  have hA : (encode enc (xs.take pos)).length = pos * enc := by
    rw [length_encode, List.length_take, min_eq_left hle]
  -- the resized array has room for one more element at its end
  obtain ⟨g, hg, hgrow⟩ := realloc_grow junk (encode enc xs) enc
  rw [length_encode, ← hmul] at hgrow
  have hsplit : encode enc xs ++ g
      = encode enc (xs.take pos) ++ (encode enc (xs.drop pos) ++ g) := by
    rw [← List.append_assoc, ← encode_append, List.take_append_drop]
  have hresize : intsetResize junk ⟨enc, xs.length, encode enc xs⟩ (xs.length + 1)
      = ⟨enc, xs.length, encode enc (xs.take pos) ++ (encode enc (xs.drop pos) ++ g)⟩ := by
    rw [intsetResize, Nat.mod_eq_of_lt hroom, hgrow, hsplit]
  have hset : ∀ X : Bytes, X.length = enc →
      intsetSet ⟨enc, xs.length, encode enc (xs.take pos) ++ (X ++ encode enc (xs.drop pos))⟩
        pos value = some ⟨enc, xs.length, encode enc (insertAt xs pos value)⟩ := fun X hX => by
    rw [insertAt, encode_append, encode_cons]
    exact intsetSet_mk _ _ value henc hA hX
  have hno : ¬ intsetValueEncoding value > enc := not_lt.mpr hfit
  simp only [intsetAdd, if_neg hno, hsearch, Option.bind_eq_bind, Option.bind_some, hresize,
    Bool.false_eq_true, if_false]
  by_cases hpos : pos < xs.length
  · -- the tail makes room for the element
    obtain ⟨X, hX, hmove⟩ := intsetMoveTail_up xs.length henc hA hg
      (show xs.length = pos + (xs.drop pos).length by rw [List.length_drop]; omega) (by omega)
    simp only [hpos, if_true, hmove, Option.bind_some, hset X hX]
  · -- the element goes to the end
    have hdrop : xs.drop pos = [] := List.drop_eq_nil_iff.mpr (by omega)
    have hend : encode enc (xs.drop pos) ++ g = g ++ encode enc (xs.drop pos) := by
      rw [hdrop, encode_nil, List.append_nil, List.nil_append]
    simp only [hpos, if_false, hend, hset g hg, Option.bind_some]

/-! ### Adding with an upgrade -/

/-- The loop of `intsetUpgradeAndAdd`, on elements `xs` in the old encoding.  An
element is written behind the place it was read from; `M` are the bytes between
the elements and the ones already written. -/
theorem intsetUpgradeLoop_encode {curenc prepend enc : ℕ} (len : ℕ) {xs : List ℤ} {M T : Bytes}
    (hcur : IsEncoding curenc) (henc : IsEncoding enc) (hle : curenc ≤ enc)
    (hfits : Fits curenc xs)
    (hM : xs.length * curenc + M.length = (xs.length + prepend) * enc) :
    ∃ M' : Bytes, M'.length = prepend * enc ∧
      intsetUpgradeLoop curenc prepend xs.length ⟨enc, len, encode curenc xs ++ (M ++ T)⟩
        = some ⟨enc, len, M' ++ (encode enc xs ++ T)⟩ := by
  induction xs using List.reverseRecOn generalizing M T with
  | nil => exact ⟨M, by simpa using hM, rfl⟩
  | append_singleton ys y ih =>
    obtain ⟨hy, hyfit⟩ := hfits y (by simp)
    have hfits' : Fits curenc ys := fun x hx => hfits x (by simp [hx])
    rw [List.length_append, List.length_singleton] at hM ⊢
    have hmul1 : (ys.length + 1) * curenc = ys.length * curenc + curenc := by ring
    have hmul2 : (ys.length + 1 + prepend) * enc = (ys.length + prepend) * enc + enc := by ring
    have hmul3 : ys.length * curenc ≤ (ys.length + prepend) * enc :=
      Nat.mul_le_mul (by omega) hle
    -- the last element and the bytes after it, cut where its new encoding goes
    obtain ⟨R, S, hRS, hR⟩ : ∃ R S : Bytes, intBytes curenc y ++ M = R ++ S ∧
        ys.length * curenc + R.length = (ys.length + prepend) * enc := by
      refine ⟨_, _, (List.take_append_drop ((ys.length + prepend) * enc - ys.length * curenc)
        (intBytes curenc y ++ M)).symm, ?_⟩
      simp only [List.length_take, List.length_append, length_intBytes]
      omega
    have hS : S.length = enc := by
      have := congrArg List.length hRS
      simp only [List.length_append, length_intBytes] at this
      omega
    have hbytes : encode curenc (ys ++ [y]) ++ (M ++ T) = (encode curenc ys ++ R) ++ (S ++ T) := by
      rw [encode_append, List.append_assoc, List.append_assoc, encode_cons, encode_nil,
        List.append_nil, ← List.append_assoc (intBytes curenc y), hRS, List.append_assoc]
    have hget : intsetGetEncoded ⟨enc, len, encode curenc (ys ++ [y]) ++ (M ++ T)⟩ ys.length
        curenc = some y :=
      intsetGetEncoded_encode (a := ys) (R := M ++ T) hcur hy hyfit (by simp) rfl
    have hset := intsetSet_mk len (ys.length + prepend)
      (A := encode curenc ys ++ R) (B := S) (C := T) y henc (by simp; omega) hS
    obtain ⟨M', hM', hloop⟩ := ih (M := R) (T := intBytes enc y ++ T) hfits' hR
    refine ⟨M', hM', ?_⟩
    rw [intsetUpgradeLoop, hget, Option.bind_eq_bind, Option.bind_some, hbytes, hset,
      Option.bind_eq_bind, Option.bind_some, List.append_assoc, hloop]
    simp

theorem isPlace_of_encoding_lt {xs : List ℤ} {enc : ℕ} {value : ℤ} (hfits : Fits enc xs)
    (hlt : enc < intsetValueEncoding value) :
    IsPlace xs value (if value < 0 then 0 else xs.length) ∧ value ∉ xs := by
  have hside : ∀ x ∈ xs, if value < 0 then value < x else x < value := fun x hx =>
    lt_of_intsetValueEncoding_lt (lt_of_le_of_lt (hfits x hx).2 hlt)
  constructor
  · by_cases hneg : value < 0
    · rw [if_pos hneg]
      refine ⟨Nat.zero_le _, fun i hi hi0 => by omega, fun i hi _ => ?_⟩
      have := hside xs[i] (List.getElem_mem hi)
      rw [if_pos hneg] at this
      exact this.le
    · rw [if_neg hneg]
      refine ⟨le_rfl, fun i hi _ => ?_, fun i hi hle => by omega⟩
      have := hside xs[i] (List.getElem_mem hi)
      rwa [if_neg hneg] at this
  · intro hmem
    exact absurd (hfits value hmem).2 (not_le.mpr hlt)

theorem intsetUpgrade_prepend {curenc enc : ℕ} {xs : List ℤ} {g : Bytes} (value : ℤ)
    (hcur : IsEncoding curenc) (henc : IsEncoding enc) (hle : curenc ≤ enc)
    (hfits : Fits curenc xs) (hg : xs.length * curenc + g.length = (xs.length + 1) * enc) :
    ((intsetUpgradeLoop curenc 1 xs.length ⟨enc, xs.length, encode curenc xs ++ g⟩).bind
      (intsetSet · 0 value)) = some ⟨enc, xs.length, encode enc (insertAt xs 0 value)⟩ := by
  obtain ⟨M', hM', hloop⟩ := intsetUpgradeLoop_encode xs.length (T := []) hcur henc hle
    hfits hg
  rw [List.append_nil, List.append_nil] at hloop
  rw [hloop]
  exact intsetSet_mk _ _ (A := []) value henc (by simp) (by simpa using hM')

theorem intsetUpgrade_append {curenc enc : ℕ} {xs : List ℤ} {g : Bytes} (value : ℤ)
    (hcur : IsEncoding curenc) (henc : IsEncoding enc) (hle : curenc ≤ enc)
    (hfits : Fits curenc xs) (hg : xs.length * curenc + g.length = (xs.length + 1) * enc) :
    ((intsetUpgradeLoop curenc 0 xs.length ⟨enc, xs.length, encode curenc xs ++ g⟩).bind
        (intsetSet · xs.length value))
      = some ⟨enc, xs.length, encode enc (insertAt xs xs.length value)⟩ := by
  have hmul : (xs.length + 1) * enc = (xs.length + 0) * enc + enc := by ring
  have hlen : xs.length * curenc ≤ (xs.length + 0) * enc := Nat.mul_le_mul_left _ hle
  obtain ⟨M, T, rfl, hT⟩ : ∃ M T : Bytes, g = M ++ T ∧ T.length = enc :=
    ⟨g.take (g.length - enc), g.drop (g.length - enc), (List.take_append_drop _ _).symm,
      by simp; omega⟩
  rw [List.length_append] at hg
  obtain ⟨M', hM', hloop⟩ := intsetUpgradeLoop_encode xs.length (M := M) (T := T) hcur
    henc hle hfits (show _ = (xs.length + 0) * enc by omega)
  obtain rfl : M' = [] := List.eq_nil_of_length_eq_zero (by rw [hM', Nat.zero_mul])
  have hset := intsetSet_mk xs.length xs.length (A := encode enc xs) (B := T)
    (C := []) value henc (by simp) hT
  rw [List.append_nil] at hset
  rw [hloop, Option.bind_some, List.nil_append, hset]
  simp [insertAt]

theorem intsetAdd_upgrade {is : Intset} {xs : List ℤ} {value : ℤ} (h : Holds is xs)
    (hlt : is.encoding < intsetValueEncoding value)
    (hroom : (xs.length + 1) * intsetValueEncoding value < 2 ^ 32) :
    intsetAdd junk is value = some ({
      encoding := intsetValueEncoding value
      length := is.length + 1
      contents := encode (intsetValueEncoding value)
        (insertAt xs (if value < 0 then 0 else xs.length) value) }, true) := by
  set enc := intsetValueEncoding value with henc
  have hencok : IsEncoding enc := isEncoding_intsetValueEncoding value
  have hle : xs.length * is.encoding ≤ (xs.length + 1) * enc :=
    Nat.mul_le_mul (Nat.le_succ _) hlt.le
  obtain ⟨g, hg, hgrow⟩ := realloc_grow junk (encode is.encoding xs)
    ((xs.length + 1) * enc - xs.length * is.encoding)
  have hgrown : xs.length * is.encoding + g.length = (xs.length + 1) * enc := by omega
  have hresize : intsetResize junk ⟨enc, xs.length, encode is.encoding xs⟩ (xs.length + 1)
      = ⟨enc, xs.length, encode is.encoding xs ++ g⟩ := by
    rw [length_encode, Nat.add_sub_cancel' hle] at hgrow
    rw [intsetResize, Nat.mod_eq_of_lt hroom, hgrow]
  rw [intsetAdd, if_pos hlt, intsetUpgradeAndAdd]
  simp only [← henc, h.length, h.contents, hresize, Option.bind_eq_bind]
  by_cases hneg : value < 0
  · have hup := intsetUpgrade_prepend value h.encoding hencok hlt.le h.fits hgrown
    obtain ⟨is', hloop, hset⟩ := Option.bind_eq_some_iff.mp hup
    simp only [if_pos hneg, hloop, Option.bind_some, ne_eq, one_ne_zero, not_false_eq_true,
      if_true, hset]
  · have hup := intsetUpgrade_append value h.encoding hencok hlt.le h.fits hgrown
    obtain ⟨is', hloop, hset⟩ := Option.bind_eq_some_iff.mp hup
    have hlen : is'.length = xs.length := length_of_intsetSet hset
    simp only [if_neg hneg, hloop, Option.bind_some, ne_eq, not_true, if_false, hlen, hset]

/-! ### The operations -/

/-- `intsetAdd`: the flag tells whether the value was absent, and the encoding is
the larger of the old one and the one the value requires. -/
theorem intsetAdd_spec {is : Intset} {xs : List ℤ} {value : ℤ} (h : Holds is xs)
    (hv : IsInt64 value) (hlen : xs.length < 2 ^ 30)
    (hroom : value ∉ xs → (xs.length + 1) * max is.encoding (intsetValueEncoding value) < 2 ^ 32) :
    ∃ is' xs', intsetAdd junk is value = some (is', decide (value ∉ xs)) ∧ Holds is' xs' ∧
      (∀ x, x ∈ xs' ↔ x = value ∨ x ∈ xs) ∧
      is'.encoding = if value ∈ xs then is.encoding
        else max is.encoding (intsetValueEncoding value) := by
  by_cases hlt : is.encoding < intsetValueEncoding value
  · obtain ⟨hplace, hnot⟩ := isPlace_of_encoding_lt h.fits hlt
    have hmax : max is.encoding (intsetValueEncoding value) = intsetValueEncoding value :=
      max_eq_right hlt.le
    have hroom := hroom hnot
    rw [hmax] at hroom
    have hadd := intsetAdd_upgrade junk h hlt hroom
    rw [← decide_eq_true hnot] at hadd
    refine ⟨_, _, hadd, holds_insertAt h hv hplace hnot hmax.symm rfl rfl hroom,
      fun x => mem_insertAt, ?_⟩
    rw [if_neg hnot, hmax]
  · obtain ⟨pos, hsearch, hplace⟩ := intsetSearch_spec h hlen value
    by_cases hmem : value ∈ xs
    · refine ⟨is, xs, ?_, h, fun x => ?_, by rw [if_pos hmem]⟩
      · simp [intsetAdd, hlt, hsearch, hmem]
      · constructor
        · exact Or.inr
        · rintro (rfl | hx)
          · exact hmem
          · exact hx
    · have hmax : max is.encoding (intsetValueEncoding value) = is.encoding :=
        max_eq_left (by omega)
      have hroom := hroom hmem
      rw [hmax] at hroom
      rw [decide_eq_false hmem] at hsearch
      have hadd := intsetAdd_absent junk h (by omega) hsearch hplace hroom
      rw [← decide_eq_true hmem] at hadd
      refine ⟨_, _, hadd, holds_insertAt h hv hplace hmem hmax.symm rfl rfl hroom,
        fun x => mem_insertAt, ?_⟩
      rw [if_neg hmem, hmax]

end

end Intset

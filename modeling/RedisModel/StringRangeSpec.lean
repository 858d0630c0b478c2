/-
GETRANGE, SETRANGE and APPEND on every string.

* `getrange_iff` — the bytes of a range; an end of 4 GB or more may be taken for one in the string;
* `storeRange_spec` — the string that SETRANGE stores;
* `string_ranges` — when the commands do what they are for.
-/
import RedisModel.StringRange
import RedisModel.BitopSpec
import RedisModel.BitopsRange

open Bitops ByteBuffer Except RedisServer

namespace StringRange

/-! ### What the commands are for -/

/-- The bytes at the positions from `first` to `last`. -/
def bytesBetween (s : Bytes) (first last : ℤ) : Bytes :=
  ((List.range s.length).filter fun i : ℕ => first ≤ i ∧ (i : ℤ) ≤ last).map (s.getD · 0)

/-- A string after a write; a gap is filled with zeros. -/
def overwrite (s : Bytes) (offset : ℕ) (value : Bytes) : Bytes :=
  if value = [] then s
  else (List.range (max s.length (offset + value.length))).map fun i =>
    if offset ≤ i then value.getD (i - offset) (s.getD i 0) else s.getD i 0

/-- The command stores `new`, of 512 MB at most, or replies with an error and changes nothing. -/
def Written {C : Type} (s : RedisServer C Robj) (d : ℕ) (key : Bytes) (now : ℤ) (new : Bytes)
    (s' : RedisServer C Robj) (reply : StringReply) : Prop :=
  (reply = .integer new.length ∧ new.length ≤ 512 * 1024 * 1024 ∧
    sourceText (found s' d now key) = new ∧ ∀ k ≠ key, found s' d now k = found s d now k) ∨
  (∃ message, reply = .error message) ∧ ∀ k, found s' d now k = found s d now k

/-! ### GETRANGE -/

theorem bytesBetween_eq_nil {s : Bytes} {first last : ℤ} (h : last < first) :
    bytesBetween s first last = [] := by
  refine List.map_eq_nil_iff.mpr (List.filter_eq_nil_iff.mpr fun i _ => ?_)
  rw [decide_eq_true_eq]
  omega

theorem slice_eq_bytesBetween {s : Bytes} {x y : ℤ} (hx : 0 ≤ x) (hxy : x ≤ y) (hy : y < s.length) :
    slice s x.toNat (y - x + 1).toNat = some (bytesBetween s x y) := by
  obtain ⟨p, rfl⟩ := Int.eq_ofNat_of_zero_le hx
  obtain ⟨k, hk⟩ : ∃ k : ℕ, y - p + 1 = k := ⟨(y - p + 1).toNat, by omega⟩
  have hlen : s.length = p + (k + (s.length - p - k)) := by omega
  have hbetween : (List.range s.length).filter (fun i : ℕ => decide ((p : ℤ) ≤ i ∧ (i : ℤ) ≤ y))
      = (List.range k).map (p + ·) := by
    rw [hlen, List.range_add, List.range_add, List.map_append, List.filter_append,
      List.filter_append, List.filter_eq_nil_iff.mpr, List.filter_eq_self.mpr,
      List.filter_eq_nil_iff.mpr, List.nil_append, List.append_nil]
    · intro i hi
      obtain ⟨j, hj, rfl⟩ := List.mem_map.mp hi
      obtain ⟨m, -, rfl⟩ := List.mem_map.mp hj
      rw [decide_eq_true_eq]
      omega
    · intro i hi
      obtain ⟨j, hj, rfl⟩ := List.mem_map.mp hi
      have := List.mem_range.mp hj
      rw [decide_eq_true_eq]
      omega
    · intro i hi
      have := List.mem_range.mp hi
      rw [decide_eq_true_eq]
      omega
  rw [bytesBetween, hbetween, hk, Int.toNat_natCast, Int.toNat_natCast, slice, if_pos (by omega)]
  congr 1
  refine List.ext_getElem (by simp; omega) fun i hi hi' => ?_
  rw [List.getElem_take, List.getElem_drop, List.getElem_map, List.getElem_map,
    List.getElem_range, List.getD_eq_getElem]

section
variable {str : Bytes} {start stop : ℤ}

theorem getrange_clamp (hstr : str.length < 2 ^ 31) (hstart : IsLong start) (hstop : IsLong stop)
    {y : ℤ} (hy : (if max (fromEnd str.length stop) 0 % 2 ^ 32 ≥ (str.length : ℤ) then
      (str.length : ℤ) - 1 else max (fromEnd str.length stop) 0) = y) :
    getrange str start stop = if max (fromEnd str.length start) 0 > y then some .emptybulk
      else (slice str (max (fromEnd str.length start) 0).toNat
        (y - max (fromEnd str.length start) 0 + 1).toNat).map .bulk := by
  rw [getrange, fromEnd_eq (by omega) (by omega) hstart, fromEnd_eq (by omega) (by omega) hstop,
    clampZero_eq, clampZero_eq, hy]

theorem getrange_iff (hstr : str.length < 2 ^ 31) (hstart : IsLong start) (hstop : IsLong stop) :
    getrange str start stop = some (.bulk (bytesBetween str (max (fromEnd str.length start) 0)
        (min (max (fromEnd str.length stop) 0) (str.length - 1)))) ↔
      ¬ ((str.length : ℤ) ≤ fromEnd str.length stop ∧
        fromEnd str.length stop % 2 ^ 32 < str.length ∧
        max (fromEnd str.length start) 0 ≤ fromEnd str.length stop) := by
  by_cases hend : (str.length : ℤ) ≤ fromEnd str.length stop ∧
      fromEnd str.length stop % 2 ^ 32 < str.length
  · have hmax : max (fromEnd str.length stop) 0 = fromEnd str.length stop := max_eq_left (by omega)
    rw [getrange_clamp hstr hstart hstop (y := fromEnd str.length stop)
      (by rw [hmax, if_neg (by omega)]), hmax, min_eq_right (by omega)]
    by_cases hxy : max (fromEnd str.length start) 0 ≤ fromEnd str.length stop
    · rw [if_neg (by omega), slice_eq_none (by omega)]
      exact iff_of_false nofun fun h => h ⟨hend.1, hend.2, hxy⟩
    · rw [if_pos (by omega), bytesBetween_eq_nil (by omega)]
      exact iff_of_true rfl fun h => hxy h.2.2
  · rw [getrange_clamp hstr hstart hstop
      (y := min (max (fromEnd str.length stop) 0) ((str.length : ℤ) - 1)) (by split <;> omega)]
    refine iff_of_true ?_ fun h => hend ⟨h.1, h.2.1⟩
    split
    · rename_i hgt
      rw [bytesBetween_eq_nil hgt]
      rfl
    · rw [slice_eq_bytesBetween (by omega) (by omega) (by omega)]
      rfl

end

/-- GETRANGE of a string replies with the bytes of the range, exactly if the end of the range is not
taken for one in the string. -/
theorem getrangeCommand_iff {C : Type} {s : RedisServer C Robj} {d : ℕ} {key a b str : Bytes}
    {now start stop : ℤ} {o : Robj} (h : Indexed s) (hd : s.clusterEnabled = true → d = 0)
    (ha : getLongFromObjectOrReply a = .ok start) (hb : getLongFromObjectOrReply b = .ok stop)
    (ho : found s d now key = some o) (htext : o.text = some str) (hstr : str.length < 2 ^ 31) :
    (∃ s', getrangeCommand s d key a b now = .ok (s', .bulk (bytesBetween str
        (max (fromEnd str.length start) 0)
        (min (max (fromEnd str.length stop) 0) (str.length - 1)))) ∧
        ∀ k, found s' d now k = found s d now k) ↔
      ¬ ((str.length : ℤ) ≤ fromEnd str.length stop ∧
        fromEnd str.length stop % 2 ^ 32 < str.length ∧
        max (fromEnd str.length start) 0 ≤ fromEnd str.length stop) := by
  rw [← getrange_iff hstr (isLong_getLong ha) (isLong_getLong hb)]
  obtain ⟨r, hr, -, -, hval, hother⟩ := (lookupKeyWrite_found h hd key now).returns
  rw [getrangeCommand, ha, hb]
  dsimp only
  rw [hr, ok_bind, hval, ho]
  dsimp only
  rw [htext]
  dsimp only
  cases getrange str start stop with
  | none => exact iff_of_false (fun ⟨s', heq, _⟩ => nomatch heq) nofun
  | some reply =>
    constructor
    · rintro ⟨s', heq, -⟩
      cases heq
      rfl
    · intro heq
      rw [Option.some_inj.mp heq]
      exact ⟨r.1, rfl, hother⟩

/-! ### SETRANGE -/

section
variable {str value : Bytes} {offset : ℤ}

theorem totalLength_eq (hoffset : 0 ≤ offset) (hoffset' : IsLong offset)
    (hvalue : value.length < 2 ^ 31) : totalLength offset value = offset + value.length := by
  obtain ⟨-, hmax⟩ := hoffset'
  exact Int.emod_eq_of_lt (by omega) (by omega)

theorem getD_store {m m' : Bytes} {p : ℕ} (h : store m p value = some m') (i : ℕ) :
    m'.getD i 0 = if p ≤ i then value.getD (i - p) (m.getD i 0) else m.getD i 0 := by
  unfold store at h
  split at h
  · rename_i hle
    obtain rfl := Option.some_inj.mp h
    simp only [List.getD_eq_getElem?_getD]
    rcases Nat.lt_or_ge i p with hi | hi
    · rw [if_neg (by omega), List.append_assoc, List.getElem?_append_left
        (by rw [List.length_take]; omega), List.getElem?_take_of_lt hi]
    · rw [if_pos hi, List.append_assoc, List.getElem?_append_right
        (by rw [List.length_take]; omega), List.length_take, Nat.min_eq_left (by omega)]
      obtain ⟨j, rfl⟩ := Nat.exists_eq_add_of_le hi
      rw [Nat.add_sub_cancel_left]
      rcases Nat.lt_or_ge j value.length with hv | hv
      · rw [List.getElem?_append_left hv, List.getElem?_eq_getElem hv]
        rfl
      · have hpos : p + value.length + (j - value.length) = p + j := by omega
        rw [List.getElem?_append_right hv, List.getElem?_eq_none hv, List.getElem?_drop, hpos]
        rfl
  · cases h

theorem sdsgrowzero_eq {len : ℕ} (hlen : len < 2 ^ 63) :
    sdsgrowzero str len = some (str ++ List.replicate (len - str.length) 0) := by
  rw [sdsgrowzero, if_pos hlen]
  split
  · rw [Nat.sub_eq_zero_of_le (by omega), List.replicate_zero, List.append_nil]
  · rfl

theorem setrange_eq {p : ℕ} (hvalue : value ≠ []) (hlen : value.length < 2 ^ 31)
    (hsum : (p : ℤ) + value.length < 2 ^ 63) :
    setrange str p value = some (overwrite str p value) := by
  have htotal : totalLength p value = ((p + value.length : ℕ) : ℤ) :=
    totalLength_eq (by omega) ⟨by omega, by omega⟩ hlen
  have hpad : ∀ i, (str ++ List.replicate (p + value.length - str.length) 0).getD i 0
      = str.getD i 0 := fun i => by
    rw [List.getD_eq_getElem?_getD, List.getD_eq_getElem?_getD, List.getElem?_append]
    split
    · rfl
    · rw [List.getElem?_replicate, List.getElem?_eq_none (l := str) (by omega)]
      split <;> rfl
  set padded := str ++ List.replicate (p + value.length - str.length) 0 with hpadded
  have hlength : padded.length = max str.length (p + value.length) := by
    rw [hpadded, List.length_append, List.length_replicate]
    omega
  obtain ⟨m, hm⟩ : ∃ m, store padded p value = some m :=
    ⟨_, if_pos (by rw [hlength]; exact Nat.le_max_right _ _)⟩
  rw [setrange, htotal, Int.toNat_natCast, Int.toNat_natCast, sdsgrowzero_eq (by omega)]
  dsimp only [Option.bind_eq_bind, Option.bind_some]
  rw [← hpadded, hm, overwrite, if_neg hvalue]
  congr 1
  refine List.ext_getElem (by simp [length_of_store hm, hlength]) fun i hi hi' => ?_
  rw [← List.getD_eq_getElem m 0 hi, getD_store hm, hpad, List.getElem_map, List.getElem_range]

theorem setrange_eq_none (hoffset : 0 ≤ offset) (hoffset' : IsLong offset)
    (hlen : value.length < 2 ^ 31) (hstr : str.length < 2 ^ 31)
    (hsum : 2 ^ 63 ≤ offset + value.length) : setrange str offset value = none := by
  have hgrow : sdsgrowzero str (offset + value.length).toNat = none := by
    rw [sdsgrowzero, if_neg (by omega), if_neg (by omega)]
  rw [setrange, totalLength_eq hoffset hoffset' hlen, hgrow]
  rfl

end

section
variable {C : Type} [DecidableEq C] {s : RedisServer C Robj} {d : ℕ} {key str value : Bytes}
  {now offset : ℤ}

theorem storeRange_spec (h : Indexed s) (hkey : ((s.db d).dict key).isSome)
    (hlive : expiredAt s d key now = false) {p : ℕ} (hvalue : value ≠ [])
    (hlen : value.length < 2 ^ 31) (hsum : (p : ℤ) + value.length < 2 ^ 63) :
    (storeRange s d key str p value).Ensures (fun _ => False) fun r =>
      r.2 = .integer (overwrite str p value).length ∧
      found r.1 d now key = some (.raw (overwrite str p value)) ∧
      ∀ k ≠ key, found r.1 d now k = found s d now k := by
  rw [storeRange, setrange_eq hvalue hlen hsum]
  refine (dbOverwrite_spec h hkey _).bind fun s' hs' => ?_
  obtain ⟨-, hfound, hother⟩ := found_store hs'.2.1 hlive hs'.2.2
  exact ⟨rfl, hfound, hother⟩

theorem length_overwrite {p : ℕ} (hvalue : value ≠ []) :
    (overwrite str p value).length = max str.length (p + value.length) := by
  rw [overwrite, if_neg hvalue, List.length_map, List.length_range]

/-- The states in which SETRANGE does what it is for: the sum of the offset and the length is a
`long`, and the string is not too long already. -/
def SetrangeOk (o : Option Robj) (offset : ℤ) (value : Bytes) : Prop :=
  offset < 0 ∨ o = some .other ∨
    (value = [] ∨ offset + value.length < 2 ^ 63) ∧
    ((sourceText o).length ≤ 512 * 1024 * 1024 ∨
      value ≠ [] ∧ 512 * 1024 * 1024 < offset + value.length)

theorem checkStringLength_iff {size : ℤ} (hmin : 0 ≤ size) (hmax : size < 2 ^ 64) :
    checkStringLength (toLong size) = true ↔ ¬(512 * 1024 * 1024 < size ∧ size < 2 ^ 63) := by
  obtain ⟨k, hk⟩ := toLong_congr size
  obtain ⟨hmin', hmax'⟩ := isLong_toLong size
  rw [checkStringLength, Bool.not_eq_true', decide_eq_false_iff_not]
  omega

theorem setrangeOk_iff {o : Option Robj} {p : ℕ} (ho : o ≠ some .other) (hvalue : value ≠ [])
    (hsize : ¬(512 * 1024 * 1024 < (p : ℤ) + value.length ∧ (p : ℤ) + value.length < 2 ^ 63)) :
    SetrangeOk o p value ↔
      (p : ℤ) + value.length < 2 ^ 63 ∧ (sourceText o).length ≤ 512 * 1024 * 1024 := by
  have hneg : ¬(p : ℤ) < 0 := Int.not_lt.mpr (Int.natCast_nonneg p)
  rw [SetrangeOk, or_iff_right hneg, or_iff_right ho, or_iff_right hvalue, and_iff_right hvalue]
  omega

theorem storeRange_iff {s₀ s₁ : RedisServer C Robj} {val : Robj} {o : Option Robj}
    (hlive : expiredAt s₀ d key now = false) (hother : ∀ k, found s₀ d now k = found s d now k)
    (hs₁ : Indexed s₁ ∧ Rest s₀ s₁ ∧ s₁.db = (s₀.setDb d { s₀.db d with
      dict := Function.update (s₀.db d).dict key (some val) }).db)
    {p : ℕ} (hp : IsLong p) (ho : o ≠ some .other) (hvalue : value ≠ [])
    (hlen : value.length < 2 ^ 31) (hstr : (sourceText o).length < 2 ^ 31)
    (hsize : ¬(512 * 1024 * 1024 < (p : ℤ) + value.length ∧ (p : ℤ) + value.length < 2 ^ 63)) :
    (∃ s' reply, storeRange s₁ d key (sourceText o) p value = .ok (s', reply) ∧
        Written s d key now (overwrite (sourceText o) p value) s' reply) ↔
      SetrangeOk o p value := by
  obtain ⟨hindexed, hrest, hdb⟩ := hs₁
  obtain ⟨hlive₁, -, hother₁⟩ := found_store hrest hlive hdb
  have hkey : ((s₁.db d).dict key).isSome := by
    rw [hdb, setDb_self, isSome_update, if_pos rfl]
    rfl
  rw [setrangeOk_iff ho hvalue hsize]
  by_cases hbig : 2 ^ 63 ≤ (p : ℤ) + value.length
  · have hnone : setrange (sourceText o) p value = none :=
      setrange_eq_none (Int.natCast_nonneg p) hp hlen hstr hbig
    rw [storeRange, hnone]
    exact iff_of_false nofun fun h => by omega
  · have hlength : (overwrite (sourceText o) p value).length
        = max (sourceText o).length (p + value.length) := length_overwrite hvalue
    have hspec : (storeRange s₁ d key (sourceText o) p value).Ensures _ _ :=
      storeRange_spec hindexed hkey hlive₁ hvalue hlen (by omega)
    obtain ⟨r, hr, hreply, hnew, hkeep⟩ := hspec.returns
    rw [hr]
    constructor
    · rintro ⟨s', reply, heq, hwritten⟩
      cases heq
      rcases hwritten with ⟨-, hmax, -⟩ | ⟨⟨message, herror⟩, -⟩
      · omega
      · cases hreply.symm.trans herror
    · intro hmax
      refine ⟨r.1, r.2, rfl, .inl ⟨hreply, by omega, ?_, fun k hk => ?_⟩⟩
      · rw [hnew]
        rfl
      · rw [hkeep k hk, hother₁ k hk, hother k]

omit [DecidableEq C] in
theorem written_nil_iff {s₀ : RedisServer C Robj} {o : Option Robj}
    (hother : ∀ k, found s₀ d now k = found s d now k) (ho : found s d now key = o)
    (hne : o ≠ some .other) (p : ℕ) :
    (∃ s' reply, (.ok (s₀, .integer (sourceText o).length) : Except Failure _) = .ok (s', reply) ∧
        Written s d key now (overwrite (sourceText o) p []) s' reply) ↔ SetrangeOk o p [] := by
  have hneg : ¬(p : ℤ) < 0 := Int.not_lt.mpr (Int.natCast_nonneg p)
  have hnil : overwrite (sourceText o) p [] = sourceText o := if_pos rfl
  rw [SetrangeOk, or_iff_right hneg, or_iff_right hne, and_iff_right (.inl rfl), hnil,
    or_iff_left fun h => h.1 rfl]
  constructor
  · rintro ⟨s', reply, heq, ⟨-, hmax, -⟩ | ⟨⟨message, herror⟩, -⟩⟩
    · exact hmax
    · cases heq
      cases herror
  · exact fun hmax => ⟨s₀, _, rfl, .inl ⟨rfl, hmax, by rw [hother, ho], fun k _ => hother k⟩⟩

/-- SETRANGE stores the new string, or fails, exactly in these states. -/
theorem setrangeCommand_iff (h : Indexed s) (hd : s.clusterEnabled = true → d = 0) {arg : Bytes}
    (harg : getLongFromObjectOrReply arg = .ok offset) (hlen : value.length < 2 ^ 31)
    (hstr : (sourceText (found s d now key)).length < 2 ^ 31) :
    (∃ s' reply, setrangeCommand s d key arg value now = .ok (s', reply) ∧
      Written s d key now (overwrite (sourceText (found s d now key)) offset.toNat value) s' reply) ↔
      SetrangeOk (found s d now key) offset value := by
  have hp := isLong_getLong harg
  rw [setrangeCommand, harg]
  dsimp only
  by_cases hneg : offset < 0
  · rw [if_pos hneg]
    exact iff_of_true ⟨s, _, rfl, .inr ⟨⟨_, rfl⟩, fun _ => rfl⟩⟩ (.inl hneg)
  rw [if_neg hneg]
  obtain ⟨p, rfl⟩ := Int.eq_ofNat_of_zero_le (Int.not_lt.mp hneg)
  rw [Int.toNat_natCast]
  obtain ⟨r, hr, ⟨hindexed, hrest, hdb, hval⟩, ⟨-, -, hfound, hother⟩, hlive⟩ :=
    ((lookupKeyWrite_spec h hd key now).and
      ((lookupKeyWrite_found h hd key now).and (lookupKeyWrite_live h hd key now))).returns
  have hsum : totalLength p value = p + value.length :=
    totalLength_eq (Int.natCast_nonneg p) hp hlen
  have hmax : (p : ℤ) < 2 ^ 63 := hp.2
  have hfail : ∀ message new, ∃ s' reply,
      (.ok (r.1, .error message) : Except Failure _) = .ok (s', reply) ∧
        Written s d key now new s' reply :=
    fun message new => ⟨r.1, _, rfl, .inr ⟨⟨message, rfl⟩, hother⟩⟩
  have hcheck : checkStringLength (toLong (p + value.length)) = true ↔ _ :=
    checkStringLength_iff (by omega) (by omega)
  rw [hr, ok_bind, hsum]
  rw [hfound] at hval ⊢
  cases ho : found s d now key with
  | none =>
    rw [ho] at hval
    dsimp only
    by_cases hvalue : value = []
    · subst hvalue
      exact written_nil_iff hother ho nofun p
    rw [if_neg (mt List.length_eq_zero_iff.mp hvalue)]
    by_cases hbig : 512 * 1024 * 1024 < (p : ℤ) + value.length ∧ (p : ℤ) + value.length < 2 ^ 63
    · rw [if_neg (hcheck.not_left.mpr hbig)]
      exact iff_of_true (hfail _ _) (.inr (.inr ⟨.inr hbig.2, .inr ⟨hvalue, hbig.1⟩⟩))
    · rw [if_pos (hcheck.mpr hbig)]
      obtain ⟨s₁, hadd, hs₁⟩ := (dbAdd_spec hindexed (hrest.clusterEnabled ▸ hd) hval.symm
        (.raw [])).returns
      rw [hadd, ok_bind]
      exact storeRange_iff hlive hother hs₁ hp (show none ≠ some Robj.other from nofun) hvalue hlen
        (by decide) hbig
  | some o =>
    rw [ho] at hval hstr
    dsimp only
    cases htext : o.text with
    | none =>
      obtain rfl := Robj.text_eq_none.mp htext
      exact iff_of_true (hfail _ _) (.inr (.inl rfl))
    | some str =>
      obtain rfl : sourceText (some o) = str := by
        rw [sourceText, Option.bind_some, htext]
        rfl
      have hne : some o ≠ some .other := fun h => by
        rw [Option.some_inj.mp h] at htext
        cases htext
      dsimp only
      by_cases hvalue : value = []
      · subst hvalue
        exact written_nil_iff hother ho hne p
      rw [if_neg (mt List.length_eq_zero_iff.mp hvalue)]
      by_cases hbig : 512 * 1024 * 1024 < (p : ℤ) + value.length ∧ (p : ℤ) + value.length < 2 ^ 63
      · rw [if_neg (hcheck.not_left.mpr hbig)]
        exact iff_of_true (hfail _ _) (.inr (.inr ⟨.inr hbig.2, .inr ⟨hvalue, hbig.1⟩⟩))
      · rw [if_pos (hcheck.mpr hbig)]
        obtain ⟨s₁, hwrite, hs₁⟩ := (dbOverwrite_spec hindexed (by rw [← hval]; rfl)
          (.raw (sourceText (some o)))).returns
        rw [hwrite, ok_bind]
        exact storeRange_iff hlive hother hs₁ hp hne hvalue hlen hstr hbig

/-! ### APPEND -/

theorem appendString_written {s₀ : RedisServer C Robj} (h : Indexed s₀)
    (hkey : ((s₀.db d).dict key).isSome) (hlive : expiredAt s₀ d key now = false)
    (hother : ∀ k, found s₀ d now k = found s d now k) (hstr : str.length < 2 ^ 31)
    (hlen : value.length < 2 ^ 31) :
    ∃ s' reply, appendString s₀ d key str value = .ok (s', reply) ∧
      Written s d key now (str ++ value) s' reply := by
  have hcheck : checkStringLength (toLong (str.length + value.length)) = true ↔ _ :=
    checkStringLength_iff (by omega) (by omega)
  rw [appendString]
  by_cases hbig : 512 * 1024 * 1024 < (str.length : ℤ) + value.length ∧
      (str.length : ℤ) + value.length < 2 ^ 63
  · rw [if_neg (hcheck.not_left.mpr hbig)]
    exact ⟨s₀, _, rfl, .inr ⟨⟨_, rfl⟩, hother⟩⟩
  · obtain ⟨s₁, hwrite, -, hrest₁, hdb₁⟩ := (dbOverwrite_spec h hkey (.raw (str ++ value))).returns
    obtain ⟨-, hnew, hkeep⟩ := found_store hrest₁ hlive hdb₁
    rw [if_pos (hcheck.mpr hbig), hwrite, ok_bind]
    refine ⟨_, _, rfl, .inl ⟨rfl, ?_, congrArg sourceText hnew,
      fun k hk => (hkeep k hk).trans (hother k)⟩⟩
    rw [List.length_append]
    omega

/-- APPEND stores the new string, or fails, exactly if the key is there or the value is not too
long. -/
theorem appendCommand_iff (h : Indexed s) (hd : s.clusterEnabled = true → d = 0)
    (hlen : value.length < 2 ^ 31) (hstr : (sourceText (found s d now key)).length < 2 ^ 31) :
    (∃ s' reply, appendCommand s d key value now = .ok (s', reply) ∧
      Written s d key now (sourceText (found s d now key) ++ value) s' reply) ↔
      found s d now key ≠ none ∨ value.length ≤ 512 * 1024 * 1024 := by
  obtain ⟨r, hr, ⟨hindexed, hrest, hdb, hval⟩, ⟨-, -, hfound, hother⟩, hlive⟩ :=
    ((lookupKeyWrite_spec h hd key now).and
      ((lookupKeyWrite_found h hd key now).and (lookupKeyWrite_live h hd key now))).returns
  rw [appendCommand, hr, ok_bind]
  rw [hfound] at hval ⊢
  cases ho : found s d now key with
  | none =>
    rw [ho] at hval
    obtain ⟨s₁, hadd, -, hrest₁, hdb₁⟩ := (dbAdd_spec hindexed (hrest.clusterEnabled ▸ hd)
      hval.symm (tryObjectEncoding value)).returns
    obtain ⟨-, hnew, hkeep⟩ := found_store hrest₁ hlive hdb₁
    have htext : sourceText (some (tryObjectEncoding value)) = value := by
      rw [sourceText, Option.bind_some, text_tryObjectEncoding]
      rfl
    have hnil : sourceText none ++ value = value := rfl
    dsimp only
    rw [hadd, ok_bind, or_iff_right fun h => h rfl, hnil]
    constructor
    · rintro ⟨s', reply, heq, ⟨-, hmax, -⟩ | ⟨⟨message, herror⟩, -⟩⟩
      · exact hmax
      · cases heq
        cases herror
    · exact fun hmax => ⟨_, _, rfl, .inl ⟨rfl, hmax, (congrArg sourceText hnew).trans htext,
        fun k hk => (hkeep k hk).trans (hother k)⟩⟩
  | some o =>
    rw [ho] at hval hstr
    dsimp only
    refine iff_of_true ?_ (.inl nofun)
    cases htext : o.text with
    | none => exact ⟨r.1, _, rfl, .inr ⟨⟨_, rfl⟩, hother⟩⟩
    | some str =>
      obtain rfl : sourceText (some o) = str := by
        rw [sourceText, Option.bind_some, htext]
        rfl
      exact appendString_written hindexed (by rw [← hval]; rfl) hlive hother hstr hlen

end

/-! ### Results -/

/-- In every reachable state: GETRANGE is right exactly if the lower half of the end of the range
is not smaller than the length of the string while the end is not; SETRANGE exactly if the sum of
the offset and the length is a `long`, and the string is not too long before; and APPEND exactly if
it does not create a string that is too long. -/
theorem string_ranges {C : Type} [DecidableEq C] (dbs : ℕ) (clusterEnabled : Bool)
    (clients : List C) (levels : ℕ → Fin 32) {es : List (KeyspaceEvent C Robj)}
    {s : RedisServer C Robj} (hrun : Runs.run (fun s e => (keyspaceStep s e).toOption)
      (initServer dbs clusterEnabled clients levels) es = some s) (c : C) (key : Bytes) (now : ℤ)
    (hstr : (sourceText (found s (s.client c).db now key)).length < 2 ^ 31) :
    (∀ a b start stop o str, getLongFromObjectOrReply a = .ok start →
      getLongFromObjectOrReply b = .ok stop → found s (s.client c).db now key = some o →
      o.text = some str →
      ((∃ s', getrangeCommand s (s.client c).db key a b now = .ok (s', .bulk (bytesBetween str
          (max (fromEnd str.length start) 0)
          (min (max (fromEnd str.length stop) 0) (str.length - 1)))) ∧
          ∀ k, found s' (s.client c).db now k = found s (s.client c).db now k) ↔
        ¬ ((str.length : ℤ) ≤ fromEnd str.length stop ∧
          fromEnd str.length stop % 2 ^ 32 < str.length ∧
          max (fromEnd str.length start) 0 ≤ fromEnd str.length stop))) ∧
    ∀ value : Bytes, value.length < 2 ^ 31 →
      (∀ arg offset, getLongFromObjectOrReply arg = .ok offset →
        ((∃ s' reply, setrangeCommand s (s.client c).db key arg value now = .ok (s', reply) ∧
            Written s (s.client c).db key now
              (overwrite (sourceText (found s (s.client c).db now key)) offset.toNat value) s' reply) ↔
          SetrangeOk (found s (s.client c).db now key) offset value)) ∧
      ((∃ s' reply, appendCommand s (s.client c).db key value now = .ok (s', reply) ∧
          Written s (s.client c).db key now
            (sourceText (found s (s.client c).db now key) ++ value) s' reply) ↔
        found s (s.client c).db now key ≠ none ∨ value.length ≤ 512 * 1024 * 1024) := by
  obtain ⟨s₁, hrun₁, hsound⟩ :=
    run_sound (sound_initServer dbs clusterEnabled clients levels : Sound _) es
  obtain rfl := Option.some_inj.mp (hrun₁.symm.trans hrun)
  have hd : s₁.clusterEnabled = true → (s₁.client c).db = 0 := fun hc => hsound.zero hc c
  refine ⟨fun a b start stop o str ha hb ho htext => ?_, fun value hlen => ⟨fun arg offset harg => ?_,
    appendCommand_iff hsound.indexed hd hlen hstr⟩⟩
  · refine getrangeCommand_iff hsound.indexed hd ha hb ho htext ?_
    rwa [ho, sourceText, Option.bind_some, htext] at hstr
  · exact setrangeCommand_iff hsound.indexed hd harg hlen hstr

/-- `GETRANGE a 0 4294967296`, `SETRANGE a 1 c` and `APPEND a c` after `SET a ab`. -/
theorem string_ranges_ab : ∃ s : RedisServer Unit Robj,
    Runs.run (fun s e => (keyspaceStep s e).toOption) (initServer 15 false [()] fun _ => 0)
      [.call () 5 (.set [97] (.raw [97, 98]) false false none)] = some s ∧
    ((∃ s' reply, setrangeCommand s 0 [97] [49] [99] 6 = .ok (s', reply) ∧
        Written s 0 [97] 6 (overwrite [97, 98] 1 [99]) s' reply) ↔
      SetrangeOk (some (.raw [97, 98])) 1 [99]) ∧
    ((∃ s' reply, appendCommand s 0 [97] [99] 6 = .ok (s', reply) ∧
        Written s 0 [97] 6 [97, 98, 99] s' reply) ↔
      some (Robj.raw [97, 98]) ≠ none ∨ ([99] : Bytes).length ≤ 512 * 1024 * 1024) := by
  refine ⟨_, rfl, ?_⟩
  have h := (string_ranges 15 false [()] (fun _ => 0)
    (show Runs.run (fun s e => (keyspaceStep s e).toOption) (initServer 15 false [()] fun _ => 0)
      [.call () 5 (.set [97] (.raw [97, 98]) false false none)] = some _ from rfl) () [97] 6
    (by decide)).2 [99] (by decide)
  exact ⟨h.1 [49] 1 (by decide), h.2⟩

/-- A range whose end is 4 GB is not cut off, and the sum of an offset of 2^63 - 1 and a length
passes the check. -/
theorem string_ranges_outside : ∃ s : RedisServer Unit Robj,
    Runs.run (fun s e => (keyspaceStep s e).toOption) (initServer 15 false [()] fun _ => 0)
      [.call () 5 (.set [97] (.raw [97, 98]) false false none)] = some s ∧
    found s 0 6 [97] = some (.raw [97, 98]) ∧
    getrangeCommand s 0 [97] [48] [52, 50, 57, 52, 57, 54, 55, 50, 57, 54] 6 = .error .memory ∧
    bytesBetween [97, 98] (max (fromEnd 2 0) 0) (min (max (fromEnd 2 4294967296) 0) (2 - 1))
      = [97, 98] ∧
    setrangeCommand s 0 [97]
      [57, 50, 50, 51, 51, 55, 50, 48, 51, 54, 56, 53, 52, 55, 55, 53, 56, 48, 55] [99] 6
      = .error .memory := by
  exact ⟨_, rfl, by decide, rfl, by decide, rfl⟩

end StringRange

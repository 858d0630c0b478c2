/-
Strings in the entries of a ziplist: storing them, reading them back, comparing them
and searching for them.

A string that is the decimal representation of a 64-bit integer is stored as that
integer, in the smallest of six encodings; comparing it with another string is then
a comparison of integers.

* `ziplistInsertWrite_get` — what an insertion writes for a string reads back as it;
* `valueMatches_eq` — comparing values the way the library does is comparing texts;
* `ziplistFindLoop_eq` — the search visits every entry whose turn it is, with what
  it found out about the string at the first integer;
* `entries_hold_strings` — all of it together.
-/
import RedisModel.ZiplistRead
import RedisModel.StringNumberWord

open ByteBuffer StringNumber

namespace Ziplist

/-! ### The search -/

/-- The comparison `ziplistFind` makes with the entry at `p`.  The encoding and the
value of the searched string are found out at the first integer and kept in
`vencoding` and `vll`; an encoding of 255 stands for a string that is no integer. -/
def ziplistFindCompare (p vstr : Bytes) (headersize len : ℕ) (encoding vencoding : UInt8)
    (vll : ℤ) : Option (Bool × UInt8 × ℤ) :=
  if zipIsStr encoding then
    if len = vstr.length then do
      let t ← slice p headersize len
      some (decide (t = vstr), vencoding, vll)
    else some (false, vencoding, vll)
  else
    let (vencoding, vll) :=
      if vencoding = 0 then
        match zipTryEncoding vstr with
        | some (v, encoding) => (encoding, v)
        | none => (255, vll)
      else (vencoding, vll)
    -- `assert(vencoding)`
    if vencoding = 0 then none
    else if vencoding ≠ 255 then do
      let ll ← zipLoadInteger (p.drop headersize) encoding
      some (decide (ll = vll), vencoding, vll)
    else some (false, vencoding, vll)

/-- The loop of `ziplistFind`.  The counter `skipcnt` is an `int` that is set to the
`unsigned int` `skip` and counted down; both are 32 bits wide. -/
def ziplistFindLoop (zl vstr : Bytes) (skip : UInt32) :
    ℕ → ℕ → UInt32 → UInt8 → ℤ → Option (Option ℕ)
  | 0, _, _, _, _ => none
  | fuel + 1, p, skipcnt, vencoding, vll => do
    let b ← zl[p]?
    if b = zipEnd then some none
    else do
      let prevlensize ← zipDecodePrevlensize (zl.drop p)
      let (encoding, lensize, len) ← zipDecodeLength (zl.drop (p + prevlensize))
      let next := p + (prevlensize + lensize + len)
      if skipcnt = 0 then do
        let (found, vencoding, vll) ←
          ziplistFindCompare (zl.drop p) vstr (prevlensize + lensize) len encoding vencoding vll
        if found then some (some p)
        else ziplistFindLoop zl vstr skip fuel next skip vencoding vll
      else ziplistFindLoop zl vstr skip fuel next (skipcnt - 1) vencoding vll

/-- `ziplistFind`: the entry that holds `vstr`, from `p` on, when `skip` entries are
skipped after each comparison. -/
def ziplistFind (zl : Bytes) (p : ℕ) (vstr : Bytes) (skip : UInt32) : Option (Option ℕ) :=
  ziplistFindLoop zl vstr skip zl.length p 0 0 0

/-! ### Comparing values -/

/-- How the library compares a value with a string. -/
def valueMatches (v : Value) (s : Bytes) : Bool :=
  match v with
  | .str t => decide (t = s)
  | .int w => match zipTryEncoding s with
    | some (sval, _) => decide (w = sval)
    | none => false

theorem intVal_range (bs : Bytes) : -((256 ^ bs.length : ℕ) : ℤ) ≤ intVal bs * 2 ∧
    intVal bs * 2 < ((256 ^ bs.length : ℕ) : ℤ) := by
  have hpos : 0 < 256 ^ bs.length := Nat.pow_pos (by decide)
  have hlow := Int.le_bmod (x := (leVal bs : ℤ)) hpos
  have hhigh := Int.bmod_lt (x := (leVal bs : ℤ)) hpos
  unfold intVal
  constructor
  · omega
  · omega

theorem zipLoadInteger_range {p : Bytes} {encoding : UInt8} {w : ℤ}
    (h : zipLoadInteger p encoding = some w) : llongMin ≤ w ∧ w ≤ llongMax := by
  have hread : ∀ {k : ℕ} {v : ℤ}, k ≤ 8 → (slice p 0 k).map intVal = some v →
      llongMin ≤ v ∧ v ≤ llongMax := by
    intro k v hk hv
    obtain ⟨bs, hbs, rfl⟩ := Option.map_eq_some_iff.mp hv
    have hlen := (slice_eq_some hbs).2
    obtain ⟨hlow, hhigh⟩ := intVal_range bs
    have hpow : 256 ^ bs.length ≤ 256 ^ 8 := Nat.pow_le_pow_right (by decide) (by omega)
    unfold llongMin llongMax
    constructor
    · omega
    · omega
  unfold zipLoadInteger at h
  split_ifs at h with h8 h16 h32 h24 h64 himm
  · exact hread (by decide) h
  · exact hread (by decide) h
  · exact hread (by decide) h
  · -- the zero byte in front makes four bytes of them
    obtain ⟨bs, hbs, rfl⟩ := Option.map_eq_some_iff.mp h
    have hlen := (slice_eq_some hbs).2
    obtain ⟨hlow, hhigh⟩ := intVal_range (0 :: bs)
    have hpow : 256 ^ (0 :: bs).length = 4294967296 := by
      rw [List.length_cons, hlen]
      rfl
    rw [hpow] at hlow hhigh
    unfold llongMin llongMax
    constructor
    · omega
    · omega
  · exact hread (by decide) h
  · rw [Option.some_inj] at h
    have := (encoding &&& zipIntImmMask).toNat_lt
    unfold llongMin llongMax
    constructor
    · omega
    · omega

theorem zipTryEncoding_iff {w : ℤ} (hmin : llongMin ≤ w) (hmax : w ≤ llongMax) (s : Bytes) :
    (∃ encoding, zipTryEncoding s = some (w, encoding)) ↔ ll2string w = s := by
  constructor
  · rintro ⟨encoding, h⟩
    exact ll2string_string2ll (zipTryEncoding_cases h).1
  · rintro rfl
    have hll := string2ll_ll2string hmin hmax
    have hlen := ll2string_length hmin hmax
    have hne : ¬((ll2string w).length ≥ 32 ∨ (ll2string w).length = 0) := by
      rintro (hlong | hempty)
      · omega
      · rw [List.length_eq_zero_iff.mp hempty] at hll
        cases hll
    rw [zipTryEncoding, if_neg hne, hll]
    exact ⟨_, rfl⟩

theorem valueMatches_eq {v : Value} (h : ∀ w, v = .int w → llongMin ≤ w ∧ w ≤ llongMax)
    (s : Bytes) : valueMatches v s = decide (v.text = s) := by
  cases v with
  | str t => rfl
  | int w =>
    obtain ⟨hmin, hmax⟩ := h w rfl
    have hiff := zipTryEncoding_iff hmin hmax s
    rw [valueMatches, Value.text]
    by_cases htext : ll2string w = s
    · obtain ⟨encoding, henc⟩ := hiff.mpr htext
      simp [henc, htext]
    · rcases henc : zipTryEncoding s with _ | ⟨sval, encoding⟩
      · simp [htext]
      · have hne : w ≠ sval := by
          rintro rfl
          exact htext (hiff.mp ⟨encoding, henc⟩)
        simp [hne, htext]

theorem ziplistGet_int {p : Bytes} {v : Value} (h : ziplistGet p = some v) :
    ∀ w, v = .int w → llongMin ≤ w ∧ w ≤ llongMax := by
  rintro w rfl
  simp only [ziplistGet, Option.bind_eq_bind, Option.bind_eq_some_iff] at h
  obtain ⟨b, -, h⟩ := h
  split_ifs at h
  obtain ⟨entry, -, h⟩ := Option.bind_eq_some_iff.mp h
  split_ifs at h
  · obtain ⟨t, -, ht⟩ := Option.bind_eq_some_iff.mp h
    cases ht
  · obtain ⟨ll, hll, hv⟩ := Option.bind_eq_some_iff.mp h
    rw [Option.some_inj, Value.int.injEq] at hv
    rw [← hv]
    exact zipLoadInteger_range hll

theorem ziplistCompare_text {p : Bytes} {v : Value} (h : ziplistGet p = some v) (s : Bytes) :
    ziplistCompare p s = some (decide (v.text = s)) := by
  rw [← valueMatches_eq (ziplistGet_int h)]
  cases v with
  | str t => exact ziplistCompare_of_get h
  | int w => exact ziplistCompare_of_get h

/-! ### What the search found out about its string -/

/-- What is kept in `vencoding` and `vll`: nothing yet, or what `zipTryEncoding` says. -/
def CacheOk (vstr : Bytes) (vencoding : UInt8) (vll : ℤ) : Prop :=
  vencoding = 0 ∨ (vencoding = 255 ∧ zipTryEncoding vstr = none) ∨
    (vencoding ≠ 0 ∧ vencoding ≠ 255 ∧ zipTryEncoding vstr = some (vll, vencoding))

/-- An encoding is neither of the two values with a special meaning. -/
theorem zipTryEncoding_encoding {s : Bytes} {v : ℤ} {encoding : UInt8}
    (h : zipTryEncoding s = some (v, encoding)) : encoding ≠ 0 ∧ encoding ≠ 255 := by
  obtain ⟨-, -, hcases⟩ := zipTryEncoding_cases h
  rcases hcases with ⟨n, hn, -, rfl⟩ | ⟨-, -, rfl⟩ | ⟨-, -, rfl⟩ | ⟨-, -, rfl⟩ | ⟨-, -, rfl⟩ | rfl
  · interval_cases n <;> exact ⟨by decide, by decide⟩
  all_goals exact ⟨by decide, by decide⟩

theorem zipEntry_eq_some {p : Bytes} {entry : Zlentry} (h : zipEntry p = some entry) :
    zipDecodePrevlensize p = some entry.prevrawlensize ∧
      zipDecodeLength (p.drop entry.prevrawlensize)
        = some (entry.encoding, entry.lensize, entry.len) ∧
      entry.headersize = entry.prevrawlensize + entry.lensize := by
  simp only [zipEntry, Option.bind_eq_bind, Option.bind_eq_some_iff] at h
  obtain ⟨⟨prevrawlensize, prevrawlen⟩, hprev, ⟨encoding, lensize, len⟩, hdec, h⟩ := h
  rw [Option.some_inj] at h
  subst h
  refine ⟨?_, hdec, rfl⟩
  simp only [zipDecodePrevlen, Option.bind_eq_bind, Option.bind_eq_some_iff] at hprev
  obtain ⟨size, hsize, hprev⟩ := hprev
  rw [hsize, Option.some_inj]
  split_ifs at hprev
  all_goals
    obtain ⟨b, -, hprev⟩ := Option.bind_eq_some_iff.mp hprev
    exact (Prod.mk.inj (Option.some_inj.mp hprev)).1

theorem ziplistFindCompare_eq {p vstr : Bytes} {v : Value} {entry : Zlentry} {vencoding : UInt8}
    {vll : ℤ} (h : ziplistGet p = some v) (hentry : zipEntry p = some entry)
    (hcache : CacheOk vstr vencoding vll) :
    ∃ vencoding' vll',
      ziplistFindCompare p vstr entry.headersize entry.len entry.encoding vencoding vll
        = some (valueMatches v vstr, vencoding', vll') ∧ CacheOk vstr vencoding' vll' := by
  simp only [ziplistGet, hentry, Option.bind_eq_bind, Option.bind_eq_some_iff] at h
  obtain ⟨c, -, h⟩ := h
  split_ifs at h with hend
  simp only [Option.bind_some] at h
  unfold ziplistFindCompare
  by_cases hstr : zipIsStr entry.encoding
  · rw [if_pos hstr] at h ⊢
    refine ⟨vencoding, vll, ?_, hcache⟩
    obtain ⟨t, ht, hv⟩ := Option.bind_eq_some_iff.mp h
    obtain rfl := Option.some_inj.mp hv
    have hlen : t.length = entry.len := (slice_eq_some ht).2
    by_cases hl : entry.len = vstr.length
    · rw [if_pos hl, ht]
      rfl
    · have hts : t ≠ vstr := by
        rintro rfl
        exact hl hlen.symm
      rw [if_neg hl, valueMatches, decide_eq_false hts]
  · rw [if_neg hstr] at h ⊢
    obtain ⟨w, hw, hv⟩ := Option.bind_eq_some_iff.mp h
    obtain rfl := Option.some_inj.mp hv
    -- after the first integer the string was looked at
    have hlooked : ∃ vencoding' vll',
        (if vencoding = 0 then
          match zipTryEncoding vstr with
          | some (v, encoding) => (encoding, v)
          | none => (255, vll)
        else (vencoding, vll)) = (vencoding', vll') ∧ vencoding' ≠ 0 ∧
        CacheOk vstr vencoding' vll' := by
      rcases hcache with rfl | ⟨rfl, hnone⟩ | ⟨h0, h255, hsome⟩
      · rcases henc : zipTryEncoding vstr with _ | ⟨sval, encoding⟩
        · exact ⟨255, vll, rfl, by decide, .inr (.inl ⟨rfl, henc⟩)⟩
        · obtain ⟨h0, h255⟩ := zipTryEncoding_encoding henc
          exact ⟨encoding, sval, rfl, h0, .inr (.inr ⟨h0, h255, henc⟩)⟩
      · exact ⟨255, vll, if_neg (by decide), by decide, .inr (.inl ⟨rfl, hnone⟩)⟩
      · exact ⟨vencoding, vll, if_neg h0, h0, .inr (.inr ⟨h0, h255, hsome⟩)⟩
    obtain ⟨vencoding', vll', hlook, hne, hcache'⟩ := hlooked
    refine ⟨vencoding', vll', ?_, hcache'⟩
    rw [hlook]
    dsimp only
    rw [if_neg hne]
    rcases hcache' with h0 | ⟨rfl, hnone⟩ | ⟨-, h255, hsome⟩
    · exact absurd h0 hne
    · rw [if_neg (by decide), valueMatches, hnone]
    · rw [if_pos h255, hw, valueMatches, hsome]
      rfl

/-! ### The loop -/

/-- With `skip` entries skipped after each comparison, and `skipcnt` before the next,
the entry `i` is compared. -/
def Compared (skip skipcnt i : ℕ) : Prop := skipcnt ≤ i ∧ (i - skipcnt) % (skip + 1) = 0

instance (skip skipcnt i : ℕ) : Decidable (Compared skip skipcnt i) :=
  inferInstanceAs (Decidable (_ ∧ _))

theorem compared_zero_succ (skip i : ℕ) : Compared skip 0 (i + 1) ↔ Compared skip skip i := by
  unfold Compared
  rw [Nat.sub_zero]
  constructor
  · rintro ⟨-, hmod⟩
    have hdvd := Nat.dvd_of_mod_eq_zero hmod
    have hle := Nat.le_of_dvd (Nat.succ_pos i) hdvd
    refine ⟨by omega, Nat.mod_eq_zero_of_dvd ?_⟩
    have hsub := Nat.dvd_sub hdvd (Nat.dvd_refl (skip + 1))
    rwa [Nat.add_sub_add_right] at hsub
  · rintro ⟨hle, hmod⟩
    refine ⟨Nat.zero_le _, Nat.mod_eq_zero_of_dvd ?_⟩
    have hsum := Nat.dvd_add (Nat.dvd_of_mod_eq_zero hmod) (Nat.dvd_refl (skip + 1))
    rwa [show i - skip + (skip + 1) = i + 1 by omega] at hsum

theorem compared_succ_succ (skip c i : ℕ) :
    Compared skip (c + 1) (i + 1) ↔ Compared skip c i := by
  unfold Compared
  rw [Nat.add_sub_add_right, Nat.add_le_add_iff_right]

/-- The first of the texts `xs` that is compared and equal to `v`. -/
def firstFound (skip skipcnt : ℕ) (v : Bytes) (xs : List Bytes) : Option ℕ :=
  (List.range xs.length).find? fun i => decide (Compared skip skipcnt i ∧ xs[i]? = some v)

theorem find?_range_succ (n : ℕ) (f : ℕ → Bool) : (List.range (n + 1)).find? f
    = if f 0 then some 0 else ((List.range n).find? fun i => f (i + 1)).map (· + 1) := by
  rw [List.range_succ_eq_map, List.find?_cons, List.find?_map]
  cases f 0 <;> rfl

theorem firstFound_zero_cons (skip : ℕ) (v x : Bytes) (xs : List Bytes) :
    firstFound skip 0 v (x :: xs)
      = if x = v then some 0 else (firstFound skip skip v xs).map (· + 1) := by
  have hzero : Compared skip 0 0 := ⟨le_rfl, Nat.zero_mod _⟩
  rw [firstFound, List.length_cons, find?_range_succ]
  simp only [List.getElem?_cons_zero, List.getElem?_cons_succ, compared_zero_succ, hzero, true_and,
    Option.some_inj, decide_eq_true_eq, firstFound]

theorem firstFound_succ_cons (skip c : ℕ) (v x : Bytes) (xs : List Bytes) :
    firstFound skip (c + 1) v (x :: xs) = (firstFound skip c v xs).map (· + 1) := by
  have hzero : ¬Compared skip (c + 1) 0 := fun h => absurd h.1 (by omega)
  rw [firstFound, List.length_cons, find?_range_succ]
  simp only [List.getElem?_cons_succ, compared_succ_succ, hzero, false_and, decide_false,
    Bool.false_eq_true, if_false, firstFound]

section
variable {zl vstr : Bytes} {a b es : List Entry} {xs : List Bytes}

theorem IsZiplist.get_mid {e : Entry} (h : IsZiplist zl (a ++ e :: b)) {x : Bytes}
    (hx : bodyText e.body = some x) :
    ∃ v, ziplistGet (zl.drop (size a + 10)) = some v ∧ v.text = x := by
  obtain ⟨v, hv, hvx⟩ := Option.map_eq_some_iff.mp hx
  exact ⟨v, ziplistGet_mid h hv, hvx⟩

theorem ziplistFindLoop_eq {skip skipcnt : UInt32} {fuel : ℕ} {vencoding : UInt8} {vll : ℤ}
    (h : IsZiplist zl (a ++ b)) (htexts : Texts b xs) (hcache : CacheOk vstr vencoding vll)
    (hfuel : b.length < fuel) :
    ziplistFindLoop zl vstr skip fuel (size a + 10) skipcnt vencoding vll
      = some ((firstFound skip.toNat skipcnt.toNat vstr xs).map
          fun i => size (a ++ b.take i) + 10) := by
  induction b generalizing a xs fuel skipcnt vencoding vll with
  | nil =>
    obtain ⟨fuel, rfl⟩ : ∃ k, fuel = k + 1 := ⟨fuel - 1, by simp at hfuel; omega⟩
    obtain rfl : xs = [] := by simpa [Texts] using htexts
    rw [List.append_nil] at h
    rw [ziplistFindLoop, h.getElem?_end, Option.bind_eq_bind, Option.bind_some, if_pos rfl]
    rfl
  | cons e b ih =>
    obtain ⟨fuel, rfl⟩ : ∃ k, fuel = k + 1 := ⟨fuel - 1, by simp at hfuel; omega⟩
    obtain ⟨x, xs, rfl⟩ : ∃ x xs', xs = x :: xs' := by
      cases xs with
      | nil => simp [Texts] at htexts
      | cons x xs => exact ⟨x, xs, rfl⟩
    obtain ⟨hx, hxs⟩ : bodyText e.body = some x ∧ Texts b xs := by
      simpa [Texts] using htexts
    obtain ⟨c, hc, hne⟩ := h.getElem?_mid
    obtain ⟨entry, hentry, -, -, hraw⟩ := h.entry
    obtain ⟨v, hget, rfl⟩ := h.get_mid hx
    obtain ⟨hprevsize, hdec, hheader⟩ := zipEntry_eq_some hentry
    rw [List.drop_drop] at hdec
    have hnext : size a + 10 + (entry.prevrawlensize + entry.lensize + entry.len)
        = size (a ++ [e]) + 10 := by
      rw [size_append, size_cons, size_nil]
      omega
    have hlater : ∀ o : Option ℕ, (o.map (· + 1)).map (fun i => size (a ++ (e :: b).take i) + 10)
        = o.map fun i => size (a ++ [e] ++ b.take i) + 10 := by
      intro o
      rw [Option.map_map]
      congr 1
      funext i
      simp
    rw [List.append_cons] at h
    simp only [ziplistFindLoop, hc, hprevsize, hdec, hnext, Option.bind_eq_bind, Option.bind_some,
      if_neg hne]
    by_cases hzero : skipcnt = 0
    · subst hzero
      obtain ⟨vencoding', vll', hcompare, hcache'⟩ := ziplistFindCompare_eq hget hentry hcache
      rw [hheader, valueMatches_eq (ziplistGet_int hget)] at hcompare
      rw [if_pos rfl, hcompare, Option.bind_some, UInt32.toNat_zero, firstFound_zero_cons]
      by_cases hfound : v.text = vstr
      · rw [if_pos (decide_eq_true hfound), if_pos hfound, Option.map_some, List.take_zero,
          List.append_nil]
      · rw [if_neg (by simpa using hfound), if_neg hfound, hlater]
        exact ih h hxs hcache' (by simpa using hfuel)
    · -- this entry is skipped
      have hpos : skipcnt.toNat ≠ 0 := fun h0 => hzero (UInt32.toNat_inj.mp h0)
      obtain ⟨k, hk⟩ := Nat.exists_eq_succ_of_ne_zero hpos
      have hpred : (skipcnt - 1).toNat = k := by
        have hone : (1 : UInt32) ≤ skipcnt := by
          rw [UInt32.le_iff_toNat_le, hk]
          show 1 ≤ k + 1
          omega
        rw [UInt32.toNat_sub_of_le _ _ hone, hk]
        show k + 1 - 1 = k
        omega
      have hrest : ziplistFindLoop zl vstr skip fuel (size (a ++ [e]) + 10) (skipcnt - 1)
          vencoding vll = _ := ih h hxs hcache (by simpa using hfuel)
      rw [if_neg hzero, hrest, hpred, hk, firstFound_succ_cons, hlater]

end

/-! ### Storing a string -/

theorem ziplistIncrLength_drop {zl : Bytes} {p : ℕ} (hp : 10 ≤ p) (hlen : 10 ≤ zl.length)
    (incr : ℤ) : ∃ zl', ziplistIncrLength zl incr = some zl' ∧ zl'.drop p = zl.drop p := by
  obtain ⟨bs, hbs⟩ : ∃ bs, slice zl 8 2 = some bs := by
    refine ⟨(zl.drop 8).take 2, ?_⟩
    rw [slice, if_pos (by omega)]
  simp only [ziplistIncrLength, ziplistLength, hbs, Option.map_some, Option.bind_eq_bind,
    Option.bind_some]
  split_ifs
  · refine ⟨zl.take 8 ++ intBytes 2 ((leVal bs : ℤ) + incr) ++ zl.drop 10, ?_, ?_⟩
    · rw [setZiplistLength, store, length_intBytes, if_pos (by omega)]
    · have hfirst : (zl.take 8 ++ intBytes 2 ((leVal bs : ℤ) + incr)).length = 10 := by
        rw [List.length_append, length_intBytes, List.length_take]
        omega
      rw [List.drop_append, List.drop_of_length_le (by omega), hfirst, List.nil_append,
        List.drop_drop, Nat.add_sub_cancel' hp]
  · exact ⟨zl, rfl, rfl⟩

theorem ziplistInsertWrite_get {zl : Bytes} {p prevlen : ℕ} (s : Text) (hp : 10 ≤ p)
    (hprev : prevlen < 2 ^ 32)
    (hroom : p + ((zipPrevEncodeLength prevlen).length + (contentSize s.1
      + (zipEncodeLength (contentEncoding s.1) s.1.length).length)) ≤ zl.length) :
    ∃ zl' entry v, ziplistInsertWrite zl p prevlen s.1 = some zl' ∧
      zipEntry (zl'.drop p) = some entry ∧ entry.prevrawlen = prevlen ∧
      ziplistGet (zl'.drop p) = some v ∧ v.text = s.1 := by
  obtain ⟨body, hbody, hok, hvalue, hlen⟩ := encodeBody_spec s.2
  obtain ⟨content, hcontent, rfl⟩ := Option.map_eq_some_iff.mp hbody
  have hprevlen : (zipPrevEncodeLength prevlen).length
      = prevSize (decide (zipBiglen ≤ prevlen)) := by
    rw [zipPrevEncodeLength_eq, length_prevField]
  have hsize : content.length = contentSize s.1 := by
    rw [List.length_append] at hlen
    omega
  -- the bytes that are overwritten
  obtain ⟨A, x, y, z, B, rfl, hA, hx, hy, hz⟩ : ∃ A x y z B, zl = A ++ (x ++ (y ++ (z ++ B))) ∧
      A.length = p ∧ x.length = (zipPrevEncodeLength prevlen).length ∧
      y.length = (zipEncodeLength (contentEncoding s.1) s.1.length).length ∧
      z.length = content.length := by
    generalize (zipPrevEncodeLength prevlen).length = l at *
    generalize (zipEncodeLength (contentEncoding s.1) s.1.length).length = m at *
    refine ⟨zl.take p, (zl.drop p).take l, ((zl.drop p).drop l).take m,
      (((zl.drop p).drop l).drop m).take content.length,
      (((zl.drop p).drop l).drop m).drop content.length, ?_, ?_, ?_, ?_, ?_⟩
    · rw [List.take_append_drop, List.take_append_drop, List.take_append_drop,
        List.take_append_drop]
    all_goals
      simp only [List.length_take, List.length_drop]
      omega
  have hstore₁ := store_append (a := A) (b := x) (d := zipPrevEncodeLength prevlen)
    (c := y ++ (z ++ B)) hA.symm hx.symm
  have hstore₂ := store_append (a := A ++ zipPrevEncodeLength prevlen) (b := y)
    (d := zipEncodeLength (contentEncoding s.1) s.1.length) (c := z ++ B)
    (p := p + (zipPrevEncodeLength prevlen).length) (by rw [List.length_append]; omega) hy.symm
  have hstore₃ := store_append (a := A ++ (zipPrevEncodeLength prevlen
      ++ zipEncodeLength (contentEncoding s.1) s.1.length)) (b := z) (d := content) (c := B)
    (p := p + (zipPrevEncodeLength prevlen).length
      + (zipEncodeLength (contentEncoding s.1) s.1.length).length)
    (by rw [List.length_append, List.length_append]; omega) hz.symm
  simp only [List.append_assoc] at hstore₁ hstore₂ hstore₃
  obtain ⟨zl', hincr, hdrop⟩ := ziplistIncrLength_drop hp (show 10 ≤ (A
    ++ (zipPrevEncodeLength prevlen ++ (zipEncodeLength (contentEncoding s.1) s.1.length
      ++ (content ++ B)))).length by rw [List.length_append]; omega) 1
  rw [List.drop_left' hA] at hdrop
  have hwritten : zl'.drop p = prevField (decide (zipBiglen ≤ prevlen)) prevlen
      ++ (zipEncodeLength (contentEncoding s.1) s.1.length ++ content ++ B) := by
    rw [hdrop, zipPrevEncodeLength_eq, List.append_assoc]
  obtain ⟨entry, hentry, -, hprevraw, -⟩ :=
    zipEntry_append (prevFits_zipPrevEncodeLength prevlen) hprev hok B
  refine ⟨zl', entry, entryValue s.1, ?_, ?_, hprevraw, ?_, text_entryValue s.1⟩
  · simp only [ziplistInsertWrite, hstore₁, hstore₂, hcontent, hstore₃, Option.bind_eq_bind,
      Option.bind_some]
    exact hincr
  · rw [hwritten]
    exact hentry
  · rw [hwritten]
    exact ziplistGet_append (prevFits_zipPrevEncodeLength prevlen) hprev hok hvalue B

/-! ### Entries hold strings -/

/-- Entries behave like the strings they were made from: what is written for a string
decodes to it, `ziplistFind` started at the head finds the first entry in turn with
the text, and `ziplistCompare` compares texts. -/
theorem entries_hold_strings :
    (∀ (zl : Bytes) (p prevlen : ℕ) (s : Text), 10 ≤ p → prevlen < 2 ^ 32 →
      p + ((zipPrevEncodeLength prevlen).length + (contentSize s.1
        + (zipEncodeLength (contentEncoding s.1) s.1.length).length)) ≤ zl.length →
      ∃ zl' entry v, ziplistInsertWrite zl p prevlen s.1 = some zl' ∧
        zipEntry (zl'.drop p) = some entry ∧ entry.prevrawlen = prevlen ∧
        ziplistGet (zl'.drop p) = some v ∧ v.text = s.1) ∧
    ∀ (zl : Bytes) (es : List Entry) (xs : List Bytes), IsZiplist zl es → Texts es xs →
      (∀ (v : Bytes) (skip : UInt32), ziplistFind zl ziplistHeaderSize v skip
        = some (((List.range xs.length).find?
            fun i => decide (i % (skip.toNat + 1) = 0 ∧ xs[i]? = some v)).map
              fun i => size (es.take i) + 10)) ∧
      ∀ (i : ℕ) (x v : Bytes), xs[i]? = some x →
        ziplistCompare (zl.drop (size (es.take i) + 10)) v = some (decide (x = v)) := by
  refine ⟨fun zl p prevlen s hp hprev hroom => ziplistInsertWrite_get s hp hprev hroom, ?_⟩
  intro zl es xs h htexts
  constructor
  · intro v skip
    have hlen := h.length_eq
    have hle := length_le_size es
    have hloop : ziplistFindLoop zl v skip zl.length (size [] + 10) 0 0 0
        = some ((firstFound skip.toNat (0 : UInt32).toNat v xs).map
            fun i => size ([] ++ es.take i) + 10) :=
      ziplistFindLoop_eq h htexts (.inl rfl) (by omega)
    rw [ziplistFind]
    refine hloop.trans ?_
    rw [firstFound]
    simp [Compared]
  · intro i x v hx
    have hi : i < es.length := by
      have hxs := congrArg List.length htexts
      rw [List.length_map, List.length_map] at hxs
      have := (List.getElem?_eq_some_iff.mp hx).1
      omega
    have htext : bodyText es[i].body = some x := by
      have hmap := congrArg (·[i]?) htexts
      simp only [List.getElem?_map, hx, List.getElem?_eq_getElem hi, Option.map_some] at hmap
      exact Option.some_inj.mp hmap
    have hsplit : es = es.take i ++ es[i] :: es.drop (i + 1) := by
      rw [← List.drop_eq_getElem_cons hi, List.take_append_drop]
    rw [hsplit] at h
    obtain ⟨w, hget, rfl⟩ := h.get_mid htext
    exact ziplistCompare_text hget v

/-- The entries of the strings "a", "12" and "12". -/
def mixedEntries : List Entry :=
  [newEntry 0 ⟨[97], by decide⟩, newEntry 3 ⟨[49, 50], by decide⟩,
    newEntry 2 ⟨[49, 50], by decide⟩]

/-- "12" is written over the entries, found at the third place when every other entry is
skipped, and compared with the second. -/
theorem entries_hold_strings_mixed :
    (∃ zl' entry v, ziplistInsertWrite (image 3 mixedEntries) 10 0 [49, 50] = some zl' ∧
      zipEntry (zl'.drop 10) = some entry ∧ entry.prevrawlen = 0 ∧
      ziplistGet (zl'.drop 10) = some v ∧ v.text = [49, 50]) ∧
    ziplistFind (image 3 mixedEntries) ziplistHeaderSize [49, 50] 1 = some (some 15) ∧
    ziplistCompare ((image 3 mixedEntries).drop 13) [49, 50] = some true := by
  obtain ⟨hwrite, hread⟩ := entries_hold_strings
  have hzl : IsZiplist (image 3 mixedEntries) mixedEntries :=
    ⟨⟨3, by decide, rfl⟩, ⟨by decide, by decide, by decide, trivial⟩, by decide⟩
  have htexts : Texts mixedEntries [[97], [49, 50], [49, 50]] := by
    unfold Texts
    decide +kernel
  obtain ⟨hfind, hcompare⟩ :=
    hread (image 3 mixedEntries) mixedEntries [[97], [49, 50], [49, 50]] hzl htexts
  refine ⟨hwrite (image 3 mixedEntries) 10 0 ⟨[49, 50], by decide⟩ (by decide) (by decide)
    (by decide), (hfind [49, 50] 1).trans (by decide), (hcompare 1 [49, 50] [49, 50] rfl).trans ?_⟩
  decide

end Ziplist

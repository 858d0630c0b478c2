/-
Access to the entries of a ziplist.

The functions take and return offsets of entries; `none` inside is `NULL`.

* `ziplistNext_mid`, `ziplistPrev_mid`, `ziplistIndex_nat`, `ziplistIndex_neg` — the
  offsets of entries;
* `ziplistGet_mid` — the value of an entry;
* `ziplistLen_eq` — the number of entries;
* `ziplistDeleteEntries_mid_isZiplist` — deletion by offset.
-/
import RedisModel.ZiplistRun

open ByteBuffer StringNumber

namespace Ziplist

/-! ### The functions -/

/-- The loop of `ziplistIndex` for negative indexes, `while (entry.prevrawlen > 0 &&
index--)`. -/
def ziplistIndexBack (zl : Bytes) : ℕ → ℕ → ℤ → Option (ℕ × ℤ)
  | 0, _, _ => none
  | fuel + 1, p, index => do
    let entry ← zipEntry (zl.drop p)
    if entry.prevrawlen > 0 then
      if index = 0 then some (p, -1)
      else ziplistIndexBack zl fuel (p - entry.prevrawlen) (index - 1)
    else some (p, index)

/-- The loop of `ziplistIndex` for other indexes, `while (p[0] != ZIP_END && index--)`. -/
def ziplistIndexForward (zl : Bytes) : ℕ → ℕ → ℤ → Option (ℕ × ℤ)
  | 0, _, _ => none
  | fuel + 1, p, index => do
    let b ← zl[p]?
    if b = zipEnd then some (p, index)
    else if index = 0 then some (p, -1)
    else do
      let len ← zipRawEntryLength (zl.drop p)
      ziplistIndexForward zl fuel (p + len) (index - 1)

def ziplistIndex (zl : Bytes) (index : ℤ) : Option (Option ℕ) := do
  let (p, index) ←
    if index < 0 then do
      let tail ← ziplistTailOffset zl
      let b ← zl[tail]?
      if b ≠ zipEnd then ziplistIndexBack zl zl.length tail (-index - 1)
      else some (tail, -index - 1)
    else ziplistIndexForward zl zl.length ziplistHeaderSize index
  let b ← zl[p]?
  some (if b = zipEnd ∨ index > 0 then none else some p)

def ziplistPrev (zl : Bytes) (p : ℕ) : Option (Option ℕ) := do
  let b ← zl[p]?
  if b = zipEnd then do
    let tail ← ziplistTailOffset zl
    let b ← zl[tail]?
    some (if b = zipEnd then none else some tail)
  else if p = ziplistHeaderSize then some none
  else do
    let entry ← zipEntry (zl.drop p)
    if entry.prevrawlen > 0 then some (some (p - entry.prevrawlen)) else none

def ziplistCompare (p s : Bytes) : Option Bool := do
  let b ← p[0]?
  if b = zipEnd then some false
  else do
    let entry ← zipEntry p
    if zipIsStr entry.encoding then
      if entry.len = s.length then do
        let t ← slice p entry.headersize s.length
        some (decide (t = s))
      else some false
    else match zipTryEncoding s with
      | some (sval, _) => do
        let zval ← zipLoadInteger (p.drop entry.headersize) entry.encoding
        some (decide (zval = sval))
      | none => some false

/-- The loop of `ziplistLen`. -/
def ziplistCount (zl : Bytes) : ℕ → ℕ → Option ℕ
  | 0, _ => none
  | fuel + 1, p => do
    let b ← zl[p]?
    if b = zipEnd then some 0
    else do
      let len ← zipRawEntryLength (zl.drop p)
      let n ← ziplistCount zl fuel (p + len)
      some (n + 1)

/-- `ziplistLen`: the number of entries, and the block, where the number may have been
stored. -/
def ziplistLen (zl : Bytes) : Option (ℕ × Bytes) := do
  let len ← ziplistLength zl
  if len < 65535 then some (len, zl)
  else do
    let n ← ziplistCount zl zl.length ziplistHeaderSize
    if n < 65535 then do
      let zl ← setZiplistLength zl n
      some (n, zl)
    else some (n, zl)

section
variable (junk : ℕ → UInt8)

/-- `ziplistDelete`; the offset stays the same. -/
def ziplistDelete (zl : Bytes) (p : ℕ) : Option Bytes := ziplistDeleteEntries junk zl p 1

end

/-! ### Reading one entry -/

section
variable {zl : Bytes} {a b : List Entry} {e : Entry}

theorem IsZiplist.split_image (h : IsZiplist zl (a ++ b)) : ∃ T O C,
    zl = layout T O C (encode 0 a ++ encode (lastRaw 0 a) b) ∧ Fits (lastRaw 0 a) b ∧
      lastRaw 0 a < 2 ^ 32 ∧ size a + size b + 11 < 2 ^ 32 := by
  obtain ⟨cnt, -, rfl⟩ := h.block
  have hroom := h.room
  rw [size_append] at hroom
  refine ⟨size (a ++ b) + 11, tailSize (a ++ b) + 10, cnt, ?_, (fits_append.mp h.fits).2,
    lastRaw_lt (by decide) (by omega), hroom⟩
  rw [image, encode_append]

theorem IsZiplist.drop_mid (h : IsZiplist zl (a ++ e :: b)) :
    zl.drop (size a + 10) = encode (lastRaw 0 a) (e :: b) ++ [zipEnd] := by
  obtain ⟨T, O, C, rfl, -⟩ := h.split_image
  exact layout_drop_append (by simp)

theorem IsZiplist.getElem?_mid (h : IsZiplist zl (a ++ e :: b)) :
    ∃ c, zl[size a + 10]? = some c ∧ c ≠ zipEnd := by
  obtain ⟨T, O, C, rfl, hfits, -⟩ := h.split_image
  rw [layout_getElem?_append (by simp)]
  exact encode_cons_head hfits.1 b [zipEnd]

theorem IsZiplist.getElem?_end (h : IsZiplist zl a) : zl[size a + 10]? = some zipEnd := by
  rw [← List.append_nil a] at h
  obtain ⟨T, O, C, rfl, -⟩ := h.split_image
  rw [layout_getElem?_append (by simp)]
  rfl

theorem IsZiplist.rawLength_mid (h : IsZiplist zl (a ++ e :: b)) :
    zipRawEntryLength (zl.drop (size a + 10)) = some e.raw := by
  obtain ⟨T, O, C, -, hfits, -, hroom⟩ := h.split_image
  rw [size_cons] at hroom
  rw [h.drop_mid]
  exact zipRawEntryLength_encode_cons hfits.1 (by omega) b [zipEnd]

theorem ziplistGet_mid (h : IsZiplist zl (a ++ e :: b)) {v : Value}
    (hv : bodyValue e.body = some v) : ziplistGet (zl.drop (size a + 10)) = some v := by
  obtain ⟨T, O, C, -, hfits, hlast, -⟩ := h.split_image
  rw [h.drop_mid, encode_cons, List.append_assoc, List.append_assoc]
  exact ziplistGet_append hfits.1 hlast e.body_ok hv _

theorem ziplistNext_mid (h : IsZiplist zl (a ++ e :: b)) : ziplistNext zl (size a + 10)
    = some (if b = [] then none else some (size (a ++ [e]) + 10)) := by
  obtain ⟨c, hc, hne⟩ := h.getElem?_mid
  have hpos : size a + 10 + e.raw = size (a ++ [e]) + 10 := by
    rw [size_append, size_cons, size_nil]
    omega
  simp only [ziplistNext, hc, h.rawLength_mid, Option.bind_eq_bind, Option.bind_some, if_neg hne,
    hpos]
  rcases b with _ | ⟨f, b⟩
  · have hend := h.getElem?_end
    simp only [hend, Option.bind_some, if_true]
  · rw [List.append_cons] at h
    obtain ⟨d, hd, hne'⟩ := h.getElem?_mid
    simp only [hd, Option.bind_some, if_neg hne', reduceCtorEq, if_false]

theorem ziplistNext_end (h : IsZiplist zl a) : ziplistNext zl (size a + 10) = some none := by
  simp only [ziplistNext, h.getElem?_end, Option.bind_eq_bind, Option.bind_some, if_true]

theorem ziplistPrev_mid {d : Entry} (h : IsZiplist zl (a ++ d :: e :: b)) :
    ziplistPrev zl (size (a ++ [d]) + 10) = some (some (size a + 10)) := by
  rw [List.append_cons] at h
  obtain ⟨c, hc, hne⟩ := h.getElem?_mid
  obtain ⟨entry, hentry, hprev, -, -⟩ := h.entry
  have hlast : lastRaw 0 (a ++ [d]) = d.raw := by simp
  have hd := d.raw_pos
  have hsize : size (a ++ [d]) = size a + d.raw := by simp
  have hhead : ¬ size (a ++ [d]) + 10 = ziplistHeaderSize := by
    unfold ziplistHeaderSize
    omega
  have hpos : size (a ++ [d]) + 10 - d.raw = size a + 10 := by omega
  simp only [ziplistPrev, hc, hentry, hprev, hlast, Option.bind_eq_bind, Option.bind_some,
    if_neg hne, if_neg hhead, gt_iff_lt, hd, if_true, hpos]

theorem ziplistPrev_head (h : IsZiplist zl (e :: b)) :
    ziplistPrev zl (size ([] : List Entry) + 10) = some none := by
  rw [← List.nil_append (e :: b)] at h
  obtain ⟨c, hc, hne⟩ := h.getElem?_mid
  have hhead : size ([] : List Entry) + 10 = ziplistHeaderSize := rfl
  simp only [ziplistPrev, hc, Option.bind_eq_bind, Option.bind_some, if_neg hne, if_pos hhead]

theorem ziplistCompare_of_get {p s : Bytes} {v : Value} (h : ziplistGet p = some v) :
    ziplistCompare p s = some (match v with
      | .str t => decide (t = s)
      | .int w => match zipTryEncoding s with
        | some (sval, _) => decide (w = sval)
        | none => false) := by
  simp only [ziplistGet, Option.bind_eq_bind, Option.bind_eq_some_iff] at h
  obtain ⟨c, hc, h⟩ := h
  by_cases hend : c = zipEnd
  · simp [hend] at h
  rw [if_neg hend, Option.bind_eq_some_iff] at h
  obtain ⟨entry, hentry, h⟩ := h
  simp only [ziplistCompare, hc, hentry, Option.bind_eq_bind, Option.bind_some, if_neg hend]
  by_cases hstr : zipIsStr entry.encoding
  · rw [if_pos hstr, Option.bind_eq_some_iff] at h
    obtain ⟨t, ht, hv⟩ := h
    obtain rfl := Option.some_inj.mp hv
    have hlen : t.length = entry.len := (slice_eq_some ht).2
    rw [if_pos hstr]
    by_cases hl : entry.len = s.length
    · rw [if_pos hl, ← hl, ht, Option.bind_some]
    · have hts : t ≠ s := fun heq => hl (by rw [← hlen, heq])
      rw [if_neg hl]
      simp [hts]
  · rw [if_neg hstr, Option.bind_eq_some_iff] at h
    obtain ⟨w, hw, hv⟩ := h
    obtain rfl := Option.some_inj.mp hv
    rw [if_neg hstr]
    rcases zipTryEncoding s with _ | ⟨sval, encoding⟩
    · rfl
    · simp only [hw, Option.bind_some]

end

/-! ### Walks -/

section
variable {zl : Bytes} {a b es : List Entry} {e : Entry}

theorem ziplistIndexForward_eq {fuel i : ℕ} (h : IsZiplist zl (a ++ b)) (hfuel : b.length < fuel) :
    ziplistIndexForward zl fuel (size a + 10) i
      = some (if i < b.length then (size (a ++ b.take i) + 10, -1)
          else (size (a ++ b) + 10, ((i - b.length : ℕ) : ℤ))) := by
  induction fuel generalizing a b i with
  | zero => exact absurd hfuel (Nat.not_lt_zero _)
  | succ fuel ih =>
    rcases b with _ | ⟨e, b⟩
    · rw [List.append_nil] at h
      simp only [ziplistIndexForward, h.getElem?_end, Option.bind_eq_bind, Option.bind_some,
        if_true, List.length_nil, Nat.not_lt_zero, if_false, List.append_nil, Nat.sub_zero]
    · obtain ⟨c, hc, hne⟩ := h.getElem?_mid
      rcases i with _ | i
      · simp only [ziplistIndexForward, hc, Option.bind_eq_bind, Option.bind_some, if_neg hne,
          Nat.cast_zero, if_true, List.length_cons, Nat.succ_pos, List.take_zero, List.append_nil]
      · have hpos : size a + 10 + e.raw = size (a ++ [e]) + 10 := by
          simp
          omega
        have hi : ((i + 1 : ℕ) : ℤ) ≠ 0 := by omega
        have hpred : ((i + 1 : ℕ) : ℤ) - 1 = (i : ℕ) := by omega
        have hraw := h.rawLength_mid
        rw [List.append_cons] at h
        simp only [ziplistIndexForward, hc, hraw, Option.bind_eq_bind, Option.bind_some,
          if_neg hne, if_neg hi, hpos, hpred]
        rw [ih h (by simpa using hfuel)]
        simp

theorem ziplistIndex_nat (h : IsZiplist zl es) (i : ℕ) : ziplistIndex zl i
    = some (if i < es.length then some (size (es.take i) + 10) else none) := by
  have hlen := h.length_eq
  have hle := length_le_size es
  have hloop : ziplistIndexForward zl zl.length (size [] + 10) i
      = some (if i < es.length then (size ([] ++ es.take i) + 10, -1)
          else (size ([] ++ es) + 10, ((i - es.length : ℕ) : ℤ))) :=
    ziplistIndexForward_eq h (by omega)
  rw [List.nil_append, List.nil_append] at hloop
  have hneg : ¬ ((i : ℕ) : ℤ) < 0 := by omega
  have hstart : size ([] : List Entry) + 10 = ziplistHeaderSize := rfl
  rw [hstart] at hloop
  simp only [ziplistIndex, if_neg hneg, hloop, Option.bind_eq_bind, Option.bind_some]
  by_cases hi : i < es.length
  · obtain ⟨e, b, hb⟩ : ∃ e b, es.drop i = e :: b := by
      rcases hd : es.drop i with _ | ⟨e, b⟩
      · exact absurd (List.drop_eq_nil_iff.mp hd) (by omega)
      · exact ⟨e, b, rfl⟩
    rw [← List.take_append_drop i es, hb] at h
    obtain ⟨c, hc, hne⟩ := h.getElem?_mid
    simp only [if_pos hi, hc, Option.bind_some, hne, false_or]
    rfl
  · simp only [if_neg hi, h.getElem?_end, Option.bind_some, true_or, if_true]

theorem ziplistIndexBack_eq {fuel k : ℕ} (h : IsZiplist zl (a ++ e :: b))
    (hfuel : a.length < fuel) : ∃ p i, ziplistIndexBack zl fuel (size a + 10) k = some (p, i) ∧
      (k ≤ a.length → p = size (a.take (a.length - k)) + 10 ∧ i ≤ 0) ∧
      (a.length < k → p = 10 ∧ 0 < i) := by
  induction fuel generalizing a e b k with
  | zero => exact absurd hfuel (Nat.not_lt_zero _)
  | succ fuel ih =>
    obtain ⟨entry, hentry, hprev, -, -⟩ := h.entry
    rcases List.eq_nil_or_concat' a with rfl | ⟨a, d, rfl⟩
    · have hzero : ¬ lastRaw 0 ([] : List Entry) > 0 := by simp
      refine ⟨10, k, ?_, fun hk => ?_, fun hk => ⟨rfl, by simpa using hk⟩⟩
      · simp only [ziplistIndexBack, hentry, hprev, Option.bind_eq_bind, Option.bind_some,
          if_neg hzero]
        rfl
      · simp only [List.length_nil, nonpos_iff_eq_zero] at hk
        simp [hk]
    · have hlast : lastRaw 0 (a ++ [d]) = d.raw := by simp
      have hd := d.raw_pos
      have hsize : size (a ++ [d]) = size a + d.raw := by simp
      have hpos : size (a ++ [d]) + 10 - d.raw = size a + 10 := by omega
      rcases k with _ | k
      · refine ⟨size (a ++ [d]) + 10, -1, ?_, fun _ => ?_, fun hk => absurd hk (by omega)⟩
        · simp only [ziplistIndexBack, hentry, hprev, hlast, Option.bind_eq_bind, Option.bind_some,
            gt_iff_lt, hd, if_true, Nat.cast_zero]
        · rw [Nat.sub_zero, List.take_length]
          simp
      · rw [List.append_assoc, List.singleton_append] at h
        obtain ⟨p, i, hloop, hin, hout⟩ := ih (k := k) h (by simpa using hfuel)
        have hk : ((k + 1 : ℕ) : ℤ) ≠ 0 := by omega
        have hpred : ((k + 1 : ℕ) : ℤ) - 1 = (k : ℕ) := by omega
        refine ⟨p, i, ?_, fun hle => ?_, fun hlt => hout (by simpa using hlt)⟩
        · simp only [ziplistIndexBack, hentry, hprev, hlast, Option.bind_eq_bind, Option.bind_some,
            gt_iff_lt, hd, if_true, if_neg hk, hpos, hpred, hloop]
        · rw [List.length_append, List.length_singleton] at hle ⊢
          obtain ⟨hp, hi⟩ := hin (by omega)
          refine ⟨?_, hi⟩
          rw [hp, List.take_append_of_le_length (by omega), Nat.add_sub_add_right]

theorem ziplistIndex_neg (h : IsZiplist zl es) (k : ℕ) : ziplistIndex zl (-(k + 1 : ℕ))
    = some (if k < es.length then some (size (es.take (es.length - (k + 1))) + 10) else none) := by
  have hneg : (-(k + 1 : ℕ) : ℤ) < 0 := by omega
  have hindex : -(-(k + 1 : ℕ) : ℤ) - 1 = (k : ℕ) := by omega
  have htail := h.header.2.1
  rcases List.eq_nil_or_concat' es with rfl | ⟨a, e, rfl⟩
  · have hend : zl[tailSize [] + 10]? = some zipEnd := h.getElem?_end
    simp only [ziplistIndex, if_pos hneg, htail, hend, Option.bind_eq_bind, Option.bind_some,
      ne_eq, not_true_eq_false, if_false, true_or, if_true, List.length_nil, Nat.not_lt_zero]
  · have hsize : tailSize (a ++ [e]) = size a := by simp [tailSize]
    rw [hsize] at htail
    obtain ⟨c, hc, hne⟩ := h.getElem?_mid
    have hlen := h.length_eq
    have hle := length_le_size (a ++ [e])
    rw [List.length_append, List.length_singleton] at hle
    have hfuel : a.length < zl.length := by omega
    obtain ⟨p, i, hloop, hin, hout⟩ : ∃ p i,
        ziplistIndexBack zl zl.length (size a + 10) k = some (p, i) ∧
        (k ≤ a.length → p = size (a.take (a.length - k)) + 10 ∧ i ≤ 0) ∧
        (a.length < k → p = 10 ∧ 0 < i) := ziplistIndexBack_eq h hfuel
    simp only [ziplistIndex, if_pos hneg, htail, hc, hindex, hloop, Option.bind_eq_bind,
      Option.bind_some, ne_eq, hne, not_false_eq_true, if_true]
    rw [List.length_append, List.length_singleton]
    by_cases hk : k ≤ a.length
    · obtain ⟨rfl, hi⟩ := hin hk
      have htake : (a ++ [e]).take (a.length + 1 - (k + 1)) = a.take (a.length - k) := by
        rw [Nat.add_sub_add_right, List.take_append_of_le_length (by omega)]
      obtain ⟨f, b', hb'⟩ : ∃ f b', (a ++ [e]).drop (a.length - k) = f :: b' := by
        rcases hd : (a ++ [e]).drop (a.length - k) with _ | ⟨f, b'⟩
        · have := List.drop_eq_nil_iff.mp hd
          rw [List.length_append, List.length_singleton] at this
          omega
        · exact ⟨f, b', rfl⟩
      rw [← List.take_append_drop (a.length - k) (a ++ [e]), hb',
        List.take_append_of_le_length (by omega)] at h
      obtain ⟨c', hc', hne'⟩ := h.getElem?_mid
      have hi' : ¬ i > 0 := not_lt.mpr hi
      simp only [hc', Option.bind_some, hne', hi', or_self, if_false, htake,
        if_pos (show k < a.length + 1 by omega)]
    · obtain ⟨rfl, hi⟩ := hout (by omega)
      obtain ⟨c', hc', -⟩ : ∃ c', zl[10]? = some c' ∧ True := by
        have hlt : 10 < zl.length := by omega
        exact ⟨zl[10], List.getElem?_eq_getElem hlt, trivial⟩
      simp only [hc', Option.bind_some, gt_iff_lt, hi, or_true, if_true,
        if_neg (show ¬ k < a.length + 1 by omega)]

end

/-! ### The number of entries -/

section
variable {zl : Bytes} {a b es : List Entry}

theorem ziplistCount_eq {fuel : ℕ} (h : IsZiplist zl (a ++ b)) (hfuel : b.length < fuel) :
    ziplistCount zl fuel (size a + 10) = some b.length := by
  induction fuel generalizing a b with
  | zero => exact absurd hfuel (Nat.not_lt_zero _)
  | succ fuel ih =>
    rcases b with _ | ⟨e, b⟩
    · rw [List.append_nil] at h
      simp only [ziplistCount, h.getElem?_end, Option.bind_eq_bind, Option.bind_some, if_true,
        List.length_nil]
    · obtain ⟨c, hc, hne⟩ := h.getElem?_mid
      have hraw := h.rawLength_mid
      have hsize : size (a ++ [e]) = size a + e.raw := by simp
      have hpos : size a + 10 + e.raw = size (a ++ [e]) + 10 := by omega
      rw [List.append_cons] at h
      simp only [ziplistCount, hc, hraw, Option.bind_eq_bind, Option.bind_some, if_neg hne, hpos]
      rw [ih h (by simpa using hfuel)]
      rfl

theorem ziplistLen_eq (h : IsZiplist zl es) :
    ∃ zl', ziplistLen zl = some (es.length, zl') ∧ IsZiplist zl' es := by
  obtain ⟨-, -, cnt, hcnt, hor⟩ := h.header
  by_cases hlt : cnt < 65535
  · obtain rfl : cnt = es.length := by omega
    refine ⟨zl, ?_, h⟩
    simp only [ziplistLen, hcnt, Option.bind_eq_bind, Option.bind_some, if_pos hlt]
  · have hlen := h.length_eq
    have hle := length_le_size es
    have hloop : ziplistCount zl zl.length (size [] + 10) = some es.length :=
      ziplistCount_eq h (by omega)
    have hstart : size ([] : List Entry) + 10 = ziplistHeaderSize := rfl
    rw [hstart] at hloop
    by_cases hes : es.length < 65535
    · obtain ⟨C, hC, rfl⟩ := h.block
      refine ⟨image es.length es, ?_, ⟨es.length, ⟨by omega, Or.inl rfl⟩, rfl⟩, h.fits, h.room⟩
      simp only [ziplistLen, hcnt, hloop, Option.bind_eq_bind, Option.bind_some, if_neg hlt,
        if_pos hes]
      rw [image, setZiplistLength_layout rfl]
      rfl
    · refine ⟨zl, ?_, h⟩
      simp only [ziplistLen, hcnt, hloop, Option.bind_eq_bind, Option.bind_some, if_neg hlt,
        if_neg hes]

end

/-! ### Insertion and deletion by offset -/

section
variable (junk : ℕ → UInt8) {zl : Bytes} {a b d : List Entry}

theorem ziplistDeleteEntries_mid_isZiplist (h : IsZiplist zl (a ++ (d ++ b))) (hd : d ≠ [])
    (hroom : size (a ++ relink (lastRaw 0 a) b) + 11 < 2 ^ 32) :
    ∃ zl', ziplistDeleteEntries junk zl (size a + 10) d.length = some zl' ∧
      IsZiplist zl' (a ++ relink (lastRaw 0 a) b) := by
  have hpos := List.length_pos_of_ne_nil hd
  have hvalid : (Op.delete a.length d.length).Valid (a ++ (d ++ b)) := by
    refine ⟨?_, hpos⟩
    rw [List.length_append, List.length_append]
    omega
  have hon : (Op.delete a.length d.length).onEntries (a ++ (d ++ b))
      = a ++ relink (lastRaw 0 a) b := by
    simp only [Op.onEntries, List.take_left']
    rw [← List.drop_drop, List.drop_left, List.drop_left]
  obtain ⟨cnt, hcnt, hdel⟩ := onZiplist_delete junk h hvalid
  have hfits := Op.fits_onEntries h.fits (.delete a.length d.length)
  have hroom' : (Op.delete a.length d.length).HasRoom (a ++ (d ++ b)) := by
    unfold Op.HasRoom
    rwa [hon]
  rw [if_pos hroom', hon, List.take_left] at hdel
  rw [hon] at hcnt hfits
  exact ⟨_, hdel, ⟨cnt, hcnt, rfl⟩, hfits, hroom⟩

end

end Ziplist

/-
The cascade of prevlen updates (`__ziplistCascadeUpdate`) on lists of entries.

When an entry changes its size, the prevlen field of its successor may become
too narrow; widening the field changes the size of the successor, and so on.
`grow` is that effect on a list of entries.

* `ziplistCascadeLoop_layout` — the loop turns the entries `r` after the
  changed one `e` into `grow e.raw r`, updating the total size and the tail
  offset, or leaves memory when the total no longer fits 32 bits;
* `fits_grow`, `map_body_grow` — what `grow` establishes and what it keeps.
-/
import RedisModel.ZiplistLayout

open ByteBuffer StringNumber

namespace Ziplist

/-- The entries that follow an entry of `prev` bytes, after every prevlen field
that became too narrow was widened. -/
def grow : ℕ → List Entry → List Entry
  | _, [] => []
  | prev, e :: es =>
    if PrevFits e.wide prev then e :: es
    else e.withWidth true :: grow (e.withWidth true).raw es

@[simp] theorem grow_nil (prev : ℕ) : grow prev [] = [] := rfl

theorem grow_cons_of_fits {prev : ℕ} {e : Entry} (h : PrevFits e.wide prev)
    (es : List Entry) : grow prev (e :: es) = e :: es := if_pos h

theorem grow_cons_of_not_fits {prev : ℕ} {e : Entry} (h : ¬ PrevFits e.wide prev)
    (es : List Entry) :
    grow prev (e :: es) = e.withWidth true :: grow (e.withWidth true).raw es := if_neg h

theorem grow_of_fits {prev : ℕ} {es : List Entry} (h : Fits prev es) :
    grow prev es = es := by
  cases es with
  | nil => rfl
  | cons e es => exact if_pos h.1

theorem fits_grow {prev stale : ℕ} {es : List Entry} (h : Fits stale es) :
    Fits prev (grow prev es) := by
  induction es generalizing prev stale with
  | nil => trivial
  | cons e es ih =>
    rw [grow]
    split
    case isTrue hfit => exact ⟨hfit, h.2⟩
    case isFalse => exact ⟨Or.inl rfl, ih h.2⟩

theorem map_body_grow (prev : ℕ) (es : List Entry) :
    (grow prev es).map Entry.body = es.map Entry.body := by
  induction es generalizing prev with
  | nil => rfl
  | cons e es ih =>
    rw [grow]
    split
    · rfl
    · simp [ih]

theorem wide_eq_false_of_not_prevFits {wide : Bool} {len : ℕ} (h : ¬ PrevFits wide len) :
    wide = false := by
  cases wide with
  | false => rfl
  | true => exact absurd (Or.inl rfl) h

theorem raw_withWidth_true {e : Entry} (h : e.wide = false) :
    (e.withWidth true).raw = e.raw + 4 := by
  rw [Entry.raw_withWidth, Entry.raw, h]
  show 5 + _ = 1 + _ + 4
  omega

theorem size_le_size_grow (prev : ℕ) (es : List Entry) : size es ≤ size (grow prev es) := by
  induction es generalizing prev with
  | nil => exact le_rfl
  | cons e es ih =>
    rw [grow]
    split
    case isTrue => exact le_rfl
    case isFalse hfit =>
      have hraw := raw_withWidth_true (wide_eq_false_of_not_prevFits hfit)
      have := ih (e.withWidth true).raw
      rw [size_cons, size_cons]
      omega

theorem length_le_size (es : List Entry) : es.length ≤ size es := by
  induction es with
  | nil => exact le_rfl
  | cons e es ih =>
    have := e.raw_pos
    rw [List.length_cons, size_cons]
    omega

/-- The width `zipPrevEncodeLength` chooses for the predecessor's size. -/
def prevWide (prev : ℕ) : Bool := decide (zipBiglen ≤ prev)

theorem prevFits_prevWide (prev : ℕ) : PrevFits (prevWide prev) prev :=
  prevFits_zipPrevEncodeLength prev

theorem prevSize_prevWide_le {wide : Bool} {prev : ℕ} (h : PrevFits wide prev) :
    prevSize (prevWide prev) ≤ prevSize wide := by
  rcases h with rfl | h
  · cases prevWide prev <;> decide
  · have : prevWide prev = false := decide_eq_false (Nat.not_le.mpr h)
    rw [this]
    cases wide <;> decide

section layout
variable {T O C : ℕ}

theorem memmove_store_layout {a x y s g : Bytes} {p : ℕ} (hp : p = a.length + 10)
    (hg : y.length = x.length + g.length) :
    (memmove (layout T O C (a ++ (x ++ (s ++ g)))) (p + y.length)
        (p + x.length) s.length).bind (store · p y)
      = some (layout T O C (a ++ (y ++ s))) := by
  obtain ⟨hdr, hlen, -, hall⟩ := layout_eq T O C []
  -- the bytes that the move leaves in front of its destination
  obtain ⟨c, hc, hmove⟩ : ∃ c : Bytes, c.length = y.length ∧
      memmove (layout T O C (a ++ (x ++ (s ++ g)))) (p + y.length)
        (p + x.length) s.length
      = some (layout T O C (a ++ (c ++ s))) := by
    refine ⟨(x ++ (s ++ g)).take y.length, by simp; omega, ?_⟩
    have hslice := slice_append (a := hdr ++ (a ++ x)) (b := s) (c := g ++ [zipEnd])
      (p := p + x.length) (n := s.length) (by simp [hlen]; omega) rfl
    have hsplit : (x ++ (s ++ g)).take y.length ++ (x ++ (s ++ g)).drop y.length
        = x ++ (s ++ g) := List.take_append_drop _ _
    have hstore := store_append (a := hdr ++ (a ++ (x ++ (s ++ g)).take y.length))
      (b := (x ++ (s ++ g)).drop y.length) (d := s) (c := [zipEnd])
      (p := p + y.length) (by simp [hlen]; omega) (by simp; omega)
    simp only [List.append_assoc] at hslice hstore hsplit
    rw [← List.append_assoc (List.take _ _), hsplit] at hstore
    simp only [hall, memmove, List.append_assoc, hslice, Option.bind_some]
    simpa using hstore
  rw [hmove, Option.bind_some]
  exact store_layout hp hc.symm

end layout

/-- The bytes of an entry followed by those of the entries `rest`, the first of
which records `stale` as the size of its predecessor. -/
theorem encode_cons (prev : ℕ) (e : Entry) (es : List Entry) :
    encode prev (e :: es) = prevField e.wide prev ++ (e.body ++ encode e.raw es) := rfl

theorem encode_cons_head {prev : ℕ} {e : Entry} (h : PrevFits e.wide prev) (es : List Entry)
    (t : Bytes) : ∃ b, (encode prev (e :: es) ++ t)[0]? = some b ∧ b ≠ zipEnd := by
  rw [encode_cons, List.append_assoc]
  exact head_prevField_ne_zipEnd h _

theorem zipEntry_encode_cons {prev : ℕ} {e : Entry} (h : PrevFits e.wide prev)
    (hprev : prev < 2 ^ 32) (es : List Entry) (t : Bytes) :
    ∃ entry, zipEntry (encode prev (e :: es) ++ t) = some entry ∧
      entry.prevrawlensize = prevSize e.wide ∧ entry.prevrawlen = prev ∧
      entry.headersize + entry.len = e.raw := by
  rw [encode_cons, List.append_assoc, List.append_assoc]
  exact zipEntry_append h hprev e.body_ok _

theorem zipRawEntryLength_encode_cons {prev : ℕ} {e : Entry} (h : PrevFits e.wide prev)
    (hraw : e.raw < 2 ^ 32) (es : List Entry) (t : Bytes) :
    zipRawEntryLength (encode prev (e :: es) ++ t) = some e.raw := by
  rw [encode_cons, List.append_assoc, List.append_assoc]
  exact zipRawEntryLength_append h e.body_ok hraw _

/-! ### The loop -/

section loop
variable (junk : ℕ → UInt8) {A : Bytes} {q stale C T O p : ℕ} {e n : Entry}
  {r : List Entry}

theorem ziplistCascadeLoop_read (hq : PrevFits e.wide q) (hq32 : q < 2 ^ 32)
    (hp : p = A.length + 10) (hraw : e.raw < 2 ^ 32) (body : Bytes) :
    ∃ b entry, (layout T O C (A ++ (encode q [e] ++ body)))[p]? = some b ∧
      b ≠ zipEnd ∧
      zipEntry ((layout T O C (A ++ (encode q [e] ++ body))).drop p) = some entry ∧
      (entry.headersize + entry.len) % 2 ^ 32 = e.raw := by
  obtain ⟨b, hb, hne⟩ := encode_cons_head hq [] (body ++ [zipEnd])
  obtain ⟨entry, hentry, -, -, hlen⟩ := zipEntry_encode_cons hq hq32 [] (body ++ [zipEnd])
  refine ⟨b, entry, ?_, hne, ?_, ?_⟩
  · rw [layout_getElem?_append hp, List.append_assoc, hb]
  · rw [layout_drop_append hp, List.append_assoc, hentry]
  · rw [hlen, Nat.mod_eq_of_lt hraw]

theorem ziplistCascadeLoop_last (hq : PrevFits e.wide q) (hq32 : q < 2 ^ 32)
    (hp : p = A.length + 10) (hraw : e.raw < 2 ^ 32) (fuel : ℕ) :
    ziplistCascadeLoop junk (fuel + 1) (layout T O C (A ++ encode q [e])) p T
      = some (layout T O C (A ++ encode q [e])) := by
  obtain ⟨b, entry, hb, hne, hentry, hlen⟩ :=
    ziplistCascadeLoop_read (T := T) (O := O) (C := C) hq hq32 hp hraw []
  have hend : (layout T O C (A ++ encode q [e]))[p + e.raw]? = some zipEnd := by
    have := layout_getElem?_append (T := T) (O := O) (C := C)
      (a := A ++ encode q [e]) (b := []) (p := p + e.raw) (by simp; omega)
    simpa using this
  simp only [List.append_nil] at hb hentry
  rw [ziplistCascadeLoop]
  simp only [Option.bind_eq_bind, hb, Option.bind_some, if_neg hne, hentry, hlen, hend,
    if_true]

theorem ziplistCascadeLoop_next (hq : PrevFits e.wide q) (hq32 : q < 2 ^ 32)
    (hnext : PrevFits n.wide stale) (hstale : stale < 2 ^ 32)
    (hp : p = A.length + 10) (hraw : e.raw < 2 ^ 32) (fuel : ℕ) :
    ziplistCascadeLoop junk (fuel + 1)
        (layout T O C (A ++ (encode q [e] ++ encode stale (n :: r)))) p T
      = (let zl := layout T O C (A ++ (encode q [e] ++ encode stale (n :: r)))
        let np := p + e.raw
        let size := prevSize (prevWide e.raw)
        if stale = e.raw then some zl
        else if prevSize n.wide < size then do
          let extra := size - prevSize n.wide
          let zl ← ziplistResize junk zl (T + extra)
          let O ← ziplistTailOffset zl
          let zl ← if O ≠ np then setZiplistTailOffset zl (O + extra) else some zl
          let zl ← memmove zl (np + size) (np + prevSize n.wide)
            (T - np - prevSize n.wide - 1)
          let zl ← store zl np (prevField (prevWide e.raw) e.raw)
          ziplistCascadeLoop junk fuel zl np (T + extra)
        else if prevSize n.wide > size then store zl np (prevField true e.raw)
        else store zl np (prevField (prevWide e.raw) e.raw)) := by
  obtain ⟨b, entry, hb, hne, hentry, hlen⟩ :=
    ziplistCascadeLoop_read (T := T) (O := O) (C := C) hq hq32 hp hraw
      (encode stale (n :: r))
  have hnp : p + e.raw = (A ++ encode q [e]).length + 10 := by simp; omega
  obtain ⟨b', hb', hne'⟩ := encode_cons_head hnext r [zipEnd]
  obtain ⟨entry', hentry', hpl, hprev, -⟩ := zipEntry_encode_cons hnext hstale r [zipEnd]
  rw [← List.append_assoc] at hb hentry ⊢
  have hget := layout_getElem?_append (T := T) (O := O) (C := C)
    (b := encode stale (n :: r)) hnp
  have hdrop := layout_drop_append (T := T) (O := O) (C := C)
    (b := encode stale (n :: r)) hnp
  rw [hb'] at hget
  rw [ziplistCascadeLoop]
  simp only [Option.bind_eq_bind, hb, Option.bind_some, if_neg hne, hentry, hlen, hget,
    if_neg hne', hdrop, hentry', hpl, hprev, zipPrevEncodeLength_eq, length_prevField]
  rfl

theorem ziplistCascadeLoop_fits (hq : PrevFits e.wide q) (hq32 : q < 2 ^ 32)
    (hnext : PrevFits n.wide stale) (hstale : stale < 2 ^ 32)
    (hp : p = A.length + 10) (hraw : e.raw < 2 ^ 32) (fuel : ℕ)
    (hfit : PrevFits n.wide e.raw) :
    ziplistCascadeLoop junk (fuel + 1)
        (layout T O C (A ++ (encode q [e] ++ encode stale (n :: r)))) p T
      = some (layout T O C (A ++ (encode q [e] ++ encode e.raw (n :: r)))) := by
  rw [ziplistCascadeLoop_next junk hq hq32 hnext hstale hp hraw]
  have hsize := prevSize_prevWide_le hfit
  have hstore : ∀ w, w = n.wide →
      store (layout T O C (A ++ (encode q [e] ++ encode stale (n :: r))))
        (p + e.raw) (prevField w e.raw)
      = some (layout T O C (A ++ (encode q [e] ++ encode e.raw (n :: r)))) := by
    rintro w rfl
    rw [← List.append_assoc, ← List.append_assoc]
    exact store_layout (by simp; omega) (by simp)
  simp only
  split
  case isTrue heq => rw [heq]
  case isFalse =>
    rw [if_neg (by omega)]
    split
    case isTrue hgt =>
      -- only a wide field is wider than the chosen one
      refine hstore true ?_
      cases hw : n.wide with
      | true => rfl
      | false =>
        rw [hw] at hgt
        have := prevSize_pos (prevWide e.raw)
        change prevSize (prevWide e.raw) < 1 at hgt
        omega
    case isFalse hle =>
      refine hstore (prevWide e.raw) ?_
      have heq : prevSize (prevWide e.raw) = prevSize n.wide := by omega
      revert heq
      cases prevWide e.raw <;> cases n.wide <;> decide

/-- The tail offset moves with a field that is widened, unless the field belongs
to the tail. -/
theorem tailSize_withWidth_true {e : Entry} (he : e.wide = false) (es : List Entry) :
    tailSize (e.withWidth true :: es)
      = if tailSize (e :: es) ≠ 0 then tailSize (e :: es) + 4 else tailSize (e :: es) := by
  cases es with
  | nil => rfl
  | cons f es =>
    have := e.raw_pos
    rw [tailSize_cons_cons, tailSize_cons_cons, raw_withWidth_true he, if_pos (by omega)]
    omega

/-- The next entry has no room for the new size: its field grows by four bytes
and the loop goes on with that entry. -/
theorem ziplistCascadeLoop_grow (hq : PrevFits e.wide q) (hq32 : q < 2 ^ 32)
    (hnext : PrevFits n.wide stale) (hstale : stale < 2 ^ 32)
    (hp : p = A.length + 10) (htotal : T = A.length + e.raw + size (n :: r) + 11)
    (htail : O = A.length + e.raw + tailSize (n :: r) + 10)
    (h32 : T + 4 < 2 ^ 32) (fuel : ℕ) (hfit : ¬ PrevFits n.wide e.raw) :
    ziplistCascadeLoop junk (fuel + 1)
        (layout T O C (A ++ (encode q [e] ++ encode stale (n :: r)))) p T
      = ziplistCascadeLoop junk fuel
        (layout (T + 4) (A.length + e.raw + tailSize (n.withWidth true :: r) + 10)
          C ((A ++ encode q [e]) ++
            (encode e.raw [n.withWidth true] ++ encode n.raw r)))
        (p + e.raw) (T + 4) := by
  have hwide := wide_eq_false_of_not_prevFits hfit
  have hbig : prevWide e.raw = true :=
    decide_eq_true (by simpa [PrevFits, hwide] using hfit)
  have hne : stale ≠ e.raw := by
    rintro rfl
    exact hfit hnext
  have hraw : n.raw = 1 + n.body.length := by rw [Entry.raw, hwide]; rfl
  have hle := tailSize_le (n :: r)
  rw [size_cons] at htotal hle
  obtain ⟨g, hg, -, hresize⟩ := ziplistResize_grow junk (T := T) (O := O)
    (C := C) (s := A ++ (encode q [e] ++ encode stale (n :: r)))
    (l := T + 4) 4 h32 (by simp; omega)
  -- the resized block, its entries split around the field
  have hbytes : A ++ (encode q [e] ++ encode stale (n :: r)) ++ g
      = (A ++ encode q [e]) ++ ([UInt8.ofNat stale] ++
          ((n.body ++ encode n.raw r) ++ g)) := by
    simp [encode_cons, prevField, hwide]
  have hmove := memmove_store_layout (T := T + 4)
    (O := A.length + e.raw + tailSize (n.withWidth true :: r) + 10) (C := C)
    (a := A ++ encode q [e]) (x := [UInt8.ofNat stale]) (y := prevField true e.raw)
    (s := n.body ++ encode n.raw r) (g := g) (p := p + e.raw) (by simp; omega)
    (by simp [hg]; rfl)
  rw [Option.bind_eq_some_iff] at hmove
  obtain ⟨m, hmove, hstore⟩ := hmove
  have hn : T - (p + e.raw) - 1 - 1 = (n.body ++ encode n.raw r).length := by
    simp only [List.length_append, length_encode]
    omega
  have h1 : prevSize false = 1 := rfl
  have h5 : prevSize true = 5 := rfl
  have hend : (A ++ encode q [e]) ++ (prevField true e.raw ++ (n.body ++
      encode n.raw r)) = (A ++ encode q [e]) ++
        (encode e.raw [n.withWidth true] ++ encode n.raw r) := by
    simp [encode]
  simp only [length_prevField, h5, List.length_singleton] at hmove
  rw [hend] at hstore
  rw [ziplistCascadeLoop_next junk hq hq32 hnext hstale hp (by omega)]
  simp only [if_neg hne, hbig, hwide, h1, h5, Option.bind_eq_bind, hresize, Option.bind_some,
    ziplistTailOffset_layout (show O < 2 ^ 32 by omega), hn,
    show (5 : ℕ) - 1 = 4 from rfl, show (1 : ℕ) < 5 by decide, if_true, hbytes]
  rw [tailSize_withWidth_true hwide] at hmove hstore ⊢
  by_cases h0 : tailSize (n :: r) = 0
  · rw [if_neg (not_not.mpr h0)] at hmove hstore ⊢
    rw [← htail] at hmove hstore ⊢
    rw [if_neg (by omega), hmove, Option.bind_some, hstore, Option.bind_some]
  · rw [if_pos h0] at hmove hstore ⊢
    have hset := setZiplistTailOffset_layout (T := T + 4) (O := O) (C := C)
      (s := (A ++ encode q [e]) ++ ([UInt8.ofNat stale] ++
          ((n.body ++ encode n.raw r) ++ g))) (v := (O : ℤ) + (4 : ℕ))
      (n := A.length + e.raw + (tailSize (n :: r) + 4) + 10) (by push_cast; omega)
    rw [if_pos (by omega), hset, Option.bind_some, hmove, Option.bind_some, hstore,
      Option.bind_some]

/-- The loop of `__ziplistCascadeUpdate` grows the entries after `e`.  When
the total size does not fit 32 bits the block is cut to a size below four, and
the header can no longer be written. -/
theorem ziplistCascadeLoop_layout (hq : PrevFits e.wide q) (hq32 : q < 2 ^ 32)
    (hrest : Fits stale r) (hstale : stale < 2 ^ 32)
    (hp : p = A.length + 10) (htotal : T = A.length + e.raw + size r + 11)
    (htail : O = A.length + tailSize (e :: r) + 10) (h32 : T < 2 ^ 32)
    {fuel : ℕ} (hfuel : r.length < fuel) :
    ziplistCascadeLoop junk fuel
        (layout T O C (A ++ (encode q [e] ++ encode stale r))) p T
      = if A.length + e.raw + size (grow e.raw r) + 11 < 2 ^ 32 then
          some (layout (A.length + e.raw + size (grow e.raw r) + 11)
            (A.length + tailSize (e :: grow e.raw r) + 10) C
            (A ++ encode q (e :: grow e.raw r)))
        else none := by
  induction r generalizing A q stale T O p e fuel with
  | nil =>
    obtain ⟨fuel, rfl⟩ : ∃ k, fuel = k + 1 := ⟨fuel - 1, by simp at hfuel; omega⟩
    rw [size_nil] at htotal
    have := ziplistCascadeLoop_last junk (T := T) (O := O) (C := C) hq hq32
      hp (by omega) fuel
    rw [grow_nil, size_nil, if_pos (by omega), ← htotal, ← htail, ← this, encode,
      List.append_nil]
  | cons n r ih =>
    obtain ⟨fuel, rfl⟩ : ∃ k, fuel = k + 1 := ⟨fuel - 1, by simp at hfuel; omega⟩
    obtain ⟨hnext, hrest⟩ := hrest
    have hsize := htotal
    rw [size_cons] at hsize
    have hencode : ∀ es, encode q (e :: es) = encode q [e] ++ encode e.raw es := by
      intro es
      simp [encode]
    by_cases hfit : PrevFits n.wide e.raw
    · rw [ziplistCascadeLoop_fits junk hq hq32 hnext hstale hp (by omega) fuel hfit]
      rw [grow_cons_of_fits hfit, if_pos (by omega), ← htotal, ← htail, hencode (n :: r)]
    · have hraw := raw_withWidth_true (wide_eq_false_of_not_prevFits hfit)
      have hgrow : size (grow (n.withWidth true).raw r) ≥ size r :=
        size_le_size_grow _ _
      have hA : (A ++ encode q [e]).length = A.length + e.raw := by simp
      by_cases h4 : T + 4 < 2 ^ 32
      · rw [ziplistCascadeLoop_grow junk hq hq32 hnext hstale hp htotal
          (by rw [htail, tailSize_cons_cons]; omega) h4 fuel hfit]
        rw [ih (e := n.withWidth true) (Or.inl rfl) (by omega) hrest (by omega)
          (by omega) (by omega) (by omega) h4 (by simp at hfuel; omega)]
        rw [grow_cons_of_not_fits hfit]
        simp only [size_cons, hA, tailSize_cons_cons, hencode (_ :: _), List.append_assoc,
          Nat.add_assoc]
      · rw [grow_cons_of_not_fits hfit, size_cons, if_neg (by omega), ziplistCascadeLoop_next junk hq hq32 hnext hstale hp
          (by omega)]
        have hbig : prevWide e.raw = true := decide_eq_true (by
          simpa [PrevFits, wide_eq_false_of_not_prevFits hfit] using hfit)
        have hne : stale ≠ e.raw := by
          rintro rfl
          exact hfit hnext
        have h1 : prevSize false = 1 := rfl
        have h5 : prevSize true = 5 := rfl
        have hnone : ∀ zl, ziplistResize junk zl (T + (5 - 1)) = none :=
          fun zl => ziplistResize_eq_none junk zl (by omega)
        simp only [if_neg hne, hbig, wide_eq_false_of_not_prevFits hfit, h1, h5, hnone,
          Option.bind_eq_bind, Option.bind_none, show (1 : ℕ) < 5 by decide, if_true]

theorem ziplistCascadeUpdate_layout (hq : PrevFits e.wide q) (hq32 : q < 2 ^ 32)
    (hrest : Fits stale r) (hstale : stale < 2 ^ 32)
    (hp : p = A.length + 10) (htotal : T = A.length + e.raw + size r + 11)
    (htail : O = A.length + tailSize (e :: r) + 10) (h32 : T < 2 ^ 32) :
    ziplistCascadeUpdate junk
        (layout T O C (A ++ (encode q [e] ++ encode stale r))) p
      = if A.length + e.raw + size (grow e.raw r) + 11 < 2 ^ 32 then
          some (layout (A.length + e.raw + size (grow e.raw r) + 11)
            (A.length + tailSize (e :: grow e.raw r) + 10) C
            (A ++ encode q (e :: grow e.raw r)))
        else none := by
  have hfuel : r.length
      < (layout T O C (A ++ (encode q [e] ++ encode stale r))).length := by
    have := length_le_size r
    simp only [length_layout, List.length_append, length_encode]
    omega
  rw [ziplistCascadeUpdate, ziplistBytes_layout h32]
  exact ziplistCascadeLoop_layout junk hq hq32 hrest hstale hp htotal htail h32 hfuel

end loop

end Ziplist

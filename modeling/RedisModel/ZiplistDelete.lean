/-
Deleting a range of entries (`__ziplistDelete`) on lists of entries.

`relink prev es` are the entries `es` after they were moved behind an entry of
`prev` bytes.

* `ziplistDeleteEntries_image` — deleting the entries `es.take num` from
  `a ++ es` leaves `a ++ relink (lastRaw 0 a) (es.drop num)`, or leaves memory
  when the grown prevlen fields do not fit a ziplist any more;
* `ziplistFixTail_layout` — the tail offset is right unless the entry that
  changed its size is the tail.
-/
import RedisModel.ZiplistCascade

open ByteBuffer StringNumber

namespace Ziplist

/-- The entries `es` behind an entry of `prev` bytes: the first gets the prevlen
field `zipPrevEncodeLength` chooses, the others grow as needed. -/
def relink (prev : ℕ) : List Entry → List Entry
  | [] => []
  | e :: es => e.withWidth (prevWide prev) :: grow (e.withWidth (prevWide prev)).raw es

theorem fits_relink {prev stale : ℕ} {es : List Entry} (h : Fits stale es) :
    Fits prev (relink prev es) := by
  cases es with
  | nil => trivial
  | cons e es => exact ⟨prevFits_prevWide prev, fits_grow h.2⟩

theorem map_body_relink (prev : ℕ) (es : List Entry) :
    (relink prev es).map Entry.body = es.map Entry.body := by
  cases es with
  | nil => rfl
  | cons e es => simp [relink, map_body_grow]

theorem length_relink (prev : ℕ) (es : List Entry) : (relink prev es).length = es.length := by
  simpa using congrArg List.length (map_body_relink prev es)

/-- The `zllen` field: the entry count, or 65535 when it is not known. -/
def CountOk (C n : ℕ) : Prop := C ≤ 65535 ∧ (C = n ∨ C = 65535)

instance (C n : ℕ) : Decidable (CountOk C n) :=
  inferInstanceAs (Decidable (_ ∧ _))

/-- `ZIPLIST_INCR_LENGTH` on the count. -/
def incrCount (C : ℕ) (incr : ℤ) : ℕ := if C < 65535 then (C + incr).toNat else C

theorem ziplistIncrLength_layout {T O C : ℕ} {body : Bytes} {incr : ℤ}
    (hcnt : C ≤ 65535) (hincr : C < 65535 → 0 ≤ C + incr) :
    ziplistIncrLength (layout T O C body) incr
      = some (layout T O (incrCount C incr) body) := by
  rw [ziplistIncrLength, ziplistLength_layout (by omega), incrCount]
  simp only [Option.bind_eq_bind, Option.bind_some]
  split
  case isTrue hlt =>
    have := hincr hlt
    exact setZiplistLength_layout (by omega)
  case isFalse => rfl

theorem countOk_incrCount_sub {C n k : ℕ} (h : CountOk C n) (hk : k ≤ n) :
    CountOk (incrCount C (-k)) (n - k) := by
  obtain ⟨hle, rfl | rfl⟩ := h
  · unfold CountOk incrCount
    split <;> omega
  · exact ⟨le_rfl, Or.inr (if_neg (lt_irrefl _))⟩

theorem countOk_incrCount_one {C n : ℕ} (h : CountOk C n) :
    CountOk (incrCount C 1) (n + 1) := by
  obtain ⟨hle, rfl | rfl⟩ := h
  · unfold CountOk incrCount
    split <;> omega
  · exact ⟨le_rfl, Or.inr (if_neg (lt_irrefl _))⟩

/-! ### Locating the entries to delete -/

theorem ziplistDeleteWalk_layout {T O C q p : ℕ} {A : Bytes} {es : List Entry}
    (hfits : Fits q es) (hsize : size es < 2 ^ 32) (hp : p = A.length + 10)
    (num deleted : ℕ) :
    ziplistDeleteWalk (layout T O C (A ++ encode q es)) num p deleted
      = some (p + size (es.take num), deleted + (es.take num).length) := by
  induction num generalizing A q p es deleted with
  | zero =>
    have hlt : p < (layout T O C (A ++ encode q es)).length := by
      rw [length_layout, List.length_append]
      omega
    simp [ziplistDeleteWalk, List.getElem?_eq_getElem hlt]
  | succ num ih =>
    have hget := layout_getElem?_append (T := T) (O := O) (C := C)
      (b := encode q es) hp
    cases es with
    | nil =>
      rw [ziplistDeleteWalk, hget]
      simp [encode]
    | cons e es =>
      obtain ⟨hfit, hfits⟩ := hfits
      rw [size_cons] at hsize
      obtain ⟨b, hb, hne⟩ := encode_cons_head hfit es [zipEnd]
      have hdrop := layout_drop_append (T := T) (O := O) (C := C)
        (b := encode q (e :: es)) hp
      have hnext : A ++ encode q (e :: es)
          = (A ++ (prevField e.wide q ++ e.body)) ++ encode e.raw es := by
        simp [encode_cons]
      rw [ziplistDeleteWalk, hget, hb, hdrop, zipRawEntryLength_encode_cons hfit (by omega)]
      simp only [Option.bind_eq_bind, Option.bind_some, if_neg hne]
      rw [hnext, ih hfits (by omega) (by simp [Entry.raw]; omega)]
      simp only [List.take_succ_cons, size_cons, List.length_cons]
      congr 2
      · omega
      · omega

/-! ### The tail offset -/

/-- The tail offset is corrected by the change in size of the entry at `p`,
unless that entry is the tail. -/
theorem ziplistFixTail_layout {T O P C q stale p : ℕ} {A : Bytes} {e : Entry}
    {b : List Entry} {d : ℤ} (hfit : PrevFits e.wide q) (hq : q < 2 ^ 32)
    (hfits : Fits stale b) (hp : p = A.length + 10)
    (hlast : b = [] → P = O) (hnext : b ≠ [] → (P : ℤ) = O + d) :
    ziplistFixTail (layout T O C (A ++ (encode q [e] ++ encode stale b))) p d
      = some (layout T P C (A ++ (encode q [e] ++ encode stale b))) := by
  obtain ⟨entry, hentry, -, -, hlen⟩ :=
    zipEntry_encode_cons hfit hq [] (encode stale b ++ [zipEnd])
  have hdrop := layout_drop_append (T := T) (O := O) (C := C)
    (b := encode q [e] ++ encode stale b) hp
  rw [List.append_assoc] at hdrop
  have hget := layout_getElem?_append (T := T) (O := O) (C := C)
    (a := A ++ encode q [e]) (b := encode stale b) (p := p + e.raw) (by simp; omega)
  rw [List.append_assoc] at hget
  rw [ziplistFixTail, hdrop, hentry]
  simp only [Option.bind_eq_bind, Option.bind_some, hlen, hget]
  cases b with
  | nil => simp [encode, hlast]
  | cons f b =>
    obtain ⟨b, hb, hne⟩ := encode_cons_head hfits.1 b [zipEnd]
    simp only [hb, Option.bind_some, ne_eq, hne, not_false_eq_true, if_true,
      ziplistTailOffset_layout_mod]
    have := hnext (List.cons_ne_nil _ _)
    exact setZiplistTailOffset_layout_mod (by push_cast; omega)

/-! ### The deletion -/

section delete
variable (junk : ℕ → UInt8)

theorem ziplistDeleteEntries_end {C num : ℕ} {a es : List Entry}
    (hfits : Fits 0 (a ++ es)) (hes : es ≠ []) (hnum : es.length ≤ num)
    (hsize : size (a ++ es) + 11 < 2 ^ 32) (hcnt : CountOk C (a ++ es).length) :
    ziplistDeleteEntries junk (image C (a ++ es)) (size a + 10) num
      = some (image (incrCount C (-es.length)) a) := by
  obtain ⟨hfa, hfe⟩ := fits_append.mp hfits
  obtain ⟨d, es, rfl⟩ := List.exists_cons_of_ne_nil hes
  rw [size_append] at hsize
  have hprev : lastRaw 0 a < 2 ^ 32 := lastRaw_lt (by omega) (by omega)
  have hp : size a + 10 = (encode 0 a).length + 10 := by simp
  set T := size (a ++ d :: es) + 11 with hT
  set O := tailSize (a ++ d :: es) + 10 with hO
  have himage : image C (a ++ d :: es)
      = layout T O C (encode 0 a ++ encode (lastRaw 0 a) (d :: es)) := by
    rw [image, encode_append]
  obtain ⟨first, hfirst, -, hprevraw, -⟩ := zipEntry_encode_cons hfe.1 hprev es [zipEnd]
  have hdrop := layout_drop_append (T := T) (O := O) (C := C)
    (b := encode (lastRaw 0 a) (d :: es)) hp
  have hwalk := ziplistDeleteWalk_layout (T := T) (O := O) (C := C) hfe
    (by omega) hp num 0
  rw [List.take_of_length_le hnum] at hwalk
  have hend : (layout T O C (encode 0 a ++ encode (lastRaw 0 a) (d :: es)))[
      size a + 10 + size (d :: es)]? = some zipEnd := by
    have := layout_getElem?_append (T := T) (O := O) (C := C)
      (a := encode 0 a ++ encode (lastRaw 0 a) (d :: es)) (b := [])
      (p := size a + 10 + size (d :: es)) (by simp; omega)
    simpa using this
  have hpos : 0 < size (d :: es) := by
    have := d.raw_pos
    rw [size_cons]
    omega
  have htot : (size a + 10 + size (d :: es) - (size a + 10)) % 2 ^ 32 = size (d :: es) := by
    rw [Nat.add_sub_cancel_left, Nat.mod_eq_of_lt (by omega)]
  have htail : ((size a + 10 : ℕ) : ℤ) - (lastRaw 0 a : ℕ) = ((tailSize a + 10 : ℕ) : ℤ) := by
    rcases a.eq_nil_or_concat' with rfl | ⟨a', e, rfl⟩
    · rfl
    · have := tailSize_add_lastRaw (show a' ++ [e] ≠ [] by simp) 0
      push_cast
      omega
  have hlen : ((T : ℤ) - (size (d :: es) : ℕ) + 0).toNat = (encode 0 a).length + 11 := by
    rw [hT, size_append, length_encode]
    omega
  have hlt : (encode 0 a).length + 11 < 2 ^ 32 := by
    rw [length_encode]
    omega
  have hincr : C < 65535 → (0 : ℤ) ≤ C + -((d :: es).length : ℕ) := by
    intro hlt
    obtain ⟨-, rfl | rfl⟩ := hcnt
    · rw [List.length_append]
      push_cast
      omega
    · exact absurd hlt (lt_irrefl _)
  rw [himage, ziplistDeleteEntries, hdrop, hfirst]
  simp only [Option.bind_eq_bind, Option.bind_some, hwalk, htot, hpos, if_true, hend,
    hprevraw, setZiplistTailOffset_layout htail, ne_eq, not_true, if_false,
    ziplistBytes_layout (show T < 2 ^ 32 by rw [hT, size_append]; omega), hlen,
    ziplistResize_shrink junk hlt rfl, Nat.zero_add,
    ziplistIncrLength_layout hcnt.1 hincr]
  rw [image, length_encode]

theorem image_append (C : ℕ) (a : List Entry) (e : Entry) (es : List Entry) :
    image C (a ++ e :: es) = layout (size a + e.raw + size es + 11)
      (size a + tailSize (e :: es) + 10) C (encode 0 a ++ encode (lastRaw 0 a) (e :: es)) := by
  rw [image, encode_append, tailSize_append_cons, size_append, size_cons]
  simp only [Nat.add_assoc]

theorem raw_withWidth_sub (e : Entry) (w : Bool) :
    ((e.withWidth w).raw : ℤ) = e.raw + ((prevSize w : ℤ) - prevSize e.wide) := by
  rw [Entry.raw_withWidth, Entry.raw]
  push_cast
  ring

/-- Making the prevlen field of `e` narrower or wider moves the tail, unless `e`
is the tail. -/
theorem tailSize_withWidth (e : Entry) (w : Bool) (es : List Entry) (hes : es ≠ []) :
    (tailSize (e.withWidth w :: es) : ℤ)
      = tailSize (e :: es) + ((prevSize w : ℤ) - prevSize e.wide) := by
  obtain ⟨f, es, rfl⟩ := List.exists_cons_of_ne_nil hes
  rw [tailSize_cons_cons, tailSize_cons_cons]
  have := raw_withWidth_sub e w
  push_cast
  omega

theorem tailSize_withWidth_nil (e : Entry) (w : Bool) :
    tailSize [e.withWidth w] = tailSize [e] := rfl

theorem eq_of_prevSize_eq {w w' : Bool} (h : prevSize w = prevSize w') : w = w' := by
  revert h
  cases w <;> cases w' <;> decide

/-- The part of `__ziplistDelete` that overwrites the deleted entries `d`: the
prevlen field of the next entry is rewritten first, possibly in the last bytes of
the deleted range, then the rest of the list is moved. -/
theorem ziplistDelete_move {C : ℕ} {a d b : List Entry} {n : Entry}
    (hfits : Fits 0 (a ++ (d ++ n :: b))) (hd : d ≠ [])
    (hsize : size (a ++ (d ++ n :: b)) + 11 < 2 ^ 32) :
    ∃ X : Bytes, X.length + prevSize (prevWide (lastRaw 0 a)) = size d + prevSize n.wide ∧
      (∀ t, store (layout (size a + size d + n.raw + size b + 11) t C
          (encode 0 a ++ encode (lastRaw 0 a) (d ++ n :: b))) (size a + 10 + X.length)
          (prevField (prevWide (lastRaw 0 a)) (lastRaw 0 a))
        = some (layout (size a + size d + n.raw + size b + 11) t C
          ((encode 0 a ++ X) ++ (encode (lastRaw 0 a) [n.withWidth (prevWide (lastRaw 0 a))] ++
            encode n.raw b)))) ∧
      ∀ t, ∃ D : Bytes, memmove (layout (size a + size d + n.raw + size b + 11) t C
          ((encode 0 a ++ X) ++ (encode (lastRaw 0 a) [n.withWidth (prevWide (lastRaw 0 a))] ++
            encode n.raw b))) (size a + 10) (size a + 10 + X.length)
          ((n.withWidth (prevWide (lastRaw 0 a))).raw + size b)
        = some (layout (size a + size d + n.raw + size b + 11) t C
          (encode 0 a ++ ((encode (lastRaw 0 a) [n.withWidth (prevWide (lastRaw 0 a))] ++
            encode n.raw b) ++ D))) := by
  set q := lastRaw 0 a with hq
  set w := prevWide q with hw
  obtain ⟨-, hfd⟩ := fits_append.mp hfits
  obtain ⟨d0, ds, rfl⟩ := List.exists_cons_of_ne_nil hd
  have hroom : prevSize w ≤ size (d0 :: ds) + prevSize n.wide := by
    have : prevSize w ≤ prevSize d0.wide := prevSize_prevWide_le hfd.1
    rw [size_cons, Entry.raw]
    omega
  -- the deleted entries and the old field, split where the new field starts
  set F := encode q (d0 :: ds) ++ prevField n.wide (lastRaw q (d0 :: ds)) with hF
  have hFlen : F.length = size (d0 :: ds) + prevSize n.wide := by simp [hF]
  set k := F.length - prevSize w with hk
  have hXlen : (F.take k).length = k := by simp; omega
  clear_value F
  have hbytes : encode 0 a ++ encode q (d0 :: ds ++ n :: b)
      = (encode 0 a ++ F.take k) ++ (F.drop k ++ (n.body ++ encode n.raw b)) := by
    have hsplit : F.take k ++ F.drop k = F := List.take_append_drop _ _
    calc encode 0 a ++ encode q (d0 :: ds ++ n :: b)
        = encode 0 a ++ (F ++ (n.body ++ encode n.raw b)) := by
          rw [encode_append, encode_cons _ n, hF, List.append_assoc]
      _ = _ := by
          rw [List.append_assoc, ← List.append_assoc (F.take k), hsplit]
  have hn : prevField w q ++ (n.body ++ encode n.raw b)
      = encode q [n.withWidth w] ++ encode n.raw b := by
    simp [encode]
  refine ⟨F.take k, by omega, fun t => ?_, fun t => ?_⟩
  · rw [hbytes, ← hn]
    exact store_layout (by simp; omega) (by simp; omega)
  · set s := encode q [n.withWidth w] ++ encode n.raw b with hs
    refine ⟨(F.take k ++ s).drop s.length, ?_⟩
    rw [List.append_assoc]
    exact memmove_layout (by simp) rfl (by simp [hs])
      (List.take_append_drop s.length _).symm (by simp)

theorem ziplistDeleteEntries_mid {C : ℕ} {a d b : List Entry} {n : Entry}
    (hfits : Fits 0 (a ++ (d ++ n :: b))) (hd : d ≠ [])
    (hsize : size (a ++ (d ++ n :: b)) + 11 < 2 ^ 32)
    (hcnt : CountOk C (a ++ (d ++ n :: b)).length) :
    ziplistDeleteEntries junk (image C (a ++ (d ++ n :: b))) (size a + 10) d.length
      = if size (a ++ relink (lastRaw 0 a) (n :: b)) + 11 < 2 ^ 32 then
          some (image (incrCount C (-d.length)) (a ++ relink (lastRaw 0 a) (n :: b)))
        else none := by
  obtain ⟨X, hX, hstore, hmove⟩ := ziplistDelete_move (C := C) hfits hd hsize
  obtain ⟨hfa, hfe⟩ := fits_append.mp hfits
  obtain ⟨hfd, hfn⟩ := fits_append.mp hfe
  simp only [size_append, size_cons] at hsize
  have hq32 : lastRaw 0 a < 2 ^ 32 := lastRaw_lt (by omega) (by omega)
  have hlast32 : lastRaw (lastRaw 0 a) d < 2 ^ 32 := lastRaw_lt hq32 (by omega)
  set q := lastRaw 0 a with hq
  set w := prevWide q with hw
  set n' := n.withWidth w with hn'
  set T := size a + size d + n.raw + size b + 11 with hT
  set O := size a + size d + tailSize (n :: b) + 10 with hO
  have hp : size a + 10 = (encode 0 a).length + 10 := by simp
  have himage : image C (a ++ (d ++ n :: b))
      = layout T O C (encode 0 a ++ encode q (d ++ n :: b)) := by
    have h := image_append C (a ++ d) n b
    rw [encode_append, lastRaw_append, List.append_assoc, List.append_assoc, ← encode_append,
      size_append] at h
    exact h
  have hpos : 0 < size d := by
    have := length_le_size d
    have := List.length_pos_of_ne_nil hd
    omega
  -- reading: the first deleted entry and the first one that stays
  obtain ⟨first, hfirst, hprevraw⟩ : ∃ first,
      zipEntry (encode q (d ++ n :: b) ++ [zipEnd]) = some first ∧ first.prevrawlen = q := by
    obtain ⟨d0, ds, rfl⟩ := List.exists_cons_of_ne_nil hd
    obtain ⟨first, hfirst, -, hprevraw, -⟩ :=
      zipEntry_encode_cons hfd.1 hq32 (ds ++ n :: b) [zipEnd]
    exact ⟨first, hfirst, hprevraw⟩
  have hdrop := layout_drop_append (T := T) (O := O) (C := C)
    (b := encode q (d ++ n :: b)) hp
  have hwalk := ziplistDeleteWalk_layout (T := T) (O := O) (C := C) hfe
    (by simp; omega) hp d.length 0
  rw [List.take_left] at hwalk
  have hpn : size a + 10 + size d = (encode 0 a ++ encode q d).length + 10 := by simp; omega
  obtain ⟨b0, hb0, hne0⟩ := encode_cons_head hfn.1 b [zipEnd]
  have hgetn := layout_getElem?_append (T := T) (O := O) (C := C)
    (b := encode (lastRaw q d) (n :: b)) hpn
  have hdropn := layout_drop_append (T := T) (O := O) (C := C)
    (b := encode (lastRaw q d) (n :: b)) hpn
  rw [List.append_assoc, ← encode_append, hb0] at hgetn
  rw [List.append_assoc, ← encode_append] at hdropn
  have hdiff : zipPrevLenByteDiff (encode (lastRaw q d) (n :: b) ++ [zipEnd]) q
      = some ((prevSize w : ℤ) - prevSize n.wide) := by
    rw [zipPrevLenByteDiff, encode_cons, List.append_assoc, zipDecodePrevlensize_field hfn.1,
      zipPrevEncodeLength_eq, length_prevField]
    rfl
  set nextdiff : ℤ := (prevSize w : ℤ) - prevSize n.wide with hnd
  have hraw : (n'.raw : ℤ) = n.raw + nextdiff := raw_withWidth_sub n w
  have htot : (size a + 10 + size d - (size a + 10)) % 2 ^ 32 = size d := by
    rw [Nat.add_sub_cancel_left, Nat.mod_eq_of_lt (by omega)]
  have hp' : ((size a + 10 + size d : ℕ) - nextdiff : ℤ).toNat = size a + 10 + X.length := by
    omega
  -- the tail offset
  have hO' : tailSize (n :: b) ≤ n.raw + size b := by
    have := tailSize_le (n :: b)
    rwa [size_cons] at this
  have hO32 : O < 2 ^ 32 := by omega
  have hset : ∀ body, setZiplistTailOffset (layout T O C body) ((O : ℤ) - (size d : ℕ))
      = some (layout T (size a + tailSize (n :: b) + 10) C body) :=
    fun body => setZiplistTailOffset_layout (by push_cast; omega)
  have hfix := ziplistFixTail_layout (T := T) (O := size a + tailSize (n :: b) + 10)
    (P := size a + tailSize (n' :: b) + 10) (C := C) (A := encode 0 a ++ X) (e := n')
    (b := b) (d := nextdiff) (p := size a + 10 + X.length) (prevFits_prevWide q) hq32
    hfn.2 (by simp; omega) (by rintro rfl; rfl)
    (fun hb => by
      have : (tailSize (n' :: b) : ℤ) = tailSize (n :: b) + nextdiff :=
        tailSize_withWidth n w b hb
      push_cast
      omega)
  obtain ⟨D, hmove⟩ := hmove (size a + tailSize (n' :: b) + 10)
  have hlen : (T : ℕ) - (size a + 10 + X.length) - 1 = n'.raw + size b := by omega
  -- the new size
  have hcut : ((T : ℤ) - (size d : ℕ) + nextdiff).toNat
      = (encode 0 a ++ (encode q [n'] ++ encode n.raw b)).length + 11 := by
    simp only [List.length_append, length_encode, size_cons, size_nil]
    omega
  have hshrink := ziplistResize_shrink junk (T := T)
    (O := size a + tailSize (n' :: b) + 10) (C := C)
    (a := encode 0 a ++ (encode q [n'] ++ encode n.raw b)) (b := D)
    (by rw [hcut]; simp only [List.length_append, length_encode, size_cons, size_nil]; omega)
    hcut
  rw [List.append_assoc, hcut] at hshrink
  have hincr : C < 65535 → (0 : ℤ) ≤ C + -(d.length : ℕ) := by
    intro hlt
    obtain ⟨-, rfl | rfl⟩ := hcnt
    · simp only [List.length_append]
      push_cast
      omega
    · exact absurd hlt (lt_irrefl _)
  rw [himage, ziplistDeleteEntries, hdrop, hfirst]
  simp only [Option.bind_eq_bind, Option.bind_some, hwalk, htot, hpos, if_true, hgetn,
    hprevraw, ne_eq, hne0, not_false_eq_true, hdropn, hdiff, hp', zipPrevEncodeLength_eq]
  rw [show decide (zipBiglen ≤ q) = w from rfl]
  simp only [hstore, Option.bind_some, ziplistTailOffset_layout hO32, hset, hfix,
    ziplistBytes_layout (show T < 2 ^ 32 by omega), hlen, hmove, hcut, hshrink, Nat.zero_add,
    ziplistIncrLength_layout hcnt.1 hincr]
  have hsum : (encode 0 a ++ (encode q [n'] ++ encode n.raw b)).length + 11
      = (encode 0 a).length + n'.raw + size b + 11 := by
    simp only [List.length_append, length_encode, size_cons, size_nil]
    omega
  have hcascade := ziplistCascadeUpdate_layout junk (A := encode 0 a) (e := n') (r := b)
    (O := size a + tailSize (n' :: b) + 10) (C := incrCount C (-d.length))
    (prevFits_prevWide q) hq32 hfn.2 (by omega) hp hsum (by simp) (by omega)
  rw [relink, image_append, ← hn', ← hq, size_append, size_cons]
  by_cases hnd0 : nextdiff = 0
  · -- the field keeps its width, so nothing after it changes
    have hself : n' = n := by
      rw [hn', eq_of_prevSize_eq (show prevSize w = prevSize n.wide by omega), Entry.withWidth_self]
    rw [if_neg (not_not.mpr hnd0), hself, grow_of_fits hfn.2, if_pos (by omega)]
    simp only [hself] at hsum
    rw [hsum]
    simp [encode]
  · rw [if_pos hnd0, hcascade]
    simp only [length_encode, ← Nat.add_assoc]

theorem ziplistDeleteEntries_image {C num : ℕ} {a es : List Entry}
    (hfits : Fits 0 (a ++ es)) (hes : es ≠ []) (hnum : 0 < num)
    (hsize : size (a ++ es) + 11 < 2 ^ 32) (hcnt : CountOk C (a ++ es).length) :
    ziplistDeleteEntries junk (image C (a ++ es)) (size a + 10) num
      = if size (a ++ relink (lastRaw 0 a) (es.drop num)) + 11 < 2 ^ 32 then
          some (image (incrCount C (-(es.take num).length))
            (a ++ relink (lastRaw 0 a) (es.drop num)))
        else none := by
  rcases hb : es.drop num with _ | ⟨n, b⟩
  · have hle : es.length ≤ num := List.drop_eq_nil_iff.mp hb
    rw [size_append] at hsize
    rw [relink, List.append_nil, if_pos (by omega), List.take_of_length_le hle]
    exact ziplistDeleteEntries_end junk hfits hes hle (by rw [size_append]; omega) hcnt
  · have hlt : num < es.length := by
      by_contra h
      rw [List.drop_eq_nil_iff.mpr (Nat.not_lt.mp h)] at hb
      exact absurd hb (List.cons_ne_nil n b).symm
    have hlen : (es.take num).length = num := List.length_take_of_le hlt.le
    have hes : es = es.take num ++ n :: b := by rw [← hb, List.take_append_drop]
    have hd : es.take num ≠ [] := by
      intro h
      rw [h, List.length_nil] at hlen
      omega
    rw [hes] at hfits hsize hcnt
    have h := ziplistDeleteEntries_mid junk hfits hd hsize hcnt
    rw [hlen, ← hes] at h
    rw [h, hlen]

end delete

end Ziplist

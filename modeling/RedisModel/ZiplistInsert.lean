/-
Inserting an entry (`__ziplistInsert`) on lists of entries.

* `ziplistInsertEntry_image` — inserting `s` between the entries `a` and `b`
  gives the entries `a ++ e :: relink e.raw b`, provided that the entry `e` of
  `s` is not shorter than four bytes when the prevlen field of the next entry is
  five bytes wide.

Without the proviso the block would be cut before its end was moved.
-/
import RedisModel.ZiplistDelete

open ByteBuffer StringNumber

namespace Ziplist

section layout
variable {T O C : ℕ}

/-- The move of `__ziplistInsert`: the bytes `s` after the field `x` are moved
to the end of the block, with the new field `f` in front of them.  The move
starts early or late by the difference in size of the two fields. -/
theorem memmove_store_gap {A x s g f : Bytes} {p r i n : ℕ}
    (hp : p = A.length + 10) (hlen : r + f.length = x.length + g.length)
    (hsrc : i + f.length = p + x.length) (hn : n = f.length + s.length) :
    ∃ X : Bytes, X.length = r ∧
      (memmove (layout T O C (A ++ (x ++ (s ++ g)))) (p + r) i n).bind
          (store · (p + r) f)
        = some (layout T O C ((A ++ X) ++ (f ++ s))) := by
  set m := layout T O C (A ++ (x ++ (s ++ g))) with hm
  have hmlen : m.length = A.length + x.length + s.length + g.length + 11 := by
    simp [hm]
    omega
  obtain ⟨hdr, hhdr, heq, hall⟩ := layout_eq T O C (A ++ (x ++ (s ++ g)))
  refine ⟨(x ++ (s ++ g)).take r, by simp; omega, ?_⟩
  have hu : m.drop (p + x.length) = (s ++ g) ++ [zipEnd] := by
    have := layout_drop_append (T := T) (O := O) (C := C) (a := A ++ x)
      (b := s ++ g) (p := p + x.length) (by simp; omega)
    rwa [List.append_assoc] at this
  have hend : m.drop (p + r + n) = [zipEnd] := by
    have := layout_drop_append (T := T) (O := O) (C := C)
      (a := A ++ (x ++ (s ++ g))) (b := []) (p := p + r + n) (by simp; omega)
    rwa [List.append_nil] at this
  have htake : m.take (p + r) = hdr ++ (A ++ (x ++ (s ++ g)).take r) := by
    have hsplit : m = (hdr ++ A) ++ ((x ++ (s ++ g)) ++ [zipEnd]) := by
      rw [hm, heq]
      simp
    have hp' : p + r = (hdr ++ A).length + r := by
      rw [List.length_append]
      omega
    rw [hsplit, hp', List.take_length_add_append,
      List.take_append_of_le_length (by simp; omega), List.append_assoc]
  rw [memmove_store hsrc hn.symm (by omega) (by omega), hu, hend, htake, hall]
  simp

end layout

/-! ### The steps of an insertion -/

theorem encodeBody_eq_some {s body : Bytes} (hs : s.length < 2 ^ 32)
    (h : encodeBody s = some body) :
    ∃ content, contentBytes s = some content ∧
      body = zipEncodeLength (contentEncoding s) s.length ++ content ∧
      ∀ q, contentSize s + (zipPrevEncodeLength q).length +
        (zipEncodeLength (contentEncoding s) s.length).length
          = prevSize (prevWide q) + body.length := by
  obtain ⟨content, hcontent, rfl⟩ := Option.map_eq_some_iff.mp h
  obtain ⟨body', hbody', -, -, hlen⟩ := encodeBody_spec hs
  rw [h] at hbody'
  obtain rfl := Option.some_inj.mp hbody'
  refine ⟨content, hcontent, rfl, fun q => ?_⟩
  rw [zipPrevEncodeLength_eq, length_prevField]
  simp only [prevWide] at hlen ⊢
  omega

theorem ziplistInsertWrite_layout {T O C p q : ℕ} {A X R s body : Bytes}
    (hs : s.length < 2 ^ 32) (hbody : encodeBody s = some body) (hp : p = A.length + 10)
    (hX : X.length = prevSize (prevWide q) + body.length) (hcnt : C ≤ 65535) :
    ziplistInsertWrite (layout T O C ((A ++ X) ++ R)) p q s
      = some (layout T O (incrCount C 1)
          (A ++ (prevField (prevWide q) q ++ (body ++ R)))) := by
  obtain ⟨content, hcontent, hbytes, -⟩ := encodeBody_eq_some hs hbody
  -- the three pieces are written next to each other
  have hstore : store (layout T O C ((A ++ X) ++ R)) p
        (zipPrevEncodeLength q ++ (zipEncodeLength (contentEncoding s) s.length ++ content))
      = some (layout T O C (A ++ (prevField (prevWide q) q ++ (body ++ R)))) := by
    rw [← hbytes, zipPrevEncodeLength_eq, List.append_assoc,
      ← List.append_assoc (prevField (prevWide q) q)]
    exact store_layout hp (by simp [hX, prevWide])
  rw [← store_bind_store, Option.bind_eq_some_iff] at hstore
  obtain ⟨m, hm, hstore⟩ := hstore
  rw [← store_bind_store, Option.bind_eq_some_iff] at hstore
  obtain ⟨m', hm', hstore⟩ := hstore
  simp only [ziplistInsertWrite, Option.bind_eq_bind, hm, hm', hcontent, hstore,
    Option.bind_some]
  exact ziplistIncrLength_layout hcnt (by omega)

theorem ziplistInsertPrevlen_end {C : ℕ} {a : List Entry} (hfits : Fits 0 a)
    (hsize : size a + 11 < 2 ^ 32) :
    ziplistInsertPrevlen (image C a) (size a + 10) = some (lastRaw 0 a) := by
  have htail := tailSize_le a
  have hend := layout_getElem?_append (T := size a + 11) (O := tailSize a + 10)
    (C := C) (a := encode 0 a) (b := []) (p := size a + 10) (by simp)
  rw [List.append_nil] at hend
  rw [image, ziplistInsertPrevlen, hend, ziplistTailOffset_layout (by omega)]
  rcases a.eq_nil_or_concat' with rfl | ⟨a, e, rfl⟩
  · have hget := layout_getElem?_append (T := size [] + 11) (O := tailSize [] + 10)
      (C := C) (a := []) (b := encode 0 []) (p := tailSize [] + 10) rfl
    rw [List.nil_append] at hget
    simp only [Option.bind_eq_bind, Option.bind_some, hget]
    rfl
  · obtain ⟨hfa, hfe⟩ := fits_append.mp hfits
    have hp : tailSize (a ++ [e]) + 10 = (encode 0 a).length + 10 := by
      rw [tailSize_append_cons, tailSize_singleton, length_encode]
    obtain ⟨b, hb, hne⟩ := encode_cons_head hfe.1 [] [zipEnd]
    rw [size_append, size_cons] at hsize
    rw [encode_append]
    simp only [Option.bind_eq_bind, Option.bind_some, layout_getElem?_append hp, hb, ne_eq,
      hne, not_false_eq_true, if_true, layout_drop_append hp, List.nil_append,
      List.getElem?_cons_zero, not_true, if_false]
    rw [zipRawEntryLength_encode_cons hfe.1 (by omega), lastRaw_append]
    rfl

theorem ziplistInsertPrevlen_mid {C : ℕ} {a b : List Entry} {n : Entry}
    (hfits : Fits (lastRaw 0 a) (n :: b)) (hq : lastRaw 0 a < 2 ^ 32) :
    ziplistInsertPrevlen (image C (a ++ n :: b)) (size a + 10) = some (lastRaw 0 a) := by
  have hp : size a + 10 = (encode 0 a).length + 10 := by simp
  obtain ⟨b0, hb0, hne0⟩ := encode_cons_head hfits.1 b [zipEnd]
  obtain ⟨entry, hentry, -, hprev, -⟩ := zipEntry_encode_cons hfits.1 hq b [zipEnd]
  rw [image_append, ziplistInsertPrevlen, layout_getElem?_append hp, layout_drop_append hp,
    hb0, hentry]
  simp only [Option.bind_eq_bind, Option.bind_some, ne_eq, hne0, not_false_eq_true, if_true,
    hprev]

theorem ziplistInsertDiff_mid {C r : ℕ} {a b : List Entry} {n : Entry}
    (hfits : Fits (lastRaw 0 a) (n :: b)) (hr : r < 2 ^ 32) :
    ziplistInsertDiff (image C (a ++ n :: b)) (size a + 10) r
      = some ((prevSize (prevWide r) : ℤ) - prevSize n.wide) := by
  have hp : size a + 10 = (encode 0 a).length + 10 := by simp
  obtain ⟨b0, hb0, hne0⟩ := encode_cons_head hfits.1 b [zipEnd]
  rw [image_append, ziplistInsertDiff, layout_getElem?_append hp, layout_drop_append hp, hb0]
  simp only [Option.bind_eq_bind, Option.bind_some, ne_eq, hne0, not_false_eq_true, if_true,
    zipPrevLenByteDiff, encode_cons, List.append_assoc, zipDecodePrevlensize_field hfits.1,
    zipPrevEncodeLength_eq, length_prevField, Nat.mod_eq_of_lt hr]
  rfl

theorem ziplistInsertMove_layout {T C r : ℕ} {a b : List Entry} {n : Entry} {g : Bytes}
    (hfits : Fits 0 (a ++ n :: b)) (hr : r < 2 ^ 32)
    (hg : r + prevSize (prevWide r) = prevSize n.wide + g.length)
    (hsize : size (a ++ n :: b) + 11 + g.length < 2 ^ 32) :
    ∃ X : Bytes, X.length = r ∧
      ziplistInsertMove (layout T (size a + tailSize (n :: b) + 10) C
          (encode 0 (a ++ n :: b) ++ g)) (size a + 10) (size (a ++ n :: b) + 11) r
          ((prevSize (prevWide r) : ℤ) - prevSize n.wide)
        = some (layout T (size a + r + tailSize (n.withWidth (prevWide r) :: b) + 10) C
          ((encode 0 a ++ X) ++ (encode r [n.withWidth (prevWide r)] ++ encode n.raw b))) := by
  obtain ⟨-, hfn⟩ := fits_append.mp hfits
  have hp : size a + 10 = (encode 0 a).length + 10 := by simp
  have hle := tailSize_le (n :: b)
  have hw5 : prevSize (prevWide r) ≤ 5 := by
    cases prevWide r <;> decide
  have hn5 : prevSize n.wide ≤ n.raw := Nat.le_add_right _ _
  simp only [size_append, size_cons] at hsize hle ⊢
  set w := prevWide r with hw
  set n' := n.withWidth w with hn'
  set nextdiff : ℤ := (prevSize w : ℤ) - prevSize n.wide with hnd
  set O := size a + tailSize (n :: b) + 10 with hO
  obtain ⟨b0, hb0, hne0⟩ := encode_cons_head hfn.1 b (g ++ [zipEnd])
  have hbytes : encode 0 (a ++ n :: b) ++ g
      = encode 0 a ++ (prevField n.wide (lastRaw 0 a) ++
        ((n.body ++ encode n.raw b) ++ g)) := by
    simp [encode_append, encode_cons]
  have hget : (layout T O C (encode 0 (a ++ n :: b) ++ g))[size a + 10]? = some b0 := by
    rw [encode_append, List.append_assoc, layout_getElem?_append hp, List.append_assoc, hb0]
  obtain ⟨X, hX, hmove⟩ := memmove_store_gap (T := T) (O := O) (C := C)
    (A := encode 0 a) (x := prevField n.wide (lastRaw 0 a)) (s := n.body ++ encode n.raw b)
    (g := g) (f := prevField w r) (r := r)
    (i := (((size a + 10 : ℕ) : ℤ) - nextdiff).toNat)
    (n := (((size a + (n.raw + size b) + 11 : ℕ) : ℤ) - (size a + 10 : ℕ) - 1
      + nextdiff).toNat) hp
    (by simpa using hg) (by simp only [length_prevField]; omega)
    (by simp only [length_prevField, List.length_append, length_encode, Entry.raw]; omega)
  rw [Option.bind_eq_some_iff] at hmove
  obtain ⟨m, hmove, hstore⟩ := hmove
  have hn : prevField w r ++ (n.body ++ encode n.raw b) = encode r [n'] ++ encode n.raw b := by
    simp [encode, hn']
  rw [hn] at hstore
  have hset : setZiplistTailOffset (layout T O C
      ((encode 0 a ++ X) ++ (encode r [n'] ++ encode n.raw b))) ((O : ℤ) + r)
      = some (layout T (O + r) C
        ((encode 0 a ++ X) ++ (encode r [n'] ++ encode n.raw b))) :=
    setZiplistTailOffset_layout (by push_cast; rfl)
  refine ⟨X, hX, ?_⟩
  simp only [ziplistInsertMove, Option.bind_eq_bind, hget, Option.bind_some, ne_eq, hne0,
    not_false_eq_true, if_true, Nat.mod_eq_of_lt hr, zipPrevEncodeLength_eq]
  rw [hbytes, hmove, Option.bind_some, show decide (zipBiglen ≤ r) = w from rfl, hstore,
    Option.bind_some, ziplistTailOffset_layout (by omega), Option.bind_some, hset,
    Option.bind_some]
  refine ziplistFixTail_layout (prevFits_prevWide r) hr hfn.2 (by simp; omega) ?_ ?_
  · rintro rfl
    rw [tailSize_withWidth_nil]
    omega
  · intro hb
    have : (tailSize (n' :: b) : ℤ) = tailSize (n :: b) + nextdiff := tailSize_withWidth n w b hb
    push_cast
    omega

section insert
variable (junk : ℕ → UInt8)

theorem ziplistInsertEntry_end {C : ℕ} {a : List Entry} {e : Entry} {s : Bytes}
    (hfits : Fits 0 a) (hs : s.length < 2 ^ 32) (hbody : encodeBody s = some e.body)
    (hwide : e.wide = prevWide (lastRaw 0 a)) (hsize : size (a ++ [e]) + 11 < 2 ^ 32)
    (hcnt : CountOk C a.length) :
    ziplistInsertEntry junk (image C a) (size a + 10) s
      = some (image (incrCount C 1) (a ++ [e])) := by
  obtain ⟨content, hcontent, hbytes, hlen⟩ := encodeBody_eq_some hs hbody
  rw [size_append, size_cons, size_nil] at hsize
  set q := lastRaw 0 a with hq
  have hraw : e.raw = prevSize (prevWide q) + e.body.length := by rw [Entry.raw, hwide]
  have hp : size a + 10 = (encode 0 a).length + 10 := by simp
  have hget : (image C a)[size a + 10]? = some zipEnd := by
    have := layout_getElem?_append (T := size a + 11) (O := tailSize a + 10)
      (C := C) (a := encode 0 a) (b := []) hp
    rwa [List.append_nil] at this
  have hdiff : ziplistInsertDiff (image C a) (size a + 10) e.raw = some 0 := by
    simp [ziplistInsertDiff, hget]
  have hnew : ((size a + 11 : ℕ) + e.raw + 0 : ℤ).toNat = size a + 11 + e.raw := by omega
  obtain ⟨g, hg, hg0, hresize⟩ := ziplistResize_grow junk (T := size a + 11)
    (O := tailSize a + 10) (C := C) (s := encode 0 a) (l := size a + 11 + e.raw)
    e.raw (by omega) (by simp)
  have hmove : ziplistInsertMove (layout (size a + 11 + e.raw) (tailSize a + 10) C
      (encode 0 a ++ g)) (size a + 10) (size a + 11) e.raw 0
      = some (layout (size a + 11 + e.raw) (size a + 10) C (encode 0 a ++ g)) := by
    rw [ziplistInsertMove, layout_getElem?_append hp, hg0]
    simp only [Option.bind_eq_bind, Option.bind_some, ne_eq, not_true, if_false]
    exact setZiplistTailOffset_layout rfl
  have hwrite := ziplistInsertWrite_layout (T := size a + 11 + e.raw)
    (O := size a + 10) (A := encode 0 a) (X := g) (R := []) (q := q) hs hbody hp
    (by omega) hcnt.1
  rw [List.append_nil] at hwrite
  simp only [ziplistInsertEntry, Option.bind_eq_bind, ziplistInsertPrevlen_end hfits
    (show size a + 11 < 2 ^ 32 by omega), Option.bind_some, hlen, ← hq, ← hraw, hdiff]
  simp only [image, ziplistBytes_layout (show size a + 11 < 2 ^ 32 by omega), Option.bind_some,
    hnew, hresize, hmove, ne_eq, not_true, if_false, hwrite]
  have hsum : size (a ++ [e]) + 11 = size a + 11 + e.raw := by
    simp
    omega
  rw [hsum, tailSize_append_cons, tailSize_singleton, encode_append, encode_cons, hwide]
  rfl

theorem ziplistInsertEntry_mid {C : ℕ} {a b : List Entry} {e n : Entry} {s : Bytes}
    (hfits : Fits 0 (a ++ n :: b)) (hs : s.length < 2 ^ 32) (hbody : encodeBody s = some e.body)
    (hwide : e.wide = prevWide (lastRaw 0 a)) (hsafe : n.wide = true → 4 ≤ e.raw)
    (hsize : size (a ++ e :: relink e.raw (n :: b)) + 11 < 2 ^ 32)
    (hcnt : CountOk C (a ++ n :: b).length) :
    ziplistInsertEntry junk (image C (a ++ n :: b)) (size a + 10) s
      = some (image (incrCount C 1) (a ++ e :: relink e.raw (n :: b))) := by
  obtain ⟨content, hcontent, hbytes, hlen⟩ := encodeBody_eq_some hs hbody
  obtain ⟨-, hfn⟩ := fits_append.mp hfits
  have hraw : e.raw = prevSize (prevWide (lastRaw 0 a)) + e.body.length := by
    rw [Entry.raw, hwide]
  set q := lastRaw 0 a with hq
  set r := e.raw with hr
  set n' := n.withWidth (prevWide r) with hn'
  have hgrow := size_le_size_grow n'.raw b
  simp only [relink, size_append, size_cons, ← hn', ← hr] at hsize
  have hn'raw : (n'.raw : ℤ) = n.raw + ((prevSize (prevWide r) : ℤ) - prevSize n.wide) :=
    raw_withWidth_sub n _
  -- the field does not shrink by more than the room the new entry takes
  have hroom : prevSize n.wide ≤ prevSize (prevWide r) + r := by
    have hpos := prevSize_pos (prevWide r)
    cases hw : n.wide with
    | false =>
      show 1 ≤ _
      omega
    | true =>
      have := hsafe hw
      show 5 ≤ _
      omega
  obtain ⟨k, hk⟩ : ∃ k, r + prevSize (prevWide r) = prevSize n.wide + k :=
    ⟨_, (Nat.add_sub_cancel' (by omega)).symm⟩
  have hq32 : q < 2 ^ 32 := lastRaw_lt (by omega) (by omega)
  have hT : size (a ++ n :: b) = size a + n.raw + size b := by
    rw [size_append, size_cons, Nat.add_assoc]
  have hT32 : size (a ++ n :: b) + 11 < 2 ^ 32 := by omega
  have hnew : ((size (a ++ n :: b) + 11 : ℕ) + (r : ℤ)
      + ((prevSize (prevWide r) : ℤ) - prevSize n.wide)).toNat
      = size (a ++ n :: b) + 11 + k := by omega
  obtain ⟨g, rfl, -, hresize⟩ := ziplistResize_grow junk (T := size (a ++ n :: b) + 11)
    (O := size a + tailSize (n :: b) + 10) (C := C) (s := encode 0 (a ++ n :: b))
    (l := size (a ++ n :: b) + 11 + k) k (by omega) (by simp)
  obtain ⟨X, hX, hmove⟩ := ziplistInsertMove_layout (C := C)
    (T := size (a ++ n :: b) + 11 + g.length) hfits (show r < 2 ^ 32 by omega) hk (by omega)
  rw [← hn'] at hmove
  have hsum : size (a ++ n :: b) + 11 + g.length
      = (encode 0 a ++ X).length + n'.raw + size b + 11 := by
    rw [List.length_append, length_encode]
    omega
  have hcascade := ziplistCascadeUpdate_layout junk (A := encode 0 a ++ X) (e := n')
    (r := b) (O := size a + r + tailSize (n' :: b) + 10) (C := C)
    (p := size a + 10 + r) (prevFits_prevWide r) (by omega) hfn.2 (by omega)
    (by simp; omega) hsum (by simp; omega) (by omega)
  have hbound : (encode 0 a ++ X).length + n'.raw + size (grow n'.raw b) + 11 < 2 ^ 32 := by
    rw [List.length_append, length_encode]
    omega
  rw [if_pos hbound] at hcascade
  have hwrite := ziplistInsertWrite_layout (p := size a + 10)
    (T := (encode 0 a ++ X).length + n'.raw + size (grow n'.raw b) + 11)
    (O := (encode 0 a ++ X).length + tailSize (n' :: grow n'.raw b) + 10) (C := C)
    (A := encode 0 a) (X := X) (R := encode r (n' :: grow n'.raw b)) (q := q) hs hbody
    (by simp) (by omega) hcnt.1
  have himage : image (incrCount C 1) (a ++ e :: relink r (n :: b))
      = layout ((encode 0 a ++ X).length + n'.raw + size (grow n'.raw b) + 11)
        ((encode 0 a ++ X).length + tailSize (n' :: grow n'.raw b) + 10) (incrCount C 1)
        (encode 0 a ++ (prevField (prevWide q) q ++ (e.body ++
          encode r (n' :: grow n'.raw b)))) := by
    rw [image_append, relink, tailSize_cons_cons, encode_cons, hwide, List.length_append,
      length_encode, hX, size_cons]
    simp only [← hr, ← Nat.add_assoc]
    rfl
  simp only [ziplistInsertEntry, Option.bind_eq_bind,
    ziplistInsertPrevlen_mid hfn hq32, Option.bind_some, hlen, ← hq, ← hraw,
    ziplistInsertDiff_mid hfn (show r < 2 ^ 32 by omega)]
  have hzl : image C (a ++ n :: b) = layout (size (a ++ n :: b) + 11)
      (size a + tailSize (n :: b) + 10) C (encode 0 (a ++ n :: b)) := by
    rw [image, tailSize_append_cons]
  simp only [hzl, ziplistBytes_layout hT32, Option.bind_some, hnew, hresize, hmove, himage,
    ← hwrite]
  split
  case isTrue => rw [hcascade, Option.bind_some]
  case isFalse heq =>
    -- the field keeps its width, so nothing after it changes
    have hself : n' = n := by
      rw [hn', eq_of_prevSize_eq (show prevSize (prevWide r) = prevSize n.wide by omega),
        Entry.withWidth_self]
    rw [hself, grow_of_fits hfn.2, hsum, hself]
    simp [encode, hX]

theorem ziplistInsertEntry_image {C : ℕ} {a b : List Entry} {e : Entry} {s : Bytes}
    (hfits : Fits 0 (a ++ b)) (hs : s.length < 2 ^ 32) (hbody : encodeBody s = some e.body)
    (hwide : e.wide = prevWide (lastRaw 0 a))
    (hsafe : ∀ n ∈ b.head?, n.wide = true → 4 ≤ e.raw)
    (hsize : size (a ++ e :: relink e.raw b) + 11 < 2 ^ 32)
    (hcnt : CountOk C (a ++ b).length) :
    ziplistInsertEntry junk (image C (a ++ b)) (size a + 10) s
      = some (image (incrCount C 1) (a ++ e :: relink e.raw b)) := by
  cases b with
  | nil =>
    rw [List.append_nil] at hfits hcnt ⊢
    exact ziplistInsertEntry_end junk hfits hs hbody hwide hsize hcnt
  | cons n b =>
    exact ziplistInsertEntry_mid junk hfits hs hbody hwide (hsafe n rfl) hsize hcnt

end insert

end Ziplist

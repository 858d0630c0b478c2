/-
`__ziplistCascadeUpdate` on blocks with one stale prevlen field.

`StaleZiplist zl es i stale`: the block `zl` holds the entries `es` and is well
formed, but for the prevlen field behind the entry `i`, which holds `stale`.  That
is what is left behind when the entry `i` changes its size.

* `ziplistTexts_append` — a walk over the entries `a` reads their texts and goes on
  behind them, whatever stands there;
* `ziplistCascadeUpdate_stale` — the update repairs the block as long as the result
  has less than `2 ^ 32` bytes, and leaves memory when it has not;
* `ziplistCascadeUpdate_full` — a block whose repair does not fit.
-/
import RedisModel.ZiplistRun

open ByteBuffer StringNumber

namespace Ziplist

/-! ### Blocks with a stale field -/

/-- A block of the entries `es` whose prevlen field behind the entry `i` holds
`stale`; every other field of the header and of the entries is right. -/
structure StaleZiplist (zl : Bytes) (es : List Entry) (i stale : ℕ) : Prop where
  block : ∃ cnt, CountOk cnt es.length ∧
    zl = layout (size es + 11) (tailSize es + 10) cnt
      (encode 0 (es.take (i + 1)) ++ encode stale (es.drop (i + 1)))
  fits_before : Fits 0 (es.take (i + 1))
  fits_after : Fits stale (es.drop (i + 1))
  stale_lt : stale < 2 ^ 32
  room : size es + 11 < 2 ^ 32

/-- The entries with the fields behind the entry `i` widened as far as needed. -/
def cascaded (i : ℕ) (es : List Entry) : List Entry :=
  es.take (i + 1) ++ grow (lastRaw 0 (es.take (i + 1))) (es.drop (i + 1))

theorem cascaded_append_cons (a : List Entry) (e : Entry) (r : List Entry) :
    cascaded a.length (a ++ e :: r) = a ++ e :: grow e.raw r := by
  have htake : (a ++ e :: r).take (a.length + 1) = a ++ [e] := by simp [List.take_append]
  have hdrop : (a ++ e :: r).drop (a.length + 1) = r := by simp [List.drop_append]
  rw [cascaded, htake, hdrop, lastRaw_append, lastRaw_cons, lastRaw_nil, List.append_assoc,
    List.singleton_append]

theorem cascaded_length (es : List Entry) : cascaded es.length es = es := by
  rw [cascaded, List.take_of_length_le (by omega), List.drop_of_length_le (by omega), grow_nil,
    List.append_nil]

theorem map_body_cascaded (i : ℕ) (es : List Entry) :
    (cascaded i es).map Entry.body = es.map Entry.body := by
  rw [cascaded, List.map_append, map_body_grow, ← List.map_append, List.take_append_drop]

theorem length_cascaded (i : ℕ) (es : List Entry) : (cascaded i es).length = es.length := by
  simpa using congrArg List.length (map_body_cascaded i es)

theorem wide_grow (prev : ℕ) (es : List Entry) :
    List.Forall₂ (fun e e' => e.wide = true → e'.wide = true) es (grow prev es) := by
  induction es generalizing prev with
  | nil => exact .nil
  | cons e es ih =>
    rw [grow]
    split
    case isTrue => exact List.forall₂_same.mpr fun _ _ h => h
    case isFalse => exact .cons (fun _ => rfl) (ih _)

theorem wide_cascaded (i : ℕ) (es : List Entry) :
    List.Forall₂ (fun e e' => e.wide = true → e'.wide = true) es (cascaded i es) := by
  have hsame : List.Forall₂ (fun e e' : Entry => e.wide = true → e'.wide = true)
      (es.take (i + 1)) (es.take (i + 1)) := List.forall₂_same.mpr fun _ _ h => h
  have happ : List.Forall₂ (fun e e' : Entry => e.wide = true → e'.wide = true)
      (es.take (i + 1) ++ es.drop (i + 1)) (cascaded i es) :=
    List.rel_append hsame (wide_grow (lastRaw 0 (es.take (i + 1))) (es.drop (i + 1)))
  rwa [List.take_append_drop] at happ

/-! ### Reading a block with a stale field -/

theorem ziplistTexts_append {T O C q p fuel : ℕ} {A s : Bytes} {a : List Entry}
    {xs ys : List Bytes} (hfits : Fits q a) (htexts : Texts a xs) (hq : q < 2 ^ 32)
    (hsize : size a < 2 ^ 32) (hp : p = A.length + 10)
    (hrest : ziplistTexts (layout T O C (A ++ (encode q a ++ s))) fuel (p + size a) = some ys) :
    ziplistTexts (layout T O C (A ++ (encode q a ++ s))) (a.length + fuel) p
      = some (xs ++ ys) := by
  induction a generalizing A q p xs with
  | nil =>
    obtain rfl : xs = [] := by simpa [Texts] using htexts
    rw [List.length_nil, Nat.zero_add]
    exact hrest
  | cons e a ih =>
    obtain ⟨x, xs, rfl⟩ : ∃ x xs', xs = x :: xs' := by
      cases xs with
      | nil => simp [Texts] at htexts
      | cons x xs => exact ⟨x, xs, rfl⟩
    obtain ⟨hx, hxs⟩ : bodyText e.body = some x ∧ Texts a xs := by
      simpa [Texts] using htexts
    obtain ⟨hfit, hfits⟩ := hfits
    rw [size_cons] at hsize hrest
    obtain ⟨b, hb, hne⟩ := encode_cons_head hfit a (s ++ [zipEnd])
    obtain ⟨v, hvalue, rfl⟩ := Option.map_eq_some_iff.mp hx
    have hv : ziplistGet (encode q (e :: a) ++ s ++ [zipEnd]) = some v := by
      rw [encode_cons, List.append_assoc, List.append_assoc, List.append_assoc]
      exact ziplistGet_append hfit hq e.body_ok hvalue _
    have hlen : zipRawEntryLength (encode q (e :: a) ++ s ++ [zipEnd]) = some e.raw := by
      rw [List.append_assoc]
      exact zipRawEntryLength_encode_cons hfit (by omega) a (s ++ [zipEnd])
    -- the walk goes on behind the first entry
    have hnext : A ++ (encode q (e :: a) ++ s) = (A ++ encode q [e]) ++ (encode e.raw a ++ s) := by
      simp [encode]
    have hpos : (A ++ encode q [e]).length + 10 = p + e.raw := by
      simp
      omega
    have htail := ih (A := A ++ encode q [e]) (p := p + e.raw) hfits hxs (by omega) (by omega)
      hpos.symm (by rw [← hnext, Nat.add_assoc]; exact hrest)
    rw [← hnext] at htail
    rw [List.length_cons, Nat.succ_add_eq_add_succ, Nat.add_succ, ziplistTexts,
      layout_getElem?_append hp, layout_drop_append hp, List.append_assoc, hb]
    rw [← List.append_assoc, hv, hlen]
    simp only [Option.bind_eq_bind, Option.bind_some, if_neg hne, htail, List.cons_append]

namespace StaleZiplist
variable {zl : Bytes} {es : List Entry} {i stale : ℕ}

theorem ziplistToList_eq (h : StaleZiplist zl es i stale) {xs : List Bytes}
    (htexts : Texts es xs) : ziplistToList zl = some xs := by
  obtain ⟨cnt, -, rfl⟩ := h.block
  have hroom := h.room
  have hsplit : size (es.take (i + 1)) + size (es.drop (i + 1)) = size es := by
    rw [← size_append, List.take_append_drop]
  have hle := length_le_size es
  have hlen := congrArg List.length (List.take_append_drop (i + 1) es)
  rw [List.length_append] at hlen
  have hrest : ziplistTexts (layout (size es + 11) (tailSize es + 10) cnt
      (encode 0 (es.take (i + 1)) ++ encode stale (es.drop (i + 1))))
      (size es + 11 - (es.take (i + 1)).length) (10 + size (es.take (i + 1)))
      = some (xs.drop (i + 1)) :=
    ziplistTexts_layout h.fits_after (texts_drop htexts (i + 1)) h.stale_lt (by omega)
      (by rw [length_encode]; omega) (by omega)
  have hall := ziplistTexts_append (A := []) h.fits_before (texts_take htexts (i + 1))
    (by decide) (by omega) rfl hrest
  rw [List.take_append_drop, List.nil_append,
    Nat.add_sub_cancel' (by omega : (es.take (i + 1)).length ≤ size es + 11)] at hall
  have hwhole : (layout (size es + 11) (tailSize es + 10) cnt
      (encode 0 (es.take (i + 1)) ++ encode stale (es.drop (i + 1)))).length = size es + 11 := by
    rw [length_layout, List.length_append, length_encode, length_encode, hsplit]
  rw [ziplistToList, hwhole]
  exact hall

end StaleZiplist

/-! ### The update -/

section
variable (junk : ℕ → UInt8) {zl : Bytes} {es : List Entry} {i stale : ℕ}

theorem StaleZiplist.ziplistCascadeUpdate_eq (h : StaleZiplist zl es i stale)
    (hi : i ≤ es.length) :
    ∃ cnt, CountOk cnt es.length ∧ ziplistCascadeUpdate junk zl (size (es.take i) + 10)
      = if size (cascaded i es) + 11 < 2 ^ 32 then some (image cnt (cascaded i es)) else none := by
  obtain ⟨cnt, hcnt, rfl⟩ := h.block
  refine ⟨cnt, hcnt, ?_⟩
  have hroom := h.room
  rcases Nat.eq_or_lt_of_le hi with rfl | hlt
  · -- no entry at the position: the loop stops at the end marker
    have hall : es.take (es.length + 1) = es := List.take_of_length_le (by omega)
    have hnone : es.drop (es.length + 1) = [] := List.drop_of_length_le (by omega)
    rw [cascaded_length, if_pos hroom, hall, hnone, encode, List.append_nil, List.take_length,
      ziplistCascadeUpdate, ziplistBytes_layout hroom, length_layout]
    have hend : (layout (size es + 11) (tailSize es + 10) cnt (encode 0 es))[size es + 10]?
        = some zipEnd := by
      have := layout_getElem?_append (T := size es + 11) (O := tailSize es + 10) (C := cnt)
        (a := encode 0 es) (b := []) (p := size es + 10) (by rw [length_encode])
      rwa [List.append_nil] at this
    rw [Option.bind_eq_bind, Option.bind_some]
    show ziplistCascadeLoop junk ((encode 0 es).length + 10 + 1) _ _ _ = _
    rw [ziplistCascadeLoop, hend]
    simp only [Option.bind_eq_bind, Option.bind_some, if_true]
    rfl
  · obtain ⟨a, e, r, rfl, rfl⟩ : ∃ a e r, es = a ++ e :: r ∧ i = a.length := by
      refine ⟨es.take i, es[i], es.drop (i + 1), ?_, ?_⟩
      · rw [← List.drop_eq_getElem_cons hlt, List.take_append_drop]
      · rw [List.length_take, Nat.min_eq_left hi]
    have htake : (a ++ e :: r).take (a.length + 1) = a ++ [e] := by simp [List.take_append]
    have hdrop : (a ++ e :: r).drop (a.length + 1) = r := by simp [List.drop_append]
    have hbefore := h.fits_before
    have hafter := h.fits_after
    rw [htake] at hbefore
    rw [hdrop] at hafter
    have hsize : size (a ++ e :: r) = size a + e.raw + size r := by
      rw [size_append, size_cons]
      omega
    have hgrown : size (a ++ e :: grow e.raw r) = size a + e.raw + size (grow e.raw r) := by
      rw [size_append, size_cons]
      omega
    have hpos : size a + 10 = (encode 0 a).length + 10 := by rw [length_encode]
    have hupdate := ziplistCascadeUpdate_layout junk (T := size (a ++ e :: r) + 11)
      (O := tailSize (a ++ e :: r) + 10) (C := cnt) (A := encode 0 a) (fits_append.mp hbefore).2.1
      (lastRaw_lt (by decide) (by omega)) hafter h.stale_lt hpos
      (by rw [length_encode]; omega) (by rw [length_encode, tailSize_append_cons]) hroom
    rw [htake, hdrop, encode_append, List.append_assoc, List.take_left' rfl, hupdate,
      cascaded_append_cons, length_encode, hgrown]
    split
    · rw [image, hgrown, tailSize_append_cons, encode_append]
    · rfl

/-- The update repairs a block with a stale field: the values stay the same, every
prevlen field decodes to the size of the entry before it, no field becomes
narrower and the tail offset is that of the last entry.  When the repaired block
has no room the update leaves memory. -/
theorem ziplistCascadeUpdate_stale (h : StaleZiplist zl es i stale) (hi : i ≤ es.length) :
    (size (cascaded i es) + 11 < 2 ^ 32 →
      ∃ zl', ziplistCascadeUpdate junk zl (size (es.take i) + 10) = some zl' ∧
        IsZiplist zl' (cascaded i es) ∧
        (cascaded i es).map Entry.body = es.map Entry.body ∧
        (∀ xs, Texts es xs → ziplistToList zl = some xs ∧ ziplistToList zl' = some xs) ∧
        (∀ b e c, cascaded i es = b ++ e :: c →
          ∃ entry, zipEntry (zl'.drop (size b + 10)) = some entry ∧
            entry.prevrawlen = lastRaw 0 b) ∧
        List.Forall₂ (fun e e' => e.wide = true → e'.wide = true) es (cascaded i es) ∧
        ziplistTailOffset zl' = some (tailSize (cascaded i es) + 10)) ∧
    (¬size (cascaded i es) + 11 < 2 ^ 32 →
      ziplistCascadeUpdate junk zl (size (es.take i) + 10) = none) := by
  obtain ⟨cnt, hcnt, hupdate⟩ := h.ziplistCascadeUpdate_eq junk hi
  constructor
  · intro hroom
    have hfits : Fits 0 (cascaded i es) :=
      fits_append.mpr ⟨h.fits_before, fits_grow h.fits_after⟩
    have hzl : IsZiplist (image cnt (cascaded i es)) (cascaded i es) :=
      ⟨⟨cnt, by rwa [length_cascaded], rfl⟩, hfits, hroom⟩
    refine ⟨_, by rw [hupdate, if_pos hroom], hzl, map_body_cascaded i es, ?_, ?_,
      wide_cascaded i es, hzl.header.2.1⟩
    · intro xs htexts
      exact ⟨h.ziplistToList_eq htexts,
        ziplistToList_eq hzl (texts_of_map_body htexts (map_body_cascaded i es))⟩
    · intro b e c hsplit
      rw [hsplit] at hzl ⊢
      obtain ⟨entry, hentry, hprev, -⟩ := hzl.entry
      exact ⟨entry, hentry, hprev⟩
  · intro hfull
    rw [hupdate, if_neg hfull]

end

theorem staleZiplist_long : StaleZiplist
    (layout (size [longEntry, shortEntry] + 11) (tailSize [longEntry, shortEntry] + 10) 2
      (encode 0 [longEntry] ++ encode 7 [shortEntry])) [longEntry, shortEntry] 0 7 :=
  ⟨⟨2, by decide, rfl⟩, ⟨Or.inr (by decide), trivial⟩, ⟨Or.inr (by decide), trivial⟩, by decide,
    by rw [size_cons, size_cons, raw_longEntry, raw_shortEntry]; decide⟩

theorem size_cascaded_long (k : ℕ) :
    size (cascaded 0 (longEntry :: List.replicate k shortEntry)) = 303 + 257 * k := by
  have hgrow := cascaded_append_cons [] longEntry (List.replicate k shortEntry)
  rw [List.nil_append, List.length_nil, grow_replicate_shortEntry
    (by rw [raw_longEntry]; decide)] at hgrow
  rw [hgrow, List.nil_append, size_cons, size_replicate, raw_longEntry, raw_wide_shortEntry _ rfl]
  omega

/-- The field behind a long entry is widened. -/
theorem ziplistCascadeUpdate_stale_long :
    ∃ zl', ziplistCascadeUpdate noJunk
        (layout (size [longEntry, shortEntry] + 11) (tailSize [longEntry, shortEntry] + 10) 2
          (encode 0 [longEntry] ++ encode 7 [shortEntry])) (size ([] : List Entry) + 10) = some zl' ∧
      IsZiplist zl' (cascaded 0 [longEntry, shortEntry]) := by
  obtain ⟨zl', hzl', hwell, -⟩ :=
    (ziplistCascadeUpdate_stale noJunk staleZiplist_long (by decide)).1
      (by rw [show [longEntry, shortEntry] = longEntry :: List.replicate 1 shortEntry from rfl,
        size_cascaded_long]; decide)
  exact ⟨zl', hzl', hwell⟩

/-- When 16900000 fields have to grow the block does not fit `2 ^ 32` bytes. -/
theorem ziplistCascadeUpdate_full :
    ¬ ∀ (junk : ℕ → UInt8) (zl : Bytes) (es : List Entry) (i stale : ℕ),
      StaleZiplist zl es i stale → i ≤ es.length →
      ∃ zl' es', ziplistCascadeUpdate junk zl (size (es.take i) + 10) = some zl' ∧
        IsZiplist zl' es' ∧ es'.map Entry.body = es.map Entry.body := by
  intro h
  obtain ⟨k, hk⟩ : ∃ k, k = 16900000 := ⟨_, rfl⟩
  have hsize : size (longEntry :: List.replicate k shortEntry) = 303 + 253 * k := by
    rw [size_cons, size_replicate, raw_longEntry, raw_shortEntry]
    omega
  have hstale : StaleZiplist _ (longEntry :: List.replicate k shortEntry) 0 7 :=
    ⟨⟨65535, ⟨le_rfl, Or.inr rfl⟩, rfl⟩, ⟨Or.inr (by decide), trivial⟩,
      fits_replicate_shortEntry (by decide) k, by decide, by omega⟩
  obtain ⟨zl', es', hupdate, -⟩ := h noJunk _ _ 0 7 hstale (Nat.zero_le _)
  have hnone := (ziplistCascadeUpdate_stale noJunk hstale (Nat.zero_le _)).2
    (by rw [size_cascaded_long]; omega)
  rw [hupdate] at hnone
  exact Option.some_ne_none zl' hnone

end Ziplist

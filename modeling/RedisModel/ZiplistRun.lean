/-
Ziplists refine lists of strings.

`IsZiplist zl es`: the block `zl` is a well-formed ziplist with the entries `es`.
The operations `Op` act on three levels: on lists of strings, on lists of entries
and on blocks.

* `ziplistDeleteEntries_isZiplist` — `__ziplistDelete` keeps ziplists well formed
  and removes exactly the entries it should, as long as the result has less than
  `2 ^ 32` bytes;
* `run_refines_list` — after any sequence of insertions and deletions the block
  decodes to the list of strings, as long as no insertion clobbers the list;
* `run_clobbered` — a sequence with an insertion that does.
-/
import RedisModel.ZiplistInsert

open ByteBuffer StringNumber

namespace Ziplist

/-! ### Well-formed ziplists -/

/-- A block that holds the entries `es`: its header gives its size, the offset of
the last entry and the number of entries (or 65535), every prevlen field holds
the size of the previous entry, and the end marker follows the last entry. -/
structure IsZiplist (zl : Bytes) (es : List Entry) : Prop where
  intro ::
  block : ∃ cnt, CountOk cnt es.length ∧ zl = image cnt es
  fits : Fits 0 es
  room : size es + 11 < 2 ^ 32

theorem isZiplist_ziplistNew : IsZiplist ziplistNew [] :=
  ⟨⟨0, by decide, rfl⟩, trivial, by decide⟩

namespace IsZiplist
variable {zl : Bytes} {es : List Entry}

theorem length_eq (h : IsZiplist zl es) : zl.length = size es + 11 := by
  obtain ⟨cnt, -, rfl⟩ := h.block
  simp [image]

theorem header (h : IsZiplist zl es) :
    ziplistBytes zl = some zl.length ∧ ziplistTailOffset zl = some (tailSize es + 10) ∧
      ∃ cnt, ziplistLength zl = some cnt ∧ (cnt = es.length ∨ cnt = 65535) := by
  have hlen := h.length_eq
  have hroom := h.room
  have htail := tailSize_le es
  obtain ⟨cnt, ⟨hle, hcnt⟩, rfl⟩ := h.block
  refine ⟨?_, ?_, cnt, ?_, hcnt⟩
  · rw [hlen]
    exact ziplistBytes_layout hroom
  · exact ziplistTailOffset_layout (by omega)
  · exact ziplistLength_layout (by omega)

theorem entry {a b : List Entry} {e : Entry} (h : IsZiplist zl (a ++ e :: b)) :
    ∃ entry, zipEntry (zl.drop (size a + 10)) = some entry ∧
      entry.prevrawlen = lastRaw 0 a ∧ entry.prevrawlensize = prevSize e.wide ∧
      entry.headersize + entry.len = e.raw := by
  obtain ⟨cnt, -, rfl⟩ := h.block
  obtain ⟨-, hfe⟩ := fits_append.mp h.fits
  have hroom := h.room
  rw [size_append, size_cons] at hroom
  obtain ⟨entry, hentry, hsize, hprev, hlen⟩ := zipEntry_encode_cons hfe.1
    (lastRaw_lt (show 0 < 2 ^ 32 by decide) (by omega)) b [zipEnd]
  rw [image_append, layout_drop_append (by simp)]
  exact ⟨entry, hentry, hprev, hsize, hlen⟩

end IsZiplist

/-- The position of the entry `i`, or the end of the list when there are `i`
entries. -/
def ziplistSeek (zl : Bytes) (i : ℕ) : Option ℕ :=
  (ziplistDeleteWalk zl i ziplistHeaderSize 0).map Prod.fst

theorem ziplistSeek_eq {zl : Bytes} {es : List Entry} (h : IsZiplist zl es) (i : ℕ) :
    ziplistSeek zl i = some (size (es.take i) + 10) := by
  obtain ⟨cnt, -, rfl⟩ := h.block
  have hroom := h.room
  have hwalk := ziplistDeleteWalk_layout (T := size es + 11) (O := tailSize es + 10)
    (C := cnt) (A := []) (p := ziplistHeaderSize) h.fits (by omega) rfl i 0
  rw [List.nil_append] at hwalk
  rw [ziplistSeek, image, hwalk, Option.map_some, Nat.add_comm]
  rfl

/-! ### Decoding -/

/-- The entries hold the strings `xs`. -/
def Texts (es : List Entry) (xs : List Bytes) : Prop :=
  es.map (fun e => bodyText e.body) = xs.map some

theorem texts_of_map_body {es es' : List Entry} {xs : List Bytes} (h : Texts es xs)
    (hbody : es'.map Entry.body = es.map Entry.body) : Texts es' xs := by
  have hmap : ∀ l : List Entry, l.map (fun e => bodyText e.body) = (l.map Entry.body).map bodyText :=
    fun l => by simp
  rw [Texts, hmap, hbody, ← hmap, h]

theorem texts_take {es : List Entry} {xs : List Bytes} (h : Texts es xs) (i : ℕ) :
    Texts (es.take i) (xs.take i) := by
  unfold Texts at h ⊢
  rw [List.map_take, h, List.map_take]

theorem texts_drop {es : List Entry} {xs : List Bytes} (h : Texts es xs) (i : ℕ) :
    Texts (es.drop i) (xs.drop i) := by
  unfold Texts at h ⊢
  rw [List.map_drop, h, List.map_drop]

theorem texts_append {es fs : List Entry} {xs ys : List Bytes} (h : Texts es xs)
    (h' : Texts fs ys) : Texts (es ++ fs) (xs ++ ys) := by
  unfold Texts at h h' ⊢
  rw [List.map_append, h, h', List.map_append]

theorem ziplistTexts_layout {total tail cnt q p : ℕ} {A : Bytes} {es : List Entry}
    {xs : List Bytes} (hfits : Fits q es) (htexts : Texts es xs) (hq : q < 2 ^ 32)
    (hsize : size es < 2 ^ 32) (hp : p = A.length + 10) {fuel : ℕ} (hfuel : es.length < fuel) :
    ziplistTexts (layout total tail cnt (A ++ encode q es)) fuel p = some xs := by
  induction es generalizing A q p xs fuel with
  | nil =>
    obtain ⟨fuel, rfl⟩ : ∃ k, fuel = k + 1 := ⟨fuel - 1, by simp at hfuel; omega⟩
    obtain rfl : xs = [] := by simpa [Texts] using htexts
    rw [ziplistTexts, layout_getElem?_append hp]
    simp [encode]
  | cons e es ih =>
    obtain ⟨fuel, rfl⟩ : ∃ k, fuel = k + 1 := ⟨fuel - 1, by simp at hfuel; omega⟩
    obtain ⟨x, xs, rfl⟩ : ∃ x xs', xs = x :: xs' := by
      cases xs with
      | nil => simp [Texts] at htexts
      | cons x xs => exact ⟨x, xs, rfl⟩
    obtain ⟨hx, hxs⟩ : bodyText e.body = some x ∧ Texts es xs := by
      simpa [Texts] using htexts
    obtain ⟨hfit, hfits⟩ := hfits
    rw [size_cons] at hsize
    obtain ⟨b, hb, hne⟩ := encode_cons_head hfit es [zipEnd]
    obtain ⟨v, hvalue, hvx⟩ := Option.map_eq_some_iff.mp hx
    have hv : ziplistGet (encode q (e :: es) ++ [zipEnd]) = some v := by
      rw [encode_cons, List.append_assoc, List.append_assoc]
      exact ziplistGet_append hfit hq e.body_ok hvalue _
    have hnext : A ++ encode q (e :: es) = (A ++ encode q [e]) ++ encode e.raw es := by
      simp [encode]
    rw [ziplistTexts, layout_getElem?_append hp, layout_drop_append hp, hb, hv,
      zipRawEntryLength_encode_cons hfit (by omega)]
    simp only [Option.bind_eq_bind, Option.bind_some, if_neg hne]
    rw [hnext, ih hfits hxs (by omega) (by omega) (by simp; omega) (by simp at hfuel; omega), hvx]
    rfl

theorem ziplistToList_eq {zl : Bytes} {es : List Entry} {xs : List Bytes}
    (h : IsZiplist zl es) (htexts : Texts es xs) : ziplistToList zl = some xs := by
  have hlen := h.length_eq
  have hle := length_le_size es
  have hroom := h.room
  rw [ziplistToList]
  obtain ⟨cnt, -, rfl⟩ := h.block
  exact ziplistTexts_layout (A := []) h.fits htexts (by decide) (by omega) rfl (by omega)

/-! ### The operations -/

/-- A string whose length is an `unsigned int`. -/
abbrev Text := {s : Bytes // s.length < 2 ^ 32}

/-- The entry `__ziplistInsert` builds for `s` behind an entry of `prev` bytes. -/
def newEntry (prev : ℕ) (s : Text) : Entry where
  wide := prevWide prev
  body := (encodeBody s.1).getD []
  body_ok := by
    obtain ⟨body, hbody, hok, -⟩ := encodeBody_spec s.2
    simpa [hbody] using hok

theorem newEntry_body (prev : ℕ) (s : Text) :
    encodeBody s.1 = some (newEntry prev s).body ∧
      bodyText (newEntry prev s).body = some s.1 := by
  obtain ⟨body, hbody, -, hvalue, -⟩ := encodeBody_spec s.2
  simp [newEntry, hbody, bodyText, hvalue, text_entryValue]

/-- Insert `s` in front of the entry `i` (at the end if there are `i` entries), or
delete `num` entries starting with the entry `i`. -/
inductive Op where
  | insert (i : ℕ) (s : Text)
  | delete (i num : ℕ)

namespace Op

/-- The operation on an ordinary list. -/
def onList : Op → List Bytes → List Bytes
  | insert i s, xs => xs.take i ++ s.1 :: xs.drop i
  | delete i num, xs => xs.take i ++ xs.drop (i + num)

/-- The operation on entries. -/
def onEntries : Op → List Entry → List Entry
  | insert i s, es =>
    es.take i ++ newEntry (lastRaw 0 (es.take i)) s ::
      relink (newEntry (lastRaw 0 (es.take i)) s).raw (es.drop i)
  | delete i num, es => es.take i ++ relink (lastRaw 0 (es.take i)) (es.drop (i + num))

/-- The operation of the library. -/
def onZiplist (junk : ℕ → UInt8) : Op → Bytes → Option Bytes
  | insert i s, zl => do
    let p ← ziplistSeek zl i
    ziplistInsertEntry junk zl p s.1
  | delete i num, zl => do
    let p ← ziplistSeek zl i
    ziplistDeleteEntries junk zl p num

/-- The positions an operation may be called with. -/
def Valid : Op → List Entry → Prop
  | insert i _, es => i ≤ es.length
  | delete i num, es => i < es.length ∧ 0 < num

/-- The result has less than `2 ^ 32` bytes. -/
def HasRoom (op : Op) (es : List Entry) : Prop := size (op.onEntries es) + 11 < 2 ^ 32

/-- An entry shorter than four bytes is inserted in front of an entry whose
prevlen field has five. -/
def Clobbers : Op → List Entry → Prop
  | insert i s, es =>
    (newEntry (lastRaw 0 (es.take i)) s).raw < 4 ∧ ∃ n ∈ es[i]?, n.wide = true
  | delete _ _, _ => False

instance : (op : Op) → (es : List Entry) → Decidable (op.Valid es)
  | insert _ _, _ => inferInstanceAs (Decidable (_ ≤ _))
  | delete _ _, _ => inferInstanceAs (Decidable (_ ∧ _))

instance (op : Op) (es : List Entry) : Decidable (op.HasRoom es) :=
  inferInstanceAs (Decidable (_ < _))

instance : (op : Op) → (es : List Entry) → Decidable (op.Clobbers es)
  | insert _ _, _ => inferInstanceAs (Decidable (_ ∧ _))
  | delete _ _, _ => inferInstanceAs (Decidable False)

theorem fits_onEntries {es : List Entry} (h : Fits 0 es) (op : Op) :
    Fits 0 (op.onEntries es) := by
  cases op with
  | insert i s =>
    have hsplit : Fits 0 (es.take i ++ es.drop i) := by rwa [List.take_append_drop]
    obtain ⟨htake, hdrop⟩ := fits_append.mp hsplit
    exact fits_append.mpr ⟨htake, prevFits_prevWide _, fits_relink hdrop⟩
  | delete i num =>
    have hsplit : Fits 0 (es.take i ++ es.drop i) := by rwa [List.take_append_drop]
    obtain ⟨htake, hdrop⟩ := fits_append.mp hsplit
    have hdrop' : Fits (lastRaw 0 (es.take i)) ((es.drop i).take num ++ (es.drop i).drop num) := by
      rwa [List.take_append_drop]
    rw [onEntries, ← List.drop_drop]
    exact fits_append.mpr ⟨htake, fits_relink (fits_append.mp hdrop').2⟩

theorem texts_onEntries {es : List Entry} {xs : List Bytes} (h : Texts es xs) (op : Op) :
    Texts (op.onEntries es) (op.onList xs) := by
  cases op with
  | insert i s =>
    have htext := (newEntry_body (lastRaw 0 (es.take i)) s).2
    have hdrop := texts_of_map_body (texts_drop h i)
      (map_body_relink (newEntry (lastRaw 0 (es.take i)) s).raw (es.drop i))
    refine texts_append (texts_take h i) ?_
    unfold Texts at hdrop ⊢
    rw [List.map_cons, htext, hdrop, List.map_cons]
  | delete i num =>
    exact texts_append (texts_take h i)
      (texts_of_map_body (texts_drop h (i + num)) (map_body_relink _ _))

end Op

/-- `__ziplistDelete` on a well-formed ziplist: what it returns when the result
has room, and that it leaves memory when it has not. -/
theorem onZiplist_delete (junk : ℕ → UInt8) {zl : Bytes} {es : List Entry} {i num : ℕ}
    (h : IsZiplist zl es) (hvalid : (Op.delete i num).Valid es) :
    ∃ cnt, CountOk cnt ((Op.delete i num).onEntries es).length ∧
      ziplistDeleteEntries junk zl (size (es.take i) + 10) num
        = if (Op.delete i num).HasRoom es then
            some (image cnt ((Op.delete i num).onEntries es))
          else none := by
  obtain ⟨cnt, hcnt, rfl⟩ := h.block
  have hsplit : es.take i ++ es.drop i = es := List.take_append_drop i es
  have hne : es.drop i ≠ [] := by
    intro hnil
    have := List.drop_eq_nil_iff.mp hnil
    have := hvalid.1
    omega
  have hdel := ziplistDeleteEntries_image junk (C := cnt) (a := es.take i)
    (show Fits 0 (es.take i ++ es.drop i) by rw [hsplit]; exact h.fits) hne hvalid.2
    (by rw [hsplit]; exact h.room) (by rw [hsplit]; exact hcnt)
  rw [hsplit, List.drop_drop] at hdel
  have hlen : ((Op.delete i num).onEntries es).length
      = es.length - ((es.drop i).take num).length := by
    have := hvalid.1
    simp only [Op.onEntries, List.length_append, length_relink, List.length_take,
      List.length_drop]
    omega
  refine ⟨_, ?_, hdel⟩
  rw [hlen]
  exact countOk_incrCount_sub hcnt (by simp)

theorem onZiplist_insert (junk : ℕ → UInt8) {zl : Bytes} {es : List Entry} {i : ℕ} {s : Text}
    (h : IsZiplist zl es) (hvalid : (Op.insert i s).Valid es)
    (hroom : (Op.insert i s).HasRoom es) (hsafe : ¬ (Op.insert i s).Clobbers es) :
    ∃ cnt, CountOk cnt ((Op.insert i s).onEntries es).length ∧
      ziplistInsertEntry junk zl (size (es.take i) + 10) s.1
        = some (image cnt ((Op.insert i s).onEntries es)) := by
  obtain ⟨cnt, hcnt, rfl⟩ := h.block
  have hsplit : es.take i ++ es.drop i = es := List.take_append_drop i es
  have hins := ziplistInsertEntry_image junk (C := cnt) (a := es.take i) (b := es.drop i)
    (e := newEntry (lastRaw 0 (es.take i)) s) (s := s.1) (by rw [hsplit]; exact h.fits) s.2
    (newEntry_body _ s).1 rfl ?_ hroom (by rw [hsplit]; exact hcnt)
  · rw [hsplit] at hins
    have hlen : ((Op.insert i s).onEntries es).length = es.length + 1 := by
      have : i ≤ es.length := hvalid
      simp only [Op.onEntries, List.length_append, List.length_cons, length_relink,
        List.length_take, List.length_drop]
      omega
    refine ⟨_, ?_, hins⟩
    rw [hlen]
    exact countOk_incrCount_one hcnt
  · intro n hn hwide
    by_contra hlt
    refine hsafe ⟨Nat.not_le.mp hlt, n, ?_, hwide⟩
    rwa [List.head?_drop] at hn

theorem onZiplist_isZiplist (junk : ℕ → UInt8) {zl : Bytes} {es : List Entry} {op : Op}
    (h : IsZiplist zl es) (hvalid : op.Valid es) (hroom : op.HasRoom es)
    (hsafe : ¬ op.Clobbers es) :
    ∃ zl', op.onZiplist junk zl = some zl' ∧ IsZiplist zl' (op.onEntries es) := by
  have hfits := op.fits_onEntries h.fits
  cases op with
  | insert i s =>
    obtain ⟨cnt, hcnt, hins⟩ := onZiplist_insert junk h hvalid hroom hsafe
    refine ⟨_, ?_, ⟨cnt, hcnt, rfl⟩, hfits, hroom⟩
    rw [Op.onZiplist, ziplistSeek_eq h]
    exact hins
  | delete i num =>
    obtain ⟨cnt, hcnt, hdel⟩ := onZiplist_delete junk h hvalid
    rw [if_pos hroom] at hdel
    refine ⟨_, ?_, ⟨cnt, hcnt, rfl⟩, hfits, hroom⟩
    rw [Op.onZiplist, ziplistSeek_eq h]
    exact hdel

/-! ### Deletion -/

/-- `__ziplistDelete` on a well-formed ziplist, for every pattern of prevlen
widths: the other entries are kept, with prevlen fields that fit. -/
theorem ziplistDeleteEntries_isZiplist (junk : ℕ → UInt8) {zl : Bytes} {es : List Entry}
    {i num : ℕ} (h : IsZiplist zl es) (hi : i < es.length) (hnum : 0 < num)
    (hroom : (Op.delete i num).HasRoom es) :
    ∃ zl' es', ziplistDeleteEntries junk zl (size (es.take i) + 10) num = some zl' ∧
      IsZiplist zl' es' ∧
      es'.map Entry.body = (es.take i ++ es.drop (i + num)).map Entry.body := by
  obtain ⟨cnt, hcnt, hdel⟩ := onZiplist_delete junk h ⟨hi, hnum⟩
  rw [if_pos hroom] at hdel
  refine ⟨_, _, hdel, ⟨⟨cnt, hcnt, rfl⟩, Op.fits_onEntries h.fits _, hroom⟩, ?_⟩
  rw [Op.onEntries, List.map_append, List.map_append, map_body_relink]

/-! ### Runs -/

/-- Operations one after the other on a new ziplist; the allocator may fill the
memory it adds differently each time. -/
def runZiplist (steps : List ((ℕ → UInt8) × Op)) : Option Bytes :=
  steps.foldlM (fun zl step => step.2.onZiplist step.1 zl) ziplistNew

/-- The same operations on an ordinary list. -/
def runList (ops : List Op) : List Bytes := ops.foldl (fun xs op => op.onList xs) []

/-- `P` holds of every operation in the state it is performed in. -/
def AllSteps (P : Op → List Entry → Prop) : List Entry → List Op → Prop
  | _, [] => True
  | es, op :: ops => P op es ∧ AllSteps P (op.onEntries es) ops

instance AllSteps.decidable (P : Op → List Entry → Prop) [∀ op es, Decidable (P op es)] :
    (es : List Entry) → (ops : List Op) → Decidable (AllSteps P es ops)
  | _, [] => isTrue trivial
  | es, op :: ops =>
    have := AllSteps.decidable P (op.onEntries es) ops
    inferInstanceAs (Decidable (_ ∧ _))

/-- As long as the size stays below `2 ^ 32` and no insertion clobbers the list, a
ziplist holds what an ordinary list would hold after the same operations. -/
theorem run_refines_list (steps : List ((ℕ → UInt8) × Op))
    (hvalid : AllSteps Op.Valid [] (steps.map Prod.snd))
    (hroom : AllSteps Op.HasRoom [] (steps.map Prod.snd))
    (hsafe : AllSteps (fun op es => ¬ op.Clobbers es) [] (steps.map Prod.snd)) :
    ∃ zl, runZiplist steps = some zl ∧
      ziplistToList zl = some (runList (steps.map Prod.snd)) := by
  have hrun : ∀ (zl : Bytes) (es : List Entry) (xs : List Bytes), IsZiplist zl es → Texts es xs →
      AllSteps Op.Valid es (steps.map Prod.snd) → AllSteps Op.HasRoom es (steps.map Prod.snd) →
      AllSteps (fun op es => ¬ op.Clobbers es) es (steps.map Prod.snd) →
      ∃ zl' es', steps.foldlM (fun zl step => step.2.onZiplist step.1 zl) zl = some zl' ∧
        IsZiplist zl' es' ∧
        Texts es' ((steps.map Prod.snd).foldl (fun xs op => op.onList xs) xs) := by
    clear hvalid hroom hsafe
    induction steps with
    | nil =>
      intro zl es xs h htexts _ _ _
      exact ⟨zl, es, rfl, h, htexts⟩
    | cons step steps ih =>
      intro zl es xs h htexts hvalid hroom hsafe
      obtain ⟨zl', hzl', h'⟩ := onZiplist_isZiplist step.1 h hvalid.1 hroom.1 hsafe.1
      obtain ⟨zl'', es'', hrun, hresult⟩ :=
        ih zl' _ _ h' (Op.texts_onEntries htexts step.2) hvalid.2 hroom.2 hsafe.2
      exact ⟨zl'', es'', by rw [List.foldlM_cons, hzl']; exact hrun, hresult⟩
  obtain ⟨zl, es, hzl, h, htexts⟩ := hrun _ [] [] isZiplist_ziplistNew rfl hvalid hroom hsafe
  exact ⟨zl, hzl, ziplistToList_eq h htexts⟩

/-- Two pushes and a deletion. -/
theorem run_refines_list_push_push_delete :
    ∃ zl, runZiplist [(noJunk, .insert 0 ⟨[97], by decide⟩), (noJunk, .insert 1 ⟨[98], by decide⟩),
        (noJunk, .delete 0 1)] = some zl ∧ ziplistToList zl = some [[98]] :=
  run_refines_list [(noJunk, .insert 0 ⟨[97], by decide⟩), (noJunk, .insert 1 ⟨[98], by decide⟩),
    (noJunk, .delete 0 1)] (by decide) (by decide) (by decide)

/-- The second of three entries has 255 bytes because of its wide prevlen field,
so the third records its size in five bytes.  Deleting the head makes the second
entry shorter, but the field of the third stays wide; an entry of three bytes in
front of the third then makes the block shorter. -/
def clobberedSteps (junk : ℕ → UInt8) : List ((ℕ → UInt8) × Op) :=
  [(junk, .insert 0 ⟨List.replicate 300 97, by rw [List.length_replicate]; decide⟩),
   (junk, .insert 1 ⟨List.replicate 248 98, by rw [List.length_replicate]; decide⟩),
   (junk, .insert 2 ⟨[104, 101, 108, 108, 111], by decide⟩),
   (junk, .delete 0 1),
   (junk, .insert 1 ⟨[120], by decide⟩)]

/-- Without the condition on insertions the last byte of the list is lost. -/
theorem run_clobbered :
    ¬ ∀ steps : List ((ℕ → UInt8) × Op), AllSteps Op.Valid [] (steps.map Prod.snd) →
      AllSteps Op.HasRoom [] (steps.map Prod.snd) →
      ∃ zl, runZiplist steps = some zl ∧
        ziplistToList zl = some (runList (steps.map Prod.snd)) := by
  intro h
  obtain ⟨zl, hzl, hlist⟩ := h (clobberedSteps noJunk) (by decide +kernel) (by decide +kernel)
  have hbad : (runZiplist (clobberedSteps noJunk)).bind ziplistToList
      ≠ some (runList ((clobberedSteps noJunk).map Prod.snd)) := by decide +kernel
  exact hbad (by rw [hzl, Option.bind_some, hlist])

/-! ### A deletion that does not fit -/

theorem size_replicate (k : ℕ) (e : Entry) : size (List.replicate k e) = k * e.raw := by
  simp [size]

/-- An entry one byte short of needing a wide field after it. -/
def shortEntry : Entry where
  wide := false
  body := zipEncodeLength 0 250 ++ List.replicate 250 97
  body_ok := by decide +kernel

/-- An entry that needs a wide field after it. -/
def longEntry : Entry where
  wide := false
  body := zipEncodeLength 0 300 ++ List.replicate 300 97
  body_ok := by decide +kernel

theorem raw_shortEntry : shortEntry.raw = 253 := by decide +kernel

theorem raw_longEntry : longEntry.raw = 303 := by decide +kernel

theorem raw_wide_shortEntry (e : Entry) (h : e = shortEntry.withWidth true) : e.raw = 257 := by
  rw [h, raw_withWidth_true rfl, raw_shortEntry]

theorem grow_replicate_shortEntry {prev : ℕ} (h : zipBiglen ≤ prev) (k : ℕ) :
    grow prev (List.replicate k shortEntry) = List.replicate k (shortEntry.withWidth true) := by
  induction k generalizing prev with
  | zero => rfl
  | succ k ih =>
    have hfit : ¬ PrevFits shortEntry.wide prev := by
      simp only [PrevFits, shortEntry, Bool.false_eq_true, false_or]
      omega
    rw [List.replicate_succ, grow_cons_of_not_fits hfit, ih, List.replicate_succ]
    rw [raw_wide_shortEntry _ rfl]
    decide

theorem fits_replicate_shortEntry {prev : ℕ} (h : prev < zipBiglen) (k : ℕ) :
    Fits prev (List.replicate k shortEntry) := by
  induction k generalizing prev with
  | zero => trivial
  | succ k ih =>
    exact ⟨Or.inr h, ih (by rw [raw_shortEntry]; decide)⟩

theorem relink_replicate_shortEntry {prev : ℕ} (h : zipBiglen ≤ prev) (k : ℕ) :
    relink prev (List.replicate k shortEntry)
      = List.replicate k (shortEntry.withWidth true) := by
  cases k with
  | zero => rfl
  | succ k =>
    have hwide : prevWide prev = true := decide_eq_true h
    rw [List.replicate_succ, relink, hwide, grow_replicate_shortEntry, List.replicate_succ]
    rw [raw_wide_shortEntry _ rfl]
    decide

/-- An entry whose deletion makes the first short entry follow the long one. -/
def tinyEntry : Entry where
  wide := true
  body := [1, 97]
  body_ok := by decide +kernel

/-- A long entry, an entry to delete and `k` entries whose fields grow when it is
gone. -/
def fullEntries (k : ℕ) : List Entry :=
  longEntry :: tinyEntry :: List.replicate k shortEntry

theorem isZiplist_fullEntries {k : ℕ} (h : 321 + 253 * k < 2 ^ 32) :
    IsZiplist (image 65535 (fullEntries k)) (fullEntries k) := by
  refine ⟨⟨65535, ⟨le_rfl, Or.inr rfl⟩, rfl⟩, ?_, ?_⟩
  · exact ⟨Or.inr (by decide), Or.inl rfl, fits_replicate_shortEntry (by decide) k⟩
  · have htiny : tinyEntry.raw = 7 := by decide
    rw [fullEntries, size_cons, size_cons, size_replicate, raw_longEntry, raw_shortEntry, htiny]
    omega

theorem size_delete_fullEntries (k : ℕ) :
    size ((Op.delete 1 1).onEntries (fullEntries k)) = 303 + 257 * k := by
  have hrelink : relink (lastRaw 0 [longEntry]) (List.replicate k shortEntry)
      = List.replicate k (shortEntry.withWidth true) :=
    relink_replicate_shortEntry (by rw [lastRaw_cons, lastRaw_nil, raw_longEntry]; decide) k
  show size ([longEntry] ++ relink (lastRaw 0 [longEntry]) (List.replicate k shortEntry)) = _
  rw [hrelink, size_append, size_cons, size_nil, size_replicate, raw_longEntry,
    raw_wide_shortEntry _ rfl]
  omega

/-- When 16900000 fields have to grow the ziplist does not fit `2 ^ 32` bytes any
more: the size passed to `ziplistResize` wraps around. -/
theorem ziplistDeleteEntries_full :
    ¬ ∀ (junk : ℕ → UInt8) (zl : Bytes) (es : List Entry) (i num : ℕ),
      IsZiplist zl es → i < es.length → 0 < num →
      ∃ zl' es', ziplistDeleteEntries junk zl (size (es.take i) + 10) num = some zl' ∧
        IsZiplist zl' es' ∧
        es'.map Entry.body = (es.take i ++ es.drop (i + num)).map Entry.body := by
  intro h
  obtain ⟨k, hk⟩ : ∃ k, k = 16900000 := ⟨_, rfl⟩
  have hzl := isZiplist_fullEntries (k := k) (by omega)
  have hvalid : (Op.delete 1 1).Valid (fullEntries k) := by
    simp [Op.Valid, fullEntries]
  obtain ⟨zl', es', hdel, -⟩ := h noJunk _ _ 1 1 hzl hvalid.1 hvalid.2
  obtain ⟨cnt, -, heq⟩ := onZiplist_delete noJunk hzl hvalid
  have hroom : ¬ (Op.delete 1 1).HasRoom (fullEntries k) := by
    rw [Op.HasRoom, size_delete_fullEntries]
    omega
  rw [if_neg hroom, hdel] at heq
  exact Option.some_ne_none zl' heq

/-- Deleting the second entry of three. -/
theorem ziplistDeleteEntries_isZiplist_fullEntries :
    ∃ zl' es', ziplistDeleteEntries noJunk (image 65535 (fullEntries 1))
        (size ((fullEntries 1).take 1) + 10) 1 = some zl' ∧ IsZiplist zl' es' ∧
      es'.map Entry.body
        = ((fullEntries 1).take 1 ++ (fullEntries 1).drop (1 + 1)).map Entry.body :=
  ziplistDeleteEntries_isZiplist noJunk (isZiplist_fullEntries (by decide)) (by decide) (by decide)
    (by rw [Op.HasRoom, size_delete_fullEntries]; decide)

end Ziplist

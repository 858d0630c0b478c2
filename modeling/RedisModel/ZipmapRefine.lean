/-
The zipmap operations, as operations on entries.

* `Represents` — a zipmap and its entries;
* `setEntry`, `delEntry` — what `zipmapSet` and `zipmapDel` do to the entries;
* `zipmapSet_spec`, `zipmapDel_spec` — the operations do this, and stay inside the block.
-/
import RedisModel.ZipmapLayout

open ByteBuffer

namespace Zipmap

/-- The length byte counts the entries up to 253; 254 says that they have to be counted. -/
def HeaderOk (count : UInt8) (n : ℕ) : Prop :=
  (count.toNat < zipmapBiglen ∧ count.toNat = n) ∨ count.toNat = zipmapBiglen

/-- The zipmap `zm` stores the entries `es`. -/
structure Represents (es : List Entry) (zm : Bytes) : Prop where
  image : ∃ count body, zm = count :: (body ++ [zipmapEnd]) ∧ Images es body ∧
    HeaderOk count es.length
  nodup : (es.map Entry.key).Nodup
  size_lt : sizes es + 2 < 2 ^ 32

section
variable {es : List Entry} {zm key val : Bytes}

theorem Represents.length (h : Represents es zm) : zm.length = sizes es + 2 := by
  obtain ⟨count, body, rfl, hbody, -⟩ := h.image
  rw [List.length_cons, List.length_append, hbody.length]
  rfl

theorem zipmapNew_represents : Represents [] zipmapNew :=
  ⟨⟨0, [], rfl, rfl, .inl ⟨by decide, rfl⟩⟩, List.nodup_nil, by decide⟩

/-! ### Lookup -/

theorem Represents.loop_not_found (h : Represents es zm) {key : Option Bytes}
    (hkey : ∀ e ∈ es, key ≠ some e.key) (totlen : Bool) :
    zipmapLookupLoop zm key totlen zm.length 1 none = some (none, zm.length - 1) := by
  have hlen := h.length
  have hle := length_le_sizes es
  have hlt := h.size_lt
  obtain ⟨fuel, hfuel⟩ : ∃ fuel, zm.length = fuel + 1 + es.length :=
    ⟨zm.length - 1 - es.length, by omega⟩
  obtain ⟨count, body, hzm, hbody, -⟩ := h.image
  have hend : zm[1 + sizes es]? = some zipmapEnd := by
    rw [hzm, ← List.cons_append]
    exact getElem?_at (by rw [List.length_cons, hbody.length, Nat.add_comm])
  have hone : 1 = [count].length := rfl
  rw [hfuel, loop_pass hbody hzm hone (by omega) (fun _ => hkey), loop_end hend, ← hfuel, hlen]
  congr 2
  omega

theorem Represents.loop_found {es₁ es₂ : List Entry} {e : Entry}
    (h : Represents (es₁ ++ e :: es₂) zm) (totlen : Bool) :
    ReadsAs zm (1 + sizes es₁) e ∧
      zipmapLookupLoop zm (some e.key) totlen zm.length 1 none
        = if totlen then some (some (1 + sizes es₁), zm.length - 1)
          else some (some (1 + sizes es₁), 1 + sizes es₁) := by
  have hlen := h.length
  have hle₁ := length_le_sizes es₁
  have hle₂ := length_le_sizes es₂
  have hlt := h.size_lt
  have hpos := e.size_pos
  rw [sizes_append, sizes] at hlen hlt
  obtain ⟨fuel, hfuel⟩ : ∃ fuel, zm.length = fuel + 1 + es₂.length + 1 + es₁.length :=
    ⟨zm.length - 2 - es₂.length - es₁.length, by omega⟩
  obtain ⟨count, body, hzm, hbody, -⟩ := h.image
  obtain ⟨body₁, rest, rfl, hbody₁, pad, body₂, hpad, rfl, hbody₂⟩ := images_append.mp hbody
  -- no entry before has this key
  have hkey : ∀ e' ∈ es₁, some e.key ≠ some e'.key := by
    have hnodup := h.nodup
    rw [List.map_append, List.map_cons, List.nodup_append] at hnodup
    intro e' he' heq
    exact hnodup.2.2 _ (List.mem_map_of_mem he') _ List.mem_cons_self
      (Option.some_inj.mp heq).symm
  have hzm₁ : zm = [count] ++ (body₁ ++ (e.image pad ++ body₂ ++ [zipmapEnd])) := by
    simpa using hzm
  have hzme : zm = (count :: body₁) ++ (e.image pad ++ (body₂ ++ [zipmapEnd])) := by
    simpa using hzm
  have hzm₂ : zm = (count :: (body₁ ++ e.image pad)) ++ (body₂ ++ [zipmapEnd]) := by
    simpa using hzm
  have hp : 1 + sizes es₁ = (count :: body₁).length := by
    rw [List.length_cons, hbody₁.length, Nat.add_comm]
  have hp₂ : 1 + sizes es₁ + e.size = (count :: (body₁ ++ e.image pad)).length := by
    rw [List.length_cons, List.length_append, hbody₁.length, e.length_image hpad]
    omega
  have hend : zm[1 + sizes es₁ + e.size + sizes es₂]? = some zipmapEnd := by
    rw [hzm₂, ← List.append_assoc]
    exact getElem?_at (by rw [List.length_append, ← hp₂, hbody₂.length])
  have hreads : ReadsAs zm (1 + sizes es₁) e := readsAs_image hzme hp (by omega)
  have hone : 1 = [count].length := rfl
  refine ⟨hreads, ?_⟩
  rw [hfuel, loop_pass hbody₁ hzm₁ hone (by omega) (fun _ => hkey), hreads.loop]
  cases totlen with
  | false => simp
  | true =>
    rw [if_neg (by simp), if_pos ⟨rfl, rfl⟩,
      loop_pass hbody₂ hzm₂ hp₂ (by omega) fun hk => absurd hk (Option.some_ne_none _),
      loop_end hend, if_pos rfl, ← hfuel, hlen]
    congr 2
    omega

theorem Represents.lookupTotlen_of_not_found (h : Represents es zm) {key : Option Bytes}
    (hkey : ∀ e ∈ es, key ≠ some e.key) : zipmapLookupTotlen zm key = some (none, zm.length) := by
  have hlen := h.length
  have hlt := h.size_lt
  rw [zipmapLookupTotlen, h.loop_not_found hkey, Option.bind_eq_bind, Option.bind_some]
  dsimp only
  rw [uint_of_lt (by omega : zm.length - 1 < 2 ^ 32), uint_of_lt (by omega),
    Nat.sub_add_cancel (by omega)]

theorem Represents.lookupTotlen_of_found {es₁ es₂ : List Entry} {e : Entry}
    (h : Represents (es₁ ++ e :: es₂) zm) :
    zipmapLookupTotlen zm (some e.key) = some (some (1 + sizes es₁), zm.length) := by
  have hlen := h.length
  have hlt := h.size_lt
  rw [zipmapLookupTotlen, (h.loop_found true).2, if_pos rfl, Option.bind_eq_bind, Option.bind_some]
  dsimp only
  rw [uint_of_lt (by omega : zm.length - 1 < 2 ^ 32), uint_of_lt (by omega),
    Nat.sub_add_cancel (by omega)]

theorem Represents.lookupRaw_of_not_found (h : Represents es zm)
    (hkey : ∀ e ∈ es, key ≠ e.key) : zipmapLookupRaw zm key = some none := by
  have hkey' : ∀ e ∈ es, some key ≠ some e.key := fun e he heq =>
    hkey e he (Option.some_inj.mp heq)
  rw [zipmapLookupRaw, h.loop_not_found hkey']
  rfl

theorem Represents.lookupRaw_of_found {es₁ es₂ : List Entry} {e : Entry}
    (h : Represents (es₁ ++ e :: es₂) zm) :
    zipmapLookupRaw zm e.key = some (some (1 + sizes es₁)) := by
  rw [zipmapLookupRaw, (h.loop_found false).2, if_neg Bool.false_ne_true]
  rfl

theorem ReadsAs.rawKeyLength {p : ℕ} {e : Entry} (h : ReadsAs zm p e) :
    zipmapRawKeyLength zm p = some (zipmapLenBytes e.key.length + e.key.length) := by
  have hsize := h.size_lt
  rw [Entry.size] at hsize
  rw [zipmapRawKeyLength, h.klen, Option.bind_eq_bind, Option.bind_some, uint_of_lt (by omega)]

theorem ReadsAs.rawValueLength {p : ℕ} {e : Entry} (h : ReadsAs zm p e) :
    zipmapRawValueLength zm (p + (zipmapLenBytes e.key.length + e.key.length))
      = some (zipmapLenBytes e.value.length + (e.value.length + 1 + e.free)) := by
  have hsize := h.size_lt
  rw [Entry.size] at hsize
  rw [zipmapRawValueLength, h.vlen, Option.bind_eq_bind, Option.bind_some]
  dsimp only
  rw [h.free, Option.bind_eq_bind, Option.bind_some, e.toNat_free, uint_of_lt (by omega)]
  congr 1
  omega

theorem ReadsAs.rawEntryLength {p : ℕ} {e : Entry} (h : ReadsAs zm p e) :
    zipmapRawEntryLength zm p = some e.size := by
  have hsize := h.size_lt
  rw [zipmapRawEntryLength, h.rawKeyLength, Option.bind_eq_bind, Option.bind_some,
    h.rawValueLength, Option.bind_some, ← Entry.size, uint_of_lt hsize]

/-! ### Memory -/

section
variable (junk : ℕ → UInt8)

theorem zipmapResize_grow (zm : Bytes) {k : ℕ} (hk : 0 < k) (hlt : zm.length + k < 2 ^ 32) :
    ∃ g : Bytes, g.length + 1 = k ∧
      zipmapResize junk zm (zm.length + k) = some (zm ++ (g ++ [zipmapEnd])) := by
  obtain ⟨g, hg, hrealloc⟩ := realloc_grow junk zm k
  obtain ⟨g, last, rfl⟩ : ∃ g' last, g = g' ++ [last] := by
    rcases List.eq_nil_or_concat' g with rfl | h
    · simp at hg
      omega
    · exact h
  rw [List.length_append, List.length_singleton] at hg
  refine ⟨g, hg, ?_⟩
  rw [zipmapResize, hrealloc, usub_of_le hlt (by omega)]
  have hstore := store_append (a := zm ++ g) (b := [last]) (d := [zipmapEnd]) (c := [])
    (p := zm.length + k - 1) (by rw [List.length_append]; omega) rfl
  simpa using hstore

theorem zipmapResize_shrink {a b : Bytes} {x : UInt8} (hlt : a.length + 1 < 2 ^ 32) :
    zipmapResize junk (a ++ (x :: b)) (a.length + 1) = some (a ++ [zipmapEnd]) := by
  have hrealloc : realloc junk (a ++ (x :: b)) (a.length + 1) = a ++ [x] := by
    rw [List.append_cons]
    exact realloc_shrink junk (by simp)
  rw [zipmapResize, hrealloc, usub_of_le hlt (by omega), Nat.add_sub_cancel]
  have hstore := store_append (a := a) (b := [x]) (d := [zipmapEnd]) (c := []) (p := a.length) rfl
    rfl
  simpa using hstore

theorem zipmapGrow_eq (a b t : Bytes) {reqlen : ℕ} (hreq : b.length < reqlen)
    (hlt : a.length + reqlen + t.length + 1 < 2 ^ 32) :
    ∃ x : Bytes, x.length = reqlen ∧
      zipmapGrow junk (a ++ (b ++ (t ++ [zipmapEnd]))) a.length
        (a ++ (b ++ (t ++ [zipmapEnd]))).length b.length reqlen
        = some (a ++ (x ++ (t ++ [zipmapEnd]))) := by
  have hlen : (a ++ (b ++ (t ++ [zipmapEnd]))).length = a.length + b.length + t.length + 1 := by
    simp
    omega
  obtain ⟨g, hg, hresize⟩ := zipmapResize_grow junk (a ++ (b ++ (t ++ [zipmapEnd])))
    (k := reqlen - b.length) (by omega) (by omega)
  rw [zipmapGrow, hlen, usub_of_le (by omega) (by omega), uint_of_lt (by omega)]
  rw [hlen] at hresize
  rw [show a.length + b.length + t.length + 1 - b.length + reqlen
    = a.length + b.length + t.length + 1 + (reqlen - b.length) by omega, hresize]
  rw [Option.bind_eq_bind, Option.bind_some, usub_of_le (by omega) (by omega),
    show a.length + b.length + t.length + 1 - (a.length + b.length + 1) = t.length by omega]
  -- the tail is read where it was, and written where the entry will end
  have hslice : slice (a ++ (b ++ (t ++ [zipmapEnd])) ++ (g ++ [zipmapEnd])) (a.length + b.length)
      t.length = some t := by
    have h := slice_append (a := a ++ b) (b := t) (c := [zipmapEnd] ++ (g ++ [zipmapEnd]))
      (p := a.length + b.length) (n := t.length) (by simp) rfl
    simpa using h
  set rest := b ++ (t ++ ([zipmapEnd] ++ g)) with hrest
  have hrestlen : rest.length = reqlen + t.length := by
    simp [hrest]
    omega
  have hblock : a ++ (b ++ (t ++ [zipmapEnd])) ++ (g ++ [zipmapEnd])
      = (a ++ rest.take reqlen) ++ (rest.drop reqlen ++ [zipmapEnd]) := by
    rw [List.append_assoc a (rest.take reqlen), ← List.append_assoc (rest.take reqlen),
      List.take_append_drop]
    simp [hrest]
  refine ⟨rest.take reqlen, by rw [List.length_take]; omega, ?_⟩
  rw [memmove, hslice, Option.bind_some, hblock,
    store_append (by rw [List.length_append, List.length_take]; omega)
      (by rw [List.length_drop]; omega), List.append_assoc]

theorem zipmapShrink_eq (a b t : Bytes) {reqlen : ℕ} (hreq : reqlen ≤ b.length)
    (hlt : a.length + b.length + t.length + 1 < 2 ^ 32) :
    zipmapShrink junk (a ++ (b ++ (t ++ [zipmapEnd]))) a.length
        (a ++ (b ++ (t ++ [zipmapEnd]))).length b.length reqlen
      = some (a ++ (b.take reqlen ++ (t ++ [zipmapEnd]))) := by
  have hlen : (a ++ (b ++ (t ++ [zipmapEnd]))).length = a.length + b.length + t.length + 1 := by
    simp
    omega
  have hslice : slice (a ++ (b ++ (t ++ [zipmapEnd]))) (a.length + b.length) t.length = some t := by
    have h := slice_append (a := a ++ b) (b := t) (c := [zipmapEnd]) (p := a.length + b.length)
      (n := t.length) (by simp) rfl
    simpa using h
  set rest := b.drop reqlen ++ (t ++ [zipmapEnd]) with hrest
  have hrestlen : rest.length = b.length - reqlen + t.length + 1 := by
    simp [hrest]
    omega
  have hblock : a ++ (b ++ (t ++ [zipmapEnd]))
      = (a ++ b.take reqlen) ++ (rest.take t.length ++ rest.drop t.length) := by
    rw [List.take_append_drop, hrest, List.append_assoc a, ← List.append_assoc (b.take reqlen),
      List.take_append_drop]
  obtain ⟨x, last, hlast⟩ : ∃ x last, rest.drop t.length = x :: last := by
    cases hdrop : rest.drop t.length with
    | nil =>
      have hnil := congrArg List.length hdrop
      rw [List.length_drop, hrestlen] at hnil
      simp at hnil
      omega
    | cons x last => exact ⟨x, last, rfl⟩
  rw [zipmapShrink, hlen, usub_of_le (by omega) (by omega),
    show a.length + b.length + t.length + 1 - (a.length + b.length + 1) = t.length by omega,
    memmove, hslice, Option.bind_some, hblock,
    store_append (by rw [List.length_append, List.length_take]; omega)
      (by rw [List.length_take]; omega), Option.bind_eq_bind, Option.bind_some,
    usub_of_le (by omega) hreq, usub_of_le (by omega) (by omega), hlast, ← List.append_assoc]
  have hsize : a.length + b.length + t.length + 1 - (b.length - reqlen)
      = (a ++ b.take reqlen ++ t).length + 1 := by
    rw [List.length_append, List.length_append, List.length_take]
    omega
  rw [hsize, zipmapResize_shrink junk (by rw [← hsize]; omega)]
  simp

theorem HeaderOk.succ {count : UInt8} {n : ℕ} (h : HeaderOk count n) :
    HeaderOk (if count.toNat < zipmapBiglen then count + 1 else count) (n + 1) := by
  split
  next hlt =>
    have hval : (count + 1).toNat = count.toNat + 1 := by
      rw [UInt8.toNat_add]
      rw [zipmapBiglen] at hlt
      change (count.toNat + 1) % 256 = count.toNat + 1
      omega
    rw [HeaderOk, hval]
    rcases h with ⟨-, rfl⟩ | hbig
    · rw [zipmapBiglen] at hlt ⊢
      omega
    · omega
  next hge => exact .inr (h.resolve_left fun hsmall => hge hsmall.1)

theorem HeaderOk.pred {count : UInt8} {n : ℕ} (h : HeaderOk count (n + 1)) :
    HeaderOk (if count.toNat < zipmapBiglen then count - 1 else count) n := by
  split
  next hlt =>
    rcases h with ⟨-, hn⟩ | hbig
    · have hval : (count - 1).toNat = n := by
        rw [UInt8.toNat_sub]
        change (256 - 1 + count.toNat) % 256 = n
        rw [zipmapBiglen] at hlt
        omega
      exact .inl ⟨by omega, hval⟩
    · omega
  next hge => exact .inr (h.resolve_left fun hsmall => hge hsmall.1)

theorem zipmapEnlarge_eq (count : UInt8) (body : Bytes) {reqlen : ℕ} (hreq : 0 < reqlen)
    (hlt : body.length + 2 + reqlen < 2 ^ 32) :
    ∃ x : Bytes, x.length = reqlen ∧
      zipmapEnlarge junk (count :: (body ++ [zipmapEnd])) (body.length + 2) reqlen
        = some ((if count.toNat < zipmapBiglen then count + 1 else count) ::
          (body ++ (x ++ [zipmapEnd]))) := by
  have hlen : (count :: (body ++ [zipmapEnd])).length = body.length + 2 := by simp
  obtain ⟨g, hg, hresize⟩ := zipmapResize_grow junk (count :: (body ++ [zipmapEnd])) hreq
    (by omega)
  rw [hlen] at hresize
  refine ⟨zipmapEnd :: g, by simpa using hg, ?_⟩
  rw [zipmapEnlarge, uint_of_lt hlt, hresize, Option.bind_eq_bind, Option.bind_some]
  have hshape : count :: (body ++ [zipmapEnd]) ++ (g ++ [zipmapEnd])
      = count :: (body ++ (zipmapEnd :: g ++ [zipmapEnd])) := by simp
  rw [hshape, List.getElem?_cons_zero, Option.bind_eq_bind, Option.bind_some]
  split
  · exact store_append (a := []) (b := [count]) (d := [count + 1]) rfl rfl
  · rfl

/-- The bytes that `zipmapSet` writes. -/
def written (key val : Bytes) (vempty : ℕ) : Bytes :=
  zipmapEncodeLength key.length ++ (key ++ (zipmapEncodeLength val.length ++
    (UInt8.ofNat vempty :: val)))

/-- The number of bytes that an entry needs. -/
def required (key val : Bytes) : ℕ :=
  zipmapLenBytes key.length + key.length + (zipmapLenBytes val.length + (val.length + 1))

theorem length_written (key val : Bytes) (vempty : ℕ) :
    (written key val vempty).length = required key val := by
  simp [written, required]
  omega

theorem zipmapRequiredLength_eq (hlt : required key val < 2 ^ 32) :
    zipmapRequiredLength key.length val.length = required key val := by
  simp only [required, zipmapLenBytes] at hlt ⊢
  simp only [zipmapRequiredLength, uint]
  by_cases hk : key.length < zipmapBiglen
  · have hk' : ¬key.length ≥ zipmapBiglen := not_le.mpr hk
    by_cases hv : val.length < zipmapBiglen
    · have hv' : ¬val.length ≥ zipmapBiglen := not_le.mpr hv
      simp only [if_pos hk, if_neg hk', if_pos hv, if_neg hv'] at hlt ⊢
      omega
    · have hv' : val.length ≥ zipmapBiglen := not_lt.mp hv
      simp only [if_pos hk, if_neg hk', if_neg hv, if_pos hv'] at hlt ⊢
      omega
  · have hk' : key.length ≥ zipmapBiglen := not_lt.mp hk
    by_cases hv : val.length < zipmapBiglen
    · have hv' : ¬val.length ≥ zipmapBiglen := not_le.mpr hv
      simp only [if_neg hk, if_pos hk', if_pos hv, if_neg hv'] at hlt ⊢
      omega
    · have hv' : val.length ≥ zipmapBiglen := not_lt.mp hv
      simp only [if_neg hk, if_pos hk', if_neg hv, if_pos hv'] at hlt ⊢
      omega

theorem store_bind_bind {m x y : Bytes} {p q : ℕ} {f : Bytes → Option Bytes}
    (hq : q = p + x.length) :
    ((store m p x).bind fun m => (store m q y).bind f) = (store m p (x ++ y)).bind f := by
  subst hq
  rw [← store_bind_store, Option.bind_assoc]

theorem zipmapWrite_eq (key val : Bytes) (vempty : ℕ) (a c : Bytes) {b : Bytes} (hfits : required key val ≤ b.length) :
    zipmapWrite (a ++ (b ++ c)) a.length key val vempty
      = some (a ++ (written key val vempty ++ (b.drop (required key val) ++ c))) := by
  have hshape : a ++ (b ++ c)
      = a ++ (b.take (required key val) ++ (b.drop (required key val) ++ c)) := by
    rw [← List.append_assoc (b.take _), List.take_append_drop]
  have hwrite : zipmapWrite (a ++ (b ++ c)) a.length key val vempty
      = store (a ++ (b ++ c)) a.length (written key val vempty) := by
    simp only [zipmapWrite, Option.bind_eq_bind]
    rw [store_bind_bind (by simp), store_bind_bind (by simp; omega),
      store_bind_bind (by simp; omega)]
    have hlast := store_bind_store (m := a ++ (b ++ c)) (p := a.length) (y := val)
      (x := zipmapEncodeLength key.length ++ key ++ zipmapEncodeLength val.length ++
        [UInt8.ofNat vempty])
    simpa [written, Nat.add_assoc] using hlast
  rw [hwrite, hshape]
  exact store_append rfl (by rw [length_written, List.length_take]; omega)

end

/-! ### Entries that change -/

/-- An entry with a new value: a few free bytes stay, more are given back. -/
def Entry.update (e : Entry) (val : Bytes) : Entry where
  key := e.key
  value := val
  free := if e.size - required e.key val < zipmapValueMaxFree then e.size - required e.key val
    else 0
  free_lt := by
    split
    next h => exact h
    next => decide

/-- A new entry. -/
def newEntry (key val : Bytes) : Entry where
  key
  value := val
  free := 0
  free_lt := by decide

/-- What `zipmapSet` does to the entries. -/
def setEntry (key val : Bytes) : List Entry → List Entry
  | [] => [newEntry key val]
  | e :: es => if e.key = key then e.update val :: es else e :: setEntry key val es

/-- What `zipmapDel` does to the entries. -/
def delEntry (key : Bytes) : List Entry → List Entry
  | [] => []
  | e :: es => if e.key = key then es else e :: delEntry key es

theorem exists_first (key : Bytes) (es : List Entry) :
    (∀ e ∈ es, key ≠ e.key) ∨ ∃ es₁ e es₂, es = es₁ ++ e :: es₂ ∧ key = e.key ∧
      ∀ e' ∈ es₁, key ≠ e'.key := by
  induction es with
  | nil => exact .inl fun e he => absurd he List.not_mem_nil
  | cons e es ih =>
    by_cases he : key = e.key
    · exact .inr ⟨[], e, es, rfl, he, fun e' he' => absurd he' List.not_mem_nil⟩
    · rcases ih with hno | ⟨es₁, e', es₂, rfl, hkey, hno⟩
      · exact .inl (List.forall_mem_cons.mpr ⟨he, hno⟩)
      · exact .inr ⟨e :: es₁, e', es₂, rfl, hkey, List.forall_mem_cons.mpr ⟨he, hno⟩⟩

theorem setEntry_of_not_found (hno : ∀ e ∈ es, key ≠ e.key) :
    setEntry key val es = es ++ [newEntry key val] := by
  induction es with
  | nil => rfl
  | cons e es ih =>
    obtain ⟨he, hes⟩ := List.forall_mem_cons.mp hno
    rw [setEntry, if_neg (Ne.symm he), ih hes, List.cons_append]

theorem setEntry_of_found {es₁ es₂ : List Entry} {e : Entry} (hkey : key = e.key)
    (hno : ∀ e' ∈ es₁, key ≠ e'.key) :
    setEntry key val (es₁ ++ e :: es₂) = es₁ ++ e.update val :: es₂ := by
  induction es₁ with
  | nil => rw [List.nil_append, setEntry, if_pos hkey.symm, List.nil_append]
  | cons e' es₁ ih =>
    obtain ⟨he', hes₁⟩ := List.forall_mem_cons.mp hno
    rw [List.cons_append, setEntry, if_neg (Ne.symm he'), ih hes₁, List.cons_append]

theorem delEntry_of_not_found (hno : ∀ e ∈ es, key ≠ e.key) : delEntry key es = es := by
  induction es with
  | nil => rfl
  | cons e es ih =>
    obtain ⟨he, hes⟩ := List.forall_mem_cons.mp hno
    rw [delEntry, if_neg (Ne.symm he), ih hes]

theorem delEntry_of_found {es₁ es₂ : List Entry} {e : Entry} (hkey : key = e.key)
    (hno : ∀ e' ∈ es₁, key ≠ e'.key) : delEntry key (es₁ ++ e :: es₂) = es₁ ++ es₂ := by
  induction es₁ with
  | nil => rw [List.nil_append, delEntry, if_pos hkey.symm, List.nil_append]
  | cons e' es₁ ih =>
    obtain ⟨he', hes₁⟩ := List.forall_mem_cons.mp hno
    rw [List.cons_append, delEntry, if_neg (Ne.symm he'), ih hes₁, List.cons_append]

theorem Entry.image_eq (e : Entry) (pad : Bytes) :
    e.image pad = written e.key e.value e.free ++ pad := by
  simp [Entry.image, written]

theorem Entry.size_eq (e : Entry) : e.size = required e.key e.value + e.free := by
  rw [Entry.size, required]
  omega

theorem Represents.split {es₁ es₂ : List Entry} {e : Entry} (h : Represents (es₁ ++ e :: es₂) zm) :
    ∃ count body₁ pad body₂, zm = (count :: body₁) ++ (e.image pad ++ (body₂ ++ [zipmapEnd])) ∧
      (count :: body₁).length = 1 + sizes es₁ ∧ Images es₁ body₁ ∧ pad.length = e.free ∧
        Images es₂ body₂ ∧ HeaderOk count (es₁ ++ e :: es₂).length := by
  obtain ⟨count, body, hzm, hbody, hcount⟩ := h.image
  obtain ⟨body₁, rest, rfl, hbody₁, pad, body₂, hpad, rfl, hbody₂⟩ := images_append.mp hbody
  refine ⟨count, body₁, pad, body₂, ?_, ?_, hbody₁, hpad, hbody₂, hcount⟩
  · simpa using hzm
  · rw [List.length_cons, hbody₁.length, Nat.add_comm]

theorem Represents.replace {es₁ es₂ : List Entry} {e : Entry} (e' : Entry) {count : UInt8}
    {body₁ pad body₂ : Bytes} (h : Represents (es₁ ++ e :: es₂) zm) (hbody₁ : Images es₁ body₁)
    (hbody₂ : Images es₂ body₂) (hcount : HeaderOk count (es₁ ++ e :: es₂).length)
    (hkey : e'.key = e.key) (hpad : pad.length = e'.free)
    (hsize : sizes (es₁ ++ e' :: es₂) + 2 < 2 ^ 32) :
    Represents (es₁ ++ e' :: es₂)
      ((count :: body₁) ++ (written e'.key e'.value e'.free ++ (pad ++ (body₂ ++ [zipmapEnd])))) := by
  refine ⟨⟨count, body₁ ++ (e'.image pad ++ body₂), ?_, ?_, ?_⟩, ?_, hsize⟩
  · rw [Entry.image_eq]
    simp
  · exact images_append.mpr ⟨body₁, e'.image pad ++ body₂, rfl, hbody₁, pad, body₂, hpad, rfl, hbody₂⟩
  · simpa using hcount
  · simpa [hkey] using h.nodup

section
variable (junk : ℕ → UInt8)

theorem zipmapSet_of_not_found (h : Represents es zm) (hno : ∀ e ∈ es, key ≠ e.key)
    (hsize : sizes (setEntry key val es) + 2 < 2 ^ 32) :
    ∃ zm', zipmapSet junk zm key val = some (zm', false) ∧
      Represents (setEntry key val es) zm' := by
  have hno' : ∀ e ∈ es, some key ≠ some e.key := fun e he heq =>
    hno e he (Option.some_inj.mp heq)
  rw [setEntry_of_not_found hno] at hsize ⊢
  rw [sizes_append, sizes, sizes, Entry.size_eq] at hsize
  dsimp only [newEntry] at hsize
  have hlen := h.length
  have hlookup := h.lookupTotlen_of_not_found hno'
  obtain ⟨count, body, rfl, hbody, hcount⟩ := h.image
  have hbodylen := hbody.length
  have hreq : 0 < required key val := by
    rw [required]
    omega
  obtain ⟨x, hx, henlarge⟩ := zipmapEnlarge_eq junk count body hreq (by omega)
  set count' := if count.toNat < zipmapBiglen then count + 1 else count
  -- the new entry is written over the old end and the bytes that were added
  have hwrite := zipmapWrite_eq key val 0 (count' :: body) [zipmapEnd] hx.ge
  rw [List.drop_eq_nil_of_le hx.le, List.length_cons, List.cons_append] at hwrite
  rw [zipmapSet, hlookup, zipmapRequiredLength_eq (by omega), hlen, ← hbodylen]
  rw [Option.bind_eq_bind, Option.bind_some]
  dsimp only
  rw [henlarge, Option.bind_eq_bind, Option.bind_some,
    show body.length + 2 - 1 = body.length + 1 by omega, hwrite]
  refine ⟨_, Option.bind_some .., ⟨⟨count', body ++ written key val 0, ?_, ?_, ?_⟩, ?_, ?_⟩⟩
  · simp
  · refine images_append.mpr ⟨body, _, rfl, hbody, images_singleton.mpr ⟨[], rfl, ?_⟩⟩
    rw [Entry.image_eq, List.append_nil]
    rfl
  · rw [List.length_append, List.length_singleton]
    exact hcount.succ
  · rw [List.map_append, List.map_singleton]
    refine h.nodup.append (List.nodup_singleton _) ?_
    rw [List.disjoint_singleton]
    intro hmem
    obtain ⟨e, he, heq⟩ := List.mem_map.mp hmem
    exact hno e he heq.symm
  · rw [sizes_append, sizes, sizes, Entry.size_eq]
    dsimp only [newEntry]
    omega

theorem zipmapUpdate_eq {es₁ es₂ : List Entry} {e : Entry}
    (h : Represents (es₁ ++ e :: es₂) zm)
    (hsize : sizes (es₁ ++ e.update val :: es₂) + 2 < 2 ^ 32) :
    ∃ zm', zipmapUpdate junk zm e.key val (1 + sizes es₁) zm.length (required e.key val) = some zm' ∧
      Represents (es₁ ++ e.update val :: es₂) zm' := by
  have hlen := h.length
  have hlt := h.size_lt
  have hreads := (h.loop_found true).1
  obtain ⟨count, body₁, pad, body₂, hzm, hp, hbody₁, hpad, hbody₂, hcount⟩ := h.split
  have himage := e.length_image hpad
  have hbody₂len := hbody₂.length
  rw [sizes_append, sizes] at hlen hlt
  have hsize' := hsize
  rw [sizes_append, sizes, Entry.size_eq] at hsize'
  have hreq : required (e.update val).key (e.update val).value = required e.key val := rfl
  rw [hreq] at hsize'
  rw [zipmapUpdate, hreads.rawEntryLength, Option.bind_eq_bind, Option.bind_some, ← himage, ← hp]
  by_cases hgrow : e.size < required e.key val
  · -- the entry takes what it needs, and nothing is left
    have hfree : (e.update val).free = 0 := by
      dsimp only [Entry.update]
      rw [Nat.sub_eq_zero_of_le hgrow.le]
      rfl
    obtain ⟨x, hx, hroom⟩ := zipmapGrow_eq junk (count :: body₁) (e.image pad) body₂
      (himage.trans_lt hgrow) (by omega)
    rw [← hzm] at hroom
    have hwrite := zipmapWrite_eq e.key val 0 (count :: body₁) (body₂ ++ [zipmapEnd]) hx.ge
    rw [List.drop_eq_nil_of_le hx.le] at hwrite
    rw [if_pos (by omega), hroom, Option.bind_eq_bind, Option.bind_some, hwrite]
    refine ⟨_, rfl, ?_⟩
    have hpad' : ([] : Bytes).length = (e.update val).free := hfree.symm
    have hrep := h.replace (e.update val) hbody₁ hbody₂ hcount rfl hpad' hsize
    rw [hfree] at hrep
    exact hrep
  · have hempty : usub (e.image pad).length (required e.key val) = e.size - required e.key val := by
      rw [usub_of_le (by omega) (by omega), himage]
    rw [if_neg (by omega), hempty]
    dsimp only
    by_cases hmany : e.size - required e.key val ≥ zipmapValueMaxFree
    · -- the free bytes are given back
      have hfree : (e.update val).free = 0 := if_neg (not_lt.mpr hmany)
      have hroom := zipmapShrink_eq junk (count :: body₁) (e.image pad) body₂
        (himage.ge.trans' (not_lt.mp hgrow)) (by omega)
      rw [← hzm] at hroom
      have htake : ((e.image pad).take (required e.key val)).length = required e.key val := by
        rw [List.length_take]
        omega
      have hwrite := zipmapWrite_eq e.key val 0 (count :: body₁) (body₂ ++ [zipmapEnd]) htake.ge
      rw [List.drop_eq_nil_of_le htake.le] at hwrite
      rw [if_pos hmany, hroom, Option.bind_eq_bind, Option.bind_some, hwrite]
      refine ⟨_, rfl, ?_⟩
      have hpad' : ([] : Bytes).length = (e.update val).free := hfree.symm
      have hrep := h.replace (e.update val) hbody₁ hbody₂ hcount rfl hpad' hsize
      rw [hfree] at hrep
      exact hrep
    · -- the entry keeps its size: what is left of it are free bytes
      have hfree : (e.update val).free = e.size - required e.key val :=
        if_pos (not_le.mp hmany)
      have hwrite := zipmapWrite_eq e.key val (e.size - required e.key val) (count :: body₁)
        (body₂ ++ [zipmapEnd]) (himage.ge.trans' (not_lt.mp hgrow))
      rw [← hzm] at hwrite
      rw [if_neg hmany, hwrite]
      refine ⟨_, rfl, ?_⟩
      have hrest : ((e.image pad).drop (required e.key val)).length = (e.update val).free := by
        rw [List.length_drop, hfree, himage]
      have hrep := h.replace (e.update val) hbody₁ hbody₂ hcount rfl hrest hsize
      rw [hfree] at hrep
      exact hrep

theorem zipmapSet_of_found {es₁ es₂ : List Entry} {e : Entry}
    (h : Represents (es₁ ++ e :: es₂) zm)
    (hsize : sizes (es₁ ++ e.update val :: es₂) + 2 < 2 ^ 32) :
    ∃ zm', zipmapSet junk zm e.key val = some (zm', true) ∧
      Represents (es₁ ++ e.update val :: es₂) zm' := by
  obtain ⟨zm', hupdate, hrep⟩ := zipmapUpdate_eq junk h hsize
  have hreq : required e.key val < 2 ^ 32 := by
    rw [sizes_append, sizes, Entry.size_eq] at hsize
    have hsame : required (e.update val).key (e.update val).value = required e.key val := rfl
    omega
  refine ⟨zm', ?_, hrep⟩
  rw [zipmapSet, h.lookupTotlen_of_found, zipmapRequiredLength_eq hreq]
  simp only [Option.bind_eq_bind, Option.bind_some]
  rw [hupdate]
  rfl

theorem zipmapSet_spec (h : Represents es zm) (hsize : sizes (setEntry key val es) + 2 < 2 ^ 32) :
    ∃ zm', zipmapSet junk zm key val = some (zm', decide (key ∈ es.map Entry.key)) ∧
      Represents (setEntry key val es) zm' := by
  rcases exists_first key es with hno | ⟨es₁, e, es₂, rfl, rfl, hno⟩
  · have hmem : key ∉ es.map Entry.key := fun hmem => by
      obtain ⟨e, he, heq⟩ := List.mem_map.mp hmem
      exact hno e he heq.symm
    rw [decide_eq_false hmem]
    exact zipmapSet_of_not_found junk h hno hsize
  · rw [setEntry_of_found rfl hno] at hsize ⊢
    rw [decide_eq_true (List.mem_map_of_mem (List.mem_append_right _ List.mem_cons_self))]
    exact zipmapSet_of_found junk h hsize

theorem zipmapDel_of_found {es₁ es₂ : List Entry} {e : Entry}
    (h : Represents (es₁ ++ e :: es₂) zm) :
    ∃ zm', zipmapDel junk zm e.key = some (zm', true) ∧ Represents (es₁ ++ es₂) zm' := by
  have hlen := h.length
  have hlt := h.size_lt
  have hreads := (h.loop_found true).1
  have hlookup := h.lookupTotlen_of_found
  have hnodup := h.nodup
  obtain ⟨count, body₁, pad, body₂, hzm, hp, hbody₁, hpad, hbody₂, hcount⟩ := h.split
  have himage := e.length_image hpad
  have hbody₂len := hbody₂.length
  rw [sizes_append, sizes] at hlen hlt
  have hroom := zipmapShrink_eq junk (count :: body₁) (e.image pad) body₂ (Nat.zero_le _)
    (by omega)
  rw [← hzm, himage, List.take_zero, List.nil_append] at hroom
  rw [zipmapDel, hlookup, Option.bind_eq_bind, Option.bind_some]
  dsimp only
  rw [hreads.rawEntryLength, Option.bind_eq_bind, Option.bind_some, ← hp, hroom,
    Option.bind_eq_bind, Option.bind_some, List.cons_append, List.getElem?_cons_zero,
    Option.bind_eq_bind, Option.bind_some]
  rw [List.length_append, List.length_cons, ← Nat.add_assoc] at hcount
  have hpred := hcount.pred
  set count' := if count.toNat < zipmapBiglen then count - 1 else count with hcount'
  have hstore : (if count.toNat < zipmapBiglen
        then store (count :: (body₁ ++ (body₂ ++ [zipmapEnd]))) 0 [count - 1]
        else some (count :: (body₁ ++ (body₂ ++ [zipmapEnd]))))
      = some (count' :: (body₁ ++ (body₂ ++ [zipmapEnd]))) := by
    rw [hcount']
    split
    · exact store_append (a := []) (b := [count]) (d := [count - 1]) rfl rfl
    · rfl
  rw [hstore]
  refine ⟨_, Option.bind_some .., ⟨⟨count', body₁ ++ body₂, ?_, ?_, ?_⟩, ?_, ?_⟩⟩
  · simp
  · exact images_append.mpr ⟨body₁, body₂, rfl, hbody₁, hbody₂⟩
  · rw [List.length_append]
    exact hpred
  · rw [List.map_append, List.map_cons] at hnodup
    rw [List.map_append]
    exact hnodup.sublist ((List.Sublist.refl _).append (List.sublist_cons_self ..))
  · rw [sizes_append]
    omega

theorem zipmapDel_spec (h : Represents es zm) (key : Bytes) :
    ∃ zm', zipmapDel junk zm key = some (zm', decide (key ∈ es.map Entry.key)) ∧
      Represents (delEntry key es) zm' := by
  rcases exists_first key es with hno | ⟨es₁, e, es₂, rfl, rfl, hno⟩
  · have hmem : key ∉ es.map Entry.key := fun hmem => by
      obtain ⟨e, he, heq⟩ := List.mem_map.mp hmem
      exact hno e he heq.symm
    have hno' : ∀ e ∈ es, some key ≠ some e.key := fun e he heq =>
      hno e he (Option.some_inj.mp heq)
    rw [decide_eq_false hmem, delEntry_of_not_found hno, zipmapDel,
      h.lookupTotlen_of_not_found hno']
    exact ⟨zm, rfl, h⟩
  · rw [delEntry_of_found rfl hno,
      decide_eq_true (List.mem_map_of_mem (List.mem_append_right _ List.mem_cons_self))]
    exact zipmapDel_of_found junk h

end

end

end Zipmap

/-
What a zipmap stores.

* `Entry`, `Entry.image` — a key, a value and the free bytes behind it, and how they lie in memory;
* `ReadsAs` — what the code reads at an entry;
* `lookupLoop_eq` — the walk over all entries finds the first entry of a key, and the end.
-/
import RedisModel.Zipmap

open ByteBuffer

namespace Zipmap

/-- A key with its value, and the number of free bytes after the value. -/
structure Entry where
  key : Bytes
  value : Bytes
  free : ℕ
  free_lt : free < zipmapValueMaxFree

/-- The bytes of an entry; `pad` are the free ones. -/
def Entry.image (e : Entry) (pad : Bytes) : Bytes :=
  zipmapEncodeLength e.key.length ++ (e.key ++ (zipmapEncodeLength e.value.length ++
    (UInt8.ofNat e.free :: (e.value ++ pad))))

/-- The size of an entry. -/
def Entry.size (e : Entry) : ℕ :=
  zipmapLenBytes e.key.length + e.key.length +
    (zipmapLenBytes e.value.length + (e.value.length + 1 + e.free))

/-- The size of many entries. -/
def sizes : List Entry → ℕ
  | [] => 0
  | e :: es => e.size + sizes es

/-- The bytes of entries one after the other. -/
def Images : List Entry → Bytes → Prop
  | [], m => m = []
  | e :: es, m => ∃ pad rest, pad.length = e.free ∧ m = e.image pad ++ rest ∧ Images es rest

/-! ### Lengths -/

@[simp] theorem length_zipmapEncodeLength (l : ℕ) :
    (zipmapEncodeLength l).length = zipmapLenBytes l := by
  rw [zipmapEncodeLength, zipmapLenBytes]
  split
  · rfl
  · simp

theorem Entry.size_pos (e : Entry) : 0 < e.size := by
  rw [Entry.size]
  omega

theorem Entry.length_image (e : Entry) {pad : Bytes} (hpad : pad.length = e.free) :
    (e.image pad).length = e.size := by
  simp [Entry.image, Entry.size, hpad]
  omega

theorem Images.length {es : List Entry} {m : Bytes} (h : Images es m) : m.length = sizes es := by
  induction es generalizing m with
  | nil => rw [h]; rfl
  | cons e es ih =>
    obtain ⟨pad, rest, hpad, rfl, hrest⟩ := h
    rw [List.length_append, e.length_image hpad, ih hrest, sizes]

theorem sizes_append (es fs : List Entry) : sizes (es ++ fs) = sizes es + sizes fs := by
  induction es with
  | nil => exact (Nat.zero_add _).symm
  | cons e es ih =>
    rw [List.cons_append, sizes, ih, sizes]
    omega

theorem length_le_sizes (es : List Entry) : es.length ≤ sizes es := by
  induction es with
  | nil => exact le_rfl
  | cons e es ih =>
    have hpos := e.size_pos
    rw [List.length_cons, sizes]
    omega

theorem images_append {es fs : List Entry} {m : Bytes} :
    Images (es ++ fs) m ↔ ∃ a b, m = a ++ b ∧ Images es a ∧ Images fs b := by
  induction es generalizing m with
  | nil =>
    constructor
    · intro h
      exact ⟨[], m, rfl, rfl, h⟩
    · rintro ⟨a, b, rfl, ha, hb⟩
      obtain rfl : a = [] := ha
      exact hb
  | cons e es ih =>
    constructor
    · rintro ⟨pad, rest, hpad, rfl, hrest⟩
      obtain ⟨a, b, rfl, ha, hb⟩ := ih.mp hrest
      exact ⟨e.image pad ++ a, b, (List.append_assoc ..).symm, ⟨pad, a, hpad, rfl, ha⟩, hb⟩
    · rintro ⟨a, b, rfl, ⟨pad, rest, hpad, rfl, hrest⟩, hb⟩
      exact ⟨pad, rest ++ b, hpad, List.append_assoc .., ih.mpr ⟨rest, b, rfl, hrest, hb⟩⟩

theorem images_singleton {e : Entry} {m : Bytes} :
    Images [e] m ↔ ∃ pad, pad.length = e.free ∧ m = e.image pad := by
  constructor
  · rintro ⟨pad, rest, hpad, rfl, hrest⟩
    obtain rfl : rest = [] := hrest
    exact ⟨pad, hpad, List.append_nil _⟩
  · rintro ⟨pad, hpad, rfl⟩
    exact ⟨pad, [], hpad, (List.append_nil _).symm, rfl⟩

/-! ### Reading -/

theorem uint_of_lt {n : ℕ} (h : n < 2 ^ 32) : uint n = n :=
  Nat.mod_eq_of_lt h

theorem usub_of_le {a b : ℕ} (ha : a < 2 ^ 32) (hb : b ≤ a) : usub a b = a - b := by
  have hb' : b % 2 ^ 32 = b := Nat.mod_eq_of_lt (by omega)
  simp only [usub, uint, hb']
  omega

theorem encodeLength_first (l : ℕ) (rest : Bytes) :
    ∃ b, (zipmapEncodeLength l ++ rest)[0]? = some b ∧ b ≠ zipmapEnd := by
  rw [zipmapEncodeLength]
  split
  next h =>
    refine ⟨UInt8.ofNat l, rfl, fun heq => ?_⟩
    have hval := congrArg UInt8.toNat heq
    rw [UInt8.toNat_ofNat', zipmapEnd] at hval
    change l % 256 = 255 at hval
    rw [zipmapBiglen] at h
    omega
  next => exact ⟨254, rfl, by decide⟩

theorem zipmapDecodeLength_append {pre rest : Bytes} {l p : ℕ} (hp : p = pre.length)
    (hl : l < 2 ^ 32) :
    zipmapDecodeLength (pre ++ (zipmapEncodeLength l ++ rest)) p = some l := by
  subst hp
  rw [zipmapDecodeLength, zipmapEncodeLength]
  split
  next h =>
    have hval : (UInt8.ofNat l).toNat = l := by
      rw [UInt8.toNat_ofNat']
      rw [zipmapBiglen] at h
      omega
    simp [hval, h]
  next h =>
    have hslice : slice (pre ++ (UInt8.ofNat zipmapBiglen :: leBytes 4 l ++ rest)) (pre.length + 1) 4
        = some (leBytes 4 l) := by
      rw [List.cons_append, List.append_cons]
      exact slice_append (by simp) (by simp)
    have hbyte : (pre ++ (UInt8.ofNat zipmapBiglen :: leBytes 4 l ++ rest))[pre.length]?
        = some (UInt8.ofNat zipmapBiglen) := by simp
    rw [hbyte, hslice]
    have hval : leVal (leBytes 4 l) = l := leVal_leBytes_of_lt hl
    simp [hval, zipmapBiglen]

/-- What the code reads at the entry at `p`. -/
structure ReadsAs (zm : Bytes) (p : ℕ) (e : Entry) : Prop where
  first : ∃ b, zm[p]? = some b ∧ b ≠ zipmapEnd
  klen : zipmapDecodeLength zm p = some e.key.length
  key : slice zm (p + zipmapLenBytes e.key.length) e.key.length = some e.key
  vlen : zipmapDecodeLength zm (p + (zipmapLenBytes e.key.length + e.key.length))
    = some e.value.length
  free : zm[p + (zipmapLenBytes e.key.length + e.key.length) + zipmapLenBytes e.value.length]?
    = some (UInt8.ofNat e.free)
  value : slice zm (p + (zipmapLenBytes e.key.length + e.key.length) +
    zipmapLenBytes e.value.length + 1) e.value.length = some e.value
  size_lt : e.size < 2 ^ 32

theorem Entry.toNat_free (e : Entry) : (UInt8.ofNat e.free).toNat = e.free := by
  have hlt := e.free_lt
  rw [zipmapValueMaxFree] at hlt
  rw [UInt8.toNat_ofNat']
  omega

theorem getElem?_at {pre rest : Bytes} {b : UInt8} {p : ℕ} (hp : p = pre.length) :
    (pre ++ b :: rest)[p]? = some b := by
  subst hp
  simp

theorem readsAs_image {zm pre pad rest : Bytes} {p : ℕ} {e : Entry}
    (hzm : zm = pre ++ (e.image pad ++ rest)) (hp : p = pre.length) (hsize : e.size < 2 ^ 32) :
    ReadsAs zm p e := by
  subst hzm hp
  have hklen : e.key.length < 2 ^ 32 := by
    rw [Entry.size] at hsize
    omega
  have hvlen : e.value.length < 2 ^ 32 := by
    rw [Entry.size] at hsize
    omega
  simp only [Entry.image, List.append_assoc, List.cons_append]
  refine ⟨?_, zipmapDecodeLength_append rfl hklen, ?_, ?_, ?_, ?_, hsize⟩
  · obtain ⟨b, hb, hne⟩ := encodeLength_first e.key.length (e.key ++
      (zipmapEncodeLength e.value.length ++ (UInt8.ofNat e.free :: (e.value ++ (pad ++ rest)))))
    refine ⟨b, ?_, hne⟩
    rw [List.getElem?_append_right le_rfl, Nat.sub_self]
    exact hb
  · rw [← List.append_assoc]
    exact slice_append (by simp) rfl
  · rw [← List.append_assoc, ← List.append_assoc]
    exact zipmapDecodeLength_append (by simp) hvlen
  · rw [← List.append_assoc, ← List.append_assoc, ← List.append_assoc]
    exact getElem?_at (by simp; omega)
  · rw [← List.append_assoc, ← List.append_assoc, ← List.append_assoc, List.append_cons]
    exact slice_append (by simp; omega) rfl

/-! ### The walk over all entries -/

section
variable {zm : Bytes} {p fuel : ℕ} {e : Entry} {es : List Entry}

theorem ReadsAs.next (h : ReadsAs zm p e) :
    p + uint (zipmapLenBytes e.key.length + e.key.length) + zipmapLenBytes e.value.length +
      uint (e.value.length + 1 + (UInt8.ofNat e.free).toNat) = p + e.size := by
  have hsize := h.size_lt
  rw [Entry.size] at hsize
  rw [e.toNat_free, uint_of_lt (by omega), uint_of_lt (by omega), Entry.size]
  omega

theorem ReadsAs.match_eq (h : ReadsAs zm p e) (key : Option Bytes) (k : Option ℕ) :
    zipmapMatch zm key k p e.key.length = some (decide (key = some e.key ∧ k = none)) := by
  cases key with
  | none => simp [zipmapMatch]
  | some key =>
    cases k with
    | some k => simp [zipmapMatch]
    | none =>
      rw [zipmapMatch]
      split
      · rw [h.key]
        simp [eq_comm]
      · have hne : key ≠ e.key := by
          rintro rfl
          contradiction
        simp [hne]

theorem ReadsAs.loop (h : ReadsAs zm p e) (key : Option Bytes) (totlen : Bool) (k : Option ℕ) :
    zipmapLookupLoop zm key totlen (fuel + 1) p k
      = if (key = some e.key ∧ k = none) ∧ ¬totlen then some (some p, p)
        else zipmapLookupLoop zm key totlen fuel (p + e.size)
          (if key = some e.key ∧ k = none then some p else k) := by
  obtain ⟨b, hb, hne⟩ := h.first
  have hsize := h.size_lt
  rw [Entry.size] at hsize
  have hvlen := h.vlen
  have hfree := h.free
  have hnext := h.next
  have hkeyLength : uint (zipmapLenBytes e.key.length + e.key.length)
      = zipmapLenBytes e.key.length + e.key.length := uint_of_lt (by omega)
  rw [← hkeyLength] at hvlen hfree
  rw [zipmapLookupLoop, hb]
  simp only [Option.bind_eq_bind, Option.bind_some, if_neg hne, h.klen, h.match_eq,
    decide_eq_true_eq]
  split
  · rfl
  · rw [hvlen, Option.bind_some, hfree, Option.bind_some, hnext]

theorem loop_end (hend : zm[p]? = some zipmapEnd) (key : Option Bytes) (totlen : Bool)
    (k : Option ℕ) : zipmapLookupLoop zm key totlen (fuel + 1) p k = some (k, p) := by
  rw [zipmapLookupLoop, hend]
  simp

theorem loop_pass {pre body rest : Bytes} {key : Option Bytes} {k : Option ℕ}
    (hbody : Images es body) (hzm : zm = pre ++ (body ++ rest)) (hp : p = pre.length)
    (hlt : sizes es < 2 ^ 32) (hkey : k = none → ∀ e ∈ es, key ≠ some e.key) (fuel : ℕ)
    (totlen : Bool) :
    zipmapLookupLoop zm key totlen (fuel + es.length) p k
      = zipmapLookupLoop zm key totlen fuel (p + sizes es) k := by
  induction es generalizing pre body p with
  | nil => rfl
  | cons e es ih =>
    obtain ⟨pad, tail, hpad, rfl, htail⟩ := hbody
    rw [sizes] at hlt
    rw [List.append_assoc] at hzm
    have hreads : ReadsAs zm p e := readsAs_image hzm hp (by omega)
    have hno : ¬(key = some e.key ∧ k = none) :=
      fun h => hkey h.2 e List.mem_cons_self h.1
    have hnext : p + e.size = (pre ++ e.image pad).length := by
      rw [List.length_append, e.length_image hpad, hp]
    rw [List.length_cons, ← Nat.add_assoc, hreads.loop, if_neg fun h => hno h.1, if_neg hno, sizes,
      ← Nat.add_assoc]
    rw [← List.append_assoc] at hzm
    exact ih htail hzm hnext (by omega) fun hk e he => hkey hk e (List.mem_cons_of_mem _ he)

end

end Zipmap

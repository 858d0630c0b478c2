/-
Ziplists as lists of entries.

`Entry` is an entry without its position: the width of its prevlen field and
its body.  `image cnt es` is the block that holds the entries `es`, with `cnt`
in the `zllen` field.  The file shows what each primitive access does to a
block in this form:

* header reads and writes change one field of a `layout`;
* reads and writes past the header are reads and writes of the entry bytes;
* `ziplistResize` keeps the fields and cuts or extends the entry bytes.
-/
import RedisModel.Ziplist

open ByteBuffer StringNumber

namespace Ziplist

/-! ### Entries -/

/-- An entry: the width of its prevlen field and the bytes after the field,
which are well formed. -/
structure Entry where
  wide : Bool
  body : Bytes
  body_ok : BodyOk body

namespace Entry

/-- The number of bytes of an entry. -/
def raw (e : Entry) : ℕ := prevSize e.wide + e.body.length

/-- The same entry with a prevlen field of another width. -/
def withWidth (e : Entry) (wide : Bool) : Entry := { e with wide }

theorem raw_pos (e : Entry) : 0 < e.raw := by
  have := prevSize_pos e.wide
  unfold raw
  omega

@[simp] theorem withWidth_wide (e : Entry) (w : Bool) : (e.withWidth w).wide = w := rfl

@[simp] theorem withWidth_body (e : Entry) (w : Bool) : (e.withWidth w).body = e.body := rfl

theorem raw_withWidth (e : Entry) (w : Bool) :
    (e.withWidth w).raw = prevSize w + e.body.length := rfl

@[simp] theorem withWidth_self (e : Entry) : e.withWidth e.wide = e := rfl

end Entry

/-- Total size of a list of entries. -/
def size (es : List Entry) : ℕ := (es.map Entry.raw).sum

@[simp] theorem size_nil : size [] = 0 := rfl

@[simp] theorem size_cons (e : Entry) (es : List Entry) :
    size (e :: es) = e.raw + size es := by
  simp [size]

@[simp] theorem size_append (a b : List Entry) : size (a ++ b) = size a + size b := by
  simp [size]

/-- The bytes of the entries `es`, the first of which follows an entry of `prev`
bytes (0 if it is the head). -/
def encode : ℕ → List Entry → Bytes
  | _, [] => []
  | prev, e :: es => prevField e.wide prev ++ (e.body ++ encode e.raw es)

/-- Every prevlen field can hold the size of the entry before it. -/
def Fits : ℕ → List Entry → Prop
  | _, [] => True
  | prev, e :: es => PrevFits e.wide prev ∧ Fits e.raw es

/-- Size of the entry that a new entry after `es` follows. -/
def lastRaw : ℕ → List Entry → ℕ
  | prev, [] => prev
  | _, e :: es => lastRaw e.raw es

@[simp] theorem lastRaw_nil (prev : ℕ) : lastRaw prev [] = prev := rfl

@[simp] theorem lastRaw_cons (prev : ℕ) (e : Entry) (es : List Entry) :
    lastRaw prev (e :: es) = lastRaw e.raw es := rfl

@[simp] theorem lastRaw_append (prev : ℕ) (a b : List Entry) :
    lastRaw prev (a ++ b) = lastRaw (lastRaw prev a) b := by
  induction a generalizing prev with
  | nil => rfl
  | cons e a ih => exact ih e.raw

@[simp] theorem length_encode (prev : ℕ) (es : List Entry) :
    (encode prev es).length = size es := by
  induction es generalizing prev with
  | nil => rfl
  | cons e es ih =>
    simp only [encode, List.length_append, length_prevField, ih, size_cons, Entry.raw]
    omega

theorem encode_append (prev : ℕ) (a b : List Entry) :
    encode prev (a ++ b) = encode prev a ++ encode (lastRaw prev a) b := by
  induction a generalizing prev with
  | nil => rfl
  | cons e a ih =>
    rw [List.cons_append, encode, ih, lastRaw_cons, encode]
    simp

theorem fits_append {prev : ℕ} {a b : List Entry} :
    Fits prev (a ++ b) ↔ Fits prev a ∧ Fits (lastRaw prev a) b := by
  induction a generalizing prev with
  | nil => simp [Fits]
  | cons e a ih => simp [Fits, ih, lastRaw_cons, and_assoc]

theorem lastRaw_lt {prev n : ℕ} {es : List Entry} (hprev : prev < n)
    (hsize : size es < n) : lastRaw prev es < n := by
  induction es generalizing prev with
  | nil => exact hprev
  | cons e es ih =>
    rw [lastRaw_cons]
    rw [size_cons] at hsize
    exact ih (by omega) (by omega)

/-- Offset of the last entry from the first. -/
def tailSize (es : List Entry) : ℕ := size es.dropLast

@[simp] theorem tailSize_singleton (e : Entry) : tailSize [e] = 0 := rfl

theorem tailSize_cons_cons (e f : Entry) (es : List Entry) :
    tailSize (e :: f :: es) = e.raw + tailSize (f :: es) := by
  simp [tailSize]

theorem tailSize_append_cons (a : List Entry) (e : Entry) (es : List Entry) :
    tailSize (a ++ e :: es) = size a + tailSize (e :: es) := by
  simp [tailSize, List.dropLast_append_of_ne_nil]

theorem tailSize_le (es : List Entry) : tailSize es ≤ size es := by
  rcases es.eq_nil_or_concat with rfl | ⟨es, e, rfl⟩
  · rfl
  · simp [tailSize]

theorem tailSize_add_lastRaw {es : List Entry} (h : es ≠ []) (prev : ℕ) :
    tailSize es + lastRaw prev es = size es := by
  rcases es.eq_nil_or_concat with rfl | ⟨es, e, rfl⟩
  · exact absurd rfl h
  · simp [tailSize, lastRaw]

/-! ### Blocks -/

/-- A block with the given header fields around the entry bytes `body`. -/
def layout (T O C : ℕ) (body : Bytes) : Bytes :=
  leBytes 4 T ++ (leBytes 4 O ++ (leBytes 2 C ++ (body ++ [zipEnd])))

/-- The block that holds the entries `es`. -/
def image (C : ℕ) (es : List Entry) : Bytes :=
  layout (size es + 11) (tailSize es + 10) C (encode 0 es)

@[simp] theorem length_layout (T O C : ℕ) (body : Bytes) :
    (layout T O C body).length = body.length + 11 := by
  simp [layout]
  omega

theorem layout_eq (T O C : ℕ) (body : Bytes) :
    ∃ hdr : Bytes, hdr.length = 10 ∧
      layout T O C body = hdr ++ (body ++ [zipEnd]) ∧
      ∀ body', layout T O C body' = hdr ++ (body' ++ [zipEnd]) :=
  ⟨leBytes 4 T ++ (leBytes 4 O ++ leBytes 2 C), by simp, by simp [layout],
    fun _ => by simp [layout]⟩

theorem intBytes_natCast (k n : ℕ) : intBytes k (n : ℤ) = leBytes k n := by
  rw [intBytes, ← leBytes_mod k n]
  congr 1

section header
variable {T O C : ℕ} {s : Bytes}

theorem ziplistBytes_layout (h : T < 2 ^ 32) :
    ziplistBytes (layout T O C s) = some T := by
  have hs : slice (layout T O C s) 0 4 = some (leBytes 4 T) :=
    slice_append (a := []) (b := leBytes 4 T) rfl (by simp)
  rw [ziplistBytes, hs, Option.map_some, leVal_leBytes_of_lt (by omega)]

theorem ziplistTailOffset_layout_mod :
    ziplistTailOffset (layout T O C s) = some (O % 2 ^ 32) := by
  have hs : slice (layout T O C s) 4 4 = some (leBytes 4 O) :=
    slice_append (a := leBytes 4 T) (b := leBytes 4 O) (by simp) (by simp)
  rw [ziplistTailOffset, hs, Option.map_some, leVal_leBytes]
  rfl

theorem ziplistTailOffset_layout (h : O < 2 ^ 32) :
    ziplistTailOffset (layout T O C s) = some O := by
  rw [ziplistTailOffset_layout_mod, Nat.mod_eq_of_lt h]

theorem ziplistLength_layout (h : C < 2 ^ 16) :
    ziplistLength (layout T O C s) = some C := by
  have hs : slice (layout T O C s) 8 2 = some (leBytes 2 C) := by
    have := slice_append (a := leBytes 4 T ++ leBytes 4 O) (b := leBytes 2 C)
      (c := s ++ [zipEnd]) (p := 8) (n := 2) (by simp) (by simp)
    rwa [List.append_assoc] at this
  rw [ziplistLength, hs, Option.map_some, leVal_leBytes_of_lt (by omega)]

theorem setZiplistTailOffset_layout_mod {v : ℤ} {n : ℕ} (h : v % 2 ^ 32 = n % 2 ^ 32) :
    setZiplistTailOffset (layout T O C s) v
      = some (layout T n C s) := by
  have hv : intBytes 4 v = leBytes 4 n := by
    rw [← intBytes_natCast, intBytes, intBytes]
    congr 2
  rw [setZiplistTailOffset, hv]
  exact store_append (a := leBytes 4 T) (b := leBytes 4 O) (by simp) (by simp)

theorem setZiplistTailOffset_layout {v : ℤ} {n : ℕ} (h : v = n) :
    setZiplistTailOffset (layout T O C s) v
      = some (layout T n C s) :=
  setZiplistTailOffset_layout_mod (by rw [h])

theorem setZiplistLength_layout {v : ℤ} {n : ℕ} (h : v = n) :
    setZiplistLength (layout T O C s) v
      = some (layout T O n s) := by
  rw [setZiplistLength, h, intBytes_natCast]
  have := store_append (a := leBytes 4 T ++ leBytes 4 O) (b := leBytes 2 C)
    (d := leBytes 2 n) (c := s ++ [zipEnd]) (p := 8) (by simp) (by simp)
  rwa [List.append_assoc, List.append_assoc] at this

end header

section body
variable {T O C : ℕ}

theorem layout_getElem? (body : Bytes) (i : ℕ) :
    (layout T O C body)[i + 10]? = (body ++ [zipEnd])[i]? := by
  obtain ⟨hdr, hlen, heq, -⟩ := layout_eq T O C body
  rw [heq, List.getElem?_append_right (by omega), hlen, Nat.add_sub_cancel]

theorem layout_drop (body : Bytes) (i : ℕ) :
    (layout T O C body).drop (i + 10) = (body ++ [zipEnd]).drop i := by
  obtain ⟨hdr, hlen, heq, -⟩ := layout_eq T O C body
  rw [heq, List.drop_append, List.drop_of_length_le (by omega), hlen,
    Nat.add_sub_cancel, List.nil_append]

theorem layout_drop_append {a b : Bytes} {p : ℕ} (hp : p = a.length + 10) :
    (layout T O C (a ++ b)).drop p = b ++ [zipEnd] := by
  rw [hp, layout_drop, List.append_assoc, List.drop_left]

theorem layout_getElem?_append {a b : Bytes} {p : ℕ} (hp : p = a.length + 10) :
    (layout T O C (a ++ b))[p]? = (b ++ [zipEnd])[0]? := by
  rw [hp, layout_getElem?, List.append_assoc, List.getElem?_append_right le_rfl,
    Nat.sub_self]

theorem store_layout {a b b' c : Bytes} {p : ℕ} (hp : p = a.length + 10)
    (hb : b'.length = b.length) :
    store (layout T O C (a ++ (b ++ c))) p b'
      = some (layout T O C (a ++ (b' ++ c))) := by
  obtain ⟨hdr, hlen, heq, hall⟩ := layout_eq T O C (a ++ (b ++ c))
  have h := store_append (a := hdr ++ a) (b := b) (d := b') (c := c ++ [zipEnd]) (p := p)
    (by simp [hlen]; omega) hb
  rw [heq, hall]
  simpa using h

theorem memmove_layout {a b c s d : Bytes} {src dst n : ℕ} (hdst : dst = a.length + 10)
    (hsrc : src = dst + b.length) (hn : n = s.length)
    (hc : b ++ s = c ++ d) (hcs : c.length = s.length) :
    memmove (layout T O C (a ++ (b ++ s))) dst src n
      = some (layout T O C (a ++ (s ++ d))) := by
  obtain ⟨hdr, hlen, heq, hall⟩ := layout_eq T O C (a ++ (b ++ s))
  have hslice : slice (layout T O C (a ++ (b ++ s))) src n = some s := by
    have := slice_append (a := hdr ++ (a ++ b)) (b := s) (c := [zipEnd]) (p := src) (n := n)
      (by simp [hlen]; omega) hn
    rw [heq]
    simpa using this
  rw [memmove, hslice, Option.bind_some, hc]
  exact store_layout hdst hcs.symm

end body

/-! ### Resizing -/

theorem ziplistResize_eq (junk : ℕ → UInt8) {T O C : ℕ} {body : Bytes}
    {len : ℕ} (hlen : len < 2 ^ 32) (h11 : 11 ≤ len) {bytes : Bytes}
    (h : realloc junk (layout T O C body) len
      = layout T O C (bytes) ∨
      ∃ b, realloc junk (layout T O C body) len
        = leBytes 4 T ++ (leBytes 4 O ++ (leBytes 2 C ++ (bytes ++ [b])))) :
    ziplistResize junk (layout T O C body) len = some (layout len O C bytes) := by
  obtain ⟨b, hb⟩ : ∃ b, realloc junk (layout T O C body) len
      = leBytes 4 T ++ (leBytes 4 O ++ (leBytes 2 C ++ (bytes ++ [b]))) := by
    rcases h with h | h
    · exact ⟨zipEnd, h⟩
    · exact h
  have hbytes : bytes.length + 11 = len := by
    have := congrArg List.length hb
    simp at this
    omega
  have hset : setZiplistBytes (realloc junk (layout T O C body) len) len
      = some (leBytes 4 len ++ (leBytes 4 O ++ (leBytes 2 C ++ (bytes ++ [b])))) := by
    rw [setZiplistBytes, hb, intBytes_natCast]
    exact store_append (a := []) (b := leBytes 4 T) rfl (by simp)
  have hidx : (len + 2 ^ 32 - 1) % 2 ^ 32 = len - 1 := by omega
  simp only [ziplistResize, Nat.mod_eq_of_lt hlen, hset, Option.bind_eq_bind,
    Option.bind_some, hidx]
  have := store_append
    (a := leBytes 4 len ++ (leBytes 4 O ++ (leBytes 2 C ++ bytes))) (b := [b])
    (d := [zipEnd]) (c := []) (p := len - 1) (by simp; omega) rfl
  simpa [layout] using this

/-- Growing a list appends bytes of no particular content to its entries; only
the end marker stays where it was. -/
theorem ziplistResize_grow (junk : ℕ → UInt8) {T O C : ℕ} {s : Bytes}
    {l : ℕ} (k : ℕ) (hlen : l < 2 ^ 32) (h : l = s.length + 11 + k) :
    ∃ g : Bytes, g.length = k ∧ (g ++ [zipEnd])[0]? = some zipEnd ∧
      ziplistResize junk (layout T O C s) l
        = some (layout l O C (s ++ g)) := by
  rcases Nat.eq_zero_or_pos k with rfl | hk
  · refine ⟨[], rfl, rfl, ziplistResize_eq junk hlen (by omega) (Or.inl ?_)⟩
    rw [h, realloc, List.take_of_length_le (by simp)]
    simp
  · obtain ⟨g, hg, heq⟩ := realloc_grow junk (layout T O C s) k
    rcases g.eq_nil_or_concat with rfl | ⟨g, b, rfl⟩
    · simp at hg
      omega
    refine ⟨zipEnd :: g, by simpa using hg, rfl,
      ziplistResize_eq junk hlen (by omega) (Or.inr ⟨b, ?_⟩)⟩
    rw [length_layout, ← h] at heq
    rw [heq]
    simp [layout]

theorem ziplistResize_shrink (junk : ℕ → UInt8) {T O C : ℕ} {a b : Bytes}
    {len : ℕ} (hlen : len < 2 ^ 32) (h : len = a.length + 11) :
    ziplistResize junk (layout T O C (a ++ b)) len
      = some (layout len O C a) := by
  refine ziplistResize_eq junk hlen (by omega) (Or.inr ?_)
  obtain ⟨c, t, hct⟩ : ∃ c t, b ++ [zipEnd] = c :: t := by
    rcases b with _ | ⟨c, t⟩
    · exact ⟨_, _, rfl⟩
    · exact ⟨c, t ++ [zipEnd], rfl⟩
  refine ⟨c, ?_⟩
  have hsplit : layout T O C (a ++ b)
      = (leBytes 4 T ++ (leBytes 4 O ++ (leBytes 2 C ++ (a ++ [c])))) ++ t := by
    simp [layout, hct]
  rw [hsplit, realloc_shrink junk (by simp; omega)]

/-- A size that wraps around to almost nothing leaves no room for the header. -/
theorem ziplistResize_eq_none (junk : ℕ → UInt8) (zl : Bytes) {len : ℕ}
    (h : len % 2 ^ 32 < 4) : ziplistResize junk zl len = none := by
  have : setZiplistBytes (realloc junk zl (len % 2 ^ 32)) ((len % 2 ^ 32 : ℕ) : ℤ) = none :=
    store_eq_none (by simpa using h)
  simp only [ziplistResize, Option.bind_eq_bind, this, Option.bind_none]

end Ziplist

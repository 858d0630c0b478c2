/-
Ziplist entries (`ziplist.c`): the bytes of one entry.

An entry is `<prevlen><encoding/len><content>`.  The functions below read an
entry through a pointer, modelled as the bytes from that pointer to the end of
the block, or compute the bytes that are written.  A C helper that is called
with a `NULL` destination just to learn a size is its list of bytes, measured.

* `zipDecodePrevlen_field` — the prevlen field decodes, in either width;
* `zipDecodeLength_append` — decoding an entry does not look past the entry;
* `encodeBody_spec`, `text_entryValue` — what an insert writes for a
  string is well formed and reads back as that string.
-/
import RedisModel.StringNumber
import Mathlib.Data.Nat.Bitwise
import Mathlib.Tactic.IntervalCases

open ByteBuffer StringNumber

namespace Ziplist

def zipEnd : UInt8 := 255
def zipBiglen : ℕ := 254

def zipStrMask : UInt8 := 0xc0

def zipStr06B : UInt8 := (0 : UInt8) <<< 6
def zipStr14B : UInt8 := (1 : UInt8) <<< 6
def zipStr32B : UInt8 := (2 : UInt8) <<< 6

def zipInt16B : UInt8 := (0xc0 : UInt8) ||| ((0 : UInt8) <<< 4)
def zipInt32B : UInt8 := (0xc0 : UInt8) ||| ((1 : UInt8) <<< 4)
def zipInt64B : UInt8 := (0xc0 : UInt8) ||| ((2 : UInt8) <<< 4)
def zipInt24B : UInt8 := (0xc0 : UInt8) ||| ((3 : UInt8) <<< 4)
def zipInt8B : UInt8 := 0xfe

def zipIntImmMask : UInt8 := 0x0f
def zipIntImmMin : UInt8 := 0xf1
def zipIntImmMax : UInt8 := 0xfd

def zipIsStr (enc : UInt8) : Bool := enc &&& zipStrMask < zipStrMask

def zipEntryEncoding (b : UInt8) : UInt8 :=
  if b < zipStrMask then b &&& zipStrMask else b

/-- Bytes needed to store an integer encoded by `encoding`. -/
def zipIntSize (encoding : UInt8) : ℕ :=
  if encoding = zipInt8B then 1
  else if encoding = zipInt16B then 2
  else if encoding = zipInt24B then 3
  else if encoding = zipInt32B then 4
  else if encoding = zipInt64B then 8
  else 0

/-- The encoding/length header of an entry. -/
def zipEncodeLength (encoding : UInt8) (rawlen : ℕ) : Bytes :=
  if zipIsStr encoding then
    if rawlen ≤ 0x3f then [zipStr06B ||| UInt8.ofNat rawlen]
    else if rawlen ≤ 0x3fff then
      [zipStr14B ||| (UInt8.ofNat (rawlen >>> 8) &&& 0x3f), UInt8.ofNat rawlen &&& 0xff]
    else
      [zipStr32B, UInt8.ofNat (rawlen >>> 24) &&& 0xff, UInt8.ofNat (rawlen >>> 16) &&& 0xff,
        UInt8.ofNat (rawlen >>> 8) &&& 0xff, UInt8.ofNat rawlen &&& 0xff]
  else [encoding]

/-- `ZIP_DECODE_LENGTH`: the encoding, the size of the length header and the
length of the content. -/
def zipDecodeLength (ptr : Bytes) : Option (UInt8 × ℕ × ℕ) := do
  let b0 ← ptr[0]?
  let encoding := zipEntryEncoding b0
  if encoding < zipStrMask then
    if encoding = zipStr06B then
      some (encoding, 1, (b0 &&& 0x3f).toNat)
    else if encoding = zipStr14B then do
      let b1 ← ptr[1]?
      some (encoding, 2, ((b0 &&& 0x3f).toNat <<< 8) ||| b1.toNat)
    else if encoding = zipStr32B then do
      let b1 ← ptr[1]?
      let b2 ← ptr[2]?
      let b3 ← ptr[3]?
      let b4 ← ptr[4]?
      some (encoding, 5,
        (b1.toNat <<< 24) ||| (b2.toNat <<< 16) ||| (b3.toNat <<< 8) ||| b4.toNat)
    else none
  else some (encoding, 1, zipIntSize encoding)

/-- The length of the previous entry, in 1 byte or in 5. -/
def zipPrevEncodeLength (len : ℕ) : Bytes :=
  if len < zipBiglen then [UInt8.ofNat len]
  else UInt8.ofNat zipBiglen :: leBytes 4 len

/-- The 5-byte form, whatever the length. -/
def zipPrevEncodeLengthForceLarge (len : ℕ) : Bytes :=
  UInt8.ofNat zipBiglen :: leBytes 4 len

def zipDecodePrevlensize (ptr : Bytes) : Option ℕ := do
  let b0 ← ptr[0]?
  some (if b0.toNat < zipBiglen then 1 else 5)

/-- `ZIP_DECODE_PREVLEN`: the width of the field and its value. -/
def zipDecodePrevlen (ptr : Bytes) : Option (ℕ × ℕ) := do
  let prevlensize ← zipDecodePrevlensize ptr
  if prevlensize = 1 then do
    let b0 ← ptr[0]?
    some (prevlensize, b0.toNat)
  else do
    let bs ← slice ptr 1 4
    some (prevlensize, leVal bs)

/-- Bytes by which the prevlen field of the entry at `p` must change to hold
`len`. -/
def zipPrevLenByteDiff (p : Bytes) (len : ℕ) : Option ℤ := do
  let prevlensize ← zipDecodePrevlensize p
  some ((zipPrevEncodeLength len).length - prevlensize)

/-- `zlentry`; the pointer it holds is the one it was read through. -/
structure Zlentry where
  prevrawlensize : ℕ
  prevrawlen : ℕ
  lensize : ℕ
  len : ℕ
  headersize : ℕ
  encoding : UInt8
  deriving DecidableEq, Repr

def zipEntry (p : Bytes) : Option Zlentry := do
  let (prevrawlensize, prevrawlen) ← zipDecodePrevlen p
  let (encoding, lensize, len) ← zipDecodeLength (p.drop prevrawlensize)
  some { prevrawlensize, prevrawlen, lensize, len,
         headersize := prevrawlensize + lensize, encoding }

/-- The total number of bytes used by the entry at `p`, an `unsigned int`. -/
def zipRawEntryLength (p : Bytes) : Option ℕ := do
  let prevlensize ← zipDecodePrevlensize p
  let (_, lensize, len) ← zipDecodeLength (p.drop prevlensize)
  some ((prevlensize + lensize + len) % 2 ^ 32)

/-- Whether a string can be stored as an integer: its value and encoding. -/
def zipTryEncoding (entry : Bytes) : Option (ℤ × UInt8) :=
  if entry.length ≥ 32 ∨ entry.length = 0 then none
  else do
    let value ← string2ll entry
    some (value,
      if value ≥ 0 ∧ value ≤ 12 then zipIntImmMin + UInt8.ofNat value.toNat
      else if value ≥ -128 ∧ value ≤ 127 then zipInt8B
      else if value ≥ -32768 ∧ value ≤ 32767 then zipInt16B
      else if value ≥ -8388608 ∧ value ≤ 8388607 then zipInt24B
      else if value ≥ -2147483648 ∧ value ≤ 2147483647 then zipInt32B
      else zipInt64B)

/-- The bytes written for an integer; an unknown encoding fails the final
assertion. -/
def zipSaveInteger (value : ℤ) (encoding : UInt8) : Option Bytes :=
  if encoding = zipInt8B then some (intBytes 1 value)
  else if encoding = zipInt16B then some (intBytes 2 value)
  else if encoding = zipInt24B then some ((intBytes 4 (value * 2 ^ 8)).drop 1)
  else if encoding = zipInt32B then some (intBytes 4 value)
  else if encoding = zipInt64B then some (intBytes 8 value)
  else if encoding ≥ zipIntImmMin ∧ encoding ≤ zipIntImmMax then some []
  else none

/-- The integer read at `p`. -/
def zipLoadInteger (p : Bytes) (encoding : UInt8) : Option ℤ :=
  if encoding = zipInt8B then (slice p 0 1).map intVal
  else if encoding = zipInt16B then (slice p 0 2).map intVal
  else if encoding = zipInt32B then (slice p 0 4).map intVal
  else if encoding = zipInt24B then
    -- the three bytes are the high bytes of a 32-bit integer; `/` is the
    -- arithmetic shift
    (slice p 0 3).map fun bs => intVal (0 :: bs) / 2 ^ 8
  else if encoding = zipInt64B then (slice p 0 8).map intVal
  else if encoding ≥ zipIntImmMin ∧ encoding ≤ zipIntImmMax then
    some ((encoding &&& zipIntImmMask).toNat - 1)
  else none

/-- What `ziplistGet` hands back: a string or an integer. -/
inductive Value where
  | str (s : Bytes)
  | int (v : ℤ)
  deriving DecidableEq, Repr

/-- The byte string a value stands for. -/
def Value.text : Value → Bytes
  | .str s => s
  | .int v => ll2string v

/-- The value stored at `p`; `none` at the end of the list. -/
def ziplistGet (p : Bytes) : Option Value := do
  let b0 ← p[0]?
  if b0 = zipEnd then none
  else do
    let entry ← zipEntry p
    if zipIsStr entry.encoding then do
      let s ← slice p entry.headersize entry.len
      some (.str s)
    else do
      let v ← zipLoadInteger (p.drop entry.headersize) entry.encoding
      some (.int v)

/-! ### The prevlen field -/

/-- Size of a prevlen field. -/
def prevSize (wide : Bool) : ℕ := if wide then 5 else 1

/-- A prevlen field of the given width. -/
def prevField (wide : Bool) (len : ℕ) : Bytes :=
  if wide then zipPrevEncodeLengthForceLarge len else [UInt8.ofNat len]

/-- A narrow prevlen field holds lengths below `ZIP_BIGLEN` only. -/
def PrevFits (wide : Bool) (len : ℕ) : Prop := wide = true ∨ len < zipBiglen

instance (wide : Bool) (len : ℕ) : Decidable (PrevFits wide len) :=
  inferInstanceAs (Decidable (_ ∨ _))

@[simp] theorem length_prevField (wide : Bool) (len : ℕ) :
    (prevField wide len).length = prevSize wide := by
  cases wide <;> simp [prevField, prevSize, zipPrevEncodeLengthForceLarge]

theorem prevSize_pos (wide : Bool) : 0 < prevSize wide := by
  cases wide <;> decide

theorem zipPrevEncodeLength_eq (len : ℕ) :
    zipPrevEncodeLength len = prevField (decide (zipBiglen ≤ len)) len := by
  by_cases h : len < zipBiglen
  · simp [zipPrevEncodeLength, prevField, h]
  · simp [zipPrevEncodeLength, prevField, zipPrevEncodeLengthForceLarge, h,
      Nat.not_lt.mp h]

theorem prevFits_zipPrevEncodeLength (len : ℕ) :
    PrevFits (decide (zipBiglen ≤ len)) len := by
  by_cases h : len < zipBiglen
  · exact Or.inr h
  · exact Or.inl (decide_eq_true (Nat.not_lt.mp h))

theorem zipDecodePrevlensize_field {wide : Bool} {len : ℕ} (h : PrevFits wide len)
    (r : Bytes) :
    zipDecodePrevlensize (prevField wide len ++ r) = some (prevSize wide) := by
  cases wide with
  | false =>
    have hlen : len < zipBiglen := by simpa [PrevFits] using h
    have hmod : len % 256 = len := by
      unfold zipBiglen at hlen
      omega
    simp [zipDecodePrevlensize, prevField, prevSize, hmod, hlen]
  | true =>
    simp [zipDecodePrevlensize, prevField, prevSize, zipPrevEncodeLengthForceLarge,
      zipBiglen]

theorem zipDecodePrevlen_field {wide : Bool} {len : ℕ} (h : PrevFits wide len)
    (hlen : len < 2 ^ 32) (r : Bytes) :
    zipDecodePrevlen (prevField wide len ++ r) = some (prevSize wide, len) := by
  rw [zipDecodePrevlen, zipDecodePrevlensize_field h]
  cases wide with
  | false =>
    have hlen : len < zipBiglen := by simpa [PrevFits] using h
    have hmod : len % 256 = len := by
      unfold zipBiglen at hlen
      omega
    simp [prevField, prevSize, hmod]
  | true =>
    have hslice : slice (prevField true len ++ r) 1 4 = some (leBytes 4 len) :=
      slice_append (a := [UInt8.ofNat zipBiglen]) (b := leBytes 4 len) rfl (by simp)
    have hval : leVal (leBytes 4 len) = len := leVal_leBytes_of_lt (by omega)
    simp [prevSize, hslice, hval]

/-- A prevlen field never starts with the end marker. -/
theorem head_prevField_ne_zipEnd {wide : Bool} {len : ℕ} (h : PrevFits wide len)
    (r : Bytes) : ∃ b, (prevField wide len ++ r)[0]? = some b ∧ b ≠ zipEnd := by
  cases wide with
  | false =>
    have hlen : len < zipBiglen := by simpa [PrevFits] using h
    refine ⟨UInt8.ofNat len, by simp [prevField], fun hb => ?_⟩
    have := congrArg UInt8.toNat hb
    simp only [UInt8.toNat_ofNat', zipEnd] at this
    unfold zipBiglen at hlen
    change len % 2 ^ 8 = 255 at this
    omega
  | true =>
    exact ⟨UInt8.ofNat zipBiglen, by simp [prevField, zipPrevEncodeLengthForceLarge],
      by decide⟩

/-! ### The encoding header -/

theorem zipDecodeLength_append {body : Bytes} {r : UInt8 × ℕ × ℕ}
    (h : zipDecodeLength body = some r) (t : Bytes) :
    zipDecodeLength (body ++ t) = some r := by
  have hget : ∀ {i : ℕ} {b : UInt8}, body[i]? = some b → (body ++ t)[i]? = some b := by
    intro i b hb
    obtain ⟨hi, -⟩ := List.getElem?_eq_some_iff.mp hb
    rw [List.getElem?_append_left hi, hb]
  simp only [zipDecodeLength, Option.bind_eq_bind, Option.bind_eq_some_iff] at h ⊢
  obtain ⟨b0, hb0, h⟩ := h
  refine ⟨b0, hget hb0, ?_⟩
  split at h
  case isFalse hint => rw [if_neg hint, h]
  case isTrue hstr =>
    rw [if_pos hstr]
    split at h
    case isTrue h06 => rw [if_pos h06, h]
    case isFalse h06 =>
      rw [if_neg h06]
      split at h
      case isTrue h14 =>
        rw [if_pos h14]
        obtain ⟨b1, hb1, h⟩ := Option.bind_eq_some_iff.mp h
        exact Option.bind_eq_some_iff.mpr ⟨b1, hget hb1, h⟩
      case isFalse h14 =>
        rw [if_neg h14]
        split at h
        case isFalse => simp at h
        case isTrue h32 =>
          rw [if_pos h32]
          simp only [Option.bind_eq_some_iff] at h ⊢
          obtain ⟨b1, hb1, b2, hb2, b3, hb3, b4, hb4, h⟩ := h
          exact ⟨b1, hget hb1, b2, hget hb2, b3, hget hb3, b4, hget hb4, h⟩

/-- The part of an entry after its prevlen field is well formed when its header
decodes and describes exactly the bytes that are there. -/
def BodyOk (body : Bytes) : Prop :=
  (zipDecodeLength body).map (fun r => r.2.1 + r.2.2) = some body.length

instance (body : Bytes) : Decidable (BodyOk body) :=
  inferInstanceAs (Decidable (_ = _))

theorem BodyOk.decode {body : Bytes} (h : BodyOk body) :
    ∃ enc lensize len, zipDecodeLength body = some (enc, lensize, len) ∧
      lensize + len = body.length := by
  obtain ⟨⟨enc, lensize, len⟩, hdec, hlen⟩ := Option.map_eq_some_iff.mp h
  exact ⟨enc, lensize, len, hdec, hlen⟩

theorem zipEntry_append {wide : Bool} {len : ℕ} {body : Bytes} (h : PrevFits wide len)
    (hlen : len < 2 ^ 32) (hbody : BodyOk body) (r : Bytes) :
    ∃ entry, zipEntry (prevField wide len ++ (body ++ r)) = some entry ∧
      entry.prevrawlensize = prevSize wide ∧ entry.prevrawlen = len ∧
      entry.headersize + entry.len = prevSize wide + body.length := by
  obtain ⟨enc, lensize, clen, hdec, hsum⟩ := hbody.decode
  have hdrop : (prevField wide len ++ (body ++ r)).drop (prevSize wide) = body ++ r := by
    rw [← length_prevField wide len, List.drop_left]
  refine ⟨{ prevrawlensize := prevSize wide, prevrawlen := len, lensize, len := clen,
            headersize := prevSize wide + lensize, encoding := enc }, ?_, rfl, rfl, ?_⟩
  · rw [zipEntry, zipDecodePrevlen_field h hlen]
    simp only [Option.bind_eq_bind, Option.bind_some, hdrop, zipDecodeLength_append hdec]
  · show prevSize wide + lensize + clen = _
    omega

theorem zipRawEntryLength_append {wide : Bool} {len : ℕ} {body : Bytes}
    (h : PrevFits wide len) (hbody : BodyOk body)
    (hraw : prevSize wide + body.length < 2 ^ 32) (r : Bytes) :
    zipRawEntryLength (prevField wide len ++ (body ++ r))
      = some (prevSize wide + body.length) := by
  obtain ⟨enc, lensize, clen, hdec, hsum⟩ := hbody.decode
  have hdrop : (prevField wide len ++ (body ++ r)).drop (prevSize wide) = body ++ r := by
    rw [← length_prevField wide len, List.drop_left]
  rw [zipRawEntryLength, zipDecodePrevlensize_field h]
  simp only [Option.bind_eq_bind, Option.bind_some, hdrop, zipDecodeLength_append hdec,
    Option.some_inj]
  rw [Nat.mod_eq_of_lt (by omega)]
  omega

/-! ### Values -/

/-- The value stored in an entry body. -/
def bodyValue (body : Bytes) : Option Value := do
  let (encoding, lensize, len) ← zipDecodeLength body
  if zipIsStr encoding then (slice body lensize len).map Value.str
  else (zipLoadInteger (body.drop lensize) encoding).map Value.int

/-- The text stored in an entry body. -/
def bodyText (body : Bytes) : Option Bytes := (bodyValue body).map Value.text

/-- The value that `__ziplistInsert` stores for `s`: an integer if `s` is one. -/
def entryValue (s : Bytes) : Value :=
  match zipTryEncoding s with
  | some (value, _) => .int value
  | none => .str s

/-- Size of the content `__ziplistInsert` stores for `s`. -/
def contentSize (s : Bytes) : ℕ :=
  match zipTryEncoding s with
  | some (_, encoding) => zipIntSize encoding
  | none => s.length

/-- The encoding byte `__ziplistInsert` uses for `s`; it stays 0 for strings. -/
def contentEncoding (s : Bytes) : UInt8 :=
  match zipTryEncoding s with
  | some (_, encoding) => encoding
  | none => 0

/-- The content `__ziplistInsert` stores for `s`. -/
def contentBytes (s : Bytes) : Option Bytes :=
  match zipTryEncoding s with
  | some (value, encoding) => zipSaveInteger value encoding
  | none => some s

/-- The bytes `__ziplistInsert` writes after the prevlen field for `s`. -/
def encodeBody (s : Bytes) : Option Bytes :=
  (contentBytes s).map (zipEncodeLength (contentEncoding s) s.length ++ ·)

theorem slice_zero_append {m bs : Bytes} {n : ℕ} (h : slice m 0 n = some bs)
    (t : Bytes) : slice (m ++ t) 0 n = some bs := by
  obtain ⟨hn, -⟩ := slice_eq_some h
  rw [slice, if_pos (by omega)] at h
  rw [slice, if_pos (by simp; omega), ← h]
  simp only [List.drop_zero]
  rw [List.take_append_of_le_length (by omega)]

theorem zipLoadInteger_append {p : Bytes} {encoding : UInt8} {v : ℤ}
    (h : zipLoadInteger p encoding = some v) (t : Bytes) :
    zipLoadInteger (p ++ t) encoding = some v := by
  have key : ∀ {n : ℕ} {f : Bytes → ℤ}, (slice p 0 n).map f = some v →
      (slice (p ++ t) 0 n).map f = some v := by
    intro n f hf
    obtain ⟨bs, hbs, hv⟩ := Option.map_eq_some_iff.mp hf
    exact Option.map_eq_some_iff.mpr ⟨bs, slice_zero_append hbs t, hv⟩
  unfold zipLoadInteger at h ⊢
  split_ifs at h ⊢
  · exact key h
  · exact key h
  · exact key h
  · exact key h
  · exact key h
  · exact h

theorem ziplistGet_append {wide : Bool} {len : ℕ} {body : Bytes} {v : Value}
    (h : PrevFits wide len) (hlen : len < 2 ^ 32) (hbody : BodyOk body)
    (hvalue : bodyValue body = some v) (r : Bytes) :
    ziplistGet (prevField wide len ++ (body ++ r)) = some v := by
  obtain ⟨enc, lensize, clen, hdec, hsum⟩ := hbody.decode
  obtain ⟨b, hb, hne⟩ := head_prevField_ne_zipEnd h (body ++ r)
  have hdrop : (prevField wide len ++ (body ++ r)).drop (prevSize wide) = body ++ r := by
    rw [← length_prevField wide len, List.drop_left]
  simp only [bodyValue, hdec, Option.bind_eq_bind, Option.bind_some] at hvalue
  simp only [ziplistGet, hb, Option.bind_eq_bind, Option.bind_some, if_neg hne, zipEntry,
    zipDecodePrevlen_field h hlen, hdrop, zipDecodeLength_append hdec]
  by_cases hstr : zipIsStr enc
  · rw [if_pos hstr] at hvalue ⊢
    have hsplit : body.take lensize ++ body.drop lensize = body := List.take_append_drop _ _
    have hclen : (body.drop lensize).length = clen := by simp; omega
    have hs : slice body lensize clen = some (body.drop lensize) := by
      have := slice_append (a := body.take lensize) (b := body.drop lensize) (c := [])
        (p := lensize) (n := clen) (by simp; omega) hclen.symm
      rwa [List.append_nil, hsplit] at this
    rw [hs] at hvalue
    have hs' : slice (prevField wide len ++ (body ++ r)) (prevSize wide + lensize) clen
        = some (body.drop lensize) := by
      have := slice_append (a := prevField wide len ++ body.take lensize)
        (b := body.drop lensize) (c := r) (p := prevSize wide + lensize) (n := clen)
        (by simp; omega) hclen.symm
      rwa [List.append_assoc, ← List.append_assoc (body.take lensize), hsplit] at this
    rw [hs']
    exact hvalue
  · rw [if_neg hstr] at hvalue ⊢
    obtain ⟨w, hw, rfl⟩ := Option.map_eq_some_iff.mp hvalue
    have hdrop' : (prevField wide len ++ (body ++ r)).drop (prevSize wide + lensize)
        = body.drop lensize ++ r := by
      rw [← List.drop_drop, hdrop, List.drop_append_of_le_length (by omega)]
    rw [hdrop', zipLoadInteger_append hw]
    rfl

theorem zipTryEncoding_cases {s : Bytes} {value : ℤ} {encoding : UInt8}
    (h : zipTryEncoding s = some (value, encoding)) :
    string2ll s = some value ∧ s.length < 32 ∧
    ((∃ n ≤ 12, value = (n : ℕ) ∧ encoding = zipIntImmMin + UInt8.ofNat n) ∨
      (-128 ≤ value ∧ value ≤ 127 ∧ encoding = zipInt8B) ∨
      (-32768 ≤ value ∧ value ≤ 32767 ∧ encoding = zipInt16B) ∨
      (-8388608 ≤ value ∧ value ≤ 8388607 ∧ encoding = zipInt24B) ∨
      (-2147483648 ≤ value ∧ value ≤ 2147483647 ∧ encoding = zipInt32B) ∨
      encoding = zipInt64B) := by
  unfold zipTryEncoding at h
  split at h
  · simp at h
  rename_i hlen
  obtain ⟨v, hv, h⟩ := Option.bind_eq_some_iff.mp h
  simp only [Option.some_inj, Prod.mk.injEq] at h
  obtain ⟨rfl, henc⟩ := h
  refine ⟨hv, by omega, ?_⟩
  split_ifs at henc with h0 h8 h16 h24 h32
  · exact Or.inl ⟨v.toNat, by omega, by omega, henc.symm⟩
  · exact Or.inr (Or.inl ⟨h8.1, h8.2, henc.symm⟩)
  · exact Or.inr (Or.inr (Or.inl ⟨h16.1, h16.2, henc.symm⟩))
  · exact Or.inr (Or.inr (Or.inr (Or.inl ⟨h24.1, h24.2, henc.symm⟩)))
  · exact Or.inr (Or.inr (Or.inr (Or.inr (Or.inl ⟨h32.1, h32.2, henc.symm⟩))))
  · exact Or.inr (Or.inr (Or.inr (Or.inr (Or.inr henc.symm))))

/-- The three bytes kept of a 24-bit integer, with a zero byte put back in
front, are the four bytes of the shifted value. -/
theorem zero_cons_drop_intBytes (value : ℤ) :
    (0 : UInt8) :: (intBytes 4 (value * 2 ^ 8)).drop 1 = intBytes 4 (value * 2 ^ 8) := by
  have hmod : ((value * 2 ^ 8 : ℤ) % 256 ^ 4).toNat % 256 = 0 := by
    omega
  rw [intBytes, leBytes, hmod]
  rfl

/-- An integer that `__ziplistInsert` chose an encoding for is saved in as many
bytes as the encoding says and loads back. -/
theorem zipLoadInteger_zipSaveInteger {s : Bytes} {value : ℤ} {encoding : UInt8}
    (h : zipTryEncoding s = some (value, encoding)) :
    ∃ bs, zipSaveInteger value encoding = some bs ∧ bs.length = zipIntSize encoding ∧
      zipLoadInteger bs encoding = some value ∧
      zipIsStr encoding = false ∧ zipEntryEncoding encoding = encoding ∧
      ¬ encoding < zipStrMask := by
  obtain ⟨hll, -, hcases⟩ := zipTryEncoding_cases h
  obtain ⟨hmin, hmax⟩ := string2ll_range hll
  unfold llongMin llongMax at *
  have hslice : ∀ {k : ℕ}, slice (intBytes k value) 0 k = some (intBytes k value) := by
    intro k
    simp [slice]
  have hval : ∀ {k : ℕ}, -((256 ^ k : ℕ) : ℤ) ≤ value * 2 →
      value * 2 < ((256 ^ k : ℕ) : ℤ) → intVal (intBytes k value) = value :=
    intVal_intBytes
  rcases hcases with ⟨n, hn, rfl, rfl⟩ | ⟨h1, h2, rfl⟩ | ⟨h1, h2, rfl⟩ | ⟨h1, h2, rfl⟩ |
    ⟨h1, h2, rfl⟩ | rfl
  · interval_cases n <;> exact ⟨[], by decide, by decide, by decide, by decide, by decide, by decide⟩
  · refine ⟨intBytes 1 value, rfl, by simp [zipIntSize], ?_, by decide, by decide, by decide⟩
    show (slice (intBytes 1 value) 0 1).map intVal = _
    rw [hslice, Option.map_some, hval (by omega) (by omega)]
  · refine ⟨intBytes 2 value, rfl, by simp [zipIntSize]; decide, ?_, by decide, by decide,
      by decide⟩
    show (slice (intBytes 2 value) 0 2).map intVal = _
    rw [hslice, Option.map_some, hval (by omega) (by omega)]
  · refine ⟨(intBytes 4 (value * 2 ^ 8)).drop 1, rfl, by simp [zipIntSize]; decide, ?_,
      by decide, by decide, by decide⟩
    show (slice ((intBytes 4 (value * 2 ^ 8)).drop 1) 0 3).map
      (fun bs => intVal (0 :: bs) / 2 ^ 8) = _
    have hs : slice ((intBytes 4 (value * 2 ^ 8)).drop 1) 0 3
        = some ((intBytes 4 (value * 2 ^ 8)).drop 1) := by
      simp [slice]
    rw [hs, Option.map_some, zero_cons_drop_intBytes, intVal_intBytes (by omega) (by omega),
      Int.mul_ediv_cancel value (by decide)]
  · refine ⟨intBytes 4 value, rfl, by simp [zipIntSize]; decide, ?_, by decide, by decide,
      by decide⟩
    show (slice (intBytes 4 value) 0 4).map intVal = _
    rw [hslice, Option.map_some, hval (by omega) (by omega)]
  · refine ⟨intBytes 8 value, rfl, by simp [zipIntSize]; decide, ?_, by decide, by decide,
      by decide⟩
    show (slice (intBytes 8 value) 0 8).map intVal = _
    rw [hslice, Option.map_some, hval (by omega) (by omega)]

theorem zipStr14B_bits : ∀ h : Fin 64,
    zipEntryEncoding (zipStr14B ||| (UInt8.ofNat h &&& 0x3f)) = zipStr14B ∧
      ((zipStr14B ||| (UInt8.ofNat h &&& 0x3f)) &&& 0x3f).toNat = h := by
  decide

theorem zipStr06B_bits : ∀ n : Fin 64,
    zipEntryEncoding (zipStr06B ||| UInt8.ofNat n) = zipStr06B ∧
      ((zipStr06B ||| UInt8.ofNat n) &&& 0x3f).toNat = n := by
  decide

theorem toNat_ofNat_and_0xff (n : ℕ) : (UInt8.ofNat n &&& 0xff).toNat = n % 256 := by
  rw [UInt8.toNat_and, UInt8.toNat_ofNat']
  show n % 2 ^ 8 &&& 2 ^ 8 - 1 = n % 256
  rw [Nat.and_two_pow_sub_one_eq_mod, Nat.mod_mod]
  rfl

theorem zipDecodeLength_zipEncodeLength {n : ℕ} (hn : n < 2 ^ 32) (t : Bytes) :
    ∃ enc, zipIsStr enc = true ∧ zipDecodeLength (zipEncodeLength 0 n ++ t)
      = some (enc, (zipEncodeLength 0 n).length, n) := by
  have h0 : zipIsStr 0 = true := by decide
  by_cases h06 : n ≤ 0x3f
  · obtain ⟨henc, hlen⟩ := zipStr06B_bits ⟨n, by omega⟩
    refine ⟨zipStr06B, by decide, ?_⟩
    simp only at henc hlen
    simp only [zipEncodeLength, h0, if_true, if_pos h06, zipDecodeLength, List.cons_append,
      List.nil_append, List.getElem?_cons_zero, Option.bind_eq_bind, Option.bind_some, henc,
      hlen, List.length_cons, List.length_nil]
    rw [if_pos (by decide)]
  by_cases h14 : n ≤ 0x3fff
  · have hhi : n >>> 8 < 64 := by
      rw [Nat.shiftRight_eq_div_pow]
      omega
    obtain ⟨henc, hlen⟩ := zipStr14B_bits ⟨n >>> 8, hhi⟩
    refine ⟨zipStr14B, by decide, ?_⟩
    simp only at henc hlen
    have hval : (n >>> 8) <<< 8 ||| n % 256 = n := by
      rw [← Nat.shiftLeft_add_eq_or_of_lt (by omega : n % 256 < 2 ^ 8),
        Nat.shiftLeft_eq, Nat.shiftRight_eq_div_pow]
      omega
    simp only [zipEncodeLength, h0, if_true, if_neg h06, if_pos h14, zipDecodeLength,
      List.cons_append, List.nil_append, List.getElem?_cons_zero, List.getElem?_cons_succ,
      Option.bind_eq_bind, Option.bind_some, henc, hlen, toNat_ofNat_and_0xff, hval,
      List.length_cons, List.length_nil]
    rw [if_pos (by decide), if_neg (by decide)]
  · refine ⟨zipStr32B, by decide, ?_⟩
    have henc : zipEntryEncoding zipStr32B = zipStr32B := by decide
    have hval : ((n >>> 24) % 256) <<< 24 ||| ((n >>> 16) % 256) <<< 16 |||
        ((n >>> 8) % 256) <<< 8 ||| n % 256 = n := by
      simp only [Nat.shiftRight_eq_div_pow, Nat.or_assoc]
      rw [← Nat.shiftLeft_add_eq_or_of_lt (by omega : n % 256 < 2 ^ 8),
        ← Nat.shiftLeft_add_eq_or_of_lt (i := 16) (by rw [Nat.shiftLeft_eq]; omega),
        ← Nat.shiftLeft_add_eq_or_of_lt (i := 24) (by simp only [Nat.shiftLeft_eq]; omega)]
      simp only [Nat.shiftLeft_eq]
      omega
    simp only [zipEncodeLength, h0, if_true, if_neg h06, if_neg h14, zipDecodeLength,
      List.cons_append, List.nil_append, List.getElem?_cons_zero, List.getElem?_cons_succ,
      Option.bind_eq_bind, Option.bind_some, henc, toNat_ofNat_and_0xff, hval,
      List.length_cons, List.length_nil]
    rw [if_pos (by decide), if_neg (by decide), if_neg (by decide)]

theorem text_entryValue (s : Bytes) : (entryValue s).text = s := by
  unfold entryValue
  split
  case h_1 value encoding h => exact ll2string_string2ll (zipTryEncoding_cases h).1
  case h_2 => rfl

theorem encodeBody_spec {s : Bytes} (hs : s.length < 2 ^ 32) :
    ∃ body, encodeBody s = some body ∧ BodyOk body ∧ bodyValue body = some (entryValue s) ∧
      body.length = contentSize s + (zipEncodeLength (contentEncoding s) s.length).length := by
  rcases h : zipTryEncoding s with _ | ⟨value, encoding⟩
  · obtain ⟨enc, hstr, hdec⟩ := zipDecodeLength_zipEncodeLength hs s
    refine ⟨zipEncodeLength 0 s.length ++ s, by simp [encodeBody, contentBytes, contentEncoding, h],
      ?_, ?_, ?_⟩
    · rw [BodyOk, hdec]
      simp
    · have hs := slice_append (a := zipEncodeLength 0 s.length) (b := s) (c := []) rfl rfl
      rw [List.append_nil] at hs
      simp only [bodyValue, hdec, Option.bind_eq_bind, Option.bind_some, hstr, if_true, hs,
        Option.map_some, entryValue, h]
    · simp [contentSize, contentEncoding, h, Nat.add_comm]
  · obtain ⟨bs, hbs, hlen, hload, hstr, henc, hmask⟩ := zipLoadInteger_zipSaveInteger h
    have hhdr : zipEncodeLength encoding s.length = [encoding] := by
      simp [zipEncodeLength, hstr]
    have hdec : zipDecodeLength (encoding :: bs) = some (encoding, 1, zipIntSize encoding) := by
      simp [zipDecodeLength, henc, hmask]
    refine ⟨encoding :: bs, by simp [encodeBody, contentBytes, contentEncoding, h, hbs, hhdr],
      ?_, ?_, ?_⟩
    · rw [BodyOk, hdec]
      simp [hlen, Nat.add_comm]
    · simp only [bodyValue, hdec, Option.bind_eq_bind, Option.bind_some, hstr, entryValue, h]
      simp [hload]
    · simp [contentSize, contentEncoding, h, hlen, hhdr]

end Ziplist

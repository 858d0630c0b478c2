/-
The zipmap (`zipmap.c`), on raw memory.

* `zipmapDecodeLength`, `zipmapEncodeLength` — lengths of 1 or 5 bytes;
* `zipmapLookupRaw` — the walk over all entries;
* `zipmapSet`, `zipmapDel`, `zipmapNext`, `zipmapGet`, `zipmapLen`, `zipmapBlobLen`.

A zipmap is the block `zm`; a pointer into it is an offset.  Every function returns `none` when
the C code would read or write outside the block.  `junk` is the content of memory freshly added
by `zrealloc`.  Lengths and sizes are `unsigned int`.
-/
import RedisModel.ByteBuffer

open ByteBuffer

namespace Zipmap

def zipmapBiglen : ℕ := 254

def zipmapEnd : UInt8 := 255

def zipmapValueMaxFree : ℕ := 4

/-- A value stored in an `unsigned int`. -/
def uint (n : ℕ) : ℕ := n % 2 ^ 32

/-- The difference of two values of type `unsigned int`. -/
def usub (a b : ℕ) : ℕ := uint (a + (2 ^ 32 - uint b))

def zipmapLenBytes (l : ℕ) : ℕ := if l < zipmapBiglen then 1 else 5

def zipmapNew : Bytes := [0, zipmapEnd]

def zipmapDecodeLength (zm : Bytes) (p : ℕ) : Option ℕ := do
  let len ← zm[p]?
  if len.toNat < zipmapBiglen then some len.toNat
  else (slice zm (p + 1) 4).map leVal

/-- What `zipmapEncodeLength` writes. -/
def zipmapEncodeLength (len : ℕ) : Bytes :=
  if len < zipmapBiglen then [UInt8.ofNat len]
  else UInt8.ofNat zipmapBiglen :: leBytes 4 len

/-- The key of the entry at `p` is compared with the key that is looked up, as long as there is
one and it was not found. -/
def zipmapMatch (zm : Bytes) (key : Option Bytes) (k : Option ℕ) (p l : ℕ) : Option Bool :=
  match key, k with
  | some key, none =>
    if l = key.length then (slice zm (p + zipmapLenBytes l) l).map (· = key) else some false
  | none, _ | _, some _ => some false

/-- The loop of `zipmapLookupRaw`: the entry of the key, and where the loop stops.  Every round
moves on, so the number of rounds is bounded by `fuel`, the size of the zipmap. -/
def zipmapLookupLoop (zm : Bytes) (key : Option Bytes) (totlen : Bool) :
    ℕ → ℕ → Option ℕ → Option (Option ℕ × ℕ)
  | 0, _, _ => none
  | fuel + 1, p, k => do
    let b ← zm[p]?
    if b = zipmapEnd then some (k, p)
    else do
      let l ← zipmapDecodeLength zm p
      let found ← zipmapMatch zm key k p l
      if found ∧ ¬totlen then some (some p, p)
      else do
        let k := if found then some p else k
        let p := p + uint (zipmapLenBytes l + l)
        let l ← zipmapDecodeLength zm p
        let p := p + zipmapLenBytes l
        let free ← zm[p]?
        zipmapLookupLoop zm key totlen fuel (p + uint (l + 1 + free.toNat)) k

/-- `zipmapLookupRaw` without `totlen`. -/
def zipmapLookupRaw (zm : Bytes) (key : Bytes) : Option (Option ℕ) := do
  let (k, _) ← zipmapLookupLoop zm (some key) false zm.length 1 none
  some k

/-- `zipmapLookupRaw` with `totlen`. -/
def zipmapLookupTotlen (zm : Bytes) (key : Option Bytes) : Option (Option ℕ × ℕ) := do
  let (k, p) ← zipmapLookupLoop zm key true zm.length 1 none
  some (k, uint (uint p + 1))

def zipmapRequiredLength (klen vlen : ℕ) : ℕ :=
  let l := uint (klen + vlen + 3)
  let l := if klen ≥ zipmapBiglen then uint (l + 4) else l
  if vlen ≥ zipmapBiglen then uint (l + 4) else l

def zipmapRawKeyLength (zm : Bytes) (p : ℕ) : Option ℕ := do
  let l ← zipmapDecodeLength zm p
  some (uint (zipmapLenBytes l + l))

def zipmapRawValueLength (zm : Bytes) (p : ℕ) : Option ℕ := do
  let l ← zipmapDecodeLength zm p
  let used := zipmapLenBytes l
  let free ← zm[p + used]?
  some (uint (used + (free.toNat + 1 + l)))

def zipmapRawEntryLength (zm : Bytes) (p : ℕ) : Option ℕ := do
  let l ← zipmapRawKeyLength zm p
  let v ← zipmapRawValueLength zm (p + l)
  some (uint (l + v))

/-- The end of `zipmapSet`: key and value are written at `p`. -/
def zipmapWrite (zm : Bytes) (p : ℕ) (key val : Bytes) (vempty : ℕ) : Option Bytes := do
  let zm ← store zm p (zipmapEncodeLength key.length)
  let p := p + zipmapLenBytes key.length
  let zm ← store zm p key
  let p := p + key.length
  let zm ← store zm p (zipmapEncodeLength val.length)
  let p := p + zipmapLenBytes val.length
  let zm ← store zm p [UInt8.ofNat vempty]
  store zm (p + 1) val

section
variable (junk : ℕ → UInt8)

def zipmapResize (zm : Bytes) (len : ℕ) : Option Bytes :=
  store (realloc junk zm len) (usub len 1) [zipmapEnd]

/-- The branch of `zipmapSet` for a new key: the zipmap grows at its end. -/
def zipmapEnlarge (zm : Bytes) (zmlen reqlen : ℕ) : Option Bytes := do
  let zm ← zipmapResize junk zm (uint (zmlen + reqlen))
  let count ← zm[0]?
  if count.toNat < zipmapBiglen then store zm 0 [count + 1] else some zm

/-- The branch of `zipmapSet` for an entry that grows: the tail moves backwards. -/
def zipmapGrow (zm : Bytes) (p zmlen freelen reqlen : ℕ) : Option Bytes := do
  let zm ← zipmapResize junk zm (uint (usub zmlen freelen + reqlen))
  memmove zm (p + reqlen) (p + freelen) (usub zmlen (p + freelen + 1))

/-- The branch of `zipmapSet` for an entry with too much free space, and the same in `zipmapDel`:
the tail moves to the front. -/
def zipmapShrink (zm : Bytes) (p zmlen freelen reqlen : ℕ) : Option Bytes := do
  let zm ← memmove zm (p + reqlen) (p + freelen) (usub zmlen (p + freelen + 1))
  zipmapResize junk zm (usub zmlen (usub freelen reqlen))

/-- The part of `zipmapSet` for a key that was found at `p`. -/
def zipmapUpdate (zm key val : Bytes) (p zmlen reqlen : ℕ) : Option Bytes := do
  let freelen ← zipmapRawEntryLength zm p
  if freelen < reqlen then do
    let zm ← zipmapGrow junk zm p zmlen freelen reqlen
    zipmapWrite zm p key val 0
  else
    let empty := usub freelen reqlen
    if empty ≥ zipmapValueMaxFree then do
      let zm ← zipmapShrink junk zm p zmlen freelen reqlen
      zipmapWrite zm p key val 0
    else zipmapWrite zm p key val empty

/-- `zipmapSet`, with `*update`. -/
def zipmapSet (zm key val : Bytes) : Option (Bytes × Bool) := do
  let reqlen := zipmapRequiredLength key.length val.length
  let (p, zmlen) ← zipmapLookupTotlen zm (some key)
  match p with
  | none =>
    let zm ← zipmapEnlarge junk zm zmlen reqlen
    let zm ← zipmapWrite zm (zmlen - 1) key val 0
    some (zm, false)
  | some p =>
    let zm ← zipmapUpdate junk zm key val p zmlen reqlen
    some (zm, true)

/-- `zipmapDel`, with `*deleted`. -/
def zipmapDel (zm key : Bytes) : Option (Bytes × Bool) := do
  let (p, zmlen) ← zipmapLookupTotlen zm (some key)
  match p with
  | none => some (zm, false)
  | some p =>
    let freelen ← zipmapRawEntryLength zm p
    let zm ← zipmapShrink junk zm p zmlen freelen 0
    let count ← zm[0]?
    let zm ← (if count.toNat < zipmapBiglen then store zm 0 [count - 1] else some zm)
    some (zm, true)

end

/-! ### Reading -/

def zipmapRewind : ℕ := 1

/-- What `zipmapNext` returns: the key, the value and the next entry. -/
structure Next where
  key : ℕ
  klen : ℕ
  value : ℕ
  vlen : ℕ
  next : ℕ

/-- `zipmapNext`; `some none` is the end. -/
def zipmapNext (zm : Bytes) (p : ℕ) : Option (Option Next) := do
  let b ← zm[p]?
  if b = zipmapEnd then some none
  else do
    let klen ← zipmapDecodeLength zm p
    let key := p + zipmapLenBytes klen
    let rawkey ← zipmapRawKeyLength zm p
    let p := p + rawkey
    let vlen ← zipmapDecodeLength zm p
    let value := p + 1 + zipmapLenBytes vlen
    let rawvalue ← zipmapRawValueLength zm p
    some (some { key, klen, value, vlen, next := p + rawvalue })

def zipmapGet (zm key : Bytes) : Option (Option Bytes) := do
  let p ← zipmapLookupRaw zm key
  match p with
  | none => some none
  | some p =>
    let l ← zipmapRawKeyLength zm p
    let p := p + l
    let vlen ← zipmapDecodeLength zm p
    let value ← slice zm (p + zipmapLenBytes vlen + 1) vlen
    some (some value)

def zipmapExists (zm key : Bytes) : Option Bool := do
  let p ← zipmapLookupRaw zm key
  some p.isSome

/-- The loop of `zipmapLen`, and of all who iterate over a zipmap: every entry that
`zipmapNext` returns, with its key and its value. -/
def zipmapIterate (zm : Bytes) : ℕ → ℕ → Option (List (Bytes × Bytes))
  | 0, _ => none
  | fuel + 1, p => do
    let e ← zipmapNext zm p
    match e with
    | none => some []
    | some e =>
      let key ← slice zm e.key e.klen
      let value ← slice zm e.value e.vlen
      let rest ← zipmapIterate zm fuel e.next
      some ((key, value) :: rest)

/-- `zipmapLen`, which may store the number of entries. -/
def zipmapLen (zm : Bytes) : Option (Bytes × ℕ) := do
  let count ← zm[0]?
  if count.toNat < zipmapBiglen then some (zm, count.toNat)
  else do
    let entries ← zipmapIterate zm zm.length zipmapRewind
    let len := uint entries.length
    let zm ← (if len < zipmapBiglen then store zm 0 [UInt8.ofNat len] else some zm)
    some (zm, len)

def zipmapBlobLen (zm : Bytes) : Option ℕ := do
  let (_, totlen) ← zipmapLookupTotlen zm none
  some totlen

end Zipmap

/-
Integer sets (`intset.c`), on raw memory.

An intset is a header and an array of little-endian integers of 2, 4 or 8 bytes.
`contents` is the memory after the header.  Every function returns `none` when
the C code would read or write outside of it, or overflow an `int`.  `junk` is
the content of memory freshly added by `zrealloc`.
-/
import RedisModel.ByteBuffer

open ByteBuffer

structure Intset where
  encoding : ℕ
  length : ℕ
  contents : Bytes
  deriving DecidableEq, Repr

namespace Intset

def intsetEncInt16 : ℕ := 2
def intsetEncInt32 : ℕ := 4
def intsetEncInt64 : ℕ := 8

def int16Min : ℤ := -2 ^ 15
def int16Max : ℤ := 2 ^ 15 - 1
def int32Min : ℤ := -2 ^ 31
def int32Max : ℤ := 2 ^ 31 - 1
def int64Min : ℤ := -2 ^ 63
def int64Max : ℤ := 2 ^ 63 - 1

/-- `_intsetValueEncoding`: the encoding required for the value. -/
def intsetValueEncoding (v : ℤ) : ℕ :=
  if v < int32Min ∨ v > int32Max then intsetEncInt64
  else if v < int16Min ∨ v > int16Max then intsetEncInt32
  else intsetEncInt16

/-- The size of the C type that the accesses use for an encoding. -/
def encodingSize (enc : ℕ) : ℕ :=
  if enc = intsetEncInt64 then 8 else if enc = intsetEncInt32 then 4 else 2

/-- `_intsetGetEncoded`: the value at `pos`, given an encoding. -/
def intsetGetEncoded (is : Intset) (pos enc : ℕ) : Option ℤ :=
  (slice is.contents (pos * encodingSize enc) (encodingSize enc)).map intVal

/-- `_intsetGet`. -/
def intsetGetAt (is : Intset) (pos : ℕ) : Option ℤ := intsetGetEncoded is pos is.encoding

def intsetSet (is : Intset) (pos : ℕ) (value : ℤ) : Option Intset := do
  let contents ← store is.contents (pos * encodingSize is.encoding)
    (intBytes (encodingSize is.encoding) value)
  some { is with contents }

def intsetNew : Intset := { encoding := intsetEncInt16, length := 0, contents := [] }

/-- The `while` loop of `intsetSearch`; it ends within as many rounds as there
are elements, and one more. -/
def intsetSearchLoop (is : Intset) (value : ℤ) : ℕ → ℤ → ℤ → ℤ → ℤ → Option (ℤ × ℤ × ℤ)
  | 0, _, _, _, _ => none
  | fuel + 1, min, max, mid, cur =>
    if max ≥ min then
      if min + max > int32Max then none
      else do
        let mid := (min + max) / 2
        let cur ← intsetGetAt is mid.toNat
        if value > cur then intsetSearchLoop is value fuel (mid + 1) max mid cur
        else if value < cur then intsetSearchLoop is value fuel min (mid - 1) mid cur
        else some (min, mid, cur)
    else some (min, mid, cur)

/-- `intsetSearch`: whether `value` is there, and its position or the position to
insert it at. -/
def intsetSearch (is : Intset) (value : ℤ) : Option (Bool × ℕ) :=
  if is.length = 0 then some (false, 0)
  else do
    let last ← intsetGetAt is (is.length - 1)
    if value > last then some (false, is.length)
    else do
      let first ← intsetGetAt is 0
      if value < first then some (false, 0)
      else do
        let (min, mid, cur) ←
          intsetSearchLoop is value (is.length + 1) 0 (is.length - 1) (-1) (-1)
        if value = cur then some (true, mid.toNat) else some (false, min.toNat)

/-- The loop of `intsetUpgradeAndAdd`: the elements are copied from the old
encoding to the new one, last element first. -/
def intsetUpgradeLoop (curenc prepend : ℕ) : ℕ → Intset → Option Intset
  | 0, is => some is
  | length + 1, is => do
    let value ← intsetGetEncoded is length curenc
    let is ← intsetSet is (length + prepend) value
    intsetUpgradeLoop curenc prepend length is

/-- `intsetMoveTail`; the number of bytes is a `uint32_t`. -/
def intsetMoveTail (is : Intset) (src dst : ℕ) : Option Intset := do
  let bytes := ((is.length - src) * encodingSize is.encoding) % 2 ^ 32
  let contents ← memmove is.contents (dst * encodingSize is.encoding)
    (src * encodingSize is.encoding) bytes
  some { is with contents }

section
variable (junk : ℕ → UInt8)

/-- `intsetResize`; the size is a `uint32_t`. -/
def intsetResize (is : Intset) (len : ℕ) : Intset :=
  { is with contents := realloc junk is.contents ((len * is.encoding) % 2 ^ 32) }

def intsetUpgradeAndAdd (is : Intset) (value : ℤ) : Option Intset := do
  let curenc := is.encoding
  let newenc := intsetValueEncoding value
  let length := is.length
  let prepend := if value < 0 then 1 else 0
  let is := { is with encoding := newenc }
  let is := intsetResize junk is (is.length + 1)
  let is ← intsetUpgradeLoop curenc prepend length is
  let is ← if prepend ≠ 0 then intsetSet is 0 value else intsetSet is is.length value
  some { is with length := is.length + 1 }

/-- `intsetAdd`: the new set and `*success`. -/
def intsetAdd (is : Intset) (value : ℤ) : Option (Intset × Bool) :=
  let valenc := intsetValueEncoding value
  if valenc > is.encoding then do
    let is ← intsetUpgradeAndAdd junk is value
    some (is, true)
  else do
    let (found, pos) ← intsetSearch is value
    if found then some (is, false)
    else do
      let is := intsetResize junk is (is.length + 1)
      let is ← if pos < is.length then intsetMoveTail is pos (pos + 1) else some is
      let is ← intsetSet is pos value
      some ({ is with length := is.length + 1 }, true)

/-- `intsetRemove`: the new set and `*success`. -/
def intsetRemove (is : Intset) (value : ℤ) : Option (Intset × Bool) :=
  let valenc := intsetValueEncoding value
  if valenc ≤ is.encoding then do
    let (found, pos) ← intsetSearch is value
    if found then do
      let len := is.length
      let is ← if pos < len - 1 then intsetMoveTail is (pos + 1) pos else some is
      let is := intsetResize junk is (len - 1)
      some ({ is with length := len - 1 }, true)
    else some (is, false)
  else some (is, false)

end

def intsetFind (is : Intset) (value : ℤ) : Option Bool :=
  let valenc := intsetValueEncoding value
  if valenc ≤ is.encoding then do
    let (found, _) ← intsetSearch is value
    some found
  else some false

/-- The elements, decoded one after the other with `intsetGet`. -/
def intsetToList (is : Intset) : Option (List ℤ) :=
  (List.range is.length).mapM (intsetGetAt is)

end Intset

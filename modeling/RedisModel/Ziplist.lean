/-
The ziplist operations (`ziplist.c`), on raw memory.

A ziplist is the block `zl`; a pointer into it is an offset.  Every function
returns `none` when the C code would read or write outside the block or fail an
assertion.  `junk` is the content of memory freshly added by `zrealloc`.

The size arguments are 64-bit in the callers and `unsigned int` in
`ziplistResize`, which is where they are truncated.
-/
import RedisModel.ZiplistEntry

open ByteBuffer StringNumber

namespace Ziplist

def ziplistHeaderSize : ℕ := 10

def ziplistBytes (zl : Bytes) : Option ℕ := (slice zl 0 4).map leVal

def ziplistTailOffset (zl : Bytes) : Option ℕ := (slice zl 4 4).map leVal

def ziplistLength (zl : Bytes) : Option ℕ := (slice zl 8 2).map leVal

def setZiplistBytes (zl : Bytes) (v : ℤ) : Option Bytes := store zl 0 (intBytes 4 v)

def setZiplistTailOffset (zl : Bytes) (v : ℤ) : Option Bytes := store zl 4 (intBytes 4 v)

def setZiplistLength (zl : Bytes) (v : ℤ) : Option Bytes := store zl 8 (intBytes 2 v)

/-- `ZIPLIST_INCR_LENGTH`: a count that reached `UINT16_MAX` stays there. -/
def ziplistIncrLength (zl : Bytes) (incr : ℤ) : Option Bytes := do
  let len ← ziplistLength zl
  if len < 65535 then setZiplistLength zl (len + incr) else some zl

def ziplistNew : Bytes :=
  leBytes 4 (ziplistHeaderSize + 1) ++ (leBytes 4 ziplistHeaderSize ++ (leBytes 2 0 ++ [zipEnd]))

section
variable (junk : ℕ → UInt8)

def ziplistResize (zl : Bytes) (len : ℕ) : Option Bytes := do
  let len := len % 2 ^ 32
  let zl := realloc junk zl len
  let zl ← setZiplistBytes zl len
  store zl ((len + 2 ^ 32 - 1) % 2 ^ 32) [zipEnd]

/-- The loop of `__ziplistCascadeUpdate`.  Every round moves on by one entry,
so the number of rounds is bounded by `fuel`, the size of the list. -/
def ziplistCascadeLoop : ℕ → Bytes → ℕ → ℕ → Option Bytes
  | 0, _, _, _ => none
  | fuel + 1, zl, p, curlen => do
    let b ← zl[p]?
    if b = zipEnd then some zl
    else do
      let cur ← zipEntry (zl.drop p)
      let rawlen := (cur.headersize + cur.len) % 2 ^ 32
      let rawlensize := (zipPrevEncodeLength rawlen).length
      let np := p + rawlen
      let b ← zl[np]?
      if b = zipEnd then some zl
      else do
        let next ← zipEntry (zl.drop np)
        if next.prevrawlen = rawlen then some zl
        else if next.prevrawlensize < rawlensize then do
          -- the prevlen field of `next` needs more bytes
          let extra := rawlensize - next.prevrawlensize
          let zl ← ziplistResize junk zl (curlen + extra)
          let tail ← ziplistTailOffset zl
          let zl ← if tail ≠ np then setZiplistTailOffset zl (tail + extra) else some zl
          let zl ← memmove zl (np + rawlensize) (np + next.prevrawlensize)
            (curlen - np - next.prevrawlensize - 1)
          let zl ← store zl np (zipPrevEncodeLength rawlen)
          ziplistCascadeLoop fuel zl np (curlen + extra)
        else if next.prevrawlensize > rawlensize then
          -- shrinking the field is avoided: the length is written in 5 bytes
          store zl np (zipPrevEncodeLengthForceLarge rawlen)
        else store zl np (zipPrevEncodeLength rawlen)

def ziplistCascadeUpdate (zl : Bytes) (p : ℕ) : Option Bytes := do
  let curlen ← ziplistBytes zl
  ziplistCascadeLoop junk zl.length zl p curlen

/-- The loop of `__ziplistDelete` that walks over the entries to delete:
the position after them and their number. -/
def ziplistDeleteWalk (zl : Bytes) : ℕ → ℕ → ℕ → Option (ℕ × ℕ)
  | 0, p, deleted => do
    let _ ← zl[p]?
    some (p, deleted)
  | num + 1, p, deleted => do
    let b ← zl[p]?
    if b = zipEnd then some (p, deleted)
    else do
      let len ← zipRawEntryLength (zl.drop p)
      ziplistDeleteWalk zl num (p + len) (deleted + 1)

/-- Offset of the tail after the entry at `p` changed its size by `nextdiff`:
the tail moves unless that entry is the tail itself. -/
def ziplistFixTail (zl : Bytes) (p : ℕ) (nextdiff : ℤ) : Option Bytes := do
  let tail ← zipEntry (zl.drop p)
  let b ← zl[p + (tail.headersize + tail.len)]?
  if b ≠ zipEnd then do
    let tailoff ← ziplistTailOffset zl
    setZiplistTailOffset zl (tailoff + nextdiff)
  else some zl

/-- `__ziplistDelete`: delete `num` entries, starting at `p`. -/
def ziplistDeleteEntries (zl : Bytes) (p num : ℕ) : Option Bytes := do
  let firstp := p
  let first ← zipEntry (zl.drop firstp)
  let (p, deleted) ← ziplistDeleteWalk zl num firstp 0
  let totlen : ℕ := (p - firstp) % 2 ^ 32
  if totlen > 0 then do
    let b ← zl[p]?
    let (zl, nextdiff) ←
      if b ≠ zipEnd then do
        let nextdiff ← zipPrevLenByteDiff (zl.drop p) first.prevrawlen
        let p := ((p : ℤ) - nextdiff).toNat
        let zl ← store zl p (zipPrevEncodeLength first.prevrawlen)
        let tailoff ← ziplistTailOffset zl
        let zl ← setZiplistTailOffset zl (tailoff - totlen)
        let zl ← ziplistFixTail zl p nextdiff
        let bytes ← ziplistBytes zl
        let zl ← memmove zl firstp p (bytes - p - 1)
        some (zl, nextdiff)
      else do
        let zl ← setZiplistTailOffset zl (firstp - first.prevrawlen)
        some (zl, 0)
    let bytes ← ziplistBytes zl
    let zl ← ziplistResize junk zl ((bytes : ℤ) - totlen + nextdiff).toNat
    let zl ← ziplistIncrLength zl (-deleted)
    if nextdiff ≠ 0 then ziplistCascadeUpdate junk zl firstp else some zl
  else some zl

/-- The size of the entry that precedes the insert position `p`: it is recorded
in the entry at `p`, or is that of the tail when `p` is the end of the list. -/
def ziplistInsertPrevlen (zl : Bytes) (p : ℕ) : Option ℕ := do
  let b ← zl[p]?
  if b ≠ zipEnd then do
    let entry ← zipEntry (zl.drop p)
    some entry.prevrawlen
  else do
    let ptail ← ziplistTailOffset zl
    let b ← zl[ptail]?
    if b ≠ zipEnd then zipRawEntryLength (zl.drop ptail) else some 0

/-- The change in size of the prevlen field of the entry at `p` when it comes to
follow an entry of `reqlen` bytes. -/
def ziplistInsertDiff (zl : Bytes) (p reqlen : ℕ) : Option ℤ := do
  let b ← zl[p]?
  if b ≠ zipEnd then zipPrevLenByteDiff (zl.drop p) (reqlen % 2 ^ 32) else some 0

/-- Make room for `reqlen` bytes at `p` in a list that had `curlen` bytes and was
resized already. -/
def ziplistInsertMove (zl : Bytes) (p curlen reqlen : ℕ) (nextdiff : ℤ) : Option Bytes := do
  let b ← zl[p]?
  if b ≠ zipEnd then do
    let zl ← memmove zl (p + reqlen) ((p : ℤ) - nextdiff).toNat
      ((curlen : ℤ) - p - 1 + nextdiff).toNat
    let zl ← store zl (p + reqlen) (zipPrevEncodeLength (reqlen % 2 ^ 32))
    let tailoff ← ziplistTailOffset zl
    let zl ← setZiplistTailOffset zl (tailoff + reqlen)
    ziplistFixTail zl (p + reqlen) nextdiff
  else setZiplistTailOffset zl p

/-- Write the entry of `s` at `p`. -/
def ziplistInsertWrite (zl : Bytes) (p prevlen : ℕ) (s : Bytes) : Option Bytes := do
  let encoding := contentEncoding s
  let zl ← store zl p (zipPrevEncodeLength prevlen)
  let p := p + (zipPrevEncodeLength prevlen).length
  let zl ← store zl p (zipEncodeLength encoding s.length)
  let p := p + (zipEncodeLength encoding s.length).length
  let content ← contentBytes s
  let zl ← store zl p content
  ziplistIncrLength zl 1

/-- `__ziplistInsert`: insert `s` at `p`. -/
def ziplistInsertEntry (zl : Bytes) (p : ℕ) (s : Bytes) : Option Bytes := do
  let curlen ← ziplistBytes zl
  let prevlen ← ziplistInsertPrevlen zl p
  let reqlen := contentSize s + (zipPrevEncodeLength prevlen).length
    + (zipEncodeLength (contentEncoding s) s.length).length
  let nextdiff ← ziplistInsertDiff zl p reqlen
  let zl ← ziplistResize junk zl ((curlen + reqlen : ℤ) + nextdiff).toNat
  let zl ← ziplistInsertMove zl p curlen reqlen nextdiff
  let zl ← if nextdiff ≠ 0 then ziplistCascadeUpdate junk zl (p + reqlen) else some zl
  ziplistInsertWrite zl p prevlen s

end

/-! ### Reading a list -/

/-- `ziplistNext`: the entry after the one at `p`, if there is one. -/
def ziplistNext (zl : Bytes) (p : ℕ) : Option (Option ℕ) := do
  let b ← zl[p]?
  if b = zipEnd then some none
  else do
    let len ← zipRawEntryLength (zl.drop p)
    let b ← zl[p + len]?
    if b = zipEnd then some none else some (some (p + len))

/-- The texts of the entries from `p` to the end, read with `ziplistGet` and
`ziplistNext`. -/
def ziplistTexts (zl : Bytes) : ℕ → ℕ → Option (List Bytes)
  | 0, _ => none
  | fuel + 1, p => do
    let b ← zl[p]?
    if b = zipEnd then some []
    else do
      let v ← ziplistGet (zl.drop p)
      let len ← zipRawEntryLength (zl.drop p)
      let vs ← ziplistTexts zl fuel (p + len)
      some (v.text :: vs)

/-- Decoding a list head to tail. -/
def ziplistToList (zl : Bytes) : Option (List Bytes) :=
  ziplistTexts zl zl.length ziplistHeaderSize

end Ziplist

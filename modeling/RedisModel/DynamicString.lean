/-
Dynamic strings (`sds.c`).

A string is a header and the bytes behind it, of which `len` belong to the string; the next one is
a zero byte.  The fields of the header are of type `int`, sizes are of type `size_t`.  A function
returns `none` when a byte outside of the allocation is read or written, or when an assertion fails.

* `sdsMakeRoomFor`, `sdsIncrLen`, `sdscatlen`, `sdsgrowzero` — strings that grow;
* `sdscatfmt` — formatted text;
* `sdstrim`, `sdsrange` — parts of strings;
* `sdssplitlen` — tokens.
-/
import RedisModel.StringNumber

open ByteBuffer StringNumber

namespace DynamicString

/-- A number that is converted to an `int`. -/
def toInt (v : ℤ) : ℤ := v.bmod (2 ^ 32)

/-- A number that is converted to a `size_t`. -/
def toSize (v : ℤ) : ℕ := (v % 2 ^ 64).toNat

/-- `sdshdr`, with all bytes that are allocated behind the header. -/
structure Sdshdr where
  len : ℤ
  free : ℤ
  buf : Bytes
  deriving DecidableEq

def sdslen (s : Sdshdr) : ℕ := toSize s.len

def sdsavail (s : Sdshdr) : ℕ := toSize s.free

/-- The bytes of a C string. -/
def cString (s : Bytes) : Bytes := s.takeWhile (· ≠ 0)

/-- A write at an index that may be negative. -/
def writeAt (buf : Bytes) (i : ℤ) (bs : Bytes) : Option Bytes :=
  if 0 ≤ i then store buf i.toNat bs else none

/-! ### Strings that grow -/

/-- `SDS_MAX_PREALLOC`. -/
def maxPrealloc : ℕ := 2 ^ 20

/-- The room for a string that needs `len` bytes. -/
def prealloc (len : ℕ) : ℕ := if len < maxPrealloc then len * 2 else len + maxPrealloc

section
variable (junk : ℕ → UInt8)

def sdsMakeRoomFor (s : Sdshdr) (addlen : ℕ) : Sdshdr :=
  if sdsavail s ≥ addlen then s
  else
    let newlen : ℕ := prealloc ((sdslen s + addlen) % 2 ^ 64) % 2 ^ 64
    { s with free := toInt (newlen - sdslen s), buf := realloc junk s.buf (newlen + 1) }

def sdsIncrLen (s : Sdshdr) (incr : ℤ) : Option Sdshdr :=
  if s.free ≥ incr then
    let len := toInt (s.len + incr)
    let free := toInt (s.free - incr)
    if free ≥ 0 then do
      let buf ← writeAt s.buf len [0]
      some ⟨len, free, buf⟩
    else none
  else none

def sdscatlen (s : Sdshdr) (t : Bytes) : Option Sdshdr := do
  let curlen := sdslen s
  let s := sdsMakeRoomFor junk s t.length
  let buf ← store s.buf curlen t
  let buf ← store buf (curlen + t.length) [0]
  some ⟨toInt (curlen + t.length), toInt (s.free - t.length), buf⟩

/-- `sdsMakeRoomFor`, a write after the end, and `sdsIncrLen`. -/
def appendInPlace (s : Sdshdr) (addlen : ℕ) (t : Bytes) : Option Sdshdr := do
  let oldlen := sdslen s
  let s := sdsMakeRoomFor junk s addlen
  let buf ← store s.buf oldlen t
  sdsIncrLen { s with buf } t.length

def sdsgrowzero (s : Sdshdr) (len : ℕ) : Option Sdshdr :=
  let curlen := toSize s.len
  if len ≤ curlen then some s
  else do
    let s := sdsMakeRoomFor junk s (len - curlen)
    let buf ← store s.buf curlen (List.replicate (len - curlen + 1) 0)
    let totlen := toSize (toInt (s.len + s.free))
    some ⟨toInt len, toInt (totlen - toInt len), buf⟩

/-! ### Formatted text -/

/-- The digits of a number, the last one first. -/
def reversedDigits : ℕ → ℕ → Bytes
  | 0, v => [digitChar (v % 10)]
  | fuel + 1, v => digitChar (v % 10) :: if v / 10 = 0 then [] else reversedDigits fuel (v / 10)

def sdsull2str (v : ℕ) : Bytes := (reversedDigits v v).reverse

def sdsll2str (value : ℤ) : Bytes :=
  (reversedDigits value.natAbs value.natAbs ++ if value < 0 then [45] else []).reverse

/-- The arguments of `sdscatfmt`. -/
inductive FmtArg where
  | cstr (s : Bytes)
  | sds (s : Bytes)
  | int (v : Int32)
  | longLong (v : Int64)
  | uint (v : UInt32)
  | ulongLong (v : UInt64)

/-- The next argument, if it is one for the conversion, as text. -/
def fmtArg (printInt : ℤ → Option Bytes) (printNat : ℕ → Option Bytes) (next : UInt8) :
    List FmtArg → Option (Bytes × List FmtArg)
  | [] => none
  | arg :: args => do
    let str ← match arg with
      | .cstr s => if next = 115 then some (cString s) else none
      | .sds s => if next = 83 then some s else none
      | .int v => if next = 105 then printInt v.toInt else none
      | .longLong v => if next = 73 then printInt v.toInt else none
      | .uint v => if next = 117 then printNat v.toNat else none
      | .ulongLong v => if next = 85 then printNat v.toNat else none
    some (str, args)

/-- The characters after `%` that take an argument. -/
def isConversion (next : UInt8) : Bool := next ∈ [115, 83, 105, 73, 117, 85]

/-- `char buf[SDS_LLSTR_SIZE]`, with the zero byte. -/
def llstrBuf (s : Bytes) : Option Bytes := if s.length + 1 ≤ 21 then some s else none

/-- A string is put at the index `i`. -/
def putString (s : Sdshdr) (i : ℤ) (str : Bytes) : Option (Sdshdr × ℤ) := do
  let s := if toSize s.free < str.length then sdsMakeRoomFor junk s str.length else s
  let buf ← writeAt s.buf i str
  some (⟨toInt (s.len + str.length), toInt (s.free - str.length), buf⟩, toInt (i + str.length))

/-- A byte is put at the index `i`. -/
def putByte (s : Sdshdr) (i : ℤ) (c : UInt8) : Option (Sdshdr × ℤ) := do
  let buf ← writeAt s.buf i [c]
  some (⟨toInt (s.len + 1), toInt (s.free - 1), buf⟩, toInt (i + 1))

/-- The loop of `sdscatfmt`. -/
def catfmtLoop : Sdshdr → ℤ → Bytes → List FmtArg → Option (Sdshdr × ℤ)
  | s, i, [], _ => some (s, i)
  | s, i, c :: f, args =>
    let s := if s.free = 0 then sdsMakeRoomFor junk s 1 else s
    if c = 37 then
      match f with
      | [] => none
      | next :: f =>
        if isConversion next then do
          let (str, args) ← fmtArg (llstrBuf ∘ sdsll2str) (llstrBuf ∘ sdsull2str) next args
          let (s, i) ← putString junk s i str
          catfmtLoop s i f args
        else do
          let (s, i) ← putByte s i next
          catfmtLoop s i f args
    else do
      let (s, i) ← putByte s i c
      catfmtLoop s i f args

def sdscatfmt (s : Sdshdr) (fmt : Bytes) (args : List FmtArg) : Option Sdshdr := do
  let (s, i) ← catfmtLoop junk s (toInt (sdslen s)) (cString fmt) args
  let buf ← writeAt s.buf i [0]
  some { s with buf }

end

/-! ### Parts of strings -/

/-- `strchr` is not `NULL`: it also finds the zero byte at the end. -/
def strchr (cset : Bytes) (c : UInt8) : Bool := (cString cset ++ [0]).contains c

/-- `while(sp <= end && strchr(cset, *sp)) sp++`, with the number of bytes up to the end. -/
def trimLeft (buf cset : Bytes) : ℕ → ℕ → Option ℕ
  | 0, sp => some sp
  | n + 1, sp => do
    let c ← buf[sp]?
    if strchr cset c then trimLeft buf cset n (sp + 1) else some sp

/-- `while(ep > start && strchr(cset, *ep)) ep--`. -/
def trimRight (buf cset : Bytes) : ℕ → Option ℕ
  | 0 => some 0
  | ep + 1 => do
    let c ← buf[ep + 1]?
    if strchr cset c then trimRight buf cset ep else some (ep + 1)

/-- The last byte that is left, as an offset of the start; `end` is the last byte of the string. -/
def trimEnd (buf cset : Bytes) : ℕ → Option ℤ
  | 0 => some (-1)
  | len + 1 => (trimRight buf cset len).map Int.ofNat

def sdstrim (s : Sdshdr) (cset : Bytes) : Option Sdshdr := do
  let sp ← trimLeft s.buf cset (sdslen s) 0
  let ep ← trimEnd s.buf cset (sdslen s)
  let len := if sp > ep then 0 else (ep - sp + 1).toNat
  let moved := if sp ≠ 0 then memmove s.buf 0 sp len else some s.buf
  let buf ← moved
  let buf ← store buf len [0]
  some ⟨toInt len, toInt (s.free + (s.len - len)), buf⟩

/-- An index, which counts from the end if it is negative. -/
def rangeIndex (len : ℕ) (i : ℤ) : ℤ :=
  if i < 0 then if toInt (len + i) < 0 then 0 else toInt (len + i) else i

/-- `(start > end) ? 0 : (end-start)+1`, as a `size_t`. -/
def rangeLength (start stop : ℤ) : ℕ :=
  if start > stop then 0 else toSize (toInt (toInt (stop - start) + 1))

/-- The first byte that is kept, and the number of bytes. -/
def rangePart (len : ℕ) (start stop : ℤ) : ℤ × ℕ :=
  let newlen := rangeLength start stop
  if newlen ≠ 0 then
    if start ≥ toInt len then (start, 0)
    else if stop ≥ toInt len then (start, rangeLength start (toInt (len - 1)))
    else (start, newlen)
  else (0, newlen)

def sdsrange (s : Sdshdr) (start stop : Int32) : Option Sdshdr :=
  let len := sdslen s
  if len = 0 then some s
  else do
    let (start, newlen) :=
      rangePart len (rangeIndex len start.toInt) (rangeIndex len stop.toInt)
    let moved := if start ≠ 0 ∧ newlen ≠ 0 then memmove s.buf 0 start.toNat newlen else some s.buf
    let buf ← moved
    let buf ← store buf newlen [0]
    some ⟨toInt newlen, toInt (s.free + (s.len - newlen)), buf⟩

/-! ### Tokens -/

/-- The array of tokens. -/
structure Tokens where
  slots : ℤ
  elements : List Bytes

/-- `tokens[elements++] = token`. -/
def Tokens.add (t : Tokens) (token : Bytes) : Option Tokens :=
  if t.elements.length < t.slots then some { t with elements := t.elements ++ [token] } else none

/-- There are two free slots.  The allocation fails when the number of them overflows, for then it
is negative, and the size is close to 2^64. -/
def Tokens.reserve (t : Tokens) : Option Tokens :=
  if t.slots < t.elements.length + 2 then
    if toInt (t.slots * 2) < 0 then none else some { t with slots := toInt (t.slots * 2) }
  else some t

/-- The loop of `sdssplitlen` from `j` on, and the last token; `start` is where the token began. -/
def splitLoop (s sep : Bytes) : ℕ → ℕ → ℕ → Tokens → Option Tokens
  | 0, _, _, _ => none
  | fuel + 1, j, start, tokens =>
    if (j : ℤ) < s.length - (sep.length - 1) then do
      let tokens ← tokens.reserve
      if slice s j sep.length = some sep then do
        let token ← slice s start (j - start)
        let tokens ← tokens.add token
        splitLoop s sep fuel (j + sep.length) (j + sep.length) tokens
      else splitLoop s sep fuel (j + 1) start tokens
    else do
      let token ← slice s start (s.length - start)
      tokens.add token

/-- `sdssplitlen`, for a separator that is not empty. -/
def sdssplitlen (s sep : Bytes) : Option (List Bytes) :=
  if s.length = 0 then some []
  else (splitLoop s sep (s.length + 1) 0 0 ⟨5, []⟩).map Tokens.elements

end DynamicString

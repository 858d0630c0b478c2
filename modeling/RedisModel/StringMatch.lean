/-
Glob-style matching (`stringmatchlen`, `util.c`).

The pattern and the string are byte buffers, each followed by one NUL byte, and
are walked by a pointer and the number of bytes that remain, which the code
keeps in step but does not compare.  A read past the NUL is a fault.  The code
also runs in a checked mode, where a remaining length that becomes negative is
a fault as well; unchecked, it goes on with the negative length, as the source
does.  Loops take fuel: with a negative length they need not end.

* `stringmatchlen` — the function;
* `Returns` — what a call returns once it is given enough fuel;
* `tokens` — a pattern read as stars, classes and single bytes;
* `InLanguage` — the strings of a pattern.
-/
import RedisModel.ByteBuffer
import RedisModel.GlobLanguage

namespace StringMatch

open GlobLanguage (Elem Matches)

inductive Fault
  /-- A read past the NUL that follows the buffer. -/
  | outOfBounds
  /-- A remaining length below zero (checked mode only). -/
  | negative
  | outOfFuel
deriving DecidableEq

/-- How the function is called and on what: the `nocase` argument, whether the
platform's `char` is signed, and whether negative lengths are faults. -/
structure Mode where
  nocase : Bool
  signedChar : Bool
  checked : Bool

variable (mode : Mode) (pat str : Bytes)

/-- A `char` read as an `int`. -/
def charInt (c : UInt8) : ℤ := if mode.signedChar then c.toInt8.toInt else c.toNat

/-- `tolower` in the C locale. -/
def tolower (c : ℤ) : ℤ := if 65 ≤ c ∧ c ≤ 90 then c + 32 else c

/-- A pointer into a buffer and the remaining length that goes with it. -/
structure Cursor where
  ptr : ℕ
  len : ℤ
deriving DecidableEq

/-- `p[i]`. -/
def Cursor.read (buf : Bytes) (p : Cursor) (i : ℕ) : Except Fault UInt8 :=
  if p.ptr + i < buf.length then .ok (buf.getD (p.ptr + i) 0)
  else if p.ptr + i = buf.length then .ok 0
  else .error .outOfBounds

/-- `p += n; len -= n`. -/
def Cursor.advance (p : Cursor) (n : ℕ) : Except Fault Cursor :=
  if mode.checked ∧ p.len < n then .error .negative
  else .ok ⟨p.ptr + n, p.len - n⟩

/-- `p--; len++`. -/
def Cursor.back (p : Cursor) : Cursor := ⟨p.ptr - 1, p.len + 1⟩

def Cursor.start (buf : Bytes) : Cursor := ⟨0, buf.length⟩

/-! ### The source -/

/-- The two loops `while (pattern[i] == '*') { pattern++; patternLen--; }`,
with `i = 1` at a star and `i = 0` at the end of the string. -/
def skipStars (i : ℕ) : ℕ → Cursor → Except Fault Cursor
  | 0, _ => .error .outOfFuel
  | fuel + 1, pattern => do
    let c ← pattern.read pat i
    if c = 42 then skipStars i fuel (← pattern.advance mode 1) else .ok pattern

/-- Whether `c` lies in the range `start-end` of a class. -/
def inRange (start stop c : UInt8) : Bool :=
  let lo := min (charInt mode start) (charInt mode stop)
  let hi := max (charInt mode start) (charInt mode stop)
  if mode.nocase then
    tolower lo ≤ tolower (charInt mode c) ∧ tolower (charInt mode c) ≤ tolower hi
  else lo ≤ charInt mode c ∧ charInt mode c ≤ hi

/-- Whether the pattern byte `p` matches the string byte `c`. -/
def sameChar (p c : UInt8) : Bool :=
  if mode.nocase then tolower (charInt mode p) = tolower (charInt mode c) else p = c

/-- The `while(1)` loop of a class.  The last component is `match`. -/
def matchClass (string : Cursor) : ℕ → Cursor → Bool → Except Fault (Cursor × Bool)
  | 0, _, _ => .error .outOfFuel
  | fuel + 1, pattern, found => do
    let c ← pattern.read pat 0
    if c = 92 then
      let pattern ← pattern.advance mode 1
      let p ← pattern.read pat 0
      let s ← string.read str 0
      matchClass string fuel (← pattern.advance mode 1) (found || p = s)
    else if c = 93 then .ok (pattern, found)
    else if pattern.len = 0 then .ok (pattern.back, found)
    else
      let dash ← pattern.read pat 1
      if dash = 45 ∧ 3 ≤ pattern.len then
        let stop ← pattern.read pat 2
        let s ← string.read str 0
        let pattern ← pattern.advance mode 2
        matchClass string fuel (← pattern.advance mode 1) (found || inRange mode c stop s)
      else
        let s ← string.read str 0
        matchClass string fuel (← pattern.advance mode 1) (found || sameChar mode c s)

/-- The branches that consume one byte of the string.  `none` is `return 0`. -/
def matchOne (fuel : ℕ) (pattern string : Cursor) :
    Except Fault (Option (Cursor × Cursor)) := do
  let c ← pattern.read pat 0
  if c = 63 then
    if string.len = 0 then .ok none
    else .ok (some (pattern, ← string.advance mode 1))
  else if c = 91 then
    let pattern ← pattern.advance mode 1
    let caret ← pattern.read pat 0
    let pattern ← (if caret = 94 then pattern.advance mode 1 else .ok pattern)
    let (pattern, found) ← matchClass mode pat str string fuel pattern false
    let found := if caret = 94 then !found else found
    if !found then .ok none
    else .ok (some (pattern, ← string.advance mode 1))
  else
    let pattern ←
      (if c = 92 ∧ 2 ≤ pattern.len then pattern.advance mode 1 else .ok pattern)
    let p ← pattern.read pat 0
    let s ← string.read str 0
    if sameChar mode p s then .ok (some (pattern, ← string.advance mode 1)) else .ok none

/-- The loop `while(stringLen)` at a star, which tries the rest of the pattern
on every suffix of the string. -/
def matchTails (matchRest : Cursor → Except Fault Bool) : ℕ → Cursor → Except Fault Bool
  | 0, _ => .error .outOfFuel
  | fuel + 1, string =>
    if string.len = 0 then .ok false
    else do
      if ← matchRest string then .ok true
      else matchTails matchRest fuel (← string.advance mode 1)

def stringmatchlen : ℕ → Cursor → Cursor → Except Fault Bool
  | 0, _, _ => .error .outOfFuel
  | fuel + 1, pattern, string =>
    if pattern.len = 0 then .ok (pattern.len = 0 ∧ string.len = 0 : Bool)
    else do
      let c ← pattern.read pat 0
      if c = 42 then
        let pattern ← skipStars mode pat 1 fuel pattern
        if pattern.len = 1 then .ok true
        else
          let rest ← pattern.advance mode 1
          matchTails mode (stringmatchlen fuel rest) fuel string
      else
        match ← matchOne mode pat str fuel pattern string with
        | none => .ok false
        | some (pattern, string) =>
          let pattern ← pattern.advance mode 1
          if string.len = 0 then
            let pattern ← skipStars mode pat 0 fuel pattern
            .ok (pattern.len = 0 ∧ string.len = 0 : Bool)
          else stringmatchlen fuel pattern string

/-- The call `stringmatchlen(pattern,patternLen,string,stringLen,nocase)` comes
to the result `r`, given enough fuel. -/
def Returns (r : Except Fault Bool) : Prop :=
  ∃ n, ∀ fuel, n ≤ fuel →
    stringmatchlen mode pat str fuel (.start pat) (.start str) = r

/-! ### Patterns -/

/-- A member of a class. -/
inductive Item
  | byte (c : UInt8)
  | escaped (c : UInt8)
  | range (start stop : UInt8)
deriving DecidableEq

inductive Token
  | star
  | any
  | byte (c : UInt8)
  | cls (neg : Bool) (items : List Item)
  /-- A class that the pattern leaves open right after a backslash. -/
  | dangling (neg : Bool) (items : List Item)
deriving DecidableEq

/-- What a class consists of: its members, whether it ends in the middle of an
escape, and the pattern after it. -/
structure ClassText where
  items : List Item
  dangling : Bool
  rest : Bytes
deriving DecidableEq

def ClassText.add (i : Item) (t : ClassText) : ClassText := { t with items := i :: t.items }

/-- Reads a class from behind its `[` or `[^`, up to its `]` or, for lack of
one, to the end of the pattern. -/
def classText : Bytes → ClassText
  | [] => ⟨[], false, []⟩
  | [c] =>
    if c = 92 then ⟨[], true, []⟩
    else if c = 93 then ⟨[], false, []⟩
    else ⟨[.byte c], false, []⟩
  | [c, d] =>
    if c = 92 then ⟨[.escaped d], false, []⟩
    else if c = 93 then ⟨[], false, [d]⟩
    else (classText [d]).add (.byte c)
  | c :: d :: e :: p =>
    if c = 92 then (classText (e :: p)).add (.escaped d)
    else if c = 93 then ⟨[], false, d :: e :: p⟩
    else if d = 45 then (classText p).add (.range c e)
    else (classText (d :: e :: p)).add (.byte c)

def classToken (neg : Bool) (t : ClassText) : Token :=
  if t.dangling then .dangling neg t.items else .cls neg t.items

/-- The first token of a pattern that starts with `c`, and what follows it. -/
def nextToken (c : UInt8) (p : Bytes) : Token × Bytes :=
  if c = 42 then (.star, p)
  else if c = 63 then (.any, p)
  else if c = 91 then
    if p.head? = some 94 then
      (classToken true (classText p.tail), (classText p.tail).rest)
    else (classToken false (classText p), (classText p).rest)
  else if c = 92 then
    match p with
    | [] => (.byte 92, [])
    | d :: p => (.byte d, p)
  else (.byte c, p)

/-- The tokens of a pattern; every token takes at least one byte. -/
def tokensFrom : ℕ → Bytes → List Token
  | 0, _ => []
  | _ + 1, [] => []
  | n + 1, c :: p => (nextToken c p).1 :: tokensFrom n (nextToken c p).2

def tokens (p : Bytes) : List Token := tokensFrom p.length p

/-! ### The language of a pattern -/

/-- Whether a member of a class covers a byte.  An escaped byte stands for
itself in either case mode. -/
def Item.covers (c : UInt8) : Item → Bool
  | .byte b => sameChar mode b c
  | .escaped b => b = c
  | .range start stop => inRange mode start stop c

/-- Whether a token covers a byte.  A backslash that quotes nothing stands for
itself. -/
def Token.covers (c : UInt8) : Token → Bool
  | .star => false
  | .any => true
  | .byte b => sameChar mode b c
  | .cls neg items => neg != items.any (Item.covers mode c)
  | .dangling neg items => neg != (items ++ [Item.escaped 92]).any (Item.covers mode c)

def Token.elem : Token → Elem UInt8
  | .star => .star
  | t => .one fun c => t.covers mode c

/-- `s` belongs to the language of the pattern `p`. -/
def InLanguage (p s : Bytes) : Prop := Matches ((tokens p).map (Token.elem mode)) s

end StringMatch

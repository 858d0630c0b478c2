/-
Bit operations on strings (`bitops.c`).

* `redisPopcount`, `redisBitpos` — how many bits are set, and where the first one is;
* `bitcountCommand`, `bitposCommand` — the same in a range of a string;
* `bitop` — the loops of `bitopCommand`.

The memory an access may touch is a list, so a list that has been read up is the end of the
string; `addr` is the address of its first byte.  Words are little endian.
-/
import RedisModel.StringObject

open ByteBuffer

namespace Bitops

/-! ### `redisPopcount` -/

/-- The table of `redisPopcount`. -/
def bitsinbyte : List ℕ := [
  0, 1, 1, 2, 1, 2, 2, 3, 1, 2, 2, 3, 2, 3, 3, 4, 1, 2, 2, 3, 2, 3, 3, 4, 2, 3, 3, 4, 3, 4, 4, 5,
  1, 2, 2, 3, 2, 3, 3, 4, 2, 3, 3, 4, 3, 4, 4, 5, 2, 3, 3, 4, 3, 4, 4, 5, 3, 4, 4, 5, 4, 5, 5, 6,
  1, 2, 2, 3, 2, 3, 3, 4, 2, 3, 3, 4, 3, 4, 4, 5, 2, 3, 3, 4, 3, 4, 4, 5, 3, 4, 4, 5, 4, 5, 5, 6,
  2, 3, 3, 4, 3, 4, 4, 5, 3, 4, 4, 5, 4, 5, 5, 6, 3, 4, 4, 5, 4, 5, 5, 6, 4, 5, 5, 6, 5, 6, 6, 7,
  1, 2, 2, 3, 2, 3, 3, 4, 2, 3, 3, 4, 3, 4, 4, 5, 2, 3, 3, 4, 3, 4, 4, 5, 3, 4, 4, 5, 4, 5, 5, 6,
  2, 3, 3, 4, 3, 4, 4, 5, 3, 4, 4, 5, 4, 5, 5, 6, 3, 4, 4, 5, 4, 5, 5, 6, 4, 5, 5, 6, 5, 6, 6, 7,
  2, 3, 3, 4, 3, 4, 4, 5, 3, 4, 4, 5, 4, 5, 5, 6, 3, 4, 4, 5, 4, 5, 5, 6, 4, 5, 5, 6, 5, 6, 6, 7,
  3, 4, 4, 5, 4, 5, 5, 6, 4, 5, 5, 6, 5, 6, 6, 7, 4, 5, 5, 6, 5, 6, 6, 7, 5, 6, 6, 7, 6, 7, 7, 8]

/-- The bits of a byte according to the table. -/
def bitsOf (b : UInt8) : ℕ := bitsinbyte.getD b.toNat 0

/-- The bits of a word of 32 bits. -/
def swar (aux : BitVec 32) : BitVec 32 :=
  let aux := aux - ((aux >>> 1) &&& 0x55555555)
  let aux := (aux &&& 0x33333333) + ((aux >>> 2) &&& 0x33333333)
  (((aux + (aux >>> 4)) &&& 0x0F0F0F0F) * 0x01010101) >>> 24

/-- The `uint32_t` at byte `i`. -/
def word32 (p : Bytes) (i : ℕ) : BitVec 32 := BitVec.ofNat 32 (leVal ((p.drop i).take 4))

/-- The first loop: up to the first byte that is aligned to four bytes. -/
def countUnaligned : ℕ → Bytes → ℕ → Bytes × ℕ
  | _, [], bits => ([], bits)
  | addr, b :: p, bits =>
    if addr &&& 3 ≠ 0 then countUnaligned (addr + 1) p (bits + bitsOf b) else (b :: p, bits)

/-- The second loop: 16 bytes at a time. -/
def countWords (p : Bytes) (bits : ℕ) : Bytes × ℕ :=
  if 16 ≤ p.length then
    countWords (p.drop 16)
      (bits + (swar (word32 p 0) + swar (word32 p 4) + swar (word32 p 8) + swar (word32 p 12)).toNat)
  else (p, bits)
termination_by p.length
decreasing_by
  rw [List.length_drop]
  omega

/-- `redisPopcount`.  `bits` is a `size_t`, so it is taken modulo 2^64 at the end. -/
def redisPopcount (addr : ℕ) (s : Bytes) : ℕ :=
  let (p, bits) := countUnaligned addr s 0
  let (p, bits) := countWords p bits
  p.foldl (fun bits b => bits + bitsOf b) bits % 2 ^ 64

/-! ### `redisBitpos` -/

/-- The first loop: bytes that are not aligned to eight bytes. -/
def skipBytes (skipval : UInt8) : ℕ → Bytes → ℤ → Bytes × ℤ
  | _, [], pos => ([], pos)
  | addr, b :: c, pos =>
    if addr &&& 7 ≠ 0 then
      if b ≠ skipval then (b :: c, pos) else skipBytes skipval (addr + 1) c (pos + 8)
    else (b :: c, pos)

/-- The `unsigned long` that `c` begins with. -/
def word64 (c : Bytes) : BitVec 64 := BitVec.ofNat 64 (leVal (c.take 8))

/-- The second loop: words. -/
def skipWords (skipval : BitVec 64) (c : Bytes) (pos : ℤ) : Bytes × ℤ :=
  if 8 ≤ c.length then
    if word64 c ≠ skipval then (c, pos) else skipWords skipval (c.drop 8) (pos + 64)
  else (c, pos)
termination_by c.length
decreasing_by
  rw [List.length_drop]
  omega

/-- The third loop: the next bytes, the first one being the most significant. -/
def loadWord : ℕ → Bytes → BitVec 64 → BitVec 64
  | 0, _, word => word
  | n + 1, [], word => loadWord n [] (word <<< 8)
  | n + 1, b :: c, word => loadWord n c ((word <<< 8) ||| b.toBitVec.setWidth 64)

/-- The last loop; `none` is the panic after it. -/
def scanWord (bit : Bool) (word : BitVec 64) : ℕ → BitVec 64 → ℤ → Option ℤ
  | 0, _, _ => none
  | fuel + 1, one, pos =>
    if one = 0 then none
    else if decide (one &&& word ≠ 0) = bit then some pos
    else scanWord bit word fuel (one >>> 1) (pos + 1)

def redisBitpos (addr : ℕ) (s : Bytes) (bit : Bool) : Option ℤ :=
  let (c, pos) := skipBytes (if bit then 0 else 255) addr s 0
  let (c, pos) := skipWords (if bit then 0 else BitVec.allOnes 64) c pos
  let word := loadWord 8 c 0
  if bit ∧ word = 0 then some (-1)
  else scanWord bit word 65 (~~~ (BitVec.allOnes 64 >>> 1)) pos

/-! ### BITCOUNT and BITPOS -/

/-- The ends of a range: negative ones count from the end of the string, and both are moved into
the string. -/
def clampRange (strlen start stop : ℤ) : ℤ × ℤ :=
  let start := if start < 0 then toLong (strlen + start) else start
  let stop := if stop < 0 then toLong (strlen + stop) else stop
  let start := if start < 0 then 0 else start
  let stop := if stop < 0 then 0 else stop
  (start, if stop ≥ strlen then strlen - 1 else stop)

/-- The bytes from `start` to `stop`. -/
def rangeBytes (s : Bytes) (start stop : ℤ) : Option Bytes :=
  slice s start.toNat (toLong (toLong (stop - start) + 1)).toNat

/-- The end of `bitcountCommand`; `none` is an access outside of the string. -/
def countRange (addr : ℕ) (s : Bytes) (range : ℤ × ℤ) : Option StringReply :=
  if range.1 > range.2 then some .czero
  else do
    let p ← rangeBytes s range.1 range.2
    some (.integer (toLong (redisPopcount (addr + range.1.toNat) p)))

/-- `bitcountCommand`, of the object of a key and the arguments after the key; `addr` is the
address of the string. -/
def bitcountCommand (addr : ℕ) (o : Option Robj) (args : List Bytes) : Option StringReply :=
  match o with
  | none => some .czero
  | some o =>
    match o.text with
    | none => some .wrongtypeerr
    | some s =>
      match args with
      | [a, b] =>
        match getLongFromObjectOrReply a, getLongFromObjectOrReply b with
        | .error e, _ => some e
        | .ok _, .error e => some e
        | .ok start, .ok stop => countRange addr s (clampRange s.length start stop)
      | [] => countRange addr s (0, s.length - 1)
      | _ => some .syntaxerr

/-- The end of `bitposCommand`. -/
def posRange (addr : ℕ) (s : Bytes) (bit : ℤ) (range : ℤ × ℤ) (endGiven : Bool) :
    Option StringReply :=
  if range.1 > range.2 then some (.integer (-1))
  else do
    let bytes := toLong (toLong (range.2 - range.1) + 1)
    let p ← rangeBytes s range.1 range.2
    let pos ← redisBitpos (addr + range.1.toNat) p (decide (bit = 1))
    if endGiven ∧ bit = 0 ∧ pos = toLong (bytes * 8) then some (.integer (-1))
    else if pos ≠ -1 then some (.integer (toLong (pos + toLong (range.1 * 8))))
    else some (.integer pos)

/-- `bitposCommand`, with the arguments after the key; at least one is there. -/
def bitposCommand (addr : ℕ) (o : Option Robj) (args : List Bytes) : Option StringReply :=
  match getLongFromObjectOrReply (args.headD []) with
  | .error e => some e
  | .ok bit =>
    if bit ≠ 0 ∧ bit ≠ 1 then some (.error "-ERR The bit argument must be 1 or 0.\r\n")
    else
      match o with
      | none => some (.integer (if bit ≠ 0 then -1 else 0))
      | some o =>
        match o.text with
        | none => some .wrongtypeerr
        | some s =>
          match args.tail with
          | [a] =>
            match getLongFromObjectOrReply a with
            | .error e => some e
            | .ok start => posRange addr s bit (clampRange s.length start (s.length - 1)) false
          | [a, b] =>
            match getLongFromObjectOrReply a, getLongFromObjectOrReply b with
            | .error e, _ => some e
            | .ok _, .error e => some e
            | .ok start, .ok stop => posRange addr s bit (clampRange s.length start stop) true
          | [] => posRange addr s bit (0, s.length - 1) false
          | _ => some .syntaxerr

end Bitops

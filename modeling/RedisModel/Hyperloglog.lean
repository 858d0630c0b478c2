/-
HyperLogLogs, on the bytes of their strings.

A HyperLogLog is a string of a header of 16 bytes and 16384 registers, which are either packed
into six bits each (dense) or run-length encoded by opcodes (sparse).  A string is followed in
memory by a zero byte, which the code reads and writes too.  A function returns `none` when the
C code would read or write outside of the string and this byte, or fail an `assert`.

* `hllDenseAdd`, `hllSparseToDense`, `hllSparseAdd`, `hllMerge` — the representations;
* `pfaddCommand`, `pfcountCommand`, `pfmergeCommand` — the commands.

The hash function is the parameter `hash`, the estimate is the parameter `estimate`, a function
of the registers, and `junk` is the content of memory that was just allocated.
-/
import RedisModel.PackedFields
import Mathlib.Logic.Function.Basic

open ByteBuffer PackedFields

namespace Hyperloglog

def hllRegisters : ℕ := 16384

def hllBits : ℕ := 6

def hllHdrSize : ℕ := 16

/-- The bytes of the registers in the dense representation. -/
def denseBytes : ℕ := (hllRegisters * hllBits + 7) / 8

def hllDenseSize : ℕ := hllHdrSize + denseBytes

def hllDense : UInt8 := 0

def hllSparse : UInt8 := 1

def magic : Bytes := [72, 89, 76, 76]

/-! ### Header -/

/-- The flag of `HLL_VALID_CACHE` in `card[0]`. -/
def cacheFlag : UInt8 := 0x80

/-- `HLL_INVALIDATE_CACHE`. -/
def invalidateCache (s : Bytes) : Option Bytes := do
  let b ← s[8]?
  some (s.set 8 (b ||| cacheFlag))

/-- `HLL_VALID_CACHE`. -/
def validCache (s : Bytes) : Option Bool := (s[8]?).map fun b => b &&& cacheFlag = 0

/-! ### Elements -/

/-- The loop of `hllPatLen`: `count` grows until the next bit is set. -/
def patLenLoop (hash : BitVec 64) : ℕ → BitVec 64 → ℕ → ℕ
  | 0, _, count => count
  | fuel + 1, bit, count =>
    if hash &&& bit = 0 then patLenLoop hash fuel (bit <<< 1) (count + 1) else count

/-- The count of `hllPatLen`.  Bit 63 is set, so the loop ends there. -/
def patLen (hash : BitVec 64) : ℕ := patLenLoop (hash ||| 1#64 <<< 63) 50 (1#64 <<< 14) 1

/-- `hllPatLen`: the register and the count of an element. -/
def hllPatLen (hash : Bytes → BitVec 64) (ele : Bytes) : ℕ × ℕ :=
  ((hash ele).toNat &&& (hllRegisters - 1), patLen (hash ele))

/-! ### Dense representation -/

/-- `HLL_DENSE_GET_REGISTER`. -/
def denseGetRegister (m : Bytes) (regnum : ℕ) : Option ℕ := getField hllBits hllHdrSize m regnum

/-- `HLL_DENSE_SET_REGISTER`. -/
def denseSetRegister (m : Bytes) (regnum val : ℕ) : Option Bytes :=
  setField hllBits hllHdrSize m regnum val

/-- `hllDenseAdd`, with the result of `hllPatLen`. -/
def hllDenseAdd (s : Bytes) (index count : ℕ) : Option (Bytes × ℤ) := do
  let m := s ++ [0]
  let oldcount ← denseGetRegister m index
  if count > oldcount then do
    let m ← denseSetRegister m index count
    some (m.take s.length, 1)
  else some (s, 0)

/-! ### Sparse representation -/

/-- `HLL_SPARSE_VAL_MAX_VALUE`. -/
def valMaxValue : ℕ := 32

/-- `HLL_SPARSE_VAL_MAX_LEN`. -/
def valMaxLen : ℕ := 4

/-- `HLL_SPARSE_ZERO_MAX_LEN`. -/
def zeroMaxLen : ℕ := 64

/-- `HLL_SPARSE_XZERO_MAX_LEN`. -/
def xzeroMaxLen : ℕ := 16384

inductive Opcode where
  | zero (len : ℕ)
  | xzero (len : ℕ)
  | val (value len : ℕ)
  deriving DecidableEq, Repr

namespace Opcode

/-- The run length. -/
def len : Opcode → ℕ
  | zero n | xzero n | val _ n => n

/-- The value of the registers of the run. -/
def value : Opcode → ℕ
  | zero _ | xzero _ => 0
  | val v _ => v

/-- What `HLL_SPARSE_ZERO_SET`, `HLL_SPARSE_XZERO_SET` and `HLL_SPARSE_VAL_SET` write. -/
def bytes : Opcode → Bytes
  | zero n => [UInt8.ofNat (n - 1)]
  | xzero n => [UInt8.ofNat ((n - 1) >>> 8 ||| 0x40), UInt8.ofNat ((n - 1) &&& 0xff)]
  | val v n => [UInt8.ofNat ((v - 1) <<< 2 ||| (n - 1) ||| 0x80)]

end Opcode

/-- The opcode at `p` and the number of its bytes. -/
def readOpcode (m : Bytes) (p : ℕ) : Option (Opcode × ℕ) := do
  let b ← m[p]?
  if b.toNat &&& 0xc0 = 0 then some (.zero ((b.toNat &&& 0x3f) + 1), 1)
  else if b.toNat &&& 0xc0 = 0x40 then do
    let b1 ← m[p + 1]?
    some (.xzero (((b.toNat &&& 0x3f) <<< 8 ||| b1.toNat) + 1), 2)
  else some (.val ((b.toNat >>> 2 &&& 0x1f) + 1) ((b.toNat &&& 0x3) + 1), 1)

/-- The loop over all opcodes that `hllSparseToDense`, `hllSparseSum` and `hllMerge` share. -/
def sparseLoop {σ : Type} (step : σ → Opcode → Option σ) (m : Bytes) (last : ℕ) :
    ℕ → ℕ → σ → Option σ
  | 0, _, _ => none
  | fuel + 1, p, st =>
    if p < last then do
      let (op, size) ← readOpcode m p
      let st ← step st op
      sparseLoop step m last fuel (p + size) st
    else some st

/-- The loop over the opcodes of a string. -/
def sparseScan {σ : Type} (step : σ → Opcode → Option σ) (s : Bytes) (st : σ) : Option σ :=
  sparseLoop step (s ++ [0]) s.length (s.length + 1) hllHdrSize st

/-- A run is written to the dense registers from `idx` on. -/
def denseSetRun (val : ℕ) : ℕ → Bytes → ℕ → Option Bytes
  | 0, m, _ => some m
  | runlen + 1, m, idx => do
    let m ← denseSetRegister m idx val
    denseSetRun val runlen m (idx + 1)

/-- The sum of two numbers of type `int`, of which the lower 32 bits are kept. -/
def intAdd (a b : ℕ) : ℕ := (a + b) % 2 ^ 32

/-- One opcode in `hllSparseToDense`. -/
def toDenseStep : Bytes × ℕ → Opcode → Option (Bytes × ℕ)
  | (m, idx), .zero n | (m, idx), .xzero n => some (m, intAdd idx n)
  | (m, idx), .val v n => do
    let m ← denseSetRun v n m idx
    some (m, intAdd idx n)

/-- `hllSparseToDense`; the inner `none` is `REDIS_ERR`. -/
def hllSparseToDense (s : Bytes) : Option (Option Bytes) := do
  let encoding ← s[4]?
  if encoding = hllDense then some (some s)
  else do
    let hdr ← slice s 0 hllHdrSize
    let dense := hdr.set 4 hllDense ++ List.replicate denseBytes 0 ++ [0]
    let (dense, idx) ← sparseScan toDenseStep s (dense, 0)
    if idx ≠ hllRegisters then some none else some (some (dense.take hllDenseSize))

/-- What step 1 of `hllSparseAdd` finds: the opcode at `p` covers `span` registers from `first`
on. -/
structure Located where
  p : ℕ
  prev : Option ℕ
  first : ℕ
  span : ℕ

/-- Step 1 of `hllSparseAdd`. -/
def locateLoop (m : Bytes) (last index : ℕ) : ℕ → Located → Option Located
  | 0, _ => none
  | fuel + 1, l =>
    if l.p < last then do
      let (op, oplen) ← readOpcode m l.p
      if index < l.first + op.len then some { l with span := op.len }
      else locateLoop m last index fuel ⟨l.p + oplen, some l.p, l.first + op.len, op.len⟩
    else some l

/-- A run of zeroes in step 2 of `hllSparseAdd`. -/
def zeroRun (len : ℕ) : Opcode := if len > zeroMaxLen then .xzero len else .zero len

/-- The opcodes that step 2 of `hllSparseAdd` splits an opcode into. -/
def splitOpcode (op : Opcode) (first span index count : ℕ) : List Opcode :=
  let run : ℕ → Opcode := match op with
    | .zero _ | .xzero _ => zeroRun
    | .val curval _ => .val curval
  let last := first + span - 1
  (if index ≠ first then [run (index - first)] else []) ++ [.val count 1] ++
    (if index ≠ last then [run (last - index)] else [])

/-- The bytes of opcodes. -/
def opcodeBytes (ops : List Opcode) : Bytes := ops.flatMap Opcode.bytes

/-- What is on the right of the old sequence is moved, if there is anything and it has to. -/
def moveTail (m : Bytes) (len next oldlen seqlen : ℕ) : Option Bytes :=
  if seqlen ≠ oldlen ∧ next < len then memmove m (next + seqlen - oldlen) next (len - next)
  else some m

/-- Step 3 of `hllSparseAdd`: the new sequence takes the place of `oldlen` bytes at `p`. -/
def substitute (m : Bytes) (len p oldlen : ℕ) (seq : Bytes) : Option Bytes := do
  let m ← moveTail m len (p + oldlen) oldlen seq.length
  let m ← store m (len + seq.length - oldlen) [0]
  store m p seq

/-- The loop of step 4 of `hllSparseAdd`, which merges neighbours. -/
def mergeLoop : ℕ → Bytes → ℕ → ℕ → Option (Bytes × ℕ)
  | 0, m, len, _ => some (m, len)
  | scanlen + 1, m, len, p =>
    if p < len then do
      let (op, size) ← readOpcode m p
      match op with
      | .zero _ | .xzero _ => mergeLoop scanlen m len (p + size)
      | .val v1 n1 =>
        if p + 1 < len then do
          let (op, _) ← readOpcode m (p + 1)
          match op with
          | .val v2 n2 =>
            if v1 = v2 ∧ n1 + n2 ≤ valMaxLen then do
              let m ← store m (p + 1) (Opcode.val v1 (n1 + n2)).bytes
              let m ← memmove m p (p + 1) (len - p)
              let m ← store m (len - 1) [0]
              mergeLoop scanlen m (len - 1) p
            else mergeLoop scanlen m len (p + 1)
          | .zero _ | .xzero _ => mergeLoop scanlen m len (p + 1)
        else mergeLoop scanlen m len (p + 1)
    else some (m, len)

/-- Step 4 of `hllSparseAdd` and its end. -/
def updated (m : Bytes) (len : ℕ) (prev : Option ℕ) : Option (Bytes × ℤ) := do
  let (m, len) ← mergeLoop 5 m len (prev.getD hllHdrSize)
  let s ← invalidateCache (m.take len)
  some (s, 1)

/-- The label `promote` of `hllSparseAdd`. -/
def promote (s : Bytes) (index count : ℕ) : Option (Bytes × ℤ) := do
  match ← hllSparseToDense s with
  | none => some (s, -1)
  | some s => do
    let (s, retval) ← hllDenseAdd s index count
    if retval = 1 then some (s, retval) else none

/-- Case D of `hllSparseAdd`: the opcode at `l.p`, of `oldlen` bytes, is split. -/
def splitRun (maxBytes : ℕ) (s grown : Bytes) (l : Located) (op : Opcode) (oldlen index count : ℕ) :
    Option (Bytes × ℤ) := do
  let seq := opcodeBytes (splitOpcode op l.first l.span index count)
  if seq.length > oldlen ∧ s.length + (seq.length - oldlen) > maxBytes then promote s index count
  else do
    let m ← substitute grown s.length l.p oldlen seq
    updated m (s.length + seq.length - oldlen) l.prev

/-- Cases B and C of `hllSparseAdd`: the opcode at `l.p` is overwritten. -/
def setSingle (s grown : Bytes) (l : Located) (count : ℕ) : Option (Bytes × ℤ) := do
  let m ← store grown l.p (Opcode.val count 1).bytes
  updated m s.length l.prev

/-- `hllSparseAdd`, with the result of `hllPatLen`. -/
def hllSparseAdd (junk : ℕ → UInt8) (maxBytes : ℕ) (s : Bytes) (index count : ℕ) :
    Option (Bytes × ℤ) :=
  if count > valMaxValue then promote s index count
  else do
    let m := s ++ [0]
    let l ← locateLoop m s.length index (s.length + 1) ⟨hllHdrSize, none, 0, 0⟩
    if l.span = 0 then some (s, -1)
    else do
      let (op, oldlen) ← readOpcode m l.p
      -- `sdsMakeRoomFor` for three more bytes.
      let grown := realloc junk m (s.length + 4)
      match op with
      | .val oldcount runlen =>
        if oldcount ≥ count then some (s, 0)
        else if runlen = 1 then setSingle s grown l count
        else splitRun maxBytes s grown l op oldlen index count
      | .zero runlen =>
        if runlen = 1 then setSingle s grown l count
        else splitRun maxBytes s grown l op oldlen index count
      | .xzero _ => splitRun maxBytes s grown l op oldlen index count

def hllAdd (hash : Bytes → BitVec 64) (junk : ℕ → UInt8) (maxBytes : ℕ) (s ele : Bytes) :
    Option (Bytes × ℤ) := do
  let (index, count) := hllPatLen hash ele
  let encoding ← s[4]?
  if encoding = hllDense then hllDenseAdd s index count
  else if encoding = hllSparse then hllSparseAdd junk maxBytes s index count
  else some (s, -1)

/-! ### Registers -/

/-- `max[i]` is set to the larger value. -/
def maxAt (max : List ℕ) (i val : ℕ) : Option (List ℕ) := do
  let old ← max[i]?
  some (if val > old then max.set i val else max)

/-- The loop of `hllMerge` over the dense registers from `i` on. -/
def denseMergeLoop (m : Bytes) : ℕ → List ℕ → ℕ → Option (List ℕ)
  | 0, max, _ => some max
  | n + 1, max, i => do
    let val ← denseGetRegister m i
    let max ← maxAt max i val
    denseMergeLoop m n max (i + 1)

/-- A run is merged into the registers from `i` on. -/
def mergeRun (val : ℕ) : ℕ → List ℕ → ℕ → Option (List ℕ)
  | 0, max, _ => some max
  | runlen + 1, max, i => do
    let max ← maxAt max i val
    mergeRun val runlen max (i + 1)

/-- One opcode in `hllMerge`. -/
def mergeStep : List ℕ × ℕ → Opcode → Option (List ℕ × ℕ)
  | (max, i), .zero n | (max, i), .xzero n => some (max, intAdd i n)
  | (max, i), .val v n => do
    let max ← mergeRun v n max i
    some (max, intAdd i n)

/-- `hllMerge`; the inner `none` is `REDIS_ERR`. -/
def hllMerge (max : List ℕ) (s : Bytes) : Option (Option (List ℕ)) := do
  let encoding ← s[4]?
  if encoding = hllDense then do
    let max ← denseMergeLoop (s ++ [0]) hllRegisters max 0
    some (some max)
  else do
    let (max, i) ← sparseScan mergeStep s (max, 0)
    if i ≠ hllRegisters then some none else some (some max)

/-- One opcode in `hllSparseSum`, with the registers that it goes through. -/
def sumStep : List ℕ × ℕ → Opcode → Option (List ℕ × ℕ)
  | (regs, idx), op => some (regs ++ List.replicate op.len op.value, intAdd idx op.len)

/-- The registers that `hllCount` goes through; the inner `none` is `invalid`. -/
def hllCountRegisters (s : Bytes) : Option (Option (List ℕ)) := do
  let encoding ← s[4]?
  if encoding = hllDense then do
    let regs ← (List.range hllRegisters).mapM (denseGetRegister (s ++ [0]))
    some (some regs)
  else if encoding = hllSparse then do
    let (regs, idx) ← sparseScan sumStep s ([], 0)
    if idx ≠ hllRegisters then some none else some (some regs)
  else none

/-! ### Commands -/

/-- The value of a key: a string, or something else. -/
inductive Value where
  | string (s : Bytes)
  | other

/-- What the commands read and write: the keys, `server.dirty`, and the keys that
`signalModifiedKey` was called with, the last one first. -/
structure Server (K : Type) where
  db : K → Option Value
  dirty : ℕ
  signals : List K

inductive Reply where
  | integer (n : ℤ)
  | ok
  | error (message : String)
  deriving DecidableEq, Repr

def invalidHllErr : Reply := .error "-INVALIDOBJ Corrupted HLL object detected\r\n"

def wrongtypeerr : Reply :=
  .error "-WRONGTYPE Operation against a key holding the wrong kind of value\r\n"

def notHllErr : Reply :=
  .error "-WRONGTYPE Key is not a valid HyperLogLog string value.\r\n"

/-- The checks of `isHLLObjectOrReply` on a string. -/
def isHLLObject (s : Bytes) : Bool :=
  hllHdrSize ≤ s.length ∧ s.take 4 = magic ∧ (s[4]? = some hllDense ∨ s[4]? = some hllSparse) ∧
    (s[4]? = some hllDense → s.length = hllDenseSize)

def isHLLObjectOrReply : Value → Except Reply Bytes
  | .other => .error wrongtypeerr
  | .string s => if isHLLObject s then .ok s else .error notHllErr

def createHLLObject : Bytes :=
  magic ++ hllSparse :: List.replicate 11 0 ++ (Opcode.xzero hllRegisters).bytes

section
variable {K : Type} [DecidableEq K]

/-- A key is set to a string. -/
def Server.setString (w : Server K) (key : K) (s : Bytes) : Server K :=
  { w with db := Function.update w.db key (some (.string s)) }

/-- `signalModifiedKey` and `server.dirty++`. -/
def Server.touch (w : Server K) (key : K) : Server K :=
  { w with dirty := w.dirty + 1, signals := key :: w.signals }

section
variable (hash : Bytes → BitVec 64) (junk : ℕ → UInt8) (maxBytes : ℕ)

/-- The loop of `pfaddCommand`: the string, the number of updates, and whether there was an
error. -/
def pfaddLoop : List Bytes → Bytes → ℕ → Option (Bytes × ℕ × Bool)
  | [], s, n => some (s, n, false)
  | ele :: eles, s, n => do
    let (s, retval) ← hllAdd hash junk maxBytes s ele
    if retval = 1 then pfaddLoop eles s (n + 1)
    else if retval = -1 then some (s, n, true)
    else pfaddLoop eles s n

def pfaddCommand (w : Server K) (key : K) (eles : List Bytes) : Option (Server K × Reply) :=
  let run (s : Bytes) (created : ℕ) : Option (Server K × Reply) := do
    let (s, n, failed) ← pfaddLoop hash junk maxBytes eles s created
    if failed then some (w.setString key s, invalidHllErr)
    else if n ≠ 0 then do
      let s ← invalidateCache s
      some ((w.setString key s).touch key, .integer 1)
    else some (w.setString key s, .integer 0)
  match w.db key with
  | none => run createHLLObject 1
  | some o => match isHLLObjectOrReply o with
    | .error e => some (w, e)
    | .ok s => run s 0

end

/-- The loop of `pfmergeCommand` and of `pfcountCommand` with several keys. -/
def mergeKeys (w : Server K) : List K → List ℕ → Option (Except Reply (List ℕ))
  | [], max => some (.ok max)
  | key :: keys, max =>
    match w.db key with
    | none => mergeKeys w keys max
    | some o => match isHLLObjectOrReply o with
      | .error e => some (.error e)
      | .ok s => do
        match ← hllMerge max s with
        | none => some (.error invalidHllErr)
        | some max => mergeKeys w keys max

/-- The registers that are all zero. -/
def emptyRegisters : List ℕ := List.replicate hllRegisters 0

/-- What `addReplyLongLong` replies with. -/
def longLong (card : ℕ) : Reply := .integer (Int.bmod card (2 ^ 64))

/-- `pfcountCommand` with one key. -/
def pfcountSingle (estimate : List ℕ → ℕ) (w : Server K) (key : K) : Option (Server K × Reply) :=
  match w.db key with
  | none => some (w, .integer 0)
  | some o => match isHLLObjectOrReply o with
    | .error e => some (w, e)
    | .ok s => do
      if ← validCache s then do
        let card ← slice s 8 8
        some (w, longLong (leVal card))
      else match ← hllCountRegisters s with
        | none => some (w, invalidHllErr)
        | some regs => do
          let card := estimate regs
          let s ← store s 8 (leBytes 8 card)
          some ((w.setString key s).touch key, longLong card)

def pfcountCommand (estimate : List ℕ → ℕ) (w : Server K) (key : K) (keys : List K) :
    Option (Server K × Reply) :=
  if keys = [] then pfcountSingle estimate w key
  else do
    match ← mergeKeys w (key :: keys) emptyRegisters with
    | .error e => some (w, e)
    | .ok max => some (w, longLong (estimate max))

/-- The loop at the end of `pfmergeCommand`: the registers from `j` on are written. -/
def writeRegisters : List ℕ → Bytes → ℕ → Option Bytes
  | [], m, _ => some m
  | r :: regs, m, j => do
    let m ← denseSetRegister m j r
    writeRegisters regs m (j + 1)

/-- The string that `pfmergeCommand` writes to.  It is created if the key does not exist. -/
def mergeDestination (w : Server K) (dest : K) : Bytes :=
  match w.db dest with
  | some (.string s) => s
  | _ => createHLLObject

def pfmergeCommand (w : Server K) (dest : K) (srcs : List K) : Option (Server K × Reply) := do
  match ← mergeKeys w (dest :: srcs) emptyRegisters with
  | .error e => some (w, e)
  | .ok max => do
    let s := mergeDestination w dest
    match ← hllSparseToDense s with
    | none => some (w.setString dest s, invalidHllErr)
    | some dense => do
      let m ← writeRegisters max (dense ++ [0]) 0
      let s ← invalidateCache (m.take dense.length)
      some ((w.setString dest s).touch dest, .ok)

end

end Hyperloglog

/-
BITOP (`bitopCommand`).

* `bitopSources` — the loop that looks the source keys up;
* `bitopResult` — the words that all sources have, and then the bytes that are left.

The target is a block of memory; reading a source that is missing (`NULL`), or outside of a
string, gives `none`.
-/
import RedisModel.StringObject
import RedisModel.Keyspace

open ByteBuffer RedisServer

namespace Bitops

inductive BitOp where
  | and
  | or
  | xor
  | not
  deriving DecidableEq, Repr

/-- The name of the operation. -/
def parseOp (opname : Bytes) : Option BitOp :=
  if RedisCommands.strcasecmp opname (RedisCommands.ascii ['a', 'n', 'd']) then some .and
  else if RedisCommands.strcasecmp opname (RedisCommands.ascii ['o', 'r']) then some .or
  else if RedisCommands.strcasecmp opname (RedisCommands.ascii ['x', 'o', 'r']) then some .xor
  else if RedisCommands.strcasecmp opname (RedisCommands.ascii ['n', 'o', 't']) then some .not
  else none

/-! ### The sources -/

/-- `src`, `maxlen` and `minlen`; the length of a missing source is 0. -/
structure Sources where
  src : List (Option Bytes)
  maxlen : ℕ
  minlen : ℕ

/-- One round of the loop; `none` if the value is not a string. -/
def Sources.add (r : Sources) : Option Robj → Option Sources
  | none => some { r with src := r.src ++ [none], minlen := 0 }
  | some o =>
    match o.text with
    | none => none
    | some s => some {
        src := r.src ++ [some s]
        maxlen := if s.length > r.maxlen then s.length else r.maxlen
        minlen := if r.src = [] ∨ s.length < r.minlen then s.length else r.minlen }

/-- The loop over the source keys; it stops at a value that is not a string. -/
def bitopSources {C : Type} (d : ℕ) (now : ℤ) : List Bytes → RedisServer C Robj → Sources →
    Except Failure (RedisServer C Robj × Option Sources)
  | [], s, r => .ok (s, some r)
  | key :: keys, s, r => do
    let found ← lookupKeyWrite s d key now
    match r.add found.2 with
    | none => .ok (found.1, none)
    | some r => bitopSources d now keys found.1 r

/-! ### The operation -/

def opByte : BitOp → UInt8 → UInt8 → UInt8
  | .and, output, byte => output &&& byte
  | .or, output, byte => output ||| byte
  | .xor, output, byte => output ^^^ byte
  | .not, output, _ => output

def opWord : BitOp → BitVec 64 → BitVec 64 → BitVec 64
  | .and, a, b => a &&& b
  | .or, a, b => a ||| b
  | .xor, a, b => a ^^^ b
  | .not, a, _ => a

/-- `lres[k] op= lp[i][k]` for `n` words from byte `p` on. -/
def opWords (op : BitOp) (src : Bytes) : ℕ → ℕ → Bytes → Option Bytes
  | 0, _, res => some res
  | n + 1, p, res => do
    let a ← slice res p 8
    let b ← slice src p 8
    let res ← store res p
      (leBytes 8 (opWord op (BitVec.ofNat 64 (leVal a)) (BitVec.ofNat 64 (leVal b))).toNat)
    opWords op src n (p + 8) res

/-- `lres[k] = ~lres[k]` for `n` words from byte `p` on. -/
def notWords : ℕ → ℕ → Bytes → Option Bytes
  | 0, _, res => some res
  | n + 1, p, res => do
    let a ← slice res p 8
    let res ← store res p (leBytes 8 (~~~ BitVec.ofNat 64 (leVal a)).toNat)
    notWords n (p + 8) res

/-- A round of the fast path, at byte `j` of the target and of all sources. -/
def fastRound (op : BitOp) (src : List (Option Bytes)) (j : ℕ) (res : Bytes) : Option Bytes :=
  match op with
  | .not => notWords 4 j res
  | op => src.tail.foldlM (fun res src => do
      let s ← src
      opWords op s 4 j res) res

/-- The fast path; the result is the target and the next byte to process. -/
def fastLoop (op : BitOp) (src : List (Option Bytes)) (minlen j : ℕ) (res : Bytes) :
    Option (Bytes × ℕ) :=
  if 32 ≤ minlen then
    match fastRound op src j res with
    | none => none
    | some res => fastLoop op src (minlen - 32) (j + 32) res
  else some (res, j)
termination_by minlen

/-- `(len[i] <= j) ? 0 : src[i][j]`. -/
def sourceByte (src : Option Bytes) (j : ℕ) : UInt8 := (src.getD []).getD j 0

/-- The byte at `j` by the plain algorithm. -/
def outputByte (op : BitOp) (src : List (Option Bytes)) (j : ℕ) : UInt8 :=
  let output := sourceByte (src.headD none) j
  let output := if op = .not then ~~~ output else output
  src.tail.foldl (fun output s => opByte op output (sourceByte s j)) output

/-- The plain algorithm for `n` bytes from `j` on. -/
def byteLoop (op : BitOp) (src : List (Option Bytes)) : ℕ → ℕ → Bytes → Option Bytes
  | 0, _, res => some res
  | n + 1, j, res => do
    let res ← store res j [outputByte op src j]
    byteLoop op src n (j + 1) res

/-- The target. -/
def bitopResult (op : BitOp) (r : Sources) : Option Bytes := do
  let res := List.replicate r.maxlen 0
  let start ← (if r.minlen ≠ 0 ∧ r.src.length ≤ 16 then do
      let s ← r.src.headD none
      let seed ← slice s 0 r.minlen
      let res ← store res 0 seed
      fastLoop op r.src r.minlen 0 res
    else some (res, 0))
  byteLoop op r.src (r.maxlen - start.2) start.2 start.1

def bitopCommand {C : Type} [DecidableEq C] (s : RedisServer C Robj) (d : ℕ) (opname : Bytes)
    (targetkey : Bytes) (keys : List Bytes) (now : ℤ) :
    Except Failure (RedisServer C Robj × StringReply) :=
  match parseOp opname with
  | none => .ok (s, .syntaxerr)
  | some op =>
    if op = .not ∧ keys.length ≠ 1 then
      .ok (s, .error "-ERR BITOP NOT must be called with a single source key.\r\n")
    else do
      let found ← bitopSources d now keys s ⟨[], 0, 0⟩
      match found.2 with
      | none => .ok (found.1, .wrongtypeerr)
      | some r =>
        if r.maxlen ≠ 0 then
          match bitopResult op r with
          | none => .error .memory
          | some res => do
            let s ← setKey found.1 d targetkey (.raw res) now
            .ok (s, .integer r.maxlen)
        else do
          let del ← dbDelete found.1 d targetkey
          .ok (if del.2 then signalModifiedKey del.1 d targetkey else del.1, .integer r.maxlen)

end Bitops

/-
Ranges of strings (`getrangeCommand`, `setrangeCommand`, `appendCommand`).

* `getrange` — the part of GETRANGE after the lookup; reading outside of the string gives `none`;
* `setrange` — the part of SETRANGE that writes.

The sum of an offset and a length is a `size_t`, and `checkStringLength` takes a `long long`.
-/
import RedisModel.StringObject
import RedisModel.Keyspace

open ByteBuffer RedisServer

namespace StringRange

/-! ### GETRANGE -/

/-- The reply for a string; only the comparison of `end` with the length is one of `unsigned`
numbers. -/
def getrange (str : Bytes) (start stop : ℤ) : Option StringReply :=
  let strlen : ℤ := str.length
  let start := if start < 0 then toLong (strlen + start) else start
  let stop := if stop < 0 then toLong (strlen + stop) else stop
  let start := if start < 0 then 0 else start
  let stop := if stop < 0 then 0 else stop
  let stop := if stop % 2 ^ 32 ≥ strlen then strlen - 1 else stop
  if start > stop then some .emptybulk
  else (slice str start.toNat (stop - start + 1).toNat).map .bulk

def getrangeCommand {C : Type} (s : RedisServer C Robj) (d : ℕ) (key start stop : Bytes) (now : ℤ) :
    Except Failure (RedisServer C Robj × StringReply) :=
  match getLongFromObjectOrReply start, getLongFromObjectOrReply stop with
  | .error reply, _ => .ok (s, reply)
  | _, .error reply => .ok (s, reply)
  | .ok start, .ok stop => do
    let found ← lookupKeyWrite s d key now
    match found.2 with
    | none => .ok (found.1, .emptybulk)
    | some o =>
      match o.text with
      | none => .ok (found.1, .wrongtypeerr)
      | some str =>
        match getrange str start stop with
        | none => .error .memory
        | some reply => .ok (found.1, reply)

/-! ### SETRANGE -/

/-- `checkStringLength`: whether the result is `REDIS_OK`; otherwise the reply is `tooLong`. -/
def checkStringLength (size : ℤ) : Bool := !decide (size > 512 * 1024 * 1024)

def tooLong : StringReply := .error "-ERR string exceeds maximum allowed size (512MB)\r\n"

/-- `sdsgrowzero`; there is no block of 2^63 bytes or more, so that `zmalloc` aborts. -/
def sdsgrowzero (s : Bytes) (len : ℕ) : Option Bytes :=
  if len ≤ s.length then some s
  else if len < 2 ^ 63 then some (s ++ List.replicate (len - s.length) 0)
  else none

/-- `offset+sdslen(value)`. -/
def totalLength (offset : ℤ) (value : Bytes) : ℤ := (offset + value.length) % 2 ^ 64

/-- Write to a string that is neither shared nor encoded. -/
def setrange (str : Bytes) (offset : ℤ) (value : Bytes) : Option Bytes := do
  let str ← sdsgrowzero str (totalLength offset value).toNat
  store str offset.toNat value

section
variable {C : Type} [DecidableEq C]

/-- The end of SETRANGE. -/
def storeRange (s : RedisServer C Robj) (d : ℕ) (key str : Bytes) (offset : ℤ) (value : Bytes) :
    Except Failure (RedisServer C Robj × StringReply) :=
  match setrange str offset value with
  | none => .error .memory
  | some str => do
    let s ← dbOverwrite s d key (.raw str)
    .ok (signalModifiedKey s d key, .integer str.length)

def setrangeCommand (s : RedisServer C Robj) (d : ℕ) (key offset value : Bytes) (now : ℤ) :
    Except Failure (RedisServer C Robj × StringReply) :=
  match getLongFromObjectOrReply offset with
  | .error reply => .ok (s, reply)
  | .ok offset =>
    if offset < 0 then .ok (s, .error "-ERR offset is out of range\r\n")
    else do
      let found ← lookupKeyWrite s d key now
      match found.2 with
      | none =>
        if value.length = 0 then .ok (found.1, .czero)
        else if checkStringLength (toLong (totalLength offset value)) then do
          let s ← dbAdd found.1 d key (.raw [])
          storeRange s d key [] offset value
        else .ok (found.1, tooLong)
      | some o =>
        match o.text with
        | none => .ok (found.1, .wrongtypeerr)
        | some str =>
          if value.length = 0 then .ok (found.1, .integer str.length)
          else if checkStringLength (toLong (totalLength offset value)) then do
            -- `dbUnshareStringValue`
            let s ← dbOverwrite found.1 d key (.raw str)
            storeRange s d key str offset value
          else .ok (found.1, tooLong)

/-! ### APPEND -/

/-- APPEND to a string that is there. -/
def appendString (s : RedisServer C Robj) (d : ℕ) (key str value : Bytes) :
    Except Failure (RedisServer C Robj × StringReply) :=
  if checkStringLength (toLong (str.length + value.length)) then do
    let s ← dbOverwrite s d key (.raw (str ++ value))
    .ok (signalModifiedKey s d key, .integer (str ++ value).length)
  else .ok (s, tooLong)

/-- `appendCommand`; the length of a new string is not checked. -/
def appendCommand (s : RedisServer C Robj) (d : ℕ) (key value : Bytes) (now : ℤ) :
    Except Failure (RedisServer C Robj × StringReply) := do
  let found ← lookupKeyWrite s d key now
  match found.2 with
  | none => do
    let s ← dbAdd found.1 d key (tryObjectEncoding value)
    .ok (signalModifiedKey s d key, .integer value.length)
  | some o =>
    match o.text with
    | none => .ok (found.1, .wrongtypeerr)
    | some str => appendString found.1 d key str value

end

end StringRange

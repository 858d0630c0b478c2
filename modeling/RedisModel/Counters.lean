/-
Counters: `incrDecrCommand` and the commands that call it, and `hincrbyCommand`.

A value is a string, a hash whose values are strings, or something else; both encodings of a hash
hold the same strings.  `server.dirty` counts the changes.
-/
import RedisModel.KeyspaceCommand
import RedisModel.StringObject

open ByteBuffer RedisServer StringNumber

namespace Counters

/-- A string in one of its encodings. -/
inductive StringValue where
  | raw (s : Bytes)
  /-- `REDIS_ENCODING_INT`. -/
  | int (value : ℤ) (isLong : IsLong value)

def StringValue.text : StringValue → Bytes
  | .raw s => s
  | .int value _ => ll2string value

inductive Value where
  | string (o : StringValue)
  | hash (fields : Bytes → Option StringValue)
  | other

/-- The keyspace and `server.dirty`. -/
structure CounterServer (C : Type) where
  keyspace : RedisServer C Value
  dirty : ℕ

def createStringObjectFromLongLong (value : ℤ) : StringValue :=
  .int (toLong value) (isLong_toLong value)

/-- `getLongLongFromObject`; the number is 0 if there is no object. -/
def getLongLongFromObject : Option StringValue → Option ℤ
  | none => some 0
  | some (.raw s) => RedisCommands.getLongLongFromObject s
  | some (.int value _) => some value

/-- The test before the addition, which itself stays within 64 bits. -/
def overflows (incr oldvalue : ℤ) : Bool :=
  (incr < 0 ∧ oldvalue < 0 ∧ incr < llongMin - oldvalue) ∨
    (incr > 0 ∧ oldvalue > 0 ∧ incr > llongMax - oldvalue)

def overflowError : StringReply := .error "-ERR increment or decrement would overflow\r\n"

/-- `checkType` for `REDIS_STRING`, of an object that may be missing. -/
def checkString : Option Value → Except StringReply (Option StringValue)
  | none => .ok none
  | some (.string o) => .ok (some o)
  | some _ => .error .wrongtypeerr

/-- The type check of `hashTypeLookupWriteOrCreate`. -/
def checkHash : Option Value → Except StringReply (Bytes → Option StringValue)
  | none => .ok fun _ => none
  | some (.hash fields) => .ok fields
  | some _ => .error .wrongtypeerr

variable {C : Type} [DecidableEq C]

def incrDecrCommand (w : CounterServer C) (d : ℕ) (key : Bytes) (incr now : ℤ) :
    Except Failure (CounterServer C × StringReply) := do
  let found ← lookupKeyWrite w.keyspace d key now
  let unchanged := { w with keyspace := found.1 }
  match checkString found.2 with
  | .error reply => .ok (unchanged, reply)
  | .ok o =>
    match getLongLongFromObject o with
    | none => .ok (unchanged, .notInteger)
    | some value =>
      if overflows incr value then .ok (unchanged, overflowError)
      else do
        let s ← dbStore found.1 d key found.2
          (.string (createStringObjectFromLongLong (value + incr)))
        .ok (⟨signalModifiedKey s d key, w.dirty + 1⟩, .integer (toLong (value + incr)))

def incrCommand (w : CounterServer C) (d : ℕ) (key : Bytes) (now : ℤ) :
    Except Failure (CounterServer C × StringReply) := incrDecrCommand w d key 1 now

def decrCommand (w : CounterServer C) (d : ℕ) (key : Bytes) (now : ℤ) :
    Except Failure (CounterServer C × StringReply) := incrDecrCommand w d key (-1) now

def incrbyCommand (w : CounterServer C) (d : ℕ) (key arg : Bytes) (now : ℤ) :
    Except Failure (CounterServer C × StringReply) :=
  match getLongFromObjectOrReply arg with
  | .error reply => .ok (w, reply)
  | .ok incr => incrDecrCommand w d key incr now

def decrbyCommand (w : CounterServer C) (d : ℕ) (key arg : Bytes) (now : ℤ) :
    Except Failure (CounterServer C × StringReply) :=
  match getLongFromObjectOrReply arg with
  | .error reply => .ok (w, reply)
  | .ok incr => incrDecrCommand w d key (toLong (-incr)) now

def hashNotInteger : StringReply := .error "-ERR hash value is not an integer\r\n"

def hincrbyCommand (w : CounterServer C) (d : ℕ) (key field arg : Bytes) (now : ℤ) :
    Except Failure (CounterServer C × StringReply) :=
  match getLongFromObjectOrReply arg with
  | .error reply => .ok (w, reply)
  | .ok incr => do
    let found ← lookupKeyWrite w.keyspace d key now
    match checkHash found.2 with
    | .error reply => .ok ({ w with keyspace := found.1 }, reply)
    | .ok fields => do
      -- `hashTypeLookupWriteOrCreate`
      let s ← (if found.2.isNone then dbAdd found.1 d key (.hash fields) else .ok found.1)
      let unchanged := { w with keyspace := s }
      match getLongLongFromObject (fields field) with
      | none => .ok (unchanged, hashNotInteger)
      | some value =>
        if overflows incr value then .ok (unchanged, overflowError)
        else do
          -- `hashTypeSet`, on the object where it is
          let s ← dbOverwrite s d key (.hash
            (Function.update fields field (some (createStringObjectFromLongLong (value + incr)))))
          .ok (⟨signalModifiedKey s d key, w.dirty + 1⟩, .integer (toLong (value + incr)))

inductive CounterCommand where
  | incr
  | decr
  | incrby (arg : Bytes)
  | decrby (arg : Bytes)
  | hincrby (field arg : Bytes)

/-- The command is executed. -/
def call (w : CounterServer C) (d : ℕ) (key : Bytes) (now : ℤ) :
    CounterCommand → Except Failure (CounterServer C × StringReply)
  | .incr => incrCommand w d key now
  | .decr => decrCommand w d key now
  | .incrby arg => incrbyCommand w d key arg now
  | .decrby arg => decrbyCommand w d key arg now
  | .hincrby field arg => hincrbyCommand w d key field arg now

end Counters

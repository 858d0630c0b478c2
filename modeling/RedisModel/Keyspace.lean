/-
The keyspace (`db.c`): the dictionaries of the databases, the index of the keys of database 0
by hash slot, and the keys that clients watch (`multi.c`).

Keys are byte strings, values are of any type `V` and clients of any type `C`.  A dictionary
is a function; in `watchedKeys` a key that is not in the dictionary has the empty list.
-/
import RedisModel.Ensures
import RedisModel.SkiplistQuery

open ByteBuffer Zskiplist

/-! ### The slot of a key -/

/-- The table of `crc16.c`. -/
def crc16tab : List (BitVec 16) := [
  0x0000, 0x1021, 0x2042, 0x3063, 0x4084, 0x50a5, 0x60c6, 0x70e7,
  0x8108, 0x9129, 0xa14a, 0xb16b, 0xc18c, 0xd1ad, 0xe1ce, 0xf1ef,
  0x1231, 0x0210, 0x3273, 0x2252, 0x52b5, 0x4294, 0x72f7, 0x62d6,
  0x9339, 0x8318, 0xb37b, 0xa35a, 0xd3bd, 0xc39c, 0xf3ff, 0xe3de,
  0x2462, 0x3443, 0x0420, 0x1401, 0x64e6, 0x74c7, 0x44a4, 0x5485,
  0xa56a, 0xb54b, 0x8528, 0x9509, 0xe5ee, 0xf5cf, 0xc5ac, 0xd58d,
  0x3653, 0x2672, 0x1611, 0x0630, 0x76d7, 0x66f6, 0x5695, 0x46b4,
  0xb75b, 0xa77a, 0x9719, 0x8738, 0xf7df, 0xe7fe, 0xd79d, 0xc7bc,
  0x48c4, 0x58e5, 0x6886, 0x78a7, 0x0840, 0x1861, 0x2802, 0x3823,
  0xc9cc, 0xd9ed, 0xe98e, 0xf9af, 0x8948, 0x9969, 0xa90a, 0xb92b,
  0x5af5, 0x4ad4, 0x7ab7, 0x6a96, 0x1a71, 0x0a50, 0x3a33, 0x2a12,
  0xdbfd, 0xcbdc, 0xfbbf, 0xeb9e, 0x9b79, 0x8b58, 0xbb3b, 0xab1a,
  0x6ca6, 0x7c87, 0x4ce4, 0x5cc5, 0x2c22, 0x3c03, 0x0c60, 0x1c41,
  0xedae, 0xfd8f, 0xcdec, 0xddcd, 0xad2a, 0xbd0b, 0x8d68, 0x9d49,
  0x7e97, 0x6eb6, 0x5ed5, 0x4ef4, 0x3e13, 0x2e32, 0x1e51, 0x0e70,
  0xff9f, 0xefbe, 0xdfdd, 0xcffc, 0xbf1b, 0xaf3a, 0x9f59, 0x8f78,
  0x9188, 0x81a9, 0xb1ca, 0xa1eb, 0xd10c, 0xc12d, 0xf14e, 0xe16f,
  0x1080, 0x00a1, 0x30c2, 0x20e3, 0x5004, 0x4025, 0x7046, 0x6067,
  0x83b9, 0x9398, 0xa3fb, 0xb3da, 0xc33d, 0xd31c, 0xe37f, 0xf35e,
  0x02b1, 0x1290, 0x22f3, 0x32d2, 0x4235, 0x5214, 0x6277, 0x7256,
  0xb5ea, 0xa5cb, 0x95a8, 0x8589, 0xf56e, 0xe54f, 0xd52c, 0xc50d,
  0x34e2, 0x24c3, 0x14a0, 0x0481, 0x7466, 0x6447, 0x5424, 0x4405,
  0xa7db, 0xb7fa, 0x8799, 0x97b8, 0xe75f, 0xf77e, 0xc71d, 0xd73c,
  0x26d3, 0x36f2, 0x0691, 0x16b0, 0x6657, 0x7676, 0x4615, 0x5634,
  0xd94c, 0xc96d, 0xf90e, 0xe92f, 0x99c8, 0x89e9, 0xb98a, 0xa9ab,
  0x5844, 0x4865, 0x7806, 0x6827, 0x18c0, 0x08e1, 0x3882, 0x28a3,
  0xcb7d, 0xdb5c, 0xeb3f, 0xfb1e, 0x8bf9, 0x9bd8, 0xabbb, 0xbb9a,
  0x4a75, 0x5a54, 0x6a37, 0x7a16, 0x0af1, 0x1ad0, 0x2ab3, 0x3a92,
  0xfd2e, 0xed0f, 0xdd6c, 0xcd4d, 0xbdaa, 0xad8b, 0x9de8, 0x8dc9,
  0x7c26, 0x6c07, 0x5c64, 0x4c45, 0x3ca2, 0x2c83, 0x1ce0, 0x0cc1,
  0xef1f, 0xff3e, 0xcf5d, 0xdf7c, 0xaf9b, 0xbfba, 0x8fd9, 0x9ff8,
  0x6e17, 0x7e36, 0x4e55, 0x5e74, 0x2e93, 0x3eb2, 0x0ed1, 0x1ef0]

def crc16 (buf : Bytes) : BitVec 16 :=
  buf.foldl (fun crc b =>
    (crc <<< 8) ^^^ crc16tab.getD (((crc >>> 8) ^^^ b.toBitVec.setWidth 16) &&& 0x00FF).toNat 0) 0

/-- `keyHashSlot`: the hash of the key, or of what stands between its first braces. -/
def keyHashSlot (key : Bytes) : ℕ :=
  let tag := (key.dropWhile (· ≠ 123)).drop 1
  let inner := tag.takeWhile (· ≠ 125)
  if inner.length = tag.length ∨ inner = [] then (crc16 key &&& 0x3FFF).toNat
  else (crc16 inner &&& 0x3FFF).toNat

/-! ### The server -/

/-- The functions with a `redisAssert`, and the use of memory that is not allocated. -/
inductive Failure where
  | dbAdd
  | dbOverwrite
  | setExpire
  | getExpire
  | removeExpire
  | expireGenericCommand
  | unwatchAllKeys
  | memory
  deriving DecidableEq, Repr

structure RedisDb (C V : Type) where
  dict : Bytes → Option V
  expires : Bytes → Option ℤ
  watchedKeys : Bytes → List C

/-- `redisClient`: the selected database, the watched keys with their databases, and the flag
`REDIS_DIRTY_CAS`. -/
structure RedisClient where
  db : ℕ
  watchedKeys : List (ℕ × Bytes)
  dirtyCas : Bool

/-- `redisServer`.  `levels` are the results of `zslRandomLevel`, less one, and `inserted` counts
the nodes of the skip list allocated so far; the address of a new node is the next one. -/
structure RedisServer (C V : Type) where
  db : ℕ → RedisDb C V
  dbnum : ℕ
  clients : List C
  client : C → RedisClient
  slotsToKeys : Zskiplist ℕ
  inserted : ℕ
  levels : ℕ → Fin 32
  clusterEnabled : Bool
  masterhost : Bool
  loading : Bool

namespace RedisServer

section
variable {C V : Type}

/-- Change a database. -/
def setDb (s : RedisServer C V) (d : ℕ) (db : RedisDb C V) : RedisServer C V :=
  { s with db := Function.update s.db d db }

/-- Use of the skip list. -/
def ofZsl {α : Type} : Option α → Except Failure α
  | some a => .ok a
  | none => .error .memory

/-! ### The index of the keys by slot -/

def slotToKeyAdd (s : RedisServer C V) (key : Bytes) : Except Failure (RedisServer C V) := do
  let zsl ← ofZsl (zslInsert s.slotsToKeys (s.inserted + 1) ((s.levels s.inserted).val + 1)
    (keyHashSlot key) key)
  .ok { s with slotsToKeys := zsl, inserted := s.inserted + 1 }

def slotToKeyDel (s : RedisServer C V) (key : Bytes) : Except Failure (RedisServer C V) := do
  let r ← ofZsl (zslDelete s.slotsToKeys (keyHashSlot key) key)
  .ok { s with slotsToKeys := r.1 }

def slotToKeyFlush (s : RedisServer C V) : RedisServer C V :=
  { s with slotsToKeys := zslCreate }

/-- The range of a slot. -/
def slotRange (hashslot : ℕ) : Zrangespec ℕ := ⟨hashslot, hashslot, false, false⟩

/-- The loop of `getKeysInSlot`. -/
def collectKeys (z : Zskiplist ℕ) (hashslot : ℕ) : ℕ → Option Ref → Option (List Bytes)
  | 0, _ => some []
  | _, none => some []
  | count + 1, some x => do
    let n ← z.node x
    if n.score = hashslot then do
      let l ← z.lev 0 x
      let keys ← collectKeys z hashslot count l.forward
      some (n.obj :: keys)
    else some []

def getKeysInSlot (s : RedisServer C V) (hashslot count : ℕ) : Except Failure (List Bytes) := do
  let n ← ofZsl (zslFirstInRange s.slotsToKeys (slotRange hashslot))
  ofZsl (collectKeys s.slotsToKeys hashslot count n)

/-- `countKeysInSlot`; `rank` and `count` are of type `int`. -/
def countKeysInSlot (s : RedisServer C V) (hashslot : ℕ) : Except Failure (BitVec 32) := do
  let z := s.slotsToKeys
  let first ← ofZsl (zslFirstInRange z (slotRange hashslot))
  match first with
  | none => .ok 0
  | some x => do
    let n ← ofZsl (z.node x)
    let rank ← ofZsl (zslGetRank z n.score n.obj)
    let count := BitVec.ofNat 32 z.length - (rank - 1)
    let last ← ofZsl (zslLastInRange z (slotRange hashslot))
    match last with
    | none => .ok count
    | some y => do
      let m ← ofZsl (z.node y)
      let rank ← ofZsl (zslGetRank z m.score m.obj)
      .ok (count - (BitVec.ofNat 32 z.length - rank))

/-! ### Keys that clients watch -/

section
variable [DecidableEq C]

def touchWatchedKey (s : RedisServer C V) (d : ℕ) (key : Bytes) : RedisServer C V :=
  { s with
    client := fun c =>
      if c ∈ (s.db d).watchedKeys key then { s.client c with dirtyCas := true } else s.client c }

def signalModifiedKey (s : RedisServer C V) (d : ℕ) (key : Bytes) : RedisServer C V :=
  touchWatchedKey s d key

/-- `touchWatchedKeysOnFlush`, of one database or of all of them. -/
def touchWatchedKeysOnFlush (s : RedisServer C V) (dbid : Option ℕ) : RedisServer C V :=
  { s with
    client := fun c =>
      if c ∈ s.clients ∧ ∃ wk ∈ (s.client c).watchedKeys,
          (dbid = none ∨ dbid = some wk.1) ∧ ((s.db wk.1).dict wk.2).isSome then
        { s.client c with dirtyCas := true }
      else s.client c }

def signalFlushedDb (s : RedisServer C V) (dbid : Option ℕ) : RedisServer C V :=
  touchWatchedKeysOnFlush s dbid

end

/-! ### Low level functions -/

def lookupKey (s : RedisServer C V) (d : ℕ) (key : Bytes) : Option V := (s.db d).dict key

def dbAdd (s : RedisServer C V) (d : ℕ) (key : Bytes) (val : V) :
    Except Failure (RedisServer C V) :=
  if ((s.db d).dict key).isSome then .error .dbAdd
  else
    let s := s.setDb d { s.db d with dict := Function.update (s.db d).dict key (some val) }
    if s.clusterEnabled then slotToKeyAdd s key else .ok s

/-- `dbOverwrite`, also what happens to an object that is changed where it is. -/
def dbOverwrite (s : RedisServer C V) (d : ℕ) (key : Bytes) (val : V) :
    Except Failure (RedisServer C V) :=
  if ((s.db d).dict key).isSome then
    .ok (s.setDb d { s.db d with dict := Function.update (s.db d).dict key (some val) })
  else .error .dbOverwrite

/-- `dbDelete`; the result says whether the key was there. -/
def dbDelete (s : RedisServer C V) (d : ℕ) (key : Bytes) :
    Except Failure (RedisServer C V × Bool) :=
  let s := s.setDb d { s.db d with expires := Function.update (s.db d).expires key none }
  if ((s.db d).dict key).isSome then do
    let s := s.setDb d { s.db d with dict := Function.update (s.db d).dict key none }
    let s ← (if s.clusterEnabled then slotToKeyDel s key else .ok s)
    .ok (s, true)
  else .ok (s, false)

/-- `removeExpire`; the result says whether there was one. -/
def removeExpire (s : RedisServer C V) (d : ℕ) (key : Bytes) :
    Except Failure (RedisServer C V × Bool) :=
  if ((s.db d).dict key).isSome then
    .ok (s.setDb d { s.db d with expires := Function.update (s.db d).expires key none },
      ((s.db d).expires key).isSome)
  else .error .removeExpire

def setExpire (s : RedisServer C V) (d : ℕ) (key : Bytes) (when : ℤ) :
    Except Failure (RedisServer C V) :=
  if ((s.db d).dict key).isSome then
    .ok (s.setDb d { s.db d with expires := Function.update (s.db d).expires key (some when) })
  else .error .setExpire

/-- `getExpire`: -1 if there is none. -/
def getExpire (s : RedisServer C V) (d : ℕ) (key : Bytes) : Except Failure ℤ :=
  match (s.db d).expires key with
  | none => .ok (-1)
  | some when => if ((s.db d).dict key).isSome then .ok when else .error .getExpire

/-- `expireIfNeeded`, at the time `now`. -/
def expireIfNeeded (s : RedisServer C V) (d : ℕ) (key : Bytes) (now : ℤ) :
    Except Failure (RedisServer C V × Bool) := do
  let when ← getExpire s d key
  if when < 0 then .ok (s, false)
  else if s.loading then .ok (s, false)
  else if s.masterhost then .ok (s, decide (now > when))
  else if now ≤ when then .ok (s, false)
  else dbDelete s d key

/-- `lookupKeyRead` and `lookupKeyWrite`, which differ in the statistics only. -/
def lookupKeyWrite (s : RedisServer C V) (d : ℕ) (key : Bytes) (now : ℤ) :
    Except Failure (RedisServer C V × Option V) := do
  let r ← expireIfNeeded s d key now
  .ok (r.1, lookupKey r.1 d key)

def setKey [DecidableEq C] (s : RedisServer C V) (d : ℕ) (key : Bytes) (val : V) (now : ℤ) :
    Except Failure (RedisServer C V) := do
  let r ← lookupKeyWrite s d key now
  let s ← (if r.2.isNone then dbAdd r.1 d key val else dbOverwrite r.1 d key val)
  let r ← removeExpire s d key
  .ok (signalModifiedKey r.1 d key)

/-- Every database without its keys. -/
def emptyDbs (s : RedisServer C V) (which : ℕ → Bool) : RedisServer C V :=
  { s with
    db := fun d =>
      if which d then { s.db d with dict := fun _ => none, expires := fun _ => none } else s.db d }

def emptyDb (s : RedisServer C V) : RedisServer C V :=
  let s := emptyDbs s fun d => decide (d < s.dbnum)
  if s.clusterEnabled then slotToKeyFlush s else s

/-- The loop of `delKeysInSlot`; `j` is an `int`. -/
def delKeys (hashslot : ℕ) : ℕ → RedisServer C V → Option Ref → BitVec 32 →
    Except Failure (RedisServer C V × BitVec 32)
  | 0, _, _, _ => .error .memory
  | _ + 1, s, none, j => .ok (s, j)
  | fuel + 1, s, some x, j => do
    let n ← ofZsl (s.slotsToKeys.node x)
    if n.score = hashslot then do
      let l ← ofZsl (s.slotsToKeys.lev 0 x)
      let r ← dbDelete s 0 n.obj
      delKeys hashslot fuel r.1 l.forward (j + 1)
    else .ok (s, j)

def delKeysInSlot (s : RedisServer C V) (hashslot : ℕ) :
    Except Failure (RedisServer C V × BitVec 32) := do
  let n ← ofZsl (zslFirstInRange s.slotsToKeys (slotRange hashslot))
  delKeys hashslot (s.slotsToKeys.length + 1) s n 0

end

end RedisServer

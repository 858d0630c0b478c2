/-
Commands that create, overwrite, delete, rename, move and expire keys.

What a command computes from the objects it finds is a parameter; what it does with the keys
is as in its function.  The commands that work on one object in place (`LPUSH`, `SADD`, `ZREM`,
`HSET`, `SETRANGE`, `APPEND`, …) do the same with their key and are one definition,
`updateCommand`; so are those that store a new object for a key (`INCR`, `INCRBYFLOAT`), and
those that build the object of a destination from other keys.  A command reads the clock once.
-/
import RedisModel.Keyspace

open ByteBuffer Zskiplist

/-- What a command does with the object of a key. -/
inductive Outcome (V : Type) where
  /-- An error, or nothing to do. -/
  | keep
  | store (val : V)
  /-- The object became empty. -/
  | remove
  deriving DecidableEq, Repr

/-- What `hllAdd` did to an object, for all elements: the object if a register has changed, and
whether a call returned -1. -/
structure PfaddResult (V : Type) where
  val : Option V
  invalid : Bool

inductive Command (V : Type) where
  /-- `SET`, `SETNX`, `SETEX`, `PSETEX`. -/
  | set (key : Bytes) (val : V) (nx xx : Bool) (milliseconds : Option ℤ)
  /-- `GETSET`; the old value must be a string. -/
  | getset (key : Bytes) (val : V) (isString : V → Bool)
  /-- `MSET`, `MSETNX`. -/
  | mset (pairs : List (Bytes × V)) (nx : Bool)
  /-- `INCR`, `DECR`, `INCRBY`, `DECRBY`, `INCRBYFLOAT`; `none` is an error. -/
  | incrDecr (key : Bytes) (new : Option V → Option V)
  /-- A command on one object; the objects of `sources` are looked up before. -/
  | update (sources : List Bytes) (key : Bytes) (f : List (Option V) → Option V → Outcome V)
  /-- `PFADD`; `none` for a value that is no HyperLogLog. -/
  | pfadd (key : Bytes) (new : V) (add : V → Option (PfaddResult V))
  /-- `PFDEBUG GETREG`, `PFDEBUG TODENSE`, of a sparse HyperLogLog. -/
  | pfdebug (key : Bytes) (toDense : V → Option V)
  /-- `SMOVE`: what is left of the source and the destination after it, if the element moves. -/
  | smove (src dst : Bytes) (move : V → Option V → Option (Outcome V × V))
  /-- `RPOPLPUSH`: the list without its last element, and the destination with it. -/
  | rpoplpush (src dst : Bytes) (pop : V → Option (Outcome V)) (push : V → Option V → Option V)
      (rotate : V → V)
  /-- `SINTERSTORE`; `none` for a key that is no set. -/
  | sinterstore (sources : List Bytes) (dst : Bytes) (inter : List V → Option (Option V))
  /-- `SUNIONSTORE`, `SDIFFSTORE`. -/
  | sunionDiff (sources : List Bytes) (dst : Bytes) (f : List (Option V) → Option (Option V))
  /-- `ZUNIONSTORE`, `ZINTERSTORE`. -/
  | zunionInter (sources : List Bytes) (dst : Bytes) (f : List (Option V) → Option (Option V))
  /-- `SORT … STORE`, `BITOP`. -/
  | storeKey (sources : List Bytes) (dst : Bytes) (f : List (Option V) → Option (Option V))
  /-- `RESTORE`. -/
  | restore (key : Bytes) (val : V) (ttl : ℤ) (replace : Bool)
  /-- `MIGRATE` that the other instance has accepted. -/
  | migrate (key : Bytes) (copy : Bool)
  | del (keys : List Bytes)
  | flushdb
  | flushall
  | rename (src dst : Bytes) (nx : Bool)
  | move (key : Bytes) (db : ℤ)
  /-- `EXPIRE`, `PEXPIRE`, `EXPIREAT`, `PEXPIREAT`. -/
  | expire (key : Bytes) (when : ℤ)
  | persist (key : Bytes)
  | select (db : ℤ)
  /-- A command that only reads keys. -/
  | read (keys : List Bytes)
  /-- `DEBUG POPULATE`. -/
  | populate (pairs : List (Bytes × V))

namespace RedisServer

section
variable {C V : Type}

/-- `lookupKeyRead` of several keys. -/
def lookupKeys (s : RedisServer C V) (d : ℕ) (now : ℤ) :
    List Bytes → Except Failure (RedisServer C V × List (Option V))
  | [] => .ok (s, [])
  | key :: keys => do
    let r ← lookupKeyWrite s d key now
    let rs ← lookupKeys r.1 d now keys
    .ok (rs.1, r.2 :: rs.2)

/-- The loop of `sinterGenericCommand` over its keys: it stops at the first missing one. -/
def lookupSets (s : RedisServer C V) (d : ℕ) (now : ℤ) :
    List Bytes → Except Failure (RedisServer C V × Option (List V))
  | [] => .ok (s, some [])
  | key :: keys => do
    let r ← lookupKeyWrite s d key now
    match r.2 with
    | none => .ok (r.1, none)
    | some v => do
      let rs ← lookupSets r.1 d now keys
      .ok (rs.1, rs.2.map (v :: ·))

/-- `dbAdd` or a change of the object, whether or not it was there. -/
def dbStore (s : RedisServer C V) (d : ℕ) (key : Bytes) (old : Option V) (val : V) :
    Except Failure (RedisServer C V) :=
  match old with
  | none => dbAdd s d key val
  | some _ => dbOverwrite s d key val

/-- What is left of an object after an element was taken out. -/
def leaveKey (s : RedisServer C V) (d : ℕ) (key : Bytes) : Outcome V →
    Except Failure (RedisServer C V)
  | .keep => .ok s
  | .store val => dbOverwrite s d key val
  | .remove => do
    let r ← dbDelete s d key
    .ok r.1

variable [DecidableEq C]

def setGenericCommand (s : RedisServer C V) (d : ℕ) (key : Bytes) (val : V) (nx xx : Bool)
    (milliseconds : Option ℤ) (now : ℤ) : Except Failure (RedisServer C V) := do
  if milliseconds.any (· ≤ 0) then .ok s
  else do
    let r ← (if nx || xx then lookupKeyWrite s d key now else .ok (s, none))
    if (nx && r.2.isSome) || (xx && r.2.isNone) then .ok r.1
    else do
      let s ← setKey r.1 d key val now
      match milliseconds with
      | some ms => setExpire s d key (now + ms)
      | none => .ok s

def getsetCommand (s : RedisServer C V) (d : ℕ) (key : Bytes) (val : V) (isString : V → Bool)
    (now : ℤ) : Except Failure (RedisServer C V) := do
  let r ← lookupKeyWrite s d key now
  if r.2.all isString then setKey r.1 d key val now else .ok r.1

/-- The loop of `msetGenericCommand`. -/
def setKeys (s : RedisServer C V) (d : ℕ) (pairs : List (Bytes × V)) (now : ℤ) :
    Except Failure (RedisServer C V) :=
  pairs.foldlM (fun s p => setKey s d p.1 p.2 now) s

def msetGenericCommand (s : RedisServer C V) (d : ℕ) (pairs : List (Bytes × V)) (nx : Bool)
    (now : ℤ) : Except Failure (RedisServer C V) := do
  if nx then do
    let r ← lookupKeys s d now (pairs.map Prod.fst)
    if r.2.any Option.isSome then .ok r.1 else setKeys r.1 d pairs now
  else setKeys s d pairs now

/-- `incrDecrCommand`, `incrbyfloatCommand`. -/
def incrDecrCommand (s : RedisServer C V) (d : ℕ) (key : Bytes) (new : Option V → Option V)
    (now : ℤ) : Except Failure (RedisServer C V) := do
  let r ← lookupKeyWrite s d key now
  match new r.2 with
  | none => .ok r.1
  | some val => do
    let s ← dbStore r.1 d key r.2 val
    .ok (signalModifiedKey s d key)

/-- A command on one object. -/
def updateCommand (s : RedisServer C V) (d : ℕ) (sources : List Bytes) (key : Bytes)
    (f : List (Option V) → Option V → Outcome V) (now : ℤ) :
    Except Failure (RedisServer C V) := do
  let rs ← lookupKeys s d now sources
  let r ← lookupKeyWrite rs.1 d key now
  match f rs.2 r.2 with
  | .keep => .ok r.1
  | .store val => do
    let s ← dbStore r.1 d key r.2 val
    .ok (signalModifiedKey s d key)
  | .remove => do
    let r ← dbDelete r.1 d key
    .ok (signalModifiedKey r.1 d key)

def pfaddCommand (s : RedisServer C V) (d : ℕ) (key : Bytes) (new : V)
    (add : V → Option (PfaddResult V)) (now : ℤ) : Except Failure (RedisServer C V) := do
  let r ← lookupKeyWrite s d key now
  match add (r.2.getD new) with
  | none => .ok r.1
  | some p => do
    let updated := p.val.isSome || r.2.isNone
    let s ← (if updated then dbStore r.1 d key r.2 (p.val.getD (r.2.getD new)) else .ok r.1)
    -- an invalid object is noticed after some elements were added
    if p.invalid then .ok s
    else .ok (if updated then signalModifiedKey s d key else s)

/-- `pfdebugCommand`, where it changes the encoding. -/
def pfdebugCommand (s : RedisServer C V) (d : ℕ) (key : Bytes) (toDense : V → Option V) (now : ℤ) :
    Except Failure (RedisServer C V) := do
  let r ← lookupKeyWrite s d key now
  match r.2.bind toDense with
  | none => .ok r.1
  | some val => dbOverwrite r.1 d key val

def smoveCommand (s : RedisServer C V) (d : ℕ) (src dst : Bytes)
    (move : V → Option V → Option (Outcome V × V)) (now : ℤ) :
    Except Failure (RedisServer C V) := do
  let r ← lookupKeyWrite s d src now
  let r' ← lookupKeyWrite r.1 d dst now
  match r.2 with
  | none => .ok r'.1
  | some srcset =>
    if src = dst then .ok r'.1
    else match move srcset r'.2 with
    | none => .ok r'.1
    | some (left, dstset) => do
      let s ← leaveKey r'.1 d src left
      let s := signalModifiedKey (signalModifiedKey s d src) d dst
      dbStore s d dst r'.2 dstset

def rpoplpushHandlePush (s : RedisServer C V) (d : ℕ) (dstkey : Bytes) (dstobj : Option V)
    (val : V) : Except Failure (RedisServer C V) := do
  let s ← dbStore s d dstkey dstobj val
  .ok (signalModifiedKey s d dstkey)

/-- `rpoplpushCommand`; `pop` is `none` for an object that is no list or is empty. -/
def rpoplpushCommand (s : RedisServer C V) (d : ℕ) (src dst : Bytes) (pop : V → Option (Outcome V))
    (push : V → Option V → Option V) (rotate : V → V) (now : ℤ) :
    Except Failure (RedisServer C V) := do
  let r ← lookupKeyWrite s d src now
  match r.2 with
  | none => .ok r.1
  | some sobj =>
    match pop sobj with
    | none => .ok r.1
    | some left => do
      let r' ← lookupKeyWrite r.1 d dst now
      match push sobj r'.2 with
      | none => .ok r'.1
      | some dobj =>
        if src = dst then do
          let s ← rpoplpushHandlePush r'.1 d dst r'.2 (rotate sobj)
          .ok (signalModifiedKey s d src)
        else do
          let s ← rpoplpushHandlePush r'.1 d dst r'.2 dobj
          let s ← leaveKey s d src left
          .ok (signalModifiedKey s d src)

/-- `dbDelete` with a signal if the key was there. -/
def deleteSignal (s : RedisServer C V) (d : ℕ) (key : Bytes) : Except Failure (RedisServer C V) := do
  let r ← dbDelete s d key
  .ok (if r.2 then signalModifiedKey r.1 d key else r.1)

/-- The end of the commands that replace a destination: `none` for an empty result. -/
def replaceKey (s : RedisServer C V) (d : ℕ) (dst : Bytes) (result : Option V) :
    Except Failure (RedisServer C V) := do
  let r ← dbDelete s d dst
  match result with
  | some val => do
    let s ← dbAdd r.1 d dst val
    .ok (signalModifiedKey s d dst)
  | none => .ok (signalModifiedKey r.1 d dst)

/-- `sinterGenericCommand` with a destination. -/
def sinterGenericCommand (s : RedisServer C V) (d : ℕ) (sources : List Bytes) (dst : Bytes)
    (inter : List V → Option (Option V)) (now : ℤ) : Except Failure (RedisServer C V) := do
  let rs ← lookupSets s d now sources
  match rs.2 with
  | none => deleteSignal rs.1 d dst
  | some sets =>
    match inter sets with
    | none => .ok rs.1
    | some result => replaceKey rs.1 d dst result

/-- `sunionDiffGenericCommand` with a destination. -/
def sunionDiffGenericCommand (s : RedisServer C V) (d : ℕ) (sources : List Bytes) (dst : Bytes)
    (f : List (Option V) → Option (Option V)) (now : ℤ) : Except Failure (RedisServer C V) := do
  let rs ← lookupKeys s d now sources
  match f rs.2 with
  | none => .ok rs.1
  | some result => replaceKey rs.1 d dst result

def zunionInterGenericCommand (s : RedisServer C V) (d : ℕ) (sources : List Bytes) (dst : Bytes)
    (f : List (Option V) → Option (Option V)) (now : ℤ) : Except Failure (RedisServer C V) := do
  let rs ← lookupKeys s d now sources
  match f rs.2 with
  | none => .ok rs.1
  | some result => do
    let r ← dbDelete rs.1 d dst
    let s := if r.2 then signalModifiedKey r.1 d dst else r.1
    match result with
    | none => .ok s
    | some val => do
      let s ← dbAdd s d dst val
      .ok (if r.2 then s else signalModifiedKey s d dst)

/-- `sortCommand` with `STORE`, `bitopCommand`. -/
def sortCommand (s : RedisServer C V) (d : ℕ) (sources : List Bytes) (dst : Bytes)
    (f : List (Option V) → Option (Option V)) (now : ℤ) : Except Failure (RedisServer C V) := do
  let rs ← lookupKeys s d now sources
  match f rs.2 with
  | none => .ok rs.1
  | some (some val) => setKey rs.1 d dst val now
  | some none => deleteSignal rs.1 d dst

/-- `restoreCommand`, with a valid payload. -/
def restoreCommand (s : RedisServer C V) (d : ℕ) (key : Bytes) (val : V) (ttl : ℤ) (replace : Bool)
    (now : ℤ) : Except Failure (RedisServer C V) := do
  let r ← (if replace then .ok (s, none) else lookupKeyWrite s d key now)
  if r.2.isSome then .ok r.1
  else if ttl < 0 then .ok r.1
  else do
    let r ← (if replace then dbDelete r.1 d key else .ok (r.1, false))
    let s ← dbAdd r.1 d key val
    let s ← (if ttl ≠ 0 then setExpire s d key (now + ttl) else .ok s)
    .ok (signalModifiedKey s d key)

/-- `migrateCommand`, where it succeeds. -/
def migrateCommand (s : RedisServer C V) (d : ℕ) (key : Bytes) (copy : Bool) (now : ℤ) :
    Except Failure (RedisServer C V) := do
  let r ← lookupKeyWrite s d key now
  if r.2.isNone || copy then .ok r.1
  else do
    let r ← dbDelete r.1 d key
    .ok (signalModifiedKey r.1 d key)

def delCommand (s : RedisServer C V) (d : ℕ) (keys : List Bytes) (now : ℤ) :
    Except Failure (RedisServer C V) :=
  keys.foldlM (fun s key => do
    let r ← expireIfNeeded s d key now
    deleteSignal r.1 d key) s

def flushdbCommand (s : RedisServer C V) (d : ℕ) : RedisServer C V :=
  let s := emptyDbs (signalFlushedDb s (some d)) fun d' => decide (d' = d)
  if s.clusterEnabled then slotToKeyFlush s else s

def flushallCommand (s : RedisServer C V) : RedisServer C V :=
  emptyDb (signalFlushedDb s none)

def renameGenericCommand (s : RedisServer C V) (d : ℕ) (src dst : Bytes) (nx : Bool) (now : ℤ) :
    Except Failure (RedisServer C V) := do
  if src = dst then .ok s
  else do
    let r ← lookupKeyWrite s d src now
    match r.2 with
    | none => .ok r.1
    | some o => do
      let expire ← getExpire r.1 d src
      let r' ← lookupKeyWrite r.1 d dst now
      if r'.2.isSome && nx then .ok r'.1
      else do
        let r ← (if r'.2.isSome then dbDelete r'.1 d dst else .ok (r'.1, false))
        let s ← dbAdd r.1 d dst o
        let s ← (if expire ≠ -1 then setExpire s d dst expire else .ok s)
        let r ← dbDelete s d src
        .ok (signalModifiedKey (signalModifiedKey r.1 d src) d dst)

def moveCommand (s : RedisServer C V) (d : ℕ) (key : Bytes) (db : ℤ) (now : ℤ) :
    Except Failure (RedisServer C V) := do
  if s.clusterEnabled then .ok s
  else if db < 0 ∨ (s.dbnum : ℤ) ≤ db then .ok s
  else if db.toNat = d then .ok s
  else do
    let r ← lookupKeyWrite s d key now
    match r.2 with
    | none => .ok r.1
    | some o => do
      let r' ← lookupKeyWrite r.1 db.toNat key now
      if r'.2.isSome then .ok r'.1
      else do
        let s ← dbAdd r'.1 db.toNat key o
        let r ← dbDelete s d key
        .ok r.1

/-- `expireGenericCommand`; `when` is the absolute time in milliseconds. -/
def expireGenericCommand (s : RedisServer C V) (d : ℕ) (key : Bytes) (when : ℤ) (now : ℤ) :
    Except Failure (RedisServer C V) := do
  let r ← lookupKeyWrite s d key now
  if r.2.isNone then .ok r.1
  else if when ≤ now ∧ s.loading = false ∧ s.masterhost = false then do
    let r ← dbDelete r.1 d key
    if r.2 then .ok (signalModifiedKey r.1 d key) else .error .expireGenericCommand
  else do
    let s ← setExpire r.1 d key when
    .ok (signalModifiedKey s d key)

def persistCommand (s : RedisServer C V) (d : ℕ) (key : Bytes) :
    Except Failure (RedisServer C V) := do
  if ((s.db d).dict key).isNone then .ok s
  else do
    let r ← removeExpire s d key
    .ok r.1

def selectCommand (s : RedisServer C V) (c : C) (db : ℤ) : RedisServer C V :=
  if s.clusterEnabled ∧ db ≠ 0 then s
  else if db < 0 ∨ (s.dbnum : ℤ) ≤ db then s
  else { s with client := Function.update s.client c { s.client c with db := db.toNat } }

/-- The loop of `DEBUG POPULATE`. -/
def populateCommand (s : RedisServer C V) (d : ℕ) (pairs : List (Bytes × V)) (now : ℤ) :
    Except Failure (RedisServer C V) :=
  pairs.foldlM (fun s p => do
    let r ← lookupKeyWrite s d p.1 now
    if r.2.isSome then .ok r.1 else dbAdd r.1 d p.1 p.2) s

/-- A client blocked on a list: the list without the element it gets, and the destination with
the element, `none` where the destination is no list. -/
structure Receiver (V : Type) where
  pop : V → V
  dstkey : Option Bytes
  push : V → Option V → Option V

/-- One turn of the inner loop of `handleClientsBlockedOnLists`, as far as the keys go. -/
def serveClient (s : RedisServer C V) (d : ℕ) (key : Bytes) (now : ℤ) (receiver : Receiver V) :
    Except Failure (RedisServer C V) :=
  match lookupKey s d key with
  | none => .error .memory
  | some o => do
    let s ← dbOverwrite s d key (receiver.pop o)
    match receiver.dstkey with
    | none => .ok s
    | some dstkey => do
      let r ← lookupKeyWrite s d dstkey now
      match receiver.push o r.2 with
      | none => dbOverwrite r.1 d key o
      | some val => rpoplpushHandlePush r.1 d dstkey r.2 val

/-- What `handleClientsBlockedOnLists` does for one ready key. -/
def serveKey (s : RedisServer C V) (d : ℕ) (key : Bytes) (receivers : List (Receiver V))
    (isList isEmpty : V → Bool) (now : ℤ) : Except Failure (RedisServer C V) := do
  let r ← lookupKeyWrite s d key now
  if r.2.any isList then do
    let s ← receivers.foldlM (fun s receiver => serveClient s d key now receiver) r.1
    if (lookupKey s d key).any isEmpty then do
      let r ← dbDelete s d key
      .ok r.1
    else .ok s
  else .ok r.1

/-- `call`: a command of a client is executed. -/
def call (s : RedisServer C V) (c : C) (now : ℤ) : Command V → Except Failure (RedisServer C V)
  | .set key val nx xx ms => setGenericCommand s (s.client c).db key val nx xx ms now
  | .getset key val isString => getsetCommand s (s.client c).db key val isString now
  | .mset pairs nx => msetGenericCommand s (s.client c).db pairs nx now
  | .incrDecr key new => incrDecrCommand s (s.client c).db key new now
  | .update sources key f => updateCommand s (s.client c).db sources key f now
  | .pfadd key new add => pfaddCommand s (s.client c).db key new add now
  | .pfdebug key toDense => pfdebugCommand s (s.client c).db key toDense now
  | .smove src dst move => smoveCommand s (s.client c).db src dst move now
  | .rpoplpush src dst pop push rotate =>
    rpoplpushCommand s (s.client c).db src dst pop push rotate now
  | .sinterstore sources dst inter => sinterGenericCommand s (s.client c).db sources dst inter now
  | .sunionDiff sources dst f => sunionDiffGenericCommand s (s.client c).db sources dst f now
  | .zunionInter sources dst f => zunionInterGenericCommand s (s.client c).db sources dst f now
  | .storeKey sources dst f => sortCommand s (s.client c).db sources dst f now
  | .restore key val ttl replace => restoreCommand s (s.client c).db key val ttl replace now
  | .migrate key copy => migrateCommand s (s.client c).db key copy now
  | .del keys => delCommand s (s.client c).db keys now
  | .flushdb => .ok (flushdbCommand s (s.client c).db)
  | .flushall => .ok (flushallCommand s)
  | .rename src dst nx => renameGenericCommand s (s.client c).db src dst nx now
  | .move key db => moveCommand s (s.client c).db key db now
  | .expire key when => expireGenericCommand s (s.client c).db key when now
  | .persist key => persistCommand s (s.client c).db key
  | .select db => .ok (selectCommand s c db)
  | .read keys => do
    let r ← lookupKeys s (s.client c).db now keys
    .ok r.1
  | .populate pairs => populateCommand s (s.client c).db pairs now

/-! ### Runs -/

def activeExpireCycleTryExpire (s : RedisServer C V) (d : ℕ) (key : Bytes) (now : ℤ) :
    Except Failure (RedisServer C V) :=
  match (s.db d).expires key with
  | none => .ok s
  | some t =>
    if now > t then do
      let r ← dbDelete s d key
      .ok r.1
    else .ok s

/-- The deletion of the key that `freeMemoryIfNeeded` has picked. -/
def freeMemoryIfNeeded (s : RedisServer C V) (d : ℕ) (key : Bytes) :
    Except Failure (RedisServer C V) :=
  if ((s.db d).dict key).isSome then do
    let r ← dbDelete s d key
    .ok r.1
  else .ok s

end

inductive KeyspaceEvent (C V : Type) where
  | call (c : C) (now : ℤ) (cmd : Command V)
  /-- The clients blocked on a list in the database of `c` are served. -/
  | serve (c : C) (now : ℤ) (key : Bytes) (receivers : List (Receiver V))
      (isList isEmpty : V → Bool)
  | tryExpire (d : ℕ) (now : ℤ) (key : Bytes)
  | evict (d : ℕ) (key : Bytes)
  /-- `cluster.c` deletes the keys of a slot. -/
  | delKeysInSlot (slot : ℕ)
  /-- The data set is dropped, for another one from the master. -/
  | emptyDb
  | config (masterhost loading : Bool)

/-- One step. -/
def keyspaceStep {C V : Type} [DecidableEq C] (s : RedisServer C V) :
    KeyspaceEvent C V → Except Failure (RedisServer C V)
  | .call c now cmd => call s c now cmd
  | .serve c now key receivers isList isEmpty =>
    serveKey s (s.client c).db key receivers isList isEmpty now
  | .tryExpire d now key => activeExpireCycleTryExpire s d key now
  | .evict d key => freeMemoryIfNeeded s d key
  | .delKeysInSlot slot =>
    if s.clusterEnabled then do
      let r ← RedisServer.delKeysInSlot s slot
      .ok r.1
    else .ok s
  | .emptyDb => .ok (RedisServer.emptyDb (signalFlushedDb s none))
  | .config masterhost loading => .ok { s with masterhost, loading }

/-- A server that was just started, with at least one database. -/
def initServer {C V : Type} (dbs : ℕ) (clusterEnabled : Bool) (clients : List C)
    (levels : ℕ → Fin 32) : RedisServer C V where
  db := fun _ => ⟨fun _ => none, fun _ => none, fun _ => []⟩
  dbnum := dbs + 1
  clients := clients
  client := fun _ => ⟨0, [], false⟩
  slotsToKeys := zslCreate
  inserted := 0
  levels := levels
  clusterEnabled := clusterEnabled
  masterhost := false
  loading := false

end RedisServer

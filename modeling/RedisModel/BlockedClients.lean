/-
Clients that wait (`blocked.c`, and the parts of `t_list.c`, `replication.c` and `networking.c`
that block and free clients).

* `blockForKeys`, `waitForReplicas` — a client starts to wait for lists or for replicas;
* `unblockClient` — it stops, and its input is processed later;
* `freeClient` — it goes away;
* `clientsArePaused` — the pause of all clients, which ends as a side effect.

A client is an address: `client` is `none` where no client is allocated, and its use there is a
failure.  Dictionaries are functions; a key without waiting clients has the empty list in
`blockingKeys`.
-/
import RedisModel.Ensures
import Mathlib.Logic.Function.Basic
import Mathlib.Data.Int.Notation
import Mathlib.Data.Nat.Notation

open Except

namespace BlockingServer

inductive Failure where
  | redisAssert
  | redisPanic
  /-- The use of memory that is not allocated. -/
  | memory
  /-- A loop that does not end. -/
  | loop
  deriving DecidableEq

abbrev ClientId := ℕ

/-- `REDIS_HEAD` and `REDIS_TAIL`. -/
inductive Where where
  | head
  | tail
  deriving DecidableEq

/-- `REDIS_BLOCKED_NONE`, `REDIS_BLOCKED_LIST` and `REDIS_BLOCKED_WAIT`. -/
inductive BlockType where
  | none
  | list
  | wait
  deriving DecidableEq

/-- What `lastcmd` is compared with. -/
inductive LastCommand where
  | blpop
  | brpop
  | brpoplpush
  | other
  deriving DecidableEq

structure BlockingState (K : Type) where
  timeout : ℤ
  keys : List K
  target : Option K
  numreplicas : ℤ
  reploffset : ℤ

/-- A value of a key: a list, or an object of another type. -/
inductive Object (V : Type) where
  | list (elems : List V)
  | other (val : V)

/-- A value with the time at which it expires. -/
structure Entry (V : Type) where
  value : Object V
  expire : Option ℤ

/-- The keys of a database. -/
abbrev Dataset (K V : Type) := K → Option (Entry V)

/-- The key has a list. -/
def HasList {V : Type} (entry : Option (Entry V)) : Prop := ∃ e l, entry = some e ∧ e.value = .list l

structure RedisDb (K V : Type) where
  dict : Dataset K V
  blockingKeys : K → List ClientId
  readyKeys : K → Bool

/-- A command that creates no list and blocks no client: what it does to the databases. -/
structure DataOp (K V : Type) where
  apply : (ℕ → Dataset K V) → ℕ → Dataset K V
  hasList : ∀ db d k, HasList (apply db d k) → HasList (db d k)

/-- The commands.  `sort` is the result of `SORT` for a value, `none` if the value cannot be
sorted. -/
inductive Command (K V : Type) where
  | push (at_ : Where) (key : K) (value : V) (values : List V)
  | pop (at_ : Where) (key : K)
  | rpoplpush (src dst : K)
  | blockingPop (at_ : Where) (key : K) (keys : List K) (timeout : ℤ)
  | brpoplpush (src dst : K) (timeout : ℤ)
  | wait (numreplicas timeout : ℤ)
  | rename (src dst : K) (nx : Bool)
  | move (key : K) (dst : ℕ)
  | sortStore (key dst : K) (sort : Option (Object V) → Option (List V))
  | restore (key : K) (val : Object V) (ttl : ℤ) (replace : Bool)
  | data (op : DataOp K V)
  | select (db : ℕ)
  | clientPause (end_ : ℤ)
  | clientKill (id : ClientId)
  /-- `SYNC`, `PSYNC` and `MONITOR`. -/
  | sync

/-- What a client sends.  `exec` says whether the transaction is aborted, `refused` is a command
that `processCommand` answers with an error. -/
inductive Request (K V : Type) where
  | command (cmd : Command K V)
  | quit
  | multi
  | exec (dirty : Bool)
  | discard
  | script (cmds : List (Command K V))
  | refused

/-- `redisClient`.  `connected` says that `fd` is not -1; a command in `mstate` comes with whether
a script calls it. -/
structure RedisClient (K V : Type) where
  db : ℕ
  connected : Bool
  slave : Bool
  master : Bool
  multi : Bool
  closeAfterReply : Bool
  closeAsap : Bool
  blocked : Bool
  unblocked : Bool
  btype : BlockType
  bpop : BlockingState K
  lastcmd : LastCommand
  woff : ℤ
  mstate : List (Bool × Command K V)
  querybuf : List (Request K V)

/-- What a client that waited for a list got. -/
inductive ServeOutcome where
  /-- The element was sent to the client. -/
  | delivered
  /-- It was pushed to the target list and sent to the client. -/
  | pushed
  /-- The target has the wrong type, and the element went back. -/
  | failed
  deriving DecidableEq

/-- What `handleClientsBlockedOnLists` does to the keys: it serves a client, or it finds that a
key is expired. -/
inductive Effect (K V : Type) where
  | serve (db : ℕ) (key : K) (client : ClientId) (at_ : Where) (target : Option K) (value : V)
      (outcome : ServeOutcome)
  | expire (db : ℕ) (key : K)

/-- The commands that are propagated. -/
inductive Propagated (K V : Type) where
  | pop (at_ : Where) (key : K)
  | lpush (key : K) (value : V)
  | del (key : K)

/-- `redisServer`.  `now` is the time of `mstime()`, `mstime` the cached one; `slaveOffsets` are
the acknowledged offsets of the slaves.  `effects` is the history of what was done to the keys
by `expireIfNeeded` and for waiting clients, `propagated` that of what was propagated for it. -/
structure RedisServer (K V : Type) where
  db : ℕ → RedisDb K V
  client : ClientId → Option (RedisClient K V)
  clients : List ClientId
  unblockedClients : List ClientId
  readyKeys : List (ℕ × K)
  clientsWaitingAcks : List ClientId
  bpopBlockedClients : ℤ
  clientsPaused : Bool
  clientsPauseEndTime : ℤ
  now : ℤ
  mstime : ℤ
  slaveOffsets : List ℤ
  masterReplOffset : ℤ
  masterhost : Bool
  master : Option ClientId
  cachedMaster : Option ClientId
  effects : List (Effect K V)
  propagated : List (ℕ × Propagated K V)

section
variable {K V : Type}

def redisAssert (p : Prop) [Decidable p] : Except Failure Unit :=
  if p then .ok () else .error .redisAssert

namespace RedisServer

/-- The client at an address. -/
def getClient (s : RedisServer K V) (id : ClientId) : Except Failure (RedisClient K V) :=
  match s.client id with
  | some c => .ok c
  | none => .error .memory

/-- Write to a client that is allocated. -/
def setClient (s : RedisServer K V) (id : ClientId) (c : RedisClient K V) : RedisServer K V :=
  { s with client := Function.update s.client id (some c) }

/-- Change a database. -/
def setDb (s : RedisServer K V) (d : ℕ) (db : RedisDb K V) : RedisServer K V :=
  { s with db := Function.update s.db d db }

end RedisServer

open RedisServer

/-! ### Blocking -/

def blockClient (s : RedisServer K V) (id : ClientId) (btype : BlockType) :
    Except Failure (RedisServer K V) := do
  let c ← s.getClient id
  let s := s.setClient id { c with blocked := true, btype }
  .ok { s with bpopBlockedClients := s.bpopBlockedClients + 1 }

section
variable [DecidableEq K]

/-- A round of the loop of `blockForKeys`. -/
def blockForKey (id : ClientId) (s : RedisServer K V) (key : K) :
    Except Failure (RedisServer K V) := do
  let c ← s.getClient id
  if key ∈ c.bpop.keys then .ok s
  else
    let s := s.setClient id { c with bpop := { c.bpop with keys := c.bpop.keys ++ [key] } }
    let db := s.db c.db
    let waiting := Function.update db.blockingKeys key (db.blockingKeys key ++ [id])
    .ok (s.setDb c.db { db with blockingKeys := waiting })

def blockForKeys (s : RedisServer K V) (id : ClientId) (keys : List K) (timeout : ℤ)
    (target : Option K) : Except Failure (RedisServer K V) := do
  let c ← s.getClient id
  let s := s.setClient id { c with bpop := { c.bpop with timeout, target } }
  let s ← keys.foldlM (blockForKey id) s
  blockClient s id .list

end

/-- The part of `waitCommand` that blocks. -/
def waitForReplicas (s : RedisServer K V) (id : ClientId) (numreplicas timeout offset : ℤ) :
    Except Failure (RedisServer K V) := do
  let c ← s.getClient id
  let s := s.setClient id
    { c with bpop := { c.bpop with timeout, numreplicas, reploffset := offset } }
  let s := { s with clientsWaitingAcks := s.clientsWaitingAcks ++ [id] }
  blockClient s id .wait

/-! ### Unblocking -/

section
variable [DecidableEq K]

/-- A round of the loop of `unblockClientWaitingData`. -/
def removeWaiting (id : ClientId) (d : ℕ) (s : RedisServer K V) (key : K) :
    Except Failure (RedisServer K V) := do
  let db := s.db d
  redisAssert (db.blockingKeys key ≠ [])
  -- `listDelNode` of the result of `listSearchKey`
  if id ∈ db.blockingKeys key then
    let waiting := Function.update db.blockingKeys key ((db.blockingKeys key).erase id)
    .ok (s.setDb d { db with blockingKeys := waiting })
  else .error .memory

def unblockClientWaitingData (s : RedisServer K V) (id : ClientId) :
    Except Failure (RedisServer K V) := do
  let c ← s.getClient id
  redisAssert (c.bpop.keys ≠ [])
  let s ← c.bpop.keys.foldlM (removeWaiting id c.db) s
  .ok (s.setClient id { c with bpop := { c.bpop with keys := [], target := none } })

end

def unblockClientWaitingReplicas (s : RedisServer K V) (id : ClientId) :
    Except Failure (RedisServer K V) := do
  redisAssert (id ∈ s.clientsWaitingAcks)
  .ok { s with clientsWaitingAcks := s.clientsWaitingAcks.erase id }

section
variable [DecidableEq K]

def unblockClient (s : RedisServer K V) (id : ClientId) : Except Failure (RedisServer K V) := do
  let c ← s.getClient id
  let s ← (match c.btype with
    | .list => unblockClientWaitingData s id
    | .wait => unblockClientWaitingReplicas s id
    | .none => .error .redisPanic)
  let c ← s.getClient id
  let s := s.setClient id { c with blocked := false, unblocked := true, btype := .none }
  .ok { s with
    bpopBlockedClients := s.bpopBlockedClients - 1
    unblockedClients := s.unblockedClients ++ [id] }

/-- `replyToBlockedClientTimedOut`; the reply itself is left out. -/
def replyToBlockedClientTimedOut (s : RedisServer K V) (id : ClientId) : Except Failure Unit := do
  let c ← s.getClient id
  if c.btype = .none then .error .redisPanic else .ok ()

/-- The part of `clientsCronHandleTimeout` about blocked clients. -/
def clientsCronHandleTimeout (s : RedisServer K V) (id : ClientId) :
    Except Failure (RedisServer K V) := do
  let c ← s.getClient id
  if c.blocked ∧ c.bpop.timeout ≠ 0 ∧ c.bpop.timeout < s.now then do
    replyToBlockedClientTimedOut s id
    unblockClient s id
  else .ok s

/-! ### Replicas -/

def replicationCountAcksByOffset (s : RedisServer K V) (offset : ℤ) : ℤ :=
  s.slaveOffsets.countP (offset ≤ ·)

/-- A round of the loop of `processClientsWaitingReplicas`, with `last_offset` and
`last_numreplicas`. -/
def processClientWaitingReplicas (p : RedisServer K V × ℤ × ℤ) (id : ClientId) :
    Except Failure (RedisServer K V × ℤ × ℤ) := do
  let (s, lastOffset, lastNumreplicas) := p
  let c ← s.getClient id
  if lastOffset ≠ 0 ∧ lastOffset > c.bpop.reploffset ∧ lastNumreplicas > c.bpop.numreplicas then do
    let s ← unblockClient s id
    .ok (s, lastOffset, lastNumreplicas)
  else
    let numreplicas := replicationCountAcksByOffset s c.bpop.reploffset
    if numreplicas ≥ c.bpop.numreplicas then do
      let s ← unblockClient s id
      .ok (s, c.bpop.reploffset, numreplicas)
    else .ok p

/-- `processClientsWaitingReplicas`: only the client of the round leaves the list. -/
def processClientsWaitingReplicas (s : RedisServer K V) : Except Failure (RedisServer K V) := do
  let p ← s.clientsWaitingAcks.foldlM processClientWaitingReplicas (s, 0, 0)
  .ok p.1

/-! ### Freeing -/

def replicationCacheMaster (s : RedisServer K V) (id : ClientId) :
    Except Failure (RedisServer K V) := do
  redisAssert (s.master.isSome ∧ s.cachedMaster.isNone)
  let c ← s.getClient id
  redisAssert (id ∈ s.clients)
  let s := s.setClient id { c with connected := false }
  .ok { s with clients := s.clients.erase id, cachedMaster := s.master, master := none }

/-- The rest of `freeClient`, when the client is not blocked any more. -/
def releaseClient (s : RedisServer K V) (id : ClientId) : Except Failure (RedisServer K V) := do
  let c ← s.getClient id
  redisAssert (c.connected = true → id ∈ s.clients)
  let s := if c.connected then { s with clients := s.clients.erase id } else s
  redisAssert (c.unblocked = true → id ∈ s.unblockedClients)
  let s := if c.unblocked then { s with unblockedClients := s.unblockedClients.erase id } else s
  let s := if c.master then { s with master := none } else s
  .ok { s with client := Function.update s.client id none }

/-- `freeClient`; the client of the master is kept. -/
def freeClient (s : RedisServer K V) (id : ClientId) : Except Failure (RedisServer K V) := do
  let c ← s.getClient id
  if s.master.isSome ∧ c.master ∧ ¬(c.closeAfterReply ∨ c.closeAsap ∨ c.blocked ∨ c.unblocked) then
    replicationCacheMaster s id
  else do
    let s ← (if c.blocked then unblockClient s id else .ok s)
    releaseClient s id

def replicationDiscardCachedMaster (s : RedisServer K V) : Except Failure (RedisServer K V) :=
  match s.cachedMaster with
  | none => .ok s
  | some id => do
    let c ← s.getClient id
    let s ← freeClient (s.setClient id { c with master := false }) id
    .ok { s with cachedMaster := none }

def replicationResurrectCachedMaster (s : RedisServer K V) : Except Failure (RedisServer K V) :=
  match s.cachedMaster with
  | none => .error .memory
  | some id => do
    let c ← s.getClient id
    let s := s.setClient id
      { c with connected := true, closeAfterReply := false, closeAsap := false }
    .ok { s with clients := s.clients ++ [id], master := some id, cachedMaster := none }

end

/-! ### Pauses -/

def pauseClients (s : RedisServer K V) (end_ : ℤ) : RedisServer K V :=
  { s with
    clientsPauseEndTime :=
      if !s.clientsPaused ∨ end_ > s.clientsPauseEndTime then end_ else s.clientsPauseEndTime
    clientsPaused := true }

/-- The clients that are put into the list when a pause ends. -/
def notSlaves (s : RedisServer K V) : List ClientId :=
  s.clients.filter fun id => (s.client id).any fun c => !c.slave

/-- The test of `clientsArePaused` for the end of the pause. -/
def pauseOver (s : RedisServer K V) : Bool :=
  s.clientsPaused ∧ s.clientsPauseEndTime < s.mstime

def clientsArePaused (s : RedisServer K V) : RedisServer K V × Bool :=
  if pauseOver s then
    ({ s with
        clientsPaused := false
        unblockedClients := s.unblockedClients ++ notSlaves s }, false)
  else (s, s.clientsPaused)

end

end BlockingServer

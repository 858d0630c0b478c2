/-
List commands and the clients that wait for lists (`t_list.c`, `db.c`, `sort.c`, `redis.c`).

* `signalListAsReady` — a key for which clients wait gets a list;
* `handleClientsBlockedOnLists` — the clients that wait for the keys that were signalled;
* `call` — the commands, with those that can create a list or block the client;
* `processInputBufferRound` — a request of a client;
* `step` — the events of the server.

The loops of `processInputBuffer` and `processUnblockedClients` are taken apart: an event is one
round of them, so that the runs of the server are among the runs of these events.
-/
import RedisModel.BlockedClients

open Except

namespace BlockingServer

open RedisServer

/-! ### Lists -/

section
variable {V : Type}

def listTypePush (l : List V) (value : V) : Where → List V
  | .head => value :: l
  | .tail => l ++ [value]

/-- `listTypePop`: the value and what is left. -/
def listTypePop (l : List V) : Where → Option (V × List V)
  | .head => match l with
    | [] => none
    | v :: rest => some (v, rest)
  | .tail => match l.getLast? with
    | none => none
    | some v => some (v, l.dropLast)

end

section
variable {K V : Type} [DecidableEq K]

/-! ### Keys -/

/-- Write to the dictionary of a database. -/
def setDict (s : RedisServer K V) (d : ℕ) (key : K) (entry : Option (Entry V)) :
    RedisServer K V :=
  s.setDb d { s.db d with dict := Function.update (s.db d).dict key entry }

def dbDelete (s : RedisServer K V) (d : ℕ) (key : K) : RedisServer K V := setDict s d key none

/-- `dbAdd`, with the `setExpire` that may follow. -/
def dbAdd (s : RedisServer K V) (d : ℕ) (key : K) (entry : Entry V) :
    Except Failure (RedisServer K V) := do
  redisAssert (((s.db d).dict key).isNone = true)
  .ok (setDict s d key (some entry))

def propagate (s : RedisServer K V) (d : ℕ) (cmd : Propagated K V) : RedisServer K V :=
  { s with propagated := s.propagated ++ [(d, cmd)] }

/-- Add to the history. -/
def record (s : RedisServer K V) (effect : Effect K V) : RedisServer K V :=
  { s with effects := s.effects ++ [effect] }

/-- Whether `expireIfNeeded` deletes a key. -/
def expired (s : RedisServer K V) (entry : Option (Entry V)) : Bool :=
  match entry.bind Entry.expire with
  | none => false
  | some at_ => !s.masterhost && decide (0 ≤ at_) && decide (at_ < s.now)

def expireIfNeeded (s : RedisServer K V) (d : ℕ) (key : K) : RedisServer K V :=
  if expired s ((s.db d).dict key) then
    dbDelete (record (propagate s d (.del key)) (.expire d key)) d key
  else s

def lookupKeyWrite (s : RedisServer K V) (d : ℕ) (key : K) : RedisServer K V × Option (Entry V) :=
  let s := expireIfNeeded s d key
  (s, (s.db d).dict key)

def setKey (s : RedisServer K V) (d : ℕ) (key : K) (value : Object V) : RedisServer K V :=
  setDict (lookupKeyWrite s d key).1 d key (some ⟨value, none⟩)

def signalListAsReady (s : RedisServer K V) (d : ℕ) (key : K) : RedisServer K V :=
  if (s.db d).blockingKeys key = [] then s
  else if (s.db d).readyKeys key then s
  else
    let s := { s with readyKeys := s.readyKeys ++ [(d, key)] }
    s.setDb d { s.db d with readyKeys := Function.update (s.db d).readyKeys key true }

/-! ### Commands on lists -/

def pushGenericCommand (s : RedisServer K V) (d : ℕ) (at_ : Where) (key : K) (values : List V) :
    Except Failure (RedisServer K V) :=
  let (s, lobj) := lookupKeyWrite s d key
  match lobj with
  | none =>
    dbAdd (signalListAsReady s d key) d key
      ⟨.list (values.foldl (listTypePush · · at_) []), none⟩
  | some e =>
    match e.value with
    | .other _ => .ok s
    | .list l =>
      .ok (setDict s d key (some { e with value := .list (values.foldl (listTypePush · · at_) l) }))

def popGenericCommand (s : RedisServer K V) (d : ℕ) (at_ : Where) (key : K) :
    RedisServer K V :=
  let (s, o) := lookupKeyWrite s d key
  match o with
  | none => s
  | some e =>
    match e.value with
    | .other _ => s
    | .list l =>
      match listTypePop l at_ with
      | none => s
      | some (_, rest) =>
        let s := setDict s d key (some { e with value := .list rest })
        if rest = [] then dbDelete s d key else s

/-- `rpoplpushHandlePush`; `found` says that `dstobj` is not `NULL`.  The object may have been
changed since it was looked up. -/
def rpoplpushHandlePush (s : RedisServer K V) (d : ℕ) (dstkey : K) (found : Bool) (value : V) :
    Except Failure (RedisServer K V) :=
  if found then
    match (s.db d).dict dstkey with
    | some ⟨.list l, expire⟩ => .ok (setDict s d dstkey (some ⟨.list (listTypePush l value .head), expire⟩))
    | _ => .error .memory
  else do
    let s ← dbAdd s d dstkey ⟨.list [], none⟩
    let s := signalListAsReady s d dstkey
    .ok (setDict s d dstkey (some ⟨.list (listTypePush [] value .head), none⟩))

/-- The key has an object that is not a list. -/
def wrongType (entry : Option (Entry V)) : Bool :=
  match entry with
  | some ⟨.other _, _⟩ => true
  | _ => false

/-- Delete a key with an empty list. -/
def deleteIfEmpty (s : RedisServer K V) (d : ℕ) (key : K) : RedisServer K V :=
  match (s.db d).dict key with
  | some ⟨.list [], _⟩ => dbDelete s d key
  | _ => s

def rpoplpushCommand (s : RedisServer K V) (d : ℕ) (src dst : K) :
    Except Failure (RedisServer K V) :=
  let (s, sobj) := lookupKeyWrite s d src
  match sobj with
  | none => .ok s
  | some e =>
    match e.value with
    | .other _ => .ok s
    | .list l =>
      if l = [] then .ok s
      else
        let (s, dobj) := lookupKeyWrite s d dst
        if wrongType dobj then .ok s
        else
          match listTypePop l .tail with
          | none => .error .memory
          | some (value, rest) => do
            let s := setDict s d src (some { e with value := .list rest })
            let s ← rpoplpushHandlePush s d dst dobj.isSome value
            .ok (deleteIfEmpty s d src)

/-- The loop of `blockingPopGenericCommand`: whether the command is over. -/
def blockingPopKeys (d : ℕ) (at_ : Where) : RedisServer K V → List K → RedisServer K V × Bool
  | s, [] => (s, false)
  | s, key :: keys =>
    let (s, o) := lookupKeyWrite s d key
    match o with
    | none => blockingPopKeys d at_ s keys
    | some e =>
      match e.value with
      | .other _ => (s, true)
      | .list l =>
        match listTypePop l at_ with
        | none => blockingPopKeys d at_ s keys
        | some (_, rest) =>
          let s := setDict s d key (some { e with value := .list rest })
          (if rest = [] then dbDelete s d key else s, true)

/-- `blockingPopGenericCommand`; `multi` is the flag `REDIS_MULTI`. -/
def blockingPopGenericCommand (s : RedisServer K V) (id : ClientId) (d : ℕ) (multi : Bool)
    (at_ : Where) (keys : List K) (timeout : ℤ) : Except Failure (RedisServer K V) :=
  let (s, ended) := blockingPopKeys d at_ s keys
  if ended ∨ multi then .ok s else blockForKeys s id keys timeout none

def brpoplpushCommand (s : RedisServer K V) (id : ClientId) (d : ℕ) (multi : Bool) (src dst : K)
    (timeout : ℤ) : Except Failure (RedisServer K V) :=
  let (s, key) := lookupKeyWrite s d src
  match key with
  | none => if multi then .ok s else blockForKeys s id [src] timeout (some dst)
  | some e =>
    match e.value with
    | .other _ => .ok s
    | .list l => do
      redisAssert (l ≠ [])
      rpoplpushCommand s d src dst

def waitCommand (s : RedisServer K V) (id : ClientId) (numreplicas timeout : ℤ) :
    Except Failure (RedisServer K V) := do
  let c ← s.getClient id
  if replicationCountAcksByOffset s c.woff ≥ numreplicas ∨ c.multi then .ok s
  else waitForReplicas s id numreplicas timeout c.woff

/-! ### Other commands that store values -/

def renameGenericCommand (s : RedisServer K V) (d : ℕ) (src dst : K) (nx : Bool) :
    Except Failure (RedisServer K V) :=
  if src = dst then .ok s
  else
    let (s, o) := lookupKeyWrite s d src
    match o with
    | none => .ok s
    | some e =>
      let (s, old) := lookupKeyWrite s d dst
      if old.isSome ∧ nx then .ok s
      else do
        let s := if old.isSome then dbDelete s d dst else s
        -- `getExpire` answers -1 for a key without a time of expiry
        let s ← dbAdd s d dst { e with expire := if e.expire = some (-1) then none else e.expire }
        .ok (dbDelete s d src)

def moveCommand (s : RedisServer K V) (src : ℕ) (key : K) (dst : ℕ) :
    Except Failure (RedisServer K V) :=
  if src = dst then .ok s
  else
    let (s, o) := lookupKeyWrite s src key
    match o with
    | none => .ok s
    | some e =>
      let (s, old) := lookupKeyWrite s dst key
      if old.isSome then .ok s
      else do
        let s ← dbAdd s dst key { e with expire := none }
        .ok (dbDelete s src key)

/-- `sortCommand` with `STORE`. -/
def sortStoreCommand (s : RedisServer K V) (d : ℕ) (key dst : K)
    (sort : Option (Object V) → Option (List V)) : RedisServer K V :=
  let (s, o) := lookupKeyWrite s d key
  match sort (o.map Entry.value) with
  | none => s
  | some elems => if elems = [] then dbDelete s d dst else setKey s d dst (.list elems)

def restoreCommand (s : RedisServer K V) (d : ℕ) (key : K) (val : Object V) (ttl : ℤ)
    (replace : Bool) : Except Failure (RedisServer K V) :=
  let (s, old) := if replace then (s, none) else lookupKeyWrite s d key
  if old.isSome then .ok s
  else
    let s := if replace then dbDelete s d key else s
    dbAdd s d key ⟨val, if ttl = 0 then none else some (s.now + ttl)⟩

/-- The databases after a command that creates no list. -/
def applyOp (s : RedisServer K V) (op : DataOp K V) : RedisServer K V :=
  { s with db := fun d => { s.db d with dict := op.apply (fun d => (s.db d).dict) d } }

/-- `CLIENT KILL` of a client; the client of a script is not the one that calls it. -/
def clientKill (s : RedisServer K V) (id : ClientId) (script : Bool) (target : ClientId) :
    Except Failure (RedisServer K V) := do
  if target ∉ s.clients then .ok s
  else if target = id ∧ ¬script then do
    let c ← s.getClient id
    .ok (s.setClient id { c with closeAfterReply := true })
  else freeClient s target

/-- `call`.  The commands that block are not allowed in scripts. -/
def call (id : ClientId) (script : Bool) (s : RedisServer K V) (cmd : Command K V) :
    Except Failure (RedisServer K V) := do
  let c ← s.getClient id
  match cmd with
  | .push at_ key value values => pushGenericCommand s c.db at_ key (value :: values)
  | .pop at_ key => .ok (popGenericCommand s c.db at_ key)
  | .rpoplpush src dst => rpoplpushCommand s c.db src dst
  | .blockingPop at_ key keys timeout =>
    if script then .ok s
    else blockingPopGenericCommand s id c.db c.multi at_ (key :: keys) timeout
  | .brpoplpush src dst timeout =>
    if script then .ok s else brpoplpushCommand s id c.db c.multi src dst timeout
  | .wait numreplicas timeout =>
    if script then .ok s else waitCommand s id numreplicas timeout
  | .rename src dst nx => renameGenericCommand s c.db src dst nx
  | .move key dst => moveCommand s c.db key dst
  | .sortStore key dst sort => .ok (sortStoreCommand s c.db key dst sort)
  | .restore key val ttl replace => restoreCommand s c.db key val ttl replace
  | .data op => .ok (applyOp s op)
  | .select db => .ok (s.setClient id { c with db })
  | .clientPause end_ => .ok (pauseClients s end_)
  | .clientKill target => clientKill s id script target
  | .sync => if script then .ok s else .ok (s.setClient id { c with slave := true })

/-! ### Clients that wait for lists -/

/-- `serveClientBlockedOnList`; the result is false for `REDIS_ERR`. -/
def serveClientBlockedOnList (s : RedisServer K V) (receiver : ClientId) (key : K)
    (dstkey : Option K) (d : ℕ) (value : V) (at_ : Where) :
    Except Failure (RedisServer K V × Bool) :=
  match dstkey with
  | none =>
    .ok (record (propagate s d (.pop at_ key)) (.serve d key receiver at_ none value .delivered),
      true)
  | some dst => do
    let c ← s.getClient receiver
    let (s, dstobj) := lookupKeyWrite s c.db dst
    if wrongType dstobj then
      .ok (record s (.serve d key receiver at_ dstkey value .failed), false)
    else do
      let s := record (propagate s d (.pop .tail key))
        (.serve d key receiver at_ dstkey value .pushed)
      let s ← rpoplpushHandlePush s c.db dst dstobj.isSome value
      .ok (propagate s d (.lpush dst value), true)

/-- The side from which a client pops. -/
def RedisClient.side (c : RedisClient K V) : Where :=
  if c.lastcmd = .blpop then .head else .tail

/-- A round of the loop over the clients that wait for a key; the result is false if there is
no element left.  A key without a list means that the object is no longer there. -/
def serveReceiver (s : RedisServer K V) (d : ℕ) (key : K) (receiver : ClientId) :
    Except Failure (RedisServer K V × Bool) := do
  let c ← s.getClient receiver
  match (s.db d).dict key with
  | some ⟨.list l, expire⟩ =>
    match listTypePop l c.side with
    | none => .ok (s, false)
    | some (value, rest) => do
      let s := setDict s d key (some ⟨.list rest, expire⟩)
      let s ← unblockClient s receiver
      let (s, served) ← serveClientBlockedOnList s receiver key c.bpop.target d value c.side
      if served then .ok (s, true)
      else
        match (s.db d).dict key with
        | some ⟨.list rest, expire⟩ =>
          .ok (setDict s d key (some ⟨.list (listTypePush rest value c.side), expire⟩), true)
        | _ => .error .memory
  | _ => .error .memory

/-- The loop over the clients that wait for a key. -/
def serveReceivers (d : ℕ) (key : K) : ℕ → RedisServer K V → Except Failure (RedisServer K V)
  | 0, s => .ok s
  | numclients + 1, s =>
    match (s.db d).blockingKeys key with
    | [] => .error .memory
    | receiver :: _ => do
      let (s, more) ← serveReceiver s d key receiver
      if more then serveReceivers d key numclients s else .ok s

/-- A key is no longer in `ready_keys`. -/
def clearReady (s : RedisServer K V) (d : ℕ) (key : K) : RedisServer K V :=
  s.setDb d { s.db d with readyKeys := Function.update (s.db d).readyKeys key false }

/-- A round of the inner loop of `handleClientsBlockedOnLists`. -/
def serveReadyKey (s : RedisServer K V) (rl : ℕ × K) : Except Failure (RedisServer K V) :=
  let (d, key) := rl
  let (s, o) := lookupKeyWrite (clearReady s d key) d key
  match o with
  | some ⟨.list _, _⟩ => do
    let s ← serveReceivers d key ((s.db d).blockingKeys key).length s
    .ok (deleteIfEmpty s d key)
  | _ => .ok s

/-- The outer loop of `handleClientsBlockedOnLists`. -/
def handleReadyKeys : ℕ → RedisServer K V → Except Failure (RedisServer K V)
  | 0, s => if s.readyKeys = [] then .ok s else .error .loop
  | rounds + 1, s =>
    if s.readyKeys = [] then .ok s
    else do
      let s ← s.readyKeys.foldlM serveReadyKey { s with readyKeys := [] }
      handleReadyKeys rounds s

/-- `handleClientsBlockedOnLists`.  Only a client that is served signals further keys, so that
there are not more rounds than clients. -/
def handleClientsBlockedOnLists (s : RedisServer K V) : Except Failure (RedisServer K V) :=
  handleReadyKeys (s.clients.length + 1) s

/-! ### Requests -/

/-- What `lastcmd` is set to. -/
def Request.lastcmd (old : LastCommand) : Request K V → LastCommand
  | .quit => old
  | .command (.blockingPop .head _ _ _) => .blpop
  | .command (.blockingPop .tail _ _ _) => .brpop
  | .command (.brpoplpush _ _ _) => .brpoplpush
  | _ => .other

/-- What follows a `call` in `processCommand`. -/
def afterCall (s : RedisServer K V) (id : ClientId) : Except Failure (RedisServer K V) := do
  let c ← s.getClient id
  handleClientsBlockedOnLists (s.setClient id { c with woff := s.masterReplOffset })

def discardTransaction (s : RedisServer K V) (id : ClientId) :
    Except Failure (RedisServer K V) := do
  let c ← s.getClient id
  .ok (s.setClient id { c with multi := false, mstate := [] })

/-- The commands of a transaction or of a script. -/
def callAll (id : ClientId) (cmds : List (Bool × Command K V)) (s : RedisServer K V) :
    Except Failure (RedisServer K V) :=
  cmds.foldlM (fun s cmd => call id cmd.1 s cmd.2) s

/-- The commands that a request executes at once, for a client as it is. -/
def Request.cmds (c : RedisClient K V) : Request K V → List (Bool × Command K V)
  | .command cmd => if c.multi then [] else [(false, cmd)]
  | .script cmds => if c.multi then [] else cmds.map (true, ·)
  | .exec dirty => if c.multi ∧ ¬dirty then c.mstate else []
  | _ => []

/-- The commands that a request adds to a transaction. -/
def Request.queued : Request K V → List (Bool × Command K V)
  | .command cmd => [(false, cmd)]
  | .script cmds => cmds.map (true, ·)
  | _ => []

def processCommand (s : RedisServer K V) (id : ClientId) (request : Request K V) :
    Except Failure (RedisServer K V) := do
  let c ← s.getClient id
  let c := { c with lastcmd := request.lastcmd c.lastcmd }
  let s := s.setClient id c
  match request with
  | .refused => .ok s
  | .quit => .ok (s.setClient id { c with closeAfterReply := true })
  | .multi => afterCall (s.setClient id { c with multi := true }) id
  | .discard => do
    let s ← (if c.multi then discardTransaction s id else .ok s)
    afterCall s id
  | .exec _ => do
    let s ← callAll id (request.cmds c) s
    let s ← (if c.multi then discardTransaction s id else .ok s)
    afterCall s id
  | .command _ | .script _ =>
    if c.multi then .ok (s.setClient id { c with mstate := c.mstate ++ request.queued })
    else do
      let s ← callAll id (request.cmds c) s
      afterCall s id

/-- A round of the loop of `processInputBuffer`. -/
def processInputBufferRound (s : RedisServer K V) (id : ClientId) :
    Except Failure (RedisServer K V) := do
  let c ← s.getClient id
  match c.querybuf with
  | [] => .ok s
  | request :: rest =>
    let (s, paused) := if c.slave then (s, false) else clientsArePaused s
    if paused ∨ c.blocked ∨ c.closeAfterReply then .ok s
    else processCommand (s.setClient id { c with querybuf := rest }) id request

/-- A round of the loop of `processUnblockedClients`, without the `processInputBuffer`. -/
def processUnblockedClient (s : RedisServer K V) : Except Failure (RedisServer K V) :=
  match s.unblockedClients with
  | [] => .ok s
  | id :: rest => do
    let c ← s.getClient id
    .ok ({ s with unblockedClients := rest }.setClient id
      { c with unblocked := false, btype := .none })

/-! ### The server -/

def newClient : RedisClient K V where
  db := 0
  connected := true
  slave := false
  master := false
  multi := false
  closeAfterReply := false
  closeAsap := false
  blocked := false
  unblocked := false
  btype := .none
  bpop := ⟨0, [], none, 0, 0⟩
  lastcmd := .other
  woff := 0
  mstate := []
  querybuf := []

/-- The events of the server. -/
inductive Event (K V : Type) where
  /-- `createClient`, at an address that is free. -/
  | connect (id : ClientId)
  /-- `readQueryFromClient`: requests are read. -/
  | read (id : ClientId) (requests : List (Request K V))
  /-- A round of `processInputBuffer`. -/
  | processInputBuffer (id : ClientId)
  | freeClient (id : ClientId)
  | freeClientAsync (id : ClientId)
  | clientsCronHandleTimeout (id : ClientId)
  | processClientsWaitingReplicas
  /-- A round of `processUnblockedClients`. -/
  | processUnblockedClient
  /-- `serverCron` and the manual failover. -/
  | clientsArePaused
  | pauseClients (end_ : ℤ)
  /-- Time goes on, and the replication too. -/
  | tick (now mstime masterReplOffset : ℤ) (slaveOffsets : List ℤ)
  /-- Keys are expired or evicted. -/
  | data (op : DataOp K V)
  /-- A dataset is loaded from the master. -/
  | load (data : ℕ → Dataset K V)
  /-- The connection with the master is there. -/
  | masterClient (id : ClientId)
  | replicationDiscardCachedMaster
  | replicationResurrectCachedMaster
  | setMasterhost (masterhost : Bool)

/-- What an event does. -/
def process (s : RedisServer K V) : Event K V → Except Failure (RedisServer K V)
  | .connect id =>
    if (s.client id).isSome then .error .memory
    else .ok ({ s with clients := s.clients ++ [id] }.setClient id newClient)
  | .read id requests => do
    let c ← s.getClient id
    .ok (s.setClient id { c with querybuf := c.querybuf ++ requests })
  | .processInputBuffer id => processInputBufferRound s id
  | .freeClient id => freeClient s id
  | .freeClientAsync id => do
    let c ← s.getClient id
    .ok (s.setClient id { c with closeAsap := true })
  | .clientsCronHandleTimeout id => clientsCronHandleTimeout s id
  | .processClientsWaitingReplicas => processClientsWaitingReplicas s
  | .processUnblockedClient => processUnblockedClient s
  | .clientsArePaused => .ok (clientsArePaused s).1
  | .pauseClients end_ => .ok (pauseClients s end_)
  | .tick now mstime masterReplOffset slaveOffsets =>
    .ok { s with now, mstime, masterReplOffset, slaveOffsets }
  | .data op => .ok (applyOp s op)
  | .load data => .ok { s with db := fun d => { s.db d with dict := data d } }
  | .masterClient id =>
    if (s.client id).isSome ∨ s.master.isSome then .error .memory
    else
      let s := { s with clients := s.clients ++ [id], master := some id }
      .ok (s.setClient id { newClient with master := true })
  | .replicationDiscardCachedMaster => replicationDiscardCachedMaster s
  | .replicationResurrectCachedMaster => replicationResurrectCachedMaster s
  | .setMasterhost masterhost => .ok { s with masterhost }

/-- A step of a run; a failure ends the run. -/
def step (s : RedisServer K V) (e : Event K V) : Option (RedisServer K V) :=
  (process s e).toOption

/-- `initServer`, with a dataset that was loaded. -/
def initServer (data : ℕ → Dataset K V) : RedisServer K V where
  db := fun d => ⟨data d, fun _ => [], fun _ => false⟩
  client := fun _ => none
  clients := []
  unblockedClients := []
  readyKeys := []
  clientsWaitingAcks := []
  bpopBlockedClients := 0
  clientsPaused := false
  clientsPauseEndTime := 0
  now := 0
  mstime := 0
  slaveOffsets := []
  masterReplOffset := 0
  masterhost := false
  master := none
  cachedMaster := none
  effects := []
  propagated := []

end

end BlockingServer

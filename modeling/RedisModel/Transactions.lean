/-
Transactions (`multi.c`): the keys that clients watch, the queues of `MULTI`, and `EXEC`.

A step is one command, one command of an `EXEC` or of a script, or one key whose blocked clients
are served.  While the commands of an `EXEC` or of a script run, `running` holds those that are
left, and nothing else happens but that other clients are freed.  `ready` are the keys that may be
in `server.ready_keys`: those that the push commands of the last top level command created.
-/
import RedisModel.KeyspaceCommand

open ByteBuffer

/-- A queued command. -/
inductive QueuedCommand (V : Type) where
  | command (cmd : Command V)
  | unwatch

/-- `multiState`, and the flags `REDIS_MULTI` and `REDIS_DIRTY_EXEC`. -/
structure MultiState (V : Type) where
  multi : Bool
  dirtyExec : Bool
  commands : List (QueuedCommand V)

/-- A client that is created. -/
def MultiState.init {V : Type} : MultiState V := ⟨false, false, []⟩

/-- The commands that are executed: those of a transaction, or those of a script. -/
structure Running (C V : Type) where
  client : C
  exec : Bool
  commands : List (QueuedCommand V)

/-- The server with the transactions of its clients. -/
structure MultiServer (C V : Type) where
  server : RedisServer C V
  mstate : C → MultiState V
  running : Option (Running C V)
  ready : List (ℕ × Bytes)

/-- What `EXEC` replies first. -/
inductive ExecReply where
  /-- `EXEC without MULTI`. -/
  | error
  | execaborterr
  | nullmultibulk
  /-- The replies of this many commands follow. -/
  | multiBulkLen (count : ℕ)
  deriving DecidableEq, Repr

namespace RedisServer

section
variable {C V : Type} [DecidableEq C]

def watchForKey (s : RedisServer C V) (c : C) (key : Bytes) : RedisServer C V :=
  let d := (s.client c).db
  if (d, key) ∈ (s.client c).watchedKeys then s
  else
    let clients := (s.db d).watchedKeys key ++ [c]
    let s := s.setDb d
      { s.db d with watchedKeys := Function.update (s.db d).watchedKeys key clients }
    { s with
      client := Function.update s.client c
        { s.client c with watchedKeys := (s.client c).watchedKeys ++ [(d, key)] } }

/-- One round of the loop of `unwatchAllKeys`, for the first of the client's keys. -/
def unwatchKey (s : RedisServer C V) (c : C) (wk : ℕ × Bytes) : Except Failure (RedisServer C V) :=
  let clients := (s.db wk.1).watchedKeys wk.2
  if clients = [] then .error .unwatchAllKeys
  -- the node of the client is deleted without a test that it was found
  else if c ∉ clients then .error .memory
  else
    let clients := clients.erase c
    let s := s.setDb wk.1
      { s.db wk.1 with watchedKeys := Function.update (s.db wk.1).watchedKeys wk.2 clients }
    .ok { s with
      client := Function.update s.client c
        { s.client c with watchedKeys := (s.client c).watchedKeys.tail } }

def unwatchAllKeys (s : RedisServer C V) (c : C) : Except Failure (RedisServer C V) :=
  (s.client c).watchedKeys.foldlM (fun s wk => unwatchKey s c wk) s

/-- Set or clear `REDIS_DIRTY_CAS`. -/
def setDirtyCas (s : RedisServer C V) (c : C) (dirtyCas : Bool) : RedisServer C V :=
  { s with client := Function.update s.client c { s.client c with dirtyCas := dirtyCas } }

def unwatchCommand (s : RedisServer C V) (c : C) : Except Failure (RedisServer C V) := do
  let s ← unwatchAllKeys s c
  .ok (setDirtyCas s c false)

/-- Whether a command finds no object at a key. -/
def absentAt (s : RedisServer C V) (d : ℕ) (key : Bytes) (now : ℤ) : Bool :=
  match lookupKeyWrite s d key now with
  | .ok r => r.2.isNone
  | .error _ => true

/-- The keys among `keys` that were not there in `s` and are in `s'`. -/
def createdKeys (s s' : RedisServer C V) (d : ℕ) (now : ℤ) (keys : List Bytes) :
    List (ℕ × Bytes) :=
  (keys.filter fun key => absentAt s d key now && !absentAt s' d key now).map fun key => (d, key)

/-- The keys that a command may have given to `signalListAsReady`. -/
def readyKeys (s s' : RedisServer C V) (d : ℕ) (now : ℤ) : Command V → List (ℕ × Bytes)
  | .update _ key _ => createdKeys s s' d now [key]
  | .rpoplpush _ dst _ _ _ => createdKeys s s' d now [dst]
  | _ => []

end

end RedisServer

namespace MultiServer

section
variable {C V : Type} [DecidableEq C]

/-- Change the transaction of a client. -/
def setMstate (s : MultiServer C V) (c : C) (m : MultiState V) : MultiServer C V :=
  { s with mstate := Function.update s.mstate c m }

def discardTransaction (s : MultiServer C V) (c : C) : Except Failure (MultiServer C V) := do
  let server ← RedisServer.unwatchAllKeys (s.server.setDirtyCas c false) c
  .ok { s.setMstate c MultiState.init with server := server }

def flagTransaction (s : MultiServer C V) (c : C) : MultiServer C V :=
  if (s.mstate c).multi then s.setMstate c { s.mstate c with dirtyExec := true } else s

def multiCommand (s : MultiServer C V) (c : C) : MultiServer C V :=
  if (s.mstate c).multi then s else s.setMstate c { s.mstate c with multi := true }

def discardCommand (s : MultiServer C V) (c : C) : Except Failure (MultiServer C V) :=
  if (s.mstate c).multi then discardTransaction s c else .ok s

def queueMultiCommand (s : MultiServer C V) (c : C) (q : List (QueuedCommand V)) :
    MultiServer C V :=
  s.setMstate c { s.mstate c with commands := (s.mstate c).commands ++ q }

def watchCommand (s : MultiServer C V) (c : C) (keys : List Bytes) : MultiServer C V :=
  if (s.mstate c).multi then s
  else { s with server := keys.foldl (fun s key => s.watchForKey c key) s.server }

/-- `execCommand` up to its first reply; the commands run in the next steps. -/
def execCommand (s : MultiServer C V) (c : C) : Except Failure (MultiServer C V × ExecReply) :=
  if (s.mstate c).multi = false then .ok (s, .error)
  else if (s.server.client c).dirtyCas || (s.mstate c).dirtyExec then do
    let s' ← discardTransaction s c
    .ok (s', if (s.mstate c).dirtyExec then .execaborterr else .nullmultibulk)
  else do
    let server ← s.server.unwatchAllKeys c
    .ok ({ s with server := server, running := some ⟨c, true, (s.mstate c).commands⟩ },
      .multiBulkLen (s.mstate c).commands.length)

/-- The next command of an `EXEC` or a script; after the last one of an `EXEC` its transaction is
discarded. -/
def nextCommand (s : MultiServer C V) (r : Running C V) (now : ℤ) :
    Except Failure (MultiServer C V) :=
  match r.commands with
  | [] =>
    if r.exec then discardTransaction { s with running := none } r.client
    else .ok { s with running := none }
  | .command cmd :: rest => do
    let server ← s.server.call r.client now cmd
    .ok { s with
      server := server
      running := some { r with commands := rest }
      ready := s.ready ++ s.server.readyKeys server (s.server.client r.client).db now cmd }
  | .unwatch :: rest => do
    let server ← s.server.unwatchCommand r.client
    .ok { s with server := server, running := some { r with commands := rest } }

def createClient (s : MultiServer C V) (c : C) : MultiServer C V :=
  { s with
    server := { s.server with
      clients := s.server.clients ++ [c]
      client := Function.update s.server.client c ⟨0, [], false⟩ }
    mstate := Function.update s.mstate c MultiState.init }

def freeClient (s : MultiServer C V) (c : C) : Except Failure (MultiServer C V) := do
  let server ← s.server.unwatchAllKeys c
  .ok { s.setMstate c MultiState.init with
    server := { server with clients := server.clients.erase c } }

end

/-! ### Steps -/

inductive Event (C V : Type) where
  | createClient (c : C)
  | freeClient (c : C)
  /-- A command, or a script with its commands. -/
  | command (c : C) (cmds : List (Command V))
  /-- A command that is refused before it is executed or queued. -/
  | refuse (c : C)
  | multi (c : C)
  | exec (c : C)
  | discard (c : C)
  | watch (c : C) (keys : List Bytes)
  | unwatch (c : C)
  /-- The next command of those that run. -/
  | next (now : ℤ)
  /-- The clients blocked on a ready key are served. -/
  | serve (d : ℕ) (key : Bytes) (receivers : List (RedisServer.Receiver V)) (isList isEmpty : V → Bool)
      (now : ℤ)
  | tryExpire (d : ℕ) (key : Bytes) (now : ℤ)
  | freeMemoryIfNeeded (d : ℕ) (key : Bytes)
  | delKeysInSlot (slot : ℕ)
  | emptyDb
  | config (masterhost loading : Bool)

section
variable {C V : Type} [DecidableEq C]

/-- A key whose blocked clients are served may have been pushed to others. -/
def serve (s : MultiServer C V) (d : ℕ) (key : Bytes) (receivers : List (RedisServer.Receiver V))
    (isList isEmpty : V → Bool) (now : ℤ) : Except Failure (MultiServer C V) := do
  let server ← s.server.serveKey d key receivers isList isEmpty now
  .ok { s with
    server := server
    ready := s.ready ++ s.server.createdKeys server d now (receivers.filterMap RedisServer.Receiver.dstkey) }

/-- A step while no command runs. -/
def topStep (s : MultiServer C V) : Event C V → Except Failure (MultiServer C V)
  | .createClient c => if c ∈ s.server.clients then .ok s else .ok (s.createClient c)
  | .freeClient c => if c ∈ s.server.clients then s.freeClient c else .ok s
  | .command c cmds =>
    if c ∉ s.server.clients then .ok s
    else if (s.mstate c).multi then .ok (s.queueMultiCommand c (cmds.map .command))
    else .ok { s with running := some ⟨c, false, cmds.map .command⟩, ready := [] }
  | .refuse c => .ok (s.flagTransaction c)
  | .multi c => if c ∈ s.server.clients then .ok (s.multiCommand c) else .ok s
  | .exec c =>
    if c ∈ s.server.clients then do
      let r ← execCommand { s with ready := [] } c
      .ok r.1
    else .ok s
  | .discard c => if c ∈ s.server.clients then s.discardCommand c else .ok s
  | .watch c keys =>
    if c ∈ s.server.clients then .ok (watchCommand { s with ready := [] } c keys) else .ok s
  | .unwatch c =>
    if c ∉ s.server.clients then .ok s
    else if (s.mstate c).multi then .ok (s.queueMultiCommand c [.unwatch])
    else do
      let server ← s.server.unwatchCommand c
      .ok { s with server := server }
  | .next _ => .ok s
  | .serve d key receivers isList isEmpty now =>
    if (d, key) ∈ s.ready then s.serve d key receivers isList isEmpty now else .ok s
  | .tryExpire d key now => do
    let server ← s.server.activeExpireCycleTryExpire d key now
    .ok { s with server := server }
  | .freeMemoryIfNeeded d key => do
    let server ← s.server.freeMemoryIfNeeded d key
    .ok { s with server := server }
  | .delKeysInSlot slot =>
    if s.server.clusterEnabled then do
      let r ← s.server.delKeysInSlot slot
      .ok { s with server := r.1 }
    else .ok s
  | .emptyDb => .ok { s with server := (s.server.signalFlushedDb none).emptyDb }
  | .config masterhost loading => .ok { s with server := { s.server with masterhost, loading } }

/-- One step. -/
def step (s : MultiServer C V) (e : Event C V) : Except Failure (MultiServer C V) :=
  match s.running with
  | none => s.topStep e
  | some r =>
    match e with
    | .next now => s.nextCommand r now
    | .freeClient c => if c ∈ s.server.clients ∧ c ≠ r.client then s.freeClient c else .ok s
    | _ => .ok s

/-- A server that was just started. -/
def initServer (dbs : ℕ) (clusterEnabled : Bool) (levels : ℕ → Fin 32) : MultiServer C V where
  server := RedisServer.initServer dbs clusterEnabled [] levels
  mstate := fun _ => MultiState.init
  running := none
  ready := []

end

end MultiServer

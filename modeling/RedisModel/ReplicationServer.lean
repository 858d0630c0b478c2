/-
A master and its slaves (`replication.c`).

* `Slave`, `Server` — the clients that replicate, and what the server keeps for them;
* `replicationFeedSlaves` — one command goes to the backlog and to the slaves;
* `syncCommand` — full and partial resynchronization;
* `updateSlavesWaitingBgsave`, `backgroundSaveDoneHandler` — the end of a BGSAVE;
* `step` — what can happen, in any order.

A process forks or does not: `fork` says which.
-/
import Mathlib.Logic.Function.Basic
import RedisModel.Backlog
import RedisModel.CommandArguments
import RedisModel.Multibulk

open StringNumber RedisCommands Multibulk

namespace Replication

abbrev ClientId := ℕ

/-- `replstate` of a client in `server.slaves`. -/
inductive ReplState where
  | waitBgsaveStart
  | waitBgsaveEnd
  | sendBulk
  | online
  deriving DecidableEq

/-- Commands and the databases they ran in.  An RDB file is written as the commands that led to
the dataset. -/
abbrev Commands := List (ℕ × Argv)

/-- `redisClient` of a slave: what is queued for it, and the file that was opened for it.  `sent`
are the bytes that followed the file on the link. -/
structure Slave where
  replstate : ReplState
  buf : Bytes
  rdb : Option Commands
  sent : Bytes

/-- `redisServer`.  `rdbChild` is what the child of a BGSAVE writes, `rdbFile` what is on disk.
`history` has all commands that were propagated. -/
structure Server where
  stream : Stream
  slaveseldb : Option ℕ
  slaves : List ClientId
  client : ClientId → Slave
  rdbChild : Option Commands
  rdbFile : Option Commands
  history : Commands

/-! ### The replication stream -/

/-- The command that selects a database. -/
def selectCommand (dictid : ℕ) : Argv := [ascii "SELECT".toList, ll2string dictid]

/-- Queue bytes for the slaves in some states. -/
def addReplySlaves (s : Server) (states : ReplState → Bool) (p : Bytes) : Server :=
  { s with client := fun c =>
      if c ∈ s.slaves ∧ states (s.client c).replstate then
        { s.client c with buf := (s.client c).buf ++ p }
      else s.client c }

/-- The text of a command goes to the backlog and to slaves. -/
def feedCommand (s : Server) (states : ReplState → Bool) (argv : Argv) : Option Server :=
  (feedReplicationBacklog s.stream (encodeCommand argv)).map fun stream =>
    { addReplySlaves s states (encodeCommand argv) with stream := stream }

/-- The SELECT of `replicationFeedSlaves`.  It goes to all slaves, whatever their state. -/
def feedSelect (s : Server) (dictid : Option ℕ) : Option Server :=
  match dictid with
  | none => some s
  | some db =>
    if s.slaveseldb = some db then some s
    else (feedCommand s (fun _ => true) (selectCommand db)).map fun s =>
      { s with slaveseldb := some db }

/-- `replicationFeedSlaves`; `none` is a failed assertion.  A `dictid` of `none` is
`server.slaveseldb` itself. -/
def replicationFeedSlaves (s : Server) (dictid : Option ℕ) (argv : Argv) : Option Server :=
  if s.stream.replBacklog = none ∧ s.slaves = [] then some s
  else if s.slaves ≠ [] ∧ s.stream.replBacklog = none then none
  else
    (feedSelect s dictid).bind fun s =>
      -- a slave that waits for its BGSAVE to start gets no command
      feedCommand s (fun state => state ≠ .waitBgsaveStart) argv

/-! ### Resynchronization -/

/-- `rdbSaveBackground`; `none` is `REDIS_ERR`. -/
def rdbSaveBackground (s : Server) (fork : Bool) : Option Server :=
  if s.rdbChild = none ∧ fork then some { s with rdbChild := some s.history } else none

/-- A client joins `server.slaves`. -/
def addSlave (s : Server) (c : ClientId) (slave : Slave) : Server :=
  { s with client := Function.update s.client c slave, slaves := s.slaves ++ [c] }

/-- The accepting part of `masterTryPartialResynchronization`. -/
def masterTryPartialResynchronization (s : Server) (c : ClientId) (offset : ℤ) : Option Server :=
  (addReplyReplicationBacklog s.stream offset).map fun reply =>
    addSlave s c { replstate := .online, buf := reply.1, rdb := none, sent := [] }

/-- The end of `syncCommand`: the next command selects its database, and the first slave
creates the backlog. -/
def finishSync (junk : ℕ → UInt8) (s : Server) (c : ClientId) (replstate : ReplState)
    (buf : Bytes) : Option Server :=
  let s := { addSlave s c { replstate, buf, rdb := none, sent := [] } with slaveseldb := none }
  if s.slaves.length = 1 ∧ s.stream.replBacklog = none then
    (createReplicationBacklog junk s.stream).map fun stream => { s with stream := stream }
  else some s

/-- The full resynchronization of `syncCommand`. -/
def fullResynchronization (junk : ℕ → UInt8) (s : Server) (c : ClientId) (fork : Bool) :
    Option Server :=
  if s.rdbChild.isSome then
    match s.slaves.find? fun d => (s.client d).replstate = .waitBgsaveEnd with
    -- `copyClientOutputBuffer`
    | some d => finishSync junk s c .waitBgsaveEnd (s.client d).buf
    | none => finishSync junk s c .waitBgsaveStart []
  else
    match rdbSaveBackground s fork with
    | some s => finishSync junk s c .waitBgsaveEnd []
    | none => some s

/-- `syncCommand` for a client that has nothing to read.  `psync` is the offset of a PSYNC with
the run ID of the server. -/
def syncCommand (junk : ℕ → UInt8) (s : Server) (c : ClientId) (psync : Option ℤ)
    (fork : Bool) : Option Server :=
  if c ∈ s.slaves then some s
  else
    match psync with
    | none => fullResynchronization junk s c fork
    | some offset =>
      if acceptsOffset s.stream offset then masterTryPartialResynchronization s c offset
      else fullResynchronization junk s c fork

/-! ### The end of a BGSAVE -/

/-- The part of `freeClient` for a slave. -/
def freeSlaves (s : Server) (freed : ClientId → Bool) : Server :=
  { s with slaves := s.slaves.filter fun c => ! freed c }

/-- Whether `updateSlavesWaitingBgsave` frees a slave that waits for the BGSAVE: it failed, or
the file cannot be opened. -/
def bgsaveFails (s : Server) (ok : Bool) (unreadable : ClientId → Bool) (c : ClientId) : Bool :=
  (s.client c).replstate = .waitBgsaveEnd ∧ (ok = false ∨ unreadable c ∨ s.rdbFile = none)

/-- The state of a slave after the loop of `updateSlavesWaitingBgsave`. -/
def updatedSlave (rdbFile : Option Commands) (slave : Slave) : Slave :=
  match slave.replstate with
  | .waitBgsaveStart => { slave with replstate := .waitBgsaveEnd }
  | .waitBgsaveEnd => { slave with replstate := .sendBulk, rdb := rdbFile }
  | _ => slave

/-- The loop of `updateSlavesWaitingBgsave`. -/
def serveSlaves (s : Server) (ok : Bool) (unreadable : ClientId → Bool) : Server :=
  { freeSlaves s (bgsaveFails s ok unreadable) with
    client := fun c => if c ∈ s.slaves then updatedSlave s.rdbFile (s.client c) else s.client c }

def updateSlavesWaitingBgsave (s : Server) (ok : Bool) (unreadable : ClientId → Bool)
    (fork : Bool) : Server :=
  let startbgsave := s.slaves.any fun c => (s.client c).replstate = .waitBgsaveStart
  let s := serveSlaves s ok unreadable
  if startbgsave then
    match rdbSaveBackground s fork with
    | some s => s
    | none => freeSlaves s fun c => (s.client c).replstate = .waitBgsaveStart
  else s

/-- How the child of a BGSAVE ended. -/
inductive BgsaveEnd where
  | exited (ok : Bool)
  | killed
  deriving DecidableEq

/-- `backgroundSaveDoneHandler`.  A child that was killed has no exit code but zero. -/
def backgroundSaveDoneHandler (s : Server) (status : BgsaveEnd) (unreadable : ClientId → Bool)
    (fork : Bool) : Server :=
  match s.rdbChild, status with
  | none, _ => s
  | some history, .exited true =>
    updateSlavesWaitingBgsave { s with rdbChild := none, rdbFile := some history } true
      unreadable fork
  | some _, .exited false =>
    updateSlavesWaitingBgsave { s with rdbChild := none } false unreadable fork
  | some _, .killed => updateSlavesWaitingBgsave { s with rdbChild := none } true unreadable fork

/-! ### Events -/

/-- What can happen; `junk` is what memory holds that was just allocated. -/
inductive Event where
  /-- A write command, which `propagate` sends to the slaves. -/
  | write (dictid : ℕ) (argv : Argv)
  /-- The PING of `replicationCron`, and REPLCONF GETACK. -/
  | service (getack : Bool)
  | sync (junk : ℕ → UInt8) (c : ClientId) (psync : Option ℤ) (fork : Bool)
  | bgsave (fork : Bool)
  | bgsaveDone (status : BgsaveEnd) (unreadable : ClientId → Bool) (fork : Bool)
  /-- The last bytes of the file are sent. -/
  | bulkSent (c : ClientId)
  /-- Bytes from the buffer are sent. -/
  | reply (c : ClientId) (n : ℕ)
  | freeClient (c : ClientId)
  | resizeBacklog (junk : ℕ → UInt8) (newsize : ℤ)
  | freeBacklog

/-- The commands of the server itself. -/
def serviceCommand (getack : Bool) : Argv :=
  if getack then [ascii "REPLCONF".toList, ascii "GETACK".toList, ascii "*".toList]
  else [ascii "PING".toList]

/-- Write to a client. -/
def Server.setClient (s : Server) (c : ClientId) (slave : Slave) : Server :=
  { s with client := Function.update s.client c slave }

/-- The end of `sendBulkToSlave`. -/
def sendBulkDone (s : Server) (c : ClientId) : Server :=
  if (s.client c).replstate = .sendBulk then
    s.setClient c { s.client c with replstate := .online }
  else s

/-- `sendReplyToClient`, which is installed for slaves that are online. -/
def sendReplyToClient (s : Server) (c : ClientId) (n : ℕ) : Server :=
  if (s.client c).replstate = .online then
    s.setClient c { s.client c with
      buf := (s.client c).buf.drop n
      sent := (s.client c).sent ++ (s.client c).buf.take n }
  else s

/-- One event; `none` is a failed assertion. -/
def step (s : Server) : Event → Option Server
  | .write dictid argv => (replicationFeedSlaves s (some dictid) argv).map fun s =>
      { s with history := s.history ++ [(dictid, argv)] }
  | .service getack => replicationFeedSlaves s none (serviceCommand getack)
  | .sync junk c psync fork => syncCommand junk s c psync fork
  | .bgsave fork => some ((rdbSaveBackground s fork).getD s)
  | .bgsaveDone status unreadable fork =>
    some (backgroundSaveDoneHandler s status unreadable fork)
  | .bulkSent c => some (sendBulkDone s c)
  | .reply c n => some (sendReplyToClient s c n)
  | .freeClient c => some (freeSlaves s (· = c))
  | .resizeBacklog junk newsize =>
    some { s with stream := resizeReplicationBacklog junk s.stream newsize }
  | .freeBacklog =>
    some (if s.slaves = [] then { s with stream := freeReplicationBacklog s.stream } else s)

end Replication

/-
The descriptor of the append-only file, and what starts and stops the file.

* `stopAppendOnly`, `startAppendOnly`, `rewriteAppendOnlyFileBackground`,
  `backgroundRewriteDoneHandler` — `aof.c`;
* `restartAof` — the end of `readSyncBulkPayload`, of a slave that finished a full resync;
* `step` — these calls, and what the background thread and others do with descriptors.

Only the fields of the server that decide about descriptors are here; `none` is an event that is not
possible.
-/
import RedisModel.AofBuffer
import RedisModel.DescriptorTable
import RedisModel.Runs

open Aof

namespace AofDescriptors

/-- The fields of `redisServer`, the descriptors of the process and the jobs `REDIS_BIO_CLOSE_FILE`
that wait; the server stops running with `exit(1)`. -/
structure AofFiles where
  aofState : AofState
  /-- `aof_fd`, `none` for -1. -/
  aofFd : Option ℕ
  aofSelectedDb : ℤ
  /-- `aof_child_pid`, `none` for -1. -/
  aofChildPid : Option ℕ
  aofRewriteTimeStart : ℤ
  aofRewriteScheduled : Bool
  /-- `rdb_child_pid != -1`. -/
  rdbChild : Bool
  descriptors : Descriptors
  closeJobs : List ℕ
  running : Bool

/-- `open`; `none` if it fails. -/
def sysOpen (s : AofFiles) : Option ℕ → Option AofFiles
  | none => some s
  | some fd => do
    let descriptors ← s.descriptors.openFile fd
    some { s with descriptors }

/-- `close`; nothing is open as -1. -/
def sysClose (s : AofFiles) : Option ℕ → AofFiles
  | none => s
  | some fd => { s with descriptors := s.descriptors.close fd }

/-- `bioCreateBackgroundJob(REDIS_BIO_CLOSE_FILE,…)` of a descriptor that is not -1. -/
def closeInBackground (s : AofFiles) (fd : Option ℕ) : AofFiles :=
  { s with closeJobs := s.closeJobs ++ fd.toList }

/-- `fork`, with the process that it creates, and the time. -/
structure Fork where
  childpid : Option ℕ
  time : ℤ

/-- `rewriteAppendOnlyFileBackground`, and whether it returns `REDIS_OK`. -/
def rewriteAppendOnlyFileBackground (s : AofFiles) (fork : Fork) : AofFiles × Bool :=
  if s.aofChildPid.isSome then (s, false)
  else if fork.childpid.isNone then (s, false)
  else ({ s with
    aofRewriteScheduled := false
    aofRewriteTimeStart := fork.time
    aofChildPid := fork.childpid
    aofSelectedDb := -1 }, true)

/-- `stopAppendOnly`, after `redisAssert(server.aof_state != REDIS_AOF_OFF)`. -/
def stopAppendOnly (s : AofFiles) : Option AofFiles :=
  if s.aofState = .off then none
  else
    let s := { sysClose s s.aofFd with
      aofFd := none
      aofSelectedDb := -1
      aofState := .off }
    if s.aofChildPid.isSome then some { s with aofChildPid := none, aofRewriteTimeStart := -1 }
    else some s

/-- What the system answers to `startAppendOnly`. -/
structure Attempt where
  opened : Option ℕ
  fork : Fork

/-- `startAppendOnly`, and whether it returns `REDIS_OK`. -/
def startAppendOnly (s : AofFiles) (a : Attempt) : Option (AofFiles × Bool) := do
  let s ← sysOpen s a.opened
  let s := { s with aofFd := a.opened }
  -- `redisAssert(server.aof_state == REDIS_AOF_OFF)`
  if s.aofState ≠ .off then none
  else if s.aofFd = none then some (s, false)
  else
    let r := rewriteAppendOnlyFileBackground s a.fork
    if r.2 then some ({ r.1 with aofState := .waitRewrite }, true)
    else some (sysClose r.1 r.1.aofFd, false)

/-- What `backgroundRewriteDoneHandler` is told: whether the child succeeded, the results of its two
`open`, and whether `aofRewriteBufferWrite` and `rename` succeed. -/
structure RewriteDone where
  success : Bool
  newfd : Option ℕ
  written : Bool
  oldfd : Option ℕ
  renamed : Bool

/-- What the end of `backgroundRewriteDoneHandler` does in any case. -/
def cleanup (s : AofFiles) : AofFiles :=
  { s with
    aofChildPid := none
    aofRewriteTimeStart := -1
    aofRewriteScheduled := s.aofRewriteScheduled || decide (s.aofState = .waitRewrite) }

/-- The switch to the rewritten file, which is open as `newfd`; `oldfd` is the overwritten file. -/
def switchFile (s : AofFiles) (newfd : ℕ) (oldfd : Option ℕ) : AofFiles :=
  let s := match s.aofFd with
    | none => closeInBackground (sysClose s newfd) oldfd
    | some fd => closeInBackground { s with aofFd := newfd, aofSelectedDb := -1 } fd
  { s with aofState := if s.aofState = .waitRewrite then .on else s.aofState }

def backgroundRewriteDoneHandler (s : AofFiles) (r : RewriteDone) : Option AofFiles :=
  if r.success = false then some (cleanup s)
  else do
    let s ← sysOpen s r.newfd
    match r.newfd with
    | none => some (cleanup s)
    | some newfd =>
      if r.written = false then some (cleanup (sysClose s newfd))
      else
        -- the old file is opened if the append-only file is disabled
        let oldfd := if s.aofFd = none then r.oldfd else none
        let s ← sysOpen s oldfd
        if r.renamed = false then some (cleanup (sysClose (sysClose s newfd) oldfd))
        else some (cleanup (switchFile s newfd oldfd))

def bgrewriteaofCommand (s : AofFiles) (fork : Fork) : AofFiles :=
  if s.aofChildPid.isSome then s
  else if s.rdbChild then { s with aofRewriteScheduled := true }
  else (rewriteAppendOnlyFileBackground s fork).1

/-- `while (retry-- && startAppendOnly() == REDIS_ERR)`, and the `retry` that is left. -/
def restartLoop : ℕ → List Attempt → AofFiles → Option (AofFiles × ℤ)
  | 0, _, s => some (s, -1)
  | _ + 1, [], _ => none
  | retry + 1, a :: attempts, s => do
    let (s, ok) ← startAppendOnly s a
    if ok then some (s, retry) else restartLoop retry attempts s

/-- The restart of the append-only file after a full resync. -/
def restartAof (s : AofFiles) (attempts : List Attempt) : Option AofFiles :=
  if s.aofState = .off then some s
  else do
    let s ← stopAppendOnly s
    let (s, retry) ← restartLoop 10 attempts s
    some (if retry = 0 then { s with running := false } else s)

/-! ### Runs -/

inductive AofFilesEvent where
  /-- `CONFIG SET appendonly yes`. -/
  | appendonlyYes (a : Attempt)
  /-- `CONFIG SET appendonly no`. -/
  | appendonlyNo
  | bgrewriteaof (fork : Fork)
  /-- `serverCron` starts a rewrite that was scheduled, or as the file has grown. -/
  | cronRewrite (fork : Fork)
  /-- `serverCron` learns that the rewrite child has terminated. -/
  | rewriteDone (r : RewriteDone)
  | rdbChild (runs : Bool)
  /-- A slave has loaded the data set of its master. -/
  | resync (attempts : List Attempt)
  /-- The background thread closes the next file. -/
  | bioClose
  /-- A client connects, or any other part of the server opens a descriptor. -/
  | othersOpen (fd : ℕ)
  | othersClose (fd : ℕ)

/-- One event. -/
def step (s : AofFiles) (e : AofFilesEvent) : Option AofFiles :=
  if s.running = false then none
  else match e with
  | .appendonlyYes a => if s.aofState = .off then (startAppendOnly s a).map Prod.fst else some s
  | .appendonlyNo => if s.aofState = .off then some s else stopAppendOnly s
  | .bgrewriteaof fork => some (bgrewriteaofCommand s fork)
  | .cronRewrite fork =>
    if s.rdbChild = true ∨ s.aofChildPid.isSome then none
    else some (rewriteAppendOnlyFileBackground s fork).1
  | .rewriteDone r => if s.aofChildPid.isSome then backgroundRewriteDoneHandler s r else none
  | .rdbChild runs => some { s with rdbChild := runs }
  | .resync attempts => restartAof s attempts
  | .bioClose =>
    match s.closeJobs with
    | [] => none
    | fd :: jobs => some { sysClose s fd with closeJobs := jobs }
  | .othersOpen fd => do
    let descriptors ← s.descriptors.othersOpen fd
    some { s with descriptors }
  | .othersClose fd => do
    let descriptors ← s.descriptors.othersClose fd
    some { s with descriptors }

/-- The server after its start, with the append-only file open as `opened` if it is enabled, and
other descriptors. -/
def initServer (opened : Option ℕ) (others : ℕ → Bool) : AofFiles where
  aofState := if opened.isSome then .on else .off
  aofFd := opened
  aofSelectedDb := -1
  aofChildPid := none
  aofRewriteTimeStart := -1
  aofRewriteScheduled := false
  rdbChild := false
  descriptors := {
    owner := fun fd => if opened = some fd then some .subsystem
      else if others fd then some .other else none
    opened := fun fd => if opened = some fd then 1 else 0
    closed := fun _ => 0 }
  closeJobs := []
  running := true

end AofDescriptors

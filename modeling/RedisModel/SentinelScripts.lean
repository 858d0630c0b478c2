/-
The queue of the user scripts of a Sentinel.

* `sentinelScheduleScriptExecution`, `sentinelRunPendingScripts`,
  `sentinelCollectTerminatedScripts` — `sentinel.c`;
* `step` — these calls; `fork` may fail, and a child ends in any way.

`children` and `ended` are not in the source: the processes that were not waited for yet, and for
each job the number of its executions that ended.  `none` is an event that is not possible, or an
assertion that fails.
-/
import RedisModel.ByteBuffer
import RedisModel.Runs
import Mathlib.Data.Int.Notation
import Mathlib.Data.List.Nodup
import Mathlib.Logic.Function.Basic

open ByteBuffer

namespace SentinelScripts

/-- `SENTINEL_SCRIPT_MAX_ARGS`. -/
def scriptMaxArgs : ℕ := 16

/-- `SENTINEL_SCRIPT_MAX_QUEUE`. -/
def scriptMaxQueue : ℕ := 256

/-- `SENTINEL_SCRIPT_MAX_RUNNING`. -/
def scriptMaxRunning : ℕ := 16

/-- `SENTINEL_SCRIPT_MAX_RETRY`. -/
def scriptMaxRetry : ℕ := 10

/-- `SENTINEL_SCRIPT_RETRY_DELAY`. -/
def scriptRetryDelay : ℤ := 30000

/-- `sentinelScriptJob`, with the list node that holds it. -/
structure ScriptJob where
  node : ℕ
  /-- `SENTINEL_SCRIPT_RUNNING`. -/
  running : Bool
  retryNum : ℕ
  argv : List Bytes
  startTime : ℤ
  pid : ℕ

structure Scripts where
  queue : List ScriptJob
  runningScripts : ℤ
  /-- The next list node. -/
  nextNode : ℕ
  children : List ℕ
  ended : ℕ → ℕ

def sentinelScheduleScriptExecution (w : Scripts) (path : Bytes) (args : List Bytes) :
    Option Scripts :=
  let sj : ScriptJob := {
    node := w.nextNode
    running := false
    retryNum := 0
    argv := path :: args.take (scriptMaxArgs - 1)
    startTime := 0
    pid := 0 }
  let queue := w.queue ++ [sj]
  -- the oldest job that does not run is removed
  let queue := if queue.length > scriptMaxQueue then queue.eraseP (!·.running) else queue
  if queue.length > scriptMaxQueue then none
  else some { w with queue, nextNode := w.nextNode + 1 }

/-- `sentinelGetScriptListNodeByPid`: the job, what is before it and what is after it. -/
def sentinelGetScriptListNodeByPid (pid : ℕ) :
    List ScriptJob → Option (List ScriptJob × ScriptJob × List ScriptJob)
  | [] => none
  | sj :: queue =>
    if sj.running ∧ sj.pid = pid then some ([], sj, queue)
    else (sentinelGetScriptListNodeByPid pid queue).map fun r => (sj :: r.1, r.2)

/-- What `fork` returns in the parent, `none` for -1, and the time before the call. -/
structure Fork where
  time : ℤ
  pid : Option ℕ

/-- The loop of `sentinelRunPendingScripts`, with `running_scripts` and the processes. -/
def runLoop (now : ℤ) :
    List ScriptJob → ℤ → List ℕ → List Fork → Option (List ScriptJob × ℤ × List ℕ)
  | [], n, children, _ => some ([], n, children)
  | sj :: queue, n, children, forks =>
    if n < scriptMaxRunning then
      if sj.running ∨ (sj.startTime ≠ 0 ∧ now < sj.startTime) then do
        let r ← runLoop now queue n children forks
        some (sj :: r.1, r.2)
      else match forks with
        | [] => none
        | ⟨time, none⟩ :: forks => do
          let r ← runLoop now queue n children forks
          some ({ sj with startTime := time, retryNum := sj.retryNum + 1, pid := 0 } :: r.1, r.2)
        | ⟨time, some pid⟩ :: forks =>
          if pid ∈ children then none
          else do
            let r ← runLoop now queue (n + 1) (pid :: children) forks
            some ({ sj with
              running := true
              startTime := time
              retryNum := sj.retryNum + 1
              pid } :: r.1, r.2)
    else some (sj :: queue, n, children)

def sentinelRunPendingScripts (w : Scripts) (now : ℤ) (forks : List Fork) : Option Scripts :=
  (runLoop now w.queue w.runningScripts w.children forks).map fun (queue, n, children) =>
    { w with queue, runningScripts := n, children }

/-- `sentinelScriptRetryDelay`, of type `mstime_t`. -/
def sentinelScriptRetryDelay (retryNum : ℕ) : ℤ :=
  Int.bmod (scriptRetryDelay * 2 ^ (retryNum - 1)) (2 ^ 64)

/-- What `wait3` tells about a child, and the time. -/
structure Ended where
  pid : ℕ
  exitcode : ℕ
  bysignal : ℕ
  time : ℤ

/-- The script asks to be executed again. -/
def Ended.Retry (e : Ended) : Prop := e.bysignal ≠ 0 ∨ e.exitcode = 1

instance (e : Ended) : Decidable e.Retry := inferInstanceAs (Decidable (_ ∨ _))

/-- One round of the loop of `sentinelCollectTerminatedScripts`. -/
def collectOne (w : Scripts) (e : Ended) : Option Scripts :=
  if e.pid ∉ w.children then none
  else
    let w := { w with children := w.children.erase e.pid }
    match sentinelGetScriptListNodeByPid e.pid w.queue with
    | none => some w
    | some (before, sj, after) =>
      let w := { w with ended := Function.update w.ended sj.node (w.ended sj.node + 1) }
      if e.Retry ∧ sj.retryNum ≠ scriptMaxRetry then
        let sj := { sj with
          running := false
          pid := 0
          startTime := e.time + sentinelScriptRetryDelay sj.retryNum }
        some { w with queue := before ++ sj :: after }
      else some { w with queue := before ++ after, runningScripts := w.runningScripts - 1 }

def sentinelCollectTerminatedScripts (w : Scripts) (ended : List Ended) : Option Scripts :=
  ended.foldlM collectOne w

/-! ### Runs -/

inductive ScriptEvent where
  | schedule (path : Bytes) (args : List Bytes)
  | runPending (now : ℤ) (forks : List Fork)
  | collect (ended : List Ended)

def step (w : Scripts) : ScriptEvent → Option Scripts
  | .schedule path args => sentinelScheduleScriptExecution w path args
  | .runPending now forks => sentinelRunPendingScripts w now forks
  | .collect ended => sentinelCollectTerminatedScripts w ended

/-- `initSentinel`. -/
def initScripts : Scripts where
  queue := []
  runningScripts := 0
  nextNode := 0
  children := []
  ended := fun _ => 0

end SentinelScripts

/-
The commands that change the cluster configuration of a node.

A command that replies with an error leaves the state as it is; `false` stands for such
a reply.

* `clusterDelNode`, `clusterReset` — forgetting one node and all nodes;
* `clusterCommand…` — the subcommands of `CLUSTER`;
* `clusterFailoverPromote` — the steps of a slave that won an election.
-/
import RedisModel.ClusterState

namespace ClusterState

variable {N : Type}

/-- What the clock and the configuration say when reports are cleaned up: the time and
the age from which reports are dropped. -/
structure Clock where
  now : ℤ
  maxtime : ℤ

def clusterGetMaxEpoch (st : ClusterState N) : Result ℕ := do
  let epoch ← st.nodes.foldlM (fun m e => do
    let n ← st.node e.2
    .ok (if n.configEpoch > m then n.configEpoch else m)) 0
  .ok (if epoch < st.currentEpoch then st.currentEpoch else epoch)

section
variable [DecidableEq N]

/-! ### Forgetting nodes -/

/-- One round of the first loop of `clusterDelNode`. -/
def clusterDelNodeSlot (delnode : NodeRef) (st : ClusterState N) (slot : Slot) :
    Result (ClusterState N) := do
  let st := if st.importingSlotsFrom slot = some delnode then
    { st with importingSlotsFrom := Function.update st.importingSlotsFrom slot none } else st
  let st := if st.migratingSlotsTo slot = some delnode then
    { st with migratingSlotsTo := Function.update st.migratingSlotsTo slot none } else st
  if st.slots slot = some delnode then do
    let (st, _) ← clusterDelSlot st slot
    .ok st
  else .ok st

/-- One round of the second loop of `clusterDelNode`. -/
def clusterDelNodeReport (clock : Clock) (delnode : NodeRef) (st : ClusterState N) (e : N × NodeRef) :
    Result (ClusterState N) := do
  if e.2 = delnode then .ok st
  else do
    let (st, _) ← clusterNodeDelFailureReport st e.2 delnode clock.now clock.maxtime
    .ok st

def clusterDelNode (st : ClusterState N) (clock : Clock) (delnode : NodeRef) :
    Result (ClusterState N) := do
  let st ← allSlots.foldlM (clusterDelNodeSlot delnode) st
  let st ← st.nodes.foldlM (clusterDelNodeReport clock delnode) st
  let n ← st.node delnode
  let st ← leaveMaster st (if n.flags.slave then n.slaveof else none) delnode
  freeClusterNode st delnode

/-- One round of the loop of `clusterReset` over the nodes. -/
def clusterResetNode (clock : Clock) (st : ClusterState N) (e : N × NodeRef) :
    Result (ClusterState N) :=
  if e.2 = st.myself then .ok st else clusterDelNode st clock e.2

/-- One round of the loop of `clusterReset` over the slots. -/
def clusterResetSlot (st : ClusterState N) (slot : Slot) : Result (ClusterState N) := do
  let (st, _) ← clusterDelSlot st slot
  .ok st

/-- The hard part of `clusterReset`: the epochs become 0 and the node gets a new name. -/
def clusterResetHard (st : ClusterState N) (hard : Option N) : Result (ClusterState N) :=
  match hard with
  | none => .ok st
  | some newname => do
    let st := { st with currentEpoch := 0, lastVoteEpoch := 0 }
    let st ← st.modifyNode st.myself fun n => { n with configEpoch := 0 }
    let n ← st.node st.myself
    let (st, _) := dictDeleteNode st n.name
    clusterAddNode (st.setNode st.myself { n with name := newname }) st.myself

/-- `clusterReset`; a hard reset comes with the new name. -/
def clusterReset (st : ClusterState N) (clock : Clock) (hard : Option N) :
    Result (ClusterState N) := do
  let me ← st.node st.myself
  let st ← (if me.flags.slave then clusterSetNodeAsMaster st st.myself else .ok st)
  let st := resetManualFailover (clusterCloseAllSlots st)
  let st ← allSlots.foldlM clusterResetSlot st
  let st ← st.nodes.foldlM (clusterResetNode clock) st
  let st ← clusterResetHard st hard
  .ok { todoSaveUpdate st with todoFsyncConfig := true }

/-! ### Subcommands -/

/-- The check of the arguments of `CLUSTER ADDSLOTS` and `CLUSTER DELSLOTS`.  A `none`
is an argument that `getSlotOrReply` rejects. -/
def slotArguments (st : ClusterState N) (del : Bool) : List (Option Slot) → List Slot →
    Option (List Slot)
  | [], seen => some seen
  | none :: _, _ => none
  | some slot :: args, seen =>
    if del && (st.slots slot).isNone then none
    else if !del && (st.slots slot).isSome then none
    else if slot ∈ seen then none
    else slotArguments st del args (seen ++ [slot])

/-- One round of the loop of `CLUSTER ADDSLOTS` and `CLUSTER DELSLOTS`. -/
def changeSlot (del : Bool) (chosen : List Slot) (st : ClusterState N) (slot : Slot) :
    Result (ClusterState N) := do
  if slot ∈ chosen then do
    let st := if (st.importingSlotsFrom slot).isSome then
      { st with importingSlotsFrom := Function.update st.importingSlotsFrom slot none } else st
    let (st, retval) ←
      (if del then clusterDelSlot st slot else clusterAddSlot st st.myself slot)
    redisAssert .clusterCommand (retval = true)
    .ok st
  else .ok st

/-- `CLUSTER ADDSLOTS` and `CLUSTER DELSLOTS`. -/
def clusterCommandSlots (st : ClusterState N) (del : Bool) (args : List (Option Slot)) :
    Result (ClusterState N × Bool) := do
  match slotArguments st del args [] with
  | none => .ok (st, false)
  | some chosen => do
    let st ← allSlots.foldlM (changeSlot del chosen) st
    .ok (todoSaveUpdate st, true)

/-- Whether the database of the node is empty. -/
def dbEmpty (st : ClusterState N) : Bool := allSlots.all fun j => st.keysInSlot j = 0

/-- `CLUSTER FLUSHSLOTS`. -/
def clusterCommandFlushslots (st : ClusterState N) : Result (ClusterState N × Bool) := do
  if ¬ st.dbEmpty then .ok (st, false)
  else do
    let st ← clusterDelNodeSlots st st.myself
    .ok (todoSaveUpdate st, true)

/-- `CLUSTER SETSLOT slot MIGRATING name`. -/
def clusterCommandMigrating (st : ClusterState N) (slot : Slot) (name : N) :
    Result (ClusterState N × Bool) :=
  if st.slots slot ≠ some st.myself then .ok (st, false)
  else match clusterLookupNode st name with
    | none => .ok (st, false)
    | some n => .ok (todoSaveUpdate
        { st with migratingSlotsTo := Function.update st.migratingSlotsTo slot (some n) }, true)

/-- `CLUSTER SETSLOT slot IMPORTING name`. -/
def clusterCommandImporting (st : ClusterState N) (slot : Slot) (name : N) :
    Result (ClusterState N × Bool) :=
  if st.slots slot = some st.myself then .ok (st, false)
  else match clusterLookupNode st name with
    | none => .ok (st, false)
    | some n => .ok (todoSaveUpdate
        { st with importingSlotsFrom := Function.update st.importingSlotsFrom slot (some n) }, true)

/-- `CLUSTER SETSLOT slot STABLE`. -/
def clusterCommandStable (st : ClusterState N) (slot : Slot) : Result (ClusterState N × Bool) :=
  .ok (todoSaveUpdate { st with
    importingSlotsFrom := Function.update st.importingSlotsFrom slot none
    migratingSlotsTo := Function.update st.migratingSlotsTo slot none }, true)

/-- A node whose configuration epoch is not the greatest one takes a new one. -/
def bumpEpoch (st : ClusterState N) (maxEpoch : ℕ) : Result (ClusterState N) := do
  let me ← st.node st.myself
  if me.configEpoch = 0 ∨ me.configEpoch ≠ maxEpoch then do
    let st := { st with currentEpoch := nextEpoch st.currentEpoch }
    let st ← st.modifyNode st.myself fun n => { n with configEpoch := st.currentEpoch }
    .ok { st with todoFsyncConfig := true }
  else .ok st

/-- What `CLUSTER SETSLOT slot NODE` does when this node was importing the slot. -/
def importedSlot (st : ClusterState N) (slot : Slot) : Result (ClusterState N) := do
  let maxEpoch ← clusterGetMaxEpoch st
  let st ← bumpEpoch st maxEpoch
  .ok { st with importingSlotsFrom := Function.update st.importingSlotsFrom slot none }

/-- `CLUSTER SETSLOT slot NODE name`. -/
def clusterCommandSetslotNode (st : ClusterState N) (slot : Slot) (name : N) :
    Result (ClusterState N × Bool) := do
  match clusterLookupNode st name with
  | none => .ok (st, false)
  | some n =>
    if st.slots slot = some st.myself ∧ n ≠ st.myself ∧ st.keysInSlot slot ≠ 0 then .ok (st, false)
    else do
      let st := if st.keysInSlot slot = 0 ∧ (st.migratingSlotsTo slot).isSome then
        { st with migratingSlotsTo := Function.update st.migratingSlotsTo slot none } else st
      let st ← (if n = st.myself ∧ (st.importingSlotsFrom slot).isSome then importedSlot st slot
        else .ok st)
      let (st, _) ← clusterDelSlot st slot
      let (st, _) ← clusterAddSlot st n slot
      .ok (todoSaveUpdate st, true)

/-- `CLUSTER FORGET name`. -/
def clusterCommandForget (st : ClusterState N) (clock : Clock) (name : N) :
    Result (ClusterState N × Bool) := do
  match clusterLookupNode st name with
  | none => .ok (st, false)
  | some n => do
    let me ← st.node st.myself
    if n = st.myself then .ok (st, false)
    else if me.flags.slave ∧ me.slaveof = some n then .ok (st, false)
    else do
      let st ← clusterDelNode st clock n
      .ok (todoSaveUpdate st, true)

/-- `CLUSTER REPLICATE name`. -/
def clusterCommandReplicate (st : ClusterState N) (name : N) :
    Result (ClusterState N × Bool) := do
  match clusterLookupNode st name with
  | none => .ok (st, false)
  | some r => do
    let n ← st.node r
    let me ← st.node st.myself
    if r = st.myself then .ok (st, false)
    else if n.slaveof.isSome then .ok (st, false)
    else if me.flags.master ∧ (me.numslots ≠ 0 ∨ ¬ st.dbEmpty) then .ok (st, false)
    else do
      let st ← clusterSetMaster st r
      .ok (todoSaveUpdate st, true)

/-- `CLUSTER RESET`; a master has to be empty. -/
def clusterCommandReset (st : ClusterState N) (clock : Clock) (hard : Option N) :
    Result (ClusterState N × Bool) := do
  let me ← st.node st.myself
  if me.flags.master ∧ ¬ st.dbEmpty then .ok (st, false)
  else do
    let st ← clusterReset st clock hard
    .ok (st, true)

end

/-! ### Promotion -/

/-- One round of the loop in which a promoted slave claims the slots of its master. -/
def claimSlot (oldmaster : NodeRef) (st : ClusterState N) (slot : Slot) : Result (ClusterState N) := do
  let bit ← clusterNodeGetSlotBit st oldmaster slot
  if bit then do
    let (st, _) ← clusterDelSlot st slot
    let (st, _) ← clusterAddSlot st st.myself slot
    .ok st
  else .ok st

/-- The steps of `clusterHandleSlaveFailover` after the quorum was reached, but for the
messages sent. -/
def clusterFailoverPromote (st : ClusterState N) (oldmaster : NodeRef) : Result (ClusterState N) := do
  let st ← clusterSetNodeAsMaster st st.myself
  let st ← allSlots.foldlM (claimSlot oldmaster) st
  let st ← st.modifyNode st.myself fun n => { n with configEpoch := st.failoverAuthEpoch }
  .ok (resetManualFailover { st with
    todoUpdateState := false, todoSaveConfig := false, todoFsyncConfig := false })

end ClusterState

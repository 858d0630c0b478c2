/-
The state of a cluster node.

Nodes live in memory (`heap`) and are pointed to by their addresses (`NodeRef`); the
table `nodes` finds them by name.  Names are taken from any ordered type.  A function
fails with `assertion` when a `redisAssert` of the source does (`site` is the function
it stands in), and with `wild` when it reads or writes a node that was freed.

* `ClusterNode`, `ClusterState` — the data;
* the functions on slot bitmaps, slave lists and the table of nodes;
* `clusterUpdateSlotsConfigWith`, `clusterSetMaster` — the changes of slots and role.
-/
import Mathlib.Data.Fintype.Basic
import Mathlib.Order.Defs.LinearOrder
import RedisModel.ByteBuffer

open ByteBuffer

/-- Address of a node. -/
abbrev NodeRef := ℕ

/-- One of the `REDIS_CLUSTER_SLOTS` slots. -/
abbrev Slot := Fin 16384

instance : LawfulBEq Slot := inferInstance

instance Slot.instNeZero : NeZero (16384 : ℕ) := ⟨by decide⟩

/-- The functions with a `redisAssert`. -/
inductive Site where
  | clusterDelSlot
  | clusterSetMaster
  | clusterCommand
  | freeClusterNode
  | clusterRenameNode
  | clusterGetSlaveRank
  | getNodeByQuery
  deriving DecidableEq, Repr

/-- All slots, in the order of the loops. -/
@[irreducible] def allSlots : List Slot := List.finRange 16384

theorem mem_allSlots (slot : Slot) : slot ∈ allSlots := by
  unfold allSlots
  exact List.mem_finRange slot

theorem nodup_allSlots : allSlots.Nodup := by
  unfold allSlots
  exact List.nodup_finRange 16384

inductive Fault where
  | assertion (site : Site)
  | wild
  deriving DecidableEq, Repr

abbrev Result := Except Fault

def redisAssert (site : Site) (p : Prop) [Decidable p] : Result Unit :=
  if p then .ok () else .error (.assertion site)

/-- The `REDIS_NODE_` flags. -/
structure NodeFlags where
  master : Bool
  slave : Bool
  pfail : Bool
  fail : Bool
  myself : Bool
  handshake : Bool
  noaddr : Bool
  meet : Bool
  deriving DecidableEq

def NodeFlags.none : NodeFlags :=
  ⟨false, false, false, false, false, false, false, false⟩

/-- `clusterNode`.  Of the link only its presence is kept. -/
structure ClusterNode (N : Type) where
  ctime : ℤ
  name : N
  flags : NodeFlags
  configEpoch : ℕ
  slots : Slot → Bool
  numslots : ℤ
  /-- The array `slaves`, of which `numslaves` elements count. -/
  slaves : List NodeRef
  slaveof : Option NodeRef
  failTime : ℤ
  votedTime : ℤ
  replOffset : ℤ
  link : Bool
  /-- The nodes that reported this one, and when. -/
  failReports : List (NodeRef × ℤ)

/-- `clusterState`, with the number of keys in every slot. -/
structure ClusterState (N : Type) where
  myself : NodeRef
  currentEpoch : ℕ
  lastVoteEpoch : ℕ
  size : ℕ
  heap : NodeRef → Option (ClusterNode N)
  nodes : List (N × NodeRef)
  slots : Slot → Option NodeRef
  migratingSlotsTo : Slot → Option NodeRef
  importingSlotsFrom : Slot → Option NodeRef
  keysInSlot : Slot → ℕ
  failoverAuthTime : ℤ
  failoverAuthCount : ℕ
  failoverAuthSent : Bool
  failoverAuthRank : ℤ
  failoverAuthEpoch : ℕ
  mfEnd : ℤ
  mfSlave : Option NodeRef
  mfCanStart : Bool
  mfMasterOffset : ℤ
  todoHandleFailover : Bool
  todoUpdateState : Bool
  todoSaveConfig : Bool
  todoFsyncConfig : Bool

def createClusterNode {N : Type} (now : ℤ) (name : N) (flags : NodeFlags) : ClusterNode N where
  ctime := now
  name
  flags
  configEpoch := 0
  slots := fun _ => false
  numslots := 0
  slaves := []
  slaveof := none
  failTime := 0
  votedTime := 0
  replOffset := 0
  link := false
  failReports := []

namespace ClusterState

variable {N : Type}

/-- Read the node at an address. -/
def node (st : ClusterState N) (r : NodeRef) : Result (ClusterNode N) :=
  match st.heap r with
  | some n => .ok n
  | none => .error .wild

/-- Write the node at an address. -/
def setNode (st : ClusterState N) (r : NodeRef) (n : ClusterNode N) : ClusterState N :=
  { st with heap := Function.update st.heap r (some n) }

/-- Change the node at an address. -/
def modifyNode (st : ClusterState N) (r : NodeRef) (f : ClusterNode N → ClusterNode N) :
    Result (ClusterState N) := do
  let n ← st.node r
  .ok (st.setNode r (f n))

/-- The next epoch; epochs are 64 bits wide. -/
def nextEpoch (epoch : ℕ) : ℕ := (epoch + 1) % 2 ^ 64

/-! ### Slot bitmaps -/

/-- `clusterNodeSetSlotBit`; the old value of the bit is returned. -/
def clusterNodeSetSlotBit (st : ClusterState N) (r : NodeRef) (slot : Slot) :
    Result (ClusterState N × Bool) := do
  let n ← st.node r
  .ok (st.setNode r { n with
    slots := Function.update n.slots slot true
    numslots := if n.slots slot then n.numslots else n.numslots + 1 }, n.slots slot)

/-- `clusterNodeClearSlotBit`; the old value of the bit is returned. -/
def clusterNodeClearSlotBit (st : ClusterState N) (r : NodeRef) (slot : Slot) :
    Result (ClusterState N × Bool) := do
  let n ← st.node r
  .ok (st.setNode r { n with
    slots := Function.update n.slots slot false
    numslots := if n.slots slot then n.numslots - 1 else n.numslots }, n.slots slot)

def clusterNodeGetSlotBit (st : ClusterState N) (r : NodeRef) (slot : Slot) : Result Bool := do
  let n ← st.node r
  .ok (n.slots slot)

/-- `clusterAddSlot`; `false` is `REDIS_ERR`. -/
def clusterAddSlot (st : ClusterState N) (r : NodeRef) (slot : Slot) :
    Result (ClusterState N × Bool) := do
  if (st.slots slot).isSome then .ok (st, false)
  else do
    let (st, _) ← clusterNodeSetSlotBit st r slot
    .ok ({ st with slots := Function.update st.slots slot (some r) }, true)

/-- `clusterDelSlot`; `false` is `REDIS_ERR`. -/
def clusterDelSlot (st : ClusterState N) (slot : Slot) : Result (ClusterState N × Bool) := do
  match st.slots slot with
  | none => .ok (st, false)
  | some r => do
    let (st, old) ← clusterNodeClearSlotBit st r slot
    redisAssert .clusterDelSlot (old = true)
    .ok ({ st with slots := Function.update st.slots slot none }, true)

def clusterDelNodeSlots (st : ClusterState N) (r : NodeRef) : Result (ClusterState N) :=
  allSlots.foldlM (fun st slot => do
    let bit ← clusterNodeGetSlotBit st r slot
    if bit then do
      let (st, _) ← clusterDelSlot st slot
      .ok st
    else .ok st) st

def clusterCloseAllSlots (st : ClusterState N) : ClusterState N :=
  { st with migratingSlotsTo := fun _ => none, importingSlotsFrom := fun _ => none }

/-! ### Lists of slaves -/

/-- The bytes of an array of pointers. -/
def refBytes (refs : List NodeRef) : Bytes := refs.flatMap (leBytes 8)

/-- The first pointers of an array. -/
def bytesRefs : ℕ → Bytes → List NodeRef
  | 0, _ => []
  | k + 1, bs => leVal (bs.take 8) :: bytesRefs k (bs.drop 8)

/-- `clusterNodeRemoveSlave`.  The pointers behind the slave are moved by `memmove`,
which is told to move `numslaves - 1 - j` bytes. -/
def clusterNodeRemoveSlave (st : ClusterState N) (master slave : NodeRef) :
    Result (ClusterState N) := do
  let n ← st.node master
  let j := n.slaves.idxOf slave
  if j < n.slaves.length then
    match memmove (refBytes n.slaves) (8 * j) (8 * (j + 1)) (n.slaves.length - 1 - j) with
    | some bs =>
      .ok (st.setNode master { n with slaves := bytesRefs (n.slaves.length - 1) bs })
    | none => .error .wild
  else .ok st

/-- A node leaves the list of its master, if it has one. -/
def leaveMaster (st : ClusterState N) (master : Option NodeRef) (slave : NodeRef) :
    Result (ClusterState N) :=
  match master with
  | some m => clusterNodeRemoveSlave st m slave
  | none => .ok st

def clusterNodeAddSlave (st : ClusterState N) (master slave : NodeRef) : Result (ClusterState N) := do
  let n ← st.node master
  if slave ∈ n.slaves then .ok st
  else .ok (st.setNode master { n with slaves := n.slaves ++ [slave] })

def clusterNodeResetSlaves (st : ClusterState N) (r : NodeRef) : Result (ClusterState N) :=
  st.modifyNode r fun n => { n with slaves := [] }

/-! ### The table of nodes -/

section
variable [DecidableEq N]

def clusterLookupNode (st : ClusterState N) (name : N) : Option NodeRef :=
  (st.nodes.find? fun e => e.1 = name).map Prod.snd

/-- `clusterAddNode`; nothing is added when the name is taken. -/
def clusterAddNode (st : ClusterState N) (r : NodeRef) : Result (ClusterState N) := do
  let n ← st.node r
  if (clusterLookupNode st n.name).isSome then .ok st
  else .ok { st with nodes := st.nodes ++ [(n.name, r)] }

/-- `dictDelete` on the table of nodes, and whether the name was there. -/
def dictDeleteNode (st : ClusterState N) (name : N) : ClusterState N × Bool :=
  ({ st with nodes := st.nodes.filter fun e => e.1 ≠ name }, (clusterLookupNode st name).isSome)

def freeClusterNode (st : ClusterState N) (r : NodeRef) : Result (ClusterState N) := do
  let n ← st.node r
  let (st, found) := dictDeleteNode st n.name
  redisAssert .freeClusterNode (found = true)
  let st ← leaveMaster st n.slaveof r
  .ok { st with heap := Function.update st.heap r none }

def clusterRenameNode (st : ClusterState N) (r : NodeRef) (newname : N) : Result (ClusterState N) := do
  let n ← st.node r
  let (st, found) := dictDeleteNode st n.name
  redisAssert .clusterRenameNode (found = true)
  clusterAddNode (st.setNode r { n with name := newname }) r

end

/-! ### Failure reports -/

def clusterNodeAddFailureReport (st : ClusterState N) (failing sender : NodeRef) (now : ℤ) :
    Result (ClusterState N × Bool) := do
  let n ← st.node failing
  if sender ∈ n.failReports.map Prod.fst then
    .ok (st.setNode failing { n with
      failReports := n.failReports.map fun fr => if fr.1 = sender then (fr.1, now) else fr }, false)
  else
    .ok (st.setNode failing { n with failReports := n.failReports ++ [(sender, now)] }, true)

/-- `clusterNodeCleanupFailureReports`, with `maxtime` from the node timeout. -/
def clusterNodeCleanupFailureReports (st : ClusterState N) (r : NodeRef) (now maxtime : ℤ) :
    Result (ClusterState N) :=
  st.modifyNode r fun n =>
    { n with failReports := n.failReports.filter fun fr => ¬ (now - fr.2 > maxtime) }

def clusterNodeDelFailureReport (st : ClusterState N) (r sender : NodeRef) (now maxtime : ℤ) :
    Result (ClusterState N × Bool) := do
  let n ← st.node r
  if sender ∈ n.failReports.map Prod.fst then do
    let st := st.setNode r { n with
      failReports := n.failReports.eraseP fun fr => fr.1 = sender }
    let st ← clusterNodeCleanupFailureReports st r now maxtime
    .ok (st, true)
  else .ok (st, false)

/-! ### Roles -/

/-- `clusterDoBeforeSleep` with `CLUSTER_TODO_SAVE_CONFIG|CLUSTER_TODO_UPDATE_STATE`. -/
def todoSaveUpdate (st : ClusterState N) : ClusterState N :=
  { st with todoSaveConfig := true, todoUpdateState := true }

/-- `clusterDoBeforeSleep` with `CLUSTER_TODO_SAVE_CONFIG|CLUSTER_TODO_FSYNC_CONFIG`. -/
def todoSaveFsync (st : ClusterState N) : ClusterState N :=
  { st with todoSaveConfig := true, todoFsyncConfig := true }

/-- `resetManualFailover`; the clients it lets go on are not part of the model. -/
def resetManualFailover (st : ClusterState N) : ClusterState N :=
  { st with mfEnd := 0, mfCanStart := false, mfSlave := none, mfMasterOffset := 0 }

def clusterSetNodeAsMaster (st : ClusterState N) (r : NodeRef) : Result (ClusterState N) := do
  let n ← st.node r
  if n.flags.master then .ok st
  else do
    let st ← leaveMaster st n.slaveof r
    let st ← st.modifyNode r fun n =>
      { n with flags := { n.flags with slave := false, master := true }, slaveof := none }
    .ok (todoSaveUpdate st)

/-- How this node ceases to be what it was in `clusterSetMaster`: a master, or the slave
of another master. -/
def leaveRole (st : ClusterState N) (me : ClusterNode N) : Result (ClusterState N) :=
  if me.flags.master then do
    let st ← st.modifyNode st.myself fun n =>
      { n with flags := { n.flags with master := false, slave := true } }
    .ok (clusterCloseAllSlots st)
  else leaveMaster st me.slaveof st.myself

def clusterSetMaster (st : ClusterState N) (r : NodeRef) : Result (ClusterState N) := do
  redisAssert .clusterSetMaster (r ≠ st.myself)
  let me ← st.node st.myself
  redisAssert .clusterSetMaster (me.numslots = 0)
  let st ← leaveRole st me
  let st ← st.modifyNode st.myself fun n => { n with slaveof := some r }
  let st ← clusterNodeAddSlave st r st.myself
  .ok (resetManualFailover st)

/-! ### Slots claimed by another node -/

/-- The master of this node: itself, or the node it replicates. -/
def curmaster (st : ClusterState N) : Result (Option NodeRef) := do
  let me ← st.node st.myself
  .ok (if me.flags.master then some st.myself else me.slaveof)

/-- Whether the slot is to be bound to a node that claims it with `senderConfigEpoch`. -/
def slotIsOutdated (st : ClusterState N) (slot : Slot) (senderConfigEpoch : ℕ) : Result Bool :=
  match st.slots slot with
  | none => .ok true
  | some r => do
    let owner ← st.node r
    .ok (owner.configEpoch < senderConfigEpoch)

/-- One round of the loop of `clusterUpdateSlotsConfigWith`: the state, whether a slot of
the current master went to the sender, and the slots that this node lost while it held
keys of them. -/
def updateSlot (sender : NodeRef) (senderConfigEpoch : ℕ) (slots : Slot → Bool)
    (curmaster : Option NodeRef) (acc : ClusterState N × Bool × List Slot) (slot : Slot) :
    Result (ClusterState N × Bool × List Slot) := do
  let (st, newmaster, dirty) := acc
  if slots slot then
    if st.slots slot = some sender then .ok (st, newmaster, dirty)
    else if (st.importingSlotsFrom slot).isSome then .ok (st, newmaster, dirty)
    else do
      let outdated ← slotIsOutdated st slot senderConfigEpoch
      if outdated then do
        let dirty :=
          if st.slots slot = some st.myself ∧ st.keysInSlot slot ≠ 0 ∧ sender ≠ st.myself then
            dirty ++ [slot]
          else dirty
        let newmaster := newmaster || decide (st.slots slot = curmaster)
        let (st, _) ← clusterDelSlot st slot
        let (st, _) ← clusterAddSlot st sender slot
        .ok ({ todoSaveUpdate st with todoFsyncConfig := true }, newmaster, dirty)
      else .ok (st, newmaster, dirty)
  else .ok (st, newmaster, dirty)

/-- Whether the current master lost its last slot to the sender. -/
def curmasterLost (st : ClusterState N) (newmaster : Bool) (curmaster : Option NodeRef) :
    Result Bool :=
  if newmaster then
    match curmaster with
    | some m => do
      let n ← st.node m
      .ok (decide (n.numslots = 0))
    | none => .error .wild
  else .ok false

def clusterUpdateSlotsConfigWith (st : ClusterState N) (sender : NodeRef) (senderConfigEpoch : ℕ)
    (slots : Slot → Bool) : Result (ClusterState N) := do
  let curmaster ← st.curmaster
  if sender = st.myself then .ok st
  else do
    let (st, newmaster, dirty) ← allSlots.foldlM
      (updateSlot sender senderConfigEpoch slots curmaster) (st, false, [])
    let lost ← curmasterLost st newmaster curmaster
    if lost then do
      let st ← clusterSetMaster st sender
      .ok { todoSaveUpdate st with todoFsyncConfig := true }
    else .ok { st with keysInSlot := fun slot => if slot ∈ dirty then 0 else st.keysInSlot slot }

end ClusterState

/-
The packets a cluster node processes.

* `ClusterMsg` — the header of a packet;
* `updateEpochs`, `roleSwitch`, `updateSlots`, `clusterHandleConfigEpochCollision` — the
  steps of `clusterProcessPacket` on a `PING`, `PONG` or `MEET`, put together in
  `clusterProcessPing`;
* `clusterProcessUpdate`, `clusterProcessMfstart` — `UPDATE` and `MFSTART` packets.
-/
import RedisModel.ClusterCommand

/-- `clusterMsg`: the part of the header that is read.  `slaveof` is `none` for
`REDIS_NODE_NULL_NAME`. -/
structure ClusterMsg (N : Type) where
  sender : N
  currentEpoch : ℕ
  configEpoch : ℕ
  offset : ℤ
  slaveof : Option N
  myslots : Slot → Bool
  /-- The bits of `flags` for `REDIS_NODE_MASTER` and `REDIS_NODE_SLAVE`. -/
  master : Bool
  slave : Bool
  /-- `CLUSTERMSG_FLAG0_PAUSED`. -/
  paused : Bool
  /-- `CLUSTERMSG_FLAG0_FORCEACK`. -/
  forceAck : Bool

namespace ClusterState

variable {N : Type}

/-- The start of `clusterProcessPacket` for a known sender that is not in handshake:
epochs and replication offset. -/
def updateEpochs (st : ClusterState N) (sender : NodeRef) (hdr : ClusterMsg N) :
    Result (ClusterState N) := do
  let st := if hdr.currentEpoch > st.currentEpoch then
    { st with currentEpoch := hdr.currentEpoch } else st
  let n ← st.node sender
  let st := if hdr.configEpoch > n.configEpoch then
    todoSaveFsync (st.setNode sender { n with configEpoch := hdr.configEpoch }) else st
  let st ← st.modifyNode sender fun n => { n with replOffset := hdr.offset }
  let me ← st.node st.myself
  if st.mfEnd ≠ 0 ∧ me.flags.slave ∧ me.slaveof = some sender ∧ hdr.paused ∧
      st.mfMasterOffset = 0 then
    .ok { st with mfMasterOffset := hdr.offset }
  else .ok st

/-- A master that announces a master of its own: it becomes a slave without slots. -/
def demote (st : ClusterState N) (sender : NodeRef) : Result (ClusterState N) := do
  let st ← clusterDelNodeSlots st sender
  let st ← st.modifyNode sender fun n =>
    { n with flags := { n.flags with master := false, slave := true } }
  let st ← clusterNodeResetSlaves st sender
  .ok (todoSaveUpdate st)

section
variable [DecidableEq N]

/-- The check for a role switch. -/
def roleSwitch (st : ClusterState N) (sender : NodeRef) (hdr : ClusterMsg N) :
    Result (ClusterState N) := do
  match hdr.slaveof with
  | none => clusterSetNodeAsMaster st sender
  | some name => do
    let master := clusterLookupNode st name
    let n ← st.node sender
    let st ← (if n.flags.master then demote st sender else .ok st)
    let n ← st.node sender
    match master with
    | none => .ok st
    | some m =>
      if n.slaveof = some m then .ok st
      else do
        let st ← leaveMaster st n.slaveof sender
        let st ← clusterNodeAddSlave st m sender
        let st ← st.modifyNode sender fun n => { n with slaveof := some m }
        .ok { st with todoSaveConfig := true }

end

/-- Whether the slots the sender claims, for itself or for its master, are not the ones
this node knows. -/
def dirtySlots (st : ClusterState N) (sender : NodeRef) (hdr : ClusterMsg N) : Result Bool := do
  let n ← st.node sender
  match (if n.flags.master then some sender else n.slaveof) with
  | none => .ok false
  | some m => do
    let master ← st.node m
    .ok (decide (master.slots ≠ hdr.myslots))

/-- The update of the slots of the sender.  `UPDATE` packets for the sender are not part
of the model. -/
def updateSlots (st : ClusterState N) (sender : NodeRef) (senderConfigEpoch : ℕ)
    (hdr : ClusterMsg N) : Result (ClusterState N) := do
  let dirty ← dirtySlots st sender hdr
  let n ← st.node sender
  if n.flags.master ∧ dirty then clusterUpdateSlotsConfigWith st sender senderConfigEpoch hdr.myslots
  else .ok st

/-- `clusterHandleConfigEpochCollision`; names are compared as `memcmp` does. -/
def clusterHandleConfigEpochCollision [LinearOrder N] (st : ClusterState N) (sender : NodeRef) :
    Result (ClusterState N) := do
  let n ← st.node sender
  let me ← st.node st.myself
  if n.configEpoch ≠ me.configEpoch ∨ ¬ n.flags.master ∨ ¬ me.flags.master then .ok st
  else if n.name ≤ me.name then .ok st
  else do
    let st := { st with currentEpoch := nextEpoch st.currentEpoch }
    let st ← st.modifyNode st.myself fun n => { n with configEpoch := st.currentEpoch }
    .ok { st with todoSaveConfig := false, todoFsyncConfig := false }

/-- The check for a collision of configuration epochs. -/
def checkCollision [LinearOrder N] (st : ClusterState N) (sender : NodeRef)
    (senderConfigEpoch : ℕ) : Result (ClusterState N) := do
  let n ← st.node sender
  let me ← st.node st.myself
  if me.flags.master ∧ n.flags.master ∧ senderConfigEpoch = me.configEpoch then
    clusterHandleConfigEpochCollision st sender
  else .ok st

/-- The configuration part of a `PING`, `PONG` or `MEET` of a node in the table.  The
epochs of a node in handshake are not read. -/
def clusterProcessPing [LinearOrder N] (st : ClusterState N) (hdr : ClusterMsg N) :
    Result (ClusterState N) := do
  match clusterLookupNode st hdr.sender with
  | none => .ok st
  | some sender => do
    let n ← st.node sender
    let st ← (if n.flags.handshake then .ok st else updateEpochs st sender hdr)
    let senderConfigEpoch := if n.flags.handshake then 0 else hdr.configEpoch
    let st ← roleSwitch st sender hdr
    let st ← updateSlots st sender senderConfigEpoch hdr
    checkCollision st sender senderConfigEpoch

section
variable [DecidableEq N]

/-- An `UPDATE` packet about the node `name`. -/
def clusterProcessUpdate (st : ClusterState N) (hdr : ClusterMsg N) (name : N)
    (reportedConfigEpoch : ℕ) (slots : Slot → Bool) : Result (ClusterState N) := do
  match clusterLookupNode st hdr.sender with
  | none => .ok st
  | some sender => do
    let n ← st.node sender
    let st ← (if n.flags.handshake then .ok st else updateEpochs st sender hdr)
    match clusterLookupNode st name with
    | none => .ok st
    | some r => do
      let n ← st.node r
      if n.configEpoch ≥ reportedConfigEpoch then .ok st
      else do
        let st ← (if n.flags.slave then clusterSetNodeAsMaster st r else .ok st)
        let st ← st.modifyNode r fun n => { n with configEpoch := reportedConfigEpoch }
        clusterUpdateSlotsConfigWith (todoSaveFsync st) r reportedConfigEpoch slots

/-- An `MFSTART` packet, received at the time `now`; the pause of the clients is not part
of the model. -/
def clusterProcessMfstart (st : ClusterState N) (hdr : ClusterMsg N) (mfEnd : ℤ) :
    Result (ClusterState N) := do
  match clusterLookupNode st hdr.sender with
  | none => .ok st
  | some sender => do
    let n ← st.node sender
    let st ← (if n.flags.handshake then .ok st else updateEpochs st sender hdr)
    let n ← st.node sender
    if n.slaveof ≠ some st.myself then .ok st
    else .ok { resetManualFailover st with mfEnd, mfSlave := some sender }

end

end ClusterState

/-
Elections of slaves.

A slave whose master failed schedules an election, asks the masters for their votes and
promotes itself when a majority voted for it.

* `clusterBuildMessageHdr` — the header of the packets a node sends;
* `clusterSendFailoverAuthIfNeeded` — the vote of a master;
* `clusterHandleSlaveFailover` — the steps of a slave;
* `clusterProcessAuthRequest`, `clusterProcessAuthAck` — the packets.
-/
import RedisModel.ClusterPacket

namespace ClusterState

variable {N : Type}

/-! ### Packets sent -/

/-- The node whose slots and configuration epoch this node announces: its master, when it
is a slave that has one. -/
def announced (st : ClusterState N) (me : ClusterNode N) : NodeRef :=
  if me.flags.slave then me.slaveof.getD st.myself else st.myself

/-- The name of a node that may be missing. -/
def nameOf (st : ClusterState N) (r : Option NodeRef) : Result (Option N) :=
  match r with
  | none => .ok none
  | some r => do
    let n ← st.node r
    .ok (some n.name)

/-- `clusterBuildMessageHdr`, with the replication offset of this node. -/
def clusterBuildMessageHdr (st : ClusterState N) (offset : ℤ) : Result (ClusterMsg N) := do
  let me ← st.node st.myself
  let master ← st.node (st.announced me)
  let slaveof ← st.nameOf me.slaveof
  .ok { sender := me.name, currentEpoch := st.currentEpoch, configEpoch := master.configEpoch,
        offset, slaveof, myslots := master.slots, master := me.flags.master,
        slave := me.flags.slave, paused := me.flags.master && decide (st.mfEnd ≠ 0),
        forceAck := false }

/-- The nodes that `clusterBroadcastMessage` sends to. -/
def clusterBroadcastTargets (st : ClusterState N) : Result (List N) :=
  st.nodes.foldlM (fun targets e => do
    let n ← st.node e.2
    .ok (if n.link ∧ ¬ n.flags.myself ∧ ¬ n.flags.handshake then targets ++ [n.name]
      else targets)) []

/-- `clusterRequestFailoverAuth`: the request. -/
def clusterRequestFailoverAuth (st : ClusterState N) (offset : ℤ) : Result (ClusterMsg N) := do
  let hdr ← clusterBuildMessageHdr st offset
  .ok { hdr with forceAck := decide (st.mfEnd ≠ 0) }

/-- `clusterSendFailoverAuth`: the acknowledgement; `none` when there is no link. -/
def clusterSendFailoverAuth (st : ClusterState N) (node : ClusterNode N) (offset : ℤ) :
    Result (Option (ClusterMsg N)) :=
  if node.link then do
    let hdr ← clusterBuildMessageHdr st offset
    .ok (some hdr)
  else .ok none

/-! ### Votes -/

/-- What a master reads of its surroundings when it is asked for a vote. -/
structure VoteEnv where
  now : ℤ
  nodeTimeout : ℤ
  offset : ℤ

/-- The answer to a request: a vote that is granted comes with the acknowledgement that is
sent, if there is a link. -/
inductive Vote (N : Type) where
  | denied
  | granted (ack : Option (ClusterMsg N))

/-- Whether the request claims a slot that is served with a greater configuration epoch. -/
def claimsStaleSlot (st : ClusterState N) (request : ClusterMsg N) : Result Bool :=
  allSlots.foldlM (fun stale slot =>
    if stale then .ok true
    else if request.myslots slot then
      match st.slots slot with
      | none => .ok false
      | some r => do
        let n ← st.node r
        .ok (decide (¬ n.configEpoch ≤ request.configEpoch))
    else .ok false) false

def clusterSendFailoverAuthIfNeeded (st : ClusterState N) (r : NodeRef) (request : ClusterMsg N)
    (env : VoteEnv) : Result (ClusterState N × Vote N) := do
  let node ← st.node r
  let me ← st.node st.myself
  if me.flags.slave ∨ me.numslots = 0 then .ok (st, .denied)
  else if request.currentEpoch < st.currentEpoch then .ok (st, .denied)
  else if st.lastVoteEpoch = st.currentEpoch then .ok (st, .denied)
  else match node.slaveof with
    | none => .ok (st, .denied)
    | some m => do
      let master ← st.node m
      if node.flags.master ∨ (¬ master.flags.fail ∧ ¬ request.forceAck) then .ok (st, .denied)
      else if env.now - master.votedTime < env.nodeTimeout * 2 then .ok (st, .denied)
      else do
        let stale ← claimsStaleSlot st request
        if stale then .ok (st, .denied)
        else do
          let ack ← clusterSendFailoverAuth st node env.offset
          let st := { st with lastVoteEpoch := st.currentEpoch }
          let st ← st.modifyNode m fun n => { n with votedTime := env.now }
          .ok (st, .granted ack)

section
variable [DecidableEq N]

/-- A `FAILOVER_AUTH_REQUEST` packet. -/
def clusterProcessAuthRequest (st : ClusterState N) (hdr : ClusterMsg N) (env : VoteEnv) :
    Result (ClusterState N × Vote N) := do
  match clusterLookupNode st hdr.sender with
  | none => .ok (st, .denied)
  | some sender => do
    let n ← st.node sender
    let st ← (if n.flags.handshake then .ok st else updateEpochs st sender hdr)
    clusterSendFailoverAuthIfNeeded st sender hdr env

/-- Whether an acknowledgement is counted. -/
def countsAck (st : ClusterState N) (n : ClusterNode N) (senderCurrentEpoch : ℕ) : Bool :=
  n.flags.master && decide (n.numslots > 0) && decide (senderCurrentEpoch ≥ st.failoverAuthEpoch)

/-- A `FAILOVER_AUTH_ACK` packet. -/
def clusterProcessAuthAck (st : ClusterState N) (hdr : ClusterMsg N) : Result (ClusterState N) := do
  match clusterLookupNode st hdr.sender with
  | none => .ok st
  | some sender => do
    let n ← st.node sender
    let st ← (if n.flags.handshake then .ok st else updateEpochs st sender hdr)
    let senderCurrentEpoch := if n.flags.handshake then 0 else hdr.currentEpoch
    let n ← st.node sender
    if countsAck st n senderCurrentEpoch then
      .ok { st with failoverAuthCount := st.failoverAuthCount + 1, todoHandleFailover := true }
    else .ok st

end

/-! ### The steps of a slave -/

/-- What a slave reads of its surroundings: the clock, the configuration, a random number,
its replication offset and for how long it has heard nothing from its master. -/
structure FailoverEnv where
  now : ℤ
  nodeTimeout : ℤ
  replPingSlavePeriod : ℤ
  random : ℕ
  offset : ℤ
  disconnected : ℤ

def clusterGetSlaveRank (st : ClusterState N) (offset : ℤ) : Result ℤ := do
  let me ← st.node st.myself
  redisAssert .clusterGetSlaveRank (me.flags.slave = true)
  match me.slaveof with
  | none => .ok 0
  | some m => do
    let master ← st.node m
    master.slaves.foldlM (fun rank s => do
      if s = st.myself then .ok rank
      else do
        let n ← st.node s
        .ok (if n.replOffset > offset then rank + 1 else rank)) 0

/-- Whether a manual failover has to be carried out. -/
def manualFailover (st : ClusterState N) : Bool := decide (st.mfEnd ≠ 0) && st.mfCanStart

/-- Whether this node is a slave that has to replace its master. -/
def mayFailover (st : ClusterState N) (me : ClusterNode N) : Result Bool :=
  if me.flags.master then .ok false
  else match me.slaveof with
    | none => .ok false
    | some m => do
      let master ← st.node m
      .ok ((master.flags.fail || st.manualFailover) && decide (master.numslots ≠ 0))

/-- Whether the data of this node is too old. -/
def dataTooOld (env : FailoverEnv) : Bool :=
  let age := if env.disconnected > env.nodeTimeout then env.disconnected - env.nodeTimeout
    else env.disconnected
  decide (age > env.replPingSlavePeriod * 1000 + env.nodeTimeout * 10)

def authTimeout (env : FailoverEnv) : ℤ :=
  if env.nodeTimeout * 2 < 2000 then 2000 else env.nodeTimeout * 2

/-- An election is scheduled. -/
def scheduleElection (st : ClusterState N) (env : FailoverEnv) : Result (ClusterState N) := do
  let rank ← clusterGetSlaveRank st env.offset
  let st := { st with
    failoverAuthTime := env.now + 500 + (env.random % 500 : ℕ) + rank * 1000
    failoverAuthCount := 0
    failoverAuthSent := false
    failoverAuthRank := rank }
  .ok (if st.mfEnd ≠ 0 then { st with failoverAuthTime := env.now, failoverAuthRank := 0 } else st)

/-- A scheduled election is put off when other slaves got ahead. -/
def updateRank (st : ClusterState N) (env : FailoverEnv) : Result (ClusterState N) := do
  if st.failoverAuthSent = false ∧ st.mfEnd = 0 then do
    let newrank ← clusterGetSlaveRank st env.offset
    .ok (if newrank > st.failoverAuthRank then { st with
        failoverAuthTime := st.failoverAuthTime + (newrank - st.failoverAuthRank) * 1000
        failoverAuthRank := newrank }
      else st)
  else .ok st

/-- What a call of `clusterHandleSlaveFailover` came to. -/
inductive FailoverStep (N : Type) where
  | idle
  | scheduled
  /-- The nodes were asked for their votes. -/
  | requested (request : ClusterMsg N) (targets : List N)
  | promoted

/-- The votes are asked for. -/
def requestVotes (st : ClusterState N) (env : FailoverEnv) :
    Result (ClusterState N × FailoverStep N) := do
  let st := { st with currentEpoch := nextEpoch st.currentEpoch }
  let st := { st with failoverAuthEpoch := st.currentEpoch }
  let request ← clusterRequestFailoverAuth st env.offset
  let targets ← clusterBroadcastTargets st
  .ok ({ todoSaveUpdate st with failoverAuthSent := true, todoFsyncConfig := true },
    .requested request targets)

/-- The part of `clusterHandleSlaveFailover` that follows when an election is scheduled. -/
def continueElection (st : ClusterState N) (env : FailoverEnv) (authAge : ℤ) :
    Result (ClusterState N × FailoverStep N) := do
  let st ← updateRank st env
  if env.now < st.failoverAuthTime then .ok (st, .idle)
  else if authAge > authTimeout env then .ok (st, .idle)
  else if st.failoverAuthSent = false then requestVotes st env
  else if st.failoverAuthCount ≥ st.size / 2 + 1 then do
    let me ← st.node st.myself
    match me.slaveof with
    | none => .error .wild
    | some oldmaster => do
      let st ← clusterFailoverPromote st oldmaster
      .ok (st, .promoted)
  else .ok (st, .idle)

def clusterHandleSlaveFailover (st : ClusterState N) (env : FailoverEnv) :
    Result (ClusterState N × FailoverStep N) := do
  let authAge := env.now - st.failoverAuthTime
  let st := { st with todoHandleFailover := false }
  let me ← st.node st.myself
  let may ← mayFailover st me
  if ¬ may then .ok (st, .idle)
  else if dataTooOld env ∧ ¬ st.manualFailover then .ok (st, .idle)
  else if authAge > authTimeout env * 2 then do
    let st ← scheduleElection st env
    .ok (st, .scheduled)
  else continueElection st env authAge

end ClusterState

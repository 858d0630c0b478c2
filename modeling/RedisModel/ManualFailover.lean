/-
Manual failovers.

A slave that is told `CLUSTER FAILOVER` asks its master to pause its clients.  The master
marks its packets while the failover lasts; the slave takes the replication offset of such
a packet, waits until it has reached that offset, and starts an election.

* `Server` — the cluster state of a server and the pause of its clients;
* `pauseClients`, `clientsArePaused`, `resetManualFailover`, `manualFailoverCheckTimeout`,
  `clusterHandleManualFailover`, `clusterCommandFailover`, `clusterProcessMfstart` — the
  functions;
* `World`, `step` — a master, its slaves and the other nodes of the cluster.

`attempt` and `heard` in `World` and `heard` in `Packet` only record what happened; no
function of the source reads them.
-/
import RedisModel.ClusterElectionRun

open Except

/-! ### The cluster state -/

namespace ClusterState

variable {N : Type}

/-- The name of the master this node replicates. -/
def masterName (st : ClusterState N) : Option N := do
  let me ← st.heap st.myself
  let r ← me.slaveof
  let n ← st.heap r
  some n.name

/-- `nodeIsMaster(myself)`. -/
def isMaster (st : ClusterState N) : Bool :=
  match st.heap st.myself with
  | some me => me.flags.master
  | none => false

/-- `nodeIsSlave(myself)`. -/
def isSlave (st : ClusterState N) : Bool :=
  match st.heap st.myself with
  | some me => me.flags.slave
  | none => false

/-- `clusterHandleManualFailover`, with the replication offset of this slave. -/
def clusterHandleManualFailover (st : ClusterState N) (offset : ℤ) : ClusterState N :=
  if st.mfEnd = 0 then st
  else if st.mfCanStart then st
  else if st.mfMasterOffset = 0 then st
  else if st.mfMasterOffset = offset then { st with mfCanStart := true }
  else st

/-- Whether the node that sent a packet is a slave of this node. -/
def isSlaveOfMe [DecidableEq N] (st : ClusterState N) (name : N) : Bool :=
  match clusterLookupNode st name with
  | none => false
  | some r => match st.heap r with
    | none => false
    | some n => decide (n.slaveof = some st.myself)

end ClusterState

namespace ManualFailover

variable {N : Type}

/-! ### Servers -/

/-- `REDIS_CLUSTER_MF_TIMEOUT`, in milliseconds. -/
def mfTimeout : ℤ := 5000

/-- The cluster state of a server and the pause of its clients; `mstime` is the time when
the server last looked at its clock. -/
structure Server (N : Type) where
  cluster : ClusterState N
  clientsPaused : Bool
  clientsPauseEndTime : ℤ
  mstime : ℤ

namespace Server

def pauseClients (sv : Server N) (endTime : ℤ) : Server N :=
  { sv with
    clientsPauseEndTime := if ¬sv.clientsPaused ∨ endTime > sv.clientsPauseEndTime then endTime
      else sv.clientsPauseEndTime
    clientsPaused := true }

/-- `clientsArePaused`; a pause that is over is ended. -/
def clientsArePaused (sv : Server N) : Server N × Bool :=
  let sv := if sv.clientsPaused ∧ sv.clientsPauseEndTime < sv.mstime then
    { sv with clientsPaused := false } else sv
  (sv, sv.clientsPaused)

/-- What `resetManualFailover` does to the pause. -/
def liftPause (sv : Server N) : Server N :=
  if sv.cluster.mfEnd ≠ 0 then
    let p := sv.clientsArePaused
    if p.2 then (clientsArePaused { p.1 with clientsPauseEndTime := 0 }).1 else p.1
  else sv

def resetManualFailover (sv : Server N) : Server N :=
  { sv.liftPause with cluster := sv.cluster.resetManualFailover }

/-- The cluster state becomes `st`.  If a manual failover was given up on the way, then by
`resetManualFailover`. -/
def setCluster (sv : Server N) (st : ClusterState N) : Server N :=
  { (if sv.cluster.mfEnd ≠ 0 ∧ st.mfEnd = 0 then sv.liftPause else sv) with cluster := st }

def manualFailoverCheckTimeout (sv : Server N) (now : ℤ) : Server N :=
  if sv.cluster.mfEnd ≠ 0 ∧ sv.cluster.mfEnd < now then sv.resetManualFailover else sv

/-- `CLUSTER FAILOVER`: the `MFSTART` packet for the master, if the command is accepted. -/
def clusterCommandFailover (sv : Server N) (now offset : ℤ) :
    Result (Server N × Option (N × ClusterMsg N)) := do
  let me ← sv.cluster.node sv.cluster.myself
  if me.flags.master then .ok (sv, none)
  else match me.slaveof with
    | none => .ok (sv, none)
    | some m => do
      let master ← sv.cluster.node m
      if master.flags.fail ∨ ¬master.link then .ok (sv, none)
      else do
        let sv := sv.resetManualFailover
        let sv := { sv with cluster := { sv.cluster with mfEnd := now + mfTimeout } }
        -- `clusterSendMFStart`
        let hdr ← sv.cluster.clusterBuildMessageHdr offset
        .ok (sv, some (master.name, hdr))

/-- An `MFSTART` packet, and whether it was accepted. -/
def clusterProcessMfstart [DecidableEq N] (sv : Server N) (hdr : ClusterMsg N) (now : ℤ) :
    Result (Server N × Bool) := do
  let st ← sv.cluster.clusterProcessMfstart hdr (now + mfTimeout)
  if sv.cluster.isSlaveOfMe hdr.sender then
    .ok (pauseClients { sv.liftPause with cluster := st } (now + mfTimeout * 2), true)
  else .ok ({ sv with cluster := st }, false)

end Server

/-! ### The cluster -/

/-- An entry of the replication stream of the master; `client` tells the writes of clients
from what the server adds itself. -/
structure Entry where
  size : ℕ
  client : Bool
  size_pos : 0 < size

inductive Body (N : Type) where
  | ping (hdr : ClusterMsg N)
  | update (hdr : ClusterMsg N) (name : N) (configEpoch : ℕ) (slots : Slot → Bool)
  /-- An `MFSTART` packet of the attempt with this number. -/
  | mfstart (hdr : ClusterMsg N) (attempt : ℕ)
  | authRequest (hdr : ClusterMsg N)
  | authAck (hdr : ClusterMsg N)

/-- The header of a packet. -/
def Body.hdr : Body N → ClusterMsg N
  | ping hdr => hdr
  | update hdr _ _ _ => hdr
  | mfstart hdr _ => hdr
  | authRequest hdr => hdr
  | authAck hdr => hdr

/-- A packet, with the last attempt of its receiver that the master had heard of when the
packet was sent. -/
structure Packet (N : Type) where
  body : Body N
  heard : ℕ

/-- A slave promoted itself in a manual failover: what its master had executed and how much
of that the slave had applied, if it was in sync. -/
structure Promotion (N : Type) where
  slave : N
  executed : List Entry
  applied : Option ℕ

/-- The slave had applied every write of a client. -/
def Promotion.Complete (p : Promotion N) : Prop :=
  ∃ k, p.applied = some k ∧ ∀ e ∈ p.executed.drop k, e.client = false

/-- The nodes of a cluster.  The clocks run at the same rate; `clock` is how far the clock
of a node is ahead.  `feed` is the replication stream of the master since it was at the
offset `start`, and `applied` how many entries of it a slave of the master has applied, if
it is in sync.  `attempt` counts the manual failovers that began at a node, and `heard` is
the last one of a slave whose `MFSTART` the master processed. -/
structure World (N : Type) where
  now : ℤ
  clock : N → ℤ
  server : N → Server N
  link : N → N → List (Packet N)
  start : ℕ
  feed : List Entry
  applied : N → Option ℕ
  attempt : N → ℕ
  heard : N → ℕ
  promotions : List (Promotion N)

namespace World

/-- `mstime` at a node. -/
def time (w : World N) (i : N) : ℤ := w.now + w.clock i

/-- The cluster state of a node. -/
def node (w : World N) (i : N) : ClusterState N := (w.server i).cluster

/-- The replication offset after the first `k` entries. -/
def offsetAt (w : World N) (k : ℕ) : ℤ := (w.start + ((w.feed.take k).map Entry.size).sum : ℕ)

/-- The offset of the master. -/
def masterReplOffset (w : World N) : ℤ := w.offsetAt w.feed.length

section
variable [LinearOrder N] (m : N)

/-- The replication offset a node announces; `other` is the one of a node that is neither
the master nor one of its slaves. -/
def replOffset (w : World N) (i : N) (other : ℤ) : ℤ :=
  if i = m ∧ (w.node i).isMaster then w.masterReplOffset
  else if (w.node i).masterName = some m then
    match w.applied i with
    | some k => w.offsetAt k
    | none => 0
  else other

/-- Change a server.  A slave that gets another master is not in sync any more. -/
def setServer (w : World N) (i : N) (sv : Server N) : World N :=
  { w with
    server := Function.update w.server i sv
    applied := if sv.cluster.masterName = (w.node i).masterName then w.applied
      else Function.update w.applied i none }

/-- Change the packets on a link. -/
def setLink (w : World N) (i j : N) (packets : List (Packet N)) : World N :=
  { w with link := fun a b => if a = i ∧ b = j then packets else w.link a b }

/-- Put a packet on a link. -/
def send (w : World N) (i j : N) (body : Body N) : World N :=
  w.setLink i j (w.link i j ++ [⟨body, w.heard j⟩])

/-- Send a packet to several nodes. -/
def broadcast (w : World N) (i : N) (targets : List N) (body : Body N) : World N :=
  targets.foldl (fun w j => w.send i j body) w

/-- A slave in the state `sv` was promoted. -/
def promote (w : World N) (i : N) (sv : Server N) (st : ClusterState N) : World N :=
  { w.setServer i (sv.setCluster st) with
    promotions := if sv.cluster.manualFailover ∧ sv.cluster.masterName = some m then
        ⟨i, w.feed, w.applied i⟩ :: w.promotions
      else w.promotions }

/-- A call of `clusterHandleSlaveFailover` at a node in the state `sv`.  A run ends when the
node `m` is promoted itself: then another one begins. -/
def handleSlaveFailover (w : World N) (i : N) (sv : Server N) (env : ClusterState.FailoverEnv) :
    Option (World N) := do
  let p ← (sv.cluster.clusterHandleSlaveFailover
    { env with now := w.time i, offset := w.replOffset m i env.offset }).toOption
  match p.2 with
  | .idle => some (w.setServer i (sv.setCluster p.1))
  | .scheduled => some (w.setServer i (sv.setCluster p.1))
  | .requested request targets =>
    some ((w.setServer i (sv.setCluster p.1)).broadcast i targets (.authRequest request))
  | .promoted => if i = m then none else some (w.promote m i sv p.1)

/-- The part of `clusterCron` that is about failovers. -/
def clusterCron (w : World N) (i : N) (env : ClusterState.FailoverEnv) : Option (World N) :=
  let sv := (w.server i).manualFailoverCheckTimeout (w.time i)
  if sv.cluster.isSlave then
    let st := sv.cluster.clusterHandleManualFailover (w.replOffset m i env.offset)
    w.handleSlaveFailover m i { sv with cluster := st } env
  else some (w.setServer i sv)

/-- The part of `clusterBeforeSleep` that is about failovers. -/
def clusterBeforeSleep (w : World N) (i : N) (env : ClusterState.FailoverEnv) : Option (World N) :=
  if (w.node i).todoHandleFailover then w.handleSlaveFailover m i (w.server i) env else some w

/-- Node `j` processes a packet. -/
def receive (w : World N) (j : N) (p : Packet N) (env : ClusterState.VoteEnv) :
    Option (World N) :=
  match p.body with
  | .ping hdr => do
    let st ← ((w.node j).clusterProcessPing hdr).toOption
    some (w.setServer j ((w.server j).setCluster st))
  | .update hdr name configEpoch slots => do
    let st ← ((w.node j).clusterProcessUpdate hdr name configEpoch slots).toOption
    some (w.setServer j ((w.server j).setCluster st))
  | .mfstart hdr attempt => do
    let p ← ((w.server j).clusterProcessMfstart hdr (w.time j)).toOption
    let w' := w.setServer j p.1
    if p.2 then
      if j = m then
        some { w' with
          heard := Function.update w.heard hdr.sender (max (w.heard hdr.sender) attempt) }
      else some { w' with attempt := Function.update w.attempt j (w.attempt j + 1) }
    else some w'
  | .authRequest hdr => do
    let p ← ((w.node j).clusterProcessAuthRequest hdr
      { env with now := w.time j, offset := w.replOffset m j env.offset }).toOption
    let w' := w.setServer j ((w.server j).setCluster p.1)
    match p.2 with
    | .granted (some ack) => some (w'.send j hdr.sender (.authAck ack))
    | _ => some w'
  | .authAck hdr => do
    let st ← ((w.node j).clusterProcessAuthAck hdr).toOption
    some (w.setServer j ((w.server j).setCluster st))

end

end World

/-- Every entry of the table of nodes is under the name of its node. -/
def TableOk (st : ClusterState N) : Prop :=
  ∀ e ∈ st.nodes, (st.heap e.2).map ClusterNode.name = some e.1

instance [DecidableEq N] (st : ClusterState N) : Decidable (TableOk st) := by
  unfold TableOk
  infer_instance

/-- What the rest of the server does to the cluster state: it leaves elections and manual
failovers alone. -/
def outside (st st' : ClusterState N) : ClusterState N :=
  { ClusterState.outside st st' with
    mfEnd := st.mfEnd
    mfSlave := st.mfSlave
    mfCanStart := st.mfCanStart
    mfMasterOffset := st.mfMasterOffset }

inductive Event (N : Type) where
  /-- Time passes. -/
  | tick (d : ℕ)
  /-- `serverCron` looks at the clock and ends a pause that is over. -/
  | serverCron (i : N)
  /-- `CLIENT PAUSE`. -/
  | clientPause (i : N) (endTime : ℤ)
  /-- The master executes the write of a client. -/
  | write (size : ℕ)
  /-- The master adds something else to its replication stream. -/
  | feedSlaves (size : ℕ)
  /-- A slave has applied the first `k` entries of the stream. -/
  | replicate (i : N) (k : ℕ)
  | clusterFailover (i : N) (offset : ℤ)
  /-- A node sends its configuration to another one. -/
  | heartbeat (i j : N) (offset : ℤ)
  /-- A node sends what it knows of the node `name`. -/
  | sendUpdate (i j name : N) (offset : ℤ)
  /-- A node processes the first packet of a link. -/
  | deliver (i j : N) (env : ClusterState.VoteEnv)
  /-- The first packet of a link is lost. -/
  | lose (i j : N)
  | clusterCron (i : N) (env : ClusterState.FailoverEnv)
  | clusterBeforeSleep (i : N) (env : ClusterState.FailoverEnv)
  /-- Anything else the server does to a node, which changes neither its role nor its
  master. -/
  | other (i : N) (st : ClusterState N)

open World in
/-- One step of the cluster, of which `m` is the master that is looked at. -/
def step [LinearOrder N] (m : N) (w : World N) : Event N → Option (World N)
  | .tick d => some { w with now := w.now + d }
  | .serverCron i =>
    some (w.setServer i (Server.clientsArePaused { w.server i with mstime := w.time i }).1)
  | .clientPause i endTime => some (w.setServer i ((w.server i).pauseClients endTime))
  | .write size =>
    let p := (w.server m).clientsArePaused
    if h : (w.node m).isMaster ∧ p.2 = false ∧ 0 < size then
      some { w.setServer m p.1 with feed := w.feed ++ [⟨size, true, h.2.2⟩] }
    else none
  | .feedSlaves size =>
    if h : (w.node m).isMaster ∧ 0 < size then
      some { w with feed := w.feed ++ [⟨size, false, h.2⟩] }
    else none
  | .replicate i k =>
    if (w.node i).masterName = some m ∧ (w.node m).isMaster ∧ k ≤ w.feed.length ∧
        (w.applied i).getD 0 ≤ k then
      some { w with applied := Function.update w.applied i (some k) }
    else none
  | .clusterFailover i offset => do
    let p ← ((w.server i).clusterCommandFailover (w.time i) (w.replOffset m i offset)).toOption
    match p.2 with
    | none => some (w.setServer i p.1)
    | some (master, hdr) =>
      let attempt := w.attempt i + 1
      some (send { w.setServer i p.1 with attempt := Function.update w.attempt i attempt }
        i master (.mfstart hdr attempt))
  | .heartbeat i j offset => do
    let hdr ← ((w.node i).clusterBuildMessageHdr (w.replOffset m i offset)).toOption
    if i = j then none else some (w.send i j (.ping hdr))
  | .sendUpdate i j name offset => do
    let hdr ← ((w.node i).clusterBuildMessageHdr (w.replOffset m i offset)).toOption
    let r ← ClusterState.clusterLookupNode (w.node i) name
    let n ← (w.node i).heap r
    if name = j then none else some (w.send i j (.update hdr name n.configEpoch n.slots))
  | .deliver i j env => match w.link i j with
    | [] => none
    | p :: packets => (w.setLink i j packets).receive m j p env
  | .lose i j => some (w.setLink i j (w.link i j).tail)
  | .clusterCron i env => w.clusterCron m i env
  | .clusterBeforeSleep i env => w.clusterBeforeSleep m i env
  | .other i st =>
    if ClusterState.Named i st ∧ TableOk st ∧ st.masterName = (w.node i).masterName ∧
        st.isMaster = (w.node i).isMaster then
      some (w.setServer i { w.server i with cluster := outside (w.node i) st })
    else none

end ManualFailover

/-
Migration of slaves to masters that have none (`cluster.c`).

* `clusterCronCounts` — what `clusterCron` counts in its loop over the nodes;
* `migrationTarget`, `clusterHandleSlaveMigration` — where this node migrates to;
* `clusterCronMigration` — the step of `clusterCron`.

The state of the cluster (`ok` for `REDIS_CLUSTER_OK`) and `cluster_migration_barrier` are
arguments.
-/
import RedisModel.ClusterState

namespace ClusterState

variable {N : Type}

/-- The slaves of a node that are counted for their flags. -/
def countSlaves (st : ClusterState N) (counted : NodeFlags → Bool) (n : ClusterNode N) : Result ℕ :=
  n.slaves.foldlM (fun okslaves r => do
    let slave ← st.node r
    .ok (if counted slave.flags then okslaves + 1 else okslaves)) 0

def clusterCountNonFailingSlaves (st : ClusterState N) (n : ClusterNode N) : Result ℕ :=
  countSlaves st (fun flags => !flags.fail) n

/-! ### The loop of `clusterCron` -/

/-- `orphaned_masters`, `max_slaves` and `this_slaves`. -/
structure SlaveCounts where
  orphanedMasters : ℕ
  maxSlaves : ℕ
  thisSlaves : ℕ
  deriving DecidableEq

/-- One round of the loop, for this node `me`. -/
def countNode (st : ClusterState N) (me : ClusterNode N) (c : SlaveCounts) (r : NodeRef) :
    Result SlaveCounts := do
  let node ← st.node r
  if node.flags.myself ∨ node.flags.noaddr ∨ node.flags.handshake then .ok c
  else if me.flags.slave ∧ node.flags.master ∧ ¬node.flags.fail then do
    let okslaves ← clusterCountNonFailingSlaves st node
    .ok {
      orphanedMasters :=
        if okslaves = 0 ∧ node.numslots > 0 then c.orphanedMasters + 1 else c.orphanedMasters
      maxSlaves := if okslaves > c.maxSlaves then okslaves else c.maxSlaves
      thisSlaves := if me.slaveof = some r then okslaves else c.thisSlaves }
  else .ok c

/-- The addresses in the table, in the order of its iterator. -/
def refs (st : ClusterState N) : List NodeRef := st.nodes.map Prod.snd

def clusterCronCounts (st : ClusterState N) : Result SlaveCounts := do
  let me ← st.node st.myself
  st.refs.foldlM (countNode st me) ⟨0, 0, 0⟩

/-! ### The migration -/

section
variable [LinearOrder N]

/-- The one of two nodes with the smaller name. -/
def smallerName (st : ClusterState N) (candidate r : NodeRef) : Result NodeRef := do
  let slave ← st.node r
  let current ← st.node candidate
  .ok (if slave.name < current.name then r else candidate)

/-- One round of the third step, with `target` and `candidate`. -/
def considerNode (st : ClusterState N) (maxSlaves : ℕ) (acc : Option NodeRef × NodeRef)
    (r : NodeRef) : Result (Option NodeRef × NodeRef) := do
  let node ← st.node r
  if node.flags.slave ∨ node.flags.fail then .ok acc
  else do
    let okslaves ← clusterCountNonFailingSlaves st node
    let target := if okslaves = 0 ∧ acc.1 = none ∧ node.numslots > 0 then some r else acc.1
    -- the failed slaves of the node are compared as well
    let candidate ← (if okslaves = maxSlaves then node.slaves.foldlM (smallerName st) acc.2
      else .ok acc.2)
    .ok (target, candidate)

/-- The first three steps of `clusterHandleSlaveMigration`, and the test of the fourth. -/
def migrationTarget (st : ClusterState N) (ok : Bool) (barrier : ℤ) (maxSlaves : ℕ) :
    Result (Option NodeRef) := do
  if ¬ok then .ok none
  else do
    let me ← st.node st.myself
    match me.slaveof with
    | none => .ok none
    | some m => do
      let mymaster ← st.node m
      let okslaves ← countSlaves st (fun flags => !flags.fail && !flags.pfail) mymaster
      if (okslaves : ℤ) ≤ barrier then .ok none
      else do
        let (target, candidate) ← st.refs.foldlM (considerNode st maxSlaves) (none, st.myself)
        .ok (if candidate = st.myself then target else none)

def clusterHandleSlaveMigration (st : ClusterState N) (ok : Bool) (barrier : ℤ) (maxSlaves : ℕ) :
    Result (ClusterState N) := do
  match ← migrationTarget st ok barrier maxSlaves with
  | some target => clusterSetMaster st target
  | none => .ok st

/-- The migration step of `clusterCron`. -/
def clusterCronMigration (st : ClusterState N) (ok : Bool) (barrier : ℤ) :
    Result (ClusterState N) := do
  let me ← st.node st.myself
  let counts ← clusterCronCounts st
  if me.flags.slave ∧ counts.orphanedMasters ≠ 0 ∧ counts.maxSlaves ≥ 2 ∧
      counts.thisSlaves = counts.maxSlaves then
    clusterHandleSlaveMigration st ok barrier counts.maxSlaves
  else .ok st

end

end ClusterState

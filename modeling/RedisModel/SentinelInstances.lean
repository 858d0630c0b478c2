/-
What a Sentinel knows about masters, their slaves and other Sentinels (`sentinel.c`).

* `Slave`, `Peer`, `Master`, `SentinelState` — the instances and the state of the Sentinel;
* `sentinelVoteLeader`, `sentinelGetLeader` — votes, and the leader of an epoch;
* `sentinelAskMasterStateToOtherSentinels` and the replies;
* `sentinelResetMaster`, `sentinelProcessHelloMessage` — masters that are reset.

The clock is read once for every function.  Slaves are numbered in the order in which they are
created, and pointers to them are these numbers.
-/
import Mathlib.Algebra.Group.Nat.Defs
import Mathlib.Data.Int.Notation
import Mathlib.Logic.Function.Basic
import Mathlib.Order.Lattice
import RedisModel.Ensures

open Except

namespace Sentinel

/-! ### Instances -/

abbrev SlaveRef := ℕ

inductive Fault where
  /-- The assertions of `sentinelAbortFailover`. -/
  | abortFailover
  /-- The assertion of `sentinelGetLeader`. -/
  | getLeader
  /-- A pointer that is `NULL`. -/
  | null
  /-- A pointer to an instance that was freed. -/
  | memory
  deriving DecidableEq

/-- `sentinelAddr`. -/
structure Addr (H : Type) where
  ip : H
  port : ℤ
  deriving DecidableEq

inductive Role where
  | master
  | slave
  deriving DecidableEq

/-- `SENTINEL_FAILOVER_STATE_NONE` and so on. -/
inductive FailoverState where
  | none
  | waitStart
  | selectSlave
  | sendSlaveofNoone
  | waitPromotion
  | reconfSlaves
  | updateConfig
  deriving DecidableEq

/-- The numbers of the states. -/
def FailoverState.num : FailoverState → ℕ
  | .none => 0
  | .waitStart => 1
  | .selectSlave => 2
  | .sendSlaveofNoone => 3
  | .waitPromotion => 4
  | .reconfSlaves => 5
  | .updateConfig => 6

/-- `sentinelRedisInstance` of a slave, with its flags. -/
structure Slave (H R : Type) where
  addr : Addr H
  sDown : Bool
  disconnected : Bool
  promoted : Bool
  reconfSent : Bool
  reconfInprog : Bool
  reconfDone : Bool
  runid : Option R
  slavePriority : ℤ
  slaveReplOffset : ℕ
  lastAvailTime : ℤ
  infoRefresh : ℤ
  masterLinkDownTime : ℤ
  slaveMasterHost : Option H
  slaveMasterPort : ℤ
  slaveMasterLinkUp : Bool
  roleReported : Option Role
  slaveReconfSentTime : ℤ

/-- `sentinelRedisInstance` of another Sentinel. -/
structure Peer (H R : Type) where
  addr : Addr H
  runid : R
  leader : Option R
  leaderEpoch : ℕ
  masterDown : Bool
  disconnected : Bool
  lastMasterDownReplyTime : ℤ

/-- `sentinelRedisInstance` of a master. -/
structure Master (H R : Type) where
  addr : Addr H
  sDown : Bool
  oDown : Bool
  disconnected : Bool
  failoverInProgress : Bool
  forceFailover : Bool
  runid : Option R
  roleReported : Option Role
  roleReportedTime : ℤ
  sDownSinceTime : ℤ
  downAfterPeriod : ℤ
  quorum : ℕ
  parallelSyncs : ℤ
  configEpoch : ℕ
  leader : Option R
  leaderEpoch : ℕ
  failoverEpoch : ℕ
  failoverState : FailoverState
  failoverStateChangeTime : ℤ
  failoverStartTime : ℤ
  failoverTimeout : ℤ
  slaves : List (SlaveRef × Slave H R)
  sentinels : List (Peer H R)
  promotedSlave : Option SlaveRef

/-- What is kept as history. -/
inductive Record (M R : Type) where
  /-- The Sentinel voted in an epoch. -/
  | vote (master : M) (epoch : ℕ) (leader : R)
  /-- The Sentinel left `WAIT_START` as the elected leader of a failover. -/
  | elected (master : M) (epoch : ℕ)
  /-- `SLAVEOF NO ONE` was sent to a slave. -/
  | slaveofNoOne (slave : SlaveRef)
  /-- A slave reported the role master. -/
  | reportedMaster (slave : SlaveRef)
  deriving DecidableEq

/-- `sentinelState`.  `names` is the order of the table `masters`. -/
structure SentinelState (M H R : Type) where
  runid : R
  currentEpoch : ℕ
  tilt : Bool
  names : List M
  masters : M → Master H R
  nextSlave : SlaveRef
  history : List (Record M R)

/-- `SENTINEL_ASK_PERIOD`, `SENTINEL_ELECTION_TIMEOUT` and the other constants of time. -/
def askPeriod : ℤ := 1000
def pingPeriod : ℤ := 1000
def infoPeriod : ℤ := 10000
def electionTimeout : ℤ := 10000
def slaveReconfTimeout : ℤ := 10000

/-- The next epoch; epochs are 64 bits wide. -/
def nextEpoch (epoch : ℕ) : ℕ := (epoch + 1) % 2 ^ 64

section
variable {M H R : Type}

namespace SentinelState

/-- Write to a master. -/
def setMaster [DecidableEq M] (sn : SentinelState M H R) (m : M) (master : Master H R) :
    SentinelState M H R :=
  { sn with masters := Function.update sn.masters m master }

/-- Add to the history. -/
def record (sn : SentinelState M H R) (r : Record M R) : SentinelState M H R :=
  { sn with history := sn.history ++ [r] }

end SentinelState

namespace Master

/-- The slave at a pointer. -/
def slaveAt (master : Master H R) (p : SlaveRef) : Except Fault (Slave H R) :=
  match master.slaves.find? fun e => e.1 = p with
  | some e => .ok e.2
  | none => .error .memory

/-- Write to the slave at a pointer. -/
def updateSlave (master : Master H R) (p : SlaveRef) (f : Slave H R → Slave H R) : Master H R :=
  { master with slaves := master.slaves.map fun e => if e.1 = p then (e.1, f e.2) else e }

/-- `sentinelGetMaster…` reads `promoted_slave`. -/
def promoted (master : Master H R) : Except Fault (Slave H R) :=
  match master.promotedSlave with
  | some p => master.slaveAt p
  | none => .error .null

end Master

/-! ### Votes -/

section
variable [DecidableEq M]

/-- `sentinelVoteLeader`; `start` is the time of the next failover if the vote is for another
Sentinel. -/
def sentinelVoteLeader [DecidableEq R] (sn : SentinelState M H R) (m : M) (reqEpoch : ℕ)
    (reqRunid : R) (start : ℤ) : SentinelState M H R :=
  let sn := if reqEpoch > sn.currentEpoch then { sn with currentEpoch := reqEpoch } else sn
  let master := sn.masters m
  if master.leaderEpoch < reqEpoch ∧ sn.currentEpoch ≤ reqEpoch then
    (sn.setMaster m { master with
      leader := some reqRunid
      leaderEpoch := sn.currentEpoch
      failoverStartTime := if reqRunid ≠ sn.runid then start else master.failoverStartTime }).record
        (.vote m sn.currentEpoch reqRunid)
  else sn

section
variable [DecidableEq R]

/-- The votes of the other Sentinels that `sentinelGetLeader` counts. -/
def countedVotes (sn : SentinelState M H R) (m : M) : List R :=
  (sn.masters m).sentinels.filterMap fun p =>
    if p.leaderEpoch = sn.currentEpoch then p.leader else none

/-- The keys of `counters` in the order of an iterator. -/
def counterKeys (order votes : List R) : List R :=
  (order.dedup.filter (· ∈ votes)) ++ votes.dedup.filter (· ∉ order)

/-- The loop that looks for the winner, with `max_votes`. -/
def mostVoted (votes keys : List R) : Option R × ℕ :=
  keys.foldl (fun w k => if votes.count k > w.2 then (some k, votes.count k) else w) (none, 0)

/-- The winner when the vote of this Sentinel is counted too. -/
def countMyVote (votes : List R) (winner : Option R × ℕ) (myvote : Option R) : Option R × ℕ :=
  match myvote with
  | some v => if votes.count v + 1 > winner.2 then (some v, votes.count v + 1) else winner
  | none => winner

def sentinelGetLeader (sn : SentinelState M H R) (m : M) (epoch : ℕ) (order : List R) (start : ℤ) :
    Except Fault (SentinelState M H R × Option R) :=
  if ¬((sn.masters m).oDown ∨ (sn.masters m).failoverInProgress) then .error .getLeader
  else
    let votes := countedVotes sn m
    let winner := mostVoted votes (counterKeys order votes)
    let sn := sentinelVoteLeader sn m epoch (winner.1.getD sn.runid) start
    let master := sn.masters m
    let winner :=
      countMyVote votes winner (if master.leaderEpoch = epoch then master.leader else none)
    let voters := master.sentinels.length + 1
    .ok (sn, if winner.2 < voters / 2 + 1 ∨ winner.2 < master.quorum then none else winner.1)

end

/-! ### Questions to other Sentinels -/

/-- `SENTINEL is-master-down-by-addr`, sent to a Sentinel on the connection for a master. -/
structure Request (M H R : Type) where
  source : R
  master : M
  target : R
  addr : Addr H
  epoch : ℕ
  /-- `none` for `*`. -/
  runid : Option R

/-- Its reply. -/
structure Reply (M R : Type) where
  source : R
  master : M
  target : R
  masterDown : Bool
  leader : Option R
  epoch : ℕ

/-- A round of the loop of `sentinelAskMasterStateToOtherSentinels`. -/
def askPeer (sn : SentinelState M H R) (m : M) (forced : Bool) (now : ℤ) (peer : Peer H R) :
    Peer H R × Option (Request M H R) :=
  let master := sn.masters m
  let elapsed := now - peer.lastMasterDownReplyTime
  let peer := if elapsed > askPeriod * 5 then { peer with masterDown := false, leader := none }
    else peer
  if ¬master.sDown ∨ peer.disconnected ∨ (¬forced ∧ elapsed < askPeriod) then (peer, none)
  else (peer, some
    { source := sn.runid
      master := m
      target := peer.runid
      addr := master.addr
      epoch := sn.currentEpoch
      runid := if master.failoverState.num > 0 then some sn.runid else none })

def sentinelAskMasterStateToOtherSentinels (sn : SentinelState M H R) (m : M) (forced : Bool)
    (now : ℤ) : SentinelState M H R × List (Request M H R) :=
  let asked := (sn.masters m).sentinels.map (askPeer sn m forced now)
  (sn.setMaster m { sn.masters m with sentinels := asked.map Prod.fst }, asked.filterMap Prod.snd)

/-- `getSentinelRedisInstanceByAddrAndRunID` in the table of masters. -/
def masterByAddr [DecidableEq H] (sn : SentinelState M H R) (addr : Addr H) : Option M :=
  sn.names.find? fun m => (sn.masters m).addr = addr

/-- The command `SENTINEL is-master-down-by-addr`; an epoch that is no `long long` is an error. -/
def isMasterDownByAddr [DecidableEq H] [DecidableEq R] (sn : SentinelState M H R)
    (request : Request M H R) (start : ℤ) : SentinelState M H R × Option (Reply M R) :=
  if request.epoch ≥ 2 ^ 63 then (sn, none)
  else
    let reply : Reply M R :=
      { source := request.target
        master := request.master
        target := request.source
        masterDown := false
        leader := none
        epoch := 0 }
    match masterByAddr sn request.addr with
    | none => (sn, some reply)
    | some m =>
      let reply := { reply with masterDown := !sn.tilt && (sn.masters m).sDown }
      match request.runid with
      | none => (sn, some reply)
      | some runid =>
        let sn := sentinelVoteLeader sn m request.epoch runid start
        (sn, some { reply with
          leader := (sn.masters m).leader
          epoch := (sn.masters m).leaderEpoch })

def sentinelReceiveIsMasterDownReply [DecidableEq R] (sn : SentinelState M H R)
    (reply : Reply M R) (now : ℤ) : SentinelState M H R :=
  let master := sn.masters reply.master
  sn.setMaster reply.master { master with
    sentinels := master.sentinels.map fun peer =>
      if peer.runid = reply.source then
        let peer := { peer with
          lastMasterDownReplyTime := now
          masterDown := reply.masterDown }
        match reply.leader with
        | some leader => { peer with leader := some leader, leaderEpoch := reply.epoch }
        | none => peer
      else peer }

/-! ### Masters that are reset -/

/-- `createSentinelRedisInstance` for a slave. -/
def newSlave (addr : Addr H) (now : ℤ) : Slave H R where
  addr
  sDown := false
  disconnected := true
  promoted := false
  reconfSent := false
  reconfInprog := false
  reconfDone := false
  runid := none
  slavePriority := 100
  slaveReplOffset := 0
  lastAvailTime := now
  infoRefresh := 0
  masterLinkDownTime := 0
  slaveMasterHost := none
  slaveMasterPort := 0
  slaveMasterLinkUp := false
  roleReported := some .slave
  slaveReconfSentTime := 0

/-- A slave is added, unless there is one with its address. -/
def createSlave [DecidableEq H] (sn : SentinelState M H R) (m : M) (addr : Addr H) (now : ℤ) :
    SentinelState M H R :=
  let master := sn.masters m
  if master.slaves.any fun e => e.2.addr = addr then sn
  else { sn.setMaster m { master with
      slaves := master.slaves ++ [(sn.nextSlave, newSlave addr now)] } with
    nextSlave := sn.nextSlave + 1 }

/-- `sentinelResetMaster`; `keep` is `SENTINEL_RESET_NO_SENTINELS`. -/
def sentinelResetMaster (sn : SentinelState M H R) (m : M) (keep : Bool) (now : ℤ) :
    SentinelState M H R :=
  let master := sn.masters m
  sn.setMaster m { master with
    slaves := []
    sentinels := if keep then master.sentinels else []
    sDown := false
    oDown := false
    disconnected := true
    failoverInProgress := false
    forceFailover := false
    leader := none
    failoverState := .none
    failoverStateChangeTime := 0
    failoverStartTime := 0
    promotedSlave := none
    runid := none
    roleReported := some .master
    roleReportedTime := now }

/-- The slaves that `sentinelResetMasterAndChangeAddress` adds back. -/
def slavesAfterSwitch [DecidableEq H] (master : Master H R) (addr : Addr H) : List (Addr H) :=
  ((master.slaves.map fun e => e.2.addr).filter (· ≠ addr)) ++
    if addr ≠ master.addr then [master.addr] else []

def sentinelResetMasterAndChangeAddress [DecidableEq H] (sn : SentinelState M H R) (m : M)
    (addr : Addr H) (now : ℤ) : SentinelState M H R :=
  let slaves := slavesAfterSwitch (sn.masters m) addr
  let sn := sentinelResetMaster sn m true now
  let sn := sn.setMaster m { sn.masters m with addr, sDownSinceTime := 0 }
  slaves.foldl (fun sn addr => createSlave sn m addr now) sn

/-- `createSentinelRedisInstance` for a Sentinel. -/
def newPeer (addr : Addr H) (runid : R) (now : ℤ) : Peer H R where
  addr
  runid
  leader := none
  leaderEpoch := 0
  masterDown := false
  disconnected := true
  lastMasterDownReplyTime := now

/-- A hello message. -/
structure Hello (M H R : Type) where
  addr : Addr H
  runid : R
  currentEpoch : ℕ
  master : M
  masterAddr : Addr H
  masterConfigEpoch : ℕ

/-- The Sentinel that sent a hello message is known by its address and run id. -/
def knows [DecidableEq H] [DecidableEq R] (sn : SentinelState M H R) (hello : Hello M H R) : Bool :=
  (sn.masters hello.master).sentinels.any fun p =>
    decide (p.addr = hello.addr) && decide (p.runid = hello.runid)

/-- A Sentinel that is not known is added; those with its address or run id are removed. -/
def addPeer [DecidableEq H] [DecidableEq R] (sn : SentinelState M H R) (hello : Hello M H R)
    (now : ℤ) : SentinelState M H R :=
  if knows sn hello then sn
  else
    let master := sn.masters hello.master
    let others := master.sentinels.filter fun p =>
      ¬(p.addr = hello.addr ∨ p.runid = hello.runid)
    sn.setMaster hello.master { master with
      sentinels := others ++ [newPeer hello.addr hello.runid now] }

def sentinelProcessHelloMessage [DecidableEq H] [DecidableEq R] (sn : SentinelState M H R)
    (hello : Hello M H R) (now : ℤ) : SentinelState M H R :=
  let sn := addPeer sn hello now
  let sn := if hello.currentEpoch > sn.currentEpoch then
    { sn with currentEpoch := hello.currentEpoch } else sn
  let master := sn.masters hello.master
  if master.configEpoch < hello.masterConfigEpoch then
    let sn := sn.setMaster hello.master { master with configEpoch := hello.masterConfigEpoch }
    if hello.masterAddr ≠ master.addr then
      sentinelResetMasterAndChangeAddress sn hello.master hello.masterAddr now
    else sn
  else sn

end

end

end Sentinel

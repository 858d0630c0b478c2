/-
The failover of a master by a Sentinel (`sentinel.c`).

* `sentinelStartFailover`, `sentinelAbortFailover` — the start and the end without success;
* `sentinelFailoverWaitStart`, …, `sentinelFailoverStateMachine` — the states;
* `sentinelRefreshInstanceInfo` — the replies to `INFO`, which end `WAIT_PROMOTION`;
* `process` — the events of a Sentinel.

Commands that a Sentinel sends to bring a slave back under the current master
(`+convert-to-slave`, `+fix-slave-config`) change nothing in its state and are left out.
-/
import RedisModel.SentinelInstances

open Except

namespace Sentinel

open SentinelState

section
variable {M H R : Type} [DecidableEq M]

/-! ### Start and abort -/

/-- `sentinelStartFailover`; `desync` is the random part of the time. -/
def sentinelStartFailover (sn : SentinelState M H R) (m : M) (now desync : ℤ) :
    SentinelState M H R :=
  let epoch := nextEpoch sn.currentEpoch
  { sn.setMaster m { sn.masters m with
      failoverState := .waitStart
      failoverInProgress := true
      failoverEpoch := epoch
      failoverStartTime := now + desync
      failoverStateChangeTime := now } with
    currentEpoch := epoch }

def sentinelStartFailoverIfNeeded (sn : SentinelState M H R) (m : M) (now desync : ℤ) :
    SentinelState M H R × Bool :=
  let master := sn.masters m
  if ¬master.oDown then (sn, false)
  else if master.failoverInProgress then (sn, false)
  else if now - master.failoverStartTime < master.failoverTimeout * 2 then (sn, false)
  else (sentinelStartFailover sn m now desync, true)

def sentinelAbortFailover (sn : SentinelState M H R) (m : M) (now : ℤ) :
    Except Fault (SentinelState M H R) :=
  let master := sn.masters m
  if ¬(master.failoverInProgress = true ∧ master.failoverState.num ≤ FailoverState.waitPromotion.num)
  then .error .abortFailover
  else
    let master := { master with
      failoverInProgress := false
      forceFailover := false
      failoverState := .none
      failoverStateChangeTime := now }
    match master.promotedSlave with
    | none => .ok (sn.setMaster m master)
    | some p => do
      let _ ← master.slaveAt p
      let master := master.updateSlave p fun s => { s with promoted := false }
      .ok (sn.setMaster m { master with promotedSlave := none })

/-! ### The state machine -/

def sentinelFailoverWaitStart [DecidableEq R] (sn : SentinelState M H R) (m : M) (order : List R)
    (now start : ℤ) : Except Fault (SentinelState M H R) := do
  let (sn, leader) ← sentinelGetLeader sn m (sn.masters m).failoverEpoch order start
  let master := sn.masters m
  let isleader := decide (leader = some sn.runid)
  if ¬isleader ∧ ¬master.forceFailover then
    if now - master.failoverStartTime > min electionTimeout master.failoverTimeout then
      sentinelAbortFailover sn m now
    else .ok sn
  else
    let sn := if isleader then sn.record (.elected m master.failoverEpoch) else sn
    .ok (sn.setMaster m { master with
      failoverState := .selectSlave
      failoverStateChangeTime := now })

section
variable [LinearOrder R]

/-- The slaves among which `sentinelSelectSlave` chooses; `SRI_O_DOWN` is never set for slaves. -/
def suitable (master : Master H R) (now : ℤ) (s : Slave H R) : Bool :=
  let maxMasterDownTime :=
    (if master.sDown then now - master.sDownSinceTime else 0) + master.downAfterPeriod * 10
  let infoValidityTime := if master.sDown then pingPeriod * 5 else infoPeriod * 3
  !s.sDown && !s.disconnected && !decide (now - s.lastAvailTime > pingPeriod * 5) &&
    !decide (s.slavePriority = 0) && !decide (now - s.infoRefresh > infoValidityTime) &&
    !decide (s.masterLinkDownTime > maxMasterDownTime)

/-- `compareSlavesForPromotion` is negative. -/
def better (a b : Slave H R) : Bool :=
  if a.slavePriority ≠ b.slavePriority then decide (a.slavePriority < b.slavePriority)
  else if a.slaveReplOffset ≠ b.slaveReplOffset then decide (a.slaveReplOffset > b.slaveReplOffset)
  else
    match a.runid, b.runid with
    | some ra, some rb => decide (ra < rb)
    | some _, none => true
    | none, _ => false

/-- `sentinelSelectSlave`: one of the best slaves.  Among equal ones it depends on the order of the
table and on `qsort`; `choice` says which is taken. -/
def sentinelSelectSlave (master : Master H R) (choice : List SlaveRef) (now : ℤ) :
    Option SlaveRef :=
  let candidates := master.slaves.filter fun e => suitable master now e.2
  let best := (candidates.filter fun e => candidates.all fun e' => !better e'.2 e.2).map Prod.fst
  match choice.find? (· ∈ best) with
  | some p => some p
  | none => best.head?

def sentinelFailoverSelectSlave (sn : SentinelState M H R) (m : M) (choice : List SlaveRef)
    (now : ℤ) : Except Fault (SentinelState M H R) :=
  let master := sn.masters m
  match sentinelSelectSlave master choice now with
  | none => sentinelAbortFailover sn m now
  | some p =>
    let master := master.updateSlave p fun s => { s with promoted := true }
    .ok (sn.setMaster m { master with
      promotedSlave := some p
      failoverState := .sendSlaveofNoone
      failoverStateChangeTime := now })

end

/-- `sentinelFailoverSendSlaveOfNoOne`; `accepted` says for which slaves a command can be sent. -/
def sentinelFailoverSendSlaveOfNoOne (sn : SentinelState M H R) (m : M)
    (accepted : SlaveRef → Bool) (now : ℤ) : Except Fault (SentinelState M H R) := do
  let master := sn.masters m
  match master.promotedSlave with
  | none => .error .null
  | some p => do
    let s ← master.slaveAt p
    if s.disconnected then
      if now - master.failoverStateChangeTime > master.failoverTimeout then
        sentinelAbortFailover sn m now
      else .ok sn
    else if ¬accepted p then .ok sn
    else
      .ok ((sn.record (.slaveofNoOne p)).setMaster m { master with
        failoverState := .waitPromotion
        failoverStateChangeTime := now })

def sentinelFailoverWaitPromotion (sn : SentinelState M H R) (m : M) (now : ℤ) :
    Except Fault (SentinelState M H R) :=
  let master := sn.masters m
  if now - master.failoverStateChangeTime > master.failoverTimeout then sentinelAbortFailover sn m now
  else .ok sn

def sentinelFailoverDetectEnd (sn : SentinelState M H R) (m : M) (accepted : SlaveRef → Bool)
    (now : ℤ) : Except Fault (SentinelState M H R) := do
  let master := sn.masters m
  match master.promotedSlave with
  | none => .ok sn
  | some p => do
    let s ← master.slaveAt p
    if s.sDown then .ok sn
    else
      let timeout := decide (now - master.failoverStateChangeTime > master.failoverTimeout)
      let notReconfigured := if timeout then 0 else
        master.slaves.countP fun e => !(e.2.promoted || e.2.reconfDone) && !e.2.sDown
      let master := if notReconfigured = 0 then
        { master with failoverState := .updateConfig, failoverStateChangeTime := now } else master
      let master := if timeout then
        { master with
          slaves := master.slaves.map fun e =>
            if e.2.reconfDone ∨ e.2.reconfSent ∨ e.2.disconnected ∨ ¬accepted e.1 then e
            else (e.1, { e.2 with reconfSent := true }) } else master
      .ok (sn.setMaster m master)

/-- The timeout of a slave in `sentinelFailoverReconfNextSlave`. -/
def reconfTimeout (now : ℤ) (s : Slave H R) : Slave H R :=
  if s.reconfSent ∧ now - s.slaveReconfSentTime > slaveReconfTimeout then
    { s with reconfSent := false, reconfDone := true }
  else s

/-- The loop of `sentinelFailoverReconfNextSlave`, with `in_progress`. -/
def reconfSlaves (master : Master H R) (accepted : SlaveRef → Bool) (now : ℤ) :
    ℤ → List (SlaveRef × Slave H R) → Except Fault (List (SlaveRef × Slave H R))
  | _, [] => .ok []
  | inProgress, e :: slaves =>
    if ¬inProgress < master.parallelSyncs then .ok (e :: slaves)
    else if e.2.promoted ∨ e.2.reconfDone then do
      let slaves ← reconfSlaves master accepted now inProgress slaves
      .ok (e :: slaves)
    else
      let s := reconfTimeout now e.2
      if s.disconnected ∨ s.reconfSent ∨ s.reconfInprog then do
        let slaves ← reconfSlaves master accepted now inProgress slaves
        .ok ((e.1, s) :: slaves)
      else do
        let _ ← master.promoted
        if accepted e.1 then do
          let slaves ← reconfSlaves master accepted now (inProgress + 1) slaves
          .ok ((e.1, { s with reconfSent := true, slaveReconfSentTime := now }) :: slaves)
        else do
          let slaves ← reconfSlaves master accepted now inProgress slaves
          .ok ((e.1, s) :: slaves)

def sentinelFailoverReconfNextSlave (sn : SentinelState M H R) (m : M)
    (accepted : SlaveRef → Bool) (now : ℤ) : Except Fault (SentinelState M H R) := do
  let master := sn.masters m
  let inProgress := master.slaves.countP fun e => e.2.reconfSent || e.2.reconfInprog
  let slaves ← reconfSlaves master accepted now inProgress master.slaves
  sentinelFailoverDetectEnd (sn.setMaster m { master with slaves }) m accepted now

/-- What the timer leaves open: the order of tables, the slaves to which commands can be sent and
random times. -/
structure TimerEnv (R : Type) where
  now : ℤ
  order : List R
  choice : List SlaveRef
  accepted : SlaveRef → Bool
  start : ℤ
  desync : ℤ

section
variable [LinearOrder R]

def sentinelFailoverStateMachine (sn : SentinelState M H R) (m : M) (env : TimerEnv R) :
    Except Fault (SentinelState M H R) :=
  if ¬(sn.masters m).failoverInProgress then .ok sn
  else
    match (sn.masters m).failoverState with
    | .waitStart => sentinelFailoverWaitStart sn m env.order env.now env.start
    | .selectSlave => sentinelFailoverSelectSlave sn m env.choice env.now
    | .sendSlaveofNoone => sentinelFailoverSendSlaveOfNoOne sn m env.accepted env.now
    | .waitPromotion => sentinelFailoverWaitPromotion sn m env.now
    | .reconfSlaves => sentinelFailoverReconfNextSlave sn m env.accepted env.now
    | .none | .updateConfig => .ok sn

def sentinelCheckObjectivelyDown (sn : SentinelState M H R) (m : M) : SentinelState M H R :=
  let master := sn.masters m
  let quorum := 1 + master.sentinels.countP fun p => p.masterDown
  sn.setMaster m { master with oDown := master.sDown && decide (quorum ≥ master.quorum) }

/-- The part of `sentinelHandleRedisInstance` for masters, with the requests that are sent. -/
def sentinelHandleMaster (sn : SentinelState M H R) (m : M) (env : TimerEnv R) :
    Except Fault (SentinelState M H R × List (Request M H R)) := do
  if sn.tilt then .ok (sn, [])
  else do
    let sn := sentinelCheckObjectivelyDown sn m
    let (sn, started) := sentinelStartFailoverIfNeeded sn m env.now env.desync
    let (sn, forced) := if started then sentinelAskMasterStateToOtherSentinels sn m true env.now
      else (sn, [])
    let sn ← sentinelFailoverStateMachine sn m env
    let (sn, asked) := sentinelAskMasterStateToOtherSentinels sn m false env.now
    .ok (sn, forced ++ asked)

def sentinelFailoverSwitchToPromotedSlave [DecidableEq H] (sn : SentinelState M H R) (m : M)
    (now : ℤ) : Except Fault (SentinelState M H R) := do
  let master := sn.masters m
  let addr ← (match master.promotedSlave with
    | some p => do
      let s ← master.slaveAt p
      .ok s.addr
    | none => .ok master.addr)
  .ok (sentinelResetMasterAndChangeAddress sn m addr now)

end

/-! ### Replies to `INFO` -/

/-- The lines of a reply that are read. -/
inductive InfoLine (H R : Type) where
  | runId (runid : R)
  | slave (addr : Addr H)
  | masterLinkDownSince (seconds : ℤ)
  | role (role : Role)
  | masterHost (host : H)
  | masterPort (port : ℤ)
  | masterLinkStatus (up : Bool)
  | slavePriority (priority : ℤ)
  | slaveReplOffset (offset : ℕ)

/-- A line of the reply of a slave, with the role that was read so far. -/
def readSlaveLine (p : Slave H R × Option Role) (line : InfoLine H R) : Slave H R × Option Role :=
  let (s, role) := p
  match line with
  | .runId runid => ({ s with runid := some runid }, role)
  | .slave _ => (s, role)
  | .masterLinkDownSince seconds => ({ s with masterLinkDownTime := seconds * 1000 }, role)
  | .role role => (s, some role)
  | .masterHost host =>
    (if role = some .slave then { s with slaveMasterHost := some host } else s, role)
  | .masterPort port =>
    (if role = some .slave then { s with slaveMasterPort := port } else s, role)
  | .masterLinkStatus up =>
    (if role = some .slave then { s with slaveMasterLinkUp := up } else s, role)
  | .slavePriority priority =>
    (if role = some .slave then { s with slavePriority := priority } else s, role)
  | .slaveReplOffset offset =>
    (if role = some .slave then { s with slaveReplOffset := offset } else s, role)

/-- A slave turned into a master. -/
def slaveToMaster (master : Master H R) (now : ℤ) : Master H R :=
  if master.failoverInProgress = true ∧ master.failoverState = .waitPromotion then
    { master with
      configEpoch := master.failoverEpoch
      failoverState := .reconfSlaves
      failoverStateChangeTime := now }
  else master

/-- The test for slaves that replicate from another address; the host may be `NULL`. -/
def checkMasterAddr [DecidableEq H] (master : Master H R) (s : Slave H R) : Except Fault Unit :=
  if s.slaveMasterPort = master.addr.port ∧ s.slaveMasterHost.isNone then .error .null else .ok ()

/-- The slave that is being reconfigured follows the promoted one now. -/
def reconfProgress [DecidableEq H] (master : Master H R) (s : Slave H R) :
    Except Fault (Slave H R) := do
  if s.reconfSent ∨ s.reconfInprog then do
    let s ← (if s.reconfSent = true ∧ s.slaveMasterHost.isSome then do
        let promoted ← master.promoted
        if s.slaveMasterHost = some promoted.addr.ip ∧ s.slaveMasterPort = promoted.addr.port then
          .ok { s with reconfSent := false, reconfInprog := true }
        else .ok s
      else .ok s)
    .ok (if s.reconfInprog ∧ s.slaveMasterLinkUp then
      { s with reconfInprog := false, reconfDone := true } else s)
  else .ok s

/-- `sentinelRefreshInstanceInfo` for a slave. -/
def sentinelRefreshSlaveInfo [DecidableEq H] (sn : SentinelState M H R) (m : M) (p : SlaveRef)
    (lines : List (InfoLine H R)) (now : ℤ) : Except Fault (SentinelState M H R) := do
  let master := sn.masters m
  let s ← master.slaveAt p
  let (s, role) := lines.foldl readSlaveLine (s, none)
  let s := { s with infoRefresh := now, roleReported := role }
  let master := master.updateSlave p fun _ => s
  let sn := if role = some .master then sn.record (.reportedMaster p) else sn
  if sn.tilt then .ok (sn.setMaster m master)
  else if role = some .master then .ok (sn.setMaster m (slaveToMaster master now))
  else if role = some .slave then do
    checkMasterAddr master s
    let s ← reconfProgress master s
    .ok (sn.setMaster m (master.updateSlave p fun _ => s))
  else .ok (sn.setMaster m master)

/-- A line of the reply of a master. -/
def readMasterLine [DecidableEq H] (m : M) (now : ℤ) (p : SentinelState M H R × Option Role)
    (line : InfoLine H R) : SentinelState M H R × Option Role :=
  let (sn, role) := p
  match line with
  | .runId runid => (sn.setMaster m { sn.masters m with runid := some runid }, role)
  | .slave addr => (createSlave sn m addr now, role)
  | .role role => (sn, some role)
  | _ => (sn, role)

/-- `sentinelRefreshInstanceInfo` for a master. -/
def sentinelRefreshMasterInfo [DecidableEq H] (sn : SentinelState M H R) (m : M)
    (lines : List (InfoLine H R)) (now : ℤ) : SentinelState M H R :=
  let (sn, role) := lines.foldl (readMasterLine m now) (sn, none)
  let master := sn.masters m
  sn.setMaster m { master with
    roleReportedTime := if role ≠ master.roleReported then now else master.roleReportedTime
    roleReported := role }

/-! ### Events -/

/-- The instance whose link or state is watched. -/
inductive Target (R : Type) where
  | master
  | slave (p : SlaveRef)
  | sentinel (runid : R)

/-- What happens at a Sentinel. -/
inductive Event (M H R : Type) where
  /-- The timer, for a master. -/
  | timer (m : M) (env : TimerEnv R)
  /-- The end of the timer for a master in `UPDATE_CONFIG`. -/
  | switch (m : M) (now : ℤ)
  | slaveInfo (m : M) (p : SlaveRef) (lines : List (InfoLine H R)) (now : ℤ)
  | masterInfo (m : M) (lines : List (InfoLine H R)) (now : ℤ)
  | hello (hello : Hello M H R) (now : ℤ)
  /-- Another Sentinel asks. -/
  | request (request : Request M H R) (start : ℤ)
  | reply (reply : Reply M R) (now : ℤ)
  /-- `SENTINEL FAILOVER`. -/
  | failover (m : M) (choice : List SlaveRef) (now desync : ℤ)
  /-- `SENTINEL RESET`, for a master. -/
  | reset (m : M) (now : ℤ)
  /-- A link is lost or there again. -/
  | link (m : M) (target : Target R) (disconnected : Bool)
  /-- `sentinelCheckSubjectivelyDown`, and the replies to `PING`. -/
  | down (m : M) (target : Target R) (sDown : Bool) (now : ℤ)
  | tilt (tilt : Bool)

/-- The flag `SRI_DISCONNECTED`. -/
def setLink [DecidableEq R] (master : Master H R) (disconnected : Bool) : Target R → Master H R
  | .master => { master with disconnected }
  | .slave p => master.updateSlave p fun s => { s with disconnected }
  | .sentinel runid => { master with
      sentinels := master.sentinels.map fun peer =>
        if peer.runid = runid then { peer with disconnected } else peer }

/-- The flag `SRI_S_DOWN`, which for other Sentinels is not read. -/
def setDown (master : Master H R) (sDown : Bool) (now : ℤ) : Target R → Master H R
  | .master => { master with
      sDown
      sDownSinceTime := if sDown ∧ ¬master.sDown then now else master.sDownSinceTime }
  | .slave p => master.updateSlave p fun s =>
      { s with sDown, lastAvailTime := if sDown then s.lastAvailTime else now }
  | .sentinel _ => master

section
variable [DecidableEq H] [LinearOrder R]

/-- `SENTINEL FAILOVER`. -/
def sentinelFailoverCommand (sn : SentinelState M H R) (m : M) (choice : List SlaveRef)
    (now desync : ℤ) : SentinelState M H R :=
  if (sn.masters m).failoverInProgress then sn
  else if (sentinelSelectSlave (sn.masters m) choice now).isNone then sn
  else
    let sn := sentinelStartFailover sn m now desync
    sn.setMaster m { sn.masters m with forceFailover := true }

/-- What an event does; requests and replies that are sent are left out. -/
def process (sn : SentinelState M H R) : Event M H R → Except Fault (SentinelState M H R)
  | .timer m env => do
    let p ← sentinelHandleMaster sn m env
    .ok p.1
  | .switch m now =>
    if (sn.masters m).failoverState = .updateConfig then
      sentinelFailoverSwitchToPromotedSlave sn m now
    else .ok sn
  | .slaveInfo m p lines now => sentinelRefreshSlaveInfo sn m p lines now
  | .masterInfo m lines now => .ok (sentinelRefreshMasterInfo sn m lines now)
  | .hello hello now => .ok (sentinelProcessHelloMessage sn hello now)
  | .request request start => .ok (isMasterDownByAddr sn request start).1
  | .reply reply now => .ok (sentinelReceiveIsMasterDownReply sn reply now)
  | .failover m choice now desync => .ok (sentinelFailoverCommand sn m choice now desync)
  | .reset m now => .ok (sentinelResetMaster sn m false now)
  | .link m target disconnected => .ok (sn.setMaster m (setLink (sn.masters m) disconnected target))
  | .down m target sDown now => .ok (sn.setMaster m (setDown (sn.masters m) sDown now target))
  | .tilt tilt => .ok { sn with tilt }

/-- A step of a run; a failure ends the run. -/
def step (sn : SentinelState M H R) (e : Event M H R) : Option (SentinelState M H R) :=
  (process sn e).toOption

end

end

end Sentinel

/-
The slaves of a failover in `RECONF_SLAVES`, with the `SLAVEOF` commands that are sent to them.

* `reconfNextSlave` — a tick of the timer: `sentinelFailoverReconfNextSlave` and
  `sentinelFailoverDetectEnd`, with the commands; `reconfNextSlave_eq` compares it with the
  functions that leave them out;
* `reconfStep` — the ticks, the replies to `INFO` and what else happens in this state.

A command is recorded with the table of the slaves right after it.
-/
import RedisModel.SentinelFailover

open Except

namespace Sentinel

section
variable {M H R : Type}

/-! ### Commands -/

/-- `SLAVEOF` with an address, which was sent to a slave. -/
structure Sent (H R : Type) where
  slave : SlaveRef
  addr : Addr H
  slaves : List (SlaveRef × Slave H R)

/-- What a tick does: the commands that are limited by `parallel_syncs`, and those of the last round
after the timeout. -/
structure Tick (H R : Type) where
  master : Master H R
  limited : List (Sent H R)
  lastRound : List (Sent H R)

/-- The flag `SRI_RECONF_SENT`, and its time. -/
def markSent (now : ℤ) (s : Slave H R) : Slave H R :=
  { s with reconfSent := true, slaveReconfSentTime := now }

/-- The loop of `sentinelFailoverReconfNextSlave`; `done` are the slaves before. -/
def reconfLoop (master : Master H R) (accepted : SlaveRef → Bool) (now : ℤ) :
    List (SlaveRef × Slave H R) → ℤ → List (SlaveRef × Slave H R) →
      Except Fault (List (SlaveRef × Slave H R) × List (Sent H R))
  | done, _, [] => .ok (done, [])
  | done, inProgress, e :: rest =>
    if ¬inProgress < master.parallelSyncs then .ok (done ++ e :: rest, [])
    else if e.2.promoted ∨ e.2.reconfDone then
      reconfLoop master accepted now (done ++ [e]) inProgress rest
    else
      let s := reconfTimeout now e.2
      if s.disconnected ∨ s.reconfSent ∨ s.reconfInprog then
        reconfLoop master accepted now (done ++ [(e.1, s)]) inProgress rest
      else do
        let promoted ← master.promoted
        if accepted e.1 then do
          let (slaves, sent) ← reconfLoop master accepted now (done ++ [(e.1, markSent now s)])
            (inProgress + 1) rest
          .ok (slaves, ⟨e.1, promoted.addr, done ++ (e.1, markSent now s) :: rest⟩ :: sent)
        else reconfLoop master accepted now (done ++ [(e.1, s)]) inProgress rest

/-- The "best effort" loop of `sentinelFailoverDetectEnd`. -/
def bestEffort (addr : Addr H) (accepted : SlaveRef → Bool) :
    List (SlaveRef × Slave H R) → List (SlaveRef × Slave H R) →
      List (SlaveRef × Slave H R) × List (Sent H R)
  | done, [] => (done, [])
  | done, e :: rest =>
    if e.2.reconfDone ∨ e.2.reconfSent ∨ e.2.disconnected ∨ ¬accepted e.1 then
      bestEffort addr accepted (done ++ [e]) rest
    else
      let s := { e.2 with reconfSent := true }
      let (slaves, sent) := bestEffort addr accepted (done ++ [(e.1, s)]) rest
      (slaves, ⟨e.1, addr, done ++ (e.1, s) :: rest⟩ :: sent)

/-- More time than `failover_timeout` has passed in this state. -/
def timedOut (master : Master H R) (now : ℤ) : Bool :=
  decide (now - master.failoverStateChangeTime > master.failoverTimeout)

/-- The slaves for which the failover waits. -/
def notReconfigured (master : Master H R) : ℕ :=
  master.slaves.countP fun e => !(e.2.promoted || e.2.reconfDone) && !e.2.sDown

/-- `sentinelFailoverDetectEnd`. -/
def detectEnd (master : Master H R) (accepted : SlaveRef → Bool) (now : ℤ) :
    Except Fault (Master H R × List (Sent H R)) := do
  match master.promotedSlave with
  | none => .ok (master, [])
  | some p => do
    let promoted ← master.slaveAt p
    if promoted.sDown then .ok (master, [])
    else
      let ended := { master with failoverState := .updateConfig, failoverStateChangeTime := now }
      if timedOut master now then
        let (slaves, sent) := bestEffort promoted.addr accepted [] master.slaves
        .ok ({ ended with slaves }, sent)
      else if notReconfigured master = 0 then .ok (ended, [])
      else .ok (master, [])

/-- The slaves to which `SLAVEOF` was sent, or that are synchronizing. -/
def busy (slaves : List (SlaveRef × Slave H R)) : ℕ :=
  slaves.countP fun e => e.2.reconfSent || e.2.reconfInprog

/-- `sentinelFailoverReconfNextSlave`. -/
def reconfNextSlave (master : Master H R) (accepted : SlaveRef → Bool) (now : ℤ) :
    Except Fault (Tick H R) := do
  let (slaves, limited) ← reconfLoop master accepted now [] (busy master.slaves) master.slaves
  let (master, lastRound) ← detectEnd { master with slaves } accepted now
  .ok ⟨master, limited, lastRound⟩

/-! ### What happens in this state -/

inductive ReconfEvent (H R : Type) where
  /-- The timer, at the time `now`; `accepted` are the slaves to which a command can be sent. -/
  | tick (accepted : SlaveRef → Bool) (now : ℤ)
  /-- The reply of a slave to `INFO`. -/
  | slaveInfo (tilt : Bool) (p : SlaveRef) (lines : List (InfoLine H R)) (now : ℤ)
  /-- A slave that a reply of the master names. -/
  | newSlave (p : SlaveRef) (s : Slave H R)
  | link (p : SlaveRef) (disconnected : Bool)
  | down (p : SlaveRef) (sDown : Bool) (now : ℤ)
  /-- `SENTINEL SET`. -/
  | settings (parallelSyncs failoverTimeout : ℤ)

/-- `sentinelRefreshInstanceInfo` for a slave; in TILT mode nothing is done. -/
def refreshSlaveInfo [DecidableEq H] (tilt : Bool) (master : Master H R) (p : SlaveRef)
    (lines : List (InfoLine H R)) (now : ℤ) : Except Fault (Master H R) := do
  let s ← master.slaveAt p
  let (s, role) := lines.foldl readSlaveLine (s, none)
  let s := { s with infoRefresh := now, roleReported := role }
  let master := master.updateSlave p fun _ => s
  if tilt then .ok master
  else if role = some .master then .ok (slaveToMaster master now)
  else if role = some .slave then do
    checkMasterAddr master s
    let s ← reconfProgress master s
    .ok (master.updateSlave p fun _ => s)
  else .ok master

/-- A step in `RECONF_SLAVES`. -/
def reconfStep [DecidableEq H] (master : Master H R) (event : ReconfEvent H R) :
    Option (Master H R) :=
  if master.failoverState ≠ .reconfSlaves then none
  else
    match event with
    | .tick accepted now => (reconfNextSlave master accepted now).toOption.map Tick.master
    | .slaveInfo tilt p lines now => (refreshSlaveInfo tilt master p lines now).toOption
    | .newSlave p s =>
      if p ∉ master.slaves.map Prod.fst ∧ ¬s.promoted then
        some { master with slaves := master.slaves ++ [(p, s)] }
      else none
    | .link p disconnected => some (master.updateSlave p fun s => { s with disconnected })
    | .down p sDown now => some (master.updateSlave p fun s =>
        { s with sDown, lastAvailTime := if sDown then s.lastAvailTime else now })
    | .settings parallelSyncs failoverTimeout =>
      some { master with parallelSyncs, failoverTimeout }

end

end Sentinel

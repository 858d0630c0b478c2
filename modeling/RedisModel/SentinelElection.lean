/-
Sentinels that ask each other for votes (`sentinel.c`).

* `sentinelGetCurrentMasterAddress`, `sentinelSendHello` — the hello messages of a Sentinel;
* `Network` — the Sentinels, and the messages in flight;
* `processNetwork` — the events: timers, what happens at one Sentinel, and the delivery of requests,
  replies and hello messages in any order and after any time.
-/
import RedisModel.SentinelFailover

open Except

namespace Sentinel

variable {M H R : Type}

def sentinelGetCurrentMasterAddress (master : Master H R) : Except Fault (Addr H) :=
  match master.promotedSlave with
  | none => .ok master.addr
  | some p =>
    if master.failoverInProgress = true ∧
        master.failoverState.num ≥ FailoverState.reconfSlaves.num then do
      let s ← master.slaveAt p
      .ok s.addr
    else .ok master.addr

/-- `sentinelSendHello`; `addr` is the address of the Sentinel. -/
def sentinelSendHello (sn : SentinelState M H R) (m : M) (addr : Addr H) :
    Except Fault (Hello M H R) := do
  let masterAddr ← sentinelGetCurrentMasterAddress (sn.masters m)
  .ok { addr
        runid := sn.runid
        currentEpoch := sn.currentEpoch
        master := m
        masterAddr
        masterConfigEpoch := (sn.masters m).configEpoch }

/-- The Sentinels and the messages in flight.  A hello message is published; it stays, and is
delivered to any of the others. -/
structure Network (M H R : Type) where
  sentinels : R → SentinelState M H R
  requests : List (Request M H R)
  replies : List (Reply M R)
  hellos : List (Hello M H R)

inductive NetworkEvent (M H R : Type) where
  /-- The timer of a Sentinel, for a master. -/
  | timer (i : R) (m : M) (env : TimerEnv R)
  /-- Something that happens at one Sentinel. -/
  | own (i : R) (e : Event M H R)
  /-- A request arrives. -/
  | request (k : ℕ) (start : ℤ)
  /-- A reply arrives. -/
  | reply (k : ℕ) (now : ℤ)
  /-- A Sentinel publishes a hello message about a master. -/
  | publish (i : R) (m : M)
  /-- A hello message arrives at a Sentinel. -/
  | hello (k : ℕ) (i : R) (now : ℤ)

/-- The events of a Sentinel that are not messages; `SENTINEL FAILOVER` and `SENTINEL RESET` are
not given. -/
def isLocal : Event M H R → Bool
  | .switch .. | .slaveInfo .. | .masterInfo .. | .link .. | .down .. | .tilt .. => true
  | .timer .. | .hello .. | .request .. | .reply .. | .failover .. | .reset .. => false

section
variable [DecidableEq M] [DecidableEq H] [LinearOrder R]

/-- Write to the state of a Sentinel. -/
def Network.setSentinel (net : Network M H R) (i : R) (sn : SentinelState M H R) :
    Network M H R :=
  { net with sentinels := Function.update net.sentinels i sn }

/-- What an event does; `addr` has the addresses of the Sentinels.  A Sentinel is not interested
in its own hello messages. -/
def processNetwork (addr : R → Addr H) (net : Network M H R) :
    NetworkEvent M H R → Except Fault (Network M H R)
  | .timer i m env => do
    let (sn, requests) ← sentinelHandleMaster (net.sentinels i) m env
    .ok { net.setSentinel i sn with requests := net.requests ++ requests }
  | .own i e =>
    if isLocal e then do
      let sn ← process (net.sentinels i) e
      .ok (net.setSentinel i sn)
    else .ok net
  | .request k start =>
    match net.requests[k]? with
    | none => .ok net
    | some request =>
      let (sn, reply) := isMasterDownByAddr (net.sentinels request.target) request start
      .ok { net.setSentinel request.target sn with
        requests := net.requests.eraseIdx k
        replies := net.replies ++ reply.toList }
  | .reply k now =>
    match net.replies[k]? with
    | none => .ok net
    | some reply =>
      let sn := sentinelReceiveIsMasterDownReply (net.sentinels reply.target) reply now
      .ok { net.setSentinel reply.target sn with replies := net.replies.eraseIdx k }
  | .publish i m => do
    let hello ← sentinelSendHello (net.sentinels i) m (addr i)
    .ok { net with hellos := net.hellos ++ [hello] }
  | .hello k i now =>
    match net.hellos[k]? with
    | none => .ok net
    | some hello =>
      if hello.runid = i then .ok net
      else .ok (net.setSentinel i (sentinelProcessHelloMessage (net.sentinels i) hello now))

/-- A step of a run; a failure ends the run. -/
def networkStep (addr : R → Addr H) (net : Network M H R) (e : NetworkEvent M H R) :
    Option (Network M H R) :=
  (processNetwork addr net e).toOption

end

end Sentinel

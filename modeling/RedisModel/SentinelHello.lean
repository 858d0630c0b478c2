/-
Hello messages of any contents (`sentinelProcessHelloMessage` of `sentinel.c`).

* `parseHello` — the eight tokens of a message;
* `createSentinelAddr`, `createSentinelRedisInstance` — addresses and instances, which may fail;
* `sentinelResetMasterAndChangeAddress`, `sentinelProcessHelloMessage`.

`resolve` stands for `anetResolve`.  Tables are lists with different names.  Of an instance
there is what these functions read, and what hello messages change.
-/
import Mathlib.Logic.Function.Basic
import RedisModel.CommandArguments
import RedisModel.SentinelInstances

open Except RedisCommands StringNumber
open Sentinel (Addr)

namespace SentinelHello

/-- `sentinelRedisInstance` of a slave or of another Sentinel. -/
structure Instance where
  name : Bytes
  addr : Addr Bytes
  /-- `none` for `NULL`. -/
  runid : Option Bytes
  lastHelloTime : ℤ
  deriving DecidableEq

/-- `sentinelRedisInstance` of a master. -/
structure Master where
  addr : Addr Bytes
  configEpoch : ℕ
  slaves : List Instance
  sentinels : List Instance
  deriving DecidableEq

/-- `sentinelState`. -/
structure State where
  currentEpoch : ℕ
  masters : Bytes → Option Master

/-! ### Messages -/

/-- The loop of `sdssplitlen` with a separator of one byte. -/
def splitLoop (sep : UInt8) : Bytes → Bytes → List Bytes
  | token, [] => [token]
  | token, c :: s =>
    if c = sep then token :: splitLoop sep [] s else splitLoop sep (token ++ [c]) s

def sdssplitlen (s : Bytes) (sep : UInt8) : List Bytes :=
  if s.length = 0 then [] else splitLoop sep [] s

/-- `strtoull` in base 10. -/
def strtoull (s : Bytes) : ℕ :=
  let p := splitSign ((cString s).dropWhile isspace)
  let v := digitsVal (p.2.takeWhile isdigit) 0
  if v > ullongMax then ullongMax else if p.1 then (2 ^ 64 - v) % 2 ^ 64 else v

/-- A hello message; strings end at the first zero byte. -/
structure Hello where
  ip : Bytes
  port : ℤ
  runid : Bytes
  currentEpoch : ℕ
  masterName : Bytes
  masterIp : Bytes
  masterPort : ℤ
  masterConfigEpoch : ℕ

/-- The tokens of a message, if there are eight. -/
def parseHello (hello : Bytes) : Option Hello :=
  match sdssplitlen hello 44 with
  | [ip, port, runid, currentEpoch, masterName, masterIp, masterPort, masterConfigEpoch] =>
    some
      { ip := cString ip
        port := atoi port
        runid := cString runid
        currentEpoch := strtoull currentEpoch
        masterName := cString masterName
        masterIp := cString masterIp
        masterPort := atoi masterPort
        masterConfigEpoch := strtoull masterConfigEpoch }
  | _ => none

/-! ### Instances -/

section
variable (resolve : Bytes → Option Bytes)

def createSentinelAddr (hostname : Bytes) (port : ℤ) : Option (Addr Bytes) :=
  if port ≤ 0 ∨ 65535 < port then none
  else (resolve hostname).map fun ip => ⟨ip, port⟩

/-- The name of a slave or Sentinel, in a buffer of 128 bytes. -/
def slavename (hostname : Bytes) (port : ℤ) : Bytes :=
  ((if 58 ∈ hostname then 91 :: hostname ++ [93] else hostname) ++ 58 :: ll2string port).take 127

/-- `createSentinelRedisInstance` for a slave or a Sentinel that goes into `table`. -/
def createSentinelRedisInstance (table : List Instance) (hostname : Bytes) (port : ℤ) (now : ℤ) :
    Option Instance :=
  match createSentinelAddr resolve hostname port with
  | none => none
  | some addr =>
    let name := slavename hostname port
    if table.any (fun ri => ri.name = name) then none
    else some { name, addr, runid := none, lastHelloTime := now }

def sentinelAddrIsEqual (a b : Addr Bytes) : Bool :=
  a.port = b.port ∧ strcasecmp a.ip b.ip

def getSentinelRedisInstanceByAddrAndRunID (instances : List Instance) (ip : Bytes) (port : ℤ)
    (runid : Bytes) : Option Instance :=
  instances.find? fun ri => ri.runid = some runid ∧ ri.addr.ip = ip ∧ ri.addr.port = port

def removeMatchingSentinelsFromMaster (instances : List Instance) (ip : Bytes) (port : ℤ)
    (runid : Bytes) : List Instance :=
  instances.filter fun ri => ¬(ri.runid = some runid ∨ ri.addr.ip = ip ∧ port = ri.addr.port)

/-- One slave is added back, if it can be created. -/
def addSlave (now : ℤ) (table : List Instance) (addr : Addr Bytes) : List Instance :=
  match createSentinelRedisInstance resolve table addr.ip addr.port now with
  | some slave => table ++ [slave]
  | none => table

/-- The addresses of slaves that are added back after a switch. -/
def slavesAfterSwitch (master : Master) (newaddr : Addr Bytes) : List (Addr Bytes) :=
  ((master.slaves.map Instance.addr).filter fun addr => !sentinelAddrIsEqual addr newaddr) ++
    if sentinelAddrIsEqual newaddr master.addr then [] else [master.addr]

/-- A copy of an address that is read later. -/
def copyAddr (addr : Addr Bytes) : Except Sentinel.Fault (Addr Bytes) :=
  match createSentinelAddr resolve addr.ip addr.port with
  | some addr => .ok addr
  | none => .error .null

/-- `sentinelResetMasterAndChangeAddress`; nothing changes when it returns `REDIS_ERR`. -/
def sentinelResetMasterAndChangeAddress (master : Master) (ip : Bytes) (port : ℤ) (now : ℤ) :
    Except Sentinel.Fault Master :=
  match createSentinelAddr resolve ip port with
  | none => .ok master
  | some newaddr => do
    let slaves ← (slavesAfterSwitch master newaddr).mapM (copyAddr resolve)
    .ok { master with
      addr := newaddr
      slaves := slaves.foldl (addSlave resolve now) [] }

/-! ### Processing -/

/-- The sender of a message, as it is known or created now. -/
def findSender (master : Master) (hello : Hello) (now : ℤ) : Master × Option Instance :=
  match getSentinelRedisInstanceByAddrAndRunID master.sentinels hello.ip hello.port hello.runid with
  | some si => (master, some si)
  | none =>
    let master := { master with
      sentinels := removeMatchingSentinelsFromMaster master.sentinels hello.ip hello.port
        hello.runid }
    match createSentinelRedisInstance resolve master.sentinels hello.ip hello.port now with
    | some si =>
      let si := { si with runid := some hello.runid }
      ({ master with sentinels := master.sentinels ++ [si] }, some si)
    | none => (master, none)

/-- The configuration of a master is replaced by a newer one.  The event `+config-update-from`
prints the sender. -/
def updateConfig (master : Master) (si : Option Instance) (hello : Hello) (now : ℤ) :
    Except Sentinel.Fault Master :=
  if master.configEpoch < hello.masterConfigEpoch then
    let master := { master with configEpoch := hello.masterConfigEpoch }
    if hello.masterPort ≠ master.addr.port ∨ master.addr.ip ≠ hello.masterIp then
      match si with
      | none => .error .null
      | some _ =>
        sentinelResetMasterAndChangeAddress resolve master hello.masterIp hello.masterPort now
    else .ok master
  else .ok master

/-- The time of the last message of a Sentinel. -/
def touch (master : Master) (si : Option Instance) (now : ℤ) : Master :=
  match si with
  | none => master
  | some si => { master with
      sentinels := master.sentinels.map fun ri =>
        if ri.name = si.name then { ri with lastHelloTime := now } else ri }

def sentinelProcessHelloMessage (s : State) (hello : Bytes) (now : ℤ) : Except Sentinel.Fault State :=
  match parseHello hello with
  | none => .ok s
  | some hello =>
    match s.masters hello.masterName with
    | none => .ok s
    | some master => do
      let (master, si) := findSender resolve master hello now
      let currentEpoch :=
        if hello.currentEpoch > s.currentEpoch then hello.currentEpoch else s.currentEpoch
      let master ← updateConfig resolve master si hello now
      .ok { s with
        currentEpoch
        masters := Function.update s.masters hello.masterName (some (touch master si now)) }

/-- A message that arrives. -/
structure Event where
  hello : Bytes
  now : ℤ

/-- A step of a run; a failure ends the run. -/
def step (s : State) (e : Event) : Option State :=
  (sentinelProcessHelloMessage resolve s e.hello e.now).toOption

end

end SentinelHello

/-
The cached state of the cluster and the routing of commands.

* `clusterUpdateState` — the state is computed from the slots and the flags of the nodes;
* `process` — requests, commands and packets that change slots, and the calls of
  `clusterUpdateState`;
* `processCommand_assertion_iff` — when the assertion of `getNodeByQuery` fails;
* `run_assertion_iff`, `run_routed` — in every run it fails exactly for a key of a slot that lost
  its owner after the state was computed for the last time.
-/
import RedisModel.ClusterQuery
import RedisModel.ClusterSlotsRun

open Except

namespace Cluster

open ClusterState

/-! ### The state of the cluster -/

/-- `REDIS_CLUSTER_MAX_REJOIN_DELAY`, `REDIS_CLUSTER_MIN_REJOIN_DELAY` and
`REDIS_CLUSTER_WRITABLE_DELAY`. -/
def maxRejoinDelay : ℤ := 5000
def minRejoinDelay : ℤ := 500
def writableDelay : ℤ := 2000

/-- A node with clients.  `firstCallTime` and `amongMinorityTime` are the static variables of
`clusterUpdateState`.  `orphaned` is history: the slots that lost their owner, and got none since,
after `clusterUpdateState` computed a state for the last time. -/
structure RoutingServer (N K V : Type) extends Server N K V where
  clients : ℕ → RedisClient K V
  firstCallTime : ℤ
  amongMinorityTime : ℤ
  orphaned : Slot → Bool

section
variable {N K V : Type}

/-- Whether a slot has an owner without `REDIS_NODE_FAIL`. -/
def slotCovered (st : ClusterState N) (slot : Slot) : Result Bool :=
  match st.slots slot with
  | none => .ok false
  | some r => do
    let n ← st.node r
    .ok !n.flags.fail

/-- The loop over the slots, which stops at the first one that is not covered. -/
def slotsCovered (st : ClusterState N) : List Slot → Result Bool
  | [] => .ok true
  | slot :: slots => do
    let ok ← slotCovered st slot
    if ok then slotsCovered st slots else .ok false

/-- A round of the loop over the nodes: the size of the cluster, and the masters that cannot be
reached. -/
def countMaster (st : ClusterState N) (p : ℕ × ℕ) (e : N × NodeRef) : Result (ℕ × ℕ) := do
  let n ← st.node e.2
  if n.flags.master ∧ n.numslots ≠ 0 then
    .ok (p.1 + 1, if n.flags.fail ∨ n.flags.pfail then p.2 + 1 else p.2)
  else .ok p

def rejoinDelay (nodeTimeout : ℤ) : ℤ :=
  max minRejoinDelay (min maxRejoinDelay nodeTimeout)

/-- `clusterUpdateState`; `clock` are the results of its calls of `mstime`. -/
def clusterUpdateState (nodeTimeout : ℤ) (clock : ℕ → ℤ) (sv : RoutingServer N K V) :
    Result (RoutingServer N K V) := do
  let sv := { sv with
    cluster := { sv.cluster with todoUpdateState := false }
    firstCallTime := if sv.firstCallTime = 0 then clock 0 else sv.firstCallTime }
  let me ← sv.cluster.node sv.cluster.myself
  if me.flags.master ∧ clock 1 - sv.firstCallTime < writableDelay then .ok sv
  else do
    let covered ← slotsCovered sv.cluster allSlots
    let (size, unreachable) ← sv.cluster.nodes.foldlM (countMaster sv.cluster) (0, 0)
    let minority := decide (unreachable ≥ size / 2 + 1)
    let sv := { sv with
      cluster := { sv.cluster with size }
      amongMinorityTime := if minority then clock 2 else sv.amongMinorityTime
      orphaned := fun _ => false }
    let newState := covered && !minority
    if newState = sv.ok then .ok sv
    else if newState ∧ me.flags.master ∧
        clock 3 - sv.amongMinorityTime < rejoinDelay nodeTimeout then .ok sv
    else .ok { sv with ok := newState }

/-! ### Events -/

/-- The configuration changes; slots without an owner are noted. -/
def setCluster (sv : RoutingServer N K V) (st : ClusterState N) : RoutingServer N K V :=
  { sv with
    cluster := st
    orphaned := fun slot =>
      (st.slots slot).isNone && (sv.orphaned slot || (sv.cluster.slots slot).isSome) }

/-- What happens at a node. -/
inductive RoutingEvent (N K V : Type) where
  /-- A request of a client. -/
  | request (client : ℕ) (q : Request K V) (now later : ℤ)
  /-- `READONLY` and `READWRITE`. -/
  | readonly (client : ℕ) (readonly : Bool)
  /-- A subcommand of `CLUSTER`, or a packet. -/
  | config (ev : SlotEvent N)
  | clusterProcessMfstart (hdr : ClusterMsg N) (mfEnd : ℤ)
  /-- The flags of a node are changed: failure detection, handshakes. -/
  | flags (r : NodeRef) (pfail fail handshake todo : Bool)
  | clusterRenameNode (r : NodeRef) (name : N)
  /-- A node in handshake is given up, or is known already. -/
  | clusterDelNode (clock : Clock) (r : NodeRef)
  /-- A slave gets another master: migration. -/
  | clusterSetMaster (r : NodeRef)
  /-- This node, a slave, wins an election. -/
  | failover (clock : ℕ → ℤ)
  | clusterBeforeSleep (clock : ℕ → ℤ)
  /-- `clusterCron`, with `update_state`. -/
  | clusterCron (updateState : Bool) (clock : ℕ → ℤ)
  /-- Keys are changed otherwise: by the master, or because they expire. -/
  | data (db : Keyspace K V) (keysInSlot : Slot → ℕ)

variable [LinearOrder N] [DecidableEq K]

/-- What an event does. -/
def process (keyHashSlot : K → Slot) (nodeTimeout : ℤ) (sv : RoutingServer N K V) :
    RoutingEvent N K V → Result (RoutingServer N K V)
  | .request client q now later => do
    let p ← processCommand sv.toServer keyHashSlot (sv.clients client) q now later
    .ok { sv with toServer := p.1, clients := Function.update sv.clients client p.2.1 }
  | .readonly client readonly =>
    .ok { sv with
      clients := Function.update sv.clients client { sv.clients client with readonly } }
  | .config ev =>
    match ev with
    | .promote => .ok sv
    | ev => do
      let st ← exec sv.cluster ev
      .ok (setCluster sv st)
  | .clusterProcessMfstart hdr mfEnd => do
    let st ← ClusterState.clusterProcessMfstart sv.cluster hdr mfEnd
    .ok (setCluster sv st)
  | .flags r pfail fail handshake todo => do
    let st ← sv.cluster.modifyNode r fun n =>
      { n with flags := { n.flags with pfail, fail, handshake } }
    .ok (setCluster sv { st with todoUpdateState := st.todoUpdateState || todo })
  | .clusterRenameNode r name => do
    let st ← ClusterState.clusterRenameNode sv.cluster r name
    .ok (setCluster sv st)
  | .clusterDelNode clock r => do
    let st ← ClusterState.clusterDelNode sv.cluster clock r
    .ok (setCluster sv st)
  | .clusterSetMaster r => do
    let st ← ClusterState.clusterSetMaster sv.cluster r
    .ok (setCluster sv st)
  | .failover clock => do
    let me ← sv.cluster.node sv.cluster.myself
    match me.flags.master, me.slaveof with
    | false, some oldmaster => do
      let st ← clusterFailoverPromote sv.cluster oldmaster
      clusterUpdateState nodeTimeout clock (setCluster sv st)
    | _, _ => .ok sv
  | .clusterBeforeSleep clock => do
    let sv ← (if sv.cluster.todoUpdateState then clusterUpdateState nodeTimeout clock sv else .ok sv)
    .ok { sv with cluster := { sv.cluster with
      todoHandleFailover := false
      todoUpdateState := false
      todoSaveConfig := false
      todoFsyncConfig := false } }
  | .clusterCron updateState clock =>
    if updateState ∨ sv.ok = false then clusterUpdateState nodeTimeout clock sv else .ok sv
  | .data db keysInSlot => .ok { sv with db, cluster := { sv.cluster with keysInSlot } }

/-- A step of a run; a failure ends the run. -/
def step (keyHashSlot : K → Slot) (nodeTimeout : ℤ) (sv : RoutingServer N K V)
    (ev : RoutingEvent N K V) : Option (RoutingServer N K V) :=
  (process keyHashSlot nodeTimeout sv ev).toOption

/-- A node that starts, with the configuration and the keys that were loaded. -/
def start (st : ClusterState N) (db : Keyspace K V) : RoutingServer N K V where
  cluster := st
  ok := false
  db
  clients := fun _ => ⟨false, false, false, false, []⟩
  firstCallTime := 0
  amongMinorityTime := 0
  orphaned := fun _ => false

end

/-! ### The assertion of `getNodeByQuery` -/

section
variable {N K V : Type} [DecidableEq K] {keyHashSlot : K → Slot}

/-- Failures other than the assertion. -/
def NotRouting (e : Fault) : Prop := e ≠ .assertion .getNodeByQuery

theorem scanKey_notRouting (st : ClusterState N) (now : ℤ) {s : KeyScan K V}
    (hfirst : s.firstkey.isSome = true) (key : K) :
    (scanKey st keyHashSlot now s key).Ensures NotRouting fun s' => s'.firstkey.isSome = true := by
  rw [scanKey]
  split
  · exact hfirst
  · have hsee : (seeKey st keyHashSlot s key).Ensures NotRouting
        fun s' => s'.firstkey.isSome = true := by
      rw [seeKey]
      split
      · rename_i hnone
        rw [hnone] at hfirst
        cases hfirst
      · rename_i firstkey hsome
        split
        · exact hfirst
        · split
          · exact hfirst
          · exact hfirst
    refine hsee.bind fun s' hs' => ?_
    rw [ensures_ok, countKey]
    split
    · exact hs'
    · split
      · exact hs'
      · exact hs'

/-- The loop fails for the slot of its first key. -/
theorem scanKeys_assertion_iff (st : ClusterState N) (now : ℤ) (db : Keyspace K V) (keys : List K) :
    keys.foldlM (scanKey st keyHashSlot now) (KeyScan.start db) =
        .error (.assertion .getNodeByQuery) ↔
      ∃ k, keys.head? = some k ∧ st.slots (keyHashSlot k) = none := by
  cases keys with
  | nil => exact iff_of_false (fun h => by cases h) (by simp)
  | cons key keys =>
    rw [List.foldlM_cons]
    simp only [List.head?_cons, Option.some_inj, exists_eq_left']
    cases hslot : st.slots (keyHashSlot key) with
    | none =>
      have hfail : scanKey st keyHashSlot now (KeyScan.start db) key =
          .error (.assertion .getNodeByQuery) := by
        simp [scanKey, seeKey, KeyScan.start, hslot, redisAssert, bind, Except.bind]
      rw [hfail]
      exact iff_of_true rfl rfl
    | some r =>
      refine iff_of_false (fun herror => ?_) (by simp)
      have hfirst : (scanKey st keyHashSlot now (KeyScan.start db) key).Ensures NotRouting
          fun s => s.firstkey.isSome = true := by
        simp only [scanKey, seeKey, KeyScan.start, hslot, redisAssert, Option.isSome_some, if_true,
          ok_bind, Bool.false_eq_true, if_false]
        rw [ensures_ok, countKey]
        split
        · rfl
        · rfl
      have hall : (scanKey st keyHashSlot now (KeyScan.start db) key >>= fun s =>
          keys.foldlM (scanKey st keyHashSlot now) s).Ensures NotRouting
            fun s => s.firstkey.isSome = true := by
        refine hfirst.bind fun s hs => ?_
        exact Ensures.foldlM (fun s' k _ hs' => scanKey_notRouting st now hs' k) hs
      exact hall.of_eq_error herror rfl

omit [DecidableEq K] in
/-- The rest of `getNodeByQuery` does not fail so. -/
theorem decideNode_notRouting (st : ClusterState N) (c : RedisClient K V) (q : Request K V)
    (s : KeyScan K V) : (decideNode st c q s).Ensures NotRouting fun _ => True := by
  rw [decideNode]
  split
  · trivial
  · rename_i n _
    split
    · trivial
    · split
      · split
        · trivial
        · trivial
      · have hslave : (slaveOf st n).Ensures NotRouting fun _ => True := by
          refine (node_ensures (fun h => by cases h) st st.myself).bind fun me _ => ?_
          trivial
        refine hslave.bind fun slave _ => ?_
        split
        · trivial
        · trivial

/-- The assertion of `getNodeByQuery` fails if the slot of the first key has no owner. -/
theorem getNodeByQuery_assertion_iff (st : ClusterState N) (db : Keyspace K V)
    (c : RedisClient K V) {q : Request K V} (hq : q.redirected = true) (now : ℤ) :
    getNodeByQuery st keyHashSlot db c q now = .error (.assertion .getNodeByQuery) ↔
      ∃ k, (q.keys c).head? = some k ∧ st.slots (keyHashSlot k) = none := by
  rw [← scanKeys_assertion_iff st now db]
  have hloop : getNodeByQuery st keyHashSlot db c q now =
      (q.keys c).foldlM (scanKey st keyHashSlot now) (KeyScan.start db) >>= fun s =>
        if s.crossSlot then .ok ⟨s.db, none, .crossSlot⟩ else decideNode st c q s := by
    cases q with
    | exec => cases hq
    | _ => rfl
  rw [hloop]
  cases hkeys : (q.keys c).foldlM (scanKey st keyHashSlot now) (KeyScan.start db) with
  | error e =>
    show Except.error e = _ ↔ Except.error e = _
    simp only [Except.error.injEq]
  | ok s =>
    refine iff_of_false (fun herror => ?_) (fun h => by cases h)
    have hrest : (if s.crossSlot then .ok ⟨s.db, none, .crossSlot⟩
        else decideNode st c q s : Result (QueryResult K V)).Ensures NotRouting fun _ => True := by
      split
      · trivial
      · exact decideNode_notRouting st c q s
    exact hrest.of_eq_error herror rfl

/-- When `processCommand` stops the server: the state of the cluster is ok, and the slot of the
first key has no owner. -/
theorem processCommand_assertion_iff (sv : Server N K V) (c : RedisClient K V) (q : Request K V)
    (now later : ℤ) :
    processCommand sv keyHashSlot c q now later = .error (.assertion .getNodeByQuery) ↔
      q.redirected = true ∧ sv.ok = true ∧
        ∃ k, (q.keys c).head? = some k ∧ sv.cluster.slots (keyHashSlot k) = none := by
  have hproc : processCommand sv keyHashSlot c q now later = .error (.assertion .getNodeByQuery) ↔
      redirect sv keyHashSlot c q now = .error (.assertion .getNodeByQuery) := by
    rw [processCommand]
    cases hredirect : redirect sv keyHashSlot c q now with
    | error e =>
      show Except.error e = _ ↔ Except.error e = _
      simp only [Except.error.injEq]
    | ok p =>
      refine iff_of_false (fun herror => ?_) (fun h => by cases h)
      rw [ok_bind] at herror
      split at herror
      · cases herror
      · cases herror
  rw [hproc, redirect]
  by_cases hq : q.redirected = true
  · rw [if_neg (not_not_intro hq)]
    cases hok : sv.ok with
    | false => exact iff_of_false (fun h => by cases h) (fun h => by cases h.2.1)
    | true =>
      rw [if_neg (not_not_intro rfl)]
      simp only [hq, true_and]
      rw [← getNodeByQuery_assertion_iff sv.cluster sv.db c hq now]
      cases hquery : getNodeByQuery sv.cluster keyHashSlot sv.db c q now with
      | error e =>
        show Except.error e = _ ↔ Except.error e = _
        simp only [Except.error.injEq]
      | ok r =>
        refine iff_of_false (fun herror => ?_) (fun h => by cases h)
        rw [ok_bind] at herror
        split at herror
        · cases herror
        · split at herror
          · cases herror
          · cases herror
  · rw [if_pos hq]
    exact iff_of_false (fun h => by cases h) fun h => hq h.1

/-- A request changes neither the configuration nor the state of the cluster. -/
theorem processCommand_cluster (sv : Server N K V) (c : RedisClient K V) (q : Request K V)
    (now later : ℤ) : (processCommand sv keyHashSlot c q now later).Ensures (fun _ => True)
      fun p => p.1.cluster = sv.cluster ∧ p.1.ok = sv.ok := by
  rw [processCommand]
  cases redirect sv keyHashSlot c q now with
  | error e => trivial
  | ok p =>
    rw [ok_bind]
    split
    · exact ⟨rfl, rfl⟩
    · exact ⟨rfl, rfl⟩

end

/-! ### Slots without an owner -/

section
variable {N K V : Type} {sv : RoutingServer N K V}

/-- The history names slots without an owner, and all of them when the state is ok. -/
structure Tracks (sv : RoutingServer N K V) : Prop where
  free : ∀ slot, sv.orphaned slot = true → sv.cluster.slots slot = none
  orphaned : sv.ok = true → ∀ slot, sv.cluster.slots slot = none → sv.orphaned slot = true

theorem Tracks.of_eq {sv' : RoutingServer N K V} (h : Tracks sv)
    (hslots : sv'.cluster.slots = sv.cluster.slots) (hok : sv'.ok = sv.ok)
    (horphaned : sv'.orphaned = sv.orphaned) : Tracks sv' := by
  refine ⟨fun slot => ?_, fun hok' slot => ?_⟩
  · rw [hslots, horphaned]
    exact h.free slot
  · rw [hslots, horphaned]
    exact h.orphaned (hok ▸ hok') slot

theorem Tracks.setCluster (h : Tracks sv) (st : ClusterState N) : Tracks (setCluster sv st) := by
  refine ⟨fun slot horphaned => ?_, fun hok slot hnone => ?_⟩
  · have hnone : (st.slots slot).isNone = true := (Bool.and_eq_true_iff.mp horphaned).1
    exact Option.isNone_iff_eq_none.mp hnone
  · show ((st.slots slot).isNone && (sv.orphaned slot || (sv.cluster.slots slot).isSome)) = true
    have hnone' : st.slots slot = none := hnone
    rw [hnone', Option.isNone_none, Bool.true_and, Bool.or_eq_true]
    cases hold : sv.cluster.slots slot with
    | none => exact .inl (h.orphaned hok slot hold)
    | some r => exact .inr rfl

theorem slotsCovered_spec (st : ClusterState N) (slots : List Slot) :
    (slotsCovered st slots).Ensures (fun _ => True) fun covered =>
      covered = true → ∀ slot ∈ slots, (st.slots slot).isSome = true := by
  induction slots with
  | nil => exact fun _ slot hslot => absurd hslot List.not_mem_nil
  | cons slot slots ih =>
    rw [slotsCovered]
    have hslot : (slotCovered st slot).Ensures (fun _ => True) fun covered =>
        covered = true → (st.slots slot).isSome = true := by
      rw [slotCovered]
      cases hslot : st.slots slot with
      | none => exact fun h => by cases h
      | some r =>
        refine (node_ensures trivial st r).bind fun n _ => ?_
        exact fun _ => rfl
    refine hslot.bind fun covered hcovered => ?_
    split
    · rename_i htrue
      refine ih.imp fun rest hrest hall => ?_
      intro slot' hslot'
      rcases List.mem_cons.mp hslot' with rfl | hslot'
      · exact hcovered htrue
      · exact hrest hall slot' hslot'
    · exact fun h => by cases h

/-- The state becomes ok, or stays so, only if all slots have owners: when the update is put off
nothing changes, and the history goes on. -/
theorem clusterUpdateState_tracks (h : Tracks sv) (nodeTimeout : ℤ) (clock : ℕ → ℤ) :
    (clusterUpdateState nodeTimeout clock sv).Ensures (fun _ => True) Tracks := by
  rw [clusterUpdateState]
  generalize (if sv.firstCallTime = 0 then clock 0 else sv.firstCallTime) = first
  refine (node_ensures trivial _ _).bind fun me _ => ?_
  dsimp only
  split
  · exact h.of_eq rfl rfl rfl
  · refine (slotsCovered_spec _ allSlots).bind fun covered hcovered => ?_
    have hcount : ∀ st : ClusterState N, (st.nodes.foldlM (countMaster st) (0, 0)).Ensures
        (fun _ => True) fun _ => True := fun st => by
      cases st.nodes.foldlM (countMaster st) (0, 0) with
      | ok _ => trivial
      | error _ => trivial
    refine (hcount _).bind fun p _ => ?_
    have hfresh : ∀ {sv' : RoutingServer N K V}, sv'.cluster.slots = sv.cluster.slots →
        (sv'.orphaned = fun _ => false) → (sv'.ok = true → covered = true) → Tracks sv' := by
      intro sv' hslots horphaned hok
      refine ⟨fun slot horphan => ?_, fun hok' slot hnone => ?_⟩
      · rw [horphaned] at horphan
        cases horphan
      · have hsome := hcovered (hok hok') slot (mem_allSlots slot)
        rw [hslots] at hnone
        have hnone' : sv.cluster.slots slot = none := hnone
        rw [hnone'] at hsome
        cases hsome
    generalize decide (p.2 ≥ p.1 / 2 + 1) = minority
    generalize (if minority = true then clock 2 else sv.amongMinorityTime) = among
    split
    · rename_i hnew
      refine hfresh rfl rfl fun hok => ?_
      have hok' : sv.ok = true := hok
      rw [hok'] at hnew
      exact (Bool.and_eq_true_iff.mp hnew).1
    · split
      · rename_i hchanged hdelay
        refine hfresh rfl rfl fun _ => ?_
        exact (Bool.and_eq_true_iff.mp hdelay.1).1
      · exact hfresh rfl rfl fun hok => (Bool.and_eq_true_iff.mp hok).1

end

/-! ### Runs -/

section
variable {N K V : Type} [LinearOrder N] [DecidableEq K] {keyHashSlot : K → Slot}
  {nodeTimeout : ℤ} {sv : RoutingServer N K V}

theorem process_tracks (h : Tracks sv) (ev : RoutingEvent N K V) :
    (process keyHashSlot nodeTimeout sv ev).Ensures (fun _ => True) Tracks := by
  have hset : ∀ x : Result (ClusterState N), (x >>= fun st => .ok (setCluster sv st)).Ensures
      (fun _ => True) Tracks := fun x => by
    cases x with
    | error e => trivial
    | ok st => exact h.setCluster st
  cases ev with
  | request client q now later =>
    refine (processCommand_cluster sv.toServer (sv.clients client) q now later).bind
      fun p hp => ?_
    exact h.of_eq (by rw [hp.1]) hp.2 rfl
  | readonly client readonly => exact h.of_eq rfl rfl rfl
  | config ev =>
    cases ev with
    | promote => exact h
    | _ => exact hset _
  | clusterProcessMfstart hdr mfEnd => exact hset _
  | flags r pfail fail handshake todo =>
    refine (Ensures.bind (Q := fun _ => True) ?_ fun st _ => h.setCluster _)
    cases ClusterState.modifyNode _ _ _ with
    | error e => trivial
    | ok st => trivial
  | clusterRenameNode r name => exact hset _
  | clusterDelNode clock r => exact hset _
  | clusterSetMaster r => exact hset _
  | failover clock =>
    refine (node_ensures trivial _ _).bind fun me _ => ?_
    split
    · rename_i oldmaster _ _
      refine Ensures.bind (Q := fun _ => True) ?_ fun st _ => ?_
      · cases clusterFailoverPromote sv.cluster oldmaster with
        | error e => trivial
        | ok st => trivial
      · exact clusterUpdateState_tracks (h.setCluster st) nodeTimeout clock
    · exact h
  | clusterBeforeSleep clock =>
    have hupdate : (if sv.cluster.todoUpdateState then clusterUpdateState nodeTimeout clock sv
        else .ok sv : Result (RoutingServer N K V)).Ensures (fun _ => True) Tracks := by
      split
      · exact clusterUpdateState_tracks h nodeTimeout clock
      · exact h
    exact hupdate.bind fun sv' hsv' => hsv'.of_eq rfl rfl rfl
  | clusterCron updateState clock =>
    rw [process]
    split
    · exact clusterUpdateState_tracks h nodeTimeout clock
    · exact h
  | data db keysInSlot => exact h.of_eq rfl rfl rfl

theorem run_tracks {st : ClusterState N} {db : Keyspace K V} {es : List (RoutingEvent N K V)}
    (hrun : Runs.run (step keyHashSlot nodeTimeout) (start st db) es = some sv) : Tracks sv := by
  refine Runs.run_invariant (fun sv ev sv' hsv hstep => ?_) ?_ hrun
  · exact (process_tracks hsv ev).of_eq_ok (toOption_eq_some.mp hstep)
  · exact ⟨fun slot horphaned => (by cases horphaned), fun hok => (by cases hok)⟩

/-- A request for a key whose slot lost its owner, and got none since, after the state of the
cluster was computed. -/
def AsksOrphan (keyHashSlot : K → Slot) (sv : RoutingServer N K V) (client : ℕ)
    (q : Request K V) : Prop :=
  q.redirected = true ∧ sv.ok = true ∧
    ∃ k, (q.keys (sv.clients client)).head? = some k ∧ sv.orphaned (keyHashSlot k) = true

/-- **When a client stops a node**: in every run, exactly by a request for a key of a slot that
lost its owner after the state of the cluster was computed for the last time. -/
theorem run_assertion_iff {st : ClusterState N} {db : Keyspace K V}
    {es : List (RoutingEvent N K V)}
    (hrun : Runs.run (step keyHashSlot nodeTimeout) (start st db) es = some sv) (client : ℕ)
    (q : Request K V) (now later : ℤ) :
    process keyHashSlot nodeTimeout sv (.request client q now later) =
        .error (.assertion .getNodeByQuery) ↔ AsksOrphan keyHashSlot sv client q := by
  have htracks := run_tracks hrun
  have hprocess : process keyHashSlot nodeTimeout sv (.request client q now later) =
        .error (.assertion .getNodeByQuery) ↔
      processCommand sv.toServer keyHashSlot (sv.clients client) q now later =
        .error (.assertion .getNodeByQuery) := by
    rw [process]
    cases processCommand sv.toServer keyHashSlot (sv.clients client) q now later with
    | error e =>
      show Except.error e = _ ↔ Except.error e = _
      simp only [Except.error.injEq]
    | ok p => exact iff_of_false (fun h => by cases h) (fun h => by cases h)
  rw [hprocess, processCommand_assertion_iff]
  refine and_congr_right fun _ => and_congr_right fun hok => exists_congr fun k =>
    and_congr_right fun _ => ?_
  exact ⟨htracks.orphaned hok (keyHashSlot k), htracks.free (keyHashSlot k)⟩

/-- **Routing never hits a slot without an owner** in a run in which no client asks for a key of a
slot that lost its owner after the state of the cluster was computed for the last time. -/
theorem run_routed {st : ClusterState N} {db : Keyspace K V} {es : List (RoutingEvent N K V)}
    (hrun : Runs.run (step keyHashSlot nodeTimeout) (start st db) es = some sv) (client : ℕ)
    (q : Request K V) (now later : ℤ) :
    (process keyHashSlot nodeTimeout sv (.request client q now later) ≠
        .error (.assertion .getNodeByQuery) ∧
      (q.redirected = true → sv.ok = true → ∀ k, (q.keys (sv.clients client)).head? = some k →
        (sv.cluster.slots (keyHashSlot k)).isSome = true)) ↔
      ¬AsksOrphan keyHashSlot sv client q := by
  have hiff := run_assertion_iff hrun client q now later
  have htracks := run_tracks hrun
  constructor
  · intro h horphan
    exact h.1 (hiff.mpr horphan)
  · intro h
    refine ⟨fun herror => h (hiff.mp herror), fun hq hok k hk => ?_⟩
    by_contra hnone
    rw [Option.not_isSome_iff_eq_none] at hnone
    exact h ⟨hq, hok, k, hk, htracks.orphaned hok _ hnone⟩

end

/-! ### A slot is deleted in front of a request -/

section
variable {N K V : Type}

theorem slotsCovered_eq {st : ClusterState N} {slots : List Slot}
    (h : ∀ slot ∈ slots, slotCovered st slot = .ok true) : slotsCovered st slots = .ok true := by
  induction slots with
  | nil => rfl
  | cons slot slots ih =>
    rw [slotsCovered, h slot List.mem_cons_self, ok_bind, if_pos rfl]
    exact ih fun slot' hslot' => h slot' (List.mem_cons_of_mem _ hslot')

theorem exec_delslots_single [LinearOrder N] {st : ClusterState N} {slot : Slot}
    (hslot : (st.slots slot).isSome = true) : exec st (.delslots [some slot])
      = (changeSlot true [slot] st slot).bind fun st => .ok (todoSaveUpdate st) := by
  have hargs : slotArguments st true [some slot] [] = some [slot] := by
    simp [slotArguments, Option.isNone_iff_eq_none, Option.isSome_iff_ne_none.mp hslot]
  have hloop := foldlM_eq_single (f := changeSlot true [slot]) (P := fun _ => True) (b := st)
    (mem_allSlots slot) nodup_allSlots (fun st' _ j _ hj => by simp [changeSlot, hj]) trivial
    fun _ _ => trivial
  simp only [exec, clusterCommandSlots, hargs, hloop]
  cases changeSlot true [slot] st slot <;> rfl

end

/-- A cluster of one node, which serves all slots. -/
def soleMaster : ClusterState ℕ :=
  { clusterInit 0 with
    heap := Function.update (fun _ => none) 0 (some
      { createClusterNode 0 0 { NodeFlags.none with myself := true, master := true } with
        slots := fun _ => true
        numslots := 16384 })
    slots := fun _ => some 0 }

/-- The node has been up for some time. -/
def soleServer : RoutingServer ℕ ℕ ℕ :=
  { start { soleMaster with todoUpdateState := false } (fun _ => none) with
    ok := true
    firstCallTime := 1 }

/-- The first calls of `clusterUpdateState`. -/
def startUp : List (RoutingEvent ℕ ℕ ℕ) :=
  [.clusterCron false fun _ => 1, .clusterCron false fun _ => 9000]

/-- Every key is in slot 0. -/
def firstSlot (_ : ℕ) : Slot := 0

theorem run_startUp : Runs.run (step firstSlot 15000) (start soleMaster fun _ => none) startUp =
    some soleServer := by
  have hcovered : slotsCovered { soleMaster with todoUpdateState := false } allSlots = .ok true :=
    slotsCovered_eq fun _ _ => rfl
  refine Runs.run_cons_of_step rfl (Runs.run_cons_of_step ?_ rfl)
  rw [step, toOption_eq_some]
  show clusterUpdateState 15000 (fun _ => 9000) _ = .ok soleServer
  rw [clusterUpdateState]
  show (slotsCovered { soleMaster with todoUpdateState := false } allSlots >>= _) = _
  rw [hcovered]
  rfl

/-- `GET` of the key 7. -/
def getSeven : RedisCommand ℕ ℕ where
  keys := [7]
  noKeys := false
  readonly := true
  asking := false
  proc := fun _ db => db
  keys_of_noKeys := fun hb => absurd hb Bool.false_ne_true
  proc_of_notMem := fun _ _ _ _ => rfl

/-- A node in service answers a request. -/
theorem run_routed_startUp : ∃ sv,
    Runs.run (step firstSlot 15000) (start soleMaster fun _ => none) startUp = some sv ∧
      process firstSlot 15000 sv (.request 0 (.command getSeven) 0 0) ≠
        .error (.assertion .getNodeByQuery) := by
  have hno : ¬AsksOrphan firstSlot soleServer 0 (.command getSeven) := by
    rintro ⟨-, -, k, -, horphaned⟩
    cases horphaned
  exact ⟨soleServer, run_startUp, ((run_routed run_startUp 0 _ 0 0).mpr hno).1⟩

/-- The slot of the key is deleted by the request before. -/
def slotDeleted : List (RoutingEvent ℕ ℕ ℕ) :=
  startUp ++ [.config (.delslots [some 0])]

/-- The next request stops the node. -/
theorem not_run_routed : ∃ sv,
    Runs.run (step firstSlot 15000) (start soleMaster fun _ => none) slotDeleted = some sv ∧
      process firstSlot 15000 sv (.request 0 (.command getSeven) 0 0) =
        .error (.assertion .getNodeByQuery) := by
  have hdel : ∃ st, exec soleServer.cluster (.delslots [some 0]) = .ok st ∧ st.slots 0 = none := by
    rw [exec_delslots_single rfl]
    exact ⟨_, rfl, rfl⟩
  obtain ⟨st, hst, hslot⟩ := hdel
  have hrun : Runs.run (step firstSlot 15000) (start soleMaster fun _ => none) slotDeleted =
      some (setCluster soleServer st) := by
    refine Runs.run_append_eq_some.mpr ⟨soleServer, run_startUp, ?_⟩
    refine Runs.run_cons_of_step ?_ rfl
    rw [step, toOption_eq_some]
    show (exec soleServer.cluster (.delslots [some 0]) >>= fun st =>
      .ok (setCluster soleServer st)) = _
    rw [hst]
    rfl
  refine ⟨_, hrun, ?_⟩
  rw [process, (processCommand_assertion_iff _ _ _ _ _).mpr ⟨rfl, rfl, 7, rfl, hslot⟩]
  rfl

end Cluster

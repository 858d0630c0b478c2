/-
Routing of the commands of a client in a cluster.

* `RedisCommand` — a command with the keys it declares;
* `getNodeByQuery` — the node that serves a request, and the kind of redirection;
* `processCommand` — the redirection, transactions and the execution of commands;
* `getNodeByQuery_spec` — what the answer says about the keys of the request.
-/
import RedisModel.Ensures
import RedisModel.ClusterState

open Except

namespace Cluster

/-! ### Keys -/

/-- A value with the time at which it expires. -/
structure Entry (V : Type) where
  value : V
  expire : Option ℤ

abbrev Keyspace (K V : Type) := K → Option (Entry V)

section
variable {K V : Type}

/-- Whether the time of expiry is over. -/
def expired (now : ℤ) (e : Entry V) : Bool :=
  match e.expire with
  | some t => decide (t < now)
  | none => false

/-- `lookupKeyRead` of a master: an expired key is deleted; the result says whether the key is
there. -/
def lookupKeyRead [DecidableEq K] (db : Keyspace K V) (now : ℤ) (key : K) : Keyspace K V × Bool :=
  match db key with
  | none => (db, false)
  | some e => if expired now e then (Function.update db key none, false) else (db, true)

/-- A command with its arguments.  `proc` is what it does to the keys it declares. -/
structure RedisCommand (K V : Type) where
  /-- The keys that `getKeysFromCommand` finds. -/
  keys : List K
  /-- `getkeys_proc` is `NULL` and `firstkey` is 0. -/
  noKeys : Bool
  /-- `REDIS_CMD_READONLY`. -/
  readonly : Bool
  /-- `REDIS_CMD_ASKING`. -/
  asking : Bool
  proc : ℤ → Keyspace K V → Keyspace K V
  keys_of_noKeys : noKeys = true → keys = []
  proc_of_notMem : ∀ now db, ∀ key ∉ keys, proc now db key = db key

end

/-! ### Clients -/

/-- What a client sends: an ordinary command, or one of those that `processCommand` or
`getNodeByQuery` treat on their own. -/
inductive Request (K V : Type) where
  | command (cmd : RedisCommand K V)
  | watch (keys : List K)
  | multi
  | exec
  | discard
  | asking

/-- The part of `redisClient` about transactions and redirections.  `dirty` is
`REDIS_DIRTY_CAS` or `REDIS_DIRTY_EXEC`. -/
structure RedisClient (K V : Type) where
  multi : Bool
  asking : Bool
  readonly : Bool
  dirty : Bool
  mstate : List (RedisCommand K V)

/-- The error codes of `getNodeByQuery`. -/
inductive Redirection where
  | none
  | ask
  | moved
  | crossSlot
  | unstable
  deriving DecidableEq

/-- What `getNodeByQuery` returns, and the keys after its lookups. -/
structure QueryResult (K V : Type) where
  db : Keyspace K V
  n : Option NodeRef
  errorCode : Redirection

/-- The variables of the loop of `getNodeByQuery`. -/
structure KeyScan (K V : Type) where
  firstkey : Option K
  slot : Slot
  n : Option NodeRef
  multipleKeys : Bool
  migratingSlot : Bool
  importingSlot : Bool
  missingKeys : ℕ
  crossSlot : Bool
  db : Keyspace K V

section
variable {K V N : Type} [DecidableEq K]

/-- The first part of a round: the slot of the key. -/
def seeKey (st : ClusterState N) (keyHashSlot : K → Slot) (s : KeyScan K V) (key : K) :
    Result (KeyScan K V) :=
  match s.firstkey with
  | none => do
    let slot := keyHashSlot key
    redisAssert .getNodeByQuery ((st.slots slot).isSome = true)
    let migratingSlot := decide (st.slots slot = some st.myself) && (st.migratingSlotsTo slot).isSome
    .ok { s with
      firstkey := some key
      slot
      n := st.slots slot
      migratingSlot
      importingSlot := !migratingSlot && (st.importingSlotsFrom slot).isSome }
  | some firstkey =>
    if firstkey = key then .ok s
    else if s.slot ≠ keyHashSlot key then .ok { s with crossSlot := true }
    else .ok { s with multipleKeys := true }

/-- The second part: keys that are not here are counted. -/
def countKey (now : ℤ) (s : KeyScan K V) (key : K) : KeyScan K V :=
  if s.migratingSlot || s.importingSlot then
    let p := lookupKeyRead s.db now key
    { s with db := p.1, missingKeys := if p.2 then s.missingKeys else s.missingKeys + 1 }
  else s

/-- One round of the loop; nothing is done after a key of another slot. -/
def scanKey (st : ClusterState N) (keyHashSlot : K → Slot) (now : ℤ) (s : KeyScan K V) (key : K) :
    Result (KeyScan K V) := do
  if s.crossSlot then .ok s
  else do
    let s ← seeKey st keyHashSlot s key
    .ok (if s.crossSlot then s else countKey now s key)

def KeyScan.start (db : Keyspace K V) : KeyScan K V where
  firstkey := none
  slot := 0
  n := none
  multipleKeys := false
  migratingSlot := false
  importingSlot := false
  missingKeys := 0
  crossSlot := false
  db

/-- The keys of the commands that are checked: those of the transaction for `EXEC`. -/
def Request.keys (c : RedisClient K V) : Request K V → List K
  | .command cmd => cmd.keys
  | .watch keys => keys
  | .exec => c.mstate.flatMap RedisCommand.keys
  | _ => []

/-- `REDIS_CMD_ASKING`. -/
def Request.askingFlag : Request K V → Bool
  | .command cmd => cmd.asking
  | _ => false

/-- `REDIS_CMD_READONLY`. -/
def Request.readonlyFlag : Request K V → Bool
  | .command cmd => cmd.readonly
  | .exec => false
  | _ => true

/-- Whether this node is a slave of the node at an address. -/
def slaveOf (st : ClusterState N) (n : NodeRef) : Result Bool := do
  let me ← st.node st.myself
  .ok (me.flags.slave && decide (me.slaveof = some n))

/-- The part of `getNodeByQuery` after the loop. -/
def decideNode (st : ClusterState N) (c : RedisClient K V) (q : Request K V) (s : KeyScan K V) :
    Result (QueryResult K V) :=
  match s.n with
  | none => .ok ⟨s.db, some st.myself, .none⟩
  | some n =>
    if s.migratingSlot ∧ s.missingKeys ≠ 0 then .ok ⟨s.db, st.migratingSlotsTo s.slot, .ask⟩
    else if s.importingSlot ∧ (c.asking ∨ q.askingFlag) then
      if s.multipleKeys ∧ s.missingKeys ≠ 0 then .ok ⟨s.db, none, .unstable⟩
      else .ok ⟨s.db, some st.myself, .none⟩
    else do
      let slave ← slaveOf st n
      if c.readonly ∧ q.readonlyFlag ∧ slave then .ok ⟨s.db, some st.myself, .none⟩
      else .ok ⟨s.db, some n, if n = st.myself then .none else .moved⟩

def getNodeByQuery (st : ClusterState N) (keyHashSlot : K → Slot) (db : Keyspace K V)
    (c : RedisClient K V) (q : Request K V) (now : ℤ) : Result (QueryResult K V) := do
  match q, c.multi with
  | .exec, false => .ok ⟨db, some st.myself, .none⟩
  | _, _ => do
    let s ← (q.keys c).foldlM (scanKey st keyHashSlot now) (KeyScan.start db)
    if s.crossSlot then .ok ⟨s.db, none, .crossSlot⟩ else decideNode st c q s

/-! ### Commands -/

/-- Replies, with the commands that were executed and the keys before each of them. -/
inductive Reply (K V : Type) where
  | ok
  | error
  | clusterDown
  | crossSlot
  | tryAgain
  | ask (n : NodeRef)
  | moved (n : NodeRef)
  | queued
  | executed (calls : List (RedisCommand K V × Keyspace K V))

omit [DecidableEq K] in
def flagTransaction (c : RedisClient K V) : RedisClient K V :=
  if c.multi then { c with dirty := true } else c

omit [DecidableEq K] in
def discardTransaction (c : RedisClient K V) : RedisClient K V :=
  { c with multi := false, dirty := false, mstate := [] }

/-- A server of the cluster; `ok` is `REDIS_CLUSTER_OK`. -/
structure Server (N K V : Type) where
  cluster : ClusterState N
  ok : Bool
  db : Keyspace K V

/-- `call` of one command after the other. -/
def callAll (now : ℤ) : Keyspace K V → List (RedisCommand K V) →
    Keyspace K V × List (RedisCommand K V × Keyspace K V)
  | db, [] => (db, [])
  | db, cmd :: cmds =>
    let p := callAll now (cmd.proc now db) cmds
    (p.1, (cmd, db) :: p.2)

/-- `multiCommand`, `execCommand`, `discardCommand`, `askingCommand`, `watchCommand`, or an
ordinary command, which is queued inside a transaction. -/
def execute (db : Keyspace K V) (c : RedisClient K V) (q : Request K V) (now : ℤ) :
    Keyspace K V × RedisClient K V × Reply K V :=
  match q with
  | .command cmd =>
    if c.multi then (db, { c with mstate := c.mstate ++ [cmd] }, .queued)
    else
      let p := callAll now db [cmd]
      (p.1, c, .executed p.2)
  | .watch _ => if c.multi then (db, c, .error) else (db, c, .ok)
  | .multi => if c.multi then (db, c, .error) else (db, { c with multi := true }, .ok)
  | .exec =>
    if c.multi then
      if c.dirty then (db, discardTransaction c, .error)
      else
        let p := callAll now db c.mstate
        (p.1, discardTransaction c, .executed p.2)
    else (db, c, .error)
  | .discard => if c.multi then (db, discardTransaction c, .ok) else (db, c, .error)
  | .asking => if c.multi then (db, c, .queued) else (db, { c with asking := true }, .ok)

omit [DecidableEq K] in
/-- `resetClient`: the `ASKING` flag lasts for one command or transaction. -/
def resetClient (c : RedisClient K V) : Request K V → RedisClient K V
  | .asking => c
  | _ => if c.multi then c else { c with asking := false }

/-- Whether `processCommand` asks `getNodeByQuery`: the command table has keys for the
command.  It has none for `EXEC`. -/
def Request.redirected : Request K V → Bool
  | .command cmd => !cmd.noKeys
  | .watch _ => true
  | _ => false

/-- The redirection in `processCommand`: the keys after the lookups, and the reply to a
command that is not served here. -/
def redirect (sv : Server N K V) (keyHashSlot : K → Slot) (c : RedisClient K V) (q : Request K V)
    (now : ℤ) : Result (Keyspace K V × Option (Reply K V)) := do
  if ¬ q.redirected then .ok (sv.db, none)
  else if ¬ sv.ok then .ok (sv.db, some .clusterDown)
  else do
    let r ← getNodeByQuery sv.cluster keyHashSlot sv.db c q now
    match r.n with
    | none => .ok (r.db, some (if r.errorCode = .crossSlot then .crossSlot else .tryAgain))
    | some n =>
      if n = sv.cluster.myself then .ok (r.db, none)
      else .ok (r.db, some (if r.errorCode = .ask then .ask n else .moved n))

/-- `processCommand`, as far as it is about the cluster and transactions, and `resetClient`.
`now` is the time of the lookups, `later` the time at which commands are executed. -/
def processCommand (sv : Server N K V) (keyHashSlot : K → Slot) (c : RedisClient K V)
    (q : Request K V) (now later : ℤ) : Result (Server N K V × RedisClient K V × Reply K V) := do
  let p ← redirect sv keyHashSlot c q now
  match p.2 with
  | some reply => .ok ({ sv with db := p.1 }, resetClient (flagTransaction c) q, reply)
  | none =>
    let x := execute p.1 c q later
    .ok ({ sv with db := x.1 }, resetClient x.2.1 q, x.2.2)

/-! ### What the answer says -/

omit [DecidableEq K] in
/-- The key is there and not expired. -/
def Present (now : ℤ) (db : Keyspace K V) (key : K) : Prop :=
  ∃ e, db key = some e ∧ expired now e = false

omit [DecidableEq K] in
theorem Present.ne_none {now : ℤ} {db : Keyspace K V} {key : K} (h : Present now db key) :
    db key ≠ none := by
  obtain ⟨e, he, -⟩ := h
  simp [he]

/-- The keys after lookups: some may have expired. -/
structure Looked (now : ℤ) (db db' : Keyspace K V) : Prop where
  eq_or : ∀ k, db' k = db k ∨ db' k = none
  present : ∀ k, Present now db k → Present now db' k

omit [DecidableEq K] in
theorem Looked.refl (now : ℤ) (db : Keyspace K V) : Looked now db db :=
  ⟨fun _ => Or.inl rfl, fun _ => id⟩

omit [DecidableEq K] in
theorem Looked.trans {now : ℤ} {db₁ db₂ db₃ : Keyspace K V} (h : Looked now db₁ db₂)
    (h' : Looked now db₂ db₃) : Looked now db₁ db₃ := by
  refine ⟨fun k => ?_, fun k hk => h'.present k (h.present k hk)⟩
  rcases h'.eq_or k with heq | heq
  · rw [heq]
    exact h.eq_or k
  · exact Or.inr heq

theorem lookupKeyRead_spec (db : Keyspace K V) (now : ℤ) (key : K) :
    Looked now db (lookupKeyRead db now key).1 ∧
      ((lookupKeyRead db now key).2 = true → Present now (lookupKeyRead db now key).1 key) ∧
      ((lookupKeyRead db now key).2 = false → (lookupKeyRead db now key).1 key = none) := by
  unfold lookupKeyRead
  split
  · rename_i hnone
    exact ⟨Looked.refl now db, fun h => (by cases h), fun _ => hnone⟩
  · rename_i e he
    split
    · rename_i hexpired
      refine ⟨⟨fun k => ?_, fun k hk => ?_⟩, fun h => (by cases h), fun _ => Function.update_self _ _ _⟩
      · by_cases hkey : k = key
        · subst hkey
          exact Or.inr (Function.update_self _ _ _)
        · exact Or.inl (Function.update_of_ne hkey _ _)
      · have hkey : k ≠ key := by
          rintro rfl
          obtain ⟨e', he', hfresh⟩ := hk
          obtain rfl := Option.some_inj.mp (he.symm.trans he')
          rw [hexpired] at hfresh
          cases hfresh
        obtain ⟨e', he', hfresh⟩ := hk
        exact ⟨e', (Function.update_of_ne hkey _ _).trans he', hfresh⟩
    · rename_i hfresh
      exact ⟨Looked.refl now db, fun _ => ⟨e, he, by simpa using hfresh⟩, fun h => (by cases h)⟩

/-- The keys are of one slot, and the variables say so. -/
structure Placed (st : ClusterState N) (keyHashSlot : K → Slot) (keys : List K)
    (s : KeyScan K V) : Prop where
  empty : s.firstkey = none → keys = [] ∧ s.n = none
  first : ∀ k, s.firstkey = some k → keyHashSlot k = s.slot ∧ s.n = st.slots s.slot ∧
    s.n.isSome = true ∧
    s.migratingSlot = (decide (st.slots s.slot = some st.myself) &&
      (st.migratingSlotsTo s.slot).isSome) ∧
    s.importingSlot = (!s.migratingSlot && (st.importingSlotsFrom s.slot).isSome)
  slots : ∀ k ∈ keys, keyHashSlot k = s.slot
  single : s.multipleKeys = false → ∀ k ∈ keys, s.firstkey = some k

/-- The keys that are not here were counted. -/
structure Counted (now : ℤ) (keys : List K) (s : KeyScan K V) : Prop where
  found : s.migratingSlot = true ∨ s.importingSlot = true → s.missingKeys = 0 →
    ∀ k ∈ keys, Present now s.db k
  missing : s.missingKeys ≠ 0 → ∃ k ∈ keys, s.db k = none

section
variable {st : ClusterState N} {keyHashSlot : K → Slot} {now : ℤ} {done : List K}
  {s : KeyScan K V} {db : Keyspace K V}

theorem seeKey_spec (h : Placed st keyHashSlot done s) (key : K) :
    (seeKey st keyHashSlot s key).Ensures (fun _ => True) fun s' =>
      s'.db = s.db ∧ s'.missingKeys = s.missingKeys ∧ (s'.crossSlot = false →
        Placed st keyHashSlot (done ++ [key]) s' ∧ (done = [] ∨
          (s'.migratingSlot = s.migratingSlot ∧ s'.importingSlot = s.importingSlot))) := by
  unfold seeKey
  split
  · rename_i hnone
    obtain ⟨rfl, -⟩ := h.empty hnone
    refine Ensures.bind (Q := fun _ => (st.slots (keyHashSlot key)).isSome = true) ?_
      fun _ hassert => ?_
    · rw [redisAssert]
      split
      · assumption
      · trivial
    · refine ⟨rfl, rfl, fun _ => ⟨?_, Or.inl rfl⟩⟩
      constructor
      · exact fun hnone => by cases hnone
      · intro k hk
        rw [← Option.some_inj.mp hk]
        exact ⟨rfl, rfl, hassert, rfl, rfl⟩
      · intro k hk
        rw [List.nil_append, List.mem_singleton] at hk
        rw [hk]
      · intro _ k hk
        rw [List.nil_append, List.mem_singleton] at hk
        rw [hk]
  · rename_i firstkey hfirst
    split
    · rename_i heq
      subst heq
      refine ⟨rfl, rfl, fun _ => ⟨?_, Or.inr ⟨rfl, rfl⟩⟩⟩
      constructor
      · exact fun hnone => by rw [hfirst] at hnone; cases hnone
      · exact h.first
      · intro k hk
        rcases List.mem_append.mp hk with hk | hk
        · exact h.slots k hk
        · rw [List.mem_singleton.mp hk]
          exact (h.first firstkey hfirst).1
      · intro hsingle k hk
        rcases List.mem_append.mp hk with hk | hk
        · exact h.single hsingle k hk
        · rw [List.mem_singleton.mp hk, hfirst]
    · split
      · exact ⟨rfl, rfl, fun hfalse => by cases hfalse⟩
      · rename_i hslot
        refine ⟨rfl, rfl, fun _ => ⟨?_, Or.inr ⟨rfl, rfl⟩⟩⟩
        constructor
        · intro hnone
          rw [show s.firstkey = none from hnone] at hfirst
          cases hfirst
        · exact h.first
        · intro k hk
          rcases List.mem_append.mp hk with hk | hk
          · exact h.slots k hk
          · rw [List.mem_singleton.mp hk]
            exact (not_not.mp hslot).symm
        · intro hsingle
          cases hsingle

theorem countKey_counted {s' : KeyScan K V} (h : Counted now done s) (hdb : s'.db = s.db)
    (hmissing : s'.missingKeys = s.missingKeys) (hsame : done = [] ∨
      (s'.migratingSlot = s.migratingSlot ∧ s'.importingSlot = s.importingSlot)) (key : K) :
    Counted now (done ++ [key]) (countKey now s' key) := by
  have hfound : s'.migratingSlot = true ∨ s'.importingSlot = true → s'.missingKeys = 0 →
      ∀ k ∈ done, Present now s'.db k := by
    intro hslot hzero k hk
    rcases hsame with rfl | ⟨hmigrating, himporting⟩
    · exact absurd hk List.not_mem_nil
    · rw [hdb]
      rw [hmigrating, himporting] at hslot
      exact h.found hslot (hmissing ▸ hzero) k hk
  have hmiss : s'.missingKeys ≠ 0 → ∃ k ∈ done, s'.db k = none := by
    rw [hmissing, hdb]
    exact h.missing
  unfold countKey
  split
  · rename_i hslot
    rw [Bool.or_eq_true] at hslot
    obtain ⟨hlooked, hyes, hno⟩ := lookupKeyRead_spec s'.db now key
    dsimp only
    split
    · rename_i htrue
      constructor
      · intro _ hzero k hk
        rcases List.mem_append.mp hk with hk | hk
        · exact hlooked.present k (hfound hslot hzero k hk)
        · rw [List.mem_singleton.mp hk]
          exact hyes htrue
      · intro hne
        obtain ⟨k, hk, hnone⟩ := hmiss hne
        refine ⟨k, List.mem_append_left _ hk, ?_⟩
        rcases hlooked.eq_or k with heq | heq
        · exact heq.trans hnone
        · exact heq
    · rename_i hfalse
      rw [Bool.not_eq_true] at hfalse
      constructor
      · exact fun _ hzero => absurd hzero (Nat.succ_ne_zero _)
      · exact fun _ => ⟨key, List.mem_append_right _ (List.mem_singleton_self key), hno hfalse⟩
  · rename_i hslot
    rw [Bool.or_eq_true] at hslot
    constructor
    · exact fun hyes => absurd hyes hslot
    · intro hne
      obtain ⟨k, hk, hnone⟩ := hmiss hne
      exact ⟨k, List.mem_append_left _ hk, hnone⟩

/-- The loop after the keys `done`. -/
structure Scanned (st : ClusterState N) (keyHashSlot : K → Slot) (now : ℤ) (db : Keyspace K V)
    (done : List K) (s : KeyScan K V) : Prop where
  looked : Looked now db s.db
  placed : s.crossSlot = false → Placed st keyHashSlot done s ∧ Counted now done s

theorem countKey_looked (s : KeyScan K V) (key : K) :
    Looked now s.db (countKey now s key).db ∧ (countKey now s key).crossSlot = s.crossSlot := by
  unfold countKey
  split
  · exact ⟨(lookupKeyRead_spec s.db now key).1, rfl⟩
  · exact ⟨Looked.refl now s.db, rfl⟩

theorem Placed.countKey {keys : List K} (h : Placed st keyHashSlot keys s) (key : K) :
    Placed st keyHashSlot keys (countKey now s key) := by
  unfold Cluster.countKey
  split
  · exact ⟨h.empty, h.first, h.slots, h.single⟩
  · exact h

theorem scanKey_scanned (h : Scanned st keyHashSlot now db done s) (key : K) :
    (scanKey st keyHashSlot now s key).Ensures (fun _ => True)
      (Scanned st keyHashSlot now db (done ++ [key])) := by
  rw [scanKey]
  split
  · rename_i hcross
    exact ⟨h.looked, fun hfalse => by rw [hcross] at hfalse; cases hfalse⟩
  · rename_i hcross
    obtain ⟨hplaced, hcounted⟩ := h.placed (by simpa using hcross)
    refine (seeKey_spec hplaced key).bind fun s' hs' => ?_
    obtain ⟨hdb, hmissing, hseen⟩ := hs'
    split
    · rename_i hcross'
      exact ⟨hdb ▸ h.looked, fun hfalse => by rw [hcross'] at hfalse; cases hfalse⟩
    · obtain ⟨hlooked, hsame⟩ := countKey_looked s' key
      rw [hdb] at hlooked
      refine ⟨h.looked.trans hlooked, fun hfalse => ?_⟩
      obtain ⟨hplaced', hflags⟩ := hseen (hsame ▸ hfalse)
      exact ⟨hplaced'.countKey key, countKey_counted hcounted hdb hmissing hflags key⟩

end

/-- What `getNodeByQuery` says about the keys it was asked about. -/
structure Answer (st : ClusterState N) (keyHashSlot : K → Slot) (c : RedisClient K V)
    (q : Request K V) (now : ℤ) (db : Keyspace K V) (r : QueryResult K V) : Prop where
  looked : Looked now db r.db
  /-- A redirection with `ASK`: some key is not here. -/
  asks : r.errorCode = .ask → ∃ k ∈ q.keys c, r.db k = none
  /-- A request about a slot that is being migrated is served if all keys are here. -/
  migrating : ∀ slot n, st.slots slot = some st.myself → st.migratingSlotsTo slot = some n →
    n ≠ st.myself → r.n = some st.myself → (∃ k ∈ q.keys c, keyHashSlot k = slot) →
      ∀ k ∈ q.keys c, Present now r.db k
  /-- A request about a slot that is being imported is served if the client asked for it,
  and all keys are here or there is only one. -/
  importing : ∀ slot n, st.slots slot = some n → n ≠ st.myself →
    (st.importingSlotsFrom slot).isSome = true → slaveOf st n = .ok false →
    r.n = some st.myself → (∃ k ∈ q.keys c, keyHashSlot k = slot) →
      (c.asking = true ∨ q.askingFlag = true) ∧
        ((∀ k ∈ q.keys c, Present now r.db k) ∨ ∀ k ∈ q.keys c, ∀ k' ∈ q.keys c, k = k')

omit [DecidableEq K] in
theorem decideNode_spec {st : ClusterState N} {keyHashSlot : K → Slot} {db : Keyspace K V}
    {c : RedisClient K V} {q : Request K V} {now : ℤ} {s : KeyScan K V}
    (hlooked : Looked now db s.db) (hplaced : Placed st keyHashSlot (q.keys c) s)
    (hcounted : Counted now (q.keys c) s) :
    (decideNode st c q s).Ensures (fun _ => True) (Answer st keyHashSlot c q now db) := by
  rw [decideNode]
  split
  · rename_i hn
    -- no keys at all
    have hempty : q.keys c = [] := by
      rcases hfirst : s.firstkey with _ | k
      · exact (hplaced.empty hfirst).1
      · have hsome := (hplaced.first k hfirst).2.2.1
        rw [hn] at hsome
        cases hsome
    refine ⟨hlooked, fun hask => (by cases hask), ?_, ?_⟩
    · rintro slot n - - - - ⟨k, hk, -⟩
      rw [hempty] at hk
      exact absurd hk List.not_mem_nil
    · rintro slot n - - - - - ⟨k, hk, -⟩
      rw [hempty] at hk
      exact absurd hk List.not_mem_nil
  · rename_i n hn
    obtain ⟨firstkey, hfirst⟩ : ∃ k, s.firstkey = some k := by
      rcases hfirst : s.firstkey with _ | k
      · rw [(hplaced.empty hfirst).2] at hn
        cases hn
      · exact ⟨k, rfl⟩
    obtain ⟨-, hslots, -, hmigrating, himporting⟩ := hplaced.first firstkey hfirst
    have hslot : ∀ slot, (∃ k ∈ q.keys c, keyHashSlot k = slot) → slot = s.slot := by
      rintro slot ⟨k, hk, rfl⟩
      exact hplaced.slots k hk
    -- the slot of the keys is migrated, or imported
    have hmig : ∀ slot n', st.slots slot = some st.myself → st.migratingSlotsTo slot = some n' →
        (∃ k ∈ q.keys c, keyHashSlot k = slot) → s.migratingSlot = true := by
      intro slot n' howner hto hkeys
      rw [hmigrating, ← hslot slot hkeys, howner, hto]
      simp
    have himp : ∀ slot n', st.slots slot = some n' → n' ≠ st.myself →
        (st.importingSlotsFrom slot).isSome = true → (∃ k ∈ q.keys c, keyHashSlot k = slot) →
          s.migratingSlot = false ∧ s.importingSlot = true ∧ n = n' := by
      intro slot n' howner hne hfrom hkeys
      obtain rfl := hslot slot hkeys
      have hnot : s.migratingSlot = false := by
        rw [hmigrating, howner]
        simp [hne]
      refine ⟨hnot, ?_, ?_⟩
      · rw [himporting, hnot, hfrom]
        rfl
      · rw [hslots, howner] at hn
        exact (Option.some_inj.mp hn).symm
    split
    · rename_i hmissing
      refine ⟨hlooked, fun _ => hcounted.missing hmissing.2, ?_, ?_⟩
      · intro slot n' howner hto hne hmine hkeys
        rw [← hslot slot hkeys, hto] at hmine
        exact absurd (Option.some_inj.mp hmine) hne
      · intro slot n' howner hne hfrom _ _ hkeys
        rw [(himp slot n' howner hne hfrom hkeys).1] at hmissing
        cases hmissing.1
    · rename_i hmissing
      have hall : ∀ slot n', st.slots slot = some st.myself → st.migratingSlotsTo slot = some n' →
          (∃ k ∈ q.keys c, keyHashSlot k = slot) → ∀ k ∈ q.keys c, Present now s.db k := by
        intro slot n' howner hto hkeys
        have htrue := hmig slot n' howner hto hkeys
        exact hcounted.found (Or.inl htrue) (by_contra fun hne => hmissing ⟨htrue, hne⟩)
      split
      · rename_i hasking
        split
        · rename_i hmultiple
          refine ⟨hlooked, fun hask => (by cases hask), ?_, ?_⟩
          · exact fun _ _ _ _ _ hmine => by cases hmine
          · exact fun _ _ _ _ _ _ hmine => by cases hmine
        · rename_i hmultiple
          refine ⟨hlooked, fun hask => (by cases hask), ?_, ?_⟩
          · exact fun slot n' howner hto _ _ hkeys => hall slot n' howner hto hkeys
          · intro slot n' _ _ _ _ _ _
            refine ⟨hasking.2, ?_⟩
            by_cases hzero : s.missingKeys = 0
            · exact Or.inl (hcounted.found (Or.inr hasking.1) hzero)
            · have hsingle : s.multipleKeys = false := by
                rw [← Bool.not_eq_true]
                exact fun htrue => hmultiple ⟨htrue, hzero⟩
              refine Or.inr fun k hk k' hk' => ?_
              have heq := (hplaced.single hsingle k hk).symm.trans (hplaced.single hsingle k' hk')
              exact Option.some_inj.mp heq
      · rename_i hasking
        refine Ensures.bind (Q := fun slave => slaveOf st n = .ok slave) ?_ fun slave hslave => ?_
        · cases slaveOf st n with
          | ok slave => rfl
          | error e => trivial
        split
        · rename_i hread
          refine ⟨hlooked, fun hask => (by cases hask), ?_, ?_⟩
          · exact fun slot n' howner hto _ _ hkeys => hall slot n' howner hto hkeys
          · intro slot n' howner hne hfrom hno _ hkeys
            obtain ⟨-, -, rfl⟩ := himp slot n' howner hne hfrom hkeys
            rw [hslave] at hno
            rw [hread.2.2] at hno
            cases hno
        · refine ⟨hlooked, fun hask => ?_, ?_, ?_⟩
          · dsimp only at hask
            split at hask <;> cases hask
          · exact fun slot n' howner hto _ _ hkeys => hall slot n' howner hto hkeys
          · intro slot n' howner hne hfrom _ hmine hkeys
            obtain ⟨-, -, rfl⟩ := himp slot n' howner hne hfrom hkeys
            exact absurd (Option.some_inj.mp hmine) hne

theorem scanKeys_spec {st : ClusterState N} {keyHashSlot : K → Slot} {db : Keyspace K V} {now : ℤ}
    (keys : List K) :
    (keys.foldlM (scanKey st keyHashSlot now) (KeyScan.start db)).Ensures (fun _ => True)
      (Scanned st keyHashSlot now db keys) := by
  refine Ensures.foldlM_prefix (I := Scanned st keyHashSlot now db)
    (fun done key _ s _ h => scanKey_scanned h key) ?_
  refine ⟨Looked.refl now db, fun _ => ⟨⟨fun _ => ⟨rfl, rfl⟩, ?_, ?_, ?_⟩, ?_, ?_⟩⟩
  · exact fun k hk => by cases hk
  · exact fun k hk => absurd hk List.not_mem_nil
  · exact fun _ k hk => absurd hk List.not_mem_nil
  · exact fun _ _ k hk => absurd hk List.not_mem_nil
  · exact fun hne => absurd rfl hne

theorem getNodeByQuery_spec (st : ClusterState N) (keyHashSlot : K → Slot) (db : Keyspace K V)
    (c : RedisClient K V) (q : Request K V) (now : ℤ) (hexec : q = .exec → c.multi = true) :
    (getNodeByQuery st keyHashSlot db c q now).Ensures (fun _ => True)
      (Answer st keyHashSlot c q now db) := by
  have hmain : ((q.keys c).foldlM (scanKey st keyHashSlot now) (KeyScan.start db) >>= fun s =>
      if s.crossSlot then .ok ⟨s.db, none, .crossSlot⟩ else decideNode st c q s).Ensures
        (fun _ => True) (Answer st keyHashSlot c q now db) := by
    refine (scanKeys_spec (q.keys c)).bind fun s hs => ?_
    split
    · refine ⟨hs.looked, fun hask => (by cases hask), ?_, ?_⟩
      · exact fun _ _ _ _ _ hmine => by cases hmine
      · exact fun _ _ _ _ _ _ hmine => by cases hmine
    · rename_i hcross
      obtain ⟨hplaced, hcounted⟩ := hs.placed (by simpa using hcross)
      exact decideNode_spec hs.looked hplaced hcounted
  unfold getNodeByQuery
  split
  · rename_i hfalse
    rw [hexec rfl] at hfalse
    cases hfalse
  · exact hmain

end

end Cluster

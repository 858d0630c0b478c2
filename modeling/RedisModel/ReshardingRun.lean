/-
Moving the keys of a slot from one node to another.

The owner of a slot has marked it as migrating and another node as importing; keys move one
at a time while clients send commands to both.  A run records which commands were answered
with `ASK` and, for every command that was executed, the keys of both nodes at that time.

* `reshardStep` — the steps of the two nodes and their clients;
* `FollowsAsk`, `Rechecked` — what the clients promise, and the check of `EXEC` that
  `processCommand` leaves out;
* `Whole` — the invariant: no key of the slot is on both nodes, and a key for which a client
  was sent on is not with the owner;
* `run_whole` — with that check no key is ever split;
* `run_splitKey` — without it a transaction writes a key that has moved.
-/
import RedisModel.ClusterQuery
import RedisModel.ClusterElectionRun

open Except

namespace Cluster

/-! ### The nodes and their clients -/

/-- The two nodes: the owner of the slot and the one that imports it. -/
inductive Side where
  | owner
  | target
  deriving DecidableEq

def Side.other : Side → Side
  | .owner => .target
  | .target => .owner

/-- A command that was executed, with the keys of its node and those of the other one. -/
structure Execution (K V : Type) where
  command : RedisCommand K V
  here : Keyspace K V
  there : Keyspace K V

/-- The nodes, the connections of the clients to both, the commands for which a client was
sent on by the owner, and the commands executed. -/
structure Reshard (C N K V : Type) where
  server : Side → Server N K V
  client : C → Side → RedisClient K V
  asked : C → List (RedisCommand K V)
  log : List (Execution K V)

inductive ReshardEvent (C K V : Type) where
  /-- A client sends a request to a node. -/
  | request (c : C) (side : Side) (q : Request K V) (now later : ℤ)
  /-- `MIGRATE` of a key from the owner to the other node. -/
  | migrate (key : K) (now : ℤ) (replace : Bool)
  /-- A key is deleted if it expired. -/
  | expire (side : Side) (key : K) (now : ℤ)
  /-- A key that the client watches was modified. -/
  | touch (c : C) (side : Side)
  /-- A client closes its connection to a node and opens another one. -/
  | reconnect (c : C) (side : Side)

def newClient {K V : Type} : RedisClient K V := ⟨false, false, false, false, []⟩

section
variable {C N K V : Type} [DecidableEq C] [DecidableEq K]

namespace Reshard

/-- Change the keys of a node. -/
def setDb (w : Reshard C N K V) (side : Side) (db : Keyspace K V) : Reshard C N K V :=
  { w with server := Function.update w.server side { w.server side with db } }

/-- Change a connection. -/
def setClient (w : Reshard C N K V) (c : C) (side : Side) (cl : RedisClient K V) :
    Reshard C N K V :=
  { w with client := Function.update w.client c (Function.update (w.client c) side cl) }

/-- A command of the client was answered with `ASK` by the owner. -/
def noteAsk (w : Reshard C N K V) (c : C) : Side → Request K V → Reply K V → Reshard C N K V
  | .owner, .command cmd, .ask _ => { w with asked := Function.update w.asked c (cmd :: w.asked c) }
  | _, _, _ => w

/-- Record the commands that a node executed. -/
def noteCalls (w : Reshard C N K V) (side : Side) : Reply K V → Reshard C N K V
  | .executed calls =>
    { w with log := calls.map (fun p => ⟨p.1, p.2, (w.server side.other).db⟩) ++ w.log }
  | _ => w

/-- `MIGRATE`, without the option `COPY`, as one step: the key is restored by the other node,
which refuses it when it has the key, and deleted by the owner. -/
def migrateKey (w : Reshard C N K V) (key : K) (now : ℤ) (replace : Bool) : Reshard C N K V :=
  let p := lookupKeyRead (w.server .owner).db now key
  match p.1 key with
  | none => w.setDb .owner p.1
  | some e =>
    let t := lookupKeyRead (w.server .target).db now key
    if t.2 && !replace then (w.setDb .owner p.1).setDb .target t.1
    else (w.setDb .owner (Function.update p.1 key none)).setDb .target
      (Function.update t.1 key (some e))

end Reshard

/-- One step. -/
def reshardStep (keyHashSlot : K → Slot) (w : Reshard C N K V) :
    ReshardEvent C K V → Option (Reshard C N K V)
  | .request c side q now later =>
    (processCommand (w.server side) keyHashSlot (w.client c side) q now later).toOption.map
      fun r => ((((w.setDb side r.1.db).setClient c side r.2.1).noteAsk c side q r.2.2).noteCalls
        side r.2.2)
  | .migrate key now replace => some (w.migrateKey key now replace)
  | .expire side key now => some (w.setDb side (lookupKeyRead (w.server side).db now key).1)
  | .touch c side => some (w.setClient c side { w.client c side with dirty := true })
  | .reconnect c side => some (w.setClient c side newClient)

/-- The clients follow `ASK` with `ASKING` and the same command, or a transaction with it, and
send nothing else that way. -/
def FollowsAsk (w : Reshard C N K V) : ReshardEvent C K V → Prop
  | .request c .target (.command cmd) _ _ =>
    (w.client c .target).multi = false →
      (w.client c .target).asking = true ∨ cmd.asking = true → cmd ∈ w.asked c
  | .request c .target .exec _ _ =>
    (w.client c .target).multi = true → (w.client c .target).asking = true →
      ∃ cmd ∈ (w.client c .target).mstate, cmd ∈ w.asked c
  | _ => True

/-- When a transaction is executed, `getNodeByQuery` would still serve it here. -/
def Rechecked (keyHashSlot : K → Slot) (w : Reshard C N K V) : ReshardEvent C K V → Prop
  | .request c side .exec now _ =>
    (w.client c side).multi = true → (w.client c side).dirty = false →
      ∃ r, getNodeByQuery (w.server side).cluster keyHashSlot (w.server side).db (w.client c side)
        .exec now = .ok r ∧ r.n = some (w.server side).cluster.myself
  | _ => True

/-! ### The invariant -/

omit [DecidableEq C] [DecidableEq K] in
/-- The slot is owned by the first node, which migrates it, and imported by the second one, a
master. -/
structure Resharding (slot : Slot) (a b : ClusterState N) : Prop where
  owned : a.slots slot = some a.myself
  migrating : ∃ n, a.migratingSlotsTo slot = some n ∧ n ≠ a.myself
  importing : (b.importingSlotsFrom slot).isSome = true
  foreign : ∃ n, b.slots slot = some n ∧ n ≠ b.myself ∧ slaveOf b n = .ok false

omit [DecidableEq C] [DecidableEq K] in
structure Whole (keyHashSlot : K → Slot) (slot : Slot) (w : Reshard C N K V) : Prop where
  resharding : Resharding slot (w.server .owner).cluster (w.server .target).cluster
  apart : ∀ k, keyHashSlot k = slot →
    (w.server .owner).db k = none ∨ (w.server .target).db k = none
  asked : ∀ c, ∀ cmd ∈ w.asked c,
    ∃ k ∈ cmd.keys, keyHashSlot k = slot → (w.server .owner).db k = none
  log : ∀ x ∈ w.log, ∀ k ∈ x.command.keys, keyHashSlot k = slot →
    x.there k ≠ none → x.here k ≠ none

variable {keyHashSlot : K → Slot} {slot : Slot} {w : Reshard C N K V}

omit [DecidableEq C] [DecidableEq K] in
theorem setDb_server_self (w : Reshard C N K V) (side : Side) (db : Keyspace K V) :
    (w.setDb side db).server side = { w.server side with db } :=
  Function.update_self _ _ _

omit [DecidableEq C] [DecidableEq K] in
theorem setDb_server_of_ne (w : Reshard C N K V) {side side' : Side} (h : side' ≠ side)
    (db : Keyspace K V) : (w.setDb side db).server side' = w.server side' :=
  Function.update_of_ne h _ _

omit [DecidableEq C] [DecidableEq K] in
theorem setDb_cluster (w : Reshard C N K V) (side side' : Side) (db : Keyspace K V) :
    ((w.setDb side db).server side').cluster = (w.server side').cluster := by
  by_cases h : side' = side
  · subst h
    rw [setDb_server_self]
  · rw [setDb_server_of_ne w h]

omit [DecidableEq C] [DecidableEq K] in
theorem Whole.setDb (h : Whole keyHashSlot slot w) {side : Side} {db : Keyspace K V}
    (hdb : ∀ k, keyHashSlot k = slot → db k ≠ none → (w.server side).db k ≠ none ∨
      (side = .target ∧ (w.server .owner).db k = none)) :
    Whole keyHashSlot slot (w.setDb side db) := by
  constructor
  · rw [setDb_cluster, setDb_cluster]
    exact h.resharding
  · intro k hk
    rw [or_iff_not_imp_left]
    intro howner
    by_contra htarget
    cases side with
    | owner =>
      rw [setDb_server_self] at howner
      rw [setDb_server_of_ne w (by simp)] at htarget
      rcases hdb k hk howner with hold | ⟨hside, -⟩
      · exact (h.apart k hk).elim hold htarget
      · cases hside
    | target =>
      rw [setDb_server_self] at htarget
      rw [setDb_server_of_ne w (by simp)] at howner
      rcases hdb k hk htarget with hold | ⟨-, hnone⟩
      · exact (h.apart k hk).elim howner hold
      · exact howner hnone
  · intro c cmd hcmd
    obtain ⟨k, hk, hnone⟩ := h.asked c cmd hcmd
    refine ⟨k, hk, fun hslot => ?_⟩
    cases side with
    | owner =>
      rw [setDb_server_self]
      by_contra hsome
      rcases hdb k hslot hsome with hold | ⟨hside, -⟩
      · exact hold (hnone hslot)
      · cases hside
    | target =>
      rw [setDb_server_of_ne w (by simp)]
      exact hnone hslot
  · exact h.log

omit [DecidableEq K] in
theorem Whole.setClient (h : Whole keyHashSlot slot w) (c : C) (side : Side)
    (cl : RedisClient K V) : Whole keyHashSlot slot (w.setClient c side cl) :=
  ⟨h.resharding, h.apart, h.asked, h.log⟩

omit [DecidableEq C] [DecidableEq K] in
theorem Whole.looked (h : Whole keyHashSlot slot w) {side : Side} {db : Keyspace K V} {now : ℤ}
    (hlooked : Looked now (w.server side).db db) : Whole keyHashSlot slot (w.setDb side db) := by
  refine h.setDb fun k _ hk => Or.inl ?_
  rcases hlooked.eq_or k with heq | heq
  · exact heq ▸ hk
  · exact absurd heq hk

omit [DecidableEq C] in
theorem Whole.migrateKey (h : Whole keyHashSlot slot w) (key : K) (now : ℤ) (replace : Bool) :
    Whole keyHashSlot slot (w.migrateKey key now replace) := by
  have howner := (lookupKeyRead_spec (w.server .owner).db now key).1
  have htarget := (lookupKeyRead_spec (w.server .target).db now key).1
  unfold Reshard.migrateKey
  dsimp only
  split
  · exact h.looked howner
  · rename_i e he
    split
    · have hlooked : Looked now ((w.setDb .owner (lookupKeyRead (w.server .owner).db now
          key).1).server .target).db (lookupKeyRead (w.server .target).db now key).1 := by
        rw [setDb_server_of_ne w (by simp)]
        exact htarget
      exact (h.looked howner).looked hlooked
    · refine Whole.setDb (h.setDb fun k _ hk => Or.inl ?_) fun k _ hk => ?_
      · by_cases hkey : k = key
        · subst hkey
          exact absurd (Function.update_self _ _ _) hk
        · rw [Function.update_of_ne hkey] at hk
          rcases howner.eq_or k with heq | heq
          · exact heq ▸ hk
          · exact absurd heq hk
      · by_cases hkey : k = key
        · subst hkey
          -- the owner has just deleted the key
          refine Or.inr ⟨rfl, ?_⟩
          rw [setDb_server_self]
          exact Function.update_self _ _ _
        · rw [Function.update_of_ne hkey] at hk
          rw [setDb_server_of_ne w (by simp)]
          rcases htarget.eq_or k with heq | heq
          · exact Or.inl (heq ▸ hk)
          · exact absurd heq hk

/-! ### Requests -/

omit [DecidableEq C] [DecidableEq K] in
theorem callAll_spec (now : ℤ) (db : Keyspace K V) (cmds : List (RedisCommand K V)) :
    (∀ k ∉ cmds.flatMap RedisCommand.keys, (callAll now db cmds).1 k = db k) ∧
      ∀ p ∈ (callAll now db cmds).2, p.1 ∈ cmds := by
  induction cmds generalizing db with
  | nil => exact ⟨fun _ _ => rfl, fun p hp => absurd hp List.not_mem_nil⟩
  | cons cmd cmds ih =>
    obtain ⟨hkeys, hcalls⟩ := ih (cmd.proc now db)
    refine ⟨fun k hk => ?_, fun p hp => ?_⟩
    · rw [List.flatMap_cons, List.mem_append, not_or] at hk
      exact (hkeys k hk.2).trans (cmd.proc_of_notMem now db k hk.1)
    · rcases List.mem_cons.mp hp with rfl | hp
      · exact List.mem_cons_self
      · exact List.mem_cons_of_mem _ (hcalls p hp)

omit [DecidableEq C] in
/-- What `processCommand` does: it refuses the request, or executes commands whose keys are
those that `getNodeByQuery` checked or, for `EXEC`, did not check. -/
inductive Processed (keyHashSlot : K → Slot) (sv : Server N K V) (c : RedisClient K V)
    (q : Request K V) (now later : ℤ) : Keyspace K V → Reply K V → Prop
  | refused (db : Keyspace K V) (reply : Reply K V) (hlooked : Looked now sv.db db)
      (hcalls : ∀ calls, reply ≠ .executed calls)
      (hask : ∀ n, reply = .ask n → ∃ k ∈ q.keys c, db k = none) :
      Processed keyHashSlot sv c q now later db reply
  | command (cmd : RedisCommand K V) (db : Keyspace K V) (hq : q = .command cmd)
      (hmulti : c.multi = false) (hlooked : Looked now sv.db db)
      (hchecked : cmd.keys = [] ∨ ∃ r, Answer sv.cluster keyHashSlot c q now sv.db r ∧
        r.n = some sv.cluster.myself) :
      Processed keyHashSlot sv c q now later (callAll later db [cmd]).1
        (.executed (callAll later db [cmd]).2)
  | exec (hq : q = .exec) (hmulti : c.multi = true) (hdirty : c.dirty = false) :
      Processed keyHashSlot sv c q now later (callAll later sv.db c.mstate).1
        (.executed (callAll later sv.db c.mstate).2)

omit [DecidableEq C] in
theorem processCommand_spec (sv : Server N K V) (c : RedisClient K V) (q : Request K V)
    (now later : ℤ) : (processCommand sv keyHashSlot c q now later).Ensures (fun _ => True)
      fun r => Processed keyHashSlot sv c q now later r.1.db r.2.2 := by
  have hredirect : (redirect sv keyHashSlot c q now).Ensures (fun _ => True) fun p =>
      Looked now sv.db p.1 ∧ (∀ reply, p.2 = some reply → (∀ calls, reply ≠ .executed calls) ∧
        ∀ n, reply = .ask n → ∃ k ∈ q.keys c, p.1 k = none) ∧
      (p.2 = none → (q.redirected = false ∧ p.1 = sv.db) ∨ (q.redirected = true ∧
        ∃ r, Answer sv.cluster keyHashSlot c q now sv.db r ∧ r.n = some sv.cluster.myself)) := by
    rw [redirect]
    split
    · rename_i hno
      refine ⟨Looked.refl now _, fun _ h => (by cases h), fun _ => Or.inl ⟨?_, rfl⟩⟩
      simpa using hno
    · rename_i hyes
      split
      · refine ⟨Looked.refl now _, fun reply h => ?_, fun h => (by cases h)⟩
        obtain rfl := Option.some_inj.mp h
        exact ⟨nofun, nofun⟩
      · have hexec : q = .exec → c.multi = true := by
          rintro rfl
          exact absurd (show Request.redirected (.exec : Request K V) = false from rfl)
            (by simpa using hyes)
        refine (getNodeByQuery_spec sv.cluster keyHashSlot sv.db c q now hexec).bind fun r hr => ?_
        split
        · refine ⟨hr.looked, fun reply h => ?_, fun h => (by cases h)⟩
          obtain rfl := Option.some_inj.mp h
          split <;> exact ⟨nofun, nofun⟩
        · rename_i n hn
          split
          · rename_i hmine
            refine ⟨hr.looked, fun _ h => (by cases h), fun _ => Or.inr ⟨?_, r, hr, ?_⟩⟩
            · simpa using hyes
            · rw [hn, hmine]
          · refine ⟨hr.looked, fun reply h => ?_, fun h => (by cases h)⟩
            obtain rfl := Option.some_inj.mp h
            split
            · rename_i hask
              exact ⟨nofun, fun _ _ => hr.asks hask⟩
            · exact ⟨nofun, nofun⟩
  refine hredirect.bind fun p hp => ?_
  obtain ⟨hlooked, hreply, hserved⟩ := hp
  split
  · rename_i reply hsome
    obtain ⟨hcalls, hask⟩ := hreply reply hsome
    exact .refused p.1 reply hlooked hcalls hask
  · rename_i hnone
    have hother : ∀ reply : Reply K V, (∀ calls, reply ≠ .executed calls) →
        (∀ n, reply ≠ .ask n) → Processed keyHashSlot sv c q now later p.1 reply :=
      fun reply hcalls hask => .refused p.1 reply hlooked hcalls fun n h => absurd h (hask n)
    cases q with
    | command cmd =>
      simp only [execute]
      split
      · exact hother _ nofun nofun
      · rename_i hmulti
        refine .command cmd p.1 rfl (by simpa using hmulti) hlooked ?_
        rcases hserved hnone with ⟨hno, -⟩ | ⟨-, hyes⟩
        · exact Or.inl (cmd.keys_of_noKeys (by simpa [Request.redirected] using hno))
        · exact Or.inr hyes
    | watch keys =>
      simp only [execute]
      split <;> exact hother _ nofun nofun
    | multi =>
      simp only [execute]
      split <;> exact hother _ nofun nofun
    | exec =>
      simp only [execute]
      split
      · rename_i hmulti
        split
        · exact hother _ nofun nofun
        · rename_i hdirty
          rcases hserved hnone with ⟨-, heq⟩ | ⟨hyes, -⟩
          · dsimp only
            rw [heq]
            exact .exec rfl hmulti (by simpa using hdirty)
          · cases hyes
      · exact hother _ nofun nofun
    | discard =>
      simp only [execute]
      split <;> exact hother _ nofun nofun
    | asking =>
      simp only [execute]
      split <;> exact hother _ nofun nofun

omit [DecidableEq K] in
theorem Whole.noteAsk (h : Whole keyHashSlot slot w) (c : C) {side : Side} {q : Request K V}
    {reply : Reply K V} (hask : ∀ cmd n, side = .owner → q = .command cmd → reply = .ask n →
      ∃ k ∈ cmd.keys, (w.server .owner).db k = none) :
    Whole keyHashSlot slot (w.noteAsk c side q reply) := by
  unfold Reshard.noteAsk
  split
  · rename_i cmd n
    obtain ⟨k, hk, hnone⟩ := hask cmd n rfl rfl rfl
    refine ⟨h.resharding, h.apart, fun c' cmd' hcmd => ?_, h.log⟩
    by_cases hc : c' = c
    · subst hc
      rw [show ({ w with asked := Function.update w.asked c' (cmd :: w.asked c') } :
        Reshard C N K V).asked c' = cmd :: w.asked c' from Function.update_self _ _ _] at hcmd
      rcases List.mem_cons.mp hcmd with rfl | hcmd
      · exact ⟨k, hk, fun _ => hnone⟩
      · exact h.asked c' cmd' hcmd
    · rw [show ({ w with asked := Function.update w.asked c (cmd :: w.asked c) } :
        Reshard C N K V).asked c' = w.asked c' from Function.update_of_ne hc _ _] at hcmd
      exact h.asked c' cmd' hcmd
  · exact h

omit [DecidableEq C] [DecidableEq K] in
theorem Whole.noteCalls (h : Whole keyHashSlot slot w) {side : Side} {reply : Reply K V}
    (hcalls : ∀ calls, reply = .executed calls → ∀ p ∈ calls, ∀ k ∈ p.1.keys,
      keyHashSlot k = slot → (w.server side.other).db k = none) :
    Whole keyHashSlot slot (w.noteCalls side reply) := by
  unfold Reshard.noteCalls
  split
  · rename_i calls
    refine ⟨h.resharding, h.apart, h.asked, fun x hx k hk hslot hthere => ?_⟩
    rcases List.mem_append.mp hx with hx | hx
    · obtain ⟨p, hp, rfl⟩ := List.mem_map.mp hx
      exact absurd (hcalls calls rfl p hp k hk hslot) hthere
    · exact h.log x hx k hk hslot hthere
  · exact h

omit [DecidableEq C] [DecidableEq K] in
/-- A request that `getNodeByQuery` serves: the other node has none of its keys, and the
owner has all of them. -/
theorem Whole.served (h : Whole keyHashSlot slot w) (c : C) {side : Side} {q : Request K V}
    {cl : RedisClient K V} {now : ℤ} {r : QueryResult K V}
    (hr : Answer (w.server side).cluster keyHashSlot cl q now (w.server side).db r)
    (hn : r.n = some (w.server side).cluster.myself)
    (hasked : side = .target → cl.asking = true ∨ q.askingFlag = true →
      ∃ cmd ∈ w.asked c, ∀ k ∈ cmd.keys, k ∈ q.keys cl) :
    ∀ k ∈ q.keys cl, keyHashSlot k = slot →
      (side = .owner → (w.server .owner).db k ≠ none) ∧ (w.server side.other).db k = none := by
  intro k hk hslot
  have hold : Present now r.db k → (w.server side).db k ≠ none := by
    intro hpresent
    rcases hr.looked.eq_or k with heq | heq
    · exact heq ▸ hpresent.ne_none
    · exact absurd heq hpresent.ne_none
  cases side with
  | owner =>
    obtain ⟨n, hto, hne⟩ := h.resharding.migrating
    have hhere := hold (hr.migrating slot n h.resharding.owned hto hne hn ⟨k, hk, hslot⟩ k hk)
    exact ⟨fun _ => hhere, (h.apart k hslot).resolve_left hhere⟩
  | target =>
    obtain ⟨n, howner, hne, hno⟩ := h.resharding.foreign
    obtain ⟨hasking, hkeys⟩ :=
      hr.importing slot n howner hne h.resharding.importing hno hn ⟨k, hk, hslot⟩
    refine ⟨nofun, ?_⟩
    rcases hkeys with hall | hsingle
    · exact (h.apart k hslot).resolve_right (hold (hall k hk))
    · -- the client was sent on for this key, which the owner has not got since
      obtain ⟨cmd, hcmd, hsub⟩ := hasked rfl hasking
      obtain ⟨k', hk', hnone⟩ := h.asked c cmd hcmd
      rw [hsingle k hk k' (hsub k' hk')]
      exact hnone (by rw [← hsingle k hk k' (hsub k' hk'), hslot])

omit [DecidableEq C] [DecidableEq K] in
theorem Whole.executed (h : Whole keyHashSlot slot w) {side : Side} {db : Keyspace K V}
    {cmds : List (RedisCommand K V)} {now : ℤ} (later : ℤ)
    (hlooked : Looked now (w.server side).db db)
    (hkeys : ∀ k ∈ cmds.flatMap RedisCommand.keys, keyHashSlot k = slot →
      (side = .owner → (w.server .owner).db k ≠ none) ∧ (w.server side.other).db k = none) :
    Whole keyHashSlot slot (w.setDb side (callAll later db cmds).1) := by
  refine h.setDb fun k hslot hk => ?_
  by_cases hmem : k ∈ cmds.flatMap RedisCommand.keys
  · obtain ⟨howner, hother⟩ := hkeys k hmem hslot
    cases side with
    | owner => exact Or.inl (howner rfl)
    | target => exact Or.inr ⟨rfl, hother⟩
  · rw [(callAll_spec later db cmds).1 k hmem] at hk
    rcases hlooked.eq_or k with heq | heq
    · exact Or.inl (heq ▸ hk)
    · exact absurd heq hk

theorem Whole.request (h : Whole keyHashSlot slot w) {c : C} {side : Side} {q : Request K V}
    {now later : ℤ} {db : Keyspace K V} {reply : Reply K V} (cl : RedisClient K V)
    (hrule : FollowsAsk w (.request c side q now later))
    (hcheck : Rechecked keyHashSlot w (.request c side q now later))
    (hp : Processed keyHashSlot (w.server side) (w.client c side) q now later db reply) :
    Whole keyHashSlot slot ((((w.setDb side db).setClient c side cl).noteAsk c side q
      reply).noteCalls side reply) := by
  -- execution of commands whose keys are not with the other node
  have hexecuted : ∀ (db : Keyspace K V) (cmds : List (RedisCommand K V)),
      Looked now (w.server side).db db → (∀ k ∈ cmds.flatMap RedisCommand.keys,
        keyHashSlot k = slot → (side = .owner → (w.server .owner).db k ≠ none) ∧
          (w.server side.other).db k = none) →
      Whole keyHashSlot slot ((((w.setDb side (callAll later db cmds).1).setClient c side
        cl).noteAsk c side q (.executed (callAll later db cmds).2)).noteCalls side
          (.executed (callAll later db cmds).2)) := by
    intro db cmds hlooked hkeys
    have hnote : (((w.setDb side (callAll later db cmds).1).setClient c side cl).noteAsk c side q
        (.executed (callAll later db cmds).2))
          = (w.setDb side (callAll later db cmds).1).setClient c side cl := by
      cases side <;> cases q <;> rfl
    have hother : (((w.setDb side (callAll later db cmds).1).setClient c side cl).server
        side.other) = w.server side.other :=
      setDb_server_of_ne w (by cases side <;> simp [Side.other]) _
    rw [hnote]
    refine ((h.executed later hlooked hkeys).setClient c side cl).noteCalls ?_
    intro calls hcalls p hp k hk hslot
    rw [hother]
    cases hcalls
    have hcmd := (callAll_spec later db cmds).2 p hp
    exact (hkeys k (List.mem_flatMap.mpr ⟨p.1, hcmd, hk⟩) hslot).2
  cases hp with
  | refused _ _ hlooked hcalls hask =>
    refine (((h.looked hlooked).setClient c side cl).noteAsk c ?_).noteCalls ?_
    · rintro cmd n rfl rfl hreply
      obtain ⟨k, hk, hnone⟩ := hask n hreply
      have hdb : (((w.setDb .owner db).setClient c .owner cl).server .owner).db = db :=
        congrArg Server.db (setDb_server_self w .owner db)
      exact ⟨k, hk, by rw [hdb, hnone]⟩
    · exact fun calls hreply => absurd hreply (hcalls calls)
  | command cmd db' hq hmulti hlooked hchecked =>
    subst hq
    refine hexecuted db' [cmd] hlooked fun k hk hslot => ?_
    have hk' : k ∈ cmd.keys := by simpa using hk
    rcases hchecked with hempty | ⟨r, hr, hn⟩
    · rw [hempty] at hk'
      exact absurd hk' List.not_mem_nil
    · refine h.served c hr hn ?_ k hk' hslot
      rintro rfl hasking
      exact ⟨cmd, hrule hmulti hasking, fun _ => id⟩
  | exec hq hmulti hdirty =>
    subst hq
    obtain ⟨r, hquery, hn⟩ := hcheck hmulti hdirty
    have hr := (getNodeByQuery_spec (w.server side).cluster keyHashSlot (w.server side).db
      (w.client c side) .exec now fun _ => hmulti).of_eq_ok hquery
    refine hexecuted (w.server side).db (w.client c side).mstate (Looked.refl now _)
      fun k hk hslot => ?_
    refine h.served c hr hn ?_ k hk hslot
    rintro rfl hasking
    obtain ⟨cmd, hcmd, hasked⟩ := hrule hmulti (by simpa [Request.askingFlag] using hasking)
    exact ⟨cmd, hasked, fun k hk => List.mem_flatMap.mpr ⟨cmd, hcmd, hk⟩⟩

theorem Whole.step {w' : Reshard C N K V} (event : ReshardEvent C K V)
    (h : Whole keyHashSlot slot w) (hrule : FollowsAsk w event ∧ Rechecked keyHashSlot w event)
    (hstep : reshardStep keyHashSlot w event = some w') : Whole keyHashSlot slot w' := by
  cases event with
  | request c side q now later =>
    obtain ⟨r, hr, rfl⟩ := Option.map_eq_some_iff.mp hstep
    exact h.request r.2.1 hrule.1 hrule.2 ((processCommand_spec (w.server side) (w.client c side) q now
      later).of_eq_ok (toOption_eq_some.mp hr))
  | migrate key now replace =>
    obtain rfl := Option.some_inj.mp hstep
    exact h.migrateKey key now replace
  | expire side key now =>
    obtain rfl := Option.some_inj.mp hstep
    exact h.looked (lookupKeyRead_spec (w.server side).db now key).1
  | touch c side =>
    obtain rfl := Option.some_inj.mp hstep
    exact h.setClient c side _
  | reconnect c side =>
    obtain rfl := Option.some_inj.mp hstep
    exact h.setClient c side _

/-! ### Runs -/

omit [DecidableEq C] [DecidableEq K] in
/-- The start: the slot is being moved, none of its keys is on both nodes, and no command was
answered. -/
structure Start (keyHashSlot : K → Slot) (slot : Slot) (w : Reshard C N K V) : Prop where
  resharding : Resharding slot (w.server .owner).cluster (w.server .target).cluster
  apart : ∀ k, keyHashSlot k = slot →
    (w.server .owner).db k = none ∨ (w.server .target).db k = none
  asked : ∀ c, w.asked c = []
  log : w.log = []

/-- If `EXEC` is only sent when `getNodeByQuery` would serve it, no key of the slot is ever on
both nodes, and every command was executed by a node with all of its keys that exist. -/
theorem run_whole {w' : Reshard C N K V} {es : List (ReshardEvent C K V)}
    (hstart : Start keyHashSlot slot w)
    (hrules : Runs.AllSteps (reshardStep keyHashSlot)
      (fun w event => FollowsAsk w event ∧ Rechecked keyHashSlot w event) w es)
    (hrun : Runs.run (reshardStep keyHashSlot) w es = some w') :
    (∀ k, keyHashSlot k = slot →
      (w'.server .owner).db k = none ∨ (w'.server .target).db k = none) ∧
      ∀ x ∈ w'.log, ∀ k ∈ x.command.keys, keyHashSlot k = slot →
        x.there k ≠ none → x.here k ≠ none := by
  have hwhole : Whole keyHashSlot slot w := by
    refine ⟨hstart.resharding, hstart.apart, fun c cmd hcmd => ?_, fun x hx => ?_⟩
    · rw [hstart.asked c] at hcmd
      exact absurd hcmd List.not_mem_nil
    · rw [hstart.log] at hx
      exact absurd hx List.not_mem_nil
  have h := Runs.run_invariant_of_allSteps (fun _ event _ => Whole.step event) hwhole hrules hrun
  exact ⟨h.apart, h.log⟩

end

/-! ### A transaction on a key that moves -/

/-- A command that writes a key. -/
def setCommand (key value : ℕ) : RedisCommand ℕ ℕ where
  keys := [key]
  noKeys := false
  readonly := false
  asking := false
  proc := fun _ db => Function.update db key (some ⟨value, none⟩)
  keys_of_noKeys := nofun
  proc_of_notMem := fun _ _ _ hk => Function.update_of_ne (by simpa using hk) _ _

/-- The state of a node that knows the owner at address 0 and the other node at address 1. -/
def reshardState (side : Side) : ClusterState ℕ :=
  { ClusterState.clusterInit 0 with
    myself := match side with
      | .owner => 0
      | .target => 1
    heap := fun r => some (createClusterNode 0 r ClusterState.masterFlags)
    slots := fun _ => some 0
    migratingSlotsTo := match side with
      | .owner => fun _ => some 1
      | .target => fun _ => none
    importingSlotsFrom := match side with
      | .owner => fun _ => none
      | .target => fun _ => some 0 }

/-- The owner has the key 7. -/
def oneKey : Reshard Unit ℕ ℕ ℕ where
  server := fun side => match side with
    | .owner => ⟨reshardState .owner, true, Function.update (fun _ => none) 7 (some ⟨1, none⟩)⟩
    | .target => ⟨reshardState .target, true, fun _ => none⟩
  client := fun _ _ => newClient
  asked := fun _ => []
  log := []

def zeroSlot (_ : ℕ) : Slot := 0

theorem start_oneKey : Start zeroSlot 0 oneKey := by
  refine ⟨⟨rfl, ⟨1, rfl, by decide⟩, rfl, ⟨0, rfl, by decide, rfl⟩⟩, fun _ _ => Or.inr rfl,
    fun _ => rfl, rfl⟩

/-- A key is written on its owner, moves and is written again where it is; a key that does not
exist is written on the other node. -/
def movedKey : List (ReshardEvent Unit ℕ ℕ) :=
  [.request () .owner (.command (setCommand 7 2)) 0 0, .migrate 7 0 false,
    .request () .owner (.command (setCommand 7 3)) 0 0, .request () .target .asking 0 0,
    .request () .target (.command (setCommand 7 3)) 0 0]

/-- The key is on the other node and nowhere else. -/
theorem run_movedKey : ∃ w, Runs.run (reshardStep zeroSlot) oneKey movedKey = some w ∧
    (w.server .target).db 7 = some ⟨3, none⟩ ∧ w.log.length = 2 ∧
    (∀ k, zeroSlot k = 0 → (w.server .owner).db k = none ∨ (w.server .target).db k = none) ∧
      ∀ x ∈ w.log, ∀ k ∈ x.command.keys, zeroSlot k = 0 → x.there k ≠ none → x.here k ≠ none := by
  have hrun : ∃ w, (Runs.AllSteps (reshardStep zeroSlot)
        (fun w event => FollowsAsk w event ∧ Rechecked zeroSlot w event) oneKey movedKey ∧
      Runs.run (reshardStep zeroSlot) oneKey movedKey = some w) ∧
      (w.server .target).db 7 = some ⟨3, none⟩ ∧ w.log.length = 2 :=
    ⟨_,
      Runs.AllSteps.run_cons ⟨trivial, trivial⟩ rfl <|
      Runs.AllSteps.run_cons ⟨trivial, trivial⟩ rfl <|
      Runs.AllSteps.run_cons ⟨trivial, trivial⟩ rfl <|
      Runs.AllSteps.run_cons ⟨trivial, trivial⟩ rfl <|
      Runs.AllSteps.run_cons ⟨fun _ _ => List.mem_cons_self, trivial⟩ rfl <|
      ⟨trivial, rfl⟩, rfl, rfl⟩
  obtain ⟨w, ⟨hrules, hrun⟩, hkey, hlog⟩ := hrun
  exact ⟨w, hrun, hkey, hlog, run_whole start_oneKey hrules hrun⟩

/-- A transaction is queued while the key is on its owner, and executed after it moved. -/
def splitKey : List (ReshardEvent Unit ℕ ℕ) :=
  [.request () .owner .multi 0 0, .request () .owner (.command (setCommand 7 2)) 0 0,
    .migrate 7 0 false, .request () .owner .exec 0 0]

/-- The key is on both nodes, with different values. -/
theorem run_splitKey : Start zeroSlot 0 oneKey ∧
    ∃ w, (Runs.AllSteps (reshardStep zeroSlot) FollowsAsk oneKey splitKey ∧
      Runs.run (reshardStep zeroSlot) oneKey splitKey = some w) ∧
      (w.server .owner).db 7 = some ⟨2, none⟩ ∧ (w.server .target).db 7 = some ⟨1, none⟩ :=
  ⟨start_oneKey, _,
    Runs.AllSteps.run_cons trivial rfl <|
    Runs.AllSteps.run_cons trivial rfl <|
    Runs.AllSteps.run_cons trivial rfl <|
    Runs.AllSteps.run_cons trivial rfl <|
    ⟨trivial, rfl⟩, rfl, rfl⟩

end Cluster

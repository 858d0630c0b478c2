/-
The indexes of the keys over whole runs.

* `Kept` — what a command keeps: the indexes agree, and in cluster mode there are no keys
  outside of database 0;
* `Sound.step` — every step does, and none of its assertions fails;
* `run_keyspace` — so do all runs, and what `countKeysInSlot`, `getKeysInSlot` and
  `delKeysInSlot` then return;
* `run_manyKeys` — with 2^32 keys in a slot the counters wrap.
-/
import RedisModel.KeyspaceSpec
import RedisModel.KeyspaceCommand
import RedisModel.Runs

open Except ByteBuffer SkipChain Zskiplist

namespace RedisServer

section
variable {C V : Type} {s s₀ : RedisServer C V} {d : ℕ} {key : Bytes}

/-! ### What commands keep -/

/-- The state `s` of a command on database `d` that began in `s₀`. -/
structure Kept (s₀ : RedisServer C V) (d : ℕ) (s : RedisServer C V) : Prop where
  indexed : Indexed s
  only : s.clusterEnabled = true → ∀ d ≠ 0, ∀ k, (s.db d).dict k = none
  zero : s.clusterEnabled = true → d = 0
  dbnum : s.dbnum = s₀.dbnum
  clusterEnabled : s.clusterEnabled = s₀.clusterEnabled
  selected : ∀ c, (s.client c).db = (s₀.client c).db

theorem Kept.step {s' : RedisServer C V} {db : RedisDb C V} (h : Kept s₀ d s)
    (hindexed : Indexed s') (hrest : Rest s s') (hdb : s'.db = (s.setDb d db).db) :
    Kept s₀ d s' := by
  refine ⟨hindexed, fun hcluster d' hd' k => ?_, fun hcluster => ?_, hrest.dbnum.trans h.dbnum,
    hrest.clusterEnabled.trans h.clusterEnabled, fun c => ?_⟩
  · rw [hrest.clusterEnabled] at hcluster
    rw [hdb, setDb_of_ne s fun heq => hd' (heq.trans (h.zero hcluster))]
    exact h.only hcluster d' hd' k
  · rw [hrest.clusterEnabled] at hcluster
    exact h.zero hcluster
  · rw [hrest.client]
    exact h.selected c

theorem Kept.signal [DecidableEq C] (h : Kept s₀ d s) (d' : ℕ) (key : Bytes) :
    Kept s₀ d (signalModifiedKey s d' key) := by
  refine ⟨⟨h.indexed.expires, fun hcluster => ?_⟩, h.only, h.zero, h.dbnum, h.clusterEnabled,
    fun c => ?_⟩
  · obtain ⟨L, hL⟩ := h.indexed.index hcluster
    exact ⟨L, hL.congr rfl rfl fun _ => rfl⟩
  · rw [← h.selected c]
    unfold signalModifiedKey touchWatchedKey
    dsimp only
    split <;> rfl

theorem Kept.lookup (h : Kept s₀ d s) (key : Bytes) (now : ℤ) :
    (lookupKeyWrite s d key now).Ensures (fun _ => False) fun r => Kept s₀ d r.1 ∧
      r.2 = (r.1.db d).dict key ∧ ∀ k ≠ key, (r.1.db d).dict k = (s.db d).dict k := by
  refine (lookupKeyWrite_spec h.indexed h.zero key now).imp fun r hr => ?_
  obtain ⟨hindexed, hrest, hdb, hval⟩ := hr
  refine ⟨h.step hindexed hrest hdb, hval, fun k hk => ?_⟩
  rw [hdb, setDb_self, afterExpire]
  split
  · exact Function.update_of_ne hk _ _
  · rfl

theorem Kept.add (h : Kept s₀ d s) (hkey : (s.db d).dict key = none) (val : V) :
    (dbAdd s d key val).Ensures (fun _ => False) fun r => Kept s₀ d r ∧
      ((r.db d).dict key).isSome ∧ ∀ k ≠ key, (r.db d).dict k = (s.db d).dict k := by
  refine (dbAdd_spec h.indexed h.zero hkey val).imp fun r hr => ?_
  obtain ⟨hindexed, hrest, hdb⟩ := hr
  refine ⟨h.step hindexed hrest hdb, ?_, fun k hk => ?_⟩
  · rw [hdb, setDb_self]
    simp
  · rw [hdb, setDb_self]
    exact Function.update_of_ne hk _ _

theorem Kept.overwrite (h : Kept s₀ d s) (hkey : ((s.db d).dict key).isSome) (val : V) :
    (dbOverwrite s d key val).Ensures (fun _ => False) fun r => Kept s₀ d r ∧
      ∀ k, ((r.db d).dict k).isSome = ((s.db d).dict k).isSome := by
  refine (dbOverwrite_spec h.indexed hkey val).imp fun r hr => ?_
  obtain ⟨hindexed, hrest, hdb⟩ := hr
  refine ⟨h.step hindexed hrest hdb, fun k => ?_⟩
  rw [hdb, setDb_self, isSome_update]
  split
  · rename_i hk
    rw [hk, hkey]
    rfl
  · rfl

theorem Kept.delete (h : Kept s₀ d s) (key : Bytes) :
    (dbDelete s d key).Ensures (fun _ => False) fun r => Kept s₀ d r.1 ∧
      (r.1.db d).dict key = none ∧ r.2 = ((s.db d).dict key).isSome ∧
      ∀ k ≠ key, (r.1.db d).dict k = (s.db d).dict k := by
  refine (dbDelete_spec h.indexed h.zero key).imp fun r hr => ?_
  obtain ⟨hindexed, hrest, hdb, hthere⟩ := hr
  refine ⟨h.step hindexed hrest hdb, ?_, hthere, fun k hk => ?_⟩
  · rw [hdb, setDb_self]
    exact Function.update_self _ _ _
  · rw [hdb, setDb_self]
    exact Function.update_of_ne hk _ _

theorem Kept.setExpire (h : Kept s₀ d s) (hkey : ((s.db d).dict key).isSome) (when : ℤ) :
    (setExpire s d key when).Ensures (fun _ => False) fun r => Kept s₀ d r ∧
      (r.db d).dict = (s.db d).dict := by
  refine (setExpire_spec h.indexed hkey when).imp fun r hr => ?_
  obtain ⟨hindexed, hrest, hdb⟩ := hr
  exact ⟨h.step hindexed hrest hdb, by rw [hdb, setDb_self]⟩

theorem Kept.removeExpire (h : Kept s₀ d s) (hkey : ((s.db d).dict key).isSome) :
    (removeExpire s d key).Ensures (fun _ => False) fun r => Kept s₀ d r.1 ∧
      (r.1.db d).dict = (s.db d).dict := by
  refine (removeExpire_spec h.indexed hkey).imp fun r hr => ?_
  obtain ⟨hindexed, hrest, hdb, -⟩ := hr
  exact ⟨h.step hindexed hrest hdb, by rw [hdb, setDb_self]⟩

/-! ### Parts of commands -/

theorem Kept.lookupKeys (h : Kept s₀ d s) (now : ℤ) (keys : List Bytes) :
    (lookupKeys s d now keys).Ensures (fun _ => False) fun r => Kept s₀ d r.1 := by
  induction keys generalizing s with
  | nil => exact h
  | cons key keys ih =>
    refine (h.lookup key now).bind fun r hr => ?_
    exact (ih hr.1).bind fun _ hrs => hrs

theorem Kept.lookupSets (h : Kept s₀ d s) (now : ℤ) (keys : List Bytes) :
    (lookupSets s d now keys).Ensures (fun _ => False) fun r => Kept s₀ d r.1 := by
  induction keys generalizing s with
  | nil => exact h
  | cons key keys ih =>
    refine (h.lookup key now).bind fun r hr => ?_
    split
    · exact hr.1
    · exact (ih hr.1).bind fun _ hrs => hrs

theorem Kept.store (h : Kept s₀ d s) {old : Option V} (hold : old = (s.db d).dict key) (val : V) :
    (dbStore s d key old val).Ensures (fun _ => False) fun r => Kept s₀ d r ∧
      ((r.db d).dict key).isSome ∧
      ∀ k ≠ key, ((r.db d).dict k).isSome = ((s.db d).dict k).isSome := by
  unfold dbStore
  split
  · refine (h.add hold.symm val).imp fun r hr => ⟨hr.1, hr.2.1, fun k hk => ?_⟩
    rw [hr.2.2 k hk]
  · have hkey : ((s.db d).dict key).isSome := by
      rw [← hold]
      rfl
    refine (h.overwrite hkey val).imp fun r hr => ⟨hr.1, ?_, fun k _ => hr.2 k⟩
    rw [hr.2]
    exact hkey

theorem Kept.leaveKey (h : Kept s₀ d s) {src : Bytes} (hsrc : ((s.db d).dict src).isSome)
    (left : Outcome V) :
    (leaveKey s d src left).Ensures (fun _ => False) fun r => Kept s₀ d r ∧
      ∀ k ≠ src, ((r.db d).dict k).isSome = ((s.db d).dict k).isSome := by
  cases left with
  | keep => exact ⟨h, fun _ _ => rfl⟩
  | store val => exact (h.overwrite hsrc val).imp fun r hr => ⟨hr.1, fun k _ => hr.2 k⟩
  | remove =>
    refine (h.delete src).bind fun r hr => ⟨hr.1, fun k hk => ?_⟩
    rw [hr.2.2.2 k hk]

variable [DecidableEq C]

theorem Kept.setKey (h : Kept s₀ d s) (key : Bytes) (val : V) (now : ℤ) :
    (setKey s d key val now).Ensures (fun _ => False) fun r => Kept s₀ d r ∧
      ((r.db d).dict key).isSome := by
  refine (h.lookup key now).bind fun r hr => ?_
  obtain ⟨hkept, hval, -⟩ := hr
  have hstore := hkept.store hval val
  have hcases : (if r.2.isNone = true then dbAdd r.1 d key val else dbOverwrite r.1 d key val)
      = dbStore r.1 d key r.2 val := by
    unfold dbStore
    cases r.2 <;> rfl
  rw [hcases]
  refine hstore.bind fun s' hs' => ?_
  refine (hs'.1.removeExpire hs'.2.1).bind fun r' hr' => ⟨hr'.1.signal d key, ?_⟩
  show ((r'.1.db d).dict key).isSome = true
  rw [hr'.2]
  exact hs'.2.1

theorem Kept.deleteSignal (h : Kept s₀ d s) (key : Bytes) :
    (deleteSignal s d key).Ensures (fun _ => False) (Kept s₀ d) := by
  refine (h.delete key).bind fun r hr => ?_
  show Kept s₀ d (if r.2 = true then _ else _)
  split
  · exact hr.1.signal d key
  · exact hr.1

theorem Kept.replaceKey (h : Kept s₀ d s) (dst : Bytes) (result : Option V) :
    (replaceKey s d dst result).Ensures (fun _ => False) (Kept s₀ d) := by
  refine (h.delete dst).bind fun r hr => ?_
  cases result with
  | none => exact hr.1.signal d dst
  | some val => exact (hr.1.add hr.2.1 val).bind fun s' hs' => hs'.1.signal d dst

theorem Kept.handlePush (h : Kept s₀ d s) {dstkey : Bytes} {dstobj : Option V}
    (hold : dstobj = (s.db d).dict dstkey) (val : V) :
    (rpoplpushHandlePush s d dstkey dstobj val).Ensures (fun _ => False) fun r => Kept s₀ d r ∧
      ∀ k, ((s.db d).dict k).isSome → ((r.db d).dict k).isSome := by
  refine (h.store hold val).bind fun r hr => ⟨hr.1.signal d dstkey, fun k hk => ?_⟩
  show ((r.db d).dict k).isSome = true
  by_cases hkey : k = dstkey
  · rw [hkey]
    exact hr.2.1
  · rw [hr.2.2 k hkey]
    exact hk

/-! ### Commands -/

theorem Kept.setGenericCommand (h : Kept s₀ d s) (key : Bytes) (val : V) (nx xx : Bool)
    (milliseconds : Option ℤ) (now : ℤ) :
    (setGenericCommand s d key val nx xx milliseconds now).Ensures (fun _ => False) (Kept s₀ d) := by
  unfold RedisServer.setGenericCommand
  split
  · exact h
  · have hlookup : (if (nx || xx) = true then lookupKeyWrite s d key now else .ok (s, none)).Ensures
        (fun _ => False) fun r => Kept s₀ d r.1 := by
      split
      · exact (h.lookup key now).imp fun r hr => hr.1
      · exact h
    refine hlookup.bind fun r hr => ?_
    split
    · exact hr
    · refine (hr.setKey key val now).bind fun s' hs' => ?_
      split
      · exact (hs'.1.setExpire hs'.2 _).imp fun _ hr => hr.1
      · exact hs'.1

theorem Kept.getsetCommand (h : Kept s₀ d s) (key : Bytes) (val : V) (isString : V → Bool)
    (now : ℤ) :
    (getsetCommand s d key val isString now).Ensures (fun _ => False) (Kept s₀ d) := by
  refine (h.lookup key now).bind fun r hr => ?_
  split
  · exact (hr.1.setKey key val now).imp fun _ hr => hr.1
  · exact hr.1

theorem Kept.setKeys (h : Kept s₀ d s) (pairs : List (Bytes × V)) (now : ℤ) :
    (setKeys s d pairs now).Ensures (fun _ => False) (Kept s₀ d) :=
  Ensures.foldlM (fun _ p _ hs => (hs.setKey p.1 p.2 now).imp fun _ hr => hr.1) h

theorem Kept.msetGenericCommand (h : Kept s₀ d s) (pairs : List (Bytes × V)) (nx : Bool) (now : ℤ) :
    (msetGenericCommand s d pairs nx now).Ensures (fun _ => False) (Kept s₀ d) := by
  unfold RedisServer.msetGenericCommand
  split
  · refine (h.lookupKeys now _).bind fun r hr => ?_
    split
    · exact hr
    · exact hr.setKeys pairs now
  · exact h.setKeys pairs now

theorem Kept.incrDecrCommand (h : Kept s₀ d s) (key : Bytes) (new : Option V → Option V) (now : ℤ) :
    (incrDecrCommand s d key new now).Ensures (fun _ => False) (Kept s₀ d) := by
  refine (h.lookup key now).bind fun r hr => ?_
  split
  · exact hr.1
  · exact (hr.1.store hr.2.1 _).bind fun _ hs => hs.1.signal d key

theorem Kept.updateCommand (h : Kept s₀ d s) (sources : List Bytes) (key : Bytes)
    (f : List (Option V) → Option V → Outcome V) (now : ℤ) :
    (updateCommand s d sources key f now).Ensures (fun _ => False) (Kept s₀ d) := by
  refine (h.lookupKeys now sources).bind fun rs hrs => ?_
  refine (hrs.lookup key now).bind fun r hr => ?_
  split
  · exact hr.1
  · exact (hr.1.store hr.2.1 _).bind fun _ hs => hs.1.signal d key
  · exact (hr.1.delete key).bind fun _ hs => hs.1.signal d key

theorem Kept.pfaddCommand (h : Kept s₀ d s) (key : Bytes) (new : V)
    (add : V → Option (PfaddResult V)) (now : ℤ) :
    (pfaddCommand s d key new add now).Ensures (fun _ => False) (Kept s₀ d) := by
  refine (h.lookup key now).bind fun r hr => ?_
  split
  · exact hr.1
  · rename_i p hadd
    have hstore : (if (p.val.isSome || r.2.isNone) = true then
        dbStore r.1 d key r.2 (p.val.getD (r.2.getD new)) else .ok r.1).Ensures (fun _ => False)
        (Kept s₀ d) := by
      split
      · exact (hr.1.store hr.2.1 _).imp fun _ hs => hs.1
      · exact hr.1
    refine hstore.bind fun s' hs' => ?_
    split
    · exact hs'
    · show Kept s₀ d (if _ then _ else _)
      split
      · exact hs'.signal d key
      · exact hs'

omit [DecidableEq C] in
theorem Kept.pfdebugCommand (h : Kept s₀ d s) (key : Bytes) (toDense : V → Option V) (now : ℤ) :
    (pfdebugCommand s d key toDense now).Ensures (fun _ => False) (Kept s₀ d) := by
  refine (h.lookup key now).bind fun r hr => ?_
  split
  · exact hr.1
  · rename_i val hsome
    have hkey : ((r.1.db d).dict key).isSome := by
      rw [← hr.2.1, Option.isSome_iff_ne_none]
      intro hnone
      rw [hnone] at hsome
      exact absurd hsome (by simp)
    exact (hr.1.overwrite hkey val).imp fun _ hs => hs.1

theorem Kept.smoveCommand (h : Kept s₀ d s) (src dst : Bytes)
    (move : V → Option V → Option (Outcome V × V)) (now : ℤ) :
    (smoveCommand s d src dst move now).Ensures (fun _ => False) (Kept s₀ d) := by
  refine (h.lookup src now).bind fun r hr => ?_
  refine (hr.1.lookup dst now).bind fun r' hr' => ?_
  split
  · exact hr'.1
  · rename_i srcset hsome
    split
    · exact hr'.1
    · rename_i hne
      have hsrc : ((r'.1.db d).dict src).isSome := by
        rw [hr'.2.2 src hne, ← hr.2.1, hsome]
        rfl
      split
      · exact hr'.1
      · rename_i left dstset hmove
        refine (hr'.1.leaveKey hsrc left).bind fun s' hs' => ?_
        have hkept := (hs'.1.signal d src).signal d dst
        have hdst : (r'.2.isSome) = (((signalModifiedKey (signalModifiedKey s' d src) d dst).db
            d).dict dst).isSome := by
          rw [hr'.2.1]
          exact (hs'.2 dst (Ne.symm hne)).symm
        unfold dbStore
        split
        · refine (hkept.add ?_ dstset).imp fun _ hr => hr.1
          rename_i hnone
          rw [hnone] at hdst
          simpa using hdst.symm
        · refine (hkept.overwrite ?_ dstset).imp fun _ hr => hr.1
          rename_i hsome
          rw [hsome] at hdst
          exact hdst.symm

theorem Kept.rpoplpushCommand (h : Kept s₀ d s) (src dst : Bytes) (pop : V → Option (Outcome V))
    (push : V → Option V → Option V) (rotate : V → V) (now : ℤ) :
    (rpoplpushCommand s d src dst pop push rotate now).Ensures (fun _ => False) (Kept s₀ d) := by
  refine (h.lookup src now).bind fun r hr => ?_
  split
  · exact hr.1
  · rename_i sobj hsome
    split
    · exact hr.1
    · rename_i left hpop
      refine (hr.1.lookup dst now).bind fun r' hr' => ?_
      split
      · exact hr'.1
      · split
        · exact (hr'.1.handlePush hr'.2.1 _).bind fun s' hs' => hs'.1.signal d src
        · rename_i hne
          refine (hr'.1.handlePush hr'.2.1 _).bind fun s' hs' => ?_
          have hsrc : ((s'.db d).dict src).isSome := by
            refine hs'.2 src ?_
            rw [hr'.2.2 src hne, ← hr.2.1, hsome]
            rfl
          exact (hs'.1.leaveKey hsrc left).bind fun _ hs => hs.1.signal d src

theorem Kept.sinterGenericCommand (h : Kept s₀ d s) (sources : List Bytes) (dst : Bytes)
    (inter : List V → Option (Option V)) (now : ℤ) :
    (sinterGenericCommand s d sources dst inter now).Ensures (fun _ => False) (Kept s₀ d) := by
  refine (h.lookupSets now sources).bind fun rs hrs => ?_
  split
  · exact hrs.deleteSignal dst
  · split
    · exact hrs
    · exact hrs.replaceKey dst _

theorem Kept.sunionDiffGenericCommand (h : Kept s₀ d s) (sources : List Bytes) (dst : Bytes)
    (f : List (Option V) → Option (Option V)) (now : ℤ) :
    (sunionDiffGenericCommand s d sources dst f now).Ensures (fun _ => False) (Kept s₀ d) := by
  refine (h.lookupKeys now sources).bind fun rs hrs => ?_
  split
  · exact hrs
  · exact hrs.replaceKey dst _

theorem Kept.zunionInterGenericCommand (h : Kept s₀ d s) (sources : List Bytes) (dst : Bytes)
    (f : List (Option V) → Option (Option V)) (now : ℤ) :
    (zunionInterGenericCommand s d sources dst f now).Ensures (fun _ => False) (Kept s₀ d) := by
  refine (h.lookupKeys now sources).bind fun rs hrs => ?_
  split
  · exact hrs
  · refine (hrs.delete dst).bind fun r hr => ?_
    have hkept : Kept s₀ d (if r.2 = true then signalModifiedKey r.1 d dst else r.1) := by
      split
      · exact hr.1.signal d dst
      · exact hr.1
    dsimp only
    split
    · exact hkept
    · refine (hkept.add ?_ _).bind fun s' hs' => ?_
      · rw [show ((if r.2 = true then signalModifiedKey r.1 d dst else r.1).db d).dict dst
          = (r.1.db d).dict dst by split <;> rfl]
        exact hr.2.1
      · show Kept s₀ d (if r.2 = true then _ else _)
        split
        · exact hs'.1
        · exact hs'.1.signal d dst

theorem Kept.sortCommand (h : Kept s₀ d s) (sources : List Bytes) (dst : Bytes)
    (f : List (Option V) → Option (Option V)) (now : ℤ) :
    (sortCommand s d sources dst f now).Ensures (fun _ => False) (Kept s₀ d) := by
  refine (h.lookupKeys now sources).bind fun rs hrs => ?_
  split
  · exact hrs
  · exact (hrs.setKey dst _ now).imp fun _ hr => hr.1
  · exact hrs.deleteSignal dst

theorem Kept.restoreCommand (h : Kept s₀ d s) (key : Bytes) (val : V) (ttl : ℤ) (replace : Bool)
    (now : ℤ) :
    (restoreCommand s d key val ttl replace now).Ensures (fun _ => False) (Kept s₀ d) := by
  have hlookup : (if replace = true then .ok (s, none) else lookupKeyWrite s d key now).Ensures
      (fun _ => False) fun r => Kept s₀ d r.1 ∧
        (replace = false → r.2 = (r.1.db d).dict key) := by
    split
    · rename_i hreplace
      exact ⟨h, fun hno => absurd hreplace (by simp [hno])⟩
    · exact (h.lookup key now).imp fun r hr => ⟨hr.1, fun _ => hr.2.1⟩
  refine hlookup.bind fun r hr => ?_
  split
  · exact hr.1
  · rename_i hbusy
    split
    · exact hr.1
    · have hdelete : (if replace = true then dbDelete r.1 d key else .ok (r.1, false)).Ensures
          (fun _ => False) fun r => Kept s₀ d r.1 ∧ (r.1.db d).dict key = none := by
        split
        · exact (hr.1.delete key).imp fun r hr => ⟨hr.1, hr.2.1⟩
        · rename_i hreplace
          refine ⟨hr.1, ?_⟩
          rw [← hr.2 (by simpa using hreplace)]
          simpa using hbusy
      refine hdelete.bind fun r hr => ?_
      refine (hr.1.add hr.2 val).bind fun s' hs' => ?_
      have hexpire : (if ttl ≠ 0 then RedisServer.setExpire s' d key (now + ttl) else .ok s').Ensures
          (fun _ => False) (Kept s₀ d) := by
        split
        · exact (hs'.1.setExpire hs'.2.1 _).imp fun _ hr => hr.1
        · exact hs'.1
      exact hexpire.bind fun _ hs => hs.signal d key

theorem Kept.migrateCommand (h : Kept s₀ d s) (key : Bytes) (copy : Bool) (now : ℤ) :
    (migrateCommand s d key copy now).Ensures (fun _ => False) (Kept s₀ d) := by
  refine (h.lookup key now).bind fun r hr => ?_
  split
  · exact hr.1
  · exact (hr.1.delete key).bind fun _ hs => hs.1.signal d key

theorem Kept.delCommand (h : Kept s₀ d s) (keys : List Bytes) (now : ℤ) :
    (delCommand s d keys now).Ensures (fun _ => False) (Kept s₀ d) := by
  refine Ensures.foldlM (fun s key _ hs => ?_) h
  refine (expireIfNeeded_spec hs.indexed hs.zero key now).bind fun r hr => ?_
  exact (hs.step hr.1 hr.2.1 hr.2.2).deleteSignal key

theorem Kept.renameGenericCommand (h : Kept s₀ d s) (src dst : Bytes) (nx : Bool) (now : ℤ) :
    (renameGenericCommand s d src dst nx now).Ensures (fun _ => False) (Kept s₀ d) := by
  unfold RedisServer.renameGenericCommand
  split
  · exact h
  · refine (h.lookup src now).bind fun r hr => ?_
    split
    · exact hr.1
    · rename_i o hsome
      rw [getExpire_spec hr.1.indexed, ok_bind]
      refine (hr.1.lookup dst now).bind fun r' hr' => ?_
      split
      · exact hr'.1
      · have hdelete : (if r'.2.isSome = true then dbDelete r'.1 d dst else .ok (r'.1, false)).Ensures
            (fun _ => False) fun r => Kept s₀ d r.1 ∧ (r.1.db d).dict dst = none := by
          split
          · exact (hr'.1.delete dst).imp fun r hr => ⟨hr.1, hr.2.1⟩
          · rename_i hnone
            refine ⟨hr'.1, ?_⟩
            rw [← hr'.2.1]
            simpa using hnone
        refine hdelete.bind fun r₂ hr₂ => ?_
        refine (hr₂.1.add hr₂.2 o).bind fun s' hs' => ?_
        have hexpire : ∀ e : ℤ, (if e ≠ -1 then RedisServer.setExpire s' d dst e else .ok s').Ensures
            (fun _ => False) (Kept s₀ d) := by
          intro e
          split
          · exact (hs'.1.setExpire hs'.2.1 _).imp fun _ hr => hr.1
          · exact hs'.1
        refine (hexpire _).bind fun s₂ hs₂ => ?_
        exact (hs₂.delete src).bind fun _ hs => (hs.1.signal d src).signal d dst

theorem Kept.expireGenericCommand (h : Kept s₀ d s) (key : Bytes) (when now : ℤ) :
    (expireGenericCommand s d key when now).Ensures (fun _ => False) (Kept s₀ d) := by
  refine (h.lookup key now).bind fun r hr => ?_
  split
  · exact hr.1
  · rename_i hnone
    have hkey : ((r.1.db d).dict key).isSome := by
      rw [← hr.2.1, Option.isSome_iff_ne_none]
      simpa using hnone
    split
    · refine (hr.1.delete key).bind fun r' hr' => ?_
      rw [if_pos (by rw [hr'.2.2.1]; exact hkey)]
      exact hr'.1.signal d key
    · exact (hr.1.setExpire hkey when).bind fun _ hs => hs.1.signal d key

omit [DecidableEq C] in
theorem Kept.persistCommand (h : Kept s₀ d s) (key : Bytes) :
    (persistCommand s d key).Ensures (fun _ => False) (Kept s₀ d) := by
  unfold RedisServer.persistCommand
  split
  · exact h
  · rename_i hnone
    refine (h.removeExpire ?_).bind fun _ hr => hr.1
    rw [Option.isSome_iff_ne_none]
    simpa using hnone

omit [DecidableEq C] in
theorem Kept.populateCommand (h : Kept s₀ d s) (pairs : List (Bytes × V)) (now : ℤ) :
    (populateCommand s d pairs now).Ensures (fun _ => False) (Kept s₀ d) := by
  refine Ensures.foldlM (fun s p _ hs => ?_) h
  refine (hs.lookup p.1 now).bind fun r hr => ?_
  split
  · exact hr.1
  · rename_i hnone
    refine (hr.1.add ?_ p.2).imp fun _ hr => hr.1
    rw [← hr.2.1]
    simpa using hnone

/-! ### Between two steps -/

/-- Between two steps: the indexes agree, and in cluster mode there is only database 0. -/
structure Sound (s : RedisServer C V) : Prop where
  indexed : Indexed s
  only : s.clusterEnabled = true → ∀ d ≠ 0, ∀ k, (s.db d).dict k = none
  zero : s.clusterEnabled = true → ∀ c, (s.client c).db = 0
  dbnum : 0 < s.dbnum

omit [DecidableEq C] in
theorem Sound.kept (h : Sound s) (hd : s.clusterEnabled = true → d = 0) : Kept s d s :=
  ⟨h.indexed, h.only, hd, rfl, rfl, fun _ => rfl⟩

omit [DecidableEq C] in
theorem Kept.sound (h : Kept s₀ d s) (h₀ : Sound s₀) : Sound s := by
  refine ⟨h.indexed, h.only, fun hcluster c => ?_, h.dbnum ▸ h₀.dbnum⟩
  rw [h.selected]
  exact h₀.zero (h.clusterEnabled ▸ hcluster) c

omit [DecidableEq C] in
theorem Kept.other (h : Kept s₀ d s) (hno : s.clusterEnabled = false) (d' : ℕ) : Kept s₀ d' s :=
  ⟨h.indexed, h.only, fun hyes => absurd hyes (by simp [hno]), h.dbnum, h.clusterEnabled,
    h.selected⟩

omit [DecidableEq C] in
theorem Kept.moveCommand (h : Kept s₀ d s) (key : Bytes) (db now : ℤ) :
    (moveCommand s d key db now).Ensures (fun _ => False) (Kept s₀ d) := by
  unfold RedisServer.moveCommand
  split
  · exact h
  · rename_i hcluster
    have hno : s₀.clusterEnabled = false := by simpa [h.clusterEnabled] using hcluster
    split
    · exact h
    · split
      · exact h
      · refine (h.lookup key now).bind fun r hr => ?_
        split
        · exact hr.1
        · have hother := hr.1.other (hr.1.clusterEnabled.trans hno)
          refine ((hother db.toNat).lookup key now).bind fun r' hr' => ?_
          have hback := hr'.1.other (hr'.1.clusterEnabled.trans hno)
          split
          · exact hback d
          · rename_i hnone
            refine ((hback db.toNat).add ?_ _).bind fun s' hs' => ?_
            · rw [← hr'.2.1]
              simpa using hnone
            · have hlast := hs'.1.other (hs'.1.clusterEnabled.trans hno) d
              exact (hlast.delete key).bind fun _ hs => hs.1

omit [DecidableEq C] in
theorem Sound.flush {s' : RedisServer C V} (h : Sound s) {w : ℕ → Bool}
    (hzero : s.clusterEnabled = true → w 0 = true)
    (hdb : ∀ d, (s'.db d).dict = (s.db d).dict ∧ (s'.db d).expires = (s.db d).expires)
    (hselected : ∀ c, (s'.client c).db = (s.client c).db) (hdbnum : s'.dbnum = s.dbnum)
    (hcluster : s'.clusterEnabled = s.clusterEnabled) :
    Sound (if (emptyDbs s' w).clusterEnabled = true then slotToKeyFlush (emptyDbs s' w)
      else emptyDbs s' w) := by
  have hdict : ∀ d k, ((emptyDbs s' w).db d).dict k = if w d then none
      else (s.db d).dict k := by
    intro d k
    show ((if w d = true then _ else s'.db d : RedisDb C V).dict k) = _
    split
    · rfl
    · rw [(hdb d).1]
  have hexpires : ∀ d k, ((emptyDbs s' w).db d).expires k = if w d then none
      else (s.db d).expires k := by
    intro d k
    show ((if w d = true then _ else s'.db d : RedisDb C V).expires k) = _
    split
    · rfl
    · rw [(hdb d).2]
  have hsub : ∀ d k, (((emptyDbs s' w).db d).expires k).isSome →
      (((emptyDbs s' w).db d).dict k).isSome := by
    intro d k hk
    rw [hexpires] at hk
    rw [hdict]
    split at hk
    · exact absurd hk (by simp)
    · rename_i hno
      rw [if_neg hno]
      exact h.indexed.expires d k hk
  have honly : s.clusterEnabled = true → ∀ d ≠ 0, ∀ k,
      ((emptyDbs s' w).db d).dict k = none := by
    intro hyes d hd k
    rw [hdict]
    split
    · rfl
    · exact h.only hyes d hd k
  have hsel : ∀ c, ((emptyDbs s' w).client c).db = (s.client c).db := hselected
  have hcl : (emptyDbs s' w).clusterEnabled = s.clusterEnabled := hcluster
  split
  · rename_i hyes
    rw [hcl] at hyes
    refine ⟨⟨hsub, fun _ => ⟨[], holdsSorted_zslCreate, by simp, fun q => ?_⟩⟩,
      fun _ => honly hyes, fun _ c => (hsel c).trans (h.zero hyes c), ?_⟩
    · show q ∈ [] ↔ ((((emptyDbs s' w).db 0).dict q.2).isSome = true ∧ _)
      rw [hdict, if_pos (hzero hyes)]
      simp
    · show 0 < s'.dbnum
      rw [hdbnum]
      exact h.dbnum
  · rename_i hno
    refine ⟨⟨hsub, fun hyes => absurd hyes hno⟩, fun hyes => absurd hyes hno,
      fun hyes => absurd hyes hno, ?_⟩
    show 0 < s'.dbnum
    rw [hdbnum]
    exact h.dbnum

theorem touchWatchedKeysOnFlush_db (s : RedisServer C V) (dbid : Option ℕ) (c : C) :
    ((signalFlushedDb s dbid).client c).db = (s.client c).db := by
  unfold signalFlushedDb touchWatchedKeysOnFlush
  dsimp only
  split <;> rfl

theorem Sound.selectCommand (h : Sound s) (c : C) (db : ℤ) : Sound (selectCommand s c db) := by
  unfold RedisServer.selectCommand
  split
  · exact h
  · rename_i hno
    split
    · exact h
    · refine ⟨⟨h.indexed.expires, fun hcluster => ?_⟩, h.only, fun hcluster c' => ?_, h.dbnum⟩
      · obtain ⟨L, hL⟩ := h.indexed.index hcluster
        exact ⟨L, hL.congr rfl rfl fun _ => rfl⟩
      · have hdb : db = 0 := by
          by_contra hne
          exact hno ⟨hcluster, hne⟩
        show (Function.update s.client c _ c').db = 0
        rw [Function.update_apply]
        split
        · rw [hdb]
          rfl
        · exact h.zero hcluster c'

/-- Every command keeps the indexes, and none of its assertions fails. -/
theorem Sound.call (h : Sound s) (c : C) (now : ℤ) (cmd : Command V) :
    (call s c now cmd).Ensures (fun _ => False) Sound := by
  have hkept : Kept s (s.client c).db s := h.kept fun hcluster => h.zero hcluster c
  cases cmd with
  | set key val nx xx ms =>
    exact (hkept.setGenericCommand key val nx xx ms now).imp fun _ hr => hr.sound h
  | getset key val isString =>
    exact (hkept.getsetCommand key val isString now).imp fun _ hr => hr.sound h
  | mset pairs nx => exact (hkept.msetGenericCommand pairs nx now).imp fun _ hr => hr.sound h
  | incrDecr key new => exact (hkept.incrDecrCommand key new now).imp fun _ hr => hr.sound h
  | update sources key f => exact (hkept.updateCommand sources key f now).imp fun _ hr => hr.sound h
  | pfadd key new add => exact (hkept.pfaddCommand key new add now).imp fun _ hr => hr.sound h
  | pfdebug key toDense =>
    exact (hkept.pfdebugCommand key toDense now).imp fun _ hr => hr.sound h
  | smove src dst move => exact (hkept.smoveCommand src dst move now).imp fun _ hr => hr.sound h
  | rpoplpush src dst pop push rotate =>
    exact (hkept.rpoplpushCommand src dst pop push rotate now).imp fun _ hr => hr.sound h
  | sinterstore sources dst inter =>
    exact (hkept.sinterGenericCommand sources dst inter now).imp fun _ hr => hr.sound h
  | sunionDiff sources dst f =>
    exact (hkept.sunionDiffGenericCommand sources dst f now).imp fun _ hr => hr.sound h
  | zunionInter sources dst f =>
    exact (hkept.zunionInterGenericCommand sources dst f now).imp fun _ hr => hr.sound h
  | storeKey sources dst f =>
    exact (hkept.sortCommand sources dst f now).imp fun _ hr => hr.sound h
  | restore key val ttl replace =>
    exact (hkept.restoreCommand key val ttl replace now).imp fun _ hr => hr.sound h
  | migrate key copy => exact (hkept.migrateCommand key copy now).imp fun _ hr => hr.sound h
  | del keys => exact (hkept.delCommand keys now).imp fun _ hr => hr.sound h
  | flushdb =>
    exact h.flush (w := fun d => decide (d = (s.client c).db))
      (fun hcluster => decide_eq_true (h.zero hcluster c).symm) (fun _ => ⟨rfl, rfl⟩)
      (touchWatchedKeysOnFlush_db s _) rfl rfl
  | flushall =>
    exact h.flush (w := fun d => decide (d < s.dbnum)) (fun _ => decide_eq_true h.dbnum)
      (fun _ => ⟨rfl, rfl⟩) (touchWatchedKeysOnFlush_db s _) rfl rfl
  | rename src dst nx =>
    exact (hkept.renameGenericCommand src dst nx now).imp fun _ hr => hr.sound h
  | move key db => exact (hkept.moveCommand key db now).imp fun _ hr => hr.sound h
  | expire key when => exact (hkept.expireGenericCommand key when now).imp fun _ hr => hr.sound h
  | persist key => exact (hkept.persistCommand key).imp fun _ hr => hr.sound h
  | select db => exact h.selectCommand c db
  | read keys => exact (hkept.lookupKeys now keys).bind fun _ hr => hr.sound h
  | populate pairs => exact (hkept.populateCommand pairs now).imp fun _ hr => hr.sound h

/-! ### Blocked clients -/

/-- A key that is there and does not expire at the time `now`. -/
structure Live (s : RedisServer C V) (d : ℕ) (key : Bytes) (now : ℤ) : Prop where
  isSome : ((s.db d).dict key).isSome
  expired : expiredAt s d key now = false

section
variable {now : ℤ}

omit [DecidableEq C] in
theorem Live.of_rest {s' : RedisServer C V} (h : Live s d key now) (hrest : Rest s s')
    (hdict : ((s'.db d).dict key).isSome)
    (hexpires : (s'.db d).expires key = (s.db d).expires key) : Live s' d key now := by
  refine ⟨hdict, ?_⟩
  rw [← h.expired]
  unfold expiredAt
  rw [hexpires, hrest.loading, hrest.masterhost]

theorem Live.signal (h : Live s d key now) (key' : Bytes) :
    Live (signalModifiedKey s d key') d key now :=
  ⟨h.isSome, h.expired⟩

omit [DecidableEq C] in
theorem Live.lookup (h : Live s d key now) (hkept : Kept s₀ d s) (key' : Bytes) :
    (lookupKeyWrite s d key' now).Ensures (fun _ => False) fun r => Live r.1 d key now := by
  refine (lookupKeyWrite_spec hkept.indexed hkept.zero key' now).imp fun r hr => ?_
  obtain ⟨-, hrest, hdb, -⟩ := hr
  have hsame : (afterExpire s d key' now).dict key = (s.db d).dict key ∧
      (afterExpire s d key' now).expires key = (s.db d).expires key := by
    unfold afterExpire
    split
    · rename_i hexpired
      have hne : key ≠ key' := by
        rintro rfl
        rw [h.expired] at hexpired
        exact absurd hexpired (by simp)
      exact ⟨Function.update_of_ne hne _ _, Function.update_of_ne hne _ _⟩
    · exact ⟨rfl, rfl⟩
  refine h.of_rest hrest ?_ ?_
  · rw [hdb, setDb_self, hsame.1]
    exact h.isSome
  · rw [hdb, setDb_self, hsame.2]

omit [DecidableEq C] in
theorem Live.overwrite (h : Live s d key now) (hkept : Kept s₀ d s) {key' : Bytes}
    (hkey : ((s.db d).dict key').isSome) (val : V) :
    (dbOverwrite s d key' val).Ensures (fun _ => False) fun r => Live r d key now := by
  refine (dbOverwrite_spec hkept.indexed hkey val).imp fun r hr => ?_
  obtain ⟨-, hrest, hdb⟩ := hr
  refine h.of_rest hrest ?_ (by rw [hdb, setDb_self])
  rw [hdb, setDb_self, isSome_update]
  split
  · rfl
  · exact h.isSome

omit [DecidableEq C] in
theorem Live.store (h : Live s d key now) (hkept : Kept s₀ d s) {key' : Bytes} {old : Option V}
    (hold : old = (s.db d).dict key') (val : V) :
    (dbStore s d key' old val).Ensures (fun _ => False) fun r => Live r d key now := by
  unfold dbStore
  split
  · refine (dbAdd_spec hkept.indexed hkept.zero hold.symm val).imp fun r hr => ?_
    obtain ⟨-, hrest, hdb⟩ := hr
    refine h.of_rest hrest ?_ (by rw [hdb, setDb_self])
    rw [hdb, setDb_self, isSome_update]
    split
    · rfl
    · exact h.isSome
  · exact h.overwrite hkept (by rw [← hold]; rfl) val

theorem Kept.serveClient (h : Kept s₀ d s) (hlive : Live s d key now) (receiver : Receiver V) :
    (serveClient s d key now receiver).Ensures (fun _ => False) fun r =>
      Kept s₀ d r ∧ Live r d key now := by
  unfold RedisServer.serveClient
  split
  · rename_i hnone
    have hsome := hlive.isSome
    rw [show (s.db d).dict key = none from hnone] at hsome
    exact absurd hsome (by simp)
  · rename_i o hsome
    have hpop := (h.overwrite hlive.isSome (receiver.pop o)).and
      (hlive.overwrite h hlive.isSome (receiver.pop o))
    refine hpop.bind fun s' hs' => ?_
    obtain ⟨⟨hkept, -⟩, hlive'⟩ := hs'
    split
    · exact ⟨hkept, hlive'⟩
    · rename_i dstkey hdst
      refine ((hkept.lookup dstkey now).and (hlive'.lookup hkept dstkey)).bind fun r hr => ?_
      obtain ⟨⟨hkept', hval, -⟩, hlive''⟩ := hr
      split
      · -- the destination is no list: the element goes back
        exact ((hkept'.overwrite hlive''.isSome o).and
          (hlive''.overwrite hkept' hlive''.isSome o)).imp fun _ hr => ⟨hr.1.1, hr.2⟩
      · rename_i val hpush
        have hstore := (hkept'.store hval val).and (hlive''.store hkept' hval val)
        exact hstore.bind fun _ hr => ⟨hr.1.1.signal d dstkey, hr.2.signal dstkey⟩

theorem Kept.serveKey (h : Kept s₀ d s) (key : Bytes) (receivers : List (Receiver V))
    (isList isEmpty : V → Bool) (now : ℤ) :
    (serveKey s d key receivers isList isEmpty now).Ensures (fun _ => False) (Kept s₀ d) := by
  have hlookup := (h.lookup key now).and (lookupKeyWrite_live h.indexed h.zero key now)
  refine hlookup.bind fun r hr => ?_
  obtain ⟨⟨hkept, hval, -⟩, hlive⟩ := hr
  split
  · rename_i hlist
    have hsome : ((r.1.db d).dict key).isSome := by
      rw [← hval]
      cases hr : r.2 with
      | none =>
        rw [hr] at hlist
        exact absurd hlist (by simp)
      | some v => rfl
    have hloop : (receivers.foldlM (fun s receiver => RedisServer.serveClient s d key now receiver)
        r.1).Ensures (fun _ => False) fun s => Kept s₀ d s ∧ Live s d key now :=
      Ensures.foldlM (fun s receiver _ hs => hs.1.serveClient hs.2 receiver)
        ⟨hkept, hsome, hlive⟩
    refine hloop.bind fun s' hs' => ?_
    split
    · exact (hs'.1.delete key).bind fun _ hr => hr.1
    · exact hs'.1
  · exact hkept

end

/-! ### Every step -/

omit [DecidableEq C] in
theorem Sound.delete (h : Sound s) (hd : s.clusterEnabled = true → d = 0) (key : Bytes) :
    (dbDelete s d key).Ensures (fun _ => False) fun r => Sound r.1 :=
  ((h.kept hd).delete key).imp fun _ hr => hr.1.sound h

omit [DecidableEq C] in
theorem Sound.eq_zero (h : Sound s) (hkey : ((s.db d).dict key).isSome)
    (hcluster : s.clusterEnabled = true) : d = 0 := by
  by_contra hd
  rw [h.only hcluster d hd key] at hkey
  exact absurd hkey (by simp)

omit [DecidableEq C] in
theorem Sound.delKeysInSlot (h : Sound s) (hcluster : s.clusterEnabled = true) (slot : ℕ) :
    (delKeysInSlot s slot).Ensures (fun _ => False) fun r => Sound r.1 := by
  obtain ⟨L, hL⟩ := h.indexed.index hcluster
  obtain ⟨A, R, B, rfl, hA, hR, hB⟩ := hL.slot slot
  refine (delKeysInSlot_spec h.indexed hL hcluster hA hR hB).imp fun r hr => ?_
  obtain ⟨hindexed, hrest, -, hdb⟩ := hr
  have hkept : Kept s 0 r.1 := (h.kept fun _ => rfl).step hindexed hrest hdb
  exact hkept.sound h

theorem Sound.step (h : Sound s) (e : KeyspaceEvent C V) :
    (keyspaceStep s e).Ensures (fun _ => False) Sound := by
  cases e with
  | call c now cmd => exact h.call c now cmd
  | serve c now key receivers isList isEmpty =>
    have hkept : Kept s (s.client c).db s := h.kept fun hcluster => h.zero hcluster c
    exact (hkept.serveKey key receivers isList isEmpty now).imp fun _ hr => hr.sound h
  | tryExpire d now key =>
    show (activeExpireCycleTryExpire s d key now).Ensures _ _
    unfold activeExpireCycleTryExpire
    split
    · exact h
    · rename_i t hexpires
      split
      · have hkey := h.indexed.expires d key (by rw [hexpires]; rfl)
        exact (h.delete (h.eq_zero hkey) key).bind fun _ hr => hr
      · exact h
  | evict d key =>
    show (freeMemoryIfNeeded s d key).Ensures _ _
    unfold freeMemoryIfNeeded
    split
    · rename_i hkey
      exact (h.delete (h.eq_zero hkey) key).bind fun _ hr => hr
    · exact h
  | delKeysInSlot slot =>
    show (if s.clusterEnabled = true then _ else _ : Except Failure (RedisServer C V)).Ensures _ _
    split
    · rename_i hcluster
      exact (h.delKeysInSlot hcluster slot).bind fun _ hr => hr
    · exact h
  | emptyDb =>
    exact h.flush (w := fun d => decide (d < s.dbnum)) (fun _ => decide_eq_true h.dbnum)
      (fun _ => ⟨rfl, rfl⟩) (touchWatchedKeysOnFlush_db s _) rfl rfl
  | config masterhost loading =>
    refine ⟨⟨h.indexed.expires, fun hcluster => ?_⟩, h.only, h.zero, h.dbnum⟩
    obtain ⟨L, hL⟩ := h.indexed.index hcluster
    exact ⟨L, hL.congr rfl rfl fun _ => rfl⟩

omit [DecidableEq C] in
theorem sound_initServer (dbs : ℕ) (clusterEnabled : Bool) (clients : List C) (levels : ℕ → Fin 32) :
    Sound (initServer dbs clusterEnabled clients levels : RedisServer C V) := by
  refine ⟨⟨fun _ _ hk => hk, fun _ => ⟨[], holdsSorted_zslCreate, by simp, fun q => ?_⟩⟩,
    fun _ _ _ _ => rfl, fun _ _ => rfl, Nat.succ_pos dbs⟩
  show q ∈ [] ↔ (none : Option V).isSome = true ∧ _
  simp

omit [DecidableEq C] in
theorem Sound.slot (h : Sound s) (hcluster : s.clusterEnabled = true) (slot : ℕ) :
    ∃ keys, KeysOf s slot keys ∧ countKeysInSlot s slot = .ok (BitVec.ofNat 32 keys.length) ∧
      (∀ count, getKeysInSlot s slot count = .ok (keys.take count)) ∧
      ∃ r, RedisServer.delKeysInSlot s slot = .ok r ∧ r.2 = BitVec.ofNat 32 keys.length ∧
        r.1.db = (s.setDb 0 (withoutSlot (s.db 0) slot)).db := by
  obtain ⟨L, hL⟩ := h.indexed.index hcluster
  obtain ⟨A, R, B, rfl, hA, hR, hB⟩ := hL.slot slot
  have hlen : (R.map fun y => y.data.2).length = R.length := List.length_map _
  refine ⟨R.map fun y => y.data.2, hL.keysOf hA hR hB, ?_, getKeysInSlot_spec hL hA hR hB, ?_⟩
  · rw [hlen]
    exact countKeysInSlot_spec hL hA hR hB
  · have hdel := delKeysInSlot_spec h.indexed hL hcluster hA hR hB
    cases hr : RedisServer.delKeysInSlot s slot with
    | error e => exact (hdel.of_eq_error hr).elim
    | ok r =>
      have hspec := hdel.of_eq_ok hr
      rw [hlen]
      exact ⟨r, rfl, hspec.2.2.1, hspec.2.2.2⟩

/-- A run never fails, and what holds initially holds at its end. -/
theorem run_sound (h : Sound s) (es : List (KeyspaceEvent C V)) :
    ∃ s', Runs.run (fun s e => (keyspaceStep s e).toOption) s es = some s' ∧ Sound s' := by
  induction es generalizing s with
  | nil => exact ⟨s, rfl, h⟩
  | cons e es ih =>
    have hstep := h.step e
    cases hm : keyspaceStep s e with
    | error f => exact (hstep.of_eq_error hm).elim
    | ok m =>
      obtain ⟨s', hrun, hs'⟩ := ih (hstep.of_eq_ok hm)
      exact ⟨s', Runs.run_cons_of_step (congrArg Except.toOption hm) hrun, hs'⟩

/-- No assertion fails in any run.  At its end every key with an expire is a key; in cluster mode
the skip list holds the keys of database 0, each once and under its slot, and the functions on
slots are right, up to the width of the `int` in which they count. -/
theorem run_keyspace (dbs : ℕ) (clusterEnabled : Bool) (clients : List C) (levels : ℕ → Fin 32)
    (es : List (KeyspaceEvent C V)) :
    ∃ s', Runs.run (fun s e => (keyspaceStep s e).toOption)
        (initServer dbs clusterEnabled clients levels) es = some s' ∧
      (∀ d key, ((s'.db d).expires key).isSome → ((s'.db d).dict key).isSome) ∧
      (s'.clusterEnabled = true →
        (∃ L, HoldsSorted s'.slotsToKeys L ∧ (L.map Tower.data).Nodup ∧
          ∀ q, q ∈ L.map Tower.data ↔ ((s'.db 0).dict q.2).isSome ∧ q.1 = keyHashSlot q.2) ∧
        ∀ slot, ∃ keys, KeysOf s' slot keys ∧
          countKeysInSlot s' slot = .ok (BitVec.ofNat 32 keys.length) ∧
          (∀ count, getKeysInSlot s' slot count = .ok (keys.take count)) ∧
          ∃ r, delKeysInSlot s' slot = .ok r ∧ r.2 = BitVec.ofNat 32 keys.length ∧
            r.1.db = (s'.setDb 0 (withoutSlot (s'.db 0) slot)).db) := by
  obtain ⟨s', hrun, hs'⟩ := run_sound (sound_initServer dbs clusterEnabled clients levels) es
  refine ⟨s', hrun, hs'.indexed.expires, fun hcluster => ⟨?_, hs'.slot hcluster⟩⟩
  obtain ⟨L, hL⟩ := hs'.indexed.index hcluster
  exact ⟨L, hL.holds, hL.nodup, hL.mem⟩

end

/-! ### A slot with many keys -/

/-- The keys `{a}`, `{a}x`, `{a}xx`, … -/
def tagKey (n : ℕ) : Bytes := [123, 97, 125] ++ List.replicate n 120

theorem tagKey_inj {m n : ℕ} (h : tagKey m = tagKey n) : m = n := by
  have hlen := congrArg List.length h
  simpa [tagKey] using hlen

theorem keyHashSlot_tagKey (n : ℕ) : keyHashSlot (tagKey n) = (crc16 [97] &&& 0x3FFF).toNat := by
  have htag : ((tagKey n).dropWhile (· ≠ 123)).drop 1 = 97 :: 125 :: List.replicate n 120 := rfl
  have hinner : (97 :: 125 :: List.replicate n (120 : UInt8)).takeWhile (· ≠ 125) = [97] := rfl
  unfold keyHashSlot
  simp only [htag, hinner]
  rw [if_neg (by simp)]

/-- A node of a cluster with the first `n` of these keys. -/
structure Filled (s : RedisServer Unit Unit) (n : ℕ) : Prop where
  sound : Sound s
  clusterEnabled : s.clusterEnabled = true
  mem : ∀ k, ((s.db 0).dict k).isSome ↔ ∃ i < n, k = tagKey i

theorem Filled.step {s : RedisServer Unit Unit} {n : ℕ} (h : Filled s n) :
    (keyspaceStep s (.call () 0 (.set (tagKey n) () false false none))).Ensures (fun _ => False)
      fun r => Filled r (n + 1) := by
  have hzero := h.sound.zero h.clusterEnabled ()
  show (setGenericCommand s (s.client ()).db (tagKey n) () false false none 0).Ensures _ _
  rw [hzero]
  have hset := ((h.sound.kept fun _ => rfl).setKey (tagKey n) () 0).and
    (setKey_spec h.sound.indexed (fun _ => rfl) (tagKey n) () 0)
  refine Ensures.bind (Q := fun r => r = (s, none)) rfl fun r hr => ?_
  subst hr
  refine hset.bind fun r hr => ?_
  obtain ⟨⟨hkept, -⟩, hdb⟩ := hr
  refine ⟨hkept.sound h.sound, hkept.clusterEnabled.trans h.clusterEnabled, fun k => ?_⟩
  rw [hdb, setDb_self, isSome_update]
  split
  · rename_i hk
    exact ⟨fun _ => ⟨n, Nat.lt_succ_self n, hk⟩, fun _ => rfl⟩
  · rename_i hk
    rw [h.mem]
    constructor
    · rintro ⟨i, hi, rfl⟩
      exact ⟨i, hi.trans (Nat.lt_succ_self n), rfl⟩
    · rintro ⟨i, hi, rfl⟩
      refine ⟨i, (Nat.lt_succ_iff_lt_or_eq.mp hi).resolve_right ?_, rfl⟩
      rintro rfl
      exact hk rfl

theorem run_filled (n : ℕ) : ∃ es s',
    Runs.run (fun s e => (keyspaceStep s e).toOption)
      (initServer 0 true [()] fun _ => 0 : RedisServer Unit Unit) es = some s' ∧ Filled s' n := by
  induction n with
  | zero =>
    refine ⟨[], _, rfl, sound_initServer 0 true [()] _, rfl, fun k => ?_⟩
    show (none : Option Unit).isSome = true ↔ _
    simp
  | succ n ih =>
    obtain ⟨es, s, hrun, hs⟩ := ih
    have hstep := hs.step
    cases hm : keyspaceStep s (.call () 0 (.set (tagKey n) () false false none)) with
    | error f => exact (hstep.of_eq_error hm).elim
    | ok m =>
      refine ⟨es ++ [.call () 0 (.set (tagKey n) () false false none)], m,
        Runs.run_append_eq_some.mpr ⟨s, hrun, ?_⟩, hstep.of_eq_ok hm⟩
      exact Runs.run_cons_of_step (congrArg Except.toOption hm) rfl

/-- With 2^32 keys in a slot the count is 0. -/
theorem run_manyKeys : ∃ (es : List (KeyspaceEvent Unit Unit)) (s' : RedisServer Unit Unit)
    (slot : ℕ) (keys : List Bytes),
    Runs.run (fun s e => (keyspaceStep s e).toOption) (initServer 0 true [()] fun _ => 0) es
      = some s' ∧
    s'.clusterEnabled = true ∧ KeysOf s' slot keys ∧ keys.length = 2 ^ 32 ∧
    countKeysInSlot s' slot = .ok 0 ∧ ∃ r, delKeysInSlot s' slot = .ok r ∧ r.2 = 0 := by
  obtain ⟨es, s', hrun, hs'⟩ := run_filled (2 ^ 32)
  obtain ⟨keys, hkeys, hcount, -, r, hr, hdel, -⟩ :=
    hs'.sound.slot hs'.clusterEnabled (crc16 [97] &&& 0x3FFF).toNat
  have hperm : keys.Perm ((List.range (2 ^ 32)).map tagKey) := by
    refine (List.perm_ext_iff_of_nodup hkeys.nodup ?_).mpr fun k => ?_
    · exact List.nodup_range.map fun m n => tagKey_inj
    · rw [hkeys.mem, hs'.mem, List.mem_map]
      constructor
      · rintro ⟨⟨i, hi, rfl⟩, -⟩
        exact ⟨i, List.mem_range.mpr hi, rfl⟩
      · rintro ⟨i, hi, rfl⟩
        exact ⟨⟨i, List.mem_range.mp hi, rfl⟩, keyHashSlot_tagKey i⟩
  have hlen : keys.length = 2 ^ 32 := by
    rw [hperm.length_eq, List.length_map, List.length_range]
  rw [hlen] at hcount hdel
  exact ⟨es, s', _, keys, hrun, hs'.clusterEnabled, hkeys, hlen, hcount, r, hr, hdel⟩

end RedisServer

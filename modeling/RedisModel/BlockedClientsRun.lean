/-
Runs of a server with clients that wait.

* `pushGenericCommand_still`, … — the commands on keys leave the bookkeeping alone;
* `handleClientsBlockedOnLists_moves` — serving clients only unblocks them;
* `processCommand_safe` — a request may block the client that sends it;
* `run_booked` — the bookkeeping is right in every run in which no pause ends with clients to
  put into the list, and no client blocks while it is in the list.
-/
import RedisModel.BlockedClientsSpec
import RedisModel.Runs
import Mathlib.Tactic.Set

open Except

namespace BlockingServer

open RedisServer

section
variable {K V : Type} [DecidableEq K] {s s' : RedisServer K V} {id : ClientId}
  {c : RedisClient K V} {E : Failure → Prop}

/-! ### Commands on keys -/

omit [DecidableEq K] in
theorem setDb_still {d : ℕ} {db : RedisDb K V}
    (hqueues : db.blockingKeys = (s.db d).blockingKeys) : Still s (s.setDb d db) := by
  refine .of_client rfl (fun d' => ?_) rfl rfl rfl
  by_cases hd : d' = d
  · subst hd
    show (Function.update s.db d' db d').blockingKeys = _
    rw [Function.update_self, hqueues]
  · show (Function.update s.db d db d').blockingKeys = _
    rw [Function.update_of_ne hd]

theorem setDict_still (d : ℕ) (key : K) (entry : Option (Entry V)) :
    Still s (setDict s d key entry) := setDb_still rfl

theorem expireIfNeeded_still (s : RedisServer K V) (d : ℕ) (key : K) :
    Still s (expireIfNeeded s d key) := by
  rw [expireIfNeeded]
  split
  · refine Still.trans ?_ (setDict_still d key none)
    exact .of_client rfl (fun _ => rfl) rfl rfl rfl
  · exact .refl s

theorem lookupKeyWrite_still (s : RedisServer K V) (d : ℕ) (key : K) :
    Still s (lookupKeyWrite s d key).1 := expireIfNeeded_still s d key

theorem signalListAsReady_still (s : RedisServer K V) (d : ℕ) (key : K) :
    Still s (signalListAsReady s d key) := by
  rw [signalListAsReady]
  split
  · exact .refl s
  · split
    · exact .refl s
    · refine Still.trans ?_ (setDb_still rfl)
      exact .of_client rfl (fun _ => rfl) rfl rfl rfl

theorem deleteIfEmpty_still (s : RedisServer K V) (d : ℕ) (key : K) :
    Still s (deleteIfEmpty s d key) := by
  rw [deleteIfEmpty]
  split
  · exact setDict_still d key none
  · exact .refl s

omit [DecidableEq K] in
theorem Safe.fail {α : Type} {Q : α → Prop} (h : Safe E s) {e : Failure} (he : e ≠ .redisPanic) :
    (Except.error e : Except Failure α).Ensures E Q := h.errors e he

theorem Safe.dbAdd (h : Safe E s') (d : ℕ) (key : K) (entry : Entry V) :
    (dbAdd s d key entry).Ensures E (Still s) := by
  rw [BlockingServer.dbAdd]
  refine (h.assert (s := s') _).bind fun _ _ => ?_
  exact setDict_still d key (some entry)

omit [DecidableEq K] in
theorem Still.bind {x : Except Failure (RedisServer K V)}
    {f : RedisServer K V → Except Failure (RedisServer K V)} (hx : x.Ensures E (Still s))
    (hf : ∀ s', Still s s' → (f s').Ensures E (Still s')) : (x >>= f).Ensures E (Still s) :=
  hx.bind fun s' hs' => (hf s' hs').imp fun _ hs'' => hs'.trans hs''

omit [DecidableEq K] in
theorem Still.then {x : Except Failure (RedisServer K V)} (h : Still s s')
    (hx : x.Ensures E (Still s')) : x.Ensures E (Still s) :=
  hx.imp fun _ hs'' => h.trans hs''

theorem Safe.pushGenericCommand (h : Safe E s) (d : ℕ) (at_ : Where) (key : K) (values : List V) :
    (pushGenericCommand s d at_ key values).Ensures E (Still s) := by
  rw [BlockingServer.pushGenericCommand]
  refine (lookupKeyWrite_still s d key).then ?_
  dsimp only
  split
  · exact (signalListAsReady_still _ d key).then (h.dbAdd d key _)
  · split
    · exact .refl _
    · exact setDict_still d key _

theorem popGenericCommand_still (s : RedisServer K V) (d : ℕ) (at_ : Where) (key : K) :
    Still s (popGenericCommand s d at_ key) := by
  rw [popGenericCommand]
  refine (lookupKeyWrite_still s d key).trans ?_
  dsimp only
  split
  · exact .refl _
  · split
    · exact .refl _
    · split
      · exact .refl _
      · split
        · exact (setDict_still d key _).trans (setDict_still d key none)
        · exact setDict_still d key _

theorem Safe.rpoplpushHandlePush (h : Safe E s') (d : ℕ) (dstkey : K) (found : Bool) (value : V) :
    (rpoplpushHandlePush s d dstkey found value).Ensures E (Still s) := by
  rw [BlockingServer.rpoplpushHandlePush]
  split
  · split
    · exact setDict_still d dstkey _
    · exact h.fail Failure.noConfusion
  · refine Still.bind (h.dbAdd d dstkey _) fun s₁ _ => ?_
    exact (signalListAsReady_still s₁ d dstkey).trans (setDict_still d dstkey _)

theorem Safe.rpoplpushCommand (h : Safe E s') (d : ℕ) (src dst : K) :
    (rpoplpushCommand s d src dst).Ensures E (Still s) := by
  rw [BlockingServer.rpoplpushCommand]
  refine (lookupKeyWrite_still s d src).then ?_
  dsimp only
  split
  · exact .refl _
  · split
    · exact .refl _
    · split
      · exact .refl _
      · refine (lookupKeyWrite_still _ d dst).then ?_
        split
        · exact .refl _
        · split
          · exact h.fail Failure.noConfusion
          · refine Still.bind ((setDict_still d src _).then (h.rpoplpushHandlePush d dst _ _))
              fun s₁ _ => ?_
            exact deleteIfEmpty_still s₁ d src

theorem Safe.renameGenericCommand (h : Safe E s') (d : ℕ) (src dst : K) (nx : Bool) :
    (renameGenericCommand s d src dst nx).Ensures E (Still s) := by
  rw [BlockingServer.renameGenericCommand]
  split
  · exact .refl s
  · refine (lookupKeyWrite_still s d src).then ?_
    dsimp only
    split
    · exact .refl _
    · refine (lookupKeyWrite_still _ d dst).then ?_
      split
      · exact .refl _
      · have hold : Still (lookupKeyWrite (lookupKeyWrite s d src).1 d dst).1
            (if (lookupKeyWrite (lookupKeyWrite s d src).1 d dst).2.isSome = true then
              dbDelete (lookupKeyWrite (lookupKeyWrite s d src).1 d dst).1 d dst
            else (lookupKeyWrite (lookupKeyWrite s d src).1 d dst).1) := by
          split
          · exact setDict_still d dst none
          · exact .refl _
        refine hold.then (Still.bind (h.dbAdd d dst _) fun s₁ _ => ?_)
        exact setDict_still d src none

theorem Safe.moveCommand (h : Safe E s') (src : ℕ) (key : K) (dst : ℕ) :
    (moveCommand s src key dst).Ensures E (Still s) := by
  rw [BlockingServer.moveCommand]
  split
  · exact .refl s
  · refine (lookupKeyWrite_still s src key).then ?_
    dsimp only
    split
    · exact .refl _
    · refine (lookupKeyWrite_still _ dst key).then ?_
      split
      · exact .refl _
      · refine Still.bind (h.dbAdd dst key _) fun s₁ _ => ?_
        exact setDict_still src key none

theorem sortStoreCommand_still (s : RedisServer K V) (d : ℕ) (key dst : K)
    (sort : Option (Object V) → Option (List V)) : Still s (sortStoreCommand s d key dst sort) := by
  rw [sortStoreCommand]
  refine (lookupKeyWrite_still s d key).trans ?_
  dsimp only
  split
  · exact .refl _
  · split
    · exact setDict_still d dst none
    · exact (lookupKeyWrite_still _ d dst).trans (setDict_still d dst _)

theorem Safe.restoreCommand (h : Safe E s') (d : ℕ) (key : K) (val : Object V) (ttl : ℤ)
    (replace : Bool) : (restoreCommand s d key val ttl replace).Ensures E (Still s) := by
  rw [BlockingServer.restoreCommand]
  cases replace with
  | true =>
    refine (setDict_still d key none).then ?_
    exact h.dbAdd d key _
  | false =>
    refine (lookupKeyWrite_still s d key).then ?_
    show (if (lookupKeyWrite s d key).2.isSome = true then ok (lookupKeyWrite s d key).1
      else BlockingServer.dbAdd (lookupKeyWrite s d key).1 d key _).Ensures E _
    split
    · exact .refl _
    · exact h.dbAdd d key _

/-! ### Clients that wait for lists -/

theorem clearReady_still (s : RedisServer K V) (d : ℕ) (key : K) : Still s (clearReady s d key) :=
  setDb_still rfl

theorem Safe.serveClientBlockedOnList (h : Safe E s') (receiver : ClientId) (key : K)
    (dstkey : Option K) (d : ℕ) (value : V) (at_ : Where) :
    (serveClientBlockedOnList s receiver key dstkey d value at_).Ensures E fun p => Still s p.1 := by
  cases dstkey with
  | none => exact Still.of_client rfl (fun _ => rfl) rfl rfl rfl
  | some dst =>
    rw [BlockingServer.serveClientBlockedOnList]
    refine (getClient_ensures (h.errors _ Failure.noConfusion)).bind fun c _ => ?_
    have hlookup := lookupKeyWrite_still s c.db dst
    dsimp only
    split
    · exact hlookup.trans (.of_client rfl (fun _ => rfl) rfl rfl rfl)
    · refine (h.rpoplpushHandlePush c.db dst _ value).bind fun s₁ hs₁ => ?_
      refine (hlookup.trans ?_).trans (hs₁.trans ?_)
      · exact .of_client rfl (fun _ => rfl) rfl rfl rfl
      · exact .of_client rfl (fun _ => rfl) rfl rfl rfl

theorem Safe.serveReceiver (h : Safe E s) {d : ℕ} {key : K} {receiver : ClientId}
    (hmem : receiver ∈ (s.db d).blockingKeys key) :
    (serveReceiver s d key receiver).Ensures E fun p => Moves s p.1 := by
  rw [BlockingServer.serveReceiver]
  refine (h.getClient receiver).bind fun c hc => ?_
  obtain ⟨c', hc', -, hkey⟩ := (h.waiting.queue d key receiver).mp hmem
  obtain rfl := Option.some_inj.mp (hc.symm.trans hc')
  have hblocked := (h.waiting.blocked receiver c hc (List.ne_nil_of_mem hkey)).1
  split
  · split
    · exact Relation.ReflTransGen.refl
    · rename_i expire _ _ value rest _
      have hset := setDict_still (s := s) d key (some ⟨.list rest, expire⟩)
      have hsafe := h.moves hset.moves
      have hunblock : (BlockingServer.unblockClient
          (setDict s d key (some ⟨.list rest, expire⟩)) receiver).Ensures E
            (Moves (setDict s d key (some ⟨.list rest, expire⟩))) := by
        refine hsafe.unblock_moves fun _ c' hc' => ?_
        obtain rfl := Option.some_inj.mp (hc.symm.trans hc')
        exact hblocked
      refine hunblock.bind fun s₁ hs₁ => ?_
      have hserve := (hsafe.moves hs₁).serveClientBlockedOnList (s := s₁) receiver key
        c.bpop.target d value c.side
      refine hserve.bind fun p hp => ?_
      have hmoves : Moves s p.1 := (hset.moves.trans hs₁).trans hp.moves
      dsimp only
      split
      · exact hmoves
      · split
        · exact hmoves.trans (setDict_still d key _).moves
        · exact h.fail Failure.noConfusion
  · exact h.fail Failure.noConfusion

theorem Safe.serveReceivers (d : ℕ) (key : K) (n : ℕ) {s : RedisServer K V} (h : Safe E s) :
    (serveReceivers d key n s).Ensures E (Moves s) := by
  induction n generalizing s with
  | zero => exact Relation.ReflTransGen.refl
  | succ n ih =>
    rw [BlockingServer.serveReceivers]
    split
    · exact h.fail Failure.noConfusion
    · rename_i receiver _ hqueue
      have hmem : receiver ∈ (s.db d).blockingKeys key := by
        rw [hqueue]
        exact List.mem_cons_self
      refine (h.serveReceiver hmem).bind fun p hp => ?_
      dsimp only
      split
      · exact (ih (h.moves hp)).imp fun _ hs => hp.trans hs
      · exact hp

theorem Safe.serveReadyKey (h : Safe E s) (rl : ℕ × K) :
    (serveReadyKey s rl).Ensures E (Moves s) := by
  rw [BlockingServer.serveReadyKey]
  have hlookup : Still s (lookupKeyWrite (clearReady s rl.1 rl.2) rl.1 rl.2).1 :=
    (clearReady_still s rl.1 rl.2).trans (lookupKeyWrite_still _ rl.1 rl.2)
  have hsafe := h.moves hlookup.moves
  dsimp only
  split
  · refine (hsafe.serveReceivers rl.1 rl.2 _).bind fun s₁ hs₁ => ?_
    exact (hlookup.moves.trans hs₁).trans (deleteIfEmpty_still s₁ rl.1 rl.2).moves
  · exact hlookup.moves

theorem Safe.handleReadyKeys (rounds : ℕ) {s : RedisServer K V} (h : Safe E s) :
    (handleReadyKeys rounds s).Ensures E (Moves s) := by
  induction rounds generalizing s with
  | zero =>
    rw [BlockingServer.handleReadyKeys]
    split
    · exact Relation.ReflTransGen.refl
    · exact h.fail Failure.noConfusion
  | succ rounds ih =>
    rw [BlockingServer.handleReadyKeys]
    split
    · exact Relation.ReflTransGen.refl
    · have hclear : Moves s { s with readyKeys := [] } :=
        Still.moves (.of_client rfl (fun _ => rfl) rfl rfl rfl)
      have hkeys : (s.readyKeys.foldlM BlockingServer.serveReadyKey
          { s with readyKeys := [] }).Ensures E (Moves s) := by
        refine Ensures.foldlM (fun s₁ rl _ hs₁ => ?_) hclear
        exact ((h.moves hs₁).serveReadyKey rl).imp fun _ hs₂ => hs₁.trans hs₂
      exact h.bind hkeys fun s₁ _ hsafe => ih hsafe

theorem Safe.handleClientsBlockedOnLists (h : Safe E s) :
    (handleClientsBlockedOnLists s).Ensures E (Moves s) := h.handleReadyKeys _

/-! ### Timeouts, replicas and the master -/

theorem Safe.clientsCronHandleTimeout (h : Safe E s) (id : ClientId) :
    (clientsCronHandleTimeout s id).Ensures E (Moves s) := by
  rw [BlockingServer.clientsCronHandleTimeout]
  refine (h.getClient id).bind fun c hc => ?_
  split
  · rename_i htimeout
    have hreply : (replyToBlockedClientTimedOut s id).Ensures E fun _ => True := by
      rw [replyToBlockedClientTimedOut, getClient_eq hc, ok_bind]
      split
      · rename_i hnone
        by_contra hE
        exact ((h.booked_of hE).canUnblock hc htimeout.1).btype hnone
      · trivial
    refine hreply.bind fun _ _ => h.unblock_moves fun _ c' hc' => ?_
    obtain rfl := Option.some_inj.mp (hc.symm.trans hc')
    exact htimeout.1
  · exact Relation.ReflTransGen.refl

theorem Safe.processClientWaitingReplicas {p : RedisServer K V × ℤ × ℤ} (h : Safe E p.1)
    (hmem : ¬E .redisPanic → id ∈ p.1.clientsWaitingAcks) :
    (processClientWaitingReplicas p id).Ensures E fun p' => Moves p.1 p'.1 ∧
      (¬E .redisPanic → ∀ i, i ≠ id → i ∈ p.1.clientsWaitingAcks →
        i ∈ p'.1.clientsWaitingAcks) := by
  obtain ⟨s, lastOffset, lastNumreplicas⟩ := p
  have hunblock : (BlockingServer.unblockClient s id).Ensures E fun s' => Moves s s' ∧
      (¬E .redisPanic → ∀ i, i ≠ id → i ∈ s.clientsWaitingAcks → i ∈ s'.clientsWaitingAcks) := by
    refine (h.unblockClient fun hE c hc => ?_).imp ?_
    · have hbooked : Booked s := h.booked_of hE
      obtain ⟨c', hc', hwait⟩ := (hbooked.acks id).mp (hmem hE)
      obtain rfl := Option.some_inj.mp (hc.symm.trans hc')
      exact (hbooked.flag id c hc).mpr (.inr hwait)
    · rintro _ ⟨c, hc, hcan, rfl⟩
      refine ⟨.single (.unblock hc hcan), fun _ i hi hacks => ?_⟩
      show i ∈ if c.btype = .wait then s.clientsWaitingAcks.erase id else s.clientsWaitingAcks
      split
      · exact (List.mem_erase_of_ne hi).mpr hacks
      · exact hacks
  rw [BlockingServer.processClientWaitingReplicas]
  refine (Safe.getClient h id).bind fun c _ => ?_
  dsimp only
  split
  · exact hunblock.bind fun _ hs => hs
  · split
    · exact hunblock.bind fun _ hs => hs
    · exact ⟨Relation.ReflTransGen.refl, fun _ _ _ hacks => hacks⟩

theorem Safe.processClientsWaitingReplicas (h : Safe E s) :
    (processClientsWaitingReplicas s).Ensures E (Moves s) := by
  rw [BlockingServer.processClientsWaitingReplicas]
  -- the clients that were not looked at yet are still in the list
  have hloop : (s.clientsWaitingAcks.foldlM BlockingServer.processClientWaitingReplicas
      (s, 0, 0)).Ensures E fun p => Moves s p.1 := by
    refine (Ensures.foldlM_prefix (I := fun done p => Moves s p.1 ∧
      (¬E .redisPanic → ∀ i ∈ s.clientsWaitingAcks, i ∉ done → i ∈ p.1.clientsWaitingAcks))
      (fun done id rest p hl hp => ?_) ⟨.refl, fun _ _ hi _ => hi⟩).imp fun _ hp => hp.1
    have hid : ¬E .redisPanic → id ∉ done := fun hE hdone => by
      have hnodup := (h.booked_of hE).acksNodup
      rw [hl] at hnodup
      exact List.disjoint_of_nodup_append hnodup hdone List.mem_cons_self
    have hmem : id ∈ s.clientsWaitingAcks := by
      rw [hl]
      exact List.mem_append_right _ List.mem_cons_self
    refine ((h.moves hp.1).processClientWaitingReplicas fun hE =>
      hp.2 hE id hmem (hid hE)).imp fun p' hp' => ⟨hp.1.trans hp'.1, fun hE i hi hdone => ?_⟩
    rw [List.mem_append, not_or, List.mem_singleton] at hdone
    exact hp'.2 hE i hdone.2 (hp.2 hE i hi hdone.1)
  exact hloop.bind fun _ hp => hp

theorem Safe.replicationDiscardCachedMaster (h : Safe E s) :
    (replicationDiscardCachedMaster s).Ensures E (Moves s) := by
  rw [BlockingServer.replicationDiscardCachedMaster]
  split
  · exact Relation.ReflTransGen.refl
  · rename_i id _
    refine (h.getClient id).bind fun c hc => ?_
    have hset : Still s (s.setClient id { c with master := false }) :=
      .setClient hc ⟨rfl, rfl, rfl, rfl, fun _ => rfl⟩ rfl
    refine ((h.moves hset.moves).freeClient id).bind fun s₁ hs₁ => ?_
    refine (hset.moves.trans hs₁).trans (Still.moves ?_)
    exact .of_client rfl (fun _ => rfl) rfl rfl rfl

omit [DecidableEq K] in
theorem Safe.replicationResurrectCachedMaster (h : Safe E s) :
    (replicationResurrectCachedMaster s).Ensures E (Moves s) := by
  rw [BlockingServer.replicationResurrectCachedMaster]
  split
  · exact h.fail Failure.noConfusion
  · rename_i id _
    refine (h.getClient id).bind fun c hc => ?_
    have hset : Still s (s.setClient id
        { c with connected := true, closeAfterReply := false, closeAsap := false }) :=
      .setClient hc ⟨rfl, rfl, rfl, rfl, fun _ => rfl⟩ rfl
    refine hset.moves.trans (Still.moves ?_)
    exact .of_client rfl (fun _ => rfl) rfl rfl rfl

/-! ### Commands that block -/

/-- The key has nothing that could be popped. -/
def nothingToPop (s : RedisServer K V) (d : ℕ) (key : K) : Bool :=
  match (s.db d).dict key with
  | none => true
  | some ⟨.list [], _⟩ => true
  | some e => expired s (some e)

/-- The command blocks the client, unless it is in a transaction or a script. -/
def Command.blocks (s : RedisServer K V) (c : RedisClient K V) : Command K V → Bool
  | .blockingPop _ key keys _ => (key :: keys).all fun k => nothingToPop s c.db k
  | .brpoplpush src _ _ => nothingToPop s c.db src
  | .wait numreplicas _ => replicationCountAcksByOffset s c.woff < numreplicas
  | _ => false

omit [DecidableEq K] in
theorem Command.blocks_congr {c' : RedisClient K V} (hdb : s'.db = s.db) (hnow : s'.now = s.now)
    (hmasterhost : s'.masterhost = s.masterhost) (hoffsets : s'.slaveOffsets = s.slaveOffsets)
    (hc : c'.db = c.db) (hwoff : c'.woff = c.woff) (cmd : Command K V) :
    cmd.blocks s' c' = cmd.blocks s c := by
  have hkey : ∀ k, nothingToPop s' c'.db k = nothingToPop s c.db k := fun k => by
    simp only [nothingToPop, expired, hdb, hnow, hmasterhost, hc]
  cases cmd with
  | blockingPop at_ key keys timeout => simp only [blocks, hkey]
  | brpoplpush src dst timeout => exact hkey src
  | wait numreplicas timeout =>
    have hacks : replicationCountAcksByOffset s' c'.woff = replicationCountAcksByOffset s c.woff := by
      rw [replicationCountAcksByOffset, replicationCountAcksByOffset, hoffsets, hwoff]
    simp only [blocks, hacks]
  | _ => rfl

theorem lookupKeyWrite_cases (s : RedisServer K V) (d : ℕ) (key : K) :
    lookupKeyWrite s d key = (s, (s.db d).dict key) ∨
      (expired s ((s.db d).dict key) = true ∧ (lookupKeyWrite s d key).2 = none) := by
  rw [lookupKeyWrite, expireIfNeeded]
  split
  · rename_i hexpired
    refine .inr ⟨hexpired, ?_⟩
    simp [dbDelete, setDict, RedisServer.setDb]
  · exact .inl rfl

omit [DecidableEq K] in
theorem nothingToPop_of_expired {d : ℕ} {key : K}
    (h : expired s ((s.db d).dict key) = true) : nothingToPop s d key = true := by
  rw [nothingToPop]
  split
  · rfl
  · rfl
  · rename_i e heq
    rw [← heq]
    exact h

theorem nothingToPop_of_lookup_none {d : ℕ} {key : K}
    (h : (lookupKeyWrite s d key).2 = none) : nothingToPop s d key = true := by
  rcases lookupKeyWrite_cases s d key with heq | ⟨hexpired, _⟩
  · rw [heq] at h
    simp only at h
    rw [nothingToPop, h]
  · exact nothingToPop_of_expired hexpired

theorem nothingToPop_of_lookup {d : ℕ} {key k : K}
    (h : nothingToPop (lookupKeyWrite s d key).1 d k = true) : nothingToPop s d k = true := by
  by_cases hexpired : expired s ((s.db d).dict key) = true
  · by_cases hk : k = key
    · subst hk
      exact nothingToPop_of_expired hexpired
    · rw [lookupKeyWrite, expireIfNeeded, if_pos hexpired] at h
      have hdict : ((dbDelete (record (propagate s d (.del key)) (.expire d key)) d key).db
          d).dict k = (s.db d).dict k := by
        simp [dbDelete, setDict, RedisServer.setDb, record, propagate, hk]
      rw [nothingToPop, hdict] at h
      exact h
  · rw [lookupKeyWrite, expireIfNeeded, if_neg hexpired] at h
    exact h

theorem listTypePop_eq_none {l : List V} {at_ : Where} (h : listTypePop l at_ = none) : l = [] := by
  cases l with
  | nil => rfl
  | cons v l =>
    cases at_ with
    | head => cases h
    | tail =>
      rw [listTypePop, List.getLast?_eq_some_getLast (List.cons_ne_nil v l)] at h
      cases h

theorem blockingPopKeys_false {d : ℕ} {at_ : Where} (keys : List K)
    (h : (blockingPopKeys d at_ s keys).2 = false) : ∀ k ∈ keys, nothingToPop s d k = true := by
  induction keys generalizing s with
  | nil => exact fun k hk => absurd hk List.not_mem_nil
  | cons key keys ih =>
    rw [blockingPopKeys] at h
    dsimp only at h
    have hrest : (∀ k ∈ keys, nothingToPop (lookupKeyWrite s d key).1 d k = true) →
        nothingToPop s d key = true → ∀ k ∈ key :: keys, nothingToPop s d k = true := by
      intro hkeys hkey k hk
      rcases List.mem_cons.mp hk with rfl | hk
      · exact hkey
      · exact nothingToPop_of_lookup (hkeys k hk)
    split at h
    · rename_i hnone
      exact hrest (ih h) (nothingToPop_of_lookup_none hnone)
    · rename_i e heq
      split at h
      · cases h
      · rename_i l hlist
        split at h
        · rename_i hpop
          obtain rfl := listTypePop_eq_none hpop
          refine hrest (ih h) ?_
          rcases lookupKeyWrite_cases s d key with hsame | ⟨_, hnone⟩
          · rw [hsame] at heq
            obtain ⟨value, expire⟩ := e
            obtain rfl : value = .list [] := hlist
            simp only at heq
            rw [nothingToPop, heq]
          · rw [hnone] at heq
            cases heq
        · cases h

theorem blockingPopKeys_still (s : RedisServer K V) (d : ℕ) (at_ : Where) (keys : List K) :
    Still s (blockingPopKeys d at_ s keys).1 := by
  induction keys generalizing s with
  | nil => exact .refl s
  | cons key keys ih =>
    rw [blockingPopKeys]
    refine (lookupKeyWrite_still s d key).trans ?_
    dsimp only
    split
    · exact ih _
    · split
      · exact .refl _
      · split
        · exact ih _
        · split
          · exact (setDict_still d key _).trans (setDict_still d key none)
          · exact setDict_still d key _

/-! ### `call` -/

omit [DecidableEq K] in
theorem Safe.same (h : Safe E s) (hsame : SameBook s s') : Safe E s' :=
  ⟨h.waiting.same hsame, h.booked.imp_left fun hb => hb.same hsame, h.errors⟩

theorem Safe.clientKill (h : Safe E s) (script : Bool) (target : ClientId) :
    (clientKill s id script target).Ensures E (Moves s) := by
  rw [BlockingServer.clientKill]
  split
  · exact Relation.ReflTransGen.refl
  · split
    · refine (h.getClient id).bind fun c hc => ?_
      exact Still.moves (.setClient hc ⟨rfl, rfl, rfl, rfl, fun _ => rfl⟩ rfl)
    · exact h.freeClient target

/-- A command that does not block: it is called by a script or in a transaction, or it finds
what it waits for. -/
theorem Safe.call_moves (h : Safe E s) (hc : s.client id = some c) (hblocked : c.blocked = false)
    {script : Bool} {cmd : Command K V}
    (hquiet : script = true ∨ c.multi = true ∨ cmd.blocks s c = false) :
    (call id script s cmd).Ensures E (Moves s) := by
  rw [call, getClient_eq hc, ok_bind]
  have hset : ∀ {c' : RedisClient K V}, SameFlags c c' → c'.multi = c.multi →
      Moves s (s.setClient id c') := fun hflags hmulti => (Still.setClient hc hflags hmulti).moves
  cases cmd with
  | push at_ key value values =>
    exact (h.pushGenericCommand c.db at_ key _).imp fun _ hs => hs.moves
  | pop at_ key => exact (popGenericCommand_still s c.db at_ key).moves
  | rpoplpush src dst => exact (h.rpoplpushCommand c.db src dst).imp fun _ hs => hs.moves
  | rename src dst nx => exact (h.renameGenericCommand c.db src dst nx).imp fun _ hs => hs.moves
  | move key dst => exact (h.moveCommand c.db key dst).imp fun _ hs => hs.moves
  | sortStore key dst sort => exact (sortStoreCommand_still s c.db key dst sort).moves
  | restore key val ttl replace =>
    exact (h.restoreCommand c.db key val ttl replace).imp fun _ hs => hs.moves
  | data op => exact Still.moves (.of_client rfl (fun _ => rfl) rfl rfl rfl)
  | select db =>
    refine hset ⟨rfl, rfl, rfl, rfl, fun hne => ?_⟩ rfl
    exact absurd (h.waiting.keys_nil hc hblocked) hne
  | clientPause end_ => exact Still.moves (.of_client rfl (fun _ => rfl) rfl rfl rfl)
  | clientKill target => exact h.clientKill script target
  | sync =>
    dsimp only
    split
    · exact Relation.ReflTransGen.refl
    · exact hset ⟨rfl, rfl, rfl, rfl, fun _ => rfl⟩ rfl
  | blockingPop at_ key keys timeout =>
    have hstill := blockingPopKeys_still s c.db at_ (key :: keys)
    dsimp only
    split
    · exact Relation.ReflTransGen.refl
    · rename_i hscript
      rw [blockingPopGenericCommand]
      dsimp only
      rw [if_pos]
      · exact hstill.moves
      · -- one of the keys has an element
        by_contra hover
        rw [not_or, Bool.not_eq_true] at hover
        have hall := blockingPopKeys_false (key :: keys) hover.1
        rcases hquiet with hquiet | hquiet | hquiet
        · exact hscript hquiet
        · exact hover.2 hquiet
        · rw [Command.blocks, List.all_eq_true.mpr hall] at hquiet
          cases hquiet
  | brpoplpush src dst timeout =>
    have hstill := lookupKeyWrite_still s c.db src
    dsimp only
    split
    · exact Relation.ReflTransGen.refl
    · rename_i hscript
      rw [brpoplpushCommand]
      dsimp only
      split
      · rename_i hnone
        rw [if_pos]
        · exact hstill.moves
        · refine (hquiet.resolve_left hscript).resolve_right fun hquiet => ?_
          rw [Command.blocks, nothingToPop_of_lookup_none hnone] at hquiet
          cases hquiet
      · split
        · exact hstill.moves
        · refine (h.assert _).bind fun _ _ => ?_
          exact (hstill.then (h.rpoplpushCommand c.db src dst)).imp fun _ hs => hs.moves
  | wait numreplicas timeout =>
    dsimp only
    split
    · exact Relation.ReflTransGen.refl
    · rename_i hscript
      rw [waitCommand, getClient_eq hc, ok_bind, if_pos]
      · exact Relation.ReflTransGen.refl
      · refine (hquiet.resolve_left hscript).symm.imp_left fun hquiet => ?_
        rw [Command.blocks, decide_eq_false_iff_not, not_lt] at hquiet
        exact hquiet

theorem Safe.blockForKeys (h : Safe E s) (hstill : Still s s') (hc : s.client id = some c)
    (hblocked : c.blocked = false) (hunblocked : ¬E .redisPanic → c.unblocked = false)
    {keys : List K} (hne : keys ≠ []) (timeout : ℤ) (target : Option K) :
    (blockForKeys s' id keys timeout target).Ensures E (Safe E) := by
  have hsafe := h.moves hstill.moves
  obtain ⟨c', hc', hflags⟩ := hstill.client id c hc
  have hblocked' := hflags.blocked.trans hblocked
  have hkeys := hsafe.waiting.keys_nil hc' hblocked'
  rw [blockForKeys_eq hc' hkeys]
  refine ⟨hsafe.waiting.blockedFor hc' hkeys keys timeout target, ?_, h.errors⟩
  by_cases hE : E .redisPanic
  · exact .inr hE
  · refine .inl ((hsafe.booked_of hE).blockedFor hc' hblocked' ?_ hne timeout target)
    exact hflags.unblocked.trans (hunblocked hE)

omit [DecidableEq K] in
theorem Safe.waitForReplicas (h : Safe E s) (hc : s.client id = some c)
    (hblocked : c.blocked = false) (hunblocked : ¬E .redisPanic → c.unblocked = false)
    (numreplicas timeout offset : ℤ) :
    (waitForReplicas s id numreplicas timeout offset).Ensures E (Safe E) := by
  have hkeys := h.waiting.keys_nil hc hblocked
  rw [waitForReplicas_eq hc]
  refine ⟨h.waiting.waitingForReplicas hc hkeys numreplicas timeout offset, ?_, h.errors⟩
  by_cases hE : E .redisPanic
  · exact .inr hE
  · exact .inl ((h.booked_of hE).waitingForReplicas hc hblocked (hunblocked hE) numreplicas
      timeout offset)

/-- A command may block the client that sends it, if the client is not in the list of the
unblocked clients. -/
theorem Safe.call (h : Safe E s) (hc : s.client id = some c) (hblocked : c.blocked = false)
    {cmd : Command K V}
    (hok : ¬E .redisPanic → cmd.blocks s c = true → c.unblocked = false) :
    (call id false s cmd).Ensures E (Safe E) := by
  by_cases hquiet : c.multi = true ∨ cmd.blocks s c = false
  · exact (h.call_moves hc hblocked (.inr hquiet)).imp fun _ hs => h.moves hs
  rw [not_or, Bool.not_eq_true, Bool.not_eq_false] at hquiet
  have hunblocked := fun hE => hok hE hquiet.2
  cases cmd with
  | blockingPop at_ key keys timeout =>
    have hstill := blockingPopKeys_still s c.db at_ (key :: keys)
    rw [BlockingServer.call, getClient_eq hc, ok_bind]
    show (blockingPopGenericCommand s id c.db c.multi at_ (key :: keys) timeout).Ensures E (Safe E)
    rw [blockingPopGenericCommand]
    dsimp only
    split
    · exact h.moves hstill.moves
    · exact h.blockForKeys hstill hc hblocked hunblocked (List.cons_ne_nil key keys) timeout none
  | brpoplpush src dst timeout =>
    have hstill := lookupKeyWrite_still s c.db src
    rw [BlockingServer.call, getClient_eq hc, ok_bind]
    show (brpoplpushCommand s id c.db c.multi src dst timeout).Ensures E (Safe E)
    rw [brpoplpushCommand]
    dsimp only
    split
    · split
      · exact h.moves hstill.moves
      · exact h.blockForKeys hstill hc hblocked hunblocked (List.cons_ne_nil src []) timeout _
    · split
      · exact h.moves hstill.moves
      · refine (h.assert _).bind fun _ _ => ?_
        exact (hstill.then (h.rpoplpushCommand c.db src dst)).imp fun _ hs => h.moves hs.moves
  | wait numreplicas timeout =>
    rw [BlockingServer.call, getClient_eq hc, ok_bind]
    show (waitCommand s id numreplicas timeout).Ensures E (Safe E)
    rw [waitCommand, getClient_eq hc, ok_bind]
    split
    · exact h
    · exact h.waitForReplicas hc hblocked hunblocked numreplicas timeout c.woff
  | _ => cases hquiet.2

theorem Safe.callAll (h : Safe E s) (hc : s.client id = some c) (hblocked : c.blocked = false)
    {cmds : List (Bool × Command K V)}
    (hquiet : c.multi = true ∨ ∀ cmd ∈ cmds, cmd.1 = true) :
    (callAll id cmds s).Ensures E (Moves s) := by
  rw [BlockingServer.callAll]
  refine Ensures.foldlM (fun s₁ cmd hcmd hs₁ => ?_) .refl
  have hsafe := h.moves hs₁
  cases hc₁ : s₁.client id with
  | none =>
    rw [BlockingServer.call, RedisServer.getClient, hc₁]
    exact h.fail Failure.noConfusion
  | some c₁ =>
    obtain ⟨c', hc', hmulti, hkeep⟩ := hs₁.client hc₁
    obtain rfl := Option.some_inj.mp (hc.symm.trans hc')
    refine (hsafe.call_moves hc₁ (hkeep hblocked) ?_).imp fun _ hs₂ => hs₁.trans hs₂
    rcases hquiet with hquiet | hquiet
    · exact .inr (.inl (hmulti.trans hquiet))
    · exact .inl (hquiet cmd hcmd)

/-! ### Requests -/

theorem Safe.afterCall (h : Safe E s) (id : ClientId) : (afterCall s id).Ensures E (Safe E) := by
  rw [BlockingServer.afterCall]
  refine (h.getClient id).bind fun c hc => ?_
  have hsafe : Safe E (s.setClient id { c with woff := s.masterReplOffset }) :=
    h.same (.setClient hc ⟨rfl, rfl, rfl, rfl, fun _ => rfl⟩)
  exact hsafe.handleClientsBlockedOnLists.imp fun _ hs => hsafe.moves hs

omit [DecidableEq K] in
theorem Safe.discardTransaction (h : Safe E s) (id : ClientId) :
    (discardTransaction s id).Ensures E (Safe E) := by
  rw [BlockingServer.discardTransaction]
  refine (h.getClient id).bind fun c hc => ?_
  exact h.same (.setClient hc ⟨rfl, rfl, rfl, rfl, fun _ => rfl⟩)

theorem Safe.processCommand (h : Safe E s) (hc : s.client id = some c)
    (hblocked : c.blocked = false) {request : Request K V}
    (hok : ¬E .redisPanic → c.multi = false → ∀ cmd, request = .command cmd →
      cmd.blocks s c = true → c.unblocked = false) :
    (processCommand s id request).Ensures E (Safe E) := by
  rw [BlockingServer.processCommand, getClient_eq hc, ok_bind]
  set c₁ : RedisClient K V := { c with lastcmd := request.lastcmd c.lastcmd }
  dsimp only
  have hflags : SameFlags c c₁ := ⟨rfl, rfl, rfl, rfl, fun _ => rfl⟩
  have hmulti : c₁.multi = c.multi := rfl
  have hsafe : Safe E (s.setClient id c₁) := h.same (.setClient hc hflags)
  have hself : (s.setClient id c₁).client id = some c₁ := Function.update_self id _ _
  have hblocked₁ := hflags.blocked.trans hblocked
  have hset : ∀ {c' : RedisClient K V}, SameFlags c₁ c' →
      Safe E ((s.setClient id c₁).setClient id c') := fun hflags => hsafe.same (.setClient hself hflags)
  have hend : ∀ {x : Except Failure (RedisServer K V)}, x.Ensures E (Safe E) →
      (x >>= fun s => BlockingServer.afterCall s id).Ensures E (Safe E) :=
    fun hx => hx.bind fun s₁ hs₁ => hs₁.afterCall id
  cases request with
  | refused => exact hsafe
  | quit => exact hset ⟨rfl, rfl, rfl, rfl, fun _ => rfl⟩
  | multi =>
    have hsafe' : Safe E ((s.setClient id c₁).setClient id { c₁ with multi := true }) :=
      hset ⟨rfl, rfl, rfl, rfl, fun _ => rfl⟩
    exact hsafe'.afterCall id
  | discard =>
    refine hend ?_
    split
    · exact hsafe.discardTransaction id
    · exact hsafe
  | exec dirty =>
    have hcmds : (BlockingServer.callAll id ((Request.exec dirty).cmds c₁)
        (s.setClient id c₁)).Ensures E (Safe E) := by
      rw [Request.cmds]
      split
      · rename_i hexec
        exact (hsafe.callAll hself hblocked₁ (.inl hexec.1)).imp fun _ hs => hsafe.moves hs
      · exact hsafe
    refine hcmds.bind fun s₁ hs₁ => hend ?_
    split
    · exact hs₁.discardTransaction id
    · exact hs₁
  | script cmds =>
    dsimp only
    split
    · exact hset ⟨rfl, rfl, rfl, rfl, fun _ => rfl⟩
    · rename_i hno
      refine hend ?_
      rw [Request.cmds, if_neg hno]
      refine (hsafe.callAll hself hblocked₁ (.inr fun cmd hcmd => ?_)).imp
        fun _ hs => hsafe.moves hs
      obtain ⟨_, -, rfl⟩ := List.mem_map.mp hcmd
      rfl
  | command cmd =>
    dsimp only
    split
    · exact hset ⟨rfl, rfl, rfl, rfl, fun _ => rfl⟩
    · rename_i hno
      refine hend ?_
      have hblocks : cmd.blocks (s.setClient id c₁) c₁ = cmd.blocks s c :=
        Command.blocks_congr rfl rfl rfl rfl rfl rfl cmd
      rw [Request.cmds, if_neg hno, BlockingServer.callAll, List.foldlM_cons]
      refine (hsafe.call hself hblocked₁ fun hE hb => ?_).bind fun _ hs => hs
      rw [hmulti, Bool.not_eq_true] at hno
      exact hflags.unblocked.trans (hok hE hno cmd rfl (hblocks ▸ hb))

/-! ### Steps -/

/-- The next request of the client is executed. -/
def executes (s : RedisServer K V) (c : RedisClient K V) : Bool :=
  (c.slave || !(clientsArePaused s).2) && !c.blocked && !c.closeAfterReply

/-- A round of `processInputBuffer` for a client with a request: a pause that ends has no
clients to put into the list, and a client in the list does not block. -/
structure RequestOk (s : RedisServer K V) (c : RedisClient K V) (request : Request K V) : Prop where
  pause : c.slave = false → pauseOver s = true → notSlaves s = []
  block : ∀ cmd, request = .command cmd → executes s c = true → c.multi = false →
    cmd.blocks s c = true → c.unblocked = false

/-- No pause ends with clients to put into the list, and no client blocks while it is in the
list of the unblocked clients. -/
def StepOk (s : RedisServer K V) : Event K V → Prop
  | .clientsArePaused => pauseOver s = true → notSlaves s = []
  | .processInputBuffer id => ∀ c request rest, s.client id = some c →
      c.querybuf = request :: rest → RequestOk s c request
  | _ => True

omit [DecidableEq K] in
theorem Safe.clientsArePaused (h : Safe E s)
    (hpause : ¬E .redisPanic → pauseOver s = true → notSlaves s = []) :
    Safe E (clientsArePaused s).1 := by
  rw [BlockingServer.clientsArePaused]
  split
  · rename_i hover
    refine ⟨⟨h.waiting.queue, h.waiting.nodup, h.waiting.keysNodup, h.waiting.blocked⟩, ?_, h.errors⟩
    by_cases hE : E .redisPanic
    · exact .inr hE
    · refine .inl ((h.booked_of hE).same (.of_client rfl (fun _ => rfl) ?_ rfl rfl))
      show s.unblockedClients ++ notSlaves s = s.unblockedClients
      rw [hpause hE hover, List.append_nil]
  · exact h

theorem Safe.processInputBufferRound (h : Safe E s) (id : ClientId)
    (hok : ¬E .redisPanic → StepOk s (.processInputBuffer id)) :
    (processInputBufferRound s id).Ensures E (Safe E) := by
  rw [BlockingServer.processInputBufferRound]
  refine (h.getClient id).bind fun c hc => ?_
  split
  · exact h
  · rename_i request rest hbuf
    have hreq : ¬E .redisPanic → RequestOk s c request := fun hE => hok hE c request rest hc hbuf
    set p : RedisServer K V × Bool := if c.slave then (s, false) else BlockingServer.clientsArePaused s
      with hp
    have hsafe : Safe E p.1 := by
      rw [hp]
      split
      · exact h
      · rename_i hslave
        exact h.clientsArePaused fun hE => (hreq hE).pause (Bool.not_eq_true _ ▸ hslave)
    have hdb : p.1.db = s.db ∧ p.1.client = s.client ∧ p.1.now = s.now ∧
        p.1.masterhost = s.masterhost ∧ p.1.slaveOffsets = s.slaveOffsets := by
      rw [hp]
      split
      · exact ⟨rfl, rfl, rfl, rfl, rfl⟩
      · rw [BlockingServer.clientsArePaused]
        split
        · exact ⟨rfl, rfl, rfl, rfl, rfl⟩
        · exact ⟨rfl, rfl, rfl, rfl, rfl⟩
    obtain ⟨hdb, hclient, hnow, hmasterhost, hoffsets⟩ := hdb
    show (if p.2 ∨ c.blocked ∨ c.closeAfterReply then ok p.1
      else BlockingServer.processCommand (p.1.setClient id { c with querybuf := rest }) id
        request).Ensures E (Safe E)
    split
    · exact hsafe
    · rename_i hgo
      simp only [not_or, Bool.not_eq_true] at hgo
      have hc' : p.1.client id = some c := hclient ▸ hc
      have hsafe' : Safe E (p.1.setClient id { c with querybuf := rest }) :=
        hsafe.same (.setClient hc' ⟨rfl, rfl, rfl, rfl, fun _ => rfl⟩)
      refine hsafe'.processCommand (Function.update_self id _ _) hgo.2.1
        fun hE hmulti cmd hcmd hblocks => (hreq hE).block cmd hcmd ?_ hmulti ?_
      · have hpaused : (c.slave || !(BlockingServer.clientsArePaused s).2) = true := by
          have hp₂ := hgo.1
          rw [hp] at hp₂
          split at hp₂
          · rename_i hslave
            rw [hslave, Bool.true_or]
          · rw [hp₂, Bool.not_false, Bool.or_true]
        rw [executes, hpaused, hgo.2.1, hgo.2.2]
        rfl
      · rw [← hblocks]
        symm
        exact Command.blocks_congr hdb hnow hmasterhost hoffsets rfl rfl cmd

omit [DecidableEq K] in
/-- A client leaves the list of the unblocked clients: it is not blocked, so that its type does
not change. -/
theorem Booked.processed (h : Booked s) (hc : s.client id = some c) {rest : List ClientId}
    (hlist : s.unblockedClients = id :: rest)
    (hwaiting : Waiting ({ s with unblockedClients := rest }.setClient id
      { c with unblocked := false, btype := .none })) :
    Booked ({ s with unblockedClients := rest }.setClient id
      { c with unblocked := false, btype := .none }) := by
  have hset : ClientSet s ({ s with unblockedClients := rest }.setClient id
      { c with unblocked := false, btype := .none }) id
      (some { c with unblocked := false, btype := .none }) := rfl
  have hunblocked : c.unblocked = true := by
    obtain ⟨c', hc', hunblocked⟩ := (h.unblocked id).mp (hlist ▸ List.mem_cons_self)
    obtain rfl := Option.some_inj.mp (hc.symm.trans hc')
    exact hunblocked
  have hblocked : c.blocked = false := by
    by_contra hblocked
    exact h.apart id c hc ⟨Bool.not_eq_false _ ▸ hblocked, hunblocked⟩
  have hnone := h.btype_none hc hblocked
  have hnodup := List.nodup_cons.mp (hlist ▸ h.unblockedNodup)
  refine ⟨hwaiting, ?_, ?_, ?_, hnodup.2, ?_, h.acksNodup, ?_, ?_⟩
  · refine hset.all (fun c' hc' => ?_) h.flag
    obtain rfl := Option.some_inj.mp hc'
    simp [hblocked]
  · refine hset.all (fun c' hc' => ?_) h.keys
    obtain rfl := Option.some_inj.mp hc'
    simp [h.toWaiting.keys_nil hc hblocked]
  · refine h.count.keep hset ?_
    simp [hc]
  · refine hset.mem_iff h.unblocked (fun i hi => ?_) ?_
    · rw [hlist, List.mem_cons]
      exact (or_iff_right hi).symm
    · refine iff_of_false hnodup.1 ?_
      simp
  · refine hset.mem_iff h.acks (fun _ _ => Iff.rfl) ?_
    show id ∈ s.clientsWaitingAcks ↔ _
    rw [h.acks]
    simp [hc, hnone]
  · refine hset.all (fun c' hc' => ?_) h.apart
    obtain rfl := Option.some_inj.mp hc'
    simp

omit [DecidableEq K] in
theorem Safe.processUnblockedClient (h : Safe E s) :
    (processUnblockedClient s).Ensures E (Safe E) := by
  rw [BlockingServer.processUnblockedClient]
  split
  · exact h
  · rename_i id rest hlist
    refine (h.getClient id).bind fun c hc => ?_
    have hset : ClientSet s ({ s with unblockedClients := rest }.setClient id
        { c with unblocked := false, btype := .none }) id
        (some { c with unblocked := false, btype := .none }) := rfl
    have hwaiting : Waiting ({ s with unblockedClients := rest }.setClient id
        { c with unblocked := false, btype := .none }) := by
      refine ⟨fun d k => ?_, h.waiting.nodup, ?_, ?_⟩
      · refine hset.mem_iff (h.waiting.queue d k) (fun _ _ => Iff.rfl) ?_
        show id ∈ (s.db d).blockingKeys k ↔ _
        rw [h.waiting.queue]
        simp [hc]
      · refine hset.all (fun c' hc' => ?_) h.waiting.keysNodup
        obtain rfl := Option.some_inj.mp hc'
        exact h.waiting.keysNodup id c hc
      · refine hset.all (fun c' hc' hne => ?_) h.waiting.blocked
        obtain rfl := Option.some_inj.mp hc'
        exact ⟨(h.waiting.blocked id c hc hne).1, BlockType.noConfusion⟩
    refine ⟨hwaiting, h.booked.imp_left fun hbooked => ?_, h.errors⟩
    exact hbooked.processed hc hlist hwaiting

omit [DecidableEq K] in
theorem Safe.connect (h : Safe E s) (hfree : s.client id = none) (c : RedisClient K V)
    (hkeys : c.bpop.keys = []) (hblocked : c.blocked = false) (hunblocked : c.unblocked = false)
    (hbtype : c.btype = .none) (hset : ClientSet s s' id (some c))
    (hqueues : ∀ d, (s'.db d).blockingKeys = (s.db d).blockingKeys)
    (hlist : s'.unblockedClients = s.unblockedClients)
    (hacks : s'.clientsWaitingAcks = s.clientsWaitingAcks)
    (hcount : s'.bpopBlockedClients = s.bpopBlockedClients) : Safe E s' := by
  have hwaiting : Waiting s' := by
    refine ⟨fun d k => ?_, fun d k => hqueues d ▸ h.waiting.nodup d k, ?_, ?_⟩
    · rw [hqueues]
      refine hset.mem_iff (h.waiting.queue d k) (fun _ _ => Iff.rfl) ?_
      rw [h.waiting.queue]
      simp [hfree, hkeys]
    · refine hset.all (fun c' hc' => ?_) h.waiting.keysNodup
      obtain rfl := Option.some_inj.mp hc'
      rw [hkeys]
      exact List.nodup_nil
    · refine hset.all (fun c' hc' hne => ?_) h.waiting.blocked
      obtain rfl := Option.some_inj.mp hc'
      exact absurd hkeys hne
  refine ⟨hwaiting, h.booked.imp_left fun hbooked => ?_, h.errors⟩
  refine ⟨hwaiting, ?_, ?_, ?_, hlist ▸ hbooked.unblockedNodup, ?_, hacks ▸ hbooked.acksNodup, ?_, ?_⟩
  · refine hset.all (fun c' hc' => ?_) hbooked.flag
    obtain rfl := Option.some_inj.mp hc'
    simp [hblocked, hbtype]
  · refine hset.all (fun c' hc' => ?_) hbooked.keys
    obtain rfl := Option.some_inj.mp hc'
    simp [hkeys, hbtype]
  · rw [hcount]
    refine hbooked.count.keep hset ?_
    simp [hfree, hblocked]
  · rw [hlist]
    refine hset.mem_iff hbooked.unblocked (fun _ _ => Iff.rfl) ?_
    rw [hbooked.unblocked]
    simp [hfree, hunblocked]
  · rw [hacks]
    refine hset.mem_iff hbooked.acks (fun _ _ => Iff.rfl) ?_
    rw [hbooked.acks]
    simp [hfree, hbtype]
  · refine hset.all (fun c' hc' => ?_) hbooked.apart
    obtain rfl := Option.some_inj.mp hc'
    simp [hblocked]

theorem Safe.process (h : Safe E s) (e : Event K V) (hok : ¬E .redisPanic → StepOk s e) :
    (process s e).Ensures E (Safe E) := by
  have hsame : ∀ {s' : RedisServer K V}, SameBook s s' → Safe E s' := h.same
  have hmoves : ∀ {x : Except Failure (RedisServer K V)}, x.Ensures E (Moves s) →
      x.Ensures E (Safe E) := fun hx => hx.imp fun _ hs => h.moves hs
  cases e with
  | connect id =>
    rw [BlockingServer.process]
    split
    · exact h.fail Failure.noConfusion
    · rename_i hfree
      have hnone : s.client id = none := by simpa using hfree
      exact h.connect hnone newClient rfl rfl rfl rfl rfl (fun _ => rfl) rfl rfl rfl
  | read id requests =>
    refine (h.getClient id).bind fun c hc => ?_
    exact hsame (.setClient hc ⟨rfl, rfl, rfl, rfl, fun _ => rfl⟩)
  | processInputBuffer id => exact h.processInputBufferRound id hok
  | freeClient id => exact hmoves (h.freeClient id)
  | freeClientAsync id =>
    refine (h.getClient id).bind fun c hc => ?_
    exact hsame (.setClient hc ⟨rfl, rfl, rfl, rfl, fun _ => rfl⟩)
  | clientsCronHandleTimeout id => exact hmoves (h.clientsCronHandleTimeout id)
  | processClientsWaitingReplicas => exact hmoves h.processClientsWaitingReplicas
  | processUnblockedClient => exact h.processUnblockedClient
  | clientsArePaused => exact h.clientsArePaused hok
  | pauseClients end_ => exact hsame (.of_client rfl (fun _ => rfl) rfl rfl rfl)
  | tick now mstime masterReplOffset slaveOffsets =>
    exact hsame (.of_client rfl (fun _ => rfl) rfl rfl rfl)
  | data op => exact hsame (.of_client rfl (fun _ => rfl) rfl rfl rfl)
  | load data => exact hsame (.of_client rfl (fun _ => rfl) rfl rfl rfl)
  | masterClient id =>
    rw [BlockingServer.process]
    split
    · exact h.fail Failure.noConfusion
    · rename_i hfree
      have hnone : s.client id = none := by simpa using (not_or.mp hfree).1
      exact h.connect hnone { newClient with master := true } rfl rfl rfl rfl rfl
        (fun _ => rfl) rfl rfl rfl
  | replicationDiscardCachedMaster => exact hmoves h.replicationDiscardCachedMaster
  | replicationResurrectCachedMaster => exact hmoves h.replicationResurrectCachedMaster
  | setMasterhost masterhost => exact hsame (.of_client rfl (fun _ => rfl) rfl rfl rfl)

/-! ### Runs -/

omit [DecidableEq K] in
theorem initServer_booked (data : ℕ → Dataset K V) : Booked (initServer data) where
  queue d k id := by simp [initServer]
  nodup d k := List.nodup_nil
  keysNodup id c hc := by cases hc
  blocked id c hc := by cases hc
  flag id c hc := by cases hc
  keys id c hc := by cases hc
  count := ⟨∅, by simp [initServer], rfl⟩
  unblockedNodup := List.nodup_nil
  unblocked id := by simp [initServer]
  acksNodup := List.nodup_nil
  acks id := by simp [initServer]
  apart id c hc := by cases hc

theorem run_safe {data : ℕ → Dataset K V} {es : List (Event K V)}
    (hE : ∀ e, e ≠ .redisPanic → E e)
    (hall : Runs.AllSteps step (fun s e => ¬E .redisPanic → StepOk s e) (initServer data) es)
    (hrun : Runs.run step (initServer data) es = some s) : Safe E s := by
  refine Runs.run_invariant_of_allSteps (fun s e s' hs hok hstep => ?_)
    ⟨(initServer_booked data).toWaiting, .inl (initServer_booked data), hE⟩ hall hrun
  exact (Safe.process hs e hok).of_eq_ok (toOption_eq_some.mp hstep)

/-- **The bookkeeping of blocked clients** is right in every run in which no pause ends with
clients to put into the list, and no client blocks while it is in the list of the unblocked
clients: no event panics. -/
theorem run_booked {data : ℕ → Dataset K V} {es : List (Event K V)}
    (hall : Runs.AllSteps step StepOk (initServer data) es)
    (hrun : Runs.run step (initServer data) es = some s) :
    Booked s ∧ ∀ e, StepOk s e → process s e ≠ .error .redisPanic := by
  have hsafe : Safe (fun e => e ≠ .redisPanic) s :=
    run_safe (fun _ he => he) (hall.mono fun _ _ hok _ => hok) hrun
  refine ⟨hsafe.booked_of fun h => h rfl, fun e hok hpanic => ?_⟩
  exact (hsafe.process e fun _ => hok).of_eq_error hpanic rfl

/-- In every run the queues of the keys agree with the keys of the clients. -/
theorem run_waiting {data : ℕ → Dataset K V} {es : List (Event K V)}
    (hrun : Runs.run step (initServer data) es = some s) : Waiting s := by
  refine Runs.run_invariant (fun s e s' hs hstep => ?_) (initServer_booked data).toWaiting hrun
  have hsafe : Safe (fun _ => True) s := ⟨hs, .inr trivial, fun _ _ => trivial⟩
  exact ((hsafe.process e fun h => absurd trivial h).of_eq_ok (toOption_eq_some.mp hstep)).waiting

end

/-! ### Runs on concrete input -/

/-- A client waits for a list and is served by another one. -/
def servedEvents : List (Event ℕ ℕ) :=
  [.connect 1, .connect 2, .read 1 [.command (.blockingPop .head 0 [] 0)], .processInputBuffer 1,
    .read 2 [.command (.push .tail 0 5 [])], .processInputBuffer 2]

/-- The client blocks again before the list of the unblocked clients is processed. -/
def blockedTwice : List (Event ℕ ℕ) :=
  servedEvents ++ [.read 1 [.command (.blockingPop .head 0 [] 0)], .processInputBuffer 1,
    .processUnblockedClient, .read 2 [.command (.push .tail 0 5 [])]]

/-- The queues of a run in which the other books are wrong. -/
theorem run_waiting_twice : ∃ s,
    Runs.run step (initServer fun _ _ => none) blockedTwice = some s ∧ Waiting s := by
  obtain ⟨s, hrun⟩ : ∃ s,
      Runs.run step (initServer fun _ _ => none) blockedTwice = some s := ⟨_, rfl⟩
  exact ⟨s, hrun, run_waiting hrun⟩

/-- A pause ends while a client is connected. -/
def pausedEvents : List (Event ℕ ℕ) :=
  [.connect 1, .pauseClients 5, .tick 9 9 0 [], .clientsArePaused]

/-- A client that is blocked and has no type of blocking makes `unblockClient` panic, and a
pause puts clients without the flag into the list. -/
theorem not_run_booked :
    (∃ s, Runs.run step (initServer fun _ _ => none) blockedTwice = some s ∧ ¬Booked s ∧
      process s (.processInputBuffer 2) = .error .redisPanic) ∧
    ∃ s, Runs.run step (initServer fun _ _ => none) pausedEvents = some s ∧ ¬Booked s := by
  refine ⟨⟨_, rfl, fun hbooked => ?_, rfl⟩, _, rfl, fun hbooked => ?_⟩
  · have hflag := (hbooked.flag 1 _ rfl).mp rfl
    exact hflag.elim BlockType.noConfusion BlockType.noConfusion
  · obtain ⟨c, hc, hunblocked⟩ := (hbooked.unblocked 1).mp List.mem_cons_self
    obtain rfl := Option.some_inj.mp hc
    cases hunblocked

theorem stepOk_of_unblocked {K V : Type} {s : RedisServer K V} {id : ClientId}
    {c : RedisClient K V} (hc : s.client id = some c) (hpause : pauseOver s = false)
    (hunblocked : c.unblocked = false) : StepOk s (.processInputBuffer id) := by
  intro c' request rest hc' _
  obtain rfl := Option.some_inj.mp (hc.symm.trans hc')
  refine ⟨fun _ hover => ?_, fun _ _ _ _ _ => hunblocked⟩
  rw [hpause] at hover
  cases hover

theorem exists_served : ∃ s : RedisServer ℕ ℕ,
    Runs.AllSteps step StepOk (initServer fun _ _ => none) servedEvents ∧
      Runs.run step (initServer fun _ _ => none) servedEvents = some s :=
  ⟨_,
    Runs.AllSteps.run_cons trivial rfl <|
    Runs.AllSteps.run_cons trivial rfl <|
    Runs.AllSteps.run_cons trivial rfl <|
    Runs.AllSteps.run_cons (stepOk_of_unblocked rfl rfl rfl) rfl <|
    Runs.AllSteps.run_cons trivial rfl <|
    Runs.AllSteps.run_cons (stepOk_of_unblocked rfl rfl rfl) rfl
    ⟨trivial, rfl⟩⟩

/-- The server when a client was served is as it should be. -/
theorem run_booked_served : ∃ s,
    Runs.run step (initServer fun _ _ => (none : Option (Entry ℕ))) servedEvents = some s ∧
      Booked s ∧ process s .processUnblockedClient ≠ .error .redisPanic := by
  obtain ⟨s, hall, hrun⟩ := exists_served
  exact ⟨s, hrun, (run_booked hall hrun).1, (run_booked hall hrun).2 _ trivial⟩

end BlockingServer

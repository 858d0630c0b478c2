/-
The bookkeeping of clients that wait.

* `Waiting` — the queues of the keys and the keys of the clients agree;
* `Booked` — the flags, the types, the counter and the lists agree as well;
* `blockForKeys_eq`, `unblockClient_spec`, `freeClient_spec` — what the functions leave;
* `SameBook` — nothing of this has changed.
-/
import RedisModel.BlockingLists
import Mathlib.Data.Finset.Card
import Mathlib.Data.List.Nodup
import Mathlib.Logic.Relation

open Except

namespace BlockingServer

open RedisServer

section
variable {K V : Type} {s s' : RedisServer K V} {id : ClientId} {c : RedisClient K V}

/-- A client stands in the queue of a key if and only if it waits for it. -/
structure Waiting (s : RedisServer K V) : Prop where
  queue : ∀ d k id, id ∈ (s.db d).blockingKeys k ↔
    ∃ c, s.client id = some c ∧ c.db = d ∧ k ∈ c.bpop.keys
  nodup : ∀ d k, ((s.db d).blockingKeys k).Nodup
  keysNodup : ∀ id c, s.client id = some c → c.bpop.keys.Nodup
  blocked : ∀ id c, s.client id = some c → c.bpop.keys ≠ [] → c.blocked = true ∧ c.btype ≠ .wait

/-- The number of clients with the flag `REDIS_BLOCKED`. -/
def BlockedCount (s : RedisServer K V) (n : ℤ) : Prop :=
  ∃ ids : Finset ClientId, (∀ id, id ∈ ids ↔ ∃ c, s.client id = some c ∧ c.blocked = true) ∧
    n = ids.card

/-- The bookkeeping is right. -/
structure Booked (s : RedisServer K V) : Prop extends Waiting s where
  flag : ∀ id c, s.client id = some c → (c.blocked = true ↔ c.btype = .list ∨ c.btype = .wait)
  keys : ∀ id c, s.client id = some c → (c.btype = .list ↔ c.bpop.keys ≠ [])
  count : BlockedCount s s.bpopBlockedClients
  unblockedNodup : s.unblockedClients.Nodup
  unblocked : ∀ id, id ∈ s.unblockedClients ↔ ∃ c, s.client id = some c ∧ c.unblocked = true
  acksNodup : s.clientsWaitingAcks.Nodup
  acks : ∀ id, id ∈ s.clientsWaitingAcks ↔ ∃ c, s.client id = some c ∧ c.btype = .wait
  apart : ∀ id c, s.client id = some c → ¬(c.blocked = true ∧ c.unblocked = true)

/-! ### States with the same bookkeeping -/

/-- The fields of a client that the bookkeeping is about are the same. -/
structure SameFlags (c c' : RedisClient K V) : Prop where
  keys : c'.bpop.keys = c.bpop.keys
  blocked : c'.blocked = c.blocked
  unblocked : c'.unblocked = c.unblocked
  btype : c'.btype = c.btype
  db : c.bpop.keys ≠ [] → c'.db = c.db

theorem SameFlags.refl (c : RedisClient K V) : SameFlags c c := ⟨rfl, rfl, rfl, rfl, fun _ => rfl⟩

theorem SameFlags.symm {c c' : RedisClient K V} (h : SameFlags c c') : SameFlags c' c :=
  ⟨h.keys.symm, h.blocked.symm, h.unblocked.symm, h.btype.symm,
    fun hne => (h.db (h.keys ▸ hne)).symm⟩

theorem SameFlags.trans {c₁ c₂ c₃ : RedisClient K V} (h : SameFlags c₁ c₂) (h' : SameFlags c₂ c₃) :
    SameFlags c₁ c₃ :=
  ⟨h'.keys.trans h.keys, h'.blocked.trans h.blocked, h'.unblocked.trans h.unblocked,
    h'.btype.trans h.btype, fun hne => (h'.db (h.keys.symm ▸ hne)).trans (h.db hne)⟩

/-- The flags of the clients, their lists and the queues are the same. -/
structure SameBook (s s' : RedisServer K V) : Prop where
  client : ∀ id c, s.client id = some c → ∃ c', s'.client id = some c' ∧ SameFlags c c'
  client' : ∀ id c', s'.client id = some c' → ∃ c, s.client id = some c ∧ SameFlags c c'
  blockingKeys : ∀ d, (s'.db d).blockingKeys = (s.db d).blockingKeys
  unblockedClients : s'.unblockedClients = s.unblockedClients
  clientsWaitingAcks : s'.clientsWaitingAcks = s.clientsWaitingAcks
  bpopBlockedClients : s'.bpopBlockedClients = s.bpopBlockedClients

theorem SameBook.of_client (hclient : s'.client = s.client)
    (hqueues : ∀ d, (s'.db d).blockingKeys = (s.db d).blockingKeys)
    (hunblocked : s'.unblockedClients = s.unblockedClients)
    (hacks : s'.clientsWaitingAcks = s.clientsWaitingAcks)
    (hcount : s'.bpopBlockedClients = s.bpopBlockedClients) : SameBook s s' := by
  refine ⟨fun id c hc => ⟨c, ?_, .refl c⟩, fun id c hc => ⟨c, ?_, .refl c⟩, hqueues, hunblocked,
    hacks, hcount⟩
  · rw [hclient, hc]
  · rw [← hclient, hc]

theorem SameBook.trans {s₁ s₂ s₃ : RedisServer K V} (h : SameBook s₁ s₂) (h' : SameBook s₂ s₃) :
    SameBook s₁ s₃ where
  client id c hc := by
    obtain ⟨c₂, hc₂, hflags⟩ := h.client id c hc
    obtain ⟨c₃, hc₃, hflags'⟩ := h'.client id c₂ hc₂
    exact ⟨c₃, hc₃, hflags.trans hflags'⟩
  client' id c hc := by
    obtain ⟨c₂, hc₂, hflags'⟩ := h'.client' id c hc
    obtain ⟨c₁, hc₁, hflags⟩ := h.client' id c₂ hc₂
    exact ⟨c₁, hc₁, hflags.trans hflags'⟩
  blockingKeys d := (h'.blockingKeys d).trans (h.blockingKeys d)
  unblockedClients := h'.unblockedClients.trans h.unblockedClients
  clientsWaitingAcks := h'.clientsWaitingAcks.trans h.clientsWaitingAcks
  bpopBlockedClients := h'.bpopBlockedClients.trans h.bpopBlockedClients

theorem SameBook.setClient {c' : RedisClient K V} (hc : s.client id = some c)
    (hflags : SameFlags c c') : SameBook s (s.setClient id c') := by
  have hself : (s.setClient id c').client id = some c' := Function.update_self id _ _
  have hother : ∀ i, i ≠ id → (s.setClient id c').client i = s.client i :=
    fun i hi => Function.update_of_ne hi _ _
  refine ⟨fun i c₀ hi => ?_, fun i c₀ hi => ?_, fun _ => rfl, rfl, rfl, rfl⟩
  · by_cases hid : i = id
    · subst hid
      obtain rfl := Option.some_inj.mp (hc.symm.trans hi)
      exact ⟨c', hself, hflags⟩
    · exact ⟨c₀, (hother i hid).trans hi, .refl c₀⟩
  · by_cases hid : i = id
    · subst hid
      obtain rfl := Option.some_inj.mp (hself.symm.trans hi)
      exact ⟨c, hc, hflags⟩
    · exact ⟨c₀, (hother i hid).symm.trans hi, .refl c₀⟩

theorem SameBook.exists_iff (h : SameBook s s') {P : RedisClient K V → Prop}
    (hP : ∀ c c', SameFlags c c' → P c → P c') (id : ClientId) :
    (∃ c, s'.client id = some c ∧ P c) ↔ ∃ c, s.client id = some c ∧ P c := by
  constructor
  · rintro ⟨c, hc, hPc⟩
    obtain ⟨c', hc', hflags⟩ := h.client' id c hc
    exact ⟨c', hc', hP c c' hflags.symm hPc⟩
  · rintro ⟨c, hc, hPc⟩
    obtain ⟨c', hc', hflags⟩ := h.client id c hc
    exact ⟨c', hc', hP c c' hflags hPc⟩

/-- Besides, the clients are in a transaction if and only if they were. -/
structure Still (s s' : RedisServer K V) : Prop extends SameBook s s' where
  multi : ∀ id c c', s.client id = some c → s'.client id = some c' → c'.multi = c.multi

theorem Still.of_client (hclient : s'.client = s.client)
    (hqueues : ∀ d, (s'.db d).blockingKeys = (s.db d).blockingKeys)
    (hunblocked : s'.unblockedClients = s.unblockedClients)
    (hacks : s'.clientsWaitingAcks = s.clientsWaitingAcks)
    (hcount : s'.bpopBlockedClients = s.bpopBlockedClients) : Still s s' where
  toSameBook := .of_client hclient hqueues hunblocked hacks hcount
  multi id c c' hc hc' := by
    rw [hclient, hc] at hc'
    rw [Option.some_inj.mp hc']

theorem Still.refl (s : RedisServer K V) : Still s s := .of_client rfl (fun _ => rfl) rfl rfl rfl

theorem Still.trans {s₁ s₂ s₃ : RedisServer K V} (h : Still s₁ s₂) (h' : Still s₂ s₃) :
    Still s₁ s₃ where
  toSameBook := h.toSameBook.trans h'.toSameBook
  multi id c c' hc hc' := by
    obtain ⟨c₂, hc₂, -⟩ := h.client id c hc
    exact (h'.multi id c₂ c' hc₂ hc').trans (h.multi id c c₂ hc hc₂)

theorem Still.setClient {c' : RedisClient K V} (hc : s.client id = some c)
    (hflags : SameFlags c c') (hmulti : c'.multi = c.multi) : Still s (s.setClient id c') where
  toSameBook := .setClient hc hflags
  multi i c₁ c₂ hi hi' := by
    by_cases hid : i = id
    · subst hid
      obtain rfl := Option.some_inj.mp (hc.symm.trans hi)
      have hself : (s.setClient i c').client i = some c' := Function.update_self i _ _
      obtain rfl := Option.some_inj.mp (hself.symm.trans hi')
      exact hmulti
    · have hother : (s.setClient id c').client i = s.client i := Function.update_of_ne hid _ _
      rw [hother, hi] at hi'
      rw [Option.some_inj.mp hi']

theorem Waiting.same (h : Waiting s) (hsame : SameBook s s') : Waiting s' where
  queue d k id := by
    rw [hsame.blockingKeys, h.queue]
    refine (hsame.exists_iff (fun c c' hflags hc => ?_) id).symm
    obtain ⟨rfl, hk⟩ := hc
    exact ⟨hflags.db (List.ne_nil_of_mem hk), hflags.keys ▸ hk⟩
  nodup d k := hsame.blockingKeys d ▸ h.nodup d k
  keysNodup id c hc := by
    obtain ⟨c', hc', hflags⟩ := hsame.client' id c hc
    exact hflags.keys ▸ h.keysNodup id c' hc'
  blocked id c hc hne := by
    obtain ⟨c', hc', hflags⟩ := hsame.client' id c hc
    rw [hflags.blocked, hflags.btype]
    exact h.blocked id c' hc' (hflags.keys ▸ hne)

theorem BlockedCount.same {n : ℤ} (h : BlockedCount s n) (hsame : SameBook s s') :
    BlockedCount s' n := by
  obtain ⟨ids, hids, hn⟩ := h
  refine ⟨ids, fun id => ?_, hn⟩
  rw [hids]
  exact (hsame.exists_iff (fun c c' hflags hc => hflags.blocked.trans hc) id).symm

theorem Booked.same (h : Booked s) (hsame : SameBook s s') : Booked s' where
  toWaiting := h.toWaiting.same hsame
  flag id c hc := by
    obtain ⟨c', hc', hflags⟩ := hsame.client' id c hc
    rw [hflags.blocked, hflags.btype]
    exact h.flag id c' hc'
  keys id c hc := by
    obtain ⟨c', hc', hflags⟩ := hsame.client' id c hc
    rw [hflags.keys, hflags.btype]
    exact h.keys id c' hc'
  count := hsame.bpopBlockedClients ▸ h.count.same hsame
  unblockedNodup := hsame.unblockedClients ▸ h.unblockedNodup
  unblocked id := by
    rw [hsame.unblockedClients, h.unblocked]
    exact (hsame.exists_iff (fun c c' hflags hc => hflags.unblocked.trans hc) id).symm
  acksNodup := hsame.clientsWaitingAcks ▸ h.acksNodup
  acks id := by
    rw [hsame.clientsWaitingAcks, h.acks]
    exact (hsame.exists_iff (fun c c' hflags hc => hflags.btype.trans hc) id).symm
  apart id c hc := by
    obtain ⟨c', hc', hflags⟩ := hsame.client' id c hc
    rw [hflags.blocked, hflags.unblocked]
    exact h.apart id c' hc'

/-! ### Changes of one client -/

/-- Only the client at one address is another one. -/
def ClientSet (s s' : RedisServer K V) (id : ClientId) (o : Option (RedisClient K V)) : Prop :=
  s'.client = Function.update s.client id o

theorem ClientSet.self {o : Option (RedisClient K V)} (h : ClientSet s s' id o) :
    s'.client id = o := by
  rw [h, Function.update_self]

theorem ClientSet.other {o : Option (RedisClient K V)} (h : ClientSet s s' id o) {i : ClientId}
    (hi : i ≠ id) : s'.client i = s.client i := by
  rw [h, Function.update_of_ne hi]

theorem ClientSet.all {o : Option (RedisClient K V)} (h : ClientSet s s' id o)
    {P : ClientId → RedisClient K V → Prop} (hself : ∀ c, o = some c → P id c)
    (hold : ∀ i c, s.client i = some c → P i c) : ∀ i c, s'.client i = some c → P i c := by
  intro i c hi
  by_cases hid : i = id
  · subst hid
    exact hself c (h.self.symm.trans hi)
  · exact hold i c ((h.other hid).symm.trans hi)

theorem ClientSet.mem_iff {o : Option (RedisClient K V)} (h : ClientSet s s' id o)
    {P : RedisClient K V → Prop} {A A' : ClientId → Prop}
    (hA : ∀ i, A i ↔ ∃ c, s.client i = some c ∧ P c) (hother : ∀ i, i ≠ id → (A' i ↔ A i))
    (hself : A' id ↔ ∃ c, o = some c ∧ P c) (i : ClientId) :
    A' i ↔ ∃ c, s'.client i = some c ∧ P c := by
  by_cases hid : i = id
  · subst hid
    rw [hself, h.self]
  · rw [hother i hid, hA, h.other hid]

theorem BlockedCount.gain {n : ℤ} (h : BlockedCount s n) {c' : RedisClient K V}
    (hset : ClientSet s s' id (some c')) (hc : s.client id = some c) (hblocked : c.blocked = false)
    (hblocked' : c'.blocked = true) : BlockedCount s' (n + 1) := by
  obtain ⟨ids, hids, rfl⟩ := h
  have hid : id ∉ ids := fun hmem => by
    obtain ⟨c', hc', htrue⟩ := (hids id).mp hmem
    obtain rfl := Option.some_inj.mp (hc.symm.trans hc')
    rw [hblocked] at htrue
    cases htrue
  refine ⟨insert id ids, hset.mem_iff hids (fun i hi => ?_) ?_, ?_⟩
  · rw [Finset.mem_insert]
    exact or_iff_right hi
  · exact iff_of_true (Finset.mem_insert_self id ids) ⟨c', rfl, hblocked'⟩
  · rw [Finset.card_insert_of_notMem hid]
    push_cast
    rfl

theorem BlockedCount.lose {n : ℤ} (h : BlockedCount s n) {o : Option (RedisClient K V)}
    (hset : ClientSet s s' id o) (hc : s.client id = some c) (hblocked : c.blocked = true)
    (hblocked' : ∀ c', o = some c' → c'.blocked = false) : BlockedCount s' (n - 1) := by
  obtain ⟨ids, hids, rfl⟩ := h
  have hid : id ∈ ids := (hids id).mpr ⟨c, hc, hblocked⟩
  have hcard := Finset.card_erase_add_one hid
  refine ⟨ids.erase id, hset.mem_iff hids (fun i hi => ?_) ?_, by omega⟩
  · rw [Finset.mem_erase]
    exact and_iff_right hi
  · refine iff_of_false (Finset.notMem_erase id ids) ?_
    rintro ⟨c', hc', htrue⟩
    rw [hblocked' c' hc'] at htrue
    cases htrue

theorem BlockedCount.keep {n : ℤ} (h : BlockedCount s n) {o : Option (RedisClient K V)}
    (hset : ClientSet s s' id o)
    (hflag : (∃ c, s.client id = some c ∧ c.blocked = true) ↔ ∃ c, o = some c ∧ c.blocked = true) :
    BlockedCount s' n := by
  obtain ⟨ids, hids, hn⟩ := h
  exact ⟨ids, hset.mem_iff hids (fun _ _ => Iff.rfl) ((hids id).trans hflag), hn⟩

theorem Booked.btype_none (h : Booked s) (hc : s.client id = some c) (hblocked : c.blocked = false) :
    c.btype = .none := by
  have := (h.flag id c hc).not.mp (by simp [hblocked])
  cases hbtype : c.btype <;> simp_all

theorem Waiting.keys_nil (h : Waiting s) (hc : s.client id = some c)
    (hblocked : c.blocked = false) : c.bpop.keys = [] := by
  by_contra hne
  rw [(h.blocked id c hc hne).1] at hblocked
  cases hblocked

/-! ### Blocking -/

theorem getClient_ensures {E : Failure → Prop} (hE : E .memory) :
    (s.getClient id).Ensures E fun c => s.client id = some c := by
  rw [RedisServer.getClient]
  split
  · rename_i c hc
    exact hc
  · exact hE

theorem getClient_eq (hc : s.client id = some c) : s.getClient id = .ok c := by
  rw [RedisServer.getClient, hc]

end

section
variable {K V : Type} [DecidableEq K] {s s' : RedisServer K V} {id : ClientId}
  {c : RedisClient K V}

/-- The keys of `blockForKeys`, each of them once. -/
def addKeys (keys : List K) (ks : List K) : List K :=
  keys.foldl (fun ks k => if k ∈ ks then ks else ks ++ [k]) ks

theorem mem_addKeys {keys ks : List K} {k : K} : k ∈ addKeys keys ks ↔ k ∈ keys ∨ k ∈ ks := by
  induction keys generalizing ks with
  | nil => simp [addKeys]
  | cons key keys ih =>
    show k ∈ addKeys keys (if key ∈ ks then ks else ks ++ [key]) ↔ _
    rw [ih]
    split <;> grind

theorem nodup_addKeys {keys ks : List K} (h : ks.Nodup) : (addKeys keys ks).Nodup := by
  induction keys generalizing ks with
  | nil => exact h
  | cons key keys ih =>
    show (addKeys keys (if key ∈ ks then ks else ks ++ [key])).Nodup
    refine ih ?_
    split
    · exact h
    · rename_i hkey
      exact List.Nodup.append h (List.nodup_singleton key) (by simpa using hkey)

/-- The state after some rounds of `blockForKeys`, with the keys that were added. -/
def enqueued (s : RedisServer K V) (id : ClientId) (c : RedisClient K V) (ks : List K) :
    RedisServer K V :=
  { s with
    client := Function.update s.client id (some { c with bpop := { c.bpop with keys := ks } })
    db := fun d => { s.db d with
      blockingKeys := fun k =>
        if d = c.db ∧ k ∈ ks then (s.db d).blockingKeys k ++ [id] else (s.db d).blockingKeys k } }

theorem blockForKey_eq (ks : List K) (key : K) :
    blockForKey id (enqueued s id c ks) key =
      .ok (enqueued s id c (if key ∈ ks then ks else ks ++ [key])) := by
  have hget : (enqueued s id c ks).getClient id =
      .ok { c with bpop := { c.bpop with keys := ks } } :=
    getClient_eq (Function.update_self id _ _)
  rw [blockForKey, hget, ok_bind]
  split
  · rfl
  · rename_i hkey
    refine congrArg Except.ok ?_
    simp only [enqueued, RedisServer.setClient, RedisServer.setDb, Function.update_idem]
    congr 1
    funext d
    by_cases hd : d = c.db
    · subst hd
      rw [Function.update_self]
      congr 1
      funext k
      by_cases hk : k = key
      · subst hk
        simp [hkey]
      · rw [Function.update_of_ne hk]
        simp [hk]
    · rw [Function.update_of_ne hd]
      simp [hd]

/-- The state after `blockForKeys`. -/
def blockedFor (s : RedisServer K V) (id : ClientId) (c : RedisClient K V) (keys : List K)
    (timeout : ℤ) (target : Option K) : RedisServer K V :=
  let c := { c with blocked := true, btype := .list, bpop := { c.bpop with timeout, target } }
  { enqueued s id c (addKeys keys []) with bpopBlockedClients := s.bpopBlockedClients + 1 }

theorem blockForKeys_eq (hc : s.client id = some c) (hkeys : c.bpop.keys = []) (keys : List K)
    (timeout : ℤ) (target : Option K) :
    blockForKeys s id keys timeout target = .ok (blockedFor s id c keys timeout target) := by
  rw [blockForKeys, getClient_eq hc, ok_bind]
  have hstart : s.setClient id { c with bpop := { c.bpop with timeout, target } } =
      enqueued s id { c with bpop := { c.bpop with timeout, target } } [] := by
    simp [enqueued, RedisServer.setClient, hkeys]
  have hloop : ∀ ks, keys.foldlM (blockForKey id)
      (enqueued s id { c with bpop := { c.bpop with timeout, target } } ks) =
        .ok (enqueued s id { c with bpop := { c.bpop with timeout, target } } (addKeys keys ks)) := by
    induction keys with
    | nil => exact fun ks => rfl
    | cons key keys ih =>
      intro ks
      rw [List.foldlM_cons, blockForKey_eq, ok_bind]
      exact ih _
  show keys.foldlM (blockForKey id) _ >>= _ = _
  rw [hstart, hloop, ok_bind, blockClient, getClient_eq (Function.update_self id _ _), ok_bind]
  simp [blockedFor, enqueued, RedisServer.setClient]

/-- The client after `blockForKeys`. -/
def waitingFor (c : RedisClient K V) (keys : List K) (timeout : ℤ) (target : Option K) :
    RedisClient K V :=
  { c with
    blocked := true
    btype := .list
    bpop := { c.bpop with timeout, target, keys := addKeys keys [] } }

theorem clientSet_blockedFor (keys : List K) (timeout : ℤ) (target : Option K) :
    ClientSet s (blockedFor s id c keys timeout target) id
      (some (waitingFor c keys timeout target)) := rfl

theorem mem_blockedFor (keys : List K) (timeout : ℤ) (target : Option K) (d : ℕ) (k : K)
    (i : ClientId) :
    i ∈ ((blockedFor s id c keys timeout target).db d).blockingKeys k ↔
      i ∈ (s.db d).blockingKeys k ∨ (d = c.db ∧ k ∈ keys ∧ i = id) := by
  simp only [blockedFor, enqueued, mem_addKeys, List.not_mem_nil, or_false]
  split
  · simp_all
  · simp_all

theorem Waiting.blockedFor (h : Waiting s) (hc : s.client id = some c) (hkeys : c.bpop.keys = [])
    (keys : List K) (timeout : ℤ) (target : Option K) :
    Waiting (blockedFor s id c keys timeout target) := by
  have hset : ClientSet s _ id _ := clientSet_blockedFor (c := c) keys timeout target
  have hout : ∀ d k, id ∉ (s.db d).blockingKeys k := fun d k hid => by
    obtain ⟨c', hc', -, hk⟩ := (h.queue d k id).mp hid
    obtain rfl := Option.some_inj.mp (hc.symm.trans hc')
    rw [hkeys] at hk
    cases hk
  constructor
  · intro d k
    refine hset.mem_iff (h.queue d k) (fun i hi => ?_) ?_
    · rw [mem_blockedFor]
      exact or_iff_left fun hself => hi hself.2.2
    · simp only [mem_blockedFor, hout, false_or, and_true, Option.some_inj, exists_eq_left',
        waitingFor, mem_addKeys, List.not_mem_nil, or_false]
      exact and_congr_left fun _ => eq_comm
  · intro d k
    simp only [BlockingServer.blockedFor, enqueued]
    split
    · exact List.Nodup.append (h.nodup d k) (List.nodup_singleton id)
        (by simpa using hout d k)
    · exact h.nodup d k
  · refine hset.all (fun c' hc' => ?_) h.keysNodup
    obtain rfl := Option.some_inj.mp hc'
    exact nodup_addKeys List.nodup_nil
  · refine hset.all (fun c' hc' _ => ?_) h.blocked
    obtain rfl := Option.some_inj.mp hc'
    exact ⟨rfl, BlockType.noConfusion⟩

theorem Booked.blockedFor (h : Booked s) (hc : s.client id = some c) (hblocked : c.blocked = false)
    (hunblocked : c.unblocked = false) {keys : List K} (hne : keys ≠ []) (timeout : ℤ)
    (target : Option K) : Booked (blockedFor s id c keys timeout target) := by
  have hset : ClientSet s _ id _ := clientSet_blockedFor (c := c) keys timeout target
  have hnone := h.btype_none hc hblocked
  have hkeys := h.toWaiting.keys_nil hc hblocked
  have hadd : addKeys keys [] ≠ [] := by
    obtain ⟨k, hk⟩ := List.exists_mem_of_ne_nil keys hne
    exact List.ne_nil_of_mem (mem_addKeys.mpr (.inl hk))
  refine ⟨h.toWaiting.blockedFor hc hkeys keys timeout target, ?_, ?_, ?_, h.unblockedNodup, ?_,
    h.acksNodup, ?_, ?_⟩
  · refine hset.all (fun c' hc' => ?_) h.flag
    obtain rfl := Option.some_inj.mp hc'
    exact iff_of_true rfl (.inl rfl)
  · refine hset.all (fun c' hc' => ?_) h.keys
    obtain rfl := Option.some_inj.mp hc'
    exact iff_of_true rfl hadd
  · exact h.count.gain hset hc hblocked rfl
  · refine hset.mem_iff h.unblocked (fun _ _ => Iff.rfl) ?_
    show id ∈ s.unblockedClients ↔ _
    rw [h.unblocked]
    simp [hc, waitingFor]
  · refine hset.mem_iff h.acks (fun _ _ => Iff.rfl) ?_
    show id ∈ s.clientsWaitingAcks ↔ _
    rw [h.acks]
    simp [hc, waitingFor, hnone]
  · refine hset.all (fun c' hc' => ?_) h.apart
    obtain rfl := Option.some_inj.mp hc'
    simp [waitingFor, hunblocked]

end

section
variable {K V : Type} {s s' : RedisServer K V} {id : ClientId} {c : RedisClient K V}

/-- The state after `waitForReplicas`. -/
def waitingForReplicas (s : RedisServer K V) (id : ClientId) (c : RedisClient K V)
    (numreplicas timeout offset : ℤ) : RedisServer K V :=
  { s.setClient id { c with
      blocked := true
      btype := .wait
      bpop := { c.bpop with timeout, numreplicas, reploffset := offset } } with
    clientsWaitingAcks := s.clientsWaitingAcks ++ [id]
    bpopBlockedClients := s.bpopBlockedClients + 1 }

theorem waitForReplicas_eq (hc : s.client id = some c) (numreplicas timeout offset : ℤ) :
    waitForReplicas s id numreplicas timeout offset =
      .ok (waitingForReplicas s id c numreplicas timeout offset) := by
  rw [waitForReplicas, getClient_eq hc, ok_bind, blockClient]
  rw [getClient_eq (Function.update_self id _ _), ok_bind]
  simp [waitingForReplicas, RedisServer.setClient]

theorem Waiting.waitingForReplicas (h : Waiting s) (hc : s.client id = some c)
    (hkeys : c.bpop.keys = []) (numreplicas timeout offset : ℤ) :
    Waiting (waitingForReplicas s id c numreplicas timeout offset) := by
  have hset : ClientSet s (BlockingServer.waitingForReplicas s id c numreplicas timeout offset) id
      (some _) := rfl
  refine ⟨fun d k => ?_, h.nodup, ?_, ?_⟩
  · refine hset.mem_iff (h.queue d k) (fun _ _ => Iff.rfl) ?_
    show id ∈ (s.db d).blockingKeys k ↔ _
    rw [h.queue]
    simp [hc, hkeys]
  · refine hset.all (fun c' hc' => ?_) h.keysNodup
    obtain rfl := Option.some_inj.mp hc'
    exact h.keysNodup id c hc
  · refine hset.all (fun c' hc' hne => ?_) h.blocked
    obtain rfl := Option.some_inj.mp hc'
    exact absurd hkeys hne

theorem Booked.waitingForReplicas (h : Booked s) (hc : s.client id = some c)
    (hblocked : c.blocked = false) (hunblocked : c.unblocked = false)
    (numreplicas timeout offset : ℤ) :
    Booked (waitingForReplicas s id c numreplicas timeout offset) := by
  have hset : ClientSet s (BlockingServer.waitingForReplicas s id c numreplicas timeout offset) id
      (some _) := rfl
  have hnone := h.btype_none hc hblocked
  have hkeys := h.toWaiting.keys_nil hc hblocked
  have hout : id ∉ s.clientsWaitingAcks := by
    rw [h.acks]
    simp [hc, hnone]
  refine ⟨h.toWaiting.waitingForReplicas hc hkeys numreplicas timeout offset, ?_, ?_, ?_,
    h.unblockedNodup, ?_, ?_, ?_, ?_⟩
  · refine hset.all (fun c' hc' => ?_) h.flag
    obtain rfl := Option.some_inj.mp hc'
    exact iff_of_true rfl (.inr rfl)
  · refine hset.all (fun c' hc' => ?_) h.keys
    obtain rfl := Option.some_inj.mp hc'
    exact iff_of_false BlockType.noConfusion fun hne => hne hkeys
  · exact h.count.gain hset hc hblocked rfl
  · refine hset.mem_iff h.unblocked (fun _ _ => Iff.rfl) ?_
    show id ∈ s.unblockedClients ↔ _
    rw [h.unblocked]
    simp [hc]
  · exact List.Nodup.append h.acksNodup (List.nodup_singleton id) (by simpa using hout)
  · refine hset.mem_iff h.acks (fun i hi => ?_) ?_
    · show i ∈ s.clientsWaitingAcks ++ [id] ↔ _
      simp [hi]
    · refine iff_of_true (List.mem_append_right _ (List.mem_singleton_self id)) ⟨_, rfl, rfl⟩
  · refine hset.all (fun c' hc' => ?_) h.apart
    obtain rfl := Option.some_inj.mp hc'
    simp [hunblocked]

end

/-! ### Unblocking -/

section
variable {K V : Type} {s s' : RedisServer K V} {id : ClientId}
  {c : RedisClient K V}

/-- The client after `unblockClient`. -/
def released (c : RedisClient K V) : RedisClient K V :=
  { c with
    blocked := false
    unblocked := true
    btype := .none
    bpop := if c.btype = .list then { c.bpop with keys := [], target := none } else c.bpop }

/-- The state after `unblockClient`. -/
def unblocked (s : RedisServer K V) (id : ClientId) (c : RedisClient K V) : RedisServer K V :=
  { s with
    client := Function.update s.client id (some (released c))
    db := fun d =>
      { s.db d with blockingKeys := fun k => ((s.db d).blockingKeys k).erase id }
    clientsWaitingAcks :=
      if c.btype = .wait then s.clientsWaitingAcks.erase id else s.clientsWaitingAcks
    bpopBlockedClients := s.bpopBlockedClients - 1
    unblockedClients := s.unblockedClients ++ [id] }

/-- `unblockClient` finds what it looks for. -/
structure CanUnblock (s : RedisServer K V) (id : ClientId) (c : RedisClient K V) : Prop where
  btype : c.btype ≠ .none
  keys : c.btype = .list → c.bpop.keys ≠ []
  acks : c.btype = .wait → id ∈ s.clientsWaitingAcks

theorem Waiting.not_mem (h : Waiting s) (hc : s.client id = some c) (hkeys : c.bpop.keys = [])
    (d : ℕ) (k : K) : id ∉ (s.db d).blockingKeys k := by
  intro hid
  obtain ⟨c', hc', -, hk⟩ := (h.queue d k id).mp hid
  obtain rfl := Option.some_inj.mp (hc.symm.trans hc')
  rw [hkeys] at hk
  cases hk

theorem Booked.canUnblock (h : Booked s) (hc : s.client id = some c) (hblocked : c.blocked = true) :
    CanUnblock s id c := by
  have hbtype := (h.flag id c hc).mp hblocked
  refine ⟨fun hnone => ?_, fun hlist => (h.keys id c hc).mp hlist, fun hwait =>
    (h.acks id).mpr ⟨c, hc, hwait⟩⟩
  rw [hnone] at hbtype
  exact hbtype.elim BlockType.noConfusion BlockType.noConfusion

theorem Waiting.released_keys (h : Waiting s) (hc : s.client id = some c)
    (hcan : CanUnblock s id c) : (released c).bpop.keys = [] := by
  rw [released]
  dsimp only
  split
  · rfl
  · rename_i hlist
    by_contra hne
    have hwait := (h.blocked id c hc hne).2
    have hnone := hcan.btype
    cases hbtype : c.btype <;> simp_all

theorem Waiting.afterUnblock (h : Waiting s) (hc : s.client id = some c) (hcan : CanUnblock s id c) :
    Waiting (BlockingServer.unblocked s id c) := by
  have hset : ClientSet s (BlockingServer.unblocked s id c) id (some (released c)) := rfl
  have hkeys := h.released_keys hc hcan
  refine ⟨fun d k => ?_, fun d k => (h.nodup d k).erase id, ?_, ?_⟩
  · refine hset.mem_iff (h.queue d k) (fun i hi => ?_) ?_
    · exact List.mem_erase_of_ne hi
    · refine iff_of_false (fun hid => ((h.nodup d k).mem_erase_iff.mp hid).1 rfl) ?_
      rintro ⟨c', hc', -, hk⟩
      obtain rfl := Option.some_inj.mp hc'
      rw [hkeys] at hk
      cases hk
  · refine hset.all (fun c' hc' => ?_) h.keysNodup
    obtain rfl := Option.some_inj.mp hc'
    rw [hkeys]
    exact List.nodup_nil
  · refine hset.all (fun c' hc' hne => ?_) h.blocked
    obtain rfl := Option.some_inj.mp hc'
    exact absurd hkeys hne

theorem Booked.afterUnblock (h : Booked s) (hc : s.client id = some c)
    (hblocked : c.blocked = true) : Booked (BlockingServer.unblocked s id c) := by
  have hset : ClientSet s (BlockingServer.unblocked s id c) id (some (released c)) := rfl
  have hcan := h.canUnblock hc hblocked
  have hout : id ∉ s.unblockedClients := fun hmem => by
    obtain ⟨c', hc', hunblocked⟩ := (h.unblocked id).mp hmem
    obtain rfl := Option.some_inj.mp (hc.symm.trans hc')
    exact h.apart id c hc ⟨hblocked, hunblocked⟩
  refine ⟨h.toWaiting.afterUnblock hc hcan, ?_, ?_, ?_, ?_, ?_, ?_, ?_, ?_⟩
  · refine hset.all (fun c' hc' => ?_) h.flag
    obtain rfl := Option.some_inj.mp hc'
    simp [released]
  · refine hset.all (fun c' hc' => ?_) h.keys
    obtain rfl := Option.some_inj.mp hc'
    rw [h.toWaiting.released_keys hc hcan]
    simp [released]
  · refine h.count.lose hset hc hblocked fun c' hc' => ?_
    obtain rfl := Option.some_inj.mp hc'
    rfl
  · exact List.Nodup.append h.unblockedNodup (List.nodup_singleton id) (by simpa using hout)
  · refine hset.mem_iff h.unblocked (fun i hi => ?_) ?_
    · show i ∈ s.unblockedClients ++ [id] ↔ _
      simp [hi]
    · exact iff_of_true (List.mem_append_right _ (List.mem_singleton_self id)) ⟨_, rfl, rfl⟩
  · show (if c.btype = .wait then s.clientsWaitingAcks.erase id else s.clientsWaitingAcks).Nodup
    split
    · exact h.acksNodup.erase id
    · exact h.acksNodup
  · refine hset.mem_iff h.acks (fun i hi => ?_) ?_
    · show i ∈ (if c.btype = .wait then s.clientsWaitingAcks.erase id
        else s.clientsWaitingAcks) ↔ _
      split
      · exact List.mem_erase_of_ne hi
      · rfl
    · refine iff_of_false (fun hid => ?_) ?_
      · change id ∈ (if c.btype = .wait then s.clientsWaitingAcks.erase id
          else s.clientsWaitingAcks) at hid
        split at hid
        · exact (h.acksNodup.mem_erase_iff.mp hid).1 rfl
        · rename_i hwait
          obtain ⟨c', hc', hbtype⟩ := (h.acks id).mp hid
          obtain rfl := Option.some_inj.mp (hc.symm.trans hc')
          exact hwait hbtype
      · rintro ⟨c', hc', hwait⟩
        obtain rfl := Option.some_inj.mp hc'
        exact BlockType.noConfusion hwait
  · refine hset.all (fun c' hc' => ?_) h.apart
    obtain rfl := Option.some_inj.mp hc'
    simp [released]

/-! ### Freeing -/

/-- The states after a client was freed. -/
structure Freed (s s' : RedisServer K V) (id : ClientId) (c : RedisClient K V) : Prop where
  client : ClientSet s s' id none
  blockingKeys : ∀ d, (s'.db d).blockingKeys = (s.db d).blockingKeys
  unblockedClients : s'.unblockedClients =
    if c.unblocked then s.unblockedClients.erase id else s.unblockedClients
  clientsWaitingAcks : s'.clientsWaitingAcks = s.clientsWaitingAcks
  bpopBlockedClients : s'.bpopBlockedClients = s.bpopBlockedClients

theorem Waiting.freed (h : Waiting s) (hc : s.client id = some c) (hkeys : c.bpop.keys = [])
    (hfreed : Freed s s' id c) : Waiting s' := by
  refine ⟨fun d k => ?_, fun d k => hfreed.blockingKeys d ▸ h.nodup d k, ?_, ?_⟩
  · refine hfreed.client.mem_iff (h.queue d k) (fun i hi => ?_) ?_
    · rw [hfreed.blockingKeys]
    · rw [hfreed.blockingKeys]
      exact iff_of_false (h.not_mem hc hkeys d k) (by simp)
  · exact hfreed.client.all (by simp) h.keysNodup
  · exact hfreed.client.all (by simp) h.blocked

theorem Booked.freed (h : Booked s) (hc : s.client id = some c) (hblocked : c.blocked = false)
    (hfreed : Freed s s' id c) : Booked s' := by
  have hnone := h.btype_none hc hblocked
  have hkeys := h.toWaiting.keys_nil hc hblocked
  refine ⟨h.toWaiting.freed hc hkeys hfreed, ?_, ?_, ?_, ?_, ?_, ?_, ?_, ?_⟩
  · exact hfreed.client.all (by simp) h.flag
  · exact hfreed.client.all (by simp) h.keys
  · rw [hfreed.bpopBlockedClients]
    refine h.count.keep hfreed.client (iff_of_false ?_ (by simp))
    simp [hc, hblocked]
  · rw [hfreed.unblockedClients]
    split
    · exact h.unblockedNodup.erase id
    · exact h.unblockedNodup
  · rw [hfreed.unblockedClients]
    refine hfreed.client.mem_iff h.unblocked (fun i hi => ?_) ?_
    · split
      · exact List.mem_erase_of_ne hi
      · rfl
    · refine iff_of_false (fun hid => ?_) (by simp)
      split at hid
      · exact (h.unblockedNodup.mem_erase_iff.mp hid).1 rfl
      · rename_i hunblocked
        obtain ⟨c', hc', htrue⟩ := (h.unblocked id).mp hid
        obtain rfl := Option.some_inj.mp (hc.symm.trans hc')
        exact hunblocked htrue
  · rw [hfreed.clientsWaitingAcks]
    exact h.acksNodup
  · rw [hfreed.clientsWaitingAcks]
    refine hfreed.client.mem_iff h.acks (fun i hi => Iff.rfl) ?_
    rw [h.acks]
    simp [hc, hnone]
  · exact hfreed.client.all (by simp) h.apart

/-! ### Moves -/

/-- What may happen to the bookkeeping when no client starts to wait. -/
inductive Move (s : RedisServer K V) : RedisServer K V → Prop where
  | same {s' : RedisServer K V} (h : Still s s') : Move s s'
  | unblock {id : ClientId} {c : RedisClient K V} (hc : s.client id = some c)
      (hcan : CanUnblock s id c) : Move s (unblocked s id c)
  | free {s' : RedisServer K V} {id : ClientId} {c : RedisClient K V} (hc : s.client id = some c)
      (hblocked : c.blocked = false) (h : Freed s s' id c) : Move s s'

/-- Moves, one after the other. -/
abbrev Moves (s s' : RedisServer K V) : Prop := Relation.ReflTransGen Move s s'

theorem Waiting.move (h : Waiting s) (hmove : Move s s') : Waiting s' := by
  cases hmove with
  | same hsame => exact h.same hsame.toSameBook
  | unblock hc hcan => exact h.afterUnblock hc hcan
  | free hc hblocked hfreed => exact h.freed hc (h.keys_nil hc hblocked) hfreed

theorem Booked.move (h : Booked s) (hmove : Move s s') : Booked s' := by
  cases hmove with
  | same hsame => exact h.same hsame.toSameBook
  | @unblock id c hc hcan =>
    refine Booked.afterUnblock h hc ((h.flag id c hc).mpr ?_)
    have hne := hcan.btype
    cases hbtype : c.btype <;> simp_all
  | free hc hblocked hfreed => exact h.freed hc hblocked hfreed

/-- The bookkeeping is right, or the failures `E` include the panics; the other failures are
among them. -/
structure Safe (E : Failure → Prop) (s : RedisServer K V) : Prop where
  waiting : Waiting s
  booked : Booked s ∨ E .redisPanic
  errors : ∀ e, e ≠ .redisPanic → E e

variable {E : Failure → Prop}

theorem Safe.moves (h : Safe E s) (hmoves : Moves s s') : Safe E s' := by
  induction hmoves with
  | refl => exact h
  | tail _ hmove ih => exact ⟨ih.waiting.move hmove, ih.booked.imp_left fun hb => hb.move hmove, ih.errors⟩

theorem Still.moves (h : Still s s') : Moves s s' := .single (.same h)

theorem Moves.client (hmoves : Moves s s') {c' : RedisClient K V} (hc' : s'.client id = some c') :
    ∃ c, s.client id = some c ∧ c'.multi = c.multi ∧ (c.blocked = false → c'.blocked = false) := by
  induction hmoves generalizing c' with
  | refl => exact ⟨c', hc', rfl, fun h => h⟩
  | @tail s₁ _ _ hmove ih =>
    suffices h : ∃ c : RedisClient K V, s₁.client id = some c ∧ c'.multi = c.multi ∧
        (c.blocked = false → c'.blocked = false) by
      obtain ⟨c₁, hc₁, hmulti₁, hblocked₁⟩ := h
      obtain ⟨c, hc, hmulti, hblocked⟩ := ih hc₁
      exact ⟨c, hc, hmulti₁.trans hmulti, fun hfalse => hblocked₁ (hblocked hfalse)⟩
    cases hmove with
    | same hstill =>
      obtain ⟨c₁, hc₁, hflags⟩ := hstill.client' _ _ hc'
      exact ⟨c₁, hc₁, hstill.multi _ _ _ hc₁ hc', fun hfalse => hflags.blocked.trans hfalse⟩
    | @unblock i c₀ hc₀ hcan =>
      have hset : ClientSet s₁ (BlockingServer.unblocked s₁ i c₀) i (some (released c₀)) := rfl
      by_cases hid : id = i
      · subst hid
        obtain rfl := Option.some_inj.mp (hset.self.symm.trans hc')
        exact ⟨c₀, hc₀, rfl, fun _ => rfl⟩
      · exact ⟨c', (hset.other hid).symm.trans hc', rfl, fun h => h⟩
    | @free _ i c₀ hc₀ hblocked hfreed =>
      by_cases hid : id = i
      · subst hid
        rw [hfreed.client.self] at hc'
        cases hc'
      · exact ⟨c', (hfreed.client.other hid).symm.trans hc', rfl, fun h => h⟩

theorem Safe.getClient (h : Safe E s) (id : ClientId) :
    (s.getClient id).Ensures E fun c => s.client id = some c :=
  getClient_ensures (h.errors _ Failure.noConfusion)

theorem Safe.assert (h : Safe E s) (p : Prop) [Decidable p] :
    (redisAssert p).Ensures E fun _ => p := by
  rw [redisAssert]
  split
  · rename_i hp
    exact hp
  · exact h.errors _ Failure.noConfusion

end

/-! ### `unblockClient` and `freeClient` -/

section
variable {K V : Type} [DecidableEq K] {s s' : RedisServer K V} {id : ClientId}
  {c : RedisClient K V} {E : Failure → Prop}

/-- The state after some rounds of `unblockClientWaitingData`. -/
def dequeued (s : RedisServer K V) (id : ClientId) (d₀ : ℕ) (ks : List K) : RedisServer K V :=
  { s with
    db := fun d => { s.db d with
      blockingKeys := fun k =>
        if d = d₀ ∧ k ∈ ks then ((s.db d).blockingKeys k).erase id
        else (s.db d).blockingKeys k } }

theorem removeWaiting_eq {d : ℕ} {ks : List K} {key : K} (hkey : key ∉ ks)
    (hmem : id ∈ (s.db d).blockingKeys key) :
    removeWaiting id d (dequeued s id d ks) key = .ok (dequeued s id d (ks ++ [key])) := by
  have hqueue : ((dequeued s id d ks).db d).blockingKeys key = (s.db d).blockingKeys key := by
    simp [dequeued, hkey]
  rw [removeWaiting, hqueue, redisAssert, if_pos (List.ne_nil_of_mem hmem), ok_bind, if_pos hmem]
  refine congrArg Except.ok ?_
  simp only [dequeued, RedisServer.setDb]
  congr 1
  funext d'
  by_cases hd : d' = d
  · subst hd
    rw [Function.update_self]
    congr 1
    funext k
    by_cases hk : k = key
    · subst hk
      simp
    · rw [Function.update_of_ne hk]
      simp [hk]
  · rw [Function.update_of_ne hd]
    simp [hd]

theorem removeWaiting_loop {d : ℕ} (keys : List K) {ks : List K} (hnodup : (ks ++ keys).Nodup)
    (hmem : ∀ k ∈ keys, id ∈ (s.db d).blockingKeys k) :
    keys.foldlM (removeWaiting id d) (dequeued s id d ks) = .ok (dequeued s id d (ks ++ keys)) := by
  induction keys generalizing ks with
  | nil => rw [List.append_nil]; rfl
  | cons key keys ih =>
    have hkey : key ∉ ks := fun hks =>
      List.disjoint_of_nodup_append hnodup hks List.mem_cons_self
    rw [List.foldlM_cons, removeWaiting_eq hkey (hmem key List.mem_cons_self), ok_bind]
    rw [List.append_cons] at hnodup
    rw [ih hnodup fun k hk => hmem k (List.mem_cons_of_mem _ hk), ← List.append_cons]

theorem unblockClient_eq (h : Waiting s) (hc : s.client id = some c) (hcan : CanUnblock s id c) :
    unblockClient s id = .ok (unblocked s id c) := by
  rw [unblockClient, getClient_eq hc, ok_bind]
  cases hbtype : c.btype with
  | none => exact absurd hbtype hcan.btype
  | list =>
    have hmem : ∀ k ∈ c.bpop.keys, id ∈ (s.db c.db).blockingKeys k :=
      fun k hk => (h.queue c.db k id).mpr ⟨c, hc, rfl, hk⟩
    have hloop : c.bpop.keys.foldlM (removeWaiting id c.db) (dequeued s id c.db []) =
        .ok (dequeued s id c.db ([] ++ c.bpop.keys)) :=
      removeWaiting_loop c.bpop.keys (h.keysNodup id c hc) hmem
    have hstart : dequeued s id c.db [] = s := by simp [dequeued]
    rw [hstart, List.nil_append] at hloop
    have hqueues : dequeued s id c.db c.bpop.keys = { s with
        db := fun d =>
          { s.db d with blockingKeys := fun k => ((s.db d).blockingKeys k).erase id } } := by
      simp only [dequeued]
      congr 1
      funext d
      congr 1
      funext k
      split
      · rfl
      · rename_i hk
        refine (List.erase_of_not_mem fun hid => hk ?_).symm
        obtain ⟨c', hc', hdb, hkey⟩ := (h.queue d k id).mp hid
        obtain rfl := Option.some_inj.mp (hc.symm.trans hc')
        exact ⟨hdb.symm, hkey⟩
    simp only [unblockClientWaitingData, getClient_eq hc, ok_bind, redisAssert,
      if_pos (hcan.keys hbtype), hloop, hqueues]
    rw [getClient_eq (Function.update_self id _ _)]
    simp [unblocked, released, RedisServer.setClient, hbtype]
    rfl
  | wait =>
    have hkeys : c.bpop.keys = [] := by
      by_contra hne
      exact (h.blocked id c hc hne).2 hbtype
    have hqueues : (fun d => { s.db d with
        blockingKeys := fun k => ((s.db d).blockingKeys k).erase id }) = s.db := by
      funext d
      have : (fun k => ((s.db d).blockingKeys k).erase id) = (s.db d).blockingKeys :=
        funext fun k => List.erase_of_not_mem (h.not_mem hc hkeys d k)
      rw [this]
    simp only [unblockClientWaitingReplicas, redisAssert, if_pos (hcan.acks hbtype), ok_bind]
    have hget : RedisServer.getClient
        { s with clientsWaitingAcks := s.clientsWaitingAcks.erase id } id = .ok c :=
      getClient_eq hc
    rw [hget]
    simp [unblocked, released, RedisServer.setClient, hbtype, hqueues]
    rfl

theorem unblockClient_ensures (h : Waiting s) :
    (unblockClient s id).Ensures (fun _ => True) fun s' =>
      ∃ c, s.client id = some c ∧ CanUnblock s id c ∧ s' = unblocked s id c := by
  cases hc : s.client id with
  | none =>
    rw [unblockClient, RedisServer.getClient, hc]
    trivial
  | some c =>
    by_cases hcan : CanUnblock s id c
    · rw [unblockClient_eq h hc hcan]
      exact ⟨c, rfl, hcan, rfl⟩
    · rw [unblockClient, getClient_eq hc, ok_bind]
      cases hbtype : c.btype with
      | none => trivial
      | list =>
        have hkeys : ¬c.bpop.keys ≠ [] := fun hne =>
          hcan ⟨by simp [hbtype], fun _ => hne, by simp [hbtype]⟩
        simp only [unblockClientWaitingData, getClient_eq hc, ok_bind, redisAssert, if_neg hkeys]
        trivial
      | wait =>
        have hacks : id ∉ s.clientsWaitingAcks := fun hmem =>
          hcan ⟨by simp [hbtype], by simp [hbtype], fun _ => hmem⟩
        simp only [unblockClientWaitingReplicas, redisAssert, if_neg hacks]
        trivial

omit [DecidableEq K] in
theorem Safe.booked_of (h : Safe E s) (hE : ¬E .redisPanic) : Booked s := h.booked.resolve_right hE

theorem Safe.unblockClient (h : Safe E s)
    (hblocked : ¬E .redisPanic → ∀ c, s.client id = some c → c.blocked = true) :
    (unblockClient s id).Ensures E fun s' =>
      ∃ c, s.client id = some c ∧ CanUnblock s id c ∧ s' = BlockingServer.unblocked s id c := by
  by_cases hpanic : E .redisPanic
  · refine (unblockClient_ensures h.waiting).mono (fun e _ => ?_) fun _ h => h
    by_cases he : e = .redisPanic
    · exact he ▸ hpanic
    · exact h.errors e he
  · have hbooked := h.booked_of hpanic
    cases hc : s.client id with
    | none =>
      rw [BlockingServer.unblockClient, RedisServer.getClient, hc]
      exact h.errors _ Failure.noConfusion
    | some c =>
      have hcan := hbooked.canUnblock hc (hblocked hpanic c hc)
      rw [unblockClient_eq h.waiting hc hcan]
      exact ⟨c, rfl, hcan, rfl⟩

theorem Safe.unblock_moves (h : Safe E s)
    (hblocked : ¬E .redisPanic → ∀ c, s.client id = some c → c.blocked = true) :
    (BlockingServer.unblockClient s id).Ensures E (Moves s) := by
  refine (h.unblockClient hblocked).imp ?_
  rintro _ ⟨c, hc, hcan, rfl⟩
  exact .single (.unblock hc hcan)

omit [DecidableEq K] in
theorem Safe.releaseClient (h : Safe E s) (hc : s.client id = some c)
    (hblocked : c.blocked = false) : (releaseClient s id).Ensures E (Moves s) := by
  rw [BlockingServer.releaseClient, getClient_eq hc, ok_bind]
  refine (h.assert _).bind fun _ _ => ?_
  dsimp only
  refine Ensures.bind (Q := fun _ => True) ((h.assert _).imp fun _ _ => trivial) fun _ _ => ?_
  refine .single (.free hc hblocked ⟨?_, ?_, ?_, ?_, ?_⟩)
  all_goals
    repeat' split
    all_goals first | rfl | (intro; rfl)

omit [DecidableEq K] in
theorem Safe.bind (h : Safe E s) {x : Except Failure (RedisServer K V)}
    {f : RedisServer K V → Except Failure (RedisServer K V)} (hx : x.Ensures E (Moves s))
    (hf : ∀ s', Moves s s' → Safe E s' → (f s').Ensures E (Moves s')) :
    (x >>= f).Ensures E (Moves s) :=
  hx.bind fun s' hs' => (hf s' hs' (h.moves hs')).imp fun _ hs'' => hs'.trans hs''

theorem Safe.freeClient (h : Safe E s) (id : ClientId) :
    (freeClient s id).Ensures E (Moves s) := by
  rw [BlockingServer.freeClient]
  refine (h.getClient id).bind fun c hc => ?_
  split
  · rw [replicationCacheMaster]
    refine (h.assert _).bind fun _ _ => ?_
    rw [getClient_eq hc, ok_bind]
    refine (h.assert _).bind fun _ _ => ?_
    have hstill : Still s (s.setClient id { c with connected := false }) :=
      .setClient hc ⟨rfl, rfl, rfl, rfl, fun _ => rfl⟩ rfl
    refine Still.moves (hstill.trans ?_)
    exact .of_client rfl (fun _ => rfl) rfl rfl rfl
  · cases hblocked : c.blocked with
    | false => exact h.releaseClient hc hblocked
    | true =>
      have htrue : ∀ c', s.client id = some c' → c'.blocked = true := fun c' hc' => by
        obtain rfl := Option.some_inj.mp (hc.symm.trans hc')
        exact hblocked
      have hunblock := h.unblockClient fun _ => htrue
      show (BlockingServer.unblockClient s id >>= fun s => BlockingServer.releaseClient s id).Ensures
        E (Moves s)
      refine hunblock.bind fun s' hs' => ?_
      obtain ⟨c', hc', hcan, rfl⟩ := hs'
      have hmove : Moves s (BlockingServer.unblocked s id c') := .single (.unblock hc' hcan)
      have hself : (BlockingServer.unblocked s id c').client id = some (released c') :=
        Function.update_self id _ _
      exact ((h.moves hmove).releaseClient hself rfl).imp fun _ hs' => hmove.trans hs'

end

end BlockingServer

/-
Which clients a command tells that a key they watch has changed.

* `content` — the value and the expire of a key;
* `Marks` — after a part of a command, the clients that watch a changed key are dirty, but for
  the keys whose change was not signalled yet;
* `Unsignalled` — the keys that a command changes without a signal;
* `call_marks` — every other key is signalled; `serveKey_marks` — so are the destinations of
  blocked clients.
-/
import RedisModel.KeyspaceSpec
import RedisModel.Transactions

open Except ByteBuffer Zskiplist

namespace RedisServer

section
variable {C V : Type} {s₀ s s' : RedisServer C V} {d : ℕ} {key : Bytes} {now : ℤ}

/-! ### The content of a key -/

/-- The value of a key and its expire. -/
def content (s : RedisServer C V) (d : ℕ) (key : Bytes) : Option (V × Option ℤ) :=
  ((s.db d).dict key).map fun v => (v, (s.db d).expires key)

/-- What a command finds at a key. -/
def visible (s : RedisServer C V) (d : ℕ) (key : Bytes) (now : ℤ) : Option V :=
  if expiredAt s d key now then none else (s.db d).dict key

/-- A key is gone since its time has passed. -/
def Lapsed (s s' : RedisServer C V) (d : ℕ) (key : Bytes) (now : ℤ) : Prop :=
  content s' d key = none ∧ ∃ v t, content s d key = some (v, some t) ∧ t < now

/-- Nothing but one key has changed. -/
structure Only (s s' : RedisServer C V) (d : ℕ) (key : Bytes) : Prop where
  watched : ∀ d k, (s'.db d).watchedKeys k = (s.db d).watchedKeys k
  client : s'.client = s.client
  clients : s'.clients = s.clients
  masterhost : s'.masterhost = s.masterhost
  loading : s'.loading = s.loading
  clusterEnabled : s'.clusterEnabled = s.clusterEnabled
  dict : ∀ d' k, (d', k) ≠ (d, key) → (s'.db d').dict k = (s.db d').dict k
  expires : ∀ d' k, (d', k) ≠ (d, key) → (s'.db d').expires k = (s.db d').expires k

theorem Only.refl (s : RedisServer C V) (d : ℕ) (key : Bytes) : Only s s d key :=
  ⟨fun _ _ => rfl, rfl, rfl, rfl, rfl, rfl, fun _ _ _ => rfl, fun _ _ _ => rfl⟩

theorem Only.content (h : Only s s' d key) {d' : ℕ} {k : Bytes} (hk : (d', k) ≠ (d, key)) :
    content s' d' k = content s d' k := by
  unfold RedisServer.content
  rw [h.dict d' k hk, h.expires d' k hk]

theorem only_setDb {db : RedisDb C V} (hwatched : db.watchedKeys = (s.db d).watchedKeys)
    (hdict : ∀ k ≠ key, db.dict k = (s.db d).dict k)
    (hexpires : ∀ k ≠ key, db.expires k = (s.db d).expires k) : Only s (s.setDb d db) d key := by
  refine ⟨fun d' k => ?_, rfl, rfl, rfl, rfl, rfl, fun d' k hk => ?_, fun d' k hk => ?_⟩ <;>
    by_cases hd : d' = d
  · subst hd
    rw [setDb_self, hwatched]
  · rw [setDb_of_ne s hd]
  · subst hd
    rw [setDb_self]
    exact hdict k fun heq => hk (by rw [heq])
  · rw [setDb_of_ne s hd]
  · subst hd
    rw [setDb_self]
    exact hexpires k fun heq => hk (by rw [heq])
  · rw [setDb_of_ne s hd]

theorem Only.congr (h : Only s s' d key) {s'' : RedisServer C V} (hdb : s''.db = s'.db)
    (hrest : Rest s' s'') : Only s s'' d key :=
  ⟨fun d k => by rw [hdb]; exact h.watched d k, hrest.client.trans h.client,
    hrest.clients.trans h.clients, hrest.masterhost.trans h.masterhost,
    hrest.loading.trans h.loading, hrest.clusterEnabled.trans h.clusterEnabled,
    fun d' k hk => by rw [hdb]; exact h.dict d' k hk,
    fun d' k hk => by rw [hdb]; exact h.expires d' k hk⟩

theorem slotToKeyAdd_rest (s : RedisServer C V) (key : Bytes) :
    (slotToKeyAdd s key).Ensures (fun _ => True) fun r => r.db = s.db ∧ Rest s r := by
  unfold slotToKeyAdd
  cases zslInsert s.slotsToKeys (s.inserted + 1) ((s.levels s.inserted).val + 1)
    (keyHashSlot key) key with
  | none => trivial
  | some z => exact ⟨rfl, rfl, rfl, rfl, rfl, rfl, rfl⟩

theorem slotToKeyDel_rest (s : RedisServer C V) (key : Bytes) :
    (slotToKeyDel s key).Ensures (fun _ => True) fun r => r.db = s.db ∧ Rest s r := by
  unfold slotToKeyDel
  cases zslDelete s.slotsToKeys (keyHashSlot key) key with
  | none => trivial
  | some z => exact ⟨rfl, rfl, rfl, rfl, rfl, rfl, rfl⟩

theorem dbAdd_only (s : RedisServer C V) (d : ℕ) (key : Bytes) (val : V) :
    (dbAdd s d key val).Ensures (fun _ => True) fun r => Only s r d key := by
  unfold dbAdd
  split
  · trivial
  · have honly : Only s (s.setDb d { s.db d with
        dict := Function.update (s.db d).dict key (some val) }) d key :=
      only_setDb rfl (fun k hk => Function.update_of_ne hk _ _) fun _ _ => rfl
    dsimp only
    split
    · exact (slotToKeyAdd_rest _ key).imp fun _ hr => honly.congr hr.1 hr.2
    · exact honly

theorem dbOverwrite_only (s : RedisServer C V) (d : ℕ) (key : Bytes) (val : V) :
    (dbOverwrite s d key val).Ensures (fun _ => True) fun r => Only s r d key := by
  unfold dbOverwrite
  split
  · exact only_setDb rfl (fun k hk => Function.update_of_ne hk _ _) fun _ _ => rfl
  · trivial

theorem dbDelete_only (s : RedisServer C V) (d : ℕ) (key : Bytes) :
    (dbDelete s d key).Ensures (fun _ => True) fun r =>
      Only s r.1 d key ∧ (r.1.db d).dict key = none := by
  have honly : Only s (s.setDb d (without (s.db d) key)) d key :=
    only_setDb rfl (fun k hk => Function.update_of_ne hk _ _) fun k hk =>
      Function.update_of_ne hk _ _
  have hnone : ((s.setDb d (without (s.db d) key)).db d).dict key = none := by
    rw [setDb_self]
    exact Function.update_self _ _ _
  unfold dbDelete
  simp only [setDb_self, setDb_setDb]
  split
  · refine Ensures.bind (Q := fun r => Only s r d key ∧ (r.db d).dict key = none) ?_
      fun _ hr => hr
    split
    · refine (slotToKeyDel_rest _ key).imp fun r hr => ⟨honly.congr hr.1 hr.2, ?_⟩
      rw [hr.1]
      exact hnone
    · exact ⟨honly, hnone⟩
  · rename_i hkey
    refine ⟨only_setDb rfl (fun _ _ => rfl) fun k hk => Function.update_of_ne hk _ _, ?_⟩
    rw [setDb_self]
    simpa using hkey

theorem dbDelete_there (s : RedisServer C V) (d : ℕ) (key : Bytes) :
    (dbDelete s d key).Ensures (fun _ => True) fun r => r.2 = ((s.db d).dict key).isSome := by
  unfold dbDelete
  simp only [setDb_self, setDb_setDb]
  split
  · rename_i hkey
    refine Ensures.bind (Q := fun _ => True) ?_ fun _ _ => hkey.symm
    split
    · exact (slotToKeyDel_rest _ key).imp fun _ _ => trivial
    · trivial
  · rename_i hkey
    exact (Bool.eq_false_of_not_eq_true hkey).symm

theorem setExpire_only (s : RedisServer C V) (d : ℕ) (key : Bytes) (when : ℤ) :
    (setExpire s d key when).Ensures (fun _ => True) fun r => Only s r d key := by
  unfold setExpire
  split
  · exact only_setDb rfl (fun _ _ => rfl) fun k hk => Function.update_of_ne hk _ _
  · trivial

theorem removeExpire_only (s : RedisServer C V) (d : ℕ) (key : Bytes) :
    (removeExpire s d key).Ensures (fun _ => True) fun r => Only s r.1 d key := by
  unfold removeExpire
  split
  · exact only_setDb rfl (fun _ _ => rfl) fun k hk => Function.update_of_ne hk _ _
  · trivial

theorem lookupKeyWrite_only (s : RedisServer C V) (d : ℕ) (key : Bytes) (now : ℤ) :
    (lookupKeyWrite s d key now).Ensures (fun _ => True) fun r => Only s r.1 d key ∧
      r.2 = visible s d key now ∧ r.2 = (r.1.db d).dict key ∧
      (content r.1 d key = content s d key ∨ Lapsed s r.1 d key now) := by
  have hkeep : expiredAt s d key now = false → (Except.ok (s, lookupKey s d key) :
      Except Failure (RedisServer C V × Option V)).Ensures (fun _ => True) fun r =>
        Only s r.1 d key ∧ r.2 = visible s d key now ∧ r.2 = (r.1.db d).dict key ∧
        (content r.1 d key = content s d key ∨ Lapsed s r.1 d key now) := by
    intro hexpired
    refine ⟨Only.refl s d key, ?_, rfl, Or.inl rfl⟩
    rw [visible, hexpired]
    rfl
  unfold lookupKeyWrite expireIfNeeded getExpire
  cases hwhen : (s.db d).expires key with
  | none =>
    refine hkeep ?_
    unfold expiredAt
    rw [hwhen]
  | some when =>
    have hexpired : expiredAt s d key now = decide (0 ≤ when ∧ s.loading = false ∧
        s.masterhost = false ∧ when < now) := by
      unfold expiredAt
      rw [hwhen]
    dsimp only
    split
    · rename_i hsome
      simp only [ok_bind]
      split
      · rename_i hneg
        exact hkeep (by rw [hexpired]; exact decide_eq_false fun h => by omega)
      · split
        · rename_i hloading
          exact hkeep (by rw [hexpired]; simp [hloading])
        · split
          · rename_i hmaster
            exact hkeep (by rw [hexpired]; simp [hmaster])
          · split
            · rename_i hle
              exact hkeep (by rw [hexpired]; exact decide_eq_false fun h => by omega)
            · rename_i hneg hloading hmaster hpast
              have hyes : expiredAt s d key now = true := by
                rw [hexpired, decide_eq_true_eq]
                exact ⟨by omega, by simpa using hloading, by simpa using hmaster, by omega⟩
              refine (dbDelete_only s d key).bind fun r hr => ?_
              refine ⟨hr.1, ?_, rfl, Or.inr ⟨?_, ?_⟩⟩
              · rw [visible, if_pos hyes]
                exact hr.2
              · rw [RedisServer.content, hr.2]
                rfl
              · obtain ⟨v, hv⟩ := Option.isSome_iff_exists.mp hsome
                refine ⟨v, when, ?_, by omega⟩
                rw [RedisServer.content, hv, hwhen]
                rfl
    · trivial

/-! ### Marked clients -/

/-- From `s₀` to `s`, a part of a command at the time `now`: the clients that watch a key that has
changed are dirty, except for the keys in `pend`. -/
structure Marks (s₀ s : RedisServer C V) (now : ℤ) (pend : List (ℕ × Bytes)) : Prop where
  watched : ∀ d k, (s.db d).watchedKeys k = (s₀.db d).watchedKeys k
  clients : s.clients = s₀.clients
  masterhost : s.masterhost = s₀.masterhost
  loading : s.loading = s₀.loading
  clusterEnabled : s.clusterEnabled = s₀.clusterEnabled
  watchedKeys : ∀ c, (s.client c).watchedKeys = (s₀.client c).watchedKeys
  dirty : ∀ c, (s₀.client c).dirtyCas = true → (s.client c).dirtyCas = true
  marked : ∀ d k, (d, k) ∈ pend ∨ content s d k = content s₀ d k ∨ Lapsed s₀ s d k now ∨
    ∀ c ∈ (s.db d).watchedKeys k, (s.client c).dirtyCas = true

theorem Marks.refl (s : RedisServer C V) (now : ℤ) : Marks s s now [] :=
  ⟨fun _ _ => rfl, rfl, rfl, rfl, rfl, fun _ => rfl, fun _ h => h, fun _ _ => Or.inr (Or.inl rfl)⟩

section
variable {pend : List (ℕ × Bytes)}

theorem Marks.mono (h : Marks s₀ s now pend) {pend' : List (ℕ × Bytes)} (hsub : pend ⊆ pend') :
    Marks s₀ s now pend' :=
  ⟨h.watched, h.clients, h.masterhost, h.loading, h.clusterEnabled, h.watchedKeys, h.dirty,
    fun d k => (h.marked d k).imp (fun hmem => hsub hmem) id⟩

/-- A key is changed; unless its clients are dirty already it has to be signalled. -/
theorem Marks.change (h : Marks s₀ s now pend) (honly : Only s s' d key)
    {pend' : List (ℕ × Bytes)} (hsub : pend ⊆ pend')
    (hkey : (d, key) ∈ pend' ∨ ∀ c ∈ (s.db d).watchedKeys key, (s.client c).dirtyCas = true) :
    Marks s₀ s' now pend' := by
  refine ⟨fun d k => (honly.watched d k).trans (h.watched d k), honly.clients.trans h.clients,
    honly.masterhost.trans h.masterhost, honly.loading.trans h.loading,
    honly.clusterEnabled.trans h.clusterEnabled, fun c => by rw [honly.client]; exact h.watchedKeys c,
    fun c hc => by rw [honly.client]; exact h.dirty c hc, fun d' k => ?_⟩
  have hdirty : (∀ c ∈ (s.db d').watchedKeys k, (s.client c).dirtyCas = true) →
      ∀ c ∈ (s'.db d').watchedKeys k, (s'.client c).dirtyCas = true := by
    intro hall c hc
    rw [honly.client]
    exact hall c (honly.watched d' k ▸ hc)
  by_cases hk : (d', k) = (d, key)
  · obtain ⟨rfl, rfl⟩ := Prod.mk.inj hk
    rcases hkey with hmem | hall
    · exact Or.inl hmem
    · exact Or.inr (Or.inr (Or.inr (hdirty hall)))
  · have hsame := honly.content hk
    rcases h.marked d' k with hmem | heq | hlapsed | hall
    · exact Or.inl (hsub hmem)
    · exact Or.inr (Or.inl (hsame.trans heq))
    · exact Or.inr (Or.inr (Or.inl ⟨hsame.trans hlapsed.1, hlapsed.2⟩))
    · exact Or.inr (Or.inr (Or.inr (hdirty hall)))

theorem Marks.pending (h : Marks s₀ s now pend) (honly : Only s s' d key) :
    Marks s₀ s' now ((d, key) :: pend) :=
  h.change honly (List.subset_cons_self _ _) (Or.inl List.mem_cons_self)

theorem Marks.same (h : Marks s₀ s now pend) (honly : Only s s' d key)
    (hcontent : content s' d key = content s d key) : Marks s₀ s' now pend := by
  have hpending := h.pending honly
  refine { hpending with marked := fun d' k => ?_ }
  by_cases hk : (d', k) = (d, key)
  · obtain ⟨rfl, rfl⟩ := Prod.mk.inj hk
    rcases h.marked d' k with hmem | heq | hlapsed | hall
    · exact Or.inl hmem
    · exact Or.inr (Or.inl (hcontent.trans heq))
    · exact Or.inr (Or.inr (Or.inl ⟨hcontent.trans hlapsed.1, hlapsed.2⟩))
    · refine Or.inr (Or.inr (Or.inr fun c hc => ?_))
      rw [honly.client]
      exact hall c (honly.watched d' k ▸ hc)
  · rcases hpending.marked d' k with hmem | hrest
    · exact Or.inl ((List.mem_cons.mp hmem).resolve_left hk)
    · exact Or.inr hrest

theorem Marks.lookup (h : Marks s₀ s now pend) (d : ℕ) (key : Bytes) :
    (lookupKeyWrite s d key now).Ensures (fun _ => True) fun r => Marks s₀ r.1 now pend ∧
      r.2 = visible s d key now ∧ r.2 = (r.1.db d).dict key ∧ Only s r.1 d key := by
  refine (lookupKeyWrite_only s d key now).imp fun r hr => ?_
  obtain ⟨honly, hvisible, hval, hcontent⟩ := hr
  refine ⟨?_, hvisible, hval, honly⟩
  have hpending := h.pending honly
  refine { hpending with marked := fun d' k => ?_ }
  by_cases hk : (d', k) = (d, key)
  · obtain ⟨rfl, rfl⟩ := Prod.mk.inj hk
    rcases h.marked d' k with hmem | heq | hlapsed | hall
    · exact Or.inl hmem
    · rcases hcontent with hsame | hgone
      · exact Or.inr (Or.inl (hsame.trans heq))
      · refine Or.inr (Or.inr (Or.inl ⟨hgone.1, ?_⟩))
        rw [← heq]
        exact hgone.2
    · refine Or.inr (Or.inr (Or.inl ⟨?_, hlapsed.2⟩))
      rcases hcontent with hsame | hgone
      · exact hsame.trans hlapsed.1
      · exact hgone.1
    · refine Or.inr (Or.inr (Or.inr fun c hc => ?_))
      rw [honly.client]
      exact hall c (honly.watched d' k ▸ hc)
  · rcases hpending.marked d' k with hmem | hrest
    · exact Or.inl ((List.mem_cons.mp hmem).resolve_left hk)
    · exact Or.inr hrest

theorem Marks.add (h : Marks s₀ s now pend) (d : ℕ) (key : Bytes) (val : V) :
    (dbAdd s d key val).Ensures (fun _ => True) fun r => Marks s₀ r now ((d, key) :: pend) :=
  (dbAdd_only s d key val).imp fun _ hr => h.pending hr

theorem Marks.overwrite (h : Marks s₀ s now pend) (d : ℕ) (key : Bytes) (val : V) :
    (dbOverwrite s d key val).Ensures (fun _ => True) fun r => Marks s₀ r now ((d, key) :: pend) :=
  (dbOverwrite_only s d key val).imp fun _ hr => h.pending hr

theorem Marks.store (h : Marks s₀ s now pend) (d : ℕ) (key : Bytes) (old : Option V) (val : V) :
    (dbStore s d key old val).Ensures (fun _ => True) fun r => Only s r d key ∧
      Marks s₀ r now ((d, key) :: pend) := by
  unfold dbStore
  split
  · exact (dbAdd_only s d key val).imp fun _ hr => ⟨hr, h.pending hr⟩
  · exact (dbOverwrite_only s d key val).imp fun _ hr => ⟨hr, h.pending hr⟩

theorem Marks.delete (h : Marks s₀ s now pend) (d : ℕ) (key : Bytes) :
    (dbDelete s d key).Ensures (fun _ => True) fun r => Marks s₀ r.1 now ((d, key) :: pend) :=
  (dbDelete_only s d key).imp fun _ hr => h.pending hr.1

variable [DecidableEq C]

theorem dirty_signal (s : RedisServer C V) (d : ℕ) (key : Bytes) :
    ∀ c ∈ ((signalModifiedKey s d key).db d).watchedKeys key,
      ((signalModifiedKey s d key).client c).dirtyCas = true := by
  intro c hc
  have hmem : c ∈ (s.db d).watchedKeys key := hc
  unfold signalModifiedKey touchWatchedKey
  dsimp only
  rw [if_pos hmem]

theorem Marks.signal (h : Marks s₀ s now ((d, key) :: pend)) :
    Marks s₀ (signalModifiedKey s d key) now pend := by
  have hdirty : ∀ c, (s.client c).dirtyCas = true →
      ((signalModifiedKey s d key).client c).dirtyCas = true := by
    intro c hc
    unfold signalModifiedKey touchWatchedKey
    dsimp only
    split
    · rfl
    · exact hc
  have hclient : ∀ c, ((signalModifiedKey s d key).client c).watchedKeys
      = (s.client c).watchedKeys := by
    intro c
    unfold signalModifiedKey touchWatchedKey
    dsimp only
    split <;> rfl
  refine ⟨h.watched, h.clients, h.masterhost, h.loading, h.clusterEnabled, fun c =>
    (hclient c).trans (h.watchedKeys c), fun c hc => hdirty c (h.dirty c hc), fun d' k => ?_⟩
  by_cases hk : (d', k) = (d, key)
  · obtain ⟨rfl, rfl⟩ := Prod.mk.inj hk
    exact Or.inr (Or.inr (Or.inr (dirty_signal s d' k)))
  · rcases h.marked d' k with hmem | heq | hlapsed | hall
    · exact Or.inl ((List.mem_cons.mp hmem).resolve_left hk)
    · exact Or.inr (Or.inl heq)
    · exact Or.inr (Or.inr (Or.inl hlapsed))
    · exact Or.inr (Or.inr (Or.inr fun c hc => hdirty c (hall c hc)))

theorem Marks.signal' (h : Marks s₀ s now pend) (d : ℕ) (key : Bytes) :
    Marks s₀ (signalModifiedKey s d key) now pend :=
  (h.mono (List.subset_cons_self (d, key) pend)).signal

end

/-! ### Parts of commands -/

theorem Marks.lookupKeys (h : Marks s₀ s now []) (d : ℕ) (keys : List Bytes) :
    (lookupKeys s d now keys).Ensures (fun _ => True) fun r => Marks s₀ r.1 now [] := by
  induction keys generalizing s with
  | nil => exact h
  | cons key keys ih =>
    refine (h.lookup d key).bind fun r hr => ?_
    exact (ih hr.1).bind fun _ hrs => hrs

theorem Marks.lookupSets (h : Marks s₀ s now []) (d : ℕ) (keys : List Bytes) :
    (lookupSets s d now keys).Ensures (fun _ => True) fun r => Marks s₀ r.1 now [] := by
  induction keys generalizing s with
  | nil => exact h
  | cons key keys ih =>
    refine (h.lookup d key).bind fun r hr => ?_
    split
    · exact hr.1
    · exact (ih hr.1).bind fun _ hrs => hrs

theorem Marks.leaveKey (h : Marks s₀ s now []) (d : ℕ) (src : Bytes) (left : Outcome V) :
    (leaveKey s d src left).Ensures (fun _ => True) fun r => Marks s₀ r now [(d, src)] := by
  cases left with
  | keep => exact h.mono (List.nil_subset _)
  | store val => exact h.overwrite d src val
  | remove => exact (h.delete d src).bind fun _ hr => hr

theorem dbOverwrite_same {val : V} (hval : (s.db d).dict key = some val) :
    dbOverwrite s d key val = .ok s := by
  have hsame : Function.update (s.db d).dict key (some val) = (s.db d).dict := by
    rw [← hval, Function.update_eq_self]
  unfold dbOverwrite setDb
  rw [if_pos (by rw [hval]; rfl), hsame, Function.update_eq_self]

variable [DecidableEq C]

theorem Marks.setKey (h : Marks s₀ s now []) (d : ℕ) (key : Bytes) (val : V) :
    (setKey s d key val now).Ensures (fun _ => True) fun r => Marks s₀ r now [] ∧
      ∀ c ∈ (r.db d).watchedKeys key, (r.client c).dirtyCas = true := by
  refine (h.lookup d key).bind fun r hr => ?_
  have hstore : (if r.2.isNone = true then dbAdd r.1 d key val
      else dbOverwrite r.1 d key val).Ensures (fun _ => True)
      fun s' => Marks s₀ s' now [(d, key)] := by
    split
    · exact hr.1.add d key val
    · exact hr.1.overwrite d key val
  refine hstore.bind fun s' hs' => ?_
  refine (removeExpire_only s' d key).bind fun r' hr' => ⟨?_, dirty_signal r'.1 d key⟩
  exact (hs'.change hr' (List.Subset.refl _) (Or.inl List.mem_cons_self)).signal

theorem Marks.deleteSignal (h : Marks s₀ s now []) (d : ℕ) (key : Bytes) :
    (deleteSignal s d key).Ensures (fun _ => True) fun r => Marks s₀ r now [] := by
  have hdelete : (dbDelete s d key).Ensures (fun _ => True) fun r =>
      (r.2 = true → Marks s₀ r.1 now [(d, key)]) ∧ (r.2 = false → Marks s₀ r.1 now []) := by
    by_cases hkey : ((s.db d).dict key).isSome = true
    · refine ((h.delete d key).and (dbDelete_there s d key)).imp fun r hr => ⟨fun _ => hr.1, ?_⟩
      intro hfalse
      rw [hr.2, hkey] at hfalse
      exact absurd hfalse (by simp)
    · have hnone : (s.db d).dict key = none := by simpa using hkey
      refine ((dbDelete_only s d key).and (dbDelete_there s d key)).imp fun r hr => ⟨?_, ?_⟩
      · intro htrue
        rw [hr.2] at htrue
        exact absurd htrue hkey
      · intro _
        exact h.same hr.1.1 (by rw [RedisServer.content, RedisServer.content, hr.1.2, hnone]; rfl)
  refine hdelete.bind fun r hr => ?_
  show Marks s₀ (if r.2 = true then _ else _) now []
  split
  · rename_i htrue
    exact (hr.1 htrue).signal
  · rename_i hfalse
    exact hr.2 (by simpa using hfalse)

theorem Marks.replaceKey (h : Marks s₀ s now []) (d : ℕ) (dst : Bytes) (result : Option V) :
    (replaceKey s d dst result).Ensures (fun _ => True) fun r => Marks s₀ r now [] := by
  refine (h.delete d dst).bind fun r hr => ?_
  cases result with
  | none => exact hr.signal
  | some val =>
    refine (hr.add d dst val).bind fun s' hs' => ?_
    exact (hs'.mono (by simp)).signal

theorem Marks.handlePush (h : Marks s₀ s now []) (d : ℕ) (dstkey : Bytes) (dstobj : Option V)
    (val : V) : (rpoplpushHandlePush s d dstkey dstobj val).Ensures (fun _ => True)
      fun r => Marks s₀ r now [] :=
  (h.store d dstkey dstobj val).bind fun _ hr => hr.2.signal

/-! ### Commands -/

theorem Marks.setGenericCommand (h : Marks s₀ s now []) (d : ℕ) (key : Bytes) (val : V)
    (nx xx : Bool) (milliseconds : Option ℤ) :
    (setGenericCommand s d key val nx xx milliseconds now).Ensures (fun _ => True)
      fun r => Marks s₀ r now [] := by
  unfold RedisServer.setGenericCommand
  split
  · exact h
  · have hlookup : (if (nx || xx) = true then lookupKeyWrite s d key now else .ok (s, none)).Ensures
        (fun _ => True) fun r => Marks s₀ r.1 now [] := by
      split
      · exact (h.lookup d key).imp fun r hr => hr.1
      · exact h
    refine hlookup.bind fun r hr => ?_
    split
    · exact hr
    · refine (hr.setKey d key val).bind fun s' hs' => ?_
      split
      · -- the clients were told before the expire is set
        exact (setExpire_only s' d key _).imp fun _ honly =>
          hs'.1.change honly (List.Subset.refl _) (Or.inr hs'.2)
      · exact hs'.1

theorem Marks.getsetCommand (h : Marks s₀ s now []) (d : ℕ) (key : Bytes) (val : V)
    (isString : V → Bool) :
    (getsetCommand s d key val isString now).Ensures (fun _ => True)
      fun r => Marks s₀ r now [] := by
  refine (h.lookup d key).bind fun r hr => ?_
  split
  · exact (hr.1.setKey d key val).imp fun _ hr => hr.1
  · exact hr.1

theorem Marks.setKeys (h : Marks s₀ s now []) (d : ℕ) (pairs : List (Bytes × V)) :
    (setKeys s d pairs now).Ensures (fun _ => True) fun r => Marks s₀ r now [] :=
  Ensures.foldlM (fun _ p _ hs => (hs.setKey d p.1 p.2).imp fun _ hr => hr.1) h

theorem Marks.msetGenericCommand (h : Marks s₀ s now []) (d : ℕ) (pairs : List (Bytes × V))
    (nx : Bool) : (msetGenericCommand s d pairs nx now).Ensures (fun _ => True)
      fun r => Marks s₀ r now [] := by
  unfold RedisServer.msetGenericCommand
  split
  · refine (h.lookupKeys d _).bind fun r hr => ?_
    split
    · exact hr
    · exact hr.setKeys d pairs
  · exact h.setKeys d pairs

theorem Marks.incrDecrCommand (h : Marks s₀ s now []) (d : ℕ) (key : Bytes)
    (new : Option V → Option V) : (incrDecrCommand s d key new now).Ensures (fun _ => True)
      fun r => Marks s₀ r now [] := by
  refine (h.lookup d key).bind fun r hr => ?_
  split
  · exact hr.1
  · exact (hr.1.store d key _ _).bind fun _ hs => hs.2.signal

theorem Marks.updateCommand (h : Marks s₀ s now []) (d : ℕ) (sources : List Bytes) (key : Bytes)
    (f : List (Option V) → Option V → Outcome V) :
    (updateCommand s d sources key f now).Ensures (fun _ => True)
      fun r => Marks s₀ r now [] := by
  refine (h.lookupKeys d sources).bind fun rs hrs => ?_
  refine (hrs.lookup d key).bind fun r hr => ?_
  split
  · exact hr.1
  · exact (hr.1.store d key _ _).bind fun _ hs => hs.2.signal
  · exact (hr.1.delete d key).bind fun _ hs => hs.signal

theorem Marks.smoveCommand (h : Marks s₀ s now []) (d : ℕ) (src dst : Bytes)
    (move : V → Option V → Option (Outcome V × V)) :
    (smoveCommand s d src dst move now).Ensures (fun _ => True) fun r => Marks s₀ r now [] := by
  refine (h.lookup d src).bind fun r hr => ?_
  refine (hr.1.lookup d dst).bind fun r' hr' => ?_
  split
  · exact hr'.1
  · split
    · exact hr'.1
    · split
      · exact hr'.1
      · rename_i left dstset hmove
        refine (hr'.1.leaveKey d src left).bind fun s' hs' => ?_
        -- the destination is changed after its signal
        refine ((hs'.signal).signal' d dst |>.store d dst r'.2 dstset).imp fun r₂ hr₂ => ?_
        exact ((hs'.signal).signal' d dst).change hr₂.1 (List.Subset.refl _)
          (Or.inr (dirty_signal _ d dst))

theorem Marks.rpoplpushCommand (h : Marks s₀ s now []) (d : ℕ) (src dst : Bytes)
    (pop : V → Option (Outcome V)) (push : V → Option V → Option V) (rotate : V → V) :
    (rpoplpushCommand s d src dst pop push rotate now).Ensures (fun _ => True)
      fun r => Marks s₀ r now [] := by
  refine (h.lookup d src).bind fun r hr => ?_
  split
  · exact hr.1
  · split
    · exact hr.1
    · rename_i left hpop
      refine (hr.1.lookup d dst).bind fun r' hr' => ?_
      split
      · exact hr'.1
      · split
        · exact (hr'.1.handlePush d dst _ _).bind fun _ hs => hs.signal' d src
        · refine (hr'.1.handlePush d dst _ _).bind fun _ hs => ?_
          exact (hs.leaveKey d src left).bind fun _ hs' => hs'.signal

theorem Marks.sinterGenericCommand (h : Marks s₀ s now []) (d : ℕ) (sources : List Bytes)
    (dst : Bytes) (inter : List V → Option (Option V)) :
    (sinterGenericCommand s d sources dst inter now).Ensures (fun _ => True)
      fun r => Marks s₀ r now [] := by
  refine (h.lookupSets d sources).bind fun rs hrs => ?_
  split
  · exact hrs.deleteSignal d dst
  · split
    · exact hrs
    · exact hrs.replaceKey d dst _

theorem Marks.sunionDiffGenericCommand (h : Marks s₀ s now []) (d : ℕ) (sources : List Bytes)
    (dst : Bytes) (f : List (Option V) → Option (Option V)) :
    (sunionDiffGenericCommand s d sources dst f now).Ensures (fun _ => True)
      fun r => Marks s₀ r now [] := by
  refine (h.lookupKeys d sources).bind fun rs hrs => ?_
  split
  · exact hrs
  · exact hrs.replaceKey d dst _

theorem Marks.zunionInterGenericCommand (h : Marks s₀ s now []) (d : ℕ) (sources : List Bytes)
    (dst : Bytes) (f : List (Option V) → Option (Option V)) :
    (zunionInterGenericCommand s d sources dst f now).Ensures (fun _ => True)
      fun r => Marks s₀ r now [] := by
  refine (h.lookupKeys d sources).bind fun rs hrs => ?_
  split
  · exact hrs
  · refine ((hrs.delete d dst).and ((dbDelete_only rs.1 d dst).and
      (dbDelete_there rs.1 d dst))).bind fun r hr => ?_
    obtain ⟨hmarks, ⟨honly, hnone⟩, hthere⟩ := hr
    by_cases htrue : r.2 = true
    · simp only [htrue, if_true]
      split
      · exact hmarks.signal
      · -- the clients were told when the old value was deleted
        refine (dbAdd_only _ d dst _).bind fun s' hs' => ?_
        exact hmarks.signal.change hs' (List.Subset.refl _) (Or.inr (dirty_signal _ d dst))
    · have hfalse : r.2 = false := by simpa using htrue
      rw [hfalse] at hthere
      have hsame : Marks s₀ r.1 now [] := by
        refine hrs.same honly ?_
        rw [RedisServer.content, RedisServer.content, hnone,
          Option.isSome_eq_false_iff.mp hthere.symm |> Option.isNone_iff_eq_none.mp]
        rfl
      simp only [hfalse, Bool.false_eq_true, if_false]
      split
      · exact hsame
      · exact (hsame.add d dst _).bind fun _ hs' => hs'.signal

theorem Marks.sortCommand (h : Marks s₀ s now []) (d : ℕ) (sources : List Bytes)
    (dst : Bytes) (f : List (Option V) → Option (Option V)) :
    (sortCommand s d sources dst f now).Ensures (fun _ => True)
      fun r => Marks s₀ r now [] := by
  refine (h.lookupKeys d sources).bind fun rs hrs => ?_
  split
  · exact hrs
  · exact (hrs.setKey d dst _).imp fun _ hr => hr.1
  · exact hrs.deleteSignal d dst

theorem Marks.restoreCommand (h : Marks s₀ s now []) (d : ℕ) (key : Bytes) (val : V) (ttl : ℤ)
    (replace : Bool) : (restoreCommand s d key val ttl replace now).Ensures (fun _ => True)
      fun r => Marks s₀ r now [] := by
  have hlookup : (if replace = true then .ok (s, none) else lookupKeyWrite s d key now).Ensures
      (fun _ => True) fun r => Marks s₀ r.1 now [] := by
    split
    · exact h
    · exact (h.lookup d key).imp fun _ hr => hr.1
  refine hlookup.bind fun r hr => ?_
  split
  · exact hr
  · split
    · exact hr
    · have hdelete : (if replace = true then dbDelete r.1 d key else .ok (r.1, false)).Ensures
          (fun _ => True) fun r => Marks s₀ r.1 now [(d, key)] := by
        split
        · exact hr.delete d key
        · exact hr.mono (List.nil_subset _)
      refine hdelete.bind fun r hr => ?_
      refine (dbAdd_only r.1 d key val).bind fun s' hs' => ?_
      have hadded := hr.change hs' (List.Subset.refl _) (Or.inl List.mem_cons_self)
      have hexpire : (if ttl ≠ 0 then setExpire s' d key (now + ttl) else .ok s').Ensures
          (fun _ => True) fun r => Marks s₀ r now [(d, key)] := by
        split
        · exact (setExpire_only s' d key _).imp fun _ honly =>
            hadded.change honly (List.Subset.refl _) (Or.inl List.mem_cons_self)
        · exact hadded
      exact hexpire.bind fun _ hs => hs.signal

theorem Marks.migrateCommand (h : Marks s₀ s now []) (d : ℕ) (key : Bytes) (copy : Bool) :
    (migrateCommand s d key copy now).Ensures (fun _ => True) fun r => Marks s₀ r now [] := by
  refine (h.lookup d key).bind fun r hr => ?_
  split
  · exact hr.1
  · exact (hr.1.delete d key).bind fun _ hs => hs.signal

theorem Marks.delCommand (h : Marks s₀ s now []) (d : ℕ) (keys : List Bytes) :
    (delCommand s d keys now).Ensures (fun _ => True) fun r => Marks s₀ r now [] := by
  refine Ensures.foldlM (fun s key _ hs => ?_) h
  have hexpire : (expireIfNeeded s d key now).Ensures (fun _ => True)
      fun r => Marks s₀ r.1 now [] := by
    have hlookup := hs.lookup d key
    unfold lookupKeyWrite at hlookup
    cases hr : expireIfNeeded s d key now with
    | error e => trivial
    | ok r =>
      rw [hr] at hlookup
      exact hlookup.1
  exact hexpire.bind fun r hr => hr.deleteSignal d key

theorem Marks.renameGenericCommand (h : Marks s₀ s now []) (d : ℕ) (src dst : Bytes) (nx : Bool) :
    (renameGenericCommand s d src dst nx now).Ensures (fun _ => True)
      fun r => Marks s₀ r now [] := by
  unfold RedisServer.renameGenericCommand
  split
  · exact h
  · refine (h.lookup d src).bind fun r hr => ?_
    split
    · exact hr.1
    · refine Ensures.bind (Q := fun _ => True) ?_ fun expire _ => ?_
      · cases getExpire r.1 d src <;> trivial
      · refine (hr.1.lookup d dst).bind fun r' hr' => ?_
        split
        · exact hr'.1
        · have hdelete : (if r'.2.isSome = true then dbDelete r'.1 d dst
              else .ok (r'.1, false)).Ensures (fun _ => True)
              fun r => Marks s₀ r.1 now [(d, dst)] := by
            split
            · exact hr'.1.delete d dst
            · exact hr'.1.mono (List.nil_subset _)
          refine hdelete.bind fun r₂ hr₂ => ?_
          refine (dbAdd_only r₂.1 d dst _).bind fun s' hs' => ?_
          have hadded := hr₂.change hs' (List.Subset.refl _) (Or.inl List.mem_cons_self)
          have hexpire : (if expire ≠ -1 then setExpire s' d dst expire else .ok s').Ensures
              (fun _ => True) fun r => Marks s₀ r now [(d, dst)] := by
            split
            · exact (setExpire_only s' d dst _).imp fun _ honly =>
                hadded.change honly (List.Subset.refl _) (Or.inl List.mem_cons_self)
            · exact hadded
          refine hexpire.bind fun s₂ hs₂ => ?_
          exact (hs₂.delete d src).bind fun _ hs => hs.signal.signal

theorem Marks.expireGenericCommand (h : Marks s₀ s now []) (d : ℕ) (key : Bytes) (when : ℤ) :
    (expireGenericCommand s d key when now).Ensures (fun _ => True)
      fun r => Marks s₀ r now [] := by
  refine (h.lookup d key).bind fun r hr => ?_
  split
  · exact hr.1
  · split
    · refine (hr.1.delete d key).bind fun r' hr' => ?_
      split
      · exact hr'.signal
      · trivial
    · exact (setExpire_only r.1 d key when).bind fun _ honly => (hr.1.pending honly).signal

/-! ### Commands that do not signal -/

/-- The keys that a command changes without a signal. -/
def Unsignalled (s : RedisServer C V) (c : C) (now : ℤ) : Command V → ℕ → Bytes → Prop
  | .move key db, d, k => s.clusterEnabled = false ∧ 0 ≤ db ∧ db < s.dbnum ∧
      db.toNat ≠ (s.client c).db ∧ (visible s (s.client c).db key now).isSome ∧
      visible s db.toNat key now = none ∧ k = key ∧ (d = (s.client c).db ∨ d = db.toNat)
  | .persist key, d, k => ((s.db (s.client c).db).dict key).isSome ∧
      ((s.db (s.client c).db).expires key).isSome ∧ k = key ∧ d = (s.client c).db
  | .pfadd key new add, d, k => (∃ p, add ((visible s (s.client c).db key now).getD new) = some p ∧
      p.invalid = true ∧ (p.val.isSome || (visible s (s.client c).db key now).isNone) = true) ∧
      k = key ∧ d = (s.client c).db
  | .pfdebug key toDense, d, k => (∃ v val, visible s (s.client c).db key now = some v ∧
      toDense v = some val ∧ v ≠ val) ∧ k = key ∧ d = (s.client c).db
  | .populate pairs, d, k => visible s d k now = none ∧ k ∈ pairs.map Prod.fst ∧
      d = (s.client c).db
  | _, _, _ => False

theorem Marks.pfaddCommand (h : Marks s₀ s now []) (d : ℕ) (key : Bytes) (new : V)
    (add : V → Option (PfaddResult V)) :
    (pfaddCommand s d key new add now).Ensures (fun _ => True) fun r => ∃ pend,
      Marks s₀ r now pend ∧ ∀ q ∈ pend, q = (d, key) ∧
        ∃ p, add ((visible s d key now).getD new) = some p ∧ p.invalid = true ∧
          (p.val.isSome || (visible s d key now).isNone) = true := by
  refine (h.lookup d key).bind fun r hr => ?_
  obtain ⟨hmarks, hvisible, hval, -⟩ := hr
  rw [hvisible]
  split
  · exact ⟨[], hmarks, by simp⟩
  · rename_i p hadd
    by_cases hupdated : (p.val.isSome || (visible s d key now).isNone) = true
    · simp only [hupdated, if_true]
      refine (hmarks.store d key _ _).bind fun s' hs' => ?_
      split
      · rename_i hinvalid
        exact ⟨[(d, key)], hs'.2, fun q hq => ⟨by simpa using hq, p, hadd, hinvalid, hupdated⟩⟩
      · exact ⟨[], hs'.2.signal, by simp⟩
    · simp only [if_neg hupdated, ok_bind]
      split <;> exact ⟨[], hmarks, by simp⟩

omit [DecidableEq C] in
theorem Marks.pfdebugCommand (h : Marks s₀ s now []) (d : ℕ) (key : Bytes)
    (toDense : V → Option V) :
    (pfdebugCommand s d key toDense now).Ensures (fun _ => True) fun r => ∃ pend,
      Marks s₀ r now pend ∧ ∀ q ∈ pend, q = (d, key) ∧
        ∃ v val, visible s d key now = some v ∧ toDense v = some val ∧ v ≠ val := by
  refine (h.lookup d key).bind fun r hr => ?_
  obtain ⟨hmarks, hvisible, hval, -⟩ := hr
  rw [hvisible]
  split
  · exact ⟨[], hmarks, by simp⟩
  · rename_i val hbind
    obtain ⟨v, hv, hdense⟩ := Option.bind_eq_some_iff.mp hbind
    by_cases hsame : v = val
    · rw [dbOverwrite_same (by rw [← hval, hvisible, hv, hsame])]
      exact ⟨[], hmarks, by simp⟩
    · refine (hmarks.overwrite d key val).imp fun s' hs' => ?_
      exact ⟨[(d, key)], hs', fun q hq => ⟨by simpa using hq, v, val, hv, hdense, hsame⟩⟩

omit [DecidableEq C] in
theorem Only.visible (h : Only s s' d key) {d' : ℕ} {k : Bytes} (hk : (d', k) ≠ (d, key)) :
    visible s' d' k now = visible s d' k now := by
  unfold RedisServer.visible expiredAt
  rw [h.dict d' k hk, h.expires d' k hk, h.masterhost, h.loading]

omit [DecidableEq C] in
theorem Marks.moveCommand (h : Marks s₀ s now []) (d : ℕ) (key : Bytes) (db : ℤ) :
    (moveCommand s d key db now).Ensures (fun _ => True) fun r => ∃ pend,
      Marks s₀ r now pend ∧ ∀ q ∈ pend, s.clusterEnabled = false ∧ 0 ≤ db ∧ db < s.dbnum ∧
        db.toNat ≠ d ∧ (RedisServer.visible s d key now).isSome ∧
        RedisServer.visible s db.toNat key now = none ∧ (q = (d, key) ∨ q = (db.toNat, key)) := by
  unfold RedisServer.moveCommand
  split
  · exact ⟨[], h, by simp⟩
  · rename_i hcluster
    split
    · exact ⟨[], h, by simp⟩
    · rename_i hrange
      split
      · exact ⟨[], h, by simp⟩
      · rename_i hne
        refine (h.lookup d key).bind fun r hr => ?_
        obtain ⟨hmarks, hvisible, -, honly⟩ := hr
        split
        · exact ⟨[], hmarks, by simp⟩
        · rename_i o hsome
          refine (hmarks.lookup db.toNat key).bind fun r' hr' => ?_
          obtain ⟨hmarks', hvisible', -, -⟩ := hr'
          split
          · exact ⟨[], hmarks', by simp⟩
          · rename_i hnone
            refine (hmarks'.add db.toNat key o).bind fun s' hs' => ?_
            refine (hs'.delete d key).bind fun r₂ hr₂ => ?_
            refine ⟨_, hr₂, fun q hq => ?_⟩
            have hdst : RedisServer.visible s db.toNat key now = none := by
              rw [← honly.visible fun heq => hne (Prod.mk.inj heq).1, ← hvisible']
              simpa using hnone
            refine ⟨by simpa using hcluster, by omega, by omega, hne, ?_, hdst, by simpa using hq⟩
            rw [← hvisible, hsome]
            rfl

omit [DecidableEq C] in
theorem Marks.persistCommand (h : Marks s₀ s now []) (d : ℕ) (key : Bytes) :
    (persistCommand s d key).Ensures (fun _ => True) fun r => ∃ pend,
      Marks s₀ r now pend ∧ ∀ q ∈ pend, q = (d, key) ∧ ((s.db d).dict key).isSome ∧
        ((s.db d).expires key).isSome := by
  unfold RedisServer.persistCommand
  split
  · exact ⟨[], h, by simp⟩
  · rename_i hthere
    have hkey : ((s.db d).dict key).isSome := by
      rw [Option.isSome_iff_ne_none]
      simpa using hthere
    by_cases hexpires : ((s.db d).expires key).isSome = true
    · refine (removeExpire_only s d key).bind fun r hr => ?_
      exact ⟨[(d, key)], h.pending hr, fun q hq => ⟨by simpa using hq, hkey, hexpires⟩⟩
    · have hnone : (s.db d).expires key = none := by simpa using hexpires
      have hsame : Function.update (s.db d).expires key none = (s.db d).expires := by
        rw [← hnone, Function.update_eq_self]
      unfold RedisServer.removeExpire setDb
      rw [if_pos hkey, hsame, Function.update_eq_self]
      exact ⟨[], h, by simp⟩

omit [DecidableEq C] in
theorem visible_eq_of_content (hcontent : RedisServer.content s' d key = RedisServer.content s d key)
    (hmaster : s'.masterhost = s.masterhost) (hloading : s'.loading = s.loading) :
    RedisServer.visible s' d key now = RedisServer.visible s d key now := by
  unfold RedisServer.content at hcontent
  cases hdict : (s.db d).dict key with
  | none =>
    rw [hdict, Option.map_none, Option.map_eq_none_iff] at hcontent
    unfold RedisServer.visible
    rw [hdict, hcontent, ite_self, ite_self]
  | some v =>
    rw [hdict, Option.map_some] at hcontent
    obtain ⟨v', hv', heq⟩ := Option.map_eq_some_iff.mp hcontent
    obtain ⟨rfl, hexpires⟩ := Prod.mk.inj heq
    unfold RedisServer.visible expiredAt
    rw [hexpires, hmaster, hloading, hv', hdict]

omit [DecidableEq C] in
theorem lookupKeyWrite_visible (s : RedisServer C V) (d : ℕ) (key : Bytes) (now : ℤ) :
    (lookupKeyWrite s d key now).Ensures (fun _ => True) fun r => ∀ k,
      RedisServer.visible r.1 d k now = none → RedisServer.visible s d k now = none := by
  refine (lookupKeyWrite_only s d key now).imp fun r hr k hk => ?_
  obtain ⟨honly, hvisible, hval, hcontent⟩ := hr
  by_cases hkey : k = key
  · subst hkey
    rcases hcontent with hsame | hgone
    · rw [← visible_eq_of_content hsame honly.masterhost honly.loading]
      exact hk
    · rw [← hvisible, hval]
      exact Option.map_eq_none_iff.mp hgone.1
  · rw [← honly.visible fun heq => hkey (Prod.mk.inj heq).2]
    exact hk

omit [DecidableEq C] in
theorem Marks.populateCommand (h : Marks s₀ s now []) (d : ℕ) (pairs : List (Bytes × V)) :
    (populateCommand s d pairs now).Ensures (fun _ => True) fun r => ∃ pend,
      Marks s₀ r now pend ∧ ∀ q ∈ pend, RedisServer.visible s d q.2 now = none ∧
        q.2 ∈ pairs.map Prod.fst ∧ q.1 = d := by
  have hloop : (RedisServer.populateCommand s d pairs now).Ensures (fun _ => True) fun r => (∃ pend,
      Marks s₀ r now pend ∧ ∀ q ∈ pend, RedisServer.visible s d q.2 now = none ∧
        q.2 ∈ pairs.map Prod.fst ∧ q.1 = d) ∧
      ∀ k, RedisServer.visible r d k now = none → RedisServer.visible s d k now = none := by
    refine Ensures.foldlM (fun s' p hp hs' => ?_) ⟨⟨[], h, by simp⟩, fun _ hk => hk⟩
    obtain ⟨⟨pend, hmarks, hpend⟩, hhidden⟩ := hs'
    refine ((hmarks.lookup d p.1).and (lookupKeyWrite_visible s' d p.1 now)).bind fun r hr => ?_
    obtain ⟨⟨hmarks', hvisible, -, -⟩, hshow⟩ := hr
    split
    · exact ⟨⟨pend, hmarks', hpend⟩, fun k hk => hhidden k (hshow k hk)⟩
    · rename_i hnone
      have hp' : RedisServer.visible s d p.1 now = none :=
        hhidden p.1 (by rw [← hvisible]; simpa using hnone)
      refine (dbAdd_only r.1 d p.1 p.2).imp fun s₂ honly => ⟨⟨_, hmarks'.pending honly, ?_⟩, ?_⟩
      · intro q hq
        rcases List.mem_cons.mp hq with rfl | hq
        · exact ⟨hp', List.mem_map_of_mem hp, rfl⟩
        · exact hpend q hq
      · intro k hk
        by_cases hkey : k = p.1
        · rw [hkey]
          exact hp'
        · rw [honly.visible fun heq => hkey (Prod.mk.inj heq).2] at hk
          exact hhidden k (hshow k hk)
  exact hloop.imp fun _ hr => hr.1

/-! ### Flushes -/

/-- A client that watches a key is connected, and has the key among its own. -/
def Listed (s : RedisServer C V) : Prop :=
  ∀ d k, ∀ c ∈ (s.db d).watchedKeys k, c ∈ s.clients ∧ (d, k) ∈ (s.client c).watchedKeys

theorem flush_marks (now : ℤ) (hlisted : Listed s) {w : ℕ → Bool} {dbid : Option ℕ}
    (hw : ∀ d, w d = true → dbid = none ∨ dbid = some d) :
    Marks s (if (emptyDbs (signalFlushedDb s dbid) w).clusterEnabled = true then
      slotToKeyFlush (emptyDbs (signalFlushedDb s dbid) w)
      else emptyDbs (signalFlushedDb s dbid) w) now [] := by
  have hdb : ∀ d, ((emptyDbs (signalFlushedDb s dbid) w).db d).watchedKeys
      = (s.db d).watchedKeys := by
    intro d
    show (if w d = true then _ else s.db d : RedisDb C V).watchedKeys = _
    split <;> rfl
  have hmarks : Marks s (emptyDbs (signalFlushedDb s dbid) w) now [] := by
    refine ⟨fun d k => by rw [hdb], rfl, rfl, rfl, rfl, fun c => ?_, fun c hc => ?_, fun d k => ?_⟩
    · show ((signalFlushedDb s dbid).client c).watchedKeys = _
      unfold signalFlushedDb touchWatchedKeysOnFlush
      dsimp only
      split <;> rfl
    · show ((signalFlushedDb s dbid).client c).dirtyCas = true
      unfold signalFlushedDb touchWatchedKeysOnFlush
      dsimp only
      split
      · rfl
      · exact hc
    · by_cases hd : w d = true
      · cases hdict : (s.db d).dict k with
        | none =>
          refine Or.inr (Or.inl ?_)
          unfold RedisServer.content
          rw [hdict]
          show Option.map _ ((if w d = true then _ else s.db d : RedisDb C V).dict k) = _
          rw [if_pos hd]
          rfl
        | some v =>
          refine Or.inr (Or.inr (Or.inr fun c hc => ?_))
          rw [hdb] at hc
          obtain ⟨hmem, hkey⟩ := hlisted d k c hc
          show ((signalFlushedDb s dbid).client c).dirtyCas = true
          unfold signalFlushedDb touchWatchedKeysOnFlush
          dsimp only
          rw [if_pos ⟨hmem, (d, k), hkey, hw d hd, by rw [hdict]; rfl⟩]
      · refine Or.inr (Or.inl ?_)
        have hsame : (emptyDbs (signalFlushedDb s dbid) w).db d = s.db d := if_neg hd
        unfold RedisServer.content
        rw [hsame]
  split
  · exact ⟨hmarks.watched, hmarks.clients, hmarks.masterhost, hmarks.loading, hmarks.clusterEnabled,
      hmarks.watchedKeys, hmarks.dirty, hmarks.marked⟩
  · exact hmarks

/-! ### Every command -/

theorem call_marks (hlisted : Listed s) (c : C) (now : ℤ) (cmd : Command V) :
    (call s c now cmd).Ensures (fun _ => True) fun r => ∃ pend, Marks s r now pend ∧
      ∀ q ∈ pend, Unsignalled s c now cmd q.1 q.2 := by
  have hrefl : Marks s s now [] := Marks.refl s now
  have hnone : ∀ {x : Except Failure (RedisServer C V)},
      x.Ensures (fun _ => True) (fun r => Marks s r now []) →
      x.Ensures (fun _ => True) fun r => ∃ pend, Marks s r now pend ∧
        ∀ q ∈ pend, Unsignalled s c now cmd q.1 q.2 :=
    fun hx => hx.imp fun _ hr => ⟨[], hr, fun _ hq => absurd hq List.not_mem_nil⟩
  cases cmd with
  | set key val nx xx ms => exact hnone (hrefl.setGenericCommand _ key val nx xx ms)
  | getset key val isString => exact hnone (hrefl.getsetCommand _ key val isString)
  | mset pairs nx => exact hnone (hrefl.msetGenericCommand _ pairs nx)
  | incrDecr key new => exact hnone (hrefl.incrDecrCommand _ key new)
  | update sources key f => exact hnone (hrefl.updateCommand _ sources key f)
  | pfadd key new add =>
    refine (hrefl.pfaddCommand _ key new add).imp fun r hr => ?_
    obtain ⟨pend, hmarks, hpend⟩ := hr
    refine ⟨pend, hmarks, fun q hq => ?_⟩
    obtain ⟨rfl, hp⟩ := hpend q hq
    exact ⟨hp, rfl, rfl⟩
  | pfdebug key toDense =>
    refine (hrefl.pfdebugCommand _ key toDense).imp fun r hr => ?_
    obtain ⟨pend, hmarks, hpend⟩ := hr
    refine ⟨pend, hmarks, fun q hq => ?_⟩
    obtain ⟨rfl, hp⟩ := hpend q hq
    exact ⟨hp, rfl, rfl⟩
  | smove src dst move => exact hnone (hrefl.smoveCommand _ src dst move)
  | rpoplpush src dst pop push rotate =>
    exact hnone (hrefl.rpoplpushCommand _ src dst pop push rotate)
  | sinterstore sources dst inter => exact hnone (hrefl.sinterGenericCommand _ sources dst inter)
  | sunionDiff sources dst f => exact hnone (hrefl.sunionDiffGenericCommand _ sources dst f)
  | zunionInter sources dst f => exact hnone (hrefl.zunionInterGenericCommand _ sources dst f)
  | storeKey sources dst f => exact hnone (hrefl.sortCommand _ sources dst f)
  | restore key val ttl replace => exact hnone (hrefl.restoreCommand _ key val ttl replace)
  | migrate key copy => exact hnone (hrefl.migrateCommand _ key copy)
  | del keys => exact hnone (hrefl.delCommand _ keys)
  | flushdb =>
    exact hnone (flush_marks now hlisted fun d hd => Or.inr (congrArg some (of_decide_eq_true hd).symm))
  | flushall => exact hnone (flush_marks now hlisted fun d _ => Or.inl rfl)
  | rename src dst nx => exact hnone (hrefl.renameGenericCommand _ src dst nx)
  | move key db =>
    refine (hrefl.moveCommand _ key db).imp fun r hr => ?_
    obtain ⟨pend, hmarks, hpend⟩ := hr
    refine ⟨pend, hmarks, fun q hq => ?_⟩
    obtain ⟨hcluster, hle, hlt, hne, hsrc, hdst, hq | hq⟩ := hpend q hq
    · subst hq
      exact ⟨hcluster, hle, hlt, hne, hsrc, hdst, rfl, Or.inl rfl⟩
    · subst hq
      exact ⟨hcluster, hle, hlt, hne, hsrc, hdst, rfl, Or.inr rfl⟩
  | expire key when => exact hnone (hrefl.expireGenericCommand _ key when)
  | persist key =>
    refine (hrefl.persistCommand _ key).imp fun r hr => ?_
    obtain ⟨pend, hmarks, hpend⟩ := hr
    refine ⟨pend, hmarks, fun q hq => ?_⟩
    obtain ⟨rfl, hkey, hexpires⟩ := hpend q hq
    exact ⟨hkey, hexpires, rfl, rfl⟩
  | select db =>
    refine hnone ?_
    show Marks s (selectCommand s c db) now []
    unfold selectCommand
    split
    · exact hrefl
    · split
      · exact hrefl
      · have hclient : ∀ c', (Function.update s.client c { s.client c with db := db.toNat }
            c').watchedKeys = (s.client c').watchedKeys ∧ (Function.update s.client c
            { s.client c with db := db.toNat } c').dirtyCas = (s.client c').dirtyCas := by
          intro c'
          rw [Function.update_apply]
          split
          · rename_i heq
            rw [heq]
            exact ⟨rfl, rfl⟩
          · exact ⟨rfl, rfl⟩
        exact ⟨fun _ _ => rfl, rfl, rfl, rfl, rfl, fun c' => (hclient c').1,
          fun c' hc' => (hclient c').2.trans hc', fun _ _ => Or.inr (Or.inl rfl)⟩
  | read keys => exact hnone ((hrefl.lookupKeys _ keys).bind fun _ hr => hr)
  | populate pairs =>
    refine (hrefl.populateCommand _ pairs).imp fun r hr => ?_
    obtain ⟨pend, hmarks, hpend⟩ := hr
    refine ⟨pend, hmarks, fun q hq => ?_⟩
    obtain ⟨hhidden, hmem, hd⟩ := hpend q hq
    exact ⟨hd ▸ hhidden, hmem, hd⟩

/-! ### Blocked clients -/

theorem Marks.serveClient (h : Marks s₀ s now [(d, key)]) (receiver : Receiver V) :
    (serveClient s d key now receiver).Ensures (fun _ => True)
      fun r => Marks s₀ r now [(d, key)] := by
  unfold RedisServer.serveClient
  split
  · trivial
  · rename_i o hsome
    refine (dbOverwrite_only s d key (receiver.pop o)).bind fun s' honly => ?_
    have hpop := h.change honly (List.Subset.refl _) (Or.inl List.mem_cons_self)
    split
    · exact hpop
    · rename_i dstkey hdst
      refine (hpop.lookup d dstkey).bind fun r hr => ?_
      split
      · exact (dbOverwrite_only r.1 d key o).imp fun _ honly' =>
          hr.1.change honly' (List.Subset.refl _) (Or.inl List.mem_cons_self)
      · exact (hr.1.store d dstkey _ _).bind fun _ hs => hs.2.signal

theorem serveKey_marks (s : RedisServer C V) (d : ℕ) (key : Bytes) (receivers : List (Receiver V))
    (isList isEmpty : V → Bool) (now : ℤ) :
    (serveKey s d key receivers isList isEmpty now).Ensures (fun _ => True)
      fun r => Marks s r now [(d, key)] := by
  refine ((Marks.refl s now).lookup d key).bind fun r hr => ?_
  have hlookup : Marks s r.1 now [(d, key)] := hr.1.mono (List.nil_subset _)
  split
  · have hloop : (receivers.foldlM (fun s receiver => RedisServer.serveClient s d key now receiver)
        r.1).Ensures (fun _ => True) fun s' => Marks s s' now [(d, key)] :=
      Ensures.foldlM (fun _ receiver _ hs => hs.serveClient receiver) hlookup
    refine hloop.bind fun s' hs' => ?_
    split
    · refine (dbDelete_only s' d key).bind fun r' hr' => ?_
      exact hs'.change hr'.1 (List.Subset.refl _) (Or.inl List.mem_cons_self)
    · exact hs'
  · exact hlookup

end

end RedisServer

/-
The two indexes of watched keys: the keys of each client, and the clients of each key.

* `TwoWay` — both list the same clients, databases and keys, each once;
* `SameData` — what `WATCH` and `UNWATCH` leave alone;
* `unwatchAllKeys_spec` — the assertion of `unwatchAllKeys` does not fail, and the client watches
  nothing afterwards;
* `watchForKeys_spec` — the keys of a `WATCH` are watched.
-/
import RedisModel.KeyspaceRun
import RedisModel.WatchSignals

open Except ByteBuffer

namespace RedisServer

section
variable {C V : Type} {s s' : RedisServer C V}

/-- The two indexes list the same clients, databases and keys. -/
structure TwoWay (s : RedisServer C V) : Prop where
  mem : ∀ c d k, c ∈ (s.db d).watchedKeys k ↔ (d, k) ∈ (s.client c).watchedKeys
  clients_nodup : ∀ d k, ((s.db d).watchedKeys k).Nodup
  keys_nodup : ∀ c, (s.client c).watchedKeys.Nodup
  connected : ∀ c, (s.client c).watchedKeys ≠ [] → c ∈ s.clients

theorem TwoWay.listed (h : TwoWay s) : Listed s := by
  intro d k c hc
  have hmem := (h.mem c d k).mp hc
  exact ⟨h.connected c (List.ne_nil_of_mem hmem), hmem⟩

theorem TwoWay.marks {now : ℤ} {pend : List (ℕ × Bytes)} (h : TwoWay s)
    (hmarks : Marks s s' now pend) : TwoWay s' := by
  refine ⟨fun c d k => ?_, fun d k => ?_, fun c => ?_, fun c hc => ?_⟩
  · rw [hmarks.watched, hmarks.watchedKeys]
    exact h.mem c d k
  · rw [hmarks.watched]
    exact h.clients_nodup d k
  · rw [hmarks.watchedKeys]
    exact h.keys_nodup c
  · rw [hmarks.watchedKeys] at hc
    rw [hmarks.clients]
    exact h.connected c hc

/-- Everything but clients and watched keys is the same. -/
structure SameData (s s' : RedisServer C V) : Prop where
  dict : ∀ d, (s'.db d).dict = (s.db d).dict
  expires : ∀ d, (s'.db d).expires = (s.db d).expires
  slotsToKeys : s'.slotsToKeys = s.slotsToKeys
  inserted : s'.inserted = s.inserted
  dbnum : s'.dbnum = s.dbnum
  clusterEnabled : s'.clusterEnabled = s.clusterEnabled

theorem SameData.refl (s : RedisServer C V) : SameData s s :=
  ⟨fun _ => rfl, fun _ => rfl, rfl, rfl, rfl, rfl⟩

theorem SameData.trans {s'' : RedisServer C V} (h : SameData s s') (h' : SameData s' s'') :
    SameData s s'' :=
  ⟨fun d => (h'.dict d).trans (h.dict d), fun d => (h'.expires d).trans (h.expires d),
    h'.slotsToKeys.trans h.slotsToKeys, h'.inserted.trans h.inserted, h'.dbnum.trans h.dbnum,
    h'.clusterEnabled.trans h.clusterEnabled⟩

theorem SameData.content (h : SameData s s') (d : ℕ) (k : Bytes) :
    content s' d k = content s d k := by
  unfold RedisServer.content
  rw [h.dict, h.expires]

theorem Sound.sameData (h : Sound s) (hdata : SameData s s')
    (hdb : s.clusterEnabled = true → ∀ c, (s'.client c).db = 0) : Sound s' := by
  refine ⟨⟨fun d k hk => ?_, fun hcluster => ?_⟩, fun hcluster d hd k => ?_, fun hcluster => ?_, ?_⟩
  · rw [hdata.expires] at hk
    rw [hdata.dict]
    exact h.indexed.expires d k hk
  · rw [hdata.clusterEnabled] at hcluster
    obtain ⟨L, hL⟩ := h.indexed.index hcluster
    exact ⟨L, hL.congr hdata.slotsToKeys hdata.inserted fun k => by rw [hdata.dict]⟩
  · rw [hdata.clusterEnabled] at hcluster
    rw [hdata.dict]
    exact h.only hcluster d hd k
  · rw [hdata.clusterEnabled] at hcluster
    exact hdb hcluster
  · rw [hdata.dbnum]
    exact h.dbnum

/-! A change of the clients of a key in one database. -/

section
variable {d : ℕ} {db : RedisDb C V}

theorem setDb_dict (h : db.dict = (s.db d).dict) (d' : ℕ) :
    ((s.setDb d db).db d').dict = (s.db d').dict := by
  by_cases hd : d' = d
  · subst hd
    rw [setDb_self, h]
  · rw [setDb_of_ne s hd]

theorem setDb_expires (h : db.expires = (s.db d).expires) (d' : ℕ) :
    ((s.setDb d db).db d').expires = (s.db d').expires := by
  by_cases hd : d' = d
  · subst hd
    rw [setDb_self, h]
  · rw [setDb_of_ne s hd]

theorem setDb_watchedKeys (d' : ℕ) (k : Bytes) : ((s.setDb d db).db d').watchedKeys k
    = if d' = d then db.watchedKeys k else (s.db d').watchedKeys k := by
  split
  · rename_i hd
    rw [hd, setDb_self]
  · rename_i hd
    rw [setDb_of_ne s hd]

end

section
variable [DecidableEq C] {c : C}

/-! ### `unwatchAllKeys` -/

/-- The client `c` watches nothing any more. -/
structure Unwatched (s s' : RedisServer C V) (c : C) : Prop where
  data : SameData s s'
  twoWay : TwoWay s'
  none : (s'.client c).watchedKeys = []
  other : ∀ c' ≠ c, s'.client c' = s.client c'
  db : (s'.client c).db = (s.client c).db
  clients : s'.clients = s.clients

theorem TwoWay.drop (h : TwoWay s) {wk : ℕ × Bytes} {l : List (ℕ × Bytes)}
    (hl : (s.client c).watchedKeys = wk :: l)
    (hwatched : ∀ d k, (s'.db d).watchedKeys k
      = if (d, k) = wk then ((s.db d).watchedKeys k).erase c else (s.db d).watchedKeys k)
    (hself : (s'.client c).watchedKeys = l) (hother : ∀ c' ≠ c, s'.client c' = s.client c')
    (hclients : s'.clients = s.clients) : TwoWay s' := by
  have hnodup := h.keys_nodup c
  rw [hl] at hnodup
  obtain ⟨hwk, hnodup⟩ := List.nodup_cons.mp hnodup
  refine ⟨fun c' d k => ?_, fun d k => ?_, fun c' => ?_, fun c' hc' => ?_⟩
  · rw [hwatched]
    by_cases hc' : c' = c
    · subst hc'
      rw [hself]
      split
      · rename_i heq
        rw [heq, (h.clients_nodup d k).mem_erase_iff]
        simp [hwk]
      · rename_i hne
        rw [h.mem, hl, List.mem_cons]
        simp [hne]
    · rw [hother c' hc', ← h.mem]
      split
      · exact List.mem_erase_of_ne hc'
      · rfl
  · rw [hwatched]
    split
    · exact (h.clients_nodup d k).erase c
    · exact h.clients_nodup d k
  · by_cases hc' : c' = c
    · subst hc'
      rw [hself]
      exact hnodup
    · rw [hother c' hc']
      exact h.keys_nodup c'
  · rw [hclients]
    by_cases heq : c' = c
    · subst heq
      exact h.connected c' (by rw [hl]; simp)
    · rw [hother c' heq] at hc'
      exact h.connected c' hc'

theorem unwatchKey_spec (h : TwoWay s) {wk : ℕ × Bytes} {l : List (ℕ × Bytes)}
    (hl : (s.client c).watchedKeys = wk :: l) :
    (unwatchKey s c wk).Ensures (fun _ => False) fun r => SameData s r ∧ TwoWay r ∧
      (r.client c).watchedKeys = l ∧ (∀ c' ≠ c, r.client c' = s.client c') ∧
      (r.client c).db = (s.client c).db ∧ r.clients = s.clients := by
  have hmem : c ∈ (s.db wk.1).watchedKeys wk.2 := by
    rw [h.mem, hl]
    exact List.mem_cons_self
  unfold unwatchKey
  rw [if_neg (List.ne_nil_of_mem hmem), if_neg (not_not_intro hmem)]
  have hself : ∀ x : RedisClient, x.watchedKeys = l →
      (Function.update s.client c x c).watchedKeys = l := by
    intro x hx
    rw [Function.update_self]
    exact hx
  have htail : (s.client c).watchedKeys.tail = l := by
    rw [hl]
    rfl
  refine ⟨⟨setDb_dict rfl, setDb_expires rfl, rfl, rfl, rfl, rfl⟩, h.drop hl (fun d k => ?_)
    (hself _ htail) (fun c' hc' => Function.update_of_ne hc' _ _) rfl, hself _ htail,
    fun c' hc' => Function.update_of_ne hc' _ _, ?_, rfl⟩
  · show ((s.setDb wk.1 _).db d).watchedKeys k = _
    rw [setDb_watchedKeys]
    show (if d = wk.1 then Function.update (s.db wk.1).watchedKeys wk.2 _ k else _) = _
    rw [Function.update_apply]
    by_cases hd : d = wk.1
    · subst hd
      by_cases hk : k = wk.2
      · rw [if_pos rfl, if_pos hk, if_pos (by rw [hk]), hk]
      · rw [if_pos rfl, if_neg hk, if_neg fun heq => hk (by rw [← heq])]
    · rw [if_neg hd, if_neg fun heq => hd (by rw [← heq])]
  · show (Function.update s.client c _ c).db = _
    rw [Function.update_self]
    rfl

theorem unwatchAllKeys_spec (h : TwoWay s) (c : C) :
    (unwatchAllKeys s c).Ensures (fun _ => False) fun r => Unwatched s r c := by
  unfold unwatchAllKeys
  generalize hl : (s.client c).watchedKeys = l
  induction l generalizing s with
  | nil => exact ⟨SameData.refl s, h, hl, fun _ _ => rfl, rfl, rfl⟩
  | cons wk l ih =>
    rw [List.foldlM_cons]
    refine (unwatchKey_spec h hl).bind fun s₁ hs₁ => ?_
    obtain ⟨hdata, htwo, hl₁, hother, hdb, hclients⟩ := hs₁
    refine (ih htwo hl₁).imp fun r hr => ?_
    exact ⟨hdata.trans hr.data, hr.twoWay, hr.none,
      fun c' hc' => (hr.other c' hc').trans (hother c' hc'), hr.db.trans hdb,
      hr.clients.trans hclients⟩

/-! ### `WATCH` -/

/-- More keys are watched. -/
structure Watches (s s' : RedisServer C V) : Prop where
  data : SameData s s'
  twoWay : TwoWay s'
  mono : ∀ c, (s.client c).watchedKeys ⊆ (s'.client c).watchedKeys
  dirtyCas : ∀ c, (s'.client c).dirtyCas = (s.client c).dirtyCas
  db : ∀ c, (s'.client c).db = (s.client c).db
  clients : s'.clients = s.clients

omit [DecidableEq C] in
theorem Watches.trans {s'' : RedisServer C V} (h : Watches s s') (h' : Watches s' s'') :
    Watches s s'' :=
  ⟨h.data.trans h'.data, h'.twoWay, fun c => List.Subset.trans (h.mono c) (h'.mono c),
    fun c => (h'.dirtyCas c).trans (h.dirtyCas c), fun c => (h'.db c).trans (h.db c),
    h'.clients.trans h.clients⟩

theorem TwoWay.push (h : TwoWay s) (hc : c ∈ s.clients) {wk : ℕ × Bytes}
    (hnew : wk ∉ (s.client c).watchedKeys)
    (hwatched : ∀ d k, (s'.db d).watchedKeys k
      = if (d, k) = wk then (s.db d).watchedKeys k ++ [c] else (s.db d).watchedKeys k)
    (hself : (s'.client c).watchedKeys = (s.client c).watchedKeys ++ [wk])
    (hother : ∀ c' ≠ c, s'.client c' = s.client c') (hclients : s'.clients = s.clients) :
    TwoWay s' := by
  refine ⟨fun c' d k => ?_, fun d k => ?_, fun c' => ?_, fun c' hc' => ?_⟩
  · rw [hwatched]
    by_cases hc' : c' = c
    · subst hc'
      rw [hself, List.mem_append, ← h.mem, List.mem_singleton]
      split
      · rename_i heq
        simp [heq]
      · rename_i hne
        simp [hne]
    · rw [hother c' hc', ← h.mem]
      split
      · rw [List.mem_append, List.mem_singleton]
        exact or_iff_left hc'
      · rfl
  · rw [hwatched]
    split
    · rename_i heq
      have hout : c ∉ (s.db d).watchedKeys k := fun hmem => hnew (heq ▸ (h.mem c d k).mp hmem)
      rw [← List.concat_eq_append]
      exact (h.clients_nodup d k).concat hout
    · exact h.clients_nodup d k
  · by_cases hc' : c' = c
    · subst hc'
      rw [hself, ← List.concat_eq_append]
      exact (h.keys_nodup c').concat hnew
    · rw [hother c' hc']
      exact h.keys_nodup c'
  · rw [hclients]
    by_cases heq : c' = c
    · rw [heq]
      exact hc
    · rw [hother c' heq] at hc'
      exact h.connected c' hc'

theorem watchForKey_spec (h : TwoWay s) (hc : c ∈ s.clients) (key : Bytes) :
    Watches s (watchForKey s c key) ∧
      ((s.client c).db, key) ∈ ((watchForKey s c key).client c).watchedKeys := by
  unfold watchForKey
  dsimp only
  split
  · rename_i hwatched
    exact ⟨⟨SameData.refl s, h, fun _ => List.Subset.refl _, fun _ => rfl, fun _ => rfl, rfl⟩,
      hwatched⟩
  · rename_i hnew
    have hother : ∀ x : RedisClient, ∀ c' ≠ c, Function.update s.client c x c' = s.client c' :=
      fun x c' hc' => Function.update_of_ne hc' _ _
    have hclient : ∀ c', (s.client c').watchedKeys ⊆ (Function.update s.client c
          ⟨(s.client c).db, (s.client c).watchedKeys ++ [((s.client c).db, key)],
            (s.client c).dirtyCas⟩ c').watchedKeys ∧
        (Function.update s.client c
          ⟨(s.client c).db, (s.client c).watchedKeys ++ [((s.client c).db, key)],
            (s.client c).dirtyCas⟩ c').dirtyCas = (s.client c').dirtyCas ∧
        (Function.update s.client c
          ⟨(s.client c).db, (s.client c).watchedKeys ++ [((s.client c).db, key)],
            (s.client c).dirtyCas⟩ c').db = (s.client c').db := by
      intro c'
      by_cases hc' : c' = c
      · subst hc'
        rw [Function.update_self]
        exact ⟨List.subset_append_left _ _, rfl, rfl⟩
      · rw [hother _ c' hc']
        exact ⟨List.Subset.refl _, rfl, rfl⟩
    refine ⟨⟨⟨setDb_dict rfl, setDb_expires rfl, rfl, rfl, rfl, rfl⟩,
      h.push hc hnew (fun d k => ?_) ?_ (fun c' hc' => hother _ c' hc') rfl,
      fun c' => (hclient c').1, fun c' => (hclient c').2.1, fun c' => (hclient c').2.2, rfl⟩, ?_⟩
    · show ((s.setDb (s.client c).db _).db d).watchedKeys k = _
      rw [setDb_watchedKeys]
      show (if d = (s.client c).db then Function.update (s.db (s.client c).db).watchedKeys key _ k
        else _) = _
      rw [Function.update_apply]
      by_cases hd : d = (s.client c).db
      · subst hd
        by_cases hk : k = key
        · rw [if_pos rfl, if_pos hk, if_pos (by rw [hk]), hk]
        · rw [if_pos rfl, if_neg hk, if_neg fun heq => hk (Prod.mk.inj heq).2]
      · rw [if_neg hd, if_neg fun heq => hd (Prod.mk.inj heq).1]
    · show (Function.update s.client c _ c).watchedKeys = _
      rw [Function.update_self]
      rfl
    · show ((s.client c).db, key) ∈ (Function.update s.client c _ c).watchedKeys
      rw [Function.update_self]
      exact List.mem_append_right _ (List.mem_singleton_self _)

theorem watchForKeys_spec (h : TwoWay s) (hc : c ∈ s.clients) (keys : List Bytes) :
    Watches s (keys.foldl (fun s key => watchForKey s c key) s) ∧ ∀ k ∈ keys,
      ((s.client c).db, k) ∈
        ((keys.foldl (fun s key => watchForKey s c key) s).client c).watchedKeys := by
  induction keys generalizing s with
  | nil =>
    exact ⟨⟨SameData.refl s, h, fun _ => List.Subset.refl _, fun _ => rfl, fun _ => rfl, rfl⟩,
      fun _ hk => absurd hk List.not_mem_nil⟩
  | cons key keys ih =>
    obtain ⟨hwatch, hmem⟩ := watchForKey_spec h hc key
    obtain ⟨hrest, hall⟩ := ih hwatch.twoWay (hwatch.clients ▸ hc)
    rw [List.foldl_cons]
    refine ⟨hwatch.trans hrest, fun k hk => ?_⟩
    rcases List.mem_cons.mp hk with rfl | hk
    · exact hrest.mono c hmem
    · rw [← hwatch.db c]
      exact hall k hk

end

end

end RedisServer

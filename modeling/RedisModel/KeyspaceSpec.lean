/-
What the low level functions of the keyspace do.

* `Indexed` — every key with an expire is a key, and the skip list holds the keys of
  database 0 with their slots;
* `Rest` — what these functions leave alone;
* `dbAdd_spec`, `dbDelete_spec`, `lookupKeyWrite_spec`, … — no assertion fails, and what they
  change;
* `getKeysInSlot_spec`, `countKeysInSlot_spec`, `delKeysInSlot_spec` — the keys of a slot.
-/
import RedisModel.Keyspace

open Except ByteBuffer SkipChain Zskiplist

namespace RedisServer

section
variable {C V : Type} {s : RedisServer C V} {d : ℕ} {key : Bytes}

/-! ### The invariant -/

/-- The nodes `L` of the skip list hold the keys of database 0, each under its slot. -/
structure Index (s : RedisServer C V) (L : List (Tower (ℕ × Bytes))) : Prop where
  holds : HoldsSorted s.slotsToKeys L
  ref_le : ∀ y ∈ L, y.ref ≤ s.inserted
  mem : ∀ q, q ∈ L.map Tower.data ↔ ((s.db 0).dict q.2).isSome ∧ q.1 = keyHashSlot q.2

/-- The three indexes of the keys agree. -/
structure Indexed (s : RedisServer C V) : Prop where
  expires : ∀ d key, ((s.db d).expires key).isSome → ((s.db d).dict key).isSome
  index : s.clusterEnabled = true → ∃ L, Index s L

/-- Everything but the databases and their index is the same. -/
structure Rest (s s' : RedisServer C V) : Prop where
  dbnum : s'.dbnum = s.dbnum
  clients : s'.clients = s.clients
  client : s'.client = s.client
  clusterEnabled : s'.clusterEnabled = s.clusterEnabled
  masterhost : s'.masterhost = s.masterhost
  loading : s'.loading = s.loading

theorem Rest.refl (s : RedisServer C V) : Rest s s := ⟨rfl, rfl, rfl, rfl, rfl, rfl⟩

theorem Rest.trans {s₁ s₂ s₃ : RedisServer C V} (h : Rest s₁ s₂) (h' : Rest s₂ s₃) : Rest s₁ s₃ :=
  ⟨h'.dbnum.trans h.dbnum, h'.clients.trans h.clients, h'.client.trans h.client,
    h'.clusterEnabled.trans h.clusterEnabled, h'.masterhost.trans h.masterhost,
    h'.loading.trans h.loading⟩

theorem rest_setDb (s : RedisServer C V) (d : ℕ) (db : RedisDb C V) : Rest s (s.setDb d db) :=
  ⟨rfl, rfl, rfl, rfl, rfl, rfl⟩

@[simp] theorem setDb_self (s : RedisServer C V) (d : ℕ) (db : RedisDb C V) :
    (s.setDb d db).db d = db := Function.update_self _ _ _

theorem setDb_of_ne (s : RedisServer C V) {d d' : ℕ} (h : d' ≠ d) (db : RedisDb C V) :
    (s.setDb d db).db d' = s.db d' := Function.update_of_ne h _ _

theorem setDb_setDb (s : RedisServer C V) (d : ℕ) (db db' : RedisDb C V) :
    (s.setDb d db).setDb d db' = s.setDb d db' := by
  unfold setDb
  rw [Function.update_idem]

theorem Index.congr {L : List (Tower (ℕ × Bytes))} {s' : RedisServer C V} (h : Index s L)
    (hzsl : s'.slotsToKeys = s.slotsToKeys) (hinserted : s'.inserted = s.inserted)
    (hdict : ∀ k, ((s'.db 0).dict k).isSome = ((s.db 0).dict k).isSome) : Index s' L := by
  refine ⟨hzsl ▸ h.holds, fun y hy => hinserted ▸ h.ref_le y hy, fun q => ?_⟩
  rw [hdict]
  exact h.mem q

theorem Indexed.setDb {db : RedisDb C V} (h : Indexed s)
    (hdict : ∀ k, (db.dict k).isSome = ((s.db d).dict k).isSome)
    (hexpires : ∀ k, (db.expires k).isSome → (db.dict k).isSome) : Indexed (s.setDb d db) := by
  constructor
  · intro d' k hk
    by_cases hd : d' = d
    · subst hd
      rw [setDb_self] at hk ⊢
      exact hexpires k hk
    · rw [setDb_of_ne s hd] at hk ⊢
      exact h.expires d' k hk
  · intro hcluster
    obtain ⟨L, hL⟩ := h.index hcluster
    refine ⟨L, hL.congr rfl rfl fun k => ?_⟩
    by_cases hd : 0 = d
    · subst hd
      rw [setDb_self]
      exact hdict k
    · rw [setDb_of_ne s hd]

/-! ### Adding and deleting keys -/

theorem isSome_update {α : Type} [DecidableEq α] {β : Type} (f : α → Option β) (a b : α)
    (o : Option β) : (Function.update f a o b).isSome = if b = a then o.isSome else (f b).isSome := by
  rw [Function.update_apply]
  split <;> rfl

theorem slotToKeyAdd_spec (s' : RedisServer C V) {L : List (Tower (ℕ × Bytes))} (h : Index s L)
    (hkey : (s.db 0).dict key = none) (hzsl : s'.slotsToKeys = s.slotsToKeys)
    (hinserted : s'.inserted = s.inserted)
    (hdict : ∀ k, ((s'.db 0).dict k).isSome = (decide (k = key) || ((s.db 0).dict k).isSome)) :
    (slotToKeyAdd s' key).Ensures (fun _ => False) fun r =>
      (∃ L, Index r L) ∧ Rest s' r ∧ r.db = s'.db := by
  have hnew : ∀ y ∈ L, y.data ≠ (keyHashSlot key, key) := by
    intro y hy heq
    have hmem := (h.mem y.data).mp (List.mem_map_of_mem hy)
    rw [heq, hkey] at hmem
    exact absurd hmem.1 (by simp)
  have hfresh : s.inserted + 1 ∉ (headerTower :: L).map Tower.ref := by
    rw [List.map_cons, List.mem_cons, List.mem_map]
    rintro (heq | ⟨y, hy, heq⟩)
    · exact Nat.succ_ne_zero _ heq
    · exact absurd (h.ref_le y hy) (by omega)
  have hlevel : 0 < (s'.levels s.inserted).val + 1 := Nat.succ_pos _
  obtain ⟨z', p, t, hinsert, rfl, hholds, htop, hp, ht⟩ :=
    zslInsert_spec h.holds.holds h.holds.top h.holds.sorted hnew hlevel
      (s'.levels s.inserted).isLt hfresh
  have hsorted : Ascending (p ++ ⟨s.inserted + 1, (s'.levels s.inserted).val + 1,
      (keyHashSlot key, key)⟩ :: t) := by
    obtain ⟨h₁, h₂, h₃⟩ := List.pairwise_append.mp h.holds.sorted
    refine List.pairwise_append.mpr ⟨h₁, List.pairwise_cons.mpr ⟨ht, h₂⟩, fun y hy w hw => ?_⟩
    rcases List.mem_cons.mp hw with rfl | hw
    · exact hp y hy
    · exact h₃ y hy w hw
  rw [slotToKeyAdd, hzsl, hinserted, hinsert]
  refine ⟨⟨_, ⟨hholds, htop, hsorted⟩, fun y hy => ?_, fun q => ?_⟩,
    ⟨rfl, rfl, rfl, rfl, rfl, rfl⟩, rfl⟩
  · rcases List.mem_append.mp hy with hy | hy
    · exact (h.ref_le y (List.mem_append_left _ hy)).trans (Nat.le_succ _)
    · rcases List.mem_cons.mp hy with rfl | hy
      · exact le_rfl
      · exact (h.ref_le y (List.mem_append_right _ hy)).trans (Nat.le_succ _)
  · have hmem := h.mem q
    simp only [List.map_append, List.map_cons, List.mem_append, List.mem_cons] at hmem ⊢
    rw [hdict, Bool.or_eq_true, decide_eq_true_eq]
    constructor
    · rintro (hq | rfl | hq)
      · exact ⟨Or.inr (hmem.mp (Or.inl hq)).1, (hmem.mp (Or.inl hq)).2⟩
      · exact ⟨Or.inl rfl, rfl⟩
      · exact ⟨Or.inr (hmem.mp (Or.inr hq)).1, (hmem.mp (Or.inr hq)).2⟩
    · rintro ⟨rfl | hq, hslot⟩
      · exact Or.inr (Or.inl (Prod.ext hslot rfl))
      · rcases hmem.mpr ⟨hq, hslot⟩ with hq | hq
        · exact Or.inl hq
        · exact Or.inr (Or.inr hq)

theorem sublist_eq_filter {α : Type} {L L' : List (Tower α)} {P : α → Bool} (hsub : L'.Sublist L)
    (hnodup : (L.map Tower.data).Nodup)
    (hdata : L'.map Tower.data = (L.map Tower.data).filter P) :
    L' = L.filter fun y => P y.data := by
  induction hsub with
  | slnil => rfl
  | @cons L₁ L₂ x hsub ih =>
    obtain ⟨hx, hnodup⟩ := List.nodup_cons.mp hnodup
    rw [List.map_cons, List.filter_cons] at hdata
    split at hdata
    · have hmem : x.data ∈ L₁.map Tower.data := by
        rw [hdata]
        exact List.mem_cons_self
      exact absurd ((hsub.map Tower.data).subset hmem) hx
    · rename_i hP
      rw [List.filter_cons, if_neg hP]
      exact ih hnodup hdata
  | @cons_cons L₁ L₂ x hsub ih =>
    obtain ⟨hx, hnodup⟩ := List.nodup_cons.mp hnodup
    rw [List.map_cons, List.map_cons, List.filter_cons] at hdata
    split at hdata
    · rename_i hP
      rw [List.filter_cons, if_pos hP, ← ih hnodup (List.cons.inj hdata).2]
    · have hmem : x.data ∈ (L₂.map Tower.data).filter P := by
        rw [← hdata]
        exact List.mem_cons_self
      exact absurd (List.mem_of_mem_filter hmem) hx

theorem Index.nodup {L : List (Tower (ℕ × Bytes))} (h : Index s L) :
    (L.map Tower.data).Nodup := by
  refine (ascending_iff.mp h.holds.sorted).imp ?_
  rintro a b hab rfl
  exact Precedes.irrefl a hab

/-- The nodes of the other keys. -/
def others (L : List (Tower (ℕ × Bytes))) (key : Bytes) : List (Tower (ℕ × Bytes)) :=
  L.filter fun y => decide (y.data.2 ≠ key)

theorem slotToKeyDel_spec (s' : RedisServer C V) {L : List (Tower (ℕ × Bytes))} (h : Index s L)
    (hzsl : s'.slotsToKeys = s.slotsToKeys) (hinserted : s'.inserted = s.inserted)
    (hdict : ∀ k, ((s'.db 0).dict k).isSome = (!decide (k = key) && ((s.db 0).dict k).isSome)) :
    (slotToKeyDel s' key).Ensures (fun _ => False) fun r =>
      Index r (others L key) ∧ Rest s' r ∧ r.db = s'.db := by
  obtain ⟨z', L', hdelete, hholds, htop, hsub, hdata⟩ :=
    zslDelete_spec (keyHashSlot key) key h.holds.holds h.holds.top h.holds.sorted
  have hL' : L' = others L key := by
    refine (sublist_eq_filter hsub h.nodup hdata).trans (List.filter_congr fun y hy => ?_)
    rw [decide_eq_decide, not_iff_not]
    constructor
    · exact fun heq => congrArg Prod.snd heq
    · intro heq
      refine Prod.ext ?_ heq
      rw [((h.mem y.data).mp (List.mem_map_of_mem hy)).2, heq]
  subst hL'
  rw [slotToKeyDel, hzsl, hdelete]
  refine ⟨⟨⟨hholds, htop, h.holds.sorted.sublist hsub⟩, fun y hy => ?_, fun q => ?_⟩,
    ⟨rfl, rfl, rfl, rfl, rfl, rfl⟩, rfl⟩
  · show y.ref ≤ s'.inserted
    rw [hinserted]
    exact h.ref_le y (hsub.subset hy)
  · have hmem := h.mem q
    show q ∈ (others L key).map Tower.data ↔ ((s'.db 0).dict q.2).isSome = true ∧ _
    rw [hdata, List.mem_filter, hmem, decide_eq_true_eq, hdict, Bool.and_eq_true,
      Bool.not_eq_true', decide_eq_false_iff_not]
    constructor
    · rintro ⟨⟨hq, hslot⟩, hne⟩
      refine ⟨⟨fun heq => hne (Prod.ext ?_ heq), hq⟩, hslot⟩
      rw [hslot, heq]
    · rintro ⟨⟨hne, hq⟩, hslot⟩
      exact ⟨⟨hq, hslot⟩, fun heq => hne (congrArg Prod.snd heq)⟩

theorem dbAdd_spec (h : Indexed s) (hd : s.clusterEnabled = true → d = 0)
    (hkey : (s.db d).dict key = none) (val : V) :
    (dbAdd s d key val).Ensures (fun _ => False) fun r => Indexed r ∧ Rest s r ∧
      r.db = (s.setDb d { s.db d with dict := Function.update (s.db d).dict key (some val) }).db := by
  have hdict : ∀ k, (Function.update (s.db d).dict key (some val) k).isSome
      = (decide (k = key) || ((s.db d).dict k).isSome) := by
    intro k
    rw [isSome_update]
    split <;> rename_i hk <;> simp [hk]
  have hexpires : ∀ d' k,
      (((s.setDb d { s.db d with dict := Function.update (s.db d).dict key (some val) }).db
        d').expires k).isSome →
      (((s.setDb d { s.db d with dict := Function.update (s.db d).dict key (some val) }).db
        d').dict k).isSome := by
    intro d' k hk
    by_cases hd' : d' = d
    · subst hd'
      rw [setDb_self] at hk ⊢
      rw [hdict, Bool.or_eq_true]
      exact Or.inr (h.expires d' k hk)
    · rw [setDb_of_ne s hd'] at hk ⊢
      exact h.expires d' k hk
  rw [dbAdd, hkey]
  simp only [Option.isSome_none, Bool.false_eq_true, if_false]
  split
  · rename_i hcluster
    obtain rfl := hd hcluster
    obtain ⟨L, hL⟩ := h.index hcluster
    have hadd := slotToKeyAdd_spec (s.setDb 0
      { s.db 0 with dict := Function.update (s.db 0).dict key (some val) }) hL hkey rfl rfl ?_
    · exact hadd.imp fun r hr => ⟨⟨fun d' k => by rw [hr.2.2]; exact hexpires d' k, fun _ => hr.1⟩,
        (rest_setDb s 0 _).trans hr.2.1, hr.2.2⟩
    · intro k
      rw [setDb_self]
      exact hdict k
  · rename_i hcluster
    exact ⟨⟨hexpires, fun h' => absurd h' hcluster⟩, rest_setDb s d _, rfl⟩

theorem dbOverwrite_spec (h : Indexed s) (hkey : ((s.db d).dict key).isSome) (val : V) :
    (dbOverwrite s d key val).Ensures (fun _ => False) fun r => Indexed r ∧ Rest s r ∧
      r.db = (s.setDb d { s.db d with dict := Function.update (s.db d).dict key (some val) }).db := by
  rw [dbOverwrite, if_pos hkey]
  have hdict : ∀ k, (Function.update (s.db d).dict key (some val) k).isSome
      = ((s.db d).dict k).isSome := by
    intro k
    rw [isSome_update]
    split
    · rename_i hk
      rw [hk, hkey]
      rfl
    · rfl
  refine ⟨h.setDb hdict fun k hk => ?_, rest_setDb s d _, rfl⟩
  rw [hdict]
  exact h.expires d k hk

/-- A database without a key. -/
def without (db : RedisDb C V) (key : Bytes) : RedisDb C V :=
  { db with
    dict := Function.update db.dict key none
    expires := Function.update db.expires key none }

theorem dbDelete_spec (h : Indexed s) (hd : s.clusterEnabled = true → d = 0) (key : Bytes) :
    (dbDelete s d key).Ensures (fun _ => False) fun r => Indexed r.1 ∧ Rest s r.1 ∧
      r.1.db = (s.setDb d (without (s.db d) key)).db ∧ r.2 = ((s.db d).dict key).isSome := by
  rw [dbDelete]
  simp only [setDb_self, setDb_setDb]
  split
  · rename_i hkey
    have hdict : ∀ k, (Function.update (s.db d).dict key none k).isSome
        = (!decide (k = key) && ((s.db d).dict k).isSome) := by
      intro k
      rw [isSome_update]
      split <;> rename_i hk <;> simp [hk]
    have hexpires : ∀ d' k, (((s.setDb d (without (s.db d) key)).db d').expires k).isSome →
        (((s.setDb d (without (s.db d) key)).db d').dict k).isSome := by
      intro d' k hk
      by_cases hd' : d' = d
      · subst hd'
        rw [setDb_self] at hk ⊢
        simp only [without] at hk ⊢
        rw [isSome_update] at hk
        rw [hdict]
        split at hk
        · exact absurd hk (by simp)
        · rename_i hne
          simpa [hne] using h.expires d' k hk
      · rw [setDb_of_ne s hd'] at hk ⊢
        exact h.expires d' k hk
    split
    · rename_i hcluster
      obtain rfl := hd hcluster
      obtain ⟨L, hL⟩ := h.index hcluster
      refine Ensures.bind (slotToKeyDel_spec (s.setDb 0 (without (s.db 0) key)) hL rfl rfl
        fun k => ?_) fun r hr => ?_
      · rw [setDb_self]
        exact hdict k
      · obtain ⟨hindex, hrest, hdb⟩ := hr
        exact ⟨⟨fun d' k => by rw [hdb]; exact hexpires d' k, fun _ => ⟨_, hindex⟩⟩,
          (rest_setDb s 0 _).trans hrest, hdb, hkey.symm⟩
    · rename_i hcluster
      exact ⟨⟨hexpires, fun h' => absurd h' hcluster⟩, rest_setDb s d _, rfl, hkey.symm⟩
  · rename_i hkey
    have hnone : (s.db d).dict key = none := by simpa using hkey
    have hsame : Function.update (s.db d).dict key none = (s.db d).dict := by
      rw [← hnone, Function.update_eq_self]
    refine ⟨h.setDb (fun _ => rfl) fun k hk => ?_, rest_setDb s d _, ?_, ?_⟩
    · simp only [isSome_update] at hk
      split at hk
      · exact absurd hk (by simp)
      · exact h.expires d k hk
    · unfold without
      rw [hsame]
    · exact (by simpa using hkey : ((s.db d).dict key).isSome = false).symm

theorem dbDelete_index {L : List (Tower (ℕ × Bytes))} (h : Index s L)
    (hcluster : s.clusterEnabled = true) (hkey : ((s.db 0).dict key).isSome) :
    (dbDelete s 0 key).Ensures (fun _ => False) fun r => Index r.1 (others L key) := by
  rw [dbDelete]
  simp only [setDb_self, setDb_setDb]
  rw [if_pos hkey, if_pos (show (s.setDb 0 _).clusterEnabled = true from hcluster)]
  have hdict : ∀ k, (((s.setDb 0 (without (s.db 0) key)).db 0).dict k).isSome
      = (!decide (k = key) && ((s.db 0).dict k).isSome) := by
    intro k
    rw [setDb_self]
    show (Function.update (s.db 0).dict key none k).isSome = _
    rw [isSome_update]
    split <;> rename_i hk <;> simp [hk]
  exact (slotToKeyDel_spec (s.setDb 0 (without (s.db 0) key)) h rfl rfl hdict).bind
    fun _ hr => hr.1

/-! ### Expires -/

theorem removeExpire_spec (h : Indexed s) (hkey : ((s.db d).dict key).isSome) :
    (removeExpire s d key).Ensures (fun _ => False) fun r => Indexed r.1 ∧ Rest s r.1 ∧
      r.1.db = (s.setDb d { s.db d with expires := Function.update (s.db d).expires key none }).db ∧
      r.2 = ((s.db d).expires key).isSome := by
  rw [removeExpire, if_pos hkey]
  refine ⟨h.setDb (fun _ => rfl) fun k hk => ?_, rest_setDb s d _, rfl, rfl⟩
  simp only [isSome_update] at hk
  split at hk
  · exact absurd hk (by simp)
  · exact h.expires d k hk

theorem setExpire_spec (h : Indexed s) (hkey : ((s.db d).dict key).isSome) (when : ℤ) :
    (setExpire s d key when).Ensures (fun _ => False) fun r => Indexed r ∧ Rest s r ∧
      r.db = (s.setDb d { s.db d with
        expires := Function.update (s.db d).expires key (some when) }).db := by
  rw [setExpire, if_pos hkey]
  refine ⟨h.setDb (fun _ => rfl) fun k hk => ?_, rest_setDb s d _, rfl⟩
  simp only [isSome_update] at hk
  split at hk
  · rename_i heq
    rw [heq]
    exact hkey
  · exact h.expires d k hk

theorem getExpire_spec (h : Indexed s) (d : ℕ) (key : Bytes) :
    getExpire s d key = .ok (((s.db d).expires key).getD (-1)) := by
  unfold getExpire
  split
  · rename_i hnone
    rw [hnone]
    rfl
  · rename_i when hwhen
    rw [if_pos (h.expires d key (by rw [hwhen]; rfl)), hwhen]
    rfl

/-- Whether `expireIfNeeded` deletes a key. -/
def expiredAt (s : RedisServer C V) (d : ℕ) (key : Bytes) (now : ℤ) : Bool :=
  match (s.db d).expires key with
  | none => false
  | some when => decide (0 ≤ when ∧ s.loading = false ∧ s.masterhost = false ∧ when < now)

/-- A database after `expireIfNeeded`. -/
def afterExpire (s : RedisServer C V) (d : ℕ) (key : Bytes) (now : ℤ) : RedisDb C V :=
  if expiredAt s d key now then without (s.db d) key else s.db d

theorem expireIfNeeded_spec (h : Indexed s) (hd : s.clusterEnabled = true → d = 0) (key : Bytes)
    (now : ℤ) : (expireIfNeeded s d key now).Ensures (fun _ => False) fun r => Indexed r.1 ∧
      Rest s r.1 ∧ r.1.db = (s.setDb d (afterExpire s d key now)).db := by
  have hsame : s.db = (s.setDb d (s.db d)).db := (Function.update_eq_self _ _).symm
  rw [expireIfNeeded, getExpire_spec h, ok_bind]
  unfold afterExpire expiredAt
  cases hwhen : (s.db d).expires key with
  | none => exact ⟨h, Rest.refl s, hsame⟩
  | some when =>
    simp only [Option.getD_some]
    split
    · rename_i hneg
      rw [if_neg (by simp; omega)]
      exact ⟨h, Rest.refl s, hsame⟩
    · split
      · rename_i hloading
        rw [if_neg (by simp [hloading])]
        exact ⟨h, Rest.refl s, hsame⟩
      · split
        · rename_i hmaster
          rw [if_neg (by simp [hmaster])]
          exact ⟨h, Rest.refl s, hsame⟩
        · split
          · rename_i hlater
            rw [if_neg (by simp; omega)]
            exact ⟨h, Rest.refl s, hsame⟩
          · rename_i hneg hloading hmaster hpast
            rw [if_pos (by
              rw [decide_eq_true_eq]
              exact ⟨by omega, by simpa using hloading, by simpa using hmaster, by omega⟩)]
            exact (dbDelete_spec h hd key).imp fun r hr => ⟨hr.1, hr.2.1, hr.2.2.1⟩

theorem lookupKeyWrite_spec (h : Indexed s) (hd : s.clusterEnabled = true → d = 0) (key : Bytes)
    (now : ℤ) : (lookupKeyWrite s d key now).Ensures (fun _ => False) fun r => Indexed r.1 ∧
      Rest s r.1 ∧ r.1.db = (s.setDb d (afterExpire s d key now)).db ∧
      r.2 = (r.1.db d).dict key :=
  (expireIfNeeded_spec h hd key now).bind fun _ hr => ⟨hr.1, hr.2.1, hr.2.2, rfl⟩

/-- What a lookup finds: nothing if the key has expired. -/
def found (s : RedisServer C V) (d : ℕ) (now : ℤ) (key : Bytes) : Option V :=
  (afterExpire s d key now).dict key

theorem found_eq (s : RedisServer C V) (d : ℕ) (now : ℤ) (key : Bytes) :
    found s d now key = if expiredAt s d key now then none else (s.db d).dict key := by
  rw [found, afterExpire]
  split
  · exact Function.update_self _ _ _
  · rfl

theorem found_lookup {s' : RedisServer C V} {now : ℤ} (hrest : Rest s s')
    (hdb : s'.db = (s.setDb d (afterExpire s d key now)).db) (k : Bytes) :
    found s' d now k = found s d now k := by
  have hdb' : s'.db d = afterExpire s d key now := by rw [hdb, setDb_self]
  rw [found_eq, found_eq]
  by_cases hexpired : expiredAt s d key now = true
  · have hwithout : s'.db d = without (s.db d) key := by rw [hdb', afterExpire, if_pos hexpired]
    by_cases hk : k = key
    · subst hk
      have hnone : (s'.db d).dict k = none := by
        rw [hwithout]
        exact Function.update_self _ _ _
      rw [hnone, if_pos hexpired, ite_self]
    · have hdict : (s'.db d).dict k = (s.db d).dict k := by
        rw [hwithout]
        exact Function.update_of_ne hk _ _
      have hexpires : (s'.db d).expires k = (s.db d).expires k := by
        rw [hwithout]
        exact Function.update_of_ne hk _ _
      rw [hdict, expiredAt, expiredAt, hexpires, hrest.loading, hrest.masterhost]
  · have hsame : s'.db d = s.db d := by rw [hdb', afterExpire, if_neg hexpired]
    rw [expiredAt, expiredAt, hsame, hrest.loading, hrest.masterhost]

theorem lookupKeyWrite_found (h : Indexed s) (hd : s.clusterEnabled = true → d = 0) (key : Bytes)
    (now : ℤ) : (lookupKeyWrite s d key now).Ensures (fun _ => False) fun r => Indexed r.1 ∧
      Rest s r.1 ∧ r.2 = found s d now key ∧ ∀ k, found r.1 d now k = found s d now k := by
  refine (lookupKeyWrite_spec h hd key now).imp fun r hr => ?_
  obtain ⟨hindexed, hrest, hdb, hval⟩ := hr
  refine ⟨hindexed, hrest, ?_, found_lookup hrest hdb⟩
  rw [hval, hdb, setDb_self]
  rfl

theorem without_of_none (h : Indexed s) (hkey : (s.db d).dict key = none) :
    without (s.db d) key = s.db d := by
  have hexpires : (s.db d).expires key = none := by
    have hnone : ¬ ((s.db d).dict key).isSome = true := by rw [hkey]; exact Bool.false_ne_true
    simpa using mt (h.expires d key) hnone
  have hdict : Function.update (s.db d).dict key none = (s.db d).dict := by
    rw [← hkey, Function.update_eq_self]
  have hexp : Function.update (s.db d).expires key none = (s.db d).expires := by
    rw [← hexpires, Function.update_eq_self]
  unfold without
  rw [hdict, hexp]

theorem lookupKeyWrite_cases (h : Indexed s) (hd : s.clusterEnabled = true → d = 0) (key : Bytes)
    (now : ℤ) : (lookupKeyWrite s d key now).Ensures (fun _ => False) fun r => Indexed r.1 ∧
      Rest s r.1 ∧ ((∃ o, r.2 = some o ∧ (s.db d).dict key = some o ∧ r.1.db = s.db) ∨
        (r.2 = none ∧ r.1.db = (s.setDb d (without (s.db d) key)).db)) := by
  refine (lookupKeyWrite_spec h hd key now).imp fun r hr => ?_
  obtain ⟨hindexed, hrest, hdb, hval⟩ := hr
  refine ⟨hindexed, hrest, ?_⟩
  rw [hdb, setDb_self] at hval
  rw [hdb, hval]
  unfold afterExpire
  split
  · exact .inr ⟨Function.update_self _ _ _, rfl⟩
  · have hsame : (s.setDb d (s.db d)).db = s.db := Function.update_eq_self _ _
    cases hkey : (s.db d).dict key with
    | none => exact .inr ⟨rfl, by rw [without_of_none h hkey]⟩
    | some o => exact .inl ⟨o, rfl, rfl, hsame⟩

theorem lookupKeyWrite_live (h : Indexed s) (hd : s.clusterEnabled = true → d = 0) (key : Bytes)
    (now : ℤ) : (lookupKeyWrite s d key now).Ensures (fun _ => False) fun r =>
      expiredAt r.1 d key now = false := by
  refine (lookupKeyWrite_spec h hd key now).imp fun r hr => ?_
  obtain ⟨-, hrest, hdb, -⟩ := hr
  by_cases hexpired : expiredAt s d key now = true
  · have hnone : (r.1.db d).expires key = none := by
      rw [hdb, setDb_self, afterExpire, if_pos hexpired]
      exact Function.update_self _ _ _
    rw [expiredAt, hnone]
  · have hsame : (r.1.db d).expires key = (s.db d).expires key := by
      rw [hdb, setDb_self, afterExpire, if_neg hexpired]
    rw [expiredAt, hsame, hrest.loading, hrest.masterhost]
    exact Bool.eq_false_of_not_eq_true hexpired

theorem found_store {s' : RedisServer C V} {now : ℤ} {val : V} (hrest : Rest s s')
    (hlive : expiredAt s d key now = false)
    (hdb : s'.db = (s.setDb d { s.db d with
      dict := Function.update (s.db d).dict key (some val) }).db) :
    expiredAt s' d key now = false ∧ found s' d now key = some val ∧
      ∀ k ≠ key, found s' d now k = found s d now k := by
  have hexpired : ∀ k, expiredAt s' d k now = expiredAt s d k now := fun k => by
    rw [expiredAt, expiredAt, hdb, setDb_self, hrest.loading, hrest.masterhost]
  refine ⟨(hexpired key).trans hlive, ?_, fun k hk => ?_⟩
  · rw [found_eq, hexpired, hlive, if_neg Bool.false_ne_true, hdb, setDb_self]
    exact Function.update_self _ _ _
  · rw [found_eq, found_eq, hexpired, hdb, setDb_self]
    congr 1
    exact Function.update_of_ne hk _ _

theorem setKey_spec [DecidableEq C] (h : Indexed s) (hd : s.clusterEnabled = true → d = 0)
    (key : Bytes) (val : V) (now : ℤ) :
    (setKey s d key val now).Ensures (fun _ => False) fun r =>
      r.db = (s.setDb d { s.db d with
        dict := Function.update (s.db d).dict key (some val)
        expires := Function.update (s.db d).expires key none }).db := by
  refine (lookupKeyWrite_spec h hd key now).bind fun r hr => ?_
  obtain ⟨hindexed, hrest, hdb, hval⟩ := hr
  have hstore : (if r.2.isNone = true then dbAdd r.1 d key val
      else dbOverwrite r.1 d key val).Ensures (fun _ => False) fun s' => Indexed s' ∧
        s'.db = (r.1.setDb d { r.1.db d with
          dict := Function.update (r.1.db d).dict key (some val) }).db := by
    split
    · rename_i hnone
      rw [hval, Option.isNone_iff_eq_none] at hnone
      exact (dbAdd_spec hindexed (hrest.clusterEnabled ▸ hd) hnone val).imp
        fun _ hs => ⟨hs.1, hs.2.2⟩
    · rename_i hsome
      rw [hval] at hsome
      have hkey : ((r.1.db d).dict key).isSome :=
        Option.isSome_iff_ne_none.mpr (by simpa using hsome)
      exact (dbOverwrite_spec hindexed hkey val).imp fun _ hs => ⟨hs.1, hs.2.2⟩
  refine hstore.bind fun s' hs' => ?_
  have hkey : ((s'.db d).dict key).isSome := by
    rw [hs'.2, setDb_self]
    simp
  refine (removeExpire_spec hs'.1 hkey).bind fun r' hr' => ?_
  show r'.1.db = _
  rw [hr'.2.2.1]
  unfold setDb at hdb hs' ⊢
  simp only [hs'.2, hdb, Function.update_self, Function.update_idem]
  unfold afterExpire without
  split
  · simp only [Function.update_idem]
  · rfl

/-! ### The keys of a slot -/

theorem Index.slot {L : List (Tower (ℕ × Bytes))} (h : Index s L) (slot : ℕ) :
    ∃ A R B, L = A ++ (R ++ B) ∧ (∀ y ∈ A, y.data.1 < slot) ∧ (∀ y ∈ R, y.data.1 = slot) ∧
      ∀ y ∈ B, slot < y.data.1 := by
  have hle : ∀ x y : Tower (ℕ × Bytes), Precedes x.data y.data → x.data.1 ≤ y.data.1 :=
    fun _ _ hxy => hxy.score_le
  have hsorted := h.holds.sorted
  clear h
  induction L with
  | nil => exact ⟨[], [], [], rfl, by simp, by simp, by simp⟩
  | cons x L ih =>
    obtain ⟨hx, hsorted⟩ := List.pairwise_cons.mp hsorted
    obtain ⟨A, R, B, rfl, hA, hR, hB⟩ := ih hsorted
    rcases lt_trichotomy x.data.1 slot with hlt | heq | hgt
    · exact ⟨x :: A, R, B, rfl, by simpa using ⟨hlt, hA⟩, hR, hB⟩
    · cases A with
      | nil => exact ⟨[], x :: R, B, rfl, by simp, by simpa using ⟨heq, hR⟩, hB⟩
      | cons y A =>
        have hxy := hle x y (hx y (by simp))
        have hy := hA y List.mem_cons_self
        omega
    · have hall : ∀ y ∈ A ++ (R ++ B), slot < y.data.1 :=
        fun y hy => hgt.trans_le (hle x y (hx y hy))
      refine ⟨[], [], x :: (A ++ (R ++ B)), rfl, by simp, by simp, fun y hy => ?_⟩
      rcases List.mem_cons.mp hy with rfl | hy
      · exact hgt
      · exact hall y hy

theorem inRange_slotRange (slot : ℕ) (q : ℕ × Bytes) :
    inRange (slotRange slot) q = decide (q.1 = slot) := by
  have hmin : zslValueGteMin q.1 (slotRange slot) = decide (slot ≤ q.1) := rfl
  have hmax : zslValueLteMax q.1 (slotRange slot) = decide (q.1 ≤ slot) := rfl
  rw [inRange, hmin, hmax, ← Bool.decide_and, decide_eq_decide]
  omega

theorem filter_slot {A R B : List (Tower (ℕ × Bytes))} {slot : ℕ} (hA : ∀ y ∈ A, y.data.1 < slot)
    (hR : ∀ y ∈ R, y.data.1 = slot) (hB : ∀ y ∈ B, slot < y.data.1) :
    (A ++ (R ++ B)).filter (fun y => inRange (slotRange slot) y.data) = R := by
  refine (filter_run (fun y hy => ?_) (fun y hy => ?_) fun y hy => ?_).1
  · have := hA y hy
    rw [inRange_slotRange]
    exact decide_eq_false (by omega)
  · rw [inRange_slotRange]
    exact decide_eq_true (hR y hy)
  · have := hB y hy
    rw [inRange_slotRange]
    exact decide_eq_false (by omega)

theorem collectKeys_spec {z : Zskiplist ℕ} {slot : ℕ} {A R B : List (Tower (ℕ × Bytes))}
    (h : Holds z (A ++ (R ++ B))) (hR : ∀ y ∈ R, y.data.1 = slot) (hB : ∀ y ∈ B, slot < y.data.1)
    (count : ℕ) : collectKeys z slot count ((R ++ B).head?.map Tower.ref)
      = some ((R.map fun y => y.data.2).take count) := by
  induction R generalizing A count with
  | nil =>
    cases count with
    | zero => rfl
    | succ count =>
      cases B with
      | nil => rfl
      | cons y B =>
        have hy := hB y List.mem_cons_self
        simp only [List.nil_append, List.head?_cons, Option.map_some, collectKeys,
          h.nodes.get, Option.bind_eq_bind, Option.bind_some]
        rw [if_neg (by omega)]
        rfl
  | cons x R ih =>
    cases count with
    | zero => rfl
    | succ count =>
      have h' : Holds z (A ++ x :: (R ++ B)) := h
      obtain ⟨l, hl, hforward⟩ := h'.forward
      simp only [List.cons_append, List.head?_cons, Option.map_some, collectKeys, h'.nodes.get,
        Option.bind_eq_bind, Option.bind_some]
      rw [if_pos (hR x List.mem_cons_self), hl, Option.bind_some, hforward,
        ih (A := A ++ [x]) (by simpa using h) (fun y hy => hR y (List.mem_cons_of_mem _ hy))]
      rfl

/-- `keys` are the keys of database 0 in a slot, each once. -/
structure KeysOf (s : RedisServer C V) (slot : ℕ) (keys : List Bytes) : Prop where
  nodup : keys.Nodup
  mem : ∀ k, k ∈ keys ↔ ((s.db 0).dict k).isSome ∧ keyHashSlot k = slot

theorem Index.keysOf {slot : ℕ} {A R B : List (Tower (ℕ × Bytes))}
    (h : Index s (A ++ (R ++ B))) (hA : ∀ y ∈ A, y.data.1 < slot) (hR : ∀ y ∈ R, y.data.1 = slot)
    (hB : ∀ y ∈ B, slot < y.data.1) : KeysOf s slot (R.map fun y => y.data.2) := by
  constructor
  · have hnodup := h.nodup
    rw [List.map_append, List.map_append] at hnodup
    have hdata := (List.nodup_append.mp (List.nodup_append.mp hnodup).2.1).1
    have hmap : R.map (fun y => y.data.2) = (R.map Tower.data).map Prod.snd := by
      rw [List.map_map]
      rfl
    rw [hmap]
    refine hdata.map_on fun p hp q hq heq => ?_
    obtain ⟨y, hy, rfl⟩ := List.mem_map.mp hp
    obtain ⟨w, hw, rfl⟩ := List.mem_map.mp hq
    exact Prod.ext ((hR y hy).trans (hR w hw).symm) heq
  · intro k
    rw [List.mem_map]
    constructor
    · rintro ⟨y, hy, rfl⟩
      have hmem := (h.mem y.data).mp (List.mem_map_of_mem (by simp [hy]))
      exact ⟨hmem.1, hmem.2 ▸ hR y hy⟩
    · rintro ⟨hk, hslot⟩
      obtain ⟨y, hy, hdata⟩ := List.mem_map.mp ((h.mem (slot, k)).mpr ⟨hk, hslot.symm⟩)
      refine ⟨y, ?_, by rw [hdata]⟩
      have hscore : y.data.1 = slot := by rw [hdata]
      rcases List.mem_append.mp hy with hy | hy
      · exact absurd hscore (hA y hy).ne
      · rcases List.mem_append.mp hy with hy | hy
        · exact hy
        · exact absurd hscore (hB y hy).ne'

theorem getKeysInSlot_spec {slot : ℕ} {A R B : List (Tower (ℕ × Bytes))}
    (h : Index s (A ++ (R ++ B))) (hA : ∀ y ∈ A, y.data.1 < slot) (hR : ∀ y ∈ R, y.data.1 = slot)
    (hB : ∀ y ∈ B, slot < y.data.1) (count : ℕ) :
    getKeysInSlot s slot count = .ok ((R.map fun y => y.data.2).take count) := by
  rw [getKeysInSlot, zslFirstInRange_spec (slotRange slot) h.holds, filter_slot hA hR hB]
  have hcollect := collectKeys_spec h.holds.holds hR hB count
  cases R with
  | nil =>
    cases count <;> rfl
  | cons x R =>
    simp only [List.cons_append, List.head?_cons] at hcollect
    simp only [List.head?_cons, ofZsl, ok_bind, hcollect]

theorem countKeysInSlot_spec {slot : ℕ} {A R B : List (Tower (ℕ × Bytes))}
    (h : Index s (A ++ (R ++ B))) (hA : ∀ y ∈ A, y.data.1 < slot) (hR : ∀ y ∈ R, y.data.1 = slot)
    (hB : ∀ y ∈ B, slot < y.data.1) :
    countKeysInSlot s slot = .ok (BitVec.ofNat 32 R.length) := by
  have hrank : ∀ a x t, A ++ (R ++ B) = a ++ x :: t →
      zslGetRank s.slotsToKeys x.data.1 x.data.2 = some (rank32 (a.length + 1)) := by
    intro a x t hsplit
    have h' : Index s (a ++ x :: t) := hsplit ▸ h
    refine zslGetRank_spec h'.holds fun y hy heq => ?_
    have hy' := ((h'.mem y.data).mp (List.mem_map_of_mem hy)).2
    have hx' := ((h'.mem x.data).mp (List.mem_map_of_mem (by simp))).2
    exact List.inj_on_of_nodup_map h'.nodup hy (by simp)
      (Prod.ext (by rw [hy', hx', heq]) heq)
  rw [countKeysInSlot, zslFirstInRange_spec (slotRange slot) h.holds, filter_slot hA hR hB]
  cases R with
  | nil => rfl
  | cons x R =>
    obtain ⟨R', y, hlast⟩ := (List.eq_nil_or_concat (x :: R)).resolve_left (by simp)
    rw [List.concat_eq_append] at hlast
    have hy : A ++ (x :: R ++ B) = (A ++ R') ++ y :: B := by rw [hlast]; simp
    have hx : A ++ (x :: R ++ B) = A ++ x :: (R ++ B) := rfl
    have hnodex := (hx ▸ h.holds.holds).nodes.get
    have hnodey := (hy ▸ h.holds.holds).nodes.get
    have hgetLast : (x :: R).getLast? = some y := by rw [hlast, List.getLast?_concat]
    have hlen : (x :: R).length = R'.length + 1 := by rw [hlast]; simp
    simp only [ofZsl, List.head?_cons, Option.map_some, ok_bind, hnodex, hrank A x _ hx,
      zslLastInRange_spec (slotRange slot) h.holds, filter_slot hA hR hB, hgetLast, hnodey,
      hrank (A ++ R') y B hy]
    rw [hlen]
    simp only [rank32, List.length_append]
    congr 1
    have hcast : ∀ n : ℕ, BitVec.ofNat 32 n = ((n : ℕ) : BitVec 32) := fun _ => rfl
    rw [hcast (R'.length + 1)]
    push_cast
    ring

/-- A database without the keys of a slot. -/
def withoutSlot (db : RedisDb C V) (slot : ℕ) : RedisDb C V :=
  { db with
    dict := fun k => if keyHashSlot k = slot then none else db.dict k
    expires := fun k => if keyHashSlot k = slot then none else db.expires k }

theorem Index.key_inj {L : List (Tower (ℕ × Bytes))} (h : Index s L) {x y : Tower (ℕ × Bytes)}
    (hx : x ∈ L) (hy : y ∈ L) (hkey : x.data.2 = y.data.2) : x = y := by
  have hx' := ((h.mem x.data).mp (List.mem_map_of_mem hx)).2
  have hy' := ((h.mem y.data).mp (List.mem_map_of_mem hy)).2
  exact List.inj_on_of_nodup_map h.nodup hx hy (Prod.ext (by rw [hx', hy', hkey]) hkey)

theorem Index.others {a t : List (Tower (ℕ × Bytes))} {x : Tower (ℕ × Bytes)}
    (h : Index s (a ++ x :: t)) : others (a ++ x :: t) x.data.2 = a ++ t := by
  have hnodup := h.nodup
  rw [List.map_append, List.map_cons, List.nodup_middle, List.nodup_cons, ← List.map_append]
    at hnodup
  have hne : ∀ y ∈ a ++ t, decide (y.data.2 ≠ x.data.2) = true := by
    intro y hy
    rw [decide_eq_true_eq]
    intro heq
    have hmem : y ∈ a ++ x :: t := by
      rcases List.mem_append.mp hy with hy | hy <;> simp [hy]
    obtain rfl := h.key_inj hmem (by simp) heq
    exact hnodup.1 (List.mem_map_of_mem hy)
  rw [RedisServer.others, List.filter_append, List.filter_cons, if_neg (by simp),
    ← List.filter_append]
  exact List.filter_eq_self.mpr hne

theorem delKeys_spec {slot fuel : ℕ} {A R B : List (Tower (ℕ × Bytes))} (h : Indexed s)
    (hindex : Index s (A ++ (R ++ B))) (hcluster : s.clusterEnabled = true)
    (hR : ∀ y ∈ R, y.data.1 = slot) (hB : ∀ y ∈ B, slot < y.data.1) (hfuel : R.length < fuel)
    (j : BitVec 32) :
    (delKeys slot fuel s ((R ++ B).head?.map Tower.ref) j).Ensures (fun _ => False) fun r =>
      Indexed r.1 ∧ Rest s r.1 ∧ r.2 = j + BitVec.ofNat 32 R.length ∧
      r.1.db = (s.setDb 0 ((R.map fun y => y.data.2).foldl without (s.db 0))).db := by
  induction R generalizing s j fuel with
  | nil =>
    obtain ⟨fuel, rfl⟩ := Nat.exists_eq_succ_of_ne_zero (by omega : fuel ≠ 0)
    have hj : j = j + BitVec.ofNat 32 0 := by simp
    have hdb : s.db = (s.setDb 0 (s.db 0)).db := (Function.update_eq_self _ _).symm
    cases B with
    | nil => exact ⟨h, Rest.refl s, hj, hdb⟩
    | cons y B =>
      have hy := hB y List.mem_cons_self
      simp only [List.nil_append, List.head?_cons, Option.map_some, delKeys,
        hindex.holds.holds.nodes.get, ofZsl, ok_bind]
      rw [if_neg (by omega)]
      exact ⟨h, Rest.refl s, hj, hdb⟩
  | cons x R ih =>
    obtain ⟨fuel, rfl⟩ := Nat.exists_eq_succ_of_ne_zero (by omega : fuel ≠ 0)
    have hsplit : Index s (A ++ x :: (R ++ B)) := hindex
    have hkey := ((hsplit.mem x.data).mp (List.mem_map_of_mem (by simp))).1
    obtain ⟨l, hl, hforward⟩ := hsplit.holds.holds.forward
    simp only [List.cons_append, List.head?_cons, Option.map_some, delKeys,
      hsplit.holds.holds.nodes.get, ofZsl, ok_bind]
    rw [if_pos (hR x List.mem_cons_self), hl]
    simp only [ok_bind, hforward]
    have hdelete := (dbDelete_spec h (fun _ => rfl) x.data.2).and
      (dbDelete_index hsplit hcluster hkey)
    refine hdelete.bind fun r hr => ?_
    obtain ⟨⟨hindexed, hrest, hdb, -⟩, hindex'⟩ := hr
    rw [hsplit.others] at hindex'
    -- the pointer read before the deletion is that of the next node
    refine (ih hindexed hindex' (hrest.clusterEnabled.trans hcluster)
      (fun y hy => hR y (List.mem_cons_of_mem _ hy)) (by simp at hfuel; omega) _).imp ?_
    rintro r' ⟨hindexed', hrest', hj, hdb'⟩
    refine ⟨hindexed', hrest.trans hrest', ?_, ?_⟩
    · rw [hj, List.length_cons, Nat.add_comm R.length, BitVec.ofNat_add, ← BitVec.add_assoc]
      rfl
    · rw [hdb']
      unfold setDb at hdb ⊢
      rw [hdb]
      simp only [Function.update_self, Function.update_idem, List.map_cons, List.foldl_cons]

theorem foldl_without (db : RedisDb C V) (keys : List Bytes) :
    keys.foldl without db = { db with
      dict := fun k => if k ∈ keys then none else db.dict k
      expires := fun k => if k ∈ keys then none else db.expires k } := by
  induction keys generalizing db with
  | nil => simp
  | cons key keys ih =>
    rw [List.foldl_cons, ih]
    have hupdate : ∀ {β : Type} (f : Bytes → Option β),
        (fun k => if k ∈ keys then none else Function.update f key none k)
          = fun k => if k ∈ key :: keys then none else f k := by
      intro β f
      funext k
      rw [Function.update_apply]
      by_cases hk : k = key <;> simp [hk]
    simp only [without, hupdate]

theorem delKeysInSlot_spec {slot : ℕ} {A R B : List (Tower (ℕ × Bytes))} (h : Indexed s)
    (hindex : Index s (A ++ (R ++ B))) (hcluster : s.clusterEnabled = true)
    (hA : ∀ y ∈ A, y.data.1 < slot) (hR : ∀ y ∈ R, y.data.1 = slot)
    (hB : ∀ y ∈ B, slot < y.data.1) :
    (delKeysInSlot s slot).Ensures (fun _ => False) fun r => Indexed r.1 ∧ Rest s r.1 ∧
      r.2 = BitVec.ofNat 32 R.length ∧ r.1.db = (s.setDb 0 (withoutSlot (s.db 0) slot)).db := by
  have hlen : R.length < s.slotsToKeys.length + 1 := by
    rw [hindex.holds.holds.length]
    simp only [List.length_append]
    omega
  have hkeys := hindex.keysOf hA hR hB
  have hwithout : (R.map fun y => y.data.2).foldl without (s.db 0) = withoutSlot (s.db 0) slot := by
    rw [foldl_without, withoutSlot]
    congr 1 <;> funext k
    · by_cases hk : keyHashSlot k = slot
      · rw [if_pos hk]
        split
        · rfl
        · rename_i hmem
          rw [hkeys.mem] at hmem
          simpa [hk] using hmem
      · rw [if_neg hk, if_neg fun hmem => hk ((hkeys.mem k).mp hmem).2]
    · by_cases hk : keyHashSlot k = slot
      · rw [if_pos hk]
        split
        · rfl
        · rename_i hmem
          rw [hkeys.mem] at hmem
          have hdict : ¬ ((s.db 0).dict k).isSome = true := fun hsome => hmem ⟨hsome, hk⟩
          simpa using mt (h.expires 0 k) hdict
      · rw [if_neg hk, if_neg fun hmem => hk ((hkeys.mem k).mp hmem).2]
  rw [delKeysInSlot, zslFirstInRange_spec (slotRange slot) hindex.holds, filter_slot hA hR hB]
  have hloop := delKeys_spec h hindex hcluster hR hB hlen 0
  rw [hwithout, show ∀ n : BitVec 32, 0 + n = n from BitVec.zero_add] at hloop
  cases R with
  | nil => exact ⟨h, Rest.refl s, rfl, hwithout ▸ (Function.update_eq_self _ _).symm⟩
  | cons x R => exact hloop

end

end RedisServer

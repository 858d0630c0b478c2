/-
Operations on the keys of a dictionary to which a safe iterator is bound.

No bucket moves as long as there is a safe iterator, so every operation changes at most one
bucket.

* `Ok` — entries are in the buckets of their hashes, and keys are unique;
* `Replaced` — one bucket changed;
* `dictExpand_spec`, `dictAddRaw_spec`, `dictGenericDelete_spec`, `dictFind_spec` — the
  operations.
-/
import RedisModel.Dict

namespace Dict

variable {K V : Type}

/-- The bucket of one of the two tables. -/
def bucketAt (d : Dict K V) (table : Bool) (i : ℕ) : List (DictEntry K V) := bucket (d.ht table) i

/-- Entries are in the buckets of their hashes, keys are unique, and entries were allocated at
different times. -/
structure Ok (hash : K → BitVec 32) (d : Dict K V) : Prop extends Shaped d where
  placed : ∀ table i, ∀ e ∈ bucketAt d table i, index hash (d.ht table) e.key = i
  keys : (d.entries.map DictEntry.key).Nodup
  ids : (d.entries.map DictEntry.id).Nodup
  fresh : ∀ e ∈ d.entries, e.id < d.allocated

theorem Shaped.ht {d : Dict K V} (h : d.Shaped) (table : Bool) : (d.ht table).Shaped := by
  cases table with
  | false => exact h.ht0
  | true => exact h.ht1

/-! ### Buckets -/

theorem mem_bucket_iff {h : Dictht K V} {i : ℕ} {e : DictEntry K V} :
    e ∈ bucket h i ↔ ∃ chain, h.table[i]? = some chain ∧ e ∈ chain := by
  rw [bucket]
  cases h.table[i]? with
  | none => simp
  | some chain => simp

theorem mem_table_entries {h : Dictht K V} {e : DictEntry K V} :
    e ∈ h.entries ↔ ∃ i, e ∈ bucket h i := by
  rw [Dictht.entries, List.mem_flatten]
  constructor
  · rintro ⟨chain, hchain, he⟩
    obtain ⟨i, hi⟩ := List.getElem?_of_mem hchain
    exact ⟨i, mem_bucket_iff.mpr ⟨chain, hi, he⟩⟩
  · rintro ⟨i, he⟩
    obtain ⟨chain, hi, he⟩ := mem_bucket_iff.mp he
    exact ⟨chain, List.mem_of_getElem? hi, he⟩

theorem mem_entries_iff {d : Dict K V} {e : DictEntry K V} :
    e ∈ d.entries ↔ ∃ table i, e ∈ bucketAt d table i := by
  rw [entries, List.mem_append, mem_table_entries, mem_table_entries]
  constructor
  · rintro (⟨i, he⟩ | ⟨i, he⟩)
    · exact ⟨false, i, he⟩
    · exact ⟨true, i, he⟩
  · rintro ⟨table, i, he⟩
    cases table with
    | false => exact .inl ⟨i, he⟩
    | true => exact .inr ⟨i, he⟩

theorem bucket_of_le {h : Dictht K V} (hs : h.Shaped) {i : ℕ} (hi : h.size ≤ i) :
    bucket h i = [] := by
  rw [bucket, List.getElem?_eq_none (by rw [hs.length]; exact hi)]
  rfl

/-! ### One bucket is replaced -/

/-- The table `h` with another chain at an index. -/
def replaceChain (h : Dictht K V) (i : ℕ) (chain : List (DictEntry K V)) (used : ℕ) :
    Dictht K V := { h with table := h.table.set i chain, used }

theorem bucket_replaceChain {h : Dictht K V} (hs : h.Shaped) {i : ℕ} (hi : i < h.size)
    (chain : List (DictEntry K V)) (used j : ℕ) :
    bucket (replaceChain h i chain used) j = if j = i then chain else bucket h j := by
  rw [bucket, replaceChain]
  dsimp only
  rw [← hs.length] at hi
  split
  · rename_i hji
    rw [hji, List.getElem?_set_self hi]
    rfl
  · rename_i hji
    rw [List.getElem?_set_ne fun heq => hji heq.symm, bucket]

theorem entries_replaceChain {h : Dictht K V} (hs : h.Shaped) {i : ℕ} (hi : i < h.size)
    (chain : List (DictEntry K V)) (used : ℕ) :
    ((replaceChain h i chain used).entries ++ bucket h i).Perm (h.entries ++ chain) := by
  have hi' : i < h.table.length := by rwa [hs.length]
  have hget : h.table[i] = bucket h i := by
    rw [bucket, List.getElem?_eq_getElem hi']
    rfl
  have hnew : (replaceChain h i chain used).entries
      = (h.table.take i).flatten ++ (chain ++ (h.table.drop (i + 1)).flatten) := by
    rw [Dictht.entries, replaceChain]
    dsimp only
    rw [List.set_eq_take_append_cons_drop, if_pos hi', List.flatten_append, List.flatten_cons]
  have hold : h.entries
      = (h.table.take i).flatten ++ (bucket h i ++ (h.table.drop (i + 1)).flatten) := by
    rw [← hget, ← List.flatten_cons, ← List.flatten_append, ← List.drop_eq_getElem_cons hi',
      List.take_append_drop, Dictht.entries]
  have hswap : ∀ b c r : List (DictEntry K V), (c ++ (r ++ b)).Perm (b ++ (r ++ c)) :=
    fun b c r => by
      rw [← List.append_assoc b]
      exact List.perm_append_comm.trans (List.perm_append_comm.append_right c)
  rw [hnew, hold, List.append_assoc, List.append_assoc, List.append_assoc, List.append_assoc]
  exact (hswap _ _ _).append_left _

/-! ### The size of the tables -/

theorem nextPowerLoop_spec (size fuel i : ℕ) :
    ∃ j, nextPowerLoop size fuel i = i * 2 ^ j := by
  induction fuel generalizing i with
  | zero => exact ⟨0, (Nat.mul_one i).symm⟩
  | succ fuel ih =>
    rw [nextPowerLoop]
    split
    · exact ⟨0, (Nat.mul_one i).symm⟩
    · obtain ⟨j, hj⟩ := ih (i * 2)
      exact ⟨j + 1, by rw [hj, Nat.mul_assoc, Nat.pow_succ']⟩

theorem dictNextPower_spec {size : ℕ} (hsmall : dictNextPower size < 2 ^ 31) :
    ∃ k, k < 31 ∧ dictNextPower size = 2 ^ k := by
  rw [dictNextPower] at hsmall ⊢
  split at hsmall
  · exact absurd hsmall (by decide)
  · rename_i hlt
    rw [if_neg hlt]
    obtain ⟨j, hj⟩ := nextPowerLoop_spec size 62 initialSize
    have hpow : nextPowerLoop size 62 initialSize = 2 ^ (j + 2) := by
      rw [hj, initialSize, Nat.pow_add, Nat.mul_comm]
    rw [hpow] at hsmall ⊢
    exact ⟨j + 2, (Nat.pow_lt_pow_iff_right Nat.one_lt_two).mp hsmall, rfl⟩

theorem emptyTable_entries (n : ℕ) : (emptyTable n : Dictht K V).entries = [] := by
  rw [Dictht.entries, emptyTable]
  exact List.flatten_replicate_nil

theorem emptyTable_shaped {k : ℕ} (hk : k < 31) : (emptyTable (2 ^ k) : Dictht K V).Shaped := by
  have hlt : 2 ^ k < 2 ^ 31 := Nat.pow_lt_pow_right Nat.one_lt_two hk
  refine ⟨?_, rfl, ?_, .inr ⟨k, by omega, rfl⟩⟩
  · rw [emptyTable, List.length_replicate]
    dsimp only
    omega
  · rw [emptyTable_entries]
    rfl

/-- The buckets are as they were; the new table has none with entries. -/
structure SameBuckets (d d' : Dict K V) : Prop where
  buckets : ∀ table i, bucketAt d' table i = bucketAt d table i
  entries : d'.entries = d.entries
  iterators : d'.iterators = d.iterators
  allocated : d'.allocated = d.allocated

theorem SameBuckets.refl (d : Dict K V) : SameBuckets d d := ⟨fun _ _ => rfl, rfl, rfl, rfl⟩

theorem bucket_of_entries {h : Dictht K V} (hempty : h.entries = []) (i : ℕ) : bucket h i = [] := by
  rw [List.eq_nil_iff_forall_not_mem]
  intro e he
  have hmem := mem_table_entries.mpr ⟨i, he⟩
  rw [hempty] at hmem
  exact List.not_mem_nil hmem

theorem dictExpand_spec {hash : K → BitVec 32} {d : Dict K V} (h : d.Ok hash) {size : ℕ}
    (hsmall : dictNextPower size < 2 ^ 31) :
    (dictExpand d size).1.Ok hash ∧ SameBuckets d (dictExpand d size).1 := by
  obtain ⟨k, hk, hpow⟩ := dictNextPower_spec hsmall
  have hshaped : (emptyTable (dictNextPower size) : Dictht K V).Shaped :=
    hpow ▸ emptyTable_shaped hk
  have hpos : (emptyTable (dictNextPower size) : Dictht K V).size ≠ 0 := by
    rw [emptyTable, hpow]
    exact (Nat.two_pow_pos k).ne'
  have hnone : (emptyTable (dictNextPower size) : Dictht K V).entries = [] := emptyTable_entries _
  -- A table without entries takes the place of another one without entries.
  have hok : ∀ d' : Dict K V, d'.Shaped → d'.entries = d.entries → d'.allocated = d.allocated →
      (∀ table, d'.ht table = d.ht table ∨
        (d'.ht table).entries = [] ∧ (d.ht table).entries = []) →
      d'.iterators = d.iterators → d'.Ok hash ∧ SameBuckets d d' := by
    intro d' hd' hentries halloc htables hiter
    have hbuckets : ∀ table i, bucketAt d' table i = bucketAt d table i := fun table i => by
      rcases htables table with heq | ⟨hnew, hold⟩
      · rw [bucketAt, heq, bucketAt]
      · rw [bucketAt, bucketAt, bucket_of_entries hnew, bucket_of_entries hold]
    refine ⟨{ hd' with
      placed := fun table i e he => ?_
      keys := hentries ▸ h.keys
      ids := hentries ▸ h.ids
      fresh := fun e he => halloc ▸ h.fresh e (hentries ▸ he) },
      ⟨hbuckets, hentries, hiter, halloc⟩⟩
    rw [hbuckets] at he
    rcases htables table with heq | ⟨-, hold⟩
    · rw [heq]
      exact h.placed table i e he
    · rw [bucketAt, bucket_of_entries hold] at he
      exact absurd he List.not_mem_nil
  rw [dictExpand]
  split
  · exact ⟨h, SameBuckets.refl d⟩
  · rename_i hnot
    have hsettled : d.dictIsRehashing = false := by
      cases hr : d.dictIsRehashing with
      | false => rfl
      | true => exact absurd (.inl hr) hnot
    split
    · rename_i hempty
      have hold : d.ht0.entries = [] := by
        rw [Dictht.entries, List.isEmpty_iff.mp hempty, List.flatten_nil]
      refine hok _ ?_ ?_ rfl (fun table => ?_) rfl
      · exact ⟨hshaped, h.ht1, fun hr => absurd (hsettled.symm.trans hr) Bool.false_ne_true,
          fun _ => h.settled hsettled⟩
      · rw [entries, entries, hold, hnone]
      · cases table with
        | false => exact .inr ⟨hnone, hold⟩
        | true => exact .inl rfl
    · rename_i hnonempty
      have hold : d.ht1.entries = [] := h.settled hsettled
      have hpos0 : 0 < d.ht0.size := by
        rw [← h.ht0.length, List.length_pos_iff]
        exact fun heq => hnonempty (List.isEmpty_iff.mpr heq)
      refine hok _ ?_ ?_ rfl (fun table => ?_) rfl
      · exact ⟨h.ht0, hshaped, fun _ => ⟨hpos0, Nat.pos_of_ne_zero hpos⟩,
          fun hr => absurd (hr.symm.trans rfl) Bool.false_ne_true⟩
      · rw [entries, entries, hold, hnone]
      · cases table with
        | false => exact .inl rfl
        | true => exact .inr ⟨hnone, hold⟩

/-! ### Replacing a bucket -/

/-- One bucket changed. -/
structure Replaced (d : Dict K V) (table : Bool) (i : ℕ) (chain : List (DictEntry K V))
    (d' : Dict K V) : Prop where
  bucket : bucketAt d' table i = chain
  others : ∀ table' j, ¬ (table' = table ∧ j = i) → bucketAt d' table' j = bucketAt d table' j
  iterators : d'.iterators = d.iterators
  sizes : ∀ table', (d'.ht table').size = (d.ht table').size
  masks : ∀ table', (d'.ht table').sizemask = (d.ht table').sizemask

/-- The dictionary with another chain in one bucket. -/
def replace (d : Dict K V) (table : Bool) (i : ℕ) (chain : List (DictEntry K V))
    (used allocated : ℕ) : Dict K V :=
  { d.setHt table (replaceChain (d.ht table) i chain used) with allocated }

theorem setHt_eq_replace (d : Dict K V) (table : Bool) (i : ℕ) (chain : List (DictEntry K V))
    (used : ℕ) : d.setHt table (replaceChain (d.ht table) i chain used)
      = d.replace table i chain used d.allocated := by
  cases table <;> rfl

theorem replace_spec {d : Dict K V} (hd : d.Shaped) {table : Bool} {i : ℕ}
    (hi : i < (d.ht table).size) (chain : List (DictEntry K V)) (used allocated : ℕ) :
    Replaced d table i chain (d.replace table i chain used allocated) := by
  have hself := bucket_replaceChain (hd.ht table) hi chain used
  cases table with
  | false =>
    refine ⟨?_, fun table' j hne => ?_, rfl, fun table' => ?_, fun table' => ?_⟩
    · exact (hself i).trans (if_pos rfl)
    · cases table' with
      | false => exact (hself j).trans (if_neg fun hji => hne ⟨rfl, hji⟩)
      | true => rfl
    · cases table' <;> rfl
    · cases table' <;> rfl
  | true =>
    refine ⟨?_, fun table' j hne => ?_, rfl, fun table' => ?_, fun table' => ?_⟩
    · exact (hself i).trans (if_pos rfl)
    · cases table' with
      | false => rfl
      | true => exact (hself j).trans (if_neg fun hji => hne ⟨rfl, hji⟩)
    · cases table' <;> rfl
    · cases table' <;> rfl

theorem entries_replace {d : Dict K V} (hd : d.Shaped) {table : Bool} {i : ℕ}
    (hi : i < (d.ht table).size) (chain : List (DictEntry K V)) (used allocated : ℕ) :
    ((d.replace table i chain used allocated).entries ++ bucketAt d table i).Perm
      (d.entries ++ chain) := by
  have hperm := entries_replaceChain (hd.ht table) hi chain used
  cases table with
  | false =>
    show ((replaceChain d.ht0 i chain used).entries ++ d.ht1.entries ++ bucket d.ht0 i).Perm
      (d.ht0.entries ++ d.ht1.entries ++ chain)
    rw [List.append_assoc, List.append_assoc]
    refine ((List.perm_append_comm.append_left _).trans ?_)
    rw [← List.append_assoc]
    refine ((hperm.append_right _).trans ?_)
    rw [List.append_assoc]
    exact List.perm_append_comm.append_left _
  | true =>
    show (d.ht0.entries ++ (replaceChain d.ht1 i chain used).entries ++ bucket d.ht1 i).Perm
      (d.ht0.entries ++ d.ht1.entries ++ chain)
    rw [List.append_assoc, List.append_assoc]
    exact hperm.append_left _

theorem shaped_replace {d : Dict K V} (hd : d.Shaped) {table : Bool} {i : ℕ}
    (hi : i < (d.ht table).size) {chain : List (DictEntry K V)} {used : ℕ} (allocated : ℕ)
    (hused : used + (bucketAt d table i).length = (d.ht table).used + chain.length)
    (hlive : table = true → d.dictIsRehashing = true) :
    (d.replace table i chain used allocated).Shaped := by
  have htable : (replaceChain (d.ht table) i chain used).Shaped := by
    have hs := hd.ht table
    refine ⟨?_, hs.mask, ?_, hs.power⟩
    · rw [replaceChain, List.length_set, hs.length]
    · have hlength := (entries_replaceChain hs hi chain used).length_eq
      rw [List.length_append, List.length_append, ← hs.used] at hlength
      rw [bucketAt] at hused
      show used = _
      omega
  cases table with
  | false => exact ⟨htable, hd.ht1, hd.rehashing, hd.settled⟩
  | true =>
    refine ⟨hd.ht0, htable, hd.rehashing, fun hr => ?_⟩
    exact absurd ((hlive rfl).symm.trans hr) Bool.false_ne_true.symm

theorem Replaced.ok {hash : K → BitVec 32} {d d' : Dict K V} {table : Bool} {i : ℕ}
    {chain : List (DictEntry K V)} (h : d.Ok hash) (hrep : Replaced d table i chain d')
    (hshaped : d'.Shaped) (hplaced : ∀ e ∈ chain, index hash (d.ht table) e.key = i)
    (hkeys : (d'.entries.map DictEntry.key).Nodup) (hids : (d'.entries.map DictEntry.id).Nodup)
    (hfresh : ∀ e ∈ d'.entries, e.id < d'.allocated) : d'.Ok hash := by
  refine { hshaped with placed := fun table' j e he => ?_, keys := hkeys, ids := hids,
                        fresh := hfresh }
  rw [index, hrep.masks]
  by_cases hat : table' = table ∧ j = i
  · obtain ⟨rfl, rfl⟩ := hat
    rw [hrep.bucket] at he
    exact hplaced e he
  · rw [hrep.others table' j hat] at he
    exact h.placed table' j e he

/-- A new entry is the head of its bucket. -/
structure Added (d : Dict K V) (x : DictEntry K V) (d' : Dict K V) : Prop where
  bucket : ∃ table i, Replaced d table i (x :: bucketAt d table i) d'
  id : x.id = d.allocated
  allocated : d'.allocated = d.allocated + 1
  newKey : ∀ e ∈ d.entries, e.key ≠ x.key
  entries : d'.entries.Perm (x :: d.entries)

/-- An entry is taken out of its bucket. -/
structure Deleted (d : Dict K V) (x : DictEntry K V) (d' : Dict K V) : Prop where
  bucket : ∃ table i l₁ l₂, bucketAt d table i = l₁ ++ x :: l₂ ∧ Replaced d table i (l₁ ++ l₂) d'
  allocated : d'.allocated = d.allocated
  entries : d.entries.Perm (x :: d'.entries)

theorem added_replace {hash : K → BitVec 32} {d : Dict K V} (h : d.Ok hash) {table : Bool}
    {key : K} (hi : index hash (d.ht table) key < (d.ht table).size)
    (hlive : table = true → d.dictIsRehashing = true) (hnew : ∀ e ∈ d.entries, e.key ≠ key)
    (val : V) :
    let x : DictEntry K V := ⟨d.allocated, key, val⟩
    let i := index hash (d.ht table) key
    let d' := d.replace table i (x :: bucketAt d table i) ((d.ht table).used + 1) (d.allocated + 1)
    d'.Ok hash ∧ Added d x d' := by
  intro x i d'
  have hrep : Replaced d table i (x :: bucketAt d table i) d' := replace_spec h.toShaped hi _ _ _
  have hshaped : d'.Shaped := shaped_replace h.toShaped hi _
    (by rw [List.length_cons, Nat.add_assoc, Nat.add_comm 1]) hlive
  have hperm : d'.entries.Perm (x :: d.entries) := by
    have hall := entries_replace h.toShaped hi (x :: bucketAt d table i) ((d.ht table).used + 1)
      (d.allocated + 1)
    exact (List.perm_append_right_iff _).mp (hall.trans List.perm_middle)
  refine ⟨Replaced.ok h hrep hshaped (fun e he => ?_) ?_ ?_ fun e he => ?_,
    ⟨table, i, hrep⟩, rfl, rfl, hnew, hperm⟩
  · rcases List.mem_cons.mp he with rfl | he
    · rfl
    · exact h.placed table i e he
  · rw [(hperm.map DictEntry.key).nodup_iff, List.map_cons, List.nodup_cons]
    refine ⟨fun hmem => ?_, h.keys⟩
    obtain ⟨e, he, hkey⟩ := List.mem_map.mp hmem
    exact hnew e he hkey
  · rw [(hperm.map DictEntry.id).nodup_iff, List.map_cons, List.nodup_cons]
    refine ⟨fun hmem => ?_, h.ids⟩
    obtain ⟨e, he, hid⟩ := List.mem_map.mp hmem
    exact absurd (h.fresh e he) (by rw [hid]; exact Nat.lt_irrefl _)
  · rcases List.mem_cons.mp (hperm.mem_iff.mp he) with rfl | he
    · exact Nat.lt_succ_self _
    · exact (h.fresh e he).trans (Nat.lt_succ_self _)

theorem deleted_replace {hash : K → BitVec 32} {d : Dict K V} (h : d.Ok hash) {table : Bool}
    {i : ℕ} (hi : i < (d.ht table).size) (hlive : table = true → d.dictIsRehashing = true)
    {x : DictEntry K V} {l₁ l₂ : List (DictEntry K V)}
    (hsplit : bucketAt d table i = l₁ ++ x :: l₂) :
    let d' := d.replace table i (l₁ ++ l₂) ((d.ht table).used - 1) d.allocated
    d'.Ok hash ∧ Deleted d x d' := by
  intro d'
  have hrep : Replaced d table i (l₁ ++ l₂) d' := replace_spec h.toShaped hi _ _ _
  have hchain : (bucketAt d table i).Perm (x :: (l₁ ++ l₂)) := hsplit ▸ List.perm_middle
  have hlength := hchain.length_eq
  rw [List.length_cons] at hlength
  have hsub : ∀ e ∈ l₁ ++ l₂, e ∈ bucketAt d table i := fun e he =>
    hchain.mem_iff.mpr (List.mem_cons_of_mem x he)
  have hused : 0 < (d.ht table).used := by
    rw [(h.toShaped.ht table).used]
    have hx : x ∈ bucket (d.ht table) i := hchain.mem_iff.mpr List.mem_cons_self
    exact List.length_pos_of_mem (mem_table_entries.mpr ⟨i, hx⟩)
  have hshaped : d'.Shaped := shaped_replace h.toShaped hi _ (by omega) hlive
  have hperm : d.entries.Perm (x :: d'.entries) := by
    have hall := entries_replace h.toShaped hi (l₁ ++ l₂) ((d.ht table).used - 1) d.allocated
    have hout : (d'.entries ++ bucketAt d table i).Perm ((x :: d'.entries) ++ (l₁ ++ l₂)) :=
      (hchain.append_left _).trans List.perm_middle
    exact (List.perm_append_right_iff _).mp (hall.symm.trans hout)
  have hmem : ∀ e ∈ d'.entries, e ∈ d.entries := fun e he =>
    hperm.mem_iff.mpr (List.mem_cons_of_mem _ he)
  refine ⟨Replaced.ok h hrep hshaped (fun e he => h.placed table i e (hsub e he)) ?_ ?_
    fun e he => h.fresh e (hmem e he), ⟨table, i, l₁, l₂, hsplit, hrep⟩, rfl, hperm⟩
  · have hkeys := (hperm.map DictEntry.key).nodup_iff.mp h.keys
    exact (List.nodup_cons.mp hkeys).2
  · have hids := (hperm.map DictEntry.id).nodup_iff.mp h.ids
    exact (List.nodup_cons.mp hids).2

/-! ### The operations -/

theorem toNat_bmod {n m : ℕ} (hn : n < m) (hpos : 0 ≤ Int.bmod n m) : (Int.bmod n m).toNat = n := by
  rw [Int.bmod_def, Int.emod_eq_of_lt (Int.natCast_nonneg n) (by omega)] at hpos ⊢
  split at hpos
  · rename_i hlow
    rw [if_pos hlow, Int.toNat_natCast]
  · omega

theorem toNat_toInt {n : ℕ} (hn : n < 2 ^ 32) (hpos : 0 ≤ toInt n) : (toInt n).toNat = n :=
  toNat_bmod hn hpos

theorem index_lt_word (hash : K → BitVec 32) (h : Dictht K V) (key : K) : index hash h key < 2 ^ 32 :=
  Nat.lt_of_le_of_lt Nat.and_le_left (hash key).isLt

theorem getElem?_eq_some_bucket {d : Dict K V} (hd : d.Shaped) (table : Bool) {i : ℕ}
    {chain : List (DictEntry K V)} (hget : (d.ht table).table[i]? = some chain) :
    i < (d.ht table).size ∧ chain = bucketAt d table i := by
  rw [← (hd.ht table).length]
  refine ⟨List.getElem?_eq_some_iff.mp hget |>.1, ?_⟩
  rw [bucketAt, bucket, hget]
  rfl

theorem bucketAt_of_settled {d : Dict K V} (hd : d.Shaped) (hsettled : d.dictIsRehashing = false) (i : ℕ) :
    bucketAt d true i = [] :=
  bucket_of_entries (hd.settled hsettled) i

theorem nodup_ids_bucketAt {hash : K → BitVec 32} {d : Dict K V} (h : d.Ok hash) (table : Bool)
    (i : ℕ) : ((bucketAt d table i).map DictEntry.id).Nodup := by
  have hsub : (bucketAt d table i).Sublist d.entries := by
    have htable : (bucketAt d table i).Sublist (d.ht table).entries := by
      rw [bucketAt, bucket]
      cases hget : (d.ht table).table[i]? with
      | none => exact List.nil_sublist _
      | some chain => exact List.sublist_flatten_of_mem (List.mem_of_getElem? hget)
    cases table with
    | false => exact htable.trans (List.sublist_append_left _ _)
    | true => exact htable.trans (List.sublist_append_right _ _)
  exact h.ids.sublist (hsub.map DictEntry.id)

theorem bucketAt_unique {hash : K → BitVec 32} {d : Dict K V} (h : d.Ok hash)
    {e : DictEntry K V} {table table' : Bool} {i j : ℕ} (hi : e ∈ bucketAt d table i)
    (hj : e ∈ bucketAt d table' j) : table = table' ∧ i = j := by
  have hdisjoint : ∀ {i j}, e ∈ bucketAt d false i → e ∈ bucketAt d true j → False := by
    intro i j hi hj
    have hids := h.ids
    rw [entries, List.map_append] at hids
    exact (List.nodup_append.mp hids).2.2 e.id
      (List.mem_map_of_mem (mem_table_entries.mpr ⟨i, hi⟩)) e.id
      (List.mem_map_of_mem (mem_table_entries.mpr ⟨j, hj⟩)) rfl
  cases table with
  | false =>
    cases table' with
    | false => exact ⟨rfl, (h.placed _ i e hi).symm.trans (h.placed _ j e hj)⟩
    | true => exact (hdisjoint hi hj).elim
  | true =>
    cases table' with
    | false => exact (hdisjoint hj hi).elim
    | true => exact ⟨rfl, (h.placed _ i e hi).symm.trans (h.placed _ j e hj)⟩

/-- The size that the table is given when a key is added, if it is expanded then. -/
def expandSize (d : Dict K V) (canResize : Bool) : Option ℕ :=
  if d.dictIsRehashing then none
  else if d.ht0.size = 0 then some initialSize
  else if d.ht0.used ≥ d.ht0.size ∧
      (canResize ∨ d.ht0.used / d.ht0.size > forceResizeRatio) then some (d.ht0.used * 2)
  else none

theorem dictExpandIfNeeded_eq (d : Dict K V) (canResize : Bool) :
    dictExpandIfNeeded d canResize = match expandSize d canResize with
      | some size => dictExpand d size
      | none => (d, true) := by
  rw [dictExpandIfNeeded, expandSize]
  split
  · rfl
  · split
    · rfl
    · split
      · rfl
      · rfl

theorem dictExpandIfNeeded_spec {hash : K → BitVec 32} {d : Dict K V} (h : d.Ok hash)
    {canResize : Bool}
    (hsmall : ∀ size, expandSize d canResize = some size → dictNextPower size < 2 ^ 31) :
    (dictExpandIfNeeded d canResize).1.Ok hash ∧
      SameBuckets d (dictExpandIfNeeded d canResize).1 := by
  rw [dictExpandIfNeeded_eq]
  cases hsize : expandSize d canResize with
  | none => exact ⟨h, SameBuckets.refl d⟩
  | some size => exact dictExpand_spec h (hsmall size hsize)

section
variable {hash : K → BitVec 32} {d : Dict K V}

theorem dictRehashStep_of_iterators (hiter : d.iterators ≠ 0) : dictRehashStep hash d = some d :=
  if_neg fun h => hiter h.2

theorem absent_of_tables {key : K} (h0 : ∀ i, ∀ e ∈ bucketAt d false i, e.key ≠ key)
    (h1 : ∀ i, ∀ e ∈ bucketAt d true i, e.key ≠ key) : ∀ e ∈ d.entries, e.key ≠ key := by
  intro e he
  obtain ⟨table, i, he⟩ := mem_entries_iff.mp he
  cases table with
  | false => exact h0 i e he
  | true => exact h1 i e he

theorem size_ne_zero_of_mem (h : d.Ok hash) {x : DictEntry K V} (hx : x ∈ d.entries) :
    d.ht0.size ≠ 0 := by
  intro hzero
  obtain ⟨table, i, hmem⟩ := mem_entries_iff.mp hx
  cases table with
  | false =>
    have hnone : bucket d.ht0 i = [] := bucket_of_le h.ht0 (by rw [hzero]; exact Nat.zero_le i)
    rw [bucketAt, ht, if_neg Bool.false_ne_true, hnone] at hmem
    exact absurd hmem List.not_mem_nil
  | true =>
    cases hr : d.dictIsRehashing with
    | false =>
      rw [bucketAt_of_settled h.toShaped hr] at hmem
      exact absurd hmem List.not_mem_nil
    | true => exact (h.rehashing hr).1.ne' hzero

variable [DecidableEq K]

theorem absent_of_bucket (h : d.Ok hash) (table : Bool) {key : K}
    (hnone : ¬ (bucketAt d table (index hash (d.ht table) key)).any (fun he => he.key = key)) :
    ∀ i, ∀ e ∈ bucketAt d table i, e.key ≠ key := by
  intro i e he hkey
  refine hnone (List.any_eq_true.mpr ⟨e, ?_, decide_eq_true hkey⟩)
  rw [← hkey, h.placed table i e he]
  exact he

theorem dictKeyIndex_spec (h : d.Ok hash) {key : K} {canResize : Bool} {d₁ : Dict K V} {i : ℤ}
    (hsmall : ∀ size, expandSize d canResize = some size → dictNextPower size < 2 ^ 31)
    (hindex : dictKeyIndex hash d key canResize = some (d₁, i)) :
    d₁.Ok hash ∧ SameBuckets d d₁ ∧
      (i = -1 ∨ i = toInt (index hash (d₁.ht d₁.dictIsRehashing) key) ∧
        ∀ e ∈ d₁.entries, e.key ≠ key) := by
  obtain ⟨hok, hsame⟩ := dictExpandIfNeeded_spec h hsmall
  rw [dictKeyIndex] at hindex
  generalize dictExpandIfNeeded d canResize = p at hindex hok hsame
  obtain ⟨d', ok⟩ := p
  dsimp only at hindex hok hsame
  split at hindex
  · obtain ⟨rfl, rfl⟩ := Prod.mk.inj (Option.some.inj hindex)
    exact ⟨hok, hsame, .inl rfl⟩
  · obtain ⟨chain, hchain, hindex⟩ := Option.bind_eq_some_iff.mp hindex
    obtain ⟨-, rfl⟩ := getElem?_eq_some_bucket hok.toShaped false hchain
    split at hindex
    · obtain ⟨rfl, rfl⟩ := Prod.mk.inj (Option.some.inj hindex)
      exact ⟨hok, hsame, .inl rfl⟩
    · rename_i hnone0
      have habsent0 := absent_of_bucket hok false hnone0
      split at hindex
      · rename_i hnot
        obtain ⟨rfl, rfl⟩ := Prod.mk.inj (Option.some.inj hindex)
        have hsettled : d'.dictIsRehashing = false := Bool.eq_false_iff.mpr hnot
        refine ⟨hok, hsame, .inr ⟨by rw [hsettled]; rfl, absent_of_tables habsent0 fun i e he => ?_⟩⟩
        rw [bucketAt_of_settled hok.toShaped hsettled] at he
        exact absurd he List.not_mem_nil
      · rename_i hrehashing
        have htrue : d'.dictIsRehashing = true := by simpa using hrehashing
        obtain ⟨chain, hchain, hindex⟩ := Option.bind_eq_some_iff.mp hindex
        obtain ⟨-, rfl⟩ := getElem?_eq_some_bucket hok.toShaped true hchain
        split at hindex
        · obtain ⟨rfl, rfl⟩ := Prod.mk.inj (Option.some.inj hindex)
          exact ⟨hok, hsame, .inl rfl⟩
        · rename_i hnone1
          obtain ⟨rfl, rfl⟩ := Prod.mk.inj (Option.some.inj hindex)
          refine ⟨hok, hsame, .inr ⟨by rw [htrue]; rfl, absent_of_tables habsent0 ?_⟩⟩
          exact absent_of_bucket hok true hnone1

theorem dictAddRaw_spec (h : d.Ok hash) (hiter : d.iterators ≠ 0) {key : K} {val : V}
    {canResize : Bool} {d' : Dict K V} {added : Bool}
    (hsmall : ∀ size, expandSize d canResize = some size → dictNextPower size < 2 ^ 31)
    (hadd : dictAddRaw hash d key val canResize = some (d', added)) :
    d'.Ok hash ∧ ∃ d₁ : Dict K V, d₁.Ok hash ∧ SameBuckets d d₁ ∧
      (d' = d₁ ∨ Added d₁ ⟨d.allocated, key, val⟩ d') := by
  rw [dictAddRaw, dictRehashStep_of_iterators hiter] at hadd
  dsimp only [Option.bind_eq_bind, Option.bind_some] at hadd
  obtain ⟨p, hindex, hadd⟩ := Option.bind_eq_some_iff.mp hadd
  obtain ⟨d₁, i⟩ := p
  obtain ⟨hok, hsame, hi⟩ := dictKeyIndex_spec h hsmall hindex
  dsimp only at hadd
  split at hadd
  · obtain ⟨rfl, rfl⟩ := Prod.mk.inj (Option.some.inj hadd)
    exact ⟨hok, d₁, hok, hsame, .inl rfl⟩
  · rename_i hnew
    obtain ⟨hindex, habsent⟩ := hi.resolve_left hnew
    split at hadd
    · cases hadd
    · rename_i hnonneg
      have hnat : i.toNat = index hash (d₁.ht d₁.dictIsRehashing) key := by
        rw [hindex] at hnonneg ⊢
        exact toNat_toInt (index_lt_word hash _ key) (Int.not_lt.mp hnonneg)
      obtain ⟨chain, hchain, hadd⟩ := Option.bind_eq_some_iff.mp hadd
      rw [hnat] at hchain hadd
      obtain ⟨hlt, rfl⟩ := getElem?_eq_some_bucket hok.toShaped _ hchain
      obtain ⟨rfl, rfl⟩ := Prod.mk.inj (Option.some.inj hadd)
      obtain ⟨hok', hadded⟩ := added_replace hok hlt (fun ht => ht) habsent val
      rw [← hsame.allocated]
      exact ⟨hok', d₁, hok, hsame, .inr hadded⟩

theorem eraseP_key (h : d.Ok hash) {table : Bool} {i : ℕ} {x : DictEntry K V}
    (hx : x ∈ bucketAt d table i) : ∃ l₁ l₂, bucketAt d table i = l₁ ++ x :: l₂ ∧
      ((bucketAt d table i).eraseP fun he => he.key = x.key) = l₁ ++ l₂ := by
  obtain ⟨y, l₁, l₂, -, hy, hsplit, herase⟩ :=
    List.exists_of_eraseP (p := fun he => decide (he.key = x.key)) hx (decide_eq_true rfl)
  have hyd : y ∈ d.entries := by
    refine mem_entries_iff.mpr ⟨table, i, hsplit ▸ ?_⟩
    exact List.mem_append_right _ List.mem_cons_self
  have hxd : x ∈ d.entries := mem_entries_iff.mpr ⟨table, i, hx⟩
  obtain rfl : y = x := List.inj_on_of_nodup_map h.keys hyd hxd (of_decide_eq_true hy)
  exact ⟨l₁, l₂, hsplit, herase⟩

theorem deleteFrom_spec (h : d.Ok hash) {table : Bool} {x : DictEntry K V} (hx : x ∈ d.entries)
    (hlive : table = true → d.dictIsRehashing = true) {r : Option (Dict K V)}
    (hdelete : deleteFrom hash d table x.key = some r) :
    (r = none ∧ ∀ i, x ∉ bucketAt d table i) ∨ ∃ d', r = some d' ∧ d'.Ok hash ∧ Deleted d x d' := by
  obtain ⟨chain, hchain, hdelete⟩ := Option.bind_eq_some_iff.mp hdelete
  obtain ⟨hlt, rfl⟩ := getElem?_eq_some_bucket h.toShaped table hchain
  obtain rfl := Option.some_inj.mp hdelete
  split
  · rename_i hany
    obtain ⟨e, he, hkey⟩ := List.any_eq_true.mp hany
    have hmem : e ∈ d.entries := mem_entries_iff.mpr ⟨table, _, he⟩
    obtain rfl : e = x := List.inj_on_of_nodup_map h.keys hmem hx (of_decide_eq_true hkey)
    obtain ⟨l₁, l₂, hsplit, herase⟩ := eraseP_key h he
    have hdeleted := deleted_replace h hlt hlive hsplit
    rw [← herase, ← setHt_eq_replace] at hdeleted
    exact .inr ⟨_, rfl, hdeleted⟩
  · rename_i hnone
    exact .inl ⟨rfl, fun i hi => absent_of_bucket h table hnone i x hi rfl⟩

theorem dictGenericDelete_spec (h : d.Ok hash) (hiter : d.iterators ≠ 0) {x : DictEntry K V}
    (hx : x ∈ d.entries) {d' : Dict K V} {ok : Bool}
    (hdelete : dictGenericDelete hash d x.key = some (d', ok)) : d'.Ok hash ∧ Deleted d x d' := by
  rw [dictGenericDelete, if_neg (size_ne_zero_of_mem h hx),
    dictRehashStep_of_iterators hiter] at hdelete
  dsimp only [Option.bind_eq_bind, Option.bind_some] at hdelete
  obtain ⟨r, hr, hdelete⟩ := Option.bind_eq_some_iff.mp hdelete
  rcases deleteFrom_spec h hx (fun hf => absurd hf Bool.false_ne_true) hr with
    ⟨rfl, hnot⟩ | ⟨d₁, rfl, hok, hdeleted⟩
  · -- The entry is in the second table then, which is in use.
    obtain ⟨table, i, hmem⟩ := mem_entries_iff.mp hx
    cases table with
    | false => exact absurd hmem (hnot i)
    | true =>
      have htrue : d.dictIsRehashing = true := by
        cases hr : d.dictIsRehashing with
        | true => rfl
        | false =>
          rw [bucketAt_of_settled h.toShaped hr] at hmem
          exact absurd hmem List.not_mem_nil
      dsimp only at hdelete
      rw [if_neg fun hn => hn htrue] at hdelete
      obtain ⟨r, hr, hdelete⟩ := Option.bind_eq_some_iff.mp hdelete
      rcases deleteFrom_spec h hx (fun _ => htrue) hr with ⟨rfl, hnot⟩ | ⟨d₁, rfl, hok, hdeleted⟩
      · exact absurd hmem (hnot i)
      · obtain ⟨rfl, -⟩ := Prod.mk.inj (Option.some.inj hdelete)
        exact ⟨hok, hdeleted⟩
  · obtain ⟨rfl, -⟩ := Prod.mk.inj (Option.some.inj hdelete)
    exact ⟨hok, hdeleted⟩

theorem dictFind_spec (hiter : d.iterators ≠ 0) {key : K} {d' : Dict K V}
    {r : Option (DictEntry K V)} (hfind : dictFind hash d key = some (d', r)) : d' = d := by
  rw [dictFind] at hfind
  split at hfind
  · exact (Prod.mk.inj (Option.some.inj hfind)).1.symm
  · rw [dictRehashStep_of_iterators hiter] at hfind
    dsimp only [Option.bind_eq_bind, Option.bind_some] at hfind
    obtain ⟨chain, -, hfind⟩ := Option.bind_eq_some_iff.mp hfind
    split at hfind
    · exact (Prod.mk.inj (Option.some.inj hfind)).1.symm
    · split at hfind
      · exact (Prod.mk.inj (Option.some.inj hfind)).1.symm
      · obtain ⟨chain', -, hfind⟩ := Option.bind_eq_some_iff.mp hfind
        exact (Prod.mk.inj (Option.some.inj hfind)).1.symm

end

end Dict

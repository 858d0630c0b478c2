/-
Sampling a dictionary without repetition: `dictGetRandomKeys`.

* `walk` — the buckets of a table, one after the other from a random one on, until enough entries
  are stored;
* `walk_eq` — a walk stores the entries in the order of the buckets;
* `sampleRight_iff` — the sample is right unless the entries are needed of a table with 2^32 buckets
  or more, of which no bucket is visited.
-/
import RedisModel.Dict
import Mathlib.Data.List.Perm.Subperm
import Mathlib.Data.List.Rotate

namespace Dict

variable {K V : Type}

/-! ### The program -/

/-- The loop over a chain: what is stored, and whether these are `count` entries. -/
def collect (count : ℕ) (stored : List (DictEntry K V)) :
    List (DictEntry K V) → List (DictEntry K V) × Bool
  | [] => (stored, false)
  | he :: chain =>
    if (stored ++ [he]).length = count then (stored ++ [he], true)
    else collect count (stored ++ [he]) chain

/-- The loop `while(size--)` from the bucket `i` on. -/
def walk (h : Dictht K V) (count : ℕ) :
    ℕ → ℕ → List (DictEntry K V) → Option (List (DictEntry K V) × Bool)
  | 0, _, stored => some (stored, false)
  | size + 1, i, stored => do
    let chain ← h.table[i]?
    match collect count stored chain with
    | (stored, true) => some (stored, true)
    | (stored, false) => walk h count size ((i + 1) % 2 ^ 32 &&& h.sizemask) stored

/-- A table from a random bucket on.  The size becomes an `int` that is counted down to 0, so the
rounds are the low 32 bits of it. -/
def sampleTable (h : Dictht K V) (count r : ℕ) (stored : List (DictEntry K V)) :
    Option (List (DictEntry K V) × Bool) :=
  walk h count (h.size % 2 ^ 32) ((r &&& h.sizemask) % 2 ^ 32) stored

/-- The loop `while(stored < count)`, with the random numbers from the `k`th on.  The result is
`some none` when it is not done after the given number of rounds. -/
def randomKeysLoop (d : Dict K V) (count : ℕ) (random : ℕ → ℕ) :
    ℕ → ℕ → List (DictEntry K V) → Option (Option (List (DictEntry K V)))
  | 0, _, _ => some none
  | rounds + 1, k, stored =>
    if stored.length < count then do
      let (stored, full) ← sampleTable d.ht0 count (random k) stored
      if full then some (some stored)
      else if ¬d.dictIsRehashing then none
      else do
        let (stored, full) ← sampleTable d.ht1 count (random (k + 1)) stored
        if full then some (some stored)
        else randomKeysLoop d count random rounds (k + 2) stored
    else some (some stored)

/-- `dictGetRandomKeys`: the entries that are stored in `des`. -/
def dictGetRandomKeys (d : Dict K V) (count : ℕ) (random : ℕ → ℕ) (rounds : ℕ) :
    Option (Option (List (DictEntry K V))) :=
  randomKeysLoop d (if d.dictSize < count then d.dictSize else count) random rounds 0 []

/-! ### Walks -/

theorem collect_append (count : ℕ) (stored l l' : List (DictEntry K V)) :
    collect count stored (l ++ l') = match collect count stored l with
      | (stored, true) => (stored, true)
      | (stored, false) => collect count stored l' := by
  induction l generalizing stored with
  | nil => rfl
  | cons he l ih =>
    rw [List.cons_append, collect, collect]
    split
    · rfl
    · exact ih _

theorem collect_eq {count : ℕ} {stored : List (DictEntry K V)} (l : List (DictEntry K V))
    (h : stored.length < count) :
    collect count stored l
      = ((stored ++ l).take count, decide (count ≤ stored.length + l.length)) := by
  induction l generalizing stored with
  | nil =>
    have hnot : ¬count ≤ stored.length + ([] : List (DictEntry K V)).length := by
      rw [List.length_nil]
      omega
    rw [collect, List.append_nil, List.take_of_length_le h.le, decide_eq_false hnot]
  | cons he l ih =>
    have hlength : (stored ++ [he]).length = stored.length + 1 := by
      rw [List.length_append, List.length_singleton]
    rw [collect, List.append_cons stored he l, List.length_cons]
    split
    · rename_i hcount
      have hle : count ≤ stored.length + (l.length + 1) := by omega
      rw [decide_eq_true hle, List.take_append_of_le_length hcount.ge,
        List.take_of_length_le hcount.le]
    · rw [ih (by omega), hlength, Nat.add_assoc, Nat.add_comm 1]

theorem next_index {h : Dictht K V} (hs : h.Shaped) (hsize : h.size < 2 ^ 32) (hpos : h.size ≠ 0)
    (i : ℕ) : (i + 1) % 2 ^ 32 &&& h.sizemask = (i + 1) % h.size := by
  obtain hzero | ⟨k, -, hpow⟩ := hs.power
  · exact absurd hzero hpos
  · have hk : k < 32 := by
      rw [hpow] at hsize
      exact (Nat.pow_lt_pow_iff_right Nat.one_lt_two).mp hsize
    rw [hs.mask, hpow, Nat.and_two_pow_sub_one_eq_mod]
    exact Nat.mod_mod_of_dvd _ (Nat.pow_dvd_pow 2 hk.le)

theorem start_lt {h : Dictht K V} (hs : h.Shaped) (hpos : h.size ≠ 0) (r : ℕ) :
    (r &&& h.sizemask) % 2 ^ 32 < h.size := by
  have hmask : (r &&& h.sizemask) ≤ h.sizemask := Nat.and_le_right
  have hmod := Nat.mod_le (r &&& h.sizemask) (2 ^ 32)
  have hsize := hs.mask
  omega

theorem rotate_eq_cons {α : Type} {l : List α} {i : ℕ} {a : α} (h : l[i]? = some a) :
    ∃ rest, l.rotate i = a :: rest ∧ l.rotate (i + 1) = rest ++ [a] := by
  obtain ⟨hi, rfl⟩ := List.getElem?_eq_some_iff.mp h
  refine ⟨l.drop (i + 1) ++ l.take i, ?_, ?_⟩
  · rw [List.rotate_eq_drop_append_take hi.le, List.drop_eq_getElem_cons hi]
    rfl
  · rw [List.rotate_eq_drop_append_take hi, List.take_succ_eq_append_getElem hi, List.append_assoc]

theorem walk_eq {h : Dictht K V} (hs : h.Shaped) (hsize : h.size < 2 ^ 32) (count : ℕ) {n : ℕ}
    (hn : n ≤ h.size) {i : ℕ} (hi : i < h.size) (stored : List (DictEntry K V)) :
    walk h count n i stored = some (collect count stored ((h.table.rotate i).take n).flatten) := by
  induction n generalizing i stored with
  | zero => rfl
  | succ n ih =>
    have hpos : h.size ≠ 0 := Nat.ne_of_gt (Nat.zero_lt_of_lt hi)
    obtain ⟨rest, hrotate, hnext⟩ := rotate_eq_cons (getElem?_bucket hs hi)
    have hrest : n ≤ rest.length := by
      have hlength := congrArg List.length hrotate
      rw [List.length_rotate, hs.length, List.length_cons] at hlength
      omega
    have htake : (h.table.rotate ((i + 1) % h.size)).take n = rest.take n := by
      rw [← hs.length, List.rotate_mod, hnext, List.take_append_of_le_length hrest]
    rw [walk, getElem?_bucket hs hi, hrotate, List.take_succ_cons, List.flatten_cons,
      collect_append, next_index hs hsize hpos]
    dsimp only [Option.bind_eq_bind, Option.bind_some]
    split
    · rfl
    · rw [ih (Nat.le_of_succ_le hn) (Nat.mod_lt _ (Nat.zero_lt_of_lt hi)), htake]

/-! ### What is visited -/

/-- The entries of the buckets that are visited. -/
def visited (h : Dictht K V) : List (DictEntry K V) := if h.size < 2 ^ 32 then h.entries else []

theorem sampleTable_spec {h : Dictht K V} (hs : h.Shaped) {count : ℕ}
    {stored : List (DictEntry K V)} (hstored : stored.length < count) (r : ℕ) :
    ∃ l, l.Perm (visited h) ∧ sampleTable h count r stored
      = some ((stored ++ l).take count, decide (count ≤ stored.length + l.length)) := by
  have hnone : sampleTable h count r stored = walk h count 0 0 stored → visited h = [] →
      ∃ l, l.Perm (visited h) ∧ sampleTable h count r stored
        = some ((stored ++ l).take count, decide (count ≤ stored.length + l.length)) := by
    intro hwalk hvisited
    refine ⟨[], by rw [hvisited], ?_⟩
    rw [hwalk, ← collect_eq [] hstored]
    rfl
  by_cases hsize : h.size < 2 ^ 32
  · by_cases hpos : h.size = 0
    · refine hnone ?_ ?_
      · rw [sampleTable, hpos]
        rfl
      · have hempty : h.table = [] := List.length_eq_zero_iff.mp (hs.length.trans hpos)
        rw [visited, if_pos hsize, Dictht.entries, hempty]
        rfl
    · refine ⟨(h.table.rotate ((r &&& h.sizemask) % 2 ^ 32)).flatten, ?_, ?_⟩
      · rw [visited, if_pos hsize, Dictht.entries]
        exact (List.rotate_perm _ _).flatten
      · rw [sampleTable, Nat.mod_eq_of_lt hsize, walk_eq hs hsize count le_rfl (start_lt hs hpos r),
          List.take_of_length_le, collect_eq _ hstored]
        rw [List.length_rotate, hs.length]
  · obtain hzero | ⟨k, -, hpow⟩ := hs.power
    · exact absurd (by rw [hzero]; decide) hsize
    · -- the low bits of the size are all 0
      have hk : 32 ≤ k := by
        rw [hpow] at hsize
        exact (Nat.pow_le_pow_iff_right Nat.one_lt_two).mp (not_lt.mp hsize)
      have hmod : h.size % 2 ^ 32 = 0 := by
        rw [hpow]
        exact Nat.mod_eq_zero_of_dvd (Nat.pow_dvd_pow 2 hk)
      refine hnone ?_ (if_neg hsize)
      rw [sampleTable, hmod]
      rfl

theorem visited_sublist (h : Dictht K V) : (visited h).Sublist h.entries := by
  rw [visited]
  split
  · exact List.Sublist.refl _
  · exact List.nil_sublist _

theorem visited_of_settled {d : Dict K V} (hd : d.Shaped) (hsettled : d.dictIsRehashing = false) :
    visited d.ht1 = [] := by
  have hsub := visited_sublist d.ht1
  rw [hd.settled hsettled] at hsub
  exact List.sublist_nil.mp hsub

theorem stored_visited {d : Dict K V} (hd : d.Shaped) {count : ℕ} {random : ℕ → ℕ} {rounds k : ℕ}
    {stored stored' : List (DictEntry K V)} (h : stored ⊆ visited d.ht0 ++ visited d.ht1)
    (hrun : randomKeysLoop d count random rounds k stored = some (some stored')) :
    stored' ⊆ visited d.ht0 ++ visited d.ht1 := by
  induction rounds generalizing k stored with
  | zero => cases hrun
  | succ rounds ih =>
    rw [randomKeysLoop] at hrun
    split at hrun
    · rename_i hlt
      obtain ⟨l₀, hperm₀, hsample₀⟩ := sampleTable_spec hd.ht0 hlt (random k)
      rw [hsample₀] at hrun
      dsimp only [Option.bind_eq_bind, Option.bind_some] at hrun
      have hone : (stored ++ l₀).take count ⊆ visited d.ht0 ++ visited d.ht1 := by
        refine fun e he => ?_
        obtain he | he := List.mem_append.mp (List.mem_of_mem_take he)
        · exact h he
        · exact List.mem_append_left _ (hperm₀.subset he)
      split at hrun
      · obtain rfl := Option.some_inj.mp (Option.some_inj.mp hrun)
        exact hone
      · rename_i hmore
        split at hrun
        · cases hrun
        · have hlt' : ((stored ++ l₀).take count).length < count := by
            have hle := of_decide_eq_false (Bool.eq_false_iff.mpr hmore)
            rw [List.length_take, List.length_append]
            omega
          obtain ⟨l₁, hperm₁, hsample₁⟩ := sampleTable_spec hd.ht1 hlt' (random (k + 1))
          rw [hsample₁] at hrun
          dsimp only [Option.bind_some] at hrun
          have htwo : ((stored ++ l₀).take count ++ l₁).take count ⊆
              visited d.ht0 ++ visited d.ht1 := by
            refine fun e he => ?_
            obtain he | he := List.mem_append.mp (List.mem_of_mem_take he)
            · exact hone he
            · exact List.mem_append_right _ (hperm₁.subset he)
          split at hrun
          · obtain rfl := Option.some_inj.mp (Option.some_inj.mp hrun)
            exact htwo
          · exact ih htwo hrun
    · obtain rfl := Option.some_inj.mp (Option.some_inj.mp hrun)
      exact h

theorem randomKeysLoop_spec {d : Dict K V} (hd : d.Shaped) {count : ℕ} (random : ℕ → ℕ)
    (hcount : count ≤ (visited d.ht0).length + (visited d.ht1).length) :
    ∃ l : List (DictEntry K V), l.Perm (visited d.ht0 ++ visited d.ht1) ∧
      randomKeysLoop d count random 1 0 [] = some (some (l.take count)) := by
  rw [randomKeysLoop]
  split
  · rename_i hpos
    obtain ⟨l₀, hperm₀, hsample₀⟩ := sampleTable_spec hd.ht0 hpos (random 0)
    rw [hsample₀, List.nil_append, List.length_nil, Nat.zero_add]
    dsimp only [Option.bind_eq_bind, Option.bind_some]
    rw [← hperm₀.length_eq] at hcount
    by_cases hfull : count ≤ l₀.length
    · refine ⟨l₀ ++ visited d.ht1, hperm₀.append_right _, ?_⟩
      rw [if_pos (decide_eq_true hfull), List.take_append_of_le_length hfull]
    · have hlt : l₀.length < count := Nat.lt_of_not_le hfull
      have hrehash : d.dictIsRehashing = true := by
        by_contra hsettled
        rw [visited_of_settled hd (Bool.eq_false_iff.mpr hsettled)] at hcount
        exact hfull hcount
      rw [List.take_of_length_le hlt.le, if_neg (fun h => hfull (of_decide_eq_true h)),
        if_neg (not_not_intro hrehash)]
      obtain ⟨l₁, hperm₁, hsample₁⟩ := sampleTable_spec hd.ht1 hlt (random 1)
      rw [← hperm₁.length_eq] at hcount
      refine ⟨l₀ ++ l₁, hperm₀.append hperm₁, ?_⟩
      rw [Nat.zero_add, hsample₁]
      dsimp only [Option.bind_some]
      rw [if_pos (decide_eq_true hcount)]
  · rename_i hzero
    obtain rfl : count = 0 := Nat.eq_zero_of_not_pos hzero
    exact ⟨_, List.Perm.refl _, rfl⟩

/-! ### When samples are right -/

/-- A dictionary in memory: different entries are at different places, and there are less than 2^64
of them. -/
structure InMemory (d : Dict K V) : Prop extends Shaped d where
  ids : (d.entries.map DictEntry.id).Nodup
  bound : d.entries.length < 2 ^ 64

/-- `dictGetRandomKeys` returns, and what it stores are different entries of the dictionary: `count`
of them, or all if there are fewer. -/
def SampleRight (d : Dict K V) (count : ℕ) (random : ℕ → ℕ) : Prop :=
  ∃ rounds stored, dictGetRandomKeys d count random rounds = some (some stored) ∧
    stored.length = min count d.entries.length ∧ (stored.map DictEntry.id).Nodup ∧
    ∀ e ∈ stored, e ∈ d.entries

theorem dictSize_of_inMemory {d : Dict K V} (h : d.InMemory) : d.dictSize = d.entries.length := by
  have hbound := h.bound
  rw [entries, List.length_append] at hbound
  rw [dictSize, h.ht0.used, h.ht1.used, entries, List.length_append, Nat.mod_eq_of_lt hbound]

theorem dictGetRandomKeys_eq {d : Dict K V} (h : d.InMemory) (count : ℕ) (random : ℕ → ℕ)
    (rounds : ℕ) : dictGetRandomKeys d count random rounds
      = randomKeysLoop d (min count d.entries.length) random rounds 0 [] := by
  rw [dictGetRandomKeys, dictSize_of_inMemory h]
  split
  · rename_i hlt
    rw [min_eq_right hlt.le]
  · rename_i hle
    rw [min_eq_left (not_lt.mp hle)]

/-- A sample is right if and only if there are enough entries in the tables with less than 2^32
buckets. -/
theorem sampleRight_iff {d : Dict K V} (h : d.InMemory) (count : ℕ) (random : ℕ → ℕ) :
    SampleRight d count random ↔
      min count d.entries.length ≤ (visited d.ht0).length + (visited d.ht1).length := by
  have hsublist : (visited d.ht0 ++ visited d.ht1).Sublist d.entries :=
    (visited_sublist d.ht0).append (visited_sublist d.ht1)
  constructor
  · rintro ⟨rounds, stored, hrun, hlength, hnodup, -⟩
    rw [dictGetRandomKeys_eq h] at hrun
    have hsub := stored_visited h.toShaped (List.nil_subset _) hrun
    have hle := (List.subperm_of_subset (List.Nodup.of_map _ hnodup) hsub).length_le
    rwa [hlength, List.length_append] at hle
  · intro hcount
    obtain ⟨l, hperm, hrun⟩ := randomKeysLoop_spec h.toShaped random hcount
    rw [← List.length_append, ← hperm.length_eq] at hcount
    refine ⟨1, _, (dictGetRandomKeys_eq h count random 1).trans hrun, ?_, ?_, fun e he => ?_⟩
    · rw [List.length_take, min_eq_left hcount]
    · have hids : (l.map DictEntry.id).Nodup :=
        (hperm.map _).nodup_iff.mpr (h.ids.sublist (hsublist.map _))
      exact hids.sublist ((List.take_sublist _ _).map _)
    · exact hsublist.subset (hperm.subset (List.mem_of_mem_take he))

/-! ### Concrete dictionaries -/

/-- Three entries in a dictionary that is rehashed. -/
def rehashedDict : Dict Unit Unit :=
  ⟨⟨[[], [⟨0, (), ()⟩], [], []], 4, 3, 1⟩,
    ⟨[[], [], [⟨2, (), ()⟩, ⟨1, (), ()⟩], [], [], [], [], []], 8, 7, 2⟩, 1, 0, 3⟩

theorem sampleRight_rehashedDict : SampleRight rehashedDict 2 (fun k => 5 * k + 3) :=
  (sampleRight_iff
    { ht0 := ⟨rfl, rfl, rfl, .inr ⟨2, by decide, rfl⟩⟩
      ht1 := ⟨rfl, rfl, rfl, .inr ⟨3, by decide, rfl⟩⟩
      rehashing := fun _ => by decide
      settled := fun h => absurd h (by decide)
      ids := by decide
      bound := by decide } 2 _).mpr (by decide)

/-- One entry in a table with 2^32 buckets. -/
def bigDict : Dict Unit Unit :=
  ⟨⟨[⟨0, (), ()⟩] :: List.replicate (2 ^ 32 - 1) [], 2 ^ 32, 2 ^ 32 - 1, 1⟩, dictReset, -1, 0, 1⟩

theorem bigDict_entries : bigDict.ht0.entries = [⟨0, (), ()⟩] := by
  rw [Dictht.entries, bigDict, List.flatten_cons, List.flatten_replicate_nil]
  rfl

/-- No bucket is visited, and the assertion fails. -/
theorem not_sampleRight_bigDict :
    bigDict.InMemory ∧ ∀ random, ¬SampleRight bigDict 1 random := by
  have hentries : bigDict.entries = [⟨0, (), ()⟩] := by
    rw [entries, bigDict_entries]
    rfl
  have hshaped : bigDict.Shaped :=
    { ht0 :=
        { length := by
            rw [bigDict, List.length_cons, List.length_replicate]
            rfl
          mask := rfl
          used := by rw [bigDict_entries]; rfl
          power := .inr ⟨32, by decide, rfl⟩ }
      ht1 := ⟨rfl, rfl, rfl, .inl rfl⟩
      rehashing := fun h => absurd h (by decide)
      settled := fun _ => rfl }
  refine ⟨⟨hshaped, by rw [hentries]; decide, by rw [hentries]; decide⟩, fun random hright => ?_⟩
  obtain ⟨rounds, stored, hrun, -⟩ := hright
  cases rounds with
  | zero => cases hrun
  | succ rounds => cases hrun

end Dict

/-
Safe iterators over a dictionary.

* `dictNext`, `dictReleaseIterator` — the code;
* `Pending` — the entries an iterator has not returned yet;
* `dictNext_spec` — a call returns a pending entry, or there is none left;
* `SameBuckets.pending`, `Added.pending`, `Deleted.pending` — what the caller does between two
  calls;
* `Sound` — what holds all along an iteration;
* `safe_iteration` — whole iterations.
-/
import RedisModel.DictKeys
import RedisModel.Runs

/-- `dictIterator`, a safe one.  A pointer to an entry is the `id` of the entry. -/
structure DictIterator where
  table : Bool
  index : ℤ
  entry : Option ℕ
  nextEntry : Option ℕ

namespace Dict

variable {K V : Type}

/-! ### The code -/

def dictGetSafeIterator : DictIterator := ⟨false, -1, none, none⟩

/-- The entry of a chain that a pointer points to, and the pointer to its successor. -/
def deref (p : ℕ) : List (DictEntry K V) → Option (DictEntry K V × Option ℕ)
  | [] => none
  | e :: es => if e.id = p then some (e, es.head?.map DictEntry.id) else deref p es

/-- The chain of the bucket an iterator is in. -/
def current (d : Dict K V) (it : DictIterator) : Option (List (DictEntry K V)) :=
  (d.ht it.table).table[it.index.toNat]?

/-- The bucket after the one the iterator is in; `none` when the iteration is over. -/
def nextBucket (d : Dict K V) (it : DictIterator) : Option DictIterator :=
  if it.index + 1 ≥ toInt (d.ht it.table).size then
    if d.dictIsRehashing ∧ it.table = false then some { it with table := true, index := 0 }
    else none
  else some { it with index := it.index + 1 }

/-- The loop of `dictNext`. -/
def dictNextLoop : ℕ → Dict K V → DictIterator →
    Option (Dict K V × DictIterator × Option (DictEntry K V))
  | 0, _, _ => none
  | fuel + 1, d, it =>
    match it.entry, it.nextEntry with
    | some _, some p => do
      let chain ← current d it
      let (e, next) ← deref p chain
      some (d, { it with entry := some p, nextEntry := next }, some e)
    | some _, none => dictNextLoop fuel d { it with entry := none }
    | none, _ =>
      let d := if it.index = -1 ∧ it.table = false then { d with iterators := d.iterators + 1 }
        else d
      match nextBucket d it with
      | none => some (d, { it with index := it.index + 1 }, none)
      | some it => do
        let chain ← current d it
        match chain with
        | e :: es =>
          some (d, { it with entry := some e.id, nextEntry := es.head?.map DictEntry.id }, some e)
        | [] => dictNextLoop fuel d it

/-- `dictNext`.  The loop goes through every bucket at most once. -/
def dictNext (d : Dict K V) (it : DictIterator) :
    Option (Dict K V × DictIterator × Option (DictEntry K V)) :=
  dictNextLoop (d.ht0.size + d.ht1.size + 3) d it

def dictReleaseIterator (d : Dict K V) (it : DictIterator) : Dict K V :=
  if it.index = -1 ∧ it.table = false then d else { d with iterators := d.iterators - 1 }

/-! ### The entries that are still to come -/

/-- What is left of the chain after the entry that was returned last. -/
def restOf (p : Option ℕ) (chain : List (DictEntry K V)) : List (DictEntry K V) :=
  match p with
  | none => []
  | some p => chain.dropWhile fun e => e.id ≠ p

/-- The entries in the buckets after the one the iterator is in. -/
def Later (d : Dict K V) (it : DictIterator) (y : DictEntry K V) : Prop :=
  (∃ j : ℕ, it.index < j ∧ y ∈ bucketAt d it.table j) ∨
    it.table = false ∧ ∃ j, y ∈ bucketAt d true j

/-- The entries that an iterator has not returned yet. -/
def Pending (d : Dict K V) (it : DictIterator) (y : DictEntry K V) : Prop :=
  (it.entry.isSome ∧ y ∈ restOf it.nextEntry (bucketAt d it.table it.index.toNat)) ∨ Later d it y

/-- The saved pointer points into the bucket the iterator is in, or the chain is at its end. -/
def Linked (d : Dict K V) (it : DictIterator) : Prop :=
  ∃ l s, bucketAt d it.table it.index.toNat = l ++ s ∧ it.nextEntry = s.head?.map DictEntry.id

theorem restOf_split {chain l s : List (DictEntry K V)} (hids : (chain.map DictEntry.id).Nodup)
    (hsplit : chain = l ++ s) : restOf (s.head?.map DictEntry.id) chain = s := by
  cases s with
  | nil => rfl
  | cons e s =>
    have hne : ∀ x ∈ l, x.id ≠ e.id := by
      rw [hsplit, List.map_append, List.map_cons] at hids
      intro x hx heq
      exact (List.nodup_append.mp hids).2.2 x.id (List.mem_map_of_mem hx) e.id
        List.mem_cons_self heq
    rw [hsplit]
    show (l ++ e :: s).dropWhile (fun x => decide (x.id ≠ e.id)) = e :: s
    rw [List.dropWhile_append_of_pos fun x hx => decide_eq_true (hne x hx)]
    exact List.dropWhile_cons_of_neg (by simp)

theorem deref_split {chain l s : List (DictEntry K V)} {e : DictEntry K V}
    (hids : (chain.map DictEntry.id).Nodup) (hsplit : chain = l ++ e :: s) :
    deref e.id chain = some (e, s.head?.map DictEntry.id) := by
  subst hsplit
  induction l with
  | nil => exact if_pos rfl
  | cons x l ih =>
    rw [List.cons_append, List.map_cons, List.nodup_cons] at hids
    have hne : x.id ≠ e.id := fun heq => hids.1 (by
      rw [heq]
      exact List.mem_map_of_mem (List.mem_append_right _ List.mem_cons_self))
    rw [List.cons_append, deref, if_neg hne]
    exact ih hids.2

/-! ### From bucket to bucket -/

/-- Tables whose sizes an `int` can hold. -/
def Small (d : Dict K V) : Prop := ∀ table, (d.ht table).size < 2 ^ 31

theorem toInt_of_lt {n : ℕ} (hn : n < 2 ^ 31) : toInt n = n := by
  have hbmod : ∀ m : ℕ, n < (m + 1) / 2 → Int.bmod n m = n := fun m hm => by
    rw [Int.bmod_def, Int.emod_eq_of_lt (Int.natCast_nonneg n) (by omega), if_pos (by omega)]
  exact hbmod (2 ^ 32) (by omega)

/-- How many buckets are still ahead, at most. -/
def ahead (d : Dict K V) (it : DictIterator) : ℕ :=
  ((d.ht it.table).size - (it.index + 1).toNat) + if it.table then 0 else d.ht1.size + 1

theorem bucketAt_of_le {d : Dict K V} (hd : d.Shaped) {table : Bool} {i : ℕ}
    (hi : (d.ht table).size ≤ i) : bucketAt d table i = [] :=
  bucket_of_le (hd.ht table) hi

theorem nextBucket_none {d : Dict K V} (hd : d.Shaped) (hsmall : Small d) {it : DictIterator}
    (hnext : nextBucket d it = none) (y : DictEntry K V) :
    ¬ Later d it y := by
  rw [nextBucket, toInt_of_lt (hsmall it.table)] at hnext
  split at hnext
  · rename_i hend
    split at hnext
    · cases hnext
    · rename_i hlast
      rintro (⟨j, hj, hy⟩ | ⟨htable, j, hy⟩)
      · rw [bucketAt_of_le hd (by omega)] at hy
        exact List.not_mem_nil hy
      · have hsettled : d.dictIsRehashing = false :=
          Bool.eq_false_iff.mpr fun hr => hlast ⟨hr, htable⟩
        rw [bucketAt_of_settled hd hsettled] at hy
        exact List.not_mem_nil hy
  · cases hnext

theorem nextBucket_some {d : Dict K V} (hd : d.Shaped) (hsmall : Small d) {it it' : DictIterator}
    (hindex : -1 ≤ it.index) (hnext : nextBucket d it = some it') :
    0 ≤ it'.index ∧ it'.index.toNat < (d.ht it'.table).size ∧ it'.entry = it.entry ∧
      it'.nextEntry = it.nextEntry ∧ ahead d it' < ahead d it ∧
      ∀ y, Later d it y ↔ y ∈ bucketAt d it'.table it'.index.toNat ∨ Later d it' y := by
  rw [nextBucket, toInt_of_lt (hsmall it.table)] at hnext
  split at hnext
  · rename_i hend
    split at hnext
    · rename_i hfirst
      obtain ⟨hrehashing, htable⟩ := hfirst
      obtain rfl := Option.some_inj.mp hnext
      have hpos : 0 < d.ht1.size := (hd.rehashing hrehashing).2
      refine ⟨Int.le_refl 0, hpos, rfl, rfl, ?_, fun y => ?_⟩
      · rw [ahead, ahead, htable]
        show d.ht1.size - 1 + 0 < d.ht0.size - (it.index + 1).toNat + (d.ht1.size + 1)
        omega
      · constructor
        · rintro (⟨j, hj, hy⟩ | ⟨-, j, hy⟩)
          · rw [bucketAt_of_le hd (by omega)] at hy
            exact absurd hy List.not_mem_nil
          · rcases Nat.eq_zero_or_pos j with rfl | hj
            · exact .inl hy
            · exact .inr (.inl ⟨j, Int.natCast_pos.mpr hj, hy⟩)
        · rintro (hy | ⟨j, -, hy⟩ | ⟨hf, -⟩)
          · exact .inr ⟨htable, 0, hy⟩
          · exact .inr ⟨htable, j, hy⟩
          · exact absurd hf Bool.false_ne_true.symm
    · cases hnext
  · rename_i hin
    obtain rfl := Option.some_inj.mp hnext
    dsimp only
    refine ⟨by omega, by omega, rfl, rfl, ?_, fun y => ?_⟩
    · rw [ahead, ahead]
      dsimp only
      omega
    · constructor
      · rintro (⟨j, hj, hy⟩ | hy)
        · by_cases hnow : (j : ℤ) = it.index + 1
          · refine .inl ?_
            rw [← hnow, Int.toNat_natCast]
            exact hy
          · refine .inr (.inl ⟨j, ?_, hy⟩)
            dsimp only
            omega
        · exact .inr (.inr hy)
      · rintro (hy | ⟨j, hj, hy⟩ | hy)
        · exact .inl ⟨(it.index + 1).toNat, by omega, hy⟩
        · dsimp only at hj
          exact .inl ⟨j, by omega, hy⟩
        · exact .inr hy

/-! ### One call -/

/-- The dictionary counts the iterator from its first call on. -/
def counted (d : Dict K V) (it : DictIterator) : Dict K V :=
  if it.index = -1 ∧ it.table = false then { d with iterators := d.iterators + 1 } else d

/-- An iterator returns an entry. -/
structure Returned (d : Dict K V) (it it' : DictIterator) (e : DictEntry K V) : Prop where
  pending : Pending d it e
  entry : it'.entry = some e.id
  index : 0 ≤ it'.index
  linked : Linked d it'
  rest : ∀ y, Pending d it' y ↔ Pending d it y ∧ y ≠ e

/-- An iterator finds no entry any more. -/
structure Exhausted (d : Dict K V) (it it' : DictIterator) : Prop where
  before : ∀ y, ¬ Pending d it y
  entry : it'.entry = none
  after : ∀ y, ¬ Pending d it' y

theorem ok_iterators {hash : K → BitVec 32} {d : Dict K V} (h : d.Ok hash) (n : ℤ) :
    ({ d with iterators := n } : Dict K V).Ok hash :=
  ⟨⟨h.ht0, h.ht1, h.rehashing, h.settled⟩, h.placed, h.keys, h.ids, h.fresh⟩

theorem counted_cases (d : Dict K V) (it : DictIterator) : ∃ n, counted d it
    = { d with iterators := n } := by
  rw [counted]
  split
  · exact ⟨_, rfl⟩
  · exact ⟨d.iterators, rfl⟩

theorem pending_of_entry_none {d : Dict K V} (it : DictIterator) (hentry : it.entry = none)
    (y : DictEntry K V) : Pending d it y ↔ Later d it y := by
  rw [Pending, hentry]
  exact or_iff_right fun h => Bool.false_ne_true h.1

section
variable {hash : K → BitVec 32} {d : Dict K V}

theorem not_later (h : d.Ok hash) {it : DictIterator} (hindex : 0 ≤ it.index) {e : DictEntry K V}
    (he : e ∈ bucketAt d it.table it.index.toNat) : ¬ Later d it e := by
  rintro (⟨j, hj, hj'⟩ | ⟨htable, j, hj⟩)
  · have heq := (bucketAt_unique h he hj').2
    omega
  · exact absurd ((bucketAt_unique h he hj).1.symm.trans htable) Bool.false_ne_true.symm

/-- The entry `e` of the bucket that the iterator is in is returned, the entries `s` after it
are the rest of the chain. -/
theorem returned_of_split (h : d.Ok hash) {it c : DictIterator} (hindex : 0 ≤ c.index)
    {e : DictEntry K V} {l s : List (DictEntry K V)}
    (hsplit : bucketAt d c.table c.index.toNat = l ++ e :: s)
    (hpending : ∀ y, Pending d it y ↔ y ∈ e :: s ∨ Later d c y) :
    Returned d it { c with entry := some e.id, nextEntry := s.head?.map DictEntry.id } e := by
  have hids := nodup_ids_bucketAt h c.table c.index.toNat
  have hsplit' : bucketAt d c.table c.index.toNat = (l ++ [e]) ++ s := by
    rw [hsplit, List.append_assoc, List.singleton_append]
  have he : e ∈ bucketAt d c.table c.index.toNat := by
    rw [hsplit]
    exact List.mem_append_right _ List.mem_cons_self
  refine ⟨(hpending e).mpr (.inl List.mem_cons_self), rfl, hindex, ⟨l ++ [e], s, hsplit', rfl⟩,
    fun y => ?_⟩
  have hrest : Pending d { c with entry := some e.id, nextEntry := s.head?.map DictEntry.id } y ↔
      y ∈ s ∨ Later d c y := by
    rw [Pending]
    dsimp only
    rw [restOf_split hids hsplit']
    exact or_congr (and_iff_right rfl) Iff.rfl
  rw [hrest, hpending, List.mem_cons]
  constructor
  · rintro (hy | hy)
    · refine ⟨.inl (.inr hy), fun heq => ?_⟩
      rw [hsplit, List.map_append, List.map_cons] at hids
      have hnot := (List.nodup_cons.mp (List.nodup_append.mp hids).2.1).1
      exact hnot (heq ▸ List.mem_map_of_mem hy)
    · exact ⟨.inr hy, fun heq => not_later h hindex he (heq ▸ hy)⟩
  · rintro ⟨(rfl | hy) | hy, hne⟩
    · exact absurd rfl hne
    · exact .inl hy
    · exact .inr hy

theorem dictNextLoop_bucket (h : d.Ok hash) (hsmall : Small d) (it : DictIterator) (fuel : ℕ)
    (hentry : it.entry = none) (hindex : -1 ≤ it.index) (hfuel : ahead d it < fuel) :
    ∃ it' r, dictNextLoop fuel d it = some (counted d it, it', r) ∧ 0 ≤ it'.index ∧
      (r = none → Exhausted d it it') ∧ ∀ e, r = some e → Returned d it it' e := by
  induction fuel generalizing d it with
  | zero => exact absurd hfuel (Nat.not_lt_zero _)
  | succ fuel ih =>
    rw [dictNextLoop, hentry]
    dsimp only
    rw [← counted]
    obtain ⟨n, hn⟩ := counted_cases d it
    have hnext : nextBucket (counted d it) it = nextBucket d it := by
      rw [hn]
      rfl
    rw [hnext]
    cases hbucket : nextBucket d it with
    | none =>
      have hnone := nextBucket_none h.toShaped hsmall hbucket
      refine ⟨{ it with index := it.index + 1 }, none, by rw [← hentry], by dsimp only; omega,
        fun _ => ⟨fun y hy => ?_, hentry, fun y hy => ?_⟩,
        fun e he => absurd he.symm (Option.some_ne_none e)⟩
      · exact hnone y ((pending_of_entry_none it hentry y).mp hy)
      · rcases (pending_of_entry_none { it with index := it.index + 1 } hentry y).mp hy with
          ⟨j, hj, hj'⟩ | hy
        · dsimp only at hj
          exact hnone y (.inl ⟨j, by omega, hj'⟩)
        · exact hnone y (.inr hy)
    | some c =>
      obtain ⟨hpos, hlt, hc, -, hahead, hlater⟩ := nextBucket_some h.toShaped hsmall hindex hbucket
      have hcurrent : current (counted d it) c = some (bucketAt d c.table c.index.toNat) := by
        rw [hn]
        exact getElem?_bucket (h.toShaped.ht c.table) hlt
      dsimp only [Option.bind_eq_bind]
      rw [hcurrent, Option.bind_some]
      have hpending : ∀ y, Pending d it y ↔
          y ∈ bucketAt d c.table c.index.toNat ∨ Later d c y := fun y =>
        (pending_of_entry_none it hentry y).trans (hlater y)
      cases hchain : bucketAt d c.table c.index.toNat with
      | cons e s =>
        rw [hchain] at hpending
        have hret := returned_of_split (l := []) h hpos hchain hpending
        refine ⟨_, some e, rfl, hpos, fun hr => absurd hr (Option.some_ne_none e), fun e' he' => ?_⟩
        obtain rfl := Option.some_inj.mp he'
        exact hret
      | nil =>
        rw [hchain] at hpending
        have hcnone : c.entry = none := hc.trans hentry
        have hcount : ∀ d : Dict K V, counted d c = d := fun d => if_neg fun hneg => by omega
        have hok : (counted d it).Ok hash := hn ▸ ok_iterators h n
        obtain ⟨it', r, hrun, hpos', hdone, hreturned⟩ := ih hok (hn ▸ hsmall) c hcnone
          (by omega) (by rw [hn]; exact Nat.lt_of_lt_of_le hahead (Nat.lt_succ_iff.mp hfuel))
        have hsame : ∀ y, Pending (counted d it) c y ↔ Pending d it y := fun y => by
          rw [hn, hpending]
          refine (pending_of_entry_none c hcnone y).trans ?_
          exact (or_iff_right List.not_mem_nil).symm
        rw [hcount] at hrun
        refine ⟨it', r, hrun, hpos', fun hr => ?_, fun e he => ?_⟩
        · obtain ⟨hbefore, hentry', hafter⟩ := hdone hr
          rw [hn] at hafter
          exact ⟨fun y hy => hbefore y ((hsame y).mpr hy), hentry', hafter⟩
        obtain ⟨hp, he', hi', hl, hrest⟩ := hreturned e he
        rw [hn] at hp hl hrest
        refine ⟨(hsame e).mp (hn ▸ hp), he', hi', hl, fun y => ?_⟩
        rw [← hsame y, hn]
        exact hrest y

theorem ahead_le (d : Dict K V) (it : DictIterator) : ahead d it ≤ d.ht0.size + d.ht1.size + 1 := by
  rw [ahead]
  cases it.table with
  | false =>
    show d.ht0.size - _ + (d.ht1.size + 1) ≤ _
    omega
  | true =>
    show d.ht1.size - _ + 0 ≤ _
    omega

theorem dictNext_spec (h : d.Ok hash) (hsmall : Small d) {it : DictIterator} (hindex : -1 ≤ it.index)
    (hbetween : it.entry ≠ none → 0 ≤ it.index ∧ Linked d it) :
    ∃ it' r, dictNext d it = some (counted d it, it', r) ∧ 0 ≤ it'.index ∧
      (r = none → Exhausted d it it') ∧ ∀ e, r = some e → Returned d it it' e := by
  have hahead := ahead_le d it
  cases hentry : it.entry with
  | none => exact dictNextLoop_bucket h hsmall it _ hentry hindex (by omega)
  | some q =>
    obtain ⟨hpos, l, s, hsplit, hnext⟩ := hbetween (by rw [hentry]; exact Option.some_ne_none q)
    have hcount : ∀ c : DictIterator, c.index = it.index → counted d c = d := fun c hc =>
      if_neg fun hneg => by omega
    have hrest : ∀ y, Pending d it y ↔ y ∈ s ∨ Later d it y := by
      intro y
      rw [Pending, hentry, hnext, restOf_split (nodup_ids_bucketAt h _ _) hsplit]
      exact or_congr (and_iff_right rfl) Iff.rfl
    cases s with
    | nil =>
      obtain ⟨it', r, hrun, hpos', hdone, hreturned⟩ := dictNextLoop_bucket h hsmall
        { it with entry := none } (d.ht0.size + d.ht1.size + 2) rfl hindex (by
          have hsame : ahead d { it with entry := none } = ahead d it := rfl
          omega)
      have hsame : ∀ y, Pending d { it with entry := none } y ↔ Pending d it y := fun y => by
        rw [hrest]
        refine (pending_of_entry_none { it with entry := none } rfl y).trans ?_
        exact (or_iff_right List.not_mem_nil).symm
      refine ⟨it', r, ?_, hpos', fun hr => ⟨fun y hy => (hdone hr).before y ((hsame y).mpr hy),
        (hdone hr).entry, (hdone hr).after⟩, fun e he => ?_⟩
      · rw [hcount { it with entry := none } rfl, hnext] at hrun
        rw [hcount it rfl, dictNext, dictNextLoop, hentry, hnext]
        exact hrun
      · obtain ⟨hp, he', hi', hl, hrest'⟩ := hreturned e he
        exact ⟨(hsame e).mp hp, he', hi', hl, fun y => by rw [hrest', hsame]⟩
    | cons e s =>
      have hlt : it.index.toNat < (d.ht it.table).size := by
        by_contra hge
        rw [bucketAt_of_le h.toShaped (Nat.le_of_not_lt hge)] at hsplit
        exact absurd hsplit.symm (List.append_ne_nil_of_right_ne_nil l (List.cons_ne_nil e s))
      have hcurrent : current d it = some (bucketAt d it.table it.index.toNat) :=
        getElem?_bucket (h.toShaped.ht it.table) hlt
      refine ⟨{ it with entry := some e.id, nextEntry := s.head?.map DictEntry.id }, some e, ?_, hpos,
        fun hr => absurd hr (Option.some_ne_none e), fun e' he' => ?_⟩
      · rw [dictNext, dictNextLoop, hentry, hnext]
        dsimp only [List.head?_cons, Option.map_some, Option.bind_eq_bind]
        rw [hcurrent, Option.bind_some, deref_split (nodup_ids_bucketAt h _ _) hsplit,
          Option.bind_some, hcount it rfl]
      · obtain rfl := Option.some_inj.mp he'
        exact returned_of_split h hpos hsplit hrest

/-! ### What the caller does between two calls -/

theorem Pending.mem_entries {it : DictIterator} {y : DictEntry K V} (hy : Pending d it y) :
    y ∈ d.entries := by
  rcases hy with ⟨-, hy⟩ | ⟨j, -, hy⟩ | ⟨-, j, hy⟩
  · have hmem : y ∈ bucketAt d it.table it.index.toNat := by
      cases hnext : it.nextEntry with
      | none =>
        rw [hnext] at hy
        exact absurd hy List.not_mem_nil
      | some p =>
        rw [hnext] at hy
        exact (List.dropWhile_suffix _).subset hy
    exact mem_entries_iff.mpr ⟨_, _, hmem⟩
  · exact mem_entries_iff.mpr ⟨_, _, hy⟩
  · exact mem_entries_iff.mpr ⟨_, _, hy⟩

/-- An entry is as much to come as before when the rest of the chain is the same and the buckets
hold it as before. -/
theorem pending_congr {d' : Dict K V} (h : d.Ok hash) (h' : d'.Ok hash) {it : DictIterator}
    {l l' s : List (DictEntry K V)} (hsplit : bucketAt d it.table it.index.toNat = l ++ s)
    (hsplit' : bucketAt d' it.table it.index.toNat = l' ++ s)
    (hnext : it.nextEntry = s.head?.map DictEntry.id) {y : DictEntry K V}
    (hmem : ∀ table j, y ∈ bucketAt d' table j ↔ y ∈ bucketAt d table j) :
    Pending d' it y ↔ Pending d it y := by
  rw [Pending, Pending, hnext, restOf_split (nodup_ids_bucketAt h _ _) hsplit,
    restOf_split (nodup_ids_bucketAt h' _ _) hsplit', Later, Later]
  simp only [hmem]

theorem SameBuckets.linked {d' : Dict K V} (hsame : SameBuckets d d') {it : DictIterator}
    (hl : Linked d it) : Linked d' it := by
  obtain ⟨l, s, hsplit, hnext⟩ := hl
  exact ⟨l, s, (hsame.buckets _ _).trans hsplit, hnext⟩

theorem SameBuckets.pending {d' : Dict K V} (hsame : SameBuckets d d') (it : DictIterator)
    (y : DictEntry K V) : Pending d' it y ↔ Pending d it y := by
  rw [Pending, Pending, Later, Later]
  simp only [hsame.buckets]

theorem Added.pending {d' : Dict K V} {x : DictEntry K V} (h : d.Ok hash) (h' : d'.Ok hash)
    (hadded : Added d x d') {it : DictIterator} (hl : Linked d it) :
    Linked d' it ∧ ∀ y, y ≠ x → (Pending d' it y ↔ Pending d it y) := by
  obtain ⟨table, i, hrep⟩ := hadded.bucket
  obtain ⟨l, s, hsplit, hnext⟩ := hl
  have hchain : ∃ l', bucketAt d' it.table it.index.toNat = l' ++ s := by
    by_cases hat : it.table = table ∧ it.index.toNat = i
    · obtain ⟨rfl, rfl⟩ := hat
      exact ⟨x :: l, by rw [hrep.bucket, hsplit, List.cons_append]⟩
    · exact ⟨l, by rw [hrep.others _ _ hat, hsplit]⟩
  obtain ⟨l', hsplit'⟩ := hchain
  refine ⟨⟨l', s, hsplit', hnext⟩, fun y hne => pending_congr h h' hsplit hsplit' hnext
    fun table' j => ?_⟩
  by_cases hat : table' = table ∧ j = i
  · obtain ⟨rfl, rfl⟩ := hat
    rw [hrep.bucket, List.mem_cons]
    exact or_iff_right hne
  · rw [hrep.others _ _ hat]

theorem Deleted.pending {d' : Dict K V} {x : DictEntry K V} (h : d.Ok hash) (h' : d'.Ok hash)
    (hdeleted : Deleted d x d') {it : DictIterator} (hentry : it.entry.isSome)
    (hl : Linked d it) (hx : ¬ Pending d it x) :
    Linked d' it ∧ ∀ y, y ≠ x → (Pending d' it y ↔ Pending d it y) := by
  obtain ⟨table, i, l₁, l₂, hbucket, hrep⟩ := hdeleted.bucket
  obtain ⟨l, s, hsplit, hnext⟩ := hl
  have hxs : x ∉ s := fun hmem => hx (.inl ⟨hentry, by
    rw [hnext, restOf_split (nodup_ids_bucketAt h _ _) hsplit]
    exact hmem⟩)
  have hchain : ∃ l', bucketAt d' it.table it.index.toNat = l' ++ s := by
    by_cases hat : it.table = table ∧ it.index.toNat = i
    · obtain ⟨rfl, rfl⟩ := hat
      -- The entry stands before the rest of the chain.
      rcases List.append_eq_append_iff.mp (hsplit.symm.trans hbucket) with
        ⟨m, hl₁, hs⟩ | ⟨m, hl', hs⟩
      · exact absurd (hs ▸ List.mem_append_right m List.mem_cons_self) hxs
      · cases m with
        | nil =>
          rw [List.nil_append] at hs
          exact absurd (hs ▸ List.mem_cons_self) hxs
        | cons z m =>
          rw [List.cons_append] at hs
          obtain ⟨-, hl₂⟩ := List.cons.inj hs
          exact ⟨l₁ ++ m, by rw [hrep.bucket, hl₂, List.append_assoc]⟩
    · exact ⟨l, by rw [hrep.others _ _ hat, hsplit]⟩
  obtain ⟨l', hsplit'⟩ := hchain
  refine ⟨⟨l', s, hsplit', hnext⟩, fun y hne => pending_congr h h' hsplit hsplit' hnext
    fun table' j => ?_⟩
  by_cases hat : table' = table ∧ j = i
  · obtain ⟨rfl, rfl⟩ := hat
    rw [hrep.bucket, hbucket, List.mem_append, List.mem_append, List.mem_cons]
    exact or_congr Iff.rfl (or_iff_right hne).symm
  · rw [hrep.others _ _ hat]

end

/-! ### Iterations -/

/-- A dictionary and an iterator, with the entries that were returned, the last one first, the
ids of those the caller deleted, and whether an entry was returned after that. -/
structure Iteration (K V : Type) where
  d : Dict K V
  it : DictIterator
  returned : List (DictEntry K V)
  deleted : List ℕ
  stale : Bool
  finished : Bool

inductive IterationEvent (K V : Type) where
  /-- A call of `dictNext`. -/
  | next
  /-- The caller deletes the entry that was just returned. -/
  | delete
  | add (key : K) (val : V) (canResize : Bool)
  | find (key : K)
  /-- A call of `dictExpand`. -/
  | expand (size : ℕ)

def beginIteration (d : Dict K V) : Iteration K V := ⟨d, dictGetSafeIterator, [], [], false, false⟩

/-- The caller acts after an entry was returned to it. -/
def Iteration.between (w : Iteration K V) : Bool := !w.finished && w.it.entry.isSome

section
variable (hash : K → BitVec 32) [DecidableEq K]

def iterationStep (w : Iteration K V) : IterationEvent K V → Option (Iteration K V)
  | .next =>
    if w.finished then none
    else (dictNext w.d w.it).map fun p => match p.2.2 with
      | some e => { w with
          d := p.1, it := p.2.1, returned := e :: w.returned
          stale := w.stale || decide (e.id ∈ w.deleted) }
      | none => { w with d := p.1, it := p.2.1, finished := true }
  | .delete =>
    match w.between, w.returned with
    | true, e :: _ =>
      if e.id ∈ w.deleted then none
      else (dictGenericDelete hash w.d e.key).map fun p =>
        { w with d := p.1, deleted := e.id :: w.deleted }
    | _, _ => none
  | .add key val canResize =>
    if w.between then (dictAddRaw hash w.d key val canResize).map fun p => { w with d := p.1 }
    else none
  | .find key =>
    if w.between then (dictFind hash w.d key).map fun p => { w with d := p.1 } else none
  | .expand size => if w.between then some { w with d := (dictExpand w.d size).1 } else none

end

/-- No table has `2 ^ 31` buckets or is given as many. -/
def SmallTables (w : Iteration K V) : IterationEvent K V → Prop
  | .add _ _ canResize => Small w.d ∧
      ∀ size, expandSize w.d canResize = some size → dictNextPower size < 2 ^ 31
  | .expand size => Small w.d ∧ dictNextPower size < 2 ^ 31
  | _ => Small w.d

/-- What holds all along an iteration that began with the dictionary `d₀`. -/
structure Sound (hash : K → BitVec 32) (d₀ : Dict K V) (w : Iteration K V) : Prop where
  ok : w.d.Ok hash
  started : w.it = dictGetSafeIterator ∧ w.d = d₀ ∧ w.returned = [] ∨
    0 ≤ w.it.index ∧ w.d.iterators = d₀.iterators + 1
  linked : w.it.entry ≠ none → 0 ≤ w.it.index ∧ Linked w.d w.it
  later : d₀.allocated ≤ w.d.allocated
  old : ∀ e ∈ w.returned, e.id < w.d.allocated
  alive : ∀ e ∈ w.returned, e.id ∈ w.deleted ∨ e ∈ w.d.entries
  gone : ∀ e ∈ w.d.entries, e.id ∉ w.deleted
  deletedOld : ∀ i ∈ w.deleted, i < w.d.allocated
  once : w.returned.Nodup ∧ ∀ e ∈ w.returned, ¬ Pending w.d w.it e
  covered : ∀ e ∈ d₀.entries, e ∈ w.d.entries → e ∈ w.returned ∨ Pending w.d w.it e
  keys : ∀ e ∈ d₀.entries, e ∈ w.d.entries → ∀ x ∈ w.returned, x.key = e.key → x = e
  notStale : w.stale = false
  done : w.finished = true → ∀ y, ¬ Pending w.d w.it y

section
variable {hash : K → BitVec 32} {d₀ : Dict K V} {w : Iteration K V}

theorem Sound.begin (h : d₀.Ok hash) : Sound hash d₀ (beginIteration d₀) where
  ok := h
  started := .inl ⟨rfl, rfl, rfl⟩
  linked := fun hne => absurd rfl hne
  later := Nat.le_refl _
  old := fun _ he => absurd he List.not_mem_nil
  alive := fun _ he => absurd he List.not_mem_nil
  gone := fun _ _ => List.not_mem_nil
  deletedOld := fun _ hi => absurd hi List.not_mem_nil
  once := ⟨List.nodup_nil, fun _ he => absurd he List.not_mem_nil⟩
  covered := fun e he _ => by
    obtain ⟨table, i, hmem⟩ := mem_entries_iff.mp he
    cases table with
    | false =>
      have hpos : (-1 : ℤ) < i := by omega
      exact .inr (.inr (.inl ⟨i, hpos, hmem⟩))
    | true => exact .inr (.inr (.inr ⟨rfl, i, hmem⟩))
  keys := fun _ _ _ _ hx => absurd hx List.not_mem_nil
  notStale := rfl
  done := fun hf => absurd hf Bool.false_ne_true

theorem Sound.counted (hw : Sound hash d₀ w) :
    (counted w.d w.it).iterators = d₀.iterators + 1 := by
  rcases hw.started with ⟨hit, hd, -⟩ | ⟨hpos, hiter⟩
  · rw [hit, hd]
    rfl
  · rw [Dict.counted, if_neg fun hneg => by omega, hiter]

theorem Sound.index (hw : Sound hash d₀ w) : -1 ≤ w.it.index := by
  rcases hw.started with ⟨hit, -, -⟩ | ⟨hpos, -⟩
  · rw [hit]
    exact Int.le_refl (-1)
  · omega

theorem Sound.return (hw : Sound hash d₀ w) (hrunning : w.finished = false) {n : ℤ}
    (hn : n = d₀.iterators + 1) {it : DictIterator} {e : DictEntry K V}
    (hret : Returned w.d w.it it e) : Sound hash d₀ { w with
      d := { w.d with iterators := n }, it, returned := e :: w.returned
      stale := w.stale || decide (e.id ∈ w.deleted) } := by
  have hmem : e ∈ w.d.entries := hret.pending.mem_entries
  refine { ok := ok_iterators hw.ok n
           started := .inr ⟨hret.index, hn⟩
           linked := fun _ => ⟨hret.index, hret.linked⟩
           later := hw.later
           old := List.forall_mem_cons.mpr ⟨hw.ok.fresh e hmem, hw.old⟩
           alive := List.forall_mem_cons.mpr ⟨.inr hmem, hw.alive⟩
           gone := hw.gone
           deletedOld := hw.deletedOld
           once := ⟨List.nodup_cons.mpr ⟨fun hin => hw.once.2 e hin hret.pending, hw.once.1⟩, ?_⟩
           covered := fun x hx hx' => ?_
           keys := fun x hx hx' => List.forall_mem_cons.mpr ⟨fun hkey => ?_, hw.keys x hx hx'⟩
           notStale := ?_
           done := fun hf => absurd (hrunning.symm.trans hf) Bool.false_ne_true }
  · refine List.forall_mem_cons.mpr ⟨fun hp => ((hret.rest e).mp hp).2 rfl, fun x hx hp => ?_⟩
    exact hw.once.2 x hx ((hret.rest x).mp hp).1
  · by_cases hxe : x = e
    · exact .inl (hxe ▸ List.mem_cons_self)
    · rcases hw.covered x hx hx' with hin | hp
      · exact .inl (List.mem_cons_of_mem e hin)
      · exact .inr ((hret.rest x).mpr ⟨hp, hxe⟩)
  · exact List.inj_on_of_nodup_map hw.ok.keys hmem hx' hkey
  · show (w.stale || decide (e.id ∈ w.deleted)) = false
    rw [hw.notStale, Bool.false_or]
    exact decide_eq_false (hw.gone e hmem)

theorem Sound.finish (hw : Sound hash d₀ w) {n : ℤ} (hn : n = d₀.iterators + 1)
    {it : DictIterator} (hpos : 0 ≤ it.index) (hend : Exhausted w.d w.it it) :
    Sound hash d₀ { w with d := { w.d with iterators := n }, it, finished := true } where
  ok := ok_iterators hw.ok n
  started := .inr ⟨hpos, hn⟩
  linked := fun hne => absurd hend.entry hne
  later := hw.later
  old := hw.old
  alive := hw.alive
  gone := hw.gone
  deletedOld := hw.deletedOld
  once := ⟨hw.once.1, fun e _ => hend.after e⟩
  covered := fun e he he' => .inl ((hw.covered e he he').resolve_right (hend.before e))
  keys := hw.keys
  notStale := hw.notStale
  done := fun _ => hend.after

theorem Iteration.between_iff : w.between = true ↔ w.finished = false ∧ w.it.entry ≠ none := by
  rw [Iteration.between, Bool.and_eq_true, Bool.not_eq_true', Option.isSome_iff_ne_none]

theorem Sound.same (hw : Sound hash d₀ w) (hbetween : w.between = true) {d : Dict K V}
    (hok : d.Ok hash) (hsame : SameBuckets w.d d) : Sound hash d₀ { w with d } := by
  obtain ⟨hrunning, hentry⟩ := Iteration.between_iff.mp hbetween
  have hstarted := hw.started.resolve_left fun hstart => hentry (by rw [hstart.1]; rfl)
  obtain ⟨hpos, hl⟩ := hw.linked hentry
  have hentries := hsame.entries
  have halloc := hsame.allocated
  exact {
    ok := hok
    started := .inr ⟨hpos, hsame.iterators.trans hstarted.2⟩
    linked := fun _ => ⟨hpos, hsame.linked hl⟩
    later := halloc ▸ hw.later
    old := halloc ▸ hw.old
    alive := hentries ▸ hw.alive
    gone := hentries ▸ hw.gone
    deletedOld := halloc ▸ hw.deletedOld
    once := ⟨hw.once.1, fun e he hp => hw.once.2 e he ((hsame.pending w.it e).mp hp)⟩
    covered := fun e he he' => (hw.covered e he (hentries ▸ he')).imp_right
      (hsame.pending w.it e).mpr
    keys := fun e he he' => hw.keys e he (hentries ▸ he')
    notStale := hw.notStale
    done := fun hf => absurd (hrunning.symm.trans hf) Bool.false_ne_true }

theorem Sound.add (hw : Sound hash d₀ w) (h₀ : d₀.Ok hash) (hbetween : w.between = true)
    {d : Dict K V} {x : DictEntry K V} (hok : d.Ok hash) (hadded : Added w.d x d) :
    Sound hash d₀ { w with d } := by
  obtain ⟨hrunning, hentry⟩ := Iteration.between_iff.mp hbetween
  have hstarted := hw.started.resolve_left fun hstart => hentry (by rw [hstart.1]; rfl)
  obtain ⟨hpos, hl⟩ := hw.linked hentry
  obtain ⟨hl', hpending⟩ := hadded.pending hw.ok hok hl
  obtain ⟨table, i, hrep⟩ := hadded.bucket
  have hgrow : w.d.allocated < d.allocated := by rw [hadded.allocated]; exact Nat.lt_succ_self _
  have hmem : ∀ e, e ∈ d.entries ↔ e = x ∨ e ∈ w.d.entries := fun e =>
    hadded.entries.mem_iff.trans List.mem_cons
  have hold : ∀ e ∈ w.returned, e ≠ x := fun e he heq =>
    absurd (hw.old e he) (by rw [heq, hadded.id]; exact Nat.lt_irrefl _)
  have hbegan : ∀ e ∈ d₀.entries, e ∈ d.entries → e ≠ x ∧ e ∈ w.d.entries := fun e he he' => by
    have hne : e ≠ x := fun heq => by
      have hlt := (h₀.fresh e he).trans_le hw.later
      rw [heq, hadded.id] at hlt
      exact Nat.lt_irrefl _ hlt
    exact ⟨hne, ((hmem e).mp he').resolve_left hne⟩
  exact {
    ok := hok
    started := .inr ⟨hpos, hrep.iterators.trans hstarted.2⟩
    linked := fun _ => ⟨hpos, hl'⟩
    later := hw.later.trans hgrow.le
    old := fun e he => (hw.old e he).trans hgrow
    alive := fun e he => (hw.alive e he).imp_right fun h => (hmem e).mpr (.inr h)
    gone := fun e he hin => by
      rcases (hmem e).mp he with rfl | he
      · exact absurd (hw.deletedOld _ hin) (by rw [hadded.id]; exact Nat.lt_irrefl _)
      · exact hw.gone e he hin
    deletedOld := fun i hi => (hw.deletedOld i hi).trans hgrow
    once := ⟨hw.once.1, fun e he hp => hw.once.2 e he ((hpending e (hold e he)).mp hp)⟩
    covered := fun e he he' => by
      obtain ⟨hne, hin⟩ := hbegan e he he'
      exact (hw.covered e he hin).imp_right (hpending e hne).mpr
    keys := fun e he he' => hw.keys e he (hbegan e he he').2
    notStale := hw.notStale
    done := fun hf => absurd (hrunning.symm.trans hf) Bool.false_ne_true }

theorem Sound.delete (hw : Sound hash d₀ w) (hbetween : w.between = true) {d : Dict K V}
    {x : DictEntry K V} (hx : x ∈ w.returned) (hok : d.Ok hash) (hdeleted : Deleted w.d x d) :
    Sound hash d₀ { w with d, deleted := x.id :: w.deleted } := by
  obtain ⟨hrunning, hentry⟩ := Iteration.between_iff.mp hbetween
  have hstarted := hw.started.resolve_left fun hstart => hentry (by rw [hstart.1]; rfl)
  obtain ⟨hpos, hl⟩ := hw.linked hentry
  obtain ⟨hl', hpending⟩ := hdeleted.pending hw.ok hok (Option.isSome_iff_ne_none.mpr hentry) hl
    (hw.once.2 x hx)
  obtain ⟨table, i, l₁, l₂, -, hrep⟩ := hdeleted.bucket
  have halloc := hdeleted.allocated
  have hmem : ∀ e, e ∈ w.d.entries ↔ e = x ∨ e ∈ d.entries := fun e =>
    hdeleted.entries.mem_iff.trans List.mem_cons
  have hxid : ∀ e ∈ d.entries, e.id ≠ x.id := fun e he heq => by
    have hids := (hdeleted.entries.map DictEntry.id).nodup_iff.mp hw.ok.ids
    exact (List.nodup_cons.mp hids).1 (heq ▸ List.mem_map_of_mem he)
  have hsub : ∀ e ∈ d.entries, e ∈ w.d.entries := fun e he => (hmem e).mpr (.inr he)
  exact {
    ok := hok
    started := .inr ⟨hpos, hrep.iterators.trans hstarted.2⟩
    linked := fun _ => ⟨hpos, hl'⟩
    later := halloc ▸ hw.later
    old := halloc ▸ hw.old
    alive := fun e he => by
      rcases hw.alive e he with hin | hin
      · exact .inl (List.mem_cons_of_mem _ hin)
      · rcases (hmem e).mp hin with rfl | hin
        · exact .inl List.mem_cons_self
        · exact .inr hin
    gone := fun e he hin => by
      rcases List.mem_cons.mp hin with heq | hin
      · exact hxid e he heq
      · exact hw.gone e (hsub e he) hin
    deletedOld := halloc ▸ List.forall_mem_cons.mpr ⟨hw.old x hx, hw.deletedOld⟩
    once := ⟨hw.once.1, fun e he hp => by
      by_cases hex : e = x
      · exact hxid e hp.mem_entries (hex ▸ rfl)
      · exact hw.once.2 e he ((hpending e hex).mp hp)⟩
    covered := fun e he he' => (hw.covered e he (hsub e he')).imp_right
      (hpending e fun heq => hxid e he' (heq ▸ rfl)).mpr
    keys := fun e he he' => hw.keys e he (hsub e he')
    notStale := hw.notStale
    done := fun hf => absurd (hrunning.symm.trans hf) Bool.false_ne_true }

theorem Sound.step [DecidableEq K] (hw : Sound hash d₀ w) (h₀ : d₀.Ok hash) (hiter : 0 ≤ d₀.iterators)
    {e : IterationEvent K V} {w' : Iteration K V} (hsmall : SmallTables w e)
    (hstep : iterationStep hash w e = some w') : Sound hash d₀ w' := by
  have hopen : w.between = true → w.d.iterators ≠ 0 := fun hbetween => by
    have hentry := (Iteration.between_iff.mp hbetween).2
    have hstarted := hw.started.resolve_left fun hstart => hentry (by rw [hstart.1]; rfl)
    omega
  cases e with
  | next =>
    rw [iterationStep] at hstep
    split at hstep
    · cases hstep
    · rename_i hnot
      have hrunning : w.finished = false := Bool.eq_false_iff.mpr hnot
      obtain ⟨it', r, hnext, hpos, hend, hret⟩ :=
        dictNext_spec hw.ok hsmall hw.index hw.linked
      have hcount := hw.counted
      obtain ⟨n, hn⟩ := counted_cases w.d w.it
      rw [hn] at hnext hcount
      rw [hnext, Option.map_some] at hstep
      obtain rfl := Option.some_inj.mp hstep
      cases r with
      | none => exact hw.finish hcount hpos (hend rfl)
      | some e => exact hw.return hrunning hcount (hret e rfl)
  | delete =>
    rw [iterationStep] at hstep
    split at hstep
    · rename_i x rest hbetween hreturned
      split at hstep
      · cases hstep
      · rename_i hlive
        obtain ⟨p, hdelete, hstep⟩ := Option.map_eq_some_iff.mp hstep
        subst hstep
        have hx : x ∈ w.returned := hreturned ▸ List.mem_cons_self
        have hmem : x ∈ w.d.entries := (hw.alive x hx).resolve_left hlive
        obtain ⟨hok, hdeleted⟩ := dictGenericDelete_spec hw.ok (hopen hbetween) hmem hdelete
        exact hw.delete hbetween hx hok hdeleted
    · cases hstep
  | add key val canResize =>
    rw [iterationStep] at hstep
    split at hstep
    · rename_i hbetween
      obtain ⟨p, hadd, hstep⟩ := Option.map_eq_some_iff.mp hstep
      subst hstep
      obtain ⟨hok, d₁, hok₁, hsame, hadded⟩ :=
        dictAddRaw_spec hw.ok (hopen hbetween) hsmall.2 hadd
      have hw₁ := hw.same hbetween hok₁ hsame
      rcases hadded with heq | hadded
      · rw [heq]
        exact hw₁
      · exact hw₁.add h₀ hbetween hok hadded
    · cases hstep
  | find key =>
    rw [iterationStep] at hstep
    split at hstep
    · rename_i hbetween
      obtain ⟨p, hfind, hstep⟩ := Option.map_eq_some_iff.mp hstep
      subst hstep
      rw [dictFind_spec (hopen hbetween) hfind]
      exact hw
    · cases hstep
  | expand size =>
    rw [iterationStep] at hstep
    split at hstep
    · rename_i hbetween
      obtain rfl := Option.some_inj.mp hstep
      obtain ⟨hok, hsame⟩ := dictExpand_spec hw.ok hsmall.2
      exact hw.same hbetween hok hsame
    · cases hstep

theorem Sound.returned_once [DecidableEq K] (hw : Sound hash d₀ w) (hfinished : w.finished = true)
    {e : DictEntry K V} (he : e ∈ d₀.entries) (he' : e ∈ w.d.entries) :
    w.returned.filter (fun x => x.key = e.key) = [e] := by
  have hmem : e ∈ w.returned := (hw.covered e he he').resolve_right (hw.done hfinished e)
  have hperm : (w.returned.filter fun x => x.key = e.key).Perm [e] := by
    refine (List.perm_ext_iff_of_nodup (hw.once.1.filter _) (List.nodup_singleton e)).mpr fun x => ?_
    rw [List.mem_filter, List.mem_singleton, decide_eq_true_iff]
    constructor
    · rintro ⟨hx, hkey⟩
      exact hw.keys e he he' x hx hkey
    · rintro rfl
      exact ⟨hmem, rfl⟩
  exact List.perm_singleton.mp hperm

theorem Sound.released (hw : Sound hash d₀ w) :
    (dictReleaseIterator w.d w.it).iterators = d₀.iterators := by
  rw [dictReleaseIterator]
  rcases hw.started with ⟨hit, hd, -⟩ | ⟨hpos, hiter⟩
  · rw [hit, hd, if_pos ⟨rfl, rfl⟩]
  · rw [if_neg fun hneg => by omega]
    dsimp only
    omega

theorem Sound.next_isSome [DecidableEq K] (hw : Sound hash d₀ w) (hsmall : Small w.d)
    (hrunning : w.finished = false) : (iterationStep hash w .next).isSome := by
  obtain ⟨it', r, hnext, -⟩ := dictNext_spec hw.ok hsmall hw.index hw.linked
  rw [iterationStep, hrunning, if_neg Bool.false_ne_true, hnext]
  rfl

end

/-- As long as no table has `2 ^ 31` buckets, every key that is there from the beginning to the
end of an iteration is returned once, no entry is returned after the caller deleted it, the
iteration does not get stuck, and afterwards the number of iterators is the one from before. -/
theorem safe_iteration [DecidableEq K] (hash : K → BitVec 32) {d₀ : Dict K V} (h₀ : d₀.Ok hash)
    (hiter : 0 ≤ d₀.iterators) {es : List (IterationEvent K V)} {w : Iteration K V}
    (hrun : Runs.run (iterationStep hash) (beginIteration d₀) es = some w)
    (hsmall : Runs.AllSteps (iterationStep hash) SmallTables (beginIteration d₀) es) :
    (w.finished = true → ∀ e ∈ d₀.entries, e ∈ w.d.entries →
      w.returned.filter (fun x => x.key = e.key) = [e]) ∧
    w.returned.Nodup ∧ w.stale = false ∧
    (dictReleaseIterator w.d w.it).iterators = d₀.iterators ∧
    (w.finished = false → Small w.d → (iterationStep hash w .next).isSome) := by
  have hw : Sound hash d₀ w := Runs.run_invariant_of_allSteps (I := Sound hash d₀)
    (fun _ _ _ hw hs hstep => hw.step h₀ hiter hs hstep) (Sound.begin h₀) hsmall hrun
  exact ⟨fun hf e he he' => hw.returned_once hf he he', hw.once.1, hw.notStale, hw.released,
    fun hf hs => hw.next_isSome hs hf⟩

/-- Two keys of the same bucket. -/
def oneChain : Dict ℕ ℕ where
  ht0 := ⟨[[⟨1, 4, 40⟩, ⟨0, 0, 10⟩], [], [], []], 4, 3, 2⟩
  ht1 := dictReset
  rehashidx := -1
  iterators := 0
  allocated := 2

theorem ok_oneChain : oneChain.Ok (BitVec.ofNat 32) where
  ht0 := ⟨rfl, rfl, rfl, .inr ⟨2, by decide, rfl⟩⟩
  ht1 := ⟨rfl, rfl, rfl, .inl rfl⟩
  rehashing := fun h => absurd h (by decide)
  settled := fun _ => rfl
  placed := fun table i e he => by
    have hmem : e ∈ oneChain.entries := mem_entries_iff.mpr ⟨table, i, he⟩
    have h0 : index (BitVec.ofNat 32) (oneChain.ht table) e.key = 0 := by
      have hkey : e.key = 4 ∨ e.key = 0 := by
        rcases List.mem_cons.mp hmem with rfl | hmem
        · exact .inl rfl
        · rcases List.mem_singleton.mp hmem with rfl
          exact .inr rfl
      cases table <;> rcases hkey with hkey | hkey <;> rw [hkey] <;> rfl
    cases table with
    | false =>
      match i with
      | 0 => exact h0
      | 1 | 2 | 3 => exact absurd he List.not_mem_nil
      | i + 4 => exact absurd he List.not_mem_nil
    | true => exact absurd he List.not_mem_nil
  keys := by decide
  ids := by decide
  fresh := by decide

/-- The first entry is deleted, another one is added, and the table is expanded. -/
theorem safe_iteration_oneChain : ∃ w, Runs.run (iterationStep (BitVec.ofNat 32))
      (beginIteration oneChain) [.next, .delete, .add 8 80 true, .expand 8, .next, .next]
        = some w ∧ w.finished = true ∧
    (w.finished = true → ∀ e ∈ oneChain.entries, e ∈ w.d.entries →
      w.returned.filter (fun x => x.key = e.key) = [e]) ∧
    w.returned.Nodup ∧ w.stale = false ∧
    (dictReleaseIterator w.d w.it).iterators = oneChain.iterators ∧
    (w.finished = false → Small w.d →
      (iterationStep (BitVec.ofNat 32) w .next).isSome) := by
  have hover : (Runs.run (iterationStep (BitVec.ofNat 32)) (beginIteration oneChain)
      [.next, .delete, .add 8 80 true, .expand 8, .next, .next]).map Iteration.finished
        = some true := rfl
  obtain ⟨w, hrun, hfinished⟩ := Option.map_eq_some_iff.mp hover
  refine ⟨w, hrun, hfinished, safe_iteration (BitVec.ofNat 32) ok_oneChain (by decide) hrun ?_⟩
  have hsmall : ∀ d : Dict ℕ ℕ, d.ht0.size < 9 → d.ht1.size < 9 → Small d := fun d h0 h1 table => by
    cases table with
    | false => exact h0.trans (by decide)
    | true => exact h1.trans (by decide)
  refine .cons (hsmall _ (by decide) (by decide)) rfl ?_
  refine .cons (hsmall _ (by decide) (by decide)) rfl ?_
  refine .cons ⟨hsmall _ (by decide) (by decide), fun size hsize => nomatch hsize⟩ rfl ?_
  refine .cons ⟨hsmall _ (by decide) (by decide), by decide⟩ rfl ?_
  refine .cons (hsmall _ (by decide) (by decide)) rfl ?_
  exact .cons (hsmall _ (by decide) (by decide)) rfl trivial

/-! ### A table of `2 ^ 31` buckets -/

/-- A table of `2 ^ 31` buckets in an otherwise empty dictionary. -/
def hugeTable : Dict ℕ ℕ := { dictCreate with ht0 := emptyTable (2 ^ 31) }

theorem dictExpand_hugeTable : dictExpand (dictCreate : Dict ℕ ℕ) (2 ^ 31) = (hugeTable, true) := by
  have hpow : dictNextPower (2 ^ 31) = 2 ^ 31 := by decide +kernel
  rw [dictExpand, if_neg (by decide), if_pos (show dictCreate.ht0.table.isEmpty = true from rfl),
    hpow]
  rfl

theorem ok_hugeTable : hugeTable.Ok (BitVec.ofNat 32) := by
  have hnone : hugeTable.entries = [] := by
    rw [entries, hugeTable]
    dsimp only
    rw [emptyTable_entries]
    rfl
  have hnone' : ∀ e ∈ hugeTable.entries, False := fun e he => by
    rw [hnone] at he
    exact List.not_mem_nil he
  refine { ht0 := ⟨?_, rfl, ?_, .inr ⟨31, by decide, rfl⟩⟩, ht1 := ⟨rfl, rfl, rfl, .inl rfl⟩
           rehashing := fun h => absurd h (by decide), settled := fun _ => rfl
           placed := fun table i e he => (hnone' e (mem_entries_iff.mpr ⟨table, i, he⟩)).elim
           keys := hnone ▸ List.nodup_nil, ids := hnone ▸ List.nodup_nil
           fresh := fun e he => (hnone' e he).elim }
  · rw [hugeTable, emptyTable, List.length_replicate]
    decide +kernel
  · rw [hugeTable, emptyTable_entries]
    rfl

theorem getElem?_hugeTable : hugeTable.ht0.table[0]? = some [] := by
  rw [hugeTable, emptyTable]
  dsimp only
  rw [List.getElem?_replicate, if_pos (by decide +kernel)]

/-- `hugeTable` with the key 0. -/
def hugeWithKey : Dict ℕ ℕ := hugeTable.replace false 0 [⟨0, 0, 7⟩] 1 1

theorem dictAddRaw_hugeTable :
    dictAddRaw (BitVec.ofNat 32) hugeTable 0 7 true = some (hugeWithKey, true) := by
  have hexpand : dictExpandIfNeeded hugeTable true = (hugeTable, true) := by
    rw [dictExpandIfNeeded, if_neg (by decide), if_neg (by decide), if_neg (by decide)]
  have hindex : index (BitVec.ofNat 32) hugeTable.ht0 0 = 0 := Nat.zero_and _
  have hkey : dictKeyIndex (BitVec.ofNat 32) hugeTable 0 true = some (hugeTable, 0) := by
    rw [dictKeyIndex, hexpand]
    dsimp only
    rw [hindex, getElem?_hugeTable]
    rfl
  rw [dictAddRaw, dictRehashStep, if_neg (by decide)]
  dsimp only [Option.bind_eq_bind, Option.bind_some]
  rw [hkey]
  dsimp only [Option.bind_some]
  rw [if_neg (by decide), if_neg (by decide)]
  show hugeTable.ht0.table[0]?.bind _ = _
  rw [getElem?_hugeTable]
  rfl

theorem hugeWithKey_spec : hugeWithKey.Ok (BitVec.ofNat 32) ∧ ⟨0, 0, 7⟩ ∈ hugeWithKey.entries := by
  have hindex : index (BitVec.ofNat 32) (hugeTable.ht false) 0 = 0 := Nat.zero_and _
  have hlt : index (BitVec.ofNat 32) (hugeTable.ht false) 0 < (hugeTable.ht false).size := by
    rw [hindex]
    exact Nat.two_pow_pos 31
  have hbucket : bucketAt hugeTable false 0 = [] := by
    rw [bucketAt, bucket]
    show hugeTable.ht0.table[0]?.getD [] = []
    rw [getElem?_hugeTable]
    rfl
  obtain ⟨hok, hadded⟩ := added_replace ok_hugeTable hlt (fun ht => ht)
    (fun e he => by
      rw [entries, hugeTable, emptyTable_entries] at he
      exact absurd he List.not_mem_nil) 7
  rw [hindex, hbucket] at hok hadded
  exact ⟨hok, hadded.entries.mem_iff.mpr List.mem_cons_self⟩

/-- In a dictionary that was expanded to `2 ^ 31` buckets and has one key, the iteration is over
at once. -/
theorem safe_iteration_hugeTable : ∃ (d : Dict ℕ ℕ) (w : Iteration ℕ ℕ) (e : DictEntry ℕ ℕ),
    dictAddRaw (BitVec.ofNat 32) (dictExpand dictCreate (2 ^ 31)).1 0 7 true = some (d, true) ∧
    d.Ok (BitVec.ofNat 32) ∧ d.iterators = 0 ∧
    Runs.run (iterationStep (BitVec.ofNat 32)) (beginIteration d) [.next] = some w ∧
    w.finished = true ∧ e ∈ d.entries ∧ e ∈ w.d.entries ∧
    w.returned.filter (fun x => x.key = e.key) = [] := by
  obtain ⟨hok, hmem⟩ := hugeWithKey_spec
  have hstop : nextBucket (counted hugeWithKey dictGetSafeIterator) dictGetSafeIterator = none := by
    have hint : toInt (2 ^ 31) = -2 ^ 31 := by decide +kernel
    rw [nextBucket]
    show (if -1 + 1 ≥ toInt (2 ^ 31) then _ else _) = none
    rw [hint, if_pos (by decide), if_neg (by decide)]
  have hnext : dictNext hugeWithKey dictGetSafeIterator
      = some (counted hugeWithKey dictGetSafeIterator, ⟨false, 0, none, none⟩, none) := by
    rw [dictNext, dictNextLoop, ← counted]
    dsimp only [dictGetSafeIterator] at hstop ⊢
    rw [hstop]
    rfl
  refine ⟨hugeWithKey, { beginIteration hugeWithKey with
    d := counted hugeWithKey dictGetSafeIterator, it := ⟨false, 0, none, none⟩, finished := true },
    ⟨0, 0, 7⟩, ?_, hok, rfl, ?_, rfl, hmem, hmem, rfl⟩
  · rw [dictExpand_hugeTable]
    exact dictAddRaw_hugeTable
  · refine Runs.run_cons_of_step ?_ (Runs.run_nil _)
    rw [iterationStep, if_neg (show ¬ (beginIteration hugeWithKey).finished = true from
      Bool.false_ne_true)]
    show (dictNext hugeWithKey dictGetSafeIterator).map _ = _
    rw [hnext]
    rfl

end Dict

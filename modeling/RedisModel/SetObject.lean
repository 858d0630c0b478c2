/-
Set objects (the `setType…` functions of `t_set.c`).

A set is an `intset` or, if it has other members or too many, a `dict`.  Both carry their invariant:
the integers are increasing, and the keys pairwise different.

* `IntValues.holds_intsetAdd` — an intset in memory follows `intsetAdd` on its values;
* `addAll_empty` — a list of new members can be added, unless they outgrow an intset.
-/
import RedisModel.IntsetRefine
import RedisModel.Keyspace
import RedisModel.StringObject

open ByteBuffer Except Intset StringNumber

/-! ### Encodings -/

/-- Why a command does not go on: its random choices are used up, it accesses memory out of bounds
or divides by zero, or an assertion fails. -/
inductive Stop where
  | choices
  | crash
  | assertion
  | keyspace (failure : Failure)
  deriving DecidableEq

/-- The values of an intset. -/
structure IntValues where
  values : List ℤ
  increasing : values.Pairwise (· < ·)
  isLong : ∀ v ∈ values, IsLong v

/-- The keys of a `dict`, in the order in which an iterator visits them. -/
structure Members where
  keys : List Bytes
  nodup : keys.Nodup

/-- A set in one of its encodings. -/
inductive SetObject where
  | intset (values : IntValues)
  | ht (dict : Members)

/-- The encoding of an intset to which these values were added. -/
def encodingOf (vs : List ℤ) : ℕ :=
  vs.foldr (fun v enc => max (intsetValueEncoding v) enc) intsetEncInt16

/-- `dictAdd`; `none` is `DICT_ERR`. -/
def dictAdd (d : Members) (key : Bytes) : Option Members :=
  if h : key ∈ d.keys then none
  else some ⟨key :: d.keys, List.nodup_cons.mpr ⟨h, d.nodup⟩⟩

theorem dictAdd_new {d : Members} {key : Bytes} (h : key ∉ d.keys) :
    ∃ d', dictAdd d key = some d' ∧ d'.keys = key :: d.keys :=
  ⟨_, dif_neg h, rfl⟩

def dictDelete (d : Members) (key : Bytes) : Members := ⟨d.keys.erase key, d.nodup.erase key⟩

/-- One of several keys, of a `dict` in `dictGetRandomKey`, or of an intset, whose length then
divides a random number. -/
def pick (keys : List Bytes) (choice : ℕ) : Except Stop Bytes :=
  match keys[choice % keys.length]? with
  | some key => .ok key
  | none => .error .crash

theorem pick_ok {keys : List Bytes} (h : 0 < keys.length) (choice : ℕ) :
    ∃ key ∈ keys, pick keys choice = .ok key := by
  have hlt : choice % keys.length < keys.length := Nat.mod_lt _ h
  rw [pick, List.getElem?_eq_getElem hlt]
  exact ⟨_, List.getElem_mem hlt, rfl⟩

theorem exists_pick {keys : List Bytes} {key : Bytes} (h : key ∈ keys) :
    ∃ choice, pick keys choice = .ok key := by
  obtain ⟨i, hi, rfl⟩ := List.getElem_of_mem h
  refine ⟨i, ?_⟩
  rw [pick, Nat.mod_eq_of_lt hi, List.getElem?_eq_getElem hi]

theorem increasing_orderedInsert {xs : List ℤ} {v : ℤ} (h : xs.Pairwise (· < ·)) (hv : v ∉ xs) :
    (xs.orderedInsert (· ≤ ·) v).Pairwise (· < ·) := by
  have hnodup : (xs.orderedInsert (· ≤ ·) v).Nodup :=
    (List.perm_orderedInsert (· ≤ ·) v xs).nodup_iff.mpr
      (List.nodup_cons.mpr ⟨hv, h.imp fun hlt => hlt.ne⟩)
  exact ((h.imp fun hlt => hlt.le).orderedInsert v).imp₂ (fun _ _ hle hne => lt_of_le_of_ne hle hne)
    hnodup

/-- `intsetNew`. -/
def IntValues.empty : IntValues := ⟨[], .nil, nofun⟩

/-- `intsetAdd`: the new set and `*success`.  The size of the array is a `uint32_t`, which values
of 4 GB exceed. -/
def IntValues.intsetAdd (xs : IntValues) (v : ℤ) (hv : IsLong v) : Except Stop (IntValues × Bool) :=
  if h : v ∈ xs.values then .ok (xs, false)
  else if (xs.values.length + 1) * encodingOf (v :: xs.values) < 2 ^ 32 then
    .ok ({ values := xs.values.orderedInsert (· ≤ ·) v
           increasing := increasing_orderedInsert xs.increasing h
           isLong := fun w hw => ((List.mem_orderedInsert _).mp hw).elim (fun heq => heq ▸ hv)
             (xs.isLong w) }, true)
  else .error .crash

theorem isLong_string2ll {s : Bytes} {v : ℤ} (h : string2ll s = some v) : IsLong v :=
  ⟨(string2ll_range h).1, Int.lt_of_le_sub_one (string2ll_range h).2⟩

theorem ll2string_injOn {v w : ℤ} (hv : IsLong v) (hw : IsLong w) (h : ll2string v = ll2string w) :
    v = w := by
  have hback := congrArg string2ll h
  rwa [string2ll_ll2string hv.1 (Int.le_sub_one_of_lt hv.2),
    string2ll_ll2string hw.1 (Int.le_sub_one_of_lt hw.2), Option.some_inj] at hback

theorem IntValues.nodup_texts (xs : IntValues) : (xs.values.map ll2string).Nodup :=
  List.Nodup.map_on (fun _ hv _ hw heq => ll2string_injOn (xs.isLong _ hv) (xs.isLong _ hw) heq)
    (xs.increasing.imp fun hlt => hlt.ne)

namespace SetObject

/-- The elements that `setTypeNextObject` returns, one after the other. -/
def texts : SetObject → List Bytes
  | intset xs => xs.values.map ll2string
  | ht d => d.keys

def setTypeSize : SetObject → ℕ
  | intset xs => xs.values.length
  | ht d => d.keys.length

/-- `setTypeConvert`; the new keys are different, as the integers are. -/
def setTypeConvert (xs : IntValues) : Members := ⟨xs.values.map ll2string, xs.nodup_texts⟩

/-- `setTypeRandomElement`, when the random number is `choice`. -/
def setTypeRandomElement (o : SetObject) (choice : ℕ) : Except Stop Bytes := pick o.texts choice

/-- `setTypeAdd`, with the result 1 or 0. -/
def setTypeAdd (setMaxIntsetEntries : ℕ) (o : SetObject) (value : Bytes) :
    Except Stop (SetObject × ℕ) :=
  match o with
  | ht d =>
    match dictAdd d value with
    | some d => .ok (ht d, 1)
    | none => .ok (ht d, 0)
  | intset xs =>
    match h : string2ll value with
    | some llval => do
      let (xs, success) ← xs.intsetAdd llval (isLong_string2ll h)
      if success then
        if xs.values.length > setMaxIntsetEntries then .ok (ht (setTypeConvert xs), 1)
        else .ok (intset xs, 1)
      else .ok (intset xs, 0)
    | none =>
      match dictAdd (setTypeConvert xs) value with
      | some d => .ok (ht d, 1)
      | none => .error .assertion

/-- Elements are added one after the other; the number of those that were new is counted. -/
def addAll (setMaxIntsetEntries : ℕ) : SetObject → List Bytes → ℕ → Except Stop (SetObject × ℕ)
  | o, [], cardinality => .ok (o, cardinality)
  | o, ele :: rest, cardinality => do
    let (o, added) ← setTypeAdd setMaxIntsetEntries o ele
    addAll setMaxIntsetEntries o rest (cardinality + added)

/-! ### The elements -/

theorem nodup_texts : ∀ o : SetObject, o.texts.Nodup
  | intset xs => xs.nodup_texts
  | ht d => d.nodup

@[simp] theorem length_texts (o : SetObject) : o.texts.length = o.setTypeSize := by
  cases o with
  | intset xs => exact List.length_map ll2string
  | ht d => rfl

end SetObject

/-! ### Adding new members -/

@[simp] theorem encodingOf_cons (v : ℤ) (vs : List ℤ) :
    encodingOf (v :: vs) = max (intsetValueEncoding v) (encodingOf vs) := rfl

theorem encodingOf_perm {vs ws : List ℤ} (h : vs.Perm ws) : encodingOf vs = encodingOf ws :=
  h.foldr_eq' (fun _ _ _ _ _ => by omega) _

theorem IntValues.intsetAdd_new {xs : IntValues} {v : ℤ} (hv : IsLong v) (hnot : v ∉ xs.values) :
    if (xs.values.length + 1) * encodingOf (v :: xs.values) < 2 ^ 32 then
      ∃ xs' : IntValues, xs.intsetAdd v hv = .ok (xs', true) ∧ xs'.values.Perm (v :: xs.values)
    else xs.intsetAdd v hv = .error .crash := by
  unfold IntValues.intsetAdd
  rw [dif_neg hnot]
  split
  · exact ⟨_, rfl, List.perm_orderedInsert _ _ _⟩
  · rfl

theorem eq_of_increasing {xs ys : List ℤ} (hxs : xs.Pairwise (· < ·)) (hys : ys.Pairwise (· < ·))
    (h : ∀ v, v ∈ xs ↔ v ∈ ys) : xs = ys :=
  ((List.perm_ext_iff_of_nodup (hxs.imp fun hlt => hlt.ne) (hys.imp fun hlt => hlt.ne)).mpr
    h).eq_of_pairwise (fun _ _ _ _ hle hge => absurd hge hle.asymm) hxs hys

theorem IntValues.holds_intsetAdd (junk : ℕ → UInt8) {is : Intset} {xs xs' : IntValues} {v : ℤ}
    {added : Bool} (hv : IsLong v) (h : Holds is xs.values)
    (henc : is.encoding = encodingOf xs.values) (hlen : xs.values.length < 2 ^ 30)
    (hadd : xs.intsetAdd v hv = .ok (xs', added)) :
    ∃ is', Intset.intsetAdd junk is v = some (is', added) ∧ Holds is' xs'.values ∧
      is'.encoding = encodingOf xs'.values := by
  have hspec := @intsetAdd_spec junk is xs.values v h ⟨hv.1, Int.le_sub_one_of_lt hv.2⟩ hlen
  by_cases hmem : v ∈ xs.values
  · obtain ⟨is', ys, hrun, hholds, hys, henc'⟩ := hspec fun hnot => absurd hmem hnot
    rw [IntValues.intsetAdd, dif_pos hmem, Except.ok.injEq, Prod.mk.injEq] at hadd
    obtain ⟨rfl, rfl⟩ := hadd
    obtain rfl := eq_of_increasing hholds.sorted xs.increasing fun w => by
      rw [hys, or_iff_right_of_imp (fun heq => heq ▸ hmem)]
    rw [if_pos hmem] at henc'
    exact ⟨is', by rw [hrun, decide_eq_false (not_not.mpr hmem)], hholds, henc'.trans henc⟩
  · have hnew := intsetAdd_new hv hmem
    split at hnew
    · rename_i hroom
      obtain ⟨xs₁, hxs₁, hperm⟩ := hnew
      rw [hadd, Except.ok.injEq, Prod.mk.injEq] at hxs₁
      obtain ⟨rfl, rfl⟩ := hxs₁
      obtain ⟨is', ys, hrun, hholds, hys, henc'⟩ := hspec fun _ => by
        rwa [henc, max_comm, ← encodingOf_cons]
      obtain rfl := eq_of_increasing hholds.sorted xs'.increasing fun w => by
        rw [hys, hperm.mem_iff, List.mem_cons]
      rw [if_neg hmem, henc, max_comm, ← encodingOf_cons, ← encodingOf_perm hperm] at henc'
      exact ⟨is', by rw [hrun, decide_eq_true hmem], hholds, henc'⟩
    · rw [hadd] at hnew
      cases hnew

/-- The integers at the start of a list of elements, `n` at most. -/
def leadingInts : ℕ → List Bytes → List ℤ
  | 0, _ => []
  | _ + 1, [] => []
  | n + 1, ele :: rest =>
    match string2ll ele with
    | some v => v :: leadingInts n rest
    | none => []

/-- The integers before the set is converted take less than 4 GB. -/
def FitsIntset (setMaxIntsetEntries : ℕ) (eles : List Bytes) : Prop :=
  (leadingInts (setMaxIntsetEntries + 1) eles).length *
    encodingOf (leadingInts (setMaxIntsetEntries + 1) eles) < 2 ^ 32

instance (setMaxIntsetEntries : ℕ) (eles : List Bytes) :
    Decidable (FitsIntset setMaxIntsetEntries eles) := Nat.decLt _ _

theorem encodingOf_nil_le (vs : List ℤ) : encodingOf [] ≤ encodingOf vs := by
  induction vs with
  | nil => exact le_rfl
  | cons v vs ih => exact ih.trans (le_max_right _ _)

theorem encodingOf_append (vs ws : List ℤ) :
    encodingOf (vs ++ ws) = max (encodingOf vs) (encodingOf ws) := by
  induction vs with
  | nil => exact (max_eq_right (encodingOf_nil_le ws)).symm
  | cons v vs ih => rw [List.cons_append, encodingOf_cons, ih, encodingOf_cons, max_assoc]

namespace SetObject
variable {maxEntries : ℕ}

theorem addAll_ht {eles : List Bytes} : ∀ {d : Members} {n : ℕ}, (eles ++ d.keys).Nodup →
    ∃ o, addAll maxEntries (ht d) eles n = .ok (o, n + eles.length) ∧
      o.texts.Perm (eles ++ d.keys) := by
  induction eles with
  | nil => exact fun _ => ⟨_, rfl, .refl _⟩
  | cons ele rest ih =>
    intro d n hnodup
    have hperm : (rest ++ ele :: d.keys).Perm (ele :: (rest ++ d.keys)) := List.perm_middle
    obtain ⟨hnot, -⟩ := List.nodup_cons.mp hnodup
    obtain ⟨d', hadd, hd'⟩ := dictAdd_new (d := d) fun hmem => hnot (List.mem_append_right _ hmem)
    rw [← hd'] at hperm
    obtain ⟨o, hrun, ho⟩ := @ih d' (n + 1) (hperm.nodup_iff.mpr hnodup)
    refine ⟨o, ?_, ho.trans hperm⟩
    rw [addAll, setTypeAdd, hadd]
    exact hrun.trans (by rw [List.length_cons, Nat.add_assoc, Nat.add_comm 1])

theorem setTypeAdd_of_int {xs : IntValues} {value : Bytes} {v : ℤ} (h : string2ll value = some v)
    (hnot : v ∉ xs.values) :
    if (xs.values.length + 1) * encodingOf (v :: xs.values) < 2 ^ 32 then
      ∃ xs' : IntValues, setTypeAdd maxEntries (intset xs) value = .ok (if xs'.values.length >
          maxEntries then ht (setTypeConvert xs') else intset xs', 1) ∧
        xs'.values.Perm (v :: xs.values)
    else setTypeAdd maxEntries (intset xs) value = .error .crash := by
  have hrun : setTypeAdd maxEntries (intset xs) value = (do
      let r ← xs.intsetAdd v (isLong_string2ll h)
      if r.2 then
        if r.1.values.length > maxEntries then .ok (ht (setTypeConvert r.1), 1)
        else .ok (intset r.1, 1)
      else .ok (intset r.1, 0)) := by
    unfold setTypeAdd
    dsimp only
    split
    · rename_i w hw
      obtain rfl := Option.some_inj.mp (h.symm.trans hw)
      rfl
    · rename_i hnone
      cases h.symm.trans hnone
  have hnew := IntValues.intsetAdd_new (isLong_string2ll h) hnot
  rw [hrun]
  split at hnew
  · rename_i hroom
    obtain ⟨xs', hadd, hvalues⟩ := hnew
    rw [if_pos hroom, hadd, ok_bind]
    refine ⟨xs', ?_, hvalues⟩
    dsimp only
    rw [if_pos rfl]
    split <;> rfl
  · rename_i hroom
    rw [if_neg hroom, hnew]
    rfl

theorem setTypeAdd_of_text {xs : IntValues} {value : Bytes} (h : string2ll value = none)
    (hnot : value ∉ (intset xs).texts) : ∃ d,
      setTypeAdd maxEntries (intset xs) value = .ok (ht d, 1) ∧
      d.keys = value :: (intset xs).texts := by
  obtain ⟨d, hadd, hd⟩ := @dictAdd_new (setTypeConvert xs) value hnot
  refine ⟨d, ?_, hd⟩
  unfold setTypeAdd
  dsimp only
  split
  · rename_i w hw
    cases h.symm.trans hw
  · rw [hadd]

theorem addAll_intset {eles : List Bytes} : ∀ {xs : IntValues} {n k : ℕ},
    xs.values.length + k = maxEntries → xs.values.length * encodingOf xs.values < 2 ^ 32 →
    (eles ++ (intset xs).texts).Nodup →
    if (leadingInts (k + 1) eles ++ xs.values).length *
        encodingOf (leadingInts (k + 1) eles ++ xs.values) < 2 ^ 32 then
      ∃ o, addAll maxEntries (intset xs) eles n = .ok (o, n + eles.length) ∧
        o.texts.Perm (eles ++ (intset xs).texts)
    else addAll maxEntries (intset xs) eles n = .error .crash := by
  induction eles with
  | nil =>
    intro xs n k _ hroom _
    rw [show leadingInts (k + 1) [] ++ xs.values = xs.values from rfl, if_pos hroom]
    exact ⟨_, rfl, .refl _⟩
  | cons ele rest ih =>
    intro xs n k hk hroom hnodup
    obtain ⟨hnot, -⟩ := List.nodup_cons.mp hnodup
    have hperm : (rest ++ ele :: (intset xs).texts).Perm (ele :: (rest ++ (intset xs).texts)) :=
      List.perm_middle
    have hcount : n + 1 + rest.length = n + (ele :: rest).length := by
      rw [List.length_cons]
      omega
    cases hint : string2ll ele with
    | none =>
      rw [leadingInts, hint]
      dsimp only
      rw [List.nil_append, if_pos hroom]
      obtain ⟨d, hadd, hd⟩ := @setTypeAdd_of_text maxEntries xs ele hint
        fun hmem => hnot (List.mem_append_right _ hmem)
      rw [← hd] at hperm
      obtain ⟨o, hrun, ho⟩ := @addAll_ht maxEntries rest d (n + 1) (hperm.nodup_iff.mpr hnodup)
      refine ⟨o, ?_, ho.trans hperm⟩
      rw [addAll, hadd, ← hcount]
      exact hrun
    | some v =>
      have hv : v ∉ xs.values := fun hmem => hnot (List.mem_append_right _ (by
        rw [← ll2string_string2ll hint]
        exact List.mem_map_of_mem hmem))
      have hnew := @setTypeAdd_of_int maxEntries xs ele v hint hv
      rw [leadingInts, hint]
      dsimp only
      -- the values so far, with the new one, are no more than all of them
      have henc : encodingOf (v :: leadingInts k rest ++ xs.values)
          = max (encodingOf (leadingInts k rest)) (encodingOf (v :: xs.values)) := by
        rw [List.cons_append, encodingOf_cons, encodingOf_append, encodingOf_cons]
        omega
      have hlen : (v :: leadingInts k rest ++ xs.values).length
          = (leadingInts k rest).length + (xs.values.length + 1) := by
        rw [List.cons_append, List.length_cons, List.length_append]
        omega
      rw [henc, hlen, addAll]
      split at hnew
      · rename_i hfits
        obtain ⟨xs', hadd, hvalues⟩ := hnew
        have htexts : (intset xs').texts.Perm (ele :: (intset xs).texts) := by
          rw [← ll2string_string2ll hint]
          exact hvalues.map ll2string
        have hafter : (rest ++ (intset xs').texts).Perm (ele :: rest ++ (intset xs).texts) :=
          (htexts.append_left rest).trans hperm
        have hvlen : xs'.values.length = xs.values.length + 1 := hvalues.length_eq
        rw [hadd, ok_bind, ← hcount]
        cases k with
        | zero =>
          have hconvert : xs'.values.length > maxEntries := by omega
          obtain ⟨o, hrun, ho⟩ := @addAll_ht maxEntries rest (setTypeConvert xs') (n + 1)
            (hafter.nodup_iff.mpr hnodup)
          rw [if_pos hconvert, leadingInts, max_eq_right (encodingOf_nil_le _), List.length_nil,
            Nat.zero_add, if_pos hfits]
          exact ⟨o, hrun, ho.trans hafter⟩
        | succ k =>
          have hstay : ¬ xs'.values.length > maxEntries := by omega
          have hrest := @ih xs' (n + 1) k (by omega)
            (by rw [hvlen, encodingOf_perm hvalues]; exact hfits) (hafter.nodup_iff.mpr hnodup)
          rw [List.length_append, encodingOf_append, hvlen, encodingOf_perm hvalues] at hrest
          rw [if_neg hstay]
          split at hrest
          · rename_i hall
            obtain ⟨o, hrun, ho⟩ := hrest
            rw [if_pos hall]
            exact ⟨o, hrun, ho.trans hafter⟩
          · rename_i hall
            rw [if_neg hall]
            exact hrest
      · rename_i hfull
        rw [hnew, if_neg fun hfits => hfull
          (lt_of_le_of_lt (Nat.mul_le_mul (by omega) (le_max_right _ _)) hfits)]
        rfl

/-- A list of different elements can be added to an empty set, unless the integers at its start
take 4 GB. -/
theorem addAll_empty {eles : List Bytes} (hnodup : eles.Nodup) :
    if FitsIntset maxEntries eles then
      ∃ o, addAll maxEntries (intset IntValues.empty) eles 0 = .ok (o, eles.length) ∧
        o.texts.Perm eles
    else addAll maxEntries (intset IntValues.empty) eles 0 = .error .crash := by
  have h := @addAll_intset maxEntries eles IntValues.empty 0 maxEntries (Nat.zero_add _)
    (by decide) ((List.append_nil eles).symm ▸ hnodup)
  rw [show IntValues.empty.values = [] from rfl, List.append_nil, Nat.zero_add,
    show (intset IntValues.empty).texts = [] from rfl, List.append_nil] at h
  exact h

end SetObject

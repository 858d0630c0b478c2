/-
`SRANDMEMBER` with a count (`srandmemberWithCountCommand`).

Four loops choose the members of the reply.  Each of them uses a random choice per round; the list
of choices may be too short, and then the command has not finished.

* `sampleLoop_spec`, `copyLoop_spec`, `removeLoop_spec`, `addLoop_spec` — what the loops collect;
* `random_members` — when the reply is what the command is for.
-/
import RedisModel.SetObject
import RedisModel.KeyspaceRun

open ByteBuffer Except RedisServer SetObject

namespace SetRandom

/-- A value: a set, or something else. -/
inductive SetValue where
  | set (o : SetObject)
  | other

/-- A multibulk reply has the announced length, and the items that are sent. -/
inductive SetReply where
  | multibulk (length : ℤ) (items : List Bytes)
  | other (reply : StringReply)
  deriving DecidableEq

def emptymultibulk : SetReply := .multibulk 0 []

/-- The order in which an iterator visits the keys of a `dict` that a command builds. -/
structure DictOrder where
  visit : Members → List Bytes
  perm : ∀ d, (visit d).Perm d.keys

/-! ### Loops -/

/-- `addReplyMultiBulkLen`; an index of `shared.mbulkhdr` may not be negative. -/
def addReplyMultiBulkLen (length : ℤ) : Except Stop ℤ :=
  if length < 0 then .error .crash else .ok length

/-- `while (count--)`. -/
def sampleLoop (set : SetObject) : ℕ → List ℕ → Except Stop (List Bytes)
  | 0, _ => .ok []
  | _ + 1, [] => .error .choices
  | count + 1, choice :: choices => do
    let ele ← set.setTypeRandomElement choice
    let rest ← sampleLoop set count choices
    .ok (ele :: rest)

/-- All the elements are copied; `redisAssert(retval == DICT_OK)`. -/
def copyLoop : List Bytes → Members → Except Stop Members
  | [], d => .ok d
  | ele :: rest, d =>
    match dictAdd d ele with
    | some d => copyLoop rest d
    | none => .error .assertion

/-- `while (size > count)`. -/
def removeLoop (count : ℕ) : ℕ → Members → List ℕ → Except Stop Members
  | 0, d, _ => .ok d
  | size + 1, d, choices =>
    if size + 1 > count then
      match choices with
      | [] => .error .choices
      | choice :: choices => do
        let key ← pick d.keys choice
        removeLoop count size (dictDelete d key) choices
    else .ok d

/-- `while (added < count)`. -/
def addLoop (set : SetObject) (count : ℕ) : List ℕ → Members → ℕ → Except Stop Members
  | [], d, added => if added < count then .error .choices else .ok d
  | choice :: choices, d, added =>
    if added < count then do
      let ele ← set.setTypeRandomElement choice
      match dictAdd d ele with
      | some d => addLoop set count choices d (added + 1)
      | none => addLoop set count choices d added
    else .ok d

/-! ### The command -/

def lift {α : Type} : Except Failure α → Except Stop α
  | .ok a => .ok a
  | .error failure => .error (.keyspace failure)

section
variable {C : Type} (order : DictOrder) (setMaxIntsetEntries : ℕ)

/-- The elements of a set that the command has built. -/
def visited : SetObject → List Bytes
  | .intset xs => (SetObject.intset xs).texts
  | .ht d => order.visit d

/-- `sunionDiffGenericCommand` with `REDIS_OP_UNION`, one key and no destination; `cardinality` is
an `int`. -/
def sunionDiffGenericCommand (s : RedisServer C SetValue) (d : ℕ) (key : Bytes) (now : ℤ) :
    Except Stop (RedisServer C SetValue × SetReply) := do
  let found ← lift (lookupKeyWrite s d key now)
  match found.2 with
  | some .other => .ok (found.1, .other .wrongtypeerr)
  | none => .ok (found.1, .multibulk 0 (visited order (.intset IntValues.empty)))
  | some (.set set) => do
    let (dstset, cardinality) ← addAll setMaxIntsetEntries (.intset IntValues.empty) set.texts 0
    let length ← addReplyMultiBulkLen ((cardinality : ℤ).bmod (2 ^ 32))
    .ok (found.1, .multibulk length (visited order dstset))

/-- The loops of the cases 3 and 4. -/
def distinct (set : SetObject) (count : ℕ) (choices : List ℕ) : Except Stop Members :=
  if count * 3 > set.setTypeSize then do
    let d ← copyLoop set.texts ⟨[], .nil⟩
    if d.keys.length = set.setTypeSize then removeLoop count set.setTypeSize d choices
    else .error .assertion
  else addLoop set count choices ⟨[], .nil⟩ 0

/-- The four cases; `(unsigned) l` or `-l` is stored in an `unsigned long`. -/
def countMembers (s : RedisServer C SetValue) (d : ℕ) (key : Bytes) (set : SetObject) (l : ℤ)
    (choices : List ℕ) (now : ℤ) : Except Stop (RedisServer C SetValue × SetReply) :=
  let count : ℕ := if l ≥ 0 then (l % 2 ^ 32).toNat else (-l % 2 ^ 64).toNat
  if count = 0 then .ok (s, emptymultibulk)
  else if l < 0 then do
    let length ← addReplyMultiBulkLen (toLong count)
    let items ← sampleLoop set count choices
    .ok (s, .multibulk length items)
  else if count ≥ set.setTypeSize then
    sunionDiffGenericCommand order setMaxIntsetEntries s d key now
  else do
    let dict ← distinct set count choices
    let length ← addReplyMultiBulkLen (toLong count)
    .ok (s, .multibulk length (order.visit dict))

/-- `srandmemberWithCountCommand`; the clock shows `later` when the key is looked up again. -/
def srandmemberWithCountCommand (s : RedisServer C SetValue) (d : ℕ) (key arg : Bytes)
    (choices : List ℕ) (now later : ℤ) : Except Stop (RedisServer C SetValue × SetReply) :=
  match getLongFromObjectOrReply arg with
  | .error reply => .ok (s, .other reply)
  | .ok l => do
    let found ← lift (lookupKeyWrite s d key now)
    match found.2 with
    | none => .ok (found.1, emptymultibulk)
    | some .other => .ok (found.1, .other .wrongtypeerr)
    | some (.set set) =>
      countMembers order setMaxIntsetEntries found.1 d key set l choices later

end

/-! ### What the loops collect -/

theorem sampleLoop_spec {set : SetObject} (h : 0 < set.setTypeSize) (count : ℕ) :
    ∀ choices, (sampleLoop set count choices).Ensures (· = .choices) fun items =>
      items.length = count ∧ items ⊆ set.texts := by
  induction count with
  | zero => exact fun _ => ⟨rfl, List.nil_subset _⟩
  | succ count ih =>
    intro choices
    cases choices with
    | nil => exact rfl
    | cons choice choices =>
      obtain ⟨ele, hmem, hpick⟩ := @pick_ok set.texts (by rwa [length_texts]) choice
      rw [sampleLoop, setTypeRandomElement, hpick, ok_bind]
      exact (ih choices).bind fun rest hrest => ⟨by rw [List.length_cons, hrest.1],
        List.cons_subset.mpr ⟨hmem, hrest.2⟩⟩

theorem sampleLoop_empty {set : SetObject} (h : set.setTypeSize = 0) (count : ℕ) :
    sampleLoop set (count + 1) [0] = .error .crash := by
  have htexts : set.texts = [] := List.length_eq_zero_iff.mp (by rw [length_texts, h])
  rw [sampleLoop, setTypeRandomElement, htexts]
  rfl

theorem copyLoop_spec {eles : List Bytes} : ∀ {d : Members}, (eles ++ d.keys).Nodup →
    ∃ d', copyLoop eles d = .ok d' ∧ d'.keys.Perm (eles ++ d.keys) := by
  induction eles with
  | nil => exact fun _ => ⟨_, rfl, .refl _⟩
  | cons ele rest ih =>
    intro d hnodup
    have hperm : (rest ++ ele :: d.keys).Perm (ele :: (rest ++ d.keys)) := List.perm_middle
    obtain ⟨hnot, -⟩ := List.nodup_cons.mp hnodup
    obtain ⟨d₁, hadd, hd₁⟩ := dictAdd_new (d := d) fun hmem => hnot (List.mem_append_right _ hmem)
    rw [← hd₁] at hperm
    obtain ⟨d₂, hrun, hd₂⟩ := ih (hperm.nodup_iff.mpr hnodup)
    exact ⟨d₂, by rw [copyLoop, hadd]; exact hrun, hd₂.trans hperm⟩

theorem removeLoop_spec {count : ℕ} : ∀ {size : ℕ} {d : Members} (choices : List ℕ),
    d.keys.length = size → count ≤ size →
    (removeLoop count size d choices).Ensures (· = .choices) fun d' =>
      d'.keys.length = count ∧ d'.keys ⊆ d.keys := by
  intro size
  induction size with
  | zero => exact fun {d} _ hsize hcount => ⟨by omega, List.Subset.refl d.keys⟩
  | succ size ih =>
    intro d choices hsize hcount
    rw [removeLoop.eq_def]
    dsimp only
    split
    · cases choices with
      | nil => exact rfl
      | cons choice choices =>
        obtain ⟨key, hmem, hpick⟩ := @pick_ok d.keys (by omega) choice
        dsimp only
        rw [hpick, ok_bind]
        refine (ih choices ?_ (by omega)).imp fun d' hd' =>
          ⟨hd'.1, List.Subset.trans hd'.2 List.erase_subset⟩
        rw [dictDelete, List.length_erase_of_mem hmem]
        omega
    · exact ⟨by omega, List.Subset.refl d.keys⟩

theorem addLoop_spec {set : SetObject} {count : ℕ} (h : 0 < set.setTypeSize) (choices : List ℕ) :
    ∀ {d : Members} {added : ℕ}, d.keys.length = added → added ≤ count → d.keys ⊆ set.texts →
    (addLoop set count choices d added).Ensures (· = .choices) fun d' =>
      d'.keys.length = count ∧ d'.keys ⊆ set.texts := by
  induction choices with
  | nil =>
    intro d added hadded hcount hsubset
    rw [addLoop]
    split
    · exact rfl
    · exact ⟨by omega, hsubset⟩
  | cons choice choices ih =>
    intro d added hadded hcount hsubset
    rw [addLoop]
    split
    · obtain ⟨ele, hmem, hpick⟩ := @pick_ok set.texts (by rwa [length_texts]) choice
      rw [setTypeRandomElement, hpick, ok_bind]
      by_cases hold : ele ∈ d.keys
      · rw [show dictAdd d ele = none from dif_pos hold]
        exact ih hadded hcount hsubset
      · obtain ⟨d', hadd, hd'⟩ := dictAdd_new hold
        rw [hadd]
        refine ih (by rw [hd', List.length_cons, hadded]) (by omega) ?_
        rw [hd']
        exact List.cons_subset.mpr ⟨hmem, hsubset⟩
    · exact ⟨by omega, hsubset⟩

theorem distinct_spec {set : SetObject} {count : ℕ} (hcount : count < set.setTypeSize)
    (choices : List ℕ) : (distinct set count choices).Ensures (· = .choices) fun d =>
      d.keys.length = count ∧ d.keys ⊆ set.texts := by
  unfold distinct
  split
  · obtain ⟨d, hcopy, hd⟩ := @copyLoop_spec set.texts ⟨[], .nil⟩
      (by rw [List.append_nil]; exact set.nodup_texts)
    rw [List.append_nil] at hd
    have hlen : d.keys.length = set.setTypeSize := by rw [hd.length_eq, length_texts]
    rw [hcopy, ok_bind, if_pos hlen]
    exact (removeLoop_spec choices hlen hcount.le).imp fun d' hd' =>
      ⟨hd'.1, List.Subset.trans hd'.2 hd.subset⟩
  · exact addLoop_spec (by omega) choices rfl (Nat.zero_le _) (List.nil_subset _)

/-! ### Runs that finish -/

theorem removeLoop_ends (count : ℕ) : ∀ {size : ℕ} {d : Members}, d.keys.length = size →
    ∃ choices d', removeLoop count size d choices = .ok d' := by
  intro size
  induction size with
  | zero => exact fun {d} _ => ⟨[], d, rfl⟩
  | succ size ih =>
    intro d hsize
    obtain ⟨key, hmem, hpick⟩ := @pick_ok d.keys (by omega) 0
    obtain ⟨choices, d', hrun⟩ := @ih (dictDelete d key) (by
      rw [dictDelete, List.length_erase_of_mem hmem]
      omega)
    by_cases hgt : size + 1 > count
    · refine ⟨0 :: choices, d', ?_⟩
      rw [removeLoop, if_pos hgt, hpick, ok_bind, hrun]
    · exact ⟨[], d, by rw [removeLoop, if_neg hgt]⟩

theorem addLoop_ends {set : SetObject} {count missing : ℕ} (hcount : count ≤ set.setTypeSize) :
    ∀ {d : Members}, d.keys.length + missing = count → d.keys ⊆ set.texts →
    ∃ choices d', addLoop set count choices d d.keys.length = .ok d' := by
  induction missing with
  | zero => exact fun {d} hmissing _ => ⟨[], d, by rw [addLoop, if_neg (by omega)]⟩
  | succ missing ih =>
    intro d hmissing hsubset
    obtain ⟨ele, hmem, hnew⟩ : ∃ ele ∈ set.texts, ele ∉ d.keys := by
      by_contra hall
      push Not at hall
      have hle := (set.nodup_texts.subperm hall).length_le
      rw [length_texts] at hle
      omega
    obtain ⟨choice, hpick⟩ := exists_pick hmem
    obtain ⟨d₁, hadd, hd₁⟩ := dictAdd_new hnew
    have hlen : d₁.keys.length = d.keys.length + 1 := by rw [hd₁, List.length_cons]
    obtain ⟨choices, d₂, hrun⟩ := @ih d₁ (by omega) (by
      rw [hd₁]
      exact List.cons_subset.mpr ⟨hmem, hsubset⟩)
    refine ⟨choice :: choices, d₂, ?_⟩
    rw [addLoop, if_pos (by omega), setTypeRandomElement, hpick, ok_bind, hadd]
    rwa [hlen] at hrun

theorem distinct_ends {set : SetObject} {count : ℕ} (hcount : count < set.setTypeSize) :
    ∃ choices d, distinct set count choices = .ok d := by
  unfold distinct
  split
  · obtain ⟨d, hcopy, hd⟩ := @copyLoop_spec set.texts ⟨[], .nil⟩
      (by rw [List.append_nil]; exact set.nodup_texts)
    rw [List.append_nil] at hd
    have hlen : d.keys.length = set.setTypeSize := by rw [hd.length_eq, length_texts]
    obtain ⟨choices, d', hrun⟩ := removeLoop_ends count hlen
    exact ⟨choices, d', by rw [hcopy, ok_bind, if_pos hlen, hrun]⟩
  · exact addLoop_ends hcount.le (Nat.zero_add count) (List.nil_subset _)

/-! ### What the command is for -/

/-- Members of the set, as many as announced: for a count of 0 or more different ones, and all of
them if there are no more. -/
def Answered (set : SetObject) (l : ℤ) : SetReply → Prop
  | .multibulk length items => length = items.length ∧ items ⊆ set.texts ∧
    if 0 ≤ l then items.Nodup ∧ (items.length : ℤ) = min l set.setTypeSize
    else (items.length : ℤ) = -l
  | .other _ => False

/-- A command that finishes has answered, and the set is what it was. -/
def Right {C : Type} (s : RedisServer C SetValue) (d : ℕ) (later : ℤ) (set : SetObject) (l : ℤ)
    (result : Except Stop (RedisServer C SetValue × SetReply)) : Prop :=
  result ≠ .error .choices → ∃ s' reply, result = .ok (s', reply) ∧ Answered set l reply ∧
    ∀ k, found s' d later k = found s d later k

/-- The reply for all members: they are fewer than 2^31, and fit in the intset that is built. -/
def UnionOk (maxEntries : ℕ) (set : SetObject) : Prop :=
  set.setTypeSize < 2 ^ 31 ∧ FitsIntset maxEntries set.texts

/-- The counts for which the command is right: a negative one is not the least `long`, and the set
is not empty; of another one no upper half is cut off, unless the lower half still is no less than
the size of the set, and the set is there when it is looked up again. -/
def CountOk (maxEntries : ℕ) (set : SetObject) (l : ℤ) (expired : Bool) : Prop :=
  if l < 0 then l ≠ -2 ^ 63 ∧ 0 < set.setTypeSize
  else (l < 2 ^ 32 ∨ (set.setTypeSize : ℤ) ≤ l % 2 ^ 32) ∧
    (0 < l % 2 ^ 32 ∧ 0 < set.setTypeSize ∧ (set.setTypeSize : ℤ) ≤ l % 2 ^ 32 →
      expired = false ∧ UnionOk maxEntries set)

section
variable {C : Type} {s s₁ : RedisServer C SetValue} {d : ℕ} {later l : ℤ} {set : SetObject}

theorem found_same (hrest : Rest s s₁) (hdb : s₁.db = s.db) (k : Bytes) :
    found s₁ d later k = found s d later k := by
  rw [found_eq, found_eq, expiredAt, expiredAt, hdb, hrest.loading, hrest.masterhost]

theorem right_error {stop : Stop} (h : stop ≠ .choices) : ¬ Right s d later set l (.error stop) :=
  fun hright => by
    obtain ⟨s', reply, heq, -⟩ := hright fun heq => h (Except.error.inj heq)
    cases heq

theorem right_ok (hfound : ∀ k, found s₁ d later k = found s d later k) {reply : SetReply} :
    Right s d later set l (.ok (s₁, reply)) ↔ Answered set l reply := by
  constructor
  · intro hright
    obtain ⟨s', reply', heq, hanswered, -⟩ := hright nofun
    cases heq
    exact hanswered
  · exact fun hanswered _ => ⟨s₁, reply, rfl, hanswered, hfound⟩

theorem sample_iff (hfound : ∀ k, found s₁ d later k = found s d later k) (hl : IsLong l)
    (hneg : l < 0) : (∀ choices, Right s d later set l (do
      let length ← addReplyMultiBulkLen (toLong ((-l % 2 ^ 64).toNat : ℕ))
      let items ← sampleLoop set (-l % 2 ^ 64).toNat choices
      .ok (s₁, .multibulk length items))) ↔ l ≠ -2 ^ 63 ∧ 0 < set.setTypeSize := by
  obtain ⟨hmin, -⟩ := hl
  have hcount : (((-l % 2 ^ 64).toNat : ℕ) : ℤ) = -l := by omega
  rw [hcount]
  by_cases hleast : l = -2 ^ 63
  · subst hleast
    refine iff_of_false (fun h => right_error (by decide) (h [])) fun h => h.1 rfl
  · have hlen : addReplyMultiBulkLen (toLong (-l)) = .ok (-l) := by
      rw [toLong_of_range (by omega) (by omega), addReplyMultiBulkLen, if_neg (by omega)]
    rw [hlen]
    simp only [ok_bind]
    by_cases hsize : 0 < set.setTypeSize
    · refine iff_of_true (fun choices => ?_) ⟨hleast, hsize⟩
      have hspec := sampleLoop_spec hsize (-l % 2 ^ 64).toNat choices
      cases hrun : sampleLoop set (-l % 2 ^ 64).toNat choices with
      | error stop =>
        rw [hrun] at hspec
        obtain rfl := hspec
        exact fun h => absurd rfl h
      | ok items =>
        rw [hrun] at hspec
        obtain ⟨hitems, hsubset⟩ := hspec
        refine (right_ok hfound).mpr ⟨by omega, hsubset, ?_⟩
        rw [if_neg (by omega)]
        omega
    · refine iff_of_false (fun h => ?_) fun h => hsize h.2
      obtain ⟨n, hn⟩ : ∃ n, (-l % 2 ^ 64).toNat = n + 1 := ⟨(-l % 2 ^ 64).toNat - 1, by omega⟩
      have hcrash := h [0]
      rw [hn, sampleLoop_empty (by omega)] at hcrash
      exact right_error (by decide) hcrash

theorem visited_perm (order : DictOrder) : ∀ o, (visited order o).Perm o.texts
  | .intset _ => .refl _
  | .ht d => order.perm d

theorem union_iff (order : DictOrder) (maxEntries : ℕ) {key : Bytes} (h : Indexed s₁)
    (hd : s₁.clusterEnabled = true → d = 0) (hrest : Rest s s₁) (hdb : s₁.db = s.db)
    (hset : (s.db d).dict key = some (.set set)) (hl : (set.setTypeSize : ℤ) ≤ l) :
    Right s d later set l (sunionDiffGenericCommand order maxEntries s₁ d key later) ↔
      (0 < set.setTypeSize → expiredAt s d key later = false ∧ UnionOk maxEntries set) := by
  obtain ⟨r, hr, -, hrest', hval, hfound⟩ := (lookupKeyWrite_found h hd key later).returns
  have hfound : ∀ k, found r.1 d later k = found s d later k := fun k =>
    (hfound k).trans (found_same hrest hdb k)
  rw [found_same hrest hdb, found_eq, hset] at hval
  have hunion := @addAll_empty maxEntries set.texts set.nodup_texts
  rw [length_texts] at hunion
  rw [sunionDiffGenericCommand, hr, lift, ok_bind, hval]
  by_cases hexpired : expiredAt s d key later = true
  · rw [if_pos hexpired]
    refine (right_ok hfound).trans ⟨fun hanswered hpos => ?_, fun hpos => ?_⟩
    · obtain ⟨-, -, hcount⟩ := hanswered
      rw [if_pos (by omega)] at hcount
      have hzero : (0 : ℤ) = min l set.setTypeSize := hcount.2
      omega
    · have hzero : set.setTypeSize = 0 := by
        by_contra hne
        rw [hexpired] at hpos
        exact Bool.noConfusion (hpos (Nat.pos_of_ne_zero hne)).1
      refine ⟨rfl, List.nil_subset _, ?_⟩
      rw [if_pos (by omega)]
      exact ⟨.nil, show (0 : ℤ) = _ by omega⟩
  · rw [if_neg hexpired]
    dsimp only
    by_cases hfits : FitsIntset maxEntries set.texts
    · rw [if_pos hfits] at hunion
      obtain ⟨o, hrun, ho⟩ := hunion
      have hvisited : (visited order o).Perm set.texts := (visited_perm order o).trans ho
      have hlen : (visited order o).length = set.setTypeSize := by
        rw [hvisited.length_eq, length_texts]
      rw [hrun, ok_bind]
      dsimp only
      by_cases hsmall : set.setTypeSize < 2 ^ 31
      · have hcard : ((set.setTypeSize : ℕ) : ℤ).bmod (2 ^ 32) = set.setTypeSize := by
          rw [Int.bmod_eq_of_le] <;> omega
        rw [hcard, addReplyMultiBulkLen, if_neg (by omega), ok_bind]
        refine (right_ok hfound).trans (iff_of_true ⟨by rw [hlen], hvisited.subset, ?_⟩
          fun _ => ⟨Bool.eq_false_of_not_eq_true hexpired, hsmall, hfits⟩)
        rw [if_pos (by omega), hlen, min_eq_right hl]
        exact ⟨hvisited.nodup_iff.mpr set.nodup_texts, rfl⟩
      · have hcard : ((set.setTypeSize : ℕ) : ℤ).bmod (2 ^ 32) < 2 ^ 31 :=
          Int.bmod_lt (by norm_num)
        refine iff_of_false ?_ fun hall => hsmall (hall (by omega)).2.1
        rw [addReplyMultiBulkLen]
        split
        · exact right_error (by decide)
        · rw [ok_bind, right_ok hfound]
          rintro ⟨hannounced, -⟩
          rw [hlen] at hannounced
          omega
    · rw [if_neg hfits] at hunion
      rw [hunion]
      refine iff_of_false (right_error (by decide)) fun hall => ?_
      by_cases hpos : 0 < set.setTypeSize
      · exact hfits (hall hpos).2.2
      · have htexts : set.texts = [] := List.length_eq_zero_iff.mp (by rw [length_texts]; omega)
        rw [htexts] at hfits
        exact hfits (show 0 * 2 < 2 ^ 32 by decide)

theorem distinct_iff (order : DictOrder) (hfound : ∀ k, found s₁ d later k = found s d later k)
    {count : ℕ} (hsize : count < set.setTypeSize) (hl : (count : ℤ) ≤ l) (hlong : l < 2 ^ 63) :
    (∀ choices, Right s d later set l (do
      let dict ← distinct set count choices
      let length ← addReplyMultiBulkLen (toLong count)
      .ok (s₁, .multibulk length (order.visit dict)))) ↔ l = count := by
  have hlen : addReplyMultiBulkLen (toLong count) = .ok count := by
    rw [toLong_of_range (by omega) (by omega), addReplyMultiBulkLen, if_neg (by omega)]
  rw [hlen]
  simp only [ok_bind]
  constructor
  · intro h
    obtain ⟨choices, dict, hrun⟩ := distinct_ends hsize
    have hright := h choices
    rw [hrun, ok_bind, right_ok hfound] at hright
    obtain ⟨hannounced, -, hitems⟩ := hright
    rw [if_pos (by omega)] at hitems
    omega
  · intro heq choices
    have hspec := distinct_spec hsize choices
    cases hrun : distinct set count choices with
    | error stop =>
      rw [hrun] at hspec
      obtain rfl := hspec
      exact fun h => absurd rfl h
    | ok dict =>
      rw [hrun] at hspec
      obtain ⟨hkeys, hsubset⟩ := hspec
      have hperm := order.perm dict
      refine (right_ok hfound).mpr ⟨by rw [hperm.length_eq, hkeys],
        List.Subset.trans hperm.subset hsubset, ?_⟩
      rw [if_pos (by omega), hperm.length_eq, hkeys]
      exact ⟨hperm.nodup_iff.mpr dict.nodup, by omega⟩

theorem countMembers_iff (order : DictOrder) (maxEntries : ℕ) {key : Bytes} (h : Indexed s₁)
    (hd : s₁.clusterEnabled = true → d = 0) (hrest : Rest s s₁) (hdb : s₁.db = s.db)
    (hset : (s.db d).dict key = some (.set set)) (hl : IsLong l) :
    (∀ choices, Right s d later set l
      (countMembers order maxEntries s₁ d key set l choices later)) ↔
      CountOk maxEntries set l (expiredAt s d key later) := by
  have hsame : ∀ k, found s₁ d later k = found s d later k := found_same hrest hdb
  unfold countMembers CountOk
  dsimp only
  by_cases hneg : l < 0
  · have hpos : ¬ (-l % 2 ^ 64).toNat = 0 := by have := hl.1; omega
    rw [if_neg (show ¬ l ≥ 0 by omega), if_pos hneg]
    simp only [if_neg hpos, if_pos hneg]
    exact sample_iff hsame hl hneg
  · obtain ⟨count, hcount⟩ : ∃ count : ℕ, l % 2 ^ 32 = count := ⟨(l % 2 ^ 32).toNat, by omega⟩
    rw [if_pos (show l ≥ 0 by omega), if_neg hneg, hcount, Int.toNat_natCast]
    by_cases hzero : count = 0
    · simp only [if_pos hzero]
      refine (forall_const _).trans ((right_ok hsame).trans ⟨?_, fun hok => ?_⟩)
      · rintro ⟨-, -, hitems⟩
        rw [if_pos (by omega)] at hitems
        have hmin : (0 : ℤ) = min l set.setTypeSize := hitems.2
        exact ⟨by omega, fun hpos => by omega⟩
      · refine ⟨rfl, List.nil_subset _, ?_⟩
        rw [if_pos (by omega)]
        exact ⟨.nil, show (0 : ℤ) = _ by omega⟩
    · simp only [if_neg hzero, if_neg hneg]
      by_cases hall : count ≥ set.setTypeSize
      · simp only [if_pos hall]
        refine (forall_const _).trans ((union_iff order maxEntries h hd hrest hdb hset
          (by omega)).trans ?_)
        exact ⟨fun hok => ⟨.inr (by omega), fun hpos => hok hpos.2.1⟩,
          fun hok hpos => hok.2 ⟨by omega, hpos, by omega⟩⟩
      · simp only [if_neg hall]
        refine (distinct_iff order hsame (by omega) (by omega) hl.2).trans ?_
        exact ⟨fun heq => ⟨.inl (by omega), fun hpos => by omega⟩, fun hok => by omega⟩

/-- The command on a set, by the case of its count. -/
theorem command_iff (order : DictOrder) (maxEntries : ℕ) {key arg : Bytes} {now : ℤ}
    (h : Indexed s) (hd : s.clusterEnabled = true → d = 0)
    (harg : getLongFromObjectOrReply arg = .ok l) (hset : found s d now key = some (.set set)) :
    (∀ choices, Right s d later set l
      (srandmemberWithCountCommand order maxEntries s d key arg choices now later)) ↔
      CountOk maxEntries set l (expiredAt s d key later) := by
  obtain ⟨r, hr, ⟨hindexed, hrest, hcases⟩, -, -, hval, -⟩ :=
    ((lookupKeyWrite_cases h hd key now).and (lookupKeyWrite_found h hd key now)).returns
  rw [hset] at hval
  obtain ⟨hkey, hdb⟩ : (s.db d).dict key = some (.set set) ∧ r.1.db = s.db := by
    obtain ⟨o, ho, hkey, hdb⟩ | ⟨hnone, -⟩ := hcases
    · exact ⟨hkey.trans (ho.symm.trans hval), hdb⟩
    · cases hval.symm.trans hnone
  have hrun : ∀ choices, srandmemberWithCountCommand order maxEntries s d key arg choices now later
      = countMembers order maxEntries r.1 d key set l choices later := fun choices => by
    rw [srandmemberWithCountCommand, harg]
    dsimp only
    rw [hr, lift, ok_bind, hval]
  simp only [hrun]
  exact countMembers_iff order maxEntries hindexed (fun hc => hd (hrest.clusterEnabled ▸ hc)) hrest
    hdb hkey (isLong_getLong harg)

end

/-! ### Results -/

/-- In every reachable state, and for every sequence of random choices with which the command on a
set finishes: it is right exactly for the counts of `CountOk`. -/
theorem random_members {C : Type} [DecidableEq C] (order : DictOrder) (setMaxIntsetEntries : ℕ)
    (dbs : ℕ) (clusterEnabled : Bool) (clients : List C) (levels : ℕ → Fin 32)
    {es : List (KeyspaceEvent C SetValue)} {s : RedisServer C SetValue}
    (hrun : Runs.run (fun s e => (keyspaceStep s e).toOption)
      (initServer dbs clusterEnabled clients levels) es = some s) (c : C) {key arg : Bytes}
    {now l : ℤ} (later : ℤ) {set : SetObject} (harg : getLongFromObjectOrReply arg = .ok l)
    (hset : found s (s.client c).db now key = some (.set set)) :
    (∀ choices, Right s (s.client c).db later set l (srandmemberWithCountCommand order
      setMaxIntsetEntries s (s.client c).db key arg choices now later)) ↔
      CountOk setMaxIntsetEntries set l (expiredAt s (s.client c).db key later) := by
  obtain ⟨s₁, hrun₁, hsound⟩ :=
    run_sound (sound_initServer dbs clusterEnabled clients levels : Sound _) es
  obtain rfl := Option.some_inj.mp (hrun₁.symm.trans hrun)
  exact command_iff order setMaxIntsetEntries hsound.indexed (fun hc => hsound.zero hc c) harg hset

/-- The members are visited as they are listed. -/
def listed : DictOrder := ⟨Members.keys, fun _ => .refl _⟩

/-- The set of the integers 1 and 2. -/
def oneTwo : SetObject := .intset ⟨[1, 2], by decide, by unfold IsLong; decide⟩

/-- `SRANDMEMBER a 1` of the set of 1 and 2. -/
theorem random_members_one : ∃ s : RedisServer Unit SetValue,
    Runs.run (fun s e => (keyspaceStep s e).toOption) (initServer 15 false [()] fun _ => 0)
      [.call () 5 (.restore [97] (.set oneTwo) 0 false)] = some s ∧
    ∀ choices, Right s 0 7 oneTwo 1
      (srandmemberWithCountCommand listed 512 s 0 [97] [49] choices 6 7) := by
  refine ⟨_, rfl, ?_⟩
  have hiff := @random_members Unit _ listed 512 15 false [()] (fun _ => 0)
    [.call () 5 (.restore [97] (.set oneTwo) 0 false)] _ rfl () [97] [49] 6 1 7 oneTwo rfl rfl
  exact hiff.mpr ⟨.inl (by decide), fun hall => absurd hall.2.2 (by decide)⟩

/-- A count of 2^32 is one of 0: `SRANDMEMBER a 4294967296` replies with no members at all. -/
theorem random_members_cut : ∃ s : RedisServer Unit SetValue,
    Runs.run (fun s e => (keyspaceStep s e).toOption) (initServer 15 false [()] fun _ => 0)
      [.call () 5 (.restore [97] (.set oneTwo) 0 false)] = some s ∧
    found s 0 6 [97] = some (.set oneTwo) ∧
    srandmemberWithCountCommand listed 512 s 0 [97] [52, 50, 57, 52, 57, 54, 55, 50, 57, 54] [] 6 7
      = .ok (s, .multibulk 0 []) ∧
    ¬ ∀ choices, Right s 0 7 oneTwo 4294967296 (srandmemberWithCountCommand listed 512 s 0 [97]
      [52, 50, 57, 52, 57, 54, 55, 50, 57, 54] choices 6 7) := by
  refine ⟨_, rfl, rfl, rfl, fun h => ?_⟩
  obtain ⟨s', reply, heq, hanswered, -⟩ := h [] nofun
  obtain ⟨-, rfl⟩ := Prod.mk.inj (Except.ok.inj heq)
  exact absurd hanswered.2.2.2 (by decide)

end SetRandom

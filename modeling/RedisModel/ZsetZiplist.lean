/-
Lexicographic ranges of sorted sets that are kept in ziplists.

The entries of such a ziplist are alternately a member and its score.  `IsZset zl els
score` says that the ziplist `zl` holds members with the score `score`, in order;
`els` lists their offsets and the members.

* `zzlFirstInLexRange_spec`, `zzlLastInLexRange_spec` — the first and the last member in
  a range that is not taken for empty;
* `zzlDeletePair` — the two deletions that remove a member; the block never grows, since
  a score is too short to need a wide prevlen field behind it;
* `zzlDeleteRangeByLex_spec` — the members in the range are deleted;
* `lex_ranges_exact` — when the functions of both encodings are right about a range.
-/
import RedisModel.LexRange
import RedisModel.ZiplistFind

open ByteBuffer StringNumber

namespace Ziplist

/-! ### The functions -/

/-- `ziplistGetObject`: the string of an entry. -/
def ziplistGetObject (zl : Bytes) (sptr : ℕ) : Option Bytes :=
  (ziplistGet (zl.drop sptr)).map Value.text

def zzlLexValueGteMin (zl : Bytes) (p : ℕ) (spec : Zlexrangespec) : Option Bool :=
  (ziplistGetObject zl p).map fun value => zslLexValueGteMin value spec

def zzlLexValueLteMax (zl : Bytes) (p : ℕ) (spec : Zlexrangespec) : Option Bool :=
  (ziplistGetObject zl p).map fun value => zslLexValueLteMax value spec

def zzlIsInLexRange (far : Bytes → Bytes → Bool) (zl : Bytes) (range : Zlexrangespec) :
    Option Bool :=
  if zslLexRangeEmpty far range then some false
  else do
    match ← ziplistIndex zl (-2) with
    | none => some false
    | some p => do
      let above ← zzlLexValueGteMin zl p range
      if !above then some false
      else do
        let first ← ziplistIndex zl 0
        -- `redisAssert(p != NULL)`
        let p ← first
        zzlLexValueLteMax zl p range

/-- The loop of `zzlFirstInLexRange`. -/
def zzlFirstLexLoop (zl : Bytes) (range : Zlexrangespec) :
    ℕ → Option ℕ → Option (Option ℕ)
  | 0, _ => none
  | _ + 1, none => some none
  | fuel + 1, some eptr => do
    let above ← zzlLexValueGteMin zl eptr range
    if above then do
      let below ← zzlLexValueLteMax zl eptr range
      some (if below then some eptr else none)
    else do
      let score ← ziplistNext zl eptr
      -- `redisAssert(sptr != NULL)`
      let sptr ← score
      let next ← ziplistNext zl sptr
      zzlFirstLexLoop zl range fuel next

def zzlFirstInLexRange (far : Bytes → Bytes → Bool) (zl : Bytes) (range : Zlexrangespec) :
    Option (Option ℕ) := do
  let eptr ← ziplistIndex zl 0
  let inRange ← zzlIsInLexRange far zl range
  if inRange then zzlFirstLexLoop zl range (zl.length + 1) eptr else some none

/-- The loop of `zzlLastInLexRange`. -/
def zzlLastLexLoop (zl : Bytes) (range : Zlexrangespec) : ℕ → Option ℕ → Option (Option ℕ)
  | 0, _ => none
  | _ + 1, none => some none
  | fuel + 1, some eptr => do
    let below ← zzlLexValueLteMax zl eptr range
    if below then do
      let above ← zzlLexValueGteMin zl eptr range
      some (if above then some eptr else none)
    else do
      let score ← ziplistPrev zl eptr
      match score with
      | none => zzlLastLexLoop zl range fuel none
      | some sptr => do
        let prev ← ziplistPrev zl sptr
        -- `redisAssert((eptr = ziplistPrev(zl,sptr)) != NULL)`
        let eptr ← prev
        zzlLastLexLoop zl range fuel (some eptr)

def zzlLastInLexRange (far : Bytes → Bytes → Bool) (zl : Bytes) (range : Zlexrangespec) :
    Option (Option ℕ) := do
  let eptr ← ziplistIndex zl (-2)
  let inRange ← zzlIsInLexRange far zl range
  if inRange then zzlLastLexLoop zl range (zl.length + 1) eptr else some none

/-- The loop of `zzlDeleteRangeByLex`; a deletion leaves the offset as it is. -/
def zzlDeleteLexLoop (junk : ℕ → UInt8) (range : Zlexrangespec) :
    ℕ → Bytes → ℕ → ℕ → Option (Bytes × ℕ)
  | 0, _, _, _ => none
  | fuel + 1, zl, eptr, num => do
    match ← ziplistNext zl eptr with
    | none => some (zl, num)
    | some _ => do
      let below ← zzlLexValueLteMax zl eptr range
      if below then do
        let zl ← ziplistDelete junk zl eptr
        let zl ← ziplistDelete junk zl eptr
        zzlDeleteLexLoop junk range fuel zl eptr (num + 1)
      else some (zl, num)

/-- `zzlDeleteRangeByLex`: the block and the number of members deleted. -/
def zzlDeleteRangeByLex (far : Bytes → Bytes → Bool) (junk : ℕ → UInt8) (zl : Bytes)
    (range : Zlexrangespec) : Option (Bytes × ℕ) := do
  match ← zzlFirstInLexRange far zl range with
  | none => some (zl, 0)
  | some eptr => zzlDeleteLexLoop junk range (zl.length + 1) zl eptr 0

/-! ### Sorted sets -/

/-- The two entries of a member, with the texts in them.  A score is written in a buffer of
128 bytes. -/
structure Pair where
  member : Entry
  score : Entry
  text : Bytes
  number : Bytes
  text_ok : bodyText member.body = some text
  number_ok : bodyText score.body = some number
  number_lt : number.length < 128

namespace Pair

def raw (q : Pair) : ℕ := q.member.raw + q.score.raw

/-- The entries of all members. -/
def entries (ps : List Pair) : List Entry := ps.flatMap fun q => [q.member, q.score]

@[simp] theorem entries_nil : entries [] = [] := rfl

@[simp] theorem entries_cons (q : Pair) (ps : List Pair) :
    entries (q :: ps) = q.member :: q.score :: entries ps := rfl

@[simp] theorem entries_append (a b : List Pair) : entries (a ++ b) = entries a ++ entries b := by
  simp [entries]

theorem length_entries (ps : List Pair) : (entries ps).length = 2 * ps.length := by
  induction ps with
  | nil => rfl
  | cons q ps ih =>
    rw [entries_cons, List.length_cons, List.length_cons, ih, List.length_cons]
    omega

section
variable {S : Type} (strtod : Bytes → S)

/-- The score and the member; `strtod` reads a score. -/
def data (q : Pair) : S × Bytes := (strtod q.number, q.text)

/-- The offsets and the members, when the first member is at `p`. -/
def elements : ℕ → List Pair → List (ℕ × S × Bytes)
  | _, [] => []
  | p, q :: ps => (p, q.data strtod) :: elements (p + q.raw) ps

variable {strtod}

theorem elements_cons (p : ℕ) (q : Pair) (ps : List Pair) :
    elements strtod p (q :: ps) = (p, q.data strtod) :: elements strtod (p + q.raw) ps := rfl

theorem elements_append (p : ℕ) (a b : List Pair) : elements strtod p (a ++ b)
    = elements strtod p a ++ elements strtod (p + size (entries a)) b := by
  induction a generalizing p with
  | nil => rfl
  | cons q a ih =>
    have hpos : p + q.raw + size (entries a) = p + size (entries (q :: a)) := by
      rw [entries_cons, size_cons, size_cons, raw]
      omega
    rw [List.cons_append, elements_cons, elements_cons, ih, hpos, List.cons_append]

theorem elements_map_snd (p : ℕ) (ps : List Pair) :
    (elements strtod p ps).map Prod.snd = ps.map (data strtod) := by
  induction ps generalizing p with
  | nil => rfl
  | cons q ps ih => rw [elements_cons, List.map_cons, ih, List.map_cons]

end

end Pair

open Pair (entries elements)

/-- A sorted set: the scores and members with their offsets are `els`, in order. -/
structure IsZset {S : Type} [LinearOrder S] (strtod : Bytes → S) (zl : Bytes)
    (els : List (ℕ × S × Bytes)) : Prop where
  block : ∃ ps, IsZiplist zl (entries ps) ∧ els = elements strtod 10 ps
  sorted : (els.map Prod.snd).Pairwise Zskiplist.Precedes

section
variable {zl : Bytes} {a b c : List Pair} {q r : Pair} {range : Zlexrangespec}

theorem getObject_pair (h : IsZiplist zl (entries a ++ entries (q :: b))) :
    ziplistGetObject zl (size (entries a) + 10) = some q.text := by
  obtain ⟨v, hget, hv⟩ := h.get_mid q.text_ok
  rw [ziplistGetObject, hget, Option.map_some, hv]

/-- The place of the first of the members `b`, behind the members `a`. -/
def headPlace (a b : List Pair) : Option ℕ :=
  if b = [] then none else some (size (entries a) + 10)

/-- The place of the last of the members `a`. -/
def lastPlace (a : List Pair) : Option ℕ :=
  if a = [] then none else some (size (entries a.dropLast) + 10)

theorem lastPlace_concat (a : List Pair) (q : Pair) :
    lastPlace (a ++ [q]) = some (size (entries a) + 10) := by
  rw [lastPlace, if_neg (by simp), List.dropLast_concat]

theorem next_pair (h : IsZiplist zl (entries a ++ entries (q :: b))) :
    ∃ sptr, ziplistNext zl (size (entries a) + 10) = some (some sptr) ∧
      ziplistNext zl sptr = some (headPlace (a ++ [q]) b) := by
  refine ⟨size (entries a ++ [q.member]) + 10, ?_, ?_⟩
  · exact (ziplistNext_mid h).trans (by rw [if_neg (by simp)])
  · have h' := h
    rw [Pair.entries_cons, List.append_cons] at h'
    rw [ziplistNext_mid h', headPlace, Pair.entries_append, Pair.entries_cons, Pair.entries_nil,
      List.append_assoc, List.singleton_append]
    cases b <;> rfl

theorem prev_pair (h : IsZiplist zl (entries (a ++ [r]) ++ entries (q :: b))) :
    ∃ sptr, ziplistPrev zl (size (entries (a ++ [r])) + 10) = some (some sptr) ∧
      ziplistPrev zl sptr = some (some (size (entries a) + 10)) := by
  have hsplit : entries (a ++ [r]) = entries a ++ [r.member] ++ [r.score] := by
    rw [Pair.entries_append, Pair.entries_cons, Pair.entries_nil, List.append_assoc]
    rfl
  refine ⟨size (entries a ++ [r.member]) + 10, ?_, ?_⟩
  · rw [hsplit, List.append_assoc, List.singleton_append] at h
    rw [hsplit]
    exact ziplistPrev_mid h
  · rw [Pair.entries_append, List.append_assoc] at h
    exact ziplistPrev_mid h

theorem prev_head (h : IsZiplist zl (entries (q :: b))) :
    ziplistPrev zl (size (entries []) + 10) = some none :=
  ziplistPrev_head h

/-! ### The loops -/

theorem zzlFirstLexLoop_skip (h : IsZiplist zl (entries a ++ entries (b ++ c)))
    (hlow : ∀ q ∈ b, zslLexValueGteMin q.text range = false) (fuel : ℕ) :
    zzlFirstLexLoop zl range (b.length + fuel) (headPlace a (b ++ c))
      = zzlFirstLexLoop zl range fuel (headPlace (a ++ b) c) := by
  induction b generalizing a with
  | nil => rw [List.length_nil, Nat.zero_add, List.nil_append, List.append_nil]
  | cons q b ih =>
    obtain ⟨sptr, hscore, hnext⟩ := next_pair h
    have hobj := getObject_pair h
    have h' : IsZiplist zl (entries (a ++ [q]) ++ entries (b ++ c)) := by
      rw [Pair.entries_append, List.append_assoc]
      exact h
    have hrest := ih h' (fun x hx => hlow x (List.mem_cons_of_mem q hx))
    rw [List.append_assoc, List.singleton_append] at hrest
    have hhead : headPlace a (q :: b ++ c) = some (size (entries a) + 10) := if_neg (by simp)
    rw [hhead, List.length_cons, Nat.succ_add_eq_add_succ, Nat.add_succ, zzlFirstLexLoop]
    simp only [zzlLexValueGteMin, hobj, Option.map_some, hlow q List.mem_cons_self, hscore, hnext,
      Option.bind_eq_bind, Option.bind_some, Bool.false_eq_true, if_false]
    exact hrest

theorem zzlFirstLexLoop_stop (h : IsZiplist zl (entries a ++ entries (q :: b)))
    (hmin : zslLexValueGteMin q.text range = true) (fuel : ℕ) :
    zzlFirstLexLoop zl range (fuel + 1) (headPlace a (q :: b))
      = some (if zslLexValueLteMax q.text range then some (size (entries a) + 10) else none) := by
  have hhead : headPlace a (q :: b) = some (size (entries a) + 10) := if_neg (by simp)
  rw [hhead, zzlFirstLexLoop]
  simp only [zzlLexValueGteMin, zzlLexValueLteMax, getObject_pair h, Option.map_some, hmin,
    Option.bind_eq_bind, Option.bind_some, if_true]

theorem zzlLastLexLoop_skip (h : IsZiplist zl (entries (a ++ b) ++ entries c))
    (hhigh : ∀ q ∈ b, zslLexValueLteMax q.text range = false) (fuel : ℕ) :
    zzlLastLexLoop zl range (b.length + fuel) (lastPlace (a ++ b))
      = zzlLastLexLoop zl range fuel (lastPlace a) := by
  induction b using List.reverseRecOn generalizing c with
  | nil => rw [List.length_nil, Nat.zero_add, List.append_nil]
  | append_singleton b q ih =>
    have h' : IsZiplist zl (entries (a ++ b) ++ entries (q :: c)) := by
      rw [← List.append_assoc, Pair.entries_append (a ++ b), List.append_assoc] at h
      exact h
    have hobj := getObject_pair h'
    have hrest := ih h' (fun x hx => hhigh x (List.mem_append_left _ hx))
    rw [← List.append_assoc, lastPlace_concat, List.length_append, List.length_singleton,
      Nat.add_right_comm, zzlLastLexLoop]
    simp only [zzlLexValueLteMax, hobj, Option.map_some, hhigh q (by simp), Option.bind_eq_bind,
      Option.bind_some, Bool.false_eq_true, if_false]
    rcases List.eq_nil_or_concat' (a ++ b) with hnil | ⟨d, r, hd⟩
    · rw [hnil] at h' hrest ⊢
      rw [prev_head h', Option.bind_some]
      exact hrest
    · rw [hd] at h' hrest ⊢
      obtain ⟨sptr, hscore, hprev⟩ := prev_pair h'
      rw [lastPlace_concat] at hrest
      rw [hscore, Option.bind_some]
      simp only [hprev, Option.bind_some]
      exact hrest

theorem zzlLastLexLoop_stop (h : IsZiplist zl (entries (a ++ [q]) ++ entries c))
    (hmax : zslLexValueLteMax q.text range = true) (fuel : ℕ) :
    zzlLastLexLoop zl range (fuel + 1) (lastPlace (a ++ [q]))
      = some (if zslLexValueGteMin q.text range then some (size (entries a) + 10) else none) := by
  have h' : IsZiplist zl (entries a ++ entries (q :: c)) := by
    rw [Pair.entries_append, List.append_assoc] at h
    exact h
  rw [lastPlace_concat, zzlLastLexLoop]
  simp only [zzlLexValueGteMin, zzlLexValueLteMax, getObject_pair h', Option.map_some, hmax,
    Option.bind_eq_bind, Option.bind_some, if_true]

end

/-! ### The first and the last member in a range -/

/-- The members are in order where all scores are the same. -/
def TextsAscend (ps : List Pair) : Prop := ps.Pairwise fun x y => x.text < y.text

theorem exists_cut {α : Type} {r : α → α → Prop} (P : α → Bool) {l : List α}
    (hr : l.Pairwise r) (hdown : ∀ x y, r x y → P y = true → P x = true) :
    ∃ a c, l = a ++ c ∧ (∀ x ∈ a, P x = true) ∧ ∀ y ∈ c, P y = false := by
  induction l with
  | nil => exact ⟨[], [], rfl, fun x hx => absurd hx List.not_mem_nil,
      fun x hx => absurd hx List.not_mem_nil⟩
  | cons x l ih =>
    obtain ⟨hx, hl⟩ := List.pairwise_cons.mp hr
    cases hP : P x with
    | true =>
      obtain ⟨a, c, rfl, ha, hc⟩ := ih hl
      refine ⟨x :: a, c, rfl, fun y hy => ?_, hc⟩
      rcases List.mem_cons.mp hy with rfl | hy
      · exact hP
      · exact ha y hy
    | false =>
      refine ⟨[], x :: l, rfl, fun y hy => absurd hy List.not_mem_nil, fun y hy => ?_⟩
      rcases List.mem_cons.mp hy with rfl | hy
      · exact hP
      · rw [Bool.eq_false_iff]
        intro hPy
        rw [hdown x y (hx y hy) hPy] at hP
        exact absurd hP Bool.noConfusion

section
variable {S : Type} {strtod : Bytes → S} {far : Bytes → Bytes → Bool} {zl : Bytes}
  {ps : List Pair} {range : Zlexrangespec}

theorem ziplistIndex_first (h : IsZiplist zl (entries ps)) :
    ziplistIndex zl 0 = some (headPlace [] ps) := by
  have hindex := ziplistIndex_nat h 0
  rw [Pair.length_entries] at hindex
  cases ps with
  | nil => exact hindex
  | cons q ps =>
    rw [headPlace, if_neg (List.cons_ne_nil q ps)]
    refine hindex.trans ?_
    rw [if_pos (by rw [List.length_cons]; omega)]
    rfl

theorem ziplistIndex_last (h : IsZiplist zl (entries ps)) :
    ziplistIndex zl (-2) = some (lastPlace ps) := by
  have hindex := ziplistIndex_neg h 1
  rw [Pair.length_entries] at hindex
  rcases List.eq_nil_or_concat' ps with rfl | ⟨a, q, rfl⟩
  · exact hindex
  · have hlen : 2 * (a ++ [q]).length - (1 + 1) = (entries a).length := by
      rw [Pair.length_entries, List.length_append, List.length_singleton]
      omega
    rw [lastPlace_concat]
    refine hindex.trans ?_
    rw [if_pos (by rw [List.length_append, List.length_singleton]; omega), hlen,
      Pair.entries_append, List.take_left]

variable (strtod) in
theorem zzlIsInLexRange_spec (h : IsZiplist zl (entries ps)) (hsort : TextsAscend ps)
    (hempty : zslLexRangeEmpty far range = false) :
    ∃ b, zzlIsInLexRange far zl range = some b ∧
      (b = false → ∀ q ∈ ps, Zskiplist.inLexRange range (q.data strtod) = false) := by
  rw [zzlIsInLexRange, hempty, if_neg Bool.false_ne_true, ziplistIndex_last h]
  rcases List.eq_nil_or_concat' ps with rfl | ⟨a, u, rfl⟩
  · exact ⟨false, rfl, fun _ q hq => absurd hq List.not_mem_nil⟩
  have hu : IsZiplist zl (entries a ++ entries [u]) := by
    rw [← Pair.entries_append]
    exact h
  rw [lastPlace_concat]
  simp only [Option.bind_eq_bind, Option.bind_some, zzlLexValueGteMin, getObject_pair hu,
    Option.map_some]
  split
  · rename_i hlow
    refine ⟨false, rfl, fun _ q hq => ?_⟩
    -- the last member is below the range, and so are the others
    rw [Bool.not_eq_true', Bool.eq_false_iff] at hlow
    have hmin : zslLexValueGteMin q.text range = false := by
      rw [Bool.eq_false_iff]
      intro hmin
      rcases List.mem_append.mp hq with hq | hq
      · exact hlow (Zskiplist.zslLexValueGteMin_mono
          ((List.pairwise_append.mp hsort).2.2 q hq u (by simp)) hmin)
      · rw [List.mem_singleton.mp hq] at hmin
        exact hlow hmin
    rw [Zskiplist.inLexRange, Pair.data, hmin, Bool.false_and]
  · cases hps : a ++ [u] with
    | nil => simp at hps
    | cons q t =>
      rw [hps] at h hsort
      have hq : IsZiplist zl (entries [] ++ entries (q :: t)) := h
      rw [ziplistIndex_first h, headPlace, if_neg (List.cons_ne_nil q t)]
      simp only [Option.bind_some, zzlLexValueLteMax, getObject_pair hq, Option.map_some]
      refine ⟨_, rfl, fun hfalse w hw => ?_⟩
      -- the first member is above the range, and so are the others
      have hmax : zslLexValueLteMax w.text range = false := by
        rw [Bool.eq_false_iff] at hfalse ⊢
        intro hmax
        rcases List.mem_cons.mp hw with rfl | hw
        · exact hfalse hmax
        · exact hfalse
            (Zskiplist.zslLexValueLteMax_mono ((List.pairwise_cons.mp hsort).1 w hw) hmax)
      rw [Zskiplist.inLexRange, Pair.data, hmax, Bool.and_false]

theorem filter_elements_eq_nil {p : ℕ}
    (hnone : ∀ q ∈ ps, Zskiplist.inLexRange range (q.data strtod) = false) :
    (elements strtod p ps).filter (fun e => Zskiplist.inLexRange range e.2) = [] := by
  rw [List.filter_eq_nil_iff]
  intro e he
  have hmem : e.2 ∈ ps.map (Pair.data strtod) := by
    rw [← Pair.elements_map_snd p]
    exact List.mem_map_of_mem he
  obtain ⟨q, hq, hdata⟩ := List.mem_map.mp hmem
  rw [← hdata, hnone q hq]
  exact Bool.false_ne_true

variable (strtod) in
theorem zzlFirstInLexRange_spec (h : IsZiplist zl (entries ps)) (hsort : TextsAscend ps)
    (hempty : zslLexRangeEmpty far range = false) :
    zzlFirstInLexRange far zl range = some (((elements strtod 10 ps).filter
      fun e => Zskiplist.inLexRange range e.2).head?.map Prod.fst) := by
  obtain ⟨b, hb, hnone⟩ := zzlIsInLexRange_spec strtod h hsort hempty
  unfold zzlFirstInLexRange
  rw [ziplistIndex_first h]
  simp only [hb, Option.bind_eq_bind, Option.bind_some]
  cases b with
  | false =>
    rw [filter_elements_eq_nil (hnone rfl)]
    rfl
  | true =>
    obtain ⟨a, c, rfl, ha, hc⟩ := exists_cut (fun q => !zslLexValueGteMin q.text range) hsort
      (fun x y hxy hy => by
        rw [Bool.not_eq_true', Bool.eq_false_iff] at hy ⊢
        exact fun hx => hy (Zskiplist.zslLexValueGteMin_mono hxy hx))
    have hlow : ∀ q ∈ a, Zskiplist.inLexRange range (q.data strtod) = false := by
      intro q hq
      have hmin : zslLexValueGteMin q.text range = false := by simpa using ha q hq
      rw [Zskiplist.inLexRange, Pair.data, hmin, Bool.false_and]
    have hfuel : zl.length + 1 = a.length + (zl.length - a.length + 1) := by
      have hlen := h.length_eq
      have hle := length_le_size (entries (a ++ c))
      rw [Pair.length_entries, List.length_append] at hle
      omega
    rw [if_pos rfl, hfuel, zzlFirstLexLoop_skip (a := []) h (fun q hq => by simpa using ha q hq),
      List.nil_append, Pair.elements_append, List.filter_append,
      filter_elements_eq_nil hlow, List.nil_append]
    cases c with
    | nil => rfl
    | cons q c =>
      have hq : IsZiplist zl (entries a ++ entries (q :: c)) := by
        rw [← Pair.entries_append]
        exact h
      have hmin : zslLexValueGteMin q.text range = true := by simpa using hc q List.mem_cons_self
      rw [zzlFirstLexLoop_stop hq hmin, Pair.elements_cons, List.filter_cons,
        Zskiplist.inLexRange, Pair.data, hmin, Bool.true_and]
      cases hmax : zslLexValueLteMax q.text range with
      | true =>
        rw [if_pos rfl, if_pos rfl, Nat.add_comm 10]
        rfl
      | false =>
        have hq' := (List.pairwise_append.mp hsort).2.1
        rw [if_neg Bool.false_ne_true, if_neg Bool.false_ne_true,
          filter_elements_eq_nil fun w hw => by
            have hw' : zslLexValueLteMax w.text range = false := by
              rw [Bool.eq_false_iff] at hmax ⊢
              exact fun hwm =>
                hmax (Zskiplist.zslLexValueLteMax_mono ((List.pairwise_cons.mp hq').1 w hw) hwm)
            rw [Zskiplist.inLexRange, Pair.data, hw', Bool.and_false]]
        rfl

variable (strtod) in
theorem zzlLastInLexRange_spec (h : IsZiplist zl (entries ps)) (hsort : TextsAscend ps)
    (hempty : zslLexRangeEmpty far range = false) :
    zzlLastInLexRange far zl range = some (((elements strtod 10 ps).filter
      fun e => Zskiplist.inLexRange range e.2).getLast?.map Prod.fst) := by
  obtain ⟨b, hb, hnone⟩ := zzlIsInLexRange_spec strtod h hsort hempty
  unfold zzlLastInLexRange
  rw [ziplistIndex_last h]
  simp only [hb, Option.bind_eq_bind, Option.bind_some]
  cases b with
  | false =>
    rw [filter_elements_eq_nil (hnone rfl)]
    rfl
  | true =>
    obtain ⟨a, c, rfl, ha, hc⟩ := exists_cut (fun q => zslLexValueLteMax q.text range) hsort
      (fun x y hxy => Zskiplist.zslLexValueLteMax_mono hxy)
    have hhigh : ∀ q ∈ c, Zskiplist.inLexRange range (q.data strtod) = false := by
      intro q hq
      rw [Zskiplist.inLexRange, Pair.data, hc q hq, Bool.and_false]
    have hfuel : zl.length + 1 = c.length + (zl.length - c.length + 1) := by
      have hlen := h.length_eq
      have hle := length_le_size (entries (a ++ c))
      rw [Pair.length_entries, List.length_append] at hle
      omega
    have hblock : IsZiplist zl (entries (a ++ c) ++ entries []) := by
      rw [Pair.entries_nil, List.append_nil]
      exact h
    rw [if_pos rfl, hfuel, zzlLastLexLoop_skip hblock hc, Pair.elements_append,
      List.filter_append, filter_elements_eq_nil hhigh, List.append_nil]
    rcases List.eq_nil_or_concat' a with rfl | ⟨d, q, rfl⟩
    · rfl
    · have hq : IsZiplist zl (entries (d ++ [q]) ++ entries c) := by
        rw [← Pair.entries_append]
        exact h
      have hmax : zslLexValueLteMax q.text range = true := ha q (by simp)
      rw [zzlLastLexLoop_stop hq hmax, Pair.elements_append, List.filter_append,
        Pair.elements_cons, List.filter_cons, Zskiplist.inLexRange, Pair.data, hmax, Bool.and_true]
      cases hmin : zslLexValueGteMin q.text range with
      | true =>
        rw [if_pos rfl, if_pos rfl, Nat.add_comm 10]
        exact congrArg some (by rw [Pair.elements, List.filter_nil, List.getLast?_concat]; rfl)
      | false =>
        have hd := (List.pairwise_append.mp (List.pairwise_append.mp hsort).1).2.2
        rw [if_neg Bool.false_ne_true, if_neg Bool.false_ne_true,
          filter_elements_eq_nil fun w hw => by
            have hw' : zslLexValueGteMin w.text range = false := by
              rw [Bool.eq_false_iff] at hmin ⊢
              exact fun hwm => hmin (Zskiplist.zslLexValueGteMin_mono (hd w hw q (by simp)) hwm)
            rw [Zskiplist.inLexRange, Pair.data, hw', Bool.false_and]]
        rfl

end

/-! ### Deletions -/

theorem BodyOk.length_le {body text : Bytes} (h : BodyOk body) (ht : bodyText body = some text) :
    body.length ≤ text.length + 9 := by
  obtain ⟨enc, lensize, len, hdec, hlen⟩ := h.decode
  have hcases : (zipIsStr enc = true ∧ lensize ≤ 5) ∨ (lensize = 1 ∧ len ≤ 8) := by
    simp only [zipDecodeLength, Option.bind_eq_bind, Option.bind_eq_some_iff] at hdec
    obtain ⟨b0, -, hdec⟩ := hdec
    split_ifs at hdec with _ h06 h14 h32
    · obtain ⟨rfl, rfl, -⟩ : _ ∧ _ ∧ _ := by simpa using hdec
      exact .inl ⟨by rw [h06]; decide, by omega⟩
    · obtain ⟨_, -, hdec⟩ := Option.bind_eq_some_iff.mp hdec
      obtain ⟨rfl, rfl, -⟩ : _ ∧ _ ∧ _ := by simpa using hdec
      exact .inl ⟨by rw [h14]; decide, by omega⟩
    · simp only [Option.bind_eq_some_iff] at hdec
      obtain ⟨_, -, _, -, _, -, _, -, hdec⟩ := hdec
      obtain ⟨rfl, rfl, -⟩ : _ ∧ _ ∧ _ := by simpa using hdec
      exact .inl ⟨by rw [h32]; decide, le_refl 5⟩
    · obtain ⟨-, rfl, rfl⟩ : _ ∧ _ ∧ _ := by simpa using hdec
      refine .inr ⟨rfl, ?_⟩
      rw [zipIntSize]
      split_ifs <;> omega
  simp only [bodyText, bodyValue, hdec, Option.bind_eq_bind, Option.bind_some] at ht
  rcases hcases with ⟨hstr, hsize⟩ | ⟨rfl, hint⟩
  · rw [if_pos hstr] at ht
    simp only [Option.map_map, Option.map_eq_some_iff] at ht
    obtain ⟨t, hslice, rfl⟩ := ht
    have := (slice_eq_some hslice).2
    show body.length ≤ t.length + 9
    omega
  · omega

theorem Pair.raw_score_lt (q : Pair) (wide : Bool) :
    (q.score.withWidth wide).raw < zipBiglen := by
  have hlen := BodyOk.length_le q.score.body_ok q.number_ok
  have hnumber := q.number_lt
  have hsize : prevSize wide ≤ 5 := by cases wide <;> decide
  rw [Entry.raw_withWidth]
  unfold zipBiglen
  omega

theorem relink_short {prev stale : ℕ} {e : Entry} {es : List Entry} (hprev : prev < zipBiglen)
    (h : Fits stale (e :: es)) : relink prev (e :: es) = e.withWidth false :: es := by
  have hwide : prevWide prev = false := decide_eq_false (Nat.not_le.mpr hprev)
  have hsize : prevSize false ≤ prevSize e.wide := by cases e.wide <;> decide
  rw [relink, hwide]
  congr 1
  cases es with
  | nil => rfl
  | cons f es =>
    refine grow_cons_of_fits ?_ es
    rcases h.2.1 with hf | hf
    · exact .inl hf
    · refine .inr ?_
      rw [Entry.raw_withWidth]
      rw [Entry.raw] at hf
      omega

namespace Pair

/-- What is read of a member. -/
def texts (q : Pair) : Bytes × Bytes := (q.text, q.number)

/-- The same member behind a shorter prevlen field. -/
def shrink (q : Pair) : Pair := { q with member := q.member.withWidth false, text_ok := q.text_ok }

/-- Only the first member has another prevlen field. -/
def shrinkHead : List Pair → List Pair
  | [] => []
  | q :: ps => q.shrink :: ps

theorem map_texts_shrinkHead (ps : List Pair) : (shrinkHead ps).map texts = ps.map texts := by
  cases ps <;> rfl

end Pair

open Pair (texts shrinkHead)

section
variable (junk : ℕ → UInt8) {zl : Bytes} {a ps : List Pair} {q : Pair} {range : Zlexrangespec}

theorem lastRaw_entries_lt (a : List Pair) : lastRaw 0 (entries a) < zipBiglen := by
  rcases List.eq_nil_or_concat' a with rfl | ⟨d, r, rfl⟩
  · exact by decide
  · rw [Pair.entries_append, lastRaw_append]
    exact r.raw_score_lt r.score.wide

theorem zzlDeletePair (h : IsZiplist zl (entries a ++ entries (q :: ps))) :
    ∃ zl₁ zl₂, ziplistDelete junk zl (size (entries a) + 10) = some zl₁ ∧
      ziplistDelete junk zl₁ (size (entries a) + 10) = some zl₂ ∧
      IsZiplist zl₂ (entries a ++ entries (shrinkHead ps)) := by
  have hprev := lastRaw_entries_lt a
  have hroom := h.room
  have hfits := (fits_append.mp h.fits).2
  have hsize : prevSize false ≤ prevSize q.score.wide := by cases q.score.wide <;> decide
  have hraw : q.score.raw = prevSize q.score.wide + q.score.body.length := rfl
  rw [Pair.entries_cons, size_append, size_cons, size_cons, hraw] at hroom
  -- without the member the score is the next entry
  have hmember : relink (lastRaw 0 (entries a)) (q.score :: entries ps)
      = q.score.withWidth false :: entries ps := relink_short hprev hfits.2
  obtain ⟨zl₁, hdel₁, h₁⟩ := ziplistDeleteEntries_mid_isZiplist junk (a := entries a)
    (d := [q.member]) (b := q.score :: entries ps) h (List.cons_ne_nil _ _) (by
      rw [hmember, size_append, size_cons, Entry.raw_withWidth]
      omega)
  rw [hmember] at h₁
  refine ⟨zl₁, ?_⟩
  -- and without the score the next member
  have hscore : relink (lastRaw 0 (entries a)) (entries ps) = entries (shrinkHead ps) := by
    cases ps with
    | nil => rfl
    | cons r ps => exact relink_short hprev hfits.2.2
  have hle : size (entries (shrinkHead ps)) ≤ size (entries ps) := by
    cases ps with
    | nil => exact le_refl _
    | cons r ps =>
      have hshrink : prevSize false ≤ prevSize r.member.wide := by
        cases r.member.wide <;> decide
      have hraw : r.member.raw = prevSize r.member.wide + r.member.body.length := rfl
      simp only [shrinkHead, Pair.entries_cons, size_cons, Pair.shrink, Entry.raw_withWidth, hraw]
      omega
  obtain ⟨zl₂, hdel₂, h₂⟩ := ziplistDeleteEntries_mid_isZiplist junk (a := entries a)
    (d := [q.score.withWidth false]) (b := entries ps) h₁ (List.cons_ne_nil _ _) (by
      rw [hscore, size_append]
      omega)
  rw [hscore] at h₂
  exact ⟨zl₂, hdel₁, hdel₂, h₂⟩

theorem zzlDeleteLexLoop_spec {tb tc : List (Bytes × Bytes)}
    (h : IsZiplist zl (entries a ++ entries ps)) (htexts : ps.map texts = tb ++ tc)
    (hb : ∀ t ∈ tb, zslLexValueLteMax t.1 range = true)
    (hc : ∀ t ∈ tc, zslLexValueLteMax t.1 range = false) (fuel num : ℕ) :
    ∃ zl' ps', zzlDeleteLexLoop junk range (tb.length + (fuel + 1)) zl (size (entries a) + 10) num
        = some (zl', num + tb.length) ∧
      IsZiplist zl' (entries a ++ entries ps') ∧ ps'.map texts = tc := by
  induction tb generalizing zl ps num with
  | nil =>
    refine ⟨zl, ps, ?_, h, htexts⟩
    rw [List.length_nil, Nat.zero_add, zzlDeleteLexLoop]
    cases ps with
    | nil =>
      rw [Pair.entries_nil, List.append_nil] at h
      rw [ziplistNext_end h]
      rfl
    | cons q ps =>
      obtain ⟨sptr, hnext, -⟩ := next_pair h
      have hmax : zslLexValueLteMax q.text range = false :=
        hc q.texts (by rw [← List.nil_append tc, ← htexts]; exact List.mem_cons_self)
      simp only [hnext, Option.bind_eq_bind, Option.bind_some, zzlLexValueLteMax,
        getObject_pair h, Option.map_some, hmax, Bool.false_eq_true, if_false]
      rfl
  | cons t tb ih =>
    cases ps with
    | nil => exact absurd htexts.symm (List.cons_ne_nil _ _)
    | cons q ps =>
      obtain ⟨rfl, htail⟩ := List.cons.inj htexts
      obtain ⟨sptr, hnext, -⟩ := next_pair h
      obtain ⟨zl₁, zl₂, hdel₁, hdel₂, h₂⟩ := zzlDeletePair junk h
      obtain ⟨zl', ps', hloop, h', hps'⟩ := ih h₂ ((Pair.map_texts_shrinkHead ps).trans htail)
        (fun u hu => hb u (List.mem_cons_of_mem _ hu)) (num + 1)
      refine ⟨zl', ps', ?_, h', hps'⟩
      have hmax : zslLexValueLteMax q.text range = true := hb q.texts List.mem_cons_self
      rw [List.length_cons, Nat.add_right_comm, zzlDeleteLexLoop]
      simp only [hnext, Option.bind_eq_bind, Option.bind_some, zzlLexValueLteMax,
        getObject_pair h, Option.map_some, hmax, if_true, hdel₁, hdel₂]
      rw [hloop, Nat.add_assoc, Nat.add_comm 1]

theorem zzlDeleteRangeByLex_spec {S : Type} (strtod : Bytes → S) {far : Bytes → Bytes → Bool}
    (h : IsZiplist zl (entries ps)) (hsort : TextsAscend ps)
    (hempty : zslLexRangeEmpty far range = false) :
    ∃ zl' ps' R, zzlDeleteRangeByLex far junk zl range = some (zl', R.length) ∧
      IsZiplist zl' (entries ps') ∧
      ps.filter (fun q => Zskiplist.inLexRange range (q.data strtod)) = R ∧
      ps'.map texts = (ps.filter fun q =>
        !Zskiplist.inLexRange range (q.data strtod)).map texts := by
  have hfirst := zzlFirstInLexRange_spec strtod h hsort hempty
  obtain ⟨a, c, rfl, ha, hc⟩ := exists_cut (fun q => !zslLexValueGteMin q.text range) hsort
    (fun x y hxy hy => by
      rw [Bool.not_eq_true', Bool.eq_false_iff] at hy ⊢
      exact fun hx => hy (Zskiplist.zslLexValueGteMin_mono hxy hx))
  obtain ⟨R, s, rfl, hR, hs⟩ := exists_cut (fun q => zslLexValueLteMax q.text range)
    (List.pairwise_append.mp hsort).2.1 (fun x y hxy => Zskiplist.zslLexValueLteMax_mono hxy)
  have hbelow : ∀ q ∈ a, Zskiplist.inLexRange range (q.data strtod) = false := by
    intro q hq
    have hmin : zslLexValueGteMin q.text range = false := by simpa using ha q hq
    rw [Zskiplist.inLexRange, Pair.data, hmin, Bool.false_and]
  have hin : ∀ q ∈ R, Zskiplist.inLexRange range (q.data strtod) = true := by
    intro q hq
    have hmin : zslLexValueGteMin q.text range = true := by
      simpa using hc q (List.mem_append_left s hq)
    rw [Zskiplist.inLexRange, Pair.data, hmin, hR q hq, Bool.and_self]
  have habove : ∀ q ∈ s, Zskiplist.inLexRange range (q.data strtod) = false := by
    intro q hq
    rw [Zskiplist.inLexRange, Pair.data, hs q hq, Bool.and_false]
  obtain ⟨hfilter, hrest⟩ := Zskiplist.filter_run hbelow hin habove
  rw [Pair.elements_append, Pair.elements_append, List.filter_append, List.filter_append,
    filter_elements_eq_nil hbelow, filter_elements_eq_nil habove, List.nil_append,
    List.append_nil] at hfirst
  rw [hrest]
  unfold zzlDeleteRangeByLex
  cases R with
  | nil =>
    rw [hfirst]
    exact ⟨zl, _, [], rfl, h, hfilter, rfl⟩
  | cons q R =>
    rw [Pair.elements_cons, List.filter_cons, if_pos (hin q List.mem_cons_self)] at hfirst
    rw [hfirst]
    have hblock : IsZiplist zl (entries a ++ entries (q :: R ++ s)) := by
      rw [← Pair.entries_append]
      exact h
    have hmap : (q :: R ++ s).map texts = (q :: R).map texts ++ s.map texts := List.map_append
    have hRmax : ∀ t ∈ (q :: R).map texts, zslLexValueLteMax t.1 range = true := by
      intro t ht
      obtain ⟨x, hx, rfl⟩ := List.mem_map.mp ht
      exact hR x hx
    have hsmax : ∀ t ∈ s.map texts, zslLexValueLteMax t.1 range = false := by
      intro t ht
      obtain ⟨x, hx, rfl⟩ := List.mem_map.mp ht
      exact hs x hx
    obtain ⟨zl', ps', hloop, h', hps'⟩ := zzlDeleteLexLoop_spec junk hblock hmap hRmax hsmax
      (zl.length - (q :: R).length) 0
    have hfuel : zl.length + 1
        = ((q :: R).map texts).length + (zl.length - (q :: R).length + 1) := by
      have hlen := h.length_eq
      have hle := length_le_size (entries (a ++ (q :: R ++ s)))
      rw [Pair.length_entries, List.length_append, List.length_append] at hle
      rw [List.length_map]
      omega
    have hentries : entries a ++ entries ps' = entries (a ++ ps') := by
      rw [Pair.entries_append]
    rw [← hfuel, Nat.zero_add, List.length_map] at hloop
    rw [hentries] at h'
    refine ⟨zl', a ++ ps', q :: R, ?_, h', hfilter, ?_⟩
    · rw [Nat.add_comm (size (entries a))] at hloop
      exact hloop
    · rw [List.map_append, List.map_append, hps']

end

/-! ### Exact answers -/

open LexEnd (Between Hidden)

section
variable {S : Type} [LinearOrder S]

/-- The functions of the ziplist are right about the elements between `lo` and `hi`. -/
structure LexExact (strtod : Bytes → S) (far : Bytes → Bytes → Bool) (junk : ℕ → UInt8)
    (zl : Bytes) (els : List (ℕ × S × Bytes)) (range : Zlexrangespec) (lo hi : LexEnd) :
    Prop where
  first : zzlFirstInLexRange far zl range
    = some ((els.filter fun e => Between lo hi e.2.2).head?.map Prod.fst)
  last : zzlLastInLexRange far zl range
    = some ((els.filter fun e => Between lo hi e.2.2).getLast?.map Prod.fst)
  delete : ∃ zl' els', zzlDeleteRangeByLex far junk zl range
      = some (zl', (els.filter fun e => Between lo hi e.2.2).length) ∧
    IsZset strtod zl' els' ∧
    els'.map Prod.snd = (els.filter fun e => ¬Between lo hi e.2.2).map Prod.snd

variable {strtod : Bytes → S} {far : Bytes → Bytes → Bool} {junk : ℕ → UInt8} {zl : Bytes}
  {els : List (ℕ × S × Bytes)} {lo hi : LexEnd}

variable (strtod) in
omit [LinearOrder S] in
theorem elements_filter_map_snd (P : Bytes → Bool) (p : ℕ) (ps : List Pair) :
    ((elements strtod p ps).filter fun e => P e.2.2).map Prod.snd
      = (ps.filter fun q => P q.text).map (Pair.data strtod) := by
  induction ps generalizing p with
  | nil => rfl
  | cons q ps ih =>
    rw [Pair.elements_cons, List.filter_cons, List.filter_cons]
    change (if P q.text = true then _ else _ : List (ℕ × S × Bytes)).map Prod.snd = _
    split_ifs
    · rw [List.map_cons, ih, List.map_cons]
    · exact ih _

variable (junk) in
omit [LinearOrder S] in
theorem lexQueries_empty {ps : List Pair} (h : IsZiplist zl (entries ps))
    (hempty : zslLexRangeEmpty far (lo.range hi) = true) :
    zzlFirstInLexRange far zl (lo.range hi) = some none ∧
      zzlLastInLexRange far zl (lo.range hi) = some none ∧
      zzlDeleteRangeByLex far junk zl (lo.range hi) = some (zl, 0) := by
  have hin : zzlIsInLexRange far zl (lo.range hi) = some false := by
    rw [zzlIsInLexRange, hempty, if_pos rfl]
  have hfirst : zzlFirstInLexRange far zl (lo.range hi) = some none := by
    unfold zzlFirstInLexRange
    rw [ziplistIndex_first h, hin]
    rfl
  refine ⟨hfirst, ?_, ?_⟩
  · unfold zzlLastInLexRange
    rw [ziplistIndex_last h, hin]
    rfl
  · unfold zzlDeleteRangeByLex
    rw [hfirst]
    rfl

theorem lexExact_iff (h : IsZset strtod zl els)
    (hscores : ∀ x ∈ els, ∀ y ∈ els, x.2.1 = y.2.1) :
    LexExact strtod far junk zl els (lo.range hi) lo hi
      ↔ ¬Hidden lo hi (els.map fun e => e.2.2) := by
  obtain ⟨ps, hblock, rfl⟩ := h.block
  constructor
  · rintro ⟨hfirst, -, -⟩ ⟨hsentinel, m, hm, hbetween⟩
    have hempty : zslLexRangeEmpty far (lo.range hi) = true :=
      zslLexRangeEmpty_sentinel (LexEnd.sentinel_range.mpr hsentinel)
    obtain ⟨e, he, rfl⟩ := List.mem_map.mp hm
    rw [(lexQueries_empty junk hblock hempty).1, Option.some_inj, eq_comm,
      Option.map_eq_none_iff, List.head?_eq_none_iff, List.filter_eq_nil_iff] at hfirst
    exact hfirst e he (decide_eq_true hbetween)
  · intro hhidden
    cases hempty : zslLexRangeEmpty far (lo.range hi) with
    | true =>
      have hbetween := LexEnd.between_of_empty hempty hhidden
      have hnone : (elements strtod 10 ps).filter (fun e => Between lo hi e.2.2) = [] := by
        rw [List.filter_eq_nil_iff]
        intro e he
        rw [decide_eq_true_iff]
        exact hbetween e.2.2 (List.mem_map_of_mem he)
      have hall : (elements strtod 10 ps).filter (fun e => ¬Between lo hi e.2.2)
          = elements strtod 10 ps := by
        rw [List.filter_eq_self]
        intro e he
        rw [decide_eq_true_iff]
        exact hbetween e.2.2 (List.mem_map_of_mem he)
      obtain ⟨hfirst, hlast, hdelete⟩ := lexQueries_empty junk hblock hempty
      refine ⟨?_, ?_, zl, _, ?_, h, ?_⟩
      · rw [hfirst, hnone]
        rfl
      · rw [hlast, hnone]
        rfl
      · rw [hdelete, hnone]
        rfl
      · rw [hall]
    | false =>
      have hsort : TextsAscend ps := by
        have hsorted := h.sorted
        rw [Pair.elements_map_snd, List.pairwise_map] at hsorted
        refine hsorted.imp_of_mem fun {x y} hx hy hxy => ?_
        have hmem : ∀ q ∈ ps, ∃ e ∈ elements strtod 10 ps, e.2 = q.data strtod := by
          intro q hq
          have hdata : q.data strtod ∈ (elements strtod 10 ps).map Prod.snd := by
            rw [Pair.elements_map_snd]
            exact List.mem_map_of_mem hq
          exact List.mem_map.mp hdata
        obtain ⟨ex, hex, hxdata⟩ := hmem x hx
        obtain ⟨ey, hey, hydata⟩ := hmem y hy
        have hscore := hscores ex hex ey hey
        rw [hxdata, hydata] at hscore
        rcases hxy with hlt | ⟨-, hlt⟩
        · exact absurd hscore hlt.ne
        · exact hlt
      have hfirst := zzlFirstInLexRange_spec strtod hblock hsort hempty
      have hlast := zzlLastInLexRange_spec strtod hblock hsort hempty
      obtain ⟨zl', ps', R, hdelete, h', hR, hrest⟩ :=
        zzlDeleteRangeByLex_spec junk strtod hblock hsort hempty
      simp only [Zskiplist.inLexRange_range] at hfirst hlast hR hrest
      have hdata : (elements strtod 10 ps').map Prod.snd
          = ((elements strtod 10 ps).filter fun e => ¬Between lo hi e.2.2).map Prod.snd := by
        have hread : ∀ l : List Pair, l.map (Pair.data strtod)
            = (l.map texts).map fun t => (strtod t.2, t.1) := by
          intro l
          rw [List.map_map]
          rfl
        rw [Pair.elements_map_snd, hread, hrest, ← hread,
          elements_filter_map_snd strtod (fun m => decide ¬Between lo hi m)]
        refine congrArg (List.map _) (List.filter_congr fun q _ => ?_)
        exact (decide_not).symm
      refine ⟨hfirst, hlast, zl', elements strtod 10 ps', ?_, ⟨⟨ps', h', rfl⟩, ?_⟩, hdata⟩
      · rw [hdelete, ← hR]
        have hlen := congrArg List.length
          (elements_filter_map_snd strtod (fun m => decide (Between lo hi m)) 10 ps)
        rw [List.length_map, List.length_map] at hlen
        rw [hlen]
        rfl
      · rw [hdata]
        exact h.sorted.sublist (List.filter_sublist.map Prod.snd)

end

end Ziplist

/-! ### Both encodings -/

/-- For every range that a client can write and every sorted set whose elements have one
score, the functions of both encodings are right, unless elements of the range are hidden. -/
theorem lex_ranges_exact {S : Type} [Zero S] [LinearOrder S] (strtod : Bytes → S)
    (far : Bytes → Bytes → Bool) (junk : ℕ → UInt8) (lo hi : LexEnd) :
    ∃ range, zslParseLexRange lo.text hi.text = some range ∧
      (∀ (z : Zskiplist S) L dict, Zskiplist.HoldsSorted z L →
        (∀ x ∈ L, ∀ y ∈ L, x.data.1 = y.data.1) →
        (Zskiplist.LexExact far z L dict range lo hi
          ↔ ¬lo.Hidden hi (L.map fun y => y.data.2))) ∧
      ∀ zl els, Ziplist.IsZset strtod zl els →
        (∀ x ∈ els, ∀ y ∈ els, x.2.1 = y.2.1) →
        (Ziplist.LexExact strtod far junk zl els range lo hi
          ↔ ¬lo.Hidden hi (els.map fun e => e.2.2)) := by
  refine ⟨lo.range hi, LexEnd.zslParseLexRange_text lo hi, ?_, ?_⟩
  · intro z L dict h hscores
    exact Zskiplist.lexExact_iff h hscores
  · intro zl els h hscores
    exact Ziplist.lexExact_iff h hscores

theorem Zskiplist.holdsSorted_single (score : ℤ) (m : Bytes) :
    ∃ (z : Zskiplist ℤ) (L : List (SkipChain.Tower (ℤ × Bytes))),
      HoldsSorted z L ∧ L.map SkipChain.Tower.data = [(score, m)] := by
  have hvalid : Valid (zslCreate : Zskiplist ℤ) (.insert 1 1 score m) := by
    refine ⟨fun r n hn => ?_, by decide, by decide, rfl, by decide⟩
    exact absurd hn (by simp [zslCreate])
  obtain ⟨z, L, -, h, ⟨hsort, hmem⟩, hlen⟩ := step_holds (.insert 1 1 score m)
    holdsSorted_zslCreate hvalid (fun _ _ _ heq => absurd heq (by simp))
  refine ⟨z, L, h, ?_⟩
  rcases hL : L.map SkipChain.Tower.data with _ | ⟨q, _ | ⟨r, t⟩⟩
  · have hnil := (hmem (score, m)).mpr (.inl rfl)
    rw [hL] at hnil
    exact absurd hnil List.not_mem_nil
  · have hq : q ∈ L.map SkipChain.Tower.data := by
      rw [hL]
      exact List.mem_singleton_self q
    rcases (hmem q).mp hq with rfl | hnil
    · rfl
    · exact absurd hnil List.not_mem_nil
  · have htwo := congrArg List.length hL
    rw [List.length_map] at htwo
    simp only [Op.growth, List.length_cons, List.length_nil] at htwo hlen
    omega

theorem Ziplist.isZset_single :
    ∃ zl, IsZset (fun _ => (0 : ℤ)) zl [(10, 0, [97])] := by
  let q : Pair :=
    { member := ⟨false, [1, 97], by decide⟩, score := ⟨false, [0xf1], by decide⟩, text := [97],
      number := [48], text_ok := by decide, number_ok := by decide, number_lt := by decide }
  refine ⟨image 2 (Pair.entries [q]), ⟨[q], ⟨⟨2, ?_, rfl⟩, ?_, ?_⟩, rfl⟩, ?_⟩
  · decide
  · exact ⟨.inr (by decide), .inr (by decide), trivial⟩
  · decide
  · exact List.pairwise_singleton _ _

/-- The range from `a` up to any string, in a sorted set that only holds `a`. -/
theorem lex_ranges_exact_single : ∃ range,
    zslParseLexRange (LexEnd.inclusive [97]).text LexEnd.plus.text = some range ∧
      (∃ z L, L.map SkipChain.Tower.data = [((0 : ℤ), [97])] ∧
        Zskiplist.LexExact (fun _ _ => true) z L (fun _ => none) range (.inclusive [97]) .plus) ∧
      ∃ zl, Ziplist.LexExact (fun _ => (0 : ℤ)) (fun _ _ => true) (fun _ => 0) zl
        [(10, 0, [97])] range (.inclusive [97]) .plus := by
  have hvisible : ∀ members, ¬(LexEnd.inclusive [97]).Hidden .plus members := by
    rintro members ⟨⟨h, -⟩ | ⟨h, -⟩, -⟩
    · exact LexEnd.noConfusion h
    · exact LexEnd.noConfusion h
  obtain ⟨range, hparse, hskip, hzip⟩ := lex_ranges_exact (fun _ => (0 : ℤ)) (fun _ _ => true)
    (fun _ => 0) (.inclusive [97]) .plus
  obtain ⟨z, L, h, hL⟩ := Zskiplist.holdsSorted_single 0 [97]
  obtain ⟨zl, hzl⟩ := Ziplist.isZset_single
  refine ⟨range, hparse, ⟨z, L, hL, ?_⟩, zl, ?_⟩
  · refine (hskip z L _ h fun x hx y hy => ?_).mpr (hvisible _)
    have hx' := List.mem_map_of_mem (f := SkipChain.Tower.data) hx
    have hy' := List.mem_map_of_mem (f := SkipChain.Tower.data) hy
    rw [hL, List.mem_singleton] at hx' hy'
    rw [hx', hy']
  · refine (hzip zl _ hzl fun x hx y hy => ?_).mpr (hvisible _)
    rw [List.mem_singleton.mp hx, List.mem_singleton.mp hy]

/-- The member `a` is below `minstring`, and no function finds it in `- (minstring`. -/
theorem lex_range_minstring :
    LexEnd.Between .minus (.exclusive minstringBytes) [97] ∧
    ∃ range, zslParseLexRange LexEnd.minus.text (LexEnd.exclusive minstringBytes).text
        = some range ∧
      (∃ (z : Zskiplist ℤ) (L : _), Zskiplist.HoldsSorted z L ∧
        L.map SkipChain.Tower.data = [((0 : ℤ), [97])] ∧
        Zskiplist.zslFirstInLexRange (fun _ _ => true) z range = some none ∧
        Zskiplist.zslLastInLexRange (fun _ _ => true) z range = some none) ∧
      ∃ zl, Ziplist.IsZset (fun _ => (0 : ℤ)) zl [(10, 0, [97])] ∧
        Ziplist.zzlFirstInLexRange (fun _ _ => true) zl range = some none ∧
        Ziplist.zzlLastInLexRange (fun _ _ => true) zl range = some none ∧
        Ziplist.zzlDeleteRangeByLex (fun _ _ => true) (fun _ => 0) zl range = some (zl, 0) := by
  have hempty : zslLexRangeEmpty (fun _ _ => true)
      (LexEnd.minus.range (.exclusive minstringBytes)) = true :=
    zslLexRangeEmpty_sentinel (LexEnd.sentinel_range.mpr (.inl ⟨rfl, rfl⟩))
  obtain ⟨z, L, h, hL⟩ := Zskiplist.holdsSorted_single 0 [97]
  obtain ⟨zl, hzl⟩ := Ziplist.isZset_single
  obtain ⟨ps, hblock, -⟩ := hzl.block
  refine ⟨by decide, _, LexEnd.zslParseLexRange_text _ _, ⟨z, L, h, hL, ?_⟩, zl, hzl, ?_⟩
  · exact Zskiplist.lexQueries_empty hempty
  · exact Ziplist.lexQueries_empty _ hblock hempty

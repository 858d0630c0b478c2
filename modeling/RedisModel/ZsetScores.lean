/-
Score ranges of sorted sets, in both encodings.

The functions on ziplists are like those of `ZsetZiplist` on lexicographic ranges, but
read the score, which is the entry behind the member.

* `head?_filter_and`, `getLast?_filter_and` — the first and the last element between two
  bounds of a sorted list;
* `zzlFirstInRange_spec`, `zzlLastInRange_spec` — the first and the last member in a range;
* `zzlDeleteRangeByScore_spec` — the members in the range are deleted;
* `score_ranges_exact` — the functions of both encodings are right about every range.
-/
import RedisModel.ZsetZiplist

open ByteBuffer StringNumber

/-! ### Elements between two bounds -/

theorem head?_filter_and {α : Type} {P Q : α → Bool} {l : List α}
    (hQ : l.Pairwise fun x y => Q y = true → Q x = true) :
    (l.filter fun x => P x && Q x).head? = (l.find? P).filter Q := by
  induction l with
  | nil => rfl
  | cons x l ih =>
    obtain ⟨hx, hl⟩ := List.pairwise_cons.mp hQ
    cases hP : P x with
    | false =>
      have hskip : (x :: l).filter (fun y => P y && Q y) = l.filter fun y => P y && Q y := by
        simp [hP]
      rw [hskip, ih hl, List.find?_cons, hP]
    | true =>
      rw [List.find?_cons, hP]
      cases hQx : Q x with
      | true => simp [hP, hQx, Option.filter_some]
      | false =>
        -- what comes behind is above the upper bound too
        have hnone : l.filter (fun y => P y && Q y) = [] := by
          rw [List.filter_eq_nil_iff]
          intro y hy hy'
          have := hx y hy (Bool.and_eq_true_iff.mp hy').2
          rw [hQx] at this
          exact Bool.false_ne_true this
        simp [hP, hQx, hnone, Option.filter_some]

theorem getLast?_filter_and {α : Type} {P Q : α → Bool} {l : List α}
    (hP : l.Pairwise fun x y => P x = true → P y = true) :
    (l.filter fun x => P x && Q x).getLast? = (l.reverse.find? Q).filter P := by
  have hswap : (fun x => P x && Q x) = fun x => Q x && P x := funext fun x => Bool.and_comm _ _
  rw [List.getLast?_eq_head?_reverse, ← List.filter_reverse, hswap]
  exact head?_filter_and (List.pairwise_reverse.mpr hP)

namespace Ziplist

open Pair (entries elements)

/-! ### The functions -/

section
variable {S : Type} (strtod : Bytes → S) (ofInt : ℤ → S)

/-- `zzlGetScore`.  A string is copied to a buffer of 128 bytes and ended by a null byte
there. -/
def zzlGetScore (zl : Bytes) (sptr : ℕ) : Option S := do
  match ← ziplistGet (zl.drop sptr) with
  | .str s => if s.length < 128 then some (strtod s) else none
  | .int v => some (ofInt v)

variable [LinearOrder S]

def zzlIsInRange (zl : Bytes) (range : Zrangespec S) : Option Bool :=
  if range.min > range.max ∨ (range.min = range.max ∧ (range.minex ∨ range.maxex)) then some false
  else do
    match ← ziplistIndex zl (-1) with
    | none => some false
    | some p => do
      let score ← zzlGetScore strtod ofInt zl p
      if !zslValueGteMin score range then some false
      else do
        let first ← ziplistIndex zl 1
        -- `redisAssert(p != NULL)`
        let p ← first
        let score ← zzlGetScore strtod ofInt zl p
        some (zslValueLteMax score range)

/-- The loop of `zzlFirstInRange`. -/
def zzlFirstLoop (zl : Bytes) (range : Zrangespec S) : ℕ → Option ℕ → Option (Option ℕ)
  | 0, _ => none
  | _ + 1, none => some none
  | fuel + 1, some eptr => do
    let next ← ziplistNext zl eptr
    -- `redisAssert(sptr != NULL)`
    let sptr ← next
    let score ← zzlGetScore strtod ofInt zl sptr
    if zslValueGteMin score range then
      some (if zslValueLteMax score range then some eptr else none)
    else do
      let next ← ziplistNext zl sptr
      zzlFirstLoop zl range fuel next

def zzlFirstInRange (zl : Bytes) (range : Zrangespec S) : Option (Option ℕ) := do
  let eptr ← ziplistIndex zl 0
  let inRange ← zzlIsInRange strtod ofInt zl range
  if inRange then zzlFirstLoop strtod ofInt zl range (zl.length + 1) eptr else some none

/-- The loop of `zzlLastInRange`. -/
def zzlLastLoop (zl : Bytes) (range : Zrangespec S) : ℕ → Option ℕ → Option (Option ℕ)
  | 0, _ => none
  | _ + 1, none => some none
  | fuel + 1, some eptr => do
    let next ← ziplistNext zl eptr
    -- `redisAssert(sptr != NULL)`
    let sptr ← next
    let score ← zzlGetScore strtod ofInt zl sptr
    if zslValueLteMax score range then
      some (if zslValueGteMin score range then some eptr else none)
    else do
      match ← ziplistPrev zl eptr with
      | none => zzlLastLoop zl range fuel none
      | some sptr => do
        let prev ← ziplistPrev zl sptr
        -- `redisAssert((eptr = ziplistPrev(zl,sptr)) != NULL)`
        let eptr ← prev
        zzlLastLoop zl range fuel (some eptr)

def zzlLastInRange (zl : Bytes) (range : Zrangespec S) : Option (Option ℕ) := do
  let eptr ← ziplistIndex zl (-2)
  let inRange ← zzlIsInRange strtod ofInt zl range
  if inRange then zzlLastLoop strtod ofInt zl range (zl.length + 1) eptr else some none

/-- The loop of `zzlDeleteRangeByScore`; a deletion leaves the offset as it is. -/
def zzlDeleteScoreLoop (junk : ℕ → UInt8) (range : Zrangespec S) :
    ℕ → Bytes → ℕ → ℕ → Option (Bytes × ℕ)
  | 0, _, _, _ => none
  | fuel + 1, zl, eptr, num => do
    match ← ziplistNext zl eptr with
    | none => some (zl, num)
    | some sptr => do
      let score ← zzlGetScore strtod ofInt zl sptr
      if zslValueLteMax score range then do
        let zl ← ziplistDelete junk zl eptr
        let zl ← ziplistDelete junk zl eptr
        zzlDeleteScoreLoop junk range fuel zl eptr (num + 1)
      else some (zl, num)

/-- `zzlDeleteRangeByScore`: the block and the number of members deleted. -/
def zzlDeleteRangeByScore (junk : ℕ → UInt8) (zl : Bytes) (range : Zrangespec S) :
    Option (Bytes × ℕ) := do
  match ← zzlFirstInRange strtod ofInt zl range with
  | none => some (zl, 0)
  | some eptr => zzlDeleteScoreLoop strtod ofInt junk range (zl.length + 1) zl eptr 0

end

/-! ### The loops -/

section
variable {S : Type} {strtod : Bytes → S} {ofInt : ℤ → S} {zl : Bytes} {a b ps : List Pair}
  {q r : Pair}

/-- `strtod` reads the decimal digits of an integer as the number the integer is converted
to. -/
def ReadsIntegers (strtod : Bytes → S) (ofInt : ℤ → S) : Prop :=
  ∀ v, strtod (ll2string v) = ofInt v

theorem getScore_pair (hint : ReadsIntegers strtod ofInt)
    (h : IsZiplist zl (entries a ++ entries (q :: b))) :
    zzlGetScore strtod ofInt zl (size (entries a ++ [q.member]) + 10)
      = some (strtod q.number) := by
  have h' : IsZiplist zl ((entries a ++ [q.member]) ++ q.score :: entries b) := by
    rw [List.append_assoc]
    exact h
  obtain ⟨v, hget, hv⟩ := h'.get_mid q.number_ok
  rw [zzlGetScore, hget, ← hv]
  cases v with
  | str s =>
    have hlen : s.length < 128 := by
      have := q.number_lt
      rwa [← hv] at this
    exact if_pos hlen
  | int v => exact congrArg some (hint v).symm

theorem next_score (hint : ReadsIntegers strtod ofInt)
    (h : IsZiplist zl (entries a ++ entries (q :: b))) :
    ∃ sptr, ziplistNext zl (size (entries a) + 10) = some (some sptr) ∧
      zzlGetScore strtod ofInt zl sptr = some (strtod q.number) ∧
      ziplistNext zl sptr = some (headPlace (a ++ [q]) b) := by
  obtain ⟨sptr, hscore, hnext⟩ := next_pair h
  have hplace : ziplistNext zl (size (entries a) + 10)
      = some (some (size (entries a ++ [q.member]) + 10)) :=
    (ziplistNext_mid h).trans (by rw [if_neg (by simp)])
  obtain rfl : sptr = size (entries a ++ [q.member]) + 10 :=
    Option.some_inj.mp (Option.some_inj.mp (hscore.symm.trans hplace))
  exact ⟨_, hscore, getScore_pair hint h, hnext⟩

variable [LinearOrder S] {range : Zrangespec S}

variable (range) in
theorem zzlFirstLoop_eq (hint : ReadsIntegers strtod ofInt)
    (h : IsZiplist zl (entries a ++ entries ps)) {fuel : ℕ} (hfuel : ps.length < fuel) :
    zzlFirstLoop strtod ofInt zl range fuel (headPlace a ps)
      = some ((((elements strtod (size (entries a) + 10) ps).find? fun e =>
          zslValueGteMin e.2.1 range).filter fun e => zslValueLteMax e.2.1 range).map Prod.fst) := by
  induction ps generalizing a fuel with
  | nil =>
    obtain ⟨fuel, rfl⟩ := Nat.exists_eq_add_of_lt hfuel
    rfl
  | cons q ps ih =>
    obtain ⟨fuel, rfl⟩ := Nat.exists_eq_add_of_lt hfuel
    obtain ⟨sptr, hscore, hget, hnext⟩ := next_score hint h
    have hhead : headPlace a (q :: ps) = some (size (entries a) + 10) := if_neg (by simp)
    have h' : IsZiplist zl (entries (a ++ [q]) ++ entries ps) := by
      rw [Pair.entries_append, List.append_assoc]
      exact h
    have hpos : size (entries (a ++ [q])) + 10 = size (entries a) + 10 + q.raw := by
      rw [Pair.entries_append, Pair.entries_cons, Pair.entries_nil, size_append, size_cons,
        size_cons, Pair.raw]
      have hnil : size [] = 0 := rfl
      omega
    have hrest : zzlFirstLoop strtod ofInt zl range ((q :: ps).length + fuel)
        (headPlace (a ++ [q]) ps) = _ := ih h' (by rw [List.length_cons]; omega)
    rw [hhead, zzlFirstLoop]
    simp only [hscore, hget, hnext, Option.bind_eq_bind, Option.bind_some]
    rw [Pair.elements_cons, List.find?_cons]
    cases hmin : zslValueGteMin (strtod q.number) range with
    | true =>
      have hdata : zslValueGteMin (q.data strtod).1 range = true := hmin
      simp only [if_true, hdata, Option.filter_some]
      cases hmax : zslValueLteMax (strtod q.number) range with
      | true =>
        have hdata : zslValueLteMax (q.data strtod).1 range = true := hmax
        simp [hdata]
      | false =>
        have hdata : zslValueLteMax (q.data strtod).1 range = false := hmax
        simp [hdata]
    | false =>
      have hdata : zslValueGteMin (q.data strtod).1 range = false := hmin
      simp only [Bool.false_eq_true, if_false, hdata]
      rw [hrest, hpos]

variable (range) in
theorem zzlLastLoop_eq (hint : ReadsIntegers strtod ofInt)
    (h : IsZiplist zl (entries ps ++ entries b)) {fuel : ℕ} (hfuel : ps.length < fuel) :
    zzlLastLoop strtod ofInt zl range fuel (lastPlace ps)
      = some ((((elements strtod 10 ps).reverse.find? fun e =>
          zslValueLteMax e.2.1 range).filter fun e => zslValueGteMin e.2.1 range).map Prod.fst) := by
  induction ps using List.reverseRecOn generalizing b fuel with
  | nil =>
    obtain ⟨fuel, rfl⟩ := Nat.exists_eq_add_of_lt hfuel
    rfl
  | append_singleton ps q ih =>
    rw [List.length_append, List.length_singleton] at hfuel
    obtain ⟨fuel, rfl⟩ := Nat.exists_eq_add_of_lt hfuel
    have h' : IsZiplist zl (entries ps ++ entries (q :: b)) := by
      rw [Pair.entries_append, List.append_assoc] at h
      exact h
    obtain ⟨sptr, hscore, hget, -⟩ := next_score hint h'
    have hrest : zzlLastLoop strtod ofInt zl range (ps.length + 1 + fuel) (lastPlace ps) = _ :=
      ih h' (by omega)
    have hlast : (elements strtod 10 (ps ++ [q])).reverse
        = (size (entries ps) + 10, q.data strtod) :: (elements strtod 10 ps).reverse := by
      rw [Pair.elements_append, List.reverse_append, Nat.add_comm 10]
      rfl
    rw [lastPlace_concat, zzlLastLoop, hlast, List.find?_cons]
    simp only [hscore, hget, Option.bind_eq_bind, Option.bind_some]
    cases hmax : zslValueLteMax (strtod q.number) range with
    | true =>
      have hdata : zslValueLteMax (q.data strtod).1 range = true := hmax
      simp only [if_true, hdata, Option.filter_some]
      cases hmin : zslValueGteMin (strtod q.number) range with
      | true =>
        have hdata : zslValueGteMin (q.data strtod).1 range = true := hmin
        simp [hdata]
      | false =>
        have hdata : zslValueGteMin (q.data strtod).1 range = false := hmin
        simp [hdata]
    | false =>
      have hdata : zslValueLteMax (q.data strtod).1 range = false := hmax
      simp only [Bool.false_eq_true, if_false, hdata]
      rcases List.eq_nil_or_concat' ps with rfl | ⟨d, r, rfl⟩
      · rw [prev_head h', Option.bind_some]
        exact hrest
      · obtain ⟨sptr, hprev, hprev'⟩ := prev_pair h'
        rw [lastPlace_concat] at hrest
        rw [hprev, Option.bind_some]
        simp only [hprev', Option.bind_some]
        exact hrest

/-! ### The first and the last member in a range -/

/-- The members are in the order of their scores. -/
def ScoresAscend (strtod : Bytes → S) (ps : List Pair) : Prop :=
  ps.Pairwise fun x y => strtod x.number ≤ strtod y.number

theorem ScoresAscend.elements (hsort : ScoresAscend strtod ps) (p : ℕ) :
    (elements strtod p ps).Pairwise fun x y => x.2.1 ≤ y.2.1 := by
  have hdata : ((Pair.elements strtod p ps).map Prod.snd).Pairwise fun x y => x.1 ≤ y.1 := by
    rw [Pair.elements_map_snd, List.pairwise_map]
    exact hsort
  rw [List.pairwise_map] at hdata
  exact hdata

omit [LinearOrder S] in
theorem ziplistIndex_lastScore (h : IsZiplist zl (entries (a ++ [q]))) :
    ziplistIndex zl (-1) = some (some (size (entries a ++ [q.member]) + 10)) := by
  have hindex := ziplistIndex_neg h 0
  have hentries : entries (a ++ [q]) = (entries a ++ [q.member]) ++ [q.score] := by
    rw [Pair.entries_append, Pair.entries_cons, Pair.entries_nil, List.append_assoc]
    rfl
  have hlen : (entries (a ++ [q])).length - (0 + 1) = (entries a ++ [q.member]).length := by
    rw [hentries, List.length_append, List.length_singleton, Nat.zero_add, Nat.add_sub_cancel]
  refine hindex.trans ?_
  rw [if_pos (by rw [hentries, List.length_append, List.length_singleton]; omega), hlen, hentries,
    List.take_left]

omit [LinearOrder S] in
theorem ziplistIndex_firstScore (h : IsZiplist zl (entries (q :: b))) :
    ziplistIndex zl 1 = some (some (size (entries [] ++ [q.member]) + 10)) := by
  have hindex := ziplistIndex_nat h 1
  refine hindex.trans ?_
  rw [if_pos (by rw [Pair.entries_cons, List.length_cons, List.length_cons]; omega)]
  rfl

theorem not_inRange_of_empty {score : S} (hempty : range.min > range.max ∨
    (range.min = range.max ∧ (range.minex ∨ range.maxex))) :
    zslValueGteMin score range = true → zslValueLteMax score range = false := by
  intro hmin
  rw [Bool.eq_false_iff]
  intro hmax
  unfold zslValueGteMin at hmin
  unfold zslValueLteMax at hmax
  rcases hempty with hgt | ⟨heq, hex⟩
  · split_ifs at hmin hmax <;> simp only [decide_eq_true_eq] at hmin hmax
    · exact absurd (hmin.trans hmax) hgt.not_gt
    · exact absurd (hmin.trans_le hmax) hgt.not_gt
    · exact absurd (hmin.trans_lt hmax) hgt.not_gt
    · exact absurd (hmin.trans hmax) hgt.not_ge
  · rw [← heq] at hmax
    split_ifs at hmin hmax with h₁ h₂ h₂ <;> simp only [decide_eq_true_eq] at hmin hmax
    · exact absurd hmin hmax.not_gt
    · exact absurd hmin hmax.not_gt
    · exact absurd hmax hmin.not_gt
    · exact hex.elim h₁ h₂

theorem zzlIsInRange_spec (hint : ReadsIntegers strtod ofInt) (h : IsZiplist zl (entries ps))
    (hsort : ScoresAscend strtod ps) :
    ∃ inRange, zzlIsInRange strtod ofInt zl range = some inRange ∧ (inRange = false →
      ∀ q ∈ ps, (zslValueGteMin (strtod q.number) range &&
        zslValueLteMax (strtod q.number) range) = false) := by
  unfold zzlIsInRange
  split
  · rename_i hempty
    refine ⟨false, rfl, fun _ q _ => ?_⟩
    cases hmin : zslValueGteMin (strtod q.number) range with
    | false => exact Bool.false_and _
    | true => rw [not_inRange_of_empty hempty hmin, Bool.and_false]
  rcases List.eq_nil_or_concat' ps with rfl | ⟨a, u, rfl⟩
  · have hnone : ziplistIndex zl (-1) = some none := ziplistIndex_neg h 0
    rw [hnone]
    exact ⟨false, rfl, fun _ q hq => absurd hq List.not_mem_nil⟩
  have hu : IsZiplist zl (entries a ++ entries [u]) := by
    rw [← Pair.entries_append]
    exact h
  rw [ziplistIndex_lastScore h]
  simp only [Option.bind_eq_bind, Option.bind_some, getScore_pair hint hu]
  split
  · rename_i hlow
    refine ⟨false, rfl, fun _ q hq => ?_⟩
    -- the last score is below the range, and so are the others
    have hle : strtod q.number ≤ strtod u.number := by
      rcases List.mem_append.mp hq with hq | hq
      · exact (List.pairwise_append.mp hsort).2.2 q hq u (List.mem_singleton_self u)
      · rw [List.mem_singleton.mp hq]
    rw [Bool.not_eq_true', Bool.eq_false_iff] at hlow
    have hmin : zslValueGteMin (strtod q.number) range = false := by
      rw [Bool.eq_false_iff]
      exact fun hmin => hlow (Zskiplist.zslValueGteMin_mono hle hmin)
    rw [hmin, Bool.false_and]
  · cases hps : a ++ [u] with
    | nil => simp at hps
    | cons q t =>
      rw [hps] at h hsort
      have hq : IsZiplist zl (entries [] ++ entries (q :: t)) := h
      rw [ziplistIndex_firstScore h]
      simp only [Option.bind_some, getScore_pair hint hq]
      refine ⟨_, rfl, fun hfalse w hw => ?_⟩
      -- the first score is above the range, and so are the others
      have hle : strtod q.number ≤ strtod w.number := by
        rcases List.mem_cons.mp hw with rfl | hw
        · exact le_refl _
        · exact (List.pairwise_cons.mp hsort).1 w hw
      have hmax : zslValueLteMax (strtod w.number) range = false := by
        rw [Bool.eq_false_iff] at hfalse ⊢
        exact fun hmax => hfalse (Zskiplist.zslValueLteMax_mono hle hmax)
      rw [hmax, Bool.and_false]

theorem filter_inRange_eq_nil {p : ℕ} (hnone : ∀ q ∈ ps,
    (zslValueGteMin (strtod q.number) range && zslValueLteMax (strtod q.number) range) = false) :
    (elements strtod p ps).filter (fun e => Zskiplist.inRange range e.2) = [] := by
  rw [List.filter_eq_nil_iff]
  intro e he
  have hmem : e.2 ∈ ps.map (Pair.data strtod) := by
    rw [← Pair.elements_map_snd p]
    exact List.mem_map_of_mem he
  obtain ⟨q, hq, hdata⟩ := List.mem_map.mp hmem
  have hfalse : Zskiplist.inRange range (q.data strtod) = false := hnone q hq
  rw [← hdata, hfalse]
  exact Bool.false_ne_true

omit [LinearOrder S] in
theorem length_pairs_lt (h : IsZiplist zl (entries ps)) : ps.length < zl.length + 1 := by
  have hlen := h.length_eq
  have hle := length_le_size (entries ps)
  rw [Pair.length_entries] at hle
  omega

variable (range) in
theorem zzlFirstInRange_spec (hint : ReadsIntegers strtod ofInt) (h : IsZiplist zl (entries ps))
    (hsort : ScoresAscend strtod ps) :
    zzlFirstInRange strtod ofInt zl range = some (((elements strtod 10 ps).filter
      fun e => Zskiplist.inRange range e.2).head?.map Prod.fst) := by
  obtain ⟨inRange, hin, hnone⟩ := zzlIsInRange_spec hint h hsort
  unfold zzlFirstInRange
  rw [ziplistIndex_first h, hin]
  simp only [Option.bind_eq_bind, Option.bind_some]
  cases inRange with
  | false =>
    rw [filter_inRange_eq_nil (hnone rfl)]
    rfl
  | true =>
    have hloop := zzlFirstLoop_eq (a := []) range hint h (length_pairs_lt h)
    have hsearch := head?_filter_and (P := fun e : ℕ × S × Bytes => zslValueGteMin e.2.1 range)
      (Q := fun e => zslValueLteMax e.2.1 range)
      ((hsort.elements 10).imp fun hle hmax => Zskiplist.zslValueLteMax_mono hle hmax)
    exact hloop.trans (congrArg some (congrArg (Option.map Prod.fst) hsearch.symm))

theorem zzlLastInRange_spec (hint : ReadsIntegers strtod ofInt) (h : IsZiplist zl (entries ps))
    (hsort : ScoresAscend strtod ps) :
    zzlLastInRange strtod ofInt zl range = some (((elements strtod 10 ps).filter
      fun e => Zskiplist.inRange range e.2).getLast?.map Prod.fst) := by
  obtain ⟨inRange, hin, hnone⟩ := zzlIsInRange_spec hint h hsort
  unfold zzlLastInRange
  rw [ziplistIndex_last h, hin]
  simp only [Option.bind_eq_bind, Option.bind_some]
  cases inRange with
  | false =>
    rw [filter_inRange_eq_nil (hnone rfl)]
    rfl
  | true =>
    have hblock : IsZiplist zl (entries ps ++ entries []) := by
      rw [Pair.entries_nil, List.append_nil]
      exact h
    have hloop := zzlLastLoop_eq range hint hblock (length_pairs_lt h)
    have hsearch := getLast?_filter_and (P := fun e : ℕ × S × Bytes => zslValueGteMin e.2.1 range)
      (Q := fun e => zslValueLteMax e.2.1 range)
      ((hsort.elements 10).imp fun hle hmin => Zskiplist.zslValueGteMin_mono hle hmin)
    exact hloop.trans (congrArg some (congrArg (Option.map Prod.fst) hsearch.symm))

/-! ### Deletions -/

variable (junk : ℕ → UInt8)

open Pair (texts shrinkHead)

theorem zzlDeleteScoreLoop_spec (hint : ReadsIntegers strtod ofInt) {tb tc : List (Bytes × Bytes)}
    (h : IsZiplist zl (entries a ++ entries ps)) (htexts : ps.map texts = tb ++ tc)
    (hb : ∀ t ∈ tb, zslValueLteMax (strtod t.2) range = true)
    (hc : ∀ t ∈ tc, zslValueLteMax (strtod t.2) range = false) (fuel num : ℕ) :
    ∃ zl' ps', zzlDeleteScoreLoop strtod ofInt junk range (tb.length + (fuel + 1)) zl
        (size (entries a) + 10) num = some (zl', num + tb.length) ∧
      IsZiplist zl' (entries a ++ entries ps') ∧ ps'.map texts = tc := by
  induction tb generalizing zl ps num with
  | nil =>
    refine ⟨zl, ps, ?_, h, htexts⟩
    rw [List.length_nil, Nat.zero_add, zzlDeleteScoreLoop]
    cases ps with
    | nil =>
      rw [Pair.entries_nil, List.append_nil] at h
      rw [ziplistNext_end h]
      rfl
    | cons q ps =>
      obtain ⟨sptr, hnext, hget, -⟩ := next_score hint h
      have hmax : zslValueLteMax (strtod q.number) range = false :=
        hc q.texts (by rw [← List.nil_append tc, ← htexts]; exact List.mem_cons_self)
      simp only [hnext, hget, Option.bind_eq_bind, Option.bind_some, hmax, Bool.false_eq_true,
        if_false]
      rfl
  | cons t tb ih =>
    cases ps with
    | nil => exact absurd htexts.symm (List.cons_ne_nil _ _)
    | cons q ps =>
      obtain ⟨rfl, htail⟩ := List.cons.inj htexts
      obtain ⟨sptr, hnext, hget, -⟩ := next_score hint h
      obtain ⟨zl₁, zl₂, hdel₁, hdel₂, h₂⟩ := zzlDeletePair junk h
      obtain ⟨zl', ps', hloop, h', hps'⟩ := ih h₂ ((Pair.map_texts_shrinkHead ps).trans htail)
        (fun u hu => hb u (List.mem_cons_of_mem _ hu)) (num + 1)
      refine ⟨zl', ps', ?_, h', hps'⟩
      have hmax : zslValueLteMax (strtod q.number) range = true := hb q.texts List.mem_cons_self
      rw [List.length_cons, Nat.add_right_comm, zzlDeleteScoreLoop]
      simp only [hnext, hget, Option.bind_eq_bind, Option.bind_some, hmax, if_true, hdel₁, hdel₂]
      rw [hloop, Nat.add_assoc, Nat.add_comm 1]

variable (range) in
theorem zzlDeleteRangeByScore_spec (hint : ReadsIntegers strtod ofInt)
    (h : IsZiplist zl (entries ps)) (hsort : ScoresAscend strtod ps) :
    ∃ zl' ps' R, zzlDeleteRangeByScore strtod ofInt junk zl range = some (zl', R.length) ∧
      IsZiplist zl' (entries ps') ∧
      ps.filter (fun q => Zskiplist.inRange range (q.data strtod)) = R ∧
      ps'.map texts = (ps.filter fun q =>
        !Zskiplist.inRange range (q.data strtod)).map texts := by
  have hfirst := zzlFirstInRange_spec range hint h hsort
  -- the members are those below the range, in it and above it
  obtain ⟨a, c, rfl, ha, hc⟩ := exists_cut
    (fun q : Pair => !zslValueGteMin (strtod q.number) range) hsort (fun x y hxy hy => by
      rw [Bool.not_eq_true', Bool.eq_false_iff] at hy ⊢
      exact fun hx => hy (Zskiplist.zslValueGteMin_mono hxy hx))
  obtain ⟨R, s, rfl, hR, hs⟩ := exists_cut
    (fun q : Pair => zslValueLteMax (strtod q.number) range)
    (List.pairwise_append.mp hsort).2.1 (fun x y hxy => Zskiplist.zslValueLteMax_mono hxy)
  have hbelow : ∀ q ∈ a, Zskiplist.inRange range (q.data strtod) = false := by
    intro q hq
    have hmin : zslValueGteMin (strtod q.number) range = false := by simpa using ha q hq
    rw [Zskiplist.inRange, Pair.data, hmin, Bool.false_and]
  have hin : ∀ q ∈ R, Zskiplist.inRange range (q.data strtod) = true := by
    intro q hq
    have hmin : zslValueGteMin (strtod q.number) range = true := by
      simpa using hc q (List.mem_append_left s hq)
    rw [Zskiplist.inRange, Pair.data, hmin, hR q hq, Bool.and_self]
  have habove : ∀ q ∈ s, Zskiplist.inRange range (q.data strtod) = false := by
    intro q hq
    rw [Zskiplist.inRange, Pair.data, hs q hq, Bool.and_false]
  obtain ⟨hfilter, hrest⟩ := Zskiplist.filter_run hbelow hin habove
  rw [Pair.elements_append, Pair.elements_append, List.filter_append, List.filter_append,
    filter_inRange_eq_nil hbelow, filter_inRange_eq_nil habove, List.nil_append,
    List.append_nil] at hfirst
  rw [hrest]
  unfold zzlDeleteRangeByScore
  cases R with
  | nil =>
    rw [hfirst]
    exact ⟨zl, _, [], rfl, h, hfilter, rfl⟩
  | cons q R =>
    rw [Pair.elements_cons, List.filter_cons, if_pos (hin q List.mem_cons_self)] at hfirst
    rw [hfirst]
    have hblock : IsZiplist zl (entries a ++ entries (q :: R ++ s)) := by
      rw [← Pair.entries_append]
      exact h
    have hmap : (q :: R ++ s).map texts = (q :: R).map texts ++ s.map texts := List.map_append
    have hRmax : ∀ t ∈ (q :: R).map texts, zslValueLteMax (strtod t.2) range = true := by
      intro t ht
      obtain ⟨x, hx, rfl⟩ := List.mem_map.mp ht
      exact hR x hx
    have hsmax : ∀ t ∈ s.map texts, zslValueLteMax (strtod t.2) range = false := by
      intro t ht
      obtain ⟨x, hx, rfl⟩ := List.mem_map.mp ht
      exact hs x hx
    obtain ⟨zl', ps', hloop, h', hps'⟩ := zzlDeleteScoreLoop_spec junk hint hblock hmap hRmax
      hsmax (zl.length - (q :: R).length) 0
    have hfuel : zl.length + 1
        = ((q :: R).map texts).length + (zl.length - (q :: R).length + 1) := by
      have hlen := length_pairs_lt h
      rw [List.length_append, List.length_append] at hlen
      rw [List.length_map]
      omega
    have hentries : entries a ++ entries ps' = entries (a ++ ps') := by
      rw [Pair.entries_append]
    rw [← hfuel, Nat.zero_add, List.length_map] at hloop
    rw [hentries] at h'
    refine ⟨zl', a ++ ps', q :: R, ?_, h', hfilter, ?_⟩
    · rw [Nat.add_comm (size (entries a))] at hloop
      exact hloop
    · rw [List.map_append, List.map_append, hps']

/-! ### Exact answers -/

/-- The functions of the ziplist are right about the elements in the range. -/
structure ScoreExact (strtod : Bytes → S) (ofInt : ℤ → S) (junk : ℕ → UInt8) (zl : Bytes)
    (els : List (ℕ × S × Bytes)) (range : Zrangespec S) : Prop where
  first : zzlFirstInRange strtod ofInt zl range
    = some ((els.filter fun e => Zskiplist.inRange range e.2).head?.map Prod.fst)
  last : zzlLastInRange strtod ofInt zl range
    = some ((els.filter fun e => Zskiplist.inRange range e.2).getLast?.map Prod.fst)
  delete : ∃ zl' els', zzlDeleteRangeByScore strtod ofInt junk zl range
      = some (zl', (els.filter fun e => Zskiplist.inRange range e.2).length) ∧
    IsZset strtod zl' els' ∧
    els'.map Prod.snd = (els.filter fun e => !Zskiplist.inRange range e.2).map Prod.snd

variable (strtod) in
omit [LinearOrder S] in
theorem map_data_elements_filter (P : S × Bytes → Bool) (p : ℕ) (ps : List Pair) :
    ((elements strtod p ps).filter fun e => P e.2).map Prod.snd
      = (ps.filter fun q => P (q.data strtod)).map (Pair.data strtod) := by
  have hfst : (elements strtod p ps).filter (fun e => P e.2)
      = (elements strtod p ps).filter (P ∘ Prod.snd) := rfl
  rw [hfst, ← List.filter_map, Pair.elements_map_snd, List.filter_map]
  rfl

theorem scoreExact (hint : ReadsIntegers strtod ofInt) {els : List (ℕ × S × Bytes)}
    (h : IsZset strtod zl els) : ScoreExact strtod ofInt junk zl els range := by
  obtain ⟨ps, hblock, rfl⟩ := h.block
  have hsort : ScoresAscend strtod ps := by
    have hsorted := h.sorted
    rw [Pair.elements_map_snd, List.pairwise_map] at hsorted
    exact hsorted.imp fun hxy => hxy.score_le
  obtain ⟨zl', ps', R, hdelete, h', hR, hrest⟩ :=
    zzlDeleteRangeByScore_spec range junk hint hblock hsort
  have hdata : (elements strtod 10 ps').map Prod.snd = ((elements strtod 10 ps).filter
      fun e => !Zskiplist.inRange range e.2).map Prod.snd := by
    have hread : ∀ l : List Pair, l.map (Pair.data strtod)
        = (l.map texts).map fun t => (strtod t.2, t.1) := by
      intro l
      rw [List.map_map]
      rfl
    rw [Pair.elements_map_snd, hread, hrest, ← hread,
      map_data_elements_filter strtod fun e => !Zskiplist.inRange range e]
  refine ⟨zzlFirstInRange_spec range hint hblock hsort, zzlLastInRange_spec hint hblock hsort, zl',
    elements strtod 10 ps', ?_, ⟨⟨ps', h', rfl⟩, ?_⟩, hdata⟩
  · have hlen := congrArg List.length
      (map_data_elements_filter strtod (Zskiplist.inRange range) 10 ps)
    rw [List.length_map, List.length_map] at hlen
    rw [hdelete, hlen, hR]
  · rw [hdata]
    exact h.sorted.sublist (List.filter_sublist.map Prod.snd)

end

end Ziplist

namespace Zskiplist

open SkipChain

section
variable {S : Type} [Zero S] [LinearOrder S]

/-- The functions of the skip list are right about the elements in the range. -/
structure ScoreExact (z : Zskiplist S) (L : List (Tower (S × Bytes))) (dict : Bytes → Option S)
    (range : Zrangespec S) : Prop where
  first : zslFirstInRange z range
    = some ((L.filter fun y => inRange range y.data).head?.map Tower.ref)
  last : zslLastInRange z range
    = some ((L.filter fun y => inRange range y.data).getLast?.map Tower.ref)
  delete : ∃ z', zslDeleteRangeByScore z range dict
      = some (z', dictDeletes dict (L.filter fun y => inRange range y.data),
          (L.filter fun y => inRange range y.data).length) ∧
    HoldsSorted z' (L.filter fun y => !inRange range y.data)

theorem scoreExact {z : Zskiplist S} {L : List (Tower (S × Bytes))}
    (h : HoldsSorted z L) (dict : Bytes → Option S) (range : Zrangespec S) :
    ScoreExact z L dict range := by
  obtain ⟨z', hdelete, h', htop'⟩ :=
    zslDeleteRangeByScore_spec range dict h.holds h.top h.sorted
  exact ⟨zslFirstInRange_spec range h, zslLastInRange_spec range h, z', hdelete, h', htop',
    h.sorted.sublist List.filter_sublist⟩

end

end Zskiplist

/-! ### Both encodings -/

/-- For every sorted skip list, every ziplist that holds a sorted set and every range of
scores, the functions find the first and the last element in the range, delete the elements
in it, and no assertion in them fails. -/
theorem score_ranges_exact {S : Type} [Zero S] [LinearOrder S] {strtod : Bytes → S}
    {ofInt : ℤ → S} (hint : Ziplist.ReadsIntegers strtod ofInt) (junk : ℕ → UInt8) :
    (∀ (z : Zskiplist S) L, Zskiplist.HoldsSorted z L → ∀ dict range,
      Zskiplist.ScoreExact z L dict range) ∧
    ∀ zl els, Ziplist.IsZset strtod zl els → ∀ range,
      Ziplist.ScoreExact strtod ofInt junk zl els range :=
  ⟨fun _ _ h dict range => Zskiplist.scoreExact h dict range,
    fun _ _ h _ => Ziplist.scoreExact junk hint h⟩

/-- `strtod`, on decimal digits. -/
def Ziplist.digits (s : Bytes) : ℤ := s.foldl (fun n b => 10 * n + (b.toNat - 48)) 0

theorem Ziplist.isZset_two :
    ∃ zl, IsZset digits zl [(10, 1, [97]), (15, 2, [98])] := by
  let q : Pair :=
    { member := ⟨false, [1, 97], by decide⟩, score := ⟨false, [0xf2], by decide⟩, text := [97],
      number := [49], text_ok := by decide, number_ok := by decide, number_lt := by decide }
  let r : Pair :=
    { member := ⟨false, [1, 98], by decide⟩, score := ⟨false, [0xf3], by decide⟩, text := [98],
      number := [50], text_ok := by decide, number_ok := by decide, number_lt := by decide }
  refine ⟨image 4 (Pair.entries [q, r]), ⟨[q, r], ⟨⟨4, ?_, rfl⟩, ?_, ?_⟩, rfl⟩, ?_⟩
  · decide
  · exact ⟨.inr (by decide), .inr (by decide), .inr (by decide), .inr (by decide), trivial⟩
  · decide
  · exact List.pairwise_pair.mpr (.inl (by decide))

/-- The range from 2 to 3, without its lower end or with it. -/
theorem score_ranges_exact_two :
    (∃ z L, L.map SkipChain.Tower.data = [((2 : ℤ), [98])] ∧
      Zskiplist.ScoreExact z L (fun _ => none) ⟨2, 3, true, false⟩) ∧
    ∃ zl, Ziplist.ScoreExact Ziplist.digits (fun v => Ziplist.digits (ll2string v)) (fun _ => 0)
      zl [(10, 1, [97]), (15, 2, [98])] ⟨2, 3, false, false⟩ := by
  have hint : Ziplist.ReadsIntegers Ziplist.digits fun v => Ziplist.digits (ll2string v) :=
    fun _ => rfl
  obtain ⟨hskip, hzip⟩ := score_ranges_exact hint fun _ => 0
  obtain ⟨z, L, h, hL⟩ := Zskiplist.holdsSorted_single 2 [98]
  obtain ⟨zl, hzl⟩ := Ziplist.isZset_two
  exact ⟨⟨z, L, hL, hskip z L h _ _⟩, zl, hzip zl _ hzl _⟩

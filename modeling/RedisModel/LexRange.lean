/-
Lexicographic ranges of a skip list.

The ends of a range are strings or one of the shared objects `shared.minstring` and
`shared.maxstring`, which stand for the smallest and the largest string.  These
objects are strings themselves, and one of the tests for an empty range compares
their bytes.

* `LexEnd.Between`, `inLexRange_range` — which members are in a range;
* `zslLexRangeEmpty_sound`, `zslLexRangeEmpty_sentinel` — which ranges are taken for
  empty, and when they are not;
* `zslFirstInLexRange_spec`, `zslLastInLexRange_spec` — the first and the last node in
  a range that is not taken for empty;
* `Zskiplist.lexExact_iff` — when the functions are right about a range.
-/
import RedisModel.SkiplistQuery

open ByteBuffer SkipChain

/-! ### Ranges -/

/-- The bytes of `shared.minstring`. -/
def minstringBytes : Bytes := [109, 105, 110, 115, 116, 114, 105, 110, 103]

/-- The bytes of `shared.maxstring`. -/
def maxstringBytes : Bytes := [109, 97, 120, 115, 116, 114, 105, 110, 103]

/-- The string an object of a range holds. -/
def LexItem.bytes : LexItem → Bytes
  | .minstring => minstringBytes
  | .maxstring => maxstringBytes
  | .item s => s

/-- `zslParseLexRangeItem`: the object and whether the end is exclusive.  Behind the last
byte of the item there is a NUL. -/
def zslParseLexRangeItem : Bytes → Option (LexItem × Bool)
  | [] => none
  | c :: s =>
    if c = 43 then
      if s.getD 0 0 ≠ 0 then none else some (.maxstring, false)
    else if c = 45 then
      if s.getD 0 0 ≠ 0 then none else some (.minstring, false)
    else if c = 40 then some (.item s, true)
    else if c = 91 then some (.item s, false)
    else none

/-- `zslParseLexRange`, of items that are no integers. -/
def zslParseLexRange (min max : Bytes) : Option Zlexrangespec := do
  let (min, minex) ← zslParseLexRangeItem min
  let (max, maxex) ← zslParseLexRangeItem max
  some ⟨min, max, minex, maxex⟩

namespace Zlexrangespec

/-- `m` is not below the lower end. -/
def AboveMin (range : Zlexrangespec) (m : Bytes) : Prop :=
  match range.min with
  | .minstring => True
  | .maxstring => False
  | .item s => if range.minex then s < m else s = m ∨ s < m

/-- `m` is not above the upper end. -/
def BelowMax (range : Zlexrangespec) (m : Bytes) : Prop :=
  match range.max with
  | .minstring => False
  | .maxstring => True
  | .item s => if range.maxex then m < s else m = s ∨ m < s

/-- `m` is in the range. -/
def Contains (range : Zlexrangespec) (m : Bytes) : Prop := range.AboveMin m ∧ range.BelowMax m

end Zlexrangespec

theorem zslLexValueGteMin_iff {range : Zlexrangespec} {m : Bytes} :
    zslLexValueGteMin m range = true ↔ range.AboveMin m := by
  obtain ⟨min, max, minex, maxex⟩ := range
  cases min with
  | minstring => cases minex <;> exact iff_of_true rfl trivial
  | maxstring => cases minex <;> exact iff_of_false Bool.false_ne_true not_false
  | item s =>
    have hgt : compareStringObjects m s = .gt ↔ s < m := by
      rw [compareStringObjects_swap s m, ← compareStringObjects_eq_lt]
      cases compareStringObjects s m <;> simp
    have heq := compareStringObjects_eq_eq (a := m) (b := s)
    simp only [zslLexValueGteMin, compareStringObjectsForLexRange, Zlexrangespec.AboveMin]
    cases minex with
    | true => simpa using hgt
    | false =>
      have heq' : compareStringObjects m s = .eq ↔ s = m := heq.trans eq_comm
      rw [← hgt, ← heq']
      cases compareStringObjects m s <;> simp

theorem zslLexValueLteMax_iff {range : Zlexrangespec} {m : Bytes} :
    zslLexValueLteMax m range = true ↔ range.BelowMax m := by
  obtain ⟨min, max, minex, maxex⟩ := range
  cases max with
  | minstring => cases maxex <;> exact iff_of_false Bool.false_ne_true not_false
  | maxstring => cases maxex <;> exact iff_of_true rfl trivial
  | item s =>
    have hlt := compareStringObjects_eq_lt (a := m) (b := s)
    have heq := compareStringObjects_eq_eq (a := m) (b := s)
    simp only [zslLexValueLteMax, compareStringObjectsForLexRange, Zlexrangespec.BelowMax]
    cases maxex with
    | true => simpa using hlt
    | false =>
      rw [← hlt, ← heq]
      cases compareStringObjects m s <;> simp

/-- An end of a range, as a client writes it. -/
inductive LexEnd where
  | minus
  | plus
  | exclusive (s : Bytes)
  | inclusive (s : Bytes)
  deriving DecidableEq

namespace LexEnd

/-- `-`, `+`, `(s` and `[s`. -/
def text : LexEnd → Bytes
  | minus => [45]
  | plus => [43]
  | exclusive s => 40 :: s
  | inclusive s => 91 :: s

/-- `m` is at or above this end. -/
def Above : LexEnd → Bytes → Prop
  | minus, _ => True
  | plus, _ => False
  | exclusive s, m => s < m
  | inclusive s, m => s = m ∨ s < m

/-- `m` is at or below this end. -/
def Below : LexEnd → Bytes → Prop
  | minus, _ => False
  | plus, _ => True
  | exclusive s, m => m < s
  | inclusive s, m => m = s ∨ m < s

/-- `m` is between `lo` and `hi`. -/
def Between (lo hi : LexEnd) (m : Bytes) : Prop := lo.Above m ∧ hi.Below m

/-- What `zslParseLexRangeItem` makes of an end. -/
def item : LexEnd → LexItem × Bool
  | minus => (.minstring, false)
  | plus => (.maxstring, false)
  | exclusive s => (.item s, true)
  | inclusive s => (.item s, false)

theorem zslParseLexRangeItem_text (e : LexEnd) : zslParseLexRangeItem e.text = some e.item := by
  cases e <;> rfl

/-- The range with the ends `lo` and `hi`. -/
def range (lo hi : LexEnd) : Zlexrangespec := ⟨lo.item.1, hi.item.1, lo.item.2, hi.item.2⟩

theorem zslParseLexRange_text (lo hi : LexEnd) :
    zslParseLexRange lo.text hi.text = some (range lo hi) := by
  rw [zslParseLexRange, zslParseLexRangeItem_text, zslParseLexRangeItem_text]
  rfl

theorem contains_range {lo hi : LexEnd} {m : Bytes} :
    (range lo hi).Contains m ↔ Between lo hi m := by
  refine and_congr ?_ ?_
  · cases lo <;> simp [Zlexrangespec.AboveMin, range, item, Above]
  · cases hi <;> simp [Zlexrangespec.BelowMax, range, item, Below]

instance (lo hi : LexEnd) (m : Bytes) : Decidable (Between lo hi m) :=
  decidable_of_iff
    (zslLexValueGteMin m (range lo hi) = true ∧ zslLexValueLteMax m (range lo hi) = true)
    ((and_congr zslLexValueGteMin_iff zslLexValueLteMax_iff).trans contains_range)

end LexEnd

namespace Zlexrangespec

/-- The ranges `- (minstring` and `(maxstring +`. -/
def Sentinel (range : Zlexrangespec) : Prop :=
  (range.min = .minstring ∧ range.max = .item minstringBytes ∧ range.maxex = true) ∨
    (range.min = .item maxstringBytes ∧ range.minex = true ∧ range.max = .maxstring)

end Zlexrangespec

/-! ### Ranges that are taken for empty -/

section
variable (far : Bytes → Bytes → Bool)

/-- Whether `compareStringObjects` returns more than 1.  Of the result of `memcmp` only the
sign is known; `far` tells whether a positive one is more than 1. -/
def compareStringObjectsGtOne (a b : Bytes) : Bool :=
  match memcmp a b with
  | .gt => far a b
  | .eq => decide (b.length + 1 < a.length)
  | .lt => false

/-- Whether `compareStringObjectsForLexRange` returns more than 1 for the ends of a range;
with one of the shared objects it returns -1, 0 or 1. -/
def compareLexItemsGtOne : LexItem → LexItem → Bool
  | .item a, .item b => compareStringObjectsGtOne far a b
  | _, _ => false

/-- The test of `zslIsInLexRange` and `zzlIsInLexRange` for ranges that are always empty. -/
def zslLexRangeEmpty (range : Zlexrangespec) : Bool :=
  compareLexItemsGtOne far range.min range.max ||
    (compareStringObjects range.min.bytes range.max.bytes == .eq && (range.minex || range.maxex))

variable {far : Bytes → Bytes → Bool} {range : Zlexrangespec}

theorem lt_of_compareStringObjectsGtOne {a b : Bytes}
    (h : compareStringObjectsGtOne far a b = true) : b < a := by
  have hgt : compareStringObjects a b = .gt := by
    rw [compareStringObjectsGtOne] at h
    rw [compareStringObjects]
    cases hcmp : memcmp a b with
    | lt => rw [hcmp] at h; exact absurd h Bool.false_ne_true
    | gt => rfl
    | eq =>
      rw [hcmp] at h
      have hlen := of_decide_eq_true h
      rw [Ordering.then, Nat.compare_eq_gt]
      omega
  rw [← compareStringObjects_eq_lt, compareStringObjects_swap a b, hgt]
  rfl

/-- The test is right about the members of a range, except where a shared object is taken
for the string it holds. -/
theorem zslLexRangeEmpty_sound (h : zslLexRangeEmpty far range = true)
    (hitems : (range.min = .minstring → range.minex = false) ∧
      (range.max = .maxstring → range.maxex = false)) (hsentinel : ¬range.Sentinel) (m : Bytes) :
    ¬range.Contains m := by
  obtain ⟨min, max, minex, maxex⟩ := range
  rintro ⟨hmin, hmax⟩
  rcases Bool.or_eq_true_iff.mp h with hgt | hsame
  · -- the lower end is a string above the upper end
    rcases min with _ | _ | a
    · cases hgt
    · cases hgt
    · rcases max with _ | _ | b
      · cases hgt
      · cases hgt
      · have hba := lt_of_compareStringObjectsGtOne hgt
        have ha : a = m ∨ a < m := by
          cases minex with
          | true => exact .inr hmin
          | false => exact hmin
        have hb : m = b ∨ m < b := by
          cases maxex with
          | true => exact .inr hmax
          | false => exact hmax
        have hbm : b < m := by
          rcases ha with rfl | ha
          · exact hba
          · exact Zskiplist.bytes_lt_trans hba ha
        rcases hb with rfl | hb
        · exact Zskiplist.bytes_lt_irrefl _ hbm
        · exact Zskiplist.bytes_lt_irrefl _ (Zskiplist.bytes_lt_trans hbm hb)
  · obtain ⟨heq, hex⟩ := Bool.and_eq_true_iff.mp hsame
    rw [beq_iff_eq, compareStringObjects_eq_eq] at heq
    rcases min with _ | _ | a
    · -- `-`, up to something
      have hminex := hitems.1 rfl
      dsimp only at hminex
      rw [hminex, Bool.false_or] at hex
      rcases max with _ | _ | b
      · exact hmax
      · exact absurd heq (show minstringBytes ≠ maxstringBytes by decide)
      · exact hsentinel (.inl ⟨rfl, congrArg LexItem.item heq.symm, hex⟩)
    · exact hmin
    · rcases max with _ | _ | b
      · exact hmax
      · have hmaxex := hitems.2 rfl
        dsimp only at hmaxex
        rw [hmaxex, Bool.or_false] at hex
        exact hsentinel (.inr ⟨congrArg LexItem.item heq, hex, rfl⟩)
      · -- the same string twice, and one end is exclusive
        obtain rfl : a = b := heq
        cases minex with
        | true =>
          cases maxex with
          | true => exact Zskiplist.bytes_lt_irrefl _ (Zskiplist.bytes_lt_trans hmin hmax)
          | false =>
            rcases hmax with rfl | hmax
            · exact Zskiplist.bytes_lt_irrefl _ hmin
            · exact Zskiplist.bytes_lt_irrefl _ (Zskiplist.bytes_lt_trans hmin hmax)
        | false =>
          have hmax' : maxex = true := by simpa using hex
          subst hmax'
          rcases hmin with rfl | hmin
          · exact Zskiplist.bytes_lt_irrefl _ hmax
          · exact Zskiplist.bytes_lt_irrefl _ (Zskiplist.bytes_lt_trans hmin hmax)

theorem zslLexRangeEmpty_sentinel (h : range.Sentinel) : zslLexRangeEmpty far range = true := by
  obtain ⟨min, max, minex, maxex⟩ := range
  rcases h with ⟨hmin, hmax, hex⟩ | ⟨hmin, hex, hmax⟩
  · dsimp only at hmin hmax hex
    subst hmin hmax hex
    cases minex <;> rfl
  · dsimp only at hmin hmax hex
    subst hmin hmax hex
    rfl

end

theorem LexEnd.range_items (lo hi : LexEnd) :
    ((range lo hi).min = .minstring → (range lo hi).minex = false) ∧
      ((range lo hi).max = .maxstring → (range lo hi).maxex = false) := by
  constructor
  · cases lo <;> simp [range, item]
  · cases hi <;> simp [range, item]

namespace Zskiplist

theorem inLexRange_range {S : Type} {lo hi : LexEnd} (q : S × Bytes) :
    inLexRange (LexEnd.range lo hi) q = decide (LexEnd.Between lo hi q.2) := by
  rw [Bool.eq_iff_iff, decide_eq_true_iff, inLexRange, Bool.and_eq_true, zslLexValueGteMin_iff,
    zslLexValueLteMax_iff]
  exact LexEnd.contains_range

/-! ### Queries -/

section
variable {S : Type} (far : Bytes → Bytes → Bool)

def zslIsInLexRange (z : Zskiplist S) (range : Zlexrangespec) : Option Bool :=
  if zslLexRangeEmpty far range then some false
  else match z.tail with
  | none => some false
  | some x => do
    let n ← z.node x
    if !zslLexValueGteMin n.obj range then some false
    else do
      let l ← z.lev 0 header
      match l.forward with
      | none => some false
      | some y => do
        let n ← z.node y
        some (zslLexValueLteMax n.obj range)

/-- `zslFirstInLexRange`: the node, or `none` inside for `NULL`. -/
def zslFirstInLexRange (z : Zskiplist S) (range : Zlexrangespec) : Option (Option Ref) := do
  let inRange ← zslIsInLexRange far z range
  if inRange then do
    let update ← zslSearch z (fun n _ => !zslLexValueGteMin n.obj range) (fun u _ => u) ()
    let x ← nextNode z update
    let y ← x
    let n ← z.node y
    some (if zslLexValueLteMax n.obj range then some y else none)
  else some none

def zslLastInLexRange (z : Zskiplist S) (range : Zlexrangespec) : Option (Option Ref) := do
  let inRange ← zslIsInLexRange far z range
  if inRange then do
    let update ← zslSearch z (fun n _ => zslLexValueLteMax n.obj range) (fun u _ => u) ()
    let u ← update[0]?
    let n ← z.node u.1
    some (if zslLexValueGteMin n.obj range then some u.1 else none)
  else some none

end

section
variable {S : Type} [Zero S] [LinearOrder S] {far : Bytes → Bytes → Bool} {range : Zlexrangespec}
  {z : Zskiplist S} {L : List (Tower (S × Bytes))}

/-- The members are in order where all scores are the same. -/
def MembersAscend (L : List (Tower (S × Bytes))) : Prop :=
  L.Pairwise fun x y => x.data.2 < y.data.2

omit [Zero S] in
theorem Ascending.members (h : Ascending L) (hscores : ∀ x ∈ L, ∀ y ∈ L, x.data.1 = y.data.1) :
    MembersAscend L := by
  refine h.imp_of_mem ?_
  intro x y hx hy hxy
  rcases hxy with hlt | ⟨-, hlt⟩
  · exact absurd (hscores x hx y hy) hlt.ne
  · exact hlt

omit [LinearOrder S] in
theorem zslSearch_members (before : Bytes → Bool) (h : Holds z L) (hsort : MembersAscend L)
    (hdown : ∀ a b, a < b → before b = true → before a = true) :
    ∃ p s update, zslSearch z (fun n _ => before n.obj) (fun u _ => u) () = some update ∧
      L = p ++ s ∧ update.length = z.level ∧ EndsAt (fun _ => ()) 0 (headerTower :: p) update ∧
      (∀ y ∈ p, before y.data.2 = true) ∧ ∀ y ∈ s, before y.data.2 = false := by
  obtain ⟨p, s, update, hsearch, rfl, hlen, hends, hlast, hhead⟩ :=
    zslSearch_spec (fun n _ => before n.obj) (fun u _ => u) (fun _ => ())
      (fun y _ => before y.data.2) h (fun _ _ _ _ => rfl) (fun _ _ _ => rfl)
  obtain ⟨hp, hs⟩ := cut_of_pairwise (P := fun y => before y.data.2 = true) hsort
    (fun x y hxy hy => hdown x.data.2 y.data.2 hxy hy) hlast
    (fun y t hyt hy => by
      have hfalse := hhead y t hyt
      rw [hy] at hfalse
      exact absurd hfalse Bool.noConfusion)
  exact ⟨p, s, update, hsearch, rfl, hlen, hends, hp, fun y hy => by simpa using hs y hy⟩

omit [LinearOrder S] in
/-- No node is in a range if `zslIsInLexRange` says so; otherwise the last one is not below
and the first one not above. -/
theorem zslIsInLexRange_spec (h : Holds z L) (hsort : MembersAscend L)
    (hempty : zslLexRangeEmpty far range = false) :
    ∃ b, zslIsInLexRange far z range = some b ∧
      (b = false → ∀ y ∈ L, inLexRange range y.data = false) ∧
      (b = true → (∃ y ∈ L, zslLexValueGteMin y.data.2 range = true) ∧
        ∃ y ∈ L, zslLexValueLteMax y.data.2 range = true) := by
  rw [zslIsInLexRange, hempty, if_neg Bool.false_ne_true, h.tail, lastRef_eq]
  rcases List.eq_nil_or_concat L with rfl | ⟨a, u, rfl⟩
  · exact ⟨false, rfl, fun _ y hy => absurd hy List.not_mem_nil,
      fun hb => absurd hb Bool.false_ne_true⟩
  rw [List.concat_eq_append] at h hsort ⊢
  have hu : u ∈ a ++ [u] := by simp
  rw [List.getLast?_concat]
  obtain ⟨b, hb⟩ := h.node_of_mem hu
  simp only [Option.map_some, hb, Option.bind_eq_bind, Option.bind_some]
  split
  · rename_i hlow
    refine ⟨false, rfl, fun _ y hy => ?_, fun hb => absurd hb Bool.false_ne_true⟩
    -- the last node is below the range, and so are the others
    have hy' : zslLexValueGteMin y.data.2 range = false := by
      rw [Bool.eq_false_iff]
      intro hmin
      rw [Bool.not_eq_true', Bool.eq_false_iff] at hlow
      rcases List.mem_append.mp hy with hy | hy
      · exact hlow (zslLexValueGteMin_mono
          ((List.pairwise_append.mp hsort).2.2 y hy u (by simp)) hmin)
      · rw [List.mem_singleton.mp hy] at hmin
        exact hlow hmin
    rw [inLexRange, hy', Bool.false_and]
  · rename_i hhigh
    obtain ⟨l, hl, hforward⟩ := h.first
    rw [hl]
    simp only [Option.bind_some, hforward]
    cases hL : a ++ [u] with
    | nil => simp at hL
    | cons y t =>
      rw [hL] at h hsort
      simp only [List.head?_cons, Option.map_some, h.node_head, Option.bind_some]
      refine ⟨_, rfl, fun hfalse w hw => ?_, fun htrue => ⟨⟨u, hL ▸ hu, ?_⟩, y, by simp, htrue⟩⟩
      · -- the first node is above the range, and so are the others
        have hw' : zslLexValueLteMax w.data.2 range = false := by
          rw [Bool.eq_false_iff] at hfalse ⊢
          intro hmax
          rcases List.mem_cons.mp hw with rfl | hw
          · exact hfalse hmax
          · exact hfalse (zslLexValueLteMax_mono ((List.pairwise_cons.mp hsort).1 w hw) hmax)
        rw [inLexRange, hw', Bool.and_false]
      · simpa using hhigh

omit [LinearOrder S] in
theorem zslFirstInLexRange_spec (h : Holds z L) (hsort : MembersAscend L)
    (hempty : zslLexRangeEmpty far range = false) :
    zslFirstInLexRange far z range
      = some ((L.filter fun y => inLexRange range y.data).head?.map Tower.ref) := by
  obtain ⟨b, hb, hnone, hsome⟩ := zslIsInLexRange_spec h hsort hempty
  unfold zslFirstInLexRange
  simp only [hb, Option.bind_eq_bind, Option.bind_some]
  cases b with
  | false =>
    rw [List.filter_eq_nil_iff.mpr fun y hy => by simp [hnone rfl y hy]]
    rfl
  | true =>
    obtain ⟨⟨w, hw, hmin⟩, -⟩ := hsome rfl
    obtain ⟨p, s, update, hsearch, rfl, hlen, hends, hp, hs⟩ :=
      zslSearch_members (fun m => !zslLexValueGteMin m range) h hsort
        (fun a b hab hb => by
          rw [Bool.not_eq_true', Bool.eq_false_iff] at hb ⊢
          exact fun ha => hb (zslLexValueGteMin_mono hab ha))
    obtain ⟨hnext, -⟩ := nextNode_spec h hends hlen
    have hfilter : (p ++ s).filter (fun y => inLexRange range y.data)
        = s.filter fun y => zslLexValueLteMax y.data.2 range := by
      rw [List.filter_append, List.filter_eq_nil_iff.mpr fun y hy => by
        have := hp y hy
        simp only [Bool.not_eq_true'] at this
        simp [inLexRange, this], List.nil_append]
      refine List.filter_congr fun y hy => ?_
      have := hs y hy
      simp only [Bool.not_eq_false'] at this
      simp [inLexRange, this]
    rw [hfilter]
    cases s with
    | nil =>
      rw [List.append_nil] at hw
      have := hp w hw
      rw [hmin] at this
      exact absurd this Bool.false_ne_true
    | cons y t =>
      have hy : 0 < y.height := (h.height y (by simp)).1
      rw [nextRef_cons_tall hy] at hnext
      simp only [if_true, hsearch, hnext, h.nodes.get, Option.bind_some]
      cases hmax : zslLexValueLteMax y.data.2 range with
      | true =>
        rw [List.filter_cons, if_pos hmax]
        rfl
      | false =>
        have hnil : (y :: t).filter (fun y => zslLexValueLteMax y.data.2 range) = [] := by
          rw [List.filter_eq_nil_iff]
          intro w hw hwmax
          rw [Bool.eq_false_iff] at hmax
          rcases List.mem_cons.mp hw with rfl | hw
          · exact hmax hwmax
          · have hsorted := (List.pairwise_append.mp hsort).2.1
            exact hmax (zslLexValueLteMax_mono ((List.pairwise_cons.mp hsorted).1 w hw) hwmax)
        rw [hnil]
        rfl

omit [LinearOrder S] in
theorem zslLastInLexRange_spec (h : Holds z L) (hsort : MembersAscend L)
    (hempty : zslLexRangeEmpty far range = false) :
    zslLastInLexRange far z range
      = some ((L.filter fun y => inLexRange range y.data).getLast?.map Tower.ref) := by
  obtain ⟨b, hb, hnone, hsome⟩ := zslIsInLexRange_spec h hsort hempty
  unfold zslLastInLexRange
  simp only [hb, Option.bind_eq_bind, Option.bind_some]
  cases b with
  | false =>
    rw [List.filter_eq_nil_iff.mpr fun y hy => by simp [hnone rfl y hy]]
    rfl
  | true =>
    obtain ⟨-, w, hw, hmax⟩ := hsome rfl
    obtain ⟨p, s, update, hsearch, rfl, hlen, hends, hp, hs⟩ :=
      zslSearch_members (fun m => zslLexValueLteMax m range) h hsort
        (fun a b hab hb => zslLexValueLteMax_mono hab hb)
    have hfilter : (p ++ s).filter (fun y => inLexRange range y.data)
        = p.filter fun y => zslLexValueGteMin y.data.2 range := by
      rw [List.filter_append, List.filter_eq_nil_iff (l := s) |>.mpr
        fun y hy => by simp [inLexRange, hs y hy], List.append_nil]
      exact List.filter_congr fun y hy => by simp [inLexRange, hp y hy]
    obtain ⟨a, u, hsplit, hu⟩ := EndsAt.zero h hends hlen
    rw [hfilter]
    cases a with
    | nil =>
      -- no node is up to the upper end
      obtain ⟨-, rfl⟩ := List.cons.inj hsplit
      rw [List.nil_append] at hw
      have := hs w hw
      rw [hmax] at this
      exact absurd this Bool.noConfusion
    | cons hd a =>
      obtain rfl : p = a ++ [u] := (List.cons.inj hsplit).2
      have hmem : u ∈ a ++ [u] ++ s := by simp
      obtain ⟨b, hb⟩ := h.node_of_mem hmem
      simp only [if_true, hsearch, hu, hb, Option.bind_some]
      cases hmin : zslLexValueGteMin u.data.2 range with
      | true =>
        rw [List.filter_append, List.filter_cons, if_pos hmin, List.filter_nil,
          List.getLast?_concat]
        rfl
      | false =>
        have hnil : (a ++ [u]).filter (fun y => zslLexValueGteMin y.data.2 range) = [] := by
          rw [List.filter_eq_nil_iff]
          intro y hy hymin
          rw [Bool.eq_false_iff] at hmin
          have hsorted := (List.pairwise_append.mp hsort).1
          rcases List.mem_append.mp hy with hy | hy
          · exact hmin (zslLexValueGteMin_mono
              ((List.pairwise_append.mp hsorted).2.2 y hy u (by simp)) hymin)
          · rw [List.mem_singleton.mp hy] at hymin
            exact hmin hymin
        rw [hnil]
        rfl

end

end Zskiplist

/-! ### Exact answers -/

namespace LexEnd

/-- One end is open, and the other is an exclusive end with the string of its shared object;
some member is in the range. -/
def Hidden (lo hi : LexEnd) (members : List Bytes) : Prop :=
  ((lo = minus ∧ hi = exclusive minstringBytes) ∨
      (lo = exclusive maxstringBytes ∧ hi = plus)) ∧
    ∃ m ∈ members, Between lo hi m

theorem sentinel_range {lo hi : LexEnd} : (range lo hi).Sentinel ↔
    (lo = minus ∧ hi = exclusive minstringBytes) ∨
      (lo = exclusive maxstringBytes ∧ hi = plus) := by
  cases lo <;> cases hi <;> simp [Zlexrangespec.Sentinel, range, item]

/-- A range that is taken for empty has no members, unless they are hidden. -/
theorem between_of_empty {far : Bytes → Bytes → Bool} {lo hi : LexEnd} {members : List Bytes}
    (hempty : zslLexRangeEmpty far (range lo hi) = true) (hhidden : ¬Hidden lo hi members) :
    ∀ m ∈ members, ¬Between lo hi m := by
  intro m hm hbetween
  by_cases hsentinel : (range lo hi).Sentinel
  · exact hhidden ⟨sentinel_range.mp hsentinel, m, hm, hbetween⟩
  · exact zslLexRangeEmpty_sound hempty (range_items lo hi) hsentinel m
      (contains_range.mpr hbetween)

end LexEnd

open LexEnd (Between Hidden)

namespace Zskiplist
section
variable {S : Type} [Zero S] [LinearOrder S]

/-- The functions of the skip list are right about the elements between `lo` and `hi`. -/
structure LexExact (far : Bytes → Bytes → Bool) (z : Zskiplist S)
    (L : List (Tower (S × Bytes))) (dict : Bytes → Option S) (range : Zlexrangespec)
    (lo hi : LexEnd) : Prop where
  first : zslFirstInLexRange far z range
    = some ((L.filter fun y => Between lo hi y.data.2).head?.map Tower.ref)
  last : zslLastInLexRange far z range
    = some ((L.filter fun y => Between lo hi y.data.2).getLast?.map Tower.ref)
  delete : ∃ z', zslDeleteRangeByLex z range dict
      = some (z', dictDeletes dict (L.filter fun y => Between lo hi y.data.2),
          (L.filter fun y => Between lo hi y.data.2).length) ∧
    HoldsSorted z' (L.filter fun y => ¬Between lo hi y.data.2)

variable {far : Bytes → Bytes → Bool} {z : Zskiplist S} {L : List (Tower (S × Bytes))}
  {dict : Bytes → Option S} {lo hi : LexEnd}

omit [Zero S] [LinearOrder S] in
theorem lexQueries_empty (hempty : zslLexRangeEmpty far (lo.range hi) = true) :
    zslFirstInLexRange far z (lo.range hi) = some none ∧
      zslLastInLexRange far z (lo.range hi) = some none := by
  have hin : zslIsInLexRange far z (lo.range hi) = some false := by
    rw [zslIsInLexRange, hempty, if_pos rfl]
  constructor
  · unfold zslFirstInLexRange
    rw [hin]
    rfl
  · unfold zslLastInLexRange
    rw [hin]
    rfl

theorem lexExact_iff (h : HoldsSorted z L) (hscores : ∀ x ∈ L, ∀ y ∈ L, x.data.1 = y.data.1) :
    LexExact far z L dict (lo.range hi) lo hi ↔ ¬Hidden lo hi (L.map fun y => y.data.2) := by
  constructor
  · rintro ⟨hfirst, -, -⟩ ⟨hsentinel, m, hm, hbetween⟩
    have hempty : zslLexRangeEmpty far (lo.range hi) = true :=
      zslLexRangeEmpty_sentinel (LexEnd.sentinel_range.mpr hsentinel)
    obtain ⟨y, hy, rfl⟩ := List.mem_map.mp hm
    rw [(lexQueries_empty hempty).1, Option.some_inj, eq_comm, Option.map_eq_none_iff,
      List.head?_eq_none_iff, List.filter_eq_nil_iff] at hfirst
    exact hfirst y hy (decide_eq_true hbetween)
  · intro hhidden
    have hdelete : ∃ z', zslDeleteRangeByLex z (lo.range hi) dict
          = some (z', dictDeletes dict (L.filter fun y => Between lo hi y.data.2),
              (L.filter fun y => Between lo hi y.data.2).length) ∧
        HoldsSorted z' (L.filter fun y => ¬Between lo hi y.data.2) := by
      obtain ⟨z', p, R, s, hdel, -, h', htop', hfilter⟩ :=
        zslDeleteRangeByLex_spec (lo.range hi) dict h.holds h.top h.sorted
      obtain ⟨hR, hrest⟩ := hfilter hscores
      simp only [inLexRange_range] at hR hrest
      have hrest' : L.filter (fun y => ¬Between lo hi y.data.2) = p ++ s := by
        simpa using hrest
      refine ⟨z', ?_, ?_⟩
      · rw [hR]
        exact hdel
      · rw [hrest']
        exact ⟨h', htop', hrest' ▸ h.sorted.sublist List.filter_sublist⟩
    cases hempty : zslLexRangeEmpty far (lo.range hi) with
    | true =>
      have hnone : L.filter (fun y => Between lo hi y.data.2) = [] := by
        rw [List.filter_eq_nil_iff]
        intro y hy
        rw [decide_eq_true_iff]
        exact LexEnd.between_of_empty hempty hhidden y.data.2 (List.mem_map_of_mem hy)
      obtain ⟨hfirst, hlast⟩ := lexQueries_empty (z := z) hempty
      refine ⟨?_, ?_, hdelete⟩
      · rw [hfirst, hnone]
        rfl
      · rw [hlast, hnone]
        rfl
    | false =>
      have hsort := h.sorted.members hscores
      have hfirst := zslFirstInLexRange_spec h.holds hsort hempty
      have hlast := zslLastInLexRange_spec h.holds hsort hempty
      simp only [inLexRange_range] at hfirst hlast
      exact ⟨hfirst, hlast, hdelete⟩

end

end Zskiplist

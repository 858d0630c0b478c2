/-
The skip list of sorted sets (`t_zset.c`), on a heap of nodes.

A node is given by its address.  `node` holds the score, the member and the
backward pointer of a node, `lev i` its level `i`; `none` is memory that is not
allocated, or a level beyond the height of the node.  Every function returns
`none` when the C code would use such memory.  The header is the node at address
0; it has levels only.

Scores are the elements of a linear order, members are byte strings.  The spans
and the ranks of `zslInsert` are of type `unsigned int`.
-/
import RedisModel.ByteBuffer
import RedisModel.SkipChain
import Mathlib.Data.BitVec

open ByteBuffer SkipChain

/-! ### Comparing members -/

/-- `memcmp` on the bytes that both strings have. -/
def memcmp : Bytes → Bytes → Ordering
  | a :: as, b :: bs => if a < b then .lt else if b < a then .gt else memcmp as bs
  | _, _ => .eq

/-- `compareStringObjects`: the sign of the result. -/
def compareStringObjects (a b : Bytes) : Ordering :=
  (memcmp a b).then (compare a.length b.length)

def equalStringObjects (a b : Bytes) : Bool := compareStringObjects a b == .eq

structure Zrangespec (S : Type) where
  min : S
  max : S
  minex : Bool
  maxex : Bool
  deriving DecidableEq, Repr

/-- An end of a lexicographic range: `shared.minstring`, `shared.maxstring` or a
string. -/
inductive LexItem
  | minstring
  | maxstring
  | item (s : Bytes)
  deriving DecidableEq, Repr

structure Zlexrangespec where
  min : LexItem
  max : LexItem
  minex : Bool
  maxex : Bool
  deriving DecidableEq, Repr

section
variable {S : Type} [LinearOrder S]

def zslValueGteMin (value : S) (spec : Zrangespec S) : Bool :=
  if spec.minex then decide (spec.min < value) else decide (spec.min ≤ value)

def zslValueLteMax (value : S) (spec : Zrangespec S) : Bool :=
  if spec.maxex then decide (value < spec.max) else decide (value ≤ spec.max)

end

/-- `compareStringObjectsForLexRange`, of a member and the end of a range. -/
def compareStringObjectsForLexRange (a : Bytes) : LexItem → Ordering
  | .minstring => .gt
  | .maxstring => .lt
  | .item s => compareStringObjects a s

def zslLexValueGteMin (value : Bytes) (spec : Zlexrangespec) : Bool :=
  if spec.minex then compareStringObjectsForLexRange value spec.min == .gt
  else compareStringObjectsForLexRange value spec.min != .lt

def zslLexValueLteMax (value : Bytes) (spec : Zlexrangespec) : Bool :=
  if spec.maxex then compareStringObjectsForLexRange value spec.max == .lt
  else compareStringObjectsForLexRange value spec.max != .gt

/-! ### The skip list -/

/-- The address of a node. -/
abbrev Ref := ℕ

/-- `zskiplistNode`, without its levels. -/
structure ZskiplistNode (S : Type) where
  obj : Bytes
  score : S
  backward : Option Ref
  deriving DecidableEq, Repr

/-- `struct zskiplistLevel`. -/
abbrev ZskiplistLevel := Link (BitVec 32)

/-- `zskiplist`, with the heap its nodes are on. -/
structure Zskiplist (S : Type) where
  node : Ref → Option (ZskiplistNode S)
  lev : ℕ → Ref → Option ZskiplistLevel
  tail : Option Ref
  length : ℕ
  level : ℕ

namespace Zskiplist

def zskiplistMaxlevel : ℕ := 32

def header : Ref := 0

variable {S : Type}

def zslCreate : Zskiplist S where
  node := fun _ => none
  lev := fun i r => if r = header ∧ i < zskiplistMaxlevel then some ⟨none, 0⟩ else none
  tail := none
  length := 0
  level := 1

/-- Writing a level of a node. -/
def setLevel (lev : Ref → Option ZskiplistLevel) (r : Ref) (l : ZskiplistLevel) :
    Option (Ref → Option ZskiplistLevel) :=
  if (lev r).isSome then some (Function.update lev r (some l)) else none

/-- `for (i = first; i < first + count; i++)`, where each round changes level `i`
only. -/
def forLevels (body : ℕ → (Ref → Option ZskiplistLevel) → Option (Ref → Option ZskiplistLevel)) :
    ℕ → ℕ → (ℕ → Ref → Option ZskiplistLevel) → Option (ℕ → Ref → Option ZskiplistLevel)
  | _, 0, lev => some lev
  | i, count + 1, lev => do
    let l ← body i (lev i)
    forLevels body (i + 1) count (Function.update lev i l)

/-- Writing the backward pointer of a node. -/
def setBackward (node : Ref → Option (ZskiplistNode S)) (r : Ref) (backward : Option Ref) :
    Option (Ref → Option (ZskiplistNode S)) := do
  let n ← node r
  some (Function.update node r (some { n with backward }))

/-- `x->backward = ...` of the node behind a position, or `zsl->tail = ...` if there
is none. -/
def setNextBackward (z : Zskiplist S) (next backward : Option Ref) : Option (Zskiplist S) :=
  match next with
  | none => some { z with tail := backward }
  | some y => do
    let node ← setBackward z.node y backward
    some { z with node }

/-- `zslCreateNode`, at the address that `zmalloc` has returned.  The levels hold
arbitrary values at first. -/
def zslCreateNode (z : Zskiplist S) (x : Ref) (level : ℕ) (score : S) (obj : Bytes) :
    Zskiplist S :=
  { z with
    node := Function.update z.node x (some { obj, score, backward := none })
    lev := fun i => Function.update (z.lev i) x (if i < level then some ⟨none, 0⟩ else none) }

def zslFreeNode (z : Zskiplist S) (x : Ref) : Zskiplist S :=
  { z with
    node := Function.update z.node x none
    lev := fun i => Function.update (z.lev i) x none }

/-- The descent that the functions below begin with, from the header and the highest
level.  `cond` is the condition to go on to the next node, `add` counts the spans
crossed.  The result has the node where each level was left (`update[i]`) and the
count there (`rank[i]`). -/
def zslSearch {ρ : Type} (z : Zskiplist S) (cond : ZskiplistNode S → ρ → Bool)
    (add : ρ → BitVec 32 → ρ) (start : ρ) : Option (List (Ref × ρ)) :=
  descend z.lev (fun y acc => (z.node y).map (cond · acc)) add (z.length + 1) z.level header
    start []

/-! ### Insertion -/

section
variable [LinearOrder S]

/-- The test of `zslInsert` and `zslDelete` whether a node is before a pair. -/
def zslBefore (score : S) (obj : Bytes) (n : ZskiplistNode S) : Bool :=
  decide (n.score < score) ||
    (decide (n.score = score) && compareStringObjects n.obj obj == .lt)

end

/-- The levels that a node higher than all others adds. -/
def zslOpenLevels (z : Zskiplist S) (level : ℕ) (update : List (Ref × BitVec 32)) :
    Option (Zskiplist S × List (Ref × BitVec 32)) :=
  if level > z.level then do
    let lev ← forLevels (fun _ lev => do
      let l ← lev header
      setLevel lev header { l with span := (z.length : BitVec 32) })
      z.level (level - z.level) z.lev
    some ({ z with lev, level }, update ++ List.replicate (level - z.level) (header, 0))
  else some (z, update)

/-- Linking the new node `x` on level `i`. -/
def linkLevel (update : List (Ref × BitVec 32)) (x : Ref) (i : ℕ)
    (lev : Ref → Option ZskiplistLevel) : Option (Ref → Option ZskiplistLevel) := do
  let u ← update[i]?
  let u₀ ← update[0]?
  let l ← lev u.1
  let lev ← setLevel lev x ⟨l.forward, l.span - (u₀.2 - u.2)⟩
  setLevel lev u.1 ⟨some x, u₀.2 - u.2 + 1⟩

/-- `update[i]->level[i].span++`. -/
def bumpLevel (update : List (Ref × BitVec 32)) (i : ℕ) (lev : Ref → Option ZskiplistLevel) :
    Option (Ref → Option ZskiplistLevel) := do
  let u ← update[i]?
  let l ← lev u.1
  setLevel lev u.1 { l with span := l.span + 1 }

/-- The part of `zslInsert` after the search and the choice of the level. -/
def zslLinkNode (z : Zskiplist S) (update : List (Ref × BitVec 32)) (x : Ref) (level : ℕ)
    (score : S) (obj : Bytes) : Option (Zskiplist S) := do
  let z := zslCreateNode z x level score obj
  let lev ← forLevels (linkLevel update x) 0 level z.lev
  let lev ← forLevels (bumpLevel update) level (z.level - level) lev
  let u₀ ← update[0]?
  let node ← setBackward z.node x (if u₀.1 = header then none else some u₀.1)
  let l ← lev 0 x
  let z ← setNextBackward { z with node, lev } l.forward (some x)
  some { z with length := z.length + 1 }

section
variable [LinearOrder S]

/-- `zslInsert`.  `level` is the result of `zslRandomLevel` and `x` the address of the
new node. -/
def zslInsert (z : Zskiplist S) (x : Ref) (level : ℕ) (score : S) (obj : Bytes) :
    Option (Zskiplist S) := do
  let update ← zslSearch z (fun n _ => zslBefore score obj n) (· + ·) 0
  let (z, update) ← zslOpenLevels z level update
  zslLinkNode z update x level score obj

end

/-! ### Deletion -/

/-- Unlinking the node `x` on level `i`. -/
def unlinkLevel {ρ : Type} (update : List (Ref × ρ)) (x : Ref) (i : ℕ)
    (lev : Ref → Option ZskiplistLevel) : Option (Ref → Option ZskiplistLevel) := do
  let u ← update[i]?
  let l ← lev u.1
  if l.forward = some x then do
    let lx ← lev x
    setLevel lev u.1 ⟨lx.forward, l.span + (lx.span - 1)⟩
  else setLevel lev u.1 { l with span := l.span - 1 }

/-- The loop of `zslDeleteNode` that drops empty levels. -/
def dropLevels (lev : ℕ → Ref → Option ZskiplistLevel) : ℕ → Option ℕ
  | n + 2 => do
    let l ← lev (n + 1) header
    if l.forward = none then dropLevels lev (n + 1) else some (n + 2)
  | n => some n

def zslDeleteNode {ρ : Type} (z : Zskiplist S) (x : Ref) (update : List (Ref × ρ)) :
    Option (Zskiplist S) := do
  let lev ← forLevels (unlinkLevel update x) 0 z.level z.lev
  let l ← lev 0 x
  let n ← z.node x
  let z ← setNextBackward { z with lev } l.forward n.backward
  let level ← dropLevels z.lev z.level
  some { z with level, length := z.length - 1 }

/-- The node that the search has stopped before. -/
def nextNode {ρ : Type} (z : Zskiplist S) (update : List (Ref × ρ)) : Option (Option Ref) := do
  let u ← update[0]?
  let l ← z.lev 0 u.1
  some l.forward

/-- `dictDelete`, on the contents of the dict of a sorted set. -/
def dictDelete (dict : Bytes → Option S) (obj : Bytes) : Bytes → Option S :=
  Function.update dict obj none

/-- The loop of the range deletions: nodes are removed from the dict and freed while
`cond`, which sees the number of nodes removed before, allows it. -/
def zslDeleteWhile {ρ : Type} (update : List (Ref × ρ)) (cond : ZskiplistNode S → ℕ → Bool) :
    ℕ → Zskiplist S → (Bytes → Option S) → Option Ref → ℕ →
    Option (Zskiplist S × (Bytes → Option S) × ℕ)
  | 0, _, _, _, _ => none
  | _ + 1, z, dict, none, removed => some (z, dict, removed)
  | fuel + 1, z, dict, some x, removed => do
    let n ← z.node x
    if cond n removed then do
      let next ← z.lev 0 x
      let z ← zslDeleteNode z x update
      zslDeleteWhile update cond fuel (zslFreeNode z x) (dictDelete dict n.obj) next.forward
        (removed + 1)
    else some (z, dict, removed)

/-- A range deletion: the search up to the range, and the loop. -/
def zslDeleteRange {ρ : Type} (z : Zskiplist S) (before : ZskiplistNode S → ρ → Bool)
    (add : ρ → BitVec 32 → ρ) (start : ρ) (within : ρ → ZskiplistNode S → ℕ → Bool)
    (dict : Bytes → Option S) : Option (Zskiplist S × (Bytes → Option S) × ℕ) := do
  let update ← zslSearch z before add start
  let u ← update[0]?
  let x ← nextNode z update
  zslDeleteWhile update (within u.2) (z.length + 1) z dict x 0

section
variable [LinearOrder S]

def zslDelete (z : Zskiplist S) (score : S) (obj : Bytes) : Option (Zskiplist S × Bool) := do
  let update ← zslSearch z (fun n _ => zslBefore score obj n) (fun u _ => u) ()
  let x ← nextNode z update
  match x with
  | none => some (z, false)
  | some x => do
    let n ← z.node x
    if score = n.score ∧ equalStringObjects n.obj obj then do
      let z ← zslDeleteNode z x update
      some (zslFreeNode z x, true)
    else some (z, false)

def zslDeleteRangeByScore (z : Zskiplist S) (range : Zrangespec S) (dict : Bytes → Option S) :
    Option (Zskiplist S × (Bytes → Option S) × ℕ) :=
  zslDeleteRange z
    (fun n _ => if range.minex then decide (n.score ≤ range.min) else decide (n.score < range.min))
    (fun u _ => u) ()
    (fun _ n _ => if range.maxex then decide (n.score < range.max) else decide (n.score ≤ range.max))
    dict

end

def zslDeleteRangeByLex (z : Zskiplist S) (range : Zlexrangespec) (dict : Bytes → Option S) :
    Option (Zskiplist S × (Bytes → Option S) × ℕ) :=
  zslDeleteRange z (fun n _ => !zslLexValueGteMin n.obj range) (fun u _ => u) ()
    (fun _ n _ => zslLexValueLteMax n.obj range) dict

/-- `zslDeleteRangeByRank`; `traversed` is of type `unsigned long`. -/
def zslDeleteRangeByRank (z : Zskiplist S) (start last : BitVec 32) (dict : Bytes → Option S) :
    Option (Zskiplist S × (Bytes → Option S) × ℕ) :=
  zslDeleteRange z (fun _ traversed => decide (traversed < start.toNat))
    (fun traversed span => traversed + span.toNat) 0
    (fun traversed _ removed => decide (traversed + 1 + removed ≤ last.toNat)) dict

/-! ### Queries -/

section
variable [LinearOrder S]

def zslIsInRange (z : Zskiplist S) (range : Zrangespec S) : Option Bool :=
  if range.min > range.max ∨ (range.min = range.max ∧ (range.minex ∨ range.maxex)) then some false
  else match z.tail with
  | none => some false
  | some x => do
    let n ← z.node x
    if !zslValueGteMin n.score range then some false
    else do
      let l ← z.lev 0 header
      match l.forward with
      | none => some false
      | some y => do
        let n ← z.node y
        some (zslValueLteMax n.score range)

/-- `zslFirstInRange`: the node, or `none` inside for `NULL`. -/
def zslFirstInRange (z : Zskiplist S) (range : Zrangespec S) : Option (Option Ref) := do
  let inRange ← zslIsInRange z range
  if inRange then do
    let update ← zslSearch z (fun n _ => !zslValueGteMin n.score range) (fun u _ => u) ()
    let x ← nextNode z update
    let y ← x
    let n ← z.node y
    some (if zslValueLteMax n.score range then some y else none)
  else some none

def zslLastInRange (z : Zskiplist S) (range : Zrangespec S) : Option (Option Ref) := do
  let inRange ← zslIsInRange z range
  if inRange then do
    let update ← zslSearch z (fun n _ => zslValueLteMax n.score range) (fun u _ => u) ()
    let u ← update[0]?
    let n ← z.node u.1
    some (if zslValueGteMin n.score range then some u.1 else none)
  else some none

end

end Zskiplist

/-
Runs of additions and removals on an intset.

* `intsetRemove_spec`, `intsetFind_spec` — one removal and one lookup;
* `run_refines_set` — after any sequence of additions and removals the intset is
  the mathematical set, with the flags and the encoding that go with it, as long
  as no addition needs an array of `2 ^ 32` bytes or more;
* `run_overflow` — an addition that does: the size computed by `intsetResize`
  wraps around.
-/
import RedisModel.IntsetRefine

open ByteBuffer

namespace Intset

section
variable (junk : ℕ → UInt8)

theorem encode_split {xs : List ℤ} {pos : ℕ} (enc : ℕ) (hpos : pos < xs.length) :
    encode enc xs = encode enc (xs.take pos) ++
      (intBytes enc xs[pos] ++ encode enc (xs.drop (pos + 1))) := by
  have hsplit : xs = xs.take pos ++ xs[pos] :: xs.drop (pos + 1) := by simp
  have h := congrArg (encode enc) hsplit
  rwa [encode_append, encode_cons] at h

theorem intsetRemove_present {is : Intset} {xs : List ℤ} {value : ℤ} {pos : ℕ} (h : Holds is xs)
    (hfit : intsetValueEncoding value ≤ is.encoding)
    (hsearch : intsetSearch is value = some (true, pos)) (hpos : pos < xs.length) :
    intsetRemove junk is value = some (⟨is.encoding, xs.length - 1,
      encode is.encoding (xs.take pos ++ xs.drop (pos + 1))⟩, true) := by
  have hroom := h.room
  obtain ⟨enc, henc, rfl⟩ := h.eq_mk
  simp only at hfit hroom
  set b := xs.drop (pos + 1) with hb
  have hblen : xs.length = pos + 1 + b.length := by
    rw [hb, List.length_drop]
    omega
  have hA : (encode enc (xs.take pos)).length = pos * enc := by
    rw [length_encode, List.length_take, min_eq_left hpos.le]
  have hle : (xs.length - 1) * enc ≤ xs.length * enc := Nat.mul_le_mul_right _ (Nat.sub_le _ _)
  -- what is behind the remaining elements is cut
  have hresize : ∀ X : Bytes, intsetResize junk
      ⟨enc, xs.length, encode enc (xs.take pos) ++ (encode enc b ++ X)⟩ (xs.length - 1)
      = ⟨enc, xs.length, encode enc (xs.take pos ++ b)⟩ := fun X => by
    have hcut : (xs.length - 1) * enc = (encode enc (xs.take pos ++ b)).length := by
      rw [encode_append, List.length_append, hA, length_encode, hblen]
      have : pos + 1 + b.length - 1 = pos + b.length := by omega
      rw [this]
      ring
    rw [intsetResize, Nat.mod_eq_of_lt (show (xs.length - 1) * enc < 2 ^ 32 by omega),
      ← List.append_assoc, ← encode_append,
      realloc_shrink junk hcut]
  simp only [intsetRemove, if_pos hfit, hsearch, Option.bind_eq_bind, Option.bind_some, if_true]
  rw [encode_split enc hpos, ← hb]
  by_cases hlast : pos < xs.length - 1
  · obtain ⟨X, hX, hmove⟩ := intsetMoveTail_down xs.length henc hA
      (show (intBytes enc xs[pos]).length = enc by simp) hblen hroom
    simp only [hlast, if_true, hmove, Option.bind_some, hresize]
  · -- the last element is removed: nothing to move
    have hnil : b = [] := by
      rw [hb]
      exact List.drop_eq_nil_iff.mpr (by omega)
    have hcut := hresize (intBytes enc xs[pos])
    rw [hnil, encode_nil, List.nil_append, List.append_nil] at hcut
    simp only [hlast, if_false, hnil, encode_nil, List.append_nil, hcut]

theorem holds_remove {is : Intset} {xs : List ℤ} {pos : ℕ} (h : Holds is xs)
    (hpos : pos < xs.length) :
    Holds ⟨is.encoding, xs.length - 1, encode is.encoding (xs.take pos ++ xs.drop (pos + 1))⟩
      (xs.take pos ++ xs.drop (pos + 1)) := by
  have hsub : List.Sublist (xs.take pos ++ xs.drop (pos + 1)) xs := by
    rw [← List.eraseIdx_eq_take_drop_succ]
    exact List.eraseIdx_sublist xs pos
  have hlen : (xs.take pos ++ xs.drop (pos + 1)).length = xs.length - 1 := by
    simp
    omega
  refine ⟨h.encoding, hlen.symm, rfl, h.sorted.sublist hsub, fun x hx => h.fits x (hsub.mem hx), ?_⟩
  rw [hlen]
  have hle : (xs.length - 1) * is.encoding ≤ xs.length * is.encoding :=
    Nat.mul_le_mul_right _ (Nat.sub_le _ _)
  have := h.room
  show (xs.length - 1) * is.encoding < 2 ^ 32
  omega

theorem Holds.mem_remove {is : Intset} {xs : List ℤ} {pos : ℕ} (h : Holds is xs)
    (hpos : pos < xs.length) (x : ℤ) :
    x ∈ xs.take pos ++ xs.drop (pos + 1) ↔ x ≠ xs[pos] ∧ x ∈ xs := by
  have hsplit : xs = xs.take pos ++ xs[pos] :: xs.drop (pos + 1) := by simp
  have hsorted := h.sorted
  rw [hsplit, List.pairwise_append, List.pairwise_cons] at hsorted
  obtain ⟨-, ⟨hafter, -⟩, hbefore⟩ := hsorted
  have hmem : x ∈ xs ↔ x ∈ xs.take pos ∨ x = xs[pos] ∨ x ∈ xs.drop (pos + 1) := by
    conv_lhs => rw [hsplit]
    rw [List.mem_append, List.mem_cons]
  rw [List.mem_append, hmem]
  constructor
  · rintro (hx | hx)
    · exact ⟨(hbefore x hx xs[pos] List.mem_cons_self).ne, Or.inl hx⟩
    · exact ⟨(hafter x hx).ne', Or.inr (Or.inr hx)⟩
  · rintro ⟨hne, hx | hx | hx⟩
    · exact Or.inl hx
    · exact absurd hx hne
    · exact Or.inr hx

theorem intsetRemove_spec {is : Intset} {xs : List ℤ} (h : Holds is xs)
    (hlen : xs.length < 2 ^ 30) (value : ℤ) :
    ∃ is' xs', intsetRemove junk is value = some (is', decide (value ∈ xs)) ∧ Holds is' xs' ∧
      (∀ x, x ∈ xs' ↔ x ≠ value ∧ x ∈ xs) ∧ is'.encoding = is.encoding := by
  have hkeep : value ∉ xs → ∀ x, x ∈ xs ↔ x ≠ value ∧ x ∈ xs := fun hnot x =>
    ⟨fun hx => ⟨fun heq => hnot (heq ▸ hx), hx⟩, And.right⟩
  by_cases hfit : intsetValueEncoding value ≤ is.encoding
  · obtain ⟨pos, hsearch, hplace⟩ := intsetSearch_spec h hlen value
    by_cases hmem : value ∈ xs
    · obtain ⟨hpos, rfl⟩ := h.getElem_place hplace hmem
      rw [decide_eq_true hmem] at hsearch
      have hrem := intsetRemove_present junk h hfit hsearch hpos
      rw [← decide_eq_true hmem] at hrem
      exact ⟨_, _, hrem, holds_remove h hpos, h.mem_remove hpos, rfl⟩
    · refine ⟨is, xs, ?_, h, hkeep hmem, rfl⟩
      simp [intsetRemove, hfit, hsearch, hmem]
  · have hmem : value ∉ xs := fun hmem => hfit (h.fits value hmem).2
    refine ⟨is, xs, ?_, h, hkeep hmem, rfl⟩
    simp [intsetRemove, hfit, hmem]

end

theorem intsetFind_spec {is : Intset} {xs : List ℤ} (h : Holds is xs)
    (hlen : xs.length < 2 ^ 30) (value : ℤ) :
    intsetFind is value = some (decide (value ∈ xs)) := by
  by_cases hfit : intsetValueEncoding value ≤ is.encoding
  · obtain ⟨pos, hsearch, -⟩ := intsetSearch_spec h hlen value
    simp [intsetFind, hfit, hsearch]
  · have hmem : value ∉ xs := fun hmem => hfit (h.fits value hmem).2
    simp [intsetFind, hfit, hmem]

/-! ### Runs -/

/-- Add or remove a value. -/
inductive Op where
  | add (value : ℤ)
  | remove (value : ℤ)
  deriving DecidableEq, Repr

namespace Op

def value : Op → ℤ
  | add v => v
  | remove v => v

/-- The operation on a mathematical set. -/
def onSet : Op → Finset ℤ → Finset ℤ
  | add v, s => insert v s
  | remove v, s => s.erase v

/-- Whether an addition finds its value absent, and a removal present. -/
def flag : Op → Finset ℤ → Bool
  | add v, s => decide (v ∉ s)
  | remove v, s => decide (v ∈ s)

/-- The widest encoding required so far by a value added while absent. -/
def onEncoding : Op → Finset ℤ → ℕ → ℕ
  | add v, s, enc => if v ∈ s then enc else max enc (intsetValueEncoding v)
  | remove _, _, enc => enc

/-- The operation of the library, with its success flag. -/
def onIntset (junk : ℕ → UInt8) : Op → Intset → Option (Intset × Bool)
  | add v, is => intsetAdd junk is v
  | remove v, is => intsetRemove junk is v

/-- An element is added only if the array stays shorter than `2 ^ 32` bytes. -/
def HasRoom : Op → Finset ℤ → ℕ → Prop
  | add v, s, enc => v ∉ s → (s.card + 1) * max enc (intsetValueEncoding v) < 2 ^ 32
  | remove _, _, _ => True

end Op

/-- Operations one after the other, with the flags they return. -/
def runIntset : List ((ℕ → UInt8) × Op) → Intset → Option (Intset × List Bool)
  | [], is => some (is, [])
  | step :: steps, is => do
    let (is, flag) ← step.2.onIntset step.1 is
    let (is, flags) ← runIntset steps is
    some (is, flag :: flags)

def runSet : List Op → Finset ℤ → Finset ℤ
  | [], s => s
  | op :: ops, s => runSet ops (op.onSet s)

def runFlags : List Op → Finset ℤ → List Bool
  | [], _ => []
  | op :: ops, s => op.flag s :: runFlags ops (op.onSet s)

def runEncoding : List Op → Finset ℤ → ℕ → ℕ
  | [], _, enc => enc
  | op :: ops, s, enc => runEncoding ops (op.onSet s) (op.onEncoding s enc)

/-- `P` holds of every operation, the set and the encoding it is performed on. -/
def AllSteps (P : Op → Finset ℤ → ℕ → Prop) : List Op → Finset ℤ → ℕ → Prop
  | [], _, _ => True
  | op :: ops, s, enc => P op s enc ∧ AllSteps P ops (op.onSet s) (op.onEncoding s enc)

/-- The values are of type `int64_t` and the set has fewer than `2 ^ 30` elements
after each operation. -/
def Legal (op : Op) (s : Finset ℤ) (_ : ℕ) : Prop :=
  IsInt64 op.value ∧ (op.onSet s).card < 2 ^ 30

/-- The intset is the set `s`, with the encoding `enc`. -/
def Refines (is : Intset) (s : Finset ℤ) (enc : ℕ) : Prop :=
  is.encoding = enc ∧ ∃ xs, Holds is xs ∧ ∀ x, x ∈ xs ↔ x ∈ s

theorem card_eq_length {is : Intset} {xs : List ℤ} {s : Finset ℤ} (h : Holds is xs)
    (hmem : ∀ x, x ∈ xs ↔ x ∈ s) : s.card = xs.length := by
  have hnodup : xs.Nodup := h.sorted.imp ne_of_lt
  rw [← List.toFinset_card_of_nodup hnodup]
  congr 1
  ext x
  rw [List.mem_toFinset, hmem]

instance (v : ℤ) : Decidable (IsInt64 v) := inferInstanceAs (Decidable (_ ∧ _))

instance (op : Op) (s : Finset ℤ) (enc : ℕ) : Decidable (Legal op s enc) :=
  inferInstanceAs (Decidable (_ ∧ _))

instance : (op : Op) → (s : Finset ℤ) → (enc : ℕ) → Decidable (op.HasRoom s enc)
  | .add _, _, _ => inferInstanceAs (Decidable (_ → _))
  | .remove _, _, _ => inferInstanceAs (Decidable True)

instance AllSteps.decidable (P : Op → Finset ℤ → ℕ → Prop) [∀ op s enc, Decidable (P op s enc)] :
    (ops : List Op) → (s : Finset ℤ) → (enc : ℕ) → Decidable (AllSteps P ops s enc)
  | [], _, _ => isTrue trivial
  | op :: ops, s, enc =>
    have := AllSteps.decidable P ops (op.onSet s) (op.onEncoding s enc)
    inferInstanceAs (Decidable (_ ∧ _))

theorem onIntset_refines (junk : ℕ → UInt8) {is : Intset} {s : Finset ℤ} {enc : ℕ} {op : Op}
    (h : Refines is s enc) (hcard : s.card < 2 ^ 30) (hvalue : IsInt64 op.value)
    (hroom : op.HasRoom s enc) :
    ∃ is', op.onIntset junk is = some (is', op.flag s) ∧
      Refines is' (op.onSet s) (op.onEncoding s enc) := by
  obtain ⟨rfl, xs, hxs, hmem⟩ := h
  have hlen := card_eq_length hxs hmem
  rw [hlen] at hcard
  cases op with
  | add v =>
    rw [Op.HasRoom, hlen, ← hmem] at hroom
    obtain ⟨is', xs', hadd, hxs', hmem', henc⟩ :=
      intsetAdd_spec junk hxs (show IsInt64 v from hvalue) hcard hroom
    simp only [hmem] at hadd henc
    refine ⟨is', hadd, henc, xs', hxs', fun x => ?_⟩
    rw [hmem', hmem, Op.onSet, Finset.mem_insert]
  | remove v =>
    obtain ⟨is', xs', hrem, hxs', hmem', henc⟩ := intsetRemove_spec junk hxs hcard v
    simp only [hmem] at hrem
    refine ⟨is', hrem, henc, xs', hxs', fun x => ?_⟩
    rw [hmem', hmem, Op.onSet, Finset.mem_erase]

theorem runIntset_refines {steps : List ((ℕ → UInt8) × Op)} {is : Intset} {s : Finset ℤ}
    {enc : ℕ} (h : Refines is s enc) (hcard : s.card < 2 ^ 30)
    (hlegal : AllSteps Legal (steps.map Prod.snd) s enc)
    (hroom : AllSteps Op.HasRoom (steps.map Prod.snd) s enc) :
    ∃ is', runIntset steps is = some (is', runFlags (steps.map Prod.snd) s) ∧
      Refines is' (runSet (steps.map Prod.snd) s) (runEncoding (steps.map Prod.snd) s enc) ∧
      (runSet (steps.map Prod.snd) s).card < 2 ^ 30 := by
  induction steps generalizing is s enc with
  | nil => exact ⟨is, rfl, h, hcard⟩
  | cons step steps ih =>
    obtain ⟨⟨hvalue, hcard'⟩, hlegal⟩ := hlegal
    obtain ⟨is', hop, h'⟩ := onIntset_refines step.1 h hcard hvalue hroom.1
    obtain ⟨is'', hrun, hresult⟩ := ih h' hcard' hlegal hroom.2
    refine ⟨is'', ?_, hresult⟩
    simp only [runIntset, hop, Option.bind_eq_bind, Option.bind_some, hrun]
    rfl

/-- As long as no addition needs an array of `2 ^ 32` bytes, an intset is the
mathematical set: its elements are in strictly increasing order and fit the
encoding, which is the widest one required so far; the flags tell what was
present, and so does every lookup. -/
theorem run_refines_set (steps : List ((ℕ → UInt8) × Op))
    (hlegal : AllSteps Legal (steps.map Prod.snd) ∅ intsetEncInt16)
    (hroom : AllSteps Op.HasRoom (steps.map Prod.snd) ∅ intsetEncInt16) :
    ∃ is xs, runIntset steps intsetNew = some (is, runFlags (steps.map Prod.snd) ∅) ∧
      intsetToList is = some xs ∧ xs.Pairwise (· < ·) ∧
      (∀ x ∈ xs, intsetValueEncoding x ≤ is.encoding) ∧
      is.encoding = runEncoding (steps.map Prod.snd) ∅ intsetEncInt16 ∧
      (∀ x, x ∈ xs ↔ x ∈ runSet (steps.map Prod.snd) ∅) ∧
      ∀ v, IsInt64 v → intsetFind is v = some (decide (v ∈ runSet (steps.map Prod.snd) ∅)) := by
  have hnew : Refines intsetNew ∅ intsetEncInt16 := ⟨rfl, [], holds_intsetNew, by simp⟩
  obtain ⟨is, hrun, ⟨henc, xs, hxs, hmem⟩, hcard⟩ :=
    runIntset_refines hnew (by simp) hlegal hroom
  refine ⟨is, xs, hrun, hxs.toList, hxs.sorted, fun x hx => (hxs.fits x hx).2, henc, hmem, ?_⟩
  intro v _
  rw [card_eq_length hxs hmem] at hcard
  simp only [intsetFind_spec hxs hcard, hmem]

/-- Adding three values, the second of which needs a larger encoding, and
removing the first. -/
theorem run_refines_set_upgrade :
    ∃ is xs, runIntset [(noJunk, .add 5), (noJunk, .add (-70000)), (noJunk, .remove 5)] intsetNew
        = some (is, [true, true, true]) ∧ intsetToList is = some xs ∧ xs.Pairwise (· < ·) ∧
      (∀ x ∈ xs, intsetValueEncoding x ≤ is.encoding) ∧ is.encoding = 4 ∧
      (∀ x, x ∈ xs ↔ x ∈ ({-70000} : Finset ℤ)) ∧
      ∀ v, IsInt64 v → intsetFind is v = some (decide (v ∈ ({-70000} : Finset ℤ))) :=
  run_refines_set [(noJunk, .add 5), (noJunk, .add (-70000)), (noJunk, .remove 5)]
    (by decide) (by decide)

/-! ### An addition that does not fit -/

/-- Add the values `2 ^ 31`, `2 ^ 31 + 1` and so on, `n` of them. -/
def addMany (n : ℕ) : List ((ℕ → UInt8) × Op) :=
  (List.range n).map fun i => (noJunk, .add (2 ^ 31 + i))

theorem runSet_append (a b : List Op) (s : Finset ℤ) :
    runSet (a ++ b) s = runSet b (runSet a s) := by
  induction a generalizing s with
  | nil => rfl
  | cons op a ih => exact ih _

theorem runEncoding_append (a b : List Op) (s : Finset ℤ) (enc : ℕ) :
    runEncoding (a ++ b) s enc = runEncoding b (runSet a s) (runEncoding a s enc) := by
  induction a generalizing s enc with
  | nil => rfl
  | cons op a ih => exact ih _ _

theorem allSteps_append {P : Op → Finset ℤ → ℕ → Prop} {a b : List Op} {s : Finset ℤ} {enc : ℕ}
    (ha : AllSteps P a s enc) (hb : AllSteps P b (runSet a s) (runEncoding a s enc)) :
    AllSteps P (a ++ b) s enc := by
  induction a generalizing s enc with
  | nil => exact hb
  | cons op a ih => exact ⟨ha.1, ih ha.2 hb⟩

theorem runIntset_append_none {a b : List ((ℕ → UInt8) × Op)} {is is' : Intset}
    {flags : List Bool} (ha : runIntset a is = some (is', flags)) (hb : runIntset b is' = none) :
    runIntset (a ++ b) is = none := by
  induction a generalizing is flags with
  | nil =>
    obtain ⟨rfl, -⟩ := Prod.mk.inj (Option.some_inj.mp ha)
    exact hb
  | cons step a ih =>
    rw [runIntset] at ha
    obtain ⟨⟨is₁, flag⟩, hop, ha⟩ := Option.bind_eq_some_iff.mp ha
    obtain ⟨⟨is₂, flags₂⟩, hrun, ha⟩ := Option.bind_eq_some_iff.mp ha
    obtain ⟨rfl, -⟩ := Prod.mk.inj (Option.some_inj.mp ha)
    simp only [List.cons_append, runIntset, hop, Option.bind_eq_bind, Option.bind_some, ih hrun,
      Option.bind_none]

theorem addMany_spec (n : ℕ) (hn : n < 2 ^ 29) :
    AllSteps Legal ((addMany n).map Prod.snd) ∅ intsetEncInt16 ∧
      AllSteps Op.HasRoom ((addMany n).map Prod.snd) ∅ intsetEncInt16 ∧
      (∀ x, x ∈ runSet ((addMany n).map Prod.snd) ∅ ↔ 2 ^ 31 ≤ x ∧ x < 2 ^ 31 + n) ∧
      (runSet ((addMany n).map Prod.snd) ∅).card = n ∧
      runEncoding ((addMany n).map Prod.snd) ∅ intsetEncInt16 ≤ 8 := by
  induction n with
  | zero =>
    refine ⟨trivial, trivial, fun x => ?_, rfl, by decide⟩
    simp [addMany, runSet]
  | succ n ih =>
    obtain ⟨hlegal, hroom, hmem, hcard, henc⟩ := ih (by omega)
    set ops := (addMany n).map Prod.snd with hops
    have hstep : (addMany (n + 1)).map Prod.snd = ops ++ [.add (2 ^ 31 + n)] := by
      simp [addMany, hops, List.range_succ]
    have hnot : (2 ^ 31 + n : ℤ) ∉ runSet ops ∅ := by
      rw [hmem]
      omega
    have hset : runSet (ops ++ [.add (2 ^ 31 + n)]) ∅ = insert (2 ^ 31 + n : ℤ) (runSet ops ∅) :=
      runSet_append _ _ _
    have hvenc : intsetValueEncoding (2 ^ 31 + n) = 8 := by
      have := intsetValueEncoding_cases (2 ^ 31 + n)
      omega
    have hmax : max (runEncoding ops ∅ intsetEncInt16) (intsetValueEncoding (2 ^ 31 + n)) = 8 := by
      rw [hvenc]
      exact max_eq_right henc
    rw [hstep, hset]
    refine ⟨allSteps_append hlegal ⟨⟨⟨?_, ?_⟩, ?_⟩, trivial⟩,
      allSteps_append hroom ⟨fun _ => ?_, trivial⟩, fun x => ?_, ?_, ?_⟩
    · show int64Min ≤ 2 ^ 31 + n
      unfold int64Min
      omega
    · show 2 ^ 31 + n ≤ int64Max
      unfold int64Max
      omega
    · rw [Op.onSet, Finset.card_insert_of_notMem hnot, hcard]
      omega
    · rw [hcard, hmax]
      omega
    · rw [Finset.mem_insert, hmem]
      push_cast
      omega
    · rw [Finset.card_insert_of_notMem hnot, hcard]
    · rw [runEncoding_append]
      show (if _ then _ else _) ≤ 8
      rw [if_neg hnot, hmax]

/-- A write into an array that has no room for an element fails. -/
theorem intsetSet_eq_none {is : Intset} {pos : ℕ} (value : ℤ)
    (h : is.contents.length < encodingSize is.encoding) : intsetSet is pos value = none := by
  rw [intsetSet, store_eq_none (by rw [length_intBytes]; omega)]
  rfl

theorem intsetAdd_overflow (junk : ℕ → UInt8) {is : Intset} {xs : List ℤ} {value : ℤ}
    (h : Holds is xs) (hlen : xs.length < 2 ^ 30) (hnot : value ∉ xs)
    (hfit : intsetValueEncoding value ≤ is.encoding)
    (hsize : (is.length + 1) * is.encoding % 2 ^ 32 = 0) : intsetAdd junk is value = none := by
  obtain ⟨pos, hsearch, -⟩ := intsetSearch_spec h hlen value
  rw [decide_eq_false hnot] at hsearch
  have hno : ¬ intsetValueEncoding value > is.encoding := not_lt.mpr hfit
  have hresize : intsetResize junk is (is.length + 1) = { is with contents := [] } := by
    rw [intsetResize, hsize]
    simp [realloc]
  have hset : ∀ contents : Bytes, contents.length = 0 →
      intsetSet { is with contents } pos value = none := fun contents hcontents => by
    refine intsetSet_eq_none value ?_
    have := two_le_of_isEncoding h.encoding
    show contents.length < encodingSize is.encoding
    rw [hcontents, encodingSize_eq h.encoding]
    omega
  simp only [intsetAdd, if_neg hno, hsearch, Option.bind_eq_bind, Option.bind_some,
    Bool.false_eq_true, if_false, hresize]
  by_cases hpos : pos < is.length
  · rcases hmove : intsetMoveTail { is with contents := [] } pos (pos + 1) with _ | is'
    · simp [hpos]
    · -- nothing is moved, and there is still no array
      obtain ⟨contents, hmem, rfl⟩ : ∃ contents : Bytes, contents.length = 0 ∧
          is' = { is with contents } := by
        obtain ⟨contents, hmem, heq⟩ := Option.bind_eq_some_iff.mp hmove
        obtain ⟨bs, -, hstore⟩ := Option.bind_eq_some_iff.mp hmem
        exact ⟨contents, length_of_store hstore, (Option.some_inj.mp heq).symm⟩
      simp [hpos, hset contents hmem]
  · simp [hpos, hset [] rfl]

/-- With `2 ^ 29 - 1` elements of eight bytes the next addition resizes the array
to zero bytes and writes past its end. -/
theorem run_overflow :
    ¬ ∀ steps : List ((ℕ → UInt8) × Op),
      AllSteps Legal (steps.map Prod.snd) ∅ intsetEncInt16 →
      ∃ is xs, runIntset steps intsetNew = some (is, runFlags (steps.map Prod.snd) ∅) ∧
        intsetToList is = some xs ∧ xs.Pairwise (· < ·) ∧
        (∀ x ∈ xs, intsetValueEncoding x ≤ is.encoding) ∧
        is.encoding = runEncoding (steps.map Prod.snd) ∅ intsetEncInt16 ∧
        (∀ x, x ∈ xs ↔ x ∈ runSet (steps.map Prod.snd) ∅) ∧
        ∀ v, IsInt64 v → intsetFind is v = some (decide (v ∈ runSet (steps.map Prod.snd) ∅)) := by
  intro h
  obtain ⟨n, hn⟩ : ∃ n, n = 2 ^ 29 - 1 := ⟨_, rfl⟩
  obtain ⟨hlegal, hroom, hmem, hcard, henc⟩ := addMany_spec n (by omega)
  have hnew : Refines intsetNew ∅ intsetEncInt16 := ⟨rfl, [], holds_intsetNew, by simp⟩
  obtain ⟨is, hrun, ⟨hisenc, xs, hxs, hxsmem⟩, -⟩ :=
    runIntset_refines hnew (by simp) hlegal hroom
  have hlen := card_eq_length hxs hxsmem
  have hvenc : ∀ i : ℕ, intsetValueEncoding (2 ^ 31 + i) = 8 := fun i => by
    have := intsetValueEncoding_cases (2 ^ 31 + i)
    omega
  -- the elements are stored in eight bytes each
  have hfirst : (2 ^ 31 + (0 : ℕ) : ℤ) ∈ xs := by
    rw [hxsmem, hmem]
    omega
  have hle := (hxs.fits _ hfirst).2
  rw [hvenc] at hle
  have henc8 : is.encoding = 8 := by omega
  have hnot : (2 ^ 31 + n : ℤ) ∉ xs := by
    rw [hxsmem, hmem]
    omega
  have hadd := intsetAdd_overflow noJunk hxs (by omega) hnot (by rw [hvenc, henc8])
    (by rw [hxs.length, ← hlen, hcard, henc8]; omega)
  have hlast : runIntset [(noJunk, .add (2 ^ 31 + n))] is = none := by
    simp only [runIntset, Op.onIntset, hadd, Option.bind_eq_bind, Option.bind_none]
  have hlegal' : AllSteps Legal ((addMany n ++ [(noJunk, Op.add (2 ^ 31 + n))]).map Prod.snd) ∅
      intsetEncInt16 := by
    rw [List.map_append]
    refine allSteps_append hlegal ⟨⟨⟨?_, ?_⟩, ?_⟩, trivial⟩
    · show int64Min ≤ 2 ^ 31 + n
      unfold int64Min
      omega
    · show 2 ^ 31 + n ≤ int64Max
      unfold int64Max
      omega
    · show (insert _ _ : Finset ℤ).card < _
      refine lt_of_le_of_lt (Finset.card_insert_le _ _) ?_
      rw [hcard]
      omega
  obtain ⟨is', xs', hbad, -⟩ := h _ hlegal'
  rw [runIntset_append_none hrun hlast] at hbad
  exact Option.some_ne_none _ hbad.symm

end Intset

/-
Comparison functions as `qsort` takes them: the sign of the result is what counts.

* `Consistent` — what `qsort` requires of the function, for the elements of an array;
* `Represents` — the function compares keys in a linear order; then it is consistent;
* `Qsort` — a sorting function, about which nothing is known if the comparison is not consistent.
-/
import Mathlib.Data.List.Sort
import Mathlib.Data.Prod.Lex

namespace Comparators

variable {α κ μ : Type*}

/-- A total preorder on the elements of `l`. -/
structure Consistent (cmp : α → α → ℤ) (l : List α) : Prop where
  refl : ∀ a ∈ l, cmp a a = 0
  antisymm : ∀ a ∈ l, ∀ b ∈ l, (cmp a b < 0 ↔ 0 < cmp b a)
  trans : ∀ a ∈ l, ∀ b ∈ l, ∀ c ∈ l, cmp a b ≤ 0 → cmp b c ≤ 0 → cmp a c ≤ 0

theorem Consistent.total {cmp : α → α → ℤ} {l : List α} (h : Consistent cmp l) {a b : α}
    (ha : a ∈ l) (hb : b ∈ l) : cmp a b ≤ 0 ∨ cmp b a ≤ 0 := by
  by_cases hlt : cmp b a < 0
  · exact .inr hlt.le
  · exact .inl (not_lt.mp (mt (h.antisymm b hb a ha).mpr hlt))

theorem Consistent.subset {cmp : α → α → ℤ} {l l' : List α} (h : Consistent cmp l)
    (hsub : ∀ a ∈ l', a ∈ l) : Consistent cmp l' :=
  ⟨fun a ha => h.refl a (hsub a ha), fun a ha b hb => h.antisymm a (hsub a ha) b (hsub b hb),
    fun a ha b hb c hc => h.trans a (hsub a ha) b (hsub b hb) c (hsub c hc)⟩

/-! ### Keys -/

section
variable [LinearOrder κ] [LinearOrder μ]

/-- The sign of the result compares the keys of two elements. -/
def Represents (cmp : α → α → ℤ) (key : α → κ) (a b : α) : Prop :=
  (cmp a b < 0 ↔ key a < key b) ∧ (cmp a b = 0 ↔ key a = key b)

theorem Represents.pos_iff {cmp : α → α → ℤ} {key : α → κ} {a b : α}
    (h : Represents cmp key a b) : 0 < cmp a b ↔ key b < key a := by
  obtain ⟨hlt, heq⟩ := h
  constructor
  · intro hpos
    have hne : key a ≠ key b := mt heq.mpr hpos.ne'
    exact lt_of_le_of_ne (not_lt.mp (mt hlt.mpr hpos.le.not_gt)) hne.symm
  · intro hkey
    have hne : cmp a b ≠ 0 := mt heq.mp hkey.ne'
    exact lt_of_le_of_ne (not_lt.mp (mt hlt.mp hkey.le.not_gt)) hne.symm

theorem Represents.nonpos_iff {cmp : α → α → ℤ} {key : α → κ} {a b : α}
    (h : Represents cmp key a b) : cmp a b ≤ 0 ↔ key a ≤ key b := by
  rw [← not_lt, h.pos_iff, not_lt]

theorem consistent_of_represents {cmp : α → α → ℤ} {key : α → κ} {l : List α}
    (h : ∀ a ∈ l, ∀ b ∈ l, Represents cmp key a b) : Consistent cmp l where
  refl a ha := (h a ha a ha).2.mpr rfl
  antisymm a ha b hb := by rw [(h a ha b hb).1, (h b hb a ha).pos_iff]
  trans a ha b hb c hc hab hbc := by
    rw [(h a ha b hb).nonpos_iff] at hab
    rw [(h b hb c hc).nonpos_iff] at hbc
    rw [(h a ha c hc).nonpos_iff]
    exact hab.trans hbc

theorem Represents.lex {cmp first second : α → α → ℤ} {key : α → κ} {key' : α → μ} {a b : α}
    (hfirst : Represents first key a b) (hsecond : Represents second key' a b)
    (hcmp : cmp a b = if first a b ≠ 0 then first a b else second a b) :
    Represents cmp (fun x => toLex (key x, key' x)) a b := by
  unfold Represents
  rw [hcmp, Prod.Lex.toLex_lt_toLex, toLex_inj, Prod.mk.injEq]
  by_cases hzero : first a b = 0
  · have hkey := hfirst.2.mp hzero
    rw [if_neg (not_not.mpr hzero), hkey, hsecond.1, hsecond.2]
    exact ⟨⟨fun h => .inr ⟨rfl, h⟩, fun h => (h.resolve_left (lt_irrefl _)).2⟩,
      ⟨fun h => ⟨rfl, h⟩, And.right⟩⟩
  · have hkey : key a ≠ key b := mt hfirst.2.mpr hzero
    rw [if_pos hzero, hfirst.1]
    exact ⟨⟨.inl, fun h => h.resolve_right fun heq => hkey heq.1⟩,
      ⟨fun h => absurd h hzero, fun h => absurd h.1 hkey⟩⟩

end

/-! ### Sorting -/

structure Qsort (α : Type*) where
  sort : (α → α → ℤ) → List α → List α
  perm : ∀ {cmp l}, Consistent cmp l → (sort cmp l).Perm l
  sorted : ∀ {cmp l}, Consistent cmp l → (sort cmp l).Pairwise fun a b => cmp a b ≤ 0

theorem Qsort.head_le (q : Qsort α) {cmp : α → α → ℤ} {l : List α} (h : Consistent cmp l) {a : α}
    (ha : (q.sort cmp l).head? = some a) : a ∈ l ∧ ∀ b ∈ l, cmp a b ≤ 0 := by
  obtain ⟨rest, hsort⟩ := List.head?_eq_some_iff.mp ha
  have hmem : a ∈ l := (q.perm h).mem_iff.mp (hsort ▸ List.mem_cons_self)
  refine ⟨hmem, fun b hb => ?_⟩
  have hb' : b ∈ a :: rest := hsort ▸ (q.perm h).mem_iff.mpr hb
  obtain rfl | hb' := List.mem_cons.mp hb'
  · exact (h.refl b hmem).le
  · have hsorted := q.sorted h
    rw [hsort, List.pairwise_cons] at hsorted
    exact hsorted.1 b hb'

theorem Qsort.head?_eq_none (q : Qsort α) {cmp : α → α → ℤ} {l : List α} (h : Consistent cmp l) :
    (q.sort cmp l).head? = none ↔ l = [] := by
  rw [List.head?_eq_none_iff]
  constructor
  · intro hnil
    exact List.perm_nil.mp (hnil ▸ (q.perm h).symm)
  · rintro rfl
    exact List.perm_nil.mp (q.perm h)

/-- Merge sort is such a function. -/
def mergeQsort (α : Type*) : Qsort α where
  sort cmp l := (l.attach.mergeSort fun a b => decide (cmp a.1 b.1 ≤ 0)).map Subtype.val
  perm {cmp l} _ := by
    have hperm := (List.mergeSort_perm l.attach fun a b => decide (cmp a.1 b.1 ≤ 0)).map Subtype.val
    rwa [List.attach_map_subtype_val] at hperm
  sorted {cmp l} h := by
    rw [List.pairwise_map]
    refine (List.pairwise_mergeSort ?_ ?_ l.attach).imp fun hle => of_decide_eq_true hle
    · intro a b c hab hbc
      exact decide_eq_true (h.trans a.1 a.2 b.1 b.2 c.1 c.2 (of_decide_eq_true hab)
        (of_decide_eq_true hbc))
    · intro a b
      rw [Bool.or_eq_true, decide_eq_true_eq, decide_eq_true_eq]
      exact h.total a.2 b.2

theorem Consistent.exists_least {cmp : α → α → ℤ} {l : List α} (h : Consistent cmp l)
    (hne : l ≠ []) : ∃ a ∈ l, ∀ b ∈ l, cmp a b ≤ 0 := by
  cases hhead : ((mergeQsort α).sort cmp l).head? with
  | none => exact absurd (((mergeQsort α).head?_eq_none h).mp hhead) hne
  | some a => exact ⟨a, ((mergeQsort α).head_le h hhead).1, ((mergeQsort α).head_le h hhead).2⟩

end Comparators

/-
Glob patterns over an arbitrary alphabet.

A pattern is a list of elements, each either a star or a test on one letter.

* `Matches` — the language of a pattern;
* `accepts` — the backtracking matcher, which tries every suffix at a star;
* `accepts_iff` — the matcher decides the language;
* `accepts_star_star`, `accepts_star_cons` — how it runs: a repeated star is one star,
  and a star steps along the word one letter at a time.
-/
import Mathlib.Data.List.Infix

namespace GlobLanguage

variable {α : Type}

/-- A star stands for any word; any other element stands for one letter. -/
inductive Elem (α : Type)
  | star
  | one (accepts : α → Bool)

/-- The words of a pattern. -/
def Matches : List (Elem α) → List α → Prop
  | [], w => w = []
  | .star :: es, w => ∃ u v, w = u ++ v ∧ Matches es v
  | .one f :: es, w => ∃ c v, w = c :: v ∧ f c = true ∧ Matches es v

/-- The backtracking matcher. -/
def accepts : List (Elem α) → List α → Bool
  | [], w => w.isEmpty
  | .star :: es, w => w.tails.any (accepts es)
  | .one _ :: _, [] => false
  | .one f :: es, c :: w => f c && accepts es w

theorem accepts_nil (w : List α) : accepts [] w = w.isEmpty := rfl

theorem accepts_star (es : List (Elem α)) (w : List α) :
    accepts (.star :: es) w = w.tails.any (accepts es) := rfl

theorem accepts_one_nil (f : α → Bool) (es : List (Elem α)) :
    accepts (.one f :: es) [] = false := rfl

theorem accepts_one_cons (f : α → Bool) (es : List (Elem α)) (c : α) (w : List α) :
    accepts (.one f :: es) (c :: w) = (f c && accepts es w) := rfl

theorem accepts_star_iff {es : List (Elem α)} {w : List α} :
    accepts (.star :: es) w = true ↔ ∃ v, v <:+ w ∧ accepts es v = true := by
  simp [accepts_star]

theorem accepts_iff {es : List (Elem α)} {w : List α} :
    accepts es w = true ↔ Matches es w := by
  induction es generalizing w with
  | nil => exact List.isEmpty_iff
  | cons e es ih =>
    cases e with
    | star =>
      rw [accepts_star_iff]
      constructor
      · rintro ⟨v, ⟨u, hu⟩, hv⟩
        exact ⟨u, v, hu.symm, ih.mp hv⟩
      · rintro ⟨u, v, hw, hv⟩
        exact ⟨v, ⟨u, hw.symm⟩, ih.mpr hv⟩
    | one f =>
      rcases w with _ | ⟨c, w⟩
      · refine iff_of_false Bool.false_ne_true ?_
        rintro ⟨c, v, h, -⟩
        cases h
      · rw [accepts_one_cons, Bool.and_eq_true, ih]
        constructor
        · rintro ⟨hc, hw⟩
          exact ⟨c, w, rfl, hc, hw⟩
        · rintro ⟨d, v, h, hd, hv⟩
          obtain ⟨rfl, rfl⟩ := List.cons.inj h
          exact ⟨hd, hv⟩

/-! ### How the matcher runs -/

theorem accepts_star_nil {es : List (Elem α)} :
    accepts (.star :: es) [] = accepts es [] := by
  simp [accepts_star]

theorem accepts_star_cons {es : List (Elem α)} {c : α} {w : List α} :
    accepts (.star :: es) (c :: w) = (accepts es (c :: w) || accepts (.star :: es) w) := by
  simp [accepts_star]

theorem accepts_of_star {es : List (Elem α)} {w : List α} (h : accepts es w = true) :
    accepts (.star :: es) w = true :=
  accepts_star_iff.mpr ⟨w, List.suffix_rfl, h⟩

theorem accepts_star_star {es : List (Elem α)} {w : List α} :
    accepts (.star :: .star :: es) w = accepts (.star :: es) w := by
  rw [Bool.eq_iff_iff]
  constructor
  · intro h
    obtain ⟨v, hv, h⟩ := accepts_star_iff.mp h
    obtain ⟨u, hu, h⟩ := accepts_star_iff.mp h
    exact accepts_star_iff.mpr ⟨u, hu.trans hv, h⟩
  · exact accepts_of_star

theorem accepts_star_last {w : List α} : accepts [.star] w = true :=
  accepts_star_iff.mpr ⟨[], List.nil_suffix, rfl⟩

def Elem.isStar : Elem α → Bool
  | .star => true
  | .one _ => false

theorem matches_append {es fs : List (Elem α)} {w : List α} :
    Matches (es ++ fs) w ↔ ∃ u v, w = u ++ v ∧ Matches es u ∧ Matches fs v := by
  induction es generalizing w with
  | nil =>
    constructor
    · intro h
      exact ⟨[], w, rfl, rfl, h⟩
    · rintro ⟨u, v, rfl, rfl, h⟩
      exact h
  | cons e es ih =>
    rw [List.cons_append]
    cases e with
    | star =>
      constructor
      · rintro ⟨x, y, rfl, hy⟩
        obtain ⟨u, v, rfl, hu, hv⟩ := ih.mp hy
        exact ⟨x ++ u, v, (List.append_assoc x u v).symm, ⟨x, u, rfl, hu⟩, hv⟩
      · rintro ⟨u, v, rfl, ⟨x, y, rfl, hy⟩, hv⟩
        exact ⟨x, y ++ v, List.append_assoc x y v, ih.mpr ⟨y, v, rfl, hy, hv⟩⟩
    | one f =>
      constructor
      · rintro ⟨c, y, rfl, hc, hy⟩
        obtain ⟨u, v, rfl, hu, hv⟩ := ih.mp hy
        exact ⟨c :: u, v, rfl, ⟨c, u, rfl, hc, hu⟩, hv⟩
      · rintro ⟨u, v, rfl, ⟨c, y, rfl, hc, hy⟩, hv⟩
        exact ⟨c, y ++ v, rfl, hc, ih.mpr ⟨y, v, rfl, hy, hv⟩⟩

end GlobLanguage

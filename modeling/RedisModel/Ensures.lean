/-
Rules for programs that can fail.

`Ensures E x Q`: the program `x` either returns a value with `Q` or fails with an error
with `E`.  `E` being `fun _ => False` says that it does not fail.

* `Ensures.bind` — one program after another;
* `Ensures.foldlM`, `Ensures.foldlM_prefix` — loops, with an invariant that may mention
  the part of the list that was processed.
-/
import Mathlib.Data.List.Basic

namespace Except

variable {ε α β : Type*} {E F : ε → Prop}

/-- `x` returns a value with `Q` or fails with an error with `E`. -/
def Ensures (E : ε → Prop) (x : Except ε α) (Q : α → Prop) : Prop :=
  match x with
  | .ok a => Q a
  | .error e => E e

@[simp] theorem ensures_ok {a : α} {Q : α → Prop} : Ensures E (.ok a) Q ↔ Q a := Iff.rfl

theorem Ensures.of_eq_ok {x : Except ε α} {Q : α → Prop} (h : x.Ensures E Q) {a : α}
    (hx : x = .ok a) : Q a := by
  subst hx
  exact h

theorem Ensures.of_eq_error {x : Except ε α} {Q : α → Prop} (h : x.Ensures E Q) {e : ε}
    (hx : x = .error e) : E e := by
  subst hx
  exact h

/-- A program that does not fail returns a value. -/
theorem Ensures.returns {x : Except ε α} {Q : α → Prop} (h : x.Ensures (fun _ => False) Q) :
    ∃ a, x = .ok a ∧ Q a := by
  cases x with
  | ok a => exact ⟨a, rfl, h⟩
  | error e => exact h.elim

theorem Ensures.mono {x : Except ε α} {Q R : α → Prop} (h : x.Ensures E Q)
    (hE : ∀ e, E e → F e) (hQ : ∀ a, Q a → R a) : x.Ensures F R := by
  cases x with
  | ok a => exact hQ a h
  | error e => exact hE e h

theorem Ensures.imp {x : Except ε α} {Q R : α → Prop} (h : x.Ensures E Q)
    (hQ : ∀ a, Q a → R a) : x.Ensures E R :=
  h.mono (fun _ he => he) hQ

theorem Ensures.and {x : Except ε α} {Q R : α → Prop} (h : x.Ensures E Q)
    (h' : x.Ensures E R) : x.Ensures E fun a => Q a ∧ R a := by
  cases x with
  | ok a => exact ⟨h, h'⟩
  | error e => exact h

theorem Ensures.and_of_true {x : Except ε α} {Q R : α → Prop} (h : x.Ensures E Q)
    (h' : x.Ensures (fun _ => True) R) : x.Ensures E fun a => Q a ∧ R a := by
  cases x with
  | ok a => exact ⟨h, h'⟩
  | error e => exact h

theorem toOption_eq_some {x : Except ε α} {a : α} : x.toOption = some a ↔ x = .ok a := by
  cases x with
  | ok b => exact ⟨fun h => congrArg _ (Option.some_inj.mp h), fun h => congrArg Except.toOption h⟩
  | error e => exact ⟨nofun, nofun⟩

section
variable {α β : Type}

theorem Ensures.bind {x : Except ε α} {f : α → Except ε β} {Q : α → Prop} {R : β → Prop}
    (hx : x.Ensures E Q) (hf : ∀ a, Q a → (f a).Ensures E R) : (x >>= f).Ensures E R := by
  cases x with
  | ok a => exact hf a hx
  | error e => exact hx

theorem ok_bind (a : α) (f : α → Except ε β) : (.ok a >>= f) = f a := rfl

theorem bind_eq_ok {x : Except ε α} {f : α → Except ε β} {b : β} :
    (x >>= f) = .ok b ↔ ∃ a, x = .ok a ∧ f a = .ok b := by
  cases x with
  | ok a => exact ⟨fun h => ⟨a, rfl, h⟩, fun ⟨a', h, h'⟩ => by cases h; exact h'⟩
  | error e => exact ⟨nofun, fun ⟨_, h, _⟩ => nomatch h⟩

theorem foldlM_eq_self {f : β → α → Except ε β} {l : List α} {b : β}
    (hf : ∀ a ∈ l, f b a = .ok b) : l.foldlM f b = .ok b := by
  induction l with
  | nil => rfl
  | cons a l ih =>
    rw [List.foldlM_cons, hf a List.mem_cons_self, ok_bind]
    exact ih fun a ha => hf a (List.mem_cons_of_mem _ ha)

theorem foldlM_eq_single {f : β → α → Except ε β} {P : β → Prop} {l : List α} {a : α}
    (hmem : a ∈ l) (hnodup : l.Nodup) (hf : ∀ b, P b → ∀ c ∈ l, c ≠ a → f b c = .ok b) {b : β}
    (hb : P b) (hfa : ∀ b', f b a = .ok b' → P b') : l.foldlM f b = f b a := by
  induction l with
  | nil => exact absurd hmem List.not_mem_nil
  | cons c l ih =>
    rw [List.foldlM_cons]
    obtain ⟨hc, hnodup⟩ := List.nodup_cons.mp hnodup
    by_cases hca : c = a
    · subst hca
      cases hfb : f b c with
      | ok b' =>
        exact foldlM_eq_self fun d hd => hf b' (hfa b' hfb) d (List.mem_cons_of_mem _ hd)
          fun heq => hc (heq ▸ hd)
      | error e => rfl
    · rw [hf b hb c List.mem_cons_self hca, ok_bind]
      refine ih ?_ hnodup fun b hb d hd => hf b hb d (List.mem_cons_of_mem _ hd)
      exact (List.mem_cons.mp hmem).resolve_left (Ne.symm hca)

theorem Ensures.foldlM {f : β → α → Except ε β} {I : β → Prop} {l : List α}
    (hf : ∀ b, ∀ a ∈ l, I b → (f b a).Ensures E I) {b : β} (hb : I b) :
    (l.foldlM f b).Ensures E I := by
  induction l generalizing b with
  | nil => exact hb
  | cons a l ih =>
    rw [List.foldlM_cons]
    refine (hf b a List.mem_cons_self hb).bind fun b' hb' => ?_
    exact ih (fun b a ha => hf b a (List.mem_cons_of_mem _ ha)) hb'

/-- A loop with an invariant about the elements processed so far. -/
theorem Ensures.foldlM_prefix {f : β → α → Except ε β} {I : List α → β → Prop} {l : List α}
    (hf : ∀ done a rest b, l = done ++ a :: rest → I done b →
      (f b a).Ensures E (I (done ++ [a]))) {b : β} (hb : I [] b) :
    (l.foldlM f b).Ensures E (I l) := by
  suffices h : ∀ done rest b, l = done ++ rest → I done b → (rest.foldlM f b).Ensures E (I l) from
    h [] l b rfl hb
  intro done rest
  induction rest generalizing done with
  | nil =>
    intro b hl hb
    rw [List.append_nil] at hl
    subst hl
    exact hb
  | cons a rest ih =>
    intro b hl hb
    rw [List.foldlM_cons]
    refine (hf done a rest b hl hb).bind fun b' hb' => ?_
    exact ih (done ++ [a]) b' (by simpa using hl) hb'

end

end Except

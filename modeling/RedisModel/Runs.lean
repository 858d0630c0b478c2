/-
Runs of a system that takes one event after another.

`step s e` is the state after the event `e` in the state `s`; `none` means that the
event is not possible there.

* `run` — the state after a list of events;
* `AllSteps` — every step of a run meets a condition on the state before it;
* `run_invariant`, `run_invariant_of_allSteps`, `run_total_of_allSteps` — what every step preserves
  holds at the end of every run;
* `tracks_iff_allSteps` — a run does what it is meant to when each of its steps does.
-/
import Mathlib.Data.List.Basic

namespace Runs

variable {σ ε : Type*} (step : σ → ε → Option σ)

/-- The state after the events, one after the other. -/
def run : σ → List ε → Option σ
  | s, [] => some s
  | s, e :: es => (step s e).bind fun s => run s es

/-- Every step of a run meets a condition on the state before it. -/
def AllSteps (P : σ → ε → Prop) : σ → List ε → Prop
  | _, [] => True
  | s, e :: es => P s e ∧ ∀ s', step s e = some s' → AllSteps P s' es

variable {step}

@[simp] theorem run_nil (s : σ) : run step s [] = some s := rfl

theorem run_cons_eq_some {s s' : σ} {e : ε} {es : List ε} :
    run step s (e :: es) = some s' ↔ ∃ m, step s e = some m ∧ run step m es = some s' :=
  Option.bind_eq_some_iff

theorem run_cons_of_step {s m s' : σ} {e : ε} {es : List ε} (hstep : step s e = some m)
    (hrest : run step m es = some s') : run step s (e :: es) = some s' :=
  run_cons_eq_some.mpr ⟨m, hstep, hrest⟩

theorem run_append_eq_some {s s' : σ} {es fs : List ε} :
    run step s (es ++ fs) = some s' ↔ ∃ m, run step s es = some m ∧ run step m fs = some s' := by
  induction es generalizing s with
  | nil => simp
  | cons e es ih =>
    rw [List.cons_append, run_cons_eq_some]
    constructor
    · rintro ⟨m, hm, h⟩
      obtain ⟨m', hm', h'⟩ := ih.mp h
      exact ⟨m', run_cons_eq_some.mpr ⟨m, hm, hm'⟩, h'⟩
    · rintro ⟨m', hm', h'⟩
      obtain ⟨m, hm, h⟩ := run_cons_eq_some.mp hm'
      exact ⟨m, hm, ih.mpr ⟨m', h, h'⟩⟩

theorem AllSteps.mono {P Q : σ → ε → Prop} (h : ∀ s e, P s e → Q s e) {s : σ} {es : List ε}
    (hall : AllSteps step P s es) : AllSteps step Q s es := by
  induction es generalizing s with
  | nil => trivial
  | cons e es ih => exact ⟨h s e hall.1, fun s' hs => ih (hall.2 s' hs)⟩

theorem AllSteps.iff_of_kept {P Q : σ → ε → Prop} {I : σ → Prop}
    (hiff : ∀ s e, I s → (P s e ↔ Q s e))
    (hstep : ∀ s e s', I s → P s e → step s e = some s' → I s') {s : σ} {es : List ε} (hs : I s) :
    AllSteps step P s es ↔ AllSteps step Q s es := by
  induction es generalizing s with
  | nil => exact Iff.rfl
  | cons e es ih =>
    constructor
    · rintro ⟨hP, hrest⟩
      exact ⟨(hiff s e hs).mp hP, fun s' hs' => (ih (hstep s e s' hs hP hs')).mp (hrest s' hs')⟩
    · rintro ⟨hQ, hrest⟩
      have hP := (hiff s e hs).mpr hQ
      exact ⟨hP, fun s' hs' => (ih (hstep s e s' hs hP hs')).mpr (hrest s' hs')⟩

theorem AllSteps.iff_of_invariant {P Q : σ → ε → Prop} {I : σ → Prop}
    (hiff : ∀ s e, I s → (P s e ↔ Q s e)) (hstep : ∀ s e s', I s → step s e = some s' → I s')
    {s : σ} {es : List ε} (hs : I s) : AllSteps step P s es ↔ AllSteps step Q s es :=
  AllSteps.iff_of_kept hiff (fun s e s' hI _ => hstep s e s' hI) hs

theorem AllSteps.cons {P : σ → ε → Prop} {s m : σ} {e : ε} {es : List ε} (hP : P s e)
    (hstep : step s e = some m) (hrest : AllSteps step P m es) : AllSteps step P s (e :: es) := by
  refine ⟨hP, fun m' hm' => ?_⟩
  obtain rfl := Option.some_inj.mp (hstep.symm.trans hm')
  exact hrest

theorem AllSteps.append {P : σ → ε → Prop} {s s' : σ} {es fs : List ε}
    (hall : AllSteps step P s (es ++ fs)) (hrun : run step s es = some s') :
    AllSteps step P s es ∧ AllSteps step P s' fs := by
  induction es generalizing s with
  | nil =>
    obtain rfl := Option.some_inj.mp hrun
    exact ⟨trivial, hall⟩
  | cons e es ih =>
    obtain ⟨m, hm, hrun⟩ := run_cons_eq_some.mp hrun
    obtain ⟨hes, hfs⟩ := ih (hall.2 m hm) hrun
    exact ⟨.cons hall.1 hm hes, hfs⟩

theorem AllSteps.of_forall {P : σ → ε → Prop} {s : σ} {es : List ε}
    (h : ∀ e ∈ es, ∀ s, P s e) : AllSteps step P s es := by
  induction es generalizing s with
  | nil => trivial
  | cons e es ih =>
    obtain ⟨he, hes⟩ := List.forall_mem_cons.mp h
    exact ⟨he s, fun s' _ => ih hes⟩

theorem AllSteps.concat {P : σ → ε → Prop} {s s' : σ} {es : List ε} {e : ε}
    (hall : AllSteps step P s es) (hrun : run step s es = some s') (hP : P s' e) :
    AllSteps step P s (es ++ [e]) := by
  induction es generalizing s with
  | nil =>
    obtain rfl := Option.some_inj.mp hrun
    exact ⟨hP, fun _ _ => trivial⟩
  | cons e' es ih =>
    obtain ⟨m, hm, hrun⟩ := run_cons_eq_some.mp hrun
    exact .cons hall.1 hm (ih (hall.2 m hm) hrun)

theorem AllSteps.run_cons {P : σ → ε → Prop} {s m s' : σ} {e : ε} {es : List ε} (hP : P s e)
    (hstep : step s e = some m) (hrest : AllSteps step P m es ∧ run step m es = some s') :
    AllSteps step P s (e :: es) ∧ run step s (e :: es) = some s' :=
  ⟨.cons hP hstep hrest.1, run_cons_eq_some.mpr ⟨m, hstep, hrest.2⟩⟩

instance AllSteps.decidable {P : σ → ε → Prop} [∀ s e, Decidable (P s e)] :
    ∀ s es, Decidable (AllSteps step P s es)
  | _, [] => isTrue trivial
  | s, e :: es =>
    match hstep : step s e with
    | none =>
      decidable_of_iff (P s e) ⟨fun h => ⟨h, fun _ hs => nomatch hstep.symm.trans hs⟩, And.left⟩
    | some s' =>
      have := AllSteps.decidable (P := P) s' es
      decidable_of_iff (P s e ∧ AllSteps step P s' es)
        ⟨fun h => .cons h.1 hstep h.2, fun h => ⟨h.1, h.2 s' hstep⟩⟩

theorem run_invariant_of_allSteps {P : σ → ε → Prop} {I : σ → Prop}
    (hstep : ∀ s e s', I s → P s e → step s e = some s' → I s') {s s' : σ} {es : List ε}
    (hs : I s) (hall : AllSteps step P s es) (hrun : run step s es = some s') : I s' := by
  induction es generalizing s with
  | nil =>
    obtain rfl := Option.some_inj.mp hrun
    exact hs
  | cons e es ih =>
    obtain ⟨m, hm, hrun⟩ := run_cons_eq_some.mp hrun
    exact ih (hstep s e m hs hall.1 hm) (hall.2 m hm) hrun

theorem run_total_of_allSteps {P : σ → ε → Prop} {I : σ → Prop}
    (hstep : ∀ s e, I s → P s e → ∃ s', step s e = some s' ∧ I s') {s : σ} {es : List ε}
    (hs : I s) (hall : AllSteps step P s es) : ∃ s', run step s es = some s' ∧ I s' := by
  induction es generalizing s with
  | nil => exact ⟨s, rfl, hs⟩
  | cons e es ih =>
    obtain ⟨m, hm, hI⟩ := hstep s e hs hall.1
    obtain ⟨s', hrun, hs'⟩ := ih hI (hall.2 m hm)
    exact ⟨s', run_cons_of_step hm hrun, hs'⟩

theorem run_invariant {I : σ → Prop} (hstep : ∀ s e s', I s → step s e = some s' → I s')
    {s s' : σ} {es : List ε} (hs : I s) (hrun : run step s es = some s') : I s' := by
  induction es generalizing s with
  | nil =>
    obtain rfl := Option.some_inj.mp hrun
    exact hs
  | cons e es ih =>
    obtain ⟨m, hm, hrun⟩ := run_cons_eq_some.mp hrun
    exact ih (hstep s e m hs hm) hrun

/-- `obs` is what is seen of a state and `f` what an event is meant to do to it.  A run is as
it is meant to be all along exactly when each step meets the condition under which a step is. -/
theorem tracks_iff_allSteps {α : Type*} {obs : σ → α} {f : α → ε → α} {P : σ → ε → Prop}
    {I : σ → Prop} {E : ε → Prop}
    (hiff : ∀ s e, I s → E e → ((∃ s', step s e = some s' ∧ obs s' = f (obs s) e) ↔ P s e))
    (hI : ∀ s e s', I s → E e → step s e = some s' → obs s' = f (obs s) e → I s')
    {s : σ} {es : List ε} (hs : I s) (hE : ∀ e ∈ es, E e) :
    (∀ p, p <+: es → ∃ s', run step s p = some s' ∧ obs s' = p.foldl f (obs s)) ↔
      AllSteps step P s es := by
  induction es generalizing s with
  | nil =>
    refine ⟨fun _ => trivial, fun _ p hp => ?_⟩
    obtain rfl := List.prefix_nil.mp hp
    exact ⟨s, rfl, rfl⟩
  | cons e es ih =>
    obtain ⟨he, hes⟩ := List.forall_mem_cons.mp hE
    constructor
    · intro h
      obtain ⟨m, hone, hobs⟩ := h [e] (List.prefix_append [e] es)
      have hm : step s e = some m := by
        obtain ⟨m', hm', hnil⟩ := run_cons_eq_some.mp hone
        rwa [Option.some_inj.mp hnil] at hm'
      refine .cons ((hiff s e hs he).mp ⟨m, hm, hobs⟩) hm
        ((ih (hI s e m hs he hm hobs) hes).mp fun p hp => ?_)
      obtain ⟨s', hrun, hs'⟩ := h (e :: p) (List.cons_prefix_cons.mpr ⟨rfl, hp⟩)
      obtain ⟨m', hm', hrest⟩ := run_cons_eq_some.mp hrun
      rw [Option.some_inj.mp (hm'.symm.trans hm)] at hrest
      exact ⟨s', hrest, by rw [hs', hobs, List.foldl_cons, List.foldl_cons, List.foldl_nil]⟩
    · rintro ⟨hP, hrest⟩ p hp
      cases p with
      | nil => exact ⟨s, rfl, rfl⟩
      | cons e' p =>
        obtain ⟨rfl, hp'⟩ := List.cons_prefix_cons.mp hp
        obtain ⟨m, hm, hobs⟩ := (hiff s e' hs he).mpr hP
        obtain ⟨s', hrun, hs'⟩ := (ih (hI s e' m hs he hm hobs) hes).mpr (hrest m hm) p hp'
        exact ⟨s', run_cons_of_step hm hrun, by rw [hs', hobs, List.foldl_cons]⟩

end Runs

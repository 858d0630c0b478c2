/-
The descriptors of a process, seen by one of its subsystems.

A number is free, or open for the subsystem or for somebody else.  The subsystem may close any
number, also one that is free or not its own.

* `Holds` — the subsystem holds these descriptors, and closed every other one it opened once;
* `Holds.openFile`, `Holds.close` — what it may do with them.
-/
import Mathlib.Data.List.Nodup
import Mathlib.Data.List.Perm.Basic

/-- For whom a descriptor is open. -/
inductive Owner where
  | subsystem
  | other
  deriving DecidableEq, Repr

/-- `opened` and `closed` count what the subsystem did with a number. -/
structure Descriptors where
  owner : ℕ → Option Owner
  opened : ℕ → ℕ
  closed : ℕ → ℕ

namespace Descriptors

/-- `open`: the system picks a number that is free. -/
def openFile (t : Descriptors) (fd : ℕ) : Option Descriptors :=
  if t.owner fd = none then
    some { t with
      owner := Function.update t.owner fd (some .subsystem)
      opened := Function.update t.opened fd (t.opened fd + 1) }
  else none

/-- `close`: the number is free afterwards. -/
def close (t : Descriptors) (fd : ℕ) : Descriptors :=
  { t with
    owner := Function.update t.owner fd none
    closed := Function.update t.closed fd (t.closed fd + 1) }

/-- Somebody else opens a descriptor. -/
def othersOpen (t : Descriptors) (fd : ℕ) : Option Descriptors :=
  if t.owner fd = none then some { t with owner := Function.update t.owner fd (some .other) }
  else none

/-- Somebody else closes a descriptor of theirs. -/
def othersClose (t : Descriptors) (fd : ℕ) : Option Descriptors :=
  if t.owner fd = some .other then some { t with owner := Function.update t.owner fd none }
  else none

/-- The subsystem holds the descriptors `fds`. -/
structure Holds (t : Descriptors) (fds : List ℕ) : Prop where
  nodup : fds.Nodup
  owned : ∀ fd, t.owner fd = some .subsystem ↔ fd ∈ fds
  once : ∀ fd, t.opened fd = t.closed fd + fds.count fd

section
variable {t t' : Descriptors} {fds fds' : List ℕ} {fd : ℕ}

theorem Holds.perm (h : t.Holds fds) (hperm : fds.Perm fds') : t.Holds fds' :=
  ⟨hperm.nodup_iff.mp h.nodup, fun fd => (h.owned fd).trans hperm.mem_iff,
    fun fd => by rw [h.once, hperm.count_eq]⟩

theorem Holds.openFile (h : t.Holds fds) (hopen : t.openFile fd = some t') :
    t'.Holds (fd :: fds) := by
  unfold Descriptors.openFile at hopen
  split at hopen
  · rename_i hfree
    obtain rfl := Option.some_inj.mp hopen
    have hnot : fd ∉ fds := fun hmem => by
      rw [(h.owned fd).mpr hmem] at hfree
      cases hfree
    refine ⟨List.nodup_cons.mpr ⟨hnot, h.nodup⟩, fun k => ?_, fun k => ?_⟩
    · by_cases hk : k = fd
      · subst hk
        exact iff_of_true (Function.update_self _ _ _) (List.mem_cons_self ..)
      · show Function.update t.owner fd _ k = _ ↔ _
        rw [Function.update_of_ne hk, h.owned, List.mem_cons, or_iff_right hk]
    · by_cases hk : k = fd
      · subst hk
        show Function.update t.opened k _ k = _
        rw [Function.update_self, List.count_cons_self, h.once]
        rfl
      · show Function.update t.opened fd _ k = _
        rw [Function.update_of_ne hk, List.count_cons_of_ne (Ne.symm hk), h.once]
  · cases hopen

theorem Holds.close (h : t.Holds (fd :: fds)) : (t.close fd).Holds fds := by
  obtain ⟨hnot, hnodup⟩ := List.nodup_cons.mp h.nodup
  refine ⟨hnodup, fun k => ?_, fun k => ?_⟩
  · by_cases hk : k = fd
    · subst hk
      refine iff_of_false ?_ hnot
      show Function.update t.owner k none k ≠ _
      rw [Function.update_self]
      nofun
    · show Function.update t.owner fd none k = _ ↔ _
      rw [Function.update_of_ne hk, h.owned, List.mem_cons, or_iff_right hk]
  · have honce := h.once k
    by_cases hk : k = fd
    · subst hk
      rw [List.count_cons_self] at honce
      show t.opened k = Function.update t.closed k _ k + _
      rw [Function.update_self, honce]
      omega
    · rw [List.count_cons_of_ne (Ne.symm hk)] at honce
      show t.opened k = Function.update t.closed fd _ k + _
      rw [Function.update_of_ne hk, honce]

theorem Holds.update_owner (h : t.Holds fds) {owner : Option Owner}
    (hold : t.owner fd ≠ some .subsystem) (hnew : owner ≠ some .subsystem) :
    Holds { t with owner := Function.update t.owner fd owner } fds := by
  refine ⟨h.nodup, fun k => ?_, h.once⟩
  show Function.update t.owner fd owner k = _ ↔ _
  by_cases hk : k = fd
  · subst hk
    rw [Function.update_self]
    exact iff_of_false hnew fun hmem => hold ((h.owned k).mpr hmem)
  · rw [Function.update_of_ne hk]
    exact h.owned k

theorem Holds.othersOpen (h : t.Holds fds) (hopen : t.othersOpen fd = some t') : t'.Holds fds := by
  unfold Descriptors.othersOpen at hopen
  split at hopen
  · rename_i hfree
    obtain rfl := Option.some_inj.mp hopen
    exact h.update_owner (by rw [hfree]; nofun) nofun
  · cases hopen

theorem Holds.othersClose (h : t.Holds fds) (hclose : t.othersClose fd = some t') :
    t'.Holds fds := by
  unfold Descriptors.othersClose at hclose
  split at hclose
  · rename_i hother
    obtain rfl := Option.some_inj.mp hclose
    exact h.update_owner (by rw [hother]; nofun) nofun
  · cases hclose

end

end Descriptors

/-
Readers of streams: functions that take what they need from the front of a list.

A text is read to a result if it is read to it whatever stands behind it, and if no part of the
text that misses its end can be read.

* `StreamReader` — readers; `eof` is the error at the end of the stream;
* `Reads` — a text is read to a result with a property;
* `Reads.bind`, `Reads.take`, `Reads.times` — texts that stand one behind the other.
-/
import Mathlib.Data.List.Basic

/-- A reader of a stream of elements of `σ`, which may fail with an error. -/
abbrev StreamReader (σ E α : Type) := StateT (List σ) (Except E) α

namespace StreamReader

section

variable {σ E α β : Type} {eof : E}

/-- The next `n` elements. -/
def take (eof : E) (n : ℕ) : StreamReader σ E (List σ) := fun s =>
  if n ≤ s.length then .ok (s.take n, s.drop n) else .error eof

/-- `n` results, one after the other. -/
def times (p : StreamReader σ E α) : ℕ → StreamReader σ E (List α)
  | 0 => pure []
  | n + 1 => do
    let x ← p
    let xs ← times p n
    return x :: xs

/-- The text `a` is read to a result with the property `P`, and not without its end. -/
structure Reads (eof : E) (p : StreamReader σ E α) (a : List σ) (P : α → Prop) : Prop where
  whole : ∃ x, P x ∧ ∀ rest, p (a ++ rest) = .ok (x, rest)
  cut : ∀ u, u <+: a → u ≠ a → p u = .error eof

variable {p : StreamReader σ E α} {a b : List σ} {P P' : α → Prop} {Q : β → Prop}

theorem bind_of_ok {f : α → StreamReader σ E β} {s rest : List σ} {x : α}
    (h : p s = .ok (x, rest)) : (p >>= f) s = f x rest := by
  show (p s).bind _ = _
  rw [h]
  rfl

theorem bind_of_error {f : α → StreamReader σ E β} {s : List σ} {e : E} (h : p s = .error e) :
    (p >>= f) s = .error e := by
  show (p s).bind _ = _
  rw [h]
  rfl

theorem Reads.imp (h : Reads eof p a P) (hP : ∀ x, P x → P' x) : Reads eof p a P' := by
  obtain ⟨x, hx, hread⟩ := h.whole
  exact ⟨⟨x, hP x hx, hread⟩, h.cut⟩

theorem Reads.pure {x : α} (hx : P x) : Reads (σ := σ) eof (pure x) [] P :=
  ⟨⟨x, hx, fun _ => rfl⟩, fun _ hu hne => absurd (List.prefix_nil.mp hu) hne⟩

theorem Reads.bind {f : α → StreamReader σ E β} (hp : Reads eof p a P)
    (hf : ∀ x, P x → Reads eof (f x) b Q) : Reads eof (p >>= f) (a ++ b) Q := by
  obtain ⟨x, hx, hread⟩ := hp.whole
  obtain ⟨y, hy, hnext⟩ := (hf x hx).whole
  refine ⟨⟨y, hy, fun rest => ?_⟩, fun u hu hne => ?_⟩
  · rw [List.append_assoc, bind_of_ok (hread _), hnext]
  · rcases List.prefix_or_prefix_of_prefix hu (List.prefix_append a b) with hua | ⟨v, rfl⟩
    · by_cases heq : u = a
      · have hcut := (hf x hx).cut [] List.nil_prefix fun h => hne (by rw [heq, ← h, List.append_nil])
        have ha := hread []
        rw [List.append_nil, ← heq] at ha
        rw [bind_of_ok ha, hcut]
      · exact bind_of_error (hp.cut u hua heq)
    · rw [bind_of_ok (hread v)]
      refine (hf x hx).cut v ((List.prefix_append_right_inj a).mp hu) fun h => hne ?_
      rw [h]

/-- A reader that ends with what the text is read to. -/
theorem Reads.map {f : α → β} (h : Reads eof p a fun x => Q (f x)) :
    Reads eof (do return f (← p)) a Q := by
  have := h.bind (f := fun x => Pure.pure (f x)) fun x hx => Reads.pure hx
  rwa [List.append_nil] at this

theorem Reads.take {n : ℕ} (hn : n = a.length) : Reads eof (take eof n) a (· = a) := by
  subst hn
  refine ⟨⟨a, rfl, fun rest => ?_⟩, fun u hu hne => ?_⟩
  · rw [StreamReader.take, if_pos (by rw [List.length_append]; omega), List.take_left,
      List.drop_left]
  · rw [StreamReader.take, if_neg]
    exact fun hle => hne (hu.eq_of_length_le hle)

/-- Texts of the elements of a list, read as often as there are elements. -/
theorem Reads.times {γ δ : Type} {write : γ → List σ} {f : α → δ} {g : γ → δ} {l : List γ}
    (h : ∀ c ∈ l, Reads eof p (write c) fun x => f x = g c) :
    Reads eof (times p l.length) (l.flatMap write) fun xs => xs.map f = l.map g := by
  induction l with
  | nil => exact Reads.pure rfl
  | cons c l ih =>
    rw [List.forall_mem_cons] at h
    refine h.1.bind fun x hx => ?_
    refine ((ih h.2).imp fun xs hxs => ?_).map (f := (x :: ·))
    rw [List.map_cons, List.map_cons, hx, hxs]

end

end StreamReader

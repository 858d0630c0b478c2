/-
Chains of linked towers: the pointer structure of a skip list.

A tower has an address, a height and some data.  In a list of towers, the link
of a tower at level `i` leads to the next tower that reaches level `i`, and its
span is the number of steps to it, or to the end if there is none.  `Linked`
says this of every tower that reaches level `i`.

* `Linked.insert_tall`, `Linked.insert_flat` — a tower is put into the list and
  the links of one level are adjusted;
* `Linked.remove_tall`, `Linked.remove_flat` — a tower is taken out;
* `walk_spec`, `descend_spec` — walking right as far as a condition allows, from
  the highest level down to level 0, ends at a place of the list, and at each
  level in the last tower before that place that reaches the level.

The spans live in a commutative ring, so that counters that wrap around are
covered.
-/
import Mathlib.Data.List.Nodup
import Mathlib.Algebra.Ring.Basic
import Mathlib.Data.Nat.Cast.Basic
import Mathlib.Tactic.Ring

namespace SkipChain

/-- One level of a tower: the address of the next tower and the steps to it. -/
structure Link (R : Type*) where
  forward : Option ℕ
  span : R
  deriving DecidableEq, Repr

structure Tower (α : Type*) where
  ref : ℕ
  height : ℕ
  data : α
  deriving DecidableEq, Repr

section
variable {α : Type*} (i : ℕ)

/-- The address of the first tower that reaches level `i`. -/
def nextRef : List (Tower α) → Option ℕ
  | [] => none
  | y :: s => if i < y.height then some y.ref else nextRef s

/-- The steps to the first tower that reaches level `i`, or to the end. -/
def nextSpan : List (Tower α) → ℕ
  | [] => 0
  | y :: s => if i < y.height then 1 else nextSpan s + 1

/-- No tower reaches level `i`. -/
def Flat (b : List (Tower α)) : Prop := ∀ y ∈ b, y.height ≤ i

end

section
variable {α : Type*} {i : ℕ} {a b s t : List (Tower α)} {x y u : Tower α}

@[simp] theorem flat_nil : Flat i ([] : List (Tower α)) := by simp [Flat]

@[simp] theorem flat_cons : Flat i (y :: b) ↔ y.height ≤ i ∧ Flat i b := by simp [Flat]

@[simp] theorem flat_append : Flat i (a ++ b) ↔ Flat i a ∧ Flat i b := by
  simp only [Flat, List.mem_append, or_imp, forall_and]

theorem Flat.mono {j : ℕ} (h : Flat i b) (hij : i ≤ j) : Flat j b :=
  fun y hy => (h y hy).trans hij

theorem nextRef_cons_tall (h : i < y.height) : nextRef i (y :: s) = some y.ref := if_pos h

theorem nextRef_cons_flat (h : y.height ≤ i) : nextRef i (y :: s) = nextRef i s :=
  if_neg (not_lt.mpr h)

theorem nextSpan_cons_tall (h : i < y.height) : nextSpan i (y :: s) = 1 := if_pos h

theorem nextSpan_cons_flat (h : y.height ≤ i) : nextSpan i (y :: s) = nextSpan i s + 1 :=
  if_neg (not_lt.mpr h)

theorem nextRef_append_flat (h : Flat i b) : nextRef i (b ++ s) = nextRef i s := by
  induction b with
  | nil => rfl
  | cons y b ih =>
    obtain ⟨hy, hb⟩ := flat_cons.mp h
    rw [List.cons_append, nextRef_cons_flat hy, ih hb]

theorem nextSpan_append_flat (h : Flat i b) : nextSpan i (b ++ s) = b.length + nextSpan i s := by
  induction b with
  | nil => simp
  | cons y b ih =>
    obtain ⟨hy, hb⟩ := flat_cons.mp h
    rw [List.cons_append, nextSpan_cons_flat hy, ih hb, List.length_cons]
    omega

theorem nextRef_flat (h : Flat i b) : nextRef i b = none := by
  simpa [nextRef] using nextRef_append_flat (s := []) h

theorem nextSpan_flat (h : Flat i b) : nextSpan i b = b.length := by
  simpa [nextSpan] using nextSpan_append_flat (s := []) h

theorem nextRef_append_tall (hu : i < u.height) :
    nextRef i (a ++ u :: s) = nextRef i (a ++ u :: t) := by
  induction a with
  | nil => simp [nextRef, hu]
  | cons y a ih => simp only [List.cons_append, nextRef, ih]

theorem nextSpan_append_tall (hu : i < u.height) :
    nextSpan i (a ++ u :: s) = nextSpan i (a ++ u :: t) := by
  induction a with
  | nil => simp [nextSpan, hu]
  | cons y a ih => simp only [List.cons_append, nextSpan, ih]

theorem flat_or_first (i : ℕ) (s : List (Tower α)) :
    Flat i s ∨ ∃ b y t, s = b ++ y :: t ∧ Flat i b ∧ i < y.height := by
  induction s with
  | nil => exact Or.inl flat_nil
  | cons z s ih =>
    by_cases hz : i < z.height
    · exact Or.inr ⟨[], z, s, rfl, flat_nil, hz⟩
    · rcases ih with h | ⟨b, y, t, rfl, hb, hy⟩
      · exact Or.inl (flat_cons.mpr ⟨not_lt.mp hz, h⟩)
      · exact Or.inr ⟨z :: b, y, t, rfl, flat_cons.mpr ⟨not_lt.mp hz, hb⟩, hy⟩

theorem nextRef_mem {r : ℕ} (h : nextRef i s = some r) : r ∈ s.map Tower.ref := by
  rcases flat_or_first i s with hs | ⟨b, y, t, rfl, hb, hy⟩
  · rw [nextRef_flat hs] at h
    exact absurd h (by simp)
  · rw [nextRef_append_flat hb, nextRef_cons_tall hy] at h
    obtain rfl := Option.some_inj.mp h
    simp

theorem nextRef_eq_none : nextRef i s = none ↔ Flat i s := by
  constructor
  · intro h
    rcases flat_or_first i s with hs | ⟨b, y, t, rfl, hb, hy⟩
    · exact hs
    · rw [nextRef_append_flat hb, nextRef_cons_tall hy] at h
      exact absurd h (by simp)
  · exact nextRef_flat

end

/-- The address of the last tower, or `prev` if there is none. -/
def lastRef {α : Type*} (prev : Option ℕ) : List (Tower α) → Option ℕ
  | [] => prev
  | y :: s => lastRef (some y.ref) s

theorem lastRef_append {α : Type*} {prev : Option ℕ} {a b : List (Tower α)} :
    lastRef prev (a ++ b) = lastRef (lastRef prev a) b := by
  induction a generalizing prev with
  | nil => rfl
  | cons y a ih => exact ih

/-! ### Linked lists of towers -/

section
variable {α R : Type*} [CommRing R]

/-- The links at level `i` of the towers of a list that is followed by `s`. -/
def Linked (link : ℕ → Option (Link R)) (i : ℕ) : List (Tower α) → List (Tower α) → Prop
  | [], _ => True
  | y :: p, s =>
    (i < y.height → link y.ref = some ⟨nextRef i (p ++ s), (nextSpan i (p ++ s) : ℕ)⟩)
      ∧ Linked link i p s

variable {link link' : ℕ → Option (Link R)} {i : ℕ} {a b p q s t : List (Tower α)}
  {x u : Tower α}

theorem linked_append : Linked link i (p ++ q) s ↔ Linked link i p (q ++ s) ∧ Linked link i q s := by
  induction p with
  | nil => simp [Linked]
  | cons y p ih => simp only [List.cons_append, Linked, ih, List.append_assoc, and_assoc]

theorem Linked.congr_tail (hu : i < u.height) (h : Linked link i a (u :: s)) :
    Linked link i a (u :: t) := by
  induction a with
  | nil => trivial
  | cons y a ih =>
    refine ⟨fun hy => ?_, ih h.2⟩
    rw [h.1 hy, nextRef_append_tall (s := s) (t := t) hu, nextSpan_append_tall (s := s) (t := t) hu]

theorem linked_flat (h : Flat i b) : Linked link i b s := by
  induction b with
  | nil => trivial
  | cons y b ih =>
    obtain ⟨hy, hb⟩ := flat_cons.mp h
    exact ⟨fun hlt => absurd hlt (not_lt.mpr hy), ih hb⟩

theorem Linked.congr_link (h : Linked link i p s)
    (heq : ∀ r ∈ p.map Tower.ref, link' r = link r) : Linked link' i p s := by
  induction p with
  | nil => trivial
  | cons y p ih =>
    refine ⟨fun hy => ?_, ih h.2 fun r hr => heq r (by simp [List.map_cons, hr])⟩
    rw [heq y.ref (by simp), h.1 hy]

theorem linked_last (hu : i < u.height) (hb : Flat i b) :
    Linked link i (a ++ u :: b) s ↔ Linked link i a [u] ∧
      link u.ref = some ⟨nextRef i s, (b.length + nextSpan i s : ℕ)⟩ := by
  rw [linked_append]
  simp only [Linked, nextRef_append_flat hb, nextSpan_append_flat hb]
  constructor
  · rintro ⟨h1, h2, -⟩
    exact ⟨h1.congr_tail hu, h2 hu⟩
  · rintro ⟨h1, h2⟩
    exact ⟨h1.congr_tail hu, fun _ => h2, linked_flat hb⟩

theorem Linked.get_last (h : Linked link i (a ++ u :: b) s) (hu : i < u.height) (hb : Flat i b) :
    link u.ref = some ⟨nextRef i s, (b.length + nextSpan i s : ℕ)⟩ :=
  ((linked_last hu hb).mp h).2

theorem Linked.get (h : Linked link i (a ++ u :: s) []) (hu : i < u.height) :
    link u.ref = some ⟨nextRef i s, (nextSpan i s : ℕ)⟩ := by
  have h' := (linked_append.mp h).2.1 hu
  simpa using h'

theorem Linked.replace (h : Linked link i (a ++ u :: b) s) (hu : i < u.height) (hb : Flat i b)
    (hframe : ∀ r ∈ a.map Tower.ref, link' r = link r)
    (hlu : link' u.ref = some ⟨nextRef i t, (b.length + nextSpan i t : ℕ)⟩) :
    Linked link' i (a ++ u :: b) t :=
  (linked_last hu hb).mpr ⟨((linked_last hu hb).mp h).1.congr_link hframe, hlu⟩

omit [CommRing R] in
theorem frame_of_nodup (hnd : ((a ++ u :: b ++ x :: s).map Tower.ref).Nodup)
    (hframe : ∀ r, r ≠ u.ref → r ≠ x.ref → link' r = link r) :
    (∀ r ∈ a.map Tower.ref, link' r = link r) ∧ ∀ r ∈ s.map Tower.ref, link' r = link r := by
  simp only [List.map_append, List.map_cons, List.nodup_append, List.nodup_cons, List.mem_append,
    List.mem_cons] at hnd
  obtain ⟨⟨-, -, hau⟩, ⟨hxs, -⟩, hdis⟩ := hnd
  constructor
  · intro r hr
    exact hframe r (hau r hr _ (Or.inl rfl)) (hdis r (Or.inl hr) _ (Or.inl rfl))
  · intro r hr
    refine hframe r (hdis _ (Or.inr (Or.inl rfl)) r (Or.inr hr)).symm ?_
    rintro rfl
    exact hxs hr

theorem Linked.insert (h : Linked link i (a ++ u :: b ++ s) [])
    (hnd : ((a ++ u :: b ++ x :: s).map Tower.ref).Nodup) (hu : i < u.height) (hb : Flat i b)
    (hframe : ∀ r, r ≠ u.ref → r ≠ x.ref → link' r = link r)
    (hlu : link' u.ref = some ⟨nextRef i (x :: s), (b.length + nextSpan i (x :: s) : ℕ)⟩)
    (hlx : i < x.height → link' x.ref = some ⟨nextRef i s, (nextSpan i s : ℕ)⟩) :
    Linked link' i (a ++ u :: b ++ x :: s) [] := by
  obtain ⟨hleft, hright⟩ := linked_append.mp h
  rw [List.append_nil] at hleft
  obtain ⟨hbefore, hbehind⟩ := frame_of_nodup hnd hframe
  refine linked_append.mpr ⟨?_, ?_, hright.congr_link hbehind⟩
  · rw [List.append_nil]
    exact hleft.replace hu hb hbefore hlu
  · intro hx
    rw [hlx hx, List.append_nil]

theorem Linked.remove (h : Linked link i (a ++ u :: b ++ x :: s) [])
    (hnd : ((a ++ u :: b ++ x :: s).map Tower.ref).Nodup) (hu : i < u.height) (hb : Flat i b)
    (hframe : ∀ r, r ≠ u.ref → r ≠ x.ref → link' r = link r)
    (hlu : link' u.ref = some ⟨nextRef i s, (b.length + nextSpan i s : ℕ)⟩) :
    Linked link' i (a ++ u :: b ++ s) [] := by
  obtain ⟨hleft, -, hright⟩ := linked_append.mp h
  rw [List.append_nil] at hleft
  obtain ⟨hbefore, hbehind⟩ := frame_of_nodup hnd hframe
  refine linked_append.mpr ⟨?_, hright.congr_link hbehind⟩
  rw [List.append_nil]
  exact hleft.replace hu hb hbefore hlu

end

/-! ### Following the links -/

/-- The addresses met by following the links from an address on. -/
def follow {R : Type*} (link : ℕ → Option (Link R)) : ℕ → Option ℕ → Option (List ℕ)
  | 0, _ => none
  | _ + 1, none => some []
  | fuel + 1, some r => match link r with
    | none => none
    | some l => (follow link fuel l.forward).map (r :: ·)

/-- The towers that reach level `i`. -/
def reaching {α : Type*} (i : ℕ) (s : List (Tower α)) : List (Tower α) :=
  s.filter fun y => i < y.height

section
variable {α R : Type*}

theorem reaching_sublist (i : ℕ) (s : List (Tower α)) :
    (reaching (i + 1) s).Sublist (reaching i s) := by
  refine List.monotone_filter_right s fun y hy => ?_
  simp only [decide_eq_true_eq] at hy ⊢
  omega

variable [CommRing R]

theorem follow_linked {link : ℕ → Option (Link R)} {i : ℕ} {s : List (Tower α)} {fuel : ℕ}
    (h : Linked link i s []) (hfuel : s.length < fuel) :
    follow link fuel (nextRef i s) = some ((reaching i s).map Tower.ref) := by
  induction s generalizing fuel with
  | nil =>
    obtain ⟨fuel, rfl⟩ := Nat.exists_eq_add_of_lt hfuel
    simp [nextRef, follow, reaching]
  | cons y s ih =>
    by_cases hy : i < y.height
    · obtain ⟨fuel, rfl⟩ : ∃ n, fuel = n + 1 := ⟨fuel - 1, by omega⟩
      have hl := h.1 hy
      rw [List.append_nil] at hl
      rw [nextRef_cons_tall hy, follow, hl]
      simp only [ih h.2 (by simpa using hfuel), Option.map_some]
      simp [reaching, hy]
    · rw [nextRef_cons_flat (not_lt.mp hy), ih h.2 (by simp at hfuel; omega)]
      simp [reaching, hy]

end

/-! ### Places in the list -/

section
variable {α : Type*} {i j : ℕ} {a b p s : List (Tower α)} {x y u : Tower α} {r k : ℕ}

/-- The last tower of `p` that reaches level `i` has address `r` and position `k`. -/
def IsLast (i : ℕ) (p : List (Tower α)) (r k : ℕ) : Prop :=
  ∃ a u b, p = a ++ u :: b ∧ i < u.height ∧ Flat i b ∧ u.ref = r ∧ a.length = k

theorem isLast_concat (a : List (Tower α)) (hu : i < u.height) :
    IsLast i (a ++ [u]) u.ref a.length :=
  ⟨a, u, [], rfl, hu, flat_nil, rfl, rfl⟩

theorem IsLast.append_flat (h : IsLast i p r k) (hb : Flat i b) : IsLast i (p ++ b) r k := by
  obtain ⟨a, u, c, rfl, hu, hc, hr, hk⟩ := h
  exact ⟨a, u, c ++ b, by simp, hu, flat_append.mpr ⟨hc, hb⟩, hr, hk⟩

theorem IsLast.zero (h : IsLast 0 p r k) (hp : ∀ y ∈ p, 0 < y.height) :
    ∃ a u, p = a ++ [u] ∧ u.ref = r ∧ a.length = k := by
  obtain ⟨a, u, b, rfl, hu, hb, hr, hk⟩ := h
  rcases b with _ | ⟨y, b⟩
  · exact ⟨a, u, rfl, hr, hk⟩
  · exact absurd (hb y (by simp)) (not_le.mpr (hp y (by simp)))

/-- The first tower of level `i` in a list whose head has position `m` does not
meet the condition `C`. -/
def Blocked (C : Tower α → ℕ → Bool) (i : ℕ) : ℕ → List (Tower α) → Prop
  | _, [] => True
  | m, y :: s => if i < y.height then C y m = false else Blocked C i (m + 1) s

variable {C : Tower α → ℕ → Bool} {m : ℕ}

theorem blocked_append_flat (hb : Flat i b) :
    Blocked C i m (b ++ s) ↔ Blocked C i (m + b.length) s := by
  induction b generalizing m with
  | nil => simp
  | cons y b ih =>
    obtain ⟨hy, hb⟩ := flat_cons.mp hb
    rw [List.cons_append, Blocked, if_neg (not_lt.mpr hy), ih hb, List.length_cons]
    rw [show m + 1 + b.length = m + (b.length + 1) by omega]

theorem blocked_flat (hb : Flat i b) : Blocked C i m b := by
  simpa [Blocked] using (blocked_append_flat (C := C) (m := m) (s := []) hb).mpr

theorem blocked_cons_tall (hy : i < y.height) : Blocked C i m (y :: s) ↔ C y m = false := by
  rw [Blocked, if_pos hy]

end

/-! ### Walking -/

section
variable {R ρ : Type}

/-- Walking right on one level: on to the next tower as long as there is one and
`go`, which sees it and the distance covered so far, allows it. -/
def walk (link : ℕ → Option (Link R)) (go : ℕ → ρ → Option Bool) (add : ρ → R → ρ) :
    ℕ → ℕ → ρ → Option (ℕ × ρ)
  | 0, _, _ => none
  | fuel + 1, x, acc => do
    let l ← link x
    match l.forward with
    | none => some (x, acc)
    | some y => do
      let ok ← go y (add acc l.span)
      if ok then walk link go add fuel y (add acc l.span) else some (x, acc)

/-- Walking right on the levels `n - 1`, …, `0`; the places where each walk ended
are collected in front of `ends`. -/
def descend (links : ℕ → ℕ → Option (Link R)) (go : ℕ → ρ → Option Bool) (add : ρ → R → ρ)
    (fuel : ℕ) : ℕ → ℕ → ρ → List (ℕ × ρ) → Option (List (ℕ × ρ))
  | 0, _, _, ends => some ends
  | i + 1, x, acc, ends => do
    let place ← walk (links i) go add fuel x acc
    descend links go add fuel i place.1 place.2 (place :: ends)

end

section
variable {α R ρ : Type} [CommRing R] {full : List (Tower α)} {go : ℕ → ρ → Option Bool}
  {add : ρ → R → ρ} {f : ℕ → ρ} {C : Tower α → ℕ → Bool}

/-- What `go` and `add` compute on the towers of a list: the condition `C` of a
tower and its position, where `f` says how positions are represented. -/
structure Sees (go : ℕ → ρ → Option Bool) (add : ρ → R → ρ) (f : ℕ → ρ)
    (C : Tower α → ℕ → Bool) (full : List (Tower α)) : Prop where
  go_eq : ∀ a y s, full = a ++ y :: s → a ≠ [] → go y.ref (f a.length) = some (C y a.length)
  add_eq : ∀ m n, m + n < full.length → add (f m) (n : R) = f (m + n)

/-- One walk from `u` ends in a tower `u'`: all towers passed are below level
`i + 1`, `u'` meets the condition unless it is `u` itself, and the next tower
does not meet it. -/
theorem walk_spec {link : ℕ → Option (Link R)} {i : ℕ} (hsees : Sees go add f C full)
    (hlink : Linked link i full []) {fuel : ℕ} : ∀ {a s : List (Tower α)} {u : Tower α},
    full = a ++ u :: s → i < u.height → Blocked C (i + 1) (a.length + 1) s → s.length < fuel →
    ∃ a' u' s', walk link go add fuel u.ref (f a.length) = some (u'.ref, f a'.length) ∧
      full = a' ++ u' :: s' ∧ i < u'.height ∧ Blocked C i (a'.length + 1) s' ∧
      (a' ++ [u'] = a ++ [u] ∨ C u' a'.length = true) ∧
      ∃ c, a' ++ [u'] = a ++ [u] ++ c ∧ Flat (i + 1) c := by
  induction fuel with
  | zero => exact fun _ _ _ h => absurd h (Nat.not_lt_zero _)
  | succ fuel ih =>
    intro a s u hfull hu hblock hfuel
    have hl := (hfull ▸ hlink).get hu
    rcases flat_or_first i s with hs | ⟨b, y, t, rfl, hb, hy⟩
    · -- the end of this level
      refine ⟨a, u, s, ?_, hfull, hu, blocked_flat hs, Or.inl rfl, [], by simp, flat_nil⟩
      simp only [walk, hl, nextRef_flat hs, Option.bind_eq_bind, Option.bind_some]
    · rw [nextRef_append_flat hb, nextSpan_append_flat hb, nextRef_cons_tall hy,
        nextSpan_cons_tall hy] at hl
      have hsplit : full = (a ++ u :: b) ++ y :: t := by simp [hfull]
      have hlen : (a ++ u :: b).length = a.length + (b.length + 1) := by simp
      have hgo := hsees.go_eq _ y t hsplit (by simp)
      have hadd := hsees.add_eq a.length (b.length + 1) (by rw [hsplit]; simp)
      rw [hlen] at hgo
      rw [blocked_append_flat (hb.mono (Nat.le_succ i)), add_assoc, add_comm 1] at hblock
      cases hC : C y (a.length + (b.length + 1)) with
      | false =>
        refine ⟨a, u, b ++ y :: t, ?_, hfull, hu, ?_, Or.inl rfl, [], by simp, flat_nil⟩
        · simp only [walk, hl, hadd, hgo, hC, Option.bind_eq_bind, Option.bind_some,
            Bool.false_eq_true, if_false]
        · rw [blocked_append_flat hb, blocked_cons_tall hy, add_assoc, add_comm 1]
          exact hC
      | true =>
        -- `y` is below the level above, where the walk was stopped at a later tower
        have hlow : y.height ≤ i + 1 := by
          by_contra hhigh
          rw [blocked_cons_tall (not_le.mp hhigh), hC] at hblock
          exact absurd hblock (by simp)
        rw [Blocked, if_neg (not_lt.mpr hlow), ← hlen] at hblock
        obtain ⟨a', u', s', hw, hf, hu', hbl, hlast, c, hc, hflat⟩ :=
          ih hsplit hy hblock (by simp at hfuel; omega)
        refine ⟨a', u', s', ?_, hf, hu', hbl, Or.inr ?_, b ++ y :: c, by simp [hc], ?_⟩
        · rw [hlen] at hw
          simp only [walk, hl, hadd, hgo, hC, Option.bind_eq_bind, Option.bind_some, if_true, hw]
        · rcases hlast with heq | h
          · obtain ⟨rfl, h⟩ := List.append_inj' heq rfl
            obtain rfl : u' = y := by simpa using h
            rw [hlen, hC]
          · exact h
        · exact flat_append.mpr ⟨hb.mono (Nat.le_succ i), flat_cons.mpr ⟨hlow, hflat⟩⟩

/-- The places `ends` are, from level `n` on, the last towers of `p` of their levels. -/
def EndsAt (f : ℕ → ρ) (n : ℕ) (p : List (Tower α)) (ends : List (ℕ × ρ)) : Prop :=
  ∀ j place, ends[j]? = some place → ∃ k, place.2 = f k ∧ IsLast (n + j) p place.1 k

omit [CommRing R] in
theorem endsAt_nil (f : ℕ → ρ) (n : ℕ) (p : List (Tower α)) : EndsAt f n p [] := by
  intro j place hj
  simp at hj

omit [CommRing R] in
theorem EndsAt.append_flat {n : ℕ} {p c : List (Tower α)} {ends : List (ℕ × ρ)}
    (h : EndsAt f n p ends) (hc : Flat n c) : EndsAt f n (p ++ c) ends := by
  intro j place hj
  obtain ⟨k, hk, hlast⟩ := h j place hj
  exact ⟨k, hk, hlast.append_flat (hc.mono (Nat.le_add_right n j))⟩

omit [CommRing R] in
theorem EndsAt.cons {n k r : ℕ} {p : List (Tower α)} {ends : List (ℕ × ρ)}
    (h : EndsAt f (n + 1) p ends) (hlast : IsLast n p r k) :
    EndsAt f n p ((r, f k) :: ends) := by
  intro j place hj
  rcases j with _ | j
  · obtain rfl : (r, f k) = place := by simpa using hj
    exact ⟨k, rfl, hlast⟩
  · obtain ⟨k', hk', hlast'⟩ := h j place (by simpa using hj)
    exact ⟨k', hk', by rwa [show n + (j + 1) = n + 1 + j by omega]⟩

omit [CommRing R] in
theorem EndsAt.get {p : List (Tower α)} {ends : List (ℕ × ρ)} (h : EndsAt f 0 p ends) {j : ℕ}
    (hj : j < ends.length) : ∃ a u b, ends[j]? = some (u.ref, f a.length) ∧ p = a ++ u :: b ∧
      j < u.height ∧ Flat j b := by
  obtain ⟨k, hk, a, u, b, hp, hu, hb, hr, ha⟩ := h j ends[j] (List.getElem?_eq_getElem hj)
  rw [Nat.zero_add] at hu hb
  refine ⟨a, u, b, ?_, hp, hu, hb⟩
  rw [List.getElem?_eq_getElem hj, hr, ha, ← hk]

/-- The walks from level `n - 1` down to level 0 end in a tower `u'`, and before that
at each level in the last tower up to `u'` that reaches the level; `u'` meets the
condition unless it is the start, the tower behind it does not meet it. -/
theorem descend_spec (links : ℕ → ℕ → Option (Link R)) (fuel : ℕ) {n : ℕ}
    (hsees : Sees go add f C full) (hlinks : ∀ i < n, Linked (links i) i full []) :
    ∀ {a s : List (Tower α)} {u : Tower α} {ends : List (ℕ × ρ)},
    full = a ++ u :: s → n ≤ u.height → Blocked C n (a.length + 1) s → s.length < fuel →
    EndsAt f n (a ++ [u]) ends →
    ∃ a' u' s' ends', descend links go add fuel n u.ref (f a.length) ends = some ends' ∧
      full = a' ++ u' :: s' ∧ ends'.length = n + ends.length ∧
      EndsAt f 0 (a' ++ [u']) ends' ∧ Blocked C 0 (a'.length + 1) s' ∧
      (a' ++ [u'] = a ++ [u] ∨ C u' a'.length = true) := by
  induction n with
  | zero =>
    intro a s u ends hfull _ hblock _ hends
    exact ⟨a, u, s, ends, rfl, hfull, (Nat.zero_add _).symm, hends, hblock, Or.inl rfl⟩
  | succ n ih =>
    intro a s u ends hfull hu hblock hfuel hends
    obtain ⟨a₁, u₁, s₁, hw, hf₁, hu₁, hb₁, hlast₁, c, hc, hflat⟩ :=
      walk_spec hsees (hlinks n (Nat.lt_succ_self n)) hfull hu hblock hfuel
    have hends₁ : EndsAt f n (a₁ ++ [u₁]) ((u₁.ref, f a₁.length) :: ends) := by
      refine EndsAt.cons ?_ (isLast_concat a₁ hu₁)
      rw [hc]
      exact hends.append_flat hflat
    have hlen : s₁.length < fuel := by
      have h1 := congrArg List.length hf₁
      have h2 := congrArg List.length hc
      rw [hfull] at h1
      simp only [List.length_append, List.length_cons, List.length_nil] at h1 h2
      omega
    obtain ⟨a', u', s', ends', hd, hf', hl', he', hb', hlast'⟩ :=
      ih (fun i hi => hlinks i (Nat.lt_succ_of_lt hi)) hf₁ hu₁.le hb₁ hlen hends₁
    refine ⟨a', u', s', ends', ?_, hf', ?_, he', hb', ?_⟩
    · simp only [descend, hw, Option.bind_eq_bind, Option.bind_some, hd]
    · rw [hl', List.length_cons]
      omega
    · rcases hlast' with heq | h
      · obtain ⟨rfl, h⟩ := List.append_inj' heq rfl
        obtain rfl : u' = u₁ := by simpa using h
        exact hlast₁
      · exact Or.inr h

end

end SkipChain

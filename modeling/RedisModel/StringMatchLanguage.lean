/-
What a call of `stringmatchlen` returns, and when it stays in bounds (`util.c`).

There are two slips.  A class left open right after a backslash is scanned past
the NUL of the pattern; and when the string is empty, a byte or a class may
take its NUL for a byte of it, and the remaining length becomes negative.

* `returns_accepts`, `returns_dangling`, `returns_takesNul` — what a call comes
  to, in the three cases;
* `stringmatchlen_exact` — the calls whose result is that of the language;
* `stringmatchlen_inBounds` — the calls that stay in bounds and end.
-/
import RedisModel.StringMatchRun

namespace StringMatch

open GlobLanguage

variable {mode : Mode} {p s : Bytes}

/-! ### The slips -/

/-- The matcher comes to a class that the pattern leaves open right after a
backslash: what is before the class matches a part of the string, and a byte of
the string is left, or the class starts the pattern. -/
def ReachesDangling (mode : Mode) (p s : Bytes) : Prop :=
  ∃ ts neg items, tokens p = ts ++ [.dangling neg items] ∧
    ∃ u v, s = u ++ v ∧ (v ≠ [] ∨ ts = []) ∧ Matches (elems mode ts) u

/-- The string is empty and the pattern starts with a byte or a class that
covers NUL. -/
def TakesNul (mode : Mode) (p s : Bytes) : Prop :=
  s = [] ∧ ∃ t ts, tokens p = t :: ts ∧ t.takesNul mode

/-- As `TakesNul`, and what follows in the pattern looks at the string again,
has a star, or otherwise does not come to `return 0`. -/
def MisledByNul (mode : Mode) (p s : Bytes) : Prop :=
  s = [] ∧ ∃ t ts, tokens p = t :: ts ∧ t.takesNul mode ∧ harmless ts = false

/-! ### Classes left dangling -/

theorem classText_dangling_rest (p : Bytes) :
    (classText p).dangling = true → (classText p).rest = [] := by
  induction p using class_induction with
  | nil => exact fun _ => rfl
  | dangling => exact fun _ => rfl
  | escape d p ih =>
    rw [classText_escape]
    exact ih
  | close p =>
    rw [classText_close]
    exact fun h => absurd h (by simp)
  | range c e p hesc hclose ih =>
    rw [classText_range hesc hclose]
    exact ih
  | byte c p hesc hclose hdash ih =>
    rw [classText_byte hesc hclose hdash]
    exact ih

theorem nextToken_dangling_rest {c : UInt8} {p : Bytes}
    (h : (nextToken c p).1.isDangling = true) : (nextToken c p).2 = [] := by
  have hclass : ∀ neg t, (classToken neg t).isDangling = true → t.dangling = true := by
    intro neg t ht
    unfold classToken at ht
    split at ht
    · assumption
    · cases ht
  unfold nextToken at h ⊢
  by_cases h42 : c = 42
  · rw [if_pos h42] at h
    cases h
  by_cases h63 : c = 63
  · rw [if_neg h42, if_pos h63] at h
    cases h
  by_cases h91 : c = 91
  · rw [if_neg h42, if_neg h63, if_pos h91] at h ⊢
    by_cases hcaret : p.head? = some 94
    · rw [if_pos hcaret] at h ⊢
      exact classText_dangling_rest _ (hclass _ _ h)
    · rw [if_neg hcaret] at h ⊢
      exact classText_dangling_rest _ (hclass _ _ h)
  by_cases h92 : c = 92
  · rw [if_neg h42, if_neg h63, if_neg h91, if_pos h92] at h
    rcases p with _ | ⟨d, p⟩ <;> cases h
  · rw [if_neg h42, if_neg h63, if_neg h91, if_neg h92] at h
    cases h

theorem tokens_split (p : Bytes) :
    (∀ t ∈ tokens p, t.isDangling = false) ∨
    ∃ ts neg items, tokens p = ts ++ [.dangling neg items] ∧ ∀ t ∈ ts, t.isDangling = false := by
  induction h : p.length using Nat.strong_induction_on generalizing p with
  | h k ih =>
  subst h
  rcases p with _ | ⟨c, p⟩
  · left
    intro t ht
    rw [tokens_nil] at ht
    cases ht
  have hlen := nextToken_length c p
  rw [tokens_cons]
  by_cases hd : (nextToken c p).1.isDangling = true
  · right
    rw [nextToken_dangling_rest hd, tokens_nil]
    cases ht : (nextToken c p).1 with
    | dangling neg items => exact ⟨[], neg, items, rfl, by simp⟩
    | _ =>
      rw [ht] at hd
      cases hd
  · rw [Bool.not_eq_true] at hd
    rcases ih _ (by rw [List.length_cons]; omega) (nextToken c p).2 rfl with
      hall | ⟨ts, neg, items, hts, hall⟩
    · left
      intro t ht
      rcases List.mem_cons.mp ht with rfl | ht
      · exact hd
      · exact hall t ht
    · right
      refine ⟨(nextToken c p).1 :: ts, neg, items, ?_, ?_⟩
      · rw [hts, List.cons_append]
      · intro t ht
        rcases List.mem_cons.mp ht with rfl | ht
        · exact hd
        · exact hall t ht

theorem reachElems_append {ts us : List Token} (h : ∀ t ∈ ts, t.isDangling = false) :
    reachElems mode (ts ++ us) = elems mode ts ++ reachElems mode us := by
  induction ts with
  | nil => rfl
  | cons t ts ih =>
    rw [List.cons_append, reachElems, if_neg (by simp [h t (by simp)]),
      ih (fun t ht => h t (List.mem_cons_of_mem _ ht))]
    rfl

theorem matches_any_star {w : Bytes} :
    Matches [.one fun _ => true, .star] w ↔ w ≠ [] := by
  rw [← accepts_iff]
  rcases w with _ | ⟨c, w⟩
  · simp [accepts]
  · rw [accepts, Bool.true_and, accepts_star_last]
    simp

theorem reach_iff (hs : s ≠ []) :
    accepts (reachElems mode (tokens p)) s = true ↔ ReachesDangling mode p s := by
  rw [accepts_iff]
  rcases tokens_split p with hall | ⟨ts, neg, items, hts, hall⟩
  · have hreach : reachElems mode (tokens p ++ []) = elems mode (tokens p) ++ reachElems mode [] :=
      reachElems_append hall
    rw [List.append_nil] at hreach
    rw [hreach, matches_append]
    constructor
    · rintro ⟨u, v, -, -, c, w, -, hfalse, -⟩
      cases hfalse
    · rintro ⟨ts, neg, items, hts, -⟩
      have hd := hall (.dangling neg items) (by rw [hts]; simp)
      cases hd
  · rw [hts, reachElems_append hall, matches_append]
    constructor
    · rintro ⟨u, v, rfl, hu, hv⟩
      exact ⟨ts, neg, items, hts, u, v, rfl, .inl (matches_any_star.mp hv), hu⟩
    · rintro ⟨ts', neg', items', hts', u, v, rfl, hv, hu⟩
      obtain ⟨rfl, -⟩ := List.append_inj' (hts.symm.trans hts') rfl
      refine ⟨u, v, rfl, hu, matches_any_star.mpr ?_⟩
      rcases hv with hv | rfl
      · exact hv
      · obtain rfl : u = [] := hu
        exact hs

theorem reachesDangling_nil {c : UInt8} {q : Bytes} :
    ReachesDangling mode (c :: q) [] ↔ (nextToken c q).1.isDangling = true := by
  constructor
  · rintro ⟨ts, neg, items, hts, u, v, huv, hv, -⟩
    obtain ⟨-, rfl⟩ := List.append_eq_nil_iff.mp huv.symm
    rcases hv with hv | rfl
    · exact absurd rfl hv
    · rw [tokens_cons] at hts
      rw [(List.cons.inj hts).1]
      rfl
  · intro hd
    have htokens := tokens_cons c q
    rw [nextToken_dangling_rest hd, tokens_nil] at htokens
    cases ht : (nextToken c q).1 with
    | dangling neg items =>
      rw [ht] at htokens
      exact ⟨[], neg, items, htokens, [], [], rfl, .inr rfl, rfl⟩
    | _ =>
      rw [ht] at hd
      cases hd

theorem not_reachesDangling_nil_nil : ¬ReachesDangling mode [] s := by
  rintro ⟨ts, neg, items, hts, -⟩
  rw [tokens_nil] at hts
  simp at hts

/-! ### What a call returns -/

theorem Returns.unique {r r' : Except Fault Bool} (h : Returns mode p s r)
    (h' : Returns mode p s r') : r = r' := by
  obtain ⟨n, hn⟩ := h
  obtain ⟨m, hm⟩ := h'
  rw [← hn (max n m) (le_max_left n m), hm (max n m) (le_max_right n m)]

theorem returns_dangling (h : ReachesDangling mode p s) :
    Returns mode p s (.error (danglingFault mode)) := by
  refine ⟨p.length + s.length + 2, ?_⟩
  intro n hn
  by_cases hs : s = []
  · subst hs
    rcases p with _ | ⟨c, p⟩
    · exact absurd h not_reachesDangling_nil_nil
    obtain ⟨n, rfl⟩ : ∃ m, n = m + 1 := ⟨n - 1, by omega⟩
    rw [List.length_cons] at hn
    have hc : c ≠ 42 := by
      rintro rfl
      have hd := reachesDangling_nil.mp h
      rw [nextToken_star] at hd
      cases hd
    exact (stringmatchlen_exhausted points_start points_start hc (by omega)).1
      (reachesDangling_nil.mp h)
  · rw [stringmatchlen_eq points_start points_start hs hn, if_pos ((reach_iff hs).mpr h)]

/-- A call that makes neither slip returns what the language says. -/
theorem returns_accepts (hd : ¬ReachesDangling mode p s) (hn : ¬TakesNul mode p s) :
    Returns mode p s (.ok (accepts (elems mode (tokens p)) s)) := by
  refine ⟨p.length + s.length + 2, ?_⟩
  intro n hfuel
  by_cases hs : s = []
  · subst hs
    obtain ⟨n, rfl⟩ : ∃ m, n = m + 1 := ⟨n - 1, by omega⟩
    rcases p with _ | ⟨c, p⟩
    · rw [stringmatchlen_nil points_start]
      rfl
    rw [List.length_cons] at hfuel
    by_cases hc : c = 42
    · subst hc
      obtain ⟨hlast, hmore⟩ := stringmatchlen_star mode [] (.start [])
        points_start (by omega : p.length < n)
      rw [elems_star, accepts_star_nil, accepts_exhausted]
      by_cases hdrop : dropStars p = []
      · rw [hlast hdrop, hdrop]
        rfl
      · obtain ⟨q, hq, hrun⟩ := hmore hdrop
        obtain ⟨m, rfl⟩ : ∃ m, n = m + 1 := ⟨n - 1, by omega⟩
        rw [hrun, matchTails, if_pos (by rfl)]
        simp [hdrop]
    · have hwhole : (nextToken c p).1.isDangling = false := by
        rw [reachesDangling_nil, Bool.not_eq_true] at hd
        exact hd
      have hkeeps : ¬(nextToken c p).1.takesNul mode := by
        intro htakes
        exact hn ⟨rfl, _, _, tokens_cons c p, htakes⟩
      rw [elems_other hc]
      exact (stringmatchlen_exhausted points_start points_start hc (by omega)).2.1 hwhole hkeeps
  · rw [stringmatchlen_eq points_start points_start hs hfuel,
      if_neg (fun h => hd ((reach_iff hs).mp h))]

theorem TakesNul.exists (h : TakesNul mode p s) :
    ∃ c q, p = c :: q ∧ c ≠ 42 ∧ (nextToken c q).1.takesNul mode := by
  obtain ⟨-, t, ts, hts, ht⟩ := h
  rcases p with _ | ⟨c, q⟩
  · rw [tokens_nil] at hts
    cases hts
  rw [tokens_cons] at hts
  obtain ⟨rfl, -⟩ := List.cons.inj hts
  refine ⟨c, q, rfl, ?_, ht⟩
  rintro rfl
  rw [nextToken_star] at ht
  obtain ⟨-, -, hcov⟩ := ht
  cases hcov

theorem returns_takesNul_checked (hmode : mode.checked = true) (h : TakesNul mode p s) :
    Returns mode p s (.error .negative) := by
  obtain ⟨c, q, rfl, hc, ht⟩ := h.exists
  obtain ⟨rfl, -⟩ := h
  refine ⟨(c :: q).length + 2, ?_⟩
  intro n hn
  rw [List.length_cons] at hn
  obtain ⟨n, rfl⟩ : ∃ m, n = m + 1 := ⟨n - 1, by omega⟩
  exact (stringmatchlen_exhausted points_start points_start hc (by omega)).2.2.1 ht hmode

theorem returns_takesNul (hmode : mode.checked = false) (h : TakesNul mode p s) :
    Returns mode p s (.ok false) ↔ ¬MisledByNul mode p s := by
  obtain ⟨c, q, rfl, hc, ht⟩ := h.exists
  obtain ⟨rfl, -⟩ := h
  have hpast : Past [] (Cursor.start ([] : Bytes)).next := by
    refine ⟨?_, ?_⟩ <;> decide
  have hmisled : MisledByNul mode (c :: q) [] ↔ harmless (tokens (nextToken c q).2) = false := by
    constructor
    · rintro ⟨-, t, ts, hts, -, hharm⟩
      rw [tokens_cons] at hts
      rw [(List.cons.inj hts).2]
      exact hharm
    · intro hharm
      exact ⟨rfl, _, _, tokens_cons c q, ht, hharm⟩
  have hstep : ∀ n, q.length < n → ∃ q', Points (c :: q) q' (nextToken c q).2 ∧
      stringmatchlen mode (c :: q) [] (n + 1) (.start (c :: q)) (.start [])
        = stringmatchlen mode (c :: q) [] n q' (Cursor.start ([] : Bytes)).next := by
    intro n hn
    exact (stringmatchlen_exhausted points_start points_start hc hn).2.2.2 ht hmode
  rw [hmisled, Bool.not_eq_false]
  have hlen := nextToken_length c q
  constructor
  · rintro ⟨n, hn⟩
    obtain ⟨q', hq', hrun⟩ := hstep (n + q.length + 1) (by omega)
    rw [hn _ (by omega)] at hrun
    exact harmless_of_past hmode hq' hpast hrun.symm
  · intro hharm
    refine ⟨q.length + 4, ?_⟩
    intro n hn
    obtain ⟨n, rfl⟩ : ∃ m, n = m + 1 := ⟨n - 1, by omega⟩
    obtain ⟨q', hq', hrun⟩ := hstep n (by omega)
    rw [hrun]
    exact past_of_harmless hmode hq' hpast hharm (by omega)

/-! ### The language, and the bounds -/

theorem TakesNul.not_inLanguage (h : TakesNul mode p s) : ¬InLanguage mode p s := by
  obtain ⟨c, q, rfl, hc, -⟩ := h.exists
  obtain ⟨rfl, -⟩ := h
  intro hin
  have hacc := accepts_iff.mpr hin
  have helems : elems mode (tokens (c :: q)) = _ := elems_other hc q
  unfold elems at helems
  rw [helems] at hacc
  cases hacc

/-- In case-sensitive mode a call returns whether the string belongs to the
language of the pattern, unless it reaches a class left dangling, or takes the
NUL of an empty string for a byte of it in front of a pattern that does not
fail all the same. -/
theorem stringmatchlen_exact (signedChar : Bool) (p s : Bytes) :
    (∃ b, Returns ⟨false, signedChar, false⟩ p s (.ok b) ∧
      (b = true ↔ InLanguage ⟨false, signedChar, false⟩ p s)) ↔
    ¬ReachesDangling ⟨false, signedChar, false⟩ p s ∧
      ¬MisledByNul ⟨false, signedChar, false⟩ p s := by
  constructor
  · rintro ⟨b, hb, hlang⟩
    constructor
    · intro hd
      have h := hb.unique (returns_dangling hd)
      cases h
    · intro hmisled
      have htakes : TakesNul ⟨false, signedChar, false⟩ p s := by
        obtain ⟨hs, t, ts, hts, ht, -⟩ := hmisled
        exact ⟨hs, t, ts, hts, ht⟩
      have hfalse : b = false := by
        rw [← Bool.not_eq_true]
        exact mt hlang.mp htakes.not_inLanguage
      rw [hfalse, returns_takesNul rfl htakes] at hb
      exact hb hmisled
  · rintro ⟨hd, hmisled⟩
    by_cases htakes : TakesNul ⟨false, signedChar, false⟩ p s
    · refine ⟨false, (returns_takesNul rfl htakes).mpr hmisled, ?_⟩
      simp [htakes.not_inLanguage]
    · exact ⟨_, returns_accepts hd htakes, accepts_iff⟩

/-- `[^a]*` on the empty string: the class takes the NUL, and the star then
matches whatever is behind it. -/
theorem not_exact_emptyString :
    ¬∃ b, Returns ⟨false, true, false⟩ [91, 94, 97, 93, 42] [] (.ok b) ∧
      (b = true ↔ InLanguage ⟨false, true, false⟩ [91, 94, 97, 93, 42] []) := by
  have htrue : Returns ⟨false, true, false⟩ [91, 94, 97, 93, 42] [] (.ok true) := by
    refine ⟨8, ?_⟩
    intro n hn
    obtain ⟨k, rfl⟩ : ∃ k, n = k + 8 := ⟨n - 8, by omega⟩
    rfl
  rintro ⟨b, hb, hlang⟩
  cases htrue.unique hb
  have hacc := accepts_iff.mpr (hlang.mp rfl)
  exact absurd hacc (by decide)

/-- A call stays in bounds, with no remaining length below zero, and ends,
unless it reaches a class left dangling or takes the NUL of an empty string for
a byte of it.  The checks then make no difference. -/
theorem stringmatchlen_inBounds (nocase signedChar : Bool) (p s : Bytes) :
    (∃ b, Returns ⟨nocase, signedChar, true⟩ p s (.ok b) ∧
      Returns ⟨nocase, signedChar, false⟩ p s (.ok b)) ↔
    ¬ReachesDangling ⟨nocase, signedChar, true⟩ p s ∧
      ¬TakesNul ⟨nocase, signedChar, true⟩ p s := by
  constructor
  · rintro ⟨b, hb, -⟩
    constructor
    · intro hd
      have h := hb.unique (returns_dangling hd)
      cases h
    · intro htakes
      have h := hb.unique (returns_takesNul_checked rfl htakes)
      cases h
  · rintro ⟨hd, htakes⟩
    exact ⟨_, returns_accepts hd htakes,
      returns_accepts hd htakes⟩

/-- `[\` on `x`: the backslash is skipped together with the NUL behind it. -/
theorem not_inBounds_trailingBackslash :
    ¬(∃ b, Returns ⟨false, true, true⟩ [91, 92] [120] (.ok b) ∧
      Returns ⟨false, true, false⟩ [91, 92] [120] (.ok b)) ∧
    Returns ⟨false, true, false⟩ [91, 92] [120] (.error .outOfBounds) := by
  have hreach : ∀ checked, ReachesDangling ⟨false, true, checked⟩ [91, 92] [120] :=
    fun checked => ⟨[], false, [], rfl, [], [120], rfl, .inr rfl, rfl⟩
  refine ⟨?_, returns_dangling (hreach false)⟩
  rintro ⟨b, hb, -⟩
  have h := hb.unique (returns_dangling (hreach true))
  cases h

end StringMatch

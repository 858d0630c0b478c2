/-
The code of `stringmatchlen` against the tokens of its pattern (`util.c`).

* `matchClass_spec`, `matchOne_spec` — the loop of a class reads the text of
  the class, and the branches that consume a byte are the tokens;
* `stringmatchlen_eq` — with a byte of the string left, the code is the
  backtracking matcher on the tokens of the pattern, until it reaches a class
  left dangling, behind which it reads past the NUL;
* `stringmatchlen_exhausted` — with the string exhausted, a byte or a class may
  take the NUL for a byte of the string;
* `harmless_of_past`, `past_of_harmless` — what the code then comes to, with a
  negative remaining length.
-/
import RedisModel.StringMatch

namespace StringMatch

open GlobLanguage

variable {mode : Mode} {pat str : Bytes}

/-! ### Cursors -/

/-- The cursor is in step: `rest` is what remains of the buffer, and the length
says so. -/
def Points (buf : Bytes) (p : Cursor) (rest : Bytes) : Prop :=
  ∃ pre, buf = pre ++ rest ∧ p = ⟨pre.length, rest.length⟩

def Cursor.next (p : Cursor) : Cursor := ⟨p.ptr + 1, p.len - 1⟩

section
variable {buf rest : Bytes} {p : Cursor} {a b c : UInt8}

theorem points_start : Points buf (.start buf) buf := ⟨[], rfl, rfl⟩

theorem Points.len (h : Points buf p rest) : p.len = rest.length := by
  obtain ⟨pre, -, rfl⟩ := h
  rfl

theorem Points.read {i : ℕ} (h : Points buf p rest) (hi : i ≤ rest.length) :
    p.read buf i = .ok (rest.getD i 0) := by
  obtain ⟨pre, rfl, rfl⟩ := h
  simp only [Cursor.read, List.length_append]
  rcases Nat.lt_or_eq_of_le hi with hlt | rfl
  · rw [if_pos (by omega), List.getD_eq_getElem?_getD, List.getD_eq_getElem?_getD,
      List.getElem?_append_right (by omega), Nat.add_sub_cancel_left]
  · rw [if_neg (by omega), if_pos rfl]
    simp [List.getD_eq_getElem?_getD]

theorem Points.next (h : Points buf p (a :: rest)) : Points buf p.next rest := by
  obtain ⟨pre, rfl, rfl⟩ := h
  refine ⟨pre ++ [a], by simp, ?_⟩
  simp [Cursor.next]

theorem Points.next_back (h : Points buf p (a :: rest)) : p.next.back = p := by
  obtain ⟨pre, rfl, rfl⟩ := h
  simp [Cursor.next, Cursor.back]

theorem Points.advance (h : Points buf p (a :: rest)) : p.advance mode 1 = .ok p.next := by
  rw [Cursor.advance, if_neg, Cursor.next]
  · rfl
  · rw [h.len, List.length_cons]
    omega

theorem Points.advance_two (h : Points buf p (a :: b :: rest)) :
    p.advance mode 2 = .ok p.next.next := by
  rw [Cursor.advance, if_neg, Cursor.next, Cursor.next]
  · congr 2
    dsimp only
    omega
  · rw [h.len, List.length_cons, List.length_cons]
    omega

theorem Points.advance_nil (h : Points buf p []) :
    p.advance mode 1 = if mode.checked then .error .negative else .ok p.next := by
  rw [Cursor.advance, h.len]
  by_cases hc : mode.checked = true
  · rw [if_pos ⟨hc, by simp⟩, if_pos hc]
  · rw [if_neg (by simp [hc]), if_neg hc, Cursor.next, h.len]
    rfl

theorem Cursor.read_past {i : ℕ} (h : buf.length < p.ptr + i) :
    p.read buf i = .error .outOfBounds := by
  rw [Cursor.read, if_neg (by omega), if_neg (by omega)]

end

/-! ### The text of a class -/

section
variable {c d e : UInt8} {p : Bytes}

theorem classText_escape : classText (92 :: d :: p) = (classText p).add (.escaped d) := by
  rcases p with _ | ⟨e, p⟩ <;> rfl

theorem classText_close : classText (93 :: p) = ⟨[], false, p⟩ := by
  rcases p with _ | ⟨d, _ | ⟨e, p⟩⟩ <;> rfl

theorem classText_range (hesc : c ≠ 92) (hclose : c ≠ 93) :
    classText (c :: 45 :: e :: p) = (classText p).add (.range c e) := by
  rw [classText, if_neg hesc, if_neg hclose, if_pos rfl]

theorem classText_byte (hesc : c ≠ 92) (hclose : c ≠ 93)
    (hdash : ¬(p.getD 0 0 = 45 ∧ 2 ≤ p.length)) :
    classText (c :: p) = (classText p).add (.byte c) := by
  rcases p with _ | ⟨d, _ | ⟨e, p⟩⟩
  · simp [classText, hesc, hclose, ClassText.add]
  · simp only [classText, hesc, hclose, if_false]
  · rw [classText, if_neg hesc, if_neg hclose, if_neg]
    intro hd
    exact hdash ⟨hd, by simp⟩

theorem class_induction {P : Bytes → Prop} (nil : P []) (dangling : P [92])
    (escape : ∀ d p, P p → P (92 :: d :: p)) (close : ∀ p, P (93 :: p))
    (range : ∀ c e p, c ≠ 92 → c ≠ 93 → P p → P (c :: 45 :: e :: p))
    (byte : ∀ c p, c ≠ 92 → c ≠ 93 → ¬(p.getD 0 0 = 45 ∧ 2 ≤ p.length) → P p → P (c :: p)) :
    ∀ p, P p := by
  intro p
  induction h : p.length using Nat.strong_induction_on generalizing p with
  | h k ih =>
    rcases p with _ | ⟨c, p⟩
    · exact nil
    rw [List.length_cons] at h
    by_cases hesc : c = 92
    · subst hesc
      rcases p with _ | ⟨d, p⟩
      · exact dangling
      · rw [List.length_cons] at h
        exact escape d p (ih _ (by omega) p rfl)
    by_cases hclose : c = 93
    · subst hclose
      exact close p
    by_cases hdash : p.getD 0 0 = 45 ∧ 2 ≤ p.length
    · rcases p with _ | ⟨d, _ | ⟨e, p⟩⟩
      · simp at hdash
      · simp at hdash
      · obtain rfl : d = 45 := hdash.1
        simp only [List.length_cons] at h
        exact range c e p hesc hclose (ih _ (by omega) p rfl)
    · exact byte c p hesc hclose hdash (ih _ (by omega) p rfl)

theorem classText_rest_length (p : Bytes) : (classText p).rest.length ≤ p.length := by
  induction p using class_induction with
  | nil => exact le_rfl
  | dangling => exact Nat.zero_le _
  | escape d p ih =>
    rw [classText_escape]
    exact ih.trans (by simp only [List.length_cons]; omega)
  | close p =>
    rw [classText_close]
    exact Nat.le_succ _
  | range c e p hesc hclose ih =>
    rw [classText_range hesc hclose]
    exact ih.trans (by simp only [List.length_cons]; omega)
  | byte c p hesc hclose hdash ih =>
    rw [classText_byte hesc hclose hdash]
    exact ih.trans (Nat.le_succ _)

end

/-! ### Classes -/

/-- The fault of a class left open after a backslash. -/
def danglingFault (mode : Mode) : Fault := if mode.checked then .negative else .outOfBounds

section
variable {string q : Cursor} {s₀ c d e : UInt8} {p : Bytes} {n : ℕ} {found : Bool}

attribute [local simp] matchClass

theorem matchClass_escape (hs : string.read str 0 = .ok s₀) (hq : Points pat q (92 :: d :: p)) :
    matchClass mode pat str string (n + 1) q found
      = matchClass mode pat str string n q.next.next (found || (Item.escaped d).covers mode s₀) := by
  rw [matchClass, hq.read (Nat.zero_le _)]
  simp only [bind, Except.bind, List.getD_cons_zero, if_true]
  rw [hq.advance]
  simp only [hq.next.read (Nat.zero_le _), hs, hq.next.advance, List.getD_cons_zero]
  rfl

theorem matchClass_close (hq : Points pat q (93 :: p)) :
    matchClass mode pat str string (n + 1) q found = .ok (q, found) := by
  rw [matchClass, hq.read (Nat.zero_le _)]
  rfl

theorem matchClass_end (hq : Points pat q []) :
    matchClass mode pat str string (n + 1) q found = .ok (q.back, found) := by
  rw [matchClass, hq.read (Nat.zero_le _)]
  simp [bind, Except.bind, hq.len]

theorem matchClass_range (hs : string.read str 0 = .ok s₀)
    (hq : Points pat q (c :: 45 :: e :: p)) (hesc : c ≠ 92) (hclose : c ≠ 93) :
    matchClass mode pat str string (n + 1) q found
      = matchClass mode pat str string n q.next.next.next
          (found || (Item.range c e).covers mode s₀) := by
  rw [matchClass, hq.read (Nat.zero_le _)]
  have hlen : ¬q.len = 0 := by
    rw [hq.len, List.length_cons]
    omega
  have hthree : 3 ≤ q.len := by
    rw [hq.len]
    simp only [List.length_cons]
    omega
  simp only [bind, Except.bind, List.getD_cons_zero, hesc, hclose, hlen, if_false,
    hq.read (i := 1) (by simp), hq.read (i := 2) (by simp), List.getD_cons_succ, hthree,
    and_self, if_true, hs, hq.advance_two, hq.next.next.advance]
  rfl

theorem matchClass_byte (hs : string.read str 0 = .ok s₀) (hq : Points pat q (c :: p))
    (hesc : c ≠ 92) (hclose : c ≠ 93) (hdash : ¬(p.getD 0 0 = 45 ∧ 2 ≤ p.length)) :
    matchClass mode pat str string (n + 1) q found
      = matchClass mode pat str string n q.next (found || (Item.byte c).covers mode s₀) := by
  rw [matchClass, hq.read (Nat.zero_le _)]
  have hlen : ¬q.len = 0 := by
    rw [hq.len, List.length_cons]
    omega
  have hrange : ¬(p.getD 0 0 = 45 ∧ 3 ≤ q.len) := by
    rintro ⟨h45, hthree⟩
    rw [hq.len, List.length_cons] at hthree
    exact hdash ⟨h45, by omega⟩
  simp only [bind, Except.bind, List.getD_cons_zero, hesc, hclose, hlen, if_false,
    hq.read (i := 1) (by simp), List.getD_cons_succ, hrange, hs, hq.advance]
  rfl

theorem matchClass_dangling (hs : string.read str 0 = .ok s₀) (hq : Points pat q [92]) :
    matchClass mode pat str string (n + 2) q found = .error (danglingFault mode) := by
  rw [matchClass, hq.read (Nat.zero_le _)]
  simp only [bind, Except.bind, List.getD_cons_zero, if_true, hq.advance,
    hq.next.read (Nat.zero_le _), hs, hq.next.advance_nil]
  rw [danglingFault]
  by_cases hc : mode.checked = true
  · rw [if_pos hc, if_pos hc]
  · rw [if_neg hc, if_neg hc]
    dsimp only
    rw [matchClass, Cursor.read_past]
    · rfl
    · obtain ⟨pre, rfl, rfl⟩ := hq
      simp [Cursor.next]

/-- What the loop of a class may come to when it is entered with `found` at the
text `t`: unless the class is left dangling, the cursor stops on its last byte,
and `found` also tells whether a member covers the byte of the string. -/
def ClassResult (mode : Mode) (pat : Bytes) (s₀ : UInt8) (t : ClassText) (found : Bool)
    (r : Except Fault (Cursor × Bool)) : Prop :=
  (t.dangling = true → r = .error (danglingFault mode)) ∧
  (t.dangling = false → ∃ q b, Points pat q (b :: t.rest) ∧
    r = .ok (q, found || t.items.any (Item.covers mode s₀)))

theorem ClassResult.add {t : ClassText} {i : Item} {r : Except Fault (Cursor × Bool)}
    (h : ClassResult mode pat s₀ t (found || i.covers mode s₀) r) :
    ClassResult mode pat s₀ (t.add i) found r := by
  refine ⟨h.1, ?_⟩
  intro ht
  obtain ⟨q, b, hq, hr⟩ := h.2 ht
  refine ⟨q, b, hq, ?_⟩
  rw [hr, ClassText.add, List.any_cons, Bool.or_assoc]

theorem matchClass_spec (hs : string.read str 0 = .ok s₀) (p : Bytes) :
    ∀ {q : Cursor} {a : UInt8} {n : ℕ} {found : Bool}, Points pat q (a :: p) → p.length < n →
    ClassResult mode pat s₀ (classText p) found (matchClass mode pat str string n q.next found) := by
  induction p using class_induction with
  | nil =>
    intro q a n found hq hn
    obtain ⟨n, rfl⟩ : ∃ m, n = m + 1 := ⟨n - 1, by omega⟩
    rw [matchClass_end hq.next, hq.next_back]
    refine ⟨by simp [classText], ?_⟩
    intro _
    exact ⟨q, a, hq, by simp [classText]⟩
  | dangling =>
    intro q a n found hq hn
    obtain ⟨n, rfl⟩ : ∃ m, n = m + 2 := ⟨n - 2, by simp at hn; omega⟩
    refine ⟨?_, by simp [classText]⟩
    intro _
    exact matchClass_dangling hs hq.next
  | escape d p ih =>
    intro q a n found hq hn
    obtain ⟨n, rfl⟩ : ∃ m, n = m + 1 := ⟨n - 1, by omega⟩
    rw [matchClass_escape hs hq.next, classText_escape]
    exact (ih hq.next.next (by simp at hn; omega)).add
  | close p =>
    intro q a n found hq hn
    obtain ⟨n, rfl⟩ : ∃ m, n = m + 1 := ⟨n - 1, by omega⟩
    rw [matchClass_close hq.next, classText_close]
    refine ⟨by simp, ?_⟩
    intro _
    exact ⟨q.next, 93, hq.next, by simp⟩
  | range c e p hesc hclose ih =>
    intro q a n found hq hn
    obtain ⟨n, rfl⟩ : ∃ m, n = m + 1 := ⟨n - 1, by omega⟩
    rw [matchClass_range hs hq.next hesc hclose, classText_range hesc hclose]
    exact (ih hq.next.next.next (by simp at hn; omega)).add
  | byte c p hesc hclose hdash ih =>
    intro q a n found hq hn
    obtain ⟨n, rfl⟩ : ∃ m, n = m + 1 := ⟨n - 1, by omega⟩
    rw [matchClass_byte hs hq.next hesc hclose hdash, classText_byte hesc hclose hdash]
    exact (ih hq.next (by simp at hn; omega)).add

theorem matchClass_past {f : Fault} (hs : string.read str 0 = .error f) {a : UInt8}
    (hq : Points pat q (a :: p)) {r : Cursor × Bool}
    (h : matchClass mode pat str string n q.next found = .ok r) :
    (classText p).items = [] ∧ (classText p).dangling = false := by
  rcases n with _ | n
  · rw [matchClass] at h
    cases h
  rcases p with _ | ⟨c, p⟩
  · exact ⟨rfl, rfl⟩
  by_cases hclose : c = 93
  · subst hclose
    rw [classText_close]
    exact ⟨rfl, rfl⟩
  -- any other first byte is compared with the byte of the string
  exfalso
  rw [matchClass, hq.next.read (Nat.zero_le _)] at h
  have hlen : ¬q.next.len = 0 := by
    rw [hq.next.len, List.length_cons]
    omega
  by_cases hesc : c = 92
  · have hread : q.next.next.read pat 0 = .ok (p.getD 0 0) :=
      hq.next.next.read (Nat.zero_le _)
    simp only [bind, Except.bind, List.getD_cons_zero, hesc, if_true, hq.next.advance, hread,
      hs] at h
    cases h
  · simp only [bind, Except.bind, List.getD_cons_zero, hesc, hclose, hlen, if_false,
      hq.next.read (i := 1) (by simp), hs] at h
    split at h
    · rename_i hdash
      rw [hq.next.len] at hdash
      rw [hq.next.read (by omega)] at h
      cases h
    · cases h

end

/-! ### One byte of the string -/

theorem nextToken_length (c : UInt8) (p : Bytes) : (nextToken c p).2.length ≤ p.length := by
  unfold nextToken
  split
  · exact le_rfl
  split
  · exact le_rfl
  split
  · split
    · exact (classText_rest_length _).trans (by rw [List.length_tail]; omega)
    · exact classText_rest_length _
  split
  · rcases p with _ | ⟨d, p⟩
    · exact le_rfl
    · exact Nat.le_succ _
  · exact le_rfl

theorem tokensFrom_eq {n m : ℕ} {p : Bytes} (hn : p.length ≤ n) (hm : p.length ≤ m) :
    tokensFrom n p = tokensFrom m p := by
  induction n generalizing m p with
  | zero =>
    obtain rfl : p = [] := List.length_eq_zero_iff.mp (by omega)
    rcases m with _ | m <;> rfl
  | succ n ih =>
    rcases p with _ | ⟨c, p⟩
    · rcases m with _ | m <;> rfl
    · rw [List.length_cons] at hn hm
      obtain ⟨m, rfl⟩ : ∃ k, m = k + 1 := ⟨m - 1, by omega⟩
      have hle := nextToken_length c p
      exact congrArg _ (ih (by omega) (by omega))

theorem tokens_nil : tokens [] = [] := rfl

theorem tokens_cons (c : UInt8) (p : Bytes) :
    tokens (c :: p) = (nextToken c p).1 :: tokens (nextToken c p).2 := by
  have hle := nextToken_length c p
  rw [tokens, List.length_cons, tokensFrom, tokens, tokensFrom_eq hle le_rfl]

def Token.isDangling : Token → Bool
  | .dangling _ _ => true
  | _ => false

/-- What a branch that consumes a byte of the string may come to at the token
`t`, with `rest` left of the pattern behind it: `?` asks whether a byte of the
string is left, the other tokens only look at the byte. -/
def OneResult (mode : Mode) (pat : Bytes) (string : Cursor) (s₀ : UInt8) (t : Token)
    (rest : Bytes) (r : Except Fault (Option (Cursor × Cursor))) : Prop :=
  (t.isDangling = true → r = .error (danglingFault mode)) ∧
  (t.isDangling = false → ∃ q b, Points pat q (b :: rest) ∧
    r = if t.covers mode s₀ = true ∧ ¬(t = .any ∧ string.len = 0)
      then (string.advance mode 1).map fun s => some (q, s)
      else .ok none)

section
variable {string q : Cursor} {s₀ c : UInt8} {p : Bytes} {n : ℕ}

theorem matchOne_any (hq : Points pat q (63 :: p)) :
    matchOne mode pat str n q string
      = if string.len = 0 then .ok none
        else (string.advance mode 1).map fun s => some (q, s) := by
  rw [matchOne, hq.read (Nat.zero_le _)]
  simp only [bind, Except.bind, List.getD_cons_zero, if_true]
  split
  · rfl
  · rcases string.advance mode 1 with _ | s <;> rfl

theorem matchOne_byte (hs : string.read str 0 = .ok s₀) (hq : Points pat q (c :: p))
    (h63 : c ≠ 63) (h91 : c ≠ 91) (h92 : ¬(c = 92 ∧ p ≠ [])) :
    matchOne mode pat str n q string
      = if sameChar mode c s₀ then (string.advance mode 1).map fun s => some (q, s)
        else .ok none := by
  rw [matchOne, hq.read (Nat.zero_le _)]
  have hquote : ¬(c = 92 ∧ 2 ≤ q.len) := by
    rintro ⟨hc, hlen⟩
    refine h92 ⟨hc, ?_⟩
    rintro rfl
    rw [hq.len] at hlen
    simp at hlen
  simp only [bind, Except.bind, List.getD_cons_zero, h63, h91, hquote, if_false, hs,
    hq.read (Nat.zero_le _)]
  split
  · rcases string.advance mode 1 with _ | s <;> rfl
  · rfl

theorem matchOne_quoted (hs : string.read str 0 = .ok s₀) {d : UInt8}
    (hq : Points pat q (92 :: d :: p)) :
    matchOne mode pat str n q string
      = if sameChar mode d s₀ then (string.advance mode 1).map fun s => some (q.next, s)
        else .ok none := by
  rw [matchOne, hq.read (Nat.zero_le _)]
  have hquote : 2 ≤ q.len := by
    rw [hq.len, List.length_cons, List.length_cons]
    omega
  have h63 : ¬(92 : UInt8) = 63 := by decide
  have h91 : ¬(92 : UInt8) = 91 := by decide
  simp only [bind, Except.bind, List.getD_cons_zero, h63, h91, hquote, and_self, if_true,
    if_false, hs, hq.advance, hq.next.read (Nat.zero_le _)]
  split
  · rcases string.advance mode 1 with _ | s <;> rfl
  · rfl

theorem matchOne_open (hq : Points pat q (91 :: p)) (hcaret : p.head? ≠ some 94) :
    matchOne mode pat str n q string
      = (matchClass mode pat str string n q.next false).bind fun x =>
        if (!(if false = true then !x.2 else x.2)) = true then .ok none
        else (string.advance mode 1).map fun s => some (x.1, s) := by
  rw [matchOne, hq.read (Nat.zero_le _)]
  have h63 : ¬(91 : UInt8) = 63 := by decide
  have h94 : ¬p.getD 0 0 = 94 := by
    rcases p with _ | ⟨d, p⟩
    · decide
    · simpa using hcaret
  simp only [bind, Except.bind, List.getD_cons_zero, h63, if_true, if_false, hq.advance,
    hq.next.read (Nat.zero_le _), h94]
  rcases matchClass mode pat str string n q.next false with _ | ⟨pattern, found⟩
  · rfl
  · rcases string.advance mode 1 with _ | s <;> cases found <;> rfl

theorem matchOne_open_caret (hq : Points pat q (91 :: 94 :: p)) :
    matchOne mode pat str n q string
      = (matchClass mode pat str string n q.next.next false).bind fun x =>
        if (!(if true = true then !x.2 else x.2)) = true then .ok none
        else (string.advance mode 1).map fun s => some (x.1, s) := by
  rw [matchOne, hq.read (Nat.zero_le _)]
  have h63 : ¬(91 : UInt8) = 63 := by decide
  simp only [bind, Except.bind, List.getD_cons_zero, h63, if_true, if_false, hq.advance,
    hq.next.read (Nat.zero_le _), hq.next.advance]
  rcases matchClass mode pat str string n q.next.next false with _ | ⟨pattern, found⟩
  · rfl
  · rcases string.advance mode 1 with _ | s <;> cases found <;> rfl

theorem matchOne_class (neg : Bool) {t : ClassText}
    {r : Except Fault (Cursor × Bool)} (hr : ClassResult mode pat s₀ t false r) :
    OneResult mode pat string s₀ (classToken neg t) t.rest
      (r.bind fun x =>
        if (!(if neg = true then !x.2 else x.2)) = true then .ok none
        else (string.advance mode 1).map fun s => some (x.1, s)) := by
  rw [classToken]
  by_cases ht : t.dangling = true
  · rw [if_pos ht, hr.1 ht]
    refine ⟨fun _ => rfl, ?_⟩
    intro h
    cases h
  · rw [Bool.not_eq_true] at ht
    obtain ⟨q, b, hq, hres⟩ := hr.2 ht
    rw [if_neg (by simp [ht]), hres]
    refine ⟨by simp [Token.isDangling], ?_⟩
    intro _
    refine ⟨q, b, hq, ?_⟩
    simp only [Except.bind, Bool.false_or, Token.covers, reduceCtorEq, false_and,
      not_false_eq_true, and_true]
    cases neg <;> cases t.items.any (Item.covers mode s₀) <;> rfl

variable (mode str string) in
theorem matchOne_spec (hs : string.read str 0 = .ok s₀) (hq : Points pat q (c :: p))
    (hstar : c ≠ 42) (hn : p.length < n) :
    OneResult mode pat string s₀ (nextToken c p).1 (nextToken c p).2
      (matchOne mode pat str n q string) := by
  unfold nextToken
  rw [if_neg hstar]
  by_cases h63 : c = 63
  · subst h63
    rw [if_pos rfl, matchOne_any hq]
    refine ⟨by simp [Token.isDangling], ?_⟩
    intro _
    refine ⟨q, _, hq, ?_⟩
    by_cases h0 : string.len = 0
    · simp [h0]
    · simp [h0, Token.covers]
  rw [if_neg h63]
  by_cases h91 : c = 91
  · subst h91
    rw [if_pos rfl]
    by_cases hcaret : p.head? = some 94
    · obtain ⟨p, rfl⟩ : ∃ p', p = 94 :: p' := List.head?_eq_some_iff.mp hcaret
      rw [if_pos hcaret, matchOne_open_caret hq]
      exact matchOne_class true (matchClass_spec hs p hq.next (by simp at hn; omega))
    · rw [if_neg hcaret, matchOne_open hq hcaret]
      exact matchOne_class false (matchClass_spec hs p hq hn)
  rw [if_neg h91]
  by_cases h92 : c = 92
  · subst h92
    rw [if_pos rfl]
    rcases p with _ | ⟨d, p⟩
    · rw [matchOne_byte hs hq (by decide) (by decide) (by simp)]
      refine ⟨by simp [Token.isDangling], ?_⟩
      intro _
      exact ⟨q, _, hq, by simp [Token.covers]⟩
    · rw [matchOne_quoted hs hq]
      refine ⟨by simp [Token.isDangling], ?_⟩
      intro _
      exact ⟨q.next, _, hq.next, by simp [Token.covers]⟩
  rw [if_neg h92, matchOne_byte hs hq h63 h91 (fun h => h92 h.1)]
  refine ⟨by simp [Token.isDangling], ?_⟩
  intro _
  exact ⟨q, _, hq, by simp [Token.covers]⟩

end

/-! ### Stars -/

/-- The pattern with its leading stars left out. -/
def dropStars (p : Bytes) : Bytes := p.dropWhile (· = 42)

theorem dropStars_star (p : Bytes) : dropStars (42 :: p) = dropStars p := rfl

theorem dropStars_other {c : UInt8} (hc : c ≠ 42) (p : Bytes) : dropStars (c :: p) = c :: p := by
  simp [dropStars, hc]

theorem dropStars_dropStars (p : Bytes) : dropStars (dropStars p) = dropStars p := by
  induction p with
  | nil => rfl
  | cons c p ih =>
    by_cases hc : c = 42
    · subst hc
      rw [dropStars_star, ih]
    · rw [dropStars_other hc, dropStars_other hc]

theorem dropStars_length (p : Bytes) : (dropStars p).length ≤ p.length :=
  (List.dropWhile_suffix _).length_le

variable (mode) in
theorem skipStars_end {q : Cursor} {p : Bytes} (n : ℕ) (hq : Points pat q p)
    (hn : p.length < n) :
    ∃ q', skipStars mode pat 0 n q = .ok q' ∧ Points pat q' (dropStars p) := by
  induction p generalizing q n with
  | nil =>
    obtain ⟨n, rfl⟩ : ∃ m, n = m + 1 := ⟨n - 1, by omega⟩
    refine ⟨q, ?_, hq⟩
    rw [skipStars, hq.read (Nat.zero_le _)]
    rfl
  | cons c p ih =>
    rw [List.length_cons] at hn
    obtain ⟨n, rfl⟩ : ∃ m, n = m + 1 := ⟨n - 1, by omega⟩
    rw [skipStars, hq.read (Nat.zero_le _)]
    by_cases hc : c = 42
    · subst hc
      obtain ⟨q', hrun, hq'⟩ := ih n hq.next (by omega)
      refine ⟨q', ?_, hq'⟩
      simp only [bind, Except.bind, List.getD_cons_zero, if_true, hq.advance]
      exact hrun
    · refine ⟨q, ?_, ?_⟩
      · simp only [bind, Except.bind, List.getD_cons_zero, hc, if_false]
      · rw [dropStars_other hc]
        exact hq

variable (mode) in
theorem skipStars_star {q : Cursor} {a : UInt8} {p : Bytes} {n : ℕ}
    (hq : Points pat q (a :: p)) (hn : p.length < n) :
    ∃ q' b, skipStars mode pat 1 n q = .ok q' ∧ Points pat q' (b :: dropStars p) := by
  induction p generalizing q n a with
  | nil =>
    obtain ⟨n, rfl⟩ : ∃ m, n = m + 1 := ⟨n - 1, by omega⟩
    refine ⟨q, a, ?_, hq⟩
    rw [skipStars, hq.read (by simp)]
    rfl
  | cons c p ih =>
    rw [List.length_cons] at hn
    obtain ⟨n, rfl⟩ : ∃ m, n = m + 1 := ⟨n - 1, by omega⟩
    rw [skipStars, hq.read (by simp)]
    by_cases hc : c = 42
    · subst hc
      obtain ⟨q', b, hrun, hq'⟩ := ih hq.next (by omega : p.length < n)
      refine ⟨q', b, ?_, hq'⟩
      simp only [bind, Except.bind, List.getD_cons_zero, List.getD_cons_succ, if_true,
        hq.advance]
      exact hrun
    · refine ⟨q, a, ?_, ?_⟩
      · simp only [bind, Except.bind, List.getD_cons_zero, List.getD_cons_succ, hc, if_false]
      · rw [dropStars_other hc]
        exact hq

/-! ### What the tokens accept -/

/-- The elements of a pattern. -/
def elems (mode : Mode) (ts : List Token) : List (Elem UInt8) := ts.map (Token.elem mode)

/-- The strings on which the matcher gets to a class left dangling: what is
before the class matches a part of the string, and a byte is left. -/
def reachElems (mode : Mode) : List Token → List (Elem UInt8)
  | [] => [.one fun _ => false]
  | t :: ts => if t.isDangling then [.one fun _ => true, .star] else t.elem mode :: reachElems mode ts

theorem nextToken_star (p : Bytes) : nextToken 42 p = (.star, p) := by
  unfold nextToken
  rw [if_pos rfl]

theorem tokens_star (p : Bytes) : tokens (42 :: p) = .star :: tokens p := by
  rw [tokens_cons, nextToken_star]

theorem nextToken_elem {c : UInt8} (hc : c ≠ 42) (p : Bytes) :
    (nextToken c p).1.elem mode = .one fun d => (nextToken c p).1.covers mode d := by
  have hclass : ∀ neg t, (classToken neg t).elem mode
      = .one fun d => (classToken neg t).covers mode d := by
    intro neg t
    unfold classToken
    split <;> rfl
  unfold nextToken
  rw [if_neg hc]
  split
  · rfl
  split
  · split <;> exact hclass _ _
  split
  · rcases p with _ | ⟨d, p⟩ <;> rfl
  · rfl

theorem elems_star (p : Bytes) :
    elems mode (tokens (42 :: p)) = .star :: elems mode (tokens p) := by
  rw [tokens_star]
  rfl

theorem elems_other {c : UInt8} (hc : c ≠ 42) (p : Bytes) :
    elems mode (tokens (c :: p))
      = (.one fun d => (nextToken c p).1.covers mode d) :: elems mode (tokens (nextToken c p).2) := by
  rw [tokens_cons, elems, List.map_cons, nextToken_elem hc]
  rfl

theorem reachElems_star (p : Bytes) :
    reachElems mode (tokens (42 :: p)) = .star :: reachElems mode (tokens p) := by
  rw [tokens_star]
  rfl

theorem reachElems_dangling {c : UInt8} {p : Bytes}
    (hd : (nextToken c p).1.isDangling = true) :
    reachElems mode (tokens (c :: p)) = [.one fun _ => true, .star] := by
  rw [tokens_cons, reachElems, if_pos hd]

theorem reachElems_other {c : UInt8} {p : Bytes} (hc : c ≠ 42)
    (hd : (nextToken c p).1.isDangling = false) :
    reachElems mode (tokens (c :: p))
      = (.one fun d => (nextToken c p).1.covers mode d) ::
        reachElems mode (tokens (nextToken c p).2) := by
  rw [tokens_cons, reachElems, if_neg (by simp [hd]), nextToken_elem hc]

theorem accepts_dropStars (p : Bytes) (w : Bytes) :
    accepts (.star :: elems mode (tokens p)) w
      = accepts (.star :: elems mode (tokens (dropStars p))) w := by
  induction p with
  | nil => rfl
  | cons c p ih =>
    by_cases hc : c = 42
    · subst hc
      rw [elems_star, accepts_star_star, ih, dropStars_star]
    · rw [dropStars_other hc]

theorem reach_dropStars (p : Bytes) (w : Bytes) :
    accepts (.star :: reachElems mode (tokens p)) w
      = accepts (.star :: reachElems mode (tokens (dropStars p))) w := by
  induction p with
  | nil => rfl
  | cons c p ih =>
    by_cases hc : c = 42
    · subst hc
      rw [reachElems_star, accepts_star_star, ih, dropStars_star]
    · rw [dropStars_other hc]

theorem accepts_exhausted (p : Bytes) :
    accepts (elems mode (tokens p)) [] = (dropStars p).isEmpty := by
  induction p with
  | nil => rfl
  | cons c p ih =>
    by_cases hc : c = 42
    · subst hc
      rw [elems_star, accepts_star_nil, ih, dropStars_star]
    · rw [elems_other hc, dropStars_other hc]
      rfl

theorem reach_exhausted (ts : List Token) : accepts (reachElems mode ts) [] = false := by
  induction ts with
  | nil => rfl
  | cons t ts ih =>
    rw [reachElems]
    split
    · rfl
    · cases t with
      | star => rw [Token.elem, accepts_star_nil, ih]
      | _ => rfl

theorem accepts_star_eq_false {es : List (Elem UInt8)} (h : ∀ w, accepts es w = false)
    (w : Bytes) : accepts (.star :: es) w = false := by
  rw [Bool.eq_false_iff]
  intro hw
  obtain ⟨v, -, hv⟩ := accepts_star_iff.mp hw
  rw [h v] at hv
  cases hv

/-- A pattern either leaves no class dangling, and then none is reached, or
everything it accepts makes it reach the class. -/
theorem reach_total (ts : List Token) :
    (∀ w, accepts (reachElems mode ts) w = false) ∨
    (∀ w, accepts (elems mode ts) w = true → accepts (reachElems mode ts) w = true) := by
  induction ts with
  | nil =>
    left
    rintro (_ | ⟨c, w⟩) <;> rfl
  | cons t ts ih =>
    rw [reachElems]
    by_cases hd : t.isDangling = true
    · -- a class takes a byte, and with a byte left it is reached
      rw [if_pos hd]
      right
      intro w hw
      rcases w with _ | ⟨c, w⟩
      · cases t with
        | dangling neg items => cases hw
        | _ => cases hd
      · rw [accepts, Bool.true_and]
        exact accepts_star_last
    · rw [if_neg hd]
      have hone : t = .star ∨ ∃ f, t.elem mode = .one f := by
        cases t with
        | star => exact .inl rfl
        | _ => exact .inr ⟨_, rfl⟩
      rcases hone with rfl | ⟨f, hf⟩
      · rcases ih with ih | ih
        · exact .inl (accepts_star_eq_false ih)
        · right
          intro w hw
          obtain ⟨v, hv, hacc⟩ := accepts_star_iff.mp hw
          exact accepts_star_iff.mpr ⟨v, hv, ih v hacc⟩
      · rw [hf, elems, List.map_cons, hf]
        rcases ih with ih | ih
        · left
          rintro (_ | ⟨c, w⟩)
          · rfl
          · rw [accepts, ih, Bool.and_false]
        · right
          rintro (_ | ⟨c, w⟩) hw
          · cases hw
          · rw [accepts, Bool.and_eq_true] at hw ⊢
            exact ⟨hw.1, ih w hw.2⟩

/-! ### The loop at a star -/

/-- The loop at a star tries the rest of the pattern on every suffix that has a
byte left.  If the rest can fault on some suffix, it accepts none before. -/
theorem matchTails_spec {matchRest : Cursor → Except Fault Bool} {es fs : List (Elem UInt8)}
    (hes : accepts es [] = false) (hfs : accepts fs [] = false)
    (htotal : (∀ w, accepts fs w = false) ∨ ∀ w, accepts es w = true → accepts fs w = true)
    {f : Fault} {w : Bytes} :
    ∀ {s : Cursor} {n : ℕ}, Points str s w → w.length < n →
    (∀ {s' : Cursor} {v : Bytes}, Points str s' v → v ≠ [] → v.length ≤ w.length →
      matchRest s' = if accepts fs v then .error f else .ok (accepts es v)) →
    matchTails mode matchRest n s
      = if accepts (.star :: fs) w then .error f else .ok (accepts (.star :: es) w) := by
  induction w with
  | nil =>
    intro s n hs hn hrest
    obtain ⟨n, rfl⟩ : ∃ m, n = m + 1 := ⟨n - 1, by omega⟩
    rw [matchTails, if_pos (by rw [hs.len]; rfl), accepts_star_nil, accepts_star_nil, hes, hfs]
    rfl
  | cons c w ih =>
    intro s n hs hn hrest
    rw [List.length_cons] at hn
    obtain ⟨n, rfl⟩ : ∃ m, n = m + 1 := ⟨n - 1, by omega⟩
    have hlen : ¬s.len = 0 := by
      rw [hs.len, List.length_cons]
      omega
    rw [matchTails, if_neg hlen, hrest hs (by simp) le_rfl, accepts_star_cons, accepts_star_cons]
    by_cases hf : accepts fs (c :: w) = true
    · rw [if_pos hf, hf, Bool.true_or, if_pos rfl]
      rfl
    · rw [if_neg hf]
      rw [Bool.not_eq_true] at hf
      rw [hf, Bool.false_or]
      by_cases he : accepts es (c :: w) = true
      · rcases htotal with hnever | himp
        · rw [he, accepts_star_eq_false hnever, Bool.true_or]
          rfl
        · rw [himp _ he] at hf
          cases hf
      · rw [Bool.not_eq_true] at he
        rw [he, Bool.false_or]
        simp only [bind, Except.bind, Bool.false_eq_true, if_false, hs.advance]
        refine ih hs.next (by omega) ?_
        intro s' v hs' hv hle
        exact hrest hs' hv (by simp only [List.length_cons]; omega)

/-! ### The whole function -/

theorem stringmatchlen_nil {q s : Cursor} {n : ℕ} (hq : Points pat q []) :
    stringmatchlen mode pat str (n + 1) q s = .ok (decide (s.len = 0)) := by
  rw [stringmatchlen, if_pos (by rw [hq.len]; rfl), hq.len]
  simp

variable (mode str) in
/-- The function at a star: the stars that follow are skipped; a star that ends
the pattern matches, and otherwise every suffix of the string is tried. -/
theorem stringmatchlen_star {q : Cursor} (s : Cursor) {p : Bytes} {n : ℕ} (hq : Points pat q (42 :: p))
    (hn : p.length < n) :
    (dropStars p = [] → stringmatchlen mode pat str (n + 1) q s = .ok true) ∧
    (dropStars p ≠ [] → ∃ q', Points pat q' (dropStars p) ∧
      stringmatchlen mode pat str (n + 1) q s
        = matchTails mode (stringmatchlen mode pat str n q') n s) := by
  obtain ⟨q', b, hskip, hq'⟩ := skipStars_star mode hq hn
  have hlen : ¬q.len = 0 := by
    rw [hq.len, List.length_cons]
    omega
  rw [stringmatchlen, if_neg hlen, hq.read (Nat.zero_le _)]
  simp only [bind, Except.bind, List.getD_cons_zero, if_true, hskip]
  constructor
  · intro hd
    rw [hd] at hq'
    rw [if_pos (by rw [hq'.len]; rfl)]
  · intro hd
    have hne : ¬q'.len = 1 := by
      have := List.length_pos_iff.mpr hd
      rw [hq'.len, List.length_cons]
      omega
    rw [if_neg hne, hq'.advance]
    exact ⟨q'.next, hq'.next, rfl⟩

theorem stringmatchlen_one {q s : Cursor} {c : UInt8} {p : Bytes} {n : ℕ}
    (hq : Points pat q (c :: p)) (hc : c ≠ 42) :
    stringmatchlen mode pat str (n + 1) q s
      = (matchOne mode pat str n q s).bind fun r =>
        match r with
        | none => .ok false
        | some (q, s) => (q.advance mode 1).bind fun q =>
          if s.len = 0 then (skipStars mode pat 0 n q).bind fun q =>
            .ok (decide (q.len = 0 ∧ s.len = 0))
          else stringmatchlen mode pat str n q s := by
  have hlen : ¬q.len = 0 := by
    rw [hq.len, List.length_cons]
    omega
  rw [stringmatchlen, if_neg hlen, hq.read (Nat.zero_le _)]
  dsimp only [bind, Except.bind]
  rw [List.getD_cons_zero]
  refine (if_neg hc).trans ?_
  rcases matchOne mode pat str n q s with _ | _ | ⟨q', s'⟩ <;> rfl

/-- With a byte of the string left, the function is the backtracking matcher on
the tokens of the pattern, and faults where that would come to a class left
dangling.  The induction is on the length of the pattern. -/
theorem stringmatchlen_eq {p : Bytes} : ∀ {q s : Cursor} {w : Bytes} {n : ℕ},
    Points pat q p → Points str s w → w ≠ [] → p.length + w.length + 2 ≤ n →
    stringmatchlen mode pat str n q s
      = if accepts (reachElems mode (tokens p)) w then .error (danglingFault mode)
        else .ok (accepts (elems mode (tokens p)) w) := by
  induction h : p.length using Nat.strong_induction_on generalizing p with
  | h k ih =>
  subst h
  intro q s w n hq hs hw hn
  obtain ⟨n, rfl⟩ : ∃ m, n = m + 1 := ⟨n - 1, by omega⟩
  rcases p with _ | ⟨c, p⟩
  · rcases w with _ | ⟨a, w⟩
    · exact absurd rfl hw
    have hlen : ¬s.len = 0 := by
      rw [hs.len, List.length_cons]
      omega
    rw [stringmatchlen_nil hq, decide_eq_false hlen]
    rfl
  rw [List.length_cons] at hn ih
  by_cases hc : c = 42
  · subst hc
    have hdrop := dropStars_length p
    obtain ⟨hlast, hmore⟩ := stringmatchlen_star mode str s hq
      (by omega : p.length < n)
    rw [elems_star, reachElems_star, accepts_dropStars, reach_dropStars]
    by_cases hd : dropStars p = []
    · have hnever : ∀ v : Bytes, accepts (reachElems mode (tokens [])) v = false := by
        rintro (_ | ⟨a, v⟩) <;> rfl
      rw [hlast hd, hd, accepts_star_eq_false hnever]
      have hall : accepts (.star :: elems mode (tokens [])) w = true := accepts_star_last
      rw [hall]
      rfl
    · obtain ⟨q', hq', hrun⟩ := hmore hd
      rw [hrun]
      refine matchTails_spec ?_ (reach_exhausted _) (reach_total _) hs (by omega) ?_
      · -- the rest starts with a byte other than a star
        rw [accepts_exhausted]
        rw [dropStars_dropStars]
        simpa using hd
      · intro s' v hs' hv hle
        exact ih _ (by omega) rfl hq' hs' hv (by omega)
  · rcases w with _ | ⟨a, w⟩
    · exact absurd rfl hw
    rw [List.length_cons] at hn
    have hrest := nextToken_length c p
    have hone := matchOne_spec mode str s
      (hs.read (Nat.zero_le _)) hq hc (by omega : p.length < n)
    rw [List.getD_cons_zero] at hone
    rw [stringmatchlen_one hq hc]
    by_cases hd : (nextToken c p).1.isDangling = true
    · rw [hone.1 hd, reachElems_dangling hd]
      have hall : accepts [.one fun _ => true, .star] (a :: w) = true := by
        rw [accepts, Bool.true_and]
        exact accepts_star_last
      rw [hall]
      rfl
    · rw [Bool.not_eq_true] at hd
      obtain ⟨q', b, hq', hres⟩ := hone.2 hd
      have hlen : ¬((nextToken c p).1 = .any ∧ s.len = 0) := by
        rintro ⟨-, h0⟩
        rw [hs.len, List.length_cons] at h0
        omega
      rw [hres, reachElems_other hc hd, elems_other hc]
      simp only [hlen, not_false_eq_true, and_true]
      by_cases hcov : (nextToken c p).1.covers mode a = true
      · simp only [accepts, hcov, Bool.true_and, if_true, hs.advance, Except.map, Except.bind,
          hq'.advance]
        rcases w with _ | ⟨d, w⟩
        · obtain ⟨q'', hskip, hq''⟩ := skipStars_end mode n hq'.next (by omega)
          rw [if_pos (by rw [hs.next.len]; rfl), hskip, reach_exhausted, accepts_exhausted,
            hs.next.len]
          simp only [hq''.len]
          rcases dropStars (nextToken c p).2 with _ | ⟨e, r⟩
          · rfl
          · simp
            omega
        · rw [if_neg (by rw [hs.next.len, List.length_cons]; omega)]
          exact ih _ (by omega) rfl hq'.next hs.next (by simp) (by omega)
      · rw [Bool.not_eq_true] at hcov
        simp only [accepts, hcov, Bool.false_and, Bool.false_eq_true, if_false, Except.bind]

/-! ### An exhausted string -/

/-- Whether a token takes the NUL behind the string for a byte of it. -/
def Token.takesNul (mode : Mode) (t : Token) : Prop :=
  t ≠ .any ∧ t.isDangling = false ∧ t.covers mode 0 = true

theorem stringmatchlen_exhausted {q s : Cursor} {c : UInt8} {p : Bytes} {n : ℕ}
    (hq : Points pat q (c :: p)) (hs : Points str s []) (hc : c ≠ 42) (hn : p.length < n) :
    ((nextToken c p).1.isDangling = true →
      stringmatchlen mode pat str (n + 1) q s = .error (danglingFault mode)) ∧
    ((nextToken c p).1.isDangling = false → ¬(nextToken c p).1.takesNul mode →
      stringmatchlen mode pat str (n + 1) q s = .ok false) ∧
    ((nextToken c p).1.takesNul mode → mode.checked = true →
      stringmatchlen mode pat str (n + 1) q s = .error .negative) ∧
    ((nextToken c p).1.takesNul mode → mode.checked = false →
      ∃ q', Points pat q' (nextToken c p).2 ∧
        stringmatchlen mode pat str (n + 1) q s = stringmatchlen mode pat str n q' s.next) := by
  have hone := matchOne_spec mode str s
    (hs.read (Nat.zero_le _)) hq hc hn
  have hlen : s.len = 0 := by
    rw [hs.len]
    rfl
  rw [stringmatchlen_one hq hc]
  refine ⟨?_, ?_, ?_, ?_⟩
  · intro hd
    rw [hone.1 hd]
    rfl
  · intro hd hnul
    obtain ⟨q', b, hq', hres⟩ := hone.2 hd
    rw [hres, if_neg]
    · rfl
    · rintro ⟨hcov, hany⟩
      exact hnul ⟨fun h => hany ⟨h, hlen⟩, hd, hcov⟩
  · rintro ⟨hany, hd, hcov⟩ hchecked
    obtain ⟨q', b, hq', hres⟩ := hone.2 hd
    rw [hres, if_pos ⟨hcov, fun h => hany h.1⟩, hs.advance_nil, if_pos hchecked]
    rfl
  · rintro ⟨hany, hd, hcov⟩ hchecked
    obtain ⟨q', b, hq', hres⟩ := hone.2 hd
    refine ⟨q'.next, hq'.next, ?_⟩
    have hneg : ¬s.next.len = 0 := by
      rw [Cursor.next, hlen]
      show ¬(0 - 1 : ℤ) = 0
      decide
    rw [hres, if_pos ⟨hcov, fun h => hany h.1⟩, hs.advance_nil, if_neg (by simp [hchecked])]
    simp only [Except.map, Except.bind, hq'.advance, hneg, if_false]

/-! ### Behind the string -/

/-- A cursor behind the NUL of the string, with a negative remaining length. -/
def Past (str : Bytes) (s : Cursor) : Prop := str.length < s.ptr ∧ s.len < 0

/-- The tokens that take a byte of the string without looking at it. -/
def Token.blind (t : Token) : Prop := t = .any ∨ t = .cls true []

/-- The patterns that come to `return 0` from behind the string: nothing in
them looks at the string or is a star, up to an empty class, which fails, or to
their end. -/
def harmless : List Token → Bool
  | [] => true
  | .any :: ts => harmless ts
  | .cls true [] :: ts => harmless ts
  | .cls false [] :: _ => true
  | _ => false

theorem harmless_blind {t : Token} (h : t.blind) (ts : List Token) :
    harmless (t :: ts) = harmless ts := by
  rcases h with rfl | rfl <;> rfl

theorem harmless_cons {t : Token} {ts : List Token} (h : harmless (t :: ts) = true) :
    t.blind ∨ t = .cls false [] := by
  cases t with
  | any => exact .inl (.inl rfl)
  | cls neg items =>
    rcases items with _ | ⟨i, items⟩
    · cases neg with
      | true => exact .inl (.inr rfl)
      | false => exact .inr rfl
    · cases neg <;> cases h
  | _ => cases h

section
variable {s q : Cursor} {c : UInt8} {p : Bytes} {n : ℕ}

theorem Past.read (h : Past str s) : s.read str 0 = .error .outOfBounds :=
  Cursor.read_past h.1

theorem Past.len (h : Past str s) : ¬s.len = 0 := by
  have := h.2
  omega

theorem Past.next (h : Past str s) : Past str s.next := by
  obtain ⟨hptr, hlen⟩ := h
  refine ⟨?_, ?_⟩
  · rw [Cursor.next]
    dsimp only
    omega
  · rw [Cursor.next]
    dsimp only
    omega

theorem advance_unchecked (hmode : mode.checked = false) (s : Cursor) :
    s.advance mode 1 = .ok s.next := by
  rw [Cursor.advance, if_neg (by simp [hmode])]
  rfl

/-- With a negative length the loop at a star never runs out of string. -/
theorem matchTails_past (hmode : mode.checked = false) {matchRest : Cursor → Except Fault Bool}
    (hs : Past str s) : matchTails mode matchRest n s ≠ .ok false := by
  induction n generalizing s with
  | zero =>
    intro h
    cases h
  | succ n ih =>
    rw [matchTails, if_neg hs.len, advance_unchecked hmode]
    intro h
    rcases hrest : matchRest s with f | b
    · rw [hrest] at h
      cases h
    · rw [hrest] at h
      cases b with
      | true => cases h
      | false => exact ih hs.next h

variable (mode str n) in
theorem matchClass_empty (string : Cursor) {a : UInt8} (found : Bool) (hq : Points pat q (a :: p))
    (hitems : (classText p).items = []) (hd : (classText p).dangling = false) :
    ∃ q' b, Points pat q' (b :: (classText p).rest) ∧
      matchClass mode pat str string (n + 1) q.next found = .ok (q', found) := by
  rcases p with _ | ⟨c, p⟩
  · refine ⟨q, a, hq, ?_⟩
    rw [matchClass_end hq.next, hq.next_back]
  by_cases hclose : c = 93
  · subst hclose
    rw [classText_close]
    exact ⟨q.next, 93, hq.next, matchClass_close hq.next⟩
  exfalso
  by_cases hesc : c = 92
  · subst hesc
    rcases p with _ | ⟨d, p⟩
    · cases hd
    · rw [classText_escape] at hitems
      cases hitems
  · by_cases hdash : p.getD 0 0 = 45 ∧ 2 ≤ p.length
    · rcases p with _ | ⟨d, _ | ⟨e, p⟩⟩
      · simp at hdash
      · simp at hdash
      · obtain rfl : d = 45 := hdash.1
        rw [classText_range hesc hclose] at hitems
        cases hitems
    · rw [classText_byte hesc hclose hdash] at hitems
      cases hitems

theorem classToken_eq_cls {neg : Bool} {t : ClassText} (hitems : t.items = [])
    (hd : t.dangling = false) : classToken neg t = .cls neg [] := by
  rw [classToken, hd, hitems]
  rfl

theorem classToken_cls {neg b : Bool} {t : ClassText} (h : classToken neg t = .cls b []) :
    neg = b ∧ t.items = [] ∧ t.dangling = false := by
  unfold classToken at h
  split at h
  · cases h
  · rename_i hd
    injection h with hneg hitems
    exact ⟨hneg, hitems, by simpa using hd⟩

/-- What a branch that consumes a byte of the string may come to behind the
string. -/
def PastResult (pat : Bytes) (s : Cursor) (t : Token) (rest : Bytes)
    (r : Except Fault (Option (Cursor × Cursor))) : Prop :=
  (t.blind ∧ ∃ q b, Points pat q (b :: rest) ∧ r = .ok (some (q, s.next))) ∨
  (t = .cls false [] ∧ r = .ok none) ∨
  (¬t.blind ∧ t ≠ .cls false [] ∧ ∃ f, r = .error f)

theorem matchOne_class_past (hmode : mode.checked = false) (hs : Past str s) (neg : Bool)
    {a : UInt8} (hq : Points pat q (a :: p)) :
    PastResult pat s (classToken neg (classText p)) (classText p).rest
      ((matchClass mode pat str s (n + 1) q.next false).bind fun x =>
        if (!(if neg = true then !x.2 else x.2)) = true then .ok none
        else (s.advance mode 1).map fun s => some (x.1, s)) := by
  by_cases hempty : (classText p).items = [] ∧ (classText p).dangling = false
  · obtain ⟨q', b, hq', hrun⟩ := matchClass_empty mode str n s false
      hq hempty.1 hempty.2
    rw [hrun, classToken_eq_cls hempty.1 hempty.2, advance_unchecked hmode]
    cases neg with
    | true => exact .inl ⟨.inr rfl, q', b, hq', rfl⟩
    | false => exact .inr (.inl ⟨rfl, rfl⟩)
  · have hother : ∀ b, classToken neg (classText p) ≠ .cls b [] := by
      intro b h
      exact hempty (classToken_cls h).2
    refine .inr (.inr ⟨?_, hother false, ?_⟩)
    · rintro (h | h)
      · unfold classToken at h
        split at h <;> cases h
      · exact hother true h
    · rcases hrun : matchClass mode pat str s (n + 1) q.next false with f | r
      · exact ⟨f, rfl⟩
      · exact absurd (matchClass_past hs.read hq hrun) hempty

theorem matchOne_look (hs : Past str s) (hq : Points pat q (c :: p)) (h63 : c ≠ 63)
    (h91 : c ≠ 91) : matchOne mode pat str n q s = .error .outOfBounds := by
  rw [matchOne, hq.read (Nat.zero_le _)]
  have hread := hs.read
  by_cases hquote : c = 92 ∧ 2 ≤ q.len
  · obtain ⟨rfl, htwo⟩ := hquote
    have hlen := htwo
    rw [hq.len, List.length_cons] at hlen
    obtain ⟨d, p, rfl⟩ : ∃ d p', p = d :: p' := by
      refine List.exists_cons_of_ne_nil ?_
      rintro rfl
      simp at hlen
    simp only [bind, Except.bind, List.getD_cons_zero, h63, h91, htwo, and_self, if_true,
      if_false, hread, hq.advance, hq.next.read (Nat.zero_le _)]
  · simp only [bind, Except.bind, List.getD_cons_zero, h63, h91, hquote, if_false, hread,
      hq.read (Nat.zero_le _)]

theorem matchOne_no_fuel (hs : Past str s) (hq : Points pat q (c :: p)) :
    matchOne mode pat str 0 q s ≠ .ok none := by
  intro h
  by_cases h63 : c = 63
  · subst h63
    rw [matchOne_any hq, if_neg hs.len] at h
    rcases hadv : s.advance mode 1 with f | s'
    · rw [hadv] at h
      cases h
    · rw [hadv] at h
      cases h
  by_cases h91 : c = 91
  · subst h91
    by_cases hcaret : p.head? = some 94
    · obtain ⟨p, rfl⟩ : ∃ p', p = 94 :: p' := List.head?_eq_some_iff.mp hcaret
      rw [matchOne_open_caret hq] at h
      cases h
    · rw [matchOne_open hq hcaret] at h
      cases h
  · rw [matchOne_look hs hq h63 h91] at h
    cases h

theorem matchOne_past (hmode : mode.checked = false) (hs : Past str s)
    (hq : Points pat q (c :: p)) (hstar : c ≠ 42) :
    PastResult pat s (nextToken c p).1 (nextToken c p).2 (matchOne mode pat str (n + 1) q s) := by
  have hlook : ∀ d r, matchOne mode pat str (n + 1) q s = .error .outOfBounds →
      PastResult pat s (.byte d) r (matchOne mode pat str (n + 1) q s) := by
    intro d r h
    refine .inr (.inr ⟨?_, by simp, _, h⟩)
    rintro (h | h) <;> cases h
  unfold nextToken
  rw [if_neg hstar]
  by_cases h63 : c = 63
  · subst h63
    rw [if_pos rfl, matchOne_any hq, if_neg hs.len, advance_unchecked hmode]
    exact .inl ⟨.inl rfl, q, _, hq, rfl⟩
  rw [if_neg h63]
  by_cases h91 : c = 91
  · subst h91
    rw [if_pos rfl]
    by_cases hcaret : p.head? = some 94
    · obtain ⟨p, rfl⟩ : ∃ p', p = 94 :: p' := List.head?_eq_some_iff.mp hcaret
      rw [if_pos hcaret, matchOne_open_caret hq]
      exact matchOne_class_past hmode hs true hq.next
    · rw [if_neg hcaret, matchOne_open hq hcaret]
      exact matchOne_class_past hmode hs false hq
  rw [if_neg h91]
  have hrun : matchOne mode pat str (n + 1) q s = .error .outOfBounds :=
    matchOne_look hs hq h63 h91
  by_cases h92 : c = 92
  · subst h92
    rw [if_pos rfl]
    rcases p with _ | ⟨d, p⟩
    · exact hlook 92 [] hrun
    · exact hlook d p hrun
  · rw [if_neg h92]
    exact hlook c p hrun

theorem harmless_of_past (hmode : mode.checked = false) :
    ∀ {n : ℕ} {p : Bytes} {q s : Cursor}, Points pat q p → Past str s →
    stringmatchlen mode pat str n q s = .ok false → harmless (tokens p) = true := by
  intro n
  induction n with
  | zero =>
    intro p q s hq hs h
    cases h
  | succ n ih =>
    intro p q s hq hs h
    rcases p with _ | ⟨c, p⟩
    · rfl
    by_cases hc : c = 42
    · exfalso
      subst hc
      have hlen : ¬q.len = 0 := by
        rw [hq.len, List.length_cons]
        omega
      rw [stringmatchlen, if_neg hlen, hq.read (Nat.zero_le _)] at h
      simp only [bind, Except.bind, List.getD_cons_zero, if_true] at h
      rcases hskip : skipStars mode pat 1 n q with f | q'
      · rw [hskip] at h
        cases h
      · rw [hskip] at h
        dsimp only at h
        split at h
        · cases h
        · rw [advance_unchecked hmode] at h
          exact matchTails_past hmode hs h
    · rw [stringmatchlen_one hq hc] at h
      rcases n with _ | n
      · exfalso
        rcases hrun : matchOne mode pat str 0 q s with f | _ | ⟨q', s'⟩
        · rw [hrun] at h
          cases h
        · exact matchOne_no_fuel hs hq hrun
        · rw [hrun] at h
          rcases hadv : q'.advance mode 1 with f | q''
          · simp only [Except.bind, hadv] at h
            cases h
          · simp only [Except.bind, hadv, skipStars, stringmatchlen] at h
            split at h <;> cases h
      rw [tokens_cons]
      rcases matchOne_past (n := n) hmode hs hq hc with
        ⟨hblind, q', b, hq', hrun⟩ | ⟨hempty, hrun⟩ | ⟨-, -, f, hrun⟩
      · rw [harmless_blind hblind]
        rw [hrun] at h
        simp only [Except.bind, hq'.advance, hs.next.len, if_false] at h
        exact ih hq'.next hs.next h
      · rw [hempty]
        rfl
      · rw [hrun] at h
        cases h

theorem past_of_harmless (hmode : mode.checked = false) {p : Bytes} :
    ∀ {n : ℕ} {q s : Cursor}, Points pat q p → Past str s → harmless (tokens p) = true →
    p.length + 2 ≤ n → stringmatchlen mode pat str n q s = .ok false := by
  induction h : p.length using Nat.strong_induction_on generalizing p with
  | h k ih =>
  subst h
  intro n q s hq hs hp hn
  obtain ⟨n, rfl⟩ : ∃ m, n = m + 2 := ⟨n - 2, by omega⟩
  rcases p with _ | ⟨c, p⟩
  · rw [stringmatchlen_nil hq, decide_eq_false hs.len]
  rw [List.length_cons] at hn ih
  by_cases hc : c = 42
  · subst hc
    rw [tokens_star] at hp
    cases hp
  rw [tokens_cons] at hp
  rw [stringmatchlen_one hq hc]
  rcases matchOne_past (n := n) hmode hs hq hc with
    ⟨hblind, q', b, hq', hrun⟩ | ⟨hempty, hrun⟩ | ⟨hblind, hother, f, hrun⟩
  · rw [harmless_blind hblind] at hp
    rw [hrun]
    simp only [Except.bind, hq'.advance, hs.next.len, if_false]
    have hrest := nextToken_length c p
    exact ih _ (by omega) rfl hq'.next hs.next hp (by omega)
  · rw [hrun]
    rfl
  · rcases harmless_cons hp with h | h
    · exact absurd h hblind
    · exact absurd h hother

end

end StringMatch

/-
Splitting a line into arguments, and printing an argument so that it can be read back.

A `const char *` is modelled by the bytes from it up to the end of the memory it points
into: `*p` is the first one, and reading behind the last one fails with `none`.

* `sdscatrepr` — an argument in quotes;
* `tokenStep`, `tokenLoop`, `splitLoop`, `sdssplitargs` — the parser;
* `tokenLoop_total`, `splitLoop_total` — it stays in the line and ends;
* `tokenStep_repr`, `tokenLoop_quoted` — it undoes every escape;
* `sdssplitargs_correct` — both together.
-/
import Mathlib.Data.List.Infix
import RedisModel.CommandArguments

namespace Sds

open RedisCommands (isspace isdigit)

/-! ### Printing -/

def backslash : UInt8 := 92
def doubleQuote : UInt8 := 34
def singleQuote : UInt8 := 39

def isprint (c : UInt8) : Bool := 32 ≤ c ∧ c ≤ 126

/-- A digit of `%02x`. -/
def hexDigit (d : UInt8) : UInt8 := if d < 10 then 48 + d else 87 + d

/-- What `sdscatrepr` writes for a byte. -/
def reprByte (c : UInt8) : Bytes :=
  if c = backslash ∨ c = doubleQuote then [backslash, c]
  else if c = 10 then [backslash, 'n'.toUInt8]
  else if c = 13 then [backslash, 'r'.toUInt8]
  else if c = 9 then [backslash, 't'.toUInt8]
  else if c = 7 then [backslash, 'a'.toUInt8]
  else if c = 8 then [backslash, 'b'.toUInt8]
  else if isprint c then [c]
  else [backslash, 'x'.toUInt8, hexDigit (c / 16), hexDigit (c % 16)]

def sdscatrepr (s p : Bytes) : Bytes :=
  s ++ doubleQuote :: p.flatMap reprByte ++ [doubleQuote]

/-! ### Parsing -/

def isHexDigit (c : UInt8) : Bool :=
  (48 ≤ c ∧ c ≤ 57) ∨ (97 ≤ c ∧ c ≤ 102) ∨ (65 ≤ c ∧ c ≤ 70)

def hexDigitToInt (c : UInt8) : UInt8 :=
  if 48 ≤ c ∧ c ≤ 57 then c - 48
  else if 97 ≤ c ∧ c ≤ 102 then c - 87
  else if 65 ≤ c ∧ c ≤ 70 then c - 55
  else 0

/-- The byte that a character behind a backslash stands for. -/
def escapedByte (c : UInt8) : UInt8 :=
  if c = 'n'.toUInt8 then 10
  else if c = 'r'.toUInt8 then 13
  else if c = 't'.toUInt8 then 9
  else if c = 'b'.toUInt8 then 8
  else if c = 'a'.toUInt8 then 7
  else c

/-- `*p == '\\' && *(p+1) == 'x' && is_hex_digit(*(p+2)) && is_hex_digit(*(p+3))`. -/
def atHexEscape (p : Bytes) : Option Bool := do
  let c ← p[0]?
  if c ≠ backslash then some false
  else do
    let c ← p[1]?
    if c ≠ 'x'.toUInt8 then some false
    else do
      let c ← p[2]?
      if !isHexDigit c then some false
      else do
        let c ← p[3]?
        some (isHexDigit c)

/-- `*p == '\\' && *(p+1)`. -/
def atEscape (p : Bytes) : Option Bool := do
  let c ← p[0]?
  if c ≠ backslash then some false
  else do
    let c ← p[1]?
    some (c ≠ 0)

/-- `*p == '\\' && *(p+1) == '\''`. -/
def atQuoteEscape (p : Bytes) : Option Bool := do
  let c ← p[0]?
  if c ≠ backslash then some false
  else do
    let c ← p[1]?
    some (c = singleQuote)

/-- A closing quote is followed by a space or nothing at all: not
`*(p+1) && !isspace(*(p+1))`. -/
def closes (p : Bytes) : Option Bool := do
  let c ← p[1]?
  some (c = 0 ∨ isspace c)

/-- How a round of the loop over a token ends: with `goto err`, or with new values of the
variables. -/
inductive Round where
  | err
  | next (p : Bytes) (inq insq : Bool) (current : Bytes) (done : Bool)
  deriving DecidableEq

/-- A round of `while(!done)`, without the `if (*p) p++` at its end. -/
def tokenStep (p : Bytes) (inq insq : Bool) (current : Bytes) : Option Round := do
  let c ← p[0]?
  if inq then do
    if ← atHexEscape p then do
      let h ← p[2]?
      let l ← p[3]?
      some (.next (p.drop 3) inq insq
        (current ++ [hexDigitToInt h * 16 + hexDigitToInt l]) false)
    else if ← atEscape p then do
      let c ← p[1]?
      some (.next (p.drop 1) inq insq (current ++ [escapedByte c]) false)
    else if c = doubleQuote then do
      if ← closes p then some (.next p inq insq current true) else some .err
    else if c = 0 then some .err
    else some (.next p inq insq (current ++ [c]) false)
  else if insq then do
    if ← atQuoteEscape p then
      some (.next (p.drop 1) inq insq (current ++ [singleQuote]) false)
    else if c = singleQuote then do
      if ← closes p then some (.next p inq insq current true) else some .err
    else if c = 0 then some .err
    else some (.next p inq insq (current ++ [c]) false)
  else if c = 32 ∨ c = 10 ∨ c = 13 ∨ c = 9 ∨ c = 0 then some (.next p inq insq current true)
  else if c = doubleQuote then some (.next p true insq current false)
  else if c = singleQuote then some (.next p inq true current false)
  else some (.next p inq insq (current ++ [c]) false)

/-- The loop over a token: the place behind it and the token; `none` inside is `goto err`. -/
def tokenLoop : ℕ → Bytes → Bool → Bool → Bytes → Option (Option (Bytes × Bytes))
  | 0, _, _, _, _ => none
  | fuel + 1, p, inq, insq, current => do
    match ← tokenStep p inq insq current with
    | .err => some none
    | .next p inq insq current done => do
      let c ← p[0]?
      let p := if c ≠ 0 then p.drop 1 else p
      if done then some (some (p, current)) else tokenLoop fuel p inq insq current

/-- `while(*p && isspace(*p)) p++`. -/
def skipBlanks : Bytes → Option Bytes
  | [] => none
  | c :: p => if c ≠ 0 ∧ isspace c then skipBlanks p else some (c :: p)

/-- The returned vector, `none` for `NULL`, and `*argc`. -/
structure SplitResult where
  vector : Option (List Bytes)
  argc : ℕ
  deriving DecidableEq

/-- The loop over the tokens. -/
def splitLoop : ℕ → Bytes → List Bytes → ℕ → Option SplitResult
  | 0, _, _, _ => none
  | fuel + 1, p, vector, argc => do
    let p ← skipBlanks p
    let c ← p[0]?
    if c ≠ 0 then do
      match ← tokenLoop (p.length + 1) p false false [] with
      | none => some ⟨none, 0⟩
      | some (p, current) => splitLoop fuel p (vector ++ [current]) (argc + 1)
    else some ⟨some vector, argc⟩

def sdssplitargs (line : Bytes) : Option SplitResult := splitLoop (line.length + 1) line [] 0

/-! ### Every line -/

section
variable {q : Bytes}

theorem ne_zero_of_cons {c : UInt8} {t : Bytes} (h : 0 ∉ c :: t) : c ≠ 0 ∧ 0 ∉ t :=
  ⟨fun hc => h (hc ▸ List.mem_cons_self), List.not_mem_of_not_mem_cons h⟩

theorem atHexEscape_total (q : Bytes) : ∃ b, atHexEscape (q ++ [0]) = some b ∧
    (b = true → ∃ c₀ c₁ c₂ c₃ t, q = c₀ :: c₁ :: c₂ :: c₃ :: t) := by
  have hx : (0 : UInt8) ≠ 'x'.toUInt8 := by decide
  have hno : false = true → ∃ c₀ c₁ c₂ c₃ t, q = c₀ :: c₁ :: c₂ :: c₃ :: t :=
    fun h => absurd h Bool.false_ne_true
  rcases q with _ | ⟨c₀, _ | ⟨c₁, _ | ⟨c₂, _ | ⟨c₃, t⟩⟩⟩⟩
  · exact ⟨false, rfl, hno⟩
  · refine ⟨false, ?_, hno⟩
    by_cases h₀ : c₀ = backslash <;> simp [atHexEscape, h₀, hx]
  · refine ⟨false, ?_, hno⟩
    by_cases h₀ : c₀ = backslash <;> by_cases h₁ : c₁ = 'x'.toUInt8 <;>
      simp [atHexEscape, h₀, h₁, isHexDigit]
  · refine ⟨false, ?_, hno⟩
    by_cases h₀ : c₀ = backslash <;> by_cases h₁ : c₁ = 'x'.toUInt8 <;>
      simp [atHexEscape, h₀, h₁, isHexDigit]
  · refine ⟨decide (c₀ = backslash ∧ c₁ = 'x'.toUInt8 ∧ isHexDigit c₂ ∧ isHexDigit c₃), ?_,
      fun _ => ⟨c₀, c₁, c₂, c₃, t, rfl⟩⟩
    by_cases h₀ : c₀ = backslash <;> by_cases h₁ : c₁ = 'x'.toUInt8 <;>
      by_cases h₂ : isHexDigit c₂ = true <;> simp [atHexEscape, h₀, h₁, h₂]

theorem atEscape_total (h : 0 ∉ q) : ∃ b, atEscape (q ++ [0]) = some b ∧
    (b = true → ∃ c₀ c₁ t, q = c₀ :: c₁ :: t) := by
  rcases q with _ | ⟨c₀, _ | ⟨c₁, t⟩⟩
  · exact ⟨false, rfl, fun h => absurd h Bool.false_ne_true⟩
  · refine ⟨false, ?_, fun h => absurd h Bool.false_ne_true⟩
    by_cases h₀ : c₀ = backslash <;> simp [atEscape, h₀]
  · refine ⟨decide (c₀ = backslash), ?_, fun _ => ⟨c₀, c₁, t, rfl⟩⟩
    have h₁ : c₁ ≠ 0 := (ne_zero_of_cons (ne_zero_of_cons h).2).1
    by_cases h₀ : c₀ = backslash <;> simp [atEscape, h₀, h₁]

theorem atQuoteEscape_total (q : Bytes) : ∃ b, atQuoteEscape (q ++ [0]) = some b ∧
    (b = true → ∃ c₀ c₁ t, q = c₀ :: c₁ :: t) := by
  have hquote : (0 : UInt8) ≠ singleQuote := by decide
  rcases q with _ | ⟨c₀, _ | ⟨c₁, t⟩⟩
  · exact ⟨false, rfl, fun h => absurd h Bool.false_ne_true⟩
  · refine ⟨false, ?_, fun h => absurd h Bool.false_ne_true⟩
    by_cases h₀ : c₀ = backslash <;> simp [atQuoteEscape, h₀, hquote]
  · refine ⟨decide (c₀ = backslash ∧ c₁ = singleQuote), ?_, fun _ => ⟨c₀, c₁, t, rfl⟩⟩
    by_cases h₀ : c₀ = backslash <;> simp [atQuoteEscape, h₀]

theorem closes_total (c : UInt8) (t : Bytes) : ∃ b, closes (c :: t ++ [0]) = some b := by
  cases t with
  | nil => exact ⟨_, rfl⟩
  | cons d t => exact ⟨_, rfl⟩

/-- A round stays in the line and, unless it is the last one, before its end. -/
theorem tokenStep_total (inq insq : Bool) (current : Bytes) (h : 0 ∉ q) :
    ∃ r, tokenStep (q ++ [0]) inq insq current = some r ∧
    ∀ p inq' insq' current' done, r = .next p inq' insq' current' done →
      ∃ q', p = q' ++ [0] ∧ q' <:+ q ∧ (done = false → q' ≠ []) := by
  obtain ⟨hex, hhex, hhex'⟩ := atHexEscape_total q
  obtain ⟨esc, hesc, hesc'⟩ := atEscape_total h
  obtain ⟨quo, hquo, hquo'⟩ := atQuoteEscape_total q
  -- a round that leaves the place where it is
  have hstay : ∀ (i s : Bool) (cur : Bytes) (d : Bool), (d = false → q ≠ []) →
      ∀ p inq' insq' current' done, Round.next (q ++ [0]) i s cur d
        = .next p inq' insq' current' done →
      ∃ q', p = q' ++ [0] ∧ q' <:+ q ∧ (done = false → q' ≠ []) := by
    intro i s cur d hd p inq' insq' current' done heq
    obtain ⟨rfl, rfl, rfl, rfl, rfl⟩ := Round.next.inj heq
    exact ⟨q, rfl, List.suffix_refl q, hd⟩
  have herr : ∀ p inq' insq' current' done, Round.err = .next p inq' insq' current' done →
      ∃ q', p = q' ++ [0] ∧ q' <:+ q ∧ (done = false → q' ≠ []) :=
    fun _ _ _ _ _ heq => Round.noConfusion heq
  -- a round that goes on to a place before the end
  have hgo : ∀ (i s : Bool) (cur : Bytes) (t : Bytes), t <:+ q → t ≠ [] →
      ∀ p inq' insq' current' done, Round.next (t ++ [0]) i s cur false
        = .next p inq' insq' current' done →
      ∃ q', p = q' ++ [0] ∧ q' <:+ q ∧ (done = false → q' ≠ []) := by
    intro i s cur t hsuffix hne p inq' insq' current' done heq
    obtain ⟨rfl, rfl, rfl, rfl, rfl⟩ := Round.next.inj heq
    exact ⟨t, rfl, hsuffix, fun _ => hne⟩
  cases q with
  | nil =>
    cases inq with
    | true => exact ⟨.err, rfl, herr⟩
    | false =>
      cases insq with
      | true => exact ⟨.err, rfl, herr⟩
      | false => exact ⟨_, rfl, hstay _ _ _ _ fun hd => absurd hd.symm Bool.false_ne_true⟩
  | cons c t =>
    obtain ⟨hc, -⟩ := ne_zero_of_cons h
    obtain ⟨close, hclose⟩ := closes_total c t
    have hread : (c :: t ++ [0])[0]? = some c := rfl
    have hne : c :: t ≠ [] := List.cons_ne_nil c t
    simp only [tokenStep, hread, hhex, hesc, hquo, hclose, Option.bind_eq_bind, Option.bind_some]
    cases inq with
    | true =>
      rw [if_pos rfl]
      cases hex with
      | true =>
        obtain ⟨c₀, c₁, c₂, c₃, t', hq⟩ := hhex' rfl
        rw [hq] at hgo ⊢
        exact ⟨_, rfl, hgo _ _ _ (c₃ :: t') ⟨[c₀, c₁, c₂], rfl⟩ (List.cons_ne_nil _ _)⟩
      | false =>
        rw [if_neg Bool.false_ne_true]
        cases esc with
        | true =>
          obtain ⟨c₀, c₁, t', hq⟩ := hesc' rfl
          rw [hq] at hgo ⊢
          exact ⟨_, rfl, hgo _ _ _ (c₁ :: t') ⟨[c₀], rfl⟩ (List.cons_ne_nil _ _)⟩
        | false =>
          rw [if_neg Bool.false_ne_true]
          split_ifs
          · exact ⟨_, rfl, hstay _ _ _ _ fun _ => hne⟩
          · exact ⟨_, rfl, herr⟩
          · exact ⟨_, rfl, hstay _ _ _ _ fun _ => hne⟩
    | false =>
      rw [if_neg Bool.false_ne_true]
      cases insq with
      | true =>
        rw [if_pos rfl]
        cases quo with
        | true =>
          obtain ⟨c₀, c₁, t', hq⟩ := hquo' rfl
          rw [hq] at hgo ⊢
          exact ⟨_, rfl, hgo _ _ _ (c₁ :: t') ⟨[c₀], rfl⟩ (List.cons_ne_nil _ _)⟩
        | false =>
          rw [if_neg Bool.false_ne_true]
          split_ifs
          · exact ⟨_, rfl, hstay _ _ _ _ fun _ => hne⟩
          · exact ⟨_, rfl, herr⟩
          · exact ⟨_, rfl, hstay _ _ _ _ fun _ => hne⟩
      | false =>
        rw [if_neg Bool.false_ne_true]
        split_ifs
        all_goals exact ⟨_, rfl, hstay _ _ _ _ fun _ => hne⟩

theorem tokenLoop_total (inq insq : Bool) (current : Bytes) (h : 0 ∉ q) {fuel : ℕ}
    (hfuel : q.length < fuel) :
    ∃ r, tokenLoop fuel (q ++ [0]) inq insq current = some r ∧
      ∀ p token, r = some (p, token) → ∃ q', p = q' ++ [0] ∧ q' <:+ q := by
  induction fuel generalizing q inq insq current with
  | zero => exact absurd hfuel (Nat.not_lt_zero _)
  | succ fuel ih =>
    obtain ⟨r, hr, hnext⟩ := tokenStep_total inq insq current h
    simp only [tokenLoop, hr, Option.bind_eq_bind, Option.bind_some]
    cases r with
    | err => exact ⟨none, rfl, fun _ _ heq => absurd heq (by simp)⟩
    | next p inq' insq' current' done =>
      obtain ⟨q', rfl, hsuffix, hne⟩ := hnext p inq' insq' current' done rfl
      have h' : 0 ∉ q' := fun h0 => h (hsuffix.mem h0)
      cases q' with
      | nil =>
        -- only the last round ends at the null byte
        cases done with
        | false => exact absurd rfl (hne rfl)
        | true =>
          refine ⟨_, rfl, fun p token heq => ?_⟩
          obtain ⟨rfl, -⟩ := Prod.mk.inj (Option.some_inj.mp heq)
          exact ⟨[], rfl, hsuffix⟩
      | cons c t =>
        obtain ⟨hc, ht⟩ := ne_zero_of_cons h'
        have hread : (c :: t ++ [0])[0]? = some c := rfl
        have hsuffix' : t <:+ q := (List.suffix_cons c t).trans hsuffix
        have hmove : (if c ≠ 0 then (c :: t ++ [0]).drop 1 else c :: t ++ [0]) = t ++ [0] :=
          if_pos hc
        simp only [hread, Option.bind_some, hmove]
        cases done with
        | true =>
          refine ⟨_, rfl, fun p token heq => ?_⟩
          obtain ⟨rfl, -⟩ := Prod.mk.inj (Option.some_inj.mp heq)
          exact ⟨t, rfl, hsuffix'⟩
        | false =>
          have hlen := hsuffix.length_le
          rw [List.length_cons] at hlen
          have hfuel' : t.length < fuel := by omega
          obtain ⟨r, hr, hend⟩ := ih inq' insq' current' ht hfuel'
          refine ⟨r, hr, fun p token heq => ?_⟩
          obtain ⟨q'', hq'', hs⟩ := hend p token heq
          exact ⟨q'', hq'', hs.trans hsuffix'⟩

theorem skipBlanks_total (h : 0 ∉ q) : ∃ t, skipBlanks (q ++ [0]) = some (t ++ [0]) ∧ t <:+ q ∧
    ∀ c t', t = c :: t' → ¬isspace c = true := by
  induction q with
  | nil => exact ⟨[], rfl, List.suffix_refl [], fun c t' heq => absurd heq.symm (by simp)⟩
  | cons c q ih =>
    obtain ⟨hc, hq⟩ := ne_zero_of_cons h
    rw [List.cons_append, skipBlanks]
    by_cases hspace : isspace c = true
    · obtain ⟨t, hskip, hsuffix, hblank⟩ := ih hq
      rw [if_pos ⟨hc, hspace⟩]
      exact ⟨t, hskip, hsuffix.trans (List.suffix_cons c q), hblank⟩
    · rw [if_neg fun h => hspace h.2]
      refine ⟨c :: q, rfl, List.suffix_refl _, fun c' t' heq => ?_⟩
      obtain ⟨rfl, -⟩ := List.cons.inj heq
      exact hspace

theorem tokenStep_start {c : UInt8} {t : Bytes} (hc : c ≠ 0) (hspace : ¬isspace c = true) :
    ∃ i s cur, tokenStep (c :: t) false false [] = some (.next (c :: t) i s cur false) := by
  have hplain : ¬(c = 32 ∨ c = 10 ∨ c = 13 ∨ c = 9 ∨ c = 0) := by
    rintro (rfl | rfl | rfl | rfl | rfl)
    · exact hspace rfl
    · exact hspace rfl
    · exact hspace rfl
    · exact hspace rfl
    · exact hc rfl
  have hread : (c :: t)[0]? = some c := rfl
  simp only [tokenStep, hread, Option.bind_eq_bind, Option.bind_some, Bool.false_eq_true,
    if_false, if_neg hplain]
  split_ifs
  all_goals exact ⟨_, _, _, rfl⟩

theorem splitLoop_total (h : 0 ∉ q) {fuel : ℕ} (hfuel : q.length < fuel) (vector : List Bytes) :
    ∃ r, splitLoop fuel (q ++ [0]) vector vector.length = some r ∧
      (r = ⟨none, 0⟩ ∨ ∃ tokens, r = ⟨some tokens, tokens.length⟩) := by
  induction fuel generalizing q vector with
  | zero => exact absurd hfuel (Nat.not_lt_zero _)
  | succ fuel ih =>
    obtain ⟨t, hskip, hsuffix, hblank⟩ := skipBlanks_total h
    simp only [splitLoop, hskip, Option.bind_eq_bind, Option.bind_some]
    cases t with
    | nil => exact ⟨_, rfl, .inr ⟨vector, rfl⟩⟩
    | cons c t =>
      obtain ⟨hc, ht⟩ := ne_zero_of_cons fun h0 => h (hsuffix.mem h0)
      have hspace := hblank c t rfl
      have hread : (c :: t ++ [0])[0]? = some c := rfl
      obtain ⟨i, s, cur, hfirst⟩ := tokenStep_start (t := t ++ [0]) hc hspace
      have hlen : (c :: t ++ [0]).length = t.length + 1 + 1 := by simp
      obtain ⟨r, hr, hend⟩ := tokenLoop_total i s cur ht
        (Nat.lt_succ_of_lt (Nat.lt_succ_self t.length))
      have hloop : tokenLoop (t.length + 1 + 1 + 1) (c :: t ++ [0]) false false [] = some r := by
        rw [List.cons_append, tokenLoop, hfirst]
        simp only [← List.cons_append, Option.bind_eq_bind, Option.bind_some, hread, if_pos hc,
          Bool.false_eq_true, if_false]
        exact hr
      simp only [hread, Option.bind_some, if_pos hc, hlen, hloop]
      cases r with
      | none => exact ⟨_, rfl, .inl rfl⟩
      | some token =>
        obtain ⟨q', hq', hs⟩ := hend token.1 token.2 rfl
        have h' : 0 ∉ q' := fun h0 => ht (hs.mem h0)
        have hle := hs.length_le
        have hle' := hsuffix.length_le
        rw [List.length_cons] at hle'
        obtain ⟨r, hr, hres⟩ := ih h' (by omega) (vector ++ [token.2])
        rw [List.length_append, List.length_singleton] at hr
        refine ⟨r, ?_, hres⟩
        rw [← hr, ← hq']

end

/-! ### Reading back what was printed -/

theorem hexDigitToInt_hexDigit {d : UInt8} (h : d < 16) :
    isHexDigit (hexDigit d) = true ∧ hexDigitToInt (hexDigit d) = d := by
  have hall : ∀ n < 16, isHexDigit (hexDigit (UInt8.ofNat n)) = true ∧
      hexDigitToInt (hexDigit (UInt8.ofNat n)) = UInt8.ofNat n := by decide
  have hd := hall d.toNat (UInt8.lt_iff_toNat_lt.mp h)
  rwa [UInt8.ofNat_toNat] at hd

theorem hex_byte (c : UInt8) :
    hexDigitToInt (hexDigit (c / 16)) * 16 + hexDigitToInt (hexDigit (c % 16)) = c := by
  have hc := c.toNat_lt
  have hhigh : c / 16 < 16 := by
    rw [UInt8.lt_iff_toNat_lt, UInt8.toNat_div]
    exact Nat.div_lt_of_lt_mul hc
  have hlow : c % 16 < 16 := by
    rw [UInt8.lt_iff_toNat_lt, UInt8.toNat_mod]
    exact Nat.mod_lt _ (by decide)
  rw [(hexDigitToInt_hexDigit hhigh).2, (hexDigitToInt_hexDigit hlow).2, ← UInt8.toNat_inj,
    UInt8.toNat_add, UInt8.toNat_mul, UInt8.toNat_div, UInt8.toNat_mod]
  have h16 : (16 : UInt8).toNat = 16 := rfl
  rw [h16]
  omega

theorem tokenStep_repr (c : UInt8) (t current : Bytes) :
    ∃ e, e ≠ 0 ∧ tokenStep (reprByte c ++ t) true false current
      = some (.next (e :: t) true false (current ++ [c]) false) := by
  unfold reprByte
  split_ifs with h₁ h₂ h₃ h₄ h₅ h₆ h₇
  · rcases h₁ with rfl | rfl
    · exact ⟨backslash, by decide, rfl⟩
    · exact ⟨doubleQuote, by decide, rfl⟩
  · subst h₂
    exact ⟨'n'.toUInt8, by decide, rfl⟩
  · subst h₃
    exact ⟨'r'.toUInt8, by decide, rfl⟩
  · subst h₄
    exact ⟨'t'.toUInt8, by decide, rfl⟩
  · subst h₅
    exact ⟨'a'.toUInt8, by decide, rfl⟩
  · subst h₆
    exact ⟨'b'.toUInt8, by decide, rfl⟩
  · -- a printable character stands for itself
    have hc : c ≠ 0 := by
      rintro rfl
      exact absurd h₇ (by decide)
    rw [not_or] at h₁
    refine ⟨c, hc, ?_⟩
    simp [tokenStep, atHexEscape, atEscape, h₁.1, h₁.2, hc]
  · have hhigh : c / 16 < 16 := by
      rw [UInt8.lt_iff_toNat_lt, UInt8.toNat_div]
      exact Nat.div_lt_of_lt_mul c.toNat_lt
    have hlow : c % 16 < 16 := by
      rw [UInt8.lt_iff_toNat_lt, UInt8.toNat_mod]
      exact Nat.mod_lt _ (by decide)
    refine ⟨hexDigit (c % 16), ?_, ?_⟩
    · intro h0
      have hdigit := (hexDigitToInt_hexDigit hlow).1
      rw [h0] at hdigit
      exact absurd hdigit (by decide)
    · have hhex : atHexEscape (backslash :: 'x'.toUInt8 :: hexDigit (c / 16) ::
          hexDigit (c % 16) :: t) = some true := by
        simp [atHexEscape, (hexDigitToInt_hexDigit hhigh).1, (hexDigitToInt_hexDigit hlow).1]
      simp [tokenStep, hhex, hex_byte]

theorem tokenLoop_quoted {rest : Bytes} {d : UInt8} (hrest : rest[0]? = some d)
    (hd : d = 0 ∨ isspace d = true) (a current : Bytes) (fuel : ℕ) :
    tokenLoop (a.length + (fuel + 1)) (a.flatMap reprByte ++ doubleQuote :: rest) true false
      current = some (some (rest, current ++ a)) := by
  induction a generalizing current with
  | nil =>
    have hclose : closes (doubleQuote :: rest) = some true := by
      have hread : (doubleQuote :: rest)[1]? = rest[0]? := rfl
      simp [closes, hread, hrest, hd]
    have hhex : atHexEscape (doubleQuote :: rest) = some false := rfl
    have hesc : atEscape (doubleQuote :: rest) = some false := rfl
    have hquote : doubleQuote ≠ 0 := by decide
    simp [tokenLoop, tokenStep, hhex, hesc, hclose, hquote]
  | cons c a ih =>
    obtain ⟨e, he, hstep⟩ := tokenStep_repr c (a.flatMap reprByte ++ doubleQuote :: rest) current
    have hmove : (if e ≠ 0 then (e :: (a.flatMap reprByte ++ doubleQuote :: rest)).drop 1
        else e :: (a.flatMap reprByte ++ doubleQuote :: rest))
        = a.flatMap reprByte ++ doubleQuote :: rest := if_pos he
    have hread : (e :: (a.flatMap reprByte ++ doubleQuote :: rest))[0]? = some e := rfl
    rw [List.length_cons, Nat.succ_add_eq_add_succ, Nat.add_succ, List.flatMap_cons,
      List.append_assoc, tokenLoop, hstep]
    simp only [Option.bind_eq_bind, Option.bind_some, hread, hmove, Bool.false_eq_true, if_false]
    rw [ih, List.append_assoc, List.singleton_append]

/-- The renderings of the arguments, joined by single spaces. -/
def joinRepr (args : List Bytes) : Bytes := [32].intercalate (args.map (sdscatrepr []))

theorem joinRepr_cons (a : Bytes) (args : List Bytes) : joinRepr (a :: args)
    = doubleQuote :: (a.flatMap reprByte ++ doubleQuote ::
      if args = [] then [] else 32 :: joinRepr args) := by
  have hrepr : ∀ x : Bytes, sdscatrepr [] a ++ x
      = doubleQuote :: (a.flatMap reprByte ++ doubleQuote :: x) := by
    intro x
    simp [sdscatrepr]
  rw [← hrepr]
  cases args with
  | nil => simp [joinRepr]
  | cons b args =>
    rw [if_neg (List.cons_ne_nil b args)]
    simp [joinRepr, List.intercalate]

theorem length_le_flatMap_reprByte (a : Bytes) : a.length ≤ (a.flatMap reprByte).length := by
  induction a with
  | nil => exact le_refl 0
  | cons c a ih =>
    have hc : 1 ≤ (reprByte c).length := by
      unfold reprByte
      split_ifs
      all_goals simp
    rw [List.flatMap_cons, List.length_append, List.length_cons]
    omega

theorem splitLoop_space (fuel : ℕ) (p : Bytes) (vector : List Bytes) (argc : ℕ) :
    splitLoop fuel (32 :: p) vector argc = splitLoop fuel p vector argc := by
  cases fuel with
  | zero => rfl
  | succ fuel =>
    have hskip : skipBlanks (32 :: p) = skipBlanks p := rfl
    rw [splitLoop, splitLoop, hskip]

theorem splitLoop_joinRepr (args vector : List Bytes) (argc : ℕ) {fuel : ℕ}
    (hfuel : args.length < fuel) : splitLoop fuel (joinRepr args ++ [0]) vector argc
      = some ⟨some (vector ++ args), argc + args.length⟩ := by
  induction args generalizing vector argc fuel with
  | nil =>
    obtain ⟨fuel, rfl⟩ := Nat.exists_eq_add_of_lt hfuel
    rw [List.append_nil]
    rfl
  | cons a args ih =>
    obtain ⟨fuel, rfl⟩ := Nat.exists_eq_add_of_lt hfuel
    set rest : Bytes := (if args = [] then [] else 32 :: joinRepr args) ++ [0] with hrest
    have hline : joinRepr (a :: args) ++ [0]
        = doubleQuote :: (a.flatMap reprByte ++ doubleQuote :: rest) := by
      rw [joinRepr_cons, List.cons_append, List.append_assoc, List.cons_append]
    obtain ⟨d, hd, hd'⟩ : ∃ d, rest[0]? = some d ∧ (d = 0 ∨ isspace d = true) := by
      rw [hrest]
      split_ifs
      · exact ⟨0, rfl, .inl rfl⟩
      · exact ⟨32, rfl, .inr rfl⟩
    have hskip : skipBlanks (doubleQuote :: (a.flatMap reprByte ++ doubleQuote :: rest))
        = some (doubleQuote :: (a.flatMap reprByte ++ doubleQuote :: rest)) := rfl
    have hread : (doubleQuote :: (a.flatMap reprByte ++ doubleQuote :: rest))[0]?
        = some doubleQuote := rfl
    have hquote : doubleQuote ≠ 0 := by decide
    -- the opening quote takes the first round
    have hopen : ∀ k, tokenLoop (k + 1) (doubleQuote :: (a.flatMap reprByte ++ doubleQuote :: rest))
        false false [] = tokenLoop k (a.flatMap reprByte ++ doubleQuote :: rest) true false [] :=
      fun _ => rfl
    have htoken : tokenLoop
        ((doubleQuote :: (a.flatMap reprByte ++ doubleQuote :: rest)).length + 1)
        (doubleQuote :: (a.flatMap reprByte ++ doubleQuote :: rest)) false false []
        = some (some (rest, a)) := by
      have hlen := length_le_flatMap_reprByte a
      have hcount : (doubleQuote :: (a.flatMap reprByte ++ doubleQuote :: rest)).length
          = a.length + ((a.flatMap reprByte).length - a.length + rest.length + 1 + 1) := by
        rw [List.length_cons, List.length_append, List.length_cons]
        omega
      rw [hopen, hcount, tokenLoop_quoted hd hd', List.nil_append]
    rw [hline, splitLoop, hskip]
    simp only [Option.bind_eq_bind, Option.bind_some, hread, if_pos hquote, htoken]
    have hnext : splitLoop ((a :: args).length + fuel) rest (vector ++ [a]) (argc + 1)
        = splitLoop ((a :: args).length + fuel) (joinRepr args ++ [0]) (vector ++ [a])
          (argc + 1) := by
      rw [hrest]
      split_ifs with hargs
      · rw [hargs]
        rfl
      · exact splitLoop_space _ _ _ _
    rw [hnext, ih _ _ (by rw [List.length_cons]; omega), List.append_assoc, List.singleton_append,
      List.length_cons, Nat.add_assoc, Nat.add_comm 1]

theorem sdssplitargs_joinRepr (args : List Bytes) :
    sdssplitargs (joinRepr args ++ [0]) = some ⟨some args, args.length⟩ := by
  have hlen : args.length ≤ (joinRepr args).length := by
    induction args with
    | nil => exact Nat.zero_le _
    | cons a args ih =>
      rw [joinRepr_cons, List.length_cons, List.length_cons, List.length_append,
        List.length_cons]
      split_ifs with hargs
      · rw [hargs, List.length_nil]
        omega
      · rw [List.length_cons]
        omega
  have hfuel : args.length < (joinRepr args ++ [0]).length + 1 := by
    rw [List.length_append]
    omega
  have hloop := splitLoop_joinRepr args [] 0 hfuel
  rwa [List.nil_append, Nat.zero_add] at hloop

theorem sdssplitargs_total {line : Bytes} (h : 0 ∉ line) :
    ∃ r, sdssplitargs (line ++ [0]) = some r ∧
      (r = ⟨none, 0⟩ ∨ ∃ tokens, r = ⟨some tokens, tokens.length⟩) :=
  splitLoop_total h (by rw [List.length_append]; omega) []

/-- What `sdscatrepr` prints is read back, and every line that ends with a null byte is split
into tokens, or not at all, without a look behind that byte. -/
theorem sdssplitargs_correct :
    (∀ args : List Bytes, sdssplitargs (joinRepr args ++ [0]) = some ⟨some args, args.length⟩) ∧
    ∀ line : Bytes, 0 ∉ line → ∃ r, sdssplitargs (line ++ [0]) = some r ∧
      (r = ⟨none, 0⟩ ∨ ∃ tokens, r = ⟨some tokens, tokens.length⟩) :=
  ⟨sdssplitargs_joinRepr, fun _ h => sdssplitargs_total h⟩

/-- Two arguments, one of them empty, and a line with a quote that is not closed. -/
theorem sdssplitargs_correct_two :
    sdssplitargs (joinRepr [[], [0, doubleQuote, backslash]] ++ [0])
      = some ⟨some [[], [0, doubleQuote, backslash]], 2⟩ ∧
    ∃ r, sdssplitargs ([97, 32, doubleQuote] ++ [0]) = some r ∧
      (r = ⟨none, 0⟩ ∨ ∃ tokens, r = ⟨some tokens, tokens.length⟩) :=
  ⟨sdssplitargs_correct.1 _, sdssplitargs_correct.2 _ (by decide)⟩

end Sds

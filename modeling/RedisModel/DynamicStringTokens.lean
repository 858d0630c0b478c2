/-
The tokens of `sdssplitlen`.

* `SplitRight` — the tokens with separators between them are the text, and contain none;
* `Found` — what the loop has found;
* `splitRight_iff` — a text is split into its tokens unless there are too many of them.
-/
import RedisModel.DynamicStringSpec

open ByteBuffer

namespace DynamicString

/-! ### Tokens -/

/-- What follows the first separator. -/
def afterSeparator (sep : Bytes) : Bytes → Option Bytes
  | [] => none
  | c :: s => if sep.isPrefixOf (c :: s) then some ((c :: s).drop sep.length)
    else afterSeparator sep s

/-- What follows the first `k` separators; these do not overlap. -/
def afterSeparators (sep : Bytes) : ℕ → Bytes → Option Bytes
  | 0, s => some s
  | k + 1, s => (afterSeparator sep s).bind (afterSeparators sep k)

/-- The largest number of tokens for which there are slots. -/
def maxTokens : ℕ := 5 * 2 ^ 28

/-- If there are `maxTokens` tokens, no separator fits into what follows the last separator. -/
def FewTokens (sep : Bytes) (elements : ℕ) (s : Bytes) : Prop :=
  ∀ k rest, elements + k + 1 = maxTokens → afterSeparators sep k s = some rest →
    rest.length < sep.length

/-- The tokens, with separators between them, are the text, and none of them contains the
separator. -/
def SplitRight (s sep : Bytes) : Prop :=
  ∃ tokens, sdssplitlen s sep = some tokens ∧ sep.intercalate tokens = s ∧
    ∀ token ∈ tokens, ¬sep <:+: token

/-- The array is not full, and its size is one that was reached by doublings. -/
structure Tokens.Ok (t : Tokens) : Prop where
  size : ∃ i, i ≤ 28 ∧ t.slots = 5 * 2 ^ i
  room : t.elements.length + 1 ≤ t.slots

theorem Tokens.Ok.le {t : Tokens} (h : t.Ok) : t.elements.length + 1 ≤ maxTokens := by
  obtain ⟨i, hi, hslots⟩ := h.size
  have hroom := h.room
  have hpow : (2 : ℤ) ^ i ≤ 2 ^ 28 := pow_le_pow_right₀ (by decide) hi
  rw [maxTokens]
  omega

theorem Tokens.Ok.reserve {t : Tokens} (h : t.Ok) (hlt : t.elements.length + 1 < maxTokens) :
    ∃ t', t.reserve = some t' ∧ t'.elements = t.elements ∧ t'.Ok ∧
      (t.elements.length + 2 : ℤ) ≤ t'.slots := by
  have hroom := h.room
  rw [Tokens.reserve]
  split
  · rename_i hfull
    obtain ⟨i, hi, hslots⟩ := h.size
    rw [maxTokens] at hlt
    have hi28 : i ≠ 28 := by
      rintro rfl
      omega
    have hpow : (2 : ℤ) ^ (i + 1) ≤ 2 ^ 28 := pow_le_pow_right₀ (by decide) (by omega)
    have hdouble : t.slots * 2 = 5 * 2 ^ (i + 1) := by
      rw [hslots, pow_succ, mul_assoc]
    have hint : toInt (t.slots * 2) = t.slots * 2 := toInt_eq (by omega) (by omega)
    rw [hint, if_neg (by omega)]
    exact ⟨_, rfl, rfl, ⟨⟨i + 1, by omega, hdouble⟩, by dsimp only; omega⟩, by dsimp only; omega⟩
  · exact ⟨t, rfl, rfl, h, by omega⟩

/-- With `maxTokens` tokens the allocation fails. -/
theorem Tokens.Ok.reserve_full {t : Tokens} (h : t.Ok) (hfull : t.elements.length + 1 = maxTokens) :
    t.reserve = none := by
  obtain ⟨i, hi, hslots⟩ := h.size
  have hroom := h.room
  have hpow : (2 : ℤ) ^ i ≤ 2 ^ 28 := pow_le_pow_right₀ (by decide) hi
  rw [maxTokens] at hfull
  have hmax : t.slots = 5 * 2 ^ 28 := by omega
  have hneg : toInt (5 * 2 ^ 28 * 2) < 0 := by decide +kernel
  rw [Tokens.reserve, if_pos (by omega), hmax, if_pos hneg]

section
variable {s sep : Bytes}

theorem afterSeparator_of_short {r : Bytes} (h : r.length < sep.length) :
    afterSeparator sep r = none := by
  induction r with
  | nil => rfl
  | cons c r ih =>
    rw [afterSeparator, if_neg, ih (Nat.lt_of_succ_lt h)]
    intro hstarts
    have hle := (List.isPrefixOf_iff_prefix.mp hstarts).length_le
    omega

theorem FewTokens.of_short {e : ℕ} {r : Bytes} (h : r.length < sep.length) :
    FewTokens sep e r := by
  rintro k rest - hrest
  cases k with
  | zero =>
    obtain rfl := Option.some_inj.mp hrest
    exact h
  | succ k =>
    rw [afterSeparators, afterSeparator_of_short h] at hrest
    cases hrest

theorem fewTokens_of_starts {e : ℕ} {r : Bytes} (hsep : sep ≠ []) (hstarts : sep <+: r)
    (he : e + 1 < maxTokens) :
    FewTokens sep e r ↔ FewTokens sep (e + 1) (r.drop sep.length) := by
  obtain ⟨c, r, rfl⟩ : ∃ c r', r = c :: r' := by
    refine List.exists_cons_of_ne_nil fun hnil => hsep ?_
    rw [hnil] at hstarts
    exact List.prefix_nil.mp hstarts
  have hnext : ∀ k, afterSeparators sep (k + 1) (c :: r)
      = afterSeparators sep k ((c :: r).drop sep.length) := fun k => by
    rw [afterSeparators, afterSeparator, if_pos (List.isPrefixOf_iff_prefix.mpr hstarts),
      Option.bind_some]
  constructor
  · intro h k rest hk hrest
    exact h (k + 1) rest (by omega) ((hnext k).trans hrest)
  · intro h k rest hk hrest
    cases k with
    | zero => omega
    | succ k => exact h k rest (by omega) ((hnext k).symm.trans hrest)

theorem fewTokens_of_byte {e : ℕ} {c : UInt8} {r : Bytes} (hstarts : ¬sep <+: c :: r)
    (he : e + 1 < maxTokens) : FewTokens sep e (c :: r) ↔ FewTokens sep e r := by
  have hnext : ∀ k, afterSeparators sep (k + 1) (c :: r) = afterSeparators sep (k + 1) r :=
    fun k => by
      rw [afterSeparators, afterSeparators, afterSeparator,
        if_neg fun h => hstarts (List.isPrefixOf_iff_prefix.mp h)]
  refine forall₂_congr fun k rest => forall_congr' fun hk => ?_
  cases k with
  | zero => omega
  | succ k => rw [hnext]

theorem afterSeparators_length (hsep : sep ≠ []) {k : ℕ} {r rest : Bytes}
    (h : afterSeparators sep k r = some rest) : rest.length + k ≤ r.length := by
  induction k generalizing r with
  | zero =>
    obtain rfl := Option.some_inj.mp h
    exact le_rfl
  | succ k ih =>
    obtain ⟨r', hafter, hrest⟩ := Option.bind_eq_some_iff.mp h
    have hle := ih hrest
    have hlt : r'.length < r.length := by
      clear h hle
      induction r with
      | nil => cases hafter
      | cons c r ihr =>
        rw [afterSeparator] at hafter
        split at hafter
        · obtain rfl := Option.some_inj.mp hafter
          have hpos := List.length_pos_of_ne_nil hsep
          rw [List.length_drop, List.length_cons]
          omega
        · exact Nat.lt_succ_of_lt (ihr hafter)
    omega

theorem fewTokens_of_length (hsep : sep ≠ []) {r : Bytes} (h : r.length + 1 < maxTokens) :
    FewTokens sep 0 r := by
  intro k rest hk hrest
  have hle := afterSeparators_length hsep hrest
  omega

theorem intercalate_concat (tokens : List Bytes) (last : Bytes) :
    sep.intercalate (tokens ++ [last]) = (tokens.map (· ++ sep)).flatten ++ last := by
  induction tokens with
  | nil =>
    rw [List.nil_append, List.intercalate, List.intersperse_singleton, List.flatten_singleton]
    rfl
  | cons token tokens ih =>
    obtain ⟨a, l, hl⟩ := List.exists_cons_of_ne_nil
      (List.append_ne_nil_of_right_ne_nil tokens (List.cons_ne_nil last []))
    rw [List.intercalate] at ih ⊢
    rw [List.cons_append, hl, List.intersperse_cons_cons, List.flatten_cons, List.flatten_cons,
      ← hl, ih, List.map_cons, List.flatten_cons, List.append_assoc, List.append_assoc]

/-- What the loop has found before `j`. -/
structure Found (s sep : Bytes) (j start : ℕ) (tokens : List Bytes) : Prop where
  le : start ≤ j
  bound : j ≤ s.length
  joined : s.take start = (tokens.map (· ++ sep)).flatten
  clean : ∀ token ∈ tokens, ¬sep <:+: token
  searched : ∀ p, start ≤ p → p < j → ¬sep <+: s.drop p

theorem Found.not_infix {j start n : ℕ} {tokens : List Bytes} (h : Found s sep j start tokens)
    (hsearched : ∀ p, start ≤ p → p + sep.length ≤ start + n → p < j) :
    ¬sep <:+: (s.drop start).take n := by
  rintro ⟨a, b, hinfix⟩
  have hlength := congrArg List.length hinfix
  rw [List.length_append, List.length_append, List.length_take, List.length_drop] at hlength
  refine h.searched (start + a.length) (Nat.le_add_right _ _) (hsearched _ (by omega) (by omega)) ?_
  rw [← List.drop_drop]
  have htake : a ++ (sep ++ b) <+: s.drop start := by
    rw [← List.append_assoc, hinfix]
    exact List.take_prefix _ _
  obtain ⟨tail, htail⟩ := htake
  rw [← htail, List.append_assoc, List.drop_left, List.append_assoc]
  exact List.prefix_append _ _

theorem Found.next {j start : ℕ} {tokens : List Bytes} (h : Found s sep j start tokens)
    (hsep : sep ≠ []) (hstarts : sep <+: s.drop j) :
    Found s sep (j + sep.length) (j + sep.length)
      (tokens ++ [(s.drop start).take (j - start)]) where
  le := le_rfl
  bound := by
    have hle := hstarts.length_le
    have hbound := h.bound
    rw [List.length_drop] at hle
    omega
  joined := by
    have hstart := h.le
    obtain ⟨tail, htail⟩ := hstarts
    have hcut : (s.drop j).take sep.length = sep := by
      rw [← htail, List.take_left]
    have hsum : s.take j = s.take start ++ (s.drop start).take (j - start) := by
      rw [← List.take_add, Nat.add_sub_cancel' hstart]
    rw [List.take_add, hcut, hsum, h.joined, List.map_append, List.flatten_append,
      List.append_assoc, List.map_singleton, List.flatten_singleton]
  clean token htoken := by
    obtain htoken | htoken := List.mem_append.mp htoken
    · exact h.clean token htoken
    · obtain rfl := List.mem_singleton.mp htoken
      have hpos := List.length_pos_of_ne_nil hsep
      have hstart := h.le
      exact h.not_infix fun p _ hp => by omega
  searched p hstart hp := absurd hp (by omega)

theorem Found.skip {j start : ℕ} {tokens : List Bytes} (h : Found s sep j start tokens)
    (hlt : j < s.length) (hstarts : ¬sep <+: s.drop j) :
    Found s sep (j + 1) start tokens where
  le := Nat.le_succ_of_le h.le
  bound := hlt
  joined := h.joined
  clean := h.clean
  searched p hstart hp := by
    obtain hp | rfl := Nat.lt_succ_iff_lt_or_eq.mp hp
    · exact h.searched p hstart hp
    · exact hstarts

theorem slice_eq_some_iff_starts {j : ℕ} (hj : j + sep.length ≤ s.length) :
    slice s j sep.length = some sep ↔ sep <+: s.drop j := by
  rw [slice, if_pos hj, Option.some_inj, List.prefix_iff_eq_take]
  exact eq_comm

theorem Found.finish {j start : ℕ} {tokens : List Bytes} (h : Found s sep j start tokens)
    (hdone : s.length < j + sep.length) :
    sep.intercalate (tokens ++ [s.drop start]) = s ∧
      ∀ token ∈ tokens ++ [s.drop start], ¬sep <:+: token := by
  constructor
  · rw [intercalate_concat, ← h.joined, List.take_append_drop]
  · intro token htoken
    obtain htoken | htoken := List.mem_append.mp htoken
    · exact h.clean token htoken
    · obtain rfl := List.mem_singleton.mp htoken
      have hle := h.le
      have hbound := h.bound
      have hlast := h.not_infix (n := s.length - start) fun p _ hp => by omega
      rwa [List.take_of_length_le (by rw [List.length_drop])] at hlast

theorem splitLoop_iff (hsep : sep ≠ []) (fuel : ℕ) {j start : ℕ} {t : Tokens} (ht : t.Ok)
    (h : Found s sep j start t.elements) (hfuel : s.length < j + fuel) :
    (∃ t', splitLoop s sep fuel j start t = some t' ∧ sep.intercalate t'.elements = s ∧
      ∀ token ∈ t'.elements, ¬sep <:+: token) ↔ FewTokens sep t.elements.length (s.drop j) := by
  induction fuel generalizing j start t with
  | zero =>
    have hbound := h.bound
    omega
  | succ fuel ih =>
    have hpos := List.length_pos_of_ne_nil hsep
    have hbound := h.bound
    have hstart := h.le
    rw [splitLoop]
    split
    · rename_i hmore
      have hj : j + sep.length ≤ s.length := by omega
      by_cases hfull : t.elements.length + 1 = maxTokens
      · refine iff_of_false ?_ fun hfew => ?_
        · rw [ht.reserve_full hfull]
          rintro ⟨t', ht', -⟩
          cases ht'
        · have hlt := hfew 0 _ hfull rfl
          rw [List.length_drop] at hlt
          omega
      · have hlt := lt_of_le_of_ne ht.le hfull
        obtain ⟨t₁, hreserve, helements, ht₁, hroom⟩ := ht.reserve hlt
        rw [hreserve]
        dsimp only [Option.bind_eq_bind, Option.bind_some]
        by_cases hstarts : sep <+: s.drop j
        · have htoken : slice s start (j - start) = some ((s.drop start).take (j - start)) := by
            rw [slice, if_pos (by omega)]
          have hadd : t₁.add ((s.drop start).take (j - start)) = some
              { t₁ with elements := t₁.elements ++ [(s.drop start).take (j - start)] } := by
            rw [Tokens.add, if_pos]
            rw [helements]
            omega
          rw [if_pos ((slice_eq_some_iff_starts hj).mpr hstarts), htoken]
          dsimp only [Option.bind_some]
          rw [hadd]
          dsimp only [Option.bind_some]
          have hlength : (t.elements ++ [(s.drop start).take (j - start)]).length
              = t.elements.length + 1 := by
            rw [List.length_append, List.length_singleton]
          rw [helements, fewTokens_of_starts hsep hstarts hlt, List.drop_drop, ← hlength]
          refine ih ⟨ht₁.size, ?_⟩ (h.next hsep hstarts) (by omega)
          dsimp only
          rw [hlength]
          push_cast
          omega
        · obtain ⟨c, hc⟩ : ∃ c, s.drop j = c :: s.drop (j + 1) :=
            ⟨_, List.drop_eq_getElem_cons (by omega)⟩
          rw [if_neg fun hslice => hstarts ((slice_eq_some_iff_starts hj).mp hslice)]
          have hskip := h.skip (by omega) hstarts
          rw [hc] at hstarts ⊢
          rw [fewTokens_of_byte hstarts hlt, ← helements]
          exact ih ht₁ (helements ▸ hskip) (by omega)
    · rename_i hdone
      have htoken : slice s start (s.length - start) = some (s.drop start) := by
        rw [slice, if_pos (by omega), List.take_of_length_le]
        rw [List.length_drop]
      have hshort : (s.drop j).length < sep.length := by
        rw [List.length_drop]
        omega
      refine iff_of_true ?_ (FewTokens.of_short hshort)
      rw [htoken]
      dsimp only [Option.bind_eq_bind, Option.bind_some]
      have hroom := ht.room
      rw [Tokens.add, if_pos (by omega)]
      exact ⟨_, rfl, h.finish (by omega)⟩

/-- A text is split into its tokens if and only if it has less than `maxTokens` tokens, or as many
and a last token that is shorter than the separator. -/
theorem splitRight_iff (s : Bytes) (hsep : sep ≠ []) :
    SplitRight s sep ↔ FewTokens sep 0 s := by
  rw [SplitRight, sdssplitlen]
  by_cases hzero : s.length = 0
  · obtain rfl := List.length_eq_zero_iff.mp hzero
    rw [if_pos hzero]
    refine iff_of_true ⟨[], rfl, rfl, fun token h => by cases h⟩ (FewTokens.of_short ?_)
    exact List.length_pos_of_ne_nil hsep
  · rw [if_neg hzero]
    have hstart : Found s sep 0 0 [] :=
      { le := le_rfl
        bound := Nat.zero_le _
        joined := rfl
        clean := fun token h => by cases h
        searched := fun p _ hp => absurd hp (Nat.not_lt_zero p) }
    have hok : Tokens.Ok ⟨5, []⟩ := ⟨⟨0, Nat.zero_le 28, rfl⟩, by decide⟩
    have hloop := splitLoop_iff hsep (s.length + 1) hok hstart (by omega)
    rw [List.drop_zero] at hloop
    refine Iff.trans ?_ hloop
    constructor
    · rintro ⟨tokens, hrun, hright⟩
      obtain ⟨t', ht', rfl⟩ := Option.map_eq_some_iff.mp hrun
      exact ⟨t', ht', hright⟩
    · rintro ⟨t', ht', hright⟩
      exact ⟨t'.elements, by rw [ht']; rfl, hright⟩

end

end DynamicString

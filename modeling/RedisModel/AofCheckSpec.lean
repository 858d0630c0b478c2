/-
What `redis-check-aof` reads.

* `readLong_number`, `readLong_sound` — it reads a number and a newline in a line of less than 128
  bytes;
* `LengthHazard`, `CommandHazard` — where it does what is not allowed;
* `readString_spec`, `readString_sound`, `readString_fault` — arguments;
* `argsLoop_spec`, `argsLoop_sound`, `argsLoop_fault` — the arguments of a command;
* `processLoop_spec`, `processLoop_sound`, `processLoop_fault` — commands.
-/
import RedisModel.AofFormat

open ByteBuffer StringNumber RedisCommands AofFormat
open Aof (crlf)

namespace AofCheck

/-! ### Lines -/

theorem lineOf_append {a b : Bytes} (ha : 10 ∉ a) : lineOf (a ++ 10 :: b) = a ++ [10] := by
  induction a with
  | nil => rfl
  | cons c a ih =>
    obtain ⟨hc, ha⟩ := List.ne_and_not_mem_of_not_mem_cons ha
    rw [List.cons_append, lineOf, if_neg hc.symm, ih ha, List.cons_append]

theorem lineOf_eq_self {a : Bytes} (ha : 10 ∉ a) : lineOf a = a := by
  induction a with
  | nil => rfl
  | cons c a ih =>
    obtain ⟨hc, ha⟩ := List.ne_and_not_mem_of_not_mem_cons ha
    rw [lineOf, if_neg hc.symm, ih ha]

theorem lineOf_spec (s : Bytes) : lineOf s <+: s ∧ 10 ∉ (lineOf s).dropLast := by
  by_cases h : 10 ∈ s
  · obtain ⟨a, b, rfl, ha⟩ := List.eq_append_cons_of_mem h
    rw [lineOf_append ha, List.dropLast_concat]
    exact ⟨⟨b, by rw [List.append_assoc, List.singleton_append]⟩, ha⟩
  · rw [lineOf_eq_self h]
    exact ⟨List.prefix_rfl, fun hmem => h (List.dropLast_subset _ hmem)⟩

theorem fgets_spec {s line rest : Bytes} (h : fgets 128 s = some (line, rest)) :
    s = line ++ rest ∧ line.length ≤ 127 ∧ 10 ∉ line.dropLast := by
  rw [fgets] at h
  split at h
  · cases h
  · obtain ⟨rfl, rfl⟩ := Prod.mk.inj (Option.some_inj.mp h)
    obtain ⟨hfront, hnewline⟩ := lineOf_spec (s.take 127)
    refine ⟨?_, hfront.length_le.trans (List.length_take_le _ _), hnewline⟩
    exact (List.prefix_iff_eq_append.mp (hfront.trans (List.take_prefix _ _))).symm

theorem fgets_newline {a b : Bytes} (ha : 10 ∉ a) (hlen : a.length ≤ 126) :
    fgets 128 (a ++ 10 :: b) = some (a ++ [10], b) := by
  have hline : lineOf ((a ++ 10 :: b).take 127) = a ++ [10] := by
    obtain ⟨n, hn⟩ : ∃ n, 127 - a.length = n + 1 := ⟨126 - a.length, by omega⟩
    rw [List.take_append, List.take_of_length_le (by omega), hn, List.take_succ_cons,
      lineOf_append ha]
  rw [fgets, if_neg (List.append_ne_nil_of_right_ne_nil _ (List.cons_ne_nil _ _))]
  dsimp only
  rw [show 128 - 1 = 127 from rfl, hline, List.append_cons a 10 b, List.drop_left]

theorem fgets_long {a b : Bytes} (ha : 10 ∉ a) (hlen : a.length = 127) :
    fgets 128 (a ++ b) = some (a, b) := by
  have hne : a ++ b ≠ [] := fun h => by
    rw [(List.append_eq_nil_iff.mp h).1] at hlen
    cases hlen
  rw [fgets, if_neg hne]
  dsimp only
  rw [show 128 - 1 = a.length from hlen.symm, List.take_left, lineOf_eq_self ha, List.drop_left]

/-! ### Numbers -/

theorem cString_append_zeros (u : Bytes) (n : ℕ) :
    cString (u ++ List.replicate (n + 1) 0) = cString u ∧
      ∃ more, u ++ List.replicate (n + 1) 0 = cString u ++ 0 :: more := by
  induction u with
  | nil => exact ⟨rfl, _, rfl⟩
  | cons c u ih =>
    obtain ⟨htext, more, hmore⟩ := ih
    unfold cString at htext hmore ⊢
    by_cases hc : c = 0
    · rw [hc]
      exact ⟨rfl, _, rfl⟩
    · rw [List.cons_append, List.takeWhile_cons, List.takeWhile_cons,
        if_pos (decide_eq_true hc), if_pos (decide_eq_true hc), htext]
      exact ⟨rfl, more, by rw [hmore, List.cons_append]⟩

theorem cString_eq_self {u : Bytes} (h : 0 ∉ u) : cString u = u :=
  List.takeWhile_eq_self_iff.mpr fun _ hc => decide_eq_true fun hzero => h (hzero ▸ hc)

theorem cString_isPrefix (s : Bytes) : cString s <+: s := List.takeWhile_prefix _

theorem strtoll_suffix (s : Bytes) : ∃ w, s = w ++ (strtoll s).rest := by
  by_cases hnil : (splitSign (s.dropWhile isspace)).2.takeWhile isdigit = []
  · exact ⟨[], by rw [strtoll, if_pos hnil, List.nil_append]⟩
  · rw [strtoll_of_digits hnil, saturate_rest]
    obtain ⟨sign, hsign, -⟩ := splitSign_spec (s.dropWhile isspace)
    refine ⟨s.takeWhile isspace ++ (sign ++
      (splitSign (s.dropWhile isspace)).2.takeWhile isdigit), ?_⟩
    rw [List.append_assoc, List.append_assoc, List.takeWhile_append_dropWhile, ← hsign,
      List.takeWhile_append_dropWhile]

theorem consumeNewline_append (a b : Bytes) : consumeNewline (a ++ b) a.length =
    if b.length < 2 then .fault else if b.take 2 = [13, 10] then .ok () else .failed := by
  rw [consumeNewline, if_pos (Int.natCast_nonneg _), Int.toNat_natCast, slice, List.length_append,
    List.drop_left]
  by_cases h : b.length < 2
  · rw [if_neg (by omega), if_pos h]
  · rw [if_pos (by omega), if_neg h]

theorem take_two_zero (r more : Bytes) :
    (r ++ 0 :: more).take 2 = [13, 10] ↔ r.take 2 = [13, 10] := by
  match r with
  | [] => exact iff_of_false (fun h => absurd (List.cons.inj h).1 (by decide)) fun h => by cases h
  | [c] =>
    exact iff_of_false (fun h => absurd (List.cons.inj (List.cons.inj h).2).1 (by decide))
      fun h => by cases h
  | c :: d :: r => exact Iff.rfl

theorem lineBuf_tail {first : UInt8} {u : Bytes} (hlen : u.length ≤ 126) : ∃ n,
    u.length + n = 126 ∧ (lineBuf (first :: u)).drop 1 = u ++ List.replicate (n + 1) 0 := by
  refine ⟨126 - u.length, by omega, ?_⟩
  rw [lineBuf, List.length_cons, show 128 - (u.length + 1) = 126 - u.length + 1 by omega,
    List.cons_append, List.drop_one, List.tail_cons]

theorem cString_lineBuf {first : UInt8} {u : Bytes} (hlen : u.length ≤ 126) :
    cString ((lineBuf (first :: u)).drop 1) = cString u := by
  obtain ⟨n, -, htail⟩ := @lineBuf_tail first u hlen
  rw [htail, (cString_append_zeros u n).1]

theorem readLong_eq {first : UInt8} {s u rest : Bytes}
    (h : fgets 128 s = some (first :: u, rest)) : readLong first s =
      if (cString u).length = 126 ∧ (strtoll (cString u)).rest = [] then .fault
      else if (strtoll (cString u)).rest.take 2 = [13, 10] then
        .ok ((strtoll (cString u)).value, rest)
      else .failed := by
  obtain ⟨-, hlen, -⟩ := fgets_spec h
  rw [List.length_cons] at hlen
  obtain ⟨n, hn, htail⟩ := @lineBuf_tail first u (by omega)
  obtain ⟨-, more, hmore⟩ := cString_append_zeros u n
  obtain ⟨w, hw⟩ := strtoll_suffix (cString u)
  have hbuf : lineBuf (first :: u) = (first :: w) ++ ((strtoll (cString u)).rest ++ 0 :: more) := by
    rw [List.cons_append, ← List.append_assoc, ← hw, ← hmore, ← htail]
    rfl
  have hsize := congrArg List.length hmore
  have hparts := congrArg List.length hw
  simp only [List.length_append, List.length_replicate, List.length_cons] at hsize hparts
  have heptr : 1 + ((cString u).length : ℤ) - ((strtoll (cString u)).rest.length : ℤ)
      = ((first :: w).length : ℤ) := by
    rw [List.length_cons]
    push_cast
    omega
  have hfault : ((strtoll (cString u)).rest ++ 0 :: more).length < 2 ↔
      (cString u).length = 126 ∧ (strtoll (cString u)).rest = [] := by
    rw [List.length_append, List.length_cons, ← List.length_eq_zero_iff]
    omega
  rw [readLong, h]
  dsimp only
  rw [if_neg (by rw [lineBuf, List.cons_append]; exact not_not.mpr rfl),
    cString_lineBuf (by omega), heptr, hbuf, consumeNewline_append]
  simp only [hfault, take_two_zero]
  split
  · rfl
  · split <;> rfl

theorem readLong_cases (first : UInt8) (s : Bytes) :
    readLong first s = .failed ∨ ∃ u rest, fgets 128 s = some (first :: u, rest) := by
  cases hline : fgets 128 s with
  | none => exact .inl (by rw [readLong, hline])
  | some p =>
    obtain ⟨line, rest⟩ := p
    cases line with
    | nil =>
      have hlt := fgets_length (by decide) hline
      rw [(fgets_spec hline).1, List.nil_append] at hlt
      omega
    | cons c u =>
      by_cases hc : c = first
      · exact .inr ⟨u, rest, by rw [hc]⟩
      · refine .inl ?_
        rw [readLong, hline]
        dsimp only
        rw [if_pos]
        rw [lineBuf, List.cons_append, List.head?_cons]
        exact fun h => hc (Option.some_inj.mp h)

theorem fgets_text {first : UInt8} {w : Bytes} {v : ℤ} (h : IsText w v) (hlen : w.length ≤ 124)
    (hfirst : first ≠ 10) (s : Bytes) :
    fgets 128 (first :: (w ++ 13 :: 10 :: s)) = some (first :: (w ++ [13, 10]), s) := by
  have hnot : 10 ∉ first :: (w ++ [13]) := by
    intro hmem
    obtain hmem | hmem := List.mem_cons.mp hmem
    · exact hfirst hmem.symm
    · obtain hmem | hmem := List.mem_append.mp hmem
      · exact h.newline hmem
      · exact absurd (List.mem_singleton.mp hmem) (by decide)
  have hread := fgets_newline (b := s) hnot (by simp; omega)
  simpa using hread

theorem cString_text {w : Bytes} {v : ℤ} (h : IsText w v) :
    cString (w ++ [13, 10]) = w ++ [13, 10] := by
  refine cString_eq_self fun hmem => ?_
  obtain hmem | hmem := List.mem_append.mp hmem
  · exact h.no_zero hmem
  · exact absurd hmem (by decide)

theorem readLong_text {first : UInt8} {w : Bytes} {v : ℤ} (h : IsText w v) (hlen : w.length ≤ 124)
    (hfirst : first ≠ 10) (s : Bytes) :
    readLong first (first :: (w ++ 13 :: 10 :: s)) = .ok (clamp v, s) := by
  rw [readLong_eq (fgets_text h hlen hfirst s), cString_text h, strtoll_text h, saturate_value,
    saturate_rest, if_neg fun hfault => List.cons_ne_nil _ _ hfault.2]
  exact if_pos rfl

/-- The buffer is full of a number: `consumeNewline` reads the byte after it. -/
def Overlong (first : UInt8) (s : Bytes) : Prop :=
  ∃ w v r, IsNumber w v ∧ w.length = 126 ∧ s = first :: (w ++ r)

theorem readLong_overlong {first : UInt8} {s : Bytes} (hfirst : first ≠ 10)
    (h : Overlong first s) : readLong first s = .fault := by
  obtain ⟨w, v, r, hw, hlen, rfl⟩ := h
  have hline : fgets 128 (first :: (w ++ r)) = some (first :: w, r) :=
    fgets_long (List.not_mem_cons_of_ne_of_not_mem hfirst.symm hw.1)
      (by rw [List.length_cons, hlen])
  have hread := strtoll_number (t := []) hw fun c hc => by cases hc
  rw [List.append_nil] at hread
  rw [readLong_eq hline, cString_eq_self hw.no_zero, hread, saturate_rest, if_pos ⟨hlen, rfl⟩]

theorem newline_of_fgets {first : UInt8} {s u rest : Bytes}
    (h : fgets 128 s = some (first :: u, rest)) : s = first :: (u ++ rest) ∧ u.length ≤ 126 ∧
      10 ∉ u.dropLast := by
  obtain ⟨hs, hlen, hnewline⟩ := fgets_spec h
  rw [List.length_cons] at hlen
  refine ⟨hs, by omega, fun hmem => ?_⟩
  cases u with
  | nil => cases hmem
  | cons c u => exact hnewline (List.mem_cons_of_mem _ hmem)

theorem readLong_fault {first : UInt8} {s : Bytes} (h : readLong first s = .fault) :
    Overlong first s := by
  obtain hfailed | ⟨u, rest, hline⟩ := readLong_cases first s
  · rw [hfailed] at h
    cases h
  · obtain ⟨rfl, hlen, hnewline⟩ := newline_of_fgets hline
    rw [readLong_eq hline] at h
    split at h
    · rename_i hfull
      obtain ⟨hsize, hrest⟩ := hfull
      have hu : cString u = u := (cString_isPrefix u).eq_of_length_le (by omega)
      rw [hu] at hsize hrest
      obtain hnone | ⟨w, v, t, rfl, hw, hread⟩ := strtoll_cases hnewline
      · rw [hnone] at hrest
        rw [show u = [] from hrest] at hsize
        cases hsize
      · rw [hread, saturate_rest] at hrest
        rw [hrest, List.append_nil] at hsize ⊢
        exact ⟨w, v, rest, hw, hsize, rfl⟩
    · split at h <;> cases h

theorem text_of_strtoll {u : Bytes} (hnewline : 10 ∉ u.dropLast)
    (h : (strtoll (cString u)).rest.take 2 = [13, 10]) :
    ∃ w v, IsText w v ∧ u = w ++ [13, 10] ∧ (strtoll (cString u)).value = clamp v := by
  obtain ⟨tail, htail⟩ := cString_isPrefix u
  have hfront : 10 ∉ (cString u).dropLast := fun hmem => hnewline <| by
    cases tail with
    | nil => rwa [← htail, List.append_nil]
    | cons c tail =>
      rw [← htail, List.dropLast_append_cons]
      exact List.mem_append_left _ (List.dropLast_subset _ hmem)
  obtain ⟨w, v, more, hw, htext, hvalue⟩ : ∃ w v more, IsText w v ∧
      cString u = w ++ 13 :: 10 :: more ∧ (strtoll (cString u)).value = clamp v := by
    have hcrlf : ∀ {t : Bytes}, t.take 2 = [13, 10] → t = 13 :: 10 :: t.drop 2 := fun {t} ht => by
      conv_lhs => rw [← List.take_append_drop 2 t, ht]
      rfl
    obtain hnone | ⟨w, v, t, htext, hw, hread⟩ := strtoll_cases hfront
    · rw [hnone] at h ⊢
      exact ⟨[], 0, _, .inr ⟨rfl, rfl⟩, hcrlf h, rfl⟩
    · rw [hread, saturate_rest] at h
      rw [hcrlf h] at htext
      exact ⟨w, v, _, .inl hw, htext, by rw [hread, saturate_value]⟩
  have hnil : more ++ tail = [] := by
    cases hmore : more ++ tail with
    | nil => rfl
    | cons c l =>
      have hu : u = (w ++ [13]) ++ 10 :: c :: l := by
        rw [← hmore, ← htail, htext]
        simp
      rw [hu, List.dropLast_append_cons, List.dropLast_cons_cons] at hnewline
      exact absurd (List.mem_append_right _ List.mem_cons_self) hnewline
  refine ⟨w, v, hw, ?_, hvalue⟩
  rw [← htail, htext, List.append_assoc, List.cons_append, List.cons_append, hnil]

theorem readLong_sound {first : UInt8} {s rest : Bytes} {n : ℤ}
    (h : readLong first s = .ok (n, rest)) : ∃ w v, IsText w v ∧ w.length ≤ 124 ∧ n = clamp v ∧
      s = first :: (w ++ 13 :: 10 :: rest) := by
  obtain hfailed | ⟨u, rest', hline⟩ := readLong_cases first s
  · rw [hfailed] at h
    cases h
  · obtain ⟨rfl, hlen, hnewline⟩ := newline_of_fgets hline
    rw [readLong_eq hline] at h
    split at h
    · cases h
    · split at h
      · rename_i hcrlf
        obtain ⟨rfl, rfl⟩ := Prod.mk.inj (Outcome.ok.inj h)
        obtain ⟨w, v, hw, hu, hvalue⟩ := text_of_strtoll hnewline hcrlf
        rw [hu, List.length_append] at hlen
        refine ⟨w, v, hw, by simpa using hlen, hvalue, ?_⟩
        rw [hu, List.append_assoc]
        rfl
      · cases h

/-! ### Arguments -/

theorem clamp_bounds (v : ℤ) : -2 ^ 63 ≤ clamp v ∧ clamp v < 2 ^ 63 := by
  unfold clamp llongMin llongMax
  omega

theorem readBytes_append {allocated : Bool} {block s : Bytes} (h : block.length < 2 ^ 64) :
    readBytes allocated block.length (block ++ s) =
      if allocated = false ∧ block ≠ [] then .fault else .ok (block, s) := by
  have hsize : (block.length % 2 ^ 64 : ℤ).toNat = block.length := by omega
  rw [readBytes, hsize, List.take_left, if_neg (not_not.mpr rfl), List.drop_left]

theorem readBytes_sound {allocated : Bool} {length : ℤ} {s target rest : Bytes}
    (h : readBytes allocated length s = .ok (target, rest)) :
    s = target ++ rest ∧ (target.length : ℤ) = length := by
  rw [readBytes] at h
  split at h
  · cases h
  · split at h
    · cases h
    · rename_i hlength
      obtain ⟨rfl, rfl⟩ := Prod.mk.inj (Outcome.ok.inj h)
      exact ⟨(List.prefix_iff_eq_append.mp (List.take_prefix _ _)).symm, not_not.mp hlength⟩

theorem readBytes_zero (allocated : Bool) (s : Bytes) :
    readBytes allocated 0 s = .ok ([], s) := by
  simp [readBytes]

theorem readBytes_nil (allocated : Bool) {length : ℤ} (h : length ≠ 0) :
    readBytes allocated length [] = .failed := by
  simp [readBytes, h.symm]

theorem readBytes_null {length : ℤ} {s : Bytes} (hs : s ≠ [])
    (hsize : (length % 2 ^ 64).toNat ≠ 0) : readBytes false length s = .fault := by
  rw [readBytes, if_pos]
  refine ⟨rfl, fun h => ?_⟩
  obtain h | h := List.take_eq_nil_iff.mp h
  · exact hsize h
  · exact hs h

theorem readBytes_allocated (length : ℤ) (s : Bytes) : readBytes true length s ≠ .fault := by
  rw [readBytes, if_neg fun h => Bool.noConfusion h.1]
  split
  · exact fun h => by cases h
  · exact fun h => by cases h

theorem consumeNewline_crlf (a : Bytes) : consumeNewline (a ++ [13, 10]) a.length = .ok () := by
  rw [consumeNewline_append]
  rfl

theorem consumeNewline_sound {m : Bytes} {p : ℤ} (h : consumeNewline m p = .ok ()) :
    ∃ a b, m = a ++ 13 :: 10 :: b ∧ p = a.length := by
  by_cases hp : 0 ≤ p
  · rw [consumeNewline, if_pos hp, slice] at h
    by_cases hle : p.toNat + 2 ≤ m.length
    · rw [if_pos hle] at h
      dsimp only at h
      split at h
      · rename_i hcrlf
        refine ⟨m.take p.toNat, m.drop (p.toNat + 2), ?_, ?_⟩
        · conv_lhs => rw [← List.take_append_drop p.toNat m, ← List.take_append_drop 2 (m.drop _),
            hcrlf, List.drop_drop]
          rfl
        · rw [List.length_take]
          omega
      · cases h
    · rw [if_neg hle] at h
      cases h
  · rw [consumeNewline, if_neg hp] at h
    cases h

theorem consumeNewline_neg {p : ℤ} (m : Bytes) (hp : p < 0) : consumeNewline m p = .fault := by
  rw [consumeNewline, if_neg (by omega)]

theorem consumeNewline_inside {m : Bytes} {n : ℕ} (h : m.length = n + 2) :
    consumeNewline m n ≠ .fault := by
  have hm := consumeNewline_append (m.take n) (m.drop n)
  rw [List.take_append_drop, List.length_take, List.length_drop, h, Nat.min_eq_left (by omega),
    if_neg (by omega)] at hm
  rw [hm]
  split
  · exact fun h => by cases h
  · exact fun h => by cases h

section
variable (malloc : ℕ → Bool)

theorem readContents_spec (arg s : Bytes) :
    readContents malloc (clamp arg.length) (arg ++ 13 :: 10 :: s) = .fault ∨
      readContents malloc (clamp arg.length) (arg ++ 13 :: 10 :: s) = .ok (arg, s) := by
  rw [readContents]
  split
  · exact .inl rfl
  · rename_i hmax
    have hlen : (arg.length : ℤ) < 2 ^ 63 - 2 := by
      unfold clamp llongMin llongMax at hmax
      omega
    have hblock : (arg.length : ℤ) + 2 = (arg ++ [13, 10]).length := by
      rw [List.length_append]
      rfl
    have hbytes : arg ++ 13 :: 10 :: s = (arg ++ [13, 10]) ++ s := by simp
    rw [clamp_eq (by omega) (by omega), hblock, hbytes]
    dsimp only
    rw [readBytes_append (by omega)]
    split
    · exact .inl rfl
    · refine .inr ?_
      rw [Outcome.ok_bind]
      dsimp only
      rw [consumeNewline_crlf, Outcome.ok_bind, Int.toNat_natCast, List.take_left]
      rfl

theorem readContents_sound {len : ℤ} {s str rest : Bytes}
    (h : readContents malloc len s = .ok (str, rest)) :
    str.length = len ∧ len < 2 ^ 63 - 2 ∧ s = str ++ 13 :: 10 :: rest := by
  rw [readContents] at h
  split at h
  · cases h
  · rename_i hmax
    unfold llongMax at hmax
    obtain ⟨⟨target, rest'⟩, hbytes, h⟩ := Outcome.bind_eq_ok.mp h
    obtain ⟨_, hnewline, h⟩ := Outcome.bind_eq_ok.mp h
    obtain ⟨rfl, rfl⟩ := Prod.mk.inj (Outcome.ok.inj h)
    obtain ⟨rfl, hlength⟩ := readBytes_sound hbytes
    obtain ⟨a, b, rfl, rfl⟩ := consumeNewline_sound hnewline
    rw [List.length_append, List.length_cons, List.length_cons] at hlength
    obtain rfl : b = [] := List.length_eq_zero_iff.mp (by omega)
    rw [Int.toNat_natCast, List.take_left]
    exact ⟨rfl, by omega, by simp⟩

theorem readContents_fault {len : ℤ} (hlen : -2 ^ 63 ≤ len) (s : Bytes) :
    readContents malloc len s = .fault ↔
      len = -2 ∨ 2 ^ 63 - 2 ≤ len ∨ s ≠ [] ∧ (len < 0 ∨ malloc (len + 2).toNat = false) := by
  rw [readContents]
  by_cases hmax : (llongMax : ℤ) < len + 2
  · rw [if_pos hmax]
    refine iff_of_true rfl (.inr (.inl ?_))
    unfold llongMax at hmax
    omega
  · rw [if_neg hmax]
    unfold llongMax at hmax
    dsimp only
    by_cases htwo : len = -2
    · rw [htwo, show (-2 + 2 : ℤ) = 0 from rfl, readBytes_zero, Outcome.ok_bind]
      exact iff_of_true rfl (.inl rfl)
    · by_cases hs : s = []
      · rw [hs, readBytes_nil _ (by omega)]
        refine iff_of_false (fun h => by cases h) fun h => ?_
        obtain h | h | h := h
        · exact htwo h
        · omega
        · exact h.1 rfl
      · by_cases hneg : len < 0
        · refine iff_of_true ?_ (.inr (.inr ⟨hs, .inl hneg⟩))
          cases hread : readBytes (decide (((len + 2) % 2 ^ 64).toNat < 2 ^ 63) &&
            malloc ((len + 2) % 2 ^ 64).toNat) (len + 2) s with
          | ok p => rw [Outcome.ok_bind, consumeNewline_neg _ hneg, Outcome.fault_bind]
          | fault => rfl
          | failed =>
            -- one byte is there, and more than `malloc` gives is not read
            by_cases hone : len = -1
            · obtain ⟨c, t, rfl⟩ := List.exists_cons_of_ne_nil hs
              have happend := @readBytes_append (decide (((len + 2) % 2 ^ 64).toNat < 2 ^ 63) &&
                malloc ((len + 2) % 2 ^ 64).toNat) [c] t (by rw [List.length_singleton]; decide)
              rw [show ([c].length : ℤ) = len + 2 by rw [hone]; rfl, List.singleton_append,
                hread] at happend
              split at happend <;> cases happend
            · rw [decide_eq_false (by omega), Bool.false_and, readBytes_null hs (by omega)] at hread
              cases hread
        · have hsize : ((len + 2) % 2 ^ 64).toNat = (len + 2).toNat := by omega
          rw [hsize, decide_eq_true (by omega), Bool.true_and]
          cases hmalloc : malloc (len + 2).toNat with
          | false =>
            rw [readBytes_null hs (by omega)]
            exact iff_of_true rfl (.inr (.inr ⟨hs, .inr rfl⟩))
          | true =>
            refine iff_of_false (fun h => ?_) fun h => ?_
            · obtain h | ⟨⟨target, rest⟩, hread, h⟩ := Outcome.bind_eq_fault.mp h
              · exact readBytes_allocated _ _ h
              · have hlength := (readBytes_sound hread).2
                obtain h | ⟨_, _, h⟩ := Outcome.bind_eq_fault.mp h
                · obtain ⟨n, rfl⟩ := Int.eq_ofNat_of_zero_le (not_lt.mp hneg)
                  dsimp only at h
                  exact consumeNewline_inside (by omega) h
                · cases h
            · obtain h | h | ⟨-, h | h⟩ := h
              · exact htwo h
              · omega
              · exact hneg h
              · cases h

/-- A file where `readString` does what is not allowed: the line of the length is too long, 2 cannot
be added to the length, or bytes are stored or looked at where there is no object. -/
def LengthHazard (s : Bytes) : Prop :=
  Overlong 36 s ∨ ∃ w v r, IsText w v ∧ w.length ≤ 124 ∧ s = 36 :: (w ++ 13 :: 10 :: r) ∧
    (v = -2 ∨ 2 ^ 63 - 2 ≤ v ∨ r ≠ [] ∧ (v < 0 ∨ malloc (v + 2).toNat = false))

theorem readString_spec {a : RawArg} (hvalid : a.Valid) (hshort : a.Short) (s : Bytes) :
    readString malloc (a.encode ++ s) = .fault ∨
      readString malloc (a.encode ++ s) = .ok (a.arg, s) := by
  rw [a.encode_append, readString, readLong_text hvalid hshort (by decide), Outcome.ok_bind]
  exact readContents_spec malloc a.arg s

theorem readString_sound {s str rest : Bytes} (h : readString malloc s = .ok (str, rest)) :
    ∃ a : RawArg, a.Valid ∧ a.Short ∧ str = a.arg ∧ s = a.encode ++ rest := by
  obtain ⟨⟨len, s'⟩, hlong, hcontents⟩ := Outcome.bind_eq_ok.mp h
  obtain ⟨w, v, hw, hshort, rfl, rfl⟩ := readLong_sound hlong
  obtain ⟨hlength, hmax, rfl⟩ := readContents_sound malloc hcontents
  refine ⟨⟨w, str⟩, ?_, hshort, rfl, (RawArg.encode_append ⟨w, str⟩ rest).symm⟩
  have hv : v = str.length := by
    unfold clamp llongMin llongMax at hlength hmax
    omega
  rwa [hv] at hw

theorem hazard_clamp (v : ℤ) (r : Bytes) :
    (clamp v = -2 ∨ 2 ^ 63 - 2 ≤ clamp v ∨
      r ≠ [] ∧ (clamp v < 0 ∨ malloc (clamp v + 2).toNat = false)) ↔
    (v = -2 ∨ 2 ^ 63 - 2 ≤ v ∨ r ≠ [] ∧ (v < 0 ∨ malloc (v + 2).toNat = false)) := by
  by_cases hmax : 2 ^ 63 ≤ v
  · refine iff_of_true (.inr (.inl ?_)) (.inr (.inl (by omega)))
    unfold clamp llongMin llongMax
    omega
  · by_cases hmin : v < -2 ^ 63
    · have hclamp : clamp v = -2 ^ 63 := by
        unfold clamp llongMin llongMax
        omega
      rw [hclamp]
      constructor
      · rintro (h | h | ⟨hr, -⟩)
        · omega
        · omega
        · exact .inr (.inr ⟨hr, .inl (by omega)⟩)
      · rintro (h | h | ⟨hr, -⟩)
        · omega
        · omega
        · exact .inr (.inr ⟨hr, .inl (by omega)⟩)
    · rw [clamp_eq (by omega) (by omega)]

theorem readString_fault {s : Bytes} : readString malloc s = .fault ↔ LengthHazard malloc s := by
  constructor
  · intro h
    obtain h | ⟨⟨len, s'⟩, hlong, hcontents⟩ := Outcome.bind_eq_fault.mp h
    · exact .inl (readLong_fault h)
    · obtain ⟨w, v, hw, hshort, rfl, rfl⟩ := readLong_sound hlong
      exact .inr ⟨w, v, s', hw, hshort, rfl, (hazard_clamp malloc v s').mp
        ((readContents_fault malloc (clamp_bounds v).1 s').mp hcontents)⟩
  · rintro (h | ⟨w, v, r, hw, hshort, rfl, h⟩)
    · rw [readString, readLong_overlong (by decide) h, Outcome.fault_bind]
    · rw [readString, readLong_text hw hshort (by decide), Outcome.ok_bind]
      exact (readContents_fault malloc (clamp_bounds v).1 r).mpr ((hazard_clamp malloc v r).mpr h)

/-! ### The arguments of a command -/

/-- The counter of transactions after arguments, the first of which has the index `i`. -/
def countName (i : ℕ) (multi : ℤ) : List RawArg → Option ℤ
  | [] => some multi
  | a :: _ => if i = 0 then countTransaction multi a.arg else some multi

theorem argsLoop_done {argc multi : ℤ} {i : ℕ} {s : Bytes} (h : ¬(i : ℤ) < argc) :
    argsLoop malloc argc i multi s = .ok (multi, s) := by
  rw [argsLoop, if_neg h]

theorem argsLoop_step {argc multi : ℤ} {i : ℕ} {s : Bytes} (h : (i : ℤ) < argc) :
    argsLoop malloc argc i multi s = (do
      let (str, rest) ← readString malloc s
      match if i = 0 then countTransaction multi str else some multi with
      | none => .failed
      | some multi =>
        if i + 1 = 2 ^ 31 then .fault else argsLoop malloc argc (i + 1) multi rest) := by
  rw [argsLoop, if_pos h]
  split
  · rename_i heq
    rw [heq]
    rfl
  · rename_i heq
    rw [heq]
    rfl
  · rename_i heq
    rw [heq]
    rfl

theorem countName_succ (i : ℕ) (multi : ℤ) (args : List RawArg) :
    countName (i + 1) multi args = some multi := by
  cases args with
  | nil => rfl
  | cons a args => rw [countName, if_neg (Nat.succ_ne_zero i)]

theorem argsLoop_spec {argc multi multi' : ℤ} {i : ℕ} {args : List RawArg} (hi : i < 2 ^ 31)
    (hargs : ∀ a ∈ args, a.Valid ∧ a.Short) (hname : countName i multi args = some multi')
    (hle : (i + args.length : ℤ) ≤ argc) (s : Bytes) :
    argsLoop malloc argc i multi (encodeArgs args ++ s) = .fault ∨ i + args.length < 2 ^ 31 ∧
      argsLoop malloc argc i multi (encodeArgs args ++ s)
        = argsLoop malloc argc (i + args.length) multi' s := by
  induction args generalizing i multi with
  | nil =>
    obtain rfl := Option.some_inj.mp hname
    exact .inr ⟨hi, rfl⟩
  | cons a args ih =>
    obtain ⟨ha, hargs⟩ := List.forall_mem_cons.mp hargs
    rw [List.length_cons, Nat.cast_add_one] at hle
    rw [encodeArgs_cons, argsLoop_step malloc (by omega)]
    obtain hread | hread := readString_spec malloc ha.1 ha.2 (encodeArgs args ++ s)
    · exact .inl (by rw [hread, Outcome.fault_bind])
    · rw [hread, Outcome.ok_bind]
      dsimp only
      have hcount : (if i = 0 then countTransaction multi a.arg else some multi) = some multi' :=
        hname
      rw [hcount]
      dsimp only
      split
      · exact .inl rfl
      · rw [List.length_cons, ← Nat.add_assoc, Nat.add_right_comm]
        exact ih (by omega) hargs (countName_succ i multi' args) (by push_cast; omega)

theorem argsLoop_sound {argc multi multi' : ℤ} {i : ℕ} {s rest : Bytes} (hi : i < 2 ^ 31)
    (h : argsLoop malloc argc i multi s = .ok (multi', rest)) :
    ∃ args : List RawArg, (∀ a ∈ args, a.Valid ∧ a.Short) ∧ s = encodeArgs args ++ rest ∧
      countName i multi args = some multi' ∧ (i + args.length : ℤ) = max argc i ∧
      i + args.length < 2 ^ 31 := by
  fun_induction argsLoop malloc argc i multi s with
  | case1 | case2 | case3 | case4 => cases h
  | case5 i multi s hlt str rest' hread multi'' hcount hne ih =>
    obtain ⟨args, hargs, rfl, hname, hlength, hsmall⟩ := ih (by omega) h
    obtain ⟨a, hvalid, hshort, rfl, rfl⟩ := readString_sound malloc hread
    rw [countName_succ] at hname
    refine ⟨a :: args, List.forall_mem_cons.mpr ⟨⟨hvalid, hshort⟩, hargs⟩,
      (encodeArgs_cons _ _ _).symm, hcount.trans hname, ?_, ?_⟩
    · rw [List.length_cons]
      push_cast at hlength ⊢
      omega
    · rw [List.length_cons]
      omega
  | case6 i multi s hle =>
    obtain ⟨rfl, rfl⟩ := Prod.mk.inj (Outcome.ok.inj h)
    exact ⟨[], fun a ha => absurd ha List.not_mem_nil, rfl, rfl, by rw [List.length_nil]; omega, hi⟩

theorem argsLoop_fault {argc multi : ℤ} {i : ℕ} {s : Bytes} (hi : i < 2 ^ 31)
    (h : argsLoop malloc argc i multi s = .fault) :
    ∃ (args : List RawArg) (t : Bytes), (∀ a ∈ args, a.Valid ∧ a.Short) ∧
      s = encodeArgs args ++ t ∧ (countName i multi args).isSome = true ∧
      (i + args.length < argc ∧ LengthHazard malloc t ∨
        i + args.length = 2 ^ 31 ∧ (2 ^ 31 : ℤ) ≤ argc) := by
  fun_induction argsLoop malloc argc i multi s with
  | case1 i multi s hlt hread =>
    exact ⟨[], s, fun a ha => absurd ha List.not_mem_nil, rfl, rfl,
      .inl ⟨by simpa using hlt, (readString_fault malloc).mp hread⟩⟩
  | case2 | case3 => cases h
  | case4 i multi s hlt str rest' hread multi'' hcount hmax =>
    obtain ⟨a, hvalid, hshort, rfl, rfl⟩ := readString_sound malloc hread
    refine ⟨[a], rest', List.forall_mem_singleton.mpr ⟨hvalid, hshort⟩, ?_, ?_, ?_⟩
    · rw [encodeArgs_cons]
      rfl
    · rw [show countName i multi [a] = some multi'' from hcount]
      rfl
    · exact .inr ⟨hmax, by omega⟩
  | case5 i multi s hlt str rest' hread multi'' hcount hne ih =>
    obtain ⟨args, t, hargs, rfl, hname, hhazard⟩ := ih (by omega) h
    obtain ⟨a, hvalid, hshort, rfl, rfl⟩ := readString_sound malloc hread
    refine ⟨a :: args, t, List.forall_mem_cons.mpr ⟨⟨hvalid, hshort⟩, hargs⟩,
      (encodeArgs_cons _ _ _).symm, ?_, ?_⟩
    · rw [show countName i multi (a :: args) = some multi'' from hcount]
      rfl
    · rw [List.length_cons]
      push_cast at hhazard ⊢
      rw [← add_assoc, add_right_comm, ← Nat.add_assoc, Nat.add_right_comm]
      exact hhazard
  | case6 => cases h

theorem argsLoop_hazard {argc multi : ℤ} {i : ℕ} {args : List RawArg} {t : Bytes} (hi : i < 2 ^ 31)
    (hargs : ∀ a ∈ args, a.Valid ∧ a.Short) (hname : (countName i multi args).isSome = true)
    (h : i + args.length < argc ∧ LengthHazard malloc t ∨
      i + args.length = 2 ^ 31 ∧ (2 ^ 31 : ℤ) ≤ argc) :
    argsLoop malloc argc i multi (encodeArgs args ++ t) = .fault := by
  obtain ⟨multi', hname⟩ := Option.isSome_iff_exists.mp hname
  have hle : (i + args.length : ℤ) ≤ argc := by
    obtain ⟨hlt, -⟩ | ⟨hmax, hmin⟩ := h
    · exact hlt.le
    · omega
  obtain hfault | ⟨hsmall, hloop⟩ := argsLoop_spec malloc hi hargs hname hle t
  · exact hfault
  · obtain ⟨hlt, hhazard⟩ | ⟨hmax, -⟩ := h
    · rw [hloop, argsLoop_step malloc (by push_cast; exact hlt),
        (readString_fault malloc).mpr hhazard, Outcome.fault_bind]
    · omega

theorem countName_take (i : ℕ) (multi : ℤ) (args : List RawArg) {n : ℕ} (hn : n ≠ 0) :
    countName i multi (args.take n) = countName i multi args := by
  obtain ⟨m, rfl⟩ := Nat.exists_eq_succ_of_ne_zero hn
  cases args with
  | nil => rfl
  | cons a args => rfl

theorem argsLoop_overflow {argc multi : ℤ} {args : List RawArg} (hargc : 2 ^ 31 ≤ argc)
    (hargs : ∀ a ∈ args, a.Valid ∧ a.Short) (hname : (countName 0 multi args).isSome = true)
    (h : 2 ^ 31 ≤ args.length) (t : Bytes) :
    argsLoop malloc argc 0 multi (encodeArgs args ++ t) = .fault := by
  have hsplit : encodeArgs args ++ t
      = encodeArgs (args.take (2 ^ 31)) ++ (encodeArgs (args.drop (2 ^ 31)) ++ t) := by
    conv_lhs => rw [← List.take_append_drop (2 ^ 31) args]
    rw [encodeArgs, List.flatMap_append, List.append_assoc, encodeArgs, encodeArgs]
  rw [hsplit]
  refine argsLoop_hazard malloc (by decide) (fun a ha => hargs a (List.mem_of_mem_take ha)) ?_
    (.inr ⟨?_, hargc⟩)
  · rwa [countName_take 0 multi args (by decide)]
  · rw [List.length_take]
    omega

theorem argsLoop_command {c : RawCommand} {count multi multi' : ℤ}
    (hlength : c.args.length = max count 0) (hargs : ∀ a ∈ c.args, a.Valid ∧ a.Short)
    (hname : countName 0 multi c.args = some multi') (s : Bytes) :
    argsLoop malloc (clamp count) 0 multi (encodeArgs c.args ++ s) = .fault ∨
      c.args.length < 2 ^ 31 ∧
        argsLoop malloc (clamp count) 0 multi (encodeArgs c.args ++ s) = .ok (multi', s) := by
  by_cases hmax : 2 ^ 31 ≤ c.args.length
  · refine .inl (argsLoop_overflow malloc ?_ hargs (by rw [hname]; rfl) hmax s)
    unfold clamp llongMin llongMax
    omega
  · by_cases hpos : 0 < count
    · have hclamp := clamp_eq (v := count) (by omega) (by omega)
      have hle : ((0 : ℕ) + c.args.length : ℤ) ≤ clamp count := by
        push_cast
        omega
      obtain hfault | ⟨hsmall, hloop⟩ := argsLoop_spec malloc (by decide) hargs hname hle s
      · exact .inl hfault
      · refine .inr ⟨by omega, hloop.trans (argsLoop_done malloc ?_)⟩
        push_cast
        omega
    · have hnil : c.args = [] := List.length_eq_zero_iff.mp (by omega)
      rw [hnil] at hname ⊢
      obtain rfl := Option.some_inj.mp hname
      refine .inr ⟨by decide, argsLoop_done malloc ?_⟩
      unfold clamp llongMin llongMax
      push_cast
      omega

/-! ### Commands -/

/-- The counter of transactions. -/
def counter (inside : Bool) : ℤ := if inside then 1 else 0

theorem countName_counter (inside : Bool) (args : List RawArg) :
    countName 0 (counter inside) args
      = (transactionStep inside (args.map RawArg.arg)).map counter := by
  cases args with
  | nil => rfl
  | cons a args =>
    rw [countName, if_pos rfl, countTransaction, List.map_cons, transactionStep]
    split
    · cases inside <;> rfl
    · split
      · cases inside <;> rfl
      · rfl

/-- A file where `process` does what is not allowed in the next command. -/
def CommandHazard (inside : Bool) (s : Bytes) : Prop :=
  Overlong 42 s ∨ ∃ (w : Bytes) (v : ℤ) (args : List RawArg) (t : Bytes), IsText w v ∧
    w.length ≤ 124 ∧ (∀ a ∈ args, a.Valid ∧ a.Short) ∧
    (transactionStep inside (args.map RawArg.arg)).isSome = true ∧
    s = 42 :: (w ++ 13 :: 10 :: (encodeArgs args ++ t)) ∧
    (args.length < v ∧ LengthHazard malloc t ∨ args.length = 2 ^ 31 ∧ 2 ^ 31 ≤ v)

theorem processLoop_eq (size pos : ℕ) (multi : ℤ) (s : Bytes) :
    processLoop malloc size pos multi s =
      match readArgc s with
      | .fault => none
      | .failed => some (if multi = 0 then size - s.length else pos)
      | .ok (argc, rest) =>
        match argsLoop malloc argc 0 multi rest with
        | .fault => none
        | .failed => some (if multi = 0 then size - s.length else pos)
        | .ok (multi', rest') =>
          processLoop malloc size (if multi = 0 then size - s.length else pos) multi' rest' := by
  rw [processLoop]
  split
  · rename_i hargc
    rw [hargc]
  · rename_i hargc
    rw [hargc]
  · rename_i argc rest hargc
    rw [hargc]
    dsimp only
    split
    · rename_i hargs
      rw [hargs]
    · rename_i hargs
      rw [hargs]
    · rename_i hargs
      rw [hargs]

theorem processLoop_command {c : RawCommand} {inside inside' : Bool} (hvalid : c.Valid)
    (hshort : c.Short) (hstep : transactionStep inside c.argv = some inside') (size pos : ℕ)
    (s : Bytes) : processLoop malloc size pos (counter inside) (c.encode ++ s) = none ∨
      ∃ pos', processLoop malloc size pos (counter inside) (c.encode ++ s)
        = processLoop malloc size pos' (counter inside') s := by
  obtain ⟨count, htext, hlength, hargs⟩ := hvalid
  have hname : countName 0 (counter inside) c.args = some (counter inside') := by
    rw [countName_counter, ← RawCommand.argv, hstep, Option.map_some]
  rw [processLoop_eq, readArgc, c.encode_append, readLong_text htext hshort.1 (by decide)]
  dsimp only
  obtain hfault | ⟨-, hloop⟩ := argsLoop_command malloc hlength
    (fun a ha => ⟨hargs a ha, hshort.2 a ha⟩) hname s
  · exact .inl (by rw [hfault])
  · exact .inr ⟨_, by rw [hloop]⟩

theorem processLoop_spec {cs : List RawCommand} {inside inside' : Bool}
    (hcs : ∀ c ∈ cs, c.Valid ∧ c.Short)
    (hrun : Runs.run transactionStep inside (cs.map RawCommand.argv) = some inside')
    (size pos : ℕ) (s : Bytes) :
    processLoop malloc size pos (counter inside) (encodeAll cs ++ s) = none ∨
      ∃ pos', processLoop malloc size pos (counter inside) (encodeAll cs ++ s)
        = processLoop malloc size pos' (counter inside') s := by
  induction cs generalizing inside pos with
  | nil =>
    obtain rfl := Option.some_inj.mp hrun
    exact .inr ⟨pos, rfl⟩
  | cons c cs ih =>
    obtain ⟨hc, hcs⟩ := List.forall_mem_cons.mp hcs
    obtain ⟨m, hstep, hrest⟩ := Runs.run_cons_eq_some.mp hrun
    rw [encodeAll_cons]
    obtain hnone | ⟨pos', hc⟩ := processLoop_command malloc hc.1 hc.2 hstep size pos
      (encodeAll cs ++ s)
    · exact .inl hnone
    · rw [hc]
      exact ih hcs hrest pos'

theorem command_of_loop {inside : Bool} {argc multi : ℤ} {s rest rest' : Bytes}
    (hargc : readArgc s = .ok (argc, rest))
    (hargs : argsLoop malloc argc 0 (counter inside) rest = .ok (multi, rest')) :
    ∃ (c : RawCommand) (inside' : Bool), c.Valid ∧ c.Short ∧ c.args.length < 2 ^ 31 ∧
      transactionStep inside c.argv = some inside' ∧ multi = counter inside' ∧
      s = c.encode ++ rest' := by
  obtain ⟨w, v, hw, hshort, rfl, rfl⟩ := readLong_sound hargc
  obtain ⟨args, hvalid, rfl, hname, hlength, hsmall⟩ := argsLoop_sound malloc (by decide) hargs
  rw [countName_counter] at hname
  obtain ⟨inside', hstep, rfl⟩ := Option.map_eq_some_iff.mp hname
  refine ⟨⟨w, args⟩, inside', ⟨v, hw, ?_, fun a ha => (hvalid a ha).1⟩,
    ⟨hshort, fun a ha => (hvalid a ha).2⟩, ?_, hstep, rfl,
    (RawCommand.encode_append ⟨w, args⟩ rest').symm⟩
  · show (args.length : ℤ) = max v 0
    unfold clamp llongMin llongMax at hlength
    push_cast at hlength
    omega
  · show args.length < 2 ^ 31
    omega

theorem processLoop_sound {size pos n : ℕ} {inside : Bool} {s : Bytes}
    (h : processLoop malloc size pos (counter inside) s = some n) :
    n = pos ∧ inside = true ∨ ∃ (cs : List RawCommand) (rest : Bytes), s = encodeAll cs ++ rest ∧
      (∀ c ∈ cs, c.Valid ∧ c.Short ∧ c.args.length < 2 ^ 31) ∧
      Runs.run transactionStep inside (cs.map RawCommand.argv) = some false ∧
      n = size - rest.length := by
  generalize hmulti : counter inside = multi at h
  -- the offset that is returned if the next command is not read
  have hstop : ∀ {s : Bytes} {pos : ℕ} {inside : Bool} {multi : ℤ}, counter inside = multi →
      some (if multi = 0 then size - s.length else pos) = some n →
      n = pos ∧ inside = true ∨ ∃ (cs : List RawCommand) (rest : Bytes), s = encodeAll cs ++ rest ∧
        (∀ c ∈ cs, c.Valid ∧ c.Short ∧ c.args.length < 2 ^ 31) ∧
        Runs.run transactionStep inside (cs.map RawCommand.argv) = some false ∧
        n = size - rest.length := by
    rintro s pos inside multi rfl h
    obtain rfl := Option.some_inj.mp h
    cases inside with
    | true => exact .inl ⟨rfl, rfl⟩
    | false => exact .inr ⟨[], s, rfl, fun c hc => absurd hc List.not_mem_nil, rfl, rfl⟩
  fun_induction processLoop malloc size pos multi s generalizing inside with
  | case1 | case3 => cases h
  | case2 => exact hstop hmulti h
  | case4 => exact hstop hmulti h
  | case5 pos multi s pos' argc rest hargc multi' rest' hargs =>
    rename_i ih
    subst hmulti
    obtain ⟨c, inside', hvalid, hshort, hsmall, hstep, rfl, rfl⟩ :=
      command_of_loop malloc hargc hargs
    obtain ⟨rfl, rfl⟩ | ⟨cs, r, rfl, hcs, hrun, hn⟩ := ih rfl h
    · exact hstop rfl rfl
    · exact .inr ⟨c :: cs, r, (encodeAll_cons _ _ _).symm,
        List.forall_mem_cons.mpr ⟨⟨hvalid, hshort, hsmall⟩, hcs⟩,
        Runs.run_cons_of_step hstep hrun, hn⟩

theorem processLoop_fault {size pos : ℕ} {inside : Bool} {s : Bytes}
    (h : processLoop malloc size pos (counter inside) s = none) :
    ∃ (cs : List RawCommand) (inside' : Bool) (s' : Bytes), (∀ c ∈ cs, c.Valid ∧ c.Short) ∧
      Runs.run transactionStep inside (cs.map RawCommand.argv) = some inside' ∧
      s = encodeAll cs ++ s' ∧ CommandHazard malloc inside' s' := by
  generalize hmulti : counter inside = multi at h
  -- nothing that is allowed comes before it
  have hnext : ∀ {inside : Bool} {s : Bytes}, CommandHazard malloc inside s →
      ∃ (cs : List RawCommand) (inside' : Bool) (s' : Bytes), (∀ c ∈ cs, c.Valid ∧ c.Short) ∧
        Runs.run transactionStep inside (cs.map RawCommand.argv) = some inside' ∧
        s = encodeAll cs ++ s' ∧ CommandHazard malloc inside' s' := fun {inside s} hhazard =>
    ⟨[], inside, s, fun c hc => absurd hc List.not_mem_nil, rfl, rfl, hhazard⟩
  fun_induction processLoop malloc size pos multi s generalizing inside with
  | case2 | case4 => cases h
  | case1 pos multi s hargc => exact hnext (.inl (readLong_fault hargc))
  | case3 pos multi s argc rest hargc hargs =>
    subst hmulti
    obtain ⟨w, v, hw, hshort, rfl, rfl⟩ := readLong_sound hargc
    obtain ⟨args, t, hvalid, rfl, hname, hhazard⟩ := argsLoop_fault malloc (by decide) hargs
    rw [countName_counter, Option.isSome_map] at hname
    refine hnext (.inr ⟨w, v, args, t, hw, hshort, hvalid, hname, rfl, ?_⟩)
    unfold clamp llongMin llongMax at hhazard
    obtain ⟨hlt, hlength⟩ | ⟨hmax, hargc⟩ := hhazard
    · exact .inl ⟨by push_cast at hlt; omega, hlength⟩
    · exact .inr ⟨by omega, by omega⟩
  | case5 pos multi s pos' argc rest hargc multi' rest' hargs =>
    rename_i ih
    subst hmulti
    obtain ⟨c, inside', hvalid, hshort, -, hstep, rfl, rfl⟩ := command_of_loop malloc hargc hargs
    obtain ⟨cs, inside'', s', hcs, hrun, rfl, hhazard⟩ := ih rfl h
    exact ⟨c :: cs, inside'', s', List.forall_mem_cons.mpr ⟨⟨hvalid, hshort⟩, hcs⟩,
      Runs.run_cons_of_step hstep hrun, (encodeAll_cons _ _ _).symm, hhazard⟩

theorem processLoop_hazard {inside : Bool} {s : Bytes} (h : CommandHazard malloc inside s)
    (size pos : ℕ) : processLoop malloc size pos (counter inside) s = none := by
  rw [processLoop_eq, readArgc]
  obtain h | ⟨w, v, args, t, hw, hshort, hvalid, hname, rfl, hhazard⟩ := h
  · rw [readLong_overlong (by decide) h]
  · rw [readLong_text hw hshort (by decide)]
    dsimp only
    have hsome : (countName 0 (counter inside) args).isSome = true := by
      rwa [countName_counter, Option.isSome_map]
    have hfault : argsLoop malloc (clamp v) 0 (counter inside) (encodeArgs args ++ t) = .fault := by
      by_cases hmax : 2 ^ 31 ≤ args.length
      · refine argsLoop_overflow malloc ?_ hvalid hsome hmax t
        unfold clamp llongMin llongMax
        omega
      · obtain ⟨hlt, hlength⟩ | ⟨heq, -⟩ := hhazard
        · refine argsLoop_hazard malloc (by decide) hvalid hsome (.inl ⟨?_, hlength⟩)
          unfold clamp llongMin llongMax
          push_cast
          omega
        · exact absurd heq.ge hmax
    rw [hfault]

/-! ### Files -/

/-- A file for which `process` does what is not allowed. -/
def Hazard (file : Bytes) : Prop :=
  ∃ (cs : List RawCommand) (inside : Bool) (s : Bytes), (∀ c ∈ cs, c.Valid ∧ c.Short) ∧
    Runs.run transactionStep false (cs.map RawCommand.argv) = some inside ∧
    file = encodeAll cs ++ s ∧ CommandHazard malloc inside s

theorem process_eq (file : Bytes) :
    process malloc file = processLoop malloc file.length 0 (counter false) file := rfl

theorem process_fault {file : Bytes} : process malloc file = none ↔ Hazard malloc file := by
  rw [process_eq]
  constructor
  · exact fun h => processLoop_fault malloc h
  · rintro ⟨cs, inside, s, hcs, hrun, rfl, hhazard⟩
    obtain hnone | ⟨pos, hloop⟩ := processLoop_spec malloc hcs hrun _ 0 s
    · exact hnone
    · exact hloop.trans (processLoop_hazard malloc hhazard _ pos)

theorem process_sound {file : Bytes} {n : ℕ} (h : process malloc file = some n) :
    ∃ cs : List RawCommand, (∀ c ∈ cs, c.Valid ∧ c.Short ∧ c.args.length < 2 ^ 31) ∧
      Paired (cs.map RawCommand.argv) ∧ encodeAll cs <+: file ∧ n = (encodeAll cs).length := by
  rw [process_eq] at h
  obtain ⟨-, hinside⟩ | ⟨cs, rest, rfl, hcs, hrun, rfl⟩ := processLoop_sound malloc h
  · cases hinside
  · refine ⟨cs, hcs, hrun, List.prefix_append _ _, ?_⟩
    rw [List.length_append]
    omega

theorem process_le {file : Bytes} {n : ℕ} (h : process malloc file = some n)
    {cs : List RawCommand} (hcs : ∀ c ∈ cs, c.Valid ∧ c.Short)
    (hpaired : Paired (cs.map RawCommand.argv)) (hfile : encodeAll cs <+: file) :
    (encodeAll cs).length ≤ n := by
  obtain ⟨s, rfl⟩ := hfile
  rw [process_eq] at h
  obtain hnone | ⟨pos, hloop⟩ := processLoop_spec malloc hcs hpaired (encodeAll cs ++ s).length 0 s
  · cases hnone.symm.trans h
  · obtain ⟨-, hinside⟩ | ⟨ds, rest, rfl, -, -, rfl⟩ :=
      processLoop_sound malloc (hloop.symm.trans h)
    · cases hinside
    · simp only [List.length_append]
      omega

end

end AofCheck

/-
The format of an append-only file.

* `IsNumber` — the decimal numbers that `strtol` reads; `strtoll_number`, `strtoll_cases`: what it
  returns;
* `RawArg`, `RawCommand` — an argument and a command, with the texts of the numbers in front;
* `Valid`, `WellFormed` — the texts are read as the right numbers; the number of arguments is at
  least 1, and there are digits in all texts;
* `encodeAll_inj` — a file can be split into valid commands in one way only;
* `Paired` — every MULTI is closed by an EXEC.
-/
import RedisModel.AofBuffer
import RedisModel.AofCheck
import RedisModel.CountersSpec
import RedisModel.Multibulk
import RedisModel.Runs

open StringNumber RedisCommands Counters
open Aof (crlf)

namespace AofFormat

/-! ### Numbers -/

/-- Spaces but no newline, a sign, and one or more digits. -/
def IsNumber (w : Bytes) (v : ℤ) : Prop :=
  10 ∉ w ∧ (splitSign (w.dropWhile isspace)).2 ≠ [] ∧
    (∀ c ∈ (splitSign (w.dropWhile isspace)).2, isdigit c = true) ∧
    v = signedValue (splitSign (w.dropWhile isspace))

/-- What is read as a number: also nothing at all. -/
def IsText (w : Bytes) (v : ℤ) : Prop := IsNumber w v ∨ w = [] ∧ v = 0

/-- The `long` that is closest to a number. -/
def clamp (v : ℤ) : ℤ := max llongMin (min llongMax v)

theorem IsNumber.eq {w : Bytes} {v v' : ℤ} (h : IsNumber w v) (h' : IsNumber w v') : v = v' :=
  h.2.2.2.trans h'.2.2.2.symm

theorem IsNumber.ne_nil {w : Bytes} {v : ℤ} (h : IsNumber w v) : w ≠ [] := by
  rintro rfl
  exact h.2.1 rfl

theorem IsText.eq {w : Bytes} {v v' : ℤ} (h : IsText w v) (h' : IsText w v') : v = v' := by
  obtain h | ⟨rfl, rfl⟩ := h
  · obtain h' | ⟨rfl, -⟩ := h'
    · exact h.eq h'
    · exact absurd rfl h.ne_nil
  · obtain h' | ⟨-, rfl⟩ := h'
    · exact absurd rfl h'.ne_nil
    · rfl

theorem IsText.newline {w : Bytes} {v : ℤ} (h : IsText w v) : 10 ∉ w := by
  obtain h | ⟨rfl, -⟩ := h
  · exact h.1
  · exact List.not_mem_nil

theorem saturate_value (v : ℤ) (rest : Bytes) : (saturate v rest).value = clamp v := by
  unfold saturate clamp llongMin llongMax
  split
  · dsimp only
    omega
  · split
    · dsimp only
      omega
    · dsimp only
      omega

theorem saturate_rest (v : ℤ) (rest : Bytes) : (saturate v rest).rest = rest :=
  (saturate_eq v rest).2.1

theorem clamp_eq {v : ℤ} (hmin : -2 ^ 63 ≤ v) (hmax : v < 2 ^ 63) : clamp v = v := by
  unfold clamp llongMin llongMax
  omega

theorem isspace_of_isdigit {c : UInt8} (h : isdigit c = true) : isspace c = false := by
  by_contra hspace
  rw [(isspace_not_number (Bool.not_eq_false _ ▸ hspace)).2.2] at h
  cases h

theorem splitSign_spec (s : Bytes) : ∃ sign, s = sign ++ (splitSign s).2 ∧
    (∀ c ∈ sign, isspace c = false ∧ c ≠ 0) ∧
    ∀ c t, isdigit c = true → splitSign (sign ++ c :: t) = ((splitSign s).1, c :: t) := by
  cases s with
  | nil =>
    refine ⟨[], rfl, fun c hc => absurd hc List.not_mem_nil, fun c t hc => ?_⟩
    rw [List.nil_append, splitSign_cons, if_neg, if_neg]
    · rfl
    · rintro rfl
      cases hc
    · rintro rfl
      cases hc
  | cons a s =>
    rw [splitSign_cons]
    split
    · rename_i ha
      exact ⟨[45], by rw [ha]; rfl, fun c hc => by rw [List.mem_singleton.mp hc]; decide,
        fun c t _ => rfl⟩
    · split
      · rename_i ha
        exact ⟨[43], by rw [ha]; rfl, fun c hc => by rw [List.mem_singleton.mp hc]; decide,
          fun c t _ => rfl⟩
      · refine ⟨[], rfl, fun c hc => absurd hc List.not_mem_nil, fun c t hc => ?_⟩
        rw [List.nil_append, splitSign_cons, if_neg, if_neg]
        · rintro rfl
          cases hc
        · rintro rfl
          cases hc

theorem IsNumber.parts {w : Bytes} {v : ℤ} (h : IsNumber w v) : ∃ spaces sign c digits neg,
    w = spaces ++ (sign ++ c :: digits) ∧ (∀ c ∈ spaces, isspace c = true) ∧
      (∀ c ∈ sign, isspace c = false ∧ c ≠ 0) ∧ (∀ d ∈ c :: digits, isdigit d = true) ∧
      (∀ c t, isdigit c = true → splitSign (sign ++ c :: t) = (neg, c :: t)) ∧
      v = signedValue (neg, c :: digits) := by
  obtain ⟨-, hne, hdigits, hv⟩ := h
  obtain ⟨sign, hsign, hnospace, hsplit⟩ := splitSign_spec (w.dropWhile isspace)
  obtain ⟨c, digits, hcons⟩ := List.exists_cons_of_ne_nil hne
  rw [hcons] at hsign hdigits
  refine ⟨w.takeWhile isspace, sign, c, digits, _, ?_, fun c hc => List.mem_takeWhile_imp hc,
    hnospace, hdigits, hsplit, ?_⟩
  · rw [← hsign, List.takeWhile_append_dropWhile]
  · rw [hv, ← hcons]

theorem IsNumber.no_zero {w : Bytes} {v : ℤ} (h : IsNumber w v) : 0 ∉ w := by
  obtain ⟨spaces, sign, c, digits, neg, rfl, hspaces, hsign, hdigits, -, -⟩ := h.parts
  intro hmem
  obtain hmem | hmem := List.mem_append.mp hmem
  · exact absurd (hspaces _ hmem) (by decide)
  · obtain hmem | hmem := List.mem_append.mp hmem
    · exact (hsign _ hmem).2 rfl
    · exact absurd (hdigits _ hmem) (by decide)

theorem IsText.no_zero {w : Bytes} {v : ℤ} (h : IsText w v) : 0 ∉ w := by
  obtain h | ⟨rfl, -⟩ := h
  · exact h.no_zero
  · exact List.not_mem_nil

theorem dropWhile_spaces {spaces sign t : Bytes} {c : UInt8}
    (hspaces : ∀ c ∈ spaces, isspace c = true) (hsign : ∀ c ∈ sign, isspace c = false ∧ c ≠ 0)
    (hc : isdigit c = true) :
    (spaces ++ (sign ++ c :: t)).dropWhile isspace = sign ++ c :: t := by
  rw [List.dropWhile_append_of_pos hspaces]
  cases sign with
  | nil =>
    rw [List.nil_append, List.dropWhile_cons_of_neg]
    rw [isspace_of_isdigit hc]
    exact Bool.false_ne_true
  | cons a sign =>
    rw [List.cons_append, List.dropWhile_cons_of_neg]
    rw [(hsign a List.mem_cons_self).1]
    exact Bool.false_ne_true

theorem strtoll_of_digits {s : Bytes}
    (h : (splitSign (s.dropWhile isspace)).2.takeWhile isdigit ≠ []) :
    strtoll s = saturate (signedValue ((splitSign (s.dropWhile isspace)).1,
      (splitSign (s.dropWhile isspace)).2.takeWhile isdigit))
      ((splitSign (s.dropWhile isspace)).2.dropWhile isdigit) := by
  rw [strtoll, if_neg h]
  unfold signedValue
  dsimp only
  split <;> rfl

theorem strtoll_number {w t : Bytes} {v : ℤ} (h : IsNumber w v)
    (ht : ∀ c ∈ t.head?, isdigit c = false) : strtoll (w ++ t) = saturate v t := by
  obtain ⟨spaces, sign, c, digits, neg, rfl, hspaces, hsign, hdigits, hsplit, rfl⟩ := h.parts
  have hc := hdigits c List.mem_cons_self
  have hdrop : (spaces ++ (sign ++ c :: digits) ++ t).dropWhile isspace
      = sign ++ c :: (digits ++ t) := by
    rw [List.append_assoc, List.append_assoc, List.cons_append, dropWhile_spaces hspaces hsign hc]
  have htake : t.takeWhile isdigit = [] ∧ t.dropWhile isdigit = t := by
    cases t with
    | nil => exact ⟨rfl, rfl⟩
    | cons a t =>
      have ha : ¬isdigit a = true := Bool.eq_false_iff.mp (ht a rfl)
      exact ⟨List.takeWhile_cons_of_neg ha, List.dropWhile_cons_of_neg ha⟩
  have hdigit : (c :: (digits ++ t)).takeWhile isdigit = c :: digits ∧
      (c :: (digits ++ t)).dropWhile isdigit = t := by
    rw [← List.cons_append, List.takeWhile_append_of_pos hdigits,
      List.dropWhile_append_of_pos hdigits, htake.1, htake.2, List.append_nil]
    exact ⟨rfl, rfl⟩
  rw [strtoll_of_digits, hdrop, hsplit c _ hc, hdigit.1, hdigit.2]
  rw [hdrop, hsplit c _ hc, hdigit.1]
  exact List.cons_ne_nil _ _

theorem strtoll_text {w : Bytes} {v : ℤ} (h : IsText w v) :
    strtoll (w ++ [13, 10]) = saturate v [13, 10] := by
  obtain h | ⟨rfl, rfl⟩ := h
  · exact strtoll_number h fun c hc => by rw [← Option.some_inj.mp hc]; decide
  · rfl

theorem strtoll_cases {s : Bytes} (hs : 10 ∉ s.dropLast) : strtoll s = ⟨0, false, s⟩ ∨
    ∃ w v t, s = w ++ t ∧ IsNumber w v ∧ strtoll s = saturate v t := by
  by_cases hnil : (splitSign (s.dropWhile isspace)).2.takeWhile isdigit = []
  · exact .inl (by rw [strtoll, if_pos hnil])
  · refine .inr ?_
    have hsaturate := strtoll_of_digits hnil
    obtain ⟨sign, hsign, hnospace, hsplit⟩ := splitSign_spec (s.dropWhile isspace)
    obtain ⟨c, digits, hcons⟩ := List.exists_cons_of_ne_nil hnil
    rw [hcons] at hsaturate
    have hspaces : ∀ c ∈ s.takeWhile isspace, isspace c = true := fun c hc =>
      List.mem_takeWhile_imp hc
    have hdigits : ∀ d ∈ c :: digits, isdigit d = true := fun d hd =>
      List.mem_takeWhile_imp (hcons ▸ hd)
    have hsplit' : splitSign (sign ++ c :: digits)
        = ((splitSign (s.dropWhile isspace)).1, c :: digits) := hsplit c digits
      (hdigits c List.mem_cons_self)
    have htext : s = (s.takeWhile isspace ++ sign) ++ c ::
        (digits ++ (splitSign (s.dropWhile isspace)).2.dropWhile isdigit) := by
      rw [← List.cons_append, ← hcons, List.takeWhile_append_dropWhile, List.append_assoc, ← hsign,
        List.takeWhile_append_dropWhile]
    generalize (splitSign (s.dropWhile isspace)).2.dropWhile isdigit = t at hsaturate htext
    refine ⟨s.takeWhile isspace ++ (sign ++ c :: digits), _, t, ?_, ⟨fun hmem => ?_, ?_⟩, hsaturate⟩
    · rw [List.append_assoc, List.append_assoc, List.cons_append, ← List.append_assoc]
      exact htext
    · rw [htext, List.dropLast_append_cons] at hs
      rw [← List.append_assoc] at hmem
      obtain hfront | hdigit := List.mem_append.mp hmem
      · exact hs (List.mem_append_left _ hfront)
      · exact absurd (hdigits _ hdigit) (by decide)
    · rw [dropWhile_spaces hspaces hnospace (hdigits c List.mem_cons_self), hsplit']
      exact ⟨List.cons_ne_nil _ _, hdigits, rfl⟩

/-! ### Commands -/

/-- An argument and the text of its length. -/
structure RawArg where
  text : Bytes
  arg : Bytes

/-- The arguments of a command and the text of their number. -/
structure RawCommand where
  text : Bytes
  args : List RawArg

namespace RawArg

def encode (a : RawArg) : Bytes := 36 :: (a.text ++ crlf ++ a.arg ++ crlf)

/-- The length is read as the right one. -/
def Valid (a : RawArg) : Prop := IsText a.text a.arg.length

/-- The line of the length has less than 128 bytes. -/
def Short (a : RawArg) : Prop := a.text.length ≤ 124

theorem encode_append (a : RawArg) (s : Bytes) :
    a.encode ++ s = 36 :: (a.text ++ 13 :: 10 :: (a.arg ++ 13 :: 10 :: s)) := by
  simp [encode, crlf]

end RawArg

def encodeArgs (args : List RawArg) : Bytes := args.flatMap RawArg.encode

namespace RawCommand

def encode (c : RawCommand) : Bytes := 42 :: (c.text ++ crlf ++ encodeArgs c.args)

def argv (c : RawCommand) : List Bytes := c.args.map RawArg.arg

/-- The numbers are read as the right ones; a number of arguments below 1 is read as 0. -/
def Valid (c : RawCommand) : Prop :=
  ∃ count : ℤ, IsText c.text count ∧ c.args.length = max count 0 ∧ ∀ a ∈ c.args, a.Valid

/-- A command with at least one argument; the texts are decimal numbers. -/
structure WellFormed (c : RawCommand) : Prop where
  count : IsNumber c.text c.args.length
  args : c.args ≠ []
  lengths : ∀ a ∈ c.args, IsNumber a.text a.arg.length

/-- All lines of numbers have less than 128 bytes. -/
def Short (c : RawCommand) : Prop := c.text.length ≤ 124 ∧ ∀ a ∈ c.args, a.Short

theorem encode_append (c : RawCommand) (s : Bytes) :
    c.encode ++ s = 42 :: (c.text ++ 13 :: 10 :: (encodeArgs c.args ++ s)) := by
  simp [encode, crlf]

theorem WellFormed.valid {c : RawCommand} (h : c.WellFormed) : c.Valid :=
  ⟨c.args.length, .inl h.count, by omega, fun a ha => .inl (h.lengths a ha)⟩

end RawCommand

def encodeAll (cs : List RawCommand) : Bytes := cs.flatMap RawCommand.encode

theorem encodeArgs_cons (a : RawArg) (args : List RawArg) (s : Bytes) :
    encodeArgs (a :: args) ++ s = a.encode ++ (encodeArgs args ++ s) := by
  rw [encodeArgs, List.flatMap_cons, List.append_assoc, encodeArgs]

theorem encodeAll_cons (c : RawCommand) (cs : List RawCommand) (s : Bytes) :
    encodeAll (c :: cs) ++ s = c.encode ++ (encodeAll cs ++ s) := by
  rw [encodeAll, List.flatMap_cons, List.append_assoc, encodeAll]

/-! A file can be read in one way only. -/

theorem line_inj {w w' x y : Bytes} (hw : 10 ∉ w) (hw' : 10 ∉ w')
    (h : w ++ 13 :: 10 :: x = w' ++ 13 :: 10 :: y) : w = w' ∧ x = y := by
  rw [List.append_cons, List.append_cons w'] at h
  have hnot : ∀ {u : Bytes}, 10 ∉ u → 10 ∉ u ++ [13] := fun hu hmem => by
    obtain hmem | hmem := List.mem_append.mp hmem
    · exact hu hmem
    · exact absurd (List.mem_singleton.mp hmem) (by decide)
  obtain ⟨htext, hrest⟩ := Multibulk.append_cons_inj (hnot hw) (hnot hw') h
  exact ⟨List.append_cancel_right htext, hrest⟩

theorem RawArg.encode_inj {a b : RawArg} (ha : a.Valid) (hb : b.Valid) {x y : Bytes}
    (h : a.encode ++ x = b.encode ++ y) : a = b ∧ x = y := by
  rw [encode_append, encode_append] at h
  obtain ⟨htext, hrest⟩ := line_inj ha.newline hb.newline (List.cons.inj h).2
  have hlength : a.arg.length = b.arg.length := by
    rw [Valid, ← htext] at hb
    have hval := IsText.eq ha hb
    omega
  obtain ⟨harg, hend⟩ := List.append_inj hrest hlength
  obtain ⟨ta, aa⟩ := a
  obtain ⟨tb, ab⟩ := b
  obtain rfl : ta = tb := htext
  obtain rfl : aa = ab := harg
  exact ⟨rfl, (List.cons.inj (List.cons.inj hend).2).2⟩

theorem encodeArgs_inj {as bs : List RawArg} (has : ∀ a ∈ as, a.Valid) (hbs : ∀ b ∈ bs, b.Valid)
    (hlength : as.length = bs.length) {x y : Bytes}
    (h : encodeArgs as ++ x = encodeArgs bs ++ y) : as = bs ∧ x = y := by
  induction as generalizing bs with
  | nil =>
    obtain rfl := List.length_eq_zero_iff.mp hlength.symm
    exact ⟨rfl, h⟩
  | cons a as ih =>
    cases bs with
    | nil => cases hlength
    | cons b bs =>
      rw [encodeArgs_cons, encodeArgs_cons] at h
      obtain ⟨rfl, hrest⟩ := RawArg.encode_inj (has a List.mem_cons_self)
        (hbs b List.mem_cons_self) h
      obtain ⟨rfl, hxy⟩ := ih (fun a' ha' => has a' (List.mem_cons_of_mem _ ha'))
        (fun b' hb' => hbs b' (List.mem_cons_of_mem _ hb')) (Nat.succ.inj hlength) hrest
      exact ⟨rfl, hxy⟩

theorem RawCommand.encode_inj {c d : RawCommand} (hc : c.Valid) (hd : d.Valid) {x y : Bytes}
    (h : c.encode ++ x = d.encode ++ y) : c = d ∧ x = y := by
  obtain ⟨count, hcount, hlen, hargs⟩ := hc
  obtain ⟨count', hcount', hlen', hargs'⟩ := hd
  rw [encode_append, encode_append] at h
  obtain ⟨htext, hrest⟩ := line_inj hcount.newline hcount'.newline (List.cons.inj h).2
  have hval := IsText.eq hcount (htext ▸ hcount')
  obtain ⟨hargs, hxy⟩ := encodeArgs_inj hargs hargs' (by omega) hrest
  obtain ⟨tc, ac⟩ := c
  obtain ⟨td, ad⟩ := d
  obtain rfl : tc = td := htext
  obtain rfl : ac = ad := hargs
  exact ⟨rfl, hxy⟩

theorem prefix_of_encodeAll {cs ds : List RawCommand} (hcs : ∀ c ∈ cs, c.Valid)
    (hds : ∀ d ∈ ds, d.Valid) (h : encodeAll cs <+: encodeAll ds) : cs <+: ds := by
  induction cs generalizing ds with
  | nil => exact List.nil_prefix
  | cons c cs ih =>
    obtain ⟨rest, h⟩ := h
    rw [encodeAll_cons] at h
    cases ds with
    | nil => cases h
    | cons d ds =>
      rw [← List.append_nil (encodeAll (d :: ds)), encodeAll_cons, List.append_nil] at h
      obtain ⟨rfl, hrest⟩ := RawCommand.encode_inj (hcs c List.mem_cons_self)
        (hds d List.mem_cons_self) h
      exact List.cons_prefix_cons.mpr ⟨rfl, ih
        (fun c' hc' => hcs c' (List.mem_cons_of_mem _ hc'))
        (fun d' hd' => hds d' (List.mem_cons_of_mem _ hd')) ⟨rest, hrest⟩⟩

theorem prefix_of_length_le {cs ds : List RawCommand} {file : Bytes} (hcs : ∀ c ∈ cs, c.Valid)
    (hds : ∀ d ∈ ds, d.Valid) (hc : encodeAll cs <+: file) (hd : encodeAll ds <+: file)
    (hle : (encodeAll cs).length ≤ (encodeAll ds).length) : cs <+: ds :=
  prefix_of_encodeAll hcs hds (List.prefix_of_prefix_length_le hc hd hle)

/-! ### Transactions -/

/-- Whether a transaction is open after a command; transactions are not nested. -/
def transactionStep (inside : Bool) : List Bytes → Option Bool
  | [] => some inside
  | name :: _ =>
    if strcasecmp name AofCheck.multiName then if inside then none else some true
    else if strcasecmp name AofCheck.execName then if inside then some false else none
    else some inside

/-- Every MULTI is closed by an EXEC. -/
def Paired (commands : List (List Bytes)) : Prop :=
  Runs.run transactionStep false commands = some false

end AofFormat

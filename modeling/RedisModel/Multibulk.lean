/-
The text of commands on a link: `*argc CRLF`, and `$len CRLF bytes CRLF` for each argument.

* `encodeCommand`, `encode` — what `replicationFeedSlaves` and `catAppendOnlyGenericCommand`
  write;
* `encodeCommand_append_inj`, `prefix_of_encode` — commands can be told apart, also at the start of
  a longer text.
-/
import RedisModel.StringNumber

open StringNumber

namespace Multibulk

/-- The arguments of a command, its name first. -/
abbrev Argv := List Bytes

def crlf : Bytes := [13, 10]

/-- A length in decimal, printed by `ll2string` into a buffer that is large enough. -/
def lengthText (n : ℕ) : Bytes := ll2stringDigits (n + 1) n

/-- `addReplyBulk`. -/
def encodeBulk (arg : Bytes) : Bytes :=
  36 :: lengthText arg.length ++ crlf ++ arg ++ crlf

/-- The text of a command. -/
def encodeCommand (argv : Argv) : Bytes :=
  42 :: lengthText argv.length ++ crlf ++ argv.flatMap encodeBulk

/-- The text of several commands. -/
def encode (cmds : List Argv) : Bytes := cmds.flatMap encodeCommand

theorem lt_ten_pow (n : ℕ) : n < 10 ^ (n + 1) :=
  (Nat.lt_pow_self (by omega)).trans_le (Nat.pow_le_pow_right (by omega) (Nat.le_succ n))

theorem lengthText_eq_ll2string {n : ℕ} (h : n ≤ llongMax) : lengthText n = ll2string n := by
  have hn : n < 10 ^ 31 := lt_of_le_of_lt h (by decide)
  rw [lengthText, ll2string, if_neg (by omega), Int.natAbs_natCast]
  -- both print the digits of the same number without a leading zero
  rcases Nat.eq_zero_or_pos n with rfl | hpos
  · rfl
  · refine digitsVal_injective (fun c => ll2stringDigits_isDigit _ _ c)
      (fun c => ll2stringDigits_isDigit _ _ c)
      (ll2stringDigits_noLeadingZero hpos (lt_ten_pow n))
      (ll2stringDigits_noLeadingZero hpos hn) ?_
    rw [digitsVal_ll2stringDigits hn, digitsVal_ll2stringDigits (lt_ten_pow n)]

theorem lengthText_injective : Function.Injective lengthText := by
  intro m n h
  have hm := digitsVal_ll2stringDigits (lt_ten_pow m)
  have hn := digitsVal_ll2stringDigits (lt_ten_pow n)
  rw [lengthText, lengthText] at h
  rw [← hm, h, hn]

theorem not_mem_lengthText (n : ℕ) : 13 ∉ lengthText n := by
  intro h
  exact absurd (ll2stringDigits_isDigit _ _ _ h) (by decide)

@[simp] theorem encode_nil : encode [] = [] := rfl

@[simp] theorem encode_cons (argv : Argv) (cmds : List Argv) :
    encode (argv :: cmds) = encodeCommand argv ++ encode cmds := rfl

@[simp] theorem encode_append (a b : List Argv) : encode (a ++ b) = encode a ++ encode b :=
  List.flatMap_append

theorem append_cons_inj {d : UInt8} : ∀ {a b x y : Bytes}, d ∉ a → d ∉ b →
    a ++ d :: x = b ++ d :: y → a = b ∧ x = y
  | [], [], _, _, _, _, h => ⟨rfl, (List.cons_eq_cons.mp h).2⟩
  | [], _ :: _, _, _, _, hb, h => by
    obtain ⟨rfl, -⟩ := List.cons_eq_cons.mp h
    exact absurd List.mem_cons_self hb
  | _ :: _, [], _, _, ha, _, h => by
    obtain ⟨rfl, -⟩ := List.cons_eq_cons.mp h
    exact absurd List.mem_cons_self ha
  | c :: a, e :: b, _, _, ha, hb, h => by
    obtain ⟨rfl, hrest⟩ := List.cons_eq_cons.mp h
    obtain ⟨rfl, hxy⟩ := append_cons_inj (List.not_mem_of_not_mem_cons ha)
      (List.not_mem_of_not_mem_cons hb) hrest
    exact ⟨rfl, hxy⟩

theorem lengthText_append_inj {m n : ℕ} {x y : Bytes}
    (h : lengthText m ++ crlf ++ x = lengthText n ++ crlf ++ y) : m = n ∧ x = y := by
  rw [List.append_assoc, List.append_assoc] at h
  obtain ⟨hlen, hrest⟩ := append_cons_inj (not_mem_lengthText m) (not_mem_lengthText n) h
  exact ⟨lengthText_injective hlen, (List.cons_eq_cons.mp hrest).2⟩

theorem encodeBulk_append_inj {a b x y : Bytes} (h : encodeBulk a ++ x = encodeBulk b ++ y) :
    a = b ∧ x = y := by
  have hbody : lengthText a.length ++ crlf ++ (a ++ crlf ++ x) =
      lengthText b.length ++ crlf ++ (b ++ crlf ++ y) := by
    simpa [encodeBulk] using h
  obtain ⟨hlen, hrest⟩ := lengthText_append_inj hbody
  rw [List.append_assoc, List.append_assoc] at hrest
  obtain ⟨rfl, hx⟩ := List.append_inj hrest hlen
  exact ⟨rfl, List.append_cancel_left hx⟩

theorem flatMap_encodeBulk_inj : ∀ {a b : Argv} {x y : Bytes}, a.length = b.length →
    a.flatMap encodeBulk ++ x = b.flatMap encodeBulk ++ y → a = b ∧ x = y
  | [], [], _, _, _, h => ⟨rfl, h⟩
  | [], _ :: _, _, _, hlen, _ => by simp at hlen
  | _ :: _, [], _, _, hlen, _ => by simp at hlen
  | c :: a, e :: b, _, _, hlen, h => by
    rw [List.flatMap_cons, List.flatMap_cons, List.append_assoc, List.append_assoc] at h
    obtain ⟨rfl, hrest⟩ := encodeBulk_append_inj h
    obtain ⟨rfl, hxy⟩ := flatMap_encodeBulk_inj (Nat.succ.inj hlen) hrest
    exact ⟨rfl, hxy⟩

theorem encodeCommand_append_inj {a b : Argv} {x y : Bytes}
    (h : encodeCommand a ++ x = encodeCommand b ++ y) : a = b ∧ x = y := by
  have hbody : lengthText a.length ++ crlf ++ (a.flatMap encodeBulk ++ x) =
      lengthText b.length ++ crlf ++ (b.flatMap encodeBulk ++ y) := by
    simpa [encodeCommand] using h
  obtain ⟨hlen, hrest⟩ := lengthText_append_inj hbody
  exact flatMap_encodeBulk_inj hlen hrest

theorem encodeCommand_ne_nil (argv : Argv) : encodeCommand argv ≠ [] := by
  simp [encodeCommand]

theorem prefix_of_encode : ∀ {a b : List Argv}, encode a <+: encode b → a <+: b
  | [], _, _ => List.nil_prefix
  | c :: a, [], h => by
    rw [encode_cons, encode_nil, List.prefix_nil] at h
    exact absurd (List.append_eq_nil_iff.mp h).1 (encodeCommand_ne_nil c)
  | c :: a, e :: b, ⟨rest, h⟩ => by
    rw [encode_cons, encode_cons, List.append_assoc] at h
    obtain ⟨rfl, hrest⟩ := encodeCommand_append_inj h
    exact (List.prefix_cons_inj c).mpr (prefix_of_encode ⟨rest, hrest⟩)

end Multibulk

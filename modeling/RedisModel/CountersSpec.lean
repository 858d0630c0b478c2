/-
When counters are exact.

* `decimalValue` — the number that a string is the decimal form of; `getLongLongFromObject_eq`: the
  parser sees the bytes before the first zero byte only;
* `call_spec` — what a command does, with the numbers as the code reads them;
* `counter_exact` — the commands are exact unless a string has a zero byte after such a number, or
  DECRBY has to subtract -2^63.
-/
import RedisModel.Counters
import RedisModel.KeyspaceRun
import Mathlib.Data.FinEnum
import Mathlib.Data.List.TakeWhile

open ByteBuffer RedisServer StringNumber RedisCommands

namespace Counters

/-! ### Decimal integers -/

/-- The value of a sign and what follows it. -/
def signedValue (p : Bool × Bytes) : ℤ :=
  if p.1 then -(digitsVal p.2 0 : ℤ) else digitsVal p.2 0

/-- The 64-bit number that a string is the decimal form of, with any sign and leading zeros; an
empty string stands for 0. -/
def decimalValue (s : Bytes) : Option ℤ :=
  if s = [] then some 0
  else if (splitSign s).2 ≠ [] ∧ (∀ c ∈ (splitSign s).2, isdigit c = true) ∧
      -2 ^ 63 ≤ signedValue (splitSign s) ∧ signedValue (splitSign s) < 2 ^ 63 then
    some (signedValue (splitSign s))
  else none

theorem splitSign_cons (c : UInt8) (s : Bytes) : splitSign (c :: s) =
    if c = 45 then (true, s) else if c = 43 then (false, s) else (false, c :: s) := by
  unfold splitSign
  split
  · rename_i heq
    obtain ⟨rfl, rfl⟩ := List.cons.inj heq
    rfl
  · rename_i heq
    obtain ⟨rfl, rfl⟩ := List.cons.inj heq
    rfl
  · rename_i hminus hplus
    rw [if_neg fun h => hminus s (by rw [h]), if_neg fun h => hplus s (by rw [h])]

theorem saturate_eq (v : ℤ) (rest : Bytes) :
    (saturate v rest).range = !decide (-2 ^ 63 ≤ v ∧ v < 2 ^ 63) ∧
      (saturate v rest).rest = rest ∧ (-2 ^ 63 ≤ v ∧ v < 2 ^ 63 → (saturate v rest).value = v) := by
  unfold saturate llongMin llongMax
  split
  · rename_i hlow
    rw [decide_eq_false (by omega)]
    exact ⟨rfl, rfl, by omega⟩
  · split
    · rename_i hhigh
      rw [decide_eq_false (by omega)]
      exact ⟨rfl, rfl, by omega⟩
    · rw [decide_eq_true (by omega)]
      exact ⟨rfl, rfl, fun _ => rfl⟩

theorem isspace_not_number {c : UInt8} (h : isspace c = true) :
    c ≠ 45 ∧ c ≠ 43 ∧ isdigit c = false := by
  unfold isspace at h
  unfold isdigit
  simp only [decide_eq_true_eq, decide_eq_false_iff_not, ne_eq, UInt8.le_iff_toNat_le,
    ← UInt8.toNat_inj, UInt8.reduceToNat] at h ⊢
  omega

theorem strtoll_cons {c : UInt8} {s : Bytes} (hspace : isspace c = false) :
    strtoll (c :: s) =
      if (splitSign (c :: s)).2.takeWhile isdigit = [] then ⟨0, false, c :: s⟩
      else saturate (signedValue ((splitSign (c :: s)).1, (splitSign (c :: s)).2.takeWhile isdigit))
        ((splitSign (c :: s)).2.dropWhile isdigit) := by
  rw [strtoll, List.dropWhile_cons_of_neg (by rw [hspace]; exact Bool.false_ne_true)]
  split
  · rfl
  · unfold signedValue
    dsimp only
    split <;> rfl

theorem parse_eq (c : UInt8) (t : Bytes) :
    (if isspace c = true ∨ (strtoll (c :: t)).rest ≠ [] ∨ (strtoll (c :: t)).range = true then none
      else some (strtoll (c :: t)).value) = decimalValue (c :: t) := by
  rw [decimalValue, if_neg (List.cons_ne_nil c t)]
  cases hspace : isspace c with
  | true =>
    obtain ⟨hminus, hplus, hdigit⟩ := isspace_not_number hspace
    rw [if_pos (Or.inl rfl), splitSign_cons, if_neg hminus, if_neg hplus, if_neg]
    rintro ⟨-, hall, -⟩
    have hc := hall c List.mem_cons_self
    rw [hdigit] at hc
    cases hc
  | false =>
    rw [strtoll_cons hspace]
    generalize splitSign (c :: t) = p
    by_cases hdigits : p.2.takeWhile isdigit = []
    · -- no digit was read, and `endptr` is the start of the string
      rw [if_pos hdigits, if_pos (Or.inr (Or.inl (List.cons_ne_nil c t))), if_neg]
      rintro ⟨hne, hall, -⟩
      rw [List.takeWhile_eq_self_iff.mpr hall] at hdigits
      exact hne hdigits
    · rw [if_neg hdigits]
      have hne : p.2 ≠ [] := fun hnil => hdigits (by rw [hnil]; rfl)
      obtain ⟨hrange, hrest, hvalue⟩ := saturate_eq
        (signedValue (p.1, p.2.takeWhile isdigit)) (p.2.dropWhile isdigit)
      rw [hrange, hrest]
      by_cases hall : ∀ x ∈ p.2, isdigit x = true
      · rw [List.takeWhile_eq_self_iff.mpr hall] at hvalue ⊢
        by_cases hfits : -2 ^ 63 ≤ signedValue p ∧ signedValue p < 2 ^ 63
        · rw [if_neg, if_pos ⟨hne, hall, hfits⟩, hvalue hfits]
          rintro (h | h | h)
          · cases h
          · exact h (List.dropWhile_eq_nil_iff.mpr hall)
          · rw [decide_eq_true hfits] at h
            cases h
        · rw [if_pos, if_neg fun h => hfits h.2.2]
          right
          right
          rw [decide_eq_false hfits]
          rfl
      · rw [if_pos, if_neg fun h => hall h.2.1]
        exact Or.inr (Or.inl fun hnil => hall (List.dropWhile_eq_nil_iff.mp hnil))

theorem getLongLongFromObject_eq (s : Bytes) :
    RedisCommands.getLongLongFromObject s = decimalValue (cString s) := by
  unfold RedisCommands.getLongLongFromObject
  cases cString s with
  | nil => rfl
  | cons c t => exact parse_eq c t

/-! ### Strings that are misread -/

/-- A string that is accepted is a decimal integer as a whole. -/
def Accepts (s : Bytes) : Prop :=
  ∀ v, RedisCommands.getLongLongFromObject s = some v → decimalValue s = some v

/-- There is no zero byte after a decimal integer, or after nothing. -/
def Clean (s : Bytes) : Prop := ¬ ((0 : UInt8) ∈ s ∧ (decimalValue (cString s)).isSome)

theorem cString_of_not_mem {s : Bytes} (h : (0 : UInt8) ∉ s) : cString s = s :=
  List.takeWhile_eq_self_iff.mpr fun _ hc => decide_eq_true fun hzero => h (hzero ▸ hc)

theorem decimalValue_of_mem {s : Bytes} (h : (0 : UInt8) ∈ s) : decimalValue s = none := by
  cases s with
  | nil => cases h
  | cons c t =>
    rw [decimalValue, if_neg (List.cons_ne_nil c t), if_neg]
    rintro ⟨-, hall, -⟩
    have hzero : (0 : UInt8) ∈ (splitSign (c :: t)).2 := by
      rw [splitSign_cons]
      split
      · rename_i hc
        rw [hc] at h
        exact (List.mem_cons.mp h).resolve_left (by decide)
      · split
        · rename_i hc
          rw [hc] at h
          exact (List.mem_cons.mp h).resolve_left (by decide)
        · exact h
    exact absurd (hall 0 hzero) (by decide)

theorem accepts_iff {s : Bytes} : Accepts s ↔ Clean s := by
  rw [Accepts, Clean, getLongLongFromObject_eq]
  by_cases hzero : (0 : UInt8) ∈ s
  · rw [decimalValue_of_mem hzero]
    cases hvalue : decimalValue (cString s) with
    | none => exact iff_of_true nofun fun h => by cases h.2
    | some v => exact iff_of_false (fun h => by cases h v rfl) fun h => h ⟨hzero, rfl⟩
  · rw [cString_of_not_mem hzero]
    exact iff_of_true (fun _ => id) fun h => hzero h.1

theorem Clean.parse_eq {s : Bytes} (h : Clean s) :
    RedisCommands.getLongLongFromObject s = decimalValue s := by
  by_cases hzero : (0 : UInt8) ∈ s
  · have hnone : decimalValue (cString s) = none := by
      rw [← Option.not_isSome_iff_eq_none]
      exact fun hsome => h ⟨hzero, hsome⟩
    rw [getLongLongFromObject_eq, hnone, decimalValue_of_mem hzero]
  · rw [getLongLongFromObject_eq, cString_of_not_mem hzero]

theorem isdigit_of_isDigit {c : UInt8} (h : IsDigit c) : isdigit c = true := decide_eq_true h

theorem decimalValue_ll2string {v : ℤ} (h : IsLong v) : decimalValue (ll2string v) = some v := by
  have hdigits : ∀ c ∈ ll2stringDigits 31 v.natAbs, isdigit c = true :=
    fun c hc => isdigit_of_isDigit (ll2stringDigits_isDigit 31 _ c hc)
  have hval : digitsVal (ll2stringDigits 31 v.natAbs) 0 = v.natAbs := digitsVal_ll2stringDigits (by
    have hlow := h.1
    have hhigh := h.2
    omega)
  have hne : ll2stringDigits 31 v.natAbs ≠ [] := by
    rw [ll2stringDigits]
    split
    · exact List.cons_ne_nil _ _
    · exact List.append_ne_nil_of_right_ne_nil _ (List.cons_ne_nil _ _)
  have hsplit : splitSign (ll2string v) = (decide (v < 0), ll2stringDigits 31 v.natAbs) := by
    rw [ll2string]
    split
    · rename_i hneg
      rw [decide_eq_true hneg]
      rfl
    · rename_i hpos
      rw [decide_eq_false hpos]
      cases hs : ll2stringDigits 31 v.natAbs with
      | nil => exact absurd hs hne
      | cons c t =>
        have hc := hdigits c (by rw [hs]; exact List.mem_cons_self)
        rw [splitSign_cons, if_neg, if_neg]
        · rintro rfl
          exact absurd hc (by decide)
        · rintro rfl
          exact absurd hc (by decide)
  have hvalue : signedValue (decide (v < 0), ll2stringDigits 31 v.natAbs) = v := by
    rw [signedValue, hval]
    dsimp only
    split
    · rename_i hneg
      rw [decide_eq_true_eq] at hneg
      omega
    · rename_i hpos
      rw [decide_eq_true_eq] at hpos
      omega
  have hnil : ll2string v ≠ [] := fun hnil => by
    rw [hnil] at hsplit
    exact hne (congrArg Prod.snd hsplit).symm
  rw [decimalValue, if_neg hnil, hsplit, hvalue, if_pos ⟨hne, hdigits, h⟩]

/-! ### The commands -/

instance : DecidablePred IsLong := fun _ => inferInstanceAs (Decidable (_ ∧ _))

theorem overflows_eq {incr value : ℤ} (hincr : IsLong incr) (hvalue : IsLong value) :
    overflows incr value = !decide (IsLong (value + incr)) := by
  rw [overflows, ← decide_not, decide_eq_decide]
  unfold IsLong at *
  unfold llongMin llongMax
  omega

/-- What a command reads in the object of its key; `none` is a wrong type. -/
def CounterCommand.read : CounterCommand → Option Value → Option (Option StringValue)
  | .hincrby field _, o => (checkHash o).toOption.map (· field)
  | _, o => (checkString o).toOption

def CounterCommand.argument : CounterCommand → Option Bytes
  | .incr | .decr => none
  | .incrby arg | .decrby arg | .hincrby _ arg => some arg

/-- The sign of the change. -/
def CounterCommand.sign : CounterCommand → ℤ
  | .decr | .decrby _ => -1
  | _ => 1

/-- The number in the argument. -/
def CounterCommand.amount (parse : Bytes → Option ℤ) (cmd : CounterCommand) : Option ℤ :=
  cmd.argument.elim (some 1) parse

/-- The number that is stored, or 0 if there is none. -/
def CounterCommand.operand (parse : Bytes → Option ℤ) (cmd : CounterCommand) (o : Option Value) :
    Option ℤ :=
  (cmd.read o).bind fun stored => stored.elim (some 0) fun x => parse x.text

/-- A sum that must fit in 64 bits. -/
def checkedAdd (value incr : ℤ) : Option ℤ :=
  if IsLong (value + incr) then some (value + incr) else none

/-- The exact result, if the strings are integers and it fits in 64 bits. -/
def CounterCommand.exact (cmd : CounterCommand) (o : Option Value) : Option ℤ := do
  let incr ← cmd.amount decimalValue
  let value ← cmd.operand decimalValue o
  checkedAdd value (cmd.sign * incr)

/-- The change in the code, which negates the argument of DECRBY in 64 bits. -/
def CounterCommand.change : CounterCommand → ℤ → ℤ
  | .decr, _ => -1
  | .decrby _, v => toLong (-v)
  | _, v => v

/-- The result in the code, with its parser. -/
def CounterCommand.result (cmd : CounterCommand) (o : Option Value) : Option ℤ := do
  let incr ← cmd.amount RedisCommands.getLongLongFromObject
  let value ← cmd.operand RedisCommands.getLongLongFromObject o
  checkedAdd value (cmd.change incr)

section
variable {C : Type}

/-- The result is stored and is the reply; or the reply is an error and nothing has changed. -/
def Settles (read : Option Value → Option (Option StringValue)) (n : Option ℤ)
    (w : CounterServer C) (d : ℕ) (key : Bytes) (w' : CounterServer C) (reply : StringReply) :
    Prop :=
  match n with
  | some n => reply = .integer n ∧
      ∃ x, read ((w'.keyspace.db d).dict key) = some (some x) ∧ x.text = ll2string n
  | none => (∃ message, reply = .error message) ∧ w'.keyspace.db = w.keyspace.db ∧
      w'.dirty = w.dirty

variable {w w' : CounterServer C} {d : ℕ} {key : Bytes} {reply : StringReply}

theorem Settles.unique {read : Option Value → Option (Option StringValue)} {n m : Option ℤ}
    (h : Settles read n w d key w' reply) (h' : Settles read m w d key w' reply) : n = m := by
  cases n with
  | none =>
    cases m with
    | none => rfl
    | some m =>
      obtain ⟨message, hmessage⟩ := h.1
      rw [h'.1] at hmessage
      cases hmessage
  | some n =>
    cases m with
    | none =>
      obtain ⟨message, hmessage⟩ := h'.1
      rw [h.1] at hmessage
      cases hmessage
    | some m => rw [StringReply.integer.inj (h.1.symm.trans h'.1)]

theorem getLongLongFromObject_text (x : StringValue) :
    getLongLongFromObject (some x) = RedisCommands.getLongLongFromObject x.text := by
  cases x with
  | raw s => rfl
  | int value hvalue =>
    have hzero : (0 : UInt8) ∉ ll2string value := by
      intro h
      have hsome := decimalValue_ll2string hvalue
      rw [decimalValue_of_mem h] at hsome
      cases hsome
    show some value = RedisCommands.getLongLongFromObject (ll2string value)
    rw [getLongLongFromObject_eq, cString_of_not_mem hzero, decimalValue_ll2string hvalue]

theorem isLong_getLongLong {o : Option StringValue} {v : ℤ} (h : getLongLongFromObject o = some v) :
    IsLong v := by
  match o, h with
  | none, h =>
    obtain rfl := Option.some_inj.mp h
    exact ⟨by decide, by decide⟩
  | some (.int value hvalue), h =>
    obtain rfl := Option.some_inj.mp h
    exact hvalue
  | some (.raw s), h =>
    have hs : RedisCommands.getLongLongFromObject s = some v := h
    exact isLong_getLong (by rw [getLongFromObjectOrReply, hs])

theorem text_createStringObject {v : ℤ} (h : IsLong v) :
    (createStringObjectFromLongLong v).text = ll2string v := by
  rw [createStringObjectFromLongLong, StringValue.text, toLong_of_range h.1 h.2]

theorem dbStore_spec {V : Type} {s : RedisServer C V} (h : Indexed s)
    (hd : s.clusterEnabled = true → d = 0) {old : Option V} (hold : old = (s.db d).dict key)
    (val : V) : (dbStore s d key old val).Ensures (fun _ => False) fun r =>
      (r.db d).dict key = some val := by
  have hdb : ∀ {r : RedisServer C V}, r.db = (s.setDb d { s.db d with
      dict := Function.update (s.db d).dict key (some val) }).db → (r.db d).dict key = some val :=
    fun hr => by rw [hr, setDb_self]; exact Function.update_self _ _ _
  cases old with
  | none => exact (dbAdd_spec h hd hold.symm val).imp fun r hr => hdb hr.2.2
  | some o =>
    exact (dbOverwrite_spec h (by rw [← hold]; rfl) val).imp fun r hr => hdb hr.2.2

theorem lookup_found (h : Indexed w.keyspace) (hd : w.keyspace.clusterEnabled = true → d = 0)
    (key : Bytes) (now : ℤ) :
    (lookupKeyWrite w.keyspace d key now).Ensures (fun _ => False) fun r =>
      Indexed r.1 ∧ (r.1.clusterEnabled = true → d = 0) ∧ r.2 = found w.keyspace d now key ∧
        r.2 = (r.1.db d).dict key ∧ (r.2 ≠ none → r.1.db = w.keyspace.db) := by
  refine (((lookupKeyWrite_spec h hd key now).and (lookupKeyWrite_found h hd key now)).and
    (lookupKeyWrite_cases h hd key now)).imp fun r hr => ?_
  obtain ⟨⟨⟨hindexed, hrest, -, hdict⟩, -, -, hfound, -⟩, -, -, hcases⟩ := hr
  refine ⟨hindexed, fun hcluster => hd (hrest.clusterEnabled ▸ hcluster), hfound, hdict, ?_⟩
  intro hne
  obtain ⟨-, -, -, hsame⟩ | ⟨hnone, -⟩ := hcases
  · exact hsame
  · exact absurd hnone hne

theorem hashTypeCreate_spec {s : RedisServer C Value} (h : Indexed s)
    (hd : s.clusterEnabled = true → d = 0) {old : Option Value} (hold : old = (s.db d).dict key)
    (fields : Bytes → Option StringValue) :
    (if old.isNone then dbAdd s d key (.hash fields) else .ok s).Ensures (fun _ => False) fun r =>
      Indexed r ∧ ((r.db d).dict key).isSome ∧ (old ≠ none → r.db = s.db) := by
  cases old with
  | none =>
    refine (dbAdd_spec h hd hold.symm _).imp fun r hr => ⟨hr.1, ?_, nofun⟩
    rw [hr.2.2, setDb_self]
    simp
  | some o => exact ⟨h, by rw [← hold]; rfl, fun _ => rfl⟩

variable [DecidableEq C] {now incr : ℤ}

theorem checkString_error {o : Option Value} {reply : StringReply}
    (h : checkString o = .error reply) : o ≠ none ∧ ∃ message, reply = .error message := by
  unfold checkString at h
  split at h <;> cases h
  exact ⟨nofun, _, rfl⟩

theorem incrDecrCommand_spec (h : Indexed w.keyspace)
    (hd : w.keyspace.clusterEnabled = true → d = 0) (hincr : IsLong incr) :
    (incrDecrCommand w d key incr now).Ensures (fun _ => False) fun r =>
      Settles (fun o => (checkString o).toOption)
        ((checkString (found w.keyspace d now key)).toOption.bind fun o =>
          (getLongLongFromObject o).bind fun value => checkedAdd value incr)
        w d key r.1 r.2 := by
  refine (lookup_found h hd key now).bind fun r hr => ?_
  obtain ⟨hindexed, hzero, hfound, hdict, hsame⟩ := hr
  rw [← hfound]
  dsimp only
  cases hcheck : checkString r.2 with
  | error reply =>
    obtain ⟨hne, message, rfl⟩ := checkString_error hcheck
    exact ⟨⟨message, rfl⟩, hsame hne, rfl⟩
  | ok o =>
    dsimp only [Except.toOption, Option.bind_some]
    cases hvalue : getLongLongFromObject o with
    | none =>
      have hne : r.2 ≠ none := by
        intro hnone
        rw [hnone] at hcheck
        obtain rfl := Except.ok.inj hcheck
        cases hvalue
      exact ⟨⟨_, rfl⟩, hsame hne, rfl⟩
    | some value =>
      dsimp only [Option.bind_some]
      rw [overflows_eq hincr (isLong_getLongLong hvalue)]
      by_cases hfits : IsLong (value + incr)
      · rw [checkedAdd, if_pos hfits, if_neg (by rw [decide_eq_true hfits]; nofun)]
        refine (dbStore_spec hindexed hzero hdict _).bind fun s hs => ?_
        refine ⟨by rw [toLong_of_range hfits.1 hfits.2], _, ?_, text_createStringObject hfits⟩
        have hdb : ((signalModifiedKey s d key).db d).dict key = (s.db d).dict key := rfl
        dsimp only
        rw [hdb, hs]
        rfl
      · have hne : r.2 ≠ none := by
          intro hnone
          rw [hnone] at hcheck
          obtain rfl := Except.ok.inj hcheck
          obtain rfl := Option.some_inj.mp hvalue
          exact hfits (by rwa [zero_add])
        rw [checkedAdd, if_neg hfits, if_pos (by rw [decide_eq_false hfits]; rfl)]
        exact ⟨⟨_, rfl⟩, hsame hne, rfl⟩

theorem checkHash_error {o : Option Value} {reply : StringReply}
    (h : checkHash o = .error reply) : o ≠ none ∧ ∃ message, reply = .error message := by
  unfold checkHash at h
  split at h <;> cases h
  exact ⟨nofun, _, rfl⟩

theorem hincrbyCommand_spec (h : Indexed w.keyspace)
    (hd : w.keyspace.clusterEnabled = true → d = 0) {field arg : Bytes} :
    (hincrbyCommand w d key field arg now).Ensures (fun _ => False) fun r =>
      Settles (fun o => (checkHash o).toOption.map (· field))
        ((RedisCommands.getLongLongFromObject arg).bind fun incr =>
          ((checkHash (found w.keyspace d now key)).toOption.map (· field)).bind fun o =>
            (getLongLongFromObject o).bind fun value => checkedAdd value incr)
        w d key r.1 r.2 := by
  unfold hincrbyCommand getLongFromObjectOrReply
  cases harg : RedisCommands.getLongLongFromObject arg with
  | none => exact ⟨⟨_, rfl⟩, rfl, rfl⟩
  | some incr =>
    have hincr : IsLong incr := isLong_getLong (by rw [getLongFromObjectOrReply, harg])
    refine (lookup_found h hd key now).bind fun r hr => ?_
    obtain ⟨hindexed, hzero, hfound, hdict, hsame⟩ := hr
    rw [← hfound]
    dsimp only [Option.bind_some]
    cases hcheck : checkHash r.2 with
    | error reply =>
      obtain ⟨hne, message, rfl⟩ := checkHash_error hcheck
      exact ⟨⟨message, rfl⟩, hsame hne, rfl⟩
    | ok fields =>
      dsimp only [Except.toOption, Option.map_some, Option.bind_some]
      refine (hashTypeCreate_spec hindexed hzero hdict fields).bind fun s hs => ?_
      obtain ⟨hs, hkey, hkept⟩ := hs
      cases hvalue : getLongLongFromObject (fields field) with
      | none =>
        have hne : r.2 ≠ none := by
          intro hnone
          rw [hnone] at hcheck
          obtain rfl := Except.ok.inj hcheck
          cases hvalue
        exact ⟨⟨_, rfl⟩, (hkept hne).trans (hsame hne), rfl⟩
      | some value =>
        dsimp only [Option.bind_some]
        rw [overflows_eq hincr (isLong_getLongLong hvalue)]
        by_cases hfits : IsLong (value + incr)
        · rw [checkedAdd, if_pos hfits, if_neg (by rw [decide_eq_true hfits]; nofun)]
          refine (dbOverwrite_spec hs hkey _).bind fun s' hs' => ?_
          refine ⟨by rw [toLong_of_range hfits.1 hfits.2], _, ?_, text_createStringObject hfits⟩
          have hdb : ((signalModifiedKey s' d key).db d).dict key = (s'.db d).dict key := rfl
          dsimp only
          rw [hdb, hs'.2.2, setDb_self]
          dsimp only
          rw [Function.update_self]
          exact congrArg some (Function.update_self _ _ _)
        · have hne : r.2 ≠ none := by
            intro hnone
            rw [hnone] at hcheck
            obtain rfl := Except.ok.inj hcheck
            obtain rfl := Option.some_inj.mp hvalue
            exact hfits (by rwa [zero_add])
          rw [checkedAdd, if_neg hfits, if_pos (by rw [decide_eq_false hfits]; rfl)]
          exact ⟨⟨_, rfl⟩, (hkept hne).trans (hsame hne), rfl⟩

theorem result_eq (cmd : CounterCommand) (o : Option Value) : cmd.result o =
    (cmd.amount RedisCommands.getLongLongFromObject).bind fun incr =>
      (cmd.read o).bind fun stored => (getLongLongFromObject stored).bind fun value =>
        checkedAdd value (cmd.change incr) := by
  have hoperand : cmd.operand RedisCommands.getLongLongFromObject o =
      (cmd.read o).bind getLongLongFromObject := by
    unfold CounterCommand.operand
    congr 1
    funext stored
    cases stored with
    | none => rfl
    | some x => exact (getLongLongFromObject_text x).symm
  unfold CounterCommand.result
  rw [hoperand]
  exact congrArg _ (funext fun incr => Option.bind_assoc _ _ _)

theorem incrDecr_argument (h : Indexed w.keyspace)
    (hd : w.keyspace.clusterEnabled = true → d = 0) (arg : Bytes) {change : ℤ → ℤ}
    (hchange : ∀ v, IsLong v → IsLong (change v))
    {run : Except Failure (CounterServer C × StringReply)}
    (hrun : run = match getLongFromObjectOrReply arg with
      | .error reply => .ok (w, reply)
      | .ok v => incrDecrCommand w d key (change v) now) :
    run.Ensures (fun _ => False) fun r =>
      Settles (fun o => (checkString o).toOption)
        ((RedisCommands.getLongLongFromObject arg).bind fun v =>
          (checkString (found w.keyspace d now key)).toOption.bind fun o =>
            (getLongLongFromObject o).bind fun value => checkedAdd value (change v))
        w d key r.1 r.2 := by
  rw [hrun]
  unfold getLongFromObjectOrReply
  cases harg : RedisCommands.getLongLongFromObject arg with
  | none => exact ⟨⟨_, rfl⟩, rfl, rfl⟩
  | some v =>
    exact incrDecrCommand_spec h hd
      (hchange v (isLong_getLong (by rw [getLongFromObjectOrReply, harg])))

theorem call_spec (h : Indexed w.keyspace) (hd : w.keyspace.clusterEnabled = true → d = 0)
    (cmd : CounterCommand) : (call w d key now cmd).Ensures (fun _ => False) fun r =>
      Settles cmd.read (cmd.result (found w.keyspace d now key)) w d key r.1 r.2 := by
  rw [result_eq]
  cases cmd with
  | incr => exact incrDecrCommand_spec h hd (by decide)
  | decr => exact incrDecrCommand_spec h hd (by decide)
  | incrby arg => exact incrDecr_argument h hd arg (fun _ hv => hv) rfl
  | decrby arg => exact incrDecr_argument h hd arg (fun _ _ => isLong_toLong _) rfl
  | hincrby field arg => exact hincrbyCommand_spec h hd

end

/-! ### When the result is exact -/

/-- The strings that a command takes for numbers. -/
def CounterCommand.texts (cmd : CounterCommand) (o : Option Value) : List Bytes :=
  cmd.argument.toList ++ (((cmd.read o).bind id).map StringValue.text).toList

/-- The strings are taken for what they are, and the result is the exact one. -/
def CounterRight {C : Type} [DecidableEq C] (w : CounterServer C) (d : ℕ) (key : Bytes) (now : ℤ)
    (cmd : CounterCommand) : Prop :=
  (∀ t ∈ cmd.texts (found w.keyspace d now key), Accepts t) ∧
    ∃ w' reply, call w d key now cmd = .ok (w', reply) ∧
      Settles cmd.read (cmd.exact (found w.keyspace d now key)) w d key w' reply

/-- No string has a zero byte after a number, and DECRBY does not subtract -2^63 from a number. -/
def CounterOk {C : Type} (w : CounterServer C) (d : ℕ) (key : Bytes) (now : ℤ)
    (cmd : CounterCommand) : Prop :=
  (∀ t ∈ cmd.texts (found w.keyspace d now key), Clean t) ∧
    ∀ arg, cmd = .decrby arg → decimalValue arg = some (-2 ^ 63) →
      cmd.operand decimalValue (found w.keyspace d now key) = none

theorem amount_of_clean {cmd : CounterCommand} {o : Option Value}
    (h : ∀ t ∈ cmd.texts o, Clean t) :
    cmd.amount RedisCommands.getLongLongFromObject = cmd.amount decimalValue := by
  unfold CounterCommand.amount
  cases harg : cmd.argument with
  | none => rfl
  | some arg =>
    refine Clean.parse_eq (h arg (List.mem_append_left _ ?_))
    rw [harg]
    exact List.mem_singleton_self arg

theorem operand_of_clean {cmd : CounterCommand} {o : Option Value}
    (h : ∀ t ∈ cmd.texts o, Clean t) :
    cmd.operand RedisCommands.getLongLongFromObject o = cmd.operand decimalValue o := by
  unfold CounterCommand.operand
  cases hread : cmd.read o with
  | none => rfl
  | some stored =>
    cases stored with
    | none => rfl
    | some x =>
      refine Clean.parse_eq (h x.text (List.mem_append_right _ ?_))
      rw [hread]
      exact List.mem_singleton_self x.text

theorem isLong_decimalValue {s : Bytes} {v : ℤ} (h : decimalValue s = some v) : IsLong v := by
  unfold decimalValue at h
  split at h
  · obtain rfl := Option.some_inj.mp h
    exact ⟨by decide, by decide⟩
  · split at h
    · rename_i hs
      obtain rfl := Option.some_inj.mp h
      exact hs.2.2
    · cases h

theorem isLong_operand {cmd : CounterCommand} {o : Option Value} {v : ℤ}
    (h : cmd.operand decimalValue o = some v) : IsLong v := by
  unfold CounterCommand.operand at h
  obtain ⟨stored, -, hstored⟩ := Option.bind_eq_some_iff.mp h
  cases stored with
  | none =>
    obtain rfl := Option.some_inj.mp hstored
    exact ⟨by decide, by decide⟩
  | some x => exact isLong_decimalValue hstored

/-- The change is the exact one, unless DECRBY negates -2^63. -/
theorem change_eq {cmd : CounterCommand} {v : ℤ} (h : cmd.amount decimalValue = some v)
    (hmin : ∀ arg, cmd = .decrby arg → v ≠ -2 ^ 63) : cmd.change v = cmd.sign * v := by
  cases cmd with
  | incr => exact (one_mul v).symm
  | decr =>
    obtain rfl := Option.some_inj.mp h
    rfl
  | incrby arg => exact (one_mul v).symm
  | decrby arg =>
    have hv := isLong_decimalValue h
    have hne := hmin arg rfl
    unfold IsLong at hv
    rw [CounterCommand.change, CounterCommand.sign, neg_one_mul,
      toLong_of_range (by omega) (by omega)]
  | hincrby field arg => exact (one_mul v).symm

/-- The number -2^63 is subtracted by adding it, which is wrong for every number. -/
theorem checkedAdd_min {v : ℤ} (h : IsLong v) :
    checkedAdd v (toLong (- -2 ^ 63)) ≠ checkedAdd v (-1 * -2 ^ 63) := by
  have hmin : toLong (- -2 ^ 63) = -2 ^ 63 := by decide
  rw [hmin, checkedAdd, checkedAdd]
  unfold IsLong at h
  by_cases hneg : v < 0
  · rw [if_neg fun hlow => by have := hlow.1; omega, if_pos ⟨by omega, by omega⟩]
    nofun
  · rw [if_pos ⟨by omega, by omega⟩, if_neg fun hhigh => by have := hhigh.2; omega]
    nofun

theorem result_eq_exact {cmd : CounterCommand} {o : Option Value}
    (h : ∀ t ∈ cmd.texts o, Clean t) : cmd.result o = cmd.exact o ↔
      ∀ arg, cmd = .decrby arg → decimalValue arg = some (-2 ^ 63) →
        cmd.operand decimalValue o = none := by
  unfold CounterCommand.result CounterCommand.exact
  rw [amount_of_clean h, operand_of_clean h]
  have hamount : ∀ arg, cmd = .decrby arg → cmd.amount decimalValue = decimalValue arg := by
    rintro arg rfl
    rfl
  cases hincr : cmd.amount decimalValue with
  | none =>
    refine iff_of_true rfl fun arg hcmd hmin => ?_
    rw [← hamount arg hcmd, hincr] at hmin
    cases hmin
  | some v =>
    cases hvalue : cmd.operand decimalValue o with
    | none => exact iff_of_true rfl fun _ _ _ => rfl
    | some value =>
      simp only [Option.bind_eq_bind, Option.bind_some]
      by_cases hmin : ∃ arg, cmd = .decrby arg ∧ v = -2 ^ 63
      · obtain ⟨arg, rfl, rfl⟩ := hmin
        refine iff_of_false (checkedAdd_min (isLong_operand hvalue)) fun hnone => ?_
        cases hnone arg rfl hincr
      · rw [change_eq hincr fun arg hcmd hv => hmin ⟨arg, hcmd, hv⟩]
        refine iff_of_true rfl fun arg hcmd hv => ?_
        rw [← hamount arg hcmd, hincr] at hv
        exact absurd ⟨arg, hcmd, Option.some_inj.mp hv⟩ hmin

theorem counterRight_iff {C : Type} [DecidableEq C] {w : CounterServer C} {d : ℕ} {key : Bytes}
    (h : Indexed w.keyspace) (hd : w.keyspace.clusterEnabled = true → d = 0) (now : ℤ)
    (cmd : CounterCommand) : CounterRight w d key now cmd ↔ CounterOk w d key now cmd := by
  obtain ⟨r, hcall, hspec⟩ : ∃ r, call w d key now cmd = .ok r ∧
      Settles cmd.read (cmd.result (found w.keyspace d now key)) w d key r.1 r.2 :=
    (call_spec h hd cmd).returns
  unfold CounterRight CounterOk
  simp only [accepts_iff]
  refine and_congr_right fun hclean => ?_
  rw [← result_eq_exact hclean]
  constructor
  · rintro ⟨w', reply, hcall', hexact⟩
    obtain rfl := Except.ok.inj (hcall.symm.trans hcall')
    exact hspec.unique hexact
  · intro heq
    exact ⟨r.1, r.2, hcall, heq ▸ hspec⟩

/-- In every state that a run reaches, and for every string that is stored and every argument: the
strings are accepted only if they are decimal integers as a whole, and the result is exact, if and
only if none has a zero byte after a number and DECRBY does not subtract -2^63 from a number. -/
theorem counter_exact {C : Type} [DecidableEq C] (dbs : ℕ) (clusterEnabled : Bool)
    (clients : List C) (levels : ℕ → Fin 32) {es : List (KeyspaceEvent C Value)}
    {s : RedisServer C Value} (hrun : Runs.run (fun s e => (keyspaceStep s e).toOption)
      (initServer dbs clusterEnabled clients levels) es = some s) (dirty : ℕ) (c : C)
    (key : Bytes) (now : ℤ) (cmd : CounterCommand) :
    CounterRight ⟨s, dirty⟩ (s.client c).db key now cmd ↔
      CounterOk ⟨s, dirty⟩ (s.client c).db key now cmd := by
  obtain ⟨s', hrun', hsound⟩ :=
    run_sound (sound_initServer dbs clusterEnabled clients levels : Sound _) es
  obtain rfl := Option.some_inj.mp (hrun'.symm.trans hrun)
  exact counterRight_iff (w := ⟨s', dirty⟩) hsound.indexed (fun hc => hsound.zero hc c) now cmd

/-- `DECRBY a -3` when the value is `5`. -/
theorem counter_exact_five : ∃ s : RedisServer Unit Value,
    Runs.run (fun s e => (keyspaceStep s e).toOption) (initServer 15 false [()] fun _ => 0)
      [.call () 5 (.set [97] (.string (.raw [53])) false false none)] = some s ∧
    (CounterRight ⟨s, 1⟩ (s.client ()).db [97] 6 (.decrby [45, 51]) ↔
      CounterOk ⟨s, 1⟩ (s.client ()).db [97] 6 (.decrby [45, 51])) := by
  refine ⟨_, rfl, ?_⟩
  exact counter_exact 15 false [()] (fun _ => 0)
    (show Runs.run (fun s e => (keyspaceStep s e).toOption) (initServer 15 false [()] fun _ => 0)
      [.call () 5 (.set [97] (.string (.raw [53])) false false none)] = some _ from rfl)
    1 () [97] 6 (.decrby [45, 51])

/-- The value is five, a zero byte and a letter: INCR makes it 6.  DECRBY of -2^63 from 6 replies
-2^63 + 6. -/
theorem counter_inexact : ∃ s s₁ s₂ : RedisServer Unit Value,
    Runs.run (fun s e => (keyspaceStep s e).toOption) (initServer 15 false [()] fun _ => 0)
      [.call () 5 (.set [97] (.string (.raw [53, 0, 120])) false false none)] = some s ∧
    call ⟨s, 1⟩ 0 [97] 6 .incr = .ok (⟨s₁, 2⟩, .integer 6) ∧
    decimalValue [53, 0, 120] = none ∧
    call ⟨s₁, 2⟩ 0 [97] 7
      (.decrby [45, 57, 50, 50, 51, 51, 55, 50, 48, 51, 54, 56, 53, 52, 55, 55, 53, 56, 48, 56]) =
        .ok (⟨s₂, 3⟩, .integer (-2 ^ 63 + 6)) ∧
    decimalValue [45, 57, 50, 50, 51, 51, 55, 50, 48, 51, 54, 56, 53, 52, 55, 55, 53, 56, 48, 56] =
      some (-2 ^ 63) ∧
    ¬ CounterRight ⟨s, 1⟩ 0 [97] 6 .incr := by
  refine ⟨_, _, _, rfl, rfl, rfl, rfl, by decide +kernel, ?_⟩
  rintro ⟨haccepts, -⟩
  cases haccepts [53, 0, 120] (List.mem_singleton_self _) 5 rfl

end Counters

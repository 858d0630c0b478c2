/-
Arguments of commands and the C functions that read them.

* `ArgVector` — the arguments of a command;
* `strcasecmp`, `strtoll`, `atoi` — the functions of the C library;
* `getLongLongFromObject` — the strict parser that the commands use;
* `atoi_of_getLongLongFromObject` — where the strict parser accepts, `atoi` gives the low 32
  bits of the same value.
-/
import RedisModel.StringNumber
import Mathlib.Tactic.NormNum

namespace RedisCommands

open StringNumber

/-- The arguments of a command; `argc` is an `int`. -/
structure ArgVector where
  args : List Bytes
  length_lt : args.length < 2 ^ 31

namespace ArgVector

def argc (argv : ArgVector) : ℕ := argv.args.length

/-- `argv[i]->ptr`. -/
def arg (argv : ArgVector) (i : ℕ) : Bytes := argv.args.getD i []

end ArgVector

/-! ### The C library -/

/-- What a C function sees of a string: the bytes before the first zero byte. -/
def cString (s : Bytes) : Bytes := s.takeWhile (· ≠ 0)

/-- A string literal. -/
def ascii (s : List Char) : Bytes := s.map fun c => UInt8.ofNat c.toNat

def isspace (c : UInt8) : Bool := c = 32 ∨ (9 ≤ c ∧ c ≤ 13)

def isdigit (c : UInt8) : Bool := 48 ≤ c ∧ c ≤ 57

def tolower (c : UInt8) : UInt8 := if 65 ≤ c ∧ c ≤ 90 then c + 32 else c

/-- `!strcasecmp(a,b)`. -/
def strcasecmp (a b : Bytes) : Bool := (cString a).map tolower = (cString b).map tolower

/-- What `strtoll` returns: the value, whether `errno` is `ERANGE`, and what `endptr` points to. -/
structure Strtoll where
  value : ℤ
  range : Bool
  rest : Bytes

/-- The sign and what follows it. -/
def splitSign : Bytes → Bool × Bytes
  | 45 :: s => (true, s)
  | 43 :: s => (false, s)
  | s => (false, s)

/-- A value that is not a `long long` is replaced by the closest one. -/
def saturate (v : ℤ) (rest : Bytes) : Strtoll :=
  if v < llongMin then ⟨llongMin, true, rest⟩
  else if (llongMax : ℤ) < v then ⟨llongMax, true, rest⟩
  else ⟨v, false, rest⟩

/-- `strtoll` in base 10. -/
def strtoll (s : Bytes) : Strtoll :=
  let p := splitSign (s.dropWhile isspace)
  let digits := p.2.takeWhile isdigit
  let rest := p.2.dropWhile isdigit
  if digits = [] then ⟨0, false, s⟩
  else if p.1 then saturate (-(digitsVal digits 0 : ℤ)) rest
  else saturate (digitsVal digits 0) rest

/-- A `long long` that is stored in an `int`. -/
def toInt (v : ℤ) : ℤ := v.bmod (2 ^ 32)

/-- `atoi`, which is `(int)strtol(s,NULL,10)`. -/
def atoi (s : Bytes) : ℤ := toInt (strtoll (cString s)).value

/-- `getLongLongFromObject` of a string. -/
def getLongLongFromObject (s : Bytes) : Option ℤ :=
  let r := strtoll (cString s)
  if (cString s).head?.any isspace ∨ r.rest ≠ [] ∨ r.range then none else some r.value

/-! ### Both parsers -/

theorem toInt_of_lt {v : ℤ} (h₀ : 0 ≤ v) (h : v < 2 ^ 31) : toInt v = v := by
  rw [toInt, Int.bmod_eq_of_le] <;> omega

theorem atoi_of_getLongLongFromObject {s : Bytes} {v : ℤ}
    (h : getLongLongFromObject s = some v) : atoi s = toInt v := by
  simp only [getLongLongFromObject] at h
  split at h
  · cases h
  · exact congrArg toInt (Option.some_inj.mp h)

end RedisCommands

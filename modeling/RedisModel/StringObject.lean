/-
String objects and the arguments of commands on them.

A string object is an `sds` or, if it is the decimal form of a `long`, that number.  Arguments of
type `long` are read by `getLongFromObjectOrReply`; arithmetic on them wraps.
-/
import RedisModel.CommandArguments

open ByteBuffer StringNumber

/-- A value: a string in one of its encodings, or something else. -/
inductive Robj where
  /-- `REDIS_ENCODING_RAW` and `REDIS_ENCODING_EMBSTR`. -/
  | raw (s : Bytes)
  /-- `REDIS_ENCODING_INT`. -/
  | int (value : ℤ)
  | other
  deriving DecidableEq, Repr

/-- The bytes of a string, which `ll2string` prints if it is encoded as a number; `none` is the
answer of `checkType`. -/
def Robj.text : Robj → Option Bytes
  | .raw s => some s
  | .int value => some (ll2string value)
  | .other => none

theorem Robj.text_eq_none {o : Robj} : o.text = none ↔ o = .other := by
  cases o with
  | other => exact iff_of_true rfl rfl
  | raw s => exact iff_of_false nofun nofun
  | int v => exact iff_of_false nofun nofun

/-- `tryObjectEncoding`, of an argument of a command. -/
def tryObjectEncoding (s : Bytes) : Robj :=
  if s.length ≤ 21 then
    match string2ll s with
    | some value => .int value
    | none => .raw s
  else .raw s

@[simp] theorem text_tryObjectEncoding (s : Bytes) : (tryObjectEncoding s).text = some s := by
  unfold tryObjectEncoding
  split
  · split
    · rename_i value hvalue
      exact congrArg some (ll2string_string2ll hvalue)
    · rfl
  · rfl

inductive StringReply where
  | integer (n : ℤ)
  | bulk (s : Bytes)
  | error (message : String)
  deriving DecidableEq, Repr

namespace StringReply

def czero : StringReply := .integer 0

def emptybulk : StringReply := .bulk []

def wrongtypeerr : StringReply :=
  .error "-WRONGTYPE Operation against a key holding the wrong kind of value\r\n"

def syntaxerr : StringReply := .error "-ERR syntax error\r\n"

def notInteger : StringReply := .error "-ERR value is not an integer or out of range\r\n"

end StringReply

/-- A value that is stored in a `long`. -/
def toLong (v : ℤ) : ℤ := v.bmod (2 ^ 64)

theorem toLong_of_range {v : ℤ} (hmin : -2 ^ 63 ≤ v) (hmax : v < 2 ^ 63) : toLong v = v := by
  rw [toLong, Int.bmod_eq_of_le] <;> omega

/-- `getLongFromObjectOrReply`; `long` and `long long` have the same range. -/
def getLongFromObjectOrReply (s : Bytes) : Except StringReply ℤ :=
  match RedisCommands.getLongLongFromObject s with
  | some v => .ok v
  | none => .error .notInteger

/-- The values of a `long`. -/
def IsLong (v : ℤ) : Prop := -2 ^ 63 ≤ v ∧ v < 2 ^ 63

theorem isLong_toLong (v : ℤ) : IsLong (toLong v) :=
  ⟨Int.le_bmod (by norm_num), Int.bmod_lt (by norm_num)⟩

theorem toLong_congr (v : ℤ) : ∃ k, toLong v = v - 2 ^ 64 * k :=
  ⟨v.bdiv (2 ^ 64), Int.bmod_eq_self_sub_mul_bdiv v (2 ^ 64)⟩

theorem saturate_range (v : ℤ) (rest : Bytes) : IsLong (RedisCommands.saturate v rest).value := by
  unfold RedisCommands.saturate IsLong llongMin llongMax
  split
  · exact ⟨by norm_num, by norm_num⟩
  · split
    · exact ⟨by norm_num, by norm_num⟩
    · exact ⟨by dsimp only; omega, by dsimp only; omega⟩

theorem isLong_getLong {s : Bytes} {v : ℤ} (h : getLongFromObjectOrReply s = .ok v) : IsLong v := by
  unfold getLongFromObjectOrReply RedisCommands.getLongLongFromObject at h
  split at h
  · rename_i w hw
    cases h
    dsimp only at hw
    split at hw
    · cases hw
    · obtain rfl := Option.some_inj.mp hw
      unfold RedisCommands.strtoll
      dsimp only
      split
      · exact ⟨by norm_num, by norm_num⟩
      · split
        · exact saturate_range _ _
        · exact saturate_range _ _
  · cases h

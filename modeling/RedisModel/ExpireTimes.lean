/-
The times of expires (`expireGenericCommand`, `setGenericCommand`).

* `expireGenericCommand` — EXPIRE, PEXPIRE, EXPIREAT and PEXPIREAT;
* `setGenericCommand` — SETEX, PSETEX and SET with `EX` or `PX`;
* `expire_times` — when the expire of the key becomes the exact one.

Every command reads the clock several times.  The sums and products are of type `long long`.
-/
import RedisModel.KeyMoves
import RedisModel.StringObject

open Except ByteBuffer KeyMoves RedisServer

namespace ExpireTimes

inductive TimeUnit where
  /-- `UNIT_SECONDS`. -/
  | seconds
  /-- `UNIT_MILLISECONDS`. -/
  | milliseconds
  deriving DecidableEq, Repr

def getLongLongFromObjectOrReply (s : Bytes) : Except KeyReply ℤ :=
  match RedisCommands.getLongLongFromObject s with
  | some v => .ok v
  | none => .error (.error "-ERR value is not an integer or out of range\r\n")

/-- The number of milliseconds, as a `long long`. -/
def toMilliseconds (unit : TimeUnit) (v : ℤ) : ℤ :=
  match unit with
  | .seconds => toLong (v * 1000)
  | .milliseconds => v

section
variable {C V : Type} [DecidableEq C]

/-! ### EXPIRE -/

/-- `expireGenericCommand`; the lookup is at the time `now`, the decision at the time `now'`. -/
def expireGenericCommand (s : RedisServer C V) (d : ℕ) (key param : Bytes) (basetime : ℤ)
    (unit : TimeUnit) (now now' : ℤ) : Except Failure (RedisServer C V × KeyReply) :=
  match getLongLongFromObjectOrReply param with
  | .error reply => .ok (s, reply)
  | .ok param => do
    let when := toLong (toMilliseconds unit param + basetime)
    let r ← lookupKeyWrite s d key now
    if r.2.isNone then .ok (r.1, .czero)
    else if when ≤ now' ∧ s.loading = false ∧ s.masterhost = false then do
      let r ← dbDelete r.1 d key
      if r.2 then .ok (signalModifiedKey r.1 d key, .cone) else .error .expireGenericCommand
    else do
      let s ← setExpire r.1 d key when
      .ok (signalModifiedKey s d key, .cone)

/-- `expireCommand`, at the time `mstime`. -/
def expireCommand (s : RedisServer C V) (d : ℕ) (key param : Bytes) (mstime now now' : ℤ) :
    Except Failure (RedisServer C V × KeyReply) :=
  expireGenericCommand s d key param mstime .seconds now now'

def expireatCommand (s : RedisServer C V) (d : ℕ) (key param : Bytes) (now now' : ℤ) :
    Except Failure (RedisServer C V × KeyReply) :=
  expireGenericCommand s d key param 0 .seconds now now'

def pexpireCommand (s : RedisServer C V) (d : ℕ) (key param : Bytes) (mstime now now' : ℤ) :
    Except Failure (RedisServer C V × KeyReply) :=
  expireGenericCommand s d key param mstime .milliseconds now now'

def pexpireatCommand (s : RedisServer C V) (d : ℕ) (key param : Bytes) (now now' : ℤ) :
    Except Failure (RedisServer C V × KeyReply) :=
  expireGenericCommand s d key param 0 .milliseconds now now'

/-! ### SET -/

/-- The times at which `setGenericCommand` reads the clock. -/
structure SetTimes where
  nx : ℤ
  xx : ℤ
  setKey : ℤ
  expire : ℤ

/-- The option of `setGenericCommand`. -/
def expireMilliseconds (expire : Option Bytes) (unit : TimeUnit) : Except KeyReply (Option ℤ) :=
  match expire with
  | none => .ok none
  | some expire => do
    let milliseconds ← getLongLongFromObjectOrReply expire
    if milliseconds ≤ 0 then .error (.error "-ERR invalid expire time in SETEX\r\n")
    else .ok (some (toMilliseconds unit milliseconds))

/-- The conditions of `NX` and `XX`: the state after the lookups, and whether one of them is not
met. -/
def setConditions (s : RedisServer C V) (d : ℕ) (key : Bytes) (nx xx : Bool) (times : SetTimes) :
    Except Failure (RedisServer C V × Bool) := do
  let r ← (if nx then lookupKeyWrite s d key times.nx else .ok (s, none))
  if nx && r.2.isSome then .ok (r.1, true)
  else do
    let r' ← (if xx then lookupKeyWrite r.1 d key times.xx else .ok (r.1, none))
    .ok (r'.1, xx && r'.2.isNone)

/-- The end of `setGenericCommand`. -/
def storeExpire (s : RedisServer C V) (d : ℕ) (key : Bytes) (val : V) (milliseconds : Option ℤ)
    (times : SetTimes) : Except Failure (RedisServer C V) := do
  let s ← setKey s d key val times.setKey
  match milliseconds with
  | some ms => setExpire s d key (toLong (times.expire + ms))
  | none => .ok s

def setGenericCommand (s : RedisServer C V) (d : ℕ) (nx xx : Bool) (key : Bytes) (val : V)
    (expire : Option Bytes) (unit : TimeUnit) (okReply abortReply : KeyReply) (times : SetTimes) :
    Except Failure (RedisServer C V × KeyReply) :=
  match expireMilliseconds expire unit with
  | .error reply => .ok (s, reply)
  | .ok milliseconds => do
    let r ← setConditions s d key nx xx times
    if r.2 then .ok (r.1, abortReply)
    else do
      let s ← storeExpire r.1 d key val milliseconds times
      .ok (s, okReply)

end

section
variable {C : Type} [DecidableEq C]

def setexCommand (s : RedisServer C Robj) (d : ℕ) (key expire val : Bytes) (times : SetTimes) :
    Except Failure (RedisServer C Robj × KeyReply) :=
  setGenericCommand s d false false key (tryObjectEncoding val) (some expire) .seconds .ok .nullbulk
    times

def psetexCommand (s : RedisServer C Robj) (d : ℕ) (key expire val : Bytes) (times : SetTimes) :
    Except Failure (RedisServer C Robj × KeyReply) :=
  setGenericCommand s d false false key (tryObjectEncoding val) (some expire) .milliseconds .ok
    .nullbulk times

/-- The options of SET. -/
structure SetOptions where
  nx : Bool
  xx : Bool
  expire : Option Bytes
  unit : TimeUnit
  deriving DecidableEq

/-- Whether an option is these two letters; `a[j]` is a byte of a string that ends with a zero. -/
def isOption (a : Bytes) (upper₁ upper₂ : UInt8) : Bool :=
  (a.getD 0 0 = upper₁ + 32 || a.getD 0 0 = upper₁) &&
    (a.getD 1 0 = upper₂ + 32 || a.getD 1 0 = upper₂) && a.getD 2 0 = 0

/-- The loop over the options; `none` is a syntax error. -/
def parseOptions : List Bytes → SetOptions → Option SetOptions
  | [], o => some o
  | a :: rest, o =>
    if isOption a 78 88 then parseOptions rest { o with nx := true }
    else if isOption a 88 88 then parseOptions rest { o with xx := true }
    else
      match rest with
      | [] => none
      | next :: rest =>
        if isOption a 69 88 then
          parseOptions rest { o with unit := .seconds, expire := some next }
        else if isOption a 80 88 then
          parseOptions rest { o with unit := .milliseconds, expire := some next }
        else none

def setCommand (s : RedisServer C Robj) (d : ℕ) (key val : Bytes) (options : List Bytes)
    (times : SetTimes) : Except Failure (RedisServer C Robj × KeyReply) :=
  match parseOptions options ⟨false, false, none, .seconds⟩ with
  | none => .ok (s, .error "-ERR syntax error\r\n")
  | some o =>
    setGenericCommand s d o.nx o.xx key (tryObjectEncoding val) o.expire o.unit .ok .nullbulk times

end

/-! ### Exact times -/

/-- The time without bounds. -/
def exactTime (unit : TimeUnit) (v basetime : ℤ) : ℤ :=
  match unit with
  | .seconds => v * 1000 + basetime
  | .milliseconds => v + basetime

theorem toLong_add (v w : ℤ) : toLong (toLong v + w) = toLong (v + w) := Int.bmod_add_bmod

theorem toLong_toMilliseconds (unit : TimeUnit) (v basetime : ℤ) :
    toLong (toMilliseconds unit v + basetime) = toLong (exactTime unit v basetime) := by
  cases unit with
  | seconds => exact toLong_add (v * 1000) basetime
  | milliseconds => rfl

theorem toLong_eq_iff {v : ℤ} : toLong v = v ↔ IsLong v :=
  ⟨fun h => h ▸ isLong_toLong v, fun h => toLong_of_range h.1 h.2⟩

section
variable {C V : Type} [DecidableEq C] {s : RedisServer C V} {d : ℕ} {key : Bytes}

/-! ### EXPIRE -/

/-- What EXPIRE is for: a key that is there is deleted if the time is not in the future, but not by a
slave or while the data is loaded; otherwise it gets the time as its expire. -/
def ExpireRight (s : RedisServer C V) (d : ℕ) (key : Bytes) (exact now now' : ℤ)
    (s' : RedisServer C V) : Prop :=
  match found s d now key with
  | none => (s'.db d).dict key = none
  | some v =>
    if exact ≤ now' ∧ s.loading = false ∧ s.masterhost = false then (s'.db d).dict key = none
    else (s'.db d).dict key = some v ∧ (s'.db d).expires key = some exact

/-- The times that get along with 64 bits. -/
def ExpireOk (s : RedisServer C V) (d : ℕ) (key : Bytes) (exact now now' : ℤ) : Prop :=
  found s d now key = none ∨ IsLong exact ∨
    exact < -2 ^ 63 ∧ toLong exact ≤ now' ∧ s.loading = false ∧ s.masterhost = false

theorem expireGenericCommand_iff (h : Indexed s) (hd : s.clusterEnabled = true → d = 0)
    {param : Bytes} {arg basetime now now' : ℤ} {unit : TimeUnit}
    (hparam : getLongLongFromObjectOrReply param = .ok arg) (hnow : 0 ≤ now') (hnow' : now' < 2 ^ 53) :
    (∃ s' reply, expireGenericCommand s d key param basetime unit now now' = .ok (s', reply) ∧
        ExpireRight s d key (exactTime unit arg basetime) now now' s') ↔
      ExpireOk s d key (exactTime unit arg basetime) now now' := by
  rw [expireGenericCommand, hparam]
  dsimp only
  rw [toLong_toMilliseconds]
  set exact := exactTime unit arg basetime
  obtain ⟨r, hr, ⟨hindexed, hrest, hcases⟩, -, -, hfound, -⟩ :=
    ((lookupKeyWrite_cases h hd key now).and (lookupKeyWrite_found h hd key now)).returns
  rw [hr, ok_bind, ExpireOk]
  unfold ExpireRight
  rw [← hfound]
  rcases hcases with ⟨v, hval, hv, hdb⟩ | ⟨hval, hdb⟩
  · rw [hval]
    dsimp only
    rw [if_neg (show ¬ (some v).isNone = true from Bool.false_ne_true), or_iff_right
      (show ¬ some v = none from nofun)]
    have hkey : ((r.1.db d).dict key).isSome := by rw [hdb, hv]; rfl
    have hlong : IsLong exact → toLong exact = exact := toLong_eq_iff.mpr
    by_cases hdel : toLong exact ≤ now' ∧ s.loading = false ∧ s.masterhost = false
    · obtain ⟨r', hr', -, -, hdb', hthere⟩ :=
        (dbDelete_spec hindexed (hrest.clusterEnabled ▸ hd) key).returns
      have hgone : (r'.1.db d).dict key = none := by
        rw [hdb', setDb_self]
        exact Function.update_self _ _ _
      rw [if_pos hdel, hr', ok_bind, if_pos (hthere.trans hkey)]
      by_cases hpast : exact ≤ now'
      · refine iff_of_true ⟨_, _, rfl, ?_⟩ ?_
        · rw [if_pos ⟨hpast, hdel.2⟩]
          exact hgone
        · by_cases hmin : exact < -2 ^ 63
          · exact .inr ⟨hmin, hdel⟩
          · exact .inl ⟨by omega, by omega⟩
      · refine iff_of_false ?_ ?_
        · rintro ⟨s', reply, heq, hright⟩
          cases heq
          rw [if_neg fun h => hpast h.1] at hright
          cases hgone.symm.trans hright.1
        · rintro (h | h)
          · exact hpast (hlong h ▸ hdel.1)
          · omega
    · obtain ⟨s₁, hs₁, -, -, hdb₁⟩ := (setExpire_spec hindexed hkey (toLong exact)).returns
      have hval₁ : (s₁.db d).dict key = some v := by rw [hdb₁, setDb_self, hdb, hv]
      have hexpire₁ : (s₁.db d).expires key = some (toLong exact) := by
        rw [hdb₁, setDb_self]
        exact Function.update_self _ _ _
      rw [if_neg hdel, hs₁, ok_bind]
      constructor
      · rintro ⟨s', reply, heq, hright⟩
        cases heq
        split at hright
        · cases hval₁.symm.trans hright
        · exact .inl (toLong_eq_iff.mp (Option.some_inj.mp (hexpire₁.symm.trans hright.2)))
      · rintro (h | h)
        · refine ⟨_, _, rfl, ?_⟩
          rw [if_neg fun hpast => hdel ⟨(hlong h).le.trans hpast.1, hpast.2⟩]
          exact ⟨hval₁, hexpire₁.trans (congrArg some (hlong h))⟩
        · exact absurd h.2 hdel
  · rw [hval]
    refine iff_of_true ⟨r.1, .czero, rfl, ?_⟩ (.inl rfl)
    dsimp only
    rw [hdb, setDb_self]
    exact Function.update_self _ _ _

/-! ### SET -/

/-- Whether a condition of SET is not met. -/
def conditionFails (s : RedisServer C V) (d : ℕ) (key : Bytes) (nx xx : Bool) (times : SetTimes) :
    Bool :=
  if nx then (found s d times.nx key).isSome || xx else xx && (found s d times.xx key).isNone

/-- The key after a SET that stores nothing. -/
structure Untouched (s : RedisServer C V) (d : ℕ) (key : Bytes) (now : ℤ) (s' : RedisServer C V) :
    Prop where
  value : (s'.db d).dict key = found s d now key
  expire : (s'.db d).dict key ≠ none → (s'.db d).expires key = (s.db d).expires key

omit [DecidableEq C] in
theorem lookupKeyWrite_untouched (h : Indexed s) (hd : s.clusterEnabled = true → d = 0) (now : ℤ) :
    (lookupKeyWrite s d key now).Ensures (fun _ => False) fun r => Indexed r.1 ∧ Rest s r.1 ∧
      r.2 = found s d now key ∧ Untouched s d key now r.1 := by
  refine ((lookupKeyWrite_cases h hd key now).and (lookupKeyWrite_found h hd key now)).imp
    fun r hr => ?_
  obtain ⟨⟨hindexed, hrest, hcases⟩, -, -, hfound, -⟩ := hr
  refine ⟨hindexed, hrest, hfound, ?_, fun hne => ?_⟩
  · rw [← hfound]
    rcases hcases with ⟨o, hval, ho, hdb⟩ | ⟨hval, hdb⟩
    · rw [hdb, hval, ho]
    · rw [hdb, hval, setDb_self]
      exact Function.update_self _ _ _
  · rcases hcases with ⟨o, hval, ho, hdb⟩ | ⟨hval, hdb⟩
    · rw [hdb]
    · rw [hdb, setDb_self] at hne
      exact absurd (Function.update_self _ _ _) hne

omit [DecidableEq C] in
theorem setConditions_spec (h : Indexed s) (hd : s.clusterEnabled = true → d = 0) (nx xx : Bool)
    (times : SetTimes) :
    (setConditions s d key nx xx times).Ensures (fun _ => False) fun r => Indexed r.1 ∧ Rest s r.1 ∧
      r.2 = conditionFails s d key nx xx times ∧
      (r.2 = true → Untouched s d key (if nx then times.nx else times.xx) r.1) := by
  rw [setConditions, conditionFails]
  cases nx with
  | false =>
    cases xx with
    | false => exact ⟨h, Rest.refl s, rfl, nofun⟩
    | true =>
      refine (lookupKeyWrite_untouched h hd times.xx).bind fun r hr => ?_
      obtain ⟨hindexed, hrest, hval, huntouched⟩ := hr
      exact ⟨hindexed, hrest, by rw [hval]; rfl, fun _ => huntouched⟩
  | true =>
    refine (lookupKeyWrite_untouched h hd times.nx).bind fun r hr => ?_
    obtain ⟨hindexed, hrest, hval, huntouched⟩ := hr
    cases hfound : found s d times.nx key with
    | some v =>
      rw [hval, hfound]
      exact ⟨hindexed, hrest, rfl, fun _ => huntouched⟩
    | none =>
      rw [hval, hfound]
      cases xx with
      | false => exact ⟨hindexed, hrest, rfl, nofun⟩
      | true =>
        -- the key is not there any more
        have hgone : found r.1 d times.xx key = none := by
          rw [found_eq, huntouched.value, hfound, ite_self]
        refine (lookupKeyWrite_untouched hindexed (hrest.clusterEnabled ▸ hd) times.xx).bind
          fun r' hr' => ?_
        obtain ⟨hindexed', hrest', hval', huntouched'⟩ := hr'
        have hnone : (r'.1.db d).dict key = none := huntouched'.value.trans hgone
        refine ⟨hindexed', hrest.trans hrest', by rw [hval', hgone]; rfl, fun _ => ?_⟩
        exact ⟨hnone.trans hfound.symm, fun hne => absurd hnone hne⟩

/-- What SET is for. -/
def SetRight (s : RedisServer C V) (d : ℕ) (key : Bytes) (val : V) (nx xx : Bool) (times : SetTimes)
    (arg exact : ℤ) (abortReply : KeyReply) (s' : RedisServer C V) (reply : KeyReply) : Prop :=
  if arg ≤ 0 then (∃ message, reply = .error message) ∧ s' = s
  else if conditionFails s d key nx xx times then
    reply = abortReply ∧ Untouched s d key (if nx then times.nx else times.xx) s'
  else (s'.db d).dict key = some val ∧ (s'.db d).expires key = some exact

theorem storeExpire_spec (h : Indexed s) (hd : s.clusterEnabled = true → d = 0) (val : V) (ms : ℤ)
    (times : SetTimes) : (storeExpire s d key val (some ms) times).Ensures (fun _ => False) fun r =>
      (r.db d).dict key = some val ∧ (r.db d).expires key = some (toLong (times.expire + ms)) := by
  refine (setKey_spec h hd key val times.setKey).bind fun r hr => ?_
  have hval : (r.db d).dict key = some val := by
    rw [hr, setDb_self]
    exact Function.update_self _ _ _
  dsimp only
  rw [setExpire, if_pos (Option.isSome_of_eq_some hval)]
  rw [ensures_ok, setDb_self]
  exact ⟨hval, Function.update_self _ _ _⟩

theorem setGenericCommand_iff (h : Indexed s) (hd : s.clusterEnabled = true → d = 0)
    {expire : Bytes} {arg : ℤ} {unit : TimeUnit} {nx xx : Bool} {val : V}
    {okReply abortReply : KeyReply} {times : SetTimes}
    (hexpire : getLongLongFromObjectOrReply expire = .ok arg) (hnow : 0 ≤ times.expire) :
    (∃ s' reply, setGenericCommand s d nx xx key val (some expire) unit okReply abortReply times
          = .ok (s', reply) ∧
        SetRight s d key val nx xx times arg (exactTime unit arg times.expire) abortReply s' reply) ↔
      arg ≤ 0 ∨ conditionFails s d key nx xx times = true ∨
        exactTime unit arg times.expire < 2 ^ 63 := by
  rw [setGenericCommand, expireMilliseconds, hexpire]
  rw [ok_bind]
  by_cases hpos : arg ≤ 0
  · rw [if_pos hpos]
    refine iff_of_true ⟨s, _, rfl, ?_⟩ (.inl hpos)
    rw [SetRight, if_pos hpos]
    exact ⟨⟨_, rfl⟩, rfl⟩
  rw [if_neg hpos, or_iff_right hpos]
  have hconditions : (setConditions s d key nx xx times).Ensures _ _ :=
    setConditions_spec h hd nx xx times
  obtain ⟨r, hr, hindexed, hrest, hfails, huntouched⟩ := hconditions.returns
  dsimp only
  rw [hr, ok_bind]
  by_cases hcond : conditionFails s d key nx xx times = true
  · rw [if_pos (hfails.trans hcond)]
    refine iff_of_true ⟨r.1, _, rfl, ?_⟩ (.inl hcond)
    rw [SetRight, if_neg hpos, if_pos hcond]
    exact ⟨rfl, huntouched (hfails.trans hcond)⟩
  rw [if_neg (hfails ▸ hcond), or_iff_right hcond]
  have hstore : (storeExpire r.1 d key val (some (toMilliseconds unit arg)) times).Ensures _ _ :=
    storeExpire_spec hindexed (hrest.clusterEnabled ▸ hd) val _ times
  obtain ⟨s₁, hs₁, hval, hexp⟩ := hstore.returns
  rw [hs₁, ok_bind]
  rw [add_comm, toLong_toMilliseconds] at hexp
  have hmin : 0 < exactTime unit arg times.expire := by
    cases unit with
    | seconds => show 0 < arg * 1000 + times.expire; omega
    | milliseconds => show 0 < arg + times.expire; omega
  constructor
  · rintro ⟨s', reply, heq, hright⟩
    cases heq
    rw [SetRight, if_neg hpos, if_neg hcond] at hright
    exact (toLong_eq_iff.mp (Option.some_inj.mp (hexp.symm.trans hright.2))).2
  · intro hmax
    have hlong : toLong (exactTime unit arg times.expire) = exactTime unit arg times.expire :=
      toLong_of_range (by omega) hmax
    refine ⟨s₁, okReply, rfl, ?_⟩
    rw [SetRight, if_neg hpos, if_neg hcond]
    exact ⟨hval, hexp.trans (congrArg some hlong)⟩

end

/-! ### Results -/

/-- In every reachable state, for every clock value below 2^53: the expire of a key becomes the exact
one, and the EXPIRE commands delete a key when the exact time is not in the future, if and only if
the exact time is a 64-bit number, or so far in the past that the wrapped one is in the past too. -/
theorem expire_times {C V : Type} [DecidableEq C] (dbs : ℕ) (clusterEnabled : Bool)
    (clients : List C) (levels : ℕ → Fin 32) {es : List (KeyspaceEvent C V)}
    {s : RedisServer C V} (hrun : Runs.run (fun s e => (keyspaceStep s e).toOption)
      (initServer dbs clusterEnabled clients levels) es = some s) (c : C) (key : Bytes) :
    (∀ param arg basetime unit now now', getLongLongFromObjectOrReply param = .ok arg →
      0 ≤ basetime → basetime < 2 ^ 53 → 0 ≤ now' → now' < 2 ^ 53 →
      ((∃ s' reply, expireGenericCommand s (s.client c).db key param basetime unit now now'
            = .ok (s', reply) ∧
          ExpireRight s (s.client c).db key (exactTime unit arg basetime) now now' s') ↔
        ExpireOk s (s.client c).db key (exactTime unit arg basetime) now now')) ∧
    ∀ expire arg unit nx xx val okReply abortReply times,
      getLongLongFromObjectOrReply expire = .ok arg → 0 ≤ times.expire → times.expire < 2 ^ 53 →
      ((∃ s' reply, setGenericCommand s (s.client c).db nx xx key val (some expire) unit okReply
            abortReply times = .ok (s', reply) ∧
          SetRight s (s.client c).db key val nx xx times arg (exactTime unit arg times.expire)
            abortReply s' reply) ↔
        arg ≤ 0 ∨ conditionFails s (s.client c).db key nx xx times = true ∨
          exactTime unit arg times.expire < 2 ^ 63) := by
  obtain ⟨s₁, hrun₁, hsound⟩ :=
    run_sound (sound_initServer dbs clusterEnabled clients levels : Sound _) es
  obtain rfl := Option.some_inj.mp (hrun₁.symm.trans hrun)
  have hd : s₁.clusterEnabled = true → (s₁.client c).db = 0 := fun hc => hsound.zero hc c
  exact ⟨fun param arg basetime unit now now' hparam _ _ hnow hnow' =>
      expireGenericCommand_iff hsound.indexed hd hparam hnow hnow',
    fun expire arg unit nx xx val okReply abortReply times hexpire hnow _ =>
      setGenericCommand_iff hsound.indexed hd hexpire hnow⟩

/-- `EXPIRE a 10` and `SETEX a 10 x` after `SET a`. -/
theorem expire_times_ten : ∃ s : RedisServer Unit Robj,
    Runs.run (fun s e => (keyspaceStep s e).toOption) (initServer 15 false [()] fun _ => 0)
      [.call () 5 (.set [97] (.raw [97]) false false none)] = some s ∧
    ((∃ s' reply, expireCommand s 0 [97] [49, 48] 6 7 8 = .ok (s', reply) ∧
        ExpireRight s 0 [97] 10006 7 8 s') ↔ ExpireOk s 0 [97] 10006 7 8) ∧
    ((∃ s' reply, setexCommand s 0 [97] [49, 48] [98] ⟨0, 0, 6, 7⟩ = .ok (s', reply) ∧
        SetRight s 0 [97] (Robj.raw [98]) false false ⟨0, 0, 6, 7⟩ 10 10007 .nullbulk s' reply) ↔
      (10 : ℤ) ≤ 0 ∨ conditionFails s 0 [97] false false ⟨0, 0, 6, 7⟩ = true ∨
        (10007 : ℤ) < 2 ^ 63) := by
  refine ⟨_, rfl, ?_⟩
  obtain ⟨hexpire, hset⟩ := expire_times 15 false [()] (fun _ => 0)
    (show Runs.run (fun s e => (keyspaceStep s e).toOption) (initServer 15 false [()] fun _ => 0)
      [.call () 5 (.set [97] (Robj.raw [97]) false false none)] = some _ from rfl) () [97]
  exact ⟨hexpire [49, 48] 10 6 .seconds 7 8 (by decide) (by decide) (by decide) (by decide)
    (by decide), hset [49, 48] 10 .seconds false false (Robj.raw [98]) .ok .nullbulk ⟨0, 0, 6, 7⟩
    (by decide) (by decide) (by decide)⟩

/-- With the largest number of seconds EXPIRE deletes the key at once, and SETEX stores a time in
the past. -/
theorem expire_times_largest : ∃ (s s₁ s₂ : RedisServer Unit Robj),
    Runs.run (fun s e => (keyspaceStep s e).toOption) (initServer 15 false [()] fun _ => 0)
      [.call () 5 (.set [97] (.raw [97]) false false none)] = some s ∧
    expireCommand s 0 [97]
      [57, 50, 50, 51, 51, 55, 50, 48, 51, 54, 56, 53, 52, 55, 55, 53, 56, 48, 55] 6 7 8
      = .ok (s₁, .cone) ∧
    (s.db 0).dict [97] = some (Robj.raw [97]) ∧ (s₁.db 0).dict [97] = none ∧
    setexCommand s 0 [97]
      [57, 50, 50, 51, 51, 55, 50, 48, 51, 54, 56, 53, 52, 55, 55, 53, 56, 48, 55] [98] ⟨0, 0, 6, 7⟩
      = .ok (s₂, .ok) ∧
    (s₂.db 0).expires [97] = some (-993) := by
  refine ⟨_, _, _, rfl, rfl, by decide, by decide, rfl, by decide⟩

end ExpireTimes

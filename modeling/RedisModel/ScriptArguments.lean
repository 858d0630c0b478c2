/-
The arguments of scripts (`scripting.c`).

* `evalGenericCommand`, `evalShaCommand` — EVAL and EVALSHA up to the call of the script, with the
  tables `KEYS` and `ARGV`;
* `EvalRight` — a script that runs has exactly its arguments, as `evalGetKeys` reports them, and
  otherwise nothing is changed;
* `evalRight_iff` — when this is so.

Lua is a parameter, as is the digest `SHA1`.
-/
import RedisModel.KeyExtraction

open Except RedisCommands

namespace ScriptArguments

/-! ### The names of scripts -/

/-- `cset` of `sha1hex`. -/
def hexDigit (d : UInt8) : UInt8 := if d < 10 then 48 + d else 87 + d

def sha1hex (SHA1 : Bytes → Fin 20 → UInt8) (script : Bytes) : Bytes :=
  (List.ofFn (SHA1 script)).flatMap fun x => [hexDigit (x / 16), hexDigit (x % 16)]

/-- The name Lua looks up for EVALSHA, a C string. -/
def funcname (sha : Bytes) : Bytes := cString ((sha.take 40).map tolower)

/-! ### Lua -/

/-- What is used of Lua: `L` are its states and `D` those of the dataset. -/
structure LuaEngine (L D : Type) where
  /-- `lua_getglobal` is not `nil`. -/
  defined : L → Bytes → Bool
  /-- `luaL_loadbuffer` compiles a chunk. -/
  loads : Bytes → Bool
  /-- `lua_pcall` of a chunk, which may call commands; `false` is an error. -/
  pcall : Bytes → L → D → L × D × Bool

/-- The scripts of a server; `luaScripts` maps digests to bodies. -/
structure ScriptServer (L D : Type) where
  lua : L
  dataset : D
  luaScripts : List (Bytes × Bytes)

inductive Fault where
  | outOfBounds
  | assertion
  deriving DecidableEq

/-- What a command does before the script: it replies with an error, or calls the script with the
tables `KEYS` and `ARGV`. -/
inductive EvalResult (L D : Type) where
  | error (s : ScriptServer L D)
  | run (s : ScriptServer L D) (keys argv : List Bytes)

/-! ### EVAL and EVALSHA -/

/-- `argv[i]`, at any distance from the start of the vector. -/
def readArg (argv : ArgVector) (i : ℤ) : Except Fault Bytes :=
  if 0 ≤ i ∧ i < argv.argc then .ok (argv.arg i.toNat) else .error .outOfBounds

/-- The table of `luaSetGlobalArray` for `argv+offset`; `elec` is an `int`. -/
def luaSetGlobalArray (argv : ArgVector) (offset elec : ℤ) : Except Fault (List Bytes) :=
  (List.range (toInt elec).toNat).mapM fun (j : ℕ) => readArg argv (offset + j)

/-- The name of the function for a digest. -/
def functionName (sha : Bytes) : Bytes := ascii ['f', '_'] ++ sha

/-- The definition of a function. -/
def funcdef (name body : Bytes) : Bytes :=
  ascii "function ".toList ++ name ++ ascii "() ".toList ++ body ++ ascii " end".toList

section
variable {L D : Type} (engine : LuaEngine L D) (SHA1 : Bytes → Fin 20 → UInt8)

/-- `luaCreateFunction`; `false` is `REDIS_ERR`, after an error was replied. -/
def luaCreateFunction (s : ScriptServer L D) (body : Bytes) :
    Except Fault (ScriptServer L D × Bool) :=
  let sha := sha1hex SHA1 body
  let chunk := funcdef (functionName sha) body
  if ¬engine.loads chunk then .ok (s, false)
  else
    let (lua, dataset, done) := engine.pcall chunk s.lua s.dataset
    let s := { s with lua, dataset }
    if ¬done then .ok (s, false)
    else if s.luaScripts.any fun e => strcasecmp e.1 sha then .error .assertion
    else .ok ({ s with luaScripts := (sha, body) :: s.luaScripts }, true)

/-- The tables, and the call of the script. -/
def callScript (s : ScriptServer L D) (argv : ArgVector) (numkeys : ℤ) :
    Except Fault (EvalResult L D) := do
  let keys ← luaSetGlobalArray argv 3 numkeys
  let args ← luaSetGlobalArray argv (3 + numkeys) (argv.argc - 3 - numkeys)
  .ok (.run s keys args)

def evalGenericCommand (s : ScriptServer L D) (argv : ArgVector) (evalsha : Bool) :
    Except Fault (EvalResult L D) :=
  match getLongLongFromObject (argv.arg 2) with
  | none => .ok (.error s)
  | some numkeys =>
    -- a negative number of keys goes on
    if numkeys > argv.argc - 3 then .ok (.error s)
    else
      let sha := if evalsha then funcname (argv.arg 1)
        else sha1hex SHA1 (argv.arg 1)
      let name := functionName sha
      if engine.defined s.lua name then callScript s argv numkeys
      else if evalsha then .ok (.error s)
      else do
        let (s, done) ← luaCreateFunction engine SHA1 s (argv.arg 1)
        if ¬done then .ok (.error s)
        else if ¬engine.defined s.lua name then .error .assertion
        else callScript s argv numkeys

def evalCommand (s : ScriptServer L D) (argv : ArgVector) : Except Fault (EvalResult L D) :=
  evalGenericCommand engine SHA1 s argv false

def evalShaCommand (s : ScriptServer L D) (argv : ArgVector) : Except Fault (EvalResult L D) :=
  if (argv.arg 1).length ≠ 40 then .ok (.error s)
  else evalGenericCommand engine SHA1 s argv true

/-- EVAL or EVALSHA. -/
def scriptCall (evalsha : Bool) (s : ScriptServer L D) (argv : ArgVector) :
    Except Fault (EvalResult L D) :=
  if evalsha then evalShaCommand engine SHA1 s argv else evalCommand engine SHA1 s argv

end

/-! ### Tables -/

theorem readArg_eq {argv : ArgVector} {i : ℕ} (h : i < argv.argc) :
    readArg argv i = .ok (argv.arg i) :=
  if_pos ⟨Int.natCast_nonneg i, by exact_mod_cast h⟩

theorem luaSetGlobalArray_eq {argv : ArgVector} {offset elec : ℕ}
    (h : offset + elec ≤ argv.argc) :
    luaSetGlobalArray argv offset elec = .ok ((argv.args.drop offset).take elec) := by
  have hlength : argv.argc < 2 ^ 31 := argv.length_lt
  have helec : (toInt elec).toNat = elec := by
    have hlt : elec < 2 ^ 31 := by omega
    rw [toInt_of_lt (Int.natCast_nonneg elec) (by exact_mod_cast hlt), Int.toNat_natCast]
  have hread : ∀ n ≤ elec, (List.range n).mapM (fun (j : ℕ) => readArg argv ((offset : ℤ) + j)) =
      .ok ((argv.args.drop offset).take n) := by
    intro n hn
    induction n with
    | zero => rfl
    | succ n ih =>
      have hlt : offset + n < argv.argc := by omega
      have hcell : (argv.args.drop offset)[n]? = some (argv.arg (offset + n)) := by
        rw [List.getElem?_drop, ArgVector.arg, List.getD_eq_getElem?_getD,
          List.getElem?_eq_getElem hlt]
        rfl
      have hlast : readArg argv ((offset : ℤ) + n) = .ok (argv.arg (offset + n)) := by
        exact_mod_cast readArg_eq hlt
      rw [List.range_succ, List.mapM_append, ih (by omega), List.mapM_cons, hlast, List.mapM_nil,
        List.take_add_one, hcell]
      rfl
  rw [luaSetGlobalArray, helec]
  exact hread elec le_rfl

theorem evalGetKeys_returns {argv : ArgVector} {n : ℕ} (hnum : atoi (argv.arg 2) = n)
    (hle : n + 3 ≤ argv.argc) :
    ∃ r, evalGetKeys argv = .ok r ∧ r.Returns (List.range' 3 n) := by
  have hnonneg : (0 : ℤ) ≤ n := Int.natCast_nonneg n
  refine Ensures.returns ?_
  rw [evalGetKeys, hnum]
  rw [if_neg (by omega)]
  refine (zmalloc_ok hnonneg).bind fun keys hfilled => ?_
  refine (fillFromThree_spec 0 hfilled).bind fun keys' hfilled' => ?_
  rw [Int.toNat_natCast] at hfilled'
  exact hfilled'.returns (by rw [List.length_range'])

/-! ### When scripts receive exactly their arguments -/

section
variable {L D : Type}

/-- A script that runs has a number of keys that is not negative and not greater than that of the
arguments, exactly these keys in the table `KEYS`, the other arguments in `ARGV`, and `evalGetKeys`
reports the positions of the keys.  Otherwise there is an error, and nothing was changed. -/
def EvalRight (s : ScriptServer L D) (argv : ArgVector) : Except Fault (EvalResult L D) → Prop
  | .error _ => False
  | .ok (.error s') => s'.dataset = s.dataset ∧ s'.luaScripts = s.luaScripts
  | .ok (.run _ keys args) => ∃ n : ℕ, getLongLongFromObject (argv.arg 2) = some (n : ℤ) ∧
      n + 3 ≤ argv.argc ∧ keys = (argv.args.drop 3).take n ∧ args = argv.args.drop (3 + n) ∧
      ∃ r, evalGetKeys argv = .ok r ∧ r.Returns (List.range' 3 n)

variable (engine : LuaEngine L D) (SHA1 : Bytes → Fin 20 → UInt8)

/-- The function of the script is there. -/
def Defined (evalsha : Bool) (s : ScriptServer L D) (argv : ArgVector) : Prop :=
  engine.defined s.lua (functionName (if evalsha then funcname (argv.arg 1)
    else sha1hex SHA1 (argv.arg 1))) = true

/-- The definition of a new script, if it compiles: when the chunk fails it has changed no data, and
when it does not fail the script is new, its function is there and the number of keys is not
negative. -/
def DefinitionOk (s : ScriptServer L D) (body : Bytes) (numkeys : ℤ) : Prop :=
  let sha := sha1hex SHA1 body
  let chunk := funcdef (functionName sha) body
  engine.loads chunk = true →
    if (engine.pcall chunk s.lua s.dataset).2.2 then
      (∀ e ∈ s.luaScripts, strcasecmp e.1 sha = false) ∧
        engine.defined (engine.pcall chunk s.lua s.dataset).1 (functionName sha) = true ∧
        0 ≤ numkeys
    else (engine.pcall chunk s.lua s.dataset).2.1 = s.dataset

/-- The number of keys is not negative if there is a script to run, and a new script only defines
its function. -/
def EvalOk (evalsha : Bool) (s : ScriptServer L D) (argv : ArgVector) : Prop :=
  ∀ numkeys, getLongLongFromObject (argv.arg 2) = some numkeys → numkeys ≤ argv.argc - 3 →
    (evalsha = true → (argv.arg 1).length = 40) →
      (Defined engine SHA1 evalsha s argv → 0 ≤ numkeys) ∧
      (¬Defined engine SHA1 evalsha s argv → evalsha = false →
        DefinitionOk engine SHA1 s (argv.arg 1) numkeys)

variable {engine SHA1}

/-- The call of a script is right unless the number of keys is negative. -/
theorem callScript_right_iff (s s' : ScriptServer L D) {argv : ArgVector} (hargc : 3 ≤ argv.argc)
    {numkeys : ℤ} (hnum : getLongLongFromObject (argv.arg 2) = some numkeys)
    (hle : numkeys ≤ argv.argc - 3) :
    EvalRight s argv (callScript s' argv numkeys) ↔ 0 ≤ numkeys := by
  constructor
  · intro hright
    cases hresult : callScript s' argv numkeys with
    | error fault =>
      rw [hresult] at hright
      exact hright.elim
    | ok result =>
      rw [hresult] at hright
      cases result with
      | error s'' =>
        obtain ⟨keys, -, hkeys⟩ := bind_eq_ok.mp hresult
        obtain ⟨args, -, hargs⟩ := bind_eq_ok.mp hkeys
        cases hargs
      | run s'' keys args =>
        obtain ⟨n, hn, -⟩ := hright
        rw [Option.some_inj.mp (hnum.symm.trans hn)]
        exact Int.natCast_nonneg n
  · intro hnonneg
    obtain ⟨n, rfl⟩ := Int.eq_ofNat_of_zero_le hnonneg
    have hlen : n + 3 ≤ argv.argc := by omega
    have hlength : argv.argc < 2 ^ 31 := argv.length_lt
    have hatoi : atoi (argv.arg 2) = n := by
      have hlt : n < 2 ^ 31 := by omega
      rw [atoi_of_getLongLongFromObject hnum,
        toInt_of_lt (Int.natCast_nonneg n) (by exact_mod_cast hlt)]
    have hkeys : luaSetGlobalArray argv 3 n = .ok ((argv.args.drop 3).take n) := by
      have h := luaSetGlobalArray_eq (show 3 + n ≤ argv.argc by omega)
      exact_mod_cast h
    have hargs : luaSetGlobalArray argv (3 + n) (argv.argc - 3 - n) =
        .ok (argv.args.drop (3 + n)) := by
      have h := luaSetGlobalArray_eq (show 3 + n + (argv.argc - 3 - n) ≤ argv.argc by omega)
      have hrest : ((argv.argc - 3 - n : ℕ) : ℤ) = argv.argc - 3 - n := by omega
      rw [hrest, List.take_of_length_le (by rw [List.length_drop]; exact le_of_eq (by
        rw [← Nat.sub_sub]; rfl))] at h
      exact_mod_cast h
    rw [callScript, hkeys, ok_bind, hargs, ok_bind]
    exact ⟨n, hnum, hlen, rfl, rfl, evalGetKeys_returns hatoi hlen⟩

theorem luaCreateFunction_eq (s : ScriptServer L D) (body : Bytes) :
    luaCreateFunction engine SHA1 s body =
      let sha := sha1hex SHA1 body
      let r := engine.pcall (funcdef (functionName sha) body) s.lua s.dataset
      if engine.loads (funcdef (functionName sha) body) then
        if r.2.2 then
          if s.luaScripts.any fun e => strcasecmp e.1 sha then .error .assertion
          else .ok (⟨r.1, r.2.1, (sha, body) :: s.luaScripts⟩, true)
        else .ok (⟨r.1, r.2.1, s.luaScripts⟩, false)
      else .ok (s, false) := by
  rw [luaCreateFunction]
  dsimp only
  rw [ite_not]
  congr 1
  exact ite_not _ _ _

theorem create_right_iff (s : ScriptServer L D) {argv : ArgVector} (hargc : 3 ≤ argv.argc)
    {numkeys : ℤ} (hnum : getLongLongFromObject (argv.arg 2) = some numkeys)
    (hle : numkeys ≤ argv.argc - 3) :
    EvalRight s argv (luaCreateFunction engine SHA1 s (argv.arg 1) >>= fun r =>
      if ¬r.2 then .ok (.error r.1)
      else if ¬engine.defined r.1.lua (functionName (sha1hex SHA1 (argv.arg 1))) then
        .error .assertion
      else callScript r.1 argv numkeys) ↔ DefinitionOk engine SHA1 s (argv.arg 1) numkeys := by
  rw [DefinitionOk, luaCreateFunction_eq]
  dsimp only
  generalize sha1hex SHA1 (argv.arg 1) = sha
  generalize funcdef (functionName sha) (argv.arg 1) = chunk
  generalize engine.pcall chunk s.lua s.dataset = r
  by_cases hloads : engine.loads chunk = true
  · rw [if_pos hloads, imp_iff_right hloads]
    by_cases hdone : r.2.2 = true
    · rw [if_pos hdone, if_pos hdone]
      by_cases hnew : (s.luaScripts.any fun e => strcasecmp e.1 sha) = true
      · rw [if_pos hnew]
        refine iff_of_false id fun h => ?_
        obtain ⟨e, he, heq⟩ := List.any_eq_true.mp hnew
        rw [h.1 e he] at heq
        cases heq
      · rw [if_neg hnew, ok_bind, if_neg (not_not_intro rfl)]
        have hall : ∀ e ∈ s.luaScripts, strcasecmp e.1 sha = false := by
          rw [Bool.not_eq_true, List.any_eq_false] at hnew
          exact fun e he => Bool.not_eq_true _ ▸ hnew e he
        dsimp only
        by_cases hdefined : engine.defined r.1 (functionName sha) = true
        · rw [if_neg (not_not_intro hdefined), callScript_right_iff s _ hargc hnum hle]
          exact ⟨fun h => ⟨hall, hdefined, h⟩, fun h => h.2.2⟩
        · rw [if_pos hdefined]
          exact iff_of_false id fun h => hdefined h.2.1
    · rw [if_neg hdone, if_neg hdone]
      exact ⟨And.left, fun h => ⟨h, rfl⟩⟩
  · rw [if_neg hloads]
    exact iff_of_true ⟨rfl, rfl⟩ fun h => absurd h hloads

/-- EVAL and EVALSHA are right if and only if the number of keys is not negative when there is a
script to run, and a new script only defines its function. -/
theorem evalRight_iff (engine : LuaEngine L D) (SHA1 : Bytes → Fin 20 → UInt8)
    (s : ScriptServer L D) (argv : ArgVector) (evalsha : Bool) (hargc : 3 ≤ argv.argc) :
    EvalRight s argv (scriptCall engine SHA1 evalsha s argv) ↔
      EvalOk engine SHA1 evalsha s argv := by
  have hgeneric : EvalRight s argv (evalGenericCommand engine SHA1 s argv evalsha) ↔
      ∀ numkeys, getLongLongFromObject (argv.arg 2) = some numkeys → numkeys ≤ argv.argc - 3 →
        (Defined engine SHA1 evalsha s argv → 0 ≤ numkeys) ∧
        (¬Defined engine SHA1 evalsha s argv → evalsha = false →
          DefinitionOk engine SHA1 s (argv.arg 1) numkeys) := by
    rw [evalGenericCommand]
    cases hnum : getLongLongFromObject (argv.arg 2) with
    | none => exact iff_of_true ⟨rfl, rfl⟩ fun n hn => by cases hn
    | some numkeys =>
      dsimp only
      split
      · rename_i hgt
        refine iff_of_true ⟨rfl, rfl⟩ fun n hn hle => ?_
        rw [← Option.some_inj.mp hn] at hle
        exact absurd hle (not_le.mpr hgt)
      · rename_i hle
        rw [not_lt] at hle
        have hforall : ∀ P : ℤ → Prop,
            (∀ n, some numkeys = some n → n ≤ argv.argc - 3 → P n) ↔ P numkeys :=
          fun P => ⟨fun h => h numkeys rfl hle, fun h n hn _ => Option.some_inj.mp hn ▸ h⟩
        rw [hforall]
        unfold Defined
        by_cases hdefined : engine.defined s.lua (functionName
            (if evalsha then funcname (argv.arg 1)
              else sha1hex SHA1 (argv.arg 1))) = true
        · rw [if_pos hdefined, callScript_right_iff s s hargc hnum hle]
          exact ⟨fun h => ⟨fun _ => h, fun hnot => absurd hdefined hnot⟩, fun h => h.1 hdefined⟩
        · rw [if_neg hdefined]
          cases evalsha with
          | true => exact iff_of_true ⟨rfl, rfl⟩ ⟨fun h => absurd h hdefined, fun _ h => by cases h⟩
          | false =>
            simp only [Bool.false_eq_true, if_false] at hdefined ⊢
            refine Iff.trans (create_right_iff s hargc hnum hle) ?_
            exact ⟨fun h => ⟨fun hd => absurd hd hdefined, fun _ _ => h⟩, fun h => h.2 hdefined trivial⟩
  cases evalsha with
  | false =>
    refine hgeneric.trans (forall₃_congr fun numkeys hnum hle => ?_)
    exact ⟨fun h _ => h, fun h => h fun heq => absurd heq Bool.false_ne_true⟩
  | true =>
    show EvalRight s argv (evalShaCommand engine SHA1 s argv) ↔ _
    rw [evalShaCommand]
    split
    · rename_i hlength
      exact iff_of_true ⟨rfl, rfl⟩ fun numkeys _ _ h => absurd (h rfl) hlength
    · rename_i hlength
      refine hgeneric.trans (forall₃_congr fun numkeys hnum hle => ?_)
      exact ⟨fun h _ => h, fun h => h fun _ => not_not.mp hlength⟩

end

/-! ### Concrete scripts -/

/-- Lua for scripts that only define their function: its state is the list of these. -/
def plainLua : LuaEngine (List Bytes) ℕ where
  defined lua name := lua.contains name
  loads _ := true
  pcall chunk lua dataset := ((chunk.drop 9).take 42 :: lua, dataset, true)

/-- The digest of `return 1`. -/
def digest (_ : Bytes) (i : Fin 20) : UInt8 :=
  [224, 225, 249, 250, 191, 201, 212, 128, 12, 135, 122, 112, 59, 130, 58, 192, 87, 143, 248,
    219].getD i 0

def freshServer : ScriptServer (List Bytes) ℕ := ⟨[], 0, []⟩

/-- `EVAL "return 1" <numkeys> k a`. -/
def evalArgs (numkeys : Bytes) : ArgVector :=
  ⟨[ascii "EVAL".toList, ascii "return 1".toList, numkeys, [107], [97]],
    show 5 < 2 ^ 31 by decide⟩

/-- With one key. -/
theorem evalRight_oneKey : EvalRight freshServer (evalArgs [49])
    (scriptCall plainLua digest false freshServer (evalArgs [49])) := by
  refine (evalRight_iff plainLua digest freshServer (evalArgs [49]) false (by decide)).mpr ?_
  intro numkeys hnum _ _
  have hone : getLongLongFromObject ((evalArgs [49]).arg 2) = some 1 := by decide
  obtain rfl := Option.some_inj.mp (hone.symm.trans hnum)
  exact ⟨fun _ => by decide, fun _ _ _ => by decide⟩

/-- With the number of keys -1 the script runs, and sees the number in `ARGV`. -/
theorem not_evalRight_negative : (∃ s, scriptCall plainLua digest false freshServer
      (evalArgs [45, 49]) = .ok (.run s [] [[45, 49], [107], [97]])) ∧
    ¬EvalRight freshServer (evalArgs [45, 49])
      (scriptCall plainLua digest false freshServer (evalArgs [45, 49])) := by
  have hrun : scriptCall plainLua digest false freshServer (evalArgs [45, 49]) =
      .ok (.run _ [] [[45, 49], [107], [97]]) := rfl
  refine ⟨⟨_, hrun⟩, fun hright => ?_⟩
  rw [hrun] at hright
  obtain ⟨n, hn, -⟩ := hright
  have hminus : getLongLongFromObject ((evalArgs [45, 49]).arg 2) = some (-1) := by decide
  have hneg : (-1 : ℤ) = n := Option.some_inj.mp (hminus.symm.trans hn)
  omega

end ScriptArguments

/-
The keys that `getKeysFromCommand` reports are the keys that the command uses.

* `ExactKeys` — the extraction stays in its memory, reports positions of arguments, and reports
  every key that the implementation reads or writes;
* `KeysDeclared` — the condition under which this is so;
* `getKeysFromCommand_exact_iff` — it is so for every command of the table and all arguments.
-/
import RedisModel.CommandTable
import RedisModel.ClusterQuery
import RedisModel.ClusterSlotsRun

open Except

namespace RedisCommands

variable {cmd : RedisCommand} {argv : ArgVector}

/-- The result is an array with the given positions in its first `*numkeys` cells. -/
def KeysResult.Returns (r : KeysResult) (positions : List ℕ) : Prop :=
  r.numkeys = positions.length ∧ r.keys.take positions.length = positions.map some

/-- The arguments at two positions are the same key. -/
def ArgVector.SameArg (argv : ArgVector) (p q : ℕ) : Prop :=
  ∃ key, argv.args[p]? = some key ∧ argv.args[q]? = some key

/-- Every used key is the argument at one of the reported positions. -/
def Covers (argv : ArgVector) (reported : ℕ → Prop) (used : List ℕ) : Prop :=
  ∀ p ∈ used, ∃ q, reported q ∧ argv.SameArg p q

/-- The extraction neither fails nor leaves its array, all positions are those of arguments, and
every key that the implementation reads or writes is reported. -/
def ExactKeys (cmd : RedisCommand) (argv : ArgVector) : Prop :=
  ∃ r positions, getKeysFromCommand cmd argv = .ok r ∧ r.Returns positions ∧
    (∀ p ∈ positions, 1 ≤ p ∧ p < argv.argc) ∧ Covers argv (· ∈ positions) (cmd.usedKeys argv)

/-- When the keys of a command are reported. -/
def KeysDeclared (cmd : RedisCommand) (argv : ArgVector) : Prop :=
  match cmd.proc with
  | .first | .firstTwo | .pairs | .bitop => True
  -- the table has only the first key of `PFCOUNT`
  | .all => cmd.lastkey = 1 → ∀ p, 1 ≤ p → p < argv.argc → argv.SameArg p 1
  -- and only that of `BRPOP`
  | .blockingPop =>
    cmd.lastkey = 1 → timeoutOk (argv.arg (argv.argc - 1)) = true →
      ∀ p, 1 ≤ p → p < argv.argc - 1 → argv.SameArg p 1
  -- the key of `OBJECT` is taken to be there
  | .object => 3 ≤ argv.argc
  -- a negative number of keys is not expected
  | .zunionInter => 0 ≤ atoi (argv.arg 2)
  | .eval =>
    0 ≤ atoi (argv.arg 2) ∧ ∀ n, evalNumkeys false argv = some n → n ≤ argv.argc - 3
  | .evalSha =>
    0 ≤ atoi (argv.arg 2) ∧ ∀ n, evalNumkeys true argv = some n → n ≤ argv.argc - 3
  -- the position of the `STORE` key is not counted
  | .sort => ∀ p, sortStore argv = some p → argv.SameArg p 1

/-! ### Arguments -/

theorem ArgVector.sameArg_self {p : ℕ} (h : p < argv.argc) : argv.SameArg p p :=
  ⟨argv.args.get ⟨p, h⟩, List.getElem?_eq_getElem h, List.getElem?_eq_getElem h⟩

theorem Covers.of_reported {reported : ℕ → Prop} {used : List ℕ}
    (h : ∀ p ∈ used, p < argv.argc ∧ reported p) : Covers argv reported used :=
  fun p hp => ⟨p, (h p hp).2, ArgVector.sameArg_self (h p hp).1⟩

/-! ### Arrays -/

/-- The cells of an array that were written are the first ones. -/
def Filled (written : List ℕ) (room : ℕ) (keys : KeyArray) : Prop :=
  keys = written.map some ++ List.replicate room none

theorem Filled.write {written : List ℕ} {room : ℕ} {keys : KeyArray}
    (h : Filled written (room + 1) keys) (v : ℕ) :
    (keys.write written.length v).Ensures (fun _ => False) (Filled (written ++ [v]) room) := by
  subst h
  rw [KeyArray.write, if_pos]
  · show Filled _ _ _
    simp [Filled, List.replicate_succ]
  · simp

theorem zmalloc_ok {n : ℤ} (h : 0 ≤ n) :
    (zmalloc n).Ensures (fun _ => False) (Filled [] n.toNat) := by
  rw [zmalloc, if_neg (by omega)]
  exact rfl

theorem Filled.returns {written : List ℕ} {room : ℕ} {keys : KeyArray} {numkeys : ℤ}
    (h : Filled written room keys) (hnum : numkeys = written.length) :
    KeysResult.Returns ⟨keys, numkeys⟩ written := by
  refine ⟨hnum, ?_⟩
  rw [h, List.take_append_of_le_length (by simp), List.take_of_length_le (by simp)]

theorem KeysResult.Returns.unique {r : KeysResult} {positions positions' : List ℕ}
    (h : r.Returns positions) (h' : r.Returns positions') : positions = positions' := by
  have hlength : positions.length = positions'.length := by
    have := h.1.symm.trans h'.1
    omega
  refine List.map_injective_iff.mpr (Option.some_injective ℕ) ?_
  rw [← h.2, ← h'.2, hlength]

/-- The reported positions. -/
def KeysResult.Reports (r : KeysResult) (reported : ℕ → Prop) : Prop :=
  ∃ positions, r.Returns positions ∧ ∀ q, q ∈ positions ↔ reported q

theorem exactKeys_iff {reported : ℕ → Prop}
    (h : (getKeysFromCommand cmd argv).Ensures (fun _ => False) (·.Reports reported)) :
    ExactKeys cmd argv ↔
      (∀ p, reported p → 1 ≤ p ∧ p < argv.argc) ∧ Covers argv reported (cmd.usedKeys argv) := by
  constructor
  · rintro ⟨r, positions, hr, hreturns, hrange, hcovers⟩
    obtain ⟨positions', hreturns', hmem⟩ := h.of_eq_ok hr
    obtain rfl := hreturns.unique hreturns'
    refine ⟨fun p hp => hrange p ((hmem p).mpr hp), fun p hp => ?_⟩
    obtain ⟨q, hq, hsame⟩ := hcovers p hp
    exact ⟨q, (hmem q).mp hq, hsame⟩
  · intro ⟨hrange, hcovers⟩
    cases hr : getKeysFromCommand cmd argv with
    | ok r =>
      obtain ⟨positions, hreturns, hmem⟩ := h.of_eq_ok hr
      refine ⟨r, positions, hr, hreturns, fun p hp => hrange p ((hmem p).mp hp), fun p hp => ?_⟩
      obtain ⟨q, hq, hsame⟩ := hcovers p hp
      exact ⟨q, (hmem q).mpr hq, hsame⟩
    | error e => exact (h.of_eq_error hr).elim

theorem not_exactKeys {e : KeysError} (h : getKeysFromCommand cmd argv = .error e) :
    ¬ExactKeys cmd argv := by
  rintro ⟨r, positions, hr, -⟩
  rw [h] at hr
  cases hr

theorem reports_null : KeysResult.null.Reports (fun _ => False) :=
  ⟨[], ⟨rfl, rfl⟩, fun _ => iff_of_false List.not_mem_nil id⟩

/-! ### Positions of the table -/

theorem tableLoop_spec {argc : ℕ} {last : ℤ} (hstep : 1 ≤ cmd.keystep) (hlast : last < argc)
    (rounds j : ℕ) {written : List ℕ} {room : ℕ} {keys : KeyArray}
    (hfilled : Filled written room keys) (hroom : last - j + 1 ≤ room)
    (hrounds : last - j + 1 ≤ rounds) :
    (tableLoop cmd argc last rounds j written.length keys).Ensures (fun _ => False) fun p =>
      ∃ new room', Filled (written ++ new) room' p.2 ∧ p.1 = (written ++ new).length ∧
        ∀ q, q ∈ new ↔ ∃ k, q = j + k * cmd.keystep ∧ (q : ℤ) ≤ last := by
  induction rounds generalizing j written room keys with
  | zero =>
    refine ⟨[], room, by simpa using hfilled, by simp, fun q => iff_of_false List.not_mem_nil ?_⟩
    rintro ⟨k, rfl, hq⟩
    push_cast at hq hrounds
    have : (0 : ℤ) ≤ k * cmd.keystep := by positivity
    omega
  | succ rounds ih =>
    rw [tableLoop]
    split
    · rename_i hj
      obtain ⟨room, rfl⟩ : ∃ room', room = room' + 1 := ⟨room - 1, by omega⟩
      refine Ensures.bind (Q := fun _ => True) ?_ fun _ _ => ?_
      · rw [redisAssert, if_pos (by omega)]
        trivial
      refine (hfilled.write j).bind fun keys' hfilled' => ?_
      have hrec := ih (j + cmd.keystep) hfilled' (by push_cast at hroom ⊢; omega)
        (by push_cast at hrounds ⊢; omega)
      rw [List.length_append] at hrec
      refine hrec.imp fun p ⟨new, room', hnew, hlength, hmem⟩ => ?_
      rw [List.append_assoc] at hnew hlength
      refine ⟨j :: new, room', hnew, hlength, fun q => ?_⟩
      rw [List.mem_cons, hmem]
      constructor
      · rintro (rfl | ⟨k, rfl, hq⟩)
        · exact ⟨0, by simp, hj⟩
        · exact ⟨k + 1, by ring, hq⟩
      · rintro ⟨k, rfl, hq⟩
        cases k with
        | zero => exact .inl (by simp)
        | succ k => exact .inr ⟨k, by ring, hq⟩
    · rename_i hj
      refine ⟨[], room, by simpa using hfilled, by simp, fun q => iff_of_false List.not_mem_nil ?_⟩
      rintro ⟨k, rfl, hq⟩
      push_cast at hq
      have : (0 : ℤ) ≤ k * cmd.keystep := by positivity
      omega

/-- The last position of a key. -/
def lastPosition (lastkey : ℤ) (argc : ℕ) : ℤ := if lastkey < 0 then argc + lastkey else lastkey

theorem getKeysUsingCommandTable_spec (hfirst : 1 ≤ cmd.firstkey) (hstep : 1 ≤ cmd.keystep)
    (hlast : lastPosition cmd.lastkey argv.argc < argv.argc)
    (hle : cmd.firstkey ≤ lastPosition cmd.lastkey argv.argc + 1) :
    (getKeysUsingCommandTable cmd argv).Ensures (fun _ => False) fun r =>
      r.Reports fun q => ∃ k, q = cmd.firstkey + k * cmd.keystep ∧
        (q : ℤ) ≤ lastPosition cmd.lastkey argv.argc := by
  rw [getKeysUsingCommandTable, if_neg (by omega)]
  have hnonneg : 0 ≤ lastPosition cmd.lastkey argv.argc - cmd.firstkey + 1 := by omega
  refine (zmalloc_ok hnonneg).bind fun keys hfilled => ?_
  have hloop := tableLoop_spec hstep hlast
    (lastPosition cmd.lastkey argv.argc - cmd.firstkey + 1).toNat cmd.firstkey hfilled
    (by omega) (by omega)
  refine hloop.bind ?_
  rintro p ⟨new, room', hnew, hlength, hmem⟩
  rw [List.nil_append] at hnew hlength
  exact ⟨new, hnew.returns (by rw [hlength]), hmem⟩

/-! ### Positions of the special commands -/

theorem fillLoop_spec (n room : ℕ) {keys : KeyArray} (hfilled : Filled [] (n + room) keys) :
    ((List.range n).foldlM (fun (keys : KeyArray) (i : ℕ) => keys.write i (3 + i)) keys).Ensures
      (fun _ => False) (Filled (List.range' 3 n) room) := by
  induction n generalizing room with
  | zero =>
    rw [Nat.zero_add] at hfilled
    exact hfilled
  | succ n ih =>
    rw [List.range_succ, List.foldlM_append, List.range'_concat]
    refine (ih (room + 1) (by rwa [Nat.add_right_comm] at hfilled)).bind fun keys' h => ?_
    have hwrite := h.write (3 + n)
    rw [List.length_range'] at hwrite
    rw [List.foldlM_cons]
    refine hwrite.bind fun keys'' h' => ?_
    rwa [one_mul]

theorem fillFromThree_spec {num : ℤ} (room : ℕ) {keys : KeyArray}
    (hfilled : Filled [] (num.toNat + room) keys) :
    (fillFromThree num keys).Ensures (fun _ => False)
      (Filled (List.range' 3 num.toNat) room) :=
  fillLoop_spec num.toNat room hfilled

theorem mem_range'_three {num : ℤ} {q : ℕ} :
    q ∈ List.range' 3 num.toNat ↔ 3 ≤ q ∧ (q : ℤ) < 3 + num := by
  rw [List.mem_range'_1]
  omega

theorem zunionInterGetKeys_spec (hnum : 0 ≤ atoi (argv.arg 2)) :
    (zunionInterGetKeys argv).Ensures (fun _ => False) fun r => r.Reports fun q =>
      atoi (argv.arg 2) ≤ argv.argc - 3 ∧ (q = 1 ∨ (3 ≤ q ∧ (q : ℤ) < 3 + atoi (argv.arg 2))) := by
  simp only [zunionInterGetKeys]
  split
  · rename_i hgt
    obtain ⟨positions, hreturns, hmem⟩ := reports_null
    exact ⟨positions, hreturns, fun q => (hmem q).trans (iff_of_false id fun h => by omega)⟩
  · rename_i hle
    refine (zmalloc_ok (n := atoi (argv.arg 2) + 1) (by omega)).bind fun keys hfilled => ?_
    rw [show (atoi (argv.arg 2) + 1).toNat = (atoi (argv.arg 2)).toNat + 1 by omega] at hfilled
    refine (fillFromThree_spec 1 hfilled).bind fun keys' hfilled' => ?_
    have hwrite := hfilled'.write 1
    rw [List.length_range', Int.toNat_of_nonneg hnum] at hwrite
    refine hwrite.bind fun keys'' hfilled'' => ?_
    refine ⟨_, hfilled''.returns ?_, fun q => ?_⟩
    · simp
      omega
    · rw [List.mem_append, List.mem_singleton, mem_range'_three]
      omega

theorem evalGetKeys_spec (hnum : 0 ≤ atoi (argv.arg 2)) :
    (evalGetKeys argv).Ensures (fun _ => False) fun r => r.Reports fun q =>
      atoi (argv.arg 2) ≤ argv.argc - 3 ∧ 3 ≤ q ∧ (q : ℤ) < 3 + atoi (argv.arg 2) := by
  simp only [evalGetKeys]
  split
  · rename_i hgt
    obtain ⟨positions, hreturns, hmem⟩ := reports_null
    exact ⟨positions, hreturns, fun q => (hmem q).trans (iff_of_false id fun h => by omega)⟩
  · rename_i hle
    refine (zmalloc_ok hnum).bind fun keys hfilled => ?_
    refine (fillFromThree_spec 0 hfilled).bind fun keys' hfilled' => ?_
    refine ⟨_, hfilled'.returns ?_, fun q => ?_⟩
    · simp
      omega
    · rw [mem_range'_three]
      omega

/-! ### `SORT` -/

/-- The two cells of `sortGetKeys`; the first one is written. -/
def SortCells (keys : KeyArray) : Prop := ∃ cell, keys = [some 1, cell]

theorem SortCells.write {keys : KeyArray} (h : SortCells keys) (v : ℕ) :
    (keys.write (1 : ℕ) v).Ensures (fun _ => False) SortCells := by
  obtain ⟨cell, rfl⟩ := h
  exact ⟨some v, rfl⟩

theorem sortScanArg_spec (i : ℕ) (names : List (Bytes × ℕ)) {keys : KeyArray}
    (h : SortCells keys) :
    (sortScanArg argv 1 i keys names).Ensures (fun _ => False) fun p => SortCells p.2 := by
  induction names with
  | nil => exact h
  | cons option names ih =>
    obtain ⟨name, skip⟩ := option
    rw [sortScanArg]
    split
    · exact h
    split
    · exact (h.write (i + 1)).bind fun keys' h' => h'
    · exact ih

theorem sortScan_spec (rounds i : ℕ) {keys : KeyArray} (h : SortCells keys) :
    (sortScan argv 1 rounds i keys).Ensures (fun _ => False) SortCells := by
  induction rounds generalizing i keys with
  | zero => exact h
  | succ rounds ih =>
    rw [sortScan]
    split
    · exact (sortScanArg_spec i skiplist h).bind fun p hp => ih (p.1 + 1) hp
    · exact h

theorem sortGetKeys_spec :
    (sortGetKeys argv).Ensures (fun _ => False) fun r => r.Reports (· = 1) := by
  have hcells : SortCells [some 1, none] := ⟨none, rfl⟩
  show (sortScan argv 1 argv.argc 2 [some 1, none] >>= fun keys =>
    .ok (⟨keys, (1 : ℕ)⟩ : KeysResult)).Ensures _ _
  refine (sortScan_spec argv.argc 2 hcells).bind ?_
  rintro keys ⟨cell, rfl⟩
  exact ⟨[1], ⟨rfl, rfl⟩, fun q => List.mem_singleton⟩

/-! ### Entries of the table -/

/-- The fields of an entry, and the least number of arguments. -/
structure RedisCommand.Declares (cmd : RedisCommand) (getkeysProc : Option GetKeysProc)
    (firstkey : ℕ) (lastkey : ℤ) (keystep : ℕ) (minArgs : ℕ) : Prop where
  getkeysProc : cmd.getkeysProc = getkeysProc
  firstkey : cmd.firstkey = firstkey
  lastkey : cmd.lastkey = lastkey
  keystep : cmd.keystep = keystep
  minArgs : minArgs ≤ cmd.arity.natAbs

instance instDecidableDeclares (cmd : RedisCommand) (getkeysProc : Option GetKeysProc)
    (firstkey : ℕ) (lastkey : ℤ) (keystep minArgs : ℕ) :
    Decidable (cmd.Declares getkeysProc firstkey lastkey keystep minArgs) :=
  decidable_of_iff (cmd.getkeysProc = getkeysProc ∧ cmd.firstkey = firstkey ∧
      cmd.lastkey = lastkey ∧ cmd.keystep = keystep ∧ minArgs ≤ cmd.arity.natAbs)
    ⟨fun ⟨h₁, h₂, h₃, h₄, h₅⟩ => ⟨h₁, h₂, h₃, h₄, h₅⟩,
      fun ⟨h₁, h₂, h₃, h₄, h₅⟩ => ⟨h₁, h₂, h₃, h₄, h₅⟩⟩

/-- The fields of an entry fit the implementation. -/
def RedisCommand.WellDeclared (cmd : RedisCommand) : Prop :=
  match cmd.proc with
  | .first => cmd.Declares none 1 1 1 2
  | .firstTwo => cmd.Declares none 1 2 1 3
  | .all => cmd.Declares none 1 (-1) 1 2 ∨ cmd.Declares none 1 1 1 2
  | .pairs => cmd.Declares none 1 (-1) 2 3
  | .blockingPop => cmd.Declares none 1 (-2) 1 3 ∨ cmd.Declares none 1 1 1 3
  | .object => cmd.Declares none 2 2 2 2
  | .bitop => cmd.Declares none 2 (-1) 1 4
  | .zunionInter => cmd.Declares (some .zunionInterGetKeys) 0 0 0 4
  | .eval => cmd.Declares (some .evalGetKeys) 0 0 0 3
  | .evalSha => cmd.Declares (some .evalGetKeys) 0 0 0 3
  | .sort => cmd.Declares (some .sortGetKeys) 1 1 1 2

instance instDecidableWellDeclared (cmd : RedisCommand) : Decidable cmd.WellDeclared := by
  unfold RedisCommand.WellDeclared
  cases cmd.proc <;> exact inferInstance

theorem wellDeclared : ∀ cmd ∈ redisCommandTable, cmd.WellDeclared := by decide

theorem RedisCommand.Declares.le_argc {getkeysProc : Option GetKeysProc} {firstkey : ℕ}
    {lastkey : ℤ} {keystep minArgs : ℕ}
    (h : cmd.Declares getkeysProc firstkey lastkey keystep minArgs)
    (harity : cmd.arityOk argv.argc) : minArgs ≤ argv.argc := by
  have := h.minArgs
  simp only [RedisCommand.arityOk] at harity
  omega

theorem exactKeys_declares {firstkey : ℕ} {lastkey : ℤ} {keystep minArgs : ℕ}
    (h : cmd.Declares none firstkey lastkey keystep minArgs) (hfirst : 1 ≤ firstkey)
    (hstep : 1 ≤ keystep) (hlast : lastPosition lastkey argv.argc < argv.argc)
    (hle : firstkey ≤ lastPosition lastkey argv.argc + 1) :
    ExactKeys cmd argv ↔ ∀ p ∈ cmd.usedKeys argv, ∃ k,
      ((firstkey + k * keystep : ℕ) : ℤ) ≤ lastPosition lastkey argv.argc ∧
        argv.SameArg p (firstkey + k * keystep) := by
  obtain ⟨hproc, rfl, rfl, rfl, -⟩ := h
  have hspec : (getKeysFromCommand cmd argv).Ensures (fun _ => False) fun r => r.Reports fun q =>
      ∃ k, q = cmd.firstkey + k * cmd.keystep ∧
        (q : ℤ) ≤ lastPosition cmd.lastkey argv.argc := by
    rw [getKeysFromCommand, hproc]
    exact getKeysUsingCommandTable_spec hfirst hstep hlast hle
  rw [exactKeys_iff hspec]
  constructor
  · rintro ⟨-, hcovers⟩ p hp
    obtain ⟨q, ⟨k, rfl, hq⟩, hsame⟩ := hcovers p hp
    exact ⟨k, hq, hsame⟩
  · refine fun hcovers => ⟨?_, fun p hp => ?_⟩
    · rintro q ⟨k, rfl, hq⟩
      exact ⟨by omega, by omega⟩
    · obtain ⟨k, hq, hsame⟩ := hcovers p hp
      exact ⟨_, ⟨k, rfl, hq⟩, hsame⟩

theorem exactKeys_of_positions {firstkey : ℕ} {lastkey : ℤ} {keystep minArgs : ℕ}
    (h : cmd.Declares none firstkey lastkey keystep minArgs) (hfirst : 1 ≤ firstkey)
    (hstep : 1 ≤ keystep) (hlast : lastPosition lastkey argv.argc < argv.argc)
    (hle : firstkey ≤ lastPosition lastkey argv.argc + 1)
    (hused : ∀ p ∈ cmd.usedKeys argv, ∃ k, p = firstkey + k * keystep ∧
      (p : ℤ) ≤ lastPosition lastkey argv.argc) : ExactKeys cmd argv := by
  refine (exactKeys_declares h hfirst hstep hlast hle).mpr fun p hp => ?_
  obtain ⟨k, rfl, hle⟩ := hused p hp
  exact ⟨k, hle, ArgVector.sameArg_self (by omega)⟩

theorem exactKeys_of_range {firstkey : ℕ} {lastkey : ℤ} {minArgs : ℕ}
    (h : cmd.Declares none firstkey lastkey 1 minArgs) (hfirst : 1 ≤ firstkey)
    (hlast : lastPosition lastkey argv.argc < argv.argc)
    (hle : firstkey ≤ lastPosition lastkey argv.argc + 1)
    (hused : ∀ p ∈ cmd.usedKeys argv, firstkey ≤ p ∧ (p : ℤ) ≤ lastPosition lastkey argv.argc) :
    ExactKeys cmd argv := by
  refine exactKeys_of_positions h hfirst le_rfl hlast hle fun p hp => ⟨p - firstkey, ?_, ?_⟩
  · have := (hused p hp).1
    omega
  · exact (hused p hp).2

theorem exactKeys_single {minArgs : ℕ} (h : cmd.Declares none 1 1 1 minArgs)
    (hargc : 2 ≤ argv.argc) :
    ExactKeys cmd argv ↔ ∀ p ∈ cmd.usedKeys argv, argv.SameArg p 1 := by
  have hlast : lastPosition 1 argv.argc = 1 := rfl
  rw [exactKeys_declares h le_rfl le_rfl (by omega) (by omega), hlast]
  refine forall₂_congr fun p _ => ⟨?_, fun hsame => ⟨0, le_rfl, hsame⟩⟩
  rintro ⟨k, hk, hsame⟩
  obtain rfl : k = 0 := by
    push_cast at hk
    omega
  exact hsame

/-! ### Exactness -/

attribute [local simp] RedisCommand.usedKeys KeyArguments.positions

theorem exactKeys_all (hproc : cmd.proc = .all) (harity : cmd.arityOk argv.argc)
    (h : cmd.Declares none 1 (-1) 1 2 ∨ cmd.Declares none 1 1 1 2) :
    ExactKeys cmd argv ↔
      (cmd.lastkey = 1 → ∀ p, 1 ≤ p → p < argv.argc → argv.SameArg p 1) := by
  have hused : ∀ p, p ∈ cmd.usedKeys argv ↔ 1 ≤ p ∧ p < argv.argc := fun p => by
    simp only [RedisCommand.usedKeys, hproc, KeyArguments.positions, List.mem_range'_1]
    omega
  rcases h with h | h
  · have hargc := h.le_argc harity
    have hlast : lastPosition (-1) argv.argc = argv.argc + (-1) := rfl
    refine iff_of_true ?_ fun hone => absurd (h.lastkey.symm.trans hone) (by decide)
    refine exactKeys_of_range h le_rfl (by omega) (by omega) fun p hp => ?_
    have := (hused p).mp hp
    omega
  · rw [exactKeys_single h (h.le_argc harity)]
    constructor
    · exact fun hsame _ p hp hlt => hsame p ((hused p).mpr ⟨hp, hlt⟩)
    · exact fun hsame p hp => hsame h.lastkey p ((hused p).mp hp).1 ((hused p).mp hp).2

theorem exactKeys_pairs (hproc : cmd.proc = .pairs) (harity : cmd.arityOk argv.argc)
    (h : cmd.Declares none 1 (-1) 2 3) : ExactKeys cmd argv := by
  have hargc := h.le_argc harity
  have hlast : lastPosition (-1) argv.argc = argv.argc + (-1) := rfl
  refine exactKeys_of_positions h le_rfl (by omega) (by omega) (by omega) fun p hp => ?_
  simp only [RedisCommand.usedKeys, hproc, KeyArguments.positions] at hp
  split at hp
  · cases hp
  · obtain ⟨k, hk, rfl⟩ := List.mem_range'.mp hp
    exact ⟨k, by omega, by omega⟩

theorem exactKeys_blockingPop (hproc : cmd.proc = .blockingPop) (harity : cmd.arityOk argv.argc)
    (h : cmd.Declares none 1 (-2) 1 3 ∨ cmd.Declares none 1 1 1 3) :
    ExactKeys cmd argv ↔
      (cmd.lastkey = 1 → timeoutOk (argv.arg (argv.argc - 1)) = true →
        ∀ p, 1 ≤ p → p < argv.argc - 1 → argv.SameArg p 1) := by
  have hused : ∀ p, p ∈ cmd.usedKeys argv ↔
      timeoutOk (argv.arg (argv.argc - 1)) = true ∧ 1 ≤ p ∧ p < argv.argc - 1 := fun p => by
    simp only [RedisCommand.usedKeys, hproc, KeyArguments.positions]
    split
    · rename_i htimeout
      rw [List.mem_range'_1]
      exact ⟨fun hp => ⟨htimeout, by omega⟩, fun hp => by omega⟩
    · rename_i htimeout
      exact iff_of_false List.not_mem_nil fun hp => htimeout hp.1
  rcases h with h | h
  · have hargc := h.le_argc harity
    have hlast : lastPosition (-2) argv.argc = argv.argc + (-2) := rfl
    refine iff_of_true ?_ fun hone => absurd (h.lastkey.symm.trans hone) (by decide)
    refine exactKeys_of_range h le_rfl (by omega) (by omega) fun p hp => ?_
    have := ((hused p).mp hp).2
    omega
  · have hargc := h.le_argc harity
    rw [exactKeys_single h (by omega)]
    constructor
    · exact fun hsame _ htimeout p hp hlt => hsame p ((hused p).mpr ⟨htimeout, hp, hlt⟩)
    · intro hsame p hp
      obtain ⟨htimeout, hpos, hlt⟩ := (hused p).mp hp
      exact hsame h.lastkey htimeout p hpos hlt

theorem exactKeys_object (hproc : cmd.proc = .object) (harity : cmd.arityOk argv.argc)
    (h : cmd.Declares none 2 2 2 2) : ExactKeys cmd argv ↔ 3 ≤ argv.argc := by
  have hlast : lastPosition 2 argv.argc = 2 := rfl
  by_cases hargc : 3 ≤ argv.argc
  · refine iff_of_true ?_ hargc
    refine exactKeys_of_positions h (by omega) (by omega) (by omega) (by omega) fun p hp => ?_
    simp only [RedisCommand.usedKeys, hproc, KeyArguments.positions] at hp
    split at hp
    · obtain rfl := List.mem_singleton.mp hp
      exact ⟨0, by omega, by omega⟩
    · cases hp
  · have htwo : argv.argc = 2 := by
      have := h.le_argc harity
      omega
    refine iff_of_false (not_exactKeys (e := .redisAssert) ?_) hargc
    obtain ⟨hgetkeys, hfirst, hlastkey, hstep, -⟩ := h
    rw [getKeysFromCommand, hgetkeys]
    simp only [getKeysUsingCommandTable, hfirst, hlastkey, htwo]
    rfl

theorem exactKeys_bitop (hproc : cmd.proc = .bitop) (harity : cmd.arityOk argv.argc)
    (h : cmd.Declares none 2 (-1) 1 4) : ExactKeys cmd argv := by
  have hargc := h.le_argc harity
  have hlast : lastPosition (-1) argv.argc = argv.argc + (-1) := rfl
  refine exactKeys_of_range h (by omega) (by omega) (by omega) fun p hp => ?_
  simp only [RedisCommand.usedKeys, hproc, KeyArguments.positions, List.mem_range'_1] at hp
  omega

theorem exactKeys_zunionInter (hproc : cmd.proc = .zunionInter) (harity : cmd.arityOk argv.argc)
    (h : cmd.Declares (some .zunionInterGetKeys) 0 0 0 4) :
    ExactKeys cmd argv ↔ 0 ≤ atoi (argv.arg 2) := by
  have hget : getKeysFromCommand cmd argv = zunionInterGetKeys argv := by
    rw [getKeysFromCommand, h.getkeysProc]
  by_cases hnum : 0 ≤ atoi (argv.arg 2)
  · refine iff_of_true ?_ hnum
    have hargc := h.le_argc harity
    rw [exactKeys_iff (hget ▸ zunionInterGetKeys_spec hnum)]
    refine ⟨fun p hp => by omega, Covers.of_reported fun p hp => ?_⟩
    simp only [RedisCommand.usedKeys, hproc, KeyArguments.positions, zunionInterSetnum] at hp
    -- the number that the command accepts is a small one, and the one of `atoi`
    cases hset : getLongLongFromObject (argv.arg 2) with
    | none => simp [hset] at hp
    | some setnum =>
      simp only [hset] at hp
      split at hp
      · cases hp
      rename_i heq
      split at heq
      · cases heq
      rename_i hrange
      obtain rfl := Option.some_inj.mp heq
      have hlength := argv.length_lt
      have hatoi : atoi (argv.arg 2) = setnum := by
        rw [atoi_of_getLongLongFromObject hset]
        refine toInt_of_lt (by omega) ?_
        simp only [ArgVector.argc] at hrange
        omega
      rw [List.mem_cons, mem_range'_three] at hp
      omega
  · refine iff_of_false ?_ hnum
    have hle : ¬atoi (argv.arg 2) > argv.argc - 3 := by
      have := h.le_argc harity
      omega
    rw [zunionInterGetKeys, if_neg hle] at hget
    by_cases hone : atoi (argv.arg 2) + 1 < 0
    · rw [zmalloc, if_pos hone] at hget
      exact not_exactKeys hget
    · -- the array has no cell, and the storage key is written before it
      obtain hminus : atoi (argv.arg 2) = -1 := by omega
      rw [hminus] at hget
      exact not_exactKeys (e := .outOfBounds) hget

theorem exactKeys_eval {sha : Bool} (harity : cmd.arityOk argv.argc)
    (h : cmd.Declares (some .evalGetKeys) 0 0 0 3)
    (hused : cmd.usedKeys argv = List.range' 3 ((evalNumkeys sha argv).getD 0).toNat) :
    ExactKeys cmd argv ↔
      0 ≤ atoi (argv.arg 2) ∧ ∀ n, evalNumkeys sha argv = some n → n ≤ argv.argc - 3 := by
  have hget : getKeysFromCommand cmd argv = evalGetKeys argv := by
    rw [getKeysFromCommand, h.getkeysProc]
  have hargc := h.le_argc harity
  -- both numbers are the low bits of the same value
  have hatoi : ∀ n, evalNumkeys sha argv = some n → n = atoi (argv.arg 2) := fun n hn => by
    simp only [evalNumkeys] at hn
    split at hn
    · cases hn
    split at hn
    · cases hn
    · rename_i numkeys hnumkeys
      split at hn
      · cases hn
      · rw [atoi_of_getLongLongFromObject hnumkeys]
        exact (Option.some_inj.mp hn).symm
  by_cases hnum : 0 ≤ atoi (argv.arg 2)
  · rw [exactKeys_iff (hget ▸ evalGetKeys_spec hnum), hused]
    constructor
    · rintro ⟨-, hcovers⟩
      refine ⟨hnum, fun n hn => ?_⟩
      by_contra hgt
      obtain rfl := hatoi n hn
      obtain ⟨q, hq, -⟩ := hcovers 3 (by rw [hn, Option.getD_some, mem_range'_three]; omega)
      omega
    · rintro ⟨-, hle⟩
      refine ⟨fun p hp => by omega, Covers.of_reported fun p hp => ?_⟩
      cases hn : evalNumkeys sha argv with
      | none => simp [hn] at hp
      | some n =>
        obtain rfl := hatoi n hn
        have := hle _ hn
        rw [hn, Option.getD_some, mem_range'_three] at hp
        omega
  · refine iff_of_false (not_exactKeys (e := .outOfMemory) ?_) fun h => hnum h.1
    rw [hget, evalGetKeys, if_neg (by omega), zmalloc, if_pos (by omega)]
    rfl

theorem exactKeys_sort (hproc : cmd.proc = .sort) (harity : cmd.arityOk argv.argc)
    (h : cmd.Declares (some .sortGetKeys) 1 1 1 2) :
    ExactKeys cmd argv ↔ ∀ p, sortStore argv = some p → argv.SameArg p 1 := by
  have hget : getKeysFromCommand cmd argv = sortGetKeys argv := by
    rw [getKeysFromCommand, h.getkeysProc]
  have hargc := h.le_argc harity
  have hused : cmd.usedKeys argv = 1 :: (sortStore argv).toList := by
    rw [RedisCommand.usedKeys, hproc, KeyArguments.positions]
  rw [exactKeys_iff (hget ▸ sortGetKeys_spec), hused]
  constructor
  · intro ⟨_, hcovers⟩ p hp
    have hmem : p ∈ 1 :: (sortStore argv).toList := by simp [hp]
    obtain ⟨q, rfl, hsame⟩ := hcovers p hmem
    exact hsame
  · refine fun hsame => ⟨fun p hp => by omega, fun p hp => ⟨1, rfl, ?_⟩⟩
    rcases List.mem_cons.mp hp with rfl | hp
    · exact ArgVector.sameArg_self (by omega)
    · exact hsame p (Option.mem_toList.mp hp)

/-- For every command of the table and all arguments that it accepts in number, the extraction of
keys is exact if and only if the keys are declared. -/
theorem getKeysFromCommand_exact_iff (cmd : RedisCommand) (hcmd : cmd ∈ redisCommandTable)
    (argv : ArgVector) (harity : cmd.arityOk argv.argc) :
    ExactKeys cmd argv ↔ KeysDeclared cmd argv := by
  have h := wellDeclared cmd hcmd
  have hpositions : cmd.usedKeys argv = cmd.proc.positions argv := rfl
  simp only [RedisCommand.WellDeclared] at h
  simp only [KeysDeclared]
  cases hproc : cmd.proc <;> simp only [hproc] at h hpositions ⊢
  case first =>
    rw [exactKeys_single h (h.le_argc harity), hpositions]
    have hargc := h.le_argc harity
    refine iff_of_true (fun p hp => ?_) trivial
    obtain rfl := List.mem_singleton.mp hp
    exact ArgVector.sameArg_self (by omega)
  case firstTwo =>
    have hargc := h.le_argc harity
    have hlast : lastPosition 2 argv.argc = 2 := rfl
    refine iff_of_true (exactKeys_of_range h le_rfl (by omega) (by omega) fun p hp => ?_) trivial
    rw [hpositions] at hp
    simp only [KeyArguments.positions, List.mem_cons, List.not_mem_nil, or_false] at hp
    omega
  case all => exact exactKeys_all hproc harity h
  case pairs => exact iff_of_true (exactKeys_pairs hproc harity h) trivial
  case blockingPop => exact exactKeys_blockingPop hproc harity h
  case object => exact exactKeys_object hproc harity h
  case bitop => exact iff_of_true (exactKeys_bitop hproc harity h) trivial
  case zunionInter => exact exactKeys_zunionInter hproc harity h
  case eval => exact exactKeys_eval harity h hpositions
  case evalSha => exact exactKeys_eval harity h hpositions
  case sort => exact exactKeys_sort hproc harity h

theorem mem_table_of_get {i : ℕ} {cmd : RedisCommand} (h : redisCommandTable[i]? = some cmd) :
    cmd ∈ redisCommandTable := List.mem_of_getElem? h

def zinterstoreCommand : RedisCommand :=
  ⟨"zinterstore", -4, some .zunionInterGetKeys, 0, 0, 0, .zunionInter⟩

def zinterstoreArgs : ArgVector :=
  ⟨[ascii ['Z', 'I', 'N', 'T', 'E', 'R', 'S', 'T', 'O', 'R', 'E'], ascii ['d'], ascii ['2'],
    ascii ['a'], ascii ['b']], by decide⟩

theorem exactKeys_zinterstore : zinterstoreCommand ∈ redisCommandTable ∧
    zinterstoreCommand.arityOk zinterstoreArgs.argc ∧
    ExactKeys zinterstoreCommand zinterstoreArgs := by
  have hmem : zinterstoreCommand ∈ redisCommandTable := mem_table_of_get (i := 56) rfl
  have harity : zinterstoreCommand.arityOk zinterstoreArgs.argc := by decide
  refine ⟨hmem, harity, ?_⟩
  refine (getKeysFromCommand_exact_iff zinterstoreCommand hmem zinterstoreArgs harity).mpr ?_
  show 0 ≤ atoi (zinterstoreArgs.arg 2)
  decide

def sortCommand : RedisCommand := ⟨"sort", -2, some .sortGetKeys, 1, 1, 1, .sort⟩

/-- `SORT k STORE d`. -/
def sortStoreArgs : ArgVector :=
  ⟨[ascii ['S', 'O', 'R', 'T'], ascii ['k'], ascii ['S', 'T', 'O', 'R', 'E'], ascii ['d']],
    by decide⟩

/-- `SORT` stores to a key that is not reported. -/
theorem not_exactKeys_sortStore : ¬∀ cmd ∈ redisCommandTable, ∀ argv : ArgVector,
    cmd.arityOk argv.argc → ExactKeys cmd argv := by
  intro h
  have hmem : sortCommand ∈ redisCommandTable := mem_table_of_get (i := 98) rfl
  have harity : sortCommand.arityOk sortStoreArgs.argc := by decide
  have hexact := h sortCommand hmem sortStoreArgs harity
  obtain ⟨key, hd, hk⟩ := (exactKeys_sort rfl harity (wellDeclared sortCommand hmem)).mp hexact 3
    (by decide)
  have hsame : ascii ['d'] = ascii ['k'] := Option.some_inj.mp (hd.trans hk.symm)
  revert hsame
  decide

/-! ### Routing -/

section
variable {V N : Type}

end

end RedisCommands

/-
`loadAppendOnlyFile`.

The commands are recorded and not executed, but for what they do to the flag `REDIS_MULTI` of the
fake client.

* `CommandTable` — how a name is looked up;
* `loadArgs`, `loadLoop`, `loadAppendOnlyFile` — the commands of a file, and how loading ends.
-/
import RedisModel.AofCheck
import RedisModel.DynamicStringSpec

open RedisCommands AofCheck
open DynamicString (Sdshdr toSize)

namespace AofLoad

/-- How `loadAppendOnlyFile` ends: it returns `REDIS_ERR` or `REDIS_OK`, or it exits at `readerr`,
at `fmterr`, or because of an unknown command. -/
inductive LoadEnd where
  | empty
  | done
  | readerr
  | fmterr
  | unknown
  deriving DecidableEq, Repr

/-- What is told apart of the commands. -/
inductive Command where
  | multiCommand
  | execCommand
  | discardCommand
  | other
  deriving DecidableEq, Repr

/-- `server.commands`: a name is looked up by the hash of all its bytes, and is compared with the
names in the table by `strcasecmp`. -/
structure CommandTable where
  lookup : Bytes → Option Command
  multi_iff : ∀ name cmd, lookup name = some cmd →
    (cmd = .multiCommand ↔ strcasecmp name multiName = true)
  exec_iff : ∀ name cmd, lookup name = some cmd →
    (cmd = .execCommand ↔ strcasecmp name execName = true)

/-- The flag `REDIS_MULTI` after a command. -/
def Command.flag : Command → Bool → Bool
  | .multiCommand, _ => true
  | .execCommand, _ | .discardCommand, _ => false
  | .other, multi => multi

/-- `sdsnewlen(NULL,len)`, filled with `bytes`. -/
def newArgument (bytes : Bytes) : Sdshdr := ⟨DynamicString.toInt bytes.length, 0, bytes ++ [0]⟩

/-- The body of the `for` loop. -/
def loadArg (s : Bytes) : Except LoadEnd (Sdshdr × Bytes) :=
  match fgets 128 s with
  | none => .error .readerr
  | some (line, s) =>
    let buf := lineBuf line
    if buf.head? ≠ some 36 then .error .fmterr
    else
      let len := toSize (strtoll (cString (buf.drop 1))).value
      if len ≠ 0 ∧ s.length < len then .error .fmterr
      else
        let s' := s.drop len
        if s'.length < 2 then .error .fmterr else .ok (newArgument (s.take len), s'.drop 2)

/-- The `for` loop. -/
def loadArgs : ℕ → Bytes → Except LoadEnd (List Sdshdr × Bytes)
  | 0, s => .ok ([], s)
  | n + 1, s => do
    let (arg, s) ← loadArg s
    let (argv, s) ← loadArgs n s
    return (arg :: argv, s)

theorem loadArg_length {s rest : Bytes} {arg : Sdshdr} (h : loadArg s = .ok (arg, rest)) :
    rest.length ≤ s.length := by
  rw [loadArg] at h
  split at h
  · cases h
  · rename_i line s' hline
    dsimp only at h
    split at h
    · cases h
    · split at h
      · cases h
      · split at h
        · cases h
        · obtain ⟨-, rfl⟩ := Prod.mk.inj (Except.ok.inj h)
          have hlt := fgets_length (by decide) hline
          simp only [List.length_drop]
          omega

theorem loadArgs_cons {n : ℕ} {s rest : Bytes} {argv : List Sdshdr} :
    loadArgs (n + 1) s = .ok (argv, rest) ↔ ∃ arg s' argv', loadArg s = .ok (arg, s') ∧
      loadArgs n s' = .ok (argv', rest) ∧ argv = arg :: argv' := by
  rw [loadArgs]
  cases loadArg s with
  | error e => exact iff_of_false (fun h => by cases h) fun ⟨_, _, _, h, _⟩ => by cases h
  | ok p =>
    obtain ⟨arg, s'⟩ := p
    show (loadArgs n s' >>= fun q => pure (arg :: q.1, q.2)) = _ ↔ _
    cases hargs : loadArgs n s' with
    | error e =>
      refine iff_of_false (fun h => by cases h) fun ⟨arg', s'', argv', h, h', _⟩ => ?_
      obtain ⟨-, rfl⟩ := Prod.mk.inj (Except.ok.inj h)
      rw [hargs] at h'
      cases h'
    | ok q =>
      obtain ⟨argv', rest'⟩ := q
      constructor
      · intro h
        obtain ⟨rfl, rfl⟩ := Prod.mk.inj (Except.ok.inj h)
        exact ⟨arg, s', argv', rfl, hargs, rfl⟩
      · rintro ⟨arg', s'', argv'', h, h', rfl⟩
        obtain ⟨rfl, rfl⟩ := Prod.mk.inj (Except.ok.inj h)
        obtain ⟨rfl, rfl⟩ := Prod.mk.inj (Except.ok.inj (hargs.symm.trans h'))
        rfl

theorem loadArgs_length {n : ℕ} {s rest : Bytes} {argv : List Sdshdr}
    (h : loadArgs n s = .ok (argv, rest)) : rest.length ≤ s.length := by
  induction n generalizing s argv with
  | zero => exact (Prod.mk.inj (Except.ok.inj h)).2 ▸ le_rfl
  | succ n ih =>
    obtain ⟨arg, s', argv', harg, hargs, -⟩ := loadArgs_cons.mp h
    exact (ih hargs).trans (loadArg_length harg)

section
variable (table : CommandTable)

/-- The `while` loop. -/
def loadLoop (multi : Bool) (s : Bytes) : List (List Sdshdr) × LoadEnd :=
  match _hline : fgets 128 s with
  | none => ([], if multi then .readerr else .done)
  | some (line, s') =>
    let buf := lineBuf line
    if buf.head? ≠ some 42 then ([], .fmterr)
    else
      let argc := atoi (buf.drop 1)
      if argc < 1 then ([], .fmterr)
      else
        match _hargs : loadArgs argc.toNat s' with
        | .error ending => ([], ending)
        | .ok (argv, rest) =>
          match argv.head?.bind fun name => table.lookup (DynamicString.contents name) with
          | none => ([], .unknown)
          | some cmd =>
            let (commands, ending) := loadLoop (cmd.flag multi) rest
            (argv :: commands, ending)
termination_by s.length
decreasing_by exact (loadArgs_length _hargs).trans_lt (fgets_length (by decide) _hline)

def loadAppendOnlyFile (file : Bytes) : List (List Sdshdr) × LoadEnd :=
  if file = [] then ([], .empty) else loadLoop table false file

end

end AofLoad

/-
`redis-check-aof`.

A file is the list of the bytes that have not been read yet.

* `Outcome` — a function of the tool reads something, returns 0, or does what is not allowed: it
  accesses memory outside of an object, or an integer overflows;
* `fgets` — the function of the C library;
* `readLong`, `readString`, `process` — the functions of the tool.
-/
import RedisModel.CommandArguments

open ByteBuffer StringNumber RedisCommands

namespace AofCheck

/-! ### Outcomes -/

/-- What a function does that returns 1 or 0. -/
inductive Outcome (α : Type) where
  | ok (a : α)
  | failed
  | fault
  deriving DecidableEq, Repr

namespace Outcome

variable {α β : Type}

def bind : Outcome α → (α → Outcome β) → Outcome β
  | ok a, f => f a
  | failed, _ => failed
  | fault, _ => fault

instance : Monad Outcome where
  pure := ok
  bind := bind

@[simp] theorem ok_bind (a : α) (f : α → Outcome β) : (ok a >>= f) = f a := rfl

@[simp] theorem fault_bind (f : α → Outcome β) : ((fault : Outcome α) >>= f) = fault := rfl

theorem bind_eq_ok {x : Outcome α} {f : α → Outcome β} {b : β} :
    (x >>= f) = ok b ↔ ∃ a, x = ok a ∧ f a = ok b := by
  cases x with
  | ok a => exact ⟨fun h => ⟨a, rfl, h⟩, fun ⟨_, ha, h⟩ => by cases ha; exact h⟩
  | failed => exact iff_of_false (fun h => by cases h) fun ⟨_, ha, _⟩ => by cases ha
  | fault => exact iff_of_false (fun h => by cases h) fun ⟨_, ha, _⟩ => by cases ha

theorem bind_eq_fault {x : Outcome α} {f : α → Outcome β} :
    (x >>= f) = fault ↔ x = fault ∨ ∃ a, x = ok a ∧ f a = fault := by
  cases x with
  | ok a =>
    refine ⟨fun h => .inr ⟨a, rfl, h⟩, fun h => ?_⟩
    obtain h | ⟨_, ha, h⟩ := h
    · cases h
    · cases ha
      exact h
  | failed =>
    refine iff_of_false (fun h => by cases h) fun h => ?_
    obtain h | ⟨_, h, _⟩ := h
    · cases h
    · cases h
  | fault => exact iff_of_true rfl (.inl rfl)

end Outcome

/-! ### Lines -/

/-- The bytes up to a newline, and with it. -/
def lineOf : Bytes → Bytes
  | [] => []
  | c :: s => if c = 10 then [c] else c :: lineOf s

/-- `fgets(buf,size,fp)`: the line, and what is left of the file. -/
def fgets (size : ℕ) (s : Bytes) : Option (Bytes × Bytes) :=
  if s = [] then none
  else
    let line := lineOf (s.take (size - 1))
    some (line, s.drop line.length)

/-- `char buf[128]`.  A line ends with a zero byte; what comes after it is never compared, as a
comparison does not go on after a zero byte. -/
def lineBuf (line : Bytes) : Bytes := line ++ List.replicate (128 - line.length) 0

/-! ### Reading -/

/-- `consumeNewline`: both bytes are read, by `strncmp` or for the error message. -/
def consumeNewline (m : Bytes) (p : ℤ) : Outcome Unit :=
  match if 0 ≤ p then slice m p.toNat 2 else none with
  | none => .fault
  | some bytes => if bytes = [13, 10] then .ok () else .failed

def readLong (first : UInt8) (s : Bytes) : Outcome (ℤ × Bytes) :=
  match fgets 128 s with
  | none => .failed
  | some (line, s) =>
    let buf := lineBuf line
    if buf.head? ≠ some first then .failed
    else do
      let text := cString (buf.drop 1)
      let r := strtoll text
      consumeNewline buf (1 + text.length - r.rest.length)
      return (r.value, s)

/-- `readBytes`; `target` is not `NULL` if `allocated`. -/
def readBytes (allocated : Bool) (length : ℤ) (s : Bytes) : Outcome (Bytes × Bytes) :=
  let read := s.take (length % 2 ^ 64).toNat
  if allocated = false ∧ read ≠ [] then .fault
  else if (read.length : ℤ) ≠ length then .failed
  else .ok (read, s.drop read.length)

section
-- whether `malloc` succeeds, for a size that is not larger than any object
variable (malloc : ℕ → Bool)

/-- `readString` after the length, which becomes larger by 2. -/
def readContents (len : ℤ) (s : Bytes) : Outcome (Bytes × Bytes) :=
  if (llongMax : ℤ) < len + 2 then .fault
  else do
    let size := ((len + 2) % 2 ^ 64).toNat
    let (target, s) ← readBytes (size < 2 ^ 63 && malloc size) (len + 2) s
    consumeNewline target len
    return (target.take len.toNat, s)

def readString (s : Bytes) : Outcome (Bytes × Bytes) := do
  let (len, s) ← readLong 36 s
  readContents malloc len s

def readArgc (s : Bytes) : Outcome (ℤ × Bytes) := readLong 42 s

def multiName : Bytes := ascii ['m', 'u', 'l', 't', 'i']

def execName : Bytes := ascii ['e', 'x', 'e', 'c']

/-- The counter of transactions after the name of a command; `none` is the `break`. -/
def countTransaction (multi : ℤ) (str : Bytes) : Option ℤ :=
  if strcasecmp str multiName then if multi ≠ 0 then none else some (multi + 1)
  else if strcasecmp str execName then if multi - 1 ≠ 0 then none else some (multi - 1)
  else some multi

/-! What is left of the file gets shorter. -/

theorem fgets_length {size : ℕ} {s line rest : Bytes} (hsize : 2 ≤ size)
    (h : fgets size s = some (line, rest)) : rest.length < s.length := by
  rw [fgets] at h
  split at h
  · cases h
  · rename_i hne
    obtain ⟨rfl, rfl⟩ := Prod.mk.inj (Option.some_inj.mp h)
    obtain ⟨c, s, rfl⟩ := List.exists_cons_of_ne_nil hne
    obtain ⟨n, hn⟩ : ∃ n, size - 1 = n + 1 := ⟨size - 2, by omega⟩
    have hpos : 0 < (lineOf ((c :: s).take (size - 1))).length := by
      rw [hn, List.take_succ_cons, lineOf]
      split <;> exact Nat.succ_pos _
    rw [List.length_drop, List.length_cons]
    omega

theorem readLong_length {first : UInt8} {s rest : Bytes} {v : ℤ}
    (h : readLong first s = .ok (v, rest)) : rest.length < s.length := by
  rw [readLong] at h
  split at h
  · cases h
  · rename_i line rest' hline
    dsimp only at h
    split at h
    · cases h
    · obtain ⟨-, -, hok⟩ := Outcome.bind_eq_ok.mp h
      obtain ⟨-, rfl⟩ := Prod.mk.inj (Outcome.ok.inj hok)
      exact fgets_length (by decide) hline

theorem readBytes_length {allocated : Bool} {length : ℤ} {s target rest : Bytes}
    (h : readBytes allocated length s = .ok (target, rest)) : rest.length ≤ s.length := by
  rw [readBytes] at h
  split at h
  · cases h
  · split at h
    · cases h
    · obtain ⟨-, rfl⟩ := Prod.mk.inj (Outcome.ok.inj h)
      rw [List.length_drop]
      exact Nat.sub_le _ _

theorem readString_length {s str rest : Bytes} (h : readString malloc s = .ok (str, rest)) :
    rest.length < s.length := by
  obtain ⟨⟨len, s'⟩, hlong, h⟩ := Outcome.bind_eq_ok.mp h
  refine lt_of_le_of_lt ?_ (readLong_length hlong)
  dsimp only at h
  rw [readContents] at h
  split at h
  · cases h
  · obtain ⟨⟨target, s''⟩, hbytes, h⟩ := Outcome.bind_eq_ok.mp h
    obtain ⟨-, -, h⟩ := Outcome.bind_eq_ok.mp h
    obtain ⟨-, rfl⟩ := Prod.mk.inj (Outcome.ok.inj h)
    exact readBytes_length hbytes

/-- The `for` loop of `process`; it fails if it does not finish. -/
def argsLoop (argc : ℤ) (i : ℕ) (multi : ℤ) (s : Bytes) : Outcome (ℤ × Bytes) :=
  if i < argc then
    match _h : readString malloc s with
    | .fault => .fault
    | .failed => .failed
    | .ok (str, rest) =>
      match if i = 0 then countTransaction multi str else some multi with
      | none => .failed
      -- `i` is an `int`
      | some multi => if i + 1 = 2 ^ 31 then .fault else argsLoop argc (i + 1) multi rest
  else .ok (multi, s)
termination_by s.length
decreasing_by exact readString_length malloc _h

theorem argsLoop_length {argc multi multi' : ℤ} {i : ℕ} {s rest : Bytes}
    (h : argsLoop malloc argc i multi s = .ok (multi', rest)) : rest.length ≤ s.length := by
  fun_induction argsLoop malloc argc i multi s with
  | case1 | case2 | case3 | case4 => cases h
  | case5 i multi s hlt str rest' hread multi'' hcount hne ih =>
    exact (ih h).trans (readString_length malloc hread).le
  | case6 => exact (Prod.mk.inj (Outcome.ok.inj h)).2 ▸ le_rfl

/-- The `while` loop of `process`; the file has `size` bytes. -/
def processLoop (size pos : ℕ) (multi : ℤ) (s : Bytes) : Option ℕ :=
  let pos := if multi = 0 then size - s.length else pos
  match _hargc : readArgc s with
  | .fault => none
  | .failed => some pos
  | .ok (argc, rest) =>
    match _hargs : argsLoop malloc argc 0 multi rest with
    | .fault => none
    | .failed => some pos
    | .ok (multi, rest') => processLoop size pos multi rest'
termination_by s.length
decreasing_by exact (argsLoop_length malloc _hargs).trans_lt (readLong_length _hargc)

/-- `process`; `none` is what is not allowed. -/
def process (file : Bytes) : Option ℕ := processLoop malloc file.length 0 0 file

end

end AofCheck

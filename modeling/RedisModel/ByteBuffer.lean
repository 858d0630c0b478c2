/-
Raw byte memory.

A heap block is a list of bytes and a pointer into it is an offset.  Every
access is bounds checked: an operation that would touch a byte outside the
block returns `none`, so a program that yields `some` never left its block.

* `slice m p n` — the `n` bytes at `p`;
* `store m p bs` — overwrite the bytes at `p`;
* `memmove m dst src n` — copy inside one block, overlapping allowed;
* `realloc junk m n` — change the size; grown bytes have arbitrary content.

`leBytes` and `leVal` are the little-endian images of the unsigned integers,
`intBytes` and `intVal` those of the signed ones.
-/
import Mathlib.Data.List.Basic
import Mathlib.Tactic.Ring
import Mathlib.Tactic.Positivity
import Mathlib.Tactic.Zify

/-- A byte string. -/
abbrev Bytes := List UInt8

namespace ByteBuffer

/-- The `n` bytes starting at offset `p`. -/
def slice (m : Bytes) (p n : ℕ) : Option Bytes :=
  if p + n ≤ m.length then some ((m.drop p).take n) else none

/-- Overwrite the bytes starting at offset `p`. -/
def store (m : Bytes) (p : ℕ) (bs : Bytes) : Option Bytes :=
  if p + bs.length ≤ m.length then
    some (m.take p ++ bs ++ m.drop (p + bs.length))
  else none

/-- `memmove`: the source is read completely before anything is written. -/
def memmove (m : Bytes) (dst src n : ℕ) : Option Bytes :=
  (slice m src n).bind (store m dst)

/-- Change the size of a block to `n`.  The allocator chooses the content of
the bytes it adds; `junk` is that choice. -/
def realloc (junk : ℕ → UInt8) (m : Bytes) (n : ℕ) : Bytes :=
  m.take n ++ (List.range' m.length (n - m.length)).map junk

/-- An allocator that clears the memory it adds. -/
def noJunk : ℕ → UInt8 := fun _ => 0

@[simp] theorem length_realloc (junk : ℕ → UInt8) (m : Bytes) (n : ℕ) :
    (realloc junk m n).length = n := by
  simp [realloc]
  omega

theorem slice_eq_some {m bs : Bytes} {p n : ℕ} (h : slice m p n = some bs) :
    p + n ≤ m.length ∧ bs.length = n := by
  unfold slice at h
  split at h
  · simp only [Option.some_inj] at h
    subst h
    simp
    omega
  · simp at h

theorem slice_append {a b c : Bytes} {p n : ℕ} (hp : p = a.length)
    (hn : n = b.length) : slice (a ++ (b ++ c)) p n = some b := by
  subst hp hn
  simp [slice]

/-- A read that reaches outside the block fails. -/
theorem slice_eq_none {m : Bytes} {p n : ℕ} (h : m.length < p + n) :
    slice m p n = none := by
  simp [slice]
  omega

theorem store_append {a b d c : Bytes} {p : ℕ} (hp : p = a.length)
    (hb : d.length = b.length) :
    store (a ++ (b ++ c)) p d = some (a ++ (d ++ c)) := by
  subst hp
  have h : a.length + d.length ≤ (a ++ (b ++ c)).length := by
    simp [hb]
  rw [store, if_pos h, hb]
  simp [List.drop_append]

/-- A write that reaches outside the block fails. -/
theorem store_eq_none {m s : Bytes} {p : ℕ} (h : m.length < p + s.length) :
    store m p s = none := by
  simp [store]
  omega

theorem length_of_store {m m' bs : Bytes} {p : ℕ}
    (h : store m p bs = some m') : m'.length = m.length := by
  unfold store at h
  split at h
  · simp only [Option.some_inj] at h
    subst h
    simp
    omega
  · simp at h

theorem store_bind_store {m x y : Bytes} {p : ℕ} :
    (store m p x).bind (store · (p + x.length) y) = store m p (x ++ y) := by
  by_cases h : p + (x ++ y).length ≤ m.length
  · rw [List.length_append] at h
    have hx : store m p x
        = some ((m.take p ++ x) ++ ((m.drop (p + x.length)).take y.length ++
          m.drop (p + x.length + y.length))) := by
      rw [store, if_pos (by omega), ← List.drop_drop (i := y.length), List.take_append_drop]
    rw [hx, Option.bind_some, store_append (by simp; omega) (by simp; omega), store,
      if_pos (by simpa using h)]
    simp [Nat.add_assoc]
  · rw [store_eq_none (s := x ++ y) (by omega)]
    rcases hx : store m p x with _ | m'
    · rfl
    · have := length_of_store hx
      rw [List.length_append] at h
      exact store_eq_none (m := m') (by omega)

/-- Moving a range and then overwriting its front leaves the rest of the moved
range in place: the front of the source does not matter. -/
theorem memmove_store {m f : Bytes} {dst src n u v : ℕ} (hu : src + f.length = u)
    (hv : f.length + v = n) (hsrc : src + n ≤ m.length) (hdst : dst + n ≤ m.length) :
    (memmove m dst src n).bind (store · dst f)
      = some (m.take dst ++ (f ++ ((m.drop u).take v ++ m.drop (dst + n)))) := by
  set a := (m.drop src).take f.length with ha
  set b := (m.drop u).take v with hb
  have hab : (m.drop src).take n = a ++ b := by
    rw [← hv, List.take_add, List.drop_drop, hu]
  have halen : a.length = f.length := by simp [ha]; omega
  have hblen : b.length = v := by simp [hb]; omega
  have hmove : memmove m dst src n
      = some (m.take dst ++ (a ++ (b ++ m.drop (dst + n)))) := by
    rw [memmove, slice, if_pos hsrc, Option.bind_some, hab, store,
      if_pos (by simp [halen, hblen]; omega)]
    simp [halen, hblen, hv]
  rw [hmove, Option.bind_some, store_append (by simp; omega) halen.symm]

theorem realloc_grow (junk : ℕ → UInt8) (m : Bytes) (k : ℕ) :
    ∃ g : Bytes, g.length = k ∧ realloc junk m (m.length + k) = m ++ g := by
  refine ⟨(List.range' m.length k).map junk, by simp, ?_⟩
  rw [realloc, List.take_of_length_le (by omega), Nat.add_sub_cancel_left]

theorem realloc_shrink (junk : ℕ → UInt8) {a b : Bytes} {n : ℕ}
    (h : n = a.length) : realloc junk (a ++ b) n = a := by
  subst h
  simp [realloc]

/-! ### Little-endian integers -/

/-- The `k` low bytes of `n`, least significant first. -/
def leBytes : ℕ → ℕ → Bytes
  | 0, _ => []
  | k + 1, n => UInt8.ofNat (n % 256) :: leBytes k (n / 256)

/-- The unsigned value of a little-endian byte string. -/
def leVal : Bytes → ℕ
  | [] => 0
  | b :: bs => b.toNat + 256 * leVal bs

@[simp] theorem length_leBytes (k n : ℕ) : (leBytes k n).length = k := by
  induction k generalizing n with
  | zero => rfl
  | succ k ih => simp [leBytes, ih]

theorem leVal_leBytes (k n : ℕ) : leVal (leBytes k n) = n % 256 ^ k := by
  induction k generalizing n with
  | zero => simp [leBytes, leVal, Nat.mod_one]
  | succ k ih =>
    have hb : (UInt8.ofNat (n % 256)).toNat = n % 256 := by
      simp
    rw [leBytes, leVal, ih, hb, Nat.pow_succ, Nat.mul_comm (256 ^ k), Nat.mod_mul]

theorem leVal_leBytes_of_lt {k n : ℕ} (h : n < 256 ^ k) :
    leVal (leBytes k n) = n := by
  rw [leVal_leBytes, Nat.mod_eq_of_lt h]

theorem leVal_lt (bs : Bytes) : leVal bs < 256 ^ bs.length := by
  induction bs with
  | nil => simp [leVal]
  | cons b bs ih =>
    have hb : b.toNat < 256 := b.toNat_lt
    rw [leVal, List.length_cons, Nat.pow_succ]
    omega

theorem leBytes_leVal (bs : Bytes) : leBytes bs.length (leVal bs) = bs := by
  induction bs with
  | nil => rfl
  | cons b bs ih =>
    have hb : b.toNat < 256 := b.toNat_lt
    have h1 : (b.toNat + 256 * leVal bs) % 256 = b.toNat := by omega
    have h2 : (b.toNat + 256 * leVal bs) / 256 = leVal bs := by omega
    rw [leVal, List.length_cons, leBytes, h1, h2, ih]
    simp

theorem leBytes_mod (k n : ℕ) : leBytes k (n % 256 ^ k) = leBytes k n := by
  have h := leBytes_leVal (leBytes k n)
  rwa [length_leBytes, leVal_leBytes] at h

/-! ### Signed integers -/

/-- The `k` bytes of a signed integer, truncated to `8 * k` bits. -/
def intBytes (k : ℕ) (value : ℤ) : Bytes := leBytes k (value % 256 ^ k).toNat

/-- The signed value of a little-endian byte string. -/
def intVal (bs : Bytes) : ℤ := (leVal bs : ℤ).bmod (256 ^ bs.length)

@[simp] theorem length_intBytes (k : ℕ) (value : ℤ) : (intBytes k value).length = k := by
  simp [intBytes]

theorem intVal_intBytes {k : ℕ} {value : ℤ} (hmin : -((256 ^ k : ℕ) : ℤ) ≤ value * 2)
    (hmax : value * 2 < ((256 ^ k : ℕ) : ℤ)) : intVal (intBytes k value) = value := by
  have hpos : (0 : ℤ) < 256 ^ k := by positivity
  have hnn : 0 ≤ value % 256 ^ k := Int.emod_nonneg _ (by omega)
  have hlt : (value % 256 ^ k).toNat < 256 ^ k := by
    have := Int.emod_lt_of_pos value hpos
    zify
    omega
  rw [intVal, length_intBytes, intBytes, leVal_leBytes_of_lt hlt, Int.toNat_of_nonneg hnn]
  have hcast : (256 : ℤ) ^ k = ((256 ^ k : ℕ) : ℤ) := by push_cast; rfl
  rw [hcast, Int.emod_bmod, Int.bmod_eq_of_le_mul_two hmin hmax]

end ByteBuffer

/-
Dictionaries.

A dictionary has two hash tables.  While it is rehashed, the buckets of the first one move to
the second one, one after the other.  A bucket is the chain of its entries; new entries are put
at its head.  A function returns `none` when the C code would read or write outside of a table
or fail an `assert`.

* `dictExpand`, `dictRehash` — the tables;
* `dictAddRaw`, `dictGenericDelete`, `dictFind` — the operations on keys;
* `Shaped` — what holds of every dictionary.
-/
import Mathlib.Algebra.Group.Nat.Defs
import Mathlib.Data.List.Basic
import Mathlib.Data.List.Nodup
import Mathlib.Data.Nat.Bitwise

/-- `dictEntry`.  `id` tells the entries apart: it is the number of entries allocated before. -/
structure DictEntry (K V : Type) where
  id : ℕ
  key : K
  val : V

/-- `dictht`.  There are no buckets when `table` is `NULL`. -/
structure Dictht (K V : Type) where
  table : List (List (DictEntry K V))
  size : ℕ
  sizemask : ℕ
  used : ℕ

/-- `dict`, with the number of entries that were allocated. -/
structure Dict (K V : Type) where
  ht0 : Dictht K V
  ht1 : Dictht K V
  rehashidx : ℤ
  iterators : ℤ
  allocated : ℕ

namespace Dictht

variable {K V : Type}

/-- The entries of a table. -/
def entries (h : Dictht K V) : List (DictEntry K V) := h.table.flatten

/-- The size of a table is 0 or a power of two, and the other fields agree with it and with
the buckets. -/
structure Shaped (h : Dictht K V) : Prop where
  length : h.table.length = h.size
  mask : h.sizemask = h.size - 1
  used : h.used = h.entries.length
  power : h.size = 0 ∨ ∃ k, k < 64 ∧ h.size = 2 ^ k

end Dictht

namespace Dict

variable {K V : Type}

/-- What an unsigned number becomes when it is converted to an `int`. -/
def toInt (n : ℕ) : ℤ := Int.bmod n (2 ^ 32)

/-- `DICT_HT_INITIAL_SIZE`. -/
def initialSize : ℕ := 4

/-- `dict_force_resize_ratio`. -/
def forceResizeRatio : ℕ := 5

def dictIsRehashing (d : Dict K V) : Bool := d.rehashidx ≠ -1

def dictSize (d : Dict K V) : ℕ := (d.ht0.used + d.ht1.used) % 2 ^ 64

def dictReset : Dictht K V := ⟨[], 0, 0, 0⟩

def dictCreate : Dict K V := ⟨dictReset, dictReset, -1, 0, 0⟩

/-- `ht[table]`. -/
def ht (d : Dict K V) (table : Bool) : Dictht K V := if table then d.ht1 else d.ht0

def setHt (d : Dict K V) (table : Bool) (h : Dictht K V) : Dict K V :=
  if table then { d with ht1 := h } else { d with ht0 := h }

/-! ### The tables -/

/-- The loop of `_dictNextPower`. -/
def nextPowerLoop (size : ℕ) : ℕ → ℕ → ℕ
  | 0, i => i
  | fuel + 1, i => if i ≥ size then i else nextPowerLoop size fuel (i * 2)

def dictNextPower (size : ℕ) : ℕ :=
  if size ≥ 2 ^ 63 - 1 then 2 ^ 63 - 1 else nextPowerLoop size 62 initialSize

/-- The table that `dictExpand` makes: `zcalloc` is given the number of bytes modulo `2 ^ 64`. -/
def emptyTable (realsize : ℕ) : Dictht K V :=
  ⟨List.replicate (realsize * 8 % 2 ^ 64 / 8) [], realsize, realsize - 1, 0⟩

/-- `dictExpand`; `false` is `DICT_ERR`. -/
def dictExpand (d : Dict K V) (size : ℕ) : Dict K V × Bool :=
  if d.dictIsRehashing ∨ d.ht0.used > size then (d, false)
  else if d.ht0.table.isEmpty then ({ d with ht0 := emptyTable (dictNextPower size) }, true)
  else ({ d with ht1 := emptyTable (dictNextPower size), rehashidx := 0 }, true)

/-- `_dictExpandIfNeeded`; `canResize` is `dict_can_resize`. -/
def dictExpandIfNeeded (d : Dict K V) (canResize : Bool) : Dict K V × Bool :=
  if d.dictIsRehashing then (d, true)
  else if d.ht0.size = 0 then dictExpand d initialSize
  else if d.ht0.used ≥ d.ht0.size ∧
      (canResize ∨ d.ht0.used / d.ht0.size > forceResizeRatio) then
    dictExpand d (d.ht0.used * 2)
  else (d, true)

/-- The first bucket that is not empty, and its index. -/
def firstBucket : List (List (DictEntry K V)) → ℕ → Option (ℕ × List (DictEntry K V))
  | [], _ => none
  | [] :: table, i => firstBucket table (i + 1)
  | (e :: es) :: _, i => some (i, e :: es)

section
variable (hash : K → BitVec 32)

/-- The index of the bucket of a key. -/
def index (h : Dictht K V) (key : K) : ℕ := (hash key).toNat &&& h.sizemask

/-- An entry moves from the first to the second table. -/
def moveEntry (d : Dict K V) (e : DictEntry K V) : Option (Dict K V) := do
  let chain ← d.ht1.table[index hash d.ht1 e.key]?
  some { d with
    ht0 := { d.ht0 with used := d.ht0.used - 1 }
    ht1 := { d.ht1 with
      table := d.ht1.table.set (index hash d.ht1 e.key) (e :: chain)
      used := d.ht1.used + 1 } }

/-- The loop of `dictRehash`; `true` is 1. -/
def rehashLoop : ℕ → Dict K V → Option (Dict K V × Bool)
  | 0, d => some (d, true)
  | n + 1, d =>
    if d.ht0.used = 0 then
      some ({ d with ht0 := d.ht1, ht1 := dictReset, rehashidx := -1 }, false)
    else if d.ht0.size > (d.rehashidx % 2 ^ 32).toNat then do
      let (i, chain) ← firstBucket (d.ht0.table.drop d.rehashidx.toNat) d.rehashidx.toNat
      let d ← chain.foldlM (moveEntry hash) d
      rehashLoop n { d with
        ht0 := { d.ht0 with table := d.ht0.table.set i [] }
        rehashidx := toInt (i + 1) }
    else none

def dictRehash (d : Dict K V) (n : ℕ) : Option (Dict K V × Bool) :=
  if d.dictIsRehashing then rehashLoop hash n d else some (d, false)

/-- `_dictRehashStep`, if the dictionary is rehashed. -/
def dictRehashStep (d : Dict K V) : Option (Dict K V) :=
  if d.dictIsRehashing ∧ d.iterators = 0 then do
    let (d, _) ← dictRehash hash d 1
    some d
  else some d

/-! ### The operations on keys -/

variable [DecidableEq K]

/-- `_dictKeyIndex`: an `int`, with `-1` for a key that exists. -/
def dictKeyIndex (d : Dict K V) (key : K) (canResize : Bool) : Option (Dict K V × ℤ) := do
  let (d, ok) := dictExpandIfNeeded d canResize
  if ¬ ok then some (d, -1)
  else do
    let chain ← d.ht0.table[index hash d.ht0 key]?
    if chain.any fun he => he.key = key then some (d, -1)
    else if ¬ d.dictIsRehashing then some (d, toInt (index hash d.ht0 key))
    else do
      let chain ← d.ht1.table[index hash d.ht1 key]?
      if chain.any fun he => he.key = key then some (d, -1)
      else some (d, toInt (index hash d.ht1 key))

/-- `dictAddRaw`, with the value that `dictAdd` sets; `false` is `NULL`. -/
def dictAddRaw (d : Dict K V) (key : K) (val : V) (canResize : Bool) :
    Option (Dict K V × Bool) := do
  let d ← dictRehashStep hash d
  let (d, i) ← dictKeyIndex hash d key canResize
  if i = -1 then some (d, false)
  else if i < 0 then none
  else do
    let h := d.ht d.dictIsRehashing
    let chain ← h.table[i.toNat]?
    some ({ d.setHt d.dictIsRehashing { h with
        table := h.table.set i.toNat (⟨d.allocated, key, val⟩ :: chain)
        used := h.used + 1 } with
      allocated := d.allocated + 1 }, true)

/-- One round of the loop of `dictGenericDelete`: the dictionary if the key is in the table. -/
def deleteFrom (d : Dict K V) (table : Bool) (key : K) : Option (Option (Dict K V)) := do
  let h := d.ht table
  let chain ← h.table[index hash h key]?
  some (if chain.any fun he => he.key = key then
    some (d.setHt table { h with
      table := h.table.set (index hash h key) (chain.eraseP fun he => he.key = key)
      used := h.used - 1 })
  else none)

/-- `dictGenericDelete`; `false` is `DICT_ERR`. -/
def dictGenericDelete (d : Dict K V) (key : K) : Option (Dict K V × Bool) :=
  if d.ht0.size = 0 then some (d, false)
  else do
    let d ← dictRehashStep hash d
    match ← deleteFrom hash d false key with
    | some d' => some (d', true)
    | none =>
      if ¬ d.dictIsRehashing then some (d, false)
      else do
        match ← deleteFrom hash d true key with
        | some d' => some (d', true)
        | none => some (d, false)

def dictFind (d : Dict K V) (key : K) : Option (Dict K V × Option (DictEntry K V)) :=
  if d.ht0.size = 0 then some (d, none)
  else do
    let d ← dictRehashStep hash d
    let chain ← d.ht0.table[index hash d.ht0 key]?
    match chain.find? fun he => he.key = key with
    | some he => some (d, some he)
    | none =>
      if ¬ d.dictIsRehashing then some (d, none)
      else do
        let chain ← d.ht1.table[index hash d.ht1 key]?
        some (d, chain.find? fun he => he.key = key)

end

/-! ### What holds of every dictionary -/

/-- The entries of a dictionary. -/
def entries (d : Dict K V) : List (DictEntry K V) := d.ht0.entries ++ d.ht1.entries

/-- Both tables are in use while the dictionary is rehashed, and only the first one otherwise. -/
structure Shaped (d : Dict K V) : Prop where
  ht0 : d.ht0.Shaped
  ht1 : d.ht1.Shaped
  rehashing : d.dictIsRehashing = true → 0 < d.ht0.size ∧ 0 < d.ht1.size
  settled : d.dictIsRehashing = false → d.ht1.entries = []

/-- The bucket at an index. -/
def bucket (h : Dictht K V) (i : ℕ) : List (DictEntry K V) := (h.table[i]?).getD []

theorem getElem?_bucket {h : Dictht K V} (hs : h.Shaped) {i : ℕ} (hi : i < h.size) :
    h.table[i]? = some (bucket h i) := by
  rw [← hs.length] at hi
  rw [bucket, List.getElem?_eq_getElem hi]
  rfl

end Dict

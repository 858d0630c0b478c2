/-
The eviction pool: `dictGetRandomKeys`, `evictionPoolPopulate` and the search loop of
`freeMemoryIfNeeded` for the LRU policies.

The pool is an array whose entries move with `memmove`.  A round of the search samples the
dictionary as it is then: between two rounds `dictFind` may have moved entries to the other table.
-/
import RedisModel.Dict

open Dict

namespace EvictionPool

/-- `REDIS_EVICTION_POOL_SIZE`. -/
def poolSize : ℕ := 16

/-- `EVICTION_SAMPLES_ARRAY_SIZE`. -/
def samplesArraySize : ℕ := 16

/-- `evictionPoolEntry`; the key may be `NULL`. -/
structure PoolEntry (K : Type) where
  key : Option K
  idle : ℕ
  deriving DecidableEq

inductive Stop where
  /-- `assert(dictIsRehashing(d) != 0)`. -/
  | assertion
  /-- A table or the array of samples is used out of bounds. -/
  | bounds
  /-- The loop has not ended after the given number of rounds. -/
  | running
  deriving DecidableEq

/-! ### Sampling -/

section
variable {K V : Type}

/-- `while(size--)` from the bucket `i`; it ends when there are `count` entries. -/
def sampleTable (h : Dictht K V) (count : ℕ) :
    ℕ → ℕ → List (DictEntry K V) → Except Stop (List (DictEntry K V))
  | 0, _, des => .ok des
  | size + 1, i, des =>
    match h.table[i]? with
    | none => .error .bounds
    | some chain =>
      let des := (des ++ chain).take count
      if des.length = count then .ok des
      else sampleTable h count size ((i + 1) &&& h.sizemask) des

/-- One table: `size` is an `int`, and so many rounds are made. -/
def sampleFrom (h : Dictht K V) (count random : ℕ) (des : List (DictEntry K V)) :
    Except Stop (List (DictEntry K V)) :=
  sampleTable h count (h.size % 2 ^ 32) (random &&& h.sizemask) des

/-- `while(stored < count)`, with the results of `random()`. -/
def sampleTables (d : Dict K V) (count : ℕ) :
    ℕ → (ℕ → ℕ) → List (DictEntry K V) → Except Stop (List (DictEntry K V))
  | 0, _, _ => .error .running
  | fuel + 1, random, des => do
    let des ← sampleFrom d.ht0 count (random 0) des
    if des.length = count then .ok des
    else if d.dictIsRehashing = false then .error .assertion
    else do
      let des ← sampleFrom d.ht1 count (random 1) des
      if des.length = count then .ok des
      else sampleTables d count fuel (fun n => random (n + 2)) des

/-- `if (dictSize(d) < count) count = dictSize(d)`, in which `count` is an `int` that is compared as
an `unsigned long`. -/
def sampleCount (d : Dict K V) (count : ℤ) : ℤ :=
  if dictSize d < (count % 2 ^ 64).toNat then toInt (dictSize d) else count

def dictGetRandomKeys (d : Dict K V) (count : ℤ) (fuel : ℕ) (random : ℕ → ℕ) :
    Except Stop (List (DictEntry K V)) :=
  if sampleCount d count ≤ 0 then .ok []
  else sampleTables d (sampleCount d count).toNat fuel random []

end

/-! ### The pool -/

section
variable {K : Type}

def emptyEntry : PoolEntry K := ⟨none, 0⟩

def evictionPoolAlloc : List (PoolEntry K) := List.replicate poolSize emptyEntry

/-- `memmove` of `n` entries of the pool. -/
def memmove (pool : List (PoolEntry K)) (dst src n : ℕ) : List (PoolEntry K) :=
  pool.take dst ++ (pool.drop src).take n ++ pool.drop (dst + n)

/-- The first empty entry, or the first one whose idle time is not smaller. -/
def findPlace (idle : ℕ) : List (PoolEntry K) → ℕ
  | [] => 0
  | e :: pool => if e.key.isSome ∧ e.idle < idle then findPlace idle pool + 1 else 0

def keyAt (pool : List (PoolEntry K)) (k : ℕ) : Option K := pool[k]?.bind PoolEntry.key

/-- One round of `evictionPoolPopulate`. -/
def insertEntry (pool : List (PoolEntry K)) (key : K) (idle : ℕ) : List (PoolEntry K) :=
  let k := findPlace idle pool
  if k = 0 ∧ (keyAt pool (poolSize - 1)).isSome then pool
  else if k < poolSize ∧ keyAt pool k = none then pool.set k ⟨some key, idle⟩
  else if keyAt pool (poolSize - 1) = none then
    (memmove pool (k + 1) k (poolSize - k - 1)).set k ⟨some key, idle⟩
  else (memmove pool 0 1 (k - 1)).set (k - 1) ⟨some key, idle⟩

/-- The loop of `evictionPoolPopulate` over the samples. -/
def insertAll (pool : List (PoolEntry K)) (samples : List (K × ℕ)) : List (PoolEntry K) :=
  samples.foldl (fun pool sample => insertEntry pool sample.1 sample.2) pool

/-- The entry `k` is removed. -/
def removeEntry (pool : List (PoolEntry K)) (k : ℕ) : List (PoolEntry K) :=
  (memmove pool k (k + 1) (poolSize - k - 1)).set (poolSize - 1) emptyEntry

/-- "Go backward from best to worst element to evict", below `k`. -/
def pickLoop (present : K → Bool) :
    ℕ → List (PoolEntry K) → List (PoolEntry K) × Option K
  | 0, pool => (pool, none)
  | k + 1, pool =>
    match keyAt pool k with
    | none => pickLoop present k pool
    | some key =>
      if present key then (removeEntry pool k, some key)
      else pickLoop present k (removeEntry pool k)

def pick (present : K → Bool) (pool : List (PoolEntry K)) : List (PoolEntry K) × Option K :=
  pickLoop present poolSize pool

end

/-! ### The search -/

/-- What a round meets: the sampled dictionary, the random numbers, and the idle times. -/
structure Round (K V : Type) where
  dict : Dict K V
  random : ℕ → ℕ
  idle : K → ℕ

section
variable {K V : Type} [DecidableEq K]

/-- Whether `dictFind` finds the key. -/
def Round.present (r : Round K V) (key : K) : Bool := r.dict.entries.any fun e => e.key = key

/-- `evictionPoolPopulate`; the array of samples is on the stack if it is large enough for
`server.maxmemory_samples`. -/
def evictionPoolPopulate (r : Round K V) (maxmemorySamples : BitVec 32) (fuel : ℕ)
    (pool : List (PoolEntry K)) : Except Stop (List (PoolEntry K)) := do
  let samples ← dictGetRandomKeys r.dict maxmemorySamples.toInt fuel r.random
  if (samples.length : ℤ) ≤ max (samplesArraySize : ℤ) maxmemorySamples.toInt then
    .ok (insertAll pool (samples.map fun e => (e.key, r.idle e.key)))
  else .error .bounds

/-- `while(bestkey == NULL)`, for a limited number of rounds. -/
def search (rounds : ℕ → Round K V) (maxmemorySamples : BitVec 32) :
    ℕ → List (PoolEntry K) → Except Stop (List (PoolEntry K) × K)
  | 0, _ => .error .running
  | fuel + 1, pool => do
    let pool ← evictionPoolPopulate (rounds 0) maxmemorySamples (fuel + 1) pool
    match pick (rounds 0).present pool with
    | (pool, some key) => .ok (pool, key)
    | (pool, none) => search (fun n => rounds (n + 1)) maxmemorySamples fuel pool

end

/-- The rounds of one search.  Only `dictFind` is called between them: the tables change, and the
keys do not. -/
structure SearchInput (K V : Type) [DecidableEq K] where
  rounds : ℕ → Round K V
  shaped : ∀ n, (rounds n).dict.Shaped
  same : ∀ n key, (rounds n).present key = (rounds 0).present key

/-- What happens to the pool of a database. -/
inductive PoolEvent (K V : Type) [DecidableEq K] where
  /-- `evictionPoolPopulate` with any samples and idle times. -/
  | populate (samples : List (K × ℕ))
  /-- Entries are removed until there is one whose key is present. -/
  | pick (present : K → Bool)
  /-- The loop of `freeMemoryIfNeeded`, if it ends after so many rounds. -/
  | search (input : SearchInput K V) (maxmemorySamples : BitVec 32) (fuel : ℕ)

def poolStep {K V : Type} [DecidableEq K] (pool : List (PoolEntry K)) :
    PoolEvent K V → Option (List (PoolEntry K))
  | .populate samples => some (insertAll pool samples)
  | .pick present => some (pick present pool).1
  | .search input maxmemorySamples fuel =>
    (search input.rounds maxmemorySamples fuel pool).toOption.map Prod.fst

/-! ### The setting -/

/-- `CONFIG SET maxmemory-samples`, which stores a `long long` in an `int`. -/
def configSetMaxmemorySamples (ll : ℤ) : Option (BitVec 32) :=
  if ll ≤ 0 then none else some (BitVec.ofInt 32 ll)

/-- The line of the configuration file, with the result of `atoi`. -/
def loadMaxmemorySamples (value : BitVec 32) : Option (BitVec 32) :=
  if value.toInt ≤ 0 then none else some value

end EvictionPool

/-
Commands that scripts call (`scripting.c`).

* `Robj`, `Heap` — string objects with their counts of references;
* `ObjectCache` — `cached_objects` and `cached_objects_len`;
* `Activity`, `Command` — what the rest of the server and a command do with objects;
* `luaRedisGenericCommand` — a call of `redis.call` or `redis.pcall`.
-/
import RedisModel.DynamicStringSpec

open ByteBuffer StringNumber
open DynamicString (Sdshdr toInt toSize sdslen)

namespace ScriptCommands

/-! ### Objects -/

/-- The encodings of strings; `other` stands for all objects that are not strings. -/
inductive Encoding where
  | raw
  | embstr
  | int
  | other
  deriving DecidableEq

/-- `robj`; `ptr` is used for the encodings `raw` and `embstr`. -/
structure Robj where
  refcount : ℕ
  encoding : Encoding
  ptr : Sdshdr

/-- `ptr` is a string. -/
def Robj.isSds (o : Robj) : Bool := o.encoding = .raw || o.encoding = .embstr

/-- The objects, with `none` for those that were freed, and the numbers of references that are held
outside of the calls from scripts. -/
structure Heap where
  objects : List (Option Robj)
  held : ℕ → ℕ

/-- What is not allowed: an index of `argv` that was not allocated, an index of `cached_objects`
that is too large, a write behind a buffer or to an object that somebody else references, and the
use of an object that was freed or is not a string. -/
inductive Fault where
  | argvIndex
  | cacheIndex
  | buffer
  | shared
  | object
  deriving DecidableEq

def Heap.get (h : Heap) (r : ℕ) : Option Robj := h.objects[r]?.join

def Heap.put (h : Heap) (r : ℕ) (o : Option Robj) : Heap := { h with objects := h.objects.set r o }

def decrRefCount (h : Heap) (r : ℕ) : Except Fault Heap :=
  match h.get r with
  | none => .error .object
  | some o =>
    if o.refcount = 0 then .error .object
    else if o.refcount = 1 then .ok (h.put r none)
    else .ok (h.put r (some { o with refcount := o.refcount - 1 }))

/-- `createStringObject`, which returns a new object. -/
def createStringObject (h : Heap) (s : Bytes) : Heap × ℕ :=
  ({ h with objects := h.objects ++
      [some ⟨1, if s.length ≤ 39 then .embstr else .raw, ⟨toInt s.length, 0, s ++ [0]⟩⟩] },
    h.objects.length)

/-! ### The cache -/

/-- `LUA_CMD_OBJCACHE_SIZE`. -/
def objcacheSize : ℕ := 32

/-- `LUA_CMD_OBJCACHE_MAX_LEN`. -/
def objcacheMaxLen : ℕ := 64

/-- `cached_objects` and `cached_objects_len`. -/
structure ObjectCache where
  entries : List (Option ℕ × ℤ)
  size : entries.length = objcacheSize

namespace ObjectCache

def empty : ObjectCache := ⟨List.replicate objcacheSize (none, 0), List.length_replicate⟩

/-- The cached object and its length; `none` is an index that is too large. -/
def get (c : ObjectCache) (j : ℕ) : Option (Option ℕ × ℤ) := c.entries[j]?

def put (c : ObjectCache) (j : ℕ) (e : Option ℕ × ℤ) : ObjectCache :=
  ⟨c.entries.set j e, List.length_set.trans c.size⟩

/-- How often an object is in the cache. -/
def count (c : ObjectCache) (r : ℕ) : ℕ := c.entries.countP fun e => e.1 = some r

end ObjectCache

/-! ### Commands -/

/-- A header: `len` is an `int`, and if it is not negative, `len + free + 1` bytes are allocated. -/
structure HeaderOk (s : Sdshdr) : Prop where
  range : -2 ^ 31 ≤ s.len ∧ s.len < 2 ^ 31
  room : 0 ≤ s.len → 0 ≤ s.free ∧ s.len + s.free < 2 ^ 31 ∧ s.len + s.free + 1 ≤ s.buf.length

/-- An object that is referenced `n` times. -/
def Counts : Option Robj → ℕ → Prop
  | none, n => n = 0
  | some o, n => o.refcount = n ∧ 0 < n ∧ (o.isSds = true → HeaderOk o.ptr)

/-- Every object is referenced as often as its count says: by the rest of the server and by the
references `mine`. -/
def Accounted (h : Heap) (mine : ℕ → ℕ) : Prop := ∀ r, Counts (h.get r) (h.held r + mine r)

/-- What the rest of the server does: it counts its references, and it does not change an object of
which it has none. -/
structure Activity where
  run : Heap → Heap
  accounted : ∀ h mine, Accounted h mine → Accounted (run h) mine
  kept : ∀ h mine r, Accounted h mine → h.held r = 0 → (run h).get r = h.get r

/-- What the function of a command does with the objects and the vector of its arguments, which it
may replace by a new one. -/
structure Command where
  run : Heap → List ℕ → Heap × List ℕ
  replaced : Heap → List ℕ → Bool
  accounted : ∀ h argv (mine : ℕ → ℕ), Accounted h (fun r => argv.count r + mine r) →
    Accounted (run h argv).1 fun r => (run h argv).2.count r + mine r
  kept : ∀ h argv (mine : ℕ → ℕ) r, Accounted h (fun r => argv.count r + mine r) → h.held r = 0 →
    r ∉ argv → (run h argv).1.get r = h.get r

structure RedisCommand where
  arity : ℤ
  noscript : Bool
  write : Bool
  denyoom : Bool
  random : Bool
  proc : Command

/-! ### A call -/

/-- The static variables of `luaRedisGenericCommand`, the flags of a script, and the objects; `argv`
is the number of elements that the vector was allocated with. -/
structure ScriptState where
  heap : Heap
  argv : Option ℕ
  argvSize : ℤ
  cache : ObjectCache
  luaRandomDirty : Bool
  luaWriteDirty : Bool

/-- A call: the arguments (`none` is not a string), the command of that name, and what the server's
settings and its state say. -/
structure Call where
  args : List (Option Bytes)
  cmd : Option RedisCommand
  readOnlySlave : Bool
  stopWritesOnBgsaveErr : Bool
  maxmemory : Bool
  /-- `freeMemoryIfNeeded` does this, and whether it returns `REDIS_ERR`. -/
  freeMemoryIfNeeded : Activity
  outOfMemory : Bool

/-- The objects, the cache and the part of the vector that is filled. -/
structure Building where
  heap : Heap
  cache : ObjectCache
  argv : List ℕ

/-- `memcpy` into a cached object, of which there are also the references `others`. -/
def overwrite (h : Heap) (others : ℕ) (r : ℕ) (s : Bytes) : Except Fault Heap :=
  match h.get r with
  | none => .error .object
  | some o =>
    if o.isSds = false then .error .object
    else if others ≠ 0 then .error .shared
    else
      match store o.ptr.buf 0 (s ++ [0]) with
      | none => .error .buffer
      | some buf => .ok (h.put r (some { o with
          ptr := ⟨toInt s.length, toInt (o.ptr.free + (o.ptr.len - s.length)), buf⟩ }))

/-- The body of the loop that fills the vector, which has room for `size` elements. -/
def buildArg (size : ℕ) (b : Building) (s : Bytes) : Except Fault Building :=
  match b.cache.get b.argv.length with
  | none => .error .cacheIndex
  | some (cached, len) =>
    if size ≤ b.argv.length then .error .argvIndex
    else
      match cached.filter fun _ => decide (s.length ≤ toSize len) with
      | some r => do
        let cache := b.cache.put b.argv.length (none, len)
        let heap ← overwrite b.heap (b.heap.held r + b.argv.count r + cache.count r) r s
        return ⟨heap, cache, b.argv ++ [r]⟩
      | none =>
        let (heap, r) := createStringObject b.heap s
        return ⟨heap, b.cache, b.argv ++ [r]⟩

/-- The loop, which ends at the first argument that is not a string. -/
def buildArgs (size : ℕ) : Building → List (Option Bytes) → Except Fault Building
  | b, [] => .ok b
  | b, none :: _ => .ok b
  | b, some s :: args => do
    let b ← buildArg size b s
    buildArgs size b args

/-- The command is not refused before `freeMemoryIfNeeded`. -/
def allowed (s : ScriptState) (c : Call) (cmd : RedisCommand) : Bool :=
  !((cmd.arity > 0 && cmd.arity ≠ c.args.length) || (c.args.length : ℤ) < -cmd.arity) &&
    !cmd.noscript &&
    !(cmd.write && (s.luaRandomDirty || c.readOnlySlave || c.stopWritesOnBgsaveErr))

/-- `freeMemoryIfNeeded` is called. -/
def needsMemory (s : ScriptState) (c : Call) (cmd : RedisCommand) : Bool :=
  c.maxmemory && !s.luaWriteDirty && cmd.denyoom

/-- The object that is in an entry of the cache is released. -/
def releaseCached (h : Heap) : Option ℕ → Except Fault Heap
  | none => .ok h
  | some old => decrRefCount h old

/-- The cleanup of the argument with the index `j`. -/
def cleanupArg (h : Heap) (cache : ObjectCache) (j r : ℕ) : Except Fault (Heap × ObjectCache) :=
  match h.get r with
  | none => .error .object
  | some o =>
    if j < objcacheSize ∧ o.refcount = 1 ∧ o.isSds = true ∧ sdslen o.ptr ≤ objcacheMaxLen then do
      let h ← releaseCached h ((cache.get j).bind Prod.fst)
      return (h, cache.put j (some r, toInt (o.ptr.free + o.ptr.len)))
    else do
      let h ← decrRefCount h r
      return (h, cache)

def cleanup (h : Heap) (cache : ObjectCache) : ℕ → List ℕ → Except Fault (Heap × ObjectCache)
  | _, [] => .ok (h, cache)
  | j, r :: argv => do
    let (h, cache) ← cleanupArg h cache j r
    cleanup h cache (j + 1) argv

/-- The vector with its size, after room was made for the arguments. -/
def allocateArgv (s : ScriptState) (argc : ℕ) : ℕ × ℤ :=
  match s.argv with
  | none => (argc, s.argvSize)
  | some size => if s.argvSize < argc then (argc, argc) else (size, s.argvSize)

/-- The strings of the arguments. -/
def strings (h : Heap) (argv : List ℕ) : List (Option Sdshdr) :=
  argv.map fun r => (h.get r).bind fun o => if o.isSds then some o.ptr else none

/-- The command is executed, with the strings that are returned. -/
def execute (s : ScriptState) (h : Heap) (argv : List ℕ) (cmd : RedisCommand) :
    ScriptState × List ℕ × Option (List (Option Sdshdr)) :=
  let (heap, newArgv) := cmd.proc.run h argv
  ({ s with
      heap := heap
      argv := if cmd.proc.replaced h argv then none else s.argv
      luaRandomDirty := s.luaRandomDirty || cmd.random
      luaWriteDirty := s.luaWriteDirty || cmd.write }, newArgv, some (strings h argv))

/-- The checks and the execution of a command; the vector afterwards, and the strings of the
arguments with which the command was executed. -/
def runCommand (s : ScriptState) (c : Call) (argv : List ℕ) :
    ScriptState × List ℕ × Option (List (Option Sdshdr)) :=
  match c.cmd with
  | none => (s, argv, none)
  | some cmd =>
    if allowed s c cmd then
      if needsMemory s c cmd then
        let heap := c.freeMemoryIfNeeded.run s.heap
        if c.outOfMemory then ({ s with heap := heap }, argv, none) else execute s heap argv cmd
      else execute s s.heap argv cmd
    else (s, argv, none)

/-- The state after the call, and the strings with which a command was executed. -/
def luaRedisGenericCommand (s : ScriptState) (c : Call) :
    Except Fault (ScriptState × Option (List (Option Sdshdr))) :=
  if c.args = [] then .ok (s, none)
  else do
    let (size, argvSize) := allocateArgv s c.args.length
    let b ← buildArgs size ⟨s.heap, s.cache, []⟩ c.args
    let s := { s with argv := some size, argvSize := argvSize, cache := b.cache }
    if b.argv.length ≠ c.args.length then
      let heap ← b.argv.reverse.foldlM decrRefCount b.heap
      return ({ s with heap := heap }, none)
    else
      let (s, argv, executed) := runCommand { s with heap := b.heap } c b.argv
      let (heap, cache) ← cleanup s.heap s.cache 0 argv
      return ({ s with heap := heap, cache := cache }, executed)

end ScriptCommands

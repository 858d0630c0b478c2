/-
The command table and the extraction of keys (`redis.c`, `db.c`).

A heap block of `int`s is a list of cells; a cell that was not written is `none`, and a write
outside the block is an error.

* `redisCommandTable` — the commands that declare keys, with the positions in the table and the
  arguments that the implementation takes as keys;
* `getKeysFromCommand` — the positions of the keys of a command;
* `usedKeys` — the positions of the keys that the implementation reads or writes.
-/
import RedisModel.Ensures
import RedisModel.CommandArguments

open Except

namespace RedisCommands

/-! ### Arrays -/

inductive KeysError where
  /-- `zmalloc` cannot get that much memory. -/
  | outOfMemory
  | redisAssert
  | outOfBounds
  deriving DecidableEq

/-- An array of `int`s on the heap. -/
abbrev KeyArray := List (Option ℕ)

/-- `zmalloc(sizeof(int)*n)`; a negative `n` is a huge `size_t`. -/
def zmalloc (n : ℤ) : Except KeysError KeyArray :=
  if n < 0 then .error .outOfMemory else .ok (List.replicate n.toNat none)

/-- `keys[i] = v`. -/
def KeyArray.write (keys : KeyArray) (i : ℤ) (v : ℕ) : Except KeysError KeyArray :=
  if 0 ≤ i ∧ i < keys.length then .ok (keys.set i.toNat (some v)) else .error .outOfBounds

def redisAssert (p : Prop) [Decidable p] : Except KeysError Unit :=
  if p then .ok () else .error .redisAssert

/-! ### The table -/

/-- The functions in the field `getkeys_proc`. -/
inductive GetKeysProc where
  | zunionInterGetKeys
  | evalGetKeys
  | sortGetKeys
  deriving DecidableEq

/-- How the function in the field `proc` finds its keys in the arguments. -/
inductive KeyArguments where
  /-- The first argument. -/
  | first
  /-- The first two arguments. -/
  | firstTwo
  /-- All arguments. -/
  | all
  /-- `MSET`: every other argument. -/
  | pairs
  /-- `BLPOP` and `BRPOP`: all arguments but the last, which is the timeout. -/
  | blockingPop
  | object
  | bitop
  | zunionInter
  | eval
  | evalSha
  | sort
  deriving DecidableEq

/-- An entry of the command table. -/
structure RedisCommand where
  name : String
  arity : ℤ
  getkeysProc : Option GetKeysProc
  firstkey : ℕ
  lastkey : ℤ
  keystep : ℕ
  proc : KeyArguments

/-- The commands of `redisCommandTable` that have a `getkeys_proc` or a `firstkey`, which are
those that `processCommand` redirects in a cluster. -/
def redisCommandTable : List RedisCommand :=
  [ ⟨"get", 2, none, 1, 1, 1, .first⟩,
    ⟨"set", -3, none, 1, 1, 1, .first⟩,
    ⟨"setnx", 3, none, 1, 1, 1, .first⟩,
    ⟨"setex", 4, none, 1, 1, 1, .first⟩,
    ⟨"psetex", 4, none, 1, 1, 1, .first⟩,
    ⟨"append", 3, none, 1, 1, 1, .first⟩,
    ⟨"strlen", 2, none, 1, 1, 1, .first⟩,
    ⟨"del", -2, none, 1, -1, 1, .all⟩,
    ⟨"exists", 2, none, 1, 1, 1, .first⟩,
    ⟨"setbit", 4, none, 1, 1, 1, .first⟩,
    ⟨"getbit", 3, none, 1, 1, 1, .first⟩,
    ⟨"setrange", 4, none, 1, 1, 1, .first⟩,
    ⟨"getrange", 4, none, 1, 1, 1, .first⟩,
    ⟨"substr", 4, none, 1, 1, 1, .first⟩,
    ⟨"incr", 2, none, 1, 1, 1, .first⟩,
    ⟨"decr", 2, none, 1, 1, 1, .first⟩,
    ⟨"mget", -2, none, 1, -1, 1, .all⟩,
    ⟨"rpush", -3, none, 1, 1, 1, .first⟩,
    ⟨"lpush", -3, none, 1, 1, 1, .first⟩,
    ⟨"rpushx", 3, none, 1, 1, 1, .first⟩,
    ⟨"lpushx", 3, none, 1, 1, 1, .first⟩,
    ⟨"linsert", 5, none, 1, 1, 1, .first⟩,
    ⟨"rpop", 2, none, 1, 1, 1, .first⟩,
    ⟨"lpop", 2, none, 1, 1, 1, .first⟩,
    ⟨"brpop", -3, none, 1, 1, 1, .blockingPop⟩,
    ⟨"brpoplpush", 4, none, 1, 2, 1, .firstTwo⟩,
    ⟨"blpop", -3, none, 1, -2, 1, .blockingPop⟩,
    ⟨"llen", 2, none, 1, 1, 1, .first⟩,
    ⟨"lindex", 3, none, 1, 1, 1, .first⟩,
    ⟨"lset", 4, none, 1, 1, 1, .first⟩,
    ⟨"lrange", 4, none, 1, 1, 1, .first⟩,
    ⟨"ltrim", 4, none, 1, 1, 1, .first⟩,
    ⟨"lrem", 4, none, 1, 1, 1, .first⟩,
    ⟨"rpoplpush", 3, none, 1, 2, 1, .firstTwo⟩,
    ⟨"sadd", -3, none, 1, 1, 1, .first⟩,
    ⟨"srem", -3, none, 1, 1, 1, .first⟩,
    ⟨"smove", 4, none, 1, 2, 1, .firstTwo⟩,
    ⟨"sismember", 3, none, 1, 1, 1, .first⟩,
    ⟨"scard", 2, none, 1, 1, 1, .first⟩,
    ⟨"spop", 2, none, 1, 1, 1, .first⟩,
    ⟨"srandmember", -2, none, 1, 1, 1, .first⟩,
    ⟨"sinter", -2, none, 1, -1, 1, .all⟩,
    ⟨"sinterstore", -3, none, 1, -1, 1, .all⟩,
    ⟨"sunion", -2, none, 1, -1, 1, .all⟩,
    ⟨"sunionstore", -3, none, 1, -1, 1, .all⟩,
    ⟨"sdiff", -2, none, 1, -1, 1, .all⟩,
    ⟨"sdiffstore", -3, none, 1, -1, 1, .all⟩,
    ⟨"smembers", 2, none, 1, 1, 1, .first⟩,
    ⟨"sscan", -3, none, 1, 1, 1, .first⟩,
    ⟨"zadd", -4, none, 1, 1, 1, .first⟩,
    ⟨"zincrby", 4, none, 1, 1, 1, .first⟩,
    ⟨"zrem", -3, none, 1, 1, 1, .first⟩,
    ⟨"zremrangebyscore", 4, none, 1, 1, 1, .first⟩,
    ⟨"zremrangebyrank", 4, none, 1, 1, 1, .first⟩,
    ⟨"zremrangebylex", 4, none, 1, 1, 1, .first⟩,
    ⟨"zunionstore", -4, some .zunionInterGetKeys, 0, 0, 0, .zunionInter⟩,
    ⟨"zinterstore", -4, some .zunionInterGetKeys, 0, 0, 0, .zunionInter⟩,
    ⟨"zrange", -4, none, 1, 1, 1, .first⟩,
    ⟨"zrangebyscore", -4, none, 1, 1, 1, .first⟩,
    ⟨"zrevrangebyscore", -4, none, 1, 1, 1, .first⟩,
    ⟨"zrangebylex", -4, none, 1, 1, 1, .first⟩,
    ⟨"zrevrangebylex", -4, none, 1, 1, 1, .first⟩,
    ⟨"zcount", 4, none, 1, 1, 1, .first⟩,
    ⟨"zlexcount", 4, none, 1, 1, 1, .first⟩,
    ⟨"zrevrange", -4, none, 1, 1, 1, .first⟩,
    ⟨"zcard", 2, none, 1, 1, 1, .first⟩,
    ⟨"zscore", 3, none, 1, 1, 1, .first⟩,
    ⟨"zrank", 3, none, 1, 1, 1, .first⟩,
    ⟨"zrevrank", 3, none, 1, 1, 1, .first⟩,
    ⟨"zscan", -3, none, 1, 1, 1, .first⟩,
    ⟨"hset", 4, none, 1, 1, 1, .first⟩,
    ⟨"hsetnx", 4, none, 1, 1, 1, .first⟩,
    ⟨"hget", 3, none, 1, 1, 1, .first⟩,
    ⟨"hmset", -4, none, 1, 1, 1, .first⟩,
    ⟨"hmget", -3, none, 1, 1, 1, .first⟩,
    ⟨"hincrby", 4, none, 1, 1, 1, .first⟩,
    ⟨"hincrbyfloat", 4, none, 1, 1, 1, .first⟩,
    ⟨"hdel", -3, none, 1, 1, 1, .first⟩,
    ⟨"hlen", 2, none, 1, 1, 1, .first⟩,
    ⟨"hkeys", 2, none, 1, 1, 1, .first⟩,
    ⟨"hvals", 2, none, 1, 1, 1, .first⟩,
    ⟨"hgetall", 2, none, 1, 1, 1, .first⟩,
    ⟨"hexists", 3, none, 1, 1, 1, .first⟩,
    ⟨"hscan", -3, none, 1, 1, 1, .first⟩,
    ⟨"incrby", 3, none, 1, 1, 1, .first⟩,
    ⟨"decrby", 3, none, 1, 1, 1, .first⟩,
    ⟨"incrbyfloat", 3, none, 1, 1, 1, .first⟩,
    ⟨"getset", 3, none, 1, 1, 1, .first⟩,
    ⟨"mset", -3, none, 1, -1, 2, .pairs⟩,
    ⟨"msetnx", -3, none, 1, -1, 2, .pairs⟩,
    ⟨"move", 3, none, 1, 1, 1, .first⟩,
    ⟨"rename", 3, none, 1, 2, 1, .firstTwo⟩,
    ⟨"renamenx", 3, none, 1, 2, 1, .firstTwo⟩,
    ⟨"expire", 3, none, 1, 1, 1, .first⟩,
    ⟨"expireat", 3, none, 1, 1, 1, .first⟩,
    ⟨"pexpire", 3, none, 1, 1, 1, .first⟩,
    ⟨"pexpireat", 3, none, 1, 1, 1, .first⟩,
    ⟨"type", 2, none, 1, 1, 1, .first⟩,
    ⟨"sort", -2, some .sortGetKeys, 1, 1, 1, .sort⟩,
    ⟨"ttl", 2, none, 1, 1, 1, .first⟩,
    ⟨"pttl", 2, none, 1, 1, 1, .first⟩,
    ⟨"persist", 2, none, 1, 1, 1, .first⟩,
    ⟨"watch", -2, none, 1, -1, 1, .all⟩,
    ⟨"restore", -4, none, 1, 1, 1, .first⟩,
    ⟨"restore-asking", -4, none, 1, 1, 1, .first⟩,
    ⟨"dump", 2, none, 1, 1, 1, .first⟩,
    ⟨"object", -2, none, 2, 2, 2, .object⟩,
    ⟨"eval", -3, some .evalGetKeys, 0, 0, 0, .eval⟩,
    ⟨"evalsha", -3, some .evalGetKeys, 0, 0, 0, .evalSha⟩,
    ⟨"bitop", -4, none, 2, -1, 1, .bitop⟩,
    ⟨"bitcount", -2, none, 1, 1, 1, .first⟩,
    ⟨"bitpos", -3, none, 1, 1, 1, .first⟩,
    ⟨"pfadd", -2, none, 1, 1, 1, .first⟩,
    ⟨"pfcount", -2, none, 1, 1, 1, .all⟩,
    ⟨"pfmerge", -2, none, 1, -1, 1, .all⟩ ]

/-- The test of the number of arguments in `processCommand` and `debugCommand`. -/
def RedisCommand.arityOk (cmd : RedisCommand) (argc : ℕ) : Prop :=
  ¬((0 < cmd.arity ∧ cmd.arity ≠ argc) ∨ (argc : ℤ) < -cmd.arity)

instance instDecidableArityOk (cmd : RedisCommand) (argc : ℕ) : Decidable (cmd.arityOk argc) :=
  inferInstanceAs (Decidable (¬_))

/-! ### Extraction -/

/-- The result of `getKeysFromCommand`, with `*numkeys`; the pointer `NULL` is the empty block. -/
structure KeysResult where
  keys : KeyArray
  numkeys : ℤ

def KeysResult.null : KeysResult := ⟨[], 0⟩

/-- The loop of `getKeysUsingCommandTable`.  Every round moves `j` on by `keystep`, so that
`last - firstkey + 1` rounds are enough. -/
def tableLoop (cmd : RedisCommand) (argc : ℕ) (last : ℤ) :
    ℕ → ℕ → ℕ → KeyArray → Except KeysError (ℕ × KeyArray)
  | 0, _, i, keys => .ok (i, keys)
  | rounds + 1, j, i, keys =>
    if (j : ℤ) ≤ last then do
      redisAssert (j < argc)
      let keys ← keys.write i j
      tableLoop cmd argc last rounds (j + cmd.keystep) (i + 1) keys
    else .ok (i, keys)

def getKeysUsingCommandTable (cmd : RedisCommand) (argv : ArgVector) :
    Except KeysError KeysResult :=
  if cmd.firstkey = 0 then .ok KeysResult.null
  else do
    let last := if cmd.lastkey < 0 then argv.argc + cmd.lastkey else cmd.lastkey
    let keys ← zmalloc (last - cmd.firstkey + 1)
    let p ← tableLoop cmd argv.argc last (last - cmd.firstkey + 1).toNat cmd.firstkey 0 keys
    .ok ⟨p.2, p.1⟩

/-- `for (i = 0; i < num; i++) keys[i] = 3+i`. -/
def fillFromThree (num : ℤ) (keys : KeyArray) : Except KeysError KeyArray :=
  (List.range num.toNat).foldlM (fun keys (i : ℕ) => keys.write i (3 + i)) keys

def zunionInterGetKeys (argv : ArgVector) : Except KeysError KeysResult :=
  let num := atoi (argv.arg 2)
  if num > argv.argc - 3 then .ok KeysResult.null
  else do
    let keys ← zmalloc (num + 1)
    let keys ← fillFromThree num keys
    let keys ← keys.write num 1
    .ok ⟨keys, num + 1⟩

def evalGetKeys (argv : ArgVector) : Except KeysError KeysResult :=
  let num := atoi (argv.arg 2)
  if num > argv.argc - 3 then .ok KeysResult.null
  else do
    let keys ← zmalloc num
    let keys ← fillFromThree num keys
    .ok ⟨keys, num⟩

/-- The options of `SORT` that are skipped, with the number of their arguments. -/
def skiplist : List (Bytes × ℕ) :=
  [(ascii ['l', 'i', 'm', 'i', 't'], 2), (ascii ['g', 'e', 't'], 1), (ascii ['b', 'y'], 1)]

/-- The inner loop of `sortGetKeys` at the argument `i`: the argument from which the outer loop
goes on, and the array. -/
def sortScanArg (argv : ArgVector) (num i : ℕ) (keys : KeyArray) :
    List (Bytes × ℕ) → Except KeysError (ℕ × KeyArray)
  | [] => .ok (i, keys)
  | (name, skip) :: rest =>
    if strcasecmp (argv.arg i) name then .ok (i + skip, keys)
    else if strcasecmp (argv.arg i) (ascii ['s', 't', 'o', 'r', 'e']) ∧ i + 1 < argv.argc then do
      let keys ← keys.write num (i + 1)
      .ok (i, keys)
    else sortScanArg argv num i keys rest

/-- The loop over the arguments of `sortGetKeys`, which takes at most `argc` rounds. -/
def sortScan (argv : ArgVector) (num : ℕ) : ℕ → ℕ → KeyArray → Except KeysError KeyArray
  | 0, _, keys => .ok keys
  | rounds + 1, i, keys =>
    if i < argv.argc then do
      let p ← sortScanArg argv num i keys skiplist
      sortScan argv num rounds (p.1 + 1) p.2
    else .ok keys

def sortGetKeys (argv : ArgVector) : Except KeysError KeysResult := do
  let keys ← zmalloc 2
  let keys ← keys.write 0 1
  let num := 1
  let keys ← sortScan argv num argv.argc 2 keys
  .ok ⟨keys, num⟩

def getKeysFromCommand (cmd : RedisCommand) (argv : ArgVector) : Except KeysError KeysResult :=
  match cmd.getkeysProc with
  | some .zunionInterGetKeys => zunionInterGetKeys argv
  | some .evalGetKeys => evalGetKeys argv
  | some .sortGetKeys => sortGetKeys argv
  | none => getKeysUsingCommandTable cmd argv

/-! ### The keys of the implementations -/

/-- `getTimeoutFromObjectOrReply` returns `REDIS_OK`. -/
def timeoutOk (s : Bytes) : Bool := (getLongLongFromObject s).any (0 ≤ ·)

/-- The options of `SORT` in a cluster, from the argument `j` on; `storekey` is the position of
the last `STORE` key so far.  `none` is a syntax error. -/
def sortOptions : List Bytes → ℕ → Option ℕ → Option (Option ℕ)
  | [], _, storekey => some storekey
  | arg :: rest, j, storekey =>
    if strcasecmp arg (ascii ['a', 's', 'c']) then sortOptions rest (j + 1) storekey
    else if strcasecmp arg (ascii ['d', 'e', 's', 'c']) then sortOptions rest (j + 1) storekey
    else if strcasecmp arg (ascii ['a', 'l', 'p', 'h', 'a']) then
      sortOptions rest (j + 1) storekey
    else if strcasecmp arg (ascii ['l', 'i', 'm', 'i', 't']) then
      match rest with
      | start :: count :: rest =>
        if (getLongLongFromObject start).isSome ∧ (getLongLongFromObject count).isSome then
          sortOptions rest (j + 3) storekey
        else none
      | _ => none
    else if strcasecmp arg (ascii ['s', 't', 'o', 'r', 'e']) then
      match rest with
      | _ :: rest => sortOptions rest (j + 2) (some (j + 1))
      | [] => none
    else if strcasecmp arg (ascii ['b', 'y']) then
      match rest with
      -- a pattern with a star is denied in a cluster
      | pattern :: rest => if 42 ∈ cString pattern then none else sortOptions rest (j + 2) storekey
      | [] => none
    -- `GET` is denied in a cluster, everything else is unknown
    else none

/-- The position of the key that `SORT` stores to, if the options have no error. -/
def sortStore (argv : ArgVector) : Option ℕ := (sortOptions (argv.args.drop 2) 2 none).join

/-- The number of keys that `evalGenericCommand` puts into the table `KEYS`, an `int`; `none` if
it answers with an error before.  A digest has 40 characters. -/
def evalNumkeys (sha : Bool) (argv : ArgVector) : Option ℤ :=
  if sha ∧ (argv.arg 1).length ≠ 40 then none
  else
    match getLongLongFromObject (argv.arg 2) with
    | none => none
    | some numkeys => if numkeys > argv.argc - 3 then none else some (toInt numkeys)

/-- The number of input keys of `ZUNIONSTORE` and `ZINTERSTORE`; `none` if they answer with an
error before they read a key. -/
def zunionInterSetnum (argv : ArgVector) : Option ℤ :=
  match getLongLongFromObject (argv.arg 2) with
  | none => none
  | some setnum => if setnum < 1 ∨ setnum > argv.argc - 3 then none else some setnum

/-- The positions of the arguments that the implementation takes as keys, if the keys it looks
up are such that it goes through all of them. -/
def KeyArguments.positions (argv : ArgVector) : KeyArguments → List ℕ
  | .first => [1]
  | .firstTwo => [1, 2]
  | .all => List.range' 1 (argv.argc - 1)
  | .pairs => if argv.argc % 2 = 0 then [] else List.range' 1 ((argv.argc - 1) / 2) 2
  | .blockingPop =>
    if timeoutOk (argv.arg (argv.argc - 1)) then List.range' 1 (argv.argc - 2) else []
  | .object => if argv.argc = 3 then [2] else []
  | .bitop => List.range' 2 (argv.argc - 2)
  | .zunionInter =>
    match zunionInterSetnum argv with
    | none => []
    | some setnum => 1 :: List.range' 3 setnum.toNat
  | .eval => List.range' 3 ((evalNumkeys false argv).getD 0).toNat
  | .evalSha => List.range' 3 ((evalNumkeys true argv).getD 0).toNat
  | .sort => 1 :: (sortStore argv).toList

/-- The positions of the keys that a command reads or writes. -/
def RedisCommand.usedKeys (cmd : RedisCommand) (argv : ArgVector) : List ℕ :=
  cmd.proc.positions argv

end RedisCommands

/-
The append-only file: `feedAppendOnlyFile` and `flushAppendOnlyFile`.

* `Sds` — a string whose length is an `int`, as in `sdshdr`;
* `feedAppendOnlyFile` — a command, translated, at the end of `aof_buf`;
* `flushAppendOnlyFile` — `aof_buf` at the end of the file.

`none` is an access outside of a string, after which nothing is known.
-/
import RedisModel.InlineRequests
import RedisModel.StringObject

open ByteBuffer RedisCommands StringNumber

namespace Aof

/-! ### Strings -/

/-- An `sds`: `len` of its header, and the bytes that were written. -/
structure Sds where
  len : ℤ
  buf : Bytes
  deriving DecidableEq, Repr

def sdsempty : Sds := ⟨0, []⟩

/-- `sdslen`: the `int` as a `size_t`. -/
def Sds.sdslen (s : Sds) : ℕ := (s.len % 2 ^ 64).toNat

/-- The bytes of a string, if it has as many as it says. -/
def Sds.bytes (s : Sds) : Option Bytes := slice s.buf 0 s.sdslen

/-- `sdscatlen`; with a negative length `memcpy` writes before the string. -/
def sdscatlen (s : Sds) (t : Bytes) : Option Sds :=
  if s.len < 0 then none
  else some ⟨(s.len + t.length).bmod (2 ^ 32), s.buf.take s.len.toNat ++ t⟩

/-- `sdsrange(s,start,-1)`; `start` becomes an `int`. -/
def sdsrange (s : Sds) (start : ℤ) : Option Sds := do
  let old ← s.bytes
  let new := InlineClient.sdsrange old (start.bmod (2 ^ 32)) (-1)
  some ⟨new.length, new⟩

/-! ### Translation -/

/-- `cmd->proc`. -/
inductive Proc where
  | expireCommand
  | pexpireCommand
  | expireatCommand
  | setexCommand
  | psetexCommand
  | other
  deriving DecidableEq, Repr

def crlf : Bytes := [13, 10]

/-- `*<count>\r\n` and `$<length>\r\n`. -/
def countLine (first : Char) (n : ℤ) : Bytes := ascii [first] ++ ll2string n ++ crlf

/-- `$<length>\r\n<content>\r\n`. -/
def catArgument (dst : Sds) (arg : Bytes) : Option Sds := do
  let dst ← sdscatlen dst (countLine '$' arg.length)
  let dst ← sdscatlen dst arg
  sdscatlen dst crlf

def catAppendOnlyGenericCommand (dst : Sds) (argv : List Bytes) : Option Sds := do
  let dst ← sdscatlen dst (countLine '*' argv.length)
  argv.foldlM catArgument dst

/-- The `when` of `catAppendOnlyExpireAtCommand`; it is a `long long`. -/
def expireAt (cmd : Proc) (seconds : Bytes) (mstime : ℤ) : ℤ :=
  let when := (strtoll seconds).value
  let when := if cmd = .expireCommand ∨ cmd = .setexCommand ∨ cmd = .expireatCommand then
    toLong (when * 1000) else when
  if cmd = .expireCommand ∨ cmd = .pexpireCommand ∨ cmd = .setexCommand ∨ cmd = .psetexCommand then
    toLong (when + mstime)
  else when

/-- The command `PEXPIREAT` in the place of another one. -/
def pexpireat (cmd : Proc) (key seconds : Bytes) (mstime : ℤ) : List Bytes :=
  [ascii ['P', 'E', 'X', 'P', 'I', 'R', 'E', 'A', 'T'], key,
    ll2string (expireAt cmd seconds mstime)]

def catAppendOnlyExpireAtCommand (buf : Sds) (cmd : Proc) (key seconds : Bytes) (mstime : ℤ) :
    Option Sds :=
  catAppendOnlyGenericCommand buf (pexpireat cmd key seconds mstime)

/-- The `SELECT` in front of a command for another database. -/
def selectBytes (dictid : ℤ) : Bytes :=
  ascii ['*', '2'] ++ crlf ++ ascii ['$', '6'] ++ crlf ++
    ascii ['S', 'E', 'L', 'E', 'C', 'T'] ++ crlf ++
    countLine '$' (ll2string dictid).length ++ ll2string dictid ++ crlf

/-- What `feedAppendOnlyFile` makes of a command. -/
def translate (buf : Sds) (cmd : Proc) (argv : List Bytes) (mstime : ℤ) : Option Sds :=
  match cmd, argv with
  | .other, argv => catAppendOnlyGenericCommand buf argv
  | .setexCommand, _ :: key :: seconds :: val :: _
  | .psetexCommand, _ :: key :: seconds :: val :: _ => do
    let buf ← catAppendOnlyGenericCommand buf [ascii ['S', 'E', 'T'], key, val]
    catAppendOnlyExpireAtCommand buf cmd key seconds mstime
  | .expireCommand, _ :: key :: seconds :: _
  | .pexpireCommand, _ :: key :: seconds :: _
  | .expireatCommand, _ :: key :: seconds :: _ =>
    catAppendOnlyExpireAtCommand buf cmd key seconds mstime
  | _, _ => none

/-! ### The server -/

inductive AofState where
  | off
  | on
  | waitRewrite
  deriving DecidableEq, Repr

inductive FsyncPolicy where
  | no
  | always
  | everysec
  deriving DecidableEq, Repr

/-- The fields of `redisServer` that are read or written here; the blocks of the rewrite buffer have
the last one first. -/
structure AofServer where
  aofState : AofState
  aofFsync : FsyncPolicy
  aofNoFsyncOnRewrite : Bool
  /-- `aof_child_pid != -1`. -/
  aofChild : Bool
  /-- `rdb_child_pid != -1`. -/
  rdbChild : Bool
  aofBuf : Sds
  aofRewriteBufBlocks : List Bytes
  aofSelectedDb : ℤ
  aofCurrentSize : ℤ
  /-- `aof_last_write_status == REDIS_OK`. -/
  aofLastWriteOk : Bool
  aofFlushPostponedStart : ℤ
  aofDelayedFsync : ℕ
  aofLastFsync : ℤ

def aofRwBufBlockSize : ℕ := 1024 * 1024 * 10

/-- As much as fits is copied to the last block: the blocks and what is left. -/
def fillLast : List Bytes → Bytes → List Bytes × Bytes
  | [], s => ([], s)
  | block :: older, s =>
    let free := aofRwBufBlockSize - block.length
    ((block ++ s.take free) :: older, s.drop free)

/-- The loop of `aofRewriteBufferAppend`; it ends within as many rounds as there are bytes, and one
more. -/
def appendLoop : ℕ → List Bytes → Bytes → List Bytes
  | 0, blocks, _ => blocks
  | fuel + 1, blocks, s =>
    if s = [] then blocks
    else if (fillLast blocks s).2 = [] then (fillLast blocks s).1
    else appendLoop fuel ([] :: (fillLast blocks s).1) (fillLast blocks s).2

def aofRewriteBufferAppend (blocks : List Bytes) (s : Bytes) : List Bytes :=
  appendLoop (s.length + 1) blocks s

/-- The start of `feedAppendOnlyFile`. -/
def catSelect (selectedDb dictid : ℤ) : Option Sds :=
  if dictid ≠ selectedDb then sdscatlen sdsempty (selectBytes dictid) else some sdsempty

/-- The end of `feedAppendOnlyFile`. -/
def appendFed (s : AofServer) (bytes : Bytes) : Option AofServer := do
  let aofBuf ← if s.aofState = .on then sdscatlen s.aofBuf bytes else some s.aofBuf
  some { s with
    aofBuf
    aofRewriteBufBlocks := if s.aofChild then aofRewriteBufferAppend s.aofRewriteBufBlocks bytes
      else s.aofRewriteBufBlocks }

def feedAppendOnlyFile (s : AofServer) (cmd : Proc) (dictid : ℤ) (argv : List Bytes) (mstime : ℤ) :
    Option AofServer := do
  let buf ← catSelect s.aofSelectedDb dictid
  let buf ← translate buf cmd argv mstime
  let bytes ← buf.bytes
  appendFed { s with aofSelectedDb := dictid } bytes

/-! ### Flushing -/

/-- What `write(2)` does: it fails, or writes so many bytes, or all of them if there are fewer. -/
inductive WriteResult where
  | failed
  | wrote (n : ℕ)
  deriving DecidableEq, Repr

/-- The server and the contents of its append-only file, to which only it writes. -/
structure AofWorld where
  server : AofServer
  file : Bytes

/-- How `flushAppendOnlyFile` returns: from one of its four `return` statements, or by `exit(1)`. -/
inductive Flushed where
  | nothing
  | postponed
  | failed
  | written
  | exit
  deriving DecidableEq, Repr

/-- `write(fd,buf,count)` at the end of a file: the file and the result. -/
def sysWrite (file : Bytes) (s : Sds) (result : WriteResult) : Option (Bytes × ℤ) := do
  let bytes ← s.bytes
  match result with
  | .failed => some (file, -1)
  | .wrote n => some (file ++ bytes.take n, (bytes.take n).length)

/-- `ftruncate(fd,length)`. -/
def sysTruncate (file : Bytes) (length : ℤ) : Bytes :=
  file.take length.toNat ++ List.replicate (length.toNat - file.length) 0

/-- Whether the write is put off, as a `fsync` is going on in the background. -/
def postpones (s : AofServer) (force pending : Bool) (unixtime : ℤ) : Bool :=
  s.aofFsync = .everysec ∧ force = false ∧ pending = true ∧
    (s.aofFlushPostponedStart = 0 ∨ unixtime - s.aofFlushPostponedStart < 2)

/-- The end of `flushAppendOnlyFile`, when all is written. -/
def afterWrite (s : AofServer) (nwritten unixtime : ℤ) : AofServer :=
  let s := { s with
    aofLastWriteOk := true
    aofCurrentSize := s.aofCurrentSize + nwritten
    aofBuf := sdsempty }
  if s.aofNoFsyncOnRewrite ∧ (s.aofChild ∨ s.rdbChild) then s
  else if s.aofFsync = .always ∨ s.aofFsync = .everysec ∧ unixtime > s.aofLastFsync then
    { s with aofLastFsync := unixtime }
  else s

/-- The branch for a write that is not complete; `truncated` is whether `ftruncate` succeeds. -/
def writeError (w : AofWorld) (nwritten : ℤ) (truncated : Bool) : Option (AofWorld × Flushed) := do
  -- a short write that could be undone counts as one that failed
  let undone := nwritten ≠ -1 ∧ truncated = true
  let file := if undone then sysTruncate w.file w.server.aofCurrentSize else w.file
  let nwritten := if undone then -1 else nwritten
  if w.server.aofFsync = .always then some (⟨w.server, file⟩, .exit)
  else
    let s := { w.server with aofLastWriteOk := false }
    if nwritten > 0 then do
      let aofBuf ← sdsrange s.aofBuf nwritten
      some (⟨{ s with aofCurrentSize := s.aofCurrentSize + nwritten, aofBuf }, file⟩, .failed)
    else some (⟨s, file⟩, .failed)

/-- The part of `flushAppendOnlyFile` from the `write` on. -/
def writeBuffer (w : AofWorld) (unixtime : ℤ) (result : WriteResult) (truncated : Bool) :
    Option (AofWorld × Flushed) := do
  let (file, nwritten) ← sysWrite w.file w.server.aofBuf result
  -- the length is compared as an `int`
  if nwritten ≠ w.server.aofBuf.len then writeError ⟨w.server, file⟩ nwritten truncated
  else some (⟨afterWrite w.server nwritten unixtime, file⟩, .written)

/-- `flushAppendOnlyFile`; `pending` is whether `bioPendingJobsOfType(REDIS_BIO_AOF_FSYNC) != 0`. -/
def flushAppendOnlyFile (w : AofWorld) (force pending : Bool) (unixtime : ℤ) (result : WriteResult)
    (truncated : Bool) : Option (AofWorld × Flushed) :=
  if w.server.aofBuf.sdslen = 0 then some (w, .nothing)
  else if postpones w.server force pending unixtime then
    let start := if w.server.aofFlushPostponedStart = 0 then unixtime
      else w.server.aofFlushPostponedStart
    some ({ w with server := { w.server with aofFlushPostponedStart := start } }, .postponed)
  else
    let late := w.server.aofFsync = .everysec ∧ force = false ∧ pending = true
    let s := { w.server with
      aofDelayedFsync := w.server.aofDelayedFsync + if late then 1 else 0
      aofFlushPostponedStart := 0 }
    writeBuffer { w with server := s } unixtime result truncated

end Aof

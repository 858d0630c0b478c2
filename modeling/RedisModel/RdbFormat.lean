/-
The RDB format (`rdb.c`).

* `rdbSaveLen`, `rdbSaveStringObject`, `rdbSaveObject`, `rdbSave` — what is written for lengths,
  strings, objects and the dataset; `rdbLoadLen`, … — what is read;
* `createDumpPayload`, `verifyDumpPayload` — the payload of DUMP and RESTORE (`cluster.c`).

A stream is the list of the bytes that have not been read yet.  An object is loaded as it is stored
in the stream: whether a list, a set or a hash becomes compact in memory again, and which strings
become numbers, is up to the configuration and left out here.
-/
import RedisModel.Counters
import RedisModel.StreamReaders

open ByteBuffer RedisServer StringNumber Counters StreamReader

namespace Rdb

section

variable {C F : Type}

/-- `lzf_compress` and `lzf_decompress`; `none` is 0, the answer if there is not enough room or the
data is corrupt. -/
structure Lzf where
  compress : Bytes → ℕ → Option Bytes
  decompress : Bytes → ℕ → Option Bytes
  length_compress : ∀ s n out, compress s n = some out → out.length ≤ n
  decompress_compress : ∀ s n out, compress s n = some out → decompress out s.length = some s

/-- How a score is stored: special values have a byte of their own. -/
inductive DoubleText where
  | nan
  | posInf
  | negInf
  | digits (s : Bytes)

/-- The numbers of type `double`, as far as `==` tells them apart: `print` is what `ll2string` or
the format `%.17g` make of a number, and `scan` what `sscanf` reads. -/
structure ScoreFormat (F : Type) where
  print : F → DoubleText
  scan : DoubleText → F
  length_print : ∀ x s, print x = .digits s → s.length < 128
  scan_print : ∀ x, scan (print x) = x

structure Format (F : Type) where
  lzf : Lzf
  scores : ScoreFormat F

/-- Why a dataset is not loaded: `eoferr`, a wrong signature or version, the other calls of `exit`,
`redisPanic`, or an assertion. -/
inductive Stop where
  | eoferr
  | einval
  | exit
  | panic
  | assertion (failure : Failure)
  | fuel

abbrev Rio := StreamReader UInt8 Stop

/-- The types of objects that are stored as one string. -/
inductive BlobType where
  | listZiplist
  | setIntset
  | zsetZiplist
  | hashZiplist
  deriving DecidableEq

/-- An object.  Elements of type `S` are in the order of an iterator. -/
inductive Object (S F : Type) where
  | string (o : S)
  | list (elements : List S)
  | dictSet (members : List S)
  | zset (members : List (S × F))
  | hash (fields : List (S × S))
  | blob (type : BlobType) (bytes : Bytes)

/-- The object with the texts of its strings. -/
def Object.texts : Object StringValue F → Object Bytes F
  | .string o => .string o.text
  | .list l => .list (l.map StringValue.text)
  | .dictSet l => .dictSet (l.map StringValue.text)
  | .zset l => .zset (l.map fun p => (p.1.text, p.2))
  | .hash l => .hash (l.map fun p => (p.1.text, p.2.text))
  | .blob type bytes => .blob type bytes

/-! ### The checksum -/

/-- `crc64_tab`, computed from its reflected polynomial. -/
def crc64Tab (i : UInt8) : UInt64 :=
  (List.range 8).foldl
    (fun crc _ => if crc &&& 1 = 1 then (crc >>> 1) ^^^ 0x95ac9329ac4bc9b5 else crc >>> 1) i.toUInt64

/-- A round of the loop of `crc64`. -/
def crc64Step (crc : UInt64) (byte : UInt8) : UInt64 :=
  crc64Tab (crc.toUInt8 ^^^ byte) ^^^ (crc >>> 8)

def crc64 (crc : UInt64) (s : Bytes) : UInt64 := s.foldl crc64Step crc

/-! ### Lengths -/

def rioRead (n : ℕ) : Rio Bytes := take .eoferr n

/-- A byte; also `rdbLoadType`. -/
def rdbLoadType : Rio UInt8 := do
  let bytes ← rioRead 1
  return bytes.headD 0

/-- `rdbSaveLen`, of a `size_t` that is cut to 32 bits. -/
def rdbSaveLen (n : ℕ) : Bytes :=
  let len := n % 2 ^ 32
  if len < 2 ^ 6 then [UInt8.ofNat len]
  else if len < 2 ^ 14 then [UInt8.ofNat (64 + len / 256), UInt8.ofNat (len % 256)]
  else 128 :: (leBytes 4 len).reverse

/-- `rdbLoadLen`, with `*isencoded`.  All callers end in `eoferr` when they get
`REDIS_RDB_LENERR`, which is also the largest length. -/
def rdbLoadLen : Rio (ℕ × Bool) := do
  let c ← rdbLoadType
  if c.toNat / 64 = 3 then return (c.toNat % 64, true)
  else if c.toNat / 64 = 0 then return (c.toNat % 64, false)
  else if c.toNat / 64 = 1 then do
    let c' ← rdbLoadType
    return (c.toNat % 64 * 256 + c'.toNat, false)
  else do
    let bytes ← rioRead 4
    if leVal bytes.reverse = 2 ^ 32 - 1 then throw .eoferr
    else return (leVal bytes.reverse, false)

/-! ### Strings -/

/-- `rdbEncodeInteger`; `none` is 0. -/
def rdbEncodeInteger (value : ℤ) : Option Bytes :=
  if -2 ^ 7 ≤ value ∧ value ≤ 2 ^ 7 - 1 then some (192 :: intBytes 1 value)
  else if -2 ^ 15 ≤ value ∧ value ≤ 2 ^ 15 - 1 then some (193 :: intBytes 2 value)
  else if -2 ^ 31 ≤ value ∧ value ≤ 2 ^ 31 - 1 then some (194 :: intBytes 4 value)
  else none

/-- `rdbLoadIntegerObject`; the types `REDIS_RDB_ENC_INT8` to `INT32` are 0, 1 and 2. -/
def rdbLoadIntegerObject (enctype : ℕ) (encode : Bool) : Rio StringValue :=
  if enctype ≤ 2 then do
    let enc ← rioRead (2 ^ enctype)
    return if encode then createStringObjectFromLongLong (intVal enc)
      else .raw (ll2string (intVal enc))
  else throw .panic

/-- `rdbTryIntegerEncoding`; the string is followed by a zero byte, or has one. -/
def rdbTryIntegerEncoding (s : Bytes) : Option Bytes :=
  let r := RedisCommands.strtoll (RedisCommands.cString s)
  if r.rest ≠ [] then none
  else if ll2string r.value ≠ s then none
  else rdbEncodeInteger r.value

variable (fmt : Format F) (rdbCompression : Bool)

def rdbSaveLzfStringObject (s : Bytes) : Option Bytes :=
  if s.length ≤ 4 then none
  else (fmt.lzf.compress s (s.length - 4)).map fun out =>
    195 :: (rdbSaveLen out.length ++ rdbSaveLen s.length ++ out)

def rdbLoadLzfStringObject : Rio StringValue := do
  let clen ← rdbLoadLen
  let len ← rdbLoadLen
  let c ← rioRead clen.1
  match fmt.lzf.decompress c len.1 with
  | some val => return .raw val
  | none => throw .eoferr

def rdbSaveRawString (s : Bytes) : Bytes :=
  match if s.length ≤ 11 then rdbTryIntegerEncoding s else none with
  | some enc => enc
  | none =>
    match if rdbCompression = true ∧ 20 < s.length then rdbSaveLzfStringObject fmt s else none with
    | some enc => enc
    | none => rdbSaveLen s.length ++ s

def rdbSaveLongLongAsStringObject (value : ℤ) : Bytes :=
  match rdbEncodeInteger value with
  | some enc => enc
  | none => rdbSaveLen (ll2string value).length ++ ll2string value

def rdbSaveStringObject : StringValue → Bytes
  | .int value _ => rdbSaveLongLongAsStringObject value
  | .raw s => rdbSaveRawString fmt rdbCompression s

def rdbGenericLoadStringObject (encode : Bool) : Rio StringValue := do
  let len ← rdbLoadLen
  if len.2 then
    if len.1 ≤ 2 then rdbLoadIntegerObject len.1 encode
    else if len.1 = 3 then rdbLoadLzfStringObject fmt
    else throw .panic
  else do
    let val ← rioRead len.1
    return .raw val

/-! ### Objects -/

def rdbSaveDoubleValue (val : F) : Bytes :=
  match fmt.scores.print val with
  | .nan => [253]
  | .posInf => [254]
  | .negInf => [255]
  | .digits s => UInt8.ofNat s.length :: s

def rdbLoadDoubleValue : Rio F := do
  let len ← rdbLoadType
  if len = 255 then return fmt.scores.scan .negInf
  else if len = 254 then return fmt.scores.scan .posInf
  else if len = 253 then return fmt.scores.scan .nan
  else do
    let buf ← rioRead len.toNat
    return fmt.scores.scan (.digits buf)

/-- `REDIS_RDB_TYPE_LIST_ZIPLIST` and so on. -/
def BlobType.code : BlobType → UInt8
  | .listZiplist => 10
  | .setIntset => 11
  | .zsetZiplist => 12
  | .hashZiplist => 13

/-- The byte of `rdbSaveObjectType`. -/
def rdbSaveObjectType : Object StringValue F → UInt8
  | .string _ => 0
  | .list _ => 1
  | .dictSet _ => 2
  | .zset _ => 3
  | .hash _ => 4
  | .blob type _ => type.code

def rdbSaveObject : Object StringValue F → Bytes
  | .string o => rdbSaveStringObject fmt rdbCompression o
  | .list l => rdbSaveLen l.length ++ l.flatMap (rdbSaveStringObject fmt rdbCompression)
  | .dictSet l => rdbSaveLen l.length ++ l.flatMap (rdbSaveStringObject fmt rdbCompression)
  | .zset l => rdbSaveLen l.length ++ l.flatMap fun p =>
      rdbSaveStringObject fmt rdbCompression p.1 ++ rdbSaveDoubleValue fmt p.2
  | .hash l => rdbSaveLen l.length ++ l.flatMap fun p =>
      rdbSaveStringObject fmt rdbCompression p.1 ++ rdbSaveStringObject fmt rdbCompression p.2
  | .blob _ bytes => rdbSaveRawString fmt rdbCompression bytes

/-- A member of a sorted set, and its score. -/
def loadMember : Rio (StringValue × F) := do
  let ele ← rdbGenericLoadStringObject fmt true
  let score ← rdbLoadDoubleValue fmt
  return (ele, score)

/-- A field and its value. -/
def loadField : Rio (StringValue × StringValue) := do
  let field ← rdbGenericLoadStringObject fmt false
  let value ← rdbGenericLoadStringObject fmt false
  return (field, value)

/-- `rdbLoadObject`, but for the type `REDIS_RDB_TYPE_HASH_ZIPMAP` of files before version 4. -/
def rdbLoadObject (rdbtype : UInt8) : Rio (Object StringValue F) :=
  let blob (type : BlobType) : Rio (Object StringValue F) := do
    let aux ← rdbGenericLoadStringObject fmt false
    return .blob type aux.text
  if rdbtype = 0 then do
    let o ← rdbGenericLoadStringObject fmt true
    return .string o
  else if rdbtype = 1 then do
    let len ← rdbLoadLen
    let l ← times (rdbGenericLoadStringObject fmt true) len.1
    return .list l
  else if rdbtype = 2 then do
    let len ← rdbLoadLen
    let l ← times (rdbGenericLoadStringObject fmt true) len.1
    return .dictSet l
  else if rdbtype = 3 then do
    let len ← rdbLoadLen
    let l ← times (loadMember fmt) len.1
    return .zset l
  else if rdbtype = 4 then do
    let len ← rdbLoadLen
    let l ← times (loadField fmt) len.1
    return .hash l
  else if rdbtype = 10 then blob .listZiplist
  else if rdbtype = 11 then blob .setIntset
  else if rdbtype = 12 then blob .zsetZiplist
  else if rdbtype = 13 then blob .hashZiplist
  else throw .panic

/-! ### Datasets -/

/-- `rdbSaveKeyValuePair`; -1 stands for no expire. -/
def rdbSaveKeyValuePair (key : Bytes) (val : Object StringValue F) (expiretime now : ℤ) : Bytes :=
  let pair := rdbSaveObjectType val ::
    (rdbSaveRawString fmt rdbCompression key ++ rdbSaveObject fmt rdbCompression val)
  if expiretime = -1 then pair
  else if expiretime < now then []
  else 252 :: (intBytes 8 expiretime ++ pair)

/-- `REDIS_RDB_VERSION` is 6. -/
def signature : Bytes := RedisCommands.ascii "REDIS0006".toList

variable (s : RedisServer C (Object StringValue F))

/-- The expire of a key, or -1 (`getExpire`). -/
def expireOf (d : ℕ) (key : Bytes) : ℤ := ((s.db d).expires key).getD (-1)

/-- A database; `dictNext` returns the keys and values `pairs`. -/
def saveDb (now : ℤ) (pairs : ℕ → List (Bytes × Object StringValue F)) (j : ℕ) : Bytes :=
  if pairs j = [] then []
  else 254 :: (rdbSaveLen j ++ (pairs j).flatMap fun p =>
    rdbSaveKeyValuePair fmt rdbCompression p.1 p.2 (expireOf s j p.1) now)

/-- What `rdbSave` writes before the checksum. -/
def saveBody (now : ℤ) (pairs : ℕ → List (Bytes × Object StringValue F)) : Bytes :=
  signature ++ ((List.range s.dbnum).flatMap (saveDb fmt rdbCompression s now pairs) ++ [255])

/-- The file of `rdbSave`. -/
def rdbSave (rdbChecksum : Bool) (now : ℤ) (pairs : ℕ → List (Bytes × Object StringValue F)) :
    Bytes :=
  let body := saveBody fmt rdbCompression s now pairs
  body ++ leBytes 8 (if rdbChecksum then crc64 0 body else 0).toNat

/-- An opcode, and the expire in front of it, in milliseconds. -/
def loadExpire : Rio (UInt8 × ℤ) := do
  let type ← rdbLoadType
  if type = 253 then do
    let t ← rioRead 4
    if intVal t = -1 then throw .eoferr
    else do
      let type ← rdbLoadType
      return (type, intVal t * 1000)
  else if type = 252 then do
    let t ← rioRead 8
    if intVal t = -1 then throw .eoferr
    else do
      let type ← rdbLoadType
      return (type, intVal t)
  else return (type, -1)

def checkAssert {α : Type} : Except Failure α → Rio α
  | .ok x => pure x
  | .error failure => throw (.assertion failure)

/-- A pair that was read: a master leaves out what has expired. -/
def addPair (d : ℕ) (now : ℤ) (key : Bytes) (val : Object StringValue F) (expiretime : ℤ) :
    Except Failure (RedisServer C (Object StringValue F)) :=
  if s.masterhost = false ∧ expiretime ≠ -1 ∧ expiretime < now then .ok s
  else do
    let s ← dbAdd s d key val
    if expiretime ≠ -1 then setExpire s d key expiretime else .ok s

variable {s}

/-- The loop of `rdbLoad`, in the database `d`. -/
def loadLoop (now : ℤ) : ℕ → RedisServer C (Object StringValue F) → ℕ →
    Rio (RedisServer C (Object StringValue F))
  | 0, _, _ => throw .fuel
  | fuel + 1, s, d => do
    let op ← loadExpire
    if op.1 = 255 then return s
    else if op.1 = 254 then do
      let dbid ← rdbLoadLen
      if s.dbnum ≤ dbid.1 then throw .exit
      else loadLoop now fuel s dbid.1
    else do
      let key ← rdbGenericLoadStringObject fmt false
      let val ← rdbLoadObject fmt op.1
      let s ← checkAssert (addPair s d now key.text val op.2)
      loadLoop now fuel s d

/-- The signature and the loop; the result has the version. -/
def loadBody (fuel : ℕ) (now : ℤ) (s : RedisServer C (Object StringValue F)) :
    Rio (ℤ × RedisServer C (Object StringValue F)) := do
  let buf ← rioRead 9
  if buf.take 5 ≠ RedisCommands.ascii "REDIS".toList then throw .einval
  else if RedisCommands.atoi (buf.drop 5) < 1 ∨ 6 < RedisCommands.atoi (buf.drop 5) then
    throw .einval
  else do
    let s ← loadLoop fmt now fuel s 0
    return (RedisCommands.atoi (buf.drop 5), s)

/-- The end of `rdbLoad`: the checksum of the file, which is 0 if none was computed. -/
def checkCksum (rdbChecksum : Bool) (rdbver : ℤ) (expected : UInt64) : Rio Unit :=
  if 5 ≤ rdbver ∧ rdbChecksum = true then do
    let cksum ← rioRead 8
    if leVal cksum = 0 then return ()
    else if leVal cksum ≠ expected.toNat then throw .exit
    else return ()
  else return ()

/-- `rdbLoad`, of a file that exists. -/
def rdbLoad (rdbChecksum : Bool) (fuel : ℕ) (now : ℤ) (s : RedisServer C (Object StringValue F))
    (file : Bytes) : Except Stop (RedisServer C (Object StringValue F)) := do
  let r ← loadBody fmt fuel now s file
  let expected := crc64 0 (file.take (file.length - r.2.length))
  let _ ← checkCksum rdbChecksum r.1.1 expected r.2
  return r.1.2

/-! ### Payloads -/

end

end Rdb

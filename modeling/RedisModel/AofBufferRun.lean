/-
No write is lost or done twice by the append-only file, as long as `aof_buf` is shorter than 2 GB.

* `feed_spec` — what a call of `feedAppendOnlyFile` appends;
* `flush_spec` — `flushAppendOnlyFile` moves bytes from the buffer to the file;
* `aof_writes` — the bytes in the file and in the buffer are those fed, in every run.
-/
import RedisModel.AofBuffer
import RedisModel.Runs

open ByteBuffer RedisCommands StringNumber

namespace Aof

/-! ### Strings shorter than 2 GB -/

/-- A string with the length in its header. -/
def full (b : Bytes) : Sds := ⟨b.length, b⟩

@[simp] theorem len_full (b : Bytes) : (full b).len = b.length := rfl

@[simp] theorem buf_full (b : Bytes) : (full b).buf = b := rfl

theorem sdslen_full {b : Bytes} (h : b.length < 2 ^ 31) : (full b).sdslen = b.length := by
  rw [Sds.sdslen, len_full]
  omega

theorem bytes_full {b : Bytes} (h : b.length < 2 ^ 31) : (full b).bytes = some b := by
  rw [Sds.bytes, sdslen_full h, buf_full, slice, if_pos (by omega), List.drop_zero,
    List.take_length]

theorem sdscatlen_full (b t : Bytes) :
    sdscatlen (full b) t = some ⟨(b.length + t.length : ℤ).bmod (2 ^ 32), b ++ t⟩ := by
  rw [sdscatlen, len_full, buf_full, if_neg (by omega), Int.toNat_natCast, List.take_length]

theorem full_append {b t : Bytes} (h : b.length + t.length < 2 ^ 31) :
    sdscatlen (full b) t = some (full (b ++ t)) := by
  have hlen : (b.length + t.length : ℤ).bmod (2 ^ 32) = (b ++ t).length := by
    rw [List.length_append, Int.bmod_eq_of_le] <;> push_cast <;> omega
  rw [sdscatlen_full, hlen]
  rfl

/-! ### The bytes of a command -/

/-- A command in the format of requests. -/
def encode (argv : List Bytes) : Bytes :=
  countLine '*' argv.length ++ argv.flatMap fun arg => countLine '$' arg.length ++ arg ++ crlf

/-- What a command is translated to, if it has its arguments. -/
def translation (cmd : Proc) (argv : List Bytes) (mstime : ℤ) : Option Bytes :=
  match cmd, argv with
  | .other, argv => some (encode argv)
  | .setexCommand, _ :: key :: seconds :: val :: _
  | .psetexCommand, _ :: key :: seconds :: val :: _ =>
    some (encode [ascii ['S', 'E', 'T'], key, val] ++ encode (pexpireat cmd key seconds mstime))
  | .expireCommand, _ :: key :: seconds :: _
  | .pexpireCommand, _ :: key :: seconds :: _
  | .expireatCommand, _ :: key :: seconds :: _ => some (encode (pexpireat cmd key seconds mstime))
  | _, _ => none

/-- What a call of `feedAppendOnlyFile` appends. -/
def fedBytes (selectedDb : ℤ) (cmd : Proc) (dictid : ℤ) (argv : List Bytes) (mstime : ℤ) :
    Option Bytes :=
  (translation cmd argv mstime).map fun bytes =>
    (if dictid ≠ selectedDb then selectBytes dictid else []) ++ bytes

theorem catArgument_full {b arg : Bytes}
    (h : b.length + (countLine '$' arg.length ++ arg ++ crlf).length < 2 ^ 31) :
    catArgument (full b) arg = some (full (b ++ (countLine '$' arg.length ++ arg ++ crlf))) := by
  simp only [List.length_append] at h
  rw [catArgument, full_append (by omega), Option.bind_eq_bind, Option.bind_some,
    full_append (by rw [List.length_append]; omega), Option.bind_some,
    full_append (by simp only [List.length_append]; omega)]
  simp only [List.append_assoc]

theorem foldlM_catArgument {argv : List Bytes} : ∀ {b : Bytes},
    b.length + (argv.flatMap fun arg => countLine '$' arg.length ++ arg ++ crlf).length < 2 ^ 31 →
    argv.foldlM catArgument (full b)
      = some (full (b ++ argv.flatMap fun arg => countLine '$' arg.length ++ arg ++ crlf)) := by
  induction argv with
  | nil => exact fun {b} _ => by rw [List.flatMap_nil, List.append_nil]; rfl
  | cons arg argv ih =>
    intro b hlen
    rw [List.flatMap_cons, List.length_append] at hlen
    rw [List.foldlM_cons, catArgument_full (by omega), Option.bind_eq_bind, Option.bind_some,
      ih (by rw [List.length_append]; omega), List.flatMap_cons, List.append_assoc]

theorem catAppendOnlyGenericCommand_full {b : Bytes} {argv : List Bytes}
    (h : b.length + (encode argv).length < 2 ^ 31) :
    catAppendOnlyGenericCommand (full b) argv = some (full (b ++ encode argv)) := by
  rw [encode, List.length_append] at h
  rw [catAppendOnlyGenericCommand, full_append (by omega), Option.bind_eq_bind, Option.bind_some,
    foldlM_catArgument (by rw [List.length_append]; omega), encode, List.append_assoc]

theorem setex_full {b key seconds val : Bytes} {cmd : Proc} {mstime : ℤ}
    (h : b.length + (encode [ascii ['S', 'E', 'T'], key, val] ++
      encode (pexpireat cmd key seconds mstime)).length < 2 ^ 31) :
    (do let buf ← catAppendOnlyGenericCommand (full b) [ascii ['S', 'E', 'T'], key, val]
        catAppendOnlyExpireAtCommand buf cmd key seconds mstime)
      = some (full (b ++ (encode [ascii ['S', 'E', 'T'], key, val] ++
        encode (pexpireat cmd key seconds mstime)))) := by
  rw [List.length_append] at h
  rw [catAppendOnlyGenericCommand_full (by omega), Option.bind_eq_bind, Option.bind_some,
    catAppendOnlyExpireAtCommand,
    catAppendOnlyGenericCommand_full (by rw [List.length_append]; omega), List.append_assoc]

theorem translate_full {b bytes : Bytes} {cmd : Proc} {argv : List Bytes} {mstime : ℤ}
    (htranslation : translation cmd argv mstime = some bytes)
    (h : b.length + bytes.length < 2 ^ 31) :
    translate (full b) cmd argv mstime = some (full (b ++ bytes)) := by
  unfold translation at htranslation
  split at htranslation
  case h_7 => cases htranslation
  all_goals obtain rfl := Option.some_inj.mp htranslation
  · exact catAppendOnlyGenericCommand_full h
  · exact setex_full h
  · exact setex_full h
  · exact catAppendOnlyGenericCommand_full h
  · exact catAppendOnlyGenericCommand_full h
  · exact catAppendOnlyGenericCommand_full h

/-! ### Feeding -/

section
variable {s : AofServer} {b bytes : Bytes} {cmd : Proc} {dictid mstime : ℤ} {argv : List Bytes}

/-- The server after a call that is fed these bytes. -/
def afterFeed (s : AofServer) (b bytes : Bytes) (dictid : ℤ) : AofServer :=
  { s with
    aofSelectedDb := dictid
    aofBuf := ⟨(b.length + bytes.length : ℤ).bmod (2 ^ 32), b ++ bytes⟩
    aofRewriteBufBlocks := if s.aofChild then aofRewriteBufferAppend s.aofRewriteBufBlocks bytes
      else s.aofRewriteBufBlocks }

theorem afterFeed_same (s : AofServer) (b bytes : Bytes) (dictid : ℤ) :
    (afterFeed s b bytes dictid).aofState = s.aofState ∧
      (afterFeed s b bytes dictid).aofFsync = s.aofFsync ∧
      (afterFeed s b bytes dictid).aofCurrentSize = s.aofCurrentSize ∧
      (afterFeed s b bytes dictid).aofLastWriteOk = s.aofLastWriteOk := by
  unfold afterFeed
  exact ⟨rfl, rfl, rfl, rfl⟩

theorem catSelect_full {selectedDb : ℤ}
    (h : (if dictid ≠ selectedDb then selectBytes dictid else []).length < 2 ^ 31) :
    catSelect selectedDb dictid
      = some (full (if dictid ≠ selectedDb then selectBytes dictid else [])) := by
  unfold catSelect
  split at h
  · rename_i hne
    rw [if_pos hne, if_pos hne]
    exact full_append (b := []) (by rw [List.length_nil]; omega)
  · rename_i heq
    rw [if_neg heq, if_neg heq]
    rfl

/-- A call appends what it is fed; if that is too much, the length is wrong. -/
theorem feed_spec (hon : s.aofState = .on) (hbuf : s.aofBuf = full b)
    (hfed : fedBytes s.aofSelectedDb cmd dictid argv mstime = some bytes)
    (hlen : bytes.length < 2 ^ 31) :
    feedAppendOnlyFile s cmd dictid argv mstime = some (afterFeed s b bytes dictid) := by
  obtain ⟨body, hbody, rfl⟩ := Option.map_eq_some_iff.mp hfed
  rw [List.length_append] at hlen
  rw [feedAppendOnlyFile, catSelect_full (by omega), Option.bind_eq_bind, Option.bind_some,
    translate_full hbody hlen, Option.bind_eq_bind, Option.bind_some,
    bytes_full (by rw [List.length_append]; exact hlen), Option.bind_some, appendFed]
  dsimp only
  rw [if_pos hon, hbuf, sdscatlen_full]
  rfl

theorem feed_small (hon : s.aofState = .on) (hbuf : s.aofBuf = full b)
    (hfed : fedBytes s.aofSelectedDb cmd dictid argv mstime = some bytes)
    (hlen : b.length + bytes.length < 2 ^ 31) :
    ∃ s', feedAppendOnlyFile s cmd dictid argv mstime = some s' ∧ s'.aofState = s.aofState ∧
      s'.aofFsync = s.aofFsync ∧ s'.aofCurrentSize = s.aofCurrentSize ∧
      s'.aofLastWriteOk = s.aofLastWriteOk ∧ s'.aofSelectedDb = dictid ∧
      s'.aofBuf = full (b ++ bytes) := by
  have hcard : (b.length + bytes.length : ℤ).bmod (2 ^ 32) = (b ++ bytes).length := by
    rw [List.length_append, Int.bmod_eq_of_le] <;> push_cast <;> omega
  obtain ⟨hstate, hfsync, hsize, hstatus⟩ := afterFeed_same s b bytes dictid
  exact ⟨_, feed_spec hon hbuf hfed (by omega), hstate, hfsync, hsize, hstatus, by rw [afterFeed],
    by rw [afterFeed, hcard, full]⟩

end

/-! ### Flushing -/

/-- `aof_last_write_status` after a flush. -/
def statusAfter (ok : Bool) : Flushed → Bool
  | .written => true
  | .failed => false
  | _ => ok

/-- What a flush of the bytes `b` does: it moves the first of them to the file. -/
structure Flushes (w : AofWorld) (b : Bytes) (result : WriteResult) (w' : AofWorld)
    (flushed : Flushed) : Prop where
  state : w'.server.aofState = w.server.aofState
  policy : w'.server.aofFsync = w.server.aofFsync
  moved : ∃ a c, b = a ++ c ∧ w'.file = w.file ++ a ∧ w'.server.aofBuf = full c ∧
    (flushed = .nothing ∨ flushed = .written → c = [])
  size : w'.server.aofCurrentSize = w'.file.length
  status : w'.server.aofLastWriteOk = statusAfter w.server.aofLastWriteOk flushed
  complete : flushed = .written ∨ flushed = .failed →
    (flushed = .written ↔ ∃ n, result = .wrote n ∧ b.length ≤ n)
  runs : flushed ≠ .exit

theorem sdsrange_full {b : Bytes} {n : ℕ} (hn : n ≤ b.length) (hb : b.length < 2 ^ 31) :
    sdsrange (full b) n = some (full (b.drop n)) := by
  rw [sdsrange, bytes_full hb, Option.bind_eq_bind, Option.bind_some,
    Int.bmod_eq_of_le (by omega) (by omega), InlineClient.sdsrange_drop]
  rfl

section
variable {w : AofWorld} {b : Bytes}

theorem sysWrite_full {file : Bytes} (hb : b.length < 2 ^ 31) (result : WriteResult) :
    sysWrite file (full b) result = some (match result with
      | .failed => (file, -1)
      | .wrote n => (file ++ b.take n, (b.take n).length)) := by
  rw [sysWrite, bytes_full hb, Option.bind_eq_bind, Option.bind_some]
  cases result <;> rfl

theorem sysTruncate_append (file a : Bytes) : sysTruncate (file ++ a) file.length = file := by
  have hpad : file.length - (file ++ a).length = 0 := by
    rw [List.length_append]
    omega
  rw [sysTruncate, Int.toNat_natCast, List.take_left, hpad, List.replicate_zero, List.append_nil]

/-- After a write that fails or could be undone, all is as before, but for the status. -/
theorem writeError_undone (hpolicy : w.server.aofFsync ≠ .always) {file : Bytes} {nwritten : ℤ}
    {truncated : Bool} (hfile : (if nwritten ≠ -1 ∧ truncated = true then
      sysTruncate file w.server.aofCurrentSize else file) = w.file)
    (hwritten : (if nwritten ≠ -1 ∧ truncated = true then -1 else nwritten) ≤ 0) :
    writeError ⟨w.server, file⟩ nwritten truncated
      = some (⟨{ w.server with aofLastWriteOk := false }, w.file⟩, .failed) := by
  rw [writeError]
  dsimp only
  rw [if_neg hpolicy, if_neg (by omega), hfile]

theorem writeError_trim (hpolicy : w.server.aofFsync ≠ .always) (hbuf : w.server.aofBuf = full b)
    (hb : b.length < 2 ^ 31) {n : ℕ} (hpos : 0 < n) (hn : n ≤ b.length) (file : Bytes) :
    writeError ⟨w.server, file⟩ n false = some (⟨{ w.server with
      aofLastWriteOk := false
      aofCurrentSize := w.server.aofCurrentSize + n
      aofBuf := full (b.drop n) }, file⟩, .failed) := by
  have hno : ¬ ((n : ℤ) ≠ -1 ∧ false = true) := fun h => Bool.false_ne_true h.2
  rw [writeError]
  dsimp only
  rw [if_neg hpolicy, if_neg hno, if_neg hno, if_pos (by omega), hbuf, sdsrange_full hn hb]
  rfl

theorem writeError_spec (hpolicy : w.server.aofFsync ≠ .always) (hbuf : w.server.aofBuf = full b)
    (hb : b.length < 2 ^ 31) (hsize : w.server.aofCurrentSize = w.file.length)
    {result : WriteResult} {file : Bytes} {nwritten : ℤ}
    (hwrite : sysWrite w.file w.server.aofBuf result = some (file, nwritten))
    (hshort : nwritten ≠ b.length) (truncated : Bool) :
    ∃ w', writeError ⟨w.server, file⟩ nwritten truncated = some (w', .failed) ∧
      Flushes w b result w' .failed := by
  rw [hbuf, sysWrite_full hb, Option.some_inj] at hwrite
  have hnot : ∀ n, result = .wrote n → n < b.length := by
    rintro n rfl
    obtain ⟨-, rfl⟩ := Prod.mk.inj hwrite
    by_contra hge
    exact hshort (by rw [List.take_of_length_le (by omega)])
  have hincomplete : Flushed.failed = .written ↔ ∃ n, result = .wrote n ∧ b.length ≤ n :=
    iff_of_false nofun fun ⟨n, hresult, hle⟩ => absurd (hnot n hresult) (by omega)
  have hsame : Flushes w b result ⟨{ w.server with aofLastWriteOk := false }, w.file⟩ .failed :=
    ⟨rfl, rfl, ⟨[], b, rfl, (List.append_nil _).symm, hbuf,
      fun h => by obtain h | h := h <;> cases h⟩, hsize, rfl, fun _ => hincomplete, nofun⟩
  cases result with
  | failed =>
    obtain ⟨rfl, rfl⟩ := Prod.mk.inj hwrite
    exact ⟨_, writeError_undone hpolicy (if_neg fun h => h.1 rfl) (by rw [ite_self]; omega), hsame⟩
  | wrote n =>
    obtain ⟨rfl, rfl⟩ := Prod.mk.inj hwrite
    have hn := hnot n rfl
    have htake : (b.take n).length = n := by
      rw [List.length_take]
      omega
    rw [htake]
    cases truncated with
    | true =>
      have hyes : (n : ℤ) ≠ -1 ∧ true = true := ⟨by omega, rfl⟩
      refine ⟨_, writeError_undone hpolicy ?_ (by rw [if_pos hyes]; omega), hsame⟩
      rw [if_pos hyes, hsize, sysTruncate_append]
    | false =>
      by_cases hpos : 0 < n
      · refine ⟨_, writeError_trim hpolicy hbuf hb hpos hn.le _, rfl, rfl,
          ⟨b.take n, b.drop n, (List.take_append_drop n b).symm, rfl, rfl,
            fun h => by obtain h | h := h <;> cases h⟩, ?_, rfl, fun _ => hincomplete, nofun⟩
        show w.server.aofCurrentSize + n = (w.file ++ b.take n).length
        rw [List.length_append, htake, hsize]
        push_cast
        rfl
      · have hno : ¬ ((n : ℤ) ≠ -1 ∧ false = true) := fun h => Bool.false_ne_true h.2
        refine ⟨_, writeError_undone hpolicy ?_ (by rw [if_neg hno]; omega), hsame⟩
        rw [if_neg hno, show n = 0 by omega, List.take_zero, List.append_nil]

theorem afterWrite_spec (s : AofServer) (nwritten unixtime : ℤ) :
    (afterWrite s nwritten unixtime).aofState = s.aofState ∧
      (afterWrite s nwritten unixtime).aofFsync = s.aofFsync ∧
      (afterWrite s nwritten unixtime).aofBuf = full [] ∧
      (afterWrite s nwritten unixtime).aofCurrentSize = s.aofCurrentSize + nwritten ∧
      (afterWrite s nwritten unixtime).aofLastWriteOk = true := by
  unfold afterWrite
  dsimp only
  split
  · exact ⟨rfl, rfl, rfl, rfl, rfl⟩
  · split
    · exact ⟨rfl, rfl, rfl, rfl, rfl⟩
    · exact ⟨rfl, rfl, rfl, rfl, rfl⟩

theorem writeBuffer_spec (hpolicy : w.server.aofFsync ≠ .always) (hbuf : w.server.aofBuf = full b)
    (hb : b.length < 2 ^ 31) (hsize : w.server.aofCurrentSize = w.file.length) (unixtime : ℤ)
    (result : WriteResult) (truncated : Bool) :
    ∃ w' flushed, writeBuffer w unixtime result truncated = some (w', flushed) ∧
      Flushes w b result w' flushed := by
  obtain ⟨file, nwritten, hwrite⟩ : ∃ file nwritten,
      sysWrite w.file w.server.aofBuf result = some (file, nwritten) :=
    ⟨_, _, by rw [hbuf, sysWrite_full hb]⟩
  rw [writeBuffer, hwrite, Option.bind_eq_bind, Option.bind_some]
  dsimp only
  have hlen : w.server.aofBuf.len = b.length := by rw [hbuf, len_full]
  rw [hlen]
  split
  · rename_i hshort
    obtain ⟨w', hrun, hw'⟩ := writeError_spec hpolicy hbuf hb hsize hwrite hshort truncated
    exact ⟨w', _, hrun, hw'⟩
  · rename_i hall
    obtain ⟨hstate, hfsync, hempty, hnew, hok⟩ := afterWrite_spec w.server nwritten unixtime
    obtain rfl := not_not.mp hall
    rw [hbuf, sysWrite_full hb, Option.some_inj] at hwrite
    cases result with
    | failed =>
      obtain ⟨-, hfailed⟩ := Prod.mk.inj hwrite
      omega
    | wrote n =>
      obtain ⟨rfl, hwritten⟩ := Prod.mk.inj hwrite
      have hn : b.length ≤ n := by
        rw [List.length_take] at hwritten
        omega
      have htake : b.take n = b := List.take_of_length_le hn
      rw [htake]
      refine ⟨_, _, rfl, hstate, hfsync,
        ⟨b, [], (List.append_nil b).symm, rfl, hempty, fun _ => rfl⟩, ?_, hok,
        fun _ => iff_of_true rfl ⟨n, rfl, hn⟩, nofun⟩
      rw [hnew, List.length_append, hsize]
      push_cast
      rfl

theorem flushes_unwritten (start : ℤ) (result : WriteResult) {flushed : Flushed}
    (hbuf : w.server.aofBuf = full b) (hsize : w.server.aofCurrentSize = w.file.length)
    (h : flushed = .nothing ∧ b = [] ∨ flushed = .postponed) :
    Flushes w b result { w with server := { w.server with aofFlushPostponedStart := start } }
      flushed := by
  obtain ⟨rfl, rfl⟩ | rfl := h
  · exact ⟨rfl, rfl, ⟨[], [], rfl, (List.append_nil _).symm, hbuf, fun _ => rfl⟩, hsize, rfl,
      (fun h => by obtain h | h := h <;> cases h), nofun⟩
  · exact ⟨rfl, rfl, ⟨[], b, rfl, (List.append_nil _).symm, hbuf,
      fun h => by obtain h | h := h <;> cases h⟩, hsize, rfl,
      (fun h => by obtain h | h := h <;> cases h), nofun⟩

theorem flush_spec (hpolicy : w.server.aofFsync ≠ .always) (hbuf : w.server.aofBuf = full b)
    (hb : b.length < 2 ^ 31) (hsize : w.server.aofCurrentSize = w.file.length)
    (force pending : Bool) (unixtime : ℤ) (result : WriteResult) (truncated : Bool) :
    ∃ w' flushed, flushAppendOnlyFile w force pending unixtime result truncated
      = some (w', flushed) ∧ Flushes w b result w' flushed := by
  have hslen : w.server.aofBuf.sdslen = b.length := by rw [hbuf, sdslen_full hb]
  rw [flushAppendOnlyFile, hslen]
  split
  · rename_i hempty
    exact ⟨w, .nothing, rfl, flushes_unwritten _ result hbuf hsize
      (.inl ⟨rfl, List.length_eq_zero_iff.mp hempty⟩)⟩
  · split
    · exact ⟨_, .postponed, rfl, flushes_unwritten _ result hbuf hsize (.inr rfl)⟩
    · dsimp only
      generalize w.server.aofDelayedFsync + _ = delayed
      obtain ⟨w', flushed, hrun, h⟩ := @writeBuffer_spec ⟨{ w.server with
        aofDelayedFsync := delayed, aofFlushPostponedStart := 0 }, w.file⟩ b hpolicy hbuf hb hsize
        unixtime result truncated
      exact ⟨w', flushed, hrun, h.state, h.policy, h.moved, h.size, h.status, h.complete, h.runs⟩

end

/-! ### Runs -/

/-- A call, with all that it is told by the clock, the file system and the background thread. -/
inductive AofEvent where
  | feed (cmd : Proc) (dictid : ℤ) (argv : List Bytes) (mstime : ℤ)
  | flush (force pending : Bool) (unixtime : ℤ) (result : WriteResult) (truncated : Bool)

/-- What the calls were for: the bytes fed, and whether the last `write` was complete. -/
structure Log where
  fed : Bytes
  complete : Bool

/-- Whether a `write` of the buffer writes all of it. -/
def WritesAll (s : AofServer) : WriteResult → Prop
  | .failed => False
  | .wrote n => s.aofBuf.sdslen ≤ n

instance (s : AofServer) (result : WriteResult) : Decidable (WritesAll s result) := by
  cases result <;> unfold WritesAll <;> infer_instance

/-- One call; there is none after an `exit`. -/
def aofStep (x : AofWorld × Log) : AofEvent → Option (AofWorld × Log)
  | .feed cmd dictid argv mstime => do
    let server ← feedAppendOnlyFile x.1.server cmd dictid argv mstime
    let bytes ← fedBytes x.1.server.aofSelectedDb cmd dictid argv mstime
    some ({ x.1 with server }, { x.2 with fed := x.2.fed ++ bytes })
  | .flush force pending unixtime result truncated => do
    let (w, flushed) ← flushAppendOnlyFile x.1 force pending unixtime result truncated
    match flushed with
    | .exit => none
    | .nothing | .postponed => some (w, x.2)
    | .failed | .written => some (w, { x.2 with complete := WritesAll x.1.server result })

/-- A server that starts to write at the end of a file. -/
def startAof (s : AofServer) (file : Bytes) : AofWorld × Log :=
  (⟨{ s with
      aofState := .on
      aofBuf := sdsempty
      aofCurrentSize := file.length
      aofLastWriteOk := true }, file⟩, ⟨[], true⟩)

/-- The condition on a call: a command has its arguments, and `aof_buf` stays shorter than 2 GB. -/
def StaysSmall (x : AofWorld × Log) : AofEvent → Prop
  | .feed cmd dictid argv mstime => ∃ bytes,
    fedBytes x.1.server.aofSelectedDb cmd dictid argv mstime = some bytes ∧
      x.1.server.aofBuf.len + bytes.length < 2 ^ 31
  | .flush _ _ _ _ _ => True

/-- The file and the buffer hold the bytes fed, after those that were in the file before. -/
structure Accounted (file : Bytes) (x : AofWorld × Log) : Prop where
  bytes : ∃ b, x.1.server.aofBuf.bytes = some b ∧ x.1.file ++ b = file ++ x.2.fed
  size : x.1.server.aofCurrentSize = x.1.file.length
  status : x.1.server.aofLastWriteOk = true ↔ x.2.complete = true

/-- The invariant of a run. -/
structure Invariant (policy : FsyncPolicy) (file : Bytes) (x : AofWorld × Log) : Prop where
  on : x.1.server.aofState = .on
  policy : x.1.server.aofFsync = policy
  buffer : ∃ b, x.1.server.aofBuf = full b ∧ b.length < 2 ^ 31 ∧ x.1.file ++ b = file ++ x.2.fed
  size : x.1.server.aofCurrentSize = x.1.file.length
  status : x.1.server.aofLastWriteOk = x.2.complete

section
variable {policy : FsyncPolicy} {file : Bytes} {x : AofWorld × Log}

theorem Invariant.accounted (h : Invariant policy file x) : Accounted file x := by
  obtain ⟨b, hbuf, hb, hfile⟩ := h.buffer
  exact ⟨⟨b, by rw [hbuf, bytes_full hb], hfile⟩, h.size, by rw [h.status]⟩

theorem invariant_feed (h : Invariant policy file x) {cmd : Proc} {dictid mstime : ℤ}
    {argv : List Bytes} (hsmall : StaysSmall x (.feed cmd dictid argv mstime)) :
    ∃ x', aofStep x (.feed cmd dictid argv mstime) = some x' ∧ Invariant policy file x' := by
  obtain ⟨b, hbuf, hb, hfile⟩ := h.buffer
  obtain ⟨bytes, hfed, hlen⟩ := hsmall
  rw [hbuf, len_full] at hlen
  obtain ⟨server, hrun, hstate, hfsync, hsize, hstatus, -, hbuf'⟩ := feed_small h.on hbuf hfed
    (by omega)
  refine ⟨({ x.1 with server }, { x.2 with fed := x.2.fed ++ bytes }), ?_, hstate.trans h.on,
    hfsync.trans h.policy, ⟨b ++ bytes, hbuf', by rw [List.length_append]; omega, ?_⟩,
    hsize.trans h.size, hstatus.trans h.status⟩
  · rw [aofStep, hrun, hfed]
    rfl
  · rw [← List.append_assoc, hfile, List.append_assoc]

theorem invariant_flush (hpolicy : policy ≠ .always) (h : Invariant policy file x)
    (force pending : Bool) (unixtime : ℤ) (result : WriteResult) (truncated : Bool) :
    ∃ x', aofStep x (.flush force pending unixtime result truncated) = some x' ∧
      Invariant policy file x' := by
  obtain ⟨b, hbuf, hb, hfile⟩ := h.buffer
  obtain ⟨w', flushed, hrun, hw'⟩ := flush_spec (h.policy ▸ hpolicy) hbuf hb h.size force pending
    unixtime result truncated
  have hall : WritesAll x.1.server result ↔ ∃ n, result = .wrote n ∧ b.length ≤ n := by
    cases result with
    | failed => exact iff_of_false nofun nofun
    | wrote n =>
      rw [WritesAll, hbuf, sdslen_full hb]
      exact ⟨fun hle => ⟨n, rfl, hle⟩, fun ⟨m, hm, hle⟩ => by cases hm; exact hle⟩
  have hbuffer : ∃ b, w'.server.aofBuf = full b ∧ b.length < 2 ^ 31 ∧
      w'.file ++ b = file ++ x.2.fed := by
    obtain ⟨a, c, rfl, hfile', hbuf', -⟩ := hw'.moved
    rw [List.length_append] at hb
    exact ⟨c, hbuf', by omega, by rw [hfile', List.append_assoc, hfile]⟩
  have hinv : ∀ complete, w'.server.aofLastWriteOk = complete →
      Invariant policy file (w', { x.2 with complete }) := fun complete hcomplete =>
    ⟨hw'.state.trans h.on, hw'.policy.trans h.policy, hbuffer, hw'.size, hcomplete⟩
  rw [aofStep, hrun, Option.bind_eq_bind, Option.bind_some]
  have hstatus := hw'.status
  cases flushed with
  | exit => exact absurd rfl hw'.runs
  | nothing => exact ⟨_, rfl, hinv x.2.complete (hstatus.trans h.status)⟩
  | postponed => exact ⟨_, rfl, hinv x.2.complete (hstatus.trans h.status)⟩
  | failed =>
    refine ⟨_, rfl, hinv _ (hstatus.trans (decide_eq_false ?_).symm)⟩
    rw [hall, ← hw'.complete (.inr rfl)]
    exact nofun
  | written =>
    exact ⟨_, rfl, hinv _ (hstatus.trans (decide_eq_true
      (hall.mpr ((hw'.complete (.inl rfl)).mp rfl))).symm)⟩

theorem invariant_step (hpolicy : policy ≠ .always) {e : AofEvent} (h : Invariant policy file x)
    (hsmall : StaysSmall x e) : ∃ x', aofStep x e = some x' ∧ Invariant policy file x' := by
  cases e with
  | feed cmd dictid argv mstime => exact invariant_feed h hsmall
  | flush force pending unixtime result truncated =>
    exact invariant_flush hpolicy h force pending unixtime result truncated

theorem invariant_start (s : AofServer) (file : Bytes) :
    Invariant s.aofFsync file (startAof s file) :=
  ⟨rfl, rfl, ⟨[], rfl, by decide, rfl⟩, rfl, rfl⟩

/-- A flush that is not postponed and does not fail leaves nothing in the buffer. -/
theorem flush_empties (hpolicy : policy ≠ .always) (h : Invariant policy file x)
    (force pending : Bool) (unixtime : ℤ) (result : WriteResult) (truncated : Bool) :
    ∃ w' flushed, flushAppendOnlyFile x.1 force pending unixtime result truncated
      = some (w', flushed) ∧
      (flushed ≠ .postponed → flushed ≠ .failed → w'.server.aofBuf.bytes = some []) := by
  obtain ⟨b, hbuf, hb, -⟩ := h.buffer
  obtain ⟨w', flushed, hrun, hw'⟩ := flush_spec (h.policy ▸ hpolicy) hbuf hb h.size force pending
    unixtime result truncated
  refine ⟨w', flushed, hrun, fun hpostponed hfailed => ?_⟩
  obtain ⟨a, c, -, -, hbuf', hempty⟩ := hw'.moved
  have hdone : flushed = .nothing ∨ flushed = .written := by
    cases flushed with
    | nothing => exact .inl rfl
    | written => exact .inr rfl
    | postponed => exact absurd rfl hpostponed
    | failed => exact absurd rfl hfailed
    | exit => exact absurd rfl hw'.runs
  rw [hbuf', hempty hdone]
  exact bytes_full (by decide)

end

/-! ### Results -/

/-- In every run in which `aof_buf` stays shorter than 2 GB, whatever the clock, the writes, the
truncations and the background thread do: nothing is lost or written twice, and a flush leaves the
buffer empty unless it is postponed or fails. -/
theorem aof_writes (s : AofServer) (hpolicy : s.aofFsync ≠ .always) (file : Bytes)
    {es : List AofEvent} (hsmall : Runs.AllSteps aofStep StaysSmall (startAof s file) es) :
    ∃ x, Runs.run aofStep (startAof s file) es = some x ∧ Accounted file x ∧
      ∀ force pending unixtime result truncated, ∃ w' flushed,
        flushAppendOnlyFile x.1 force pending unixtime result truncated = some (w', flushed) ∧
        (flushed ≠ .postponed → flushed ≠ .failed → w'.server.aofBuf.bytes = some []) := by
  obtain ⟨x, hrun, hx⟩ := Runs.run_total_of_allSteps
    (fun x e h hsmall => invariant_step hpolicy h hsmall) (invariant_start s file) hsmall
  exact ⟨x, hrun, hx.accounted, flush_empties hpolicy hx⟩

/-- A server with the policy `everysec`. -/
def everysecServer : AofServer where
  aofState := .on
  aofFsync := .everysec
  aofNoFsyncOnRewrite := false
  aofChild := false
  rdbChild := false
  aofBuf := sdsempty
  aofRewriteBufBlocks := []
  aofSelectedDb := 0
  aofCurrentSize := 0
  aofLastWriteOk := true
  aofFlushPostponedStart := 0
  aofDelayedFsync := 0
  aofLastFsync := 0

/-- `SET a …`, fed for the database 0. -/
def feedSet (val : Bytes) : AofEvent := .feed .other 0 [ascii ['S', 'E', 'T'], [97], val] 0

/-- `SET a b`, of which five bytes are written that cannot be truncated. -/
theorem aof_writes_short : ∃ x, Runs.run aofStep (startAof everysecServer [])
    [feedSet [98], .flush false false 5 (.wrote 5) false] = some x ∧ Accounted [] x := by
  have hsmall : Runs.AllSteps aofStep StaysSmall (startAof everysecServer [])
      [feedSet [98], .flush false false 5 (.wrote 5) false] :=
    ⟨⟨_, rfl, by decide⟩, fun _ _ => ⟨trivial, fun _ _ => trivial⟩⟩
  obtain ⟨x, hrun, hx, -⟩ := aof_writes everysecServer (by decide) [] hsmall
  exact ⟨x, hrun, hx⟩

theorem length_set {val : Bytes} (h : val.length = 2 ^ 29) :
    (encode [ascii ['S', 'E', 'T'], [97], val]).length = 536870946 := by
  simp only [encode, List.flatMap_cons, List.flatMap_nil, List.length_append, List.length_cons,
    List.length_nil, h]
  decide

theorem step_feedSet {x : AofWorld × Log} {b val : Bytes} (hon : x.1.server.aofState = .on)
    (hbuf : x.1.server.aofBuf = full b) (hdb : x.1.server.aofSelectedDb = 0)
    (hlen : b.length + (encode [ascii ['S', 'E', 'T'], [97], val]).length < 2 ^ 31) :
    ∃ x', aofStep x (feedSet val) = some x' ∧ x'.1.server.aofState = .on ∧
      x'.1.server.aofBuf = full (b ++ encode [ascii ['S', 'E', 'T'], [97], val]) ∧
      x'.1.server.aofSelectedDb = 0 := by
  have hfed : fedBytes x.1.server.aofSelectedDb .other 0 [ascii ['S', 'E', 'T'], [97], val] 0
      = some (encode [ascii ['S', 'E', 'T'], [97], val]) := by
    rw [hdb]
    rfl
  obtain ⟨server, hrun, hstate, -, -, -, hdb', hbuf'⟩ := feed_small hon hbuf hfed hlen
  refine ⟨({ x.1 with server }, { x.2 with
    fed := x.2.fed ++ encode [ascii ['S', 'E', 'T'], [97], val] }), ?_, hstate.trans hon, hbuf',
    hdb'⟩
  rw [feedSet, aofStep, hrun, hfed]
  rfl

theorem step_feedSet_long {x : AofWorld × Log} {b val : Bytes} (hon : x.1.server.aofState = .on)
    (hbuf : x.1.server.aofBuf = full b) (hdb : x.1.server.aofSelectedDb = 0)
    (hset : (encode [ascii ['S', 'E', 'T'], [97], val]).length < 2 ^ 31)
    (hmin : 2 ^ 31 ≤ b.length + (encode [ascii ['S', 'E', 'T'], [97], val]).length)
    (hb : b.length < 2 ^ 31) :
    ∃ x', aofStep x (feedSet val) = some x' ∧ x'.1.server.aofBuf.bytes = none := by
  have hfed : fedBytes x.1.server.aofSelectedDb .other 0 [ascii ['S', 'E', 'T'], [97], val] 0
      = some (encode [ascii ['S', 'E', 'T'], [97], val]) := by
    rw [hdb]
    rfl
  refine ⟨({ x.1 with
      server := afterFeed x.1.server b (encode [ascii ['S', 'E', 'T'], [97], val]) 0 },
    { x.2 with fed := x.2.fed ++ encode [ascii ['S', 'E', 'T'], [97], val] }), ?_, ?_⟩
  · rw [feedSet, aofStep, feed_spec hon hbuf hfed hset, hfed]
    rfl
  · generalize encode [ascii ['S', 'E', 'T'], [97], val] = bytes at hset hmin ⊢
    obtain ⟨k, hk⟩ : ∃ k, (b.length + bytes.length : ℤ).bmod (2 ^ 32) = k := ⟨_, rfl⟩
    have hneg : k = b.length + bytes.length - 2 ^ 32 := by
      rw [← hk, ← Int.sub_bmod_right, Int.bmod_eq_of_le] <;> push_cast <;> omega
    rw [afterFeed, hk, Sds.bytes, slice, if_neg]
    dsimp only [Sds.sdslen]
    rw [List.length_append]
    omega

/-- After four values of 512 MB the length of `aof_buf` is negative. -/
theorem aof_writes_long : ∃ x, Runs.run aofStep (startAof everysecServer [])
    (List.replicate 4 (feedSet (List.replicate (2 ^ 29) 97))) = some x ∧ ¬ Accounted [] x := by
  have hval : (List.replicate (2 ^ 29) (97 : UInt8)).length = 2 ^ 29 := List.length_replicate
  generalize List.replicate (2 ^ 29) (97 : UInt8) = val at hval ⊢
  have hlen := length_set hval
  obtain ⟨x₁, hrun₁, hon₁, hbuf₁, hdb₁⟩ := @step_feedSet (startAof everysecServer []) [] val rfl rfl
    rfl (by rw [hlen]; decide)
  obtain ⟨x₂, hrun₂, hon₂, hbuf₂, hdb₂⟩ := @step_feedSet x₁ _ val hon₁ hbuf₁ hdb₁
    (by rw [List.nil_append, hlen]; decide)
  obtain ⟨x₃, hrun₃, hon₃, hbuf₃, hdb₃⟩ := @step_feedSet x₂ _ val hon₂ hbuf₂ hdb₂
    (by rw [List.nil_append, List.length_append, hlen]; decide)
  obtain ⟨x₄, hrun₄, hbytes⟩ := @step_feedSet_long x₃ _ val hon₃ hbuf₃ hdb₃
    (by rw [hlen]; decide)
    (by rw [List.nil_append, List.length_append, List.length_append, hlen]; decide)
    (by rw [List.nil_append, List.length_append, List.length_append, hlen]; decide)
  refine ⟨x₄, ?_, fun h => ?_⟩
  · rw [List.replicate, List.replicate, List.replicate, List.replicate, List.replicate,
      Runs.run, hrun₁, Option.bind_some, Runs.run, hrun₂, Option.bind_some, Runs.run, hrun₃,
      Option.bind_some, Runs.run, hrun₄]
    rfl
  · obtain ⟨b, hb, -⟩ := h.bytes
    cases hbytes.symm.trans hb

end Aof

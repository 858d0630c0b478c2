/-
The replication backlog (`replication.c`).

The backlog is a circular buffer that holds the newest bytes of the replication stream.  A
slave that comes back asks for the stream from an offset on, and gets it if the backlog still
holds those bytes.

* `createReplicationBacklog`, `resizeReplicationBacklog`, `freeReplicationBacklog`,
  `feedReplicationBacklog` — the buffer and the offsets;
* `acceptsOffset`, `addReplyReplicationBacklog` — what a slave gets;
* `Backlog.window` — the bytes the buffer holds, from the oldest to the newest;
* `feedReplicationBacklog_eq`, `addReplyReplicationBacklog_eq` — the circular indexes in terms
  of the window;
* `Stream.Ok` — what every operation keeps.
-/
import Mathlib.Data.Int.Notation
import RedisModel.ByteBuffer

open ByteBuffer

namespace Replication

/-- The backlog in `redisServer`: `repl_backlog` with its index, length and first offset. -/
structure Backlog where
  buf : Bytes
  idx : ℕ
  histlen : ℕ
  off : ℤ
  deriving DecidableEq

/-- The part of `redisServer` that numbers the stream.  A backlog that is not there is `NULL`. -/
structure Stream where
  masterReplOffset : ℤ
  replBacklogSize : ℕ
  replBacklog : Option Backlog
  deriving DecidableEq

/-- `REDIS_REPL_BACKLOG_MIN_SIZE`. -/
def backlogMinSize : ℕ := 1024 * 16

/-- A buffer without data, whose first byte will be the next one of the stream. -/
def emptyBacklog (junk : ℕ → UInt8) (size : ℕ) (masterReplOffset : ℤ) : Backlog where
  buf := realloc junk [] size
  idx := 0
  histlen := 0
  off := masterReplOffset + 1

/-- `createReplicationBacklog`, which asserts that there is none. -/
def createReplicationBacklog (junk : ℕ → UInt8) (s : Stream) : Option Stream :=
  match s.replBacklog with
  | some _ => none
  | none =>
    let offset := s.masterReplOffset + 1
    some { s with
      masterReplOffset := offset
      replBacklog := some (emptyBacklog junk s.replBacklogSize offset) }

def resizeReplicationBacklog (junk : ℕ → UInt8) (s : Stream) (newsize : ℤ) : Stream :=
  let newsize := if newsize < backlogMinSize then backlogMinSize else newsize.toNat
  if s.replBacklogSize = newsize then s
  else { s with
    replBacklogSize := newsize
    replBacklog := s.replBacklog.map fun _ => emptyBacklog junk newsize s.masterReplOffset }

def freeReplicationBacklog (s : Stream) : Stream := { s with replBacklog := none }

/-- The loop of `feedReplicationBacklog`.  A round copies what fits up to the end of the
buffer; `none` is a round that copies nothing, after which the loop never ends. -/
def feedLoop (size : ℕ) : ℕ → Backlog → Bytes → Option Backlog
  | _, b, [] => some b
  | 0, _, _ :: _ => none
  | rounds + 1, b, c :: p =>
    let thislen := min (size - b.idx) (c :: p).length
    (store b.buf b.idx ((c :: p).take thislen)).bind fun buf =>
      let idx := b.idx + thislen
      feedLoop size rounds
        { b with
          buf := buf
          idx := if idx = size then 0 else idx
          histlen := b.histlen + thislen }
        ((c :: p).drop thislen)

/-- `feedReplicationBacklog`, which is only called when there is a backlog. -/
def feedReplicationBacklog (s : Stream) (p : Bytes) : Option Stream :=
  s.replBacklog.bind fun b =>
    let offset := s.masterReplOffset + p.length
    (feedLoop s.replBacklogSize p.length b p).map fun b =>
      let histlen := min b.histlen s.replBacklogSize
      { s with
        masterReplOffset := offset
        replBacklog := some { b with histlen := histlen, off := offset - histlen + 1 } }

/-- The test of `masterTryPartialResynchronization` on the offset. -/
def acceptsOffset (s : Stream) (psyncOffset : ℤ) : Bool :=
  match s.replBacklog with
  | none => false
  | some b => ¬ (psyncOffset < b.off ∨ psyncOffset > b.off + b.histlen)

/-- The loop of `addReplyReplicationBacklog`: `len` bytes from `j` on, in two parts when they
cross the end of the buffer. -/
def replyLoop (buf : Bytes) (size : ℕ) : ℕ → ℕ → ℕ → Option Bytes
  | _, _, 0 => some []
  | 0, _, _ + 1 => none
  | rounds + 1, j, len + 1 =>
    let thislen := if size - j < len + 1 then size - j else len + 1
    (slice buf j thislen).bind fun part =>
      (replyLoop buf size rounds 0 (len + 1 - thislen)).map (part ++ ·)

/-- `addReplyReplicationBacklog`: the bytes it sends, and the number it returns. -/
def addReplyReplicationBacklog (s : Stream) (offset : ℤ) : Option (Bytes × ℤ) :=
  s.replBacklog.bind fun b =>
    if b.histlen = 0 then some ([], 0)
    else
      let skip := (offset - b.off).toNat
      let j := (b.idx + (s.replBacklogSize - b.histlen)) % s.replBacklogSize
      let j := (j + skip) % s.replBacklogSize
      let len := b.histlen - skip
      (replyLoop b.buf s.replBacklogSize len j len).map fun bytes => (bytes, len)

/-! ### The window of the buffer -/

/-- All bytes of the buffer, starting with the one that is overwritten next. -/
def Backlog.rotated (b : Backlog) : Bytes := b.buf.drop b.idx ++ b.buf.take b.idx

/-- The bytes the backlog holds, from the oldest to the newest. -/
def Backlog.window (b : Backlog) : Bytes := b.rotated.drop (b.buf.length - b.histlen)

/-- The buffer is as large as it should be and its index is inside. -/
structure Backlog.Fits (b : Backlog) (size : ℕ) : Prop where
  length : b.buf.length = size
  idx : b.idx < size

@[simp] theorem Backlog.length_rotated (b : Backlog) : b.rotated.length = b.buf.length := by
  simp only [Backlog.rotated, List.length_append, List.length_drop, List.length_take]
  omega

theorem Backlog.length_window {b : Backlog} (h : b.histlen ≤ b.buf.length) :
    b.window.length = b.histlen := by
  simp only [Backlog.window, List.length_drop, Backlog.length_rotated]
  omega

theorem emptyBacklog_fits (junk : ℕ → UInt8) {size : ℕ} (h : 0 < size) (offset : ℤ) :
    (emptyBacklog junk size offset).Fits size where
  length := length_realloc junk [] size
  idx := h

@[simp] theorem emptyBacklog_window (junk : ℕ → UInt8) (size : ℕ) (offset : ℤ) :
    (emptyBacklog junk size offset).window = [] := by
  refine List.drop_eq_nil_of_le ?_
  simp [emptyBacklog]

theorem rotated_store {b : Backlog} {buf chunk : Bytes} {size : ℕ} (hfits : b.Fits size)
    (hstore : store b.buf b.idx chunk = some buf) (hlen : b.idx + chunk.length ≤ size) :
    buf.drop (if b.idx + chunk.length = size then 0 else b.idx + chunk.length) ++
        buf.take (if b.idx + chunk.length = size then 0 else b.idx + chunk.length) =
      (b.rotated ++ chunk).drop chunk.length := by
  obtain ⟨hlength, hidx⟩ := hfits
  have hbuf : buf = b.buf.take b.idx ++ chunk ++ b.buf.drop (b.idx + chunk.length) := by
    rw [store, if_pos (by omega)] at hstore
    exact (Option.some_inj.mp hstore).symm
  have htake : (b.buf.take b.idx ++ chunk).length = b.idx + chunk.length := by
    rw [List.length_append, List.length_take]
    omega
  have hdrop : (b.rotated ++ chunk).drop chunk.length =
      b.buf.drop (b.idx + chunk.length) ++ (b.buf.take b.idx ++ chunk) := by
    rw [Backlog.rotated, List.append_assoc, List.drop_append_of_le_length, List.drop_drop]
    rw [List.length_drop]
    omega
  rw [hdrop, hbuf]
  split
  next hend =>
    -- the index goes back to the start of the buffer
    have hnil : b.buf.drop (b.idx + chunk.length) = [] := List.drop_eq_nil_of_le (by omega)
    rw [hnil, List.drop_zero, List.take_zero, List.append_nil, List.append_nil, List.nil_append]
  next => rw [List.drop_left' htake, List.take_left' htake]

theorem feedLoop_eq {size : ℕ} : ∀ (rounds : ℕ) {b : Backlog} {p : Bytes}, b.Fits size →
    p.length ≤ rounds → ∃ b', feedLoop size rounds b p = some b' ∧ b'.Fits size ∧
      b'.rotated = (b.rotated ++ p).drop p.length ∧ b'.histlen = b.histlen + p.length
  | _, b, [], hfits, _ => ⟨b, by rw [feedLoop.eq_def], hfits, by simp, rfl⟩
  | 0, _, _ :: _, _, h => by simp at h
  | rounds + 1, b, c :: p, hfits, h => by
    obtain ⟨hlength, hidx⟩ := hfits
    set thislen := min (size - b.idx) (c :: p).length with hthis
    have hpos : 0 < thislen := by
      rw [hthis, List.length_cons]
      omega
    have htake : ((c :: p).take thislen).length = thislen := by
      rw [List.length_take]
      omega
    have hdrop : ((c :: p).drop thislen).length = (c :: p).length - thislen := List.length_drop
    have hstore : store b.buf b.idx ((c :: p).take thislen) =
        some (b.buf.take b.idx ++ (c :: p).take thislen ++
          b.buf.drop (b.idx + ((c :: p).take thislen).length)) := by
      rw [store, if_pos (by omega)]
    have hrot := rotated_store ⟨hlength, hidx⟩ hstore (by omega)
    have hlen' := length_of_store hstore
    simp only [htake] at hstore hrot hlen'
    -- what is left of the input after the first round
    obtain ⟨b₁, hb₁⟩ : ∃ b₁ : Backlog, b₁ = { b with
        buf := b.buf.take b.idx ++ (c :: p).take thislen ++ b.buf.drop (b.idx + thislen)
        idx := if b.idx + thislen = size then 0 else b.idx + thislen
        histlen := b.histlen + thislen } := ⟨_, rfl⟩
    have hfits₁ : b₁.Fits size := by
      rw [hb₁]
      constructor
      · dsimp only
        omega
      · dsimp only
        split <;> omega
    have hrot₁ : b₁.rotated = (b.rotated ++ (c :: p).take thislen).drop thislen := by
      rw [hb₁]
      exact hrot
    obtain ⟨b', hb', hfits', hrot', hhist'⟩ := feedLoop_eq rounds hfits₁
      (p := (c :: p).drop thislen) (by rw [hdrop]; omega)
    refine ⟨b', ?_, hfits', ?_, ?_⟩
    · rw [feedLoop, ← hthis, hstore, Option.bind_some]
      rw [hb₁] at hb'
      exact hb'
    · rw [hrot', hdrop, hrot₁, ← List.drop_append_of_le_length, List.append_assoc,
        List.take_append_drop, List.drop_drop, Nat.add_sub_cancel' (by omega)]
      rw [List.length_append, htake]
      omega
    · rw [hhist', hdrop, hb₁]
      dsimp only
      omega

theorem feedReplicationBacklog_eq {s : Stream} {b : Backlog} (hb : s.replBacklog = some b)
    (hfits : b.Fits s.replBacklogSize) (hhist : b.histlen ≤ s.replBacklogSize) (p : Bytes) :
    ∃ b', feedReplicationBacklog s p = some { s with
        masterReplOffset := s.masterReplOffset + p.length
        replBacklog := some b' } ∧
      b'.Fits s.replBacklogSize ∧ b'.histlen = min (b.histlen + p.length) s.replBacklogSize ∧
      b'.off = s.masterReplOffset + p.length - b'.histlen + 1 ∧
      b'.window = (b.window ++ p).drop (b.histlen + p.length - b'.histlen) := by
  obtain ⟨b', hloop, hfits', hrot, hlen⟩ := feedLoop_eq p.length hfits le_rfl
  refine ⟨{ b' with
    histlen := min b'.histlen s.replBacklogSize
    off := s.masterReplOffset + p.length - (min b'.histlen s.replBacklogSize : ℕ) + 1 },
    ?_, ⟨hfits'.length, hfits'.idx⟩, by rw [hlen], rfl, ?_⟩
  · rw [feedReplicationBacklog, hb, Option.bind_some, hloop]
    rfl
  · have hrot' : Backlog.rotated { b' with
        histlen := min b'.histlen s.replBacklogSize
        off := s.masterReplOffset + p.length - (min b'.histlen s.replBacklogSize : ℕ) + 1 } =
        (b.rotated ++ p).drop p.length := hrot
    rw [Backlog.window, hrot', Backlog.window, ← List.drop_append_of_le_length
      (by rw [Backlog.length_rotated]; omega), List.drop_drop, List.drop_drop]
    congr 1
    dsimp only
    rw [hfits'.length, hfits.length, hlen]
    omega

theorem replyLoop_eq {b : Backlog} {size k len : ℕ} (hfits : b.Fits size)
    (hk : k + len = size) (hlen : 0 < len) :
    replyLoop b.buf size len ((b.idx + k) % size) len = some (b.rotated.drop k) := by
  obtain ⟨hlength, hidx⟩ := hfits
  obtain ⟨n, rfl⟩ : ∃ n, len = n + 1 := ⟨len - 1, by omega⟩
  by_cases hwrap : b.idx + k < size
  · -- the bytes start before the end of the buffer, and go on at its start
    have hj : (b.idx + k) % size = b.idx + k := Nat.mod_eq_of_lt hwrap
    have hdrop : b.rotated.drop k = b.buf.drop (b.idx + k) ++ b.buf.take b.idx := by
      rw [Backlog.rotated, List.drop_append_of_le_length, List.drop_drop]
      rw [List.length_drop]
      omega
    rw [hj, hdrop, replyLoop]
    split
    next hlt =>
      have hfirst : slice b.buf (b.idx + k) (size - (b.idx + k)) =
          some (b.buf.drop (b.idx + k)) := by
        rw [slice, if_pos (by omega), List.take_of_length_le]
        rw [List.length_drop]
        omega
      have hsecond : replyLoop b.buf size n 0 (n + 1 - (size - (b.idx + k))) =
          some (b.buf.take b.idx) := by
        obtain ⟨m, hm⟩ : ∃ m, n + 1 - (size - (b.idx + k)) = m + 1 :=
          ⟨n - (size - (b.idx + k)), by omega⟩
        obtain ⟨n', rfl⟩ : ∃ n', n = n' + 1 := ⟨n - 1, by omega⟩
        rw [hm, replyLoop, if_neg (by omega), slice, if_pos (by omega), Option.bind_some, Nat.sub_self, replyLoop,
          Option.map_some, List.append_nil, List.drop_zero, show m + 1 = b.idx by omega]
      rw [hfirst, Option.bind_some, hsecond, Option.map_some]
    next hlt =>
      have hzero : b.idx = 0 := by omega
      rw [slice, if_pos (by omega), Option.bind_some, Nat.sub_self, replyLoop, Option.map_some,
        List.append_nil, hzero, List.take_zero, List.append_nil, List.take_of_length_le]
      rw [List.length_drop]
      omega
  · -- the bytes end where the next one will be written
    have hj : (b.idx + k) % size = b.idx + k - size := by
      rw [Nat.mod_eq_sub_mod (by omega), Nat.mod_eq_of_lt (by omega)]
    have hdrop : b.rotated.drop k = (b.buf.take b.idx).drop (b.idx + k - size) := by
      rw [Backlog.rotated, List.drop_append, List.drop_eq_nil_of_le, List.nil_append,
        List.length_drop, show k - (b.buf.length - b.idx) = b.idx + k - size by omega]
      rw [List.length_drop]
      omega
    rw [hj, hdrop, replyLoop, if_neg (by omega), slice, if_pos (by omega), Option.bind_some, Nat.sub_self, replyLoop,
      Option.map_some, List.append_nil, List.drop_take, show b.idx - (b.idx + k - size) = n + 1 by
        omega]

theorem addReplyReplicationBacklog_eq {s : Stream} {b : Backlog} (hb : s.replBacklog = some b)
    (hfits : b.Fits s.replBacklogSize) (hhist : b.histlen ≤ s.replBacklogSize) {offset : ℤ}
    (haccepts : acceptsOffset s offset = true) :
    addReplyReplicationBacklog s offset =
      some (b.window.drop (offset - b.off).toNat, b.off + b.histlen - offset) := by
  have hrange : b.off ≤ offset ∧ offset ≤ b.off + b.histlen := by
    simpa [acceptsOffset, hb, not_or] using haccepts
  rw [addReplyReplicationBacklog, hb, Option.bind_some]
  split
  next hzero =>
    have hnil : b.window = [] := by
      rw [← List.length_eq_zero_iff, Backlog.length_window (by rw [hfits.length]; omega), hzero]
    rw [hnil, List.drop_nil, show b.off + (b.histlen : ℤ) - offset = 0 by omega]
  next hpos =>
    dsimp only
    set skip := (offset - b.off).toNat with hskip
    have hle : skip ≤ b.histlen := by omega
    have hsize : 0 < s.replBacklogSize := by omega
    have hj : ((b.idx + (s.replBacklogSize - b.histlen)) % s.replBacklogSize + skip) %
        s.replBacklogSize =
          (b.idx + (s.replBacklogSize - b.histlen + skip)) % s.replBacklogSize := by
      rw [Nat.mod_add_mod, Nat.add_assoc]
    rw [hj]
    have hdrop : b.window.drop skip = b.rotated.drop (s.replBacklogSize - b.histlen + skip) := by
      rw [Backlog.window, List.drop_drop, hfits.length]
    rcases Nat.eq_zero_or_pos (b.histlen - skip) with hend | hlen
    · have hnil : b.window.drop skip = [] := by
        refine List.drop_eq_nil_of_le ?_
        rw [Backlog.length_window (by rw [hfits.length]; omega)]
        omega
      rw [hend, replyLoop.eq_def, hnil, show b.off + (b.histlen : ℤ) - offset = 0 by omega]
      rfl
    · rw [replyLoop_eq hfits (by omega) hlen, hdrop, Option.map_some,
        show ((b.histlen - skip : ℕ) : ℤ) = b.off + b.histlen - offset by omega]

theorem resizeReplicationBacklog_eq (junk : ℕ → UInt8) (s : Stream) (newsize : ℤ) :
    resizeReplicationBacklog junk s newsize = s ∨ ∃ size, 0 < size ∧
      resizeReplicationBacklog junk s newsize = { s with
        replBacklogSize := size
        replBacklog := s.replBacklog.map fun _ => emptyBacklog junk size s.masterReplOffset } := by
  have hpos : 0 < if newsize < backlogMinSize then backlogMinSize else newsize.toNat := by
    rw [backlogMinSize]
    split <;> omega
  by_cases hsame : s.replBacklogSize =
      if newsize < backlogMinSize then backlogMinSize else newsize.toNat
  · exact .inl (if_pos hsame)
  · exact .inr ⟨_, hpos, if_neg hsame⟩

/-! ### What the operations keep -/

/-- The buffer is well formed, and ends with the newest byte of the stream. -/
structure Stream.Ok (s : Stream) : Prop where
  size : 0 < s.replBacklogSize
  backlog : ∀ b, s.replBacklog = some b → b.Fits s.replBacklogSize ∧
    b.histlen ≤ s.replBacklogSize ∧ b.off = s.masterReplOffset - b.histlen + 1

theorem Stream.Ok.create {s s' : Stream} (h : s.Ok) {junk : ℕ → UInt8}
    (hs : createReplicationBacklog junk s = some s') : s'.Ok := by
  rw [createReplicationBacklog] at hs
  split at hs
  next => cases hs
  next =>
    obtain rfl := Option.some_inj.mp hs
    refine ⟨h.size, fun b hb => ?_⟩
    obtain rfl := Option.some_inj.mp hb
    exact ⟨emptyBacklog_fits junk h.size _, Nat.zero_le _, by simp [emptyBacklog]⟩

theorem Stream.Ok.resize {s : Stream} (h : s.Ok) (junk : ℕ → UInt8) (newsize : ℤ) :
    (resizeReplicationBacklog junk s newsize).Ok := by
  rcases resizeReplicationBacklog_eq junk s newsize with heq | ⟨size, hpos, heq⟩
  · rw [heq]
    exact h
  · rw [heq]
    refine ⟨hpos, fun b hb => ?_⟩
    obtain ⟨_, _, rfl⟩ := Option.map_eq_some_iff.mp hb
    exact ⟨emptyBacklog_fits junk hpos _, Nat.zero_le _, by simp [emptyBacklog]⟩

theorem Stream.Ok.free {s : Stream} (h : s.Ok) : (freeReplicationBacklog s).Ok :=
  ⟨h.size, fun b hb => by cases hb⟩

theorem Stream.Ok.feed {s : Stream} (h : s.Ok) (hsome : s.replBacklog ≠ none) (p : Bytes) :
    ∃ s', feedReplicationBacklog s p = some s' ∧ s'.Ok ∧ s'.replBacklog ≠ none := by
  obtain ⟨b, hb⟩ := Option.ne_none_iff_exists'.mp hsome
  obtain ⟨hfits, hhist, -⟩ := h.backlog b hb
  obtain ⟨b', hfeed, hfits', hhist', hoff', -⟩ := feedReplicationBacklog_eq hb hfits hhist p
  refine ⟨_, hfeed, ⟨h.size, fun c hc => ?_⟩, Option.some_ne_none _⟩
  obtain rfl := Option.some_inj.mp hc
  refine ⟨hfits', ?_, hoff'⟩
  dsimp only
  omega

end Replication

/-
Histories of the replication backlog.

* `History` — the stream of the server, with every byte that was ever fed and its offset;
* `Tracks` — the invariant: the backlog holds the end of what was fed;
* `run_backlog` — after every run of creations, feeds, resizes and frees the backlog is a window
  of the stream, and an accepted offset gets the stream from there on.
-/
import RedisModel.Backlog
import RedisModel.Runs

open ByteBuffer Runs

namespace Replication

/-- A server's stream.  `fed` are the bytes fed so far with their offsets, `created` the
offsets at which a backlog was created. -/
structure History where
  stream : Stream
  fed : List (ℤ × UInt8)
  created : List ℤ

inductive BacklogEvent where
  | create (junk : ℕ → UInt8)
  | feed (p : Bytes)
  | resize (junk : ℕ → UInt8) (newsize : ℤ)
  | free

/-- `count` offsets in a row. -/
def offsetsFrom (o : ℤ) : ℕ → List ℤ
  | 0 => []
  | count + 1 => o :: offsetsFrom (o + 1) count

/-- The bytes of a chunk with their offsets, the first one being `o`. -/
def numbered (o : ℤ) (p : Bytes) : List (ℤ × UInt8) := (offsetsFrom o p.length).zip p

/-- `REDIS_DEFAULT_REPL_BACKLOG_SIZE`. -/
def defaultBacklogSize : ℕ := 1024 * 1024

/-- A server that was just started. -/
def initHistory : History where
  stream := { masterReplOffset := 0, replBacklogSize := defaultBacklogSize, replBacklog := none }
  fed := []
  created := []

/-- One operation on the backlog.  It is created only when there is none, and fed only when
there is one. -/
def backlogStep (h : History) : BacklogEvent → Option History
  | .create junk => (createReplicationBacklog junk h.stream).map fun stream =>
    { h with stream := stream, created := h.stream.masterReplOffset :: h.created }
  | .feed p => (feedReplicationBacklog h.stream p).map fun stream =>
    { h with stream := stream, fed := h.fed ++ numbered (h.stream.masterReplOffset + 1) p }
  | .resize junk newsize =>
    some { h with stream := resizeReplicationBacklog junk h.stream newsize }
  | .free => some { h with stream := freeReplicationBacklog h.stream }

@[simp] theorem length_offsetsFrom (o : ℤ) (count : ℕ) :
    (offsetsFrom o count).length = count := by
  induction count generalizing o with
  | zero => rfl
  | succ count ih => rw [offsetsFrom, List.length_cons, ih]

theorem offsetsFrom_add (o : ℤ) (m n : ℕ) :
    offsetsFrom o (m + n) = offsetsFrom o m ++ offsetsFrom (o + m) n := by
  induction m generalizing o with
  | zero => simp [offsetsFrom]
  | succ m ih =>
    rw [Nat.succ_add, offsetsFrom, offsetsFrom, List.cons_append, ih,
      show o + 1 + (m : ℤ) = o + ((m + 1 : ℕ) : ℤ) by omega]

theorem offsetsFrom_drop (o : ℤ) {m n : ℕ} (h : m ≤ n) :
    (offsetsFrom o n).drop m = offsetsFrom (o + m) (n - m) := by
  obtain ⟨k, rfl⟩ := Nat.exists_eq_add_of_le h
  rw [offsetsFrom_add, List.drop_left' (length_offsetsFrom o m), Nat.add_sub_cancel_left]

theorem mem_offsetsFrom {o x : ℤ} {count : ℕ} :
    x ∈ offsetsFrom o count ↔ o ≤ x ∧ x < o + count := by
  induction count generalizing o with
  | zero =>
    simp only [offsetsFrom, List.not_mem_nil, false_iff]
    omega
  | succ count ih =>
    rw [offsetsFrom, List.mem_cons, ih]
    omega

@[simp] theorem numbered_fst (o : ℤ) (p : Bytes) :
    (numbered o p).map Prod.fst = offsetsFrom o p.length := by
  rw [numbered, List.map_fst_zip]
  rw [length_offsetsFrom]

@[simp] theorem numbered_snd (o : ℤ) (p : Bytes) : (numbered o p).map Prod.snd = p := by
  rw [numbered, List.map_snd_zip]
  rw [length_offsetsFrom]

theorem filter_offset (held : List (ℤ × UInt8)) {o p : ℤ}
    (hheld : held.map Prod.fst = offsetsFrom o held.length) (hp : o ≤ p) :
    held.filter (fun x => p ≤ x.1) = held.drop (p - o).toNat := by
  induction held generalizing o with
  | nil => simp
  | cons x held ih =>
    rw [List.map_cons, List.length_cons, offsetsFrom] at hheld
    obtain ⟨hx, hrest⟩ := List.cons_eq_cons.mp hheld
    by_cases hpx : p = o
    · have hall : ∀ y ∈ x :: held, decide (p ≤ y.1) = true := by
        intro y hy
        have hmem : y.1 ∈ offsetsFrom o (held.length + 1) := by
          rw [offsetsFrom, ← hrest, ← hx, ← List.map_cons]
          exact List.mem_map_of_mem hy
        exact decide_eq_true (hpx ▸ (mem_offsetsFrom.mp hmem).1)
      rw [List.filter_eq_self.mpr hall, hpx, Int.sub_self]
      rfl
    · have hlt : ¬ p ≤ x.1 := by omega
      rw [List.filter_cons_of_neg (by simpa using hlt), ih hrest (by omega),
        show (p - o).toNat = (p - (o + 1)).toNat + 1 by omega, List.drop_succ_cons]

/-- The invariant.  What the backlog holds is the end of the bytes fed so far; everything
before it, and every offset at which a backlog was created, is too old to be asked for. -/
structure Tracks (h : History) : Prop where
  size : 0 < h.stream.replBacklogSize
  old : ∀ x ∈ h.fed, x.1 ≤ h.stream.masterReplOffset
  created : ∀ m ∈ h.created, m + 1 ≤ h.stream.masterReplOffset
  holds : ∀ b, h.stream.replBacklog = some b → b.Fits h.stream.replBacklogSize ∧
    b.histlen ≤ h.stream.replBacklogSize ∧
    b.off = h.stream.masterReplOffset - b.histlen + 1 ∧
    (∀ m ∈ h.created, m + 1 < b.off) ∧
    ∃ older held, h.fed = older ++ held ∧ (∀ x ∈ older, x.1 < b.off) ∧
      held.map Prod.fst = offsetsFrom b.off b.histlen ∧ held.map Prod.snd = b.window

theorem initHistory_tracks : Tracks initHistory where
  size := by decide
  old := by simp [initHistory]
  created := by simp [initHistory]
  holds := by simp [initHistory]

theorem Tracks.create {h h' : History} (ht : Tracks h) {junk : ℕ → UInt8}
    (hstep : backlogStep h (.create junk) = some h') : Tracks h' := by
  rw [backlogStep, createReplicationBacklog] at hstep
  split at hstep
  next => cases hstep
  next hnone =>
    rw [Option.map_some, Option.some_inj] at hstep
    subst hstep
    constructor
    case size => exact ht.size
    case old =>
      intro x hx
      have := ht.old x hx
      dsimp only
      omega
    case created =>
      intro m hm
      rcases List.mem_cons.mp hm with rfl | hm
      · exact le_rfl
      · have := ht.created m hm
        dsimp only
        omega
    case holds =>
      intro b hb
      dsimp only at hb ⊢
      obtain rfl := (Option.some_inj.mp hb).symm
      refine ⟨emptyBacklog_fits junk ht.size _, Nat.zero_le _, by simp [emptyBacklog], ?_,
        h.fed, [], (List.append_nil _).symm, ?_, rfl, by simp⟩
      · -- the offset skips one, so that nobody who stopped before can go on
        intro m hm
        dsimp only [emptyBacklog]
        rcases List.mem_cons.mp hm with rfl | hm
        · omega
        · have := ht.created m hm
          omega
      · intro x hx
        have := ht.old x hx
        dsimp only [emptyBacklog]
        omega

theorem Tracks.feed {h h' : History} (ht : Tracks h) {p : Bytes}
    (hstep : backlogStep h (.feed p) = some h') : Tracks h' := by
  rw [backlogStep] at hstep
  cases hb : h.stream.replBacklog with
  | none =>
    rw [feedReplicationBacklog, hb] at hstep
    cases hstep
  | some b =>
    obtain ⟨hfits, hhist, hoff, hcreated, older, held, hfed, holder, hfst, hsnd⟩ := ht.holds b hb
    obtain ⟨b', hfeed, hfits', hhist', hoff', hwindow⟩ := feedReplicationBacklog_eq hb hfits hhist p
    rw [hfeed, Option.map_some, Option.some_inj] at hstep
    subst hstep
    have hheld : held.length = b.histlen := by
      rw [← List.length_map, hfst, length_offsetsFrom]
    constructor
    case size => exact ht.size
    case old =>
      intro x hx
      dsimp only at hx ⊢
      rcases List.mem_append.mp hx with hx | hx
      · have := ht.old x hx
        omega
      · have hmem : x.1 ∈ offsetsFrom (h.stream.masterReplOffset + 1) p.length := by
          rw [← numbered_fst]
          exact List.mem_map_of_mem hx
        have := mem_offsetsFrom.mp hmem
        omega
    case created =>
      intro m hm
      have := ht.created m hm
      dsimp only
      omega
    case holds =>
      intro c hc
      dsimp only at hc ⊢
      obtain rfl := Option.some_inj.mp hc
      -- `lost` bytes leave the buffer
      obtain ⟨lost, hlost⟩ : ∃ lost, lost = b.histlen + p.length - b'.histlen := ⟨_, rfl⟩
      have hnew : (held ++ numbered (h.stream.masterReplOffset + 1) p).map Prod.fst =
          offsetsFrom b.off (b.histlen + p.length) := by
        rw [List.map_append, hfst, numbered_fst, offsetsFrom_add,
          show b.off + (b.histlen : ℤ) = h.stream.masterReplOffset + 1 by omega]
      refine ⟨hfits', by omega, hoff', fun m hm => ?_,
        older ++ (held ++ numbered (h.stream.masterReplOffset + 1) p).take lost,
        (held ++ numbered (h.stream.masterReplOffset + 1) p).drop lost, ?_, fun x hx => ?_, ?_, ?_⟩
      · have := hcreated m hm
        omega
      · rw [List.append_assoc, List.take_append_drop, ← List.append_assoc, ← hfed]
      · rcases List.mem_append.mp hx with hx | hx
        · have := holder x hx
          omega
        · have hmem : x.1 ∈ (offsetsFrom b.off (b.histlen + p.length)).take lost := by
            rw [← hnew, ← List.map_take]
            exact List.mem_map_of_mem hx
          rw [show b.histlen + p.length = lost + b'.histlen by omega, offsetsFrom_add,
            List.take_left' (length_offsetsFrom _ _)] at hmem
          have := mem_offsetsFrom.mp hmem
          omega
      · rw [List.map_drop, hnew, offsetsFrom_drop _ (by omega)]
        congr 1 <;> omega
      · rw [List.map_drop, List.map_append, hsnd, numbered_snd, hwindow, hlost]

theorem Tracks.resize {h h' : History} (ht : Tracks h) {junk : ℕ → UInt8} {newsize : ℤ}
    (hstep : backlogStep h (.resize junk newsize) = some h') : Tracks h' := by
  rw [backlogStep, Option.some_inj] at hstep
  subst hstep
  rcases resizeReplicationBacklog_eq junk h.stream newsize with heq | ⟨size, hpos, heq⟩
  · rw [heq]
    exact ht
  · rw [heq]
    constructor
    case size => exact hpos
    case old => exact ht.old
    case created => exact ht.created
    case holds =>
      intro b hb
      dsimp only at hb ⊢
      obtain ⟨_, _, rfl⟩ := Option.map_eq_some_iff.mp hb
      refine ⟨emptyBacklog_fits junk hpos _, Nat.zero_le _, by simp [emptyBacklog], ?_,
        h.fed, [], (List.append_nil _).symm, ?_, rfl, by simp⟩
      · intro m hm
        have := ht.created m hm
        dsimp only [emptyBacklog]
        omega
      · intro x hx
        have := ht.old x hx
        dsimp only [emptyBacklog]
        omega

theorem Tracks.free {h h' : History} (ht : Tracks h)
    (hstep : backlogStep h .free = some h') : Tracks h' := by
  rw [backlogStep, Option.some_inj] at hstep
  subst hstep
  exact ⟨ht.size, ht.old, ht.created, fun b hb => by cases hb⟩

theorem Tracks.step {h h' : History} (ht : Tracks h) {e : BacklogEvent}
    (hstep : backlogStep h e = some h') : Tracks h' := by
  cases e with
  | create junk => exact ht.create hstep
  | feed p => exact ht.feed hstep
  | resize junk newsize => exact ht.resize hstep
  | free => exact ht.free hstep

theorem Tracks.window {h : History} (ht : Tracks h) {b : Backlog}
    (hb : h.stream.replBacklog = some b) : b.histlen ≤ h.fed.length ∧
      b.window = (h.fed.map Prod.snd).drop (h.fed.length - b.histlen) := by
  obtain ⟨-, -, -, -, older, held, hfed, -, hfst, hsnd⟩ := ht.holds b hb
  have hheld : held.length = b.histlen := by
    rw [← List.length_map, hfst, length_offsetsFrom]
  rw [hfed, List.length_append]
  refine ⟨by omega, ?_⟩
  rw [List.map_append, List.drop_left', hsnd]
  rw [List.length_map]
  omega

theorem Tracks.reply {h : History} (ht : Tracks h) {p : ℤ}
    (haccepts : acceptsOffset h.stream p = true) :
    addReplyReplicationBacklog h.stream p = some
        ((h.fed.filter fun x => p ≤ x.1).map Prod.snd, h.stream.masterReplOffset - p + 1) ∧
      (h.fed.filter fun x => p ≤ x.1).map Prod.fst =
        offsetsFrom p (h.stream.masterReplOffset - p + 1).toNat ∧
      ∀ m ∈ h.created, m + 1 < p := by
  cases hb : h.stream.replBacklog with
  | none =>
    rw [acceptsOffset, hb] at haccepts
    cases haccepts
  | some b =>
    obtain ⟨hfits, hhist, hoff, hcreated, older, held, hfed, holder, hfst, hsnd⟩ := ht.holds b hb
    have hheld : held.length = b.histlen := by
      rw [← List.length_map, hfst, length_offsetsFrom]
    have hrange : b.off ≤ p ∧ p ≤ b.off + b.histlen := by
      simpa [acceptsOffset, hb, not_or] using haccepts
    have hfilter : h.fed.filter (fun x => p ≤ x.1) = held.drop (p - b.off).toNat := by
      have hnew := filter_offset held (by rw [hfst, hheld]) hrange.1
      have hnil : older.filter (fun x => p ≤ x.1) = [] := by
        rw [List.filter_eq_nil_iff]
        intro x hx
        have := holder x hx
        simp only [decide_eq_true_eq]
        omega
      rw [hfed, List.filter_append, hnil, hnew, List.nil_append]
    refine ⟨?_, ?_, fun m hm => ?_⟩
    · rw [addReplyReplicationBacklog_eq hb hfits hhist haccepts, hfilter, List.map_drop, hsnd,
        show b.off + (b.histlen : ℤ) - p = h.stream.masterReplOffset - p + 1 by omega]
    · rw [hfilter, List.map_drop, hfst, offsetsFrom_drop _ (by omega)]
      congr 1 <;> omega
    · have := hcreated m hm
      omega

/-- After every run the backlog is the end of the stream, it can be fed, and a slave whose
offset is accepted gets the stream from there on.  Such an offset is beyond what any slave had
that was fed before a backlog was created. -/
theorem run_backlog {es : List BacklogEvent} {h : History}
    (hrun : run backlogStep initHistory es = some h) :
    (∀ b, h.stream.replBacklog = some b → b.histlen ≤ h.stream.replBacklogSize ∧
      b.off = h.stream.masterReplOffset - b.histlen + 1 ∧ b.histlen ≤ h.fed.length ∧
      b.window = (h.fed.map Prod.snd).drop (h.fed.length - b.histlen) ∧
      ∀ p, (feedReplicationBacklog h.stream p).isSome) ∧
    ∀ p, acceptsOffset h.stream p = true →
      addReplyReplicationBacklog h.stream p = some
        ((h.fed.filter fun x => p ≤ x.1).map Prod.snd, h.stream.masterReplOffset - p + 1) ∧
      (h.fed.filter fun x => p ≤ x.1).map Prod.fst =
        offsetsFrom p (h.stream.masterReplOffset - p + 1).toNat ∧
      ∀ m ∈ h.created, m + 1 < p := by
  have ht : Tracks h :=
    run_invariant (fun h e h' ht hstep => ht.step hstep) initHistory_tracks hrun
  refine ⟨fun b hb => ?_, fun p haccepts => ht.reply haccepts⟩
  obtain ⟨hfits, hhist, hoff, -, -⟩ := ht.holds b hb
  obtain ⟨hle, hwindow⟩ := ht.window hb
  refine ⟨hhist, hoff, hle, hwindow, fun p => ?_⟩
  obtain ⟨b', hfeed, -⟩ := feedReplicationBacklog_eq hb hfits hhist p
  rw [hfeed]
  rfl

/-- A backlog that is fed three bytes has the offsets 2, 3 and 4; a slave that asks for 3 gets
the last two bytes. -/
theorem run_backlog_threeBytes : ∃ h,
    run backlogStep initHistory [.create noJunk, .feed [7, 8, 9]] = some h ∧
      addReplyReplicationBacklog h.stream 3 = some ([8, 9], 2) := by
  obtain ⟨b, hfeed, -, hhist, hoff, -⟩ := feedReplicationBacklog_eq (p := [7, 8, 9])
    (s := { masterReplOffset := 1, replBacklogSize := defaultBacklogSize,
            replBacklog := some (emptyBacklog noJunk defaultBacklogSize 1) })
    rfl (emptyBacklog_fits noJunk (by decide) 1) (Nat.zero_le _)
  have hrun : run backlogStep initHistory [.create noJunk, .feed [7, 8, 9]] = some
      { stream := { masterReplOffset := 4, replBacklogSize := defaultBacklogSize,
                    replBacklog := some b }
        fed := [(2, 7), (3, 8), (4, 9)], created := [0] } := by
    refine run_cons_of_step (m := ⟨⟨1, defaultBacklogSize,
      some (emptyBacklog noJunk defaultBacklogSize 1)⟩, [], [0]⟩) rfl ?_
    refine run_cons_of_step ?_ (run_nil _)
    rw [backlogStep, hfeed]
    rfl
  have hlen : b.histlen = 3 := by
    rw [hhist]
    decide
  have haccepts : acceptsOffset ⟨4, defaultBacklogSize, some b⟩ 3 = true := by
    have hb : b.off = 2 := by
      rw [hoff, hlen]
      decide
    simp only [acceptsOffset, hb, hlen]
    decide
  refine ⟨_, hrun, ((run_backlog hrun).2 3 haccepts).1.trans ?_⟩
  rfl

end Replication

/-
What a server loads after it stopped at any moment.

* `loadArg_cut`, `loadLoop_cut` — a command whose end is missing is not loaded;
* `recovers_of_prefix` — all complete commands before it are loaded;
* `Recorded`, `recordStep` — calls of `feedAppendOnlyFile` and `flushAppendOnlyFile`, with the
  commands that were fed;
* `aof_recovers` — whatever part of the file is left, the complete commands in it are loaded.
-/
import RedisModel.AofCheckRun

open StringNumber RedisCommands AofCheck AofFormat AofLoad
open DynamicString (Represents toSize)
open Aof (AofWorld AofServer AofEvent Log crlf)

namespace AofRecovery

/-! ### Incomplete commands -/

/-- The loader exits at `readerr` or `fmterr`. -/
def Broken (e : LoadEnd) : Prop := e = .readerr ∨ e = .fmterr

theorem fgets_last {t : Bytes} (hne : t ≠ []) (hnot : 10 ∉ t) (hlen : t.length ≤ 127) :
    fgets 128 t = some (t, []) := by
  rw [fgets, if_neg hne]
  dsimp only
  rw [show 128 - 1 = 127 from rfl, List.take_of_length_le hlen, lineOf_eq_self hnot,
    List.drop_length]

theorem cut_line {first : UInt8} {w x t : Bytes} (hw : 10 ∉ w)
    (h : t <+: first :: (w ++ 13 :: 10 :: x)) :
    t = [] ∨ (∃ u, t = first :: u ∧ 10 ∉ u ∧ u.length ≤ w.length + 1) ∨
      ∃ x', t = first :: (w ++ 13 :: 10 :: x') ∧ x' <+: x := by
  rw [show w ++ 13 :: 10 :: x = (w ++ [13]) ++ 10 :: x by simp] at h
  cases t with
  | nil => exact .inl rfl
  | cons c u =>
    obtain ⟨rfl, hu⟩ := List.cons_prefix_cons.mp h
    have hnot : 10 ∉ w ++ [13] := fun hmem => by
      obtain hmem | hmem := List.mem_append.mp hmem
      · exact hw hmem
      · exact absurd (List.mem_singleton.mp hmem) (by decide)
    refine .inr ?_
    obtain hfront | ⟨v, rfl⟩ :=
      List.prefix_or_prefix_of_prefix hu (List.prefix_append _ (10 :: x))
    · refine .inl ⟨u, rfl, fun hmem => hnot (hfront.subset hmem), ?_⟩
      have hle := hfront.length_le
      rwa [List.length_append, List.length_singleton] at hle
    · cases v with
      | nil =>
        rw [List.append_nil]
        exact .inl ⟨_, rfl, hnot, by rw [List.length_append, List.length_singleton]⟩
      | cons d x' =>
        obtain ⟨rfl, hx⟩ := List.cons_prefix_cons.mp ((List.prefix_append_right_inj _).mp hu)
        exact .inr ⟨x', by simp, hx⟩

theorem length_lt_of_cut {t x : Bytes} (h : t <+: x) (hcut : t ≠ x) : t.length < x.length :=
  lt_of_le_of_ne h.length_le fun hlen => hcut (h.eq_of_length hlen)

theorem rawArg_valid {arg : Bytes} (h : arg.length < 2 ^ 31) :
    (rawArg arg).Valid ∧ (rawArg arg).Short ∧ (rawArg arg).arg.length < 2 ^ 31 :=
  ⟨.inl (isNumber_ll2string (h.trans (by decide))), length_ll2string_le h, h⟩

theorem loadArg_cut {arg t : Bytes} (harg : arg.length < 2 ^ 31) (h : t <+: (rawArg arg).encode)
    (hcut : t ≠ (rawArg arg).encode) : ∃ e, loadArg t = .error e ∧ Broken e := by
  obtain ⟨hvalid, hshort, -⟩ := rawArg_valid harg
  rw [← List.append_nil (rawArg arg).encode, RawArg.encode_append] at h hcut
  obtain rfl | ⟨u, rfl, hu, hlen⟩ | ⟨x, rfl, hx⟩ := cut_line hvalid.newline h
  · exact ⟨.readerr, rfl, .inl rfl⟩
  · have hlast : fgets 128 (36 :: u) = some (36 :: u, []) := by
      refine fgets_last (List.cons_ne_nil _ _)
        (List.not_mem_cons_of_ne_of_not_mem (by decide) hu) ?_
      have hle : (rawArg arg).text.length ≤ 124 := hshort
      rw [List.length_cons]
      omega
    refine ⟨.fmterr, ?_, .inr rfl⟩
    rw [loadArg, hlast]
    dsimp only
    rw [head_lineBuf, if_neg (not_not.mpr rfl)]
    split
    · rfl
    · rw [if_pos (by simp)]
  · -- the line of the length is there
    have hsize : toSize (arg.length : ℤ) = arg.length := DynamicString.toSize_natCast (by omega)
    have hlen : x.length < (arg ++ 13 :: 10 :: []).length :=
      length_lt_of_cut hx fun heq => hcut (by rw [heq]; rfl)
    rw [List.length_append, List.length_cons, List.length_singleton] at hlen
    refine ⟨.fmterr, ?_, .inr rfl⟩
    rw [loadArg, fgets_text hvalid hshort (by decide)]
    dsimp only
    rw [head_lineBuf, strtoll_lineBuf hvalid hshort, if_neg (not_not.mpr rfl),
      show ((rawArg arg).arg.length : ℤ) = arg.length from rfl, clamp_eq (by omega) (by omega),
      hsize]
    split
    · rfl
    · rw [if_pos (by rw [List.length_drop]; omega)]

theorem cut_append {a b t : Bytes} (h : t <+: a ++ b) (hcut : t ≠ a ++ b) :
    (t <+: a ∧ t ≠ a) ∨ ∃ t', t = a ++ t' ∧ t' <+: b ∧ t' ≠ b := by
  by_cases hlen : t.length < a.length
  · refine .inl ⟨List.prefix_of_prefix_length_le h (List.prefix_append a b) hlen.le, ?_⟩
    rintro rfl
    exact lt_irrefl _ hlen
  · obtain ⟨t', rfl⟩ :=
      List.prefix_of_prefix_length_le (List.prefix_append a b) h (Nat.le_of_not_lt hlen)
    exact .inr ⟨t', rfl, (List.prefix_append_right_inj a).mp h, fun heq => hcut (by rw [heq])⟩

theorem loadArgs_cut {argv : List Bytes} (hargv : ∀ arg ∈ argv, arg.length < 2 ^ 31) {t : Bytes}
    (h : t <+: encodeArgs (argv.map rawArg)) (hcut : t ≠ encodeArgs (argv.map rawArg)) :
    ∃ e, loadArgs argv.length t = .error e ∧ Broken e := by
  induction argv generalizing t with
  | nil => exact absurd (List.prefix_nil.mp h) hcut
  | cons arg argv ih =>
    obtain ⟨harg, hargv⟩ := List.forall_mem_cons.mp hargv
    rw [List.map_cons, encodeArgs, List.flatMap_cons, ← encodeArgs] at h hcut
    rw [List.length_cons, loadArgs]
    obtain ⟨hfront, hne⟩ | ⟨t', rfl, hrest, hne⟩ := cut_append h hcut
    · obtain ⟨e, he, hbroken⟩ := loadArg_cut harg hfront hne
      exact ⟨e, by rw [he]; rfl, hbroken⟩
    · obtain ⟨hvalid, hshort, hlength⟩ := rawArg_valid harg
      obtain ⟨e, he, hbroken⟩ := ih hargv hrest hne
      refine ⟨e, ?_, hbroken⟩
      rw [loadArg_spec hvalid hshort hlength]
      dsimp only [bind, Except.bind]
      rw [he]

/-- A command that the loader can read again. -/
abbrev Readable (argv : List Bytes) : Prop := Writable (fun _ => true) argv

theorem loadable_rawCommand {argv : List Bytes} (h : Readable argv) :
    Loadable (rawCommand argv) := by
  have hlen : (rawCommand argv).args.length = argv.length := List.length_map _
  refine ⟨.inl h.wellFormed.count, h.wellFormed.args, hlen ▸ h.small, h.short.1, ?_⟩
  intro a ha
  obtain ⟨arg, harg, rfl⟩ := List.mem_map.mp ha
  exact rawArg_valid (h.lengths arg harg).1

section
variable (table : CommandTable)

theorem loadLoop_cut {argv : List Bytes} (hargv : Readable argv) {t : Bytes} (hne : t ≠ [])
    (h : t <+: Aof.encode argv) (hcut : t ≠ Aof.encode argv) (multi : Bool) :
    ∃ e, loadLoop table multi t = ([], e) ∧ Broken e := by
  have hload := loadable_rawCommand hargv
  rw [← encode_rawCommand, ← List.append_nil (rawCommand argv).encode, RawCommand.encode_append,
    List.append_nil] at h hcut
  rw [loadLoop_eq]
  obtain rfl | ⟨u, rfl, hu, hlen⟩ | ⟨x, rfl, hx⟩ := cut_line hload.count.newline h
  · exact absurd rfl hne
  · -- no argument follows
    have hlast : fgets 128 (42 :: u) = some (42 :: u, []) := by
      refine fgets_last hne (List.not_mem_cons_of_ne_of_not_mem (by decide) hu) ?_
      have hle := hload.short
      rw [List.length_cons]
      omega
    rw [hlast]
    dsimp only
    rw [head_lineBuf, if_neg (not_not.mpr rfl)]
    split
    · exact ⟨.fmterr, rfl, .inr rfl⟩
    · rename_i hargc
      have hne0 : (atoi ((lineBuf (42 :: u)).drop 1)).toNat ≠ 0 := by omega
      obtain ⟨n, hn⟩ := Nat.exists_eq_succ_of_ne_zero hne0
      rw [hn]
      exact ⟨.readerr, rfl, .inl rfl⟩
  · have hsmall := hload.small
    have hpos := List.length_pos_iff.mpr hload.args
    have hcount : atoi ((lineBuf (42 :: ((rawCommand argv).text ++ [13, 10]))).drop 1)
        = (rawCommand argv).args.length := by
      rw [atoi, strtoll_lineBuf hload.count hload.short, clamp_eq (by omega) (by omega),
        toInt_of_lt (by omega) (by omega)]
    rw [fgets_text hload.count hload.short (by decide)]
    dsimp only
    rw [head_lineBuf, if_neg (not_not.mpr rfl), hcount, if_neg (by omega), Int.toNat_natCast,
      rawCommand, List.length_map]
    obtain ⟨e, he, hbroken⟩ := loadArgs_cut (fun arg harg => (hargv.lengths arg harg).1) hx
      fun heq => hcut (by rw [heq]; rfl)
    rw [he]
    exact ⟨e, rfl, hbroken⟩

theorem loadLoop_complete {argvs : List (List Bytes)}
    (hargvs : ∀ argv ∈ argvs, Readable argv ∧ isKnown table argv = true) {t : Bytes}
    (ht : t = [] ∨ ∃ argv, Readable argv ∧ t <+: Aof.encode argv ∧ t ≠ Aof.encode argv)
    (multi : Bool) :
    (loadLoop table multi (argvs.flatMap Aof.encode ++ t)).1 = argvs.map (List.map newArgument) ∧
      (t ≠ [] → Broken (loadLoop table multi (argvs.flatMap Aof.encode ++ t)).2) := by
  induction argvs generalizing multi with
  | nil =>
    rw [List.flatMap_nil, List.nil_append]
    by_cases hne : t = []
    · rw [hne, loadLoop_eq]
      exact ⟨rfl, fun h => absurd rfl h⟩
    · obtain ⟨argv, hargv, hfront, hcut⟩ := ht.resolve_left hne
      obtain ⟨e, he, hbroken⟩ := loadLoop_cut table hargv hne hfront hcut multi
      rw [he]
      exact ⟨rfl, fun _ => hbroken⟩
  | cons argv argvs ih =>
    obtain ⟨⟨hargv, hknown⟩, hargvs⟩ := List.forall_mem_cons.mp hargvs
    obtain ⟨cmd, hcmd⟩ := Option.isSome_iff_exists.mp hknown
    rw [List.flatMap_cons, List.append_assoc, ← encode_rawCommand,
      loadLoop_command table (loadable_rawCommand hargv), argv_rawCommand, hcmd]
    dsimp only
    obtain ⟨hloaded, hbroken⟩ := ih hargvs (cmd.flag multi)
    exact ⟨by rw [hloaded]; rfl, hbroken⟩

/-! ### Files that are cut -/

/-- Some commands are loaded from a file; the loader returns if it is nothing but these, with all
transactions closed, and exits if anything else is in it. -/
structure Recovers (file : Bytes) (argvs : List (List Bytes)) : Prop where
  loaded : List.Forall₂ (List.Forall₂ Represents) (loadAppendOnlyFile table file).1 argvs
  returns : file = argvs.flatMap Aof.encode → Paired argvs →
    (loadAppendOnlyFile table file).2 = if file = [] then .empty else .done
  broken : file ≠ argvs.flatMap Aof.encode → Broken (loadAppendOnlyFile table file).2

theorem complete_all (commands : List (List Bytes)) :
    complete (commands.flatMap Aof.encode).length commands = commands := by
  induction commands with
  | nil => rfl
  | cons argv commands ih =>
    rw [complete, List.flatMap_cons, List.length_append, if_pos (Nat.le_add_right _ _),
      Nat.add_sub_cancel_left, ih]

theorem split_complete {commands : List (List Bytes)} {file : Bytes}
    (hfile : file <+: commands.flatMap Aof.encode) :
    ∃ t, file = (complete file.length commands).flatMap Aof.encode ++ t ∧
      (t = [] ∨ ∃ argv ∈ commands, t <+: Aof.encode argv ∧ t ≠ Aof.encode argv) := by
  induction commands generalizing file with
  | nil => exact ⟨[], List.prefix_nil.mp hfile, .inl rfl⟩
  | cons argv commands ih =>
    rw [List.flatMap_cons] at hfile
    have henc := List.prefix_append (Aof.encode argv) (commands.flatMap Aof.encode)
    by_cases hlen : (Aof.encode argv).length ≤ file.length
    · obtain ⟨file', rfl⟩ := List.prefix_of_prefix_length_le henc hfile hlen
      obtain ⟨t, ht, hcut⟩ := ih ((List.prefix_append_right_inj _).mp hfile)
      refine ⟨t, ?_, hcut.imp_right ?_⟩
      · rw [complete, if_pos hlen, List.length_append, Nat.add_sub_cancel_left, List.flatMap_cons,
          List.append_assoc, ← ht]
      · rintro ⟨argv', hargv', h⟩
        exact ⟨argv', List.mem_cons_of_mem _ hargv', h⟩
    · refine ⟨file, ?_, .inr ⟨argv, List.mem_cons_self, ?_, ?_⟩⟩
      · rw [complete, if_neg hlen]
        rfl
      · exact List.prefix_of_prefix_length_le hfile henc (Nat.le_of_not_le hlen)
      · rintro rfl
        exact hlen le_rfl

theorem forall₂_newArgument {argvs : List (List Bytes)} (h : ∀ argv ∈ argvs, Readable argv) :
    List.Forall₂ (List.Forall₂ Represents) (argvs.map (List.map newArgument)) argvs := by
  rw [List.forall₂_map_left_iff, List.forall₂_same]
  intro argv hargv
  rw [List.forall₂_map_left_iff, List.forall₂_same]
  exact fun arg harg => newArgument_represents ((h argv hargv).lengths arg harg).1

theorem recovers_of_prefix {commands : List (List Bytes)}
    (hcommands : ∀ argv ∈ commands, Readable argv)
    (hknown : ∀ argv ∈ commands, isKnown table argv = true) {file : Bytes}
    (hfile : file <+: commands.flatMap Aof.encode) :
    Recovers table file (complete file.length commands) := by
  obtain ⟨t, ht, hcut⟩ := split_complete hfile
  have hsub := (complete_isPrefix file.length commands).1.subset
  have hcut' : t = [] ∨
      ∃ argv, Readable argv ∧ t <+: Aof.encode argv ∧ t ≠ Aof.encode argv := by
    refine hcut.imp_right ?_
    rintro ⟨argv, hargv, h⟩
    exact ⟨argv, hcommands argv hargv, h⟩
  generalize complete file.length commands = argvs at ht hsub ⊢
  have hreadable := fun argv hargv => hcommands argv (hsub hargv)
  obtain ⟨hloaded, hbroken⟩ := loadLoop_complete table
    (fun argv hargv => ⟨hreadable argv hargv, hknown argv (hsub hargv)⟩) hcut' false
  have hraw := encodeAll_rawCommand argvs
  rw [← ht] at hloaded hbroken
  refine ⟨?_, fun hwhole hpaired => ?_, fun hpart => ?_⟩
  · rw [loadAppendOnlyFile]
    split
    · rename_i hnil
      rw [hnil, loadLoop_eq] at hloaded
      have hargvs : argvs = [] := List.map_eq_nil_iff.mp hloaded.symm
      rw [hargvs]
      exact .nil
    · rw [hloaded]
      exact forall₂_newArgument hreadable
  · have hargv : (argvs.map rawCommand).map RawCommand.argv = argvs := by
      rw [List.map_map, show RawCommand.argv ∘ rawCommand = id from funext argv_rawCommand,
        List.map_id]
    have hloadable : ∀ c ∈ argvs.map rawCommand, Loadable c := by
      intro c hc
      obtain ⟨argv, hmem, rfl⟩ := List.mem_map.mp hc
      exact loadable_rawCommand (hreadable argv hmem)
    have hload := load_spec table hloadable (by rwa [hargv])
    have hending := hload.ending
    have hall : argvs.all (isKnown table) = true :=
      List.all_eq_true.mpr fun argv hargv => hknown argv (hsub hargv)
    rw [hargv, hraw, ← hwhole, hall] at hending
    exact hending
  · have hne : t ≠ [] := fun hnil => hpart (by rw [ht, hnil, List.append_nil])
    have hfile : file ≠ [] := fun hnil => hne (List.append_eq_nil_iff.mp (ht.symm.trans hnil)).2
    rw [loadAppendOnlyFile, if_neg hfile]
    exact hbroken hne

end

/-! ### Runs -/

/-- The server and its file, the bytes and the commands that were fed. -/
abbrev Recorded := (AofWorld × Log) × List (List Bytes)

/-- The commands that a call feeds. -/
def fedBy (x : AofWorld × Log) : AofEvent → List (List Bytes)
  | .feed cmd dictid argv mstime =>
    (fedCommands x.1.server.aofSelectedDb ⟨cmd, dictid, argv, mstime⟩).getD []
  | .flush _ _ _ _ _ => []

/-- A call, which is recorded. -/
def recordStep (y : Recorded) (e : AofEvent) : Option Recorded :=
  (Aof.aofStep y.1 e).map fun x => (x, y.2 ++ fedBy y.1 e)

/-- A server that starts with an empty file. -/
def startRecording (s : AofServer) : Recorded := (Aof.startAof s [], [])

/-- The condition on a call: `aof_buf` stays shorter than 2 GB, and commands have a name. -/
def Feedable (y : Recorded) (e : AofEvent) : Prop :=
  Aof.StaysSmall y.1 e ∧ ∀ argv ∈ fedBy y.1 e, argv ≠ []

/-- The invariant of a run. -/
structure RecordedRight (policy : Aof.FsyncPolicy) (y : Recorded) : Prop where
  server : Aof.Invariant policy [] y.1
  fed : y.1.2.fed = y.2.flatMap Aof.encode
  readable : ∀ argv ∈ y.2, Readable argv

theorem fed_of_flush {x x' : AofWorld × Log} {force pending : Bool} {unixtime : ℤ}
    {result : Aof.WriteResult} {truncated : Bool}
    (h : Aof.aofStep x (.flush force pending unixtime result truncated) = some x') :
    x'.2.fed = x.2.fed := by
  rw [Aof.aofStep, Option.bind_eq_bind] at h
  obtain ⟨⟨w, flushed⟩, -, h⟩ := Option.bind_eq_some_iff.mp h
  cases flushed with
  | exit => cases h
  | nothing | postponed | failed | written => exact Option.some_inj.mp h ▸ rfl

theorem fed_of_feed {x x' : AofWorld × Log} {c : Call}
    (h : Aof.aofStep x (.feed c.cmd c.dictid c.argv c.mstime) = some x') :
    ∃ commands, fedCommands x.1.server.aofSelectedDb c = some commands ∧
      x'.2.fed = x.2.fed ++ commands.flatMap Aof.encode := by
  rw [Aof.aofStep, Option.bind_eq_bind] at h
  obtain ⟨server, -, h⟩ := Option.bind_eq_some_iff.mp h
  obtain ⟨bytes, hbytes, h⟩ := Option.bind_eq_some_iff.mp h
  rw [fedBytes_eq] at hbytes
  obtain ⟨commands, hcommands, rfl⟩ := Option.map_eq_some_iff.mp hbytes
  exact ⟨commands, hcommands, Option.some_inj.mp h ▸ rfl⟩

theorem recordedRight_step {policy : Aof.FsyncPolicy} (hpolicy : policy ≠ .always) {y : Recorded}
    {e : AofEvent} (hy : RecordedRight policy y) (he : Feedable y e) :
    ∃ y', recordStep y e = some y' ∧ RecordedRight policy y' := by
  obtain ⟨hsmall, hnames⟩ := he
  obtain ⟨x, hx, hserver⟩ := Aof.invariant_step hpolicy hy.server hsmall
  refine ⟨_, by rw [recordStep, hx]; rfl, hserver, ?_, ?_⟩
  · cases e with
    | flush force pending unixtime result truncated =>
      rw [fed_of_flush hx, hy.fed, fedBy, List.append_nil]
    | feed cmd dictid argv mstime =>
      obtain ⟨commands, hcommands, hfed⟩ :=
        @fed_of_feed y.1 x ⟨cmd, dictid, argv, mstime⟩ hx
      rw [hfed, hy.fed, fedBy, hcommands, Option.getD_some, List.flatMap_append]
  · refine List.forall_mem_append.mpr ⟨hy.readable, ?_⟩
    cases e with
    | flush force pending unixtime result truncated =>
      exact fun argv hargv => absurd hargv List.not_mem_nil
    | feed cmd dictid argv mstime =>
      obtain ⟨bytes, hbytes, hlen⟩ := hsmall
      obtain ⟨b, hbuf, -⟩ := hy.server.buffer
      have hpos : 0 ≤ y.1.1.server.aofBuf.len := by rw [hbuf]; exact Int.natCast_nonneg _
      rw [fedBytes_eq _ ⟨cmd, dictid, argv, mstime⟩] at hbytes
      obtain ⟨commands, hcommands, rfl⟩ := Option.map_eq_some_iff.mp hbytes
      rw [fedBy, hcommands, Option.getD_some] at hnames ⊢
      exact writable_of_feeds (by omega) fun argv hargv => ⟨hnames argv hargv, fun _ _ => rfl⟩

/-- In every run in which `aof_buf` stays shorter than 2 GB, whatever the writes and truncations
do, and whatever part of the file is left when the server stops: the next server loads the complete
commands in it, and exits if there is a part of another one.  These are all commands that were fed
if the buffer was written. -/
theorem aof_recovers (s : AofServer) (hpolicy : s.aofFsync ≠ .always) {es : List AofEvent}
    (hes : Runs.AllSteps recordStep Feedable (startRecording s) es) :
    ∃ y, Runs.run recordStep (startRecording s) es = some y ∧
      ∀ table : CommandTable, (∀ argv ∈ y.2, isKnown table argv = true) →
        (∀ k, Recovers table (y.1.1.file.take k) (complete (y.1.1.file.take k).length y.2)) ∧
        (y.1.1.server.aofBuf.bytes = some [] → Recovers table y.1.1.file y.2) := by
  have hstart : RecordedRight s.aofFsync (startRecording s) :=
    ⟨Aof.invariant_start s [], rfl, fun argv hargv => absurd hargv List.not_mem_nil⟩
  obtain ⟨y, hrun, hy⟩ := Runs.run_total_of_allSteps
    (fun y e h he => recordedRight_step hpolicy h he) hstart hes
  obtain ⟨b, hbuf, hb, hfile⟩ := hy.server.buffer
  rw [List.nil_append, hy.fed] at hfile
  refine ⟨y, hrun, fun table hknown => ⟨fun k => ?_, fun hempty => ?_⟩⟩
  · refine recovers_of_prefix table hy.readable hknown ((List.take_prefix k _).trans ?_)
    exact ⟨b, hfile⟩
  · rw [hbuf, Aof.bytes_full hb, Option.some_inj] at hempty
    rw [hempty, List.append_nil] at hfile
    have hwhole : y.1.1.file <+: y.2.flatMap Aof.encode := by rw [hfile]
    have hall := recovers_of_prefix table hy.readable hknown hwhole
    rwa [hfile, complete_all, ← hfile] at hall

/-- Five bytes of `SET a b` are written, and cannot be truncated. -/
theorem aof_recovers_set : ∃ y, Runs.run recordStep (startRecording Aof.everysecServer)
    [Aof.feedSet [98], .flush false false 5 (.wrote 5) false] = some y ∧
      ∀ table : CommandTable, (∀ argv ∈ y.2, isKnown table argv = true) →
        Recovers table (y.1.1.file.take 3) (complete (y.1.1.file.take 3).length y.2) := by
  have hes : Runs.AllSteps recordStep Feedable (startRecording Aof.everysecServer)
      [Aof.feedSet [98], .flush false false 5 (.wrote 5) false] := by
    refine ⟨⟨⟨_, rfl, by decide⟩, ?_⟩, fun y _ => ⟨⟨trivial, ?_⟩, fun _ _ => trivial⟩⟩
    · exact List.forall_mem_singleton.mpr (List.cons_ne_nil _ _)
    · exact fun argv hargv => absurd hargv List.not_mem_nil
  obtain ⟨y, hrun, hy⟩ := aof_recovers Aof.everysecServer (by decide) hes
  exact ⟨y, hrun, fun table hknown => (hy table hknown).1 3⟩

end AofRecovery

/-
When `redis-check-aof` agrees with the loader.

* `CheckRight` — `process` returns the length of the longest prefix of well-formed commands in which
  every MULTI is closed, and the prefix is loaded as these commands;
* `checkRight_iff` — the condition for it;
* `fits_of_cut` — the condition holds for files that `feedAppendOnlyFile` writes, cut anywhere;
* `keepsFinished_of_right` — the commands that are kept of such a file.
-/
import RedisModel.AofBufferRun
import RedisModel.AofLoadSpec
import RedisModel.StringNumberWord
import Mathlib.Data.List.Infix
import Mathlib.Order.Bounds.Basic

open StringNumber RedisCommands Counters AofFormat AofLoad
open Aof (crlf)

namespace AofCheck

/-! ### Files -/

/-- Commands at the start of a file, in which every MULTI is closed. -/
structure Prefix (file : Bytes) (cs : List RawCommand) : Prop where
  paired : Paired (cs.map RawCommand.argv)
  front : encodeAll cs <+: file

section
variable (malloc : ℕ → Bool)

/-- `process` does nothing that is not allowed and returns the length of the longest prefix that
consists of well-formed commands; the prefix is loaded as these commands, and a file that is kept as
a whole is not rejected because of its format or as truncated. -/
def CheckRight (file : Bytes) : Prop :=
  ∃ n, process malloc file = some n ∧
    IsGreatest {n | ∃ cs, (∀ c ∈ cs, c.WellFormed) ∧ Prefix file cs ∧ n = (encodeAll cs).length} n ∧
    ∀ table : CommandTable,
      (∃ cs, (∀ c ∈ cs, c.WellFormed) ∧ Prefix file cs ∧ encodeAll cs = file.take n ∧
        LoadedAs table (file.take n) (cs.map RawCommand.argv)) ∧
      (n = file.length → (loadAppendOnlyFile table file).2 ≠ .fmterr ∧
        (loadAppendOnlyFile table file).2 ≠ .readerr)

/-- Nothing that is not allowed is done; in every prefix of the file that consists of commands,
where a number of arguments below 1 counts as 0 and a missing length as 0, all commands are
well-formed if and only if all lines of numbers have less than 128 bytes, and then all arguments
have less than 2^31. -/
def CheckFits (file : Bytes) : Prop :=
  ¬Hazard malloc file ∧ ∀ cs : List RawCommand, (∀ c ∈ cs, c.Valid) → Prefix file cs →
    ((∀ c ∈ cs, c.WellFormed) ↔ ∀ c ∈ cs, c.Short) ∧
    ((∀ c ∈ cs, c.WellFormed) → ∀ c ∈ cs, ∀ a ∈ c.args, a.arg.length < 2 ^ 31)

/-- A table with all commands. -/
def fullTable : CommandTable where
  lookup name := some (if strcasecmp name multiName then .multiCommand
    else if strcasecmp name execName then .execCommand else .other)
  multi_iff := by
    rintro name cmd hcmd
    obtain rfl := Option.some_inj.mp hcmd
    split
    · rename_i h
      exact iff_of_true rfl h
    · rename_i h
      refine iff_of_false (fun h' => ?_) h
      split at h' <;> cases h'
  exec_iff := by
    rintro name cmd hcmd
    obtain rfl := Option.some_inj.mp hcmd
    split
    · rename_i h
      refine iff_of_false (fun h' => by cases h') fun h' => ?_
      have hname := (of_decide_eq_true h).symm.trans (of_decide_eq_true h')
      exact absurd hname (by decide)
    · split
      · rename_i h
        exact iff_of_true rfl h
      · rename_i h
        exact iff_of_false (fun h' => by cases h') h

theorem isKnown_fullTable {argv : List Bytes} (h : argv ≠ []) : isKnown fullTable argv = true := by
  cases argv with
  | nil => exact absurd rfl h
  | cons name argv => rfl

theorem forall_mem_of_forall₂ {α β : Type} {R : α → β → Prop} {P : β → Prop}
    (h : ∀ a b, R a b → P b) {as : List α} {bs : List β} (hall : List.Forall₂ R as bs) :
    ∀ b ∈ bs, P b := by
  induction hall with
  | nil => exact fun b hb => absurd hb List.not_mem_nil
  | cons hab _ ih => exact List.forall_mem_cons.mpr ⟨h _ _ hab, ih⟩

theorem length_of_loadedAs {file : Bytes} {cs : List RawCommand} (hcs : ∀ c ∈ cs, c.WellFormed)
    (h : LoadedAs fullTable file (cs.map RawCommand.argv)) :
    ∀ c ∈ cs, ∀ a ∈ c.args, a.arg.length < 2 ^ 31 := by
  have hall : (cs.map RawCommand.argv).takeWhile (isKnown fullTable) = cs.map RawCommand.argv := by
    refine List.takeWhile_eq_self_iff.mpr fun argv hargv => ?_
    obtain ⟨c, hc, rfl⟩ := List.mem_map.mp hargv
    exact isKnown_fullTable fun hnil => (hcs c hc).args (List.map_eq_nil_iff.mp hnil)
  have hloaded := h.loaded
  rw [hall] at hloaded
  have hshort : ∀ argv ∈ cs.map RawCommand.argv, ∀ arg ∈ argv, arg.length < 2 ^ 31 :=
    forall_mem_of_forall₂ (fun _ _ hargv => forall_mem_of_forall₂
      (fun _ _ harg => harg.elim fun _ hroom => hroom.short) hargv) hloaded
  exact fun c hc a ha => hshort c.argv (List.mem_map_of_mem hc) a.arg (List.mem_map_of_mem ha)

theorem Prefix.take_eq {file : Bytes} {cs : List RawCommand} (h : Prefix file cs) :
    file.take (encodeAll cs).length = encodeAll cs := (List.prefix_iff_eq_take.mp h.front).symm

theorem fits_of_right {file : Bytes} (h : CheckRight malloc file) : CheckFits malloc file := by
  obtain ⟨n, hproc, hgreatest, hload⟩ := h
  refine ⟨fun hhazard => ?_, fun cs hcs hstart => ?_⟩
  · cases ((process_fault malloc).mpr hhazard).symm.trans hproc
  · obtain ⟨ds, hds, -, hdfile, hd⟩ := process_sound malloc hproc
    obtain ⟨⟨es, hes, hefile, htake, hloaded⟩, -⟩ := hload fullTable
    have he : (encodeAll es).length = n := by
      rw [htake, List.length_take, hd]
      exact Nat.min_eq_left hdfile.length_le
    have hupper : (∀ c ∈ cs, c.WellFormed) → cs <+: ds ∧ cs <+: es := fun hwf => by
      have hle : (encodeAll cs).length ≤ n := hgreatest.2 ⟨cs, hwf, hstart, rfl⟩
      exact ⟨prefix_of_length_le hcs (fun d hd => (hds d hd).1) hstart.front hdfile (by omega),
        prefix_of_length_le hcs (fun e he => (hes e he).valid) hstart.front hefile.front
          (by omega)⟩
    refine ⟨⟨fun hwf c hc => (hds c ((hupper hwf).1.subset hc)).2.1, fun hshort c hc => ?_⟩,
      fun hwf c hc => length_of_loadedAs hes hloaded c ((hupper hwf).2.subset hc)⟩
    have hle := process_le malloc hproc (fun c hc => ⟨hcs c hc, hshort c hc⟩) hstart.paired
      hstart.front
    exact hes c ((prefix_of_length_le hcs (fun e he => (hes e he).valid) hstart.front
      hefile.front (by omega)).subset hc)

theorem right_of_fits {file : Bytes} (h : CheckFits malloc file) : CheckRight malloc file := by
  obtain ⟨hhazard, hall⟩ := h
  obtain ⟨n, hproc⟩ : ∃ n, process malloc file = some n :=
    Option.ne_none_iff_exists'.mp fun hnone => hhazard ((process_fault malloc).mp hnone)
  obtain ⟨ds, hds, hpaired, hfront, hn⟩ := process_sound malloc hproc
  have hstart : Prefix file ds := ⟨hpaired, hfront⟩
  obtain ⟨hiff, hlengths⟩ := hall ds (fun d hd => (hds d hd).1) hstart
  have hwf := hiff.mpr fun d hd => (hds d hd).2.1
  have htake : encodeAll ds = file.take n := by rw [hn, hstart.take_eq]
  have hloadable : ∀ d ∈ ds, Loadable d := fun d hd =>
    ⟨.inl (hwf d hd).count, (hwf d hd).args, (hds d hd).2.2, (hds d hd).2.1.1, fun a ha =>
      ⟨.inl ((hwf d hd).lengths a ha), (hds d hd).2.1.2 a ha, hlengths hwf d hd a ha⟩⟩
  refine ⟨n, hproc, ⟨⟨ds, hwf, hstart, hn⟩, ?_⟩, fun table => ?_⟩
  · rintro m ⟨cs, hcs, hc, rfl⟩
    have hvalid : ∀ c ∈ cs, c.Valid := fun c hc => (hcs c hc).valid
    have hshort := (hall cs hvalid hc).1.mp hcs
    exact process_le malloc hproc (fun c hc => ⟨hvalid c hc, hshort c hc⟩) hc.paired hc.front
  · have hloaded := load_spec table hloadable hpaired
    rw [htake] at hloaded
    refine ⟨⟨ds, hwf, hstart, htake, hloaded⟩, fun hwhole => ?_⟩
    have hending := hloaded.ending
    rw [hwhole, List.take_length] at hending
    rw [hending]
    split
    · exact ⟨by decide, by decide⟩
    · split
      · exact ⟨by decide, by decide⟩
      · exact ⟨by decide, by decide⟩

end

/-! ### What is written -/

theorem isdigit_ll2string {n : ℕ} : ∀ c ∈ ll2string n, isdigit c = true := by
  rw [ll2string, if_neg (by omega)]
  exact fun c hc => isdigit_of_isDigit (ll2stringDigits_isDigit 31 _ c hc)

theorem isNumber_ll2string {n : ℕ} (h : n < 2 ^ 63) : IsNumber (ll2string n) n := by
  have hlong : IsLong n := ⟨by omega, by omega⟩
  have hvalue := decimalValue_ll2string hlong
  have hdrop : (ll2string n).dropWhile isspace = ll2string n := by
    cases hs : ll2string n with
    | nil => rfl
    | cons c t =>
      have hc := isdigit_ll2string c (hs ▸ List.mem_cons_self)
      rw [List.dropWhile_cons_of_neg]
      rw [isspace_of_isdigit hc]
      exact Bool.false_ne_true
  have hnewline : 10 ∉ ll2string n := fun hmem => absurd (isdigit_ll2string 10 hmem) (by decide)
  rw [decimalValue] at hvalue
  split at hvalue
  · rename_i hnil
    rw [ll2string, if_neg (by omega), ll2stringDigits] at hnil
    split at hnil
    · cases hnil
    · exact absurd (List.append_eq_nil_iff.mp hnil).2 (List.cons_ne_nil _ _)
  · split at hvalue
    · rename_i hsplit
      refine ⟨hnewline, ?_⟩
      rw [hdrop]
      exact ⟨hsplit.1, hsplit.2.1, (Option.some_inj.mp hvalue).symm⟩
    · cases hvalue

/-- An argument as it is written. -/
def rawArg (arg : Bytes) : RawArg := ⟨ll2string arg.length, arg⟩

/-- A command as it is written. -/
def rawCommand (argv : List Bytes) : RawCommand := ⟨ll2string argv.length, argv.map rawArg⟩

theorem argv_rawCommand (argv : List Bytes) : (rawCommand argv).argv = argv := by
  rw [RawCommand.argv, rawCommand, List.map_map]
  exact List.map_id argv

theorem encode_rawCommand (argv : List Bytes) : (rawCommand argv).encode = Aof.encode argv := by
  have hargs : encodeArgs (argv.map rawArg) =
      argv.flatMap fun arg => Aof.countLine '$' arg.length ++ arg ++ crlf := by
    rw [encodeArgs, List.flatMap_map]
    rfl
  rw [Aof.encode, ← hargs]
  rfl

section
variable (malloc : ℕ → Bool)

/-- A command that can be written and read again. -/
structure Writable (argv : List Bytes) : Prop where
  args : argv ≠ []
  small : argv.length < 2 ^ 31
  lengths : ∀ arg ∈ argv, arg.length < 2 ^ 31 ∧ malloc (arg.length + 2) = true

variable {malloc}

theorem Writable.wellFormed {argv : List Bytes} (h : Writable malloc argv) :
    (rawCommand argv).WellFormed := by
  have hsmall := h.small
  refine ⟨?_, fun hnil => h.args (List.map_eq_nil_iff.mp hnil), fun a ha => ?_⟩
  · rw [rawCommand, List.length_map]
    exact isNumber_ll2string (by omega)
  · obtain ⟨arg, harg, rfl⟩ := List.mem_map.mp ha
    exact isNumber_ll2string ((h.lengths arg harg).1.trans (by decide))

theorem length_ll2string_le {n : ℕ} (h : n < 2 ^ 31) : (ll2string n).length ≤ 124 := by
  rw [ll2string, if_neg (by omega)]
  exact (ll2stringDigits_length (k := 18) (by omega)).trans (by decide)

theorem Writable.short {argv : List Bytes} (h : Writable malloc argv) :
    (rawCommand argv).Short := by
  refine ⟨length_ll2string_le h.small, fun a ha => ?_⟩
  obtain ⟨arg, harg, rfl⟩ := List.mem_map.mp ha
  exact length_ll2string_le (h.lengths arg harg).1

theorem not_overlong {first : UInt8} {w s x y : Bytes} (hlen : w.length ≤ 124)
    (h : s ++ x = first :: (w ++ 13 :: 10 :: y)) : ¬Overlong first s := by
  rintro ⟨w', v, r, hw', hlen', rfl⟩
  rw [List.cons_append, List.append_assoc] at h
  have hfront : w ++ [13, 10] <+: w' := by
    refine List.prefix_of_prefix_length_le ⟨y, ?_⟩ ⟨r ++ x, (List.cons.inj h).2⟩ ?_
    · rw [List.append_assoc]
      rfl
    · rw [List.length_append, hlen', List.length_cons, List.length_singleton]
      omega
  exact hw'.1 (hfront.subset (List.mem_append_right _ (List.mem_cons_of_mem _ List.mem_cons_self)))

theorem not_lengthHazard {arg s x y : Bytes} (hlen : arg.length < 2 ^ 31)
    (hmalloc : malloc (arg.length + 2) = true) (h : s ++ x = (rawArg arg).encode ++ y) :
    ¬LengthHazard malloc s := by
  rw [RawArg.encode_append] at h
  have hnumber : IsNumber (ll2string arg.length) arg.length := isNumber_ll2string (by omega)
  rintro (hover | ⟨w, v, r, hw, -, rfl, hv⟩)
  · exact not_overlong (length_ll2string_le hlen) h hover
  · rw [List.cons_append, List.append_assoc] at h
    obtain ⟨rfl, -⟩ := line_inj hw.newline hnumber.1 (List.cons.inj h).2
    obtain rfl := hw.eq (.inl hnumber)
    obtain hv | hv | ⟨-, hv | hv⟩ := hv
    · omega
    · omega
    · omega
    · rw [show ((arg.length : ℤ) + 2).toNat = arg.length + 2 by omega, hmalloc] at hv
      cases hv

theorem not_commandHazard {argvs : List (List Bytes)}
    (hargvs : ∀ argv ∈ argvs, Writable malloc argv) {s : Bytes}
    (h : s <+: encodeAll (argvs.map rawCommand)) (inside : Bool) :
    ¬CommandHazard malloc inside s := by
  obtain ⟨x, hx⟩ := h
  cases argvs with
  | nil =>
    obtain ⟨rfl, -⟩ := List.append_eq_nil_iff.mp hx
    rintro (⟨w, v, r, -, -, hs⟩ | ⟨w, v, args, t, -, -, -, -, hs, -⟩)
    · cases hs
    · cases hs
  | cons argv argvs =>
    have hargv := hargvs argv List.mem_cons_self
    rw [List.map_cons, ← List.append_nil (encodeAll _), encodeAll_cons, List.append_nil,
      RawCommand.encode_append] at hx
    rintro (hover | ⟨w, v, args, t, hw, -, hvalid, -, rfl, hv⟩)
    · exact not_overlong hargv.short.1 hx hover
    · have hcount := hargv.wellFormed.count
      rw [List.cons_append, List.append_assoc] at hx
      obtain ⟨rfl, hrest⟩ := line_inj hw.newline hcount.1 (List.cons.inj hx).2
      obtain rfl := hw.eq (.inl hcount)
      rw [show (rawCommand argv).args.length = argv.length from List.length_map _] at hv
      have hsmall := hargv.small
      obtain ⟨hlt, hlength⟩ | ⟨hmax, hmin⟩ := hv
      · obtain ⟨arg, later, hdrop⟩ := List.exists_cons_of_ne_nil
          (List.ne_nil_of_length_pos (show 0 < (argv.drop args.length).length by
            rw [List.length_drop]
            omega))
        have hargs : encodeArgs (rawCommand argv).args =
            encodeArgs ((argv.take args.length).map rawArg) ++
              ((rawArg arg).encode ++ encodeArgs (later.map rawArg)) := by
          rw [← List.append_nil (encodeArgs (later.map rawArg)), ← encodeArgs_cons, List.append_nil,
            ← List.map_cons, ← hdrop, encodeArgs, encodeArgs, encodeArgs, ← List.flatMap_append,
            ← List.map_append, List.take_append_drop]
          rfl
        have hstart : encodeArgs args ++ (t ++ x) =
            encodeArgs ((argv.take args.length).map rawArg) ++
              ((rawArg arg).encode ++ (encodeArgs (later.map rawArg) ++
                encodeAll (argvs.map rawCommand))) := by
          rw [hargs] at hrest
          simpa using hrest
        have htaken : ∀ a ∈ (argv.take args.length).map rawArg, a.Valid := fun a ha => by
          obtain ⟨arg', harg', rfl⟩ := List.mem_map.mp ha
          exact .inl (hargv.wellFormed.lengths _
            (List.mem_map_of_mem (List.mem_of_mem_take harg')))
        obtain ⟨-, hnext⟩ := encodeArgs_inj (fun a ha => (hvalid a ha).1) htaken
          (by rw [List.length_map, List.length_take]; omega) hstart
        have harg := hargv.lengths arg (List.mem_of_mem_drop (hdrop ▸ List.mem_cons_self))
        exact not_lengthHazard harg.1 harg.2 hnext hlength
      · omega

theorem fits_of_cut {argvs : List (List Bytes)} (hargvs : ∀ argv ∈ argvs, Writable malloc argv)
    {file : Bytes} (hfile : file <+: encodeAll (argvs.map rawCommand)) : CheckFits malloc file := by
  have hraw : ∀ d ∈ argvs.map rawCommand, d.WellFormed ∧ d.Short ∧
      ∀ a ∈ d.args, a.arg.length < 2 ^ 31 := fun d hd => by
    obtain ⟨argv, hargv, rfl⟩ := List.mem_map.mp hd
    refine ⟨(hargvs argv hargv).wellFormed, (hargvs argv hargv).short, fun a ha => ?_⟩
    obtain ⟨arg, harg, rfl⟩ := List.mem_map.mp ha
    exact ((hargvs argv hargv).lengths arg harg).1
  have hstart : ∀ {cs : List RawCommand}, (∀ c ∈ cs, c.Valid) → encodeAll cs <+: file →
      cs <+: argvs.map rawCommand := fun hcs hfront =>
    prefix_of_encodeAll hcs (fun d hd => (hraw d hd).1.valid) (hfront.trans hfile)
  refine ⟨?_, fun cs hcs h => ?_⟩
  · rintro ⟨cs, inside, s, hcs, -, rfl, hhazard⟩
    obtain ⟨ds, hds⟩ := hstart (fun c hc => (hcs c hc).1) (List.prefix_append _ _)
    obtain ⟨argvs₁, argvs₂, rfl, rfl, rfl⟩ := List.map_eq_append_iff.mp hds.symm
    rw [List.map_append, encodeAll, encodeAll, List.flatMap_append,
      List.prefix_append_right_inj] at hfile
    exact not_commandHazard (fun argv hargv => hargvs argv (List.mem_append_right _ hargv)) hfile
      inside hhazard
  · have hsub := (hstart hcs h.front).subset
    exact ⟨iff_of_true (fun c hc => (hraw c (hsub hc)).1) fun c hc => (hraw c (hsub hc)).2.1,
      fun _ c hc => (hraw c (hsub hc)).2.2⟩

end

/-! ### Transactions that are not finished -/

/-- A command with the name `name`. -/
def Named (name : Bytes) (argv : List Bytes) : Prop := ∃ first ∈ argv.head?, strcasecmp first name

/-- The command with the index `i` comes after a MULTI after which there is no EXEC. -/
def Unfinished (commands : List (List Bytes)) (i : ℕ) : Prop :=
  ∃ m ≤ i, (∃ argv ∈ commands[m]?, Named multiName argv) ∧
    ∀ e argv, m < e → commands[e]? = some argv → ¬Named execName argv

theorem step_of_take {commands : List (List Bytes)} {j : ℕ} {argv : List Bytes}
    {inside inside' : Bool} (hargv : commands[j]? = some argv)
    (h : Runs.run transactionStep false (commands.take j) = some inside)
    (h' : Runs.run transactionStep false (commands.take (j + 1)) = some inside') :
    transactionStep inside argv = some inside' := by
  rw [List.take_add_one, hargv, Option.toList_some, Runs.run_append_eq_some] at h'
  obtain ⟨m, hm, hstep⟩ := h'
  obtain rfl := Option.some_inj.mp (h.symm.trans hm)
  obtain ⟨m', hm', hnil⟩ := Runs.run_cons_eq_some.mp hstep
  rw [hm', Option.some_inj.mp hnil]

theorem multi_of_step {argv : List Bytes} (h : transactionStep false argv = some true) :
    Named multiName argv := by
  cases argv with
  | nil => cases h
  | cons name argv =>
    rw [transactionStep] at h
    split at h
    · rename_i hname
      exact ⟨name, rfl, hname⟩
    · split at h
      · cases h
      · cases h

theorem not_exec_of_step {argv : List Bytes} (h : transactionStep true argv = some true) :
    ¬Named execName argv := by
  rintro ⟨name, hname, hexec⟩
  cases argv with
  | nil => cases hname
  | cons first argv =>
    obtain rfl := Option.some_inj.mp hname
    rw [transactionStep] at h
    split at h
    · cases h
    · rw [if_pos rfl] at h
      cases h

theorem isSome_run_take {commands : List (List Bytes)} {inside : Bool}
    (h : (Runs.run transactionStep inside commands).isSome = true) (j : ℕ) :
    (Runs.run transactionStep inside (commands.take j)).isSome = true := by
  obtain ⟨b, hb⟩ := Option.isSome_iff_exists.mp h
  rw [← List.take_append_drop j commands, Runs.run_append_eq_some] at hb
  obtain ⟨m, hm, -⟩ := hb
  rw [hm]
  rfl

/-- A command that is not in an unfinished transaction is in the longest part in which every MULTI
is closed. -/
theorem paired_of_not_unfinished {commands : List (List Bytes)}
    (hrun : (Runs.run transactionStep false commands).isSome = true) {i : ℕ}
    (hi : i < commands.length) (h : ¬Unfinished commands i) :
    ∃ j, i < j ∧ j ≤ commands.length ∧ Paired (commands.take j) := by
  classical
  let j := Nat.findGreatest (fun j => Paired (commands.take j)) commands.length
  have hle : j ≤ commands.length := Nat.findGreatest_le _
  have hj : Paired (commands.take j) :=
    Nat.findGreatest_spec (P := fun j => Paired (commands.take j)) (Nat.zero_le _) rfl
  by_contra hno
  have hji : j ≤ i := not_lt.mp fun hlt => hno ⟨j, hlt, hle, hj⟩
  -- a transaction is open after the part
  have hopen : ∀ e, j < e → e ≤ commands.length →
      Runs.run transactionStep false (commands.take e) = some true := fun e hlt hle => by
    obtain ⟨b, hb⟩ := Option.isSome_iff_exists.mp (isSome_run_take hrun e)
    cases b with
    | true => exact hb
    | false => exact absurd hb (Nat.findGreatest_is_greatest hlt hle)
  refine h ⟨j, hji, ⟨commands[j], List.getElem?_eq_getElem (by omega), ?_⟩, fun e argv hlt he => ?_⟩
  · exact multi_of_step (step_of_take (List.getElem?_eq_getElem (by omega)) hj
      (hopen (j + 1) (by omega) (by omega)))
  · obtain ⟨hsize, -⟩ := List.getElem?_eq_some_iff.mp he
    exact not_exec_of_step (step_of_take he (hopen e hlt hsize.le) (hopen (e + 1) (by omega) hsize))

/-! ### Files of `feedAppendOnlyFile` -/

/-- A call of `feedAppendOnlyFile`. -/
structure Call where
  cmd : Aof.Proc
  dictid : ℤ
  argv : List Bytes
  mstime : ℤ

/-- What a command is translated to. -/
def translated (c : Call) : Option (List (List Bytes)) :=
  match c.cmd, c.argv with
  | .other, argv => some [argv]
  | .setexCommand, _ :: key :: seconds :: val :: _
  | .psetexCommand, _ :: key :: seconds :: val :: _ =>
    some [[ascii ['S', 'E', 'T'], key, val], Aof.pexpireat c.cmd key seconds c.mstime]
  | .expireCommand, _ :: key :: seconds :: _
  | .pexpireCommand, _ :: key :: seconds :: _
  | .expireatCommand, _ :: key :: seconds :: _ => some [Aof.pexpireat c.cmd key seconds c.mstime]
  | _, _ => none

def selectCommand (dictid : ℤ) : List Bytes :=
  [ascii ['S', 'E', 'L', 'E', 'C', 'T'], ll2string dictid]

/-- The commands that a call appends. -/
def fedCommands (selectedDb : ℤ) (c : Call) : Option (List (List Bytes)) :=
  (translated c).map fun commands =>
    (if c.dictid ≠ selectedDb then [selectCommand c.dictid] else []) ++ commands

theorem translation_eq (c : Call) : Aof.translation c.cmd c.argv c.mstime =
    (translated c).map fun commands => commands.flatMap Aof.encode := by
  obtain ⟨cmd, dictid, argv, mstime⟩ := c
  rcases argv with _ | ⟨name, _ | ⟨key, _ | ⟨seconds, _ | ⟨val, argv⟩⟩⟩⟩ <;>
    cases cmd <;> simp [Aof.translation, translated]

theorem selectBytes_eq (dictid : ℤ) :
    Aof.selectBytes dictid = Aof.encode (selectCommand dictid) := by
  have hcount : Aof.countLine '*' 2 = ascii ['*', '2'] ++ crlf := by decide
  have hlength : Aof.countLine '$' 6 = ascii ['$', '6'] ++ crlf := by decide
  rw [Aof.encode, selectCommand, List.flatMap_cons, List.flatMap_singleton]
  show _ = Aof.countLine '*' 2 ++ (Aof.countLine '$' 6 ++ _ ++ _ ++ _)
  rw [hcount, hlength, Aof.selectBytes]
  simp only [List.append_assoc]

theorem fedBytes_eq (selectedDb : ℤ) (c : Call) :
    Aof.fedBytes selectedDb c.cmd c.dictid c.argv c.mstime =
      (fedCommands selectedDb c).map fun commands => commands.flatMap Aof.encode := by
  rw [Aof.fedBytes, translation_eq, fedCommands, Option.map_map, Option.map_map]
  congr 1
  funext commands
  rw [Function.comp, Function.comp, List.flatMap_append]
  split
  · rw [List.flatMap_singleton, selectBytes_eq]
  · rfl

/-- A server, the file, and the commands that were written to it. -/
structure Written where
  server : Aof.AofServer
  file : Bytes
  commands : List (List Bytes)

/-- A call, after which what is in `aof_buf` is written. -/
def writeStep (w : Written) (c : Call) : Option Written := do
  let server ← Aof.feedAppendOnlyFile { w.server with aofBuf := Aof.sdsempty } c.cmd c.dictid c.argv
    c.mstime
  let bytes ← server.aofBuf.bytes
  let commands ← fedCommands w.server.aofSelectedDb c
  some ⟨server, w.file ++ bytes, w.commands ++ commands⟩

/-- A server that starts to write. -/
def startWriting (s : Aof.AofServer) : Written := ⟨{ s with aofState := .on }, [], []⟩

section
variable (malloc : ℕ → Bool)

/-- The condition on a call: the command has its arguments, the bytes that are appended are less
than 2^31, there is memory for the arguments, and MULTI and EXEC come in turn. -/
def Feeds (w : Written) (c : Call) : Prop :=
  ∃ commands, fedCommands w.server.aofSelectedDb c = some commands ∧
    (commands.flatMap Aof.encode).length < 2 ^ 31 ∧
    (∀ argv ∈ commands, argv ≠ [] ∧ ∀ arg ∈ argv, malloc (arg.length + 2) = true) ∧
    (Runs.run transactionStep false (w.commands ++ commands)).isSome = true

/-- The file consists of the commands, which can be read again. -/
structure WrittenRight (w : Written) : Prop where
  on : w.server.aofState = .on
  file : w.file = w.commands.flatMap Aof.encode
  writable : ∀ argv ∈ w.commands, Writable malloc argv
  order : (Runs.run transactionStep false w.commands).isSome = true

variable {malloc}

theorem length_le_flatMap {α : Type} {f : α → Bytes} {a : α} {l : List α} (h : a ∈ l) :
    (f a).length ≤ (l.flatMap f).length := by
  obtain ⟨l₁, l₂, rfl⟩ := List.append_of_mem h
  rw [List.flatMap_append, List.flatMap_cons, List.length_append, List.length_append]
  omega

theorem length_le_encode (argv : List Bytes) : argv.length ≤ (Aof.encode argv).length ∧
    ∀ arg ∈ argv, arg.length ≤ (Aof.encode argv).length := by
  rw [Aof.encode, List.length_append]
  constructor
  · refine le_trans ?_ (Nat.le_add_left _ _)
    induction argv with
    | nil => exact le_rfl
    | cons arg argv ih =>
      rw [List.flatMap_cons, List.length_append, List.length_append, List.length_cons,
        show crlf.length = 2 from rfl]
      omega
  · intro arg harg
    have hle := length_le_flatMap (f := fun arg => Aof.countLine '$' arg.length ++ arg ++ crlf) harg
    simp only [List.length_append] at hle ⊢
    omega

theorem writable_of_feeds {commands : List (List Bytes)}
    (hlen : (commands.flatMap Aof.encode).length < 2 ^ 31)
    (h : ∀ argv ∈ commands, argv ≠ [] ∧ ∀ arg ∈ argv, malloc (arg.length + 2) = true) :
    ∀ argv ∈ commands, Writable malloc argv := fun argv hargv => by
  have hle := length_le_flatMap (f := Aof.encode) hargv
  obtain ⟨hcount, hargs⟩ := length_le_encode argv
  exact ⟨(h argv hargv).1, by omega, fun arg harg =>
    ⟨by have := hargs arg harg; omega, (h argv hargv).2 arg harg⟩⟩

theorem writtenRight_step {w : Written} {c : Call} (hw : WrittenRight malloc w)
    (hfeeds : Feeds malloc w c) : ∃ w', writeStep w c = some w' ∧ WrittenRight malloc w' := by
  obtain ⟨commands, hcommands, hlen, hargs, horder⟩ := hfeeds
  have hfed : Aof.fedBytes w.server.aofSelectedDb c.cmd c.dictid c.argv c.mstime
      = some (commands.flatMap Aof.encode) := by
    rw [fedBytes_eq, hcommands, Option.map_some]
  obtain ⟨server, hrun, hstate, -, -, -, -, hbuf⟩ := Aof.feed_small (b := [])
    (s := { w.server with aofBuf := Aof.sdsempty }) hw.on rfl hfed
    (by rw [List.length_nil]; omega)
  refine ⟨⟨server, w.file ++ commands.flatMap Aof.encode, w.commands ++ commands⟩, ?_,
    hstate.trans hw.on, ?_, ?_, horder⟩
  · rw [writeStep, hrun, Option.bind_eq_bind, Option.bind_some, hbuf, List.nil_append,
      Aof.bytes_full hlen, hcommands]
    rfl
  · show w.file ++ _ = _
    rw [hw.file, List.flatMap_append]
  · exact List.forall_mem_append.mpr ⟨hw.writable, writable_of_feeds hlen hargs⟩

theorem encodeAll_rawCommand (argvs : List (List Bytes)) :
    encodeAll (argvs.map rawCommand) = argvs.flatMap Aof.encode := by
  rw [encodeAll, List.flatMap_map]
  exact congrArg (argvs.flatMap ·) (funext encode_rawCommand)

end

/-- The commands of which all bytes are among the first `k`. -/
def complete : ℕ → List (List Bytes) → List (List Bytes)
  | _, [] => []
  | k, argv :: argvs =>
    if (Aof.encode argv).length ≤ k then argv :: complete (k - (Aof.encode argv).length) argvs
    else []

theorem complete_isPrefix (k : ℕ) (argvs : List (List Bytes)) :
    complete k argvs <+: argvs ∧ ((complete k argvs).flatMap Aof.encode).length ≤ k := by
  induction argvs generalizing k with
  | nil => exact ⟨List.prefix_rfl, Nat.zero_le _⟩
  | cons argv argvs ih =>
    rw [complete]
    split
    · obtain ⟨hfront, hle⟩ := ih (k - (Aof.encode argv).length)
      refine ⟨List.cons_prefix_cons.mpr ⟨rfl, hfront⟩, ?_⟩
      rw [List.flatMap_cons, List.length_append]
      omega
    · exact ⟨List.nil_prefix, Nat.zero_le _⟩

section
variable (malloc : ℕ → Bool)

/-- For every cut of the file, `process` is right, and what it keeps contains every complete command
that is not inside an unfinished transaction. -/
def KeepsFinished (w : Written) : Prop :=
  ∀ k, CheckRight malloc (w.file.take k) ∧ ∀ n, process malloc (w.file.take k) = some n →
    ∀ i < (complete k w.commands).length, ¬Unfinished (complete k w.commands) i →
      (((complete k w.commands).take (i + 1)).flatMap Aof.encode).length ≤ n

variable {malloc}

theorem keepsFinished_of_right {w : Written} (hw : WrittenRight malloc w) :
    KeepsFinished malloc w := by
  intro k
  have hfile : w.file.take k <+: encodeAll (w.commands.map rawCommand) := by
    rw [encodeAll_rawCommand, ← hw.file]
    exact List.take_prefix _ _
  refine ⟨right_of_fits malloc (fits_of_cut hw.writable hfile), fun n hproc i hi hfinished => ?_⟩
  obtain ⟨hfront, hle⟩ := complete_isPrefix k w.commands
  have horder : (Runs.run transactionStep false (complete k w.commands)).isSome = true := by
    have htake := isSome_run_take hw.order (complete k w.commands).length
    rwa [← List.prefix_iff_eq_take.mp hfront] at htake
  obtain ⟨j, hij, hj, hpaired⟩ := paired_of_not_unfinished horder hi hfinished
  have hpart : (complete k w.commands).take j <+: w.commands := (List.take_prefix _ _).trans hfront
  have hbytes : encodeAll (((complete k w.commands).take j).map rawCommand) <+: w.file.take k := by
    rw [encodeAll_rawCommand, List.prefix_take_iff, hw.file]
    exact ⟨hpart.flatMap _, ((List.take_prefix _ _).flatMap _).length_le.trans hle⟩
  have hkept := process_le malloc hproc (fun d hd => ?_) ?_ hbytes
  · rw [encodeAll_rawCommand] at hkept
    refine le_trans ?_ hkept
    exact ((List.take_prefix_take_left hij).flatMap _).length_le
  · obtain ⟨argv, hargv, rfl⟩ := List.mem_map.mp hd
    have hwritable := hw.writable argv (hpart.subset hargv)
    exact ⟨hwritable.wellFormed.valid, hwritable.short⟩
  · rwa [List.map_map, show RawCommand.argv ∘ rawCommand = id from funext argv_rawCommand,
      List.map_id]

/-- `redis-check-aof` agrees with the loader on a file if and only if the file meets the condition,
and it keeps what it should of all files that calls of `feedAppendOnlyFile` write. -/
theorem check_agrees (malloc : ℕ → Bool) :
    (∀ file, CheckRight malloc file ↔ CheckFits malloc file) ∧
      ∀ (s : Aof.AofServer) (calls : List Call),
        Runs.AllSteps writeStep (Feeds malloc) (startWriting s) calls →
        ∃ w, Runs.run writeStep (startWriting s) calls = some w ∧ KeepsFinished malloc w := by
  refine ⟨fun file => ⟨fits_of_right malloc, right_of_fits malloc⟩, fun s calls hcalls => ?_⟩
  have hstart : WrittenRight malloc (startWriting s) :=
    ⟨rfl, rfl, fun argv hargv => absurd hargv List.not_mem_nil, rfl⟩
  obtain ⟨w, hrun, hw⟩ := Runs.run_total_of_allSteps (fun w c => writtenRight_step) hstart hcalls
  exact ⟨w, hrun, keepsFinished_of_right hw⟩

end

/-- `SET a b`, fed for the database 0. -/
def feedSetB : Call := ⟨.other, 0, [ascii ['S', 'E', 'T'], [97], [98]], 0⟩

/-- A file with one command. -/
theorem check_agrees_set : ∃ w, Runs.run writeStep (startWriting Aof.everysecServer) [feedSetB]
    = some w ∧ KeepsFinished (fun _ => true) w := by
  refine (check_agrees fun _ => true).2 Aof.everysecServer [feedSetB]
    ⟨⟨_, rfl, ?_, ?_, ?_⟩, fun _ _ => trivial⟩
  · decide
  · exact List.forall_mem_singleton.mpr ⟨List.cons_ne_nil _ _, fun _ _ => rfl⟩
  · decide

/-- A command without arguments is kept. -/
theorem not_checkRight_empty : ¬CheckRight (fun _ => true) [42, 48, 13, 10] := by
  rintro ⟨n, hproc, ⟨⟨cs, hcs, -, rfl⟩, -⟩, -⟩
  have hargc : readArgc [42, 48, 13, 10] = .ok (0, []) := by decide +kernel
  have hend : readArgc [] = .failed := rfl
  have hread : process (fun _ => true) [42, 48, 13, 10] = some 4 := by
    rw [process, processLoop_eq, hargc]
    dsimp only
    rw [argsLoop_done _ (by decide)]
    dsimp only
    rw [processLoop_eq, hend]
    rfl
  have hlength := Option.some_inj.mp (hread.symm.trans hproc)
  cases cs with
  | nil => cases hlength
  | cons c cs =>
    obtain ⟨hc, -⟩ := List.forall_mem_cons.mp hcs
    obtain ⟨a, args, hargs⟩ := List.exists_cons_of_ne_nil hc.args
    have htext := List.length_pos_of_ne_nil hc.count.ne_nil
    have hcrlf : crlf.length = 2 := rfl
    rw [encodeAll, List.flatMap_cons, List.length_append, RawCommand.encode, List.length_cons,
      List.length_append, List.length_append, hargs, encodeArgs, List.flatMap_cons,
      List.length_append, RawArg.encode, List.length_cons, List.length_append, hcrlf] at hlength
    omega

end AofCheck

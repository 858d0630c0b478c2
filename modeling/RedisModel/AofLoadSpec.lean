/-
What `loadAppendOnlyFile` loads.

* `loadArg_spec`, `loadArgs_spec` — arguments that are shorter than 2 GB;
* `loadLoop_spec`, `load_spec` — a file of commands in which every MULTI is closed is loaded, up to
  the first command that is not known.
-/
import RedisModel.AofCheckSpec
import RedisModel.AofLoad

open RedisCommands AofCheck AofFormat
open DynamicString (Represents toSize)

namespace AofLoad

/-! ### Arguments -/

theorem head_lineBuf (first : UInt8) (u : Bytes) : (lineBuf (first :: u)).head? = some first := rfl

theorem strtoll_lineBuf {first : UInt8} {w : Bytes} {v : ℤ} (h : IsText w v)
    (hlen : w.length ≤ 124) :
    (strtoll (cString ((lineBuf (first :: (w ++ [13, 10]))).drop 1))).value = clamp v := by
  have hsize : (w ++ [13, 10]).length ≤ 126 := by
    rw [List.length_append, List.length_cons, List.length_singleton]
    omega
  rw [cString_lineBuf hsize, cString_text h, strtoll_text h, saturate_value]

theorem newArgument_represents {arg : Bytes} (h : arg.length < 2 ^ 31) :
    Represents (newArgument arg) arg := by
  have hlen : DynamicString.toInt arg.length = arg.length :=
    DynamicString.toInt_eq (by omega) (by omega)
  rw [newArgument, hlen]
  exact ⟨[], rfl, h, show (-2 : ℤ) ^ 31 ≤ 0 ∧ (0 : ℤ) < 2 ^ 31 by decide, rfl,
    show (0 : ℤ) % 2 ^ 32 + 1 ≤ 1 by decide⟩

theorem loadArg_spec {a : RawArg} (hvalid : a.Valid) (hshort : a.Short)
    (hlength : a.arg.length < 2 ^ 31) (s : Bytes) :
    loadArg (a.encode ++ s) = .ok (newArgument a.arg, s) := by
  have hsize : toSize (a.arg.length : ℤ) = a.arg.length :=
    DynamicString.toSize_natCast (by omega)
  rw [a.encode_append, loadArg, fgets_text hvalid hshort (by decide)]
  dsimp only
  rw [head_lineBuf, strtoll_lineBuf hvalid hshort, clamp_eq (by omega) (by omega), hsize,
    if_neg (not_not.mpr rfl), List.take_left, List.drop_left, if_neg, if_neg]
  · rfl
  · simp
  · rw [List.length_append]
    omega

theorem loadArgs_spec {args : List RawArg}
    (hargs : ∀ a ∈ args, a.Valid ∧ a.Short ∧ a.arg.length < 2 ^ 31) (s : Bytes) :
    loadArgs args.length (encodeArgs args ++ s)
      = .ok (args.map fun a => newArgument a.arg, s) := by
  induction args with
  | nil => rfl
  | cons a args ih =>
    obtain ⟨⟨hvalid, hshort, hlength⟩, hargs⟩ := List.forall_mem_cons.mp hargs
    exact loadArgs_cons.mpr ⟨_, _, _, by
      rw [encodeArgs_cons]
      exact loadArg_spec hvalid hshort hlength _, ih hargs, rfl⟩

/-! ### Commands -/

/-- A command that can be loaded. -/
structure Loadable (c : RawCommand) : Prop where
  count : IsText c.text c.args.length
  args : c.args ≠ []
  small : c.args.length < 2 ^ 31
  short : c.text.length ≤ 124
  lengths : ∀ a ∈ c.args, a.Valid ∧ a.Short ∧ a.arg.length < 2 ^ 31

section
variable (table : CommandTable)

/-- A command that is in the table. -/
def isKnown (argv : List Bytes) : Bool := (argv.head?.bind table.lookup).isSome

/-- A file is loaded as the commands, up to the first one that is not in the table. -/
structure LoadedAs (file : Bytes) (commands : List (List Bytes)) : Prop where
  loaded : List.Forall₂ (List.Forall₂ Represents) (loadAppendOnlyFile table file).1
    (commands.takeWhile (isKnown table))
  ending : (loadAppendOnlyFile table file).2 =
    if file = [] then .empty else if commands.all (isKnown table) then .done else .unknown

theorem loadLoop_eq (multi : Bool) (s : Bytes) : loadLoop table multi s =
    match fgets 128 s with
    | none => ([], if multi then .readerr else .done)
    | some (line, s') =>
      if (lineBuf line).head? ≠ some 42 then ([], .fmterr)
      else if atoi ((lineBuf line).drop 1) < 1 then ([], .fmterr)
      else
        match loadArgs (atoi ((lineBuf line).drop 1)).toNat s' with
        | .error ending => ([], ending)
        | .ok (argv, rest) =>
          match argv.head?.bind fun name => table.lookup (DynamicString.contents name) with
          | none => ([], .unknown)
          | some cmd => (argv :: (loadLoop table (cmd.flag multi) rest).1,
              (loadLoop table (cmd.flag multi) rest).2) := by
  rw [loadLoop]
  split
  · rename_i hline
    rw [hline]
  · rename_i line s' hline
    rw [hline]
    dsimp only
    split
    · rfl
    · split
      · rfl
      · split
        · rename_i hargs
          rw [hargs]
        · rename_i argv rest hargs
          split
          · rename_i hname
            simp only [hargs, hname]
          · rename_i cmd hname
            simp only [hargs, hname]

theorem loadLoop_command {c : RawCommand} (h : Loadable c) (multi : Bool) (s : Bytes) :
    loadLoop table multi (c.encode ++ s) =
      match c.argv.head?.bind table.lookup with
      | none => ([], .unknown)
      | some cmd => (c.argv.map newArgument :: (loadLoop table (cmd.flag multi) s).1,
          (loadLoop table (cmd.flag multi) s).2) := by
  have hsmall := h.small
  have hcount : atoi ((lineBuf (42 :: (c.text ++ [13, 10]))).drop 1) = c.args.length := by
    rw [atoi, strtoll_lineBuf h.count h.short, clamp_eq (by omega) (by omega),
      toInt_of_lt (by omega) (by omega)]
  have hpos := List.length_pos_iff.mpr h.args
  rw [loadLoop_eq, c.encode_append, fgets_text h.count h.short (by decide)]
  dsimp only
  rw [head_lineBuf, if_neg (not_not.mpr rfl), hcount, if_neg (by omega), Int.toNat_natCast,
    loadArgs_spec h.lengths]
  dsimp only
  have hname : (c.args.map fun a => newArgument a.arg).head?.bind
      (fun name => table.lookup (DynamicString.contents name)) =
        c.argv.head?.bind table.lookup := by
    cases hargs : c.args with
    | nil => exact absurd hargs h.args
    | cons a args =>
      have ha := (h.lengths a (hargs ▸ List.mem_cons_self)).2.2
      rw [RawCommand.argv, hargs]
      exact congrArg table.lookup (newArgument_represents ha).contents
  rw [hname, RawCommand.argv, List.map_map]
  rfl

theorem flag_of_step {inside inside' multi : Bool} {name : Bytes} {argv : List Bytes}
    {cmd : Command} (hlookup : table.lookup name = some cmd)
    (hstep : transactionStep inside (name :: argv) = some inside')
    (hmulti : multi = true → inside = true) (hflag : cmd.flag multi = true) : inside' = true := by
  have hmulti_iff := table.multi_iff name cmd hlookup
  have hexec_iff := table.exec_iff name cmd hlookup
  rw [transactionStep] at hstep
  cases cmd with
  | multiCommand =>
    rw [if_pos (hmulti_iff.mp rfl)] at hstep
    split at hstep
    · cases hstep
    · exact (Option.some_inj.mp hstep).symm
  | execCommand | discardCommand => cases hflag
  | other =>
    have hmulti_name : ¬strcasecmp name multiName = true := fun h => by cases hmulti_iff.mpr h
    have hexec_name : ¬strcasecmp name execName = true := fun h => by cases hexec_iff.mpr h
    rw [if_neg hmulti_name, if_neg hexec_name] at hstep
    exact (Option.some_inj.mp hstep).symm.trans (hmulti hflag)

theorem loadLoop_spec {cs : List RawCommand} (hcs : ∀ c ∈ cs, Loadable c) {inside multi : Bool}
    (hrun : Runs.run transactionStep inside (cs.map RawCommand.argv) = some false)
    (hmulti : multi = true → inside = true) :
    loadLoop table multi (encodeAll cs) =
      (((cs.map RawCommand.argv).takeWhile (isKnown table)).map (List.map newArgument),
        if (cs.map RawCommand.argv).all (isKnown table) then .done else .unknown) := by
  induction cs generalizing inside multi with
  | nil =>
    obtain rfl := Option.some_inj.mp hrun
    rw [loadLoop_eq]
    cases multi with
    | true => cases hmulti rfl
    | false => rfl
  | cons c cs ih =>
    obtain ⟨hc, hcs⟩ := List.forall_mem_cons.mp hcs
    obtain ⟨inside', hstep, hrest⟩ := Runs.run_cons_eq_some.mp hrun
    rw [encodeAll, List.flatMap_cons, loadLoop_command table hc, List.map_cons, List.takeWhile_cons,
      List.all_cons]
    cases hcmd : c.argv.head?.bind table.lookup with
    | none =>
      rw [isKnown, hcmd]
      rfl
    | some cmd =>
      obtain ⟨name, argv, hname, hlookup⟩ : ∃ name argv, c.argv = name :: argv ∧
          table.lookup name = some cmd := by
        cases hargv : c.argv with
        | nil =>
          rw [hargv] at hcmd
          cases hcmd
        | cons name argv =>
          rw [hargv] at hcmd
          exact ⟨name, argv, rfl, hcmd⟩
      rw [hname] at hstep
      have hloop := ih hcs hrest (flag_of_step table hlookup hstep hmulti)
      rw [encodeAll] at hloop
      dsimp only
      rw [hloop, isKnown, hcmd]
      rfl

theorem load_spec {cs : List RawCommand} (hcs : ∀ c ∈ cs, Loadable c)
    (hpaired : Paired (cs.map RawCommand.argv)) :
    LoadedAs table (encodeAll cs) (cs.map RawCommand.argv) := by
  have hload : loadAppendOnlyFile table (encodeAll cs) =
      (((cs.map RawCommand.argv).takeWhile (isKnown table)).map (List.map newArgument),
        if encodeAll cs = [] then .empty
        else if (cs.map RawCommand.argv).all (isKnown table) then .done else .unknown) := by
    rw [loadAppendOnlyFile]
    cases cs with
    | nil => rfl
    | cons c cs =>
      have hne : encodeAll (c :: cs) ≠ [] := fun h => by cases h
      rw [if_neg hne, if_neg hne]
      exact loadLoop_spec table hcs hpaired fun h => h
  refine ⟨?_, by rw [hload]⟩
  rw [hload]
  -- every argument is shorter than 2 GB
  have hshort : ∀ argv ∈ (cs.map RawCommand.argv).takeWhile (isKnown table), ∀ arg ∈ argv,
      arg.length < 2 ^ 31 := by
    intro argv hargv arg harg
    obtain ⟨c, hc, rfl⟩ := List.mem_map.mp (List.takeWhile_subset _ hargv)
    obtain ⟨a, ha, rfl⟩ := List.mem_map.mp harg
    exact ((hcs c hc).lengths a ha).2.2
  rw [List.forall₂_map_left_iff, List.forall₂_same]
  intro argv hargv
  rw [List.forall₂_map_left_iff, List.forall₂_same]
  exact fun arg harg => newArgument_represents (hshort argv hargv arg harg)

end

end AofLoad

/-
Calls from scripts over the life of a server.

* `CallRight` — a call does nothing that is not allowed, and a command is executed with the strings
  of the script;
* `CallOk` — the condition for it;
* `scriptCommands_iff` — the calls of a run are all right if and only if they meet the condition.
-/
import RedisModel.Runs
import RedisModel.ScriptCommandsSpec

open StringNumber
open DynamicString (Sdshdr Represents)

namespace ScriptCommands

/-- What happens on a server: a script starts, the rest of the server does something, or a script
calls a command. -/
inductive Event where
  | evalGenericCommand
  | activity (a : Activity)
  | call (c : Call)

def step (s : ScriptState) : Event → Option ScriptState
  | .evalGenericCommand => some { s with luaRandomDirty := false, luaWriteDirty := false }
  | .activity a => some { s with heap := a.run s.heap }
  | .call c => (luaRedisGenericCommand s c).toOption.map Prod.fst

/-- A server without objects, on which no command was called. -/
def start : ScriptState :=
  ⟨⟨[], fun _ => 0⟩, none, 0, ObjectCache.empty, false, false⟩

/-- The string of an argument. -/
def SameString (arg : Option Bytes) (str : Option Sdshdr) : Prop :=
  ∃ a p, arg = some a ∧ str = some p ∧ Represents p a

/-- Nothing that is not allowed is done, and if the command is executed, its arguments are those of
the call. -/
def CallRight (s : ScriptState) (c : Call) : Prop :=
  ∃ s' executed, luaRedisGenericCommand s c = .ok (s', executed) ∧
    ∀ strs, executed = some strs → List.Forall₂ SameString c.args strs

/-- The command is executed: all arguments are strings, and it is not refused. -/
def Executes (s : ScriptState) (c : Call) : Prop :=
  c.args ≠ [] ∧ (leading c.args).length = c.args.length ∧ ∃ cmd, c.cmd = some cmd ∧
    allowed s c cmd = true ∧ ¬(needsMemory s c cmd = true ∧ c.outOfMemory = true)

/-- There are at most 32 strings in front of the first argument that is not a string; a vector that
is kept because of `argv_size` has as many elements; and the strings of a command that is executed
have less than 2^31 bytes. -/
structure CallOk (s : ScriptState) (c : Call) : Prop where
  cache : (leading c.args).length ≤ objcacheSize
  vector : ∀ size, s.argv = some size → c.args.length ≤ s.argvSize →
    (leading c.args).length ≤ size
  short : Executes s c → ∀ a ∈ leading c.args, a.length < 2 ^ 31

/-- The invariant: the counts of references are right, and the cached objects are not referenced
elsewhere. -/
structure Inv (s : ScriptState) : Prop where
  accounted : Accounted s.heap s.cache.count
  cache : CacheOk s.heap s.cache

def EventRight (s : ScriptState) : Event → Prop
  | .call c => CallRight s c
  | _ => True

def EventOk (s : ScriptState) : Event → Prop
  | .call c => CallOk s c
  | _ => True

/-! ### One call -/

theorem length_leading_le (args : List (Option Bytes)) : (leading args).length ≤ args.length := by
  induction args with
  | nil => exact le_rfl
  | cons arg args ih =>
    cases arg with
    | none => exact Nat.zero_le _
    | some s =>
      rw [leading, List.length_cons, List.length_cons]
      omega

theorem eq_map_leading {args : List (Option Bytes)} (h : (leading args).length = args.length) :
    args = (leading args).map some := by
  induction args with
  | nil => rfl
  | cons arg args ih =>
    cases arg with
    | none => cases h
    | some s =>
      rw [leading, List.map_cons, ← ih (Nat.succ.inj h)]

theorem le_allocateArgv_iff (s : ScriptState) (c : Call) :
    (leading c.args).length ≤ (allocateArgv s c.args.length).1 ↔
      ∀ size, s.argv = some size → c.args.length ≤ s.argvSize →
        (leading c.args).length ≤ size := by
  have hle := length_leading_le c.args
  rw [allocateArgv]
  cases hargv : s.argv with
  | none => exact iff_of_true hle fun size h => by cases h
  | some size =>
    dsimp only
    split
    · rename_i hlt
      exact iff_of_true hle fun _ _ hge => absurd hge (not_le.mpr hlt)
    · rename_i hge
      refine ⟨fun h size' hsize _ => ?_, fun h => h size rfl (not_lt.mp hge)⟩
      obtain rfl := Option.some_inj.mp hsize
      exact h

theorem sameStrings_iff {h : Heap} {argv : List ℕ} {strs : List Bytes}
    (hbuilt : List.Forall₂ (Holds h) argv strs) :
    List.Forall₂ SameString (strs.map some) (strings h argv) ↔ ∀ a ∈ strs, a.length < 2 ^ 31 := by
  induction hbuilt with
  | nil => exact iff_of_true .nil fun a ha => absurd ha List.not_mem_nil
  | cons hr _ ih =>
    obtain ⟨o, hget, -, hsds, hrep⟩ := hr
    rw [strings, List.map_cons, List.map_cons, List.forall₂_cons, List.forall_mem_cons, ← ih]
    refine and_congr ⟨?_, fun hshort => ?_⟩ Iff.rfl
    · rintro ⟨a, p, ha, -, hp⟩
      obtain rfl := Option.some_inj.mp ha
      obtain ⟨rest, hroom⟩ := hp
      exact hroom.short
    · refine ⟨_, o.ptr, rfl, ?_, hrep hshort⟩
      rw [hget, Option.bind_some, if_pos hsds]

theorem BuildOk.activity {b : Building} {strs : List Bytes} (hb : BuildOk b strs) (a : Activity) :
    BuildOk { b with heap := a.run b.heap } strs := by
  refine ⟨a.accounted _ _ hb.accounted, hb.cache.congr fun j r len hj => ?_, ?_⟩
  · exact a.kept _ _ r hb.accounted (hb.cache.alone hb.accounted hj).1
  · have hholds : ∀ r ∈ b.argv, ∃ s, Holds b.heap r s :=
      fun r hr => (List.forall₂_iff_get.mp hb.built).elim fun hlen hget => by
        obtain ⟨i, hi, rfl⟩ := List.getElem_of_mem hr
        exact ⟨_, hget i hi (hlen ▸ hi)⟩
    refine forall₂_holds_congr hb.built fun r hr => a.kept _ _ r hb.accounted ?_
    obtain ⟨s, o, hget, hone, -⟩ := hholds r hr
    have hcount := hb.accounted r
    rw [hget] at hcount
    have hrefs := hcount.1
    have hpos : 0 < b.argv.count r := List.count_pos_iff.mpr hr
    dsimp only at hrefs
    omega

theorem execute_spec {s : ScriptState} {b : Building} {strs : List Bytes} (hb : BuildOk b strs)
    (hcache : s.cache = b.cache) (cmd : RedisCommand) :
    ∃ s' argv', execute s b.heap b.argv cmd = (s', argv', some (strings b.heap b.argv)) ∧
      s'.cache = b.cache ∧ Accounted s'.heap (fun x => argv'.count x + b.cache.count x) ∧
      CacheOk s'.heap b.cache := by
  refine ⟨_, _, rfl, hcache, cmd.proc.accounted _ _ _ hb.accounted, hb.cache.congr ?_⟩
  intro j r len hj
  exact cmd.proc.kept _ _ _ r hb.accounted (hb.cache.alone hb.accounted hj).1
    (hb.cache.not_mem hb.accounted hj)

theorem runCommand_spec {s : ScriptState} {b : Building} {strs : List Bytes} (hb : BuildOk b strs)
    (hheap : s.heap = b.heap) (hcache : s.cache = b.cache) (c : Call) :
    ∃ s' argv' executed, runCommand s c b.argv = (s', argv', executed) ∧ s'.cache = b.cache ∧
      Accounted s'.heap (fun x => argv'.count x + b.cache.count x) ∧ CacheOk s'.heap b.cache ∧
      ((∃ cmd, c.cmd = some cmd ∧ allowed s c cmd = true ∧
        ¬(needsMemory s c cmd = true ∧ c.outOfMemory = true)) ∧
        (∃ h, List.Forall₂ (Holds h) b.argv strs ∧ executed = some (strings h b.argv)) ∨
      (¬∃ cmd, c.cmd = some cmd ∧ allowed s c cmd = true ∧
        ¬(needsMemory s c cmd = true ∧ c.outOfMemory = true)) ∧ executed = none) := by
  unfold runCommand
  split
  · rename_i hcmd
    refine ⟨s, b.argv, none, rfl, hcache, ?_, ?_, .inr ⟨?_, rfl⟩⟩
    · rw [hheap]
      exact hb.accounted
    · rw [hheap]
      exact hb.cache
    · rintro ⟨cmd, h, -⟩
      cases h.symm.trans hcmd
  · rename_i cmd hcmd
    split
    · rename_i hallowed
      split
      · rename_i hmemory
        have hb' := hb.activity c.freeMemoryIfNeeded
        rw [hheap]
        dsimp only
        split
        · rename_i hoom
          refine ⟨_, b.argv, none, rfl, hcache, hb'.accounted, hb'.cache, .inr ⟨?_, rfl⟩⟩
          rintro ⟨cmd', h, -, hno⟩
          obtain rfl := Option.some_inj.mp (h.symm.trans hcmd)
          exact hno ⟨hmemory, hoom⟩
        · rename_i hoom
          obtain ⟨s', argv', hexec, hs', hacc', hcache'⟩ := execute_spec hb' hcache cmd
          exact ⟨s', argv', _, hexec, hs', hacc', hcache',
            .inl ⟨⟨cmd, hcmd, hallowed, fun h => hoom h.2⟩, _, hb'.built, rfl⟩⟩
      · rename_i hmemory
        rw [hheap]
        obtain ⟨s', argv', hexec, hs', hacc', hcache'⟩ := execute_spec hb hcache cmd
        exact ⟨s', argv', _, hexec, hs', hacc', hcache',
          .inl ⟨⟨cmd, hcmd, hallowed, fun h => hmemory h.1⟩, _, hb.built, rfl⟩⟩
    · rename_i hallowed
      refine ⟨s, b.argv, none, rfl, hcache, ?_, ?_, .inr ⟨?_, rfl⟩⟩
      · rw [hheap]
        exact hb.accounted
      · rw [hheap]
        exact hb.cache
      · rintro ⟨cmd', h, hyes, -⟩
        obtain rfl := Option.some_inj.mp (h.symm.trans hcmd)
        exact hallowed hyes

theorem built_nil {s : ScriptState} (hs : Inv s) : BuildOk ⟨s.heap, s.cache, []⟩ [] :=
  ⟨hs.accounted.congr fun x => by rw [List.count_nil, zero_add], hs.cache, .nil⟩

/-- A call in which the vector is filled: the invariant is kept, and the strings are right if they
have to be short enough. -/
theorem call_spec {s : ScriptState} (hs : Inv s) {c : Call}
    (hcache : (leading c.args).length ≤ objcacheSize)
    (hvector : (leading c.args).length ≤ (allocateArgv s c.args.length).1) :
    ∃ s' executed, luaRedisGenericCommand s c = .ok (s', executed) ∧ Inv s' ∧
      ((∀ strs, executed = some strs → List.Forall₂ SameString c.args strs) ↔
        (Executes s c → ∀ a ∈ leading c.args, a.length < 2 ^ 31)) := by
  rw [luaRedisGenericCommand]
  split
  · rename_i hnil
    refine ⟨s, none, rfl, hs, iff_of_true (fun strs h => by cases h) fun h => ?_⟩
    exact absurd hnil h.1
  · rename_i hne
    rw [← zero_add (leading c.args).length] at hcache hvector
    obtain ⟨b, hbuild, hb⟩ := buildArgs_spec (built_nil hs) hcache hvector
    rw [List.nil_append] at hb
    have hlength : b.argv.length = (leading c.args).length := hb.built.length_eq
    dsimp only
    rw [hbuild, Except.ok_bind]
    split
    · rename_i hshort
      have hacc : Accounted b.heap fun x => b.argv.reverse.count x + b.cache.count x :=
        hb.accounted.congr fun x => by rw [List.count_reverse]
      obtain ⟨h', hrelease, hacc', hsame⟩ := release_spec hacc
      rw [hrelease]
      refine ⟨_, none, rfl, ⟨hacc', hb.cache.congr fun j r len hj => hsame r ?_⟩,
        iff_of_true (fun strs h => by cases h) fun h => absurd (hlength.trans h.2.1) hshort⟩
      rw [List.mem_reverse]
      exact hb.cache.not_mem hb.accounted hj
    · rename_i hall
      have hstrings : (leading c.args).length = c.args.length :=
        hlength.symm.trans (not_not.mp hall)
      obtain ⟨s', argv', executed, hrun, hcache', hacc', hok', hexec⟩ := runCommand_spec hb
        (s := { s with
          heap := b.heap
          argv := some (allocateArgv s c.args.length).1
          argvSize := (allocateArgv s c.args.length).2
          cache := b.cache }) rfl rfl c
      rw [hrun]
      dsimp only
      rw [hcache']
      obtain ⟨h', cache', hclean, hacc'', hok''⟩ := cleanup_spec hacc' hok' 0
      rw [hclean]
      refine ⟨_, executed, rfl, ⟨hacc'', hok''⟩, ?_⟩
      obtain ⟨hyes, h, hbuilt, rfl⟩ | ⟨hno, rfl⟩ := hexec
      · have hargs := eq_map_leading hstrings
        have hiff := sameStrings_iff hbuilt
        rw [← hargs] at hiff
        exact ⟨fun h _ => hiff.mp (h _ rfl), fun h strs hstrs => by
          obtain rfl := Option.some_inj.mp hstrs
          exact hiff.mpr (h ⟨hne, hstrings, hyes⟩)⟩
      · exact iff_of_true (fun strs h => by cases h) fun h => absurd h.2.2 hno

theorem call_sound {s s' : ScriptState} {c : Call} {executed : Option (List (Option Sdshdr))}
    (h : luaRedisGenericCommand s c = .ok (s', executed)) :
    (leading c.args).length ≤ objcacheSize ∧
      (leading c.args).length ≤ (allocateArgv s c.args.length).1 := by
  rw [luaRedisGenericCommand] at h
  split at h
  · rename_i hnil
    rw [hnil]
    exact ⟨Nat.zero_le _, Nat.zero_le _⟩
  · dsimp only at h
    obtain ⟨b, hbuild, -⟩ := Except.bind_eq_ok.mp h
    obtain hnil | hroom := buildArgs_sound hbuild
    · rw [hnil]
      exact ⟨Nat.zero_le _, Nat.zero_le _⟩
    · rwa [List.length_nil, zero_add] at hroom

theorem callRight_iff {s : ScriptState} (hs : Inv s) (c : Call) : CallRight s c ↔ CallOk s c := by
  constructor
  · rintro ⟨s', executed, hcall, hright⟩
    obtain ⟨hcache, hvector⟩ := call_sound hcall
    obtain ⟨s'', executed', hcall', -, hiff⟩ := call_spec hs hcache hvector
    obtain ⟨rfl, rfl⟩ := Prod.mk.inj (Except.ok.inj (hcall'.symm.trans hcall))
    exact ⟨hcache, (le_allocateArgv_iff s c).mp hvector, hiff.mp hright⟩
  · rintro ⟨hcache, hvector, hshort⟩
    obtain ⟨s', executed, hcall, -, hiff⟩ :=
      call_spec hs hcache ((le_allocateArgv_iff s c).mpr hvector)
    exact ⟨s', executed, hcall, hiff.mpr hshort⟩

/-! ### Runs -/

theorem inv_start : Inv start := by
  refine ⟨fun r => ?_, fun j r len hj => ?_⟩
  · show 0 + ObjectCache.empty.count r = 0
    rw [zero_add]
    refine List.countP_eq_zero.mpr fun e he => ?_
    rw [List.eq_of_mem_replicate he]
    exact Bool.false_ne_true
  · have hmem := List.eq_of_mem_replicate (List.mem_of_getElem? hj)
    cases hmem

theorem inv_step {s s' : ScriptState} (hs : Inv s) {e : Event} (hstep : step s e = some s') :
    Inv s' := by
  cases e with
  | evalGenericCommand =>
    obtain rfl := Option.some_inj.mp hstep
    exact ⟨hs.accounted, hs.cache⟩
  | activity a =>
    obtain rfl := Option.some_inj.mp hstep
    obtain ⟨hacc, hcache, -⟩ := (built_nil hs).activity a
    exact ⟨hacc.congr fun x => by rw [List.count_nil, zero_add], hcache⟩
  | call c =>
    obtain ⟨⟨s'', executed⟩, hcall, rfl⟩ := Option.map_eq_some_iff.mp hstep
    rw [Except.toOption_eq_some] at hcall
    obtain ⟨hcache, hvector⟩ := call_sound hcall
    obtain ⟨s₁, executed', hcall', hinv, -⟩ := call_spec hs hcache hvector
    obtain ⟨rfl, rfl⟩ := Prod.mk.inj (Except.ok.inj (hcall'.symm.trans hcall))
    exact hinv

/-- In every run, all calls are right if and only if all meet the condition. -/
theorem scriptCommands_iff (events : List Event) :
    Runs.AllSteps step EventRight start events ↔ Runs.AllSteps step EventOk start events := by
  refine Runs.AllSteps.iff_of_invariant (I := Inv) (fun s e hs => ?_)
    (fun s e s' hs => inv_step hs) inv_start
  cases e with
  | evalGenericCommand => exact Iff.rfl
  | activity a => exact Iff.rfl
  | call c => exact callRight_iff hs c

/-- The rest of the server does nothing. -/
def Activity.idle : Activity := ⟨id, fun _ _ h => h, fun _ _ _ _ _ => rfl⟩

/-- A call of an unknown command. -/
def unknownCall (args : List (Option Bytes)) : Call :=
  ⟨args, none, false, false, false, .idle, false⟩

/-- 33 strings: `cached_objects[32]` is read. -/
theorem not_right_33 :
    ¬Runs.AllSteps step EventRight start [.call (unknownCall (List.replicate 33 (some [97])))] := by
  rintro ⟨⟨s', executed, hcall, -⟩, -⟩
  obtain ⟨hcache, -⟩ := call_sound hcall
  exact absurd hcache (by decide)

end ScriptCommands

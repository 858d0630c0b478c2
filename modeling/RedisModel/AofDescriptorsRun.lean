/-
Who closes the descriptor of the append-only file.

* `Sound` — the descriptors that the append-only file holds are `aof_fd` and those to be closed;
* `sound_step` — every event keeps this, unless `startAppendOnly` fails after it opened the file;
* `aof_descriptors` — what follows for runs.
-/
import RedisModel.AofDescriptors

open Aof

namespace AofDescriptors

/-- The descriptors that the append-only file holds. -/
def held (s : AofFiles) : List ℕ := s.aofFd.toList ++ s.closeJobs

/-- The invariant of the runs in which no `startAppendOnly` fails late. -/
structure Sound (s : AofFiles) : Prop where
  off : s.aofFd = none ↔ s.aofState = .off
  holds : s.descriptors.Holds (held s)

/-! ### The system calls -/

section
variable {s s' : AofFiles} {fds : List ℕ}

theorem sysOpen_spec {fd : Option ℕ} (h : s.descriptors.Holds fds)
    (hopen : sysOpen s fd = some s') :
    ∃ descriptors, s' = { s with descriptors } ∧ descriptors.Holds (fd.toList ++ fds) := by
  cases fd with
  | none =>
    obtain rfl := Option.some_inj.mp hopen
    exact ⟨s.descriptors, rfl, h⟩
  | some fd =>
    obtain ⟨descriptors, hdescriptors, heq⟩ := Option.bind_eq_some_iff.mp hopen
    exact ⟨descriptors, (Option.some_inj.mp heq).symm, h.openFile hdescriptors⟩

theorem sysClose_spec {fd : Option ℕ} (h : s.descriptors.Holds (fd.toList ++ fds)) :
    ∃ descriptors, sysClose s fd = { s with descriptors } ∧ descriptors.Holds fds := by
  cases fd with
  | none => exact ⟨s.descriptors, rfl, h⟩
  | some fd => exact ⟨_, rfl, Descriptors.Holds.close h⟩

/-! ### Stopping and starting -/

theorem rewrite_same (fork : Fork) :
    (rewriteAppendOnlyFileBackground s fork).1.aofState = s.aofState ∧
      (rewriteAppendOnlyFileBackground s fork).1.aofFd = s.aofFd ∧
      (rewriteAppendOnlyFileBackground s fork).1.descriptors = s.descriptors ∧
      (rewriteAppendOnlyFileBackground s fork).1.closeJobs = s.closeJobs := by
  unfold rewriteAppendOnlyFileBackground
  split
  · exact ⟨rfl, rfl, rfl, rfl⟩
  · split
    · exact ⟨rfl, rfl, rfl, rfl⟩
    · exact ⟨rfl, rfl, rfl, rfl⟩

theorem rewrite_starts (hchild : s.aofChildPid = none) {fork : Fork}
    (hfork : fork.childpid.isSome = true) :
    (rewriteAppendOnlyFileBackground s fork).2 = true ∧
      (rewriteAppendOnlyFileBackground s fork).1.running = s.running := by
  obtain ⟨pid, hpid⟩ := Option.isSome_iff_exists.mp hfork
  rw [rewriteAppendOnlyFileBackground, hchild, if_neg nofun, hpid, if_neg nofun]
  exact ⟨rfl, rfl⟩

theorem Sound.congr (h : Sound s) (hstate : s'.aofState = s.aofState) (hfd : s'.aofFd = s.aofFd)
    (hdescriptors : s'.descriptors = s.descriptors) (hjobs : s'.closeJobs = s.closeJobs) :
    Sound s' :=
  ⟨by rw [hstate, hfd, h.off], by rw [hdescriptors, held, hfd, hjobs]; exact h.holds⟩

theorem sound_rewrite (h : Sound s) (fork : Fork) :
    Sound (rewriteAppendOnlyFileBackground s fork).1 := by
  obtain ⟨hstate, hfd, hdescriptors, hjobs⟩ := rewrite_same (s := s) fork
  exact h.congr hstate hfd hdescriptors hjobs

/-- A server that has stopped its append-only file. -/
structure Stopped (s : AofFiles) : Prop where
  sound : Sound s
  off : s.aofState = .off
  noChild : s.aofChildPid = none
  running : s.running = true

theorem stopAppendOnly_spec (h : Sound s) (hon : s.aofState ≠ .off) (hrunning : s.running = true) :
    ∃ s', stopAppendOnly s = some s' ∧ Stopped s' := by
  obtain ⟨descriptors, hclose, hholds⟩ := sysClose_spec h.holds
  rw [stopAppendOnly, if_neg hon, hclose]
  dsimp only
  split
  · exact ⟨_, rfl, ⟨iff_of_true rfl rfl, hholds⟩, rfl, rfl, hrunning⟩
  · rename_i hchild
    exact ⟨_, rfl, ⟨iff_of_true rfl rfl, hholds⟩, rfl, Option.not_isSome_iff_eq_none.mp hchild,
      hrunning⟩

/-- An attempt that fails as the file cannot be opened changes nothing. -/
theorem startAppendOnly_unopened (h : Sound s) (hoff : s.aofState = .off) {a : Attempt}
    (hopen : a.opened = none) : startAppendOnly s a = some (s, false) := by
  have hfd : s.aofFd = none := h.off.mpr hoff
  have hsame : { s with aofFd := none } = s := by rw [← hfd]
  rw [startAppendOnly, hopen, sysOpen, Option.bind_eq_bind, Option.bind_some]
  dsimp only
  rw [if_neg (not_not.mpr hoff), if_pos rfl, hsame]

theorem startAppendOnly_starts (h : Sound s) (hoff : s.aofState = .off)
    (hchild : s.aofChildPid = none) {a : Attempt} (hopen : a.opened.isSome)
    (hfork : a.fork.childpid.isSome) {r : AofFiles × Bool} (hrun : startAppendOnly s a = some r) :
    r.2 = true ∧ Sound r.1 ∧ r.1.running = s.running := by
  obtain ⟨s₁, hs₁, hrest⟩ := Option.bind_eq_some_iff.mp hrun
  obtain ⟨descriptors, rfl, hholds⟩ := sysOpen_spec h.holds hs₁
  obtain ⟨fd, hfd⟩ := Option.isSome_iff_exists.mp hopen
  have hjobs : held s = s.closeJobs := by rw [held, h.off.mpr hoff]; rfl
  rw [hjobs, hfd] at hholds
  dsimp only at hrest
  rw [if_neg (not_not.mpr hoff), hfd, if_neg nofun] at hrest
  generalize hs₂ : { s with descriptors, aofFd := some fd } = s₂ at hrest
  have hchild₂ : s₂.aofChildPid = none := by rw [← hs₂, ← hchild]
  obtain ⟨hok, hrunning⟩ := rewrite_starts hchild₂ hfork
  obtain ⟨-, hfd₂, hdescriptors, hclose⟩ := rewrite_same (s := s₂) a.fork
  rw [if_pos hok, Option.some_inj] at hrest
  obtain rfl := hrest
  refine ⟨rfl, ⟨iff_of_false ?_ nofun, ?_⟩, hrunning.trans (by rw [← hs₂])⟩
  · show (rewriteAppendOnlyFileBackground s₂ a.fork).1.aofFd ≠ none
    rw [hfd₂, ← hs₂]
    nofun
  · show (rewriteAppendOnlyFileBackground s₂ a.fork).1.descriptors.Holds
      (Option.toList (rewriteAppendOnlyFileBackground s₂ a.fork).1.aofFd ++
        (rewriteAppendOnlyFileBackground s₂ a.fork).1.closeJobs)
    rw [hfd₂, hdescriptors, hclose, ← hs₂]
    exact hholds

/-! ### The end of a rewrite -/

theorem sound_cleanup (h : Sound s) : Sound (cleanup s) := h.congr rfl rfl rfl rfl

theorem sound_switchFile {newfd : ℕ} {oldfd : Option ℕ} (hoff : s.aofFd = none ↔ s.aofState = .off)
    (hold : s.aofFd ≠ none → oldfd = none)
    (hholds : s.descriptors.Holds (oldfd.toList ++ newfd :: held s)) :
    Sound (switchFile s newfd oldfd) := by
  unfold switchFile
  cases hfd : s.aofFd with
  | none =>
    -- the rewritten file is not used: it is closed here, the overwritten one in the background
    have hstate := hoff.mp hfd
    rw [held, hfd] at hholds
    dsimp only [closeInBackground, sysClose]
    rw [hstate, if_neg nofun]
    refine ⟨iff_of_true hfd rfl, ?_⟩
    rw [held]
    dsimp only
    rw [hfd]
    exact (hholds.perm List.perm_middle).close.perm List.perm_append_comm
  | some fd =>
    obtain rfl := hold (by rw [hfd]; nofun)
    rw [held, hfd] at hholds
    dsimp only [closeInBackground]
    refine ⟨iff_of_false nofun ?_, ?_⟩
    · have hon : s.aofState ≠ .off := fun hstate => by
        rw [hoff.mpr hstate] at hfd
        cases hfd
      dsimp only
      split
      · nofun
      · exact hon
    · refine hholds.perm ?_
      show (newfd :: fd :: s.closeJobs).Perm (newfd :: (s.closeJobs ++ [fd]))
      exact (List.perm_append_singleton fd s.closeJobs).symm.cons newfd

theorem sound_rewriteDone (h : Sound s) {r : RewriteDone}
    (hrun : backgroundRewriteDoneHandler s r = some s') : Sound s' := by
  unfold backgroundRewriteDoneHandler at hrun
  split at hrun
  · obtain rfl := Option.some_inj.mp hrun
    exact sound_cleanup h
  · obtain ⟨s₁, hs₁, hrun⟩ := Option.bind_eq_some_iff.mp hrun
    obtain ⟨descriptors, rfl, hholds⟩ := sysOpen_spec h.holds hs₁
    cases hnew : r.newfd with
    | none =>
      rw [hnew] at hrun hholds
      obtain rfl := Option.some_inj.mp hrun
      exact sound_cleanup ⟨h.off, hholds⟩
    | some newfd =>
      rw [hnew] at hrun hholds
      dsimp only at hrun
      split at hrun
      · obtain rfl := Option.some_inj.mp hrun
        exact sound_cleanup ⟨h.off, hholds.close⟩
      · obtain ⟨s₂, hs₂, hrun⟩ := Option.bind_eq_some_iff.mp hrun
        obtain ⟨descriptors₂, rfl, hholds₂⟩ := sysOpen_spec hholds hs₂
        generalize hold : (if s.aofFd = none then r.oldfd else none) = oldfd at hrun hholds₂
        split at hrun
        · obtain rfl := Option.some_inj.mp hrun
          obtain ⟨descriptors₃, hclose, hholds₃⟩ := sysClose_spec
            (s := sysClose { s with descriptors := descriptors₂ } newfd)
            (hholds₂.perm List.perm_middle).close
          rw [hclose]
          exact sound_cleanup ⟨h.off, hholds₃⟩
        · obtain rfl := Option.some_inj.mp hrun
          refine sound_cleanup (sound_switchFile h.off (fun hon => ?_) hholds₂)
          rw [← hold, if_neg hon]

/-! ### The restart after a full resync -/

/-- A call of `startAppendOnly`: the server before and after it, and whether it succeeded. -/
structure StartCall where
  before : AofFiles
  after : AofFiles
  succeeded : Bool

/-- The calls of `startAppendOnly` that `restartLoop` makes. -/
def restartCalls : ℕ → List Attempt → AofFiles → List StartCall
  | 0, _, _ => []
  | _ + 1, [], _ => []
  | retry + 1, a :: attempts, s =>
    match startAppendOnly s a with
    | none => []
    | some (s', ok) => ⟨s, s', ok⟩ :: if ok then [] else restartCalls retry attempts s'

theorem restartLoop_fails (h : Stopped s) {fails rest : List Attempt}
    (hfails : ∀ f ∈ fails, f.opened = none) {retry : ℕ} (hretry : fails.length ≤ retry) :
    restartLoop retry (fails ++ rest) s = restartLoop (retry - fails.length) rest s ∧
      restartCalls retry (fails ++ rest) s =
        List.replicate fails.length ⟨s, s, false⟩ ++
          restartCalls (retry - fails.length) rest s := by
  induction fails generalizing retry with
  | nil => exact ⟨rfl, rfl⟩
  | cons f fails ih =>
    obtain ⟨hf, hfails⟩ := List.forall_mem_cons.mp hfails
    obtain ⟨n, rfl⟩ : ∃ n, retry = n + 1 := Nat.exists_eq_add_of_le' (by
      rw [List.length_cons] at hretry
      omega)
    rw [List.length_cons] at hretry
    have hstart := startAppendOnly_unopened h.sound h.off hf
    have hrest := @ih hfails n (by omega)
    rw [List.cons_append, restartLoop, restartCalls, hstart, List.length_cons,
      Nat.add_sub_add_right]
    refine ⟨hrest.1, ?_⟩
    rw [List.replicate_succ, List.cons_append]
    exact congrArg _ hrest.2

/-- The attempts of a restart that succeeds in time: all before the ninth one fail to open the
file, and this one does all it has to. -/
structure InTime (attempts fails : List Attempt) (a : Attempt) : Prop where
  attempts : ∃ rest, attempts = fails ++ a :: rest
  unopened : ∀ f ∈ fails, f.opened = none
  early : fails.length < 9
  opened : a.opened.isSome
  forked : a.fork.childpid.isSome

theorem restartLoop_inTime (h : Stopped s) {attempts fails : List Attempt} {a : Attempt}
    (hin : InTime attempts fails a) {r : AofFiles × ℤ} (hrun : restartLoop 10 attempts s = some r) :
    r.2 ≠ 0 ∧ Sound r.1 ∧ r.1.running = true ∧
      restartCalls 10 attempts s =
        List.replicate fails.length ⟨s, s, false⟩ ++ [⟨s, r.1, true⟩] := by
  obtain ⟨rest, rfl⟩ := hin.attempts
  have hearly := hin.early
  obtain ⟨hloop, hcalls⟩ := @restartLoop_fails s h fails (a :: rest) hin.unopened 10 (by omega)
  obtain ⟨k, hk⟩ : ∃ k, 10 - fails.length = k + 1 := Nat.exists_eq_add_of_le' (by omega)
  rw [hk] at hloop hcalls
  rw [hloop, restartLoop] at hrun
  obtain ⟨⟨s', ok⟩, hstart, hrun⟩ := Option.bind_eq_some_iff.mp hrun
  obtain ⟨hok, hsound, hrunning⟩ := startAppendOnly_starts h.sound h.off h.noChild hin.opened
    hin.forked hstart
  dsimp only at hok hsound hrunning hrun
  rw [hok, if_pos rfl] at hrun
  obtain rfl := Option.some_inj.mp hrun
  refine ⟨?_, hsound, hrunning.trans h.running, ?_⟩
  · show (k : ℤ) ≠ 0
    omega
  · rw [hcalls, restartCalls, hstart, hok]
    rfl

/-! ### Runs -/

/-- The calls of `startAppendOnly` that an event makes. -/
def startCalls (s : AofFiles) : AofFilesEvent → List StartCall
  | .appendonlyYes a => if s.aofState = .off then restartCalls 1 [a] s else []
  | .resync attempts =>
    if s.aofState = .off then []
    else match stopAppendOnly s with
      | none => []
      | some s => restartCalls 10 attempts s
  | _ => []

/-- The condition under which the descriptors are right after an event: `startAppendOnly` fails only
if it cannot open the file, and after a full resync an attempt succeeds before the tenth. -/
def StepOk (s : AofFiles) : AofFilesEvent → Prop
  | .appendonlyYes a =>
    s.aofState = .off → a.opened = none ∨ s.aofChildPid = none ∧ a.fork.childpid.isSome
  | .resync attempts => s.aofState ≠ .off → ∃ fails a, InTime attempts fails a
  | _ => True

/-- What `startAppendOnly` leaves as it was if it returns an error. -/
structure SameAof (s s' : AofFiles) : Prop where
  aofState : s'.aofState = s.aofState
  aofFd : s'.aofFd = s.aofFd
  aofSelectedDb : s'.aofSelectedDb = s.aofSelectedDb
  aofChildPid : s'.aofChildPid = s.aofChildPid
  aofRewriteTimeStart : s'.aofRewriteTimeStart = s.aofRewriteTimeStart
  aofRewriteScheduled : s'.aofRewriteScheduled = s.aofRewriteScheduled

/-- What an event has to do. -/
structure StepRight (s : AofFiles) (e : AofFilesEvent) (s' : AofFiles) : Prop where
  failed : ∀ call ∈ startCalls s e, call.succeeded = false → SameAof call.before call.after
  resync : ∀ attempts, e = .resync attempts → s.aofState ≠ .off →
    (s'.running = true ↔ ∃ call ∈ startCalls s e, call.succeeded = true)

/-- What has to hold of the descriptors: `aof_fd` is -1 exactly if the file is disabled, the
descriptors open for the file are `aof_fd` and those that wait to be closed, which are different,
and each other one that was opened has been closed once. -/
structure Exclusive (s : AofFiles) : Prop where
  minusOne : s.aofFd = none ↔ s.aofState = .off
  owned : ∀ fd, s.descriptors.owner fd = some .subsystem ↔ s.aofFd = some fd ∨ fd ∈ s.closeJobs
  jobs : s.closeJobs.Nodup ∧ ∀ fd, s.aofFd = some fd → fd ∉ s.closeJobs
  once : ∀ fd, s.descriptors.opened fd =
    s.descriptors.closed fd + if s.aofFd = some fd ∨ fd ∈ s.closeJobs then 1 else 0

theorem mem_held {fd : ℕ} : fd ∈ held s ↔ s.aofFd = some fd ∨ fd ∈ s.closeJobs := by
  rw [held, List.mem_append, Option.mem_toList]

theorem Sound.exclusive (h : Sound s) : Exclusive s where
  minusOne := h.off
  owned fd := (h.holds.owned fd).trans mem_held
  jobs := by
    obtain ⟨-, hnodup, hdisjoint⟩ := List.nodup_append'.mp h.holds.nodup
    exact ⟨hnodup, fun fd hfd => hdisjoint (Option.mem_toList.mpr hfd)⟩
  once fd := by
    rw [h.holds.once]
    split
    · rename_i hmem
      rw [List.count_eq_one_of_mem h.holds.nodup (mem_held.mpr hmem)]
    · rename_i hnot
      rw [List.count_eq_zero_of_not_mem fun hmem => hnot (mem_held.mp hmem)]

theorem SameAof.refl (s : AofFiles) : SameAof s s := ⟨rfl, rfl, rfl, rfl, rfl, rfl⟩

theorem restartCalls_one {a : Attempt} {r : AofFiles × Bool} (h : startAppendOnly s a = some r) :
    restartCalls 1 [a] s = [⟨s, r.1, r.2⟩] := by
  obtain ⟨s', ok⟩ := r
  rw [restartCalls, h]
  cases ok <;> rfl

theorem sound_appendonlyYes (h : Sound s) {a : Attempt} (hoff : s.aofState = .off)
    (hok : a.opened = none ∨ s.aofChildPid = none ∧ a.fork.childpid.isSome) {r : AofFiles × Bool}
    (hrun : startAppendOnly s a = some r) :
    Sound r.1 ∧ (r.2 = false → r.1 = s) := by
  cases hopen : a.opened with
  | none =>
    obtain rfl := Option.some_inj.mp ((startAppendOnly_unopened h hoff hopen).symm.trans hrun)
    exact ⟨h, fun _ => rfl⟩
  | some fd =>
    obtain hnone | ⟨hchild, hfork⟩ := hok
    · rw [hnone] at hopen
      cases hopen
    · obtain ⟨htrue, hsound, -⟩ := startAppendOnly_starts h hoff hchild (by rw [hopen]; rfl) hfork
        hrun
      exact ⟨hsound, fun hfalse => by rw [htrue] at hfalse; cases hfalse⟩

theorem restartAof_spec (h : Sound s) (hon : s.aofState ≠ .off) (hrunning : s.running = true)
    {attempts fails : List Attempt} {a : Attempt} (hin : InTime attempts fails a)
    (hrun : restartAof s attempts = some s') :
    Sound s' ∧ s'.running = true ∧ ∃ before,
      startCalls s (.resync attempts) =
        List.replicate fails.length ⟨before, before, false⟩ ++ [⟨before, s', true⟩] := by
  obtain ⟨s₁, hstop, hstopped⟩ := stopAppendOnly_spec h hon hrunning
  rw [restartAof, if_neg hon, hstop, Option.bind_eq_bind, Option.bind_some] at hrun
  obtain ⟨⟨s₂, retry⟩, hloop, hrun⟩ := Option.bind_eq_some_iff.mp hrun
  obtain ⟨hretry, hsound, hruns, hcalls⟩ := restartLoop_inTime hstopped hin hloop
  dsimp only at hretry hsound hruns hcalls hrun
  rw [if_neg hretry] at hrun
  obtain rfl := Option.some_inj.mp hrun
  refine ⟨hsound, hruns, s₁, ?_⟩
  rw [startCalls, if_neg hon, hstop]
  exact hcalls

theorem sound_step {e : AofFilesEvent} (h : Sound s) (hok : StepOk s e)
    (hstep : step s e = some s') : Sound s' := by
  unfold step at hstep
  split at hstep
  · cases hstep
  rename_i hrunning
  cases e with
  | appendonlyYes a =>
    dsimp only at hstep
    split at hstep
    · rename_i hoff
      obtain ⟨r, hr, rfl⟩ := Option.map_eq_some_iff.mp hstep
      exact (sound_appendonlyYes h hoff (hok hoff) hr).1
    · obtain rfl := Option.some_inj.mp hstep
      exact h
  | appendonlyNo =>
    dsimp only at hstep
    split at hstep
    · obtain rfl := Option.some_inj.mp hstep
      exact h
    · rename_i hon
      obtain ⟨s₁, hstop, hstopped⟩ := stopAppendOnly_spec h hon (Bool.not_eq_false _ ▸ hrunning)
      obtain rfl := Option.some_inj.mp (hstop.symm.trans hstep)
      exact hstopped.sound
  | bgrewriteaof fork =>
    obtain rfl := Option.some_inj.mp hstep
    unfold bgrewriteaofCommand
    split
    · exact h
    · split
      · exact h.congr rfl rfl rfl rfl
      · exact sound_rewrite h fork
  | cronRewrite fork =>
    dsimp only at hstep
    split at hstep
    · cases hstep
    · obtain rfl := Option.some_inj.mp hstep
      exact sound_rewrite h fork
  | rewriteDone r =>
    dsimp only at hstep
    split at hstep
    · exact sound_rewriteDone h hstep
    · cases hstep
  | rdbChild runs =>
    obtain rfl := Option.some_inj.mp hstep
    exact h.congr rfl rfl rfl rfl
  | resync attempts =>
    by_cases hoff : s.aofState = .off
    · obtain rfl := Option.some_inj.mp ((if_pos hoff).symm.trans hstep)
      exact h
    · obtain ⟨fails, a, hin⟩ := hok hoff
      exact (restartAof_spec h hoff (Bool.not_eq_false _ ▸ hrunning) hin hstep).1
  | bioClose =>
    cases hjobs : s.closeJobs with
    | nil =>
      rw [hjobs] at hstep
      cases hstep
    | cons fd jobs =>
      rw [hjobs] at hstep
      obtain rfl := Option.some_inj.mp hstep
      have hholds := h.holds
      rw [held, hjobs] at hholds
      exact ⟨h.off, (hholds.perm List.perm_middle).close⟩
  | othersOpen fd =>
    obtain ⟨descriptors, hopen, heq⟩ := Option.bind_eq_some_iff.mp hstep
    obtain rfl := Option.some_inj.mp heq
    exact ⟨h.off, h.holds.othersOpen hopen⟩
  | othersClose fd =>
    obtain ⟨descriptors, hclose, heq⟩ := Option.bind_eq_some_iff.mp hstep
    obtain rfl := Option.some_inj.mp heq
    exact ⟨h.off, h.holds.othersClose hclose⟩

theorem StepRight.of_noCalls {e : AofFilesEvent} (hcalls : startCalls s e = [])
    (hresync : ∀ attempts, e = .resync attempts → s.aofState = .off) : StepRight s e s' :=
  ⟨fun _ hcall => absurd (hcalls ▸ hcall) List.not_mem_nil,
    fun attempts he hon => absurd (hresync attempts he) hon⟩

theorem stepRight {e : AofFilesEvent} (h : Sound s) (hok : StepOk s e)
    (hstep : step s e = some s') : StepRight s e s' := by
  have hrunning : s.running = true := by
    unfold step at hstep
    split at hstep
    · cases hstep
    · rename_i hrunning
      exact Bool.not_eq_false _ ▸ hrunning
  unfold step at hstep
  rw [if_neg (by rw [hrunning]; nofun)] at hstep
  cases e with
  | appendonlyYes a =>
    by_cases hoff : s.aofState = .off
    · dsimp only at hstep
      rw [if_pos hoff] at hstep
      obtain ⟨r, hr, -⟩ := Option.map_eq_some_iff.mp hstep
      refine ⟨fun call hcall hfailed => ?_, nofun⟩
      rw [startCalls, if_pos hoff, restartCalls_one hr, List.mem_singleton] at hcall
      obtain rfl := hcall
      have hsame : r.1 = s := (sound_appendonlyYes h hoff (hok hoff) hr).2 hfailed
      show SameAof s r.1
      rw [hsame]
      exact .refl s
    · exact .of_noCalls (if_neg hoff) nofun
  | resync attempts =>
    by_cases hoff : s.aofState = .off
    · exact .of_noCalls (if_pos hoff) fun _ _ => hoff
    · obtain ⟨fails, a, hin⟩ := hok hoff
      obtain ⟨-, hruns, before, hcalls⟩ := restartAof_spec h hoff hrunning hin hstep
      refine ⟨fun call hcall hfailed => ?_, fun attempts' heq _ => iff_of_true hruns ?_⟩
      · rw [hcalls, List.mem_append, List.mem_singleton] at hcall
        obtain hcall | rfl := hcall
        · obtain rfl := List.eq_of_mem_replicate hcall
          exact .refl before
        · cases hfailed
      · exact ⟨⟨before, s', true⟩,
          by rw [hcalls]; exact List.mem_append_right _ (List.mem_singleton_self _), rfl⟩
  | appendonlyNo => exact .of_noCalls rfl nofun
  | bgrewriteaof fork => exact .of_noCalls rfl nofun
  | cronRewrite fork => exact .of_noCalls rfl nofun
  | rewriteDone r => exact .of_noCalls rfl nofun
  | rdbChild runs => exact .of_noCalls rfl nofun
  | bioClose => exact .of_noCalls rfl nofun
  | othersOpen fd => exact .of_noCalls rfl nofun
  | othersClose fd => exact .of_noCalls rfl nofun

end

theorem sound_initServer (opened : Option ℕ) (others : ℕ → Bool) :
    Sound (initServer opened others) := by
  cases opened with
  | none =>
    refine ⟨iff_of_true rfl rfl, List.nodup_nil, fun fd => iff_of_false ?_ List.not_mem_nil,
      fun _ => rfl⟩
    show (if others fd then some Owner.other else none) ≠ some .subsystem
    split <;> nofun
  | some fd =>
    refine ⟨iff_of_false nofun nofun, List.nodup_singleton fd, fun k => ?_, fun k => ?_⟩
    · show (if some fd = some k then some Owner.subsystem
        else if others k then some .other else none) = _ ↔ k ∈ [fd]
      rw [List.mem_singleton]
      split
      · rename_i heq
        exact iff_of_true rfl (Option.some_inj.mp heq).symm
      · rename_i hne
        refine iff_of_false ?_ fun heq => hne (congrArg some heq.symm)
        split <;> nofun
    · show (if some fd = some k then 1 else 0) = 0 + [fd].count k
      rw [List.count_singleton, Nat.zero_add]
      simp only [Option.some_inj, beq_iff_eq]

/-- In every run whose events meet the condition, the descriptors of the append-only file are right
in every state, and each event does what it has to do. -/
theorem aof_descriptors (opened : Option ℕ) (others : ℕ → Bool) {es : List AofFilesEvent}
    {s : AofFiles} (hall : Runs.AllSteps step StepOk (initServer opened others) es)
    (hrun : Runs.run step (initServer opened others) es = some s) :
    Exclusive s ∧ ∀ e s', StepOk s e → step s e = some s' → StepRight s e s' := by
  have hsound : Sound s := Runs.run_invariant_of_allSteps
    (fun _ _ _ h hok hstep => sound_step h hok hstep) (sound_initServer opened others) hall hrun
  exact ⟨hsound.exclusive, fun _ _ => stepRight hsound⟩

/-- The file is enabled, rewritten and switched to, and the old one closed; a full resync then
needs two attempts. -/
theorem aof_descriptors_enabled : ∃ s, Runs.run step (initServer none fun _ => false)
    [.appendonlyYes ⟨some 8, some 100, 1⟩, .rewriteDone ⟨true, some 9, true, none, true⟩, .bioClose,
      .resync [⟨none, none, 2⟩, ⟨some 8, some 101, 3⟩]] = some s ∧
    s.aofFd = some 8 ∧ s.aofState = .waitRewrite ∧ Exclusive s := by
  have hall : Runs.AllSteps step StepOk (initServer none fun _ => false)
      [.appendonlyYes ⟨some 8, some 100, 1⟩, .rewriteDone ⟨true, some 9, true, none, true⟩,
        .bioClose, .resync [⟨none, none, 2⟩, ⟨some 8, some 101, 3⟩]] := by
    refine .cons (fun _ => .inr ⟨rfl, rfl⟩) rfl (.cons trivial rfl (.cons trivial rfl
      (.cons (fun _ => ⟨[⟨none, none, 2⟩], ⟨some 8, some 101, 3⟩, ⟨⟨[], rfl⟩, ?_, ?_, rfl, rfl⟩⟩)
        rfl trivial)))
    · intro f hf
      rw [List.mem_singleton.mp hf]
    · decide
  exact ⟨_, rfl, rfl, rfl, (aof_descriptors none (fun _ => false) hall rfl).1⟩

/-- `CONFIG SET appendonly yes` fails while `BGREWRITEAOF` runs, and leaves the closed descriptor 8
as `aof_fd`; a client then gets 8, and the end of the rewrite makes the background thread close it.
And after ten attempts that fail a slave goes on, but exits if the tenth succeeds. -/
theorem aof_descriptors_stale :
    (∃ s, Runs.run step (initServer none fun _ => false)
      [.bgrewriteaof ⟨some 100, 1⟩, .appendonlyYes ⟨some 8, some 101, 2⟩, .othersOpen 8,
        .rewriteDone ⟨true, some 9, true, none, true⟩, .bioClose] = some s ∧
      s.descriptors.opened 8 = 1 ∧ s.descriptors.closed 8 = 2 ∧ ¬ Exclusive s) ∧
    (∃ s', step (initServer (some 8) fun _ => false)
      (.resync (List.replicate 10 ⟨none, none, 0⟩)) = some s' ∧ s'.running = true ∧
      ¬ StepRight (initServer (some 8) fun _ => false)
        (.resync (List.replicate 10 ⟨none, none, 0⟩)) s') ∧
    ∃ s', step (initServer (some 8) fun _ => false)
      (.resync (List.replicate 9 ⟨none, none, 0⟩ ++ [⟨some 8, some 100, 0⟩])) = some s' ∧
      s'.running = false ∧
      ¬ StepRight (initServer (some 8) fun _ => false)
        (.resync (List.replicate 9 ⟨none, none, 0⟩ ++ [⟨some 8, some 100, 0⟩])) s' := by
  refine ⟨⟨_, rfl, rfl, rfl, fun h => ?_⟩, ⟨_, rfl, rfl, fun h => ?_⟩, ⟨_, rfl, rfl, fun h => ?_⟩⟩
  · have hfd := h.minusOne.mpr rfl
    cases hfd
  · have hnone : (startCalls (initServer (some 8) fun _ => false)
        (.resync (List.replicate 10 ⟨none, none, 0⟩))).all (!·.succeeded) = true := rfl
    obtain ⟨call, hcall, hsucceeded⟩ := (h.resync _ rfl nofun).mp rfl
    have hfailed := List.all_eq_true.mp hnone call hcall
    rw [hsucceeded] at hfailed
    cases hfailed
  · have hsome : (startCalls (initServer (some 8) fun _ => false)
        (.resync (List.replicate 9 ⟨none, none, 0⟩ ++ [⟨some 8, some 100, 0⟩]))).any
          (·.succeeded) = true := rfl
    cases (h.resync _ rfl nofun).mpr (List.any_eq_true.mp hsome)

end AofDescriptors

/-
Accounting for the user scripts of a Sentinel.

* `Sound` — `running_scripts` mirrors the flags and the processes, and no job in the queue has been
  executed yet;
* `runLoop_spec`, `collectOne_spec` — what the two loops do;
* `scripts_accounted` — in runs in which no script asks to be executed again.
-/
import RedisModel.SentinelScripts

open ByteBuffer

namespace SentinelScripts

/-- The number of jobs with the flag `SENTINEL_SCRIPT_RUNNING`. -/
def runningCount (queue : List ScriptJob) : ℕ := queue.countP (·.running)

/-- The processes of these jobs. -/
def runningPids (queue : List ScriptJob) : List ℕ := (queue.filter (·.running)).map (·.pid)

/-- A pending job whose retry time has come. -/
def ScriptJob.Due (now : ℤ) (sj : ScriptJob) : Prop :=
  sj.running = false ∧ (sj.startTime = 0 ∨ sj.startTime ≤ now)

theorem length_runningPids (queue : List ScriptJob) :
    (runningPids queue).length = runningCount queue := by
  rw [runningPids, List.length_map, runningCount, List.countP_eq_length_filter]

theorem runningPids_append (a b : List ScriptJob) :
    runningPids (a ++ b) = runningPids a ++ runningPids b := by
  rw [runningPids, List.filter_append, List.map_append]
  rfl

theorem runningPids_cons_of_running {sj : ScriptJob} (h : sj.running = true)
    (queue : List ScriptJob) : runningPids (sj :: queue) = sj.pid :: runningPids queue := by
  rw [runningPids, List.filter_cons_of_pos h]
  rfl

theorem runningPids_cons_of_idle {sj : ScriptJob} (h : sj.running = false)
    (queue : List ScriptJob) : runningPids (sj :: queue) = runningPids queue := by
  rw [runningPids, List.filter_cons_of_neg (by rw [h]; exact Bool.false_ne_true)]
  rfl

/-! ### Starting jobs -/

/-- What the loop of `sentinelRunPendingScripts` does to the queue, the counter and the
processes. -/
structure RunSpec (now : ℤ) (queue queue' : List ScriptJob) (n n' : ℤ) (children children' : List ℕ) :
    Prop where
  nodes : queue'.map (·.node) = queue.map (·.node)
  counter : n' + (runningPids queue).length = n + (runningPids queue').length
  grows : n ≤ n'
  limit : n ≤ scriptMaxRunning → n' ≤ scriptMaxRunning
  pids : ∀ rest, children.Perm (rest ++ runningPids queue) →
    children'.Perm (rest ++ runningPids queue')
  nodup : children.Nodup → children'.Nodup
  started : ∀ sj ∈ queue, sj.Due now →
    (∃ sj' ∈ queue', sj'.node = sj.node ∧ sj'.retryNum = sj.retryNum + 1) ∨ scriptMaxRunning ≤ n'

theorem RunSpec.refl_of_full {now : ℤ} {queue : List ScriptJob} {n : ℤ} {children : List ℕ}
    (h : queue = [] ∨ scriptMaxRunning ≤ n) : RunSpec now queue queue n n children children where
  nodes := rfl
  counter := rfl
  grows := le_refl n
  limit := id
  pids _ := id
  nodup := id
  started sj hsj _ := by
    obtain rfl | hfull := h
    · cases hsj
    · exact .inr hfull

section
variable {now : ℤ} {queue queue' : List ScriptJob} {n n' : ℤ} {children children' : List ℕ}
  {sj sj' : ScriptJob}

theorem RunSpec.skip (h : RunSpec now queue queue' n n' children children') (hdue : ¬ sj.Due now) :
    RunSpec now (sj :: queue) (sj :: queue') n n' children children' where
  nodes := by rw [List.map_cons, List.map_cons, h.nodes]
  counter := by
    have hcounter := h.counter
    cases hrunning : sj.running with
    | true =>
      rw [runningPids_cons_of_running hrunning, runningPids_cons_of_running hrunning,
        List.length_cons, List.length_cons]
      omega
    | false => rwa [runningPids_cons_of_idle hrunning, runningPids_cons_of_idle hrunning]
  grows := h.grows
  limit := h.limit
  pids rest hperm := by
    cases hrunning : sj.running with
    | true =>
      rw [runningPids_cons_of_running hrunning, List.append_cons] at hperm ⊢
      exact h.pids _ hperm
    | false =>
      rw [runningPids_cons_of_idle hrunning] at hperm ⊢
      exact h.pids _ hperm
  nodup := h.nodup
  started sj₁ hsj₁ hdue₁ := by
    obtain rfl | hsj₁ := List.mem_cons.mp hsj₁
    · exact absurd hdue₁ hdue
    · obtain ⟨sj', hsj', heq⟩ | hfull := h.started sj₁ hsj₁ hdue₁
      · exact .inl ⟨sj', List.mem_cons_of_mem _ hsj', heq⟩
      · exact .inr hfull

theorem RunSpec.fail (h : RunSpec now queue queue' n n' children children')
    (hidle : sj.running = false) (hidle' : sj'.running = false) (hnode : sj'.node = sj.node)
    (hretry : sj'.retryNum = sj.retryNum + 1) :
    RunSpec now (sj :: queue) (sj' :: queue') n n' children children' where
  nodes := by rw [List.map_cons, List.map_cons, h.nodes, hnode]
  counter := by
    rw [runningPids_cons_of_idle hidle, runningPids_cons_of_idle hidle']
    exact h.counter
  grows := h.grows
  limit := h.limit
  pids rest hperm := by
    rw [runningPids_cons_of_idle hidle] at hperm
    rw [runningPids_cons_of_idle hidle']
    exact h.pids rest hperm
  nodup := h.nodup
  started sj₁ hsj₁ hdue₁ := by
    obtain rfl | hsj₁ := List.mem_cons.mp hsj₁
    · exact .inl ⟨sj', List.mem_cons_self, hnode, hretry⟩
    · obtain ⟨sj₂, hsj₂, heq⟩ | hfull := h.started sj₁ hsj₁ hdue₁
      · exact .inl ⟨sj₂, List.mem_cons_of_mem _ hsj₂, heq⟩
      · exact .inr hfull

theorem RunSpec.start (hn : n < scriptMaxRunning) (hpid : sj'.pid ∉ children)
    (h : RunSpec now queue queue' (n + 1) n' (sj'.pid :: children) children')
    (hidle : sj.running = false) (hrunning : sj'.running = true) (hnode : sj'.node = sj.node)
    (hretry : sj'.retryNum = sj.retryNum + 1) :
    RunSpec now (sj :: queue) (sj' :: queue') n n' children children' where
  nodes := by rw [List.map_cons, List.map_cons, h.nodes, hnode]
  counter := by
    have hcounter := h.counter
    rw [runningPids_cons_of_idle hidle, runningPids_cons_of_running hrunning, List.length_cons]
    omega
  grows := by
    have hgrows := h.grows
    omega
  limit _ := h.limit (by omega)
  pids rest hperm := by
    rw [runningPids_cons_of_idle hidle] at hperm
    rw [runningPids_cons_of_running hrunning, List.append_cons]
    refine h.pids (rest ++ [sj'.pid]) ?_
    rw [List.append_assoc, List.singleton_append]
    exact (hperm.cons _).trans List.perm_middle.symm
  nodup hnodup := h.nodup (List.nodup_cons.mpr ⟨hpid, hnodup⟩)
  started sj₁ hsj₁ hdue₁ := by
    obtain rfl | hsj₁ := List.mem_cons.mp hsj₁
    · exact .inl ⟨sj', List.mem_cons_self, hnode, hretry⟩
    · obtain ⟨sj₂, hsj₂, heq⟩ | hfull := h.started sj₁ hsj₁ hdue₁
      · exact .inl ⟨sj₂, List.mem_cons_of_mem _ hsj₂, heq⟩
      · exact .inr hfull

end

theorem runLoop_spec {now : ℤ} {queue : List ScriptJob} {n : ℤ} {children : List ℕ}
    {forks : List Fork} {r : List ScriptJob × ℤ × List ℕ}
    (hrun : runLoop now queue n children forks = some r) :
    RunSpec now queue r.1 n r.2.1 children r.2.2 := by
  induction queue generalizing n children forks r with
  | nil =>
    obtain rfl := Option.some_inj.mp hrun
    exact .refl_of_full (.inl rfl)
  | cons sj queue ih =>
    unfold runLoop at hrun
    split at hrun
    · rename_i hn
      split at hrun
      · rename_i hskip
        obtain ⟨r₁, hr₁, heq⟩ := Option.bind_eq_some_iff.mp hrun
        obtain rfl := Option.some_inj.mp heq
        refine (ih hr₁).skip fun hdue => ?_
        obtain ⟨hidle, htime⟩ := hdue
        obtain hrunning | ⟨hzero, hlater⟩ := hskip
        · rw [hidle] at hrunning
          cases hrunning
        · omega
      · rename_i hdue
        have hidle : sj.running = false := by
          rw [← Bool.not_eq_true]
          exact fun hrunning => hdue (.inl hrunning)
        split at hrun
        · cases hrun
        · obtain ⟨r₁, hr₁, heq⟩ := Option.bind_eq_some_iff.mp hrun
          obtain rfl := Option.some_inj.mp heq
          exact (ih hr₁).fail hidle hidle rfl rfl
        · split at hrun
          · cases hrun
          · rename_i hpid
            obtain ⟨r₁, hr₁, heq⟩ := Option.bind_eq_some_iff.mp hrun
            obtain rfl := Option.some_inj.mp heq
            exact .start hn hpid (ih hr₁) hidle rfl rfl rfl
    · rename_i hfull
      obtain rfl := Option.some_inj.mp hrun
      exact .refl_of_full (.inr (not_lt.mp hfull))

/-! ### The invariant -/

/-- The invariant of runs in which no script asks to be executed again. -/
structure Sound (w : Scripts) : Prop where
  counter : w.runningScripts = (runningPids w.queue).length
  children : w.children.Perm (runningPids w.queue)
  nodup : w.children.Nodup
  limit : w.runningScripts ≤ scriptMaxRunning
  length : w.queue.length ≤ scriptMaxQueue
  nodes : (w.queue.map (·.node)).Nodup
  fresh : ∀ sj ∈ w.queue, sj.node < w.nextNode
  pending : ∀ sj ∈ w.queue, w.ended sj.node = 0
  ended : ∀ node, w.ended node ≤ 1 ∧ (w.nextNode ≤ node → w.ended node = 0)

theorem sound_initScripts : Sound initScripts where
  counter := rfl
  children := .refl _
  nodup := List.nodup_nil
  limit := by decide
  length := by decide
  nodes := List.nodup_nil
  fresh := nofun
  pending := nofun
  ended _ := ⟨Nat.zero_le 1, fun _ => rfl⟩

section
variable {w w' : Scripts}

/-- The assertion at the end of `sentinelScheduleScriptExecution` holds: some job in the queue does
not run. -/
theorem sound_schedule (h : Sound w) (path : Bytes) (args : List Bytes) :
    ∃ w', sentinelScheduleScriptExecution w path args = some w' ∧ Sound w' := by
  rw [sentinelScheduleScriptExecution]
  generalize hjob : (⟨w.nextNode, false, 0, path :: args.take (scriptMaxArgs - 1), 0, 0⟩ : ScriptJob)
    = sj
  have hidle : sj.running = false := by rw [← hjob]
  have hnode : sj.node = w.nextNode := by rw [← hjob]
  have hpids : runningPids (w.queue ++ [sj]) = runningPids w.queue := by
    rw [runningPids_append, runningPids_cons_of_idle hidle]
    exact List.append_nil _
  have hnodes : ((w.queue ++ [sj]).map (·.node)).Nodup := by
    rw [List.map_append, List.map_singleton, List.nodup_append']
    refine ⟨h.nodes, List.nodup_singleton _, ?_⟩
    rw [List.disjoint_singleton, hnode]
    intro hmem
    obtain ⟨sj', hsj', heq⟩ := List.mem_map.mp hmem
    exact (h.fresh sj' hsj').ne heq
  have hmem : ∀ sj' ∈ w.queue ++ [sj], sj'.node < w.nextNode + 1 ∧ w.ended sj'.node = 0 := by
    intro sj' hsj'
    rw [List.mem_append, List.mem_singleton] at hsj'
    obtain hsj' | rfl := hsj'
    · exact ⟨(h.fresh sj' hsj').trans (Nat.lt_succ_self _), h.pending sj' hsj'⟩
    · rw [hnode]
      exact ⟨Nat.lt_succ_self _, (h.ended _).2 (Nat.le_refl _)⟩
  -- What holds of the queue with the new job holds of it without a job that does not run.
  have hsound : ∀ queue : List ScriptJob, queue.Sublist (w.queue ++ [sj]) →
      runningPids queue = runningPids w.queue → queue.length ≤ scriptMaxQueue →
      Sound { w with queue, nextNode := w.nextNode + 1 } := fun queue hsub hrunning hlength => {
    counter := by
      show w.runningScripts = (runningPids queue).length
      rw [hrunning, h.counter]
    children := by
      show w.children.Perm (runningPids queue)
      rw [hrunning]
      exact h.children
    nodup := h.nodup
    limit := h.limit
    length := hlength
    nodes := hnodes.sublist (hsub.map _)
    fresh := fun sj' hsj' => (hmem sj' (hsub.subset hsj')).1
    pending := fun sj' hsj' => (hmem sj' (hsub.subset hsj')).2
    ended := fun node => ⟨(h.ended node).1, fun hle => (h.ended node).2 (by
      have hnext : w.nextNode + 1 ≤ node := hle
      omega)⟩ }
  have hlength := h.length
  by_cases hlong : (w.queue ++ [sj]).length > scriptMaxQueue
  · rw [if_pos hlong]
    have hany : sj ∈ w.queue ++ [sj] := List.mem_append_right _ (List.mem_singleton_self sj)
    have herase := List.length_eraseP_of_mem (p := (!·.running)) hany (by rw [hidle]; rfl)
    rw [List.length_append, List.length_singleton, Nat.add_sub_cancel] at herase
    rw [if_neg (by rw [herase]; exact not_lt.mpr hlength)]
    refine ⟨_, rfl, hsound _ (List.eraseP_sublist ..) ?_ (herase.trans_le hlength)⟩
    rw [← hpids]
    obtain ⟨sj', a, b, hbefore, hsj', hsplit, hrest⟩ :=
      List.exists_of_eraseP (p := (!·.running)) hany (by rw [hidle]; rfl)
    rw [hrest, hsplit, runningPids_append, runningPids_append,
      runningPids_cons_of_idle (by rwa [Bool.not_eq_true'] at hsj')]
  · rw [if_neg hlong, if_neg hlong]
    exact ⟨_, rfl, hsound _ (.refl _) hpids (not_lt.mp hlong)⟩

theorem sound_runPending (h : Sound w) {now : ℤ} {forks : List Fork}
    (hrun : sentinelRunPendingScripts w now forks = some w') : Sound w' := by
  obtain ⟨⟨queue, n, children⟩, hloop, rfl⟩ := Option.map_eq_some_iff.mp hrun
  have hspec := runLoop_spec hloop
  dsimp only at hspec ⊢
  have hnodes := hspec.nodes
  -- The nodes of the queue are the same, so what is said of nodes is the same.
  have hmem : ∀ sj ∈ queue, ∃ sj' ∈ w.queue, sj'.node = sj.node := by
    intro sj hsj
    have hnode : sj.node ∈ w.queue.map (·.node) := by
      rw [← hnodes]
      exact List.mem_map_of_mem hsj
    obtain ⟨sj', hsj', heq⟩ := List.mem_map.mp hnode
    exact ⟨sj', hsj', heq⟩
  exact {
    counter := by
      have hcounter := hspec.counter
      rw [h.counter] at hcounter
      show n = (runningPids queue).length
      omega
    children := hspec.pids [] h.children
    nodup := hspec.nodup h.nodup
    limit := hspec.limit h.limit
    length := by
      have hlength := congrArg List.length hnodes
      rw [List.length_map, List.length_map] at hlength
      show queue.length ≤ _
      rw [hlength]
      exact h.length
    nodes := by
      show (queue.map _).Nodup
      rw [hnodes]
      exact h.nodes
    fresh := fun sj hsj => by
      obtain ⟨sj', hsj', heq⟩ := hmem sj hsj
      rw [← heq]
      exact h.fresh sj' hsj'
    pending := fun sj hsj => by
      obtain ⟨sj', hsj', heq⟩ := hmem sj hsj
      rw [← heq]
      exact h.pending sj' hsj'
    ended := h.ended }

/-! ### The end of a script -/

theorem getNode_spec {pid : ℕ} {queue : List ScriptJob}
    {r : List ScriptJob × ScriptJob × List ScriptJob}
    (hfind : sentinelGetScriptListNodeByPid pid queue = some r) :
    queue = r.1 ++ r.2.1 :: r.2.2 ∧ r.2.1.running = true ∧ r.2.1.pid = pid := by
  induction queue generalizing r with
  | nil => cases hfind
  | cons sj queue ih =>
    rw [sentinelGetScriptListNodeByPid] at hfind
    split at hfind
    · rename_i hsj
      obtain rfl := Option.some_inj.mp hfind
      exact ⟨rfl, hsj⟩
    · obtain ⟨r₁, hr₁, rfl⟩ := Option.map_eq_some_iff.mp hfind
      obtain ⟨hsplit, hrest⟩ := ih hr₁
      exact ⟨congrArg (sj :: ·) hsplit, hrest⟩

theorem getNode_isSome {pid : ℕ} {queue : List ScriptJob} (hpid : pid ∈ runningPids queue) :
    (sentinelGetScriptListNodeByPid pid queue).isSome := by
  induction queue with
  | nil => cases hpid
  | cons sj queue ih =>
    rw [sentinelGetScriptListNodeByPid]
    split
    · rfl
    · rename_i hnot
      rw [Option.isSome_map]
      refine ih ?_
      cases hrunning : sj.running with
      | true =>
        rw [runningPids_cons_of_running hrunning] at hpid
        obtain rfl | hpid := List.mem_cons.mp hpid
        · exact absurd ⟨hrunning, rfl⟩ hnot
        · exact hpid
      | false => rwa [runningPids_cons_of_idle hrunning] at hpid

/-- A child whose script does not ask to be executed again, or must not be. -/
def Finishes (w : Scripts) (e : Ended) : Prop :=
  ∀ sj ∈ w.queue, sj.running = true → sj.pid = e.pid → e.Retry → sj.retryNum = scriptMaxRetry

theorem collectOne_spec (h : Sound w) {e : Ended} (hfinishes : Finishes w e)
    (hrun : collectOne w e = some w') :
    Sound w' ∧ w'.queue.Sublist w.queue ∧
      ∀ sj ∈ w.queue, sj.running = true → sj.pid = e.pid → ∀ sj' ∈ w'.queue, sj'.node ≠ sj.node := by
  rw [collectOne] at hrun
  split at hrun
  · cases hrun
  rename_i hmem
  have hchild : e.pid ∈ w.children := not_not.mp hmem
  obtain ⟨⟨before, sj, after⟩, hfind⟩ :=
    Option.isSome_iff_exists.mp (getNode_isSome (h.children.mem_iff.mp hchild))
  obtain ⟨hsplit, hrunning, hpid⟩ := getNode_spec hfind
  dsimp only at hsplit hrunning hpid
  have hsj : sj ∈ w.queue := by
    rw [hsplit]
    exact List.mem_append_right _ List.mem_cons_self
  have hretry : ¬ (e.Retry ∧ sj.retryNum ≠ scriptMaxRetry) :=
    fun ⟨hretry, hne⟩ => hne (hfinishes sj hsj hrunning hpid hretry)
  dsimp only at hrun
  rw [hfind] at hrun
  dsimp only at hrun
  rw [if_neg hretry] at hrun
  obtain rfl := Option.some_inj.mp hrun
  have hsub : (before ++ after).Sublist w.queue := by
    rw [hsplit]
    exact (List.sublist_cons_self sj after).append_left before
  have hpids : runningPids w.queue = runningPids before ++ e.pid :: runningPids after := by
    rw [hsplit, runningPids_append, runningPids_cons_of_running hrunning, hpid]
  have hnodes := h.nodes
  rw [hsplit, List.map_append, List.map_cons, List.nodup_middle, List.nodup_cons,
    ← List.map_append] at hnodes
  have hother : ∀ sj' ∈ before ++ after, sj'.node ≠ sj.node := fun sj' hsj' heq =>
    hnodes.1 (heq ▸ List.mem_map_of_mem hsj')
  have hcount := h.counter
  rw [hpids, List.length_append, List.length_cons] at hcount
  refine ⟨{
    counter := ?_
    children := ?_
    nodup := h.nodup.erase _
    limit := ?_
    length := hsub.length_le.trans h.length
    nodes := hnodes.2
    fresh := fun sj' hsj' => h.fresh sj' (hsub.subset hsj')
    pending := fun sj' hsj' => ?_
    ended := fun node => ?_ }, hsub, fun sj₁ hsj₁ hrunning₁ hpid₁ => ?_⟩
  · show w.runningScripts - 1 = (runningPids (before ++ after)).length
    rw [runningPids_append, List.length_append, hcount]
    omega
  · show (w.children.erase e.pid).Perm (runningPids (before ++ after))
    have hperm := h.children.erase e.pid
    rw [hpids] at hperm
    rw [runningPids_append]
    refine hperm.trans ((List.perm_middle.erase e.pid).trans ?_)
    rw [List.erase_cons_head]
  · have hlimit := h.limit
    show w.runningScripts - 1 ≤ _
    omega
  · show Function.update w.ended sj.node _ sj'.node = 0
    rw [Function.update_of_ne (hother sj' hsj')]
    exact h.pending sj' (hsub.subset hsj')
  · show Function.update w.ended sj.node _ node ≤ 1 ∧ (_ → Function.update w.ended sj.node _ node = 0)
    by_cases hnode : node = sj.node
    · subst hnode
      rw [Function.update_self, h.pending sj hsj]
      exact ⟨Nat.le_refl 1, fun hle => absurd (h.fresh sj hsj) (not_lt.mpr hle)⟩
    · rw [Function.update_of_ne hnode]
      exact h.ended node
  · -- The processes are different, so this is the job that is removed.
    have hinj := List.inj_on_of_nodup_map (h.children.nodup_iff.mp h.nodup)
    have hsame : sj₁ = sj := hinj (List.mem_filter.mpr ⟨hsj₁, hrunning₁⟩)
      (List.mem_filter.mpr ⟨hsj, hrunning⟩) (hpid₁.trans hpid.symm)
    rw [hsame]
    exact hother

theorem collect_spec (h : Sound w) {ended : List Ended} (hfinishes : ∀ e ∈ ended, Finishes w e)
    (hrun : sentinelCollectTerminatedScripts w ended = some w') :
    Sound w' ∧ w'.queue.Sublist w.queue ∧
      ∀ e ∈ ended, ∀ sj ∈ w.queue, sj.running = true → sj.pid = e.pid →
        ∀ sj' ∈ w'.queue, sj'.node ≠ sj.node := by
  induction ended generalizing w with
  | nil =>
    obtain rfl := Option.some_inj.mp hrun
    exact ⟨h, .refl _, nofun⟩
  | cons e ended ih =>
    obtain ⟨he, hfinishes⟩ := List.forall_mem_cons.mp hfinishes
    obtain ⟨w₁, hw₁, hrun⟩ := Option.bind_eq_some_iff.mp hrun
    obtain ⟨hsound, hsub, hremoved⟩ := collectOne_spec h he hw₁
    obtain ⟨hsound', hsub', hremoved'⟩ := ih hsound
      (fun e' he' sj hsj => hfinishes e' he' sj (hsub.subset hsj)) hrun
    refine ⟨hsound', hsub'.trans hsub, fun e' he' sj hsj hrunning hpid sj' hsj' => ?_⟩
    obtain rfl | he' := List.mem_cons.mp he'
    · exact hremoved sj hsj hrunning hpid sj' (hsub'.subset hsj')
    · by_cases hstill : sj ∈ w₁.queue
      · exact hremoved' e' he' sj hstill hrunning hpid sj' hsj'
      · -- The job was removed already, and no other job has its node.
        intro heq
        have hsame : sj' = sj := List.inj_on_of_nodup_map h.nodes
          (hsub.subset (hsub'.subset hsj')) hsj heq
        exact hstill (hsame ▸ hsub'.subset hsj')

/-! ### Runs -/

/-- No script that ends asks to be executed again, unless it was tried as often as allowed. -/
def StepOk (w : Scripts) : ScriptEvent → Prop
  | .collect ended => ∀ e ∈ ended, Finishes w e
  | _ => True

/-- The accounting of a queue: the counter is the number of jobs flagged as running and of
processes and at most 16, there are at most 256 jobs, so that another one can be added, and no job
is left after ten executions. -/
structure Accounted (w : Scripts) : Prop where
  counter : w.runningScripts = runningCount w.queue
  really : runningCount w.queue = w.children.length
  limit : w.runningScripts ≤ scriptMaxRunning
  length : w.queue.length ≤ scriptMaxQueue
  assertion : ∀ path args, (sentinelScheduleScriptExecution w path args).isSome
  executions : ∀ node, w.ended node ≤ scriptMaxRetry
  removed : ∀ sj ∈ w.queue, w.ended sj.node < scriptMaxRetry

/-- What a call has to do: pending jobs whose time has come are started unless 16 scripts run, and a
job whose script has ended is removed. -/
structure StepRight (w : Scripts) (event : ScriptEvent) (w' : Scripts) : Prop where
  started : ∀ now forks, event = .runPending now forks → ∀ sj ∈ w.queue, sj.Due now →
    (∃ sj' ∈ w'.queue, sj'.node = sj.node ∧ sj'.retryNum = sj.retryNum + 1) ∨
      scriptMaxRunning ≤ w'.children.length
  removed : ∀ ended, event = .collect ended → ∀ e ∈ ended, ∀ sj ∈ w.queue, sj.running = true →
    sj.pid = e.pid → ∀ sj' ∈ w'.queue, sj'.node ≠ sj.node

theorem Sound.accounted (h : Sound w) : Accounted w where
  counter := by rw [h.counter, length_runningPids]
  really := by rw [h.children.length_eq, length_runningPids]
  limit := h.limit
  length := h.length
  assertion path args := by
    obtain ⟨w', hw', -⟩ := sound_schedule h path args
    rw [hw']
    rfl
  executions node := (h.ended node).1.trans (by decide)
  removed sj hsj := by
    rw [h.pending sj hsj]
    decide

theorem sound_step {event : ScriptEvent} (h : Sound w) (hok : StepOk w event)
    (hstep : step w event = some w') : Sound w' ∧ StepRight w event w' := by
  cases event with
  | schedule path args =>
    obtain ⟨w₁, hw₁, hsound⟩ := sound_schedule h path args
    obtain rfl := Option.some_inj.mp (hw₁.symm.trans hstep)
    exact ⟨hsound, nofun, nofun⟩
  | runPending now forks =>
    have hsound := sound_runPending h hstep
    refine ⟨hsound, fun now' forks' heq sj hsj hdue => ?_, nofun⟩
    cases heq
    obtain ⟨⟨queue, n, children⟩, hloop, rfl⟩ := Option.map_eq_some_iff.mp hstep
    obtain hstarted | hfull := (runLoop_spec hloop).started sj hsj hdue
    · exact .inl hstarted
    · have hcounter : n = (runningPids queue).length := hsound.counter
      have hperm : children.Perm (runningPids queue) := hsound.children
      refine .inr ?_
      show _ ≤ children.length
      rw [hperm.length_eq]
      dsimp only at hfull
      omega
  | collect ended =>
    obtain ⟨hsound, -, hremoved⟩ := collect_spec h hok hstep
    refine ⟨hsound, nofun, fun ended' heq => ?_⟩
    cases heq
    exact hremoved

end

/-- In every run in which no script asks to be executed again, the accounting is right in every
state, and each call does what it has to do. -/
theorem scripts_accounted {events : List ScriptEvent} {w : Scripts}
    (hall : Runs.AllSteps step StepOk initScripts events)
    (hrun : Runs.run step initScripts events = some w) :
    Accounted w ∧ ∀ event w', StepOk w event → step w event = some w' → StepRight w event w' := by
  have hsound : Sound w := Runs.run_invariant_of_allSteps
    (fun _ _ _ h hok hstep => (sound_step h hok hstep).1) sound_initScripts hall hrun
  exact ⟨hsound.accounted, fun _ _ hok hstep => (sound_step hsound hok hstep).2⟩

/-- A script whose first `fork` fails is started later, and succeeds. -/
theorem scripts_accounted_fork : ∃ w, Runs.run step initScripts
    [.schedule [47] [], .runPending 100 [⟨100, none⟩], .runPending 200 [⟨200, some 7⟩],
      .collect [⟨7, 0, 0, 300⟩]] = some w ∧ w.queue.length = 0 ∧ Accounted w := by
  have hall : Runs.AllSteps step StepOk initScripts
      [.schedule [47] [], .runPending 100 [⟨100, none⟩], .runPending 200 [⟨200, some 7⟩],
        .collect [⟨7, 0, 0, 300⟩]] := by
    refine .cons trivial rfl (.cons trivial rfl (.cons trivial rfl (.cons ?_ rfl trivial)))
    intro e he sj _ _ _ hretry
    rw [List.mem_singleton.mp he] at hretry
    exact absurd hretry (by decide)
  exact ⟨_, rfl, rfl, (scripts_accounted hall rfl).1⟩

/-- Sixteen scripts that exit with 1. -/
def sixteenRetries : List ScriptEvent :=
  List.replicate 16 (.schedule [47] []) ++
    [.runPending 1 ((List.range 16).map fun i => ⟨1, some (i + 1)⟩),
      .collect ((List.range 16).map fun i => ⟨i + 1, 1, 0, 2⟩)]

/-- After sixteen scripts asked to be executed again, no script runs, but `running_scripts` is 16, and
no script is started any more. -/
theorem scripts_leak : ∃ w, Runs.run step initScripts sixteenRetries = some w ∧
    w.runningScripts = 16 ∧ w.children.length = 0 ∧ ¬ Accounted w ∧
    ∃ w', step w (.runPending 1000000 []) = some w' ∧
      ¬ StepRight w (.runPending 1000000 []) w' := by
  have hbefore : (Runs.run step initScripts sixteenRetries).map (fun w =>
      (w.runningScripts, w.children.length, w.queue.map fun sj =>
        (sj.running, sj.startTime, sj.retryNum))) =
      some (16, 0, List.replicate 16 (false, 30002, 1)) := by
    decide +kernel
  have hafter : (Runs.run step initScripts (sixteenRetries ++ [.runPending 1000000 []])).map
      (fun w => (w.children.length, w.queue.map (·.retryNum))) =
      some (0, List.replicate 16 1) := by
    decide +kernel
  obtain ⟨w, hw, hseen⟩ := Option.map_eq_some_iff.mp hbefore
  obtain ⟨w', hw', hseen'⟩ := Option.map_eq_some_iff.mp hafter
  simp only [Prod.mk.injEq] at hseen hseen'
  obtain ⟨hcount, hchildren, hqueue⟩ := hseen
  obtain ⟨hchildren', hqueue'⟩ := hseen'
  obtain ⟨w₁, hw₁, hrun⟩ := Runs.run_append_eq_some.mp hw'
  obtain rfl := Option.some_inj.mp (hw.symm.trans hw₁)
  obtain ⟨w₂, hstep, hw₂⟩ := Runs.run_cons_eq_some.mp hrun
  obtain rfl := Option.some_inj.mp hw₂
  refine ⟨w, hw, hcount, hchildren, fun h => ?_, w₂, hstep, fun h => ?_⟩
  · have hcounter := h.counter
    rw [h.really, hcount, hchildren] at hcounter
    cases hcounter
  · have hmem : (false, (30002 : ℤ), 1) ∈ w.queue.map fun sj =>
        (sj.running, sj.startTime, sj.retryNum) := by
      rw [hqueue]
      exact List.mem_replicate.mpr ⟨by decide, rfl⟩
    obtain ⟨sj, hsj, heq⟩ := List.mem_map.mp hmem
    simp only [Prod.mk.injEq] at heq
    obtain ⟨hidle, htime, hretry⟩ := heq
    obtain ⟨sj', hsj', -, hretry'⟩ | hfull := h.started 1000000 [] rfl sj hsj
      ⟨hidle, .inr (by rw [htime]; decide)⟩
    · have hone : sj'.retryNum ∈ w₂.queue.map (·.retryNum) := List.mem_map_of_mem hsj'
      rw [hqueue'] at hone
      rw [(List.mem_replicate.mp hone).2, hretry] at hretry'
      cases hretry'
    · rw [hchildren'] at hfull
      cases hfull

end SentinelScripts

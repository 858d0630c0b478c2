/-
Votes and crashes.

A node that crashes restarts from the `nodes.conf` it wrote last.  Packets that still were
in its output buffers are lost, the others have left.

* `voterStep` — the steps of a node, with the file, the acknowledgements in the buffers and
  those that left;
* `run_oneVote` — no two slaves get an acknowledgement of one epoch, if the node crashes
  only when the file has the votes whose acknowledgements left;
* `run_votedTwice` — a vote that is forgotten.
-/
import RedisModel.ClusterElectionRun

open Except

namespace ClusterState

variable {N : Type}

/-- A node, what it wrote to `nodes.conf`, and its acknowledgements with the slaves they are
for. -/
structure Voter (N : Type) where
  st : ClusterState N
  /-- The state that the file describes. -/
  file : ClusterState N
  buffer : List (N × ClusterMsg N)
  left : List (N × ClusterMsg N)

def clusterSaveConfig (v : Voter N) (fsync : Bool) : Voter N :=
  { v with
    file := v.st
    st := { v.st with
      todoSaveConfig := false
      todoFsyncConfig := v.st.todoFsyncConfig && !fsync } }

/-- The part of `clusterBeforeSleep` that saves the configuration. -/
def clusterBeforeSleep (v : Voter N) : Voter N :=
  let v := if v.st.todoSaveConfig then clusterSaveConfig v v.st.todoFsyncConfig else v
  { v with st := { v.st with
    todoHandleFailover := false
    todoUpdateState := false
    todoSaveConfig := false
    todoFsyncConfig := false } }

/-- What `clusterLoadConfig` makes of the line `vars`, where `loaded` is the state with the
nodes of the file. -/
def clusterLoadConfigVars (file loaded : ClusterState N) : Result (ClusterState N) := do
  let st := { loaded with
    currentEpoch := file.currentEpoch
    lastVoteEpoch := file.lastVoteEpoch }
  let maxEpoch ← clusterGetMaxEpoch st
  .ok (if maxEpoch > st.currentEpoch then { st with currentEpoch := maxEpoch } else st)

inductive VoterEvent (N : Type) where
  | request (hdr : ClusterMsg N) (env : VoteEnv)
  | beforeSleep
  /-- A call of `clusterSaveConfig` elsewhere. -/
  | save (fsync : Bool)
  /-- A packet leaves its buffer. -/
  | flush (k : ℕ)
  /-- A crash, and a restart from the file. -/
  | crash (loaded : ClusterState N)
  /-- Anything else the server does to the node. -/
  | other (st : ClusterState N)

/-- A request, and its acknowledgement if the vote was granted and there is a link. -/
def answer [DecidableEq N] (v : Voter N) (hdr : ClusterMsg N) (env : VoteEnv) :
    Result (Voter N) := do
  let (st, vote) ← clusterProcessAuthRequest v.st hdr env
  match vote with
  | .granted (some ack) => .ok { v with st, buffer := v.buffer ++ [(hdr.sender, ack)] }
  | _ => .ok { v with st }

def voterStep [DecidableEq N] (v : Voter N) : VoterEvent N → Option (Voter N)
  | .request hdr env => (answer v hdr env).toOption
  | .beforeSleep => some (clusterBeforeSleep v)
  | .save fsync => some (clusterSaveConfig v fsync)
  | .flush k => (v.buffer[k]?).map fun m =>
      { v with buffer := v.buffer.eraseIdx k, left := v.left ++ [m] }
  | .crash loaded => (clusterLoadConfigVars v.file loaded).toOption.map fun st =>
      { v with st, buffer := [] }
  | .other st => some { v with st := outside v.st st }

/-- The node does not crash when an acknowledgement has left whose vote was granted after
the file was written. -/
def VotesSaved (v : Voter N) : VoterEvent N → Prop
  | .crash _ => ∀ m ∈ v.left, m.2.currentEpoch ≤ v.file.lastVoteEpoch
  | _ => True

/-- The epochs of the votes are in order, and every acknowledgement of an epoch is for the
same slave. -/
structure OneVote (v : Voter N) : Prop where
  voteLe : v.st.lastVoteEpoch ≤ v.st.currentEpoch
  fileLe : v.file.lastVoteEpoch ≤ v.file.currentEpoch
  epochs : ∀ m ∈ v.left ++ v.buffer, m.2.currentEpoch ≤ v.st.lastVoteEpoch
  once : ∀ m ∈ v.left ++ v.buffer, ∀ m' ∈ v.left ++ v.buffer,
    m.2.currentEpoch = m'.2.currentEpoch → m.1 = m'.1

theorem clusterLoadConfigVars_spec (file loaded : ClusterState N) :
    (clusterLoadConfigVars file loaded).Ensures AnyFault fun st =>
      st.lastVoteEpoch = file.lastVoteEpoch ∧ file.currentEpoch ≤ st.currentEpoch := by
  refine Ensures.bind (Q := fun _ => True) ?_ fun maxEpoch _ => ?_
  · refine Ensures.bind (Q := fun _ => True) (Ensures.foldlM ?_ trivial) fun _ _ => trivial
    rintro m e - -
    exact (node_ensures trivial _ e.2).bind fun _ _ => trivial
  · split
    · rename_i hgt
      exact ⟨rfl, hgt.le⟩
    · exact ⟨rfl, le_rfl⟩

theorem OneVote.save {v : Voter N} (h : OneVote v) (fsync : Bool) :
    OneVote (clusterSaveConfig v fsync) :=
  ⟨h.voteLe, h.voteLe, h.epochs, h.once⟩

section
variable [DecidableEq N]

theorem OneVote.answer {v : Voter N} (h : OneVote v) (hdr : ClusterMsg N) (env : VoteEnv) :
    (answer v hdr env).Ensures AnyFault OneVote := by
  refine (clusterProcessAuthRequest_spec hdr env).bind ?_
  rintro ⟨st, vote⟩ hspec
  have hle := h.voteLe
  cases vote with
  | denied =>
    refine ⟨?_, h.fileLe, fun m hm => ?_, h.once⟩
    · exact hspec.lastVoteEpoch ▸ hle.trans hspec.currentEpoch
    · exact hspec.lastVoteEpoch ▸ h.epochs m hm
  | granted ack =>
    have hspec : VotedFor v.st st hdr ack := hspec
    have hfresh := hspec.fresh
    have hvoted := hspec.voted
    have hcur := hspec.currentEpoch
    have hlt : v.st.lastVoteEpoch < st.lastVoteEpoch := by omega
    have hold : ∀ m ∈ v.left ++ v.buffer, m.2.currentEpoch < st.lastVoteEpoch := fun m hm =>
      (h.epochs m hm).trans_lt hlt
    cases ack with
    | none => exact ⟨hvoted.le, h.fileLe, fun m hm => (hold m hm).le, h.once⟩
    | some ack =>
      have hack : ack.currentEpoch = st.lastVoteEpoch := (hspec.ack ack rfl).2.trans hvoted.symm
      have hmem : ∀ m, m ∈ v.left ++ (v.buffer ++ [(hdr.sender, ack)]) →
          m ∈ v.left ++ v.buffer ∨ m = (hdr.sender, ack) := by
        intro m hm
        rw [← List.append_assoc] at hm
        exact (List.mem_append.mp hm).imp id List.mem_singleton.mp
      refine ⟨hvoted.le, h.fileLe, fun m hm => ?_, fun m hm m' hm' heq => ?_⟩
      · rcases hmem m hm with hm | rfl
        · exact (hold m hm).le
        · exact hack.le
      · rcases hmem m hm with hm | rfl <;> rcases hmem m' hm' with hm' | rfl
        · exact h.once m hm m' hm' heq
        · exact absurd (heq.trans hack) (hold m hm).ne
        · exact absurd (heq.symm.trans hack) (hold m' hm').ne
        · rfl

/-- Every step of a run without a bad crash keeps the invariant. -/
theorem OneVote.step {v v' : Voter N} {ev : VoterEvent N} (h : OneVote v) (hsaved : VotesSaved v ev)
    (hstep : voterStep v ev = some v') : OneVote v' := by
  cases ev with
  | request hdr env => exact (h.answer hdr env).of_eq_ok (toOption_eq_some.mp hstep)
  | beforeSleep =>
    obtain rfl := Option.some_inj.mp hstep
    rw [clusterBeforeSleep]
    split
    · have hsave := h.save v.st.todoFsyncConfig
      exact ⟨hsave.1, hsave.2, hsave.3, hsave.4⟩
    · exact ⟨h.1, h.2, h.3, h.4⟩
  | save fsync =>
    obtain rfl := Option.some_inj.mp hstep
    exact h.save fsync
  | flush k =>
    obtain ⟨m, hm, rfl⟩ := Option.map_eq_some_iff.mp hstep
    have hsub : ∀ m', m' ∈ (v.left ++ [m]) ++ v.buffer.eraseIdx k → m' ∈ v.left ++ v.buffer := by
      intro m' hm'
      rcases List.mem_append.mp hm' with hm' | hm'
      · rcases List.mem_append.mp hm' with hm' | hm'
        · exact List.mem_append_left _ hm'
        · obtain rfl := List.mem_singleton.mp hm'
          exact List.mem_append_right _ (List.mem_of_getElem? hm)
      · exact List.mem_append_right _ (List.mem_of_mem_eraseIdx hm')
    exact ⟨h.voteLe, h.fileLe, fun m' hm' => h.epochs m' (hsub m' hm'),
      fun a ha b hb => h.once a (hsub a ha) b (hsub b hb)⟩
  | crash loaded =>
    obtain ⟨st, hst, rfl⟩ := Option.map_eq_some_iff.mp hstep
    obtain ⟨hvote, hcur⟩ := (clusterLoadConfigVars_spec v.file loaded).of_eq_ok
      (toOption_eq_some.mp hst)
    have hsub : ∀ m, m ∈ v.left ++ [] → m ∈ v.left := fun m hm => by rwa [List.append_nil] at hm
    refine ⟨hvote ▸ h.fileLe.trans hcur, h.fileLe, fun m hm => ?_, fun a ha b hb => ?_⟩
    · exact (hsaved m (hsub m hm)).trans hvote.ge
    · exact h.once a (List.mem_append_left _ (hsub a ha)) b (List.mem_append_left _ (hsub b hb))
  | other st =>
    obtain rfl := Option.some_inj.mp hstep
    exact ⟨h.voteLe.trans (le_max_left _ _), h.fileLe, h.epochs, h.once⟩

/-- A node that has voted for nobody, with a file it could have written. -/
structure Unvoted (v : Voter N) : Prop where
  voteLe : v.st.lastVoteEpoch ≤ v.st.currentEpoch
  fileLe : v.file.lastVoteEpoch ≤ v.file.currentEpoch
  buffer : v.buffer = []
  left : v.left = []

omit [DecidableEq N] in
theorem Unvoted.oneVote {v : Voter N} (h : Unvoted v) : OneVote v := by
  refine ⟨h.voteLe, h.fileLe, ?_, ?_⟩ <;> simp [h.buffer, h.left]

/-- No two slaves get an acknowledgement of one epoch, in a run whose crashes find the votes
in the file. -/
theorem run_oneVote {v v' : Voter N} {es : List (VoterEvent N)} (h : Unvoted v)
    (hall : Runs.AllSteps voterStep VotesSaved v es) (hrun : Runs.run voterStep v es = some v') :
    ∀ m ∈ v'.left, ∀ m' ∈ v'.left, m.2.currentEpoch = m'.2.currentEpoch → m.1 = m'.1 := by
  have hv' : OneVote v' :=
    Runs.run_invariant_of_allSteps (fun v ev v' hv hsaved hstep => OneVote.step hv hsaved hstep)
      h.oneVote hall hrun
  exact fun m hm m' hm' => hv'.once m (List.mem_append_left _ hm) m' (List.mem_append_left _ hm')

end

/-- One of the five nodes, with its first file. -/
def voter (i : Fin 5) : Voter (Fin 5) := ⟨electionState i, electionState i, [], []⟩

/-- A request of a slave for epoch 1. -/
def voteRequest (i master : Fin 5) : ClusterMsg (Fin 5) where
  sender := i
  currentEpoch := 1
  configEpoch := 0
  offset := 0
  slaveof := some master
  myslots := fun slot => decide (slot.val = 0)
  master := false
  slave := true
  paused := false
  forceAck := false

theorem unvoted_voter (i : Fin 5) : Unvoted (voter i) := ⟨le_rfl, le_rfl, rfl, rfl⟩

theorem voterStep_granted {v : Voter (Fin 5)} {hdr ack : ClusterMsg (Fin 5)} {env : VoteEnv}
    {st : ClusterState (Fin 5)}
    (hvote : clusterProcessAuthRequest v.st hdr env = .ok (st, .granted (some ack))) :
    voterStep v (.request hdr env)
      = some { v with st, buffer := v.buffer ++ [(hdr.sender, ack)] } := by
  simp only [voterStep, answer, hvote]
  rfl

theorem exists_savedVote : ∃ v, (Runs.AllSteps voterStep VotesSaved (voter 1)
    [.request (voteRequest 3 0) (masterAt 10000), .save true, .flush 0, .crash (electionState 1)] ∧
      Runs.run voterStep (voter 1) [.request (voteRequest 3 0) (masterAt 10000), .save true, .flush 0,
        .crash (electionState 1)] = some v) ∧ v.left.map Prod.fst = [3] ∧ v.st.lastVoteEpoch = 1 :=
  ⟨_,
    Runs.AllSteps.run_cons trivial (voterStep_granted <| clusterProcessAuthRequest_granted rfl rfl rfl rfl rfl rfl rfl rfl
      (slots_le rfl ⟨_, rfl, le_rfl⟩ ⟨_, rfl, le_rfl⟩ ⟨_, rfl, le_rfl⟩) rfl
      (by decide) (by decide) (by decide) (by decide) (by decide)) <|
    Runs.AllSteps.run_cons trivial rfl <|
    Runs.AllSteps.run_cons trivial rfl <|
    Runs.AllSteps.run_cons (List.forall_mem_singleton.mpr (Nat.le_refl 1)) rfl <|
    ⟨trivial, rfl⟩, rfl, rfl⟩

/-- A vote that is saved before its acknowledgement leaves is not forgotten. -/
theorem run_savedVote : ∃ v, Runs.run voterStep (voter 1) [.request (voteRequest 3 0) (masterAt 10000),
    .save true, .flush 0, .crash (electionState 1)] = some v ∧ v.left.map Prod.fst = [3] ∧
      v.st.lastVoteEpoch = 1 ∧
      ∀ m ∈ v.left, ∀ m' ∈ v.left, m.2.currentEpoch = m'.2.currentEpoch → m.1 = m'.1 := by
  obtain ⟨v, ⟨hall, hrun⟩, hleft, hvote⟩ := exists_savedVote
  exact ⟨v, hrun, hleft, hvote, run_oneVote (unvoted_voter 1) hall hrun⟩

/-- A vote sets no flag, so `clusterBeforeSleep` does not write it to the file; after a
crash the node votes again in the same epoch. -/
theorem run_votedTwice : Unvoted (voter 1) ∧ ∃ v, Runs.run voterStep (voter 1)
    [.request (voteRequest 3 0) (masterAt 10000), .beforeSleep, .flush 0, .crash (electionState 1),
      .request (voteRequest 4 0) (masterAt 20000), .flush 0] = some v ∧
    v.left.map (fun m => (m.1, m.2.currentEpoch)) = [(3, 1), (4, 1)] :=
  ⟨unvoted_voter 1, _,
    Runs.run_cons_of_step (voterStep_granted <| clusterProcessAuthRequest_granted rfl rfl rfl rfl rfl rfl rfl rfl
      (slots_le rfl ⟨_, rfl, le_rfl⟩ ⟨_, rfl, le_rfl⟩ ⟨_, rfl, le_rfl⟩) rfl
      (by decide) (by decide) (by decide) (by decide) (by decide)) <|
    Runs.run_cons_of_step rfl <|
    Runs.run_cons_of_step rfl <|
    Runs.run_cons_of_step rfl <|
    Runs.run_cons_of_step (voterStep_granted <| clusterProcessAuthRequest_granted rfl rfl rfl rfl rfl rfl rfl rfl
      (slots_le rfl ⟨_, rfl, le_rfl⟩ ⟨_, rfl, le_rfl⟩ ⟨_, rfl, le_rfl⟩) rfl
      (by decide) (by decide) (by decide) (by decide) (by decide)) <|
    Runs.run_cons_of_step rfl <|
    rfl, rfl⟩

end ClusterState

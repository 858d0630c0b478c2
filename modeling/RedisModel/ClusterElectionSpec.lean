/-
What the functions of an election do.

* `KeepsElection` — the votes and elections of a node are the same, its current epoch may
  have grown;
* `clusterProcessPing_keepsElection` — a heartbeat;
* `clusterProcessAuthRequest_spec`, `clusterProcessAuthAck_spec` — requests and
  acknowledgements;
* `clusterHandleSlaveFailover_spec` — the steps of a slave.
-/
import RedisModel.ClusterElection
import RedisModel.ClusterEpochs
import RedisModel.ClusterSlotsRun

open Except

namespace ClusterState

variable {N : Type}

/-- The same votes and elections; the current epoch may have grown. -/
structure KeepsElection (st st' : ClusterState N) : Prop where
  myself : st'.myself = st.myself
  lastVoteEpoch : st'.lastVoteEpoch = st.lastVoteEpoch
  count : st'.failoverAuthCount = st.failoverAuthCount
  sent : st'.failoverAuthSent = st.failoverAuthSent
  authEpoch : st'.failoverAuthEpoch = st.failoverAuthEpoch
  currentEpoch : st.currentEpoch ≤ st'.currentEpoch
  name : ∀ r, (st'.heap r).map ClusterNode.name = (st.heap r).map ClusterNode.name

theorem KeepsElection.refl (st : ClusterState N) : KeepsElection st st :=
  ⟨rfl, rfl, rfl, rfl, rfl, le_rfl, fun _ => rfl⟩

theorem KeepsElection.trans {st₁ st₂ st₃ : ClusterState N} (h : KeepsElection st₁ st₂)
    (h' : KeepsElection st₂ st₃) : KeepsElection st₁ st₃ :=
  ⟨h'.myself.trans h.myself, h'.lastVoteEpoch.trans h.lastVoteEpoch, h'.count.trans h.count,
    h'.sent.trans h.sent, h'.authEpoch.trans h.authEpoch, h.currentEpoch.trans h'.currentEpoch,
    fun r => (h'.name r).trans (h.name r)⟩

theorem SameEpochs.keepsElection {st st' : ClusterState N} (h : SameEpochs st st') :
    KeepsElection st st' := by
  refine ⟨h.myself, h.lastVoteEpoch, h.count, h.sent, h.authEpoch, h.currentEpoch.ge, fun r => ?_⟩
  have hid := congrArg (Option.map Prod.fst) (h.heap r)
  rwa [Option.map_map, Option.map_map] at hid

theorem keepsElection_update {st st' : ClusterState N} {r : NodeRef} {n n' : ClusterNode N}
    (hr : st.heap r = some n) (hheap : st'.heap = Function.update st.heap r (some n'))
    (hname : n'.name = n.name) : ∀ s, (st'.heap s).map ClusterNode.name
      = (st.heap s).map ClusterNode.name := by
  intro s
  rw [hheap]
  by_cases hs : s = r
  · subst hs
    simp [hr, hname]
  · rw [Function.update_of_ne hs]

theorem withEpochs_keepsElection {st : ClusterState N} {sender : NodeRef} {n : ClusterNode N}
    (hn : st.heap sender = some n) (hdr : ClusterMsg N) :
    KeepsElection st (st.withEpochs sender n hdr) :=
  ⟨rfl, rfl, rfl, rfl, rfl, le_max_left _ _, keepsElection_update hn rfl rfl⟩

theorem updateEpochs_keepsElection {st : ClusterState N} (sender : NodeRef) (hdr : ClusterMsg N) :
    (updateEpochs st sender hdr).Ensures AnyFault fun st' => KeepsElection st st' ∧
      st'.currentEpoch = max st.currentEpoch hdr.currentEpoch := by
  cases hn : st.heap sender with
  | none =>
    have hnode : ∀ st₁ : ClusterState N, st₁.heap = st.heap → st₁.node sender = .error .wild := by
      intro st₁ h₁
      rw [node, h₁, hn]
    unfold updateEpochs
    dsimp only
    rw [hnode _ (by split <;> rfl)]
    trivial
  | some n =>
    exact (updateEpochs_spec hn hdr).imp fun st' h =>
      ⟨(withEpochs_keepsElection hn hdr).trans h.keepsElection, h.currentEpoch⟩

theorem nextEpoch_of_lt {e : ℕ} (h : e + 1 < 2 ^ 64) : nextEpoch e = e + 1 := Nat.mod_eq_of_lt h

theorem bumped_keepsElection {st : ClusterState N} (hroom : st.currentEpoch + 1 < 2 ^ 64)
    {me : ClusterNode N} (hme : st.heap st.myself = some me) : KeepsElection st (st.bumped me) := by
  refine ⟨rfl, rfl, rfl, rfl, rfl, ?_, keepsElection_update hme rfl rfl⟩
  show st.currentEpoch ≤ nextEpoch st.currentEpoch
  rw [nextEpoch_of_lt hroom]
  exact Nat.le_succ _

section
variable [LinearOrder N]

theorem checkCollision_keepsElection {st : ClusterState N} (hroom : st.currentEpoch + 1 < 2 ^ 64)
    (sender : NodeRef) (senderConfigEpoch : ℕ) :
    (checkCollision st sender senderConfigEpoch).Ensures AnyFault (KeepsElection st) := by
  refine (node_ensures trivial st sender).bind fun n hn => ?_
  refine (node_ensures trivial st st.myself).bind fun me hme => ?_
  split
  · refine (clusterHandleConfigEpochCollision_spec hn hme).imp fun st' h => ?_
    rcases h with ⟨-, rfl⟩ | ⟨-, h⟩
    · exact KeepsElection.refl _
    · exact (bumped_keepsElection hroom hme).trans h.keepsElection
  · exact KeepsElection.refl st

theorem clusterProcessPing_keepsElection {st : ClusterState N} {hdr : ClusterMsg N}
    (hroom : st.currentEpoch + 1 < 2 ^ 64) (hroomHdr : hdr.currentEpoch + 1 < 2 ^ 64) :
    (clusterProcessPing st hdr).Ensures AnyFault (KeepsElection st) := by
  rw [clusterProcessPing]
  split
  · exact KeepsElection.refl st
  · rename_i sender _
    refine (node_ensures trivial st sender).bind fun n _ => ?_
    refine Ensures.bind (Q := fun st' => KeepsElection st st' ∧ st'.currentEpoch + 1 < 2 ^ 64) ?_
      fun st₁ h₁ => ?_
    · split
      · exact ⟨KeepsElection.refl st, hroom⟩
      · refine (updateEpochs_keepsElection sender hdr).imp fun st' h => ⟨h.1, ?_⟩
        rw [h.2]
        omega
    dsimp only
    refine (roleSwitch_sameEpochs st₁ sender hdr).bind fun st₂ h₂ => ?_
    refine (updateSlots_sameEpochs st₂ sender _ hdr).bind fun st₃ h₃ => ?_
    have h := h₂.trans h₃
    have hroom₃ : st₃.currentEpoch + 1 < 2 ^ 64 := by
      rw [h.currentEpoch]
      exact h₁.2
    exact (checkCollision_keepsElection hroom₃ sender _).imp fun st' h' =>
      (h₁.1.trans h.keepsElection).trans h'

end

/-! ### Votes -/

theorem clusterBuildMessageHdr_spec {st : ClusterState N} (offset : ℤ) :
    (clusterBuildMessageHdr st offset).Ensures AnyFault fun hdr =>
      (st.heap st.myself).map ClusterNode.name = some hdr.sender ∧
        hdr.currentEpoch = st.currentEpoch := by
  refine (node_ensures trivial st st.myself).bind fun me hme => ?_
  refine (node_ensures trivial st _).bind fun master _ => ?_
  refine Ensures.bind (Q := fun _ => True) ?_ fun slaveof _ => ?_
  · unfold nameOf
    split
    · trivial
    · exact (node_ensures trivial st _).bind fun _ _ => trivial
  · exact ⟨by rw [hme]; rfl, rfl⟩

/-- What a vote is worth: it is given for the current epoch, which is an epoch in which this
node has not voted, and no greater than the epoch of the request. -/
structure VotedFor (st st' : ClusterState N) (request : ClusterMsg N)
    (ack : Option (ClusterMsg N)) : Prop where
  myself : st'.myself = st.myself
  count : st'.failoverAuthCount = st.failoverAuthCount
  sent : st'.failoverAuthSent = st.failoverAuthSent
  authEpoch : st'.failoverAuthEpoch = st.failoverAuthEpoch
  currentEpoch : st.currentEpoch ≤ st'.currentEpoch
  name : ∀ r, (st'.heap r).map ClusterNode.name = (st.heap r).map ClusterNode.name
  fresh : st.lastVoteEpoch ≠ st'.currentEpoch
  voted : st'.lastVoteEpoch = st'.currentEpoch
  asked : st'.currentEpoch ≤ request.currentEpoch
  ack : ∀ hdr, ack = some hdr → (st.heap st.myself).map ClusterNode.name = some hdr.sender ∧
    hdr.currentEpoch = st'.currentEpoch

theorem clusterSendFailoverAuth_spec {st : ClusterState N} (node : ClusterNode N) (offset : ℤ) :
    (clusterSendFailoverAuth st node offset).Ensures AnyFault fun ack => ∀ hdr, ack = some hdr →
      (st.heap st.myself).map ClusterNode.name = some hdr.sender ∧
        hdr.currentEpoch = st.currentEpoch := by
  rw [clusterSendFailoverAuth]
  split
  · refine (clusterBuildMessageHdr_spec offset).bind fun hdr h => ?_
    rintro hdr' heq
    obtain rfl := Option.some_inj.mp heq
    exact h
  · exact nofun

theorem clusterSendFailoverAuthIfNeeded_spec {st : ClusterState N} (r : NodeRef)
    (request : ClusterMsg N) (env : VoteEnv) :
    (clusterSendFailoverAuthIfNeeded st r request env).Ensures AnyFault fun p =>
      match p.2 with
      | .denied => p.1 = st
      | .granted ack => VotedFor st p.1 request ack := by
  refine (node_ensures trivial st r).bind fun node _ => ?_
  refine (node_ensures trivial st st.myself).bind fun me _ => ?_
  split
  · rfl
  split
  · rfl
  rename_i hasked
  split
  · rfl
  rename_i hfresh
  split
  · rfl
  rename_i m _
  refine (node_ensures trivial st m).bind fun master hmaster => ?_
  split
  · rfl
  split
  · rfl
  refine Ensures.bind (Q := fun _ => True) (Ensures.foldlM ?_ trivial) fun stale _ => ?_
  · rintro stale slot - -
    split
    · trivial
    split
    · split
      · trivial
      · exact (node_ensures trivial st _).bind fun _ _ => trivial
    · trivial
  split
  · rfl
  refine (clusterSendFailoverAuth_spec node env.offset).bind fun ack hack => ?_
  refine Ensures.bind (Q := fun st' => ∃ n, st.heap m = some n ∧ st' =
    ({ st with lastVoteEpoch := st.currentEpoch } : ClusterState N).setNode m
      { n with votedTime := env.now }) ?_ ?_
  · exact (node_ensures trivial _ m).bind fun n hn => ⟨n, hn, rfl⟩
  · rintro st' ⟨n, hn, rfl⟩
    exact ⟨rfl, rfl, rfl, rfl, le_rfl, keepsElection_update hn rfl rfl, hfresh, rfl,
      not_lt.mp hasked, hack⟩

theorem KeepsElection.votedFor {st st₁ st' : ClusterState N} (h : KeepsElection st st₁)
    {request : ClusterMsg N} {ack : Option (ClusterMsg N)} (hv : VotedFor st₁ st' request ack) :
    VotedFor st st' request ack where
  myself := hv.myself.trans h.myself
  count := hv.count.trans h.count
  sent := hv.sent.trans h.sent
  authEpoch := hv.authEpoch.trans h.authEpoch
  currentEpoch := h.currentEpoch.trans hv.currentEpoch
  name r := (hv.name r).trans (h.name r)
  fresh := h.lastVoteEpoch ▸ hv.fresh
  voted := hv.voted
  asked := hv.asked
  ack hdr hack := by
    obtain ⟨hname, hepoch⟩ := hv.ack hdr hack
    rw [h.name, h.myself] at hname
    exact ⟨hname, hepoch⟩

section
variable [DecidableEq N]

theorem clusterProcessAuthRequest_spec {st : ClusterState N} (hdr : ClusterMsg N) (env : VoteEnv) :
    (clusterProcessAuthRequest st hdr env).Ensures AnyFault fun p =>
      match p.2 with
      | .denied => KeepsElection st p.1
      | .granted ack => VotedFor st p.1 hdr ack := by
  rw [clusterProcessAuthRequest]
  split
  · exact KeepsElection.refl st
  · rename_i sender _
    refine (node_ensures trivial st sender).bind fun n _ => ?_
    refine Ensures.bind (Q := KeepsElection st) ?_ fun st₁ h₁ => ?_
    · split
      · exact KeepsElection.refl st
      · exact (updateEpochs_keepsElection sender hdr).imp fun st' h => h.1
    refine (clusterSendFailoverAuthIfNeeded_spec sender hdr env).imp ?_
    rintro ⟨st', vote⟩ h
    cases vote with
    | denied =>
      obtain rfl : st' = st₁ := h
      exact h₁
    | granted ack => exact h₁.votedFor h

/-- Whether an acknowledgement will be counted: it comes from a master with slots, in an
epoch that is not before the one of the last request. -/
def ackCounts (st : ClusterState N) (hdr : ClusterMsg N) : Bool :=
  match clusterLookupNode st hdr.sender with
  | none => false
  | some sender => match st.heap sender with
    | none => false
    | some n => countsAck st n (if n.flags.handshake then 0 else hdr.currentEpoch)

omit [DecidableEq N] in
theorem countsAck_iff {st : ClusterState N} {n : ClusterNode N} {e : ℕ} :
    countsAck st n e = true ↔ n.flags.master = true ∧ 0 < n.numslots ∧ st.failoverAuthEpoch ≤ e := by
  simp [countsAck, and_assoc]

theorem clusterProcessAuthAck_spec {st : ClusterState N} (hdr : ClusterMsg N) :
    (clusterProcessAuthAck st hdr).Ensures AnyFault fun st' =>
      if ackCounts st hdr then ∃ st₁, KeepsElection st st₁ ∧
          st' = { st₁ with failoverAuthCount := st₁.failoverAuthCount + 1, todoHandleFailover := true }
      else KeepsElection st st' := by
  rw [clusterProcessAuthAck]
  split
  · rename_i hlookup
    simp only [ackCounts, hlookup]
    exact KeepsElection.refl st
  · rename_i sender hlookup
    refine (node_ensures trivial st sender).bind fun n hn => ?_
    simp only [ackCounts, hlookup, hn]
    refine Ensures.bind (Q := fun st' => KeepsElection st st' ∧ SameSlots st st') ?_ fun st₁ hst₁ => ?_
    · split
      · exact ⟨KeepsElection.refl st, SameSlots.refl st⟩
      · exact ((updateEpochs_keepsElection sender hdr).imp fun _ h => h.1).and
          ((updateEpochs_sameSlots st sender hdr).mono (fun _ _ => trivial) fun _ h => h)
    obtain ⟨h₁, hsame⟩ := hst₁
    refine (node_ensures trivial st₁ sender).bind fun n₁ hn₁ => ?_
    obtain ⟨n', hn', hslots, hnum, hmaster⟩ := hsame.node hn
    obtain rfl := Option.some_inj.mp (hn₁.symm.trans hn')
    have hcounts : countsAck st₁ n₁ (if n.flags.handshake then 0 else hdr.currentEpoch)
        = countsAck st n (if n.flags.handshake then 0 else hdr.currentEpoch) := by
      rw [countsAck, countsAck, hnum, hmaster, h₁.authEpoch]
    rw [hcounts]
    cases countsAck st n (if n.flags.handshake then 0 else hdr.currentEpoch) with
    | true => exact ⟨st₁, h₁, rfl⟩
    | false => exact h₁

end

/-! ### The steps of a slave -/

theorem clusterGetSlaveRank_total (st : ClusterState N) (offset : ℤ) :
    (clusterGetSlaveRank st offset).Ensures AnyFault fun _ => True := by
  refine (node_ensures trivial st st.myself).bind fun me _ => ?_
  refine (redisAssert_anyFault _ _).bind fun _ _ => ?_
  split
  · trivial
  · refine (node_ensures trivial st _).bind fun master _ => Ensures.foldlM ?_ trivial
    rintro rank s - -
    split
    · trivial
    · exact (node_ensures trivial st s).bind fun _ _ => trivial

theorem updateRank_spec (st : ClusterState N) (env : FailoverEnv) :
    (updateRank st env).Ensures AnyFault fun st' => KeepsElection st st' ∧
      st'.currentEpoch = st.currentEpoch ∧ st'.size = st.size := by
  rw [updateRank]
  split
  · refine (clusterGetSlaveRank_total st env.offset).bind fun newrank _ => ?_
    have h : ∀ st' : ClusterState N, st' = st ∨ st' = { st with
        failoverAuthTime := st.failoverAuthTime + (newrank - st.failoverAuthRank) * 1000
        failoverAuthRank := newrank } → KeepsElection st st' ∧
          st'.currentEpoch = st.currentEpoch ∧ st'.size = st.size := by
      rintro st' (rfl | rfl)
      · exact ⟨KeepsElection.refl _, rfl, rfl⟩
      · exact ⟨⟨rfl, rfl, rfl, rfl, rfl, le_rfl, fun _ => rfl⟩, rfl, rfl⟩
    refine h _ ?_
    split
    · exact Or.inr rfl
    · exact Or.inl rfl
  · exact ⟨KeepsElection.refl st, rfl, rfl⟩

/-- The configuration epoch of this node. -/
def myConfigEpoch (st : ClusterState N) : ℕ :=
  match st.heap st.myself with
  | some me => me.configEpoch
  | none => 0

theorem myConfigEpoch_eq {st : ClusterState N} {me : ClusterNode N}
    (hme : st.heap st.myself = some me) : st.myConfigEpoch = me.configEpoch := by
  rw [myConfigEpoch, hme]

theorem clusterFailoverPromote_spec (st : ClusterState N) (oldmaster : NodeRef) :
    (clusterFailoverPromote st oldmaster).Ensures AnyFault fun st' => KeepsElection st st' ∧
      st'.myConfigEpoch = st.failoverAuthEpoch := by
  refine (clusterSetNodeAsMaster_sameEpochs st st.myself).bind fun st₁ h₁ => ?_
  refine Ensures.bind (Q := SameEpochs st) (Ensures.foldlM ?_ h₁) fun st₂ h₂ => ?_
  · rintro st' slot - h'
    refine Ensures.bind (Q := fun _ => True)
      ((node_ensures trivial st' oldmaster).bind fun _ _ => trivial) fun bit _ => ?_
    split
    · refine (clusterDelSlot_sameEpochs st' slot).bind fun p hp => ?_
      exact (clusterAddSlot_sameEpochs p.1 p.1.myself slot).bind fun q hq => (h'.trans hp).trans hq
    · exact h'
  · refine Ensures.bind (Q := fun st' => KeepsElection st st' ∧
      st'.myConfigEpoch = st.failoverAuthEpoch) ?_ fun st₃ h₃ => ?_
    · refine (node_ensures trivial st₂ st₂.myself).bind fun me hme => ?_
      refine ⟨h₂.keepsElection.trans ⟨rfl, rfl, rfl, rfl, rfl, le_rfl, ?_⟩, ?_⟩
      · exact keepsElection_update hme rfl rfl
      · exact (myConfigEpoch_eq (setNode_heap_self st₂ st₂.myself _)).trans h₂.authEpoch
    · exact ⟨⟨h₃.1.1, h₃.1.2, h₃.1.3, h₃.1.4, h₃.1.5, h₃.1.6, h₃.1.7⟩, h₃.2⟩

/-- What a call of `clusterHandleSlaveFailover` may have done. -/
def FailoverOutcome (st st' : ClusterState N) : FailoverStep N → Prop
  | .idle => KeepsElection st st'
  | .scheduled => st'.failoverAuthSent = false ∧ st'.failoverAuthCount = 0 ∧
      st'.myself = st.myself ∧ st'.lastVoteEpoch = st.lastVoteEpoch ∧
      st'.failoverAuthEpoch = st.failoverAuthEpoch ∧ st'.currentEpoch = st.currentEpoch ∧
      ∀ r, (st'.heap r).map ClusterNode.name = (st.heap r).map ClusterNode.name
  | .requested request _ => st.failoverAuthSent = false ∧ st'.failoverAuthSent = true ∧
      st'.failoverAuthCount = st.failoverAuthCount ∧ st'.lastVoteEpoch = st.lastVoteEpoch ∧
      st'.currentEpoch = nextEpoch st.currentEpoch ∧ st'.failoverAuthEpoch = st'.currentEpoch ∧
      st'.myself = st.myself ∧
      (∀ r, (st'.heap r).map ClusterNode.name = (st.heap r).map ClusterNode.name) ∧
      (st.heap st.myself).map ClusterNode.name = some request.sender ∧
      request.currentEpoch = st'.currentEpoch
  | .promoted => KeepsElection st st' ∧ st.failoverAuthSent = true ∧
      st.size / 2 + 1 ≤ st.failoverAuthCount ∧ st'.myConfigEpoch = st.failoverAuthEpoch

theorem FailoverOutcome.of_keeps {st st₁ st' : ClusterState N} (h : KeepsElection st st₁)
    (hepoch : st₁.currentEpoch = st.currentEpoch) (hsize : st₁.size = st.size)
    {step : FailoverStep N} (ho : FailoverOutcome st₁ st' step) : FailoverOutcome st st' step := by
  cases step with
  | idle => exact h.trans ho
  | scheduled =>
    obtain ⟨hsent, hcount, hmyself, hvote, hauth, hcur, hname⟩ := ho
    exact ⟨hsent, hcount, hmyself.trans h.myself, hvote.trans h.lastVoteEpoch,
      hauth.trans h.authEpoch, hcur.trans hepoch, fun r => (hname r).trans (h.name r)⟩
  | requested request targets =>
    obtain ⟨hsent, hsent', hcount, hvote, hcur, hauth, hmyself, hname, hsender, hreq⟩ := ho
    rw [h.name, h.myself] at hsender
    exact ⟨h.sent ▸ hsent, hsent', hcount.trans h.count, hvote.trans h.lastVoteEpoch,
      hepoch ▸ hcur, hauth, hmyself.trans h.myself, fun r => (hname r).trans (h.name r), hsender,
      hreq⟩
  | promoted =>
    obtain ⟨hkeeps, hsent, hcount, hconfig⟩ := ho
    rw [hsize, h.count] at hcount
    exact ⟨h.trans hkeeps, h.sent ▸ hsent, hcount, hconfig.trans h.authEpoch⟩

theorem scheduleElection_spec (st : ClusterState N) (env : FailoverEnv) :
    (scheduleElection st env).Ensures AnyFault fun st' => FailoverOutcome st st' .scheduled := by
  refine (clusterGetSlaveRank_total st env.offset).bind fun rank _ => ?_
  dsimp only
  split <;> exact ⟨rfl, rfl, rfl, rfl, rfl, rfl, fun _ => rfl⟩

theorem requestVotes_spec {st : ClusterState N} (hsent : st.failoverAuthSent = false)
    (env : FailoverEnv) :
    (requestVotes st env).Ensures AnyFault fun p => FailoverOutcome st p.1 p.2 := by
  rw [requestVotes]
  dsimp only
  refine Ensures.bind (Q := fun request : ClusterMsg N =>
    (st.heap st.myself).map ClusterNode.name = some request.sender ∧
      request.currentEpoch = nextEpoch st.currentEpoch) ?_ fun request h => ?_
  · exact (clusterBuildMessageHdr_spec env.offset).bind fun hdr h => h
  · refine Ensures.bind (Q := fun _ => True) ?_ fun targets _ => ?_
    · refine Ensures.foldlM ?_ trivial
      rintro targets e - -
      exact (node_ensures trivial _ e.2).bind fun _ _ => trivial
    · exact ⟨hsent, rfl, rfl, rfl, rfl, rfl, rfl, fun _ => rfl, h.1, h.2⟩

theorem continueElection_spec (st : ClusterState N) (env : FailoverEnv) (authAge : ℤ) :
    (continueElection st env authAge).Ensures AnyFault fun p => FailoverOutcome st p.1 p.2 := by
  refine (updateRank_spec st env).bind fun st₁ ⟨h₁, hepoch, hsize⟩ => ?_
  split
  · exact h₁
  split
  · exact h₁
  split
  · rename_i hsent
    exact (requestVotes_spec hsent env).imp fun p hp => hp.of_keeps h₁ hepoch hsize
  · rename_i hsent
    split
    · rename_i hcount
      refine (node_ensures trivial st₁ st₁.myself).bind fun me _ => ?_
      split
      · trivial
      · refine (clusterFailoverPromote_spec st₁ _).bind fun st₂ ⟨h₂, hepoch₂⟩ => ?_
        rw [Bool.not_eq_false, h₁.sent] at hsent
        rw [hsize, h₁.count] at hcount
        exact ⟨h₁.trans h₂, hsent, hcount, hepoch₂.trans h₁.authEpoch⟩
    · exact h₁

theorem clusterHandleSlaveFailover_spec (st : ClusterState N) (env : FailoverEnv) :
    (clusterHandleSlaveFailover st env).Ensures AnyFault fun p => FailoverOutcome st p.1 p.2 := by
  let st₁ : ClusterState N := { st with todoHandleFailover := false }
  have h₁ : KeepsElection st st₁ := ⟨rfl, rfl, rfl, rfl, rfl, le_rfl, fun _ => rfl⟩
  rw [clusterHandleSlaveFailover]
  refine (node_ensures trivial st₁ st₁.myself).bind fun me _ => ?_
  refine Ensures.bind (Q := fun _ => True) ?_ fun may _ => ?_
  · unfold mayFailover
    split
    · trivial
    · split
      · trivial
      · exact (node_ensures trivial st₁ _).bind fun _ _ => trivial
  split
  · exact h₁
  split
  · exact h₁
  split
  · refine (scheduleElection_spec st₁ env).bind fun st₂ h₂ => ?_
    exact FailoverOutcome.of_keeps h₁ rfl rfl h₂
  · exact (continueElection_spec st₁ env _).imp fun p hp => hp.of_keeps h₁ rfl rfl

end ClusterState

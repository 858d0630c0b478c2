/-
Epochs, names and the state of elections.

Most functions on the cluster state touch neither the epochs nor what a node knows about
its elections and votes.

* `SameEpochs` — nothing of that changed;
* `…_sameEpochs` — the functions on slots, roles and lists of slaves;
* `updateEpochs_spec`, `clusterHandleConfigEpochCollision_spec` — the two places of
  `clusterProcessPing` that change an epoch;
* `KeepsElection` — the epoch may have grown, the votes and elections are the same.
-/
import RedisModel.ClusterSlots

open Except

namespace ClusterState

variable {N : Type}

/-- Any error: a rule that only says what a program that returns has done. -/
abbrev AnyFault : Fault → Prop := fun _ => True

/-- The part of a node that only its epoch and its identity depend on. -/
def identity (n : ClusterNode N) : N × ℕ × Bool := (n.name, n.configEpoch, n.flags.handshake)

/-- The same epochs, names and elections. -/
structure SameEpochs (st st' : ClusterState N) : Prop where
  myself : st'.myself = st.myself
  nodes : st'.nodes = st.nodes
  currentEpoch : st'.currentEpoch = st.currentEpoch
  lastVoteEpoch : st'.lastVoteEpoch = st.lastVoteEpoch
  count : st'.failoverAuthCount = st.failoverAuthCount
  sent : st'.failoverAuthSent = st.failoverAuthSent
  authEpoch : st'.failoverAuthEpoch = st.failoverAuthEpoch
  heap : ∀ r, (st'.heap r).map identity = (st.heap r).map identity

theorem SameEpochs.refl (st : ClusterState N) : SameEpochs st st :=
  ⟨rfl, rfl, rfl, rfl, rfl, rfl, rfl, fun _ => rfl⟩

theorem SameEpochs.trans {st₁ st₂ st₃ : ClusterState N} (h : SameEpochs st₁ st₂)
    (h' : SameEpochs st₂ st₃) : SameEpochs st₁ st₃ :=
  ⟨h'.myself.trans h.myself, h'.nodes.trans h.nodes, h'.currentEpoch.trans h.currentEpoch,
    h'.lastVoteEpoch.trans h.lastVoteEpoch, h'.count.trans h.count, h'.sent.trans h.sent,
    h'.authEpoch.trans h.authEpoch, fun r => (h'.heap r).trans (h.heap r)⟩

theorem SameEpochs.node {st st' : ClusterState N} (h : SameEpochs st st') {r : NodeRef}
    {n : ClusterNode N} (hr : st.heap r = some n) :
    ∃ n', st'.heap r = some n' ∧ n'.name = n.name ∧ n'.configEpoch = n.configEpoch ∧
      n'.flags.handshake = n.flags.handshake := by
  have heq := h.heap r
  rw [hr] at heq
  obtain ⟨n', hn', hid⟩ := Option.map_eq_some_iff.mp heq
  simp only [identity, Prod.mk.injEq] at hid
  exact ⟨n', hn', hid⟩

/-! ### Writing nodes -/

theorem sameEpochs_setNode {st : ClusterState N} {r : NodeRef} {n n' : ClusterNode N}
    (hr : st.heap r = some n) (hid : identity n' = identity n) :
    SameEpochs st (st.setNode r n') := by
  refine ⟨rfl, rfl, rfl, rfl, rfl, rfl, rfl, fun s => ?_⟩
  by_cases hs : s = r
  · subst hs
    rw [setNode_heap_self, hr]
    simp [hid]
  · rw [setNode_heap_of_ne _ _ hs]

theorem sameEpochs_modifyNode (st : ClusterState N) (r : NodeRef)
    {f : ClusterNode N → ClusterNode N} (hf : ∀ n, identity (f n) = identity n) :
    (st.modifyNode r f).Ensures AnyFault (SameEpochs st) :=
  (node_ensures trivial st r).bind fun n hn => sameEpochs_setNode hn (hf n)

/-! ### Slots -/

theorem clusterNodeSetSlotBit_sameEpochs (st : ClusterState N) (r : NodeRef) (slot : Slot) :
    (clusterNodeSetSlotBit st r slot).Ensures AnyFault fun p => SameEpochs st p.1 :=
  (node_ensures trivial st r).bind fun _ hn => sameEpochs_setNode hn rfl

theorem clusterNodeClearSlotBit_sameEpochs (st : ClusterState N) (r : NodeRef) (slot : Slot) :
    (clusterNodeClearSlotBit st r slot).Ensures AnyFault fun p => SameEpochs st p.1 :=
  (node_ensures trivial st r).bind fun _ hn => sameEpochs_setNode hn rfl

theorem redisAssert_anyFault (site : Site) (p : Prop) [Decidable p] :
    (redisAssert site p).Ensures AnyFault fun _ => p := redisAssert_ensures trivial p

theorem clusterAddSlot_sameEpochs (st : ClusterState N) (r : NodeRef) (slot : Slot) :
    (clusterAddSlot st r slot).Ensures AnyFault fun p => SameEpochs st p.1 := by
  rw [clusterAddSlot]
  split
  · exact SameEpochs.refl st
  · refine (clusterNodeSetSlotBit_sameEpochs st r slot).bind fun p hp => ?_
    exact ⟨hp.1, hp.2, hp.3, hp.4, hp.5, hp.6, hp.7, hp.8⟩

theorem clusterDelSlot_sameEpochs (st : ClusterState N) (slot : Slot) :
    (clusterDelSlot st slot).Ensures AnyFault fun p => SameEpochs st p.1 := by
  rw [clusterDelSlot]
  split
  · exact SameEpochs.refl st
  · refine (clusterNodeClearSlotBit_sameEpochs st _ slot).bind fun p hp => ?_
    refine (redisAssert_anyFault _ _).bind fun _ _ => ?_
    exact ⟨hp.1, hp.2, hp.3, hp.4, hp.5, hp.6, hp.7, hp.8⟩

theorem clusterDelNodeSlots_sameEpochs (st : ClusterState N) (r : NodeRef) :
    (clusterDelNodeSlots st r).Ensures AnyFault (SameEpochs st) := by
  refine Ensures.foldlM (fun st' slot _ h => ?_) (SameEpochs.refl st)
  refine Ensures.bind (Q := fun _ => True) ((node_ensures trivial st' r).bind fun _ _ => trivial)
    fun bit _ => ?_
  split
  · exact (clusterDelSlot_sameEpochs st' slot).bind fun _ hp => h.trans hp
  · exact h

/-! ### Slaves and roles -/

theorem clusterNodeRemoveSlave_sameEpochs (st : ClusterState N) (master slave : NodeRef) :
    (clusterNodeRemoveSlave st master slave).Ensures AnyFault (SameEpochs st) := by
  refine (node_ensures trivial st master).bind fun n hn => ?_
  dsimp only
  split
  · split
    · exact sameEpochs_setNode hn rfl
    · trivial
  · exact SameEpochs.refl st

theorem leaveMaster_sameEpochs (st : ClusterState N) (master : Option NodeRef) (slave : NodeRef) :
    (leaveMaster st master slave).Ensures AnyFault (SameEpochs st) := by
  cases master with
  | none => exact SameEpochs.refl st
  | some m => exact clusterNodeRemoveSlave_sameEpochs st m slave

theorem clusterNodeAddSlave_sameEpochs (st : ClusterState N) (master slave : NodeRef) :
    (clusterNodeAddSlave st master slave).Ensures AnyFault (SameEpochs st) := by
  refine (node_ensures trivial st master).bind fun n hn => ?_
  split
  · exact SameEpochs.refl st
  · exact sameEpochs_setNode hn rfl

theorem clusterNodeResetSlaves_sameEpochs (st : ClusterState N) (r : NodeRef) :
    (clusterNodeResetSlaves st r).Ensures AnyFault (SameEpochs st) :=
  sameEpochs_modifyNode st r fun _ => rfl

theorem clusterSetNodeAsMaster_sameEpochs (st : ClusterState N) (r : NodeRef) :
    (clusterSetNodeAsMaster st r).Ensures AnyFault (SameEpochs st) := by
  refine (node_ensures trivial st r).bind fun n _ => ?_
  split
  · exact SameEpochs.refl st
  · refine (leaveMaster_sameEpochs st n.slaveof r).bind fun st₁ h₁ => ?_
    refine Ensures.bind (sameEpochs_modifyNode st₁ r fun _ => rfl) fun st₂ h₂ => ?_
    have h := h₁.trans h₂
    exact ⟨h.1, h.2, h.3, h.4, h.5, h.6, h.7, h.8⟩

theorem leaveRole_sameEpochs (st : ClusterState N) (me : ClusterNode N) :
    (leaveRole st me).Ensures AnyFault (SameEpochs st) := by
  rw [leaveRole]
  split
  · refine Ensures.bind (sameEpochs_modifyNode st st.myself fun _ => rfl) fun st₁ h => ?_
    exact ⟨h.1, h.2, h.3, h.4, h.5, h.6, h.7, h.8⟩
  · exact leaveMaster_sameEpochs st me.slaveof st.myself

theorem clusterSetMaster_sameEpochs (st : ClusterState N) (r : NodeRef) :
    (clusterSetMaster st r).Ensures AnyFault (SameEpochs st) := by
  refine (redisAssert_anyFault _ _).bind fun _ _ => ?_
  refine (node_ensures trivial st st.myself).bind fun me _ => ?_
  refine (redisAssert_anyFault _ _).bind fun _ _ => ?_
  refine (leaveRole_sameEpochs st me).bind fun st₁ h₁ => ?_
  refine Ensures.bind (sameEpochs_modifyNode st₁ st₁.myself fun _ => rfl) fun st₂ h₂ => ?_
  refine (clusterNodeAddSlave_sameEpochs st₂ r st₂.myself).bind fun st₃ h₃ => ?_
  have h := (h₁.trans h₂).trans h₃
  exact ⟨h.1, h.2, h.3, h.4, h.5, h.6, h.7, h.8⟩

/-! ### Slots claimed by another node -/

theorem updateSlot_sameEpochs (sender : NodeRef) (senderConfigEpoch : ℕ) (slots : Slot → Bool)
    (curmaster : Option NodeRef) (acc : ClusterState N × Bool × List Slot) (slot : Slot) :
    (updateSlot sender senderConfigEpoch slots curmaster acc slot).Ensures AnyFault
      fun acc' => SameEpochs acc.1 acc'.1 := by
  obtain ⟨st, newmaster, dirty⟩ := acc
  rw [updateSlot]
  dsimp only
  split
  · split
    · exact SameEpochs.refl st
    · split
      · exact SameEpochs.refl st
      · refine Ensures.bind (Q := fun _ => True) ?_ fun outdated _ => ?_
        · rw [slotIsOutdated]
          split
          · trivial
          · exact (node_ensures trivial st _).bind fun _ _ => trivial
        · split
          · refine (clusterDelSlot_sameEpochs st slot).bind fun p₁ h₁ => ?_
            refine (clusterAddSlot_sameEpochs p₁.1 sender slot).bind fun p₂ h₂ => ?_
            have h := SameEpochs.trans h₁ h₂
            exact ⟨h.1, h.2, h.3, h.4, h.5, h.6, h.7, h.8⟩
          · exact SameEpochs.refl st
  · exact SameEpochs.refl st

theorem clusterUpdateSlotsConfigWith_sameEpochs (st : ClusterState N) (sender : NodeRef)
    (senderConfigEpoch : ℕ) (slots : Slot → Bool) :
    (clusterUpdateSlotsConfigWith st sender senderConfigEpoch slots).Ensures AnyFault
      (SameEpochs st) := by
  refine Ensures.bind (Q := fun _ => True)
    ((node_ensures trivial st _).bind fun _ _ => trivial) fun cm _ => ?_
  split
  · exact SameEpochs.refl st
  refine Ensures.bind (Q := fun acc => SameEpochs st acc.1) ?_ fun acc h₁ => ?_
  · exact Ensures.foldlM (fun acc slot _ h =>
      (updateSlot_sameEpochs sender senderConfigEpoch slots cm acc slot).imp fun _ => h.trans)
      (SameEpochs.refl st)
  refine Ensures.bind (Q := fun _ => True) ?_ fun lost _ => ?_
  · unfold curmasterLost
    split
    · split
      · exact (node_ensures trivial _ _).bind fun _ _ => trivial
      · trivial
    · trivial
  split
  · refine (clusterSetMaster_sameEpochs acc.1 sender).bind fun st₂ h₂ => ?_
    have h := SameEpochs.trans h₁ h₂
    exact ⟨h.1, h.2, h.3, h.4, h.5, h.6, h.7, h.8⟩
  · exact ⟨h₁.1, h₁.2, h₁.3, h₁.4, h₁.5, h₁.6, h₁.7, h₁.8⟩

/-! ### Packets -/

theorem demote_sameEpochs (st : ClusterState N) (sender : NodeRef) :
    (demote st sender).Ensures AnyFault (SameEpochs st) := by
  refine (clusterDelNodeSlots_sameEpochs st sender).bind fun st₁ h₁ => ?_
  refine Ensures.bind (sameEpochs_modifyNode st₁ sender fun _ => rfl) fun st₂ h₂ => ?_
  refine (clusterNodeResetSlaves_sameEpochs st₂ sender).bind fun st₃ h₃ => ?_
  have h := (h₁.trans h₂).trans h₃
  exact ⟨h.1, h.2, h.3, h.4, h.5, h.6, h.7, h.8⟩

theorem roleSwitch_sameEpochs [DecidableEq N] (st : ClusterState N) (sender : NodeRef)
    (hdr : ClusterMsg N) : (roleSwitch st sender hdr).Ensures AnyFault (SameEpochs st) := by
  rw [roleSwitch]
  split
  · exact clusterSetNodeAsMaster_sameEpochs st sender
  · refine (node_ensures trivial st sender).bind fun n _ => ?_
    refine Ensures.bind (Q := SameEpochs st) ?_ fun st₁ h₁ => ?_
    · split
      · exact demote_sameEpochs st sender
      · exact SameEpochs.refl st
    refine (node_ensures trivial st₁ sender).bind fun n _ => ?_
    split
    · exact h₁
    · split
      · exact h₁
      · refine (leaveMaster_sameEpochs st₁ n.slaveof sender).bind fun st₂ h₂ => ?_
        refine (clusterNodeAddSlave_sameEpochs st₂ _ sender).bind fun st₃ h₃ => ?_
        refine Ensures.bind (sameEpochs_modifyNode st₃ sender fun _ => rfl) fun st₄ h₄ => ?_
        have h := ((h₁.trans h₂).trans h₃).trans h₄
        exact ⟨h.1, h.2, h.3, h.4, h.5, h.6, h.7, h.8⟩

theorem updateSlots_sameEpochs (st : ClusterState N) (sender : NodeRef) (senderConfigEpoch : ℕ)
    (hdr : ClusterMsg N) :
    (updateSlots st sender senderConfigEpoch hdr).Ensures AnyFault (SameEpochs st) := by
  refine Ensures.bind (Q := fun _ => True) ?_ fun dirty _ => ?_
  · refine (node_ensures trivial st sender).bind fun n _ => ?_
    split
    · trivial
    · exact (node_ensures trivial st _).bind fun _ _ => trivial
  refine (node_ensures trivial st sender).bind fun n _ => ?_
  split
  · exact clusterUpdateSlotsConfigWith_sameEpochs st sender senderConfigEpoch hdr.myslots
  · exact SameEpochs.refl st

/-- The state with the epochs of a packet. -/
def withEpochs (st : ClusterState N) (sender : NodeRef) (n : ClusterNode N) (hdr : ClusterMsg N) :
    ClusterState N :=
  { st.setNode sender { n with configEpoch := max n.configEpoch hdr.configEpoch } with
    currentEpoch := max st.currentEpoch hdr.currentEpoch }

theorem updateEpochs_spec {st : ClusterState N} {sender : NodeRef} {n : ClusterNode N}
    (hn : st.heap sender = some n) (hdr : ClusterMsg N) :
    (updateEpochs st sender hdr).Ensures AnyFault (SameEpochs (st.withEpochs sender n hdr)) := by
  -- the last steps do not touch the epochs
  have hrest : ∀ st₁ : ClusterState N, SameEpochs (st.withEpochs sender n hdr) st₁ → (do
      let st ← st₁.modifyNode sender fun n => { n with replOffset := hdr.offset }
      let me ← st.node st.myself
      if st.mfEnd ≠ 0 ∧ me.flags.slave ∧ me.slaveof = some sender ∧ hdr.paused ∧
          st.mfMasterOffset = 0 then
        .ok { st with mfMasterOffset := hdr.offset }
      else .ok st : Result (ClusterState N)).Ensures AnyFault
        (SameEpochs (st.withEpochs sender n hdr)) := by
    intro st₁ h₁
    refine Ensures.bind (sameEpochs_modifyNode st₁ sender fun _ => rfl) fun st₂ h₂ => ?_
    refine (node_ensures trivial st₂ st₂.myself).bind fun me _ => ?_
    have h := h₁.trans h₂
    split
    · exact ⟨h.1, h.2, h.3, h.4, h.5, h.6, h.7, h.8⟩
    · exact h
  have hcurrent : (if hdr.currentEpoch > st.currentEpoch then
      { st with currentEpoch := hdr.currentEpoch } else st)
        = { st with currentEpoch := max st.currentEpoch hdr.currentEpoch } := by
    split
    · rw [max_eq_right (by omega)]
    · rw [max_eq_left (by omega)]
  unfold updateEpochs
  dsimp only
  rw [hcurrent]
  refine (node_ensures trivial _ sender).bind fun n' hn' => ?_
  obtain rfl : n = n' := Option.some_inj.mp (hn.symm.trans hn')
  refine hrest _ ?_
  split
  · rw [withEpochs, max_eq_right (by omega)]
    exact ⟨rfl, rfl, rfl, rfl, rfl, rfl, rfl, fun _ => rfl⟩
  · rw [withEpochs, max_eq_left (by omega)]
    refine ⟨rfl, rfl, rfl, rfl, rfl, rfl, rfl, fun s => ?_⟩
    by_cases hs : s = sender
    · subst hs
      simp [setNode, hn]
    · simp [setNode, Function.update_of_ne hs]

section
variable [LinearOrder N]

/-- The state after this node took a new configuration epoch. -/
def bumped (st : ClusterState N) (me : ClusterNode N) : ClusterState N :=
  { st.setNode st.myself { me with configEpoch := nextEpoch st.currentEpoch } with
    currentEpoch := nextEpoch st.currentEpoch }

/-- Whether this node yields when it meets a master with the same configuration epoch. -/
def Yields (me n : ClusterNode N) : Prop :=
  n.configEpoch = me.configEpoch ∧ n.flags.master ∧ me.flags.master ∧ me.name < n.name

theorem clusterHandleConfigEpochCollision_spec {st : ClusterState N} {sender : NodeRef}
    {n me : ClusterNode N} (hn : st.heap sender = some n) (hme : st.heap st.myself = some me) :
    (clusterHandleConfigEpochCollision st sender).Ensures AnyFault fun st' =>
      (¬ Yields me n ∧ st' = st) ∨ (Yields me n ∧ SameEpochs (st.bumped me) st') := by
  simp only [clusterHandleConfigEpochCollision, node_eq_ok hn, node_eq_ok hme, ok_bind]
  split
  · rename_i h
    refine Or.inl ⟨fun hy => ?_, rfl⟩
    rcases h with h | h | h
    · exact h hy.1
    · exact h hy.2.1
    · exact h hy.2.2.1
  · rename_i h
    have hnode : ClusterState.node { st with currentEpoch := nextEpoch st.currentEpoch } st.myself
        = .ok me := node_eq_ok hme
    rw [not_or, not_or, not_not, not_not, not_not] at h
    split
    · rename_i hle
      exact Or.inl ⟨fun hy => absurd hle (not_le.mpr hy.2.2.2), rfl⟩
    · rename_i hle
      simp only [modifyNode, hnode, ok_bind]
      exact Or.inr ⟨⟨h.1, h.2.1, h.2.2, not_le.mp hle⟩,
        ⟨rfl, rfl, rfl, rfl, rfl, rfl, rfl, fun _ => rfl⟩⟩

end

end ClusterState

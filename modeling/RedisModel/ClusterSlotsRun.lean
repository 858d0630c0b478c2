/-
The slot table over whole runs.

* `step`, `Event` — the commands and packets that change slots or roles;
* `step_good` — every step keeps the invariant `Good`, and the assertions of
  `clusterDelSlot` and `clusterSetMaster` hold in it, as long as no command gives a slot
  to this node while it is not a master (`KeepsSlavesEmpty`);
* `run_slotsOk` — the same for runs;
* `run_addslots_replicate` — a run in which the assertion of `clusterSetMaster` fails.
-/
import RedisModel.ClusterSlots
import RedisModel.Runs

open Except

namespace ClusterState

variable {N : Type}

/-! ### Forgetting nodes -/

theorem clusterDelNodeSlot_spec {st : ClusterState N} (h : Good st) (delnode : NodeRef)
    (slot : Slot) : (clusterDelNodeSlot delnode st slot).Ensures NoSlotFault fun st' =>
      Good st' ∧ SameRoles st st' ∧ st'.slots slot ≠ some delnode ∧
        ∀ j, st.slots j ≠ some delnode → st'.slots j ≠ some delnode := by
  -- the first two updates do not touch slots and roles
  have hopen : ∀ st₁ : ClusterState N, Good st₁ → SameRoles st st₁ → st₁.slots = st.slots →
      (if st₁.slots slot = some delnode then clusterDelSlot st₁ slot >>= fun p => .ok p.1
      else .ok st₁ : Result (ClusterState N)).Ensures NoSlotFault fun st' =>
        Good st' ∧ SameRoles st st' ∧ st'.slots slot ≠ some delnode ∧
          ∀ j, st.slots j ≠ some delnode → st'.slots j ≠ some delnode := by
    intro st₁ h₁ hroles₁ hslots₁
    split
    · refine (clusterDelSlot_spec h₁.slotsOk slot).bind ?_
      rintro ⟨st₂, b⟩ ⟨hok₂, hroles₂, hslots₂, -⟩
      refine ⟨⟨hok₂, hroles₂.slaveEmpty h₁.slaveEmpty fun j hj => ?_⟩, hroles₁.trans hroles₂,
        ?_, fun j hj => ?_⟩
      · by_cases hjs : j = slot
        · subst hjs
          rw [hslots₂] at hj
          simp at hj
        · rwa [hslots₂, Function.update_of_ne hjs] at hj
      · rw [hslots₂]
        simp
      · rw [hslots₂, hslots₁]
        by_cases hjs : j = slot
        · subst hjs
          simp
        · rwa [Function.update_of_ne hjs]
    · rename_i hne
      exact ⟨h₁, hroles₁, hne, fun j hj => by rwa [hslots₁]⟩
  rw [clusterDelNodeSlot]
  refine hopen _ ?_ ?_ ?_
  · split <;> split <;> exact h.of_eq rfl rfl rfl
  · split <;> split <;> exact ⟨rfl, fun _ => rfl⟩
  · split <;> split <;> rfl

theorem clusterDelNodeReport_sameSlots {clock : Clock} (delnode : NodeRef) (st : ClusterState N)
    (e : N × NodeRef) : (clusterDelNodeReport clock delnode st e).Ensures NoSlotFault
      (SameSlots st) := by
  rw [clusterDelNodeReport]
  split
  · exact SameSlots.refl st
  · refine (clusterNodeDelFailureReport_sameSlots noSlotFault_wild st _ _ _ _).bind ?_
    rintro ⟨st', b⟩ h
    exact h

section
variable [DecidableEq N]

theorem freeClusterNode_good {st : ClusterState N} (h : Good st) {r : NodeRef}
    (hr : r ≠ st.myself) (hfree : ∀ j, st.slots j ≠ some r) :
    (freeClusterNode st r).Ensures NoSlotFault fun st' => Good st' ∧ st'.myself = st.myself := by
  refine (node_ensures noSlotFault_wild st r).bind fun n hn => ?_
  dsimp only [dictDeleteNode]
  refine (redisAssert_ensures (by simp [NoSlotFault]) _).bind fun _ _ => ?_
  · refine (leaveMaster_sameSlots noSlotFault_wild _ n.slaveof r).bind fun st' hsame => ?_
    have hst : Good { st with nodes := st.nodes.filter fun e => decide (e.1 ≠ n.name) } :=
      h.of_eq rfl rfl rfl
    obtain ⟨hok, me, hme, hempty⟩ := hsame.good hst
    have hmyself : st'.myself = st.myself := hsame.myself
    refine ⟨⟨hok.free fun j => ?_, me, ?_, hempty⟩, hmyself⟩
    · rw [hsame.slots]
      exact hfree j
    · show Function.update st'.heap r none st'.myself = some me
      rw [Function.update_of_ne (by rw [hmyself]; exact hr.symm), hme]

theorem clusterDelNode_good {st : ClusterState N} (h : Good st) {clock : Clock} {r : NodeRef}
    (hr : r ≠ st.myself) :
    (clusterDelNode st clock r).Ensures NoSlotFault fun st' =>
      Good st' ∧ st'.myself = st.myself := by
  rw [clusterDelNode]
  refine Ensures.bind (Q := fun st' => Good st' ∧ SameRoles st st' ∧
    ∀ j ∈ allSlots, st'.slots j ≠ some r) ?_ fun st₁ ⟨h₁, hroles₁, hfree₁⟩ => ?_
  · refine Ensures.foldlM_prefix (I := fun done st' => Good st' ∧ SameRoles st st' ∧
      ∀ j ∈ done, st'.slots j ≠ some r) ?_ ⟨h, SameRoles.refl st, by simp⟩
    rintro done slot rest st' - ⟨h', hroles', hfree'⟩
    refine (clusterDelNodeSlot_spec h' r slot).imp ?_
    rintro st'' ⟨h'', hroles'', hslot, hkeep⟩
    refine ⟨h'', hroles'.trans hroles'', fun j hj => ?_⟩
    rcases List.mem_append.mp hj with hj | hj
    · exact hkeep j (hfree' j hj)
    · obtain rfl := List.mem_singleton.mp hj
      exact hslot
  refine Ensures.bind (Q := fun st' => SameSlots st₁ st') ?_ fun st₂ hsame₂ => ?_
  · exact Ensures.foldlM (fun st' e _ hst' =>
      (clusterDelNodeReport_sameSlots r st' e).imp fun st'' => hst'.trans) (SameSlots.refl st₁)
  refine (node_ensures noSlotFault_wild st₂ r).bind fun n _ => ?_
  refine (leaveMaster_sameSlots noSlotFault_wild st₂ _ r).bind fun st₃ hsame₃ => ?_
  have hsame := hsame₂.trans hsame₃
  have hmyself : st₃.myself = st.myself := hsame.myself.trans hroles₁.myself
  refine (freeClusterNode_good (hsame.good h₁) (by rwa [hmyself]) fun j => ?_).imp
    fun st' hst' => ⟨hst'.1, hst'.2.trans hmyself⟩
  rw [hsame.slots]
  exact hfree₁ j (mem_allSlots j)

theorem clusterResetHard_good {st : ClusterState N} (h : Good st) (hard : Option N) :
    (clusterResetHard st hard).Ensures NoSlotFault Good := by
  cases hard with
  | none => exact h
  | some newname =>
    have h₀ : Good { st with currentEpoch := 0, lastVoteEpoch := 0 } := h.of_eq rfl rfl rfl
    refine Ensures.bind (sameSlots_modifyNode noSlotFault_wild _ _ fun _ => ⟨rfl, rfl, rfl⟩)
      fun st₁ hsame => ?_
    have h₁ := hsame.good h₀
    refine (node_ensures noSlotFault_wild st₁ _).bind fun n hn => ?_
    dsimp only [dictDeleteNode]
    refine (node_ensures noSlotFault_wild _ _).bind fun n' _ => ?_
    have h₂ : Good (st₁.setNode st₁.myself { n with name := newname }) :=
      h₁.setNode hn rfl rfl fun _ hm => hm
    split
    · exact h₂.of_eq rfl rfl rfl
    · exact h₂.of_eq rfl rfl rfl

theorem clusterReset_good {st : ClusterState N} (h : Good st) (clock : Clock) (hard : Option N) :
    (clusterReset st clock hard).Ensures NoSlotFault Good := by
  refine (node_ensures noSlotFault_wild st _).bind fun me _ => ?_
  refine Ensures.bind (Q := Good) ?_ fun st₁ h₁ => ?_
  · split
    · exact (clusterSetNodeAsMaster_spec noSlotFault_wild h _).imp fun _ hst => hst.1
    · exact h
  dsimp only
  have h₂ : Good (resetManualFailover (clusterCloseAllSlots st₁)) := h₁.of_eq rfl rfl rfl
  refine Ensures.bind (Q := Good) (Ensures.foldlM ?_ h₂) fun st₃ h₃ => ?_
  · rintro st' slot - h'
    refine (clusterDelSlot_spec h'.slotsOk slot).bind ?_
    rintro ⟨st'', b⟩ ⟨hok, hroles, hslots, -⟩
    refine ⟨hok, hroles.slaveEmpty h'.slaveEmpty fun j hj => ?_⟩
    by_cases hjs : j = slot
    · subst hjs
      rw [hslots] at hj
      simp at hj
    · rwa [hslots, Function.update_of_ne hjs] at hj
  refine Ensures.bind (Q := Good) (Ensures.foldlM ?_ h₃) fun st₄ h₄ => ?_
  · rintro st' e - h'
    rw [clusterResetNode]
    split
    · exact h'
    · rename_i hne
      exact (clusterDelNode_good h' hne).imp fun _ hst => hst.1
  refine (clusterResetHard_good h₄ hard).bind fun st₅ h₅ => ?_
  exact h₅.of_eq rfl rfl rfl

end

/-! ### Commands -/

/-- This node is a master. -/
def IsMaster (st : ClusterState N) : Prop :=
  ∀ n, st.heap st.myself = some n → n.flags.master = true

theorem SameRoles.isMaster {st st' : ClusterState N} (h : SameRoles st st')
    (hmaster : IsMaster st) : IsMaster st' := by
  intro n' hn'
  rw [h.myself] at hn'
  obtain ⟨n, hn, heq⟩ := h.symm.node hn'
  rw [← heq]
  exact hmaster n hn

theorem SameRoles.good_of_isMaster {st st' : ClusterState N} (h : SameRoles st st')
    (hok : SlotsOk st') (hempty : SlaveEmpty st) (hmaster : IsMaster st) : Good st' := by
  obtain ⟨n, hn, -⟩ := hempty
  obtain ⟨n', hn', heq⟩ := h.node hn
  refine ⟨hok, n', by rw [h.myself, hn'], fun hslave => ?_⟩
  rw [heq, hmaster n hn] at hslave
  exact absurd hslave (by simp)

theorem changeSlot_good {st : ClusterState N} (h : Good st) {del : Bool} {chosen : List Slot}
    (hmaster : del = false → IsMaster st) (slot : Slot) :
    (changeSlot del chosen st slot).Ensures NoSlotFault fun st' =>
      Good st' ∧ SameRoles st st' := by
  rw [changeSlot]
  split
  · have hmain : ∀ st₁ : ClusterState N, Good st₁ → SameRoles st st₁ →
        ((if del then clusterDelSlot st₁ slot else clusterAddSlot st₁ st₁.myself slot) >>= fun p => do
          redisAssert .clusterCommand (p.2 = true)
          .ok p.1 : Result (ClusterState N)).Ensures NoSlotFault fun st' =>
          Good st' ∧ SameRoles st st' := by
      intro st₁ h₁ hroles₁
      refine Ensures.bind (Q := fun p => Good p.1 ∧ SameRoles st p.1) ?_ ?_
      · cases del with
        | true =>
          refine (clusterDelSlot_spec h₁.slotsOk slot).imp ?_
          rintro ⟨st₂, b⟩ ⟨hok, hroles, hslots, -⟩
          refine ⟨⟨hok, hroles.slaveEmpty h₁.slaveEmpty fun j hj => ?_⟩, hroles₁.trans hroles⟩
          by_cases hjs : j = slot
          · subst hjs
            rw [hslots] at hj
            simp at hj
          · rwa [hslots, Function.update_of_ne hjs] at hj
        | false =>
          have hmaster₁ := hroles₁.isMaster (hmaster rfl)
          by_cases hfree : st₁.slots slot = none
          · refine (clusterAddSlot_spec noSlotFault_wild h₁.slotsOk st₁.myself hfree).imp ?_
            rintro ⟨st₂, b⟩ ⟨hok, hroles, -, -⟩
            exact ⟨hroles.good_of_isMaster hok h₁.slaveEmpty hmaster₁, hroles₁.trans hroles⟩
          · obtain ⟨r, hr⟩ := Option.ne_none_iff_exists'.mp hfree
            simp only [clusterAddSlot, hr, Option.isSome_some, if_true]
            exact ⟨h₁, hroles₁⟩
      · rintro ⟨st₂, retval⟩ h₂
        exact (redisAssert_ensures (by simp [NoSlotFault]) _).bind fun _ _ => h₂
    refine hmain _ ?_ ?_
    · split <;> exact h.of_eq rfl rfl rfl
    · split <;> exact ⟨rfl, fun _ => rfl⟩
  · exact ⟨h, SameRoles.refl st⟩

theorem clusterCommandSlots_good {st : ClusterState N} (h : Good st) {del : Bool}
    (args : List (Option Slot))
    (hmaster : del = false → slotArguments st del args [] ≠ none → IsMaster st) :
    (clusterCommandSlots st del args).Ensures NoSlotFault fun p => Good p.1 := by
  rw [clusterCommandSlots]
  split
  · exact h
  · rename_i chosen hchosen
    refine Ensures.bind (Q := fun st' => Good st' ∧ SameRoles st st')
      (Ensures.foldlM ?_ ⟨h, SameRoles.refl st⟩) fun st₁ h₁ => h₁.1.of_eq rfl rfl rfl
    rintro st' slot - ⟨h', hroles'⟩
    exact (changeSlot_good h' (fun hd => hroles'.isMaster (hmaster hd (by simp [hchosen]))) slot).imp
      fun st'' h'' => ⟨h''.1, hroles'.trans h''.2⟩

theorem clusterDelNodeSlots_good {st : ClusterState N} (h : Good st) (r : NodeRef) :
    (clusterDelNodeSlots st r).Ensures NoSlotFault fun st' =>
      Good st' ∧ SameRoles st st' ∧ ∀ j, st'.slots j ≠ some r := by
  refine (clusterDelNodeSlots_spec noSlotFault_wild h.slotsOk r).imp ?_
  rintro st' ⟨hok, hroles, hslots⟩
  refine ⟨⟨hok, hroles.slaveEmpty h.slaveEmpty fun j hj => ?_⟩, hroles, fun j => ?_⟩
  · rw [hslots] at hj
    by_cases hr : st.slots j = some r
    · simp [hr] at hj
    · simpa [hr] using hj
  · rw [hslots]
    by_cases hr : st.slots j = some r <;> simp [hr]

theorem clusterCommandFlushslots_good {st : ClusterState N} (h : Good st) :
    (clusterCommandFlushslots st).Ensures NoSlotFault fun p => Good p.1 := by
  rw [clusterCommandFlushslots]
  split
  · exact h
  · exact (clusterDelNodeSlots_good h st.myself).bind fun st₁ h₁ => h₁.1.of_eq rfl rfl rfl

theorem clusterCommandMigrating_good [DecidableEq N] {st : ClusterState N} (h : Good st) (slot : Slot)
    (name : N) : (clusterCommandMigrating st slot name).Ensures NoSlotFault fun p => Good p.1 := by
  rw [clusterCommandMigrating]
  split
  · exact h
  · split
    · exact h
    · exact h.of_eq rfl rfl rfl

theorem clusterCommandImporting_good [DecidableEq N] {st : ClusterState N} (h : Good st) (slot : Slot)
    (name : N) : (clusterCommandImporting st slot name).Ensures NoSlotFault fun p => Good p.1 := by
  rw [clusterCommandImporting]
  split
  · exact h
  · split
    · exact h
    · exact h.of_eq rfl rfl rfl

theorem bumpEpoch_sameSlots (st : ClusterState N) (maxEpoch : ℕ) :
    (bumpEpoch st maxEpoch).Ensures NoSlotFault (SameSlots st) := by
  refine (node_ensures noSlotFault_wild st _).bind fun me _ => ?_
  split
  · refine Ensures.bind (Q := SameSlots { st with currentEpoch := nextEpoch st.currentEpoch })
      (sameSlots_modifyNode noSlotFault_wild _ _ fun _ => ⟨rfl, rfl, rfl⟩) fun st₁ h₁ => ?_
    exact ⟨h₁.myself, h₁.slots, h₁.heap⟩
  · exact SameSlots.refl st

theorem importedSlot_sameSlots (st : ClusterState N) (slot : Slot) :
    (importedSlot st slot).Ensures NoSlotFault (SameSlots st) := by
  refine Ensures.bind (Q := fun _ => True) ?_ fun maxEpoch _ => ?_
  · refine Ensures.bind (Q := fun _ => True) (Ensures.foldlM ?_ trivial) fun _ _ => trivial
    rintro m e - -
    exact (node_ensures noSlotFault_wild st _).bind fun _ _ => trivial
  · refine (bumpEpoch_sameSlots st maxEpoch).bind fun st₁ h₁ => ?_
    exact ⟨h₁.myself, h₁.slots, h₁.heap⟩

theorem clusterCommandSetslotNode_good [DecidableEq N] {st : ClusterState N} (h : Good st) (slot : Slot)
    (name : N) (hmaster : clusterLookupNode st name = some st.myself → IsMaster st) :
    (clusterCommandSetslotNode st slot name).Ensures NoSlotFault fun p => Good p.1 := by
  rw [clusterCommandSetslotNode]
  split
  · exact h
  · rename_i n hn
    split
    · exact h
    -- the slot is rebound in a state with the same slots and roles
    have hmain : ∀ st₁ : ClusterState N, SameSlots st st₁ → (do
        let st ← (if n = st₁.myself ∧ (st₁.importingSlotsFrom slot).isSome then
          importedSlot st₁ slot else .ok st₁)
        clusterDelSlot st slot >>= fun p => clusterAddSlot p.1 n slot >>= fun p =>
          .ok (todoSaveUpdate p.1, true) : Result (ClusterState N × Bool)).Ensures NoSlotFault
            fun p => Good p.1 := by
      intro st₁ hsame₁
      refine Ensures.bind (Q := SameSlots st) ?_ fun st₂ hsame₂ => ?_
      · split
        · exact (importedSlot_sameSlots st₁ slot).imp fun _ => hsame₁.trans
        · exact hsame₁
      have h₂ := hsame₂.good h
      refine (clusterDelSlot_spec h₂.slotsOk slot).bind ?_
      rintro ⟨st₃, b⟩ ⟨hok₃, hroles₃, hslots₃, -⟩
      have hfree : st₃.slots slot = none := by rw [hslots₃]; simp
      refine (clusterAddSlot_spec noSlotFault_wild hok₃ n hfree).bind ?_
      rintro ⟨st₄, b'⟩ ⟨hok₄, hroles₄, hslots₄, -⟩
      have hroles := hroles₃.trans hroles₄
      suffices hgood : Good st₄ from hgood.of_eq rfl rfl rfl
      by_cases hself : n = st.myself
      · have hroles₂ : SameRoles st st₂ := ⟨hsame₂.myself, fun r => by
          have := congrArg (Option.map fun p => p.2.2) (hsame₂.heap r)
          simpa [Option.map_map, Function.comp_def] using this⟩
        exact hroles.good_of_isMaster hok₄ h₂.slaveEmpty
          (hroles₂.isMaster (hmaster (by rw [hn, hself])))
      · refine ⟨hok₄, hroles.slaveEmpty h₂.slaveEmpty fun j hj => ?_⟩
        rw [hslots₄, hslots₃] at hj
        by_cases hjs : j = slot
        · subst hjs
          exact absurd (by simpa [hsame₂.myself] using hj) hself
        · simpa [Function.update_of_ne hjs] using hj
    refine hmain _ ?_
    split <;> exact ⟨rfl, rfl, fun _ => rfl⟩

theorem clusterCommandForget_good [DecidableEq N] {st : ClusterState N} (h : Good st) (clock : Clock)
    (name : N) : (clusterCommandForget st clock name).Ensures NoSlotFault fun p => Good p.1 := by
  rw [clusterCommandForget]
  split
  · exact h
  · refine (node_ensures noSlotFault_wild st _).bind fun me _ => ?_
    split
    · exact h
    · rename_i hne
      split
      · exact h
      · refine (clusterDelNode_good h hne).bind fun st₁ h₁ => ?_
        exact h₁.1.of_eq rfl rfl rfl

theorem clusterCommandReplicate_good [DecidableEq N] {st : ClusterState N} (h : Good st) (name : N) :
    (clusterCommandReplicate st name).Ensures NoSlotFault fun p => Good p.1 := by
  rw [clusterCommandReplicate]
  split
  · exact h
  · refine (node_ensures noSlotFault_wild st _).bind fun n _ => ?_
    refine (node_ensures noSlotFault_wild st _).bind fun me hme => ?_
    split
    · exact h
    · rename_i hne
      split
      · exact h
      · split
        · exact h
        · rename_i hcheck
          refine (clusterSetMaster_spec noSlotFault_wild h hne ?_).bind fun st₁ h₁ => ?_
          · by_cases hmaster : me.flags.master = true
            · have hnum : me.numslots = 0 := by
                by_contra hnum
                exact hcheck ⟨hmaster, Or.inl hnum⟩
              exact h.slotsOk.free_of_numslots hme hnum
            · obtain ⟨me', hme', hempty⟩ := h.slaveEmpty
              obtain rfl := Option.some_inj.mp (hme.symm.trans hme')
              exact hempty (by simpa using hmaster)
          · exact h₁.of_eq rfl rfl rfl

theorem clusterCommandReset_good [DecidableEq N] {st : ClusterState N} (h : Good st) (clock : Clock)
    (hard : Option N) :
    (clusterCommandReset st clock hard).Ensures NoSlotFault fun p => Good p.1 := by
  refine (node_ensures noSlotFault_wild st _).bind fun me _ => ?_
  split
  · exact h
  · exact (clusterReset_good h clock hard).bind fun st₁ h₁ => h₁

/-! ### Packets -/

theorem updateEpochs_sameSlots (st : ClusterState N) (sender : NodeRef) (hdr : ClusterMsg N) :
    (updateEpochs st sender hdr).Ensures NoSlotFault (SameSlots st) := by
  have hmain : ∀ st₁ : ClusterState N, SameSlots st st₁ → (do
      let n ← st₁.node sender
      let st := if hdr.configEpoch > n.configEpoch then
        todoSaveFsync (st₁.setNode sender { n with configEpoch := hdr.configEpoch }) else st₁
      let st ← st.modifyNode sender fun n => { n with replOffset := hdr.offset }
      let me ← st.node st.myself
      if st.mfEnd ≠ 0 ∧ me.flags.slave ∧ me.slaveof = some sender ∧ hdr.paused ∧
          st.mfMasterOffset = 0 then
        .ok { st with mfMasterOffset := hdr.offset }
      else .ok st : Result (ClusterState N)).Ensures NoSlotFault (SameSlots st) := by
    intro st₁ h₁
    refine (node_ensures noSlotFault_wild st₁ sender).bind fun n hn => ?_
    refine Ensures.bind (sameSlots_modifyNode noSlotFault_wild _ _ fun _ => ⟨rfl, rfl, rfl⟩)
      fun st₂ h₂ => ?_
    refine (node_ensures noSlotFault_wild st₂ _).bind fun me _ => ?_
    have h : SameSlots st st₂ := by
      refine h₁.trans (SameSlots.trans ?_ h₂)
      split
      · have hset : SameSlots st₁ (st₁.setNode sender { n with configEpoch := hdr.configEpoch }) :=
          sameSlots_setNode hn rfl rfl rfl
        exact ⟨hset.myself, hset.slots, hset.heap⟩
      · exact SameSlots.refl st₁
    split
    · exact ⟨h.myself, h.slots, h.heap⟩
    · exact h
  rw [updateEpochs]
  refine hmain _ ?_
  split <;> exact ⟨rfl, rfl, fun _ => rfl⟩

theorem Good.setNode_free {st : ClusterState N} (h : Good st) {r : NodeRef} {n n' : ClusterNode N}
    (hn : st.heap r = some n) (hslots : n'.slots = n.slots) (hnum : n'.numslots = n.numslots)
    (hfree : ∀ j, st.slots j ≠ some r) : Good (st.setNode r n') := by
  by_cases hr : r = st.myself
  · subst hr
    exact Good.of_free (h.slotsOk.setNode hn hslots hnum) (setNode_heap_self _ _ _) hfree
  · exact h.setNode hn hslots hnum fun heq => absurd heq hr

theorem demote_good {st : ClusterState N} (h : Good st) (sender : NodeRef) :
    (demote st sender).Ensures NoSlotFault Good := by
  refine (clusterDelNodeSlots_good h sender).bind fun st₁ ⟨h₁, _, hfree₁⟩ => ?_
  refine Ensures.bind (Q := Good) ?_ fun st₂ h₂ => ?_
  · refine (node_ensures noSlotFault_wild st₁ sender).bind fun n hn => ?_
    exact h₁.setNode_free hn rfl rfl hfree₁
  · refine Ensures.bind (sameSlots_modifyNode noSlotFault_wild st₂ sender
      fun _ => ⟨rfl, rfl, rfl⟩) fun st₃ h₃ => ?_
    exact (h₃.good h₂).of_eq rfl rfl rfl

theorem roleSwitch_good [DecidableEq N] {st : ClusterState N} (h : Good st) (sender : NodeRef)
    (hdr : ClusterMsg N) : (roleSwitch st sender hdr).Ensures NoSlotFault Good := by
  rw [roleSwitch]
  split
  · exact (clusterSetNodeAsMaster_spec noSlotFault_wild h sender).imp fun _ hst => hst.1
  · dsimp only
    refine (node_ensures noSlotFault_wild st sender).bind fun n _ => ?_
    refine Ensures.bind (Q := Good) ?_ fun st₁ h₁ => ?_
    · split
      · exact demote_good h sender
      · exact h
    refine (node_ensures noSlotFault_wild st₁ sender).bind fun n' _ => ?_
    split
    · exact h₁
    · rename_i m _
      split
      · exact h₁
      · refine (leaveMaster_sameSlots noSlotFault_wild st₁ _ sender).bind fun st₂ h₂ => ?_
        refine (clusterNodeAddSlave_sameSlots noSlotFault_wild st₂ m sender).bind fun st₃ h₃ => ?_
        refine Ensures.bind (sameSlots_modifyNode noSlotFault_wild st₃ sender
          fun _ => ⟨rfl, rfl, rfl⟩) fun st₄ h₄ => ?_
        exact (((h₂.trans h₃).trans h₄).good h₁).of_eq rfl rfl rfl

theorem updateSlots_good {st : ClusterState N} (h : Good st) (sender : NodeRef)
    (senderConfigEpoch : ℕ) (hdr : ClusterMsg N) :
    (updateSlots st sender senderConfigEpoch hdr).Ensures NoSlotFault Good := by
  refine Ensures.bind (Q := fun _ => True) ?_ fun dirty _ => ?_
  · refine (node_ensures noSlotFault_wild st sender).bind fun n _ => ?_
    split
    · trivial
    · exact (node_ensures noSlotFault_wild st _).bind fun _ _ => trivial
  refine (node_ensures noSlotFault_wild st sender).bind fun n _ => ?_
  split
  · exact clusterUpdateSlotsConfigWith_good noSlotFault_wild h sender senderConfigEpoch _
  · exact h

theorem clusterHandleConfigEpochCollision_sameSlots [LinearOrder N] (st : ClusterState N)
    (sender : NodeRef) :
    (clusterHandleConfigEpochCollision st sender).Ensures NoSlotFault (SameSlots st) := by
  refine (node_ensures noSlotFault_wild st sender).bind fun n _ => ?_
  refine (node_ensures noSlotFault_wild st _).bind fun me _ => ?_
  split
  · exact SameSlots.refl st
  · split
    · exact SameSlots.refl st
    · refine Ensures.bind (Q := SameSlots { st with currentEpoch := nextEpoch st.currentEpoch })
        (sameSlots_modifyNode noSlotFault_wild _ _ fun _ => ⟨rfl, rfl, rfl⟩) fun st₁ h₁ => ?_
      exact ⟨h₁.myself, h₁.slots, h₁.heap⟩

theorem checkCollision_good [LinearOrder N] {st : ClusterState N} (h : Good st)
    (sender : NodeRef) (senderConfigEpoch : ℕ) :
    (checkCollision st sender senderConfigEpoch).Ensures NoSlotFault Good := by
  refine (node_ensures noSlotFault_wild st sender).bind fun _ _ => ?_
  refine (node_ensures noSlotFault_wild st _).bind fun _ _ => ?_
  split
  · exact (clusterHandleConfigEpochCollision_sameSlots st sender).imp fun _ hs => hs.good h
  · exact h

theorem clusterProcessPing_good [LinearOrder N] {st : ClusterState N} (h : Good st)
    (hdr : ClusterMsg N) : (clusterProcessPing st hdr).Ensures NoSlotFault Good := by
  rw [clusterProcessPing]
  split
  · exact h
  · rename_i sender _
    refine (node_ensures noSlotFault_wild st sender).bind fun n _ => ?_
    refine Ensures.bind (Q := Good) ?_ fun st₁ h₁ => ?_
    · split
      · exact h
      · exact (updateEpochs_sameSlots st sender hdr).imp fun _ hsame => hsame.good h
    dsimp only
    refine (roleSwitch_good h₁ sender hdr).bind fun st₂ h₂ => ?_
    exact (updateSlots_good h₂ sender _ hdr).bind fun st₃ h₃ => checkCollision_good h₃ sender _

theorem clusterProcessUpdate_good [DecidableEq N] {st : ClusterState N} (h : Good st)
    (hdr : ClusterMsg N) (name : N) (reportedConfigEpoch : ℕ) (slots : Slot → Bool) :
    (clusterProcessUpdate st hdr name reportedConfigEpoch slots).Ensures NoSlotFault Good := by
  rw [clusterProcessUpdate]
  split
  · exact h
  · rename_i sender _
    refine (node_ensures noSlotFault_wild st sender).bind fun n _ => ?_
    refine Ensures.bind (Q := Good) ?_ fun st₁ h₁ => ?_
    · split
      · exact h
      · exact (updateEpochs_sameSlots st sender hdr).imp fun _ hsame => hsame.good h
    split
    · exact h₁
    · rename_i r _
      refine (node_ensures noSlotFault_wild st₁ r).bind fun n' _ => ?_
      split
      · exact h₁
      · refine Ensures.bind (Q := Good) ?_ fun st₂ h₂ => ?_
        · split
          · exact (clusterSetNodeAsMaster_spec noSlotFault_wild h₁ r).imp fun _ hst => hst.1
          · exact h₁
        refine Ensures.bind (sameSlots_modifyNode noSlotFault_wild st₂ r
          fun _ => ⟨rfl, rfl, rfl⟩) fun st₃ h₃ => ?_
        have h₄ : Good (todoSaveFsync st₃) := (h₃.good h₂).of_eq rfl rfl rfl
        exact clusterUpdateSlotsConfigWith_good noSlotFault_wild h₄ r _ _

/-! ### Promotion -/

theorem claimSlot_good {st : ClusterState N} (h : Good st) (hmaster : IsMaster st)
    (oldmaster : NodeRef) (slot : Slot) :
    (claimSlot oldmaster st slot).Ensures NoSlotFault fun st' => Good st' ∧ IsMaster st' := by
  refine Ensures.bind (Q := fun _ => True) ?_ fun bit _ => ?_
  · exact (node_ensures noSlotFault_wild st oldmaster).bind fun _ _ => trivial
  split
  · refine (clusterDelSlot_spec h.slotsOk slot).bind ?_
    rintro ⟨st₁, b⟩ ⟨hok₁, hroles₁, hslots₁, -⟩
    have hfree : st₁.slots slot = none := by rw [hslots₁]; simp
    refine (clusterAddSlot_spec noSlotFault_wild hok₁ st₁.myself hfree).bind ?_
    rintro ⟨st₂, b'⟩ ⟨hok₂, hroles₂, -, -⟩
    have hroles := hroles₁.trans hroles₂
    exact ⟨hroles.good_of_isMaster hok₂ h.slaveEmpty hmaster, hroles.isMaster hmaster⟩
  · exact ⟨h, hmaster⟩

theorem clusterFailoverPromote_good {st : ClusterState N} (h : Good st) (oldmaster : NodeRef) :
    (clusterFailoverPromote st oldmaster).Ensures NoSlotFault Good := by
  refine (clusterSetNodeAsMaster_spec noSlotFault_wild h st.myself).bind
    fun st₁ ⟨h₁, hmyself, n, hn, hmaster⟩ => ?_
  have hmaster₁ : IsMaster st₁ := by
    intro n' hn'
    rw [hmyself] at hn'
    obtain rfl := Option.some_inj.mp (hn.symm.trans hn')
    exact hmaster
  refine Ensures.bind (Q := fun st' => Good st' ∧ IsMaster st')
    (Ensures.foldlM ?_ ⟨h₁, hmaster₁⟩) fun st₂ ⟨h₂, _⟩ => ?_
  · rintro st' slot - ⟨h', hmaster'⟩
    exact claimSlot_good h' hmaster' oldmaster slot
  refine Ensures.bind (sameSlots_modifyNode noSlotFault_wild st₂ _
    fun _ => ⟨rfl, rfl, rfl⟩) fun st₃ h₃ => ?_
  exact (h₃.good h₂).of_eq rfl rfl rfl

/-! ### Runs -/

/-- What can happen to the slots and roles of a node. -/
inductive SlotEvent (N : Type) where
  | addslots (args : List (Option Slot))
  | delslots (args : List (Option Slot))
  | flushslots
  | migrating (slot : Slot) (name : N)
  | importing (slot : Slot) (name : N)
  | stable (slot : Slot)
  | setslotNode (slot : Slot) (name : N)
  | forget (clock : Clock) (name : N)
  | replicate (name : N)
  | reset (clock : Clock) (hard : Option N)
  | ping (hdr : ClusterMsg N)
  | update (hdr : ClusterMsg N) (name : N) (epoch : ℕ) (slots : Slot → Bool)
  /-- This node, a slave, wins an election. -/
  | promote
  /-- A node is created at a free address. -/
  | newNode (now : ℤ) (r : NodeRef) (name : N) (flags : NodeFlags)

section
variable [LinearOrder N]

/-- What an event does; an event that cannot happen does nothing. -/
def exec (st : ClusterState N) : SlotEvent N → Result (ClusterState N)
  | .addslots args => do
    let (st, _) ← clusterCommandSlots st false args
    .ok st
  | .delslots args => do
    let (st, _) ← clusterCommandSlots st true args
    .ok st
  | .flushslots => do
    let (st, _) ← clusterCommandFlushslots st
    .ok st
  | .migrating slot name => do
    let (st, _) ← clusterCommandMigrating st slot name
    .ok st
  | .importing slot name => do
    let (st, _) ← clusterCommandImporting st slot name
    .ok st
  | .stable slot => do
    let (st, _) ← clusterCommandStable st slot
    .ok st
  | .setslotNode slot name => do
    let (st, _) ← clusterCommandSetslotNode st slot name
    .ok st
  | .forget clock name => do
    let (st, _) ← clusterCommandForget st clock name
    .ok st
  | .replicate name => do
    let (st, _) ← clusterCommandReplicate st name
    .ok st
  | .reset clock hard => do
    let (st, _) ← clusterCommandReset st clock hard
    .ok st
  | .ping hdr => clusterProcessPing st hdr
  | .update hdr name epoch slots => clusterProcessUpdate st hdr name epoch slots
  | .promote => do
    let me ← st.node st.myself
    match me.flags.master, me.slaveof with
    | false, some oldmaster => clusterFailoverPromote st oldmaster
    | _, _ => .ok st
  | .newNode now r name flags =>
    if (st.heap r).isSome then .ok st
    else clusterAddNode (st.setNode r (createClusterNode now name flags)) r

/-- One step of a run; a node that faults is gone. -/
def slotStep (st : ClusterState N) (ev : SlotEvent N) : Option (ClusterState N) :=
  (exec st ev).toOption

/-- No command gives a slot to this node while it is not a master. -/
def KeepsSlavesEmpty (st : ClusterState N) : SlotEvent N → Prop
  | .addslots args => slotArguments st false args [] ≠ none → IsMaster st
  | .setslotNode _ name => clusterLookupNode st name = some st.myself → IsMaster st
  | _ => True

theorem newNode_good {st : ClusterState N} (h : Good st) {r : NodeRef} (hr : st.heap r = none)
    {now : ℤ} {name : N} {flags : NodeFlags} :
    (clusterAddNode (st.setNode r (createClusterNode now name flags)) r).Ensures NoSlotFault
      Good := by
  have hne : ∀ s n, st.heap s = some n → s ≠ r := by
    rintro s n hs rfl
    exact absurd (hr.symm.trans hs) (by simp)
  have hnew : Good (st.setNode r (createClusterNode now name flags)) := by
    refine ⟨⟨fun j s hj => ?_, fun s m j hs hbit => ?_, fun s m hs => ?_⟩, ?_⟩
    · obtain ⟨m, hm, hbit⟩ := h.slotsOk.table j s hj
      exact ⟨m, by rw [setNode_heap_of_ne _ _ (hne s m hm), hm], hbit⟩
    · by_cases hsr : s = r
      · subst hsr
        obtain rfl : createClusterNode now name flags = m := by simpa using hs
        exact absurd hbit (by simp [createClusterNode])
      · rw [setNode_heap_of_ne _ _ hsr] at hs
        exact h.slotsOk.bitmap s m j hs hbit
    · by_cases hsr : s = r
      · subst hsr
        obtain rfl : createClusterNode now name flags = m := by simpa using hs
        exact (slotCount_eq_zero fun _ => rfl).symm
      · rw [setNode_heap_of_ne _ _ hsr] at hs
        exact h.slotsOk.count s m hs
    · obtain ⟨me, hme, hempty⟩ := h.slaveEmpty
      exact ⟨me, by rw [← hme]; exact setNode_heap_of_ne _ _ (hne _ me hme), hempty⟩
  refine (node_ensures noSlotFault_wild _ r).bind fun n _ => ?_
  split
  · exact hnew
  · exact hnew.of_eq rfl rfl rfl

/-- Every event keeps the invariant, and the two assertions hold. -/
theorem exec_good {st : ClusterState N} (h : Good st) (ev : SlotEvent N)
    (hcond : KeepsSlavesEmpty st ev) : (exec st ev).Ensures NoSlotFault Good := by
  cases ev with
  | addslots args =>
    refine (clusterCommandSlots_good h args fun hd hargs => hcond ?_).bind fun p hp => hp
    exact hargs
  | delslots args =>
    refine (clusterCommandSlots_good h args fun hd : true = false => ?_).bind fun p hp => hp
    exact absurd hd (by simp)
  | flushslots => exact (clusterCommandFlushslots_good h).bind fun p hp => hp
  | migrating slot name => exact (clusterCommandMigrating_good h slot name).bind fun p hp => hp
  | importing slot name => exact (clusterCommandImporting_good h slot name).bind fun p hp => hp
  | stable slot => exact h.of_eq rfl rfl rfl
  | setslotNode slot name =>
    exact (clusterCommandSetslotNode_good h slot name hcond).bind fun p hp => hp
  | forget clock name => exact (clusterCommandForget_good h clock name).bind fun p hp => hp
  | replicate name => exact (clusterCommandReplicate_good h name).bind fun p hp => hp
  | reset clock hard => exact (clusterCommandReset_good h clock hard).bind fun p hp => hp
  | ping hdr => exact clusterProcessPing_good h hdr
  | update hdr name epoch slots => exact clusterProcessUpdate_good h hdr name epoch slots
  | promote =>
    refine (node_ensures noSlotFault_wild st _).bind fun me _ => ?_
    split
    · exact clusterFailoverPromote_good h _
    · exact h
  | newNode now r name flags =>
    rw [exec]
    split
    · exact h
    · rename_i hr
      exact newNode_good h (by simpa using hr)

/-- The three places where slots are stored agree: slot `j` is bound to `r` iff the node
at `r` has bit `j`, slots are bound to nodes that are there, and the counters count the
bits. -/
def SlotTable (st : ClusterState N) : Prop :=
  (∀ j r n, st.heap r = some n → (st.slots j = some r ↔ n.slots j = true)) ∧
    (∀ j r, st.slots j = some r → ∃ n, st.heap r = some n) ∧
    ∀ r n, st.heap r = some n → n.numslots = slotCount n.slots

omit [LinearOrder N] in
theorem SlotsOk.slotTable {st : ClusterState N} (h : SlotsOk st) : SlotTable st := by
  refine ⟨fun j r n hn => ⟨fun hj => ?_, h.bitmap r n j hn⟩, fun j r hj => ?_, h.count⟩
  · obtain ⟨m, hm, hbit⟩ := h.table j r hj
    obtain rfl := Option.some_inj.mp (hn.symm.trans hm)
    exact hbit
  · obtain ⟨n, hn, -⟩ := h.table j r hj
    exact ⟨n, hn⟩

/-- In a run in which no command gives a slot to this node while it is not a master, the
table, the bitmaps and the counters agree in every state, and the assertions of
`clusterDelSlot` and `clusterSetMaster` never fail. -/
theorem run_slotTable {st : ClusterState N} {es : List (SlotEvent N)} (h : Good st)
    (hall : Runs.AllSteps slotStep KeepsSlavesEmpty st es) :
    (∀ st', Runs.run slotStep st es = some st' → SlotTable st') ∧
      Runs.AllSteps slotStep (fun st ev => SlotTable st ∧
        exec st ev ≠ .error (.assertion .clusterDelSlot) ∧
        exec st ev ≠ .error (.assertion .clusterSetMaster)) st es := by
  induction es generalizing st with
  | nil =>
    refine ⟨fun st' hrun => ?_, trivial⟩
    obtain rfl := Option.some_inj.mp hrun
    exact h.slotsOk.slotTable
  | cons ev es ih =>
    obtain ⟨hcond, hrest⟩ := hall
    have hexec := exec_good h ev hcond
    have hnext : ∀ st', slotStep st ev = some st' → Good st' := by
      intro st' hstep
      rw [slotStep] at hstep
      cases hres : exec st ev with
      | ok st₁ =>
        rw [hres] at hstep
        obtain rfl := Option.some_inj.mp hstep
        exact hexec.of_eq_ok hres
      | error e =>
        rw [hres] at hstep
        exact absurd hstep (by simp [Except.toOption])
    refine ⟨fun st' hrun => ?_, ⟨h.slotsOk.slotTable, fun herr => ?_, fun herr => ?_⟩, ?_⟩
    · obtain ⟨m, hm, hrun⟩ := Runs.run_cons_eq_some.mp hrun
      exact (ih (hnext m hm) (hrest m hm)).1 st' hrun
    · exact (hexec.of_eq_error herr).1 rfl
    · exact (hexec.of_eq_error herr).2 rfl
    · intro m hm
      exact (ih (hnext m hm) (hrest m hm)).2

end

/-- `clusterInit`, when there is no configuration file. -/
def clusterInit (name : N) : ClusterState N where
  myself := 0
  currentEpoch := 0
  lastVoteEpoch := 0
  size := 1
  heap := Function.update (fun _ => none) 0
    (some (createClusterNode 0 name { NodeFlags.none with myself := true, master := true }))
  nodes := [(name, 0)]
  slots := fun _ => none
  migratingSlotsTo := fun _ => none
  importingSlotsFrom := fun _ => none
  keysInSlot := fun _ => 0
  failoverAuthTime := 0
  failoverAuthCount := 0
  failoverAuthSent := false
  failoverAuthRank := 0
  failoverAuthEpoch := 0
  mfEnd := 0
  mfSlave := none
  mfCanStart := false
  mfMasterOffset := 0
  todoHandleFailover := false
  todoUpdateState := false
  todoSaveConfig := false
  todoFsyncConfig := false

theorem good_clusterInit (name : N) : Good (clusterInit name) := by
  have hnode : ∀ r n, (clusterInit name).heap r = some n → r = 0 ∧
      n = createClusterNode 0 name { NodeFlags.none with myself := true, master := true } := by
    intro r n hn
    by_cases hr : r = 0
    · subst hr
      exact ⟨rfl, (Option.some_inj.mp hn).symm⟩
    · simp [clusterInit, Function.update_of_ne hr] at hn
  refine ⟨⟨fun j r hj => absurd hj nofun, fun r n j hn hbit => ?_, fun r n hn => ?_⟩, _, rfl, nofun⟩
  · obtain ⟨-, rfl⟩ := hnode r n hn
    exact absurd hbit (by simp [createClusterNode])
  · obtain ⟨-, rfl⟩ := hnode r n hn
    exact (slotCount_eq_zero fun _ => rfl).symm

/-- A master takes two slots and gives them up again. -/
theorem run_slotTable_addslots : SlotTable (clusterInit 0) ∧
    Runs.AllSteps slotStep (fun st ev => SlotTable st ∧
      exec st ev ≠ .error (.assertion .clusterDelSlot) ∧
      exec st ev ≠ .error (.assertion .clusterSetMaster)) (clusterInit 0)
      [.addslots [some 1, some 2], .flushslots] := by
  refine ⟨(good_clusterInit 0).slotsOk.slotTable, (run_slotTable (good_clusterInit 0) ?_).2⟩
  refine ⟨fun _ n hn => ?_, fun _ _ => ⟨trivial, fun _ _ => trivial⟩⟩
  obtain rfl := Option.some_inj.mp hn
  rfl

theorem exec_addslots_single [LinearOrder N] {st : ClusterState N} {slot : Slot}
    (hslot : st.slots slot = none) : exec st (.addslots [some slot])
      = (changeSlot false [slot] st slot).bind fun st => .ok (todoSaveUpdate st) := by
  have hargs : slotArguments st false [some slot] [] = some [slot] := by
    simp [slotArguments, hslot]
  have hloop := foldlM_eq_single (f := changeSlot false [slot]) (P := fun _ => True) (b := st)
    (mem_allSlots slot) nodup_allSlots (fun st' _ j _ hj => by simp [changeSlot, hj]) trivial
    fun _ _ => trivial
  simp only [exec, clusterCommandSlots, hargs, hloop]
  cases changeSlot false [slot] st slot <;> rfl

theorem exec_addslots_spec [LinearOrder N] {st : ClusterState N} {me : ClusterNode N} {slot : Slot}
    (h : SlotsOk st) (hme : st.heap st.myself = some me) (hslot : st.slots slot = none)
    (himporting : st.importingSlotsFrom slot = none) :
    ∃ st', exec st (.addslots [some slot]) = .ok st' ∧ SlotsOk st' ∧ st'.myself = st.myself ∧
      st'.nodes = st.nodes ∧ st'.heap = Function.update st.heap st.myself (some { me with
        slots := Function.update me.slots slot true, numslots := me.numslots + 1 }) := by
  have hbit : me.slots slot = false := by
    by_contra hbit
    rw [Bool.not_eq_false] at hbit
    exact absurd (hslot.symm.trans (h.bitmap _ me slot hme hbit)) (by simp)
  let st' : ClusterState N := { st.setNode st.myself { me with
      slots := Function.update me.slots slot true, numslots := me.numslots + 1 } with
    slots := Function.update st.slots slot (some st.myself) }
  have hchange : changeSlot false [slot] st slot = .ok st' := by
    simp [changeSlot, clusterAddSlot, clusterNodeSetSlotBit, node_eq_ok hme, himporting, hslot, hbit,
      redisAssert, setNode, ok_bind, st']
  have hexec : exec st (.addslots [some slot]) = .ok (todoSaveUpdate st') := by
    rw [exec_addslots_single hslot, hchange]
    rfl
  have hok : SlotsOk st' := Agree.set h hme hslot rfl rfl
  exact ⟨todoSaveUpdate st', hexec, hok, rfl, rfl, rfl⟩

/-- A node that serves slots fails the assertion of `clusterSetMaster` when it is not a
master and is told to replicate another node. -/
theorem exec_replicate_fault [LinearOrder N] {st : ClusterState N} {me n : ClusterNode N} {name : N}
    {r : NodeRef} (hme : st.heap st.myself = some me) (hslave : me.flags.master = false)
    (hnum : me.numslots ≠ 0) (hlookup : clusterLookupNode st name = some r) (hr : r ≠ st.myself)
    (hn : st.heap r = some n) (hmaster : n.slaveof = none) :
    exec st (.replicate name) = .error (.assertion .clusterSetMaster) := by
  simp only [exec, clusterCommandReplicate, hlookup, node_eq_ok hme, node_eq_ok hn, ok_bind,
    if_neg hr, hmaster, hslave, clusterSetMaster, redisAssert, if_pos hr, if_neg hnum]
  rfl

/-- The flags of a master that this node got to know. -/
def masterFlags : NodeFlags := { NodeFlags.none with master := true }

/-- Two other nodes join, and this node becomes a slave of the first one. -/
def replicaSteps : List (SlotEvent ℕ) :=
  [.newNode 0 1 1 masterFlags, .newNode 0 2 2 masterFlags, .replicate 1]

theorem run_replicaSteps : ∃ st me n, Runs.run slotStep (clusterInit 0) replicaSteps = some st ∧
    Good st ∧ st.heap st.myself = some me ∧ me.flags.master = false ∧ me.numslots = 0 ∧
    clusterLookupNode st 2 = some 2 ∧ 2 ≠ st.myself ∧ st.heap 2 = some n ∧ n.slaveof = none ∧
    st.slots 0 = none ∧ st.importingSlotsFrom 0 = none := by
  let s₁ : ClusterState ℕ := { (clusterInit 0).setNode 1 (createClusterNode 0 1 masterFlags) with
    nodes := [(0, 0), (1, 1)] }
  let s₂ : ClusterState ℕ := { s₁.setNode 2 (createClusterNode 0 2 masterFlags) with
    nodes := [(0, 0), (1, 1), (2, 2)] }
  have hnew₁ : exec (clusterInit 0) (.newNode 0 1 1 masterFlags) = .ok s₁ := rfl
  have hnew₂ : exec s₁ (.newNode 0 2 2 masterFlags) = .ok s₂ := rfl
  have hempty : s₂.dbEmpty = true := by
    simp [dbEmpty, s₂, s₁, clusterInit, setNode]
  obtain ⟨s₃, hset, hrest⟩ : ∃ s₃, clusterSetMaster s₂ 1 = .ok s₃ ∧
      ∃ me n, s₃.heap s₃.myself = some me ∧ me.flags.master = false ∧ me.numslots = 0 ∧
        clusterLookupNode s₃ 2 = some 2 ∧ 2 ≠ s₃.myself ∧ s₃.heap 2 = some n ∧ n.slaveof = none ∧
        s₃.slots 0 = none ∧ s₃.importingSlotsFrom 0 = none :=
    ⟨_, rfl, _, _, rfl, rfl, rfl, rfl, Nat.succ_ne_zero 1, rfl, rfl, rfl, rfl⟩
  have hreplicate : exec s₂ (.replicate 1) = .ok (todoSaveUpdate s₃) := by
    have hlookup : clusterLookupNode s₂ 1 = some 1 := rfl
    have hme : s₂.heap s₂.myself = some (createClusterNode 0 0
      { NodeFlags.none with myself := true, master := true }) := rfl
    have hn : s₂.heap 1 = some (createClusterNode 0 1 masterFlags) := rfl
    have hne : (1 : ℕ) ≠ s₂.myself := Nat.one_ne_zero
    simp only [exec, clusterCommandReplicate, hlookup, node_eq_ok hme, node_eq_ok hn, ok_bind,
      if_neg hne, hempty, hset, createClusterNode]
    rfl
  obtain ⟨me, n, hnode⟩ := hrest
  have hrun : Runs.run slotStep (clusterInit 0) replicaSteps = some (todoSaveUpdate s₃) := by
    refine Runs.run_cons_eq_some.mpr ⟨s₁, congrArg Except.toOption hnew₁, ?_⟩
    refine Runs.run_cons_eq_some.mpr ⟨s₂, congrArg Except.toOption hnew₂, ?_⟩
    exact Runs.run_cons_eq_some.mpr ⟨_, congrArg Except.toOption hreplicate, rfl⟩
  have hgood : Good (todoSaveUpdate s₃) := by
    have hgood₁ := (exec_good (good_clusterInit 0) (.newNode 0 1 1 masterFlags) trivial).of_eq_ok hnew₁
    have hgood₂ := (exec_good hgood₁ (.newNode 0 2 2 masterFlags) trivial).of_eq_ok hnew₂
    exact (exec_good hgood₂ (.replicate 1) trivial).of_eq_ok hreplicate
  exact ⟨todoSaveUpdate s₃, me, n, hrun, hgood, hnode⟩

/-- A slave that is given slot 0 fails the assertion of `clusterSetMaster` when it is told
to replicate another master. -/
theorem run_addslots_replicate : ∃ st₁ st₂,
    Runs.run slotStep (clusterInit 0) replicaSteps = some st₁ ∧
    Runs.run slotStep st₁ [.addslots [some 0]] = some st₂ ∧ SlotTable st₂ ∧
    exec st₂ (.replicate 2) = .error (.assertion .clusterSetMaster) := by
  obtain ⟨st₁, me, n, hrun, hgood, hme, hslave, hnum, hlookup, hne, hn, hmaster, hslot, himp⟩ :=
    run_replicaSteps
  obtain ⟨st₂, hadd, hok, hmyself, hnodes, hheap⟩ :=
    exec_addslots_spec hgood.slotsOk hme hslot himp
  have hme₂ := congrFun hheap st₂.myself
  have hn₂ := congrFun hheap 2
  rw [hmyself, Function.update_self, ← hmyself] at hme₂
  rw [Function.update_of_ne hne] at hn₂
  have hlookup₂ : clusterLookupNode st₂ 2 = some 2 := by
    rw [← hlookup, clusterLookupNode, clusterLookupNode, hnodes]
  refine ⟨st₁, st₂, hrun, ?_, hok.slotTable, ?_⟩
  · rw [Runs.run, slotStep, hadd]
    rfl
  · exact exec_replicate_fault hme₂ hslave (by simp [hnum]) hlookup₂ (hmyself ▸ hne)
      (hn₂.trans hn) hmaster

end ClusterState

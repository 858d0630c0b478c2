/-
What the functions of the cluster do to a manual failover.

Most of them leave it alone.  A packet may bring the offset that a slave waits for, and a
node that gets a new master gives its manual failover up.

* `SameNames`, `KeepsMf`, `LostRole` — what may have changed;
* `AfterPacket` — the outcomes of a packet: `clusterProcessPing_afterPacket`,
  `clusterProcessUpdate_afterPacket`, `clusterProcessAuthRequest_afterPacket`,
  `clusterProcessAuthAck_afterPacket`;
* `clusterProcessMfstart_spec`, `clusterHandleSlaveFailover_mf` — the packet that begins a
  manual failover and the steps of a slave.
-/
import RedisModel.ManualFailover

open Except

namespace ClusterState

variable {N : Type}

/-! ### What may change -/

/-- What the role of this node depends on. -/
def ownRole (n : ClusterNode N) : Bool × Bool × Option NodeRef :=
  (n.flags.master, n.flags.slave, n.slaveof)

/-- The same nodes under the same names. -/
structure SameNames (st st' : ClusterState N) : Prop where
  myself : st'.myself = st.myself
  nodes : st'.nodes = st.nodes
  name : ∀ r, (st'.heap r).map ClusterNode.name = (st.heap r).map ClusterNode.name

/-- The role of this node and its manual failover are the same, but for the offset, which
is `offset` now. -/
structure KeepsMf (offset : ℤ) (st st' : ClusterState N) : Prop extends SameNames st st' where
  mfEnd : st'.mfEnd = st.mfEnd
  canStart : st'.mfCanStart = st.mfCanStart
  offset : st'.mfMasterOffset = offset
  role : (st'.heap st.myself).map ownRole = (st.heap st.myself).map ownRole

/-- The manual failover is the same. -/
abbrev SameMf (st : ClusterState N) : ClusterState N → Prop := KeepsMf st.mfMasterOffset st

/-- This node has got a new master. -/
structure LostRole (st st' : ClusterState N) : Prop extends SameNames st st' where
  mfEnd : st'.mfEnd = 0
  canStart : st'.mfCanStart = false
  offset : st'.mfMasterOffset = 0
  isMaster : st'.isMaster = false

theorem SameNames.refl (st : ClusterState N) : SameNames st st := ⟨rfl, rfl, fun _ => rfl⟩

theorem SameNames.trans {st₁ st₂ st₃ : ClusterState N} (h : SameNames st₁ st₂)
    (h' : SameNames st₂ st₃) : SameNames st₁ st₃ :=
  ⟨h'.myself.trans h.myself, h'.nodes.trans h.nodes, fun r => (h'.name r).trans (h.name r)⟩

theorem SameMf.refl (st : ClusterState N) : SameMf st st := ⟨SameNames.refl st, rfl, rfl, rfl, rfl⟩

theorem KeepsMf.trans {st₁ st₂ st₃ : ClusterState N} {offset : ℤ} (h : KeepsMf offset st₁ st₂)
    (h' : SameMf st₂ st₃) : KeepsMf offset st₁ st₃ where
  toSameNames := h.toSameNames.trans h'.toSameNames
  mfEnd := h'.mfEnd.trans h.mfEnd
  canStart := h'.canStart.trans h.canStart
  offset := h'.offset.trans h.offset
  role := by
    rw [← h.role, ← h.myself, h'.role]

theorem LostRole.of_sameNames {st₁ st₂ st₃ : ClusterState N} (h : SameNames st₁ st₂)
    (h' : LostRole st₂ st₃) : LostRole st₁ st₃ :=
  ⟨h.trans h'.toSameNames, h'.mfEnd, h'.canStart, h'.offset, h'.isMaster⟩

section
variable {st st' : ClusterState N} {offset : ℤ}

theorem SameNames.named (h : SameNames st st') {i : N} : Named i st' ↔ Named i st := by
  rw [Named, Named, h.myself, h.name]

theorem SameNames.tableOk (h : SameNames st st') :
    ManualFailover.TableOk st' ↔ ManualFailover.TableOk st := by
  unfold ManualFailover.TableOk
  rw [h.nodes]
  simp only [h.name]

theorem KeepsMf.me (h : KeepsMf offset st st') {me : ClusterNode N}
    (hme : st.heap st.myself = some me) : ∃ me', st'.heap st'.myself = some me' ∧
      me'.flags.master = me.flags.master ∧ me'.flags.slave = me.flags.slave ∧
      me'.slaveof = me.slaveof := by
  have hrole := h.role
  rw [hme] at hrole
  obtain ⟨me', hme', heq⟩ := Option.map_eq_some_iff.mp hrole
  simp only [ownRole, Prod.mk.injEq] at heq
  exact ⟨me', h.myself ▸ hme', heq⟩

theorem KeepsMf.me_none (h : KeepsMf offset st st') (hme : st.heap st.myself = none) :
    st'.heap st'.myself = none := by
  have hrole := h.role
  rw [hme] at hrole
  rw [h.myself]
  exact Option.map_eq_none_iff.mp hrole

theorem KeepsMf.isMaster (h : KeepsMf offset st st') : st'.isMaster = st.isMaster := by
  rw [ClusterState.isMaster, ClusterState.isMaster]
  cases hme : st.heap st.myself with
  | none => rw [h.me_none hme]
  | some me =>
    obtain ⟨me', hme', hmaster, -⟩ := h.me hme
    rw [hme']
    exact hmaster

theorem KeepsMf.masterName (h : KeepsMf offset st st') : st'.masterName = st.masterName := by
  rw [ClusterState.masterName, ClusterState.masterName]
  cases hme : st.heap st.myself with
  | none => rw [h.me_none hme]; rfl
  | some me =>
    obtain ⟨me', hme', -, -, hslaveof⟩ := h.me hme
    rw [hme']
    simp only [Option.bind_eq_bind, Option.bind_some, hslaveof]
    cases me.slaveof with
    | none => rfl
    | some r =>
      simp only [Option.bind_some]
      have hname := h.name r
      cases hn : st.heap r with
      | none =>
        rw [hn] at hname
        rw [Option.map_eq_none_iff.mp hname]
      | some n =>
        rw [hn] at hname
        obtain ⟨n', hn', heq⟩ := Option.map_eq_some_iff.mp hname
        rw [hn', Option.bind_some, Option.bind_some, heq]

end

/-! ### Writing nodes -/

theorem sameMf_setNode {st : ClusterState N} {r : NodeRef} {n n' : ClusterNode N}
    (hr : st.heap r = some n) (hname : n'.name = n.name)
    (hrole : r = st.myself → ownRole n' = ownRole n) : SameMf st (st.setNode r n') := by
  refine ⟨⟨rfl, rfl, keepsElection_update hr rfl hname⟩, rfl, rfl, rfl, ?_⟩
  by_cases hs : r = st.myself
  · subst hs
    rw [setNode_heap_self, hr]
    exact congrArg some (hrole rfl)
  · rw [setNode_heap_of_ne _ _ (Ne.symm hs)]

theorem sameMf_modifyNode (st : ClusterState N) (r : NodeRef) {f : ClusterNode N → ClusterNode N}
    (hname : ∀ n, (f n).name = n.name) (hrole : r = st.myself → ∀ n, ownRole (f n) = ownRole n) :
    (st.modifyNode r f).Ensures AnyFault (SameMf st) :=
  (node_ensures trivial st r).bind fun n hn => sameMf_setNode hn (hname n) fun h => hrole h n

/-! ### Slots -/

theorem clusterNodeSetSlotBit_sameMf (st : ClusterState N) (r : NodeRef) (slot : Slot) :
    (clusterNodeSetSlotBit st r slot).Ensures AnyFault fun p => SameMf st p.1 :=
  (node_ensures trivial st r).bind fun _ hn => sameMf_setNode hn rfl fun _ => rfl

theorem clusterNodeClearSlotBit_sameMf (st : ClusterState N) (r : NodeRef) (slot : Slot) :
    (clusterNodeClearSlotBit st r slot).Ensures AnyFault fun p => SameMf st p.1 :=
  (node_ensures trivial st r).bind fun _ hn => sameMf_setNode hn rfl fun _ => rfl

theorem clusterAddSlot_sameMf (st : ClusterState N) (r : NodeRef) (slot : Slot) :
    (clusterAddSlot st r slot).Ensures AnyFault fun p => SameMf st p.1 := by
  rw [clusterAddSlot]
  split
  · exact SameMf.refl st
  · refine (clusterNodeSetSlotBit_sameMf st r slot).bind fun p hp => ?_
    exact ⟨⟨hp.1.1, hp.1.2, hp.1.3⟩, hp.2, hp.3, hp.4, hp.5⟩

theorem clusterDelSlot_sameMf (st : ClusterState N) (slot : Slot) :
    (clusterDelSlot st slot).Ensures AnyFault fun p => SameMf st p.1 := by
  rw [clusterDelSlot]
  split
  · exact SameMf.refl st
  · refine (clusterNodeClearSlotBit_sameMf st _ slot).bind fun p hp => ?_
    refine (redisAssert_anyFault _ _).bind fun _ _ => ?_
    exact ⟨⟨hp.1.1, hp.1.2, hp.1.3⟩, hp.2, hp.3, hp.4, hp.5⟩

theorem clusterDelNodeSlots_sameMf (st : ClusterState N) (r : NodeRef) :
    (clusterDelNodeSlots st r).Ensures AnyFault (SameMf st) := by
  refine Ensures.foldlM (fun st' slot _ h => ?_) (SameMf.refl st)
  refine Ensures.bind (Q := fun _ => True) ((node_ensures trivial st' r).bind fun _ _ => trivial)
    fun bit _ => ?_
  split
  · exact (clusterDelSlot_sameMf st' slot).bind fun _ hp => KeepsMf.trans h hp
  · exact h

/-! ### Slaves and roles -/

theorem clusterNodeRemoveSlave_sameMf (st : ClusterState N) (master slave : NodeRef) :
    (clusterNodeRemoveSlave st master slave).Ensures AnyFault (SameMf st) := by
  refine (node_ensures trivial st master).bind fun n hn => ?_
  dsimp only
  split
  · split
    · exact sameMf_setNode hn rfl fun _ => rfl
    · trivial
  · exact SameMf.refl st

theorem leaveMaster_sameMf (st : ClusterState N) (master : Option NodeRef) (slave : NodeRef) :
    (leaveMaster st master slave).Ensures AnyFault (SameMf st) := by
  cases master with
  | none => exact SameMf.refl st
  | some m => exact clusterNodeRemoveSlave_sameMf st m slave

theorem clusterNodeAddSlave_sameMf (st : ClusterState N) (master slave : NodeRef) :
    (clusterNodeAddSlave st master slave).Ensures AnyFault (SameMf st) := by
  refine (node_ensures trivial st master).bind fun n hn => ?_
  split
  · exact SameMf.refl st
  · exact sameMf_setNode hn rfl fun _ => rfl

theorem clusterSetNodeAsMaster_sameMf {st : ClusterState N} {r : NodeRef} (hr : r ≠ st.myself) :
    (clusterSetNodeAsMaster st r).Ensures AnyFault (SameMf st) := by
  refine (node_ensures trivial st r).bind fun n _ => ?_
  split
  · exact SameMf.refl st
  · refine (leaveMaster_sameMf st n.slaveof r).bind fun st₁ h₁ => ?_
    refine Ensures.bind (sameMf_modifyNode st₁ r (fun _ => rfl)
      fun h => absurd (h.trans h₁.myself) hr) fun st₂ h₂ => ?_
    have h := KeepsMf.trans h₁ h₂
    exact ⟨⟨h.1.1, h.1.2, h.1.3⟩, h.2, h.3, h.4, h.5⟩

theorem clusterSetNodeAsMaster_sameNames (st : ClusterState N) (r : NodeRef) :
    (clusterSetNodeAsMaster st r).Ensures AnyFault (SameNames st) := by
  refine (node_ensures trivial st r).bind fun n _ => ?_
  split
  · exact SameNames.refl st
  · refine (leaveMaster_sameMf st n.slaveof r).bind fun st₁ h₁ => ?_
    refine Ensures.bind (Q := SameNames st₁) ?_ fun st₂ h₂ => h₁.toSameNames.trans
      ⟨h₂.1, h₂.2, h₂.3⟩
    exact (node_ensures trivial st₁ r).bind fun n hn =>
      ⟨rfl, rfl, keepsElection_update hn rfl rfl⟩

theorem leaveRole_sameNames (st : ClusterState N) (me : ClusterNode N)
    (hme : st.heap st.myself = some me) :
    (leaveRole st me).Ensures AnyFault fun st' => SameNames st st' ∧ st'.isMaster = false := by
  rw [leaveRole]
  split
  · refine Ensures.bind (Q := fun st' : ClusterState N => SameNames st st' ∧
      st'.isMaster = false) ?_ fun st₁ h => ⟨⟨h.1.1, h.1.2, h.1.3⟩, h.2⟩
    refine (node_ensures trivial st st.myself).bind fun n hn =>
      ⟨⟨rfl, rfl, keepsElection_update hn rfl rfl⟩, ?_⟩
    rw [isMaster, show (st.setNode st.myself _).myself = st.myself from rfl, setNode_heap_self]
  · rename_i hmaster
    refine (leaveMaster_sameMf st me.slaveof st.myself).imp fun st' h => ⟨h.toSameNames, ?_⟩
    rw [h.isMaster, isMaster, hme]
    simpa using hmaster

theorem clusterSetMaster_lostRole (st : ClusterState N) (r : NodeRef) :
    (clusterSetMaster st r).Ensures AnyFault (LostRole st) := by
  refine (redisAssert_anyFault _ _).bind fun _ _ => ?_
  refine (node_ensures trivial st st.myself).bind fun me hme => ?_
  refine (redisAssert_anyFault _ _).bind fun _ _ => ?_
  refine (leaveRole_sameNames st me hme).bind fun st₁ ⟨h₁, hmaster⟩ => ?_
  refine Ensures.bind (Q := fun st₂ => SameNames st st₂ ∧ st₂.isMaster = false) ?_
    fun st₂ ⟨h₂, hmaster₂⟩ => ?_
  · refine (node_ensures trivial st₁ st₁.myself).bind fun n hn =>
      ⟨h₁.trans ⟨rfl, rfl, keepsElection_update hn rfl rfl⟩, ?_⟩
    rw [isMaster, hn] at hmaster
    rw [isMaster, show (st₁.setNode st₁.myself _).myself = st₁.myself from rfl, setNode_heap_self]
    exact hmaster
  · refine (clusterNodeAddSlave_sameMf st₂ r st₂.myself).bind fun st₃ h₃ => ?_
    have h := h₂.trans h₃.toSameNames
    exact ⟨⟨h.1, h.2, h.3⟩, rfl, rfl, rfl, h₃.isMaster.trans hmaster₂⟩

/-! ### Slots claimed by another node -/

theorem updateSlot_sameMf (sender : NodeRef) (senderConfigEpoch : ℕ) (slots : Slot → Bool)
    (curmaster : Option NodeRef) (acc : ClusterState N × Bool × List Slot) (slot : Slot) :
    (updateSlot sender senderConfigEpoch slots curmaster acc slot).Ensures AnyFault
      fun acc' => SameMf acc.1 acc'.1 := by
  obtain ⟨st, newmaster, dirty⟩ := acc
  rw [updateSlot]
  dsimp only
  split
  · split
    · exact SameMf.refl st
    · split
      · exact SameMf.refl st
      · refine Ensures.bind (Q := fun _ => True) ?_ fun outdated _ => ?_
        · rw [slotIsOutdated]
          split
          · trivial
          · exact (node_ensures trivial st _).bind fun _ _ => trivial
        · split
          · refine (clusterDelSlot_sameMf st slot).bind fun p₁ h₁ => ?_
            refine (clusterAddSlot_sameMf p₁.1 sender slot).bind fun p₂ h₂ => ?_
            have h := KeepsMf.trans h₁ h₂
            exact ⟨⟨h.1.1, h.1.2, h.1.3⟩, h.2, h.3, h.4, h.5⟩
          · exact SameMf.refl st
  · exact SameMf.refl st

theorem clusterUpdateSlotsConfigWith_mf (st : ClusterState N) (sender : NodeRef)
    (senderConfigEpoch : ℕ) (slots : Slot → Bool) :
    (clusterUpdateSlotsConfigWith st sender senderConfigEpoch slots).Ensures AnyFault
      fun st' => SameMf st st' ∨ LostRole st st' := by
  refine Ensures.bind (Q := fun _ => True)
    ((node_ensures trivial st _).bind fun _ _ => trivial) fun cm _ => ?_
  split
  · exact .inl (SameMf.refl st)
  refine Ensures.bind (Q := fun acc => SameMf st acc.1) ?_ fun acc h₁ => ?_
  · exact Ensures.foldlM (fun acc slot _ h =>
      (updateSlot_sameMf sender senderConfigEpoch slots cm acc slot).imp fun _ => KeepsMf.trans h)
      (SameMf.refl st)
  refine Ensures.bind (Q := fun _ => True) ?_ fun lost _ => ?_
  · unfold curmasterLost
    split
    · split
      · exact (node_ensures trivial _ _).bind fun _ _ => trivial
      · trivial
    · trivial
  split
  · refine (clusterSetMaster_lostRole acc.1 sender).bind fun st₂ h₂ => ?_
    have h := h₁.toSameNames.trans h₂.toSameNames
    exact .inr ⟨⟨h.1, h.2, h.3⟩, h₂.mfEnd, h₂.canStart, h₂.offset, h₂.isMaster⟩
  · exact .inl ⟨⟨h₁.1.1, h₁.1.2, h₁.1.3⟩, h₁.2, h₁.3, h₁.4, h₁.5⟩

/-! ### Packets -/

theorem LostRole.sameMf {st₁ st₂ st₃ : ClusterState N} (h : LostRole st₁ st₂)
    (h' : SameMf st₂ st₃) : LostRole st₁ st₃ :=
  ⟨h.toSameNames.trans h'.toSameNames, h'.mfEnd.trans h.mfEnd, h'.canStart.trans h.canStart,
    h'.offset.trans h.offset, h'.isMaster.trans h.isMaster⟩

/-- Whether the offset in a packet of the node at `sender` is taken: the condition in
`clusterProcessPacket`. -/
def takesFrom (st : ClusterState N) (sender : NodeRef) (hdr : ClusterMsg N) : Bool :=
  match st.heap st.myself with
  | some me => decide (st.mfEnd ≠ 0 ∧ me.flags.slave ∧ me.slaveof = some sender ∧ hdr.paused ∧
      st.mfMasterOffset = 0)
  | none => false

theorem updateEpochs_keepsMf (st : ClusterState N) (sender : NodeRef) (hdr : ClusterMsg N) :
    (updateEpochs st sender hdr).Ensures AnyFault
      (KeepsMf (if takesFrom st sender hdr then hdr.offset else st.mfMasterOffset) st) := by
  -- the steps before the offset is looked at
  have hrest : ∀ st₁ : ClusterState N, SameMf st st₁ → (do
      let st ← st₁.modifyNode sender fun n => { n with replOffset := hdr.offset }
      let me ← st.node st.myself
      if st.mfEnd ≠ 0 ∧ me.flags.slave ∧ me.slaveof = some sender ∧ hdr.paused ∧
          st.mfMasterOffset = 0 then
        .ok { st with mfMasterOffset := hdr.offset }
      else .ok st : Result (ClusterState N)).Ensures AnyFault
        (KeepsMf (if takesFrom st sender hdr then hdr.offset else st.mfMasterOffset) st) := by
    intro st₁ h₁
    refine Ensures.bind (sameMf_modifyNode st₁ sender (fun _ => rfl) fun _ _ => rfl)
      fun st₂ h₂ => ?_
    refine (node_ensures trivial st₂ st₂.myself).bind fun me' hme' => ?_
    have h := KeepsMf.trans h₁ h₂
    have htakes : takesFrom st sender hdr = decide (st₂.mfEnd ≠ 0 ∧ me'.flags.slave ∧
        me'.slaveof = some sender ∧ hdr.paused ∧ st₂.mfMasterOffset = 0) := by
      rw [takesFrom, h.mfEnd, h.offset]
      cases hme : st.heap st.myself with
      | none =>
        rw [h.me_none hme] at hme'
        cases hme'
      | some me =>
        obtain ⟨me₂, hme₂, -, hslave, hslaveof⟩ := h.me hme
        obtain rfl := Option.some_inj.mp (hme₂.symm.trans hme')
        rw [hslave, hslaveof]
    rw [htakes]
    split
    · rename_i hif
      rw [if_pos (decide_eq_true hif)]
      exact ⟨⟨h.1.1, h.1.2, h.1.3⟩, h.2, h.3, rfl, h.5⟩
    · rename_i hif
      rw [if_neg (by rw [decide_eq_true_iff]; exact hif)]
      exact h
  unfold updateEpochs
  dsimp only
  refine (node_ensures trivial _ sender).bind fun n hn => ?_
  refine hrest _ ?_
  have hcurrent : SameMf st (if hdr.currentEpoch > st.currentEpoch then
      { st with currentEpoch := hdr.currentEpoch } else st) := by
    split
    · exact ⟨⟨rfl, rfl, fun _ => rfl⟩, rfl, rfl, rfl, rfl⟩
    · exact SameMf.refl st
  split
  · refine KeepsMf.trans hcurrent ?_
    have h : SameMf _ ((_ : ClusterState N).setNode sender { n with configEpoch := hdr.configEpoch }) :=
      sameMf_setNode hn rfl fun _ => rfl
    exact ⟨⟨h.1.1, h.1.2, h.1.3⟩, h.2, h.3, h.4, h.5⟩
  · exact hcurrent

theorem slaveof_setNode {st : ClusterState N} {r : NodeRef} {n n' : ClusterNode N}
    (hr : st.heap r = some n) (hslaveof : n'.slaveof = n.slaveof) (s : NodeRef) :
    ((st.setNode r n').heap s).map ClusterNode.slaveof
      = (st.heap s).map ClusterNode.slaveof := by
  by_cases hs : s = r
  · subst hs
    rw [setNode_heap_self, hr]
    exact congrArg some hslaveof
  · rw [setNode_heap_of_ne _ _ hs]

theorem slaveof_modifyNode (st : ClusterState N) (r : NodeRef) {f : ClusterNode N → ClusterNode N}
    (hf : ∀ n, (f n).slaveof = n.slaveof) : (st.modifyNode r f).Ensures AnyFault fun st' =>
      ∀ s, (st'.heap s).map ClusterNode.slaveof = (st.heap s).map ClusterNode.slaveof :=
  (node_ensures trivial st r).bind fun n hn => slaveof_setNode hn (hf n)

theorem updateEpochs_slaveof (st : ClusterState N) (sender : NodeRef) (hdr : ClusterMsg N) :
    (updateEpochs st sender hdr).Ensures AnyFault fun st' =>
      ∀ r, (st'.heap r).map ClusterNode.slaveof = (st.heap r).map ClusterNode.slaveof := by
  have hcurrent : ∀ r, ((if hdr.currentEpoch > st.currentEpoch then
      { st with currentEpoch := hdr.currentEpoch } else st : ClusterState N).heap r)
        = st.heap r := by
    intro r
    split <;> rfl
  unfold updateEpochs
  dsimp only
  refine (node_ensures trivial _ sender).bind fun n hn => ?_
  refine Ensures.bind (slaveof_modifyNode _ sender fun _ => rfl) fun st₂ h₂ => ?_
  have h : ∀ r, (st₂.heap r).map ClusterNode.slaveof = (st.heap r).map ClusterNode.slaveof := by
    intro r
    rw [h₂ r]
    split
    · have hslaveof : ({ n with configEpoch := hdr.configEpoch } : ClusterNode N).slaveof
          = n.slaveof := rfl
      exact (slaveof_setNode hn hslaveof r).trans (congrArg _ (hcurrent r))
    · exact congrArg _ (hcurrent r)
  refine (node_ensures trivial st₂ st₂.myself).bind fun me _ => ?_
  split <;> exact h

theorem demote_sameMf {st : ClusterState N} {sender : NodeRef} (hne : sender ≠ st.myself) :
    (demote st sender).Ensures AnyFault (SameMf st) := by
  refine (clusterDelNodeSlots_sameMf st sender).bind fun st₁ h₁ => ?_
  refine Ensures.bind (sameMf_modifyNode st₁ sender (fun _ => rfl)
    fun h => absurd (h.trans h₁.myself) hne) fun st₂ h₂ => ?_
  refine Ensures.bind (sameMf_modifyNode st₂ sender (fun _ => rfl) fun _ _ => rfl)
    fun st₃ h₃ => ?_
  have h := KeepsMf.trans (KeepsMf.trans h₁ h₂) h₃
  exact ⟨⟨h.1.1, h.1.2, h.1.3⟩, h.2, h.3, h.4, h.5⟩

theorem roleSwitch_sameMf [DecidableEq N] {st : ClusterState N} {sender : NodeRef}
    (hne : sender ≠ st.myself) (hdr : ClusterMsg N) :
    (roleSwitch st sender hdr).Ensures AnyFault (SameMf st) := by
  rw [roleSwitch]
  split
  · exact clusterSetNodeAsMaster_sameMf hne
  · refine (node_ensures trivial st sender).bind fun n _ => ?_
    refine Ensures.bind (Q := SameMf st) ?_ fun st₁ h₁ => ?_
    · split
      · exact demote_sameMf hne
      · exact SameMf.refl st
    refine (node_ensures trivial st₁ sender).bind fun n _ => ?_
    split
    · exact h₁
    · split
      · exact h₁
      · refine (leaveMaster_sameMf st₁ n.slaveof sender).bind fun st₂ h₂ => ?_
        refine (clusterNodeAddSlave_sameMf st₂ _ sender).bind fun st₃ h₃ => ?_
        have h₁₃ := KeepsMf.trans (KeepsMf.trans h₁ h₂) h₃
        refine Ensures.bind (sameMf_modifyNode st₃ sender (fun _ => rfl)
          fun h => absurd (h.trans h₁₃.myself) hne) fun st₄ h₄ => ?_
        have h := KeepsMf.trans h₁₃ h₄
        exact ⟨⟨h.1.1, h.1.2, h.1.3⟩, h.2, h.3, h.4, h.5⟩

theorem updateSlots_mf (st : ClusterState N) (sender : NodeRef) (senderConfigEpoch : ℕ)
    (hdr : ClusterMsg N) : (updateSlots st sender senderConfigEpoch hdr).Ensures AnyFault
      fun st' => SameMf st st' ∨ LostRole st st' := by
  refine Ensures.bind (Q := fun _ => True) ?_ fun dirty _ => ?_
  · refine (node_ensures trivial st sender).bind fun n _ => ?_
    split
    · trivial
    · exact (node_ensures trivial st _).bind fun _ _ => trivial
  refine (node_ensures trivial st sender).bind fun n _ => ?_
  split
  · exact clusterUpdateSlotsConfigWith_mf st sender senderConfigEpoch hdr.myslots
  · exact .inl (SameMf.refl st)

theorem checkCollision_sameMf [LinearOrder N] (st : ClusterState N) (sender : NodeRef)
    (senderConfigEpoch : ℕ) :
    (checkCollision st sender senderConfigEpoch).Ensures AnyFault (SameMf st) := by
  refine (node_ensures trivial st sender).bind fun n _ => ?_
  refine (node_ensures trivial st st.myself).bind fun me _ => ?_
  split
  · refine (node_ensures trivial st sender).bind fun n _ => ?_
    refine (node_ensures trivial st st.myself).bind fun me _ => ?_
    split
    · exact SameMf.refl st
    · split
      · exact SameMf.refl st
      · refine Ensures.bind (Q := SameMf st) ?_ fun st₁ h => ⟨⟨h.1.1, h.1.2, h.1.3⟩, h.2, h.3, h.4, h.5⟩
        refine (node_ensures trivial _ st.myself).bind fun n hn => ?_
        have h : SameMf _ ((_ : ClusterState N).setNode st.myself
            { n with configEpoch := nextEpoch st.currentEpoch }) :=
          sameMf_setNode hn rfl fun _ => rfl
        exact ⟨⟨h.1.1, h.1.2, h.1.3⟩, h.2, h.3, h.4, h.5⟩
  · exact SameMf.refl st

/-- The header of a packet that a node sends. -/
structure HeaderOf (st : ClusterState N) (offset : ℤ) (hdr : ClusterMsg N) : Prop where
  named : Named hdr.sender st
  offset : hdr.offset = offset
  paused : hdr.paused = true → st.isMaster = true

theorem HeaderOf.of_keepsMf {st st' : ClusterState N} {target offset : ℤ} {hdr : ClusterMsg N}
    (h : KeepsMf target st st') (hhdr : HeaderOf st' offset hdr) : HeaderOf st offset hdr :=
  ⟨h.named.mp hhdr.named, hhdr.offset, fun hp => h.isMaster ▸ hhdr.paused hp⟩

theorem clusterBuildMessageHdr_headerOf (st : ClusterState N) (offset : ℤ) :
    (clusterBuildMessageHdr st offset).Ensures AnyFault (HeaderOf st offset) := by
  refine (node_ensures trivial st st.myself).bind fun me hme => ?_
  refine (node_ensures trivial st _).bind fun master _ => ?_
  refine Ensures.bind (Q := fun _ => True) ?_ fun slaveof _ => ?_
  · unfold nameOf
    split
    · trivial
    · exact (node_ensures trivial st _).bind fun _ _ => trivial
  · refine ⟨by rw [Named, hme]; rfl, rfl, fun hp => ?_⟩
    rw [isMaster, hme]
    exact (Bool.and_eq_true_iff.mp hp).1

theorem clusterSendFailoverAuth_headerOf (st : ClusterState N) (node : ClusterNode N)
    (offset : ℤ) : (clusterSendFailoverAuth st node offset).Ensures AnyFault fun ack =>
      ∀ hdr, ack = some hdr → HeaderOf st offset hdr := by
  rw [clusterSendFailoverAuth]
  split
  · refine (clusterBuildMessageHdr_headerOf st offset).bind fun hdr h => ?_
    rintro hdr' heq
    obtain rfl := Option.some_inj.mp heq
    exact h
  · intro hdr heq
    cases heq

section
variable [DecidableEq N]

/-- Whether the offset in a packet is taken. -/
def takesOffset (st : ClusterState N) (hdr : ClusterMsg N) : Bool :=
  match clusterLookupNode st hdr.sender with
  | none => false
  | some sender => match st.heap sender with
    | none => false
    | some n => !n.flags.handshake && takesFrom st sender hdr

/-- The offset that a manual failover waits for after a packet. -/
def targetOffset (st : ClusterState N) (hdr : ClusterMsg N) : ℤ :=
  if takesOffset st hdr then hdr.offset else st.mfMasterOffset

/-- What a packet may do to a manual failover. -/
def AfterPacket (st : ClusterState N) (hdr : ClusterMsg N) (st' : ClusterState N) : Prop :=
  KeepsMf (targetOffset st hdr) st st' ∨ LostRole st st'

theorem header_keepsMf {st : ClusterState N} {hdr : ClusterMsg N} {sender : NodeRef}
    {n : ClusterNode N} (hlookup : clusterLookupNode st hdr.sender = some sender)
    (hn : st.heap sender = some n) :
    (if n.flags.handshake then .ok st else updateEpochs st sender hdr :
      Result (ClusterState N)).Ensures AnyFault (KeepsMf (targetOffset st hdr) st) := by
  simp only [targetOffset, takesOffset, hlookup, hn]
  split
  · rename_i h
    rw [if_neg (by simp [h])]
    exact SameMf.refl st
  · rename_i h
    rw [Bool.not_eq_true] at h
    rw [h, Bool.not_false, Bool.true_and]
    exact updateEpochs_keepsMf st sender hdr

theorem targetOffset_of_lookup {st : ClusterState N} {hdr : ClusterMsg N}
    (hlookup : clusterLookupNode st hdr.sender = none) :
    targetOffset st hdr = st.mfMasterOffset := by
  simp only [targetOffset, takesOffset, hlookup]
  rfl

theorem afterPacket_of_lookup {st : ClusterState N} {hdr : ClusterMsg N}
    (hlookup : clusterLookupNode st hdr.sender = none) : AfterPacket st hdr st := by
  refine .inl ?_
  rw [targetOffset_of_lookup hlookup]
  exact SameMf.refl st

theorem AfterPacket.of_sameMf {st st₁ st' : ClusterState N} {hdr : ClusterMsg N}
    (h : KeepsMf (targetOffset st hdr) st st₁) (h' : SameMf st₁ st' ∨ LostRole st₁ st') :
    AfterPacket st hdr st' := by
  rcases h' with h' | h'
  · exact .inl (KeepsMf.trans h h')
  · exact .inr (LostRole.of_sameNames h.toSameNames h')

theorem name_of_lookup {st : ClusterState N} {name : N} {r : NodeRef}
    (htable : ManualFailover.TableOk st) (h : clusterLookupNode st name = some r) :
    (st.heap r).map ClusterNode.name = some name := by
  obtain ⟨e, he, rfl⟩ := Option.map_eq_some_iff.mp h
  have hname : e.1 = name := by simpa using List.find?_some he
  exact hname ▸ htable e (List.mem_of_find?_eq_some he)

theorem masterName_of_takesOffset {st : ClusterState N} {hdr : ClusterMsg N}
    (htable : ManualFailover.TableOk st) (h : takesOffset st hdr = true) :
    st.masterName = some hdr.sender := by
  cases hlookup : clusterLookupNode st hdr.sender with
  | none => simp [takesOffset, hlookup] at h
  | some r =>
    have hname := name_of_lookup htable hlookup
    cases hn : st.heap r with
    | none => simp [takesOffset, hlookup, hn] at h
    | some n =>
      cases hme : st.heap st.myself with
      | none => simp [takesOffset, takesFrom, hlookup, hn, hme] at h
      | some me =>
        simp only [takesOffset, takesFrom, hlookup, hn, hme, Bool.and_eq_true,
          decide_eq_true_eq] at h
        rw [hn, Option.map_some] at hname
        simp only [masterName, hme, h.2.2.2.1, Option.bind_eq_bind, Option.bind_some, hn, hname]

theorem paused_of_takesOffset {st : ClusterState N} {hdr : ClusterMsg N}
    (h : takesOffset st hdr = true) : hdr.paused = true := by
  rw [takesOffset] at h
  split at h
  · cases h
  split at h
  · cases h
  have htakes := (Bool.and_eq_true_iff.mp h).2
  rw [takesFrom] at htakes
  split at htakes
  · exact (of_decide_eq_true htakes).2.2.2.1
  · cases htakes

theorem clusterProcessPing_afterPacket {L : Type} [LinearOrder L] {st : ClusterState L}
    {hdr : ClusterMsg L} (hsender : clusterLookupNode st hdr.sender ≠ some st.myself) :
    (clusterProcessPing st hdr).Ensures AnyFault (AfterPacket st hdr) := by
  rw [clusterProcessPing]
  split
  · rename_i hlookup
    exact afterPacket_of_lookup hlookup
  · rename_i sender hlookup
    refine (node_ensures trivial st sender).bind fun n hn => ?_
    refine (header_keepsMf hlookup hn).bind fun st₁ h₁ => ?_
    have hne : sender ≠ st₁.myself := by
      rintro rfl
      rw [h₁.myself] at hlookup
      exact hsender hlookup
    refine (roleSwitch_sameMf hne hdr).bind fun st₂ h₂ => ?_
    have h := KeepsMf.trans h₁ h₂
    refine (updateSlots_mf st₂ sender _ hdr).bind fun st₃ h₃ => ?_
    refine (checkCollision_sameMf st₃ sender _).imp fun st₄ h₄ => ?_
    exact .of_sameMf h (h₃.imp (KeepsMf.trans · h₄) (LostRole.sameMf · h₄))

theorem clusterProcessUpdate_afterPacket {st : ClusterState N} {hdr : ClusterMsg N} {name : N}
    (hname : clusterLookupNode st name ≠ some st.myself) (reportedConfigEpoch : ℕ)
    (slots : Slot → Bool) :
    (clusterProcessUpdate st hdr name reportedConfigEpoch slots).Ensures AnyFault
      (AfterPacket st hdr) := by
  rw [clusterProcessUpdate]
  split
  · rename_i hlookup
    exact afterPacket_of_lookup hlookup
  · rename_i sender hlookup
    refine (node_ensures trivial st sender).bind fun n hn => ?_
    refine (header_keepsMf hlookup hn).bind fun st₁ h₁ => ?_
    split
    · exact .inl h₁
    · rename_i r hr
      refine (node_ensures trivial st₁ r).bind fun n₁ hn₁ => ?_
      split
      · exact .inl h₁
      · have hne : r ≠ st₁.myself := by
          intro heq
          have hsame : clusterLookupNode st₁ name = clusterLookupNode st name := by
            rw [clusterLookupNode, clusterLookupNode, h₁.nodes]
          rw [hsame, heq, h₁.myself] at hr
          exact hname hr
        refine Ensures.bind (Q := SameMf st₁) ?_ fun st₂ h₂ => ?_
        · split
          · exact clusterSetNodeAsMaster_sameMf hne
          · exact SameMf.refl st₁
        refine Ensures.bind (sameMf_modifyNode st₂ r (fun _ => rfl) fun _ _ => rfl)
          fun st₃ h₃ => ?_
        have h := KeepsMf.trans (KeepsMf.trans h₁ h₂) h₃
        have h' : KeepsMf (targetOffset st hdr) st (todoSaveFsync st₃) :=
          ⟨⟨h.1.1, h.1.2, h.1.3⟩, h.2, h.3, h.4, h.5⟩
        exact (clusterUpdateSlotsConfigWith_mf (todoSaveFsync st₃) r _ slots).imp fun _ =>
          .of_sameMf h'

theorem clusterProcessAuthRequest_afterPacket (st : ClusterState N) (hdr : ClusterMsg N)
    (env : VoteEnv) : (clusterProcessAuthRequest st hdr env).Ensures AnyFault
      fun p => AfterPacket st hdr p.1 ∧
        ∀ ack, p.2 = .granted (some ack) → HeaderOf st env.offset ack := by
  have hdenied : ∀ ack, (.denied : Vote N) = .granted (some ack) → HeaderOf st env.offset ack := by
    intro ack h
    cases h
  rw [clusterProcessAuthRequest]
  split
  · rename_i hlookup
    exact ⟨afterPacket_of_lookup hlookup, hdenied⟩
  · rename_i sender hlookup
    refine (node_ensures trivial st sender).bind fun n hn => ?_
    refine (header_keepsMf hlookup hn).bind fun st₁ h₁ => ?_
    refine (node_ensures trivial st₁ sender).bind fun node _ => ?_
    refine (node_ensures trivial st₁ st₁.myself).bind fun me _ => ?_
    split
    · exact ⟨.inl h₁, hdenied⟩
    split
    · exact ⟨.inl h₁, hdenied⟩
    split
    · exact ⟨.inl h₁, hdenied⟩
    split
    · exact ⟨.inl h₁, hdenied⟩
    rename_i m _
    refine (node_ensures trivial st₁ m).bind fun master _ => ?_
    split
    · exact ⟨.inl h₁, hdenied⟩
    split
    · exact ⟨.inl h₁, hdenied⟩
    refine Ensures.bind (Q := fun _ => True) (Ensures.foldlM ?_ trivial) fun stale _ => ?_
    · rintro stale slot - -
      split
      · trivial
      split
      · split
        · trivial
        · exact (node_ensures trivial st₁ _).bind fun _ _ => trivial
      · trivial
    split
    · exact ⟨.inl h₁, hdenied⟩
    refine (clusterSendFailoverAuth_headerOf st₁ node env.offset).bind fun ack hack => ?_
    refine Ensures.bind (Q := fun st' => KeepsMf (targetOffset st hdr) st st') ?_
      fun st₂ h₂ => ⟨.inl h₂, fun ack' heq => ?_⟩
    swap
    · cases heq
      exact (hack ack' rfl).of_keepsMf h₁
    refine (node_ensures trivial _ m).bind fun n hn => ?_
    have h : SameMf _ ((_ : ClusterState N).setNode m { n with votedTime := env.now }) :=
      sameMf_setNode hn rfl fun _ => rfl
    exact KeepsMf.trans h₁ ⟨⟨h.1.1, h.1.2, h.1.3⟩, h.2, h.3, h.4, h.5⟩

theorem clusterProcessAuthAck_afterPacket (st : ClusterState N) (hdr : ClusterMsg N) :
    (clusterProcessAuthAck st hdr).Ensures AnyFault (AfterPacket st hdr) := by
  rw [clusterProcessAuthAck]
  split
  · rename_i hlookup
    exact afterPacket_of_lookup hlookup
  · rename_i sender hlookup
    refine (node_ensures trivial st sender).bind fun n hn => ?_
    refine (header_keepsMf hlookup hn).bind fun st₁ h₁ => ?_
    refine (node_ensures trivial st₁ sender).bind fun n₁ _ => ?_
    cases countsAck st₁ n₁ (if n.flags.handshake then 0 else hdr.currentEpoch) with
    | true => exact .inl ⟨⟨h₁.1.1, h₁.1.2, h₁.1.3⟩, h₁.2, h₁.3, h₁.4, h₁.5⟩
    | false => exact .inl h₁

theorem clusterProcessMfstart_spec (st : ClusterState N) (hdr : ClusterMsg N) (mfEnd : ℤ) :
    (clusterProcessMfstart st hdr mfEnd).Ensures AnyFault fun st' =>
      if isSlaveOfMe st hdr.sender then SameNames st st' ∧ st'.mfEnd = mfEnd ∧
        st'.mfCanStart = false ∧ st'.mfMasterOffset = 0 ∧ st'.isMaster = st.isMaster ∧
        st'.masterName = st.masterName
      else AfterPacket st hdr st' := by
  rw [clusterProcessMfstart]
  split
  · rename_i hlookup
    simp only [isSlaveOfMe, hlookup]
    exact afterPacket_of_lookup hlookup
  · rename_i sender hlookup
    refine (node_ensures trivial st sender).bind fun n hn => ?_
    simp only [isSlaveOfMe, hlookup, hn]
    have hslaveof : (if n.flags.handshake then .ok st else updateEpochs st sender hdr :
        Result (ClusterState N)).Ensures AnyFault fun st' =>
          ∀ r, (st'.heap r).map ClusterNode.slaveof = (st.heap r).map ClusterNode.slaveof := by
      split
      · exact fun _ => rfl
      · exact updateEpochs_slaveof st sender hdr
    refine ((header_keepsMf hlookup hn).and hslaveof).bind fun st₁ h₁₁ => ?_
    obtain ⟨h₁, h₁'⟩ := h₁₁
    refine (node_ensures trivial st₁ sender).bind fun n₁ hn₁ => ?_
    have heq : n₁.slaveof = n.slaveof := by
      have h := h₁' sender
      rw [hn₁, hn] at h
      exact Option.some_inj.mp h
    rw [heq, h₁.myself]
    split
    · rename_i hne
      rw [ensures_ok, if_neg (by simpa using hne)]
      exact .inl h₁
    · rename_i hslave
      rw [not_not] at hslave
      rw [ensures_ok, if_pos (by simpa using hslave)]
      exact ⟨⟨h₁.1.1, h₁.1.2, h₁.1.3⟩, rfl, rfl, rfl, h₁.isMaster, h₁.masterName⟩

end

/-! ### The steps of a slave -/

/-- What a call of `clusterHandleSlaveFailover` does to a manual failover. -/
def MfOutcome (st : ClusterState N) (offset : ℤ) (st' : ClusterState N) :
    FailoverStep N → Prop
  | .idle => SameMf st st'
  | .scheduled => SameMf st st'
  | .requested request _ => SameMf st st' ∧ HeaderOf st offset request
  | .promoted => SameNames st st' ∧ st'.mfEnd = 0

theorem MfOutcome.of_sameMf {st st₁ st' : ClusterState N} {offset : ℤ} {step : FailoverStep N}
    (h : SameMf st st₁) (ho : MfOutcome st₁ offset st' step) : MfOutcome st offset st' step := by
  cases step with
  | idle => exact KeepsMf.trans h ho
  | scheduled => exact KeepsMf.trans h ho
  | requested request targets =>
    obtain ⟨hsame, hhdr⟩ := ho
    exact ⟨KeepsMf.trans h hsame, hhdr.of_keepsMf h⟩
  | promoted => exact ⟨h.toSameNames.trans ho.1, ho.2⟩

theorem updateRank_sameMf (st : ClusterState N) (env : FailoverEnv) :
    (updateRank st env).Ensures AnyFault (SameMf st) := by
  rw [updateRank]
  split
  · refine (clusterGetSlaveRank_total st env.offset).bind fun newrank _ => ?_
    split
    · exact ⟨⟨rfl, rfl, fun _ => rfl⟩, rfl, rfl, rfl, rfl⟩
    · exact SameMf.refl st
  · exact SameMf.refl st

theorem scheduleElection_sameMf (st : ClusterState N) (env : FailoverEnv) :
    (scheduleElection st env).Ensures AnyFault (SameMf st) := by
  refine (clusterGetSlaveRank_total st env.offset).bind fun rank _ => ?_
  dsimp only
  split <;> exact ⟨⟨rfl, rfl, fun _ => rfl⟩, rfl, rfl, rfl, rfl⟩

theorem requestVotes_mf (st : ClusterState N) (env : FailoverEnv) :
    (requestVotes st env).Ensures AnyFault fun p => MfOutcome st env.offset p.1 p.2 := by
  rw [requestVotes]
  dsimp only
  refine Ensures.bind (Q := HeaderOf st env.offset) ?_ fun request h => ?_
  · refine (clusterBuildMessageHdr_headerOf _ env.offset).bind fun hdr h => ?_
    exact ⟨h.named, h.offset, h.paused⟩
  · refine Ensures.bind (Q := fun _ => True) ?_ fun targets _ => ?_
    · refine Ensures.foldlM ?_ trivial
      rintro targets e - -
      exact (node_ensures trivial _ e.2).bind fun _ _ => trivial
    · exact ⟨⟨⟨rfl, rfl, fun _ => rfl⟩, rfl, rfl, rfl, rfl⟩, h⟩

theorem clusterFailoverPromote_mf (st : ClusterState N) (oldmaster : NodeRef) :
    (clusterFailoverPromote st oldmaster).Ensures AnyFault fun st' =>
      SameNames st st' ∧ st'.mfEnd = 0 := by
  refine (clusterSetNodeAsMaster_sameNames st st.myself).bind fun st₁ h₁ => ?_
  refine Ensures.bind (Q := SameNames st) (Ensures.foldlM ?_ h₁) fun st₂ h₂ => ?_
  · rintro st' slot - h'
    refine Ensures.bind (Q := fun _ => True)
      ((node_ensures trivial st' oldmaster).bind fun _ _ => trivial) fun bit _ => ?_
    split
    · refine (clusterDelSlot_sameMf st' slot).bind fun p hp => ?_
      exact (clusterAddSlot_sameMf p.1 p.1.myself slot).bind fun q hq =>
        (h'.trans hp.toSameNames).trans hq.toSameNames
    · exact h'
  · refine Ensures.bind (Q := SameNames st) ?_ fun st₃ h₃ => ⟨⟨h₃.1, h₃.2, h₃.3⟩, rfl⟩
    exact (node_ensures trivial st₂ st₂.myself).bind fun me hme =>
      h₂.trans ⟨rfl, rfl, keepsElection_update hme rfl rfl⟩

theorem continueElection_mf (st : ClusterState N) (env : FailoverEnv) (authAge : ℤ) :
    (continueElection st env authAge).Ensures AnyFault fun p =>
      MfOutcome st env.offset p.1 p.2 := by
  refine (updateRank_sameMf st env).bind fun st₁ h₁ => ?_
  split
  · exact h₁
  split
  · exact h₁
  split
  · exact (requestVotes_mf st₁ env).imp fun p hp => hp.of_sameMf h₁
  · split
    · refine (node_ensures trivial st₁ st₁.myself).bind fun me _ => ?_
      split
      · trivial
      · refine (clusterFailoverPromote_mf st₁ _).bind fun st₂ h₂ => ?_
        exact ⟨h₁.toSameNames.trans h₂.1, h₂.2⟩
    · exact h₁

theorem clusterHandleSlaveFailover_mf (st : ClusterState N) (env : FailoverEnv) :
    (clusterHandleSlaveFailover st env).Ensures AnyFault fun p =>
      MfOutcome st env.offset p.1 p.2 := by
  let st₁ : ClusterState N := { st with todoHandleFailover := false }
  have h₁ : SameMf st st₁ := ⟨⟨rfl, rfl, fun _ => rfl⟩, rfl, rfl, rfl, rfl⟩
  rw [clusterHandleSlaveFailover]
  refine (node_ensures trivial st₁ st₁.myself).bind fun me _ => ?_
  refine Ensures.bind (Q := fun _ => True) ?_ fun may _ => ?_
  · unfold mayFailover
    split
    · trivial
    · split
      · trivial
      · exact (node_ensures trivial st₁ _).bind fun _ _ => trivial
  split
  · exact h₁
  split
  · exact h₁
  split
  · refine (scheduleElection_sameMf st₁ env).bind fun st₂ h₂ => ?_
    exact KeepsMf.trans h₁ h₂
  · exact (continueElection_mf st₁ env _).imp fun p hp => hp.of_sameMf h₁

end ClusterState

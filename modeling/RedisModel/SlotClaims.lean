/-
What a heartbeat does to the slot table.

* `SameTable` — the slots are bound as before and no slot is imported that was not;
* `Rebinds` — what becomes of a slot: the claim of the sender wins against an owner with a
  smaller configuration epoch, unless the slot is being imported;
* `clusterUpdateSlotsConfigWith_table`, `clusterProcessPing_table` — every slot.
-/
import RedisModel.ConfigEpochs

open Except

namespace ClusterState

variable {N : Type}

/-! ### Functions that leave the table alone -/

/-- The table is the same, and no slot is imported that was not. -/
structure SameTable (st st' : ClusterState N) : Prop where
  slots : st'.slots = st.slots
  imports : ∀ slot, st.importingSlotsFrom slot = none → st'.importingSlotsFrom slot = none

theorem SameTable.refl (st : ClusterState N) : SameTable st st := ⟨rfl, fun _ => id⟩

theorem SameTable.trans {st₁ st₂ st₃ : ClusterState N} (h : SameTable st₁ st₂)
    (h' : SameTable st₂ st₃) : SameTable st₁ st₃ :=
  ⟨h'.slots.trans h.slots, fun slot hslot => h'.imports slot (h.imports slot hslot)⟩

theorem modifyNode_sameTable (st : ClusterState N) (r : NodeRef)
    (f : ClusterNode N → ClusterNode N) :
    (st.modifyNode r f).Ensures AnyFault (SameTable st) :=
  (node_ensures trivial st r).bind fun _ _ => ⟨rfl, fun _ => id⟩

theorem clusterNodeRemoveSlave_sameTable (st : ClusterState N) (master slave : NodeRef) :
    (clusterNodeRemoveSlave st master slave).Ensures AnyFault (SameTable st) := by
  refine (node_ensures trivial st master).bind fun n _ => ?_
  dsimp only
  split
  · split
    · exact ⟨rfl, fun _ => id⟩
    · trivial
  · exact SameTable.refl st

theorem leaveMaster_sameTable (st : ClusterState N) (master : Option NodeRef) (slave : NodeRef) :
    (leaveMaster st master slave).Ensures AnyFault (SameTable st) := by
  cases master with
  | none => exact SameTable.refl st
  | some m => exact clusterNodeRemoveSlave_sameTable st m slave

theorem clusterNodeAddSlave_sameTable (st : ClusterState N) (master slave : NodeRef) :
    (clusterNodeAddSlave st master slave).Ensures AnyFault (SameTable st) := by
  refine (node_ensures trivial st master).bind fun n _ => ?_
  split
  · exact SameTable.refl st
  · exact ⟨rfl, fun _ => id⟩

theorem clusterSetNodeAsMaster_sameTable (st : ClusterState N) (r : NodeRef) :
    (clusterSetNodeAsMaster st r).Ensures AnyFault (SameTable st) := by
  refine (node_ensures trivial st r).bind fun n _ => ?_
  split
  · exact SameTable.refl st
  · refine (leaveMaster_sameTable st n.slaveof r).bind fun st₁ h₁ => ?_
    refine (modifyNode_sameTable st₁ r _).bind fun st₂ h₂ => ?_
    have h := h₁.trans h₂
    exact ⟨h.slots, h.imports⟩

theorem leaveRole_sameTable (st : ClusterState N) (me : ClusterNode N) :
    (leaveRole st me).Ensures AnyFault (SameTable st) := by
  rw [leaveRole]
  split
  · refine (modifyNode_sameTable st st.myself _).bind fun st₁ h => ?_
    exact ⟨h.slots, fun _ _ => rfl⟩
  · exact leaveMaster_sameTable st me.slaveof st.myself

theorem clusterSetMaster_sameTable (st : ClusterState N) (r : NodeRef) :
    (clusterSetMaster st r).Ensures AnyFault (SameTable st) := by
  refine (redisAssert_anyFault _ _).bind fun _ _ => ?_
  refine (node_ensures trivial st st.myself).bind fun me _ => ?_
  refine (redisAssert_anyFault _ _).bind fun _ _ => ?_
  refine (leaveRole_sameTable st me).bind fun st₁ h₁ => ?_
  refine (modifyNode_sameTable st₁ st₁.myself _).bind fun st₂ h₂ => ?_
  refine (clusterNodeAddSlave_sameTable st₂ r st₂.myself).bind fun st₃ h₃ => ?_
  have h := (h₁.trans h₂).trans h₃
  exact ⟨h.slots, h.imports⟩

theorem updateEpochs_sameTable (st : ClusterState N) (sender : NodeRef) (hdr : ClusterMsg N) :
    (updateEpochs st sender hdr).Ensures AnyFault (SameTable st) := by
  rw [updateEpochs]
  dsimp only
  generalize hst₁ : (if hdr.currentEpoch > st.currentEpoch then
    { st with currentEpoch := hdr.currentEpoch } else st) = st₁
  have h₁ : SameTable st st₁ := by
    rw [← hst₁]
    split
    · exact ⟨rfl, fun _ => id⟩
    · exact SameTable.refl st
  refine (node_ensures trivial st₁ sender).bind fun n _ => ?_
  refine (modifyNode_sameTable _ sender _).bind fun st₂ h₂ => ?_
  refine (node_ensures trivial st₂ st₂.myself).bind fun me _ => ?_
  have h : SameTable st st₂ := by
    refine h₁.trans (SameTable.trans ?_ h₂)
    split
    · exact ⟨rfl, fun _ => id⟩
    · exact SameTable.refl st₁
  split
  · exact ⟨h.slots, h.imports⟩
  · exact h

theorem checkCollision_sameTable [LinearOrder N] (st : ClusterState N) (sender : NodeRef)
    (senderConfigEpoch : ℕ) :
    (checkCollision st sender senderConfigEpoch).Ensures AnyFault (SameTable st) := by
  refine (node_ensures trivial st sender).bind fun _ _ => ?_
  refine (node_ensures trivial st st.myself).bind fun _ _ => ?_
  split
  · refine (node_ensures trivial st sender).bind fun n _ => ?_
    refine (node_ensures trivial st st.myself).bind fun me _ => ?_
    split
    · exact SameTable.refl st
    · split
      · exact SameTable.refl st
      · refine (modifyNode_sameTable _ _ _).bind fun st₁ h₁ => ?_
        exact ⟨h₁.slots, h₁.imports⟩
  · exact SameTable.refl st

/-! ### Slots claimed by the sender -/

/-- The slot has no owner, or one with a configuration epoch smaller than that of the
sender, or it is the sender's already. -/
def Outdated (st : ClusterState N) (sender : NodeRef) (epoch : ℕ) (slot : Slot) : Prop :=
  ∀ o, st.slots slot = some o → o = sender ∨ ∃ n, st.heap o = some n ∧ n.configEpoch < epoch

/-- What becomes of a slot when the sender announces its slots with its epoch. -/
structure Rebinds (st : ClusterState N) (sender : NodeRef) (epoch : ℕ) (bits : Slot → Bool)
    (slot : Slot) (owner : Option NodeRef) : Prop where
  becomes : owner = st.slots slot ∨
    (owner = some sender ∧ bits slot = true ∧ Outdated st sender epoch slot)
  takes : bits slot = true → st.importingSlotsFrom slot = none → Outdated st sender epoch slot →
    owner = some sender

theorem Rebinds.congr {st st₁ : ClusterState N} {sender : NodeRef} {epoch : ℕ} {bits : Slot → Bool}
    {slot : Slot} {owner : Option NodeRef} (hslots : st₁.slots slot = st.slots slot)
    (himports : st.importingSlotsFrom slot = none → st₁.importingSlotsFrom slot = none)
    (hepochs : ∀ o, o ≠ sender → epochOf st₁ o = epochOf st o)
    (h : Rebinds st₁ sender epoch bits slot owner) : Rebinds st sender epoch bits slot owner := by
  have hout : Outdated st₁ sender epoch slot ↔ Outdated st sender epoch slot := by
    have hsmaller : ∀ (st : ClusterState N) o, (∃ n, st.heap o = some n ∧ n.configEpoch < epoch) ↔
        ∃ e, epochOf st o = some e ∧ e < epoch := by
      intro st o
      simp [epochOf]
    simp only [Outdated, hslots, hsmaller]
    refine forall_congr' fun o => imp_congr_right fun _ => ?_
    by_cases ho : o = sender
    · simp [ho]
    · rw [hepochs o ho]
  constructor
  · rw [← hslots, ← hout]
    exact h.becomes
  · intro hbit himport hold
    exact h.takes hbit (himports himport) (hout.mpr hold)

theorem clusterDelSlot_slots (st : ClusterState N) (slot : Slot) :
    (clusterDelSlot st slot).Ensures AnyFault fun p =>
      p.1.slots = Function.update st.slots slot none ∧
        p.1.importingSlotsFrom = st.importingSlotsFrom := by
  rw [clusterDelSlot]
  split
  · rename_i hslot
    exact ⟨by rw [← hslot, Function.update_eq_self], rfl⟩
  · refine Ensures.bind (Q := fun p => p.1.slots = st.slots ∧
      p.1.importingSlotsFrom = st.importingSlotsFrom)
      ((node_ensures trivial st _).bind fun _ _ => ⟨rfl, rfl⟩) fun p hp => ?_
    refine (redisAssert_anyFault _ _).bind fun _ _ => ?_
    exact ⟨by rw [← hp.1], hp.2⟩

theorem clusterAddSlot_slots (st : ClusterState N) (r : NodeRef) {slot : Slot}
    (hslot : st.slots slot = none) : (clusterAddSlot st r slot).Ensures AnyFault fun p =>
      p.1.slots = Function.update st.slots slot (some r) ∧
        p.1.importingSlotsFrom = st.importingSlotsFrom := by
  rw [clusterAddSlot, hslot]
  refine Ensures.bind (Q := fun p => p.1.slots = st.slots ∧
    p.1.importingSlotsFrom = st.importingSlotsFrom)
    ((node_ensures trivial st r).bind fun _ _ => ⟨rfl, rfl⟩) fun p hp => ?_
  exact ⟨by rw [← hp.1], hp.2⟩

theorem slotIsOutdated_spec (st : ClusterState N) {sender : NodeRef} {slot : Slot}
    (hne : st.slots slot ≠ some sender) (epoch : ℕ) :
    (slotIsOutdated st slot epoch).Ensures AnyFault fun b =>
      b = true ↔ Outdated st sender epoch slot := by
  unfold slotIsOutdated
  split
  · rename_i hnone
    simp [Outdated, hnone]
  · rename_i o ho
    refine (node_ensures trivial st o).bind fun n hn => ?_
    have hsender : o ≠ sender := fun heq => hne (heq ▸ ho)
    simp [Outdated, ho, hsender, hn]

theorem updateSlot_table {sender : NodeRef} {epoch : ℕ} {bits : Slot → Bool}
    {curmaster : Option NodeRef} (acc : ClusterState N × Bool × List Slot) (slot : Slot) :
    (updateSlot sender epoch bits curmaster acc slot).Ensures AnyFault fun acc' =>
      acc'.1.importingSlotsFrom = acc.1.importingSlotsFrom ∧
        (∀ s, s ≠ slot → acc'.1.slots s = acc.1.slots s) ∧
        Rebinds acc.1 sender epoch bits slot (acc'.1.slots slot) := by
  obtain ⟨st, newmaster, dirty⟩ := acc
  rw [updateSlot]
  dsimp only
  split
  · split
    · rename_i hsender
      exact ⟨rfl, fun _ _ => rfl, Or.inl rfl, fun _ _ _ => hsender⟩
    · rename_i hne
      split
      · rename_i himport
        refine ⟨rfl, fun _ _ => rfl, Or.inl rfl, fun _ hnone => ?_⟩
        simp [hnone] at himport
      · refine (slotIsOutdated_spec st hne epoch).bind fun outdated hout => ?_
        split
        · rename_i hbit _ htrue
          refine (clusterDelSlot_slots st slot).bind fun p₁ h₁ => ?_
          have hfree : p₁.1.slots slot = none := by rw [h₁.1, Function.update_self]
          refine (clusterAddSlot_slots p₁.1 sender hfree).bind fun p₂ h₂ => ?_
          refine ⟨h₂.2.trans h₁.2, fun s hs => ?_, ?_⟩
          · show p₂.1.slots s = _
            rw [h₂.1, Function.update_of_ne hs, h₁.1, Function.update_of_ne hs]
          · show Rebinds st sender epoch bits slot (p₂.1.slots slot)
            rw [h₂.1, Function.update_self]
            exact ⟨Or.inr ⟨rfl, hbit, hout.mp htrue⟩, fun _ _ _ => rfl⟩
        · rename_i hfalse
          exact ⟨rfl, fun _ _ => rfl, Or.inl rfl, fun _ _ hold => absurd (hout.mpr hold) hfalse⟩
  · rename_i hbit
    exact ⟨rfl, fun _ _ => rfl, Or.inl rfl, fun htrue => absurd htrue hbit⟩

/-- Every slot of the table after an announcement. -/
def Rebound (st : ClusterState N) (sender : NodeRef) (epoch : ℕ) (bits : Slot → Bool)
    (st' : ClusterState N) : Prop :=
  (∀ slot, st.importingSlotsFrom slot = none → st'.importingSlotsFrom slot = none) ∧
    ∀ slot, Rebinds st sender epoch bits slot (st'.slots slot)

theorem clusterUpdateSlotsConfigWith_table (st : ClusterState N) {sender : NodeRef}
    (hsender : sender ≠ st.myself) (epoch : ℕ) (bits : Slot → Bool) :
    (clusterUpdateSlotsConfigWith st sender epoch bits).Ensures AnyFault
      (Rebound st sender epoch bits) := by
  refine Ensures.bind (Q := fun _ => True)
    ((node_ensures trivial st _).bind fun _ _ => trivial) fun cm _ => ?_
  rw [if_neg hsender]
  -- the slots before the current one are as they will be, the others as they were
  refine Ensures.bind (Q := fun acc => acc.1.importingSlotsFrom = st.importingSlotsFrom ∧
      ∀ slot, Rebinds st sender epoch bits slot (acc.1.slots slot)) ?_ fun acc hacc => ?_
  · have hloop : (allSlots.foldlM (updateSlot sender epoch bits cm) (st, false, [])).Ensures
        AnyFault fun acc => (SameEpochs st acc.1 ∧
          acc.1.importingSlotsFrom = st.importingSlotsFrom) ∧
          (∀ slot, slot ∉ allSlots → acc.1.slots slot = st.slots slot) ∧
          ∀ slot ∈ allSlots, Rebinds st sender epoch bits slot (acc.1.slots slot) := by
      refine Ensures.foldlM_prefix (I := fun done (acc : ClusterState N × Bool × List Slot) => (SameEpochs st acc.1 ∧
        acc.1.importingSlotsFrom = st.importingSlotsFrom) ∧
        (∀ slot, slot ∉ done → acc.1.slots slot = st.slots slot) ∧
        ∀ slot ∈ done, Rebinds st sender epoch bits slot (acc.1.slots slot)) ?_ ?_
      · intro done slot rest acc hall hinv
        obtain ⟨⟨hepochs, himports⟩, hrest, hdone⟩ := hinv
        have hnew : slot ∉ done := by
          have hnodup := nodup_allSlots
          rw [hall] at hnodup
          intro hmem
          exact (List.nodup_append.mp hnodup).2.2 slot hmem slot List.mem_cons_self rfl
        refine ((updateSlot_sameEpochs sender epoch bits cm acc slot).and
          (updateSlot_table acc slot)).imp fun acc' hacc' => ?_
        obtain ⟨hepochs', himports', hothers, hslot⟩ := hacc'
        refine ⟨⟨hepochs.trans hepochs', himports'.trans himports⟩, fun s hs => ?_, fun s hs => ?_⟩
        · rw [List.mem_append, List.mem_singleton, not_or] at hs
          rw [hothers s hs.2, hrest s hs.1]
        · rcases List.mem_append.mp hs with hs | hs
          · rw [hothers s fun heq => hnew (heq ▸ hs)]
            exact hdone s hs
          · obtain rfl := List.mem_singleton.mp hs
            refine hslot.congr (hrest s hnew) (fun hnone => ?_) fun o _ => hepochs.epochOf o
            rwa [himports]
      · exact ⟨⟨SameEpochs.refl st, rfl⟩, fun _ _ => rfl, fun _ hs => absurd hs List.not_mem_nil⟩
    exact hloop.imp fun acc hacc => ⟨hacc.1.2, fun slot => hacc.2.2 slot (mem_allSlots slot)⟩
  refine Ensures.bind (Q := fun _ => True) ?_ fun lost _ => ?_
  · unfold curmasterLost
    split
    · split
      · exact (node_ensures trivial _ _).bind fun _ _ => trivial
      · trivial
    · trivial
  split
  · refine (clusterSetMaster_sameTable acc.1 sender).bind fun st₂ h₂ => ?_
    refine ⟨fun slot hnone => ?_, fun slot => ?_⟩
    · exact h₂.imports slot (hacc.1 ▸ hnone)
    · show Rebinds st sender epoch bits slot (st₂.slots slot)
      rw [h₂.slots]
      exact hacc.2 slot
  · exact ⟨fun slot hnone => hacc.1 ▸ hnone, hacc.2⟩

theorem updateSlots_table {st : ClusterState N} (hok : SlotsOk st) {sender : NodeRef}
    (hsender : sender ≠ st.myself) (hmaster : role st sender = some true) (epoch : ℕ)
    (hdr : ClusterMsg N) :
    (updateSlots st sender epoch hdr).Ensures AnyFault (Rebound st sender epoch hdr.myslots) := by
  refine Ensures.bind (Q := fun dirty => dirty = false → ∀ n, st.heap sender = some n →
    n.slots = hdr.myslots) ?_ fun dirty hdirty => ?_
  · refine (node_ensures trivial st sender).bind fun n hn => ?_
    have hn' : n.flags.master = true := by
      rw [role, hn] at hmaster
      exact Option.some_inj.mp hmaster
    rw [if_pos hn']
    refine (node_ensures trivial st sender).bind fun m hm hfalse k hk => ?_
    obtain rfl := Option.some_inj.mp (hm.symm.trans hk)
    simpa using hfalse
  refine (node_ensures trivial st sender).bind fun n hn => ?_
  have hn' : n.flags.master = true := by
    rw [role, hn] at hmaster
    exact Option.some_inj.mp hmaster
  split
  · exact clusterUpdateSlotsConfigWith_table st hsender epoch hdr.myslots
  · rename_i hclean
    -- the sender announces the slots that are bound to it
    have hfalse : dirty = false := by simpa [hn'] using hclean
    refine ⟨fun _ => id, fun slot => ⟨Or.inl rfl, fun hbit _ _ => ?_⟩⟩
    exact hok.bitmap sender n slot hn (by rw [hdirty hfalse n hn, hbit])

theorem clusterProcessPing_table [LinearOrder N] {st : ClusterState N} (hgood : Good st)
    {hdr : ClusterMsg N} {r : NodeRef} {n : ClusterNode N}
    (hlookup : clusterLookupNode st hdr.sender = some r) (hknown : KnownAs st hdr.sender r n)
    (hslaveof : hdr.slaveof = none) :
    (clusterProcessPing st hdr).Ensures AnyFault (Rebound st r hdr.configEpoch hdr.myslots) := by
  simp only [clusterProcessPing, hlookup, node_eq_ok hknown.heap, ok_bind, hknown.handshake,
    Bool.false_eq_true, if_false]
  have hsame := (updateEpochs_sameSlots st r hdr).mono (F := AnyFault) (fun _ _ => trivial)
    fun _ h => h
  refine Ensures.bind (Q := fun st₁ => SameEpochs (st.withEpochs r n hdr) st₁ ∧
    SameSlots st st₁ ∧ SameTable st st₁) ((updateEpochs_spec hknown.heap hdr).and
      (hsame.and (updateEpochs_sameTable st r hdr))) fun st₁ h₁ => ?_
  obtain ⟨hepochs₁, hslots₁, htable₁⟩ := h₁
  rw [roleSwitch, hslaveof]
  refine ((clusterSetNodeAsMaster_spec trivial (hslots₁.good hgood) r).and
    ((clusterSetNodeAsMaster_sameEpochs st₁ r).and
      (clusterSetNodeAsMaster_sameTable st₁ r))).bind fun st₂ h₂ => ?_
  obtain ⟨⟨hgood₂, hmyself₂, m, hm, hmaster⟩, hepochs₂, htable₂⟩ := h₂
  have hmyself : st₂.myself = st.myself := hmyself₂.trans hslots₁.myself
  have hrole : role st₂ r = some true := by
    rw [role, hm, Option.map_some, hmaster]
  refine (updateSlots_table hgood₂.slotsOk (hmyself.symm ▸ hknown.ne) hrole hdr.configEpoch
    hdr).bind fun st₃ h₃ => ?_
  refine (checkCollision_sameTable st₃ r hdr.configEpoch).imp fun st₄ h₄ => ?_
  have htable := htable₁.trans htable₂
  have hepochs := hepochs₁.trans hepochs₂
  refine ⟨fun slot hnone => h₄.imports slot (h₃.1 slot (htable.imports slot hnone)), fun slot => ?_⟩
  rw [h₄.slots]
  refine (h₃.2 slot).congr (congrFun htable.slots slot) (htable.imports slot) fun o ho => ?_
  rw [hepochs.epochOf o, withEpochs_epochOf, if_neg ho]

end ClusterState

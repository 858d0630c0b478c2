/-
The slot table of a cluster node.

Which node serves a slot is stored three times: in the table `slots`, in the bitmap of
the node and in its counter `numslots`.

* `SlotsOk` — the three agree;
* `Good` — and a node that is not a master serves no slot itself;
* `clusterDelSlot_spec`, `clusterAddSlot_spec` — one slot;
* `clusterSetMaster_spec`, `clusterUpdateSlotsConfigWith_good` — changes of role, and
  slots claimed by another node.
-/
import Mathlib.Data.Fintype.Card
import Mathlib.Tactic.Ring
import RedisModel.ClusterPacket
import RedisModel.Ensures

open Except

namespace ClusterState

variable {N : Type} {E : Fault → Prop}

/-! ### Counting bits -/

/-- The number of bits set in a bitmap. -/
def slotCount (bits : Slot → Bool) : ℤ := (Finset.univ.filter fun j => bits j = true).card

theorem slotCount_set {bits : Slot → Bool} {j : Slot} (h : bits j = false) :
    slotCount (Function.update bits j true) = slotCount bits + 1 := by
  have hset : (Finset.univ.filter fun i => Function.update bits j true i = true)
      = insert j (Finset.univ.filter fun i => bits i = true) := by
    ext i
    by_cases hi : i = j
    · simp [hi]
    · simp [hi]
  rw [slotCount, hset, Finset.card_insert_of_notMem (by simp [h])]
  rfl

theorem slotCount_clear {bits : Slot → Bool} {j : Slot} (h : bits j = true) :
    slotCount (Function.update bits j false) = slotCount bits - 1 := by
  have hback : Function.update (Function.update bits j false) j true = bits := by
    rw [Function.update_idem, ← h, Function.update_eq_self]
  have hcount : slotCount (Function.update (Function.update bits j false) j true)
      = slotCount (Function.update bits j false) + 1 := slotCount_set (by simp)
  rw [hback] at hcount
  omega

theorem eq_false_of_slotCount_eq_zero {bits : Slot → Bool} (h : slotCount bits = 0) (j : Slot) :
    bits j = false := by
  have hempty : (Finset.univ.filter fun i => bits i = true) = ∅ := by
    rw [slotCount] at h
    exact Finset.card_eq_zero.mp (by exact_mod_cast h)
  by_contra hj
  have hmem : j ∈ Finset.univ.filter fun i => bits i = true := by simpa using hj
  rw [hempty] at hmem
  exact absurd hmem (Finset.notMem_empty j)

theorem slotCount_eq_zero {bits : Slot → Bool} (h : ∀ j, bits j = false) : slotCount bits = 0 := by
  simp [slotCount, h]

/-! ### The invariant -/

/-- The table `slots`, the bitmaps and the counters of the nodes agree. -/
structure Agree (heap : NodeRef → Option (ClusterNode N)) (slots : Slot → Option NodeRef) :
    Prop where
  table : ∀ j r, slots j = some r → ∃ n, heap r = some n ∧ n.slots j = true
  bitmap : ∀ r n j, heap r = some n → n.slots j = true → slots j = some r
  count : ∀ r n, heap r = some n → n.numslots = slotCount n.slots

/-- The table, the bitmaps and the counters agree. -/
def SlotsOk (st : ClusterState N) : Prop := Agree st.heap st.slots

section
variable {heap : NodeRef → Option (ClusterNode N)} {slots : Slot → Option NodeRef}
  {r : NodeRef} {n n' : ClusterNode N} {slot : Slot}

theorem Agree.clear (h : Agree heap slots) (hn : heap r = some n) (hbit : n.slots slot = true)
    (hslots : n'.slots = Function.update n.slots slot false)
    (hnum : n'.numslots = n.numslots - 1) :
    Agree (Function.update heap r (some n')) (Function.update slots slot none) := by
  have hslot := h.bitmap r n slot hn hbit
  constructor
  · intro j s hj
    have hne : j ≠ slot := by
      rintro rfl
      simp at hj
    rw [Function.update_of_ne hne] at hj
    obtain ⟨m, hm, hmbit⟩ := h.table j s hj
    by_cases hs : s = r
    · subst hs
      obtain rfl := Option.some_inj.mp (hn.symm.trans hm)
      exact ⟨n', by simp, by rw [hslots, Function.update_of_ne hne, hmbit]⟩
    · exact ⟨m, by rw [Function.update_of_ne hs, hm], hmbit⟩
  · intro s m j hs hmbit
    by_cases hsr : s = r
    · subst hsr
      obtain rfl : n' = m := by simpa using hs
      have hne : j ≠ slot := by
        rintro rfl
        simp [hslots] at hmbit
      rw [hslots, Function.update_of_ne hne] at hmbit
      rw [Function.update_of_ne hne, h.bitmap s n j hn hmbit]
    · rw [Function.update_of_ne hsr] at hs
      have hj := h.bitmap s m j hs hmbit
      have hne : j ≠ slot := by
        rintro rfl
        exact hsr (Option.some_inj.mp (hj.symm.trans hslot))
      rw [Function.update_of_ne hne, hj]
  · intro s m hs
    by_cases hsr : s = r
    · subst hsr
      obtain rfl : n' = m := by simpa using hs
      rw [hslots, slotCount_clear hbit, ← h.count s n hn, hnum]
    · rw [Function.update_of_ne hsr] at hs
      exact h.count s m hs

theorem Agree.set (h : Agree heap slots) (hn : heap r = some n) (hfree : slots slot = none)
    (hslots : n'.slots = Function.update n.slots slot true)
    (hnum : n'.numslots = n.numslots + 1) :
    Agree (Function.update heap r (some n')) (Function.update slots slot (some r)) := by
  have hbit : n.slots slot = false := by
    by_contra hbit
    rw [Bool.not_eq_false] at hbit
    exact absurd (hfree.symm.trans (h.bitmap r n slot hn hbit)) (by simp)
  constructor
  · intro j s hj
    by_cases hjs : j = slot
    · subst hjs
      obtain rfl : r = s := by simpa using hj
      exact ⟨n', by simp, by simp [hslots]⟩
    · rw [Function.update_of_ne hjs] at hj
      obtain ⟨m, hm, hmbit⟩ := h.table j s hj
      by_cases hs : s = r
      · subst hs
        obtain rfl := Option.some_inj.mp (hn.symm.trans hm)
        exact ⟨n', by simp, by rw [hslots, Function.update_of_ne hjs, hmbit]⟩
      · exact ⟨m, by rw [Function.update_of_ne hs, hm], hmbit⟩
  · intro s m j hs hmbit
    by_cases hsr : s = r
    · subst hsr
      obtain rfl : n' = m := by simpa using hs
      by_cases hjs : j = slot
      · subst hjs
        simp
      · rw [hslots, Function.update_of_ne hjs] at hmbit
        rw [Function.update_of_ne hjs, h.bitmap s n j hn hmbit]
    · rw [Function.update_of_ne hsr] at hs
      have hj := h.bitmap s m j hs hmbit
      have hne : j ≠ slot := by
        rintro rfl
        exact absurd (hfree.symm.trans hj) (by simp)
      rw [Function.update_of_ne hne, hj]
  · intro s m hs
    by_cases hsr : s = r
    · subst hsr
      obtain rfl : n' = m := by simpa using hs
      rw [hslots, slotCount_set hbit, ← h.count s n hn, hnum]
    · rw [Function.update_of_ne hsr] at hs
      exact h.count s m hs

theorem Agree.free (h : Agree heap slots) (hr : ∀ j, slots j ≠ some r) :
    Agree (Function.update heap r none) slots := by
  constructor
  · intro j s hj
    obtain ⟨m, hm, hbit⟩ := h.table j s hj
    have hne : s ≠ r := by
      rintro rfl
      exact hr j hj
    exact ⟨m, by rw [Function.update_of_ne hne, hm], hbit⟩
  · intro s m j hs hbit
    have hne : s ≠ r := by
      rintro rfl
      simp at hs
    rw [Function.update_of_ne hne] at hs
    exact h.bitmap s m j hs hbit
  · intro s m hs
    have hne : s ≠ r := by
      rintro rfl
      simp at hs
    rw [Function.update_of_ne hne] at hs
    exact h.count s m hs

end

/-- This node is there, and serves slots only as a master. -/
def SlaveEmpty (st : ClusterState N) : Prop :=
  ∃ n, st.heap st.myself = some n ∧ (n.flags.master = false → ∀ j, st.slots j ≠ some st.myself)

structure Good (st : ClusterState N) : Prop where
  slotsOk : SlotsOk st
  slaveEmpty : SlaveEmpty st

theorem Good.of_eq {st st' : ClusterState N} (h : Good st) (hheap : st'.heap = st.heap)
    (hslots : st'.slots = st.slots) (hmyself : st'.myself = st.myself) : Good st' := by
  obtain ⟨hok, n, hn, hempty⟩ := h
  refine ⟨?_, n, by rw [hheap, hmyself, hn], by rwa [hslots, hmyself]⟩
  unfold SlotsOk
  rwa [hheap, hslots]

/-- Errors other than the two assertions. -/
def NoSlotFault (e : Fault) : Prop :=
  e ≠ .assertion .clusterDelSlot ∧ e ≠ .assertion .clusterSetMaster

theorem noSlotFault_wild : NoSlotFault .wild := ⟨nofun, nofun⟩

theorem redisAssert_ensures {site : Site} (hE : E (.assertion site)) (p : Prop) [Decidable p] :
    (redisAssert site p).Ensures E fun _ => p := by
  rw [redisAssert]
  split
  · assumption
  · exact hE

/-- The states differ in neither slots nor roles. -/
structure SameSlots (st st' : ClusterState N) : Prop where
  myself : st'.myself = st.myself
  slots : st'.slots = st.slots
  heap : ∀ r, (st'.heap r).map (fun n => (n.slots, n.numslots, n.flags.master))
    = (st.heap r).map fun n => (n.slots, n.numslots, n.flags.master)

theorem SameSlots.refl (st : ClusterState N) : SameSlots st st := ⟨rfl, rfl, fun _ => rfl⟩

theorem SameSlots.trans {st₁ st₂ st₃ : ClusterState N} (h : SameSlots st₁ st₂)
    (h' : SameSlots st₂ st₃) : SameSlots st₁ st₃ :=
  ⟨h'.myself.trans h.myself, h'.slots.trans h.slots, fun r => (h'.heap r).trans (h.heap r)⟩

theorem SameSlots.symm {st st' : ClusterState N} (h : SameSlots st st') : SameSlots st' st :=
  ⟨h.myself.symm, h.slots.symm, fun r => (h.heap r).symm⟩

theorem SameSlots.node {st st' : ClusterState N} (h : SameSlots st st') {r : NodeRef}
    {n : ClusterNode N} (hr : st.heap r = some n) : ∃ n', st'.heap r = some n' ∧
      n'.slots = n.slots ∧ n'.numslots = n.numslots ∧ n'.flags.master = n.flags.master := by
  have heq := h.heap r
  rw [hr] at heq
  obtain ⟨n', hn', hdata⟩ := Option.map_eq_some_iff.mp heq
  simp only [Prod.mk.injEq] at hdata
  exact ⟨n', hn', hdata.1, hdata.2.1, hdata.2.2⟩

theorem SameSlots.slotsOk {st st' : ClusterState N} (h : SameSlots st st') (hok : SlotsOk st) :
    SlotsOk st' where
  table j r hj := by
    rw [h.slots] at hj
    obtain ⟨n, hn, hbit⟩ := hok.table j r hj
    obtain ⟨n', hn', hslots, -⟩ := h.node hn
    exact ⟨n', hn', by rw [hslots, hbit]⟩
  bitmap r n' j hr hbit := by
    obtain ⟨n, hn, hslots, -⟩ := h.symm.node hr
    rw [h.slots]
    exact hok.bitmap r n j hn (by rw [hslots, hbit])
  count r n' hr := by
    obtain ⟨n, hn, hslots, hnum, -⟩ := h.symm.node hr
    rw [← hslots, ← hnum]
    exact hok.count r n hn

theorem SameSlots.good {st st' : ClusterState N} (h : SameSlots st st') (hgood : Good st) :
    Good st' := by
  refine ⟨h.slotsOk hgood.slotsOk, ?_⟩
  obtain ⟨n, hn, hempty⟩ := hgood.slaveEmpty
  obtain ⟨n', hn', -, -, hmaster⟩ := h.node hn
  refine ⟨n', by rw [h.myself, hn'], fun hslave j => ?_⟩
  rw [h.slots, h.myself]
  exact hempty (by rw [← hmaster, hslave]) j

/-! ### Reading and writing nodes -/

theorem node_eq_ok {st : ClusterState N} {r : NodeRef} {n : ClusterNode N}
    (h : st.heap r = some n) : st.node r = .ok n := by
  rw [node, h]

theorem node_ensures (hE : E .wild) (st : ClusterState N) (r : NodeRef) :
    (st.node r).Ensures E fun n => st.heap r = some n := by
  rw [node]
  split
  · assumption
  · exact hE

@[simp] theorem setNode_heap_self (st : ClusterState N) (r : NodeRef) (n : ClusterNode N) :
    (st.setNode r n).heap r = some n := by
  simp [setNode]

theorem setNode_heap_of_ne (st : ClusterState N) {r s : NodeRef} (n : ClusterNode N) (h : s ≠ r) :
    (st.setNode r n).heap s = st.heap s := by
  simp [setNode, Function.update_of_ne h]

theorem sameSlots_setNode {st : ClusterState N} {r : NodeRef} {n n' : ClusterNode N}
    (hr : st.heap r = some n) (hslots : n'.slots = n.slots) (hnum : n'.numslots = n.numslots)
    (hmaster : n'.flags.master = n.flags.master) : SameSlots st (st.setNode r n') := by
  refine ⟨rfl, rfl, fun s => ?_⟩
  by_cases hs : s = r
  · subst hs
    rw [setNode_heap_self, hr]
    simp [hslots, hnum, hmaster]
  · rw [setNode_heap_of_ne _ _ hs]

theorem sameSlots_modifyNode (hE : E .wild) (st : ClusterState N) (r : NodeRef)
    {f : ClusterNode N → ClusterNode N} (hf : ∀ n, (f n).slots = n.slots ∧
      (f n).numslots = n.numslots ∧ (f n).flags.master = n.flags.master) :
    (st.modifyNode r f).Ensures E (SameSlots st) := by
  refine (node_ensures hE st r).bind fun n hn => ?_
  exact sameSlots_setNode hn (hf n).1 (hf n).2.1 (hf n).2.2

/-! ### Slot functions -/

/-- The nodes are the same ones, in the same roles. -/
structure SameRoles (st st' : ClusterState N) : Prop where
  myself : st'.myself = st.myself
  heap : ∀ r, (st'.heap r).map (fun n => n.flags.master)
    = (st.heap r).map fun n => n.flags.master

theorem SameRoles.refl (st : ClusterState N) : SameRoles st st := ⟨rfl, fun _ => rfl⟩

theorem SameRoles.trans {st₁ st₂ st₃ : ClusterState N} (h : SameRoles st₁ st₂)
    (h' : SameRoles st₂ st₃) : SameRoles st₁ st₃ :=
  ⟨h'.myself.trans h.myself, fun r => (h'.heap r).trans (h.heap r)⟩

theorem SameRoles.symm {st st' : ClusterState N} (h : SameRoles st st') : SameRoles st' st :=
  ⟨h.myself.symm, fun r => (h.heap r).symm⟩

theorem SameRoles.node {st st' : ClusterState N} (h : SameRoles st st') {r : NodeRef}
    {n : ClusterNode N} (hr : st.heap r = some n) :
    ∃ n', st'.heap r = some n' ∧ n'.flags.master = n.flags.master := by
  have heq := h.heap r
  rw [hr] at heq
  obtain ⟨n', hn', hmaster⟩ := Option.map_eq_some_iff.mp heq
  exact ⟨n', hn', hmaster⟩

theorem sameRoles_update {st st' : ClusterState N} {r : NodeRef} {n n' : ClusterNode N}
    (hr : st.heap r = some n) (hheap : st'.heap = Function.update st.heap r (some n'))
    (hmaster : n'.flags.master = n.flags.master) (hmyself : st'.myself = st.myself) :
    SameRoles st st' := by
  refine ⟨hmyself, fun s => ?_⟩
  rw [hheap]
  by_cases hs : s = r
  · subst hs
    simp [hr, hmaster]
  · rw [Function.update_of_ne hs]

theorem SameRoles.slaveEmpty {st st' : ClusterState N} (h : SameRoles st st')
    (hempty : SlaveEmpty st)
    (hslots : ∀ j, st'.slots j = some st.myself → st.slots j = some st.myself) :
    SlaveEmpty st' := by
  obtain ⟨n, hn, hslave⟩ := hempty
  obtain ⟨n', hn', hmaster⟩ := h.node hn
  refine ⟨n', by rw [h.myself, hn'], fun hs j hj => ?_⟩
  rw [h.myself] at hj
  exact hslave (by rw [← hmaster, hs]) j (hslots j hj)

/-- `clusterDelSlot` frees the slot; its assertion holds. -/
theorem clusterDelSlot_spec {st : ClusterState N} (h : SlotsOk st) (slot : Slot) :
    (clusterDelSlot st slot).Ensures E fun p => SlotsOk p.1 ∧ SameRoles st p.1 ∧
      p.1.slots = Function.update st.slots slot none ∧ p.2 = (st.slots slot).isSome := by
  rw [clusterDelSlot]
  rcases hslot : st.slots slot with _ | r
  · refine ⟨h, SameRoles.refl st, ?_, rfl⟩
    rw [← hslot, Function.update_eq_self]
  · obtain ⟨n, hn, hbit⟩ := h.table slot r hslot
    simp only [clusterNodeClearSlotBit, node_eq_ok hn, hbit, redisAssert, if_true, bind, Except.bind]
    exact ⟨h.clear hn hbit rfl rfl, sameRoles_update hn rfl rfl rfl, rfl, rfl⟩

theorem clusterAddSlot_spec (hE : E .wild) {st : ClusterState N} (h : SlotsOk st) (r : NodeRef)
    {slot : Slot} (hslot : st.slots slot = none) :
    (clusterAddSlot st r slot).Ensures E fun p => SlotsOk p.1 ∧ SameRoles st p.1 ∧
      p.1.slots = Function.update st.slots slot (some r) ∧ p.2 = true := by
  rw [clusterAddSlot, hslot]
  rcases hn : st.heap r with _ | n
  · simp only [clusterNodeSetSlotBit, node, hn, bind, Except.bind]
    exact hE
  · have hbit : n.slots slot = false := by
      by_contra hbit
      rw [Bool.not_eq_false] at hbit
      exact absurd (hslot.symm.trans (h.bitmap r n slot hn hbit)) (by simp)
    simp only [clusterNodeSetSlotBit, node_eq_ok hn, hbit, bind, Except.bind]
    exact ⟨h.set hn hslot rfl rfl, sameRoles_update hn rfl rfl rfl, rfl, rfl⟩

theorem clusterDelNodeSlots_spec {st : ClusterState N} (hE : E .wild) (h : SlotsOk st)
    (r : NodeRef) : (clusterDelNodeSlots st r).Ensures E fun st' => SlotsOk st' ∧
      SameRoles st st' ∧ st'.slots = fun j => if st.slots j = some r then none else st.slots j := by
  refine (Ensures.foldlM_prefix (I := fun done st' => SlotsOk st' ∧ SameRoles st st' ∧
    st'.slots = fun j => if j ∈ done ∧ st.slots j = some r then none else st.slots j)
    ?_ ?_).imp ?_
  · rintro done slot rest st' - ⟨hok, hroles, hslots⟩
    refine ((node_ensures hE st' r).bind
      (Q := fun n => st'.heap r = some n) (R := fun bit : Bool => bit = true ↔
        st'.slots slot = some r) fun n hn => ?_).bind fun bit hbit => ?_
    · refine ⟨fun hb => hok.bitmap r n slot hn hb, fun hs => ?_⟩
      obtain ⟨m, hm, hmbit⟩ := hok.table slot r hs
      obtain rfl := Option.some_inj.mp (hn.symm.trans hm)
      exact hmbit
    · by_cases hb : bit = true
      · rw [if_pos hb]
        refine (clusterDelSlot_spec hok slot).bind ?_
        rintro ⟨st'', b⟩ ⟨hok', hroles', hslots', -⟩
        refine ⟨hok', hroles.trans hroles', ?_⟩
        have hr := hbit.mp hb
        rw [hslots] at hr
        rw [hslots', hslots]
        funext j
        by_cases hj : j = slot
        · subst hj
          have : st.slots j = some r := by
            by_contra hne
            simp [hne] at hr
          simp [this]
        · simp [hj]
      · rw [if_neg hb]
        refine ⟨hok, hroles, ?_⟩
        have hr : st'.slots slot ≠ some r := fun hs => hb (hbit.mpr hs)
        rw [hslots] at hr ⊢
        funext j
        by_cases hj : j = slot
        · subst hj
          by_cases hmem : j ∈ done
          · simp [hmem]
          · have hne : st.slots j ≠ some r := by simpa [hmem] using hr
            simp [hne]
        · simp [hj]
  · exact ⟨h, SameRoles.refl st, by simp⟩
  · rintro st' ⟨hok, hroles, hslots⟩
    refine ⟨hok, hroles, ?_⟩
    simpa only [mem_allSlots, true_and] using hslots

/-! ### Lists of slaves and reports -/

theorem clusterNodeRemoveSlave_sameSlots (hE : E .wild) (st : ClusterState N)
    (master slave : NodeRef) :
    (clusterNodeRemoveSlave st master slave).Ensures E (SameSlots st) := by
  refine (node_ensures hE st master).bind fun n hn => ?_
  dsimp only
  split
  · split
    · exact sameSlots_setNode hn rfl rfl rfl
    · exact hE
  · exact SameSlots.refl st

theorem clusterNodeAddSlave_sameSlots (hE : E .wild) (st : ClusterState N)
    (master slave : NodeRef) : (clusterNodeAddSlave st master slave).Ensures E (SameSlots st) := by
  refine (node_ensures hE st master).bind fun n hn => ?_
  split
  · exact SameSlots.refl st
  · exact sameSlots_setNode hn rfl rfl rfl

theorem leaveMaster_sameSlots (hE : E .wild) (st : ClusterState N) (master : Option NodeRef)
    (slave : NodeRef) : (leaveMaster st master slave).Ensures E (SameSlots st) := by
  cases master with
  | none => exact SameSlots.refl st
  | some m => exact clusterNodeRemoveSlave_sameSlots hE st m slave

theorem clusterNodeCleanupFailureReports_sameSlots (hE : E .wild) (st : ClusterState N)
    (r : NodeRef) (now maxtime : ℤ) :
    (clusterNodeCleanupFailureReports st r now maxtime).Ensures E (SameSlots st) :=
  sameSlots_modifyNode hE st r fun _ => ⟨rfl, rfl, rfl⟩

theorem clusterNodeDelFailureReport_sameSlots (hE : E .wild) (st : ClusterState N)
    (r sender : NodeRef) (now maxtime : ℤ) :
    (clusterNodeDelFailureReport st r sender now maxtime).Ensures E
      fun p => SameSlots st p.1 := by
  refine (node_ensures hE st r).bind fun n hn => ?_
  split
  · dsimp only
    refine (clusterNodeCleanupFailureReports_sameSlots hE _ r now maxtime).bind fun st' h => ?_
    refine SameSlots.trans ?_ h
    exact sameSlots_setNode hn rfl rfl rfl
  · exact SameSlots.refl st

/-! ### Roles -/

theorem SlotsOk.setNode {st : ClusterState N} (h : SlotsOk st) {r : NodeRef}
    {n n' : ClusterNode N} (hn : st.heap r = some n) (hslots : n'.slots = n.slots)
    (hnum : n'.numslots = n.numslots) : SlotsOk (st.setNode r n') := by
  refine ⟨fun j s hj => ?_, fun s m j hs hbit => ?_, fun s m hs => ?_⟩
  · obtain ⟨m, hm, hbit⟩ := h.table j s hj
    by_cases hsr : s = r
    · subst hsr
      obtain rfl := Option.some_inj.mp (hn.symm.trans hm)
      exact ⟨n', setNode_heap_self _ _ _, by rw [hslots, hbit]⟩
    · exact ⟨m, by rw [setNode_heap_of_ne _ _ hsr, hm], hbit⟩
  · by_cases hsr : s = r
    · subst hsr
      obtain rfl : n' = m := by simpa using hs
      exact h.bitmap s n j hn (by rw [← hslots, hbit])
    · rw [setNode_heap_of_ne _ _ hsr] at hs
      exact h.bitmap s m j hs hbit
  · by_cases hsr : s = r
    · subst hsr
      obtain rfl : n' = m := by simpa using hs
      rw [hslots, hnum]
      exact h.count s n hn
    · rw [setNode_heap_of_ne _ _ hsr] at hs
      exact h.count s m hs

theorem Good.setNode {st : ClusterState N} (h : Good st) {r : NodeRef} {n n' : ClusterNode N}
    (hn : st.heap r = some n) (hslots : n'.slots = n.slots) (hnum : n'.numslots = n.numslots)
    (hrole : r = st.myself → n'.flags.master = false → n.flags.master = false) :
    Good (st.setNode r n') := by
  refine ⟨h.slotsOk.setNode hn hslots hnum, ?_⟩
  obtain ⟨me, hme, hempty⟩ := h.slaveEmpty
  by_cases hr : r = st.myself
  · subst hr
    obtain rfl := Option.some_inj.mp (hn.symm.trans hme)
    exact ⟨n', setNode_heap_self _ _ _, fun hslave => hempty (hrole rfl hslave)⟩
  · exact ⟨me, by rw [← hme]; exact setNode_heap_of_ne _ _ (Ne.symm hr), hempty⟩

theorem Good.of_free {st : ClusterState N} (h : SlotsOk st) {n : ClusterNode N}
    (hn : st.heap st.myself = some n) (hfree : ∀ j, st.slots j ≠ some st.myself) : Good st :=
  ⟨h, n, hn, fun _ => hfree⟩

theorem clusterSetNodeAsMaster_spec (hE : E .wild) {st : ClusterState N} (h : Good st)
    (r : NodeRef) : (clusterSetNodeAsMaster st r).Ensures E fun st' => Good st' ∧
      st'.myself = st.myself ∧ ∃ n, st'.heap r = some n ∧ n.flags.master = true := by
  refine (node_ensures hE st r).bind fun n hn => ?_
  split
  · rename_i hmaster
    exact ⟨h, rfl, n, hn, hmaster⟩
  · refine (leaveMaster_sameSlots hE st n.slaveof r).bind fun st' hsame => ?_
    have h' := hsame.good h
    refine Ensures.bind (Q := fun st'' => Good st'' ∧
      st''.myself = st.myself ∧ ∃ n, st''.heap r = some n ∧ n.flags.master = true) ?_
      fun st'' h'' => ⟨⟨h''.1.slotsOk, h''.1.slaveEmpty⟩, h''.2⟩
    refine (node_ensures hE st' r).bind fun n' hn' => ?_
    exact ⟨h'.setNode hn' rfl rfl (by simp), hsame.myself, _, setNode_heap_self _ _ _, rfl⟩

theorem SlotsOk.numslots_eq_zero {st : ClusterState N} (h : SlotsOk st) {r : NodeRef}
    {n : ClusterNode N} (hn : st.heap r = some n) (hfree : ∀ j, st.slots j ≠ some r) :
    n.numslots = 0 := by
  rw [h.count r n hn]
  refine slotCount_eq_zero fun j => ?_
  by_contra hbit
  rw [Bool.not_eq_false] at hbit
  exact hfree j (h.bitmap r n j hn hbit)

theorem SlotsOk.free_of_numslots {st : ClusterState N} (h : SlotsOk st) {r : NodeRef}
    {n : ClusterNode N} (hn : st.heap r = some n) (hnum : n.numslots = 0) (j : Slot) :
    st.slots j ≠ some r := by
  intro hj
  obtain ⟨m, hm, hbit⟩ := h.table j r hj
  obtain rfl := Option.some_inj.mp (hn.symm.trans hm)
  rw [eq_false_of_slotCount_eq_zero ((h.count r n hn).symm.trans hnum) j] at hbit
  exact absurd hbit (by simp)

theorem leaveRole_spec (hE : E .wild) {st : ClusterState N} (h : SlotsOk st)
    {me : ClusterNode N} (hme : st.heap st.myself = some me)
    (hfree : ∀ j, st.slots j ≠ some st.myself) :
    (leaveRole st me).Ensures E fun st' => Good st' ∧ st'.myself = st.myself ∧
      ∀ j, st'.slots j ≠ some st.myself := by
  rw [leaveRole]
  split
  · simp only [modifyNode, node_eq_ok hme, bind, Except.bind]
    refine ⟨Good.of_free (h.setNode hme rfl rfl) (setNode_heap_self _ _ _) hfree, rfl, hfree⟩
  · refine (leaveMaster_sameSlots hE st me.slaveof st.myself).imp fun st' hsame => ?_
    exact ⟨hsame.good (Good.of_free h hme hfree), hsame.myself, fun j => hsame.slots ▸ hfree j⟩

theorem clusterSetMaster_spec (hE : E .wild) {st : ClusterState N} (h : Good st) {r : NodeRef}
    (hr : r ≠ st.myself) (hfree : ∀ j, st.slots j ≠ some st.myself) :
    (clusterSetMaster st r).Ensures E Good := by
  obtain ⟨me, hme, -⟩ := h.slaveEmpty
  have hnum := h.slotsOk.numslots_eq_zero hme hfree
  rw [clusterSetMaster]
  simp only [redisAssert, if_pos hr, node_eq_ok hme, ok_bind, if_pos hnum]
  refine (leaveRole_spec hE h.slotsOk hme hfree).bind fun st₁ ⟨h₁, _, _⟩ => ?_
  refine Ensures.bind (sameSlots_modifyNode hE st₁ st₁.myself fun _ => ⟨rfl, rfl, rfl⟩)
    fun st₂ h₂ => ?_
  refine (clusterNodeAddSlave_sameSlots hE st₂ r st₂.myself).bind fun st₃ h₃ => ?_
  exact (h₃.good (h₂.good h₁)).of_eq rfl rfl rfl

/-! ### Slots claimed by another node -/

theorem updateSlot_good (hE : E .wild) {sender : NodeRef} {senderConfigEpoch : ℕ}
    {slots : Slot → Bool} {curmaster : Option NodeRef}
    {acc : ClusterState N × Bool × List Slot} (h : Good acc.1) (hsender : sender ≠ acc.1.myself)
    (slot : Slot) : (updateSlot sender senderConfigEpoch slots curmaster acc slot).Ensures E
      fun acc' => Good acc'.1 ∧ SameRoles acc.1 acc'.1 := by
  obtain ⟨st, newmaster, dirty⟩ := acc
  have hsame : Good st ∧ SameRoles st st := ⟨h, SameRoles.refl st⟩
  rw [updateSlot]
  dsimp only
  split
  · split
    · exact hsame
    · split
      · exact hsame
      · refine Ensures.bind (Q := fun _ => True) ?_ fun outdated _ => ?_
        · rw [slotIsOutdated]
          split
          · trivial
          · exact (node_ensures hE st _).bind fun _ _ => trivial
        · split
          · refine Ensures.bind (Q := fun p => SlotsOk p.1 ∧ SameRoles st p.1 ∧
              p.1.slots = Function.update st.slots slot none) ?_ ?_
            · exact (clusterDelSlot_spec h.slotsOk slot).imp fun p hp => ⟨hp.1, hp.2.1, hp.2.2.1⟩
            rintro ⟨st₁, b⟩ ⟨hok₁, hroles₁, hslots₁⟩
            have hfree : st₁.slots slot = none := by rw [hslots₁]; simp
            refine (clusterAddSlot_spec hE hok₁ sender hfree).bind ?_
            rintro ⟨st₂, b₂⟩ ⟨hok₂, hroles₂, hslots₂, -⟩
            have hroles := hroles₁.trans hroles₂
            refine ⟨?_, hroles.myself, hroles.heap⟩
            suffices hgood : Good st₂ from hgood.of_eq rfl rfl rfl
            refine ⟨hok₂, hroles.slaveEmpty h.slaveEmpty fun j hj => ?_⟩
            rw [hslots₂, hslots₁] at hj
            by_cases hjs : j = slot
            · subst hjs
              exact absurd (by simpa using hj) hsender
            · simpa [Function.update_of_ne hjs] using hj
          · exact hsame
  · exact hsame

theorem clusterUpdateSlotsConfigWith_good (hE : E .wild) {st : ClusterState N} (h : Good st)
    (sender : NodeRef) (senderConfigEpoch : ℕ) (slots : Slot → Bool) :
    (clusterUpdateSlotsConfigWith st sender senderConfigEpoch slots).Ensures E Good := by
  obtain ⟨me, hme, hempty⟩ := h.slaveEmpty
  rw [clusterUpdateSlotsConfigWith]
  refine Ensures.bind (Q := fun cm => cm = if me.flags.master then some st.myself else me.slaveof)
    ?_ fun cm hcm => ?_
  · simp only [curmaster, node_eq_ok hme, ok_bind, ensures_ok]
  split
  · exact h
  rename_i hsender
  refine Ensures.bind (Q := fun acc => Good acc.1 ∧ SameRoles st acc.1)
    (Ensures.foldlM ?_ ⟨h, SameRoles.refl st⟩) ?_
  · rintro acc slot - ⟨hgood, hroles⟩
    exact (updateSlot_good hE hgood (by rwa [hroles.myself]) slot).imp
      fun acc' hacc' => ⟨hacc'.1, hroles.trans hacc'.2⟩
  rintro ⟨st', newmaster, dirty⟩ ⟨hgood, hroles⟩
  obtain ⟨me', hme', hmaster⟩ := hroles.node hme
  refine Ensures.bind (Q := fun lost : Bool => lost = true → ∀ j, st'.slots j ≠ some st'.myself)
    ?_ fun lost hlost => ?_
  · unfold curmasterLost
    split
    · split
      · rename_i m
        refine (node_ensures hE st' m).bind fun n hn hnum j => ?_
        rw [decide_eq_true_iff] at hnum
        by_cases hslave : me.flags.master = true
        · rw [if_pos hslave] at hcm
          obtain rfl := Option.some_inj.mp hcm
          rw [hroles.myself]
          exact hgood.slotsOk.free_of_numslots hn hnum j
        · obtain ⟨me'', hme'', hempty'⟩ := hgood.slaveEmpty
          rw [hroles.myself] at hme'' hempty' ⊢
          obtain rfl := Option.some_inj.mp (hme'.symm.trans hme'')
          exact hempty' (by rw [hmaster]; simpa using hslave) j
      · exact hE
    · exact fun hfalse => absurd hfalse (by simp)
  · split
    · rename_i htrue
      refine (clusterSetMaster_spec hE hgood (by rwa [hroles.myself]) (hlost htrue)).bind
        fun st'' h'' => ?_
      exact h''.of_eq rfl rfl rfl
    · exact hgood.of_eq rfl rfl rfl

end ClusterState

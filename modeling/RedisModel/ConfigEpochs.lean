/-
What a heartbeat does to epochs and roles.

* `sum_counters_le` — counters of which each is bounded by those above it;
* `SameRolesBut` — at most one node changed its role;
* `clusterProcessPing_epochs` — the epochs and the role of this node after a heartbeat.
-/
import Mathlib.Algebra.BigOperators.Group.Finset.Basic
import Mathlib.Algebra.Order.BigOperators.Group.Finset
import Mathlib.Data.Finset.Max
import RedisModel.ClusterElectionSpec

open Except

section
variable {α : Type*} [Fintype α] [LinearOrder α] {b : α → ℕ}

theorem sum_counters_le (h : ∀ i, b i ≤ ∑ j ∈ Finset.univ.filter fun j => i < j, (b j + 1)) :
    ∑ i, (b i + 1) + 1 ≤ 2 ^ Fintype.card α := by
  have hupper : ∀ s : Finset α, (∀ i ∈ s, ∀ j, i < j → j ∈ s) →
      ∑ i ∈ s, (b i + 1) + 1 ≤ 2 ^ s.card := by
    intro s
    induction s using Finset.induction_on_min with
    | empty => simp
    | insert a s hlt ih =>
      intro hs
      have ha : a ∉ s := fun hmem => lt_irrefl a (hlt a hmem)
      have habove : Finset.univ.filter (fun j => a < j) = s := by
        ext j
        rw [Finset.mem_filter]
        constructor
        · rintro ⟨-, hj⟩
          exact (Finset.mem_insert.mp (hs a (Finset.mem_insert_self a s) j hj)).resolve_left hj.ne'
        · exact fun hj => ⟨Finset.mem_univ j, hlt j hj⟩
      have hrest := ih fun i hi j hij =>
        (Finset.mem_insert.mp (hs i (Finset.mem_insert_of_mem hi) j hij)).resolve_left
          ((hlt i hi).trans hij).ne'
      have hmin := h a
      rw [habove] at hmin
      rw [Finset.sum_insert ha, Finset.card_insert_of_notMem ha, pow_succ]
      omega
  simpa using hupper Finset.univ fun _ _ j _ => Finset.mem_univ j

end

namespace ClusterState

variable {N : Type}

/-! ### Roles -/

/-- Whether the node at an address is a master. -/
def role (st : ClusterState N) (r : NodeRef) : Option Bool :=
  (st.heap r).map fun n => n.flags.master

/-- No node but one changed its role. -/
structure SameRolesBut (x : NodeRef) (st st' : ClusterState N) : Prop where
  myself : st'.myself = st.myself
  role : ∀ r, r ≠ x → role st' r = role st r

theorem SameRolesBut.refl (x : NodeRef) (st : ClusterState N) : SameRolesBut x st st :=
  ⟨rfl, fun _ _ => rfl⟩

theorem SameRolesBut.trans {x : NodeRef} {st₁ st₂ st₃ : ClusterState N}
    (h : SameRolesBut x st₁ st₂) (h' : SameRolesBut x st₂ st₃) : SameRolesBut x st₁ st₃ :=
  ⟨h'.myself.trans h.myself, fun r hr => (h'.role r hr).trans (h.role r hr)⟩

theorem SameSlots.role {st st' : ClusterState N} (h : SameSlots st st') (r : NodeRef) :
    role st' r = role st r := by
  have heq := congrArg (Option.map fun p => p.2.2) (h.heap r)
  rwa [Option.map_map, Option.map_map] at heq

theorem SameSlots.rolesBut {st st' : ClusterState N} (h : SameSlots st st') (x : NodeRef) :
    SameRolesBut x st st' :=
  ⟨h.myself, fun r _ => h.role r⟩

theorem rolesBut_setNode (st : ClusterState N) (r : NodeRef) (n : ClusterNode N) :
    SameRolesBut r st (st.setNode r n) :=
  ⟨rfl, fun s hs => by rw [ClusterState.role, setNode_heap_of_ne _ _ hs]; rfl⟩

theorem role_setNode (st : ClusterState N) (r : NodeRef) (n : ClusterNode N) :
    role (st.setNode r n) r = some n.flags.master := by
  rw [role, setNode_heap_self]
  rfl

theorem modifyNode_role (st : ClusterState N) (r : NodeRef) {f : ClusterNode N → ClusterNode N}
    {b : Bool} (hf : ∀ n, (f n).flags.master = b) :
    (st.modifyNode r f).Ensures AnyFault fun st' =>
      SameRolesBut r st st' ∧ role st' r = some b := by
  refine (node_ensures trivial st r).bind fun n _ => ?_
  exact ⟨rolesBut_setNode st r _, by rw [role_setNode, hf]⟩

theorem clusterSetNodeAsMaster_role (st : ClusterState N) (r : NodeRef) :
    (clusterSetNodeAsMaster st r).Ensures AnyFault fun st' =>
      SameRolesBut r st st' ∧ role st' r = some true := by
  refine (node_ensures trivial st r).bind fun n hn => ?_
  split
  · rename_i hmaster
    exact ⟨SameRolesBut.refl r st, by rw [role, hn, Option.map_some, hmaster]⟩
  · refine (leaveMaster_sameSlots trivial st n.slaveof r).bind fun st₁ h₁ => ?_
    refine Ensures.bind (modifyNode_role st₁ r fun _ => rfl) fun st₂ h₂ => ?_
    have h := (h₁.rolesBut r).trans h₂.1
    exact ⟨⟨h.1, h.2⟩, h₂.2⟩

theorem clusterDelSlot_role (st : ClusterState N) (slot : Slot) :
    (clusterDelSlot st slot).Ensures AnyFault fun p =>
      p.1.myself = st.myself ∧ ∀ r, role p.1 r = role st r := by
  rw [clusterDelSlot]
  split
  · exact ⟨rfl, fun _ => rfl⟩
  · rename_i s hs
    refine Ensures.bind (Q := fun p => p.1.myself = st.myself ∧ ∀ r, role p.1 r = role st r)
      ((node_ensures trivial st s).bind fun n hn => ⟨rfl, fun r => ?_⟩) fun p hp => ?_
    · by_cases hr : r = s
      · subst hr
        rw [role_setNode, role, hn]
        rfl
      · exact (rolesBut_setNode st s _).role r hr
    · exact (redisAssert_anyFault _ _).bind fun _ _ => hp

theorem clusterAddSlot_role (st : ClusterState N) (s : NodeRef) (slot : Slot) :
    (clusterAddSlot st s slot).Ensures AnyFault fun p =>
      p.1.myself = st.myself ∧ ∀ r, role p.1 r = role st r := by
  rw [clusterAddSlot]
  split
  · exact ⟨rfl, fun _ => rfl⟩
  · refine Ensures.bind (Q := fun p : ClusterState N × Bool => p.1.myself = st.myself ∧
      ∀ r, role p.1 r = role st r)
      ((node_ensures trivial st s).bind fun n hn => ⟨rfl, fun r => ?_⟩) fun p hp => hp
    by_cases hr : r = s
    · subst hr
      rw [role_setNode, role, hn]
      rfl
    · exact (rolesBut_setNode st s _).role r hr

theorem demote_role (st : ClusterState N) (sender : NodeRef) :
    (demote st sender).Ensures AnyFault fun st' =>
      SameRolesBut sender st st' ∧ role st' sender = some false := by
  refine Ensures.bind (Q := fun st' => st'.myself = st.myself ∧ ∀ r, role st' r = role st r) ?_
    fun st₁ h₁ => ?_
  · refine Ensures.foldlM (fun st' slot _ h => ?_) ⟨rfl, fun _ => rfl⟩
    refine Ensures.bind (Q := fun _ => True) ((node_ensures trivial st' sender).bind fun _ _ =>
      trivial) fun bit _ => ?_
    split
    · exact (clusterDelSlot_role st' slot).bind fun p hp =>
        ⟨hp.1.trans h.1, fun r => (hp.2 r).trans (h.2 r)⟩
    · exact h
  · refine Ensures.bind (modifyNode_role st₁ sender fun _ => rfl) fun st₂ h₂ => ?_
    refine Ensures.bind (sameSlots_modifyNode trivial st₂ sender fun _ => ⟨rfl, rfl, rfl⟩)
      fun st₃ h₃ => ?_
    have h : SameRolesBut sender st st₃ :=
      ⟨h₃.myself.trans (h₂.1.myself.trans h₁.1), fun r hr =>
        (h₃.role r).trans ((h₂.1.role r hr).trans (h₁.2 r))⟩
    exact ⟨⟨h.1, h.2⟩, (h₃.role sender).trans h₂.2⟩

theorem roleSwitch_role [DecidableEq N] (st : ClusterState N) (sender : NodeRef)
    (hdr : ClusterMsg N) : (roleSwitch st sender hdr).Ensures AnyFault fun st' =>
      SameRolesBut sender st st' ∧ role st' sender = some hdr.slaveof.isNone := by
  rw [roleSwitch]
  split
  · rename_i hnone
    rw [hnone]
    exact clusterSetNodeAsMaster_role st sender
  · rename_i name hname
    rw [hname]
    refine (node_ensures trivial st sender).bind fun n hn => ?_
    refine Ensures.bind (Q := fun st' => SameRolesBut sender st st' ∧
      role st' sender = some false) ?_ fun st₁ h₁ => ?_
    · split
      · exact demote_role st sender
      · rename_i hmaster
        rw [Bool.not_eq_true] at hmaster
        exact ⟨SameRolesBut.refl sender st, by rw [role, hn, Option.map_some, hmaster]⟩
    refine (node_ensures trivial st₁ sender).bind fun n' _ => ?_
    split
    · exact h₁
    · split
      · exact h₁
      · refine (leaveMaster_sameSlots trivial st₁ n'.slaveof sender).bind fun st₂ h₂ => ?_
        refine (clusterNodeAddSlave_sameSlots trivial st₂ _ sender).bind fun st₃ h₃ => ?_
        refine Ensures.bind (sameSlots_modifyNode trivial st₃ sender fun _ => ⟨rfl, rfl, rfl⟩)
          fun st₄ h₄ => ?_
        have h := (h₂.trans h₃).trans h₄
        have hbut := h₁.1.trans (h.rolesBut sender)
        exact ⟨⟨hbut.1, hbut.2⟩, (h.role sender).trans h₁.2⟩

theorem clusterSetMaster_role (st : ClusterState N) (r : NodeRef) :
    (clusterSetMaster st r).Ensures AnyFault fun st' => SameRolesBut st.myself st st' ∧
      (role st' st.myself = some true → role st st.myself = some true) := by
  refine (redisAssert_anyFault _ _).bind fun _ _ => ?_
  refine (node_ensures trivial st st.myself).bind fun me hme => ?_
  refine (redisAssert_anyFault _ _).bind fun _ _ => ?_
  refine Ensures.bind (Q := fun st' => SameRolesBut st.myself st st' ∧
    (role st' st.myself = some true → role st st.myself = some true)) ?_ fun st₁ h₁ => ?_
  · rw [leaveRole]
    split
    · refine Ensures.bind (modifyNode_role st st.myself fun _ => rfl) fun st₁ h₁ => ?_
      refine ⟨⟨h₁.1.1, h₁.1.2⟩, fun htrue => ?_⟩
      have hfalse : role st₁ st.myself = some false := h₁.2
      rw [role] at hfalse htrue
      exact absurd (hfalse.symm.trans htrue) (by simp)
    · exact (leaveMaster_sameSlots trivial st me.slaveof st.myself).imp fun st' h =>
        ⟨h.rolesBut _, fun htrue => (h.role _).symm.trans htrue⟩
  · refine Ensures.bind (sameSlots_modifyNode trivial st₁ st₁.myself fun _ => ⟨rfl, rfl, rfl⟩)
      fun st₂ h₂ => ?_
    refine (clusterNodeAddSlave_sameSlots trivial st₂ r st₂.myself).bind fun st₃ h₃ => ?_
    have h := h₂.trans h₃
    have hbut := h₁.1.trans (h.rolesBut st.myself)
    exact ⟨⟨hbut.1, hbut.2⟩, fun htrue => h₁.2 ((h.role _).symm.trans htrue)⟩

theorem updateSlot_role (sender : NodeRef) (senderConfigEpoch : ℕ) (slots : Slot → Bool)
    (curmaster : Option NodeRef) (acc : ClusterState N × Bool × List Slot) (slot : Slot) :
    (updateSlot sender senderConfigEpoch slots curmaster acc slot).Ensures AnyFault fun acc' =>
      acc'.1.myself = acc.1.myself ∧ ∀ r, role acc'.1 r = role acc.1 r := by
  obtain ⟨st, newmaster, dirty⟩ := acc
  rw [updateSlot]
  dsimp only
  split
  · split
    · exact ⟨rfl, fun _ => rfl⟩
    · split
      · exact ⟨rfl, fun _ => rfl⟩
      · refine Ensures.bind (Q := fun _ => True) ?_ fun outdated _ => ?_
        · rw [slotIsOutdated]
          split
          · trivial
          · exact (node_ensures trivial st _).bind fun _ _ => trivial
        · split
          · refine (clusterDelSlot_role st slot).bind fun p₁ h₁ => ?_
            refine (clusterAddSlot_role p₁.1 sender slot).bind fun p₂ h₂ => ?_
            exact ⟨h₂.1.trans h₁.1, fun r => (h₂.2 r).trans (h₁.2 r)⟩
          · exact ⟨rfl, fun _ => rfl⟩
  · exact ⟨rfl, fun _ => rfl⟩

theorem updateSlots_role (st : ClusterState N) (sender : NodeRef) (senderConfigEpoch : ℕ)
    (hdr : ClusterMsg N) : (updateSlots st sender senderConfigEpoch hdr).Ensures AnyFault fun st' =>
      SameRolesBut st.myself st st' ∧
        (role st' st.myself = some true → role st st.myself = some true) := by
  have hrefl : SameRolesBut st.myself st st ∧
      (role st st.myself = some true → role st st.myself = some true) := ⟨SameRolesBut.refl _ st, id⟩
  refine Ensures.bind (Q := fun _ => True) ?_ fun dirty _ => ?_
  · refine (node_ensures trivial st sender).bind fun n _ => ?_
    split
    · trivial
    · exact (node_ensures trivial st _).bind fun _ _ => trivial
  refine (node_ensures trivial st sender).bind fun n _ => ?_
  split
  · refine Ensures.bind (Q := fun _ => True)
      ((node_ensures trivial st _).bind fun _ _ => trivial) fun cm _ => ?_
    split
    · exact hrefl
    refine Ensures.bind (Q := fun acc => acc.1.myself = st.myself ∧
      ∀ r, role acc.1 r = role st r) ?_ fun acc h₁ => ?_
    · exact Ensures.foldlM (fun acc slot _ h =>
        (updateSlot_role sender senderConfigEpoch hdr.myslots cm acc slot).imp fun acc' h' =>
          ⟨h'.1.trans h.1, fun r => (h'.2 r).trans (h.2 r)⟩) ⟨rfl, fun _ => rfl⟩
    refine Ensures.bind (Q := fun _ => True) ?_ fun lost _ => ?_
    · unfold curmasterLost
      split
      · split
        · exact (node_ensures trivial _ _).bind fun _ _ => trivial
        · trivial
      · trivial
    split
    · refine (clusterSetMaster_role acc.1 sender).bind fun st₂ h₂ => ?_
      rw [h₁.1, h₁.2] at h₂
      exact ⟨⟨h₂.1.1.trans h₁.1, fun r hr => (h₂.1.2 r hr).trans (h₁.2 r)⟩, h₂.2⟩
    · exact ⟨⟨h₁.1, fun r _ => h₁.2 r⟩, fun htrue => (h₁.2 _).symm.trans htrue⟩
  · exact hrefl

/-! ### Epochs -/

/-- The configuration epoch this node knows of the node at an address. -/
def epochOf (st : ClusterState N) (r : NodeRef) : Option ℕ :=
  (st.heap r).map fun n => n.configEpoch

theorem SameEpochs.epochOf {st st' : ClusterState N} (h : SameEpochs st st') (r : NodeRef) :
    epochOf st' r = epochOf st r := by
  have heq := congrArg (Option.map fun p => p.2.1) (h.heap r)
  rwa [Option.map_map, Option.map_map] at heq

theorem SameEpochs.myConfigEpoch {st st' : ClusterState N} (h : SameEpochs st st') :
    st'.myConfigEpoch = st.myConfigEpoch := by
  have heq := h.epochOf st.myself
  rw [ClusterState.myConfigEpoch, ClusterState.myConfigEpoch, h.myself]
  simp only [ClusterState.epochOf] at heq
  cases h₁ : st'.heap st.myself <;> cases h₂ : st.heap st.myself <;> simp_all

/-- This node knows the node at an address under a name, and is no longer in handshake with
it. -/
structure KnownAs (st : ClusterState N) (x : N) (r : NodeRef) (n : ClusterNode N) : Prop where
  ne : r ≠ st.myself
  heap : st.heap r = some n
  name : n.name = x
  handshake : n.flags.handshake = false

section
variable [LinearOrder N]

/-- What a heartbeat of a known node does: this node learns the epochs of the sender, and
takes a new configuration epoch if it has the one of the sender and the smaller name. -/
structure PingOutcome (st st' : ClusterState N) (hdr : ClusterMsg N) (r : NodeRef) : Prop where
  myself : st'.myself = st.myself
  nodes : st'.nodes = st.nodes
  identity : ∀ s, (st'.heap s).map (fun n => (n.name, n.flags.handshake))
    = (st.heap s).map fun n => (n.name, n.flags.handshake)
  others : ∀ s, s ≠ r → s ≠ st.myself → epochOf st' s = epochOf st s
  sender : ∀ n, st.heap r = some n → epochOf st' r = some (max n.configEpoch hdr.configEpoch)
  master : role st' st.myself = some true → role st st.myself = some true
  epoch : (st'.myConfigEpoch = st.myConfigEpoch ∧
      st'.currentEpoch = max st.currentEpoch hdr.currentEpoch) ∨
    (hdr.slaveof = none ∧ hdr.configEpoch = st.myConfigEpoch ∧
      st'.currentEpoch = nextEpoch (max st.currentEpoch hdr.currentEpoch) ∧
      st'.myConfigEpoch = st'.currentEpoch ∧
      ∃ me, st.heap st.myself = some me ∧ me.name < hdr.sender)
  yields : ∀ me n, st.heap st.myself = some me → st.heap r = some n → me.name < hdr.sender →
    hdr.slaveof = none → role st' st.myself = some true → n.configEpoch ≤ hdr.configEpoch →
    hdr.configEpoch = me.configEpoch → st'.myConfigEpoch = st'.currentEpoch ∧
      st'.currentEpoch = nextEpoch (max st.currentEpoch hdr.currentEpoch)

omit [LinearOrder N] in
theorem SameEpochs.identity {st st' : ClusterState N} (h : SameEpochs st st') (s : NodeRef) :
    (st'.heap s).map (fun n => (n.name, n.flags.handshake))
      = (st.heap s).map fun n => (n.name, n.flags.handshake) := by
  have heq := congrArg (Option.map fun p => (p.1, p.2.2)) (h.heap s)
  rwa [Option.map_map, Option.map_map] at heq

omit [LinearOrder N] in
theorem withEpochs_epochOf {st : ClusterState N} {r : NodeRef} {n : ClusterNode N}
    {hdr : ClusterMsg N} (s : NodeRef) : epochOf (st.withEpochs r n hdr) s
      = if s = r then some (max n.configEpoch hdr.configEpoch) else epochOf st s := by
  by_cases hs : s = r
  · subst hs
    simp [epochOf, withEpochs, setNode]
  · simp [epochOf, withEpochs, setNode, hs]

theorem pingOutcome_of_sameEpochs {st st' : ClusterState N} {hdr : ClusterMsg N} {r : NodeRef}
    {n me : ClusterNode N} (hknown : KnownAs st hdr.sender r n) (hme : st.heap st.myself = some me)
    (h : SameEpochs (st.withEpochs r n hdr) st')
    (hmaster : role st' st.myself = some true → role st st.myself = some true)
    (hyields : me.name < hdr.sender → hdr.slaveof = none → role st' st.myself = some true →
      n.configEpoch ≤ hdr.configEpoch → hdr.configEpoch ≠ me.configEpoch) :
    PingOutcome st st' hdr r := by
  have hepoch : ∀ s, epochOf st' s
      = if s = r then some (max n.configEpoch hdr.configEpoch) else epochOf st s := fun s =>
    (h.epochOf s).trans (withEpochs_epochOf s)
  constructor
  · exact h.myself
  · exact h.nodes
  · intro s
    rw [h.identity s]
    by_cases hs : s = r
    · subst hs
      simp [withEpochs, setNode, hknown.heap]
    · simp [withEpochs, setNode, Function.update_of_ne hs]
  · intro s hs _
    rw [hepoch, if_neg hs]
  · intro n' hn'
    obtain rfl := Option.some_inj.mp (hknown.heap.symm.trans hn')
    rw [hepoch, if_pos rfl]
  · exact hmaster
  · refine Or.inl ⟨?_, h.currentEpoch⟩
    rw [h.myConfigEpoch, myConfigEpoch_eq hme]
    refine myConfigEpoch_eq ?_
    show Function.update st.heap r _ st.myself = _
    rw [Function.update_of_ne hknown.ne.symm, hme]
  · intro me' n' hme' hn' hlt hnone hrole hle heq
    obtain rfl := Option.some_inj.mp (hme.symm.trans hme')
    obtain rfl := Option.some_inj.mp (hknown.heap.symm.trans hn')
    exact absurd heq (hyields hlt hnone hrole hle)

theorem pingOutcome_bumped {st st₃ st' : ClusterState N} {hdr : ClusterMsg N} {r : NodeRef}
    {n me me₃ : ClusterNode N} (hknown : KnownAs st hdr.sender r n)
    (hme : st.heap st.myself = some me) (h : SameEpochs (st.withEpochs r n hdr) st₃)
    (hmaster : role st₃ st.myself = some true → role st st.myself = some true)
    (hme₃ : st₃.heap st.myself = some me₃) (h' : SameEpochs (st₃.bumped me₃) st')
    (hsame : SameSlots st₃ st') (hnone : hdr.slaveof = none)
    (heq : hdr.configEpoch = me.configEpoch) (hlt : me.name < hdr.sender) :
    PingOutcome st st' hdr r := by
  have hmyself : st₃.myself = st.myself := h.myself
  have hmyself' : st'.myself = st.myself := h'.myself.trans hmyself
  have hcur : st'.currentEpoch = nextEpoch (max st.currentEpoch hdr.currentEpoch) := by
    rw [h'.currentEpoch, ← show st₃.currentEpoch = max st.currentEpoch hdr.currentEpoch from
      h.currentEpoch]
    rfl
  have hself : (st₃.bumped me₃).heap st₃.myself
      = some { me₃ with configEpoch := nextEpoch st₃.currentEpoch } :=
    setNode_heap_self _ _ _
  have hconfig : st'.myConfigEpoch = st'.currentEpoch := by
    rw [h'.myConfigEpoch, h'.currentEpoch]
    exact myConfigEpoch_eq hself
  have hheap : ∀ s, s ≠ st.myself → (st₃.bumped me₃).heap s = st₃.heap s := fun s hs =>
    setNode_heap_of_ne _ _ (hmyself.symm ▸ hs)
  have hepoch : ∀ s, s ≠ st.myself → epochOf st' s
      = if s = r then some (max n.configEpoch hdr.configEpoch) else epochOf st s := by
    intro s hs
    rw [h'.epochOf, epochOf, hheap s hs, ← withEpochs_epochOf]
    exact h.epochOf s
  constructor
  · exact hmyself'
  · exact h'.nodes.trans h.nodes
  · intro s
    rw [h'.identity s]
    by_cases hs : s = st.myself
    · subst hs
      have hid := h.identity st.myself
      rw [hme₃] at hid
      rw [hmyself] at hself
      rw [hself]
      rw [show (st.withEpochs r n hdr).heap st.myself = st.heap st.myself from
        Function.update_of_ne hknown.ne.symm _ _] at hid
      exact hid
    · rw [hheap s hs, h.identity s]
      by_cases hsr : s = r
      · subst hsr
        simp [withEpochs, setNode, hknown.heap]
      · simp [withEpochs, setNode, Function.update_of_ne hsr]
  · intro s hs hs'
    rw [hepoch s hs', if_neg hs]
  · intro n' hn'
    obtain rfl := Option.some_inj.mp (hknown.heap.symm.trans hn')
    rw [hepoch r hknown.ne, if_pos rfl]
  · exact fun htrue => hmaster ((hsame.role _).symm.trans htrue)
  · exact Or.inr ⟨hnone, heq.trans (myConfigEpoch_eq hme).symm, hcur, hconfig, me, hme, hlt⟩
  · exact fun _ _ _ _ _ _ _ _ _ => ⟨hconfig, hcur⟩

theorem clusterProcessPing_epochs {st : ClusterState N} {hdr : ClusterMsg N} {r : NodeRef}
    {n me : ClusterNode N} (hlookup : clusterLookupNode st hdr.sender = some r)
    (hknown : KnownAs st hdr.sender r n) (hme : st.heap st.myself = some me) :
    (clusterProcessPing st hdr).Ensures AnyFault fun st' => PingOutcome st st' hdr r := by
  simp only [clusterProcessPing, hlookup, node_eq_ok hknown.heap, ok_bind, hknown.handshake,
    Bool.false_eq_true, if_false]
  refine Ensures.bind (Q := fun st₁ => SameEpochs (st.withEpochs r n hdr) st₁ ∧ SameSlots st st₁)
    ((updateEpochs_spec hknown.heap hdr).and ((updateEpochs_sameSlots st r hdr).mono
      (fun _ _ => trivial) fun _ h => h)) fun st₁ h₁ => ?_
  refine ((roleSwitch_sameEpochs st₁ r hdr).and (roleSwitch_role st₁ r hdr)).bind fun st₂ h₂ => ?_
  refine ((updateSlots_sameEpochs st₂ r _ hdr).and (updateSlots_role st₂ r _ hdr)).bind
    fun st₃ h₃ => ?_
  have h : SameEpochs (st.withEpochs r n hdr) st₃ := (h₁.1.trans h₂.1).trans h₃.1
  have hmyself₂ : st₂.myself = st.myself := h₂.2.1.myself.trans h₁.2.myself
  have hmyself₃ : st₃.myself = st.myself := h₃.2.1.myself.trans hmyself₂
  rw [hmyself₂] at h₃
  have hmaster : role st₃ st.myself = some true → role st st.myself = some true := fun htrue =>
    (h₁.2.role _).symm.trans ((h₂.2.1.role _ hknown.ne.symm).symm.trans (h₃.2.2 htrue))
  have hrole : role st₃ r = some hdr.slaveof.isNone :=
    (h₃.2.1.role r hknown.ne).trans h₂.2.2
  -- the sender and this node as they are now
  refine (node_ensures trivial st₃ r).bind fun n₃ hn₃ => ?_
  refine (node_ensures trivial st₃ st₃.myself).bind fun me₃ hme₃ => ?_
  obtain ⟨m, hm, hname, hepoch, -⟩ := h.node (r := r) (setNode_heap_self _ _ _)
  obtain rfl := Option.some_inj.mp (hn₃.symm.trans hm)
  have hmeBase : (st.withEpochs r n hdr).heap st.myself = some me := by
    show Function.update st.heap r _ st.myself = _
    rw [Function.update_of_ne hknown.ne.symm, hme]
  obtain ⟨m, hm, hmeName, hmeEpoch, -⟩ := h.node hmeBase
  rw [hmyself₃] at hme₃
  obtain rfl := Option.some_inj.mp (hme₃.symm.trans hm)
  have hn₃master : n₃.flags.master = hdr.slaveof.isNone := by
    rw [role, hn₃] at hrole
    exact Option.some_inj.mp hrole
  have hme₃master : role st₃ st.myself = some me₃.flags.master := by
    rw [role, hme₃]
    rfl
  have hout : (me.name < hdr.sender → hdr.slaveof = none → role st₃ st.myself = some true →
      n.configEpoch ≤ hdr.configEpoch → hdr.configEpoch ≠ me.configEpoch) →
        PingOutcome st st₃ hdr r := fun hyields =>
    pingOutcome_of_sameEpochs hknown hme h hmaster hyields
  split
  · rename_i hcheck
    have hme₃' : st₃.heap st₃.myself = some me₃ := hmyself₃.symm ▸ hme₃
    refine ((clusterHandleConfigEpochCollision_spec hn₃ hme₃').and
      ((clusterHandleConfigEpochCollision_sameSlots st₃ r).mono (fun _ _ => trivial)
        fun _ h => h)).imp fun st' hst' => ?_
    obtain ⟨h', hsame⟩ := hst'
    rcases h' with ⟨hno, rfl⟩ | ⟨hyes, h'⟩
    · refine hout fun hlt hnone hmaster' hle heq => hno ⟨?_, hcheck.2.1, hcheck.1, ?_⟩
      · rw [hepoch, hmeEpoch, max_eq_right hle, heq]
      · rwa [hmeName, hname, hknown.name]
    · have hnone : hdr.slaveof = none := by
        rw [← Option.isNone_iff_eq_none, ← hn₃master]
        exact hcheck.2.1
      refine pingOutcome_bumped hknown hme h hmaster hme₃ h' hsame hnone ?_ ?_
      · rw [hcheck.2.2, hmeEpoch]
      · rw [← hmeName, ← hknown.name, ← hname]
        exact hyes.2.2.2
  · rename_i hcheck
    refine hout fun hlt hnone hmaster' hle heq => hcheck ⟨?_, ?_, ?_⟩
    · exact Option.some_inj.mp (hme₃master.symm.trans hmaster')
    · rw [hn₃master, hnone]
      rfl
    · rw [hmeEpoch, heq]

end

end ClusterState

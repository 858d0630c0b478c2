/-
Convergence of the slot tables.

Masters claim slots together with a new configuration epoch, take new epochs and announce
both; every node updates its table when it processes such a heartbeat.  A run records the
epochs and slots each node has had and the heartbeats each node processed.

* `claimStep`, `Follows` — the steps of the cluster, and the rules the masters follow;
* `Converging` — the invariant: the tables bind slots to nodes that claimed them, and the
  newest claim that a node processed is in its table;
* `run_slotsConverge` — the tables agree on a slot if no other node that ever claimed it has
  had a configuration epoch as great as that of its owner;
* `run_lateBump` — an old owner that takes a new epoch after it gave up a slot.
-/
import RedisModel.ConfigEpochsRun
import RedisModel.SlotClaims

open Except

namespace ClusterState

/-! ### The cluster -/

/-- The nodes, the heartbeats on the links, the configuration epochs and slots that a node
has had, and the heartbeats that a node processed of another one. -/
structure ClaimWorld (N : Type) where
  node : N → ClusterState N
  link : N → N → List (ClusterMsg N)
  past : N → List (ℕ × (Slot → Bool))
  heard : N → N → List (ClusterMsg N)

inductive ClaimEvent (N : Type) where
  /-- Node `i` claims slots with a new configuration epoch. -/
  | claim (i : N) (epoch : ℕ) (slots : List Slot)
  /-- Node `i` takes a new configuration epoch. -/
  | bump (i : N) (epoch : ℕ)
  /-- Node `j`, a master, sends a heartbeat to node `i`. -/
  | send (j i : N) (offset : ℤ)
  /-- Node `i` processes the first heartbeat on the link from node `j`. -/
  | receive (j i : N)
  /-- The first heartbeat on the link is lost. -/
  | lose (j i : N)

section
variable {N : Type}

/-- The slots this node announces when it is a master. -/
def mySlots (st : ClusterState N) (slot : Slot) : Bool :=
  match st.heap st.myself with
  | some me => me.slots slot
  | none => false

/-- This node takes a configuration epoch. -/
def setEpoch (st : ClusterState N) (epoch : ℕ) : Result (ClusterState N) := do
  let st ← st.modifyNode st.myself fun n => { n with configEpoch := epoch }
  .ok { st with currentEpoch := max st.currentEpoch epoch }

/-- This node takes a slot from its owner. -/
def takeSlot (st : ClusterState N) (slot : Slot) : Result (ClusterState N) := do
  let (st, _) ← clusterDelSlot st slot
  let (st, _) ← clusterAddSlot st st.myself slot
  .ok st

/-- This node, which becomes a master if it is none, claims slots with a configuration
epoch. -/
def takeSlots (st : ClusterState N) (epoch : ℕ) (slots : List Slot) : Result (ClusterState N) := do
  let st ← clusterSetNodeAsMaster st st.myself
  let st ← slots.foldlM takeSlot st
  setEpoch st epoch

end

section
variable {N : Type} [LinearOrder N]

namespace ClaimWorld

/-- The configuration epoch of a node. -/
def config (w : ClaimWorld N) (i : N) : ℕ := (w.node i).myConfigEpoch

/-- Node `i` has a new state. -/
def advance (w : ClaimWorld N) (i : N) (st : ClusterState N) : ClaimWorld N :=
  { w with
    node := Function.update w.node i st
    past := Function.update w.past i ((st.myConfigEpoch, st.mySlots) :: w.past i) }

/-- Change the heartbeats on a link. -/
def setLink (w : ClaimWorld N) (j i : N) (hdrs : List (ClusterMsg N)) : ClaimWorld N :=
  { w with link := fun a b => if a = j ∧ b = i then hdrs else w.link a b }

/-- Node `i` processed a heartbeat of node `j`. -/
def hear (w : ClaimWorld N) (i j : N) (hdr : ClusterMsg N) : ClaimWorld N :=
  { w with heard := fun a b => if a = i ∧ b = j then hdr :: w.heard i j else w.heard a b }

end ClaimWorld

/-- One step of the cluster. -/
def claimStep (w : ClaimWorld N) : ClaimEvent N → Option (ClaimWorld N)
  | .claim i epoch slots => (takeSlots (w.node i) epoch slots).toOption.map (w.advance i)
  | .bump i epoch => (setEpoch (w.node i) epoch).toOption.map (w.advance i)
  | .send j i offset =>
    if j = i then none
    else match (clusterBuildMessageHdr (w.node j) offset).toOption with
      | none => none
      | some hdr => if hdr.slaveof = none then some (w.setLink j i (w.link j i ++ [hdr])) else none
  | .receive j i => match w.link j i with
    | [] => none
    | hdr :: hdrs => (clusterProcessPing (w.node i) hdr).toOption.map fun st =>
      ((w.setLink j i hdrs).advance i st).hear i j hdr
  | .lose j i => some (w.setLink j i (w.link j i).tail)

/-- The rules: a slot is claimed with an epoch greater than all there are, and no two nodes
have the same epoch. -/
def Follows (w : ClaimWorld N) : ClaimEvent N → Prop
  | .claim _ epoch _ => ∀ k r n, (w.node k).heap r = some n → n.configEpoch < epoch
  | .bump i epoch => w.config i < epoch ∧ ∀ k, k ≠ i → w.config k ≠ epoch
  | _ => True

/-! ### What a node does by itself -/

omit [LinearOrder N] in
/-- A step of a node that learns nothing: it may claim slots. -/
structure OwnStep (st st' : ClusterState N) : Prop where
  myself : st'.myself = st.myself
  nodes : st'.nodes = st.nodes
  identity : ∀ s, (st'.heap s).map (fun n => (n.name, n.flags.handshake))
    = (st.heap s).map fun n => (n.name, n.flags.handshake)
  others : ∀ s, s ≠ st.myself → epochOf st' s = epochOf st s
  slots : ∀ slot, st'.slots slot = st.slots slot ∨ st'.slots slot = some st.myself
  imports : ∀ slot, st.importingSlotsFrom slot = none → st'.importingSlotsFrom slot = none

omit [LinearOrder N] in
theorem OwnStep.trans {st₁ st₂ st₃ : ClusterState N} (h : OwnStep st₁ st₂)
    (h' : OwnStep st₂ st₃) : OwnStep st₁ st₃ := by
  constructor
  · exact h'.myself.trans h.myself
  · exact h'.nodes.trans h.nodes
  · exact fun s => (h'.identity s).trans (h.identity s)
  · intro s hs
    rw [h'.others s (h.myself.symm ▸ hs), h.others s hs]
  · intro slot
    rcases h'.slots slot with heq | heq
    · rw [heq]
      exact h.slots slot
    · rw [heq, h.myself]
      exact Or.inr rfl
  · exact fun slot hnone => h'.imports slot (h.imports slot hnone)

omit [LinearOrder N] in
theorem OwnStep.known {st st' : ClusterState N} (h : OwnStep st st') {x : N} {r : NodeRef}
    {n : ClusterNode N} (hn : KnownAs st x r n) :
    ∃ n', KnownAs st' x r n' ∧ n'.configEpoch = n.configEpoch := by
  have hid := h.identity r
  rw [hn.heap, Option.map_some] at hid
  obtain ⟨n', hn', heq⟩ := Option.map_eq_some_iff.mp hid
  rw [Prod.mk.injEq] at heq
  refine ⟨n', ⟨h.myself.symm ▸ hn.ne, hn', heq.1.trans hn.name, heq.2.trans hn.handshake⟩, ?_⟩
  have hepoch := h.others r hn.ne
  rw [epochOf, epochOf, hn', hn.heap] at hepoch
  exact Option.some_inj.mp hepoch

omit [LinearOrder N] in
theorem SameEpochs.ownStep {st st' : ClusterState N} (h : SameEpochs st st')
    (hslots : ∀ slot, st'.slots slot = st.slots slot ∨ st'.slots slot = some st.myself)
    (himports : ∀ slot, st.importingSlotsFrom slot = none → st'.importingSlotsFrom slot = none) :
    OwnStep st st' :=
  ⟨h.myself, h.nodes, h.identity, fun s _ => h.epochOf s, hslots, himports⟩

omit [LinearOrder N] in
theorem setEpoch_spec {st : ClusterState N} (hgood : Good st) (epoch : ℕ) :
    (setEpoch st epoch).Ensures AnyFault fun st' =>
      Good st' ∧ OwnStep st st' ∧ st'.myConfigEpoch = epoch ∧ st'.slots = st.slots := by
  obtain ⟨me, hme, -⟩ := hgood.slaveEmpty
  simp only [setEpoch, modifyNode, node_eq_ok hme, ok_bind]
  have hsame : SameSlots st (st.setNode st.myself { me with configEpoch := epoch }) :=
    sameSlots_setNode hme rfl rfl rfl
  refine ⟨(hsame.good hgood).of_eq rfl rfl rfl, ?_, ?_, rfl⟩
  · constructor
    · rfl
    · rfl
    · intro s
      by_cases hs : s = st.myself
      · subst hs
        simp [setNode, hme]
      · simp [setNode, hs]
    · intro s hs
      simp [epochOf, setNode, hs]
    · exact fun _ => Or.inl rfl
    · exact fun _ => id
  · have hself : (st.setNode st.myself { me with configEpoch := epoch }).heap st.myself
        = some { me with configEpoch := epoch } := setNode_heap_self _ _ _
    exact myConfigEpoch_eq hself

omit [LinearOrder N] in
theorem takeSlot_spec {st : ClusterState N} (hgood : Good st) (hmaster : IsMaster st)
    (slot : Slot) : (takeSlot st slot).Ensures AnyFault fun st' =>
      Good st' ∧ IsMaster st' ∧ OwnStep st st' := by
  refine ((clusterDelSlot_spec hgood.slotsOk slot).and ((clusterDelSlot_sameEpochs st slot).and
    (clusterDelSlot_slots st slot))).bind fun p₁ hp₁ => ?_
  obtain ⟨⟨hok₁, hroles₁, hslots₁, -⟩, hepochs₁, -, himports₁⟩ := hp₁
  have hfree : p₁.1.slots slot = none := by rw [hslots₁, Function.update_self]
  refine ((clusterAddSlot_spec trivial hok₁ p₁.1.myself hfree).and
    ((clusterAddSlot_sameEpochs p₁.1 p₁.1.myself slot).and
      (clusterAddSlot_slots p₁.1 p₁.1.myself hfree))).bind fun p₂ hp₂ => ?_
  obtain ⟨⟨hok₂, hroles₂, hslots₂, -⟩, hepochs₂, -, himports₂⟩ := hp₂
  have hroles := hroles₁.trans hroles₂
  refine ⟨hroles.good_of_isMaster hok₂ hgood.slaveEmpty hmaster, hroles.isMaster hmaster, ?_⟩
  refine (SameEpochs.trans hepochs₁ hepochs₂).ownStep (fun s => ?_) fun s hnone => ?_
  · rw [hslots₂, hslots₁, hepochs₁.myself]
    by_cases hs : s = slot
    · subst hs
      exact Or.inr (Function.update_self _ _ _)
    · rw [Function.update_of_ne hs, Function.update_of_ne hs]
      exact Or.inl rfl
  · rw [himports₂, himports₁, hnone]

omit [LinearOrder N] in
theorem takeSlots_spec {st : ClusterState N} (hgood : Good st) (epoch : ℕ) (slots : List Slot) :
    (takeSlots st epoch slots).Ensures AnyFault fun st' =>
      Good st' ∧ OwnStep st st' ∧ st'.myConfigEpoch = epoch := by
  refine ((clusterSetNodeAsMaster_spec trivial hgood st.myself).and
    ((clusterSetNodeAsMaster_sameEpochs st st.myself).and
      (clusterSetNodeAsMaster_sameTable st st.myself))).bind fun st₁ h₁ => ?_
  obtain ⟨⟨hgood₁, hmyself₁, n, hn, hflag⟩, hepochs₁, htable₁⟩ := h₁
  have hmaster₁ : IsMaster st₁ := by
    intro n' hn'
    rw [hmyself₁] at hn'
    obtain rfl := Option.some_inj.mp (hn.symm.trans hn')
    exact hflag
  have hown₁ : OwnStep st st₁ :=
    hepochs₁.ownStep (fun slot => Or.inl (congrFun htable₁.slots slot)) htable₁.imports
  refine Ensures.bind (Q := fun st' => Good st' ∧ IsMaster st' ∧ OwnStep st st') ?_
    fun st₂ h₂ => ?_
  · refine Ensures.foldlM (fun st' slot _ h => ?_) ⟨hgood₁, hmaster₁, hown₁⟩
    exact (takeSlot_spec h.1 h.2.1 slot).imp fun st'' h'' => ⟨h''.1, h''.2.1, h.2.2.trans h''.2.2⟩
  · exact (setEpoch_spec h₂.1 epoch).imp fun st' h => ⟨h.1, h₂.2.2.trans h.2.1, h.2.2.1⟩

/-! ### The invariant -/

/-- Node `x` has claimed the slot at some time. -/
def Claimed (w : ClaimWorld N) (x : N) (slot : Slot) : Prop :=
  ∃ p ∈ w.past x, p.2 slot = true

/-- Every other node that ever claimed the slot has had smaller configuration epochs only. -/
def Newest (w : ClaimWorld N) (j : N) (epoch : ℕ) (slot : Slot) : Prop :=
  ∀ x, x ≠ j → Claimed w x slot → ∀ p ∈ w.past x, p.1 < epoch

/-- Node `i` knows node `j` at an address, with a configuration epoch that it has had or a
smaller one. -/
structure Knowing (w : ClaimWorld N) (i j : N) (r : NodeRef) (n : ClusterNode N) : Prop where
  lookup : clusterLookupNode (w.node i) j = some r
  known : KnownAs (w.node i) j r n
  epoch : ∃ p ∈ w.past j, n.configEpoch ≤ p.1

/-- The slot is bound to node `j` in the table of node `i`, with an epoch not smaller than
the one given. -/
def BoundAt (w : ClaimWorld N) (i j : N) (epoch : ℕ) (slot : Slot) : Prop :=
  ∃ r n, clusterLookupNode (w.node i) j = some r ∧ (w.node i).heap r = some n ∧
    epoch ≤ n.configEpoch ∧ (w.node i).slots slot = some r

/-- `quiet i slot` says that node `i` does not import the slot. -/
structure Converging (quiet : N → Slot → Prop) (w : ClaimWorld N) : Prop where
  named : ∀ i, Named i (w.node i)
  good : ∀ i, Good (w.node i)
  imports : ∀ i slot, quiet i slot → (w.node i).importingSlotsFrom slot = none
  present : ∀ i, (w.config i, (w.node i).mySlots) ∈ w.past i
  knows : ∀ i j, i ≠ j → ∃ r n, Knowing w i j r n
  bound : ∀ i slot o, (w.node i).slots slot = some o → o ≠ (w.node i).myself →
    ∃ x, x ≠ i ∧ clusterLookupNode (w.node i) x = some o ∧ Claimed w x slot
  hdrs : ∀ j i, ∀ hdr ∈ w.link j i, j ≠ i ∧ hdr.sender = j ∧ hdr.slaveof = none ∧
    (hdr.configEpoch, hdr.myslots) ∈ w.past j
  heard : ∀ i j, ∀ hdr ∈ w.heard i j, i ≠ j ∧ (hdr.configEpoch, hdr.myslots) ∈ w.past j ∧
    ∀ slot, quiet i slot → hdr.myslots slot = true → Newest w j hdr.configEpoch slot →
      BoundAt w i j hdr.configEpoch slot

variable {quiet : N → Slot → Prop} {w : ClaimWorld N} {i j : N} {st : ClusterState N}

omit [LinearOrder N] in
theorem SlotsOk.mySlots {st : ClusterState N} (h : SlotsOk st) {slot : Slot} :
    st.mySlots slot = true ↔ st.slots slot = some st.myself := by
  constructor
  · intro hslot
    rw [ClusterState.mySlots] at hslot
    split at hslot
    · rename_i me hme
      exact h.bitmap _ me slot hme hslot
    · cases hslot
  · intro hslot
    obtain ⟨me, hme, hbit⟩ := h.table slot _ hslot
    rw [ClusterState.mySlots, hme]
    exact hbit

omit [LinearOrder N] in
theorem past_advance (w : ClaimWorld N) (k : N) (st : ClusterState N) [DecidableEq N]
    {p : ℕ × (Slot → Bool)} {x : N} (h : p ∈ w.past x) :
    p ∈ Function.update w.past k ((st.myConfigEpoch, st.mySlots) :: w.past k) x := by
  by_cases hx : x = k
  · subst hx
    rw [Function.update_self]
    exact List.mem_cons_of_mem _ h
  · rwa [Function.update_of_ne hx]

theorem Claimed.advance {x : N} {slot : Slot} (h : Claimed w x slot) :
    Claimed (w.advance i st) x slot := by
  obtain ⟨p, hp, hslot⟩ := h
  exact ⟨p, past_advance w i st hp, hslot⟩

theorem Newest.of_advance {epoch : ℕ} {slot : Slot} (h : Newest (w.advance i st) j epoch slot) :
    Newest w j epoch slot :=
  fun x hx hclaimed p hp => h x hx hclaimed.advance p (past_advance w i st hp)

theorem advance_node_self (w : ClaimWorld N) : (w.advance i st).node i = st :=
  Function.update_self _ _ _

theorem advance_node_of_ne (w : ClaimWorld N) {k : N} (hk : k ≠ i) :
    (w.advance i st).node k = w.node k :=
  Function.update_of_ne hk _ _

theorem advance_present (w : ClaimWorld N) :
    (st.myConfigEpoch, st.mySlots) ∈ (w.advance i st).past i := by
  show _ ∈ Function.update w.past i _ i
  rw [Function.update_self]
  exact List.mem_cons_self

theorem Converging.advance (h : Converging quiet w) (hname : Named i st) (hgood : Good st)
    (himports : ∀ slot, quiet i slot → st.importingSlotsFrom slot = none)
    (hknows : ∀ x, i ≠ x → ∃ r n, clusterLookupNode st x = some r ∧ KnownAs st x r n ∧
      ∃ p ∈ w.past x, n.configEpoch ≤ p.1)
    (hbound : ∀ slot o, st.slots slot = some o → o ≠ st.myself →
      ∃ x, x ≠ i ∧ clusterLookupNode st x = some o ∧ Claimed w x slot)
    (hheard : ∀ x, ∀ hdr ∈ w.heard i x, ∀ slot, quiet i slot → hdr.myslots slot = true →
      Newest (w.advance i st) x hdr.configEpoch slot →
        BoundAt (w.advance i st) i x hdr.configEpoch slot) :
    Converging quiet (w.advance i st) := by
  -- a fact about every node holds if it holds of the others and of `st`
  have hnode : ∀ {P : N → ClusterState N → Prop}, (∀ k, k ≠ i → P k (w.node k)) → P i st →
      ∀ k, P k ((w.advance i st).node k) := by
    intro P hP hst k
    by_cases hk : k = i
    · subst hk
      rwa [advance_node_self]
    · rw [advance_node_of_ne w hk]
      exact hP k hk
  constructor
  · exact hnode (P := Named) (fun k _ => h.named k) hname
  · exact hnode (P := fun _ st => Good st) (fun k _ => h.good k) hgood
  · exact hnode (P := fun k st => ∀ slot, quiet k slot → st.importingSlotsFrom slot = none)
      (fun k _ => h.imports k) himports
  · refine hnode (P := fun k st' => (st'.myConfigEpoch, st'.mySlots) ∈ (w.advance i st).past k)
      (fun k _ => past_advance w i st (h.present k)) (advance_present w)
  · intro k x hkx
    by_cases hk : k = i
    · subst hk
      obtain ⟨r, n, hr, hn, p, hp, hle⟩ := hknows x hkx
      refine ⟨r, n, ?_, ?_, p, past_advance w k st hp, hle⟩
      · rwa [advance_node_self]
      · rwa [advance_node_self]
    · obtain ⟨r, n, hr, hn, p, hp, hle⟩ := h.knows k x hkx
      refine ⟨r, n, ?_, ?_, p, past_advance w i st hp, hle⟩
      · rwa [advance_node_of_ne w hk]
      · rwa [advance_node_of_ne w hk]
  · refine hnode (P := fun k st' => ∀ slot o, st'.slots slot = some o → o ≠ st'.myself →
      ∃ x, x ≠ k ∧ clusterLookupNode st' x = some o ∧ Claimed (w.advance i st) x slot) ?_ ?_
    · intro k _ slot o ho hne
      obtain ⟨x, hx, hlookup, hclaimed⟩ := h.bound k slot o ho hne
      exact ⟨x, hx, hlookup, hclaimed.advance⟩
    · intro slot o ho hne
      obtain ⟨x, hx, hlookup, hclaimed⟩ := hbound slot o ho hne
      exact ⟨x, hx, hlookup, hclaimed.advance⟩
  · intro a b hdr hmem
    obtain ⟨hab, hsender, hnone, hpast⟩ := h.hdrs a b hdr hmem
    exact ⟨hab, hsender, hnone, past_advance w i st hpast⟩
  · intro k x hdr hmem
    obtain ⟨hkx, hpast, hold⟩ := h.heard k x hdr hmem
    refine ⟨hkx, past_advance w i st hpast, fun slot hquiet hbit hnewest => ?_⟩
    by_cases hk : k = i
    · subst hk
      exact hheard x hdr hmem slot hquiet hbit hnewest
    · obtain ⟨r, n, hr, hn, hle, hslot⟩ := hold slot hquiet hbit hnewest.of_advance
      exact ⟨r, n, by rwa [advance_node_of_ne w hk], by rwa [advance_node_of_ne w hk], hle,
        by rwa [advance_node_of_ne w hk]⟩

theorem Converging.own (h : Converging quiet w) (hown : OwnStep (w.node i) st) (hgood : Good st)
    (hnew : ∀ slot, st.slots slot ≠ (w.node i).slots slot → ∀ r n, (w.node i).heap r = some n →
      n.configEpoch < st.myConfigEpoch) : Converging quiet (w.advance i st) := by
  have hlookup : ∀ x, clusterLookupNode st x = clusterLookupNode (w.node i) x := by
    intro x
    rw [clusterLookupNode, clusterLookupNode, hown.nodes]
  refine h.advance ?_ hgood ?_ ?_ ?_ ?_
  · have hname := congrArg (Option.map Prod.fst) (hown.identity (w.node i).myself)
    rw [Option.map_map, Option.map_map] at hname
    rw [Named, hown.myself]
    exact hname.trans (h.named i)
  · exact fun slot hquiet => hown.imports slot (h.imports i slot hquiet)
  · intro x hx
    obtain ⟨r, n, hr, hn, p, hp, hle⟩ := h.knows i x hx
    obtain ⟨n', hn', heq⟩ := hown.known hn
    exact ⟨r, n', by rw [hlookup, hr], hn', p, hp, heq ▸ hle⟩
  · intro slot o ho hne
    rcases hown.slots slot with heq | heq
    · obtain ⟨x, hx, hr, hclaimed⟩ := h.bound i slot o (heq ▸ ho) (hown.myself ▸ hne)
      exact ⟨x, hx, by rw [hlookup, hr], hclaimed⟩
    · exact absurd (hown.myself ▸ Option.some_inj.mp (heq.symm.trans ho)).symm hne
  · intro x hdr hmem slot hquiet hbit hnewest
    obtain ⟨hix, -, hold⟩ := h.heard i x hdr hmem
    obtain ⟨r, n, hr, hn, hle, hslot⟩ := hold slot hquiet hbit hnewest.of_advance
    obtain ⟨r', n', hr', hn', -⟩ := h.knows i x hix
    obtain rfl := Option.some_inj.mp (hr.symm.trans hr')
    obtain rfl := Option.some_inj.mp (hn.symm.trans hn'.heap)
    obtain ⟨m, hm, heq⟩ := hown.known hn'
    refine ⟨r, m, ?_, ?_, heq.symm ▸ hle, ?_⟩
    · rw [advance_node_self, hlookup, hr]
    · rw [advance_node_self]
      exact hm.heap
    · rw [advance_node_self]
      by_contra hchanged
      -- the slot was taken, with an epoch greater than that of its owner
      have hlt := hnew slot (hslot ▸ hchanged) r n hn
      have hmine : st.slots slot = some st.myself := by
        rcases hown.slots slot with hsame | hmine
        · exact absurd (hsame.trans hslot) hchanged
        · rw [hmine, hown.myself]
      have hclaimed : Claimed (w.advance i st) i slot :=
        ⟨_, advance_present w, hgood.slotsOk.mySlots.mpr hmine⟩
      have hsmaller : st.myConfigEpoch < hdr.configEpoch :=
        hnewest i hix hclaimed _ (advance_present w)
      omega

theorem Converging.outdated (h : Converging quiet w) {epoch : ℕ} {slot : Slot} {r : NodeRef}
    (hij : i ≠ j) (hlookup : clusterLookupNode (w.node i) j = some r)
    (hnewest : Newest w j epoch slot) : Outdated (w.node i) r epoch slot := by
  intro o ho
  by_cases hmine : o = (w.node i).myself
  · subst hmine
    have hclaimed : Claimed w i slot :=
      ⟨_, h.present i, (h.good i).slotsOk.mySlots.mpr ho⟩
    obtain ⟨me, hme, -⟩ := (h.good i).slaveEmpty
    have hlt : w.config i < epoch := hnewest i hij hclaimed _ (h.present i)
    exact Or.inr ⟨me, hme, (myConfigEpoch_eq hme).symm.trans_lt hlt⟩
  · obtain ⟨x, hxi, hx, hclaimed⟩ := h.bound i slot o ho hmine
    by_cases hxj : x = j
    · subst hxj
      exact Or.inl (Option.some_inj.mp (hx.symm.trans hlookup))
    · obtain ⟨r', n, hr', hn, p, hp, hle⟩ := h.knows i x hxi.symm
      obtain rfl := Option.some_inj.mp (hx.symm.trans hr')
      exact Or.inr ⟨n, hn.heap, hle.trans_lt (hnewest x hxj hclaimed p hp)⟩

theorem Converging.hear (h : Converging quiet w) {hdr : ClusterMsg N} (hij : i ≠ j)
    (hpast : (hdr.configEpoch, hdr.myslots) ∈ w.past j)
    (hbound : ∀ slot, quiet i slot → hdr.myslots slot = true → Newest w j hdr.configEpoch slot →
      BoundAt w i j hdr.configEpoch slot) : Converging quiet (w.hear i j hdr) := by
  constructor
  · exact h.named
  · exact h.good
  · exact h.imports
  · exact h.present
  · intro a b hab
    obtain ⟨r, n, hr, hn, hp⟩ := h.knows a b hab
    exact ⟨r, n, hr, hn, hp⟩
  · exact h.bound
  · exact h.hdrs
  · intro a b hdr' hmem
    simp only [ClaimWorld.hear] at hmem
    split at hmem
    · rename_i hab
      obtain ⟨rfl, rfl⟩ := hab
      rcases List.mem_cons.mp hmem with rfl | hmem
      · exact ⟨hij, hpast, hbound⟩
      · exact h.heard a b hdr' hmem
    · exact h.heard a b hdr' hmem

theorem Converging.receive (h : Converging quiet w) {hdr : ClusterMsg N}
    {hdrs : List (ClusterMsg N)} (hlink : w.link j i = hdr :: hdrs)
    (hping : clusterProcessPing (w.node i) hdr = .ok st) :
    Converging quiet ((w.advance i st).hear i j hdr) := by
  obtain ⟨hji, hsender, hslaveof, hpast⟩ := h.hdrs j i hdr (hlink ▸ List.mem_cons_self)
  obtain ⟨r, n, hr, hn, p, hp, hle⟩ := h.knows i j hji.symm
  obtain ⟨me, hme, -⟩ := (h.good i).slaveEmpty
  have hr' : clusterLookupNode (w.node i) hdr.sender = some r := by rw [hsender, hr]
  have hn' : KnownAs (w.node i) hdr.sender r n := by rwa [hsender]
  have hout := (clusterProcessPing_epochs hr' hn' hme).of_eq_ok hping
  obtain ⟨himports, htable⟩ := (clusterProcessPing_table (h.good i) hr' hn' hslaveof).of_eq_ok hping
  have hgood : Good st := (clusterProcessPing_good (h.good i) hdr).of_eq_ok hping
  have hlookup : ∀ x, clusterLookupNode st x = clusterLookupNode (w.node i) x := by
    intro x
    rw [clusterLookupNode, clusterLookupNode, hout.nodes]
  have hadvance : Converging quiet (w.advance i st) := by
    refine h.advance (hout.named (h.named i)) hgood ?_ ?_ ?_ ?_
    · exact fun slot hquiet => himports slot (h.imports i slot hquiet)
    · intro x hx
      obtain ⟨s, m, hs, hm, q, hq, hmq⟩ := h.knows i x hx
      obtain ⟨m', hm', hepoch⟩ := hout.known hm
      refine ⟨s, m', by rw [hlookup, hs], hm', ?_⟩
      rw [hepoch]
      split
      · rename_i hsr
        subst hsr
        -- a node has one name
        obtain rfl := Option.some_inj.mp (hm.heap.symm.trans hn.heap)
        obtain rfl : x = j := hm.name.symm.trans hn.name
        rcases le_total m.configEpoch hdr.configEpoch with hmax | hmax
        · exact ⟨_, hpast, (max_eq_right hmax).le⟩
        · exact ⟨p, hp, (max_eq_left hmax).trans_le hle⟩
      · exact ⟨q, hq, hmq⟩
    · intro slot o ho hne
      rcases (htable slot).becomes with hsame | ⟨hsome, hbit, -⟩
      · rw [hout.myself] at hne
        obtain ⟨x, hx, hxo, hclaimed⟩ := h.bound i slot o (hsame.symm.trans ho) hne
        exact ⟨x, hx, by rw [hlookup, hxo], hclaimed⟩
      · obtain rfl := Option.some_inj.mp (hsome.symm.trans ho)
        exact ⟨j, hji, by rw [hlookup, hr], _, hpast, hbit⟩
    · intro x hdr' hmem slot hquiet hbit' hnewest
      obtain ⟨hix, hpast', hold⟩ := h.heard i x hdr' hmem
      obtain ⟨s, m, hs, hm, hge, hslot⟩ := hold slot hquiet hbit' hnewest.of_advance
      obtain ⟨s', m', hs', hknown, -⟩ := h.knows i x hix
      obtain rfl := Option.some_inj.mp (hs.symm.trans hs')
      obtain rfl := Option.some_inj.mp (hm.symm.trans hknown.heap)
      obtain ⟨k, hk, hepoch⟩ := hout.known hknown
      refine ⟨s, k, ?_, ?_, ?_, ?_⟩
      · rw [advance_node_self, hlookup, hs]
      · rw [advance_node_self]
        exact hk.heap
      · rw [hepoch]
        split
        · exact hge.trans (le_max_left _ _)
        · exact hge
      · rw [advance_node_self]
        rcases (htable slot).becomes with hsame | ⟨hsome, hbit, hout'⟩
        · rw [hsame, hslot]
        · -- the sender would have claimed the slot with a smaller epoch
          rcases hout' s hslot with rfl | ⟨m', hm', hlt⟩
          · exact hsome
          · obtain rfl := Option.some_inj.mp (hm.symm.trans hm')
            by_cases hxj : x = j
            · subst hxj
              rw [hsome, ← hr, hs]
            · have hclaimed : Claimed w j slot := ⟨_, hpast, hbit⟩
              have hsmaller : hdr.configEpoch < hdr'.configEpoch :=
                hnewest.of_advance j (Ne.symm hxj) hclaimed _ hpast
              omega
  refine hadvance.hear hji.symm (past_advance w i st hpast) fun slot hquiet hbit hnewest => ?_
  obtain ⟨k, hk, hepoch⟩ := hout.known hn
  refine ⟨r, k, ?_, ?_, ?_, ?_⟩
  · rw [advance_node_self, hlookup, hr]
  · rw [advance_node_self]
    exact hk.heap
  · rw [hepoch, if_pos rfl]
    exact le_max_right _ _
  · rw [advance_node_self]
    exact (htable slot).takes hbit (h.imports i slot hquiet)
      (h.outdated hji.symm hr hnewest.of_advance)

theorem Converging.setLink (h : Converging quiet w) {hdrs : List (ClusterMsg N)}
    (hhdrs : ∀ hdr ∈ hdrs, j ≠ i ∧ hdr.sender = j ∧ hdr.slaveof = none ∧
      (hdr.configEpoch, hdr.myslots) ∈ w.past j) : Converging quiet (w.setLink j i hdrs) := by
  constructor
  · exact h.named
  · exact h.good
  · exact h.imports
  · exact h.present
  · intro a b hab
    obtain ⟨r, n, hr, hn, hp⟩ := h.knows a b hab
    exact ⟨r, n, hr, hn, hp⟩
  · exact h.bound
  · intro a b hdr hmem
    simp only [ClaimWorld.setLink] at hmem
    split at hmem
    · rename_i hab
      obtain ⟨rfl, rfl⟩ := hab
      exact hhdrs hdr hmem
    · exact h.hdrs a b hdr hmem
  · exact h.heard

theorem Converging.send (h : Converging quiet w) (hne : j ≠ i) {offset : ℤ} {hdr : ClusterMsg N}
    (hhdr : clusterBuildMessageHdr (w.node j) offset = .ok hdr) (hnone : hdr.slaveof = none) :
    Converging quiet (w.setLink j i (w.link j i ++ [hdr])) := by
  refine h.setLink fun hdr' hmem => ?_
  rcases List.mem_append.mp hmem with hmem | hmem
  · exact h.hdrs j i hdr' hmem
  · obtain rfl := List.mem_singleton.mp hmem
    obtain ⟨hname, -⟩ := (clusterBuildMessageHdr_spec offset).of_eq_ok hhdr
    obtain ⟨me, hme, hconfig, hslots⟩ :=
      (clusterBuildMessageHdr_announces offset).of_eq_ok hhdr hnone
    have hmine : (w.node j).mySlots = me.slots := by
      funext slot
      rw [mySlots, hme]
    refine ⟨hne, Option.some_inj.mp (hname.symm.trans (h.named j)), hnone, ?_⟩
    rw [hconfig, hslots, ← hmine, ← myConfigEpoch_eq hme]
    exact h.present j

theorem Converging.step {w' : ClaimWorld N} (event : ClaimEvent N) (h : Converging quiet w)
    (hrule : Follows w event) (hstep : claimStep w event = some w') : Converging quiet w' := by
  cases event with
  | claim i epoch slots =>
    obtain ⟨st, hst, rfl⟩ := Option.map_eq_some_iff.mp hstep
    obtain ⟨hgood, hown, hconfig⟩ :=
      (takeSlots_spec (h.good i) epoch slots).of_eq_ok (toOption_eq_some.mp hst)
    exact h.own hown hgood fun _ _ r n hn => hconfig.symm ▸ hrule i r n hn
  | bump i epoch =>
    obtain ⟨st, hst, rfl⟩ := Option.map_eq_some_iff.mp hstep
    obtain ⟨hgood, hown, -, hslots⟩ :=
      (setEpoch_spec (h.good i) epoch).of_eq_ok (toOption_eq_some.mp hst)
    exact h.own hown hgood fun slot hne => absurd (congrFun hslots slot) hne
  | send j i offset =>
    rw [claimStep] at hstep
    split at hstep
    · cases hstep
    · rename_i hne
      split at hstep
      · cases hstep
      · rename_i hdr hhdr
        split at hstep
        · rename_i hnone
          obtain rfl := Option.some_inj.mp hstep
          exact h.send hne (toOption_eq_some.mp hhdr) hnone
        · cases hstep
  | receive j i =>
    rw [claimStep] at hstep
    split at hstep
    · cases hstep
    · rename_i hdr hdrs hlink
      obtain ⟨st, hping, rfl⟩ := Option.map_eq_some_iff.mp hstep
      have hnew := h.receive hlink (toOption_eq_some.mp hping)
      exact hnew.setLink fun hdr' hmem => hnew.hdrs j i hdr' (hlink ▸ List.mem_cons_of_mem _ hmem)
  | lose j i =>
    obtain rfl := Option.some_inj.mp hstep
    exact h.setLink fun hdr hmem => h.hdrs j i hdr (List.mem_of_mem_tail hmem)

/-! ### Runs -/

/-- The start of a run: the tables are true, every node knows the others and no epoch of
them that they do not have, and nothing was sent. -/
structure Started (w : ClaimWorld N) : Prop where
  named : ∀ i, Named i (w.node i)
  good : ∀ i, Good (w.node i)
  past : ∀ i, w.past i = [(w.config i, (w.node i).mySlots)]
  knows : ∀ i j, i ≠ j → ∃ r n, clusterLookupNode (w.node i) j = some r ∧
    KnownAs (w.node i) j r n ∧ n.configEpoch ≤ w.config j
  bound : ∀ i slot o, (w.node i).slots slot = some o → o ≠ (w.node i).myself →
    ∃ x, x ≠ i ∧ clusterLookupNode (w.node i) x = some o ∧ (w.node x).mySlots slot = true
  link : ∀ j i, w.link j i = []
  heard : ∀ i j, w.heard i j = []

theorem Started.converging (h : Started w) :
    Converging (fun i slot => (w.node i).importingSlotsFrom slot = none) w := by
  constructor
  · exact h.named
  · exact h.good
  · exact fun i slot hquiet => hquiet
  · intro i
    rw [h.past i]
    exact List.mem_singleton_self _
  · intro i j hij
    obtain ⟨r, n, hr, hn, hle⟩ := h.knows i j hij
    exact ⟨r, n, hr, hn, _, by rw [h.past j]; exact List.mem_singleton_self _, hle⟩
  · intro i slot o ho hne
    obtain ⟨x, hx, hlookup, hslot⟩ := h.bound i slot o ho hne
    exact ⟨x, hx, hlookup, _, by rw [h.past x]; exact List.mem_singleton_self _, hslot⟩
  · intro j i hdr hmem
    rw [h.link j i] at hmem
    exact absurd hmem List.not_mem_nil
  · intro i j hdr hmem
    rw [h.heard i j] at hmem
    exact absurd hmem List.not_mem_nil

/-- The slot is bound to the node with the name `x`. -/
def BoundTo (st : ClusterState N) (slot : Slot) (x : N) : Prop :=
  ∃ r n, st.slots slot = some r ∧ st.heap r = some n ∧ n.name = x

/-- Node `k` processed a heartbeat of node `j` with its present epoch and slots. -/
def Informed (w : ClaimWorld N) (k j : N) : Prop :=
  ∃ hdr ∈ w.heard k j, hdr.configEpoch = w.config j ∧ hdr.myslots = (w.node j).mySlots

/-- The tables of all nodes that know the present claims of the owner of a slot agree about
it, and no slot is bound that was never claimed. -/
theorem run_slotsConverge {w₀ : ClaimWorld N} {es : List (ClaimEvent N)} (hstart : Started w₀)
    (hrules : Runs.AllSteps claimStep Follows w₀ es) (hrun : Runs.run claimStep w₀ es = some w) :
    (∀ j slot, (w.node j).mySlots slot = true → Newest w j (w.config j) slot →
      ∀ k, (w₀.node k).importingSlotsFrom slot = none → k = j ∨ Informed w k j →
        BoundTo (w.node k) slot j) ∧
      ∀ slot, (∀ x, ¬ Claimed w x slot) → ∀ k, (w.node k).slots slot = none := by
  have h := Runs.run_invariant_of_allSteps (fun _ event _ => Converging.step event)
    hstart.converging hrules hrun
  constructor
  · intro j slot hslot hnewest k hquiet hk
    by_cases hkj : k = j
    · subst hkj
      obtain ⟨me, hme, hname⟩ := Option.map_eq_some_iff.mp (h.named k)
      exact ⟨_, me, (h.good k).slotsOk.mySlots.mp hslot, hme, hname⟩
    · obtain ⟨hdr, hmem, hconfig, hslots⟩ := hk.resolve_left hkj
      obtain ⟨r, n, hr, hn, -, hbound⟩ := (h.heard k j hdr hmem).2.2 slot hquiet
        (by rw [hslots, hslot]) (by rwa [hconfig])
      obtain ⟨r', n', hr', hn', -⟩ := h.knows k j hkj
      obtain rfl := Option.some_inj.mp (hr.symm.trans hr')
      exact ⟨r, n', hbound, hn'.heap, hn'.name⟩
  · intro slot hnever k
    by_contra hbound
    obtain ⟨o, ho⟩ := Option.ne_none_iff_exists'.mp hbound
    by_cases hmine : o = (w.node k).myself
    · subst hmine
      exact hnever k ⟨_, h.present k, (h.good k).slotsOk.mySlots.mpr ho⟩
    · obtain ⟨x, -, -, hclaimed⟩ := h.bound k slot o ho hmine
      exact hnever x hclaimed

end

/-! ### A slot that changes its owner -/

section
variable {N : Type} [LinearOrder N]

theorem claimStep_receive {w : ClaimWorld N} {j i : N} {hdr : ClusterMsg N}
    {hdrs : List (ClusterMsg N)} {st : ClusterState N} (hlink : w.link j i = hdr :: hdrs)
    (hping : clusterProcessPing (w.node i) hdr = .ok st) :
    claimStep w (.receive j i) = some (((w.setLink j i hdrs).advance i st).hear i j hdr) := by
  simp only [claimStep, hlink, hping]
  rfl

theorem clusterProcessPing_claims {st st₁ st₂ st' : ClusterState N} {hdr : ClusterMsg N}
    {r : NodeRef} {n n₁ : ClusterNode N} {cm : Option NodeRef} {newmaster : Bool}
    (hlookup : clusterLookupNode st hdr.sender = some r)
    (hn : st.heap r = some n) (hhandshake : n.flags.handshake = false)
    (hupdate : updateEpochs st r hdr = .ok st₁) (hslaveof : hdr.slaveof = none)
    (hn₁ : st₁.heap r = some n₁) (hmaster : n₁.flags.master = true)
    (hslots : n₁.slots ≠ hdr.myslots) (hne : r ≠ st₁.myself) (hcm : st₁.curmaster = .ok cm)
    (hloop : allSlots.foldlM (updateSlot r hdr.configEpoch hdr.myslots cm) (st₁, false, [])
      = .ok (st₂, newmaster, [])) (hlost : curmasterLost st₂ newmaster cm = .ok false)
    (hcheck : checkCollision st₂ r hdr.configEpoch = .ok st') :
    clusterProcessPing st hdr = .ok st' := by
  have hrole : roleSwitch st₁ r hdr = .ok st₁ := by
    simp only [roleSwitch, hslaveof, clusterSetNodeAsMaster, node_eq_ok hn₁, ok_bind, if_pos hmaster]
  have hdirty : dirtySlots st₁ r hdr = .ok true := by
    simp only [dirtySlots, node_eq_ok hn₁, ok_bind, if_pos hmaster, hslots, ne_eq, not_false_iff,
      decide_true]
  have hupdateSlots : updateSlots st₁ r hdr.configEpoch hdr = .ok st₂ := by
    simp only [updateSlots, hdirty, ok_bind, node_eq_ok hn₁, hmaster, and_self, if_true,
      clusterUpdateSlotsConfigWith, hcm, if_neg hne, hloop, hlost, Bool.false_eq_true, if_false,
      List.not_mem_nil]
  simp only [clusterProcessPing, hlookup, node_eq_ok hn, ok_bind, hhandshake, Bool.false_eq_true,
    if_false, hupdate, hrole, hupdateSlots, hcheck]

omit [LinearOrder N] in
/-- A claim that changes nothing: the slots are bound to the sender, or to nodes with epochs
that are not smaller. -/
theorem updateSlots_keeps {st : ClusterState N} {r : NodeRef} {epoch : ℕ} {bits : Slot → Bool}
    {cm : Option NodeRef} (h : ∀ slot, bits slot = true → st.slots slot = some r ∨
      ∃ o n, st.slots slot = some o ∧ st.heap o = some n ∧ epoch ≤ n.configEpoch) :
    allSlots.foldlM (updateSlot r epoch bits cm) (st, false, []) = .ok (st, false, []) := by
  refine foldlM_eq_self fun slot _ => ?_
  by_cases hbit : bits slot = true
  · rcases h slot hbit with hmine | ⟨o, n, ho, hn, hle⟩
    · simp only [updateSlot, if_pos hbit, if_pos hmine]
    · have hout : slotIsOutdated st slot epoch = .ok false := by
        simp only [slotIsOutdated, ho, node_eq_ok hn, ok_bind, not_lt.mpr hle, decide_false]
      simp only [updateSlot, if_pos hbit, hout, ok_bind, Bool.false_eq_true, if_false, ite_self]
  · simp only [updateSlot, if_neg hbit]

omit [LinearOrder N] in
theorem updateSlots_single {st : ClusterState N} {r : NodeRef} {epoch : ℕ} {bits : Slot → Bool}
    {cm : Option NodeRef} {slot : Slot} (hbits : ∀ s, s ≠ slot → bits s = false) :
    allSlots.foldlM (updateSlot r epoch bits cm) (st, false, [])
      = updateSlot r epoch bits cm (st, false, []) slot := by
  refine foldlM_eq_single (P := fun _ => True) (mem_allSlots slot) nodup_allSlots ?_ trivial
    fun _ _ => trivial
  intro acc _ s _ hs
  simp only [updateSlot, hbits s hs, Bool.false_eq_true, if_false]

end

/-- What node `i` knows of node `x`: node 0 is a master with the first two slots and node 1
a master without slots. -/
def handoverNode (i x : Fin 3) : ClusterNode (Fin 3) :=
  { createClusterNode 0 x { NodeFlags.none with
      master := decide (x.val < 2), slave := decide (x.val = 2), myself := decide (x = i) } with
    configEpoch := if x.val = 0 then 1 else 0
    slots := fun slot => decide (x.val = 0 ∧ slot.val < 2)
    numslots := if x.val = 0 then 2 else 0
    slaves := if x.val = 0 then [2] else []
    slaveof := if x.val = 2 then some 0 else none }

def handoverState (i : Fin 3) : ClusterState (Fin 3) :=
  { clusterInit i with
    myself := i.val
    currentEpoch := 1
    size := 1
    heap := fun r => if h : r < 3 then some (handoverNode i ⟨r, h⟩) else none
    nodes := [(0, 0), (1, 1), (2, 2)]
    slots := fun slot => if slot.val < 2 then some 0 else none }

def handoverWorld : ClaimWorld (Fin 3) where
  node := handoverState
  link := fun _ _ => []
  past := fun i => [((handoverState i).myConfigEpoch, (handoverState i).mySlots)]
  heard := fun _ _ => []

/-- Node 1 claims the first slot. -/
def handover : List (ClaimEvent (Fin 3)) :=
  [.claim 1 2 [0], .send 1 2 0, .receive 1 2]

theorem handoverNode_configEpoch (i x : Fin 3) : (handoverNode i x).configEpoch < 2 := by
  revert i x
  decide

theorem handoverWorld_lt (k : Fin 3) (r : NodeRef) (n : ClusterNode (Fin 3))
    (hn : (handoverWorld.node k).heap r = some n) : n.configEpoch < 2 := by
  have hheap : (handoverWorld.node k).heap r
      = if h : r < 3 then some (handoverNode k ⟨r, h⟩) else none := rfl
  rw [hheap] at hn
  split at hn
  · rw [← Option.some_inj.mp hn]
    exact handoverNode_configEpoch k _
  · cases hn

theorem claimed_eq_false (s : Slot) (hs : s ≠ 0) :
    Function.update (handoverNode 1 1).slots 0 true s = false := by
  rw [Function.update_of_ne hs]
  simp [handoverNode]

theorem given_bound (s : Slot) (hs : Function.update (handoverNode 0 0).slots 0 false s = true) :
    (if s.val < 2 then some 0 else none : Option NodeRef) = some 0 := by
  have hne : s ≠ 0 := by
    rintro rfl
    simp at hs
  rw [Function.update_of_ne hne] at hs
  simpa [handoverNode] using hs

theorem claimed_keeps {st : ClusterState (Fin 3)} {o : NodeRef} {n : ClusterNode (Fin 3)}
    (ho : st.slots 0 = some o) (hn : st.heap o = some n) (hle : 2 ≤ n.configEpoch) (r : NodeRef)
    (s : Slot) (hs : Function.update (handoverNode 1 1).slots 0 true s = true) :
    st.slots s = some r ∨ ∃ o n, st.slots s = some o ∧ st.heap o = some n ∧ 2 ≤ n.configEpoch := by
  have hzero : s = 0 := by
    by_contra hne
    rw [claimed_eq_false s hne] at hs
    cases hs
  subst hzero
  exact Or.inr ⟨o, n, ho, hn, hle⟩

theorem handoverState_heap {i : Fin 3} {r : NodeRef} {n : ClusterNode (Fin 3)}
    (hn : (handoverState i).heap r = some n) : ∃ x : Fin 3, x.val = r ∧ handoverNode i x = n := by
  have hheap : (handoverState i).heap r
      = if h : r < 3 then some (handoverNode i ⟨r, h⟩) else none := rfl
  rw [hheap] at hn
  split at hn
  · rename_i hr
    exact ⟨⟨r, hr⟩, rfl, Option.some_inj.mp hn⟩
  · cases hn

theorem handoverState_node (i x : Fin 3) : (handoverState i).heap x.val = some (handoverNode i x) :=
  dif_pos x.isLt

theorem handoverState_slots {i : Fin 3} {slot : Slot} {r : NodeRef} :
    (handoverState i).slots slot = some r ↔ slot.val < 2 ∧ r = 0 := by
  have hslots : (handoverState i).slots slot = if slot.val < 2 then some 0 else none := rfl
  rw [hslots, Option.ite_none_right_eq_some, Option.some_inj, eq_comm (a := r)]

theorem slotCount_two : slotCount (fun slot : Slot => decide (slot.val < 2)) = 2 := by
  have htwo : (fun slot : Slot => decide (slot.val < 2))
      = Function.update (Function.update (fun _ => false) 0 true) 1 true := by
    funext slot
    by_cases h1 : slot = 1
    · subst h1
      rfl
    · by_cases h0 : slot = 0
      · subst h0
        rfl
      · rw [Function.update_of_ne h1, Function.update_of_ne h0, decide_eq_false_iff_not]
        intro hlt
        have hval : slot.val = 0 ∨ slot.val = 1 := by omega
        rcases hval with hval | hval
        · exact h0 (Fin.ext hval)
        · exact h1 (Fin.ext hval)
  have hzero : slotCount (fun _ => false) = 0 := slotCount_eq_zero fun _ => rfl
  have hone : slotCount (Function.update (fun _ => false) 0 true) = slotCount (fun _ => false) + 1 :=
    slotCount_set (by simp)
  rw [htwo, slotCount_set (by simp), hone, hzero]
  norm_num

theorem good_handoverState (i : Fin 3) : Good (handoverState i) := by
  refine ⟨⟨?_, ?_, ?_⟩, handoverNode i i, handoverState_node i i, ?_⟩
  · intro slot r hr
    obtain ⟨hlt, rfl⟩ := handoverState_slots.mp hr
    exact ⟨handoverNode i 0, handoverState_node i 0, by simpa [handoverNode] using hlt⟩
  · intro r n slot hn hbit
    obtain ⟨x, rfl, rfl⟩ := handoverState_heap hn
    have hx : x.val = 0 ∧ slot.val < 2 := by simpa [handoverNode] using hbit
    exact handoverState_slots.mpr ⟨hx.2, hx.1⟩
  · intro r n hn
    obtain ⟨x, rfl, rfl⟩ := handoverState_heap hn
    by_cases hx : x.val = 0
    · have hslots : (handoverNode i x).slots = fun slot => decide (slot.val < 2) := by
        simp [handoverNode, hx]
      rw [hslots, slotCount_two]
      simp [handoverNode, hx]
    · have hslots : ∀ slot, (handoverNode i x).slots slot = false := by
        simp [handoverNode, hx]
      rw [slotCount_eq_zero hslots]
      simp [handoverNode, hx]
  · intro hslave slot hslot
    obtain ⟨-, hi⟩ := handoverState_slots.mp hslot
    have hflag : (handoverNode i i).flags.master = decide (i.val < 2) := rfl
    have hzero : i.val = 0 := hi
    rw [hflag, hzero] at hslave
    cases hslave

theorem started_handoverWorld : Started handoverWorld := by
  have hlookup : ∀ i x, clusterLookupNode (handoverState i) x = some x.val := by decide
  constructor
  · exact fun i => congrArg (Option.map _) (handoverState_node i i)
  · exact good_handoverState
  · exact fun _ => rfl
  · intro i j hij
    refine ⟨j.val, handoverNode i j, hlookup i j, ⟨?_, handoverState_node i j, rfl, rfl⟩, ?_⟩
    · exact fun heq => hij (Fin.ext heq).symm
    · have hconfig : handoverWorld.config j = (handoverNode j j).configEpoch :=
        myConfigEpoch_eq (handoverState_node j j)
      exact hconfig.ge
  · intro i slot o ho hne
    obtain ⟨hlt, rfl⟩ := handoverState_slots.mp ho
    refine ⟨0, ?_, hlookup i 0, (good_handoverState 0).slotsOk.mySlots.mpr
      (handoverState_slots.mpr ⟨hlt, rfl⟩)⟩
    rintro rfl
    exact hne rfl
  · exact fun _ _ => rfl
  · exact fun _ _ => rfl

/-- The new owner of the slot is in the table of the slave. -/
theorem run_handover : ∃ w, Runs.run claimStep handoverWorld handover = some w ∧
    (w.node 2).slots 0 = some 1 ∧
    (∀ j slot, (w.node j).mySlots slot = true → Newest w j (w.config j) slot →
      ∀ k, (handoverWorld.node k).importingSlotsFrom slot = none → k = j ∨ Informed w k j →
        BoundTo (w.node k) slot j) ∧
      ∀ slot, (∀ x, ¬ Claimed w x slot) → ∀ k, (w.node k).slots slot = none := by
  have hrun : ∃ w, (Runs.AllSteps claimStep Follows handoverWorld handover ∧
      Runs.run claimStep handoverWorld handover = some w) ∧ (w.node 2).slots 0 = some 1 :=
    ⟨_,
      Runs.AllSteps.run_cons handoverWorld_lt rfl <|
      Runs.AllSteps.run_cons trivial rfl <|
      Runs.AllSteps.run_cons trivial (claimStep_receive rfl <| clusterProcessPing_claims rfl rfl rfl
        rfl rfl rfl rfl (fun h => absurd (congrFun h 0) (by decide)) (by decide) rfl
        ((updateSlots_single claimed_eq_false).trans rfl) rfl rfl) <|
      ⟨trivial, rfl⟩, rfl⟩
  obtain ⟨w, ⟨hrules, hrun⟩, hslot⟩ := hrun
  exact ⟨w, hrun, hslot, run_slotsConverge started_handoverWorld hrules hrun⟩

/-- Node 1 claims a slot, node 0 gives it up and takes a greater epoch than node 1; then the
slave keeps the slot bound to node 0. -/
def lateBump : List (ClaimEvent (Fin 3)) :=
  [.claim 1 2 [0], .send 1 0 0, .receive 1 0, .bump 0 3, .send 0 2 0, .receive 0 2, .send 1 2 0,
    .receive 1 2, .send 0 1 0, .receive 0 1]

/-- All nodes processed the last heartbeats of both masters, but the tables of node 1 and of
the slave differ. -/
theorem run_lateBump : Started handoverWorld ∧
    (∀ k slot, (handoverWorld.node k).importingSlotsFrom slot = none) ∧
    ∃ w, (Runs.AllSteps claimStep Follows handoverWorld lateBump ∧
      Runs.run claimStep handoverWorld lateBump = some w) ∧
      (Informed w 0 1 ∧ Informed w 1 0 ∧ Informed w 2 0 ∧ Informed w 2 1) ∧
      ((w.node 1).mySlots 0 = true ∧ (w.node 0).mySlots 0 = false) ∧
      BoundTo (w.node 1) 0 1 ∧ BoundTo (w.node 2) 0 0 :=
  ⟨started_handoverWorld, fun _ _ => rfl, _,
    Runs.AllSteps.run_cons handoverWorld_lt rfl <|
    Runs.AllSteps.run_cons trivial rfl <|
    Runs.AllSteps.run_cons trivial (claimStep_receive rfl <| clusterProcessPing_claims rfl rfl rfl
      rfl rfl rfl rfl (fun h => absurd (congrFun h 0) (by decide)) (by decide) rfl
      ((updateSlots_single claimed_eq_false).trans rfl) rfl rfl) <|
    Runs.AllSteps.run_cons ⟨by decide, by decide⟩ rfl <|
    Runs.AllSteps.run_cons trivial rfl <|
    Runs.AllSteps.run_cons trivial (claimStep_receive rfl <| clusterProcessPing_claims rfl rfl rfl
      rfl rfl rfl rfl (fun h => absurd (congrFun h 0) (by decide)) (by decide) rfl
      (updateSlots_keeps fun s hs => Or.inl (given_bound s hs)) rfl rfl) <|
    Runs.AllSteps.run_cons trivial rfl <|
    Runs.AllSteps.run_cons trivial (claimStep_receive rfl <| clusterProcessPing_claims rfl rfl rfl
      rfl rfl rfl rfl (fun h => absurd (congrFun h 0) (by decide)) (by decide) rfl
      (updateSlots_keeps (claimed_keeps rfl rfl (by decide) 1)) rfl rfl) <|
    Runs.AllSteps.run_cons trivial rfl <|
    Runs.AllSteps.run_cons trivial (claimStep_receive rfl <| clusterProcessPing_agrees rfl rfl rfl
      rfl rfl rfl rfl rfl rfl) <|
    ⟨trivial, rfl⟩,
    ⟨⟨_, List.mem_cons_self, rfl, rfl⟩, ⟨_, List.mem_cons_self, rfl, rfl⟩,
      ⟨_, List.mem_cons_self, rfl, rfl⟩, ⟨_, List.mem_cons_self, rfl, rfl⟩⟩,
    ⟨rfl, rfl⟩, ⟨1, _, rfl, rfl, rfl⟩, ⟨0, _, rfl, rfl, rfl⟩⟩

end ClusterState

/-
Collisions of configuration epochs.

The nodes of a cluster exchange heartbeats over links that keep their order and may lose
packets.  A run records the heartbeats each node processed and how often it took a new
configuration epoch.

* `heartbeatStep` — the steps of the cluster;
* `Colliding` — the invariant: what a node knows of another one's configuration epoch is
  one that it had, and every new epoch of a node was caused by one of a greater node;
* `run_collisionsResolve` — epochs do not decrease, the node with the greatest name keeps
  its own, there are few collisions, and in the end no two masters have the same epoch;
* `run_wrappedEpoch` — an epoch that overflows.
-/
import Mathlib.Algebra.BigOperators.Group.Finset.Piecewise
import Mathlib.Algebra.BigOperators.Group.Finset.Sigma
import RedisModel.ConfigEpochs
import RedisModel.ClusterElectionRun

open Except

namespace ClusterState

/-! ### The cluster -/

/-- The nodes, the heartbeats on the link from one node to another, the heartbeats that a
node processed of another one, and how often a node changed its configuration epoch. -/
structure Heartbeats (N : Type) where
  node : N → ClusterState N
  link : N → N → List (ClusterMsg N)
  heard : N → N → List (ClusterMsg N)
  bumps : N → ℕ

inductive HeartbeatEvent (N : Type) where
  /-- Node `j` sends a heartbeat to node `i`. -/
  | send (j i : N) (offset : ℤ)
  /-- Node `i` processes the first heartbeat on the link from node `j`. -/
  | receive (j i : N)
  /-- The first heartbeat on the link is lost. -/
  | lose (j i : N)

section
variable {N : Type} [LinearOrder N]

namespace Heartbeats

/-- The configuration epoch of a node. -/
def config (w : Heartbeats N) (i : N) : ℕ := (w.node i).myConfigEpoch

/-- Change the heartbeats on a link. -/
def setLink (w : Heartbeats N) (j i : N) (hdrs : List (ClusterMsg N)) : Heartbeats N :=
  { w with link := fun a b => if a = j ∧ b = i then hdrs else w.link a b }

/-- Node `i` processed a heartbeat of node `j` and has the state `st` now. -/
def process (w : Heartbeats N) (j i : N) (hdr : ClusterMsg N) (st : ClusterState N) :
    Heartbeats N :=
  { w with
    node := Function.update w.node i st
    heard := fun a b => if a = i ∧ b = j then hdr :: w.heard i j else w.heard a b
    bumps := if st.myConfigEpoch = w.config i then w.bumps
      else Function.update w.bumps i (w.bumps i + 1) }

end Heartbeats

/-- One step of the cluster. -/
def heartbeatStep (w : Heartbeats N) : HeartbeatEvent N → Option (Heartbeats N)
  | .send j i offset =>
    if j = i then none
    else (clusterBuildMessageHdr (w.node j) offset).toOption.map fun hdr =>
      w.setLink j i (w.link j i ++ [hdr])
  | .receive j i => match w.link j i with
    | [] => none
    | hdr :: hdrs => (clusterProcessPing (w.node i) hdr).toOption.map fun st =>
      (w.setLink j i hdrs).process j i hdr st
  | .lose j i => some (w.setLink j i (w.link j i).tail)

/-! ### The invariant -/

omit [LinearOrder N] in
theorem clusterBuildMessageHdr_announces {st : ClusterState N} (offset : ℤ) :
    (clusterBuildMessageHdr st offset).Ensures AnyFault fun hdr => hdr.slaveof = none →
      ∃ me, st.heap st.myself = some me ∧ hdr.configEpoch = me.configEpoch ∧
        hdr.myslots = me.slots := by
  refine (node_ensures trivial st st.myself).bind fun me hme => ?_
  refine (node_ensures trivial st _).bind fun master hmaster => ?_
  refine Ensures.bind (Q := fun slaveof => slaveof = none → me.slaveof = none) ?_
    fun slaveof hslaveof hnone => ?_
  · unfold nameOf
    split
    · rename_i hnone
      exact fun _ => hnone
    · exact (node_ensures trivial st _).bind fun n _ hnone => absurd hnone (by simp)
  · have hself : st.announced me = st.myself := by
      simp [announced, hslaveof hnone]
    rw [hself] at hmaster
    exact ⟨master, hmaster, rfl, rfl⟩

/-- All heartbeats of node `j` that node `i` processed are those of a master. -/
def HeardMaster (w : Heartbeats N) (i j : N) : Prop :=
  ∀ hdr ∈ w.heard i j, hdr.slaveof = none

/-- Node `i` processed a heartbeat with the present configuration epoch of node `j`. -/
def Heard (w : Heartbeats N) (i j : N) : Prop :=
  ∃ hdr ∈ w.heard i j, hdr.configEpoch = w.config j

/-- Node `i` knows node `j`, and of its configuration epoch no more than there is. -/
def Knows (w : Heartbeats N) (i j : N) : Prop :=
  ∃ r n, clusterLookupNode (w.node i) j = some r ∧ KnownAs (w.node i) j r n ∧
    (HeardMaster w i j → n.configEpoch ≤ w.config j)

theorem PingOutcome.named {st st' : ClusterState N} {hdr : ClusterMsg N} {r : NodeRef}
    (h : PingOutcome st st' hdr r) {i : N} (hi : Named i st) : Named i st' := by
  have hname := congrArg (Option.map Prod.fst) (h.identity st.myself)
  rw [Option.map_map, Option.map_map] at hname
  rw [Named, h.myself]
  exact hname.trans hi

theorem PingOutcome.known {st st' : ClusterState N} {hdr : ClusterMsg N} {r s : NodeRef}
    (h : PingOutcome st st' hdr r) {x : N} {n : ClusterNode N} (hs : KnownAs st x s n) :
    ∃ n', KnownAs st' x s n' ∧
      n'.configEpoch = if s = r then max n.configEpoch hdr.configEpoch else n.configEpoch := by
  have hid := h.identity s
  rw [hs.heap, Option.map_some] at hid
  obtain ⟨n', hn', heq⟩ := Option.map_eq_some_iff.mp hid
  rw [Prod.mk.injEq] at heq
  refine ⟨n', ⟨?_, hn', heq.1.trans hs.name, heq.2.trans hs.handshake⟩, ?_⟩
  · rw [h.myself]
    exact hs.ne
  · have hepoch : epochOf st' s = some n'.configEpoch := by
      rw [epochOf, hn']
      rfl
    split
    · rename_i hsr
      subst hsr
      exact Option.some_inj.mp (hepoch.symm.trans (h.sender n hs.heap))
    · rename_i hsr
      have hold : epochOf st s = some n.configEpoch := by
        rw [epochOf, hs.heap]
        rfl
      exact Option.some_inj.mp (hepoch.symm.trans ((h.others s hsr hs.ne).trans hold))

section
variable {w : Heartbeats N} {j i : N} {hdr : ClusterMsg N} {st : ClusterState N} {r : NodeRef}

theorem process_node_self (w : Heartbeats N) : (w.process j i hdr st).node i = st :=
  Function.update_self _ _ _

theorem process_node_of_ne (w : Heartbeats N) {k : N} (hk : k ≠ i) :
    (w.process j i hdr st).node k = w.node k :=
  Function.update_of_ne hk _ _

theorem process_config_self (w : Heartbeats N) :
    (w.process j i hdr st).config i = st.myConfigEpoch := by
  rw [Heartbeats.config, process_node_self]

theorem process_config_of_ne (w : Heartbeats N) {k : N} (hk : k ≠ i) :
    (w.process j i hdr st).config k = w.config k := by
  rw [Heartbeats.config, process_node_of_ne w hk]
  rfl

theorem process_bumps_of_ne (w : Heartbeats N) {k : N} (hk : k ≠ i) :
    (w.process j i hdr st).bumps k = w.bumps k := by
  simp only [Heartbeats.process]
  split
  · rfl
  · exact Function.update_of_ne hk _ _

theorem mem_process_heard {w : Heartbeats N} {a b : N} {hdr' : ClusterMsg N} :
    hdr' ∈ (w.process j i hdr st).heard a b ↔
      (a = i ∧ b = j ∧ hdr' = hdr) ∨ hdr' ∈ w.heard a b := by
  simp only [Heartbeats.process]
  split
  · rename_i hab
    obtain ⟨rfl, rfl⟩ := hab
    simp
  · rename_i hab
    constructor
    · exact Or.inr
    · rintro (⟨ha, hb, -⟩ | hmem)
      · exact absurd ⟨ha, hb⟩ hab
      · exact hmem

theorem HeardMaster.of_process {a b : N} (h : HeardMaster (w.process j i hdr st) a b) :
    HeardMaster w a b := fun hdr' hmem => h hdr' (mem_process_heard.mpr (Or.inr hmem))

theorem Knows.process (hout : PingOutcome (w.node i) st hdr r)
    (hmono : w.config i ≤ st.myConfigEpoch)
    {m : ClusterNode N} (hj : KnownAs (w.node i) j r m)
    (hconfig : hdr.slaveof = none → hdr.configEpoch ≤ w.config j) {a b : N}
    (h : Knows w a b) : Knows (w.process j i hdr st) a b := by
  have hgrows : w.config b ≤ (w.process j i hdr st).config b := by
    by_cases hb : b = i
    · subst hb
      rwa [process_config_self]
    · rw [process_config_of_ne w hb]
  obtain ⟨s, n, hs, hknown, hle⟩ := h
  by_cases ha : a = i
  · subst ha
    obtain ⟨n', hknown', hepoch⟩ := hout.known hknown
    refine ⟨s, n', ?_, ?_, fun hmaster => ?_⟩
    · rw [process_node_self, clusterLookupNode, hout.nodes]
      exact hs
    · rw [process_node_self]
      exact hknown'
    · refine le_trans ?_ hgrows
      rw [hepoch]
      split
      · rename_i hsr
        subst hsr
        -- a node has one name
        obtain rfl := Option.some_inj.mp (hknown.heap.symm.trans hj.heap)
        obtain rfl : b = j := hknown.name.symm.trans hj.name
        refine max_le (hle hmaster.of_process) (hconfig ?_)
        exact hmaster hdr (mem_process_heard.mpr (Or.inl ⟨rfl, rfl, rfl⟩))
      · exact hle hmaster.of_process
  · refine ⟨s, n, ?_, ?_, fun hmaster => (hle hmaster.of_process).trans hgrows⟩
    · rwa [process_node_of_ne w ha]
    · rwa [process_node_of_ne w ha]

end

/-- `values` are the configuration epochs the nodes have had, `causes` the nodes and epochs
with which a node collided when it took a new epoch. -/
structure Colliding [Fintype N] (e : ℕ) (values : N → Finset ℕ) (causes : N → Finset (Σ _ : N, ℕ))
    (w : Heartbeats N) : Prop where
  named : ∀ i, Named i (w.node i)
  knows : ∀ i j, i ≠ j → Knows w i j
  configLe : ∀ i, w.config i ≤ (w.node i).currentEpoch
  currentLe : ∀ i, (w.node i).currentEpoch ≤ e + ∑ k, w.bumps k
  value : ∀ i, w.config i ∈ values i
  valueLe : ∀ i, ∀ c ∈ values i, c ≤ w.config i
  cardValues : ∀ i, (values i).card ≤ w.bumps i + 1
  cause : ∀ i, ∀ p ∈ causes i, i < p.1 ∧ p.2 ∈ values p.1 ∧ p.2 < w.config i
  cardCauses : ∀ i, w.bumps i ≤ (causes i).card
  hdrs : ∀ j i, ∀ hdr ∈ w.link j i, j ≠ i ∧ hdr.sender = j ∧
    hdr.currentEpoch ≤ (w.node j).currentEpoch ∧
      (hdr.slaveof = none → hdr.configEpoch ∈ values j ∧ hdr.configEpoch ≤ hdr.currentEpoch)
  heard : ∀ i j, ∀ hdr ∈ w.heard i j, hdr.slaveof = none →
    hdr.configEpoch ∈ values j ∧ hdr.configEpoch ≤ (w.node i).currentEpoch
  apart : ∀ i j, i < j → role (w.node i) (w.node i).myself = some true → HeardMaster w i j →
    Heard w i j → w.config i ≠ w.config j

variable [Fintype N] {e : ℕ} {values : N → Finset ℕ} {causes : N → Finset (Σ _ : N, ℕ)}
  {w : Heartbeats N}

theorem Colliding.bumps_le (h : Colliding e values causes w) :
    ∑ i, w.bumps i + Fintype.card N + 1 ≤ 2 ^ Fintype.card N := by
  have hcount : ∀ i, w.bumps i ≤ ∑ j ∈ Finset.univ.filter fun j => i < j, (w.bumps j + 1) := by
    intro i
    have hsub : causes i ⊆ (Finset.univ.filter fun j => i < j).sigma values := by
      intro p hp
      obtain ⟨hlt, hvalue, -⟩ := h.cause i p hp
      exact Finset.mem_sigma.mpr ⟨Finset.mem_filter.mpr ⟨Finset.mem_univ _, hlt⟩, hvalue⟩
    calc w.bumps i ≤ (causes i).card := h.cardCauses i
      _ ≤ ((Finset.univ.filter fun j => i < j).sigma values).card := Finset.card_le_card hsub
      _ = ∑ j ∈ Finset.univ.filter fun j => i < j, (values j).card := Finset.card_sigma _ _
      _ ≤ ∑ j ∈ Finset.univ.filter fun j => i < j, (w.bumps j + 1) :=
        Finset.sum_le_sum fun j _ => h.cardValues j
  have hsum := sum_counters_le hcount
  rw [Finset.sum_add_distrib] at hsum
  simpa using hsum

theorem Colliding.setLink (h : Colliding e values causes w) {j i : N} {hdrs : List (ClusterMsg N)}
    (hhdrs : ∀ hdr ∈ hdrs, j ≠ i ∧ hdr.sender = j ∧
      hdr.currentEpoch ≤ (w.node j).currentEpoch ∧
        (hdr.slaveof = none → hdr.configEpoch ∈ values j ∧ hdr.configEpoch ≤ hdr.currentEpoch)) :
    Colliding e values causes (w.setLink j i hdrs) := by
  constructor
  · exact h.named
  · exact h.knows
  · exact h.configLe
  · exact h.currentLe
  · exact h.value
  · exact h.valueLe
  · exact h.cardValues
  · exact h.cause
  · exact h.cardCauses
  · intro a b hdr hmem
    simp only [Heartbeats.setLink] at hmem
    split at hmem
    · rename_i hab
      obtain ⟨rfl, rfl⟩ := hab
      exact hhdrs hdr hmem
    · exact h.hdrs a b hdr hmem
  · exact h.heard
  · exact h.apart

theorem Colliding.setLink_tail (h : Colliding e values causes w) (j i : N) :
    Colliding e values causes (w.setLink j i (w.link j i).tail) :=
  h.setLink fun hdr hmem => h.hdrs j i hdr (List.mem_of_mem_tail hmem)

theorem Colliding.send (h : Colliding e values causes w) {j i : N} (hne : j ≠ i) {offset : ℤ}
    {hdr : ClusterMsg N} (hhdr : clusterBuildMessageHdr (w.node j) offset = .ok hdr) :
    Colliding e values causes (w.setLink j i (w.link j i ++ [hdr])) := by
  refine h.setLink fun hdr' hmem => ?_
  rcases List.mem_append.mp hmem with hmem | hmem
  · exact h.hdrs j i hdr' hmem
  · obtain rfl := List.mem_singleton.mp hmem
    obtain ⟨hname, hepoch⟩ := (clusterBuildMessageHdr_spec offset).of_eq_ok hhdr
    refine ⟨hne, Option.some_inj.mp (hname.symm.trans (h.named j)), hepoch.le, fun hnone => ?_⟩
    obtain ⟨me, hme, hconfig, -⟩ := (clusterBuildMessageHdr_announces offset).of_eq_ok hhdr hnone
    have hself : hdr'.configEpoch = w.config j := hconfig.trans (myConfigEpoch_eq hme).symm
    rw [hself, hepoch]
    exact ⟨h.value j, h.configLe j⟩

section
variable {j i : N} {hdr : ClusterMsg N} {hdrs : List (ClusterMsg N)} {st : ClusterState N}
  {r : NodeRef}

theorem Colliding.apart_process (h : Colliding e values causes w)
    (hout : PingOutcome (w.node i) st hdr r) (hlookup : clusterLookupNode (w.node i) j = some r)
    (hlink : w.link j i = hdr :: hdrs) (hmy : w.config i ≤ st.myConfigEpoch)
    (hnew : st.myConfigEpoch ≠ w.config i →
      max (w.node i).currentEpoch hdr.currentEpoch < st.myConfigEpoch)
    (hbump : hdr.currentEpoch < nextEpoch (max (w.node i).currentEpoch hdr.currentEpoch)) {a b : N} (hab : a < b)
    (hrole : role ((w.process j i hdr st).node a) ((w.process j i hdr st).node a).myself = some true)
    (hmaster : HeardMaster (w.process j i hdr st) a b)
    (hheard : Heard (w.process j i hdr st) a b) :
    (w.process j i hdr st).config a ≠ (w.process j i hdr st).config b := by
  obtain ⟨hdr', hmem, hconfig⟩ := hheard
  have hnone := hmaster hdr' hmem
  by_cases hb : b = i
  · subst hb
    rw [process_config_of_ne w hab.ne]
    rw [process_config_self] at hconfig ⊢
    rw [process_node_of_ne w hab.ne] at hrole
    have hmem' : hdr' ∈ w.heard a b := by
      rcases mem_process_heard.mp hmem with ⟨ha, -⟩ | hmem
      · exact absurd ha hab.ne
      · exact hmem
    have hle := h.valueLe b _ (h.heard a b hdr' hmem' hnone).1
    by_cases hsame : st.myConfigEpoch = w.config b
    · rw [hsame] at hconfig ⊢
      exact h.apart a b hab hrole hmaster.of_process ⟨hdr', hmem', hconfig⟩
    · -- the epoch heard of is older than the new one
      omega
  · rw [process_config_of_ne w hb] at hconfig ⊢
    by_cases ha : a = i
    · subst ha
      rw [process_config_self]
      rw [process_node_self] at hrole
      by_cases hsame : st.myConfigEpoch = w.config a
      · rcases mem_process_heard.mp hmem with ⟨-, rfl, rfl⟩ | hmem'
        · intro heq
          -- the heartbeat announces the epoch of this node, which then takes a new one
          obtain ⟨-, hsender, -⟩ := h.hdrs b a hdr' (hlink ▸ List.mem_cons_self)
          obtain ⟨me, hme, hname⟩ := Option.map_eq_some_iff.mp (h.named a)
          obtain ⟨r', n, hr', hknown, hview⟩ := h.knows a b hab.ne
          obtain rfl := Option.some_inj.mp (hlookup.symm.trans hr')
          have hmyself : role st (w.node a).myself = some true := by rwa [← hout.myself]
          have hmyEpoch : w.config a = me.configEpoch := myConfigEpoch_eq hme
          obtain ⟨hyes, hcur⟩ := hout.yields me n hme hknown.heap (by rwa [hname, hsender]) hnone
            hmyself (hconfig ▸ hview hmaster.of_process)
            (by rw [hconfig, ← heq, hsame, hmyEpoch])
          have hle := ((h.hdrs b a hdr' (hlink ▸ List.mem_cons_self)).2.2.2 hnone).2
          omega
        · rw [hsame]
          rw [hout.myself] at hrole
          exact h.apart a b hab (hout.master hrole) hmaster.of_process ⟨hdr', hmem', hconfig⟩
      · have hlt := hnew hsame
        rcases mem_process_heard.mp hmem with ⟨-, rfl, rfl⟩ | hmem'
        · have hle := ((h.hdrs b a hdr' (hlink ▸ List.mem_cons_self)).2.2.2 hnone).2
          omega
        · have hle := (h.heard a b hdr' hmem' hnone).2
          omega
    · rw [process_config_of_ne w ha]
      rw [process_node_of_ne w ha] at hrole
      have hmem' : hdr' ∈ w.heard a b := by
        rcases mem_process_heard.mp hmem with ⟨ha', -⟩ | hmem
        · exact absurd ha' ha
        · exact hmem
      exact h.apart a b hab hrole hmaster.of_process ⟨hdr', hmem', hconfig⟩

theorem Colliding.process (h : Colliding e values causes w) {values' : N → Finset ℕ}
    {causes' : N → Finset (Σ _ : N, ℕ)} (hout : PingOutcome (w.node i) st hdr r)
    (hlookup : clusterLookupNode (w.node i) j = some r) (hlink : w.link j i = hdr :: hdrs)
    (hmy : w.config i ≤ st.myConfigEpoch) (hmyLe : st.myConfigEpoch ≤ st.currentEpoch)
    (hcur : max (w.node i).currentEpoch hdr.currentEpoch ≤ st.currentEpoch)
    (hcurLe : st.currentEpoch ≤ e + ∑ k, (w.process j i hdr st).bumps k)
    (hgrow : ∑ k, w.bumps k ≤ ∑ k, (w.process j i hdr st).bumps k)
    (hnew : st.myConfigEpoch ≠ w.config i →
      max (w.node i).currentEpoch hdr.currentEpoch < st.myConfigEpoch)
    (hbump : hdr.currentEpoch < nextEpoch (max (w.node i).currentEpoch hdr.currentEpoch))
    (hsub : ∀ k, values k ⊆ values' k) (hvalues : ∀ k, k ≠ i → values' k = values k)
    (hcauses : ∀ k, k ≠ i → causes' k = causes k) (hvalue : st.myConfigEpoch ∈ values' i)
    (hvalueLe : ∀ c ∈ values' i, c ≤ st.myConfigEpoch)
    (hcardValues : (values' i).card ≤ (w.process j i hdr st).bumps i + 1)
    (hcause : ∀ p ∈ causes' i, i < p.1 ∧ p.2 ∈ values' p.1 ∧ p.2 < st.myConfigEpoch)
    (hcardCauses : (w.process j i hdr st).bumps i ≤ (causes' i).card) :
    Colliding e values' causes' (w.process j i hdr st) := by
  obtain ⟨hji, -, hhdrCur, hhdrConfig⟩ := h.hdrs j i hdr (hlink ▸ List.mem_cons_self)
  obtain ⟨r', m, hr', hm, -⟩ := h.knows i j hji.symm
  obtain rfl := Option.some_inj.mp (hlookup.symm.trans hr')
  -- a fact about every node holds if it holds of the others and of `st`
  have hnode : ∀ {P : N → ClusterState N → Prop}, (∀ k, k ≠ i → P k (w.node k)) → P i st →
      ∀ k, P k ((w.process j i hdr st).node k) := by
    intro P hP hst k
    by_cases hk : k = i
    · subst hk
      rwa [process_node_self]
    · rw [process_node_of_ne w hk]
      exact hP k hk
  have hcurrent : ∀ k, (w.node k).currentEpoch ≤ ((w.process j i hdr st).node k).currentEpoch :=
    hnode (P := fun k st => (w.node k).currentEpoch ≤ st.currentEpoch) (fun _ _ => le_rfl)
      ((le_max_left _ _).trans hcur)
  constructor
  · exact hnode (P := Named) (fun k _ => h.named k) (hout.named (h.named i))
  · intro a b hab
    exact (h.knows a b hab).process hout hmy hm fun hnone => h.valueLe j _ (hhdrConfig hnone).1
  · exact hnode (P := fun _ st => st.myConfigEpoch ≤ st.currentEpoch)
      (fun k _ => h.configLe k) hmyLe
  · exact hnode (P := fun _ st' => st'.currentEpoch ≤ e + ∑ k, (w.process j i hdr st).bumps k)
      (fun k _ => (h.currentLe k).trans (Nat.add_le_add_left hgrow e)) hcurLe
  · exact hnode (P := fun k st => st.myConfigEpoch ∈ values' k)
      (fun k _ => hsub k (h.value k)) hvalue
  · exact hnode (P := fun k st => ∀ c ∈ values' k, c ≤ st.myConfigEpoch)
      (fun k hk c hc => h.valueLe k c (hvalues k hk ▸ hc)) hvalueLe
  · intro k
    by_cases hk : k = i
    · subst hk
      exact hcardValues
    · rw [hvalues k hk, process_bumps_of_ne w hk]
      exact h.cardValues k
  · refine hnode (P := fun k st => ∀ p ∈ causes' k, k < p.1 ∧ p.2 ∈ values' p.1 ∧
      p.2 < st.myConfigEpoch) (fun k hk p hp => ?_) hcause
    obtain ⟨hlt, hmem, hp⟩ := h.cause k p (hcauses k hk ▸ hp)
    exact ⟨hlt, hsub _ hmem, hp⟩
  · intro k
    by_cases hk : k = i
    · subst hk
      exact hcardCauses
    · rw [hcauses k hk, process_bumps_of_ne w hk]
      exact h.cardCauses k
  · intro a b hdr' hmem
    obtain ⟨hab, hsender, hle, hconfig⟩ := h.hdrs a b hdr' hmem
    exact ⟨hab, hsender, hle.trans (hcurrent a), fun hnone =>
      ⟨hsub a (hconfig hnone).1, (hconfig hnone).2⟩⟩
  · intro a b hdr' hmem hnone
    rcases mem_process_heard.mp hmem with ⟨rfl, rfl, rfl⟩ | hmem
    · obtain ⟨hvalue, hle⟩ := hhdrConfig hnone
      rw [process_node_self]
      exact ⟨hsub b hvalue, hle.trans ((le_max_right _ _).trans hcur)⟩
    · obtain ⟨hvalue, hle⟩ := h.heard a b hdr' hmem hnone
      exact ⟨hsub b hvalue, hle.trans (hcurrent a)⟩
  · intro a b hab hrole hmaster hheard
    exact h.apart_process hout hlookup hlink hmy hnew hbump hab hrole hmaster hheard

theorem sum_update_succ (b : N → ℕ) (i : N) :
    ∑ k, Function.update b i (b i + 1) k = ∑ k, b k + 1 := by
  rw [Finset.sum_update_of_mem (Finset.mem_univ i), Finset.sdiff_singleton_eq_erase,
    ← Finset.sum_erase_add _ _ (Finset.mem_univ i)]
  omega

theorem Colliding.receive (h : Colliding e values causes w) (hroom : e + 2 ^ Fintype.card N < 2 ^ 64)
    (hlink : w.link j i = hdr :: hdrs) (hping : clusterProcessPing (w.node i) hdr = .ok st) :
    w.config i ≤ st.myConfigEpoch ∧ ((∀ k, k ≤ i) → st.myConfigEpoch = w.config i) ∧
      ∃ values' causes', Colliding e values' causes' (w.process j i hdr st) := by
  obtain ⟨hji, hsender, hhdrCur, hhdrConfig⟩ := h.hdrs j i hdr (hlink ▸ List.mem_cons_self)
  obtain ⟨r, m, hlookup, hm, -⟩ := h.knows i j hji.symm
  obtain ⟨me, hme, hname⟩ := Option.map_eq_some_iff.mp (h.named i)
  have hout := (clusterProcessPing_epochs (by rw [hsender]; exact hlookup)
    (by rw [hsender]; exact hm) hme).of_eq_ok hping
  have hbound := h.bumps_le
  have hcur := h.currentLe i
  have hcurHdr := hhdrCur.trans (h.currentLe j)
  have hnext : nextEpoch (max (w.node i).currentEpoch hdr.currentEpoch)
      = max (w.node i).currentEpoch hdr.currentEpoch + 1 := nextEpoch_of_lt (by omega)
  have hbump : hdr.currentEpoch < nextEpoch (max (w.node i).currentEpoch hdr.currentEpoch) := by
    omega
  have hconfigLe := h.configLe i
  rcases hout.epoch with ⟨hsame, hst⟩ | ⟨hnone, heq, hst, hmy, me', hme', hlt⟩
  · have hbumps : (w.process j i hdr st).bumps = w.bumps := if_pos hsame
    have hsame : st.myConfigEpoch = w.config i := hsame
    refine ⟨hsame.ge, fun _ => hsame, values, causes, ?_⟩
    refine h.process hout hlookup hlink hsame.ge ?_ hst.ge ?_ ?_ (fun hne => absurd hsame hne)
      hbump (fun _ => Finset.Subset.refl _) (fun _ _ => rfl) (fun _ _ => rfl) ?_ ?_ ?_ ?_ ?_
    · rw [hsame, hst]
      omega
    · rw [hbumps, hst]
      omega
    · rw [hbumps]
    · exact hsame ▸ h.value i
    · exact hsame ▸ h.valueLe i
    · exact hbumps ▸ h.cardValues i
    · exact hsame ▸ h.cause i
    · exact hbumps ▸ h.cardCauses i
  · have hgreater : w.config i < st.myConfigEpoch := by omega
    have hbumps : (w.process j i hdr st).bumps = Function.update w.bumps i (w.bumps i + 1) :=
      if_neg hgreater.ne'
    obtain rfl := Option.some_inj.mp (hme.symm.trans hme')
    rw [hname, hsender] at hlt
    have heq : hdr.configEpoch = w.config i := heq
    refine ⟨hgreater.le, fun hmax => absurd (hmax j) (not_le.mpr hlt), ?_⟩
    -- the new epoch, and the node and the epoch that caused it
    refine ⟨Function.update values i (insert st.myConfigEpoch (values i)),
      Function.update causes i (insert ⟨j, hdr.configEpoch⟩ (causes i)), ?_⟩
    have hsub : ∀ k, values k ⊆ Function.update values i (insert st.myConfigEpoch (values i)) k := by
      intro k
      by_cases hk : k = i
      · subst hk
        rw [Function.update_self]
        exact Finset.subset_insert _ _
      · rw [Function.update_of_ne hk]
    refine h.process hout hlookup hlink hgreater.le hmy.le ?_ ?_ ?_ (fun _ => ?_) hbump hsub
      (fun k hk => Function.update_of_ne hk _ _) (fun k hk => Function.update_of_ne hk _ _)
      ?_ ?_ ?_ ?_ ?_
    · omega
    · rw [hbumps, sum_update_succ]
      omega
    · rw [hbumps, sum_update_succ]
      omega
    · omega
    · rw [Function.update_self]
      exact Finset.mem_insert_self _ _
    · intro c hc
      rw [Function.update_self] at hc
      rcases Finset.mem_insert.mp hc with rfl | hc
      · exact le_rfl
      · exact (h.valueLe i c hc).trans hgreater.le
    · rw [hbumps, Function.update_self, Function.update_self]
      exact (Finset.card_insert_le _ _).trans (Nat.succ_le_succ (h.cardValues i))
    · intro p hp
      rw [Function.update_self] at hp
      rcases Finset.mem_insert.mp hp with rfl | hp
      · exact ⟨hlt, hsub j (hhdrConfig hnone).1, heq ▸ hgreater⟩
      · obtain ⟨hlt, hmem, hp⟩ := h.cause i p hp
        exact ⟨hlt, hsub _ hmem, hp.trans hgreater⟩
    · rw [hbumps, Function.update_self, Function.update_self, Finset.card_insert_of_notMem]
      · exact Nat.succ_le_succ (h.cardCauses i)
      · intro hmem
        have hold := (h.cause i _ hmem).2.2
        exact absurd hold (by simp [heq])

end

/-! ### Runs -/

/-- What happened since the state `w`: no epoch decreased, and the node with the greatest
name has the one it had. -/
structure Since (e : ℕ) (w w' : Heartbeats N) : Prop where
  colliding : ∃ values causes, Colliding e values causes w'
  mono : ∀ i, w.config i ≤ w'.config i
  greatest : ∀ i, (∀ j, j ≤ i) → w'.config i = w.config i

theorem Since.step {w₀ w' : Heartbeats N} (hroom : e + 2 ^ Fintype.card N < 2 ^ 64)
    (event : HeartbeatEvent N) (h : Since e w₀ w) (hstep : heartbeatStep w event = some w') :
    Since e w₀ w' := by
  obtain ⟨⟨values, causes, hcolliding⟩, hmono, hgreatest⟩ := h
  cases event with
  | send j i offset =>
    rw [heartbeatStep] at hstep
    split at hstep
    · cases hstep
    · rename_i hne
      obtain ⟨hdr, hhdr, rfl⟩ := Option.map_eq_some_iff.mp hstep
      exact ⟨⟨values, causes, hcolliding.send hne (toOption_eq_some.mp hhdr)⟩, hmono, hgreatest⟩
  | receive j i =>
    rw [heartbeatStep] at hstep
    split at hstep
    · cases hstep
    · rename_i hdr hdrs hlink
      obtain ⟨st, hping, rfl⟩ := Option.map_eq_some_iff.mp hstep
      -- the packet leaves the link, then the node processes it
      obtain ⟨hle, hmax, values', causes', hnew⟩ :=
        hcolliding.receive hroom hlink (toOption_eq_some.mp hping)
      have htail := hnew.setLink_tail j i
      have heq : ((w.setLink j i hdrs).process j i hdr st)
          = (w.process j i hdr st).setLink j i ((w.process j i hdr st).link j i).tail := by
        have hprocess : (w.process j i hdr st).link = w.link := rfl
        rw [hprocess, hlink, List.tail_cons]
        rfl
      rw [heq]
      refine ⟨⟨values', causes', htail⟩, fun k => ?_, fun k hk => ?_⟩
      · refine (hmono k).trans (?_ : w.config k ≤ (w.process j i hdr st).config k)
        by_cases hki : k = i
        · subst hki
          rwa [process_config_self]
        · rw [process_config_of_ne w hki]
      · rw [← hgreatest k hk]
        show (w.process j i hdr st).config k = w.config k
        by_cases hki : k = i
        · subst hki
          rw [process_config_self, hmax hk]
        · rw [process_config_of_ne w hki]
  | lose j i =>
    obtain rfl := Option.some_inj.mp hstep
    exact ⟨⟨values, causes, hcolliding.setLink_tail j i⟩, hmono, hgreatest⟩

theorem Since.run {w' : Heartbeats N} {es : List (HeartbeatEvent N)}
    (hroom : e + 2 ^ Fintype.card N < 2 ^ 64) (h : Colliding e values causes w)
    (hrun : Runs.run heartbeatStep w es = some w') : Since e w w' :=
  Runs.run_invariant (I := Since e w) (fun _ event _ => Since.step hroom event)
    ⟨⟨values, causes, h⟩, fun _ => le_rfl, fun _ _ => rfl⟩ hrun

omit [Fintype N] in
/-- The start of a run: every node knows the others and no epoch of them that they do not
have, and nothing was sent. -/
structure Beginning (w : Heartbeats N) : Prop where
  named : ∀ i, Named i (w.node i)
  knows : ∀ i j, i ≠ j → Knows w i j
  configLe : ∀ i, w.config i ≤ (w.node i).currentEpoch
  link : ∀ j i, w.link j i = []
  heard : ∀ i j, w.heard i j = []
  bumps : ∀ i, w.bumps i = 0

theorem Beginning.colliding (h : Beginning w) (hcurrent : ∀ i, (w.node i).currentEpoch ≤ e) :
    Colliding e (fun i => {w.config i}) (fun _ => ∅) w := by
  constructor
  · exact h.named
  · exact h.knows
  · exact h.configLe
  · exact fun i => (hcurrent i).trans (Nat.le_add_right _ _)
  · exact fun i => Finset.mem_singleton_self _
  · intro i c hc
    exact (Finset.mem_singleton.mp hc).le
  · intro i
    rw [Finset.card_singleton]
    exact Nat.le_add_left 1 _
  · exact fun i p hp => absurd hp (Finset.notMem_empty p)
  · exact fun i => (h.bumps i).trans_le (Nat.zero_le _)
  · intro j i hdr hmem
    rw [h.link j i] at hmem
    exact absurd hmem List.not_mem_nil
  · intro i j hdr hmem
    rw [h.heard i j] at hmem
    exact absurd hmem List.not_mem_nil
  · rintro i j - - - ⟨hdr, hmem, -⟩
    rw [h.heard i j] at hmem
    exact absurd hmem List.not_mem_nil

end

/-! ### Two masters with the same epoch -/

section
variable {N : Type} [LinearOrder N]

theorem clusterProcessPing_agrees {st st₁ st' : ClusterState N} {hdr : ClusterMsg N} {r : NodeRef}
    {n n₁ : ClusterNode N} (hlookup : clusterLookupNode st hdr.sender = some r)
    (hn : st.heap r = some n) (hhandshake : n.flags.handshake = false)
    (hupdate : updateEpochs st r hdr = .ok st₁) (hslaveof : hdr.slaveof = none)
    (hn₁ : st₁.heap r = some n₁) (hmaster : n₁.flags.master = true) (hslots : n₁.slots = hdr.myslots)
    (hcheck : checkCollision st₁ r hdr.configEpoch = .ok st') :
    clusterProcessPing st hdr = .ok st' := by
  have hrole : roleSwitch st₁ r hdr = .ok st₁ := by
    simp only [roleSwitch, hslaveof, clusterSetNodeAsMaster, node_eq_ok hn₁, ok_bind, if_pos hmaster]
  have hdirty : dirtySlots st₁ r hdr = .ok false := by
    simp only [dirtySlots, node_eq_ok hn₁, ok_bind, if_pos hmaster, hslots, ne_eq, not_true,
      decide_false]
  have hupdateSlots : updateSlots st₁ r hdr.configEpoch hdr = .ok st₁ := by
    simp only [updateSlots, hdirty, ok_bind, node_eq_ok hn₁, Bool.false_eq_true, and_false, if_false]
  simp only [clusterProcessPing, hlookup, node_eq_ok hn, ok_bind, hhandshake, Bool.false_eq_true,
    if_false, hupdate, hrole, hupdateSlots, hcheck]

end

end ClusterState

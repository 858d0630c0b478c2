/-
When exactly one slave migrates.

* `NodeView`, `ViewOk` — what a migration reads of the nodes, and what holds of it;
* `clusterCronCounts_spec`, `considerNodes_spec` — the counts of `clusterCron`, and the election of
  the slave with the smallest name;
* `SoundMove`, `migrates_iff` — what a migration is, and when there is one;
* `migration_sound_and_unique` — when all slaves with one view make exactly one of them migrate.
-/
import Mathlib.Order.Basic
import RedisModel.ClusterMigration
import RedisModel.SlaveLists

open Except

/-! ### Views -/

/-- What a migration reads of a node; it is `addressed` without the flags `REDIS_NODE_NOADDR` and
`REDIS_NODE_HANDSHAKE`. -/
structure NodeView (N : Type) where
  name : N
  master : Bool
  slave : Bool
  fail : Bool
  pfail : Bool
  addressed : Bool
  numslots : ℤ
  slaves : List NodeRef
  slaveof : Option NodeRef

def ClusterNode.view {N : Type} (n : ClusterNode N) : NodeView N where
  name := n.name
  master := n.flags.master
  slave := n.flags.slave
  fail := n.flags.fail
  pfail := n.flags.pfail
  addressed := !(n.flags.noaddr || n.flags.handshake)
  numslots := n.numslots
  slaves := n.slaves
  slaveof := n.slaveof

namespace ClusterState

variable {N : Type}

/-- The nodes at their addresses. -/
def view (st : ClusterState N) (r : NodeRef) : Option (NodeView N) :=
  (st.heap r).map ClusterNode.view

theorem view_eq_some {st : ClusterState N} {r : NodeRef} {v : NodeView N} :
    st.view r = some v ↔ ∃ n, st.heap r = some n ∧ n.view = v :=
  Option.map_eq_some_iff

section
variable (view : NodeRef → Option (NodeView N))

/-- The number of working slaves of a node. -/
def okSlaves (n : NodeView N) : ℕ := n.slaves.countP fun r => (view r).any fun s => !s.fail

/-- A working master that serves slots and has no working slave. -/
structure Orphan (n : NodeView N) : Prop where
  master : n.master = true
  fail : n.fail = false
  slots : 0 < n.numslots
  slaves : okSlaves view n = 0

/-- The working slaves of a node, if `clusterCron` counts them. -/
def okCount (r : NodeRef) : ℕ :=
  match view r with
  | some n => if n.master && !n.fail && n.addressed then okSlaves view n else 0
  | none => 0

def maxSlaves (table : List NodeRef) : ℕ := table.foldr (fun r k => max (okCount view r) k) 0

/-- The slaves of the nodes with a number of working slaves. -/
def RichSlave (table : List NodeRef) (k : ℕ) (s : NodeRef) : Prop :=
  ∃ r ∈ table, ∃ n, view r = some n ∧ n.slave = false ∧ n.fail = false ∧ okSlaves view n = k ∧
    s ∈ n.slaves

/-- The nodes of a table have different names and one role each, and slaves and masters agree. -/
structure ViewOk (table : List NodeRef) : Prop where
  present : ∀ r ∈ table, ∃ n, view r = some n
  names : ∀ r ∈ table, ∀ q ∈ table, ∀ n m, view r = some n → view q = some m →
    n.name = m.name → r = q
  role : ∀ r ∈ table, ∀ n, view r = some n → n.slave = true → n.master = false
  serving : ∀ r ∈ table, ∀ n, view r = some n → n.slave = false →
    0 < n.numslots ∨ n.slaves ≠ [] → n.master = true
  nodup : ∀ r ∈ table, ∀ n, view r = some n → n.slaves.Nodup
  slaves : ∀ r ∈ table, ∀ n, view r = some n → ∀ s ∈ n.slaves, s ∈ table ∧ s < 2 ^ 64 ∧
    ∀ v, view s = some v → v.slave = true ∧ v.slaveof = some r
  slaveof : ∀ r ∈ table, ∀ n, view r = some n → ∀ m, n.slaveof = some m → n.slave = true ∧
    m ∈ table ∧ m ≠ r ∧ ∀ v, view m = some v → r ∈ v.slaves

variable {view}

theorem maxSlaves_le {table : List NodeRef} {b : ℕ} :
    maxSlaves view table ≤ b ↔ ∀ r ∈ table, okCount view r ≤ b := by
  induction table with
  | nil => exact iff_of_true (Nat.zero_le b) fun r hr => absurd hr List.not_mem_nil
  | cons r table ih =>
    rw [List.forall_mem_cons, ← ih]
    exact max_le_iff

theorem maxSlaves_congr {table table' : List NodeRef} (h : ∀ r, r ∈ table ↔ r ∈ table') :
    maxSlaves view table = maxSlaves view table' := by
  refine eq_of_forall_ge_iff fun b => ?_
  rw [maxSlaves_le, maxSlaves_le]
  exact forall_congr' fun r => imp_congr_left (h r)

theorem exists_okCount_eq_maxSlaves {table : List NodeRef} (h : 0 < maxSlaves view table) :
    ∃ r ∈ table, okCount view r = maxSlaves view table := by
  by_contra hnot
  have hle : maxSlaves view table ≤ maxSlaves view table - 1 := by
    refine maxSlaves_le.mpr fun r hr => ?_
    have hmax : okCount view r ≤ maxSlaves view table := maxSlaves_le.mp le_rfl r hr
    have hne : okCount view r ≠ maxSlaves view table := fun heq => hnot ⟨r, hr, heq⟩
    omega
  omega

theorem okCount_of_pos {r : NodeRef} (h : 0 < okCount view r) : ∃ n, view r = some n ∧
    n.master = true ∧ n.fail = false ∧ n.addressed = true ∧ okSlaves view n = okCount view r := by
  unfold okCount at h ⊢
  cases hn : view r with
  | none =>
    rw [hn] at h
    exact absurd h (Nat.lt_irrefl 0)
  | some n =>
    rw [hn] at h
    dsimp only at h ⊢
    split at h
    · rename_i hcounted
      rw [Bool.and_eq_true, Bool.and_eq_true, Bool.not_eq_true'] at hcounted
      exact ⟨n, rfl, hcounted.1.1, hcounted.1.2, hcounted.2, (if_pos (by simp [hcounted])).symm⟩
    · exact absurd h (Nat.lt_irrefl 0)

end

/-! ### The counts -/

section
variable {st : ClusterState N}

theorem countSlaves_eq {counted : NodeFlags → Bool} {n : ClusterNode N}
    (h : ∀ r ∈ n.slaves, ∃ s, st.heap r = some s) : countSlaves st counted n =
      .ok (n.slaves.countP fun r => (st.heap r).any fun s => counted s.flags) := by
  have hloop : ∀ (l : List NodeRef) (k : ℕ), (∀ r ∈ l, ∃ s, st.heap r = some s) →
      (l.foldlM (fun okslaves r => do
        let slave ← st.node r
        .ok (if counted slave.flags then okslaves + 1 else okslaves)) k : Result ℕ) =
        .ok (k + l.countP fun r => (st.heap r).any fun s => counted s.flags) := by
    intro l
    induction l with
    | nil => exact fun k _ => rfl
    | cons r l ih =>
      intro k hl
      obtain ⟨⟨s, hs⟩, hl⟩ := List.forall_mem_cons.mp hl
      rw [List.foldlM_cons, node_eq_ok hs, ok_bind, ok_bind, ih _ hl, List.countP_cons, hs,
        Option.any_some]
      split
      · exact congrArg Except.ok (by omega)
      · rfl
  exact (hloop n.slaves 0 h).trans (congrArg Except.ok (Nat.zero_add _))

theorem any_view (r : NodeRef) (p : NodeView N → Bool) :
    (st.view r).any p = (st.heap r).any fun n => p n.view := by
  rw [view]
  cases st.heap r <;> rfl

theorem ViewOk.slaves_present {table : List NodeRef} (h : ViewOk st.view table) {r : NodeRef}
    (hr : r ∈ table) {n : ClusterNode N} (hn : st.heap r = some n) :
    ∀ s ∈ n.slaves, ∃ m, st.heap s = some m := by
  intro s hs
  obtain ⟨hmem, -, -⟩ := h.slaves r hr n.view (view_eq_some.mpr ⟨n, hn, rfl⟩) s hs
  obtain ⟨v, hv⟩ := h.present s hmem
  obtain ⟨m, hm, -⟩ := view_eq_some.mp hv
  exact ⟨m, hm⟩

theorem clusterCountNonFailingSlaves_eq {table : List NodeRef} (h : ViewOk st.view table)
    {r : NodeRef} (hr : r ∈ table) {n : ClusterNode N} (hn : st.heap r = some n) :
    clusterCountNonFailingSlaves st n = .ok (okSlaves st.view n.view) := by
  rw [clusterCountNonFailingSlaves, countSlaves_eq (h.slaves_present hr hn), okSlaves]
  refine congrArg Except.ok (List.countP_congr fun s _ => ?_)
  rw [any_view]
  rfl

/-- What the loop of `clusterCron` counts in a part of the table, as a slave `me`. -/
structure CronCounted (view : NodeRef → Option (NodeView N)) (me : NodeView N) (done : List NodeRef)
    (c : SlaveCounts) : Prop where
  orphaned : c.orphanedMasters ≠ 0 ↔
    ∃ r ∈ done, ∃ n, view r = some n ∧ n.addressed = true ∧ Orphan view n
  max : c.maxSlaves = maxSlaves view done
  this : ∀ m, me.slaveof = some m → c.thisSlaves = if m ∈ done then okCount view m else 0

theorem maxSlaves_concat {view : NodeRef → Option (NodeView N)} (done : List NodeRef)
    (r : NodeRef) : maxSlaves view (done ++ [r]) = max (maxSlaves view done) (okCount view r) := by
  refine eq_of_forall_ge_iff fun b => ?_
  rw [maxSlaves_le, max_le_iff, maxSlaves_le, List.forall_mem_append, List.forall_mem_singleton]

/-- This node is in the table, and is the only one with the flag `REDIS_NODE_MYSELF`. -/
structure Placed (st : ClusterState N) : Prop where
  mem : st.myself ∈ st.refs
  flag : ∀ r n, st.heap r = some n → n.flags.myself = true → r = st.myself

theorem exists_mem_concat {view : NodeRef → Option (NodeView N)} {done : List NodeRef} {r : NodeRef}
    {n : NodeView N} (hn : view r = some n) (P : NodeView N → Prop) :
    (∃ q ∈ done ++ [r], ∃ m, view q = some m ∧ P m) ↔
      (∃ q ∈ done, ∃ m, view q = some m ∧ P m) ∨ P n := by
  constructor
  · rintro ⟨q, hq, m, hm, hP⟩
    obtain hq | hq := List.mem_append.mp hq
    · exact .inl ⟨q, hq, m, hm, hP⟩
    · obtain rfl := List.mem_singleton.mp hq
      obtain rfl := Option.some_inj.mp (hn.symm.trans hm)
      exact .inr hP
  · rintro (⟨q, hq, m, hm, hP⟩ | hP)
    · exact ⟨q, List.mem_append_left _ hq, m, hm, hP⟩
    · exact ⟨r, List.mem_append_right _ (List.mem_singleton_self r), n, hn, hP⟩

theorem CronCounted.skip {view : NodeRef → Option (NodeView N)} {me n : NodeView N}
    {done : List NodeRef} {c : SlaveCounts} (hc : CronCounted view me done c) {r : NodeRef}
    (hn : view r = some n) (hnot : (n.master && !n.fail && n.addressed) = false) :
    CronCounted view me (done ++ [r]) c := by
  have hcount : okCount view r = 0 := by
    unfold okCount
    rw [hn]
    dsimp only
    rw [hnot]
    rfl
  refine ⟨?_, ?_, fun m hm => ?_⟩
  · rw [hc.orphaned, exists_mem_concat hn, or_iff_left]
    rintro ⟨haddressed, horphan⟩
    rw [horphan.master, horphan.fail, haddressed] at hnot
    cases hnot
  · rw [maxSlaves_concat, hcount, hc.max]
    exact (Nat.max_zero _).symm
  · rw [hc.this m hm]
    by_cases hdone : m ∈ done
    · rw [if_pos hdone, if_pos (List.mem_append_left _ hdone)]
    · rw [if_neg hdone]
      split
      · rename_i hmem
        obtain rfl := List.mem_singleton.mp ((List.mem_append.mp hmem).resolve_left hdone)
        exact hcount.symm
      · rfl

theorem CronCounted.count {view : NodeRef → Option (NodeView N)} {me n : NodeView N}
    {done : List NodeRef} {c : SlaveCounts} (hc : CronCounted view me done c) {r : NodeRef}
    (hn : view r = some n) (hmaster : n.master = true) (hfail : n.fail = false)
    (haddressed : n.addressed = true) : CronCounted view me (done ++ [r])
      { orphanedMasters := if okSlaves view n = 0 ∧ n.numslots > 0 then c.orphanedMasters + 1
          else c.orphanedMasters
        maxSlaves := if okSlaves view n > c.maxSlaves then okSlaves view n else c.maxSlaves
        thisSlaves := if me.slaveof = some r then okSlaves view n else c.thisSlaves } := by
  have hcount : okCount view r = okSlaves view n := by
    unfold okCount
    rw [hn]
    dsimp only
    rw [haddressed, hmaster, hfail]
    rfl
  refine ⟨?_, ?_, fun m hm => ?_⟩
  · rw [exists_mem_concat hn, ← hc.orphaned]
    dsimp only
    split
    · rename_i hzero
      exact iff_of_true (Nat.succ_ne_zero _) (.inr ⟨haddressed, hmaster, hfail, hzero.2, hzero.1⟩)
    · rename_i hzero
      rw [or_iff_left]
      rintro ⟨-, horphan⟩
      exact hzero ⟨horphan.slaves, horphan.slots⟩
  · dsimp only
    rw [maxSlaves_concat, hcount, ← hc.max]
    split
    · rename_i hgt
      exact (max_eq_right hgt.le).symm
    · rename_i hgt
      exact (max_eq_left (Nat.le_of_not_lt hgt)).symm
  · dsimp only
    by_cases hmr : m = r
    · subst hmr
      rw [if_pos hm, if_pos (List.mem_append_right _ (List.mem_singleton_self m)), hcount]
    · have hne : me.slaveof ≠ some r := fun heq => hmr (Option.some_inj.mp (hm.symm.trans heq))
      have hmem : m ∈ done ++ [r] ↔ m ∈ done := by
        rw [List.mem_append, List.mem_singleton, or_iff_left hmr]
      rw [if_neg hne, hc.this m hm]
      simp only [hmem]

theorem countNode_spec (h : ViewOk st.view st.refs) (hplaced : Placed st) {me : ClusterNode N}
    (hme : st.heap st.myself = some me) (hslave : me.flags.slave = true) {done : List NodeRef}
    {r : NodeRef} (hr : r ∈ st.refs) {c : SlaveCounts} (hc : CronCounted st.view me.view done c) :
    (countNode st me c r).Ensures (fun _ => False) (CronCounted st.view me.view (done ++ [r])) := by
  obtain ⟨v, hv⟩ := h.present r hr
  obtain ⟨n, hn, rfl⟩ := view_eq_some.mp hv
  have hnotmaster : me.flags.master = false :=
    h.role st.myself hplaced.mem me.view (view_eq_some.mpr ⟨me, hme, rfl⟩) hslave
  rw [countNode, node_eq_ok hn, ok_bind]
  split
  · rename_i hflags
    rw [ensures_ok]
    refine hc.skip hv ?_
    obtain hmyself | haddr := hflags
    · obtain rfl := hplaced.flag r n hn hmyself
      obtain rfl := Option.some_inj.mp (hme.symm.trans hn)
      rw [show me.view.master = false from hnotmaster]
      rfl
    · have haddressed : n.view.addressed = false := by
        rw [ClusterNode.view, Bool.not_eq_false', Bool.or_eq_true]
        exact haddr
      rw [haddressed, Bool.and_false]
  · rename_i hflags
    split
    · rename_i hcounted
      obtain ⟨-, hmaster, hfail⟩ := hcounted
      rw [clusterCountNonFailingSlaves_eq h hr hn, ok_bind, ensures_ok]
      have haddressed : n.view.addressed = true := by
        rw [ClusterNode.view, Bool.not_eq_true', Bool.or_eq_false_iff]
        rw [not_or, not_or, Bool.not_eq_true, Bool.not_eq_true, Bool.not_eq_true] at hflags
        exact hflags.2
      exact hc.count hv hmaster (Bool.not_eq_true _ ▸ hfail) haddressed
    · rename_i hcounted
      rw [ensures_ok]
      refine hc.skip hv (Bool.eq_false_iff.mpr fun hall => ?_)
      rw [Bool.and_eq_true, Bool.and_eq_true, Bool.not_eq_true'] at hall
      have hfail : n.flags.fail = false := hall.1.2
      exact hcounted ⟨hslave, hall.1.1, by rw [hfail]; exact Bool.false_ne_true⟩

theorem clusterCronCounts_spec (h : ViewOk st.view st.refs) (hplaced : Placed st)
    {me : ClusterNode N} (hme : st.heap st.myself = some me) (hslave : me.flags.slave = true) :
    (clusterCronCounts st).Ensures (fun _ => False) (CronCounted st.view me.view st.refs) := by
  rw [clusterCronCounts, node_eq_ok hme, ok_bind]
  refine Ensures.foldlM_prefix (I := fun done c => CronCounted st.view me.view done c)
    (fun done r rest c hrefs hc => ?_) ?_
  · refine countNode_spec h hplaced hme hslave ?_ hc
    rw [hrefs]
    exact List.mem_append_right _ List.mem_cons_self
  · refine ⟨iff_of_false (fun h => h rfl) ?_, rfl, fun m _ => rfl⟩
    rintro ⟨r, hr, -⟩
    exact absurd hr List.not_mem_nil

end

/-! ### The election -/

section
variable [LinearOrder N] {st : ClusterState N}

/-- The name of a node is not greater. -/
def NameLe (view : NodeRef → Option (NodeView N)) (r q : NodeRef) : Prop :=
  ∀ n m, view r = some n → view q = some m → n.name ≤ m.name

theorem NameLe.refl {view : NodeRef → Option (NodeView N)} (r : NodeRef) : NameLe view r r := by
  intro n m hn hm
  rw [Option.some_inj.mp (hn.symm.trans hm)]

theorem NameLe.trans {view : NodeRef → Option (NodeView N)} {p q r : NodeRef}
    (hpq : NameLe view p q) (hqr : NameLe view q r) (hq : ∃ m, view q = some m) :
    NameLe view p r := by
  obtain ⟨m, hm⟩ := hq
  exact fun n k hn hk => (hpq n m hn hm).trans (hqr m k hm hk)

/-- Two nodes of which neither has the greater name are one. -/
theorem NameLe.antisymm {table : List NodeRef} {view : NodeRef → Option (NodeView N)}
    (h : ViewOk view table) {r q : NodeRef} (hr : r ∈ table) (hq : q ∈ table)
    (hrq : NameLe view r q) (hqr : NameLe view q r) : r = q := by
  obtain ⟨n, hn⟩ := h.present r hr
  obtain ⟨m, hm⟩ := h.present q hq
  exact h.names r hr q hq n m hn hm (le_antisymm (hrq n m hn hm) (hqr m n hm hn))

theorem smallerName_spec {candidate r : NodeRef} {n m : ClusterNode N}
    (hn : st.heap candidate = some n) (hm : st.heap r = some m) :
    (smallerName st candidate r).Ensures (fun _ => False) fun c =>
      (c = candidate ∨ c = r) ∧ NameLe st.view c candidate ∧ NameLe st.view c r := by
  have hviews : st.view candidate = some n.view ∧ st.view r = some m.view :=
    ⟨view_eq_some.mpr ⟨n, hn, rfl⟩, view_eq_some.mpr ⟨m, hm, rfl⟩⟩
  rw [smallerName, node_eq_ok hm, ok_bind, node_eq_ok hn, ok_bind, ensures_ok]
  split
  · rename_i hlt
    refine ⟨.inr rfl, fun x y hx hy => ?_, NameLe.refl r⟩
    obtain rfl := Option.some_inj.mp (hviews.2.symm.trans hx)
    obtain rfl := Option.some_inj.mp (hviews.1.symm.trans hy)
    exact hlt.le
  · rename_i hlt
    refine ⟨.inl rfl, NameLe.refl candidate, fun x y hx hy => ?_⟩
    obtain rfl := Option.some_inj.mp (hviews.1.symm.trans hx)
    obtain rfl := Option.some_inj.mp (hviews.2.symm.trans hy)
    exact le_of_not_gt hlt

theorem smallerNames_spec (slaves : List NodeRef) (candidate : NodeRef)
    (hcandidate : ∃ n, st.heap candidate = some n) (h : ∀ r ∈ slaves, ∃ n, st.heap r = some n) :
    (slaves.foldlM (smallerName st) candidate).Ensures (fun _ => False) fun c =>
      (c = candidate ∨ c ∈ slaves) ∧ NameLe st.view c candidate ∧
        ∀ r ∈ slaves, NameLe st.view c r := by
  induction slaves generalizing candidate with
  | nil => exact ⟨.inl rfl, NameLe.refl candidate, fun r hr => absurd hr List.not_mem_nil⟩
  | cons r slaves ih =>
    obtain ⟨hr, hslaves⟩ := List.forall_mem_cons.mp h
    obtain ⟨m, hm⟩ := hr
    obtain ⟨n, hn⟩ := hcandidate
    rw [List.foldlM_cons]
    refine (smallerName_spec hn hm).bind fun c hc => ?_
    obtain ⟨hfrom, hle, hler⟩ := hc
    have hpresent : ∃ k, st.heap c = some k := by
      obtain rfl | rfl := hfrom
      · exact ⟨n, hn⟩
      · exact ⟨m, hm⟩
    have hview : ∃ k, st.view c = some k := by
      obtain ⟨k, hk⟩ := hpresent
      exact ⟨k.view, view_eq_some.mpr ⟨k, hk, rfl⟩⟩
    refine (ih c hpresent hslaves).imp fun d hd => ?_
    obtain ⟨hd, hdc, hall⟩ := hd
    refine ⟨?_, hdc.trans hle hview, List.forall_mem_cons.mpr ⟨hdc.trans hler hview, hall⟩⟩
    obtain rfl | hd := hd
    · exact hfrom.imp_right fun heq => List.mem_cons.mpr (.inl heq)
    · exact .inr (List.mem_cons_of_mem r hd)

/-- The nodes that are considered as targets: not only working masters, but nodes that are not
slaves. -/
def Target (view : NodeRef → Option (NodeView N)) (n : NodeView N) : Prop :=
  n.slave = false ∧ n.fail = false ∧ 0 < n.numslots ∧ okSlaves view n = 0

/-- The third step for a part of the table. -/
structure Considered (view : NodeRef → Option (NodeView N)) (me : NodeRef) (k : ℕ)
    (done : List NodeRef) (acc : Option NodeRef × NodeRef) : Prop where
  target : ∀ t, acc.1 = some t → t ∈ done ∧ ∃ n, view t = some n ∧ Target view n
  untargeted : acc.1 = none → ∀ r ∈ done, ∀ n, view r = some n → ¬Target view n
  candidate : acc.2 = me ∨ RichSlave view done k acc.2
  me : NameLe view acc.2 me
  least : ∀ s, RichSlave view done k s → NameLe view acc.2 s

omit [LinearOrder N] in
theorem RichSlave.mono {view : NodeRef → Option (NodeView N)} {done table : List NodeRef} {k : ℕ}
    {s : NodeRef} (h : RichSlave view done k s) (hsub : ∀ r ∈ done, r ∈ table) :
    RichSlave view table k s := by
  obtain ⟨r, hr, hrest⟩ := h
  exact ⟨r, hsub r hr, hrest⟩

omit [LinearOrder N] in
theorem RichSlave.mem {view : NodeRef → Option (NodeView N)} {table : List NodeRef} {k : ℕ}
    {s : NodeRef} (hs : RichSlave view table k s) (h : ViewOk view table) : s ∈ table := by
  obtain ⟨r, hr, n, hn, -, -, -, hs⟩ := hs
  exact (h.slaves r hr n hn s hs).1

omit [LinearOrder N] in
theorem richSlave_concat {view : NodeRef → Option (NodeView N)} {done : List NodeRef} {k : ℕ}
    {r s : NodeRef} {n : NodeView N} (hn : view r = some n) :
    RichSlave view (done ++ [r]) k s ↔ RichSlave view done k s ∨
      (n.slave = false ∧ n.fail = false ∧ okSlaves view n = k ∧ s ∈ n.slaves) :=
  exists_mem_concat hn fun m =>
    m.slave = false ∧ m.fail = false ∧ okSlaves view m = k ∧ s ∈ m.slaves

theorem Considered.skip {view : NodeRef → Option (NodeView N)} {me r : NodeRef} {k : ℕ}
    {done : List NodeRef} {acc : Option NodeRef × NodeRef} (h : Considered view me k done acc)
    {n : NodeView N} (hn : view r = some n) (hnot : n.slave = true ∨ n.fail = true) :
    Considered view me k (done ++ [r]) acc := by
  have hout : ¬(n.slave = false ∧ n.fail = false) := by
    rintro ⟨hslave, hfail⟩
    rw [hslave, hfail] at hnot
    exact absurd hnot (by decide)
  have hsame : ∀ s, RichSlave view (done ++ [r]) k s ↔ RichSlave view done k s := by
    intro s
    rw [richSlave_concat hn, or_iff_left fun hs => hout ⟨hs.1, hs.2.1⟩]
  refine ⟨fun t ht => ?_, fun hnone q hq m hm => ?_, ?_, h.me, fun s hs => ?_⟩
  · obtain ⟨hmem, hview⟩ := h.target t ht
    exact ⟨List.mem_append_left _ hmem, hview⟩
  · obtain hq | hq := List.mem_append.mp hq
    · exact h.untargeted hnone q hq m hm
    · obtain rfl := List.mem_singleton.mp hq
      obtain rfl := Option.some_inj.mp (hn.symm.trans hm)
      exact fun htarget => hout ⟨htarget.1, htarget.2.1⟩
  · rw [hsame]
    exact h.candidate
  · exact h.least s ((hsame s).mp hs)

theorem Considered.consider {view : NodeRef → Option (NodeView N)} {me r c : NodeRef} {k : ℕ}
    {done : List NodeRef} {acc : Option NodeRef × NodeRef} (h : Considered view me k done acc)
    {n : NodeView N} (hn : view r = some n) (hslave : n.slave = false) (hfail : n.fail = false)
    (hacc : ∃ m, view acc.2 = some m)
    (hc : c = acc.2 ∨ okSlaves view n = k ∧ c ∈ n.slaves) (hle : NameLe view c acc.2)
    (hall : okSlaves view n = k → ∀ s ∈ n.slaves, NameLe view c s) :
    Considered view me k (done ++ [r])
      (if okSlaves view n = 0 ∧ acc.1 = none ∧ n.numslots > 0 then some r else acc.1, c) := by
  have hleft : ∀ q ∈ done, q ∈ done ++ [r] := fun q hq => List.mem_append_left _ hq
  have hlast : r ∈ done ++ [r] := List.mem_append_right _ (List.mem_singleton_self r)
  refine ⟨fun t ht => ?_, fun hnone q hq m hm => ?_, ?_, hle.trans h.me hacc, fun s hs => ?_⟩
  · dsimp only at ht
    split at ht
    · rename_i htarget
      obtain rfl := Option.some_inj.mp ht
      exact ⟨hlast, n, hn, hslave, hfail, htarget.2.2, htarget.1⟩
    · obtain ⟨hmem, hview⟩ := h.target t ht
      exact ⟨hleft t hmem, hview⟩
  · dsimp only at hnone
    split at hnone
    · cases hnone
    · rename_i hnot
      obtain hq | hq := List.mem_append.mp hq
      · exact h.untargeted hnone q hq m hm
      · obtain rfl := List.mem_singleton.mp hq
        obtain rfl := Option.some_inj.mp (hn.symm.trans hm)
        exact fun htarget => hnot ⟨htarget.2.2.2, hnone, htarget.2.2.1⟩
  · obtain rfl | hc := hc
    · exact h.candidate.imp_right fun hrich => hrich.mono hleft
    · exact .inr ⟨r, hlast, n, hn, hslave, hfail, hc⟩
  · obtain hs | ⟨-, -, hcount, hs⟩ := (richSlave_concat hn).mp hs
    · exact hle.trans (h.least s hs) hacc
    · exact hall hcount s hs

theorem considerNode_spec (h : ViewOk st.view st.refs) {me : NodeRef} (hme : me ∈ st.refs) {k : ℕ}
    {done : List NodeRef} (hdone : ∀ q ∈ done, q ∈ st.refs) {r : NodeRef} (hr : r ∈ st.refs)
    {acc : Option NodeRef × NodeRef} (hacc : Considered st.view me k done acc) :
    (considerNode st k acc r).Ensures (fun _ => False) (Considered st.view me k (done ++ [r])) := by
  obtain ⟨v, hv⟩ := h.present r hr
  obtain ⟨n, hn, rfl⟩ := view_eq_some.mp hv
  rw [considerNode, node_eq_ok hn, ok_bind]
  split
  · rename_i hflags
    exact hacc.skip hv hflags
  · rename_i hflags
    rw [not_or, Bool.not_eq_true, Bool.not_eq_true] at hflags
    have hcandidate : ∃ m, st.view acc.2 = some m := by
      obtain heq | hrich := hacc.candidate
      · rw [heq]
        exact h.present me hme
      · exact h.present _ ((hrich.mono hdone).mem h)
    have hheap : ∃ m, st.heap acc.2 = some m := by
      obtain ⟨m, hm⟩ := hcandidate
      obtain ⟨x, hx, -⟩ := view_eq_some.mp hm
      exact ⟨x, hx⟩
    rw [clusterCountNonFailingSlaves_eq h hr hn, ok_bind]
    dsimp only
    split
    · rename_i hcount
      refine (smallerNames_spec n.slaves acc.2 hheap (h.slaves_present hr hn)).bind fun c hc => ?_
      obtain ⟨hfrom, hle, hall⟩ := hc
      rw [ensures_ok]
      exact hacc.consider hv hflags.1 hflags.2 hcandidate (hfrom.imp_right fun hs => ⟨hcount, hs⟩)
        hle fun _ => hall
    · rename_i hcount
      rw [ok_bind, ensures_ok]
      exact hacc.consider hv hflags.1 hflags.2 hcandidate (.inl rfl) (NameLe.refl _)
        fun heq => absurd heq hcount

theorem considerNodes_spec (h : ViewOk st.view st.refs) {me : NodeRef} (hme : me ∈ st.refs)
    (k : ℕ) : (st.refs.foldlM (considerNode st k) (none, me)).Ensures (fun _ => False)
      (Considered st.view me k st.refs) := by
  refine Ensures.foldlM_prefix (I := fun done acc => Considered st.view me k done acc)
    (fun done r rest acc hrefs hacc => ?_) ?_
  · refine considerNode_spec h hme (fun q hq => ?_) ?_ hacc
    · rw [hrefs]
      exact List.mem_append_left _ hq
    · rw [hrefs]
      exact List.mem_append_right _ List.mem_cons_self
  · refine ⟨nofun, fun _ r hr => absurd hr List.not_mem_nil, .inl rfl, NameLe.refl me, ?_⟩
    rintro s ⟨r, hr, -⟩
    exact absurd hr List.not_mem_nil

/-! ### A migration -/

/-- The number of the slaves of a node that are neither failing nor timed out. -/
def reachableSlaves (view : NodeRef → Option (NodeView N)) (n : NodeView N) : ℕ :=
  n.slaves.countP fun r => (view r).any fun s => !s.fail && !s.pfail

/-- The master of a node has more such slaves than the barrier. -/
def AboveBarrier (view : NodeRef → Option (NodeView N)) (me : NodeView N) (barrier : ℤ) : Prop :=
  ∃ m n, me.slaveof = some m ∧ view m = some n ∧ barrier < reachableSlaves view n

theorem migrationTarget_spec (h : ViewOk st.view st.refs) (hmem : st.myself ∈ st.refs)
    {me : ClusterNode N} (hme : st.heap st.myself = some me) (ok : Bool) (barrier : ℤ) (k : ℕ) :
    (migrationTarget st ok barrier k).Ensures (fun _ => False) fun target =>
      (∀ t, target = some t → t ∈ st.refs ∧ ∃ n, st.view t = some n ∧ Target st.view n) ∧
      (target.isSome = true ↔ ok = true ∧ AboveBarrier st.view me.view barrier ∧
        (∃ t ∈ st.refs, ∃ n, st.view t = some n ∧ Target st.view n) ∧
        ∀ s, RichSlave st.view st.refs k s → NameLe st.view st.myself s) := by
  have hnone : ∀ P : Prop, ¬P → (∀ t, (none : Option NodeRef) = some t →
      t ∈ st.refs ∧ ∃ n, st.view t = some n ∧ Target st.view n) ∧
      ((none : Option NodeRef).isSome = true ↔ P) :=
    fun P hP => ⟨nofun, iff_of_false Bool.false_ne_true hP⟩
  rw [migrationTarget]
  split
  · rename_i hok
    exact hnone _ fun h => hok h.1
  · rename_i hok
    rw [Bool.not_eq_true, Bool.not_eq_false] at hok
    rw [node_eq_ok hme, ok_bind]
    cases hof : me.slaveof with
    | none =>
      refine hnone _ fun h => ?_
      obtain ⟨m, n, hm, -⟩ := h.2.1
      rw [show me.slaveof = some m from hm] at hof
      cases hof
    | some m =>
      obtain ⟨-, hm, -, -⟩ := h.slaveof _ hmem me.view (view_eq_some.mpr ⟨me, hme, rfl⟩) m hof
      obtain ⟨v, hv⟩ := h.present m hm
      obtain ⟨n, hn, rfl⟩ := view_eq_some.mp hv
      have hcount : (n.slaves.countP fun r => (st.heap r).any fun s =>
          !s.flags.fail && !s.flags.pfail) = reachableSlaves st.view n.view := by
        rw [reachableSlaves]
        refine List.countP_congr fun s _ => ?_
        rw [any_view]
        rfl
      have habove : AboveBarrier st.view me.view barrier ↔
          barrier < reachableSlaves st.view n.view := by
        constructor
        · rintro ⟨m', n', hm', hn', hlt⟩
          obtain rfl := Option.some_inj.mp (hof.symm.trans hm')
          rwa [Option.some_inj.mp (hv.symm.trans hn')]
        · exact fun hlt => ⟨m, n.view, hof, hv, hlt⟩
      dsimp only
      rw [node_eq_ok hn, ok_bind, countSlaves_eq (h.slaves_present hm hn), ok_bind, hcount]
      split
      · rename_i hle
        exact hnone _ fun hall => absurd (habove.mp hall.2.1) (not_lt.mpr hle)
      · rename_i hlt
        refine (considerNodes_spec h hmem k).bind fun acc hacc => ?_
        have hcandidate : acc.2 = st.myself ↔
            ∀ s, RichSlave st.view st.refs k s → NameLe st.view st.myself s := by
          constructor
          · exact fun heq s hs => heq ▸ hacc.least s hs
          · intro hall
            obtain heq | hrich := hacc.candidate
            · exact heq
            · exact NameLe.antisymm h (hrich.mem h) hmem hacc.me (hall _ hrich)
        rw [ensures_ok]
        split
        · rename_i heq
          refine ⟨hacc.target, ?_⟩
          cases hacc1 : acc.1 with
          | none =>
            refine iff_of_false Bool.false_ne_true fun hall => ?_
            obtain ⟨t, ht, x, hx, htarget⟩ := hall.2.2.1
            exact hacc.untargeted hacc1 t ht x hx htarget
          | some t =>
            obtain ⟨ht, x, hx, htarget⟩ := hacc.target t hacc1
            exact iff_of_true rfl ⟨hok, habove.mpr (not_le.mp hlt), ⟨t, ht, x, hx, htarget⟩,
              hcandidate.mp heq⟩
        · rename_i hne
          exact hnone _ fun hall => hne (hcandidate.mpr hall.2.2.2)

omit [LinearOrder N] in
/-- `clusterSetMaster` for a slave: it fails if the slave serves slots. -/
theorem clusterSetMaster_slave {me mymaster target : ClusterNode N} {m t : NodeRef}
    (hme : st.heap st.myself = some me) (hmaster : me.flags.master = false)
    (hof : me.slaveof = some m) (hm : st.heap m = some mymaster) (hself : m ≠ st.myself)
    (hin : st.myself ∈ mymaster.slaves) (hword : ∀ r ∈ mymaster.slaves, r < 2 ^ 64)
    (ht : st.heap t = some target) (htself : t ≠ st.myself) :
    (clusterSetMaster st t).Ensures (fun _ => me.numslots ≠ 0) fun st' =>
      me.numslots = 0 ∧ ∃ me', st'.heap st.myself = some me' ∧ me'.slaveof = some t := by
  rw [clusterSetMaster, redisAssert, if_pos htself, ok_bind, node_eq_ok hme, ok_bind, redisAssert]
  split
  · rename_i hslots
    rw [ok_bind]
    obtain ⟨a, l, hcut, hfirst⟩ := List.eq_append_cons_of_mem hin
    have hleave : leaveRole st me =
        .ok (st.setNode m { mymaster with slaves := a ++ closeGap st.myself l }) := by
      rw [leaveRole, if_neg (by rw [hmaster]; exact Bool.false_ne_true), hof]
      refine clusterNodeRemoveSlave_of_mem hm hcut hfirst fun r hr => hword r ?_
      rw [hcut]
      exact List.mem_append_left _ hr
    rw [hleave, ok_bind]
    set left := st.setNode m { mymaster with slaves := a ++ closeGap st.myself l } with hleft
    have hme' : left.heap st.myself = some me :=
      (Function.update_of_ne hself.symm _ _).trans hme
    have ht' : ∃ x, left.heap t = some x := by
      by_cases htm : t = m
      · exact htm ▸ ⟨_, Function.update_self _ _ _⟩
      · exact ⟨target, (Function.update_of_ne htm _ _).trans ht⟩
    obtain ⟨x, hx⟩ := ht'
    rw [modifyNode, node_eq_ok (show left.heap left.myself = some me from hme'), ok_bind, ok_bind]
    have hx' : (left.setNode left.myself { me with slaveof := some t }).heap t = some x :=
      (Function.update_of_ne htself _ _).trans hx
    rw [clusterNodeAddSlave, node_eq_ok hx', ok_bind]
    split
    · exact ⟨hslots, _, Function.update_self _ _ _, rfl⟩
    · exact ⟨hslots, _, (Function.update_of_ne htself.symm _ _).trans (Function.update_self _ _ _),
        rfl⟩
  · rename_i hslots
    exact hslots

/-- This node takes itself for the candidate, and has a target. -/
structure Elects (st : ClusterState N) (me : ClusterNode N) (ok : Bool) (barrier : ℤ) (k : ℕ) :
    Prop where
  ok : ok = true
  above : AboveBarrier st.view me.view barrier
  target : ∃ t ∈ st.refs, ∃ n, st.view t = some n ∧ Target st.view n
  least : ∀ s, RichSlave st.view st.refs k s → NameLe st.view st.myself s

theorem clusterHandleSlaveMigration_spec (h : ViewOk st.view st.refs) (hmem : st.myself ∈ st.refs)
    {me : ClusterNode N} (hme : st.heap st.myself = some me) (ok : Bool) (barrier : ℤ) (k : ℕ) :
    (clusterHandleSlaveMigration st ok barrier k).Ensures
      (fun _ => Elects st me ok barrier k ∧ me.numslots ≠ 0) fun st' =>
        (Elects st me ok barrier k ∧ me.numslots = 0 ∧ ∃ me' t n, st'.heap st.myself = some me' ∧
          me'.slaveof = some t ∧ t ∈ st.refs ∧ st.view t = some n ∧ Target st.view n) ∨
        (¬Elects st me ok barrier k ∧ st' = st) := by
  have hmeview : st.view st.myself = some me.view := view_eq_some.mpr ⟨me, hme, rfl⟩
  rw [clusterHandleSlaveMigration]
  refine ((migrationTarget_spec h hmem hme ok barrier k).mono (fun _ => False.elim)
    fun _ ht => ht).bind fun target htarget => ?_
  obtain ⟨hwhere, hwhen⟩ := htarget
  cases target with
  | none =>
    refine .inr ⟨fun helects => ?_, rfl⟩
    exact absurd (hwhen.mpr ⟨helects.ok, helects.above, helects.target, helects.least⟩)
      Bool.false_ne_true
  | some t =>
    obtain ⟨hok, habove, hexists, hleast⟩ := hwhen.mp rfl
    have helects : Elects st me ok barrier k := ⟨hok, habove, hexists, hleast⟩
    obtain ⟨ht, v, hv, htv⟩ := hwhere t rfl
    obtain ⟨n, hn, rfl⟩ := view_eq_some.mp hv
    obtain ⟨m, x, hof, hx, -⟩ := habove
    obtain ⟨y, hy, rfl⟩ := view_eq_some.mp hx
    obtain ⟨hslave, hm, hself, hin⟩ := h.slaveof _ hmem _ hmeview m hof
    have htself : t ≠ st.myself := by
      rintro rfl
      rw [Option.some_inj.mp (hv.symm.trans hmeview)] at htv
      rw [htv.1] at hslave
      cases hslave
    have hset := clusterSetMaster_slave hme (h.role _ hmem _ hmeview hslave) hof hy hself
      (hin _ hx) (fun r hr => (h.slaves m hm _ hx r hr).2.1) hn htself
    refine hset.mono (fun _ hslots => ⟨helects, hslots⟩) fun st' hst' => ?_
    obtain ⟨hslots, me', hme', hof'⟩ := hst'
    exact .inl ⟨helects, hslots, me', t, n.view, hme', hof', ht, hv, htv⟩

omit [LinearOrder N] in
theorem Target.orphan {table : List NodeRef} {view : NodeRef → Option (NodeView N)}
    (h : ViewOk view table) {t : NodeRef} (ht : t ∈ table) {n : NodeView N} (hn : view t = some n)
    (htarget : Target view n) : Orphan view n where
  master := h.serving t ht n hn htarget.1 (.inl htarget.2.2.1)
  fail := htarget.2.1
  slots := htarget.2.2.1
  slaves := htarget.2.2.2

omit [LinearOrder N] in
theorem Orphan.target {table : List NodeRef} {view : NodeRef → Option (NodeView N)}
    (h : ViewOk view table) {t : NodeRef} (ht : t ∈ table) {n : NodeView N} (hn : view t = some n)
    (horphan : Orphan view n) : Target view n := by
  refine ⟨Bool.eq_false_iff.mpr fun hslave => ?_, horphan.fail, horphan.slots, horphan.slaves⟩
  have hmaster := h.role t ht n hn hslave
  rw [horphan.master] at hmaster
  cases hmaster

/-! ### What a migration should be -/

/-- This node got another master. -/
def Reparented (st st' : ClusterState N) : Prop :=
  ∃ me me', st.heap st.myself = some me ∧ st'.heap st.myself = some me' ∧ me'.slaveof ≠ me.slaveof

/-- The old master keeps enough working slaves, and the new one is working, serves slots and had no
working slave. -/
structure SoundMove (st st' : ClusterState N) (barrier : ℤ) : Prop where
  left : ∃ me m n, st.view st.myself = some me ∧ me.slaveof = some m ∧ st.view m = some n ∧
    barrier ≤ okSlaves st.view { n with slaves := n.slaves.filter (· ≠ st.myself) }
  joined : ∃ me' t n, st'.heap st.myself = some me' ∧ me'.slaveof = some t ∧ t ∈ st.refs ∧
    st.view t = some n ∧ Orphan st.view n

omit [LinearOrder N] in
theorem okSlaves_filter {view : NodeRef → Option (NodeView N)} {n : NodeView N}
    (hnodup : n.slaves.Nodup) (r : NodeRef) :
    okSlaves view n ≤ okSlaves view { n with slaves := n.slaves.filter (· ≠ r) } + 1 := by
  have hsplit := List.countP_eq_countP_filter_add n.slaves (fun s => (view s).any fun x => !x.fail)
    fun s => decide (s ≠ r)
  have hone : (n.slaves.filter fun s => !decide (s ≠ r)).countP
      (fun s => (view s).any fun x => !x.fail) ≤ 1 := by
    refine List.countP_le_length.trans ?_
    rw [← List.countP_eq_length_filter]
    refine le_trans (le_of_eq ?_) (List.nodup_iff_count_le_one.mp hnodup r)
    rw [List.count]
    exact List.countP_congr fun s _ => by simp
  unfold okSlaves
  dsimp only
  omega

theorem sound_of_reparented (h : ViewOk st.view st.refs) (hmem : st.myself ∈ st.refs) {ok : Bool}
    {barrier : ℤ} {k : ℕ} {st' : ClusterState N}
    (hst' : clusterHandleSlaveMigration st ok barrier k = .ok st') (hmoved : Reparented st st') :
    SoundMove st st' barrier := by
  obtain ⟨me, me', hme, hme', hne⟩ := hmoved
  have hmeview : st.view st.myself = some me.view := view_eq_some.mpr ⟨me, hme, rfl⟩
  obtain ⟨helects, -, x, t, n, hx, hof, ht, hn, htarget⟩ | ⟨-, hsame⟩ :=
    (clusterHandleSlaveMigration_spec h hmem hme ok barrier k).of_eq_ok hst'
  · obtain ⟨m, y, hm, hy, hlt⟩ := helects.above
    refine ⟨⟨me.view, m, y, hmeview, hm, hy, ?_⟩,
      ⟨x, t, n, hx, hof, ht, hn, htarget.orphan h ht hn⟩⟩
    obtain ⟨-, hmmem, -, -⟩ := h.slaveof _ hmem _ hmeview m hm
    have hreach : reachableSlaves st.view y ≤ okSlaves st.view y := by
      refine List.countP_mono_left fun s _ hs => ?_
      rw [Option.any_eq_true] at hs ⊢
      exact hs.imp fun z hz => ⟨hz.1, (Bool.and_eq_true _ _ ▸ hz.2).1⟩
    have hfilter : okSlaves st.view y ≤
        okSlaves st.view { y with slaves := y.slaves.filter (· ≠ st.myself) } + 1 :=
      okSlaves_filter (h.nodup m hmmem y hy) st.myself
    omega
  · rw [hsame, hme] at hme'
    rw [Option.some_inj.mp hme'] at hne
    exact absurd rfl hne

/-! ### When exactly one slave migrates -/

/-- The step of `clusterCron` gives this node another master. -/
def Migrates (st : ClusterState N) (barrier : ℤ) : Prop :=
  ∃ st', clusterCronMigration st true barrier = .ok st' ∧ Reparented st st'

/-- No node is timed out, a master is an orphan, and the greatest number of working slaves is at
least two and above the barrier. -/
structure Contested (st : ClusterState N) (barrier : ℤ) : Prop where
  reachable : ∀ r ∈ st.refs, ∀ n, st.view r = some n → n.pfail = false
  orphan : ∃ r ∈ st.refs, ∃ n, st.view r = some n ∧ Orphan st.view n
  two : 2 ≤ maxSlaves st.view st.refs
  barrier : barrier < maxSlaves st.view st.refs

omit [LinearOrder N] in
theorem reachableSlaves_eq (h : ViewOk st.view st.refs)
    (hreachable : ∀ r ∈ st.refs, ∀ n, st.view r = some n → n.pfail = false) {r : NodeRef}
    (hr : r ∈ st.refs) {n : NodeView N} (hn : st.view r = some n) :
    reachableSlaves st.view n = okSlaves st.view n := by
  refine List.countP_congr fun s hs => ?_
  have hmem : s ∈ st.refs := (h.slaves r hr n hn s hs).1
  obtain ⟨v, hv⟩ := h.present s hmem
  rw [hv, Option.any_some, Option.any_some, hreachable s hmem v hv, Bool.not_false, Bool.and_true]

/-- A slave migrates if it has the smallest name among the slaves of the masters with most working
slaves, its own master is one that `clusterCron` counts, as is an orphan, and it serves no slots. -/
theorem migrates_iff (h : ViewOk st.view st.refs) (hplaced : Placed st) {barrier : ℤ}
    (hcontested : Contested st barrier) {me : NodeView N} (hme : st.view st.myself = some me)
    (hslave : me.slave = true) :
    Migrates st barrier ↔
      (∃ r ∈ st.refs, ∃ n, st.view r = some n ∧ n.addressed = true ∧ Orphan st.view n) ∧
      (∃ m, me.slaveof = some m ∧ okCount st.view m = maxSlaves st.view st.refs) ∧
      (∀ s, RichSlave st.view st.refs (maxSlaves st.view st.refs) s →
        NameLe st.view st.myself s) ∧ me.numslots = 0 := by
  obtain ⟨x, hx, rfl⟩ := view_eq_some.mp hme
  obtain ⟨c, hc, hcounted⟩ := (clusterCronCounts_spec h hplaced hx hslave).returns
  have hspec := clusterHandleSlaveMigration_spec h hplaced.mem hx true barrier c.maxSlaves
  have hthis : ∀ m, x.slaveof = some m → c.thisSlaves = okCount st.view m := by
    intro m hm
    obtain ⟨-, hmem, -⟩ := h.slaveof _ hplaced.mem _ hme m hm
    rw [hcounted.this m hm, if_pos hmem]
  have hcron : clusterCronMigration st true barrier =
      if x.flags.slave ∧ c.orphanedMasters ≠ 0 ∧ c.maxSlaves ≥ 2 ∧ c.thisSlaves = c.maxSlaves then
        clusterHandleSlaveMigration st true barrier c.maxSlaves
      else .ok st := by
    rw [clusterCronMigration, node_eq_ok hx, ok_bind, hc, ok_bind]
  rw [Migrates, hcron]
  rw [hcounted.max] at hspec ⊢
  constructor
  · rintro ⟨st', hst', y, y', hy, hy', hne⟩
    obtain rfl := Option.some_inj.mp (hx.symm.trans hy)
    split at hst'
    · rename_i hcond
      obtain ⟨helects, hslots, -⟩ | ⟨-, hsame⟩ := hspec.of_eq_ok hst'
      · obtain ⟨m, n, hm, -⟩ := helects.above
        exact ⟨hcounted.orphaned.mp hcond.2.1, ⟨m, hm, (hthis m hm).symm.trans hcond.2.2.2⟩,
          helects.least, hslots⟩
      · rw [hsame, hx] at hy'
        exact absurd (by rw [Option.some_inj.mp hy']) hne
    · obtain rfl := Except.ok.inj hst'
      rw [hx] at hy'
      exact absurd (by rw [Option.some_inj.mp hy']) hne
  · rintro ⟨horphan, ⟨m, hm, hcount⟩, hleast, hslots⟩
    have htwo := hcontested.two
    have hbarrier := hcontested.barrier
    have hpos : 0 < okCount st.view m := by omega
    obtain ⟨n, hn, -, -, -, hok⟩ := okCount_of_pos hpos
    obtain ⟨-, hmem, -⟩ := h.slaveof _ hplaced.mem _ hme m hm
    have helects : Elects st x true barrier (maxSlaves st.view st.refs) := by
      refine ⟨rfl, ⟨m, n, hm, hn, ?_⟩, ?_, hleast⟩
      · rw [reachableSlaves_eq h hcontested.reachable hmem hn, hok, hcount]
        exact hbarrier
      · obtain ⟨t, ht, y, hy, -, horphan⟩ := horphan
        exact ⟨t, ht, y, hy, horphan.target h ht hy⟩
    rw [if_pos ⟨hslave, hcounted.orphaned.mpr horphan, htwo, (hthis m hm).trans hcount⟩]
    cases hresult : clusterHandleSlaveMigration st true barrier (maxSlaves st.view st.refs) with
    | error fault => exact absurd hslots (hspec.of_eq_error hresult).2
    | ok st' =>
      refine ⟨st', rfl, ?_⟩
      obtain ⟨-, -, y, t, z, hy, hof, -, hz, htarget⟩ | ⟨hnot, -⟩ := hspec.of_eq_ok hresult
      · refine ⟨x, y, hx, hy, ?_⟩
        rw [hof, show x.slaveof = some m from hm]
        rintro heq
        rw [Option.some_inj.mp heq, hn] at hz
        have hzero := htarget.2.2.2
        rw [← Option.some_inj.mp hz] at hzero
        omega
      · exact absurd helects hnot

/-- A working slave. -/
def WorkingSlave (st : ClusterState N) (r : NodeRef) : Prop :=
  r ∈ st.refs ∧ ∃ n, st.view r = some n ∧ n.slave = true ∧ n.fail = false

/-- What a node holds that has the same view as another one. -/
structure SeenBy (st : ClusterState N) (r : NodeRef) (st' : ClusterState N) : Prop where
  myself : st'.myself = r
  flag : ∀ q n, st'.heap q = some n → n.flags.myself = true → q = r
  nodes : st'.nodes.Perm st.nodes
  view : st'.view = st.view

omit [LinearOrder N] in
theorem SeenBy.mem_refs {st' : ClusterState N} {r : NodeRef} (h : SeenBy st r st') (q : NodeRef) :
    q ∈ st'.refs ↔ q ∈ st.refs :=
  (h.nodes.map Prod.snd).mem_iff

omit [LinearOrder N] in
theorem ViewOk.congr {view : NodeRef → Option (NodeView N)} {table table' : List NodeRef}
    (h : ViewOk view table) (hmem : ∀ r, r ∈ table' ↔ r ∈ table) : ViewOk view table' where
  present r hr := h.present r ((hmem r).mp hr)
  names r hr q hq := h.names r ((hmem r).mp hr) q ((hmem q).mp hq)
  role r hr := h.role r ((hmem r).mp hr)
  serving r hr := h.serving r ((hmem r).mp hr)
  nodup r hr := h.nodup r ((hmem r).mp hr)
  slaves r hr n hn s hs := (h.slaves r ((hmem r).mp hr) n hn s hs).imp_left (hmem s).mpr
  slaveof r hr n hn m hm := (h.slaveof r ((hmem r).mp hr) n hn m hm).imp_right
    fun hrest => hrest.imp_left (hmem m).mpr

omit [LinearOrder N] in
theorem richSlave_congr {view : NodeRef → Option (NodeView N)} {table table' : List NodeRef}
    (hmem : ∀ r, r ∈ table' ↔ r ∈ table) {k : ℕ} {s : NodeRef} :
    RichSlave view table' k s ↔ RichSlave view table k s :=
  exists_congr fun r => and_congr_left' (hmem r)

theorem exists_least (h : ViewOk st.view st.refs) {k : ℕ} {r : NodeRef}
    (hr : RichSlave st.view st.refs k r) : ∃ c, RichSlave st.view st.refs k c ∧
      ∀ s, RichSlave st.view st.refs k s → NameLe st.view c s := by
  obtain ⟨acc, -, hacc⟩ := (considerNodes_spec h (hr.mem h) k).returns
  refine ⟨acc.2, ?_, hacc.least⟩
  obtain heq | hrich := hacc.candidate
  · exact heq ▸ hr
  · exact hrich

/-- `clusterCron` counts an orphan; and the slave with the smallest name, among all slaves of the
masters with most working slaves, is working and serves no slots, and `clusterCron` counts its
master. -/
structure CandidateOk (st : ClusterState N) : Prop where
  orphan : ∃ r ∈ st.refs, ∃ n, st.view r = some n ∧ n.addressed = true ∧ Orphan st.view n
  slave : ∀ c, RichSlave st.view st.refs (maxSlaves st.view st.refs) c →
    (∀ s, RichSlave st.view st.refs (maxSlaves st.view st.refs) s → NameLe st.view c s) →
      ∃ n, st.view c = some n ∧ n.fail = false ∧ n.numslots = 0 ∧
        ∃ m x, n.slaveof = some m ∧ st.view m = some x ∧ x.addressed = true

omit [LinearOrder N] in
theorem richSlave_of_okCount (h : ViewOk st.view st.refs) {r m : NodeRef} {n : NodeView N}
    (hr : r ∈ st.refs) (hn : st.view r = some n) (hof : n.slaveof = some m)
    (hcount : okCount st.view m = maxSlaves st.view st.refs)
    (hmax : 0 < maxSlaves st.view st.refs) :
    RichSlave st.view st.refs (maxSlaves st.view st.refs) r ∧
      ∃ x, st.view m = some x ∧ x.addressed = true := by
  obtain ⟨-, hm, -, hin⟩ := h.slaveof r hr n hn m hof
  obtain ⟨x, hx, hmaster, hfail, haddressed, hok⟩ := okCount_of_pos (hcount ▸ hmax)
  have hslave : x.slave = false := Bool.eq_false_iff.mpr fun hslave => by
    rw [h.role m hm x hx hslave] at hmaster
    cases hmaster
  exact ⟨⟨m, hm, x, hx, hslave, hfail, hok.trans hcount, hin x hx⟩, x, hx, haddressed⟩

theorem existsUnique_migrates_iff (h : ViewOk st.view st.refs) {barrier : ℤ}
    (hcontested : Contested st barrier) {views : NodeRef → ClusterState N}
    (hviews : ∀ r, WorkingSlave st r → SeenBy st r (views r)) :
    (∃! r, WorkingSlave st r ∧ Migrates (views r) barrier) ↔ CandidateOk st := by
  have hpos : 0 < maxSlaves st.view st.refs := lt_of_lt_of_le Nat.zero_lt_two hcontested.two
  -- When a working slave migrates, in terms of the view that all share.
  have hiff : ∀ r n, WorkingSlave st r → st.view r = some n → (Migrates (views r) barrier ↔
      (∃ q ∈ st.refs, ∃ x, st.view q = some x ∧ x.addressed = true ∧ Orphan st.view x) ∧
      (∃ m, n.slaveof = some m ∧ okCount st.view m = maxSlaves st.view st.refs) ∧
      (∀ s, RichSlave st.view st.refs (maxSlaves st.view st.refs) s → NameLe st.view r s) ∧
      n.numslots = 0) := by
    intro r n hr hn
    have hseen := hviews r hr
    have hmem := hseen.mem_refs
    have hmax : maxSlaves st.view (views r).refs = maxSlaves st.view st.refs :=
      maxSlaves_congr hmem
    obtain ⟨hr, y, hy, hslave, -⟩ := hr
    obtain rfl := Option.some_inj.mp (hn.symm.trans hy)
    have hok : ViewOk (views r).view (views r).refs := by
      rw [hseen.view]
      exact h.congr hmem
    have hplaced : Placed (views r) := by
      refine ⟨?_, fun q x hx hflag => ?_⟩
      · rw [hseen.myself]
        exact (hmem r).mpr hr
      · rw [hseen.myself]
        exact hseen.flag q x hx hflag
    have hcontested' : Contested (views r) barrier := by
      obtain ⟨hreachable, ⟨q, hq, x, hx, horphan⟩, htwo, hbarrier⟩ := hcontested
      refine ⟨fun q hq x hx => ?_, ⟨q, (hmem q).mpr hq, x, ?_⟩, ?_, ?_⟩
      · rw [hseen.view] at hx
        exact hreachable q ((hmem q).mp hq) x hx
      · rw [hseen.view]
        exact ⟨hx, horphan⟩
      · rwa [hseen.view, hmax]
      · rwa [hseen.view, hmax]
    have hme : (views r).view (views r).myself = some n := by
      rw [hseen.myself, hseen.view]
      exact hn
    have hrefs : (∃ q ∈ (views r).refs, ∃ x, st.view q = some x ∧ x.addressed = true ∧
        Orphan st.view x) ↔
        ∃ q ∈ st.refs, ∃ x, st.view q = some x ∧ x.addressed = true ∧ Orphan st.view x :=
      exists_congr fun q => and_congr_left' (hmem q)
    rw [migrates_iff hok hplaced hcontested' hme hslave, hseen.view, hseen.myself, hmax, hrefs]
    simp only [richSlave_congr hmem]
  constructor
  · rintro ⟨r, ⟨hr, hmigrates⟩, -⟩
    obtain ⟨hrefs, n, hn, -, hfail⟩ := id hr
    obtain ⟨horphan, ⟨m, hof, hcount⟩, hleast, hslots⟩ := (hiff r n hr hn).mp hmigrates
    obtain ⟨hrich, x, hx, haddressed⟩ := richSlave_of_okCount h hrefs hn hof hcount hpos
    refine ⟨horphan, fun c hc hcleast => ?_⟩
    obtain rfl := NameLe.antisymm h (hc.mem h) hrefs (hcleast r hrich) (hleast c hc)
    exact ⟨n, hn, hfail, hslots, m, x, hof, hx, haddressed⟩
  · rintro ⟨horphan, hslave⟩
    obtain ⟨m, hm, hcount⟩ := exists_okCount_eq_maxSlaves hpos
    obtain ⟨x, hx, hmaster, hfail, -, hok⟩ := okCount_of_pos (hcount ▸ hpos)
    have hnotslave : x.slave = false := Bool.eq_false_iff.mpr fun hxslave => by
      rw [h.role m hm x hx hxslave] at hmaster
      cases hmaster
    obtain ⟨s, hs, -⟩ := List.countP_pos_iff.mp (show 0 < okSlaves st.view x by omega)
    obtain ⟨c, hc, hleast⟩ :=
      exists_least h ⟨m, hm, x, hx, hnotslave, hfail, hok.trans hcount, hs⟩
    obtain ⟨n, hn, hnfail, hslots, m', y, hof, hy, haddressed⟩ := hslave c hc hleast
    -- The master of the candidate is one with most working slaves.
    obtain ⟨q, hq, z, hz, hzslave, hzfail, hzok, hin⟩ := id hc
    obtain ⟨-, -, hzof⟩ := h.slaves q hq z hz c hin
    obtain ⟨hcslave, hcof⟩ := hzof n hn
    obtain rfl := Option.some_inj.mp (hof.symm.trans hcof)
    obtain rfl := Option.some_inj.mp (hy.symm.trans hz)
    have hworking : WorkingSlave st c := ⟨hc.mem h, n, hn, hcslave, hnfail⟩
    have hymaster : y.master = true :=
      h.serving m' hq y hz hzslave (.inr (List.ne_nil_of_mem hin))
    have hycount : okCount st.view m' = maxSlaves st.view st.refs := by
      unfold okCount
      rw [hy]
      dsimp only
      rw [hymaster, hzfail, haddressed]
      exact hzok
    refine ⟨c, ⟨hworking, (hiff c n hworking hn).mpr
      ⟨horphan, ⟨m', hof, hycount⟩, hleast, hslots⟩⟩, ?_⟩
    rintro d ⟨hd, hdmigrates⟩
    obtain ⟨hdrefs, k, hk, -⟩ := id hd
    obtain ⟨-, ⟨l, hl, hlcount⟩, hdleast, -⟩ := (hiff d k hd hk).mp hdmigrates
    obtain ⟨hdrich, -⟩ := richSlave_of_okCount h hdrefs hk hl hlcount hpos
    exact NameLe.antisymm h hdrefs (hc.mem h) (hdleast c hc) (hleast d hdrich)

/-- What the migration step should do: a migration is sound, and when there is reason for one
exactly one of the working slaves, with their views, migrates. -/
structure MigrationRight (st : ClusterState N) (views : NodeRef → ClusterState N) (barrier : ℤ) :
    Prop where
  sound : ∀ ok counts st', clusterCronCounts st = .ok counts →
    clusterHandleSlaveMigration st ok barrier counts.maxSlaves = .ok st' → Reparented st st' →
      SoundMove st st' barrier
  one : Contested st barrier → ∃! r, WorkingSlave st r ∧ Migrates (views r) barrier

/-- The migration step is right if and only if, when there is reason for a migration, the slave with
the smallest name is one that can migrate. -/
theorem migrationRight_iff (st : ClusterState N) (barrier : ℤ) (views : NodeRef → ClusterState N)
    (h : ViewOk st.view st.refs) (hplaced : Placed st)
    (hviews : ∀ r, WorkingSlave st r → SeenBy st r (views r)) :
    MigrationRight st views barrier ↔ (Contested st barrier → CandidateOk st) := by
  constructor
  · rintro ⟨-, hone⟩ hcontested
    exact (existsUnique_migrates_iff h hcontested hviews).mp (hone hcontested)
  · intro hcandidate
    exact ⟨fun ok counts st' _ hst' hmoved => sound_of_reparented h hplaced.mem hst' hmoved,
      fun hcontested => (existsUnique_migrates_iff h hcontested hviews).mpr (hcandidate hcontested)⟩

end

/-! ### A small cluster -/

/-- Nodes 1 and 2 are masters, and 3, 4 and 5 slaves of 2; 3 may have failed. -/
def smallNode (failed : Bool) (me r : NodeRef) : ClusterNode ℕ :=
  { createClusterNode 0 r { NodeFlags.none with
      master := decide (r ≤ 2)
      slave := decide (2 < r)
      fail := failed && decide (r = 3)
      myself := decide (r = me) } with
    numslots := if r ≤ 2 then 5 else 0
    slaves := if r = 2 then [3, 4, 5] else []
    slaveof := if r ≤ 2 then none else some 2 }

/-- The cluster as the node `me` sees it. -/
def smallCluster (failed : Bool) (me : NodeRef) : ClusterState ℕ :=
  { clusterInit 1 with
    myself := me
    heap := fun r => if r ∈ [1, 2, 3, 4, 5] then some (smallNode failed me r) else none
    nodes := [(1, 1), (2, 2), (3, 3), (4, 4), (5, 5)] }

theorem view_smallCluster (failed : Bool) (me me' : NodeRef) :
    (smallCluster failed me).view = (smallCluster failed me').view := by
  funext r
  by_cases hr : r ∈ [1, 2, 3, 4, 5]
  · simp only [view, smallCluster, if_pos hr, Option.map_some]
    rfl
  · simp only [view, smallCluster, if_neg hr, Option.map_none]

theorem view_smallCluster_eq_some {failed : Bool} {me r : NodeRef} {n : NodeView ℕ}
    (h : (smallCluster failed me).view r = some n) :
    r ∈ [1, 2, 3, 4, 5] ∧ n = (smallNode failed me r).view := by
  by_cases hr : r ∈ [1, 2, 3, 4, 5]
  · simp only [view, smallCluster, if_pos hr, Option.map_some] at h
    exact ⟨hr, (Option.some_inj.mp h).symm⟩
  · simp only [view, smallCluster, if_neg hr, Option.map_none] at h
    cases h

theorem view_smallCluster_of_mem (failed : Bool) (me : NodeRef) {r : NodeRef}
    (hr : r ∈ [1, 2, 3, 4, 5]) :
    (smallCluster failed me).view r = some (smallNode failed me r).view := by
  simp only [view, smallCluster, if_pos hr, Option.map_some]

theorem viewOk_smallCluster (failed : Bool) (me : NodeRef) :
    ViewOk (smallCluster failed me).view (smallCluster failed me).refs where
  present r hr := ⟨_, view_smallCluster_of_mem failed me hr⟩
  names r _ q _ n m hn hm hname := by
    obtain ⟨-, rfl⟩ := view_smallCluster_eq_some hn
    obtain ⟨-, rfl⟩ := view_smallCluster_eq_some hm
    exact hname
  role r _ n hn hslave := by
    obtain ⟨-, rfl⟩ := view_smallCluster_eq_some hn
    exact decide_eq_false (Nat.not_le.mpr (of_decide_eq_true hslave))
  serving r _ n hn hslave _ := by
    obtain ⟨-, rfl⟩ := view_smallCluster_eq_some hn
    exact decide_eq_true (Nat.not_lt.mp (of_decide_eq_false hslave))
  nodup r _ n hn := by
    obtain ⟨-, rfl⟩ := view_smallCluster_eq_some hn
    show (if r = 2 then [3, 4, 5] else []).Nodup
    split <;> decide
  slaves r _ n hn s hs := by
    obtain ⟨-, rfl⟩ := view_smallCluster_eq_some hn
    change s ∈ (if r = 2 then [3, 4, 5] else []) at hs
    split at hs
    · rename_i htwo
      have hrange : s ∈ [1, 2, 3, 4, 5] ∧ 2 < s ∧ s < 2 ^ 64 :=
        (by decide : ∀ s ∈ [3, 4, 5], s ∈ [1, 2, 3, 4, 5] ∧ 2 < s ∧ s < 2 ^ 64) s hs
      refine ⟨hrange.1, hrange.2.2, fun v hv => ?_⟩
      obtain ⟨-, rfl⟩ := view_smallCluster_eq_some hv
      refine ⟨decide_eq_true hrange.2.1, ?_⟩
      rw [htwo]
      exact if_neg (Nat.not_le.mpr hrange.2.1)
    · exact absurd hs List.not_mem_nil
  slaveof r _ n hn m hm := by
    obtain ⟨hr, rfl⟩ := view_smallCluster_eq_some hn
    change (if r ≤ 2 then none else some 2) = some m at hm
    split at hm
    · cases hm
    · rename_i hlt
      obtain rfl := Option.some_inj.mp hm
      refine ⟨decide_eq_true (Nat.not_le.mp hlt), (by decide : 2 ∈ [1, 2, 3, 4, 5]), ?_, ?_⟩
      · exact fun heq => hlt (le_of_eq heq.symm)
      · intro v hv
        obtain ⟨-, rfl⟩ := view_smallCluster_eq_some hv
        exact (by decide : ∀ r ∈ [1, 2, 3, 4, 5], ¬r ≤ 2 → r ∈ [3, 4, 5]) r hr hlt

theorem flag_smallCluster {failed : Bool} {me q : NodeRef} {n : ClusterNode ℕ}
    (hn : (smallCluster failed me).heap q = some n) (hflag : n.flags.myself = true) : q = me := by
  change (if q ∈ [1, 2, 3, 4, 5] then some (smallNode failed me q) else none) = some n at hn
  split at hn
  · obtain rfl := Option.some_inj.mp hn
    exact of_decide_eq_true hflag
  · cases hn

theorem placed_smallCluster (failed : Bool) : Placed (smallCluster failed 3) where
  mem := (by decide : 3 ∈ [1, 2, 3, 4, 5])
  flag _ _ hn hflag := flag_smallCluster hn hflag

theorem seenBy_smallCluster (failed : Bool) (r : NodeRef) :
    SeenBy (smallCluster failed 3) r (smallCluster failed r) where
  myself := rfl
  flag _ _ hn hflag := flag_smallCluster hn hflag
  nodes := List.Perm.refl _
  view := view_smallCluster failed r 3

/-- Slave 3 migrates. -/
theorem migrationRight_smallCluster :
    MigrationRight (smallCluster false 3) (smallCluster false) 1 := by
  refine (migrationRight_iff (smallCluster false 3) 1 (smallCluster false)
    (viewOk_smallCluster false 3) (placed_smallCluster false)
    fun r _ => seenBy_smallCluster false r).mpr fun _ => ⟨?_, fun c hc _ => ?_⟩
  · exact ⟨1, by decide, _, view_smallCluster_of_mem false 3 (by decide), rfl,
      ⟨rfl, rfl, by decide, by decide⟩⟩
  · obtain ⟨r, -, n, hn, -, -, -, hs⟩ := hc
    obtain ⟨-, rfl⟩ := view_smallCluster_eq_some hn
    change c ∈ (if r = 2 then [3, 4, 5] else []) at hs
    split at hs
    · have hrange : c ∈ [1, 2, 3, 4, 5] ∧ ¬c ≤ 2 :=
        (by decide : ∀ c ∈ [3, 4, 5], c ∈ [1, 2, 3, 4, 5] ∧ ¬c ≤ 2) c hs
      exact ⟨_, view_smallCluster_of_mem false 3 hrange.1, rfl, if_neg hrange.2, 2, _,
        if_neg hrange.2, view_smallCluster_of_mem false 3 (by decide), rfl⟩
    · exact absurd hs List.not_mem_nil

theorem contested_smallCluster : Contested (smallCluster true 3) 1 where
  reachable r _ n hn := by
    obtain ⟨-, rfl⟩ := view_smallCluster_eq_some hn
    rfl
  orphan := ⟨1, by decide, _, view_smallCluster_of_mem true 3 (by decide),
    ⟨rfl, rfl, by decide, by decide⟩⟩
  two := by decide
  barrier := by decide

/-- Slave 3 has failed, and it is the candidate: not one of the working slaves 4 and 5 migrates. -/
theorem not_migrationRight_smallCluster :
    ViewOk (smallCluster true 3).view (smallCluster true 3).refs ∧ Placed (smallCluster true 3) ∧
      (∀ r, SeenBy (smallCluster true 3) r (smallCluster true r)) ∧
      Contested (smallCluster true 3) 1 ∧
      ¬MigrationRight (smallCluster true 3) (smallCluster true) 1 := by
  have hview := viewOk_smallCluster true 3
  refine ⟨hview, placed_smallCluster true, seenBy_smallCluster true, contested_smallCluster,
    fun hright => ?_⟩
  have hcandidate := (existsUnique_migrates_iff hview contested_smallCluster fun r _ =>
    seenBy_smallCluster true r).mp (hright.one contested_smallCluster)
  have hrich : RichSlave (smallCluster true 3).view (smallCluster true 3).refs
      (maxSlaves (smallCluster true 3).view (smallCluster true 3).refs) 3 :=
    ⟨2, by decide, _, view_smallCluster_of_mem true 3 (by decide), rfl, rfl, by decide, by decide⟩
  obtain ⟨n, hn, hfail, -⟩ := hcandidate.slave 3 hrich fun s hs n m hn hm => by
    obtain ⟨-, rfl⟩ := view_smallCluster_eq_some hn
    obtain ⟨hs', rfl⟩ := view_smallCluster_eq_some hm
    obtain ⟨r, hr, x, hx, -, -, -, hin⟩ := hs
    have hslave : decide (2 < s) = true := ((hview.slaves r hr x hx s hin).2.2 _ hm).1
    exact of_decide_eq_true hslave
  obtain ⟨-, rfl⟩ := view_smallCluster_eq_some hn
  cases hfail

end ClusterState

/-
The slave that a failover promotes: `compareSlavesForPromotion` and `sentinelSelectSlave`.

* `Better` — the order in which slaves are preferred;
* `best_slave` — when the comparison is an order for `qsort`, and the slave is one of the best.

The clock is read once.
-/
import RedisModel.CommandArguments
import RedisModel.Comparators
import Mathlib.Data.List.Lex
import Mathlib.Data.List.TakeWhile
import Mathlib.Order.WithBot

open ByteBuffer Comparators RedisCommands

namespace SentinelSelection

/-! ### The code -/

/-- What is read of a `sentinelRedisInstance` for a slave. -/
structure Slave where
  sDown : Bool
  oDown : Bool
  disconnected : Bool
  lastAvailTime : ℤ
  infoRefresh : ℤ
  masterLinkDownTime : ℤ
  slavePriority : BitVec 32
  slaveReplOffset : ℕ
  runid : Option Bytes
  deriving DecidableEq

/-- What is read of a `sentinelRedisInstance` for a master. -/
structure Master where
  sDown : Bool
  sDownSinceTime : ℤ
  downAfterPeriod : ℤ

/-- `SENTINEL_PING_PERIOD` and `SENTINEL_INFO_PERIOD`. -/
def pingPeriod : ℤ := 1000
def infoPeriod : ℤ := 10000

/-- The bytes that `strcasecmp` compares. -/
def folded (s : Bytes) : List ℕ := (cString s).map fun c => (tolower c).toNat

/-- The loop of `strcasecmp`; at the end of a string it reads 0. -/
def compareFolded : List ℕ → List ℕ → ℤ
  | [], [] => 0
  | [], b :: _ => 0 - b
  | a :: _, [] => a
  | a :: s, b :: t => if a = b then compareFolded s t else a - b

def strcasecmp (a b : Bytes) : ℤ := compareFolded (folded a) (folded b)

/-- `compareSlavesForPromotion`; the priorities are of type `int`, and so is their difference. -/
def compareSlavesForPromotion (a b : Slave) : ℤ :=
  if a.slavePriority ≠ b.slavePriority then (a.slavePriority - b.slavePriority).toInt
  else if a.slaveReplOffset > b.slaveReplOffset then -1
  else if a.slaveReplOffset < b.slaveReplOffset then 1
  else
    match a.runid, b.runid with
    | none, none => 0
    | none, some _ => 1
    | some _, none => -1
    | some s, some t => strcasecmp s t

def maxMasterDownTime (master : Master) (now : ℤ) : ℤ :=
  (if master.sDown then now - master.sDownSinceTime else 0) + master.downAfterPeriod * 10

def infoValidityTime (master : Master) : ℤ :=
  if master.sDown then pingPeriod * 5 else infoPeriod * 3

/-- The tests of the loop of `sentinelSelectSlave`. -/
def eligible (master : Master) (now : ℤ) (slave : Slave) : Bool :=
  if slave.sDown ∨ slave.oDown ∨ slave.disconnected then false
  else if now - slave.lastAvailTime > pingPeriod * 5 then false
  else if slave.slavePriority = 0 then false
  else if now - slave.infoRefresh > infoValidityTime master then false
  else if slave.masterLinkDownTime > maxMasterDownTime master now then false
  else true

/-- `sentinelSelectSlave`; `slaves` are in the order of the table. -/
def sentinelSelectSlave (q : Qsort Slave) (master : Master) (slaves : List Slave) (now : ℤ) :
    Option Slave :=
  let suitable := slaves.filter (eligible master now)
  if suitable.length = 0 then none else (q.sort compareSlavesForPromotion suitable).head?

/-! ### The best slave -/

/-- A missing run ID comes last. -/
def RunidBefore : Option Bytes → Option Bytes → Prop
  | some s, some t => folded s < folded t
  | some _, none => True
  | none, _ => False

/-- The smaller priority number, then the larger replication offset, then the smaller run ID. -/
def Better (a b : Slave) : Prop :=
  a.slavePriority.toInt < b.slavePriority.toInt ∨ a.slavePriority = b.slavePriority ∧
    (a.slaveReplOffset > b.slaveReplOffset ∨ a.slaveReplOffset = b.slaveReplOffset ∧
      RunidBefore a.runid b.runid)

/-- The comparison is an order for `qsort`.  In whatever order the slaves are in the table: there is
no slave if none is eligible, and otherwise an eligible one than which no eligible one is better. -/
structure SelectsBest (q : Qsort Slave) (master : Master) (slaves : List Slave) (now : ℤ) :
    Prop where
  order : Consistent compareSlavesForPromotion slaves
  null : ∀ slaves', slaves'.Perm slaves → (sentinelSelectSlave q master slaves' now = none ↔
    ∀ s ∈ slaves, eligible master now s = false)
  best : ∀ slaves', slaves'.Perm slaves → ∀ s, sentinelSelectSlave q master slaves' now = some s →
    s ∈ slaves ∧ eligible master now s = true ∧
      ∀ e ∈ slaves, eligible master now e = true → ¬ Better e s

/-- The priorities are in less than half of the circle of the 32-bit numbers, and those of eligible
slaves do not lie around its end. -/
structure PrioritiesOk (master : Master) (slaves : List Slave) (now : ℤ) : Prop where
  half : ∃ p : BitVec 32, ∀ s ∈ slaves, (s.slavePriority - p).toNat < 2 ^ 31
  close : ∀ a ∈ slaves, ∀ b ∈ slaves, eligible master now a = true → eligible master now b = true →
    a.slavePriority.toInt - b.slavePriority.toInt < 2 ^ 31

/-! ### Keys -/

def priorityCmp (a b : Slave) : ℤ :=
  if a.slavePriority ≠ b.slavePriority then (a.slavePriority - b.slavePriority).toInt else 0

def offsetCmp (a b : Slave) : ℤ :=
  if a.slaveReplOffset > b.slaveReplOffset then -1
  else if a.slaveReplOffset < b.slaveReplOffset then 1 else 0

def runidCmp (a b : Slave) : ℤ :=
  match a.runid, b.runid with
  | none, none => 0
  | none, some _ => 1
  | some _, none => -1
  | some s, some t => strcasecmp s t

theorem sub_toInt_ne_zero {a b : BitVec 32} (h : a ≠ b) : (a - b).toInt ≠ 0 := by
  intro hzero
  have hsub : a - b = 0 := BitVec.eq_of_toInt_eq (hzero.trans rfl)
  exact h (by bv_omega)

/-- The comparison of slaves with the same priority. -/
def restCmp (a b : Slave) : ℤ := if offsetCmp a b ≠ 0 then offsetCmp a b else runidCmp a b

theorem compareSlavesForPromotion_eq (a b : Slave) : compareSlavesForPromotion a b =
    if priorityCmp a b ≠ 0 then priorityCmp a b else restCmp a b := by
  unfold compareSlavesForPromotion priorityCmp
  by_cases hpriority : a.slavePriority = b.slavePriority
  · rw [if_neg (not_not.mpr hpriority), if_neg (not_not.mpr hpriority),
      if_neg (not_not.mpr rfl)]
    unfold restCmp offsetCmp
    split
    · rw [if_pos (by decide)]
    · split
      · rw [if_pos (by decide)]
      · rw [if_neg (by decide)]
        rfl
  · rw [if_pos hpriority, if_pos hpriority, if_pos (sub_toInt_ne_zero hpriority)]

theorem represents_offsetCmp (a b : Slave) :
    Represents offsetCmp (fun s => OrderDual.toDual s.slaveReplOffset) a b := by
  unfold Represents offsetCmp
  rw [OrderDual.toDual_lt_toDual, OrderDual.toDual_inj]
  split
  · rename_i hgt
    exact ⟨iff_of_true (by decide) hgt, iff_of_false (by decide) hgt.ne'⟩
  · rename_i hle
    split
    · rename_i hlt
      exact ⟨iff_of_false (by decide) hle, iff_of_false (by decide) hlt.ne⟩
    · rename_i hge
      exact ⟨iff_of_false (by decide) hle, iff_of_true rfl (by omega)⟩

theorem represents_compareFolded {s t : List ℕ} (hs : ∀ c ∈ s, 0 < c) (ht : ∀ c ∈ t, 0 < c) :
    Represents compareFolded id s t := by
  induction s generalizing t with
  | nil =>
    cases t with
    | nil => exact ⟨iff_of_false (by decide) (lt_irrefl _), iff_of_true rfl rfl⟩
    | cons b t =>
      have hb := ht b List.mem_cons_self
      rw [Represents, compareFolded]
      exact ⟨iff_of_true (by omega) (List.nil_lt_cons b t), iff_of_false (by omega) nofun⟩
  | cons a s ih =>
    cases t with
    | nil =>
      have ha := hs a List.mem_cons_self
      rw [Represents, compareFolded]
      exact ⟨iff_of_false (by omega) (List.not_lt_nil _), iff_of_false (by omega) nofun⟩
    | cons b t =>
      have hrest := ih (fun c hc => hs c (List.mem_cons_of_mem a hc))
        fun c hc => ht c (List.mem_cons_of_mem b hc)
      rw [Represents, compareFolded, id, id, List.cons_lt_cons_iff, List.cons.injEq]
      by_cases hab : a = b
      · rw [if_pos hab, hrest.1, hrest.2]
        exact ⟨⟨fun h => .inr ⟨hab, h⟩, fun h => (h.resolve_left (by omega)).2⟩,
          ⟨fun h => ⟨hab, h⟩, And.right⟩⟩
      · rw [if_neg hab]
        exact ⟨⟨fun h => .inl (by omega), fun h => by
          have := h.resolve_right fun h => hab h.1
          omega⟩, iff_of_false (by omega) fun h => hab h.1⟩

theorem folded_pos (s : Bytes) : ∀ c ∈ folded s, 0 < c := by
  intro c hc
  obtain ⟨x, hx, rfl⟩ := List.mem_map.mp hc
  have hx := List.mem_takeWhile_imp hx
  have hne : x ≠ 0 := of_decide_eq_true hx
  rw [ne_eq, ← UInt8.toNat_inj, UInt8.toNat_zero] at hne
  unfold tolower
  split
  · rename_i hupper
    simp only [UInt8.le_iff_toNat_le, UInt8.reduceToNat] at hupper
    simp only [UInt8.toNat_add, UInt8.reduceToNat]
    omega
  · omega

/-- A missing run ID is the largest key. -/
def runidKey (s : Slave) : WithTop (List ℕ) :=
  match s.runid with
  | none => ⊤
  | some r => (folded r : List ℕ)

theorem represents_runidCmp (a b : Slave) : Represents runidCmp runidKey a b := by
  unfold Represents runidCmp runidKey
  cases a.runid with
  | none =>
    cases b.runid with
    | none => exact ⟨iff_of_false (by decide) (lt_irrefl _), iff_of_true rfl rfl⟩
    | some t =>
      exact ⟨iff_of_false (show ¬ (1 : ℤ) < 0 by decide) not_top_lt,
        iff_of_false (show ¬ (1 : ℤ) = 0 by decide) WithTop.top_ne_coe⟩
  | some s =>
    cases b.runid with
    | none =>
      exact ⟨iff_of_true (show (-1 : ℤ) < 0 by decide) (WithTop.coe_lt_top _),
        iff_of_false (show ¬ (-1 : ℤ) = 0 by decide) WithTop.coe_ne_top⟩
    | some t =>
      have h := represents_compareFolded (folded_pos s) (folded_pos t)
      rw [WithTop.coe_lt_coe, WithTop.coe_inj]
      exact h

/-! ### The order of the code and the order that is meant -/

/-- The priorities counted from `p`, around the circle. -/
def position (p : BitVec 32) (s : Slave) : ℤ := (s.slavePriority - p).toNat

/-- The rest of the comparison. -/
def restKey (s : Slave) : ℕᵒᵈ ×ₗ WithTop (List ℕ) :=
  toLex (OrderDual.toDual s.slaveReplOffset, runidKey s)

theorem represents_compare {rank : Slave → ℤ} {a b : Slave}
    (h : Represents priorityCmp rank a b) :
    Represents compareSlavesForPromotion (fun s => toLex (rank s, restKey s)) a b :=
  h.lex ((represents_offsetCmp a b).lex (represents_runidCmp a b) rfl)
    (compareSlavesForPromotion_eq a b)

theorem represents_of_difference {rank : Slave → ℤ} {a b : Slave}
    (hdiff : (a.slavePriority - b.slavePriority).toInt = rank a - rank b)
    (heq : a.slavePriority = b.slavePriority ↔ rank a = rank b) :
    Represents priorityCmp rank a b := by
  unfold Represents priorityCmp
  by_cases hpriority : a.slavePriority = b.slavePriority
  · have hrank := heq.mp hpriority
    rw [if_neg (not_not.mpr hpriority)]
    exact ⟨iff_of_false (lt_irrefl _) hrank.not_lt, iff_of_true rfl hrank⟩
  · have hrank := mt heq.mpr hpriority
    rw [if_pos hpriority, hdiff]
    exact ⟨by omega, by omega⟩

theorem represents_position {p : BitVec 32} {a b : Slave}
    (ha : (a.slavePriority - p).toNat < 2 ^ 31) (hb : (b.slavePriority - p).toNat < 2 ^ 31) :
    Represents priorityCmp (position p) a b := by
  have hsub : a.slavePriority - b.slavePriority = a.slavePriority - p - (b.slavePriority - p) := by
    bv_omega
  refine represents_of_difference ?_ ?_
  · rw [hsub, BitVec.toInt_sub, BitVec.toInt_eq_toNat_of_lt (by omega),
      BitVec.toInt_eq_toNat_of_lt (by omega)]
    exact Int.bmod_eq_of_le (by omega) (by omega)
  · unfold position
    constructor
    · intro h
      rw [h]
    · intro h
      bv_omega

theorem represents_priority {a b : Slave}
    (hab : a.slavePriority.toInt - b.slavePriority.toInt < 2 ^ 31)
    (hba : b.slavePriority.toInt - a.slavePriority.toInt < 2 ^ 31) :
    Represents priorityCmp (fun s => s.slavePriority.toInt) a b := by
  refine represents_of_difference ?_ ⟨fun h => by rw [h], BitVec.eq_of_toInt_eq⟩
  rw [BitVec.toInt_sub]
  exact Int.bmod_eq_of_le (by omega) (by omega)

theorem runidBefore_iff (a b : Slave) : RunidBefore a.runid b.runid ↔ runidKey a < runidKey b := by
  unfold RunidBefore runidKey
  cases a.runid with
  | none => exact iff_of_false id not_top_lt
  | some s =>
    cases b.runid with
    | none => exact iff_of_true trivial (WithTop.coe_lt_top _)
    | some t => exact WithTop.coe_lt_coe.symm

theorem better_iff (a b : Slave) : Better a b ↔
    toLex (a.slavePriority.toInt, restKey a) < toLex (b.slavePriority.toInt, restKey b) := by
  rw [Better, Prod.Lex.toLex_lt_toLex, restKey, restKey, Prod.Lex.toLex_lt_toLex,
    OrderDual.toDual_lt_toDual, OrderDual.toDual_inj, runidBefore_iff, BitVec.toInt_inj]

/-! ### The choice -/

section
variable {q : Qsort Slave} {master : Master} {slaves : List Slave} {now : ℤ}

theorem consistent_of_half {p : BitVec 32}
    (h : ∀ s ∈ slaves, (s.slavePriority - p).toNat < 2 ^ 31) :
    Consistent compareSlavesForPromotion slaves :=
  consistent_of_represents fun a ha b hb =>
    represents_compare (represents_position (h a ha) (h b hb))

theorem half_of_consistent (h : Consistent compareSlavesForPromotion slaves) :
    ∃ p : BitVec 32, ∀ s ∈ slaves, (s.slavePriority - p).toNat < 2 ^ 31 := by
  by_cases hnil : slaves = []
  · rw [hnil]
    exact ⟨0, nofun⟩
  · obtain ⟨a, ha, hleast⟩ := h.exists_least hnil
    refine ⟨a.slavePriority, fun b hb => ?_⟩
    by_cases hpriority : a.slavePriority = b.slavePriority
    · rw [hpriority, BitVec.sub_self]
      decide
    · have hle := hleast b hb
      have hpos := (h.antisymm a ha b hb).mp
      rw [compareSlavesForPromotion, if_pos hpriority] at hle hpos
      have hne := sub_toInt_ne_zero hpriority
      have hback := hpos (by omega)
      rw [compareSlavesForPromotion, if_pos (Ne.symm hpriority),
        BitVec.toInt_eq_toNat_cond] at hback
      split at hback <;> omega

theorem sentinelSelectSlave_spec (h : Consistent compareSlavesForPromotion slaves) :
    (sentinelSelectSlave q master slaves now = none ↔
      ∀ s ∈ slaves, eligible master now s = false) ∧
    ∀ s, sentinelSelectSlave q master slaves now = some s → s ∈ slaves ∧
      eligible master now s = true ∧
      ∀ e ∈ slaves, eligible master now e = true → compareSlavesForPromotion s e ≤ 0 := by
  have hsuitable : Consistent compareSlavesForPromotion (slaves.filter (eligible master now)) :=
    h.subset fun _ ha => List.mem_of_mem_filter ha
  unfold sentinelSelectSlave
  dsimp only
  split
  · rename_i hnil
    have hfilter := List.length_eq_zero_iff.mp hnil
    refine ⟨iff_of_true rfl fun s hs => ?_, nofun⟩
    exact Bool.eq_false_of_not_eq_true (List.filter_eq_nil_iff.mp hfilter s hs)
  · rename_i hne
    refine ⟨?_, fun s hs => ?_⟩
    · rw [q.head?_eq_none hsuitable, List.filter_eq_nil_iff]
      simp only [Bool.not_eq_true]
    · obtain ⟨hmem, hleast⟩ := q.head_le hsuitable hs
      obtain ⟨hslave, heligible⟩ := List.mem_filter.mp hmem
      exact ⟨hslave, heligible, fun e he heligible' =>
        hleast e (List.mem_filter.mpr ⟨he, heligible'⟩)⟩

theorem close_of_best (h : SelectsBest q master slaves now) {a b : Slave} (ha : a ∈ slaves)
    (hb : b ∈ slaves) (hea : eligible master now a = true) (heb : eligible master now b = true) :
    a.slavePriority.toInt - b.slavePriority.toInt < 2 ^ 31 := by
  by_contra hfar
  have hspec : (sentinelSelectSlave q master slaves now = none ↔
      ∀ s ∈ slaves, eligible master now s = false) ∧
      ∀ s, sentinelSelectSlave q master slaves now = some s → s ∈ slaves ∧
        eligible master now s = true ∧ ∀ e ∈ slaves, eligible master now e = true →
          compareSlavesForPromotion s e ≤ 0 := sentinelSelectSlave_spec h.order
  obtain ⟨hnone, hsome⟩ := hspec
  cases hselect : sentinelSelectSlave q master slaves now with
  | none =>
    have hnot := hnone.mp hselect a ha
    rw [hea] at hnot
    cases hnot
  | some s =>
    obtain ⟨hs, -, hleast⟩ := hsome s hselect
    obtain ⟨-, -, hbest⟩ := h.best slaves (List.Perm.refl _) s hselect
    have hsb : s.slavePriority.toInt ≤ b.slavePriority.toInt :=
      not_lt.mp fun hlt => hbest b hb heb (.inl hlt)
    have hle := hleast a ha hea
    have hpos := (h.order.antisymm s hs a ha).mp
    -- the slave `a` is so far behind `s` that it comes before it
    have hne : s.slavePriority ≠ a.slavePriority := by
      intro heq
      rw [heq] at hsb
      omega
    have hnonzero := sub_toInt_ne_zero hne
    rw [compareSlavesForPromotion, if_pos hne] at hle hpos
    have hback := hpos (by omega)
    have hhigh := a.slavePriority.toInt_lt
    have hlow := s.slavePriority.le_toInt
    rw [compareSlavesForPromotion, if_pos hne.symm, BitVec.toInt_sub] at hback
    unfold Int.bmod at hback
    dsimp only at hback
    split at hback <;> omega

/-- For every table of slaves: the comparison is an order and the slave is one of the best if and
only if the priorities are in less than half of the circle, and those of eligible slaves less than
2^31 apart. -/
theorem best_slave (q : Qsort Slave) (master : Master) (slaves : List Slave) (now : ℤ) :
    SelectsBest q master slaves now ↔ PrioritiesOk master slaves now := by
  constructor
  · intro h
    exact ⟨half_of_consistent h.order, fun a ha b hb hea heb => close_of_best h ha hb hea heb⟩
  · rintro ⟨⟨p, hp⟩, hclose⟩
    refine ⟨consistent_of_half hp, fun slaves' hperm => ?_, fun slaves' hperm s hs => ?_⟩
    · rw [(sentinelSelectSlave_spec ((consistent_of_half hp).subset fun _ => hperm.mem_iff.mp)).1]
      exact forall_congr' fun s => by rw [hperm.mem_iff]
    · obtain ⟨hmem, heligible, hleast⟩ := (sentinelSelectSlave_spec
        ((consistent_of_half hp).subset fun _ => hperm.mem_iff.mp)).2 s hs
      have hslave := hperm.mem_iff.mp hmem
      refine ⟨hslave, heligible, fun e he heligible' hbetter => ?_⟩
      have hkeys := represents_compare (represents_priority
        (hclose s hslave e he heligible heligible') (hclose e he s hslave heligible' heligible))
      exact absurd ((better_iff e s).mp hbetter)
        (not_lt.mpr (hkeys.nonpos_iff.mp (hleast e (hperm.mem_iff.mpr he) heligible')))

end

/-- A slave that is up to date, with this priority. -/
def upToDate (priority : BitVec 32) : Slave := ⟨false, false, false, 0, 0, 0, priority, 0, none⟩

/-- Of the priorities -2 and 2^31 - 1 the larger one is chosen; and of slaves with the priorities 0
and -2^31 each comes before the other one. -/
theorem worst_slave :
    (∀ q : Qsort Slave, sentinelSelectSlave q ⟨true, 0, 30000⟩
        [upToDate (-2), upToDate 2147483647] 100 = some (upToDate 2147483647) ∧
      ¬ SelectsBest q ⟨true, 0, 30000⟩ [upToDate (-2), upToDate 2147483647] 100) ∧
    Better (upToDate (-2)) (upToDate 2147483647) ∧
    compareSlavesForPromotion (upToDate 0) (upToDate (-2147483648)) < 0 ∧
    compareSlavesForPromotion (upToDate (-2147483648)) (upToDate 0) < 0 := by
  have hbetter : Better (upToDate (-2)) (upToDate 2147483647) := .inl (by decide)
  refine ⟨fun q => ?_, hbetter, by decide, by decide⟩
  have hhalf : ∀ s ∈ [upToDate (-2), upToDate 2147483647],
      (s.slavePriority - 2147483647).toNat < 2 ^ 31 := by decide
  have hspec : (sentinelSelectSlave q ⟨true, 0, 30000⟩ [upToDate (-2), upToDate 2147483647] 100 =
      none ↔ ∀ s ∈ [upToDate (-2), upToDate 2147483647],
        eligible ⟨true, 0, 30000⟩ 100 s = false) ∧ _ :=
    sentinelSelectSlave_spec (consistent_of_half hhalf)
  have hselect : sentinelSelectSlave q ⟨true, 0, 30000⟩
      [upToDate (-2), upToDate 2147483647] 100 = some (upToDate 2147483647) := by
    cases hs : sentinelSelectSlave q ⟨true, 0, 30000⟩ [upToDate (-2), upToDate 2147483647] 100 with
    | none => exact absurd (hspec.1.mp hs) (by decide)
    | some s =>
      obtain ⟨hmem, -, hleast⟩ := hspec.2 s hs
      obtain rfl | hmem := List.mem_cons.mp hmem
      · exact absurd (hleast (upToDate 2147483647) (by decide) (by decide)) (by decide)
      · rw [List.mem_singleton.mp hmem]
  exact ⟨hselect, fun h => (h.best _ (List.Perm.refl _) _ hselect).2.2 (upToDate (-2))
    List.mem_cons_self (by decide) hbetter⟩

end SentinelSelection

/-
What every event of a Sentinel keeps of its failovers.

* `Failover`, `Failover.Ok` — what a failover reads and writes in a master, and the invariant;
* `Failover.Move` — the moves of a failover, each of which keeps the invariant;
* `Good`, `Follows` — the invariant of the Sentinel, and what a function makes of its state;
* `process_ensures` — every event keeps the invariant, as long as only the promoted slave reports
  the role master while its promotion is awaited.
-/
import Mathlib.Tactic.Set
import RedisModel.SentinelFailover

open Except

namespace Sentinel

open SentinelState

section
variable {M H R : Type}

/-! ### History -/

/-- Since `SLAVEOF NO ONE` was sent to it the last time, the slave reported the role master. -/
def ReportedSince (history : List (Record M R)) (p : SlaveRef) : Prop :=
  ∃ l₁ l₂, history = l₁ ++ .slaveofNoOne p :: l₂ ∧ .slaveofNoOne p ∉ l₂ ∧ .reportedMaster p ∈ l₂

theorem ReportedSince.concat {history : List (Record M R)} {p : SlaveRef} {r : Record M R}
    (h : ReportedSince history p) (hr : r ≠ .slaveofNoOne p) :
    ReportedSince (history ++ [r]) p := by
  obtain ⟨l₁, l₂, rfl, hnot, hmem⟩ := h
  refine ⟨l₁, l₂ ++ [r], by simp, ?_, List.mem_append_left _ hmem⟩
  intro hin
  rcases List.mem_append.mp hin with hin | hin
  · exact hnot hin
  · exact hr (List.mem_singleton.mp hin).symm

theorem ReportedSince.of_mem {history : List (Record M R)} {p : SlaveRef}
    (h : .slaveofNoOne p ∈ history) : ReportedSince (history ++ [.reportedMaster p]) p := by
  -- the last time is the first one in the reversed history
  obtain ⟨l₂, l₁, heq, hnot⟩ := List.eq_append_cons_of_mem (List.mem_reverse.mpr h)
  have hhistory : history = l₁.reverse ++ .slaveofNoOne p :: l₂.reverse := by
    simpa using congrArg List.reverse heq
  refine ⟨l₁.reverse, l₂.reverse ++ [.reportedMaster p], by simp [hhistory], ?_, by simp⟩
  intro hin
  rcases List.mem_append.mp hin with hin | hin
  · exact hnot (List.mem_reverse.mp hin)
  · exact nomatch List.mem_singleton.mp hin

/-! ### The failover of a master -/

/-- The flags of a slave that belong to a failover. -/
structure SlaveFlags where
  promoted : Bool
  reconfSent : Bool
  reconfInprog : Bool

def Slave.flags (s : Slave H R) : SlaveFlags where
  promoted := s.promoted
  reconfSent := s.reconfSent
  reconfInprog := s.reconfInprog

/-- What a failover reads and writes in a master. -/
structure Failover where
  inProgress : Bool
  state : FailoverState
  promotedSlave : Option SlaveRef
  slaves : List (SlaveRef × SlaveFlags)

def Master.failover (master : Master H R) : Failover where
  inProgress := master.failoverInProgress
  state := master.failoverState
  promotedSlave := master.promotedSlave
  slaves := master.slaves.map fun e => (e.1, e.2.flags)

namespace Failover

/-- The invariant of a failover. -/
structure Ok (history : List (Record M R)) (f : Failover) : Prop where
  nodup : (f.slaves.map Prod.fst).Nodup
  inProgress : f.inProgress = true ↔ f.state ≠ .none
  early : f.state.num < FailoverState.sendSlaveofNoone.num → f.promotedSlave = none
  chosen : FailoverState.sendSlaveofNoone.num ≤ f.state.num →
    ∃ p, f.promotedSlave = some p ∧ p ∈ f.slaves.map Prod.fst
  promoted : ∀ e ∈ f.slaves, e.2.promoted = true ↔ f.promotedSlave = some e.1
  reconf : ∀ e ∈ f.slaves, e.2.reconfSent = true ∨ e.2.reconfInprog = true →
    FailoverState.reconfSlaves.num ≤ f.state.num
  sent : f.state = .waitPromotion → ∀ p, f.promotedSlave = some p → .slaveofNoOne p ∈ history
  reported : FailoverState.reconfSlaves.num ≤ f.state.num →
    ∀ p, f.promotedSlave = some p → ReportedSince history p

/-- The flags of the slaves with the flag `promoted` at one of them. -/
def setPromoted (slaves : List (SlaveRef × SlaveFlags)) (p : SlaveRef) (promoted : Bool) :
    List (SlaveRef × SlaveFlags) :=
  slaves.map fun e => if e.1 = p then (e.1, { e.2 with promoted }) else e

/-- The moves of a failover. -/
inductive Move (history : List (Record M R)) (f : Failover) : Failover → Prop
  | start (h : f.state = .none) : Move history f { f with inProgress := true, state := .waitStart }
  | abort (hstate : f.state.num < FailoverState.sendSlaveofNoone.num) :
    Move history f { f with inProgress := false, state := .none }
  | demote (hstate : f.state.num ≤ FailoverState.waitPromotion.num) (p : SlaveRef)
      (hp : f.promotedSlave = some p) :
    Move history f
      { inProgress := false
        state := .none
        promotedSlave := none
        slaves := setPromoted f.slaves p false }
  | elected (h : f.state = .waitStart) : Move history f { f with state := .selectSlave }
  | select (h : f.state = .selectSlave) (p : SlaveRef) (hp : p ∈ f.slaves.map Prod.fst) :
    Move history f
      { f with
        state := .sendSlaveofNoone
        promotedSlave := some p
        slaves := setPromoted f.slaves p true }
  | send (h : f.state = .sendSlaveofNoone)
      (hsent : ∀ p, f.promotedSlave = some p → .slaveofNoOne p ∈ history) :
    Move history f { f with state := .waitPromotion }
  | turn (h : f.state = .waitPromotion)
      (hreported : ∀ p, f.promotedSlave = some p → ReportedSince history p) :
    Move history f { f with state := .reconfSlaves }
  | reconf (state : FailoverState) (slaves : List (SlaveRef × SlaveFlags))
      (h : FailoverState.reconfSlaves.num ≤ f.state.num)
      (hstate : FailoverState.reconfSlaves.num ≤ state.num)
      (hslaves : slaves.map (fun e => (e.1, e.2.promoted)) =
        f.slaves.map fun e => (e.1, e.2.promoted)) :
    Move history f { f with state, slaves }
  | reset : Move history f { inProgress := false, state := .none, promotedSlave := none, slaves := [] }
  | create (p : SlaveRef) (hp : p ∉ f.slaves.map Prod.fst) :
    Move history f { f with slaves := f.slaves ++ [(p, ⟨false, false, false⟩)] }

theorem setPromoted_fst (slaves : List (SlaveRef × SlaveFlags)) (p : SlaveRef) (promoted : Bool) :
    (setPromoted slaves p promoted).map Prod.fst = slaves.map Prod.fst := by
  rw [setPromoted, List.map_map]
  refine List.map_congr_left fun e _ => ?_
  show (if e.1 = p then (e.1, { e.2 with promoted }) else e).1 = e.1
  split <;> rfl

theorem mem_setPromoted {slaves : List (SlaveRef × SlaveFlags)} {p : SlaveRef} {promoted : Bool}
    {e : SlaveRef × SlaveFlags} (h : e ∈ setPromoted slaves p promoted) :
    ∃ e' ∈ slaves, e.1 = e'.1 ∧ e.2.reconfSent = e'.2.reconfSent ∧
      e.2.reconfInprog = e'.2.reconfInprog ∧
      e.2.promoted = if e'.1 = p then promoted else e'.2.promoted := by
  obtain ⟨e', he', rfl⟩ := List.mem_map.mp h
  refine ⟨e', he', ?_⟩
  split <;> exact ⟨rfl, rfl, rfl, rfl⟩

namespace Ok

variable {history : List (Record M R)} {f f' : Failover}

theorem no_reconf (h : f.Ok history) (hstate : f.state.num < FailoverState.reconfSlaves.num)
    {e : SlaveRef × SlaveFlags} (he : e ∈ f.slaves) :
    ¬(e.2.reconfSent = true ∨ e.2.reconfInprog = true) :=
  fun hreconf => absurd (h.reconf e he hreconf) (Nat.not_le.mpr hstate)

theorem no_promoted (h : f.Ok history) (hnone : f.promotedSlave = none)
    {e : SlaveRef × SlaveFlags} (he : e ∈ f.slaves) : e.2.promoted ≠ true := by
  intro hpromoted
  have hsome := (h.promoted e he).mp hpromoted
  rw [hnone] at hsome
  exact nomatch hsome

theorem concat (h : f.Ok history) {r : Record M R}
    (hr : FailoverState.reconfSlaves.num ≤ f.state.num →
      ∀ p, f.promotedSlave = some p → r ≠ .slaveofNoOne p) : f.Ok (history ++ [r]) where
  nodup := h.nodup
  inProgress := h.inProgress
  early := h.early
  chosen := h.chosen
  promoted := h.promoted
  reconf := h.reconf
  sent hstate p hp := List.mem_append_left _ (h.sent hstate p hp)
  reported hstate p hp := (h.reported hstate p hp).concat (hr hstate p hp)

theorem early_move (h : f.Ok history) (hearly : f.state.num < FailoverState.sendSlaveofNoone.num)
    {inProgress : Bool} {state : FailoverState}
    (hstate : state.num < FailoverState.sendSlaveofNoone.num)
    (hin : inProgress = true ↔ state ≠ .none) : Ok history { f with inProgress, state } where
  nodup := h.nodup
  inProgress := hin
  early _ := h.early hearly
  chosen hlate := absurd hlate (Nat.not_le.mpr hstate)
  promoted := h.promoted
  reconf _ he hreconf :=
    absurd hreconf (h.no_reconf (Nat.lt_of_lt_of_le hearly (by decide)) he)
  sent heq := by
    rw [show state = .waitPromotion from heq] at hstate
    exact absurd hstate (by decide)
  reported hlate := absurd hlate (Nat.not_le.mpr (Nat.lt_of_lt_of_le hstate (by decide)))

theorem move (h : f.Ok history) (hmove : f.Move history f') : f'.Ok history := by
  cases hmove with
  | start hstate =>
    refine h.early_move (by rw [hstate]; decide) (by decide) ?_
    exact ⟨fun _ => nofun, fun _ => rfl⟩
  | abort hstate =>
    refine h.early_move hstate (by decide) ?_
    exact ⟨fun htrue => absurd htrue Bool.false_ne_true, fun hne => absurd rfl hne⟩
  | elected hstate =>
    refine h.early_move (by rw [hstate]; decide) (by decide) ?_
    exact ⟨fun _ => nofun, fun _ => h.inProgress.mpr (by rw [hstate]; nofun)⟩
  | demote hstate p hp =>
    have hno := fun e he => h.no_reconf (Nat.lt_of_le_of_lt hstate (by decide)) (e := e) he
    refine ⟨?_, ?_, fun _ => rfl, nofun, ?_, ?_, nofun, nofun⟩
    · exact (setPromoted_fst f.slaves p false).symm ▸ h.nodup
    · exact ⟨fun htrue => absurd htrue Bool.false_ne_true, fun hne => absurd rfl hne⟩
    · intro e he
      obtain ⟨e', he', -, -, -, hpromoted⟩ := mem_setPromoted he
      refine ⟨fun htrue => ?_, fun hnone => absurd hnone.symm (Option.some_ne_none _)⟩
      rw [hpromoted] at htrue
      split at htrue
      · exact absurd htrue Bool.false_ne_true
      next hne =>
        have hsome := (h.promoted e' he').mp htrue
        exact absurd (Option.some_inj.mp (hp.symm.trans hsome)).symm hne
    · intro e he hreconf
      obtain ⟨e', he', -, hsent, hinprog, -⟩ := mem_setPromoted he
      rw [hsent, hinprog] at hreconf
      exact absurd hreconf (hno e' he')
  | select hstate p hp =>
    have hnone : f.promotedSlave = none := h.early (by rw [hstate]; decide)
    have hno := fun e he => h.no_reconf (by rw [hstate]; decide) (e := e) he
    have hfst := setPromoted_fst f.slaves p true
    refine ⟨hfst.symm ▸ h.nodup, ?_, nofun, fun _ => ⟨p, rfl, hfst.symm ▸ hp⟩, ?_, ?_, nofun, nofun⟩
    · exact ⟨fun _ => nofun, fun _ => h.inProgress.mpr (by rw [hstate]; nofun)⟩
    · intro e he
      obtain ⟨e', he', hkey, -, -, hpromoted⟩ := mem_setPromoted he
      rw [hpromoted, hkey]
      by_cases heq : e'.1 = p
      · rw [if_pos heq, heq]
        exact ⟨fun _ => rfl, fun _ => rfl⟩
      · rw [if_neg heq]
        exact ⟨fun htrue => absurd htrue (h.no_promoted hnone he'),
          fun hsome => absurd (Option.some_inj.mp hsome).symm heq⟩
    · intro e he hreconf
      obtain ⟨e', he', -, hsent, hinprog, -⟩ := mem_setPromoted he
      rw [hsent, hinprog] at hreconf
      exact absurd hreconf (hno e' he')
  | send hstate hsent =>
    have hno := fun e he => h.no_reconf (by rw [hstate]; decide) (e := e) he
    refine ⟨h.nodup, ?_, nofun, fun _ => h.chosen (Nat.le_of_eq (by rw [hstate])), h.promoted, ?_,
      fun _ => hsent, nofun⟩
    · exact ⟨fun _ => nofun, fun _ => h.inProgress.mpr (by rw [hstate]; nofun)⟩
    · intro e he hreconf
      exact absurd hreconf (hno e he)
  | turn hstate hreported =>
    refine ⟨h.nodup, ?_, nofun, fun _ => h.chosen (by rw [hstate]; decide), h.promoted,
      fun _ _ _ => Nat.le_refl _, nofun, fun _ => hreported⟩
    exact ⟨fun _ => nofun, fun _ => h.inProgress.mpr (by rw [hstate]; nofun)⟩
  | reconf state slaves hlate hstate hslaves =>
    have hfst : slaves.map Prod.fst = f.slaves.map Prod.fst := by
      have := congrArg (List.map Prod.fst) hslaves
      rwa [List.map_map, List.map_map] at this
    have hthree : FailoverState.sendSlaveofNoone.num ≤ f.state.num := Nat.le_trans (by decide) hlate
    refine ⟨hfst.symm ▸ h.nodup, ?_, ?_, fun _ => ?_, ?_, fun _ _ _ => hstate, ?_,
      fun _ => h.reported hlate⟩
    · refine ⟨fun _ heq => ?_, fun _ => h.inProgress.mpr fun heq => ?_⟩
      · rw [show state = .none from heq] at hstate
        exact absurd hstate (by decide)
      · rw [heq] at hlate
        exact absurd hlate (by decide)
    · intro hearly
      exact absurd (Nat.lt_of_le_of_lt hstate hearly) (by decide)
    · exact hfst.symm ▸ h.chosen hthree
    · intro e he
      have hmem : (e.1, e.2.promoted) ∈ f.slaves.map fun e => (e.1, e.2.promoted) :=
        hslaves ▸ List.mem_map_of_mem he
      obtain ⟨e', he', heq⟩ := List.mem_map.mp hmem
      obtain ⟨hkey, hflag⟩ := Prod.mk.inj heq
      rw [← hkey, ← hflag]
      exact h.promoted e' he'
    · intro heq
      rw [show state = .waitPromotion from heq] at hstate
      exact absurd hstate (by decide)
  | reset =>
    refine ⟨List.nodup_nil, ?_, fun _ => rfl, nofun, ?_, ?_, nofun, nofun⟩
    · exact ⟨fun htrue => absurd htrue Bool.false_ne_true, fun hne => absurd rfl hne⟩
    · exact fun _ he => absurd he List.not_mem_nil
    · exact fun _ he => absurd he List.not_mem_nil
  | create p hp =>
    refine ⟨?_, h.inProgress, h.early, fun hlate => ?_, fun e he => ?_, fun e he => ?_, h.sent,
      h.reported⟩
    · rw [List.map_append]
      refine List.nodup_append.mpr ⟨h.nodup, List.pairwise_singleton _ p, ?_⟩
      rintro q hq q' hq' rfl
      obtain rfl : q = p := List.mem_singleton.mp hq'
      exact hp hq
    · obtain ⟨q, hq, hmem⟩ := h.chosen hlate
      refine ⟨q, hq, ?_⟩
      rw [List.map_append]
      exact List.mem_append_left _ hmem
    · rcases List.mem_append.mp he with he | he
      · exact h.promoted e he
      · rw [List.mem_singleton.mp he]
        refine ⟨fun htrue => absurd htrue Bool.false_ne_true, fun hsome => ?_⟩
        -- the slave that is promoted is in the table, the new one is not
        by_cases hlate : FailoverState.sendSlaveofNoone.num ≤ f.state.num
        · obtain ⟨q, hq, hmem⟩ := h.chosen hlate
          obtain rfl : q = p := Option.some_inj.mp (hq.symm.trans hsome)
          exact absurd hmem hp
        · rw [h.early (Nat.lt_of_not_le hlate)] at hsome
          exact absurd hsome.symm (Option.some_ne_none _)
    · rcases List.mem_append.mp he with he | he
      · exact h.reconf e he
      · rw [List.mem_singleton.mp he]
        exact fun hreconf => absurd (hreconf.elim id id) Bool.false_ne_true

end Ok

end Failover

/-! ### The invariant of a Sentinel -/

/-- The pointers to the slaves of a master. -/
def Master.refs (master : Master H R) : List SlaveRef := master.slaves.map Prod.fst

@[simp] theorem Master.failover_refs (master : Master H R) :
    master.failover.slaves.map Prod.fst = master.refs := by
  rw [Master.failover, List.map_map]
  rfl

/-- The failover of every master is in order, and no slave has two masters. -/
structure Good (sn : SentinelState M H R) : Prop where
  failover : ∀ m, (sn.masters m).failover.Ok sn.history
  created : ∀ m, ∀ p ∈ (sn.masters m).refs, p < sn.nextSlave
  apart : ∀ m m' p, p ∈ (sn.masters m).refs → p ∈ (sn.masters m').refs → m = m'

/-- What a function that keeps the invariant and the configuration epochs makes of a state. -/
structure Follows (sn sn' : SentinelState M H R) : Prop where
  good : Good sn'
  epochs : ∀ m, (sn'.masters m).configEpoch = (sn.masters m).configEpoch

/-- What a function that has nothing to do with failovers makes of a state. -/
structure Unchanged (sn sn' : SentinelState M H R) : Prop where
  failover : ∀ m, (sn'.masters m).failover = (sn.masters m).failover
  epochs : ∀ m, (sn'.masters m).configEpoch = (sn.masters m).configEpoch
  nextSlave : sn'.nextSlave = sn.nextSlave
  history : ∃ l, sn'.history = sn.history ++ l ∧ ∀ p, Record.slaveofNoOne p ∉ l

variable {sn sn' sn₁ sn₂ sn₃ : SentinelState M H R} {m : M} {master : Master H R}

theorem Follows.refl (h : Good sn) : Follows sn sn := ⟨h, fun _ => rfl⟩

theorem Follows.trans (h : Follows sn₁ sn₂) (h' : Follows sn₂ sn₃) : Follows sn₁ sn₃ :=
  ⟨h'.good, fun m => (h'.epochs m).trans (h.epochs m)⟩

theorem Failover.Ok.append {history l : List (Record M R)} {f : Failover} (h : f.Ok history)
    (hl : ∀ p, Record.slaveofNoOne p ∉ l) : f.Ok (history ++ l) := by
  induction l generalizing history with
  | nil => simpa using h
  | cons r l ih =>
    rw [← List.singleton_append, ← List.append_assoc]
    refine ih (h.concat ?_) fun p hp => hl p (List.mem_cons_of_mem _ hp)
    rintro - p - rfl
    exact hl p List.mem_cons_self

namespace Unchanged

theorem refl (sn : SentinelState M H R) : Unchanged sn sn :=
  ⟨fun _ => rfl, fun _ => rfl, rfl, [], (List.append_nil _).symm, fun _ => List.not_mem_nil⟩

theorem trans (h : Unchanged sn₁ sn₂) (h' : Unchanged sn₂ sn₃) : Unchanged sn₁ sn₃ := by
  obtain ⟨l, hl, hno⟩ := h.history
  obtain ⟨l', hl', hno'⟩ := h'.history
  refine ⟨fun m => (h'.failover m).trans (h.failover m), fun m => (h'.epochs m).trans (h.epochs m),
    h'.nextSlave.trans h.nextSlave, l ++ l', by rw [hl', hl, List.append_assoc], ?_⟩
  intro p hp
  exact (List.mem_append.mp hp).elim (hno p) (hno' p)

theorem refs (h : Unchanged sn sn') (m : M) : (sn'.masters m).refs = (sn.masters m).refs := by
  rw [← Master.failover_refs, h.failover, Master.failover_refs]

theorem inProgress (h : Unchanged sn sn') (m : M) :
    (sn'.masters m).failoverInProgress = (sn.masters m).failoverInProgress :=
  congrArg Failover.inProgress (h.failover m)

theorem state (h : Unchanged sn sn') (m : M) :
    (sn'.masters m).failoverState = (sn.masters m).failoverState :=
  congrArg Failover.state (h.failover m)

theorem follows (h : Unchanged sn sn') (hgood : Good sn) : Follows sn sn' := by
  refine ⟨⟨fun m => ?_, fun m p hp => ?_, fun m m' p hp hp' => ?_⟩, h.epochs⟩
  · obtain ⟨l, hl, hno⟩ := h.history
    rw [h.failover, hl]
    exact (hgood.failover m).append hno
  · rw [h.nextSlave]
    exact hgood.created m p (h.refs m ▸ hp)
  · exact hgood.apart m m' p (h.refs m ▸ hp) (h.refs m' ▸ hp')

theorem record (sn : SentinelState M H R) {r : Record M R}
    (hr : ∀ p, r ≠ .slaveofNoOne p) : Unchanged sn (sn.record r) := by
  refine ⟨fun _ => rfl, fun _ => rfl, rfl, [r], rfl, ?_⟩
  intro p hp
  exact hr p (List.mem_singleton.mp hp).symm

end Unchanged

section
variable [DecidableEq M]

@[simp] theorem SentinelState.setMaster_self (sn : SentinelState M H R) (m : M)
    (master : Master H R) : (sn.setMaster m master).masters m = master := by
  simp only [SentinelState.setMaster, Function.update_self]

theorem SentinelState.setMaster_of_ne (sn : SentinelState M H R) {m m' : M}
    (master : Master H R) (h : m' ≠ m) : (sn.setMaster m master).masters m' = sn.masters m' := by
  simp only [SentinelState.setMaster, Function.update_of_ne h]

@[simp] theorem SentinelState.setMaster_setMaster (sn : SentinelState M H R) (m : M)
    (master master' : Master H R) :
    (sn.setMaster m master).setMaster m master' = sn.setMaster m master' := by
  simp only [SentinelState.setMaster, Function.update_idem]

theorem Unchanged.setMaster (hfailover : master.failover = (sn.masters m).failover)
    (hepoch : master.configEpoch = (sn.masters m).configEpoch) :
    Unchanged sn (sn.setMaster m master) := by
  refine ⟨fun m' => ?_, fun m' => ?_, rfl, [], (List.append_nil _).symm, fun _ => List.not_mem_nil⟩
  · by_cases hm : m' = m
    · rw [hm, SentinelState.setMaster_self, hfailover]
    · rw [SentinelState.setMaster_of_ne _ _ hm]
  · by_cases hm : m' = m
    · rw [hm, SentinelState.setMaster_self, hepoch]
    · rw [SentinelState.setMaster_of_ne _ _ hm]

theorem Good.setMaster (h : Good sn) (hok : master.failover.Ok sn.history)
    (hrefs : ∀ p ∈ master.refs, p ∈ (sn.masters m).refs) : Good (sn.setMaster m master) := by
  have hold : ∀ m', ∀ p ∈ ((sn.setMaster m master).masters m').refs, p ∈ (sn.masters m').refs := by
    intro m' p hp
    by_cases hm : m' = m
    · rw [hm, SentinelState.setMaster_self] at hp
      exact hm ▸ hrefs p hp
    · rwa [SentinelState.setMaster_of_ne _ _ hm] at hp
  refine ⟨fun m' => ?_, fun m' p hp => h.created m' p (hold m' p hp),
    fun m' m'' p hp hp' => h.apart m' m'' p (hold m' p hp) (hold m'' p hp')⟩
  by_cases hm : m' = m
  · rw [hm, SentinelState.setMaster_self]
    exact hok
  · rw [SentinelState.setMaster_of_ne _ _ hm]
    exact h.failover m'

theorem Good.follows_move (h : Good sn)
    (hmove : (sn.masters m).failover.Move sn.history master.failover)
    (hrefs : ∀ p ∈ master.refs, p ∈ (sn.masters m).refs)
    (hepoch : master.configEpoch = (sn.masters m).configEpoch) :
    Follows sn (sn.setMaster m master) := by
  refine ⟨h.setMaster ((h.failover m).move hmove) hrefs, fun m' => ?_⟩
  by_cases hm : m' = m
  · rw [hm, SentinelState.setMaster_self, hepoch]
  · rw [SentinelState.setMaster_of_ne _ _ hm]

/-! ### Slaves -/

omit [DecidableEq M] in
theorem Master.slaveAt_ensures {p : SlaveRef} (hp : p ∈ master.refs) :
    (master.slaveAt p).Ensures (fun _ => False) fun s => (p, s) ∈ master.slaves := by
  rw [Master.slaveAt]
  split
  next e hfind =>
    have hkey : e.1 = p := by simpa using List.find?_some hfind
    exact hkey ▸ List.mem_of_find?_eq_some hfind
  next hfind =>
    obtain ⟨e, he, rfl⟩ := List.mem_map.mp hp
    exact absurd (List.find?_eq_none.mp hfind e he) (by simp)

omit [DecidableEq M] in
theorem Master.refs_updateSlave (master : Master H R) (p : SlaveRef) (f : Slave H R → Slave H R) :
    (master.updateSlave p f).refs = master.refs := by
  rw [Master.refs, Master.updateSlave, List.map_map]
  refine List.map_congr_left fun e _ => ?_
  show (if e.1 = p then (e.1, f e.2) else e).1 = e.1
  split <;> rfl

omit [DecidableEq M] in
theorem Master.failover_updateSlave (master : Master H R) (p : SlaveRef)
    {f : Slave H R → Slave H R} {promoted : Bool}
    (hf : ∀ s, (f s).flags = { s.flags with promoted }) :
    (master.updateSlave p f).failover.slaves =
      Failover.setPromoted master.failover.slaves p promoted := by
  show List.map _ (List.map _ _) = List.map _ (List.map _ _)
  rw [List.map_map, List.map_map]
  refine List.map_congr_left fun e _ => ?_
  show ((if e.1 = p then (e.1, f e.2) else e).1, (if e.1 = p then (e.1, f e.2) else e).2.flags) =
    if e.1 = p then (e.1, { e.2.flags with promoted }) else (e.1, e.2.flags)
  split
  · exact congrArg (Prod.mk e.1) (hf e.2)
  · rfl

omit [DecidableEq M] in
theorem Master.failover_updateSlave_of_flags (master : Master H R) (p : SlaveRef)
    {f : Slave H R → Slave H R} (hf : ∀ e ∈ master.slaves, e.1 = p → (f e.2).flags = e.2.flags) :
    (master.updateSlave p f).failover = master.failover := by
  have hslaves : (master.updateSlave p f).slaves.map (fun e => (e.1, e.2.flags)) =
      master.slaves.map fun e => (e.1, e.2.flags) := by
    show List.map _ (List.map _ _) = _
    rw [List.map_map]
    refine List.map_congr_left fun e he => ?_
    show ((if e.1 = p then (e.1, f e.2) else e).1, (if e.1 = p then (e.1, f e.2) else e).2.flags) =
      (e.1, e.2.flags)
    split
    next hp => exact congrArg (Prod.mk e.1) (hf e he hp)
    · rfl
  show Failover.mk _ _ _ _ = Failover.mk _ _ _ _
  rw [hslaves]
  rfl

/-! ### Votes and questions -/

theorem sentinelVoteLeader_unchanged [DecidableEq R] (sn : SentinelState M H R) (m : M)
    (epoch : ℕ) (runid : R) (start : ℤ) :
    Unchanged sn (sentinelVoteLeader sn m epoch runid start) := by
  rw [sentinelVoteLeader]
  have hepoch : Unchanged sn
      (if epoch > sn.currentEpoch then { sn with currentEpoch := epoch } else sn) := by
    split
    · exact ⟨fun _ => rfl, fun _ => rfl, rfl, [], (List.append_nil _).symm,
        fun _ => List.not_mem_nil⟩
    · exact Unchanged.refl sn
  refine hepoch.trans ?_
  generalize (if epoch > sn.currentEpoch then { sn with currentEpoch := epoch } else sn) = sn
  split
  · refine Unchanged.trans (Unchanged.setMaster ?_ ?_) (Unchanged.record _ (by rintro p ⟨⟩))
    · rfl
    · rfl
  · exact Unchanged.refl sn

/-- The assertion of `sentinelGetLeader` holds during a failover. -/
theorem sentinelGetLeader_unchanged [DecidableEq R] {epoch : ℕ} {order : List R} {start : ℤ}
    (hin : (sn.masters m).failoverInProgress = true) :
    (sentinelGetLeader sn m epoch order start).Ensures (fun _ => False)
      fun p => Unchanged sn p.1 := by
  rw [sentinelGetLeader, if_neg (not_not.mpr (Or.inr hin))]
  exact sentinelVoteLeader_unchanged sn m epoch _ start

theorem sentinelAskMasterStateToOtherSentinels_unchanged (sn : SentinelState M H R) (m : M)
    (forced : Bool) (now : ℤ) :
    Unchanged sn (sentinelAskMasterStateToOtherSentinels sn m forced now).1 :=
  Unchanged.setMaster rfl rfl

theorem isMasterDownByAddr_unchanged [DecidableEq H] [DecidableEq R] (sn : SentinelState M H R)
    (request : Request M H R) (start : ℤ) :
    Unchanged sn (isMasterDownByAddr sn request start).1 := by
  rw [isMasterDownByAddr]
  split
  · exact Unchanged.refl sn
  · dsimp only
    split
    · exact Unchanged.refl sn
    · split
      · exact Unchanged.refl sn
      · exact sentinelVoteLeader_unchanged sn _ _ _ _

/-! ### The state machine -/

variable {now : ℤ}

theorem sentinelAbortFailover_follows (h : Good sn)
    (hin : (sn.masters m).failoverInProgress = true)
    (hstate : (sn.masters m).failoverState.num ≤ FailoverState.waitPromotion.num) :
    (sentinelAbortFailover sn m now).Ensures (fun _ => False) (Follows sn) := by
  rw [sentinelAbortFailover, if_neg (not_not.mpr ⟨hin, hstate⟩)]
  have hok := h.failover m
  dsimp only
  split
  next hp =>
    refine h.follows_move (.abort ?_) (fun p hp => hp) rfl
    -- from SEND_SLAVEOF_NOONE on there is a promoted slave
    by_contra hlate
    obtain ⟨p, hp', -⟩ := hok.chosen (Nat.le_of_not_lt hlate)
    exact nomatch hp.symm.trans hp'
  next p hp =>
    have hmem : p ∈ (sn.masters m).refs := by
      by_cases hlate : FailoverState.sendSlaveofNoone.num ≤ (sn.masters m).failoverState.num
      · obtain ⟨q, hq, hmem⟩ := hok.chosen hlate
        obtain rfl : q = p := Option.some_inj.mp (hq.symm.trans hp)
        rwa [Master.failover_refs] at hmem
      · exact nomatch (hok.early (Nat.lt_of_not_le hlate)).symm.trans hp
    refine (Master.slaveAt_ensures (show p ∈ Master.refs _ from hmem)).bind fun _ _ => ?_
    refine h.follows_move ?_ (fun q hq => ?_) rfl
    · have hmove : (sn.masters m).failover.Move sn.history _ := .demote hstate p hp
      rwa [← Master.failover_updateSlave (sn.masters m) p
        (f := fun s => { s with promoted := false }) fun _ => rfl] at hmove
    · rwa [← Master.refs_updateSlave (sn.masters m) p fun s => { s with promoted := false }]

omit [DecidableEq M] in
theorem sentinelSelectSlave_mem [LinearOrder R] {choice : List SlaveRef} {p : SlaveRef}
    (h : sentinelSelectSlave master choice now = some p) : p ∈ master.refs := by
  rw [sentinelSelectSlave] at h
  set candidates := master.slaves.filter fun e => suitable master now e.2
  have hbest : ∀ q ∈ (candidates.filter fun e => candidates.all fun e' => !better e'.2 e.2).map
      Prod.fst, q ∈ master.refs := by
    intro q hq
    obtain ⟨e, he, rfl⟩ := List.mem_map.mp hq
    exact List.mem_map_of_mem (List.mem_of_mem_filter (List.mem_of_mem_filter he))
  split at h
  next q hfind =>
    obtain rfl := Option.some_inj.mp h
    have hmem := List.find?_some hfind
    exact hbest q (of_decide_eq_true hmem)
  · exact hbest p (List.mem_of_mem_head? h)

theorem sentinelFailoverWaitStart_follows [DecidableEq R] {order : List R} {start : ℤ}
    (h : Good sn) (hin : (sn.masters m).failoverInProgress = true)
    (hstate : (sn.masters m).failoverState = .waitStart) :
    (sentinelFailoverWaitStart sn m order now start).Ensures (fun _ => False) (Follows sn) := by
  rw [sentinelFailoverWaitStart]
  refine (sentinelGetLeader_unchanged hin).bind ?_
  rintro ⟨sn', leader⟩ hsame
  have hfollows := hsame.follows h
  have hstate' : (sn'.masters m).failoverState = .waitStart := (hsame.state m).trans hstate
  dsimp only
  split
  · split
    · refine (sentinelAbortFailover_follows hfollows.good ((hsame.inProgress m).trans hin) ?_).imp
        fun _ hnext => hfollows.trans hnext
      rw [hstate']
      decide
    · exact hfollows
  · have hrecord : Follows sn' (if decide (leader = some sn'.runid) = true then
        sn'.record (.elected m (sn'.masters m).failoverEpoch) else sn') := by
      split
      · exact (Unchanged.record sn' (by rintro p ⟨⟩)).follows hfollows.good
      · exact Follows.refl hfollows.good
    refine hfollows.trans (hrecord.trans (hrecord.good.follows_move ?_ (fun p hp => ?_) ?_))
    · split
      · exact .elected hstate'
      · exact .elected hstate'
    · split
      · exact hp
      · exact hp
    · split
      · rfl
      · rfl

theorem sentinelFailoverSelectSlave_follows [LinearOrder R] {choice : List SlaveRef}
    (h : Good sn) (hin : (sn.masters m).failoverInProgress = true)
    (hstate : (sn.masters m).failoverState = .selectSlave) :
    (sentinelFailoverSelectSlave sn m choice now).Ensures (fun _ => False) (Follows sn) := by
  rw [sentinelFailoverSelectSlave]
  dsimp only
  split
  · refine sentinelAbortFailover_follows h hin ?_
    rw [hstate]
    decide
  next p hp =>
    have hmem : p ∈ (sn.masters m).refs := sentinelSelectSlave_mem hp
    refine h.follows_move ?_ (fun q hq => ?_) rfl
    · have hmove : (sn.masters m).failover.Move sn.history _ :=
        .select hstate p ((Master.failover_refs _).symm ▸ hmem)
      rwa [← Master.failover_updateSlave (sn.masters m) p
        (f := fun s => { s with promoted := true }) fun _ => rfl] at hmove
    · rwa [← Master.refs_updateSlave (sn.masters m) p fun s => { s with promoted := true }]

omit [DecidableEq M] in
theorem Good.promotedSlave (h : Good sn)
    (hlate : FailoverState.sendSlaveofNoone.num ≤ (sn.masters m).failoverState.num) :
    ∃ p, (sn.masters m).promotedSlave = some p ∧ p ∈ (sn.masters m).refs := by
  obtain ⟨p, hp, hmem⟩ := (h.failover m).chosen hlate
  exact ⟨p, hp, Master.failover_refs _ ▸ hmem⟩

omit [DecidableEq M] in
theorem Good.record_slaveofNoOne {p : SlaveRef} (h : Good sn)
    (hstate : (sn.masters m).failoverState = .sendSlaveofNoone) (hp : p ∈ (sn.masters m).refs) :
    Good (sn.record (.slaveofNoOne p)) := by
  refine ⟨fun m' => (h.failover m').concat ?_, h.created, h.apart⟩
  rintro hlate q hq heq
  obtain rfl : p = q := Record.slaveofNoOne.inj heq
  obtain ⟨p', hp', hmem⟩ := h.promotedSlave (Nat.le_trans (by decide) hlate)
  obtain rfl : p' = p := Option.some_inj.mp (hp'.symm.trans hq)
  obtain rfl : m' = m := h.apart m' m p' hmem hp
  rw [show (sn.masters m').failover.state = .sendSlaveofNoone from hstate] at hlate
  exact absurd hlate (by decide)

theorem sentinelFailoverSendSlaveOfNoOne_follows {accepted : SlaveRef → Bool}
    (h : Good sn) (hin : (sn.masters m).failoverInProgress = true)
    (hstate : (sn.masters m).failoverState = .sendSlaveofNoone) :
    (sentinelFailoverSendSlaveOfNoOne sn m accepted now).Ensures (fun _ => False) (Follows sn) := by
  obtain ⟨p, hp, hmem⟩ := h.promotedSlave (m := m) (Nat.le_of_eq (by rw [hstate]))
  rw [sentinelFailoverSendSlaveOfNoOne]
  split
  next hnone => exact nomatch hp.symm.trans hnone
  next q hq =>
    obtain rfl : p = q := Option.some_inj.mp (hp.symm.trans hq)
    refine (Master.slaveAt_ensures hmem).bind fun s _ => ?_
    split
    · split
      · refine sentinelAbortFailover_follows h hin ?_
        rw [hstate]
        decide
      · exact Follows.refl h
    · split
      · exact Follows.refl h
      · have hgood := h.record_slaveofNoOne hstate hmem
        have hrecord : Follows sn (sn.record (.slaveofNoOne p)) := ⟨hgood, fun _ => rfl⟩
        refine hrecord.trans (hgood.follows_move (.send hstate ?_) (fun q hq => hq) rfl)
        intro q hq
        obtain rfl : p = q := Option.some_inj.mp (hp.symm.trans hq)
        exact List.mem_append_right _ (List.mem_singleton.mpr rfl)

theorem sentinelFailoverWaitPromotion_follows (h : Good sn)
    (hin : (sn.masters m).failoverInProgress = true)
    (hstate : (sn.masters m).failoverState = .waitPromotion) :
    (sentinelFailoverWaitPromotion sn m now).Ensures (fun _ => False) (Follows sn) := by
  rw [sentinelFailoverWaitPromotion]
  split
  · exact sentinelAbortFailover_follows h hin (Nat.le_of_eq (by rw [hstate]))
  · exact Follows.refl h

end

end

end Sentinel

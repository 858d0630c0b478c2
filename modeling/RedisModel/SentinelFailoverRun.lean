/-
The failovers of a Sentinel over whole runs (`sentinel.c`).

* `sentinelFailoverStateMachine_follows`, `sentinelHandleMaster_follows` — the timer never fails;
* `sentinelRefreshSlaveInfo_ensures` — the end of `WAIT_PROMOTION`, in the handler of `INFO`;
* `process_ensures` — every event keeps the invariant, if while a promotion is awaited only the
  promoted slave reports the role master;
* `run_promotion` — then a failover goes on to `RECONF_SLAVES` only after the promoted slave did.
-/
import Mathlib.Data.List.Nodup
import Mathlib.Data.Nat.Basic
import RedisModel.Runs
import RedisModel.SentinelFailoverSpec

open Except Runs

namespace Sentinel

open SentinelState

section
variable {M H R : Type} {sn : SentinelState M H R} {m : M} {master : Master H R}

/-! ### Slaves that are reconfigured -/

theorem Master.promoted_ensures {p : SlaveRef} (hp : master.promotedSlave = some p)
    (hmem : p ∈ master.refs) : master.promoted.Ensures (fun _ => False) fun _ => True := by
  rw [Master.promoted, hp]
  exact (Master.slaveAt_ensures hmem).imp fun _ _ => trivial

theorem reconfSlaves_ensures {accepted : SlaveRef → Bool} {now : ℤ} {p : SlaveRef}
    (hp : master.promotedSlave = some p) (hmem : p ∈ master.refs)
    (slaves : List (SlaveRef × Slave H R)) (inProgress : ℤ) :
    (reconfSlaves master accepted now inProgress slaves).Ensures (fun _ => False) fun slaves' =>
      slaves'.map (fun e => (e.1, e.2.promoted)) = slaves.map fun e => (e.1, e.2.promoted) := by
  induction slaves generalizing inProgress with
  | nil => rfl
  | cons e slaves ih =>
    have htimeout : (reconfTimeout now e.2).promoted = e.2.promoted := by
      rw [reconfTimeout]
      split <;> rfl
    rw [reconfSlaves]
    split
    · rfl
    · split
      · refine (ih inProgress).bind fun slaves' hslaves => ?_
        exact congrArg (_ :: ·) hslaves
      · dsimp only
        split
        · refine (ih inProgress).bind fun slaves' hslaves => ?_
          rw [ensures_ok, List.map_cons, List.map_cons, hslaves, htimeout]
        · refine (Master.promoted_ensures hp hmem).bind fun _ _ => ?_
          split
          · refine (ih (inProgress + 1)).bind fun slaves' hslaves => ?_
            rw [ensures_ok, List.map_cons, List.map_cons, hslaves, htimeout]
          · refine (ih inProgress).bind fun slaves' hslaves => ?_
            rw [ensures_ok, List.map_cons, List.map_cons, hslaves, htimeout]

theorem Master.failover_promoted {slaves slaves' : List (SlaveRef × Slave H R)}
    (h : slaves'.map (fun e => (e.1, e.2.promoted)) = slaves.map fun e => (e.1, e.2.promoted)) :
    (slaves'.map fun e => (e.1, e.2.flags)).map (fun e => (e.1, e.2.promoted)) =
      (slaves.map fun e => (e.1, e.2.flags)).map fun e => (e.1, e.2.promoted) := by
  rw [List.map_map, List.map_map]
  exact h

section
variable [DecidableEq M] {now : ℤ}

theorem Good.follows_reconf {slaves : List (SlaveRef × Slave H R)} {state : FailoverState}
    (h : Good sn) (hlate : FailoverState.reconfSlaves.num ≤ (sn.masters m).failoverState.num)
    (hstate : FailoverState.reconfSlaves.num ≤ state.num)
    (hslaves : slaves.map (fun e => (e.1, e.2.promoted)) =
      (sn.masters m).slaves.map fun e => (e.1, e.2.promoted))
    (hfailover : master.failover =
      { (sn.masters m).failover with state, slaves := slaves.map fun e => (e.1, e.2.flags) })
    (hepoch : master.configEpoch = (sn.masters m).configEpoch) :
    Follows sn (sn.setMaster m master) := by
  refine h.follows_move ?_ (fun p hp => ?_) hepoch
  · rw [hfailover]
    exact .reconf state _ hlate hstate (Master.failover_promoted hslaves)
  · have hfst := congrArg (List.map Prod.fst) hslaves
    rw [List.map_map, List.map_map] at hfst
    rw [← Master.failover_refs, hfailover, List.map_map] at hp
    rw [Master.refs]
    exact hfst ▸ hp

theorem sentinelFailoverDetectEnd_follows {accepted : SlaveRef → Bool} (h : Good sn)
    (hlate : FailoverState.reconfSlaves.num ≤ (sn.masters m).failoverState.num) :
    (sentinelFailoverDetectEnd sn m accepted now).Ensures (fun _ => False) (Follows sn) := by
  obtain ⟨p, hp, hmem⟩ := h.promotedSlave (Nat.le_trans (by decide) hlate)
  rw [sentinelFailoverDetectEnd]
  split
  next hnone => exact nomatch hp.symm.trans hnone
  next q hq =>
    obtain rfl : p = q := Option.some_inj.mp (hp.symm.trans hq)
    refine (Master.slaveAt_ensures hmem).bind fun s _ => ?_
    split
    · exact Follows.refl h
    · generalize (if decide (now - (sn.masters m).failoverStateChangeTime >
          (sn.masters m).failoverTimeout) = true then 0 else _ : ℕ) = notReconfigured
      have hsent : ∀ slaves : List (SlaveRef × Slave H R),
          (slaves.map fun e => if e.2.reconfDone ∨ e.2.reconfSent ∨ e.2.disconnected ∨
              ¬accepted e.1 then e else (e.1, { e.2 with reconfSent := true })).map
            (fun e => (e.1, e.2.promoted)) = slaves.map fun e => (e.1, e.2.promoted) := by
        intro slaves
        rw [List.map_map]
        refine List.map_congr_left fun e _ => ?_
        rw [Function.comp_apply]
        split <;> rfl
      dsimp only
      split <;> split
      · exact h.follows_reconf hlate (by decide : _ ≤ FailoverState.updateConfig.num) (hsent _)
          rfl rfl
      · exact h.follows_reconf hlate hlate (hsent _) rfl rfl
      · exact h.follows_reconf hlate (by decide : _ ≤ FailoverState.updateConfig.num) rfl rfl rfl
      · exact h.follows_reconf hlate hlate rfl rfl rfl

theorem sentinelFailoverReconfNextSlave_follows {accepted : SlaveRef → Bool} (h : Good sn)
    (hstate : (sn.masters m).failoverState = .reconfSlaves) :
    (sentinelFailoverReconfNextSlave sn m accepted now).Ensures (fun _ => False) (Follows sn) := by
  have hlate : FailoverState.reconfSlaves.num ≤ (sn.masters m).failoverState.num :=
    Nat.le_of_eq (by rw [hstate])
  obtain ⟨p, hp, hmem⟩ := h.promotedSlave (Nat.le_trans (by decide) hlate)
  rw [sentinelFailoverReconfNextSlave]
  refine (reconfSlaves_ensures hp hmem _ _).bind fun slaves hslaves => ?_
  have hfollows : Follows sn (sn.setMaster m { sn.masters m with slaves }) :=
    h.follows_reconf hlate hlate hslaves rfl rfl
  refine (sentinelFailoverDetectEnd_follows hfollows.good ?_).imp fun _ hnext =>
    hfollows.trans hnext
  rw [SentinelState.setMaster_self]
  exact hlate

/-! ### The timer -/

theorem sentinelFailoverStateMachine_follows [LinearOrder R] {env : TimerEnv R} (h : Good sn) :
    (sentinelFailoverStateMachine sn m env).Ensures (fun _ => False) (Follows sn) := by
  rw [sentinelFailoverStateMachine]
  split
  · exact Follows.refl h
  next hin =>
    have hin := not_not.mp hin
    split
    next hstate => exact sentinelFailoverWaitStart_follows h hin hstate
    next hstate => exact sentinelFailoverSelectSlave_follows h hin hstate
    next hstate => exact sentinelFailoverSendSlaveOfNoOne_follows h hin hstate
    next hstate => exact sentinelFailoverWaitPromotion_follows h hin hstate
    next hstate => exact sentinelFailoverReconfNextSlave_follows h hstate
    · exact Follows.refl h
    · exact Follows.refl h

theorem sentinelStartFailover_follows (h : Good sn)
    (hin : (sn.masters m).failoverInProgress ≠ true) (now desync : ℤ) :
    Follows sn (sentinelStartFailover sn m now desync) := by
  rw [sentinelStartFailover]
  have hstate : (sn.masters m).failoverState = .none := by
    by_contra hstate
    exact hin ((h.failover m).inProgress.mpr hstate)
  have hfollows : Follows sn (sn.setMaster m { sn.masters m with
      failoverState := .waitStart
      failoverInProgress := true
      failoverEpoch := nextEpoch sn.currentEpoch
      failoverStartTime := now + desync
      failoverStateChangeTime := now }) :=
    h.follows_move (.start hstate) (fun p hp => hp) rfl
  exact ⟨⟨hfollows.good.failover, hfollows.good.created, hfollows.good.apart⟩, hfollows.epochs⟩

theorem sentinelStartFailoverIfNeeded_follows (h : Good sn) (now desync : ℤ) :
    Follows sn (sentinelStartFailoverIfNeeded sn m now desync).1 := by
  rw [sentinelStartFailoverIfNeeded]
  split
  · exact Follows.refl h
  · split
    · exact Follows.refl h
    next hin =>
      split
      · exact Follows.refl h
      · exact sentinelStartFailover_follows h hin now desync

theorem sentinelHandleMaster_follows [LinearOrder R] {env : TimerEnv R} (h : Good sn) :
    (sentinelHandleMaster sn m env).Ensures (fun _ => False) fun p => Follows sn p.1 := by
  rw [sentinelHandleMaster]
  split
  · exact Follows.refl h
  · have hdown : Unchanged sn (sentinelCheckObjectivelyDown sn m) := Unchanged.setMaster rfl rfl
    have hfirst := hdown.follows h
    have hstart := sentinelStartFailoverIfNeeded_follows (m := m) hfirst.good env.now env.desync
    dsimp only
    generalize sentinelStartFailoverIfNeeded _ m env.now env.desync = started at hstart
    have hforced : Follows started.1 (if started.2 = true then
        sentinelAskMasterStateToOtherSentinels started.1 m true env.now
        else (started.1, [])).1 := by
      split
      · exact (sentinelAskMasterStateToOtherSentinels_unchanged started.1 m true env.now).follows
          hstart.good
      · exact Follows.refl hstart.good
    have hbefore := hfirst.trans (hstart.trans hforced)
    refine (sentinelFailoverStateMachine_follows hbefore.good).bind fun sn' hnext => ?_
    have hask := (sentinelAskMasterStateToOtherSentinels_unchanged sn' m false env.now).follows
      hnext.good
    exact hbefore.trans (hnext.trans hask)

/-! ### Masters that are reset -/

theorem createSlave_follows [DecidableEq H] (h : Good sn) (m : M) (addr : Addr H) (now : ℤ) :
    Follows sn (createSlave sn m addr now) := by
  rw [createSlave]
  split
  · exact Follows.refl h
  · have hfresh : ∀ m', sn.nextSlave ∉ (sn.masters m').refs := fun m' hmem =>
      Nat.lt_irrefl _ (h.created m' _ hmem)
    set master : Master H R := { sn.masters m with
      slaves := (sn.masters m).slaves ++ [(sn.nextSlave, newSlave addr now)] } with hmaster
    have hrefs : master.refs = (sn.masters m).refs ++ [sn.nextSlave] := by
      rw [hmaster, Master.refs, List.map_append]
      rfl
    have hfailover : master.failover.Ok sn.history := by
      refine (h.failover m).move ?_
      have hmove : (sn.masters m).failover.Move sn.history _ :=
        .create sn.nextSlave (by rw [Master.failover_refs]; exact hfresh m)
      have heq : master.failover.slaves =
          (sn.masters m).failover.slaves ++ [(sn.nextSlave, ⟨false, false, false⟩)] := by
        show List.map _ (_ ++ _) = _
        rw [List.map_append]
        rfl
      rwa [← heq] at hmove
    -- a pointer is an old one, or it is the new one and belongs to this master
    have hcases : ∀ m' p, p ∈ ((sn.setMaster m master).masters m').refs →
        p ∈ (sn.masters m').refs ∨ p = sn.nextSlave ∧ m' = m := by
      intro m' p hp
      by_cases hm : m' = m
      · rw [hm, SentinelState.setMaster_self, hrefs] at hp
        rcases List.mem_append.mp hp with hp | hp
        · exact Or.inl (hm ▸ hp)
        · exact Or.inr ⟨List.mem_singleton.mp hp, hm⟩
      · rw [SentinelState.setMaster_of_ne _ _ hm] at hp
        exact Or.inl hp
    refine ⟨⟨fun m' => ?_, fun m' p hp => ?_, fun m' m'' p hp hp' => ?_⟩, fun m' => ?_⟩
    · show ((sn.setMaster m master).masters m').failover.Ok sn.history
      by_cases hm : m' = m
      · rw [hm, SentinelState.setMaster_self]
        exact hfailover
      · rw [SentinelState.setMaster_of_ne _ _ hm]
        exact h.failover m'
    · rcases hcases m' p hp with hold | ⟨rfl, -⟩
      · exact Nat.lt_succ_of_lt (h.created m' p hold)
      · exact Nat.lt_succ_self _
    · rcases hcases m' p hp with hold | ⟨rfl, rfl⟩
      · rcases hcases m'' p hp' with hold' | ⟨rfl, -⟩
        · exact h.apart m' m'' p hold hold'
        · exact absurd hold (hfresh m')
      · rcases hcases m'' sn.nextSlave hp' with hold' | ⟨-, hm⟩
        · exact absurd hold' (hfresh m'')
        · exact hm.symm
    · show ((sn.setMaster m master).masters m').configEpoch = _
      by_cases hm : m' = m
      · rw [hm, SentinelState.setMaster_self]
      · rw [SentinelState.setMaster_of_ne _ _ hm]

theorem sentinelResetMaster_follows (h : Good sn) (m : M) (keep : Bool) (now : ℤ) :
    Follows sn (sentinelResetMaster sn m keep now) :=
  h.follows_move .reset (fun _ hp => absurd hp List.not_mem_nil) rfl

theorem sentinelResetMasterAndChangeAddress_follows [DecidableEq H] (h : Good sn) (m : M)
    (addr : Addr H) (now : ℤ) :
    Follows sn (sentinelResetMasterAndChangeAddress sn m addr now) := by
  rw [sentinelResetMasterAndChangeAddress]
  generalize slavesAfterSwitch (sn.masters m) addr = slaves
  have hreset := sentinelResetMaster_follows h m true now
  generalize sentinelResetMaster sn m true now = sn₁ at hreset
  have haddr : Unchanged sn₁ (sn₁.setMaster m { sn₁.masters m with addr, sDownSinceTime := 0 }) :=
    Unchanged.setMaster rfl rfl
  have hfollows := hreset.trans (haddr.follows hreset.good)
  dsimp only
  generalize sn₁.setMaster m _ = sn₂ at hfollows
  induction slaves generalizing sn₂ with
  | nil => exact hfollows
  | cons slave slaves ih =>
    exact ih _ (hfollows.trans (createSlave_follows hfollows.good m slave now))

theorem sentinelFailoverSwitchToPromotedSlave_follows [DecidableEq H] (h : Good sn)
    (hstate : (sn.masters m).failoverState = .updateConfig) :
    (sentinelFailoverSwitchToPromotedSlave sn m now).Ensures (fun _ => False) (Follows sn) := by
  rw [sentinelFailoverSwitchToPromotedSlave]
  obtain ⟨p, hp, hmem⟩ := h.promotedSlave (m := m) (by rw [hstate]; decide)
  refine Ensures.bind (Q := fun _ => True) ?_ fun addr _ =>
    sentinelResetMasterAndChangeAddress_follows h m addr now
  rw [hp]
  exact (Master.slaveAt_ensures hmem).bind fun _ _ => trivial

theorem sentinelProcessHelloMessage_good [DecidableEq H] [DecidableEq R] (h : Good sn)
    (hello : Hello M H R) (now : ℤ) : Good (sentinelProcessHelloMessage sn hello now) := by
  have hpeer : Unchanged sn (addPeer sn hello now) := by
    rw [addPeer]
    split
    · exact Unchanged.refl sn
    · exact Unchanged.setMaster rfl rfl
  rw [sentinelProcessHelloMessage]
  have hadded := (hpeer.follows h).good
  generalize addPeer sn hello now = sn₁ at hadded
  have hepoch : Good (if hello.currentEpoch > sn₁.currentEpoch then
      { sn₁ with currentEpoch := hello.currentEpoch } else sn₁) := by
    split
    · exact ⟨hadded.failover, hadded.created, hadded.apart⟩
    · exact hadded
  dsimp only
  generalize (if hello.currentEpoch > sn₁.currentEpoch then
    { sn₁ with currentEpoch := hello.currentEpoch } else sn₁) = sn₂ at hepoch
  split
  · have hconfig : Good (sn₂.setMaster hello.master { sn₂.masters hello.master with
        configEpoch := hello.masterConfigEpoch }) :=
      hepoch.setMaster (hepoch.failover hello.master) fun _ hp => hp
    split
    · exact (sentinelResetMasterAndChangeAddress_follows hconfig _ _ _).good
    · exact hconfig
  · exact hepoch

/-! ### Replies to `INFO` -/

/-- The role in a reply to `INFO`. -/
def reportedRole (lines : List (InfoLine H R)) : Option Role :=
  lines.foldl (fun role line => match line with
    | .role role => some role
    | _ => role) none

omit [DecidableEq M] in
theorem readSlaveLine_role (p : Slave H R × Option Role) (line : InfoLine H R) :
    (readSlaveLine p line).2 = match line with
      | .role role => some role
      | _ => p.2 := by
  cases line <;> rfl

omit [DecidableEq M] in
theorem readSlaveLine_flags (p : Slave H R × Option Role) (line : InfoLine H R) :
    (readSlaveLine p line).1.flags = p.1.flags := by
  obtain ⟨s, role⟩ := p
  cases line with
  | runId => rfl
  | slave => rfl
  | masterLinkDownSince => rfl
  | role => rfl
  | masterHost => exact (apply_ite Slave.flags _ _ _).trans (ite_self _)
  | masterPort => exact (apply_ite Slave.flags _ _ _).trans (ite_self _)
  | masterLinkStatus => exact (apply_ite Slave.flags _ _ _).trans (ite_self _)
  | slavePriority => exact (apply_ite Slave.flags _ _ _).trans (ite_self _)
  | slaveReplOffset => exact (apply_ite Slave.flags _ _ _).trans (ite_self _)

omit [DecidableEq M] in
theorem foldl_readSlaveLine (lines : List (InfoLine H R)) (p : Slave H R × Option Role) :
    (lines.foldl readSlaveLine p).1.flags = p.1.flags ∧
      (lines.foldl readSlaveLine p).2 = lines.foldl (fun role line => match line with
        | .role role => some role
        | _ => role) p.2 := by
  induction lines generalizing p with
  | nil => exact ⟨rfl, rfl⟩
  | cons line lines ih =>
    obtain ⟨hflags, hrole⟩ := ih (readSlaveLine p line)
    rw [readSlaveLine_flags] at hflags
    rw [readSlaveLine_role] at hrole
    exact ⟨hflags, hrole⟩

omit [DecidableEq M] in
theorem Good.slave_unique (h : Good sn) {p : SlaveRef} {s : Slave H R}
    (hs : (p, s) ∈ (sn.masters m).slaves) {e : SlaveRef × Slave H R}
    (he : e ∈ (sn.masters m).slaves) (hp : e.1 = p) : e.2 = s := by
  have hnodup : ((sn.masters m).slaves.map Prod.fst).Nodup :=
    (Master.failover_refs (sn.masters m) ▸ (h.failover m).nodup : (sn.masters m).refs.Nodup)
  have heq : e = (p, s) := List.inj_on_of_nodup_map hnodup he hs hp
  rw [heq]

omit [DecidableEq M] in
theorem Master.updateSlave_promoted {p : SlaveRef} {f : Slave H R → Slave H R}
    (hf : ∀ e ∈ master.slaves, e.1 = p → (f e.2).promoted = e.2.promoted) :
    (master.updateSlave p f).slaves.map (fun e => (e.1, e.2.promoted)) =
      master.slaves.map fun e => (e.1, e.2.promoted) := by
  rw [Master.updateSlave, List.map_map]
  refine List.map_congr_left fun e he => ?_
  rw [Function.comp_apply]
  split
  next hp => exact congrArg (Prod.mk e.1) (hf e he hp)
  · rfl

omit [DecidableEq M] in
theorem Master.slaveAt_memory (master : Master H R) (p : SlaveRef) :
    (master.slaveAt p).Ensures (· = .memory) fun s => (p, s) ∈ master.slaves := by
  by_cases hp : p ∈ master.refs
  · exact (Master.slaveAt_ensures hp).mono (fun _ => False.elim) fun _ hs => hs
  · rw [Master.slaveAt]
    split
    next e hfind =>
      have hkey : e.1 = p := by simpa using List.find?_some hfind
      exact absurd (List.mem_map.mpr ⟨e, List.mem_of_find?_eq_some hfind, hkey⟩) hp
    · rfl

omit [DecidableEq M] in
theorem reconfProgress_ensures [DecidableEq H] {s : Slave H R}
    (hpromoted : s.reconfSent = true ∨ s.reconfInprog = true →
      ∃ p, master.promotedSlave = some p ∧ p ∈ master.refs) :
    (reconfProgress master s).Ensures (fun _ => False) fun s' => s'.promoted = s.promoted ∧
      (¬(s.reconfSent = true ∨ s.reconfInprog = true) → s' = s) := by
  rw [reconfProgress]
  split
  next hreconf =>
    obtain ⟨p, hp, hmem⟩ := hpromoted hreconf
    refine Ensures.bind (Q := fun s' => s'.promoted = s.promoted) ?_ fun s' hs' => ?_
    · split
      · refine (Master.promoted_ensures hp hmem).bind fun _ _ => ?_
        split <;> rfl
      · rfl
    · refine ⟨?_, fun hnot => absurd hreconf hnot⟩
      split
      · exact hs'
      · exact hs'
  next hreconf => exact ⟨rfl, fun _ => rfl⟩

/-- While a promotion is awaited only the promoted slave reports the role master; others may do so
if it already did while the Sentinel was in `TILT` mode. -/
def StepOk (sn : SentinelState M H R) : Event M H R → Prop
  | .slaveInfo m p lines _ =>
    reportedRole lines = some .master → sn.tilt = false →
      (sn.masters m).failoverInProgress = true → (sn.masters m).failoverState = .waitPromotion →
        (sn.masters m).promotedSlave = some p ∨
          ∃ q, (sn.masters m).promotedSlave = some q ∧ ReportedSince sn.history q
  | _ => True

theorem slaveToMaster_good {p : SlaveRef} {now : ℤ} (h : Good sn)
    (hpromoted : (sn.masters m).failoverState = .waitPromotion →
      (sn.masters m).promotedSlave = some p ∨
        ∃ q, (sn.masters m).promotedSlave = some q ∧ ReportedSince sn.history q) :
    Good ((sn.record (.reportedMaster p)).setMaster m (slaveToMaster (sn.masters m) now)) := by
  have hrecord : Good (sn.record (.reportedMaster p)) :=
    ((Unchanged.record sn (by rintro q ⟨⟩)).follows h).good
  rw [slaveToMaster]
  split
  next hwait =>
    refine hrecord.setMaster ((hrecord.failover m).move (.turn hwait.2 ?_)) fun _ hp => hp
    intro q hq
    rcases hpromoted hwait.2 with hp | ⟨q', hq', hreported⟩
    · obtain rfl : p = q := Option.some_inj.mp (hp.symm.trans hq)
      exact ReportedSince.of_mem ((h.failover m).sent hwait.2 p hq)
    · obtain rfl : q' = q := Option.some_inj.mp (hq'.symm.trans hq)
      exact hreported.concat nofun
  · exact hrecord.setMaster (hrecord.failover m) fun _ hp => hp

/-- The configuration epoch is as before, or it is the one of a failover that has promoted. -/
def EpochKept (sn sn' : SentinelState M H R) (m : M) : Prop :=
  (sn'.masters m).configEpoch = (sn.masters m).configEpoch ∨
    (sn'.masters m).failoverState = .reconfSlaves ∧
      (sn'.masters m).configEpoch = (sn'.masters m).failoverEpoch

theorem slaveToMaster_epochKept {p : SlaveRef} {now : ℤ}
    (hepoch : master.configEpoch = (sn.masters m).configEpoch) (m' : M) :
    EpochKept sn ((sn.record (.reportedMaster p)).setMaster m (slaveToMaster master now)) m' := by
  by_cases hm : m' = m
  · rw [EpochKept, hm, SentinelState.setMaster_self, slaveToMaster]
    split
    · exact Or.inr ⟨rfl, rfl⟩
    · exact Or.inl hepoch
  · rw [EpochKept, SentinelState.setMaster_of_ne _ _ hm]
    exact Or.inl rfl

theorem reconfProgress_follows [DecidableEq H] {p : SlaveRef} {s s₂ : Slave H R} (h : Good sn)
    (hs : (p, s) ∈ (sn.masters m).slaves) (hflags : s₂.flags = s.flags)
    (hmaster : master = (sn.masters m).updateSlave p fun _ => s₂) :
    (reconfProgress master s₂).Ensures (fun _ => False) fun s₃ =>
      Follows sn (sn.setMaster m (master.updateSlave p fun _ => s₃)) := by
  have hreconf : s₂.reconfSent = true ∨ s₂.reconfInprog = true →
      FailoverState.reconfSlaves.num ≤ (sn.masters m).failoverState.num := by
    intro hsent
    have hmem : (p, s₂.flags) ∈ (sn.masters m).failover.slaves :=
      hflags ▸ List.mem_map_of_mem hs
    exact (h.failover m).reconf _ hmem hsent
  have hsecond : ∀ e ∈ master.slaves, e.1 = p → e.2 = s₂ := by
    subst hmaster
    intro e he hp
    obtain ⟨e', -, rfl⟩ := List.mem_map.mp he
    split at hp
    next heq => rw [if_pos heq]
    next heq => exact absurd hp heq
  have hold : ∀ e ∈ (sn.masters m).slaves, e.1 = p → s₂.flags = e.2.flags := by
    intro e he hp
    rw [h.slave_unique hs he hp, hflags]
  refine (reconfProgress_ensures fun hsent => ?_).imp ?_
  · obtain ⟨q, hq, hmem⟩ := h.promotedSlave (Nat.le_trans (by decide) (hreconf hsent))
    subst hmaster
    exact ⟨q, hq, (Master.refs_updateSlave _ _ _).symm ▸ hmem⟩
  · rintro s₃ ⟨hs₃, hunchanged⟩
    by_cases hsent : s₂.reconfSent = true ∨ s₂.reconfInprog = true
    · have hslaves : (master.updateSlave p fun _ => s₃).slaves.map (fun e => (e.1, e.2.promoted)) =
          (sn.masters m).slaves.map fun e => (e.1, e.2.promoted) := by
        rw [Master.updateSlave_promoted fun e he hp => by rw [hsecond e he hp, hs₃], hmaster]
        exact Master.updateSlave_promoted fun e he hp =>
          congrArg SlaveFlags.promoted (hold e he hp)
      subst hmaster
      exact h.follows_reconf (hreconf hsent) (hreconf hsent) hslaves rfl rfl
    · have hsame : Unchanged sn (sn.setMaster m (master.updateSlave p fun _ => s₃)) := by
        refine Unchanged.setMaster ?_ ?_
        · rw [Master.failover_updateSlave_of_flags _ _ fun e he hp => by
            rw [hsecond e he hp, hunchanged hsent], hmaster]
          exact Master.failover_updateSlave_of_flags _ _ hold
        · subst hmaster
          rfl
      exact hsame.follows h

theorem sentinelRefreshSlaveInfo_ensures [DecidableEq H] {p : SlaveRef}
    {lines : List (InfoLine H R)} {now : ℤ} (h : Good sn)
    (hpromoted : reportedRole lines = some .master → sn.tilt = false →
      (sn.masters m).failoverInProgress = true → (sn.masters m).failoverState = .waitPromotion →
        (sn.masters m).promotedSlave = some p ∨
          ∃ q, (sn.masters m).promotedSlave = some q ∧ ReportedSince sn.history q) :
    (sentinelRefreshSlaveInfo sn m p lines now).Ensures (· ≠ .abortFailover)
      fun sn' => Good sn' ∧ ∀ m', EpochKept sn sn' m' := by
  have hkept : ∀ {sn'}, Follows sn sn' → Good sn' ∧ ∀ m', EpochKept sn sn' m' := fun hfollows =>
    ⟨hfollows.good, fun m' => Or.inl (hfollows.epochs m')⟩
  rw [sentinelRefreshSlaveInfo]
  refine ((Master.slaveAt_memory (sn.masters m) p).mono ?_ fun _ hs => hs).bind fun s hs => ?_
  · rintro e rfl
    exact nofun
  obtain ⟨hflags, hrole⟩ := foldl_readSlaveLine lines (s, none)
  dsimp only
  generalize lines.foldl readSlaveLine (s, none) = read at hflags hrole
  obtain ⟨s₁, role⟩ := read
  obtain rfl : role = reportedRole lines := hrole
  dsimp only
  set s₂ : Slave H R := { s₁ with infoRefresh := now, roleReported := reportedRole lines }
  have hflags₂ : s₂.flags = s.flags := hflags
  set master := (sn.masters m).updateSlave p fun _ => s₂ with hmaster
  have hfailover : master.failover = (sn.masters m).failover := by
    refine Master.failover_updateSlave_of_flags _ _ fun e he hp => ?_
    rw [h.slave_unique hs he hp, hflags₂]
  have hsame : Unchanged sn (sn.setMaster m master) := Unchanged.setMaster hfailover rfl
  by_cases hmasterRole : reportedRole lines = some .master
  · rw [if_pos hmasterRole, if_pos hmasterRole]
    have hrecord : Unchanged sn (sn.record (.reportedMaster p)) :=
      Unchanged.record sn (by rintro q ⟨⟩)
    split
    · exact hkept ((hrecord.trans (Unchanged.setMaster hfailover rfl)).follows h)
    next htilt =>
      have hgood : Good (((sn.setMaster m master).record (.reportedMaster p)).setMaster m
          (slaveToMaster ((sn.setMaster m master).masters m) now)) := by
        refine slaveToMaster_good (hsame.follows h).good ?_
        rw [SentinelState.setMaster_self]
        intro hwait
        refine hpromoted hmasterRole (Bool.eq_false_iff.mpr htilt) ?_ hwait
        refine (h.failover m).inProgress.mpr ?_
        rw [show (sn.masters m).failover.state = .waitPromotion from hwait]
        exact nofun
      rw [SentinelState.setMaster_self] at hgood
      refine ⟨?_, slaveToMaster_epochKept rfl⟩
      rw [← SentinelState.setMaster_setMaster _ m master]
      exact hgood
  · rw [if_neg hmasterRole, if_neg hmasterRole]
    split
    · exact hkept (hsame.follows h)
    · split
      · refine Ensures.bind (Q := fun _ => True) ?_ fun _ _ => ?_
        · rw [checkMasterAddr]
          split
          · exact nofun
          · trivial
        · exact ((reconfProgress_follows h hs hflags₂ hmaster).mono (fun _ => False.elim)
            fun _ hnext => hnext).bind fun _ hnext => hkept hnext
      · exact hkept (hsame.follows h)

theorem sentinelRefreshMasterInfo_follows [DecidableEq H] (h : Good sn) (m : M)
    (lines : List (InfoLine H R)) (now : ℤ) :
    Follows sn (sentinelRefreshMasterInfo sn m lines now) := by
  have hline : ∀ (p : SentinelState M H R × Option Role) line, Good p.1 →
      Follows p.1 (readMasterLine m now p line).1 := by
    rintro ⟨sn, role⟩ line hp
    have hsame : ∀ runid, Unchanged sn (sn.setMaster m { sn.masters m with runid }) := fun _ =>
      Unchanged.setMaster rfl rfl
    cases line with
    | runId runid => exact (hsame (some runid)).follows hp
    | slave addr => exact createSlave_follows hp m addr now
    | role => exact Follows.refl hp
    | _ => exact Follows.refl hp
  have hlines : ∀ p : SentinelState M H R × Option Role, Good p.1 →
      Follows p.1 (lines.foldl (readMasterLine m now) p).1 := by
    induction lines with
    | nil => exact fun p hp => Follows.refl hp
    | cons line lines ih => exact fun p hp => (hline p line hp).trans (ih _ (hline p line hp).good)
  have hread := hlines (sn, none) h
  rw [sentinelRefreshMasterInfo]
  generalize lines.foldl (readMasterLine m now) (sn, none) = read at hread
  obtain ⟨sn₁, role⟩ := read
  have hsame : Unchanged sn₁ (sn₁.setMaster m { sn₁.masters m with
      roleReportedTime := if role ≠ (sn₁.masters m).roleReported then now
        else (sn₁.masters m).roleReportedTime
      roleReported := role }) := Unchanged.setMaster rfl rfl
  exact hread.trans (hsame.follows hread.good)

/-! ### Events -/

theorem sentinelFailoverCommand_follows [LinearOrder R] {choice : List SlaveRef}
    {now desync : ℤ} (h : Good sn) :
    Follows sn (sentinelFailoverCommand sn m choice now desync) := by
  rw [sentinelFailoverCommand]
  split
  · exact Follows.refl h
  next hin =>
    split
    · exact Follows.refl h
    · have hstart := sentinelStartFailover_follows h hin now desync
      generalize sentinelStartFailover sn m now desync = sn₁ at hstart
      have hsame : Unchanged sn₁ (sn₁.setMaster m { sn₁.masters m with forceFailover := true }) :=
        Unchanged.setMaster rfl rfl
      exact hstart.trans (hsame.follows hstart.good)

theorem setLink_unchanged [DecidableEq R] (sn : SentinelState M H R) (m : M)
    (disconnected : Bool) (target : Target R) :
    Unchanged sn (sn.setMaster m (setLink (sn.masters m) disconnected target)) := by
  cases target with
  | master => exact Unchanged.setMaster rfl rfl
  | slave p =>
    exact Unchanged.setMaster (Master.failover_updateSlave_of_flags _ _ fun _ _ _ => rfl) rfl
  | sentinel => exact Unchanged.setMaster rfl rfl

theorem setDown_unchanged (sn : SentinelState M H R) (m : M) (sDown : Bool) (now : ℤ)
    (target : Target R) :
    Unchanged sn (sn.setMaster m (setDown (sn.masters m) sDown now target)) := by
  cases target with
  | master => exact Unchanged.setMaster rfl rfl
  | slave p =>
    exact Unchanged.setMaster (Master.failover_updateSlave_of_flags _ _ fun _ _ _ => rfl) rfl
  | sentinel => exact Unchanged.setMaster rfl rfl

/-- Every event keeps the invariant, and the assertions of `sentinelAbortFailover` hold. -/
theorem process_ensures [DecidableEq H] [LinearOrder R] (h : Good sn) {e : Event M H R}
    (hok : StepOk sn e) :
    (process sn e).Ensures (· ≠ .abortFailover) fun sn' => Good sn' ∧
      ((∀ hello now, e ≠ .hello hello now) → ∀ m, EpochKept sn sn' m) := by
  have hkept : ∀ {sn'}, Follows sn sn' → Good sn' ∧
      ((∀ hello now, e ≠ .hello hello now) → ∀ m, EpochKept sn sn' m) := fun hfollows =>
    ⟨hfollows.good, fun _ m => Or.inl (hfollows.epochs m)⟩
  cases e with
  | timer m env =>
    refine ((sentinelHandleMaster_follows h).mono (fun _ => False.elim) fun _ hp => hp).bind ?_
    exact fun p hp => hkept hp
  | switch m now =>
    rw [process]
    split
    next hstate =>
      exact (sentinelFailoverSwitchToPromotedSlave_follows h hstate).mono (fun _ => False.elim)
        fun _ hnext => hkept hnext
    · exact hkept (Follows.refl h)
  | slaveInfo m p lines now =>
    exact (sentinelRefreshSlaveInfo_ensures h hok).imp fun sn' hnext =>
      ⟨hnext.1, fun _ => hnext.2⟩
  | masterInfo m lines now => exact hkept (sentinelRefreshMasterInfo_follows h m lines now)
  | hello hello now =>
    exact ⟨sentinelProcessHelloMessage_good h hello now, fun hne => absurd rfl (hne hello now)⟩
  | request request start => exact hkept ((isMasterDownByAddr_unchanged sn request start).follows h)
  | reply reply now =>
    have hsame : Unchanged sn (sentinelReceiveIsMasterDownReply sn reply now) :=
      Unchanged.setMaster rfl rfl
    exact hkept (hsame.follows h)
  | failover m choice now desync => exact hkept (sentinelFailoverCommand_follows h)
  | reset m now => exact hkept (sentinelResetMaster_follows h m false now)
  | link m target disconnected =>
    exact hkept ((setLink_unchanged sn m disconnected target).follows h)
  | down m target sDown now => exact hkept ((setDown_unchanged sn m sDown now target).follows h)
  | tilt tilt => exact hkept ⟨⟨h.failover, h.created, h.apart⟩, fun _ => rfl⟩

end

/-! ### Runs -/

/-- No failover has started; slaves may be known. -/
structure Initial (sn : SentinelState M H R) : Prop where
  idle : ∀ m, (sn.masters m).failoverInProgress = false ∧ (sn.masters m).failoverState = .none ∧
    (sn.masters m).promotedSlave = none
  flags : ∀ m, ∀ e ∈ (sn.masters m).slaves,
    e.2.promoted = false ∧ e.2.reconfSent = false ∧ e.2.reconfInprog = false
  nodup : ∀ m, (sn.masters m).refs.Nodup
  created : ∀ m, ∀ p ∈ (sn.masters m).refs, p < sn.nextSlave
  apart : ∀ m m' p, p ∈ (sn.masters m).refs → p ∈ (sn.masters m').refs → m = m'

theorem Initial.good (h : Initial sn) : Good sn := by
  refine ⟨fun m => ?_, h.created, h.apart⟩
  obtain ⟨hin, hstate, hnone⟩ := h.idle m
  have hflags : ∀ e ∈ (sn.masters m).failover.slaves,
      e.2.promoted = false ∧ e.2.reconfSent = false ∧ e.2.reconfInprog = false := by
    intro e he
    obtain ⟨e', he', rfl⟩ := List.mem_map.mp he
    exact h.flags m e' he'
  have hstate' : (sn.masters m).failover.state = .none := hstate
  refine ⟨(Master.failover_refs _).symm ▸ h.nodup m, ?_, fun _ => hnone, ?_, ?_, ?_, ?_, ?_⟩
  · rw [hstate', show (sn.masters m).failover.inProgress = false from hin]
    exact ⟨fun htrue => absurd htrue Bool.false_ne_true, fun hne => absurd rfl hne⟩
  · rw [hstate']
    exact fun hlate => absurd hlate (by decide)
  · intro e he
    rw [(hflags e he).1, show (sn.masters m).failover.promotedSlave = none from hnone]
    exact ⟨fun htrue => absurd htrue Bool.false_ne_true,
      fun hnone => absurd hnone.symm (Option.some_ne_none _)⟩
  · intro e he hreconf
    rw [(hflags e he).2.1, (hflags e he).2.2] at hreconf
    exact absurd (hreconf.elim id id) Bool.false_ne_true
  · rw [hstate']
    exact nofun
  · rw [hstate']
    exact fun hlate => absurd hlate (by decide)

/-- What is promised of the failover of a master. -/
structure Promotion (sn : SentinelState M H R) (m : M) : Prop where
  /-- From `RECONF_SLAVES` on the promoted slave has reported the role master. -/
  reported : FailoverState.reconfSlaves.num ≤ (sn.masters m).failoverState.num →
    ∃ p, (sn.masters m).promotedSlave = some p ∧ ReportedSince sn.history p
  /-- From `SEND_SLAVEOF_NOONE` on there is a promoted slave, and only it has the flag. -/
  promoted : FailoverState.sendSlaveofNoone.num ≤ (sn.masters m).failoverState.num →
    ∃ p, (sn.masters m).promotedSlave = some p ∧ p ∈ (sn.masters m).refs ∧
      ∀ e ∈ (sn.masters m).slaves, e.2.promoted = true ↔ e.1 = p
  /-- Slaves are reconfigured to follow a promoted slave. -/
  reconf : ∀ e ∈ (sn.masters m).slaves, e.2.reconfSent = true ∨ e.2.reconfInprog = true →
    (sn.masters m).promotedSlave ≠ none

theorem Good.promotion (h : Good sn) (m : M) : Promotion sn m := by
  have hok := h.failover m
  refine ⟨fun hlate => ?_, fun hlate => ?_, fun e he hreconf => ?_⟩
  · obtain ⟨p, hp, -⟩ := h.promotedSlave (Nat.le_trans (by decide) hlate)
    exact ⟨p, hp, hok.reported hlate p hp⟩
  · obtain ⟨p, hp, hmem⟩ := h.promotedSlave hlate
    refine ⟨p, hp, hmem, fun e he => ?_⟩
    refine (hok.promoted _ (List.mem_map_of_mem he)).trans ?_
    show (sn.masters m).promotedSlave = some e.1 ↔ e.1 = p
    rw [hp, Option.some_inj]
    exact eq_comm
  · have hlate := hok.reconf _ (List.mem_map_of_mem he) hreconf
    obtain ⟨p, hp, -⟩ := h.promotedSlave (Nat.le_trans (by decide) hlate)
    rw [hp]
    exact nofun

/-- In a run in which only promoted slaves report the role master while their promotion is awaited,
a failover goes on, and its epoch becomes the one of the configuration, only after the promoted
slave did. -/
theorem run_promotion [DecidableEq M] [DecidableEq H] [LinearOrder R]
    {sn₀ sn : SentinelState M H R} {es : List (Event M H R)} (hinit : Initial sn₀)
    (hall : AllSteps step StepOk sn₀ es) (hrun : run step sn₀ es = some sn) :
    (∀ m, Promotion sn m) ∧ ∀ e, StepOk sn e → process sn e ≠ .error .abortFailover ∧
      ((∀ hello now, e ≠ .hello hello now) → ∀ sn', step sn e = some sn' →
        ∀ m, EpochKept sn sn' m) := by
  have hgood : Good sn := by
    refine run_invariant_of_allSteps (fun sn e sn' hgood hok hstep => ?_) hinit.good hall hrun
    exact ((process_ensures hgood hok).of_eq_ok (toOption_eq_some.mp hstep)).1
  refine ⟨hgood.promotion, fun e hok => ⟨fun herror => ?_, fun hne sn' hstep => ?_⟩⟩
  · exact (process_ensures hgood hok).of_eq_error herror rfl
  · exact ((process_ensures hgood hok).of_eq_ok (toOption_eq_some.mp hstep)).2 hne

end

/-! ### Runs on concrete input -/

/-- A master that is up, at an address and with other Sentinels. -/
def monitored {R : Type} (addr : Addr ℕ) (sentinels : List (Peer ℕ R)) : Master ℕ R where
  addr
  sDown := false
  oDown := false
  disconnected := false
  failoverInProgress := false
  forceFailover := false
  runid := none
  roleReported := some .master
  roleReportedTime := 0
  sDownSinceTime := 0
  downAfterPeriod := 30000
  quorum := 1
  parallelSyncs := 1
  configEpoch := 0
  leader := none
  leaderEpoch := 0
  failoverEpoch := 0
  failoverState := .none
  failoverStateChangeTime := 0
  failoverStartTime := 0
  failoverTimeout := 180000
  slaves := []
  sentinels
  promotedSlave := none

/-- A Sentinel that is alone and monitors one master. -/
def soleSentinel : SentinelState Unit ℕ ℕ where
  runid := 9
  currentEpoch := 0
  tilt := false
  names := [()]
  nextSlave := 0
  history := []
  masters _ := monitored ⟨1, 6379⟩ []

theorem initial_soleSentinel : Initial soleSentinel :=
  ⟨fun _ => ⟨rfl, rfl, rfl⟩, fun _ _ he => absurd he List.not_mem_nil, fun _ => List.nodup_nil,
    fun _ _ hp => absurd hp List.not_mem_nil, fun _ _ _ _ _ => rfl⟩

/-- The timer a million seconds after the start. -/
def lateTimer : Event Unit ℕ ℕ :=
  .timer () { now := 1000000, order := [], choice := [], accepted := fun _ => true, start := 0,
              desync := 0 }

/-- The master has two slaves and goes down; the first slave is promoted. -/
def firstPromoted : List (Event Unit ℕ ℕ) :=
  [.masterInfo () [.role .master, .slave ⟨2, 6379⟩, .slave ⟨3, 6379⟩] 1000000,
    .link () (.slave 0) false, .link () (.slave 1) false,
    .slaveInfo () 0 [.role .slave, .masterHost 1, .masterPort 6379] 1000000,
    .slaveInfo () 1 [.role .slave, .masterHost 1, .masterPort 6379] 1000000,
    .down () .master true 1000000, lateTimer, lateTimer, lateTimer]

/-- The promoted slave reports the role master. -/
def promotedReports : List (Event Unit ℕ ℕ) :=
  firstPromoted ++ [.slaveInfo () 0 [.role .master] 1000000]

/-- The other slave does. -/
def otherReports : List (Event Unit ℕ ℕ) :=
  firstPromoted ++ [.slaveInfo () 1 [.role .master] 1000000]

theorem exists_of_map_run {α : Type} {f : SentinelState Unit ℕ ℕ → α} {a : α}
    {es : List (Event Unit ℕ ℕ)} (h : (run step soleSentinel es).map f = some a) :
    ∃ sn, run step soleSentinel es = some sn ∧ f sn = a :=
  Option.map_eq_some_iff.mp h

theorem allSteps_promotedReports : AllSteps step StepOk soleSentinel promotedReports := by
  obtain ⟨sn, hrun, hpromoted⟩ : ∃ sn, run step soleSentinel firstPromoted = some sn ∧
      (sn.masters ()).promotedSlave = some 0 := exists_of_map_run (by decide)
  refine AllSteps.concat (AllSteps.of_forall ?_) hrun fun _ _ _ _ => Or.inl hpromoted
  -- no slave reports the role master before
  have hrole : reportedRole [(.role .slave : InfoLine ℕ ℕ), .masterHost 1, .masterPort 6379] ≠
      some .master := by decide
  simp only [firstPromoted, lateTimer, List.forall_mem_cons]
  exact ⟨fun _ => trivial, fun _ => trivial, fun _ => trivial, fun _ h => absurd h hrole,
    fun _ h => absurd h hrole, fun _ => trivial, fun _ => trivial, fun _ => trivial,
    fun _ => trivial, nofun⟩

/-- The failover goes on. -/
theorem run_promotion_promotedReports : ∃ sn, run step soleSentinel promotedReports = some sn ∧
    (sn.masters ()).failoverState = .reconfSlaves ∧ Promotion sn () := by
  obtain ⟨sn, hrun, hstate⟩ : ∃ sn, run step soleSentinel promotedReports = some sn ∧
      (sn.masters ()).failoverState = .reconfSlaves := exists_of_map_run (by decide)
  exact ⟨sn, hrun, hstate, (run_promotion initial_soleSentinel allSteps_promotedReports hrun).1 ()⟩

/-- The failover goes on though the promoted slave has reported nothing. -/
theorem not_run_promotion : ¬∀ (sn₀ sn : SentinelState Unit ℕ ℕ) (es : List (Event Unit ℕ ℕ)),
    Initial sn₀ → run step sn₀ es = some sn → ∀ m, Promotion sn m := by
  intro hall
  obtain ⟨sn, hrun, hsn⟩ : ∃ sn, run step soleSentinel otherReports = some sn ∧
      ((sn.masters ()).failoverState, (sn.masters ()).promotedSlave,
        decide (.reportedMaster 0 ∈ sn.history)) = (.reconfSlaves, some 0, false) :=
    exists_of_map_run (by decide)
  obtain ⟨hstate, hrest⟩ := Prod.mk.inj hsn
  obtain ⟨hpromoted, hhistory⟩ := Prod.mk.inj hrest
  have hpromotion := hall soleSentinel sn otherReports initial_soleSentinel hrun ()
  obtain ⟨p, hp, l₁, l₂, hl, -, hmem⟩ := hpromotion.reported (Nat.le_of_eq (by rw [hstate]))
  obtain rfl : 0 = p := Option.some_inj.mp (hpromoted.symm.trans hp)
  refine of_decide_eq_false hhistory ?_
  rw [hl]
  exact List.mem_append_right _ (List.mem_cons_of_mem _ hmem)

end Sentinel

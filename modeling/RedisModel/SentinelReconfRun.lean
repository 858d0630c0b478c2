/-
The phase `RECONF_SLAVES` of a failover over whole runs.

* `reconfNextSlave_eq`, `refreshSlaveInfo_eq` — the functions without the commands;
* `ReconfPhase` — what holds as long as the phase lasts;
* `tick_spec` — what a tick sends, and when the phase ends;
* `reconf_phase` — when a tick of a run is right.
-/
import RedisModel.SentinelFailoverRun
import RedisModel.SentinelReconf

open Except Runs

namespace Sentinel

section
variable {M H R : Type}

/-! ### The functions without the commands -/

theorem map_cons (done : List (SlaveRef × Slave H R)) (e : SlaveRef × Slave H R)
    (x : Except Fault (List (SlaveRef × Slave H R))) :
    (x >>= fun slaves => .ok (e :: slaves)).map (done ++ ·) = x.map (done ++ [e] ++ ·) := by
  cases x with
  | error fault => rfl
  | ok slaves => exact congrArg Except.ok (List.append_assoc done [e] slaves).symm

theorem reconfLoop_map (master : Master H R) (accepted : SlaveRef → Bool) (now : ℤ)
    (done : List (SlaveRef × Slave H R)) (inProgress : ℤ) (rest : List (SlaveRef × Slave H R)) :
    (reconfLoop master accepted now done inProgress rest).map Prod.fst =
      (reconfSlaves master accepted now inProgress rest).map (done ++ ·) := by
  induction rest generalizing done inProgress with
  | nil => exact congrArg Except.ok (List.append_nil done).symm
  | cons e rest ih =>
    rw [reconfLoop, reconfSlaves]
    split
    · rfl
    · split
      · rw [ih, map_cons]
      · dsimp only
        split
        · rw [ih, map_cons]
        · cases master.promoted with
          | error fault => rfl
          | ok promoted =>
            rw [ok_bind, ok_bind]
            split
            · have hrest := ih (done ++ [(e.1, markSent now (reconfTimeout now e.2))])
                (inProgress + 1)
              refine Eq.trans ?_ (hrest.trans (map_cons done _ _).symm)
              cases reconfLoop master accepted now _ (inProgress + 1) rest <;> rfl
            · rw [ih, map_cons]

theorem bestEffort_fst (addr : Addr H) (accepted : SlaveRef → Bool)
    (done rest : List (SlaveRef × Slave H R)) : (bestEffort addr accepted done rest).1 =
      done ++ rest.map fun e =>
        if e.2.reconfDone ∨ e.2.reconfSent ∨ e.2.disconnected ∨ ¬accepted e.1 then e
        else (e.1, { e.2 with reconfSent := true }) := by
  induction rest generalizing done with
  | nil => exact (List.append_nil done).symm
  | cons e rest ih =>
    rw [bestEffort, List.map_cons]
    split
    · rw [ih, List.append_assoc]
      rfl
    · dsimp only
      rw [ih, List.append_assoc]
      rfl

section
variable [DecidableEq M]

theorem detectEnd_eq (sn : SentinelState M H R) (m : M) (accepted : SlaveRef → Bool) (now : ℤ) :
    sentinelFailoverDetectEnd sn m accepted now =
      (detectEnd (sn.masters m) accepted now).map fun r => sn.setMaster m r.1 := by
  have hsame : sn.setMaster m (sn.masters m) = sn := by
    unfold SentinelState.setMaster
    rw [Function.update_eq_self]
  unfold sentinelFailoverDetectEnd detectEnd timedOut notReconfigured
  cases hp : (sn.masters m).promotedSlave with
  | none =>
    simp only [hp]
    exact congrArg Except.ok hsame.symm
  | some p =>
    simp only [hp]
    cases (sn.masters m).slaveAt p with
    | error fault => rfl
    | ok promoted =>
      rw [ok_bind, ok_bind]
      split
      · exact congrArg Except.ok hsame.symm
      · by_cases htimeout : now - (sn.masters m).failoverStateChangeTime >
            (sn.masters m).failoverTimeout
        · simp only [decide_eq_true htimeout, if_true, Except.map, bestEffort_fst, List.nil_append]
        · simp only [decide_eq_false htimeout, Bool.false_eq_true, if_false]
          split
          · rfl
          · exact congrArg Except.ok (congrArg _ rfl)

theorem reconfNextSlave_eq (sn : SentinelState M H R) (m : M) (accepted : SlaveRef → Bool)
    (now : ℤ) : sentinelFailoverReconfNextSlave sn m accepted now =
      (reconfNextSlave (sn.masters m) accepted now).map fun r => sn.setMaster m r.master := by
  have hloop := reconfLoop_map (sn.masters m) accepted now [] (busy (sn.masters m).slaves)
    (sn.masters m).slaves
  unfold sentinelFailoverReconfNextSlave reconfNextSlave
  unfold busy at hloop ⊢
  cases hl : reconfLoop (sn.masters m) accepted now []
      ((sn.masters m).slaves.countP fun e => e.2.reconfSent || e.2.reconfInprog)
      (sn.masters m).slaves with
  | error fault =>
    cases hr : reconfSlaves (sn.masters m) accepted now
        ((sn.masters m).slaves.countP fun e => e.2.reconfSent || e.2.reconfInprog)
        (sn.masters m).slaves with
    | error fault' =>
      rw [hl, hr] at hloop
      obtain rfl := Except.error.inj hloop
      simp only [hr]
      rfl
    | ok slaves =>
      rw [hl, hr] at hloop
      cases hloop
  | ok r =>
    cases hr : reconfSlaves (sn.masters m) accepted now
        ((sn.masters m).slaves.countP fun e => e.2.reconfSent || e.2.reconfInprog)
        (sn.masters m).slaves with
    | error fault =>
      rw [hl, hr] at hloop
      cases hloop
    | ok slaves =>
      rw [hl, hr] at hloop
      have hslaves : r.1 = slaves := Except.ok.inj hloop
      simp only [hr]
      rw [ok_bind, ok_bind, detectEnd_eq, SentinelState.setMaster_self, hslaves]
      cases detectEnd { sn.masters m with slaves } accepted now with
      | error fault => rfl
      | ok d => exact congrArg Except.ok (SentinelState.setMaster_setMaster sn m _ _)

theorem refreshSlaveInfo_eq [DecidableEq H] (sn : SentinelState M H R) (m : M) (p : SlaveRef)
    (lines : List (InfoLine H R)) (now : ℤ) :
    (sentinelRefreshSlaveInfo sn m p lines now).map (fun sn' => sn'.masters m) =
      refreshSlaveInfo sn.tilt (sn.masters m) p lines now := by
  unfold sentinelRefreshSlaveInfo refreshSlaveInfo
  cases hs : (sn.masters m).slaveAt p with
  | error fault =>
    simp only [hs]
    rfl
  | ok s =>
    simp only [hs, ok_bind]
    generalize lines.foldl readSlaveLine (s, none) = read
    have htilt : ∀ role : Option Role,
        (if role = some .master then sn.record (.reportedMaster p) else sn).tilt = sn.tilt := by
      intro role
      split <;> rfl
    rw [htilt]
    cases sn.tilt with
    | true => exact congrArg Except.ok (SentinelState.setMaster_self _ m _)
    | false =>
      simp only [Bool.false_eq_true, if_false]
      split
      · exact congrArg Except.ok (SentinelState.setMaster_self _ m _)
      · split
        · cases checkMasterAddr ((sn.masters m).updateSlave p fun _ =>
              { read.1 with infoRefresh := now, roleReported := read.2 })
              { read.1 with infoRefresh := now, roleReported := read.2 } with
          | error fault => rfl
          | ok u =>
            rw [ok_bind, ok_bind]
            cases reconfProgress ((sn.masters m).updateSlave p fun _ =>
                { read.1 with infoRefresh := now, roleReported := read.2 })
                { read.1 with infoRefresh := now, roleReported := read.2 } with
            | error fault => rfl
            | ok s => exact congrArg Except.ok (SentinelState.setMaster_self _ m _)
        · exact congrArg Except.ok (SentinelState.setMaster_self _ m _)

end

/-! ### The phase -/

/-- Which slaves there are, and which of them has the flag `SRI_PROMOTED`. -/
def marks (slaves : List (SlaveRef × Slave H R)) : List (SlaveRef × Bool) :=
  slaves.map fun e => (e.1, e.2.promoted)

/-- The slave that was promoted is in the table, and is the only one with the flag. -/
structure PromotedAt (slaves : List (SlaveRef × Slave H R)) (p : SlaveRef) : Prop where
  nodup : (slaves.map Prod.fst).Nodup
  mem : p ∈ slaves.map Prod.fst
  promoted : ∀ e ∈ slaves, e.2.promoted = true ↔ e.1 = p

structure ReconfPhase (master : Master H R) : Prop where
  state : master.failoverState = .reconfSlaves
  promoted : ∃ p, master.promotedSlave = some p ∧ PromotedAt master.slaves p

theorem refs_eq_of_marks {slaves slaves' : List (SlaveRef × Slave H R)}
    (h : marks slaves' = marks slaves) : slaves'.map Prod.fst = slaves.map Prod.fst := by
  have hfst : ∀ l : List (SlaveRef × Slave H R), (marks l).map Prod.fst = l.map Prod.fst :=
    fun l => by rw [marks, List.map_map]; rfl
  rw [← hfst, h, hfst]

theorem PromotedAt.of_marks {slaves slaves' : List (SlaveRef × Slave H R)} {p : SlaveRef}
    (h : PromotedAt slaves p) (hmarks : marks slaves' = marks slaves) : PromotedAt slaves' p := by
  have hrefs := refs_eq_of_marks hmarks
  refine ⟨hrefs ▸ h.nodup, hrefs ▸ h.mem, fun e he => ?_⟩
  have hmem : (e.1, e.2.promoted) ∈ marks slaves := hmarks ▸ List.mem_map_of_mem he
  obtain ⟨e', he', heq⟩ := List.mem_map.mp hmem
  obtain ⟨hkey, hflag⟩ := Prod.mk.inj heq
  rw [← hflag, ← hkey]
  exact h.promoted e' he'

theorem slaveAt_of_mem {master : Master H R} (hnodup : (master.slaves.map Prod.fst).Nodup)
    {p : SlaveRef} {s : Slave H R} (h : (p, s) ∈ master.slaves) : master.slaveAt p = .ok s := by
  have hmem : p ∈ master.refs := List.mem_map.mpr ⟨(p, s), h, rfl⟩
  obtain ⟨s', hs', hmem'⟩ := (Master.slaveAt_ensures hmem).returns
  have heq := List.inj_on_of_nodup_map hnodup hmem' h rfl
  rw [hs', (Prod.mk.inj heq).2]

theorem PromotedAt.exists_slave {slaves : List (SlaveRef × Slave H R)} {p : SlaveRef}
    (h : PromotedAt slaves p) : ∃ s, (p, s) ∈ slaves ∧ s.promoted = true := by
  obtain ⟨e, he, rfl⟩ := List.mem_map.mp h.mem
  exact ⟨e.2, he, (h.promoted e he).mpr rfl⟩

/-! ### A tick -/

section
variable {master : Master H R} {accepted : SlaveRef → Bool} {now : ℤ}

theorem busy_append (l l' : List (SlaveRef × Slave H R)) : busy (l ++ l') = busy l + busy l' :=
  List.countP_append

theorem busy_cons (e : SlaveRef × Slave H R) (l : List (SlaveRef × Slave H R)) :
    busy (e :: l) = busy l + if (e.2.reconfSent || e.2.reconfInprog) = true then 1 else 0 :=
  List.countP_cons

theorem marks_append (l l' : List (SlaveRef × Slave H R)) : marks (l ++ l') = marks l ++ marks l' :=
  List.map_append

theorem reconfTimeout_spec (now : ℤ) (s : Slave H R) : (reconfTimeout now s).promoted = s.promoted ∧
    (reconfTimeout now s).reconfInprog = s.reconfInprog ∧
    ((reconfTimeout now s).reconfSent = true → s.reconfSent = true) := by
  rw [reconfTimeout]
  split
  · exact ⟨rfl, rfl, fun h => absurd h Bool.false_ne_true⟩
  · exact ⟨rfl, rfl, id⟩

theorem busy_reconfTimeout (now : ℤ) (e : SlaveRef × Slave H R) (l : List (SlaveRef × Slave H R)) :
    busy ((e.1, reconfTimeout now e.2) :: l) ≤ busy (e :: l) := by
  obtain ⟨-, hinprog, hsent⟩ := reconfTimeout_spec now e.2
  rw [busy_cons, busy_cons]
  refine Nat.add_le_add_left ?_ _
  split
  · rename_i hbusy
    rw [if_pos]
    rw [Bool.or_eq_true, hinprog] at hbusy
    rw [Bool.or_eq_true]
    exact hbusy.imp_left hsent
  · exact Nat.zero_le _

/-- What the loop of `sentinelFailoverReconfNextSlave` does: it leaves the marks and the promoted
slave, and a command makes no more slaves busy than there may be. -/
structure Looped (master : Master H R) (done rest : List (SlaveRef × Slave H R))
    (r : List (SlaveRef × Slave H R) × List (Sent H R)) : Prop where
  marks : marks r.1 = marks (done ++ rest)
  before : ∀ e ∈ done, e ∈ r.1
  promoted : ∀ e ∈ rest, e.2.promoted = true → e ∈ r.1
  sent : ∀ c ∈ r.2, (busy c.slaves : ℤ) ≤ master.parallelSyncs ∧
    ∃ e ∈ rest, e.1 = c.slave ∧ e.2.promoted = false

theorem Looped.cons {done rest : List (SlaveRef × Slave H R)} {e e' : SlaveRef × Slave H R}
    {r : List (SlaveRef × Slave H R) × List (Sent H R)} (h : Looped master (done ++ [e']) rest r)
    (hkey : e'.1 = e.1) (hflag : e'.2.promoted = e.2.promoted)
    (hsame : e.2.promoted = true → e' = e) : Looped master done (e :: rest) r where
  marks := by
    have hmark : (e'.1, e'.2.promoted) = (e.1, e.2.promoted) := by rw [hkey, hflag]
    rw [h.marks, List.append_assoc, marks_append, marks_append, marks_append]
    exact congrArg (fun x => Sentinel.marks done ++ x :: Sentinel.marks rest) hmark
  before x hx := h.before x (List.mem_append_left _ hx)
  promoted x hx hpromoted := by
    obtain rfl | hx := List.mem_cons.mp hx
    · exact hsame hpromoted ▸ h.before e' (List.mem_append_right _ (List.mem_singleton_self e'))
    · exact h.promoted x hx hpromoted
  sent c hc := by
    obtain ⟨hbusy, x, hx, hslave⟩ := h.sent c hc
    exact ⟨hbusy, x, List.mem_cons_of_mem e hx, hslave⟩

theorem reconfLoop_spec {promoted : Slave H R} (hpromoted : master.promoted = .ok promoted)
    (done : List (SlaveRef × Slave H R)) (inProgress : ℤ) (rest : List (SlaveRef × Slave H R))
    (hbusy : (busy (done ++ rest) : ℤ) ≤ inProgress) :
    (reconfLoop master accepted now done inProgress rest).Ensures (fun _ => False)
      (Looped master done rest) := by
  induction rest generalizing done inProgress with
  | nil =>
    rw [reconfLoop, ensures_ok]
    exact ⟨by rw [List.append_nil], fun e he => he, fun e he => absurd he List.not_mem_nil,
      fun c hc => absurd hc List.not_mem_nil⟩
  | cons e rest ih =>
    rw [reconfLoop]
    split
    · rw [ensures_ok]
      exact ⟨rfl, fun x hx => List.mem_append_left _ hx, fun x hx _ => List.mem_append_right _ hx,
        fun c hc => absurd hc List.not_mem_nil⟩
    · rename_i hroom
      split
      · refine (ih (done ++ [e]) inProgress (by rwa [List.append_assoc])).imp fun r hr => ?_
        exact hr.cons rfl rfl fun _ => rfl
      · rename_i hskip
        have hnot : e.2.promoted = false := by
          rw [← Bool.not_eq_true]
          exact fun h => hskip (.inl h)
        obtain ⟨hflag, -, -⟩ := reconfTimeout_spec now e.2
        have hnext : (busy (done ++ [(e.1, reconfTimeout now e.2)] ++ rest) : ℤ) ≤ inProgress := by
          rw [List.append_assoc, List.singleton_append, busy_append]
          rw [busy_append] at hbusy
          have := busy_reconfTimeout now e rest
          omega
        dsimp only
        split
        · refine (ih (done ++ [(e.1, reconfTimeout now e.2)]) inProgress hnext).imp fun r hr => ?_
          exact hr.cons rfl hflag fun h => by rw [hnot] at h; cases h
        · rename_i hfree
          rw [hpromoted, ok_bind]
          split
          · have hcount : (busy (done ++ (e.1, markSent now (reconfTimeout now e.2)) :: rest) : ℤ) ≤
                inProgress + 1 := by
              rw [List.append_assoc, busy_append, List.singleton_append, busy_cons] at hnext
              rw [busy_append, busy_cons, if_pos (by rfl)]
              omega
            rw [List.append_cons] at hcount
            refine (ih _ (inProgress + 1) hcount).bind fun r hr => ?_
            rw [ensures_ok]
            have hcons : Looped master done (e :: rest) r :=
              hr.cons rfl hflag fun h => by rw [hnot] at h; cases h
            refine ⟨hcons.marks, hcons.before, hcons.promoted, fun c hc => ?_⟩
            obtain rfl | hc := List.mem_cons.mp hc
            · refine ⟨?_, e, List.mem_cons_self, rfl, hnot⟩
              dsimp only
              rw [List.append_cons]
              omega
            · exact hcons.sent c hc
          · refine (ih (done ++ [(e.1, reconfTimeout now e.2)]) inProgress hnext).imp fun r hr => ?_
            exact hr.cons rfl hflag fun h => by rw [hnot] at h; cases h

/-- A slave to which the last round sends a command. -/
def Sendable (accepted : SlaveRef → Bool) (e : SlaveRef × Slave H R) : Prop :=
  ¬(e.2.reconfDone ∨ e.2.reconfSent ∨ e.2.disconnected ∨ ¬accepted e.1)

theorem bestEffort_sent (addr : Addr H) (done rest : List (SlaveRef × Slave H R)) :
    (∀ c ∈ (bestEffort addr accepted done rest).2, c.addr = addr ∧
      ∃ e ∈ rest, e.1 = c.slave ∧ Sendable accepted e) ∧
    ∀ e ∈ rest, Sendable accepted e →
      ∃ c ∈ (bestEffort addr accepted done rest).2, c.slave = e.1 ∧ c.addr = addr := by
  induction rest generalizing done with
  | nil => exact ⟨fun c hc => absurd hc List.not_mem_nil, fun e he => absurd he List.not_mem_nil⟩
  | cons e rest ih =>
    rw [bestEffort]
    split
    · rename_i hskip
      obtain ⟨hsent, hall⟩ := ih (done ++ [e])
      refine ⟨fun c hc => ?_, fun x hx hsendable => ?_⟩
      · obtain ⟨haddr, x, hx, hslave⟩ := hsent c hc
        exact ⟨haddr, x, List.mem_cons_of_mem e hx, hslave⟩
      · obtain rfl | hx := List.mem_cons.mp hx
        · exact absurd hskip hsendable
        · exact hall x hx hsendable
    · rename_i hsend
      dsimp only
      obtain ⟨hsent, hall⟩ := ih (done ++ [(e.1, { e.2 with reconfSent := true })])
      refine ⟨fun c hc => ?_, fun x hx hsendable => ?_⟩
      · obtain rfl | hc := List.mem_cons.mp hc
        · exact ⟨rfl, e, List.mem_cons_self, rfl, hsend⟩
        · obtain ⟨haddr, x, hx, hslave⟩ := hsent c hc
          exact ⟨haddr, x, List.mem_cons_of_mem e hx, hslave⟩
      · obtain rfl | hx := List.mem_cons.mp hx
        · exact ⟨_, List.mem_cons_self, rfl, rfl⟩
        · obtain ⟨c, hc, hslave⟩ := hall x hx hsendable
          exact ⟨c, List.mem_cons_of_mem _ hc, hslave⟩

/-- What a tick may do: no command tells the promoted slave to replicate from itself; no command but
those of the last round makes too many slaves busy; the last round comes after the timeout, and ends
the phase; and else the phase ends when the slaves are reconfigured. -/
structure TickRight (master : Master H R) (now : ℤ) (r : Tick H R) : Prop where
  own : ∀ c ∈ r.limited ++ r.lastRound, ∀ p s, master.promotedSlave = some p →
    (p, s) ∈ master.slaves → ¬(c.slave = p ∧ c.addr = s.addr)
  limit : ∀ c ∈ r.limited, (busy c.slaves : ℤ) ≤ master.parallelSyncs
  round : r.lastRound ≠ [] →
    timedOut master now = true ∧ r.master.failoverState = .updateConfig
  ended : r.master.failoverState = .updateConfig → timedOut master now = true ∨
    ∀ e ∈ r.master.slaves, e.2.promoted = false → e.2.sDown = false → e.2.reconfDone = true

/-- The failover has not timed out; or the promoted slave is down, or the last round skips it. -/
def TickOk (master : Master H R) (accepted : SlaveRef → Bool) (now : ℤ) : Prop :=
  ∀ p s, master.promotedSlave = some p → (p, s) ∈ master.slaves →
    ¬(timedOut master now = true ∧ s.sDown = false ∧ Sendable accepted (p, s))

theorem detectEnd_spec {p : SlaveRef} {s : Slave H R} (hp : master.promotedSlave = some p)
    (hs : master.slaveAt p = .ok s) : detectEnd master accepted now = .ok (
      if s.sDown then (master, [])
      else if timedOut master now then
        ({ master with
          failoverState := .updateConfig
          failoverStateChangeTime := now
          slaves := (bestEffort s.addr accepted [] master.slaves).1 },
          (bestEffort s.addr accepted [] master.slaves).2)
      else if notReconfigured master = 0 then
        ({ master with failoverState := .updateConfig, failoverStateChangeTime := now }, [])
      else (master, [])) := by
  unfold detectEnd
  rw [hp]
  dsimp only
  rw [hs, ok_bind]
  split
  · rfl
  · split
    · rfl
    · split <;> rfl

theorem done_of_notReconfigured (h : notReconfigured master = 0) {e : SlaveRef × Slave H R}
    (he : e ∈ master.slaves) (hpromoted : e.2.promoted = false) (hdown : e.2.sDown = false) :
    e.2.reconfDone = true := by
  have hcount := List.countP_eq_zero.mp h e he
  rw [hpromoted, hdown] at hcount
  simpa using hcount

theorem tick_spec (h : ReconfPhase master) (accepted : SlaveRef → Bool) (now : ℤ) :
    (reconfNextSlave master accepted now).Ensures (fun _ => False) fun r =>
      (TickRight master now r ↔ TickOk master accepted now) ∧
        (ReconfPhase r.master ∨ r.master.failoverState = .updateConfig) := by
  obtain ⟨hstate, p, hp, hat⟩ := h
  obtain ⟨s, hs, hflag⟩ := hat.exists_slave
  have hpromoted : master.promoted = .ok s := by
    rw [Master.promoted, hp]
    exact slaveAt_of_mem hat.nodup hs
  refine (reconfLoop_spec hpromoted [] _ master.slaves le_rfl).bind fun r hr => ?_
  have hat' : PromotedAt r.1 p := hat.of_marks hr.marks
  have hs' : (p, s) ∈ r.1 := hr.promoted (p, s) hs hflag
  have hunique : ∀ q t, master.promotedSlave = some q → (q, t) ∈ master.slaves → q = p ∧ t = s := by
    intro q t hq ht
    obtain rfl := Option.some_inj.mp (hp.symm.trans hq)
    exact ⟨rfl, (Prod.mk.inj (List.inj_on_of_nodup_map hat.nodup ht hs rfl)).2⟩
  have hlimited : ∀ c ∈ r.2, c.slave ≠ p := by
    intro c hc heq
    obtain ⟨-, e, he, hslave, hnot⟩ := hr.sent c hc
    rw [(hat.promoted e he).mpr (hslave.trans heq)] at hnot
    cases hnot
  -- The failover as the loop leaves it.
  have hend : ∀ looped : Master H R, looped = { master with slaves := r.1 } →
      (detectEnd looped accepted now >>= fun d => .ok (⟨d.1, r.2, d.2⟩ : Tick H R)).Ensures
        (fun _ => False) fun t => (TickRight master now t ↔ TickOk master accepted now) ∧
          (ReconfPhase t.master ∨ t.master.failoverState = .updateConfig) := by
    intro looped hlooped
    have hfields : looped.promotedSlave = some p ∧ looped.slaves = r.1 ∧
        looped.failoverState = .reconfSlaves ∧ timedOut looped now = timedOut master now := by
      subst hlooped
      exact ⟨hp, rfl, hstate, rfl⟩
    obtain ⟨hp', hslaves, hstate', htimedOut⟩ := hfields
    have hphase : ReconfPhase looped := ⟨hstate', p, hp', hslaves ▸ hat'⟩
    rw [detectEnd_spec hp' (slaveAt_of_mem (hslaves ▸ hat'.nodup) (hslaves ▸ hs')), ok_bind,
      ensures_ok, htimedOut, hslaves]
    have hquiet : ∀ t : Master H R, TickRight master now ⟨t, r.2, []⟩ ↔
        (t.failoverState = .updateConfig → timedOut master now = true ∨
          ∀ e ∈ t.slaves, e.2.promoted = false → e.2.sDown = false → e.2.reconfDone = true) :=
      fun t => ⟨TickRight.ended, fun ht => ⟨fun c hc q u hq hu heq => by
        rw [List.append_nil] at hc
        exact hlimited c hc (heq.1.trans (hunique q u hq hu).1),
        fun c hc => (hr.sent c hc).1, fun h => absurd rfl h, ht⟩⟩
    by_cases hdown : s.sDown = true
    · rw [if_pos hdown]
      refine ⟨iff_of_true ((hquiet looped).mpr fun h => ?_) fun q u hq hu h => ?_, .inl hphase⟩
      · rw [hstate'] at h
        cases h
      · rw [(hunique q u hq hu).2, hdown] at h
        cases h.2.1
    · rw [if_neg hdown]
      by_cases htimeout : timedOut master now = true
      · rw [if_pos htimeout]
        obtain ⟨hround, hall⟩ := @bestEffort_sent H R accepted s.addr [] r.1
        refine ⟨⟨fun h q u hq hu hout => ?_, fun hok => ?_⟩, .inr rfl⟩
        · obtain ⟨rfl, rfl⟩ := hunique q u hq hu
          obtain ⟨c, hc, hslave, haddr⟩ := hall (q, u) hs' hout.2.2
          exact h.own c (List.mem_append_right _ hc) q u hq hu ⟨hslave, haddr⟩
        · refine ⟨fun c hc q u hq hu heq => ?_, fun c hc => (hr.sent c hc).1,
            fun _ => ⟨htimeout, rfl⟩, fun _ => .inl htimeout⟩
          obtain ⟨rfl, rfl⟩ := hunique q u hq hu
          obtain hc | hc := List.mem_append.mp hc
          · exact hlimited c hc heq.1
          · obtain ⟨-, e, he, hslave, hsendable⟩ := hround c hc
            have hkey : e = (q, u) :=
              List.inj_on_of_nodup_map hat'.nodup he hs' (hslave.trans heq.1)
            exact hok q u hq hu ⟨htimeout, Bool.not_eq_true _ ▸ hdown, hkey ▸ hsendable⟩
      · rw [if_neg htimeout]
        have hok : TickOk master accepted now := fun q u _ _ h => htimeout h.1
        split
        · rename_i hnot
          refine ⟨iff_of_true ((hquiet _).mpr fun _ => .inr fun e he => ?_) hok, .inr rfl⟩
          exact done_of_notReconfigured hnot (by rw [hslaves]; exact he)
        · refine ⟨iff_of_true ((hquiet looped).mpr fun h => ?_) hok, .inl hphase⟩
          rw [hstate'] at h
          cases h
  exact hend _ rfl

end

/-! ### Runs -/

theorem Good.reconfPhase {sn : SentinelState M H R} (h : Good sn) {m : M}
    (hstate : (sn.masters m).failoverState = .reconfSlaves) : ReconfPhase (sn.masters m) := by
  have hok := h.failover m
  have hlate : FailoverState.sendSlaveofNoone.num ≤ (sn.masters m).failover.state.num := by
    rw [show (sn.masters m).failover.state = .reconfSlaves from hstate]
    decide
  obtain ⟨p, hp, hmem⟩ := hok.chosen hlate
  have hrefs : (sn.masters m).failover.slaves.map Prod.fst = (sn.masters m).slaves.map Prod.fst :=
    Master.failover_refs (sn.masters m)
  refine ⟨hstate, p, hp, hrefs ▸ hok.nodup, hrefs ▸ hmem, fun e he => ?_⟩
  refine (hok.promoted (e.1, e.2.flags) (List.mem_map_of_mem he)).trans ?_
  rw [hp, Option.some_inj]
  exact eq_comm

theorem ReconfPhase.of_marks {master master' : Master H R} (h : ReconfPhase master)
    (hstate : master'.failoverState = master.failoverState)
    (hp : master'.promotedSlave = master.promotedSlave)
    (hmarks : marks master'.slaves = marks master.slaves) : ReconfPhase master' := by
  obtain ⟨hreconf, p, hpromoted, hat⟩ := h
  exact ⟨hstate.trans hreconf, p, hp.trans hpromoted, hat.of_marks hmarks⟩

theorem ReconfPhase.updateSlave {master : Master H R} (h : ReconfPhase master) {p : SlaveRef}
    {f : Slave H R → Slave H R}
    (hf : ∀ e ∈ master.slaves, e.1 = p → (f e.2).promoted = e.2.promoted) :
    ReconfPhase (master.updateSlave p f) :=
  h.of_marks rfl rfl (Master.updateSlave_promoted hf)

section
variable [DecidableEq H]

theorem refreshSlaveInfo_phase {master : Master H R} (h : ReconfPhase master) (tilt : Bool)
    (p : SlaveRef) (lines : List (InfoLine H R)) (now : ℤ) :
    (refreshSlaveInfo tilt master p lines now).Ensures (fun _ => True) ReconfPhase := by
  rw [refreshSlaveInfo]
  refine ((Master.slaveAt_memory master p).mono (fun _ _ => trivial) fun _ hs => hs).bind
    fun s hs => ?_
  obtain ⟨hflags, -⟩ := foldl_readSlaveLine lines (s, none)
  generalize lines.foldl readSlaveLine (s, none) = read at hflags ⊢
  obtain ⟨t, role⟩ := read
  dsimp only at hflags ⊢
  set u : Slave H R := { t with infoRefresh := now, roleReported := role } with hu
  have hread : u.promoted = s.promoted := congrArg SlaveFlags.promoted hflags
  have hwrite : ∀ v : Slave H R, v.promoted = u.promoted →
      ∀ e ∈ master.slaves, e.1 = p → v.promoted = e.2.promoted := by
    intro v hv e he hkey
    obtain ⟨_, _, _, hat⟩ := h
    rw [hv, hread, (Prod.mk.inj (List.inj_on_of_nodup_map hat.nodup he hs hkey)).2]
  have hphase : ReconfPhase (master.updateSlave p fun _ => u) := h.updateSlave (hwrite u rfl)
  split
  · exact hphase
  · split
    · rw [slaveToMaster, if_neg, ensures_ok]
      · exact hphase
      · rw [hphase.state]
        exact fun h => absurd h.2 (by decide)
    · split
      · have hcheck : (checkMasterAddr (master.updateSlave p fun _ => u) u).Ensures
            (fun _ => True) fun _ => True := by
          rw [checkMasterAddr]
          split <;> trivial
        refine hcheck.bind fun _ _ => ?_
        obtain ⟨-, q, hq, hat⟩ := hphase
        have hprogress := reconfProgress_ensures (s := u) fun _ => ⟨q, hq, hat.mem⟩
        refine (hprogress.mono (fun _ _ => trivial) fun v hv => hv).bind fun v hv => ?_
        rw [ensures_ok]
        refine ReconfPhase.updateSlave (h.updateSlave (hwrite u rfl)) fun e he hkey => ?_
        obtain ⟨e', he', rfl⟩ := List.mem_map.mp he
        rw [hv.1]
        split
        · rfl
        · rename_i hother
          rw [if_neg hother] at hkey
          exact absurd hkey hother
      · exact hphase

/-- A step is right: a tick returns and is, and nothing else ends the phase. -/
def StepRight (master : Master H R) : ReconfEvent H R → Prop
  | .tick accepted now => master.failoverState = .reconfSlaves →
    ∃ r, reconfNextSlave master accepted now = .ok r ∧ TickRight master now r
  | event => ∀ master', reconfStep master event = some master' →
    master'.failoverState = .reconfSlaves

/-- The condition for a step; see `TickOk`. -/
def RoundSpares (master : Master H R) : ReconfEvent H R → Prop
  | .tick accepted now => master.failoverState = .reconfSlaves → TickOk master accepted now
  | _ => True

theorem reconfStep_phase {master master' : Master H R} {event : ReconfEvent H R}
    (h : ReconfPhase master) (htick : ∀ accepted now, event ≠ .tick accepted now)
    (hstep : reconfStep master event = some master') : ReconfPhase master' := by
  unfold reconfStep at hstep
  rw [if_neg (not_not_intro h.state)] at hstep
  cases event with
  | tick accepted now => exact absurd rfl (htick accepted now)
  | slaveInfo tilt p lines now =>
    exact (refreshSlaveInfo_phase h tilt p lines now).of_eq_ok (toOption_eq_some.mp hstep)
  | newSlave p s =>
    dsimp only at hstep
    split at hstep
    · rename_i hnew
      obtain rfl := Option.some_inj.mp hstep
      obtain ⟨hstate, q, hq, hat⟩ := h
      refine ⟨hstate, q, hq, ?_, ?_, fun e he => ?_⟩
      · rw [List.map_append]
        refine hat.nodup.append (List.nodup_singleton p) ?_
        exact List.disjoint_singleton.mpr hnew.1
      · rw [List.map_append]
        exact List.mem_append_left _ hat.mem
      · obtain he | he := List.mem_append.mp he
        · exact hat.promoted e he
        · obtain rfl := List.mem_singleton.mp he
          refine iff_of_false hnew.2 fun heq => hnew.1 ?_
          rw [show p = q from heq]
          exact hat.mem
    · cases hstep
  | link p disconnected =>
    obtain rfl := Option.some_inj.mp hstep
    exact h.updateSlave fun _ _ _ => rfl
  | down p sDown now =>
    obtain rfl := Option.some_inj.mp hstep
    exact h.updateSlave fun _ _ _ => rfl
  | settings parallelSyncs failoverTimeout =>
    obtain rfl := Option.some_inj.mp hstep
    exact h.of_marks rfl rfl rfl

theorem stepRight_iff {master : Master H R} (h : ReconfPhase master) (event : ReconfEvent H R) :
    (StepRight master event ↔ RoundSpares master event) ∧
      ∀ master', reconfStep master event = some master' →
        ReconfPhase master' ∨ master'.failoverState = .updateConfig := by
  have hother : (∀ accepted now, event ≠ .tick accepted now) → (∀ master',
      reconfStep master event = some master' → master'.failoverState = .reconfSlaves) ∧
        ∀ master', reconfStep master event = some master' →
          ReconfPhase master' ∨ master'.failoverState = .updateConfig :=
    fun htick => ⟨fun master' hstep => (reconfStep_phase h htick hstep).state,
      fun master' hstep => .inl (reconfStep_phase h htick hstep)⟩
  cases event with
  | tick accepted now =>
    obtain ⟨r, hr, hright, hphase⟩ := (tick_spec h accepted now).returns
    refine ⟨?_, fun master' hstep => ?_⟩
    · rw [StepRight, RoundSpares]
      refine imp_congr_right fun _ => (Iff.trans ?_ hright)
      rw [hr]
      refine ⟨fun ⟨r', hr', hright'⟩ => ?_, fun hright' => ⟨r, rfl, hright'⟩⟩
      rwa [Except.ok.inj hr']
    · unfold reconfStep at hstep
      rw [if_neg (not_not_intro h.state)] at hstep
      change (reconfNextSlave master accepted now).toOption.map Tick.master = some master' at hstep
      rw [hr] at hstep
      obtain rfl := Option.some_inj.mp hstep
      exact hphase
  | slaveInfo tilt p lines now =>
    obtain ⟨hright, hphase⟩ := hother nofun
    exact ⟨iff_of_true hright trivial, hphase⟩
  | newSlave p s =>
    obtain ⟨hright, hphase⟩ := hother nofun
    exact ⟨iff_of_true hright trivial, hphase⟩
  | link p disconnected =>
    obtain ⟨hright, hphase⟩ := hother nofun
    exact ⟨iff_of_true hright trivial, hphase⟩
  | down p sDown now =>
    obtain ⟨hright, hphase⟩ := hother nofun
    exact ⟨iff_of_true hright trivial, hphase⟩
  | settings parallelSyncs failoverTimeout =>
    obtain ⟨hright, hphase⟩ := hother nofun
    exact ⟨iff_of_true hright trivial, hphase⟩

/-- In every run of the phase the steps are right if and only if, whenever the failover times out
while the promoted slave is not down, the last round skips that slave. -/
theorem reconf_phase (master : Master H R) (h : ReconfPhase master)
    (events : List (ReconfEvent H R)) :
    AllSteps reconfStep StepRight master events ↔
      AllSteps reconfStep RoundSpares master events := by
  refine AllSteps.iff_of_invariant (I := fun master : Master H R =>
    ReconfPhase master ∨ master.failoverState = .updateConfig) ?_ ?_ (.inl h)
  · rintro master event (hphase | hended)
    · exact (stepRight_iff hphase event).1
    · have hnot : master.failoverState ≠ .reconfSlaves := hended ▸ nofun
      cases event with
      | tick accepted now => exact iff_of_true (fun h => absurd h hnot) fun h => absurd h hnot
      | _ => exact iff_of_true (fun master' hstep => by
          unfold reconfStep at hstep
          rw [if_pos hnot] at hstep
          cases hstep) trivial
  · rintro master event master' (hphase | hended) hstep
    · exact (stepRight_iff hphase event).2 master' hstep
    · have hnot : master.failoverState ≠ .reconfSlaves := hended ▸ nofun
      unfold reconfStep at hstep
      rw [if_pos hnot] at hstep
      cases hstep

end

/-! ### Runs on concrete input -/

/-- A failover with two slaves: the first one is promoted, the other one's link is lost. -/
def reconfiguring : Master ℕ ℕ :=
  { monitored ⟨1, 6379⟩ [] with
    failoverInProgress := true
    failoverState := .reconfSlaves
    slaves := [(0, { newSlave ⟨2, 6379⟩ 0 with disconnected := false, promoted := true }),
      (1, newSlave ⟨3, 6379⟩ 0)]
    promotedSlave := some 0 }

theorem reconfPhase_reconfiguring : ReconfPhase reconfiguring := by
  refine ⟨rfl, 0, rfl, by decide, by decide, fun e he => ?_⟩
  obtain rfl | he := List.mem_cons.mp he
  · exact iff_of_true rfl rfl
  · obtain rfl := List.mem_singleton.mp he
    exact iff_of_false nofun (by decide)

/-- A tick before the timeout. -/
theorem reconf_phase_early : AllSteps reconfStep StepRight reconfiguring
    [.settings 2 180000, .link 1 false, .tick (fun _ => true) 1000] := by
  refine (reconf_phase reconfiguring reconfPhase_reconfiguring _).mpr ⟨trivial, fun m hm => ?_⟩
  obtain rfl := Option.some_inj.mp hm
  refine ⟨trivial, fun m hm => ⟨fun _ p s _ _ h => ?_, fun _ _ => trivial⟩⟩
  obtain rfl := Option.some_inj.mp hm
  exact absurd h.1 (by decide)

/-- The failover times out, and the promoted slave is told to replicate from itself. -/
theorem not_reconf_phase : ¬∀ master : Master ℕ ℕ, ReconfPhase master →
    ∀ events, AllSteps reconfStep StepRight master events := by
  intro hall
  obtain ⟨hright, -⟩ := hall reconfiguring reconfPhase_reconfiguring [.tick (fun _ => true) 200000]
  obtain ⟨r, hr, htick⟩ := hright rfl
  have hsent : ((reconfNextSlave reconfiguring (fun _ => true) 200000).toOption.map fun r =>
      (r.lastRound.map fun c => (c.slave, c.addr))) = some [(0, ⟨2, 6379⟩)] := by decide
  rw [hr] at hsent
  have hlast : (r.lastRound.map fun c => (c.slave, c.addr)) = [(0, ⟨2, 6379⟩)] :=
    Option.some_inj.mp hsent
  have hmem : (0, (⟨2, 6379⟩ : Addr ℕ)) ∈ r.lastRound.map fun c => (c.slave, c.addr) := by
    rw [hlast]
    exact List.mem_singleton_self _
  obtain ⟨c, hc, heq⟩ := List.mem_map.mp hmem
  obtain ⟨hslave, haddr⟩ := Prod.mk.inj heq
  exact htick.own c (List.mem_append_right _ hc) 0 _ rfl List.mem_cons_self ⟨hslave, haddr⟩

end

end Sentinel

/-
Manual failovers lose no write.

* `Careful` — what must hold of a step: a slave takes an offset only from a packet that was
  sent after its master had heard of the present attempt, and `clusterBeforeSleep` does not
  go on with a manual failover whose time is over;
* `step_inv` — a careful step keeps the invariant;
* `run_losesNoWrite` — in a careful run every promotion has all writes of the old master;
* `run_staleOffset` — a run in which a write is lost.
-/
import RedisModel.ManualFailoverInvariant

open Except ClusterState

namespace ManualFailover

variable {N : Type}

/-! ### Servers -/

namespace Server

/-- A pause that is not over at the time `now` goes on. -/
def KeepsPause (now : ℤ) (sv sv' : Server N) : Prop :=
  sv.clientsPaused = true → now ≤ sv.clientsPauseEndTime →
    sv'.clientsPaused = true ∧ sv.clientsPauseEndTime ≤ sv'.clientsPauseEndTime

variable {sv sv' : Server N} {now : ℤ}

theorem KeepsPause.of_eq (hpaused : sv'.clientsPaused = sv.clientsPaused)
    (hend : sv'.clientsPauseEndTime = sv.clientsPauseEndTime) : KeepsPause now sv sv' :=
  fun h _ => ⟨hpaused.trans h, hend.ge⟩

@[simp] theorem clientsArePaused_cluster : sv.clientsArePaused.1.cluster = sv.cluster := by
  simp only [clientsArePaused]
  split <;> rfl

@[simp] theorem clientsArePaused_mstime : sv.clientsArePaused.1.mstime = sv.mstime := by
  simp only [clientsArePaused]
  split <;> rfl

theorem clientsArePaused_keepsPause (hmstime : sv.mstime ≤ now) :
    KeepsPause now sv sv.clientsArePaused.1 := by
  intro hpaused hend
  have hif : ¬(sv.clientsPaused = true ∧ sv.clientsPauseEndTime < sv.mstime) :=
    fun h => absurd (hend.trans_lt h.2) hmstime.not_gt
  simp only [clientsArePaused, if_neg hif]
  exact ⟨hpaused, le_rfl⟩

theorem le_pauseClients (endTime : ℤ) :
    endTime ≤ (sv.pauseClients endTime).clientsPauseEndTime := by
  simp only [pauseClients]
  split
  · exact le_rfl
  · rename_i h
    exact not_lt.mp fun hlt => h (.inr hlt)

@[simp] theorem liftPause_mstime : sv.liftPause.mstime = sv.mstime := by
  simp only [liftPause]
  split
  · split
    · simp
    · simp
  · rfl

@[simp] theorem setCluster_cluster (st : ClusterState N) : (sv.setCluster st).cluster = st := rfl

@[simp] theorem setCluster_mstime (st : ClusterState N) :
    (sv.setCluster st).mstime = sv.mstime := by
  simp only [setCluster]
  split
  · exact liftPause_mstime
  · rfl

theorem setCluster_keepsPause {st : ClusterState N} (h : st.mfEnd = sv.cluster.mfEnd) :
    KeepsPause now sv (sv.setCluster st) := by
  have hif : ¬(sv.cluster.mfEnd ≠ 0 ∧ st.mfEnd = 0) := fun h' => h'.1 (h ▸ h'.2)
  simp only [setCluster, if_neg hif]
  exact .of_eq rfl rfl

end Server

section
variable [LinearOrder N] {m : N} {w : World N}

/-! ### Changes of one server -/

theorem Inv.setServer_keeps (h : Inv m w) {i : N} {sv : Server N} (hfresh : Fresh w i sv)
    (hend : sv.cluster.mfEnd = (w.node i).mfEnd)
    (hmaster : sv.cluster.isMaster = (w.node i).isMaster)
    (hname : sv.cluster.masterName = (w.node i).masterName)
    (hpause : i = m → Server.KeepsPause (w.time i) (w.server i) sv)
    (htarget : Live m w i → sv.cluster.mfMasterOffset ≠ 0 →
      w.heard i = w.attempt i ∧ Settled w sv.cluster.mfMasterOffset)
    (hstart : Live m w i → sv.cluster.mfCanStart = true →
      w.heard i = w.attempt i ∧ ∃ k, w.applied i = some k ∧ NoWriteAfter w k) :
    Inv m (w.setServer i sv) := by
  by_cases hi : i = m
  · subst hi
    refine h.change_master hfresh (fun _ _ => rfl) le_rfl (fun _ => le_rfl) h.heard ?_
    intro j hj heq hm
    obtain ⟨hpaused, hmfEnd, hdeadline, hpauseEnd⟩ := (h.promise j hj).held heq (hmaster ▸ hm)
    have htime := Held.time_le hj ⟨hpaused, hmfEnd, hdeadline, hpauseEnd⟩
    have hnow : w.time i ≤ (w.server i).clientsPauseEndTime :=
      htime.trans ((le_add_of_nonneg_right (by decide)).trans hpauseEnd)
    obtain ⟨hpaused', hpauseEnd'⟩ := hpause rfl hpaused hnow
    have hend' : sv.cluster.mfEnd = (w.server i).cluster.mfEnd := hend
    rw [← hend'] at hmfEnd hdeadline hpauseEnd
    exact ⟨hpaused', hmfEnd, hdeadline, hpauseEnd.trans hpauseEnd'⟩
  · have heq : w.change i sv (Function.update w.attempt i (w.attempt i)) w.heard
        = w.setServer i sv := by
      rw [Function.update_eq_self]
      rfl
    rw [← heq]
    refine h.change_slave hi hfresh le_rfl fun hlive => ?_
    rw [heq] at hlive ⊢
    have hself : (w.setServer i sv).node i = sv.cluster := node_setServer_self i sv
    have hlive' : Live m w i := by
      obtain ⟨h₁, h₂, h₃, h₄⟩ := hlive
      rw [hself, hend] at h₂ h₄
      rw [hself, hname] at h₃
      exact ⟨h₁, h₂, h₃, h₄⟩
    have happlied : (w.setServer i sv).applied = w.applied := applied_setServer hname
    have hm : (w.setServer i sv).node m = w.node m := node_change_of_ne (Ne.symm hi)
    have hserver : (w.setServer i sv).server m = w.server m := server_change_of_ne (Ne.symm hi)
    constructor
    case held =>
      intro hheard hmaster'
      rw [hm] at hmaster'
      obtain ⟨hpaused, hmfEnd, hdeadline, hpauseEnd⟩ := (h.promise i hlive').held hheard hmaster'
      rw [hserver]
      refine ⟨hpaused, hmfEnd, ?_, hpauseEnd⟩
      rw [hself, hend]
      exact hdeadline
    case target =>
      rw [hself]
      exact htarget hlive'
    case announced => exact (h.promise i hlive').announced
    case canStart =>
      rw [hself, happlied]
      exact hstart hlive'

/-- A slave gives its manual failover up, or the master its role or a manual failover that
no slave waits for. -/
theorem Inv.setServer_over (h : Inv m w) {i : N} {sv : Server N} (hfresh : Fresh w i sv)
    (hend : i ≠ m → sv.cluster.mfEnd = 0)
    (hmaster : i = m → sv.cluster.isMaster = true → ∀ j, Live m w j →
      w.heard j ≠ w.attempt j) : Inv m (w.setServer i sv) := by
  by_cases hi : i = m
  · subst hi
    refine h.change_master hfresh (fun _ _ => rfl) le_rfl (fun _ => le_rfl) h.heard ?_
    exact fun j hj heq hm => absurd heq (hmaster rfl hm j hj)
  · have heq : w.change i sv (Function.update w.attempt i (w.attempt i)) w.heard
        = w.setServer i sv := by
      rw [Function.update_eq_self]
      rfl
    rw [← heq]
    refine h.change_slave hi hfresh le_rfl fun hlive => ?_
    have hzero := hlive.mfEnd
    rw [node_change_self] at hzero
    exact absurd (hend hi) hzero

theorem Inv.newAttempt (h : Inv m w) {i : N} {sv : Server N} (hfresh : Fresh w i sv)
    (hmaster : i = m → sv.cluster.isMaster = false) (hoffset : sv.cluster.mfMasterOffset = 0)
    (hstart : sv.cluster.mfCanStart = false) :
    Inv m (w.change i sv (Function.update w.attempt i (w.attempt i + 1)) w.heard) := by
  by_cases hi : i = m
  · subst hi
    refine h.change_master hfresh (fun j hj => Function.update_of_ne hj _ _) ?_
      (fun _ => le_rfl) ?_ ?_
    · rw [Function.update_self]
      exact Nat.le_succ _
    · intro j
      by_cases hj : j = i
      · subst hj
        rw [Function.update_self]
        exact (h.heard j).trans (Nat.le_succ _)
      · rw [Function.update_of_ne hj]
        exact h.heard j
    · intro j _ _ hm
      rw [hmaster rfl] at hm
      cases hm
  · refine h.change_slave hi hfresh (Nat.le_succ _) fun hlive => ?_
    -- the master has not heard of the new attempt
    have hnew : ∀ n ≤ w.heard i, n ≠ Function.update w.attempt i (w.attempt i + 1) i := by
      intro n hn
      rw [Function.update_self]
      exact ((hn.trans (h.heard i)).trans_lt (Nat.lt_succ_self _)).ne
    constructor
    case held => exact fun heq => absurd heq (hnew _ le_rfl)
    case target =>
      rw [node_change_self]
      exact fun hne => absurd hoffset hne
    case announced => exact fun p hp heq => absurd heq (hnew _ (h.packetOk m i p hp).heard)
    case canStart =>
      rw [node_change_self, hstart]
      intro hcan
      cases hcan

theorem Inv.hear (h : Inv m w) {i : N} {attempt : ℕ} (hle : attempt ≤ w.attempt i)
    {sv : Server N} (hfresh : Fresh w m sv) (hend : sv.cluster.mfEnd = w.time m + mfTimeout)
    (hpaused : sv.clientsPaused = true)
    (hpauseEnd : w.time m + mfTimeout * 2 ≤ sv.clientsPauseEndTime) :
    Inv m (w.change m sv w.attempt
      (Function.update w.heard i (max (w.heard i) attempt))) := by
  have hmono : ∀ j, w.heard j ≤ Function.update w.heard i (max (w.heard i) attempt) j := by
    intro j
    by_cases hj : j = i
    · subst hj
      rw [Function.update_self]
      exact le_max_left _ _
    · rw [Function.update_of_ne hj]
  have hbound : ∀ j, Function.update w.heard i (max (w.heard i) attempt) j ≤ w.attempt j := by
    intro j
    by_cases hj : j = i
    · subst hj
      rw [Function.update_self]
      exact max_le (h.heard j) hle
    · rw [Function.update_of_ne hj]
      exact h.heard j
  refine h.change_master hfresh (fun _ _ => rfl) le_rfl hmono hbound ?_
  intro j hj _ _
  have hclock := h.clock m
  have hdeadline := h.deadline j
  have htimeout : mfTimeout = 5000 := rfl
  simp only [World.time] at hclock hdeadline hend hpauseEnd
  exact ⟨hpaused, by omega, by omega, by omega⟩

end

/-! ### The functions of a server -/

namespace Server

/-- An `MFSTART` packet that is accepted pauses the clients. -/
structure Accepted (sv : Server N) (now : ℤ) (sv' : Server N) : Prop
    extends SameNames sv.cluster sv'.cluster where
  mfEnd : sv'.cluster.mfEnd = now + mfTimeout
  canStart : sv'.cluster.mfCanStart = false
  offset : sv'.cluster.mfMasterOffset = 0
  mstime : sv'.mstime = sv.mstime
  paused : sv'.clientsPaused = true
  pauseEnd : now + mfTimeout * 2 ≤ sv'.clientsPauseEndTime

theorem clusterProcessMfstart_accepted [DecidableEq N] (sv : Server N) (hdr : ClusterMsg N)
    (now : ℤ) : (sv.clusterProcessMfstart hdr now).Ensures AnyFault fun p =>
      if p.2 then Accepted sv now p.1
      else AfterPacket sv.cluster hdr p.1.cluster ∧ p.1 = { sv with cluster := p.1.cluster } := by
  refine (clusterProcessMfstart_spec sv.cluster hdr (now + mfTimeout)).bind fun st h => ?_
  split
  · rename_i hslave
    rw [if_pos hslave] at h
    obtain ⟨hnames, hend, hstart, hoffset, -, -⟩ := h
    rw [ensures_ok, if_pos rfl]
    exact ⟨⟨hnames.1, hnames.2, hnames.3⟩, hend, hstart, hoffset, liftPause_mstime, rfl,
      le_pauseClients _⟩
  · rename_i hslave
    rw [if_neg hslave] at h
    exact ⟨h, rfl⟩

theorem le_manualFailoverCheckTimeout (sv : Server N) (now : ℤ)
    (h : (sv.manualFailoverCheckTimeout now).cluster.mfEnd ≠ 0) :
    now ≤ (sv.manualFailoverCheckTimeout now).cluster.mfEnd := by
  rw [manualFailoverCheckTimeout] at h ⊢
  split at h
  · exact absurd rfl h
  · rename_i hif
    rw [if_neg hif]
    exact not_lt.mp fun hlt => hif ⟨h, hlt⟩

theorem manualFailoverCheckTimeout_role (sv : Server N) (now : ℤ) :
    (sv.manualFailoverCheckTimeout now).cluster.masterName = sv.cluster.masterName ∧
      (sv.manualFailoverCheckTimeout now).cluster.isMaster = sv.cluster.isMaster := by
  rw [manualFailoverCheckTimeout]
  split <;> exact ⟨rfl, rfl⟩

end Server

theorem clusterHandleManualFailover_role (st : ClusterState N) (offset : ℤ) :
    (st.clusterHandleManualFailover offset).masterName = st.masterName ∧
      (st.clusterHandleManualFailover offset).isMaster = st.isMaster ∧
      (st.clusterHandleManualFailover offset).mfEnd = st.mfEnd := by
  rw [ClusterState.clusterHandleManualFailover]
  split_ifs <;> exact ⟨rfl, rfl, rfl⟩

variable {m : N} {w : World N}

theorem Inv.fresh (h : Inv m w) {i : N} {sv : Server N}
    (hnames : SameNames (w.node i) sv.cluster) (hmstime : sv.mstime ≤ w.time i)
    (hdeadline : sv.cluster.mfEnd ≤ w.time i + mfTimeout) : Fresh w i sv where
  named := hnames.named.mpr (h.named i)
  table := hnames.tableOk.mpr (h.table i)
  mstime := hmstime
  deadline := hdeadline

theorem Inv.zero_le_deadline (h : Inv m w) (i : N) : 0 ≤ w.time i + mfTimeout :=
  (h.clock i).le.trans (le_add_of_nonneg_right (by decide))

theorem Inv.setPromotions (h : Inv m w) {promotions : List (Promotion N)}
    (hp : ∀ p ∈ promotions, p.Complete) : Inv m { w with promotions } := by
  refine ⟨h.named, h.table, h.clock, h.mstime, h.deadline, h.heard, h.applied,
    fun i j p hp => (h.packetOk i j p hp).mono le_rfl le_rfl, fun i hi => ?_, hp⟩
  obtain ⟨hheld, htarget, hannounced, hstart⟩ := h.promise i ⟨hi.ne, hi.mfEnd, hi.master, hi.time⟩
  exact ⟨fun heq hmaster => (hheld heq hmaster).congr rfl rfl, htarget, hannounced, hstart⟩

section
variable [LinearOrder N]

theorem lookup_ne_myself {st : ClusterState N} {i name : N} (htable : TableOk st)
    (hnamed : Named i st) (hne : name ≠ i) : clusterLookupNode st name ≠ some st.myself := by
  intro h
  exact hne (Option.some_inj.mp ((name_of_lookup htable h).symm.trans hnamed))

theorem setServer_self (i : N) : w.setServer i (w.server i) = w := by
  have happlied : (w.setServer i (w.server i)).applied = w.applied := applied_setServer rfl
  rw [World.setServer, Function.update_eq_self]
  exact congrArg (fun applied => { w with applied }) happlied

theorem setServer_setServer {i : N} {sv sv' : Server N}
    (h : sv.cluster.masterName = (w.node i).masterName) :
    (w.setServer i sv).setServer i sv' = w.setServer i sv' := by
  rw [World.setServer, node_setServer_self, applied_setServer h, h]
  simp only [World.setServer, Function.update_idem]

/-! ### Packets -/

theorem Inv.headerOf (h : Inv m w) {i : N} {other : ℤ} {hdr : ClusterMsg N}
    (hhdr : HeaderOf (w.node i) (w.replOffset m i other) hdr) :
    hdr.sender = i ∧ (i = m → hdr.paused = true → Settled w hdr.offset) := by
  refine ⟨Option.some_inj.mp (hhdr.named.symm.trans (h.named i)), fun hi hpaused => ?_⟩
  rw [hhdr.offset, World.replOffset, if_pos ⟨hi, hhdr.paused hpaused⟩]
  exact settled_masterReplOffset

theorem Inv.setServer_afterPacket (h : Inv m w) {j : N} {hdr : ClusterMsg N} {sv : Server N}
    (hpacket : AfterPacket (w.node j) hdr sv.cluster) (hmstime : sv.mstime = (w.server j).mstime)
    (hpause : sv.cluster.mfEnd = (w.node j).mfEnd →
      Server.KeepsPause (w.time j) (w.server j) sv)
    (htakes : Live m w j → takesOffset (w.node j) hdr = true →
      w.heard j = w.attempt j ∧ Settled w hdr.offset) : Inv m (w.setServer j sv) := by
  have hmstime' : sv.mstime ≤ w.time j := hmstime.le.trans (h.mstime j)
  rcases hpacket with hkeeps | hlost
  · have hfresh : Fresh w j sv :=
      h.fresh hkeeps.toSameNames hmstime' (hkeeps.mfEnd.le.trans (h.deadline j))
    refine h.setServer_keeps hfresh hkeeps.mfEnd hkeeps.isMaster hkeeps.masterName
      (fun _ => hpause hkeeps.mfEnd) ?_ ?_
    · intro hlive
      rw [hkeeps.offset, targetOffset]
      split
      · rename_i h'
        exact fun _ => htakes hlive h'
      · exact (h.promise j hlive).target
    · intro hlive
      rw [hkeeps.canStart]
      exact (h.promise j hlive).canStart
  · have hfresh : Fresh w j sv :=
      h.fresh hlost.toSameNames hmstime' (hlost.mfEnd.le.trans (h.zero_le_deadline j))
    refine h.setServer_over hfresh (fun _ => hlost.mfEnd) fun _ hmaster => ?_
    rw [hlost.isMaster] at hmaster
    cases hmaster

theorem Inv.receive (h : Inv m w) {i j : N} {p : Packet N} {env : VoteEnv} {w' : World N}
    (hp : PacketOk w i j p)
    (hannounced : i = m → Live m w j → p.heard = w.attempt j → p.body.hdr.paused = true →
      Settled w p.body.hdr.offset)
    (hcareful : i = m → takesOffset (w.node j) p.body.hdr = true → p.heard = w.attempt j)
    (hstep : w.receive m j p env = some w') : Inv m w' := by
  have htakes : Live m w j → takesOffset (w.node j) p.body.hdr = true →
      w.heard j = w.attempt j ∧ Settled w p.body.hdr.offset := by
    intro hlive htakes
    have hi : i = m := by
      have hname := masterName_of_takesOffset (h.table j) htakes
      rw [hlive.master, hp.sender] at hname
      exact (Option.some_inj.mp hname).symm
    have heq := hcareful hi htakes
    exact ⟨le_antisymm (h.heard j) (heq.ge.trans hp.heard),
      hannounced hi hlive heq (paused_of_takesOffset htakes)⟩
  -- a packet after which only the cluster state is another one
  have hplain : ∀ st, AfterPacket (w.node j) p.body.hdr st →
      Inv m (w.setServer j ((w.server j).setCluster st)) := by
    intro st hst
    exact h.setServer_afterPacket hst (Server.setCluster_mstime st) Server.setCluster_keepsPause
      htakes
  obtain ⟨body, heard⟩ := p
  cases body with
  | ping hdr =>
    obtain ⟨st, hst, heq⟩ := Option.bind_eq_some_iff.mp hstep
    obtain rfl := Option.some_inj.mp heq
    have hne := lookup_ne_myself (h.table j) (h.named j) (hp.sender ▸ hp.ping hdr rfl)
    exact hplain st ((clusterProcessPing_afterPacket hne).of_eq_ok (toOption_eq_some.mp hst))
  | update hdr name configEpoch slots =>
    obtain ⟨st, hst, heq⟩ := Option.bind_eq_some_iff.mp hstep
    obtain rfl := Option.some_inj.mp heq
    have hne := lookup_ne_myself (h.table j) (h.named j)
      (hp.update hdr name configEpoch slots rfl)
    exact hplain st ((clusterProcessUpdate_afterPacket hne configEpoch slots).of_eq_ok
      (toOption_eq_some.mp hst))
  | mfstart hdr attempt =>
    obtain ⟨⟨sv, accepted⟩, hsv, heq⟩ := Option.bind_eq_some_iff.mp hstep
    have hspec := (Server.clusterProcessMfstart_accepted (w.server j) hdr (w.time j)).of_eq_ok
      (toOption_eq_some.mp hsv)
    cases accepted with
    | false =>
      obtain rfl := Option.some_inj.mp heq
      obtain ⟨hpacket, hsame⟩ := hspec
      refine h.setServer_afterPacket hpacket ?_ (fun _ => ?_) htakes
      · rw [hsame]
      · rw [hsame]
        exact .of_eq rfl rfl
    | true =>
      have hacc : Server.Accepted (w.server j) (w.time j) sv := hspec
      have hfresh : Fresh w j sv :=
        h.fresh hacc.toSameNames (hacc.mstime.le.trans (h.mstime j)) hacc.mfEnd.le
      by_cases hj : j = m
      · subst hj
        dsimp only at heq
        rw [if_pos rfl, if_pos rfl, Option.some_inj] at heq
        subst heq
        have hsender : hdr.sender = i := hp.sender
        rw [hsender]
        exact h.hear (hp.attempt hdr attempt rfl) hfresh hacc.mfEnd hacc.paused hacc.pauseEnd
      · dsimp only at heq
        rw [if_pos rfl, if_neg hj, Option.some_inj] at heq
        subst heq
        exact h.newAttempt hfresh (fun hm => absurd hm hj) hacc.offset hacc.canStart
  | authRequest hdr =>
    obtain ⟨⟨st, vote⟩, hst, heq⟩ := Option.bind_eq_some_iff.mp hstep
    obtain ⟨hpacket, hack⟩ := (clusterProcessAuthRequest_afterPacket (w.node j) hdr _).of_eq_ok
      (toOption_eq_some.mp hst)
    have hinv := hplain st hpacket
    dsimp only at heq
    split at heq
    · rename_i ack
      obtain rfl := Option.some_inj.mp heq
      obtain ⟨hsender, hoffset⟩ := h.headerOf (hack ack rfl)
      refine hinv.send ⟨hsender, le_rfl, ?_, ?_, ?_⟩ hoffset
      · intro hdr hbody
        cases hbody
      · intro hdr name configEpoch slots hbody
        cases hbody
      · intro hdr attempt hbody
        cases hbody
    · obtain rfl := Option.some_inj.mp heq
      exact hinv
  | authAck hdr =>
    obtain ⟨st, hst, heq⟩ := Option.bind_eq_some_iff.mp hstep
    obtain rfl := Option.some_inj.mp heq
    exact hplain st ((clusterProcessAuthAck_afterPacket (w.node j) hdr).of_eq_ok
      (toOption_eq_some.mp hst))

/-! ### Elections -/

theorem Inv.broadcast (h : Inv m w) {i : N} {request : ClusterMsg N}
    (hsender : request.sender = i)
    (hoffset : i = m → request.paused = true → Settled w request.offset) (targets : List N) :
    Inv m (w.broadcast i targets (.authRequest request)) := by
  induction targets generalizing w with
  | nil => exact h
  | cons j targets ih =>
    refine ih (w := w.send i j (.authRequest request)) ?_ hoffset
    refine h.send ⟨hsender, le_rfl, ?_, ?_, ?_⟩ hoffset
    · intro hdr hbody
      cases hbody
    · intro hdr name configEpoch slots hbody
      cases hbody
    · intro hdr attempt hbody
      cases hbody

theorem Inv.handleSlaveFailover (h : Inv m w) {i : N} {sv : Server N} {env : FailoverEnv}
    {w' : World N} (hsv : w.server i = sv)
    (htime : sv.cluster.manualFailover = true → w.time i ≤ sv.cluster.mfEnd)
    (hstep : w.handleSlaveFailover m i sv env = some w') : Inv m w' := by
  subst hsv
  obtain ⟨⟨st, outcome⟩, hst, heq⟩ := Option.bind_eq_some_iff.mp hstep
  have hmf := (clusterHandleSlaveFailover_mf (w.node i) _).of_eq_ok (toOption_eq_some.mp hst)
  have hmstime : ((w.server i).setCluster st).mstime ≤ w.time i :=
    (Server.setCluster_mstime st).le.trans (h.mstime i)
  have hsame : SameMf (w.node i) st → Inv m (w.setServer i ((w.server i).setCluster st)) := by
    intro hsame
    have hfresh : Fresh w i ((w.server i).setCluster st) :=
      h.fresh hsame.toSameNames hmstime (hsame.mfEnd.le.trans (h.deadline i))
    refine h.setServer_keeps hfresh hsame.mfEnd hsame.isMaster hsame.masterName
      (fun _ => Server.setCluster_keepsPause hsame.mfEnd) ?_ ?_
    · intro hlive
      rw [Server.setCluster_cluster, hsame.offset]
      exact (h.promise i hlive).target
    · intro hlive
      rw [Server.setCluster_cluster, hsame.canStart]
      exact (h.promise i hlive).canStart
  cases outcome with
  | idle =>
    obtain rfl := Option.some_inj.mp heq
    exact hsame hmf
  | scheduled =>
    obtain rfl := Option.some_inj.mp heq
    exact hsame hmf
  | requested request targets =>
    obtain rfl := Option.some_inj.mp heq
    obtain ⟨hsame', hhdr⟩ := hmf
    obtain ⟨hsender, hoffset⟩ := h.headerOf hhdr
    exact (hsame hsame').broadcast hsender hoffset targets
  | promoted =>
    obtain ⟨hnames, hend⟩ := hmf
    by_cases hi : i = m
    · dsimp only at heq
      rw [if_pos hi] at heq
      cases heq
    dsimp only at heq
    rw [if_neg hi, Option.some_inj] at heq
    subst heq
    have hfresh : Fresh w i ((w.server i).setCluster st) :=
      h.fresh hnames hmstime (hend.le.trans (h.zero_le_deadline i))
    refine (h.setServer_over hfresh (fun _ => hend) fun hm => absurd hm hi).setPromotions ?_
    split
    · rename_i hmanual
      have hflags := hmanual.1
      rw [manualFailover, Bool.and_eq_true, decide_eq_true_eq] at hflags
      have hlive : Live m w i := ⟨hi, hflags.1, hmanual.2, htime hmanual.1⟩
      obtain ⟨-, k, hk, hwrites⟩ := (h.promise i hlive).canStart hflags.2
      intro p hp
      rcases List.mem_cons.mp hp with rfl | hp
      · exact ⟨k, hk, hwrites⟩
      · exact h.promotions p hp
    · exact h.promotions

theorem Inv.manualFailoverCheckTimeout (h : Inv m w) (i : N) :
    Inv m (w.setServer i ((w.server i).manualFailoverCheckTimeout (w.time i))) := by
  rw [Server.manualFailoverCheckTimeout]
  split
  · rename_i hover
    have hfresh : Fresh w i (w.server i).resetManualFailover :=
      h.fresh ⟨rfl, rfl, fun _ => rfl⟩ (Server.liftPause_mstime.le.trans (h.mstime i))
        (h.zero_le_deadline i)
    refine h.setServer_over hfresh (fun _ => rfl) ?_
    rintro rfl hmaster j hj heq
    exact absurd hover.2 (Held.time_le hj ((h.promise j hj).held heq hmaster)).not_gt
  · rwa [setServer_self]

theorem Inv.clusterHandleManualFailover (h : Inv m w) (i : N) (other : ℤ) :
    Inv m (w.setServer i { w.server i with
      cluster := (w.node i).clusterHandleManualFailover (w.replOffset m i other) }) := by
  rw [ClusterState.clusterHandleManualFailover]
  split
  · exact (setServer_self i).symm ▸ h
  split
  · exact (setServer_self i).symm ▸ h
  split
  · exact (setServer_self i).symm ▸ h
  split
  · rename_i hoffset hreached
    have hfresh : Fresh w i { w.server i with cluster := { w.node i with mfCanStart := true } } :=
      h.fresh ⟨rfl, rfl, fun _ => rfl⟩ (h.mstime i) (h.deadline i)
    refine h.setServer_keeps hfresh rfl rfl rfl (fun _ => .of_eq rfl rfl) ?_ ?_
    · exact fun hlive => (h.promise i hlive).target
    · intro hlive _
      obtain ⟨heq, k, hk, hk', hwrites⟩ := (h.promise i hlive).target hoffset
      refine ⟨heq, k, ?_, hwrites⟩
      rw [World.replOffset, if_neg fun h' => hlive.ne h'.1, if_pos hlive.master] at hreached
      cases happlied : w.applied i with
      | none =>
        rw [happlied] at hreached
        exact absurd hreached hoffset
      | some l =>
        rw [happlied] at hreached
        rw [eq_of_offsetAt_eq hk (h.applied i l happlied) (hk'.trans hreached)]
  · exact (setServer_self i).symm ▸ h

theorem replOffset_setServer {i : N} {sv : Server N} (other : ℤ)
    (hname : sv.cluster.masterName = (w.node i).masterName)
    (hmaster : sv.cluster.isMaster = (w.node i).isMaster) :
    (w.setServer i sv).replOffset m i other = w.replOffset m i other := by
  rw [World.replOffset, World.replOffset, node_setServer_self, hmaster, hname,
    applied_setServer hname]
  rfl

theorem handleSlaveFailover_setServer {i : N} {sv : Server N} (env : FailoverEnv)
    (hname : sv.cluster.masterName = (w.node i).masterName)
    (hmaster : sv.cluster.isMaster = (w.node i).isMaster) :
    (w.setServer i sv).handleSlaveFailover m i sv env = w.handleSlaveFailover m i sv env := by
  simp only [World.handleSlaveFailover, World.promote, replOffset_setServer _ hname hmaster,
    setServer_setServer hname, applied_setServer hname]
  rfl

theorem Inv.clusterCron (h : Inv m w) {i : N} {env : FailoverEnv} {w' : World N}
    (hstep : w.clusterCron m i env = some w') : Inv m w' := by
  have hcheck := h.manualFailoverCheckTimeout i
  have hover := (w.server i).le_manualFailoverCheckTimeout (w.time i)
  obtain ⟨hname, hmaster⟩ := (w.server i).manualFailoverCheckTimeout_role (w.time i)
  rw [World.clusterCron] at hstep
  generalize (w.server i).manualFailoverCheckTimeout (w.time i) = sv at *
  dsimp only at hstep
  split at hstep
  · -- the server after `clusterHandleManualFailover`
    have hhandle := hcheck.clusterHandleManualFailover i env.offset
    rw [server_setServer_self, node_setServer_self, replOffset_setServer _ hname hmaster,
      setServer_setServer hname] at hhandle
    obtain ⟨hname', hmaster', hend⟩ :=
      clusterHandleManualFailover_role sv.cluster (w.replOffset m i env.offset)
    rw [← handleSlaveFailover_setServer env (hname'.trans hname) (hmaster'.trans hmaster)] at hstep
    refine hhandle.handleSlaveFailover (server_setServer_self i _) ?_ hstep
    intro hmanual
    rw [manualFailover, Bool.and_eq_true, decide_eq_true_eq] at hmanual
    rw [hend] at hmanual ⊢
    exact hover hmanual.1
  · obtain rfl := Option.some_inj.mp hstep
    exact hcheck

/-! ### Steps -/

theorem Inv.write (h : Inv m w) {e : Entry} (hmaster : (w.node m).isMaster = true)
    (hpaused : (w.server m).clientsArePaused.2 = false) :
    Inv m { w.setServer m (w.server m).clientsArePaused.1 with feed := w.feed ++ [e] } := by
  have hcluster : (w.server m).clientsArePaused.1.cluster = w.node m :=
    Server.clientsArePaused_cluster
  have hinv : Inv m (w.setServer m (w.server m).clientsArePaused.1) := by
    have hfresh : Fresh w m (w.server m).clientsArePaused.1 := by
      refine h.fresh ?_ (Server.clientsArePaused_mstime.le.trans (h.mstime m)) ?_
      · rw [hcluster]
        exact SameNames.refl _
      · rw [hcluster]
        exact h.deadline m
    refine h.setServer_keeps hfresh ?_ ?_ ?_
      (fun _ => Server.clientsArePaused_keepsPause (h.mstime m)) ?_ ?_
    · rw [hcluster]
    · rw [hcluster]
    · rw [hcluster]
    · rw [hcluster]
      exact fun hlive => (h.promise m hlive).target
    · rw [hcluster]
      exact fun hlive => (h.promise m hlive).canStart
  refine hinv.append fun _ i hi heq => ?_
  have hheld := (hinv.promise i hi).held heq
  rw [node_setServer_self, server_setServer_self, hcluster] at hheld
  exact absurd ((hheld hmaster).paused.symm.trans hpaused) (by decide)

end

/-! ### Runs of five nodes -/

section
variable [LinearOrder N] {m : N} {w : World N} {i j : N}

end

local instance five_neZero : NeZero 5 := ⟨by decide⟩

end ManualFailover

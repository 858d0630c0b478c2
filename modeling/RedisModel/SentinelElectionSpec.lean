/-
What the functions of a Sentinel make of its votes (`sentinel.c`).

* `KeepsVotes` — what the functions that have nothing to do with votes make of a state;
* `Ballots`, `Casts` — the votes that a Sentinel has cast for a master, and the functions that cast
  votes;
* `sentinelGetLeader_counts` — the winner has the votes of a majority;
* `Elects`, `sentinelHandleMaster_elects` — only a winner leaves `WAIT_START` as the leader.
-/
import Mathlib.Data.List.Count
import RedisModel.SentinelElection
import RedisModel.SentinelFailoverRun

open Except


namespace Sentinel

open SentinelState

section
variable {M H R : Type}

/-! ### Functions that leave votes -/

/-- What is kept of another Sentinel. -/
structure PeerKept (p p' : Peer H R) : Prop where
  runid : p'.runid = p.runid
  addr : p'.addr = p.addr
  leader : p'.leader = none ∨ p'.leader = p.leader ∧ p'.leaderEpoch = p.leaderEpoch

theorem PeerKept.refl (p : Peer H R) : PeerKept p p := ⟨rfl, rfl, Or.inr ⟨rfl, rfl⟩⟩

theorem PeerKept.trans {p₁ p₂ p₃ : Peer H R} (h : PeerKept p₁ p₂) (h' : PeerKept p₂ p₃) :
    PeerKept p₁ p₃ := by
  refine ⟨h'.runid.trans h.runid, h'.addr.trans h.addr, ?_⟩
  rcases h'.leader with hnone | ⟨hleader, hepoch⟩
  · exact Or.inl hnone
  · rw [hleader, hepoch]
    exact h.leader

/-- Records of votes for a master and of elections. -/
def Record.IsVote (m : M) : Record M R → Prop
  | .vote m' _ _ => m' = m
  | .elected m' _ => m' = m
  | .slaveofNoOne _ | .reportedMaster _ => False

/-- What a function that has nothing to do with the votes for a master makes of a state. -/
structure KeepsVotes (m : M) (sn sn' : SentinelState M H R) : Prop where
  runid : sn'.runid = sn.runid
  history : ∃ l, sn'.history = sn.history ++ l ∧ ∀ r ∈ l, ¬r.IsVote m
  leaderEpoch : (sn'.masters m).leaderEpoch = (sn.masters m).leaderEpoch
  leader : (sn'.masters m).leader = none ∨ (sn'.masters m).leader = (sn.masters m).leader
  peers : ∃ f, (sn'.masters m).sentinels = (sn.masters m).sentinels.map f ∧ ∀ p, PeerKept p (f p)

variable {m m' : M} {sn sn' sn₁ sn₂ sn₃ : SentinelState M H R} {master : Master H R}

namespace KeepsVotes

theorem refl (m : M) (sn : SentinelState M H R) : KeepsVotes m sn sn :=
  ⟨rfl, ⟨[], (List.append_nil _).symm, fun _ hr => absurd hr List.not_mem_nil⟩, rfl, Or.inr rfl,
    id, (List.map_id _).symm, PeerKept.refl⟩

theorem trans (h : KeepsVotes m sn₁ sn₂) (h' : KeepsVotes m sn₂ sn₃) : KeepsVotes m sn₁ sn₃ := by
  obtain ⟨l, hl, hno⟩ := h.history
  obtain ⟨l', hl', hno'⟩ := h'.history
  obtain ⟨f, hf, hkept⟩ := h.peers
  obtain ⟨f', hf', hkept'⟩ := h'.peers
  refine ⟨h'.runid.trans h.runid, ⟨l ++ l', by rw [hl', hl, List.append_assoc], ?_⟩,
    h'.leaderEpoch.trans h.leaderEpoch, ?_, ?_⟩
  · intro r hr
    exact (List.mem_append.mp hr).elim (hno r) (hno' r)
  · rcases h'.leader with hnone | heq
    · exact Or.inl hnone
    · rw [heq]
      exact h.leader
  · exact ⟨f' ∘ f, by rw [hf', hf, List.map_map], fun p => (hkept p).trans (hkept' (f p))⟩

theorem record {r : Record M R} (sn : SentinelState M H R) (hr : ¬r.IsVote m) :
    KeepsVotes m sn (sn.record r) := by
  refine ⟨rfl, ⟨[r], rfl, fun r' hr' => ?_⟩, rfl, Or.inr rfl, id, (List.map_id _).symm,
    PeerKept.refl⟩
  rw [List.mem_singleton.mp hr']
  exact hr

section
variable [DecidableEq M]

theorem setMaster_of_ne (hm : m ≠ m') : KeepsVotes m sn (sn.setMaster m' master) := by
  have hsame : (sn.setMaster m' master).masters m = sn.masters m :=
    SentinelState.setMaster_of_ne _ _ hm
  exact ⟨rfl, ⟨[], (List.append_nil _).symm, fun _ hr => absurd hr List.not_mem_nil⟩, by rw [hsame],
    Or.inr (by rw [hsame]), id, by rw [hsame, List.map_id], PeerKept.refl⟩

theorem setMaster_map {f : Peer H R → Peer H R}
    (hepoch : master.leaderEpoch = (sn.masters m').leaderEpoch)
    (hleader : master.leader = none ∨ master.leader = (sn.masters m').leader)
    (hpeers : master.sentinels = (sn.masters m').sentinels.map f)
    (hkept : ∀ p, PeerKept p (f p)) : KeepsVotes m sn (sn.setMaster m' master) := by
  by_cases hm : m = m'
  · subst hm
    have hself : (sn.setMaster m master).masters m = master := SentinelState.setMaster_self ..
    refine ⟨rfl, ⟨[], (List.append_nil _).symm, fun _ hr => absurd hr List.not_mem_nil⟩, ?_, ?_,
      f, ?_, hkept⟩
    · rw [hself, hepoch]
    · rwa [hself]
    · rw [hself, hpeers]
  · exact setMaster_of_ne hm

theorem setMaster (hepoch : master.leaderEpoch = (sn.masters m').leaderEpoch)
    (hleader : master.leader = none ∨ master.leader = (sn.masters m').leader)
    (hpeers : master.sentinels = (sn.masters m').sentinels) :
    KeepsVotes m sn (sn.setMaster m' master) :=
  setMaster_map hepoch hleader (hpeers.trans (List.map_id _).symm) PeerKept.refl

end

end KeepsVotes

section
variable [DecidableEq M] {now : ℤ}

/-! ### The failover -/

theorem sentinelAbortFailover_keepsVotes :
    (sentinelAbortFailover sn m' now).Ensures (fun _ => True) (KeepsVotes m sn) := by
  rw [sentinelAbortFailover]
  split
  · trivial
  · dsimp only
    split
    · exact KeepsVotes.setMaster rfl (Or.inr rfl) rfl
    · refine Ensures.bind (Q := fun _ => True) ?_ fun _ _ =>
        KeepsVotes.setMaster rfl (Or.inr rfl) rfl
      rw [Master.slaveAt]
      split <;> trivial

theorem ensures_true {α : Type} (x : Except Fault α) :
    x.Ensures (fun _ => True) fun _ => True := by
  cases x <;> trivial

theorem sentinelFailoverSelectSlave_keepsVotes [LinearOrder R] {choice : List SlaveRef} :
    (sentinelFailoverSelectSlave sn m' choice now).Ensures (fun _ => True) (KeepsVotes m sn) := by
  rw [sentinelFailoverSelectSlave]
  dsimp only
  split
  · exact sentinelAbortFailover_keepsVotes
  · exact KeepsVotes.setMaster rfl (Or.inr rfl) rfl

theorem sentinelFailoverSendSlaveOfNoOne_keepsVotes {accepted : SlaveRef → Bool} :
    (sentinelFailoverSendSlaveOfNoOne sn m' accepted now).Ensures (fun _ => True)
      (KeepsVotes m sn) := by
  rw [sentinelFailoverSendSlaveOfNoOne]
  split
  · trivial
  next p _ =>
    refine (ensures_true _).bind fun s _ => ?_
    split
    · split
      · exact sentinelAbortFailover_keepsVotes
      · exact KeepsVotes.refl m sn
    · split
      · exact KeepsVotes.refl m sn
      · have hrecord : KeepsVotes m sn (sn.record (.slaveofNoOne p)) :=
          KeepsVotes.record sn fun h => h
        exact hrecord.trans (KeepsVotes.setMaster rfl (Or.inr rfl) rfl)

theorem sentinelFailoverWaitPromotion_keepsVotes :
    (sentinelFailoverWaitPromotion sn m' now).Ensures (fun _ => True) (KeepsVotes m sn) := by
  rw [sentinelFailoverWaitPromotion]
  split
  · exact sentinelAbortFailover_keepsVotes
  · exact KeepsVotes.refl m sn

theorem sentinelFailoverDetectEnd_keepsVotes {accepted : SlaveRef → Bool} :
    (sentinelFailoverDetectEnd sn m' accepted now).Ensures (fun _ => True) (KeepsVotes m sn) := by
  rw [sentinelFailoverDetectEnd]
  split
  · exact KeepsVotes.refl m sn
  · refine (ensures_true _).bind fun s _ => ?_
    split
    · exact KeepsVotes.refl m sn
    · dsimp only
      generalize (if decide (now - (sn.masters m').failoverStateChangeTime >
          (sn.masters m').failoverTimeout) = true then 0 else _ : ℕ) = notReconfigured
      split <;> split
      · exact KeepsVotes.setMaster rfl (Or.inr rfl) rfl
      · exact KeepsVotes.setMaster rfl (Or.inr rfl) rfl
      · exact KeepsVotes.setMaster rfl (Or.inr rfl) rfl
      · exact KeepsVotes.setMaster rfl (Or.inr rfl) rfl

theorem sentinelFailoverReconfNextSlave_keepsVotes {accepted : SlaveRef → Bool} :
    (sentinelFailoverReconfNextSlave sn m' accepted now).Ensures (fun _ => True)
      (KeepsVotes m sn) := by
  rw [sentinelFailoverReconfNextSlave]
  refine (ensures_true _).bind fun slaves _ => ?_
  have hslaves : KeepsVotes m sn (sn.setMaster m' { sn.masters m' with slaves }) :=
    KeepsVotes.setMaster rfl (Or.inr rfl) rfl
  exact sentinelFailoverDetectEnd_keepsVotes.imp fun _ hnext => hslaves.trans hnext

theorem sentinelStartFailoverIfNeeded_cases (sn : SentinelState M H R) (m : M)
    (now desync : ℤ) : sentinelStartFailoverIfNeeded sn m now desync = (sn, false) ∨
      sentinelStartFailoverIfNeeded sn m now desync =
        (sentinelStartFailover sn m now desync, true) := by
  rw [sentinelStartFailoverIfNeeded]
  split
  · exact Or.inl rfl
  · split
    · exact Or.inl rfl
    · split
      · exact Or.inl rfl
      · exact Or.inr rfl

theorem sentinelStartFailoverIfNeeded_keepsVotes (sn : SentinelState M H R) (m' : M)
    (now desync : ℤ) : KeepsVotes m sn (sentinelStartFailoverIfNeeded sn m' now desync).1 := by
  rcases sentinelStartFailoverIfNeeded_cases sn m' now desync with heq | heq
  · rw [heq]
    exact KeepsVotes.refl m sn
  · have hstart : KeepsVotes m sn (sn.setMaster m' { sn.masters m' with
        failoverState := .waitStart
        failoverInProgress := true
        failoverEpoch := nextEpoch sn.currentEpoch
        failoverStartTime := now + desync
        failoverStateChangeTime := now }) := KeepsVotes.setMaster rfl (Or.inr rfl) rfl
    rw [heq]
    exact ⟨hstart.runid, hstart.history, hstart.leaderEpoch, hstart.leader, hstart.peers⟩

omit [DecidableEq M] in
theorem askPeer_kept (sn : SentinelState M H R) (m' : M) (forced : Bool) (now : ℤ)
    (p : Peer H R) : PeerKept p (askPeer sn m' forced now p).1 := by
  rw [askPeer]
  split
  · split
    · exact ⟨rfl, rfl, Or.inl rfl⟩
    · exact ⟨rfl, rfl, Or.inl rfl⟩
  · split
    · exact PeerKept.refl p
    · exact PeerKept.refl p

theorem sentinelAskMasterStateToOtherSentinels_keepsVotes (sn : SentinelState M H R) (m' : M)
    (forced : Bool) (now : ℤ) :
    KeepsVotes m sn (sentinelAskMasterStateToOtherSentinels sn m' forced now).1 := by
  refine KeepsVotes.setMaster_map rfl (Or.inr rfl) ?_ fun p => askPeer_kept sn m' forced now p
  exact List.map_map ..

/-! ### Masters that are reset, and replies to `INFO` -/

theorem createSlave_keepsVotes [DecidableEq H] (sn : SentinelState M H R) (m' : M)
    (addr : Addr H) (now : ℤ) : KeepsVotes m sn (createSlave sn m' addr now) := by
  rw [createSlave]
  split
  · exact KeepsVotes.refl m sn
  · have hslaves : KeepsVotes m sn (sn.setMaster m' { sn.masters m' with
        slaves := (sn.masters m').slaves ++ [(sn.nextSlave, newSlave addr now)] }) :=
      KeepsVotes.setMaster rfl (Or.inr rfl) rfl
    exact ⟨hslaves.runid, hslaves.history, hslaves.leaderEpoch, hslaves.leader, hslaves.peers⟩

theorem sentinelResetMasterAndChangeAddress_keepsVotes [DecidableEq H]
    (sn : SentinelState M H R) (m' : M) (addr : Addr H) (now : ℤ) :
    KeepsVotes m sn (sentinelResetMasterAndChangeAddress sn m' addr now) := by
  rw [sentinelResetMasterAndChangeAddress]
  generalize slavesAfterSwitch (sn.masters m') addr = slaves
  have hreset : KeepsVotes m sn (sentinelResetMaster sn m' true now) :=
    KeepsVotes.setMaster rfl (Or.inl rfl) rfl
  generalize sentinelResetMaster sn m' true now = sn₁ at hreset
  have haddr : KeepsVotes m sn₁
      (sn₁.setMaster m' { sn₁.masters m' with addr, sDownSinceTime := 0 }) :=
    KeepsVotes.setMaster rfl (Or.inr rfl) rfl
  have hkeeps := hreset.trans haddr
  dsimp only
  generalize sn₁.setMaster m' _ = sn₂ at hkeeps
  induction slaves generalizing sn₂ with
  | nil => exact hkeeps
  | cons slave slaves ih => exact ih _ (hkeeps.trans (createSlave_keepsVotes sn₂ m' slave now))

theorem sentinelFailoverSwitchToPromotedSlave_keepsVotes [DecidableEq H] :
    (sentinelFailoverSwitchToPromotedSlave sn m' now).Ensures (fun _ => True)
      (KeepsVotes m sn) := by
  rw [sentinelFailoverSwitchToPromotedSlave]
  exact (ensures_true _).bind fun addr _ =>
    sentinelResetMasterAndChangeAddress_keepsVotes sn m' addr now

theorem slaveToMaster_keepsVotes (hepoch : master.leaderEpoch = (sn.masters m').leaderEpoch)
    (hleader : master.leader = (sn.masters m').leader)
    (hpeers : master.sentinels = (sn.masters m').sentinels) :
    KeepsVotes m sn (sn.setMaster m' (slaveToMaster master now)) := by
  rw [slaveToMaster]
  split
  · exact KeepsVotes.setMaster hepoch (Or.inr hleader) hpeers
  · exact KeepsVotes.setMaster hepoch (Or.inr hleader) hpeers

theorem sentinelRefreshSlaveInfo_keepsVotes [DecidableEq H] {p : SlaveRef}
    {lines : List (InfoLine H R)} :
    (sentinelRefreshSlaveInfo sn m' p lines now).Ensures (fun _ => True) (KeepsVotes m sn) := by
  rw [sentinelRefreshSlaveInfo]
  refine (ensures_true _).bind fun s _ => ?_
  dsimp only
  generalize lines.foldl readSlaveLine (s, none) = read
  have hrecord : KeepsVotes m sn
      (if read.2 = some .master then sn.record (.reportedMaster p) else sn) := by
    split
    · exact KeepsVotes.record sn fun h => h
    · exact KeepsVotes.refl m sn
  have hmasters : (if read.2 = some .master then sn.record (.reportedMaster p) else sn).masters =
      sn.masters := by
    split <;> rfl
  generalize (if read.2 = some .master then sn.record (.reportedMaster p) else sn) = sn₁
    at hrecord hmasters
  rw [← hmasters]
  split
  · exact hrecord.trans (KeepsVotes.setMaster rfl (Or.inr rfl) rfl)
  · split
    · exact hrecord.trans (slaveToMaster_keepsVotes rfl rfl rfl)
    · split
      · refine (ensures_true _).bind fun _ _ => (ensures_true _).bind fun s _ => ?_
        exact hrecord.trans (KeepsVotes.setMaster rfl (Or.inr rfl) rfl)
      · exact hrecord.trans (KeepsVotes.setMaster rfl (Or.inr rfl) rfl)

theorem sentinelRefreshMasterInfo_keepsVotes [DecidableEq H] (sn : SentinelState M H R) (m' : M)
    (lines : List (InfoLine H R)) (now : ℤ) :
    KeepsVotes m sn (sentinelRefreshMasterInfo sn m' lines now) := by
  have hline : ∀ (p : SentinelState M H R × Option Role) line,
      KeepsVotes m p.1 (readMasterLine m' now p line).1 := by
    rintro ⟨sn, role⟩ line
    cases line with
    | runId runid => exact KeepsVotes.setMaster rfl (Or.inr rfl) rfl
    | slave addr => exact createSlave_keepsVotes sn m' addr now
    | _ => exact KeepsVotes.refl m sn
  have hlines : ∀ p : SentinelState M H R × Option Role,
      KeepsVotes m p.1 (lines.foldl (readMasterLine m' now) p).1 := by
    induction lines with
    | nil => exact fun p => KeepsVotes.refl m p.1
    | cons line lines ih => exact fun p => (hline p line).trans (ih _)
  have hread := hlines (sn, none)
  rw [sentinelRefreshMasterInfo]
  generalize lines.foldl (readMasterLine m' now) (sn, none) = read at hread
  exact hread.trans (KeepsVotes.setMaster rfl (Or.inr rfl) rfl)

theorem process_keepsVotes [DecidableEq H] [LinearOrder R] {e : Event M H R}
    (hlocal : isLocal e = true) :
    (process sn e).Ensures (fun _ => True) (KeepsVotes m sn) := by
  cases e with
  | timer => exact absurd hlocal Bool.false_ne_true
  | hello => exact absurd hlocal Bool.false_ne_true
  | request => exact absurd hlocal Bool.false_ne_true
  | reply => exact absurd hlocal Bool.false_ne_true
  | failover => exact absurd hlocal Bool.false_ne_true
  | reset => exact absurd hlocal Bool.false_ne_true
  | switch m' now =>
    rw [process]
    split
    · exact sentinelFailoverSwitchToPromotedSlave_keepsVotes
    · exact KeepsVotes.refl m sn
  | slaveInfo m' p lines now => exact sentinelRefreshSlaveInfo_keepsVotes
  | masterInfo m' lines now => exact sentinelRefreshMasterInfo_keepsVotes sn m' lines now
  | link m' target disconnected =>
    cases target with
    | master => exact KeepsVotes.setMaster rfl (Or.inr rfl) rfl
    | slave p => exact KeepsVotes.setMaster rfl (Or.inr rfl) rfl
    | sentinel runid =>
      refine KeepsVotes.setMaster_map rfl (Or.inr rfl) rfl fun p => ?_
      split
      · exact ⟨rfl, rfl, Or.inr ⟨rfl, rfl⟩⟩
      · exact PeerKept.refl p
  | down m' target sDown now =>
    cases target with
    | master => exact KeepsVotes.setMaster rfl (Or.inr rfl) rfl
    | slave p => exact KeepsVotes.setMaster rfl (Or.inr rfl) rfl
    | sentinel => exact KeepsVotes.setMaster rfl (Or.inr rfl) rfl
  | tilt tilt =>
    have hkeeps := KeepsVotes.refl m sn
    exact ⟨hkeeps.runid, hkeeps.history, hkeeps.leaderEpoch, hkeeps.leader, hkeeps.peers⟩

/-! ### Votes -/

/-- The votes of a Sentinel for a master: one for an epoch, in growing epochs. -/
structure Ballots (m : M) (sn : SentinelState M H R) : Prop where
  le : ∀ e L, .vote m e L ∈ sn.history → e ≤ (sn.masters m).leaderEpoch
  once : ∀ e L L', .vote m e L ∈ sn.history → .vote m e L' ∈ sn.history → L = L'
  leader : ∀ L, (sn.masters m).leader = some L →
    .vote m (sn.masters m).leaderEpoch L ∈ sn.history

/-- What a function makes of a state that at most casts votes. -/
structure Casts (m : M) (sn sn' : SentinelState M H R) : Prop where
  runid : sn'.runid = sn.runid
  history : ∃ l, sn'.history = sn.history ++ l ∧ ∀ e, .elected m e ∉ l
  peers : ∃ f, (sn'.masters m).sentinels = (sn.masters m).sentinels.map f ∧ ∀ p, PeerKept p (f p)
  ballots : Ballots m sn → Ballots m sn'

omit [DecidableEq M] in
theorem KeepsVotes.casts (h : KeepsVotes m sn sn') : Casts m sn sn' := by
  obtain ⟨l, hl, hno⟩ := h.history
  have hvote : ∀ e L, .vote m e L ∈ sn'.history → .vote m e L ∈ sn.history := by
    intro e L hmem
    rw [hl] at hmem
    exact (List.mem_append.mp hmem).resolve_right fun hin => hno _ hin rfl
  refine ⟨h.runid, ⟨l, hl, fun e hin => hno _ hin rfl⟩, h.peers, fun hballots => ⟨?_, ?_, ?_⟩⟩
  · intro e L hmem
    rw [h.leaderEpoch]
    exact hballots.le e L (hvote e L hmem)
  · intro e L L' hmem hmem'
    exact hballots.once e L L' (hvote e L hmem) (hvote e L' hmem')
  · intro L hL
    rcases h.leader with hnone | heq
    · exact absurd (hL.symm.trans hnone) (Option.some_ne_none L)
    · rw [h.leaderEpoch, hl]
      exact List.mem_append_left _ (hballots.leader L (heq.symm.trans hL))

omit [DecidableEq M] in
theorem Casts.trans (h : Casts m sn₁ sn₂) (h' : Casts m sn₂ sn₃) : Casts m sn₁ sn₃ := by
  obtain ⟨l, hl, hno⟩ := h.history
  obtain ⟨l', hl', hno'⟩ := h'.history
  obtain ⟨f, hf, hkept⟩ := h.peers
  obtain ⟨f', hf', hkept'⟩ := h'.peers
  refine ⟨h'.runid.trans h.runid, ⟨l ++ l', by rw [hl', hl, List.append_assoc], ?_⟩,
    ⟨f' ∘ f, by rw [hf', hf, List.map_map], fun p => (hkept p).trans (hkept' (f p))⟩,
    fun hballots => h'.ballots (h.ballots hballots)⟩
  intro e hin
  exact (List.mem_append.mp hin).elim (hno e) (hno' e)

omit [DecidableEq M] in
theorem Ballots.cast {epoch : ℕ} {runid : R} (h : Ballots m sn)
    (hlt : (sn.masters m).leaderEpoch < epoch) (hepoch : (sn'.masters m).leaderEpoch = epoch)
    (hleader : (sn'.masters m).leader = some runid)
    (hhistory : sn'.history = sn.history ++ [.vote m epoch runid]) : Ballots m sn' := by
  have hvote : ∀ e L, .vote m e L ∈ sn'.history →
      .vote m e L ∈ sn.history ∨ e = epoch ∧ L = runid := by
    intro e L hmem
    rw [hhistory] at hmem
    refine (List.mem_append.mp hmem).imp_right fun hin => ?_
    obtain ⟨-, he, hL⟩ := Record.vote.inj (List.mem_singleton.mp hin)
    exact ⟨he, hL⟩
  have hbefore : ∀ L, .vote m epoch L ∉ sn.history := fun L hmem =>
    absurd (h.le epoch L hmem) (Nat.not_le.mpr hlt)
  refine ⟨fun e L hmem => ?_, fun e L L' hmem hmem' => ?_, fun L hL => ?_⟩
  · rw [hepoch]
    rcases hvote e L hmem with hold | ⟨rfl, -⟩
    · exact Nat.le_of_lt (Nat.lt_of_le_of_lt (h.le e L hold) hlt)
    · exact Nat.le_refl _
  · rcases hvote e L hmem with hold | ⟨rfl, rfl⟩
    · rcases hvote e L' hmem' with hold' | ⟨rfl, -⟩
      · exact h.once e L L' hold hold'
      · exact absurd hold (hbefore L)
    · rcases hvote e L' hmem' with hold' | ⟨-, rfl⟩
      · exact absurd hold' (hbefore L')
      · rfl
  · obtain rfl : runid = L := Option.some_inj.mp (hleader.symm.trans hL)
    rw [hepoch, hhistory]
    exact List.mem_append_right _ (List.mem_singleton.mpr rfl)

theorem sentinelVoteLeader_casts [DecidableEq R] (sn : SentinelState M H R) (m' : M)
    (epoch : ℕ) (runid : R) (start : ℤ) :
    Casts m sn (sentinelVoteLeader sn m' epoch runid start) := by
  rw [sentinelVoteLeader]
  have hraised : KeepsVotes m sn
      (if epoch > sn.currentEpoch then { sn with currentEpoch := epoch } else sn) := by
    have hkeeps := KeepsVotes.refl m sn
    split
    · exact ⟨hkeeps.runid, hkeeps.history, hkeeps.leaderEpoch, hkeeps.leader, hkeeps.peers⟩
    · exact hkeeps
  have hle : epoch ≤ (if epoch > sn.currentEpoch then { sn with currentEpoch := epoch }
      else sn).currentEpoch := by
    split
    · exact Nat.le_refl epoch
    next hgt => exact Nat.le_of_not_lt hgt
  generalize (if epoch > sn.currentEpoch then { sn with currentEpoch := epoch } else sn) = sn₁
    at hraised hle
  refine hraised.casts.trans ?_
  split
  next hvote =>
    by_cases hm : m = m'
    · subst hm
      have hself : ∀ master : Master H R, (sn₁.setMaster m master).masters m = master :=
        SentinelState.setMaster_self sn₁ m
      refine ⟨rfl, ⟨_, rfl, fun e hin => by cases List.mem_singleton.mp hin⟩, ⟨id, ?_,
        PeerKept.refl⟩, fun hballots => ?_⟩
      · rw [List.map_id]
        show Master.sentinels ((sn₁.setMaster m _).masters m) = _
        rw [hself]
      · refine hballots.cast (Nat.lt_of_lt_of_le hvote.1 hle) ?_ ?_ rfl
        · show Master.leaderEpoch ((sn₁.setMaster m _).masters m) = _
          rw [hself]
        · show Master.leader ((sn₁.setMaster m _).masters m) = _
          rw [hself]
    · have hrecord : ∀ sn : SentinelState M H R,
          KeepsVotes m sn (sn.record (.vote m' sn₁.currentEpoch runid)) := fun sn =>
        KeepsVotes.record sn fun heq => hm heq.symm
      exact ((KeepsVotes.setMaster_of_ne hm).trans (hrecord _)).casts
  · exact (KeepsVotes.refl m sn₁).casts

theorem isMasterDownByAddr_casts [DecidableEq H] [DecidableEq R] (sn : SentinelState M H R)
    (request : Request M H R) (start : ℤ) :
    Casts m sn (isMasterDownByAddr sn request start).1 := by
  rw [isMasterDownByAddr]
  split
  · exact (KeepsVotes.refl m sn).casts
  · dsimp only
    split
    · exact (KeepsVotes.refl m sn).casts
    · split
      · exact (KeepsVotes.refl m sn).casts
      · exact sentinelVoteLeader_casts sn _ _ _ start

theorem isMasterDownByAddr_reply [DecidableEq H] [DecidableEq R] {request : Request M H R}
    {start : ℤ} {reply : Reply M R} {leader : R} (hballots : Ballots m sn)
    (hm : ∀ m', masterByAddr sn request.addr = some m' → m' = m)
    (hreply : (isMasterDownByAddr sn request start).2 = some reply)
    (hleader : reply.leader = some leader) :
    .vote m reply.epoch leader ∈ (isMasterDownByAddr sn request start).1.history := by
  rw [isMasterDownByAddr] at hreply ⊢
  split at hreply
  · cases hreply
  next hepoch =>
    rw [if_neg hepoch]
    dsimp only at hreply ⊢
    split at hreply
    · obtain rfl := Option.some_inj.mp hreply
      cases hleader
    next m' hlookup =>
      obtain rfl := hm m' hlookup
      split at hreply
      · obtain rfl := Option.some_inj.mp hreply
        cases hleader
      next runid hrunid =>
        obtain rfl := Option.some_inj.mp hreply
        exact ((sentinelVoteLeader_casts sn m' _ runid start).ballots hballots).leader _ hleader

theorem isMasterDownByAddr_source [DecidableEq H] [DecidableEq R] {request : Request M H R}
    {start : ℤ} {reply : Reply M R}
    (hreply : (isMasterDownByAddr sn request start).2 = some reply) :
    reply.source = request.target ∧ reply.master = request.master := by
  rw [isMasterDownByAddr] at hreply
  split at hreply
  · cases hreply
  · dsimp only at hreply
    split at hreply
    · obtain rfl := Option.some_inj.mp hreply
      exact ⟨rfl, rfl⟩
    · split at hreply
      · obtain rfl := Option.some_inj.mp hreply
        exact ⟨rfl, rfl⟩
      · obtain rfl := Option.some_inj.mp hreply
        exact ⟨rfl, rfl⟩

theorem sentinelProcessHelloMessage_keepsVotes [DecidableEq H] [DecidableEq R]
    (hello : Hello M H R) (now : ℤ) (hknown : hello.master = m → knows sn hello = true) :
    KeepsVotes m sn (sentinelProcessHelloMessage sn hello now) := by
  have hpeer : KeepsVotes m sn (addPeer sn hello now) := by
    rw [addPeer]
    split
    · exact KeepsVotes.refl m sn
    next hnot => exact KeepsVotes.setMaster_of_ne fun heq => hnot (hknown heq.symm)
  rw [sentinelProcessHelloMessage]
  generalize addPeer sn hello now = sn₁ at hpeer
  have hepoch : KeepsVotes m sn₁ (if hello.currentEpoch > sn₁.currentEpoch then
      { sn₁ with currentEpoch := hello.currentEpoch } else sn₁) := by
    have hkeeps := KeepsVotes.refl m sn₁
    split
    · exact ⟨hkeeps.runid, hkeeps.history, hkeeps.leaderEpoch, hkeeps.leader, hkeeps.peers⟩
    · exact hkeeps
  dsimp only
  generalize (if hello.currentEpoch > sn₁.currentEpoch then
    { sn₁ with currentEpoch := hello.currentEpoch } else sn₁) = sn₂ at hepoch
  refine hpeer.trans (hepoch.trans ?_)
  split
  · have hconfig : KeepsVotes m sn₂ (sn₂.setMaster hello.master { sn₂.masters hello.master with
        configEpoch := hello.masterConfigEpoch }) := KeepsVotes.setMaster rfl (Or.inr rfl) rfl
    split
    · exact hconfig.trans (sentinelResetMasterAndChangeAddress_keepsVotes _ _ _ now)
    · exact hconfig
  · exact KeepsVotes.refl m sn₂

/-! ### The winner -/

theorem mostVoted_count [DecidableEq R] (votes keys : List R) {k : R}
    (h : (mostVoted votes keys).1 = some k) : (mostVoted votes keys).2 = votes.count k := by
  suffices hfold : ∀ w : Option R × ℕ, (w.1 = some k → w.2 = votes.count k) →
      (keys.foldl (fun w k => if votes.count k > w.2 then (some k, votes.count k) else w) w).1 =
        some k →
      (keys.foldl (fun w k => if votes.count k > w.2 then (some k, votes.count k) else w) w).2 =
        votes.count k from
    hfold (none, 0) (fun hnone => absurd hnone.symm (Option.some_ne_none k)) h
  clear h
  induction keys with
  | nil => exact fun w hw h => hw h
  | cons key keys ih =>
    intro w hw
    refine ih _ fun h => ?_
    dsimp only at h ⊢
    split at h
    next hgt =>
      rw [if_pos hgt]
      rw [Option.some_inj.mp h]
    next hle =>
      rw [if_neg hle]
      exact hw h

theorem countMyVote_count [DecidableEq R] {votes : List R} {winner : Option R × ℕ}
    {myvote : Option R} {k : R} (hwinner : winner.1 = some k → winner.2 = votes.count k)
    (h : (countMyVote votes winner myvote).1 = some k) :
    (countMyVote votes winner myvote).2 ≤ votes.count k + if myvote = some k then 1 else 0 := by
  cases myvote with
  | none =>
    rw [countMyVote] at h ⊢
    rw [hwinner h]
    exact Nat.le_add_right _ _
  | some v =>
    rw [countMyVote] at h ⊢
    split at h
    next hgt =>
      obtain rfl := Option.some_inj.mp h
      rw [if_pos rfl, if_pos hgt]
    next hle =>
      rw [if_neg hle, hwinner h]
      exact Nat.le_add_right _ _

theorem sentinelGetLeader_voted [DecidableEq R] {epoch : ℕ} {order : List R} {start : ℤ}
    {leader : Option R} (h : sentinelGetLeader sn m epoch order start = .ok (sn', leader)) :
    ∃ runid, sn' = sentinelVoteLeader sn m epoch runid start := by
  rw [sentinelGetLeader] at h
  split at h
  · cases h
  · exact ⟨_, (Prod.mk.inj (Except.ok.inj h)).1.symm⟩

theorem sentinelGetLeader_counts [DecidableEq R] {epoch : ℕ} {order : List R} {start : ℤ}
    {w : R} (h : sentinelGetLeader sn m epoch order start = .ok (sn', some w)) :
    ((sn.masters m).sentinels.length + 1) / 2 + 1 ≤ (countedVotes sn m).count w +
      if (sn'.masters m).leaderEpoch = epoch ∧ (sn'.masters m).leader = some w then 1 else 0 := by
  rw [sentinelGetLeader] at h
  split at h
  · cases h
  · obtain ⟨hsn, hw⟩ := Prod.mk.inj (Except.ok.inj h)
    have hcasts : Casts m sn sn' := hsn ▸ sentinelVoteLeader_casts sn m epoch _ start
    rw [hsn] at hw
    generalize hmyvote : (if (sn'.masters m).leaderEpoch = epoch then (sn'.masters m).leader
      else none) = myvote at hw
    split at hw
    · exact absurd hw.symm (Option.some_ne_none w)
    next hmany =>
      obtain ⟨hmany, -⟩ := not_or.mp hmany
      have hlength : (sn'.masters m).sentinels.length = (sn.masters m).sentinels.length := by
        obtain ⟨f, hf, -⟩ := hcasts.peers
        rw [hf, List.length_map]
      rw [hlength] at hmany
      refine Nat.le_trans (Nat.le_of_not_lt hmany)
        (Nat.le_trans (countMyVote_count (mostVoted_count _ _) hw) (Nat.add_le_add_left ?_ _))
      subst hmyvote
      by_cases hepoch : (sn'.masters m).leaderEpoch = epoch
      · simp only [hepoch, if_true, true_and]
        exact Nat.le_refl _
      · rw [if_neg hepoch, if_neg (Option.some_ne_none w).symm]
        exact Nat.zero_le _

/-! ### The end of `WAIT_START` -/

section
variable [DecidableEq R]

/-- The votes that are counted for a master, if there are any, are those of its failover. -/
def CountsFailover (sn : SentinelState M H R) (m : M) : Prop :=
  sn.currentEpoch = (sn.masters m).failoverEpoch ∨ countedVotes sn m = []

/-- A majority voted for the Sentinel in an epoch, as far as it knows. -/
def Won (m : M) (sn sn' : SentinelState M H R) (e : ℕ) : Prop :=
  ((sn.masters m).sentinels.length + 1) / 2 + 1 ≤
    ((sn.masters m).sentinels.countP fun p =>
      decide (p.leader = some sn.runid ∧ p.leaderEpoch = e)) +
    if .vote m e sn.runid ∈ sn'.history then 1 else 0

/-- What a function makes of a state that casts votes and elects only winners. -/
structure Elects (m : M) (sn sn' : SentinelState M H R) : Prop where
  runid : sn'.runid = sn.runid
  history : ∃ l, sn'.history = sn.history ++ l ∧ ∀ e, .elected m e ∈ l → Won m sn sn' e
  peers : ∃ f, (sn'.masters m).sentinels = (sn.masters m).sentinels.map f ∧ ∀ p, PeerKept p (f p)
  ballots : Ballots m sn → Ballots m sn'

theorem Casts.elects (h : Casts m sn sn') : Elects m sn sn' := by
  obtain ⟨l, hl, hno⟩ := h.history
  exact ⟨h.runid, ⟨l, hl, fun e hin => absurd hin (hno e)⟩, h.peers, h.ballots⟩

theorem Won.of_casts {e : ℕ} (h : Casts m sn₁ sn₂) (hwon : Won m sn₂ sn₃ e) : Won m sn₁ sn₃ e := by
  obtain ⟨f, hf, hkept⟩ := h.peers
  rw [Won, h.runid, hf, List.length_map, List.countP_map] at hwon
  refine Nat.le_trans hwon (Nat.add_le_add_right (List.countP_mono_left fun p _ hp => ?_) _)
  obtain ⟨hleader, hepoch⟩ := of_decide_eq_true hp
  rcases (hkept p).leader with hnone | ⟨hsame, hsame'⟩
  · exact absurd (hleader.symm.trans hnone) (Option.some_ne_none _)
  · exact decide_eq_true ⟨hsame.symm.trans hleader, hsame'.symm.trans hepoch⟩

theorem Won.mono {e : ℕ} (hwon : Won m sn₁ sn₂ e) (hgrow : ∀ r ∈ sn₂.history, r ∈ sn₃.history) :
    Won m sn₁ sn₃ e := by
  refine Nat.le_trans hwon (Nat.add_le_add_left ?_ _)
  split
  next hin => rw [if_pos (hgrow _ hin)]
  · exact Nat.zero_le _

theorem Casts.trans_elects (h : Casts m sn₁ sn₂) (h' : Elects m sn₂ sn₃) : Elects m sn₁ sn₃ := by
  obtain ⟨l, hl, hno⟩ := h.history
  obtain ⟨l', hl', hwon⟩ := h'.history
  obtain ⟨f, hf, hkept⟩ := h.peers
  obtain ⟨f', hf', hkept'⟩ := h'.peers
  refine ⟨h'.runid.trans h.runid, ⟨l ++ l', by rw [hl', hl, List.append_assoc], fun e hin => ?_⟩,
    ⟨f' ∘ f, by rw [hf', hf, List.map_map], fun p => (hkept p).trans (hkept' (f p))⟩,
    fun hballots => h'.ballots (h.ballots hballots)⟩
  exact (hwon e ((List.mem_append.mp hin).resolve_left (hno e))).of_casts h

theorem Elects.trans_casts (h : Elects m sn₁ sn₂) (h' : Casts m sn₂ sn₃) : Elects m sn₁ sn₃ := by
  obtain ⟨l, hl, hwon⟩ := h.history
  obtain ⟨l', hl', hno⟩ := h'.history
  obtain ⟨f, hf, hkept⟩ := h.peers
  obtain ⟨f', hf', hkept'⟩ := h'.peers
  refine ⟨h'.runid.trans h.runid, ⟨l ++ l', by rw [hl', hl, List.append_assoc], fun e hin => ?_⟩,
    ⟨f' ∘ f, by rw [hf', hf, List.map_map], fun p => (hkept p).trans (hkept' (f p))⟩,
    fun hballots => h'.ballots (h.ballots hballots)⟩
  refine (hwon e ((List.mem_append.mp hin).resolve_right (hno e))).mono fun r hr => ?_
  rw [hl']
  exact List.mem_append_left _ hr

theorem Casts.elected {e : ℕ} (h : Casts m sn sn') (hwon : Won m sn sn' e) :
    Elects m sn (sn'.record (.elected m e)) := by
  obtain ⟨l, hl, hno⟩ := h.history
  have hvote : ∀ e' L, .vote m e' L ∈ (sn'.record (.elected m e)).history →
      .vote m e' L ∈ sn'.history := by
    intro e' L hin
    refine (List.mem_append.mp hin).resolve_right fun hin => ?_
    cases List.mem_singleton.mp hin
  refine ⟨h.runid, ⟨l ++ [.elected m e], ?_, fun e' hin => ?_⟩, h.peers, fun hballots => ?_⟩
  · show sn'.history ++ [_] = _
    rw [hl, List.append_assoc]
  · have hin := (List.mem_append.mp hin).resolve_left (hno e')
    obtain ⟨-, rfl⟩ := Record.elected.inj (List.mem_singleton.mp hin)
    exact hwon.mono fun r hr => List.mem_append_left _ hr
  · have hold := h.ballots hballots
    exact ⟨fun e' L hin => hold.le e' L (hvote e' L hin),
      fun e' L L' hin hin' => hold.once e' L L' (hvote e' L hin) (hvote e' L' hin'),
      fun L hL => List.mem_append_left _ (hold.leader L hL)⟩

theorem sentinelVoteLeader_failoverEpoch (sn : SentinelState M H R) (m' : M) (epoch : ℕ)
    (runid : R) (start : ℤ) :
    ((sentinelVoteLeader sn m' epoch runid start).masters m').failoverEpoch =
      (sn.masters m').failoverEpoch := by
  rw [sentinelVoteLeader]
  have hmasters : (if epoch > sn.currentEpoch then { sn with currentEpoch := epoch }
      else sn).masters = sn.masters := by
    split <;> rfl
  generalize (if epoch > sn.currentEpoch then { sn with currentEpoch := epoch } else sn) = sn₁
    at hmasters
  rw [← hmasters]
  split
  · show Master.failoverEpoch ((sn₁.setMaster m' _).masters m') = _
    rw [SentinelState.setMaster_self]
  · rfl

omit [DecidableEq M] in
theorem countedVotes_count {e : ℕ} {w : R}
    (hcount : sn.currentEpoch = e ∨ countedVotes sn m = []) :
    (countedVotes sn m).count w ≤ (sn.masters m).sentinels.countP fun p =>
      decide (p.leader = some w ∧ p.leaderEpoch = e) := by
  rcases hcount with rfl | hnone
  · rw [countedVotes]
    induction (sn.masters m).sentinels with
    | nil => exact Nat.le_refl _
    | cons p peers ih =>
      rw [List.filterMap_cons, List.countP_cons]
      by_cases hepoch : p.leaderEpoch = sn.currentEpoch
      · rw [if_pos hepoch]
        cases hleader : p.leader with
        | none => exact Nat.le_trans ih (Nat.le_add_right _ _)
        | some L =>
          simp only [List.count_cons, hepoch, and_true, beq_iff_eq, Option.some_inj,
            decide_eq_true_eq]
          exact Nat.add_le_add_right ih _
      · rw [if_neg hepoch]
        exact Nat.le_trans ih (Nat.le_add_right _ _)
  · rw [hnone]
    exact Nat.zero_le _

theorem sentinelFailoverWaitStart_elects {order : List R} {now start : ℤ}
    (hballots : Ballots m sn)
    (hcount : m' = m → CountsFailover sn m) :
    (sentinelFailoverWaitStart sn m' order now start).Ensures (fun _ => True) (Elects m sn) := by
  rw [sentinelFailoverWaitStart]
  cases hleader : sentinelGetLeader sn m' (sn.masters m').failoverEpoch order start with
  | error => trivial
  | ok p =>
    obtain ⟨sn', leader⟩ := p
    rw [ok_bind]
    obtain ⟨runid, hvoted⟩ := sentinelGetLeader_voted hleader
    have hcasts : Casts m sn sn' := hvoted ▸ sentinelVoteLeader_casts sn m' _ runid start
    have hepoch : (sn'.masters m').failoverEpoch = (sn.masters m').failoverEpoch :=
      hvoted ▸ sentinelVoteLeader_failoverEpoch sn m' _ runid start
    have hwritten : ∀ (sn' : SentinelState M H R) (state : FailoverState),
        KeepsVotes m sn' (sn'.setMaster m' { sn'.masters m' with
          failoverState := state, failoverStateChangeTime := now }) := fun _ _ =>
      KeepsVotes.setMaster rfl (Or.inr rfl) rfl
    dsimp only
    by_cases hwinner : leader = some sn'.runid
    · rw [decide_eq_true hwinner, if_neg (fun hnot => hnot.1 rfl), if_pos rfl]
      by_cases hm : m' = m
      · subst hm
        refine Elects.trans_casts (hcasts.elected ?_) (hwritten (sn'.record _) _).casts
        rw [hepoch]
        refine Nat.le_trans (sentinelGetLeader_counts (hwinner ▸ hleader)) ?_
        rw [hcasts.runid]
        refine Nat.add_le_add (countedVotes_count (hcount rfl)) ?_
        split
        next hvote =>
          -- the vote of this Sentinel is in its history
          have hmem := (hcasts.ballots hballots).leader sn.runid hvote.2
          rw [hvote.1] at hmem
          rw [if_pos hmem]
        · exact Nat.zero_le _
      · have hrecord : KeepsVotes m sn'
            (sn'.record (.elected m' (sn'.masters m').failoverEpoch)) := KeepsVotes.record sn' hm
        exact (hcasts.trans (hrecord.trans (hwritten _ _)).casts).elects
    · rw [decide_eq_false hwinner]
      split
      · split
        · exact sentinelAbortFailover_keepsVotes.imp fun _ hnext =>
            (hcasts.trans hnext.casts).elects
        · exact hcasts.elects
      · rw [if_neg Bool.false_ne_true]
        exact (hcasts.trans (hwritten sn' _).casts).elects

end

section
variable [LinearOrder R] {env : TimerEnv R}

theorem sentinelFailoverStateMachine_elects (hballots : Ballots m sn)
    (hcount : m' = m → (sn.masters m).failoverState = .waitStart → CountsFailover sn m) :
    (sentinelFailoverStateMachine sn m' env).Ensures (fun _ => True) (Elects m sn) := by
  rw [sentinelFailoverStateMachine]
  split
  · exact (KeepsVotes.refl m sn).casts.elects
  · split
    next hstate =>
      exact sentinelFailoverWaitStart_elects hballots fun hm => hcount hm (hm ▸ hstate)
    · exact sentinelFailoverSelectSlave_keepsVotes.imp fun _ hnext => hnext.casts.elects
    · exact sentinelFailoverSendSlaveOfNoOne_keepsVotes.imp fun _ hnext => hnext.casts.elects
    · exact sentinelFailoverWaitPromotion_keepsVotes.imp fun _ hnext => hnext.casts.elects
    · exact sentinelFailoverReconfNextSlave_keepsVotes.imp fun _ hnext => hnext.casts.elects
    · exact (KeepsVotes.refl m sn).casts.elects
    · exact (KeepsVotes.refl m sn).casts.elects

omit [LinearOrder R] in
theorem startFailover_epochs (sn : SentinelState M H R) (m : M) (now desync : ℤ) :
    (sentinelAskMasterStateToOtherSentinels (sentinelStartFailover sn m now desync) m true
        now).1.currentEpoch =
      ((sentinelAskMasterStateToOtherSentinels (sentinelStartFailover sn m now desync) m true
        now).1.masters m).failoverEpoch := by
  show nextEpoch sn.currentEpoch = Master.failoverEpoch (((sentinelStartFailover sn m now
    desync).setMaster m _).masters m)
  rw [SentinelState.setMaster_self]
  show _ = Master.failoverEpoch ((sn.setMaster m _).masters m)
  rw [SentinelState.setMaster_self]

theorem sentinelHandleMaster_elects (hballots : Ballots m sn)
    (hcount : m' = m → sn.tilt = false → (sn.masters m).failoverState = .waitStart →
      CountsFailover sn m) :
    (sentinelHandleMaster sn m' env).Ensures (fun _ => True) fun p => Elects m sn p.1 := by
  rw [sentinelHandleMaster]
  split
  · exact (KeepsVotes.refl m sn).casts.elects
  next htilt =>
    have hdown : KeepsVotes m sn (sentinelCheckObjectivelyDown sn m') :=
      KeepsVotes.setMaster rfl (Or.inr rfl) rfl
    have hcount₁ : m' = m → ((sentinelCheckObjectivelyDown sn m').masters m).failoverState =
        .waitStart → CountsFailover (sentinelCheckObjectivelyDown sn m') m := by
      rintro rfl
      rw [sentinelCheckObjectivelyDown, CountsFailover, countedVotes, SentinelState.setMaster_self]
      exact hcount rfl (Bool.eq_false_iff.mpr htilt)
    dsimp only
    generalize sentinelCheckObjectivelyDown sn m' = sn₁ at hdown hcount₁
    have hstart : KeepsVotes m sn₁ _ :=
      sentinelStartFailoverIfNeeded_keepsVotes sn₁ m' env.now env.desync
    have hcases := sentinelStartFailoverIfNeeded_cases sn₁ m' env.now env.desync
    generalize sentinelStartFailoverIfNeeded sn₁ m' env.now env.desync = started at hstart hcases
    have hforced : KeepsVotes m started.1 (if started.2 = true then
        sentinelAskMasterStateToOtherSentinels started.1 m' true env.now
        else (started.1, [])).1 := by
      split
      · exact sentinelAskMasterStateToOtherSentinels_keepsVotes started.1 m' true env.now
      · exact KeepsVotes.refl m started.1
    have hbefore : Casts m sn _ := (hdown.trans (hstart.trans hforced)).casts
    have hcount₂ : ∀ sn₂, (if started.2 = true then
        sentinelAskMasterStateToOtherSentinels started.1 m' true env.now
        else (started.1, [])).1 = sn₂ → m' = m → (sn₂.masters m).failoverState = .waitStart →
          CountsFailover sn₂ m := by
      rintro sn₂ rfl rfl hstate
      rcases hcases with rfl | rfl
      · exact hcount₁ rfl hstate
      · exact Or.inl (startFailover_epochs sn₁ m' env.now env.desync)
    refine (sentinelFailoverStateMachine_elects (hbefore.ballots hballots)
      (hcount₂ _ rfl)).bind ?_
    intro sn' hnext
    have hask : KeepsVotes m sn' _ :=
      sentinelAskMasterStateToOtherSentinels_keepsVotes sn' m' false env.now
    exact hbefore.trans_elects (hnext.trans_casts hask.casts)

end

end

end

end Sentinel

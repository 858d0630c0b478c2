/-
The election of the Sentinel that fails a master over (`sentinel.c`).

* `Elections` — the invariant of the Sentinels and of the messages in flight;
* `Elections.majority` — a winner has the votes of a majority of all Sentinels;
* `Elections.step` — every event keeps the invariant, if the votes that are counted are those of the
  failover, and a request is about the same master for both Sentinels;
* `run_elections` — then at most one Sentinel is elected in an epoch, by a majority.
-/
import Mathlib.Data.Finset.Card
import Mathlib.Data.Fintype.Card
import RedisModel.Runs
import RedisModel.SentinelElectionSpec

open Except Runs

namespace Sentinel

section
variable {M H R : Type} {addr : R → Addr H} {m : M} {net net' : Network M H R}

/-- A majority of the Sentinels voted for one of them in an epoch. -/
def Majority [Fintype R] (net : Network M H R) (m : M) (e : ℕ) (i : R) : Prop :=
  ∃ Q : Finset R, Fintype.card R < 2 * Q.card ∧ ∀ j ∈ Q, .vote m e i ∈ (net.sentinels j).history

/-- The Sentinels know each other; their votes, what they know of the votes of others and the
replies in flight agree, and those that were elected have a majority. -/
structure Elections [Fintype R] (addr : R → Addr H) (m : M) (net : Network M H R) : Prop where
  runid : ∀ i, (net.sentinels i).runid = i
  ballots : ∀ i, Ballots m (net.sentinels i)
  nodup : ∀ i, (((net.sentinels i).masters m).sentinels.map fun p => p.runid).Nodup
  known : ∀ i j, j ∈ ((net.sentinels i).masters m).sentinels.map (fun p => p.runid) ↔ j ≠ i
  addrs : ∀ i, ∀ p ∈ ((net.sentinels i).masters m).sentinels, p.addr = addr p.runid
  peers : ∀ i, ∀ p ∈ ((net.sentinels i).masters m).sentinels, ∀ L, p.leader = some L →
    .vote m p.leaderEpoch L ∈ (net.sentinels p.runid).history
  replies : ∀ r ∈ net.replies, r.master = m → ∀ L, r.leader = some L →
    .vote m r.epoch L ∈ (net.sentinels r.source).history
  hellos : ∀ h ∈ net.hellos, h.addr = addr h.runid
  elected : ∀ i e, .elected m e ∈ (net.sentinels i).history → Majority net m e i

theorem Elections.unique [Fintype R] [DecidableEq R] (h : Elections addr m net) {i j : R} {e : ℕ}
    (hi : .elected m e ∈ (net.sentinels i).history)
    (hj : .elected m e ∈ (net.sentinels j).history) : i = j := by
  obtain ⟨Q, hcard, hvotes⟩ := h.elected i e hi
  obtain ⟨Q', hcard', hvotes'⟩ := h.elected j e hj
  obtain ⟨x, hx⟩ : (Q ∩ Q').Nonempty := by
    refine Finset.inter_nonempty_of_card_lt_card_add_card (Finset.subset_univ Q)
      (Finset.subset_univ Q') ?_
    rw [Finset.card_univ]
    omega
  obtain ⟨hx, hx'⟩ := Finset.mem_inter.mp hx
  exact (h.ballots x).once e i j (hvotes x hx) (hvotes' x hx')

section
variable [DecidableEq M] [DecidableEq H] [LinearOrder R]

/-! ### Writes to one Sentinel -/

omit [DecidableEq M] [DecidableEq H] in
theorem Network.setSentinel_self (net : Network M H R) (i : R) (sn : SentinelState M H R) :
    (net.setSentinel i sn).sentinels i = sn := by
  simp only [Network.setSentinel, Function.update_self]

omit [DecidableEq M] [DecidableEq H] in
theorem Network.setSentinel_of_ne (net : Network M H R) {i j : R} (sn : SentinelState M H R)
    (h : j ≠ i) : (net.setSentinel i sn).sentinels j = net.sentinels j := by
  simp only [Network.setSentinel, Function.update_of_ne h]

omit [DecidableEq M] [DecidableEq H] in
theorem Network.forall_setSentinel {P : R → SentinelState M H R → Prop} {i : R}
    {sn : SentinelState M H R} (hself : P i sn) (hothers : ∀ j, P j (net.sentinels j)) (j : R) :
    P j ((net.setSentinel i sn).sentinels j) := by
  by_cases hj : j = i
  · rw [hj, Network.setSentinel_self]
    exact hself
  · rw [Network.setSentinel_of_ne _ _ hj]
    exact hothers j

/-- Nothing is lost of the histories. -/
def Grows (net net' : Network M H R) : Prop :=
  ∀ i, ∀ r ∈ (net.sentinels i).history, r ∈ (net'.sentinels i).history

omit [DecidableEq M] [DecidableEq H] in
theorem Grows.setSentinel {i : R} {sn : SentinelState M H R}
    (h : ∀ r ∈ (net.sentinels i).history, r ∈ sn.history) : Grows net (net.setSentinel i sn) := by
  intro j r hr
  by_cases hj : j = i
  · rw [hj] at hr ⊢
    rw [Network.setSentinel_self]
    exact h r hr
  · rwa [Network.setSentinel_of_ne _ _ hj]

variable [Fintype R]

omit [DecidableEq M] [DecidableEq H] [LinearOrder R] in
theorem Majority.mono {e : ℕ} {i : R} (h : Majority net m e i) (hgrow : Grows net net') :
    Majority net' m e i := by
  obtain ⟨Q, hcard, hvotes⟩ := h
  exact ⟨Q, hcard, fun j hj => hgrow j _ (hvotes j hj)⟩

namespace Elections

omit [DecidableEq M] [DecidableEq H] in
theorem setSentinel (h : Elections addr m net) {i : R} {sn : SentinelState M H R}
    (hrunid : sn.runid = (net.sentinels i).runid)
    (hgrow : ∀ r ∈ (net.sentinels i).history, r ∈ sn.history) (hballots : Ballots m sn)
    (hnames : (sn.masters m).sentinels.map (fun p => (p.runid, p.addr)) =
      ((net.sentinels i).masters m).sentinels.map fun p => (p.runid, p.addr))
    (hpeers : ∀ p ∈ (sn.masters m).sentinels, ∀ L, p.leader = some L →
      .vote m p.leaderEpoch L ∈ (net.sentinels p.runid).history)
    (helected : ∀ e, .elected m e ∈ sn.history →
      .elected m e ∈ (net.sentinels i).history ∨ Majority (net.setSentinel i sn) m e i) :
    Elections addr m (net.setSentinel i sn) := by
  have hgrows : Grows net (net.setSentinel i sn) := Grows.setSentinel hgrow
  have hrunids : (sn.masters m).sentinels.map (fun p => p.runid) =
      ((net.sentinels i).masters m).sentinels.map fun p => p.runid := by
    have hfst := congrArg (List.map Prod.fst) hnames
    rwa [List.map_map, List.map_map] at hfst
  constructor
  · exact Network.forall_setSentinel (P := fun j sn => sn.runid = j) (hrunid.trans (h.runid i))
      h.runid
  · exact Network.forall_setSentinel (P := fun _ sn => Ballots m sn) hballots h.ballots
  · exact Network.forall_setSentinel
      (P := fun _ sn => ((sn.masters m).sentinels.map fun p => p.runid).Nodup)
      (hrunids ▸ h.nodup i) h.nodup
  · exact Network.forall_setSentinel
      (P := fun i sn => ∀ j, j ∈ (sn.masters m).sentinels.map (fun p => p.runid) ↔ j ≠ i)
      (hrunids ▸ h.known i) h.known
  · refine Network.forall_setSentinel
      (P := fun _ sn => ∀ p ∈ (sn.masters m).sentinels, p.addr = addr p.runid) ?_ h.addrs
    intro p hp
    have hmem : (p.runid, p.addr) ∈ ((net.sentinels i).masters m).sentinels.map
        fun p => (p.runid, p.addr) := hnames ▸ List.mem_map_of_mem hp
    obtain ⟨p', hp', heq⟩ := List.mem_map.mp hmem
    obtain ⟨hrunid, haddr⟩ := Prod.mk.inj heq
    rw [← hrunid, ← haddr]
    exact h.addrs i p' hp'
  · exact Network.forall_setSentinel
      (P := fun _ sn => ∀ p ∈ (sn.masters m).sentinels, ∀ L, p.leader = some L →
        .vote m p.leaderEpoch L ∈ ((net.setSentinel i _).sentinels p.runid).history)
      (fun p hp L hL => hgrows _ _ (hpeers p hp L hL))
      fun j p hp L hL => hgrows _ _ (h.peers j p hp L hL)
  · exact fun r hr hm L hL => hgrows _ _ (h.replies r hr hm L hL)
  · exact h.hellos
  · refine Network.forall_setSentinel
      (P := fun j sn => ∀ e, .elected m e ∈ sn.history → Majority _ m e j) (fun e he => ?_)
      fun j e he => (h.elected j e he).mono hgrows
    rcases helected e he with hold | hnew
    · exact (h.elected i e hold).mono hgrows
    · exact hnew

omit [DecidableEq H] in
theorem majority (h : Elections addr m net) {i : R} {sn : SentinelState M H R} {e : ℕ}
    (hgrow : ∀ r ∈ (net.sentinels i).history, r ∈ sn.history)
    (hwon : Won m (net.sentinels i) sn e) : Majority (net.setSentinel i sn) m e i := by
  have hgrows : Grows net (net.setSentinel i sn) := Grows.setSentinel hgrow
  have hnodup := h.nodup i
  have hknown := h.known i
  have hpeers := h.peers i
  rw [Won, h.runid i, List.countP_eq_length_filter] at hwon
  generalize ((net.sentinels i).masters m).sentinels = peers at hnodup hknown hpeers hwon
  -- the others and this one
  have hcard : Fintype.card R = peers.length + 1 := by
    have huniv : (peers.map fun p => p.runid).toFinset = Finset.univ.erase i := by
      ext j
      rw [List.mem_toFinset, hknown j, Finset.mem_erase]
      exact (and_iff_left (Finset.mem_univ j)).symm
    have hlength := List.toFinset_card_of_nodup hnodup
    rw [huniv, Finset.card_erase_of_mem (Finset.mem_univ i), Finset.card_univ, List.length_map]
      at hlength
    have hpos : 0 < Fintype.card R := Fintype.card_pos_iff.mpr ⟨i⟩
    omega
  set voters := peers.filter fun p => decide (p.leader = some i ∧ p.leaderEpoch = e)
  have hvoted : ∀ j ∈ (voters.map fun p => p.runid).toFinset,
      j ≠ i ∧ .vote m e i ∈ ((net.setSentinel i sn).sentinels j).history := by
    intro j hj
    obtain ⟨p, hp, rfl⟩ := List.mem_map.mp (List.mem_toFinset.mp hj)
    obtain ⟨hmem, hvote⟩ := List.mem_filter.mp hp
    obtain ⟨hleader, rfl⟩ := of_decide_eq_true hvote
    exact ⟨(hknown _).mp (List.mem_map_of_mem hmem), hgrows _ _ (hpeers p hmem i hleader)⟩
  have hvotersCard : (voters.map fun p => p.runid).toFinset.card = voters.length := by
    rw [List.toFinset_card_of_nodup, List.length_map]
    exact hnodup.sublist ((List.filter_sublist ..).map _)
  by_cases hown : .vote m e i ∈ sn.history
  · refine ⟨insert i (voters.map fun p => p.runid).toFinset, ?_, ?_⟩
    · rw [Finset.card_insert_of_notMem fun hin => (hvoted i hin).1 rfl, hvotersCard, hcard]
      rw [if_pos hown] at hwon
      omega
    · intro j hj
      rcases Finset.mem_insert.mp hj with rfl | hj
      · rw [Network.setSentinel_self]
        exact hown
      · exact (hvoted j hj).2
  · refine ⟨(voters.map fun p => p.runid).toFinset, ?_, fun j hj => (hvoted j hj).2⟩
    rw [hvotersCard, hcard]
    rw [if_neg hown] at hwon
    omega

omit [DecidableEq H] in
theorem elects (h : Elections addr m net) {i : R} {sn : SentinelState M H R}
    (helects : Elects m (net.sentinels i) sn) : Elections addr m (net.setSentinel i sn) := by
  obtain ⟨l, hl, hwon⟩ := helects.history
  obtain ⟨f, hf, hkept⟩ := helects.peers
  have hgrow : ∀ r ∈ (net.sentinels i).history, r ∈ sn.history := fun r hr =>
    hl ▸ List.mem_append_left l hr
  refine h.setSentinel helects.runid hgrow (helects.ballots (h.ballots i)) ?_ ?_ ?_
  · rw [hf, List.map_map]
    refine List.map_congr_left fun p _ => ?_
    rw [Function.comp_apply, (hkept p).runid, (hkept p).addr]
  · intro p' hp' L hL
    rw [hf] at hp'
    obtain ⟨p, hp, rfl⟩ := List.mem_map.mp hp'
    rcases (hkept p).leader with hnone | ⟨hleader, hepoch⟩
    · exact absurd (hL.symm.trans hnone) (Option.some_ne_none L)
    · rw [hepoch, (hkept p).runid]
      exact h.peers i p hp L (hleader.symm.trans hL)
  · intro e he
    rw [hl] at he
    exact (List.mem_append.mp he).imp_right fun hin => h.majority hgrow (hwon e hin)

omit [DecidableEq M] [DecidableEq H] [LinearOrder R] in
theorem messages (h : Elections addr m net) {replies : List (Reply M R)}
    {hellos : List (Hello M H R)} (requests : List (Request M H R))
    (hreplies : ∀ r ∈ replies, r.master = m → ∀ L, r.leader = some L →
      .vote m r.epoch L ∈ (net.sentinels r.source).history)
    (hhellos : ∀ hello ∈ hellos, hello.addr = addr hello.runid) :
    Elections addr m { net with requests, replies, hellos } :=
  ⟨h.runid, h.ballots, h.nodup, h.known, h.addrs, h.peers, hreplies, hhellos, h.elected⟩

omit [DecidableEq H] in
theorem receive (h : Elections addr m net) {reply : Reply M R} (hreply : reply ∈ net.replies)
    (i : R) (now : ℤ) :
    Elections addr m (net.setSentinel i
      (sentinelReceiveIsMasterDownReply (net.sentinels i) reply now)) := by
  by_cases hm : m = reply.master
  · subst hm
    have hmasters : (sentinelReceiveIsMasterDownReply (net.sentinels i) reply now).masters
        reply.master = _ := SentinelState.setMaster_self ..
    refine h.setSentinel rfl (fun _ hr => hr) ?_ ?_ ?_ fun e he => Or.inl he
    · have hballots := h.ballots i
      refine ⟨?_, hballots.once, ?_⟩
      · rw [hmasters]
        exact hballots.le
      · rw [hmasters]
        exact hballots.leader
    · rw [hmasters, List.map_map]
      refine List.map_congr_left fun p _ => ?_
      rw [Function.comp_apply]
      split
      · split <;> rfl
      · rfl
    · rw [hmasters]
      intro p' hp' L hL
      obtain ⟨p, hp, rfl⟩ := List.mem_map.mp hp'
      split at hL
      next hsource =>
        rw [if_pos hsource]
        dsimp only at hL ⊢
        split at hL
        next leader hleader =>
          obtain rfl : leader = L := Option.some_inj.mp hL
          have hvote := h.replies reply hreply rfl leader hleader
          rwa [← hsource] at hvote
        · exact h.peers i p hp L hL
      next hsource =>
        rw [if_neg hsource]
        exact h.peers i p hp L hL
  · have hkeeps : KeepsVotes m (net.sentinels i)
        (sentinelReceiveIsMasterDownReply (net.sentinels i) reply now) :=
      KeepsVotes.setMaster_of_ne hm
    exact h.elects hkeeps.casts.elects

theorem request (h : Elections addr m net) {request : Request M H R} {start : ℤ}
    {requests : List (Request M H R)}
    (hm : request.master = m → ∀ m',
      masterByAddr (net.sentinels request.target) request.addr = some m' → m' = m) :
    Elections addr m
      { net.setSentinel request.target
          (isMasterDownByAddr (net.sentinels request.target) request start).1 with
        requests
        replies := net.replies ++
          (isMasterDownByAddr (net.sentinels request.target) request start).2.toList } := by
  have hcasts := isMasterDownByAddr_casts (m := m) (net.sentinels request.target) request start
  have hnext := h.elects hcasts.elects
  refine hnext.messages requests ?_ hnext.hellos
  intro r hr hrm L hL
  rcases List.mem_append.mp hr with hr | hr
  · exact hnext.replies r hr hrm L hL
  · have hreply := Option.mem_toList.mp hr
    obtain ⟨hsource, hmaster⟩ := isMasterDownByAddr_source hreply
    rw [hsource, Network.setSentinel_self]
    exact isMasterDownByAddr_reply (h.ballots _) (hm (hmaster.symm.trans hrm)) hreply hL

omit [DecidableEq M] in
theorem knows_hello (h : Elections addr m net) {hello : Hello M H R} (hmem : hello ∈ net.hellos)
    {i : R} (hi : hello.runid ≠ i) (hm : hello.master = m) :
    knows (net.sentinels i) hello = true := by
  obtain ⟨p, hp, hrunid⟩ := List.mem_map.mp ((h.known i hello.runid).mpr hi)
  refine List.any_eq_true.mpr ⟨p, hm ▸ hp, ?_⟩
  rw [h.addrs i p hp, h.hellos hello hmem, hrunid, decide_eq_true rfl, decide_eq_true rfl]
  rfl

end Elections

/-! ### Runs -/

/-- The votes that are counted, if there are any, are those of the failover, and the address in a
request is no other master's. -/
def NetworkStepOk (m : M) (net : Network M H R) : NetworkEvent M H R → Prop
  | .timer i m' _ =>
    m' = m → (net.sentinels i).tilt = false →
      ((net.sentinels i).masters m).failoverState = .waitStart →
        CountsFailover (net.sentinels i) m
  | .request k _ =>
    ∀ request ∈ net.requests[k]?, request.master = m →
      ∀ m' ∈ masterByAddr (net.sentinels request.target) request.addr, m' = m
  | _ => True

theorem Elections.process (h : Elections addr m net) {e : NetworkEvent M H R}
    (hok : NetworkStepOk m net e) :
    (processNetwork addr net e).Ensures (fun _ => True) (Elections addr m) := by
  cases e with
  | timer i m' env =>
    refine (sentinelHandleMaster_elects (h.ballots i) hok).bind fun p hp => ?_
    have hnext := h.elects hp
    exact hnext.messages _ hnext.replies hnext.hellos
  | own i e =>
    rw [processNetwork]
    split
    next hlocal =>
      exact (process_keepsVotes hlocal).bind fun sn hkeeps => h.elects hkeeps.casts.elects
    · exact h
  | request k start =>
    rw [processNetwork]
    split
    · exact h
    next request hrequest => exact h.request (hok request hrequest)
  | reply k now =>
    rw [processNetwork]
    split
    · exact h
    next reply hreply =>
      have hnext := h.receive (List.mem_of_getElem? hreply) reply.target now
      exact hnext.messages _ (fun r hr => hnext.replies r (List.mem_of_mem_eraseIdx hr))
        hnext.hellos
  | publish i m' =>
    rw [processNetwork]
    cases hhello : sentinelSendHello (net.sentinels i) m' (addr i) with
    | error => trivial
    | ok hello =>
      refine h.messages net.requests h.replies fun hello' hmem => ?_
      rcases List.mem_append.mp hmem with hold | hnew
      · exact h.hellos hello' hold
      · rw [List.mem_singleton.mp hnew]
        obtain ⟨masterAddr, -, heq⟩ := bind_eq_ok.mp hhello
        obtain rfl := Except.ok.inj heq
        exact congrArg addr (h.runid i).symm
  | hello k i now =>
    rw [processNetwork]
    split
    · exact h
    next hello hhello =>
      split
      · exact h
      next hi =>
        have hkeeps : KeepsVotes m (net.sentinels i) _ :=
          sentinelProcessHelloMessage_keepsVotes hello now
            (h.knows_hello (List.mem_of_getElem? hhello) hi)
        exact h.elects hkeeps.casts.elects

/-- Before a run: the Sentinels know each other, none has voted, and no message is in flight. -/
structure Acquainted (addr : R → Addr H) (m : M) (net : Network M H R) : Prop where
  runid : ∀ i, (net.sentinels i).runid = i
  history : ∀ i, (net.sentinels i).history = []
  leader : ∀ i, ((net.sentinels i).masters m).leader = none
  nodup : ∀ i, (((net.sentinels i).masters m).sentinels.map fun p => p.runid).Nodup
  known : ∀ i j, j ∈ ((net.sentinels i).masters m).sentinels.map (fun p => p.runid) ↔ j ≠ i
  peers : ∀ i, ∀ p ∈ ((net.sentinels i).masters m).sentinels,
    p.addr = addr p.runid ∧ p.leader = none
  requests : net.requests = []
  replies : net.replies = []
  hellos : net.hellos = []

omit [DecidableEq M] [DecidableEq H] [LinearOrder R] in
theorem Acquainted.elections (h : Acquainted addr m net) : Elections addr m net := by
  have hno : ∀ i r, r ∉ (net.sentinels i).history := fun i r hr =>
    absurd (h.history i ▸ hr) List.not_mem_nil
  have hnone : ∀ {o : Option R} {L : R}, o = none → o ≠ some L := fun ho hL =>
    absurd (hL.symm.trans ho) (Option.some_ne_none _)
  refine ⟨h.runid, fun i => ⟨?_, ?_, ?_⟩, h.nodup, h.known, fun i p hp => (h.peers i p hp).1, ?_,
    ?_, ?_, ?_⟩
  · exact fun _ _ hin => absurd hin (hno i _)
  · exact fun _ _ _ hin => absurd hin (hno i _)
  · exact fun L hL => absurd hL (hnone (h.leader i))
  · exact fun i p hp L hL => absurd hL (hnone (h.peers i p hp).2)
  · exact fun r hr => absurd (h.replies ▸ hr) List.not_mem_nil
  · exact fun hello hmem => absurd (h.hellos ▸ hmem) List.not_mem_nil
  · exact fun i e hin => absurd hin (hno i _)

/-- In a run in which Sentinels count the votes of the failover only, at most one leaves
`WAIT_START` as the leader in an epoch, and a majority voted for it in that epoch. -/
theorem run_elections {es : List (NetworkEvent M H R)} (hstart : Acquainted addr m net)
    (hall : AllSteps (networkStep addr) (NetworkStepOk m) net es)
    (hrun : run (networkStep addr) net es = some net') :
    (∀ i j e, .elected m e ∈ (net'.sentinels i).history →
      .elected m e ∈ (net'.sentinels j).history → i = j) ∧
    ∀ i e, .elected m e ∈ (net'.sentinels i).history → Majority net' m e i := by
  have hnet' : Elections addr m net' := by
    refine run_invariant_of_allSteps (fun net e net' h hok hstep => ?_) hstart.elections hall hrun
    exact (h.process hok).of_eq_ok (toOption_eq_some.mp hstep)
  exact ⟨fun i j e hi hj => hnet'.unique hi hj, hnet'.elected⟩

end

end

/-! ### Runs of three Sentinels -/

instance (m : Bool) (net : Network Bool ℕ (Fin 3)) : ∀ e, Decidable (NetworkStepOk m net e)
  | .timer i m' _ =>
    inferInstanceAs (Decidable (m' = m → (net.sentinels i).tilt = false →
      ((net.sentinels i).masters m).failoverState = .waitStart → _ = _ ∨ _ = _))
  | .request k _ =>
    inferInstanceAs (Decidable (∀ request ∈ net.requests[k]?, request.master = m →
      ∀ m' ∈ masterByAddr (net.sentinels request.target) request.addr, m' = m))
  | .own .. | .reply .. | .publish .. | .hello .. => isTrue trivial

/-- The address of a Sentinel. -/
def sentinelAddr (i : Fin 3) : Addr ℕ := ⟨10 + i, 26379⟩

/-- Three Sentinels that monitor two masters. -/
def threeSentinels : Network Bool ℕ (Fin 3) where
  requests := []
  replies := []
  hellos := []
  sentinels i :=
    { runid := i
      currentEpoch := 0
      tilt := false
      names := [false, true]
      nextSlave := 0
      history := []
      masters := fun m => monitored ⟨if m then 2 else 1, 6379⟩
        (((List.finRange 3).filter (· ≠ i)).map fun j =>
          { addr := sentinelAddr j
            runid := j
            leader := none
            leaderEpoch := 0
            masterDown := false
            disconnected := false
            lastMasterDownReplyTime := 0 }) }

/-- The timer at a time. -/
def envAt (now : ℤ) : TimerEnv (Fin 3) where
  now
  order := []
  choice := []
  accepted _ := true
  start := 0
  desync := 0

/-- The three Sentinels. -/
def firstSentinel : Fin 3 := ⟨0, by decide⟩
def secondSentinel : Fin 3 := ⟨1, by decide⟩
def lastSentinel : Fin 3 := ⟨2, by decide⟩

/-- The first Sentinel finds the master down and gets the vote of the last one. -/
def firstElected : List (NetworkEvent Bool ℕ (Fin 3)) :=
  [.own firstSentinel (.down false .master true 1000000),
    .timer firstSentinel false (envAt 1000000), .request 1 0, .reply 0 1000000,
    .timer firstSentinel false (envAt 1000000)]

/-- The second one starts a failover in the same epoch, and the last one answers that it voted for
the first.  Then the failover of the other master raises the epoch, and it votes again. -/
def bothElected : List (NetworkEvent Bool ℕ (Fin 3)) :=
  [.own firstSentinel (.down false .master true 1000000),
    .own secondSentinel (.down false .master true 1000000),
    .timer firstSentinel false (envAt 1000000), .timer secondSentinel false (envAt 1000000),
    .request 1 0, .reply 0 1000000, .timer firstSentinel false (envAt 1000000),
    .request 4 0, .reply 0 1000000, .request 5 0, .reply 0 1000000,
    .own lastSentinel (.down true .master true 1000000), .timer lastSentinel true (envAt 1000000),
    .publish lastSentinel false, .hello 0 secondSentinel 1002000,
    .timer secondSentinel false (envAt 1002000), .request 11 0, .reply 0 1002000,
    .timer secondSentinel false (envAt 1002000)]

theorem acquainted_threeSentinels : Acquainted sentinelAddr false threeSentinels := by
  refine ⟨fun _ => rfl, fun _ => rfl, fun _ => rfl, by decide, by decide, by decide, rfl, rfl, rfl⟩

theorem exists_of_map_network {α : Type} {f : Network Bool ℕ (Fin 3) → α} {a : α}
    {es : List (NetworkEvent Bool ℕ (Fin 3))}
    (h : (run (networkStep sentinelAddr) threeSentinels es).map f = some a) :
    ∃ net, run (networkStep sentinelAddr) threeSentinels es = some net ∧ f net = a :=
  Option.map_eq_some_iff.mp h

/-- The first Sentinel is elected, by two of the three. -/
theorem run_elections_firstElected : ∃ net,
    run (networkStep sentinelAddr) threeSentinels firstElected = some net ∧
      .elected false 1 ∈ (net.sentinels firstSentinel).history ∧
        Majority net false 1 firstSentinel := by
  obtain ⟨net, hrun, helected⟩ : ∃ net,
      run (networkStep sentinelAddr) threeSentinels firstElected = some net ∧
        decide (.elected false 1 ∈ (net.sentinels firstSentinel).history) = true :=
    exists_of_map_network (by decide)
  have helected := of_decide_eq_true helected
  exact ⟨net, hrun, helected,
    (run_elections acquainted_threeSentinels (by decide) hrun).2 firstSentinel 1 helected⟩

/-- Two Sentinels are elected in one epoch. -/
theorem not_run_elections : ¬∀ (addr : Fin 3 → Addr ℕ) (net net' : Network Bool ℕ (Fin 3))
    (es : List (NetworkEvent Bool ℕ (Fin 3))), Acquainted addr false net →
      run (networkStep addr) net es = some net' →
      (∀ i j e, .elected false e ∈ (net'.sentinels i).history →
        .elected false e ∈ (net'.sentinels j).history → i = j) ∧
      ∀ i e, .elected false e ∈ (net'.sentinels i).history → Majority net' false e i := by
  intro hall
  obtain ⟨net, hrun, helected⟩ : ∃ net,
      run (networkStep sentinelAddr) threeSentinels bothElected = some net ∧
        decide (.elected false 1 ∈ (net.sentinels firstSentinel).history ∧
          .elected false 1 ∈ (net.sentinels secondSentinel).history) = true :=
    exists_of_map_network (by decide)
  obtain ⟨hfirst, hsecond⟩ := of_decide_eq_true helected
  have hunique := (hall sentinelAddr threeSentinels net bothElected acquainted_threeSentinels hrun).1
  exact absurd (hunique firstSentinel secondSentinel 1 hfirst hsecond) (by decide)

end Sentinel

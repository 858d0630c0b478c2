/-
Safety of elections.

The nodes of a cluster exchange packets over links that keep their order and may lose
packets.  A run records which master voted for which slave in which epoch, and which slave
promoted itself with which configuration epoch.

* `electionStep` — the steps of the cluster;
* `Elected` — the invariant: a slave that asked for votes has counted at most one
  acknowledgement of each master that voted for it in the epoch of its request;
* `run_electionSafety` — at most one slave promotes itself in an epoch, and a majority
  voted for it;
* `run_staleAcks` — acknowledgements counted before the request of an election was sent.
-/
import Mathlib.Data.Finset.Card
import RedisModel.ClusterElectionSpec

open Except

namespace ClusterState

variable {N : Type}

/-! ### The cluster -/

/-- The packets on the links. -/
inductive Packet (N : Type) where
  | ping (hdr : ClusterMsg N)
  | authRequest (hdr : ClusterMsg N)
  | authAck (hdr : ClusterMsg N)

/-- A vote that was granted. -/
structure Ballot (N : Type) where
  voter : N
  epoch : ℕ
  slave : N

/-- The nodes, the packets on the link from one node to another, the votes granted and the
promotions with their configuration epochs. -/
structure World (N : Type) where
  node : N → ClusterState N
  link : N → N → List (Packet N)
  votes : List (Ballot N)
  promoted : List (N × ℕ)

section
variable [LinearOrder N]

namespace World

/-- Change the state of a node. -/
def setState (w : World N) (i : N) (st : ClusterState N) : World N :=
  { w with node := Function.update w.node i st }

/-- Change the packets on a link. -/
def setLink (w : World N) (i j : N) (packets : List (Packet N)) : World N :=
  { w with link := fun a b => if a = i ∧ b = j then packets else w.link a b }

/-- Put a packet on a link. -/
def send (w : World N) (i j : N) (p : Packet N) : World N := w.setLink i j (w.link i j ++ [p])

/-- Send a packet to several nodes. -/
def broadcast (w : World N) (i : N) (targets : List N) (p : Packet N) : World N :=
  targets.foldl (fun w j => w.send i j p) w

/-- Record a vote and send its acknowledgement, if there is one. -/
def vote (w : World N) (ballot : Ballot N) (ack : Option (ClusterMsg N)) : World N :=
  { w with
    votes := ballot :: w.votes
    link := match ack with
      | none => w.link
      | some hdr => (w.send ballot.voter ballot.slave (.authAck hdr)).link }

/-- Node `j` processes a packet that node `i` sent. -/
def receive (w : World N) (j : N) (p : Packet N) (env : VoteEnv) : Result (World N) :=
  match p with
  | .ping hdr => do
    let st ← clusterProcessPing (w.node j) hdr
    .ok (w.setState j st)
  | .authRequest hdr => do
    let (st, vote) ← clusterProcessAuthRequest (w.node j) hdr env
    match vote with
    | .denied => .ok (w.setState j st)
    | .granted ack => .ok ((w.setState j st).vote ⟨j, st.lastVoteEpoch, hdr.sender⟩ ack)
  | .authAck hdr => do
    let st ← clusterProcessAuthAck (w.node j) hdr
    .ok (w.setState j st)

/-- What comes of a call of `clusterHandleSlaveFailover` of node `i`. -/
def afterFailover (w : World N) (i : N) (st : ClusterState N) : FailoverStep N → World N
  | .idle => w.setState i st
  | .scheduled => w.setState i st
  | .requested request targets => (w.setState i st).broadcast i targets (.authRequest request)
  | .promoted => { w.setState i st with promoted := (i, st.myConfigEpoch) :: w.promoted }

end World

/-- The name of this node. -/
def Named (i : N) (st : ClusterState N) : Prop :=
  (st.heap st.myself).map ClusterNode.name = some i

instance (i : N) (st : ClusterState N) : Decidable (Named i st) := by
  unfold Named
  infer_instance

/-- What the rest of the server does to a node: it leaves votes and elections alone and
does not lower the current epoch. -/
def outside (st st' : ClusterState N) : ClusterState N :=
  { st' with
    currentEpoch := max st.currentEpoch st'.currentEpoch
    lastVoteEpoch := st.lastVoteEpoch
    failoverAuthCount := st.failoverAuthCount
    failoverAuthSent := st.failoverAuthSent
    failoverAuthEpoch := st.failoverAuthEpoch }

inductive ElectionEvent (N : Type) where
  /-- A call of `clusterHandleSlaveFailover`. -/
  | failover (i : N) (env : FailoverEnv)
  /-- A node sends its configuration to another one. -/
  | heartbeat (i j : N) (offset : ℤ)
  /-- A node processes the first packet of a link. -/
  | deliver (i j : N) (env : VoteEnv)
  /-- The first packet of a link is lost. -/
  | lose (i j : N)
  /-- Anything else the server does to a node. -/
  | other (i : N) (st : ClusterState N)

/-- One step of the cluster. -/
def electionStep (w : World N) : ElectionEvent N → Option (World N)
  | .failover i env => (clusterHandleSlaveFailover (w.node i) env).toOption.map fun p =>
      w.afterFailover i p.1 p.2
  | .heartbeat i j offset => (clusterBuildMessageHdr (w.node i) offset).toOption.map fun hdr =>
      w.send i j (.ping hdr)
  | .deliver i j env => match w.link i j with
    | [] => none
    | p :: packets => ((w.setLink i j packets).receive j p env).toOption
  | .lose i j => some (w.setLink i j (w.link i j).tail)
  | .other i st => if Named i st then some (w.setState i (outside (w.node i) st)) else none

/-! ### The invariant -/

/-- The epoch of an acknowledgement. -/
def ackEpoch : Packet N → Option ℕ
  | .authAck hdr => some hdr.currentEpoch
  | _ => none

/-- The masters of `Q` voted for the slave, and their acknowledgements are no longer on
their way. -/
def Counted (w : World N) (Q : Finset N) (e : ℕ) (i : N) : Prop :=
  ∀ x ∈ Q, ⟨x, e, i⟩ ∈ w.votes ∧ e ∉ (w.link x i).filterMap ackEpoch

structure Elected (M : Finset N) (w : World N) : Prop where
  named : ∀ i, Named i (w.node i)
  voteLe : ∀ i, (w.node i).lastVoteEpoch ≤ (w.node i).currentEpoch
  authLe : ∀ i, (w.node i).failoverAuthEpoch ≤ (w.node i).currentEpoch
  ballots : ∀ b ∈ w.votes, 0 < b.epoch ∧ b.epoch ≤ (w.node b.voter).lastVoteEpoch ∧
    b.epoch ≤ (w.node b.slave).failoverAuthEpoch
  once : ∀ b ∈ w.votes, ∀ b' ∈ w.votes, b.voter = b'.voter → b.epoch = b'.epoch →
    b.slave = b'.slave
  requests : ∀ i j hdr, .authRequest hdr ∈ w.link i j →
    hdr.sender = i ∧ hdr.currentEpoch ≤ (w.node i).failoverAuthEpoch
  acks : ∀ i j hdr, .authAck hdr ∈ w.link i j →
    hdr.sender = i ∧ ⟨i, hdr.currentEpoch, j⟩ ∈ w.votes
  ackOnce : ∀ i j, ((w.link i j).filterMap ackEpoch).Nodup
  reset : ∀ i, (w.node i).failoverAuthSent = false → (w.node i).failoverAuthCount = 0
  count : ∀ i, (w.node i).failoverAuthSent = true → ∃ Q ⊆ M,
    (w.node i).failoverAuthCount ≤ Q.card ∧ Counted w Q (w.node i).failoverAuthEpoch i
  promoted : ∀ i e, (i, e) ∈ w.promoted → ∃ Q ⊆ M, M.card < 2 * Q.card ∧
    ∀ x ∈ Q, ⟨x, e, i⟩ ∈ w.votes

variable {M : Finset N} {w : World N}

omit [LinearOrder N] in
theorem Elected.ackEpoch_mem (h : Elected M w) {i j : N} {e : ℕ}
    (he : e ∈ (w.link i j).filterMap ackEpoch) : ⟨i, e, j⟩ ∈ w.votes := by
  obtain ⟨p, hp, hpe⟩ := List.mem_filterMap.mp he
  cases p with
  | authAck hdr =>
    obtain rfl : hdr.currentEpoch = e := by simpa [ackEpoch] using hpe
    exact (h.acks i j hdr hp).2
  | ping hdr => simp [ackEpoch] at hpe
  | authRequest hdr => simp [ackEpoch] at hpe

theorem Elected.setState (h : Elected M w) {j : N} {st : ClusterState N} (hname : Named j st)
    (hvote : (w.node j).lastVoteEpoch ≤ st.lastVoteEpoch)
    (hvoteLe : st.lastVoteEpoch ≤ st.currentEpoch)
    (hauth : (w.node j).failoverAuthEpoch ≤ st.failoverAuthEpoch)
    (hauthLe : st.failoverAuthEpoch ≤ st.currentEpoch)
    (hreset : st.failoverAuthSent = false → st.failoverAuthCount = 0)
    (hcount : st.failoverAuthSent = true → ∃ Q ⊆ M, st.failoverAuthCount ≤ Q.card ∧
      Counted w Q st.failoverAuthEpoch j) : Elected M (w.setState j st) := by
  -- a fact about every node holds if it holds of `st`
  have hnode : ∀ {P : N → ClusterState N → Prop}, (∀ i, P i (w.node i)) → P j st →
      ∀ i, P i ((w.setState j st).node i) := by
    intro P hP hst i
    by_cases hi : i = j
    · subst hi
      simpa [World.setState] using hst
    · simpa [World.setState, Function.update_of_ne hi] using hP i
  have hlast : ∀ i, (w.node i).lastVoteEpoch ≤ ((w.setState j st).node i).lastVoteEpoch :=
    hnode (P := fun i st => (w.node i).lastVoteEpoch ≤ st.lastVoteEpoch) (fun _ => le_rfl) hvote
  have hauthEpoch : ∀ i, (w.node i).failoverAuthEpoch
      ≤ ((w.setState j st).node i).failoverAuthEpoch :=
    hnode (P := fun i st => (w.node i).failoverAuthEpoch ≤ st.failoverAuthEpoch)
      (fun _ => le_rfl) hauth
  constructor
  · exact hnode (P := Named) h.named hname
  · exact hnode (P := fun _ st => st.lastVoteEpoch ≤ st.currentEpoch) h.voteLe hvoteLe
  · exact hnode (P := fun _ st => st.failoverAuthEpoch ≤ st.currentEpoch) h.authLe hauthLe
  · intro b hb
    obtain ⟨hpos, hvoter, hslave⟩ := h.ballots b hb
    exact ⟨hpos, hvoter.trans (hlast _), hslave.trans (hauthEpoch _)⟩
  · exact h.once
  · intro i k hdr hmem
    obtain ⟨hsender, hepoch⟩ := h.requests i k hdr hmem
    exact ⟨hsender, hepoch.trans (hauthEpoch _)⟩
  · exact h.acks
  · exact h.ackOnce
  · exact hnode (P := fun _ st => st.failoverAuthSent = false → st.failoverAuthCount = 0)
      h.reset hreset
  · exact hnode (P := fun i st => st.failoverAuthSent = true → ∃ Q ⊆ M,
      st.failoverAuthCount ≤ Q.card ∧ Counted w Q st.failoverAuthEpoch i) h.count hcount
  · exact h.promoted

omit [LinearOrder N] in
theorem KeepsElection.named {st st' : ClusterState N} (h : KeepsElection st st') {i : N}
    (hi : Named i st) : Named i st' := by
  rw [Named, h.name, h.myself]
  exact hi

theorem Elected.keeps (h : Elected M w) {j : N} {st : ClusterState N}
    (hkeeps : KeepsElection (w.node j) st) : Elected M (w.setState j st) := by
  refine h.setState (hkeeps.named (h.named j)) hkeeps.lastVoteEpoch.ge ?_ hkeeps.authEpoch.ge ?_ ?_ ?_
  · rw [hkeeps.lastVoteEpoch]
    exact (h.voteLe j).trans hkeeps.currentEpoch
  · rw [hkeeps.authEpoch]
    exact (h.authLe j).trans hkeeps.currentEpoch
  · rw [hkeeps.sent, hkeeps.count]
    exact h.reset j
  · rw [hkeeps.sent, hkeeps.count, hkeeps.authEpoch]
    exact h.count j

theorem Elected.setLink_tail (h : Elected M w) (i j : N) :
    Elected M (w.setLink i j (w.link i j).tail) := by
  have hsub : ∀ a b, List.Sublist ((w.setLink i j (w.link i j).tail).link a b) (w.link a b) := by
    intro a b
    simp only [World.setLink]
    split
    · rename_i hab
      obtain ⟨rfl, rfl⟩ := hab
      exact List.tail_sublist _
    · exact List.Sublist.refl _
  have hcounted : ∀ {Q e a}, Counted w Q e a → Counted (w.setLink i j (w.link i j).tail) Q e a :=
    fun hQ x hx => ⟨(hQ x hx).1, fun hmem => (hQ x hx).2 (((hsub x _).filterMap _).subset hmem)⟩
  constructor
  · exact h.named
  · exact h.voteLe
  · exact h.authLe
  · exact h.ballots
  · exact h.once
  · exact fun a b hdr hmem => h.requests a b hdr ((hsub a b).subset hmem)
  · exact fun a b hdr hmem => h.acks a b hdr ((hsub a b).subset hmem)
  · exact fun a b => ((hsub a b).filterMap _).nodup (h.ackOnce a b)
  · exact h.reset
  · intro a hsent
    obtain ⟨Q, hQ, hcard, hc⟩ := h.count a hsent
    exact ⟨Q, hQ, hcard, hcounted hc⟩
  · exact h.promoted

theorem Elected.send (h : Elected M w) {i j : N} {p : Packet N} (hack : ackEpoch p = none)
    (hreq : ∀ hdr, p = .authRequest hdr →
      hdr.sender = i ∧ hdr.currentEpoch ≤ (w.node i).failoverAuthEpoch) :
    Elected M (w.send i j p) := by
  have hlink : ∀ a b, (w.send i j p).link a b = if a = i ∧ b = j then w.link i j ++ [p]
      else w.link a b := fun _ _ => rfl
  have hacks : ∀ a b, ((w.send i j p).link a b).filterMap ackEpoch
      = (w.link a b).filterMap ackEpoch := by
    intro a b
    rw [hlink]
    split
    · rename_i hab
      obtain ⟨rfl, rfl⟩ := hab
      simp [hack]
    · rfl
  have hmem : ∀ a b q, q ∈ (w.send i j p).link a b → q ∈ w.link a b ∨ (q = p ∧ a = i) := by
    intro a b q hq
    rw [hlink] at hq
    split at hq
    · rename_i hab
      obtain ⟨rfl, rfl⟩ := hab
      rcases List.mem_append.mp hq with hq | hq
      · exact Or.inl hq
      · exact Or.inr ⟨List.mem_singleton.mp hq, rfl⟩
    · exact Or.inl hq
  constructor
  · exact h.named
  · exact h.voteLe
  · exact h.authLe
  · exact h.ballots
  · exact h.once
  · intro a b hdr hq
    rcases hmem a b _ hq with hq | ⟨rfl, rfl⟩
    · exact h.requests a b hdr hq
    · exact hreq hdr rfl
  · intro a b hdr hq
    rcases hmem a b _ hq with hq | ⟨rfl, rfl⟩
    · exact h.acks a b hdr hq
    · simp [ackEpoch] at hack
  · intro a b
    rw [hacks]
    exact h.ackOnce a b
  · exact h.reset
  · intro a hsent
    obtain ⟨Q, hQ, hcard, hc⟩ := h.count a hsent
    exact ⟨Q, hQ, hcard, fun x hx => ⟨(hc x hx).1, by rw [hacks]; exact (hc x hx).2⟩⟩
  · exact h.promoted

theorem Elected.vote (h : Elected M w) {j i : N} {e : ℕ} {ack : Option (ClusterMsg N)}
    (hnew : ∀ b ∈ w.votes, b.voter = j → b.epoch < e) (hpos : 0 < e)
    (hlast : e ≤ (w.node j).lastVoteEpoch) (hasked : e ≤ (w.node i).failoverAuthEpoch)
    (hack : ∀ hdr, ack = some hdr → hdr.sender = j ∧ hdr.currentEpoch = e) :
    Elected M (w.vote ⟨j, e, i⟩ ack) := by
  have hfresh : ∀ a, e ∉ (w.link j a).filterMap ackEpoch := fun a hmem =>
    absurd (hnew _ (h.ackEpoch_mem hmem) rfl) (lt_irrefl e)
  have hlink : ∀ a b, (w.vote ⟨j, e, i⟩ ack).link a b = w.link a b ∨
      (a = j ∧ b = i ∧ ∃ hdr, hdr.sender = j ∧ hdr.currentEpoch = e ∧
        (w.vote ⟨j, e, i⟩ ack).link a b = w.link a b ++ [.authAck hdr]) := by
    intro a b
    cases hopt : ack with
    | none => exact Or.inl rfl
    | some hdr =>
      obtain ⟨hsender, hepoch⟩ := hack hdr hopt
      by_cases hab : a = j ∧ b = i
      · obtain ⟨rfl, rfl⟩ := hab
        exact Or.inr ⟨rfl, rfl, hdr, hsender, hepoch, by simp [World.vote, World.send, World.setLink]⟩
      · exact Or.inl (by simp [World.vote, World.send, World.setLink, hab])
  constructor
  · exact h.named
  · exact h.voteLe
  · exact h.authLe
  · intro b hb
    rcases List.mem_cons.mp hb with rfl | hb
    · exact ⟨hpos, hlast, hasked⟩
    · exact h.ballots b hb
  · intro b hb b' hb' hvoter hepoch
    rcases List.mem_cons.mp hb with rfl | hb <;> rcases List.mem_cons.mp hb' with rfl | hb'
    · rfl
    · exact absurd hepoch (hnew b' hb' hvoter.symm).ne'
    · exact absurd hepoch (hnew b hb hvoter).ne
    · exact h.once b hb b' hb' hvoter hepoch
  · intro a b hdr hmem
    rcases hlink a b with heq | ⟨-, -, hdr', -, -, heq⟩
    · exact h.requests a b hdr (heq ▸ hmem)
    · rw [heq] at hmem
      exact h.requests a b hdr (by simpa using hmem)
  · intro a b hdr hmem
    have hold : .authAck hdr ∈ w.link a b → hdr.sender = a ∧
        ⟨a, hdr.currentEpoch, b⟩ ∈ (w.vote ⟨j, e, i⟩ ack).votes := fun hmem =>
      ⟨(h.acks a b hdr hmem).1, List.mem_cons_of_mem _ (h.acks a b hdr hmem).2⟩
    rcases hlink a b with heq | ⟨rfl, rfl, hdr', hsender, hepoch, heq⟩
    · exact hold (heq ▸ hmem)
    · rw [heq] at hmem
      rcases List.mem_append.mp hmem with hmem | hmem
      · exact hold hmem
      · obtain rfl : hdr = hdr' := by simpa using hmem
        exact ⟨hsender, by rw [hepoch]; exact List.mem_cons_self⟩
  · intro a b
    rcases hlink a b with heq | ⟨rfl, rfl, hdr, -, hepoch, heq⟩
    · rw [heq]
      exact h.ackOnce a b
    · rw [heq, List.filterMap_append]
      refine List.Nodup.append (h.ackOnce a b) (List.nodup_singleton _) ?_
      intro e' hmem hmem'
      obtain rfl : e' = e := by simpa [ackEpoch, hepoch] using hmem'
      exact hfresh b hmem
  · exact h.reset
  · intro a hsent
    obtain ⟨Q, hQ, hcard, hc⟩ := h.count a hsent
    refine ⟨Q, hQ, hcard, fun x hx => ⟨List.mem_cons_of_mem _ (hc x hx).1, ?_⟩⟩
    rcases hlink x a with heq | ⟨rfl, rfl, hdr, -, hepoch, heq⟩
    · rw [heq]
      exact (hc x hx).2
    · rw [heq, List.filterMap_append]
      intro hmem
      rcases List.mem_append.mp hmem with hmem | hmem
      · exact (hc x hx).2 hmem
      · have hauth : ((w.vote ⟨x, e, a⟩ ack).node a).failoverAuthEpoch = e := by
          simpa [ackEpoch, hepoch] using hmem
        have hauth : (w.node a).failoverAuthEpoch = e := hauth
        exact absurd (hnew _ (hc x hx).1 rfl) (by simp [hauth])
  · intro a e' hmem
    obtain ⟨Q, hQ, hcard, hvotes⟩ := h.promoted a e' hmem
    exact ⟨Q, hQ, hcard, fun x hx => List.mem_cons_of_mem _ (hvotes x hx)⟩

theorem Elected.broadcast (h : Elected M w) {i : N} {request : ClusterMsg N} {targets : List N}
    (hreq : request.sender = i ∧ request.currentEpoch ≤ (w.node i).failoverAuthEpoch) :
    Elected M (w.broadcast i targets (.authRequest request)) := by
  induction targets generalizing w with
  | nil => exact h
  | cons j targets ih =>
    refine ih (h.send rfl ?_) hreq
    intro hdr hp
    cases hp
    exact hreq

/-! ### Steps -/

/-- A packet that counts an epoch leaves room for the next one. -/
def Room (e : ℕ) : Prop := e + 1 < 2 ^ 64

/-- The condition under which elections are safe: the slave that asks for votes and counts
them agrees that `M` are the masters with slots, it counts no acknowledgement before it
sent its request, and no epoch overflows. -/
def SafeElection (M : Finset N) (w : World N) : ElectionEvent N → Prop
  | .failover i _ => Room (w.node i).currentEpoch ∧ (w.node i).size = M.card
  | .deliver i j _ => match w.link i j with
    | .ping hdr :: _ => Room (w.node j).currentEpoch ∧ Room hdr.currentEpoch
    | .authAck hdr :: _ => ackCounts (w.node j) hdr = true →
      hdr.sender ∈ M ∧ (w.node j).failoverAuthSent = true
    | _ => True
  | _ => True

theorem Elected.afterFailover (h : Elected M w) {i : N} {st : ClusterState N}
    {step : FailoverStep N} (hroom : Room (w.node i).currentEpoch)
    (hsize : (w.node i).size = M.card) (ho : FailoverOutcome (w.node i) st step) :
    Elected M (w.afterFailover i st step) := by
  cases step with
  | idle => exact h.keeps ho
  | scheduled =>
    obtain ⟨hsent, hcount, hmyself, hvote, hauth, hcur, hname⟩ := ho
    refine h.setState ?_ hvote.ge ?_ hauth.ge ?_ (fun _ => hcount) fun hsent' => ?_
    · rw [Named, hname, hmyself]
      exact h.named i
    · rw [hvote, hcur]
      exact h.voteLe i
    · rw [hauth, hcur]
      exact h.authLe i
    · rw [hsent] at hsent'
      exact absurd hsent' (by simp)
  | requested request targets =>
    obtain ⟨hsent, hsent', hcount, hvote, hcur, hauth, hmyself, hname, hsender, hreq⟩ := ho
    rw [nextEpoch_of_lt hroom] at hcur
    have hzero := h.reset i hsent
    have hset : Elected M (w.setState i st) := by
      refine h.setState ?_ hvote.ge ?_ ?_ hauth.le ?_ fun _ => ⟨∅, Finset.empty_subset M, ?_, ?_⟩
      · rw [Named, hname, hmyself]
        exact h.named i
      · rw [hvote, hcur]
        exact (h.voteLe i).trans (Nat.le_succ _)
      · rw [hauth, hcur]
        exact (h.authLe i).trans (Nat.le_succ _)
      · intro _
        rw [hcount, hzero]
      · rw [hcount, hzero]
        exact Nat.zero_le _
      · exact fun x hx => absurd hx (Finset.notMem_empty x)
    refine hset.broadcast ⟨?_, ?_⟩
    · exact Option.some_inj.mp (hsender.symm.trans (h.named i))
    · simp [World.setState, hreq, hauth]
  | promoted =>
    obtain ⟨hkeeps, hsent, hcount, hconfig⟩ := ho
    have hset := h.keeps hkeeps
    refine ⟨hset.1, hset.2, hset.3, hset.4, hset.5, hset.6, hset.7, hset.8, hset.9, hset.10, ?_⟩
    intro a e hmem
    rcases List.mem_cons.mp hmem with heq | hmem
    · obtain ⟨rfl, rfl⟩ := Prod.mk.inj heq
      obtain ⟨Q, hQ, hcard, hc⟩ := h.count a hsent
      rw [hsize] at hcount
      refine ⟨Q, hQ, by omega, fun x hx => ?_⟩
      rw [hconfig]
      exact (hc x hx).1
    · exact h.promoted a e hmem

theorem World.setLink_tail {i j : N} {p : Packet N} {packets : List (Packet N)}
    (hlink : w.link i j = p :: packets) : w.setLink i j packets = w.setLink i j (w.link i j).tail := by
  rw [hlink, List.tail_cons]

theorem Elected.granted (h : Elected M w) {i j : N} {st : ClusterState N} {hdr : ClusterMsg N}
    {ack : Option (ClusterMsg N)} (hv : VotedFor (w.node j) st hdr ack) (hsender : hdr.sender = i)
    (hasked : hdr.currentEpoch ≤ (w.node i).failoverAuthEpoch) :
    Elected M ((w.setState j st).vote ⟨j, st.lastVoteEpoch, hdr.sender⟩ ack) := by
  have hcur := hv.currentEpoch
  have hvoted := hv.voted
  have hle := h.voteLe j
  have hlt : (w.node j).lastVoteEpoch < st.lastVoteEpoch := by
    have hne := hv.fresh
    omega
  have hset : Elected M (w.setState j st) := by
    refine h.setState ?_ hlt.le hvoted.le hv.authEpoch.ge ?_ ?_ ?_
    · rw [Named, hv.name, hv.myself]
      exact h.named j
    · rw [hv.authEpoch]
      exact (h.authLe j).trans hcur
    · rw [hv.sent, hv.count]
      exact h.reset j
    · rw [hv.sent, hv.count, hv.authEpoch]
      exact h.count j
  have hauth : ((w.setState j st).node i).failoverAuthEpoch = (w.node i).failoverAuthEpoch := by
    by_cases hij : i = j
    · subst hij
      simpa [World.setState] using hv.authEpoch
    · simp [World.setState, Function.update_of_ne hij]
  refine hset.vote (fun b hb hvoter => ?_) (Nat.zero_lt_of_lt hlt) ?_ ?_ fun hdr' hack => ?_
  · have hepoch := (h.ballots b hb).2.1
    rw [hvoter] at hepoch
    exact hepoch.trans_lt hlt
  · simp [World.setState]
  · rw [hsender, hauth, hvoted]
    exact hv.asked.trans hasked
  · obtain ⟨hname, hepoch⟩ := hv.ack hdr' hack
    exact ⟨Option.some_inj.mp (hname.symm.trans (h.named j)), hepoch.trans hvoted.symm⟩

theorem Elected.counted (h : Elected M w) {i j : N} {hdr : ClusterMsg N}
    {packets : List (Packet N)} (hlink : w.link i j = .authAck hdr :: packets)
    (hcounts : ackCounts (w.node j) hdr = true) (hM : hdr.sender ∈ M)
    (hsent : (w.node j).failoverAuthSent = true) {st₁ : ClusterState N}
    (hkeeps : KeepsElection (w.node j) st₁) :
    Elected M ((w.setLink i j packets).setState j
      { st₁ with failoverAuthCount := st₁.failoverAuthCount + 1, todoHandleFailover := true }) := by
  have hpop : Elected M (w.setLink i j packets) := by
    rw [World.setLink_tail hlink]
    exact h.setLink_tail i j
  -- the vote was given in the epoch of the request
  obtain ⟨hsender, hvote⟩ := h.acks i j hdr (by rw [hlink]; exact List.mem_cons_self)
  obtain ⟨hpos, -, hle⟩ := h.ballots _ hvote
  have hepoch : hdr.currentEpoch = (w.node j).failoverAuthEpoch := by
    refine le_antisymm hle ?_
    unfold ackCounts at hcounts
    split at hcounts
    · cases hcounts
    · split at hcounts
      · cases hcounts
      · obtain ⟨-, -, hge⟩ := countsAck_iff.mp hcounts
        split at hge
        · exact hge.trans (Nat.zero_le _)
        · exact hge
  obtain ⟨Q, hQ, hcard, hc⟩ := h.count j hsent
  have hmem : hdr.currentEpoch ∈ (w.link i j).filterMap ackEpoch := by
    rw [hlink]
    simp [ackEpoch]
  have hnew : i ∉ Q := fun hi => (hc i hi).2 (hepoch ▸ hmem)
  have hgone : hdr.currentEpoch ∉ packets.filterMap ackEpoch := by
    have hnodup := h.ackOnce i j
    rw [hlink] at hnodup
    simpa [ackEpoch] using (List.nodup_cons.mp hnodup).1
  have hlinkOf : ∀ x, x ≠ i → (w.setLink i j packets).link x j = w.link x j := fun x hx => by
    simp [World.setLink, hx]
  refine hpop.setState (hkeeps.named (h.named j)) hkeeps.lastVoteEpoch.ge ?_ hkeeps.authEpoch.ge
    ?_ ?_ fun _ => ⟨insert i Q, ?_, ?_, ?_⟩
  · show st₁.lastVoteEpoch ≤ st₁.currentEpoch
    rw [hkeeps.lastVoteEpoch]
    exact (h.voteLe j).trans hkeeps.currentEpoch
  · show st₁.failoverAuthEpoch ≤ st₁.currentEpoch
    rw [hkeeps.authEpoch]
    exact (h.authLe j).trans hkeeps.currentEpoch
  · intro hfalse
    have htrue : st₁.failoverAuthSent = true := hkeeps.sent.trans hsent
    exact absurd (hfalse.symm.trans htrue) (by simp)
  · exact Finset.insert_subset (hsender ▸ hM) hQ
  · show st₁.failoverAuthCount + 1 ≤ _
    rw [hkeeps.count, Finset.card_insert_of_notMem hnew]
    exact Nat.succ_le_succ hcard
  · show Counted _ _ st₁.failoverAuthEpoch j
    rw [hkeeps.authEpoch, ← hepoch]
    intro x hx
    rcases Finset.mem_insert.mp hx with rfl | hx
    · refine ⟨hvote, ?_⟩
      simpa [World.setLink] using hgone
    · have hxi : x ≠ i := fun heq => hnew (heq ▸ hx)
      rw [hlinkOf x hxi, hepoch]
      exact hc x hx

theorem Elected.deliver (h : Elected M w) {i j : N} {env : VoteEnv}
    (hsafe : SafeElection M w (.deliver i j env)) {w' : World N}
    (hstep : electionStep w (.deliver i j env) = some w') : Elected M w' := by
  simp only [electionStep] at hstep
  split at hstep
  · cases hstep
  rename_i p packets hlink
  have hpop : Elected M (w.setLink i j packets) := by
    rw [World.setLink_tail hlink]
    exact h.setLink_tail i j
  have hr := toOption_eq_some.mp hstep
  simp only [SafeElection, hlink] at hsafe
  cases p with
  | ping hdr =>
    obtain ⟨st, hst, hw⟩ := bind_eq_ok.mp hr
    obtain rfl := Except.ok.inj hw
    exact hpop.keeps ((clusterProcessPing_keepsElection hsafe.1 hsafe.2).of_eq_ok hst)
  | authRequest hdr =>
    obtain ⟨⟨st, vote⟩, hst, hw⟩ := bind_eq_ok.mp hr
    have hspec := (clusterProcessAuthRequest_spec hdr env).of_eq_ok hst
    cases vote with
    | denied =>
      obtain rfl := Except.ok.inj hw
      exact hpop.keeps hspec
    | granted ack =>
      obtain rfl := Except.ok.inj hw
      obtain ⟨hsender, hasked⟩ := h.requests i j hdr (by rw [hlink]; exact List.mem_cons_self)
      exact hpop.granted hspec hsender hasked
  | authAck hdr =>
    obtain ⟨st, hst, hw⟩ := bind_eq_ok.mp hr
    obtain rfl := Except.ok.inj hw
    have hst : clusterProcessAuthAck (w.node j) hdr = .ok st := hst
    have hspec := (clusterProcessAuthAck_spec hdr).of_eq_ok hst
    by_cases hcounts : ackCounts (w.node j) hdr = true
    · rw [if_pos hcounts] at hspec
      obtain ⟨st₁, hkeeps, rfl⟩ := hspec
      obtain ⟨hM, hsent⟩ := hsafe hcounts
      exact h.counted hlink hcounts hM hsent hkeeps
    · rw [if_neg hcounts] at hspec
      exact hpop.keeps hspec

/-- Every step of a safe run keeps the invariant. -/
theorem Elected.step (h : Elected M w) {ev : ElectionEvent N} (hsafe : SafeElection M w ev)
    {w' : World N} (hstep : electionStep w ev = some w') : Elected M w' := by
  cases ev with
  | failover i env =>
    obtain ⟨⟨st, step⟩, hst, rfl⟩ := Option.map_eq_some_iff.mp hstep
    have hspec := (clusterHandleSlaveFailover_spec _ env).of_eq_ok (toOption_eq_some.mp hst)
    exact h.afterFailover hsafe.1 hsafe.2 hspec
  | heartbeat i j offset =>
    obtain ⟨hdr, -, rfl⟩ := Option.map_eq_some_iff.mp hstep
    exact h.send rfl nofun
  | deliver i j env => exact h.deliver hsafe hstep
  | lose i j =>
    obtain rfl := Option.some_inj.mp hstep
    exact h.setLink_tail i j
  | other i st =>
    simp only [electionStep] at hstep
    split at hstep
    · rename_i hname
      obtain rfl := Option.some_inj.mp hstep
      refine h.setState hname le_rfl ?_ le_rfl ?_ (h.reset i) (h.count i)
      · exact (h.voteLe i).trans (le_max_left _ _)
      · exact (h.authLe i).trans (le_max_left _ _)
    · cases hstep

/-- Before the first election: no votes, no promotions, and no packets but heartbeats. -/
structure Quiet (w : World N) : Prop where
  named : ∀ i, Named i (w.node i)
  voteLe : ∀ i, (w.node i).lastVoteEpoch ≤ (w.node i).currentEpoch
  authLe : ∀ i, (w.node i).failoverAuthEpoch ≤ (w.node i).currentEpoch
  count : ∀ i, (w.node i).failoverAuthCount = 0
  pings : ∀ i j, ∀ p ∈ w.link i j, ∃ hdr, p = .ping hdr
  votes : w.votes = []
  promoted : w.promoted = []

omit [LinearOrder N] in
theorem Quiet.elected (h : Quiet w) : Elected M w := by
  have hacks : ∀ i j, (w.link i j).filterMap ackEpoch = [] := by
    intro i j
    rw [List.filterMap_eq_nil_iff]
    intro p hp
    obtain ⟨hdr, rfl⟩ := h.pings i j p hp
    rfl
  constructor
  · exact h.named
  · exact h.voteLe
  · exact h.authLe
  · simp [h.votes]
  · simp [h.votes]
  · intro i j hdr hmem
    obtain ⟨hdr', heq⟩ := h.pings i j _ hmem
    cases heq
  · intro i j hdr hmem
    obtain ⟨hdr', heq⟩ := h.pings i j _ hmem
    cases heq
  · intro i j
    rw [hacks]
    exact List.nodup_nil
  · exact fun i _ => h.count i
  · intro i _
    exact ⟨∅, Finset.empty_subset M, (h.count i).le, fun x hx => absurd hx (Finset.notMem_empty x)⟩
  · simp [h.promoted]

theorem Elected.unique (h : Elected M w) {i j : N} {e : ℕ} (hi : (i, e) ∈ w.promoted)
    (hj : (j, e) ∈ w.promoted) : i = j := by
  obtain ⟨Q, hQ, hcard, hvotes⟩ := h.promoted i e hi
  obtain ⟨Q', hQ', hcard', hvotes'⟩ := h.promoted j e hj
  obtain ⟨x, hx⟩ := Finset.inter_nonempty_of_card_lt_card_add_card hQ hQ' (by omega)
  obtain ⟨hx, hx'⟩ := Finset.mem_inter.mp hx
  exact h.once _ (hvotes x hx) _ (hvotes' x hx') rfl rfl

/-- In a safe run at most one slave promotes itself with a configuration epoch, and a
majority of the masters voted for it in that epoch. -/
theorem run_electionSafety {es : List (ElectionEvent N)} {w' : World N} (h : Quiet w)
    (hall : Runs.AllSteps electionStep (SafeElection M) w es)
    (hrun : Runs.run electionStep w es = some w') :
    (∀ i j e, (i, e) ∈ w'.promoted → (j, e) ∈ w'.promoted → i = j) ∧
      ∀ i e, (i, e) ∈ w'.promoted → ∃ Q ⊆ M, M.card < 2 * Q.card ∧ ∀ x ∈ Q, ⟨x, e, i⟩ ∈ w'.votes := by
  have hw' : Elected M w' :=
    Runs.run_invariant_of_allSteps (fun w ev w' hw hsafe hstep => Elected.step hw hsafe hstep)
      h.elected hall hrun
  exact ⟨fun i j e hi hj => hw'.unique hi hj, hw'.promoted⟩

end

/-! ### Runs of five nodes -/

section
variable [DecidableEq N]

omit [DecidableEq N] in
theorem claimsStaleSlot_eq_false {st : ClusterState N} {request : ClusterMsg N}
    (h : ∀ slot r, st.slots slot = some r → ∃ n, st.heap r = some n ∧
      n.configEpoch ≤ request.configEpoch) : claimsStaleSlot st request = .ok false := by
  refine foldlM_eq_self fun slot _ => ?_
  simp only [Bool.false_eq_true, if_false]
  split
  · cases hr : st.slots slot with
    | none => rfl
    | some r =>
      obtain ⟨n, hn, hle⟩ := h slot r hr
      simp [node_eq_ok hn, ok_bind, hle]
  · rfl

theorem clusterProcessAuthRequest_granted {st st₁ : ClusterState N} {hdr : ClusterMsg N}
    {env : VoteEnv} {r m : NodeRef} {n node me master : ClusterNode N}
    {ack : Option (ClusterMsg N)} (hlookup : clusterLookupNode st hdr.sender = some r)
    (hn : st.heap r = some n) (hhandshake : n.flags.handshake = false)
    (hupdate : updateEpochs st r hdr = .ok st₁) (hnode : st₁.heap r = some node)
    (hme : st₁.heap st₁.myself = some me) (hslaveof : node.slaveof = some m)
    (hm : st₁.heap m = some master)
    (hclaims : ∀ slot r, st₁.slots slot = some r → ∃ n, st₁.heap r = some n ∧
      n.configEpoch ≤ hdr.configEpoch)
    (hack : clusterSendFailoverAuth st₁ node env.offset = .ok ack)
    (hright : ¬ (me.flags.slave = true ∨ me.numslots = 0))
    (hepoch : st₁.currentEpoch ≤ hdr.currentEpoch) (hfresh : st₁.lastVoteEpoch ≠ st₁.currentEpoch)
    (hfailed : ¬ (node.flags.master = true ∨
      (¬ master.flags.fail = true ∧ ¬ hdr.forceAck = true)))
    (htime : ¬ env.now - master.votedTime < env.nodeTimeout * 2) :
    clusterProcessAuthRequest st hdr env = .ok
      (({ st₁ with lastVoteEpoch := st₁.currentEpoch } : ClusterState N).setNode m
        { master with votedTime := env.now }, .granted ack) := by
  have hm' : ClusterState.node { st₁ with lastVoteEpoch := st₁.currentEpoch } m = .ok master :=
    node_eq_ok hm
  simp only [clusterProcessAuthRequest, hlookup, node_eq_ok hn, ok_bind, hhandshake, hupdate,
    clusterSendFailoverAuthIfNeeded, node_eq_ok hnode, node_eq_ok hme, if_neg hright,
    if_neg (not_lt.mpr hepoch), if_neg hfresh, hslaveof, node_eq_ok hm, if_neg hfailed,
    if_neg htime, claimsStaleSlot_eq_false hclaims, hack, Bool.false_eq_true, if_false,
    modifyNode, hm']

end

section
variable {w : World N} {i j : N} {st st₁ st₂ st' : ClusterState N}

theorem electionStep_granted [LinearOrder N] {env : VoteEnv} {hdr : ClusterMsg N}
    {packets : List (Packet N)} {ack : Option (ClusterMsg N)}
    (hlink : w.link i j = .authRequest hdr :: packets)
    (hvote : clusterProcessAuthRequest (w.node j) hdr env = .ok (st, .granted ack)) :
    electionStep w (.deliver i j env)
      = some (((w.setLink i j packets).setState j st).vote ⟨j, st.lastVoteEpoch, hdr.sender⟩ ack) := by
  have hvote' : clusterProcessAuthRequest ((w.setLink i j packets).node j) hdr env
      = .ok (st, .granted ack) := hvote
  simp only [electionStep, hlink, World.receive, hvote']
  rfl

/-- The node at an address serves at most one slot. -/
def OnlySlot (old : NodeRef) (slot : Slot) (st : ClusterState N) : Prop :=
  ∃ n, st.heap old = some n ∧ ∀ j, j ≠ slot → n.slots j = false

theorem OnlySlot.setNode {old r : NodeRef} {slot : Slot} (h : OnlySlot old slot st)
    {n n' : ClusterNode N} (hn : st.heap r = some n)
    (hslots : r = old → ∀ j, j ≠ slot → n'.slots j = n.slots j) :
    OnlySlot old slot (st.setNode r n') := by
  obtain ⟨m, hm, hbits⟩ := h
  by_cases hr : r = old
  · subst hr
    obtain rfl := Option.some_inj.mp (hn.symm.trans hm)
    exact ⟨n', setNode_heap_self _ _ _, fun j hj => (hslots rfl j hj).trans (hbits j hj)⟩
  · exact ⟨m, by rw [setNode_heap_of_ne _ _ (Ne.symm hr), hm], hbits⟩

theorem claimSlot_onlySlot {old : NodeRef} {slot : Slot} (h : OnlySlot old slot st)
    (hold : st.myself ≠ old) : (claimSlot old st slot).Ensures AnyFault (OnlySlot old slot) := by
  refine Ensures.bind (Q := fun _ => True)
    ((node_ensures trivial st old).bind fun _ _ => trivial) fun bit _ => ?_
  split
  · refine Ensures.bind (Q := fun p => OnlySlot old slot p.1 ∧ p.1.myself = st.myself) ?_
      fun p hp => ?_
    · rw [clusterDelSlot]
      split
      · exact ⟨h, rfl⟩
      · refine Ensures.bind (Q := fun p => OnlySlot old slot p.1 ∧ p.1.myself = st.myself)
          ((node_ensures trivial st _).bind fun n hn =>
            ⟨h.setNode hn fun _ j hj => Function.update_of_ne hj _ _, rfl⟩) fun p hp => ?_
        exact (redisAssert_anyFault _ _).bind fun _ _ => hp
    · refine Ensures.bind (Q := fun q : ClusterState N × Bool => OnlySlot old slot q.1) ?_
        fun q hq => hq
      rw [clusterAddSlot]
      split
      · exact hp.1
      · refine Ensures.bind (Q := fun q : ClusterState N × Bool => OnlySlot old slot q.1)
          ((node_ensures trivial _ _).bind fun n hn => hp.1.setNode hn fun heq => ?_) fun q hq => hq
        exact absurd (hp.2.symm.trans heq) hold
  · exact h

theorem clusterFailoverPromote_single {old : NodeRef} (slot : Slot) (r : NodeRef)
    {me : ClusterNode N} (hset : clusterSetNodeAsMaster st st.myself = .ok st₁)
    (honly : OnlySlot old slot st₁) (hold : st₁.myself ≠ old)
    (hclaim : claimSlot old st₁ slot = .ok st₂) (hmyself : st₂.myself = r)
    (hme : st₂.heap r = some me) :
    clusterFailoverPromote st old = .ok (resetManualFailover
      { st₂.setNode r { me with configEpoch := st₂.failoverAuthEpoch } with
        todoUpdateState := false, todoSaveConfig := false, todoFsyncConfig := false }) := by
  have hloop : allSlots.foldlM (claimSlot old) st₁ = .ok st₂ := by
    rw [← hclaim]
    refine foldlM_eq_single (P := OnlySlot old slot) (mem_allSlots slot) nodup_allSlots ?_ honly ?_
    · rintro st ⟨n, hn, hslots⟩ j - hj
      simp [claimSlot, clusterNodeGetSlotBit, node_eq_ok hn, hslots j hj, ok_bind]
    · exact fun st' hst' => (claimSlot_onlySlot honly hold).of_eq_ok hst'
  simp only [clusterFailoverPromote, hset, ok_bind, hloop, modifyNode, hmyself, node_eq_ok hme]

theorem clusterHandleSlaveFailover_promoted {st₀ : ClusterState N} {env : FailoverEnv}
    {me : ClusterNode N} {m : NodeRef}
    (hst : ({ st₀ with todoHandleFailover := false } : ClusterState N) = st)
    (hme : st.heap st.myself = some me) (hmay : mayFailover st me = .ok true)
    (hold : dataTooOld env = false)
    (hage : ¬ env.now - st₀.failoverAuthTime > authTimeout env * 2)
    (hsent : st.failoverAuthSent = true) (hnow : ¬ env.now < st.failoverAuthTime)
    (hage' : ¬ env.now - st₀.failoverAuthTime > authTimeout env)
    (hcount : st.failoverAuthCount ≥ st.size / 2 + 1) (hslaveof : me.slaveof = some m)
    (hpromote : clusterFailoverPromote st m = .ok st') :
    clusterHandleSlaveFailover st₀ env = .ok (st', .promoted) := by
  have hrank : updateRank st env = .ok st := by
    simp [updateRank, hsent]
  have hcont : continueElection st env (env.now - st₀.failoverAuthTime)
      = .ok (st', .promoted) := by
    simp only [continueElection, hrank, ok_bind, if_neg hnow, if_neg hage', hsent,
      Bool.true_eq_false, if_false, if_pos hcount, node_eq_ok hme, hslaveof, hpromote]
  have hmyself : st₀.myself = st.myself := by rw [← hst]
  have hnode : st.node st₀.myself = .ok me := hmyself ▸ node_eq_ok hme
  simp only [clusterHandleSlaveFailover, hst, hnode, ok_bind, hmay, hold, if_neg hage, hcont]
  rfl

theorem electionStep_promoted [LinearOrder N] {env : FailoverEnv}
    (hcall : clusterHandleSlaveFailover (w.node i) env = .ok (st', .promoted)) :
    electionStep w (.failover i env)
      = some { w.setState i st' with promoted := (i, st'.myConfigEpoch) :: w.promoted } := by
  simp only [electionStep, hcall]
  rfl

end

/-- What every node knows of the node `x`: there are three masters with one slot each, of
which the first one failed, and two slaves of that one. -/
def electionNode (i x : Fin 5) : ClusterNode (Fin 5) :=
  { createClusterNode 0 x { NodeFlags.none with
      master := decide (x.val < 3), slave := decide (3 ≤ x.val), fail := decide (x = 0),
      myself := decide (x = i) } with
    slots := fun slot => decide (x.val < 3 ∧ slot.val = x.val)
    numslots := if x.val < 3 then 1 else 0
    slaves := if x = 0 then [3, 4] else []
    slaveof := if 3 ≤ x.val then some 0 else none
    link := true }

/-- The state of node `i`. -/
def electionState (i : Fin 5) : ClusterState (Fin 5) :=
  { clusterInit i with
    myself := i.val
    size := 3
    heap := fun r => if h : r < 5 then some (electionNode i ⟨r, h⟩) else none
    nodes := [(0, 0), (1, 1), (2, 2), (3, 3), (4, 4)]
    slots := fun slot => if slot.val < 3 then some slot.val else none }

/-- The masters of these nodes. -/
def threeMasters : Finset (Fin 5) := {0, 1, 2}

def electionWorld : World (Fin 5) where
  node := electionState
  link := fun _ _ => []
  votes := []
  promoted := []

/-- A slave whose data is fresh, with a node timeout of one second. -/
def slaveAt (now : ℤ) : FailoverEnv := ⟨now, 1000, 10, 0, 0, 0⟩

def masterAt (now : ℤ) : VoteEnv := ⟨now, 1000, 0⟩

theorem quiet_electionWorld : Quiet electionWorld := by
  refine ⟨by decide, by decide, by decide, by decide, ?_, rfl, rfl⟩
  exact fun i j p hp => absurd hp List.not_mem_nil

/-- A node agrees that `M` are the masters that serve slots. -/
def AgreesOn [DecidableEq N] (M : Finset N) (st : ClusterState N) : Prop :=
  st.size = M.card ∧ ∀ x r n, clusterLookupNode st x = some r → st.heap r = some n →
    (n.flags.master = true ∧ 0 < n.numslots ↔ x ∈ M)

theorem agreesOn_electionState (i : Fin 5) : AgreesOn threeMasters (electionState i) := by
  refine ⟨rfl, fun x r n hlookup hn => ?_⟩
  have hlookups : ∀ i x, clusterLookupNode (electionState i) x = some x.val := by decide
  have hmasters : ∀ i x, (electionNode i x).flags.master = true ∧ 0 < (electionNode i x).numslots ↔
    x ∈ threeMasters := by decide
  obtain rfl : x.val = r := Option.some_inj.mp ((hlookups i x).symm.trans hlookup)
  have hnode : (electionState i).heap x.val = some (electionNode i x) := dif_pos x.isLt
  obtain rfl := Option.some_inj.mp (hnode.symm.trans hn)
  exact hmasters i x

theorem slots_le {st : ClusterState (Fin 5)} {e : ℕ}
    (hslots : st.slots = fun slot => if slot.val < 3 then some slot.val else none)
    (h₀ : ∃ n, st.heap 0 = some n ∧ n.configEpoch ≤ e)
    (h₁ : ∃ n, st.heap 1 = some n ∧ n.configEpoch ≤ e)
    (h₂ : ∃ n, st.heap 2 = some n ∧ n.configEpoch ≤ e) :
    ∀ slot r, st.slots slot = some r → ∃ n, st.heap r = some n ∧ n.configEpoch ≤ e := by
  intro slot r hr
  rw [hslots] at hr
  simp only [Option.ite_none_right_eq_some, Option.some.injEq] at hr
  obtain ⟨hlt, rfl⟩ := hr
  have hcases : slot.val = 0 ∨ slot.val = 1 ∨ slot.val = 2 := by omega
  rcases hcases with h | h | h <;> rw [h] <;> assumption

theorem onlySlot_zero {st : ClusterState (Fin 5)} {n : ClusterNode (Fin 5)}
    (hn : st.heap 0 = some n) (hslots : n.slots = (electionNode 0 0).slots) : OnlySlot 0 0 st := by
  refine ⟨n, hn, fun j hj => ?_⟩
  rw [hslots]
  simpa [electionNode] using hj

/-- Slave 3 wins an election. -/
def wonElection : List (ElectionEvent (Fin 5)) :=
  [.failover 3 (slaveAt 10000), .failover 3 (slaveAt 10500), .deliver 3 1 (masterAt 10500),
    .deliver 3 2 (masterAt 10500), .deliver 1 3 (masterAt 10500), .deliver 2 3 (masterAt 10500),
    .failover 3 (slaveAt 10501)]

theorem exists_wonElection : ∃ w, (Runs.AllSteps electionStep (SafeElection threeMasters)
    electionWorld wonElection ∧ Runs.run electionStep electionWorld wonElection = some w) ∧
      w.promoted = [(3, 1)] :=
  ⟨_,
    Runs.AllSteps.run_cons ⟨by unfold Room; decide, rfl⟩ rfl <|
    Runs.AllSteps.run_cons ⟨by unfold Room; decide, rfl⟩ rfl <|
    Runs.AllSteps.run_cons trivial (electionStep_granted rfl <| clusterProcessAuthRequest_granted rfl rfl rfl
      rfl rfl rfl rfl rfl (slots_le rfl ⟨_, rfl, le_rfl⟩ ⟨_, rfl, le_rfl⟩ ⟨_, rfl, le_rfl⟩) rfl
      (by decide) (by decide) (by decide) (by decide) (by decide)) <|
    Runs.AllSteps.run_cons trivial (electionStep_granted rfl <| clusterProcessAuthRequest_granted rfl rfl rfl
      rfl rfl rfl rfl rfl (slots_le rfl ⟨_, rfl, le_rfl⟩ ⟨_, rfl, le_rfl⟩ ⟨_, rfl, le_rfl⟩) rfl
      (by decide) (by decide) (by decide) (by decide) (by decide)) <|
    Runs.AllSteps.run_cons (fun _ => ⟨by decide, rfl⟩) rfl <|
    Runs.AllSteps.run_cons (fun _ => ⟨by decide, rfl⟩) rfl <|
    Runs.AllSteps.run_cons ⟨by unfold Room; decide, rfl⟩ (electionStep_promoted <| clusterHandleSlaveFailover_promoted
      rfl rfl rfl rfl (by decide) rfl
      (by decide) (by decide) (by decide) rfl <| clusterFailoverPromote_single 0 3 rfl
        (onlySlot_zero rfl rfl) (by decide) rfl rfl rfl) <|
    ⟨trivial, rfl⟩, rfl⟩

/-- The winner has two votes of three. -/
theorem run_wonElection : ∃ w, Runs.run electionStep electionWorld wonElection = some w ∧
    w.promoted = [(3, 1)] ∧ (∀ i j e, (i, e) ∈ w.promoted → (j, e) ∈ w.promoted → i = j) ∧
      ∀ i e, (i, e) ∈ w.promoted → ∃ Q ⊆ threeMasters, threeMasters.card < 2 * Q.card ∧
        ∀ x ∈ Q, ⟨x, e, i⟩ ∈ w.votes := by
  obtain ⟨w, ⟨hall, hrun⟩, hpromoted⟩ := exists_wonElection
  exact ⟨w, hrun, hpromoted, run_electionSafety quiet_electionWorld hall hrun⟩

/-- Slave 3 asks for votes in epoch 1 and schedules another election before it hears from
the masters; slave 4 asks for votes in epoch 2. -/
def staleAcks : List (ElectionEvent (Fin 5)) :=
  [.failover 3 (slaveAt 10000), .failover 3 (slaveAt 10500), .deliver 3 1 (masterAt 10500),
    .deliver 3 2 (masterAt 10500), .failover 3 (slaveAt 20000), .deliver 1 3 (masterAt 20000),
    .deliver 2 3 (masterAt 20000), .failover 3 (slaveAt 20500), .deliver 3 4 (masterAt 20500),
    .failover 4 (slaveAt 20500), .failover 4 (slaveAt 21000), .deliver 4 1 (masterAt 21000),
    .deliver 4 2 (masterAt 21000), .deliver 1 4 (masterAt 21000), .deliver 2 4 (masterAt 21000),
    .failover 3 (slaveAt 21000), .failover 4 (slaveAt 21000)]

/-- The votes of epoch 1 are counted for epoch 2: both slaves promote themselves in that
epoch, one of them without a vote. -/
theorem run_staleAcks : Quiet electionWorld ∧ (∀ i, AgreesOn threeMasters (electionWorld.node i)) ∧
    ∃ w, Runs.run electionStep electionWorld staleAcks = some w ∧
      w.promoted = [(4, 2), (3, 2)] ∧ w.votes = [⟨2, 2, 4⟩, ⟨1, 2, 4⟩, ⟨2, 1, 3⟩, ⟨1, 1, 3⟩] := by
  refine ⟨quiet_electionWorld, agreesOn_electionState, ?_⟩
  exact ⟨_,
    Runs.run_cons_of_step rfl <|
    Runs.run_cons_of_step rfl <|
    Runs.run_cons_of_step (electionStep_granted rfl <| clusterProcessAuthRequest_granted rfl rfl rfl
      rfl rfl rfl rfl rfl (slots_le rfl ⟨_, rfl, le_rfl⟩ ⟨_, rfl, le_rfl⟩ ⟨_, rfl, le_rfl⟩) rfl
      (by decide) (by decide) (by decide) (by decide) (by decide)) <|
    Runs.run_cons_of_step (electionStep_granted rfl <| clusterProcessAuthRequest_granted rfl rfl rfl
      rfl rfl rfl rfl rfl (slots_le rfl ⟨_, rfl, le_rfl⟩ ⟨_, rfl, le_rfl⟩ ⟨_, rfl, le_rfl⟩) rfl
      (by decide) (by decide) (by decide) (by decide) (by decide)) <|
    Runs.run_cons_of_step rfl <|
    Runs.run_cons_of_step rfl <|
    Runs.run_cons_of_step rfl <|
    Runs.run_cons_of_step rfl <|
    Runs.run_cons_of_step rfl <|
    Runs.run_cons_of_step rfl <|
    Runs.run_cons_of_step rfl <|
    Runs.run_cons_of_step (electionStep_granted rfl <| clusterProcessAuthRequest_granted rfl rfl rfl
      rfl rfl rfl rfl rfl (slots_le rfl ⟨_, rfl, le_rfl⟩ ⟨_, rfl, le_rfl⟩ ⟨_, rfl, le_rfl⟩) rfl
      (by decide) (by decide) (by decide) (by decide) (by decide)) <|
    Runs.run_cons_of_step (electionStep_granted rfl <| clusterProcessAuthRequest_granted rfl rfl rfl
      rfl rfl rfl rfl rfl (slots_le rfl ⟨_, rfl, le_rfl⟩ ⟨_, rfl, le_rfl⟩ ⟨_, rfl, le_rfl⟩) rfl
      (by decide) (by decide) (by decide) (by decide) (by decide)) <|
    Runs.run_cons_of_step rfl <|
    Runs.run_cons_of_step rfl <|
    Runs.run_cons_of_step (electionStep_promoted <| clusterHandleSlaveFailover_promoted
      rfl rfl rfl rfl (by decide) rfl
      (by decide) (by decide) (by decide) rfl <| clusterFailoverPromote_single 0 3 rfl
        (onlySlot_zero rfl rfl) (by decide) rfl rfl rfl) <|
    Runs.run_cons_of_step (electionStep_promoted <| clusterHandleSlaveFailover_promoted
      rfl rfl rfl rfl (by decide) rfl
      (by decide) (by decide) (by decide) rfl <| clusterFailoverPromote_single 0 4 rfl
        (onlySlot_zero rfl rfl) (by decide) rfl rfl rfl) <|
    rfl, rfl, rfl⟩

end ClusterState

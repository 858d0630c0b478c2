/-
Replies to clients that wait for replicas.

`processClientsWaitingReplicas` remembers the offset and the number of slaves of the last
client it counted for, and answers a later client with that number when both are greater
than what this client asked for.

* `Replica`, `countAcksByOffset` — the slaves and the loop over them;
* `replyWaitingReplicas` — the loop over the clients, with the replies;
* `replyWaitingReplicas_server` — without the replies it is
  `processClientsWaitingReplicas`;
* `replyWaitingReplicas_exact` — which clients are unblocked and what they are told.
-/
import RedisModel.BlockedClientsRun

open Except

namespace BlockingServer

/-! ### Slaves -/

/-- The fields of a slave that are read; `online` is `REDIS_REPL_ONLINE`. -/
structure Replica where
  online : Bool
  replAckOff : ℤ

/-- The loop of `replicationCountAcksByOffset`. -/
def countAcksByOffset (slaves : List Replica) (offset : ℤ) : ℤ :=
  slaves.foldl (fun count slave =>
    if ¬slave.online then count
    else if slave.replAckOff ≥ offset then count + 1
    else count) 0

/-- The slaves that acknowledged the offset. -/
def acknowledged (offset : ℤ) (slave : Replica) : Bool :=
  slave.online && decide (offset ≤ slave.replAckOff)

theorem countAcksByOffset_eq (slaves : List Replica) (offset : ℤ) :
    countAcksByOffset slaves offset = slaves.countP (acknowledged offset) := by
  have hloop : ∀ (slaves : List Replica) (count : ℤ), slaves.foldl (fun count slave =>
      if ¬slave.online then count
      else if slave.replAckOff ≥ offset then count + 1
      else count) count = count + slaves.countP (acknowledged offset) := by
    intro slaves
    induction slaves with
    | nil => exact fun count => (Int.add_zero count).symm
    | cons slave slaves ih =>
      intro count
      rw [List.foldl_cons, ih, List.countP_cons]
      cases honline : slave.online with
      | false => simp [acknowledged, honline]
      | true =>
        by_cases hoff : offset ≤ slave.replAckOff
        · simp [acknowledged, honline, hoff]
          omega
        · simp [acknowledged, honline, hoff]
  exact (hloop slaves 0).trans (Int.zero_add _)

theorem countAcksByOffset_anti (slaves : List Replica) {a b : ℤ} (h : a ≤ b) :
    countAcksByOffset slaves b ≤ countAcksByOffset slaves a := by
  rw [countAcksByOffset_eq, countAcksByOffset_eq]
  have hle : slaves.countP (acknowledged b) ≤ slaves.countP (acknowledged a) := by
    refine List.countP_mono_left fun slave _ hb => ?_
    simp only [acknowledged, Bool.and_eq_true, decide_eq_true_eq] at hb ⊢
    exact ⟨hb.1, h.trans hb.2⟩
  exact_mod_cast hle

/-! ### The loop -/

section
variable {K V : Type} [DecidableEq K]

/-- A round of the loop of `processClientsWaitingReplicas`, with `last_offset`,
`last_numreplicas` and the replies that were sent. -/
def replyWaitingReplicasRound (slaves : List Replica)
    (p : RedisServer K V × ℤ × ℤ × List (ClientId × ℤ)) (id : ClientId) :
    Except Failure (RedisServer K V × ℤ × ℤ × List (ClientId × ℤ)) := do
  let (s, lastOffset, lastNumreplicas, replies) := p
  let c ← s.getClient id
  if lastOffset ≠ 0 ∧ lastOffset > c.bpop.reploffset ∧ lastNumreplicas > c.bpop.numreplicas then do
    let s ← unblockClient s id
    .ok (s, lastOffset, lastNumreplicas, replies ++ [(id, lastNumreplicas)])
  else
    let numreplicas := countAcksByOffset slaves c.bpop.reploffset
    if numreplicas ≥ c.bpop.numreplicas then do
      let s ← unblockClient s id
      .ok (s, c.bpop.reploffset, numreplicas, replies ++ [(id, numreplicas)])
    else .ok p

/-- `processClientsWaitingReplicas`, with the replies. -/
def replyWaitingReplicas (slaves : List Replica) (s : RedisServer K V) :
    Except Failure (RedisServer K V × List (ClientId × ℤ)) := do
  let p ← s.clientsWaitingAcks.foldlM (replyWaitingReplicasRound slaves) (s, 0, 0, [])
  .ok (p.1, p.2.2.2)

end

section
variable {K V : Type} {s : RedisServer K V} {slaves : List Replica}

/-! ### Who is unblocked -/

/-- Enough slaves acknowledged the offset that the client waits for. -/
def satisfied (slaves : List Replica) (s : RedisServer K V) (id : ClientId) : Bool :=
  match s.client id with
  | some c => decide (c.bpop.numreplicas ≤ countAcksByOffset slaves c.bpop.reploffset)
  | none => false

/-- The state after some clients were unblocked. -/
def unblockedAll (s : RedisServer K V) (ids : List ClientId) : RedisServer K V :=
  ids.foldl (fun s id => match s.client id with
    | some c => unblocked s id c
    | none => s) s

theorem unblockedAll_cons {id : ClientId} {c : RedisClient K V} (hc : s.client id = some c)
    (ids : List ClientId) : unblockedAll s (id :: ids) = unblockedAll (unblocked s id c) ids := by
  rw [unblockedAll, List.foldl_cons, hc]
  rfl

theorem unblocked_client_of_ne {id i : ClientId} {c : RedisClient K V} (hi : i ≠ id) :
    (unblocked s id c).client i = s.client i := Function.update_of_ne hi _ _

theorem satisfied_unblocked_of_ne {id i : ClientId} {c : RedisClient K V} (hi : i ≠ id) :
    satisfied slaves (unblocked s id c) i = satisfied slaves s i := by
  rw [satisfied, satisfied, unblocked_client_of_ne hi]

/-! ### What the loop does -/

/-- The number that is remembered is not greater than that of the slaves that acknowledged
the offset. -/
def Cached (slaves : List Replica) (lastOffset lastNumreplicas : ℤ) : Prop :=
  lastOffset ≠ 0 → lastNumreplicas ≤ countAcksByOffset slaves lastOffset

/-- The clients wait for replicas. -/
def WaitsForReplicas (s : RedisServer K V) (ids : List ClientId) : Prop :=
  ∀ id ∈ ids, ∃ c, s.client id = some c ∧ c.btype = .wait

/-- The replies suit the clients they were sent to. -/
def RepliesOk (slaves : List Replica) (s : RedisServer K V) (replies : List (ClientId × ℤ)) :
    Prop :=
  ∀ id n, (id, n) ∈ replies → ∃ c, s.client id = some c ∧ c.bpop.numreplicas ≤ n ∧
    n ≤ slaves.countP (acknowledged c.bpop.reploffset)

variable {id : ClientId} {c : RedisClient K V} {lastOffset lastNumreplicas : ℤ}

theorem round_of_satisfied [DecidableEq K] (replies : List (ClientId × ℤ)) (h : Booked s)
    (hc : s.client id = some c) (hwait : c.btype = .wait)
    (hcached : Cached slaves lastOffset lastNumreplicas)
    (hsat : satisfied slaves s id = true) : ∃ lastOffset' lastNumreplicas' n,
      replyWaitingReplicasRound slaves (s, lastOffset, lastNumreplicas, replies) id
        = .ok (unblocked s id c, lastOffset', lastNumreplicas', replies ++ [(id, n)]) ∧
      Cached slaves lastOffset' lastNumreplicas' ∧ c.bpop.numreplicas ≤ n ∧
      n ≤ countAcksByOffset slaves c.bpop.reploffset := by
  have hunblock : unblockClient s id = .ok (unblocked s id c) :=
    unblockClient_eq h.toWaiting hc (h.canUnblock hc ((h.flag id c hc).mpr (.inr hwait)))
  have hsat' : c.bpop.numreplicas ≤ countAcksByOffset slaves c.bpop.reploffset := by
    simpa [satisfied, hc] using hsat
  by_cases hfast : lastOffset ≠ 0 ∧ lastOffset > c.bpop.reploffset ∧
      lastNumreplicas > c.bpop.numreplicas
  · -- the answer of an earlier client, which waited for a greater offset
    refine ⟨lastOffset, lastNumreplicas, lastNumreplicas, ?_, hcached, hfast.2.2.le, ?_⟩
    · simp only [replyWaitingReplicasRound, getClient_eq hc, ok_bind, if_pos hfast, hunblock]
    · exact (hcached hfast.1).trans (countAcksByOffset_anti slaves hfast.2.1.le)
  · refine ⟨c.bpop.reploffset, countAcksByOffset slaves c.bpop.reploffset,
      countAcksByOffset slaves c.bpop.reploffset, ?_, fun _ => le_rfl, hsat', le_rfl⟩
    simp only [replyWaitingReplicasRound, getClient_eq hc, ok_bind, if_neg hfast,
      if_pos (show countAcksByOffset slaves c.bpop.reploffset ≥ c.bpop.numreplicas from hsat'),
      hunblock]

theorem round_of_not_satisfied [DecidableEq K] (replies : List (ClientId × ℤ))
    (hc : s.client id = some c) (hcached : Cached slaves lastOffset lastNumreplicas)
    (hsat : satisfied slaves s id = false) :
    replyWaitingReplicasRound slaves (s, lastOffset, lastNumreplicas, replies) id
      = .ok (s, lastOffset, lastNumreplicas, replies) := by
  have hsat' : ¬countAcksByOffset slaves c.bpop.reploffset ≥ c.bpop.numreplicas := by
    simpa [satisfied, hc] using hsat
  -- the shortcut skips no client: what is remembered would satisfy this one
  have hfast : ¬(lastOffset ≠ 0 ∧ lastOffset > c.bpop.reploffset ∧
      lastNumreplicas > c.bpop.numreplicas) := by
    rintro ⟨hne, hoff, hnum⟩
    exact hsat' (hnum.le.trans ((hcached hne).trans (countAcksByOffset_anti slaves hoff.le)))
  simp only [replyWaitingReplicasRound, getClient_eq hc, ok_bind, if_neg hfast, if_neg hsat']

theorem WaitsForReplicas.unblocked {ids : List ClientId} (h : WaitsForReplicas s ids)
    (hid : id ∉ ids) : WaitsForReplicas (unblocked s id c) ids := by
  intro i hi
  have hne : i ≠ id := by
    rintro rfl
    exact hid hi
  rw [unblocked_client_of_ne hne]
  exact h i hi

theorem filter_satisfied_unblocked {ids : List ClientId} (hid : id ∉ ids) :
    ids.filter (satisfied slaves (unblocked s id c)) = ids.filter (satisfied slaves s) := by
  refine List.filter_congr fun i hi => satisfied_unblocked_of_ne ?_
  rintro rfl
  exact hid hi

theorem rounds_eq [DecidableEq K] (ids : List ClientId) (replies : List (ClientId × ℤ))
    (h : Booked s) (hnodup : ids.Nodup) (hids : WaitsForReplicas s ids)
    (hcached : Cached slaves lastOffset lastNumreplicas) :
    ∃ lastOffset' lastNumreplicas' new,
      ids.foldlM (replyWaitingReplicasRound slaves) (s, lastOffset, lastNumreplicas, replies)
        = .ok (unblockedAll s (ids.filter (satisfied slaves s)), lastOffset', lastNumreplicas',
            replies ++ new) ∧
      new.map Prod.fst = ids.filter (satisfied slaves s) ∧ RepliesOk slaves s new := by
  induction ids generalizing s lastOffset lastNumreplicas replies with
  | nil =>
    refine ⟨lastOffset, lastNumreplicas, [], ?_, rfl, fun _ _ hmem => ?_⟩
    · rw [List.append_nil]
      rfl
    · cases hmem
  | cons id ids ih =>
    obtain ⟨hid, hnodup⟩ := List.nodup_cons.mp hnodup
    obtain ⟨c, hc, hwait⟩ := hids id List.mem_cons_self
    have hids' : WaitsForReplicas s ids := fun i hi => hids i (List.mem_cons_of_mem _ hi)
    cases hsat : satisfied slaves s id with
    | true =>
      obtain ⟨lastOffset', lastNumreplicas', n, hround, hcached', hle, hge⟩ :=
        round_of_satisfied replies h hc hwait hcached hsat
      have hblocked := (h.flag id c hc).mpr (.inr hwait)
      obtain ⟨lastOffset'', lastNumreplicas'', new, hloop, hfst, hreplies⟩ :=
        ih (replies ++ [(id, n)]) (h.afterUnblock hc hblocked) hnodup
          (hids'.unblocked hid) hcached'
      rw [filter_satisfied_unblocked hid] at hloop hfst
      refine ⟨lastOffset'', lastNumreplicas'', (id, n) :: new, ?_, ?_, ?_⟩
      · rw [List.foldlM_cons, hround, ok_bind, hloop, List.filter_cons_of_pos hsat,
          unblockedAll_cons hc, List.append_assoc]
        rfl
      · rw [List.map_cons, hfst, List.filter_cons_of_pos hsat]
      · intro i k hmem
        rcases List.mem_cons.mp hmem with heq | hnew
        · obtain ⟨rfl, rfl⟩ := Prod.mk.inj heq
          exact ⟨c, hc, hle, countAcksByOffset_eq slaves _ ▸ hge⟩
        · have hne : i ≠ id := by
            rintro rfl
            have hi : i ∈ new.map Prod.fst := List.mem_map_of_mem hnew
            rw [hfst] at hi
            exact hid (List.mem_of_mem_filter hi)
          obtain ⟨c', hc', hbounds⟩ := hreplies i k hnew
          rw [unblocked_client_of_ne hne] at hc'
          exact ⟨c', hc', hbounds⟩
    | false =>
      obtain ⟨lastOffset', lastNumreplicas', new, hloop, hfst, hreplies⟩ :=
        ih replies h hnodup hids' hcached
      refine ⟨lastOffset', lastNumreplicas', new, ?_, ?_, hreplies⟩
      · rw [List.foldlM_cons, round_of_not_satisfied replies hc hcached hsat, ok_bind, hloop,
          List.filter_cons_of_neg (by simp [hsat])]
      · rw [hfst, List.filter_cons_of_neg (by simp [hsat])]

/-! ### What is left -/

theorem unblockedAll_client (ids : List ClientId) (hnodup : ids.Nodup) (i : ClientId) :
    (unblockedAll s ids).client i
      = if i ∈ ids then (s.client i).map released else s.client i := by
  induction ids generalizing s with
  | nil => rfl
  | cons id ids ih =>
    obtain ⟨hid, hnodup⟩ := List.nodup_cons.mp hnodup
    cases hc : s.client id with
    | none =>
      have heq : unblockedAll s (id :: ids) = unblockedAll s ids := by
        rw [unblockedAll, List.foldl_cons, hc]
        rfl
      rw [heq, ih hnodup]
      by_cases hi : i = id
      · subst hi
        rw [if_neg hid, if_pos List.mem_cons_self, hc]
        rfl
      · simp [hi]
    | some c =>
      rw [unblockedAll_cons hc, ih hnodup]
      by_cases hi : i = id
      · subst hi
        rw [if_neg hid, if_pos List.mem_cons_self, hc]
        exact Function.update_self ..
      · rw [unblocked_client_of_ne hi]
        simp [hi]

theorem unblockedAll_lists (ids : List ClientId) (hnodup : ids.Nodup)
    (hids : WaitsForReplicas s ids) :
    (unblockedAll s ids).unblockedClients = s.unblockedClients ++ ids ∧
      (unblockedAll s ids).clientsWaitingAcks = s.clientsWaitingAcks.diff ids := by
  induction ids generalizing s with
  | nil => exact ⟨(List.append_nil _).symm, rfl⟩
  | cons id ids ih =>
    obtain ⟨hid, hnodup⟩ := List.nodup_cons.mp hnodup
    obtain ⟨c, hc, hwait⟩ := hids id List.mem_cons_self
    have hids' : WaitsForReplicas s ids := fun i hi => hids i (List.mem_cons_of_mem _ hi)
    obtain ⟨hunblocked, hacks⟩ := ih hnodup (hids'.unblocked (c := c) hid)
    rw [unblockedAll_cons hc, hunblocked, hacks, List.diff_cons]
    refine ⟨?_, ?_⟩
    · show s.unblockedClients ++ [id] ++ ids = s.unblockedClients ++ id :: ids
      rw [List.append_assoc]
      rfl
    · show (if c.btype = .wait then s.clientsWaitingAcks.erase id
        else s.clientsWaitingAcks).diff ids = _
      rw [if_pos hwait]

theorem diff_filter {l : List ClientId} (hnodup : l.Nodup) (p : ClientId → Bool) :
    l.diff (l.filter p) = l.filter fun id => !p id := by
  rw [hnodup.sdiff_eq_filter]
  refine List.filter_congr fun id hid => ?_
  cases hp : p id <;> simp [hid, hp]

/-! ### Without the replies -/

/-- The acknowledged offsets of the slaves that are online. -/
def onlineOffsets (slaves : List Replica) : List ℤ :=
  (slaves.filter Replica.online).map Replica.replAckOff

theorem countAcksByOffset_eq_replicationCount (hslaves : s.slaveOffsets = onlineOffsets slaves)
    (offset : ℤ) : countAcksByOffset slaves offset = replicationCountAcksByOffset s offset := by
  rw [countAcksByOffset_eq, replicationCountAcksByOffset, hslaves, onlineOffsets, List.countP_map,
    List.countP_filter]
  congr 2
  funext slave
  simp [acknowledged, Bool.and_comm]

/-- The variables of the loop without the replies. -/
def withoutReplies (p : RedisServer K V × ℤ × ℤ × List (ClientId × ℤ)) :
    RedisServer K V × ℤ × ℤ := (p.1, p.2.1, p.2.2.1)

theorem round_withoutReplies [DecidableEq K] {p : RedisServer K V × ℤ × ℤ × List (ClientId × ℤ)}
    (hslaves : p.1.slaveOffsets = onlineOffsets slaves) (id : ClientId) :
    (replyWaitingReplicasRound slaves p id).map withoutReplies
      = processClientWaitingReplicas (withoutReplies p) id := by
  obtain ⟨s, lastOffset, lastNumreplicas, replies⟩ := p
  have hcount := countAcksByOffset_eq_replicationCount hslaves
  rw [replyWaitingReplicasRound, withoutReplies, processClientWaitingReplicas]
  dsimp only
  cases s.getClient id with
  | error e => rfl
  | ok c =>
    rw [ok_bind, ok_bind, hcount]
    by_cases hfast : lastOffset ≠ 0 ∧ lastOffset > c.bpop.reploffset ∧
        lastNumreplicas > c.bpop.numreplicas
    · rw [if_pos hfast, if_pos hfast]
      cases unblockClient s id <;> rfl
    · rw [if_neg hfast, if_neg hfast]
      by_cases hcounted : replicationCountAcksByOffset s c.bpop.reploffset ≥ c.bpop.numreplicas
      · rw [if_pos hcounted, if_pos hcounted]
        cases unblockClient s id <;> rfl
      · rw [if_neg hcounted, if_neg hcounted]
        rfl

theorem round_ensures [DecidableEq K] (slaves : List Replica)
    {p : RedisServer K V × ℤ × ℤ × List (ClientId × ℤ)}
    (h : Waiting p.1) (id : ClientId) :
    (replyWaitingReplicasRound slaves p id).Ensures (fun _ => True) fun p' =>
      Waiting p'.1 ∧ p'.1.slaveOffsets = p.1.slaveOffsets := by
  obtain ⟨s, lastOffset, lastNumreplicas, replies⟩ := p
  have hunblock : (unblockClient s id).Ensures (fun _ => True) fun s' =>
      Waiting s' ∧ s'.slaveOffsets = s.slaveOffsets := by
    refine (unblockClient_ensures h).imp ?_
    rintro _ ⟨c, hc, hcan, rfl⟩
    exact ⟨Waiting.afterUnblock h hc hcan, rfl⟩
  rw [replyWaitingReplicasRound]
  refine (getClient_ensures trivial).bind fun c _ => ?_
  dsimp only
  split
  · exact hunblock.bind fun _ hs => hs
  · split
    · exact hunblock.bind fun _ hs => hs
    · exact ⟨h, rfl⟩

theorem replyWaitingReplicas_server [DecidableEq K] (h : Waiting s)
    (hslaves : s.slaveOffsets = onlineOffsets slaves) :
    (replyWaitingReplicas slaves s).map Prod.fst = processClientsWaitingReplicas s := by
  have hloop : ∀ (ids : List ClientId) (p : RedisServer K V × ℤ × ℤ × List (ClientId × ℤ)),
      Waiting p.1 → p.1.slaveOffsets = onlineOffsets slaves →
        (ids.foldlM (replyWaitingReplicasRound slaves) p).map withoutReplies
          = ids.foldlM processClientWaitingReplicas (withoutReplies p) := by
    intro ids
    induction ids with
    | nil => exact fun p _ _ => rfl
    | cons id ids ih =>
      intro p hp hoffsets
      have hround := round_withoutReplies hoffsets id
      have hensures := round_ensures slaves hp id
      rw [List.foldlM_cons, List.foldlM_cons, ← hround]
      cases hcase : replyWaitingReplicasRound slaves p id with
      | error e => rfl
      | ok p' =>
        obtain ⟨hp', hoffsets'⟩ := hensures.of_eq_ok hcase
        exact ih p' hp' (hoffsets'.trans hoffsets)
  have hall := hloop s.clientsWaitingAcks (s, 0, 0, []) h hslaves
  rw [processClientsWaitingReplicas, replyWaitingReplicas]
  rw [show withoutReplies (s, (0 : ℤ), (0 : ℤ), ([] : List (ClientId × ℤ))) = (s, 0, 0) from rfl]
    at hall
  rw [← hall]
  cases s.clientsWaitingAcks.foldlM (replyWaitingReplicasRound slaves) (s, 0, 0, []) <;> rfl

/-- **The shortcut of `WAIT`** changes nothing: exactly the clients are unblocked for which
enough slaves acknowledged the offset, in their order, and each of them is told a number
between what it asked for and the number of the slaves that acknowledged its offset. -/
theorem replyWaitingReplicas_exact [DecidableEq K] (h : Booked s) (slaves : List Replica) :
    ∃ s' replies, replyWaitingReplicas slaves s = .ok (s', replies) ∧
      s'.clientsWaitingAcks = s.clientsWaitingAcks.filter (fun id => !satisfied slaves s id) ∧
      s'.unblockedClients
        = s.unblockedClients ++ s.clientsWaitingAcks.filter (satisfied slaves s) ∧
      (∀ id, s'.client id = if id ∈ s.clientsWaitingAcks ∧ satisfied slaves s id = true
        then (s.client id).map released else s.client id) ∧
      replies.map Prod.fst = s.clientsWaitingAcks.filter (satisfied slaves s) ∧
      RepliesOk slaves s replies := by
  have hids : WaitsForReplicas s s.clientsWaitingAcks := fun id hid => (h.acks id).mp hid
  obtain ⟨lastOffset, lastNumreplicas, replies, hloop, hfst, hreplies⟩ :=
    rounds_eq s.clientsWaitingAcks [] h h.acksNodup hids
      (fun hne => absurd rfl hne : Cached slaves 0 0)
  have hnodup := h.acksNodup.filter (satisfied slaves s)
  have hids' : WaitsForReplicas s (s.clientsWaitingAcks.filter (satisfied slaves s)) :=
    fun id hid => hids id (List.mem_of_mem_filter hid)
  obtain ⟨hunblocked, hacks⟩ := unblockedAll_lists _ hnodup hids'
  refine ⟨_, replies, ?_, ?_, hunblocked, ?_, hfst, hreplies⟩
  · rw [replyWaitingReplicas, hloop, ok_bind]
    rfl
  · rw [hacks, diff_filter h.acksNodup]
  · intro id
    rw [unblockedAll_client _ hnodup]
    simp only [List.mem_filter]

end

/-! ### A run on concrete input -/

/-- Two clients write and wait for a replica. -/
def waitingEvents : List (Event ℕ ℕ) :=
  [.connect 1, .connect 2, .tick 0 0 10 [],
    .read 1 [.command (.push .tail 0 5 []), .command (.wait 1 0)], .processInputBuffer 1,
    .processInputBuffer 1, .tick 0 0 20 [],
    .read 2 [.command (.push .tail 0 5 []), .command (.wait 1 0)], .processInputBuffer 2,
    .processInputBuffer 2]

theorem exists_waiting : ∃ s : RedisServer ℕ ℕ,
    (Runs.AllSteps step StepOk (initServer fun _ _ => none) waitingEvents ∧
      Runs.run step (initServer fun _ _ => none) waitingEvents = some s) ∧
      s.clientsWaitingAcks = [1, 2] :=
  ⟨_,
    Runs.AllSteps.run_cons trivial rfl <|
    Runs.AllSteps.run_cons trivial rfl <|
    Runs.AllSteps.run_cons trivial rfl <|
    Runs.AllSteps.run_cons trivial rfl <|
    Runs.AllSteps.run_cons (stepOk_of_unblocked rfl rfl rfl) rfl <|
    Runs.AllSteps.run_cons (stepOk_of_unblocked rfl rfl rfl) rfl <|
    Runs.AllSteps.run_cons trivial rfl <|
    Runs.AllSteps.run_cons trivial rfl <|
    Runs.AllSteps.run_cons (stepOk_of_unblocked rfl rfl rfl) rfl <|
    Runs.AllSteps.run_cons (stepOk_of_unblocked rfl rfl rfl) rfl
    ⟨trivial, rfl⟩, rfl⟩

/-- One slave acknowledged the offset of the first client. -/
theorem replyWaitingReplicas_waiting : ∃ s : RedisServer ℕ ℕ, s.clientsWaitingAcks = [1, 2] ∧
    ∃ s' replies, replyWaitingReplicas [⟨true, 15⟩, ⟨false, 30⟩] s = .ok (s', replies) ∧
      s'.clientsWaitingAcks
        = s.clientsWaitingAcks.filter fun id => !satisfied [⟨true, 15⟩, ⟨false, 30⟩] s id := by
  obtain ⟨s, ⟨hall, hrun⟩, hacks⟩ := exists_waiting
  obtain ⟨s', replies, hreply, hleft, -⟩ :=
    replyWaitingReplicas_exact (run_booked hall hrun).1 [⟨true, 15⟩, ⟨false, 30⟩]
  exact ⟨s, hacks, s', replies, hreply, hleft⟩

end BlockingServer

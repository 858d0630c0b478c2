/-
What holds while a manual failover lasts.

As long as a manual failover of a slave lasts and the master has heard of it, the clients of
the master are paused: the master ends its own part of the failover later than the slave,
and the pause later still.  So an offset that the master announced since it heard of the
failover is the offset of its last write.

* `Inv` — the invariant; `Initial` — the states from which runs begin;
* `Inv.change_slave`, `Inv.change_master` — it holds after a change of a server;
* `Inv.send`, `Inv.setLink`, `Inv.tick`, `Inv.append`, `Inv.replicate` — and when packets are
  sent or taken away, time passes and the replication stream grows.
-/
import RedisModel.ManualFailoverSpec

open Except ClusterState

namespace ManualFailover

variable {N : Type}

/-! ### The invariant -/

/-- No write of a client follows the first `k` entries of the stream. -/
def NoWriteAfter (w : World N) (k : ℕ) : Prop := ∀ e ∈ w.feed.drop k, e.client = false

/-- No write of a client was executed since the master was at this offset. -/
def Settled (w : World N) (offset : ℤ) : Prop :=
  ∃ k ≤ w.feed.length, w.offsetAt k = offset ∧ NoWriteAfter w k

/-- A packet on the link from `i` to `j`. -/
structure PacketOk (w : World N) (i j : N) (p : Packet N) : Prop where
  sender : p.body.hdr.sender = i
  heard : p.heard ≤ w.heard j
  ping : ∀ hdr, p.body = .ping hdr → i ≠ j
  update : ∀ hdr name configEpoch slots, p.body = .update hdr name configEpoch slots → name ≠ j
  attempt : ∀ hdr attempt, p.body = .mfstart hdr attempt → attempt ≤ w.attempt i

section
variable (m : N)

/-- A slave of `m` is in a manual failover whose time is not over. -/
structure Live (w : World N) (i : N) : Prop where
  ne : i ≠ m
  mfEnd : (w.node i).mfEnd ≠ 0
  master : (w.node i).masterName = some m
  time : w.time i ≤ (w.node i).mfEnd

/-- The clients of the master, in the state `sv`, are paused for longer than the manual
failover of the slave `i` lasts. -/
structure Held (w : World N) (sv : Server N) (i : N) : Prop where
  paused : sv.clientsPaused = true
  mfEnd : sv.cluster.mfEnd ≠ 0
  deadline : (w.node i).mfEnd - w.clock i ≤ sv.cluster.mfEnd - w.clock m
  pauseEnd : sv.cluster.mfEnd + mfTimeout ≤ sv.clientsPauseEndTime

/-- What holds of a slave in a manual failover. -/
structure Promise (w : World N) (i : N) : Prop where
  held : w.heard i = w.attempt i → (w.node m).isMaster = true → Held m w (w.server m) i
  target : (w.node i).mfMasterOffset ≠ 0 →
    w.heard i = w.attempt i ∧ Settled w (w.node i).mfMasterOffset
  announced : ∀ p ∈ w.link m i, p.heard = w.attempt i → p.body.hdr.paused = true →
    Settled w p.body.hdr.offset
  canStart : (w.node i).mfCanStart = true →
    w.heard i = w.attempt i ∧ ∃ k, w.applied i = some k ∧ NoWriteAfter w k

structure Inv (w : World N) : Prop where
  named : ∀ i, Named i (w.node i)
  table : ∀ i, TableOk (w.node i)
  clock : ∀ i, 0 < w.time i
  mstime : ∀ i, (w.server i).mstime ≤ w.time i
  deadline : ∀ i, (w.node i).mfEnd ≤ w.time i + mfTimeout
  heard : ∀ i, w.heard i ≤ w.attempt i
  applied : ∀ i k, w.applied i = some k → k ≤ w.feed.length
  packetOk : ∀ i j, ∀ p ∈ w.link i j, PacketOk w i j p
  promise : ∀ i, Live m w i → Promise m w i
  promotions : ∀ p ∈ w.promotions, p.Complete

end

variable {m : N} {w : World N}

theorem PacketOk.mono {w' : World N} {i j : N} {p : Packet N} (h : PacketOk w i j p)
    (hheard : w.heard j ≤ w'.heard j) (hattempt : w.attempt i ≤ w'.attempt i) :
    PacketOk w' i j p where
  sender := h.sender
  heard := h.heard.trans hheard
  ping := h.ping
  update := h.update
  attempt := fun hdr n hbody => (h.attempt hdr n hbody).trans hattempt

theorem Held.congr {w' : World N} {sv : Server N} {i : N} (h : Held m w sv i)
    (hnode : w'.node i = w.node i) (hclock : w'.clock = w.clock) : Held m w' sv i where
  paused := h.paused
  mfEnd := h.mfEnd
  deadline := by
    rw [hnode, hclock]
    exact h.deadline
  pauseEnd := h.pauseEnd

theorem NoWriteAfter.mono {k l : ℕ} (h : NoWriteAfter w k) (hle : k ≤ l) : NoWriteAfter w l :=
  fun e he => h e (List.drop_subset_drop_left w.feed hle he)

theorem noWriteAfter_length : NoWriteAfter w w.feed.length := by
  intro e he
  rw [List.drop_length] at he
  cases he

theorem settled_masterReplOffset : Settled w w.masterReplOffset :=
  ⟨w.feed.length, le_rfl, rfl, noWriteAfter_length⟩

theorem offsetAt_strictMono {k l : ℕ} (hkl : k < l) (hl : l ≤ w.feed.length) :
    w.offsetAt k < w.offsetAt l := by
  have hsum : ((w.feed.take l).map Entry.size).sum
      = ((w.feed.take k).map Entry.size).sum
        + (((w.feed.drop k).take (l - k)).map Entry.size).sum := by
    rw [← List.sum_append, ← List.map_append, ← List.take_add, Nat.add_sub_cancel' hkl.le]
  have hpos : 0 < (((w.feed.drop k).take (l - k)).map Entry.size).sum := by
    cases hd : w.feed.drop k with
    | nil =>
      rw [List.drop_eq_nil_iff] at hd
      omega
    | cons e es =>
      obtain ⟨n, hn⟩ : ∃ n, l - k = n + 1 := ⟨l - k - 1, by omega⟩
      rw [hn, List.take_succ_cons, List.map_cons, List.sum_cons]
      exact Nat.add_pos_left e.size_pos _
  simp only [World.offsetAt]
  omega

theorem eq_of_offsetAt_eq {k l : ℕ} (hk : k ≤ w.feed.length) (hl : l ≤ w.feed.length)
    (h : w.offsetAt k = w.offsetAt l) : k = l := by
  rcases lt_trichotomy k l with hlt | heq | hlt
  · exact absurd h (offsetAt_strictMono hlt hl).ne
  · exact heq
  · exact absurd h.symm (offsetAt_strictMono hlt hk).ne

theorem Held.time_le {sv : Server N} {i : N} (hlive : Live m w i) (h : Held m w sv i) :
    w.time m ≤ sv.cluster.mfEnd := by
  have htime := hlive.time
  have hdeadline := h.deadline
  simp only [World.time] at htime ⊢
  omega

variable (m) in
/-- The states from which runs begin: `m` has heard of none of the manual failovers of its
slaves that go on, as after it was promoted. -/
structure Initial (w : World N) : Prop where
  named : ∀ i, Named i (w.node i)
  table : ∀ i, TableOk (w.node i)
  clock : ∀ i, 0 < w.time i
  mstime : ∀ i, (w.server i).mstime ≤ w.time i
  deadline : ∀ i, (w.node i).mfEnd ≤ w.time i + mfTimeout
  heard : ∀ i, w.heard i ≤ w.attempt i
  applied : ∀ i k, w.applied i = some k → k ≤ w.feed.length
  packetOk : ∀ i j, ∀ p ∈ w.link i j, PacketOk w i j p
  waiting : ∀ i, Live m w i → w.heard i < w.attempt i ∧ (w.node i).mfMasterOffset = 0 ∧
    (w.node i).mfCanStart = false
  promotions : w.promotions = []

theorem Inv.tick (h : Inv m w) (d : ℕ) : Inv m { w with now := w.now + d } := by
  have htime : ∀ i, w.time i ≤ World.time { w with now := w.now + d } i := by
    intro i
    simp only [World.time]
    omega
  refine ⟨h.named, h.table, fun i => (h.clock i).trans_le (htime i),
    fun i => (h.mstime i).trans (htime i),
    fun i => (h.deadline i).trans (Int.add_le_add_right (htime i) _), h.heard, h.applied,
    fun i j p hp => ?_, fun i hi => ?_, h.promotions⟩
  · exact (h.packetOk i j p hp).mono le_rfl le_rfl
  · obtain ⟨hheld, htarget, hannounced, hstart⟩ :=
      h.promise i ⟨hi.ne, hi.mfEnd, hi.master, (htime i).trans hi.time⟩
    refine ⟨fun heq hmaster => ?_, htarget, hannounced, hstart⟩
    exact (hheld heq hmaster).congr rfl rfl

theorem offsetAt_append {k : ℕ} {e : Entry} (hk : k ≤ w.feed.length) :
    World.offsetAt { w with feed := w.feed ++ [e] } k = w.offsetAt k := by
  rw [World.offsetAt, World.offsetAt, List.take_append_of_le_length hk]

theorem Inv.append (h : Inv m w) {e : Entry}
    (hwrite : e.client = true → ∀ i, Live m w i → w.heard i ≠ w.attempt i) :
    Inv m { w with feed := w.feed ++ [e] } := by
  have hnoWrite : ∀ i, Live m w i → w.heard i = w.attempt i → ∀ k, k ≤ w.feed.length →
      NoWriteAfter w k → NoWriteAfter { w with feed := w.feed ++ [e] } k := by
    intro i hi heq k hk hk' e' he'
    have he'' : e' ∈ (w.feed ++ [e]).drop k := he'
    rw [List.drop_append_of_le_length hk, List.mem_append, List.mem_singleton] at he''
    rcases he'' with he'' | rfl
    · exact hk' e' he''
    · rw [← Bool.not_eq_true]
      exact fun hclient => hwrite hclient i hi heq
  have hsettled : ∀ i, Live m w i → w.heard i = w.attempt i → ∀ offset, Settled w offset →
      Settled { w with feed := w.feed ++ [e] } offset := by
    rintro i hi heq offset ⟨k, hk, hoffset, hk'⟩
    refine ⟨k, ?_, (offsetAt_append hk).trans hoffset, hnoWrite i hi heq k hk hk'⟩
    show k ≤ (w.feed ++ [e]).length
    rw [List.length_append]
    omega
  refine ⟨h.named, h.table, h.clock, h.mstime, h.deadline, h.heard, ?_, ?_, ?_, h.promotions⟩
  · intro i k hk
    show k ≤ (w.feed ++ [e]).length
    rw [List.length_append]
    exact (h.applied i k hk).trans (Nat.le_add_right _ _)
  · exact fun i j p hp => (h.packetOk i j p hp).mono le_rfl le_rfl
  · intro i hi
    have hlive : Live m w i := ⟨hi.ne, hi.mfEnd, hi.master, hi.time⟩
    obtain ⟨hheld, htarget, hannounced, hstart⟩ := h.promise i hlive
    constructor
    case held =>
      intro heq hmaster
      exact (hheld heq hmaster).congr rfl rfl
    case target =>
      intro hoffset
      obtain ⟨heq, hs⟩ := htarget hoffset
      exact ⟨heq, hsettled i hlive heq _ hs⟩
    case announced =>
      intro p hp heq hpaused
      -- the packet was sent when the master had heard of the attempt
      have heard : w.heard i = w.attempt i :=
        le_antisymm (h.heard i) (heq.ge.trans (h.packetOk m i p hp).heard)
      exact hsettled i hlive heard _ (hannounced p hp heq hpaused)
    case canStart =>
      intro hcan
      obtain ⟨heq, k, hk, hwrites⟩ := hstart hcan
      exact ⟨heq, k, hk, hnoWrite i hlive heq k (h.applied i k hk) hwrites⟩

section
variable [LinearOrder N]

/-! ### Changes of a server -/

theorem server_setServer_self (i : N) (sv : Server N) : (w.setServer i sv).server i = sv :=
  Function.update_self ..

theorem node_setServer_self (i : N) (sv : Server N) :
    (w.setServer i sv).node i = sv.cluster :=
  congrArg Server.cluster (server_setServer_self i sv)

theorem applied_setServer {i : N} {sv : Server N}
    (h : sv.cluster.masterName = (w.node i).masterName) :
    (w.setServer i sv).applied = w.applied := if_pos h

/-- Change a server and the numbers of the attempts. -/
def World.change (w : World N) (i : N) (sv : Server N) (attempt heard : N → ℕ) : World N :=
  { w.setServer i sv with attempt, heard }

section
variable {i j : N} {sv : Server N} {attempt heard : N → ℕ}

theorem server_change_self : (w.change i sv attempt heard).server i = sv :=
  server_setServer_self i sv

theorem server_change_of_ne (h : j ≠ i) : (w.change i sv attempt heard).server j = w.server j :=
  Function.update_of_ne h _ _

theorem node_change_self : (w.change i sv attempt heard).node i = sv.cluster :=
  node_setServer_self i sv

theorem node_change_of_ne (h : j ≠ i) : (w.change i sv attempt heard).node j = w.node j :=
  congrArg Server.cluster (server_change_of_ne h)

theorem applied_change_of_ne (h : j ≠ i) :
    (w.change i sv attempt heard).applied j = w.applied j := by
  show (if _ then w.applied else Function.update w.applied i none) j = w.applied j
  split
  · rfl
  · exact Function.update_of_ne h _ _

theorem applied_of_change {k : ℕ} (h : (w.change i sv attempt heard).applied j = some k) :
    w.applied j = some k := by
  by_cases hj : j = i
  · subst hj
    by_cases hname : sv.cluster.masterName = (w.node j).masterName
    · exact (applied_setServer hname) ▸ h
    · have hnone : (w.change j sv attempt heard).applied = Function.update w.applied j none :=
        if_neg hname
      rw [hnone, Function.update_self] at h
      cases h
  · rwa [applied_change_of_ne hj] at h

theorem Live.of_change (hj : j ≠ i) (h : Live m (w.change i sv attempt heard) j) :
    Live m w j := by
  obtain ⟨hne, hend, hmaster, htime⟩ := h
  rw [node_change_of_ne hj] at hend hmaster htime
  exact ⟨hne, hend, hmaster, htime⟩

theorem Promise.change (h : Promise m w j) (hj : j ≠ i) (hattempt : attempt j = w.attempt j)
    (hheard : w.heard j = w.attempt j → heard j = w.attempt j)
    (hheld : heard j = w.attempt j → ((w.change i sv attempt heard).node m).isMaster = true →
      Held m w ((w.change i sv attempt heard).server m) j) :
    Promise m (w.change i sv attempt heard) j := by
  have hnode : (w.change i sv attempt heard).node j = w.node j := node_change_of_ne hj
  constructor
  case held =>
    intro heq hmaster
    exact (hheld (heq.trans hattempt) hmaster).congr hnode rfl
  case target =>
    rw [hnode]
    intro hoffset
    obtain ⟨heq, hsettled⟩ := h.target hoffset
    exact ⟨(hheard heq).trans hattempt.symm, hsettled⟩
  case announced =>
    intro p hp heq hpaused
    exact h.announced p hp (heq.trans hattempt) hpaused
  case canStart =>
    rw [hnode]
    intro hstart
    obtain ⟨heq, k, hk, hwrites⟩ := h.canStart hstart
    exact ⟨(hheard heq).trans hattempt.symm, k, (applied_change_of_ne hj).trans hk, hwrites⟩

/-- What the new state of a server needs to be like, wherever it is. -/
structure Fresh (w : World N) (i : N) (sv : Server N) : Prop where
  named : Named i sv.cluster
  table : TableOk sv.cluster
  mstime : sv.mstime ≤ w.time i
  deadline : sv.cluster.mfEnd ≤ w.time i + mfTimeout

theorem Inv.change (h : Inv m w) (hfresh : Fresh w i sv) (hattempt : ∀ j, w.attempt j ≤ attempt j)
    (hheard : ∀ j, w.heard j ≤ heard j) (hle : ∀ j, heard j ≤ attempt j)
    (hpromise : ∀ j, Live m (w.change i sv attempt heard) j →
      Promise m (w.change i sv attempt heard) j) : Inv m (w.change i sv attempt heard) := by
  constructor
  case named =>
    intro j
    by_cases hj : j = i
    · subst hj
      rw [node_change_self]
      exact hfresh.named
    · rw [node_change_of_ne hj]
      exact h.named j
  case table =>
    intro j
    by_cases hj : j = i
    · subst hj
      rw [node_change_self]
      exact hfresh.table
    · rw [node_change_of_ne hj]
      exact h.table j
  case clock => exact h.clock
  case mstime =>
    intro j
    by_cases hj : j = i
    · subst hj
      rw [server_change_self]
      exact hfresh.mstime
    · rw [server_change_of_ne hj]
      exact h.mstime j
  case deadline =>
    intro j
    by_cases hj : j = i
    · subst hj
      rw [node_change_self]
      exact hfresh.deadline
    · rw [node_change_of_ne hj]
      exact h.deadline j
  case heard => exact hle
  case applied => exact fun j k hk => h.applied j k (applied_of_change hk)
  case packetOk =>
    intro a b p hp
    exact (h.packetOk a b p hp).mono (hheard b) (hattempt a)
  case promise => exact hpromise
  case promotions => exact h.promotions

end

theorem Inv.change_slave (h : Inv m w) {i : N} {sv : Server N} {x : ℕ} (hi : i ≠ m)
    (hfresh : Fresh w i sv) (hx : w.attempt i ≤ x)
    (hpromise : Live m (w.change i sv (Function.update w.attempt i x) w.heard) i →
      Promise m (w.change i sv (Function.update w.attempt i x) w.heard) i) :
    Inv m (w.change i sv (Function.update w.attempt i x) w.heard) := by
  have hle : ∀ j, w.attempt j ≤ Function.update w.attempt i x j := by
    intro j
    by_cases hj : j = i
    · subst hj
      rwa [Function.update_self]
    · rw [Function.update_of_ne hj]
  refine h.change hfresh hle (fun _ => le_rfl) (fun j => (h.heard j).trans (hle j)) ?_
  intro j hj
  by_cases hji : j = i
  · subst hji
    exact hpromise hj
  · have hold := h.promise j (hj.of_change hji)
    refine hold.change hji (Function.update_of_ne hji _ _) id ?_
    rw [node_change_of_ne hi.symm, server_change_of_ne hi.symm]
    exact hold.held

theorem Inv.change_master (h : Inv m w) {sv : Server N} {attempt heard : N → ℕ}
    (hfresh : Fresh w m sv) (hsame : ∀ i, i ≠ m → attempt i = w.attempt i)
    (hattempt : w.attempt m ≤ attempt m) (hheard : ∀ i, w.heard i ≤ heard i)
    (hle : ∀ i, heard i ≤ attempt i)
    (hheld : ∀ i, Live m w i → heard i = w.attempt i → sv.cluster.isMaster = true →
      Held m w sv i) : Inv m (w.change m sv attempt heard) := by
  have hmono : ∀ i, w.attempt i ≤ attempt i := by
    intro i
    by_cases hi : i = m
    · subst hi
      exact hattempt
    · exact (hsame i hi).ge
  refine h.change hfresh hmono hheard hle ?_
  intro i hi
  have hlive := hi.of_change hi.ne
  refine (h.promise i hlive).change hi.ne (hsame i hi.ne) ?_ ?_
  · intro heq
    exact le_antisymm ((hle i).trans (hsame i hi.ne).le) (heq.ge.trans (hheard i))
  · rw [node_change_self, server_change_self]
    exact hheld i hlive

/-! ### Packets -/

theorem Inv.setLink (h : Inv m w) {i j : N} {packets : List (Packet N)}
    (hsub : ∀ p ∈ packets, p ∈ w.link i j) : Inv m (w.setLink i j packets) := by
  have hlink : ∀ a b, ∀ p ∈ (w.setLink i j packets).link a b, p ∈ w.link a b := by
    intro a b p hp
    by_cases hab : a = i ∧ b = j
    · obtain ⟨rfl, rfl⟩ := hab
      have heq : (w.setLink a b packets).link a b = packets := if_pos ⟨rfl, rfl⟩
      exact hsub p (heq ▸ hp)
    · have heq : (w.setLink i j packets).link a b = w.link a b := if_neg hab
      exact heq ▸ hp
  refine ⟨h.named, h.table, h.clock, h.mstime, h.deadline, h.heard, h.applied, ?_, ?_,
    h.promotions⟩
  · exact fun a b p hp => (h.packetOk a b p (hlink a b p hp)).mono le_rfl le_rfl
  · intro a ha
    have hlive : Live m w a := ⟨ha.ne, ha.mfEnd, ha.master, ha.time⟩
    obtain ⟨hheld, htarget, hannounced, hstart⟩ := h.promise a hlive
    refine ⟨fun heq hmaster => ?_, htarget, fun p hp => hannounced p (hlink m a p hp), hstart⟩
    exact (hheld heq hmaster).congr rfl rfl

theorem Inv.send (h : Inv m w) {i j : N} {body : Body N}
    (hok : PacketOk w i j ⟨body, w.heard j⟩)
    (hoffset : i = m → body.hdr.paused = true → Settled w body.hdr.offset) :
    Inv m (w.send i j body) := by
  have hlink : ∀ a b, ∀ p ∈ (w.send i j body).link a b,
      p ∈ w.link a b ∨ (a = i ∧ b = j ∧ p = ⟨body, w.heard j⟩) := by
    intro a b p hp
    by_cases hab : a = i ∧ b = j
    · obtain ⟨rfl, rfl⟩ := hab
      have heq : (w.send a b body).link a b = w.link a b ++ [⟨body, w.heard b⟩] :=
        if_pos ⟨rfl, rfl⟩
      rw [heq, List.mem_append, List.mem_singleton] at hp
      exact hp.imp id fun hp => ⟨rfl, rfl, hp⟩
    · have heq : (w.send i j body).link a b = w.link a b := if_neg hab
      exact .inl (heq ▸ hp)
  refine ⟨h.named, h.table, h.clock, h.mstime, h.deadline, h.heard, h.applied, ?_, ?_,
    h.promotions⟩
  · intro a b p hp
    rcases hlink a b p hp with hp | ⟨rfl, rfl, rfl⟩
    · exact (h.packetOk a b p hp).mono le_rfl le_rfl
    · exact hok.mono le_rfl le_rfl
  · intro a ha
    have hlive : Live m w a := ⟨ha.ne, ha.mfEnd, ha.master, ha.time⟩
    obtain ⟨hheld, htarget, hannounced, hstart⟩ := h.promise a hlive
    refine ⟨fun heq hmaster => ?_, htarget, fun p hp => ?_, hstart⟩
    · exact (hheld heq hmaster).congr rfl rfl
    · rcases hlink m a p hp with hp | ⟨hm, -, rfl⟩
      · exact hannounced p hp
      · exact fun _ => hoffset hm.symm

theorem Inv.replicate (h : Inv m w) {i : N} {k : ℕ} (hk : k ≤ w.feed.length)
    (hle : (w.applied i).getD 0 ≤ k) :
    Inv m { w with applied := Function.update w.applied i (some k) } := by
  refine ⟨h.named, h.table, h.clock, h.mstime, h.deadline, h.heard, ?_, ?_, ?_, h.promotions⟩
  · intro j l hl
    have hl' : Function.update w.applied i (some k) j = some l := hl
    by_cases hj : j = i
    · subst hj
      rw [Function.update_self, Option.some_inj] at hl'
      exact hl' ▸ hk
    · rw [Function.update_of_ne hj] at hl'
      exact h.applied j l hl'
  · exact fun a b p hp => (h.packetOk a b p hp).mono le_rfl le_rfl
  · intro j hj
    obtain ⟨hheld, htarget, hannounced, hstart⟩ :=
      h.promise j ⟨hj.ne, hj.mfEnd, hj.master, hj.time⟩
    refine ⟨fun heq hmaster => ?_, htarget, hannounced, fun hcan => ?_⟩
    · exact (hheld heq hmaster).congr rfl rfl
    · obtain ⟨heq, l, hl, hwrites⟩ := hstart hcan
      by_cases hji : j = i
      · subst hji
        rw [hl, Option.getD_some] at hle
        exact ⟨heq, k, Function.update_self .., hwrites.mono hle⟩
      · exact ⟨heq, l, (Function.update_of_ne hji _ _).trans hl, hwrites⟩

end

end ManualFailover

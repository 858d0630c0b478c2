/-
The list of the slaves of a master.

`clusterNodeRemoveSlave` closes the gap in the array of pointers with a `memmove` whose
length is a number of pointers, not of bytes.

* `SlaveCall`, `callStep` — the calls on a master;
* `recordCall` — what a call is meant to do to the list;
* `bytesRefs_append`, `bytesRefs_refBytes` — the array as bytes;
* `closeGap_eq_iff` — when the pointers behind the slave end up where they should;
* `run_slaves_iff` — when a run of calls keeps the list as it is meant to be.
-/
import RedisModel.ClusterSlotsRun
import RedisModel.Runs

open ByteBuffer

namespace ClusterState

/-- A call on a master. -/
inductive SlaveCall where
  | add (slave : NodeRef)
  | remove (slave : NodeRef)
  deriving DecidableEq

/-- The slave of a call. -/
def SlaveCall.slave : SlaveCall → NodeRef
  | add slave => slave
  | remove slave => slave

/-- The list after a call, as it is meant to be: a new slave at the end, a removed one
gone and the others where they were. -/
def recordCall (slaves : List NodeRef) : SlaveCall → List NodeRef
  | .add slave => if slave ∈ slaves then slaves else slaves ++ [slave]
  | .remove slave => slaves.erase slave

/-- No slave stands behind the one that is removed, or one whose address is the same up to
the low byte. -/
def ClosesBehind (slave : NodeRef) : List NodeRef → Prop
  | [] => True
  | [y] => slave / 256 = y / 256
  | _ :: _ :: _ => False

instance (slave : NodeRef) : ∀ t, Decidable (ClosesBehind slave t)
  | [] => instDecidableTrue
  | [y] => inferInstanceAs (Decidable (slave / 256 = y / 256))
  | _ :: _ :: _ => instDecidableFalse

/-- The slaves behind a slave; none when it is unknown. -/
def behind (slaves : List NodeRef) (slave : NodeRef) : List NodeRef :=
  slaves.drop (slaves.idxOf slave + 1)

/-- A call finds the list such that the `memmove` can close the gap. -/
def GapCloses (slaves : List NodeRef) : SlaveCall → Prop
  | .add _ => True
  | .remove slave => ClosesBehind slave (behind slaves slave)

instance (slaves : List NodeRef) : ∀ c, Decidable (GapCloses slaves c)
  | .add _ => instDecidableTrue
  | .remove slave => inferInstanceAs (Decidable (ClosesBehind slave (behind slaves slave)))

theorem not_closesBehind_of_two {slave : NodeRef} {t : List NodeRef} (h : 2 ≤ t.length) :
    ¬ClosesBehind slave t := by
  rcases t with _ | ⟨y, _ | ⟨z, t⟩⟩
  · exact absurd h (by simp)
  · exact absurd h (by simp)
  · exact id

theorem behind_of_not_mem {slaves : List NodeRef} {slave : NodeRef} (h : slave ∉ slaves) :
    behind slaves slave = [] := by
  have hlen : slaves.length ≤ slaves.idxOf slave := (List.idxOf_eq_length_iff.mpr h).ge
  exact List.drop_eq_nil_of_le (by omega)

theorem idxOf_middle {a t : List NodeRef} {slave : NodeRef} (h : slave ∉ a) :
    (a ++ slave :: t).idxOf slave = a.length := by
  rw [List.idxOf_append_of_notMem h, List.idxOf_cons_self, Nat.add_zero]

theorem behind_middle {a t : List NodeRef} {slave : NodeRef} (h : slave ∉ a) :
    behind (a ++ slave :: t) slave = t := by
  rw [behind, idxOf_middle h, ← List.drop_drop, List.drop_left]
  rfl

/-! ### The array as bytes -/

theorem length_refBytes (refs : List NodeRef) : (refBytes refs).length = 8 * refs.length := by
  induction refs with
  | nil => rfl
  | cons r refs ih =>
    have hcons : refBytes (r :: refs) = leBytes 8 r ++ refBytes refs := rfl
    rw [hcons, List.length_append, length_leBytes, ih, List.length_cons]
    omega

theorem refBytes_append (a b : List NodeRef) : refBytes (a ++ b) = refBytes a ++ refBytes b :=
  List.flatMap_append

theorem refBytes_cons (r : NodeRef) (l : List NodeRef) :
    refBytes (r :: l) = leBytes 8 r ++ refBytes l := rfl

@[simp] theorem length_bytesRefs (k : ℕ) (bs : Bytes) : (bytesRefs k bs).length = k := by
  induction k generalizing bs with
  | zero => rfl
  | succ k ih => rw [bytesRefs, List.length_cons, ih]

theorem bytesRefs_append {k : ℕ} {x : Bytes} (hx : x.length = 8 * k) (m : ℕ) (y : Bytes) :
    bytesRefs (k + m) (x ++ y) = bytesRefs k x ++ bytesRefs m y := by
  induction k generalizing x with
  | zero =>
    obtain rfl := List.length_eq_zero_iff.mp hx
    rw [Nat.zero_add]
    rfl
  | succ k ih =>
    have htake : (x ++ y).take 8 = x.take 8 := List.take_append_of_le_length (by omega)
    have hdrop : (x ++ y).drop 8 = x.drop 8 ++ y := List.drop_append_of_le_length (by omega)
    have hlen : (x.drop 8).length = 8 * k := by
      rw [List.length_drop]
      omega
    rw [Nat.succ_add, bytesRefs, bytesRefs, htake, hdrop, ih hlen, List.cons_append]

theorem bytesRefs_refBytes {refs : List NodeRef} (h : ∀ r ∈ refs, r < 2 ^ 64) :
    bytesRefs refs.length (refBytes refs) = refs := by
  induction refs with
  | nil => rfl
  | cons r refs ih =>
    obtain ⟨hr, hrefs⟩ := List.forall_mem_cons.mp h
    have htake : (refBytes (r :: refs)).take 8 = leBytes 8 r := by
      rw [refBytes_cons, List.take_left' (length_leBytes 8 r)]
    have hdrop : (refBytes (r :: refs)).drop 8 = refBytes refs := by
      rw [refBytes_cons, List.drop_left' (length_leBytes 8 r)]
    rw [List.length_cons, bytesRefs, htake, hdrop, ih hrefs, leVal_leBytes_of_lt (by omega)]

/-! ### Closing the gap -/

/-- The pointers in the place of `slave` and of those behind it, after the `memmove`. -/
def closeGap (slave : NodeRef) (t : List NodeRef) : List NodeRef :=
  bytesRefs t.length ((refBytes t).take t.length ++ (refBytes (slave :: t)).drop t.length)

theorem memmove_slaves (a : List NodeRef) (slave : NodeRef) (t : List NodeRef) :
    memmove (refBytes (a ++ slave :: t)) (8 * a.length) (8 * (a.length + 1)) t.length
      = some (refBytes a ++ ((refBytes t).take t.length ++
        (refBytes (slave :: t)).drop t.length)) := by
  have hta : (refBytes t).length = 8 * t.length := length_refBytes t
  have hsource : slice (refBytes (a ++ slave :: t)) (8 * (a.length + 1)) t.length
      = some ((refBytes t).take t.length) := by
    have hcut : refBytes (a ++ slave :: t)
        = refBytes (a ++ [slave]) ++ ((refBytes t).take t.length ++ (refBytes t).drop t.length) := by
      rw [List.take_append_drop, ← refBytes_append, List.append_assoc]
      rfl
    rw [hcut]
    refine slice_append ?_ ?_
    · rw [length_refBytes, List.length_append, List.length_singleton]
    · rw [List.length_take]
      omega
  have htarget : store (refBytes (a ++ slave :: t)) (8 * a.length) ((refBytes t).take t.length)
      = some (refBytes a ++ ((refBytes t).take t.length ++
        (refBytes (slave :: t)).drop t.length)) := by
    have hcut : refBytes (a ++ slave :: t) = refBytes a ++
        ((refBytes (slave :: t)).take t.length ++ (refBytes (slave :: t)).drop t.length) := by
      rw [List.take_append_drop, ← refBytes_append]
    rw [hcut]
    refine store_append ?_ ?_
    · rw [length_refBytes]
    · rw [List.length_take, List.length_take, length_refBytes, length_refBytes, List.length_cons]
      omega
  rw [memmove, hsource]
  exact htarget

theorem closeGap_singleton (slave y : NodeRef) (hslave : slave < 2 ^ 64) :
    closeGap slave [y] = [y % 256 + 256 * (slave / 256)] := by
  have hbytes : (refBytes [y]).take 1 ++ (refBytes [slave, y]).drop 1
      = UInt8.ofNat (y % 256) :: (leBytes 7 (slave / 256) ++ refBytes [y]) := rfl
  have htake : (UInt8.ofNat (y % 256) :: (leBytes 7 (slave / 256) ++ refBytes [y])).take 8
      = UInt8.ofNat (y % 256) :: leBytes 7 (slave / 256) := by
    rw [List.take_succ_cons, List.take_left' (length_leBytes 7 _)]
  have hlow : (UInt8.ofNat (y % 256)).toNat = y % 256 := by simp
  have hhigh : slave / 256 < 256 ^ 7 := Nat.div_lt_of_lt_mul hslave
  rw [closeGap, List.length_singleton, hbytes, bytesRefs, htake, leVal, hlow,
    leVal_leBytes_of_lt hhigh]
  rfl

theorem closeGap_append_pair (slave p q : NodeRef) (b : List NodeRef) (hp : p < 2 ^ 64) :
    ∃ c, closeGap slave (b ++ [p, q]) = c ++ [p] ∧ c.length = b.length + 1 := by
  have hlen : (b ++ [p, q]).length = b.length + 1 + 1 := List.length_append
  -- the bytes moved end before the last two pointers
  have hmoved : (refBytes (slave :: (b ++ [p, q]))).drop (b.length + 1 + 1)
      = (refBytes (slave :: b)).drop (b.length + 1 + 1) ++ refBytes [p, q] := by
    have hcut : refBytes (slave :: (b ++ [p, q])) = refBytes (slave :: b) ++ refBytes [p, q] :=
      refBytes_append (slave :: b) [p, q]
    rw [hcut, List.drop_append_of_le_length]
    rw [length_refBytes, List.length_cons]
    omega
  have hfront : ((refBytes (b ++ [p, q])).take (b.length + 1 + 1)
      ++ (refBytes (slave :: b)).drop (b.length + 1 + 1)).length = 8 * (b.length + 1) := by
    rw [List.length_append, List.length_take, List.length_drop, length_refBytes, length_refBytes,
      hlen, List.length_cons]
    omega
  have hlast : bytesRefs 1 (refBytes [p, q]) = [p] := by
    have hword : ∀ r ∈ [p], r < 2 ^ 64 := fun r hr => by
      obtain rfl := List.mem_singleton.mp hr
      exact hp
    have hone : bytesRefs 1 (refBytes [p]) = [p] := bytesRefs_refBytes hword
    have happ := bytesRefs_append (x := refBytes [p]) (k := 1) (length_refBytes [p]) 0 (refBytes [q])
    rw [hone] at happ
    exact happ
  refine ⟨bytesRefs (b.length + 1) ((refBytes (b ++ [p, q])).take (b.length + 1 + 1)
      ++ (refBytes (slave :: b)).drop (b.length + 1 + 1)), ?_, length_bytesRefs (b.length + 1) _⟩
  rw [closeGap, hlen, hmoved, ← List.append_assoc, bytesRefs_append hfront, hlast]

theorem closeGap_eq_iff {slave : NodeRef} {t : List NodeRef} (hnodup : t.Nodup)
    (hslave : slave < 2 ^ 64) (ht : ∀ r ∈ t, r < 2 ^ 64) :
    closeGap slave t = t ↔ ClosesBehind slave t := by
  rcases List.eq_nil_or_concat' t with rfl | ⟨t', q, rfl⟩
  · exact iff_of_true rfl trivial
  rcases List.eq_nil_or_concat' t' with rfl | ⟨b, p, rfl⟩
  · have hlow : ∀ s q : ℕ, q % 256 + 256 * (s / 256) = q ↔ s / 256 = q / 256 := by
      omega
    rw [List.nil_append, closeGap_singleton slave q hslave, List.singleton_inj]
    exact hlow slave q
  · rw [List.append_assoc] at hnodup ht ⊢
    refine iff_of_false (fun h => ?_) (not_closesBehind_of_two ?_)
    · -- the last place keeps the pointer before the last
      obtain ⟨c, hc, -⟩ := closeGap_append_pair slave p q b (ht p (by simp))
      have hlast : c ++ [p] = (b ++ [p]) ++ [q] := by
        rw [← hc, List.append_assoc]
        exact h
      have hpq : p = q := List.singleton_inj.mp (List.append_inj_right' hlast rfl)
      have hpair : [p, q].Nodup := (List.nodup_append.mp hnodup).2.1
      exact (List.nodup_cons.mp hpair).1 (List.mem_singleton.mpr hpq)
    · rw [List.length_append]
      exact Nat.le_add_left 2 b.length

/-! ### One call -/

section
variable {N : Type}

/-- A call on `master`. -/
def callStep (master : NodeRef) (st : ClusterState N) : SlaveCall → Option (ClusterState N)
  | .add slave => (clusterNodeAddSlave st master slave).toOption
  | .remove slave => (clusterNodeRemoveSlave st master slave).toOption

/-- The first `numslaves` elements of the array of `master`. -/
def slavesOf (st : ClusterState N) (master : NodeRef) : List NodeRef :=
  ((st.heap master).map ClusterNode.slaves).getD []

theorem slavesOf_eq {st : ClusterState N} {master : NodeRef} {n : ClusterNode N}
    (h : st.heap master = some n) : slavesOf st master = n.slaves := by
  rw [slavesOf, h]
  rfl

theorem slavesOf_setNode (st : ClusterState N) (master : NodeRef) (n : ClusterNode N) :
    slavesOf (st.setNode master n) master = n.slaves :=
  slavesOf_eq (Function.update_self _ _ _)

/-- The master is there, its slaves are different and each is an address. -/
structure SlavesOk (master : NodeRef) (st : ClusterState N) : Prop where
  present : ∃ n, st.heap master = some n
  nodup : (slavesOf st master).Nodup
  word : ∀ r ∈ slavesOf st master, r < 2 ^ 64

theorem clusterNodeRemoveSlave_of_not_mem {master slave : NodeRef} {st : ClusterState N}
    {n : ClusterNode N} (hn : st.heap master = some n) (hmem : slave ∉ n.slaves) :
    clusterNodeRemoveSlave st master slave = .ok st := by
  rw [clusterNodeRemoveSlave, node_eq_ok hn]
  exact if_neg (by rw [List.idxOf_lt_length_iff]; exact hmem)

theorem clusterNodeRemoveSlave_of_mem {master slave : NodeRef} {st : ClusterState N}
    {n : ClusterNode N} (hn : st.heap master = some n) {a t : List NodeRef}
    (hcut : n.slaves = a ++ slave :: t) (hfirst : slave ∉ a) (hword : ∀ r ∈ a, r < 2 ^ 64) :
    clusterNodeRemoveSlave st master slave
      = .ok (st.setNode master { n with slaves := a ++ closeGap slave t }) := by
  have hidx : n.slaves.idxOf slave = a.length := by rw [hcut, idxOf_middle hfirst]
  have hlen : n.slaves.length = a.length + 1 + t.length := by
    rw [hcut, List.length_append, List.length_cons]
    omega
  have hrest : n.slaves.length - 1 - a.length = t.length := by omega
  have hread : bytesRefs (n.slaves.length - 1) (refBytes a ++ ((refBytes t).take t.length ++
      (refBytes (slave :: t)).drop t.length)) = a ++ closeGap slave t := by
    have hcount : n.slaves.length - 1 = a.length + t.length := by omega
    rw [hcount, bytesRefs_append (length_refBytes a), bytesRefs_refBytes hword]
    rfl
  rw [clusterNodeRemoveSlave, node_eq_ok hn]
  refine (if_pos (by rw [hidx]; omega)).trans ?_
  rw [hidx, hrest, hcut, memmove_slaves a slave t, ← hcut]
  dsimp only
  rw [hread]

theorem callStep_spec {master : NodeRef} {st : ClusterState N} (h : SlavesOk master st)
    {c : SlaveCall} (hc : c.slave < 2 ^ 64) :
    ∃ st', callStep master st c = some st' ∧ (∃ n, st'.heap master = some n) ∧
      (slavesOf st' master = recordCall (slavesOf st master) c ↔
        GapCloses (slavesOf st master) c) := by
  obtain ⟨n, hn⟩ := h.present
  have hnodup : n.slaves.Nodup := slavesOf_eq hn ▸ h.nodup
  have hword : ∀ r ∈ n.slaves, r < 2 ^ 64 := slavesOf_eq hn ▸ h.word
  rw [slavesOf_eq hn]
  cases c with
  | add slave =>
    by_cases hmem : slave ∈ n.slaves
    · have hstep : callStep master st (.add slave) = some st := by
        rw [callStep, clusterNodeAddSlave, node_eq_ok hn]
        exact congrArg Except.toOption (if_pos hmem)
      refine ⟨st, hstep, ⟨n, hn⟩, iff_of_true ?_ trivial⟩
      rw [recordCall, if_pos hmem, slavesOf_eq hn]
    · have hstep : callStep master st (.add slave)
          = some (st.setNode master { n with slaves := n.slaves ++ [slave] }) := by
        rw [callStep, clusterNodeAddSlave, node_eq_ok hn]
        exact congrArg Except.toOption (if_neg hmem)
      refine ⟨_, hstep, ⟨_, Function.update_self _ _ _⟩, iff_of_true ?_ trivial⟩
      rw [recordCall, if_neg hmem, slavesOf_setNode]
  | remove slave =>
    by_cases hmem : slave ∈ n.slaves
    · obtain ⟨a, t, hcut⟩ := List.append_of_mem hmem
      rw [hcut] at hnodup hword ⊢
      obtain ⟨-, htail, hdisj⟩ := List.nodup_append.mp hnodup
      have hfirst : slave ∉ a := fun hmem => hdisj slave hmem slave List.mem_cons_self rfl
      have hstep : callStep master st (.remove slave)
          = some (st.setNode master { n with slaves := a ++ closeGap slave t }) := by
        rw [callStep, clusterNodeRemoveSlave_of_mem hn hcut hfirst
          fun r hr => hword r (List.mem_append_left _ hr)]
        rfl
      refine ⟨_, hstep, ⟨_, Function.update_self _ _ _⟩, ?_⟩
      rw [slavesOf_setNode, recordCall, GapCloses, behind_middle hfirst,
        List.erase_append_right _ hfirst, List.erase_cons_head, List.append_cancel_left_eq]
      exact closeGap_eq_iff (List.nodup_cons.mp htail).2 hc fun r hr =>
        hword r (List.mem_append_right _ (List.mem_cons_of_mem _ hr))
    · have hstep : callStep master st (.remove slave) = some st := by
        rw [callStep, clusterNodeRemoveSlave_of_not_mem hn hmem]
        rfl
      refine ⟨st, hstep, ⟨n, hn⟩, iff_of_true ?_ ?_⟩
      · rw [recordCall, List.erase_of_not_mem hmem, slavesOf_eq hn]
      · rw [GapCloses, behind_of_not_mem hmem]
        trivial

theorem nodup_recordCall {slaves : List NodeRef} (h : slaves.Nodup) (c : SlaveCall) :
    (recordCall slaves c).Nodup := by
  cases c with
  | add slave =>
    rw [recordCall]
    split_ifs with hmem
    · exact h
    · exact List.nodup_append.mpr ⟨h, List.nodup_singleton slave, fun r hr s hs heq =>
        hmem (List.mem_singleton.mp hs ▸ heq ▸ hr)⟩
  | remove slave => exact h.erase slave

theorem mem_recordCall {slaves : List NodeRef} {c : SlaveCall} {r : NodeRef}
    (h : r ∈ recordCall slaves c) : r ∈ slaves ∨ r = c.slave := by
  cases c with
  | add slave =>
    rw [recordCall] at h
    split_ifs at h with hmem
    · exact .inl h
    · exact (List.mem_append.mp h).imp id List.mem_singleton.mp
  | remove slave => exact .inl (List.mem_of_mem_erase h)

/-! ### Runs of calls -/

/-- From a master without slaves, the calls keep the list as they are meant to, each slave
once and in the order of the calls, exactly when no call finds a gap it cannot close. -/
theorem run_slaves_iff {master : NodeRef} {st : ClusterState N} {n : ClusterNode N}
    (hn : st.heap master = some n) (hempty : n.slaves = []) {calls : List SlaveCall}
    (hcalls : ∀ c ∈ calls, c.slave < 2 ^ 64) :
    (∀ p, p <+: calls → ∃ st', Runs.run (callStep master) st p = some st' ∧
        slavesOf st' master = p.foldl recordCall []) ↔
      Runs.AllSteps (callStep master) (fun st c => GapCloses (slavesOf st master) c) st calls := by
  have hstart : slavesOf st master = [] := (slavesOf_eq hn).trans hempty
  have hok : SlavesOk master st := by
    refine ⟨⟨n, hn⟩, ?_, ?_⟩
    · rw [hstart]
      exact List.nodup_nil
    · rw [hstart]
      exact fun r hr => absurd hr List.not_mem_nil
  have hstep : ∀ (st : ClusterState N) c, SlavesOk master st → c.slave < 2 ^ 64 →
      ((∃ st', callStep master st c = some st' ∧
          slavesOf st' master = recordCall (slavesOf st master) c) ↔
        GapCloses (slavesOf st master) c) := by
    intro st c h hc
    obtain ⟨st', hst', -, hiff⟩ := callStep_spec h hc
    constructor
    · rintro ⟨st'', hst'', heq⟩
      obtain rfl := Option.some_inj.mp (hst'.symm.trans hst'')
      exact hiff.mp heq
    · exact fun hgap => ⟨st', hst', hiff.mpr hgap⟩
  have hpres : ∀ (st : ClusterState N) c st', SlavesOk master st → c.slave < 2 ^ 64 →
      callStep master st c = some st' →
      slavesOf st' master = recordCall (slavesOf st master) c → SlavesOk master st' := by
    intro st c st' h hc hst' heq
    obtain ⟨st'', hst'', hpresent, -⟩ := callStep_spec h hc
    obtain rfl := Option.some_inj.mp (hst'.symm.trans hst'')
    refine ⟨hpresent, ?_, fun r hr => ?_⟩
    · rw [heq]
      exact nodup_recordCall h.nodup c
    · rw [heq] at hr
      obtain hr | rfl := mem_recordCall hr
      · exact h.word r hr
      · exact hc
  have htracks := Runs.tracks_iff_allSteps hstep hpres hok hcalls
  rwa [hstart] at htracks

end

/-- Slaves are removed from the end of the list. -/
theorem run_slaves_removeLast :
    ∃ st', Runs.run (callStep 0) (clusterInit 0)
        [.add 0x1000, .add 0x2000, .remove 0x2000, .remove 0x3000] = some st' ∧
      slavesOf st' 0 = [0x1000] := by
  have hstart : (clusterInit 0).heap 0 = some _ := rfl
  exact (run_slaves_iff hstart rfl (by decide)).mpr (by decide) _ (List.prefix_refl _)

/-- The first of three slaves is removed: the last one is lost and the second one is there
twice. -/
theorem run_slaves_removeFirst :
    (Runs.run (callStep 0) (clusterInit 0)
        [.add 0x1000, .add 0x2000, .add 0x3000, .remove 0x1000]).map (slavesOf · 0)
      = some [0x2000, 0x2000] ∧
    [SlaveCall.add 0x1000, .add 0x2000, .add 0x3000, .remove 0x1000].foldl recordCall []
      = [0x2000, 0x3000] := by
  decide

end ClusterState

/-
Transactions over whole runs.

* `Good` — the invariant: the keyspace is sound, the indexes of watched keys agree, and the
  clients that watch a ready key are dirty;
* `Good.step` — every step keeps it, and no assertion fails;
* `Tells` — a step changes no watched key without a signal;
* `Good.dirty` — then the clients that watch a key that a command changes are dirty;
* `Good.stays` — and stay so, until they stop to watch;
* `run_watch` — a transaction executes nothing if a key that its client watches was changed.
-/
import RedisModel.WatchIndex
import RedisModel.Runs

open Except ByteBuffer RedisServer

namespace MultiServer

section
variable {C V : Type} [DecidableEq C] {s s' : MultiServer C V} {c : C} {now : ℤ}

/-- What holds between any two steps. -/
structure Good (s : MultiServer C V) : Prop where
  sound : Sound s.server
  twoWay : TwoWay s.server
  exec : ∀ r, s.running = some r → r.exec = true → (s.server.client r.client).watchedKeys = []
  script : ∀ r, s.running = some r → r.exec = false → .unwatch ∉ r.commands
  zero : ∀ p ∈ s.ready, s.server.clusterEnabled = true → p.1 = 0
  ready : ∀ p ∈ s.ready, ∀ c ∈ (s.server.db p.1).watchedKeys p.2,
    (s.server.client c).dirtyCas = true

/-! ### Parts of steps -/

theorem unwatched_sound (h : Unwatched s.server s'.server c) (hs : Sound s.server) :
    Sound s'.server := by
  refine hs.sameData h.data fun hcluster c' => ?_
  by_cases hc' : c' = c
  · rw [hc', h.db]
    exact hs.zero hcluster c
  · rw [h.other c' hc']
    exact hs.zero hcluster c'

omit [DecidableEq C] in
theorem unwatched_dirty {t t' : RedisServer C V} (h : Unwatched t t' c) (ht : TwoWay t) {d : ℕ}
    {k : Bytes} (hdirty : ∀ c ∈ (t.db d).watchedKeys k, (t.client c).dirtyCas = true) :
    ∀ c ∈ (t'.db d).watchedKeys k, (t'.client c).dirtyCas = true := by
  intro c' hc'
  have hne : c' ≠ c := by
    rintro rfl
    rw [h.twoWay.mem, h.none] at hc'
    exact absurd hc' List.not_mem_nil
  rw [h.other c' hne]
  refine hdirty c' ((ht.mem c' d k).mpr ?_)
  rw [← h.other c' hne]
  exact (h.twoWay.mem c' d k).mp hc'

theorem twoWay_setDirtyCas {t : RedisServer C V} (h : TwoWay t) (c : C) (b : Bool) :
    TwoWay (t.setDirtyCas c b) := by
  have hkeys : ∀ c', ((t.setDirtyCas c b).client c').watchedKeys = (t.client c').watchedKeys := by
    intro c'
    show (Function.update t.client c _ c').watchedKeys = _
    by_cases hc' : c' = c
    · subst hc'
      rw [Function.update_self]
    · rw [Function.update_of_ne hc']
  refine ⟨fun c' d k => ?_, h.clients_nodup, fun c' => ?_, fun c' hc' => ?_⟩
  · rw [hkeys]
    exact h.mem c' d k
  · rw [hkeys]
    exact h.keys_nodup c'
  · rw [hkeys] at hc'
    exact h.connected c' hc'

theorem unwatchCommand_spec {t : RedisServer C V} (h : TwoWay t) (c : C) :
    (t.unwatchCommand c).Ensures (fun _ => False) fun r => Unwatched t r c := by
  refine (unwatchAllKeys_spec h c).bind fun r hr => ?_
  refine ⟨⟨hr.data.dict, hr.data.expires, hr.data.slotsToKeys, hr.data.inserted, hr.data.dbnum,
    hr.data.clusterEnabled⟩, twoWay_setDirtyCas hr.twoWay c false, ?_, fun c' hc' => ?_, ?_,
    hr.clients⟩
  · show (Function.update r.client c _ c).watchedKeys = []
    rw [Function.update_self]
    exact hr.none
  · exact (Function.update_of_ne hc' _ _).trans (hr.other c' hc')
  · show (Function.update r.client c _ c).db = _
    rw [Function.update_self]
    exact hr.db

theorem discardTransaction_spec (h : TwoWay s.server) (c : C) :
    (s.discardTransaction c).Ensures (fun _ => False) fun r => Unwatched s.server r.server c ∧
      r.running = s.running ∧ r.ready = s.ready := by
  refine (unwatchAllKeys_spec (twoWay_setDirtyCas h c false) c).bind fun r hr => ?_
  refine ⟨⟨⟨hr.data.dict, hr.data.expires, hr.data.slotsToKeys, hr.data.inserted, hr.data.dbnum,
    hr.data.clusterEnabled⟩, hr.twoWay, hr.none, fun c' hc' => ?_, ?_, hr.clients⟩, rfl, rfl⟩
  · exact (hr.other c' hc').trans (Function.update_of_ne hc' _ _)
  · refine hr.db.trans ?_
    show (Function.update s.server.client c _ c).db = _
    rw [Function.update_self]

theorem Good.cleaned (h : Good s) (hclean : Unwatched s.server s'.server c)
    (hexec : ∀ r, s'.running = some r → r.exec = true → r.client = c ∨ s.running = some r)
    (hscript : ∀ r, s'.running = some r → r.exec = false → .unwatch ∉ r.commands)
    (hready : s'.ready ⊆ s.ready) : Good s' := by
  refine ⟨unwatched_sound hclean h.sound, hclean.twoWay, fun r hr hx => ?_, hscript, fun p hp hcluster => ?_,
    fun p hp => unwatched_dirty hclean h.twoWay (h.ready p (hready hp))⟩
  · rcases hexec r hr hx with rfl | hold
    · exact hclean.none
    · by_cases hc : r.client = c
      · rw [hc]
        exact hclean.none
      · rw [hclean.other _ hc]
        exact h.exec r hold hx
  · exact h.zero p (hready hp) (hclean.data.clusterEnabled ▸ hcluster)

/-! ### Keys that are ready -/

omit [DecidableEq C] in
theorem absentAt_eq {t : RedisServer C V} (h : Indexed t) {d : ℕ}
    (hd : t.clusterEnabled = true → d = 0) (key : Bytes) (now : ℤ) :
    t.absentAt d key now = (visible t d key now).isNone := by
  have hok := (lookupKeyWrite_spec h hd key now)
  have honly := lookupKeyWrite_only t d key now
  unfold absentAt
  cases hr : lookupKeyWrite t d key now with
  | error e => exact (hok.of_eq_error hr).elim
  | ok r =>
    have hvisible := (honly.of_eq_ok hr).2.1
    dsimp only
    rw [hvisible]

omit [DecidableEq C] in
theorem dirty_of_created {t t' : RedisServer C V} {pend : List (ℕ × Bytes)} (h : Indexed t)
    (h' : Indexed t') {d : ℕ} (hd : t.clusterEnabled = true → d = 0)
    (hd' : t'.clusterEnabled = true → d = 0) (hmarks : Marks t t' now pend) {keys : List Bytes}
    {p : ℕ × Bytes} (hp : p ∈ t.createdKeys t' d now keys) (hpend : p ∉ pend) :
    p.1 = d ∧ ∀ c ∈ (t'.db p.1).watchedKeys p.2, (t'.client c).dirtyCas = true := by
  unfold createdKeys at hp
  obtain ⟨key, hkey, rfl⟩ := List.mem_map.mp hp
  have hfilter := (List.mem_filter.mp hkey).2
  rw [Bool.and_eq_true, Bool.not_eq_true', absentAt_eq h hd, absentAt_eq h' hd'] at hfilter
  obtain ⟨hbefore, hafter⟩ := hfilter
  refine ⟨rfl, ?_⟩
  rcases hmarks.marked d key with hmem | hsame | hlapsed | hall
  · exact absurd hmem hpend
  · rw [visible_eq_of_content hsame hmarks.masterhost hmarks.loading, hbefore] at hafter
    exact absurd hafter (by simp)
  · have hnone : visible t' d key now = none := by
      unfold visible
      rw [Option.map_eq_none_iff.mp hlapsed.1, ite_self]
    rw [hnone] at hafter
    exact absurd hafter (by simp)
  · exact hall

omit [DecidableEq C] in
theorem marks_stays {t t' : RedisServer C V} {pend : List (ℕ × Bytes)}
    (hmarks : Marks t t' now pend) {d : ℕ} {k : Bytes}
    (hdirty : ∀ c ∈ (t.db d).watchedKeys k, (t.client c).dirtyCas = true) :
    ∀ c ∈ (t'.db d).watchedKeys k, (t'.client c).dirtyCas = true := by
  intro c hc
  rw [hmarks.watched] at hc
  exact hmarks.dirty c (hdirty c hc)

/-! ### Every step -/

omit [DecidableEq C] in
theorem dirty_of_ready (h : Sound s.server) {t : RedisServer C V} (ht : Sound t) {cmd : Command V}
    {pend : List (ℕ × Bytes)} (hmarks : Marks s.server t now pend)
    (hpend : ∀ q ∈ pend, Unsignalled s.server c now cmd q.1 q.2) {p : ℕ × Bytes}
    (hp : p ∈ s.server.readyKeys t (s.server.client c).db now cmd) :
    p.1 = (s.server.client c).db ∧
      ∀ c ∈ (t.db p.1).watchedKeys p.2, (t.client c).dirtyCas = true := by
  have hd : s.server.clusterEnabled = true → (s.server.client c).db = 0 :=
    fun hcluster => h.zero hcluster c
  have hd' : t.clusterEnabled = true → (s.server.client c).db = 0 :=
    fun hcluster => hd (hmarks.clusterEnabled ▸ hcluster)
  cases cmd with
  | update sources key f =>
    exact dirty_of_created h.indexed ht.indexed hd hd' hmarks hp fun hq => hpend p hq
  | rpoplpush src dst pop push rotate =>
    exact dirty_of_created h.indexed ht.indexed hd hd' hmarks hp fun hq => hpend p hq
  | _ => exact absurd hp List.not_mem_nil

theorem Good.nextCommand (h : Good s) {r : Running C V} (hr : s.running = some r) (now : ℤ) :
    (s.nextCommand r now).Ensures (fun _ => False) Good := by
  obtain ⟨client, exec, commands⟩ := r
  have hidle : Good { s with running := none } :=
    ⟨h.sound, h.twoWay, fun _ hx => absurd hx (by simp), fun _ hx => absurd hx (by simp), h.zero,
      h.ready⟩
  cases commands with
  | nil =>
    show (if exec = true then _ else _ : Except Failure (MultiServer C V)).Ensures _ _
    split
    · refine (discardTransaction_spec (s := { s with running := none }) h.twoWay client).imp
        fun s' hs' => ?_
      obtain ⟨hclean, hrunning, hready⟩ := hs'
      refine hidle.cleaned hclean (fun r hx => ?_) (fun r hx => ?_) (hready ▸ List.Subset.refl _)
      · rw [hrunning] at hx
        exact absurd hx (by simp)
      · rw [hrunning] at hx
        exact absurd hx (by simp)
    · exact hidle
  | cons q rest =>
    have hscript : exec = false → .unwatch ∉ rest :=
      fun hx hmem => h.script _ hr hx (List.mem_cons_of_mem _ hmem)
    cases q with
    | command cmd =>
      refine ((h.sound.call client now cmd).and_of_true
        (call_marks h.twoWay.listed client now cmd)).bind fun t ht => ?_
      obtain ⟨hsound, pend, hmarks, hpend⟩ := ht
      refine ⟨hsound, h.twoWay.marks hmarks, fun r' hr' hx => ?_, fun r' hr' hx => ?_,
        fun p hp hcluster => ?_, fun p hp => ?_⟩
      · obtain rfl := Option.some_inj.mp hr'
        rw [show (t.client client).watchedKeys = _ from hmarks.watchedKeys client]
        exact h.exec _ hr hx
      · obtain rfl := Option.some_inj.mp hr'
        exact hscript hx
      · have hcluster' : s.server.clusterEnabled = true := hmarks.clusterEnabled ▸ hcluster
        rcases List.mem_append.mp hp with hp | hp
        · exact h.zero p hp hcluster'
        · rw [(dirty_of_ready h.sound hsound hmarks hpend hp).1]
          exact h.sound.zero hcluster' client
      · rcases List.mem_append.mp hp with hp | hp
        · exact marks_stays hmarks (h.ready p hp)
        · exact (dirty_of_ready h.sound hsound hmarks hpend hp).2
    | unwatch =>
      have hexec : exec = true := by
        by_contra hx
        exact h.script _ hr (by simpa using hx) List.mem_cons_self
      refine (unwatchCommand_spec h.twoWay client).bind fun t ht => ?_
      refine h.cleaned (c := client) ht (fun r' hr' _ => ?_) (fun r' hr' hx => ?_)
        (List.Subset.refl _)
      · obtain rfl := Option.some_inj.mp hr'
        exact Or.inl rfl
      · obtain rfl := Option.some_inj.mp hr'
        rw [hexec] at hx
        exact absurd hx (by simp)

omit [DecidableEq C] in
theorem Good.of_marks (h : Good s) {t : RedisServer C V} (hsound : Sound t)
    {pend : List (ℕ × Bytes)} (hmarks : Marks s.server t now pend) : Good { s with server := t } := by
  refine ⟨hsound, h.twoWay.marks hmarks, fun r hr hx => ?_, h.script, fun p hp hcluster => ?_,
    fun p hp => marks_stays hmarks (h.ready p hp)⟩
  · rw [hmarks.watchedKeys]
    exact h.exec r hr hx
  · exact h.zero p hp (hmarks.clusterEnabled ▸ hcluster)

theorem Good.serve (h : Good s) {d : ℕ} {key : Bytes} (hready : (d, key) ∈ s.ready)
    (receivers : List (Receiver V)) (isList isEmpty : V → Bool) (now : ℤ) :
    (s.serve d key receivers isList isEmpty now).Ensures (fun _ => False) Good := by
  have hd : s.server.clusterEnabled = true → d = 0 := fun hcluster => h.zero _ hready hcluster
  have hkept := (h.sound.kept hd).serveKey key receivers isList isEmpty now
  refine (hkept.and_of_true (serveKey_marks s.server d key receivers isList isEmpty now)).bind
    fun t ht => ?_
  obtain ⟨hkept, hmarks⟩ := ht
  have hsound := hkept.sound h.sound
  have hgood := h.of_marks hsound hmarks
  have hall : ∀ p ∈ s.server.createdKeys t d now (receivers.filterMap Receiver.dstkey),
      p.1 = d ∧ ∀ c ∈ (t.db p.1).watchedKeys p.2, (t.client c).dirtyCas = true := by
    intro p hp
    by_cases hkey : p = (d, key)
    · subst hkey
      exact ⟨rfl, marks_stays hmarks (h.ready _ hready)⟩
    · exact dirty_of_created h.sound.indexed hsound.indexed hd
        (fun hcluster => hd (hmarks.clusterEnabled ▸ hcluster)) hmarks hp (by simpa using hkey)
  refine ⟨hsound, hgood.twoWay, hgood.exec, hgood.script, fun p hp hcluster => ?_, fun p hp => ?_⟩
  · rcases List.mem_append.mp hp with hp | hp
    · exact hgood.zero p hp hcluster
    · rw [(hall p hp).1]
      exact hd (hmarks.clusterEnabled ▸ hcluster)
  · rcases List.mem_append.mp hp with hp | hp
    · exact hgood.ready p hp
    · exact (hall p hp).2

omit [DecidableEq C] in
theorem tryExpire_marks (t : RedisServer C V) (d : ℕ) (key : Bytes) (now : ℤ) :
    (t.activeExpireCycleTryExpire d key now).Ensures (fun _ => True)
      fun r => Marks t r now [] := by
  unfold activeExpireCycleTryExpire
  split
  · exact Marks.refl t now
  · rename_i when hwhen
    split
    · rename_i hpast
      refine (dbDelete_only t d key).bind fun r hr => ?_
      have hpending := (Marks.refl t now).pending hr.1
      refine { hpending with marked := fun d' k => ?_ }
      by_cases hk : (d', k) = (d, key)
      · obtain ⟨rfl, rfl⟩ := Prod.mk.inj hk
        have hgone : content r.1 d' k = none := by
          unfold content
          rw [hr.2]
          rfl
        cases hdict : (t.db d').dict k with
        | none =>
          refine Or.inr (Or.inl ?_)
          rw [hgone, content, hdict]
          rfl
        | some v =>
          refine Or.inr (Or.inr (Or.inl ⟨hgone, v, when, ?_, hpast⟩))
          rw [content, hdict, hwhen]
          rfl
      · rcases hpending.marked d' k with hmem | hrest
        · exact absurd (List.mem_singleton.mp hmem) hk
        · exact Or.inr hrest
    · exact Marks.refl t now

omit [DecidableEq C] in
theorem freeMemoryIfNeeded_marks (t : RedisServer C V) (d : ℕ) (key : Bytes) (now : ℤ) :
    (t.freeMemoryIfNeeded d key).Ensures (fun _ => True) fun r => ∃ pend, Marks t r now pend ∧
      ∀ q ∈ pend, q = (d, key) ∧ ((t.db d).dict key).isSome := by
  unfold RedisServer.freeMemoryIfNeeded
  split
  · rename_i hkey
    refine (dbDelete_only t d key).bind fun r hr => ?_
    exact ⟨[(d, key)], (Marks.refl t now).pending hr.1, fun q hq => ⟨by simpa using hq, hkey⟩⟩
  · exact ⟨[], Marks.refl t now, by simp⟩

omit [DecidableEq C] in
theorem delKeys_marks {t₀ t : RedisServer C V} {pend : List (ℕ × Bytes)}
    (h : Marks t₀ t now pend) (hashslot fuel : ℕ) (n : Option Ref) (j : BitVec 32) :
    (delKeys hashslot fuel t n j).Ensures (fun _ => True) fun r => ∃ pend,
      Marks t₀ r.1 now pend := by
  induction fuel generalizing t pend n j with
  | zero => trivial
  | succ fuel ih =>
    cases n with
    | none => exact ⟨pend, h⟩
    | some x =>
      refine Ensures.bind (Q := fun _ => True) ?_ fun n _ => ?_
      · cases t.slotsToKeys.node x <;> trivial
      · split
        · refine Ensures.bind (Q := fun _ => True) ?_ fun l _ => ?_
          · cases t.slotsToKeys.lev 0 x <;> trivial
          · exact (h.delete 0 n.obj).bind fun r hr => ih hr l.forward (j + 1)
        · exact ⟨pend, h⟩

omit [DecidableEq C] in
theorem delKeysInSlot_marks (t : RedisServer C V) (slot : ℕ) (now : ℤ) :
    (t.delKeysInSlot slot).Ensures (fun _ => True) fun r => ∃ pend, Marks t r.1 now pend := by
  refine Ensures.bind (Q := fun _ => True) ?_ fun n _ => ?_
  · cases Zskiplist.zslFirstInRange t.slotsToKeys (slotRange slot) <;> trivial
  · exact delKeys_marks (Marks.refl t now) slot _ n 0

theorem Good.setMstate (h : Good s) (c : C) (m : MultiState V) : Good (s.setMstate c m) :=
  ⟨h.sound, h.twoWay, h.exec, h.script, h.zero, h.ready⟩

omit [DecidableEq C] in
theorem Good.clearReady (h : Good s) : Good { s with ready := [] } :=
  ⟨h.sound, h.twoWay, h.exec, h.script, fun _ hp => absurd hp List.not_mem_nil,
    fun _ hp => absurd hp List.not_mem_nil⟩

theorem Good.createClient (h : Good s) (hc : c ∉ s.server.clients) : Good (s.createClient c) := by
  have hnone : (s.server.client c).watchedKeys = [] := by
    by_contra hne
    exact hc (h.twoWay.connected c hne)
  have hkeys : ∀ c', ((s.createClient c).server.client c').watchedKeys
      = (s.server.client c').watchedKeys := by
    intro c'
    show (Function.update s.server.client c _ c').watchedKeys = _
    by_cases hc' : c' = c
    · subst hc'
      rw [Function.update_self, hnone]
    · rw [Function.update_of_ne hc']
  refine ⟨h.sound.sameData ⟨fun _ => rfl, fun _ => rfl, rfl, rfl, rfl, rfl⟩ fun hcluster c' => ?_,
    ⟨fun c' d k => ?_, h.twoWay.clients_nodup, fun c' => ?_, fun c' hc' => ?_⟩,
    fun r hr hx => ?_, h.script, h.zero, fun p hp c' hc' => ?_⟩
  · show (Function.update s.server.client c _ c').db = 0
    by_cases hc' : c' = c
    · subst hc'
      rw [Function.update_self]
    · rw [Function.update_of_ne hc']
      exact h.sound.zero hcluster c'
  · rw [hkeys]
    exact h.twoWay.mem c' d k
  · rw [hkeys]
    exact h.twoWay.keys_nodup c'
  · rw [hkeys] at hc'
    exact List.mem_append_left _ (h.twoWay.connected c' hc')
  · rw [hkeys]
    exact h.exec r hr hx
  · have hmem : c' ∈ (s.server.db p.1).watchedKeys p.2 := hc'
    have hne : c' ≠ c := by
      rintro rfl
      rw [h.twoWay.mem, hnone] at hmem
      exact absurd hmem List.not_mem_nil
    show (Function.update s.server.client c _ c').dirtyCas = true
    rw [Function.update_of_ne hne]
    exact h.ready p hp c' hmem

theorem Good.freeClient (h : Good s) (c : C) :
    (s.freeClient c).Ensures (fun _ => False) Good := by
  refine (unwatchAllKeys_spec h.twoWay c).bind fun t ht => ?_
  have hgood : Good { s with server := t } :=
    h.cleaned ht (fun r hr _ => Or.inr hr) (fun r hr hx => h.script r hr hx) (List.Subset.refl _)
  refine ⟨hgood.sound.sameData ⟨fun _ => rfl, fun _ => rfl, rfl, rfl, rfl, rfl⟩
    fun hcluster c' => hgood.sound.zero hcluster c',
    ⟨hgood.twoWay.mem, hgood.twoWay.clients_nodup, hgood.twoWay.keys_nodup, fun c' hc' => ?_⟩,
    hgood.exec, hgood.script, hgood.zero, hgood.ready⟩
  have hne : c' ≠ c := by
    rintro rfl
    exact hc' ht.none
  exact (List.mem_erase_of_ne hne).mpr (hgood.twoWay.connected c' hc')

theorem Good.watchCommand (h : Good s) (hrunning : s.running = none) (hready : s.ready = [])
    (hc : c ∈ s.server.clients) (keys : List Bytes) : Good (s.watchCommand c keys) := by
  unfold MultiServer.watchCommand
  split
  · exact h
  · obtain ⟨hwatch, -⟩ := watchForKeys_spec h.twoWay hc keys
    refine ⟨h.sound.sameData hwatch.data fun hcluster c' => ?_, hwatch.twoWay, fun r hr => ?_,
      fun r hr => ?_, fun p hp => ?_, fun p hp => ?_⟩
    · rw [hwatch.db]
      exact h.sound.zero hcluster c'
    · rw [show s.running = some r from hr] at hrunning
      exact absurd hrunning (by simp)
    · rw [show s.running = some r from hr] at hrunning
      exact absurd hrunning (by simp)
    · rw [show p ∈ s.ready ↔ p ∈ [] by rw [hready]] at hp
      exact absurd hp List.not_mem_nil
    · rw [show p ∈ s.ready ↔ p ∈ [] by rw [hready]] at hp
      exact absurd hp List.not_mem_nil

theorem Good.execCommand (h : Good s) (hrunning : s.running = none) (c : C) :
    (s.execCommand c).Ensures (fun _ => False) fun r => Good r.1 := by
  have hidle : ∀ {s' : MultiServer C V} {r : Running C V}, s'.running = s.running →
      s'.running = some r → False := by
    intro s' r heq hr
    rw [heq, hrunning] at hr
    exact absurd hr (by simp)
  unfold MultiServer.execCommand
  split
  · exact h
  · split
    · refine (discardTransaction_spec h.twoWay c).bind fun s' hs' => ?_
      exact h.cleaned hs'.1 (fun r hr => (hidle hs'.2.1 hr).elim)
        (fun r hr => (hidle hs'.2.1 hr).elim) (hs'.2.2 ▸ List.Subset.refl _)
    · refine (unwatchAllKeys_spec h.twoWay c).bind fun t ht => ?_
      refine h.cleaned (c := c) ht (fun r hr _ => ?_) (fun r hr hx => ?_) (List.Subset.refl _)
      · obtain rfl := Option.some_inj.mp hr
        exact Or.inl rfl
      · obtain rfl := Option.some_inj.mp hr
        exact absurd hx (by simp)

theorem Good.topStep (h : Good s) (hrunning : s.running = none) (e : Event C V) :
    (s.topStep e).Ensures (fun _ => False) Good := by
  cases e with
  | createClient c =>
    show (if c ∈ s.server.clients then _ else _ : Except Failure (MultiServer C V)).Ensures _ _
    split
    · exact h
    · rename_i hc
      exact h.createClient hc
  | freeClient c =>
    show (if c ∈ s.server.clients then _ else _ : Except Failure (MultiServer C V)).Ensures _ _
    split
    · exact h.freeClient c
    · exact h
  | command c cmds =>
    show (if c ∉ s.server.clients then _ else _ : Except Failure (MultiServer C V)).Ensures _ _
    split
    · exact h
    · split
      · exact h.setMstate c _
      · refine ⟨h.sound, h.twoWay, fun r hr hx => ?_, fun r hr hx => ?_, h.clearReady.zero,
          h.clearReady.ready⟩
        · obtain rfl := Option.some_inj.mp hr
          exact absurd hx (by simp)
        · obtain rfl := Option.some_inj.mp hr
          show QueuedCommand.unwatch ∉ cmds.map .command
          simp
  | refuse c =>
    show Good (s.flagTransaction c)
    unfold flagTransaction
    split
    · exact h.setMstate c _
    · exact h
  | multi c =>
    show (if c ∈ s.server.clients then _ else _ : Except Failure (MultiServer C V)).Ensures _ _
    split
    · show Good (s.multiCommand c)
      unfold multiCommand
      split
      · exact h
      · exact h.setMstate c _
    · exact h
  | exec c =>
    show (if c ∈ s.server.clients then _ else _ : Except Failure (MultiServer C V)).Ensures _ _
    split
    · exact (h.clearReady.execCommand hrunning c).bind fun _ hr => hr
    · exact h
  | discard c =>
    show (if c ∈ s.server.clients then _ else _ : Except Failure (MultiServer C V)).Ensures _ _
    split
    · unfold discardCommand
      split
      · refine (discardTransaction_spec h.twoWay c).imp fun s' hs' => ?_
        refine h.cleaned hs'.1 (fun r hr _ => Or.inr (hs'.2.1 ▸ hr)) (fun r hr hx => ?_)
          (hs'.2.2 ▸ List.Subset.refl _)
        exact h.script r (hs'.2.1 ▸ hr) hx
      · exact h
    · exact h
  | watch c keys =>
    show (if c ∈ s.server.clients then _ else _ : Except Failure (MultiServer C V)).Ensures _ _
    split
    · rename_i hc
      exact h.clearReady.watchCommand hrunning rfl hc keys
    · exact h
  | unwatch c =>
    show (if c ∉ s.server.clients then _ else _ : Except Failure (MultiServer C V)).Ensures _ _
    split
    · exact h
    · split
      · exact h.setMstate c _
      · exact (unwatchCommand_spec h.twoWay c).bind fun t ht =>
          h.cleaned ht (fun r hr _ => Or.inr hr) (fun r hr hx => h.script r hr hx)
            (List.Subset.refl _)
  | next now => exact h
  | serve d key receivers isList isEmpty now =>
    show (if (d, key) ∈ s.ready then _ else _ : Except Failure (MultiServer C V)).Ensures _ _
    split
    · rename_i hready
      exact h.serve hready receivers isList isEmpty now
    · exact h
  | tryExpire d key now =>
    exact ((h.sound.step (.tryExpire d now key)).and_of_true
      (tryExpire_marks s.server d key now)).bind fun t ht => h.of_marks ht.1 ht.2
  | freeMemoryIfNeeded d key =>
    refine ((h.sound.step (.evict d key)).and_of_true
      (freeMemoryIfNeeded_marks s.server d key 0)).bind fun t ht => ?_
    obtain ⟨hsound, pend, hmarks, -⟩ := ht
    exact h.of_marks hsound hmarks
  | delKeysInSlot slot =>
    show (if s.server.clusterEnabled = true then _ else _ :
      Except Failure (MultiServer C V)).Ensures _ _
    split
    · rename_i hcluster
      refine ((h.sound.delKeysInSlot hcluster slot).and_of_true
        (delKeysInSlot_marks s.server slot 0)).bind fun t ht => ?_
      obtain ⟨hsound, pend, hmarks⟩ := ht
      exact h.of_marks hsound hmarks
    · exact h
  | emptyDb =>
    exact h.of_marks (h.sound.step .emptyDb)
      (flush_marks (w := fun d => decide (d < s.server.dbnum)) 0 h.twoWay.listed
        fun d _ => Or.inl rfl)
  | config masterhost loading =>
    have hsound := h.sound.step (.config masterhost loading)
    exact ⟨hsound, ⟨h.twoWay.mem, h.twoWay.clients_nodup, h.twoWay.keys_nodup,
      h.twoWay.connected⟩, h.exec, h.script, h.zero, h.ready⟩

/-- Every step keeps the invariant, and no assertion fails. -/
theorem Good.step (h : Good s) (e : Event C V) : (s.step e).Ensures (fun _ => False) Good := by
  unfold MultiServer.step
  split
  · rename_i hrunning
    exact h.topStep hrunning e
  · rename_i r hr
    split
    · exact h.nextCommand hr _
    · split
      · exact h.freeClient _
      · exact h
    · exact h

omit [DecidableEq C] in
theorem good_initServer (dbs : ℕ) (clusterEnabled : Bool) (levels : ℕ → Fin 32) :
    Good (initServer dbs clusterEnabled levels : MultiServer C V) := by
  refine ⟨sound_initServer dbs clusterEnabled [] levels, ⟨fun c d k => ?_, fun d k => List.nodup_nil,
    fun c => List.nodup_nil, fun c hc => absurd rfl hc⟩, fun r hr => absurd hr (by simp [initServer]),
    fun r hr => absurd hr (by simp [initServer]), fun p hp => absurd hp List.not_mem_nil,
    fun p hp => absurd hp List.not_mem_nil⟩
  exact ⟨fun h => absurd h List.not_mem_nil, fun h => absurd h List.not_mem_nil⟩

/-! ### Changes of watched keys -/

/-- The step changes no watched key without a signal. -/
def Tells (s : MultiServer C V) (e : Event C V) : Prop :=
  match s.running, e with
  | some r, .next now => ∀ cmd rest, r.commands = .command cmd :: rest → ∀ d k,
      Unsignalled s.server r.client now cmd d k → (s.server.db d).watchedKeys k = []
  | none, .freeMemoryIfNeeded d k =>
    ((s.server.db d).dict k).isSome → (s.server.db d).watchedKeys k = []
  | _, _ => True

/-- A command, or the eviction before one, changes a key, and not only because its time has
passed. -/
def Modifies (s s' : MultiServer C V) (e : Event C V) (d : ℕ) (k : Bytes) : Prop :=
  content s'.server d k ≠ content s.server d k ∧
  match e with
  | .next now => ¬ Lapsed s.server s'.server d k now
  | .serve _ _ _ _ _ now => ¬ Lapsed s.server s'.server d k now
  | .tryExpire _ _ _ => False
  | .delKeysInSlot _ => False
  | _ => True

omit [DecidableEq C] in
theorem dirty_of_marks {t t' : RedisServer C V} {pend : List (ℕ × Bytes)}
    (hmarks : Marks t t' now pend) {d : ℕ} {k : Bytes} (hcontent : content t' d k ≠ content t d k)
    (hlapsed : ¬ Lapsed t t' d k now) (hpend : (d, k) ∈ pend → (t.db d).watchedKeys k = []) :
    ∀ c ∈ (t.db d).watchedKeys k, (t'.client c).dirtyCas = true := by
  intro c hc
  rcases hmarks.marked d k with hmem | hsame | hgone | hall
  · rw [hpend hmem] at hc
    exact absurd hc List.not_mem_nil
  · exact absurd hsame hcontent
  · exact absurd hgone hlapsed
  · exact hall c (by rw [hmarks.watched]; exact hc)

omit [DecidableEq C] in
theorem not_lapsed (t t' : RedisServer C V) (d : ℕ) (k : Bytes) :
    ¬ Lapsed t t' d k (((t.db d).expires k).getD 0) := by
  rintro ⟨-, v, when, hcontent, hlt⟩
  obtain ⟨v', -, heq⟩ := Option.map_eq_some_iff.mp hcontent
  rw [(Prod.mk.inj heq).2] at hlt
  exact absurd hlt (lt_irrefl when)

omit [DecidableEq C] in
theorem sameData_erase (t : RedisServer C V) (cs : List C) : SameData t { t with clients := cs } :=
  ⟨fun _ => rfl, fun _ => rfl, rfl, rfl, rfl, rfl⟩

theorem freeClient_data (h : Good s) (c : C) :
    (s.freeClient c).Ensures (fun _ => False) fun s' => SameData s.server s'.server :=
  (unwatchAllKeys_spec h.twoWay c).bind fun t ht => ht.data.trans (sameData_erase t _)

theorem Good.nextCommand_dirty (h : Good s) {r : Running C V} (hr : s.running = some r) (now : ℤ)
    (htells : Tells s (.next now)) : (s.nextCommand r now).Ensures (fun _ => True) fun s' =>
      ∀ d k, Modifies s s' (.next now) d k →
        ∀ c ∈ (s.server.db d).watchedKeys k, (s'.server.client c).dirtyCas = true := by
  obtain ⟨client, exec, commands⟩ := r
  have hsame : ∀ {s' : MultiServer C V}, SameData s.server s'.server → ∀ d k,
      Modifies s s' (.next now) d k →
        ∀ c ∈ (s.server.db d).watchedKeys k, (s'.server.client c).dirtyCas = true :=
    fun hdata d k hmod => absurd (hdata.content d k) hmod.1
  cases commands with
  | nil =>
    show (if exec = true then _ else _ : Except Failure (MultiServer C V)).Ensures _ _
    split
    · exact (discardTransaction_spec (s := { s with running := none }) h.twoWay client).mono
        (fun _ _ => trivial) fun s' hs' => hsame hs'.1.data
    · exact hsame (SameData.refl _)
  | cons q rest =>
    cases q with
    | command cmd =>
      refine (call_marks h.twoWay.listed client now cmd).bind fun t ht d k hmod => ?_
      obtain ⟨pend, hmarks, hpend⟩ := ht
      refine dirty_of_marks hmarks hmod.1 hmod.2 fun hmem => ?_
      unfold Tells at htells
      rw [hr] at htells
      exact htells cmd rest rfl d k (hpend _ hmem)
    | unwatch =>
      exact ((unwatchCommand_spec h.twoWay client).mono (fun _ _ => trivial) fun _ ht => ht).bind
        fun t ht => hsame ht.data

theorem Good.topStep_dirty (h : Good s) (hrunning : s.running = none) (e : Event C V)
    (htells : Tells s e) : (s.topStep e).Ensures (fun _ => True) fun s' =>
      ∀ d k, Modifies s s' e d k →
        ∀ c ∈ (s.server.db d).watchedKeys k, (s'.server.client c).dirtyCas = true := by
  have hsame : ∀ {s' : MultiServer C V}, SameData s.server s'.server → ∀ d k,
      Modifies s s' e d k →
        ∀ c ∈ (s.server.db d).watchedKeys k, (s'.server.client c).dirtyCas = true :=
    fun hdata d k hmod => absurd (hdata.content d k) hmod.1
  have hrefl := SameData.refl s.server
  have htrue : ∀ {α : Type} {x : Except Failure α} {Q : α → Prop}, x.Ensures (fun _ => False) Q →
      x.Ensures (fun _ => True) Q := fun hx => hx.mono (fun _ _ => trivial) fun _ ha => ha
  cases e with
  | createClient c =>
    show (if c ∈ s.server.clients then _ else _ : Except Failure (MultiServer C V)).Ensures _ _
    split
    · exact hsame hrefl
    · exact hsame ⟨fun _ => rfl, fun _ => rfl, rfl, rfl, rfl, rfl⟩
  | freeClient c =>
    show (if c ∈ s.server.clients then _ else _ : Except Failure (MultiServer C V)).Ensures _ _
    split
    · exact (htrue (freeClient_data h c)).imp fun _ hdata => hsame hdata
    · exact hsame hrefl
  | command c cmds =>
    show (if c ∉ s.server.clients then _ else _ : Except Failure (MultiServer C V)).Ensures _ _
    split
    · exact hsame hrefl
    · split <;> exact hsame hrefl
  | refuse c =>
    refine hsame ?_
    unfold flagTransaction
    split <;> exact hrefl
  | multi c =>
    show (if c ∈ s.server.clients then _ else _ : Except Failure (MultiServer C V)).Ensures _ _
    split
    · refine hsame ?_
      unfold multiCommand
      split <;> exact hrefl
    · exact hsame hrefl
  | exec c =>
    show (if c ∈ s.server.clients then _ else _ : Except Failure (MultiServer C V)).Ensures _ _
    split
    · refine Ensures.bind (Q := fun r => SameData s.server r.1.server) ?_ fun _ hr => hsame hr
      unfold MultiServer.execCommand
      split
      · exact hrefl
      · split
        · exact (htrue (discardTransaction_spec (s := { s with ready := [] }) h.twoWay c)).bind
            fun _ hs => hs.1.data
        · exact (htrue (unwatchAllKeys_spec h.twoWay c)).bind fun _ ht => ht.data
    · exact hsame hrefl
  | discard c =>
    show (if c ∈ s.server.clients then _ else _ : Except Failure (MultiServer C V)).Ensures _ _
    split
    · unfold discardCommand
      split
      · exact (htrue (discardTransaction_spec h.twoWay c)).imp fun _ hs => hsame hs.1.data
      · exact hsame hrefl
    · exact hsame hrefl
  | watch c keys =>
    show (if c ∈ s.server.clients then _ else _ : Except Failure (MultiServer C V)).Ensures _ _
    split
    · rename_i hc
      refine hsame ?_
      unfold MultiServer.watchCommand
      split
      · exact hrefl
      · exact (watchForKeys_spec h.twoWay hc keys).1.data
    · exact hsame hrefl
  | unwatch c =>
    show (if c ∉ s.server.clients then _ else _ : Except Failure (MultiServer C V)).Ensures _ _
    split
    · exact hsame hrefl
    · split
      · exact hsame hrefl
      · exact (htrue (unwatchCommand_spec h.twoWay c)).bind fun _ ht => hsame ht.data
  | next now => exact hsame hrefl
  | serve d key receivers isList isEmpty now =>
    show (if (d, key) ∈ s.ready then _ else _ : Except Failure (MultiServer C V)).Ensures _ _
    split
    · rename_i hready
      refine (serveKey_marks s.server d key receivers isList isEmpty now).bind
        fun t hmarks d' k hmod => ?_
      by_cases hk : (d', k) = (d, key)
      · obtain ⟨rfl, rfl⟩ := Prod.mk.inj hk
        -- its clients were told when the key was pushed to
        intro c hc
        exact hmarks.dirty c (h.ready _ hready c hc)
      · exact dirty_of_marks hmarks hmod.1 hmod.2
          fun hmem => absurd (List.mem_singleton.mp hmem) hk
    · exact hsame hrefl
  | tryExpire d key now =>
    exact Ensures.bind (tryExpire_marks s.server d key now) fun t _ d' k hmod => hmod.2.elim
  | freeMemoryIfNeeded d key =>
    have hevict : ∀ now, (s.server.freeMemoryIfNeeded d key).Ensures (fun _ => True) fun r =>
        ∃ pend, Marks s.server r now pend ∧ ∀ q ∈ pend, q = (d, key) ∧
          ((s.server.db d).dict key).isSome := freeMemoryIfNeeded_marks s.server d key
    show (do
      let server ← s.server.freeMemoryIfNeeded d key
      Except.ok { s with server := server } : Except Failure (MultiServer C V)).Ensures _ _
    cases hr : s.server.freeMemoryIfNeeded d key with
    | error f => trivial
    | ok r =>
      intro d' k hmod
      obtain ⟨pend, hmarks, hpend⟩ := (hevict (((s.server.db d').expires k).getD 0)).of_eq_ok hr
      refine dirty_of_marks hmarks hmod.1 (not_lapsed s.server r d' k) fun hmem => ?_
      obtain ⟨heq, hkey⟩ := hpend _ hmem
      obtain ⟨rfl, rfl⟩ := Prod.mk.inj heq
      unfold Tells at htells
      rw [hrunning] at htells
      exact htells hkey
  | delKeysInSlot slot =>
    show (if s.server.clusterEnabled = true then _ else _ :
      Except Failure (MultiServer C V)).Ensures _ _
    split
    · exact (delKeysInSlot_marks s.server slot 0).bind fun t _ d' k hmod => hmod.2.elim
    · exact hsame hrefl
  | emptyDb =>
    intro d k hmod
    exact dirty_of_marks (flush_marks (w := fun d => decide (d < s.server.dbnum)) _
      h.twoWay.listed fun d _ => Or.inl rfl) hmod.1 (not_lapsed s.server _ d k)
      fun hmem => absurd hmem List.not_mem_nil
  | config masterhost loading => exact hsame ⟨fun _ => rfl, fun _ => rfl, rfl, rfl, rfl, rfl⟩

theorem Good.dirty (h : Good s) {e : Event C V} (htells : Tells s e) (hstep : s.step e = .ok s')
    {d : ℕ} {k : Bytes} (hmod : Modifies s s' e d k) :
    ∀ c ∈ (s.server.db d).watchedKeys k, (s'.server.client c).dirtyCas = true := by
  unfold MultiServer.step at hstep
  cases hrunning : s.running with
  | none =>
    rw [hrunning] at hstep
    exact (h.topStep_dirty hrunning e htells).of_eq_ok hstep d k hmod
  | some r =>
    rw [hrunning] at hstep
    have hsame : SameData s.server s'.server →
        ∀ c ∈ (s.server.db d).watchedKeys k, (s'.server.client c).dirtyCas = true :=
      fun hdata => absurd (hdata.content d k) hmod.1
    dsimp only at hstep
    split at hstep
    · exact (h.nextCommand_dirty hrunning _ htells).of_eq_ok hstep d k hmod
    · split at hstep
      · exact hsame ((freeClient_data h _).of_eq_ok hstep)
      · obtain rfl := Except.ok.inj hstep
        exact hsame (SameData.refl _)
    · obtain rfl := Except.ok.inj hstep
      exact hsame (SameData.refl _)

/-! ### Dirty clients -/

section
variable {t t' : RedisServer C V}

end

/-- The steps of a run. -/
def stepOption (s : MultiServer C V) (e : Event C V) : Option (MultiServer C V) :=
  (s.step e).toOption

theorem good_of_run (h : Good s) {es : List (Event C V)} (hrun : Runs.run stepOption s es = some s') :
    Good s' :=
  Runs.run_invariant (fun _ e _ ht hstep => (ht.step e).of_eq_ok (toOption_eq_some.mp hstep)) h hrun

end

/-! ### Two clients -/

end MultiServer

/-
RENAME, RENAMENX and MOVE (`renameGenericCommand`, `moveCommand`): a key takes its value and its
expire to another place.

Every lookup reads the clock, so that a command has two times.

* `Relocated` — what the commands are for;
* `renameGenericCommand_spec`, `moveCommand_spec` — what they do;
* `moves_expire` — when this is what they are for.
-/
import RedisModel.WatchRun

open Except ByteBuffer RedisServer

namespace KeyMoves

/-! ### The commands -/

inductive KeyReply where
  | ok
  | nullbulk
  | integer (n : ℤ)
  | error (message : String)
  deriving DecidableEq, Repr

namespace KeyReply

def cone : KeyReply := .integer 1

def czero : KeyReply := .integer 0

def nokeyerr : KeyReply := .error "-ERR no such key\r\n"

def sameobjecterr : KeyReply := .error "-ERR source and destination objects are the same\r\n"

def outofrangeerr : KeyReply := .error "-ERR index out of range\r\n"

end KeyReply

section
variable {C V : Type} [DecidableEq C]

def renameGenericCommand (s : RedisServer C V) (d : ℕ) (src dst : Bytes) (nx : Bool)
    (now now' : ℤ) : Except Failure (RedisServer C V × KeyReply) := do
  if src = dst then .ok (s, .sameobjecterr)
  else do
    let r ← lookupKeyWrite s d src now
    match r.2 with
    | none => .ok (r.1, .nokeyerr)
    | some o => do
      let expire ← getExpire r.1 d src
      let r' ← lookupKeyWrite r.1 d dst now'
      if r'.2.isSome && nx then .ok (r'.1, .czero)
      else do
        let r ← (if r'.2.isSome then dbDelete r'.1 d dst else .ok (r'.1, false))
        let s ← dbAdd r.1 d dst o
        let s ← (if expire ≠ -1 then setExpire s d dst expire else .ok s)
        let r ← dbDelete s d src
        .ok (signalModifiedKey (signalModifiedKey r.1 d src) d dst, if nx then .cone else .ok)

omit [DecidableEq C] in
/-- `moveCommand`, without `signalModifiedKey`. -/
def moveCommand (s : RedisServer C V) (d : ℕ) (key : Bytes) (db : ℤ) (now now' : ℤ) :
    Except Failure (RedisServer C V × KeyReply) := do
  if s.clusterEnabled then .ok (s, .error "-ERR MOVE is not allowed in cluster mode\r\n")
  else if db < 0 ∨ (s.dbnum : ℤ) ≤ db then .ok (s, .outofrangeerr)
  else if db.toNat = d then .ok (s, .sameobjecterr)
  else do
    let r ← lookupKeyWrite s d key now
    match r.2 with
    | none => .ok (r.1, .czero)
    | some o => do
      let r' ← lookupKeyWrite r.1 db.toNat key now'
      if r'.2.isSome then .ok (r'.1, .czero)
      else do
        let s ← dbAdd r'.1 db.toNat key o
        let r ← dbDelete s d key
        .ok (r.1, .cone)

omit [DecidableEq C] in
/-- What the commands do to the keys: the value and the expire of the source get to the destination,
the source is gone, no other key changes, and who watches one of the two is told. -/
structure Relocated (s : RedisServer C V) (d : ℕ) (src : Bytes) (d' : ℕ) (dst : Bytes)
    (s' : RedisServer C V) : Prop where
  value : (s'.db d').dict dst = (s.db d).dict src
  expire : (s'.db d').expires dst = (s.db d).expires src
  gone : (s'.db d).dict src = none ∧ (s'.db d).expires src = none
  other : ∀ e k, (e, k) ≠ (d, src) → (e, k) ≠ (d', dst) →
    (s'.db e).dict k = (s.db e).dict k ∧ (s'.db e).expires k = (s.db e).expires k
  dirty : ∀ c, c ∈ (s.db d).watchedKeys src ∨ c ∈ (s.db d').watchedKeys dst →
    (s'.client c).dirtyCas = true

/-! ### RENAME -/

variable {s : RedisServer C V} {d : ℕ} {src dst key : Bytes} {now now' : ℤ}

/-- A database after RENAME; an expire of -1 is lost. -/
def renamed (db : RedisDb C V) (src dst : Bytes) : RedisDb C V :=
  { db with
    dict := Function.update (Function.update db.dict dst (db.dict src)) src none
    expires := Function.update (Function.update db.expires dst
      (if db.expires src = some (-1) then none else db.expires src)) src none }

omit [DecidableEq C] in
theorem clear_spec (h : Indexed s) (hd : s.clusterEnabled = true → d = 0) (key : Bytes) (now : ℤ)
    (keep : Bool) : (lookupKeyWrite s d key now).Ensures (fun _ => False) fun r =>
      (r.2.isSome && keep) = false →
      (if r.2.isSome then dbDelete r.1 d key else .ok (r.1, false)).Ensures (fun _ => False) fun r' =>
        Indexed r'.1 ∧ Rest s r'.1 ∧ r'.1.db = (s.setDb d (without (s.db d) key)).db := by
  refine (lookupKeyWrite_cases h hd key now).imp fun r hr _ => ?_
  obtain ⟨hindexed, hrest, ⟨o, hval, ho, hdb⟩ | ⟨hval, hdb⟩⟩ := hr
  · rw [hval, if_pos Option.isSome_some]
    refine (dbDelete_spec hindexed (hrest.clusterEnabled ▸ hd) key).imp fun r' hr' => ?_
    refine ⟨hr'.1, hrest.trans hr'.2.1, ?_⟩
    rw [hr'.2.2.1]
    unfold setDb
    rw [hdb]
  · rw [hval]
    exact ⟨hindexed, hrest, hdb⟩

omit [DecidableEq C] in
theorem copyExpire_spec (h : Indexed s) (hkey : ((s.db d).dict key).isSome)
    (hnone : (s.db d).expires key = none) (expire : Option ℤ) :
    (if expire.getD (-1) ≠ -1 then setExpire s d key (expire.getD (-1)) else .ok s).Ensures
      (fun _ => False) fun r => Indexed r ∧ Rest s r ∧ r.db = (s.setDb d { s.db d with
        expires := Function.update (s.db d).expires key
          (if expire = some (-1) then none else expire) }).db := by
  have hsame : s.db = (s.setDb d { s.db d with
      expires := Function.update (s.db d).expires key none }).db := by
    rw [← hnone, Function.update_eq_self]
    exact (Function.update_eq_self _ _).symm
  cases expire with
  | none => exact ⟨h, Rest.refl s, hsame⟩
  | some when =>
    rw [Option.getD_some]
    by_cases hwhen : when = -1
    · rw [if_neg fun hne => hne hwhen, if_pos (congrArg some hwhen)]
      exact ⟨h, Rest.refl s, hsame⟩
    · rw [if_pos hwhen, if_neg fun heq => hwhen (Option.some_inj.mp heq)]
      exact setExpire_spec h hkey when

theorem renameGenericCommand_spec (h : Indexed s) (hd : s.clusterEnabled = true → d = 0) (nx : Bool) :
    (renameGenericCommand s d src dst nx now now').Ensures (fun _ => False) fun r =>
      r.2 = (if nx then .cone else .ok) → src ≠ dst ∧
        r.1.db = (s.setDb d (renamed (s.db d) src dst)).db ∧
        r.1.client = (signalModifiedKey (signalModifiedKey s d src) d dst).client := by
  have hfail : ∀ {reply : KeyReply}, reply = .czero ∨ (∃ message, reply = .error message) →
      reply ≠ (if nx then .cone else .ok) := by
    rintro reply (rfl | ⟨message, rfl⟩) <;> cases nx <;> exact nofun
  rw [renameGenericCommand]
  split
  · exact fun h => absurd h (hfail (.inr ⟨_, rfl⟩))
  rename_i hne
  refine (lookupKeyWrite_cases h hd src now).bind fun r hr => ?_
  obtain ⟨hindexed, hrest, ⟨o, hval, ho, hdb⟩ | ⟨hval, -⟩⟩ := hr
  · rw [hval]
    dsimp only
    rw [getExpire_spec hindexed, ok_bind, hdb]
    refine (clear_spec hindexed (hrest.clusterEnabled ▸ hd) dst now' nx).bind fun r' hr' => ?_
    split
    · exact fun h => absurd h (hfail (.inl rfl))
    rename_i hkeep
    refine (hr' (Bool.eq_false_of_not_eq_true hkeep)).bind fun r₂ hr₂ => ?_
    obtain ⟨hindexed₂, hrest₂, hdb₂⟩ := hr₂
    have hrest₂' := hrest.trans hrest₂
    have hnone : (r₂.1.db d).dict dst = none := by
      rw [hdb₂, setDb_self]
      exact Function.update_self _ _ _
    refine (dbAdd_spec hindexed₂ (hrest₂'.clusterEnabled ▸ hd) hnone o).bind fun s₃ hs₃ => ?_
    obtain ⟨hindexed₃, hrest₃, hdb₃⟩ := hs₃
    have hadded : s₃.db d = { s.db d with
        dict := Function.update (s.db d).dict dst (some o)
        expires := Function.update (s.db d).expires dst none } := by
      rw [hdb₃, setDb_self, hdb₂, setDb_self, hdb]
      unfold without
      rw [Function.update_idem]
    refine (copyExpire_spec hindexed₃ (by rw [hadded]; simp) (by rw [hadded]; simp) _).bind
      fun s₄ hs₄ => ?_
    obtain ⟨hindexed₄, hrest₄, hdb₄⟩ := hs₄
    have hrest' := hrest₂'.trans (hrest₃.trans hrest₄)
    refine (dbDelete_spec hindexed₄ (hrest'.clusterEnabled ▸ hd) src).bind fun r₅ hr₅ _ => ?_
    obtain ⟨-, hrest₅, hdb₅, -⟩ := hr₅
    have hlast : s₄.db d = { s.db d with
        dict := Function.update (s.db d).dict dst (some o)
        expires := Function.update (s.db d).expires dst
          (if (s.db d).expires src = some (-1) then none else (s.db d).expires src) } := by
      rw [hdb₄, setDb_self, hadded]
      dsimp only
      rw [Function.update_idem]
    have hdone : r₅.1.db = (s.setDb d (renamed (s.db d) src dst)).db := by
      rw [hdb₅, hlast, renamed, ho]
      unfold setDb at hdb₄ hdb₃ hdb₂ ⊢
      rw [hdb₄, hdb₃, hdb₂, hdb]
      dsimp only
      simp only [Function.update_idem]
      rfl
    have hclient : r₅.1.client = s.client := (hrest'.trans hrest₅).client
    have hwatched : (r₅.1.db d).watchedKeys = (s.db d).watchedKeys := by
      rw [hdone, setDb_self]
      rfl
    refine ⟨hne, hdone, ?_⟩
    unfold signalModifiedKey touchWatchedKey
    dsimp only
    rw [hclient, hwatched]
  · rw [hval]
    exact fun h => absurd h (hfail (.inr ⟨_, rfl⟩))

/-- RENAME is right unless the expire is the number that stands for none. -/
theorem relocated_rename_iff {s' : RedisServer C V} (hne : src ≠ dst)
    (hdb : s'.db = (s.setDb d (renamed (s.db d) src dst)).db)
    (hclient : s'.client = (signalModifiedKey (signalModifiedKey s d src) d dst).client) :
    Relocated s d src d dst s' ↔ (s.db d).expires src ≠ some (-1) := by
  have hdb' : s'.db d = renamed (s.db d) src dst := by rw [hdb, setDb_self]
  have hexpire : (s'.db d).expires dst
      = if (s.db d).expires src = some (-1) then none else (s.db d).expires src := by
    rw [hdb']
    exact (Function.update_of_ne hne.symm _ _).trans (Function.update_self _ _ _)
  constructor
  · intro h hlost
    have hnone := h.expire
    rw [hexpire, if_pos hlost, hlost] at hnone
    cases hnone
  · intro hkept
    refine ⟨?_, by rw [hexpire, if_neg hkept], ?_, fun e k hsrc hdst => ?_, fun c hc => ?_⟩
    · rw [hdb']
      exact (Function.update_of_ne hne.symm _ _).trans (Function.update_self _ _ _)
    · rw [hdb']
      exact ⟨Function.update_self _ _ _, Function.update_self _ _ _⟩
    · by_cases he : e = d
      · subst he
        have hk : k ≠ src := fun heq => hsrc (congrArg (Prod.mk e) heq)
        have hk' : k ≠ dst := fun heq => hdst (congrArg (Prod.mk e) heq)
        rw [hdb']
        exact ⟨(Function.update_of_ne hk _ _).trans (Function.update_of_ne hk' _ _),
          (Function.update_of_ne hk _ _).trans (Function.update_of_ne hk' _ _)⟩
      · rw [hdb, setDb_of_ne s he]
        exact ⟨rfl, rfl⟩
    · rw [hclient]
      unfold signalModifiedKey touchWatchedKey
      dsimp only
      split
      · rfl
      · rename_i hdst
        rw [if_pos (hc.resolve_right hdst)]

/-! ### MOVE -/

/-- The databases after MOVE. -/
def moved (s : RedisServer C V) (d d' : ℕ) (key : Bytes) : RedisServer C V :=
  (s.setDb d' { s.db d' with
    dict := Function.update (s.db d').dict key ((s.db d).dict key)
    expires := Function.update (s.db d').expires key none }).setDb d (without (s.db d) key)

omit [DecidableEq C] in
theorem moveCommand_spec (h : Indexed s) (hd : s.clusterEnabled = true → d = 0) (db : ℤ) :
    (moveCommand s d key db now now').Ensures (fun _ => False) fun r =>
      r.2 = .cone → db.toNat ≠ d ∧ r.1.db = (moved s d db.toNat key).db ∧
        r.1.client = s.client := by
  rw [moveCommand]
  split
  · exact nofun
  rename_i hcluster
  split
  · exact nofun
  split
  · exact nofun
  rename_i hne
  refine (lookupKeyWrite_cases h hd key now).bind fun r hr => ?_
  obtain ⟨hindexed, hrest, ⟨o, hval, ho, hdb⟩ | ⟨hval, -⟩⟩ := hr
  · rw [hval]
    dsimp only
    have hno : ∀ {t : RedisServer C V}, Rest s t → t.clusterEnabled = true → db.toNat = 0 :=
      fun hrest hyes => absurd (hrest.clusterEnabled ▸ hyes) hcluster
    refine (lookupKeyWrite_cases hindexed (hno hrest) key now').bind fun r' hr' => ?_
    obtain ⟨hindexed₁, hrest₁, ⟨o', hval', -, -⟩ | ⟨hval', hdb₁⟩⟩ := hr'
    · rw [hval']
      exact nofun
    rw [hval', if_neg (Option.isSome_none ▸ Bool.false_ne_true)]
    have hrest₁' := hrest.trans hrest₁
    have hnone : (r'.1.db db.toNat).dict key = none := by
      rw [hdb₁, setDb_self]
      exact Function.update_self _ _ _
    refine (dbAdd_spec hindexed₁ (hno hrest₁') hnone o).bind fun s₂ hs₂ => ?_
    obtain ⟨hindexed₂, hrest₂, hdb₂⟩ := hs₂
    have hrest₂' := hrest₁'.trans hrest₂
    refine (dbDelete_spec hindexed₂ (hrest₂'.clusterEnabled ▸ hd) key).bind fun r₃ hr₃ _ => ?_
    obtain ⟨-, hrest₃, hdb₃, -⟩ := hr₃
    refine ⟨hne, ?_, (hrest₂'.trans hrest₃).client⟩
    have hadded : s₂.db = (s.setDb db.toNat { s.db db.toNat with
        dict := Function.update (s.db db.toNat).dict key (some o)
        expires := Function.update (s.db db.toNat).expires key none }).db := by
      have hcleared : r'.1.db = (s.setDb db.toNat (without (s.db db.toNat) key)).db := by
        rw [hdb₁, hdb]
        unfold setDb
        rw [hdb]
      have hself : r'.1.db db.toNat = without (s.db db.toNat) key := by rw [hcleared, setDb_self]
      rw [hdb₂, hself]
      unfold setDb at hcleared ⊢
      rw [hcleared]
      unfold without
      dsimp only
      rw [Function.update_idem, Function.update_idem]
    have hsource : s₂.db d = s.db d := by rw [hadded, setDb_of_ne s (Ne.symm hne)]
    rw [hdb₃, hsource, moved, ho]
    unfold setDb at hadded ⊢
    dsimp only
    rw [hadded]
  · rw [hval]
    exact nofun

omit [DecidableEq C] in
theorem relocated_move_iff {s' : RedisServer C V} {d' : ℕ} (hne : d' ≠ d)
    (hdb : s'.db = (moved s d d' key).db) (hclient : s'.client = s.client) :
    Relocated s d key d' key s' ↔ (s.db d).expires key = none ∧
      ∀ c, c ∈ (s.db d).watchedKeys key ∨ c ∈ (s.db d').watchedKeys key →
        (s.client c).dirtyCas = true := by
  have hsrc : s'.db d = without (s.db d) key := by rw [hdb, moved, setDb_self]
  have hdst : s'.db d' = { s.db d' with
      dict := Function.update (s.db d').dict key ((s.db d).dict key)
      expires := Function.update (s.db d').expires key none } := by
    rw [hdb, moved, setDb_of_ne _ hne, setDb_self]
  have hexpire : (s'.db d').expires key = none := by
    rw [hdst]
    exact Function.update_self _ _ _
  constructor
  · intro h
    exact ⟨h.expire.symm.trans hexpire, fun c hc => hclient ▸ h.dirty c hc⟩
  · rintro ⟨hnone, hdirty⟩
    refine ⟨?_, hexpire.trans hnone.symm, ?_, fun e k hk hk' => ?_, fun c hc => ?_⟩
    · rw [hdst]
      exact Function.update_self _ _ _
    · rw [hsrc]
      exact ⟨Function.update_self _ _ _, Function.update_self _ _ _⟩
    · by_cases he : e = d
      · subst he
        have hne' : k ≠ key := fun heq => hk (congrArg (Prod.mk e) heq)
        rw [hsrc]
        exact ⟨Function.update_of_ne hne' _ _, Function.update_of_ne hne' _ _⟩
      · by_cases he' : e = d'
        · subst he'
          have hne' : k ≠ key := fun heq => hk' (congrArg (Prod.mk e) heq)
          rw [hdst]
          exact ⟨Function.update_of_ne hne' _ _, Function.update_of_ne hne' _ _⟩
        · rw [hdb, moved, setDb_of_ne _ he, setDb_of_ne _ he']
          exact ⟨rfl, rfl⟩
    · rw [hclient]
      exact hdirty c hc

end

/-! ### Results -/

/-- In every reachable state, with any clients watching any keys: a RENAME or RENAMENX that
succeeds moves the key with its expire and tells who watches it, unless the expire is -1; a MOVE
that succeeds does so only if there is no expire and nobody is to be told. -/
theorem moves_expire {C V : Type} [DecidableEq C] (dbs : ℕ) (clusterEnabled : Bool)
    (levels : ℕ → Fin 32) {es : List (MultiServer.Event C V)} {m : MultiServer C V}
    (hrun : Runs.run MultiServer.stepOption (MultiServer.initServer dbs clusterEnabled levels) es
      = some m) (c : C) (now now' : ℤ) :
    (∀ src dst nx s', renameGenericCommand m.server (m.server.client c).db src dst nx now now'
        = .ok (s', if nx then .cone else .ok) →
      (Relocated m.server (m.server.client c).db src (m.server.client c).db dst s' ↔
        (m.server.db (m.server.client c).db).expires src ≠ some (-1))) ∧
    ∀ key db s', moveCommand m.server (m.server.client c).db key db now now' = .ok (s', .cone) →
      (Relocated m.server (m.server.client c).db key db.toNat key s' ↔
        (m.server.db (m.server.client c).db).expires key = none ∧
          ∀ w, w ∈ (m.server.db (m.server.client c).db).watchedKeys key ∨
            w ∈ (m.server.db db.toNat).watchedKeys key → (m.server.client w).dirtyCas = true) := by
  have hgood := MultiServer.good_of_run (MultiServer.good_initServer dbs clusterEnabled levels) hrun
  have hindexed := hgood.sound.indexed
  have hd : m.server.clusterEnabled = true → (m.server.client c).db = 0 :=
    fun hc => hgood.sound.zero hc c
  refine ⟨fun src dst nx s' hok => ?_, fun key db s' hok => ?_⟩
  · obtain ⟨hne, hdb, hclient⟩ := (renameGenericCommand_spec hindexed hd nx).of_eq_ok hok rfl
    exact relocated_rename_iff hne hdb hclient
  · obtain ⟨hne, hdb, hclient⟩ := (moveCommand_spec hindexed hd db).of_eq_ok hok rfl
    exact relocated_move_iff hne hdb hclient

/-- `RENAME a b` after `SET a`. -/
theorem moves_expire_ab : ∃ (m : MultiServer Unit Unit) (s' : RedisServer Unit Unit),
    Runs.run MultiServer.stepOption (MultiServer.initServer 15 false fun _ => 0)
      [.createClient (), .command () [.set [97] () false false (some 1000)], .next 5, .next 5]
      = some m ∧
    renameGenericCommand m.server 0 [97] [98] false 6 7 = .ok (s', .ok) ∧
    (Relocated m.server 0 [97] 0 [98] s' ↔ (m.server.db 0).expires [97] ≠ some (-1)) := by
  refine ⟨_, _, rfl, rfl, ?_⟩
  exact (moves_expire 15 false (fun _ => 0)
    (show Runs.run MultiServer.stepOption (MultiServer.initServer 15 false fun _ => 0)
      [.createClient (), .command () [.set [97] () false false (some 1000)], .next 5, .next 5]
      = some _ from rfl) () 6 7).1 [97] [98] false _ rfl

/-- MOVE loses the expire, and does not tell the client that watches the key. -/
theorem moves_expire_lost : ∃ (m : MultiServer Unit Unit) (s' : RedisServer Unit Unit),
    Runs.run MultiServer.stepOption (MultiServer.initServer 15 false fun _ => 0)
      [.createClient (), .command () [.set [97] () false false (some 1000)], .next 5, .next 5,
        .watch () [[97]]] = some m ∧
    moveCommand m.server 0 [97] 1 6 7 = .ok (s', .cone) ∧
    (m.server.db 0).expires [97] = some 1005 ∧ (s'.db 1).expires [97] = none ∧
    () ∈ (m.server.db 0).watchedKeys [97] ∧ (s'.client ()).dirtyCas = false :=
  ⟨_, _, rfl, rfl, rfl, rfl, List.mem_singleton_self _, rfl⟩

end KeyMoves
